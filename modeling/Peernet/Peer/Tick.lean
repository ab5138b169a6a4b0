-- SUMMARY: One iteration of autoPingAll seen from one connection: steps on other connections leave it alone, and a connection quiet past its threshold ends the tick inactive.
import Peernet.Peer.KeepAlive

/-!
# One connection through a tick

The two loops of `autoPingAll` change a peer's lists as they go, so the step on one connection
runs on a record that the earlier steps changed. Each step touches only its own connection: the
list it is on, its object in the heap and the pings sent to it (`Sweep.AgreeAt`). So in the loop
over the active connections every active connection ends as the one step on it from the start
of the tick leaves it, and every other connection as it started (`activePass_agreeAt`).

A connection quiet past its invalidation threshold (22 s, or 88 s when Redundant) is moved to
the inactive list by the first loop, without a ping. The second loop runs over the inactive list
as the first loop left it, so it reaches that connection in the same tick; the connection has
just been given its expiry two minutes ahead, so it is pinged there exactly when its last ping is
more than 10 s old (`sweep_quiet_connection`).
-/

namespace Peernet

variable {κ : Type}

/-- `s` and `t` agree on connection `c`: on the lists it is on, on its object, and on the pings
sent to it. -/
structure Sweep.AgreeAt (c : Nat) (s t : Sweep κ) : Prop where
  active : c ∈ s.peer.connectionActive ↔ c ∈ t.peer.connectionActive
  inactive : c ∈ s.peer.connectionInactive ↔ c ∈ t.peer.connectionInactive
  heap : s.heap c = t.heap c
  pings : s.pings.filter (·.connection = c) = t.pings.filter (·.connection = c)

namespace Sweep.AgreeAt

variable {c : Nat} {s t u : Sweep κ}

theorem refl (s : Sweep κ) : s.AgreeAt c s := ⟨.rfl, .rfl, rfl, rfl⟩

theorem trans (h₁ : s.AgreeAt c t) (h₂ : t.AgreeAt c u) : s.AgreeAt c u :=
  ⟨h₁.active.trans h₂.active, h₁.inactive.trans h₂.inactive, h₁.heap.trans h₂.heap,
    h₁.pings.trans h₂.pings⟩

end Sweep.AgreeAt

/-! ## Steps on other connections -/

section Frame

variable {c c' : Nat} (now : Int) (send : Nat → Option String) (s : Sweep κ)

theorem invalidateActiveConnection_agreeAt (hne : c' ≠ c) :
    (invalidateActiveConnection now c' s).AgreeAt c s := by
  unfold invalidateActiveConnection
  split
  · refine ⟨List.mem_erase_of_ne hne.symm, ?_, Function.update_noteq hne.symm _ _, rfl⟩
    simp [PeerInfo.moveInactive, hne.symm]
  · exact .refl s

theorem removeInactiveConnection_agreeAt (hne : c' ≠ c) :
    (removeInactiveConnection c' s).AgreeAt c s :=
  ⟨.rfl, List.mem_erase_of_ne hne.symm, rfl, rfl⟩

theorem sendPing_agreeAt (b : Bool) (hne : c' ≠ c) : (sendPing now send b c' s).AgreeAt c s := by
  have hping : Sweep.AgreeAt c
      { s with
        heap := Function.update s.heap c' { s.heap c' with lastPingOut := now }
        pings := s.pings ++ [⟨c', now, (s.heap c').status, b⟩] } s :=
    ⟨.rfl, .rfl, Function.update_noteq hne.symm _ _, by simp [hne]⟩
  dsimp only [sendPing]
  split
  · exact (invalidateActiveConnection_agreeAt now _ hne).trans hping
  · exact hping

theorem activeStep_agreeAt (hne : c' ≠ c) : (activeStep now send s c').AgreeAt c s := by
  dsimp only [activeStep]
  split_ifs
  all_goals first
    | exact invalidateActiveConnection_agreeAt now s hne
    | exact sendPing_agreeAt now send s true hne
    | exact .refl s

theorem inactiveStep_agreeAt (hne : c' ≠ c) : (inactiveStep now send s c').AgreeAt c s := by
  unfold inactiveStep
  split_ifs
  · exact removeInactiveConnection_agreeAt s hne
  · exact sendPing_agreeAt now send s false hne
  · exact .refl s

/-- A loop over connections other than `c` leaves `c` alone. -/
theorem foldl_agreeAt {f : Sweep κ → Nat → Sweep κ}
    (hf : ∀ s c', c' ≠ c → (f s c').AgreeAt c s) :
    ∀ (l : List Nat) (s : Sweep κ), c ∉ l → (l.foldl f s).AgreeAt c s
  | [], s, _ => .refl s
  | c' :: l, s, hc => by
    rw [List.foldl_cons]
    exact (foldl_agreeAt hf l _ fun h => hc (List.mem_cons_of_mem _ h)).trans
      (hf s c' fun h => hc (h ▸ List.mem_cons_self _ _))

end Frame

/-! ## The step on the connection itself -/

section Congr

variable {c : Nat} (now : Int) (send : Nat → Option String) {s t : Sweep κ}

theorem invalidateActiveConnection_congr (h : s.AgreeAt c t) (hs : s.peer.connectionActive.Nodup)
    (ht : t.peer.connectionActive.Nodup) :
    (invalidateActiveConnection now c s).AgreeAt c (invalidateActiveConnection now c t) := by
  unfold invalidateActiveConnection
  by_cases hcs : c ∈ s.peer.connectionActive
  · rw [if_pos hcs, if_pos (h.active.mp hcs)]
    refine ⟨?_, ?_, by simp [h.heap], h.pings⟩
    · simp [PeerInfo.moveInactive, hs.mem_erase_iff, ht.mem_erase_iff]
    · simp [PeerInfo.moveInactive]
  · rw [if_neg hcs, if_neg (mt h.active.mpr hcs)]
    exact h

theorem sendPing_congr (b : Bool) (h : s.AgreeAt c t) (hs : s.peer.connectionActive.Nodup)
    (ht : t.peer.connectionActive.Nodup) :
    (sendPing now send b c s).AgreeAt c (sendPing now send b c t) := by
  have hping : Sweep.AgreeAt c
      { s with
        heap := Function.update s.heap c { t.heap c with lastPingOut := now }
        pings := s.pings ++ [⟨c, now, (t.heap c).status, b⟩] }
      { t with
        heap := Function.update t.heap c { t.heap c with lastPingOut := now }
        pings := t.pings ++ [⟨c, now, (t.heap c).status, b⟩] } :=
    ⟨h.active, h.inactive, by simp, by simp [h.pings]⟩
  simp only [sendPing, h.heap]
  split_ifs
  · exact invalidateActiveConnection_congr now hping hs ht
  · exact hping

/-- The step of the active loop on `c` depends on `c` alone. -/
theorem activeStep_congr (h : s.AgreeAt c t) (hs : s.peer.connectionActive.Nodup)
    (ht : t.peer.connectionActive.Nodup) :
    (activeStep now send s c).AgreeAt c (activeStep now send t c) := by
  simp only [activeStep, h.heap]
  split_ifs
  all_goals first
    | exact invalidateActiveConnection_congr now h hs ht
    | exact sendPing_congr now send true h hs ht
    | exact h

end Congr

/-! ## The loop over the active connections -/

theorem foldl_activeStep_wellFormed (now : Int) (send : Nat → Option String) (l : List Nat)
    {s : Sweep κ} (hwf : s.peer.WellFormed) : (l.foldl (activeStep now send) s).peer.WellFormed :=
  List.foldlRecOn (motive := fun s : Sweep κ => s.peer.WellFormed) _ _ _ hwf
    fun _ hs _ _ => hs.activeStep now send _

/-- A connection on a duplicate-free list splits it around its only occurrence. -/
theorem split_of_nodup_mem {l : List Nat} {c : Nat} (hnd : l.Nodup) (hc : c ∈ l) :
    ∃ l₁ l₂, l = l₁ ++ c :: l₂ ∧ c ∉ l₁ ∧ c ∉ l₂ := by
  obtain ⟨l₁, l₂, rfl⟩ := List.append_of_mem hc
  obtain ⟨-, hcl₂, hdis⟩ := List.nodup_append.mp hnd
  exact ⟨l₁, l₂, rfl, fun h => hdis h (List.mem_cons_self _ _), (List.nodup_cons.mp hcl₂).1⟩

theorem foldl_activeStep_agreeAt (now : Int) (send : Nat → Option String) {s : Sweep κ}
    (hwf : s.peer.WellFormed) {c : Nat} (hc : c ∈ s.peer.connectionActive) :
    (s.peer.connectionActive.foldl (activeStep now send) s).AgreeAt c (activeStep now send s c) := by
  obtain ⟨l₁, l₂, hl, h₁, h₂⟩ := split_of_nodup_mem hwf.active_nodup hc
  rw [hl, List.foldl_append, List.foldl_cons]
  have hs₁ := foldl_agreeAt (fun s _ hne => activeStep_agreeAt now send s hne) l₁ s h₁
  exact (foldl_agreeAt (fun s _ hne => activeStep_agreeAt now send s hne) l₂ _ h₂).trans
    (activeStep_congr now send hs₁ (foldl_activeStep_wellFormed now send l₁ hwf).active_nodup
      hwf.active_nodup)

/-- In the loop over the active connections, each active connection ends as the one step on it
from the start of the tick leaves it, and every other connection ends as it started: the steps
on the other connections do not touch it. -/
theorem activePass_agreeAt (now : Int) (send : Nat → Option String) {s : Sweep κ}
    (hwf : s.peer.WellFormed) :
    (∀ c ∈ s.peer.connectionActive,
      (s.peer.connectionActive.foldl (activeStep now send) s).AgreeAt c (activeStep now send s c)) ∧
    ∀ c ∉ s.peer.connectionActive,
      (s.peer.connectionActive.foldl (activeStep now send) s).AgreeAt c s :=
  ⟨fun _ hc => foldl_activeStep_agreeAt now send hwf hc,
    fun _ hc => foldl_agreeAt (fun s _ hne => activeStep_agreeAt now send s hne) _ s hc⟩

/-- A peer with one active connection `0`, silent and never pinged since time `0`. -/
def quietPeer : Sweep Nat :=
  ⟨⟨0, 7, [0], [], 0⟩, fun _ => ⟨.active, 0, 0, 0⟩, []⟩

theorem quietPeer_wellFormed : quietPeer.peer.WellFormed :=
  ⟨List.nodup_singleton 0, List.nodup_nil, List.disjoint_nil_right _, .inl (List.cons_ne_nil _ _)⟩

theorem activePass_agreeAt_quietPeer :
    quietPeer.peer.WellFormed ∧
      (∀ c ∈ quietPeer.peer.connectionActive,
        (quietPeer.peer.connectionActive.foldl (activeStep (30 * second) fun _ => none)
          quietPeer).AgreeAt c (activeStep (30 * second) (fun _ => none) quietPeer c)) ∧
      ∀ c ∉ quietPeer.peer.connectionActive,
        (quietPeer.peer.connectionActive.foldl (activeStep (30 * second) fun _ => none)
          quietPeer).AgreeAt c quietPeer :=
  ⟨quietPeer_wellFormed, activePass_agreeAt _ _ quietPeer_wellFormed⟩

/-! ## A quiet connection through the whole tick -/

/-- An inactive connection that has not expired is pinged by the inactive loop exactly when its
last ping is more than `pingTime` old, and stays where it is. -/
theorem inactiveStep_of_not_expired (now : Int) (send : Nat → Option String) (s : Sweep κ)
    {c : Nat} (hexp : ¬ (s.heap c).expires < now) (hst : (s.heap c).status = .inactive) :
    inactiveStep now send s c =
      if (s.heap c).lastPingOut < now - pingTime * second then
        { s with
          heap := Function.update s.heap c { s.heap c with lastPingOut := now }
          pings := s.pings ++ [⟨c, now, .inactive, false⟩] }
      else s := by
  unfold inactiveStep
  rw [if_neg fun h => hexp h.2]
  split_ifs
  · simp [sendPing, hst]
  · rfl

theorem invalidateActiveConnection_self (now : Int) {s : Sweep κ} (hwf : s.peer.WellFormed)
    {c : Nat} (hc : c ∈ s.peer.connectionActive) :
    c ∉ (invalidateActiveConnection now c s).peer.connectionActive ∧
      c ∈ (invalidateActiveConnection now c s).peer.connectionInactive ∧
      (invalidateActiveConnection now c s).heap c =
        { s.heap c with status := .inactive, expires := now + connectionRemove * second } ∧
      (invalidateActiveConnection now c s).pings = s.pings := by
  simp [invalidateActiveConnection, hc, PeerInfo.moveInactive, hwf.active_nodup.mem_erase_iff]

/-- A connection on the active list that is quiet past its invalidation threshold (`22` s, or
four times that when Redundant) ends the tick on the inactive list. The active loop moves it
without a ping; the inactive loop then reaches it in the same tick, unexpired, and pings it
exactly when its last ping is more than `pingTime` old. -/
theorem sweep_quiet_connection (now : Int) (send : Nat → Option String) {s : Sweep κ}
    (hwf : s.peer.WellFormed) {c : Nat} (hc : c ∈ s.peer.connectionActive)
    (hquiet : (s.heap c).lastPacketIn <
      if (s.heap c).status = .redundant then now - connectionInvalidate * second * 4
      else now - connectionInvalidate * second) :
    c ∉ (sweep now send s).peer.connectionActive ∧
      c ∈ (sweep now send s).peer.connectionInactive ∧
      (sweep now send s).pings.filter (·.connection = c) =
        s.pings.filter (·.connection = c) ++
          if (s.heap c).lastPingOut < now - pingTime * second then [⟨c, now, .inactive, false⟩]
          else [] := by
  -- the loop over the active connections invalidates `c`
  have hstep : activeStep now send s c = invalidateActiveConnection now c s := by
    unfold activeStep
    exact if_pos hquiet
  obtain ⟨hA, hI, hheap, hpings⟩ := invalidateActiveConnection_self now hwf hc
  set sa := s.peer.connectionActive.foldl (activeStep now send) s
  have ha : sa.AgreeAt c (invalidateActiveConnection now c s) :=
    hstep ▸ foldl_activeStep_agreeAt now send hwf hc
  have hwfa : sa.peer.WellFormed := foldl_activeStep_wellFormed now send _ hwf
  -- the loop over the inactive connections reaches `c` once
  obtain ⟨l₁, l₂, hl, h₁, h₂⟩ := split_of_nodup_mem hwfa.inactive_nodup (ha.inactive.mpr hI)
  have hsweep : sweep now send s = (l₁ ++ c :: l₂).foldl (inactiveStep now send) sa := by
    rw [← hl]; rfl
  rw [hsweep, List.foldl_append, List.foldl_cons]
  set s₁ := l₁.foldl (inactiveStep now send) sa
  have hs₁ : s₁.AgreeAt c (invalidateActiveConnection now c s) :=
    (foldl_agreeAt (fun s _ hne => inactiveStep_agreeAt now send s hne) l₁ sa h₁).trans ha
  have hexp : ¬ (s₁.heap c).expires < now := by
    rw [hs₁.heap, hheap]
    simp [connectionRemove, second]
  have hst : (s₁.heap c).status = .inactive := by rw [hs₁.heap, hheap]
  have hlast : (s₁.heap c).lastPingOut = (s.heap c).lastPingOut := by rw [hs₁.heap, hheap]
  refine (fun hf => ?_) (foldl_agreeAt (fun s _ hne => inactiveStep_agreeAt now send s hne) l₂
    (inactiveStep now send s₁ c) h₂)
  rw [inactiveStep_of_not_expired now send s₁ hexp hst, hlast] at hf ⊢
  split_ifs at hf ⊢ <;>
    refine ⟨hf.active.not.mpr (hs₁.active.not.mpr hA), hf.inactive.mpr (hs₁.inactive.mpr hI), ?_⟩ <;>
    simp [hf.pings, hs₁.pings, hpings]

/-- Silent for 30 s and never pinged, connection `0` is invalidated and pinged in the same
tick. -/
theorem sweep_quiet_connection_quietPeer :
    quietPeer.peer.WellFormed ∧ 0 ∈ quietPeer.peer.connectionActive ∧
      (quietPeer.heap 0).lastPacketIn <
        (if (quietPeer.heap 0).status = .redundant then
          30 * second - connectionInvalidate * second * 4
        else 30 * second - connectionInvalidate * second) ∧
      0 ∉ (sweep (30 * second) (fun _ => none) quietPeer).peer.connectionActive ∧
      0 ∈ (sweep (30 * second) (fun _ => none) quietPeer).peer.connectionInactive ∧
      (sweep (30 * second) (fun _ => none) quietPeer).pings.filter (·.connection = 0) =
        quietPeer.pings.filter (·.connection = 0) ++
          if (quietPeer.heap 0).lastPingOut < 30 * second - pingTime * second then
            [⟨0, 30 * second, .inactive, false⟩]
          else [] :=
  ⟨quietPeer_wellFormed, by decide, by decide,
    sweep_quiet_connection _ _ quietPeer_wellFormed (List.mem_singleton_self 0) (by decide)⟩

end Peernet
