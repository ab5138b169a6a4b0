-- SUMMARY: Runs of keep-alive ticks with status changes between them, and the spacing of the pings sent to one connection.
import Peernet.Peer.KeepAlive

/-!
# Ping spacing

A run of the keep-alive loop is a list of events: ticks at nondecreasing times, and handlers
changing a connection's status between them. `sendPing` stamps `LastPingOut` with the tick's
time after each send, and both loops ping a connection only when its last stamp is older than
the tick's threshold, so two pings of one connection are never closer than that threshold.
The active loop uses forty seconds for a redundant connection; the inactive loop uses ten
seconds whatever the status.
-/

namespace Peernet

variable {κ : Type}

/-- The spacing the loops keep before a ping: forty seconds before one the active loop sends to
a redundant connection, ten seconds before any other. -/
def pingGap (activePass : Bool) (status : ConnectionStatus) : Int :=
  if activePass ∧ status = .redundant then pingTime * second * 4 else pingTime * second

/-- The ping-log invariant at time `now`: pings of one connection are spaced by the gap of the
later one, none lies after `now`, and each is no later than its connection's `LastPingOut`. -/
structure PingInv (now : Int) (heap : Nat → Connection) (pings : List Ping) : Prop where
  spaced : pings.Pairwise fun a b =>
    a.connection = b.connection → a.time + pingGap b.activePass b.status < b.time
  past : ∀ e ∈ pings, e.time ≤ now
  stamped : ∀ e ∈ pings, e.time ≤ (heap e.connection).lastPingOut

theorem PingInv.mono {now now' : Int} {heap : Nat → Connection} {pings : List Ping}
    (h : PingInv now heap pings) (hle : now ≤ now') : PingInv now' heap pings :=
  ⟨h.spaced, fun e he => (h.past e he).trans hle, h.stamped⟩

/-- A heap write that keeps every `LastPingOut` keeps the invariant. -/
theorem PingInv.heap_eq {now : Int} {heap heap' : Nat → Connection} {pings : List Ping}
    (h : PingInv now heap pings) (hheap : ∀ x, (heap' x).lastPingOut = (heap x).lastPingOut) :
    PingInv now heap' pings :=
  ⟨h.spaced, h.past, fun e he => hheap e.connection ▸ h.stamped e he⟩

/-! ## Each step on the heap and the log -/

theorem invalidateActiveConnection_pings (now : Int) (c : Nat) (s : Sweep κ) :
    (invalidateActiveConnection now c s).pings = s.pings := by
  unfold invalidateActiveConnection; split <;> rfl

theorem invalidateActiveConnection_lastPingOut (now : Int) (c x : Nat) (s : Sweep κ) :
    ((invalidateActiveConnection now c s).heap x).lastPingOut = (s.heap x).lastPingOut := by
  unfold invalidateActiveConnection
  split
  · by_cases hx : x = c
    · subst hx; simp
    · simp [hx]
  · rfl

theorem PingInv.invalidate {now t : Int} {s : Sweep κ} (h : PingInv t s.heap s.pings) (c : Nat) :
    PingInv t (invalidateActiveConnection now c s).heap (invalidateActiveConnection now c s).pings := by
  rw [invalidateActiveConnection_pings]
  exact h.heap_eq fun x => invalidateActiveConnection_lastPingOut now c x s

/-- `sendPing` keeps the invariant when the connection's last stamp is older than the gap its
new ping needs. -/
theorem PingInv.sendPing {now : Int} {s : Sweep κ} (h : PingInv now s.heap s.pings)
    (send : Nat → Option String) (b : Bool) (c : Nat)
    (hold : (s.heap c).lastPingOut < now - pingGap b (s.heap c).status) :
    PingInv now (sendPing now send b c s).heap (sendPing now send b c s).pings := by
  have stamp : PingInv now (Function.update s.heap c { s.heap c with lastPingOut := now })
      (s.pings ++ [⟨c, now, (s.heap c).status, b⟩]) := by
    refine ⟨List.pairwise_append.mpr ⟨h.spaced, List.pairwise_singleton _ _, ?_⟩, ?_, ?_⟩
    · intro e he e' he' hc
      obtain rfl := List.mem_singleton.mp he'
      dsimp only at hc ⊢
      have := h.stamped e he
      rw [hc] at this
      omega
    · intro e he
      rcases List.mem_append.mp he with he | he
      · exact h.past e he
      · rw [List.mem_singleton.mp he]
    · intro e he
      by_cases hc : e.connection = c
      · rw [hc, Function.update_same]
        rcases List.mem_append.mp he with he | he
        · exact h.past e he
        · rw [List.mem_singleton.mp he]
      · rw [Function.update_noteq hc]
        rcases List.mem_append.mp he with he | he
        · exact h.stamped e he
        · exact absurd (by rw [List.mem_singleton.mp he]) hc
  dsimp only [Peernet.sendPing]
  split
  · exact PingInv.invalidate (s := ⟨s.peer, _, _⟩) stamp c
  · exact stamp

/-- What the active loop does at `c`: invalidate it, ping it when its last ping is older than
the gap, or nothing. -/
theorem activeStep_cases (now : Int) (send : Nat → Option String) (s : Sweep κ) (c : Nat) :
    activeStep now send s c = invalidateActiveConnection now c s ∨
      ((s.heap c).lastPingOut < now - pingGap true (s.heap c).status ∧
        activeStep now send s c = sendPing now send true c s) ∨
      activeStep now send s c = s := by
  unfold activeStep pingGap
  by_cases hr : (s.heap c).status = .redundant <;> simp only [hr, if_true, if_false] <;>
    split_ifs with h1 h2 <;> simp_all

theorem PingInv.activeStep {now : Int} {s : Sweep κ} (h : PingInv now s.heap s.pings)
    (send : Nat → Option String) (c : Nat) :
    PingInv now (activeStep now send s c).heap (activeStep now send s c).pings := by
  rcases activeStep_cases now send s c with e | ⟨hold, e⟩ | e <;> rw [e]
  exacts [h.invalidate c, h.sendPing send true c hold, h]

theorem PingInv.inactiveStep {now : Int} {s : Sweep κ} (h : PingInv now s.heap s.pings)
    (send : Nat → Option String) (c : Nat) :
    PingInv now (inactiveStep now send s c).heap (inactiveStep now send s c).pings := by
  unfold Peernet.inactiveStep
  split_ifs with hpurge hping
  · exact h
  · exact h.sendPing send false c (by simpa [pingGap] using hping)
  · exact h

theorem PingInv.sweep {now : Int} {s : Sweep κ} (h : PingInv now s.heap s.pings)
    (send : Nat → Option String) :
    PingInv now (sweep now send s).heap (sweep now send s).pings :=
  List.foldlRecOn (motive := fun s : Sweep κ => PingInv now s.heap s.pings) _ _ _
    (List.foldlRecOn (motive := fun s : Sweep κ => PingInv now s.heap s.pings) _ _ _ h
      fun _ hs _ _ => hs.activeStep send _)
    fun _ hs _ _ => hs.inactiveStep send _

variable [DecidableEq κ]

theorem PingInv.autoPingAll {now : Int} {st : KeepAlive κ} (h : PingInv now st.heap st.pings)
    (send : Nat → Option String) :
    PingInv now (autoPingAll now send st).heap (autoPingAll now send st).pings :=
  List.foldlRecOn (motive := fun st : KeepAlive κ => PingInv now st.heap st.pings) _ _ _ h
    fun _ hst _ _ => PingInv.sweep (s := ⟨_, _, _⟩) hst send

/-! ## Runs -/

/-- What happens in a run: a tick of `autoPingAll` at `now`, or a handler setting a connection's
status between ticks. -/
inductive KeepAliveEvent
  | tick (now : Int) (send : Nat → Option String)
  | setStatus (c : Nat) (status : ConnectionStatus)

/-- The time of a tick. -/
def KeepAliveEvent.tickTime : KeepAliveEvent → Option Int
  | .tick now _ => some now
  | .setStatus _ _ => none

/-- One event on the state. -/
def KeepAlive.apply (st : KeepAlive κ) : KeepAliveEvent → KeepAlive κ
  | .tick now send => autoPingAll now send st
  | .setStatus c status => { st with heap := Function.update st.heap c { st.heap c with status } }

/-- The state after a run of events. -/
def KeepAlive.run (st : KeepAlive κ) (events : List KeepAliveEvent) : KeepAlive κ :=
  events.foldl KeepAlive.apply st

theorem PingInv.run : ∀ (events : List KeepAliveEvent) (st : KeepAlive κ) (t : Int),
    PingInv t st.heap st.pings → (∀ now ∈ events.filterMap KeepAliveEvent.tickTime, t ≤ now) →
    (events.filterMap KeepAliveEvent.tickTime).Pairwise (· ≤ ·) →
    ∃ t', PingInv t' (st.run events).heap (st.run events).pings
  | [], _, t, h, _, _ => ⟨t, h⟩
  | .tick now send :: events, st, t, h, hle, hsorted => by
    simp only [List.filterMap_cons, KeepAliveEvent.tickTime, List.mem_cons,
      List.pairwise_cons, forall_eq_or_imp] at hle hsorted
    exact PingInv.run events _ now ((h.mono hle.1).autoPingAll send) hsorted.1 hsorted.2
  | .setStatus c status :: events, st, t, h, hle, hsorted => by
    refine PingInv.run events _ t (h.heap_eq fun x => ?_) hle hsorted
    by_cases hx : x = c
    · subst hx; simp [KeepAlive.apply]
    · simp [KeepAlive.apply, hx]

/-- Pings are rate-limited. In every run of ticks at nondecreasing times, with statuses changed
arbitrarily between ticks, two pings of one connection are more than `pingTime` apart, and more
than four times that when the later one is the active loop's ping of a redundant connection;
so no connection is pinged twice in one tick. -/
theorem autoPingAll_spaces_pings (st : KeepAlive κ) (events : List KeepAliveEvent)
    (hsorted : (events.filterMap KeepAliveEvent.tickTime).Pairwise (· ≤ ·)) :
    (({ st with pings := [] } : KeepAlive κ).run events).pings.Pairwise fun a b =>
      a.connection = b.connection → a.time + pingGap b.activePass b.status < b.time := by
  have hfirst : ∀ now ∈ events.filterMap KeepAliveEvent.tickTime,
      (events.filterMap KeepAliveEvent.tickTime).headD 0 ≤ now := by
    revert hsorted
    cases events.filterMap KeepAliveEvent.tickTime with
    | nil => simp
    | cons x xs =>
      intro hsorted now hnow
      rcases List.mem_cons.mp hnow with rfl | hnow
      · exact le_refl _
      · exact List.rel_of_pairwise_cons hsorted hnow
  obtain ⟨_, h⟩ := PingInv.run events { st with pings := [] } _
    ⟨List.Pairwise.nil, by simp, by simp⟩ hfirst hsorted
  exact h.spaced

/-- A connection invalidated at 23 s and set redundant afterwards stays in the inactive list,
whose loop pings it at 23 s and again at 34 s. -/
theorem redundant_inactive_pinged_at_ten_seconds :
    let st : KeepAlive Nat :=
      ⟨(peerlistAdd Peerlist.empty 7 [0]).1, fun _ => ⟨.active, 0, 0, 0⟩, []⟩
    (st.run [.tick (23 * second) (fun _ => none), .setStatus 0 .redundant,
        .tick (34 * second) (fun _ => none)]).pings =
      [⟨0, 23 * second, .inactive, false⟩, ⟨0, 34 * second, .redundant, false⟩] ∧
    34 * second - 23 * second < pingTime * second * 4 := by
  decide

theorem autoPingAll_spaces_pings_example :
    let st : KeepAlive Nat :=
      ⟨(peerlistAdd Peerlist.empty 7 [0]).1, fun _ => ⟨.active, 0, 0, 0⟩, []⟩
    let events : List KeepAliveEvent := [.tick (23 * second) (fun _ => none),
      .setStatus 0 .redundant, .tick (34 * second) (fun _ => none)]
    (events.filterMap KeepAliveEvent.tickTime).Pairwise (· ≤ ·) ∧
    (({ st with pings := [] } : KeepAlive Nat).run events).pings.Pairwise fun a b =>
      a.connection = b.connection → a.time + pingGap b.activePass b.status < b.time :=
  ⟨by decide, autoPingAll_spaces_pings _ _ (by decide)⟩

end Peernet
