-- SUMMARY: The keep-alive loop `autoPingAll` of `Commands.go` over the peer list and a heap of connections, and the connection-list invariant it keeps.
import Peernet.Peer.Registry
import Peernet.Go.Strings
import Mathlib.Logic.Relation

/-!
# Keep-alive

One tick of `autoPingAll` at time `now`: for every peer of the `PeerlistGet` snapshot, the loop
over a copy of the active list invalidates the quiet connections and pings the idle ones, then
the loop over a copy of the inactive list purges the expired connections and pings the rest.
Connections are objects on a heap, read through their addresses when the loop reaches them.
The outcome of each send, which `sendConnection` gets from the network, is an oracle of the
tick, and every `time.Now()` of one tick reads the same `now`.

The invariant kept over every run of additions and ticks is `PeerInfo.WellFormed`: a peer's
lists are duplicate-free and disjoint, and it never loses its last connection. A tick writes
each record back with its address and key, so the registry stays well formed as well
(`registry_wellFormed_of_run`).
-/

namespace Peernet

open Go

/-! ## The loop body -/

/-- `IsNetworkErrorFatal` of `Network Detection.go`; `none` is a nil error. -/
def isNetworkErrorFatal (err : Option String) : Bool :=
  match err with
  | none => false
  | some e => strings.contains e.toList "requested address is not valid in its context".toList

/-- `pingTime`, in seconds. -/
def pingTime : Int := 10
/-- `connectionInvalidate`, in seconds. -/
def connectionInvalidate : Int := 22
/-- `connectionRemove`, in seconds. -/
def connectionRemove : Int := 2 * 60
/-- `time.Second`, in nanoseconds. -/
def second : Int := 1000000000

/-- One entry of the ping log: the connection pinged and the tick's time, with (ghost) the
connection's status when it was pinged and whether the active-connection loop sent it. -/
structure Ping where
  connection : Nat
  time : Int
  status : ConnectionStatus
  activePass : Bool
deriving DecidableEq, Repr

/-- What one peer's part of a tick works on: the peer record, the connection heap, and the
pings sent so far. -/
structure Sweep (κ : Type) where
  peer : PeerInfo κ
  heap : Nat → Connection
  pings : List Ping

variable {κ : Type}

/-- The record with connection `c` moved from the active list to the end of the inactive one. -/
def PeerInfo.moveInactive (p : PeerInfo κ) (c : Nat) : PeerInfo κ :=
  { p with
    connectionActive := p.connectionActive.erase c
    connectionInactive := p.connectionInactive ++ [c] }

/-- Modelled from the spec: `invalidateActiveConnection` of the missing peer code moves the
connection from the active list to the inactive list, marks it inactive and sets its expiry
`connectionRemove` seconds ahead; a connection that is not active is left alone. -/
def invalidateActiveConnection (now : Int) (c : Nat) (s : Sweep κ) : Sweep κ :=
  if c ∈ s.peer.connectionActive then
    { s with
      peer := s.peer.moveInactive c
      heap := Function.update s.heap c
        { s.heap c with status := .inactive, expires := now + connectionRemove * second } }
  else s

/-- Modelled from the spec: `removeInactiveConnection` of the missing peer code deletes the
connection from the inactive list. -/
def removeInactiveConnection (c : Nat) (s : Sweep κ) : Sweep κ :=
  { s with peer := { s.peer with connectionInactive := s.peer.connectionInactive.erase c } }

/-- `sendPing`: the send's error comes from `send`; `LastPingOut` is stamped whatever the
outcome, and a fatal error invalidates an active or redundant connection. `activePass` is ghost:
which loop called it. -/
def sendPing (now : Int) (send : Nat → Option String) (activePass : Bool) (c : Nat)
    (s : Sweep κ) : Sweep κ :=
  let conn := s.heap c
  let s' : Sweep κ :=
    { s with
      heap := Function.update s.heap c { conn with lastPingOut := now }
      pings := s.pings ++ [⟨c, now, conn.status, activePass⟩] }
  if (conn.status = .active ∨ conn.status = .redundant) ∧ isNetworkErrorFatal (send c) then
    invalidateActiveConnection now c s'
  else s'

/-- One iteration of the loop over the active connections, at connection `c`: a redundant
connection gets four times the thresholds. -/
def activeStep (now : Int) (send : Nat → Option String) (s : Sweep κ) (c : Nat) : Sweep κ :=
  let conn := s.heap c
  let thresholdPing :=
    if conn.status = .redundant then now - pingTime * second * 4 else now - pingTime * second
  let thresholdInv := if conn.status = .redundant then now - connectionInvalidate * second * 4
    else now - connectionInvalidate * second
  if conn.lastPacketIn < thresholdInv then invalidateActiveConnection now c s
  else if conn.lastPacketIn < thresholdPing ∧ conn.lastPingOut < thresholdPing then
    sendPing now send true c s
  else s

/-- One iteration of the loop over the inactive connections, at connection `c`. -/
def inactiveStep (now : Int) (send : Nat → Option String) (s : Sweep κ) (c : Nat) : Sweep κ :=
  if (1 ≤ s.peer.connectionActive.length ∨ 2 < s.peer.connectionInactive.length) ∧
      (s.heap c).expires < now then
    removeInactiveConnection c s
  else if (s.heap c).lastPingOut < now - pingTime * second then sendPing now send false c s
  else s

/-- The body of `autoPingAll` for one peer: the loop over a copy of the active list, then the
loop over a copy of the inactive list as the first loop left it. -/
def sweep (now : Int) (send : Nat → Option String) (s : Sweep κ) : Sweep κ :=
  let s := s.peer.connectionActive.foldl (activeStep now send) s
  s.peer.connectionInactive.foldl (inactiveStep now send) s

/-! ## Each step on the peer record -/

theorem invalidateActiveConnection_peer (now : Int) (c : Nat) (s : Sweep κ) :
    (invalidateActiveConnection now c s).peer =
      if c ∈ s.peer.connectionActive then s.peer.moveInactive c else s.peer := by
  unfold invalidateActiveConnection; split <;> rfl

theorem sendPing_peer (now : Int) (send : Nat → Option String) (b : Bool) (c : Nat) (s : Sweep κ) :
    (sendPing now send b c s).peer = s.peer ∨
      (sendPing now send b c s).peer = (invalidateActiveConnection now c s).peer := by
  dsimp only [sendPing]
  split
  · exact .inr (by simp only [invalidateActiveConnection_peer])
  · exact .inl rfl

theorem activeStep_peer (now : Int) (send : Nat → Option String) (s : Sweep κ) (c : Nat) :
    (activeStep now send s c).peer = s.peer ∨
      (activeStep now send s c).peer = (invalidateActiveConnection now c s).peer := by
  dsimp only [activeStep]
  split_ifs
  all_goals first | exact .inl rfl | exact .inr rfl | exact sendPing_peer now send true c s

theorem inactiveStep_peer (now : Int) (send : Nat → Option String) (s : Sweep κ) (c : Nat) :
    ((inactiveStep now send s c).peer = s.peer ∨
      (inactiveStep now send s c).peer = (invalidateActiveConnection now c s).peer) ∨
    ((1 ≤ s.peer.connectionActive.length ∨ 2 < s.peer.connectionInactive.length) ∧
      (s.heap c).expires < now ∧
      (inactiveStep now send s c).peer =
        { s.peer with connectionInactive := s.peer.connectionInactive.erase c }) := by
  unfold inactiveStep
  split_ifs with hpurge
  · exact .inr ⟨hpurge.1, hpurge.2, rfl⟩
  · exact .inl (sendPing_peer now send false c s)
  · exact .inl (.inl rfl)

/-- Each step keeps the record's address and key: it only moves connections between lists. -/
theorem invalidateActiveConnection_ident (now : Int) (c : Nat) (s : Sweep κ) :
    ((invalidateActiveConnection now c s).peer.id, (invalidateActiveConnection now c s).peer.publicKey) =
      (s.peer.id, s.peer.publicKey) := by
  rw [invalidateActiveConnection_peer]; split <;> rfl

theorem activeStep_ident (now : Int) (send : Nat → Option String) (s : Sweep κ) (c : Nat) :
    ((activeStep now send s c).peer.id, (activeStep now send s c).peer.publicKey) =
      (s.peer.id, s.peer.publicKey) := by
  rcases activeStep_peer now send s c with h | h <;> rw [h]
  exact invalidateActiveConnection_ident now c s

theorem inactiveStep_ident (now : Int) (send : Nat → Option String) (s : Sweep κ) (c : Nat) :
    ((inactiveStep now send s c).peer.id, (inactiveStep now send s c).peer.publicKey) =
      (s.peer.id, s.peer.publicKey) := by
  rcases inactiveStep_peer now send s c with (h | h) | ⟨-, -, h⟩ <;> rw [h]
  exact invalidateActiveConnection_ident now c s

theorem foldl_ident {f : Sweep κ → Nat → Sweep κ}
    (hf : ∀ s c, ((f s c).peer.id, (f s c).peer.publicKey) = (s.peer.id, s.peer.publicKey))
    (cs : List Nat) (s : Sweep κ) :
    ((cs.foldl f s).peer.id, (cs.foldl f s).peer.publicKey) = (s.peer.id, s.peer.publicKey) := by
  induction cs generalizing s with
  | nil => rfl
  | cons c cs ih => exact (ih (f s c)).trans (hf s c)

theorem sweep_ident (now : Int) (send : Nat → Option String) (s : Sweep κ) :
    ((sweep now send s).peer.id, (sweep now send s).peer.publicKey) =
      (s.peer.id, s.peer.publicKey) :=
  (foldl_ident (inactiveStep_ident now send) _ _).trans (foldl_ident (activeStep_ident now send) _ _)

/-! ## The connection-list invariant -/

/-- A peer's connection lists: each duplicate-free, the two disjoint, and at least one
connection between them. -/
structure PeerInfo.WellFormed (p : PeerInfo κ) : Prop where
  active_nodup : p.connectionActive.Nodup
  inactive_nodup : p.connectionInactive.Nodup
  disjoint : p.connectionActive.Disjoint p.connectionInactive
  nonempty : p.connectionActive ≠ [] ∨ p.connectionInactive ≠ []

theorem PeerInfo.WellFormed.moveInactive {p : PeerInfo κ} (h : p.WellFormed) {c : Nat}
    (hc : c ∈ p.connectionActive) : (p.moveInactive c).WellFormed := by
  have hci : c ∉ p.connectionInactive := fun hi => h.disjoint hc hi
  refine ⟨h.active_nodup.erase c, h.inactive_nodup.append (List.nodup_singleton c)
    (List.disjoint_singleton.mpr hci), ?_, .inr (by simp [PeerInfo.moveInactive])⟩
  intro x hx hx'
  rcases List.mem_append.mp hx' with hx' | hx'
  · exact h.disjoint (List.mem_of_mem_erase hx) hx'
  · rw [List.mem_singleton.mp hx'] at hx
    exact (h.active_nodup.mem_erase_iff.mp hx).1 rfl

theorem PeerInfo.WellFormed.invalidate {s : Sweep κ} (h : s.peer.WellFormed) (now : Int)
    (c : Nat) : (invalidateActiveConnection now c s).peer.WellFormed := by
  rw [invalidateActiveConnection_peer]
  split
  · exact h.moveInactive ‹_›
  · exact h

/-- A purge under the guard of the inactive loop keeps a connection. -/
theorem PeerInfo.WellFormed.purge {p : PeerInfo κ} (h : p.WellFormed) (c : Nat)
    (hguard : 1 ≤ p.connectionActive.length ∨ 2 < p.connectionInactive.length) :
    ({ p with connectionInactive := p.connectionInactive.erase c } : PeerInfo κ).WellFormed := by
  refine ⟨h.active_nodup, h.inactive_nodup.erase c,
    fun x hx hx' => h.disjoint hx (List.mem_of_mem_erase hx'), ?_⟩
  rcases hguard with hguard | hguard
  · exact .inl (List.ne_nil_of_length_pos hguard)
  · refine .inr (List.ne_nil_of_length_pos ?_)
    rw [List.length_erase]
    split <;> omega

theorem PeerInfo.WellFormed.sendPing {s : Sweep κ} (h : s.peer.WellFormed) (now : Int)
    (send : Nat → Option String) (b : Bool) (c : Nat) : (sendPing now send b c s).peer.WellFormed := by
  rcases sendPing_peer now send b c s with e | e <;> rw [e]
  exacts [h, h.invalidate now c]

theorem PeerInfo.WellFormed.activeStep {s : Sweep κ} (h : s.peer.WellFormed) (now : Int)
    (send : Nat → Option String) (c : Nat) : (activeStep now send s c).peer.WellFormed := by
  rcases activeStep_peer now send s c with e | e <;> rw [e]
  exacts [h, h.invalidate now c]

theorem PeerInfo.WellFormed.inactiveStep {s : Sweep κ} (h : s.peer.WellFormed) (now : Int)
    (send : Nat → Option String) (c : Nat) : (inactiveStep now send s c).peer.WellFormed := by
  rcases inactiveStep_peer now send s c with (e | e) | ⟨hguard, -, e⟩ <;> rw [e]
  exacts [h, h.invalidate now c, h.purge c hguard]

theorem PeerInfo.WellFormed.sweep {s : Sweep κ} (h : s.peer.WellFormed) (now : Int)
    (send : Nat → Option String) : (sweep now send s).peer.WellFormed :=
  List.foldlRecOn (motive := fun s : Sweep κ => s.peer.WellFormed) _ _ _
    (List.foldlRecOn (motive := fun s : Sweep κ => s.peer.WellFormed) _ _ _ h
      fun _ hs _ _ => hs.activeStep now send _)
    fun _ hs _ _ => hs.inactiveStep now send _

/-! ## Purges -/

/-- The active loop never takes a connection off the inactive list. -/
theorem activeStep_keeps_inactive (now : Int) (send : Nat → Option String) (s : Sweep κ)
    (c x : Nat) (hx : x ∈ s.peer.connectionInactive) :
    x ∈ (activeStep now send s c).peer.connectionInactive := by
  rcases activeStep_peer now send s c with e | e <;> rw [e]
  · exact hx
  · rw [invalidateActiveConnection_peer]
    split
    · exact List.mem_append_left _ hx
    · exact hx

/-- The inactive loop's step at `c` takes no connection but `c` off the inactive list, and `c`
only when it has expired and the peer has an active connection or two other inactive ones. -/
theorem inactiveStep_purge_guard (now : Int) (send : Nat → Option String) (s : Sweep κ)
    (c x : Nat) (hx : x ∈ s.peer.connectionInactive)
    (hgone : x ∉ (inactiveStep now send s c).peer.connectionInactive) :
    x = c ∧ (s.heap c).expires < now ∧
      (s.peer.connectionActive ≠ [] ∨ 2 ≤ (s.peer.connectionInactive.erase c).length) := by
  rcases inactiveStep_peer now send s c with (e | e) | ⟨hguard, hexp, e⟩ <;> rw [e] at hgone
  · exact absurd hx hgone
  · rw [invalidateActiveConnection_peer] at hgone
    split at hgone
    · exact absurd (List.mem_append_left _ hx) hgone
    · exact absurd hx hgone
  · have hxc : x = c := by
      by_contra hne
      exact hgone (List.mem_erase_of_ne hne |>.mpr hx)
    subst hxc
    refine ⟨rfl, hexp, ?_⟩
    rw [List.length_erase_of_mem hx]
    rcases hguard with hguard | hguard
    · exact .inl (List.ne_nil_of_length_pos hguard)
    · exact .inr (by omega)

/-- A peer without active connections keeps `min k 2` of its `k` inactive ones through the
tick. -/
theorem sweep_keeps_two_inactive (now : Int) (send : Nat → Option String) (s : Sweep κ)
    (hactive : s.peer.connectionActive = []) :
    min s.peer.connectionInactive.length 2 ≤ (sweep now send s).peer.connectionInactive.length := by
  have step (t : Sweep κ) (ht : t.peer.connectionActive = [] ∧
      min s.peer.connectionInactive.length 2 ≤ t.peer.connectionInactive.length) (c : Nat) :
      (inactiveStep now send t c).peer.connectionActive = [] ∧
        min s.peer.connectionInactive.length 2 ≤
          (inactiveStep now send t c).peer.connectionInactive.length := by
    have hinv : (invalidateActiveConnection now c t).peer = t.peer := by
      simp [invalidateActiveConnection_peer, ht.1]
    rcases inactiveStep_peer now send t c with (e | e) | ⟨hguard, -, e⟩ <;> rw [e]
    · exact ht
    · rw [hinv]; exact ht
    · simp only [ht.1, List.length_nil, Nat.le_zero, Nat.lt_irrefl, false_or,
        Nat.one_ne_zero, le_refl] at hguard ⊢
      refine ⟨trivial, ?_⟩
      rw [List.length_erase]
      split <;> omega
  unfold sweep
  rw [hactive, List.foldl_nil]
  exact (List.foldlRecOn (motive := fun t : Sweep κ => t.peer.connectionActive = [] ∧
      min s.peer.connectionInactive.length 2 ≤ t.peer.connectionInactive.length) _ _ _
    ⟨hactive, Nat.min_le_left _ _⟩ fun t ht c _ => step t ht c).2

/-! ## Ticks -/

variable [DecidableEq κ]

/-- The peer list, the connection heap and the ping log. -/
structure KeepAlive (κ : Type) [DecidableEq κ] where
  peerList : Peerlist κ
  heap : Nat → Connection
  pings : List Ping

/-- One iteration of `autoPingAll`'s loop at `now`: every peer of the snapshot is swept, and the
record is written back under its key. -/
def autoPingAll (now : Int) (send : Nat → Option String) (st : KeepAlive κ) : KeepAlive κ :=
  st.peerList.peers.entries.foldl (fun st e =>
    let s := sweep now send ⟨e.2, st.heap, st.pings⟩
    ⟨st.peerList.set e.1 s.peer, s.heap, s.pings⟩) st

/-- Every registered peer is well formed. -/
def KeepAlive.WellFormed (st : KeepAlive κ) : Prop :=
  ∀ k p, peerlistLookup st.peerList k = some p → p.WellFormed

theorem KeepAlive.WellFormed.autoPingAll {st : KeepAlive κ} (h : st.WellFormed) (now : Int)
    (send : Nat → Option String) : (autoPingAll now send st).WellFormed := by
  refine List.foldlRecOn (motive := KeepAlive.WellFormed) _ _ _ h ?_
  intro st' hst' e he k p hk
  rw [peerlistLookup_set] at hk
  split at hk
  · cases hk
    exact (h e.1 e.2 (AList.mem_lookup_iff.mpr he)).sweep now send
  · exact hst' k p hk

/-- The steps of a run: `PeerlistAdd` on a connection list `allowed` admits, `PeerlistRemove`,
and a tick of `autoPingAll`. `PeerlistAdd` itself checks nothing of the list; its callers in the
node pass one connection. -/
inductive KeepAliveStep (allowed : List Nat → Prop) : KeepAlive κ → KeepAlive κ → Prop
  | add (st : KeepAlive κ) (publicKey : κ) (connections : List Nat) (h : allowed connections) :
      KeepAliveStep allowed st
        { st with peerList := (peerlistAdd st.peerList publicKey connections).1 }
  | remove (st : KeepAlive κ) (peer : PeerInfo κ) :
      KeepAliveStep allowed st { st with peerList := peerlistRemove st.peerList peer }
  | tick (st : KeepAlive κ) (now : Int) (send : Nat → Option String) :
      KeepAliveStep allowed st (autoPingAll now send st)

/-- The records stay well formed over steps whose additions get duplicate-free lists. -/
theorem KeepAlive.WellFormed.step {st st' : KeepAlive κ} (h : st.WellFormed)
    (hstep : KeepAliveStep List.Nodup st st') : st'.WellFormed := by
  cases hstep with
  | add publicKey connections hnodup =>
    intro k p hk
    simp only [peerlistLookup_peerlistAdd] at hk
    split at hk
    · cases hk
      exact ⟨hnodup, List.nodup_nil, List.disjoint_nil_right _, .inl ‹_ ∧ _ ∧ _›.2.1⟩
    · exact h k p hk
  | remove peer =>
    intro k p hk
    simp only [peerlistLookup_peerlistRemove] at hk
    split at hk
    · cases hk
    · exact h k p hk
  | tick now send => exact h.autoPingAll now send

/-- A tick writes back every record with its address and key: the registry keeps its records up
to their connection lists. -/
theorem autoPingAll_recordsOf (now : Int) (send : Nat → Option String) (st : KeepAlive κ) :
    st.peerList.RecordsOf (autoPingAll now send st).peerList ∧
      (autoPingAll now send st).peerList.fresh = st.peerList.fresh := by
  refine List.foldlRecOn (motive := fun st' : KeepAlive κ =>
    st.peerList.RecordsOf st'.peerList ∧ st'.peerList.fresh = st.peerList.fresh) _ _ _
    ⟨.refl _, rfl⟩ ?_
  intro st' ⟨hst', hfresh⟩ e he
  refine ⟨fun k p' hk => ?_, hfresh⟩
  rw [peerlistLookup_set] at hk
  split at hk
  · cases hk
    subst ‹k = e.1›
    obtain ⟨hid, hkey⟩ := Prod.mk.inj (sweep_ident now send ⟨e.2, st'.heap, st'.pings⟩)
    exact ⟨e.2, AList.mem_lookup_iff.mpr he, hid.symm, hkey.symm⟩
  · exact hst' k p' hk

theorem Peerlist.WellFormed.keepAliveStep {allowed : List Nat → Prop} {st st' : KeepAlive κ}
    (h : st.peerList.WellFormed) (hstep : KeepAliveStep allowed st st') :
    st'.peerList.WellFormed := by
  cases hstep with
  | add publicKey connections _ => exact h.peerlistAdd publicKey connections
  | remove peer => exact h.peerlistRemove peer
  | tick now send =>
    obtain ⟨hr, hfresh⟩ := autoPingAll_recordsOf now send st
    exact h.of_recordsOf hr hfresh.ge

/-- Over every run of additions, on any connection lists, removals and ticks from the empty peer
list, the registry stays well formed: each record sits under its own key, at an address no other
record has. So `PeerlistGet` lists every registered record once, and `PeerlistRemove` of a
record that `PeerlistLookup` returned removes exactly its key. -/
theorem registry_wellFormed_of_run (allowed : List Nat → Prop) (heap : Nat → Connection)
    (st : KeepAlive κ)
    (hrun : Relation.ReflTransGen (KeepAliveStep allowed)
      (⟨Peerlist.empty, heap, []⟩ : KeepAlive κ) st) :
    st.peerList.WellFormed ∧ ((peerlistGet st.peerList).map (·.id)).Nodup ∧
      ∀ k p, peerlistLookup st.peerList k = some p → ∀ k',
        peerlistLookup (peerlistRemove st.peerList p) k' =
          if k' = k then none else peerlistLookup st.peerList k' := by
  have h : st.peerList.WellFormed := by
    induction hrun with
    | refl => exact .empty
    | tail _ hstep ih => exact ih.keepAliveStep hstep
  exact ⟨h, h.nodup_ids, fun k p hp => h.peerlistRemove_lookup hp⟩

/-- Peer `7` added on connection `0` twice, then a tick at 30 s in which every send succeeds. -/
def addThenTick : KeepAlive Nat :=
  autoPingAll (30 * second) (fun _ => none)
    ⟨(peerlistAdd Peerlist.empty 7 [0, 0]).1, fun _ => ⟨.active, 0, 0, 0⟩, []⟩

theorem addThenTick_run : Relation.ReflTransGen (KeepAliveStep fun _ => True)
    (⟨Peerlist.empty, fun _ => ⟨.active, 0, 0, 0⟩, []⟩ : KeepAlive Nat) addThenTick :=
  .tail (.single (.add _ 7 [0, 0] trivial)) (.tick _ _ _)

theorem registry_wellFormed_of_run_addThenTick :
    Relation.ReflTransGen (KeepAliveStep fun _ => True)
        (⟨Peerlist.empty, fun _ => ⟨.active, 0, 0, 0⟩, []⟩ : KeepAlive Nat) addThenTick ∧
      addThenTick.peerList.WellFormed ∧ ((peerlistGet addThenTick.peerList).map (·.id)).Nodup ∧
      ∀ k p, peerlistLookup addThenTick.peerList k = some p → ∀ k',
        peerlistLookup (peerlistRemove addThenTick.peerList p) k' =
          if k' = k then none else peerlistLookup addThenTick.peerList k' :=
  ⟨addThenTick_run, registry_wellFormed_of_run _ _ _ addThenTick_run⟩

/-- A peer never loses its last known path. Over every run of additions on duplicate-free
connection lists, removals and ticks from the empty peer list, each registered peer's lists stay
duplicate-free and disjoint and hold a connection. Within a tick, a connection leaves the inactive list only when the inactive loop
reaches it expired while the peer has an active connection or two other inactive ones; so a
peer with no active connection keeps `min k 2` of its `k` inactive connections. -/
theorem autoPingAll_keeps_last_path (heap : Nat → Connection) :
    (∀ st, Relation.ReflTransGen (KeepAliveStep List.Nodup)
      (⟨Peerlist.empty, heap, []⟩ : KeepAlive κ) st →
      ∀ k p, peerlistLookup st.peerList k = some p → p.WellFormed) ∧
    (∀ now send (s : Sweep κ) c x, x ∈ s.peer.connectionInactive →
      x ∈ (activeStep now send s c).peer.connectionInactive) ∧
    (∀ now send (s : Sweep κ) c x, x ∈ s.peer.connectionInactive →
      x ∉ (inactiveStep now send s c).peer.connectionInactive →
      x = c ∧ (s.heap c).expires < now ∧
        (s.peer.connectionActive ≠ [] ∨ 2 ≤ (s.peer.connectionInactive.erase c).length)) ∧
    (∀ now send (s : Sweep κ), s.peer.connectionActive = [] →
      min s.peer.connectionInactive.length 2 ≤
        (sweep now send s).peer.connectionInactive.length) := by
  refine ⟨fun st hrun => ?_, activeStep_keeps_inactive, inactiveStep_purge_guard,
    sweep_keeps_two_inactive⟩
  induction hrun with
  | refl => intro k p hk; simp [peerlistLookup, Peerlist.empty] at hk
  | tail _ hstep ih => exact KeepAlive.WellFormed.step ih hstep

/-- Peer `7` added with connection `0` listed twice. -/
def duplicateAdd : KeepAlive Nat :=
  ⟨(peerlistAdd Peerlist.empty 7 [0, 0]).1, fun _ => ⟨.active, 0, 0, 0⟩, []⟩

/-- `PeerlistAdd` stores the list it is given: added with `[0, 0]`, peer `7` has connection `0`
twice in its active list. -/
theorem duplicate_add_not_wellFormed :
    Relation.ReflTransGen (KeepAliveStep fun _ => True)
        (⟨Peerlist.empty, fun _ => ⟨.active, 0, 0, 0⟩, []⟩ : KeepAlive Nat) duplicateAdd ∧
      peerlistLookup duplicateAdd.peerList 7 = some ⟨0, 7, [0, 0], [], 0⟩ ∧
      ¬ (⟨0, 7, [0, 0], [], 0⟩ : PeerInfo Nat).WellFormed :=
  ⟨.single (.add _ 7 [0, 0] trivial), by decide, fun h => absurd h.active_nodup (by decide)⟩

end Peernet
