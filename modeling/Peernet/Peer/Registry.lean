-- SUMMARY: The peer list of `Peer ID.go`: connection objects, peer records, and the registry operations keyed by public key.
import Mathlib.Data.List.AList

/-!
# Peer list

The peer records of `Peer ID.go` and the process-wide `peerList` map from a compressed public
key to a record. Go pointers are modelled by addresses: a `PeerInfo` carries the address `id`
that `&PeerInfo{...}` allocated, and its connection lists hold addresses into a heap of
`Connection` objects (see `Peernet.Peer.KeepAlive`). A public key is modelled by its compressed
form, the registry's key, so `publicKey2Compressed` is the identity.

A registry is well formed when each record sits under its own key, at an address no other record
has (`Peerlist.WellFormed`). `PeerlistAdd` and `PeerlistRemove` keep that; on such a registry
`PeerlistGet` lists each record once and `PeerlistRemove` of a looked-up record removes its key.
Over any sequence of additions, only the first call on a key reports it added, and the key keeps
the record that call created (`peerlistAdd_sequence_unique`).
-/

namespace Peernet

/-- Modelled from the spec: the liveness states of the missing `Connection` type
(`ConnectionActive`, `ConnectionRedundant` and the inactive state). -/
inductive ConnectionStatus
  | active
  | redundant
  | inactive
deriving DecidableEq, Repr

/-- Modelled from the spec: the fields of the missing `Connection` type that the keep-alive
loop reads and writes. Times are in nanoseconds. -/
structure Connection where
  status : ConnectionStatus
  lastPacketIn : Int
  lastPingOut : Int
  expires : Int
deriving DecidableEq, Repr

/-- `PeerInfo`: `id` is the record's address, and the connection lists and the latest
connection are connection addresses. -/
structure PeerInfo (κ : Type) where
  id : Nat
  publicKey : κ
  connectionActive : List Nat
  connectionInactive : List Nat
  connectionLatest : Nat
deriving DecidableEq, Repr

variable {κ : Type} [DecidableEq κ]

/-- The `peerList` map together with the allocator behind `&PeerInfo{...}`: `fresh` is the
address the next record gets. -/
structure Peerlist (κ : Type) [DecidableEq κ] where
  peers : AList (fun _ : κ => PeerInfo κ)
  fresh : Nat

/-- The empty map `initPeerID` makes. -/
def Peerlist.empty : Peerlist κ := ⟨∅, 0⟩

/-- `PeerlistAdd`: the registry afterwards, the peer (`nil` as `none`) and `added`. A key
already present is left as it is; an empty connection list adds nothing. -/
def peerlistAdd (l : Peerlist κ) (publicKey : κ) (connections : List Nat) :
    Peerlist κ × Option (PeerInfo κ) × Bool :=
  match connections with
  | [] => (l, none, false)
  | latest :: _ =>
    match l.peers.lookup publicKey with
    | some peer => (l, some peer, false)
    | none =>
      let peer : PeerInfo κ := ⟨l.fresh, publicKey, connections, [], latest⟩
      (⟨l.peers.insert publicKey peer, l.fresh + 1⟩, some peer, true)

/-- `PeerlistRemove`: deletes the map entry under the peer's key. -/
def peerlistRemove (l : Peerlist κ) (peer : PeerInfo κ) : Peerlist κ :=
  { l with peers := l.peers.erase peer.publicKey }

/-- `PeerlistGet`: the records of the map, in its iteration order. -/
def peerlistGet (l : Peerlist κ) : List (PeerInfo κ) :=
  l.peers.entries.map (·.2)

/-- `PeerlistLookup`. -/
def peerlistLookup (l : Peerlist κ) (publicKey : κ) : Option (PeerInfo κ) :=
  l.peers.lookup publicKey

/-- `PeerlistCount`. -/
def peerlistCount (l : Peerlist κ) : Nat :=
  l.peers.entries.length

/-- Store `peer` under `publicKey`, as a write through the record's pointer does; Go leaves a
map's iteration order unspecified, so moving the entry loses nothing. -/
def Peerlist.set (l : Peerlist κ) (publicKey : κ) (peer : PeerInfo κ) : Peerlist κ :=
  { l with peers := l.peers.insert publicKey peer }

/-! ## Lookup after each operation -/

theorem peerlistAdd_cases (l : Peerlist κ) (publicKey : κ) (connections : List Nat) :
    (connections = [] ∧ peerlistAdd l publicKey connections = (l, none, false)) ∨
    (∃ peer, peerlistLookup l publicKey = some peer ∧
      peerlistAdd l publicKey connections = (l, some peer, false)) ∨
    (∃ latest rest, connections = latest :: rest ∧ peerlistLookup l publicKey = none ∧
      peerlistAdd l publicKey connections =
        (⟨l.peers.insert publicKey ⟨l.fresh, publicKey, connections, [], latest⟩, l.fresh + 1⟩,
          some ⟨l.fresh, publicKey, connections, [], latest⟩, true)) := by
  rcases connections with _ | ⟨latest, rest⟩
  · exact .inl ⟨rfl, rfl⟩
  · cases h : peerlistLookup l publicKey with
    | some peer =>
      refine .inr (.inl ⟨peer, rfl, ?_⟩)
      simp only [peerlistLookup] at h
      simp [peerlistAdd, h]
    | none =>
      refine .inr (.inr ⟨latest, rest, rfl, rfl, ?_⟩)
      simp only [peerlistLookup] at h
      simp [peerlistAdd, h]

/-- After `PeerlistAdd`, the key is registered (when a connection was given), and every other
key maps to what it mapped to before. -/
theorem peerlistLookup_peerlistAdd (l : Peerlist κ) (publicKey k : κ) (connections : List Nat) :
    peerlistLookup (peerlistAdd l publicKey connections).1 k =
      if k = publicKey ∧ connections ≠ [] ∧ peerlistLookup l k = none then
        some ⟨l.fresh, publicKey, connections, [], connections.headD 0⟩
      else peerlistLookup l k := by
  rcases peerlistAdd_cases l publicKey connections with ⟨rfl, h⟩ | ⟨peer, hl, h⟩ |
      ⟨latest, rest, rfl, hl, h⟩
  · simp [h]
  · rw [h]
    by_cases hk : k = publicKey
    · subst hk; simp [hl]
    · simp [hk]
  · rw [h]
    by_cases hk : k = publicKey
    · subst hk
      simp only [peerlistLookup] at hl ⊢
      simp [hl]
    · simp [peerlistLookup, hk]

theorem peerlistLookup_set (l : Peerlist κ) (publicKey k : κ) (peer : PeerInfo κ) :
    peerlistLookup (l.set publicKey peer) k = if k = publicKey then some peer else peerlistLookup l k := by
  by_cases hk : k = publicKey
  · subst hk; simp [peerlistLookup, Peerlist.set]
  · simp [peerlistLookup, Peerlist.set, hk]

/-- `PeerlistRemove p` deletes whatever record is registered under `p`'s key, and every other
key maps to what it mapped to before. -/
theorem peerlistLookup_peerlistRemove (l : Peerlist κ) (p : PeerInfo κ) (k : κ) :
    peerlistLookup (peerlistRemove l p) k =
      if k = p.publicKey then none else peerlistLookup l k := by
  by_cases hk : k = p.publicKey
  · subst hk; simp [peerlistLookup, peerlistRemove]
  · simp [peerlistLookup, peerlistRemove, hk]

/-- A stale handle: `p` is registered under key `7` and removed, the key is registered again
to a new record `p'`, and removing `p` once more drops `p'`. -/
theorem peerlistRemove_stale_handle :
    let p : PeerInfo Nat := ⟨0, 7, [1], [], 1⟩
    let p' : PeerInfo Nat := ⟨1, 7, [2], [], 2⟩
    let l := (peerlistAdd (peerlistRemove (peerlistAdd Peerlist.empty 7 [1]).1 p) 7 [2]).1
    peerlistLookup l 7 = some p' ∧ p' ≠ p ∧ peerlistLookup (peerlistRemove l p) 7 = none := by
  decide

/-! ## The registry invariant -/

/-- A peer list as every run keeps it: each record is stored under its own key, and the records
have distinct addresses, all below the next one the allocator hands out. -/
structure Peerlist.WellFormed (l : Peerlist κ) : Prop where
  keyed : ∀ k p, peerlistLookup l k = some p → p.publicKey = k
  id_lt : ∀ k p, peerlistLookup l k = some p → p.id < l.fresh
  id_inj : ∀ k k' p p', peerlistLookup l k = some p → peerlistLookup l k' = some p' →
    p.id = p'.id → k = k'

/-- Every record of `l'` is the record of `l` under the same key, up to its connection lists. -/
def Peerlist.RecordsOf (l l' : Peerlist κ) : Prop :=
  ∀ k p', peerlistLookup l' k = some p' →
    ∃ p, peerlistLookup l k = some p ∧ p.id = p'.id ∧ p.publicKey = p'.publicKey

theorem Peerlist.RecordsOf.refl (l : Peerlist κ) : l.RecordsOf l :=
  fun _ p' h => ⟨p', h, rfl, rfl⟩

theorem Peerlist.WellFormed.empty : (Peerlist.empty : Peerlist κ).WellFormed := by
  refine ⟨fun k p h => ?_, fun k p h => ?_, fun k _ p _ h => ?_⟩ <;>
    simp [peerlistLookup, Peerlist.empty] at h

/-- Dropping records, or changing their connection lists, keeps the registry well formed. -/
theorem Peerlist.WellFormed.of_recordsOf {l l' : Peerlist κ} (h : l.WellFormed)
    (hr : l.RecordsOf l') (hfresh : l.fresh ≤ l'.fresh) : l'.WellFormed := by
  refine ⟨fun k p' hk => ?_, fun k p' hk => ?_, fun k k' p' q' hk hk' he => ?_⟩
  · obtain ⟨p, hp, -, hkey⟩ := hr k p' hk
    exact hkey ▸ h.keyed k p hp
  · obtain ⟨p, hp, hid, -⟩ := hr k p' hk
    have := h.id_lt k p hp
    omega
  · obtain ⟨p, hp, hid, -⟩ := hr k p' hk
    obtain ⟨q, hq, hid', -⟩ := hr k' q' hk'
    exact h.id_inj k k' p q hp hq (by rw [hid, hid', he])

theorem peerlistRemove_recordsOf (l : Peerlist κ) (peer : PeerInfo κ) :
    l.RecordsOf (peerlistRemove l peer) := fun k p' h => by
  rw [peerlistLookup_peerlistRemove] at h
  split at h
  · cases h
  · exact ⟨p', h, rfl, rfl⟩

theorem Peerlist.WellFormed.peerlistRemove {l : Peerlist κ} (h : l.WellFormed) (peer : PeerInfo κ) :
    (peerlistRemove l peer).WellFormed :=
  h.of_recordsOf (peerlistRemove_recordsOf l peer) le_rfl

/-- `PeerlistAdd` keeps the registry well formed: a record it creates sits under a free key, at
the next address. -/
theorem Peerlist.WellFormed.peerlistAdd {l : Peerlist κ} (h : l.WellFormed) (publicKey : κ)
    (connections : List Nat) : (peerlistAdd l publicKey connections).1.WellFormed := by
  rcases peerlistAdd_cases l publicKey connections with ⟨-, hadd⟩ | ⟨_, -, hadd⟩ |
      ⟨latest, rest, rfl, hl, hadd⟩
  · rw [hadd]; exact h
  · rw [hadd]; exact h
  rw [hadd]
  have hlook : ∀ k p, peerlistLookup ⟨l.peers.insert publicKey
        ⟨l.fresh, publicKey, latest :: rest, [], latest⟩, l.fresh + 1⟩ k = some p ↔
      (k = publicKey ∧ ⟨l.fresh, publicKey, latest :: rest, [], latest⟩ = p) ∨
        (k ≠ publicKey ∧ peerlistLookup l k = some p) := fun k p => by
    by_cases hk : k = publicKey
    · subst hk; simp [peerlistLookup]
    · simp [peerlistLookup, hk, AList.lookup_insert_ne hk]
  refine ⟨fun k p hk => ?_, fun k p hk => ?_, fun k k' p q hk hk' he => ?_⟩
  · rcases (hlook k p).mp hk with ⟨rfl, rfl⟩ | ⟨-, hk⟩
    · rfl
    · exact h.keyed k p hk
  · rcases (hlook k p).mp hk with ⟨rfl, rfl⟩ | ⟨-, hk⟩
    · exact Nat.lt_succ_self _
    · exact Nat.lt_succ_of_lt (h.id_lt k p hk)
  · rcases (hlook k p).mp hk with ⟨rfl, rfl⟩ | ⟨-, hp⟩ <;>
      rcases (hlook k' q).mp hk' with ⟨rfl, rfl⟩ | ⟨-, hq⟩
    · rfl
    · have := h.id_lt k' q hq; dsimp only at he; omega
    · have := h.id_lt k p hp; dsimp only at he; omega
    · exact h.id_inj k k' p q hp hq he

/-! ### What a well-formed registry gives its callers -/

section WellFormed

variable {l : Peerlist κ}

/-- `PeerlistGet` lists exactly the registered records. -/
theorem Peerlist.WellFormed.mem_peerlistGet (h : l.WellFormed) (p : PeerInfo κ) :
    p ∈ peerlistGet l ↔ peerlistLookup l p.publicKey = some p := by
  simp only [peerlistGet, List.mem_map]
  constructor
  · rintro ⟨e, he, rfl⟩
    have hl : peerlistLookup l e.1 = some e.2 := AList.mem_lookup_iff.mpr he
    rwa [h.keyed _ _ hl]
  · exact fun hp => ⟨⟨p.publicKey, p⟩, AList.mem_lookup_iff.mp hp, rfl⟩

/-- No two records of `PeerlistGet` share an address. -/
theorem Peerlist.WellFormed.nodup_ids (h : l.WellFormed) : ((peerlistGet l).map (·.id)).Nodup := by
  rw [peerlistGet, List.map_map]
  refine l.peers.nodupKeys.nodup.map_on fun e he e' he' hid => ?_
  have hl : peerlistLookup l e.1 = some e.2 := AList.mem_lookup_iff.mpr he
  have hl' : peerlistLookup l e'.1 = some e'.2 := AList.mem_lookup_iff.mpr he'
  have hk := h.id_inj _ _ _ _ hl hl' hid
  rw [hk, hl'] at hl
  exact Sigma.ext hk (heq_of_eq (Option.some.inj hl).symm)

/-- `PeerlistCount` is the length of `PeerlistGet`. -/
theorem peerlistCount_eq_length (l : Peerlist κ) : peerlistCount l = (peerlistGet l).length :=
  (List.length_map _ _).symm

/-- `PeerlistRemove` of a record that `PeerlistLookup` returned removes exactly its key. -/
theorem Peerlist.WellFormed.peerlistRemove_lookup (h : l.WellFormed) {k : κ} {p : PeerInfo κ}
    (hp : peerlistLookup l k = some p) (k' : κ) :
    peerlistLookup (Peernet.peerlistRemove l p) k' =
      if k' = k then none else peerlistLookup l k' := by
  rw [peerlistLookup_peerlistRemove, h.keyed k p hp]

end WellFormed

/-! ## Sequences of additions -/

/-- `PeerlistAdd` called with each key and connection list in turn: the registry after the
calls, and the `added` each call returned. -/
def peerlistAddAll (l : Peerlist κ) : List (κ × List Nat) → Peerlist κ × List Bool
  | [] => (l, [])
  | (k, connections) :: calls =>
    let (l', _, added) := peerlistAdd l k connections
    ((peerlistAddAll l' calls).1, added :: (peerlistAddAll l' calls).2)

/-- The `added` results of the calls on key `K`, in order. -/
def addedFor (K : κ) (calls : List (κ × List Nat)) (added : List Bool) : List Bool :=
  ((calls.zip added).filter (·.1.1 = K)).map (·.2)

theorem peerlistAdd_added (l : Peerlist κ) (k : κ) (connections : List Nat) :
    (peerlistAdd l k connections).2.2 = true ↔
      connections ≠ [] ∧ peerlistLookup l k = none := by
  rcases peerlistAdd_cases l k connections with ⟨rfl, h⟩ | ⟨peer, hl, h⟩ | ⟨_, _, rfl, hl, h⟩
  · simp [h]
  · simp [h, hl]
  · simp [h, hl]

theorem addedFor_cons (K k : κ) (connections : List Nat) (calls : List (κ × List Nat))
    (added : Bool) (flags : List Bool) :
    addedFor K ((k, connections) :: calls) (added :: flags) =
      if k = K then added :: addedFor K calls flags else addedFor K calls flags := by
  by_cases hk : k = K <;> simp [addedFor, hk]

/-- Once `K` is registered, later calls on it report not added and leave its record. -/
theorem peerlistAddAll_of_registered {l : Peerlist κ} {K : κ} {p : PeerInfo κ}
    (calls : List (κ × List Nat)) (hK : peerlistLookup l K = some p) :
    peerlistLookup (peerlistAddAll l calls).1 K = some p ∧
      addedFor K calls (peerlistAddAll l calls).2 =
        List.replicate (calls.filter (·.1 = K)).length false := by
  induction calls generalizing l with
  | nil => exact ⟨hK, rfl⟩
  | cons call calls ih =>
    obtain ⟨k, connections⟩ := call
    have hK' : peerlistLookup (peerlistAdd l k connections).1 K = some p := by
      rw [peerlistLookup_peerlistAdd, if_neg fun h => by simp [hK] at h]
      exact hK
    obtain ⟨hl, hflags⟩ := ih hK'
    refine ⟨hl, ?_⟩
    simp only [peerlistAddAll, addedFor_cons, hflags]
    by_cases hk : k = K
    · subst hk
      have : (peerlistAdd l k connections).2.2 = false := Bool.eq_false_iff.mpr fun h => by
        simpa [hK] using ((peerlistAdd_added l k connections).mp h).2
      simp [this, List.replicate_succ]
    · simp [hk]

/-- Over any sequence of `PeerlistAdd` calls with connections, for a key `K` not registered at
the start: only the first call on `K` reports it added, `K` ends registered exactly when some
call was on it, and its one record holds the connections of that first call. -/
theorem peerlistAdd_sequence_unique (l : Peerlist κ) (calls : List (κ × List Nat))
    (hne : ∀ c ∈ calls, c.2 ≠ []) (K : κ) (hK : peerlistLookup l K = none) :
    addedFor K calls (peerlistAddAll l calls).2 =
      (if K ∈ calls.map Prod.fst then
        true :: List.replicate ((calls.filter (·.1 = K)).length - 1) false else []) ∧
    ((peerlistLookup (peerlistAddAll l calls).1 K).isSome ↔ K ∈ calls.map Prod.fst) ∧
    ∀ p, peerlistLookup (peerlistAddAll l calls).1 K = some p →
      calls.lookup K = some p.connectionActive := by
  induction calls generalizing l with
  | nil => simp [peerlistAddAll, addedFor, hK]
  | cons call calls ih =>
    obtain ⟨k, connections⟩ := call
    have hc : connections ≠ [] := hne _ (List.mem_cons_self _ _)
    by_cases hk : k = K
    · subst hk
      have hadd : (peerlistAdd l k connections).2.2 = true :=
        (peerlistAdd_added l k connections).mpr ⟨hc, hK⟩
      have hnew : peerlistLookup (peerlistAdd l k connections).1 k =
          some ⟨l.fresh, k, connections, [], connections.headD 0⟩ := by
        rw [peerlistLookup_peerlistAdd, if_pos ⟨rfl, hc, hK⟩]
      obtain ⟨hl, hflags⟩ := peerlistAddAll_of_registered calls hnew
      simp only [peerlistAddAll, addedFor_cons, hflags, hadd, hl]
      refine ⟨by simp, by simp, ?_⟩
      rintro p ⟨⟩
      exact List.lookup_cons_self
    · have hK' : peerlistLookup (peerlistAdd l k connections).1 K = none := by
        rw [peerlistLookup_peerlistAdd, if_neg fun h => hk h.1.symm]
        exact hK
      obtain ⟨hflags, hreg, hrec⟩ := ih _ (fun c hc' => hne c (List.mem_cons_of_mem _ hc')) hK'
      simp only [peerlistAddAll, addedFor_cons, if_neg hk, hflags]
      have hkK : (K == k) = false := beq_false_of_ne (Ne.symm hk)
      have hmem : K ∈ k :: calls.map Prod.fst ↔ K ∈ calls.map Prod.fst := by
        rw [List.mem_cons, or_iff_right (Ne.symm hk)]
      refine ⟨by rw [List.map_cons, if_congr hmem rfl rfl, List.filter_cons_of_neg (by simpa using hk)],
        by rw [List.map_cons, hmem, hreg],
        fun p hp => ?_⟩
      rw [List.lookup_cons, hkK]
      exact hrec p hp

/-- Three additions: key `7`, key `8`, then key `7` again. -/
def threeAdds : List (Nat × List Nat) := [(7, [1]), (8, [2]), (7, [3])]

theorem peerlistAdd_sequence_unique_threeAdds :
    (∀ c ∈ threeAdds, c.2 ≠ []) ∧ peerlistLookup (Peerlist.empty : Peerlist Nat) 7 = none ∧
    (addedFor 7 threeAdds (peerlistAddAll Peerlist.empty threeAdds).2 =
      (if 7 ∈ threeAdds.map Prod.fst then
        true :: List.replicate ((threeAdds.filter (·.1 = 7)).length - 1) false else []) ∧
    ((peerlistLookup (peerlistAddAll Peerlist.empty threeAdds).1 7).isSome ↔
      7 ∈ threeAdds.map Prod.fst) ∧
    ∀ p, peerlistLookup (peerlistAddAll Peerlist.empty threeAdds).1 7 = some p →
      threeAdds.lookup 7 = some p.connectionActive) :=
  ⟨by decide, rfl, peerlistAdd_sequence_unique _ _ (by decide) 7 rfl⟩

end Peernet
