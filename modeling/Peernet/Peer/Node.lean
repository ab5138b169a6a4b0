-- SUMMARY: The node's concurrent actors on one peer list: the dispatcher workers, the keep-alive loop and SendChatAll, in every interleaving.
import Peernet.Peer.Dispatch
import Peernet.Peer.KeepAlive

/-!
# The node: dispatcher and keep-alive loop together

The packet workers and `autoPingAll` run at once on the one peer list: the workers add records
through `PeerlistAdd`, the keep-alive loop rewrites the connection lists of the records of its
snapshot, and `SendChatAll` only reads the list. `NodeStep` is one step of one of them, and every
interleaving is a run of it.

Each step of the node is zero or one step of the registry model of `Peernet.Peer.KeepAlive`
(`NodeStep.keepAlive`), so the registry invariants proved there hold of the whole node. Over
every interleaving (`node_registry_safe`) the peer list and each record stay well formed, no
record is ever dropped or moved to another address (a peer leaves the list only through
`PeerlistRemove`, which none of these actors calls), and each registered key was registered at
the start or is the sender of an Announcement or a Response the workers received.
-/

namespace Peernet

variable {κ : Type} [DecidableEq κ]

/-! ## The node's steps -/

/-- The node's shared state: the dispatcher workers with the peer list and outbox they share,
and the connection heap and ping log of the keep-alive loop. -/
structure NodeState (κ : Type) [DecidableEq κ] where
  workers : Workers κ
  heap : Nat → Connection
  pings : List Ping

/-- The state of the keep-alive model: the node's peer list, heap and ping log. -/
def NodeState.keepAlive (s : NodeState κ) : KeepAlive κ :=
  ⟨s.workers.node.peerList, s.heap, s.pings⟩

/-- The node after one iteration of `autoPingAll`, which writes the swept records back into the
workers' peer list. -/
def NodeState.tick (now : Int) (send : Nat → Option String) (s : NodeState κ) : NodeState κ :=
  let st := autoPingAll now send s.keepAlive
  ⟨{ s.workers with node := { s.workers.node with peerList := st.peerList } }, st.heap, st.pings⟩

/-- One step of one of the node's actors: a dispatcher worker, an iteration of `autoPingAll`, or
a `SendChatAll`. -/
inductive NodeStep : NodeState κ → NodeState κ → Prop
  | dispatch (s : NodeState κ) (w : Workers κ) (h : Workers.DispatchStep s.workers w) :
      NodeStep s { s with workers := w }
  | tick (s : NodeState κ) (now : Int) (send : Nat → Option String) :
      NodeStep s (s.tick now send)
  | chat (s : NodeState κ) :
      NodeStep s { s with workers := { s.workers with node := sendChatAll s.workers.node } }

/-- A handler call leaves the peer list as it was or is one `PeerlistAdd` of the sender with the
receiving connection. -/
theorem dispatch_peerList (peer : Option (PeerInfo κ)) (msg : Packet κ) (n : Node κ) :
    (dispatch peer msg n).peerList = n.peerList ∨
      (dispatch peer msg n).peerList =
        (peerlistAdd n.peerList msg.senderPublicKey [msg.connection]).1 := by
  rcases dispatch_cases peer msg n with ⟨_, -, -, he⟩ | ⟨_, -, -, he⟩ | ⟨-, -, -, he⟩ |
      ⟨-, -, he⟩ | ⟨he, -⟩ <;> rw [he]
  · exact .inl rfl
  · exact .inl rfl
  · exact .inr rfl
  · exact .inr rfl
  · exact .inl rfl

/-! ## The node refines the registry model -/

/-- Every step of the node is a run of at most one step of `KeepAliveStep`: a handler's
`PeerlistAdd` of one connection, or a tick. -/
theorem NodeStep.keepAlive {s s' : NodeState κ} (h : NodeStep s s') :
    Relation.ReflTransGen (KeepAliveStep List.Nodup) s.keepAlive s'.keepAlive := by
  cases h with
  | dispatch w h =>
    cases h with
    | lookup => exact .refl
    | handle i msg peer _ =>
      show Relation.ReflTransGen (KeepAliveStep List.Nodup) s.keepAlive
        ⟨(Peernet.dispatch peer msg s.workers.node).peerList, s.heap, s.pings⟩
      rcases dispatch_peerList peer msg s.workers.node with he | he <;> rw [he]
      · exact .refl
      · exact .single (.add s.keepAlive _ _ (List.nodup_singleton _))
  | tick now send => exact .single (.tick s.keepAlive now send)
  | chat =>
    show Relation.ReflTransGen (KeepAliveStep List.Nodup) s.keepAlive
      ⟨(sendChatAll s.workers.node).peerList, s.heap, s.pings⟩
    rw [sendChatAll, foldl_send_peerList]
    exact .refl

theorem NodeStep.keepAlive_run {s₀ s : NodeState κ} (hrun : Relation.ReflTransGen NodeStep s₀ s) :
    Relation.ReflTransGen (KeepAliveStep List.Nodup) s₀.keepAlive s.keepAlive := by
  induction hrun with
  | refl => exact .refl
  | tail _ hstep ih => exact ih.trans hstep.keepAlive

/-- Every run of the registry model keeps the peer list and each record well formed. -/
theorem KeepAlive.wellFormed_of_run {st st' : KeepAlive κ}
    (hrun : Relation.ReflTransGen (KeepAliveStep List.Nodup) st st') (hl : st.peerList.WellFormed)
    (hp : st.WellFormed) : st'.peerList.WellFormed ∧ st'.WellFormed := by
  induction hrun with
  | refl => exact ⟨hl, hp⟩
  | tail _ hstep ih => exact ⟨ih.1.keepAliveStep hstep, ih.2.step hstep⟩

/-! ## No record is lost -/

theorem Peerlist.RecordsOf.trans {l₁ l₂ l₃ : Peerlist κ} (h₁₂ : l₁.RecordsOf l₂)
    (h₂₃ : l₂.RecordsOf l₃) : l₁.RecordsOf l₃ := fun k p₃ hk => by
  obtain ⟨p₂, hp₂, hid₂, hkey₂⟩ := h₂₃ k p₃ hk
  obtain ⟨p₁, hp₁, hid₁, hkey₁⟩ := h₁₂ k p₂ hp₂
  exact ⟨p₁, hp₁, hid₁.trans hid₂, hkey₁.trans hkey₂⟩

/-- A tick keeps every record under its key, with its address and key. -/
theorem autoPingAll_keeps (now : Int) (send : Nat → Option String) (st : KeepAlive κ) :
    (autoPingAll now send st).peerList.RecordsOf st.peerList := by
  refine List.foldlRecOn (motive := fun st' : KeepAlive κ => st'.peerList.RecordsOf st.peerList)
    _ _ _ (.refl _) ?_
  intro st' hst' e he k p hk
  rw [peerlistLookup_set]
  split
  · rename_i hke
    subst hke
    have hp : e.2 = p := Option.some.inj ((AList.mem_lookup_iff.mpr he).symm.trans hk)
    obtain ⟨hid, hkey⟩ := Prod.mk.inj (sweep_ident now send ⟨e.2, st'.heap, st'.pings⟩)
    exact ⟨_, rfl, by rw [hid, hp], by rw [hkey, hp]⟩
  · exact hst' k p hk

/-- No step of the node drops a record or moves it to another address. -/
theorem NodeStep.keeps {s s' : NodeState κ} (h : NodeStep s s') :
    s'.workers.node.peerList.RecordsOf s.workers.node.peerList := by
  cases h with
  | dispatch w h =>
    cases h with
    | lookup => exact .refl _
    | handle i msg peer _ =>
      exact fun k p hk => ⟨p, dispatch_keeps peer msg s.workers.node hk, rfl, rfl⟩
  | tick now send => exact autoPingAll_keeps now send s.keepAlive
  | chat =>
    show (sendChatAll s.workers.node).peerList.RecordsOf s.workers.node.peerList
    rw [sendChatAll, foldl_send_peerList]
    exact .refl _

theorem NodeStep.keeps_run {s₀ s : NodeState κ} (hrun : Relation.ReflTransGen NodeStep s₀ s) :
    s.workers.node.peerList.RecordsOf s₀.workers.node.peerList := by
  induction hrun with
  | refl => exact .refl _
  | tail _ hstep ih => exact hstep.keeps.trans ih

/-! ## Where records come from -/

theorem NodeStep.packets {s s' : NodeState κ} (h : NodeStep s s') :
    s'.workers.tasks.map Prod.fst = s.workers.tasks.map Prod.fst := by
  cases h with
  | dispatch w h => exact h.packets
  | tick | chat => rfl

/-- A key a step of the node registers was registered before, or is the sender of an
Announcement or a Response of the workers. -/
theorem NodeStep.origin {s s' : NodeState κ} (h : NodeStep s s') {k : κ}
    (hk : (peerlistLookup s'.workers.node.peerList k).isSome) :
    (peerlistLookup s.workers.node.peerList k).isSome ∨
      ∃ msg ∈ s.workers.tasks.map Prod.fst, msg.registers ∧ msg.senderPublicKey = k := by
  obtain ⟨p', hp'⟩ := Option.isSome_iff_exists.mp hk
  cases h with
  | dispatch w h =>
    cases h with
    | lookup => exact .inl hk
    | handle i msg peer h =>
      rcases dispatch_origin peer msg s.workers.node hp' with hp | ⟨hreg, rfl, -⟩
      · exact .inl (by simp [hp])
      · exact .inr ⟨msg, List.mem_map_of_mem _ (List.getElem?_mem h), hreg, rfl⟩
  | tick now send =>
    obtain ⟨p, hp, -⟩ := (autoPingAll_recordsOf now send s.keepAlive).1 k p' hp'
    exact .inl (by simp [NodeState.keepAlive] at hp; simp [hp])
  | chat =>
    refine .inl ?_
    rwa [sendChatAll, foldl_send_peerList] at hk

/-- The peer lists reached from the workload of `s₀`: every registered key was registered in
`s₀` or is the sender of one of its Announcements or Responses. -/
def KeyOrigin (s₀ s : NodeState κ) : Prop :=
  ∀ k, (peerlistLookup s.workers.node.peerList k).isSome →
    (peerlistLookup s₀.workers.node.peerList k).isSome ∨
      ∃ msg ∈ s₀.workers.tasks.map Prod.fst, msg.registers ∧ msg.senderPublicKey = k

theorem KeyOrigin.run {s₀ s : NodeState κ} (hrun : Relation.ReflTransGen NodeStep s₀ s) :
    KeyOrigin s₀ s ∧ s.workers.tasks.map Prod.fst = s₀.workers.tasks.map Prod.fst := by
  induction hrun with
  | refl => exact ⟨fun _ hk => .inl hk, rfl⟩
  | tail _ hstep ih =>
    refine ⟨fun k hk => ?_, hstep.packets.trans ih.2⟩
    rcases hstep.origin hk with hk | ⟨msg, hmsg, hrest⟩
    · exact ih.1 k hk
    · exact .inr ⟨msg, ih.2 ▸ hmsg, hrest⟩

/-! ## Every interleaving -/

/-- Whatever the interleaving of the dispatcher workers, the keep-alive loop and `SendChatAll`,
from a well-formed peer list of well-formed records: the peer list and every record stay well
formed; every record of the start stays, under its key and at its address; and every key
registered was registered at the start or is the sender of an Announcement or a Response the
workers received. -/
theorem node_registry_safe {s₀ s : NodeState κ} (hwf : s₀.workers.node.peerList.WellFormed)
    (hpeers : ∀ k p, peerlistLookup s₀.workers.node.peerList k = some p → p.WellFormed)
    (hrun : Relation.ReflTransGen NodeStep s₀ s) :
    s.workers.node.peerList.WellFormed ∧
    (∀ k p, peerlistLookup s.workers.node.peerList k = some p → p.WellFormed) ∧
    s.workers.node.peerList.RecordsOf s₀.workers.node.peerList ∧
    ∀ k, (peerlistLookup s.workers.node.peerList k).isSome →
      (peerlistLookup s₀.workers.node.peerList k).isSome ∨
      ∃ msg ∈ s₀.workers.tasks.map Prod.fst, msg.registers ∧ msg.senderPublicKey = k := by
  obtain ⟨hl, hp⟩ := KeepAlive.wellFormed_of_run (NodeStep.keepAlive_run hrun) hwf hpeers
  exact ⟨hl, hp, NodeStep.keeps_run hrun, (KeyOrigin.run hrun).1⟩

/-- The workload of `mixedPackets` with the keep-alive loop on a heap of fresh connections. -/
def mixedNode : NodeState Nat :=
  ⟨mixedPackets, fun _ => ⟨.active, 0, 0, 0⟩, []⟩

/-- The Announcement from `7` is handled, then `autoPingAll` ticks and a chat goes out. -/
theorem node_registry_safe_mixed :
    ∃ s, mixedNode.workers.node.peerList.WellFormed ∧
      (∀ k p, peerlistLookup mixedNode.workers.node.peerList k = some p → p.WellFormed) ∧
      Relation.ReflTransGen NodeStep mixedNode s ∧
      s.workers.node.peerList.WellFormed ∧
      (∀ k p, peerlistLookup s.workers.node.peerList k = some p → p.WellFormed) ∧
      s.workers.node.peerList.RecordsOf mixedNode.workers.node.peerList ∧
      ∀ k, (peerlistLookup s.workers.node.peerList k).isSome →
        (peerlistLookup mixedNode.workers.node.peerList k).isSome ∨
        ∃ msg ∈ mixedNode.workers.tasks.map Prod.fst, msg.registers ∧ msg.senderPublicKey = k := by
  have hpeers : ∀ k p, peerlistLookup mixedNode.workers.node.peerList k = some p →
      p.WellFormed := fun k p h => by
    simp [mixedNode, mixedPackets, peerlistLookup, Peerlist.empty] at h
  obtain ⟨s, hrun⟩ : ∃ s, Relation.ReflTransGen NodeStep mixedNode s :=
    ⟨_, .tail (.tail (.tail (.single (.dispatch _ _ (.lookup _ 1 _ rfl)))
      (.dispatch _ _ (.handle _ 1 _ _ rfl))) (.tick _ (30 * second) fun _ => none)) (.chat _)⟩
  exact ⟨s, .empty, hpeers, hrun, node_registry_safe .empty hpeers hrun⟩

end Peernet
