-- SUMMARY: The command handlers and `SendChatAll` of `Commands.go` on a node's peer list and outbox, and every interleaving of concurrent announcement handling.
import Peernet.Peer.Registry
import Mathlib.Logic.Relation

/-!
# Command handlers

The handlers of `Commands.go` act on a `Node`: the peer list and the packets handed to the
network. A worker of the inbound dispatcher resolves the sender with one atomic
`PeerlistLookup` and calls the handler later, so two workers can both see an unknown sender.
`Workers.Step` takes one atomic step of one worker; every interleaving of the workers is a run
of it. Announcements are handled the same way in every interleaving only up to the replies:
a worker whose lookup missed the sender replies only if its own `PeerlistAdd` added it.
Every interleaving keeps the peer list well formed, and on a well-formed peer list
`SendChatAll` sends one chat to each registered peer.
-/

namespace Peernet

/-! ## Commands and handlers -/

/-- `CommandAnnouncement`. -/
def commandAnnouncement : Nat := 0
/-- `CommandResponse`. -/
def commandResponse : Nat := 1
/-- `CommandPing`. -/
def commandPing : Nat := 2
/-- `CommandPong`. -/
def commandPong : Nat := 3
/-- `CommandChat`. -/
def commandChat : Nat := 10

variable {κ : Type} [DecidableEq κ]

/-- `packet2`: the command of its `PacketRaw`, the sender's key and the address of the
connection that received it. The payload is read only by `cmdChat`'s print and is left out. -/
structure Packet (κ : Type) where
  command : Nat
  senderPublicKey : κ
  connection : Nat
deriving DecidableEq, Repr

/-- What the handlers act on: the peer list, and every packet handed to a peer's `send` as the
address of the sending record and the command. -/
structure Node (κ : Type) [DecidableEq κ] where
  peerList : Peerlist κ
  outbox : List (Nat × Nat)

/-- Modelled from the spec: `send` of the missing peer code hands a packet to the network on the
peer's preferred connection. -/
def Node.send (n : Node κ) (peer : PeerInfo κ) (command : Nat) : Node κ :=
  { n with outbox := n.outbox ++ [(peer.id, command)] }

/-- `cmdAnouncement`: an unknown sender is added and, if this call added it, answered; a known
sender is always answered. -/
def cmdAnouncement (peer : Option (PeerInfo κ)) (msg : Packet κ) (n : Node κ) : Node κ :=
  match peer with
  | none =>
    match peerlistAdd n.peerList msg.senderPublicKey [msg.connection] with
    | (l, some peer, true) => ({ n with peerList := l } : Node κ).send peer commandResponse
    | (l, _, _) => { n with peerList := l }
  | some peer => n.send peer commandResponse

/-- `cmdResponse`: an unknown sender is added, and nothing is sent. -/
def cmdResponse (peer : Option (PeerInfo κ)) (msg : Packet κ) (n : Node κ) : Node κ :=
  match peer with
  | none => { n with peerList := (peerlistAdd n.peerList msg.senderPublicKey [msg.connection]).1 }
  | some _ => n

/-- `cmdPing`: a known sender gets a pong; the reply to an unknown one is left as a TODO. -/
def cmdPing (peer : Option (PeerInfo κ)) (_msg : Packet κ) (n : Node κ) : Node κ :=
  match peer with
  | none => n
  | some peer => n.send peer commandPong

/-- `cmdPong` and `cmdChat` only print. -/
def cmdPong (_peer : Option (PeerInfo κ)) (_msg : Packet κ) (n : Node κ) : Node κ := n

theorem cmdAnouncement_none (msg : Packet κ) (n : Node κ) :
    cmdAnouncement none msg n =
      match peerlistLookup n.peerList msg.senderPublicKey with
      | none =>
        ({ n with peerList := (peerlistAdd n.peerList msg.senderPublicKey [msg.connection]).1 } :
          Node κ).send ⟨n.peerList.fresh, msg.senderPublicKey, [msg.connection], [], msg.connection⟩
            commandResponse
      | some _ => n := by
  rcases peerlistAdd_cases n.peerList msg.senderPublicKey [msg.connection] with
    ⟨h, -⟩ | ⟨peer, hl, h⟩ | ⟨latest, rest, hc, hl, h⟩
  · cases h
  · simp only [cmdAnouncement, h, hl]
  · cases hc
    simp only [cmdAnouncement, h, hl]

/-- `cmdAnouncement` leaves the peer list as it was, or as its `PeerlistAdd` leaves it. -/
theorem cmdAnouncement_peerList (peer : Option (PeerInfo κ)) (msg : Packet κ) (n : Node κ) :
    (cmdAnouncement peer msg n).peerList = n.peerList ∨
      (cmdAnouncement peer msg n).peerList =
        (peerlistAdd n.peerList msg.senderPublicKey [msg.connection]).1 := by
  cases peer with
  | none =>
    rw [cmdAnouncement_none]
    split
    · exact .inr rfl
    · exact .inl rfl
  | some _ => exact .inl rfl

/-! ## Chat to every peer -/

/-- `SendChatAll`: a chat packet to each peer of a `PeerlistGet` snapshot, in its order. The text
is the packet's payload, which the outbox does not record. -/
def sendChatAll (n : Node κ) : Node κ :=
  (peerlistGet n.peerList).foldl (fun n peer => n.send peer commandChat) n

theorem foldl_send_peerList (peers : List (PeerInfo κ)) (command : Nat) (n : Node κ) :
    (peers.foldl (fun n peer => n.send peer command) n).peerList = n.peerList := by
  induction peers generalizing n with
  | nil => rfl
  | cons peer peers ih => exact ih _

theorem foldl_send_outbox (peers : List (PeerInfo κ)) (command : Nat) (n : Node κ) :
    (peers.foldl (fun n peer => n.send peer command) n).outbox =
      n.outbox ++ peers.map fun peer => (peer.id, command) := by
  induction peers generalizing n with
  | nil => simp
  | cons peer peers ih => rw [List.foldl_cons, ih]; simp [Node.send]

/-- On a well-formed peer list `SendChatAll` leaves the peer list as it was and sends
`PeerlistCount` chats: one to the address of each record `PeerlistLookup` finds, and no other. -/
theorem sendChatAll_each_peer_once (n : Node κ) (h : n.peerList.WellFormed) :
    (sendChatAll n).peerList = n.peerList ∧
    (sendChatAll n).outbox.length = n.outbox.length + peerlistCount n.peerList ∧
    ((sendChatAll n).outbox.drop n.outbox.length).Nodup ∧
    ∀ e, e ∈ (sendChatAll n).outbox.drop n.outbox.length ↔
      ∃ k p, peerlistLookup n.peerList k = some p ∧ e = (p.id, commandChat) := by
  have hout := foldl_send_outbox (peerlistGet n.peerList) commandChat n
  refine ⟨foldl_send_peerList _ _ n, by simp [sendChatAll, hout, peerlistCount_eq_length], ?_,
    fun e => ?_⟩ <;> rw [sendChatAll, hout, List.drop_left]
  · exact (h.nodup_ids.of_map _).map_on fun x hx y hy he =>
      List.inj_on_of_nodup_map h.nodup_ids hx hy (Prod.mk.inj he).1
  · simp only [List.mem_map, h.mem_peerlistGet]
    constructor
    · rintro ⟨p, hp, rfl⟩
      exact ⟨_, p, hp, rfl⟩
    · rintro ⟨k, p, hp, rfl⟩
      exact ⟨p, h.keyed k p hp ▸ hp, rfl⟩

/-- Peers `7` and `8` registered, and nothing sent yet. -/
def twoPeers : Node Nat :=
  ⟨(peerlistAdd (peerlistAdd Peerlist.empty 7 [1]).1 8 [2]).1, []⟩

theorem twoPeers_wellFormed : twoPeers.peerList.WellFormed :=
  (Peerlist.WellFormed.empty.peerlistAdd 7 [1]).peerlistAdd 8 [2]

theorem sendChatAll_each_peer_once_twoPeers :
    twoPeers.peerList.WellFormed ∧
      (sendChatAll twoPeers).peerList = twoPeers.peerList ∧
      (sendChatAll twoPeers).outbox.length = twoPeers.outbox.length + peerlistCount twoPeers.peerList ∧
      ((sendChatAll twoPeers).outbox.drop twoPeers.outbox.length).Nodup ∧
      ∀ e, e ∈ (sendChatAll twoPeers).outbox.drop twoPeers.outbox.length ↔
        ∃ k p, peerlistLookup twoPeers.peerList k = some p ∧ e = (p.id, commandChat) :=
  ⟨twoPeers_wellFormed, sendChatAll_each_peer_once twoPeers twoPeers_wellFormed⟩

/-! ## Interleavings of announcement workers -/

/-- Where a worker is with its packet: before the lookup, holding the lookup's result, or done
after calling the handler with that result. -/
inductive Phase (κ : Type)
  | ready
  | looked (peer : Option (PeerInfo κ))
  | done (peer : Option (PeerInfo κ))
deriving DecidableEq, Repr

/-- Workers handling announcements concurrently: the node they share, and each worker's packet
and phase. -/
structure Workers (κ : Type) [DecidableEq κ] where
  node : Node κ
  tasks : List (Packet κ × Phase κ)

/-- One atomic step of one worker: its lookup, or its call of `cmdAnouncement`, which runs
`PeerlistAdd` atomically under the registry lock. -/
inductive Workers.Step : Workers κ → Workers κ → Prop
  | lookup (w : Workers κ) (i : Nat) (msg : Packet κ) (h : w.tasks[i]? = some (msg, .ready)) :
      Step w { w with
        tasks := w.tasks.set i (msg, .looked (peerlistLookup w.node.peerList msg.senderPublicKey)) }
  | handle (w : Workers κ) (i : Nat) (msg : Packet κ) (peer : Option (PeerInfo κ))
      (h : w.tasks[i]? = some (msg, .looked peer)) :
      Step w ⟨cmdAnouncement peer msg w.node, w.tasks.set i (msg, .done peer)⟩

/-- A done worker whose lookup missed the sender. -/
def Phase.doneMissed : Phase κ → Bool
  | .done none => true
  | _ => false

/-- A done worker whose lookup found the sender. -/
def Phase.doneFound : Phase κ → Bool
  | .done (some _) => true
  | _ => false

/-- A worker that has called its handler. -/
def Phase.isDone : Phase κ → Bool
  | .done _ => true
  | _ => false

/-- A worker whose lookup, done or not, found the sender. -/
def Phase.found : Phase κ → Bool
  | .looked (some _) | .done (some _) => true
  | _ => false

/-- A worker whose lookup, done or not, missed the sender. -/
def Phase.missed : Phase κ → Bool
  | .looked none | .done none => true
  | _ => false

omit [DecidableEq κ] in
/-- A done worker found the sender exactly when it did not miss it. -/
theorem Phase.doneFound_eq {p : Phase κ} (h : p.isDone = true) : p.doneFound = !p.doneMissed := by
  match p, h with
  | .done none, _ | .done (some _), _ => rfl

omit [DecidableEq κ] in
theorem Phase.found_of_doneFound {p : Phase κ} (h : p.doneFound = true) : p.found = true := by
  match p, h with
  | .done (some _), _ => rfl

section Interleaving

variable (K : κ) (reg₀ : Prop)

/-- The invariant of every interleaving of workers that all handle an announcement from `K`,
started on a peer list where `K` is registered iff `reg₀`, with an empty outbox. -/
structure AnnounceInv (w : Workers κ) : Prop where
  sender : ∀ t ∈ w.tasks, t.1.senderPublicKey = K
  registered : (peerlistLookup w.node.peerList K).isSome ↔
    reg₀ ∨ 0 < w.tasks.countP (·.2.doneMissed)
  found : ∀ t ∈ w.tasks, t.2.found → (peerlistLookup w.node.peerList K).isSome
  missed : reg₀ → ∀ t ∈ w.tasks, t.2.missed = false
  outbox : w.node.outbox.length =
    w.tasks.countP (·.2.doneFound) + min 1 (w.tasks.countP (·.2.doneMissed))
  responses : ∀ e ∈ w.node.outbox, e.2 = commandResponse

variable {K reg₀}

theorem AnnounceInv.lookup_step {w : Workers κ} (hw : AnnounceInv K reg₀ w) {i : Nat}
    {msg : Packet κ} (h : w.tasks[i]? = some (msg, .ready)) :
    AnnounceInv K reg₀ { w with
      tasks := w.tasks.set i (msg, .looked (peerlistLookup w.node.peerList msg.senderPublicKey)) } := by
  obtain ⟨hi, hget⟩ := List.getElem?_eq_some_iff.mp h
  have hK : msg.senderPublicKey = K := hw.sender _ (hget ▸ List.getElem_mem hi)
  have count (p : Packet κ × Phase κ → Bool) (hp : p (msg, .ready) = false)
      (hq : p (msg, .looked (peerlistLookup w.node.peerList K)) = false) :
      (w.tasks.set i (msg, .looked (peerlistLookup w.node.peerList K))).countP p =
        w.tasks.countP p := by
    simp [List.countP_set _ _ _ _ hi, hget, hp, hq]
  rw [hK]
  constructor
  · intro t ht
    rcases List.mem_or_eq_of_mem_set ht with ht | rfl
    · exact hw.sender t ht
    · exact hK
  · rw [count _ rfl rfl]; exact hw.registered
  · intro t ht hf
    rcases List.mem_or_eq_of_mem_set ht with ht | rfl
    · exact hw.found t ht hf
    · revert hf; cases peerlistLookup w.node.peerList K <;> simp [Phase.found]
  · intro h0 t ht
    rcases List.mem_or_eq_of_mem_set ht with ht | rfl
    · exact hw.missed h0 t ht
    · have := hw.registered.mpr (.inl h0)
      revert this; cases peerlistLookup w.node.peerList K <;> simp [Phase.missed]
  · rw [count _ rfl rfl, count _ rfl rfl]; exact hw.outbox
  · exact hw.responses

theorem AnnounceInv.handle_step {w : Workers κ} (hw : AnnounceInv K reg₀ w) {i : Nat}
    {msg : Packet κ} {peer : Option (PeerInfo κ)} (h : w.tasks[i]? = some (msg, .looked peer)) :
    AnnounceInv K reg₀ ⟨cmdAnouncement peer msg w.node, w.tasks.set i (msg, .done peer)⟩ := by
  obtain ⟨hi, hget⟩ := List.getElem?_eq_some_iff.mp h
  have hmem : (msg, Phase.looked peer) ∈ w.tasks := hget ▸ List.getElem_mem hi
  have hK : msg.senderPublicKey = K := hw.sender _ hmem
  have cnt (p : Packet κ × Phase κ → Bool) (hp : p (msg, .looked peer) = false) :
      (w.tasks.set i (msg, .done peer)).countP p =
        w.tasks.countP p + (if p (msg, .done peer) then 1 else 0) := by
    rw [List.countP_set _ _ _ _ hi, hget, hp]; simp
  have old (P : Packet κ × Phase κ → Prop) (hP : ∀ t ∈ w.tasks, P t) (hnew : P (msg, .done peer)) :
      ∀ t ∈ w.tasks.set i (msg, .done peer), P t := fun t ht => by
    rcases List.mem_or_eq_of_mem_set ht with ht | rfl
    · exact hP t ht
    · exact hnew
  have sent (n : Node κ) (q : PeerInfo κ) (hn : ∀ e ∈ n.outbox, e.2 = commandResponse) :
      ∀ e ∈ (n.send q commandResponse).outbox, e.2 = commandResponse := by
    simp only [Node.send, List.mem_append, List.mem_singleton]
    rintro e (he | rfl)
    exacts [hn e he, rfl]
  have hout := hw.outbox
  have hreg := hw.registered
  have sender := old _ hw.sender hK
  cases peer with
  | some p =>
    have hK' := hw.found _ hmem rfl
    have hfound : (w.tasks.set i (msg, .done (some p))).countP (·.2.doneFound) =
        w.tasks.countP (·.2.doneFound) + 1 := cnt _ rfl
    have hmissed : (w.tasks.set i (msg, .done (some p))).countP (·.2.doneMissed) =
        w.tasks.countP (·.2.doneMissed) := cnt _ rfl
    refine ⟨sender, ?_, old _ hw.found (fun _ => hK'), fun h0 => old _ (hw.missed h0) rfl, ?_,
      sent _ _ hw.responses⟩
    · rw [hmissed]; exact hreg
    · simp only [cmdAnouncement, Node.send, List.length_append, List.length_singleton, hout,
        hfound, hmissed]
      omega
  | none =>
    have hfound : (w.tasks.set i (msg, .done none)).countP (·.2.doneFound) =
        w.tasks.countP (·.2.doneFound) := cnt _ rfl
    have hmissed : (w.tasks.set i (msg, .done none)).countP (·.2.doneMissed) =
        w.tasks.countP (·.2.doneMissed) + 1 := cnt _ rfl
    rw [cmdAnouncement_none, hK]
    cases hl : peerlistLookup w.node.peerList K with
    | none =>
      have hnot : ¬ reg₀ ∧ w.tasks.countP (·.2.doneMissed) = 0 := by simpa [hl] using hreg
      have hnow : (peerlistLookup (peerlistAdd w.node.peerList K [msg.connection]).1 K).isSome := by
        simp [peerlistLookup_peerlistAdd, hl]
      refine ⟨sender, ?_, fun _ _ _ => hnow, fun h0 => absurd h0 hnot.1, ?_,
        sent _ _ hw.responses⟩
      · simp only [Node.send, hnow, true_iff, hmissed]; omega
      · simp only [Node.send, List.length_append, List.length_singleton, hout, hfound, hmissed,
          hnot.2]
        omega
    | some q =>
      have hnot : ¬ reg₀ := fun h0 => by simpa [Phase.missed] using hw.missed h0 _ hmem
      have hpos : 0 < w.tasks.countP (·.2.doneMissed) := by simpa [hl, hnot] using hreg
      refine ⟨sender, ?_, fun _ _ _ => by simp [hl], fun h0 => absurd h0 hnot, ?_, hw.responses⟩
      · simp only [hl, Option.isSome_some, true_iff, hmissed]; omega
      · rw [hout, hfound, hmissed]; omega

theorem AnnounceInv.step {w w' : Workers κ} (hw : AnnounceInv K reg₀ w) (h : Workers.Step w w') :
    AnnounceInv K reg₀ w' := by
  cases h with
  | lookup i msg h => exact hw.lookup_step h
  | handle i msg peer h => exact hw.handle_step h

/-- Every step of the workers keeps the peer list well formed. -/
theorem Workers.Step.peerList_wellFormed {w w' : Workers κ} (h : Workers.Step w w')
    (hw : w.node.peerList.WellFormed) : w'.node.peerList.WellFormed := by
  cases h with
  | lookup => exact hw
  | handle i msg peer _ =>
    rcases cmdAnouncement_peerList peer msg w.node with h | h <;> dsimp only <;> rw [h]
    · exact hw
    · exact hw.peerlistAdd _ _

/-- Every interleaving of the workers keeps the peer list well formed, so a `SendChatAll` after
it reaches each registered peer once (`sendChatAll_each_peer_once`). -/
theorem Workers.peerList_wellFormed_of_run {w₀ w : Workers κ} (h₀ : w₀.node.peerList.WellFormed)
    (hrun : Relation.ReflTransGen Workers.Step w₀ w) : w.node.peerList.WellFormed := by
  induction hrun with
  | refl => exact h₀
  | tail _ hstep ih => exact hstep.peerList_wellFormed ih

theorem Workers.Step.length {w w' : Workers κ} (h : Workers.Step w w') :
    w'.tasks.length = w.tasks.length := by
  cases h <;> simp

/-- The start of the workers: each holds an announcement from `K` and has not looked it up,
and nothing has been sent. -/
structure Workers.Start (K : κ) (w : Workers κ) : Prop where
  ready : ∀ t ∈ w.tasks, t.2 = .ready
  sender : ∀ t ∈ w.tasks, t.1.senderPublicKey = K
  outbox : w.node.outbox = []

theorem AnnounceInv.start {w : Workers κ} (h : Workers.Start K w) :
    AnnounceInv K (peerlistLookup w.node.peerList K).isSome w := by
  have hmissed : w.tasks.countP (·.2.doneMissed) = 0 :=
    List.countP_eq_zero.mpr fun t ht => by simp [h.ready t ht, Phase.doneMissed]
  have hfound : w.tasks.countP (·.2.doneFound) = 0 :=
    List.countP_eq_zero.mpr fun t ht => by simp [h.ready t ht, Phase.doneFound]
  refine ⟨h.sender, by simp [hmissed], fun t ht => by simp [h.ready t ht, Phase.found],
    fun _ t ht => by simp [h.ready t ht, Phase.missed], by simp [h.outbox, hmissed, hfound],
    by simp [h.outbox]⟩

/-- Every state of every interleaving satisfies the invariant. -/
theorem AnnounceInv.reachable {w₀ w : Workers κ} (h₀ : Workers.Start K w₀)
    (hrun : Relation.ReflTransGen Workers.Step w₀ w) :
    AnnounceInv K (peerlistLookup w₀.node.peerList K).isSome w ∧ w.tasks.length = w₀.tasks.length := by
  induction hrun with
  | refl => exact ⟨.start h₀, rfl⟩
  | tail _ step ih => exact ⟨ih.1.step step, step.length.trans ih.2⟩

/-- Announcements from one key `K` handled by `n ≥ 1` concurrent workers, in any interleaving of
their lookups and handler calls: once all are done, exactly one record is registered under `K`,
every packet sent is a Response, and the Responses number `n - a + min 1 a`, where `a` is the
number of workers whose lookup missed `K`; `a ≥ 1` when `K` was not registered at the start. -/
theorem announce_every_interleaving {w₀ w : Workers κ} (h₀ : Workers.Start K w₀)
    (hn : w₀.tasks ≠ []) (hrun : Relation.ReflTransGen Workers.Step w₀ w)
    (hdone : ∀ t ∈ w.tasks, t.2.isDone) :
    (peerlistLookup w.node.peerList K).isSome ∧
    (∀ e ∈ w.node.outbox, e.2 = commandResponse) ∧
    w.node.outbox.length = w₀.tasks.length - w.tasks.countP (·.2.doneMissed) +
      min 1 (w.tasks.countP (·.2.doneMissed)) ∧
    (peerlistLookup w₀.node.peerList K = none → 0 < w.tasks.countP (·.2.doneMissed)) := by
  obtain ⟨hw, hlen⟩ := AnnounceInv.reachable h₀ hrun
  have hsplit : w.tasks.countP (·.2.doneFound) = w.tasks.countP (fun t => ¬ t.2.doneMissed) :=
    List.countP_congr fun t ht => by simp [Phase.doneFound_eq (hdone t ht)]
  have htotal := List.length_eq_countP_add_countP (·.2.doneMissed) w.tasks
  have hpos : 0 < w.tasks.length := hlen ▸ List.length_pos.mpr hn
  have hreg : (peerlistLookup w.node.peerList K).isSome := by
    by_cases hm : 0 < w.tasks.countP (·.2.doneMissed)
    · exact hw.registered.mpr (.inr hm)
    · obtain ⟨t, ht, hf⟩ : ∃ t ∈ w.tasks, t.2.doneFound :=
        List.countP_pos_iff.mp (by omega)
      exact hw.found t ht (Phase.found_of_doneFound hf)
  refine ⟨hreg, hw.responses, by rw [hw.outbox, hsplit]; omega, fun h0 => ?_⟩
  have := hw.registered.mp hreg
  simpa [h0] using this

end Interleaving

/-- Two workers, each holding an announcement from key `7`, on an empty peer list. -/
def twoAnnouncements : Workers Nat :=
  ⟨⟨Peerlist.empty, []⟩,
    [(⟨commandAnnouncement, 7, 1⟩, .ready), (⟨commandAnnouncement, 7, 2⟩, .ready)]⟩

/-- Both workers look `7` up before either calls its handler: the second `PeerlistAdd` finds the
key taken, so the two announcements get one Response. -/
theorem announce_lookups_first :
    ∃ w, Relation.ReflTransGen Workers.Step twoAnnouncements w ∧ (∀ t ∈ w.tasks, t.2.isDone) ∧
      w.node.outbox.length = 1 :=
  ⟨_, .tail (.tail (.tail (.single (.lookup _ 0 _ rfl)) (.lookup _ 1 _ rfl))
    (.handle _ 0 _ none rfl)) (.handle _ 1 _ none rfl), by decide, by decide⟩

theorem announce_lookups_first_counted :
    ∃ w, Workers.Start 7 twoAnnouncements ∧ twoAnnouncements.tasks ≠ [] ∧
      Relation.ReflTransGen Workers.Step twoAnnouncements w ∧ (∀ t ∈ w.tasks, t.2.isDone) ∧
      (peerlistLookup w.node.peerList 7).isSome ∧
      (∀ e ∈ w.node.outbox, e.2 = commandResponse) ∧
      w.node.outbox.length = twoAnnouncements.tasks.length - w.tasks.countP (·.2.doneMissed) +
        min 1 (w.tasks.countP (·.2.doneMissed)) ∧
      (peerlistLookup twoAnnouncements.node.peerList 7 = none →
        0 < w.tasks.countP (·.2.doneMissed)) := by
  have h₀ : Workers.Start 7 twoAnnouncements := ⟨by decide, by decide, rfl⟩
  obtain ⟨w, hrun, hdone⟩ : ∃ w, Relation.ReflTransGen Workers.Step twoAnnouncements w ∧
      ∀ t ∈ w.tasks, t.2.isDone :=
    ⟨_, .tail (.tail (.tail (.single (.lookup _ 0 _ rfl)) (.lookup _ 1 _ rfl))
      (.handle _ 0 _ none rfl)) (.handle _ 1 _ none rfl), by decide⟩
  exact ⟨w, h₀, by decide, hrun, hdone, announce_every_interleaving h₀ (by decide) hrun hdone⟩

end Peernet
