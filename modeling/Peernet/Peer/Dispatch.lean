-- SUMMARY: The inbound dispatcher: concurrent packet workers that look the sender up and call the handler of the packet's command, in every interleaving.
import Peernet.Peer.Commands

/-!
# Dispatch of inbound packets

A worker of the inbound dispatcher takes a packet, looks its sender up with one atomic
`PeerlistLookup`, and later calls the handler of the packet's command with what it found
(`dispatch`). `Workers.DispatchStep` is one atomic step of one worker, for any mix of commands
and senders; every interleaving of the workers is a run of it. On announcements alone it takes
exactly the steps of the announcement model of `Peernet.Peer.Commands` (`dispatchStep_iff_step`).

Whatever the interleaving (`DispatchInv`):
* no record is ever lost or replaced, and every record the workers create holds the connection
  of an Announcement or a Response from its key, so a Ping never registers its sender
  (`dispatch_registry_safe`);
* once every worker is done, the sender of every Announcement and every Response is registered
  (`dispatch_registers_senders`);
* every packet sent answers a handled Announcement with a Response or a handled Ping with a
  Pong, addressed to the record registered under that packet's sender, and there is one Pong
  for each Ping whose lookup found its sender (`dispatch_replies`).
-/

namespace Peernet

variable {κ : Type} [DecidableEq κ]

/-! ## The dispatcher -/

/-- Modelled from the spec: the dispatch of the missing `packetWorker`, from a command code to
its handler, called with the peer the worker looked up. `cmdChat` only prints, and an unknown
code is ignored. -/
def dispatch (peer : Option (PeerInfo κ)) (msg : Packet κ) (n : Node κ) : Node κ :=
  if msg.command = commandAnnouncement then cmdAnouncement peer msg n
  else if msg.command = commandResponse then cmdResponse peer msg n
  else if msg.command = commandPing then cmdPing peer msg n
  else if msg.command = commandPong then cmdPong peer msg n
  else n

/-- One atomic step of one dispatcher worker: its lookup, or its call of the handler. -/
inductive Workers.DispatchStep : Workers κ → Workers κ → Prop
  | lookup (w : Workers κ) (i : Nat) (msg : Packet κ) (h : w.tasks[i]? = some (msg, .ready)) :
      DispatchStep w { w with
        tasks := w.tasks.set i (msg, .looked (peerlistLookup w.node.peerList msg.senderPublicKey)) }
  | handle (w : Workers κ) (i : Nat) (msg : Packet κ) (peer : Option (PeerInfo κ))
      (h : w.tasks[i]? = some (msg, .looked peer)) :
      DispatchStep w ⟨dispatch peer msg w.node, w.tasks.set i (msg, .done peer)⟩

/-- A packet whose handler registers an unknown sender: an Announcement or a Response. -/
def Packet.registers (msg : Packet κ) : Bool :=
  msg.command = commandAnnouncement || msg.command = commandResponse

/-- The record `PeerlistAdd` creates for the sender of `msg`. -/
def Packet.newRecord (msg : Packet κ) (l : Peerlist κ) : PeerInfo κ :=
  ⟨l.fresh, msg.senderPublicKey, [msg.connection], [], msg.connection⟩

@[simp] theorem Node.send_peerList (n : Node κ) (peer : PeerInfo κ) (command : Nat) :
    (n.send peer command).peerList = n.peerList := rfl

@[simp] theorem Node.send_outbox (n : Node κ) (peer : PeerInfo κ) (command : Nat) :
    (n.send peer command).outbox = n.outbox ++ [(peer.id, command)] := rfl

/-- What a handler call can do: answer the looked-up record of an Announcement with a Response
or of a Ping with a Pong; register the unknown sender of an Announcement and answer it; register
the sender of a Response with a missed lookup; or nothing, in which case a Ping had missed its
sender and a missed Announcement or Response found it registered. -/
theorem dispatch_cases (peer : Option (PeerInfo κ)) (msg : Packet κ) (n : Node κ) :
    (∃ p, peer = some p ∧ msg.command = commandAnnouncement ∧
      dispatch peer msg n = n.send p commandResponse) ∨
    (∃ p, peer = some p ∧ msg.command = commandPing ∧ dispatch peer msg n = n.send p commandPong) ∨
    (peer = none ∧ msg.command = commandAnnouncement ∧
      peerlistLookup n.peerList msg.senderPublicKey = none ∧
      dispatch peer msg n =
        ({ n with peerList := (peerlistAdd n.peerList msg.senderPublicKey [msg.connection]).1 } :
          Node κ).send (msg.newRecord n.peerList) commandResponse) ∨
    (peer = none ∧ msg.command = commandResponse ∧
      dispatch peer msg n =
        { n with peerList := (peerlistAdd n.peerList msg.senderPublicKey [msg.connection]).1 }) ∨
    (dispatch peer msg n = n ∧ (msg.command = commandPing → peer = none) ∧
      (msg.registers → peer = none →
        (peerlistLookup n.peerList msg.senderPublicKey).isSome)) := by
  have hAR : commandAnnouncement ≠ commandResponse := by decide
  have hAP : commandAnnouncement ≠ commandPing := by decide
  have hRP : commandResponse ≠ commandPing := by decide
  unfold dispatch
  by_cases hA : msg.command = commandAnnouncement
  · rw [if_pos hA]
    cases peer with
    | some p => exact .inl ⟨p, rfl, hA, rfl⟩
    | none =>
      rw [cmdAnouncement_none]
      split
      · rename_i hl
        exact .inr (.inr (.inl ⟨rfl, hA, hl, rfl⟩))
      · rename_i hl
        exact .inr (.inr (.inr (.inr ⟨rfl, fun h => absurd (hA.symm.trans h) hAP,
          fun _ _ => by simp [hl]⟩)))
  rw [if_neg hA]
  by_cases hR : msg.command = commandResponse
  · rw [if_pos hR]
    cases peer with
    | some p =>
      exact .inr (.inr (.inr (.inr ⟨rfl, fun h => absurd (hR.symm.trans h) hRP, nofun⟩)))
    | none => exact .inr (.inr (.inr (.inl ⟨rfl, hR, rfl⟩)))
  rw [if_neg hR]
  have hreg : msg.registers = false := by simp [Packet.registers, hA, hR]
  by_cases hP : msg.command = commandPing
  · rw [if_pos hP]
    cases peer with
    | some p => exact .inr (.inl ⟨p, rfl, hP, rfl⟩)
    | none => exact .inr (.inr (.inr (.inr ⟨rfl, fun _ => rfl, by simp [hreg]⟩)))
  rw [if_neg hP]
  exact .inr (.inr (.inr (.inr ⟨by split <;> rfl, fun h => absurd h hP, by simp [hreg]⟩)))

/-! ## What one handler call does to the registry and the outbox -/

theorem peerlistAdd_keeps {l : Peerlist κ} {publicKey k : κ} {connections : List Nat}
    {p : PeerInfo κ} (h : peerlistLookup l k = some p) :
    peerlistLookup (peerlistAdd l publicKey connections).1 k = some p := by
  rw [peerlistLookup_peerlistAdd, if_neg fun hc => by simp [h] at hc]
  exact h

theorem peerlistAdd_origin {l : Peerlist κ} {msg : Packet κ} {k : κ} {p : PeerInfo κ}
    (h : peerlistLookup (peerlistAdd l msg.senderPublicKey [msg.connection]).1 k = some p) :
    peerlistLookup l k = some p ∨ (k = msg.senderPublicKey ∧ p = msg.newRecord l) := by
  rw [peerlistLookup_peerlistAdd] at h
  split at h
  · rename_i hc
    exact .inr ⟨hc.1, (Option.some.inj h).symm⟩
  · exact .inl h

theorem peerlistAdd_registers (l : Peerlist κ) (msg : Packet κ) :
    (peerlistLookup (peerlistAdd l msg.senderPublicKey [msg.connection]).1
      msg.senderPublicKey).isSome := by
  rw [peerlistLookup_peerlistAdd]
  split
  · rfl
  · rename_i hc
    exact Option.isSome_iff_ne_none.mpr (by simpa using hc)

/-- A handler call loses and replaces no record. -/
theorem dispatch_keeps (peer : Option (PeerInfo κ)) (msg : Packet κ) (n : Node κ) {k : κ}
    {p : PeerInfo κ} (h : peerlistLookup n.peerList k = some p) :
    peerlistLookup (dispatch peer msg n).peerList k = some p := by
  rcases dispatch_cases peer msg n with ⟨_, -, -, he⟩ | ⟨_, -, -, he⟩ | ⟨-, -, -, he⟩ |
      ⟨-, -, he⟩ | ⟨he, -⟩ <;> rw [he] <;> first | exact h | exact peerlistAdd_keeps h

/-- A record a handler call creates is the new record of the sender of an Announcement or a
Response. -/
theorem dispatch_origin (peer : Option (PeerInfo κ)) (msg : Packet κ) (n : Node κ) {k : κ}
    {p : PeerInfo κ} (h : peerlistLookup (dispatch peer msg n).peerList k = some p) :
    peerlistLookup n.peerList k = some p ∨
      (msg.registers ∧ k = msg.senderPublicKey ∧ p = msg.newRecord n.peerList) := by
  rcases dispatch_cases peer msg n with ⟨_, -, -, he⟩ | ⟨_, -, -, he⟩ | ⟨-, hc, -, he⟩ |
      ⟨-, hc, he⟩ | ⟨he, -⟩ <;> rw [he] at h <;>
    first
    | exact .inl h
    | exact (peerlistAdd_origin h).imp_right fun h' => ⟨by simp [Packet.registers, hc], h'⟩

/-- After the handler of an Announcement or a Response, its sender is registered, when the
looked-up record, if any, was registered. -/
theorem dispatch_registers (peer : Option (PeerInfo κ)) (msg : Packet κ) (n : Node κ)
    (hreg : msg.registers) (hfound : ∀ p, peer = some p →
      peerlistLookup n.peerList msg.senderPublicKey = some p) :
    (peerlistLookup (dispatch peer msg n).peerList msg.senderPublicKey).isSome := by
  rcases dispatch_cases peer msg n with ⟨p, rfl, -, he⟩ | ⟨p, rfl, -, he⟩ | ⟨-, -, -, he⟩ |
      ⟨-, -, he⟩ | ⟨he, -, hnone⟩ <;> rw [he]
  · simp [hfound p rfl]
  · simp [hfound p rfl]
  · exact peerlistAdd_registers _ _
  · exact peerlistAdd_registers _ _
  · cases peer with
    | none => exact hnone hreg rfl
    | some p => simp [hfound p rfl]

theorem peerlistAdd_lookup_new {l : Peerlist κ} {msg : Packet κ}
    (h : peerlistLookup l msg.senderPublicKey = none) :
    peerlistLookup (peerlistAdd l msg.senderPublicKey [msg.connection]).1 msg.senderPublicKey =
      some (msg.newRecord l) := by
  rw [peerlistLookup_peerlistAdd, if_pos ⟨rfl, List.cons_ne_nil _ _, h⟩]
  rfl

/-- What a handler call sends: a Response to an Announcement or a Pong to a Ping, addressed to
the record registered under the sender afterwards, and a Pong exactly when a Ping found its
sender. -/
theorem dispatch_outbox (peer : Option (PeerInfo κ)) (msg : Packet κ) (n : Node κ)
    (hfound : ∀ p, peer = some p → peerlistLookup n.peerList msg.senderPublicKey = some p) :
    ∃ sent, (dispatch peer msg n).outbox = n.outbox ++ sent ∧
      sent.countP (·.2 = commandPong) =
        (if msg.command = commandPing ∧ peer.isSome then 1 else 0) ∧
      ∀ e ∈ sent, ∃ p,
        peerlistLookup (dispatch peer msg n).peerList msg.senderPublicKey = some p ∧
        ((msg.command = commandAnnouncement ∧ e = (p.id, commandResponse)) ∨
          (msg.command = commandPing ∧ e = (p.id, commandPong))) := by
  have hRP : commandResponse ≠ commandPong := by decide
  have hAP : commandAnnouncement ≠ commandPing := by decide
  have hRi : commandResponse ≠ commandPing := by decide
  rcases dispatch_cases peer msg n with ⟨p, rfl, hA, he⟩ | ⟨p, rfl, hP, he⟩ | ⟨rfl, hA, hl, he⟩ |
      ⟨rfl, hR, he⟩ | ⟨he, hping, -⟩ <;> rw [he]
  · refine ⟨[(p.id, commandResponse)], rfl, ?_, ?_⟩
    · simp [hRP, hA, hAP]
    · simp only [List.mem_singleton]
      rintro e rfl
      exact ⟨p, hfound p rfl, .inl ⟨hA, rfl⟩⟩
  · refine ⟨[(p.id, commandPong)], rfl, by simp [hP], ?_⟩
    simp only [List.mem_singleton]
    rintro e rfl
    exact ⟨p, hfound p rfl, .inr ⟨hP, rfl⟩⟩
  · refine ⟨[((msg.newRecord n.peerList).id, commandResponse)], rfl, ?_, ?_⟩
    · simp [hRP, hA, hAP]
    · simp only [List.mem_singleton]
      rintro e rfl
      exact ⟨_, peerlistAdd_lookup_new hl, .inl ⟨hA, rfl⟩⟩
  · exact ⟨[], by simp, by simp [hR, hRi], nofun⟩
  · refine ⟨[], by simp, ?_, nofun⟩
    by_cases hP : msg.command = commandPing
    · simp [hping hP]
    · simp [hP]

/-! ## Every interleaving -/

section Lists

variable {α β : Type}

theorem mem_set_of_ne {l : List α} {i : Nat} {x y t : α} (hi : l[i]? = some x) (ht : t ∈ l)
    (hne : t ≠ x) : t ∈ l.set i y := by
  obtain ⟨j, hj⟩ := List.mem_iff_getElem?.mp ht
  have hij : i ≠ j := by
    rintro rfl
    exact hne (Option.some.inj (hj.symm.trans hi))
  exact List.mem_iff_getElem?.mpr ⟨j, by rw [List.getElem?_set_ne hij, hj]⟩

/-- Overwriting the phase of a task keeps the list of packets. -/
theorem map_fst_set {l : List (α × β)} {i : Nat} {a : α} {b b' : β} (h : l[i]? = some (a, b)) :
    (l.set i (a, b')).map Prod.fst = l.map Prod.fst := by
  obtain ⟨hi, hget⟩ := List.getElem?_eq_some_iff.mp h
  refine List.ext_getElem? fun j => ?_
  by_cases hij : i = j
  · subst hij
    simp [hi, hget]
  · simp [List.getElem?_set_ne hij]

theorem exists_mem_set_fst {l : List (α × β)} {i : Nat} {a : α} {b b' : β}
    (h : l[i]? = some (a, b)) {t : α × β} (ht : t ∈ l) : ∃ t' ∈ l.set i (a, b'), t'.1 = t.1 := by
  have hm : t.1 ∈ (l.set i (a, b')).map Prod.fst := by
    rw [map_fst_set h]; exact List.mem_map_of_mem _ ht
  obtain ⟨t', ht', he⟩ := List.mem_map.mp hm
  exact ⟨t', ht', he⟩

end Lists

/-- Every step keeps each worker's packet. -/
theorem Workers.DispatchStep.packets {w w' : Workers κ} (h : Workers.DispatchStep w w') :
    w'.tasks.map Prod.fst = w.tasks.map Prod.fst := by
  cases h with
  | lookup i msg h => exact map_fst_set h
  | handle i msg peer h => exact map_fst_set h

theorem packets_of_run {w₀ w : Workers κ} (hrun : Relation.ReflTransGen Workers.DispatchStep w₀ w) :
    w.tasks.map Prod.fst = w₀.tasks.map Prod.fst := by
  induction hrun with
  | refl => rfl
  | tail _ hstep ih => exact hstep.packets.trans ih

/-- The invariant of every interleaving of dispatcher workers started on the peer list `l₀`:
the records of `l₀` stay; every other record was created for the sender of an Announcement or
a Response and holds its connection; a lookup's result stays registered; a done Announcement or
Response has its sender registered; every packet sent answers a done Announcement or Ping at
the record under its sender; and there is one Pong per done Ping that found its sender. -/
structure DispatchInv (l₀ : Peerlist κ) (w : Workers κ) : Prop where
  kept : ∀ k p, peerlistLookup l₀ k = some p → peerlistLookup w.node.peerList k = some p
  origin : ∀ k p, peerlistLookup w.node.peerList k = some p → peerlistLookup l₀ k = some p ∨
    ∃ t ∈ w.tasks, t.1.registers ∧ t.1.senderPublicKey = k ∧ p.publicKey = k ∧
      p.connectionActive = [t.1.connection]
  found : ∀ t ∈ w.tasks, ∀ p, (t.2 = .looked (some p) ∨ t.2 = .done (some p)) →
    peerlistLookup w.node.peerList t.1.senderPublicKey = some p
  registered : ∀ t ∈ w.tasks, t.1.registers → t.2.isDone →
    (peerlistLookup w.node.peerList t.1.senderPublicKey).isSome
  replies : ∀ e ∈ w.node.outbox, ∃ t ∈ w.tasks, t.2.isDone ∧ ∃ p,
    peerlistLookup w.node.peerList t.1.senderPublicKey = some p ∧
    ((t.1.command = commandAnnouncement ∧ e = (p.id, commandResponse)) ∨
      (t.1.command = commandPing ∧ e = (p.id, commandPong)))
  pongs : w.node.outbox.countP (·.2 = commandPong) =
    w.tasks.countP fun t => t.1.command = commandPing ∧ t.2.doneFound

theorem DispatchInv.start {w : Workers κ} (hready : ∀ t ∈ w.tasks, t.2 = .ready)
    (hout : w.node.outbox = []) : DispatchInv w.node.peerList w := by
  refine ⟨fun _ _ h => h, fun _ _ h => .inl h, fun t ht p hp => ?_, fun t ht _ hd => ?_,
    by simp [hout], ?_⟩
  · rw [hready t ht] at hp
    rcases hp with hp | hp <;> cases hp
  · rw [hready t ht] at hd
    cases hd
  · rw [hout, List.countP_nil, eq_comm, List.countP_eq_zero]
    intro t ht
    simp [hready t ht, Phase.doneFound]

variable {l₀ : Peerlist κ}

theorem DispatchInv.lookup_step {w : Workers κ} (hw : DispatchInv l₀ w) {i : Nat}
    {msg : Packet κ} (h : w.tasks[i]? = some (msg, .ready)) :
    DispatchInv l₀ { w with
      tasks := w.tasks.set i (msg, .looked (peerlistLookup w.node.peerList msg.senderPublicKey)) } := by
  obtain ⟨hi, hget⟩ := List.getElem?_eq_some_iff.mp h
  refine ⟨hw.kept, fun k p hk => ?_, fun t ht p hp => ?_, fun t ht hr hd => ?_,
    fun e he => ?_, ?_⟩
  · exact (hw.origin k p hk).imp_right fun ⟨t, ht, hrest⟩ =>
      (exists_mem_set_fst h ht).imp fun _ ⟨ht', he⟩ => ⟨ht', he ▸ hrest⟩
  · rcases List.mem_or_eq_of_mem_set ht with ht | rfl
    · exact hw.found t ht p hp
    · rcases hp with hp | hp
      · exact Phase.looked.inj hp
      · cases hp
  · rcases List.mem_or_eq_of_mem_set ht with ht | rfl
    · exact hw.registered t ht hr hd
    · cases hd
  · obtain ⟨t, ht, hd, hrest⟩ := hw.replies e he
    exact ⟨t, mem_set_of_ne h ht (by rintro rfl; cases hd), hd, hrest⟩
  · rw [hw.pongs, List.countP_set _ _ _ _ hi, hget]
    simp [Phase.doneFound]

theorem DispatchInv.handle_step {w : Workers κ} (hw : DispatchInv l₀ w) {i : Nat}
    {msg : Packet κ} {peer : Option (PeerInfo κ)} (h : w.tasks[i]? = some (msg, .looked peer)) :
    DispatchInv l₀ ⟨dispatch peer msg w.node, w.tasks.set i (msg, .done peer)⟩ := by
  obtain ⟨hi, hget⟩ := List.getElem?_eq_some_iff.mp h
  have hmemi : (msg, Phase.looked peer) ∈ w.tasks := hget ▸ List.getElem_mem hi
  have hnew : (msg, Phase.done peer) ∈ w.tasks.set i (msg, .done peer) := List.mem_set _ _ hi _
  have hfound : ∀ p, peer = some p →
      peerlistLookup w.node.peerList msg.senderPublicKey = some p := fun p hp =>
    hw.found _ hmemi p (.inl (by rw [hp]))
  have keeps : ∀ {k p}, peerlistLookup w.node.peerList k = some p →
      peerlistLookup (dispatch peer msg w.node).peerList k = some p :=
    dispatch_keeps peer msg w.node
  obtain ⟨sent, hout, hcount, hsent⟩ := dispatch_outbox peer msg w.node hfound
  refine ⟨fun k p hk => keeps (hw.kept k p hk), fun k p hk => ?_, fun t ht p hp => ?_,
    fun t ht hr hd => ?_, fun e he => ?_, ?_⟩
  · rcases dispatch_origin peer msg w.node hk with hk | ⟨hr, rfl, rfl⟩
    · exact (hw.origin k p hk).imp_right fun ⟨t, ht, hrest⟩ =>
        (exists_mem_set_fst h ht).imp fun _ ⟨ht', he⟩ => ⟨ht', he ▸ hrest⟩
    · exact .inr ⟨_, hnew, hr, rfl, rfl, rfl⟩
  · rcases List.mem_or_eq_of_mem_set ht with ht | rfl
    · exact keeps (hw.found t ht p hp)
    · rcases hp with hp | hp
      · cases hp
      · exact keeps (hfound p (Phase.done.inj hp))
  · rcases List.mem_or_eq_of_mem_set ht with ht | rfl
    · obtain ⟨p, hp⟩ := Option.isSome_iff_exists.mp (hw.registered t ht hr hd)
      simp [keeps hp]
    · exact dispatch_registers peer msg w.node hr hfound
  · rw [hout] at he
    rcases List.mem_append.mp he with he | he
    · obtain ⟨t, ht, hd, p, hp, hrest⟩ := hw.replies e he
      exact ⟨t, mem_set_of_ne h ht (by rintro rfl; cases hd), hd, p, keeps hp, hrest⟩
    · obtain ⟨p, hp, hrest⟩ := hsent e he
      exact ⟨_, hnew, rfl, p, hp, hrest⟩
  · rw [hout, List.countP_append, hcount, hw.pongs, List.countP_set _ _ _ _ hi, hget]
    cases peer <;> by_cases hP : msg.command = commandPing <;> simp [hP, Phase.doneFound]

theorem DispatchInv.step {w w' : Workers κ} (hw : DispatchInv l₀ w)
    (h : Workers.DispatchStep w w') : DispatchInv l₀ w' := by
  cases h with
  | lookup i msg h => exact hw.lookup_step h
  | handle i msg peer h => exact hw.handle_step h

/-- Every state of every interleaving from workers that have not started satisfies the
invariant. -/
theorem DispatchInv.reachable {w₀ w : Workers κ} (hready : ∀ t ∈ w₀.tasks, t.2 = .ready)
    (hout : w₀.node.outbox = []) (hrun : Relation.ReflTransGen Workers.DispatchStep w₀ w) :
    DispatchInv w₀.node.peerList w := by
  induction hrun with
  | refl => exact .start hready hout
  | tail _ hstep ih => exact ih.step hstep

/-! ## The announcement workers are the dispatcher on announcements -/

/-- On workers holding only Announcements, a step of the dispatcher is a step of the
announcement workers of `Peernet.Peer.Commands`, and conversely. -/
theorem dispatchStep_iff_step {w w' : Workers κ}
    (hann : ∀ t ∈ w.tasks, t.1.command = commandAnnouncement) :
    Workers.DispatchStep w w' ↔ Workers.Step w w' := by
  have hcmd : ∀ {i : Nat} {msg : Packet κ} {ph : Phase κ}, w.tasks[i]? = some (msg, ph) →
      msg.command = commandAnnouncement :=
    fun h => hann _ (List.getElem?_mem h)
  constructor
  · intro h
    cases h with
    | lookup i msg h => exact .lookup w i msg h
    | handle i msg peer h =>
      rw [dispatch, if_pos (hcmd h)]
      exact .handle w i msg peer h
  · intro h
    cases h with
    | lookup i msg h => exact .lookup w i msg h
    | handle i msg peer h =>
      have := Workers.DispatchStep.handle w i msg peer h
      rwa [dispatch, if_pos (hcmd h)] at this

/-! ## Safety of every interleaving -/

/-- Every handler call keeps the peer list well formed. -/
theorem Workers.DispatchStep.peerList_wellFormed {w w' : Workers κ}
    (h : Workers.DispatchStep w w') (hw : w.node.peerList.WellFormed) :
    w'.node.peerList.WellFormed := by
  cases h with
  | lookup => exact hw
  | handle i msg peer _ =>
    rcases dispatch_cases peer msg w.node with ⟨_, -, -, he⟩ | ⟨_, -, -, he⟩ | ⟨-, -, -, he⟩ |
        ⟨-, -, he⟩ | ⟨he, -⟩ <;> dsimp only <;> rw [he] <;>
      first | exact hw | exact hw.peerlistAdd _ _

theorem Workers.peerList_wellFormed_of_dispatch_run {w₀ w : Workers κ}
    (h₀ : w₀.node.peerList.WellFormed) (hrun : Relation.ReflTransGen Workers.DispatchStep w₀ w) :
    w.node.peerList.WellFormed := by
  induction hrun with
  | refl => exact h₀
  | tail _ hstep ih => exact hstep.peerList_wellFormed ih

theorem mem_packets_of_run {w₀ w : Workers κ}
    (hrun : Relation.ReflTransGen Workers.DispatchStep w₀ w) {t : Packet κ × Phase κ}
    (ht : t ∈ w.tasks) : t.1 ∈ w₀.tasks.map Prod.fst :=
  packets_of_run hrun ▸ List.mem_map_of_mem _ ht

/-- Whatever the interleaving of the dispatcher's workers, the peer list stays well formed, no
record is lost or replaced, and every record they create is keyed by, and holds the receiving
connection of, an Announcement or a Response from its key: a Ping, a Pong or an unknown command
never registers its sender. -/
theorem dispatch_registry_safe {w₀ w : Workers κ} (hwf : w₀.node.peerList.WellFormed)
    (hready : ∀ t ∈ w₀.tasks, t.2 = .ready) (hout : w₀.node.outbox = [])
    (hrun : Relation.ReflTransGen Workers.DispatchStep w₀ w) :
    w.node.peerList.WellFormed ∧
    (∀ k p, peerlistLookup w₀.node.peerList k = some p →
      peerlistLookup w.node.peerList k = some p) ∧
    ∀ k p, peerlistLookup w.node.peerList k = some p →
      peerlistLookup w₀.node.peerList k = some p ∨
      ∃ msg ∈ w₀.tasks.map Prod.fst, msg.registers ∧ msg.senderPublicKey = k ∧
        p.publicKey = k ∧ p.connectionActive = [msg.connection] := by
  have hinv := DispatchInv.reachable hready hout hrun
  refine ⟨Workers.peerList_wellFormed_of_dispatch_run hwf hrun, hinv.kept, fun k p hk => ?_⟩
  rcases hinv.origin k p hk with h0 | ⟨t, ht, hrest⟩
  · exact .inl h0
  · exact .inr ⟨t.1, mem_packets_of_run hrun ht, hrest⟩

/-- Once every worker of any interleaving is done, the sender of every Announcement and every
Response is registered. -/
theorem dispatch_registers_senders {w₀ w : Workers κ} (hready : ∀ t ∈ w₀.tasks, t.2 = .ready)
    (hout : w₀.node.outbox = []) (hrun : Relation.ReflTransGen Workers.DispatchStep w₀ w)
    (hdone : ∀ t ∈ w.tasks, t.2.isDone) :
    ∀ msg ∈ w₀.tasks.map Prod.fst, msg.registers →
      (peerlistLookup w.node.peerList msg.senderPublicKey).isSome := by
  intro msg hmsg hreg
  rw [← packets_of_run hrun] at hmsg
  obtain ⟨t, ht, rfl⟩ := List.mem_map.mp hmsg
  exact (DispatchInv.reachable hready hout hrun).registered t ht hreg (hdone t ht)

/-- In every interleaving, each packet the workers send answers a handled Announcement with a
Response or a handled Ping with a Pong, addressed to the record registered under that packet's
sender; and there is one Pong for each handled Ping whose lookup found its sender, so a Ping
from an unknown key is never answered. -/
theorem dispatch_replies {w₀ w : Workers κ} (hready : ∀ t ∈ w₀.tasks, t.2 = .ready)
    (hout : w₀.node.outbox = []) (hrun : Relation.ReflTransGen Workers.DispatchStep w₀ w) :
    (∀ e ∈ w.node.outbox, ∃ t ∈ w.tasks, t.2.isDone ∧ ∃ p,
      peerlistLookup w.node.peerList t.1.senderPublicKey = some p ∧
      ((t.1.command = commandAnnouncement ∧ e = (p.id, commandResponse)) ∨
        (t.1.command = commandPing ∧ e = (p.id, commandPong)))) ∧
    w.node.outbox.countP (·.2 = commandPong) =
      w.tasks.countP fun t => t.1.command = commandPing ∧ t.2.doneFound :=
  have hinv := DispatchInv.reachable hready hout hrun
  ⟨hinv.replies, hinv.pongs⟩

/-- A Ping from the unknown key `7`, then an Announcement from `7`, a Response from `8` and a
second Ping from `7`, on an empty peer list. -/
def mixedPackets : Workers Nat :=
  ⟨⟨Peerlist.empty, []⟩,
    [(⟨commandPing, 7, 1⟩, .ready), (⟨commandAnnouncement, 7, 2⟩, .ready),
      (⟨commandResponse, 8, 3⟩, .ready), (⟨commandPing, 7, 4⟩, .ready)]⟩

/-- The workers of `mixedPackets` one after the other: the first Ping is dropped, the
Announcement registers `7` and is answered, the Response registers `8`, and the second Ping gets
a Pong. -/
theorem mixedPackets_run : ∃ w, Relation.ReflTransGen Workers.DispatchStep mixedPackets w ∧
    (∀ t ∈ w.tasks, t.2.isDone) ∧ w.node.outbox.length = 2 :=
  ⟨_, .tail (.tail (.tail (.tail (.tail (.tail (.tail (.single
    (.lookup _ 0 _ rfl)) (.handle _ 0 _ _ rfl)) (.lookup _ 1 _ rfl)) (.handle _ 1 _ _ rfl))
    (.lookup _ 2 _ rfl)) (.handle _ 2 _ _ rfl)) (.lookup _ 3 _ rfl)) (.handle _ 3 _ _ rfl),
    by decide, rfl⟩

theorem dispatch_registry_safe_mixed :
    ∃ w, mixedPackets.node.peerList.WellFormed ∧ (∀ t ∈ mixedPackets.tasks, t.2 = .ready) ∧
      mixedPackets.node.outbox = [] ∧
      Relation.ReflTransGen Workers.DispatchStep mixedPackets w ∧ w.node.peerList.WellFormed ∧
      (∀ k p, peerlistLookup mixedPackets.node.peerList k = some p →
        peerlistLookup w.node.peerList k = some p) ∧
      ∀ k p, peerlistLookup w.node.peerList k = some p →
        peerlistLookup mixedPackets.node.peerList k = some p ∨
        ∃ msg ∈ mixedPackets.tasks.map Prod.fst, msg.registers ∧ msg.senderPublicKey = k ∧
          p.publicKey = k ∧ p.connectionActive = [msg.connection] := by
  obtain ⟨w, hrun, -⟩ := mixedPackets_run
  exact ⟨w, .empty, by decide, rfl, hrun,
    dispatch_registry_safe .empty (by decide) rfl hrun⟩

theorem dispatch_registers_senders_mixed :
    ∃ w, (∀ t ∈ mixedPackets.tasks, t.2 = .ready) ∧ mixedPackets.node.outbox = [] ∧
      Relation.ReflTransGen Workers.DispatchStep mixedPackets w ∧ (∀ t ∈ w.tasks, t.2.isDone) ∧
      ∀ msg ∈ mixedPackets.tasks.map Prod.fst, msg.registers →
        (peerlistLookup w.node.peerList msg.senderPublicKey).isSome := by
  obtain ⟨w, hrun, hdone, -⟩ := mixedPackets_run
  exact ⟨w, by decide, rfl, hrun, hdone, dispatch_registers_senders (by decide) rfl hrun hdone⟩

theorem dispatch_replies_mixed :
    ∃ w, (∀ t ∈ mixedPackets.tasks, t.2 = .ready) ∧ mixedPackets.node.outbox = [] ∧
      Relation.ReflTransGen Workers.DispatchStep mixedPackets w ∧
      (∀ e ∈ w.node.outbox, ∃ t ∈ w.tasks, t.2.isDone ∧ ∃ p,
        peerlistLookup w.node.peerList t.1.senderPublicKey = some p ∧
        ((t.1.command = commandAnnouncement ∧ e = (p.id, commandResponse)) ∨
          (t.1.command = commandPing ∧ e = (p.id, commandPong)))) ∧
      w.node.outbox.countP (·.2 = commandPong) =
        w.tasks.countP fun t => t.1.command = commandPing ∧ t.2.doneFound := by
  obtain ⟨w, hrun, -⟩ := mixedPackets_run
  exact ⟨w, by decide, rfl, hrun, dispatch_replies (by decide) rfl hrun⟩

end Peernet
