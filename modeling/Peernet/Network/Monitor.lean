-- SUMMARY: The interface monitor of `Network Detection.go`: the diff of one cycle, the handlers it calls, and what it emits for every pair of snapshots.
import Mathlib.Data.List.AList
import Peernet.Network.Init

/-!
# Interface monitor

Each cycle of `networkChangeMonitor` reads `net.Interfaces`, compares every interface whose
`Addrs` succeeds with the previous snapshot `ifacesExist`, by name and then by address text,
calls a handler for each difference, reports every name of `ifacesExist` missing from the new
snapshot as removed, and keeps the new snapshot.

The diff reads only the snapshots and the handlers only the listener state, so a cycle is the
list of handler calls the diff makes (`monitorDiff`), in its order, folded over the listener
state. A Go map is an `AList` here; the order of its entries stands for the unspecified order of
`range` over the map, and every result below holds for every snapshot, so for every order.

When every enumeration succeeds the diff emits each difference once and nothing else, the new
snapshot is the one enumerated, and applying the events to the old snapshot gives it, up to the
order of each interface's addresses and up to their texts (`monitorDiff_spec`). Texts do not
name addresses exactly: an IPv4-mapped IP with a 16-byte mask prints as the IPv4 address with a
4-byte mask does, so a change between the two goes unseen (`mapped_address_change_unseen`). An interface whose `Addrs` fails is
left out of the new snapshot, and so is reported removed (`addrsFailure_reported_removed`).
-/

namespace Peernet

open Go net

/-- A snapshot `ifacesExist`: each interface name and the addresses its `Addrs` returned. -/
abbrev Snapshot := AList fun _ : List Char => List IPNet

/-- A call of the monitor to a handler, with the interface name and addresses it passes. -/
inductive MonitorEvent where
  /-- `networkChangeInterfaceNew`. -/
  | interfaceNew (iface : List Char) (addresses : List IPNet)
  /-- `networkChangeIPNew`. -/
  | ipNew (iface : List Char) (address : IPNet)
  /-- `networkChangeIPRemove`. -/
  | ipRemove (iface : List Char) (address : IPNet)
  /-- `networkChangeInterfaceRemove`. -/
  | interfaceRemove (iface : List Char) (addresses : List IPNet)
deriving DecidableEq

/-- The interface an event is about. -/
def MonitorEvent.iface : MonitorEvent → List Char
  | .interfaceNew iface _ | .ipNew iface _ | .ipRemove iface _ | .interfaceRemove iface _ => iface

/-! ## One cycle -/

/-- The flag loop of the diff: whether `addresses` has an address with the text of `addr`. Its
`break` ends the loop at the first match and does not change the flag. -/
def addressListed (addresses : List IPNet) (addr : IPNet) : Bool :=
  addresses.any fun exist => exist.string = addr.string

/-- The handler calls of the loop body for the interface `name`, whose `Addrs` returned
`addressesNew`: a new interface, or the addresses it gained and then those it lost. -/
def interfaceEvents (ifacesExist : Snapshot) (name : List Char) (addressesNew : List IPNet) :
    List MonitorEvent :=
  match ifacesExist.lookup name with
  | none => [.interfaceNew name addressesNew]
  | some addressesExist =>
    (addressesNew.filter fun addr => !addressListed addressesExist addr).map (.ipNew name) ++
      (addressesExist.filter fun exist => !addressListed addressesNew exist).map (.ipRemove name)

/-- One round of the loop over the interfaces: one whose `Addrs` fails is skipped, any other
adds its handler calls and enters `ifacesNew`. -/
def scanInterface (ifacesExist : Snapshot) (acc : List MonitorEvent × Snapshot)
    (iface : Interface) : List MonitorEvent × Snapshot :=
  match iface.addrs with
  | none => acc
  | some addressesNew =>
    (acc.1 ++ interfaceEvents ifacesExist iface.name addressesNew,
      acc.2.insert iface.name addressesNew)

/-- The loop over `ifacesExist`: a removal for every name `ifacesNew` lacks. -/
def removedInterfaces (ifacesExist ifacesNew : Snapshot) : List MonitorEvent :=
  ifacesExist.entries.filterMap fun e =>
    if e.1 ∈ ifacesNew then none else some (.interfaceRemove e.1 e.2)

/-- The diff of a cycle that enumerated `interfaceList`: the handler calls, in order, and the
new snapshot `ifacesNew`. -/
def monitorDiff (ifacesExist : Snapshot) (interfaceList : List Interface) :
    List MonitorEvent × Snapshot :=
  let (events, ifacesNew) := interfaceList.foldl (scanInterface ifacesExist) ([], ∅)
  (events ++ removedInterfaces ifacesExist ifacesNew, ifacesNew)

/-- Modelled from the spec: the missing `networkStart`, which opens a listener on each
non-loopback address it is given and records it, as the adapter loop of `initNetwork` does. -/
def networkStart (os : Interfaces) (binder : PortBinder) (addresses : List IPNet)
    (st : Networks) : Networks :=
  addresses.foldl (listenOnAddress os binder) st

/-- `networkChangeInterfaceNew`. -/
def networkChangeInterfaceNew (os : Interfaces) (binder : PortBinder) (addresses : List IPNet)
    (st : Networks) : Networks :=
  networkStart os binder addresses st

/-- `networkChangeIPNew`. -/
def networkChangeIPNew (os : Interfaces) (binder : PortBinder) (address : IPNet)
    (st : Networks) : Networks :=
  networkStart os binder [address] st

/-- The handler an event calls. -/
def handleEvent (os : Interfaces) (binder : PortBinder) (st : Networks) : MonitorEvent → Networks
  | .interfaceNew _ addresses => networkChangeInterfaceNew os binder addresses st
  | .ipNew _ address => networkChangeIPNew os binder address st
  | .ipRemove _ address => networkChangeIPRemove address st
  | .interfaceRemove iface _ => networkChangeInterfaceRemove iface st

/-- The state of the monitor: the snapshot `ifacesExist` and the listeners. -/
structure Monitor where
  ifacesExist : Snapshot
  networks : Networks

/-- One cycle of `networkChangeMonitor` on what `net.Interfaces` returned: a failure skips the
cycle. -/
def networkChangeMonitorCycle (binder : PortBinder) (os : Interfaces) (m : Monitor) : Monitor :=
  match os with
  | none => m
  | some interfaceList =>
    let (events, ifacesNew) := monitorDiff m.ifacesExist interfaceList
    ⟨ifacesNew, events.foldl (handleEvent os binder) m.networks⟩

/-- `networkChangeMonitor` over the reports of successive cycles; it returns at once when
`config.Listen` is set. -/
def networkChangeMonitor (listen : List (List Char)) (binder : PortBinder)
    (reports : List Interfaces) (m : Monitor) : Monitor :=
  if listen ≠ [] then m else reports.foldl (fun m os => networkChangeMonitorCycle binder os m) m

@[simp] theorem networkChangeMonitorCycle_none (binder : PortBinder) (m : Monitor) :
    networkChangeMonitorCycle binder none m = m := rfl

@[simp] theorem networkChangeMonitorCycle_ifacesExist (binder : PortBinder)
    (interfaceList : List Interface) (m : Monitor) :
    (networkChangeMonitorCycle binder (some interfaceList) m).ifacesExist =
      (monitorDiff m.ifacesExist interfaceList).2 := rfl

@[simp] theorem networkChangeMonitorCycle_networks (binder : PortBinder)
    (interfaceList : List Interface) (m : Monitor) :
    (networkChangeMonitorCycle binder (some interfaceList) m).networks =
      (monitorDiff m.ifacesExist interfaceList).1.foldl (handleEvent (some interfaceList) binder)
        m.networks := rfl

/-! ## The events of the diff -/

/-- Addresses are compared by their text. -/
@[simp] theorem addressListed_eq (addresses : List IPNet) (addr : IPNet) :
    addressListed addresses addr = decide (addr.string ∈ addresses.map IPNet.string) :=
  Bool.eq_iff_iff.mpr (by simp [addressListed])

theorem mem_interfaceEvents {old : Snapshot} {n : List Char} {addresses : List IPNet}
    {e : MonitorEvent} :
    e ∈ interfaceEvents old n addresses ↔
      (old.lookup n = none ∧ e = .interfaceNew n addresses) ∨
      ∃ addressesOld, old.lookup n = some addressesOld ∧
        ((∃ a ∈ addresses, a.string ∉ addressesOld.map IPNet.string ∧ .ipNew n a = e) ∨
          ∃ a ∈ addressesOld, a.string ∉ addresses.map IPNet.string ∧ .ipRemove n a = e) := by
  unfold interfaceEvents
  cases old.lookup n <;> simp [and_assoc]

theorem iface_of_mem_interfaceEvents {old : Snapshot} {n : List Char} {addresses : List IPNet}
    {e : MonitorEvent} (h : e ∈ interfaceEvents old n addresses) : e.iface = n := by
  rcases mem_interfaceEvents.mp h with ⟨-, rfl⟩ | ⟨_, -, ⟨_, -, -, rfl⟩ | ⟨_, -, -, rfl⟩⟩ <;> rfl

theorem nodup_interfaceEvents {old : Snapshot} {n : List Char} {addresses : List IPNet}
    (h : addresses.Nodup) (hold : ∀ addressesOld, old.lookup n = some addressesOld → addressesOld.Nodup) :
    (interfaceEvents old n addresses).Nodup := by
  unfold interfaceEvents
  split
  · exact List.nodup_singleton _
  · rename_i addressesOld hn
    refine List.nodup_append.mpr ⟨(h.filter _).map fun _ _ h => (MonitorEvent.ipNew.inj h).2,
      ((hold _ hn).filter _).map fun _ _ h => (MonitorEvent.ipRemove.inj h).2, ?_⟩
    simp only [List.Disjoint, List.mem_map]
    rintro _ ⟨_, -, rfl⟩ ⟨_, -, ⟨⟩⟩

theorem foldl_scanInterface_events (old : Snapshot) (l : List Interface)
    (acc : List MonitorEvent × Snapshot) :
    (l.foldl (scanInterface old) acc).1 =
      acc.1 ++ l.flatMap fun iface => iface.addrs.elim [] (interfaceEvents old iface.name) := by
  induction l generalizing acc with
  | nil => simp
  | cons iface l ih =>
    rw [List.foldl_cons, ih, List.flatMap_cons]
    cases h : iface.addrs <;> simp [scanInterface, h]

theorem scanInterface_lookup_ne (old : Snapshot) (acc : List MonitorEvent × Snapshot)
    (iface : Interface) {n : List Char} (h : iface.name ≠ n) :
    (scanInterface old acc iface).2.lookup n = acc.2.lookup n := by
  unfold scanInterface
  split
  · rfl
  · exact AList.lookup_insert_ne (Ne.symm h)

/-- With distinct names, an interface enters the new snapshot with what its `Addrs` returned,
and one whose `Addrs` fails does not enter it. -/
theorem foldl_scanInterface_lookup (old : Snapshot) (l : List Interface)
    (hl : (l.map (·.name)).Nodup) (acc : List MonitorEvent × Snapshot) (n : List Char) :
    (l.foldl (scanInterface old) acc).2.lookup n =
      ((l.find? (·.name = n)).bind (·.addrs)).or (acc.2.lookup n) := by
  induction l generalizing acc with
  | nil => rfl
  | cons iface l ih =>
    rw [List.map_cons, List.nodup_cons] at hl
    rw [List.foldl_cons, ih hl.2, List.find?_cons]
    by_cases hn : iface.name = n
    · subst hn
      have hrest : l.find? (·.name = iface.name) = none :=
        List.find?_eq_none.mpr fun i hi h => hl.1 (List.mem_map.mpr ⟨i, hi, by simpa using h⟩)
      cases h : iface.addrs <;> simp [scanInterface, h, hrest, AList.lookup_insert]
    · simp [hn, scanInterface_lookup_ne _ _ _ hn]

/-- An interface whose `Addrs` fails does not enter the new snapshot. -/
theorem foldl_scanInterface_lookup_of_fail (old : Snapshot) (l : List Interface)
    (acc : List MonitorEvent × Snapshot) (n : List Char)
    (hfail : ∀ iface ∈ l, iface.name = n → iface.addrs = none) :
    (l.foldl (scanInterface old) acc).2.lookup n = acc.2.lookup n := by
  induction l generalizing acc with
  | nil => rfl
  | cons iface l ih =>
    rw [List.foldl_cons, ih _ fun i hi => hfail i (List.mem_cons_of_mem _ hi)]
    by_cases hn : iface.name = n
    · simp [scanInterface, hfail iface (List.mem_cons_self _ _) hn]
    · exact scanInterface_lookup_ne _ _ _ hn

theorem mem_removedInterfaces {old new : Snapshot} {e : MonitorEvent} :
    e ∈ removedInterfaces old new ↔
      ∃ n addresses, old.lookup n = some addresses ∧ n ∉ new ∧ e = .interfaceRemove n addresses := by
  simp only [removedInterfaces, List.mem_filterMap]
  constructor
  · rintro ⟨⟨n, addresses⟩, hmem, he⟩
    split at he
    · cases he
    · cases he
      exact ⟨n, addresses, AList.mem_lookup_iff.mpr hmem, ‹_›, rfl⟩
  · rintro ⟨n, addresses, h, hn, rfl⟩
    exact ⟨⟨n, addresses⟩, AList.mem_lookup_iff.mp h, by simp [hn]⟩

theorem nodup_removedInterfaces (old new : Snapshot) : (removedInterfaces old new).Nodup := by
  refine old.nodupKeys.nodup.filterMap fun ⟨n, a⟩ ⟨n', a'⟩ e h h' => ?_
  simp only at h h'
  split at h <;> split at h' <;> cases h <;> cases h'
  rfl

theorem monitorDiff_fst (old : Snapshot) (l : List Interface) :
    (monitorDiff old l).1 =
      (l.flatMap fun iface => iface.addrs.elim [] (interfaceEvents old iface.name)) ++
        removedInterfaces old (monitorDiff old l).2 := by
  simp [monitorDiff, foldl_scanInterface_events]

theorem monitorDiff_snd (old : Snapshot) (l : List Interface) :
    (monitorDiff old l).2 = (l.foldl (scanInterface old) ([], ∅)).2 := rfl

theorem monitorDiff_lookup (old : Snapshot) (l : List Interface) (hl : (l.map (·.name)).Nodup)
    (n : List Char) : (monitorDiff old l).2.lookup n = (l.find? (·.name = n)).bind (·.addrs) := by
  simp [monitorDiff, foldl_scanInterface_lookup old l hl, AList.lookup_empty]

theorem mem_listedEvents {old : Snapshot} {l : List Interface} {e : MonitorEvent} :
    e ∈ l.flatMap (fun iface => iface.addrs.elim [] (interfaceEvents old iface.name)) ↔
      ∃ n addresses, ⟨n, some addresses⟩ ∈ l ∧ e ∈ interfaceEvents old n addresses := by
  simp only [List.mem_flatMap]
  constructor
  · rintro ⟨⟨n, _ | addresses⟩, hi, he⟩
    · cases he
    · exact ⟨n, addresses, hi, he⟩
  · rintro ⟨n, addresses, hi, he⟩
    exact ⟨_, hi, he⟩

theorem mem_monitorDiff_snd {old : Snapshot} {l : List Interface} (hl : (l.map (·.name)).Nodup)
    (hok : ∀ iface ∈ l, iface.addrs.isSome) (n : List Char) :
    n ∈ (monitorDiff old l).2 ↔ n ∈ l.map (·.name) := by
  rw [← AList.lookup_isSome, monitorDiff_lookup old l hl]
  cases h : l.find? (·.name = n) with
  | none =>
    simp only [Option.none_bind, Option.isSome_none, Bool.false_eq_true, false_iff, List.mem_map]
    rintro ⟨i, hi, rfl⟩
    simpa using List.find?_eq_none.mp h i hi
  | some i =>
    have hn : i.name = n := by simpa using List.find?_some h
    simpa [hok i (List.mem_of_find?_eq_some h)] using ⟨i, List.mem_of_find?_eq_some h, hn⟩

/-! ## What a cycle should emit -/

/-- By the words of the spec: the events of a cycle from the snapshot `old` that enumerated
`interfaceList`, every `Addrs` succeeding. Addresses are compared by their text. -/
def expectedEvent (old : Snapshot) (interfaceList : List Interface) : MonitorEvent → Prop
  | .interfaceNew n addresses => ⟨n, some addresses⟩ ∈ interfaceList ∧ old.lookup n = none
  | .ipNew n a => ∃ addresses addressesOld, ⟨n, some addresses⟩ ∈ interfaceList ∧
      old.lookup n = some addressesOld ∧ a ∈ addresses ∧ a.string ∉ addressesOld.map IPNet.string
  | .ipRemove n a => ∃ addresses addressesOld, ⟨n, some addresses⟩ ∈ interfaceList ∧
      old.lookup n = some addressesOld ∧ a ∈ addressesOld ∧ a.string ∉ addresses.map IPNet.string
  | .interfaceRemove n addresses => old.lookup n = some addresses ∧ n ∉ interfaceList.map (·.name)

theorem mem_monitorDiff {old : Snapshot} {l : List Interface} (hl : (l.map (·.name)).Nodup)
    (hok : ∀ iface ∈ l, iface.addrs.isSome) (e : MonitorEvent) :
    e ∈ (monitorDiff old l).1 ↔ expectedEvent old l e := by
  rw [monitorDiff_fst, List.mem_append, mem_listedEvents, mem_removedInterfaces]
  simp only [mem_monitorDiff_snd hl hok, mem_interfaceEvents]
  constructor
  · rintro (⟨n, addresses, hi, ⟨hn, rfl⟩ | ⟨addressesOld, ho, ⟨a, ha, hna, rfl⟩ | ⟨a, ha, hna, rfl⟩⟩⟩ |
      ⟨n, addresses, ho, hn, rfl⟩)
    · exact ⟨hi, hn⟩
    · exact ⟨addresses, addressesOld, hi, ho, ha, hna⟩
    · exact ⟨addresses, addressesOld, hi, ho, ha, hna⟩
    · exact ⟨ho, hn⟩
  · cases e with
    | interfaceNew n addresses => exact fun ⟨hi, hn⟩ => .inl ⟨n, addresses, hi, .inl ⟨hn, rfl⟩⟩
    | ipNew n a =>
      exact fun ⟨addresses, addressesOld, hi, ho, ha, hna⟩ => .inl ⟨n, addresses, hi,
        .inr ⟨addressesOld, ho, .inl ⟨a, ha, hna, rfl⟩⟩⟩
    | ipRemove n a =>
      exact fun ⟨addresses, addressesOld, hi, ho, ha, hna⟩ => .inl ⟨n, addresses, hi,
        .inr ⟨addressesOld, ho, .inr ⟨a, ha, hna, rfl⟩⟩⟩
    | interfaceRemove n addresses => exact fun ⟨ho, hn⟩ => .inr ⟨n, addresses, ho, hn, rfl⟩

theorem iface_of_mem_listedEvents {old : Snapshot} {iface : Interface} {e : MonitorEvent}
    (h : e ∈ iface.addrs.elim [] (interfaceEvents old iface.name)) : e.iface = iface.name := by
  cases hi : iface.addrs <;> rw [hi] at h
  · cases h
  · exact iface_of_mem_interfaceEvents h

theorem nodup_monitorDiff {old : Snapshot} {l : List Interface} (hl : (l.map (·.name)).Nodup)
    (hnew : ∀ iface ∈ l, ∀ addresses ∈ iface.addrs, addresses.Nodup)
    (hold : ∀ n addresses, old.lookup n = some addresses → addresses.Nodup) :
    (monitorDiff old l).1.Nodup := by
  rw [monitorDiff_fst]
  refine List.nodup_append.mpr ⟨List.nodup_flatMap.mpr ⟨?_, ?_⟩, nodup_removedInterfaces _ _, ?_⟩
  · rintro ⟨n, _ | addresses⟩ hi
    · exact List.nodup_nil
    · exact nodup_interfaceEvents (hnew _ hi addresses rfl) (hold n)
  · exact (List.pairwise_map.mp hl).imp fun hne e h h' =>
      hne ((iface_of_mem_listedEvents h).symm.trans (iface_of_mem_listedEvents h'))
  · intro e h h'
    obtain ⟨n, addresses, -, -, rfl⟩ := mem_removedInterfaces.mp h'
    obtain ⟨_, _, -, he⟩ := mem_listedEvents.mp h
    rcases mem_interfaceEvents.mp he with ⟨-, ⟨⟩⟩ | ⟨_, -, ⟨_, -, -, ⟨⟩⟩ | ⟨_, -, -, ⟨⟩⟩⟩

/-! ## Applying the events -/

/-- What an event does to the addresses of its interface. -/
def MonitorEvent.apply : MonitorEvent → Option (List IPNet) → Option (List IPNet)
  | .interfaceNew _ addresses, _ => some addresses
  | .ipNew _ a, addresses => some (addresses.getD [] ++ [a])
  | .ipRemove _ a, addresses => some ((addresses.getD []).erase a)
  | .interfaceRemove _ _, _ => none

/-- A snapshot with an event applied: the entry of the event's interface changes as `apply`
says. -/
def applyEvent (s : Snapshot) (e : MonitorEvent) : Snapshot :=
  match e.apply (s.lookup e.iface) with
  | none => s.erase e.iface
  | some addresses => s.insert e.iface addresses

@[simp] theorem MonitorEvent.apply_ipNew (n : List Char) (a : IPNet) (o : Option (List IPNet)) :
    (MonitorEvent.ipNew n a).apply o = some (o.getD [] ++ [a]) := rfl

@[simp] theorem MonitorEvent.apply_ipRemove (n : List Char) (a : IPNet) (o : Option (List IPNet)) :
    (MonitorEvent.ipRemove n a).apply o = some ((o.getD []).erase a) := rfl

theorem lookup_applyEvent (s : Snapshot) (e : MonitorEvent) (n : List Char) :
    (applyEvent s e).lookup n = if e.iface = n then e.apply (s.lookup n) else s.lookup n := by
  unfold applyEvent
  split_ifs with h
  · subst h
    split <;> simp_all [AList.lookup_erase, AList.lookup_insert]
  · split <;> simp [AList.lookup_erase_ne (Ne.symm h), AList.lookup_insert_ne (Ne.symm h)]

/-- Each entry of a snapshot sees only the events of its own interface. -/
theorem lookup_foldl_applyEvent (events : List MonitorEvent) (s : Snapshot) (n : List Char) :
    (events.foldl applyEvent s).lookup n =
      (events.filter (·.iface = n)).foldl (fun o e => e.apply o) (s.lookup n) := by
  induction events generalizing s with
  | nil => rfl
  | cons e events ih =>
    rw [List.foldl_cons, ih, lookup_applyEvent, List.filter_cons]
    by_cases h : e.iface = n <;> simp [h]

theorem foldl_apply_ipNew (n : List Char) (added addresses : List IPNet) :
    (added.map (MonitorEvent.ipNew n)).foldl (fun o e => e.apply o) (some addresses) =
      some (addresses ++ added) := by
  induction added generalizing addresses with
  | nil => simp
  | cons a added ih => simp [ih]

theorem foldl_apply_ipRemove (n : List Char) (removed addresses : List IPNet) :
    (removed.map (MonitorEvent.ipRemove n)).foldl (fun o e => e.apply o) (some addresses) =
      some (addresses.diff removed) := by
  induction removed generalizing addresses with
  | nil => simp
  | cons a removed ih => simp [ih]

/-- Removals, once there is one, leave no entry. -/
theorem foldl_apply_removals {events : List MonitorEvent}
    (h : ∀ e ∈ events, ∃ n addresses, e = .interfaceRemove n addresses) (hne : events ≠ [])
    (o : Option (List IPNet)) : events.foldl (fun o e => e.apply o) o = none := by
  induction events generalizing o with
  | nil => contradiction
  | cons e events ih =>
    obtain ⟨n, addresses, rfl⟩ := h e (List.mem_cons_self _ _)
    cases events with
    | nil => rfl
    | cons e' events => exact ih (fun e he => h e (List.mem_cons_of_mem _ he)) (List.cons_ne_nil _ _) _

theorem filter_listedEvents (old : Snapshot) (l : List Interface) (hl : (l.map (·.name)).Nodup)
    (n : List Char) :
    (l.flatMap fun iface => iface.addrs.elim [] (interfaceEvents old iface.name)).filter
        (·.iface = n) = ((l.find? (·.name = n)).bind (·.addrs)).elim [] (interfaceEvents old n) := by
  induction l with
  | nil => rfl
  | cons iface l ih =>
    rw [List.map_cons, List.nodup_cons] at hl
    rw [List.flatMap_cons, List.filter_append, ih hl.2, List.find?_cons]
    by_cases hn : iface.name = n
    · subst hn
      have hrest : l.find? (·.name = iface.name) = none :=
        List.find?_eq_none.mpr fun i hi h => hl.1 (List.mem_map.mpr ⟨i, hi, by simpa using h⟩)
      rw [List.filter_eq_self.mpr fun e he => by simpa using iface_of_mem_listedEvents he]
      cases h : iface.addrs <;> simp [h, hrest]
    · rw [List.filter_eq_nil_iff.mpr fun e he => by simpa [iface_of_mem_listedEvents he] using hn]
      simp [hn]

theorem foldl_apply_removedInterfaces (old new : Snapshot) (n : List Char) (o : Option (List IPNet)) :
    ((removedInterfaces old new).filter (·.iface = n)).foldl (fun o e => e.apply o) o =
      if n ∈ new ∨ old.lookup n = none then o else none := by
  have hmem : ∀ e ∈ (removedInterfaces old new).filter (·.iface = n),
      ∃ addresses, old.lookup n = some addresses ∧ n ∉ new ∧ e = .interfaceRemove n addresses := by
    intro e he
    obtain ⟨he, hn⟩ := List.mem_filter.mp he
    obtain ⟨m, addresses, ho, hm, rfl⟩ := mem_removedInterfaces.mp he
    obtain rfl : m = n := by simpa [MonitorEvent.iface] using hn
    exact ⟨addresses, ho, hm, rfl⟩
  split_ifs with h
  · have hnil : (removedInterfaces old new).filter (·.iface = n) = [] :=
      List.eq_nil_iff_forall_not_mem.mpr fun e he => by
        obtain ⟨_, ho, hn, -⟩ := hmem e he
        rcases h with h | h
        · exact hn h
        · simp [h] at ho
    rw [hnil, List.foldl_nil]
  · push_neg at h
    obtain ⟨addresses, ho⟩ := Option.ne_none_iff_exists'.mp h.2
    refine foldl_apply_removals (fun e he => ?_) (List.ne_nil_of_mem (List.mem_filter.mpr
      ⟨mem_removedInterfaces.mpr ⟨n, addresses, ho, h.1, rfl⟩, by simp [MonitorEvent.iface]⟩)) o
    obtain ⟨addresses, -, -, rfl⟩ := hmem e he
    exact ⟨n, addresses, rfl⟩

/-- The addresses two lists with distinct texts have in common, by text. -/
theorem keptTexts_perm {old new : List IPNet} (hold : (old.map IPNet.string).Nodup)
    (hnew : (new.map IPNet.string).Nodup) :
    ((old.filter fun a => decide (a.string ∈ new.map IPNet.string)).map IPNet.string).Perm
      ((new.filter fun a => decide (a.string ∈ old.map IPNet.string)).map IPNet.string) := by
  refine (List.perm_ext_iff_of_nodup (hold.sublist ((List.filter_sublist _).map _))
    (hnew.sublist ((List.filter_sublist _).map _))).mpr fun t => ?_
  simp only [List.mem_map, List.mem_filter, decide_eq_true_eq]
  constructor <;> rintro ⟨a, ⟨ha, b, hb, hab⟩, rfl⟩ <;> exact ⟨b, ⟨hb, a, ha, hab.symm⟩, hab⟩

/-- The addresses an interface keeps, then those it gained, have its new address texts in
another order. -/
theorem diff_filter_perm {old new : List IPNet} (hold : (old.map IPNet.string).Nodup)
    (hnew : (new.map IPNet.string).Nodup) :
    (((old ++ new.filter fun a => !decide (a.string ∈ old.map IPNet.string)).diff
      (old.filter fun a => !decide (a.string ∈ new.map IPNet.string))).map IPNet.string).Perm
      (new.map IPNet.string) := by
  have hdisj : List.Disjoint old (new.filter fun a => !decide (a.string ∈ old.map IPNet.string)) :=
    fun a ha hb => by simp [List.mem_filter] at hb; exact hb.2 a ha rfl
  rw [(List.nodup_append.mpr ⟨hold.of_map _, (hnew.of_map _).filter _, hdisj⟩).diff_eq_filter,
    List.filter_append]
  have hkeep : old.filter (· ∉ old.filter fun a => !decide (a.string ∈ new.map IPNet.string)) =
      old.filter fun a => decide (a.string ∈ new.map IPNet.string) :=
    List.filter_congr fun a ha => by simp [ha]
  have hadd : (new.filter fun a => !decide (a.string ∈ old.map IPNet.string)).filter
      (· ∉ old.filter fun a => !decide (a.string ∈ new.map IPNet.string)) =
      new.filter fun a => !decide (a.string ∈ old.map IPNet.string) :=
    List.filter_eq_self.mpr fun a ha => decide_eq_true fun h => hdisj (List.mem_filter.mp h).1 ha
  rw [hkeep, hadd, List.map_append]
  refine ((keptTexts_perm hold hnew).append_right _).trans ?_
  rw [← List.map_append]
  exact (List.filter_append_perm _ _).map _

/-- Applying the events of a cycle to the old snapshot gives the new one, up to the order and
the text of each interface's addresses. -/
theorem lookup_foldl_monitorDiff {old : Snapshot} {l : List Interface}
    (hl : (l.map (·.name)).Nodup) (hok : ∀ iface ∈ l, iface.addrs.isSome)
    (hnew : ∀ iface ∈ l, ∀ addresses ∈ iface.addrs, (addresses.map IPNet.string).Nodup)
    (hold : ∀ n addresses, old.lookup n = some addresses → (addresses.map IPNet.string).Nodup)
    (n : List Char) :
    Option.Rel (fun a b => (a.map IPNet.string).Perm (b.map IPNet.string))
      (((monitorDiff old l).1.foldl applyEvent old).lookup n)
      ((l.find? (·.name = n)).bind (·.addrs)) := by
  rw [lookup_foldl_applyEvent, monitorDiff_fst, List.filter_append, List.foldl_append,
    filter_listedEvents old l hl, foldl_apply_removedInterfaces]
  simp only [mem_monitorDiff_snd hl hok]
  cases h : l.find? (·.name = n) with
  | none =>
    have hn : n ∉ l.map (·.name) := fun hm => by
      obtain ⟨i, hi, rfl⟩ := List.mem_map.mp hm
      simpa using List.find?_eq_none.mp h i hi
    simp only [Option.none_bind, Option.elim, List.foldl_nil, hn, false_or]
    split_ifs with ho
    · rw [ho]; exact .none
    · exact .none
  | some i =>
    have hi := List.mem_of_find?_eq_some h
    have hn : i.name = n := by simpa using List.find?_some h
    obtain ⟨addresses, ha⟩ := Option.isSome_iff_exists.mp (hok i hi)
    simp only [Option.some_bind, ha, Option.elim, List.mem_map.mpr ⟨i, hi, hn⟩, true_or, if_true]
    unfold interfaceEvents
    cases ho : old.lookup n with
    | none => exact .some (List.Perm.refl _)
    | some addressesOld =>
      simp only [List.foldl_append, foldl_apply_ipNew, foldl_apply_ipRemove, addressListed_eq]
      exact .some (diff_filter_perm (hold n _ ho) (hnew i hi _ ha))

/-- When every enumeration of a cycle succeeds and no address list repeats an address text, the
cycle keeps the enumerated snapshot, and its diff emits every difference the spec names once and
nothing else: applied to the old snapshot, the events give the new one, up to the order and the
text of each interface's addresses. -/
theorem monitorDiff_spec (binder : PortBinder) (old : Snapshot) (st : Networks)
    (interfaceList : List Interface) (hnames : (interfaceList.map (·.name)).Nodup)
    (hok : ∀ iface ∈ interfaceList, iface.addrs.isSome)
    (hnew : ∀ iface ∈ interfaceList, ∀ addresses ∈ iface.addrs, (addresses.map IPNet.string).Nodup)
    (hold : ∀ e ∈ old.entries, (e.2.map IPNet.string).Nodup) :
    (∀ n, (networkChangeMonitorCycle binder (some interfaceList) ⟨old, st⟩).ifacesExist.lookup n =
      (interfaceList.find? (·.name = n)).bind (·.addrs)) ∧
    (monitorDiff old interfaceList).1.Nodup ∧
    (∀ e, e ∈ (monitorDiff old interfaceList).1 ↔ expectedEvent old interfaceList e) ∧
    ∀ n, Option.Rel (fun a b => (a.map IPNet.string).Perm (b.map IPNet.string))
      (((monitorDiff old interfaceList).1.foldl applyEvent old).lookup n)
      ((interfaceList.find? (·.name = n)).bind (·.addrs)) := by
  have hnew' : ∀ iface ∈ interfaceList, ∀ addresses ∈ iface.addrs, addresses.Nodup :=
    fun i hi a ha => (hnew i hi a ha).of_map _
  have hold' : ∀ n addresses, old.lookup n = some addresses → addresses.Nodup :=
    fun n a h => (hold ⟨n, a⟩ (AList.mem_lookup_iff.mp h)).of_map _
  exact ⟨monitorDiff_lookup old interfaceList hnames, nodup_monitorDiff hnames hnew' hold',
    mem_monitorDiff hnames hok, lookup_foldl_monitorDiff hnames hok hnew
      fun n a h => hold ⟨n, a⟩ (AList.mem_lookup_iff.mp h)⟩

/-- A snapshot in which `eth0` lists `10.0.0.5/24`, as `eth0Only` does. -/
def eth0Snapshot : Snapshot := (∅ : Snapshot).insert "eth0".toList [eth0Address]

/-- `eth0` gains `10.0.0.6/24`, and `wlan0` appears with no address. -/
def eth0Grown : List Interface :=
  [⟨"eth0".toList, some [⟨ipv4 10 0 0 6, 24, 4, by decide⟩, eth0Address]⟩, ⟨"wlan0".toList, some []⟩]

theorem monitorDiff_spec_eth0Grown :
    (eth0Grown.map (·.name)).Nodup ∧ (∀ iface ∈ eth0Grown, iface.addrs.isSome) ∧
    (∀ iface ∈ eth0Grown, ∀ addresses ∈ iface.addrs, (addresses.map IPNet.string).Nodup) ∧
    (∀ e ∈ eth0Snapshot.entries, (e.2.map IPNet.string).Nodup) ∧
    (∀ n, (networkChangeMonitorCycle firstFreeBinder (some eth0Grown)
        ⟨eth0Snapshot, Networks.empty⟩).ifacesExist.lookup n =
      (eth0Grown.find? (·.name = n)).bind (·.addrs)) ∧
    (monitorDiff eth0Snapshot eth0Grown).1.Nodup ∧
    (∀ e, e ∈ (monitorDiff eth0Snapshot eth0Grown).1 ↔ expectedEvent eth0Snapshot eth0Grown e) ∧
    ∀ n, Option.Rel (fun a b => (a.map IPNet.string).Perm (b.map IPNet.string))
      (((monitorDiff eth0Snapshot eth0Grown).1.foldl applyEvent eth0Snapshot).lookup n)
      ((eth0Grown.find? (·.name = n)).bind (·.addrs)) :=
  ⟨by decide, by decide, by decide, by decide, monitorDiff_spec firstFreeBinder eth0Snapshot
    Networks.empty eth0Grown (by decide) (by decide) (by decide) (by decide)⟩

/-- `::ffff:10.0.0.5/120`: an IPv4-mapped IP with a 16-byte mask, as an `AF_INET6` entry. -/
def mappedAddress : IPNet := ⟨ipv4 10 0 0 5, 120, 16, by decide⟩

/-- A snapshot in which `eth0` lists `::ffff:10.0.0.5/120`. -/
def mappedSnapshot : Snapshot := (∅ : Snapshot).insert "eth0".toList [mappedAddress]

/-- When `eth0` trades `::ffff:10.0.0.5/120` for `10.0.0.5/24`, the texts agree, so the diff
emits nothing and the old snapshot, with the events applied, still lists the mapped address. -/
theorem mapped_address_change_unseen :
    mappedAddress.string = eth0Address.string ∧ mappedAddress ≠ eth0Address ∧
      (monitorDiff mappedSnapshot [⟨"eth0".toList, some [eth0Address]⟩]).1 = [] ∧
      ((monitorDiff mappedSnapshot [⟨"eth0".toList, some [eth0Address]⟩]).1.foldl applyEvent
        mappedSnapshot).lookup "eth0".toList = some [mappedAddress] ∧
      ¬ [mappedAddress].Perm [eth0Address] := by
  decide

/-! ## An interface whose `Addrs` fails -/

/-- An interface of `ifacesExist` whose `Addrs` fails in a cycle is reported removed, with its
previous addresses, and leaves the snapshot, whatever else the cycle enumerates. -/
theorem addrsFailure_reported_removed (old : Snapshot) (interfaceList : List Interface)
    (n : List Char) (addresses : List IPNet) (hold : old.lookup n = some addresses)
    (hfail : ∀ iface ∈ interfaceList, iface.name = n → iface.addrs = none) :
    .interfaceRemove n addresses ∈ (monitorDiff old interfaceList).1 ∧
      (monitorDiff old interfaceList).2.lookup n = none := by
  have hnew : (monitorDiff old interfaceList).2.lookup n = none := by
    rw [monitorDiff_snd, foldl_scanInterface_lookup_of_fail old interfaceList _ n hfail]
    exact AList.lookup_empty n
  refine ⟨?_, hnew⟩
  rw [monitorDiff_fst]
  exact List.mem_append_right _
    (mem_removedInterfaces.mpr ⟨n, addresses, hold, AList.lookup_eq_none.mp hnew, rfl⟩)

/-- `eth0` listed, its `Addrs` failing. -/
def eth0AddrsFailing : Interfaces := some [⟨"eth0".toList, none⟩]

/-- The monitor after `initNetwork` opened its listener on `eth0`. -/
def eth0Monitor : Monitor := ⟨eth0Snapshot, initNetwork [] eth0Only firstFreeBinder⟩

/-- When `Addrs` fails for `eth0` in a cycle, `eth0` is reported removed, its listener is
terminated, and `eth0` leaves the snapshot; the next cycle, in which `Addrs` succeeds again,
opens a new listener on it. -/
theorem addrsFailure_terminates_listener :
    (monitorDiff eth0Snapshot [⟨"eth0".toList, none⟩]).1 =
        [.interfaceRemove "eth0".toList [eth0Address]] ∧
      (networkChangeMonitorCycle firstFreeBinder eth0AddrsFailing eth0Monitor).networks.registered =
        [] ∧
      (networkChangeMonitorCycle firstFreeBinder eth0AddrsFailing eth0Monitor).networks.terminated =
        [0] ∧
      (networkChangeMonitorCycle firstFreeBinder eth0AddrsFailing eth0Monitor).ifacesExist.lookup
        "eth0".toList = none ∧
      (networkChangeMonitor [] firstFreeBinder [eth0AddrsFailing, eth0Only]
        eth0Monitor).networks.registered.map (·.id) = [1] := by
  decide

end Peernet
