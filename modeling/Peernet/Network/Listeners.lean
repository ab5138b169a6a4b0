-- SUMMARY: The listener lists across monitor cycles: what every reachable state keeps, and when one cycle keeps the listeners in step with the snapshot.
import Peernet.Network.Monitor

/-!
# Listeners across monitor cycles

Every state `initNetwork` and the monitor reach is well formed: each listener sits in the list
of its family and has an id below the counter, as every terminated one does
(`initNetwork_wellFormed`, `networkChangeMonitor_wellFormed`, together
`initNetwork_monitor_wellFormed`). This holds whatever the operating system reports, the
removal loop's splices included, since they only move listeners of the list around.

On the automatic path the self-packet filter recognises every live listener: `initNetwork`
without `config.Listen` records the address of each listener it opens, and so does every
monitor cycle (`initNetwork_monitor_selfRecorded`). Right after `initNetwork` it recognises
nothing else, since the recorded key names its address exactly (`initNetwork_isAddressSelf_iff`).
No handler drops a recorded address, so the address of a terminated listener is still taken
for self.

The listeners are in step with a snapshot when they serve its non-loopback addresses one to
one (`ListenersMatch`). One cycle need not keep that: a prefix change on an address opens a
second listener on its IP before the removal of the old address terminates both
(`prefix_change_terminates_listener`). It does keep it when no address list repeats an address
text, no IP of the enumeration is listed on two interfaces, an address an interface lost has an
IP that no other address of the two snapshots has, no new address is unspecified, no vanishing
interface has two addresses of one family, and every bind succeeds
(`monitorCycle_keeps_listeners`). The listeners are counted per endpoint, not told apart by IP:
an interface may list one IP twice, and an address may move to a renamed interface.
-/

namespace Peernet

open Go net

/-! ## Well-formed listener states -/

/-- A listener state as every run keeps it: the IPv4 list holds IPv4 listeners and the IPv6
list the others, and every listener and every terminated one has an id below the counter. -/
structure Networks.WellFormed (st : Networks) : Prop where
  family4 : ∀ l ∈ st.networks4, isIPv4 l.address.ip = true
  family6 : ∀ l ∈ st.networks6, isIPv4 l.address.ip = false
  id_lt : ∀ l ∈ st.registered, l.id < st.fresh
  terminated_lt : ∀ i ∈ st.terminated, i < st.fresh

theorem Networks.WellFormed.empty : Networks.empty.WellFormed :=
  ⟨nofun, nofun, nofun, nofun⟩

@[simp] theorem addListenAddress_networks4 (addr : UDPAddr) (st : Networks) :
    (addListenAddress addr st).networks4 = st.networks4 := rfl

@[simp] theorem addListenAddress_networks6 (addr : UDPAddr) (st : Networks) :
    (addListenAddress addr st).networks6 = st.networks6 := rfl

@[simp] theorem addListenAddress_terminated (addr : UDPAddr) (st : Networks) :
    (addListenAddress addr st).terminated = st.terminated := rfl

@[simp] theorem addListenAddress_fresh (addr : UDPAddr) (st : Networks) :
    (addListenAddress addr st).fresh = st.fresh := rfl

@[simp] theorem addListenAddress_registered (addr : UDPAddr) (st : Networks) :
    (addListenAddress addr st).registered = st.registered := rfl

theorem Networks.WellFormed.addListenAddress {st : Networks} (h : st.WellFormed) (addr : UDPAddr) :
    (Peernet.addListenAddress addr st).WellFormed :=
  ⟨h.family4, h.family6, h.id_lt, h.terminated_lt⟩

@[simp] theorem Networks.register_terminated (st : Networks) (x : Network) :
    (st.register x).terminated = st.terminated := by
  unfold Networks.register; split <;> rfl

@[simp] theorem Networks.register_fresh (st : Networks) (x : Network) :
    (st.register x).fresh = st.fresh + 1 := by
  unfold Networks.register; split <;> rfl

/-- Registering appends the listener to the list of its family. -/
theorem Networks.register_registered (st : Networks) (x : Network) :
    (st.register x).registered.Perm (st.registered ++ [x]) := by
  unfold Networks.register Networks.registered
  split
  · simpa using (List.perm_append_singleton x st.networks6).symm.append_left st.networks4
  · simp

theorem Networks.WellFormed.register {st : Networks} (h : st.WellFormed) (x : Network)
    (hx : x.id = st.fresh) : (st.register x).WellFormed := by
  have hreg : ∀ l ∈ (st.register x).registered, l ∈ st.registered ∨ l = x := fun l hl => by
    simpa using (Networks.register_registered st x).subset hl
  refine ⟨?_, ?_, fun l hl => ?_, fun i hi => ?_⟩
  · unfold Networks.register
    split <;> rename_i hx4
    · simpa [or_imp, forall_and] using ⟨h.family4, hx4⟩
    · exact h.family4
  · unfold Networks.register
    split <;> rename_i hx4
    · exact h.family6
    · simpa [or_imp, forall_and] using ⟨h.family6, Bool.eq_false_iff.mpr hx4⟩
  · rcases hreg l hl with hl | rfl
    · simpa using Nat.lt_succ_of_lt (h.id_lt l hl)
    · simp [hx]
  · simpa using Nat.lt_succ_of_lt (h.terminated_lt i (by simpa using hi))

/-- What a successful `networkPrepareListen` did: register a listener with the next id. -/
theorem networkPrepareListen_ok {os : Interfaces} {binder : PortBinder} {ipA : List Char}
    {port : Int} {st st' : Networks} {x : Network}
    (h : networkPrepareListen os binder ipA port st = .ok (x, st')) :
    x.id = st.fresh ∧ st' = st.register x := by
  unfold networkPrepareListen at h
  split at h
  · cases h
  · split at h <;> cases h
    exact ⟨rfl, rfl⟩

theorem Networks.WellFormed.listenOnAddress {st : Networks} (h : st.WellFormed) (os : Interfaces)
    (binder : PortBinder) (address : IPNet) :
    (Peernet.listenOnAddress os binder st address).WellFormed := by
  unfold Peernet.listenOnAddress
  split
  · exact h
  · split
    · rename_i hok
      obtain ⟨hx, rfl⟩ := networkPrepareListen_ok hok
      exact (h.register _ hx).addListenAddress _
    · exact h

theorem Networks.WellFormed.listenConfigured {st : Networks} (h : st.WellFormed) (os : Interfaces)
    (binder : PortBinder) (listenA : List Char) :
    (Peernet.listenConfigured os binder st listenA).WellFormed := by
  unfold Peernet.listenConfigured
  split
  · exact h
  · split
    · rename_i hok
      obtain ⟨hx, rfl⟩ := networkPrepareListen_ok hok
      exact h.register _ hx
    · exact h

/-- The removal loop only drops listeners. -/
theorem mem_registered_of_removeNetworks {p : Network → Bool} {st : Networks} {l : Network}
    (hl : l ∈ (removeNetworks p st).registered) : l ∈ st.registered := by
  rcases List.mem_append.mp hl with hl | hl
  · exact List.mem_append_left _ ((removeWhere_subset st.networks4).1 l hl)
  · exact List.mem_append_right _ ((removeWhere_subset st.networks6).1 l hl)

theorem Networks.WellFormed.removeNetworks {st : Networks} (h : st.WellFormed)
    (p : Network → Bool) : (Peernet.removeNetworks p st).WellFormed := by
  obtain ⟨s4, g4⟩ := removeWhere_subset (p := p) st.networks4
  obtain ⟨s6, g6⟩ := removeWhere_subset (p := p) st.networks6
  have hreg : ∀ l, l ∈ st.networks4 ∨ l ∈ st.networks6 → l.id < st.fresh := fun l hl =>
    h.id_lt l (List.mem_append.mpr hl)
  refine ⟨fun l hl => h.family4 l (s4 l hl), fun l hl => h.family6 l (s6 l hl),
    fun l hl => h.id_lt l (mem_registered_of_removeNetworks hl), fun i hi => ?_⟩
  · simp only [Peernet.removeNetworks, List.mem_append, List.mem_map] at hi
    rcases hi with hi | ⟨l, hl | hl, rfl⟩
    · exact h.terminated_lt i hi
    · exact hreg l (.inr (g6 l hl))
    · exact hreg l (.inl (g4 l hl))

/-- A loop of steps that keep a state well formed keeps it well formed. -/
theorem Networks.WellFormed.foldl {β : Type} {f : Networks → β → Networks}
    (hf : ∀ st b, st.WellFormed → (f st b).WellFormed) (bs : List β) {st : Networks}
    (h : st.WellFormed) : (bs.foldl f st).WellFormed := by
  induction bs generalizing st with
  | nil => exact h
  | cons b bs ih => exact ih (hf st b h)

theorem Networks.WellFormed.handleEvent {st : Networks} (h : st.WellFormed) (os : Interfaces)
    (binder : PortBinder) (e : MonitorEvent) : (Peernet.handleEvent os binder st e).WellFormed := by
  have hstart : ∀ addresses, (networkStart os binder addresses st).WellFormed := fun _ =>
    .foldl (fun st a h => h.listenOnAddress os binder a) _ h
  cases e with
  | interfaceNew _ addresses => exact hstart addresses
  | ipNew _ address => exact hstart [address]
  | ipRemove _ address => exact h.removeNetworks _
  | interfaceRemove iface _ => exact h.removeNetworks _

theorem Networks.WellFormed.monitorCycle {m : Monitor} (h : m.networks.WellFormed)
    (binder : PortBinder) (os : Interfaces) :
    (networkChangeMonitorCycle binder os m).networks.WellFormed := by
  cases os with
  | none => exact h
  | some interfaceList =>
    rw [networkChangeMonitorCycle_networks]
    exact .foldl (fun st e h => h.handleEvent _ binder e) _ h

/-- Over any run of the monitor, whatever the operating system reports, the listener state
stays well formed. -/
theorem networkChangeMonitor_wellFormed (listen : List (List Char)) (binder : PortBinder)
    (reports : List Interfaces) (m : Monitor) (h : m.networks.WellFormed) :
    (networkChangeMonitor listen binder reports m).networks.WellFormed := by
  unfold networkChangeMonitor
  split
  · exact h
  · induction reports generalizing m with
    | nil => exact h
    | cons os reports ih => exact ih _ (h.monitorCycle binder os)

/-- `initNetwork` leaves a well-formed listener state. -/
theorem initNetwork_wellFormed (listen : List (List Char)) (os : Interfaces)
    (binder : PortBinder) : (initNetwork listen os binder).WellFormed := by
  unfold initNetwork
  split
  · exact .foldl (fun st b h => h.listenConfigured os binder b) _ .empty
  · split
    · exact .empty
    · refine .foldl (fun st iface h => ?_) _ .empty
      split
      · exact h
      · exact .foldl (fun st a h => h.listenOnAddress _ binder a) _ h

/-- The listener state of a running node stays well formed: `initNetwork` on any configuration,
then the monitor over any reports, from whatever snapshot it starts with. -/
theorem initNetwork_monitor_wellFormed (listen : List (List Char)) (os : Interfaces)
    (binder : PortBinder) (ifacesExist : Snapshot) (reports : List Interfaces) :
    (networkChangeMonitor listen binder reports
      ⟨ifacesExist, initNetwork listen os binder⟩).networks.WellFormed :=
  networkChangeMonitor_wellFormed listen binder reports _ (initNetwork_wellFormed listen os binder)

/-! ## The self-packet filter on the automatic path -/

/-- Every registered listener's address is a recorded listen address. -/
def Networks.SelfRecorded (st : Networks) : Prop :=
  ∀ l ∈ st.registered, isAddressSelf (some l.address) st = true

@[simp] theorem Networks.register_ipsListen (st : Networks) (x : Network) :
    (st.register x).ipsListen = st.ipsListen := by
  unfold Networks.register; split <;> rfl

theorem isAddressSelf_mono {st st' : Networks} (h : st.ipsListen ⊆ st'.ipsListen)
    {a : Option UDPAddr} (ha : isAddressSelf a st = true) : isAddressSelf a st' = true := by
  cases a with
  | none => cases ha
  | some a => simpa [isAddressSelf] using h (by simpa [isAddressSelf] using ha)

theorem ipsListen_subset_addListenAddress (addr : UDPAddr) (st : Networks) :
    st.ipsListen ⊆ (addListenAddress addr st).ipsListen :=
  fun _ hk => List.mem_insert_of_mem hk

/-- `listenOnAddress` drops no recorded address. -/
theorem ipsListen_subset_listenOnAddress (os : Interfaces) (binder : PortBinder) (st : Networks)
    (address : IPNet) : st.ipsListen ⊆ (listenOnAddress os binder st address).ipsListen := by
  unfold listenOnAddress
  split
  · exact List.Subset.refl _
  · split
    · rename_i netw _ hok
      obtain ⟨-, rfl⟩ := networkPrepareListen_ok hok
      simpa using ipsListen_subset_addListenAddress netw.address (st.register netw)
    · exact List.Subset.refl _

/-- `listenOnAddress` records the address of the listener it opens. -/
theorem Networks.SelfRecorded.listenOnAddress {st : Networks} (h : st.SelfRecorded)
    (os : Interfaces) (binder : PortBinder) (address : IPNet) :
    (Peernet.listenOnAddress os binder st address).SelfRecorded := by
  unfold Peernet.listenOnAddress
  split
  · exact h
  · split
    · rename_i netw _ hok
      obtain ⟨-, rfl⟩ := networkPrepareListen_ok hok
      intro l hl
      rw [addListenAddress_registered] at hl
      rcases List.mem_append.mp ((Networks.register_registered st netw).subset hl) with hl | hl
      · exact isAddressSelf_mono
          (by simpa using ipsListen_subset_addListenAddress netw.address (st.register netw)) (h l hl)
      · rw [List.mem_singleton.mp hl]
        simp [isAddressSelf, Peernet.addListenAddress]
    · exact h

theorem Networks.SelfRecorded.removeNetworks {st : Networks} (h : st.SelfRecorded)
    (p : Network → Bool) : (Peernet.removeNetworks p st).SelfRecorded := fun l hl =>
  h l (mem_registered_of_removeNetworks hl)

theorem ipsListen_subset_handleEvent (os : Interfaces) (binder : PortBinder) (st : Networks)
    (e : MonitorEvent) : st.ipsListen ⊆ (handleEvent os binder st e).ipsListen := by
  have hstart : ∀ addresses, st.ipsListen ⊆ (networkStart os binder addresses st).ipsListen :=
    fun addresses => List.foldlRecOn (motive := fun st' => st.ipsListen ⊆ st'.ipsListen) _ _ _
      (List.Subset.refl _) fun st' hst' a _ =>
        hst'.trans (ipsListen_subset_listenOnAddress os binder st' a)
  cases e with
  | interfaceNew _ addresses => exact hstart addresses
  | ipNew _ address => exact hstart [address]
  | ipRemove _ address => exact List.Subset.refl _
  | interfaceRemove iface _ => exact List.Subset.refl _

theorem Networks.SelfRecorded.handleEvent {st : Networks} (h : st.SelfRecorded) (os : Interfaces)
    (binder : PortBinder) (e : MonitorEvent) : (Peernet.handleEvent os binder st e).SelfRecorded := by
  have hstart : ∀ addresses, (networkStart os binder addresses st).SelfRecorded := fun _ =>
    List.foldlRecOn (motive := Networks.SelfRecorded) _ _ _ h fun st' hst' a _ =>
      hst'.listenOnAddress os binder a
  cases e with
  | interfaceNew _ addresses => exact hstart addresses
  | ipNew _ address => exact hstart [address]
  | ipRemove _ address => exact h.removeNetworks _
  | interfaceRemove iface _ => exact h.removeNetworks _

/-- `initNetwork` without `config.Listen` leaves every listener it opened recognised as self. -/
theorem initNetwork_selfRecorded (os : Interfaces) (binder : PortBinder) :
    (initNetwork [] os binder).SelfRecorded := by
  have hempty : Networks.empty.SelfRecorded := nofun
  unfold initNetwork
  split
  · contradiction
  · split
    · exact hempty
    · refine List.foldlRecOn (motive := Networks.SelfRecorded) _ _ _ hempty fun st h iface _ => ?_
      split
      · exact h
      · exact List.foldlRecOn (motive := Networks.SelfRecorded) _ _ _ h fun st' h' a _ =>
          h'.listenOnAddress _ binder a

/-- What the self-packet filter matches on the automatic path: over any run of the monitor from a
state whose listeners are all recognised as self, they stay so, and a recorded address is never
dropped, so every listener registered at the start is still recognised as self at the end,
whether or not it was terminated on the way. -/
theorem networkChangeMonitor_selfRecorded (listen : List (List Char)) (binder : PortBinder)
    (reports : List Interfaces) (m : Monitor) (h : m.networks.SelfRecorded) :
    (networkChangeMonitor listen binder reports m).networks.SelfRecorded ∧
      ∀ l ∈ m.networks.registered,
        isAddressSelf (some l.address) (networkChangeMonitor listen binder reports m).networks =
          true := by
  have hcycle : ∀ (m : Monitor) os, m.networks.SelfRecorded →
      (networkChangeMonitorCycle binder os m).networks.SelfRecorded ∧
        m.networks.ipsListen ⊆ (networkChangeMonitorCycle binder os m).networks.ipsListen := by
    intro m os hm
    cases os with
    | none => exact ⟨hm, List.Subset.refl _⟩
    | some interfaceList =>
      rw [networkChangeMonitorCycle_networks]
      exact ⟨List.foldlRecOn (motive := Networks.SelfRecorded) _ _ _ hm fun st h e _ =>
          h.handleEvent _ binder e,
        List.foldlRecOn (motive := fun st => m.networks.ipsListen ⊆ st.ipsListen) _ _ _
          (List.Subset.refl _) fun st h e _ => h.trans (ipsListen_subset_handleEvent _ binder st e)⟩
  have hrun : (networkChangeMonitor listen binder reports m).networks.SelfRecorded ∧
      m.networks.ipsListen ⊆ (networkChangeMonitor listen binder reports m).networks.ipsListen := by
    unfold networkChangeMonitor
    split
    · exact ⟨h, List.Subset.refl _⟩
    · induction reports generalizing m with
      | nil => exact ⟨h, List.Subset.refl _⟩
      | cons os reports ih =>
        obtain ⟨h1, hs1⟩ := hcycle m os h
        obtain ⟨h2, hs2⟩ := ih _ h1
        exact ⟨h2, hs1.trans hs2⟩
  exact ⟨hrun.1, fun l hl => isAddressSelf_mono hrun.2 (h l hl)⟩

/-- On the automatic path the self-packet filter never misses a listener of a running node:
after `initNetwork` without `config.Listen` and any run of the monitor, every registered
listener, and every listener `initNetwork` opened, is recognised by `IsAddressSelf`. -/
theorem initNetwork_monitor_selfRecorded (os : Interfaces) (binder : PortBinder)
    (ifacesExist : Snapshot) (reports : List Interfaces) :
    (networkChangeMonitor [] binder reports
        ⟨ifacesExist, initNetwork [] os binder⟩).networks.SelfRecorded ∧
      ∀ l ∈ (initNetwork [] os binder).registered, isAddressSelf (some l.address)
        (networkChangeMonitor [] binder reports
          ⟨ifacesExist, initNetwork [] os binder⟩).networks = true :=
  networkChangeMonitor_selfRecorded [] binder reports _ (initNetwork_selfRecorded os binder)

/-- Every address `IsAddressSelf` recognises is the address of a registered listener. -/
def Networks.SelfListening (st : Networks) : Prop :=
  ∀ addr, isAddressSelf (some addr) st = true → ∃ l ∈ st.registered, l.address = addr

/-- `listenOnAddress` records only the address of the listener it registers. -/
theorem Networks.SelfListening.listenOnAddress {st : Networks} (h : st.SelfListening)
    (os : Interfaces) (binder : PortBinder) (address : IPNet) :
    (Peernet.listenOnAddress os binder st address).SelfListening := by
  unfold Peernet.listenOnAddress
  split
  · exact h
  · split
    · rename_i netw _ hok
      obtain ⟨-, rfl⟩ := networkPrepareListen_ok hok
      intro addr ha
      have hreg : ∀ l, l ∈ st.registered ++ [netw] → l ∈ (st.register netw).registered :=
        fun _ => (Networks.register_registered st netw).mem_iff.mpr
      rw [addListenAddress_registered]
      rcases (isAddressSelf_addListenAddress _ _ _).mp ha with rfl | ha
      · exact ⟨netw, hreg _ (List.mem_append_right _ (List.mem_singleton_self _)), rfl⟩
      · obtain ⟨l, hl, rfl⟩ := h addr
          (isAddressSelf_mono (fun k hk => by rwa [Networks.register_ipsListen] at hk) ha)
        exact ⟨l, hreg _ (List.mem_append_left _ hl), rfl⟩
    · exact h

/-- Right after `initNetwork` without `config.Listen` the self-packet filter is exact:
`IsAddressSelf` recognises an address exactly when a registered listener has its IP and port. -/
theorem initNetwork_isAddressSelf_iff (os : Interfaces) (binder : PortBinder) (addr : UDPAddr) :
    isAddressSelf (some addr) (initNetwork [] os binder) = true ↔
      ∃ l ∈ (initNetwork [] os binder).registered, l.address = addr := by
  have hempty : Networks.empty.SelfListening := fun _ h => by
    simp [isAddressSelf, Networks.empty] at h
  have hinit : (initNetwork [] os binder).SelfListening := by
    unfold initNetwork
    split
    · contradiction
    · split
      · exact hempty
      · refine List.foldlRecOn (motive := Networks.SelfListening) _ _ _ hempty
          fun st h iface _ => ?_
        split
        · exact h
        · exact List.foldlRecOn (motive := Networks.SelfListening) _ _ _ h
            fun st h a _ => h.listenOnAddress _ binder a
  exact ⟨hinit addr, fun ⟨l, hl, hla⟩ => hla ▸ initNetwork_selfRecorded os binder l hl⟩

/-! ## Listeners in step with a snapshot -/

/-- Every address a snapshot lists, with its interface. -/
def snapshotPairs (s : Snapshot) : List (List Char × IPNet) :=
  s.entries.flatMap fun e => e.2.map (e.1, ·)

/-- Every address an enumeration lists, with its interface; an interface whose `Addrs` fails
lists none. -/
def interfacePairs (interfaceList : List Interface) : List (List Char × IPNet) :=
  interfaceList.flatMap fun iface => (iface.addrs.getD []).map (iface.name, ·)

/-- The pairs whose address is not a loopback address: those a listener is opened for. -/
def nonLoopback (pairs : List (List Char × IPNet)) : List (List Char × IPNet) :=
  pairs.filter fun p => !p.2.ip.isLoopback

/-- Where the listener for an interface and one of its addresses listens. -/
def pairEndpoint (p : List Char × IPNet) : Option (List Char) × IP := (some p.1, p.2.ip)

/-- Where a listener listens: its interface, none for a wildcard bind, and its IP. -/
def Network.endpoint (l : Network) : Option (List Char) × IP := (l.iface, l.address.ip)

/-- The listeners are in step with the snapshot `s`: they are distinct, none is terminated, and
they serve the non-loopback addresses of `s` one to one, each on its interface and IP. -/
structure ListenersMatch (s : Snapshot) (st : Networks) : Prop where
  ids_nodup : (st.registered.map (·.id)).Nodup
  live : ∀ l ∈ st.registered, l.id ∉ st.terminated
  endpoints : (st.registered.map Network.endpoint).Perm ((nonLoopback (snapshotPairs s)).map pairEndpoint)

instance (s : Snapshot) (st : Networks) : Decidable (ListenersMatch s st) :=
  decidable_of_iff ((st.registered.map (·.id)).Nodup ∧ (∀ l ∈ st.registered, l.id ∉ st.terminated) ∧
      (st.registered.map Network.endpoint).Perm ((nonLoopback (snapshotPairs s)).map pairEndpoint))
    ⟨fun ⟨a, b, c⟩ => ⟨a, b, c⟩, fun ⟨a, b, c⟩ => ⟨a, b, c⟩⟩

instance (st : Networks) : Decidable st.WellFormed :=
  decidable_of_iff ((∀ l ∈ st.networks4, isIPv4 l.address.ip = true) ∧
      (∀ l ∈ st.networks6, isIPv4 l.address.ip = false) ∧ (∀ l ∈ st.registered, l.id < st.fresh) ∧
      ∀ i ∈ st.terminated, i < st.fresh)
    ⟨fun ⟨a, b, c, d⟩ => ⟨a, b, c, d⟩, fun ⟨a, b, c, d⟩ => ⟨a, b, c, d⟩⟩

theorem mem_snapshotPairs {s : Snapshot} {p : List Char × IPNet} :
    p ∈ snapshotPairs s ↔ ∃ addresses, s.lookup p.1 = some addresses ∧ p.2 ∈ addresses := by
  simp only [snapshotPairs, List.mem_flatMap, List.mem_map]
  constructor
  · rintro ⟨⟨n, addresses⟩, he, a, ha, rfl⟩
    exact ⟨addresses, AList.mem_lookup_iff.mpr he, ha⟩
  · rintro ⟨addresses, hl, ha⟩
    exact ⟨⟨p.1, addresses⟩, AList.mem_lookup_iff.mp hl, p.2, ha, rfl⟩

theorem mem_interfacePairs {l : List Interface} {p : List Char × IPNet} :
    p ∈ interfacePairs l ↔ ∃ iface ∈ l, iface.name = p.1 ∧ p.2 ∈ iface.addrs.getD [] := by
  simp only [interfacePairs, List.mem_flatMap, List.mem_map]
  constructor
  · rintro ⟨iface, hi, a, ha, rfl⟩
    exact ⟨iface, hi, rfl, ha⟩
  · rintro ⟨iface, hi, hn, ha⟩
    exact ⟨iface, hi, p.2, ha, by rw [hn]⟩

theorem nodup_pairs {β : Type} (l : List β) (key : β → List Char) (vals : β → List IPNet)
    (hkeys : (l.map key).Nodup) (hvals : ∀ b ∈ l, (vals b).Nodup) :
    (l.flatMap fun b => (vals b).map (key b, ·)).Nodup := by
  refine List.nodup_flatMap.mpr ⟨fun b hb => (hvals b hb).map fun _ _ h => (Prod.mk.inj h).2, ?_⟩
  refine (List.pairwise_map.mp hkeys).imp fun hne p hp hp' => hne ?_
  obtain ⟨_, -, rfl⟩ := List.mem_map.mp hp
  obtain ⟨_, -, h⟩ := List.mem_map.mp hp'
  exact (Prod.mk.inj h).1.symm

theorem nodup_snapshotPairs {s : Snapshot} (h : ∀ e ∈ s.entries, e.2.Nodup) :
    (snapshotPairs s).Nodup :=
  nodup_pairs s.entries (·.1) (·.2) s.nodupKeys h

theorem nodup_interfacePairs {l : List Interface} (hl : (l.map (·.name)).Nodup)
    (h : ∀ iface ∈ l, ∀ addresses ∈ iface.addrs, addresses.Nodup) : (interfacePairs l).Nodup :=
  nodup_pairs l (·.name) (·.addrs.getD []) hl fun i hi => by
    cases ha : i.addrs with
    | none => simp [ha]
    | some addresses => simpa [ha] using h i hi addresses ha

@[simp] theorem nonLoopback_append (P P' : List (List Char × IPNet)) :
    nonLoopback (P ++ P') = nonLoopback P ++ nonLoopback P' := List.filter_append _ _

theorem nonLoopback_perm {P P' : List (List Char × IPNet)} (h : P.Perm P') :
    (nonLoopback P).Perm (nonLoopback P') :=
  h.filter _

theorem mem_nonLoopback {P : List (List Char × IPNet)} {p : List Char × IPNet} :
    p ∈ nonLoopback P ↔ p ∈ P ∧ p.2.ip.isLoopback = false := by
  simp [nonLoopback]

/-! ## One cycle, step by step

The state part-way through a cycle: `R0`, `t0` and `f0` are the listeners, the terminated log and
the counter the cycle started from, and `E` the endpoints the new snapshot asks for. -/

section Cycle

variable (R0 : List Network) (t0 : List Nat) (f0 : Nat) (E : List (Option (List Char) × IP))

/-- The listeners serve the endpoints `Q`; those opened in the cycle serve endpoints of `E`; and
the listeners terminated in the cycle are, once each, those of `R0` that left. -/
structure CycleInv (Q : List (Option (List Char) × IP)) (st : Networks) : Prop where
  wf : st.WellFormed
  ids_nodup : (st.registered.map (·.id)).Nodup
  live : ∀ l ∈ st.registered, l.id ∉ st.terminated
  endpoints : (st.registered.map Network.endpoint).Perm Q
  fresh_ge : f0 ≤ st.fresh
  opened : ∀ l ∈ st.registered, l ∉ R0 → f0 ≤ l.id ∧ l.endpoint ∈ E
  log : ∃ T, st.terminated = t0 ++ T ∧ T.Nodup ∧ ∀ i, i ∈ T ↔ ∃ l ∈ R0, l ∉ st.registered ∧ l.id = i

variable {R0 t0 f0 E}

theorem CycleInv.perm {Q Q' : List (Option (List Char) × IP)} {st : Networks}
    (h : CycleInv R0 t0 f0 E Q st) (hQ : Q.Perm Q') : CycleInv R0 t0 f0 E Q' st :=
  { h with endpoints := h.endpoints.trans hQ }

theorem CycleInv.addListenAddress {Q : List (Option (List Char) × IP)} {st : Networks}
    (h : CycleInv R0 t0 f0 E Q st) (addr : UDPAddr) :
    CycleInv R0 t0 f0 E Q (Peernet.addListenAddress addr st) :=
  ⟨h.wf.addListenAddress addr, h.ids_nodup, h.live, h.endpoints, h.fresh_ge, h.opened, h.log⟩

/-- As many listeners are on endpoints `q` selects as `Q` has such endpoints. -/
theorem CycleInv.length_filter {Q : List (Option (List Char) × IP)} {st : Networks}
    (h : CycleInv R0 t0 f0 E Q st) (q : Option (List Char) × IP → Bool) :
    (st.registered.filter fun l => q l.endpoint).length = (Q.filter q).length := by
  have := (h.endpoints.filter q).length_eq
  rwa [List.filter_map, List.length_map] at this

/-- A list whose elements are all equal has, without repeats, at most one. -/
theorem length_le_one_of_eq {α : Type} {L : List α} (hL : L.Nodup) (h : ∀ x ∈ L, ∀ y ∈ L, x = y) :
    L.length ≤ 1 := by
  match L, hL with
  | [], _ | [_], _ => simp
  | x :: y :: _, hL =>
    have hxy := h x (.head _) y (.tail _ (.head _))
    exact absurd (hxy ▸ List.mem_cons_self y _) (List.nodup_cons.mp hL).1

theorem CycleInv.register {Q : List (Option (List Char) × IP)} {st : Networks}
    (h : CycleInv R0 t0 f0 E Q st) (hR0 : ∀ l ∈ R0, l.id < f0) (x : Network) (hx : x.id = st.fresh)
    (hE : x.endpoint ∈ E) :
    CycleInv R0 t0 f0 E (Q ++ [x.endpoint]) (st.register x) := by
  have hperm := Networks.register_registered st x
  have hmem : ∀ l, l ∈ (st.register x).registered ↔ l ∈ st.registered ∨ l = x := fun l => by
    simpa using hperm.mem_iff
  have hx0 : x ∉ R0 := fun hm => by have := hR0 x hm; have := h.fresh_ge; omega
  have hterm : x.id ∉ st.terminated := fun hi => by have := h.wf.terminated_lt _ hi; omega
  refine ⟨h.wf.register x hx, (hperm.map _).nodup_iff.mpr ?_, fun l hl => ?_,
    (hperm.map _).trans (by simpa using h.endpoints.append_right [x.endpoint]), ?_,
    fun l hl hl0 => ?_, ?_⟩
  · simpa [List.nodup_append] using
      ⟨h.ids_nodup, fun l hl he => by have := h.wf.id_lt l hl; omega⟩
  · rcases (hmem l).mp hl with hl | rfl
    · simpa using h.live l hl
    · simpa using hterm
  · simpa using Nat.le_succ_of_le h.fresh_ge
  · rcases (hmem l).mp hl with hl | rfl
    · exact h.opened l hl hl0
    · exact ⟨hx ▸ h.fresh_ge, hE⟩
  · obtain ⟨T, hT, hnd, hiff⟩ := h.log
    refine ⟨T, by simpa using hT, hnd, fun i => (hiff i).trans ?_⟩
    refine exists_congr fun l => and_congr_right fun hl => and_congr_left fun _ => ?_
    rw [hmem]
    exact ⟨fun h' h'' => h' (h''.resolve_right fun e => hx0 (e ▸ hl)), fun h' h'' => h' (.inl h'')⟩

theorem removeNetworks_registered {p : Network → Bool} {st : Networks}
    (h4 : (st.networks4.filter p).length ≤ 1) (h6 : (st.networks6.filter p).length ≤ 1) :
    (removeNetworks p st).registered = st.registered.filter fun n => !p n := by
  rw [removeNetworks_eq_filter p st h4 h6]
  exact (List.filter_append _ _).symm

theorem removeNetworks_terminated {p : Network → Bool} {st : Networks}
    (h4 : (st.networks4.filter p).length ≤ 1) (h6 : (st.networks6.filter p).length ≤ 1) :
    (removeNetworks p st).terminated =
      st.terminated ++ (st.networks6.filter p ++ st.networks4.filter p).map Network.id := by
  rw [removeNetworks_eq_filter p st h4 h6]

/-- Removing the listeners `p` selects, at most one from each list and none opened in the cycle,
drops their endpoints and logs each of them once. -/
theorem CycleInv.removeNetworks {Q : List (Option (List Char) × IP)} {st : Networks}
    (h : CycleInv R0 t0 f0 E Q st) (hR0 : (R0.map (·.id)).Nodup) (p : Network → Bool)
    (q : Option (List Char) × IP → Bool) (hpq : ∀ l, p l = q l.endpoint)
    (h4 : (st.networks4.filter p).length ≤ 1) (h6 : (st.networks6.filter p).length ≤ 1)
    (hE : ∀ x ∈ E, q x = false) :
    CycleInv R0 t0 f0 E (Q.filter fun x => !q x) (Peernet.removeNetworks p st) := by
  have hreg := removeNetworks_registered h4 h6
  have hgone : (st.networks6.filter p ++ st.networks4.filter p).Perm (st.registered.filter p) := by
    rw [Networks.registered, List.filter_append]; exact List.perm_append_comm
  have hsel : ∀ l ∈ st.registered, p l → l ∈ R0 := fun l hl hp => by
    by_contra hl0
    rw [hpq, hE _ (h.opened l hl hl0).2] at hp
    exact Bool.false_ne_true hp
  have hinj := List.inj_on_of_nodup_map h.ids_nodup
  have hR0inj := List.inj_on_of_nodup_map hR0
  have hmap : (st.registered.filter fun n => !p n).map Network.endpoint =
      (st.registered.map Network.endpoint).filter fun x => !q x := by
    rw [List.filter_map]
    congr 2
    funext l
    simp [hpq]
  refine ⟨h.wf.removeNetworks p, ?_, fun l hl => ?_, ?_, h.fresh_ge, fun l hl hl0 => ?_, ?_⟩
  · rw [hreg]
    exact h.ids_nodup.sublist ((List.filter_sublist _).map _)
  · rw [hreg, List.mem_filter] at hl
    rw [removeNetworks_terminated h4 h6]
    simp only [List.mem_append, List.mem_map, not_or, not_exists, not_and]
    refine ⟨h.live l hl.1, fun l' hl' he => ?_⟩
    have hl' := List.mem_filter.mp (hgone.subset (List.mem_append.mpr hl'))
    rw [hinj hl'.1 hl.1 he] at hl'
    exact absurd hl'.2 (by simpa using hl.2)
  · rw [hreg, hmap]
    exact h.endpoints.filter _
  · rw [hreg, List.mem_filter] at hl
    exact h.opened l hl.1 hl0
  · obtain ⟨T, hT, hnd, hiff⟩ := h.log
    refine ⟨T ++ (st.networks6.filter p ++ st.networks4.filter p).map Network.id,
      by rw [removeNetworks_terminated h4 h6, hT, List.append_assoc], ?_, fun i => ?_⟩
    · refine List.nodup_append.mpr ⟨hnd, (hgone.map _).nodup_iff.mpr
        (h.ids_nodup.sublist ((List.filter_sublist _).map _)), fun i hi hi' => ?_⟩
      obtain ⟨l, hl, hnot, rfl⟩ := (hiff i).mp hi
      obtain ⟨l', hl', he⟩ := List.mem_map.mp ((hgone.map _).subset hi')
      have hl' := List.mem_filter.mp hl'
      exact hnot (hR0inj (hsel l' hl'.1 hl'.2) hl he ▸ hl'.1)
    · rw [hreg, List.mem_append, hiff]
      constructor
      · rintro (⟨l, hl, hnot, rfl⟩ | hi)
        · exact ⟨l, hl, fun h' => hnot (List.mem_filter.mp h').1, rfl⟩
        · obtain ⟨l, hl, rfl⟩ := List.mem_map.mp ((hgone.map _).subset hi)
          have hl := List.mem_filter.mp hl
          exact ⟨l, hsel l hl.1 hl.2, fun h' => by simpa [hl.2] using (List.mem_filter.mp h').2, rfl⟩
      · rintro ⟨l, hl, hnot, rfl⟩
        by_cases hr : l ∈ st.registered
        · have hp : p l := by simpa [hr] using hnot
          exact .inr (List.mem_map_of_mem _ (hgone.symm.subset (List.mem_filter.mpr ⟨hr, hp⟩)))
        · exact .inl ⟨l, hl, hr, rfl⟩

theorem IP.string_ne_wildcard {ip : IP} (h : ip ≠ IPv4zero ∧ ip ≠ IPv6unspecified) :
    ip.string ≠ "0.0.0.0".toList ∧ ip.string ≠ "::".toList := by
  have h4 : parseIP "0.0.0.0".toList = some IPv4zero := by decide
  have h6 : parseIP "::".toList = some IPv6unspecified := by decide
  constructor <;> intro he
  · exact h.1 (Option.some.inj ((parseIP_string ip).symm.trans (he ▸ h4)))
  · exact h.2 (Option.some.inj ((parseIP_string ip).symm.trans (he ▸ h6)))

/-- The listener `listenOnAddress` opens on an address that is neither loopback nor
unspecified, of an interface `FindInterfaceByIP` finds, when the bind succeeds. -/
theorem listenOnAddress_of_open {os : Interfaces} {binder : PortBinder} {st : Networks}
    {a : IPNet} {iface : Interface} {b : IPNet} {port : Nat} (hloop : a.ip.isLoopback = false)
    (hzero : a.ip ≠ IPv4zero ∧ a.ip ≠ IPv6unspecified)
    (hfind : findInterfaceByIP os a.ip = some (iface, b)) (hbind : binder.bind a.ip 0 = .ok port) :
    listenOnAddress os binder st a = Peernet.addListenAddress ⟨a.ip, port⟩
      (st.register ⟨st.fresh, some iface.name, ⟨a.ip, port⟩⟩) := by
  have hw := IP.string_ne_wildcard hzero
  simp only [listenOnAddress, hloop, Bool.false_eq_true, if_false, networkPrepareListen,
    parseIP_string, listenInterface, if_pos hw, hfind, hbind]

theorem CycleInv.listenOnAddress {Q : List (Option (List Char) × IP)} {st : Networks}
    (h : CycleInv R0 t0 f0 E Q st) (hR0 : ∀ l ∈ R0, l.id < f0) {os : Interfaces}
    {binder : PortBinder} (n : List Char) (a : IPNet)
    (hopen : a.ip.isLoopback = false → (a.ip ≠ IPv4zero ∧ a.ip ≠ IPv6unspecified) ∧
      (∃ iface b, findInterfaceByIP os a.ip = some (iface, b) ∧ iface.name = n) ∧
      pairEndpoint (n, a) ∈ E)
    (hbind : ∃ port, binder.bind a.ip 0 = .ok port) :
    CycleInv R0 t0 f0 E (Q ++ (nonLoopback [(n, a)]).map pairEndpoint)
      (Peernet.listenOnAddress os binder st a) := by
  cases hl : a.ip.isLoopback
  · obtain ⟨hzero, ⟨iface, b, hfind, rfl⟩, hE⟩ := hopen hl
    obtain ⟨port, hport⟩ := hbind
    rw [listenOnAddress_of_open hl hzero hfind hport]
    have hserved : (nonLoopback [(iface.name, a)]).map pairEndpoint = [(some iface.name, a.ip)] := by
      simp [nonLoopback, hl, pairEndpoint]
    rw [hserved]
    exact (h.register hR0 ⟨st.fresh, some iface.name, ⟨a.ip, port⟩⟩ rfl hE).addListenAddress _
  · simpa [nonLoopback, hl, Peernet.listenOnAddress] using h

/-- `networkStart` on addresses of the interface `n`: a listener for each one that is not
loopback. -/
theorem CycleInv.networkStart {Q : List (Option (List Char) × IP)} {st : Networks}
    (h : CycleInv R0 t0 f0 E Q st) (hR0 : ∀ l ∈ R0, l.id < f0) {os : Interfaces}
    {binder : PortBinder} (n : List Char) (addresses : List IPNet)
    (hopen : ∀ a ∈ addresses, a.ip.isLoopback = false → (a.ip ≠ IPv4zero ∧ a.ip ≠ IPv6unspecified) ∧
      (∃ iface b, findInterfaceByIP os a.ip = some (iface, b) ∧ iface.name = n) ∧
      pairEndpoint (n, a) ∈ E)
    (hbind : ∀ ip, ∃ port, binder.bind ip 0 = .ok port) :
    CycleInv R0 t0 f0 E (Q ++ (nonLoopback (addresses.map (n, ·))).map pairEndpoint)
      (Peernet.networkStart os binder addresses st) := by
  induction addresses generalizing Q st with
  | nil => simpa [nonLoopback, Peernet.networkStart] using h
  | cons a addresses ih =>
    have hsplit : Q ++ (nonLoopback ((a :: addresses).map (n, ·))).map pairEndpoint =
        Q ++ (nonLoopback [(n, a)]).map pairEndpoint ++
          (nonLoopback (addresses.map (n, ·))).map pairEndpoint := by
      rw [List.map_cons, ← List.singleton_append, nonLoopback_append, List.map_append,
        List.append_assoc]
    rw [hsplit]
    exact ih (h.listenOnAddress hR0 n a (hopen a (.head _)) (hbind _))
      (fun a ha => hopen a (.tail _ ha))

/-- `networkChangeIPRemove` of an address whose IP at most one served endpoint and no listener
opened in the cycle has. -/
theorem CycleInv.ipRemove {Q : List (Option (List Char) × IP)} {st : Networks}
    (h : CycleInv R0 t0 f0 E Q st) (hR0 : (R0.map (·.id)).Nodup) (address : IPNet)
    (hone : (Q.filter fun x => decide (x.2 = address.ip)).length ≤ 1)
    (hE : ∀ x ∈ E, x.2 ≠ address.ip) :
    CycleInv R0 t0 f0 E (Q.filter fun x => !decide (x.2 = address.ip))
      (networkChangeIPRemove address st) := by
  have hall : (st.registered.filter fun l => decide (l.address.ip = address.ip)).length ≤ 1 :=
    (h.length_filter fun x => decide (x.2 = address.ip)).trans_le hone
  have hle : ∀ L : List Network, L.Sublist st.registered →
      (L.filter fun l => decide (l.address.ip = address.ip)).length ≤ 1 := fun L hL =>
    (hL.filter _).length_le.trans hall
  exact h.removeNetworks hR0 _ (fun x => decide (x.2 = address.ip)) (fun _ => rfl)
    (hle _ (List.sublist_append_left _ _)) (hle _ (List.sublist_append_right _ _))
    (fun x hx => by simpa using hE x hx)

/-- `networkChangeInterfaceRemove` of an interface no listener opened in the cycle is on, when
at most one served endpoint of each family is on it. -/
theorem CycleInv.interfaceRemove {Q : List (Option (List Char) × IP)} {st : Networks}
    (h : CycleInv R0 t0 f0 E Q st) (hR0 : (R0.map (·.id)).Nodup) (n : List Char)
    (hone : ∀ b, (Q.filter fun x => decide (x.1 = some n) && (isIPv4 x.2 == b)).length ≤ 1)
    (hE : ∀ x ∈ E, x.1 ≠ some n) :
    CycleInv R0 t0 f0 E (Q.filter fun x => !decide (x.1 = some n))
      (networkChangeInterfaceRemove n st) := by
  have hle : ∀ (L : List Network) (b : Bool), L.Sublist st.registered →
      (∀ l ∈ L, isIPv4 l.address.ip = b) →
      (L.filter fun l => decide (l.iface = some n)).length ≤ 1 := fun L b hL hfam => by
    have hfilter : L.filter (fun l => decide (l.iface = some n)) =
        L.filter fun l => decide (l.iface = some n) && (isIPv4 l.address.ip == b) :=
      List.filter_congr fun l hl => by simp [hfam l hl]
    rw [hfilter]
    exact (hL.filter _).length_le.trans
      ((h.length_filter fun x => decide (x.1 = some n) && (isIPv4 x.2 == b)).trans_le (hone b))
  exact h.removeNetworks hR0 _ (fun x => decide (x.1 = some n)) (fun _ => rfl)
    (hle _ true (List.sublist_append_left _ _) h.wf.family4)
    (hle _ false (List.sublist_append_right _ _) h.wf.family6)
    (fun x hx => by simpa using hE x hx)

/-- `networkChangeIPRemove` over addresses whose IPs at most one served endpoint each and no
listener opened in the cycle has. -/
theorem CycleInv.ipRemoves {Q : List (Option (List Char) × IP)} {st : Networks}
    (h : CycleInv R0 t0 f0 E Q st) (hR0 : (R0.map (·.id)).Nodup) (removed : List IPNet)
    (hone : ∀ r ∈ removed, (Q.filter fun x => decide (x.2 = r.ip)).length ≤ 1)
    (hE : ∀ r ∈ removed, ∀ x ∈ E, x.2 ≠ r.ip) :
    CycleInv R0 t0 f0 E (Q.filter fun x => !decide (x.2 ∈ removed.map (·.ip)))
      (removed.foldl (fun st r => networkChangeIPRemove r st) st) := by
  induction removed generalizing Q st with
  | nil => simpa using h
  | cons r removed ih =>
    have h' := ih (h.ipRemove hR0 r (hone r (.head _)) (hE r (.head _)))
      (fun r' hr => ((List.filter_sublist Q).filter _).length_le.trans (hone r' (.tail _ hr)))
      fun r' hr => hE r' (.tail _ hr)
    rw [List.filter_filter] at h'
    refine h'.perm (.of_eq (List.filter_congr fun x _ => ?_))
    simp [Bool.and_comm]

/-- `networkChangeInterfaceRemove` over interfaces no listener opened in the cycle is on, each
with at most one served endpoint of each family. -/
theorem CycleInv.interfaceRemoves {Q : List (Option (List Char) × IP)} {st : Networks}
    (h : CycleInv R0 t0 f0 E Q st) (hR0 : (R0.map (·.id)).Nodup) (names : List (List Char))
    (hone : ∀ n ∈ names, ∀ b,
      (Q.filter fun x => decide (x.1 = some n) && (isIPv4 x.2 == b)).length ≤ 1)
    (hE : ∀ n ∈ names, ∀ x ∈ E, x.1 ≠ some n) :
    CycleInv R0 t0 f0 E (Q.filter fun x => !decide (x.1 ∈ names.map some))
      (names.foldl (fun st n => networkChangeInterfaceRemove n st) st) := by
  induction names generalizing Q st with
  | nil => simpa using h
  | cons n names ih =>
    have h' := ih (h.interfaceRemove hR0 n (hone n (.head _)) (hE n (.head _)))
      (fun n' hn b => ((List.filter_sublist Q).filter _).length_le.trans (hone n' (.tail _ hn) b))
      fun n' hn => hE n' (.tail _ hn)
    rw [List.filter_filter] at h'
    refine h'.perm (.of_eq (List.filter_congr fun x _ => ?_))
    simp [Bool.and_comm]

end Cycle

/-! ## The assumptions of a cycle -/

/-- What a cycle from the snapshot `old` that enumerated `l` is assumed to satisfy for the
listeners to stay in step with the snapshot. -/
structure CycleHyps (binder : PortBinder) (old : Snapshot) (l : List Interface) : Prop where
  /-- The enumeration names each interface once, and every `Addrs` succeeds. -/
  names : (l.map (·.name)).Nodup
  ok : ∀ iface ∈ l, iface.addrs.isSome
  /-- No address list repeats an address text. -/
  new_nodup : ∀ iface ∈ l, ∀ addresses ∈ iface.addrs, (addresses.map IPNet.string).Nodup
  old_nodup : ∀ e ∈ old.entries, (e.2.map IPNet.string).Nodup
  /-- No non-loopback IP is listed on two interfaces of the enumeration, so `FindInterfaceByIP`
  finds the interface an address is opened for. -/
  one_iface : ∀ p ∈ nonLoopback (interfacePairs l), ∀ q ∈ interfacePairs l, p.2.ip = q.2.ip →
    p.1 = q.1
  /-- An address an interface lost has an IP that no other address of the two snapshots has:
  its removal, which matches listeners by IP, terminates its own listener only. -/
  lost_alone : ∀ i ∈ l, ∀ addresses ∈ i.addrs, ∀ addressesOld ∈ old.lookup i.name,
    ∀ r ∈ addressesOld, r.string ∉ addresses.map IPNet.string → r.ip.isLoopback = false →
    ∀ q ∈ snapshotPairs old ++ interfacePairs l, q.2.ip = r.ip → q = (i.name, r)
  /-- No new non-loopback address is unspecified: `networkPrepareListen` would open it with no
  interface. -/
  specified : ∀ p ∈ nonLoopback (interfacePairs l), p.2.ip ≠ IPv4zero ∧ p.2.ip ≠ IPv6unspecified
  /-- An interface that vanishes has at most one non-loopback address of each family. -/
  gone : ∀ e ∈ old.entries, e.1 ∉ l.map (·.name) →
    (e.2.filter fun a => !a.ip.isLoopback && isIPv4 a.ip).length ≤ 1 ∧
      (e.2.filter fun a => !a.ip.isLoopback && !isIPv4 a.ip).length ≤ 1
  /-- Every bind on an automatic port succeeds. -/
  bind : ∀ ip, ∃ port, binder.bind ip 0 = .ok port

/-- The pairs a cycle serves once it has handled the interfaces `done`: those of the old
snapshot on the other interfaces, and those of `done`. -/
def servedAfter (old : Snapshot) (done : List Interface) : List (List Char × IPNet) :=
  (snapshotPairs old).filter (fun p => p.1 ∉ done.map (·.name)) ++ interfacePairs done

/-- `FindInterfaceByIP` finds the interface that lists an address, when no other lists its IP. -/
theorem findInterfaceByIP_of_mem {l : List Interface} {i : Interface} {addresses : List IPNet}
    {a : IPNet} (hi : i ∈ l) (ha : i.addrs = some addresses) (haa : a ∈ addresses)
    (huniq : ∀ j ∈ l, ∀ b ∈ j.addrs.getD [], b.ip = a.ip → j.name = i.name) :
    ∃ iface b, findInterfaceByIP (some l) a.ip = some (iface, b) ∧ iface.name = i.name := by
  have hsome : (findInterfaceByIP (some l) a.ip).isSome :=
    (findInterfaceByIP_isSome_iff _ _).mpr ⟨_, rfl,
      List.mem_flatMap.mpr ⟨i, hi, by simpa [ha] using List.mem_map_of_mem (·.ip) haa⟩⟩
  obtain ⟨⟨iface, b⟩, hr⟩ := Option.isSome_iff_exists.mp hsome
  obtain ⟨_, bs, hl, hj, hbs, hb, hbip⟩ := findInterfaceByIP_eq_some hr
  cases hl
  exact ⟨iface, b, hr, huniq iface hj b (by simpa [hbs] using hb) hbip⟩

/-- The served endpoints `f` selects are those of the pairs whose endpoint it selects. -/
theorem filter_endpoints (P : List (List Char × IPNet)) (f : Option (List Char) × IP → Bool) :
    ((nonLoopback P).map pairEndpoint).filter f =
      (nonLoopback (P.filter fun p => f (pairEndpoint p))).map pairEndpoint := by
  unfold nonLoopback
  rw [List.filter_map, List.filter_filter, List.filter_filter]
  exact congrArg _ (List.filter_congr fun p _ => Bool.and_comm _ _)

/-- Two filters that agree on the non-loopback pairs leave the same non-loopback pairs. -/
theorem nonLoopback_filter_congr {P : List (List Char × IPNet)} {g g' : List Char × IPNet → Bool}
    (h : ∀ p ∈ P, p.2.ip.isLoopback = false → g p = g' p) :
    nonLoopback (P.filter g) = nonLoopback (P.filter g') := by
  unfold nonLoopback
  rw [List.filter_filter, List.filter_filter]
  exact List.filter_congr fun p hp => by cases hl : p.2.ip.isLoopback <;> simp [hl, h p hp]

theorem nonLoopback_filter_of_forall {P : List (List Char × IPNet)} {g : List Char × IPNet → Bool}
    (h : ∀ p ∈ P, p.2.ip.isLoopback = false → g p = true) :
    nonLoopback (P.filter g) = nonLoopback P :=
  (@nonLoopback_filter_congr P g (fun _ => true) h).trans (congrArg _ (List.filter_true _))

/-- The endpoints of addresses of one interface are that interface and their IPs. -/
theorem endpoints_map_pair (n : List Char) (K : List IPNet) :
    (nonLoopback (K.map (n, ·))).map pairEndpoint =
      ((K.map (·.ip)).filter fun ip => !ip.isLoopback).map (some n, ·) := by
  simp only [nonLoopback, List.filter_map, List.map_map]
  rfl

section Assumptions

variable {binder : PortBinder} {old : Snapshot} {l : List Interface}

theorem CycleHyps.addrs_nodup (hc : CycleHyps binder old l) :
    ∀ iface ∈ l, ∀ addresses ∈ iface.addrs, addresses.Nodup := fun i hi _ ha =>
  (hc.new_nodup i hi _ ha).of_map _

theorem CycleHyps.entries_nodup (hc : CycleHyps binder old l) : ∀ e ∈ old.entries, e.2.Nodup :=
  fun e he => (hc.old_nodup e he).of_map _

theorem CycleHyps.mem_pairs (hc : CycleHyps binder old l) {i : Interface} (hi : i ∈ l)
    {addresses : List IPNet} (ha : i.addrs = some addresses) (a : IPNet) :
    (i.name, a) ∈ interfacePairs l ↔ a ∈ addresses := by
  rw [mem_interfacePairs]
  constructor
  · rintro ⟨j, hj, hn, haj⟩
    rw [List.inj_on_of_nodup_map hc.names hj hi hn] at haj
    simpa [ha] using haj
  · exact fun haa => ⟨i, hi, rfl, by simpa [ha] using haa⟩

theorem mem_servedAfter {done : List Interface} {p : List Char × IPNet} :
    p ∈ servedAfter old done ↔
      (p ∈ snapshotPairs old ∧ p.1 ∉ done.map (·.name)) ∨ p ∈ interfacePairs done := by
  simp [servedAfter, List.mem_filter]

theorem servedAfter_sub {done : List Interface} (hdone : ∀ j ∈ done, j ∈ l) :
    ∀ p ∈ servedAfter old done, p ∈ snapshotPairs old ++ interfacePairs l := fun p hp => by
  rcases mem_servedAfter.mp hp with hp | hp
  · exact List.mem_append_left _ hp.1
  · obtain ⟨j, hj, hn, ha⟩ := mem_interfacePairs.mp hp
    exact List.mem_append_right _ (mem_interfacePairs.mpr ⟨j, hdone j hj, hn, ha⟩)

theorem CycleHyps.servedAfter_nodup (hc : CycleHyps binder old l) {done : List Interface}
    (hdn : (done.map (·.name)).Nodup) (hdone : ∀ j ∈ done, j ∈ l) :
    (servedAfter old done).Nodup := by
  refine List.nodup_append.mpr ⟨(nodup_snapshotPairs hc.entries_nodup).filter _,
    nodup_interfacePairs hdn fun j hj => hc.addrs_nodup j (hdone j hj), fun p hp hp' => ?_⟩
  obtain ⟨j, hj, hn, -⟩ := mem_interfacePairs.mp hp'
  exact (by simpa using (List.mem_filter.mp hp).2 : p.1 ∉ done.map (·.name))
    (List.mem_map.mpr ⟨j, hj, hn⟩)

theorem interfacePairs_append (l l' : List Interface) :
    interfacePairs (l ++ l') = interfacePairs l ++ interfacePairs l' := List.flatMap_append _ _ _

theorem interfacePairs_singleton {i : Interface} {addresses : List IPNet}
    (ha : i.addrs = some addresses) : interfacePairs [i] = addresses.map (i.name, ·) := by
  simp [interfacePairs, ha]

theorem foldl_handleEvent_ipNew (os : Interfaces) (binder : PortBinder) (n : List Char)
    (added : List IPNet) (st : Networks) :
    (added.map (MonitorEvent.ipNew n)).foldl (handleEvent os binder) st =
      networkStart os binder added st := by
  induction added generalizing st with
  | nil => rfl
  | cons a added ih => exact ih _

theorem mem_snapshotPairs_of_lookup {n : List Char} {as : List IPNet}
    (ho : old.lookup n = some as) (a : IPNet) : (n, a) ∈ snapshotPairs old ↔ a ∈ as := by
  simp [mem_snapshotPairs, ho]

theorem not_mem_interfacePairs {done : List Interface} {n : List Char}
    (hn : n ∉ done.map (·.name)) (a : IPNet) : (n, a) ∉ interfacePairs done := fun hm => by
  obtain ⟨j, hj, hjn, -⟩ := mem_interfacePairs.mp hm
  exact hn (List.mem_map.mpr ⟨j, hj, hjn⟩)

/-- Each non-loopback address the enumeration lists on `i` can be opened on `i`. -/
theorem CycleHyps.opens (hc : CycleHyps binder old l) {i : Interface} (hi : i ∈ l)
    {addresses : List IPNet} (ha : i.addrs = some addresses) :
    ∀ a ∈ addresses, a.ip.isLoopback = false →
      (a.ip ≠ IPv4zero ∧ a.ip ≠ IPv6unspecified) ∧
      (∃ iface b, findInterfaceByIP (some l) a.ip = some (iface, b) ∧ iface.name = i.name) ∧
      pairEndpoint (i.name, a) ∈ (nonLoopback (interfacePairs l)).map pairEndpoint := by
  intro a haa hloop
  have hmem : (i.name, a) ∈ nonLoopback (interfacePairs l) :=
    mem_nonLoopback.mpr ⟨(hc.mem_pairs hi ha a).mpr haa, hloop⟩
  refine ⟨hc.specified _ hmem, findInterfaceByIP_of_mem hi ha haa fun j hj b hb he => ?_,
    List.mem_map_of_mem _ hmem⟩
  exact (hc.one_iface _ hmem (j.name, b) (mem_interfacePairs.mpr ⟨j, hj, rfl, hb⟩) he.symm).symm

/-- Handling a new interface adds its addresses to what is served. -/
theorem servedAfter_append_new {done : List Interface} {i : Interface} {addresses : List IPNet}
    (ho : old.lookup i.name = none) (ha : i.addrs = some addresses) :
    servedAfter old (done ++ [i]) = servedAfter old done ++ addresses.map (i.name, ·) := by
  have hkeep : (snapshotPairs old).filter (fun p => p.1 ∉ (done ++ [i]).map (·.name)) =
      (snapshotPairs old).filter (fun p => p.1 ∉ done.map (·.name)) :=
    List.filter_congr fun p hp => by
      have hne : p.1 ≠ i.name := fun he => by
        obtain ⟨_, hl', -⟩ := mem_snapshotPairs.mp hp
        rw [he, ho] at hl'
        cases hl'
      simp [hne]
  rw [servedAfter, hkeep, interfacePairs_append, interfacePairs_singleton ha, servedAfter,
    List.append_assoc]

/-- Before a known interface is handled, what is served is what the other interfaces serve and
its old addresses. -/
theorem servedAfter_perm_known {done : List Interface} {i : Interface} {addressesOld : List IPNet}
    (hnd : (snapshotPairs old).Nodup) (hO : addressesOld.Nodup)
    (ho : old.lookup i.name = some addressesOld) (hnot : i.name ∉ done.map (·.name)) :
    (servedAfter old done).Perm
      ((snapshotPairs old).filter (fun p => p.1 ∉ (done ++ [i]).map (·.name)) ++
        addressesOld.map (i.name, ·) ++ interfacePairs done) := by
  refine List.Perm.append_right _ ((List.perm_ext_iff_of_nodup (hnd.filter _)
    (List.nodup_append.mpr ⟨hnd.filter _, hO.map fun _ _ h => (Prod.mk.inj h).2,
      fun p hp hp' => ?_⟩)).mpr fun p => ?_)
  · obtain ⟨a, -, rfl⟩ := List.mem_map.mp hp'
    simp [List.mem_filter] at hp
  · obtain ⟨n, a⟩ := p
    by_cases hn : n = i.name
    · subst hn
      simp only [List.mem_filter, mem_snapshotPairs_of_lookup ho]
      simp
      exact fun _ x hx he => hnot (List.mem_map.mpr ⟨x, hx, he⟩)
    · simp [List.mem_filter, hn, Ne.symm hn]

/-- A non-loopback pair of the two snapshots on the IP of an address `i` lost is that address. -/
theorem CycleHyps.eq_of_lost (hc : CycleHyps binder old l) {i : Interface} (hi : i ∈ l)
    {addresses addressesOld : List IPNet} (ha : i.addrs = some addresses)
    (ho : old.lookup i.name = some addressesOld) {r : IPNet} (hr : r ∈ addressesOld)
    (hrn : r.string ∉ addresses.map IPNet.string) {p : List Char × IPNet}
    (hp : p ∈ snapshotPairs old ++ interfacePairs l) (hpl : p.2.ip.isLoopback = false)
    (he : p.2.ip = r.ip) : p = (i.name, r) :=
  hc.lost_alone i hi addresses ha addressesOld ho r hr hrn (he ▸ hpl) p hp he

/-- The pairs a cycle serves once `i`'s new addresses are opened are pairs of the two
snapshots. -/
theorem CycleHyps.servedAfter_added_sub (hc : CycleHyps binder old l) {done : List Interface}
    (hdone : ∀ j ∈ done, j ∈ l) {i : Interface} (hi : i ∈ l) {addresses added : List IPNet}
    (ha : i.addrs = some addresses) (hadded : ∀ a ∈ added, a ∈ addresses) :
    ∀ p ∈ servedAfter old done ++ added.map (i.name, ·),
      p ∈ snapshotPairs old ++ interfacePairs l := by
  intro p hp
  rcases List.mem_append.mp hp with hp | hp
  · exact servedAfter_sub hdone p hp
  · obtain ⟨a, ha', rfl⟩ := List.mem_map.mp hp
    exact List.mem_append_right _ ((hc.mem_pairs hi ha a).mpr (hadded a ha'))

/-- Once a known interface `i` has opened its new addresses and removed its lost ones by IP, the
cycle serves what the other interfaces serve and what `i` now lists: a kept address keeps its
listener, whose endpoint its new text names. -/
theorem CycleHyps.removeLost_perm (hc : CycleHyps binder old l) {done : List Interface}
    (hdone : ∀ j ∈ done, j ∈ l) {i : Interface} (hi : i ∈ l) (hnot : i.name ∉ done.map (·.name))
    {addresses addressesOld added removed : List IPNet} (ha : i.addrs = some addresses)
    (ho : old.lookup i.name = some addressesOld)
    (hadded : added = addresses.filter fun a => !decide (a.string ∈ addressesOld.map IPNet.string))
    (hremoved : removed =
      addressesOld.filter fun a => !decide (a.string ∈ addresses.map IPNet.string)) :
    (((nonLoopback (servedAfter old done ++ added.map (i.name, ·))).map pairEndpoint).filter
      fun x => !decide (x.2 ∈ removed.map (·.ip))).Perm
      ((nonLoopback (servedAfter old (done ++ [i]))).map pairEndpoint) := by
  have hmemA : ∀ a, a ∈ added ↔ a ∈ addresses ∧ a.string ∉ addressesOld.map IPNet.string := by
    simp [hadded]
  have hmemR : ∀ r, r ∈ removed ↔ r ∈ addressesOld ∧ r.string ∉ addresses.map IPNet.string := by
    simp [hremoved]
  have hold := mem_snapshotPairs_of_lookup ho
  have hO := hc.old_nodup _ (AList.mem_lookup_iff.mp ho)
  have hsub := hc.servedAfter_added_sub hdone hi ha fun a h => ((hmemA a).mp h).1
  -- a pair that is no lost address keeps its endpoint
  have hkeep : ∀ p ∈ snapshotPairs old ++ interfacePairs l, p.2.ip.isLoopback = false →
      (∀ r ∈ removed, p ≠ (i.name, r)) →
      (!decide ((pairEndpoint p).2 ∈ removed.map (·.ip))) = true := fun p hp hpl hne => by
    simp only [Bool.not_eq_true', decide_eq_false_iff_not, List.mem_map, not_exists, not_and]
    exact fun r hr he => hne r hr
      (hc.eq_of_lost hi ha ho ((hmemR r).mp hr).1 ((hmemR r).mp hr).2 hp hpl he.symm)
  obtain ⟨F, hF⟩ : ∃ x, x = (snapshotPairs old).filter
      fun p => p.1 ∉ (done ++ [i]).map (·.name) := ⟨_, rfl⟩
  have hP := servedAfter_perm_known (nodup_snapshotPairs hc.entries_nodup) (hO.of_map _) ho hnot
  rw [← hF] at hP
  have hkF : nonLoopback (F.filter fun p => !decide ((pairEndpoint p).2 ∈ removed.map (·.ip))) =
      nonLoopback F := nonLoopback_filter_of_forall fun p hp hpl => by
    rw [hF, List.mem_filter] at hp
    refine hkeep p (List.mem_append_left _ hp.1) hpl fun r _ he => ?_
    simp [he] at hp
  have hkB : nonLoopback ((interfacePairs done).filter
      fun p => !decide ((pairEndpoint p).2 ∈ removed.map (·.ip))) =
      nonLoopback (interfacePairs done) := nonLoopback_filter_of_forall fun p hp hpl =>
    hkeep p (servedAfter_sub hdone p (List.mem_append_right _ hp)) hpl fun r _ he =>
      not_mem_interfacePairs hnot r (he ▸ hp)
  have hkA : nonLoopback ((added.map (i.name, ·)).filter
      fun p => !decide ((pairEndpoint p).2 ∈ removed.map (·.ip))) =
      nonLoopback (added.map (i.name, ·)) := nonLoopback_filter_of_forall fun p hp hpl => by
    refine hkeep p (hsub p (List.mem_append_right _ hp)) hpl fun r hr he => ?_
    obtain ⟨a, haa, rfl⟩ := List.mem_map.mp hp
    obtain rfl : a = r := (Prod.mk.inj he).2
    exact ((hmemA a).mp haa).2 (List.mem_map_of_mem _ ((hmemR a).mp hr).1)
  have hkO : nonLoopback ((addressesOld.map (i.name, ·)).filter
      fun p => !decide ((pairEndpoint p).2 ∈ removed.map (·.ip))) =
      nonLoopback ((addressesOld.filter fun a =>
        decide (a.string ∈ addresses.map IPNet.string)).map (i.name, ·)) := by
    rw [show (addressesOld.filter fun a => decide (a.string ∈ addresses.map IPNet.string)).map
      (i.name, ·) = (addressesOld.map (i.name, ·)).filter
        fun p => decide (p.2.string ∈ addresses.map IPNet.string) by rw [List.filter_map]; rfl]
    refine nonLoopback_filter_congr fun p hp hpl => ?_
    obtain ⟨o, ho', rfl⟩ := List.mem_map.mp hp
    by_cases hk : o.string ∈ addresses.map IPNet.string
    · rw [decide_eq_true hk]
      refine hkeep _ (List.mem_append_left _ ((hold o).mpr ho')) hpl fun r hr he => ?_
      obtain rfl : o = r := (Prod.mk.inj he).2
      exact ((hmemR o).mp hr).2 hk
    · simpa [hk] using ⟨o, (hmemR o).mpr ⟨ho', hk⟩, rfl⟩
  -- the kept addresses have the same IPs in both lists
  have hkept : ((nonLoopback ((addressesOld.filter fun a =>
        decide (a.string ∈ addresses.map IPNet.string)).map (i.name, ·))).map pairEndpoint).Perm
      ((nonLoopback ((addresses.filter fun a =>
        decide (a.string ∈ addressesOld.map IPNet.string)).map (i.name, ·))).map pairEndpoint) := by
    rw [endpoints_map_pair, endpoints_map_pair]
    exact ((IPNet.perm_map_ip (keptTexts_perm hO (hc.new_nodup i hi _ ha))).filter _).map _
  have hA : ((nonLoopback (addresses.map (i.name, ·))).map pairEndpoint).Perm
      ((nonLoopback ((addresses.filter fun a =>
        decide (a.string ∈ addressesOld.map IPNet.string)).map (i.name, ·))).map pairEndpoint ++
        (nonLoopback (added.map (i.name, ·))).map pairEndpoint) := by
    rw [← List.map_append, ← nonLoopback_append, ← List.map_append, hadded]
    exact ((((List.filter_append_perm _ addresses).map _).filter _).map _).symm
  rw [filter_endpoints]
  refine ((nonLoopback_perm ((hP.append_right (added.map (i.name, ·))).filter _)).map _).trans ?_
  rw [List.filter_append, List.filter_append, List.filter_append, nonLoopback_append,
    nonLoopback_append, nonLoopback_append, hkF, hkO, hkB, hkA, servedAfter,
    interfacePairs_append, interfacePairs_singleton ha, ← hF, nonLoopback_append,
    nonLoopback_append]
  simp only [List.map_append, List.append_assoc]
  exact List.Perm.append_left _ ((List.perm_append_comm_assoc _ _ _).trans
    (List.Perm.append_left _ ((hkept.append_right _).trans hA.symm)))

/-- Handling one listed interface moves its served pairs from the old addresses to the new
ones. -/
theorem CycleInv.scanInterface {R0 : List Network} {t0 : List Nat} {f0 : Nat}
    (hc : CycleHyps binder old l) (hR0 : ∀ x ∈ R0, x.id < f0) (hR0nd : (R0.map (·.id)).Nodup)
    {done rest : List Interface} {i : Interface} (hl : done ++ i :: rest = l)
    {addresses : List IPNet} (ha : i.addrs = some addresses) {st : Networks}
    (h : CycleInv R0 t0 f0 ((nonLoopback (interfacePairs l)).map pairEndpoint)
      ((nonLoopback (servedAfter old done)).map pairEndpoint) st) :
    CycleInv R0 t0 f0 ((nonLoopback (interfacePairs l)).map pairEndpoint)
      ((nonLoopback (servedAfter old (done ++ [i]))).map pairEndpoint)
      ((interfaceEvents old i.name addresses).foldl (handleEvent (some l) binder) st) := by
  have hpre : (done ++ [i]).Sublist l := hl ▸ by simp
  have hi : i ∈ l := hpre.subset (List.mem_append_right _ (List.mem_singleton_self i))
  have hdone : ∀ j ∈ done, j ∈ l := fun j hj => hpre.subset (List.mem_append_left _ hj)
  have hdn : ((done ++ [i]).map (·.name)).Nodup := hc.names.sublist (hpre.map _)
  have hnot : i.name ∉ done.map (·.name) := fun hm =>
    (List.nodup_append.mp (by simpa using hdn : (done.map (·.name) ++ [i.name]).Nodup)).2.2 hm
      (List.mem_singleton_self _)
  unfold interfaceEvents
  cases ho : old.lookup i.name with
  | none =>
    rw [servedAfter_append_new ho ha, nonLoopback_append, List.map_append]
    exact h.networkStart hR0 i.name addresses (hc.opens hi ha) hc.bind
  | some addressesOld =>
    simp only [addressListed_eq, List.foldl_append, foldl_handleEvent_ipNew, List.foldl_map]
    obtain ⟨added, hadded⟩ : ∃ x, x = addresses.filter fun a =>
        !decide (a.string ∈ addressesOld.map IPNet.string) := ⟨_, rfl⟩
    obtain ⟨removed, hremoved⟩ : ∃ x, x = addressesOld.filter fun a =>
        !decide (a.string ∈ addresses.map IPNet.string) := ⟨_, rfl⟩
    rw [← hadded, ← hremoved]
    have hmemA : ∀ a, a ∈ added ↔ a ∈ addresses ∧ a.string ∉ addressesOld.map IPNet.string := by
      simp [hadded]
    have hmemR : ∀ r, r ∈ removed ↔ r ∈ addressesOld ∧ r.string ∉ addresses.map IPNet.string := by
      simp [hremoved]
    have hsub := hc.servedAfter_added_sub hdone hi ha fun a h => ((hmemA a).mp h).1
    have hnd : (servedAfter old done ++ added.map (i.name, ·)).Nodup := by
      refine List.nodup_append.mpr ⟨hc.servedAfter_nodup
        (hdn.sublist ((List.sublist_append_left _ _).map _)) hdone,
        (hadded ▸ (hc.addrs_nodup i hi _ ha).filter _).map fun _ _ h => (Prod.mk.inj h).2,
        fun p hp hp' => ?_⟩
      obtain ⟨a, ha', rfl⟩ := List.mem_map.mp hp'
      rcases mem_servedAfter.mp hp with ⟨hp, -⟩ | hp
      · exact ((hmemA a).mp ha').2
          (List.mem_map_of_mem _ ((mem_snapshotPairs_of_lookup ho a).mp hp))
      · exact not_mem_interfacePairs hnot a hp
    -- the new addresses of `i` open listeners
    have h1 := h.networkStart hR0 i.name added
      (fun a haa => hc.opens hi ha a ((hmemA a).mp haa).1) hc.bind
    rw [← List.map_append, ← nonLoopback_append] at h1
    -- each lost address then terminates the one listener on its IP
    have hone : ∀ r ∈ removed, (((nonLoopback (servedAfter old done ++ added.map (i.name, ·))).map
        pairEndpoint).filter fun x => decide (x.2 = r.ip)).length ≤ 1 := fun r hr => by
      rw [filter_endpoints, List.length_map]
      have key : ∀ z ∈ nonLoopback ((servedAfter old done ++ added.map (i.name, ·)).filter
          fun p => decide ((pairEndpoint p).2 = r.ip)), z = (i.name, r) := fun z hz => by
        obtain ⟨hz, hzl⟩ := mem_nonLoopback.mp hz
        obtain ⟨hz, hze⟩ := List.mem_filter.mp hz
        exact hc.eq_of_lost hi ha ho ((hmemR r).mp hr).1 ((hmemR r).mp hr).2 (hsub z hz) hzl
          (of_decide_eq_true hze)
      exact length_le_one_of_eq ((hnd.filter _).filter _) fun x hx y hy =>
        (key x hx).trans (key y hy).symm
    have hE : ∀ r ∈ removed, ∀ x ∈ (nonLoopback (interfacePairs l)).map pairEndpoint,
        x.2 ≠ r.ip := by
      intro r hr x hx hxe
      obtain ⟨q, hq, rfl⟩ := List.mem_map.mp hx
      obtain ⟨hq, hql⟩ := mem_nonLoopback.mp hq
      obtain rfl := hc.eq_of_lost hi ha ho ((hmemR r).mp hr).1 ((hmemR r).mp hr).2
        (List.mem_append_right _ hq) hql hxe
      exact ((hmemR r).mp hr).2 (List.mem_map_of_mem _ ((hc.mem_pairs hi ha r).mp hq))
    exact (h1.ipRemoves hR0nd removed hone hE).perm
      (hc.removeLost_perm hdone hi hnot ha ho hadded hremoved)

/-- The listed interfaces, handled one after the other. -/
theorem CycleInv.scanInterfaces {R0 : List Network} {t0 : List Nat} {f0 : Nat}
    (hc : CycleHyps binder old l) (hR0 : ∀ x ∈ R0, x.id < f0) (hR0nd : (R0.map (·.id)).Nodup)
    (done rest : List Interface) (hl : done ++ rest = l) {st : Networks}
    (h : CycleInv R0 t0 f0 ((nonLoopback (interfacePairs l)).map pairEndpoint)
      ((nonLoopback (servedAfter old done)).map pairEndpoint) st) :
    CycleInv R0 t0 f0 ((nonLoopback (interfacePairs l)).map pairEndpoint)
      ((nonLoopback (servedAfter old l)).map pairEndpoint)
      (rest.foldl (fun st iface => (iface.addrs.elim [] (interfaceEvents old iface.name)).foldl
        (handleEvent (some l) binder) st) st) := by
  induction rest generalizing done st with
  | nil => simpa [← hl] using h
  | cons i rest ih =>
    obtain ⟨addresses, ha⟩ :=
      Option.isSome_iff_exists.mp (hc.ok i (hl ▸ List.mem_append_right _ (List.mem_cons_self _ _)))
    simp only [List.foldl_cons, ha, Option.elim]
    exact ih (done ++ [i]) (by simpa using hl) (h.scanInterface hc hR0 hR0nd hl ha)

theorem eq_of_length_le_one {α : Type} {L : List α} (h : L.length ≤ 1) {a b : α} (ha : a ∈ L)
    (hb : b ∈ L) : a = b := by
  match L, h with
  | [c], _ => rw [List.mem_singleton.mp ha, List.mem_singleton.mp hb]

theorem removedInterfaces_eq (old new : Snapshot) :
    removedInterfaces old new =
      (old.entries.filter fun e => e.1 ∉ new).map fun e => .interfaceRemove e.1 e.2 := by
  unfold removedInterfaces
  induction old.entries with
  | nil => rfl
  | cons e es ih => by_cases h : e.1 ∈ new <;> simp [h, ih, List.filter_cons]

/-- A cycle's events handle the listed interfaces one after the other, then remove the vanished
ones. -/
theorem foldl_monitorDiff (os : Interfaces) (binder : PortBinder) (old : Snapshot)
    (l : List Interface) (st : Networks) :
    (monitorDiff old l).1.foldl (handleEvent os binder) st =
      ((old.entries.filter fun e => e.1 ∉ (monitorDiff old l).2).map (·.1)).foldl
        (fun st n => networkChangeInterfaceRemove n st)
        (l.foldl (fun st iface => (iface.addrs.elim [] (interfaceEvents old iface.name)).foldl
          (handleEvent os binder) st) st) := by
  rw [monitorDiff_fst, List.foldl_append, removedInterfaces_eq, List.foldl_map, List.foldl_map]
  simp only [List.flatMap, List.foldl_flatten, List.foldl_map]
  rfl

theorem CycleHyps.lookup_iff (hc : CycleHyps binder old l) (n : List Char)
    (addresses : List IPNet) :
    (l.find? (·.name = n)).bind (·.addrs) = some addresses ↔
      ∃ i ∈ l, i.name = n ∧ i.addrs = some addresses := by
  constructor
  · intro h
    obtain ⟨i, hi, ha⟩ := Option.bind_eq_some.mp h
    exact ⟨i, List.mem_of_find?_eq_some hi, by simpa using List.find?_some hi, ha⟩
  · rintro ⟨i, hi, rfl, ha⟩
    obtain ⟨j, hj⟩ : ∃ j, l.find? (·.name = i.name) = some j :=
      Option.isSome_iff_exists.mp (List.find?_isSome.mpr ⟨i, hi, by simp⟩)
    have hji := List.inj_on_of_nodup_map hc.names (List.mem_of_find?_eq_some hj) hi
      (by simpa using List.find?_some hj)
    simp [hj, hji, ha]

/-- At the start of a cycle, listeners in step with the snapshot serve what it lists. -/
theorem ListenersMatch.cycleInv {st : Networks} (hmatch : ListenersMatch old st)
    (hwf : st.WellFormed) (E : List (Option (List Char) × IP)) :
    CycleInv st.registered st.terminated st.fresh E
      ((nonLoopback (servedAfter old [])).map pairEndpoint) st := by
  have hs : servedAfter old [] = snapshotPairs old := by simp [servedAfter, interfacePairs]
  rw [hs]
  exact ⟨hwf, hmatch.ids_nodup, hmatch.live, hmatch.endpoints, le_rfl, fun x hx hx0 => absurd hx hx0,
    ⟨[], by simp, List.nodup_nil, fun _ => ⟨nofun, fun ⟨_, hx, hx', _⟩ => absurd hx hx'⟩⟩⟩

/-- An endpoint the enumeration asks for is on one of its interfaces. -/
theorem mem_name_of_endpoint {x : Option (List Char) × IP} {n : List Char}
    (hx : x ∈ (nonLoopback (interfacePairs l)).map pairEndpoint) (hxn : x.1 = some n) :
    n ∈ l.map (·.name) := by
  obtain ⟨q, hq, rfl⟩ := List.mem_map.mp hx
  obtain ⟨j, hj, hjn, -⟩ := mem_interfacePairs.mp (mem_nonLoopback.mp hq).1
  exact List.mem_map.mpr ⟨j, hj, hjn.trans (Option.some.inj hxn)⟩

/-- The interfaces the cycle reports removed are those of the old snapshot it did not list. -/
theorem CycleHyps.mem_vanished (hc : CycleHyps binder old l) {n : List Char}
    (hn : n ∈ (old.entries.filter fun e => e.1 ∉ (monitorDiff old l).2).map (·.1)) :
    n ∉ l.map (·.name) ∧ ∃ addresses, old.lookup n = some addresses := by
  obtain ⟨e, he, rfl⟩ := List.mem_map.mp hn
  have he := List.mem_filter.mp he
  exact ⟨fun hm => (by simpa using he.2 : e.1 ∉ (monitorDiff old l).2)
    ((mem_monitorDiff_snd hc.names hc.ok _).mpr hm), e.2, AList.mem_lookup_iff.mpr he.1⟩

/-- Two pairs served on an interface that vanished, with IPs of one family, are the same. -/
theorem CycleHyps.eq_of_gone (hc : CycleHyps binder old l) {n : List Char}
    (hn : n ∉ l.map (·.name)) {p p' : List Char × IPNet} (hp : p ∈ nonLoopback (servedAfter old l))
    (hp' : p' ∈ nonLoopback (servedAfter old l)) (hpn : p.1 = n) (hpn' : p'.1 = n)
    (hfam : isIPv4 p.2.ip = isIPv4 p'.2.ip) : p = p' := by
  have hold : ∀ q ∈ nonLoopback (servedAfter old l), q.1 = n → q ∈ snapshotPairs old :=
    fun q hq hqn => by
      rcases mem_servedAfter.mp (mem_nonLoopback.mp hq).1 with hq | hq
      · exact hq.1
      · obtain ⟨j, hj, hjn, -⟩ := mem_interfacePairs.mp hq
        exact absurd (List.mem_map.mpr ⟨j, hj, hjn.trans hqn⟩) hn
  obtain ⟨as, has, hpa⟩ := mem_snapshotPairs.mp (hold p hp hpn)
  obtain ⟨as', has', hpa'⟩ := mem_snapshotPairs.mp (hold p' hp' hpn')
  rw [hpn] at has
  rw [hpn', has] at has'
  cases has'
  have hlen := hc.gone _ (AList.mem_lookup_iff.mp has) hn
  have hl := (mem_nonLoopback.mp hp).2
  have hl' := (mem_nonLoopback.mp hp').2
  refine Prod.ext (hpn.trans hpn'.symm) ?_
  cases h4 : isIPv4 p.2.ip
  · exact eq_of_length_le_one hlen.2 (List.mem_filter.mpr ⟨hpa, by simp [hl, h4]⟩)
      (List.mem_filter.mpr ⟨hpa', by simp [hl', ← hfam, h4]⟩)
  · exact eq_of_length_le_one hlen.1 (List.mem_filter.mpr ⟨hpa, by simp [hl, h4]⟩)
      (List.mem_filter.mpr ⟨hpa', by simp [hl', ← hfam, h4]⟩)

/-- A vanished interface has at most one served endpoint of each family. -/
theorem CycleHyps.gone_count (hc : CycleHyps binder old l) {n : List Char}
    (hn : n ∉ l.map (·.name)) (b : Bool) :
    (((nonLoopback (servedAfter old l)).map pairEndpoint).filter fun x =>
      decide (x.1 = some n) && (isIPv4 x.2 == b)).length ≤ 1 := by
  rw [filter_endpoints, List.length_map]
  have key : ∀ z ∈ nonLoopback ((servedAfter old l).filter fun p =>
      decide ((pairEndpoint p).1 = some n) && (isIPv4 (pairEndpoint p).2 == b)),
      z ∈ nonLoopback (servedAfter old l) ∧ z.1 = n ∧ isIPv4 z.2.ip = b := fun z hz => by
    obtain ⟨hz, hzl⟩ := mem_nonLoopback.mp hz
    obtain ⟨hz, hzg⟩ := List.mem_filter.mp hz
    simp only [pairEndpoint, Bool.and_eq_true, decide_eq_true_eq, Option.some.injEq,
      beq_iff_eq] at hzg
    exact ⟨mem_nonLoopback.mpr ⟨hz, hzl⟩, hzg⟩
  refine length_le_one_of_eq (((hc.servedAfter_nodup hc.names fun _ h => h).filter _).filter _)
    fun p hp q hq => ?_
  obtain ⟨hp, hpn, hpb⟩ := key p hp
  obtain ⟨hq, hqn, hqb⟩ := key q hq
  exact hc.eq_of_gone hn hp hq hpn hqn (hpb.trans hqb.symm)

/-- The pairs the enumeration lists are those of the new snapshot. -/
theorem CycleHyps.interfacePairs_perm (hc : CycleHyps binder old l) :
    (interfacePairs l).Perm (snapshotPairs (monitorDiff old l).2) := by
  have hlookup := monitorDiff_lookup old l hc.names
  refine (List.perm_ext_iff_of_nodup (nodup_interfacePairs hc.names hc.addrs_nodup)
    (nodup_snapshotPairs fun e he => ?_)).mpr fun p => ?_
  · obtain ⟨i, hi, -, ha⟩ :=
      (hc.lookup_iff e.1 e.2).mp ((hlookup e.1).symm.trans (AList.mem_lookup_iff.mpr he))
    exact hc.addrs_nodup i hi _ ha
  · rw [mem_interfacePairs, mem_snapshotPairs]
    simp only [hlookup, hc.lookup_iff]
    constructor
    · rintro ⟨i, hi, hn, ha⟩
      obtain ⟨as, has⟩ := Option.isSome_iff_exists.mp (hc.ok i hi)
      exact ⟨as, ⟨i, hi, hn, has⟩, by simpa [has] using ha⟩
    · rintro ⟨as, ⟨i, hi, hn, has⟩, ha⟩
      exact ⟨i, hi, hn, by simpa [has] using ha⟩

/-- Once every interface is handled, dropping the vanished interfaces leaves what the
enumeration lists. -/
theorem CycleHyps.servedAfter_filter_vanished (hc : CycleHyps binder old l) :
    ((nonLoopback (servedAfter old l)).map pairEndpoint).filter
      (fun x => !decide (x.1 ∈ ((old.entries.filter fun e => e.1 ∉ (monitorDiff old l).2).map
        (·.1)).map some)) = (nonLoopback (interfacePairs l)).map pairEndpoint := by
  have hnew := @mem_monitorDiff_snd old l hc.names hc.ok
  rw [servedAfter, nonLoopback_append, List.map_append, List.filter_append,
    List.filter_eq_nil_iff.mpr, List.filter_eq_self.mpr, List.nil_append]
  · intro x hx
    simp only [List.mem_map, Bool.not_eq_true', decide_eq_false_iff_not, not_exists, not_and]
    rintro _ ⟨e, he, rfl⟩ hx1
    exact (by simpa using (List.mem_filter.mp he).2 : e.1 ∉ (monitorDiff old l).2)
      ((hnew _).mpr (mem_name_of_endpoint hx hx1.symm))
  · intro x hx
    obtain ⟨q, hq, rfl⟩ := List.mem_map.mp hx
    obtain ⟨hqo, hqn⟩ := List.mem_filter.mp (mem_nonLoopback.mp hq).1
    obtain ⟨as, has, -⟩ := mem_snapshotPairs.mp hqo
    have hqn : q.1 ∉ l.map (·.name) := by simpa using hqn
    have hmem : (⟨q.1, as⟩ : (_ : List Char) × List IPNet) ∈
        old.entries.filter fun e => e.1 ∉ (monitorDiff old l).2 :=
      List.mem_filter.mpr ⟨AList.mem_lookup_iff.mp has, by simpa [hnew] using hqn⟩
    simpa [pairEndpoint] using List.mem_map_of_mem some (List.mem_map_of_mem (·.1) hmem)

end Assumptions

/-! ## One cycle -/

/-- When every address an interface loses in one cycle has an IP of its own, no IP of the
enumeration is on two interfaces, no new address is unspecified, no vanishing interface has two
addresses of a family, and every bind succeeds, a cycle that starts with the listeners in step
with the snapshot ends with them in step with the new one: the listeners that left were
terminated once each, and the others never. -/
theorem monitorCycle_keeps_listeners (binder : PortBinder) (old : Snapshot) (st : Networks)
    (l : List Interface) (hc : CycleHyps binder old l) (hwf : st.WellFormed)
    (hmatch : ListenersMatch old st) :
    (∀ n, (networkChangeMonitorCycle binder (some l) ⟨old, st⟩).ifacesExist.lookup n =
      (l.find? (·.name = n)).bind (·.addrs)) ∧
    ListenersMatch (networkChangeMonitorCycle binder (some l) ⟨old, st⟩).ifacesExist
      (networkChangeMonitorCycle binder (some l) ⟨old, st⟩).networks ∧
    ∃ T, (networkChangeMonitorCycle binder (some l) ⟨old, st⟩).networks.terminated =
        st.terminated ++ T ∧
      T.Perm ((st.registered.filter fun x =>
        x ∉ (networkChangeMonitorCycle binder (some l) ⟨old, st⟩).networks.registered).map (·.id)) := by
  have h1 := (hmatch.cycleInv hwf _).scanInterfaces hc hwf.id_lt hmatch.ids_nodup [] l rfl
  have h2 := h1.interfaceRemoves hmatch.ids_nodup _
    (fun n hn b => hc.gone_count (hc.mem_vanished hn).1 b)
    (fun n hn x hx hxn => (hc.mem_vanished hn).1 (mem_name_of_endpoint hx hxn))
  rw [hc.servedAfter_filter_vanished, ← foldl_monitorDiff] at h2
  simp only [networkChangeMonitorCycle_networks, networkChangeMonitorCycle_ifacesExist]
  refine ⟨monitorDiff_lookup old l hc.names,
    ⟨h2.ids_nodup, h2.live, h2.endpoints.trans ((hc.interfacePairs_perm.filter _).map _)⟩, ?_⟩
  obtain ⟨T, hT, hnd, hiff⟩ := h2.log
  refine ⟨T, hT, (List.perm_ext_iff_of_nodup hnd
    (hmatch.ids_nodup.sublist ((List.filter_sublist _).map _))).mpr fun i => ?_⟩
  rw [hiff]
  simp [and_assoc]

/-- The cycle where `eth0` gains `10.0.0.6/24` and `wlan0` appears, from the listener
`initNetwork` opened on `eth0`. -/
theorem monitorCycle_keeps_listeners_eth0Grown :
    CycleHyps firstFreeBinder eth0Snapshot eth0Grown ∧
    (initNetwork [] eth0Only firstFreeBinder).WellFormed ∧
    ListenersMatch eth0Snapshot (initNetwork [] eth0Only firstFreeBinder) ∧
    (∀ n, (networkChangeMonitorCycle firstFreeBinder (some eth0Grown)
        ⟨eth0Snapshot, initNetwork [] eth0Only firstFreeBinder⟩).ifacesExist.lookup n =
      (eth0Grown.find? (·.name = n)).bind (·.addrs)) ∧
    ListenersMatch (networkChangeMonitorCycle firstFreeBinder (some eth0Grown)
        ⟨eth0Snapshot, initNetwork [] eth0Only firstFreeBinder⟩).ifacesExist
      (networkChangeMonitorCycle firstFreeBinder (some eth0Grown)
        ⟨eth0Snapshot, initNetwork [] eth0Only firstFreeBinder⟩).networks ∧
    ∃ T, (networkChangeMonitorCycle firstFreeBinder (some eth0Grown)
        ⟨eth0Snapshot, initNetwork [] eth0Only firstFreeBinder⟩).networks.terminated =
        (initNetwork [] eth0Only firstFreeBinder).terminated ++ T ∧
      T.Perm (((initNetwork [] eth0Only firstFreeBinder).registered.filter fun x =>
        x ∉ (networkChangeMonitorCycle firstFreeBinder (some eth0Grown)
          ⟨eth0Snapshot, initNetwork [] eth0Only firstFreeBinder⟩).networks.registered).map (·.id)) :=
  have hc : CycleHyps firstFreeBinder eth0Snapshot eth0Grown :=
    ⟨by decide, by decide, by decide, by decide, by decide, by decide, by decide, by decide,
      fun _ => ⟨49152, by simp [firstFreeBinder]⟩⟩
  ⟨hc, by decide, by decide, monitorCycle_keeps_listeners firstFreeBinder eth0Snapshot
    (initNetwork [] eth0Only firstFreeBinder) eth0Grown hc (by decide) (by decide)⟩

/-- Moving `10.0.0.5/24` from `eth0` to a new interface `eth1` meets the assumptions. -/
example : CycleHyps firstFreeBinder eth0Snapshot [⟨"eth1".toList, some [eth0Address]⟩] :=
  ⟨by decide, by decide, by decide, by decide, by decide, by decide, by decide, by decide,
    fun _ => ⟨49152, by simp [firstFreeBinder]⟩⟩

/-- `eth0` listing `10.0.0.5` on a /16 prefix instead of /24. -/
def eth0Prefix16 : List Interface := [⟨"eth0".toList, some [⟨ipv4 10 0 0 5, 16, 4, by decide⟩]⟩]

/-- From listeners in step with the snapshot, a prefix change on `10.0.0.5` opens a second
listener on the IP, and the removal of the old address terminates both: the listener left
registered is terminated. -/
theorem prefix_change_terminates_listener :
    ListenersMatch eth0Monitor.ifacesExist eth0Monitor.networks ∧
    ¬ListenersMatch (networkChangeMonitorCycle firstFreeBinder (some eth0Prefix16)
        eth0Monitor).ifacesExist
      (networkChangeMonitorCycle firstFreeBinder (some eth0Prefix16) eth0Monitor).networks ∧
    (networkChangeMonitorCycle firstFreeBinder (some eth0Prefix16)
        eth0Monitor).networks.registered.map (·.id) = [1] ∧
    (networkChangeMonitorCycle firstFreeBinder (some eth0Prefix16)
        eth0Monitor).networks.terminated = [0, 1] := by
  decide

end Peernet
