-- SUMMARY: The interface enumeration, the listener registry, and the two removal handlers of `Network Detection.go`.
import Peernet.Go.IP
import Peernet.Go.Slice

/-!
# Network detection

The operating system's interfaces as `net.Interfaces` reports them, `FindInterfaceByIP` and
`NetworkListIPs` over that report (the first finds an interface for exactly the IPs the second
lists), and the listener registry: the lists `networks4` and `networks6`, the set
`ipsListen` of recorded listen addresses, and (ghost) the listeners `Terminate` was called on.

`networkChangeInterfaceRemove` and `networkChangeIPRemove` remove listeners with the
range-and-splice loop of `Peernet.Go.Slice`. With at most one listener to remove from each list
they remove exactly those (`removeNetworks_eq_filter`). With two on one list, as an interface
with a link-local and a global IPv6 address has, the second stays registered although it was
terminated (`interfaceRemove_keeps_second_listener`).
-/

namespace Peernet

open Go net

/-- A network interface as `net.Interfaces` lists it: its name, and what its `Addrs` returns,
`none` where that call fails. -/
structure Interface where
  name : List Char
  addrs : Option (List IPNet)
deriving DecidableEq

/-- What `net.Interfaces` returns: the interfaces, or `none` on an error. A monitor cycle reads
one such report, which the `FindInterfaceByIP` calls made during the cycle read as well. -/
abbrev Interfaces := Option (List Interface)

/-- `FindInterfaceByIP`: the first interface that lists `ip`, with the address that lists it;
an interface whose `Addrs` fails is skipped. -/
def findInterfaceByIP (os : Interfaces) (ip : IP) : Option (Interface × IPNet) :=
  os.bind fun interfaceList => interfaceList.findSome? fun iface =>
    iface.addrs.bind fun addresses => (addresses.find? (·.ip = ip)).map (iface, ·)

/-- `NetworkListIPs`: the IP of every address of every interface, in order; an interface whose
`Addrs` fails is skipped, and an enumeration error is `none`. -/
def networkListIPs (os : Interfaces) : Option (List IP) :=
  os.map fun interfaceList =>
    interfaceList.flatMap fun ifaceSingle => (ifaceSingle.addrs.getD []).map (·.ip)

/-- What `FindInterfaceByIP` returns is an interface of the report with an address on the IP. -/
theorem findInterfaceByIP_eq_some {os : Interfaces} {ip : IP} {iface : Interface} {b : IPNet}
    (h : findInterfaceByIP os ip = some (iface, b)) :
    ∃ interfaceList addresses, os = some interfaceList ∧ iface ∈ interfaceList ∧
      iface.addrs = some addresses ∧ b ∈ addresses ∧ b.ip = ip := by
  obtain ⟨interfaceList, rfl, h⟩ := Option.bind_eq_some.mp h
  obtain ⟨j, hj, hf⟩ := List.exists_of_findSome?_eq_some h
  obtain ⟨addresses, ha, hfind⟩ := Option.bind_eq_some.mp hf
  obtain ⟨b', hb', heq⟩ := Option.map_eq_some'.mp hfind
  obtain ⟨rfl, rfl⟩ := Prod.mk.inj heq
  exact ⟨interfaceList, addresses, rfl, hj, ha, List.mem_of_find?_eq_some hb',
    by simpa using List.find?_some hb'⟩

/-- `FindInterfaceByIP` finds an interface for exactly the IPs `NetworkListIPs` lists. -/
theorem findInterfaceByIP_isSome_iff (os : Interfaces) (ip : IP) :
    (findInterfaceByIP os ip).isSome ↔ ∃ ips, networkListIPs os = some ips ∧ ip ∈ ips := by
  cases os with
  | none => simp [findInterfaceByIP, networkListIPs]
  | some interfaceList =>
    simp only [findInterfaceByIP, networkListIPs, Option.some_bind, Option.map_some',
      Option.some.injEq, exists_eq_left', List.findSome?_isSome_iff, List.mem_flatMap,
      List.mem_map]
    refine exists_congr fun iface => and_congr_right fun _ => ?_
    cases iface.addrs <;> simp [List.find?_isSome]

/-- `IsIPv4`. -/
def isIPv4 (ip : IP) : Bool := ip.to4.isSome

/-- `IsIPv6`. -/
def isIPv6 (ip : IP) : Bool := ip.to4.isNone && ip.to16.isSome

/-- Every IP is of exactly one family, so the `else` branch of `networkPrepareListen`, which
registers into `networks6`, takes the IPv6 addresses. -/
theorem isIPv6_eq_not_isIPv4 (ip : IP) : isIPv6 ip = !isIPv4 ip := by
  simp [isIPv6, isIPv4, IP.to16, Option.isNone_iff_eq_none, Option.isSome_iff_ne_none]

/-- A listener, a `Network`: `id` stands for its address, `iface` is the name of the interface
it was opened on (`nil` for a wildcard bind), and `address` is the UDP address it is bound to.
Its socket and its `ipnet`, which no modelled function reads, are left out. -/
structure Network where
  id : Nat
  iface : Option (List Char)
  address : UDPAddr
deriving DecidableEq

/-- The listener state of the node: the package variables `networks4`, `networks6` and
`ipsListen` (the keys of the map), the ids of the listeners `Terminate` was called on, in order,
and the id the next `new(Network)` gets. -/
structure Networks where
  networks4 : List Network
  networks6 : List Network
  ipsListen : List (List Char)
  terminated : List Nat
  fresh : Nat

/-- Every registered listener, IPv4 first. -/
def Networks.registered (st : Networks) : List Network := st.networks4 ++ st.networks6

/-! ## Removal -/

/-- The loop shared by the two removal handlers: over `networks6`, then over `networks4`, every
listener `p` selects is terminated and spliced out of its list. -/
def removeNetworks (p : Network → Bool) (st : Networks) : Networks :=
  let (networks6, gone6) := removeWhere p st.networks6
  let (networks4, gone4) := removeWhere p st.networks4
  { st with networks6, networks4, terminated := st.terminated ++ (gone6 ++ gone4).map Network.id }

/-- `networkChangeInterfaceRemove`: removes the listeners opened on the interface named `iface`.
The address list it is also given is only logged. -/
def networkChangeInterfaceRemove (iface : List Char) (st : Networks) : Networks :=
  removeNetworks (fun network => network.iface = some iface) st

/-- `networkChangeIPRemove`: removes the listeners bound to the IP of `address`, on whatever
interface. The interface it is also given is only logged. -/
def networkChangeIPRemove (address : IPNet) (st : Networks) : Networks :=
  removeNetworks (fun network => network.address.ip = address.ip) st

@[simp] theorem removeNetworks_ipsListen (p : Network → Bool) (st : Networks) :
    (removeNetworks p st).ipsListen = st.ipsListen := rfl

@[simp] theorem removeNetworks_fresh (p : Network → Bool) (st : Networks) :
    (removeNetworks p st).fresh = st.fresh := rfl

/-- With at most one selected listener on each list, removal is exact: the others stay, in
order, and the selected ones are terminated once each, IPv6 first. -/
theorem removeNetworks_eq_filter (p : Network → Bool) (st : Networks)
    (h4 : (st.networks4.filter p).length ≤ 1) (h6 : (st.networks6.filter p).length ≤ 1) :
    removeNetworks p st = { st with
      networks4 := st.networks4.filter (fun n => !p n)
      networks6 := st.networks6.filter (fun n => !p n)
      terminated := st.terminated ++ (st.networks6.filter p ++ st.networks4.filter p).map Network.id } := by
  simp only [removeNetworks, removeWhere_eq_filter _ h4, removeWhere_eq_filter _ h6]

/-- A listener with a link-local and one with a global IPv6 address, both on `eth0`. -/
def linkLocalListener : Network :=
  ⟨0, some "eth0".toList, ⟨⟨[0xfe, 0x80, 0, 0, 0, 0, 0, 0, 0, 0, 0, 0, 0, 0, 0, 1], rfl⟩, 4000⟩⟩

/-- See `linkLocalListener`. -/
def globalListener : Network :=
  ⟨1, some "eth0".toList, ⟨⟨[0x20, 0x01, 0x0d, 0xb8, 0, 0, 0, 0, 0, 0, 0, 0, 0, 0, 0, 1], rfl⟩, 4001⟩⟩

/-- When `eth0` goes away with both listeners registered, both are terminated but the second
stays in `networks6`: the splice at index 0 moves it to index 0, and the loop goes on at
index 1, where the array still holds it, and cuts the slice back to length 1. -/
theorem interfaceRemove_keeps_second_listener :
    (networkChangeInterfaceRemove "eth0".toList
        ⟨[], [linkLocalListener, globalListener], [], [], 2⟩).networks6 = [globalListener] ∧
      (networkChangeInterfaceRemove "eth0".toList
        ⟨[], [linkLocalListener, globalListener], [], [], 2⟩).terminated =
        [linkLocalListener.id, globalListener.id] := by
  decide

end Peernet
