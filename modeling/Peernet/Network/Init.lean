-- SUMMARY: `initNetwork`, `networkPrepareListen` and the listen-address set of `Network Init.go`, with the self-packet filter `IsAddressSelf`.
import Peernet.Network.Detection
import Peernet.Go.HostPort
import Peernet.Go.IPText

/-!
# Network initialisation

`networkPrepareListen` parses an IP text, finds the interface that lists the IP, binds a port
and registers the new listener in `networks4` or `networks6`. `initNetwork` calls it for each
entry of `config.Listen`, or, when that list is empty, for each non-loopback address of each
interface, and only on that second path records the bound address with `addListenAddress`.
`IsAddressSelf` reads that record; no removal handler touches it.

So the self-packet filter and the live listeners part in both directions: a listener opened
from `config.Listen` is not recognised (`explicit_listener_not_self`), and the address of a
terminated listener still is.
-/

namespace Peernet

open Go net strconv

/-- Modelled from the spec: the missing `Network.AutoAssignPort`, which binds a UDP socket on
the IP, to the given port or, when that is `0`, to one of its choosing, and returns the bound
port or the text of the error. -/
structure PortBinder where
  bind : IP → Int → Except (List Char) Nat
  bind_port : ∀ ip port q, bind ip port = .ok q → port ≠ 0 → (q : Int) = port

/-- The state with `network` appended to the list of its family. -/
def Networks.register (st : Networks) (network : Network) : Networks :=
  if isIPv4 network.address.ip then
    { st with networks4 := st.networks4 ++ [network], fresh := st.fresh + 1 }
  else { st with networks6 := st.networks6 ++ [network], fresh := st.fresh + 1 }

/-- The interface `networkPrepareListen` gives a new listener: none for a wildcard text, else
the one `FindInterfaceByIP` finds, which must exist. -/
def listenInterface (os : Interfaces) (ipA : List Char) (ip : IP) :
    Except (List Char) (Option (List Char)) :=
  if ipA ≠ "0.0.0.0".toList ∧ ipA ≠ "::".toList then
    match findInterfaceByIP os ip with
    | none => .error "Error finding the network interface belonging to IP".toList
    | some (iface, _) => .ok (some iface.name)
  else .ok none

/-- `networkPrepareListen`: the new listener and the state it is registered in. A failed call
changes nothing. -/
def networkPrepareListen (os : Interfaces) (binder : PortBinder) (ipA : List Char) (port : Int)
    (st : Networks) : Except (List Char) (Network × Networks) :=
  match parseIP ipA with
  | none => .error "Invalid input IP".toList
  | some ip =>
    match listenInterface os ipA ip, binder.bind ip port with
    | .error e, _ => .error e
    | .ok _, .error e => .error e
    | .ok iface, .ok boundPort =>
      let network : Network := ⟨st.fresh, iface, ⟨ip, boundPort⟩⟩
      .ok (network, st.register network)

/-- `addListenAddress`. -/
def addListenAddress (addr : UDPAddr) (st : Networks) : Networks :=
  { st with ipsListen := st.ipsListen.insert (joinHostPort addr.ip.string (itoa addr.port)) }

/-- `IsAddressSelf`; a nil address is `none`. -/
def isAddressSelf (addr : Option UDPAddr) (st : Networks) : Bool :=
  match addr with
  | none => false
  | some addr => decide (joinHostPort addr.ip.string (itoa addr.port) ∈ st.ipsListen)

/-- The body of the adapter loop of `initNetwork` for one address: a loopback address is
skipped, any other is opened on an automatic port and recorded. Failures are only logged. -/
def listenOnAddress (os : Interfaces) (binder : PortBinder) (st : Networks) (address : IPNet) :
    Networks :=
  if address.ip.isLoopback then st
  else
    match networkPrepareListen os binder address.ip.string 0 st with
    | .ok (netw, st) => addListenAddress netw.address st
    | .error _ => st

/-- How `initNetwork` reads one entry of `config.Listen`: the host and the port it passes to
`networkPrepareListen`, or `none` when the entry is skipped. When the text of the
`SplitHostPort` error mentions a missing port, the whole entry is the host and the port is
`"0"`; the error of `Atoi` is ignored. -/
def listenRequest (listenA : List Char) : Option (List Char × Int) :=
  let hostPort : Option (List Char × List Char) :=
    match splitHostPort listenA with
    | .ok hp => some hp
    | .error e => if strings.contains e missingPort then some (listenA, "0".toList) else none
  hostPort.map fun (host, portA) => (host, (atoi portA).1)

/-- The body of the `config.Listen` loop of `initNetwork` for one entry. -/
def listenConfigured (os : Interfaces) (binder : PortBinder) (st : Networks)
    (listenA : List Char) : Networks :=
  match listenRequest listenA with
  | none => st
  | some (host, portI) =>
    match networkPrepareListen os binder host portI st with
    | .ok (_, st) => st
    | .error _ => st

/-- The empty listener state the node starts from. -/
def Networks.empty : Networks := ⟨[], [], [], [], 0⟩

/-- `initNetwork` on `config.Listen = listen`: the listener state it leaves. The workers and the
packet channel it also starts are not modelled. -/
def initNetwork (listen : List (List Char)) (os : Interfaces) (binder : PortBinder) : Networks :=
  if listen ≠ [] then listen.foldl (listenConfigured os binder) Networks.empty
  else
    match os with
    | none => Networks.empty
    | some interfaceList =>
      interfaceList.foldl (fun st iface =>
        match iface.addrs with
        | none => st
        | some addresses => addresses.foldl (listenOnAddress os binder) st) Networks.empty

/-! ## A test network -/

/-- A binder that binds the port asked for when it is one, and port 49152 for `0`. -/
def firstFreeBinder : PortBinder where
  bind _ port :=
    if port = 0 then .ok 49152 else if 0 < port ∧ port ≤ 65535 then .ok port.toNat
    else .error "invalid port".toList
  bind_port ip port q h hp := by
    simp only [hp, if_false] at h
    split at h
    · cases h; omega
    · cases h

/-- The address `10.0.0.5/24`, as `Addrs` reports an `AF_INET` entry. -/
def eth0Address : IPNet := ⟨ipv4 10 0 0 5, 24, 4, by decide⟩

/-- An interface `eth0` that lists `10.0.0.5/24`. -/
def eth0Only : Interfaces := some [⟨"eth0".toList, some [eth0Address]⟩]

/-! ## Reading `config.Listen` -/

theorem contains_addrError_missingPort (addr : List Char) :
    strings.contains (addrError addr missingPort) missingPort := by
  unfold addrError
  split
  · exact strings.contains_of_isPrefixOf _ _ (List.isPrefixOf_iff_prefix.mpr (List.prefix_refl _))
  · exact strings.contains_append_left _ _ _
      (strings.contains_of_isPrefixOf _ _ (List.isPrefixOf_iff_prefix.mpr (List.prefix_refl _)))

/-- An entry `JoinHostPort(host, port)` with an IP literal for the host is split back into the
two, and the port is what `Atoi` makes of it. -/
theorem listenRequest_joinHostPort (host portA : List Char) (ip : IP) (h : parseIP host = some ip)
    (hp : ':' ∉ portA ∧ '[' ∉ portA ∧ ']' ∉ portA) :
    listenRequest (joinHostPort host portA) = some (host, (atoi portA).1) := by
  have hb : '[' ∉ host ∧ ']' ∉ host :=
    ⟨fun hm => absurd (parseIP_alphabet host ip h _ hm) (by decide),
      fun hm => absurd (parseIP_alphabet host ip h _ hm) (by decide)⟩
  simp [listenRequest, splitHostPort_joinHostPort host portA hp.1 hb hp.2]

/-- An entry without a colon is all host, on port 0. -/
theorem listenRequest_of_no_colon (host : List Char) (h : ':' ∉ host) :
    listenRequest host = some (host, 0) := by
  simp [listenRequest, splitHostPort_of_no_colon host h, contains_addrError_missingPort]
  rfl

/-- An IP literal with two colons and no brackets is skipped: `SplitHostPort` finds too many
colons, and that error is not the missing port. -/
theorem listenRequest_of_two_colons (host : List Char) (ip : IP) (h : parseIP host = some ip)
    (h2 : 2 ≤ host.count ':') : listenRequest host = none := by
  have hp : 'p' ∉ host := fun hm => absurd (parseIP_alphabet host ip h _ hm) (by decide)
  have hb : host.head? ≠ some '[' := fun hh =>
    absurd (parseIP_alphabet host ip h '[' (List.mem_of_mem_head? hh)) (by decide)
  have hne : host ≠ [] := by rintro rfl; simp at h2
  have hno : strings.contains (addrError host tooManyColons) missingPort = false :=
    strings.contains_eq_false _ _ 'p' (by decide) (by simp [addrError, hne, hp, tooManyColons])
  simp [listenRequest, splitHostPort_of_two_colons host h2 hb, hno]

/-- No text starting with a bracket is an IP. -/
theorem parseIP_bracket (t : List Char) : parseIP ('[' :: t) = none := by
  have h4 : parseIPv4 ('[' :: t) = none := by
    simp [parseIPv4, parseIPv4Fields, dtoi, dtoiLoop, isDigit]
  have h6 : parseIPv6 ('[' :: t) = none := by
    simp [parseIPv6, leadingEllipsis, parseIPv6Loop, xtoi, xtoiLoop, hexValue]
  unfold parseIP
  split <;> simp_all

/-- A bracketed IP literal is all host, on port 0, and that host is no IP. -/
theorem listenRequest_bracketed (host : List Char) (ip : IP) (h : parseIP host = some ip) :
    listenRequest ('[' :: host ++ [']']) = some ('[' :: host ++ [']'], 0) := by
  have hb : ']' ∉ host := fun hm => absurd (parseIP_alphabet host ip h _ hm) (by decide)
  simp only [listenRequest, splitHostPort_bracketed_host host hb, contains_addrError_missingPort,
    if_true, Option.map_some']
  rfl

/-- How `initNetwork` reads each form of `config.Listen` entry: the host and port it passes to
`networkPrepareListen`, or `none` where it skips the entry. A port past `int64` is clamped by
`Atoi`, whose error is ignored. -/
theorem listenRequest_cases :
    (∀ host ip (p : Nat), parseIP host = some ip → p ≤ 65535 →
      listenRequest (joinHostPort host (uitoa p)) = some (host, (p : Int))) ∧
    (∀ host ip (p : Nat), parseIP host = some ip → int64Cutoff ≤ p →
      listenRequest (joinHostPort host (uitoa p)) = some (host, 9223372036854775807)) ∧
    (∀ host ip portA, parseIP host = some ip → (∀ c ∈ portA, isDigit c = false) →
      ':' ∉ portA → '[' ∉ portA → ']' ∉ portA →
      listenRequest (joinHostPort host portA) = some (host, 0)) ∧
    (∀ host, ':' ∉ host → listenRequest host = some (host, 0)) ∧
    (∀ host ip, parseIP host = some ip → 2 ≤ host.count ':' → listenRequest host = none) ∧
    (∀ host ip, parseIP host = some ip →
      listenRequest ('[' :: host ++ [']']) = some ('[' :: host ++ [']'], 0) ∧
        parseIP ('[' :: host ++ [']']) = none) := by
  have hu : ∀ p, ':' ∉ uitoa p ∧ '[' ∉ uitoa p ∧ ']' ∉ uitoa p := fun p => by
    have hc : ∀ c ∈ uitoa p, c ≠ ':' ∧ c ≠ '[' ∧ c ≠ ']' := fun c hc => by
      obtain ⟨d, hd, rfl⟩ := mem_toDigits 10 (by omega) p c hc
      clear hc
      revert d
      decide
    exact ⟨fun hm => (hc _ hm).1 rfl, fun hm => (hc _ hm).2.1 rfl, fun hm => (hc _ hm).2.2 rfl⟩
  refine ⟨fun host ip p h hp => ?_, fun host ip p h hp => ?_,
    fun host ip portA h hd h1 h2 h3 => ?_, listenRequest_of_no_colon, listenRequest_of_two_colons,
    fun host ip h => ⟨listenRequest_bracketed host ip h, parseIP_bracket _⟩⟩
  · rw [listenRequest_joinHostPort host _ ip h (hu p), atoi_uitoa p (by omega)]
  · rw [listenRequest_joinHostPort host _ ip h (hu p), atoi_uitoa_of_le p hp]
  · rw [listenRequest_joinHostPort host portA ip h ⟨h1, h2, h3⟩, atoi_of_no_digit portA hd]

/-- With `config.Listen = ["10.0.0.5:abc"]` a listener opens on an automatic port. -/
example :
    (initNetwork ["10.0.0.5:abc".toList] eth0Only firstFreeBinder).registered.map (·.address) =
      [⟨ipv4 10 0 0 5, 49152⟩] := by
  decide

/-- `initNetwork` on a single `config.Listen` entry runs its loop body once. -/
theorem initNetwork_singleton (listenA : List Char) (os : Interfaces) (binder : PortBinder) :
    initNetwork [listenA] os binder = listenConfigured os binder Networks.empty listenA := by
  simp [initNetwork]

/-- An IPv6 literal in `config.Listen` opens no listener, whether bare or in brackets, though the
header of `Network Init.go` allows an IP with an optional port: the bare literal is skipped on
the `SplitHostPort` error, and the bracketed one reaches `networkPrepareListen` with its
brackets, which `ParseIP` rejects. -/
theorem ipv6_listen_entry_skipped (host : List Char) (ip : IP) (h : parseIP host = some ip)
    (h2 : 2 ≤ host.count ':') (os : Interfaces) (binder : PortBinder) :
    initNetwork [host] os binder = Networks.empty ∧
      initNetwork ['[' :: host ++ [']']] os binder = Networks.empty := by
  refine ⟨?_, ?_⟩ <;> rw [initNetwork_singleton, listenConfigured]
  · rw [listenRequest_of_two_colons host ip h h2]
  · rw [listenRequest_bracketed host ip h]
    simp [networkPrepareListen, parseIP_bracket]

theorem ipv6_listen_entry_skipped_db8 :
    2 ≤ "2001:db8::5".toList.count ':' ∧
      initNetwork ["2001:db8::5".toList] eth0Only firstFreeBinder = Networks.empty ∧
      initNetwork ['[' :: "2001:db8::5".toList ++ [']']] eth0Only firstFreeBinder =
        Networks.empty :=
  ⟨by decide, ipv6_listen_entry_skipped "2001:db8::5".toList ((parseIP _).get (by decide))
    (Option.some_get _).symm (by decide) eth0Only firstFreeBinder⟩

/-! ## The self-packet filter -/

/-- With `config.Listen = ["10.0.0.5:4000"]`, the listener on `10.0.0.5:4000` is registered,
but `IsAddressSelf` does not recognise its address: the explicit path never calls
`addListenAddress`. -/
theorem explicit_listener_not_self :
    (initNetwork ["10.0.0.5:4000".toList] eth0Only firstFreeBinder).registered.map (·.address) =
        [⟨ipv4 10 0 0 5, 4000⟩] ∧
      isAddressSelf (some ⟨ipv4 10 0 0 5, 4000⟩)
        (initNetwork ["10.0.0.5:4000".toList] eth0Only firstFreeBinder) = false := by
  decide

/-- The key `addListenAddress` records, `JoinHostPort(IP.String(), Itoa(Port))`, splits back
into the IP text and the decimal port: neither holds a bracket, and the port no colon. -/
theorem splitHostPort_listenKey (addr : UDPAddr) :
    splitHostPort (joinHostPort addr.ip.string (itoa addr.port)) =
      .ok (addr.ip.string, uitoa addr.port) := by
  have hhost : ∀ c ∈ addr.ip.string, ipTextChar c = true :=
    parseIP_alphabet _ _ (parseIP_string addr.ip)
  have hport : ∀ c ∈ uitoa addr.port, isDigit c = true := fun c hc => (mem_uitoa _ c hc).1
  have hitoa : itoa addr.port = uitoa addr.port := by simp [itoa]
  rw [hitoa]
  exact splitHostPort_joinHostPort _ _ (fun h => absurd (hport _ h) (by decide))
    ⟨fun h => absurd (hhost _ h) (by decide), fun h => absurd (hhost _ h) (by decide)⟩
    ⟨fun h => absurd (hport _ h) (by decide), fun h => absurd (hport _ h) (by decide)⟩

/-- Two addresses with the same listen-address key are the same address. -/
theorem listenKey_injective {a b : UDPAddr}
    (h : joinHostPort a.ip.string (itoa a.port) = joinHostPort b.ip.string (itoa b.port)) :
    a = b := by
  have hs := splitHostPort_listenKey a
  rw [h, splitHostPort_listenKey b, Except.ok.injEq, Prod.mk.injEq] at hs
  obtain ⟨hip, hport⟩ := hs
  cases a
  cases b
  exact congrArg₂ UDPAddr.mk (IP.string_injective hip).symm (uitoa_injective hport).symm

/-- After `addListenAddress a`, `IsAddressSelf` recognises `a` and what it recognised before. -/
theorem isAddressSelf_addListenAddress (a addr : UDPAddr) (st : Networks) :
    isAddressSelf (some addr) (addListenAddress a st) = true ↔
      addr = a ∨ isAddressSelf (some addr) st = true := by
  simp only [isAddressSelf, addListenAddress, decide_eq_true_eq, List.mem_insert_iff]
  exact or_congr_left ⟨listenKey_injective, fun h => h ▸ rfl⟩

end Peernet
