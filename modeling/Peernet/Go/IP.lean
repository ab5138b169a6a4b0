-- SUMMARY: Go's `net.IP`, `net.IPNet` and `net.UDPAddr`, with `IP.String` and `ParseIP` of the `net` package of Go 1.16.
import Peernet.Go.Strings

/-!
# IP addresses

A `net.IP` is a byte slice of length 4 or 16. Every IP this node handles comes from `ParseIP`
or from the interface enumeration, both of which return the 16-byte form (an IPv4 address as
`::ffff:a.b.c.d`), so `IP` is that form and `IP.Equal` is equality. Go names become lower camel case
(`ParseIP` is `parseIP`, the field `IP` is `ip`). `IP.String` prints an
IPv4-mapped address in dotted decimal and any other in hexadecimal groups with the longest run
of two or more zero groups shortened to `::`. `ParseIP` reads dotted decimal, or hexadecimal
groups with at most one `::` and an optional trailing dotted quad; it returns `nil` on
anything else. Both are written after the `net` package of Go 1.16.
-/

namespace Peernet.Go.net

open strconv

/-- A `net.IP` in its 16-byte form. -/
structure IP where
  bytes : List UInt8
  length_eq : bytes.length = 16
deriving DecidableEq

/-- `v4InV6Prefix`, the twelve bytes before an IPv4 address in the 16-byte form. -/
def v4InV6Prefix : List UInt8 := [0, 0, 0, 0, 0, 0, 0, 0, 0, 0, 0xff, 0xff]

/-- `net.IPv4(a, b, c, d)`. -/
def ipv4 (a b c d : UInt8) : IP := ⟨v4InV6Prefix ++ [a, b, c, d], rfl⟩

/-- `IP.To4`: the four bytes of an IPv4-mapped address. -/
def IP.to4 (ip : IP) : Option (List UInt8) :=
  if ip.bytes.take 12 = v4InV6Prefix then some (ip.bytes.drop 12) else none

/-- `IP.To16`: an IP in its 16-byte form is its own 16-byte form. -/
def IP.to16 (ip : IP) : Option (List UInt8) := some ip.bytes

/-- `IPv6loopback`, `::1`. -/
def ipv6loopback : IP := ⟨List.replicate 15 0 ++ [1], by simp⟩

/-- `IPv4zero`, the IPv4 address `0.0.0.0`. -/
def IPv4zero : IP := ipv4 0 0 0 0

/-- `IPv6unspecified`, the IPv6 address `::`. -/
def IPv6unspecified : IP := ⟨List.replicate 16 0, by simp⟩

/-- `IP.IsLoopback`. -/
def IP.isLoopback (ip : IP) : Bool :=
  match ip.to4 with
  | some ip4 => ip4.head? = some 127
  | none => ip = ipv6loopback

/-! ## Printing -/

/-- The 16-bit groups of a byte list, high byte first. -/
def groupsOf : List UInt8 → List Nat
  | a :: b :: rest => (a.toNat * 256 + b.toNat) :: groupsOf rest
  | _ => []

/-- The eight 16-bit groups `IP.String` prints. -/
def IP.groups (ip : IP) : List Nat := groupsOf ip.bytes

/-- The number of zero groups at the head of `gs`. -/
def zeroRun (gs : List Nat) : Nat := (gs.takeWhile (· = 0)).length

/-- The search of `IP.String` for the longest run of zero groups, in group units: from group `i`
with the best run so far `[e0, e1)`, a longer run is taken and the search resumes after it. -/
def zeroRunSearch : (fuel : Nat) → List Nat → Nat → Int × Int → Int × Int
  | 0, _, _, best => best
  | fuel + 1, gs, i, (e0, e1) =>
    if i < gs.length then
      let run := zeroRun (gs.drop i)
      if 0 < run ∧ e1 - e0 < run then zeroRunSearch fuel gs (i + run + 1) (i, i + run)
      else zeroRunSearch fuel gs (i + 1) (e0, e1)
    else (e0, e1)

/-- `appendHex`: lower-case hexadecimal without leading zeros. -/
def appendHex (n : Nat) : List Char := Nat.toDigits 16 n

/-- Groups in hexadecimal, separated by colons: what the printing loop of `IP.String` emits for
groups it prints one after another. -/
def joinGroups : List Nat → List Char
  | [] => []
  | [g] => appendHex g
  | g :: g' :: gs => appendHex g ++ ':' :: joinGroups (g' :: gs)

/-- `IP.String`: dotted decimal for an IPv4-mapped address; otherwise the groups, with the
longest run of at least two zero groups (the first of equal ones) printed as `::`. -/
def IP.string (ip : IP) : List Char :=
  match ip.to4 with
  | some [a, b, c, d] =>
    uitoa a.toNat ++ '.' :: uitoa b.toNat ++ '.' :: uitoa c.toNat ++ '.' :: uitoa d.toNat
  | some _ => []
  | none =>
    let (e0, e1) := zeroRunSearch 8 ip.groups 0 (-1, -1)
    if e1 - e0 ≤ 1 then joinGroups ip.groups
    else joinGroups (ip.groups.take e0.toNat) ++ ':' :: ':' :: joinGroups (ip.groups.drop e1.toNat)

/-! ## Parsing -/

/-- `big`, the bound past which `dtoi` and `xtoi` give up. -/
def big : Nat := 0xFFFFFF

/-- `dtoi` from the value `n` read so far (`read` whether a digit was): the value and the rest
of the input, or `none` when no digit is read or the value reaches `big`. -/
def dtoiLoop : List Char → Nat → Bool → Option (Nat × List Char)
  | [], n, read => if read then some (n, []) else none
  | c :: cs, n, read =>
    if isDigit c then
      let n := n * 10 + (c.toNat - '0'.toNat)
      if big ≤ n then none else dtoiLoop cs n true
    else if read then some (n, c :: cs) else none

/-- `dtoi`: decimal to integer. -/
def dtoi (s : List Char) : Option (Nat × List Char) := dtoiLoop s 0 false

/-- The value of a hexadecimal digit. -/
def hexValue (c : Char) : Option Nat :=
  if '0' ≤ c ∧ c ≤ '9' then some (c.toNat - '0'.toNat)
  else if 'a' ≤ c ∧ c ≤ 'f' then some (c.toNat - 'a'.toNat + 10)
  else if 'A' ≤ c ∧ c ≤ 'F' then some (c.toNat - 'A'.toNat + 10)
  else none

/-- `xtoi` from the value `n` read so far, as `dtoiLoop`. -/
def xtoiLoop : List Char → Nat → Bool → Option (Nat × List Char)
  | [], n, read => if read then some (n, []) else none
  | c :: cs, n, read =>
    match hexValue c with
    | some d =>
      let n := n * 16 + d
      if big ≤ n then none else xtoiLoop cs n true
    | none => if read then some (n, c :: cs) else none

/-- `xtoi`: hexadecimal to integer. -/
def xtoi (s : List Char) : Option (Nat × List Char) := xtoiLoop s 0 false

/-- The loop of `parseIPv4` from field `i`, with the fields read so far. -/
def parseIPv4Fields : (fuel : Nat) → List Char → List UInt8 → Option (List UInt8 × List Char)
  | 0, s, p => some (p, s)
  | fuel + 1, s, p =>
    if s = [] then none
    else
      let s' := if p = [] then some s else if s.head? = some '.' then some s.tail else none
      match s' with
      | none => none
      | some s' =>
        match dtoi s' with
        | some (n, rest) => if 0xFF < n then none else parseIPv4Fields fuel rest (p ++ [n.toUInt8])
        | none => none

/-- `parseIPv4`: four decimal fields separated by dots, and nothing after them. -/
def parseIPv4 (s : List Char) : Option IP :=
  match parseIPv4Fields 4 s [] with
  | some ([a, b, c, d], []) => some (ipv4 a b c d)
  | _ => none

/-- The loop of `parseIPv6` over the rest `s`, with the bytes `ip` filled so far (`i` is their
number) and the position of the ellipsis: the rest, the bytes and the ellipsis when the loop
ends, or `none` where `parseIPv6` returns `nil`. Each round fills two bytes, so eight rounds
reach `i = 16`. -/
def parseIPv6Loop : (fuel : Nat) → List Char → List UInt8 → Option Nat →
    Option (List Char × List UInt8 × Option Nat)
  | 0, s, ip, ellipsis => some (s, ip, ellipsis)
  | fuel + 1, s, ip, ellipsis =>
    if ip.length < 16 then
      match xtoi s with
      | none => none
      | some (n, rest) =>
        if 0xFFFF < n then none
        else if rest.head? = some '.' then
          if ellipsis = none ∧ ip.length ≠ 12 then none
          else if 16 < ip.length + 4 then none
          else match parseIPv4 s with
            | none => none
            | some ip4 => some ([], ip ++ ip4.bytes.drop 12, ellipsis)
        else
          let ip := ip ++ [(n / 256).toUInt8, (n % 256).toUInt8]
          match rest with
          | [] => some ([], ip, ellipsis)
          | [_] => none
          | c :: d :: t =>
            if c ≠ ':' then none
            else if d = ':' then
              if ellipsis.isSome then none
              else if t = [] then some ([], ip, some ip.length)
              else parseIPv6Loop fuel t ip (some ip.length)
            else parseIPv6Loop fuel (d :: t) ip ellipsis
    else some (s, ip, ellipsis)

/-- The start of `parseIPv6`: a leading `::` is the ellipsis, before byte 0. -/
def leadingEllipsis (s : List Char) : List Char × Option Nat :=
  match s with
  | ':' :: ':' :: t => (t, some 0)
  | _ => (s, none)

/-- The end of `parseIPv6`: a short address needs the ellipsis, which is widened to the missing
zero bytes, and a full one must not have it. -/
def finishIPv6 (ip : List UInt8) (ellipsis : Option Nat) : Option IP :=
  if ip.length < 16 then
    match ellipsis with
    | none => none
    | some e =>
      let bytes := ip.take e ++ List.replicate (16 - ip.length) 0 ++ ip.drop e
      if hb : bytes.length = 16 then some ⟨bytes, hb⟩ else none
  else if hb : ip.length = 16 then
    if ellipsis.isSome then none else some ⟨ip, hb⟩
  else none

/-- `parseIPv6`: a text that is only `::` is the zero address; otherwise the loop must use up
the input. -/
def parseIPv6 (s : List Char) : Option IP :=
  let (s, ellipsis) := leadingEllipsis s
  if s = [] ∧ ellipsis = some 0 then some ⟨List.replicate 16 0, by simp⟩
  else
    match parseIPv6Loop 8 s [] ellipsis with
    | some ([], ip, ellipsis) => finishIPv6 ip ellipsis
    | _ => none

/-- The characters `ParseIP` looks for to tell the two forms apart. -/
def isDotOrColon (c : Char) : Bool := c = '.' || c = ':'

/-- `ParseIP`: the first dot or colon decides between the two forms. -/
def parseIP (s : List Char) : Option IP :=
  match s.find? isDotOrColon with
  | some '.' => parseIPv4 s
  | some _ => parseIPv6 s
  | none => none

/-! ## Addresses -/

/-- A `net.IPNet` as interface enumeration reports it: the interface's IP and its mask
`CIDRMask(prefixLen, 8 * maskLen)`, of `maskLen` bytes. An `AF_INET` address comes with an IPv4
IP and a 4-byte mask, an `AF_INET6` one with a 16-byte mask, whatever its IP. -/
structure IPNet where
  ip : IP
  prefixLen : Nat
  maskLen : Nat
  mask_valid : (maskLen = 4 ∧ ip.to4.isSome ∧ prefixLen ≤ 32) ∨ (maskLen = 16 ∧ prefixLen ≤ 128)
deriving DecidableEq

/-- `IPNet.String` through `networkNumberAndMask`: the IP in its `To4` form when it has one, a
slash and the ones of the mask. A 16-byte mask of an IPv4 IP is cut to its last four bytes
(`m[12:]`), which hold `prefixLen - 96` ones; a 4-byte mask of an IPv6 IP prints `<nil>`. -/
def IPNet.string (n : IPNet) : List Char :=
  match n.ip.to4, n.maskLen with
  | some _, 4 => n.ip.string ++ '/' :: uitoa n.prefixLen
  | some _, 16 => n.ip.string ++ '/' :: uitoa (n.prefixLen - 96)
  | none, 16 => n.ip.string ++ '/' :: uitoa n.prefixLen
  | _, _ => "<nil>".toList

/-- A `net.UDPAddr`; the zone, which no modelled function reads, is left out. -/
structure UDPAddr where
  ip : IP
  port : Nat
deriving DecidableEq

end Peernet.Go.net
