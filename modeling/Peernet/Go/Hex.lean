-- SUMMARY: Go's `encoding/hex` as `initPeerID` calls it: `EncodeToString`, `DecodeString` with its errors, and their round trip.
import Mathlib.Data.List.Basic

/-!
# Hexadecimal text

`hex.EncodeToString` and `hex.DecodeString` of Go's `encoding/hex`, on a string as its list of
characters (as in `Peernet.Go.Strings`). Decoding reads the text two characters at a time and
stops at the first character that is not a hex digit (`InvalidByteError`); a text of odd length
is reported (`ErrLength`) once its last character is checked.

Decoding the encoding of any bytes gives them back (`decodeString_encodeToString`), and a text
that decoding accepts is made of pairs of hex digits, one pair per byte (`decodeString_ok`).
-/

namespace Peernet.Go.hex

/-- The errors `Decode` returns: `ErrLength` and `InvalidByteError`. Their texts are only logged
by the caller, and are left out. -/
inductive DecodeError
  | errLength
  | invalidByteError (c : Char)
deriving DecidableEq, Repr

/-- `hextable`. -/
def hextable : List Char := "0123456789abcdef".toList

/-- The two characters `Encode` writes for the byte `v`: `hextable[v>>4]`, `hextable[v&0x0f]`. -/
def encodeByte (v : UInt8) : List Char :=
  [hextable.getD (v.toNat / 16) '0', hextable.getD (v.toNat % 16) '0']

/-- `EncodeToString`. -/
def encodeToString : List UInt8 → List Char
  | [] => []
  | v :: src => encodeByte v ++ encodeToString src

/-- `fromHexChar`: the value of a hex digit of either case. -/
def fromHexChar (c : Char) : Option Nat :=
  if '0' ≤ c ∧ c ≤ '9' then some (c.toNat - '0'.toNat)
  else if 'a' ≤ c ∧ c ≤ 'f' then some (c.toNat - 'a'.toNat + 10)
  else if 'A' ≤ c ∧ c ≤ 'F' then some (c.toNat - 'A'.toNat + 10)
  else none

/-- `Decode`, two characters at a time; `(a << 4) | b` of two digits is `a * 16 + b`. A last
lone character is checked before the odd length is reported. -/
def decode : List Char → Except DecodeError (List UInt8)
  | [] => .ok []
  | [c] => if (fromHexChar c).isSome then .error .errLength else .error (.invalidByteError c)
  | c :: d :: src =>
    match fromHexChar c, fromHexChar d with
    | none, _ => .error (.invalidByteError c)
    | some _, none => .error (.invalidByteError d)
    | some a, some b => (decode src).map (UInt8.ofNat (a * 16 + b) :: ·)

/-- `DecodeString`: the bytes, or the error. The bytes decoded before an error, which `Decode`
also returns, are left out: the caller reads only the error. -/
def decodeString (s : List Char) : Except DecodeError (List UInt8) := decode s

/-! ## Round trip -/

theorem fromHexChar_hextable : ∀ n : Fin 16, fromHexChar (hextable.getD n.val '0') = some n.val := by
  decide

theorem decode_encodeToString (src : List UInt8) : decode (encodeToString src) = .ok src := by
  induction src with
  | nil => rfl
  | cons v src ih =>
    have hv : v.toNat < 256 := v.toNat_lt_size
    have hi := fromHexChar_hextable ⟨v.toNat / 16, by omega⟩
    have lo := fromHexChar_hextable ⟨v.toNat % 16, by omega⟩
    have hval : v.toNat / 16 * 16 + v.toNat % 16 = v.toNat := by omega
    simp only [encodeToString, encodeByte, List.cons_append, List.nil_append, decode, hi, lo,
      List.append_eq, ih, Except.map, hval]
    rw [UInt8.toNat.inj (UInt8.toNat_ofNat_of_lt hv)]

/-- Decoding the encoding of any bytes gives them back. -/
theorem decodeString_encodeToString (src : List UInt8) :
    decodeString (encodeToString src) = .ok src :=
  decode_encodeToString src

/-! ## What decoding accepts -/

theorem decode_ok : ∀ {s : List Char} {b : List UInt8}, decode s = .ok b →
    s.length = 2 * b.length ∧ ∀ c ∈ s, (fromHexChar c).isSome
  | [], b, h => by
    cases h
    simp
  | [c], b, h => by
    simp only [decode] at h
    split at h <;> cases h
  | c :: d :: src, b, h => by
    simp only [decode] at h
    match hc : fromHexChar c, hd : fromHexChar d, hdec : decode src, h with
    | some x, some y, .ok b', h =>
      simp only [Except.map, Except.ok.injEq] at h
      subst h
      obtain ⟨hlen, hdig⟩ := decode_ok hdec
      refine ⟨by simp [hlen]; omega, fun e he => ?_⟩
      rcases List.mem_cons.mp he with rfl | he
      · simp [hc]
      rcases List.mem_cons.mp he with rfl | he
      · simp [hd]
      exact hdig e he

/-- A text that `DecodeString` accepts is made of hex digits, two per byte decoded. -/
theorem decodeString_ok {s : List Char} {b : List UInt8} (h : decodeString s = .ok b) :
    s.length = 2 * b.length ∧ ∀ c ∈ s, (fromHexChar c).isSome :=
  decode_ok h

/-- The text `0a` decodes to the byte `10`, two digits for one byte. -/
theorem decodeString_ok_0a :
    decodeString "0a".toList = .ok [10] ∧
      "0a".toList.length = 2 * [(10 : UInt8)].length ∧ ∀ c ∈ "0a".toList, (fromHexChar c).isSome :=
  have h : decodeString "0a".toList = .ok [10] := rfl
  ⟨h, decodeString_ok h⟩

end Peernet.Go.hex
