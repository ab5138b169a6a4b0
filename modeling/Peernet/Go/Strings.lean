-- SUMMARY: The parts of Go's `strings` and `strconv` packages the node calls, on strings as character lists.
import Mathlib.Data.List.Basic
import Mathlib.Data.Nat.Digits

/-!
# Go strings and integers

`strings.Contains`, `strconv.Itoa` and `strconv.Atoi` as the Go standard library computes them.
A Go string is a sequence of bytes; the node only reads ASCII text from these functions, so a
string is modelled as its list of characters. Where the library looks at the byte length
(`Atoi` picks its fast path on it), the character count is used: the two differ only on
non-ASCII text, which both paths reject with the same result.
-/

namespace Peernet.Go

namespace strings

/-- `strings.Contains`. -/
def contains (s sub : List Char) : Bool :=
  sub.isPrefixOf s || match s with
    | [] => false
    | _ :: t => contains t sub

theorem contains_append_left (s t sub : List Char) (h : contains t sub) :
    contains (s ++ t) sub := by
  induction s with
  | nil => exact h
  | cons c s ih => simp [contains, ih]

theorem contains_of_isPrefixOf (s sub : List Char) (h : sub.isPrefixOf s) : contains s sub := by
  cases s <;> simp [contains, h]

/-- A text lacking a character of `sub` does not contain `sub`. -/
theorem contains_eq_false (s sub : List Char) (c : Char) (hc : c ∈ sub) (hs : c ∉ s) :
    contains s sub = false := by
  have hpre : ∀ t : List Char, c ∉ t → sub.isPrefixOf t = false := fun t ht => by
    by_contra hp
    exact ht ((List.isPrefixOf_iff_prefix.mp (by simpa using hp)).subset hc)
  induction s with
  | nil => simp [contains, hpre [] (List.not_mem_nil c)]
  | cons x s ih =>
    simp only [contains, hpre _ hs, Bool.false_or]
    exact ih fun h => hs (List.mem_cons_of_mem _ h)

end strings

namespace strconv

/-- `uitoa` / `FormatUint(n, 10)`: the decimal digits of `n`, most significant first. -/
def uitoa (n : Nat) : List Char := Nat.toDigits 10 n

/-- `strconv.Itoa`. -/
def itoa (n : Int) : List Char :=
  if n < 0 then '-' :: uitoa n.natAbs else uitoa n.toNat

/-- Whether `c` is a decimal digit byte. -/
def isDigit (c : Char) : Bool := '0' ≤ c && c ≤ '9'

/-- The value of a run of decimal digits read after the value `n`, or `none` at a non-digit:
the digit loop of `Atoi`'s fast path. -/
def digitsValue : List Char → Nat → Option Nat
  | [], n => some n
  | c :: cs, n => if isDigit c then digitsValue cs (n * 10 + (c.toNat - '0'.toNat)) else none

/-- `1 << 64`, the bound of `uint64`. -/
def uint64Bound : Nat := 18446744073709551616

/-- `1 << 63`, the `cutoff` of `ParseInt` for 64 bits. -/
def int64Cutoff : Nat := 9223372036854775808

/-- Why `ParseUint` failed: `ErrSyntax` or `ErrRange`. -/
inductive NumError
  | invalid
  | outOfRange
deriving DecidableEq, Repr

/-- The digit loop of `ParseUint(s, 10, 64)` from the value `n`: it fails with a range error as
soon as the value leaves 64 bits, and with a syntax error at a non-digit reached before that. -/
def parseUintLoop : List Char → Nat → Except NumError Nat
  | [], n => .ok n
  | c :: cs, n =>
    if isDigit c then
      let n1 := n * 10 + (c.toNat - '0'.toNat)
      if uint64Bound ≤ n1 then .error .outOfRange else parseUintLoop cs n1
    else .error .invalid

/-- `ParseInt(s, 10, 0)` on a 64-bit platform: the value, which is clamped to the `int64` range on
a range error and `0` on a syntax error, and whether `err == nil`. -/
def parseInt (s : List Char) : Int × Bool :=
  match s with
  | [] => (0, false)
  | c :: rest =>
    let (neg, t) : Bool × List Char :=
      if c = '+' then (false, rest) else if c = '-' then (true, rest) else (false, c :: rest)
    let un : Except NumError Nat :=
      if t = [] then .error .invalid else parseUintLoop t 0
    match un with
    | .error .invalid => (0, false)
    | un =>
      let u : Nat := match un with | .ok u => u | .error _ => uint64Bound - 1
      let ok : Bool := match un with | .ok _ => true | .error _ => false
      if !neg && int64Cutoff ≤ u then (int64Cutoff - 1, false)
      else if neg && int64Cutoff < u then (-(int64Cutoff : Int), false)
      else (if neg then -(u : Int) else u, ok)

/-- `strconv.Atoi` on a 64-bit platform: the value it returns, and whether `err == nil`. -/
def atoi (s : List Char) : Int × Bool :=
  if 0 < s.length ∧ s.length < 19 then
    match s with
    | [] => (0, false)
    | c :: rest =>
      let (neg, t) : Bool × List Char :=
        if c = '-' then (true, rest) else if c = '+' then (false, rest) else (false, c :: rest)
      if t = [] then (0, false)
      else match digitsValue t 0 with
        | none => (0, false)
        | some n => (if neg then -(n : Int) else n, true)
  else parseInt s

/-! ### Decimal digits -/

theorem toDigitsCore_append (b fuel n : Nat) (ds : List Char) :
    Nat.toDigitsCore b fuel n ds = Nat.toDigitsCore b fuel n [] ++ ds := by
  induction fuel generalizing n ds with
  | zero => rfl
  | succ fuel ih =>
    simp only [Nat.toDigitsCore]
    split
    · rfl
    · rw [ih _ (_ :: ds), ih _ [_]]
      simp

theorem toDigitsCore_fuel (b : Nat) (hb : 2 ≤ b) (f g n : Nat) (hf : n < f) (hg : n < g)
    (ds : List Char) : Nat.toDigitsCore b f n ds = Nat.toDigitsCore b g n ds := by
  induction f generalizing g n ds with
  | zero => omega
  | succ f ih =>
    obtain ⟨g, rfl⟩ : ∃ g', g = g' + 1 := ⟨g - 1, by omega⟩
    simp only [Nat.toDigitsCore]
    split
    · rfl
    · rename_i h
      have : n / b < n := Nat.div_lt_self (Nat.pos_of_ne_zero (by rintro rfl; simp at h)) hb
      exact ih _ _ (by omega) (by omega) _

/-- The digits of `n` in base `b`: those of `n / b` unless it is zero, then the last one. -/
theorem toDigits_eq (b : Nat) (hb : 2 ≤ b) (n : Nat) :
    Nat.toDigits b n =
      (if n / b = 0 then [] else Nat.toDigits b (n / b)) ++ [Nat.digitChar (n % b)] := by
  unfold Nat.toDigits
  rw [Nat.toDigitsCore]
  split
  · simp [*]
  · rename_i h
    rw [toDigitsCore_append, toDigitsCore_fuel b hb n (n / b + 1) (n / b)
      (Nat.div_lt_self (Nat.pos_of_ne_zero (by rintro rfl; simp at h)) hb) (by omega)]

theorem toDigits_ne_nil (b n : Nat) : Nat.toDigits b n ≠ [] := by
  unfold Nat.toDigits
  rw [Nat.toDigitsCore]
  split
  · simp
  · rw [toDigitsCore_append]
    simp

theorem digitChar_dec (d : Nat) (h : d < 10) :
    isDigit (Nat.digitChar d) = true ∧ (Nat.digitChar d).toNat - '0'.toNat = d := by
  revert d
  decide

theorem mem_toDigits (b : Nat) (hb : 2 ≤ b) (n : Nat) (c : Char) (h : c ∈ Nat.toDigits b n) :
    ∃ d < b, c = Nat.digitChar d := by
  induction n using Nat.strong_induction_on with
  | _ n ih =>
    rw [toDigits_eq b hb] at h
    simp only [List.mem_append, List.mem_singleton] at h
    rcases h with h | rfl
    · split at h
      · simp at h
      · rename_i h0
        exact ih _ (Nat.div_lt_self (Nat.pos_of_ne_zero (by rintro rfl; simp at h0)) hb) h
    · exact ⟨n % b, Nat.mod_lt _ (by omega), rfl⟩

/-- `uitoa n`: the digits of `n / 10`, unless that is zero, then the last digit. -/
theorem uitoa_eq (n : Nat) :
    uitoa n = (if n / 10 = 0 then [] else uitoa (n / 10)) ++ [Nat.digitChar (n % 10)] :=
  toDigits_eq 10 (by omega) n

theorem uitoa_ne_nil (n : Nat) : uitoa n ≠ [] := toDigits_ne_nil 10 n

/-- The fast-path digit loop of `Atoi` reads the digits of `n` after the value `m`. -/
theorem digitsValue_uitoa (n m : Nat) (rest : List Char) :
    digitsValue (uitoa n ++ rest) m = digitsValue rest (m * 10 ^ (uitoa n).length + n) := by
  induction n using Nat.strong_induction_on generalizing m rest with
  | _ n ih =>
    have hd := digitChar_dec (n % 10) (Nat.mod_lt _ (by omega))
    have hn := Nat.div_add_mod n 10
    have hu := uitoa_eq n
    by_cases h0 : n / 10 = 0
    · rw [if_pos h0, List.nil_append] at hu
      rw [hu]
      simp only [List.singleton_append, digitsValue, hd.1, if_true, hd.2, List.length_singleton,
        Nat.pow_one]
      congr 1
      omega
    · rw [if_neg h0] at hu
      rw [hu, List.append_assoc, ih (n / 10) (Nat.div_lt_self (by omega) (by omega)) m,
        List.singleton_append]
      simp only [digitsValue, hd.1, if_true, hd.2, List.length_append, List.length_singleton,
        Nat.pow_succ, ← Nat.mul_assoc]
      congr 1
      omega

theorem uitoa_injective {m n : Nat} (h : uitoa m = uitoa n) : m = n := by
  have hm := digitsValue_uitoa m 0 []
  have hn := digitsValue_uitoa n 0 []
  simp only [List.append_nil, Nat.zero_mul, Nat.zero_add, digitsValue] at hm hn
  rw [h, hn] at hm
  exact (Option.some.inj hm).symm

theorem length_uitoa_le (n k : Nat) (hk : 0 < k) (h : n < 10 ^ k) : (uitoa n).length ≤ k := by
  induction k generalizing n with
  | zero => omega
  | succ k ih =>
    rw [uitoa_eq]
    split
    · simp
    · rename_i h0
      have : n / 10 < 10 ^ k := by rw [Nat.pow_succ] at h; omega
      have hk' : 0 < k := by
        rcases Nat.eq_zero_or_pos k with rfl | hk'
        · simp at this; omega
        · exact hk'
      simpa using ih _ hk' this

/-- The decimal digits of a number start with a digit, which is no sign. -/
theorem uitoa_eq_cons (p : Nat) : ∃ c cs, uitoa p = c :: cs ∧ c ≠ '-' ∧ c ≠ '+' := by
  obtain ⟨c, cs, hcs⟩ := List.exists_cons_of_ne_nil (uitoa_ne_nil p)
  obtain ⟨d, hd, rfl⟩ := mem_toDigits 10 (by omega) p c (by rw [uitoa] at hcs; simp [hcs])
  refine ⟨_, cs, hcs, ?_⟩
  clear hcs
  revert d
  decide

/-- `Atoi` reads back `Itoa` of a natural number of at most 18 digits. -/
theorem atoi_uitoa (p : Nat) (hp : p < 10 ^ 18) : atoi (uitoa p) = ((p : Int), true) := by
  have hlen := length_uitoa_le p 18 (by omega) hp
  obtain ⟨c, cs, hcs, hsign⟩ := uitoa_eq_cons p
  have hval := digitsValue_uitoa p 0 []
  simp only [List.append_nil, Nat.zero_mul, Nat.zero_add, digitsValue] at hval
  rw [hcs] at hlen hval
  rw [hcs]
  unfold atoi
  rw [if_pos ⟨by simp, by omega⟩]
  simp [hsign.1, hsign.2, hval]

theorem lt_pow_length_uitoa (n : Nat) : n < 10 ^ (uitoa n).length := by
  induction n using Nat.strong_induction_on with
  | _ n ih =>
    rw [uitoa_eq]
    split
    · simp only [List.nil_append, List.length_singleton, Nat.pow_one]
      omega
    · rename_i h0
      have := ih (n / 10) (Nat.div_lt_self (by omega) (by omega))
      simp only [List.length_append, List.length_singleton, Nat.pow_succ]
      omega

/-- The digit loop of `ParseUint` on digits either leaves 64 bits or reads their value. -/
theorem parseUintLoop_digits (t : List Char) (n : Nat) (h : ∀ c ∈ t, isDigit c = true) :
    parseUintLoop t n = .error .outOfRange ∨ ∃ v, parseUintLoop t n = .ok v ∧ digitsValue t n = some v := by
  induction t generalizing n with
  | nil => exact .inr ⟨n, rfl, rfl⟩
  | cons c t ih =>
    simp only [parseUintLoop, digitsValue, h c (List.mem_cons_self _ _), if_true]
    split
    · exact .inl rfl
    · exact ih _ fun x hx => h x (List.mem_cons_of_mem _ hx)

/-- `Atoi` of a number past `int64` returns the largest `int64`, with the range error. -/
theorem atoi_uitoa_of_le (p : Nat) (hp : int64Cutoff ≤ p) :
    atoi (uitoa p) = (9223372036854775807, false) := by
  rw [int64Cutoff] at hp
  have hlen : ¬ (0 < (uitoa p).length ∧ (uitoa p).length < 19) := fun ⟨_, h⟩ => by
    have := Nat.pow_le_pow_right (by omega : 0 < 10) (Nat.le_of_lt_succ h)
    have := lt_pow_length_uitoa p
    omega
  have hdig : ∀ c ∈ uitoa p, isDigit c = true := fun c hc => by
    obtain ⟨d, hd, rfl⟩ := mem_toDigits 10 (by omega) p c hc
    exact (digitChar_dec d hd).1
  have hval := digitsValue_uitoa p 0 []
  simp only [List.append_nil, Nat.zero_mul, Nat.zero_add, digitsValue] at hval
  obtain ⟨c, cs, hcs, hsign⟩ := uitoa_eq_cons p
  unfold atoi parseInt
  rw [if_neg hlen, hcs]
  rw [hcs] at hdig hval
  rcases parseUintLoop_digits _ 0 hdig with hu | ⟨v, hu, hv⟩
  · simp [hsign.1, hsign.2, hu, int64Cutoff, uint64Bound]
  · obtain rfl : v = p := Option.some.inj (hv.symm.trans hval)
    simp [hsign.1, hsign.2, hu, int64Cutoff, hp]

/-- `Atoi` of a text without digits is `0`, with an error. -/
theorem atoi_of_no_digit (s : List Char) (h : ∀ c ∈ s, isDigit c = false) : atoi s = (0, false) := by
  have hdv : ∀ t : List Char, (∀ c ∈ t, isDigit c = false) → t ≠ [] → digitsValue t 0 = none := by
    rintro (_ | ⟨c, t⟩) hc ht
    · contradiction
    · simp only [digitsValue, hc c (List.mem_cons_self _ _), Bool.false_eq_true, if_false]
  have hpu : ∀ t : List Char, (∀ c ∈ t, isDigit c = false) → t ≠ [] →
      parseUintLoop t 0 = .error .invalid := by
    rintro (_ | ⟨c, t⟩) hc ht
    · contradiction
    · simp only [parseUintLoop, hc c (List.mem_cons_self _ _), Bool.false_eq_true, if_false]
  cases s with
  | nil => rfl
  | cons c rest =>
    -- the sign step leaves `rest` or the whole text, and both loops stop at its first byte
    have hrest : ∀ x ∈ rest, isDigit x = false := fun x hx => h x (List.mem_cons_of_mem _ hx)
    have hdv0 := hdv _ h (List.cons_ne_nil _ _)
    have hpu0 := hpu _ h (List.cons_ne_nil _ _)
    unfold atoi parseInt
    by_cases hr : rest = []
    · subst hr
      by_cases hm : c = '-' <;> by_cases hp : c = '+' <;> simp [hm, hp, hdv0, hpu0]
    · by_cases hm : c = '-' <;> by_cases hp : c = '+' <;>
        simp [hm, hp, hr, hdv0, hpu0, hdv _ hrest hr, hpu _ hrest hr]

end strconv

end Peernet.Go
