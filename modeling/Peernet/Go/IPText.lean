-- SUMMARY: `ParseIP` reads back every text `IP.String` prints, and the alphabet of the texts `ParseIP` accepts.
import Peernet.Go.IP

/-!
# IP texts

`parseIP ip.string = some ip` for every IP (`parseIP_string`), so `IP.String` is injective, and
the text `IPNet.String` prints for an address names its IP (`IPNet.ipOfString_string`). It tells
addresses apart only when the IPv4 ones come with 4-byte masks (`IPNet.string_injective`): Go
prints an IPv4 IP with a 16-byte mask with the prefix less 96. The interface monitor compares
addresses by their texts and opens listeners on the text of an IP (`ipText_round_trip`). A text
`ParseIP` accepts holds only hexadecimal digits, dots and colons (`parseIP_alphabet`), so
`JoinHostPort` never brackets it in a way `SplitHostPort` misreads.
-/

namespace Peernet.Go.net

open strconv

/-! ## Digits -/

theorem hexValue_digitChar (d : Nat) (h : d < 16) : hexValue (Nat.digitChar d) = some d := by
  revert d
  decide

theorem mem_uitoa (n : Nat) (c : Char) (h : c ∈ uitoa n) :
    isDigit c = true ∧ c ≠ ':' ∧ c ≠ '.' ∧ c ≠ '/' := by
  obtain ⟨d, hd, rfl⟩ := mem_toDigits 10 (by omega) n c h
  clear h
  revert d
  decide

theorem mem_appendHex (n : Nat) (c : Char) (h : c ∈ appendHex n) :
    (hexValue c).isSome ∧ c ≠ ':' ∧ c ≠ '.' ∧ c ≠ '/' ∧ c ≠ '[' ∧ c ≠ ']' := by
  obtain ⟨d, hd, rfl⟩ := mem_toDigits 16 (by omega) n c h
  clear h
  revert d
  decide

/-- `dtoi` reads the decimal digits of `n` after the value `m`. -/
theorem dtoiLoop_uitoa (n m : Nat) (r : Bool) (rest : List Char)
    (h : m * 10 ^ (uitoa n).length + n < big) :
    dtoiLoop (uitoa n ++ rest) m r = dtoiLoop rest (m * 10 ^ (uitoa n).length + n) true := by
  induction n using Nat.strong_induction_on generalizing m rest with
  | _ n ih =>
    have hd := digitChar_dec (n % 10) (Nat.mod_lt _ (by omega))
    have hn := Nat.div_add_mod n 10
    have hu := uitoa_eq n
    by_cases h0 : n / 10 = 0
    · rw [if_pos h0, List.nil_append] at hu
      rw [hu] at h ⊢
      simp only [List.length_singleton, Nat.pow_one] at h ⊢
      simp only [List.singleton_append, dtoiLoop, hd.1, if_true, hd.2]
      rw [if_neg (by omega)]
      congr 1
      omega
    · rw [if_neg h0] at hu
      rw [hu] at h ⊢
      simp only [List.length_append, List.length_singleton, Nat.pow_succ, ← Nat.mul_assoc] at h ⊢
      rw [List.append_assoc, ih (n / 10) (Nat.div_lt_self (by omega) (by omega)) m _ (by omega),
        List.singleton_append]
      simp only [dtoiLoop, hd.1, if_true, hd.2]
      rw [if_neg (by omega)]
      congr 1
      omega

theorem dtoiLoop_stop (rest : List Char) (v : Nat)
    (h : ∀ c ∈ rest.head?, isDigit c = false) : dtoiLoop rest v true = some (v, rest) := by
  cases rest with
  | nil => rfl
  | cons c rest => simp [dtoiLoop, h c rfl]

/-- `dtoi` reads back `uitoa n`, and stops at the next non-digit. -/
theorem dtoi_uitoa (n : Nat) (rest : List Char) (hn : n < big)
    (h : ∀ c ∈ rest.head?, isDigit c = false) : dtoi (uitoa n ++ rest) = some (n, rest) := by
  rw [dtoi, dtoiLoop_uitoa n 0 false rest (by simpa using hn)]
  simpa using dtoiLoop_stop rest n h

/-- `appendHex n`: the digits of `n / 16`, unless that is zero, then the last digit. -/
theorem appendHex_eq (n : Nat) :
    appendHex n = (if n / 16 = 0 then [] else appendHex (n / 16)) ++ [Nat.digitChar (n % 16)] :=
  toDigits_eq 16 (by omega) n

/-- `xtoi` reads the hexadecimal digits of `n` after the value `m`. -/
theorem xtoiLoop_appendHex (n m : Nat) (r : Bool) (rest : List Char)
    (h : m * 16 ^ (appendHex n).length + n < big) :
    xtoiLoop (appendHex n ++ rest) m r = xtoiLoop rest (m * 16 ^ (appendHex n).length + n) true := by
  induction n using Nat.strong_induction_on generalizing m rest with
  | _ n ih =>
    have hd := hexValue_digitChar (n % 16) (Nat.mod_lt _ (by omega))
    have hn := Nat.div_add_mod n 16
    have hu := appendHex_eq n
    by_cases h0 : n / 16 = 0
    · rw [if_pos h0, List.nil_append] at hu
      rw [hu] at h ⊢
      simp only [List.length_singleton, Nat.pow_one] at h ⊢
      simp only [List.singleton_append, xtoiLoop, hd]
      rw [if_neg (by omega)]
      congr 1
      omega
    · rw [if_neg h0] at hu
      rw [hu] at h ⊢
      simp only [List.length_append, List.length_singleton, Nat.pow_succ, ← Nat.mul_assoc] at h ⊢
      rw [List.append_assoc, ih (n / 16) (Nat.div_lt_self (by omega) (by omega)) m _ (by omega),
        List.singleton_append]
      simp only [xtoiLoop, hd]
      rw [if_neg (by omega)]
      congr 1
      omega

/-- `xtoi` reads back `appendHex n`, and stops at the next character that is no hexadecimal
digit. -/
theorem xtoi_appendHex (n : Nat) (rest : List Char) (hn : n < big)
    (h : ∀ c ∈ rest.head?, hexValue c = none) : xtoi (appendHex n ++ rest) = some (n, rest) := by
  rw [xtoi, xtoiLoop_appendHex n 0 false rest (by simpa using hn)]
  cases rest with
  | nil => simp [xtoiLoop]
  | cons c rest => simp [xtoiLoop, h c rfl]

theorem appendHex_ne_nil (n : Nat) : appendHex n ≠ [] := toDigits_ne_nil 16 n


/-- A text whose first dot or colon is a dot, after a part with neither. -/
theorem find?_dotOrColon_dot (s rest : List Char) (h : ∀ c ∈ s, c ≠ ':' ∧ c ≠ '.') :
    (s ++ '.' :: rest).find? isDotOrColon = some '.' := by
  rw [List.find?_append, List.find?_eq_none.mpr fun c hc => by
    simp [isDotOrColon, (h c hc).1, (h c hc).2]]
  simp [isDotOrColon]

/-! ## Dotted quads -/

theorem toUInt8_toNat (a : UInt8) : a.toNat.toUInt8 = a :=
  UInt8.toNat.inj (UInt8.toNat_ofNat_of_lt a.toNat_lt_size)

theorem IP.ext_bytes {a b : IP} (h : a.bytes = b.bytes) : a = b := by
  cases a
  cases b
  simp_all

theorem byte_lt_big (x : UInt8) : x.toNat < big := by
  have : x.toNat < 256 := x.toNat_lt_size
  unfold big
  omega

theorem isDigit_dot : isDigit '.' = false := by decide

/-- The first field of a dotted quad. -/
theorem parseIPv4Fields_first (k : Nat) (x : UInt8) (rest : List Char)
    (h : ∀ c ∈ rest.head?, isDigit c = false) :
    parseIPv4Fields (k + 1) (uitoa x.toNat ++ rest) [] = parseIPv4Fields k rest [x] := by
  have hx : x.toNat < 256 := x.toNat_lt_size
  rw [parseIPv4Fields, if_neg (by simp [uitoa_ne_nil])]
  simp only [if_true, dtoi_uitoa x.toNat rest (byte_lt_big x) h]
  rw [if_neg (by omega), List.nil_append, toUInt8_toNat]

/-- A later field of a dotted quad, after its dot. -/
theorem parseIPv4Fields_next (k : Nat) (x : UInt8) (p : List UInt8) (hp : p ≠ [])
    (rest : List Char) (h : ∀ c ∈ rest.head?, isDigit c = false) :
    parseIPv4Fields (k + 1) ('.' :: (uitoa x.toNat ++ rest)) p = parseIPv4Fields k rest (p ++ [x]) := by
  have hx : x.toNat < 256 := x.toNat_lt_size
  rw [parseIPv4Fields, if_neg (by simp)]
  simp only [hp, if_false, List.head?_cons, List.tail_cons, if_true,
    dtoi_uitoa x.toNat rest (byte_lt_big x) h]
  rw [if_neg (by omega), toUInt8_toNat]

/-- The dotted quad of four bytes. -/
def dotted (a b c d : UInt8) : List Char :=
  uitoa a.toNat ++ '.' :: uitoa b.toNat ++ '.' :: uitoa c.toNat ++ '.' :: uitoa d.toNat

theorem parseIPv4_dotted (a b c d : UInt8) : parseIPv4 (dotted a b c d) = some (ipv4 a b c d) := by
  simp only [dotted, List.append_assoc, List.cons_append]
  rw [parseIPv4, parseIPv4Fields_first 3 a _ (by simp [isDigit_dot]),
    parseIPv4Fields_next 2 b _ (by simp) _ (by simp [isDigit_dot]),
    parseIPv4Fields_next 1 c _ (by simp) _ (by simp [isDigit_dot]),
    ← List.append_nil (uitoa d.toNat), parseIPv4Fields_next 0 d _ (by simp) _ (by simp)]
  rfl

theorem parseIP_dotted (a b c d : UInt8) : parseIP (dotted a b c d) = some (ipv4 a b c d) := by
  have hfind := find?_dotOrColon_dot (uitoa a.toNat)
    (uitoa b.toNat ++ '.' :: uitoa c.toNat ++ '.' :: uitoa d.toNat)
    fun c hc => ⟨(mem_uitoa _ c hc).2.1, (mem_uitoa _ c hc).2.2.1⟩
  simp only [List.append_assoc, List.cons_append] at hfind
  rw [parseIP, dotted]
  simp only [List.append_assoc, List.cons_append, hfind]
  simpa [dotted] using parseIPv4_dotted a b c d

/-! ## Groups -/

/-- The bytes `parseIPv6` stores for the groups `gs`, high byte first. -/
def groupBytes : List Nat → List UInt8
  | [] => []
  | g :: gs => (g / 256).toUInt8 :: (g % 256).toUInt8 :: groupBytes gs

@[simp] theorem groupBytes_nil : groupBytes [] = [] := rfl

@[simp] theorem groupBytes_cons (g : Nat) (gs : List Nat) :
    groupBytes (g :: gs) = (g / 256).toUInt8 :: (g % 256).toUInt8 :: groupBytes gs := rfl

@[simp] theorem groupBytes_append (gs hs : List Nat) :
    groupBytes (gs ++ hs) = groupBytes gs ++ groupBytes hs := by
  induction gs <;> simp_all

@[simp] theorem length_groupBytes (gs : List Nat) : (groupBytes gs).length = 2 * gs.length := by
  induction gs <;> simp_all
  omega

theorem groupBytes_replicate (k : Nat) : groupBytes (List.replicate k 0) = List.replicate (2 * k) 0 := by
  induction k with
  | zero => rfl
  | succ k ih =>
    rw [List.replicate_succ, groupBytes_cons, ih, show 2 * (k + 1) = 2 * k + 1 + 1 by omega]
    rfl

theorem groupBytes_groupsOf (bs : List UInt8) (h : bs.length % 2 = 0) :
    groupBytes (groupsOf bs) = bs := by
  induction bs using groupsOf.induct with
  | case1 a b rest ih =>
    have ha : a.toNat < 256 := a.toNat_lt_size
    have hb : b.toNat < 256 := b.toNat_lt_size
    simp only [groupsOf, groupBytes_cons, ih (by simp only [List.length_cons] at h; omega)]
    rw [show (a.toNat * 256 + b.toNat) / 256 = a.toNat by omega,
      show (a.toNat * 256 + b.toNat) % 256 = b.toNat by omega, toUInt8_toNat, toUInt8_toNat]
  | case2 bs hbs =>
    match bs, h with
    | [], _ => rfl
    | [_], h => simp at h
    | a :: b :: rest, _ => exact (hbs a b rest rfl).elim

theorem length_groupsOf (bs : List UInt8) : (groupsOf bs).length = bs.length / 2 := by
  induction bs using groupsOf.induct with
  | case1 a b rest ih => simp [groupsOf, ih]; omega
  | case2 bs hbs =>
    match bs with
    | [] => rfl
    | [_] => simp [groupsOf]
    | a :: b :: rest => exact (hbs a b rest rfl).elim

theorem groupsOf_lt (bs : List UInt8) (g : Nat) (h : g ∈ groupsOf bs) : g < 65536 := by
  induction bs using groupsOf.induct with
  | case1 a b rest ih =>
    have ha : a.toNat < 256 := a.toNat_lt_size
    have hb : b.toNat < 256 := b.toNat_lt_size
    simp only [groupsOf, List.mem_cons] at h
    rcases h with rfl | h
    · omega
    · exact ih h
  | case2 bs hbs =>
    match bs with
    | [] => simp [groupsOf] at h
    | [_] => simp [groupsOf] at h
    | a :: b :: rest => exact (hbs a b rest rfl).elim

/-! ## The longest run of zero groups -/

theorem zeroRun_cons (g : Nat) (gs : List Nat) :
    zeroRun (g :: gs) = if g = 0 then zeroRun gs + 1 else 0 := by
  by_cases h : g = 0 <;> simp [zeroRun, List.takeWhile_cons, h]

theorem zeroRun_le (gs : List Nat) : zeroRun gs ≤ gs.length := by
  induction gs with
  | nil => simp [zeroRun]
  | cons g gs ih => rw [zeroRun_cons]; split <;> simp; omega

theorem take_zeroRun (gs : List Nat) : gs.take (zeroRun gs) = List.replicate (zeroRun gs) 0 := by
  induction gs with
  | nil => simp [zeroRun]
  | cons g gs ih =>
    rw [zeroRun_cons]
    split
    · subst_vars
      simp [List.replicate_succ, ih]
    · rfl

/-- What the search of `IP.String` may return: no run, or a run `[a, b)` of zero groups. -/
def ZeroRunOf (gs : List Nat) (e : Int × Int) : Prop :=
  e = (-1, -1) ∨ ∃ a b : Nat, e = ((a : Int), (b : Int)) ∧ a < b ∧ b ≤ gs.length ∧
    (gs.drop a).take (b - a) = List.replicate (b - a) 0

theorem zeroRunSearch_spec (fuel : Nat) (gs : List Nat) (i : Nat) (e : Int × Int)
    (h : ZeroRunOf gs e) : ZeroRunOf gs (zeroRunSearch fuel gs i e) := by
  induction fuel generalizing i e with
  | zero => exact h
  | succ fuel ih =>
    obtain ⟨e0, e1⟩ := e
    simp only [zeroRunSearch]
    split
    · split
      · rename_i hi hrun
        apply ih
        refine .inr ⟨i, i + zeroRun (gs.drop i), rfl, by omega, ?_, ?_⟩
        · have := zeroRun_le (gs.drop i)
          simp only [List.length_drop] at this
          omega
        · rw [Nat.add_sub_cancel_left]
          exact take_zeroRun _
      · exact ih _ _ h
    · exact h

/-! ## Hexadecimal groups -/

theorem hexValue_colon : hexValue ':' = none := by decide

theorem group_lt_big (g : Nat) (hg : g < 65536) : g < big := by
  unfold big
  omega

/-- One group, then a single colon and more text. -/
theorem parseIPv6Loop_group_colon (f g : Nat) (hg : g < 65536) (ip : List UInt8)
    (hip : ip.length < 16) (e : Option Nat) (rest : List Char) (hne : rest ≠ [])
    (hrest : rest.head? ≠ some ':') :
    parseIPv6Loop (f + 1) (appendHex g ++ ':' :: rest) ip e =
      parseIPv6Loop f rest (ip ++ [(g / 256).toUInt8, (g % 256).toUInt8]) e := by
  obtain ⟨d, t, rfl⟩ := List.exists_cons_of_ne_nil hne
  have hd : d ≠ ':' := fun h => hrest (by simp [h])
  rw [parseIPv6Loop, if_pos hip, xtoi_appendHex g _ (group_lt_big g hg) (by simp [hexValue_colon])]
  simp only [List.head?_cons, Option.some.injEq]
  rw [if_neg (by omega), if_neg (by decide)]
  simp [hd]

/-- The last group. -/
theorem parseIPv6Loop_group_end (f g : Nat) (hg : g < 65536) (ip : List UInt8)
    (hip : ip.length < 16) (e : Option Nat) :
    parseIPv6Loop (f + 1) (appendHex g) ip e =
      some ([], ip ++ [(g / 256).toUInt8, (g % 256).toUInt8], e) := by
  rw [parseIPv6Loop, if_pos hip, ← List.append_nil (appendHex g),
    xtoi_appendHex g _ (group_lt_big g hg) (by simp)]
  simp only [List.head?_nil]
  rw [if_neg (by omega)]
  simp

/-- A group, then the ellipsis. -/
theorem parseIPv6Loop_group_ellipsis (f g : Nat) (hg : g < 65536) (ip : List UInt8)
    (hip : ip.length < 16) (rest : List Char) :
    parseIPv6Loop (f + 1) (appendHex g ++ ':' :: ':' :: rest) ip none =
      if rest = [] then some ([], ip ++ [(g / 256).toUInt8, (g % 256).toUInt8], some (ip.length + 2))
      else parseIPv6Loop f rest (ip ++ [(g / 256).toUInt8, (g % 256).toUInt8]) (some (ip.length + 2)) := by
  rw [parseIPv6Loop, if_pos hip, xtoi_appendHex g _ (group_lt_big g hg) (by simp [hexValue_colon])]
  simp only [List.head?_cons, Option.some.injEq]
  rw [if_neg (by omega), if_neg (by decide)]
  simp

theorem joinGroups_cons_cons (g g' : Nat) (gs : List Nat) :
    joinGroups (g :: g' :: gs) = appendHex g ++ ':' :: joinGroups (g' :: gs) := rfl

theorem joinGroups_cons (g : Nat) (gs : List Nat) :
    ∃ t, joinGroups (g :: gs) = appendHex g ++ t := by
  cases gs with
  | nil => exact ⟨[], by simp [joinGroups]⟩
  | cons g' gs => exact ⟨_, joinGroups_cons_cons g g' gs⟩

/-- A text of groups starts with a hexadecimal digit. -/
theorem joinGroups_head (g : Nat) (gs : List Nat) (t : List Char) :
    joinGroups (g :: gs) ++ t ≠ [] ∧ (joinGroups (g :: gs) ++ t).head? ≠ some ':' := by
  obtain ⟨t', ht'⟩ := joinGroups_cons g gs
  obtain ⟨c, cs, hc⟩ := List.exists_cons_of_ne_nil (appendHex_ne_nil g)
  have := (mem_appendHex g c (by simp [hc])).2.1
  simp [ht', hc, this]

theorem mem_joinGroups (gs : List Nat) (c : Char) (h : c ∈ joinGroups gs) :
    c ≠ '.' ∧ c ≠ '/' ∧ c ≠ '[' ∧ c ≠ ']' := by
  induction gs using joinGroups.induct with
  | case1 => simp [joinGroups] at h
  | case2 g => exact (mem_appendHex g c h).2.2
  | case3 g g' gs ih =>
    rw [joinGroups_cons_cons] at h
    simp only [List.mem_append, List.mem_cons] at h
    rcases h with h | rfl | h
    · exact (mem_appendHex g c h).2.2
    · decide
    · exact ih h

/-- The loop reads a text of groups to its end. -/
theorem parseIPv6Loop_joinGroups (gs : List Nat) (hne : gs ≠ []) (hg : ∀ g ∈ gs, g < 65536)
    (ip : List UInt8) (e : Option Nat) (fuel : Nat) (hlen : ip.length + 2 * gs.length ≤ 16)
    (hfuel : gs.length ≤ fuel) :
    parseIPv6Loop fuel (joinGroups gs) ip e = some ([], ip ++ groupBytes gs, e) := by
  induction gs generalizing ip fuel with
  | nil => contradiction
  | cons g gs ih =>
    simp only [List.length_cons] at hlen hfuel
    obtain ⟨f, rfl⟩ : ∃ f, fuel = f + 1 := ⟨fuel - 1, by omega⟩
    cases gs with
    | nil => simpa using parseIPv6Loop_group_end f g (hg g (by simp)) ip (by omega) e
    | cons g' gs =>
      have hh := joinGroups_head g' gs []
      simp only [List.append_nil] at hh
      rw [joinGroups_cons_cons, parseIPv6Loop_group_colon f g (hg g (by simp)) ip (by omega) e _
        hh.1 hh.2, ih (by simp) (fun x hx => hg x (List.mem_cons_of_mem _ hx)) _ _
        (by simp at hlen ⊢; omega) (by simp at hfuel ⊢; omega)]
      simp

/-- The loop reads a text of groups up to the ellipsis after them. -/
theorem parseIPv6Loop_joinGroups_ellipsis (gs : List Nat) (hne : gs ≠ [])
    (hg : ∀ g ∈ gs, g < 65536) (ip : List UInt8) (fuel : Nat)
    (hlen : ip.length + 2 * gs.length < 16) (hfuel : gs.length ≤ fuel) (rest : List Char) :
    parseIPv6Loop fuel (joinGroups gs ++ ':' :: ':' :: rest) ip none =
      if rest = [] then some ([], ip ++ groupBytes gs, some (ip.length + 2 * gs.length))
      else parseIPv6Loop (fuel - gs.length) rest (ip ++ groupBytes gs)
        (some (ip.length + 2 * gs.length)) := by
  induction gs generalizing ip fuel with
  | nil => contradiction
  | cons g gs ih =>
    simp only [List.length_cons] at hlen hfuel
    obtain ⟨f, rfl⟩ : ∃ f, fuel = f + 1 := ⟨fuel - 1, by omega⟩
    cases gs with
    | nil =>
      simp only [joinGroups, parseIPv6Loop_group_ellipsis f g (hg g (by simp)) ip (by omega)]
      simp
    | cons g' gs =>
      have hh := joinGroups_head g' gs (':' :: ':' :: rest)
      rw [joinGroups_cons_cons, List.append_assoc, List.cons_append,
        parseIPv6Loop_group_colon f g (hg g (by simp)) ip (by omega) none _ hh.1 hh.2,
        ih (by simp) (fun x hx => hg x (List.mem_cons_of_mem _ hx)) _ _
        (by simp at hlen ⊢; omega) (by simp at hfuel ⊢; omega)]
      simp only [List.length_append, List.length_cons, List.length_nil, groupBytes_cons,
        List.append_assoc, List.cons_append, List.nil_append]
      rw [show ip.length + (0 + 1 + 1) + 2 * (gs.length + 1) = ip.length + 2 * (gs.length + 1 + 1)
        by omega, show f - (gs.length + 1) = f + 1 - (gs.length + 1 + 1) by omega]

/-! ## Reading back `IP.String` -/

theorem IP.length_groups (ip : IP) : ip.groups.length = 8 := by
  simp [IP.groups, length_groupsOf, ip.length_eq]

theorem IP.groups_lt (ip : IP) (g : Nat) (h : g ∈ ip.groups) : g < 65536 := groupsOf_lt _ g h

theorem IP.groupBytes_groups (ip : IP) : groupBytes ip.groups = ip.bytes :=
  groupBytes_groupsOf _ (by simp [ip.length_eq])

/-- The bytes of an IP around a run `[a, b)` of zero groups. -/
theorem IP.bytes_eq_run (ip : IP) (a b : Nat) (hab : a ≤ b)
    (hz : (ip.groups.drop a).take (b - a) = List.replicate (b - a) 0) :
    ip.bytes = groupBytes (ip.groups.take a) ++ List.replicate (2 * (b - a)) 0 ++
      groupBytes (ip.groups.drop b) := by
  have hsplit : ip.groups = ip.groups.take a ++ (ip.groups.drop a).take (b - a) ++
      (ip.groups.drop a).drop (b - a) := by
    rw [List.append_assoc, List.take_append_drop, List.take_append_drop]
  rw [← ip.groupBytes_groups]
  conv_lhs => rw [hsplit]
  rw [hz, List.drop_drop, Nat.add_sub_cancel' hab]
  simp [groupBytes_replicate]

/-- What `IP.String` prints for an IP that is not IPv4-mapped: all groups, or the groups
around a run of at least two zero groups. -/
theorem IP.string_of_to4_none (ip : IP) (h : ip.to4 = none) :
    ip.string = joinGroups ip.groups ∨
      ∃ a b : Nat, a + 2 ≤ b ∧ b ≤ 8 ∧
        (ip.groups.drop a).take (b - a) = List.replicate (b - a) 0 ∧
        ip.string = joinGroups (ip.groups.take a) ++ ':' :: ':' :: joinGroups (ip.groups.drop b) := by
  have hz := zeroRunSearch_spec 8 ip.groups 0 (-1, -1) (.inl rfl)
  unfold IP.string
  rw [h]
  generalize zeroRunSearch 8 ip.groups 0 (-1, -1) = z at hz ⊢
  obtain ⟨e0, e1⟩ := z
  dsimp only
  split
  · exact .inl rfl
  · rename_i hrun
    rcases hz with hz | ⟨a, b, hab, hlt, hb, hz⟩
    · simp_all
    · simp only [Prod.mk.injEq] at hab
      obtain ⟨rfl, rfl⟩ := hab
      refine .inr ⟨a, b, by omega, by rw [ip.length_groups] at hb; exact hb, hz, ?_⟩
      simp

theorem leadingEllipsis_of_head (s : List Char) (h : s.head? ≠ some ':') :
    leadingEllipsis s = (s, none) := by
  unfold leadingEllipsis
  split
  · simp at h
  · rfl

theorem finishIPv6_full (ip : IP) : finishIPv6 ip.bytes none = some ip := by
  simp [finishIPv6, ip.length_eq]

theorem finishIPv6_short (ip : IP) (bs : List UInt8) (e : Nat) (h : bs.length < 16)
    (hb : ip.bytes = bs.take e ++ List.replicate (16 - bs.length) 0 ++ bs.drop e) :
    finishIPv6 bs (some e) = some ip := by
  have := ip.length_eq
  simp only [finishIPv6, h, if_true, ← hb, this, dif_pos]

theorem parseIPv6_joinGroups (ip : IP) : parseIPv6 (joinGroups ip.groups) = some ip := by
  obtain ⟨g, gs, hgs⟩ := List.exists_cons_of_ne_nil
    (List.ne_nil_of_length_pos (by rw [ip.length_groups]; omega) : ip.groups ≠ [])
  have hh := joinGroups_head g gs []
  simp only [List.append_nil, ← hgs] at hh
  have hloop := parseIPv6Loop_joinGroups ip.groups (by simp [hgs]) ip.groups_lt [] none 8
    (by simp [ip.length_groups]) (by simp [ip.length_groups])
  simp only [parseIPv6, leadingEllipsis_of_head _ hh.2, hh.1, false_and, if_false, hloop,
    List.nil_append, ip.groupBytes_groups, finishIPv6_full]

/-- The printed run starts at group 0: the text starts with the ellipsis. -/
theorem parseIPv6_leading_run (ip : IP) (b : Nat) (hb2 : 2 ≤ b) (hb : b ≤ 8)
    (hz : ip.groups.take b = List.replicate b 0) :
    parseIPv6 (':' :: ':' :: joinGroups (ip.groups.drop b)) = some ip := by
  have hbytes := ip.bytes_eq_run 0 b (Nat.zero_le _) (by simpa using hz)
  have htb : (ip.groups.drop b).length = 8 - b := by simp [ip.length_groups]
  have hlt : ∀ g ∈ ip.groups.drop b, g < 65536 := fun g hg => ip.groups_lt g (List.mem_of_mem_drop hg)
  simp only [List.take_zero, groupBytes_nil, List.nil_append, Nat.sub_zero] at hbytes
  simp only [parseIPv6, leadingEllipsis]
  rcases hd : ip.groups.drop b with _ | ⟨g, gs⟩
  · rw [hd] at hbytes htb
    obtain rfl : b = 8 := by simp only [List.length_nil] at htb; omega
    simp only [joinGroups, and_self, if_true, Option.some.injEq]
    exact IP.ext_bytes (by rw [hbytes]; rfl)
  · rw [hd] at hbytes htb hlt
    simp only [List.length_cons] at htb
    have hh := joinGroups_head g gs []
    simp only [List.append_nil] at hh
    simp only [hh.1, false_and, if_false, parseIPv6Loop_joinGroups (g :: gs) (by simp) hlt []
      (some 0) 8 (by simp only [List.length_nil, List.length_cons]; omega)
      (by simp only [List.length_cons]; omega), List.nil_append]
    exact finishIPv6_short ip (groupBytes (g :: gs)) 0
      (by simp only [length_groupBytes, List.length_cons]; omega)
      (by rw [hbytes, List.take_zero, List.drop_zero, List.nil_append, length_groupBytes,
        List.length_cons, show 16 - 2 * (gs.length + 1) = 2 * b by omega])

/-- The printed run starts after group 0: the ellipsis follows the groups before it. -/
theorem parseIPv6_inner_run (ip : IP) (a b : Nat) (ha : 0 < a) (hab : a + 2 ≤ b) (hb : b ≤ 8)
    (hz : (ip.groups.drop a).take (b - a) = List.replicate (b - a) 0) :
    parseIPv6 (joinGroups (ip.groups.take a) ++ ':' :: ':' :: joinGroups (ip.groups.drop b)) =
      some ip := by
  have hbytes := ip.bytes_eq_run a b (by omega) hz
  have hta : (ip.groups.take a).length = a := by simp [ip.length_groups]; omega
  have htb : (ip.groups.drop b).length = 8 - b := by simp [ip.length_groups]
  have hlt : ∀ g ∈ ip.groups.drop b, g < 65536 := fun g hg => ip.groups_lt g (List.mem_of_mem_drop hg)
  have hga : (groupBytes (ip.groups.take a)).length = 2 * a := by rw [length_groupBytes, hta]
  obtain ⟨g, gs, hgs⟩ := List.exists_cons_of_ne_nil
    (List.ne_nil_of_length_pos (by omega) : ip.groups.take a ≠ [])
  have hh := joinGroups_head g gs (':' :: ':' :: joinGroups (ip.groups.drop b))
  rw [← hgs] at hh
  have hloop := parseIPv6Loop_joinGroups_ellipsis (ip.groups.take a) (by simp [hgs])
    (fun g hg => ip.groups_lt g (List.mem_of_mem_take hg)) [] 8
    (by rw [hta, List.length_nil]; omega) (by omega) (joinGroups (ip.groups.drop b))
  simp only [parseIPv6, leadingEllipsis_of_head _ hh.2, hh.1, false_and, if_false, hloop,
    List.nil_append, List.length_nil, Nat.zero_add, hta]
  rcases hd : ip.groups.drop b with _ | ⟨g', gs'⟩
  · rw [hd] at hbytes htb
    simp only [joinGroups, if_true]
    exact finishIPv6_short ip (groupBytes (ip.groups.take a)) (2 * a) (by omega) (by
      rw [hbytes, List.take_of_length_le hga.le, List.drop_of_length_le hga.le, hga]
      simp only [groupBytes_nil, List.append_nil, List.length_nil] at htb ⊢
      congr 2
      omega)
  · rw [hd] at hbytes htb hlt
    simp only [List.length_cons] at htb
    have hh' := joinGroups_head g' gs' []
    simp only [List.append_nil] at hh'
    simp only [hh'.1, if_false, parseIPv6Loop_joinGroups (g' :: gs') (by simp) hlt
      (groupBytes (ip.groups.take a)) (some (2 * a)) (8 - a)
      (by rw [hga, List.length_cons]; omega) (by simp only [List.length_cons]; omega)]
    exact finishIPv6_short ip (groupBytes (ip.groups.take a) ++ groupBytes (g' :: gs')) (2 * a)
      (by simp only [List.length_append, hga, length_groupBytes, List.length_cons]; omega) (by
      rw [hbytes, List.take_left' hga, List.drop_left' hga, List.length_append, hga,
        length_groupBytes, List.length_cons, show 16 - (2 * a + 2 * (gs'.length + 1)) = 2 * (b - a)
        by omega])

/-- A text with a colon and no dot goes to `parseIPv6`. -/
theorem parseIP_of_colon (s : List Char) (hdot : '.' ∉ s) (hcolon : ':' ∈ s) :
    parseIP s = parseIPv6 s := by
  have hfind : s.find? isDotOrColon = some ':' := by
    have hne : s.find? isDotOrColon ≠ none := fun h => by
      simpa [isDotOrColon] using List.find?_eq_none.mp h ':' hcolon
    obtain ⟨c, hc⟩ := Option.ne_none_iff_exists'.mp hne
    have hp := List.find?_some hc
    have hm := List.mem_of_find?_eq_some hc
    simp only [isDotOrColon, Bool.or_eq_true, decide_eq_true_eq] at hp
    rcases hp with rfl | rfl
    · exact absurd hm hdot
    · exact hc
  simp [parseIP, hfind]

theorem IP.to4_some (ip : IP) (l : List UInt8) (h : ip.to4 = some l) :
    ∃ a b c d, l = [a, b, c, d] ∧ ip = ipv4 a b c d := by
  unfold IP.to4 at h
  split at h
  · rename_i hpre
    cases h
    have hl : (ip.bytes.drop 12).length = 4 := by simp [ip.length_eq]
    match hd : ip.bytes.drop 12, hl with
    | [a, b, c, d], _ =>
      refine ⟨a, b, c, d, rfl, IP.ext_bytes ?_⟩
      rw [← List.take_append_drop 12 ip.bytes, hpre, hd]
      rfl
  · cases h

/-- `ParseIP` reads back what `IP.String` prints. -/
theorem parseIP_string (ip : IP) : parseIP ip.string = some ip := by
  cases h4 : ip.to4 with
  | some l =>
    obtain ⟨a, b, c, d, rfl, hip⟩ := ip.to4_some l h4
    have : ip.string = dotted a b c d := by simp only [IP.string, h4, dotted]
    rw [this, parseIP_dotted, hip]
  | none =>
    have hnodot : ∀ gs, '.' ∉ joinGroups gs := fun gs h => (mem_joinGroups gs '.' h).1 rfl
    rcases ip.string_of_to4_none h4 with hs | ⟨a, b, hab, hb, hz, hs⟩
    · obtain ⟨g, g', gs, hgs⟩ : ∃ g g' gs, ip.groups = g :: g' :: gs := by
        match h : ip.groups, ip.length_groups with
        | g :: g' :: gs, _ => exact ⟨g, g', gs, rfl⟩
      rw [hs, parseIP_of_colon _ (hnodot _) (by rw [hgs, joinGroups_cons_cons]; simp),
        parseIPv6_joinGroups]
    · rw [hs, parseIP_of_colon _ (by simp [hnodot]) (by simp)]
      rcases Nat.eq_zero_or_pos a with rfl | ha
      · simpa [joinGroups] using parseIPv6_leading_run ip b (by omega) hb (by simpa using hz)
      · exact parseIPv6_inner_run ip a b ha hab hb hz

/-- Two IPs with the same text are the same. -/
theorem IP.string_injective {ip ip' : IP} (h : ip.string = ip'.string) : ip = ip' := by
  have := parseIP_string ip
  rwa [h, parseIP_string, Option.some.injEq, eq_comm] at this

/-! ## Networks -/

theorem IP.slash_not_mem_string (ip : IP) : '/' ∉ ip.string := by
  intro h
  cases h4 : ip.to4 with
  | some l =>
    obtain ⟨a, b, c, d, rfl, -⟩ := ip.to4_some l h4
    simp only [IP.string, h4, List.append_assoc, List.cons_append, List.mem_append,
      List.mem_cons] at h
    rcases h with h | h | h | h | h | h | h <;>
      first | exact (mem_uitoa _ _ h).2.2.2 rfl | exact absurd h (by decide)
  | none =>
    have hj : ∀ gs, '/' ∉ joinGroups gs := fun gs h => (mem_joinGroups gs '/' h).2.1 rfl
    rcases ip.string_of_to4_none h4 with hs | ⟨a, b, -, -, -, hs⟩ <;> rw [hs] at h
    · exact hj _ h
    · simp only [List.mem_append, List.mem_cons] at h
      rcases h with h | h | h | h
      · exact hj _ h
      · exact absurd h (by decide)
      · exact absurd h (by decide)
      · exact hj _ h

theorem append_slash_inj {s t u v : List Char} (hs : '/' ∉ s) (hu : '/' ∉ u)
    (h : s ++ '/' :: t = u ++ '/' :: v) : s = u ∧ t = v := by
  induction s generalizing u with
  | nil =>
    cases u with
    | nil => simpa using h
    | cons x u => simp only [List.nil_append, List.cons_append, List.cons.injEq] at h
                  exact absurd (h.1 ▸ List.mem_cons_self _ _) hu
  | cons x s ih =>
    cases u with
    | nil => simp only [List.nil_append, List.cons_append, List.cons.injEq] at h
             exact absurd (h.1 ▸ List.mem_cons_self _ _) hs
    | cons y u =>
      simp only [List.cons_append, List.cons.injEq] at h
      obtain ⟨rfl, h⟩ := h
      have := ih (fun h' => hs (List.mem_cons_of_mem _ h')) (fun h' => hu (List.mem_cons_of_mem _ h')) h
      exact ⟨by rw [this.1], this.2⟩

/-- A valid address prints as its IP, a slash and the ones of its mask, cut to four bytes for an
IPv4 IP with a 16-byte mask. -/
theorem IPNet.string_eq (n : IPNet) :
    n.string = n.ip.string ++ '/' :: uitoa
      (if n.maskLen = 16 ∧ n.ip.to4.isSome then n.prefixLen - 96 else n.prefixLen) := by
  obtain ⟨ip, p, m, hv⟩ := n
  rcases hv with ⟨rfl, h4, -⟩ | ⟨rfl, -⟩
  · obtain ⟨b, hb⟩ := Option.isSome_iff_exists.mp h4
    simp [IPNet.string, hb]
  · rcases Option.eq_none_or_eq_some ip.to4 with h4 | ⟨b, h4⟩ <;> simp [IPNet.string, h4]

/-- The IP an address text names: the text before its slash, parsed. -/
def IPNet.ipOfString (s : List Char) : Option IP := parseIP (s.takeWhile (· != '/'))

theorem takeWhile_append_slash {s : List Char} (t : List Char) (h : '/' ∉ s) :
    (s ++ '/' :: t).takeWhile (· != '/') = s := by
  induction s with
  | nil => rfl
  | cons c s ih =>
    have hc : c ≠ '/' := fun hc => h (hc ▸ List.mem_cons_self _ _)
    simp [hc, ih fun h' => h (List.mem_cons_of_mem _ h')]

theorem IPNet.ipOfString_string (n : IPNet) : IPNet.ipOfString n.string = some n.ip := by
  rw [IPNet.ipOfString, IPNet.string_eq, takeWhile_append_slash _ n.ip.slash_not_mem_string,
    parseIP_string]

/-- Two addresses with the same text have the same IP. -/
theorem IPNet.ip_eq_of_string_eq {n n' : IPNet} (h : n.string = n'.string) : n.ip = n'.ip :=
  Option.some.inj ((IPNet.ipOfString_string n).symm.trans (h ▸ IPNet.ipOfString_string n'))

/-- The texts of a list of addresses give their IPs. -/
theorem map_ip_eq_filterMap (K : List IPNet) :
    K.map (·.ip) = (K.map IPNet.string).filterMap IPNet.ipOfString := by
  induction K with
  | nil => rfl
  | cons n K ih => simp [ih, IPNet.ipOfString_string]

/-- Two address lists with the same texts, up to order, have the same IPs, up to order. -/
theorem IPNet.perm_map_ip {K K' : List IPNet} (h : (K.map IPNet.string).Perm (K'.map IPNet.string)) :
    (K.map (·.ip)).Perm (K'.map (·.ip)) := by
  rw [map_ip_eq_filterMap, map_ip_eq_filterMap]
  exact h.filterMap _

/-- An address whose IP is no IPv4 IP has a 16-byte mask. -/
theorem IPNet.maskLen_of_to4_none {n : IPNet} (h : n.ip.to4 = none) : n.maskLen = 16 := by
  rcases n.mask_valid with ⟨-, h4, -⟩ | ⟨hm, -⟩
  · simp [h] at h4
  · exact hm

/-- Addresses whose IPv4 IPs come with 4-byte masks, as `Addrs` reports `AF_INET` entries, are
told apart by their texts. -/
theorem IPNet.string_injective {n n' : IPNet} (hn : n.ip.to4.isSome → n.maskLen = 4)
    (hn' : n'.ip.to4.isSome → n'.maskLen = 4) (h : n.string = n'.string) : n = n' := by
  have hip := IPNet.ip_eq_of_string_eq h
  have hm : n.maskLen = n'.maskLen := by
    cases h4 : n.ip.to4
    · rw [IPNet.maskLen_of_to4_none h4, IPNet.maskLen_of_to4_none (hip ▸ h4)]
    · rw [hn (by simp [h4]), hn' (by simp [← hip, h4])]
  have hp : n.prefixLen = n'.prefixLen := by
    rw [IPNet.string_eq, IPNet.string_eq, hip, hm] at h
    have := uitoa_injective
      (append_slash_inj n'.ip.slash_not_mem_string n'.ip.slash_not_mem_string h).2
    split_ifs at this with hc
    · exact absurd (hn' hc.2) (by omega)
    · exact this
  obtain ⟨ip, p, m, _⟩ := n
  obtain ⟨ip', p', m', _⟩ := n'
  simp only at hip hm hp
  subst hip hm hp
  rfl

/-- The characters of an IP text: hexadecimal digits, dots and colons. -/
def ipTextChar (c : Char) : Bool := (hexValue c).isSome || c = '.' || c = ':'

theorem ipTextChar_of_isDigit (c : Char) (h : isDigit c = true) : ipTextChar c = true := by
  simp only [isDigit, Bool.and_eq_true, decide_eq_true_eq] at h
  simp [ipTextChar, hexValue, h.1, h.2]

theorem dtoiLoop_consumed (s : List Char) (n : Nat) (r : Bool) (v : Nat) (rest : List Char)
    (h : dtoiLoop s n r = some (v, rest)) : ∃ ds, s = ds ++ rest ∧ ∀ c ∈ ds, isDigit c = true := by
  induction s generalizing n r with
  | nil =>
    simp only [dtoiLoop] at h
    split at h <;> simp_all
  | cons c cs ih =>
    simp only [dtoiLoop] at h
    split at h
    · rename_i hc
      split at h
      · cases h
      · obtain ⟨ds, rfl, hds⟩ := ih _ _ h
        exact ⟨c :: ds, rfl, by simpa [hc] using hds⟩
    · split at h
      · cases h
        exact ⟨[], rfl, by simp⟩
      · cases h

theorem xtoiLoop_consumed (s : List Char) (n : Nat) (r : Bool) (v : Nat) (rest : List Char)
    (h : xtoiLoop s n r = some (v, rest)) :
    ∃ ds, s = ds ++ rest ∧ ∀ c ∈ ds, ipTextChar c = true := by
  induction s generalizing n r with
  | nil =>
    simp only [xtoiLoop] at h
    split at h <;> simp_all
  | cons c cs ih =>
    simp only [xtoiLoop] at h
    split at h
    · rename_i d hc
      split at h
      · cases h
      · obtain ⟨ds, rfl, hds⟩ := ih _ _ h
        exact ⟨c :: ds, rfl, by simpa [ipTextChar, hc] using hds⟩
    · split at h
      · cases h
        exact ⟨[], rfl, by simp⟩
      · cases h

theorem parseIPv4Fields_consumed (k : Nat) (s : List Char) (p q : List UInt8) (rest : List Char)
    (h : parseIPv4Fields k s p = some (q, rest)) :
    ∃ ds, s = ds ++ rest ∧ ∀ c ∈ ds, ipTextChar c = true := by
  induction k generalizing s p with
  | zero =>
    simp only [parseIPv4Fields, Option.some.injEq, Prod.mk.injEq] at h
    exact ⟨[], by simp [h.2], by simp⟩
  | succ k ih =>
    simp only [parseIPv4Fields] at h
    split at h
    · cases h
    · split at h
      · cases h
      · rename_i s' hs'
        have hpre : ∃ pre, s = pre ++ s' ∧ ∀ c ∈ pre, ipTextChar c = true := by
          split at hs'
          · cases hs'
            exact ⟨[], rfl, by simp⟩
          · split at hs'
            · cases hs'
              rename_i hhead
              obtain ⟨t, rfl⟩ : ∃ t, s = '.' :: t := by
                cases s with
                | nil => simp at hhead
                | cons c t => simp only [List.head?_cons, Option.some.injEq] at hhead; exact ⟨t, by rw [hhead]⟩
              exact ⟨['.'], rfl, by decide⟩
            · cases hs'
        obtain ⟨pre, rfl, hpre⟩ := hpre
        split at h
        · rename_i n rest1 hd
          split at h
          · cases h
          · obtain ⟨ds0, rfl, hds0⟩ := dtoiLoop_consumed _ _ _ _ _ hd
            obtain ⟨ds1, rfl, hds1⟩ := ih _ _ h
            refine ⟨pre ++ ds0 ++ ds1, by simp, ?_⟩
            simp only [List.mem_append]
            rintro c ((hc | hc) | hc)
            · exact hpre c hc
            · exact ipTextChar_of_isDigit c (hds0 c hc)
            · exact hds1 c hc
        · cases h

theorem parseIPv4_alphabet (s : List Char) (ip : IP) (h : parseIPv4 s = some ip) :
    ∀ c ∈ s, ipTextChar c = true := by
  unfold parseIPv4 at h
  split at h
  · rename_i hf
    obtain ⟨ds, rfl, hds⟩ := parseIPv4Fields_consumed _ _ _ _ _ hf
    simpa using hds
  · cases h

theorem parseIPv6Loop_consumed (k : Nat) (s : List Char) (ip : List UInt8) (e : Option Nat)
    (rest : List Char) (ip' : List UInt8) (e' : Option Nat)
    (h : parseIPv6Loop k s ip e = some (rest, ip', e')) :
    ∃ ds, s = ds ++ rest ∧ ∀ c ∈ ds, ipTextChar c = true := by
  have hcolon : ipTextChar ':' = true := by decide
  induction k generalizing s ip e with
  | zero =>
    simp only [parseIPv6Loop, Option.some.injEq, Prod.mk.injEq] at h
    exact ⟨[], by simp [h.1], by simp⟩
  | succ k ih =>
    rw [parseIPv6Loop] at h
    by_cases hlen : ip.length < 16
    swap
    · rw [if_neg hlen, Option.some.injEq, Prod.mk.injEq] at h
      exact ⟨[], by simp [h.1], by simp⟩
    rw [if_pos hlen] at h
    cases hx : xtoi s with
    | none => simp only [hx, reduceCtorEq] at h
    | some nr =>
      obtain ⟨n, rest0⟩ := nr
      simp only [hx, Option.ite_none_left_eq_some] at h
      obtain ⟨-, h⟩ := h
      obtain ⟨hs, rfl, hhs⟩ := xtoiLoop_consumed _ _ _ _ _ hx
      by_cases hdot : rest0.head? = some '.'
      · simp only [hdot, if_true, Option.ite_none_left_eq_some] at h
        obtain ⟨-, -, h⟩ := h
        cases h4 : parseIPv4 (hs ++ rest0) with
        | none => simp only [h4, reduceCtorEq] at h
        | some ip4 =>
          simp only [h4, Option.some.injEq, Prod.mk.injEq] at h
          obtain ⟨rfl, -, -⟩ := h
          exact ⟨hs ++ rest0, by simp, parseIPv4_alphabet _ _ h4⟩
      · rw [if_neg hdot] at h
        rcases rest0 with _ | ⟨c1, _ | ⟨c2, t⟩⟩
        · simp only [Option.some.injEq, Prod.mk.injEq] at h
          obtain ⟨rfl, -, -⟩ := h
          exact ⟨hs, by simp, hhs⟩
        · simp only [reduceCtorEq] at h
        · simp only [ne_eq, Option.ite_none_left_eq_some, Decidable.not_not] at h
          obtain ⟨rfl, h⟩ := h
          by_cases hd : c2 = ':'
          · subst hd
            simp only [if_true, Option.ite_none_left_eq_some] at h
            obtain ⟨-, h⟩ := h
            by_cases ht : t = []
            · subst ht
              simp only [if_true, Option.some.injEq, Prod.mk.injEq] at h
              obtain ⟨rfl, -, -⟩ := h
              exact ⟨hs ++ [':', ':'], by simp, List.forall_mem_append.mpr ⟨hhs, by simp [hcolon]⟩⟩
            · rw [if_neg ht] at h
              obtain ⟨ds, rfl, hds⟩ := ih _ _ _ h
              exact ⟨hs ++ ':' :: ':' :: ds, by simp,
                List.forall_mem_append.mpr ⟨hhs, List.forall_mem_cons.mpr
                  ⟨hcolon, List.forall_mem_cons.mpr ⟨hcolon, hds⟩⟩⟩⟩
          · rw [if_neg hd] at h
            obtain ⟨ds, hds_eq, hds⟩ := ih _ _ _ h
            exact ⟨hs ++ ':' :: ds, by simp [hds_eq],
              List.forall_mem_append.mpr ⟨hhs, List.forall_mem_cons.mpr ⟨hcolon, hds⟩⟩⟩

theorem leadingEllipsis_split (s : List Char) :
    ∃ pre, s = pre ++ (leadingEllipsis s).1 ∧ ∀ c ∈ pre, c = ':' := by
  unfold leadingEllipsis
  split
  · exact ⟨[':', ':'], rfl, by simp⟩
  · exact ⟨[], rfl, by simp⟩

theorem parseIPv6_alphabet (s : List Char) (ip : IP) (h : parseIPv6 s = some ip) :
    ∀ c ∈ s, ipTextChar c = true := by
  obtain ⟨pre, hs, hpre⟩ := leadingEllipsis_split s
  intro c hc
  rw [hs] at hc
  rcases List.mem_append.mp hc with hc | hc
  · rw [hpre c hc]
    decide
  · simp only [parseIPv6] at h
    split at h
    · rename_i hnil
      rw [hnil.1] at hc
      cases hc
    · split at h
      · rename_i hl
        obtain ⟨ds, hds_eq, hds⟩ := parseIPv6Loop_consumed _ _ _ _ _ _ _ hl
        rw [hds_eq, List.append_nil] at hc
        exact hds c hc
      · cases h

/-- A text `ParseIP` accepts holds only hexadecimal digits, dots and colons. -/
theorem parseIP_alphabet (s : List Char) (ip : IP) (h : parseIP s = some ip) :
    ∀ c ∈ s, ipTextChar c = true := by
  unfold parseIP at h
  split at h
  · exact parseIPv4_alphabet s ip h
  · exact parseIPv6_alphabet s ip h
  · cases h

end Peernet.Go.net