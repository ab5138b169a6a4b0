-- SUMMARY: `net.SplitHostPort` and `net.JoinHostPort` of Go 1.16, with the texts of their errors, and the round trip between them.
import Peernet.Go.Strings

/-!
# Host and port

`SplitHostPort` splits at the last colon; a host in brackets must end right before it. Its
errors are `AddrError`s, whose text names the address: `initNetwork` reads that text. Splitting
undoes `JoinHostPort` for every host without brackets and every port without colons or brackets
(`splitHostPort_joinHostPort`).
-/

namespace Peernet.Go.net

/-- `AddrError.Error()`: the reason, after `address <addr>: ` when the address is not empty. -/
def addrError (addr why : List Char) : List Char :=
  if addr = [] then why else "address ".toList ++ addr ++ ": ".toList ++ why

/-- `missingPort`. -/
def missingPort : List Char := "missing port in address".toList

/-- `tooManyColons`. -/
def tooManyColons : List Char := "too many colons in address".toList

/-- `byteIndex(s, c)`: the index of the first `c` in `s`. -/
def byteIndex : List Char → Char → Option Nat
  | [], _ => none
  | x :: s, c => if x = c then some 0 else (byteIndex s c).map (· + 1)

/-- `last(s, c)`: the index of the last `c` in `s`. -/
def lastIndex (s : List Char) (c : Char) : Option Nat :=
  (byteIndex s.reverse c).map (s.length - 1 - ·)

/-- The bracketed-host case of `SplitHostPort`, for the last colon at `i`: the host and the
positions `j` and `k` after which no `[` and no `]` may follow. -/
def splitBracketed (hostport : List Char) (i : Nat) : Except (List Char) (List Char × Nat × Nat) :=
  match byteIndex hostport ']' with
  | none => .error (addrError hostport "missing ']' in address".toList)
  | some e =>
    if e + 1 = hostport.length then .error (addrError hostport missingPort)
    else if e + 1 = i then .ok ((hostport.take e).drop 1, 1, e + 1)
    else if hostport[e + 1]? = some ':' then .error (addrError hostport tooManyColons)
    else .error (addrError hostport missingPort)

/-- `net.SplitHostPort`: the host and the port, or the text of the error. -/
def splitHostPort (hostport : List Char) : Except (List Char) (List Char × List Char) :=
  match lastIndex hostport ':' with
  | none => .error (addrError hostport missingPort)
  | some i =>
    let r : Except (List Char) (List Char × Nat × Nat) :=
      if hostport.head? = some '[' then splitBracketed hostport i
      else if ':' ∈ hostport.take i then .error (addrError hostport tooManyColons)
      else .ok (hostport.take i, 0, 0)
    match r with
    | .error e => .error e
    | .ok (host, j, k) =>
      if '[' ∈ hostport.drop j then .error (addrError hostport "unexpected '[' in address".toList)
      else if ']' ∈ hostport.drop k then .error (addrError hostport "unexpected ']' in address".toList)
      else .ok (host, hostport.drop (i + 1))

/-- `net.JoinHostPort`: a host with a colon is taken for an IPv6 literal and bracketed. -/
def joinHostPort (host port : List Char) : List Char :=
  if ':' ∈ host then '[' :: host ++ ']' :: ':' :: port else host ++ ':' :: port

/-! ## Round trip -/

theorem byteIndex_append (s t : List Char) (c : Char) (h : c ∉ s) :
    byteIndex (s ++ t) c = (byteIndex t c).map (· + s.length) := by
  induction s with
  | nil => simp
  | cons x s ih =>
    simp only [List.mem_cons, not_or] at h
    rw [List.cons_append, byteIndex, if_neg (Ne.symm h.1), ih h.2, Option.map_map]
    congr 1

@[simp] theorem byteIndex_cons_self (s : List Char) (c : Char) : byteIndex (c :: s) c = some 0 := by
  simp [byteIndex]

theorem lastIndex_append_colon (s t : List Char) (ht : ':' ∉ t) :
    lastIndex (s ++ ':' :: t) ':' = some s.length := by
  rw [lastIndex, List.reverse_append, List.reverse_cons, List.append_assoc,
    byteIndex_append _ _ _ (by simpa using ht)]
  simp only [List.singleton_append, byteIndex_cons_self, Option.map_some', List.length_append,
    List.length_cons, List.length_reverse]
  congr 1
  omega

theorem splitHostPort_plain (host port : List Char) (hc : ':' ∉ host) (hp : ':' ∉ port)
    (hb : '[' ∉ host ∧ ']' ∉ host) (hpb : '[' ∉ port ∧ ']' ∉ port) :
    splitHostPort (host ++ ':' :: port) = .ok (host, port) := by
  have hhead : (host ++ ':' :: port).head? ≠ some '[' := by
    cases host with
    | nil => simp
    | cons c t => simpa using fun h : c = '[' => hb.1 (h ▸ List.mem_cons_self _ _)
  simp only [splitHostPort, lastIndex_append_colon host port hp, hhead, if_false,
    List.take_left' rfl, hc, List.drop_zero]
  simp [hb.1, hb.2, hpb.1, hpb.2, List.drop_left']

theorem splitHostPort_bracketed (host port : List Char) (hp : ':' ∉ port)
    (hb : '[' ∉ host ∧ ']' ∉ host) (hpb : '[' ∉ port ∧ ']' ∉ port) :
    splitHostPort ('[' :: host ++ ']' :: ':' :: port) = .ok (host, port) := by
  have hlast : lastIndex ('[' :: (host ++ ']' :: ':' :: port)) ':' = some (host.length + 2) := by
    simpa using lastIndex_append_colon ('[' :: host ++ [']']) port hp
  have hclose : byteIndex ('[' :: (host ++ ']' :: ':' :: port)) ']' = some (host.length + 1) := by
    rw [byteIndex, if_neg (by decide), byteIndex_append _ _ _ hb.2]
    simp
  simp only [splitHostPort, List.cons_append, hlast, List.head?_cons, if_true, splitBracketed,
    hclose]
  simp [hb.1, hpb.1, hpb.2]

/-- Splitting undoes joining, for a host without brackets and a port without colons or
brackets. -/
theorem splitHostPort_joinHostPort (host port : List Char) (hp : ':' ∉ port)
    (hb : '[' ∉ host ∧ ']' ∉ host) (hpb : '[' ∉ port ∧ ']' ∉ port) :
    splitHostPort (joinHostPort host port) = .ok (host, port) := by
  unfold joinHostPort
  split
  · exact splitHostPort_bracketed host port hp hb hpb
  · exact splitHostPort_plain host port ‹_› hp hb hpb

/-! ## Errors -/

theorem byteIndex_eq_none (s : List Char) (c : Char) (h : c ∉ s) : byteIndex s c = none := by
  induction s with
  | nil => rfl
  | cons x s ih =>
    simp only [List.mem_cons, not_or] at h
    simp [byteIndex, Ne.symm h.1, ih h.2]

theorem byteIndex_isSome (s : List Char) (c : Char) (h : c ∈ s) : (byteIndex s c).isSome := by
  induction s with
  | nil => cases h
  | cons x s ih =>
    simp only [byteIndex]
    split
    · rfl
    · rename_i hx
      have : c ∈ s := by
        rcases List.mem_cons.mp h with rfl | h
        · exact absurd rfl hx
        · exact h
      simpa using ih this

theorem byteIndex_eq_some (s : List Char) (c : Char) (j : Nat) (h : byteIndex s c = some j) :
    ∃ pre post, s = pre ++ c :: post ∧ pre.length = j ∧ c ∉ pre := by
  induction s generalizing j with
  | nil => cases h
  | cons x s ih =>
    simp only [byteIndex] at h
    split at h
    · cases h
      subst_vars
      exact ⟨[], s, rfl, rfl, by simp⟩
    · rename_i hx
      obtain ⟨j', hj', rfl⟩ := Option.map_eq_some'.mp h
      obtain ⟨pre, post, rfl, rfl, hpre⟩ := ih j' hj'
      exact ⟨x :: pre, post, rfl, rfl, by simp [hpre, Ne.symm hx]⟩

theorem lastIndex_eq_some (s : List Char) (c : Char) (i : Nat) (h : lastIndex s c = some i) :
    ∃ pre post, s = pre ++ c :: post ∧ pre.length = i ∧ c ∉ post := by
  obtain ⟨j, hj, rfl⟩ := Option.map_eq_some'.mp h
  obtain ⟨pre, post, hs, rfl, hpre⟩ := byteIndex_eq_some _ _ _ hj
  have : s = post.reverse ++ c :: pre.reverse := by
    rw [← List.reverse_reverse s, hs]
    simp
  refine ⟨post.reverse, pre.reverse, this, ?_, by simpa using hpre⟩
  rw [this]
  simp

/-- An address without a colon has no port. -/
theorem splitHostPort_of_no_colon (s : List Char) (h : ':' ∉ s) :
    splitHostPort s = .error (addrError s missingPort) := by
  have : byteIndex s.reverse ':' = none := byteIndex_eq_none _ _ (by simpa using h)
  simp [splitHostPort, lastIndex, this]

/-- An address with two colons and no bracket in front has too many colons. -/
theorem splitHostPort_of_two_colons (s : List Char) (h : 2 ≤ s.count ':')
    (hb : s.head? ≠ some '[') : splitHostPort s = .error (addrError s tooManyColons) := by
  have hmem : ':' ∈ s := List.count_pos_iff.mp (by omega)
  obtain ⟨i, hi⟩ : ∃ i, lastIndex s ':' = some i :=
    Option.isSome_iff_exists.mp (by simpa [lastIndex] using byteIndex_isSome s.reverse ':' (by simpa using hmem))
  obtain ⟨pre, post, rfl, rfl, hpost⟩ := lastIndex_eq_some _ _ _ hi
  have hpre : ':' ∈ pre := by
    simp only [List.count_append, List.count_cons_self, List.count_eq_zero_of_not_mem hpost] at h
    exact List.count_pos_iff.mp (by omega)
  have hb' : pre.head? ≠ some '[' := by
    cases pre with
    | nil => cases hpre
    | cons x pre => simpa using hb
  simp [splitHostPort, hi, hb', List.take_left', hpre]

/-- A bracketed host with nothing after the bracket has no port. -/
theorem splitHostPort_bracketed_host (h : List Char) (hb : ']' ∉ h) :
    splitHostPort ('[' :: h ++ [']']) = .error (addrError ('[' :: h ++ [']']) missingPort) := by
  by_cases hc : ':' ∈ h
  · have hsome := byteIndex_isSome ('[' :: h ++ [']']).reverse ':' (by simp [hc])
    obtain ⟨i, hi⟩ : ∃ i, lastIndex ('[' :: h ++ [']']) ':' = some i :=
      Option.isSome_iff_exists.mp (by simpa [lastIndex] using hsome)
    have hclose : byteIndex ('[' :: h ++ [']']) ']' = some (h.length + 1) := by
      rw [byteIndex_append _ _ _ (by simpa using hb)]
      simp
    simp only [List.cons_append] at hi hclose ⊢
    simp [splitHostPort, hi, splitBracketed, hclose]
  · exact splitHostPort_of_no_colon _ (by simpa using hc)

end Peernet.Go.net
