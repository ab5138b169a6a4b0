-- SUMMARY: Go slices over a shared backing array, and the range loop that splices out the elements it visits.
import Mathlib.Data.List.Basic

/-!
# Slices

A Go slice is a window on a backing array. `s[:n]` keeps the array and changes the length, and
`append(s[:n], s[n+1:]...)` copies the tail one place down inside the same array when it fits,
which it always does here. The listener lists are spliced this way from inside a
`for n, x := range s` loop. The range expression is evaluated once: the loop runs over the
indices of the slice as it was, and reads each element from the backing array as it is now.

`removeWhere` is that loop. When at most one element is selected it removes exactly that one
(`removeWhere_of_forall_not`, `removeWhere_of_unique`). With two or more, the shift makes the
loop skip elements and read others twice, and `s[:n]` can lengthen the slice again.
-/

namespace Peernet.Go

/-- A slice starting at the front of its backing array `arr`: it holds the first `len`
elements, and the array's length is its capacity. -/
structure Slice (α : Type) where
  arr : List α
  len : Nat
  len_le : len ≤ arr.length

namespace Slice

variable {α : Type}

/-- The elements the slice holds. -/
def toList (s : Slice α) : List α := s.arr.take s.len

/-- A slice holding `l` in an array of its own. -/
def ofList (l : List α) : Slice α := ⟨l, l.length, le_rfl⟩

/-- `s[:n]`, for `n` within the capacity: the same array, `n` elements. -/
def sliceTo (s : Slice α) (n : Nat) (h : n ≤ s.arr.length) : Slice α := ⟨s.arr, n, h⟩

/-- The array after `append(s[:n], s[n+1:]...)`: the elements after `n` move one place down,
and the last held element stays where it was as well. -/
def spliceArr (s : Slice α) (n : Nat) : List α :=
  s.arr.take n ++ (s.arr.drop (n + 1)).take (s.len - (n + 1)) ++ s.arr.drop (s.len - 1)

theorem spliceArr_length (s : Slice α) (n : Nat) (h : n + 1 < s.len) :
    (s.spliceArr n).length = s.arr.length := by
  have := s.len_le
  simp only [spliceArr, List.length_append, List.length_take, List.length_drop]
  omega

/-- `append(s[:n], s[n+1:]...)` for `n + 1 < len(s)`: the tail fits in the array, so the
result shares it. -/
def spliceOut (s : Slice α) (n : Nat) (h : n + 1 < s.len) : Slice α :=
  ⟨s.spliceArr n, s.len - 1, by rw [spliceArr_length s n h]; exact (Nat.sub_le _ _).trans s.len_le⟩

@[simp] theorem ofList_toList (l : List α) : (ofList l).toList = l := by
  simp [ofList, toList]

/-- Splicing out `x` from a fresh array: the tail moves down, and its last element `z` stays
in the array's last slot as well. -/
theorem spliceArr_ofList (pre mid : List α) (x z : α) :
    (ofList (pre ++ x :: (mid ++ [z]))).spliceArr pre.length = pre ++ mid ++ [z, z] := by
  have h1 : pre ++ x :: (mid ++ [z]) = (pre ++ [x]) ++ (mid ++ [z]) := by simp
  have h2 : pre ++ x :: (mid ++ [z]) = (pre ++ x :: mid) ++ [z] := by simp
  simp only [spliceArr, ofList]
  rw [List.take_left' rfl, h1, List.drop_left' (by simp), ← h1, h2,
    List.drop_left' (by simp), List.take_of_length_le (by simp; omega)]
  simp

theorem mem_spliceArr {s : Slice α} {n : Nat} {x : α} (h : x ∈ s.spliceArr n) : x ∈ s.arr := by
  simp only [spliceArr, List.mem_append] at h
  rcases h with (h | h) | h
  · exact List.mem_of_mem_take h
  · exact List.mem_of_mem_drop (List.mem_of_mem_take h)
  · exact List.mem_of_mem_drop h

end Slice

/-! ## Removing while ranging -/

section removeWhere

variable {α : Type} (p : α → Bool)

/-- One round of `for n, x := range s` that removes the elements `p` selects: `x` is read from
the array at `n`; a selected one is recorded and the variable is set to `s[:n]`, or to
`append(s[:n], s[n+1:]...)` when `n < len(s) - 1`. The state is the slice variable and the
selected elements in the order they were visited. -/
def removeRound (st : Slice α × List α) (n : Nat) : Slice α × List α :=
  match h : st.1.arr[n]? with
  | none => st
  | some x =>
    if p x then
      if hn : n + 1 < st.1.len then (st.1.spliceOut n hn, st.2 ++ [x])
      else (st.1.sliceTo n (List.getElem?_eq_some_iff.mp h).1.le, st.2 ++ [x])
    else st

/-- The loop over the indices of `l`: the list the variable holds afterwards, and the elements
it visited and selected, in order. -/
def removeWhere (l : List α) : List α × List α :=
  let st := (List.range l.length).foldl (removeRound p) (Slice.ofList l, [])
  (st.1.toList, st.2)

variable {p}

/-- A round that reads an unselected element changes nothing. -/
theorem removeRound_of_not {st : Slice α × List α} {n : Nat}
    (h : ∀ x, st.1.arr[n]? = some x → p x = false) : removeRound p st n = st := by
  unfold removeRound
  split
  · rfl
  · rename_i x hx
    simp [h x hx]

theorem foldl_removeRound_of_not (st : Slice α × List α) (ns : List Nat)
    (h : ∀ n ∈ ns, ∀ x, st.1.arr[n]? = some x → p x = false) :
    ns.foldl (removeRound p) st = st := by
  induction ns with
  | nil => rfl
  | cons n ns ih =>
    rw [List.foldl_cons, removeRound_of_not (h n (.head _)), ih fun m hm => h m (.tail _ hm)]

/-- With nothing selected, the loop keeps the list and records nothing. -/
theorem removeWhere_of_forall_not (l : List α) (h : ∀ x ∈ l, p x = false) :
    removeWhere p l = (l, []) := by
  simp only [removeWhere]
  rw [foldl_removeRound_of_not _ _ fun n _ x hx => h x (List.getElem?_mem hx)]
  simp

/-- The round at the selected element `x` when it is the last: `s[:n]`. -/
theorem removeRound_selected_last (pre : List α) (x : α) (hx : p x) :
    removeRound p (Slice.ofList (pre ++ [x]), []) pre.length =
      (⟨pre ++ [x], pre.length, by rw [List.length_append]; exact Nat.le_add_right _ _⟩, [x]) := by
  unfold removeRound
  split
  · simp_all [Slice.ofList]
  · rename_i y hy
    simp only [Slice.ofList, List.getElem?_append_right le_rfl, Nat.sub_self,
      List.getElem?_cons_zero, Option.some.injEq] at hy
    subst hy
    simp [hx, Slice.sliceTo, Slice.ofList]

/-- The round at the selected element `x` when `mid ++ [z]` follows it: the tail moves down and
its last element `z` now stands twice in the array. -/
theorem removeRound_selected (pre mid : List α) (x z : α) (hx : p x) :
    removeRound p (Slice.ofList (pre ++ x :: (mid ++ [z])), []) pre.length =
      (⟨pre ++ mid ++ [z, z], pre.length + mid.length + 1, by
        simp only [List.length_append, List.length_cons, List.length_nil]; omega⟩, [x]) := by
  unfold removeRound
  split
  · simp_all [Slice.ofList]
  · rename_i y hy
    simp only [Slice.ofList, List.getElem?_append_right le_rfl, Nat.sub_self,
      List.getElem?_cons_zero, Option.some.injEq] at hy
    subst hy
    rw [if_pos hx, dif_pos (by simp [Slice.ofList])]
    simp only [Slice.spliceOut, Slice.spliceArr_ofList, List.nil_append, Prod.mk.injEq, and_true]
    simp [Slice.ofList]
    omega

/-- With exactly one element selected, the loop removes it and keeps the others in order. -/
theorem removeWhere_of_unique (pre post : List α) (x : α) (hx : p x)
    (h : ∀ y ∈ pre ++ post, p y = false) :
    removeWhere p (pre ++ x :: post) = (pre ++ post, [x]) := by
  have hpre : (List.range pre.length).foldl (removeRound p) (Slice.ofList (pre ++ x :: post), [])
      = (Slice.ofList (pre ++ x :: post), []) :=
    foldl_removeRound_of_not _ _ fun n hn y hy => by
      rw [Slice.ofList, List.getElem?_append_left (List.mem_range.mp hn)] at hy
      exact h y (List.mem_append_left _ (List.getElem?_mem hy))
  have hlen : (pre ++ x :: post).length = pre.length + 1 + post.length := by simp; omega
  simp only [removeWhere, hlen, List.range_add, List.range_succ, List.foldl_append, hpre,
    List.foldl_cons, List.foldl_nil]
  rcases List.eq_nil_or_concat post with rfl | ⟨mid, z, rfl⟩ <;>
    simp only [List.concat_eq_append] at *
  · simp [removeRound_selected_last pre x hx, Slice.toList]
  · rw [removeRound_selected pre mid x z hx, foldl_removeRound_of_not]
    · simp only [Slice.toList]
      rw [show pre ++ mid ++ [z, z] = (pre ++ mid ++ [z]) ++ [z] by simp,
        List.take_left' (by simp; omega)]
      simp
    · intro n _ y hy
      have hy := List.getElem?_mem hy
      simp only [List.mem_append, List.mem_cons, List.mem_singleton] at hy
      apply h
      simp only [List.mem_append, List.mem_singleton]
      tauto

/-- With at most one element selected, the loop is a filter: the others stay in order and the
selected one is recorded. -/
theorem removeWhere_eq_filter (l : List α) (h : (l.filter p).length ≤ 1) :
    removeWhere p l = (l.filter (fun y => !p y), l.filter p) := by
  match hf : l.filter p, h with
  | [], _ =>
    have hn : ∀ y ∈ l, p y = false := fun y hy => by simpa using List.filter_eq_nil_iff.mp hf y hy
    rw [removeWhere_of_forall_not l hn, List.filter_eq_self.mpr (by simpa using hn)]
  | [x], _ =>
    obtain ⟨pre, post, rfl, hpre, hx, hpost⟩ := List.filter_eq_cons_iff.mp hf
    have hpost : ∀ y ∈ post, p y = false := fun y hy => by
      simpa using List.filter_eq_nil_iff.mp hpost y hy
    have hn : ∀ y ∈ pre ++ post, p y = false := by
      simp only [List.mem_append]
      rintro y (hy | hy)
      · simpa using hpre y hy
      · exact hpost y hy
    rw [removeWhere_of_unique pre post x hx hn]
    simp only [List.filter_append, List.filter_cons, hx, Bool.not_true]
    rw [List.filter_eq_self.mpr (by simpa using fun y hy => hn y (List.mem_append_left _ hy)),
      List.filter_eq_self.mpr (by simpa using fun y hy => hpost y hy)]
    simp

/-- A round only moves elements of the array around and records one of them. -/
theorem removeRound_subset {l : List α} {st : Slice α × List α} (n : Nat)
    (h : (∀ x ∈ st.1.arr, x ∈ l) ∧ ∀ x ∈ st.2, x ∈ l) :
    (∀ x ∈ (removeRound p st n).1.arr, x ∈ l) ∧ ∀ x ∈ (removeRound p st n).2, x ∈ l := by
  unfold removeRound
  split
  · exact h
  · rename_i x hx
    have hxl : x ∈ l := h.1 x (List.getElem?_mem hx)
    have hrec : ∀ y ∈ st.2 ++ [x], y ∈ l := fun y hy => by
      rcases List.mem_append.mp hy with hy | hy
      · exact h.2 y hy
      · rwa [List.mem_singleton.mp hy]
    split_ifs
    · exact ⟨fun y hy => h.1 y (Slice.mem_spliceArr hy), hrec⟩
    · exact ⟨h.1, hrec⟩
    · exact h

/-- Whatever the selection, the loop leaves and records only elements of the list. -/
theorem removeWhere_subset (l : List α) :
    (∀ x ∈ (removeWhere p l).1, x ∈ l) ∧ ∀ x ∈ (removeWhere p l).2, x ∈ l := by
  have hfold : ∀ (ns : List Nat) (st : Slice α × List α),
      (∀ x ∈ st.1.arr, x ∈ l) ∧ (∀ x ∈ st.2, x ∈ l) →
      (∀ x ∈ (ns.foldl (removeRound p) st).1.arr, x ∈ l) ∧
        ∀ x ∈ (ns.foldl (removeRound p) st).2, x ∈ l := by
    intro ns
    induction ns with
    | nil => exact fun _ h => h
    | cons n ns ih => exact fun st h => ih _ (removeRound_subset n h)
  obtain ⟨harr, hrec⟩ := hfold (List.range l.length) (Slice.ofList l, [])
    ⟨fun x hx => hx, fun x hx => by cases hx⟩
  exact ⟨fun x hx => harr x (List.mem_of_mem_take hx), hrec⟩

end removeWhere

end Peernet.Go
