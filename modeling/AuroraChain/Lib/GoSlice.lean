import Mathlib
/-!
# Go slices over a heap of backing arrays

A Go slice is a header (a backing array, an offset into it, a length and a capacity); two slices
share elements when their headers point into the same array. `append(s, xs...)` writes into the
array of `s` when the capacity allows and copies into a fresh array otherwise, so an append can
change what another slice over the same array reads. This module models the headers, a heap of
arrays, slicing, `append`, and what every slice reads after an append.

How large a fresh array is, is the runtime's choice: the language only asks that it hold the
result. `Growth` is that choice, with its one guarantee as a field.
-/

/-- A heap of backing arrays, numbered in allocation order. -/
structure Heap (α : Type) where
  arrays : List (List α)

/-- A slice header. -/
structure Slice where
  array : Nat
  offset : Nat
  len : Nat
  cap : Nat
  deriving DecidableEq, Repr

/-- The capacity of the array a growing `append` allocates, given the old capacity and the length
needed. -/
structure Growth where
  newCap : Nat → Nat → Nat
  enough : ∀ cap needed, needed ≤ newCap cap needed

/-- Doubling the capacity, or more if the length asked for needs it: how Go's runtime grows a
small slice, before it rounds the size up to an allocation class. -/
def Growth.double : Growth where
  newCap cap needed := max needed (2 * cap)
  enough _ _ := Nat.le_max_left _ _

namespace Heap

variable {α : Type}

/-- The backing array numbered `a` (empty if there is none). -/
def arrayAt (h : Heap α) (a : Nat) : List α := h.arrays.getD a []

/-- The elements a slice shows. -/
def read (h : Heap α) (s : Slice) : List α := ((h.arrayAt s.array).drop s.offset).take s.len

/-- A fresh array holding `xs`, and its number. -/
def alloc (h : Heap α) (xs : List α) : Heap α × Nat := (⟨h.arrays ++ [xs]⟩, h.arrays.length)

/-- Overwrite array `a` from position `i` on with `xs`. -/
def write (h : Heap α) (a i : Nat) (xs : List α) : Heap α :=
  ⟨h.arrays.modify a fun arr => arr.take i ++ xs ++ arr.drop (i + xs.length)⟩

/-- Overwriting positions `i ..< i + xs.length` of a list, seen through the window
`off ..< off + len` that covers them. -/
theorem window_overwrite (arr xs : List α) {off len i : Nat} (hlo : off ≤ i)
    (hhi : i + xs.length ≤ off + len) (hfit : off + len ≤ arr.length) :
    ((arr.take i ++ xs ++ arr.drop (i + xs.length)).drop off).take len =
      ((arr.drop off).take len).take (i - off) ++ xs ++
        ((arr.drop off).take len).drop (i - off + xs.length) := by
  apply List.ext_getElem
  · simp only [List.length_take, List.length_drop, List.length_append]
    omega
  · intro k hk₁ hk₂
    simp only [List.length_take, List.length_drop, List.length_append] at hk₁ hk₂
    simp only [List.getElem_take, List.getElem_drop, List.getElem_append, List.length_take,
      List.length_drop, List.length_append]
    have hi : min i arr.length = i := by omega
    have hlen : min len (arr.length - off) = len := by omega
    have hp : min (i - off) len = i - off := by omega
    simp only [hi, hlen, hp]
    -- the three regions: before the write, the written elements, after the write
    split_ifs with h₁ h₂ h₃ h₄ h₃ h₄ h₃ h₄
    all_goals first
      | rfl
      | omega
      | (congr 1; omega)

theorem arrayAt_write_self (h : Heap α) (a i : Nat) (xs : List α)
    (hfit : i + xs.length ≤ (h.arrayAt a).length) :
    (h.write a i xs).arrayAt a =
      (h.arrayAt a).take i ++ xs ++ (h.arrayAt a).drop (i + xs.length) := by
  by_cases ha : a < h.arrays.length
  · simp [arrayAt, write, List.getD_eq_getElem?_getD, List.getElem?_eq_getElem ha]
  · have hnone : h.arrays[a]? = none := List.getElem?_eq_none (Nat.le_of_not_lt ha)
    have hempty : xs = [] := by
      simp only [arrayAt, List.getD_eq_getElem?_getD, hnone, Option.getD_none,
        List.length_nil] at hfit
      exact List.eq_nil_of_length_eq_zero (by omega)
    subst hempty
    simp [arrayAt, write, List.getD_eq_getElem?_getD, hnone]

theorem arrayAt_alloc_new (h : Heap α) (xs : List α) :
    (h.alloc xs).1.arrayAt (h.alloc xs).2 = xs := by
  simp [arrayAt, alloc]

end Heap

namespace Slice

variable {α : Type}

/-- The nil slice: no array, nothing to read. -/
def nil : Slice := ⟨0, 0, 0, 0⟩

/-- A header that fits its array: the length within the capacity, the capacity within the array. -/
def Valid (h : Heap α) (s : Slice) : Prop :=
  s.len ≤ s.cap ∧ s.offset + s.cap ≤ (h.arrayAt s.array).length

/-- `s[lo:hi]`; `none` where Go panics with an out-of-range slice. -/
def sub (s : Slice) (lo hi : Nat) : Option Slice :=
  if lo ≤ hi ∧ hi ≤ s.cap then some ⟨s.array, s.offset + lo, hi - lo, s.cap - lo⟩ else none

/-- `append(s, xs...)`: in place when the capacity allows, else into a fresh array sized by the
runtime and padded with zero values. The elements `xs` are read before anything is written, as the
runtime's `memmove` does when they overlap the destination. -/
def append [Inhabited α] (g : Growth) (h : Heap α) (s : Slice) (xs : List α) : Heap α × Slice :=
  if s.len + xs.length ≤ s.cap then
    (h.write s.array (s.offset + s.len) xs, { s with len := s.len + xs.length })
  else
    let n := s.len + xs.length
    let c := g.newCap s.cap n
    let (h', a) := h.alloc (h.read s ++ xs ++ List.replicate (c - n) default)
    (h', ⟨a, 0, n, c⟩)

@[simp] theorem read_nil (h : Heap α) : h.read nil = [] := by
  simp [Heap.read, nil]

theorem length_read {h : Heap α} {s : Slice} (hv : s.Valid h) : (h.read s).length = s.len := by
  obtain ⟨hlen, hcap⟩ := hv
  simp only [Heap.read, List.length_take, List.length_drop]
  omega

theorem sub_valid {h : Heap α} {s t : Slice} {lo hi : Nat} (hv : s.Valid h) (ht : s.sub lo hi = some t) :
    t.Valid h := by
  unfold sub at ht
  split_ifs at ht with hbound
  cases ht
  obtain ⟨-, hcap⟩ := hv
  refine ⟨?_, ?_⟩
  · show hi - lo ≤ s.cap - lo
    omega
  · show s.offset + lo + (s.cap - lo) ≤ (h.arrayAt s.array).length
    omega

theorem read_sub {h : Heap α} {s t : Slice} {lo hi : Nat} (hhi : hi ≤ s.len)
    (ht : s.sub lo hi = some t) : h.read t = ((h.read s).drop lo).take (hi - lo) := by
  unfold sub at ht
  split_ifs at ht with hbound
  cases ht
  show ((h.arrayAt s.array).drop (s.offset + lo)).take (hi - lo) =
    ((((h.arrayAt s.array).drop s.offset).take s.len).drop lo).take (hi - lo)
  rw [List.drop_take, List.drop_drop, List.take_take]
  congr 1
  omega

/-- A slice whose window covers a write sees the written elements in place of its own. -/
theorem read_write_within (h : Heap α) {s : Slice} {i : Nat} (xs : List α)
    (hlo : s.offset ≤ i) (hhi : i + xs.length ≤ s.offset + s.len)
    (hfit : s.offset + s.len ≤ (h.arrayAt s.array).length) :
    (h.write s.array i xs).read s =
      (h.read s).take (i - s.offset) ++ xs ++ (h.read s).drop (i - s.offset + xs.length) := by
  simp only [Heap.read]
  rw [Heap.arrayAt_write_self h _ i xs (by omega)]
  exact Heap.window_overwrite _ xs hlo hhi hfit

theorem append_fit [Inhabited α] (g : Growth) (h : Heap α) (s : Slice) (xs : List α)
    (hfit : s.len + xs.length ≤ s.cap) :
    append g h s xs = (h.write s.array (s.offset + s.len) xs, { s with len := s.len + xs.length }) :=
  if_pos hfit

theorem append_grow [Inhabited α] (g : Growth) (h : Heap α) (s : Slice) (xs : List α)
    (hfit : ¬s.len + xs.length ≤ s.cap) :
    append g h s xs =
      let n := s.len + xs.length
      let c := g.newCap s.cap n
      let arr := h.read s ++ xs ++ List.replicate (c - n) default
      ((h.alloc arr).1, ⟨(h.alloc arr).2, 0, n, c⟩) :=
  if_neg hfit

theorem read_append [Inhabited α] (g : Growth) {h : Heap α} {s : Slice} (xs : List α)
    (hv : s.Valid h) : (append g h s xs).1.read (append g h s xs).2 = h.read s ++ xs := by
  obtain ⟨hlen, hcap⟩ := hv
  by_cases hfit : s.len + xs.length ≤ s.cap
  · rw [append_fit g h s xs hfit]
    have hwin := read_write_within (s := { s with len := s.len + xs.length }) h xs
      (i := s.offset + s.len) (by simp) (by simp; omega) (by simp; omega)
    simp only at hwin
    rw [hwin]
    have hlong : (h.read { s with len := s.len + xs.length }).take s.len = h.read s := by
      simp only [Heap.read, List.take_take]
      congr 1
      omega
    have hshort : (h.read { s with len := s.len + xs.length }).drop (s.len + xs.length) = [] := by
      simp only [Heap.read, List.drop_eq_nil_iff, List.length_take]
      omega
    simp only [Nat.add_sub_cancel_left, hlong, hshort, List.append_nil]
  · rw [append_grow g h s xs hfit]
    simp only [Heap.read, Heap.arrayAt_alloc_new, List.drop_zero]
    apply List.take_left'
    simp only [List.length_append, List.length_take, List.length_drop]
    omega

/-- Go's idiom for deleting element `j`, `append(s[:j], s[j+1:]...)`, works inside the array of
`s`: the result shows the list without its `j`-th element, and `s` itself now shows that list
followed by its old last element. -/
theorem append_remove [Inhabited α] (g : Growth) {h : Heap α} {s pre post : Slice} {j : Nat}
    (hv : s.Valid h) (hj : j < s.len) (hpre : s.sub 0 j = some pre)
    (hpost : s.sub (j + 1) s.len = some post) :
    (pre.append g h (h.read post)).1.read (pre.append g h (h.read post)).2 = (h.read s).eraseIdx j ∧
      (pre.append g h (h.read post)).1.read s =
        (h.read s).eraseIdx j ++ (h.read s).drop (s.len - 1) := by
  have hlen := length_read hv
  have hreadPre : h.read pre = (h.read s).take j := by
    rw [read_sub (by omega) hpre, List.drop_zero, Nat.sub_zero]
  have hreadPost : h.read post = (h.read s).drop (j + 1) := by
    rw [read_sub (Nat.le_refl _) hpost, List.take_of_length_le]
    simp only [List.length_drop]
    omega
  have hpreEq : pre = { s with len := j } := by
    unfold sub at hpre
    rw [if_pos (by have := hv.1; omega)] at hpre
    cases hpre
    simp
  have hfit : pre.len + (h.read post).length ≤ pre.cap := by
    rw [hpreEq, hreadPost, List.length_drop]
    have := hv.1
    simp only
    omega
  refine ⟨?_, ?_⟩
  · rw [read_append g _ (sub_valid hv hpre), hreadPre, hreadPost, List.eraseIdx_eq_take_drop_succ]
  · rw [append_fit g h pre _ hfit]
    subst hpreEq
    have hwin := read_write_within h (h.read post) (s := s) (i := s.offset + j) (by omega)
      (by rw [hreadPost, List.length_drop]; omega) (by have := hv.2; have := hv.1; omega)
    simp only
    rw [hwin, hreadPost, List.length_drop, List.eraseIdx_eq_take_drop_succ]
    have hskip : s.offset + j - s.offset = j := by omega
    have hend : j + ((h.read s).length - (j + 1)) = s.len - 1 := by omega
    rw [hskip, hend]

end Slice
