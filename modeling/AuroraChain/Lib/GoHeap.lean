import Mathlib
/-!
# Go's `container/heap`

The sift operations of Go's `container/heap` over an array, with `Less(i, j)` given by an order
`less` on the elements. `down` and `up` are Go's loops. `down` runs at most `n` rounds, since the
index it follows at least doubles and stays below `n`; `up` runs at most `j` rounds, since the
index halves. The loops therefore take that many rounds as fuel.

Whatever the order, every operation only swaps elements, so it returns a permutation of its
input. Callers rely on that to know that no element is lost or made twice. For the same reason a
map that keeps the comparison commutes with every operation: a heap of records ordered by a key
runs as the heap of its keys.
-/

namespace GoHeap

variable {α : Type} (less : α → α → Bool)

/-- `h.Less(i, j)`; false out of bounds, where Go would not call it. -/
def lessAt (h : Array α) (i j : Nat) : Bool :=
  match h[i]?, h[j]? with
  | some a, some b => less a b
  | _, _ => false

/-- The child `down` compares with at `i`: the right one when it is in range and less than the
left one. -/
def child (h : Array α) (i n : Nat) : Nat :=
  if 2 * i + 2 < n ∧ lessAt less h (2 * i + 2) (2 * i + 1) then 2 * i + 2 else 2 * i + 1

theorem child_gt (h : Array α) (i n : Nat) : i < child less h i n := by
  unfold child
  split <;> omega

/-- The loop of `down(h, i0, n)` from index `i`, with `fuel` rounds: the index it stops at. -/
def downLoop (n : Nat) : Nat → Array α → Nat → Array α × Nat
  | 0, h, i => (h, i)
  | fuel + 1, h, i =>
      if n ≤ 2 * i + 1 then (h, i)
      else if !lessAt less h (child less h i n) i then (h, i)
      else downLoop n fuel (h.swapIfInBounds i (child less h i n)) (child less h i n)

/-- `down(h, i0, n)`: sift the element at `i0` down within the first `n`, and whether it moved. -/
def down (h : Array α) (i0 n : Nat) : Array α × Bool :=
  let (h, i) := downLoop less n n h i0
  (h, decide (i0 < i))

/-- The loop of `up(h, j)`, with `fuel` rounds. At `j = 0` the parent `(j - 1) / 2` is `j`
itself, in Go's truncating division as in `Nat`'s. -/
def upLoop : Nat → Array α → Nat → Array α
  | 0, h, _ => h
  | fuel + 1, h, j =>
      let i := (j - 1) / 2
      if i = j ∨ !lessAt less h j i then h
      else upLoop fuel (h.swapIfInBounds i j) i

def up (h : Array α) (j : Nat) : Array α := upLoop less j h j

/-- `heap.Fix(h, i)`: sift down, and up if the element did not move down. -/
def fix (h : Array α) (i : Nat) : Array α :=
  match down less h i h.size with
  | (h, true) => h
  | (h, false) => up less h i

/-- `heap.Pop(h)`: the first element is swapped to the end, the new first sifted down, and the
last element removed and returned. On an empty heap Go's `Swap(0, -1)` panics: `none`. -/
def pop (h : Array α) : Option (α × Array α) :=
  let h' := (down less (h.swapIfInBounds 0 (h.size - 1)) 0 (h.size - 1)).1
  h'.back?.map fun x => (x, h'.pop)

/-- `heap.Push(h, x)`: `x` appended, then sifted up from the last index. -/
def push (h : Array α) (x : α) : Array α := up less (h.push x) h.size

/-- The sift `heap.Remove` makes at `i` among the first `n`: down, or up if the element did not
move down. -/
def siftAt (h : Array α) (i n : Nat) : Array α :=
  match down less h i n with
  | (h, true) => h
  | (h, false) => up less h i

/-- `heap.Remove(h, i)`: the element at `i` swapped with the last, the one now at `i` sifted, and
the last removed and returned. Go indexes out of range for an `i` outside the heap: `none`. -/
def remove (h : Array α) (i : Nat) : Option (α × Array α) :=
  if i < h.size then
    let n := h.size - 1
    let h' := if n ≠ i then siftAt less (h.swapIfInBounds i n) i n else h
    h'.back?.map fun x => (x, h'.pop)
  else none

/-- The loop of `heap.Init` over the parents below `i`, the last first. -/
def initLoop (n : Nat) : Nat → Array α → Array α
  | 0, h => h
  | i + 1, h => initLoop n i (down less h i n).1

/-- `heap.Init(h)`: every parent sifted down, from the last one, `n/2 - 1`, to the root. -/
def init (h : Array α) : Array α := initLoop less h.size (h.size / 2) h

theorem swapIfInBounds_perm (h : Array α) (i j : Nat) : (h.swapIfInBounds i j).Perm h := by
  unfold Array.swapIfInBounds
  split
  · split
    · exact Array.swap_perm _ _
    · exact Array.Perm.refl h
  · exact Array.Perm.refl h

theorem downLoop_perm (n : Nat) :
    ∀ (fuel : Nat) (h : Array α) (i : Nat), (downLoop less n fuel h i).1.Perm h := by
  intro fuel
  induction fuel with
  | zero => intro h i; exact Array.Perm.refl h
  | succ fuel ih =>
      intro h i
      rw [downLoop]
      split
      · exact Array.Perm.refl h
      · split
        · exact Array.Perm.refl h
        · exact (ih _ _).trans (swapIfInBounds_perm h _ _)

theorem upLoop_perm : ∀ (fuel : Nat) (h : Array α) (j : Nat), (upLoop less fuel h j).Perm h := by
  intro fuel
  induction fuel with
  | zero => intro h j; exact Array.Perm.refl h
  | succ fuel ih =>
      intro h j
      rw [upLoop]
      split
      · exact Array.Perm.refl h
      · exact (ih _ _).trans (swapIfInBounds_perm h _ _)

theorem down_perm (h : Array α) (i0 n : Nat) : (down less h i0 n).1.Perm h :=
  downLoop_perm less n n h i0

theorem fix_perm (h : Array α) (i : Nat) : (fix less h i).Perm h := by
  unfold fix
  have hdown := down_perm less h i h.size
  split
  · rename_i h' heq
    rw [heq] at hdown
    exact hdown
  · rename_i h' heq
    rw [heq] at hdown
    exact (upLoop_perm less _ _ _).trans hdown

theorem pop_perm {h h' : Array α} {x : α} (hpop : pop less h = some (x, h')) :
    (h'.push x).Perm h := by
  simp only [pop] at hpop
  set h'' := (down less (h.swapIfInBounds 0 (h.size - 1)) 0 (h.size - 1)).1 with hdef
  have hperm : h''.Perm h :=
    (down_perm less _ 0 _).trans (swapIfInBounds_perm h 0 _)
  cases hback : h''.back? with
  | none =>
      rw [hback] at hpop
      cases hpop
  | some y =>
      rw [hback] at hpop
      simp only [Option.map_some, Option.some.injEq, Prod.mk.injEq] at hpop
      obtain ⟨rfl, rfl⟩ := hpop
      obtain ⟨ys, hys⟩ := Array.back?_eq_some_iff.mp hback
      rw [hys, Array.pop_push, ← hys]
      exact hperm

theorem pop_isSome {h : Array α} (hsize : 0 < h.size) : (pop less h).isSome := by
  have hperm := (down_perm less (h.swapIfInBounds 0 (h.size - 1)) 0 (h.size - 1)).trans
    (swapIfInBounds_perm h 0 (h.size - 1))
  have hback : ((down less (h.swapIfInBounds 0 (h.size - 1)) 0 (h.size - 1)).1.back?).isSome := by
    rw [Array.back?_eq_getElem?, Array.getElem?_eq_getElem (by rw [hperm.size_eq]; omega)]
    rfl
  simp only [pop, Option.isSome_map]
  exact hback

/-! ### What the sifts leave in place -/

theorem swapIfInBounds_getElem?_of_ne (h : Array α) {i j k : Nat} (hi : k ≠ i) (hj : k ≠ j) :
    (h.swapIfInBounds i j)[k]? = h[k]? := by
  by_cases hk : k < h.size
  · rw [Array.getElem?_eq_getElem (by simpa using hk), Array.getElem?_eq_getElem hk,
      Array.getElem_swapIfInBounds_of_ne_of_ne hi hj]
  · rw [Array.getElem?_eq_none (by simpa using hk), Array.getElem?_eq_none (by omega)]

theorem downLoop_getElem?_of_le (n : Nat) :
    ∀ (fuel : Nat) (h : Array α) (i k : Nat), i < n → n ≤ k →
      (downLoop less n fuel h i).1[k]? = h[k]? := by
  intro fuel
  induction fuel with
  | zero => intro h i k _ _; rfl
  | succ fuel ih =>
      intro h i k hi hk
      rw [downLoop]
      split
      · rfl
      · rename_i hstop
        split
        · rfl
        · have hchild : child less h i n < n := by unfold child; split <;> omega
          rw [ih _ _ _ hchild hk]
          exact swapIfInBounds_getElem?_of_ne h (by omega) (by omega)

theorem upLoop_getElem?_of_lt :
    ∀ (fuel : Nat) (h : Array α) (j k : Nat), j < k → (upLoop less fuel h j)[k]? = h[k]? := by
  intro fuel
  induction fuel with
  | zero => intro h j k _; rfl
  | succ fuel ih =>
      intro h j k hjk
      rw [upLoop]
      split
      · rfl
      · have hparent : (j - 1) / 2 < k := by omega
        rw [ih _ _ _ hparent]
        exact swapIfInBounds_getElem?_of_ne h (by omega) (by omega)

theorem siftAt_perm (h : Array α) (i n : Nat) : (siftAt less h i n).Perm h := by
  unfold siftAt
  have hdown := down_perm less h i n
  split
  · rename_i h' heq
    rw [heq] at hdown
    exact hdown
  · rename_i h' heq
    rw [heq] at hdown
    exact (upLoop_perm less _ _ _).trans hdown

theorem siftAt_getElem?_of_le (h : Array α) {i n k : Nat} (hi : i < n) (hk : n ≤ k) :
    (siftAt less h i n)[k]? = h[k]? := by
  have hdown := downLoop_getElem?_of_le less n n h i k hi hk
  unfold siftAt down
  split
  · rename_i h' heq
    simp only [Prod.mk.injEq] at heq
    rw [← heq.1, hdown]
  · rename_i h' heq
    simp only [Prod.mk.injEq] at heq
    rw [up, upLoop_getElem?_of_lt less _ _ _ _ (by omega), ← heq.1, hdown]

theorem remove_fst {h h' : Array α} {i : Nat} {x : α} (hrem : remove less h i = some (x, h')) :
    h[i]? = some x := by
  unfold remove at hrem
  split at hrem
  · rename_i hi
    dsimp only at hrem
    -- the element at `i` is moved to the last place, which the sift does not touch
    set h'' := if h.size - 1 ≠ i then siftAt less (h.swapIfInBounds i (h.size - 1)) i (h.size - 1)
      else h with hdef
    have hsize : h''.size = h.size := by
      rw [hdef]
      split
      · rw [(siftAt_perm less _ _ _).size_eq, Array.size_swapIfInBounds]
      · rfl
    have hlast : h''[h.size - 1]? = h[i]? := by
      rw [hdef]
      split
      · rename_i hne
        rw [siftAt_getElem?_of_le less _ (by omega) (Nat.le_refl _),
          Array.getElem?_eq_getElem (by simp; omega), Array.getElem?_eq_getElem hi,
          Array.getElem_swapIfInBounds_right hi]
      · rename_i heq
        rw [not_not] at heq
        rw [heq]
    have hback : h''.back? = h[i]? := by
      rw [Array.back?_eq_getElem?, hsize, hlast]
    rw [hback] at hrem
    rw [Array.getElem?_eq_getElem hi] at hrem ⊢
    simp only [Option.map_some, Option.some.injEq, Prod.mk.injEq] at hrem
    rw [hrem.1]
  · cases hrem

theorem pop_fst {h h' : Array α} {x : α} (hpop : pop less h = some (x, h')) : h[0]? = some x := by
  unfold pop at hpop
  dsimp only at hpop
  set h'' := (down less (h.swapIfInBounds 0 (h.size - 1)) 0 (h.size - 1)).1 with hdef
  have hsize : h''.size = h.size := by
    rw [hdef, (down_perm less _ _ _).size_eq, Array.size_swapIfInBounds]
  have hpos : 0 < h.size := by
    by_contra hempty
    have hnil : h''.back? = none := by
      rw [Array.back?_eq_getElem?, hsize]
      exact Array.getElem?_eq_none (by omega)
    rw [hnil] at hpop
    cases hpop
  have hlast : h''[h.size - 1]? = h[0]? := by
    have hswap : (h.swapIfInBounds 0 (h.size - 1))[h.size - 1]? = h[0]? := by
      rw [Array.getElem?_eq_getElem (by simp; omega), Array.getElem?_eq_getElem hpos,
        Array.getElem_swapIfInBounds_right hpos]
    rw [hdef]
    unfold down
    split
    · rename_i g i heq
      rcases Nat.lt_or_ge 0 (h.size - 1) with hlong | hshort
      · have hframe := downLoop_getElem?_of_le less (h.size - 1) (h.size - 1)
          (h.swapIfInBounds 0 (h.size - 1)) 0 (h.size - 1) hlong (Nat.le_refl _)
        rw [heq] at hframe
        rw [hframe, hswap]
      · have hzero : h.size - 1 = 0 := by omega
        rw [hzero] at heq hswap
        simp only [downLoop, Prod.mk.injEq] at heq
        rw [← heq.1, hzero, hswap]
  have hback : h''.back? = h[0]? := by
    rw [Array.back?_eq_getElem?, hsize, hlast]
  rw [hback, Array.getElem?_eq_getElem hpos] at hpop
  simp only [Option.map_some, Option.some.injEq, Prod.mk.injEq] at hpop
  rw [Array.getElem?_eq_getElem hpos, hpop.1]

theorem push_perm (h : Array α) (x : α) : (push less h x).Perm (h.push x) :=
  upLoop_perm less _ _ _

theorem back?_pop_perm {h : Array α} {x : α} {h' : Array α}
    (hx : h.back?.map (fun x => (x, h.pop)) = some (x, h')) : (h'.push x).Perm h := by
  cases hback : h.back? with
  | none =>
      rw [hback] at hx
      cases hx
  | some y =>
      rw [hback] at hx
      simp only [Option.map_some, Option.some.injEq, Prod.mk.injEq] at hx
      obtain ⟨rfl, rfl⟩ := hx
      obtain ⟨ys, hys⟩ := Array.back?_eq_some_iff.mp hback
      rw [hys, Array.pop_push]

theorem remove_perm {h h' : Array α} {i : Nat} {x : α} (hrem : remove less h i = some (x, h')) :
    (h'.push x).Perm h := by
  unfold remove at hrem
  split at hrem
  · dsimp only at hrem
    have hmid : (if h.size - 1 ≠ i then siftAt less (h.swapIfInBounds i (h.size - 1)) i (h.size - 1)
        else h).Perm h := by
      split
      · exact (siftAt_perm less _ _ _).trans (swapIfInBounds_perm h i _)
      · exact Array.Perm.refl h
    exact (back?_pop_perm hrem).trans hmid
  · cases hrem

theorem remove_isSome {h : Array α} {i : Nat} (hi : i < h.size) : (remove less h i).isSome := by
  rw [remove, if_pos hi]
  dsimp only
  have hmid : (if h.size - 1 ≠ i then siftAt less (h.swapIfInBounds i (h.size - 1)) i (h.size - 1)
      else h).size = h.size := by
    split
    · rw [((siftAt_perm less _ _ _).trans (swapIfInBounds_perm h i _)).size_eq]
    · rfl
  rw [Option.isSome_map, Array.back?_eq_getElem?, Array.getElem?_eq_getElem (by omega)]
  rfl

theorem down_eq (h : Array α) (i0 n : Nat) :
    down less h i0 n = ((downLoop less n n h i0).1, decide (i0 < (downLoop less n n h i0).2)) :=
  rfl

/-- The index `down` follows only grows, and where it does not, nothing was swapped. -/
theorem downLoop_index (n : Nat) :
    ∀ (fuel : Nat) (h : Array α) (i : Nat),
      i ≤ (downLoop less n fuel h i).2 ∧
        ((downLoop less n fuel h i).2 = i → (downLoop less n fuel h i).1 = h) := by
  intro fuel
  induction fuel with
  | zero => intro h i; exact ⟨le_rfl, fun _ => rfl⟩
  | succ fuel ih =>
      intro h i
      rw [downLoop]
      split
      · exact ⟨le_rfl, fun _ => rfl⟩
      · split
        · exact ⟨le_rfl, fun _ => rfl⟩
        · have hchild := child_gt less h i n
          have hge := (ih (h.swapIfInBounds i (child less h i n)) (child less h i n)).1
          exact ⟨by omega, fun heq => absurd heq (by omega)⟩

theorem initLoop_perm (n : Nat) : ∀ (i : Nat) (h : Array α), (initLoop less n i h).Perm h := by
  intro i
  induction i with
  | zero => intro h; exact Array.Perm.refl h
  | succ i ih =>
      intro h
      rw [initLoop]
      exact (ih _).trans (down_perm less h i n)

theorem init_perm (h : Array α) : (init less h).Perm h := initLoop_perm less _ _ _

theorem foldl_push_perm (h : Array α) (xs : List α) :
    (xs.foldl (push less) h).toList.Perm (h.toList ++ xs) := by
  induction xs generalizing h with
  | nil => simp
  | cons x xs ih =>
      rw [List.foldl_cons]
      have hx := Array.perm_iff_toList_perm.mp (push_perm less h x)
      rw [Array.toList_push] at hx
      refine (ih _).trans ?_
      simpa using hx.append_right xs

/-! ### The operations under a map -/

section Map

variable {β : Type} {lessB : β → β → Bool} {f : α → β}

theorem swapIfInBounds_map (h : Array α) (i j : Nat) :
    (h.swapIfInBounds i j).map f = (h.map f).swapIfInBounds i j := by
  apply Array.ext (by simp)
  intro k hk _
  have hks : k < h.size := by simpa using hk
  rw [Array.getElem_map]
  by_cases hkj : k = j
  · subst hkj
    by_cases hi : i < h.size
    · rw [Array.getElem_swapIfInBounds_right hi, Array.getElem_swapIfInBounds_right (by simpa),
        Array.getElem_map]
    · rw [Array.getElem_swapIfInBounds_of_size_le_left (not_lt.mp hi),
        Array.getElem_swapIfInBounds_of_size_le_left (by simpa using hi), Array.getElem_map]
  · by_cases hki : k = i
    · subst hki
      by_cases hj : j < h.size
      · rw [Array.getElem_swapIfInBounds_left hj, Array.getElem_swapIfInBounds_left (by simpa),
          Array.getElem_map]
      · rw [Array.getElem_swapIfInBounds_of_size_le_right (not_lt.mp hj),
          Array.getElem_swapIfInBounds_of_size_le_right (by simpa using hj), Array.getElem_map]
    · rw [Array.getElem_swapIfInBounds_of_ne_of_ne hki hkj,
        Array.getElem_swapIfInBounds_of_ne_of_ne hki hkj, Array.getElem_map]

variable (hf : ∀ a b, less a b = lessB (f a) (f b))
include hf

theorem lessAt_map (h : Array α) (i j : Nat) : lessAt lessB (h.map f) i j = lessAt less h i j := by
  unfold lessAt
  rw [Array.getElem?_map, Array.getElem?_map]
  cases h[i]? <;> cases h[j]? <;> simp [hf]

theorem child_map (h : Array α) (i n : Nat) : child lessB (h.map f) i n = child less h i n := by
  rw [child, child, lessAt_map less hf]

theorem downLoop_map (n : Nat) : ∀ (fuel : Nat) (h : Array α) (i : Nat),
    downLoop lessB n fuel (h.map f) i =
      ((downLoop less n fuel h i).1.map f, (downLoop less n fuel h i).2)
  | 0, h, i => rfl
  | fuel + 1, h, i => by
      rw [downLoop, downLoop, child_map less hf, lessAt_map less hf]
      split_ifs
      · rfl
      · rfl
      · rw [← swapIfInBounds_map, downLoop_map n fuel]

theorem upLoop_map : ∀ (fuel : Nat) (h : Array α) (j : Nat),
    upLoop lessB fuel (h.map f) j = (upLoop less fuel h j).map f
  | 0, h, j => rfl
  | fuel + 1, h, j => by
      rw [upLoop, upLoop, lessAt_map less hf]
      split_ifs
      · rfl
      · rw [← swapIfInBounds_map, upLoop_map fuel]

theorem down_map (h : Array α) (i0 n : Nat) :
    down lessB (h.map f) i0 n = ((down less h i0 n).1.map f, (down less h i0 n).2) := by
  rw [down_eq, down_eq, downLoop_map less hf]

theorem push_map (h : Array α) (x : α) : push lessB (h.map f) (f x) = (push less h x).map f := by
  rw [push, push, ← Array.map_push, Array.size_map, up, up, upLoop_map less hf]

theorem pop_map (h : Array α) :
    pop lessB (h.map f) = (pop less h).map fun r => (f r.1, r.2.map f) := by
  rw [pop, pop, Array.size_map, ← swapIfInBounds_map, down_map less hf, Array.back?_map,
    ← Array.map_pop, Option.map_map, Option.map_map]
  rfl

theorem siftAt_map (h : Array α) (i n : Nat) :
    siftAt lessB (h.map f) i n = (siftAt less h i n).map f := by
  rw [siftAt, siftAt, down_map less hf]
  cases down less h i n with
  | mk h' moved =>
      cases moved
      · show up lessB (h'.map f) i = (up less h' i).map f
        rw [up, up, upLoop_map less hf]
      · rfl

theorem remove_map (h : Array α) (i : Nat) :
    remove lessB (h.map f) i = (remove less h i).map fun r => (f r.1, r.2.map f) := by
  rw [remove, remove, Array.size_map]
  split_ifs
  · dsimp only
    have hsift : (if h.size - 1 ≠ i then siftAt lessB ((h.map f).swapIfInBounds i (h.size - 1)) i
        (h.size - 1) else h.map f) =
        (if h.size - 1 ≠ i then siftAt less (h.swapIfInBounds i (h.size - 1)) i (h.size - 1)
          else h).map f := by
      split_ifs
      · rw [← swapIfInBounds_map, siftAt_map less hf]
      · rfl
    rw [hsift, Array.back?_map, ← Array.map_pop, Option.map_map, Option.map_map]
    rfl
  · rfl

end Map

end GoHeap
