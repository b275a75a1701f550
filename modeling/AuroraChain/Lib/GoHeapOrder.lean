import AuroraChain.Lib.GoHeap
/-!
# The heap order of `container/heap`

With `Less` the `<` of a linear order (`ltLess`), Go's heap operations keep the heap order on the
elements they manage: no element is before its parent (`Ordered`). The first element is then the
least (`Ordered.entry_zero_le`), and that is the one `Pop` returns.

The sifts are proved against a heap ordered except around one position, the hole, where the
element being sifted stands. `down` from the hole needs the pairs off the hole in order and the
hole's parent at or before the hole's children (`DownOrder`); a round swaps the hole with its
lesser child and keeps that (`DownOrder.move`). `up` needs every pair but the one above the hole
in order, and the same condition across the hole (`UpOrder`). `heap.Init` sifts down from the
last parent to the root, so `DownOrder` takes a floor `lo` below which pairs are not yet required,
and `Init`'s rounds are the same lemma.
-/

namespace GoHeap

/-! ### Positions -/

/-- The parent of `k` in the heap's tree, `(k - 1) / 2`; position `0` is nobody's child. -/
def parent (k : Nat) : Nat := (k - 1) / 2

theorem parent_lt {k : Nat} (hk : 0 < k) : parent k < k := by
  unfold parent
  omega

theorem child_cases {α : Type} (less : α → α → Bool) (h : Array α) (i n : Nat) :
    child less h i n = 2 * i + 1 ∨ child less h i n = 2 * i + 2 := by
  unfold child
  split
  · exact .inr rfl
  · exact .inl rfl

theorem parent_child {α : Type} (less : α → α → Bool) (h : Array α) (i n : Nat) :
    parent (child less h i n) = i := by
  rcases child_cases less h i n with hc | hc <;> rw [hc] <;> unfold parent <;> omega

theorem child_lt {α : Type} (less : α → α → Bool) (h : Array α) {i n : Nat} (hc : 2 * i + 1 < n) :
    child less h i n < n := by
  unfold child
  split <;> omega

section Entry

variable {α : Type} [Inhabited α]

/-- The element at `k`, the default past the end. -/
def entry (h : Array α) (k : Nat) : α := h[k]?.getD default

/-! ### The elements under the array operations -/

theorem entry_swap {h : Array α} {i j : Nat} (hi : i < h.size) (hj : j < h.size) (k : Nat) :
    entry (h.swapIfInBounds i j) k =
      if k = i then entry h j else if k = j then entry h i else entry h k := by
  unfold entry
  by_cases hki : k = i
  · subst hki
    rw [if_pos rfl, Array.getElem?_eq_getElem (by rwa [Array.size_swapIfInBounds]),
      Array.getElem_swapIfInBounds_left hj, Array.getElem?_eq_getElem hj]
  · by_cases hkj : k = j
    · subst hkj
      rw [if_neg hki, if_pos rfl, Array.getElem?_eq_getElem (by rwa [Array.size_swapIfInBounds]),
        Array.getElem_swapIfInBounds_right hi, Array.getElem?_eq_getElem hi]
    · rw [if_neg hki, if_neg hkj, swapIfInBounds_getElem?_of_ne h hki hkj]

theorem entry_push {h : Array α} {k : Nat} (hk : k < h.size) (x : α) :
    entry (h.push x) k = entry h k := by
  unfold entry
  rw [Array.getElem?_push, if_neg (by omega)]

theorem entry_pop {h : Array α} {k : Nat} (hk : k < h.size - 1) : entry h.pop k = entry h k := by
  unfold entry
  rw [Array.getElem?_pop, if_pos hk]

theorem entry_eq_getElem {h : Array α} {k : Nat} (hk : k < h.size) : entry h k = h[k] := by
  unfold entry
  rw [Array.getElem?_eq_getElem hk]
  rfl

end Entry

section Order

variable {α : Type} [LinearOrder α] [Inhabited α]

/-- `Less` of a heap of ordered values: `h[i] < h[j]`. -/
def ltLess (a b : α) : Bool := decide (a < b)

/-- The heap order on the first `n` elements. -/
def Ordered (h : Array α) (n : Nat) : Prop :=
  ∀ k, 0 < k → k < n → entry h (parent k) ≤ entry h k

/-- The heap order on the first `n` elements for the pairs whose parent is at `lo` or after. -/
def OrderedFrom (h : Array α) (n lo : Nat) : Prop :=
  ∀ k, 0 < k → k < n → lo ≤ parent k → entry h (parent k) ≤ entry h k

theorem OrderedFrom.ordered {h : Array α} {n : Nat} (ho : OrderedFrom h n 0) : Ordered h n :=
  fun k hk0 hk => ho k hk0 hk (Nat.zero_le _)

theorem lessAt_ltLess {h : Array α} {a b : Nat} (ha : a < h.size) (hb : b < h.size) :
    lessAt ltLess h a b = decide (entry h a < entry h b) := by
  unfold lessAt entry
  rw [Array.getElem?_eq_getElem ha, Array.getElem?_eq_getElem hb]
  rfl

theorem child_min {h : Array α} {i n : Nat} (hn : n ≤ h.size) {k : Nat}
    (hk0 : 0 < k) (hk : k < n) (hpk : parent k = i) :
    entry h (child ltLess h i n) ≤ entry h k := by
  have hk' : k = 2 * i + 1 ∨ k = 2 * i + 2 := by
    unfold parent at hpk
    omega
  unfold child
  split
  · rename_i hright
    obtain ⟨hr, hless⟩ := hright
    rw [lessAt_ltLess (by omega) (by omega), decide_eq_true_iff] at hless
    rcases hk' with rfl | rfl
    · exact hless.le
    · exact le_rfl
  · rename_i hleft
    rcases hk' with rfl | rfl
    · exact le_rfl
    · have hnot : ¬lessAt ltLess h (2 * i + 2) (2 * i + 1) = true := fun hl => hleft ⟨hk, hl⟩
      rw [lessAt_ltLess (by omega) (by omega), decide_eq_true_iff] at hnot
      exact not_lt.mp hnot

theorem Ordered.entry_zero_le {h : Array α} {n : Nat} (ho : Ordered h n) :
    ∀ k, k < n → entry h 0 ≤ entry h k := by
  intro k
  induction k using Nat.strong_induction_on with
  | _ k ih =>
      intro hk
      rcases Nat.eq_zero_or_pos k with rfl | hk0
      · exact le_rfl
      · have hp := parent_lt hk0
        exact (ih (parent k) hp (by omega)).trans (ho k hk0 hk)

/-! ### `down` -/

/-- What `down` needs at the hole: the pairs among the first `n` from the floor `lo` on that do
not touch the hole in order, and the hole's parent at or before the hole's children. -/
structure DownOrder (h : Array α) (n lo hole : Nat) : Prop where
  except : ∀ k, 0 < k → k < n → lo ≤ parent k → k ≠ hole → parent k ≠ hole →
    entry h (parent k) ≤ entry h k
  grand : 0 < hole → lo ≤ parent hole → ∀ k, 0 < k → k < n → parent k = hole →
    entry h (parent hole) ≤ entry h k

theorem DownOrder.move {h : Array α} {n lo i : Nat} (o : DownOrder h n lo i) (hn : n ≤ h.size)
    (hlo : lo ≤ i) (hc : 2 * i + 1 < n) (hlt : entry h (child ltLess h i n) < entry h i) :
    DownOrder (h.swapIfInBounds i (child ltLess h i n)) n lo (child ltLess h i n) := by
  have hcn : child ltLess h i n < n := child_lt ltLess h hc
  have hpc : parent (child ltLess h i n) = i := parent_child ltLess h i n
  have hic : i < child ltLess h i n := child_gt ltLess h i n
  have hswap := entry_swap (h := h) (i := i) (j := child ltLess h i n) (by omega) (by omega)
  constructor
  · intro k hk0 hk hlok hkc hpkc
    rw [hswap, hswap]
    by_cases hki : k = i
    · subst hki
      have hp := parent_lt hk0
      rw [if_neg hp.ne, if_neg (by omega), if_pos rfl]
      exact o.grand hk0 hlok _ (by omega) hcn hpc
    · by_cases hpki : parent k = i
      · rw [if_pos hpki, if_neg hki, if_neg hkc]
        exact child_min hn hk0 hk hpki
      · rw [if_neg hpki, if_neg hpkc, if_neg hki, if_neg hkc]
        exact o.except k hk0 hk hlok hki hpki
  · intro _ _ k hk0 hk hpk
    have hp := parent_lt hk0
    rw [hswap, hswap, hpc, if_pos rfl, if_neg (by omega), if_neg (by omega)]
    have hold := o.except k hk0 hk (by omega) (by omega) (by omega)
    rwa [hpk] at hold

/-- `down` stops at the hole: the hole is at or before its children, so only the pair above the
hole may be out of order. -/
theorem DownOrder.finish {h : Array α} {n lo i : Nat} (o : DownOrder h n lo i)
    (hstop : ∀ k, 0 < k → k < n → parent k = i → entry h i ≤ entry h k) :
    ∀ k, 0 < k → k < n → lo ≤ parent k → k ≠ i → entry h (parent k) ≤ entry h k := by
  intro k hk0 hk hlok hki
  by_cases hpki : parent k = i
  · rw [hpki]
    exact hstop k hk0 hk hpki
  · exact o.except k hk0 hk hlok hki hpki

/-- The loop of `down`, with enough fuel, leaves every pair from the floor on in order but the one
above where it started, and that one too if it moved. -/
theorem downLoop_order {n lo : Nat} (fuel : Nat) :
    ∀ (h : Array α) (i : Nat), n ≤ h.size → lo ≤ i → n - i ≤ fuel → DownOrder h n lo i →
      (∀ k, 0 < k → k < n → lo ≤ parent k → k ≠ i →
        entry (downLoop ltLess n fuel h i).1 (parent k) ≤ entry (downLoop ltLess n fuel h i).1 k) ∧
      (i < (downLoop ltLess n fuel h i).2 → 0 < i → lo ≤ parent i →
        entry (downLoop ltLess n fuel h i).1 (parent i) ≤ entry (downLoop ltLess n fuel h i).1 i) := by
  induction fuel with
  | zero =>
      intro h i _ _ hfuel o
      -- no fuel: the hole is past the first `n`, so it has no children there
      refine ⟨o.finish fun k hk0 hk hpk => ?_, fun hlt => absurd hlt (lt_irrefl i)⟩
      have hp := parent_lt hk0
      omega
  | succ fuel ih =>
      intro h i hn hlo hfuel o
      rw [downLoop]
      split
      · rename_i hleaf
        refine ⟨o.finish fun k hk0 hk hpk => ?_, fun hlt => absurd hlt (lt_irrefl i)⟩
        unfold parent at hpk
        omega
      · rename_i hleaf
        have hc : 2 * i + 1 < n := by omega
        have hcn : child ltLess h i n < n := child_lt ltLess h hc
        have hic : i < child ltLess h i n := child_gt ltLess h i n
        split
        · rename_i hstay
          rw [lessAt_ltLess (by omega) (by omega), Bool.not_eq_true', decide_eq_false_iff_not,
            not_lt] at hstay
          refine ⟨o.finish fun k hk0 hk hpk => ?_, fun hlt => absurd hlt (lt_irrefl i)⟩
          exact hstay.trans (child_min hn hk0 hk hpk)
        · rename_i hswap
          rw [lessAt_ltLess (by omega) (by omega), Bool.not_eq_true', Bool.not_eq_false,
            decide_eq_true_iff] at hswap
          have o' := o.move hn hlo hc hswap
          obtain ⟨hrest, hmoved⟩ := ih _ _ (by rwa [Array.size_swapIfInBounds]) (by omega)
            (by omega) o'
          obtain ⟨hge, heq⟩ := downLoop_index ltLess n fuel
            (h.swapIfInBounds i (child ltLess h i n)) (child ltLess h i n)
          refine ⟨fun k hk0 hk hlok hki => ?_, fun _ hi0 hloi => hrest i hi0 (by omega) hloi
            (by omega)⟩
          by_cases hkc : k = child ltLess h i n
          · subst hkc
            rcases Nat.lt_or_ge (child ltLess h i n)
              (downLoop ltLess n fuel (h.swapIfInBounds i (child ltLess h i n))
                (child ltLess h i n)).2 with hlt | hle
            · exact hmoved hlt (by omega) (by rw [parent_child]; exact hlo)
            · rw [heq (by omega), parent_child,
                entry_swap (by omega) (by omega), entry_swap (by omega) (by omega),
                if_pos rfl, if_neg hic.ne', if_pos rfl]
              exact hswap.le
          · exact hrest k hk0 hk hlok hkc

/-- `down(h, i, n)` from a heap ordered but at the hole: what `downLoop_order` gives, with the flag
`down` returns for whether the hole moved. -/
theorem down_order {h : Array α} {n lo i : Nat} (hn : n ≤ h.size) (hlo : lo ≤ i)
    (o : DownOrder h n lo i) :
    (∀ k, 0 < k → k < n → lo ≤ parent k → k ≠ i →
      entry (down ltLess h i n).1 (parent k) ≤ entry (down ltLess h i n).1 k) ∧
    ((down ltLess h i n).2 = true → 0 < i → lo ≤ parent i →
      entry (down ltLess h i n).1 (parent i) ≤ entry (down ltLess h i n).1 i) ∧
    ((down ltLess h i n).2 = false → (down ltLess h i n).1 = h) := by
  rw [down_eq]
  obtain ⟨hrest, hmoved⟩ := downLoop_order n h i hn hlo (Nat.sub_le n i) o
  obtain ⟨hge, heq⟩ := downLoop_index ltLess n n h i
  refine ⟨hrest, fun hflag => hmoved (decide_eq_true_iff.mp hflag), fun hflag => heq ?_⟩
  rw [decide_eq_false_iff_not, not_lt] at hflag
  omega

/-! ### `up` -/

/-- What `up` needs at the hole: every pair among the first `n` but the one above the hole in
order, and the hole's parent at or before the hole's children. -/
structure UpOrder (h : Array α) (n hole : Nat) : Prop where
  except : ∀ k, 0 < k → k < n → k ≠ hole → entry h (parent k) ≤ entry h k
  grand : 0 < hole → ∀ k, 0 < k → k < n → parent k = hole → entry h (parent hole) ≤ entry h k

theorem UpOrder.move {h : Array α} {n j : Nat} (o : UpOrder h n j) (hn : n ≤ h.size) (hj : j < n)
    (hj0 : 0 < j) (hlt : entry h j < entry h (parent j)) :
    UpOrder (h.swapIfInBounds (parent j) j) n (parent j) := by
  have hpj := parent_lt hj0
  have hswap := entry_swap (h := h) (i := parent j) (j := j) (by omega) (by omega)
  have hbelow : ∀ k, 0 < k → k < n → parent k = parent j → k ≠ j → entry h (parent j) ≤ entry h k :=
    fun k hk0 hk hpk hkj => hpk ▸ o.except k hk0 hk hkj
  constructor
  · intro k hk0 hk hkp
    have hp := parent_lt hk0
    rw [hswap, hswap]
    by_cases hkj : k = j
    · subst hkj
      rw [if_pos rfl, if_neg hkp, if_pos rfl]
      exact hlt.le
    · rw [if_neg hkp, if_neg hkj]
      by_cases hpkj : parent k = j
      · rw [if_neg (by omega), if_pos hpkj]
        exact o.grand hj0 k hk0 hk hpkj
      · by_cases hpkp : parent k = parent j
        · rw [if_pos hpkp]
          exact hlt.le.trans (hbelow k hk0 hk hpkp hkj)
        · rw [if_neg hpkp, if_neg hpkj]
          exact o.except k hk0 hk hkj
  · intro hp0 k hk0 hk hpk
    have hpp := parent_lt hp0
    have hkp : k ≠ parent j := fun hkp => hpp.ne (hkp ▸ hpk)
    rw [hswap, hswap, if_neg hpp.ne, if_neg (by omega), if_neg hkp]
    have habove : entry h (parent (parent j)) ≤ entry h (parent j) :=
      o.except (parent j) hp0 (by omega) hpj.ne
    by_cases hkj : k = j
    · subst hkj
      rw [if_pos rfl]
      exact habove
    · rw [if_neg hkj]
      exact habove.trans (hbelow k hk0 hk hpk hkj)

theorem UpOrder.finish {h : Array α} {n j : Nat} (o : UpOrder h n j)
    (hstop : 0 < j → entry h (parent j) ≤ entry h j) : Ordered h n := by
  intro k hk0 hk
  by_cases hkj : k = j
  · subst hkj
    exact hstop hk0
  · exact o.except k hk0 hk hkj

theorem upLoop_order {n : Nat} (fuel : Nat) :
    ∀ (h : Array α) (j : Nat), n ≤ h.size → j < n → j ≤ fuel → UpOrder h n j →
      Ordered (upLoop ltLess fuel h j) n := by
  induction fuel with
  | zero =>
      intro h j _ _ hfuel o
      exact o.finish fun hj0 => absurd hj0 (by omega)
  | succ fuel ih =>
      intro h j hn hj hfuel o
      rw [upLoop]
      split
      · rename_i hstop
        refine o.finish fun hj0 => ?_
        rcases hstop with hroot | hnot
        · unfold parent at *
          omega
        · rw [lessAt_ltLess (by omega) (by omega), Bool.not_eq_true', decide_eq_false_iff_not,
            not_lt] at hnot
          exact hnot
      · rename_i hgo
        rw [not_or, lessAt_ltLess (by omega) (by omega), Bool.not_eq_true', Bool.not_eq_false,
          decide_eq_true_iff] at hgo
        have hj0 : 0 < j := by omega
        have hpj := parent_lt hj0
        exact ih _ _ (by rwa [Array.size_swapIfInBounds]) (by omega) (by omega)
          (o.move hn hj hj0 hgo.2)

/-! ### The operations -/

theorem Ordered.push {h : Array α} (ho : Ordered h h.size) (x : α) :
    Ordered (push ltLess h x) (push ltLess h x).size := by
  rw [(push_perm ltLess h x).size_eq, Array.size_push]
  refine upLoop_order _ _ _ (by rw [Array.size_push]) (Nat.lt_succ_self _) le_rfl ⟨?_, ?_⟩
  · intro k hk0 hk hks
    have hp := parent_lt hk0
    rw [entry_push (by omega), entry_push (by omega)]
    exact ho k hk0 (by omega)
  · intro _ k hk0 hk hpk
    unfold parent at hpk
    omega

theorem Ordered.pop {h : Array α} {n : Nat} (ho : Ordered h n) (hn : n = h.size - 1) :
    Ordered h.pop h.pop.size := by
  intro k hk0 hk
  rw [Array.size_pop] at hk
  have hp := parent_lt hk0
  rw [entry_pop (by omega), entry_pop (by omega)]
  exact ho k hk0 (by omega)

theorem Ordered.heapPop {h h' : Array α} {x : α} (ho : Ordered h h.size)
    (hpop : GoHeap.pop ltLess h = some (x, h')) : Ordered h' h'.size := by
  unfold GoHeap.pop at hpop
  dsimp only at hpop
  set r := (down ltLess (h.swapIfInBounds 0 (h.size - 1)) 0 (h.size - 1)).1 with hr
  have hsize : r.size = h.size := by
    rw [hr, (down_perm ltLess _ _ _).size_eq, Array.size_swapIfInBounds]
  cases hback : r.back? with
  | none =>
      rw [hback] at hpop
      cases hpop
  | some y =>
      rw [hback] at hpop
      simp only [Option.map_some, Option.some.injEq, Prod.mk.injEq] at hpop
      obtain ⟨-, rfl⟩ := hpop
      have hpos : 0 < h.size := by
        rw [← hsize]
        exact Array.size_pos_iff.mpr fun he => by simp [he] at hback
      have o : DownOrder (h.swapIfInBounds 0 (h.size - 1)) (h.size - 1) 0 0 := by
        refine ⟨fun k hk0 hk _ hk0' hpk0 => ?_, fun h0 => absurd h0 (lt_irrefl 0)⟩
        have hp := parent_lt hk0
        rw [entry_swap hpos (by omega), entry_swap hpos (by omega), if_neg hpk0,
          if_neg (by omega), if_neg hk0', if_neg (by omega)]
        exact ho k hk0 (by omega)
      have hdown := (down_order (by rw [Array.size_swapIfInBounds]; omega) le_rfl o).1
      refine Ordered.pop (n := h.size - 1) (fun k hk0 hk => ?_) (by rw [hsize])
      exact hdown k hk0 hk (Nat.zero_le _) hk0.ne'

theorem Ordered.pop_le {h h' : Array α} {x : α} (ho : Ordered h h.size)
    (hpop : GoHeap.pop ltLess h = some (x, h')) : ∀ y ∈ h', x ≤ y := by
  intro y hy
  have hyh : y ∈ h := (pop_perm ltLess hpop).mem_iff.mp (Array.mem_push_of_mem x hy)
  obtain ⟨k, hk, rfl⟩ := Array.getElem_of_mem hyh
  have hfirst : entry h 0 = x := by
    rw [entry, pop_fst ltLess hpop]
    rfl
  rw [← hfirst, ← entry_eq_getElem hk]
  exact ho.entry_zero_le k hk

theorem Ordered.heapRemove {h h' : Array α} {i : Nat} {x : α} (ho : Ordered h h.size)
    (hrem : remove ltLess h i = some (x, h')) : Ordered h' h'.size := by
  unfold remove at hrem
  split at hrem
  · rename_i hi
    dsimp only at hrem
    set r := if h.size - 1 ≠ i then
      siftAt ltLess (h.swapIfInBounds i (h.size - 1)) i (h.size - 1) else h with hr
    have hsize : r.size = h.size := by
      rw [hr]
      split
      · rw [(siftAt_perm ltLess _ _ _).size_eq, Array.size_swapIfInBounds]
      · rfl
    have hord : Ordered r (h.size - 1) := by
      rw [hr]
      split
      · rename_i hne
        have hin : i < h.size - 1 := by omega
        set g := h.swapIfInBounds i (h.size - 1)
        have hswap := entry_swap (h := h) hi (j := h.size - 1) (by omega)
        have hg : ∀ k, k < h.size - 1 → k ≠ i → entry g k = entry h k := fun k hk hki => by
          rw [hswap, if_neg hki, if_neg (by omega)]
        have o : DownOrder g (h.size - 1) 0 i := by
          refine ⟨fun k hk0 hk _ hki hpki => ?_, fun hi0 _ k hk0 hk hpk => ?_⟩
          · have hp := parent_lt hk0
            rw [hg _ (by omega) hpki, hg k hk hki]
            exact ho k hk0 (by omega)
          · have hp := parent_lt hk0
            have hpi := parent_lt hi0
            rw [hg _ (by omega) hpi.ne, hg k hk (by omega)]
            exact (ho i hi0 hi).trans (hpk ▸ ho k hk0 (by omega))
        obtain ⟨hrest, hmoved, hstay⟩ :=
          down_order (by rw [Array.size_swapIfInBounds]; omega) (Nat.zero_le i) o
        unfold siftAt
        split
        · rename_i g' hflag
          rw [hflag] at hrest hmoved
          intro k hk0 hk
          by_cases hki : k = i
          · subst hki
            exact hmoved rfl hk0 (Nat.zero_le _)
          · exact hrest k hk0 hk (Nat.zero_le _) hki
        · rename_i g' hflag
          have hg' : g' = g := by rw [← hstay (by rw [hflag])]; rw [hflag]
          rw [hflag] at hrest
          rw [hg'] at hrest ⊢
          exact upLoop_order i g i (by rw [Array.size_swapIfInBounds]; omega) hin le_rfl
            ⟨fun k hk0 hk hki => hrest k hk0 hk (Nat.zero_le _) hki, fun hi0 => o.grand hi0
              (Nat.zero_le _)⟩
      · intro k hk0 hk
        exact ho k hk0 (by omega)
    cases hback : r.back? with
    | none =>
        rw [hback] at hrem
        cases hrem
    | some y =>
        rw [hback] at hrem
        simp only [Option.map_some, Option.some.injEq, Prod.mk.injEq] at hrem
        obtain ⟨-, rfl⟩ := hrem
        exact hord.pop (by rw [hsize])
  · cases hrem

/-! ### `heap.Init` -/

theorem initLoop_order {n : Nat} :
    ∀ (i : Nat) (h : Array α), n ≤ h.size → OrderedFrom h n i → OrderedFrom (initLoop ltLess n i h) n 0 := by
  intro i
  induction i with
  | zero => intro h _ ho; exact ho
  | succ i ih =>
      intro h hn ho
      rw [initLoop]
      -- the pairs from `i + 1` on are in order, and those at `i` are what `down` puts in order
      have o : DownOrder h n i i :=
        ⟨fun k hk0 hk hlok _ hpki => ho k hk0 hk (by omega),
          fun hi0 hlo => absurd hlo (not_le.mpr (parent_lt hi0))⟩
      have hdown := (down_order hn le_rfl o).1
      refine ih _ (by rw [(down_perm ltLess h i n).size_eq]; exact hn) fun k hk0 hk hlok => ?_
      exact hdown k hk0 hk hlok (fun hki => by
        subst hki
        exact absurd hlok (not_le.mpr (parent_lt hk0)))

theorem init_ordered (h : Array α) : Ordered (init ltLess h) (init ltLess h).size := by
  rw [(init_perm ltLess h).size_eq]
  refine (initLoop_order _ h le_rfl fun k hk0 hk hlok => ?_).ordered
  unfold parent at hlok
  omega

end Order

end GoHeap
