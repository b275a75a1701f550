import AuroraChain.Core.TxList
/-!
# The caps of a `txList` over whole runs

`costcap` and `gascap` are raised by `Add` and set to the limits by a `Filter` that does not
short-circuit; every other operation only removes transactions. So they stay at or above the
cost and the gas of every transaction held (`CapsCover`), and `Filter`'s short-circuit, taken when
both caps are within the limits, loses no transaction that the filter would have removed
(`filter_spec`).

Nonces are `uint64` in Go. `Filter` starts the lowest removed nonce at `math.MaxUint64`, so the
run keeps every nonce below `2^64`, as the calls that add transactions pass them.

`Add`'s replacement threshold is `old * (100 + priceBump) / 100` only while `100+int64(priceBump)`
does not wrap: from `priceBump = 2^63 - 100` on the percentage is negative or small, and at
`2^64 - 100` it is zero, so any higher price replaces the old transaction.
-/

namespace AuroraChain.Core

namespace TxList

/-! ### What the filters remove and keep -/

theorem filterTxs_fst (m : SortedMap Nat Transaction) (f : Transaction → Bool) :
    (filterTxs m f).1 = (m.entries.map Prod.snd).filter f := by
  rw [filterTxs, List.filter_map]
  rfl

theorem foldl_erase_pairs (m : SortedMap Nat Transaction) (rem : List (Nat × Transaction)) :
    rem.foldl (fun m e => m.erase e.1) m = (rem.map Prod.fst).foldl (fun m k => m.erase k) m := by
  rw [List.foldl_map]

theorem get?_of_foldl_erase {m : SortedMap Nat Transaction} {rem : List (Nat × Transaction)}
    {n : Nat} {tx : Transaction} (h : (rem.foldl (fun m e => m.erase e.1) m).get? n = some tx) :
    m.get? n = some tx := by
  rw [foldl_erase_pairs, SortedMap.get?_foldl_erase] at h
  split_ifs at h
  exact h

theorem filterTxs_snd_entries (m : SortedMap Nat Transaction) (f : Transaction → Bool) :
    (filterTxs m f).2.entries = m.entries.filter fun e => !f e.2 := by
  rw [filterTxs]
  dsimp only
  rw [foldl_erase_pairs, SortedMap.entries_foldl_erase]
  apply List.filter_congr
  intro e he
  cases hf : f e.2
  · have hnot : e.1 ∉ (m.entries.filter fun e => f e.2).map Prod.fst := by
      intro hmem
      obtain ⟨r, hr, hkey⟩ := List.mem_map.mp hmem
      obtain ⟨hrm, hfr⟩ := List.mem_filter.mp hr
      rw [m.eq_of_mem_entries hrm he hkey, hf] at hfr
      cases hfr
    simp [hnot]
  · have hmem : e.1 ∈ (m.entries.filter fun e => f e.2).map Prod.fst :=
      List.mem_map_of_mem (List.mem_filter.mpr ⟨he, hf⟩)
    simp [hmem]

theorem get?_filterTxs {m : SortedMap Nat Transaction} {f : Transaction → Bool} {n : Nat}
    {tx : Transaction} (h : (filterTxs m f).2.get? n = some tx) : m.get? n = some tx ∧ f tx = false := by
  rw [← SortedMap.mem_entries_iff, filterTxs_snd_entries, List.mem_filter] at h
  obtain ⟨hmem, hf⟩ := h
  exact ⟨(SortedMap.mem_entries_iff _ _ _).mp hmem, by simpa using hf⟩

/-- The lowest nonce `Filter` finds, started at `start`, is below `n` when `start` or one of the
nonces is. -/
theorem foldl_min_lt_iff (n : Nat) (l : List Transaction) (start : Nat) :
    l.foldl (fun lowest tx => min lowest tx.accountNonce) start < n ↔
      start < n ∨ ∃ tx ∈ l, tx.accountNonce < n := by
  induction l generalizing start with
  | nil => simp
  | cons tx l ih =>
      rw [List.foldl_cons, ih, min_lt_iff]
      simp only [List.mem_cons, exists_eq_or_imp]
      tauto

/-- With the nonces in `uint64`, starting at `math.MaxUint64` finds the lowest removed nonce. -/
theorem lowest_lt_iff {removed : List Transaction} (hne : removed ≠ [])
    (hfits : ∀ tx ∈ removed, tx.accountNonce < 2 ^ 64) (n : Nat) :
    removed.foldl (fun lowest tx => min lowest tx.accountNonce) (2 ^ 64 - 1) < n ↔
      ∃ tx ∈ removed, tx.accountNonce < n := by
  rw [foldl_min_lt_iff]
  constructor
  · rintro (hmax | hex)
    · obtain ⟨tx, htx⟩ := List.exists_mem_of_ne_nil removed hne
      have := hfits tx htx
      exact ⟨tx, htx, by omega⟩
    · exact hex
  · exact .inr

/-! ### The invariant -/

/-- What the caps promise, with the nonces' `uint64` range: every transaction held costs at most
`costcap`, needs at most `gascap` gas, and has a nonce below `2^64`. -/
structure CapsCover (l : TxList) : Prop where
  cost : ∀ n tx, l.txs.get? n = some tx → emCost tx ≤ l.costcap
  gas : ∀ n tx, l.txs.get? n = some tx → tx.gasLimit ≤ l.gascap
  nonce : ∀ n tx, l.txs.get? n = some tx → tx.accountNonce < 2 ^ 64

theorem capsCover_new (strict : Bool) : CapsCover (new strict) where
  cost _ _ h := nomatch h
  gas _ _ h := nomatch h
  nonce _ _ h := nomatch h

/-- Removing transactions and keeping the caps keeps the invariant. -/
theorem CapsCover.of_subset {l l' : TxList} (h : CapsCover l)
    (hsub : ∀ n tx, l'.txs.get? n = some tx → l.txs.get? n = some tx)
    (hc : l'.costcap = l.costcap) (hg : l'.gascap = l.gascap) : CapsCover l' where
  cost n tx htx := hc ▸ h.cost n tx (hsub n tx htx)
  gas n tx htx := hg ▸ h.gas n tx (hsub n tx htx)
  nonce n tx htx := h.nonce n tx (hsub n tx htx)

theorem CapsCover.eraseAll {l : TxList} (h : CapsCover l) (rem : List (Nat × Transaction)) :
    CapsCover { l with txs := rem.foldl (fun m e => m.erase e.1) l.txs } :=
  h.of_subset (fun _ _ ht => get?_of_foldl_erase ht) rfl rfl

theorem CapsCover.filterTxs {l : TxList} (h : CapsCover l) (f : Transaction → Bool) :
    CapsCover { l with txs := (filterTxs l.txs f).2 } :=
  h.of_subset (fun _ _ ht => (get?_filterTxs ht).1) rfl rfl

theorem CapsCover.erase {l : TxList} (h : CapsCover l) (n : Nat) :
    CapsCover { l with txs := l.txs.erase n } := by
  refine h.of_subset (fun k t ht => ?_) rfl rfl
  rw [SortedMap.get?_erase] at ht
  split at ht
  · cases ht
  · exact ht

theorem mem_flatten {l : TxList} {tx : Transaction} :
    tx ∈ l.flatten ↔ ∃ n, l.txs.get? n = some tx := by
  rw [flatten, List.mem_map]
  constructor
  · rintro ⟨⟨n, t⟩, hmem, rfl⟩
    exact ⟨n, (SortedMap.mem_entries_iff _ _ _).mp hmem⟩
  · rintro ⟨n, hn⟩
    exact ⟨(n, tx), (SortedMap.mem_entries_iff _ _ _).mpr hn, rfl⟩

/-- `Add` either leaves the list as it was or puts the transaction in and raises the caps. -/
theorem add_cases (l : TxList) (tx : Transaction) (priceBump : Nat) :
    l.add tx priceBump = (false, none, l) ∨
      l.add tx priceBump = (true, l.txs.get? tx.accountNonce,
        ⟨l.strict, l.txs.insert tx.accountNonce tx, max l.costcap (emCost tx),
          max l.gascap tx.gasLimit⟩) := by
  rw [TxList.add]
  -- `rejected` is a match on the old transaction, read before the `if`
  split <;> split
  all_goals first | exact .inl rfl | exact .inr rfl

theorem CapsCover.add {l : TxList} (h : CapsCover l) (tx : Transaction) (priceBump : Nat)
    (hfits : tx.accountNonce < 2 ^ 64) : CapsCover (l.add tx priceBump).2.2 := by
  rcases add_cases l tx priceBump with hadd | hadd <;> rw [hadd]
  · exact h
  · dsimp only
    refine ⟨fun n t ht => ?_, fun n t ht => ?_, fun n t ht => ?_⟩ <;>
      rw [SortedMap.get?_insert] at ht <;> split at ht
    · cases ht
      exact le_max_right _ _
    · exact le_trans (h.cost n t ht) (le_max_left _ _)
    · cases ht
      exact le_max_right _ _
    · exact le_trans (h.gas n t ht) (le_max_left _ _)
    · cases ht
      exact hfits
    · exact h.nonce n t ht

theorem CapsCover.forward {l : TxList} (h : CapsCover l) (threshold : Nat) :
    CapsCover (l.forward threshold).2 :=
  h.eraseAll _

theorem CapsCover.cap {l : TxList} (h : CapsCover l) (threshold : Nat) :
    CapsCover (l.cap threshold).2 := by
  rw [TxList.cap]
  split
  · exact h
  · exact h.eraseAll _

theorem CapsCover.ready {l : TxList} (h : CapsCover l) (start : Nat) :
    CapsCover (l.ready start).2 := by
  rw [TxList.ready]
  split
  · exact h
  · split
    · exact h
    · exact h.eraseAll _

theorem remove_of_contains {l : TxList} {tx : Transaction}
    (h : l.txs.contains tx.accountNonce = true) :
    l.remove tx =
      if l.strict then
        (true, (filterTxs (l.txs.erase tx.accountNonce) fun t =>
            decide (t.accountNonce > tx.accountNonce)).1,
          { l with txs := (filterTxs (l.txs.erase tx.accountNonce) fun t =>
            decide (t.accountNonce > tx.accountNonce)).2 })
      else (true, [], { l with txs := l.txs.erase tx.accountNonce }) := by
  rw [TxList.remove, if_pos h]

theorem CapsCover.remove {l : TxList} (h : CapsCover l) (tx : Transaction) :
    CapsCover (l.remove tx).2.2 := by
  by_cases hheld : l.txs.contains tx.accountNonce = true
  · rw [remove_of_contains hheld]
    split
    · exact (h.erase _).filterTxs _
    · exact h.erase _
  · rw [TxList.remove, if_neg hheld]
    exact h

theorem CapsCover.lower {l : TxList} (h : CapsCover l) (costLimit gasLimit : Nat) :
    CapsCover ⟨l.strict, (TxList.filterTxs l.txs fun tx =>
      decide (emCost tx > costLimit ∨ tx.gasLimit > gasLimit)).2, costLimit, gasLimit⟩ := by
  refine ⟨fun n t ht => ?_, fun n t ht => ?_, fun n t ht => ?_⟩ <;> dsimp only at ht ⊢ <;>
    obtain ⟨hheld, hf⟩ := get?_filterTxs ht
  · simp only [decide_eq_false_iff_not, not_or, not_lt] at hf
    exact hf.1
  · simp only [decide_eq_false_iff_not, not_or, not_lt] at hf
    exact hf.2
  · exact h.nonce n t hheld

/-- `Filter` past its short-circuit, with the first filter's results named. -/
theorem filter_of_exceeds {l : TxList} {costLimit gasLimit : Nat} {removed : List Transaction}
    {kept : SortedMap Nat Transaction} (hex : ¬(l.costcap ≤ costLimit ∧ l.gascap ≤ gasLimit))
    (hf : filterTxs l.txs (fun tx => decide (emCost tx > costLimit ∨ tx.gasLimit > gasLimit)) =
      (removed, kept)) :
    l.filter costLimit gasLimit =
      if l.strict ∧ removed ≠ [] then
        (removed, (filterTxs kept fun tx => decide (tx.accountNonce >
            removed.foldl (fun lowest tx => min lowest tx.accountNonce) (2 ^ 64 - 1))).1,
          ⟨l.strict, (filterTxs kept fun tx => decide (tx.accountNonce >
            removed.foldl (fun lowest tx => min lowest tx.accountNonce) (2 ^ 64 - 1))).2,
            costLimit, gasLimit⟩)
      else (removed, [], ⟨l.strict, kept, costLimit, gasLimit⟩) := by
  rw [TxList.filter, if_neg hex, hf]

theorem CapsCover.filter {l : TxList} (h : CapsCover l) (costLimit gasLimit : Nat) :
    CapsCover (l.filter costLimit gasLimit).2.2 := by
  by_cases hwithin : l.costcap ≤ costLimit ∧ l.gascap ≤ gasLimit
  · rw [TxList.filter, if_pos hwithin]
    exact h
  · have hlow := h.lower costLimit gasLimit
    cases hf : TxList.filterTxs l.txs fun tx =>
        decide (emCost tx > costLimit ∨ tx.gasLimit > gasLimit) with
    | mk removed kept =>
        rw [hf] at hlow
        rw [filter_of_exceeds hwithin hf]
        split
        · exact hlow.filterTxs _
        · exact hlow

/-! ### Runs -/

/-- The calls a `txList` goes through. -/
inductive TxListOp where
  | add (tx : Transaction) (priceBump : Nat)
  | forward (threshold : Nat)
  | filter (costLimit gasLimit : Nat)
  | cap (threshold : Nat)
  | remove (tx : Transaction)
  | ready (start : Nat)

namespace TxListOp

def apply (l : TxList) : TxListOp → TxList
  | .add tx priceBump => (l.add tx priceBump).2.2
  | .forward threshold => (l.forward threshold).2
  | .filter costLimit gasLimit => (l.filter costLimit gasLimit).2.2
  | .cap threshold => (l.cap threshold).2
  | .remove tx => (l.remove tx).2.2
  | .ready start => (l.ready start).2

/-- A transaction added has a `uint64` nonce. -/
def NonceFits : TxListOp → Prop
  | .add tx _ => tx.accountNonce < 2 ^ 64
  | _ => True

instance : DecidablePred NonceFits
  | .add tx _ => inferInstanceAs (Decidable (tx.accountNonce < 2 ^ 64))
  | .forward _ | .filter _ _ | .cap _ | .remove _ | .ready _ => isTrue trivial

end TxListOp

def run (l : TxList) (ops : List TxListOp) : TxList := ops.foldl TxListOp.apply l

theorem CapsCover.apply {l : TxList} (h : CapsCover l) {op : TxListOp} (hop : op.NonceFits) :
    CapsCover (op.apply l) := by
  cases op with
  | add tx priceBump => exact h.add tx priceBump hop
  | forward threshold => exact h.forward threshold
  | filter costLimit gasLimit => exact h.filter costLimit gasLimit
  | cap threshold => exact h.cap threshold
  | remove tx => exact h.remove tx
  | ready start => exact h.ready start

theorem CapsCover.run {l : TxList} (h : CapsCover l) {ops : List TxListOp}
    (hops : ∀ op ∈ ops, op.NonceFits) : CapsCover (l.run ops) := by
  induction ops generalizing l with
  | nil => exact h
  | cons op ops ih =>
      rw [TxList.run, List.foldl_cons]
      exact ih (h.apply (hops op List.mem_cons_self)) fun o ho => hops o (List.mem_cons_of_mem op ho)

/-! ### What `Filter` and `Add` do on a list whose caps cover it -/

theorem filter_spec {l : TxList} (h : CapsCover l) (costLimit gasLimit : Nat) :
    (l.filter costLimit gasLimit).1 =
        l.flatten.filter (fun tx => decide (emCost tx > costLimit ∨ tx.gasLimit > gasLimit)) ∧
      (l.filter costLimit gasLimit).2.1 =
        if l.strict then
          (l.flatten.filter fun tx => !decide (emCost tx > costLimit ∨ tx.gasLimit > gasLimit)).filter
            fun tx => (l.flatten.filter fun tx =>
              decide (emCost tx > costLimit ∨ tx.gasLimit > gasLimit)).any
                fun r => decide (r.accountNonce < tx.accountNonce)
        else [] := by
  set f := fun tx => decide (emCost tx > costLimit ∨ tx.gasLimit > gasLimit)
  have hnone : l.costcap ≤ costLimit ∧ l.gascap ≤ gasLimit → l.flatten.filter f = [] := by
    rintro ⟨hc, hg⟩
    rw [List.filter_eq_nil_iff]
    intro tx htx
    obtain ⟨n, hn⟩ := mem_flatten.mp htx
    have := h.cost n tx hn
    have := h.gas n tx hn
    simp only [f, decide_eq_true_eq, not_or, not_lt]
    omega
  have hremoved : (filterTxs l.txs f).1 = l.flatten.filter f := filterTxs_fst l.txs f
  have hkept : (filterTxs l.txs f).2.entries.map Prod.snd = l.flatten.filter fun tx => !f tx := by
    rw [filterTxs_snd_entries, flatten, List.filter_map]
    rfl
  have hfits : ∀ r ∈ (filterTxs l.txs f).1, r.accountNonce < 2 ^ 64 := fun r hr => by
    rw [hremoved] at hr
    obtain ⟨n, hn⟩ := mem_flatten.mp (List.mem_filter.mp hr).1
    exact h.nonce n r hn
  by_cases hwithin : l.costcap ≤ costLimit ∧ l.gascap ≤ gasLimit
  · rw [TxList.filter, if_pos hwithin, hnone hwithin]
    refine ⟨rfl, ?_⟩
    split <;> simp
  cases hf : filterTxs l.txs f with
  | mk removed kept =>
      rw [hf] at hremoved hkept hfits
      rw [filter_of_exceeds hwithin hf]
      split
      · rename_i hstrict
        refine ⟨hremoved, ?_⟩
        rw [if_pos hstrict.1, filterTxs_fst, hkept, ← hremoved]
        apply List.filter_congr
        intro tx _
        rw [Bool.eq_iff_iff, decide_eq_true_iff, List.any_eq_true, gt_iff_lt,
          lowest_lt_iff hstrict.2 hfits]
        simp only [decide_eq_true_eq]
      · rename_i hnot
        refine ⟨hremoved, ?_⟩
        split
        · rename_i hstrict
          have hempty : removed = [] := by
            by_contra hne
            exact hnot ⟨hstrict, hne⟩
          rw [← hremoved, hempty]
          simp
        · rfl

/-- Whether `Add` takes a transaction at a held nonce: it must pay more, and at least the
threshold that `bumpPercent` gives. -/
theorem add_fst_of_get? {l : TxList} {tx old : Transaction} (priceBump : Nat)
    (hold : l.txs.get? tx.accountNonce = some old) :
    (l.add tx priceBump).1 = true ↔
      old.price < tx.price ∧ (old.price : Int) * bumpPercent priceBump / 100 ≤ tx.price := by
  have hrej : (l.add tx priceBump).1 =
      !decide (old.price ≥ tx.price ∨ (old.price : Int) * bumpPercent priceBump / 100 > tx.price) := by
    rw [TxList.add]
    simp only [hold]
    split <;> simp_all
  rw [hrej]
  simp only [Bool.not_eq_true', decide_eq_false_iff_not, not_or, not_le, not_lt]

theorem bumpPercent_of_lt {priceBump : Nat} (h : priceBump < 2 ^ 63 - 100) :
    bumpPercent priceBump = 100 + priceBump := by
  unfold bumpPercent
  rw [Int.bmod_eq_of_le] <;> omega

/-- At `2^64 - 100` the percentage wraps to zero, and so does the threshold. -/
theorem bumpPercent_wrap : bumpPercent (2 ^ 64 - 100) = 0 := by
  unfold bumpPercent
  decide

/-! ### Whole runs from `newTxList` -/

theorem caps_sound_filter_fast_path (strict : Bool) (ops : List TxListOp)
    (hops : ∀ op ∈ ops, op.NonceFits) :
    let l := (new strict).run ops
    (∀ n tx, l.txs.get? n = some tx → emCost tx ≤ l.costcap ∧ tx.gasLimit ≤ l.gascap) ∧
      (∀ costLimit gasLimit,
        (l.filter costLimit gasLimit).1 =
            l.flatten.filter (fun tx => decide (emCost tx > costLimit ∨ tx.gasLimit > gasLimit)) ∧
          (l.filter costLimit gasLimit).2.1 =
            if l.strict then
              (l.flatten.filter fun tx =>
                  !decide (emCost tx > costLimit ∨ tx.gasLimit > gasLimit)).filter
                fun tx => (l.flatten.filter fun tx =>
                  decide (emCost tx > costLimit ∨ tx.gasLimit > gasLimit)).any
                    fun r => decide (r.accountNonce < tx.accountNonce)
            else []) ∧
      (∀ tx old priceBump, l.txs.get? tx.accountNonce = some old → priceBump < 2 ^ 63 - 100 →
        ((l.add tx priceBump).1 = true ↔
          old.price < tx.price ∧ old.price * (100 + priceBump) / 100 ≤ tx.price)) ∧
      ∀ tx old, l.txs.get? tx.accountNonce = some old → old.price < tx.price →
        (l.add tx (2 ^ 64 - 100)).1 = true := by
  intro l
  have hcaps : CapsCover l := (capsCover_new strict).run hops
  refine ⟨fun n tx htx => ⟨hcaps.cost n tx htx, hcaps.gas n tx htx⟩,
    fun costLimit gasLimit => filter_spec hcaps costLimit gasLimit, ?_, ?_⟩
  · intro tx old priceBump hold hbump
    rw [add_fst_of_get? priceBump hold, bumpPercent_of_lt hbump]
    norm_cast
  · -- the percentage wraps to zero, so any higher price clears the threshold
    intro tx old hold hlt
    rw [add_fst_of_get? _ hold, bumpPercent_wrap, mul_zero, Int.zero_ediv]
    exact ⟨hlt, Int.natCast_nonneg _⟩

theorem caps_sound_filter_fast_path_add_forward :
    (∀ op ∈ [TxListOp.add ⟨5, 3, 21000, none, 0, [], 0, [], [], none, [], "", "", 0, 0, 0⟩ 10,
      .forward 5], op.NonceFits) ∧
    let l := (new true).run
      [.add ⟨5, 3, 21000, none, 0, [], 0, [], [], none, [], "", "", 0, 0, 0⟩ 10, .forward 5]
    (∀ n tx, l.txs.get? n = some tx → emCost tx ≤ l.costcap ∧ tx.gasLimit ≤ l.gascap) ∧
      (∀ costLimit gasLimit,
        (l.filter costLimit gasLimit).1 =
            l.flatten.filter (fun tx => decide (emCost tx > costLimit ∨ tx.gasLimit > gasLimit)) ∧
          (l.filter costLimit gasLimit).2.1 =
            if l.strict then
              (l.flatten.filter fun tx =>
                  !decide (emCost tx > costLimit ∨ tx.gasLimit > gasLimit)).filter
                fun tx => (l.flatten.filter fun tx =>
                  decide (emCost tx > costLimit ∨ tx.gasLimit > gasLimit)).any
                    fun r => decide (r.accountNonce < tx.accountNonce)
            else []) ∧
      (∀ tx old priceBump, l.txs.get? tx.accountNonce = some old → priceBump < 2 ^ 63 - 100 →
        ((l.add tx priceBump).1 = true ↔
          old.price < tx.price ∧ old.price * (100 + priceBump) / 100 ≤ tx.price)) ∧
      ∀ tx old, l.txs.get? tx.accountNonce = some old → old.price < tx.price →
        (l.add tx (2 ^ 64 - 100)).1 = true :=
  ⟨by decide, caps_sound_filter_fast_path true _ (by decide)⟩

end TxList

end AuroraChain.Core
