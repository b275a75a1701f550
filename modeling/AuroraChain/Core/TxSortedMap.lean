import AuroraChain.Core.TxList
import AuroraChain.Lib.GoHeapOrder
/-!
# `txSortedMap` with its heap and cache

`core/tx_list.go` keeps an account's transactions in a Go map from nonce to transaction, with a
`nonceHeap` of the map's keys beside it and a cache of the transactions sorted by nonce. `Forward`
and `Ready` pop the heap for the least nonces and `Cap` sorts it for the greatest; `Filter` and
`Cap` rebuild it with `heap.Init` and `Remove` repairs it with `heap.Remove`. `Forward` and `Cap`
trim the cache by the number of transactions they removed instead of dropping it.

`Rep` is the representation invariant: the heap is in heap order and holds the map's keys once
each, every transaction is stored under its nonce (`Indexed`), and a cache is the map's
transactions in nonce order. Every operation keeps it, and under it each operation does to the map
what the model of `core/tx_list.go` in `Core/TxList.lean`, which keeps the map alone, says it does.

Go's `range` over a map visits the keys in an order it leaves open; each `range` here takes that
order as a parameter, a `rank` of the nonces.
-/

namespace AuroraChain.Core

/-- `txSortedMap`: the map from nonce to transaction, the `nonceHeap` of its keys, and the cache
of its transactions sorted by nonce, `none` for Go's nil. -/
structure TxSortedMap where
  items : SortedMap Nat Transaction
  index : Array Nat
  cache : Option (List Transaction)

namespace TxSortedMap

/-- `newTxSortedMap()`. -/
def new : TxSortedMap := ⟨∅, #[], none⟩

/-- A `range` over `items`, visiting the nonces in the order of their `rank`. -/
def range (rank : Nat → Nat) (items : SortedMap Nat Transaction) : List (Nat × Transaction) :=
  items.entries.mergeSort fun a b => decide (rank a.1 ≤ rank b.1)

/-- `Put(tx)`: a fresh nonce is pushed on the heap, and the cache dropped. -/
def put (m : TxSortedMap) (tx : Transaction) : TxSortedMap :=
  { items := m.items.insert tx.accountNonce tx
    index := if m.items.get? tx.accountNonce = none then
        GoHeap.push GoHeap.ltLess m.index tx.accountNonce
      else m.index
    cache := none }

/-- The loop of `Forward`: while the least nonce is below `threshold`, it is popped and its
transaction taken out. The heap loses a nonce a round, so its size is enough fuel. -/
def forwardLoop (threshold : Nat) :
    Nat → TxSortedMap → List (Option Transaction) → List (Option Transaction) × TxSortedMap
  | 0, m, removed => (removed, m)
  | fuel + 1, m, removed =>
      match m.index[0]? with
      | some top =>
          if top < threshold then
            match GoHeap.pop GoHeap.ltLess m.index with
            | some (nonce, index) =>
                forwardLoop threshold fuel { m with items := m.items.erase nonce, index }
                  (removed ++ [m.items.get? nonce])
            | none => (removed, m)
          else (removed, m)
      | none => (removed, m)

/-- `Forward(threshold)`: the transactions below `threshold`, lowest first. A cache loses as many
transactions from its front; slicing past its end panics. -/
def forward (m : TxSortedMap) (threshold : Nat) :
    Except GoPanic (List (Option Transaction) × TxSortedMap) :=
  let r := forwardLoop threshold m.index.size m []
  match m.cache with
  | none => .ok r
  | some c =>
      if r.1.length ≤ c.length then .ok (r.1, { r.2 with cache := some (c.drop r.1.length) })
      else .error .sliceOutOfRange

/-- `Filter(filter)`: the transactions the filter picks, in the order of the `range`. If there are
any, the heap is rebuilt from a second `range` and `heap.Init`, and the cache dropped. -/
def filter (rank rebuild : Nat → Nat) (m : TxSortedMap) (f : Transaction → Bool) :
    List Transaction × TxSortedMap :=
  let removed := (range rank m.items).filter fun e => f e.2
  let items := removed.foldl (fun items e => items.erase e.1) m.items
  if 0 < removed.length then
    (removed.map Prod.snd,
      { items
        index := GoHeap.init GoHeap.ltLess ((range rebuild items).map Prod.fst).toArray
        cache := none })
  else (removed.map Prod.snd, { m with items })

/-- `sort.Sort(*m.index)`: the nonces in increasing order. Go's sort is not stable, but numbers
sort to one array. -/
def sortNonces (index : Array Nat) : Array Nat :=
  (index.toList.mergeSort fun a b => decide (a ≤ b)).toArray

/-- The loop of `Cap` from `size` down to `threshold + 1`: the transaction at the nonce in place
`size - 1` of the sorted heap is taken out. A place past the heap panics. -/
def capLoop (index : Array Nat) (threshold : Nat) :
    Nat → SortedMap Nat Transaction → List (Option Transaction) →
      Except GoPanic (List (Option Transaction) × SortedMap Nat Transaction)
  | 0, items, drops => .ok (drops, items)
  | size + 1, items, drops =>
      if threshold < size + 1 then
        match index[size]? with
        | some nonce =>
            capLoop index threshold size (items.erase nonce) (drops ++ [items.get? nonce])
        | none => .error .sliceOutOfRange
      else .ok (drops, items)

/-- `Cap(threshold)`: the transactions with the highest nonces beyond the first `threshold`,
highest first. The heap is cut to the first `threshold` sorted nonces and `heap.Init`ed, and a
cache loses as many transactions from its back; slicing before its start panics. -/
def cap (m : TxSortedMap) (threshold : Nat) :
    Except GoPanic (List (Option Transaction) × TxSortedMap) :=
  if m.items.entries.length ≤ threshold then .ok ([], m)
  else
    match capLoop (sortNonces m.index) threshold m.items.entries.length m.items [] with
    | .error p => .error p
    | .ok (drops, items) =>
        let index := GoHeap.init GoHeap.ltLess ((sortNonces m.index).extract 0 threshold)
        match m.cache with
        | none => .ok (drops, { items, index, cache := none })
        | some c =>
            if drops.length ≤ c.length then
              .ok (drops, { items, index, cache := some (c.take (c.length - drops.length)) })
            else .error .sliceOutOfRange

/-- `Remove(nonce)`: whether the nonce was held. Its place in the heap is found by a linear scan
and removed with `heap.Remove`, and the cache dropped. -/
def remove (m : TxSortedMap) (nonce : Nat) : Bool × TxSortedMap :=
  match m.items.get? nonce with
  | none => (false, m)
  | some _ =>
      let index :=
        match m.index.findIdx? (· == nonce) with
        | some i => ((GoHeap.remove GoHeap.ltLess m.index i).map Prod.snd).getD m.index
        | none => m.index
      (true, { items := m.items.erase nonce, index, cache := none })

/-- The loop of `Ready` from the nonce `next`: while the least nonce is `next`, its transaction is
taken out and the nonce popped. -/
def readyLoop : Nat → Nat → TxSortedMap → List (Option Transaction) →
    List (Option Transaction) × TxSortedMap
  | 0, _, m, ready => (ready, m)
  | fuel + 1, next, m, ready =>
      match m.index[0]? with
      | some top =>
          if top = next then
            match GoHeap.pop GoHeap.ltLess m.index with
            | some (_, index) =>
                readyLoop fuel (next + 1) { m with items := m.items.erase next, index }
                  (ready ++ [m.items.get? next])
            | none => (ready, m)
          else (ready, m)
      | none => (ready, m)

/-- `Ready(start)`: nothing if the least nonce is above `start`; otherwise the run of consecutive
nonces from it, and the cache dropped. -/
def ready (m : TxSortedMap) (start : Nat) : List (Option Transaction) × TxSortedMap :=
  match m.index[0]? with
  | none => ([], m)
  | some first =>
      if first > start then ([], m)
      else
        let r := readyLoop m.index.size first m []
        (r.1, { r.2 with cache := none })

def len (m : TxSortedMap) : Nat := m.items.entries.length

/-- `sort.Sort(types.TxByNonce(...))`: by nonce. -/
def sortByNonce (txs : List Transaction) : List Transaction :=
  txs.mergeSort fun a b => decide (a.accountNonce ≤ b.accountNonce)

/-- `Flatten()`: the cache, built from a `range` and sorted by nonce if it was dropped. -/
def flatten (rank : Nat → Nat) (m : TxSortedMap) : List Transaction × TxSortedMap :=
  match m.cache with
  | some c => (c, m)
  | none =>
      let c := sortByNonce ((range rank m.items).map Prod.snd)
      (c, { m with cache := some c })

/-! ### The invariant -/

/-- The heap holds the map's keys, once each, in heap order, and every transaction is stored under
its nonce. -/
structure Indexed (items : SortedMap Nat Transaction) (index : Array Nat) : Prop where
  ordered : GoHeap.Ordered index index.size
  keys : index.toList.Perm items.keys
  nonces : ∀ n tx, items.get? n = some tx → tx.accountNonce = n

/-- The representation invariant: the heap indexes the map, and a cache is its transactions in
nonce order. -/
structure Rep (m : TxSortedMap) : Prop where
  indexed : Indexed m.items m.index
  cache : ∀ c, m.cache = some c → c = m.items.entries.map Prod.snd

theorem rep_new : Rep new :=
  ⟨⟨fun _ _ hk => absurd hk (Nat.not_lt_zero _), List.Perm.nil, fun _ _ h => nomatch h⟩,
    fun _ h => nomatch h⟩

theorem Indexed.first {items : SortedMap Nat Transaction} {index : Array Nat}
    (hi : Indexed items index) {top : Nat} (htop : index[0]? = some top) :
    ∃ tx rest, items.entries = (top, tx) :: rest := by
  have hpos : 0 < index.size := by
    by_contra hempty
    rw [Array.getElem?_eq_none (by omega)] at htop
    cases htop
  have hzero : GoHeap.entry index 0 = top := by
    unfold GoHeap.entry
    rw [htop]
    rfl
  apply items.entries_eq_cons_of_le
  · rw [← hi.keys.mem_iff, Array.mem_toList_iff, ← hzero, GoHeap.entry_eq_getElem hpos]
    exact Array.getElem_mem hpos
  · intro x hx
    obtain ⟨k, hk, rfl⟩ := Array.mem_iff_getElem.mp (Array.mem_toList_iff.mp (hi.keys.mem_iff.mpr hx))
    rw [← hzero, ← GoHeap.entry_eq_getElem hk]
    exact hi.ordered.entry_zero_le k hk

theorem Indexed.entries_eq_nil {items : SortedMap Nat Transaction} {index : Array Nat}
    (hi : Indexed items index) (hnone : index[0]? = none) : items.entries = [] := by
  have hsize : index.size = 0 := by
    by_contra hpos
    rw [Array.getElem?_eq_getElem (by omega)] at hnone
    cases hnone
  have hkeys : items.keys = [] := by
    have := hi.keys.length_eq
    rw [Array.length_toList, hsize] at this
    exact List.eq_nil_of_length_eq_zero this.symm
  exact List.eq_nil_of_map_eq_nil hkeys

/-- Popping the least nonce and taking its entry out keeps the heap indexing the map. -/
theorem Indexed.pop {items : SortedMap Nat Transaction} {index index' : Array Nat}
    (hi : Indexed items index) {top x : Nat} {tx : Transaction} {rest : List (Nat × Transaction)}
    (hent : items.entries = (top, tx) :: rest)
    (hpop : GoHeap.pop GoHeap.ltLess index = some (x, index')) :
    x = top ∧ Indexed (items.erase top) index' ∧ index'.size + 1 = index.size := by
  have hperm := GoHeap.pop_perm GoHeap.ltLess hpop
  obtain ⟨tx', rest', hent'⟩ := hi.first (GoHeap.pop_fst GoHeap.ltLess hpop)
  have hx : x = top := by
    rw [hent] at hent'
    exact (Prod.mk.inj (List.cons.inj hent').1).1.symm
  subst hx
  refine ⟨rfl, ⟨hi.ordered.heapPop hpop, ?_, fun n t ht => ?_⟩, ?_⟩
  · have hall : (index'.toList ++ [x]).Perm (x :: rest.map Prod.fst) := by
      rw [← Array.toList_push]
      have hkeys := hi.keys
      rw [SortedMap.keys, hent, List.map_cons] at hkeys
      exact hperm.toList.trans hkeys
    rw [SortedMap.keys, items.entries_erase_of_cons hent]
    exact ((List.perm_append_singleton x _).symm.trans hall).cons_inv
  · rw [SortedMap.get?_erase] at ht
    split at ht
    · cases ht
    · exact hi.nonces n t ht
  · rw [← Array.size_push, hperm.size_eq]

/-- Taking entries out of the map keeps every transaction under its nonce. -/
theorem nonces_of_subset {items items' : SortedMap Nat Transaction}
    (hn : ∀ n tx, items.get? n = some tx → tx.accountNonce = n)
    (hsub : ∀ n tx, items'.get? n = some tx → items.get? n = some tx) :
    ∀ n tx, items'.get? n = some tx → tx.accountNonce = n :=
  fun n tx htx => hn n tx (hsub n tx htx)

/-! ### `Put` -/

theorem Rep.put {m : TxSortedMap} (hr : Rep m) (tx : Transaction) : Rep (m.put tx) := by
  have hnonces : ∀ n t, (m.items.insert tx.accountNonce tx).get? n = some t → t.accountNonce = n := by
    intro n t ht
    rw [SortedMap.get?_insert] at ht
    split at ht
    · rename_i hn
      cases ht
      exact hn.symm
    · exact hr.indexed.nonces n t ht
  unfold TxSortedMap.put
  refine ⟨⟨?_, ?_, hnonces⟩, fun _ hc => nomatch hc⟩ <;> split
  · exact hr.indexed.ordered.push _
  · exact hr.indexed.ordered
  · -- a fresh nonce: pushed on the heap, and a new key of the map
    rename_i hfresh
    have hins := (m.items.perm_insert_of_get?_eq_none tx hfresh).map Prod.fst
    refine (GoHeap.push_perm GoHeap.ltLess _ _).toList.trans ?_
    rw [Array.toList_push]
    exact ((hr.indexed.keys.append_right _).trans (List.perm_append_singleton _ _)).trans hins.symm
  · -- a held nonce: the heap and the keys stay
    rename_i hheld
    obtain ⟨old, hold⟩ := Option.ne_none_iff_exists'.mp hheld
    exact hr.indexed.keys.trans (m.items.keys_insert_perm hold tx).symm

/-! ### The loops that take the first entries -/

/-- What a loop that takes the first `k` entries of the map leaves: their transactions after
`acc`, the rest of the map, the same cache, and a heap that still indexes the map. -/
structure TakesFirst (m : TxSortedMap) (acc : List (Option Transaction)) (k : Nat)
    (r : List (Option Transaction) × TxSortedMap) : Prop where
  le : k ≤ m.items.entries.length
  taken : r.1 = acc ++ (m.items.entries.take k).map (some ∘ Prod.snd)
  rest : r.2.items.entries = m.items.entries.drop k
  cache : r.2.cache = m.cache
  indexed : Indexed r.2.items r.2.index

theorem TakesFirst.stop {m : TxSortedMap} (hi : Indexed m.items m.index)
    (acc : List (Option Transaction)) : TakesFirst m acc 0 (acc, m) :=
  ⟨Nat.zero_le _, by simp, by simp, rfl, hi⟩

/-- A round that takes the first entry out, then the rest of the loop. -/
theorem TakesFirst.cons {m : TxSortedMap} {top : Nat} {tx : Transaction}
    {rest : List (Nat × Transaction)} (hent : m.items.entries = (top, tx) :: rest)
    {index : Array Nat} {acc : List (Option Transaction)} {k : Nat}
    {r : List (Option Transaction) × TxSortedMap}
    (h : TakesFirst { m with items := m.items.erase top, index } (acc ++ [some tx]) k r) :
    TakesFirst m acc (k + 1) r := by
  have hrest : (m.items.erase top).entries = rest := m.items.entries_erase_of_cons hent
  obtain ⟨hle, htaken, hdrop, hcache, hi⟩ := h
  dsimp only at hle htaken hdrop hcache
  rw [hrest] at hle htaken hdrop
  refine ⟨?_, ?_, ?_, hcache, hi⟩
  · rw [hent, List.length_cons]
    omega
  · rw [htaken, hent, List.take_succ_cons, List.map_cons, List.append_assoc]
    rfl
  · rw [hdrop, hent, List.drop_succ_cons]

theorem get?_of_first {items : SortedMap Nat Transaction} {top : Nat} {tx : Transaction}
    {rest : List (Nat × Transaction)} (hent : items.entries = (top, tx) :: rest) :
    items.get? top = some tx := by
  rw [← SortedMap.mem_entries_iff, hent]
  exact List.mem_cons_self

/-- A round of `Forward` or `Ready` pops the least nonce, `top`, off a heap that is not empty. -/
theorem Indexed.pop_some {items : SortedMap Nat Transaction} {index : Array Nat}
    (hi : Indexed items index) {top : Nat} {tx : Transaction} {rest : List (Nat × Transaction)}
    (hent : items.entries = (top, tx) :: rest) (htop : index[0]? = some top) :
    ∃ index', GoHeap.pop GoHeap.ltLess index = some (top, index') ∧
      Indexed (items.erase top) index' ∧ index'.size + 1 = index.size := by
  have hpos : 0 < index.size := by
    by_contra hempty
    rw [Array.getElem?_eq_none (by omega)] at htop
    cases htop
  obtain ⟨⟨x, index'⟩, hpop⟩ := Option.isSome_iff_exists.mp (GoHeap.pop_isSome GoHeap.ltLess hpos)
  obtain ⟨rfl, hi', hsize⟩ := hi.pop hent hpop
  exact ⟨index', hpop, hi', hsize⟩

/-! ### `Forward` -/

theorem forwardLoop_spec (threshold : Nat) :
    ∀ (fuel : Nat) (m : TxSortedMap) (removed : List (Option Transaction)),
      Indexed m.items m.index → m.index.size ≤ fuel →
      ∃ k, TakesFirst m removed k (forwardLoop threshold fuel m removed) ∧
        (∀ e ∈ m.items.entries.take k, e.1 < threshold) ∧
        ∀ e ∈ m.items.entries.drop k, threshold ≤ e.1 := by
  intro fuel
  induction fuel with
  | zero =>
      intro m removed hi hfuel
      have hnil := hi.entries_eq_nil (Array.getElem?_eq_none (by omega))
      refine ⟨0, TakesFirst.stop hi removed, ?_, ?_⟩ <;> simp [hnil]
  | succ fuel ih =>
      intro m removed hi hfuel
      rw [forwardLoop]
      split
      · rename_i top htop
        obtain ⟨tx, rest, hent⟩ := hi.first htop
        split
        · -- the least nonce is below the threshold: it goes, and the loop goes on
          rename_i hlt
          obtain ⟨index', hpop, hi', hsize⟩ := hi.pop_some hent htop
          rw [hpop]
          dsimp only
          rw [get?_of_first hent]
          obtain ⟨k, hk, hbelow, habove⟩ :=
            ih { m with items := m.items.erase top, index := index' } _ hi' (by dsimp only; omega)
          have hrest : (m.items.erase top).entries = rest := m.items.entries_erase_of_cons hent
          dsimp only at hbelow habove
          rw [hrest] at hbelow habove
          refine ⟨k + 1, hk.cons hent, ?_, ?_⟩
          · rw [hent, List.take_succ_cons]
            intro e he
            rcases List.mem_cons.mp he with rfl | he
            · exact hlt
            · exact hbelow e he
          · rw [hent, List.drop_succ_cons]
            exact habove
        · -- the least nonce is at or above it, and so is every other
          rename_i hge
          refine ⟨0, TakesFirst.stop hi removed, by simp, fun e he => ?_⟩
          rw [List.drop_zero] at he
          exact (not_lt.mp hge).trans (m.items.le_of_entries_eq_cons hent e he)
      · rename_i hnone
        have hnil := hi.entries_eq_nil hnone
        refine ⟨0, TakesFirst.stop hi removed, ?_, ?_⟩ <;> simp [hnil]

theorem filter_eq_take {α : Type} {l : List α} {p : α → Bool} {k : Nat}
    (htake : ∀ e ∈ l.take k, p e = true) (hdrop : ∀ e ∈ l.drop k, p e = false) :
    l.filter p = l.take k ∧ l.filter (fun e => !p e) = l.drop k := by
  conv_lhs => rw [← List.take_append_drop k l]
  conv_rhs => rw [← List.take_append_drop k l]
  rw [List.filter_append, List.filter_append, List.filter_eq_self.mpr htake,
    List.filter_eq_nil_iff.mpr fun e he => by rw [hdrop e he]; exact Bool.false_ne_true,
    List.filter_eq_nil_iff.mpr fun e he => by rw [htake e he]; exact Bool.false_ne_true,
    List.filter_eq_self.mpr fun e he => by rw [hdrop e he]; rfl]
  simp

/-- `Forward(threshold)` does not panic, keeps the invariant, and takes out exactly the entries
below `threshold`, lowest first. -/
theorem Rep.forward {m : TxSortedMap} (hr : Rep m) (threshold : Nat) :
    ∃ m', m.forward threshold =
        .ok ((m.items.entries.filter fun e => e.1 < threshold).map (some ∘ Prod.snd), m') ∧
      m'.items.entries = m.items.entries.filter (fun e => !decide (e.1 < threshold)) ∧ Rep m' := by
  obtain ⟨k, hk, hbelow, habove⟩ := forwardLoop_spec threshold _ m [] hr.indexed le_rfl
  obtain ⟨hfront, hback⟩ := filter_eq_take (p := fun e => decide (e.1 < threshold))
    (fun e he => decide_eq_true (hbelow e he)) (fun e he => decide_eq_false (not_lt.mpr (habove e he)))
  rw [hfront, hback]
  have htaken := hk.taken
  rw [List.nil_append] at htaken
  unfold TxSortedMap.forward
  split
  · rename_i hnone
    refine ⟨_, by rw [← htaken], hk.rest, hk.indexed, fun c hc => ?_⟩
    rw [hk.cache, hnone] at hc
    cases hc
  · rename_i c hc
    have hlen : (forwardLoop threshold m.index.size m []).1.length = k := by
      rw [htaken, List.length_map, List.length_take, min_eq_left hk.le]
    have hcache := hr.cache c hc
    rw [if_pos (by rw [hlen, hcache, List.length_map]; exact hk.le), hlen]
    refine ⟨{ (forwardLoop threshold m.index.size m []).2 with cache := some (c.drop k) },
      by rw [← htaken], hk.rest, hk.indexed, fun c' hc' => ?_⟩
    rw [← Option.some.inj hc', hcache, hk.rest, List.map_drop]

/-! ### `Filter` -/

theorem range_perm (rank : Nat → Nat) (items : SortedMap Nat Transaction) :
    (range rank items).Perm items.entries :=
  List.mergeSort_perm _ _

theorem get?_of_entries_filter {items items' : SortedMap Nat Transaction}
    {p : Nat × Transaction → Bool} (h : items'.entries = items.entries.filter p) :
    ∀ n tx, items'.get? n = some tx → items.get? n = some tx := by
  intro n tx htx
  rw [← SortedMap.mem_entries_iff, h] at htx
  exact (SortedMap.mem_entries_iff _ _ _).mp (List.mem_filter.mp htx).1

/-- `Filter` keeps the invariant, takes out exactly the entries the filter picks, and returns
their transactions in the order of its `range`. -/
theorem Rep.filter {m : TxSortedMap} (hr : Rep m) (rank rebuild : Nat → Nat)
    (f : Transaction → Bool) :
    (m.filter rank rebuild f).1.Perm ((m.items.entries.filter fun e => f e.2).map Prod.snd) ∧
      (m.filter rank rebuild f).2.items.entries = m.items.entries.filter (fun e => !f e.2) ∧
      Rep (m.filter rank rebuild f).2 := by
  have hrem : ((range rank m.items).filter fun e => f e.2).Perm
      (m.items.entries.filter fun e => f e.2) := (range_perm rank m.items).filter _
  have hitems := m.items.entries_foldl_erase_filter (fun e => f e.2) hrem
  have hsub := get?_of_entries_filter hitems
  unfold TxSortedMap.filter
  dsimp only
  split
  · refine ⟨hrem.map _, hitems, ⟨⟨GoHeap.init_ordered _, ?_, nonces_of_subset hr.indexed.nonces hsub⟩,
      fun _ hc => nomatch hc⟩⟩
    refine (GoHeap.init_perm GoHeap.ltLess _).toList.trans ?_
    rw [List.toList_toArray]
    exact (range_perm rebuild _).map Prod.fst
  · rename_i hnone
    have hnil : ((range rank m.items).filter fun e => f e.2) = [] :=
      List.eq_nil_of_length_eq_zero (by omega)
    refine ⟨hrem.map _, hitems, ?_⟩
    rw [hnil]
    exact hr

theorem mergeSort_eq_of_perm {α : Type} (key : α → Nat) {l s : List α} (hperm : l.Perm s)
    (hs : s.Pairwise fun a b => key a < key b) :
    l.mergeSort (fun a b => decide (key a ≤ key b)) = s := by
  have hsorted := @List.pairwise_mergeSort α (fun a b => decide (key a ≤ key b))
    (fun a b c hab hbc => by simp only [decide_eq_true_eq] at *; omega)
    (fun a b => by simp only [Bool.or_eq_true, decide_eq_true_eq]; omega) l
  have hmerge := (List.mergeSort_perm l fun a b => decide (key a ≤ key b)).trans hperm
  have hinj := List.inj_on_of_nodup_map (List.pairwise_map.mpr hs).nodup
  refine @List.Perm.eq_of_pairwise α (fun a b => key a ≤ key b) _ _
    (fun a b ha hb hab hba => hinj (hmerge.subset ha) hb (le_antisymm hab hba)) ?_
    (hs.imp le_of_lt) hmerge
  simpa using hsorted

/-! ### `Cap` -/

theorem Indexed.sortNonces_eq {items : SortedMap Nat Transaction} {index : Array Nat}
    (hi : Indexed items index) : sortNonces index = items.keys.toArray := by
  unfold sortNonces
  congr 1
  exact mergeSort_eq_of_perm id hi.keys items.sorted

/-- The loop of `Cap` over the sorted keys of `E`, from a map holding the first `size` entries of
`E`: it takes out the entries from place `threshold` on, the last first. -/
theorem capLoop_spec (E : List (Nat × Transaction)) (threshold : Nat) :
    ∀ (size : Nat) (items : SortedMap Nat Transaction) (drops : List (Option Transaction)),
      threshold ≤ size → size ≤ E.length → items.entries = E.take size →
      ∃ items', capLoop (E.map Prod.fst).toArray threshold size items drops =
          .ok (drops ++ ((E.take size).drop threshold).reverse.map (some ∘ Prod.snd), items') ∧
        items'.entries = E.take threshold := by
  intro size
  induction size with
  | zero =>
      intro items drops hle _ hent
      have h0 : threshold = 0 := by omega
      subst h0
      exact ⟨items, by simp [capLoop], hent⟩
  | succ size ih =>
      intro items drops hle hlen hent
      rw [capLoop]
      by_cases hcut : threshold < size + 1
      · rw [if_pos hcut]
        have hsize : size < E.length := by omega
        have hlast : E.take (size + 1) = E.take size ++ [E[size]] := List.take_succ_eq_append_getElem hsize
        have hget : (E.map Prod.fst).toArray[size]? = some E[size].1 := by simp [hsize]
        rw [hget]
        dsimp only
        have hentry : items.get? E[size].1 = some E[size].2 := by
          rw [← SortedMap.mem_entries_iff, hent, hlast]
          exact List.mem_append_right _ (List.mem_singleton_self _)
        have herase : (items.erase E[size].1).entries = E.take size :=
          items.entries_erase_of_last (hent.trans hlast)
        obtain ⟨items', hloop, hitems'⟩ :=
          ih (items.erase E[size].1) (drops ++ [items.get? E[size].1]) (by omega) (by omega) herase
        refine ⟨items', ?_, hitems'⟩
        rw [hloop, hentry, hlast, List.drop_append_of_le_length (by simp; omega), List.reverse_append]
        simp
      · rw [if_neg hcut]
        have h : threshold = size + 1 := by omega
        subst h
        exact ⟨items, by simp, hent⟩

/-- `Cap(threshold)` does not panic, keeps the invariant, and takes out exactly the entries after
the first `threshold`, the highest nonce first. -/
theorem Rep.cap {m : TxSortedMap} (hr : Rep m) (threshold : Nat) :
    ∃ m', m.cap threshold =
        .ok ((m.items.entries.drop threshold).reverse.map (some ∘ Prod.snd), m') ∧
      m'.items.entries = m.items.entries.take threshold ∧ Rep m' := by
  unfold TxSortedMap.cap
  split
  · rename_i hsmall
    refine ⟨m, ?_, (List.take_of_length_le hsmall).symm, hr⟩
    rw [List.drop_of_length_le hsmall]
    rfl
  · rename_i hbig
    obtain ⟨items', hloop, hitems'⟩ := capLoop_spec m.items.entries threshold _ m.items []
      (by omega) le_rfl (List.take_length).symm
    rw [List.take_length, List.nil_append] at hloop
    rw [hr.indexed.sortNonces_eq, SortedMap.keys, hloop]
    dsimp only
    have hindexed : Indexed items'
        (GoHeap.init GoHeap.ltLess ((m.items.entries.map Prod.fst).toArray.extract 0 threshold)) := by
      refine ⟨GoHeap.init_ordered _, (GoHeap.init_perm GoHeap.ltLess _).toList.trans ?_,
        nonces_of_subset hr.indexed.nonces fun n tx htx => ?_⟩
      · rw [Array.toList_extract, List.toList_toArray, List.extract_eq_take_drop, List.drop_zero,
          Nat.sub_zero, SortedMap.keys, hitems', List.map_take]
      · rw [← SortedMap.mem_entries_iff, hitems'] at htx
        exact (SortedMap.mem_entries_iff _ _ _).mp (List.mem_of_mem_take htx)
    split
    · rename_i hnone
      exact ⟨_, rfl, hitems', hindexed, fun c hc => by cases hc⟩
    · rename_i c hc
      have hcache := hr.cache c hc
      rw [if_pos (by rw [hcache]; simp)]
      refine ⟨_, rfl, hitems', hindexed, fun c' hc' => ?_⟩
      rw [← Option.some.inj hc', hcache, hitems']
      simp only [List.length_map, List.length_reverse, List.length_drop, List.map_take]
      congr 1
      omega

/-! ### `Remove` -/

theorem Rep.remove {m : TxSortedMap} (hr : Rep m) (nonce : Nat) :
    (m.remove nonce).1 = (m.items.get? nonce).isSome ∧
      (m.remove nonce).2.items = m.items.erase nonce ∧ Rep (m.remove nonce).2 := by
  unfold TxSortedMap.remove
  split
  · rename_i hnone
    exact ⟨by rw [hnone]; rfl, (m.items.erase_of_get?_eq_none hnone).symm, hr⟩
  · rename_i v hv
    refine ⟨by rw [hv]; rfl, rfl, ⟨?_, fun _ hc => nomatch hc⟩⟩
    -- the linear scan finds the nonce in the heap, and `heap.Remove` takes that place out
    have hmem : nonce ∈ m.index := Array.mem_toList_iff.mp
      (hr.indexed.keys.mem_iff.mpr ((m.items.mem_keys_iff nonce).mpr (by rw [hv]; rfl)))
    have hfound : (m.index.findIdx? (· == nonce)).isSome := by
      rw [Array.findIdx?_isSome, Array.any_eq_true']
      exact ⟨nonce, hmem, beq_self_eq_true nonce⟩
    obtain ⟨i, hi⟩ := Option.isSome_iff_exists.mp hfound
    obtain ⟨hlt, hpi, -⟩ := Array.findIdx?_eq_some_iff_getElem.mp hi
    obtain ⟨⟨x, index'⟩, hrem⟩ :=
      Option.isSome_iff_exists.mp (GoHeap.remove_isSome GoHeap.ltLess hlt)
    have hx : x = nonce := by
      have hfirst := GoHeap.remove_fst GoHeap.ltLess hrem
      rw [Array.getElem?_eq_getElem hlt, Option.some.injEq] at hfirst
      rw [← hfirst]
      exact beq_iff_eq.mp hpi
    subst hx
    rw [hi]
    dsimp only
    rw [hrem, Option.map_some, Option.getD_some]
    refine ⟨hr.indexed.ordered.heapRemove hrem, ?_,
      nonces_of_subset hr.indexed.nonces fun n tx htx => ?_⟩
    · have hall : (index'.toList ++ [x]).Perm (x :: (m.items.erase x).keys) := by
        rw [← Array.toList_push]
        exact (GoHeap.remove_perm GoHeap.ltLess hrem).toList.trans
          (hr.indexed.keys.trans (m.items.keys_perm_erase hv))
      exact ((List.perm_append_singleton x _).symm.trans hall).cons_inv
    · rw [SortedMap.get?_erase] at htx
      split at htx
      · cases htx
      · exact htx

/-! ### `Ready` -/

theorem readyLoop_spec :
    ∀ (fuel next : Nat) (m : TxSortedMap) (ready : List (Option Transaction)),
      Indexed m.items m.index → m.index.size ≤ fuel →
      ∃ k, TakesFirst m ready k (readyLoop fuel next m ready) ∧
        m.items.entries.take k = TxList.readyLoop m.items.entries next := by
  intro fuel
  induction fuel with
  | zero =>
      intro next m ready hi hfuel
      have hnil := hi.entries_eq_nil (Array.getElem?_eq_none (by omega))
      refine ⟨0, TakesFirst.stop hi ready, ?_⟩
      rw [hnil]
      rfl
  | succ fuel ih =>
      intro next m ready hi hfuel
      rw [readyLoop]
      split
      · rename_i top htop
        obtain ⟨tx, rest, hent⟩ := hi.first htop
        split
        · rename_i hnext
          subst hnext
          obtain ⟨index', hpop, hi', hsize⟩ := hi.pop_some hent htop
          rw [hpop]
          dsimp only
          rw [get?_of_first hent]
          obtain ⟨k, hk, htake⟩ :=
            ih (top + 1) { m with items := m.items.erase top, index := index' } _ hi'
              (by dsimp only; omega)
          dsimp only at htake
          rw [m.items.entries_erase_of_cons hent] at htake
          refine ⟨k + 1, hk.cons hent, ?_⟩
          rw [hent, List.take_succ_cons, htake, TxList.readyLoop, if_pos rfl]
        · rename_i hnext
          refine ⟨0, TakesFirst.stop hi ready, ?_⟩
          rw [hent, List.take_zero, TxList.readyLoop, if_neg hnext]
      · rename_i hnone
        have hnil := hi.entries_eq_nil hnone
        refine ⟨0, TakesFirst.stop hi ready, ?_⟩
        rw [hnil]
        rfl

/-- The nonces of the first `k` entries of `l` run `next, next + 1, …`, and the entry after them,
if there is one, does not go on with the run. -/
def RunFrom (l : List (Nat × Transaction)) (next k : Nat) : Prop :=
  (∀ j, j < k → l[j]?.map Prod.fst = some (next + j)) ∧ l[k]?.map Prod.fst ≠ some (next + k)

theorem readyLoop_runFrom (l : List (Nat × Transaction)) (next : Nat) :
    TxList.readyLoop l next = l.take (TxList.readyLoop l next).length ∧
      RunFrom l next (TxList.readyLoop l next).length := by
  induction l generalizing next with
  | nil => exact ⟨rfl, fun j hj => absurd hj (Nat.not_lt_zero j), by simp⟩
  | cons e rest ih =>
      obtain ⟨n, tx⟩ := e
      rw [TxList.readyLoop]
      split
      · rename_i hn
        subst hn
        obtain ⟨htake, hrun, hstop⟩ := ih (n + 1)
        refine ⟨by rw [List.length_cons, List.take_succ_cons, ← htake], fun j hj => ?_, ?_⟩
        · rcases j with _ | j
          · rfl
          · rw [List.length_cons] at hj
            rw [List.getElem?_cons_succ, hrun j (by omega)]
            congr 1
            omega
        · rw [List.length_cons, List.getElem?_cons_succ]
          intro heq
          exact hstop (by rw [heq]; congr 1; omega)
      · rename_i hn
        refine ⟨rfl, fun j hj => absurd hj (Nat.not_lt_zero j), ?_⟩
        simpa using hn

/-- `Ready(start)` keeps the invariant and takes out the first `k` entries: none if the least nonce
is above `start`, and otherwise the run of consecutive nonces from it. -/
theorem Rep.ready {m : TxSortedMap} (hr : Rep m) (start : Nat) :
    ∃ k, (m.ready start).1 = (m.items.entries.take k).map (some ∘ Prod.snd) ∧
      (m.ready start).2.items.entries = m.items.entries.drop k ∧ Rep (m.ready start).2 ∧
      ∀ first tx rest, m.items.entries = (first, tx) :: rest →
        (start < first → k = 0) ∧ (first ≤ start → RunFrom m.items.entries first k) := by
  unfold TxSortedMap.ready
  split
  · rename_i hnone
    have hnil := hr.indexed.entries_eq_nil hnone
    refine ⟨0, by simp, by simp, hr, fun first tx rest h => ?_⟩
    rw [hnil] at h
    cases h
  · rename_i first hfirst
    obtain ⟨tx, rest, hent⟩ := hr.indexed.first hfirst
    split
    · rename_i habove
      refine ⟨0, by simp, by simp, hr, fun first' tx' rest' h => ?_⟩
      rw [hent] at h
      have hf : first = first' := (Prod.mk.inj (List.cons.inj h).1).1
      subst hf
      exact ⟨fun _ => rfl, fun hle => absurd hle (not_le.mpr habove)⟩
    · rename_i hle
      obtain ⟨k, hk, htake⟩ := readyLoop_spec _ first m [] hr.indexed le_rfl
      refine ⟨k, by rw [hk.taken, List.nil_append], hk.rest, ⟨hk.indexed, fun _ hc => nomatch hc⟩,
        fun first' tx' rest' h => ?_⟩
      rw [hent] at h
      have hf : first = first' := (Prod.mk.inj (List.cons.inj h).1).1
      subst hf
      refine ⟨fun hlt => absurd hlt (not_lt.mpr (not_lt.mp hle)), fun _ => ?_⟩
      obtain ⟨hrun, hrunFrom⟩ := readyLoop_runFrom m.items.entries first
      have hlen : k = (TxList.readyLoop m.items.entries first).length := by
        rw [← htake, List.length_take, min_eq_left hk.le]
      rw [hlen]
      exact hrunFrom

/-! ### `Flatten` -/

theorem Indexed.nonce_sorted {items : SortedMap Nat Transaction} {index : Array Nat}
    (hi : Indexed items index) :
    (items.entries.map Prod.snd).Pairwise fun a b => a.accountNonce < b.accountNonce := by
  rw [List.pairwise_map]
  have hsorted := items.sorted
  rw [List.pairwise_map] at hsorted
  refine List.Pairwise.imp_of_mem (fun {a b} ha hb hab => ?_) hsorted
  rw [hi.nonces a.1 a.2 ((SortedMap.mem_entries_iff _ _ _).mp ha),
    hi.nonces b.1 b.2 ((SortedMap.mem_entries_iff _ _ _).mp hb)]
  exact hab

/-- Sorting the transactions of a `range` by nonce gives the map's transactions in key order: the
nonces are the keys, so the order is the only one. -/
theorem Indexed.sortByNonce_range {items : SortedMap Nat Transaction} {index : Array Nat}
    (hi : Indexed items index) (rank : Nat → Nat) :
    sortByNonce ((range rank items).map Prod.snd) = items.entries.map Prod.snd := by
  unfold sortByNonce
  exact mergeSort_eq_of_perm Transaction.accountNonce ((range_perm rank items).map Prod.snd)
    hi.nonce_sorted

/-- `Flatten` keeps the invariant and returns the map's transactions in nonce order, from the cache
or sorted afresh. -/
theorem Rep.flatten {m : TxSortedMap} (hr : Rep m) (rank : Nat → Nat) :
    (m.flatten rank).1 = m.items.entries.map Prod.snd ∧ (m.flatten rank).2.items = m.items ∧
      Rep (m.flatten rank).2 := by
  unfold TxSortedMap.flatten
  split
  · rename_i c hc
    exact ⟨hr.cache c hc, rfl, hr⟩
  · have hsort := hr.indexed.sortByNonce_range rank
    exact ⟨hsort, rfl, hr.indexed, fun c hc => by rw [← Option.some.inj hc, hsort]⟩

/-! ### The map-only model

`Core/TxList.lean` models `txSortedMap` by its map alone. Under `Rep` each operation returns, and
does to the map, what that model says; `Filter` returns the same transactions in the order of its
`range`. -/

theorem RunFrom.unique {l : List (Nat × Transaction)} {next k k' : Nat} (h : RunFrom l next k)
    (h' : RunFrom l next k') : k = k' := by
  by_contra hne
  rcases Nat.lt_or_gt_of_ne hne with hlt | hgt
  · exact h.2 (h'.1 k hlt)
  · exact h'.2 (h.1 k' hgt)

theorem forward_refines {m : TxSortedMap} (hr : Rep m) {l : TxList} (hl : l.txs = m.items)
    (threshold : Nat) :
    ∃ m', m.forward threshold = .ok ((l.forward threshold).1.map some, m') ∧
      m'.items = (l.forward threshold).2.txs ∧ Rep m' := by
  obtain ⟨m', h, hitems, hm'⟩ := hr.forward threshold
  refine ⟨m', by simp only [h, TxList.forward, hl, List.map_map], SortedMap.eq_of_entries_eq ?_, hm'⟩
  rw [hitems]
  simp only [TxList.forward, hl]
  exact (m.items.entries_foldl_erase_filter _ (List.Perm.refl _)).symm

theorem filter_refines {m : TxSortedMap} (hr : Rep m) (rank rebuild : Nat → Nat)
    (f : Transaction → Bool) :
    (m.filter rank rebuild f).1.Perm (TxList.filterTxs m.items f).1 ∧
      (m.filter rank rebuild f).2.items = (TxList.filterTxs m.items f).2 ∧
      Rep (m.filter rank rebuild f).2 := by
  obtain ⟨hperm, hitems, hm'⟩ := hr.filter rank rebuild f
  refine ⟨hperm, SortedMap.eq_of_entries_eq ?_, hm'⟩
  rw [hitems]
  exact (m.items.entries_foldl_erase_filter _ (List.Perm.refl _)).symm

theorem cap_refines {m : TxSortedMap} (hr : Rep m) {l : TxList} (hl : l.txs = m.items)
    (threshold : Nat) :
    ∃ m', m.cap threshold = .ok ((l.cap threshold).1.map some, m') ∧
      m'.items = (l.cap threshold).2.txs ∧ Rep m' := by
  obtain ⟨m', h, hitems, hm'⟩ := hr.cap threshold
  refine ⟨m', ?_, SortedMap.eq_of_entries_eq ?_, hm'⟩
  · rw [h, TxList.cap, hl]
    split
    · rename_i hsmall
      rw [List.drop_of_length_le hsmall]
      rfl
    · simp only [List.map_map]
  · rw [hitems, TxList.cap, hl]
    split
    · rename_i hsmall
      show _ = l.txs.entries
      rw [hl]
      exact List.take_of_length_le hsmall
    · dsimp only
      rw [SortedMap.entries_foldl_erase_pairs]
      simp only [List.map_reverse, List.mem_reverse]
      exact (m.items.filter_not_mem_keys_drop threshold).symm

theorem ready_refines {m : TxSortedMap} (hr : Rep m) {l : TxList} (hl : l.txs = m.items)
    (start : Nat) :
    (m.ready start).1 = (l.ready start).1.map some ∧ (m.ready start).2.items = (l.ready start).2.txs ∧
      Rep (m.ready start).2 := by
  obtain ⟨k, htaken, hitems, hm', hrun⟩ := hr.ready start
  refine ⟨?_, SortedMap.eq_of_entries_eq ?_, hm'⟩ <;> rw [TxList.ready, hl]
  · rw [htaken]
    split
    · rename_i hnil
      rw [hnil, List.take_nil]
      rfl
    · rename_i first tx rest hent
      obtain ⟨hzero, hfrom⟩ := hrun first tx rest hent
      split
      · rename_i habove
        rw [hzero habove, List.take_zero]
        rfl
      · rename_i hle
        obtain ⟨htake, hrunFrom⟩ := readyLoop_runFrom m.items.entries first
        rw [← hent, htake, ← (hfrom (not_lt.mp hle)).unique hrunFrom]
        simp only [List.map_map]
  · rw [hitems]
    split
    · rename_i hnil
      show _ = l.txs.entries
      rw [hl, hnil, List.drop_nil]
    · rename_i first tx rest hent
      obtain ⟨hzero, hfrom⟩ := hrun first tx rest hent
      split
      · rename_i habove
        show _ = l.txs.entries
        rw [hzero habove, List.drop_zero, hl]
      · rename_i hle
        obtain ⟨htake, hrunFrom⟩ := readyLoop_runFrom m.items.entries first
        dsimp only
        rw [← hent, htake, ← (hfrom (not_lt.mp hle)).unique hrunFrom,
          SortedMap.entries_foldl_erase_pairs, m.items.filter_not_mem_keys_take]

theorem flatten_refines {m : TxSortedMap} (hr : Rep m) {l : TxList} (hl : l.txs = m.items)
    (rank : Nat → Nat) : (m.flatten rank).1 = l.flatten := by
  rw [(hr.flatten rank).1, TxList.flatten, hl]

/-! ### Runs -/

/-- The calls a `txSortedMap` goes through, each `range` with the order it takes. -/
inductive TxSortedMapOp where
  | put (tx : Transaction)
  | forward (threshold : Nat)
  | filter (rank rebuild : Nat → Nat) (f : Transaction → Bool)
  | cap (threshold : Nat)
  | remove (nonce : Nat)
  | ready (start : Nat)
  | flatten (rank : Nat → Nat)

namespace TxSortedMapOp

def apply (m : TxSortedMap) : TxSortedMapOp → Except GoPanic TxSortedMap
  | .put tx => .ok (m.put tx)
  | .forward threshold => (m.forward threshold).map Prod.snd
  | .filter rank rebuild f => .ok (m.filter rank rebuild f).2
  | .cap threshold => (m.cap threshold).map Prod.snd
  | .remove nonce => .ok (m.remove nonce).2
  | .ready start => .ok (m.ready start).2
  | .flatten rank => .ok (m.flatten rank).2

end TxSortedMapOp

def run (m : TxSortedMap) (ops : List TxSortedMapOp) : Except GoPanic TxSortedMap :=
  ops.foldlM TxSortedMapOp.apply m

theorem Rep.apply {m : TxSortedMap} (hr : Rep m) (op : TxSortedMapOp) :
    ∃ m', op.apply m = .ok m' ∧ Rep m' := by
  cases op with
  | put tx => exact ⟨_, rfl, hr.put tx⟩
  | forward threshold =>
      obtain ⟨m', h, -, hm'⟩ := hr.forward threshold
      exact ⟨m', by rw [TxSortedMapOp.apply, h]; rfl, hm'⟩
  | filter rank rebuild f => exact ⟨_, rfl, (hr.filter rank rebuild f).2.2⟩
  | cap threshold =>
      obtain ⟨m', h, -, hm'⟩ := hr.cap threshold
      exact ⟨m', by rw [TxSortedMapOp.apply, h]; rfl, hm'⟩
  | remove nonce => exact ⟨_, rfl, (hr.remove nonce).2.2⟩
  | ready start =>
      obtain ⟨k, -, -, hm', -⟩ := hr.ready start
      exact ⟨_, rfl, hm'⟩
  | flatten rank => exact ⟨_, rfl, (hr.flatten rank).2.2⟩

theorem Rep.run {m : TxSortedMap} (hr : Rep m) (ops : List TxSortedMapOp) :
    ∃ m', m.run ops = .ok m' ∧ Rep m' := by
  induction ops generalizing m with
  | nil => exact ⟨m, rfl, hr⟩
  | cons op ops ih =>
      obtain ⟨m₁, h₁, hr₁⟩ := hr.apply op
      obtain ⟨m', h', hr'⟩ := ih hr₁
      refine ⟨m', ?_, hr'⟩
      rw [TxSortedMap.run, List.foldlM_cons, h₁]
      exact h'

theorem txSortedMap_rep (ops : List TxSortedMapOp) :
    ∃ m, new.run ops = .ok m ∧ Rep m ∧
      (∀ threshold, ∃ m', m.forward threshold =
          .ok ((m.items.entries.filter fun e => e.1 < threshold).map (some ∘ Prod.snd), m') ∧
        m'.items.entries = m.items.entries.filter fun e => !decide (e.1 < threshold)) ∧
      (∀ threshold, ∃ m', m.cap threshold =
          .ok ((m.items.entries.drop threshold).reverse.map (some ∘ Prod.snd), m') ∧
        m'.items.entries = m.items.entries.take threshold) ∧
      (∀ start, ∃ k, (m.ready start).1 = (m.items.entries.take k).map (some ∘ Prod.snd) ∧
        (m.ready start).2.items.entries = m.items.entries.drop k ∧
        ∀ first tx rest, m.items.entries = (first, tx) :: rest →
          (start < first → k = 0) ∧ (first ≤ start → RunFrom m.items.entries first k)) ∧
      ∀ rank, (m.flatten rank).1 = m.items.entries.map Prod.snd ∧
        (m.items.entries.map Prod.snd).Pairwise fun a b => a.accountNonce < b.accountNonce := by
  obtain ⟨m, hrun, hr⟩ := rep_new.run ops
  refine ⟨m, hrun, hr, fun threshold => ?_, fun threshold => ?_, fun start => ?_, fun rank => ?_⟩
  · obtain ⟨m', h, hitems, -⟩ := hr.forward threshold
    exact ⟨m', h, hitems⟩
  · obtain ⟨m', h, hitems, -⟩ := hr.cap threshold
    exact ⟨m', h, hitems⟩
  · obtain ⟨k, h, hitems, -, hrun⟩ := hr.ready start
    exact ⟨k, h, hitems, hrun⟩
  · exact ⟨(hr.flatten rank).1, hr.indexed.nonce_sorted⟩

/-! ### Runs against the map alone

Each call with what it returns, against the same call on `TxList`'s map: over every run from an
empty map, the heap and the cache change nothing that can be seen. The map is the list's, and the
transactions returned are the list's, up to the order of a `range` for `Filter`. -/

namespace TxSortedMapOp

/-- The call with what it returns, `none` for a transaction the map lookup finds nil. -/
def step (m : TxSortedMap) : TxSortedMapOp →
    Except GoPanic (List (Option Transaction) × TxSortedMap)
  | .put tx => .ok ([], m.put tx)
  | .forward threshold => m.forward threshold
  | .filter rank rebuild f =>
      .ok ((m.filter rank rebuild f).1.map some, (m.filter rank rebuild f).2)
  | .cap threshold => m.cap threshold
  | .remove nonce => .ok ([], (m.remove nonce).2)
  | .ready start => .ok (m.ready start)
  | .flatten rank => .ok ((m.flatten rank).1.map some, (m.flatten rank).2)

/-- The call on `TxList`, which keeps the map alone. -/
def onList (l : TxList) : TxSortedMapOp → List Transaction × TxList
  | .put tx => ([], { l with txs := l.txs.insert tx.accountNonce tx })
  | .forward threshold => l.forward threshold
  | .filter _ _ f =>
      let r := TxList.filterTxs l.txs f
      (r.1, { l with txs := r.2 })
  | .cap threshold => l.cap threshold
  | .remove nonce => ([], { l with txs := l.txs.erase nonce })
  | .ready start => l.ready start
  | .flatten _ => (l.flatten, l)

end TxSortedMapOp

/-- Calls one after another, with what they return. -/
def runSteps (m : TxSortedMap) : List TxSortedMapOp →
    Except GoPanic (List (Option Transaction) × TxSortedMap)
  | [] => .ok ([], m)
  | op :: ops => do
      let (outs, m) ← op.step m
      let (rest, m) ← runSteps m ops
      pure (outs ++ rest, m)

/-- The same calls on `TxList`. -/
def runList (l : TxList) : List TxSortedMapOp → List Transaction × TxList
  | [] => ([], l)
  | op :: ops =>
      let r := op.onList l
      let rest := runList r.2 ops
      (r.1 ++ rest.1, rest.2)

theorem Rep.step {m : TxSortedMap} (hr : Rep m) {l : TxList} (hl : l.txs = m.items)
    (op : TxSortedMapOp) :
    ∃ outs m', op.step m = .ok (outs, m') ∧ Rep m' ∧ m'.items = (op.onList l).2.txs ∧
      outs.Perm ((op.onList l).1.map some) := by
  cases op with
  | put tx =>
      refine ⟨[], m.put tx, rfl, hr.put tx, ?_, List.Perm.refl _⟩
      rw [TxSortedMapOp.onList, hl]
      rfl
  | forward threshold =>
      obtain ⟨m', h, hitems, hm'⟩ := forward_refines hr hl threshold
      exact ⟨_, m', h, hm', hitems, List.Perm.refl _⟩
  | filter rank rebuild f =>
      obtain ⟨hperm, hitems, hm'⟩ := filter_refines hr rank rebuild f
      refine ⟨_, _, rfl, hm', ?_, ?_⟩ <;> rw [TxSortedMapOp.onList, hl]
      · exact hitems
      · exact hperm.map some
  | cap threshold =>
      obtain ⟨m', h, hitems, hm'⟩ := cap_refines hr hl threshold
      exact ⟨_, m', h, hm', hitems, List.Perm.refl _⟩
  | remove nonce =>
      obtain ⟨-, hitems, hm'⟩ := hr.remove nonce
      refine ⟨[], _, rfl, hm', ?_, List.Perm.refl _⟩
      rw [hitems, TxSortedMapOp.onList, hl]
  | ready start =>
      obtain ⟨hout, hitems, hm'⟩ := ready_refines hr hl start
      refine ⟨(m.ready start).1, (m.ready start).2, rfl, hm', hitems, ?_⟩
      rw [hout]
      exact List.Perm.refl _
  | flatten rank =>
      refine ⟨_, _, rfl, (hr.flatten rank).2.2, ?_, ?_⟩
      · rw [(hr.flatten rank).2.1, TxSortedMapOp.onList, hl]
      · rw [flatten_refines hr hl rank]
        exact List.Perm.refl _

/-- Every run from related states: no panic, and the map and what is returned are the list's.
The induction is on the calls. -/
theorem Rep.runSteps {m : TxSortedMap} (hr : Rep m) {l : TxList} (hl : l.txs = m.items)
    (ops : List TxSortedMapOp) :
    ∃ outs m', m.runSteps ops = .ok (outs, m') ∧ m'.items = (runList l ops).2.txs ∧
      outs.Perm ((runList l ops).1.map some) := by
  induction ops generalizing m l with
  | nil => exact ⟨[], m, rfl, hl.symm, List.Perm.refl _⟩
  | cons op ops ih =>
      obtain ⟨outs₁, m₁, h₁, hr₁, hl₁, hp₁⟩ := hr.step hl op
      obtain ⟨outs₂, m₂, h₂, hl₂, hp₂⟩ := ih hr₁ hl₁.symm
      refine ⟨outs₁ ++ outs₂, m₂, ?_, hl₂, ?_⟩
      · rw [TxSortedMap.runSteps, h₁]
        simp only [bind, Except.bind, h₂]
        rfl
      · rw [runList, List.map_append]
        exact hp₁.append hp₂

end TxSortedMap

end AuroraChain.Core
