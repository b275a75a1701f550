import AuroraChain.Core.Miner
/-!
# The pool's containers: `core/tx_list.go`

`txList` holds one account's transactions by nonce. Its `txSortedMap` keeps them in a Go map with
a heap of the nonces beside it and a cache of the sorted list; the heap always holds the map's
keys, and the cache is the sorted values whenever it is set, so the model keeps the map alone as
a `SortedMap` and reads the heap's pops and the cache off its keys in increasing order.

`txTypeList` is the pool's price index: one `TxByPrice` heap of transactions for each transaction
type, kept in a `txPoolSorter` heap ordered by the heaps' lengths. A transaction is filed under
`GetTransactionType`. `Put` pushes it on its type's heap and `RemoveByHash` takes it off, and the
pool calls them by hand wherever it adds to or deletes from `all`. `Cap` pops a copy of all the
heaps and `Put`s back what it keeps, without taking it off first.
-/

namespace AuroraChain.Core

/-! ## Transaction types -/

/-- `common.StringToAddress`: the string's bytes right-aligned in the 20 bytes of an address, the
leading ones dropped if there are more. -/
def stringToAddress (s : String) : Address :=
  Fin.ofNat _ (s.toUTF8.toList.foldl (fun acc b => acc * 256 + b.toNat) 0)

/-- `Transaction.GetTransactionType`: the asset of a transfer, the callee of a contract call, and a
fixed address for every other action. `*tx.To()` of a contract call without a recipient is a nil
dereference. -/
def getTransactionType (tx : Transaction) : Except GoPanic Address :=
  if tx.action = ActionTrans then .ok (tx.asset.getD (stringToAddress "aoa"))
  else if tx.action = ActionRegister then .ok (stringToAddress "Register Agent")
  else if tx.action = ActionAddVote ∨ tx.action = ActionSubVote then .ok (stringToAddress "Vote Agent")
  else if tx.action = ActionCreateContract then .ok (stringToAddress "Create Contract")
  else if tx.action = ActionCallContract then
    match tx.recipient with
    | some callee => .ok callee
    | none => .error .nilDereference
  else .ok (stringToAddress "Publish Asset")

/-- `Transaction.EmCost`: the gas at its price, the amount of a transfer and the registration fee
of an agent. -/
def emCost (tx : Transaction) : Nat :=
  let total := tx.price * tx.gasLimit
  if tx.action = ActionTrans then total + tx.amount
  else if tx.action = ActionRegister then total + Params.TxGasAgentCreation
  else total

/-! ## `txSortedMap` and `txList` -/

/-- `txList`: `txs` is the `txSortedMap`'s map from nonce to transaction. -/
structure TxList where
  strict : Bool
  txs : SortedMap Nat Transaction
  costcap : Nat
  gascap : Nat

namespace TxList

/-- `newTxList(strict)`. -/
def new (strict : Bool) : TxList := ⟨strict, ∅, 0, 0⟩

/-- `Overlaps`: a transaction with the same nonce is held. -/
def overlaps (l : TxList) (tx : Transaction) : Bool := l.txs.contains tx.accountNonce

/-- `100+int64(priceBump)`: the `uint64` bump converted to `int64` and added in `int64`, so the
percentage is the two's-complement value of the low 64 bits of `100 + priceBump`. -/
def bumpPercent (priceBump : Nat) : Int := Int.bmod (100 + (priceBump : Int)) (2 ^ 64)

/-- `Add(tx, priceBump)`: a transaction at a held nonce replaces the old one only if it pays more
by `priceBump` percent; whether it went in, and the transaction it replaced. The threshold is
`big.Int.Div`, Euclidean division as `Int`'s. -/
def add (l : TxList) (tx : Transaction) (priceBump : Nat) : Bool × Option Transaction × TxList :=
  let old := l.txs.get? tx.accountNonce
  let rejected := match old with
    | some old =>
        let threshold := (old.price : Int) * bumpPercent priceBump / 100
        decide (old.price ≥ tx.price ∨ threshold > tx.price)
    | none => false
  if rejected then (false, none, l)
  else (true, old, { l with
    txs := l.txs.insert tx.accountNonce tx
    costcap := max l.costcap (emCost tx)
    gascap := max l.gascap tx.gasLimit })

/-- `Forward(threshold)`: the transactions below the nonce `threshold` removed, lowest first, as
the nonce heap pops them. -/
def forward (l : TxList) (threshold : Nat) : List Transaction × TxList :=
  let removed := l.txs.entries.filter fun e => e.1 < threshold
  (removed.map Prod.snd, { l with txs := removed.foldl (fun m e => m.erase e.1) l.txs })

/-- `txSortedMap.Filter(filter)`: the transactions the filter picks removed, in nonce order (an
order Go's map iteration may take). -/
def filterTxs (m : SortedMap Nat Transaction) (f : Transaction → Bool) :
    List Transaction × SortedMap Nat Transaction :=
  let removed := m.entries.filter fun e => f e.2
  (removed.map Prod.snd, removed.foldl (fun m e => m.erase e.1) m)

/-- `txList.Filter(costLimit, gasLimit)`: the transactions that cost or need too much removed,
and in a strict list every transaction after the lowest removed nonce as invalid. -/
def filter (l : TxList) (costLimit gasLimit : Nat) : List Transaction × List Transaction × TxList :=
  if l.costcap ≤ costLimit ∧ l.gascap ≤ gasLimit then ([], [], l)
  else
    let (removed, txs) := filterTxs l.txs fun tx => emCost tx > costLimit ∨ tx.gasLimit > gasLimit
    let l := { l with txs, costcap := costLimit, gascap := gasLimit }
    if l.strict ∧ removed ≠ [] then
      let lowest := removed.foldl (fun lowest tx => min lowest tx.accountNonce) (2 ^ 64 - 1)
      let (invalids, txs) := filterTxs l.txs fun tx => tx.accountNonce > lowest
      (removed, invalids, { l with txs })
    else (removed, [], l)

/-- `Cap(threshold)`: the transactions with the highest nonces beyond the first `threshold`
removed, highest first. -/
def cap (l : TxList) (threshold : Nat) : List Transaction × TxList :=
  if l.txs.entries.length ≤ threshold then ([], l)
  else
    let drops := (l.txs.entries.drop threshold).reverse
    (drops.map Prod.snd, { l with txs := drops.foldl (fun m e => m.erase e.1) l.txs })

/-- `Remove(tx)`: whether a transaction was held at the nonce, and in a strict list the
transactions after it, which are no longer executable. -/
def remove (l : TxList) (tx : Transaction) : Bool × List Transaction × TxList :=
  if l.txs.contains tx.accountNonce then
    let l := { l with txs := l.txs.erase tx.accountNonce }
    if l.strict then
      let (invalids, txs) := filterTxs l.txs fun t => t.accountNonce > tx.accountNonce
      (true, invalids, { l with txs })
    else (true, [], l)
  else (false, [], l)

/-- The loop of `Ready`: the transactions at consecutive nonces from `next`. -/
def readyLoop : List (Nat × Transaction) → Nat → List (Nat × Transaction)
  | [], _ => []
  | (nonce, tx) :: rest, next => if nonce = next then (nonce, tx) :: readyLoop rest (next + 1) else []

/-- `Ready(start)`: the run of consecutive nonces from the lowest, if it is at most `start`. -/
def ready (l : TxList) (start : Nat) : List Transaction × TxList :=
  match l.txs.entries with
  | [] => ([], l)
  | (first, tx) :: rest =>
      if first > start then ([], l)
      else
        let ready := readyLoop ((first, tx) :: rest) first
        (ready.map Prod.snd, { l with txs := ready.foldl (fun m e => m.erase e.1) l.txs })

def len (l : TxList) : Nat := l.txs.entries.length

/-- `Flatten`: the transactions by nonce. -/
def flatten (l : TxList) : List Transaction := l.txs.entries.map Prod.snd

end TxList

/-! ## `TxByPrice` heaps and `txTypeList` -/

/-- `TxByPrice.Get(hash)`: the index of the first transaction with the hash. -/
def txByPriceGet (hashOf : Transaction → Hash) (h : Array Transaction) (hash : Hash) : Option Nat :=
  h.findIdx? fun tx => hashOf tx == hash

/-- `sort.Sort` of a `TxByPrice`: by price, highest first. Go's sort is not stable; the model keeps
transactions of one price in the order they were in. -/
def sortByPrice (h : Array Transaction) : Array Transaction :=
  (h.toList.insertionSort fun a b => b.price ≤ a.price).toArray

/-- A `KV` of the `txPoolSorter`: a transaction type, its heap, and whether the transaction that
created the entry was a contract transaction. -/
structure KV where
  key : Address
  value : Array Transaction
  contract : Bool

/-- `txPoolSorter.Less`: the longer heap first. -/
def kvLess (a b : KV) : Bool := decide (b.value.size < a.value.size)

/-- `txTypeList`; `all` is the pool's map, passed to the methods that read it. -/
structure TxTypeList where
  items : Array KV

namespace TxTypeList

/-- Every transaction the heaps hold, type after type. -/
def txs (l : TxTypeList) : List Transaction := l.items.toList.flatMap fun kv => kv.value.toList

/-- `Get(txType)`: the index of the type's entry. -/
def get (l : TxTypeList) (txType : Address) : Option Nat := l.items.findIdx? fun kv => kv.key == txType

variable (contract : Transaction → Bool)

/-- `Put(tx, db)`: onto the type's heap, or a new entry for a new type. `contract` is
`IsContractTransaction` against the pool's current state. -/
def put (l : TxTypeList) (tx : Transaction) : Except GoPanic TxTypeList := do
  let txType ← getTransactionType tx
  match l.get txType with
  | none =>
      pure ⟨GoHeap.push kvLess l.items ⟨txType, GoHeap.push priceLess #[] tx, contract tx⟩⟩
  | some i =>
      pure ⟨l.items.modify i fun kv => { kv with value := GoHeap.push priceLess kv.value tx }⟩

variable (hashOf : Transaction → Hash)

/-- `RemoveByHash(txType, hash)`: off the type's heap, and the entry off the sorter when its heap
is empty. A type without an entry is a nil dereference, and a hash not on the heap makes
`heap.Remove` index out of range. -/
def removeByHash (l : TxTypeList) (txType : Address) (hash : Hash) : Except GoPanic TxTypeList :=
  match l.get txType with
  | none => .error .nilDereference
  | some i =>
      match l.items[i]? with
      | none => .error .sliceOutOfRange
      | some kv =>
          match (txByPriceGet hashOf kv.value hash).bind (GoHeap.remove priceLess kv.value) with
          | none => .error .sliceOutOfRange
          | some (_, value) =>
              let items := l.items.set! i { kv with value }
              if value.size = 0 then
                match GoHeap.remove kvLess items i with
                | none => .error .sliceOutOfRange
                | some (_, items) => .ok ⟨items⟩
              else .ok ⟨items⟩

/-- The loop of `Underpriced`: stale transactions, no longer in `all`, dropped from the end. -/
def dropStale (all : SortedMap Hash Transaction) : Nat → Array Transaction → Array Transaction
  | 0, h => h
  | fuel + 1, h =>
      match h.back? with
      | none => h
      | some head => if all.contains (hashOf head) then h else dropStale all fuel h.pop

/-- `Underpriced(tx)`: the type's heap sorted and its stale tail dropped; then whether its
cheapest transaction costs at least as much as `tx`. -/
def underpriced (l : TxTypeList) (all : SortedMap Hash Transaction) (tx : Transaction) :
    Except GoPanic (TxTypeList × Bool) := do
  let txType ← getTransactionType tx
  match l.get txType with
  | none => .error .nilDereference
  | some i =>
      match l.items[i]? with
      | none => .error .sliceOutOfRange
      | some kv =>
          let sorted := sortByPrice kv.value
          let value := dropStale hashOf all sorted.size sorted
          let l := ⟨l.items.set! i { kv with value }⟩
          if l.items.size = 0 then pure (l, false)
          else match value.back? with
            | none => .error .sliceOutOfRange
            | some cheapest => pure (l, decide (cheapest.price ≥ tx.price))

/-- `RemoveTx`: the first entry's heap sorted, and the hash of its last transaction. -/
def removeTx (l : TxTypeList) : Except GoPanic (TxTypeList × Hash) :=
  match l.items[0]? with
  | none => .error .sliceOutOfRange
  | some kv =>
      let value := sortByPrice kv.value
      match value.back? with
      | none => .error .sliceOutOfRange
      | some removeTx => .ok (⟨l.items.set! 0 { kv with value }⟩, hashOf removeTx)

/-- `txPoolSorter.GetTransactionList`: every transaction pushed on one new heap. -/
def getTransactionList (items : Array KV) : Array Transaction :=
  items.foldl (fun res kv => kv.value.foldl (GoHeap.push priceLess) res) #[]

/-- `accountSet.containsTx`: a sender that cannot be recovered is not local. -/
def containsTx (codec : MessageCodec) (locals : List Address) (tx : Transaction) : Bool :=
  match codec.sender tx with
  | .ok addr => locals.contains addr
  | .error _ => false

/-- The loop of `Cap`: pops from the heap of all transactions, skipping stale ones, until the
first at or above `threshold`, which is saved and ends the loop; below it, local transactions are
saved and the others dropped. The heap loses one element a round, so its size is enough fuel. -/
def capLoop (all : SortedMap Hash Transaction) (threshold : Nat) (isLocal : Transaction → Bool) :
    Nat → Array Transaction → List Transaction × List Transaction → List Transaction × List Transaction
  | 0, _, acc => acc
  | fuel + 1, txList, (drop, save) =>
      match GoHeap.pop priceLess txList with
      | none => (drop, save)
      | some (tx, txList) =>
          if !all.contains (hashOf tx) then capLoop all threshold isLocal fuel txList (drop, save)
          else if tx.price ≥ threshold then (drop, save ++ [tx])
          else if isLocal tx then capLoop all threshold isLocal fuel txList (drop, save ++ [tx])
          else capLoop all threshold isLocal fuel txList (drop ++ [tx], save)

/-- `Cap(threshold, local, db)`: the transactions to drop; the saved ones are `Put` again. -/
def cap (l : TxTypeList) (all : SortedMap Hash Transaction) (threshold : Nat)
    (isLocal : Transaction → Bool) : Except GoPanic (TxTypeList × List Transaction) := do
  let txList := getTransactionList l.items
  let (drop, save) := capLoop hashOf all threshold isLocal txList.size txList ([], [])
  let l ← save.foldlM (put contract) l
  pure (l, drop)

end TxTypeList

/-! ## What the price index holds

`txs` lists every transaction the heaps hold, one entry per copy. `Put` adds one copy,
`RemoveByHash` takes one copy of a transaction with the hash off, and `Cap` adds one copy of each
transaction it saves.
-/

section Lists

variable {α β : Type} [DecidableEq β]

/-- Changing one element of a list changes its `flatMap` by what changes at that element. -/
theorem flatMap_modify_perm (g : α → List β) (f : α → α) (extra : List β)
    (hf : ∀ a, (g (f a)).Perm (g a ++ extra)) :
    ∀ (l : List α) (i : Nat), i < l.length → ((l.modify i f).flatMap g).Perm (l.flatMap g ++ extra)
  | [], _, hi => absurd hi (Nat.not_lt_zero _)
  | a :: l, 0, _ => by
      rw [List.modify_zero_cons, List.flatMap_cons, List.flatMap_cons]
      have ha := List.perm_iff_count.mp (hf a)
      refine List.perm_iff_count.mpr fun x => ?_
      simp only [List.count_append] at ha ⊢
      have := ha x
      omega
  | a :: l, i + 1, hi => by
      rw [List.modify_succ_cons, List.flatMap_cons, List.flatMap_cons, List.append_assoc]
      exact (flatMap_modify_perm g f extra hf l i (by simpa using hi)).append_left (g a)

/-- Replacing the element `a` at `i` by `b` trades `a`'s part of a `flatMap` for `b`'s. -/
theorem flatMap_set_perm (g : α → List β) :
    ∀ (l : List α) (i : Nat) (a b : α), l[i]? = some a →
      ((l.set i b).flatMap g ++ g a).Perm (l.flatMap g ++ g b)
  | [], _, _, _, h => by simp at h
  | c :: l, 0, a, b, h => by
      simp only [List.getElem?_cons_zero, Option.some.injEq] at h
      subst h
      rw [List.set_cons_zero, List.flatMap_cons, List.flatMap_cons]
      refine List.perm_iff_count.mpr fun x => ?_
      simp only [List.count_append]
      omega
  | c :: l, i + 1, a, b, h => by
      rw [List.set_cons_succ, List.flatMap_cons, List.flatMap_cons, List.append_assoc,
        List.append_assoc]
      exact (flatMap_set_perm g l i a b (by simpa using h)).append_left (g c)

end Lists

namespace TxTypeList

theorem txs_perm_of_perm {items items' : Array KV} (h : items'.Perm items) :
    (⟨items'⟩ : TxTypeList).txs.Perm (⟨items⟩ : TxTypeList).txs :=
  (Array.perm_iff_toList_perm.mp h).flatMap_right _

theorem txs_push (items : Array KV) (kv : KV) :
    (⟨items.push kv⟩ : TxTypeList).txs = (⟨items⟩ : TxTypeList).txs ++ kv.value.toList := by
  simp [txs]

theorem lt_size_of_get {l : TxTypeList} {txType : Address} {i : Nat} (h : l.get txType = some i) :
    i < l.items.size :=
  (Array.findIdx?_eq_some_iff_getElem.mp h).1

variable (contract : Transaction → Bool)

theorem put_txs {l l' : TxTypeList} {tx : Transaction} (h : l.put contract tx = .ok l') :
    l'.txs.Perm (tx :: l.txs) := by
  unfold put at h
  obtain ⟨txType, -, h⟩ := except_bind_eq_ok h
  split at h
  · -- a new type: a new entry with `tx` alone on its heap
    cases h
    have hone : (GoHeap.push priceLess #[] tx).toList.Perm [tx] :=
      Array.perm_iff_toList_perm.mp (GoHeap.push_perm priceLess #[] tx)
    have hpush := txs_perm_of_perm (GoHeap.push_perm kvLess l.items
      ⟨txType, GoHeap.push priceLess #[] tx, contract tx⟩)
    rw [txs_push] at hpush
    exact (hpush.trans (hone.append_left _)).trans (List.perm_append_singleton _ _)
  · -- a known type: `tx` joins its heap
    rename_i i hi
    cases h
    have hstep : ∀ kv : KV, ({ kv with value := GoHeap.push priceLess kv.value tx } : KV).value.toList.Perm
        (kv.value.toList ++ [tx]) := fun kv => by
      simpa using Array.perm_iff_toList_perm.mp (GoHeap.push_perm priceLess kv.value tx)
    have hmod := flatMap_modify_perm (fun kv : KV => kv.value.toList) _ [tx] hstep l.items.toList i
      (by simpa using lt_size_of_get hi)
    simp only [txs, Array.toList_modify]
    exact hmod.trans (List.perm_append_singleton _ _)

variable (hashOf : Transaction → Hash)

/-- Pushing transactions one by one onto a heap adds them, in some order. -/
theorem foldl_push_perm :
    ∀ (xs : List Transaction) (res : Array Transaction),
      (xs.foldl (GoHeap.push priceLess) res).toList.Perm (res.toList ++ xs)
  | [], res => by simp
  | x :: xs, res => by
      have hx : (GoHeap.push priceLess res x).toList.Perm (res.toList ++ [x]) := by
        simpa using Array.perm_iff_toList_perm.mp (GoHeap.push_perm priceLess res x)
      rw [List.foldl_cons]
      refine (foldl_push_perm xs _).trans ?_
      simpa using hx.append_right xs

theorem getTransactionList_perm (l : TxTypeList) : (getTransactionList l.items).toList.Perm l.txs := by
  unfold getTransactionList txs
  rw [← Array.foldl_toList]
  suffices h : ∀ (kvs : List KV) (res : Array Transaction),
      (kvs.foldl (fun res kv => kv.value.foldl (GoHeap.push priceLess) res) res).toList.Perm
        (res.toList ++ kvs.flatMap fun kv => kv.value.toList) by
    simpa using h l.items.toList #[]
  intro kvs
  induction kvs with
  | nil => intro res; simp
  | cons kv kvs ih =>
      intro res
      rw [List.foldl_cons, List.flatMap_cons, ← List.append_assoc]
      refine (ih _).trans (List.Perm.append_right _ ?_)
      rw [← Array.foldl_toList]
      exact foldl_push_perm _ _

/-- When the first transaction popped is still pooled and pays at least `threshold`, it is saved
and ends the loop: nothing is dropped, whatever the rest of the heap holds. -/
theorem capLoop_of_first_above {all : SortedMap Hash Transaction} {threshold : Nat}
    (isLocal : Transaction → Bool) (fuel : Nat) {txList rest : Array Transaction} {x : Transaction}
    (hpop : GoHeap.pop priceLess txList = some (x, rest)) (hpooled : all.contains (hashOf x))
    (hprice : threshold ≤ x.price) :
    capLoop hashOf all threshold isLocal (fuel + 1) txList ([], []) = ([], [x]) := by
  rw [capLoop, hpop]
  dsimp only
  rw [if_neg (by rw [hpooled]; decide), if_pos hprice, List.nil_append]

theorem put_ok (l : TxTypeList) {tx : Transaction} {txType : Address}
    (htype : getTransactionType tx = .ok txType) : ∃ l', l.put contract tx = .ok l' := by
  unfold put
  rw [htype]
  dsimp only [bind, Except.bind]
  split
  · exact ⟨_, rfl⟩
  · exact ⟨_, rfl⟩

/-- `Cap` when the first transaction it pops from the heap of all the index's transactions is
pooled and pays at least `threshold`: it drops nothing, and puts that transaction back on its
heap, where it already was. -/
theorem cap_of_first_above {l : TxTypeList} {all : SortedMap Hash Transaction} {threshold : Nat}
    (isLocal : Transaction → Bool) {x : Transaction} {rest : Array Transaction} {txType : Address}
    (hpop : GoHeap.pop priceLess (getTransactionList l.items) = some (x, rest))
    (hpooled : all.contains (hashOf x)) (hprice : threshold ≤ x.price)
    (htype : getTransactionType x = .ok txType) :
    ∃ l', l.cap contract hashOf all threshold isLocal = .ok (l', []) ∧ l'.txs.Perm (x :: l.txs) := by
  have hsize := (GoHeap.pop_perm priceLess hpop).size_eq
  rw [Array.size_push] at hsize
  obtain ⟨l', hput⟩ := put_ok contract l htype
  refine ⟨l', ?_, put_txs contract hput⟩
  unfold cap
  dsimp only
  rw [show (getTransactionList l.items).size = (getTransactionList l.items).size - 1 + 1 by omega,
    capLoop_of_first_above hashOf isLocal _ hpop hpooled hprice]
  simp [hput]

/-- `Cap` on an index whose transactions are all pooled and all pay at least `threshold`: it
drops nothing, and puts one of them back on its heap, where it already was. -/
theorem cap_of_above {l : TxTypeList} {all : SortedMap Hash Transaction} {threshold : Nat}
    (isLocal : Transaction → Bool) (hne : l.txs ≠ [])
    (habove : ∀ t ∈ l.txs, all.contains (hashOf t) ∧ threshold ≤ t.price)
    (htyped : ∀ t ∈ l.txs, ∃ txType, getTransactionType t = .ok txType) :
    ∃ l' x, x ∈ l.txs ∧ l.cap contract hashOf all threshold isLocal = .ok (l', []) ∧
      l'.txs.Perm (x :: l.txs) := by
  have hperm := getTransactionList_perm l
  have hsize : 0 < (getTransactionList l.items).size := by
    rw [← Array.length_toList, hperm.length_eq]
    exact List.length_pos_of_ne_nil hne
  obtain ⟨⟨x, rest⟩, hpop⟩ := Option.isSome_iff_exists.mp (GoHeap.pop_isSome priceLess hsize)
  have hx : x ∈ l.txs :=
    hperm.mem_iff.mp ((Array.perm_iff_toList_perm.mp (GoHeap.pop_perm priceLess hpop)).mem_iff.mp
      (by simp))
  obtain ⟨hpooled, hprice⟩ := habove x hx
  obtain ⟨txType, htype⟩ := htyped x hx
  obtain ⟨l', hcap, hl'⟩ := cap_of_first_above contract hashOf isLocal hpop hpooled hprice htype
  exact ⟨l', x, hx, hcap, hl'⟩

end TxTypeList

end AuroraChain.Core
