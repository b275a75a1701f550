import AuroraChain.Core.TxList
/-!
# The transaction pool: `core/tx_pool.go`

`TxPool` keeps every transaction it holds in `all`, by hash, and in exactly one of two per-account
`txList`s: `pending`, the transactions executable now, and `queue`, those waiting for a nonce.
`priced` is the price index by transaction type (`txTypeList`). The pool is meant to keep the
three in step: whatever enters `all` is `Put` on `priced`, and whatever leaves it is taken off with
`RemoveByHash`, by hand at every place that writes `all`.

A method is a state transformer that may panic. The environment the pool reads (the signer, the
transaction hash, the code of accounts, the checks of a transaction alone and the state
`currentState` that `validateTx` checks the sender against) is `PoolEnv`. The journal of local transactions, the pending nonces (`pendingState`), the
heartbeats and the event feeds are left out: nothing the pool's bookkeeping reads depends on them.
-/

namespace AuroraChain.Core

open State

/-- `TxPoolConfig`, the fields the modelled methods read. -/
structure TxPoolConfig where
  priceBump : Nat
  accountSlots : Nat
  globalSlots : Nat
  accountQueue : Nat
  globalQueue : Nat

/-- What the pool reads outside itself: `types.Sender`, `Transaction.Hash`,
`IsContractTransaction` against `currentState`, the checks of `validateTx` that read the
transaction alone (its size, its value's sign and the gas limits), and `currentState`. -/
structure PoolEnv where
  codec : MessageCodec
  hashOf : Transaction → Hash
  contract : Transaction → Bool
  txChecks : Transaction → Option String
  currentState : StateDB

def maxTrxType : Nat := 1000

/-- `TxPool`, with the fields its bookkeeping reads and writes. -/
structure TxPool where
  config : TxPoolConfig
  gasPrice : Nat
  locals : List Address
  pending : SortedMap Address TxList
  queue : SortedMap Address TxList
  all : SortedMap Hash Transaction
  priced : TxTypeList

/-- A method of the pool. -/
abbrev PoolM (α : Type) := StateT TxPool (Except GoPanic) α

namespace TxPool

variable (env : PoolEnv)

/-- `delete(pool.all, hash)` and `pool.priced.RemoveByHash(tx.GetTransactionType(), hash)`, the
pair of lines every removal path of the pool writes out. -/
def forget (tx : Transaction) : PoolM Unit := do
  let hash := env.hashOf tx
  let txType ← StateT.lift (getTransactionType tx)
  let pool ← get
  let priced ← StateT.lift (pool.priced.removeByHash env.hashOf txType hash)
  set { pool with all := pool.all.erase hash, priced }

/-- `pool.all[hash] = tx` and `pool.priced.Put(tx, pool.currentState)`. -/
def remember (tx : Transaction) : PoolM Unit := do
  let pool ← get
  let priced ← StateT.lift (pool.priced.put env.contract tx)
  set { pool with all := pool.all.insert (env.hashOf tx) tx, priced }

/-- `Transaction.AssetInfo()`: nil when the bytes are missing or do not decode, and a panic when
the decoded supply is nil, which `big.Int.Set` dereferences; a nil issuer becomes the zero
address. -/
def txAssetInfo (codec : MessageCodec) (tx : Transaction) : Except GoPanic (Option AssetInfo) :=
  match codec.bytesToAssetInfo tx.assetInfo with
  | .error _ => .ok none
  | .ok ai =>
      match ai.supply with
      | none => .error .nilDereference
      | some _ => .ok (some { ai with issuer := some (ai.issuer.getD 0) })

/-- `Transaction.EmCost`: the gas at its price, and the amount of a transfer or the deposit of a
registration. -/
def emCost (tx : Transaction) : Nat :=
  tx.price * tx.gasLimit +
    (if tx.action = ActionTrans then tx.amount
    else if tx.action = ActionRegister then Params.TxGasAgentCreation else 0)

/-- The switch of `validateTx` on the action: registrations and votes are refused, the asset
information of a publication must be valid (a nil one is dereferenced), and a creation must carry
code. -/
def actionCheck (tx : Transaction) : Except GoPanic (Option String) :=
  if tx.action = ActionRegister ∨ tx.action = ActionAddVote ∨ tx.action = ActionSubVote then
    .ok (some "not support trx type")
  else if tx.action = ActionPublishAsset then
    (txAssetInfo env.codec tx).bind fun ai =>
      match ai with
      | none => .error .nilDereference
      | some ai =>
          match isAssetInfoValid ai with
          | .error e => .ok (some e)
          | .ok () => .ok none
  else if tx.action = ActionCreateContract ∧ tx.payload.length = 0 then
    .ok (some "Create contract but data is nil")
  else .ok none

/-- The checks that end `validateTx`, against `currentState`: the sender's balance of the asset
it sends, its coin against `EmCost`, and the intrinsic gas. -/
def fundsCheck (sender : Address) (tx : Transaction) : Option String :=
  let state := env.currentState
  let assetShort := match tx.asset with
    | some a => a ≠ 0 && decide ((state.getAssetBalance sender a).1 < tx.amount)
    | none => false
  if assetShort then some "insufficient funds of asset for transfer"
  else if (state.getBalance sender).1 < emCost tx then some "insufficient funds of AOA"
  else match intrinsicGas tx.payload tx.action with
    | .error e => some e.message
    | .ok gas => if tx.gasLimit < gas then some "intrinsic gas too low" else none

/-- `validateTx(tx, local)`: the action, the checks of the transaction alone, the sender, the
pool's price floor for a sender that is not local, the nonce against `currentState`, the switch
on the action, and the funds. -/
def validateTx (pool : TxPool) (tx : Transaction) (isLocal : Bool) : Except GoPanic (Option String) :=
  if tx.action > ActionCallContract then .ok (some ("Illegal action: " ++ toString tx.action))
  else match env.txChecks tx with
    | some err => .ok (some err)
    | none =>
        match env.codec.sender tx with
        | .error _ => .ok (some "invalid sender")
        | .ok sender =>
            let isLocal := isLocal || pool.locals.contains sender
            if !isLocal && pool.gasPrice > tx.price then .ok (some "transaction underpriced")
            else if (env.currentState.getNonce sender).1 > tx.accountNonce then
              .ok (some "nonce too low")
            else (actionCheck env tx).map fun err => err.or (fundsCheck env sender tx)

/-- `enqueueTx(hash, tx)`: into the sender's queue; a replaced transaction is forgotten. -/
def enqueueTx (hash : Hash) (tx : Transaction) : PoolM (Except String Bool) := do
  let sender := senderOf env.codec tx
  let pool ← get
  let (inserted, old, list) := ((pool.queue.get? sender).getD (TxList.new false)).add tx
    pool.config.priceBump
  set { pool with queue := pool.queue.insert sender list }
  if !inserted then return .error "replacement transaction underpriced"
  if let some old := old then forget env old
  let pool ← get
  let priced ← StateT.lift (pool.priced.put env.contract tx)
  set { pool with all := pool.all.insert hash tx, priced }
  return .ok old.isSome

/-- `promoteTx(addr, hash, tx)`: into the account's pending list. A transaction that loses to the
one held is forgotten, and one that is not in `all` is remembered. -/
def promoteTx (addr : Address) (hash : Hash) (tx : Transaction) : PoolM Unit := do
  let pool ← get
  let (inserted, old, list) := ((pool.pending.get? addr).getD (TxList.new true)).add tx
    pool.config.priceBump
  set { pool with pending := pool.pending.insert addr list }
  if !inserted then
    forget env tx
    return
  if let some old := old then forget env old
  let pool ← get
  if !pool.all.contains hash then remember env tx

/-- `removeTx(hash)`: out of `all` and `priced`, then out of the sender's pending list, whose
later transactions go back to the queue, or else out of its queue. -/
def removeTx (hash : Hash) : PoolM Unit := do
  let pool ← get
  match pool.all.get? hash with
  | none => return
  | some tx =>
      let addr := senderOf env.codec tx
      forget env tx
      let pool ← get
      if let some pendingList := pool.pending.get? addr then
        let (removed, invalids, pendingList) := pendingList.remove tx
        if removed then
          if pendingList.len = 0 then
            set { pool with pending := pool.pending.erase addr }
          else
            set { pool with pending := pool.pending.insert addr pendingList }
            invalids.forM fun tx => discard (enqueueTx env (env.hashOf tx) tx)
          return
      let pool ← get
      if let some future := pool.queue.get? addr then
        let (_, _, future) := future.remove tx
        if future.len = 0 then set { pool with queue := pool.queue.erase addr }
        else set { pool with queue := pool.queue.insert addr future }

/-- The hash of the transaction `add` evicts from a full pool to make room for `tx`, or the error
it returns instead: from `tx`'s own type the cheapest, unless `tx` pays no more than that; for a
new type the last of the first type's heap, unless there are too many types. -/
def evictionFor (tx : Transaction) (txType : Address) : PoolM (Except String Hash) := do
  let pool ← get
  match pool.priced.get txType with
  | none =>
      if pool.priced.items.size > maxTrxType then return .error "txpool is full"
      let (priced, hash) ← StateT.lift (pool.priced.removeTx env.hashOf)
      set { pool with priced }
      return .ok hash
  | some i =>
      let (priced, isUnderpriced) ← StateT.lift (pool.priced.underpriced env.hashOf pool.all tx)
      set { pool with priced }
      if isUnderpriced then return .error "transaction underpriced"
      match priced.items[i]? with
      | none => StateT.lift (.error .sliceOutOfRange)
      | some kv =>
          let value := sortByPrice kv.value
          set { pool with priced := ⟨priced.items.set! i { kv with value }⟩ }
          match value.back? with
          | none => StateT.lift (.error .sliceOutOfRange)
          | some removeTx => return .ok (env.hashOf removeTx)

/-- `add(tx, local)`: a known or invalid transaction is refused; a full pool evicts one first; a
transaction at a pending nonce replaces the pending one directly, and any other goes to the queue.
Whether it replaced one, or the error. -/
def add (tx : Transaction) (isLocal : Bool) : PoolM (Except String Bool) := do
  let hash := env.hashOf tx
  let txType ← StateT.lift (getTransactionType tx)
  let pool ← get
  if pool.all.contains hash then return .error "known transaction"
  let invalid ← StateT.lift (validateTx env pool tx isLocal)
  if let some err := invalid then return .error err
  if pool.all.entries.length ≥ pool.config.globalQueue + pool.config.globalSlots then
    match ← evictionFor env tx txType with
    | .error err => return .error err
    | .ok removeTxHash => removeTx env removeTxHash
  let sender := senderOf env.codec tx
  let pool ← get
  match pool.pending.get? sender with
  | some list =>
      if list.overlaps tx then
        let (inserted, old, list) := list.add tx pool.config.priceBump
        set { pool with pending := pool.pending.insert sender list }
        if !inserted then return .error "replacement transaction underpriced"
        if let some old := old then forget env old
        remember env tx
        return .ok old.isSome
  | none => pure ()
  match ← enqueueTx env hash tx with
  | .error err => return .error err
  | .ok replace =>
      if isLocal then modify fun pool => { pool with locals := sender :: pool.locals }
      return .ok replace

/-- `SetGasPrice(price)`: the new floor, and every transaction `Cap` returns removed. -/
def setGasPrice (price : Nat) : PoolM Unit := do
  let pool ← get
  let (priced, drops) ← StateT.lift (pool.priced.cap env.contract env.hashOf pool.all price
    (TxTypeList.containsTx env.codec pool.locals))
  set { pool with gasPrice := price, priced }
  drops.forM fun tx => removeTx env (env.hashOf tx)

/-- The pooled transactions, in hash order. -/
def pooled (pool : TxPool) : List Transaction := pool.all.entries.map Prod.snd

theorem contains_of_pooled (pool : TxPool)
    (hkeyed : ∀ e ∈ pool.all.entries, env.hashOf e.2 = e.1) {t : Transaction}
    (ht : t ∈ pooled pool) : pool.all.contains (env.hashOf t) = true := by
  obtain ⟨⟨h, t'⟩, hmem, rfl⟩ := List.mem_map.mp ht
  rw [hkeyed (h, t') hmem, SortedMap.contains_eq, (SortedMap.mem_entries_iff _ _ _).mp hmem]
  rfl

/-- `SetGasPrice` when `Cap` drops nothing: the new floor and the index `Cap` returns, and no
removal. -/
theorem setGasPrice_of_cap {pool : TxPool} {price : Nat} {l' : TxTypeList}
    (hcap : pool.priced.cap env.contract env.hashOf pool.all price
      (TxTypeList.containsTx env.codec pool.locals) = .ok (l', [])) :
    (setGasPrice env price).run pool = .ok ((), { pool with gasPrice := price, priced := l' }) := by
  have hcap' : pool.priced.cap env.contract env.hashOf pool.all price
      (TxTypeList.containsTx env.codec pool.locals) = pure (l', []) := hcap
  simp only [setGasPrice, StateT.run_bind, StateT.run_get, StateT.run_lift, StateT.run_set,
    pure_bind, hcap']
  rfl

/-- `SetGasPrice(price)` when the first transaction `Cap` pops from the heap of all the index's
transactions is pooled and pays at least `price`: every pooled transaction stays, those that pay
less than `price` included, and that transaction is put on the index once more. -/
theorem setGasPrice_of_first_above {pool : TxPool} {price : Nat} {x : Transaction}
    {rest : Array Transaction} {txType : Address}
    (hpop : GoHeap.pop priceLess (TxTypeList.getTransactionList pool.priced.items) = some (x, rest))
    (hpooled : pool.all.contains (env.hashOf x)) (hprice : price ≤ x.price)
    (htype : getTransactionType x = .ok txType) :
    ∃ pool', (setGasPrice env price).run pool = .ok ((), pool') ∧ pool'.all = pool.all ∧
      pool'.locals = pool.locals ∧ pool'.priced.txs.Perm (x :: pool.priced.txs) := by
  obtain ⟨l', hcap, hperm⟩ := TxTypeList.cap_of_first_above env.contract env.hashOf
    (TxTypeList.containsTx env.codec pool.locals) hpop hpooled hprice htype
  exact ⟨_, setGasPrice_of_cap env hcap, rfl, rfl, hperm⟩

/-- `SetGasPrice` at or below every pooled price, on a pool whose price index is exact: it drops
nothing and leaves `all` as it is, but `Cap` puts the first transaction it pops back on the
index, which then holds that transaction twice. -/
theorem setGasPrice_duplicates_priced (pool : TxPool) (price : Nat)
    (hexact : pool.priced.txs.Perm (pooled pool))
    (hkeyed : ∀ e ∈ pool.all.entries, env.hashOf e.2 = e.1)
    (htyped : ∀ t ∈ pooled pool, ∃ txType, getTransactionType t = .ok txType)
    (hne : pooled pool ≠ []) (hprice : ∀ t ∈ pooled pool, price ≤ t.price) :
    ∃ pool', (setGasPrice env price).run pool = .ok ((), pool') ∧ pool'.all = pool.all ∧
      ∃ x ∈ pooled pool, pool'.priced.txs.Perm (x :: pooled pool) := by
  have hne' : pool.priced.txs ≠ [] := by
    intro h
    rw [h] at hexact
    exact hne hexact.symm.eq_nil
  have habove : ∀ t ∈ pool.priced.txs, pool.all.contains (env.hashOf t) ∧ price ≤ t.price :=
    fun t ht => ⟨contains_of_pooled env pool hkeyed (hexact.mem_iff.mp ht),
      hprice t (hexact.mem_iff.mp ht)⟩
  obtain ⟨l', x, hx, hcap, hperm⟩ := TxTypeList.cap_of_above env.contract env.hashOf
    (TxTypeList.containsTx env.codec pool.locals) hne' habove
    (fun t ht => htyped t (hexact.mem_iff.mp ht))
  exact ⟨_, setGasPrice_of_cap env hcap, rfl, x, hexact.mem_iff.mp hx, hperm.trans (hexact.cons x)⟩

/-- Accounts 6 and 8 with a million units each. -/
def fundedSixEight : SortedMap Address Account :=
  ((∅ : SortedMap Address Account).insert 6
    { nonce := 0, balance := 1000000, codeHash := emptyCodeHash, lockBalance := 0,
      voteList := [], assetList := ∅, assetHash := none }).insert 8
    { nonce := 0, balance := 1000000, codeHash := emptyCodeHash, lockBalance := 0,
      voteList := [], assetList := ∅, assetHash := none }

/-- A pool environment in which a transaction's sender is its `V` field and its hash is its
sender and nonce, no account holds code, every check of a transaction alone passes, and the state
is `fundedSixEight`. -/
def openEnv : PoolEnv where
  codec := ⟨fun tx => .ok (Fin.ofNat _ tx.v), fun _ => .ok [], fun _ => .error "no asset information"⟩
  hashOf tx := Fin.ofNat _ (tx.v * 1000 + tx.accountNonce)
  contract _ := false
  txChecks _ := none
  currentState := StateDB.new fundedSixEight

/-- An empty pool with `DefaultTxPoolConfig` and its price limit. -/
def emptyPool : TxPool where
  config := ⟨10, 256, 20000, 1024, 10000⟩
  gasPrice := 1
  locals := []
  pending := ∅
  queue := ∅
  all := ∅
  priced := ⟨#[]⟩

/-- The pool after `add` of `transferFromSix` to the empty pool. -/
def afterAdd : TxPool :=
  match (add openEnv transferFromSix false).run emptyPool with
  | .ok (_, pool) => pool
  | .error _ => emptyPool

/-- From the empty pool: `add` one transaction, then `SetGasPrice` at its price, then `removeTx`
of it. The price index holds it twice after the second step, and still once after the third,
when nothing is pooled. -/
theorem setGasPrice_then_removeTx_leaves_stale :
    ((add openEnv transferFromSix false *> setGasPrice openEnv 1).run emptyPool).map
        (fun r => (pooled r.2, r.2.priced.txs)) =
      .ok ([transferFromSix], [transferFromSix, transferFromSix]) ∧
    ((add openEnv transferFromSix false *> setGasPrice openEnv 1 *>
        removeTx openEnv (openEnv.hashOf transferFromSix)).run emptyPool).map
        (fun r => (pooled r.2, r.2.priced.txs)) = .ok ([], [transferFromSix]) := by
  refine ⟨?_, by decide +kernel⟩
  have hok : ((add openEnv transferFromSix false).run emptyPool).toBool = true := by decide +kernel
  rcases hrun : (add openEnv transferFromSix false).run emptyPool with _ | ⟨r, pool⟩
  · rw [hrun] at hok
    cases hok
  have hafter : afterAdd = pool := by
    unfold afterAdd
    rw [hrun]
  have hpooled : pooled pool = [transferFromSix] := by
    rw [← hafter]
    decide +kernel
  -- the one pooled transaction pays the new price, so the index gets it a second time
  obtain ⟨pool', hset, hall, x, hx, hperm⟩ := setGasPrice_duplicates_priced openEnv pool 1
    (by rw [← hafter]; decide +kernel) (by rw [← hafter]; decide +kernel)
    (fun t ht => by
      rw [hpooled, List.mem_singleton] at ht
      rw [ht]
      exact ⟨_, rfl⟩)
    (by rw [hpooled]; exact List.cons_ne_nil _ _)
    (fun t ht => by
      rw [hpooled, List.mem_singleton] at ht
      rw [ht]
      exact le_refl 1)
  rw [hpooled, List.mem_singleton] at hx
  rw [hpooled, hx, show [transferFromSix, transferFromSix] = List.replicate 2 transferFromSix
    from rfl, List.perm_replicate] at hperm
  have hpooled' : pooled pool' = [transferFromSix] := by
    rw [pooled, hall, ← pooled, hpooled]
  simp only [seqRight_eq_bind, StateT.run_bind, hrun]
  show (Except.map _ ((setGasPrice openEnv 1).run pool)) = _
  rw [hset]
  simp only [Except.map, hpooled', hperm]
  rfl

/-- A remote transfer from 6 at price 5, and a remote transfer from 8 at price 1. -/
def dearTransfer : Transaction := { transferFromSix with price := 5 }
def cheapTransfer : Transaction := { txFrom 8 0 ActionTrans (some 7) 0 [] with price := 1 }

theorem setGasPrice_keeps_underpriced_remote :
    ((add openEnv dearTransfer false *> add openEnv cheapTransfer false *>
        setGasPrice openEnv 3).run emptyPool).map (fun r => (pooled r.2, r.2.locals)) =
      .ok ([dearTransfer, cheapTransfer], []) := by
  have hok : ((add openEnv dearTransfer false *> add openEnv cheapTransfer false).run
      emptyPool).toBool = true := by decide +kernel
  rcases hrun : (add openEnv dearTransfer false *> add openEnv cheapTransfer false).run emptyPool
    with _ | ⟨r, pool⟩
  · rw [hrun] at hok
    cases hok
  have hstate : ∀ {γ : Type} (f : TxPool → γ) (y : γ),
      ((add openEnv dearTransfer false *> add openEnv cheapTransfer false).run emptyPool).map
        (f ·.2) = .ok y → f pool = y := by
    intro γ f y h
    rw [hrun] at h
    exact Except.ok.inj h
  -- the dear transfer is popped first and pays the new price, so `Cap` stops at it
  have hfirst := hstate
    (fun p => (GoHeap.pop priceLess (TxTypeList.getTransactionList p.priced.items)).map Prod.fst)
    (some dearTransfer) (by decide +kernel)
  obtain ⟨⟨x, rest⟩, hpop, hx⟩ := Option.map_eq_some_iff.mp hfirst
  cases hx
  obtain ⟨pool', hset, hall, hlocals, -⟩ := setGasPrice_of_first_above openEnv hpop
    (hstate (fun p => p.all.contains (openEnv.hashOf dearTransfer)) _ (by decide +kernel))
    (show 3 ≤ 5 by decide) (show getTransactionType dearTransfer = .ok _ from rfl)
  have hpooled : pooled pool = [dearTransfer, cheapTransfer] := hstate pooled _ (by decide +kernel)
  have hlocal : pool.locals = [] := hstate (·.locals) _ (by decide +kernel)
  rw [seqRight_eq_bind, StateT.run_bind, hrun]
  show (Except.map _ ((setGasPrice openEnv 3).run pool)) = _
  rw [hset]
  simp only [Except.map, pooled, hall, hlocals]
  rw [← pooled, hpooled, hlocal]

end TxPool

/-! ## A pending transfer the miner and a replay disagree on -/

/-- Sender 16 with a million units and ten of asset 100; contract 32, whose code has hash 7, with
an entry of zero units of asset 100, as a transfer of nothing to it leaves. -/
def assetParentTrie : SortedMap Address Account :=
  ((∅ : SortedMap Address Account).insert 16
    { nonce := 0, balance := 1000000, codeHash := emptyCodeHash, lockBalance := 0, voteList := [],
      assetList := (∅ : Assets).insert 100 10, assetHash := none }).insert 32
    { nonce := 1, balance := 0, codeHash := 7, lockBalance := 0, voteList := [],
      assetList := (∅ : Assets).insert 100 0, assetHash := none }

/-- Code 7 sends one unit of asset 200, which its contract does not hold. -/
def assetRejecter : Vm.Interpreter where
  trace codeHash _ := if codeHash = 7 then [.transferAsset 9 200 1] else []
  keccak256 _ := emptyCodeHash
  createAddress _ _ := 0
  precompile _ _ := (0, .ok [])
  isByzantium := true

/-- The head, over `assetParentTrie` and no delegates. -/
def assetParent : Block := blockOver 0 assetParentTrie ∅ []

/-- Five units of asset 100 from 16 to contract 32, with 100000 gas at price 1. -/
def assetTransfer : Transaction := { txFrom 16 0 ActionTrans (some 32) 5 [] with asset := some 100 }

/-- The pool over the head's state, where a transaction to an account with code is a contract
transaction. -/
def assetEnv : PoolEnv :=
  { TxPool.openEnv with
    contract := fun tx => (isContractTransaction tx (StateDB.new assetParentTrie)).1
    currentState := StateDB.new assetParentTrie }

theorem produced_block_fails_replay :
    TxPool.validateTx assetEnv TxPool.emptyPool assetTransfer false = .ok none ∧
    (produceBlock { pairRuntime with vm := assetRejecter } (fun _ => none) ⟨assetParent⟩ assetParent
        (blockOver 1 ∅ ∅ []).header [assetTransfer]).bind
      (fun b => (processAndValidate { pairRuntime with vm := assetRejecter } ⟨assetParent⟩
        assetParent b).map fun r => (b.transactions, r)) =
      .ok ([], .error (.validate .invalidMerkleRoot)) := by
  decide +kernel

end AuroraChain.Core
