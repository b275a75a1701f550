import AuroraChain.Core.BlockChain
import AuroraChain.Lib.GoHeap
/-!
# Producing a block: `core/dpos_miner.go`

`produceBlockCallback` builds a header on the head, opens the parent's states and runs
`commitTransactions` over the pool's pending transactions. Each transaction goes through
`commitTransaction`: a snapshot of both databases, `ApplyTransaction`, and on an error a revert of
both. `Finalize` then pays the reward and puts both roots into the header, and `types.NewBlock`
adds the transaction and receipt roots.

The order is `types.TransactionsByPriceAndNonce` as `NewTransactionsByPriceAndNonce2` builds it:
the heads are the whole pending list, and each sender's transactions wait in a list by nonce, from
which `Shift` takes the next. The heads are a `container/heap` (`GoHeap`) ordered by price.

A failed transaction is erased only as far as the journals reach, and the undo of an asset
transfer drops an entry of zero units, so the state the miner seals can differ from the one a
replay of its block computes.
-/

namespace AuroraChain.Core

open State DelegateState Vm

/-- `TxByPrice.Less`: the higher price first. -/
def priceLess (a b : Transaction) : Bool := decide (b.price < a.price)

/-- `types.Sender` with its error ignored: the zero address. -/
def senderOf (codec : MessageCodec) (tx : Transaction) : Address :=
  match codec.sender tx with
  | .ok a => a
  | .error _ => 0

/-- `types.TransactionsByPriceAndNonce`: each sender's waiting transactions by nonce, and the heap
of heads by price. -/
structure TransactionsByPriceAndNonce where
  txs : SortedMap Address (List Transaction)
  heads : Array Transaction

namespace TransactionsByPriceAndNonce

variable (codec : MessageCodec)

/-- `NewTransactionsByPriceAndNonce2(signer, price)`. Go's `sort.Sort` is not stable, but the pool
holds one transaction per sender and nonce, so each sender's list does not depend on it. -/
def new2 (price : List Transaction) : TransactionsByPriceAndNonce :=
  let txByNonce := price.insertionSort fun a b => a.accountNonce ≤ b.accountNonce
  { txs := txByNonce.foldl (fun txs tx =>
      let acc := senderOf codec tx
      txs.insert acc ((txs.get? acc).getD [] ++ [tx])) ∅,
    heads := price.toArray }

def peek (t : TransactionsByPriceAndNonce) : Option Transaction := t.heads[0]?

/-- `Pop`: `heap.Pop` of the heads, which panics on an empty heap. -/
def pop (t : TransactionsByPriceAndNonce) : Except GoPanic TransactionsByPriceAndNonce :=
  match GoHeap.pop priceLess t.heads with
  | none => .error .sliceOutOfRange
  | some (_, heads) => .ok { t with heads }

/-- `Shift`: the best head is replaced by the next waiting transaction of its sender, if there is
one, else popped. -/
def shift (t : TransactionsByPriceAndNonce) : Except GoPanic TransactionsByPriceAndNonce :=
  match t.heads[0]? with
  | none => .error .sliceOutOfRange
  | some head =>
      let acc := senderOf codec head
      match t.txs.get? acc with
      | some (tx :: rest) =>
          .ok { txs := t.txs.insert acc rest,
                heads := GoHeap.fix priceLess (t.heads.setIfInBounds 0 tx) 0 }
      | _ => t.pop

/-- The transactions left: the heads and every waiting list. Each round of the miner's loop
removes at least one. -/
def count (t : TransactionsByPriceAndNonce) : Nat :=
  t.heads.size + (t.txs.entries.map fun e => e.2.length).sum

end TransactionsByPriceAndNonce

/-- `IsContractTransaction`. The code size is above zero exactly when the code is not empty. -/
def isContractTransaction (tx : Transaction) (db : StateDB) : Bool × StateDB :=
  if tx.action = ActionRegister ∨ tx.action = ActionAddVote ∨ tx.action = ActionSubVote ∨
      tx.action = ActionPublishAsset then (false, db)
  else if tx.action = ActionCreateContract ∨ tx.action = ActionCallContract then (true, db)
  else match tx.recipient with
    | none => (decide (0 < tx.payload.length), db)
    | some toAddr =>
        let (codeHash, db) := db.getCodeHash toAddr
        (!codeIsEmpty codeHash, db)

/-- The miner's `worker` environment. -/
structure Worker where
  state : StateDB
  delegatedb : DelegateDB
  header : Header
  tcount : Nat
  txs : List Transaction
  receipts : List Receipt

/-- `worker.commitTransaction`: the error, the gas used and the environment; the pool `gp` as
`ApplyTransaction` leaves it. The header's gas counter is the one `ApplyTransaction` adds to. -/
def commitTransaction (rt : Runtime) (bc : ChainView) (env : Worker) (tx : Transaction) (gp : Nat) :
    Except GoPanic (Option TxError × Nat × Worker × Nat) :=
  let (snap, state) := env.state.snapshot
  let (delegateSnap, delegatedb) := env.delegatedb.snapshot
  (applyTransaction rt bc gp state env.header tx env.header.gasUsed delegatedb
      (toUint64 env.header.time)).bind fun (applied, state, delegatedb) =>
    match applied.result with
    | .error e =>
        (state.revertToSnapshot snap).bind fun state =>
          (delegatedb.revertToSnapshot delegateSnap).map fun delegatedb =>
            (some e, 0, { env with state, delegatedb }, applied.gp)
    | .ok (receipt, gasUsed) =>
        .ok (none, gasUsed,
          { env with state, delegatedb, header := { env.header with gasUsed := receipt.cumulativeGasUsed },
                     txs := env.txs ++ [tx], receipts := env.receipts ++ [receipt] },
          applied.gp)

/-- Whether the miner drops the sender's remaining transactions after an error (`Pop`) rather than
moving to its next one (`Shift`). -/
def popsSender : Option TxError → Bool
  | some (.core .errGasLimitReached) => true
  | some (.core .errNonceTooHigh) => true
  | _ => false

/-- What one round of the miner's loop leaves: the loop stops, or goes on with the environment,
the gas pool, the contract gas budget and the transactions left. -/
inductive Round where
  | stop (env : Worker)
  | next (env : Worker) (gp contractGasLimit : Nat) (txs : TransactionsByPriceAndNonce)

/-- One round of `commitTransactions`. `cachedIsContract` is the flag the pool may have stored on
a transaction. -/
def commitRound (rt : Runtime) (cachedIsContract : Transaction → Option Bool) (bc : ChainView)
    (env : Worker) (gp contractGasLimit : Nat) (txs : TransactionsByPriceAndNonce) :
    Except GoPanic Round :=
  if gp < Params.TxGas then .ok (.stop env)
  else match txs.peek with
    | none => .ok (.stop env)
    | some tx =>
        let (isContract, state) := match cachedIsContract tx with
          | some b => (b, env.state)
          | none => isContractTransaction tx env.state
        let env := { env with state }
        if isContract ∧ contractGasLimit < tx.gasLimit then
          txs.pop.map (.next env gp contractGasLimit)
        else
          let env := { env with state := env.state.prepare (rt.hasher.txHash tx) 0 env.tcount }
          (commitTransaction rt bc env tx gp).bind fun (err, gasUsed, env, gp) =>
            -- `contractGasLimit -= gasUsed - 20000`, both in `uint64`
            let contractGasLimit := if isContract then
              toUint64 (contractGasLimit - toUint64 (gasUsed - 20000)) else contractGasLimit
            if popsSender err then txs.pop.map (.next env gp contractGasLimit)
            else
              let env := if err.isNone then { env with tcount := env.tcount + 1 } else env
              (txs.shift rt.messageCodec).map (.next env gp contractGasLimit)

/-- The loop of `commitTransactions`, with `fuel` rounds. -/
def commitTransactionsLoop (rt : Runtime) (cachedIsContract : Transaction → Option Bool)
    (bc : ChainView) : Nat → Worker → Nat → Nat → TransactionsByPriceAndNonce →
      Except GoPanic Worker
  | 0, env, _, _, _ => .ok env
  | fuel + 1, env, gp, contractGasLimit, txs =>
      (commitRound rt cachedIsContract bc env gp contractGasLimit txs).bind fun r =>
        match r with
        | .stop env => .ok env
        | .next env gp contractGasLimit txs =>
            commitTransactionsLoop rt cachedIsContract bc fuel env gp contractGasLimit txs

/-- `commitTransactions`: the gas pool starts at the header's gas limit and the contract budget at
`MaxContractGasLimit`. One round per transaction left is enough. -/
def commitTransactions (rt : Runtime) (cachedIsContract : Transaction → Option Bool)
    (bc : ChainView) (env : Worker) (txs : TransactionsByPriceAndNonce) : Except GoPanic Worker :=
  commitTransactionsLoop rt cachedIsContract bc (txs.count + 1) env env.header.gasLimit
    Params.MaxContractGasLimit txs

namespace TransactionsByPriceAndNonce

variable {codec : MessageCodec}

theorem pop_eq {t t' : TransactionsByPriceAndNonce} (h : t.pop = .ok t') :
    ∃ y heads, GoHeap.pop priceLess t.heads = some (y, heads) ∧ t' = { t with heads } := by
  unfold pop at h
  split at h
  · cases h
  · rename_i y heads hpop
    cases h
    exact ⟨y, heads, hpop, rfl⟩

/-- What `Shift` can do: put the first head's sender's next waiting transaction in its place, or,
when that sender has none, `Pop`. -/
theorem shift_cases {t t' : TransactionsByPriceAndNonce} (h : t.shift codec = .ok t') :
    ∃ head, t.heads[0]? = some head ∧
      ((∃ x rest, t.txs.get? (senderOf codec head) = some (x :: rest) ∧
          t' = { txs := t.txs.insert (senderOf codec head) rest,
                 heads := GoHeap.fix priceLess (t.heads.setIfInBounds 0 x) 0 }) ∨
        ((∀ x rest, t.txs.get? (senderOf codec head) ≠ some (x :: rest)) ∧ t.pop = .ok t')) := by
  unfold shift at h
  cases hhead : t.heads[0]? with
  | none =>
      rw [hhead] at h
      cases h
  | some head =>
      rw [hhead] at h
      refine ⟨head, rfl, ?_⟩
      dsimp only at h
      split at h
      · rename_i x rest hw
        cases h
        exact .inl ⟨x, rest, hw, rfl⟩
      · rename_i hw
        exact .inr ⟨hw, h⟩

theorem pop_count {t t' : TransactionsByPriceAndNonce} (h : t.pop = .ok t') :
    t'.count + 1 = t.count := by
  obtain ⟨x, heads, hp, rfl⟩ := pop_eq h
  have hsize := (GoHeap.pop_perm priceLess hp).size_eq
  rw [Array.size_push] at hsize
  simp only [count]
  omega

theorem shift_count {t t' : TransactionsByPriceAndNonce} (h : t.shift codec = .ok t') :
    t'.count < t.count := by
  obtain ⟨head, -, ⟨tx, rest, hw, rfl⟩ | ⟨-, hpop⟩⟩ := shift_cases h
  · have hsize : (GoHeap.fix priceLess (t.heads.setIfInBounds 0 tx) 0).size = t.heads.size := by
      rw [(GoHeap.fix_perm priceLess _ 0).size_eq, Array.size_setIfInBounds]
    have hsum := t.txs.sum_insert (fun l => l.length) (v := rest) hw
    simp only [List.length_cons] at hsum
    simp only [count, hsize]
    omega
  · have := pop_count hpop
    omega

theorem pop_ok_of_peek {t : TransactionsByPriceAndNonce} {tx : Transaction}
    (h : t.peek = some tx) : ∃ t', t.pop = .ok t' := by
  have hsize : 0 < t.heads.size := by
    unfold peek at h
    by_contra hempty
    rw [Array.getElem?_eq_none (by omega)] at h
    cases h
  obtain ⟨⟨x, heads⟩, hpop⟩ := Option.isSome_iff_exists.mp (GoHeap.pop_isSome priceLess hsize)
  exact ⟨_, by rw [pop, hpop]⟩

theorem shift_ok_of_peek {t : TransactionsByPriceAndNonce} {tx : Transaction}
    (h : t.peek = some tx) : ∃ t', t.shift codec = .ok t' := by
  obtain ⟨tp, hpop⟩ := pop_ok_of_peek h
  unfold shift
  rw [show t.heads[0]? = some tx from h]
  dsimp only
  split
  · exact ⟨_, rfl⟩
  · exact ⟨tp, hpop⟩

end TransactionsByPriceAndNonce

theorem commitTransaction_txs {rt : Runtime} {bc : ChainView} {env env' : Worker}
    {tx : Transaction} {gp gp' gasUsed : Nat} {err : Option TxError}
    (h : commitTransaction rt bc env tx gp = .ok (err, gasUsed, env', gp')) :
    env'.txs = env.txs ∨ env'.txs = env.txs ++ [tx] := by
  unfold commitTransaction at h
  obtain ⟨⟨applied, state, delegatedb⟩, -, happlied⟩ := except_bind_eq_ok h
  dsimp only at happlied
  split at happlied
  · -- a failed transaction is reverted and not kept
    obtain ⟨state', -, hrest⟩ := except_bind_eq_ok happlied
    obtain ⟨delegatedb', -, hdone⟩ := except_map_eq_ok hrest
    simp only [Prod.mk.injEq] at hdone
    rw [← hdone.2.2.1]
    exact .inl rfl
  · simp only [Except.ok.injEq, Prod.mk.injEq] at happlied
    rw [← happlied.2.2.1]
    exact .inr rfl

/-- What a round can do: stop with the environment as it was, or seal at most the head it peeked
at and go on with what `Pop` or `Shift` leaves. -/
theorem commitRound_cases {rt : Runtime} {cachedIsContract : Transaction → Option Bool}
    {bc : ChainView} {env : Worker} {gp c : Nat} {txs : TransactionsByPriceAndNonce} {r : Round}
    (h : commitRound rt cachedIsContract bc env gp c txs = .ok r) :
    r = .stop env ∨ ∃ tx env' gp' c' txs', r = .next env' gp' c' txs' ∧ txs.peek = some tx ∧
      (txs.pop = .ok txs' ∨ txs.shift rt.messageCodec = .ok txs') ∧
      (env'.txs = env.txs ∨ env'.txs = env.txs ++ [tx]) := by
  unfold commitRound at h
  split at h
  · cases h
    exact .inl rfl
  · split at h
    · cases h
      exact .inl rfl
    · rename_i tx hpeek
      split at h
      dsimp only at h
      split at h
      · -- a contract over the budget is skipped
        obtain ⟨txs', hpop, rfl⟩ := except_map_eq_ok h
        exact .inr ⟨tx, _, _, _, txs', rfl, hpeek, .inl hpop, .inl rfl⟩
      · obtain ⟨⟨err, gasUsed, env', gp'⟩, hcommit, hres⟩ := except_bind_eq_ok h
        have hkept := commitTransaction_txs hcommit
        dsimp only at hres
        split at hres
        · obtain ⟨txs', hpop, rfl⟩ := except_map_eq_ok hres
          exact .inr ⟨tx, _, _, _, txs', rfl, hpeek, .inl hpop, hkept⟩
        · obtain ⟨txs', hshift, rfl⟩ := except_map_eq_ok hres
          refine .inr ⟨tx, _, _, _, txs', rfl, hpeek, .inr hshift, ?_⟩
          split <;> exact hkept

theorem commitRound_count {rt : Runtime} {cachedIsContract : Transaction → Option Bool}
    {bc : ChainView} {env env' : Worker} {gp gp' c c' : Nat}
    {txs txs' : TransactionsByPriceAndNonce}
    (h : commitRound rt cachedIsContract bc env gp c txs = .ok (.next env' gp' c' txs')) :
    txs'.count < txs.count := by
  rcases commitRound_cases h with hstop | ⟨_, _, _, _, txs'', hnext, -, hleft, -⟩
  · cases hstop
  · obtain ⟨-, -, -, rfl⟩ := Round.next.inj hnext
    rcases hleft with hpop | hshift
    · have := TransactionsByPriceAndNonce.pop_count hpop
      omega
    · exact TransactionsByPriceAndNonce.shift_count hshift

theorem commitTransaction_error_gasUsed {rt : Runtime} {bc : ChainView} {env env' : Worker}
    {tx : Transaction} {gp gp' gasUsed : Nat} {e : TxError}
    (h : commitTransaction rt bc env tx gp = .ok (some e, gasUsed, env', gp')) : gasUsed = 0 := by
  unfold commitTransaction at h
  obtain ⟨⟨applied, state, delegatedb⟩, -, h⟩ := except_bind_eq_ok h
  dsimp only at h
  split at h
  · obtain ⟨state', -, h⟩ := except_bind_eq_ok h
    obtain ⟨delegatedb', -, h⟩ := except_map_eq_ok h
    cases h
    rfl
  · cases h

/-- A contract call within the budget whose commit fails: the round goes on and the budget grows
by 20000, since `gasUsed - 20000` wraps around in `uint64` when the commit reports no gas. -/
theorem commitRound_failed_call_budget {rt : Runtime} {cachedIsContract : Transaction → Option Bool}
    {bc : ChainView} {env env' : Worker} {gp gp' c gasUsed : Nat} {txs : TransactionsByPriceAndNonce}
    {tx : Transaction} {e : TxError}
    (hgp : Params.TxGas ≤ gp) (hpeek : txs.peek = some tx) (hcall : tx.action = ActionCallContract)
    (hcache : cachedIsContract tx ≠ some false) (hwithin : tx.gasLimit ≤ c) (hc : c + 20000 < 2 ^ 64)
    (hcommit : commitTransaction rt bc
      { env with state := env.state.prepare (rt.hasher.txHash tx) 0 env.tcount } tx gp =
        .ok (some e, gasUsed, env', gp')) :
    ∃ env'' txs', commitRound rt cachedIsContract bc env gp c txs =
      .ok (.next env'' gp' (c + 20000) txs') := by
  have hzero := commitTransaction_error_gasUsed hcommit
  subst hzero
  have hbudget : toUint64 ((c : Int) - (toUint64 (((0 : Nat) : Int) - 20000) : Nat)) = c + 20000 := by
    unfold toUint64
    omega
  obtain ⟨tp, hpop⟩ := TransactionsByPriceAndNonce.pop_ok_of_peek hpeek
  obtain ⟨ts, hshift⟩ : ∃ ts, txs.shift rt.messageCodec = .ok ts :=
    TransactionsByPriceAndNonce.shift_ok_of_peek hpeek
  unfold commitRound
  rw [if_neg (by omega), hpeek]
  dsimp only
  -- a call is a contract transaction whether or not the pool cached the flag
  have hcontract : isContractTransaction tx env.state = (true, env.state) := by
    simp [isContractTransaction, hcall, ActionCallContract, ActionRegister, ActionAddVote,
      ActionSubVote, ActionPublishAsset]
  have hflag : cachedIsContract tx = none ∨ cachedIsContract tx = some true := by
    rcases hcached : cachedIsContract tx with _ | _ | _
    · exact .inl rfl
    · exact absurd hcached hcache
    · exact .inr rfl
  rcases hflag with hflag | hflag
  all_goals
    simp only [hflag, hcontract, true_and, ↓reduceIte]
    rw [if_neg (by omega), hcommit]
    dsimp only [Except.bind]
    rw [hbudget]
    split
    · rw [hpop]
      exact ⟨_, _, rfl⟩
    · rw [hshift]
      exact ⟨_, _, rfl⟩

theorem commitTransactionsLoop_fuel (rt : Runtime) (cachedIsContract : Transaction → Option Bool)
    (bc : ChainView) :
    ∀ (fuel : Nat) (env : Worker) (gp c : Nat) (txs : TransactionsByPriceAndNonce),
      txs.count < fuel →
        commitTransactionsLoop rt cachedIsContract bc (fuel + 1) env gp c txs =
          commitTransactionsLoop rt cachedIsContract bc fuel env gp c txs := by
  intro fuel
  induction fuel with
  | zero => intro env gp c txs h; omega
  | succ fuel ih =>
      intro env gp c txs hcount
      conv_lhs => rw [commitTransactionsLoop]
      conv_rhs => rw [commitTransactionsLoop]
      -- both sides run the same round; the transactions left then fit in `fuel`
      cases hround : commitRound rt cachedIsContract bc env gp c txs with
      | error p => rfl
      | ok r =>
          cases r with
          | stop env' => rfl
          | next env' gp' c' txs' =>
              have hless := commitRound_count hround
              exact ih env' gp' c' txs' (by omega)

/-- Go's loop runs until no transaction is left or the pool is spent; more fuel than
`commitTransactions` gives changes nothing, so the fuel is not a bound of the model. -/
theorem commitTransactions_more_fuel (rt : Runtime) (cachedIsContract : Transaction → Option Bool)
    (bc : ChainView) (env : Worker) (txs : TransactionsByPriceAndNonce) (k : Nat) :
    commitTransactionsLoop rt cachedIsContract bc (txs.count + 1 + k) env env.header.gasLimit
        Params.MaxContractGasLimit txs =
      commitTransactions rt cachedIsContract bc env txs := by
  induction k with
  | zero => rfl
  | succ k ih =>
      rw [← Nat.add_assoc, commitTransactionsLoop_fuel rt cachedIsContract bc _ _ _ _ _ (by omega),
        ih]

/-! ### The miner seals only pending transactions -/

namespace TransactionsByPriceAndNonce

variable {codec : MessageCodec}

/-- `x` is still in the pool: a head, or waiting in its sender's list. -/
def Mem (x : Transaction) (t : TransactionsByPriceAndNonce) : Prop :=
  x ∈ t.heads ∨ ∃ acc l, t.txs.get? acc = some l ∧ x ∈ l

theorem mem_of_pop {t t' : TransactionsByPriceAndNonce} (h : t.pop = .ok t') {x : Transaction}
    (hx : Mem x t') : Mem x t := by
  obtain ⟨y, heads, hp, rfl⟩ := pop_eq h
  rcases hx with hx | hx
  · exact .inl ((GoHeap.pop_perm priceLess hp).mem_iff.mp (Array.mem_push.mpr (.inl hx)))
  · exact .inr hx

theorem mem_of_shift {t t' : TransactionsByPriceAndNonce} (h : t.shift codec = .ok t')
    {x : Transaction} (hx : Mem x t') : Mem x t := by
  obtain ⟨head, -, ⟨tx, rest, hw, rfl⟩ | ⟨-, hpop⟩⟩ := shift_cases h
  · rcases hx with hx | ⟨acc, l, hl, hxl⟩
    · have hset := (GoHeap.fix_perm priceLess _ 0).mem_iff.mp hx
      rcases Array.mem_or_eq_of_mem_setIfInBounds hset with hold | rfl
      · exact .inl hold
      · exact .inr ⟨_, _, hw, List.mem_cons_self⟩
    · rw [SortedMap.get?_insert] at hl
      split at hl
      · cases hl
        exact .inr ⟨_, _, hw, List.mem_cons_of_mem _ hxl⟩
      · exact .inr ⟨acc, l, hl, hxl⟩
  · exact mem_of_pop hpop hx

/-- Each list of the map that `new2`'s filing loop builds holds what the map held under that key,
and transactions of the loop's list filed under their own sender. The induction is on the list. -/
theorem mem_foldl_file : ∀ (L : List Transaction) (m : SortedMap Address (List Transaction))
    (a : Address) (l : List Transaction),
    (L.foldl (fun txs tx => txs.insert (senderOf codec tx)
        ((txs.get? (senderOf codec tx)).getD [] ++ [tx])) m).get? a = some l →
    ∀ y ∈ l, (∃ l₀, m.get? a = some l₀ ∧ y ∈ l₀) ∨ (y ∈ L ∧ senderOf codec y = a) := by
  intro L
  induction L with
  | nil =>
      intro m a l hl y hy
      exact .inl ⟨l, hl, hy⟩
  | cons tx L ih =>
      intro m a l hl y hy
      rcases ih _ a l hl y hy with ⟨l₁, hl₁, hy₁⟩ | ⟨hyL, hsend⟩
      · rw [SortedMap.get?_insert] at hl₁
        split at hl₁
        · rename_i ha
          cases hl₁
          rcases List.mem_append.mp hy₁ with hy₁ | hy₁
          · cases hm : m.get? (senderOf codec tx) with
            | none =>
                rw [hm] at hy₁
                cases hy₁
            | some l₀ =>
                rw [hm, Option.getD_some] at hy₁
                exact .inl ⟨l₀, ha ▸ hm, hy₁⟩
          · rw [List.mem_singleton.mp hy₁]
            exact .inr ⟨List.mem_cons_self, ha.symm⟩
        · exact .inl ⟨l₁, hl₁, hy₁⟩
      · exact .inr ⟨List.mem_cons_of_mem _ hyL, hsend⟩

theorem mem_new2 {price : List Transaction} {x : Transaction} (hx : Mem x (new2 codec price)) :
    x ∈ price := by
  rcases hx with hx | ⟨acc, l, hl, hxl⟩
  · exact List.mem_toArray.mp hx
  · rcases mem_foldl_file _ ∅ acc l hl x hxl with ⟨l₀, h₀, -⟩ | ⟨hx, -⟩
    · rw [SortedMap.get?_empty] at h₀
      cases h₀
    · exact (List.perm_insertionSort _ price).mem_iff.mp hx

theorem mem_of_peek {t : TransactionsByPriceAndNonce} {tx : Transaction} (h : t.peek = some tx) :
    Mem tx t :=
  .inl (Array.mem_of_getElem? h)

end TransactionsByPriceAndNonce

/-- What `commitRound` hands back: the environment it stops or goes on with. -/
def Round.env : Round → Worker
  | .stop env => env
  | .next env _ _ _ => env

/-- A round keeps every sealed transaction and every transaction left within the block so far and
the pool it started from. -/
theorem commitRound_within {rt : Runtime} {cachedIsContract : Transaction → Option Bool}
    {bc : ChainView} {env : Worker} {gp c : Nat} {txs : TransactionsByPriceAndNonce} {r : Round}
    (h : commitRound rt cachedIsContract bc env gp c txs = .ok r) :
    (∀ x ∈ r.env.txs, x ∈ env.txs ∨ txs.Mem x) ∧
      ∀ env' gp' c' txs', r = .next env' gp' c' txs' → ∀ x, txs'.Mem x → txs.Mem x := by
  rcases commitRound_cases h with rfl | ⟨tx, env', gp', c', txs', rfl, hpeek, hleft, hkept⟩
  · exact ⟨fun x hx => .inl hx, fun _ _ _ _ heq => by cases heq⟩
  · refine ⟨fun x hx => ?_, fun env'' gp'' c'' txs'' heq x hx => ?_⟩
    · change x ∈ env'.txs at hx
      rcases hkept with hsame | happ
      · rw [hsame] at hx
        exact .inl hx
      · rw [happ, List.mem_append, List.mem_singleton] at hx
        rcases hx with hx | rfl
        · exact .inl hx
        · exact .inr (TransactionsByPriceAndNonce.mem_of_peek hpeek)
    · obtain ⟨-, -, -, rfl⟩ := Round.next.inj heq
      rcases hleft with hpop | hshift
      · exact TransactionsByPriceAndNonce.mem_of_pop hpop hx
      · exact TransactionsByPriceAndNonce.mem_of_shift hshift hx

theorem commitTransactionsLoop_within (rt : Runtime) (cachedIsContract : Transaction → Option Bool)
    (bc : ChainView) (P : Transaction → Prop) :
    ∀ (fuel : Nat) (env env' : Worker) (gp c : Nat) (txs : TransactionsByPriceAndNonce),
      commitTransactionsLoop rt cachedIsContract bc fuel env gp c txs = .ok env' →
      (∀ x ∈ env.txs, P x) → (∀ x, txs.Mem x → P x) → ∀ x ∈ env'.txs, P x := by
  intro fuel
  induction fuel with
  | zero =>
      intro env env' gp c txs h henv _
      cases h
      exact henv
  | succ fuel ih =>
      intro env env' gp c txs h henv htxs
      rw [commitTransactionsLoop] at h
      obtain ⟨r, hround, hr⟩ := except_bind_eq_ok h
      obtain ⟨hsealed, hleft⟩ := commitRound_within hround
      -- after the round, the block so far and the pool left are still within `P`
      have henv' : ∀ x ∈ r.env.txs, P x := by
        intro x hx
        rcases hsealed x hx with hx | hx
        · exact henv x hx
        · exact htxs x hx
      cases r with
      | stop e =>
          cases hr
          exact henv'
      | next e gp' c' txs' =>
          exact ih e env' gp' c' txs' hr henv' (fun x hx => htxs x (hleft e gp' c' txs' rfl x hx))

/-- `types.NewBlock`: the transaction and receipt roots, and the bloom only when there are
receipts. `DeriveSha` of an empty list is the `EmptyRootHash` Go writes for it. -/
def newBlock (hasher : Hasher) (header : Header) (txs : List Transaction) (receipts : List Receipt) :
    Block :=
  { header := { header with
      txHash := hasher.deriveShaTxs txs,
      receiptHash := hasher.deriveShaReceipts receipts,
      bloom := if receipts.isEmpty then header.bloom else hasher.createBloom receipts },
    transactions := txs, signature := [], rlpEncodeSigns := [] }

/-- The block `produceBlockCallback` seals with `header` on `parent`: `commitTransactions` on the
parent's states, then `Finalize`. Signing is left out. -/
def produceBlock (rt : Runtime) (cachedIsContract : Transaction → Option Bool) (bc : ChainView)
    (parent : Block) (header : Header) (pending : List Transaction) : Except GoPanic Block :=
  let env : Worker :=
    { state := StateDB.new parent.header.root, delegatedb := DelegateDB.new parent.header.delegateRoot,
      header, tcount := 0, txs := [], receipts := [] }
  (commitTransactions rt cachedIsContract bc env
      (TransactionsByPriceAndNonce.new2 rt.messageCodec pending)).bind fun env =>
    (finalize rt env.header env.state env.delegatedb).map fun (header, _, _) =>
      newBlock rt.hasher header env.txs env.receipts

/-- `CalcGasLimit(parent)` of `core/block_validator.go`, in `uint64`: the parent's limit moves by
its usage against two thirds of it, and is raised towards `TargetGasLimit` when it falls below. -/
def calcGasLimit (parent : Block) : Nat :=
  let contrib := toUint64 (parent.header.gasUsed + parent.header.gasUsed / 2) /
    Params.GasLimitBoundDivisor
  let decay := toUint64 ((parent.header.gasLimit / Params.GasLimitBoundDivisor : Nat) - 1 : Int)
  let limit := toUint64 ((parent.header.gasLimit : Int) - decay + contrib)
  let limit := if limit < Params.MinGasLimit then Params.MinGasLimit else limit
  if limit < Params.TargetGasLimit then
    let limit := toUint64 (parent.header.gasLimit + decay)
    if limit > Params.TargetGasLimit then Params.TargetGasLimit else limit
  else limit

/-- The gas limit `produceBlockCallback` writes into the header: `CalcGasLimit` of the head,
capped at `MaxGasLimit`. -/
def produceGasLimit (parent : Block) : Nat :=
  let gasLimit := calcGasLimit parent
  if gasLimit > Params.MaxGasLimit then Params.MaxGasLimit else gasLimit

section GasLimit

variable {parent : Block} (hmin : Params.MinGasLimit ≤ parent.header.gasLimit)
  (hmax : parent.header.gasLimit ≤ Params.MaxGasLimit)
  (hused : parent.header.gasUsed ≤ parent.header.gasLimit)
include hmin hmax hused

/-- For a parent between the two bounds nothing wraps: `CalcGasLimit` is the parent's limit less
the decay plus the usage's contribution, at least `MinGasLimit`, or else the parent's limit plus
the decay, at most `TargetGasLimit`. -/
theorem calcGasLimit_eq :
    calcGasLimit parent =
      let contrib := (parent.header.gasUsed + parent.header.gasUsed / 2) / 512
      let decay := parent.header.gasLimit / 512 - 1
      let limit := max (parent.header.gasLimit - decay + contrib) 200000000
      if limit < 250000000 then min (parent.header.gasLimit + decay) 250000000 else limit := by
  simp only [Params.MinGasLimit, Params.MaxGasLimit] at hmin hmax
  unfold calcGasLimit
  simp only [Params.GasLimitBoundDivisor, Params.MinGasLimit, Params.TargetGasLimit]
  -- every intermediate value is far below `2 ^ 64`
  simp (disch := omega) only [toUint64_of_lt]
  split_ifs <;> omega

/-- The limit the producer writes is at least `MinGasLimit`, at most `MaxGasLimit`, and less than
a 512th of the parent's limit away from it. -/
theorem produceGasLimit_bounds :
    Params.MinGasLimit ≤ produceGasLimit parent ∧ produceGasLimit parent ≤ Params.MaxGasLimit ∧
      ((parent.header.gasLimit : Int) - produceGasLimit parent).natAbs <
        parent.header.gasLimit / Params.GasLimitBoundDivisor := by
  have hcalc := calcGasLimit_eq hmin hmax hused
  simp only [Params.MinGasLimit, Params.MaxGasLimit] at hmin hmax
  unfold produceGasLimit
  simp only [hcalc, Params.MinGasLimit, Params.MaxGasLimit, Params.GasLimitBoundDivisor]
  split_ifs <;> omega

end GasLimit

theorem produceGasLimit_passes_verifyHeader (parent : Block)
    (hmin : Params.MinGasLimit ≤ parent.header.gasLimit)
    (hmax : parent.header.gasLimit ≤ Params.MaxGasLimit)
    (hused : parent.header.gasUsed ≤ parent.header.gasLimit) :
    Params.MinGasLimit ≤ produceGasLimit parent ∧
      ((parent.header.gasLimit : Int) - produceGasLimit parent).natAbs <
        parent.header.gasLimit / Params.GasLimitBoundDivisor ∧
      ∀ (now : Int) (header : Header), header.gasLimit = produceGasLimit parent →
        header.extra.length ≤ Params.MaximumExtraDataSize →
        (header.time : Int) ≤ now + Dpos.allowedFutureBlockTime → parent.header.time < header.time →
        header.gasUsed ≤ header.gasLimit → header.number = parent.header.number + 1 →
        Dpos.verifyHeader now header parent.header = .ok () := by
  obtain ⟨hlow, hhigh, hbound⟩ := produceGasLimit_bounds hmin hmax hused
  refine ⟨hlow, hbound, fun now header hgas hextra hfuture htime hgasUsed hnumber => ?_⟩
  have hcap : Params.MaxGasLimit < 2 ^ 62 := by decide
  rw [← hgas] at hlow hhigh hbound
  exact Dpos.verifyHeader_of_gasLimit hextra hfuture htime hgasUsed (by omega) (by omega) hlow
    hbound hnumber

theorem produceGasLimit_passes_verifyHeader_genesis :
    Params.MinGasLimit ≤ Params.TargetGasLimit ∧ Params.TargetGasLimit ≤ Params.MaxGasLimit ∧
      Params.MinGasLimit ≤ produceGasLimit ⟨Dpos.parentHeader, [], [], []⟩ ∧
      ((Params.TargetGasLimit : Int) - produceGasLimit ⟨Dpos.parentHeader, [], [], []⟩).natAbs <
        Params.TargetGasLimit / Params.GasLimitBoundDivisor ∧
      ∀ (now : Int) (header : Header), header.gasLimit = produceGasLimit ⟨Dpos.parentHeader, [], [], []⟩ →
        header.extra.length ≤ Params.MaximumExtraDataSize →
        (header.time : Int) ≤ now + Dpos.allowedFutureBlockTime → Dpos.parentHeader.time < header.time →
        header.gasUsed ≤ header.gasLimit → header.number = Dpos.parentHeader.number + 1 →
        Dpos.verifyHeader now header Dpos.parentHeader = .ok () :=
  ⟨by decide, by decide,
    produceGasLimit_passes_verifyHeader ⟨Dpos.parentHeader, [], [], []⟩ (by decide) (by decide)
      (by decide)⟩

/-- Delegate 6's account with one coin, below what a delegate must keep, and voter 16 with ten. -/
def delegateAndVoter : SortedMap Address Account :=
  ((∅ : SortedMap Address Account).insert 6
    { nonce := 0, balance := Params.Em, codeHash := emptyCodeHash, lockBalance := 0,
      voteList := [], assetList := ∅, assetHash := none }).insert 16
    { nonce := 0, balance := 10 * Params.Em, codeHash := emptyCodeHash, lockBalance := 0,
      voteList := [], assetList := ∅, assetHash := none }

/-- The delegates 5 and 6. -/
def delegatesFiveSix : SortedMap Address Delegate :=
  (delegateFive false).insert 6
    { root := ∅, vote := 0, nickname := "six", registerTime := 0, delete := false }

/-- The head the miner builds on. -/
def minerParent : Block := blockOver 0 delegateAndVoter delegatesFiveSix []

/-- A transfer of nothing from delegate 6, which leaves it below the delegate balance. -/
def transferFromSix : Transaction := txFrom 6 0 ActionTrans (some 7) 0 []

/-- The environment `produceBlock` opens on `minerParent` for its child. -/
def minerWorker : Worker :=
  { state := StateDB.new minerParent.header.root,
    delegatedb := DelegateDB.new minerParent.header.delegateRoot,
    header := (blockOver 1 ∅ ∅ []).header, tcount := 0, txs := [], receipts := [] }

/-- A contract call by voter 16 at nonce 5, while its account is at nonce 0. -/
def callAheadOfNonce : Transaction := txFrom 16 5 ActionCallContract (some 7) 0 []

theorem failed_call_raises_contract_budget :
    (commitRound pairRuntime (fun _ => none) ⟨minerParent⟩ minerWorker minerWorker.header.gasLimit
        Params.MaxContractGasLimit
        (TransactionsByPriceAndNonce.new2 pairRuntime.messageCodec [callAheadOfNonce])).map
      (fun r => match r with
        | .next _ _ contractGasLimit _ => some contractGasLimit
        | .stop _ => none) =
      .ok (some (Params.MaxContractGasLimit + 20000)) := by
  have hpeek : (TransactionsByPriceAndNonce.new2 pairRuntime.messageCodec [callAheadOfNonce]).peek =
      some callAheadOfNonce := by decide +kernel
  have hfails : (commitTransaction pairRuntime ⟨minerParent⟩
      { minerWorker with
        state := (minerWorker.state.prepare (pairRuntime.hasher.txHash callAheadOfNonce) 0
          minerWorker.tcount) }
      callAheadOfNonce minerWorker.header.gasLimit).map (·.1.isSome) = .ok true := by
    decide +kernel
  obtain ⟨⟨err, gasUsed, env', gp'⟩, hcommit, hsome⟩ := except_map_eq_ok hfails
  obtain ⟨e, rfl⟩ := Option.isSome_iff_exists.mp hsome
  obtain ⟨env'', txs', hround⟩ := @commitRound_failed_call_budget pairRuntime (fun _ => none)
    ⟨minerParent⟩ minerWorker env' minerWorker.header.gasLimit gp' Params.MaxContractGasLimit gasUsed
    _ callAheadOfNonce e (by decide) hpeek rfl (by simp) (by decide) (by decide) hcommit
  rw [hround]
  rfl

end AuroraChain.Core
