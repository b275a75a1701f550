import AuroraChain.Vm.Evm
import AuroraChain.Core.Types
import AuroraChain.State.Asset
import AuroraChain.State.Supply
/-!
# Applying a message: `core/state_transition.go`

`TransitionDb` buys the message's gas from the sender, pays the intrinsic gas, runs the action
(a register check, a vote, a publication, a creation or a call), refunds what is left and credits
the coinbase with the gas used. Gas counters are `uint64` in the code; the model reduces modulo
`2 ^ 64` where a counter can leave that range.

`maxElectDelegate`, the `core` package variable `NewTxPool` sets, is a field of the environment,
as is the delegate poll `NewEVMContext` loads for register and vote messages.
-/

namespace AuroraChain.Core

open State Vm

structure Message where
  fromAddr : Address
  toAddr : Option Address
  gasPrice : Nat
  gas : Nat
  value : Nat
  nonce : Nat
  checkNonce : Bool
  data : List UInt8
  action : Nat
  vote : List Vote
  asset : Option Address
  assetInfo : AssetInfo
  subAddress : String
  abi : String

/-- What `Transaction.AsMessage` uses from outside the repository: the signer's sender recovery
and `encoding/json` for the vote list and the asset information. -/
structure MessageCodec where
  sender : Transaction → Except String Address
  bytesToVote : List UInt8 → Except String (List Vote)
  bytesToAssetInfo : List UInt8 → Except String AssetInfo

def asMessage (codec : MessageCodec) (tx : Transaction) : Except String Message := do
  let vote ← if tx.action = ActionAddVote ∨ tx.action = ActionSubVote then
      codec.bytesToVote tx.vote else pure []
  let assetInfo ← if tx.assetInfo.length > 0 then codec.bytesToAssetInfo tx.assetInfo
    else pure AssetInfo.zero
  let sender ← codec.sender tx
  pure { fromAddr := sender, toAddr := tx.recipient, gasPrice := tx.price, gas := tx.gasLimit,
         value := tx.amount, nonce := tx.accountNonce, checkNonce := true, data := tx.payload,
         action := tx.action, vote, asset := tx.asset, assetInfo, subAddress := tx.subAddress,
         abi := tx.abi }

def maxUint64 : Nat := 2 ^ 64 - 1

def intrinsicGas (data : List UInt8) (action : Nat) : Except Error Nat :=
  let gas :=
    if action = ActionPublishAsset then Params.TxGasAssetPublish
    else if action = ActionCreateContract then Params.TxGasContractCreation
    else if action ≤ ActionCallContract then Params.TxGas
    else 0
  if data.length = 0 then .ok gas
  else
    let nz := data.countP (· ≠ 0)
    if (maxUint64 - gas) / Params.TxDataNonZeroGas < nz then .error .errOutOfGas
    else
      let gas := gas + nz * Params.TxDataNonZeroGas
      let z := data.length - nz
      if (maxUint64 - gas) / Params.TxDataZeroGas < z then .error .errOutOfGas
      else .ok (gas + z * Params.TxDataZeroGas)

def subGas (gp amount : Nat) : Except Error Nat :=
  if gp < amount then .error .errGasLimitReached else .ok (gp - amount)

/-- `GasPool.AddGas`, which panics rather than wrap. -/
def addGas (gp amount : Nat) : Except GoPanic Nat :=
  if gp > maxUint64 - amount then .error .gasPoolPushedAboveUint64 else .ok (gp + amount)

/-- The `vm.Context` and package state `TransitionDb` reads. -/
structure Env where
  coinbase : Address
  delegateList : DelegateList
  maxElectDelegate : Int
  growth : Growth

/-- `StateTransition`: the gas pool, the gas left, the gas bought and the state. -/
structure StateTransition where
  gp : Nat
  gas : Nat
  initialGas : Nat
  db : StateDB

/-- `st.from()`: the sender's account, created if missing. -/
def fromAccount (db : StateDB) (f : Address) : StateDB :=
  let (exist, db) := db.exist f
  if !exist then db.createAccount f else db

/-- `st.to()`: the recipient, created if missing; the zero address for a creation. -/
def toAccount (db : StateDB) (toAddr : Option Address) : Address × StateDB :=
  match toAddr with
  | none => (0, db)
  | some addr =>
      let (exist, db) := db.exist addr
      (addr, if !exist then db.createAccount addr else db)

def useGas (st : StateTransition) (amount : Nat) : Except Error StateTransition :=
  if st.gas < amount then .error .errOutOfGas else .ok { st with gas := st.gas - amount }

/-- `gasUsed`, in `uint64`: it wraps when the run returned more gas than was bought. -/
def gasUsed (st : StateTransition) : Nat := toUint64 ((st.initialGas : Int) - st.gas)

/-- `buyGas`. A failure carries the state `from()` left. -/
def buyGas (msg : Message) (st : StateTransition) : Except (Error × StateDB) StateTransition :=
  let db := fromAccount st.db msg.fromAddr
  let mgval := msg.gas * msg.gasPrice
  let (balance, db) := db.getBalance msg.fromAddr
  if balance < mgval then .error (.errInsufficientBalanceForGas, db)
  else match subGas st.gp msg.gas with
    | .error e => .error (e, db)
    | .ok gp =>
        .ok { gp, gas := st.gas + msg.gas, initialGas := msg.gas,
              db := db.subBalance msg.fromAddr mgval }

/-- `preCheck`. A failure carries the state `from()` left. -/
def preCheck (msg : Message) (st : StateTransition) : Except (Error × StateDB) StateTransition :=
  if msg.action > ActionCallContract then .error (.illegalAction msg.action, st.db)
  else
    let db := fromAccount st.db msg.fromAddr
    let (nonce, db) := db.getNonce msg.fromAddr
    if msg.checkNonce ∧ nonce < msg.nonce then .error (.errNonceTooHigh, db)
    else if msg.checkNonce ∧ nonce > msg.nonce then .error (.errNonceTooLow, db)
    else buyGas msg { st with db }

/-- `refundGas`: half the gas used at most, capped by the refund counter, goes back to the gas
left; the gas left is paid back to the sender and returned to the pool. -/
def refundGas (msg : Message) (st : StateTransition) : Except GoPanic StateTransition :=
  let refund := min (gasUsed st / 2) st.db.refund
  let gas : Nat := (st.gas + refund) % 2 ^ 64
  let db := fromAccount st.db msg.fromAddr
  let db := db.addBalance msg.fromAddr ((gas * msg.gasPrice : Nat) : Int)
  (addGas st.gp gas).map fun gp => { st with gas, db, gp }

/-- What `TransitionDb` returns besides the state: the return data, the gas used, whether the
run failed, and the error. -/
structure ExecutionResult where
  ret : List UInt8
  usedGas : Nat
  failed : Bool
  err : Option Error
  deriving DecidableEq, Repr

/-- An early return of `TransitionDb` with an error. -/
def failWith (failed : Bool) (e : Error) (st : StateTransition) :
    Except GoPanic (ExecutionResult × StateTransition) :=
  .ok (⟨[], 0, failed, some e⟩, st)

/-- An early return after the state is reverted to `snapshot`. -/
def revertAndFail (snapshot : Nat) (e : Error) (st : StateTransition) :
    Except GoPanic (ExecutionResult × StateTransition) :=
  (st.db.revertToSnapshot snapshot).bind fun db => failWith true e { st with db }

section

variable (vm : Interpreter) (codec : AssetCodec) (env : Env)

/-- The end of `TransitionDb` after the action: the refund, the coinbase's fee, and the result. -/
def settle (msg : Message) (ret : List UInt8) (vmerr : Option VmError) (st : StateTransition) :
    Except GoPanic (ExecutionResult × StateTransition) :=
  if vmerr = some .errInsufficientBalance then .ok (⟨[], 0, false, some .errInsufficientBalance⟩, st)
  else
    (refundGas msg st).map fun st =>
      let st := { st with db := st.db.addBalance env.coinbase (gasUsed st * msg.gasPrice) }
      (⟨ret, gasUsed st, vmerr.isSome, none⟩, st)

/-- `TransitionDb`. The outer `Except` is a panic. -/
def transitionDb (msg : Message) (st : StateTransition) :
    Except GoPanic (ExecutionResult × StateTransition) :=
  match preCheck msg st with
  | .error (e, db) => failWith false e { st with db }
  | .ok st =>
    let st := { st with db := fromAccount st.db msg.fromAddr }
    -- the error of `IntrinsicGas` is overwritten by that of `useGas`, which then charges nothing
    let gas := (intrinsicGas msg.data msg.action).toOption.getD 0
    match useGas st gas with
    | .error e => failWith false e st
    | .ok st =>
      let (snapshot, db) := st.db.snapshot
      let st := { st with db }
      let st := if msg.action ≠ ActionTrans ∧ msg.action ≠ ActionPublishAsset ∧
          msg.action ≠ ActionCreateContract ∧ msg.action ≠ ActionCallContract then
        let (nonce, db) := st.db.getNonce msg.fromAddr
        { st with db := db.setNonce msg.fromAddr (nonce + 1) }
      else st
      if msg.action = ActionRegister then
        let (ok, db) := Vm.canTransfer st.db msg.fromAddr none Params.TxGasAgentCreation
        let st := { st with db }
        if !ok then revertAndFail snapshot .errInsufficientBalance st
        else if env.delegateList.contains msg.fromAddr then
          revertAndFail snapshot (.alreadyRegistered msg.fromAddr) st
        else settle env msg [] none st
      else if msg.action = ActionAddVote ∨ msg.action = ActionSubVote then
        if msg.vote.length = 0 then revertAndFail snapshot .emptyVoteList st
        else
          (vote env.growth st.db msg.fromAddr msg.vote env.delegateList env.maxElectDelegate).bind
            fun (err, db) =>
              let st := { st with db }
              match err with
              | some e => revertAndFail snapshot e st
              | none => settle env msg [] none st
      else if msg.action = ActionCreateContract then
        if msg.data.length = 0 then failWith true .createContractWithoutData st
        else
          (execTop vm (.create msg.fromAddr msg.data st.gas msg.value msg.asset msg.abi) st.db).bind
            fun (out, db) => settle env msg out.ret out.err { st with gas := out.gas, db }
      else if msg.action = ActionPublishAsset then
        let db := fromAccount st.db msg.fromAddr
        match db.publishAsset codec msg.fromAddr msg.assetInfo with
        | (some e, db) => revertAndFail snapshot (.publishAsset e) { st with db }
        | (none, db) => settle env msg [] none { st with db }
      else
        let (nonce, db) := st.db.getNonce msg.fromAddr
        let db := db.setNonce msg.fromAddr (nonce + 1)
        let (toAddr, db) := toAccount db msg.toAddr
        (execTop vm (.call msg.fromAddr toAddr msg.data st.gas msg.value msg.asset) db).bind
          fun (out, db) => settle env msg out.ret out.err { st with gas := out.gas, db }

/-- `ApplyMessage`: `TransitionDb` on a fresh transition over the pool and the state. -/
def applyMessage (msg : Message) (gp : Nat) (db : StateDB) :
    Except GoPanic (ExecutionResult × StateTransition) :=
  transitionDb vm codec env msg ⟨gp, 0, 0, db⟩

end

/-- An EVM in which no code does anything. -/
def noCode : Interpreter :=
  ⟨fun _ _ => [], fun _ => emptyCodeHash, fun _ _ => 0, fun _ _ => (0, .ok []), true⟩

/-- Sender 16 with a million units, and contract 32 holding one unit, whose code has hash 7. -/
def stipendTrie : SortedMap Address Account :=
  ((∅ : SortedMap Address Account).insert 16
    { nonce := 0, balance := 1000000, codeHash := emptyCodeHash, lockBalance := 0, voteList := [],
      assetList := ∅, assetHash := none }).insert 32
    { nonce := 1, balance := 1, codeHash := 7, lockBalance := 0, voteList := [], assetList := ∅,
      assetHash := none }

/-- Code 7 repeats `k` times: seven one-gas pushes, then `CALLCODE` with gas 0 and value 1 to the
empty address 48; then it stops. -/
def stipendLoop (k : Nat) : Interpreter where
  trace codeHash _ := if codeHash = 7 then
      (List.replicate k [.step 7, .callCode 0 48 1 [] 0]).flatten ++ [.stop] else []
  keccak256 _ := emptyCodeHash
  createAddress _ _ := 0
  precompile _ _ := (0, .ok [])
  isByzantium := true

/-- A call of contract 32 from 16 with 100000 gas at price 1. -/
def callOfStipendLoop : Message :=
  { fromAddr := 16, toAddr := some 32, gasPrice := 1, gas := 100000, value := 0, nonce := 0,
    checkNonce := true, data := [], action := ActionCallContract, vote := [], asset := none,
    assetInfo := AssetInfo.zero, subAddress := "", abi := "" }

theorem stipend_calls_mint_coin :
    (applyMessage (stipendLoop 63) ⟨fun _ _ => 0, fun _ => 0⟩ ⟨64, ∅, 30, Growth.double⟩
        callOfStipendLoop Params.TargetGasLimit (StateDB.new stipendTrie)).map
      (fun r => (r.1.err, r.1.usedGas, r.2.db.totalCoin)) =
      .ok (none, 2 ^ 64 - 74, (StateDB.new stipendTrie).totalCoin + 2 ^ 64) := by
  decide +kernel

/-- An issuer at 16 with a million units of coin. -/
def issuerTrie : SortedMap Address Account :=
  (∅ : SortedMap Address Account).insert 16
    { nonce := 0, balance := 1000000, codeHash := emptyCodeHash, lockBalance := 0, voteList := [],
      assetList := ∅, assetHash := none }

/-- Asset ids `CreateAddress(a, n) = 100 + n`. -/
def countingIds : AssetCodec := ⟨fun _ n => Fin.ofNat _ (100 + n), fun _ => 0⟩

/-- The message from 16 with nonce `n` and action `action`, at price 1 with 200000 gas. -/
def issuerMessage (n action : Nat) (toAddr asset : Option Address) (value : Nat)
    (assetInfo : AssetInfo) : Message :=
  { fromAddr := 16, toAddr, gasPrice := 1, gas := 200000, value, nonce := n, checkNonce := true,
    data := [], action, vote := [], asset, assetInfo, subAddress := "", abi := "" }

/-- Publish 1000 of asset 100, send all of it to 102, then publish again: the second asset's id is
102, whose account `createObject` replaces. Each message's error and the supply of asset 100 after
it. -/
def publishSendPublish : Except GoPanic (List (Option Error × Int)) := do
  let vm := noCode
  let env : Env := ⟨64, ∅, 30, Growth.double⟩
  let (r1, st1) ← applyMessage vm countingIds env
    (issuerMessage 0 ActionPublishAsset none none 0 ⟨none, "Gold", "GLD", some 1000, ""⟩)
    Params.TargetGasLimit (StateDB.new issuerTrie)
  let (r2, st2) ← applyMessage vm countingIds env
    (issuerMessage 1 ActionTrans (some 102) (some 100) 1000 AssetInfo.zero) st1.gp st1.db
  let (r3, st3) ← applyMessage vm countingIds env
    (issuerMessage 2 ActionPublishAsset none none 0 ⟨none, "Silver", "SLV", some 5, ""⟩)
    st2.gp st2.db
  pure [(r1.err, st1.db.totalAsset 100), (r2.err, st2.db.totalAsset 100),
    (r3.err, st3.db.totalAsset 100)]

theorem publish_drops_held_asset :
    publishSendPublish = .ok [(none, 1000), (none, 1000), (none, 0)] := by
  decide

/-- Account 16 with a million units and the code of hash 7. `TransitionDb` does not ask that a
sender hold no code, and a genesis allocation can put code at any address. -/
def selfCreatorTrie : SortedMap Address Account :=
  (∅ : SortedMap Address Account).insert 16
    { nonce := 0, balance := 1000000, codeHash := 7, lockBalance := 0, voteList := [],
      assetList := ∅, assetHash := none }

/-- Code 7 creates a contract with empty code, then stops; a contract created with nonce `n`
goes to `1000 + n`. -/
def selfCreator : Interpreter where
  trace codeHash _ := if codeHash = 7 then [.create 0 [] 0, .stop] else []
  keccak256 _ := emptyCodeHash
  createAddress _ nonce := Fin.ofNat _ (1000 + nonce)
  precompile _ _ := (0, .ok [])
  isByzantium := true

/-- A contract call from 16 to itself with nonce 0, at price 1 with 100000 gas. -/
def selfCall : Message :=
  { fromAddr := 16, toAddr := some 16, gasPrice := 1, gas := 100000, value := 0, nonce := 0,
    checkNonce := true, data := [], action := ActionCallContract, vote := [], asset := none,
    assetInfo := AssetInfo.zero, subAddress := "", abi := "" }

theorem self_call_raises_nonce_twice :
    ((StateDB.new selfCreatorTrie).getNonce 16).1 = 0 ∧
      (applyMessage selfCreator ⟨fun _ _ => 0, fun _ => 0⟩ ⟨64, ∅, 30, Growth.double⟩ selfCall
          Params.TargetGasLimit (StateDB.new selfCreatorTrie)).map
        (fun r => (r.1.err, (r.2.db.getNonce 16).1)) = .ok (none, 2) := by
  decide

end AuroraChain.Core
