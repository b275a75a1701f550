import AuroraChain.Core.Transition
import AuroraChain.DelegateState.DelegateDB
/-!
# Processing a block: `core/state_processor.go`, `core/vote_util.go`, `core/block_validator.go`

A transaction is applied twice over: `ApplyMessage` runs it against the account state (for a vote,
`core.Vote` changes the voter's list and lock against the delegate poll of the chain's head), and
`voteChangeToDelegateState` then re-reads the transaction with `CountTrxVote` and changes the
delegate state with `voteCount`, against the delegate state of the block being built. After the
last transaction `Finalize` pays the block reward and computes both roots, which `ValidateState`
compares with the header.

`CountTrxVote` collects the net vote change per candidate in a Go map and walks it in the map's
order, which the runtime chooses afresh on every walk; the model takes the order as the parameter
`mapOrder`. The reward's float computation, the hashes and `CreateBloom` are parameters as well.
-/

namespace AuroraChain.Core

open State Vm DelegateState

/-- The actions of a `types.VoteCandidate` (`register = iota + 1`, ...). -/
def register : Nat := 1
def addVote : Nat := 2
def subVote : Nat := 3
def cancel : Nat := 4

/-- `types.VoteCandidate`; the address string is the lower-case hex of an address, which
`common.HexToAddress` reads back, so the model keeps the address. -/
structure VoteCandidate where
  address : Address
  vote : Nat
  nickname : String
  action : Nat
  deriving DecidableEq, Repr

/-- The hashes and the bloom the block code takes from `core/types`' encoders, and the float
`int64(500 * math.Pow(1.10, year))` of the reward. -/
structure Hasher where
  txHash : Transaction → Hash
  blockHash : Header → Hash
  deriveShaTxs : List Transaction → Hash
  deriveShaReceipts : List Receipt → Hash
  createBloom : List Receipt → Nat
  rewardOfYear : Int → Int

/-- Everything block processing uses from outside the modelled code. -/
structure Runtime where
  vm : Interpreter
  assetCodec : AssetCodec
  messageCodec : MessageCodec
  hasher : Hasher
  mapOrder : List (Address × Int) → List (Address × Int)
  growth : Growth
  maxElectDelegate : Int

/-- What processing reads of the local chain: its head block, whose delegate state
`GetDelegatePoll` opens (`BlockChain.DelegateState` is the state at `CurrentBlock()`). -/
structure ChainView where
  currentBlock : Block

/-- `BlockChain.GetDelegatePoll`: the head's delegates by address. -/
def getDelegatePoll (bc : ChainView) : DelegateList :=
  (DelegateDB.new bc.currentBlock.header.delegateRoot).getDelegates.foldl
    (fun m c => m.insert c.address c) ∅

/-- `NewEVMContext`, the part `TransitionDb` reads: the poll is loaded only for register and vote
messages. -/
def newEVMContext (rt : Runtime) (msg : Message) (header : Header) (bc : ChainView) : Env :=
  { coinbase := header.coinbase,
    delegateList := if msg.action = ActionRegister ∨ msg.action = ActionAddVote ∨
      msg.action = ActionSubVote then getDelegatePoll bc else ∅,
    maxElectDelegate := rt.maxElectDelegate, growth := rt.growth }

/-- The errors `ApplyTransaction` returns: a decoding error (the sender, the JSON vote list or
asset information) or one of `core`. -/
inductive TxError where
  | decode (message : String)
  | core (e : Error)
  deriving DecidableEq, Repr

/-- `string(tx.Nickname())`; the model keeps nicknames that are valid UTF-8. -/
def nicknameOf (tx : Transaction) : String := (String.fromUTF8? ⟨tx.nickname.toArray⟩).getD ""

/-- The loop of `CountTrxVote` over the decoded votes: `+1` per operation `0`, `-1` per `1`. A nil
candidate is dereferenced by `Hex()`. -/
def tallyVotes : List Vote → SortedMap Address Int → Except GoPanic (SortedMap Address Int)
  | [], m => .ok m
  | v :: rest, m =>
      match v.candidate with
      | none => .error .nilDereference
      | some c =>
          if v.operation = 0 then tallyVotes rest (m.insert c ((m.get? c).getD 0 + 1))
          else if v.operation = 1 then tallyVotes rest (m.insert c ((m.get? c).getD 0 - 1))
          else tallyVotes rest m

/-- `CountTrxVote`: a register candidate, the net vote change per candidate in the map's order,
and a cancel candidate when the sender is a delegate whose balance has fallen below
`TxGasAgentCreation`. -/
def countTrxVote (rt : Runtime) (fromAddr : Address) (tx : Transaction) (statedb : StateDB)
    (db : DelegateDB) :
    Except GoPanic (Except String (List VoteCandidate) × StateDB × DelegateDB) :=
  let start : Except GoPanic (Except String (List VoteCandidate × SortedMap Address Int)) :=
    if tx.action = ActionAddVote ∨ tx.action = ActionSubVote then
      match rt.messageCodec.bytesToVote tx.vote with
      | .error e => .ok (.error e)
      | .ok votes => (tallyVotes votes ∅).map fun m => .ok ([], m)
    else if tx.action = ActionRegister then
      .ok (.ok ([⟨fromAddr, 0, nicknameOf tx, register⟩], ∅))
    else .ok (.ok ([], ∅))
  start.map fun r => match r with
    | .error e => (.error e, statedb, db)
    | .ok (candidates, candidateVotes) =>
        let candidates := candidates ++ (rt.mapOrder candidateVotes.entries).map fun (a, vote) =>
          if vote < 0 then ⟨a, vote.natAbs, "", subVote⟩ else ⟨a, vote.natAbs, "", addVote⟩
        let (exist, db) := db.exist fromAddr
        if exist then
          let (balance, statedb) := statedb.getBalance fromAddr
          if balance < Params.TxGasAgentCreation then
            (.ok (candidates ++ [⟨fromAddr, 0, "", cancel⟩]), statedb, db)
          else (.ok candidates, statedb, db)
        else (.ok candidates, statedb, db)

/-- `voteCount`: one candidate's change to the delegate state, checked against it. -/
def voteCount (db : DelegateDB) (v : VoteCandidate) (blockTime : Nat) : Option Error × DelegateDB :=
  if v.action = register then
    let (exist, db) := db.exist v.address
    if exist then (some .errDuplicateRegisterAgent, db)
    else (none, (db.getOrNewStateObject v.address v.nickname blockTime).2)
  else if v.action = addVote then
    let (exist, db) := db.exist v.address
    if !exist then (some .errAddVote, db) else (none, db.addVote v.address (toInt64 v.vote))
  else if v.action = subVote then
    let (exist, db) := db.subExist v.address
    if !exist then (some .errSubVote, db)
    else
      let (vote, db) := db.getVote v.address
      let subVoteNumber := toInt64 v.vote
      if toInt64 vote < subVoteNumber then (some .errSubVoteNotEnough, db)
      else (none, db.subVote v.address subVoteNumber)
  else if v.action = cancel then
    let (exist, db) := db.exist v.address
    if !exist then (some .errCancelAgent, db) else (none, (db.suicide v.address).2)
  else (none, db)

/-- The loop of `voteChangeToDelegateState`: stop at the first failing candidate. The changes of
the candidates before it stay. -/
def voteCountAll (db : DelegateDB) (blockTime : Nat) : List VoteCandidate → Option Error × DelegateDB
  | [] => (none, db)
  | v :: rest =>
      match voteCount db v blockTime with
      | (some e, db) => (some e, db)
      | (none, db) => voteCountAll db blockTime rest

def voteChangeToDelegateState (rt : Runtime) (fromAddr : Address) (tx : Transaction)
    (statedb : StateDB) (db : DelegateDB) (blockTime : Nat) :
    Except GoPanic (Option TxError × StateDB × DelegateDB) :=
  (countTrxVote rt fromAddr tx statedb db).map fun (candidates, statedb, db) =>
    match candidates with
    | .error e => (some (.decode e), statedb, db)
    | .ok candidates =>
        let (err, db) := voteCountAll db blockTime candidates
        (err.map .core, statedb, db)

/-- What `ApplyTransaction` leaves besides the states: its receipt and gas, or its error; and the
gas pool, which `buyGas` has drawn from even when a later step fails. -/
structure Applied where
  result : Except TxError (Receipt × Nat)
  gp : Nat

/-- `ApplyTransaction`. On an error the states keep what was done before it; the miner reverts
them, `Process` drops them. -/
def applyTransaction (rt : Runtime) (bc : ChainView) (gp : Nat) (statedb : StateDB)
    (header : Header) (tx : Transaction) (usedGas : Nat) (db : DelegateDB) (blockTime : Nat) :
    Except GoPanic (Applied × StateDB × DelegateDB) :=
  match asMessage rt.messageCodec tx with
  | .error e => .ok (⟨.error (.decode e), gp⟩, statedb, db)
  | .ok msg =>
      let env := newEVMContext rt msg header bc
      (applyMessage rt.vm rt.assetCodec env msg gp statedb).bind fun (res, st) =>
        match res.err with
        | some e => .ok (⟨.error (.core e), st.gp⟩, st.db, db)
        | none =>
            (voteChangeToDelegateState rt msg.fromAddr tx st.db db blockTime).bind
              fun (err, statedb, db) =>
                match err with
                | some e => .ok (⟨.error e, st.gp⟩, statedb, db)
                | none =>
                    (statedb.finalise true).map fun statedb =>
                      let usedGas := (usedGas + res.usedGas) % 2 ^ 64
                      let receipt : Receipt :=
                        { failed := res.failed, cumulativeGasUsed := usedGas, action := tx.action,
                          txHash := rt.hasher.txHash tx, gasUsed := res.usedGas,
                          contractAddress :=
                            if msg.action = ActionCreateContract ∨ msg.action = ActionPublishAsset
                            then some (rt.vm.createAddress msg.fromAddr tx.accountNonce) else none,
                          logs := statedb.getLogs (rt.hasher.txHash tx) }
                      (⟨.ok (receipt, res.usedGas), st.gp⟩, statedb, db)

def AnnulBlockAmount : Int := 3153600

/-- `accumulateEmRewards`: `int64(500 * 1.10 ^ year)` coins to the coinbase. -/
def accumulateEmRewards (rt : Runtime) (statedb : StateDB) (header : Header) : StateDB :=
  let yearNumber := (header.number : Int).tdiv AnnulBlockAmount
  let reward := rt.hasher.rewardOfYear yearNumber * Params.Em
  statedb.addBalance header.coinbase reward

/-- `DacchainDpos.Finalize`: the reward, then both roots into the header. -/
def finalize (rt : Runtime) (header : Header) (statedb : StateDB) (db : DelegateDB) :
    Except GoPanic (Header × StateDB × DelegateDB) :=
  let statedb := accumulateEmRewards rt statedb header
  (statedb.intermediateRoot false).bind fun (root, statedb) =>
    db.intermediateRoot.map fun (delegateRoot, db) =>
      ({ header with root, delegateRoot }, statedb, db)

/-- The loop of `Process`: prepare both states for transaction `i`, apply it, stop at an error. -/
def processTxs (rt : Runtime) (bc : ChainView) (block : Block) (blockHash : Hash) :
    List Transaction → Nat → Nat → Nat → List Receipt → StateDB → DelegateDB →
      Except GoPanic (Except TxError (List Receipt × Nat) × StateDB × DelegateDB)
  | [], _, _, usedGas, receipts, statedb, db => .ok (.ok (receipts, usedGas), statedb, db)
  | tx :: rest, i, gp, usedGas, receipts, statedb, db =>
      let statedb := statedb.prepare (rt.hasher.txHash tx) blockHash i
      let db := db.prepare (rt.hasher.txHash tx) blockHash i
      (applyTransaction rt bc gp statedb block.header tx usedGas db block.header.time).bind
        fun (applied, statedb, db) =>
          match applied.result with
          | .error e => .ok (.error e, statedb, db)
          | .ok (receipt, _) =>
              processTxs rt bc block blockHash rest (i + 1) applied.gp receipt.cumulativeGasUsed
                (receipts ++ [receipt]) statedb db

/-- `StateProcessor.Process`: the receipts and the gas used; both states are left finalised by
`Finalize`. -/
def process (rt : Runtime) (bc : ChainView) (block : Block) (statedb : StateDB) (db : DelegateDB) :
    Except GoPanic (Except TxError (List Receipt × Nat) × StateDB × DelegateDB) :=
  (processTxs rt bc block (rt.hasher.blockHash block.header) block.transactions 0
      block.header.gasLimit 0 [] statedb db).bind fun (r, statedb, db) =>
    match r with
    | .error e => .ok (.error e, statedb, db)
    | .ok (receipts, usedGas) =>
        (finalize rt block.header statedb db).map fun (_, statedb, db) =>
          (.ok (receipts, usedGas), statedb, db)

/-- The errors of `ValidateState`, with the values they print. -/
inductive ValidateError where
  | invalidGasUsed (remote loc : Nat)
  | invalidBloom (remote loc : Nat)
  | invalidReceiptRoot (remote loc : Hash)
  | invalidMerkleRoot
  | invalidDelegateMerkleRoot
  deriving DecidableEq, Repr

def validateState (rt : Runtime) (block : Block) (statedb : StateDB) (receipts : List Receipt)
    (usedGas : Nat) (db : DelegateDB) : Except GoPanic (Except ValidateError Unit) :=
  let header := block.header
  if header.gasUsed ≠ usedGas then .ok (.error (.invalidGasUsed header.gasUsed usedGas))
  else if rt.hasher.createBloom receipts ≠ header.bloom then
    .ok (.error (.invalidBloom header.bloom (rt.hasher.createBloom receipts)))
  else if rt.hasher.deriveShaReceipts receipts ≠ header.receiptHash then
    .ok (.error (.invalidReceiptRoot header.receiptHash (rt.hasher.deriveShaReceipts receipts)))
  else
    (statedb.intermediateRoot false).bind fun (root, _) =>
      if header.root ≠ root then .ok (.error .invalidMerkleRoot)
      else db.intermediateRoot.map fun (delegateRoot, _) =>
        if header.delegateRoot ≠ delegateRoot then .error .invalidDelegateMerkleRoot else .ok ()

/-- The votes a fixture transaction carries, as byte pairs `(candidate, operation)`. -/
def votesOfPairs : List UInt8 → List Vote
  | c :: op :: rest => ⟨some (Fin.ofNat _ c.toNat), op.toNat⟩ :: votesOfPairs rest
  | _ => []

/-- A runtime for fixtures: a transaction's sender is its `v`, its votes are byte pairs, no code
does anything, hashes are zero, and the reward is the year-zero 500 coins. The Go map is walked
in ascending key order. -/
def pairRuntime : Runtime :=
  { vm := noCode, assetCodec := countingIds,
    messageCodec := ⟨fun tx => .ok (Fin.ofNat _ tx.v), fun b => .ok (votesOfPairs b),
      fun _ => .error "no asset information"⟩,
    hasher := ⟨fun _ => 0, fun _ => 0, fun _ => 0, fun _ => 0, fun _ => 0, fun _ => 500⟩,
    mapOrder := id, growth := Growth.double, maxElectDelegate := 30 }

/-- A transaction from `sender` with nonce `n`, price 1 and 100000 gas. -/
def txFrom (sender : Address) (n action : Nat) (recipient : Option Address) (amount : Nat)
    (vote : List UInt8) : Transaction :=
  { accountNonce := n, price := 1, gasLimit := 100000, recipient, amount, payload := [], action,
    vote, nickname := [], asset := none, assetInfo := [], subAddress := "", abi := "",
    v := sender.val, r := 0, s := 0 }

/-- The account trie with voter 16 holding ten coins. -/
def voterAt : SortedMap Address Account :=
  (∅ : SortedMap Address Account).insert 16
    { nonce := 0, balance := 10 * Params.Em, codeHash := emptyCodeHash, lockBalance := 0,
      voteList := [], assetList := ∅, assetHash := none }

/-- The delegate trie with delegate 5, cancelled or not. -/
def delegateFive (cancelled : Bool) : SortedMap Address Delegate :=
  (∅ : SortedMap Address Delegate).insert 5
    { root := ∅, vote := 0, nickname := "five", registerTime := 0, delete := cancelled }

/-- A block at `number` over the two tries. -/
def blockOver (number : Nat) (root : SortedMap Address Account)
    (delegateRoot : SortedMap Address Delegate) (txs : List Transaction) : Block :=
  { header := { parentHash := 0, coinbase := 7, root, txHash := 0, receiptHash := 0, bloom := 0,
                number, gasLimit := Params.TargetGasLimit, gasUsed := 0, time := 110,
                extra := [], agentName := [], delegateRoot, shuffleHash := 0,
                shuffleBlockNumber := 0 },
    transactions := txs, signature := [], rlpEncodeSigns := [] }

theorem process_outcome_follows_head :
    (process pairRuntime ⟨blockOver 0 voterAt (delegateFive false) []⟩
        (blockOver 1 ∅ ∅ [txFrom 16 0 ActionAddVote none 0 [5, 0]])
        (StateDB.new voterAt) (DelegateDB.new (delegateFive false))).map (fun r => r.1.map Prod.snd) =
      .ok (.ok 25000) ∧
    (process pairRuntime ⟨blockOver 0 voterAt (delegateFive true) []⟩
        (blockOver 1 ∅ ∅ [txFrom 16 0 ActionAddVote none 0 [5, 0]])
        (StateDB.new voterAt) (DelegateDB.new (delegateFive false))).map (fun r => r.1.map Prod.snd) =
      .ok (.error (.core .errVote)) := by
  decide

/-- Voter 16 sends five coins to the new account 9, which then votes for delegate 5. -/
def fundThenVote : List Transaction :=
  [txFrom 16 0 ActionTrans (some 9) (5 * Params.Em) [], txFrom 9 0 ActionAddVote none 0 [5, 0]]

theorem vote_from_funded_account_panics :
    (process pairRuntime ⟨blockOver 0 voterAt (delegateFive false) []⟩
        (blockOver 1 ∅ ∅ (fundThenVote.take 1)) (StateDB.new voterAt)
        (DelegateDB.new (delegateFive false))).map (fun r => r.1.map Prod.snd) =
      .ok (.ok 25000) ∧
    (process pairRuntime ⟨blockOver 0 voterAt (delegateFive false) []⟩ (blockOver 1 ∅ ∅ fundThenVote)
        (StateDB.new voterAt) (DelegateDB.new (delegateFive false))).map (fun r => r.1.map Prod.snd) =
      .error .nilDereference := by
  decide +kernel

end AuroraChain.Core
