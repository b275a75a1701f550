import AuroraChain.Core.Vote
/-!
# Message calls, creations and the instructions that move value

`core/vm/evm.go` (`Call`, `CallCode`, `DelegateCall`, `StaticCall`, `Create`), the loop of
`Interpreter.Run`, and the gas functions and instructions of `gas_table.go` and `instructions.go`
that move coin or assets, create or destroy accounts, or pass gas between frames.

A contract's run is given by the parameter `trace`: for a code hash and an input, the instructions
the interpreter reaches, in order. An instruction that only computes is a `step` at its gas cost;
what decides the branches (stack, memory and storage) is not modelled, so a run is fixed by its
trace. The gas table is `GasTableFrontier`, the one `ChainConfig.GasTable` returns, under which a
call's gas is capped at all but a 64th of what is left (`callGas`).

In this table a value-bearing `CALL` or `CALLCODE` costs `Calls + CallValueTransferGas = 595` gas
and hands the callee a stipend of `CallStipend = 1000` on top of the gas it forwards; a callee
without code returns all of it (`callCode_stipend_gain`).
-/

namespace AuroraChain.Vm

open State

/-- The errors of `core/vm` the model raises. -/
inductive VmError where
  | errOutOfGas
  | errCodeStoreOutOfGas
  | errDepth
  | errInsufficientBalance
  | errContractAddressCollision
  | errExecutionReverted
  | errMaxCodeSizeExceeded
  | errWriteProtection
  | errInvalidOpcode
  | precompileFailed
  deriving DecidableEq, Repr

/-- An instruction of a run as the model sees it. The call instructions carry the gas word from
the stack and the memory-expansion gas of their arguments. -/
inductive Instr where
  | step (cost : Nat)
  | call (gas : Nat) (toAddr : Address) (value : Nat) (input : List UInt8) (memoryGas : Nat)
  | callCode (gas : Nat) (toAddr : Address) (value : Nat) (input : List UInt8) (memoryGas : Nat)
  | delegateCall (gas : Nat) (toAddr : Address) (input : List UInt8) (memoryGas : Nat)
  | staticCall (gas : Nat) (toAddr : Address) (input : List UInt8) (memoryGas : Nat)
  | create (value : Nat) (code : List UInt8) (memoryGas : Nat)
  | selfdestruct (beneficiary : Address)
  | transferAsset (toAddr asset : Address) (value : Nat)
  | stop
  | ret (data : List UInt8) (memoryGas : Nat)
  | revert (data : List UInt8) (memoryGas : Nat)
  | invalid
  deriving DecidableEq, Repr

/-- What the EVM uses from outside the modelled Go code: the runs of contract code, Keccak,
`crypto.CreateAddress`, the precompiled contracts at addresses 1 to 8 (their required gas and
output), and whether the height is past Byzantium (which turns on write protection). -/
structure Interpreter where
  trace : Hash → List UInt8 → List Instr
  keccak256 : List UInt8 → Hash
  createAddress : Address → Nat → Address
  precompile : Address → List UInt8 → Nat × Except VmError (List UInt8)
  isByzantium : Bool

/-- A message call or creation the EVM runs. -/
inductive Request where
  | call (caller addr : Address) (input : List UInt8) (gas value : Nat) (asset : Option Address)
  | callCode (caller addr : Address) (input : List UInt8) (gas value : Nat)
  | delegateCall (caller addr : Address) (input : List UInt8) (gas : Nat)
  | staticCall (caller addr : Address) (input : List UInt8) (gas : Nat)
  | create (caller : Address) (code : List UInt8) (gas value : Nat) (asset : Option Address)
      (abi : String)
  deriving DecidableEq, Repr

/-- The gas a request comes with. -/
def Request.gas : Request → Nat
  | .call _ _ _ gas _ _ => gas
  | .callCode _ _ _ gas _ => gas
  | .delegateCall _ _ _ gas => gas
  | .staticCall _ _ _ gas => gas
  | .create _ _ gas _ _ _ => gas

/-- What a frame gives back: the return data, the created address (zero for a call), the gas
left and the error. -/
structure Outcome where
  ret : List UInt8
  address : Address
  gas : Nat
  err : Option VmError
  deriving DecidableEq, Repr

/-- The contract a frame runs: `contract.Address()`, the code's address and hash, whether the
code is empty, and the input. -/
structure Frame where
  self : Address
  codeAddr : Address
  codeHash : Hash
  codeEmpty : Bool
  input : List UInt8
  gas : Nat

/-- The keys of `PrecompiledContracts`. -/
def isPrecompiled (addr : Address) : Bool := 1 ≤ addr.val && addr.val ≤ 8

/-- `CanTransfer` as the EVM context holds it, with the asset pointer. -/
def canTransfer (db : StateDB) (addr : Address) (asset : Option Address) (amount : Int) :
    Bool × StateDB :=
  match asset with
  | none => Core.canTransfer db addr amount
  | some asset => Core.canTransferAsset db addr asset amount

/-- `callGas` under a table with `CreateBySuicide > 0`: the request, capped at all but a 64th of
the gas left after the base cost; the subtraction is in `uint64`. -/
def callGas (availableGas base callCost : Nat) : Nat :=
  let availableGas := toUint64 ((availableGas : Int) - base)
  let gas := availableGas - availableGas / 64
  if 2 ^ 64 ≤ callCost ∨ gas < callCost then gas else callCost

/-- A frame halting with its return data, gas left and error. -/
def halt (ret : List UInt8) (gas : Nat) (err : Option VmError) (db : StateDB) :
    Except GoPanic (Outcome × StateDB) :=
  .ok (⟨ret, 0, gas, err⟩, db)

section Run

variable (vm : Interpreter)

/-- The part of a call instruction after its gas is charged: the callee runs with the gas the
gas function set aside, plus the stipend for a value, and what it leaves comes back. -/
def callThen (sub : Request → Bool → StateDB → Except GoPanic (Outcome × StateDB))
    (req : Request) (readOnly : Bool) (gas : Nat) (db : StateDB)
    (next : Nat → StateDB → Except GoPanic (Outcome × StateDB)) :
    Except GoPanic (Outcome × StateDB) :=
  (sub req readOnly db).bind fun (out, db) => next (gas + out.gas) db

/-- The loop of `Interpreter.Run` over a trace, for the contract at `self`; `sub` runs nested
requests one level deeper. Running off the end of the code is `STOP`. A failing gas function
(an overflow) and a failed `UseGas` both end the run with `ErrOutOfGas`. -/
def runTrace (sub : Request → Bool → StateDB → Except GoPanic (Outcome × StateDB))
    (self : Address) (readOnly : Bool) : List Instr → Nat → StateDB →
      Except GoPanic (Outcome × StateDB)
  | [], gas, db => halt [] gas none db
  | .step cost :: rest, gas, db =>
      if gas < cost then halt [] gas (some .errOutOfGas) db
      else runTrace sub self readOnly rest (gas - cost) db
  | .call reqGas toAddr value input memoryGas :: rest, gas, db =>
      if vm.isByzantium && readOnly && value ≠ 0 then halt [] gas (some .errWriteProtection) db
      else
        -- `gasCall`
        let (exist, db) := db.exist toAddr
        let base := Params.Calls + (if exist then 0 else Params.CallNewAccountGas) +
          (if value ≠ 0 then Params.CallValueTransferGas else 0) + memoryGas
        let callGasTemp := callGas gas base reqGas
        if 2 ^ 64 ≤ base ∨ 2 ^ 64 ≤ base + callGasTemp ∨ gas < base + callGasTemp then
          halt [] gas (some .errOutOfGas) db
        else
          -- `opCall`
          let subGas := if value ≠ 0 then callGasTemp + Params.CallStipend else callGasTemp
          callThen sub (.call self toAddr input subGas value none) readOnly
            (gas - (base + callGasTemp)) db (runTrace sub self readOnly rest)
  | .callCode reqGas toAddr value input memoryGas :: rest, gas, db =>
      let base := Params.Calls + (if value ≠ 0 then Params.CallValueTransferGas else 0) + memoryGas
      let callGasTemp := callGas gas base reqGas
      if 2 ^ 64 ≤ base ∨ 2 ^ 64 ≤ base + callGasTemp ∨ gas < base + callGasTemp then
        halt [] gas (some .errOutOfGas) db
      else
        let subGas := if value ≠ 0 then callGasTemp + Params.CallStipend else callGasTemp
        callThen sub (.callCode self toAddr input subGas value) readOnly
          (gas - (base + callGasTemp)) db (runTrace sub self readOnly rest)
  | .delegateCall reqGas toAddr input memoryGas :: rest, gas, db =>
      let base := memoryGas + Params.Calls
      let callGasTemp := callGas gas base reqGas
      if 2 ^ 64 ≤ base ∨ 2 ^ 64 ≤ base + callGasTemp ∨ gas < base + callGasTemp then
        halt [] gas (some .errOutOfGas) db
      else
        callThen sub (.delegateCall self toAddr input callGasTemp) readOnly
          (gas - (base + callGasTemp)) db (runTrace sub self readOnly rest)
  | .staticCall reqGas toAddr input memoryGas :: rest, gas, db =>
      let base := memoryGas + Params.Calls
      let callGasTemp := callGas gas base reqGas
      if 2 ^ 64 ≤ base ∨ 2 ^ 64 ≤ base + callGasTemp ∨ gas < base + callGasTemp then
        halt [] gas (some .errOutOfGas) db
      else
        callThen sub (.staticCall self toAddr input callGasTemp) readOnly
          (gas - (base + callGasTemp)) db (runTrace sub self readOnly rest)
  | .create value code memoryGas :: rest, gas, db =>
      if vm.isByzantium && readOnly then halt [] gas (some .errWriteProtection) db
      else if 2 ^ 64 ≤ memoryGas + Params.CreateGas ∨ gas < memoryGas + Params.CreateGas then
        halt [] gas (some .errOutOfGas) db
      else
        -- `opCreate` hands the new contract all the gas that is left
        callThen sub (.create self code (gas - (memoryGas + Params.CreateGas)) value none "")
          readOnly 0 db (runTrace sub self readOnly rest)
  | .selfdestruct beneficiary :: _, gas, db =>
      if vm.isByzantium && readOnly then halt [] gas (some .errWriteProtection) db
      else
        -- `gasSuicide` costs nothing but adds the refund the first time
        let (suicided, db) := db.hasSuicided self
        let db := if suicided then db else db.addRefund Params.SuicideRefundGas
        -- `opSuicide`
        let (balance, db) := db.getBalance self
        let db := db.addBalance beneficiary balance
        let (_, db) := db.suicide self
        halt [] gas none db
  | .transferAsset toAddr asset value :: rest, gas, db =>
      -- `TRANSFERASSET` is not marked as writing, so a static call does not stop it
      if gas < Params.Calls + Params.TransferAssetGas then halt [] gas (some .errOutOfGas) db
      else
        let gas := gas - (Params.Calls + Params.TransferAssetGas)
        let value : Int := value % 2 ^ 256
        let (ok, db) := canTransfer db self (some asset) value
        if ok then runTrace sub self readOnly rest gas (Core.transfer db self toAddr (some asset) value)
        else halt [] gas (some .errInsufficientBalance) db
  | .stop :: _, gas, db => halt [] gas none db
  | .ret data memoryGas :: _, gas, db =>
      if gas < memoryGas then halt [] gas (some .errOutOfGas) db
      else halt data (gas - memoryGas) none db
  | .revert data memoryGas :: _, gas, db =>
      if gas < memoryGas then halt [] gas (some .errOutOfGas) db
      else halt data (gas - memoryGas) (some .errExecutionReverted) db
  | .invalid :: _, gas, db => halt [] gas (some .errInvalidOpcode) db

/-- `run`: a precompiled contract at the code address, else the interpreter, which returns at
once for empty code. -/
def run (interpret : Address → Bool → List Instr → Nat → StateDB →
      Except GoPanic (Outcome × StateDB))
    (f : Frame) (readOnly : Bool) (db : StateDB) : Except GoPanic (Outcome × StateDB) :=
  if isPrecompiled f.codeAddr then
    let (required, result) := vm.precompile f.codeAddr f.input
    if f.gas < required then halt [] f.gas (some .errOutOfGas) db
    else match result with
      | .ok out => halt out (f.gas - required) none db
      | .error e => halt [] (f.gas - required) (some e) db
  else if f.codeEmpty then halt [] f.gas none db
  else interpret f.self readOnly (vm.trace f.codeHash f.input) f.gas db

/-- The end of every call: on an error, back to the snapshot, and all the gas is gone unless the
code reverted. -/
def revertOnError (snapshot : Nat) (out : Outcome) (db : StateDB) :
    Except GoPanic (Outcome × StateDB) :=
  match out.err with
  | none => .ok (out, db)
  | some e =>
      (db.revertToSnapshot snapshot).map fun db =>
        ({ out with gas := if e = .errExecutionReverted then out.gas else 0 }, db)

/-- Code is empty when the account has the empty code hash or does not exist. -/
def codeIsEmpty (codeHash : Hash) : Bool := codeHash == emptyCodeHash || codeHash == 0

section Calls

variable (runF : Frame → Bool → StateDB → Except GoPanic (Outcome × StateDB))

/-- `EVM.Call` after its depth check. -/
def call (caller addr : Address) (input : List UInt8) (gas value : Nat) (asset : Option Address)
    (readOnly : Bool) (db : StateDB) : Except GoPanic (Outcome × StateDB) :=
  let (ok, db) := canTransfer db caller asset value
  if !ok then halt [] gas (some .errInsufficientBalance) db
  else
    let (snapshot, db) := db.snapshot
    let (exist, db) := db.exist addr
    if !exist && !isPrecompiled addr && value = 0 then halt [] gas none db
    else
      let db := if exist then db else db.createAccount addr
      let db := Core.transfer db caller addr asset value
      let (codeHash, db) := db.getCodeHash addr
      (runF ⟨addr, addr, codeHash, codeIsEmpty codeHash, input, gas⟩ readOnly db).bind
        fun (out, db) => revertOnError snapshot out db

/-- `EVM.CallCode` after its depth check: the code of `addr` runs as the caller, and the value
is checked but does not move. -/
def callCode (caller addr : Address) (input : List UInt8) (gas value : Nat) (readOnly : Bool)
    (db : StateDB) : Except GoPanic (Outcome × StateDB) :=
  let (ok, db) := canTransfer db caller none value
  if !ok then halt [] gas (some .errInsufficientBalance) db
  else
    let (snapshot, db) := db.snapshot
    let (codeHash, db) := db.getCodeHash addr
    (runF ⟨caller, addr, codeHash, codeIsEmpty codeHash, input, gas⟩ readOnly db).bind
      fun (out, db) => revertOnError snapshot out db

/-- `EVM.DelegateCall` after its depth check: the code of `addr` runs as the calling contract. -/
def delegateCall (caller addr : Address) (input : List UInt8) (gas : Nat) (readOnly : Bool)
    (db : StateDB) : Except GoPanic (Outcome × StateDB) :=
  let (snapshot, db) := db.snapshot
  let (codeHash, db) := db.getCodeHash addr
  (runF ⟨caller, addr, codeHash, codeIsEmpty codeHash, input, gas⟩ readOnly db).bind
    fun (out, db) => revertOnError snapshot out db

/-- `EVM.StaticCall` after its depth check: the callee and everything below it run read-only. -/
def staticCall (addr : Address) (input : List UInt8) (gas : Nat) (db : StateDB) :
    Except GoPanic (Outcome × StateDB) :=
  let (snapshot, db) := db.snapshot
  let (codeHash, db) := db.getCodeHash addr
  (runF ⟨addr, addr, codeHash, codeIsEmpty codeHash, input, gas⟩ true db).bind
    fun (out, db) => revertOnError snapshot out db

/-- `EVM.Create` after its depth check. The caller's nonce is raised before the collision check
and stays raised; `ErrCodeStoreOutOfGas` keeps the account without code. -/
def create (caller : Address) (code : List UInt8) (gas value : Nat) (asset : Option Address)
    (abi : String) (readOnly : Bool) (db : StateDB) : Except GoPanic (Outcome × StateDB) :=
  let (ok, db) := canTransfer db caller asset value
  if !ok then halt [] gas (some .errInsufficientBalance) db
  else
    let (nonce, db) := db.getNonce caller
    let db := db.setNonce caller (nonce + 1)
    let contractAddr := vm.createAddress caller nonce
    let (contractHash, db) := db.getCodeHash contractAddr
    let (contractNonce, db) := db.getNonce contractAddr
    if contractNonce ≠ 0 ∨ (contractHash ≠ 0 ∧ contractHash ≠ emptyCodeHash) then
      halt [] 0 (some .errContractAddressCollision) db
    else
      let (snapshot, db) := db.snapshot
      let db := db.createAccount contractAddr
      let db := Core.transfer db caller contractAddr asset value
      (runF ⟨contractAddr, contractAddr, vm.keccak256 code, code.isEmpty, [], gas⟩ readOnly db).bind
        fun (out, db) =>
          let maxCodeSizeExceeded := out.ret.length > Params.MaxCodeSize
          let createDataGas := out.ret.length * Params.CreateDataGas +
            abi.utf8ByteSize * Params.TxABIGas
          let (err, gas, db) : Option VmError × Nat × StateDB :=
            if out.err = none ∧ ¬maxCodeSizeExceeded then
              if createDataGas ≤ out.gas then
                (none, out.gas - createDataGas, db.setCode contractAddr (vm.keccak256 out.ret))
              else (some .errCodeStoreOutOfGas, out.gas, db)
            else (out.err, out.gas, db)
          let finish (err : Option VmError) (gas : Nat) (db : StateDB) :
              Except GoPanic (Outcome × StateDB) :=
            let err := if maxCodeSizeExceeded ∧ err = none then some .errMaxCodeSizeExceeded else err
            .ok (⟨out.ret, contractAddr, gas, err⟩, db)
          if maxCodeSizeExceeded ∨ (err.isSome ∧ err ≠ some .errCodeStoreOutOfGas) then
            match (db.revertToSnapshot snapshot) with
            | .error p => .error p
            | .ok db => finish err (if err = some .errExecutionReverted then gas else 0) db
          else finish err gas db

end Calls

/-- The EVM on a request, with `depth` levels of the call stack still free: a frame at
`CallCreateDepth + 1` fails with `ErrDepth` before it does anything. -/
def exec : Nat → Request → Bool → StateDB → Except GoPanic (Outcome × StateDB)
  | 0, req, _, db => halt [] req.gas (some .errDepth) db
  | depth + 1, req, readOnly, db =>
      let runF := run vm (runTrace vm (exec depth))
      match req with
      | .call caller addr input gas value asset => call runF caller addr input gas value asset readOnly db
      | .callCode caller addr input gas value => callCode runF caller addr input gas value readOnly db
      | .delegateCall caller addr input gas => delegateCall runF caller addr input gas readOnly db
      | .staticCall _ addr input gas => staticCall runF addr input gas db
      | .create caller code gas value asset abi => create vm runF caller code gas value asset abi readOnly db

/-- A top-level request, made at depth zero. -/
def execTop (req : Request) (db : StateDB) : Except GoPanic (Outcome × StateDB) :=
  exec vm (Params.CallCreateDepth + 1) req false db

/-- A value-bearing `CALLCODE` to an address with no account: the value is only checked, and the
callee, without code, halts at once with all the gas it was given. -/
theorem exec_callCode_codeless {depth : Nat} {caller addr : Address} {input : List UInt8}
    {gas value : Nat} {readOnly : Bool} {db : StateDB}
    (hne : addr ≠ caller) (hpre : isPrecompiled addr = false)
    (hlive : db.stateObjects.get? addr = none) (htrie : db.trie.get? addr = none)
    (hcan : (canTransfer db caller none value).1 = true) :
    ∃ db', exec vm (depth + 1) (.callCode caller addr input gas value) readOnly db =
      .ok (⟨[], 0, gas, none⟩, db') := by
  rcases hc : canTransfer db caller none value with ⟨ok, db₁⟩
  rw [hc] at hcan
  simp only at hcan
  subst hcan
  have hdb₁ : db₁.trie = db.trie ∧ db₁.stateObjects.get? addr = db.stateObjects.get? addr := by
    have h2 : (canTransfer db caller none value).2 = db₁ := by rw [hc]
    have ht := StateDB.getField_trie db caller (·.data.balance) 0
    have ho : (db.getField caller (·.data.balance) (0 : Int)).2.stateObjects.get? addr =
        db.stateObjects.get? addr := StateDB.getField_get?_ne hne
    simp only [canTransfer, Core.canTransfer, StateDB.getBalance] at h2
    rcases hb : db.getField caller (·.data.balance) 0 with ⟨balance, db₀⟩
    rw [hb] at h2 ht ho
    simp only at h2
    subst h2
    exact ⟨ht, ho⟩
  rcases hs : db₁.snapshot with ⟨snap, db₂⟩
  have hdb₂ : db₂.trie = db₁.trie ∧ db₂.stateObjects = db₁.stateObjects := by
    have h1 := StateDB.snapshot_trie db₁
    have h2 := StateDB.snapshot_stateObjects db₁
    rw [hs] at h1 h2
    exact ⟨h1, h2⟩
  rcases hg : db₂.getCodeHash addr with ⟨codeHash, db₃⟩
  have hcode : codeHash = 0 := by
    have h : (db₂.getCodeHash addr).1 = 0 :=
      StateDB.getCodeHash_absent (by rw [hdb₂.2, hdb₁.2, hlive]) (by rw [hdb₂.1, hdb₁.1, htrie])
    rw [hg] at h
    exact h
  subst hcode
  refine ⟨db₃, ?_⟩
  simp only [exec, callCode, hc, hs, hg, Bool.not_true, Bool.false_eq_true, if_false, run, hpre,
    codeIsEmpty, beq_self_eq_true, Bool.or_true, if_true, halt]
  rfl

/-- The stipend a `CALLCODE` with a value adds to the gas it forwards comes back from a callee
without code: the instruction leaves the caller `CallStipend` more gas than the
`Calls + CallValueTransferGas` and memory gas it charged away. -/
theorem callCode_stipend_gain {depth : Nat} {self addr : Address} {input : List UInt8}
    {reqGas value memoryGas gas : Nat} {readOnly : Bool} {rest : List Instr} {db : StateDB}
    (hvalue : value ≠ 0) (hne : addr ≠ self) (hpre : isPrecompiled addr = false)
    (hlive : db.stateObjects.get? addr = none) (htrie : db.trie.get? addr = none)
    (hcan : (canTransfer db self none value).1 = true) (hgas : gas < 2 ^ 64)
    (hfit : Params.Calls + Params.CallValueTransferGas + memoryGas +
      callGas gas (Params.Calls + Params.CallValueTransferGas + memoryGas) reqGas ≤ gas) :
    ∃ db', runTrace vm (exec vm (depth + 1)) self readOnly
        (.callCode reqGas addr value input memoryGas :: rest) gas db =
      runTrace vm (exec vm (depth + 1)) self readOnly rest
        (gas - (Params.Calls + Params.CallValueTransferGas + memoryGas) + Params.CallStipend) db' := by
  set base := Params.Calls + Params.CallValueTransferGas + memoryGas with hbase
  set callGasTemp := callGas gas base reqGas with hcallGas
  -- the callee gets what the gas function set aside plus the stipend, and returns all of it
  have hcallee : ∃ db', exec vm (depth + 1)
      (.callCode self addr input (callGasTemp + Params.CallStipend) value) readOnly db =
        .ok (⟨[], 0, callGasTemp + Params.CallStipend, none⟩, db') :=
    exec_callCode_codeless vm hne hpre hlive htrie hcan
  obtain ⟨db', hcallee⟩ := hcallee
  refine ⟨db', ?_⟩
  have hnoOverflow : ¬(2 ^ 64 ≤ base ∨ 2 ^ 64 ≤ base + callGasTemp ∨ gas < base + callGasTemp) := by
    omega
  simp only [runTrace, if_pos hvalue, ← hbase, ← hcallGas, if_neg hnoOverflow, callThen, hcallee]
  have hgasLeft : gas - (base + callGasTemp) + (callGasTemp + Params.CallStipend) =
      gas - base + Params.CallStipend := by
    omega
  rw [← hgasLeft]
  rfl

/-- `TRANSFERASSET` in a read-only frame: with the gas and the balance for it, the asset moves and
the run goes on, at any height. -/
theorem runTrace_transferAsset_readOnly
    {sub : Request → Bool → StateDB → Except GoPanic (Outcome × StateDB)} {self toAddr asset : Address}
    {value gas : Nat} {rest : List Instr} {db db' : StateDB}
    (hgas : Params.Calls + Params.TransferAssetGas ≤ gas)
    (hcan : canTransfer db self (some asset) (value % 2 ^ 256 : Int) = (true, db')) :
    runTrace vm sub self true (.transferAsset toAddr asset value :: rest) gas db =
      runTrace vm sub self true rest (gas - (Params.Calls + Params.TransferAssetGas))
        (Core.transfer db' self toAddr (some asset) (value % 2 ^ 256)) := by
  rw [runTrace, if_neg (by omega)]
  dsimp only
  rw [hcan]
  rfl

end Run

/-- Sender 16 with a million units, and contract 32, whose code has hash 7, holding ten units of
asset 100. -/
def assetHolderTrie : SortedMap Address Account :=
  ((∅ : SortedMap Address Account).insert 16
    { nonce := 0, balance := 1000000, codeHash := emptyCodeHash, lockBalance := 0, voteList := [],
      assetList := ∅, assetHash := none }).insert 32
    { nonce := 1, balance := 0, codeHash := 7, lockBalance := 0, voteList := [],
      assetList := (∅ : Assets).insert 100 10, assetHash := none }

/-- Past Byzantium, code 7 sends five units of asset 100 to 16 with `TRANSFERASSET` and stops. -/
def sendingAsset : Interpreter where
  trace codeHash _ := if codeHash = 7 then [.transferAsset 16 100 5, .stop] else []
  keccak256 _ := emptyCodeHash
  createAddress _ _ := 0
  precompile _ _ := (0, .ok [])
  isByzantium := true

theorem callCode_stipend_gain_empty_callee :
    (1 : Nat) ≠ 0 ∧ (48 : Address) ≠ 16 ∧ isPrecompiled 48 = false ∧
      (StateDB.new assetHolderTrie).stateObjects.get? 48 = none ∧
      (StateDB.new assetHolderTrie).trie.get? 48 = none ∧
      (canTransfer (StateDB.new assetHolderTrie) 16 none 1).1 = true ∧ 100000 < 2 ^ 64 ∧
      Params.Calls + Params.CallValueTransferGas + 0 +
        callGas 100000 (Params.Calls + Params.CallValueTransferGas + 0) 0 ≤ 100000 ∧
      ∃ db', runTrace sendingAsset (exec sendingAsset (0 + 1)) 16 false [.callCode 0 48 1 [] 0]
          100000 (StateDB.new assetHolderTrie) =
        runTrace sendingAsset (exec sendingAsset (0 + 1)) 16 false []
          (100000 - (Params.Calls + Params.CallValueTransferGas + 0) + Params.CallStipend) db' :=
  ⟨by decide, by decide, by decide, by decide, by decide, by decide, by decide, by decide,
    callCode_stipend_gain sendingAsset (by decide) (by decide) (by decide) (by decide) (by decide)
      (by decide) (by decide) (by decide)⟩

theorem staticCall_moves_asset :
    ((StateDB.new assetHolderTrie).getAssetBalance 32 100).1 = 10 ∧
      (execTop sendingAsset (.staticCall 16 32 [] 100000) (StateDB.new assetHolderTrie)).map
          (fun r => (r.1.err, (r.2.getAssetBalance 32 100).1, (r.2.getAssetBalance 16 100).1)) =
        .ok (none, 5, 5) := by
  have hbefore : ((StateDB.new assetHolderTrie).getAssetBalance 32 100).1 = 10 := by decide
  have hframe : execTop sendingAsset (.staticCall 16 32 [] 100000) (StateDB.new assetHolderTrie) =
      (runTrace sendingAsset (exec sendingAsset Params.CallCreateDepth) 32 true
          [.transferAsset 16 100 5, .stop] 100000
          ((StateDB.new assetHolderTrie).snapshot.2.getCodeHash 32).2).bind
        fun (out, db) => revertOnError (StateDB.new assetHolderTrie).snapshot.1 out db := by
    rfl
  have hcan : canTransfer ((StateDB.new assetHolderTrie).snapshot.2.getCodeHash 32).2 32 (some 100)
      (5 % 2 ^ 256 : Int) = (true, (canTransfer ((StateDB.new assetHolderTrie).snapshot.2.getCodeHash
        32).2 32 (some 100) (5 % 2 ^ 256 : Int)).2) :=
    Prod.ext (by decide) rfl
  rw [hframe, runTrace_transferAsset_readOnly sendingAsset (by decide) hcan]
  refine ⟨hbefore, ?_⟩
  decide

end AuroraChain.Vm
