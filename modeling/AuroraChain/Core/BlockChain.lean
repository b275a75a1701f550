import AuroraChain.Core.Processor
import AuroraChain.Dpos.Verify
import AuroraChain.Dpos.Shuffle
/-!
# Importing blocks: `BlockChain.insertChain`

The downloader and the fetcher hand peer blocks to `InsertChain`. For each block it takes the
engine's `VerifyHeaders` result, checks the body with `ValidateBody`, runs `Process` on the
parent's states, checks the roots with `ValidateState` and writes the block with
`WriteBlockAndState`, which makes it the head when its total difficulty wins. None of these reads
the block's producer signature or asks whether the coinbase held the slot of the block's time: the
producer rule of `VerifyHeaderAndSign` is checked by the gossip handlers only.

Every block has difficulty one, so a block's total difficulty is its parent's plus one. The
database is the list of written blocks with their total difficulties, and a block's states are the
tries its roots name. The canonical number index that `reorg` rewrites, receipts, logs and events
are left out. The headers are verified against the chain as it stands when the import starts, and
the random draw that splits a tie of total difficulty and number is the parameter `coin`.
-/

namespace AuroraChain.Core

open State DelegateState Dpos

/-- The part of `BlockChain` the import reads and writes: the written blocks with their total
difficulties (the latest first), the head, and the queue of future blocks. -/
structure BlockChain where
  blocks : List (Block × Nat)
  currentBlock : Block
  futureBlocks : List Block
  deriving DecidableEq

/-- The errors of `ValidateBody`, with those of the engine it shares a switch with. -/
inductive BlockError where
  | consensus (e : VerifyError)
  | knownBlock
  | txRootMismatch (derived header : Hash)
  deriving DecidableEq, Repr

/-- The errors `insertChain` returns. -/
inductive InsertError where
  | nonContiguous (index : Nat)
  | block (e : BlockError)
  | futureBlock (time max : Int)
  | process (e : TxError)
  | validate (e : ValidateError)
  | write (e : VerifyError)
  deriving DecidableEq, Repr

/-- The status `WriteBlockAndState` reports on success. -/
inductive WriteStatus where
  | canonStatTy
  | sideStatTy
  deriving DecidableEq, Repr

/-- `Process` and then `ValidateState` of `block` on its parent's states, with `bc` the head. -/
def processAndValidate (rt : Runtime) (bc : ChainView) (parent block : Block) :
    Except GoPanic (Except InsertError Unit) :=
  (process rt bc block (StateDB.new parent.header.root)
      (DelegateDB.new parent.header.delegateRoot)).bind fun (r, statedb, db) =>
    match r with
    | .error e => .ok (.error (.process e))
    | .ok (receipts, usedGas) =>
        (validateState rt block statedb receipts usedGas db).map fun v => v.mapError .validate

/-- `maxTimeFutureBlocks`, in seconds. -/
def maxTimeFutureBlocks : Int := 30

namespace BlockChain

variable (rt : Runtime)

def getBlock (bc : BlockChain) (hash : Hash) (number : Nat) : Option Block :=
  (bc.blocks.find? fun (b, _) => rt.hasher.blockHash b.header == hash && b.header.number == number).map
    Prod.fst

def getTd (bc : BlockChain) (hash : Hash) (number : Nat) : Option Nat :=
  (bc.blocks.find? fun (b, _) => rt.hasher.blockHash b.header == hash && b.header.number == number).map
    Prod.snd

/-- `HasBlockAndState(hash)`: a written block's state is always present. -/
def hasBlockAndState (bc : BlockChain) (hash : Hash) : Bool :=
  bc.blocks.any fun (b, _) => rt.hasher.blockHash b.header == hash

/-- The chain as the engine reads it. -/
def chainReader (bc : BlockChain) : ChainReader :=
  ⟨fun hash number => (bc.getBlock rt hash number).map (·.header)⟩

def validateBody (bc : BlockChain) (block : Block) : Except BlockError Unit :=
  if bc.hasBlockAndState rt (rt.hasher.blockHash block.header) then .error .knownBlock
  else if !bc.hasBlockAndState rt block.header.parentHash then .error (.consensus .unknownAncestor)
  else
    let hash := rt.hasher.deriveShaTxs block.transactions
    if hash ≠ block.header.txHash then .error (.txRootMismatch hash block.header.txHash) else .ok ()

/-- `WriteBlockAndState`: the block is written with the total difficulty one above its parent's,
and becomes the head when that beats the head's, or ties it at a lower number, or ties both and
the coin says so. The database writes are taken to succeed; a head without a total difficulty is
compared as nil, which panics. -/
def writeBlockAndState (coin : Bool) (bc : BlockChain) (block : Block) :
    Except GoPanic (Except VerifyError (WriteStatus × BlockChain)) :=
  match bc.getTd rt block.header.parentHash (toUint64 (toUint64 block.header.number - 1)) with
  | none => .ok (.error .unknownAncestor)
  | some ptd =>
      match bc.getTd rt (rt.hasher.blockHash bc.currentBlock.header) bc.currentBlock.header.number with
      | none => .error .nilDereference
      | some localTd =>
          let externTd := ptd + 1
          let reorg := decide (localTd < externTd) ||
            (externTd == localTd && (decide (block.header.number < bc.currentBlock.header.number) ||
              (block.header.number == bc.currentBlock.header.number && coin)))
          let futureBlocks := bc.futureBlocks.filter fun b =>
            rt.hasher.blockHash b.header != rt.hasher.blockHash block.header
          let blocks := (block, externTd) :: bc.blocks
          if reorg then .ok (.ok (.canonStatTy, { blocks, currentBlock := block, futureBlocks }))
          else .ok (.ok (.sideStatTy, { bc with blocks, futureBlocks }))

/-- One block of `insertChain`'s loop, the `i`-th, with its header verdict: an error that ends the
import, or the chain to go on with. `prev` is the block before in the batch, the parent the loop
takes for every block but the first. -/
def insertBlock (now : Int) (coin : Bool) (bc : BlockChain) (i : Nat) (prev : Option Block)
    (block : Block) (verified : Except BlockError Unit) :
    Except GoPanic (Except (Nat × InsertError) BlockChain) :=
  let err := match verified with
    | .ok () => bc.validateBody rt block
    | .error e => .error e
  match err with
  | .error .knownBlock => .ok (.ok bc)
  | .error (.consensus .futureBlock) =>
      let max := now + maxTimeFutureBlocks
      if max < block.header.time then .ok (.error (i, .futureBlock block.header.time max))
      else .ok (.ok { bc with futureBlocks := block :: bc.futureBlocks })
  | .error (.consensus .unknownAncestor) =>
      if bc.futureBlocks.any (rt.hasher.blockHash ·.header == block.header.parentHash) then
        .ok (.ok { bc with futureBlocks := block :: bc.futureBlocks })
      else .ok (.error (i, .block (.consensus .unknownAncestor)))
  | .error e => .ok (.error (i, .block e))
  | .ok () =>
      let parent := match prev with
        | none => bc.getBlock rt block.header.parentHash (toUint64 (toUint64 block.header.number - 1))
        | some p => some p
      match parent with
      | none => .error .nilDereference
      | some parent =>
          (processAndValidate rt ⟨bc.currentBlock⟩ parent block).bind fun r =>
            match r with
            | .error e => .ok (.error (i, e))
            | .ok () =>
                (bc.writeBlockAndState rt coin block).map fun w =>
                  match w with
                  | .error e => .error (i, .write e)
                  | .ok (_, bc) => .ok bc

/-- The loop of `insertChain` over the blocks and their header verdicts: it stops at the first
error with the chain as it was before that block. -/
def insertBlocks (now : Int) (coin : Nat → Bool) :
    List (Block × Except BlockError Unit) → Nat → Option Block → BlockChain →
      Except GoPanic (Option (Nat × InsertError) × BlockChain)
  | [], _, _, bc => .ok (none, bc)
  | (block, verified) :: rest, i, prev, bc =>
      (insertBlock rt now (coin i) bc i prev block verified).bind fun r =>
        match r with
        | .error e => .ok (some e, bc)
        | .ok bc => insertBlocks now coin rest (i + 1) (some block) bc

/-- The first index `i` at which a block does not follow the one before it by number and hash. -/
def firstBreak : Nat → List Block → Option Nat
  | i, prev :: block :: rest =>
      if block.header.number ≠ prev.header.number + 1 ∨
          block.header.parentHash ≠ rt.hasher.blockHash prev.header then some i
      else firstBreak (i + 1) (block :: rest)
  | _, _ => none

/-- `insertChain` at the local time `now`: `none` and the chain on success, else the index of the
failing block with its error, and the chain with the blocks written before it. -/
def insertChain (now : Int) (coin : Nat → Bool) (bc : BlockChain) (chain : List Block) :
    Except GoPanic (Option (Nat × InsertError) × BlockChain) :=
  match firstBreak rt 1 chain with
  | some i => .ok (some (0, .nonContiguous i), bc)
  | none =>
      let headers := chain.map (·.header)
      let results := (List.range chain.length).map fun index =>
        (verifyHeaders rt.hasher.blockHash (bc.chainReader rt) now headers index).mapError .consensus
      insertBlocks rt now coin (chain.zip results) 0 none bc

theorem writeBlockAndState_blocks {coin : Bool} {bc bc' : BlockChain} {block : Block}
    {status : WriteStatus}
    (h : bc.writeBlockAndState rt coin block = .ok (.ok (status, bc'))) :
    ∃ td, bc'.blocks = (block, td) :: bc.blocks := by
  unfold writeBlockAndState at h
  split at h
  · cases h
  · split at h
    · cases h
    · dsimp only at h
      split at h
      · simp only [Except.ok.injEq, Prod.mk.injEq] at h
        obtain ⟨-, rfl⟩ := h
        exact ⟨_, rfl⟩
      · simp only [Except.ok.injEq, Prod.mk.injEq] at h
        obtain ⟨-, rfl⟩ := h
        exact ⟨_, rfl⟩

/-- A step of the import writes nothing, or writes its block after `ValidateBody`, `Process` and
`ValidateState` passed on it. -/
theorem insertBlock_blocks {now : Int} {coin : Bool} {bc bc' : BlockChain} {i : Nat}
    {prev : Option Block} {block : Block} {verified : Except BlockError Unit}
    (h : insertBlock rt now coin bc i prev block verified = .ok (.ok bc')) :
    bc'.blocks = bc.blocks ∨
      (verified = .ok () ∧ bc.validateBody rt block = .ok () ∧
        ∃ parent td, processAndValidate rt ⟨bc.currentBlock⟩ parent block = .ok (.ok ()) ∧
          bc'.blocks = (block, td) :: bc.blocks) := by
  unfold insertBlock at h
  dsimp only at h
  split at h
  · -- a known block is skipped
    cases h
    exact .inl rfl
  · -- a future block is queued or refused
    split at h
    · cases h
    · cases h
      exact .inl rfl
  · -- an unknown ancestor is queued behind a queued parent or refused
    split at h
    · cases h
      exact .inl rfl
    · cases h
  · cases h
  · rename_i hok
    have hchecks : verified = .ok () ∧ bc.validateBody rt block = .ok () := by
      cases verified with
      | error e => cases hok
      | ok u => exact ⟨rfl, hok⟩
    split at h
    · cases h
    · rename_i parent _
      obtain ⟨r, hrun, hr⟩ := except_bind_eq_ok h
      split at hr
      · cases hr
      · obtain ⟨w, hwrite, hw⟩ := except_map_eq_ok hr
        split at hw
        · cases hw
        · cases hw
          obtain ⟨td, htd⟩ := writeBlockAndState_blocks rt hwrite
          exact .inr ⟨hchecks.1, hchecks.2, parent, td, hrun, htd⟩

theorem insertBlocks_written {now : Int} {coin : Nat → Bool} :
    ∀ (batch : List (Block × Except BlockError Unit)) (i : Nat) (prev : Option Block)
      (bc bc' : BlockChain) (r : Option (Nat × InsertError)),
      insertBlocks rt now coin batch i prev bc = .ok (r, bc') →
      ∀ e ∈ bc'.blocks, e ∈ bc.blocks ∨
        ((e.1, .ok ()) ∈ batch ∧ ∃ chain : BlockChain, chain.validateBody rt e.1 = .ok () ∧
          ∃ parent, processAndValidate rt ⟨chain.currentBlock⟩ parent e.1 = .ok (.ok ())) := by
  intro batch
  induction batch with
  | nil =>
      intro i prev bc bc' r h e he
      cases h
      exact .inl he
  | cons entry rest ih =>
      obtain ⟨block, verified⟩ := entry
      intro i prev bc bc' r h e he
      obtain ⟨res, hstep, hrest⟩ := except_bind_eq_ok h
      cases res with
      | error err =>
          cases hrest
          exact .inl he
      | ok bc₁ =>
          rcases ih (i + 1) (some block) bc₁ bc' r hrest e he with he₁ | ⟨hmem, hchecked⟩
          · rcases insertBlock_blocks rt hstep with hsame | ⟨hv, hbody, parent, td, hrun, hnew⟩
            · exact .inl (hsame ▸ he₁)
            · rw [hnew, List.mem_cons] at he₁
              rcases he₁ with rfl | hold
              · exact .inr ⟨by rw [← hv]; exact List.mem_cons_self, bc, hbody, parent, hrun⟩
              · exact .inl hold
          · exact .inr ⟨List.mem_cons_of_mem _ hmem, hchecked⟩

end BlockChain

/-- The fixture runtime with the block number as the block hash. -/
def numberedRuntime : Runtime :=
  { pairRuntime with hasher := { pairRuntime.hasher with blockHash := fun h => Fin.ofNat _ h.number } }

/-- The chain's first block: number 0 at time 100, no accounts, and the one delegate 5. -/
def genesisOfFive : Block :=
  let b := blockOver 0 ∅ (delegateFive false) []
  { b with header := { b.header with time := 100 } }

/-- A chain holding only `genesisOfFive`. -/
def chainOfFive : BlockChain := ⟨[(genesisOfFive, 1)], genesisOfFive, []⟩

/-- The account trie after the reward of 500 coins to coinbase 7 on the empty state. -/
def rewardedSeven : SortedMap Address Account :=
  (∅ : SortedMap Address Account).insert 7
    { nonce := 0, balance := 500 * Params.Em, codeHash := emptyCodeHash, lockBalance := 0,
      voteList := [], assetList := ∅, assetHash := none }

/-- An empty block on `genesisOfFive` produced by 7, with the roots its execution gives and no
signature. -/
def unscheduledBlock : Block := blockOver 1 rewardedSeven (delegateFive false) []

theorem insert_chain_accepts_unscheduled_producer :
    BlockChain.insertChain numberedRuntime 110 (fun _ => false) chainOfFive [unscheduledBlock] =
      .ok (none, ⟨[(unscheduledBlock, 2), (genesisOfFive, 1)], unscheduledBlock, []⟩) ∧
    ∀ b ∈ [unscheduledBlock, genesisOfFive], ∀ dels : List Candidate,
      (∀ d ∈ dels, d ∈ (DelegateDB.new b.header.delegateRoot).getDelegates) →
      ∀ sha256 beginTime maxElectDelegate blockInterval round,
        shuffleNewRound sha256 beginTime maxElectDelegate dels blockInterval = .ok round →
        ∀ del ∈ round, del.address ≠ unscheduledBlock.header.coinbase := by
  refine ⟨by decide, ?_⟩
  intro b hb dels hdels sha256 beginTime maxElectDelegate blockInterval round hround del hdel
  have hroot : b.header.delegateRoot = delegateFive false := by
    simp only [List.mem_cons, List.not_mem_nil, or_false] at hb
    rcases hb with rfl | rfl <;> rfl
  have hfive : (DelegateDB.new (delegateFive false)).getDelegates = [⟨5, 0, "five", 0⟩] := by
    decide
  obtain ⟨d, hd, haddr⟩ := shuffleNewRound_address_mem hround del hdel
  have hd5 := hdels d hd
  rw [hroot, hfive, List.mem_singleton] at hd5
  rw [haddr, hd5]
  decide

end AuroraChain.Core
