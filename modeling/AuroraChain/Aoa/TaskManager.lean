import AuroraChain.Dpos.Verify
import AuroraChain.Dpos.Shuffle
import AuroraChain.DelegateState.DelegateDB
/-!
# Re-scheduling after a failed verification

`aoa/dpos_taskManager.go` keeps the node's current round. When a gossiped block fails
verification against it, the handlers call `shuffleIfVerify`, which hands the block's own
`ShuffleBlockNumber` to `ShuffleWhenVerifyFail`: that function opens the delegate state of the
local block with that number, recomputes the round the block's time falls in from its top
delegates, installs it as the current round, and the handler verifies the block again against it.
Neither `verifyHeader` nor `ValidateState` looks at `ShuffleBlockNumber`, so which delegate set the
second verification uses is the sender's choice (`shuffle_block_number_picks_round`).

`CalShuffleTimeByHeaderTime` may loop without end, so the functions here return `none` when the
fuel runs out.
-/

namespace AuroraChain.Aoa

open AuroraChain.Core Dpos DelegateState

/-- The part of `DposTaskManager` the verification path reads and writes. -/
structure TaskManager where
  currentNewRound : ShuffleList
  currentNewRoundHash : Hash
  currentRoundBlockHeight : Nat
  deriving DecidableEq

/-- What `ShuffleWhenVerifyFail` reads of the node: its canonical blocks by number, its wallet
accounts, the package settings, SHA-256 and the RLP hash of a round, and the local time. Writing
the shuffle data to the database is taken to succeed. -/
structure Node where
  getBlockByNumber : Nat → Option Block
  isLocalAccount : Address → Bool
  initTaskBeginTime : Int
  maxElectDelegate : Nat
  blockInterval : Nat
  sha256 : List UInt8 → Digest
  shuffleListHash : ShuffleList → Hash
  now : Int
  fuel : Nat

/-- `checkLocalExistDelegateWhenShuffle`: the delegates, and whether one is a local account. -/
def checkLocalExistDelegateWhenShuffle (node : Node) (d : DelegateDB) : Bool × List Candidate :=
  let candidates := d.getDelegates
  (candidates.any fun v => node.isLocalAccount v.address, candidates)

/-- `ShuffleWhenVerifyFail(receiveBlockNumber, receiveBlockTime, shuffleBlockNumber)`: `none` when
the round search does not end within the fuel, else a panic, an error, or the task manager with
the recomputed round installed. Whether a local delegate is in the round only decides whether the
round is also handed to the producer loop, which the model leaves out. -/
def shuffleWhenVerifyFail (node : Node) (receiveBlockTime : Int) (shuffleBlockNumber : Nat) :
    Option (Except GoPanic (Except String TaskManager)) :=
  match node.getBlockByNumber (toUint64 shuffleBlockNumber) with
  | none => some (.ok (.error ("shuffleBlockNumber not exist shuffleBlockNumber:" ++
      toString (toUint64 shuffleBlockNumber))))
  | some shuffleBlock =>
      let delegateState := DelegateDB.new shuffleBlock.header.delegateRoot
      let candidates := (checkLocalExistDelegateWhenShuffle node delegateState).2
      if candidates.length = 0 then some (.ok (.error "delegate not exist"))
      else
        let topDelegates := if candidates.length > node.maxElectDelegate then
          candidates.take node.maxElectDelegate else candidates
        (calShuffleTimeByHeaderTime node.now node.fuel node.initTaskBeginTime receiveBlockTime
            node.blockInterval node.maxElectDelegate).map fun shuffleTime =>
          (shuffleNewRound node.sha256 shuffleTime node.maxElectDelegate topDelegates
              node.blockInterval).map fun shuffleNewRound =>
            let shuffleList : ShuffleList := ⟨shuffleNewRound⟩
            .ok { currentRoundBlockHeight := shuffleBlock.header.number,
                  currentNewRound := shuffleList,
                  currentNewRoundHash := node.shuffleListHash shuffleList }

/-- `shuffleIfVerify`: the error of `ShuffleWhenVerifyFail` is dropped, and the task manager is
then left as it was. -/
def shuffleIfVerify (node : Node) (tm : TaskManager) (block : Block) :
    Option (Except GoPanic TaskManager) :=
  (shuffleWhenVerifyFail node (toInt64 block.header.time) block.header.shuffleBlockNumber).map
    fun r => r.map fun r => match r with
      | .ok tm => tm
      | .error _ => tm

/-- The handlers' pattern: verify against the current round; on an error, `shuffleIfVerify` and
verify once more against the round now installed. -/
def verifyWithRetry (verify : ShuffleList → Except GoPanic (Except VerifyError Unit))
    (node : Node) (tm : TaskManager) (block : Block) :
    Option (Except GoPanic (Except VerifyError Unit × TaskManager)) :=
  match verify tm.currentNewRound with
  | .error p => some (.error p)
  | .ok (.ok ()) => some (.ok (.ok (), tm))
  | .ok (.error _) =>
      (shuffleIfVerify node tm block).map fun r =>
        r.bind fun tm => (verify tm.currentNewRound).map fun result => (result, tm)

/-- The fetcher's block validator of `handle.go`. -/
def fetcherValidator (c : Crypto) (blockHash : Header → Hash) (chain : ChainReader) (node : Node)
    (tm : TaskManager) (block : Block) :
    Option (Except GoPanic (Except VerifyError Unit × TaskManager)) :=
  verifyWithRetry (fun shuffle => verifyHeaderAndSign c blockHash chain node.now block shuffle
    node.blockInterval) node tm block

/-- The verification step of `dealNewBlockMsg`. -/
def newBlockVerify (c : Crypto) (blockHash : Header → Hash) (chain : ChainReader) (node : Node)
    (decodeVoteSigns : List UInt8 → Except String (List VoteSign)) (tm : TaskManager)
    (block : Block) : Option (Except GoPanic (Except VerifyError Unit × TaskManager)) :=
  verifyWithRetry (fun shuffle => verifyBlockGenerate c blockHash chain node.now decodeVoteSigns
    block shuffle node.blockInterval node.maxElectDelegate) node tm block

/-- A delegate trie holding the one delegate `a`, with one vote. -/
def soleDelegate (a : Address) : SortedMap Address Delegate :=
  (∅ : SortedMap Address Delegate).insert a
    { root := ∅, vote := 1, nickname := "", registerTime := 0, delete := false }

/-- A node whose canonical blocks 1 and 2 hold the delegate sets `{5}` and `{6}`, at time 110,
with rounds of one slot of ten seconds starting at 110. -/
def twoDelegateSetsNode : Node where
  getBlockByNumber n :=
    if n = 1 then some ⟨{ parentHeader with number := 1, delegateRoot := soleDelegate 5 }, [], [], []⟩
    else if n = 2 then some ⟨{ parentHeader with number := 2, delegateRoot := soleDelegate 6 }, [], [], []⟩
    else none
  isLocalAccount _ := false
  initTaskBeginTime := 110
  maxElectDelegate := 1
  blockInterval := 10
  sha256 _ := ⟨List.replicate 32 0, rfl⟩
  shuffleListHash _ := 0
  now := 110
  fuel := 0

/-- The same chain as the engine reads it: block 2, under the hash 1, is the head. -/
def headAtTwo : ChainReader :=
  ⟨fun hash number => if hash = 1 ∧ number = 2 then some { parentHeader with number := 2 } else none⟩

/-- Every well-formed signature recovers to a key whose address is 5. -/
def signedByFive : Crypto := ⟨fun _ _ => some [4], fun _ => some (0, 0), fun _ => 5⟩

/-- Block 3 by delegate 5 at time 110, naming block `n` as its shuffle block. -/
def blockNaming (n : Nat) : Block :=
  { header := { parentHeader with
      parentHash := 1, coinbase := 5, number := 3, time := 110, shuffleBlockNumber := n },
    transactions := [], signature := List.replicate 65 0, rlpEncodeSigns := [] }

/-- A task manager whose current round is empty, so that every block first fails. -/
def emptyRound : TaskManager := ⟨⟨[]⟩, 0, 0⟩

theorem shuffle_block_number_picks_round :
    fetcherValidator signedByFive (fun _ => 0) headAtTwo twoDelegateSetsNode emptyRound
        (blockNaming 1) = some (.ok (.ok (), ⟨⟨[⟨110, 5, 1, ""⟩]⟩, 0, 1⟩)) ∧
      fetcherValidator signedByFive (fun _ => 0) headAtTwo twoDelegateSetsNode emptyRound
        (blockNaming 2) = some (.ok (.error .coinbaseNotInShuffleList, ⟨⟨[⟨110, 6, 1, ""⟩]⟩, 0, 2⟩)) := by
  decide

end AuroraChain.Aoa
