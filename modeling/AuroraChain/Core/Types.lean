import AuroraChain.State.Basic
import AuroraChain.DelegateState.Basic
/-!
# Headers, transactions, receipts and blocks

The types of `core/types` the processing and consensus code passes around. A header's `Root` and
`DelegateRoot` are the roots of the account and delegate tries; as in the databases, the model
takes a root to be the committed map itself, so two roots are equal exactly when the tries are.
The block's producer signature and the confirmation signatures travel outside the header, as in
the code (`Block.Signature`, `Block.RlpEncodeSigns`).
-/

namespace AuroraChain.Core

/-- `types.Header`. `Number`, `Time` and `ShuffleBlockNumber` are decoded big integers, never
negative. -/
structure Header where
  parentHash : Hash
  coinbase : Address
  root : SortedMap Address State.Account
  txHash : Hash
  receiptHash : Hash
  bloom : Nat
  number : Nat
  gasLimit : Nat
  gasUsed : Nat
  time : Nat
  extra : List UInt8
  agentName : List UInt8
  delegateRoot : SortedMap Address DelegateState.Delegate
  shuffleHash : Hash
  shuffleBlockNumber : Nat
  deriving DecidableEq

/-- The action of a transaction, `types.ActionTrans` to `types.ActionCallContract`. -/
def ActionTrans : Nat := 0
def ActionRegister : Nat := 1
def ActionAddVote : Nat := 2
def ActionSubVote : Nat := 3
def ActionPublishAsset : Nat := 4
def ActionCreateContract : Nat := 5
def ActionCallContract : Nat := 6

/-- `types.txdata`; the vote list and the asset information are the raw JSON bytes. -/
structure Transaction where
  accountNonce : Nat
  price : Nat
  gasLimit : Nat
  recipient : Option Address
  amount : Nat
  payload : List UInt8
  action : Nat
  vote : List UInt8
  nickname : List UInt8
  asset : Option Address
  assetInfo : List UInt8
  subAddress : String
  abi : String
  v : Nat
  r : Nat
  s : Nat
  deriving DecidableEq

/-- `types.Receipt` with the fields `ApplyTransaction` fills in. -/
structure Receipt where
  failed : Bool
  cumulativeGasUsed : Nat
  action : Nat
  txHash : Hash
  gasUsed : Nat
  contractAddress : Option Address
  logs : List Log
  deriving DecidableEq

/-- `types.Block`: header, transactions, and the signatures carried next to them. -/
structure Block where
  header : Header
  transactions : List Transaction
  signature : List UInt8
  rlpEncodeSigns : List UInt8
  deriving DecidableEq

/-- `types.ShuffleDel`: a delegate's slot in a round. -/
structure ShuffleDel where
  workTime : Nat
  address : Address
  vote : Nat
  nickname : String
  deriving DecidableEq, Repr

/-- `types.ShuffleList`, the schedule of a round. -/
structure ShuffleList where
  shuffleDels : List ShuffleDel
  deriving DecidableEq, Repr

/-- `types.VoteSign`, a confirmation signature of a block. -/
structure VoteSign where
  sign : List UInt8
  voteAction : Nat
  deriving DecidableEq, Repr

end AuroraChain.Core
