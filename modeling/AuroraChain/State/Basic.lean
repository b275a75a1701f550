import AuroraChain.Common.Types
import AuroraChain.Lib.SortedMap
import AuroraChain.Lib.Journal
import AuroraChain.Lib.GoSlice
/-!
# Accounts, live state objects and the account state database

Package `core/state`: the account trie, the live `stateObject`s loaded from it, the dirty set,
the journal, and the chain's own account fields: a lock balance and a vote list next to the
balance, and an ordered list of asset balances.

As in the delegate database, objects are values written back into the live map. Two fields keep
Go's pointer behaviour because the code depends on it:

* the lock balance is a `*big.Int` that `newObject` does not initialise: an account created in
  memory has a nil lock balance (`none`) until its data is decoded from the trie, where a nil
  pointer was encoded as zero;
* the vote list is a slice, a header into a heap of backing arrays shared by the whole database
  (`heap`), so that writes through one header are seen through every header over the same array.

A decoded vote list gets a fresh array of the capacity `rlp.decodeSliceElems` grows it to.
-/

namespace AuroraChain.State

/-- `crypto.Keccak256(nil)`, the code hash of an account without code. -/
def emptyCodeHash : Hash := 0xc5d2460186f7233c927e7db2dcc703c0e500b653ca82273b7bfad8045d85a470

/-- `types.Assets`: asset balances, kept in ascending order of asset id. -/
abbrev Assets := SortedMap Address Int

namespace Assets

/-- `Assets.AddAsset`: add to an existing balance, or insert a new entry at its place. -/
def addAsset (as : Assets) (id : Address) (amount : Int) : Assets :=
  match as.get? id with
  | some balance => as.insert id (balance + amount)
  | none => as.insert id amount

/-- `Assets.SubAsset`: subtract from a balance that covers the amount, dropping an entry that
reaches zero; `false` and no change otherwise. -/
def subAsset (as : Assets) (id : Address) (amount : Int) : Bool × Assets :=
  match as.get? id with
  | some balance =>
      if amount ≤ balance then
        (true, if balance - amount = 0 then as.erase id else as.insert id (balance - amount))
      else (false, as)
  | none => (false, as)

def balanceOf (as : Assets) (id : Address) : Int := (as.get? id).getD 0

end Assets

/-- `state.Account` as the account trie holds it, decoded. -/
structure Account where
  nonce : Nat
  balance : Int
  codeHash : Hash
  lockBalance : Int
  voteList : List Address
  assetList : Assets
  assetHash : Option Hash
  deriving DecidableEq

/-- The `data` of a live object. -/
structure AccountData where
  nonce : Nat
  balance : Int
  codeHash : Hash
  lockBalance : Option Int
  voteList : Slice
  assetList : Assets
  assetHash : Option Hash
  deriving DecidableEq

/-- `state.stateObject`; `onDirty` is set while the dirty callback is still armed. -/
structure StateObject where
  address : Address
  data : AccountData
  suicided : Bool
  touched : Bool
  deleted : Bool
  onDirty : Bool
  deriving DecidableEq

/-- The undo entries of `core/state/journal.go` for the fields the model keeps. -/
inductive JournalEntry where
  | createObjectChange (account : Address)
  | resetObjectChange (prev : StateObject)
  | suicideChange (account : Address) (prev : Bool) (prevbalance : Int)
  | balanceChange (account : Address) (prev : Int)
  | lockBalanceChange (account : Address) (prev : Int)
  | voteListChange (account : Address) (prev : Slice)
  | nonceChange (account : Address) (prev : Nat)
  | codeChange (account : Address) (prevhash : Hash)
  | assetDataChange (account : Address)
  | refundChange (prev : Nat)
  | addLogChange (txhash : Hash)
  | touchChange (account : Address) (prev prevDirty : Bool)
  | assetBalanceChange (account : Address) (asset : Address) (amount : Int) (preOpIsAdd : Bool)

structure StateDB where
  trie : SortedMap Address Account
  stateObjects : SortedMap Address StateObject
  stateObjectsDirty : SortedMap Address Unit
  heap : Heap Address
  refund : Nat
  thash : Hash
  bhash : Hash
  txIndex : Nat
  logs : SortedMap Hash (List Log)
  logSize : Nat
  journal : Journal JournalEntry
  addresses_match : ∀ a obj, stateObjects.get? a = some obj → obj.address = a

/-- The capacity `rlp.decodeSliceElems` leaves a decoded list of `n` elements with: it grows the
slice to `max 4 (cap + cap / 2)` whenever the next index (the end marker's included) reaches the
capacity. An empty list is `MakeSlice(typ, 0, 0)`. -/
def decodeCap (n : Nat) : Nat :=
  if n = 0 then 0 else grow (n + 1) 0
where
  grow : Nat → Nat → Nat
  | 0, cap => cap
  | fuel + 1, cap => if n < cap then cap else grow fuel (max 4 (cap + cap / 2))

namespace StateDB

def markStateObjectDirty (s : StateDB) (addr : Address) : StateDB :=
  { s with stateObjectsDirty := s.stateObjectsDirty.insert addr () }

def setStateObject (s : StateDB) (obj : StateObject) : StateDB :=
  { s with
    stateObjects := s.stateObjects.insert obj.address obj
    addresses_match := by
      intro a o ho
      rw [SortedMap.get?_insert] at ho
      split_ifs at ho with ha
      · cases ho
        exact ha.symm
      · exact s.addresses_match a o ho }

/-- `delete(s.stateObjects, addr)` and `delete(s.stateObjectsDirty, addr)`. -/
def dropStateObject (s : StateDB) (addr : Address) : StateDB :=
  { s with
    stateObjects := s.stateObjects.erase addr
    stateObjectsDirty := s.stateObjectsDirty.erase addr
    addresses_match := by
      intro a o ho
      rw [SortedMap.get?_erase] at ho
      split_ifs at ho
      exact s.addresses_match a o ho }

/-- `s.journal = append(s.journal, e)`. -/
def appendJournal (s : StateDB) (e : JournalEntry) : StateDB :=
  { s with journal := s.journal.append e }

@[simp] theorem markStateObjectDirty_stateObjects (s : StateDB) (addr : Address) :
    (s.markStateObjectDirty addr).stateObjects = s.stateObjects := rfl

@[simp] theorem markStateObjectDirty_heap (s : StateDB) (addr : Address) :
    (s.markStateObjectDirty addr).heap = s.heap := rfl

@[simp] theorem markStateObjectDirty_journal (s : StateDB) (addr : Address) :
    (s.markStateObjectDirty addr).journal = s.journal := rfl

@[simp] theorem setStateObject_stateObjects (s : StateDB) (obj : StateObject) :
    (s.setStateObject obj).stateObjects = s.stateObjects.insert obj.address obj := rfl

@[simp] theorem setStateObject_heap (s : StateDB) (obj : StateObject) :
    (s.setStateObject obj).heap = s.heap := rfl

@[simp] theorem setStateObject_journal (s : StateDB) (obj : StateObject) :
    (s.setStateObject obj).journal = s.journal := rfl

@[simp] theorem appendJournal_stateObjects (s : StateDB) (e : JournalEntry) :
    (s.appendJournal e).stateObjects = s.stateObjects := rfl

@[simp] theorem appendJournal_heap (s : StateDB) (e : JournalEntry) :
    (s.appendJournal e).heap = s.heap := rfl

@[simp] theorem appendJournal_journal (s : StateDB) (e : JournalEntry) :
    (s.appendJournal e).journal = s.journal.append e := rfl

/-- Decoding an account from the trie: the vote list gets an array of its own. -/
def decodeAccount (s : StateDB) (acc : Account) : AccountData × StateDB :=
  let n := acc.voteList.length
  let cap := decodeCap n
  let (heap, arr) := s.heap.alloc (acc.voteList ++ List.replicate (cap - n) default)
  ({ nonce := acc.nonce, balance := acc.balance, codeHash := acc.codeHash,
     lockBalance := some acc.lockBalance, voteList := ⟨arr, 0, n, cap⟩,
     assetList := acc.assetList, assetHash := acc.assetHash },
   { s with heap })

/-- Encoding a live object's data for the trie: the elements its vote list shows, and a nil lock
balance as zero. -/
def encodeAccount (s : StateDB) (data : AccountData) : Account :=
  { nonce := data.nonce, balance := data.balance, codeHash := data.codeHash,
    lockBalance := data.lockBalance.getD 0, voteList := s.heap.read data.voteList,
    assetList := data.assetList, assetHash := data.assetHash }

/-- `newObject(s, addr, data, s.MarkStateObjectDirty)`, the callback armed. -/
def newObject (address : Address) (data : AccountData) : StateObject :=
  { address, data, suicided := false, touched := false, deleted := false, onDirty := true }

/-- The data `newObject` makes of `Account{}`: zero balance, the empty code hash, no assets, and
a nil lock balance and vote list. -/
def emptyAccountData : AccountData :=
  { nonce := 0, balance := 0, codeHash := emptyCodeHash, lockBalance := none, voteList := Slice.nil,
    assetList := ∅, assetHash := none }

end StateDB

namespace StateObject

/-- `empty`: no nonce, balance, code or assets (the lock balance and vote list are not looked at). -/
def empty (o : StateObject) : Bool :=
  o.data.nonce == 0 && o.data.balance == 0 && o.data.codeHash == emptyCodeHash &&
    o.data.assetList.entries.isEmpty

def tryMarkDirty (o : StateObject) (s : StateDB) : StateObject × StateDB :=
  if o.onDirty then ({ o with onDirty := false }, s.markStateObjectDirty o.address) else (o, s)

def touch (o : StateObject) (s : StateDB) : StateObject × StateDB :=
  let s := s.appendJournal (.touchChange o.address o.touched (!o.onDirty))
  let (o, s) := o.tryMarkDirty s
  ({ o with touched := true }, s)

def markSuicided (o : StateObject) (s : StateDB) : StateObject × StateDB :=
  { o with suicided := true }.tryMarkDirty s

/-- `setBalance`, unjournaled. -/
def setBalance (o : StateObject) (amount : Int) (s : StateDB) : StateObject × StateDB :=
  { o with data.balance := amount }.tryMarkDirty s

/-- `SetBalance`. -/
def setBalanceJournaled (o : StateObject) (amount : Int) (s : StateDB) : StateObject × StateDB :=
  o.setBalance amount (s.appendJournal (.balanceChange o.address o.data.balance))

/-- `AddBalance`: a zero amount only touches an empty account. -/
def addBalance (o : StateObject) (amount : Int) (s : StateDB) : StateObject × StateDB :=
  if amount = 0 then (if o.empty then o.touch s else (o, s))
  else o.setBalanceJournaled (o.data.balance + amount) s

def subBalance (o : StateObject) (amount : Int) (s : StateDB) : StateObject × StateDB :=
  if amount = 0 then (o, s) else o.setBalanceJournaled (o.data.balance - amount) s

/-- `setLockBalance`, unjournaled. -/
def setLockBalance (o : StateObject) (amount : Int) (s : StateDB) : StateObject × StateDB :=
  { o with data.lockBalance := some amount }.tryMarkDirty s

/-- `SetLockBalance`: journaling `new(big.Int).Set(LockBalance)` dereferences the old value. -/
def setLockBalanceJournaled (o : StateObject) (amount : Int) (s : StateDB) :
    Except GoPanic (StateObject × StateDB) :=
  match o.data.lockBalance with
  | none => .error .nilDereference
  | some prev => .ok (o.setLockBalance amount (s.appendJournal (.lockBalanceChange o.address prev)))

/-- `AddLockBalance`: `new(big.Int).Add(LockBalance, amount)` dereferences the old value. -/
def addLockBalance (o : StateObject) (amount : Int) (s : StateDB) :
    Except GoPanic (StateObject × StateDB) :=
  if amount = 0 then .ok (if o.empty then o.touch s else (o, s))
  else
    match o.data.lockBalance with
    | none => .error .nilDereference
    | some lock => o.setLockBalanceJournaled (lock + amount) s

/-- `setVoteList`, unjournaled. -/
def setVoteList (o : StateObject) (voteList : Slice) (s : StateDB) : StateObject × StateDB :=
  { o with data.voteList := voteList }.tryMarkDirty s

/-- `SetVoteList`: the journal keeps the old header, not the elements it shows. -/
def setVoteListJournaled (o : StateObject) (voteList : Slice) (s : StateDB) :
    StateObject × StateDB :=
  o.setVoteList voteList (s.appendJournal (.voteListChange o.address o.data.voteList))

/-- `setNonce`, unjournaled. -/
def setNonce (o : StateObject) (nonce : Nat) (s : StateDB) : StateObject × StateDB :=
  { o with data.nonce := nonce }.tryMarkDirty s

/-- `SetNonce`. -/
def setNonceJournaled (o : StateObject) (nonce : Nat) (s : StateDB) : StateObject × StateDB :=
  o.setNonce nonce (s.appendJournal (.nonceChange o.address o.data.nonce))

/-- `setCode`, unjournaled; the model keeps the code hash only. -/
def setCode (o : StateObject) (codeHash : Hash) (s : StateDB) : StateObject × StateDB :=
  { o with data.codeHash := codeHash }.tryMarkDirty s

/-- `SetCode`. -/
def setCodeJournaled (o : StateObject) (codeHash : Hash) (s : StateDB) : StateObject × StateDB :=
  o.setCode codeHash (s.appendJournal (.codeChange o.address o.data.codeHash))

/-- `SubAssetBalance`: journaled only when the subtraction happens. -/
def subAssetBalance (o : StateObject) (asset : Address) (amount : Int) (s : StateDB) :
    Bool × StateObject × StateDB :=
  let (ok, assets) := o.data.assetList.subAsset asset amount
  let o := { o with data.assetList := assets }
  if ok then
    let (o, s) := o.tryMarkDirty (s.appendJournal (.assetBalanceChange o.address asset amount false))
    (true, o, s)
  else (false, o, s)

def addAssetBalance (o : StateObject) (asset : Address) (amount : Int) (s : StateDB) :
    StateObject × StateDB :=
  let s := s.appendJournal (.assetBalanceChange o.address asset amount true)
  { o with data.assetList := o.data.assetList.addAsset asset amount }.tryMarkDirty s

/-- `revertAssetBalance`: undo an add with a sub and a sub with an add. -/
def revertAssetBalance (o : StateObject) (asset : Address) (amount : Int) (preOpIsAdd : Bool)
    (s : StateDB) : StateObject × StateDB :=
  let assets := if preOpIsAdd then (o.data.assetList.subAsset asset amount).2
    else o.data.assetList.addAsset asset amount
  { o with data.assetList := assets }.tryMarkDirty s

/-- `SetAssetData` on an object whose asset data is not loaded yet, which is how its only caller,
`PublishAsset`, finds the fresh asset account; the model keeps the data's hash. -/
def setAssetData (o : StateObject) (hash : Hash) (s : StateDB) : StateObject × StateDB :=
  { o with data.assetHash := some hash }.tryMarkDirty (s.appendJournal (.assetDataChange o.address))

/-! Marking dirty only touches the dirty set; the setters keep the object's address. -/

@[simp] theorem tryMarkDirty_fst (o : StateObject) (s : StateDB) :
    (o.tryMarkDirty s).1 = { o with onDirty := false } := by
  unfold tryMarkDirty
  split
  · rfl
  · rename_i hoff
    cases o
    simp_all

@[simp] theorem tryMarkDirty_stateObjects (o : StateObject) (s : StateDB) :
    (o.tryMarkDirty s).2.stateObjects = s.stateObjects := by
  unfold tryMarkDirty
  split <;> rfl

@[simp] theorem tryMarkDirty_journal (o : StateObject) (s : StateDB) :
    (o.tryMarkDirty s).2.journal = s.journal := by
  unfold tryMarkDirty
  split <;> rfl

@[simp] theorem setNonceJournaled_address (o : StateObject) (n : Nat) (s : StateDB) :
    (o.setNonceJournaled n s).1.address = o.address := by
  simp [setNonceJournaled, setNonce]

@[simp] theorem addAssetBalance_address (o : StateObject) (asset : Address) (amount : Int)
    (s : StateDB) : (o.addAssetBalance asset amount s).1.address = o.address := by
  simp [addAssetBalance]

@[simp] theorem addAssetBalance_stateObjects (o : StateObject) (asset : Address) (amount : Int)
    (s : StateDB) : (o.addAssetBalance asset amount s).2.stateObjects = s.stateObjects := by
  simp [addAssetBalance]

@[simp] theorem setAssetData_fst (o : StateObject) (hash : Hash) (s : StateDB) :
    (o.setAssetData hash s).1 = { o with data.assetHash := some hash, onDirty := false } := by
  simp [setAssetData]

end StateObject

end AuroraChain.State
