import AuroraChain.DelegateState.Basic
import Mathlib
/-!
# The delegate database's operations

`delegatedb.go` and the undo half of `journal.go`. Every lookup may load a record from the trie
into the live map, so lookups return the database they leave behind. `GetStateObject` hides
objects whose `Delete` flag is set (a cancelled delegate), `getStateObjectContainDelete` does
not; which of the two an operation uses decides what it sees of a cancelled delegate.
-/

namespace AuroraChain.DelegateState

namespace DelegateDB

/-- The committed `ripemd` address, which `touchChange` never untouches. -/
def ripemd : Address := 3

/-- `New(root, db)` without the `loadDelegateToCache` pass: the committed trie, nothing live. -/
def empty (trie : SortedMap Address Delegate) : DelegateDB where
  trie := trie
  delegateObjects := ∅
  delegateObjectsDirty := ∅
  thash := 0
  bhash := 0
  txIndex := 0
  logs := ∅
  logSize := 0
  journal := Journal.empty
  addresses_match := by simp

/-- `getStateObjectContainDelete`: the live object, else the trie's record loaded as a new live
object; `none` when the address has no record. -/
def getStateObjectContainDelete (d : DelegateDB) (addr : Address) : Option DelegateObject × DelegateDB :=
  match d.delegateObjects.get? addr with
  | some obj => (some obj, d)
  | none =>
      match d.trie.get? addr with
      | none => (none, d)
      | some data =>
          let (obj, d) := d.newObject addr data
          (some obj, d.setStateObject obj)

/-- `GetStateObject`: as `getStateObjectContainDelete`, except that a live object marked
`deleted` or `Delete` is reported absent. The two functions load from the trie the same way. -/
def getStateObject (d : DelegateDB) (addr : Address) : Option DelegateObject × DelegateDB :=
  match d.delegateObjects.get? addr with
  | some obj => (if obj.deleted || obj.data.delete then none else some obj, d)
  | none => d.getStateObjectContainDelete addr

/-- `New(root, db)`: the committed trie, with every record loaded by `loadDelegateToCache`. -/
def new (trie : SortedMap Address Delegate) : DelegateDB :=
  trie.keys.foldl (fun d addr => (d.getStateObject addr).2) (empty trie)

def exist (d : DelegateDB) (addr : Address) : Bool × DelegateDB :=
  let (obj, d) := d.getStateObject addr
  (obj.isSome, d)

def subExist (d : DelegateDB) (addr : Address) : Bool × DelegateDB :=
  let (obj, d) := d.getStateObjectContainDelete addr
  (obj.isSome, d)

/-- `createObject`: a fresh record with zero votes becomes live; the journal gets
`createObjectChange` if `GetStateObject` saw nothing, `resetObjectChange` otherwise. -/
def createObject (d : DelegateDB) (addr : Address) (nickname : String) (registerTime : Nat) :
    (DelegateObject × Option DelegateObject) × DelegateDB :=
  let (prev, d) := d.getStateObject addr
  let (newobj, d) := d.newObject addr
    { root := ∅, vote := 0, nickname, registerTime, delete := false }
  let d := match prev with
    | none => d.appendJournal (.createObjectChange addr)
    | some p => d.appendJournal (.resetObjectChange p)
  ((newobj, prev), d.setStateObject newobj)

/-- The shape `AddVote`, `SubVote` and `SetVote` share: look the delegate up, change its vote
with the object's method, mark it dirty. -/
def changeVote (lookup : DelegateDB → Address → Option DelegateObject × DelegateDB)
    (change : DelegateObject → Int → DelegateDB → DelegateObject × DelegateDB)
    (d : DelegateDB) (addr : Address) (amount : Int) : DelegateDB :=
  match lookup d addr with
  | (none, d) => d
  | (some obj, d) =>
      let (obj, d) := change obj amount d
      let (obj, d) := obj.tryMarkDirty d
      d.setStateObject obj

/-- `AddVote`: through `GetStateObject`, so a cancelled delegate is skipped. -/
def addVote : DelegateDB → Address → Int → DelegateDB :=
  changeVote getStateObject DelegateObject.addVote

/-- `SubVote`: through `getStateObjectContainDelete`, so a cancelled delegate is reached. -/
def subVote : DelegateDB → Address → Int → DelegateDB :=
  changeVote getStateObjectContainDelete DelegateObject.subVote

/-- `SetVote`: through `GetStateObject`, with the unjournaled object `setVote`. -/
def setVote : DelegateDB → Address → Int → DelegateDB :=
  changeVote getStateObject DelegateObject.setVote

/-- `GetVote`: the vote of any record, cancelled or not; zero without one. -/
def getVote (d : DelegateDB) (addr : Address) : Int × DelegateDB :=
  match d.getStateObjectContainDelete addr with
  | (none, d) => (0, d)
  | (some obj, d) => (obj.data.vote, d)

/-- `GetOrNewStateObject`, the registration path: a new record if there is none, and for a
cancelled delegate a fresh record that is then given the old votes with `AddVote`. -/
def getOrNewStateObject (d : DelegateDB) (addr : Address) (nickname : String)
    (registerTime : Nat) : DelegateObject × DelegateDB :=
  match d.getStateObjectContainDelete addr with
  | (none, d) =>
      let ((obj, _), d) := d.createObject addr nickname registerTime
      (obj, d)
  | (some obj, d) =>
      if obj.data.delete then
        let preVote := obj.data.vote
        let ((obj, _), d) := d.createObject addr nickname registerTime
        (obj, d.addVote addr preVote)
      else (obj, d)

/-- `Suicide`, the cancellation: journal the old flag and vote, set `Delete`. -/
def suicide (d : DelegateDB) (addr : Address) : Bool × DelegateDB :=
  match d.getStateObject addr with
  | (none, d) => (false, d)
  | (some obj, d) =>
      let d := d.appendJournal (.suicideChange addr obj.suicided obj.data.vote)
      let (obj, d) := { obj with data.delete := true }.tryMarkDirty d
      (true, d.setStateObject obj)

/-- `HasSuicided`: the `Delete` flag as `GetStateObject` sees it. -/
def hasSuicided (d : DelegateDB) (addr : Address) : Bool × DelegateDB :=
  match d.getStateObject addr with
  | (none, d) => (false, d)
  | (some obj, d) => (obj.data.delete, d)

def getState (d : DelegateDB) (addr : Address) (key : Hash) : Hash × DelegateDB :=
  match d.getStateObject addr with
  | (none, d) => (0, d)
  | (some obj, d) =>
      let (value, obj) := obj.getState key
      (value, d.setStateObject obj)

def setState (d : DelegateDB) (addr : Address) (key value : Hash) : DelegateDB :=
  match d.getStateObject addr with
  | (none, d) => d
  | (some obj, d) =>
      let (obj, d) := obj.setStateJournaled key value d
      d.setStateObject obj

/-- `AddLog`: stamp the log with the current transaction and append it. -/
def addLog (d : DelegateDB) (log : Log) : DelegateDB :=
  let d := d.appendJournal (.addLogChange d.thash)
  let log := { log with txHash := d.thash, blockHash := d.bhash, txIndex := d.txIndex,
                        index := d.logSize }
  { d with logs := d.logs.insert d.thash (((d.logs.get? d.thash).getD []) ++ [log]),
           logSize := d.logSize + 1 }

def getLogs (d : DelegateDB) (hash : Hash) : List Log := (d.logs.get? hash).getD []

def prepare (d : DelegateDB) (thash bhash : Hash) (ti : Nat) : DelegateDB :=
  { d with thash, bhash, txIndex := ti }

/-- `big.Int.Uint64`: the low 64 bits of the absolute value. -/
def bigUint64 (x : Int) : Nat := x.natAbs % 2 ^ 64

/-- `GetDelegates`: the live objects that are neither cancelled nor suicided, as candidates,
sorted by `CandidateSlice.Less`. Their addresses differ, so that order is total and every sort,
Go's unstable `sort.Sort` among them, gives the same list. -/
def getDelegates (d : DelegateDB) : List Candidate :=
  let list := d.delegateObjects.foldl (fun list k v =>
    if v.data.delete || v.suicided then list
    else list ++ [{ address := k, vote := bigUint64 v.data.vote, nickname := v.data.nickname,
                    registerTime := v.data.registerTime }]) []
  if list.length > 1 then list.insertionSort (fun a b => !CandidateSlice.less b a) else list

def snapshot (d : DelegateDB) : Nat × DelegateDB :=
  let (id, j) := d.journal.snapshot
  (id, { d with journal := j })

end DelegateDB

/-- `undo` of each journal entry. An entry that dereferences the result of `GetStateObject`
panics when that object is gone or cancelled. -/
def JournalEntry.undo : JournalEntry → DelegateDB → Except GoPanic DelegateDB
  | .createObjectChange account, d => .ok (d.dropStateObject account)
  | .resetObjectChange prev, d => .ok (d.setStateObject prev)
  | .addLogChange txhash, d =>
      let logs := (d.logs.get? txhash).getD []
      if logs.length = 1 then .ok { d with logs := d.logs.erase txhash, logSize := d.logSize - 1 }
      else if logs.length = 0 then .error .sliceOutOfRange
      else .ok { d with logs := d.logs.insert txhash logs.dropLast, logSize := d.logSize - 1 }
  | .storageChange account key prevalue, d =>
      match d.getStateObject account with
      | (none, _) => .error .nilDereference
      | (some obj, d) =>
          let (obj, d) := obj.setState key prevalue d
          .ok (d.setStateObject obj)
  | .voteChange account prev, d =>
      match d.getStateObject account with
      | (none, _) => .error .nilDereference
      | (some obj, d) =>
          let (obj, d) := obj.setVote prev d
          .ok (d.setStateObject obj)
  | .touchChange account prev prevDirty, d =>
      if !prev && account ≠ DelegateDB.ripemd then
        match d.getStateObject account with
        | (none, _) => .error .nilDereference
        | (some obj, d) =>
            let d := d.setStateObject { obj with touched := prev }
            .ok (if !prevDirty then { d with delegateObjectsDirty := d.delegateObjectsDirty.erase account }
              else d)
      else .ok d
  | .suicideChange account prev prevVote, d =>
      match d.getStateObject account with
      | (none, d) => .ok d
      | (some obj, d) =>
          let (obj, d) := { obj with suicided := prev }.setVote prevVote d
          .ok (d.setStateObject obj)

namespace DelegateDB

/-- `RevertToSnapshot`: panic on an unknown id, else undo the later entries newest first and
truncate the journal. -/
def revertToSnapshot (d : DelegateDB) (revid : Nat) : Except GoPanic DelegateDB :=
  match d.journal.revert? revid with
  | none => .error (.revisionCannotBeReverted revid)
  | some (undone, j) => (Journal.undoAll JournalEntry.undo undone d).map fun d => { d with journal := j }

def deleteStateObject (d : DelegateDB) (obj : DelegateObject) : DelegateDB :=
  { d.setStateObject { obj with deleted := true } with trie := d.trie.erase obj.address }

/-- `updateStateObject`: write the record into the trie. -/
def updateStateObject (d : DelegateDB) (obj : DelegateObject) : DelegateDB :=
  { d with trie := d.trie.insert obj.address obj.data }

/-- `Finalise`: every dirty object is written to the trie (or deleted if suicided), and the
journal is cleared; a dirty address without a live object is a nil dereference. -/
def finalise (d : DelegateDB) : Except GoPanic DelegateDB :=
  let d' : Except GoPanic DelegateDB := d.delegateObjectsDirty.keys.foldlM (fun d addr =>
    match d.delegateObjects.get? addr with
    | none => .error .nilDereference
    | some obj =>
        if obj.suicided then .ok (d.deleteStateObject obj)
        else
          let obj := obj.updateRoot
          .ok ((d.setStateObject obj).updateStateObject obj)) d
  d'.map fun d => { d with journal := d.journal.clear }

/-- `IntermediateRoot`: `Finalise`, then the trie's root, which the model takes to be the
committed map itself. -/
def intermediateRoot (d : DelegateDB) : Except GoPanic (SortedMap Address Delegate × DelegateDB) :=
  d.finalise.map fun d => (d.trie, d)

end DelegateDB

end AuroraChain.DelegateState
