import AuroraChain.Common.Types
import AuroraChain.Lib.SortedMap
import AuroraChain.Lib.Journal
/-!
# Delegate records, live objects and the delegate database

Package `delegatestate` keeps one record per delegate address in a trie. While blocks are
processed, records are loaded into live objects (`delegateObject`), changed there, and written
back to the trie by `Finalise`; a journal of undo entries backs `Snapshot` and
`RevertToSnapshot`.

Objects are pointers in the code: the object in the live map is changed in place. The model keeps
objects as values and writes a changed object back into the live map, which is what the in-place
change amounts to, since no other live reference to it exists (a replaced object survives only
inside a `resetObjectChange` entry, which nothing changes). A record's `Root` names its storage
trie; the model stores the committed storage map in its place, the trie read as the map it
commits to. The `onDirty` callback is a flag: set while the callback is still armed.
-/

namespace AuroraChain.DelegateState

/-- `delegatestate.Storage`, a delegate's storage slots. -/
abbrev Storage := SortedMap Hash Hash

/-- `delegatestate.Delegate`, the record the delegate trie stores. -/
structure Delegate where
  root : Storage
  vote : Int
  nickname : String
  registerTime : Nat
  delete : Bool
  deriving DecidableEq

/-- `delegatestate.delegateObject`, a live delegate. -/
structure DelegateObject where
  address : Address
  data : Delegate
  trie : Option Storage
  cachedStorage : Storage
  dirtyStorage : Storage
  touched : Bool
  deleted : Bool
  suicided : Bool
  onDirty : Bool
  deriving DecidableEq

/-- The undo entries of `delegatestate/journal.go`. -/
inductive JournalEntry where
  | createObjectChange (account : Address)
  | resetObjectChange (prev : DelegateObject)
  | addLogChange (txhash : Hash)
  | storageChange (account : Address) (key prevalue : Hash)
  | voteChange (account : Address) (prev : Int)
  | touchChange (account : Address) (prev prevDirty : Bool)
  | suicideChange (account : Address) (prev : Bool) (prevVote : Int)

/-- `delegatestate.DelegateDB`: the committed trie, the live objects, the dirty set, the logs of
the current block and the journal. -/
structure DelegateDB where
  trie : SortedMap Address Delegate
  delegateObjects : SortedMap Address DelegateObject
  delegateObjectsDirty : SortedMap Address Unit
  thash : Hash
  bhash : Hash
  txIndex : Nat
  logs : SortedMap Hash (List Log)
  logSize : Nat
  journal : Journal JournalEntry
  /-- The live map files every object under its own address. -/
  addresses_match : ∀ a obj, delegateObjects.get? a = some obj → obj.address = a

namespace DelegateDB

def markStateObjectDirty (d : DelegateDB) (addr : Address) : DelegateDB :=
  { d with delegateObjectsDirty := d.delegateObjectsDirty.insert addr () }

/-- `setStateObject`: the object becomes the live object of its address. -/
def setStateObject (d : DelegateDB) (obj : DelegateObject) : DelegateDB :=
  { d with
    delegateObjects := d.delegateObjects.insert obj.address obj
    addresses_match := by
      intro a o ho
      rw [SortedMap.get?_insert] at ho
      split_ifs at ho with ha
      · cases ho
        exact ha.symm
      · exact d.addresses_match a o ho }

/-- `delete(d.delegateObjects, addr)` together with `delete(d.delegateObjectsDirty, addr)`. -/
def dropStateObject (d : DelegateDB) (addr : Address) : DelegateDB :=
  { d with
    delegateObjects := d.delegateObjects.erase addr
    delegateObjectsDirty := d.delegateObjectsDirty.erase addr
    addresses_match := by
      intro a o ho
      rw [SortedMap.get?_erase] at ho
      split_ifs at ho
      exact d.addresses_match a o ho }

/-- `d.journal = append(d.journal, e)`. -/
def appendJournal (d : DelegateDB) (e : JournalEntry) : DelegateDB :=
  { d with journal := d.journal.append e }

@[simp] theorem markStateObjectDirty_delegateObjects (d : DelegateDB) (addr : Address) :
    (d.markStateObjectDirty addr).delegateObjects = d.delegateObjects := rfl

@[simp] theorem markStateObjectDirty_trie (d : DelegateDB) (addr : Address) :
    (d.markStateObjectDirty addr).trie = d.trie := rfl

@[simp] theorem markStateObjectDirty_journal (d : DelegateDB) (addr : Address) :
    (d.markStateObjectDirty addr).journal = d.journal := rfl

@[simp] theorem setStateObject_trie (d : DelegateDB) (obj : DelegateObject) :
    (d.setStateObject obj).trie = d.trie := rfl

@[simp] theorem setStateObject_journal (d : DelegateDB) (obj : DelegateObject) :
    (d.setStateObject obj).journal = d.journal := rfl

@[simp] theorem setStateObject_delegateObjects (d : DelegateDB) (obj : DelegateObject) :
    (d.setStateObject obj).delegateObjects = d.delegateObjects.insert obj.address obj := rfl

@[simp] theorem appendJournal_trie (d : DelegateDB) (e : JournalEntry) :
    (d.appendJournal e).trie = d.trie := rfl

@[simp] theorem appendJournal_delegateObjects (d : DelegateDB) (e : JournalEntry) :
    (d.appendJournal e).delegateObjects = d.delegateObjects := rfl

/-- `newObject(d, addr, data, d.MarkStateObjectDirty)`: the constructor calls `tryMarkDirty`, so
the address is marked dirty at once and the callback is spent. -/
def newObject (d : DelegateDB) (address : Address) (data : Delegate) : DelegateObject × DelegateDB :=
  ({ address, data, trie := none, cachedStorage := ∅, dirtyStorage := ∅, touched := false,
     deleted := false, suicided := false, onDirty := false },
    d.markStateObjectDirty address)

end DelegateDB

namespace DelegateObject

/-- `empty`, which the delegate object defines as always false. -/
def empty (_ : DelegateObject) : Bool := false

/-- `tryMarkDirty`: fire the callback if it is still armed. -/
def tryMarkDirty (o : DelegateObject) (d : DelegateDB) : DelegateObject × DelegateDB :=
  if o.onDirty then ({ o with onDirty := false }, d.markStateObjectDirty o.address) else (o, d)

/-- `touch`, journaled. -/
def touch (o : DelegateObject) (d : DelegateDB) : DelegateObject × DelegateDB :=
  let d := d.appendJournal (.touchChange o.address o.touched (!o.onDirty))
  let (o, d) := o.tryMarkDirty d
  ({ o with touched := true }, d)

/-- `setVote`, which writes the vote without a journal entry. -/
def setVote (o : DelegateObject) (amount : Int) (d : DelegateDB) : DelegateObject × DelegateDB :=
  { o with data.vote := amount }.tryMarkDirty d

/-- `SubVote`: subtract, clamping at zero. -/
def subVote (o : DelegateObject) (amount : Int) (d : DelegateDB) : DelegateObject × DelegateDB :=
  if amount = 0 then (o, d)
  else
    let result := o.data.vote - amount
    if result < 0 then o.setVote 0 d else o.setVote result d

def addVote (o : DelegateObject) (amount : Int) (d : DelegateDB) : DelegateObject × DelegateDB :=
  if amount = 0 then (if o.empty then o.touch d else (o, d))
  else o.setVote (o.data.vote + amount) d

/-- `SetVote`, the journaled vote setter. -/
def setVoteJournaled (o : DelegateObject) (amount : Int) (d : DelegateDB) :
    DelegateObject × DelegateDB :=
  o.setVote amount (d.appendJournal (.voteChange o.address o.data.vote))

/-- `getTrie`: the storage trie, opened from the record's root on first use. -/
def getTrie (o : DelegateObject) : Storage × DelegateObject :=
  match o.trie with
  | some t => (t, o)
  | none => (o.data.root, { o with trie := some o.data.root })

/-- `GetState`: the cached slot, else the storage trie's; a non-zero value read from the trie is
cached. -/
def getState (o : DelegateObject) (key : Hash) : Hash × DelegateObject :=
  match o.cachedStorage.get? key with
  | some value => (value, o)
  | none =>
      let (t, o) := o.getTrie
      let value := (t.get? key).getD 0
      if value ≠ 0 then (value, { o with cachedStorage := o.cachedStorage.insert key value })
      else (value, o)

/-- `setState`, unjournaled. -/
def setState (o : DelegateObject) (key value : Hash) (d : DelegateDB) :
    DelegateObject × DelegateDB :=
  { o with cachedStorage := o.cachedStorage.insert key value,
           dirtyStorage := o.dirtyStorage.insert key value }.tryMarkDirty d

/-- `SetState`, journaling the previous value. -/
def setStateJournaled (o : DelegateObject) (key value : Hash) (d : DelegateDB) :
    DelegateObject × DelegateDB :=
  let (prev, o) := o.getState key
  o.setState key value (d.appendJournal (.storageChange o.address key prev))

/-- `updateTrie`: write the dirty slots into the storage trie, deleting zero values. -/
def updateTrie (o : DelegateObject) : DelegateObject :=
  let (t, o) := o.getTrie
  let t := o.dirtyStorage.foldl (fun t key value => if value = 0 then t.erase key
    else t.insert key value) t
  { o with trie := some t, dirtyStorage := ∅ }

/-- `updateRoot`: the record's root becomes the updated storage trie. -/
def updateRoot (o : DelegateObject) : DelegateObject :=
  let o := o.updateTrie
  { o with data.root := o.trie.getD o.data.root }

end DelegateObject

end AuroraChain.DelegateState
