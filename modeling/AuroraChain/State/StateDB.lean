import AuroraChain.State.Basic
/-!
# The account state database's operations

`statedb.go` and the undo half of `core/state/journal.go`. Lookups load accounts from the trie
into the live map (decoding a vote list allocates its array), so they return the database they
leave behind. Setters go through `GetOrNewStateObject`, which creates an account that does not
exist; getters read a missing account as zero.
-/

namespace AuroraChain.State

namespace StateDB

/-- The committed `ripemd` address, which `touchChange` never untouches. -/
def ripemd : Address := 3

/-- `New(root, db)`: the committed trie, nothing live. -/
def new (trie : SortedMap Address Account) : StateDB where
  trie := trie
  stateObjects := ∅
  stateObjectsDirty := ∅
  heap := ⟨[]⟩
  refund := 0
  thash := 0
  bhash := 0
  txIndex := 0
  logs := ∅
  logSize := 0
  journal := Journal.empty
  addresses_match := by simp

/-- `getStateObject`: the live object unless it was deleted, else the trie's account decoded into
a new live object. -/
def getStateObject (s : StateDB) (addr : Address) : Option StateObject × StateDB :=
  match s.stateObjects.get? addr with
  | some obj => (if obj.deleted then none else some obj, s)
  | none =>
      match s.trie.get? addr with
      | none => (none, s)
      | some acc =>
          let (data, s) := s.decodeAccount acc
          let obj := newObject addr data
          (some obj, s.setStateObject obj)

/-- `createObject`: a fresh account replaces whatever `getStateObject` saw, journaled as
`createObjectChange` or `resetObjectChange`. -/
def createObject (s : StateDB) (addr : Address) : (StateObject × Option StateObject) × StateDB :=
  let (prev, s) := s.getStateObject addr
  -- `newobj.setNonce(0)` marks the new account dirty
  let (newobj, s) := (newObject addr emptyAccountData).setNonce 0 s
  let s := match prev with
    | none => s.appendJournal (.createObjectChange addr)
    | some p => s.appendJournal (.resetObjectChange p)
  ((newobj, prev), s.setStateObject newobj)

def getOrNewStateObject (s : StateDB) (addr : Address) : StateObject × StateDB :=
  match s.getStateObject addr with
  | (some obj, s) =>
      if obj.deleted then
        let ((obj, _), s) := s.createObject addr
        (obj, s)
      else (obj, s)
  | (none, s) =>
      let ((obj, _), s) := s.createObject addr
      (obj, s)

/-- `CreateAccount`: a new account that keeps the balance, and only the balance, of the one it
replaces. -/
def createAccount (s : StateDB) (addr : Address) : StateDB :=
  match s.createObject addr with
  | ((_, none), s) => s
  | ((newobj, some prev), s) =>
      let (newobj, s) := newobj.setBalance prev.data.balance s
      s.setStateObject newobj

/-- The setters' shape: `GetOrNewStateObject`, then a method of the object. -/
def updateObject (s : StateDB) (addr : Address)
    (f : StateObject → StateDB → StateObject × StateDB) : StateDB :=
  let (obj, s) := s.getOrNewStateObject addr
  let (obj, s) := f obj s
  s.setStateObject obj

def addBalance (s : StateDB) (addr : Address) (amount : Int) : StateDB :=
  s.updateObject addr fun o => o.addBalance amount

def subBalance (s : StateDB) (addr : Address) (amount : Int) : StateDB :=
  s.updateObject addr fun o => o.subBalance amount

def setBalance (s : StateDB) (addr : Address) (amount : Int) : StateDB :=
  s.updateObject addr fun o => o.setBalanceJournaled amount

def setNonce (s : StateDB) (addr : Address) (nonce : Nat) : StateDB :=
  s.updateObject addr fun o => o.setNonceJournaled nonce

def setVoteList (s : StateDB) (addr : Address) (voteList : Slice) : StateDB :=
  s.updateObject addr fun o => o.setVoteListJournaled voteList

/-- `SetCode`; the model keeps the code hash. -/
def setCode (s : StateDB) (addr : Address) (codeHash : Hash) : StateDB :=
  s.updateObject addr fun o => o.setCodeJournaled codeHash

def addAssetBalance (s : StateDB) (addr asset : Address) (amount : Int) : StateDB :=
  s.updateObject addr fun o => o.addAssetBalance asset amount

/-- `AddLockBalance`, which panics on an account whose lock balance is nil. -/
def addLockBalance (s : StateDB) (addr : Address) (amount : Int) : Except GoPanic StateDB :=
  let (obj, s) := s.getOrNewStateObject addr
  (obj.addLockBalance amount s).map fun (obj, s) => s.setStateObject obj

def subAssetBalance (s : StateDB) (addr asset : Address) (amount : Int) : Bool × StateDB :=
  let (obj, s) := s.getOrNewStateObject addr
  let (ok, obj, s) := obj.subAssetBalance asset amount s
  (ok, s.setStateObject obj)

/-- The getters' shape: a field of the account, or a default when there is none. -/
def getField {β : Type} (s : StateDB) (addr : Address) (field : StateObject → β) (default : β) :
    β × StateDB :=
  match s.getStateObject addr with
  | (some obj, s) => (field obj, s)
  | (none, s) => (default, s)

def getBalance (s : StateDB) (addr : Address) : Int × StateDB :=
  s.getField addr (·.data.balance) 0

/-- `GetLockBalance`: `none` is the nil pointer of an account created in memory. -/
def getLockBalance (s : StateDB) (addr : Address) : Option Int × StateDB :=
  s.getField addr (·.data.lockBalance) (some 0)

/-- `GetVoteList`: the stored header itself. -/
def getVoteList (s : StateDB) (addr : Address) : Slice × StateDB :=
  s.getField addr (·.data.voteList) Slice.nil

def getNonce (s : StateDB) (addr : Address) : Nat × StateDB :=
  s.getField addr (·.data.nonce) 0

def getCodeHash (s : StateDB) (addr : Address) : Hash × StateDB :=
  s.getField addr (·.data.codeHash) 0

def getAssetBalance (s : StateDB) (addr asset : Address) : Int × StateDB :=
  s.getField addr (·.data.assetList.balanceOf asset) 0

/-- `GetAssets`: the asset entries in ascending order of id, an empty list as nil. -/
def getAssets (s : StateDB) (addr : Address) : List (Address × Int) × StateDB :=
  s.getField addr (·.data.assetList.entries) []

def exist (s : StateDB) (addr : Address) : Bool × StateDB :=
  s.getField addr (fun _ => true) false

def hasSuicided (s : StateDB) (addr : Address) : Bool × StateDB :=
  s.getField addr (·.suicided) false

/-- `Suicide`: journal the flag and the balance, mark the account, zero its balance. The lock
balance, vote list and assets stay until `Finalise` deletes the account. -/
def suicide (s : StateDB) (addr : Address) : Bool × StateDB :=
  match s.getStateObject addr with
  | (none, s) => (false, s)
  | (some obj, s) =>
      let s := s.appendJournal (.suicideChange addr obj.suicided obj.data.balance)
      let (obj, s) := obj.markSuicided s
      (true, s.setStateObject { obj with data.balance := 0 })

def addRefund (s : StateDB) (gas : Nat) : StateDB :=
  { s.appendJournal (.refundChange s.refund) with refund := s.refund + gas }

def addLog (s : StateDB) (log : Log) : StateDB :=
  let s := s.appendJournal (.addLogChange s.thash)
  let log := { log with txHash := s.thash, blockHash := s.bhash, txIndex := s.txIndex,
                        index := s.logSize }
  { s with logs := s.logs.insert s.thash (((s.logs.get? s.thash).getD []) ++ [log]),
           logSize := s.logSize + 1 }

def getLogs (s : StateDB) (hash : Hash) : List Log := (s.logs.get? hash).getD []

def prepare (s : StateDB) (thash bhash : Hash) (ti : Nat) : StateDB :=
  { s with thash, bhash, txIndex := ti }

def snapshot (s : StateDB) : Nat × StateDB :=
  let (id, j) := s.journal.snapshot
  (id, { s with journal := j })

/-! A lookup loads at most the account it reads: the trie and every other live account stay. -/

theorem getStateObject_trie (s : StateDB) (addr : Address) :
    (s.getStateObject addr).2.trie = s.trie := by
  unfold getStateObject
  split
  · rfl
  · split <;> rfl

theorem getStateObject_get?_ne {s : StateDB} {addr b : Address} (hb : b ≠ addr) :
    (s.getStateObject addr).2.stateObjects.get? b = s.stateObjects.get? b := by
  unfold getStateObject
  split
  · rfl
  · split
    · rfl
    · simp [setStateObject, newObject, decodeAccount, hb]

@[simp] theorem getField_trie {β : Type} (s : StateDB) (addr : Address) (field : StateObject → β)
    (default : β) : (s.getField addr field default).2.trie = s.trie := by
  have h := getStateObject_trie s addr
  unfold getField
  split <;> rename_i heq <;> rw [heq] at h <;> exact h

theorem getField_get?_ne {β : Type} {s : StateDB} {addr b : Address} {field : StateObject → β}
    {default : β} (hb : b ≠ addr) :
    (s.getField addr field default).2.stateObjects.get? b = s.stateObjects.get? b := by
  have h := getStateObject_get?_ne (s := s) hb
  unfold getField
  split <;> rename_i heq <;> rw [heq] at h <;> exact h

theorem getStateObject_address {s : StateDB} {addr : Address} {obj : StateObject}
    (h : (s.getStateObject addr).1 = some obj) : obj.address = addr := by
  unfold getStateObject at h
  split at h
  · rename_i o ho
    split at h
    · cases h
    · cases h
      exact s.addresses_match addr obj ho
  · split at h
    · cases h
    · cases h
      rfl

theorem createObject_fst (s : StateDB) (addr : Address) :
    (s.createObject addr).1.1 = { newObject addr emptyAccountData with onDirty := false } := by
  simp [createObject, StateObject.setNonce, newObject, emptyAccountData]

theorem getOrNewStateObject_address (s : StateDB) (addr : Address) :
    (s.getOrNewStateObject addr).1.address = addr := by
  unfold getOrNewStateObject
  split
  · rename_i obj s₁ hget
    split
    · rw [createObject_fst]; rfl
    · exact getStateObject_address (by rw [hget])
  · rw [createObject_fst]; rfl

theorem getCodeHash_absent {s : StateDB} {addr : Address} (hlive : s.stateObjects.get? addr = none)
    (htrie : s.trie.get? addr = none) : (s.getCodeHash addr).1 = 0 := by
  simp [getCodeHash, getField, getStateObject, hlive, htrie]

theorem getStateObject_of_live {s : StateDB} {addr : Address} {obj : StateObject}
    (hobj : s.stateObjects.get? addr = some obj) (hdeleted : obj.deleted = false) :
    s.getStateObject addr = (some obj, s) := by
  simp [getStateObject, hobj, hdeleted]

theorem getField_of_live {β : Type} {s : StateDB} {addr : Address} {obj : StateObject}
    (hobj : s.stateObjects.get? addr = some obj) (hdeleted : obj.deleted = false)
    (field : StateObject → β) (default : β) : (s.getField addr field default).1 = field obj := by
  simp [getField, getStateObject_of_live hobj hdeleted]

@[simp] theorem snapshot_stateObjects (s : StateDB) : s.snapshot.2.stateObjects = s.stateObjects :=
  rfl

@[simp] theorem snapshot_trie (s : StateDB) : s.snapshot.2.trie = s.trie := rfl

end StateDB

/-- The undo entries that call a method on the object `getStateObject` returns: a nil
dereference when there is none. -/
def undoOnObject (s : StateDB) (addr : Address)
    (f : StateObject → StateDB → StateObject × StateDB) : Except GoPanic StateDB :=
  match s.getStateObject addr with
  | (none, _) => .error .nilDereference
  | (some obj, s) =>
      let (obj, s) := f obj s
      .ok (s.setStateObject obj)

/-- `undo` of each journal entry. -/
def JournalEntry.undo : JournalEntry → StateDB → Except GoPanic StateDB
  | .createObjectChange account, s => .ok (s.dropStateObject account)
  | .resetObjectChange prev, s => .ok (s.setStateObject prev)
  | .suicideChange account prev prevbalance, s =>
      match s.getStateObject account with
      | (none, s) => .ok s
      | (some obj, s) =>
          let (obj, s) := { obj with suicided := prev }.setBalance prevbalance s
          .ok (s.setStateObject obj)
  | .balanceChange account prev, s => undoOnObject s account fun o => o.setBalance prev
  | .lockBalanceChange account prev, s => undoOnObject s account fun o => o.setLockBalance prev
  | .voteListChange account prev, s => undoOnObject s account fun o => o.setVoteList prev
  | .nonceChange account prev, s => undoOnObject s account fun o => o.setNonce prev
  | .codeChange account prevhash, s => undoOnObject s account fun o => o.setCode prevhash
  -- `setAssetData(common.Hash{}, nil)`: the hash becomes thirty-two zero bytes, not nil
  | .assetDataChange account, s =>
      undoOnObject s account fun o => { o with data.assetHash := some 0 }.tryMarkDirty
  | .refundChange prev, s => .ok { s with refund := prev }
  | .addLogChange txhash, s =>
      let logs := (s.logs.get? txhash).getD []
      if logs.length = 1 then .ok { s with logs := s.logs.erase txhash, logSize := s.logSize - 1 }
      else if logs.length = 0 then .error .sliceOutOfRange
      else .ok { s with logs := s.logs.insert txhash logs.dropLast, logSize := s.logSize - 1 }
  | .touchChange account prev prevDirty, s =>
      if !prev && account ≠ StateDB.ripemd then
        match s.getStateObject account with
        | (none, _) => .error .nilDereference
        | (some obj, s) =>
            let s := s.setStateObject { obj with touched := prev }
            .ok (if !prevDirty then { s with stateObjectsDirty := s.stateObjectsDirty.erase account }
              else s)
      else .ok s
  | .assetBalanceChange account asset amount preOpIsAdd, s =>
      undoOnObject s account fun o => o.revertAssetBalance asset amount preOpIsAdd

namespace StateDB

def revertToSnapshot (s : StateDB) (revid : Nat) : Except GoPanic StateDB :=
  match s.journal.revert? revid with
  | none => .error (.revisionCannotBeReverted revid)
  | some (undone, j) => (Journal.undoAll JournalEntry.undo undone s).map fun s => { s with journal := j }

/-- `deleteStateObject`: mark the live object deleted and remove the account from the trie. -/
def deleteStateObject (s : StateDB) (obj : StateObject) : StateDB :=
  { s.setStateObject { obj with deleted := true } with trie := s.trie.erase obj.address }

/-- `updateStateObject`: write the encoded account into the trie. -/
def updateStateObject (s : StateDB) (obj : StateObject) : StateDB :=
  { s with trie := s.trie.insert obj.address (s.encodeAccount obj.data) }

def clearJournalAndRefund (s : StateDB) : StateDB :=
  { s with journal := s.journal.clear, refund := 0 }

/-- `Finalise`: every dirty account is written to the trie, or deleted if it suicided or (when
asked) is empty. Each address only touches its own trie entry, so the order the code's map
iteration takes does not matter; the model takes the keys in order. A dirty address without a live
object is a nil dereference. -/
def finalise (s : StateDB) (deleteEmptyObjects : Bool) : Except GoPanic StateDB :=
  let s' : Except GoPanic StateDB := s.stateObjectsDirty.keys.foldlM (fun s addr =>
    match s.stateObjects.get? addr with
    | none => .error .nilDereference
    | some obj =>
        if obj.suicided || (deleteEmptyObjects && obj.empty) then .ok (s.deleteStateObject obj)
        else .ok (s.updateStateObject obj)) s
  s'.map clearJournalAndRefund

/-- `IntermediateRoot`: `Finalise`, then the trie, the model's root. -/
def intermediateRoot (s : StateDB) (deleteEmptyObjects : Bool) :
    Except GoPanic (SortedMap Address Account × StateDB) :=
  (s.finalise deleteEmptyObjects).map fun s => (s.trie, s)

end StateDB

end AuroraChain.State
