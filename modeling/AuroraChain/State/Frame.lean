import AuroraChain.State.StateDB
/-!
# Accounts a run leaves alone

An account's nonce, code and asset data change only through `SetNonce`, `SetCode`,
`SetAssetData` and `createObject`. Coin, asset, lock and vote updates, the lookups, the refund and
`Suicide` leave them as they are. `Holds s c v` says that the account at `c` is live, not deleted,
with those three fields `v`. Every operation of the database keeps it; the setters and
`createObject` keep it for the other addresses.

A revert undoes journal entries, and undoing a `nonceChange`, `codeChange`, `createObjectChange` or
`resetObjectChange` of `c` would change the account. `SenderFrame` adds to `Holds` that every
entry after a mark spares `c` (`Journal.Since`). Reverting to any snapshot taken after the mark
then keeps the account as it is.
-/

namespace AuroraChain.State

/-- The fields of an account that the balance-side setters leave alone. -/
structure Identity where
  nonce : Nat
  codeHash : Hash
  assetHash : Option Hash
  deriving DecidableEq

def StateObject.identity (o : StateObject) : Identity :=
  ⟨o.data.nonce, o.data.codeHash, o.data.assetHash⟩

/-- An entry whose undo leaves the account at `a` as it is: it does not drop, replace, re-nonce,
re-code or clear the asset data of `a`. -/
def JournalEntry.Spares (a : Address) : JournalEntry → Prop
  | .createObjectChange b => b ≠ a
  | .resetObjectChange p => p.address ≠ a
  | .nonceChange b _ => b ≠ a
  | .codeChange b _ => b ≠ a
  | .assetDataChange b => b ≠ a
  | _ => True

namespace StateObject

/-- A method of an object that keeps its address, deletion mark and identity, and writes no live
object. -/
def Keeps (f : StateObject → StateDB → StateObject × StateDB) : Prop :=
  ∀ o s, (f o s).1.address = o.address ∧ (f o s).1.deleted = o.deleted ∧
    (f o s).1.identity = o.identity ∧ (f o s).2.stateObjects = s.stateObjects

/-- A method that appends only entries sparing `a`. -/
def Spares (a : Address) (f : StateObject → StateDB → StateObject × StateDB) : Prop :=
  ∀ o s {k i : Nat}, s.journal.Since (JournalEntry.Spares a) k i →
    (f o s).2.journal.Since (JournalEntry.Spares a) k i

theorem keeps_tryMarkDirty (g : StateObject → StateObject) (hg : ∀ o, (g o).address = o.address ∧
    (g o).deleted = o.deleted ∧ (g o).identity = o.identity) :
    Keeps fun o s => (g o).tryMarkDirty s := by
  intro o s
  obtain ⟨h1, h2, h3⟩ := hg o
  simp only [tryMarkDirty_fst, tryMarkDirty_stateObjects, and_true]
  exact ⟨h1, h2, by simpa [identity] using h3⟩

/-- A method that rewrites a field and marks the object dirty keeps its address and writes no live
object. -/
theorem stays_tryMarkDirty (g : StateObject → StateObject) (hg : ∀ o, (g o).address = o.address) :
    ∀ o s, ((g o).tryMarkDirty s).1.address = o.address ∧
      ((g o).tryMarkDirty s).2.stateObjects = s.stateObjects := by
  intro o s
  rw [tryMarkDirty_fst, tryMarkDirty_stateObjects]
  exact ⟨hg o, rfl⟩

theorem keeps_setBalance (amount : Int) : Keeps fun o s => o.setBalance amount s :=
  keeps_tryMarkDirty _ fun _ => ⟨rfl, rfl, rfl⟩

theorem keeps_setBalanceJournaled (amount : Int) :
    Keeps fun o s => o.setBalanceJournaled amount s :=
  fun o _ => keeps_setBalance amount o _

theorem keeps_touch : Keeps touch := by
  intro o s
  simp [touch, identity]

theorem keeps_addBalance (amount : Int) : Keeps fun o s => o.addBalance amount s := by
  intro o s
  dsimp only
  unfold addBalance
  split
  · split
    · exact keeps_touch o s
    · exact ⟨rfl, rfl, rfl, rfl⟩
  · exact keeps_setBalanceJournaled _ o s

theorem keeps_subBalance (amount : Int) : Keeps fun o s => o.subBalance amount s := by
  intro o s
  dsimp only
  unfold subBalance
  split
  · exact ⟨rfl, rfl, rfl, rfl⟩
  · exact keeps_setBalanceJournaled _ o s

theorem keeps_setLockBalance (amount : Int) : Keeps fun o s => o.setLockBalance amount s :=
  keeps_tryMarkDirty _ fun _ => ⟨rfl, rfl, rfl⟩

theorem keeps_setVoteList (voteList : Slice) : Keeps fun o s => o.setVoteList voteList s :=
  keeps_tryMarkDirty _ fun _ => ⟨rfl, rfl, rfl⟩

theorem keeps_setVoteListJournaled (voteList : Slice) :
    Keeps fun o s => o.setVoteListJournaled voteList s :=
  fun o _ => keeps_setVoteList voteList o _

theorem keeps_addAssetBalance (asset : Address) (amount : Int) :
    Keeps fun o s => o.addAssetBalance asset amount s := by
  intro o s
  simp [addAssetBalance, identity]

theorem keeps_revertAssetBalance (asset : Address) (amount : Int) (preOpIsAdd : Bool) :
    Keeps fun o s => o.revertAssetBalance asset amount preOpIsAdd s :=
  keeps_tryMarkDirty _ fun _ => ⟨rfl, rfl, rfl⟩

theorem keeps_markSuicided : Keeps markSuicided :=
  keeps_tryMarkDirty _ fun _ => ⟨rfl, rfl, rfl⟩

theorem keeps_subAssetBalance (o : StateObject) (asset : Address) (amount : Int) (s : StateDB) :
    (o.subAssetBalance asset amount s).2.1.address = o.address ∧
      (o.subAssetBalance asset amount s).2.1.deleted = o.deleted ∧
      (o.subAssetBalance asset amount s).2.1.identity = o.identity ∧
      (o.subAssetBalance asset amount s).2.2.stateObjects = s.stateObjects := by
  unfold subAssetBalance
  split
  · split <;> simp [identity]

theorem keeps_addLockBalance {o : StateObject} {amount : Int} {s : StateDB}
    {r : StateObject × StateDB} (h : o.addLockBalance amount s = .ok r) :
    r.1.address = o.address ∧ r.1.deleted = o.deleted ∧ r.1.identity = o.identity ∧
      r.2.stateObjects = s.stateObjects := by
  unfold addLockBalance at h
  split at h
  · injection h with h
    subst h
    split
    · exact keeps_touch o s
    · exact ⟨rfl, rfl, rfl, rfl⟩
  · split at h
    · cases h
    · unfold setLockBalanceJournaled at h
      split at h
      · cases h
      · injection h with h
        subst h
        exact keeps_setLockBalance _ o _

theorem spares_append {a : Address} {e : StateObject → JournalEntry} (he : ∀ o, (e o).Spares a)
    (g : StateObject → StateObject) :
    Spares a fun o s => (g o).tryMarkDirty (s.appendJournal (e o)) := by
  intro o s k i h
  rw [tryMarkDirty_journal, StateDB.appendJournal_journal]
  exact h.append (he o)

theorem spares_setBalanceJournaled (a : Address) (amount : Int) :
    Spares a fun o s => o.setBalanceJournaled amount s :=
  spares_append (e := fun o => .balanceChange o.address o.data.balance) (fun _ => trivial) _

theorem spares_addBalance (a : Address) (amount : Int) : Spares a fun o s => o.addBalance amount s := by
  intro o s k i h
  dsimp only
  unfold addBalance
  split
  · split
    · simp only [touch, tryMarkDirty_journal, StateDB.appendJournal_journal]
      exact h.append trivial
    · exact h
  · exact spares_setBalanceJournaled a _ o s h

theorem spares_subBalance (a : Address) (amount : Int) : Spares a fun o s => o.subBalance amount s := by
  intro o s k i h
  dsimp only
  unfold subBalance
  split
  · exact h
  · exact spares_setBalanceJournaled a _ o s h

theorem spares_addAssetBalance (a asset : Address) (amount : Int) :
    Spares a fun o s => o.addAssetBalance asset amount s :=
  spares_append (e := fun o => .assetBalanceChange o.address asset amount true) (fun _ => trivial) _

end StateObject

namespace StateDB

/-- The account at `c` is live and not deleted, with nonce, code and asset data `v`. -/
def Holds (s : StateDB) (c : Address) (v : Identity) : Prop :=
  ∃ o, s.stateObjects.get? c = some o ∧ o.deleted = false ∧ o.identity = v

variable {s : StateDB} {b c : Address} {v : Identity}

theorem Holds.of_get? {s' : StateDB} (h : s'.stateObjects.get? c = s.stateObjects.get? c)
    (hs : s.Holds c v) : s'.Holds c v := by
  rw [Holds, h]
  exact hs

theorem Holds.getStateObject_eq (hs : s.Holds c v) :
    ∃ o, s.getStateObject c = (some o, s) ∧ o.address = c ∧ o.deleted = false ∧ o.identity = v := by
  obtain ⟨o, ho, hdel, hid⟩ := hs
  exact ⟨o, getStateObject_of_live ho hdel, s.addresses_match c o ho, hdel, hid⟩

/-- An object a lookup of `b` finds is the account at `c` once its address turns out to be `c`. -/
theorem Holds.found (hs : s.Holds c v) {obj : StateObject} {s₁ : StateDB}
    (hg : s.getStateObject b = (some obj, s₁)) (hc : obj.address = c) :
    obj.deleted = false ∧ obj.identity = v := by
  have hb : b = c := (getStateObject_address (by rw [hg])).symm.trans hc
  subst hb
  obtain ⟨o, hget, -, hdel, hid⟩ := hs.getStateObject_eq
  rw [hget] at hg
  simp only [Prod.mk.injEq, Option.some.injEq] at hg
  obtain ⟨rfl, -⟩ := hg
  exact ⟨hdel, hid⟩

theorem Holds.getField (hs : s.Holds c v) {β : Type} (field : StateObject → β) (default : β) :
    ∃ o, s.getField c field default = (field o, s) ∧ o.identity = v := by
  obtain ⟨o, hget, -, -, hid⟩ := hs.getStateObject_eq
  exact ⟨o, by simp [StateDB.getField, hget], hid⟩

theorem Holds.getNonce_eq (hs : s.Holds c v) : s.getNonce c = (v.nonce, s) := by
  obtain ⟨o, h, hid⟩ := hs.getField (·.data.nonce) 0
  rw [StateDB.getNonce, h, ← hid]
  rfl

theorem Holds.getNonce (hs : s.Holds c v) : (s.getNonce c).1 = v.nonce := by
  rw [hs.getNonce_eq]

theorem Holds.getCodeHash (hs : s.Holds c v) : (s.getCodeHash c).1 = v.codeHash := by
  obtain ⟨o, h, hid⟩ := hs.getField (·.data.codeHash) 0
  rw [StateDB.getCodeHash, h, ← hid]
  rfl

theorem Holds.exist (hs : s.Holds c v) : (s.exist c).1 = true := by
  obtain ⟨o, h, -⟩ := hs.getField (fun _ => true) false
  rw [StateDB.exist, h]

/-- Writing an object keeps the account at `c` when it is at another address or keeps the
account's deletion mark and identity. -/
theorem Holds.setStateObject (hs : s.Holds c v) {obj : StateObject}
    (hobj : obj.address = c → obj.deleted = false ∧ obj.identity = v) :
    (s.setStateObject obj).Holds c v := by
  by_cases hc : obj.address = c
  · obtain ⟨hdel, hid⟩ := hobj hc
    exact ⟨obj, by simp [hc], hdel, hid⟩
  · exact hs.of_get? (by simp [SortedMap.get?_insert, Ne.symm hc])

theorem Holds.getStateObject (hs : s.Holds c v) (b : Address) :
    (s.getStateObject b).2.Holds c v := by
  by_cases hb : b = c
  · subst hb
    obtain ⟨o, hget, -⟩ := hs.getStateObject_eq
    rw [hget]
    exact hs
  · exact hs.of_get? (getStateObject_get?_ne (Ne.symm hb))

theorem Holds.getField_snd (hs : s.Holds c v) {β : Type} (b : Address) (field : StateObject → β)
    (default : β) : (s.getField b field default).2.Holds c v := by
  have h := hs.getStateObject b
  unfold StateDB.getField
  split <;> rename_i heq <;> rw [heq] at h <;> exact h

theorem Holds.createObject (hs : s.Holds c v) (hb : b ≠ c) : (s.createObject b).2.Holds c v := by
  have h₁ := hs.getStateObject b
  unfold StateDB.createObject
  rcases hget : s.getStateObject b with ⟨prev, s₁⟩
  rw [hget] at h₁
  refine Holds.setStateObject ?_ fun hc => absurd hc (by simp [newObject, StateObject.setNonce, hb])
  have h₂ : ((newObject b emptyAccountData).setNonce 0 s₁).2.Holds c v :=
    h₁.of_get? (by simp [StateObject.setNonce])
  split <;> exact h₂

theorem Holds.createAccount (hs : s.Holds c v) (hb : b ≠ c) : (s.createAccount b).Holds c v := by
  have h := hs.createObject hb
  have hfst := createObject_fst s b
  unfold StateDB.createAccount
  rcases hc : s.createObject b with ⟨⟨newobj, prev⟩, s₁⟩
  rw [hc] at h hfst
  cases prev with
  | none => exact h
  | some p =>
      dsimp only at hfst ⊢
      subst hfst
      obtain ⟨h1, -, -, h4⟩ := StateObject.keeps_setBalance p.data.balance
        { newObject b emptyAccountData with onDirty := false } s₁
      exact (h.of_get? (by rw [h4])).setStateObject fun hc' => absurd (h1.symm.trans hc') (by
        simpa [newObject] using hb)

/-- `GetOrNewStateObject` of a live account returns it; of any other address, the object it
returns is at that address. -/
theorem Holds.getOrNewStateObject (hs : s.Holds c v) (b : Address) :
    (s.getOrNewStateObject b).2.Holds c v ∧ (s.getOrNewStateObject b).1.address = b ∧
      (b = c → (s.getOrNewStateObject b).1.deleted = false ∧
        (s.getOrNewStateObject b).1.identity = v) := by
  refine ⟨?_, getOrNewStateObject_address s b, ?_⟩
  · by_cases hb : b = c
    · subst hb
      obtain ⟨o, hget, -, hdel, -⟩ := hs.getStateObject_eq
      simp only [StateDB.getOrNewStateObject, hget, hdel, Bool.false_eq_true, if_false]
      exact hs
    · have h₁ := hs.getStateObject b
      unfold StateDB.getOrNewStateObject
      rcases hget : s.getStateObject b with ⟨_ | obj, s₁⟩ <;> rw [hget] at h₁
      · exact h₁.createObject hb
      · dsimp only
        split
        · exact h₁.createObject hb
        · exact h₁
  · rintro rfl
    obtain ⟨o, hget, -, hdel, hid⟩ := hs.getStateObject_eq
    exact ⟨by simp [StateDB.getOrNewStateObject, hget, hdel], by
      simp [StateDB.getOrNewStateObject, hget, hdel, hid]⟩

theorem Holds.updateObject (hs : s.Holds c v) {f : StateObject → StateDB → StateObject × StateDB}
    (hf : StateObject.Keeps f) (b : Address) : (s.updateObject b f).Holds c v := by
  obtain ⟨h₁, haddr, hself⟩ := hs.getOrNewStateObject b
  unfold StateDB.updateObject
  rcases hg : s.getOrNewStateObject b with ⟨obj, s₁⟩
  rw [hg] at h₁ haddr hself
  obtain ⟨k1, k2, k3, k4⟩ := hf obj s₁
  refine (h₁.of_get? (by rw [k4])).setStateObject fun hc => ?_
  obtain ⟨hdel, hid⟩ := hself (by rw [← haddr, ← k1, hc])
  exact ⟨k2.trans hdel, k3.trans hid⟩

theorem Holds.updateObject_ne (hs : s.Holds c v) {f : StateObject → StateDB → StateObject × StateDB}
    (hf : ∀ o s, (f o s).1.address = o.address ∧ (f o s).2.stateObjects = s.stateObjects)
    (hb : b ≠ c) : (s.updateObject b f).Holds c v := by
  obtain ⟨h₁, haddr, -⟩ := hs.getOrNewStateObject b
  unfold StateDB.updateObject
  rcases hg : s.getOrNewStateObject b with ⟨obj, s₁⟩
  rw [hg] at h₁ haddr
  obtain ⟨k1, k2⟩ := hf obj s₁
  exact (h₁.of_get? (by rw [k2])).setStateObject fun hc => absurd (haddr ▸ k1 ▸ hc) hb

theorem Holds.addBalance (hs : s.Holds c v) (b : Address) (amount : Int) :
    (s.addBalance b amount).Holds c v :=
  hs.updateObject (StateObject.keeps_addBalance amount) b

theorem Holds.subBalance (hs : s.Holds c v) (b : Address) (amount : Int) :
    (s.subBalance b amount).Holds c v :=
  hs.updateObject (StateObject.keeps_subBalance amount) b

theorem Holds.addAssetBalance (hs : s.Holds c v) (b asset : Address) (amount : Int) :
    (s.addAssetBalance b asset amount).Holds c v :=
  hs.updateObject (StateObject.keeps_addAssetBalance asset amount) b

theorem Holds.setVoteList (hs : s.Holds c v) (b : Address) (voteList : Slice) :
    (s.setVoteList b voteList).Holds c v :=
  hs.updateObject (StateObject.keeps_setVoteListJournaled voteList) b

theorem Holds.setNonce (hs : s.Holds c v) (hb : b ≠ c) (nonce : Nat) :
    (s.setNonce b nonce).Holds c v :=
  hs.updateObject_ne (fun o s => by simp [StateObject.setNonceJournaled, StateObject.setNonce]) hb

theorem Holds.setCode (hs : s.Holds c v) (hb : b ≠ c) (codeHash : Hash) :
    (s.setCode b codeHash).Holds c v :=
  hs.updateObject_ne (fun o s => by simp [StateObject.setCodeJournaled, StateObject.setCode]) hb

theorem holds_setCode (s : StateDB) (b : Address) (codeHash : Hash) :
    ∃ v, v.codeHash = codeHash ∧ (s.setCode b codeHash).Holds b v := by
  have haddr := getOrNewStateObject_address s b
  have hdel : (s.getOrNewStateObject b).1.deleted = false := by
    unfold getOrNewStateObject
    split
    · split
      · rw [createObject_fst]; rfl
      · rename_i h; simpa using h
    · rw [createObject_fst]; rfl
  unfold setCode updateObject
  rcases hg : s.getOrNewStateObject b with ⟨obj, s₁⟩
  rw [hg] at haddr hdel
  dsimp only at haddr hdel ⊢
  refine ⟨(obj.setCodeJournaled codeHash s₁).1.identity, by simp [StateObject.setCodeJournaled,
    StateObject.setCode, StateObject.identity], _, ?_, ?_, rfl⟩
  · simp [StateObject.setCodeJournaled, StateObject.setCode, haddr]
  · simp [StateObject.setCodeJournaled, StateObject.setCode, hdel]

theorem Holds.subAssetBalance (hs : s.Holds c v) (b asset : Address) (amount : Int) :
    (s.subAssetBalance b asset amount).2.Holds c v := by
  obtain ⟨h₁, haddr, hself⟩ := hs.getOrNewStateObject b
  unfold StateDB.subAssetBalance
  rcases hg : s.getOrNewStateObject b with ⟨obj, s₁⟩
  rw [hg] at h₁ haddr hself
  obtain ⟨k1, k2, k3, k4⟩ := StateObject.keeps_subAssetBalance obj asset amount s₁
  refine (h₁.of_get? (by rw [k4])).setStateObject fun hc => ?_
  obtain ⟨hdel, hid⟩ := hself (by rw [← haddr, ← k1, hc])
  exact ⟨k2.trans hdel, k3.trans hid⟩

theorem Holds.addLockBalance (hs : s.Holds c v) {b : Address} {amount : Int} {s' : StateDB}
    (h : s.addLockBalance b amount = .ok s') : s'.Holds c v := by
  obtain ⟨h₁, haddr, hself⟩ := hs.getOrNewStateObject b
  unfold StateDB.addLockBalance at h
  rcases hg : s.getOrNewStateObject b with ⟨obj, s₁⟩
  rw [hg] at h₁ haddr hself h
  dsimp only at h
  rcases hm : obj.addLockBalance amount s₁ with p | r
  · rw [hm] at h
    cases h
  · rw [hm] at h
    injection h with h
    subst h
    obtain ⟨k1, k2, k3, k4⟩ := StateObject.keeps_addLockBalance hm
    refine (h₁.of_get? (by rw [k4])).setStateObject fun hc => ?_
    obtain ⟨hdel, hid⟩ := hself (by rw [← haddr, ← k1, hc])
    exact ⟨k2.trans hdel, k3.trans hid⟩

theorem Holds.suicide (hs : s.Holds c v) (b : Address) : (s.suicide b).2.Holds c v := by
  have h₁ := hs.getStateObject b
  unfold StateDB.suicide
  rcases hg : s.getStateObject b with ⟨_ | obj, s₁⟩ <;> rw [hg] at h₁
  · exact h₁
  · dsimp only
    obtain ⟨k1, k2, k3, k4⟩ := StateObject.keeps_markSuicided obj
      (s₁.appendJournal (.suicideChange b obj.suicided obj.data.balance))
    refine (h₁.of_get? (by rw [k4]; rfl)).setStateObject fun hc => ?_
    obtain ⟨hdel, hid⟩ := hs.found hg (k1.symm.trans hc)
    exact ⟨k2.trans hdel, by simpa [StateObject.identity] using k3.trans hid⟩

theorem Holds.addRefund (hs : s.Holds c v) (gas : Nat) : (s.addRefund gas).Holds c v := hs

theorem Holds.snapshot (hs : s.Holds c v) : s.snapshot.2.Holds c v := hs

theorem Holds.setNonce_self (hs : s.Holds c v) (nonce : Nat) :
    (s.setNonce c nonce).Holds c { v with nonce } ∧
      (s.setNonce c nonce).journal = s.journal.append (.nonceChange c v.nonce) := by
  obtain ⟨o, hget, haddr, hdel, hid⟩ := hs.getStateObject_eq
  have hgn : s.getOrNewStateObject c = (o, s) := by simp [StateDB.getOrNewStateObject, hget, hdel]
  unfold StateDB.setNonce StateDB.updateObject
  rw [hgn]
  dsimp only
  constructor
  · refine ⟨(o.setNonceJournaled nonce s).1, ?_, ?_, ?_⟩
    · simp [StateObject.setNonceJournaled, StateObject.setNonce, haddr]
    · simp [StateObject.setNonceJournaled, StateObject.setNonce, hdel]
    · rw [← hid]
      simp [StateObject.setNonceJournaled, StateObject.setNonce, StateObject.identity]
  · rw [← hid]
    simp [StateObject.setNonceJournaled, StateObject.setNonce, StateObject.identity, haddr]

theorem holds_of_getStateObject {obj : StateObject} {s' : StateDB}
    (h : s.getStateObject b = (some obj, s')) : s'.Holds b obj.identity := by
  unfold StateDB.getStateObject at h
  rcases hlive : s.stateObjects.get? b with _ | o <;> rw [hlive] at h <;> dsimp only at h
  · rcases htrie : s.trie.get? b with _ | acc <;> rw [htrie] at h
    · cases h
    · cases h
      exact ⟨_, by simp [newObject], rfl, rfl⟩
  · split at h
    · cases h
    · rename_i hdel
      cases h
      exact ⟨obj, hlive, by simpa using hdel, rfl⟩

/-! ## Undo and revert -/

theorem Holds.undoOnObject (hs : s.Holds c v) {f : StateObject → StateDB → StateObject × StateDB}
    (hf : StateObject.Keeps f) {s' : StateDB} (h : State.undoOnObject s b f = .ok s') : s'.Holds c v := by
  have h₁ := hs.getStateObject b
  unfold State.undoOnObject at h
  rcases hg : s.getStateObject b with ⟨_ | obj, s₁⟩ <;> rw [hg] at h h₁
  · cases h
  · cases h
    obtain ⟨k1, k2, k3, k4⟩ := hf obj s₁
    refine (h₁.of_get? (by rw [k4])).setStateObject fun hc => ?_
    obtain ⟨hdel, hid⟩ := hs.found hg (k1.symm.trans hc)
    exact ⟨k2.trans hdel, k3.trans hid⟩

theorem Holds.undoOnObject_ne (hs : s.Holds c v) {f : StateObject → StateDB → StateObject × StateDB}
    (hf : ∀ o s, (f o s).1.address = o.address ∧ (f o s).2.stateObjects = s.stateObjects)
    (hb : b ≠ c) {s' : StateDB} (h : State.undoOnObject s b f = .ok s') : s'.Holds c v := by
  have h₁ := hs.getStateObject b
  have haddr : ∀ obj, (s.getStateObject b).1 = some obj → obj.address = b :=
    fun _ h => getStateObject_address h
  unfold State.undoOnObject at h
  rcases hg : s.getStateObject b with ⟨_ | obj, s₁⟩ <;> rw [hg] at h h₁ haddr
  · cases h
  · cases h
    obtain ⟨k1, k2⟩ := hf obj s₁
    exact (h₁.of_get? (by rw [k2])).setStateObject fun hc =>
      absurd (by rw [← haddr obj rfl, ← k1, hc]) hb

theorem Holds.undo (hs : s.Holds c v) {e : JournalEntry} (he : e.Spares c) {s' : StateDB}
    (h : e.undo s = .ok s') : s'.Holds c v := by
  cases e with
  | createObjectChange b =>
      cases h
      exact hs.of_get? (by simp [dropStateObject, SortedMap.get?_erase, Ne.symm he])
  | resetObjectChange p =>
      cases h
      exact hs.setStateObject fun hc => absurd hc he
  | suicideChange b prev prevbalance =>
      have h₁ := hs.getStateObject b
      simp only [JournalEntry.undo] at h
      rcases hg : s.getStateObject b with ⟨_ | obj, s₁⟩ <;> rw [hg] at h h₁
      · cases h
        exact h₁
      · cases h
        obtain ⟨k1, k2, k3, k4⟩ := StateObject.keeps_setBalance prevbalance
          { obj with suicided := prev } s₁
        refine (h₁.of_get? (by rw [k4])).setStateObject fun hc => ?_
        obtain ⟨hdel, hid⟩ := hs.found hg (k1.symm.trans hc)
        exact ⟨k2.trans hdel, k3.trans hid⟩
  | balanceChange b prev => exact hs.undoOnObject (StateObject.keeps_setBalance prev) h
  | lockBalanceChange b prev => exact hs.undoOnObject (StateObject.keeps_setLockBalance prev) h
  | voteListChange b prev => exact hs.undoOnObject (StateObject.keeps_setVoteList prev) h
  | nonceChange b prev =>
      exact hs.undoOnObject_ne (StateObject.stays_tryMarkDirty (fun o => { o with data.nonce := prev })
        fun _ => rfl) he h
  | codeChange b prevhash =>
      exact hs.undoOnObject_ne (StateObject.stays_tryMarkDirty
        (fun o => { o with data.codeHash := prevhash }) fun _ => rfl) he h
  | assetDataChange b =>
      exact hs.undoOnObject_ne (StateObject.stays_tryMarkDirty
        (fun o => { o with data.assetHash := some 0 }) fun _ => rfl) he h
  | refundChange prev =>
      cases h
      exact hs
  | addLogChange txhash =>
      simp only [JournalEntry.undo] at h
      split_ifs at h <;> cases h <;> exact hs
  | touchChange b prev prevDirty =>
      have h₁ := hs.getStateObject b
      simp only [JournalEntry.undo] at h
      split at h
      · rcases hg : s.getStateObject b with ⟨_ | obj, s₁⟩ <;> rw [hg] at h h₁
        · cases h
        · have h₂ : (s₁.setStateObject { obj with touched := prev }).Holds c v :=
            h₁.setStateObject fun hc => by
              obtain ⟨hdel, hid⟩ := hs.found hg hc
              exact ⟨hdel, hid⟩
          dsimp only at h
          split at h <;> cases h
          · exact h₂
          · exact h₂
      · cases h
        exact hs
  | assetBalanceChange b asset amount preOpIsAdd =>
      exact hs.undoOnObject (StateObject.keeps_revertAssetBalance asset amount preOpIsAdd) h


/-! ## The journal after a mark -/

section Journal

variable {a : Address} {k i : Nat}

@[simp] theorem getStateObject_journal (s : StateDB) (b : Address) :
    (s.getStateObject b).2.journal = s.journal := by
  unfold StateDB.getStateObject
  split
  · rfl
  · split <;> rfl

@[simp] theorem getField_journal {β : Type} (s : StateDB) (b : Address) (field : StateObject → β)
    (default : β) : (s.getField b field default).2.journal = s.journal := by
  have h := getStateObject_journal s b
  unfold StateDB.getField
  split <;> rename_i heq <;> rw [heq] at h <;> exact h

theorem since_createObject (h : s.journal.Since (JournalEntry.Spares a) k i) (hb : b ≠ a) :
    (s.createObject b).2.journal.Since (JournalEntry.Spares a) k i := by
  have h₁ : (s.getStateObject b).2.journal.Since (JournalEntry.Spares a) k i := by
    rw [getStateObject_journal]
    exact h
  have haddr : ∀ p, (s.getStateObject b).1 = some p → p.address = b :=
    fun _ hp => getStateObject_address hp
  unfold StateDB.createObject
  rcases hg : s.getStateObject b with ⟨prev, s₁⟩
  rw [hg] at h₁ haddr
  simp only [setStateObject_journal, StateObject.setNonce]
  cases prev with
  | none => exact h₁.append hb
  | some p => exact h₁.append (show p.address ≠ a from haddr p rfl ▸ hb)

theorem since_createAccount (h : s.journal.Since (JournalEntry.Spares a) k i) (hb : b ≠ a) :
    (s.createAccount b).journal.Since (JournalEntry.Spares a) k i := by
  have h₁ := since_createObject h hb
  unfold StateDB.createAccount
  rcases hc : s.createObject b with ⟨⟨newobj, _ | p⟩, s₁⟩ <;> rw [hc] at h₁
  · exact h₁
  · simpa [StateObject.setBalance] using h₁

theorem Holds.since_getOrNewStateObject (hs : s.Holds a v)
    (h : s.journal.Since (JournalEntry.Spares a) k i) (b : Address) :
    (s.getOrNewStateObject b).2.journal.Since (JournalEntry.Spares a) k i := by
  by_cases hb : b = a
  · subst hb
    obtain ⟨o, hget, -, hdel, -⟩ := hs.getStateObject_eq
    simpa [StateDB.getOrNewStateObject, hget, hdel] using h
  · have h₁ : (s.getStateObject b).2.journal.Since (JournalEntry.Spares a) k i := by
      rw [getStateObject_journal]
      exact h
    unfold StateDB.getOrNewStateObject
    rcases hg : s.getStateObject b with ⟨_ | obj, s₁⟩ <;> rw [hg] at h₁
    · exact since_createObject h₁ hb
    · dsimp only
      split
      · exact since_createObject h₁ hb
      · exact h₁

theorem Holds.since_updateObject (hs : s.Holds a v) (h : s.journal.Since (JournalEntry.Spares a) k i)
    {f : StateObject → StateDB → StateObject × StateDB} (hf : StateObject.Spares a f) (b : Address) :
    (s.updateObject b f).journal.Since (JournalEntry.Spares a) k i := by
  have h₁ := hs.since_getOrNewStateObject h b
  unfold StateDB.updateObject
  rcases hg : s.getOrNewStateObject b with ⟨obj, s₁⟩
  rw [hg] at h₁
  exact hf obj s₁ h₁

/-- `SetNonce` and `SetCode` of another address journal that address. -/
theorem Holds.since_updateObject_ne (hs : s.Holds a v)
    (h : s.journal.Since (JournalEntry.Spares a) k i) {e : StateObject → JournalEntry}
    (he : ∀ o, o.address ≠ a → (e o).Spares a) (g : StateObject → StateObject) (hb : b ≠ a) :
    (s.updateObject b fun o s => (g o).tryMarkDirty (s.appendJournal (e o))).journal.Since
      (JournalEntry.Spares a) k i := by
  have h₁ := hs.since_getOrNewStateObject h b
  have haddr := getOrNewStateObject_address s b
  unfold StateDB.updateObject
  rcases hg : s.getOrNewStateObject b with ⟨obj, s₁⟩
  rw [hg] at h₁ haddr
  simp only [setStateObject_journal, StateObject.tryMarkDirty_journal, appendJournal_journal]
  exact h₁.append (he obj (haddr ▸ hb))

end Journal

/-- The frame of a sender `a`, live with identity `v`, opened at journal length `k` and revision
id `i`: every entry since spares `a`. -/
structure SenderFrame (a : Address) (v : Identity) (k i : Nat) (s : StateDB) : Prop where
  holds : s.Holds a v
  journal : s.journal.Since (JournalEntry.Spares a) k i

namespace SenderFrame

variable {a : Address} {k i : Nat}

theorem mark (hs : s.Holds a v) :
    SenderFrame a v s.journal.entries.length s.journal.nextRevisionId s :=
  ⟨hs, Journal.Since.mark _ s.journal⟩

theorem getField (h : SenderFrame a v k i s) {β : Type} (b : Address) (field : StateObject → β)
    (default : β) : SenderFrame a v k i (s.getField b field default).2 :=
  ⟨h.holds.getField_snd b field default, by rw [getField_journal]; exact h.journal⟩

theorem createAccount (h : SenderFrame a v k i s) (hb : b ≠ a) :
    SenderFrame a v k i (s.createAccount b) :=
  ⟨h.holds.createAccount hb, since_createAccount h.journal hb⟩

theorem addBalance (h : SenderFrame a v k i s) (b : Address) (amount : Int) :
    SenderFrame a v k i (s.addBalance b amount) :=
  ⟨h.holds.addBalance b amount,
    h.holds.since_updateObject h.journal (StateObject.spares_addBalance a amount) b⟩

theorem subBalance (h : SenderFrame a v k i s) (b : Address) (amount : Int) :
    SenderFrame a v k i (s.subBalance b amount) :=
  ⟨h.holds.subBalance b amount,
    h.holds.since_updateObject h.journal (StateObject.spares_subBalance a amount) b⟩

theorem addAssetBalance (h : SenderFrame a v k i s) (b asset : Address) (amount : Int) :
    SenderFrame a v k i (s.addAssetBalance b asset amount) :=
  ⟨h.holds.addAssetBalance b asset amount,
    h.holds.since_updateObject h.journal (StateObject.spares_addAssetBalance a asset amount) b⟩

theorem subAssetBalance (h : SenderFrame a v k i s) (b asset : Address) (amount : Int) :
    SenderFrame a v k i (s.subAssetBalance b asset amount).2 := by
  refine ⟨h.holds.subAssetBalance b asset amount, ?_⟩
  have h₁ := h.holds.since_getOrNewStateObject h.journal b
  unfold StateDB.subAssetBalance
  rcases hg : s.getOrNewStateObject b with ⟨obj, s₁⟩
  rw [hg] at h₁
  dsimp only
  unfold StateObject.subAssetBalance
  split
  · split
    · simpa using h₁.append (e := .assetBalanceChange obj.address asset amount false) trivial
    · exact h₁

theorem setNonce (h : SenderFrame a v k i s) (hb : b ≠ a) (nonce : Nat) :
    SenderFrame a v k i (s.setNonce b nonce) :=
  ⟨h.holds.setNonce hb nonce, h.holds.since_updateObject_ne h.journal
    (e := fun o => .nonceChange o.address o.data.nonce) (fun _ ho => ho) _ hb⟩

theorem setCode (h : SenderFrame a v k i s) (hb : b ≠ a) (codeHash : Hash) :
    SenderFrame a v k i (s.setCode b codeHash) :=
  ⟨h.holds.setCode hb codeHash, h.holds.since_updateObject_ne h.journal
    (e := fun o => .codeChange o.address o.data.codeHash) (fun _ ho => ho) _ hb⟩

theorem suicide (h : SenderFrame a v k i s) (b : Address) : SenderFrame a v k i (s.suicide b).2 := by
  refine ⟨h.holds.suicide b, ?_⟩
  have h₁ : (s.getStateObject b).2.journal.Since (JournalEntry.Spares a) k i := by
    rw [getStateObject_journal]
    exact h.journal
  unfold StateDB.suicide
  rcases hg : s.getStateObject b with ⟨_ | obj, s₁⟩ <;> rw [hg] at h₁
  · exact h₁
  · simpa [StateObject.markSuicided] using
      h₁.append (e := .suicideChange b obj.suicided obj.data.balance) trivial

theorem addRefund (h : SenderFrame a v k i s) (gas : Nat) : SenderFrame a v k i (s.addRefund gas) :=
  ⟨h.holds.addRefund gas, h.journal.append trivial⟩

theorem snapshot (h : SenderFrame a v k i s) : SenderFrame a v k i s.snapshot.2 :=
  ⟨h.holds.snapshot, h.journal.snapshot⟩

theorem le_snapshot (h : SenderFrame a v k i s) : i ≤ s.snapshot.1 := h.journal.next

theorem revertToSnapshot (h : SenderFrame a v k i s) {revid : Nat} (hid : i ≤ revid) {s' : StateDB}
    (hr : s.revertToSnapshot revid = .ok s') : SenderFrame a v k i s' := by
  unfold StateDB.revertToSnapshot at hr
  rcases hj : s.journal.revert? revid with _ | ⟨undone, j⟩ <;> rw [hj] at hr <;> dsimp only at hr
  · cases hr
  · obtain ⟨hundone, hj'⟩ := h.journal.revert hid hj
    rcases hu : Journal.undoAll JournalEntry.undo undone s with p | s₁ <;>
      rw [hu] at hr <;> simp only [Except.map] at hr
    · cases hr
    · cases hr
      have hs₁ : s₁.Holds a v :=
        Journal.undoAll_invariant (Q := fun s => s.Holds a v)
          (fun e he _ _ hs hundo => hs.undo (hundone e he) hundo) h.holds hu
      exact ⟨hs₁, hj'⟩

end SenderFrame

end StateDB

end AuroraChain.State
