import AuroraChain.DelegateState.Ranking
import AuroraChain.DelegateState.Revert
import AuroraChain.Lib.Footprint
/-!
# What one delegate call touches

Each call the vote processing makes names one address and reads and writes the database there
only: the committed record and the live object of that address (`slot`). In the terms of
`Lib/Footprint`, every such call is local to its address. The journal and the dirty set change
as well, but no lookup reads them.
-/

namespace AuroraChain.DelegateState

open Footprint

namespace DelegateDB

/-- What the database holds for one address: the committed record and the live object. -/
def slot (d : DelegateDB) (a : Address) : Option Delegate × Option DelegateObject :=
  (d.trie.get? a, d.delegateObjects.get? a)

@[simp] theorem slot_markStateObjectDirty (d : DelegateDB) (b : Address) :
    (d.markStateObjectDirty b).slot = d.slot := rfl

@[simp] theorem slot_appendJournal (d : DelegateDB) (e : JournalEntry) :
    (d.appendJournal e).slot = d.slot := rfl

theorem slot_setStateObject (d : DelegateDB) (o : DelegateObject) (k : Address) :
    (d.setStateObject o).slot k = if k = o.address then (d.trie.get? k, some o) else d.slot k := by
  simp only [slot, setStateObject_trie, setStateObject_delegateObjects, SortedMap.get?_insert]
  split_ifs <;> rfl

theorem slot_eq_iff {d₁ d₂ : DelegateDB} {a : Address} :
    d₁.slot a = d₂.slot a ↔
      d₁.trie.get? a = d₂.trie.get? a ∧ d₁.delegateObjects.get? a = d₂.delegateObjects.get? a :=
  Prod.ext_iff

theorem setStateObject_local {a : Address} (o : DelegateObject) (ho : o.address = a) :
    Local slot a fun d => ((), d.setStateObject o) where
  frame d k hk := by rw [slot_setStateObject, ho, if_neg hk]
  result _ _ _ := rfl
  at_key d₁ d₂ h := by
    rw [slot_setStateObject, slot_setStateObject, ho, if_pos rfl, if_pos rfl,
      (slot_eq_iff.mp h).1]

theorem getStateObjectContainDelete_local (a : Address) :
    Local slot a fun d => d.getStateObjectContainDelete a where
  frame d k hk := by
    unfold getStateObjectContainDelete
    split
    · rfl
    · split
      · rfl
      · simp only [newObject]
        rw [slot_setStateObject, if_neg hk]
        rfl
  result d₁ d₂ h := by
    obtain ⟨htrie, hlive⟩ := slot_eq_iff.mp h
    unfold getStateObjectContainDelete
    rw [hlive, htrie]
    cases d₂.delegateObjects.get? a with
    | some obj => rfl
    | none => cases d₂.trie.get? a <;> rfl
  at_key d₁ d₂ h := by
    obtain ⟨htrie, hlive⟩ := slot_eq_iff.mp h
    unfold getStateObjectContainDelete
    rw [hlive, htrie]
    cases d₂.delegateObjects.get? a with
    | some obj => exact h
    | none =>
        cases d₂.trie.get? a with
        | none => exact h
        | some data =>
            simp only [newObject]
            rw [slot_setStateObject, slot_setStateObject, if_pos rfl, if_pos rfl]
            exact congrArg (·, _) htrie

theorem getStateObjectContainDelete_address (d : DelegateDB) (a : Address) :
    ∀ o ∈ (d.getStateObjectContainDelete a).1, o.address = a := by
  intro o ho
  unfold getStateObjectContainDelete at ho
  split at ho
  · rename_i obj hlive
    cases ho
    exact d.addresses_match a _ hlive
  · split at ho
    · cases ho
    · cases ho
      rfl

theorem getStateObject_local (a : Address) : Local slot a fun d => d.getStateObject a where
  frame d k hk := by
    unfold getStateObject
    split
    · rfl
    · exact (getStateObjectContainDelete_local a).frame d k hk
  result d₁ d₂ h := by
    unfold getStateObject
    rw [(slot_eq_iff.mp h).2]
    cases d₂.delegateObjects.get? a with
    | some obj => rfl
    | none => exact (getStateObjectContainDelete_local a).result d₁ d₂ h
  at_key d₁ d₂ h := by
    unfold getStateObject
    rw [(slot_eq_iff.mp h).2]
    cases d₂.delegateObjects.get? a with
    | some obj => exact h
    | none => exact (getStateObjectContainDelete_local a).at_key d₁ d₂ h

theorem getStateObject_address (d : DelegateDB) (a : Address) :
    ∀ o ∈ (d.getStateObject a).1, o.address = a := by
  intro o ho
  unfold getStateObject at ho
  split at ho
  · rename_i obj hlive
    split_ifs at ho
    · simp at ho
    · obtain rfl : obj = o := by simpa using ho
      exact d.addresses_match a obj hlive
  · exact getStateObjectContainDelete_address d a o ho

theorem exist_local (a : Address) : Local slot a fun d => d.exist a :=
  (getStateObject_local a).map Option.isSome

theorem subExist_local (a : Address) : Local slot a fun d => d.subExist a :=
  (getStateObjectContainDelete_local a).map Option.isSome

theorem getVote_eq (d : DelegateDB) (a : Address) :
    d.getVote a = (match (d.getStateObjectContainDelete a).1 with
      | none => 0
      | some obj => obj.data.vote, (d.getStateObjectContainDelete a).2) := by
  unfold getVote
  rcases d.getStateObjectContainDelete a with ⟨_ | obj, d'⟩ <;> rfl

theorem getVote_local (a : Address) : Local slot a fun d => d.getVote a := by
  simp only [getVote_eq]
  exact (getStateObjectContainDelete_local a).map fun x => match x with
    | none => 0
    | some obj => obj.data.vote

end DelegateDB

namespace DelegateObject

theorem Frame.slot_eq {o : DelegateObject} {d : DelegateDB} {r : DelegateObject × DelegateDB}
    (hf : Frame o d r) : r.2.slot = d.slot := by
  funext k
  simp only [DelegateDB.slot, hf.trie, hf.live]

/-- An object method is local to any address: it leaves every slot alone, and the object it
returns does not depend on the database. -/
theorem method_local {o : DelegateObject} {change : DelegateDB → DelegateObject × DelegateDB}
    (k : Address) (hf : ∀ d, Frame o d (change d))
    (hresult : ∀ d₁ d₂, (change d₁).1 = (change d₂).1) : Local DelegateDB.slot k change :=
  Local.of_view k hresult fun d => (hf d).slot_eq

theorem tryMarkDirty_fst_eq (o : DelegateObject) (d₁ d₂ : DelegateDB) :
    (o.tryMarkDirty d₁).1 = (o.tryMarkDirty d₂).1 := by
  unfold tryMarkDirty
  split <;> rfl

theorem setVote_fst_eq (o : DelegateObject) (amount : Int) (d₁ d₂ : DelegateDB) :
    (o.setVote amount d₁).1 = (o.setVote amount d₂).1 :=
  tryMarkDirty_fst_eq _ d₁ d₂

theorem touch_fst_eq (o : DelegateObject) (d₁ d₂ : DelegateDB) :
    (o.touch d₁).1 = (o.touch d₂).1 :=
  congrArg (fun o' => { o' with touched := true }) (tryMarkDirty_fst_eq o _ _)

theorem addVote_fst_eq (o : DelegateObject) (amount : Int) (d₁ d₂ : DelegateDB) :
    (o.addVote amount d₁).1 = (o.addVote amount d₂).1 := by
  unfold addVote
  split_ifs
  · exact touch_fst_eq o d₁ d₂
  · rfl
  · exact setVote_fst_eq o _ d₁ d₂

theorem subVote_fst_eq (o : DelegateObject) (amount : Int) (d₁ d₂ : DelegateDB) :
    (o.subVote amount d₁).1 = (o.subVote amount d₂).1 := by
  unfold subVote
  split_ifs
  · rfl
  · dsimp only
    split_ifs
    · exact setVote_fst_eq o 0 d₁ d₂
    · exact setVote_fst_eq o _ d₁ d₂

theorem tryMarkDirty_local (o : DelegateObject) (k : Address) :
    Local DelegateDB.slot k fun d => o.tryMarkDirty d :=
  method_local k (tryMarkDirty_frame o) (tryMarkDirty_fst_eq o)

theorem setVote_address (o : DelegateObject) (amount : Int) (d : DelegateDB) :
    (o.setVote amount d).1.address = o.address :=
  tryMarkDirty_address _ d

theorem addVote_address (o : DelegateObject) (amount : Int) (d : DelegateDB) :
    (o.addVote amount d).1.address = o.address := by
  unfold addVote
  split_ifs
  · exact tryMarkDirty_address o _
  · rfl
  · exact setVote_address o _ d

theorem subVote_address (o : DelegateObject) (amount : Int) (d : DelegateDB) :
    (o.subVote amount d).1.address = o.address := by
  unfold subVote
  split_ifs
  · rfl
  · dsimp only
    split_ifs
    · exact setVote_address o 0 d
    · exact setVote_address o _ d

end DelegateObject

namespace DelegateDB

theorem changeVote_eq {lookup : DelegateDB → Address → Option DelegateObject × DelegateDB}
    {change : DelegateObject → Int → DelegateDB → DelegateObject × DelegateDB}
    (d : DelegateDB) (a : Address) (amount : Int) :
    changeVote lookup change d a amount = match (lookup d a).1 with
      | none => (lookup d a).2
      | some obj =>
          ((change obj amount (lookup d a).2).1.tryMarkDirty
            (change obj amount (lookup d a).2).2).2.setStateObject
          ((change obj amount (lookup d a).2).1.tryMarkDirty
            (change obj amount (lookup d a).2).2).1 := by
  unfold changeVote
  rcases lookup d a with ⟨_ | obj, d'⟩ <;> rfl

/-- `AddVote`, `SubVote` and `SetVote` are local to their address when the lookup is, returns the
object of that address, and the object method keeps the object's address. -/
theorem changeVote_local {lookup : DelegateDB → Address → Option DelegateObject × DelegateDB}
    {change : DelegateObject → Int → DelegateDB → DelegateObject × DelegateDB}
    (hlookup : ∀ a, Local slot a fun d => lookup d a)
    (haddress : ∀ d a, ∀ o ∈ (lookup d a).1, o.address = a)
    (hchange : ∀ o x k, Local slot k fun d => change o x d)
    (hchangeAddress : ∀ o x d, (change o x d).1.address = o.address)
    (a : Address) (amount : Int) : Local slot a fun d => ((), changeVote lookup change d a amount) := by
  simp only [changeVote_eq]
  refine (hlookup a).bind (fun x d => ((), match x with
    | none => d
    | some obj =>
        ((change obj amount d).1.tryMarkDirty (change obj amount d).2).2.setStateObject
          ((change obj amount d).1.tryMarkDirty (change obj amount d).2).1))
    (fun x => ∀ o ∈ x, o.address = a) (fun d => haddress d a) ?_
  intro x hx
  cases x with
  | none => exact Local.pure a ()
  | some obj =>
      refine (hchange obj amount a).bind
        (fun o d => ((), (o.tryMarkDirty d).2.setStateObject (o.tryMarkDirty d).1))
        (fun o => o.address = a) (fun d => (hchangeAddress obj amount d).trans (hx obj rfl))
        fun o ho => ?_
      exact (DelegateObject.tryMarkDirty_local o a).bind (fun o' d => ((), d.setStateObject o'))
        (fun o' => o'.address = a) (fun d => (DelegateObject.tryMarkDirty_address o d).trans ho)
        fun o' ho' => setStateObject_local o' ho'

theorem addVote_local (a : Address) (amount : Int) :
    Local slot a fun d => ((), d.addVote a amount) :=
  changeVote_local getStateObject_local getStateObject_address
    (fun o x k => DelegateObject.method_local k (DelegateObject.addVote_frame o x)
      (DelegateObject.addVote_fst_eq o x))
    DelegateObject.addVote_address a amount

theorem subVote_local (a : Address) (amount : Int) :
    Local slot a fun d => ((), d.subVote a amount) :=
  changeVote_local getStateObjectContainDelete_local getStateObjectContainDelete_address
    (fun o x k => DelegateObject.method_local k (DelegateObject.subVote_frame o x)
      (DelegateObject.subVote_fst_eq o x))
    DelegateObject.subVote_address a amount

/-- Writing back an object of address `a` after bookkeeping that no slot shows. -/
theorem setStateObject_after_local {α : Type} {a : Address} (o : DelegateObject)
    (ho : o.address = a) (J : DelegateDB → DelegateDB) (hJ : ∀ d, (J d).slot = d.slot) (c : α) :
    Local slot a fun d => (c, (J d).setStateObject o) where
  frame d k hk := by rw [slot_setStateObject, ho, if_neg hk, hJ]
  result _ _ _ := rfl
  at_key d₁ d₂ h := by
    rw [slot_setStateObject, slot_setStateObject, ho, if_pos rfl, if_pos rfl]
    have htrie := (slot_eq_iff.mp (((congrFun (hJ d₁) a)).trans (h.trans (congrFun (hJ d₂) a).symm))).1
    rw [htrie]

theorem createObject_eq (d : DelegateDB) (a : Address) (nickname : String) (registerTime : Nat) :
    d.createObject a nickname registerTime =
      let data : Delegate := { root := ∅, vote := 0, nickname, registerTime, delete := false }
      let d₁ := (d.getStateObject a).2
      (((d₁.newObject a data).1, (d.getStateObject a).1),
        (match (d.getStateObject a).1 with
          | none => (d₁.newObject a data).2.appendJournal (.createObjectChange a)
          | some p => (d₁.newObject a data).2.appendJournal (.resetObjectChange p)).setStateObject
          (d₁.newObject a data).1) := by
  unfold createObject
  rcases d.getStateObject a with ⟨_ | p, d'⟩ <;> rfl

theorem createObject_local (a : Address) (nickname : String) (registerTime : Nat) :
    Local slot a fun d => d.createObject a nickname registerTime := by
  -- the journal entry depends on what the lookup found, but no slot shows the journal
  have hjournal : ∀ (p : Option DelegateObject) (x : DelegateDB),
      (match p with
        | none => x.appendJournal (.createObjectChange a)
        | some q => x.appendJournal (.resetObjectChange q)).slot = x.slot := by
    intro p x
    cases p <;> rfl
  constructor
  · intro d k hk
    simp only [createObject_eq, newObject]
    rw [slot_setStateObject, if_neg hk, hjournal, slot_markStateObjectDirty]
    exact (getStateObject_local a).frame d k hk
  · intro d₁ d₂ h
    simp only [createObject_eq, (getStateObject_local a).result d₁ d₂ h]
    rfl
  · intro d₁ d₂ h
    have htrie := (slot_eq_iff.mp ((getStateObject_local a).at_key d₁ d₂ h)).1
    simp only [createObject_eq, newObject]
    rw [slot_setStateObject, slot_setStateObject, if_pos rfl, if_pos rfl]
    cases (d₁.getStateObject a).1 <;> cases (d₂.getStateObject a).1 <;>
      simpa only [setStateObject_trie, markStateObjectDirty_trie, appendJournal_trie] using
        congrArg (·, _) htrie

theorem getOrNewStateObject_eq (d : DelegateDB) (a : Address) (nickname : String)
    (registerTime : Nat) :
    d.getOrNewStateObject a nickname registerTime =
      match (d.getStateObjectContainDelete a).1 with
      | none => (((d.getStateObjectContainDelete a).2.createObject a nickname registerTime).1.1,
          ((d.getStateObjectContainDelete a).2.createObject a nickname registerTime).2)
      | some obj =>
          if obj.data.delete then
            (((d.getStateObjectContainDelete a).2.createObject a nickname registerTime).1.1,
              ((d.getStateObjectContainDelete a).2.createObject a nickname registerTime).2.addVote a
                obj.data.vote)
          else (obj, (d.getStateObjectContainDelete a).2) := by
  unfold getOrNewStateObject
  rcases d.getStateObjectContainDelete a with ⟨_ | obj, d'⟩ <;> rfl

theorem getOrNewStateObject_local (a : Address) (nickname : String) (registerTime : Nat) :
    Local slot a fun d => d.getOrNewStateObject a nickname registerTime := by
  simp only [getOrNewStateObject_eq]
  refine (getStateObjectContainDelete_local a).bind (fun x d => match x with
      | none => ((d.createObject a nickname registerTime).1.1,
          (d.createObject a nickname registerTime).2)
      | some obj =>
          if obj.data.delete then
            ((d.createObject a nickname registerTime).1.1,
              (d.createObject a nickname registerTime).2.addVote a obj.data.vote)
          else (obj, d))
    (fun _ => True) (fun _ => trivial) fun x _ => ?_
  cases x with
  | none => exact (createObject_local a nickname registerTime).map Prod.fst
  | some obj =>
      by_cases hdelete : obj.data.delete
      · -- a cancelled delegate: a fresh record, then its old votes back
        simp only [hdelete, if_true]
        exact (createObject_local a nickname registerTime).bind
          (fun r d => (r.1, d.addVote a obj.data.vote)) (fun _ => True) (fun _ => trivial)
          fun r _ => (addVote_local a obj.data.vote).map fun _ => r.1
      · simp only [hdelete]
        exact Local.pure a obj

theorem suicide_eq (d : DelegateDB) (a : Address) :
    d.suicide a = match (d.getStateObject a).1 with
      | none => (false, (d.getStateObject a).2)
      | some obj =>
          (true, ({ obj with data.delete := true }.tryMarkDirty ((d.getStateObject a).2.appendJournal
              (.suicideChange a obj.suicided obj.data.vote))).2.setStateObject
            ({ obj with data.delete := true }.tryMarkDirty ((d.getStateObject a).2.appendJournal
              (.suicideChange a obj.suicided obj.data.vote))).1) := by
  unfold suicide
  rcases d.getStateObject a with ⟨_ | obj, d'⟩ <;> rfl

theorem suicide_local (a : Address) : Local slot a fun d => d.suicide a := by
  simp only [suicide_eq]
  refine (getStateObject_local a).bind (fun x d => match x with
      | none => (false, d)
      | some obj =>
          (true, ({ obj with data.delete := true }.tryMarkDirty
              (d.appendJournal (.suicideChange a obj.suicided obj.data.vote))).2.setStateObject
            ({ obj with data.delete := true }.tryMarkDirty
              (d.appendJournal (.suicideChange a obj.suicided obj.data.vote))).1))
    (fun x => ∀ o ∈ x, o.address = a)
    (fun d => getStateObject_address d a) fun x hx => ?_
  cases x with
  | none => exact Local.pure a false
  | some obj =>
      have hmark : Local slot a fun d => { obj with data.delete := true }.tryMarkDirty
          (d.appendJournal (.suicideChange a obj.suicided obj.data.vote)) :=
        DelegateObject.method_local a
          (fun d => by
            have h := DelegateObject.tryMarkDirty_frame { obj with data.delete := true }
              (d.appendJournal (.suicideChange a obj.suicided obj.data.vote))
            exact ⟨h.deleted, h.suicided, h.trie, h.live⟩)
          (fun _ _ => DelegateObject.tryMarkDirty_fst_eq _ _ _)
      exact hmark.bind (fun o d => (true, d.setStateObject o)) (fun o => o.address = a)
        (fun d => (DelegateObject.tryMarkDirty_address { obj with data.delete := true } _).trans
          (hx obj rfl))
        fun o ho => setStateObject_after_local o ho id (fun _ => rfl) true

end DelegateDB

end AuroraChain.DelegateState
