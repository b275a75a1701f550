import AuroraChain.State.StateDB
/-!
# What reverting to a snapshot gives back

`RevertToSnapshot` runs the undo of every journal entry made after the snapshot, newest first.
Most entries restore the field they saved. An asset change is undone by the inverse operation
instead: an `AddAssetBalance` by `SubAsset` of the same amount. `SubAsset` drops an entry that
reaches zero, so an add made to an entry holding zero is undone by removing the entry, and the
account's `GetAssets` no longer lists the asset (`revert_addAssetBalance_assets`). A transfer of
zero units of an asset makes such an entry at the recipient.
-/

namespace AuroraChain.State

namespace Assets

theorem subAsset_of_get {as : Assets} {id : Address} {amount balance : Int}
    (hget : as.get? id = some balance) (hle : amount ≤ balance) :
    as.subAsset id amount =
      (true, if balance - amount = 0 then as.erase id else as.insert id (balance - amount)) := by
  simp [subAsset, hget, hle]

/-- Undoing an add with the matching sub gives the list back, except a zero entry, which the sub
drops. -/
theorem subAsset_addAsset (as : Assets) (id : Address) (amount : Int)
    (hnonneg : ∀ b, as.get? id = some b → 0 ≤ b) :
    (as.addAsset id amount).subAsset id amount =
      (true, if as.get? id = some 0 then as.erase id else as) := by
  unfold addAsset
  cases hget : as.get? id with
  | none =>
      have hins : (as.insert id amount).get? id = some amount := by simp
      rw [subAsset_of_get hins (Int.le_refl amount), if_pos (Int.sub_self amount)]
      simp only [reduceCtorEq, if_false, Prod.mk.injEq, true_and]
      apply SortedMap.ext
      intro x
      simp only [SortedMap.get?_erase, SortedMap.get?_insert]
      split_ifs with hx
      · rw [hx, hget]
      · rfl
  | some b =>
      have hb := hnonneg b hget
      have hins : (as.insert id (b + amount)).get? id = some (b + amount) := by simp
      rw [subAsset_of_get hins (by omega), Int.add_sub_cancel]
      by_cases hzero : b = 0
      · subst hzero
        simp only [if_true, Prod.mk.injEq, true_and]
        apply SortedMap.ext
        intro x
        simp only [SortedMap.get?_erase, SortedMap.get?_insert]
        split_ifs <;> rfl
      · simp only [if_neg hzero, Option.some.injEq, Prod.mk.injEq, true_and]
        apply SortedMap.ext
        intro x
        simp only [SortedMap.get?_insert]
        split_ifs with hx
        · rw [hx, hget]
        · rfl

end Assets

namespace StateDB

/-- Reverting to a snapshot after which the journal received the entries `es` runs their undos and
nothing else. -/
theorem revertToSnapshot_snapshot {s s' s'' : StateDB} {es : List JournalEntry}
    (hjournal : s'.journal = s.snapshot.2.journal.appendAll es)
    (hundo : Journal.undoAll JournalEntry.undo es s' = .ok s'') :
    ∃ j, s'.revertToSnapshot s.snapshot.1 = .ok { s'' with journal := j } := by
  obtain ⟨j, hrev, -, -⟩ := Journal.revert?_snapshot_appendAll s.journal es
  refine ⟨j, ?_⟩
  have hrev' : s'.journal.revert? s.snapshot.1 = some (es, j) := by
    rw [hjournal]
    exact hrev
  simp only [revertToSnapshot, hrev', hundo]
  rfl

/-- A setter on a live account: the object's method, then the object written back. -/
theorem updateObject_live {s : StateDB} {addr : Address} {obj : StateObject}
    {f : StateObject → StateDB → StateObject × StateDB}
    (hobj : s.stateObjects.get? addr = some obj) (hdeleted : obj.deleted = false) :
    s.updateObject addr f = (f obj s).2.setStateObject (f obj s).1 := by
  simp only [updateObject, getOrNewStateObject, getStateObject_of_live hobj hdeleted, hdeleted,
    Bool.false_eq_true, if_false]

/-- `AddAssetBalance` on a live account journals one entry and changes only its asset list. -/
theorem addAssetBalance_live {s : StateDB} {addr : Address} {obj : StateObject}
    (asset : Address) (amount : Int) (hobj : s.stateObjects.get? addr = some obj) (hdeleted : obj.deleted = false) :
    (s.addAssetBalance addr asset amount).journal =
        s.journal.appendAll [.assetBalanceChange addr asset amount true] ∧
      (s.addAssetBalance addr asset amount).stateObjects.get? addr =
        some { obj with data.assetList := obj.data.assetList.addAsset asset amount,
                        onDirty := false } := by
  have haddr : obj.address = addr := s.addresses_match addr obj hobj
  rw [addAssetBalance, updateObject_live hobj hdeleted]
  simp [StateObject.addAssetBalance, haddr, Journal.appendAll]

/-- The undo of an asset change applies the inverse operation to the live account. -/
theorem undo_assetBalanceChange_live {s : StateDB} {addr : Address} {obj : StateObject}
    (asset : Address) (amount : Int) (preOpIsAdd : Bool) (hobj : s.stateObjects.get? addr = some obj)
    (hdeleted : obj.deleted = false) :
    ∃ s', (JournalEntry.assetBalanceChange addr asset amount preOpIsAdd).undo s = .ok s' ∧
      s'.stateObjects.get? addr =
        some { obj with
          data.assetList := if preOpIsAdd then (obj.data.assetList.subAsset asset amount).2
            else obj.data.assetList.addAsset asset amount,
          onDirty := false } := by
  have haddr : obj.address = addr := s.addresses_match addr obj hobj
  simp only [JournalEntry.undo, undoOnObject, getStateObject_of_live hobj hdeleted]
  refine ⟨_, rfl, ?_⟩
  simp [StateObject.revertAssetBalance, haddr]

/-- Reverting an `AddAssetBalance` on a live account gives its asset list back, except an entry
of zero, which the inverse subtraction drops; every getter of the assets reads that list. -/
theorem revert_addAssetBalance_assets {s : StateDB} {addr asset : Address} {obj : StateObject}
    (amount : Int) (hobj : s.stateObjects.get? addr = some obj) (hdeleted : obj.deleted = false)
    (hnonneg : ∀ b, obj.data.assetList.get? asset = some b → 0 ≤ b) :
    ∃ s', (s.snapshot.2.addAssetBalance addr asset amount).revertToSnapshot s.snapshot.1 = .ok s' ∧
      ∀ {β : Type} (field : Assets → β) (default : β),
        (s'.getField addr (fun o => field o.data.assetList) default).1 =
          field (if obj.data.assetList.get? asset = some 0 then
            obj.data.assetList.erase asset else obj.data.assetList) := by
  have hobj' : s.snapshot.2.stateObjects.get? addr = some obj := by
    rw [snapshot_stateObjects]
    exact hobj
  obtain ⟨hjournal, hlive⟩ := addAssetBalance_live asset amount hobj' hdeleted
  obtain ⟨s'', hundo, hlive''⟩ := undo_assetBalanceChange_live asset amount true hlive
    (by simp [hdeleted])
  have hundoAll : Journal.undoAll JournalEntry.undo [.assetBalanceChange addr asset amount true]
      (s.snapshot.2.addAssetBalance addr asset amount) = .ok s'' := by
    simp only [Journal.undoAll, hundo]
    rfl
  obtain ⟨j, hrev⟩ := revertToSnapshot_snapshot hjournal hundoAll
  refine ⟨_, hrev, fun field default => ?_⟩
  have hfinal : ({ s'' with journal := j } : StateDB).stateObjects.get? addr = some _ := hlive''
  rw [getField_of_live hfinal (by simp [hdeleted])]
  simp only [if_true, Assets.subAsset_addAsset _ _ _ hnonneg]

end StateDB

/-- Account 16 holds ten units of asset 100. -/
def zeroAssetHolder : SortedMap Address Account :=
  (∅ : SortedMap Address Account).insert 16
    { nonce := 0, balance := 0, codeHash := emptyCodeHash, lockBalance := 0, voteList := [],
      assetList := (∅ : Assets).insert 100 10, assetHash := none }

/-- A transfer of zero units of asset 100 from 16 to 7: account 7 gets an entry of zero. -/
def zeroEntryState : StateDB :=
  ((StateDB.new zeroAssetHolder).subAssetBalance 16 100 0).2.addAssetBalance 7 100 0

theorem revert_drops_zero_asset_entry :
    (zeroEntryState.getAssets 7).1 = [(100, 0)] ∧
      ((zeroEntryState.snapshot.2.addAssetBalance 7 100 5).revertToSnapshot
          zeroEntryState.snapshot.1).map
        (fun s => ((s.getAssets 7).1, (s.getAssetBalance 7 100).1)) = .ok ([], 0) := by
  have hbefore : (zeroEntryState.getAssets 7).1 = [(100, 0)] := by decide
  have hentry : (zeroEntryState.stateObjects.get? 7).map (fun o => (o.deleted,
      o.data.assetList.get? 100, (o.data.assetList.erase 100).entries,
      Assets.balanceOf (o.data.assetList.erase 100) 100)) = some (false, some 0, [], 0) := by decide
  obtain ⟨obj, hobj, hflags⟩ := Option.map_eq_some_iff.mp hentry
  simp only [Prod.mk.injEq] at hflags
  obtain ⟨hdeleted, hzero, hentries, hbalance⟩ := hflags
  -- the entry of zero is the one the undo's subtraction drops
  obtain ⟨s', hrev, hread⟩ := StateDB.revert_addAssetBalance_assets 5 hobj hdeleted
    (fun b hb => by rw [hzero] at hb; cases hb; exact le_refl 0)
  refine ⟨hbefore, ?_⟩
  rw [hrev]
  simp only [Except.map, StateDB.getAssets, StateDB.getAssetBalance]
  rw [hread SortedMap.entries, hread (Assets.balanceOf · 100), if_pos hzero, hentries, hbalance]

end AuroraChain.State
