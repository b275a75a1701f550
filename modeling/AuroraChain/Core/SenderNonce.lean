import AuroraChain.Core.Transition
import AuroraChain.Vm.SenderFrame
/-!
# What a message does to its sender's nonce

`TransitionDb` raises the sender's nonce in one of three places: before the switch for a register
or a vote, in the default branch for a transfer or a call, and inside `EVM.Create` or
`StateDB.PublishAsset` for a creation or a publication. Each message that returns without an error
passes one of them once. `EVM.Create` also raises the nonce of its caller, so a sender whose own
code runs `CREATE` when called gets one more raise per creation; the result below is for a sender
without code. The creation and the publication also read the nonce before its raise, which
`preCheck` has compared with the message's, so the contract or the asset sits at
`CreateAddress(from, msg.nonce)`, the address the receipt records.

The run is split at the sender's raise. Before it, the sender's account is live with the nonce it
had (`Holds`); after it, the account is live with one more, and the EVM's nested calls and
reverts keep it so (`exec_senderFrame` for a call, `create_senderFrame` for a creation). The
refund and the fee at the end (`settle`) touch balances only.
-/

namespace AuroraChain.Core

open State StateDB Vm

variable {c : Address} {w : Identity}

theorem fromAccount_holds {s : StateDB} (hs : s.Holds c w) (b : Address) :
    (Core.fromAccount s b).Holds c w := by
  have h₁ : (s.exist b).2.Holds c w := hs.getField_snd b (fun _ => true) false
  have hc := hs.exist
  show (if !(s.exist b).1 then (s.exist b).2.createAccount b else (s.exist b).2).Holds c w
  rcases he : s.exist b with ⟨ex, s₁⟩
  rw [he] at h₁
  dsimp only
  split
  · rename_i hno
    refine h₁.createAccount fun hbc => ?_
    subst hbc
    rw [he] at hc
    simp_all
  · exact h₁

theorem toAccount_senderFrame {a : Address} {k i : Nat} {s : StateDB} (h : SenderFrame a w k i s)
    (toAddr : Option Address) : SenderFrame a w k i (Core.toAccount s toAddr).2 := by
  cases toAddr with
  | none => exact h
  | some addr =>
      have h₁ : SenderFrame a w k i (s.exist addr).2 := h.getField addr (fun _ => true) false
      have hlive := h.holds.exist
      show SenderFrame a w k i
        (if !(s.exist addr).1 then (s.exist addr).2.createAccount addr else (s.exist addr).2)
      rcases he : s.exist addr with ⟨ex, s₁⟩
      rw [he] at h₁
      dsimp only
      split
      · rename_i hno
        refine h₁.createAccount fun hba => ?_
        subst hba
        rw [he] at hlive
        simp_all
      · exact h₁

theorem refundGas_holds {msg : Message} {st st' : StateTransition} (hs : st.db.Holds c w)
    (h : refundGas msg st = .ok st') : st'.db.Holds c w := by
  unfold Core.refundGas at h
  dsimp only at h
  rcases hg : addGas st.gp ((st.gas + min (gasUsed st / 2) st.db.refund) % 2 ^ 64) with p | gp <;>
    rw [hg] at h <;> simp only [Except.map] at h
  · cases h
  · cases h
    exact (fromAccount_holds hs msg.fromAddr).addBalance _ _

theorem settle_holds {env : Env} {msg : Message} {ret : List UInt8} {vmerr : Option VmError}
    {st : StateTransition} {res : ExecutionResult} {st' : StateTransition} (hs : st.db.Holds c w)
    (h : settle env msg ret vmerr st = .ok (res, st')) : st'.db.Holds c w := by
  unfold Core.settle at h
  split at h
  · cases h
    exact hs
  · rcases hr : refundGas msg st with p | st₁ <;> rw [hr] at h <;> simp only [Except.map] at h
    · cases h
    · cases h
      exact (refundGas_holds hs hr).addBalance _ _

/-- `settle` reports no error unless the run ran out of balance; the failure flag and the return
data are the run's. -/
theorem settle_err {env : Env} {msg : Message} {ret : List UInt8} {vmerr : Option VmError}
    {st : StateTransition} {res : ExecutionResult} {st' : StateTransition}
    (h : settle env msg ret vmerr st = .ok (res, st')) (herr : res.err = none) :
    vmerr ≠ some .errInsufficientBalance ∧ res.failed = vmerr.isSome ∧ res.ret = ret := by
  unfold Core.settle at h
  split at h
  · cases h
    cases herr
  · rename_i hvm
    rcases hr : refundGas msg st with p | st₁ <;> rw [hr] at h <;> simp only [Except.map] at h
    · cases h
    · cases h
      exact ⟨hvm, rfl, rfl⟩

theorem failWith_err {failed : Bool} {e : Error} {st : StateTransition} {res : ExecutionResult}
    {st' : StateTransition} (h : failWith failed e st = .ok (res, st')) : res.err = some e := by
  cases h
  rfl

theorem revertAndFail_err {snapshot : Nat} {e : Error} {st : StateTransition}
    {res : ExecutionResult} {st' : StateTransition} (h : revertAndFail snapshot e st = .ok (res, st')) :
    res.err = some e := by
  unfold revertAndFail at h
  rcases hr : st.db.revertToSnapshot snapshot with p | db <;> rw [hr] at h
  · cases h
  · exact failWith_err h

theorem vote_holds {g : Growth} {s : StateDB} (hs : s.Holds c w) {user : Address} {votes : List Vote}
    {delegateList : DelegateList} {maxElectDelegate : Int} {err : Option Error} {s' : StateDB}
    (h : vote g s user votes delegateList maxElectDelegate = .ok (err, s')) : s'.Holds c w := by
  have h₁ : (s.getVoteList user).2.Holds c w := hs.getField_snd user (·.data.voteList) Slice.nil
  unfold Core.vote at h
  rcases hv : s.getVoteList user with ⟨prev, s₁⟩
  rw [hv] at h h₁
  dsimp only at h h₁
  -- the new vote list's array goes into the heap, which no account's fields read
  split at h
  · cases h
  · cases h
    exact h₁.of_get? rfl
  · rename_i newVoteList diff heap _
    have h₂ : ({ s₁ with heap } : StateDB).Holds c w := h₁.of_get? rfl
    have h₃ : (canTransfer { s₁ with heap } user diff).2.Holds c w :=
      h₂.getField_snd user (·.data.balance) 0
    rcases hc : canTransfer { s₁ with heap } user diff with ⟨ok, s₃⟩
    rw [hc] at h h₃
    dsimp only at h h₃
    split at h
    · cases h
      exact h₃
    · have h₄ : (s₃.getLockBalance user).2.Holds c w := h₃.getField_snd user (·.data.lockBalance) (some 0)
      rcases hl : s₃.getLockBalance user with ⟨_ | lock, s₄⟩ <;> rw [hl] at h h₄ <;> dsimp only at h h₄
      · cases h
      · split at h
        · cases h
          exact h₄
        · rcases ha : (s₄.subBalance user diff).addLockBalance user diff with p | s₅ <;>
            rw [ha] at h <;> simp only [Except.map] at h
          · cases h
          · cases h
            exact ((h₄.subBalance user diff).addLockBalance ha).setVoteList user newVoteList

/-- `from()` leaves the sender live with the nonce `GetNonce` read before, and with no code if it
had none: an account that did not exist is created with nonce zero and the empty code hash. -/
theorem fromAccount_sender (s : StateDB) (a : Address) :
    ∃ w, w.nonce = (s.getNonce a).1 ∧
      (codeIsEmpty (s.getCodeHash a).1 = true → codeIsEmpty w.codeHash = true) ∧
      (Core.fromAccount s a).Holds a w := by
  rcases hget : s.getStateObject a with ⟨_ | obj, s₁⟩
  · have hs₁ : s₁ = s := by
      unfold StateDB.getStateObject at hget
      split at hget
      · split at hget
        · cases hget
          rfl
        · cases hget
      · split at hget
        · cases hget
          rfl
        · cases hget
    subst hs₁
    have hfrom : Core.fromAccount s₁ a = s₁.createAccount a := by
      simp [Core.fromAccount, exist, getField, hget]
    refine ⟨⟨0, emptyCodeHash, none⟩, by simp [getNonce, getField, hget], fun _ => by
      simp [codeIsEmpty], ?_⟩
    rw [hfrom]
    refine ⟨{ newObject a emptyAccountData with onDirty := false }, ?_, rfl, rfl⟩
    simp [StateDB.createAccount, StateDB.createObject, hget, StateObject.setNonce,
      StateObject.tryMarkDirty, newObject, emptyAccountData]
  · have hs₁ := holds_of_getStateObject hget
    have hfrom : Core.fromAccount s a = s₁ := by
      simp [Core.fromAccount, exist, getField, hget]
    refine ⟨obj.identity, by simp [getNonce, getField, hget, StateObject.identity], fun h => by
      simpa [getCodeHash, getField, hget, StateObject.identity] using h, hfrom ▸ hs₁⟩

/-- After `preCheck` the sender is live with the nonce it had, which is the message's when the
nonce is checked. -/
theorem preCheck_sender {msg : Message} {st st' : StateTransition}
    (h : preCheck msg st = .ok st') :
    ∃ w, w.nonce = (st.db.getNonce msg.fromAddr).1 ∧
      (codeIsEmpty (st.db.getCodeHash msg.fromAddr).1 = true → codeIsEmpty w.codeHash = true) ∧
      st'.db.Holds msg.fromAddr w ∧ (msg.checkNonce = true → w.nonce = msg.nonce) := by
  obtain ⟨w, hwn, hwc, hs⟩ := fromAccount_sender st.db msg.fromAddr
  refine ⟨w, hwn, hwc, ?_⟩
  unfold preCheck at h
  split at h
  · cases h
  · simp only [hs.getNonce_eq] at h
    split at h
    · cases h
    · split at h
      · cases h
      · rename_i hlow hhigh
        refine ⟨?_, fun hc => by simp [hc] at hlow hhigh; omega⟩
        unfold buyGas at h
        dsimp only at h
        have h₁ := fromAccount_holds hs msg.fromAddr
        have h₂ : ((Core.fromAccount (Core.fromAccount st.db msg.fromAddr) msg.fromAddr).getBalance
            msg.fromAddr).2.Holds msg.fromAddr w := h₁.getField_snd _ (·.data.balance) 0
        rcases hb : (Core.fromAccount (Core.fromAccount st.db msg.fromAddr) msg.fromAddr).getBalance
          msg.fromAddr with ⟨balance, s₂⟩
        rw [hb] at h h₂
        dsimp only at h h₂
        split at h
        · cases h
        · split at h
          · cases h
          · cases h
            exact h₂.subBalance _ _

/-- The sender's own creation raises its nonce once, unless its balance check fails first. -/
theorem execTop_create_sender (vm : Interpreter) {a : Address} (hcode : codeIsEmpty w.codeHash = true)
    {code : List UInt8} {gas value : Nat} {asset : Option Address} {abi : String} {s : StateDB}
    {r : Outcome × StateDB} (hs : s.Holds a w)
    (h : execTop vm (.create a code gas value asset abi) s = .ok r) :
    r.1.err = some .errInsufficientBalance ∨ r.2.Holds a { w with nonce := w.nonce + 1 } := by
  -- the frame opens right after the raise: one entry more than `s` had, and its next id
  have hrun := run_senderFrame vm (exec_senderFrame vm (a := a) (v := { w with nonce := w.nonce + 1 })
    (k := s.journal.entries.length + 1) (i := s.journal.nextRevisionId) (Nat.succ_ne_zero _) hcode
    Params.CallCreateDepth)
  have hcan : ∀ s' : StateDB, s'.Holds a w ∧ s'.journal = s.journal →
      (Vm.canTransfer s' a asset value).2.Holds a w ∧
        (Vm.canTransfer s' a asset value).2.journal = s.journal := by
    rintro s' ⟨hh, hj⟩
    cases asset with
    | none => exact ⟨hh.getField_snd a _ _, (getField_journal _ _ _ _).trans hj⟩
    | some asset => exact ⟨hh.getField_snd a _ _, (getField_journal _ _ _ _).trans hj⟩
  have hbump : ∀ s' : StateDB, s'.Holds a w ∧ s'.journal = s.journal →
      SenderFrame a { w with nonce := w.nonce + 1 } (s.journal.entries.length + 1)
        s.journal.nextRevisionId ((s'.getNonce a).2.setNonce a ((s'.getNonce a).1 + 1)) := by
    rintro s' ⟨hh, hj⟩
    rw [hh.getNonce_eq]
    obtain ⟨hh', hj'⟩ := hh.setNonce_self (w.nonce + 1)
    have hmark := SenderFrame.mark hh'
    rw [hj', hj] at hmark
    exact hmark
  have h' : create vm (run vm (runTrace vm (exec vm Params.CallCreateDepth))) a code gas value asset
      abi false s = .ok r := h
  rcases create_senderFrame vm hrun (Nat.succ_ne_zero _) hcan hbump ⟨hs, rfl⟩ h' with
    ⟨-, herr⟩ | hf
  · exact .inl herr
  · exact .inr hf.holds

/-- A publication raises the issuer's nonce once, and the asset account holds the asset's data. -/
theorem publishAsset_sender {codec : AssetCodec} {s s' : StateDB} {a : Address} {info : AssetInfo}
    (hs : s.Holds a w) (h : s.publishAsset codec a info = (none, s'))
    (hid : codec.createAddress a w.nonce ≠ a) :
    s'.Holds a { w with nonce := w.nonce + 1 } ∧
      s'.Holds (codec.createAddress a w.nonce)
        ⟨0, emptyCodeHash, some (codec.assetHash { info with issuer := some a })⟩ := by
  obtain ⟨o, hget, -, hdel, hwid⟩ := hs.getStateObject_eq
  have hgn : s.getOrNewStateObject a = (o, s) := by simp [StateDB.getOrNewStateObject, hget, hdel]
  have hnonce : o.data.nonce = w.nonce := by rw [← hwid]; rfl
  constructor
  · unfold StateDB.publishAsset at h
    rw [hgn] at h
    dsimp only at h
    split at h
    · cases h
    · rw [hnonce] at h
      set o₂ := (o.setNonceJournaled (w.nonce + 1) s).1 with ho₂
      have h₃ : ((o.setNonceJournaled (w.nonce + 1) s).2.setStateObject o₂).Holds a
          { w with nonce := w.nonce + 1 } := by
        have hset : s.setNonce a (w.nonce + 1) =
            (o.setNonceJournaled (w.nonce + 1) s).2.setStateObject o₂ := by
          simp only [StateDB.setNonce, StateDB.updateObject, hgn, ho₂]
        exact hset ▸ (hs.setNonce_self (w.nonce + 1)).1
      have h₄ := h₃.createObject hid
      rcases hc : ((o.setNonceJournaled (w.nonce + 1) s).2.setStateObject o₂).createObject
        (codec.createAddress a w.nonce) with ⟨⟨acc, prev⟩, s₄⟩
      rw [hc] at h h₄
      have haccAddr : acc.address = codec.createAddress a w.nonce := by
        have := createObject_fst ((o.setNonceJournaled (w.nonce + 1) s).2.setStateObject o₂)
          (codec.createAddress a w.nonce)
        rw [hc] at this
        dsimp only at this
        rw [this]
        rfl
      dsimp only at h
      have h₅ : ((acc.setAssetData (codec.assetHash { info with issuer := some a }) s₄).2.setStateObject
          (acc.setAssetData (codec.assetHash { info with issuer := some a }) s₄).1).Holds a
            { w with nonce := w.nonce + 1 } := by
        refine (h₄.of_get? (by simp [StateObject.setAssetData])).setStateObject fun hacc => ?_
        simp [haccAddr] at hacc
        exact absurd hacc hid
      obtain ⟨k1, k2, k3, k4⟩ := StateObject.keeps_addAssetBalance (codec.createAddress a w.nonce)
        (info.supply.getD 0) o₂ ((acc.setAssetData (codec.assetHash { info with issuer := some a })
          s₄).2.setStateObject (acc.setAssetData (codec.assetHash { info with issuer := some a })
            s₄).1)
      rw [if_neg hid] at h
      cases h
      refine (h₅.of_get? (by rw [k4])).setStateObject fun _ => ⟨?_, ?_⟩
      · rw [k2]
        simp [ho₂, StateObject.setNonceJournaled, StateObject.setNonce, hdel]
      · rw [k3, ← hwid]
        simp [ho₂, StateObject.setNonceJournaled, StateObject.setNonce, StateObject.identity, hnonce]
  · have hid' : codec.createAddress a (s.getOrNewStateObject a).1.data.nonce ≠ a := by
      rw [hgn]
      simpa [hnonce] using hid
    have hlive := publishAsset_asset_account h hid'
    rw [hgn] at hlive
    simp only [hnonce] at hlive
    exact ⟨_, hlive, rfl, rfl⟩

/-- The raise `TransitionDb` and `Create` write: `SetNonce(from, GetNonce(from) + 1)`. -/
theorem raiseNonce_holds {s : StateDB} {a : Address} (hs : s.Holds a w) :
    ((s.getNonce a).2.setNonce a ((s.getNonce a).1 + 1)).Holds a { w with nonce := w.nonce + 1 } ∧
      ((s.getNonce a).2.setNonce a ((s.getNonce a).1 + 1)).journal =
        s.journal.append (.nonceChange a w.nonce) := by
  rw [hs.getNonce_eq]
  exact hs.setNonce_self (w.nonce + 1)

theorem canTransfer_holds {s : StateDB} (hs : s.Holds c w) (b : Address) (asset : Option Address)
    (amount : Int) : (Vm.canTransfer s b asset amount).2.Holds c w := by
  cases asset with
  | none => exact hs.getField_snd b (·.data.balance) 0
  | some asset => exact hs.getField_snd b (·.data.assetList.balanceOf asset) 0

theorem action_ne {msg : Message} {n m : Nat} (hn : msg.action = n) (hnm : n ≠ m) {P : Prop} :
    msg.action = m → P :=
  fun h => absurd (hn.symm.trans h) hnm

theorem preCheck_action {msg : Message} {st st' : StateTransition} (h : preCheck msg st = .ok st') :
    msg.action ≤ ActionCallContract := by
  unfold preCheck at h
  split at h
  · cases h
  · omega

/-- The default branch of `TransitionDb`, a transfer or a contract call: the raise, then the call,
which keeps the raised nonce. -/
theorem call_branch (vm : Interpreter) {env : Env} {msg : Message} (st₃ : StateTransition)
    {res : ExecutionResult} {st : StateTransition} (hcode : codeIsEmpty w.codeHash = true)
    (hs : st₃.db.Holds msg.fromAddr w)
    (h : (let (nonce, db) := st₃.db.getNonce msg.fromAddr
          let db := db.setNonce msg.fromAddr (nonce + 1)
          let (toAddr, db) := Core.toAccount db msg.toAddr
          (execTop vm (.call msg.fromAddr toAddr msg.data st₃.gas msg.value msg.asset) db).bind
            fun (out, db) => settle env msg out.ret out.err { st₃ with gas := out.gas, db }) =
        .ok (res, st)) :
    st.db.Holds msg.fromAddr { w with nonce := w.nonce + 1 } := by
  dsimp only at h
  obtain ⟨hs₄, -⟩ := raiseNonce_holds hs
  generalize (st₃.db.getNonce msg.fromAddr).2.setNonce msg.fromAddr
    ((st₃.db.getNonce msg.fromAddr).1 + 1) = db₄ at h hs₄
  have hf₅ := toAccount_senderFrame (SenderFrame.mark hs₄) msg.toAddr
  generalize Core.toAccount db₄ msg.toAddr = ta at h hf₅
  obtain ⟨⟨out, db₆⟩, hex, h⟩ := except_bind_eq_ok h
  have hf₆ := exec_senderFrame vm (v := { w with nonce := w.nonce + 1 }) (Nat.succ_ne_zero _) hcode
    _ _ _ _ _ (by trivial) hf₅ hex
  exact settle_holds hf₆.holds h

theorem register_branch {env : Env} {msg : Message} {snap : Nat} (st₄ : StateTransition)
    {res : ExecutionResult} {st : StateTransition} (hs : st₄.db.Holds c w)
    (h : (let ct := Vm.canTransfer st₄.db msg.fromAddr none Params.TxGasAgentCreation
          if (!ct.1) = true then revertAndFail snap .errInsufficientBalance { st₄ with db := ct.2 }
          else if env.delegateList.contains msg.fromAddr = true then
            revertAndFail snap (.alreadyRegistered msg.fromAddr) { st₄ with db := ct.2 }
          else settle env msg [] none { st₄ with db := ct.2 }) = .ok (res, st))
    (herr : res.err = none) : st.db.Holds c w := by
  have hs₅ := canTransfer_holds hs msg.fromAddr none Params.TxGasAgentCreation
  generalize Vm.canTransfer st₄.db msg.fromAddr none Params.TxGasAgentCreation = ct at h hs₅
  dsimp only at h
  split at h
  · rw [revertAndFail_err h] at herr
    cases herr
  · split at h
    · rw [revertAndFail_err h] at herr
      cases herr
    · exact settle_holds hs₅ h

/-- An added or a removed vote after the raise before the switch. -/
theorem vote_branch {env : Env} {msg : Message} {snap : Nat} (st₄ : StateTransition)
    {res : ExecutionResult} {st : StateTransition} (hs : st₄.db.Holds c w)
    (h : (if msg.vote.length = 0 then revertAndFail snap .emptyVoteList st₄
          else
            (vote env.growth st₄.db msg.fromAddr msg.vote env.delegateList env.maxElectDelegate).bind
              fun x => match x.1 with
                | some e => revertAndFail snap e { st₄ with db := x.2 }
                | none => settle env msg [] none { st₄ with db := x.2 }) = .ok (res, st))
    (herr : res.err = none) : st.db.Holds c w := by
  split at h
  · rw [revertAndFail_err h] at herr
    cases herr
  · obtain ⟨⟨err, db₅⟩, hv, h⟩ := except_bind_eq_ok h
    have hs₅ := vote_holds hs hv
    split at h
    · rw [revertAndFail_err h] at herr
      cases herr
    · exact settle_holds hs₅ h

/-- A publication that `PublishAsset` accepts: it raises the nonce and makes the asset account,
and the fee leaves both. -/
theorem publish_branch {codec : AssetCodec} {env : Env} {msg : Message} (st₃ : StateTransition)
    {db₅ : StateDB} {res : ExecutionResult} {st : StateTransition} (hs : st₃.db.Holds msg.fromAddr w)
    (hid : codec.createAddress msg.fromAddr w.nonce ≠ msg.fromAddr)
    (hpa : (fromAccount st₃.db msg.fromAddr).publishAsset codec msg.fromAddr msg.assetInfo = (none, db₅))
    (h : settle env msg [] none { st₃ with db := db₅ } = .ok (res, st)) :
    st.db.Holds msg.fromAddr { w with nonce := w.nonce + 1 } ∧
      st.db.Holds (codec.createAddress msg.fromAddr w.nonce)
        ⟨0, emptyCodeHash, some (codec.assetHash { msg.assetInfo with issuer := some msg.fromAddr })⟩ := by
  obtain ⟨hs₅, hasset⟩ := publishAsset_sender (fromAccount_holds hs msg.fromAddr) hpa hid
  exact ⟨settle_holds hs₅ h, settle_holds hasset h⟩

/-- A creation: `Create` raises the nonce and stores the code at the address it computes from the
nonce it read. -/
theorem create_branch (vm : Interpreter) {env : Env} {msg : Message} (st₃ : StateTransition)
    {res : ExecutionResult} {st : StateTransition} (hcode : codeIsEmpty w.codeHash = true)
    (hs : st₃.db.Holds msg.fromAddr w)
    (h : (if msg.data.length = 0 then failWith true .createContractWithoutData st₃
          else
            (execTop vm (.create msg.fromAddr msg.data st₃.gas msg.value msg.asset msg.abi) st₃.db).bind
              fun x => settle env msg x.1.ret x.1.err { st₃ with gas := x.1.gas, db := x.2 }) =
        .ok (res, st))
    (herr : res.err = none) :
    st.db.Holds msg.fromAddr { w with nonce := w.nonce + 1 } ∧
      (res.failed = false → ∃ v, v.codeHash = vm.keccak256 res.ret ∧
        st.db.Holds (vm.createAddress msg.fromAddr w.nonce) v) := by
  split at h
  · rw [failWith_err h] at herr
    cases herr
  obtain ⟨⟨out, db₄⟩, hex, h⟩ := except_bind_eq_ok h
  obtain ⟨hbal, hfailed, hret⟩ := settle_err h herr
  rcases execTop_create_sender vm hcode hs hex with hins | hs₄
  · exact absurd hins hbal
  refine ⟨settle_holds hs₄ h, fun hf => ?_⟩
  have hok : out.err = none := by
    rw [hfailed] at hf
    simpa using hf
  obtain ⟨v, hv, hcode₄⟩ := create_stores_code vm hex hok
  rw [(canTransfer_holds hs msg.fromAddr msg.asset msg.value).getNonce] at hcode₄
  exact ⟨v, hret ▸ hv, settle_holds hcode₄ h⟩

/-- A message that returns without an error raises the nonce of a sender without code by one:
the switch of `TransitionDb` raises it once on every path to `settle`, and a creation by the
sender raises it inside `Create` instead. When the nonce is checked, the contract a creation makes
and the asset a publication makes sit at `CreateAddress(from, msg.nonce)`, the address
`ApplyTransaction` records in the receipt. The model has `crypto.CreateAddress` twice, as the
interpreter's and as the asset codec's. -/
theorem applyMessage_nonce_once (vm : Interpreter) (codec : AssetCodec) (env : Env) (msg : Message)
    (gp : Nat) (db : StateDB) {res : ExecutionResult} {st : StateTransition}
    (hcode : codeIsEmpty (db.getCodeHash msg.fromAddr).1 = true)
    (hid : codec.createAddress msg.fromAddr (db.getNonce msg.fromAddr).1 ≠ msg.fromAddr)
    (h : applyMessage vm codec env msg gp db = .ok (res, st)) (herr : res.err = none) :
    (st.db.getNonce msg.fromAddr).1 = (db.getNonce msg.fromAddr).1 + 1 ∧
      (msg.checkNonce = true → (db.getNonce msg.fromAddr).1 = msg.nonce ∧
        (msg.action = ActionCreateContract → res.failed = false →
          (st.db.getCodeHash (vm.createAddress msg.fromAddr msg.nonce)).1 = vm.keccak256 res.ret) ∧
        (msg.action = ActionPublishAsset →
          (st.db.getField (codec.createAddress msg.fromAddr msg.nonce) (·.data.assetHash) none).1 =
            some (codec.assetHash { msg.assetInfo with issuer := some msg.fromAddr }))) := by
  unfold applyMessage transitionDb at h
  rcases hpc : preCheck msg ⟨gp, 0, 0, db⟩ with ⟨e, db₀⟩ | st₀ <;> rw [hpc] at h
  · rw [failWith_err h] at herr
    cases herr
  obtain ⟨w, hwn, hwc, hs₀, hchk⟩ := preCheck_sender hpc
  have hact := preCheck_action hpc
  have hcode' := hwc hcode
  rcases hug : useGas { st₀ with db := Core.fromAccount st₀.db msg.fromAddr }
      ((intrinsicGas msg.data msg.action).toOption.getD 0) with e | st₂ <;> simp only [hug] at h
  · rw [failWith_err h] at herr
    cases herr
  have hs₂ : st₂.db.Holds msg.fromAddr w := by
    unfold useGas at hug
    split at hug
    · cases hug
    · cases hug
      exact fromAccount_holds hs₀ _
  rcases hsn : st₂.db.snapshot with ⟨snap, db₃⟩
  have hs₃ : db₃.Holds msg.fromAddr w := by
    have := hs₂.snapshot
    rwa [hsn] at this
  simp only [hsn] at h
  -- what each branch leaves: the sender raised once, the contract's code, the asset's data
  suffices key : st.db.Holds msg.fromAddr { w with nonce := w.nonce + 1 } ∧
      (msg.action = ActionCreateContract → res.failed = false →
        ∃ v, v.codeHash = vm.keccak256 res.ret ∧
          st.db.Holds (vm.createAddress msg.fromAddr w.nonce) v) ∧
      (msg.action = ActionPublishAsset → st.db.Holds (codec.createAddress msg.fromAddr w.nonce)
        ⟨0, emptyCodeHash, some (codec.assetHash { msg.assetInfo with issuer := some msg.fromAddr })⟩) by
    obtain ⟨hfin, hcreate, hpublish⟩ := key
    have hN : (db.getNonce msg.fromAddr).1 = w.nonce := hwn.symm
    refine ⟨by rw [hfin.getNonce, hN], fun hc => ⟨hN.trans (hchk hc), fun hcr hf => ?_, fun hp => ?_⟩⟩
    · obtain ⟨v, hv, hholds⟩ := hcreate hcr hf
      rw [← hchk hc, hholds.getCodeHash, hv]
    · obtain ⟨o, hget, hid'⟩ := (hpublish hp).getField (·.data.assetHash) none
      rw [← hchk hc, hget]
      exact congrArg Identity.assetHash hid'
  have hN : (db.getNonce msg.fromAddr).1 = w.nonce := hwn.symm
  obtain ⟨n, hn⟩ : ∃ n, msg.action = n := ⟨_, rfl⟩
  have hn6 : n ≤ 6 := hn ▸ hact
  interval_cases n <;> simp +decide only [hn, ↓reduceIte] at h
  · -- a transfer: the raise in the default branch, then the call
    exact ⟨call_branch vm ⟨st₂.gp, st₂.gas, st₂.initialGas, db₃⟩ hcode' hs₃ h,
      action_ne hn (by decide), action_ne hn (by decide)⟩
  · -- a register: the raise before the switch, the balance check and the fee
    obtain ⟨hs₄, -⟩ := raiseNonce_holds hs₃
    exact ⟨register_branch ⟨st₂.gp, st₂.gas, st₂.initialGas, _⟩ hs₄ h herr,
      action_ne hn (by decide), action_ne hn (by decide)⟩
  · -- an added vote: the raise before the switch, then the vote
    obtain ⟨hs₄, -⟩ := raiseNonce_holds hs₃
    exact ⟨vote_branch ⟨st₂.gp, st₂.gas, st₂.initialGas, _⟩ hs₄ h herr,
      action_ne hn (by decide), action_ne hn (by decide)⟩
  · -- a removed vote, the same way
    obtain ⟨hs₄, -⟩ := raiseNonce_holds hs₃
    exact ⟨vote_branch ⟨st₂.gp, st₂.gas, st₂.initialGas, _⟩ hs₄ h herr,
      action_ne hn (by decide), action_ne hn (by decide)⟩
  · -- a publication: the match on what `PublishAsset` returns
    rcases hpa : (fromAccount db₃ msg.fromAddr).publishAsset codec msg.fromAddr msg.assetInfo with
      ⟨_ | e, db₅⟩ <;> rw [hpa] at h
    · obtain ⟨hs₅, hasset⟩ := publish_branch ⟨st₂.gp, st₂.gas, st₂.initialGas, db₃⟩ hs₃
        (by rwa [← hN]) hpa h
      exact ⟨hs₅, action_ne hn (by decide), fun _ => hasset⟩
    · rw [revertAndFail_err h] at herr
      cases herr
  · obtain ⟨hs₅, hstored⟩ := create_branch vm ⟨st₂.gp, st₂.gas, st₂.initialGas, db₃⟩ hcode' hs₃
      h herr
    exact ⟨hs₅, fun _ => hstored, action_ne hn (by decide)⟩
  · -- a contract call, the default branch as for a transfer
    exact ⟨call_branch vm ⟨st₂.gp, st₂.gas, st₂.initialGas, db₃⟩ hcode' hs₃ h,
      action_ne hn (by decide), action_ne hn (by decide)⟩

/-- A creation by the codeless issuer 16 of `issuerTrie`, with one byte of init code. -/
def creationFromIssuer : Message :=
  { issuerMessage 0 ActionCreateContract none none 0 AssetInfo.zero with data := [0] }

theorem applyMessage_nonce_once_creation :
    ∃ res st, applyMessage selfCreator countingIds ⟨64, ∅, 30, Growth.double⟩ creationFromIssuer
        Params.TargetGasLimit (StateDB.new issuerTrie) = .ok (res, st) ∧ res.err = none ∧
      (st.db.getNonce 16).1 = 1 := by
  have hcode : codeIsEmpty ((StateDB.new issuerTrie).getCodeHash creationFromIssuer.fromAddr).1 = true :=
    by decide
  have hid : countingIds.createAddress creationFromIssuer.fromAddr
      ((StateDB.new issuerTrie).getNonce creationFromIssuer.fromAddr).1 ≠ creationFromIssuer.fromAddr :=
    by decide
  have hok : (applyMessage selfCreator countingIds ⟨64, ∅, 30, Growth.double⟩ creationFromIssuer
      Params.TargetGasLimit (StateDB.new issuerTrie)).map (·.1.err) = .ok none := by decide
  rcases h : applyMessage selfCreator countingIds ⟨64, ∅, 30, Growth.double⟩ creationFromIssuer
      Params.TargetGasLimit (StateDB.new issuerTrie) with p | ⟨res, st⟩ <;> rw [h] at hok
  · cases hok
  · have herr : res.err = none := by simpa [Except.map] using hok
    refine ⟨res, st, rfl, herr, ?_⟩
    exact (applyMessage_nonce_once selfCreator countingIds _ _ _ _ hcode hid h herr).1.trans
      (by decide)

end AuroraChain.Core
