import AuroraChain.Vm.Evm
import AuroraChain.State.Frame
/-!
# Runs that leave a codeless account's nonce alone

The EVM raises a nonce only in `Create`, and only the caller's. An account without code runs no
instruction, so a call into it halts at once, and it creates nothing. A run that `a` did not start
as a creation therefore leaves the nonce of a codeless `a` as it was, reverts included. The
frames a run opens (the snapshots its calls and creations take and revert to) all come after the
frame's mark, and `SenderFrame.revertToSnapshot` keeps the account through each revert.

`exec_senderFrame` is the result for every request that runs no code as `a` and creates nothing
for it (`Request.Spares`), by induction on the depth left, with the interpreter's loop
(`runTrace_senderFrame`) by induction on the trace in between. `create_senderFrame` is the
creation, stated for any caller from the state after the caller's nonce is raised, so that
`TransitionDb` can use it for the sender's own creation.
-/

namespace AuroraChain.State.StateDB.SenderFrame

variable {a : Address} {v : Identity} {k i : Nat} {s : StateDB}

theorem canTransfer (h : SenderFrame a v k i s) (b : Address) (asset : Option Address) (amount : Int) :
    SenderFrame a v k i (Vm.canTransfer s b asset amount).2 := by
  cases asset with
  | none => exact h.getField b (·.data.balance) 0
  | some asset => exact h.getField b (·.data.assetList.balanceOf asset) 0

theorem transfer (h : SenderFrame a v k i s) (sender recipient : Address) (asset : Option Address)
    (amount : Int) : SenderFrame a v k i (Core.transfer s sender recipient asset amount) := by
  cases asset with
  | none => exact (h.subBalance sender amount).addBalance recipient amount
  | some asset =>
      have h₁ := h.subAssetBalance sender asset amount
      unfold Core.transfer
      dsimp only
      rcases hsub : s.subAssetBalance sender asset amount with ⟨ok, s₁⟩
      rw [hsub] at h₁
      dsimp only at h₁ ⊢
      split
      · exact h₁.addAssetBalance recipient asset amount
      · exact h₁

theorem revertOnError (h : SenderFrame a v k i s) {snapshot : Nat} (hsnap : i ≤ snapshot)
    {out : Vm.Outcome} {r : Vm.Outcome × StateDB} (hr : Vm.revertOnError snapshot out s = .ok r) :
    SenderFrame a v k i r.2 := by
  unfold Vm.revertOnError at hr
  split at hr
  · cases hr
    exact h
  · rcases hrev : s.revertToSnapshot snapshot with p | s₁ <;> rw [hrev] at hr <;>
      simp only [Except.map] at hr
    · cases hr
    · cases hr
      exact h.revertToSnapshot hsnap hrev

end AuroraChain.State.StateDB.SenderFrame

namespace AuroraChain.Vm

open State StateDB

/-- A request that runs no code as `a` and raises no nonce of `a`: a call or a static call from
anyone, or a call-code, delegate call or creation by another account. -/
def Request.Spares (a : Address) : Request → Prop
  | .call .. => True
  | .staticCall .. => True
  | .callCode caller .. => caller ≠ a
  | .delegateCall caller .. => caller ≠ a
  | .create caller .. => caller ≠ a

variable {a : Address} {v : Identity} {k i : Nat}

theorem halt_or {c : Prop} [Decidable c] {ret : List UInt8} {gas : Nat} {err : Option VmError}
    {db : StateDB} {x : Except GoPanic (Outcome × StateDB)} {r : Outcome × StateDB}
    (h : (if c then halt ret gas err db else x) = .ok r) : r.2 = db ∨ x = .ok r := by
  split at h
  · cases h
    exact .inl rfl
  · exact .inr h

theorem halt_snd {ret : List UInt8} {gas : Nat} {err : Option VmError} {db : StateDB}
    {r : Outcome × StateDB} (h : halt ret gas err db = .ok r) : r.2 = db := by
  cases h
  rfl

section Run

variable (vm : Interpreter)

/-- What the frames a request opens must keep: a frame that runs code as `a` has none to run. -/
def KeepsFrames (a : Address) (v : Identity) (k i : Nat)
    (runF : Frame → Bool → StateDB → Except GoPanic (Outcome × StateDB)) : Prop :=
  ∀ f ro s r, (f.self = a → f.codeEmpty = true) → SenderFrame a v k i s → runF f ro s = .ok r →
    SenderFrame a v k i r.2

/-- What the nested requests of a run must keep. -/
def KeepsRequests (a : Address) (v : Identity) (k i : Nat)
    (sub : Request → Bool → StateDB → Except GoPanic (Outcome × StateDB)) : Prop :=
  ∀ req ro s r, req.Spares a → SenderFrame a v k i s → sub req ro s = .ok r →
    SenderFrame a v k i r.2

theorem callThen_senderFrame {sub : Request → Bool → StateDB → Except GoPanic (Outcome × StateDB)}
    (hsub : KeepsRequests a v k i sub) {req : Request} {ro : Bool} {gas : Nat}
    {s : StateDB} {next : Nat → StateDB → Except GoPanic (Outcome × StateDB)}
    (hnext : ∀ gas s r, SenderFrame a v k i s → next gas s = .ok r → SenderFrame a v k i r.2)
    (h : SenderFrame a v k i s) {r : Outcome × StateDB} (hr : callThen sub req ro gas s next = .ok r)
    (hreq : req.Spares a) : SenderFrame a v k i r.2 := by
  unfold callThen at hr
  rcases hs : sub req ro s with p | ⟨out, s₁⟩ <;> rw [hs] at hr
  · cases hr
  · exact hnext _ _ _ (hsub req ro s _ hreq h hs) hr

/-- The interpreter's loop for a contract other than `a`: each instruction keeps the frame, and
the nested requests it makes are all by that contract. -/
theorem runTrace_senderFrame {sub : Request → Bool → StateDB → Except GoPanic (Outcome × StateDB)}
    (hsub : KeepsRequests a v k i sub) {self : Address} (hself : self ≠ a) (ro : Bool) :
    ∀ (instrs : List Instr) gas s r, SenderFrame a v k i s →
      runTrace vm sub self ro instrs gas s = .ok r → SenderFrame a v k i r.2 := by
  intro instrs
  induction instrs with
  | nil =>
      intro gas s r h hr
      rw [halt_snd hr]
      exact h
  | cons instr rest ih =>
      intro gas s r h hr
      cases instr with
      | step cost =>
          rcases halt_or hr with hr | hr
          · rw [hr]; exact h
          · exact ih _ _ _ h hr
      | call reqGas toAddr value input memoryGas =>
          rcases halt_or hr with hr | hr
          · rw [hr]; exact h
          · have h₁ : SenderFrame a v k i (s.exist toAddr).2 := h.getField toAddr (fun _ => true) false
            rcases he : s.exist toAddr with ⟨ex, s₁⟩
            rw [he] at hr h₁
            rcases halt_or hr with hr | hr
            · rw [hr]; exact h₁
            · exact callThen_senderFrame hsub ih h₁ hr trivial
      | callCode reqGas toAddr value input memoryGas =>
          rcases halt_or hr with hr | hr
          · rw [hr]; exact h
          · exact callThen_senderFrame hsub ih h hr hself
      | delegateCall reqGas toAddr input memoryGas =>
          rcases halt_or hr with hr | hr
          · rw [hr]; exact h
          · exact callThen_senderFrame hsub ih h hr hself
      | staticCall reqGas toAddr input memoryGas =>
          rcases halt_or hr with hr | hr
          · rw [hr]; exact h
          · exact callThen_senderFrame hsub ih h hr trivial
      | create value code memoryGas =>
          rcases halt_or hr with hr | hr
          · rw [hr]; exact h
          · rcases halt_or hr with hr | hr
            · rw [hr]; exact h
            · exact callThen_senderFrame hsub ih h hr hself
      | selfdestruct beneficiary =>
          rcases halt_or hr with hr | hr
          · rw [hr]; exact h
          · have h₁ : SenderFrame a v k i (s.hasSuicided self).2 := h.getField self (·.suicided) false
            rcases hs : s.hasSuicided self with ⟨suicided, s₁⟩
            rw [hs] at h₁ hr
            dsimp only at hr
            have h₂ : SenderFrame a v k i
                (if suicided then s₁ else s₁.addRefund Params.SuicideRefundGas) := by
              split
              · exact h₁
              · exact h₁.addRefund _
            generalize (if suicided then s₁ else s₁.addRefund Params.SuicideRefundGas) = s₂ at h₂ hr
            have h₃ : SenderFrame a v k i (s₂.getBalance self).2 := h₂.getField self (·.data.balance) 0
            rcases hb : s₂.getBalance self with ⟨balance, s₃⟩
            rw [hb] at h₃ hr
            dsimp only at hr
            have h₄ := (h₃.addBalance beneficiary balance).suicide self
            rcases hsu : (s₃.addBalance beneficiary balance).suicide self with ⟨ok, s₄⟩
            rw [hsu] at h₄ hr
            rw [halt_snd hr]
            exact h₄
      | transferAsset toAddr asset value =>
          rcases halt_or hr with hr | hr
          · rw [hr]; exact h
          · have h₁ := h.canTransfer self (some asset) ((value : Int) % 2 ^ 256)
            rcases hc : Vm.canTransfer s self (some asset) ((value : Int) % 2 ^ 256) with ⟨ok, s₁⟩
            rw [hc] at h₁
            simp only [hc] at hr
            split at hr
            · exact ih _ _ _ (h₁.transfer self toAddr (some asset) _) hr
            · rw [halt_snd hr]; exact h₁
      | stop => rw [halt_snd hr]; exact h
      | ret data memoryGas =>
          rcases halt_or hr with hr | hr
          · rw [hr]; exact h
          · rw [halt_snd hr]; exact h
      | revert data memoryGas =>
          rcases halt_or hr with hr | hr
          · rw [hr]; exact h
          · rw [halt_snd hr]; exact h
      | invalid => rw [halt_snd hr]; exact h

/-- `run` of a frame that runs code as `a` only when there is none: a precompile and empty code
halt at once, and other code runs as another contract. -/
theorem run_senderFrame {sub : Request → Bool → StateDB → Except GoPanic (Outcome × StateDB)}
    (hsub : KeepsRequests a v k i sub) : KeepsFrames a v k i (run vm (runTrace vm sub)) := by
  intro f ro s r hf h hr
  unfold run at hr
  split at hr
  · dsimp only at hr
    split at hr
    · rw [halt_snd hr]; exact h
    · split at hr <;> (rw [halt_snd hr]; exact h)
  · split at hr
    · rw [halt_snd hr]; exact h
    · rename_i hempty
      exact runTrace_senderFrame vm hsub (fun hs => hempty (hf hs)) ro _ _ _ _ h hr

section Calls

variable {runF : Frame → Bool → StateDB → Except GoPanic (Outcome × StateDB)}

/-- A frame over `addr` with the code `getCodeHash` read runs code as `a` only when it has none. -/
theorem frame_codeEmpty {s : StateDB} (hs : s.Holds a v) (hcode : codeIsEmpty v.codeHash = true)
    (addr : Address) (input : List UInt8) (gas : Nat) :
    (⟨addr, addr, (s.getCodeHash addr).1, codeIsEmpty (s.getCodeHash addr).1, input, gas⟩ :
      Frame).self = a → codeIsEmpty (s.getCodeHash addr).1 = true := by
  intro hself
  dsimp only at hself
  subst hself
  rw [hs.getCodeHash]
  exact hcode

theorem call_senderFrame (hrun : KeepsFrames a v k i runF) (hcode : codeIsEmpty v.codeHash = true)
    {caller addr : Address} {input : List UInt8} {gas value : Nat} {asset : Option Address}
    {ro : Bool} {s : StateDB} {r : Outcome × StateDB} (h : SenderFrame a v k i s)
    (hr : call runF caller addr input gas value asset ro s = .ok r) : SenderFrame a v k i r.2 := by
  unfold call at hr
  have h₁ := h.canTransfer caller asset value
  rcases hc : Vm.canTransfer s caller asset (value : Int) with ⟨ok, s₁⟩
  rw [hc] at h₁ hr
  dsimp only at hr
  split at hr
  · rw [halt_snd hr]; exact h₁
  · have hsnap := h₁.le_snapshot
    have h₂ := h₁.snapshot
    rcases hs : s₁.snapshot with ⟨snap, s₂⟩
    rw [hs] at hsnap h₂ hr
    dsimp only at hsnap h₂ hr
    have h₃ : SenderFrame a v k i (s₂.exist addr).2 := h₂.getField addr (fun _ => true) false
    have hlive : (s₂.exist a).1 = true := h₂.holds.exist
    rcases he : s₂.exist addr with ⟨ex, s₃⟩
    rw [he] at h₃ hr
    dsimp only at hr
    split at hr
    · rw [halt_snd hr]; exact h₃
    · have h₄ : SenderFrame a v k i (if ex then s₃ else s₃.createAccount addr) := by
        split
        · exact h₃
        · rename_i hno
          refine h₃.createAccount fun hadd => hno ?_
          rw [← hadd, he] at hlive
          exact hlive
      generalize (if ex then s₃ else s₃.createAccount addr) = s₄ at h₄ hr
      have h₅ : SenderFrame a v k i ((Core.transfer s₄ caller addr asset value).getCodeHash addr).2 :=
        (h₄.transfer caller addr asset value).getField addr (·.data.codeHash) 0
      have hself := frame_codeEmpty (h₄.transfer caller addr asset value).holds hcode addr input gas
      rcases hg : (Core.transfer s₄ caller addr asset value).getCodeHash addr with ⟨codeHash, s₅⟩
      rw [hg] at h₅ hr hself
      dsimp only at hr
      rcases hrF : runF ⟨addr, addr, codeHash, codeIsEmpty codeHash, input, gas⟩ ro s₅ with
        p | ⟨out, s₆⟩ <;> rw [hrF] at hr
      · cases hr
      · exact (hrun _ _ _ _ hself h₅ hrF).revertOnError hsnap hr

theorem callCode_senderFrame (hrun : KeepsFrames a v k i runF) {caller addr : Address}
    (hcaller : caller ≠ a) {input : List UInt8} {gas value : Nat} {ro : Bool} {s : StateDB}
    {r : Outcome × StateDB} (h : SenderFrame a v k i s)
    (hr : callCode runF caller addr input gas value ro s = .ok r) : SenderFrame a v k i r.2 := by
  unfold callCode at hr
  have h₁ := h.canTransfer caller none value
  rcases hc : Vm.canTransfer s caller none (value : Int) with ⟨ok, s₁⟩
  rw [hc] at h₁ hr
  dsimp only at hr
  split at hr
  · rw [halt_snd hr]; exact h₁
  · have hsnap := h₁.le_snapshot
    have h₂ := h₁.snapshot
    rcases hs : s₁.snapshot with ⟨snap, s₂⟩
    rw [hs] at hsnap h₂ hr
    dsimp only at hsnap h₂ hr
    have h₃ : SenderFrame a v k i (s₂.getCodeHash addr).2 := h₂.getField addr (·.data.codeHash) 0
    rcases hg : s₂.getCodeHash addr with ⟨codeHash, s₃⟩
    rw [hg] at h₃ hr
    dsimp only at hr
    rcases hrF : runF ⟨caller, addr, codeHash, codeIsEmpty codeHash, input, gas⟩ ro s₃ with
      p | ⟨out, s₄⟩ <;> rw [hrF] at hr
    · cases hr
    · exact (hrun _ _ _ _ (fun hself => absurd hself hcaller) h₃ hrF).revertOnError hsnap hr

theorem delegateCall_senderFrame (hrun : KeepsFrames a v k i runF) {caller addr : Address}
    (hcaller : caller ≠ a) {input : List UInt8} {gas : Nat} {ro : Bool} {s : StateDB}
    {r : Outcome × StateDB} (h : SenderFrame a v k i s)
    (hr : delegateCall runF caller addr input gas ro s = .ok r) : SenderFrame a v k i r.2 := by
  unfold delegateCall at hr
  have hsnap := h.le_snapshot
  have h₁ := h.snapshot
  rcases hs : s.snapshot with ⟨snap, s₁⟩
  rw [hs] at hsnap h₁ hr
  dsimp only at hsnap h₁ hr
  have h₂ : SenderFrame a v k i (s₁.getCodeHash addr).2 := h₁.getField addr (·.data.codeHash) 0
  rcases hg : s₁.getCodeHash addr with ⟨codeHash, s₂⟩
  rw [hg] at h₂ hr
  dsimp only at hr
  rcases hrF : runF ⟨caller, addr, codeHash, codeIsEmpty codeHash, input, gas⟩ ro s₂ with
    p | ⟨out, s₃⟩ <;> rw [hrF] at hr
  · cases hr
  · exact (hrun _ _ _ _ (fun hself => absurd hself hcaller) h₂ hrF).revertOnError hsnap hr

theorem staticCall_senderFrame (hrun : KeepsFrames a v k i runF)
    (hcode : codeIsEmpty v.codeHash = true) {addr : Address} {input : List UInt8} {gas : Nat}
    {s : StateDB} {r : Outcome × StateDB} (h : SenderFrame a v k i s)
    (hr : staticCall runF addr input gas s = .ok r) : SenderFrame a v k i r.2 := by
  unfold staticCall at hr
  have hsnap := h.le_snapshot
  have h₁ := h.snapshot
  rcases hs : s.snapshot with ⟨snap, s₁⟩
  rw [hs] at hsnap h₁ hr
  dsimp only at hsnap h₁ hr
  have h₂ : SenderFrame a v k i (s₁.getCodeHash addr).2 := h₁.getField addr (·.data.codeHash) 0
  have hself := frame_codeEmpty h₁.holds hcode addr input gas
  rcases hg : s₁.getCodeHash addr with ⟨codeHash, s₂⟩
  rw [hg] at h₂ hr hself
  dsimp only at hr
  rcases hrF : runF ⟨addr, addr, codeHash, codeIsEmpty codeHash, input, gas⟩ true s₂ with
    p | ⟨out, s₃⟩ <;> rw [hrF] at hr
  · cases hr
  · exact (hrun _ _ _ _ hself h₂ hrF).revertOnError hsnap hr

/-- `Create` from the state `P` describes: the caller's nonce is raised into a frame of `a`, and a
new contract at `a` itself would collide, since `a`'s nonce is not zero. Only a failed balance
check, which raises nothing, leaves the frame unopened. -/
theorem create_senderFrame {P : StateDB → Prop} (hrun : KeepsFrames a v k i runF)
    (hn : v.nonce ≠ 0) {caller : Address} {code : List UInt8} {gas value : Nat}
    {asset : Option Address} {abi : String} {ro : Bool}
    (hcan : ∀ s, P s → P (Vm.canTransfer s caller asset value).2)
    (hbump : ∀ s, P s →
      SenderFrame a v k i ((s.getNonce caller).2.setNonce caller ((s.getNonce caller).1 + 1)))
    {s : StateDB} {r : Outcome × StateDB} (hs : P s)
    (hr : create vm runF caller code gas value asset abi ro s = .ok r) :
    (P r.2 ∧ r.1.err = some .errInsufficientBalance) ∨ SenderFrame a v k i r.2 := by
  unfold create at hr
  have h₁ := hcan s hs
  rcases hc : Vm.canTransfer s caller asset (value : Int) with ⟨ok, s₁⟩
  rw [hc] at h₁ hr
  dsimp only at hr
  split at hr
  · cases hr
    exact .inl ⟨h₁, rfl⟩
  · refine .inr ?_
    have h₂ := hbump s₁ h₁
    rcases hnonce : s₁.getNonce caller with ⟨nonce, s₂⟩
    rw [hnonce] at h₂ hr
    dsimp only at h₂ hr
    generalize s₂.setNonce caller (nonce + 1) = s₃ at h₂ hr
    set contractAddr := vm.createAddress caller nonce with hca
    have h₄ : SenderFrame a v k i (s₃.getCodeHash contractAddr).2 :=
      h₂.getField _ (·.data.codeHash) 0
    rcases hg : s₃.getCodeHash contractAddr with ⟨contractHash, s₄⟩
    rw [hg] at h₄ hr
    dsimp only at h₄ hr
    have h₅ : SenderFrame a v k i (s₄.getNonce contractAddr).2 := h₄.getField _ (·.data.nonce) 0
    -- `a`'s own nonce is not zero, so a contract at `a` collides
    have hcollide : contractAddr = a → (s₄.getNonce contractAddr).1 ≠ 0 := by
      intro hat
      rw [hat, h₄.holds.getNonce]
      exact hn
    rcases hnc : s₄.getNonce contractAddr with ⟨contractNonce, s₅⟩
    rw [hnc] at h₅ hr hcollide
    dsimp only at h₅ hr hcollide
    split at hr
    · rw [halt_snd hr]; exact h₅
    · rename_i hfree
      have hne : contractAddr ≠ a := fun hat => hfree (.inl (hcollide hat))
      have hsnap := h₅.le_snapshot
      have h₆ := h₅.snapshot
      rcases hs₆ : s₅.snapshot with ⟨snap, s₆⟩
      rw [hs₆] at hsnap h₆ hr
      dsimp only at hsnap h₆ hr
      have h₇ := (h₆.createAccount hne).transfer caller contractAddr asset value
      rcases hrF : runF ⟨contractAddr, contractAddr, vm.keccak256 code, code.isEmpty, [], gas⟩ ro
          (Core.transfer (s₆.createAccount contractAddr) caller contractAddr asset value) with
        p | ⟨out, s₈⟩ <;> rw [hrF] at hr
      · cases hr
      · have h₈ := hrun _ _ _ _ (fun hat => absurd hat hne) h₇ hrF
        simp only [Except.bind] at hr
        set t : Option VmError × Nat × StateDB :=
          if out.err = none ∧ ¬out.ret.length > Params.MaxCodeSize then
            if out.ret.length * Params.CreateDataGas + abi.utf8ByteSize * Params.TxABIGas ≤ out.gas then
              (none, out.gas - (out.ret.length * Params.CreateDataGas + abi.utf8ByteSize * Params.TxABIGas),
                s₈.setCode contractAddr (vm.keccak256 out.ret))
            else (some .errCodeStoreOutOfGas, out.gas, s₈)
          else (out.err, out.gas, s₈) with ht
        have ht₈ : SenderFrame a v k i t.2.2 := by
          rw [ht]
          split
          · split
            · exact h₈.setCode hne _
            · exact h₈
          · exact h₈
        clear_value t
        split at hr
        · split at hr
          · cases hr
          · rename_i db hrev
            cases hr
            exact ht₈.revertToSnapshot hsnap hrev
        · cases hr
          exact ht₈

end Calls

/-- A creation that ends without an error leaves the account it made live with the code its
init code returned. -/
theorem create_stores_code {runF : Frame → Bool → StateDB → Except GoPanic (Outcome × StateDB)}
    {caller : Address} {code : List UInt8} {gas value : Nat} {asset : Option Address} {abi : String}
    {ro : Bool} {s : StateDB} {r : Outcome × StateDB}
    (hr : create vm runF caller code gas value asset abi ro s = .ok r) (herr : r.1.err = none) :
    ∃ w, w.codeHash = vm.keccak256 r.1.ret ∧ r.2.Holds
      (vm.createAddress caller ((Vm.canTransfer s caller asset value).2.getNonce caller).1) w := by
  unfold create at hr
  rcases hc : Vm.canTransfer s caller asset (value : Int) with ⟨ok, s₁⟩
  rw [hc] at hr
  dsimp only at hr ⊢
  split at hr
  · cases hr
    cases herr
  · rcases hnonce : s₁.getNonce caller with ⟨nonce, s₂⟩
    rw [hnonce] at hr
    dsimp only at hr ⊢
    split at hr
    · cases hr
      cases herr
    · rcases hrF : runF _ ro _ with p | ⟨out, s₈⟩ <;> rw [hrF] at hr
      · cases hr
      · simp only [Except.bind] at hr
        set t : Option VmError × Nat × StateDB :=
          if out.err = none ∧ ¬out.ret.length > Params.MaxCodeSize then
            if out.ret.length * Params.CreateDataGas + abi.utf8ByteSize * Params.TxABIGas ≤ out.gas then
              (none, out.gas - (out.ret.length * Params.CreateDataGas + abi.utf8ByteSize * Params.TxABIGas),
                s₈.setCode (vm.createAddress caller nonce) (vm.keccak256 out.ret))
            else (some .errCodeStoreOutOfGas, out.gas, s₈)
          else (out.err, out.gas, s₈) with ht
        have herr' : (if out.ret.length > Params.MaxCodeSize ∧ t.1 = none then
            some VmError.errMaxCodeSizeExceeded else t.1) = none := by
          split at hr
          · split at hr
            · cases hr
            · cases hr
              exact herr
          · cases hr
            exact herr
        have hnone : t.1 = none ∧ ¬out.ret.length > Params.MaxCodeSize := by
          split_ifs at herr' with hmax
          exact ⟨herr', fun hgt => hmax ⟨hgt, herr'⟩⟩
        have hstored : t = (none, out.gas - (out.ret.length * Params.CreateDataGas +
            abi.utf8ByteSize * Params.TxABIGas), s₈.setCode (vm.createAddress caller nonce)
              (vm.keccak256 out.ret)) := by
          rw [ht] at hnone ⊢
          split_ifs at hnone ⊢ with hok hgas
          · rfl
          · cases hnone.1
          · exact absurd ⟨hnone.1, hnone.2⟩ hok
        clear_value t
        subst hstored
        rw [if_neg (by simp [hnone.2])] at hr
        cases hr
        exact holds_setCode _ _ _

/-- Every request that runs no code as `a` and creates nothing for it keeps `a`'s frame, at every
depth: a frame at depth zero fails at once, and a frame below runs its nested requests one level
deeper. -/
theorem exec_senderFrame (hn : v.nonce ≠ 0) (hcode : codeIsEmpty v.codeHash = true) :
    ∀ depth, KeepsRequests a v k i (exec vm depth) := by
  intro depth
  induction depth with
  | zero =>
      intro req ro s r _ h hr
      rw [halt_snd hr]
      exact h
  | succ depth ih =>
      have hrun := run_senderFrame vm ih
      intro req ro s r hreq h hr
      cases req with
      | call caller addr input gas value asset =>
          exact call_senderFrame hrun hcode h hr
      | callCode caller addr input gas value =>
          exact callCode_senderFrame hrun hreq h hr
      | delegateCall caller addr input gas =>
          exact delegateCall_senderFrame hrun hreq h hr
      | staticCall caller addr input gas =>
          exact staticCall_senderFrame hrun hcode h hr
      | create caller code gas value asset abi =>
          -- a creation by another account raises that account's nonce only
          have hcreate := create_senderFrame vm hrun hn (P := SenderFrame a v k i)
            (fun s hs => hs.canTransfer caller asset value)
            (fun s hs => (hs.getField caller (·.data.nonce) 0).setNonce hreq _) h hr
          rcases hcreate with ⟨hP, -⟩ | hP
          · exact hP
          · exact hP

end Run

end AuroraChain.Vm
