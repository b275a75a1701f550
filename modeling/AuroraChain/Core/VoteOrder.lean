import AuroraChain.Core.Processor
import AuroraChain.DelegateState.Local
/-!
# The order of a vote transaction's candidates

`CountTrxVote` walks the Go map of net vote changes in whatever order the runtime picks, so two
nodes may apply the same transaction's candidates in different orders. The map's keys are
distinct addresses, and each `voteCount` reads and writes the delegate database at its own
candidate's address only (`voteCount_local`), so any two of them commute. The register
candidate always comes first and the cancel candidate last. Hence every order of the map gives the
same verdict and, on success, the same records and live objects (`voteCountAll_perm`).
-/

namespace AuroraChain.Core

open State DelegateState DelegateDB Footprint

theorem voteCount_local (v : VoteCandidate) (blockTime : Nat) :
    Local slot v.address fun db => voteCount db v blockTime := by
  unfold voteCount
  split_ifs
  · refine (exist_local v.address).bind (fun exist db => if exist then
        (some Error.errDuplicateRegisterAgent, db)
      else (none, (db.getOrNewStateObject v.address v.nickname blockTime).2))
      (fun _ => True) (fun _ => trivial) fun exist _ => ?_
    cases exist
    · exact (getOrNewStateObject_local v.address v.nickname blockTime).map fun _ => none
    · exact Local.pure _ _
  · refine (exist_local v.address).bind (fun exist db => if !exist then (some Error.errAddVote, db)
      else (none, db.addVote v.address (toInt64 v.vote)))
      (fun _ => True) (fun _ => trivial) fun exist _ => ?_
    cases exist
    · exact Local.pure _ _
    · exact (addVote_local v.address (toInt64 v.vote)).map fun _ => none
  · refine (subExist_local v.address).bind (fun exist db => if !exist then (some Error.errSubVote, db)
      else (db.getVote v.address).casesOn fun vote db =>
        if toInt64 vote < toInt64 v.vote then (some Error.errSubVoteNotEnough, db)
        else (none, db.subVote v.address (toInt64 v.vote)))
      (fun _ => True) (fun _ => trivial) fun exist _ => ?_
    cases exist
    · exact Local.pure _ _
    · have hcompare : ∀ vote : Int, Local slot v.address fun db : DelegateDB =>
          if toInt64 vote < toInt64 v.vote then ((some Error.errSubVoteNotEnough : Option Error), db)
          else (none, db.subVote v.address (toInt64 v.vote)) := by
        intro vote
        by_cases hlt : toInt64 vote < toInt64 v.vote
        · simp only [hlt, if_true]
          exact Local.pure _ _
        · simp only [hlt, if_false]
          exact (subVote_local v.address (toInt64 v.vote)).map fun _ => none
      refine Local.of_eq (fun s => ?_) ((getVote_local v.address).bind _ (fun _ => True)
        (fun _ => trivial) fun vote _ => hcompare vote)
      rcases s.getVote v.address with ⟨vote, db⟩
      simp only [Bool.not_true, Bool.false_eq_true, if_false]
  · refine (exist_local v.address).bind (fun exist db => if !exist then (some Error.errCancelAgent, db)
      else (none, (db.suicide v.address).2))
      (fun _ => True) (fun _ => trivial) fun exist _ => ?_
    cases exist
    · exact Local.pure _ _
    · exact (suicide_local v.address).map fun _ => none
  · exact Local.pure _ _

/-- Two runs of the candidate loop with the same verdict: both fail or both succeed, and after a
success they leave the same slots. -/
def SameOutcome (r₁ r₂ : Option Error × DelegateDB) : Prop :=
  r₁.1.isSome = r₂.1.isSome ∧ (r₁.1 = none → Agree slot r₁.2 r₂.2)

theorem SameOutcome.refl (r : Option Error × DelegateDB) : SameOutcome r r :=
  ⟨rfl, fun _ => Agree.refl _⟩

theorem SameOutcome.trans {r₁ r₂ r₃ : Option Error × DelegateDB} (h₁ : SameOutcome r₁ r₂)
    (h₂ : SameOutcome r₂ r₃) : SameOutcome r₁ r₃ := by
  refine ⟨h₁.1.trans h₂.1, fun hnone => (h₁.2 hnone).trans (h₂.2 ?_)⟩
  have hsome := h₁.1
  rw [hnone] at hsome
  cases h : r₂.1 with
  | none => rfl
  | some _ =>
      rw [h] at hsome
      cases hsome

theorem voteCountAll_cons (d : DelegateDB) (blockTime : Nat) (v : VoteCandidate)
    (l : List VoteCandidate) :
    voteCountAll d blockTime (v :: l) = match voteCount d v blockTime with
      | (some e, d) => (some e, d)
      | (none, d) => voteCountAll d blockTime l := rfl

/-- The candidate loop only reads slots: from states with the same slots it reaches the same
verdict and the same slots. -/
theorem voteCountAll_congr (blockTime : Nat) (l : List VoteCandidate) :
    ∀ {d₁ d₂ : DelegateDB}, Agree slot d₁ d₂ →
      (voteCountAll d₁ blockTime l).1 = (voteCountAll d₂ blockTime l).1 ∧
        Agree slot (voteCountAll d₁ blockTime l).2 (voteCountAll d₂ blockTime l).2 := by
  induction l with
  | nil => intro d₁ d₂ h; exact ⟨rfl, h⟩
  | cons v l ih =>
      intro d₁ d₂ h
      obtain ⟨hresult, hagree⟩ := (voteCount_local v blockTime).congr h
      rw [voteCountAll_cons, voteCountAll_cons]
      rcases h₁ : voteCount d₁ v blockTime with ⟨e₁, d₁'⟩
      rcases h₂ : voteCount d₂ v blockTime with ⟨e₂, d₂'⟩
      rw [h₁, h₂] at hresult hagree
      cases hresult
      cases e₁ with
      | none => exact ih hagree
      | some e => exact ⟨rfl, hagree⟩

theorem voteCountAll_perm (blockTime : Nat) {l₁ l₂ : List VoteCandidate} (hperm : l₁.Perm l₂)
    (hnodup : (l₁.map (·.address)).Nodup) (d : DelegateDB) :
    SameOutcome (voteCountAll d blockTime l₁) (voteCountAll d blockTime l₂) := by
  induction hperm generalizing d with
  | nil => exact SameOutcome.refl _
  | cons v _ ih =>
      rw [voteCountAll_cons, voteCountAll_cons]
      rcases voteCount d v blockTime with ⟨_ | e, d'⟩
      · exact ih (List.nodup_cons.mp hnodup).2 d'
      · exact SameOutcome.refl _
  | swap x y l =>
      -- the two candidates commute: each sees its own slot unchanged by the other
      have hyx : y.address ≠ x.address := by
        intro h
        exact (List.nodup_cons.mp hnodup).1 (List.mem_cons.mpr (Or.inl h))
      obtain ⟨hxy, hyx', hagree⟩ := (voteCount_local y blockTime).comm (voteCount_local x blockTime) hyx d
      rcases hy : voteCount d y blockTime with ⟨ey, dy⟩
      rcases hx : voteCount d x blockTime with ⟨ex, dx⟩
      rcases hxafter : voteCount dy x blockTime with ⟨exy, dxy⟩
      rcases hyafter : voteCount dx y blockTime with ⟨eyx, dyx⟩
      rw [hy, hxafter, hx] at hxy
      rw [hx, hyafter, hy] at hyx'
      rw [hy, hxafter, hx, hyafter] at hagree
      dsimp only at hxy hyx' hagree
      rw [voteCountAll_cons, voteCountAll_cons, hy, hx]
      cases ey with
      | none =>
          cases ex with
          | none =>
              dsimp only
              rw [voteCountAll_cons, voteCountAll_cons, hxafter, hyafter, hxy, hyx']
              obtain ⟨hresult, hslots⟩ := voteCountAll_congr blockTime l hagree
              exact ⟨by rw [hresult], fun _ => hslots⟩
          | some e =>
              dsimp only
              rw [voteCountAll_cons, hxafter, hxy]
              exact ⟨rfl, fun h => by cases h⟩
      | some e =>
          cases ex with
          | none =>
              dsimp only
              rw [voteCountAll_cons, hyafter, hyx']
              exact ⟨rfl, fun h => by cases h⟩
          | some e' => exact ⟨rfl, fun h => by cases h⟩
  | trans h₁₂ _ ih₁₂ ih₂₃ =>
      exact (ih₁₂ hnodup d).trans (ih₂₃ ((h₁₂.map _).nodup_iff.mp hnodup) d)

theorem voteCountAll_append (blockTime : Nat) (l₁ l₂ : List VoteCandidate) :
    ∀ d : DelegateDB, voteCountAll d blockTime (l₁ ++ l₂) = match voteCountAll d blockTime l₁ with
      | (some e, d) => (some e, d)
      | (none, d) => voteCountAll d blockTime l₂ := by
  induction l₁ with
  | nil => intro d; rfl
  | cons v l ih =>
      intro d
      rw [List.cons_append, voteCountAll_cons, voteCountAll_cons]
      rcases voteCount d v blockTime with ⟨_ | e, d'⟩
      · exact ih d'
      · rfl

/-- Reordering the middle of the candidate list, between a common head and a common tail. -/
theorem voteCountAll_reorder (blockTime : Nat) (pre mid₁ mid₂ post : List VoteCandidate)
    (hperm : mid₁.Perm mid₂) (hnodup : (mid₁.map (·.address)).Nodup) (d : DelegateDB) :
    SameOutcome (voteCountAll d blockTime (pre ++ mid₁ ++ post))
      (voteCountAll d blockTime (pre ++ mid₂ ++ post)) := by
  rw [List.append_assoc, List.append_assoc, voteCountAll_append, voteCountAll_append]
  rcases voteCountAll d blockTime pre with ⟨_ | e, d'⟩
  · dsimp only
    rw [voteCountAll_append, voteCountAll_append]
    have hmid := voteCountAll_perm blockTime hperm hnodup d'
    rcases h₁ : voteCountAll d' blockTime mid₁ with ⟨_ | e₁, d₁⟩ <;>
      rcases h₂ : voteCountAll d' blockTime mid₂ with ⟨_ | e₂, d₂⟩ <;> rw [h₁, h₂] at hmid
    · obtain ⟨hresult, hslots⟩ := voteCountAll_congr blockTime post (hmid.2 rfl)
      exact ⟨by rw [hresult], fun _ => hslots⟩
    · cases hmid.1
    · cases hmid.1
    · exact ⟨rfl, fun h => by cases h⟩
  · exact SameOutcome.refl _

/-- What a verdict shows: whether an error came back, and after a success every address's
`Exist`, `GetVote` and `Delete` flag. -/
theorem SameOutcome.observe {r₁ r₂ : Option Error × DelegateDB} (h : SameOutcome r₁ r₂) :
    (r₁.1.map TxError.core).isSome = (r₂.1.map TxError.core).isSome ∧
      (r₁.1.map TxError.core = none → ∀ a, (r₁.2.exist a).1 = (r₂.2.exist a).1 ∧
        (r₁.2.getVote a).1 = (r₂.2.getVote a).1 ∧
        (r₁.2.getStateObjectContainDelete a).1.map (·.data.delete) =
          (r₂.2.getStateObjectContainDelete a).1.map (·.data.delete)) := by
  refine ⟨by rw [Option.isSome_map, Option.isSome_map, h.1], fun hnone a => ?_⟩
  have hagree := h.2 (Option.map_eq_none_iff.mp hnone) a
  exact ⟨(exist_local a).result _ _ hagree, (getVote_local a).result _ _ hagree,
    congrArg (Option.map _) ((getStateObjectContainDelete_local a).result _ _ hagree)⟩

/-- The candidates made of the vote map, in any order of its entries, have distinct addresses. -/
theorem map_entries_nodup (order : List (Address × Int) → List (Address × Int))
    (horder : ∀ l, (order l).Perm l) (m : SortedMap Address Int) :
    (((order m.entries).map fun (e : Address × Int) =>
      if e.2 < 0 then (⟨e.1, e.2.natAbs, "", subVote⟩ : VoteCandidate)
      else ⟨e.1, e.2.natAbs, "", addVote⟩).map (·.address)).Nodup := by
  have haddress : ((order m.entries).map fun (e : Address × Int) =>
      if e.2 < 0 then (⟨e.1, e.2.natAbs, "", subVote⟩ : VoteCandidate)
      else ⟨e.1, e.2.natAbs, "", addVote⟩).map (·.address) = (order m.entries).map Prod.fst := by
    rw [List.map_map]
    congr 1
    funext e
    simp only [Function.comp_apply]
    split_ifs <;> rfl
  rw [haddress, ((horder m.entries).map Prod.fst).nodup_iff]
  exact m.sorted.imp fun hlt => ne_of_lt hlt

/-- A vote transaction's effect on the delegate state does not depend on the order in which the
Go map of vote changes is walked: the same panic, or the same verdict, the same account state,
and after a success the same `Exist`, `GetVote` and `Delete` flag at every address. -/
theorem voteChange_order_independent (rt : Runtime)
    (order₁ order₂ : List (Address × Int) → List (Address × Int))
    (horder₁ : ∀ l, (order₁ l).Perm l) (horder₂ : ∀ l, (order₂ l).Perm l)
    (fromAddr : Address) (tx : Transaction) (statedb : StateDB) (db : DelegateDB)
    (blockTime : Nat) :
    match voteChangeToDelegateState { rt with mapOrder := order₁ } fromAddr tx statedb db blockTime,
      voteChangeToDelegateState { rt with mapOrder := order₂ } fromAddr tx statedb db blockTime with
    | .error p₁, .error p₂ => p₁ = p₂
    | .ok (err₁, statedb₁, db₁), .ok (err₂, statedb₂, db₂) =>
        err₁.isSome = err₂.isSome ∧ statedb₁ = statedb₂ ∧
          (err₁ = none → ∀ a, (db₁.exist a).1 = (db₂.exist a).1 ∧
            (db₁.getVote a).1 = (db₂.getVote a).1 ∧
            (db₁.getStateObjectContainDelete a).1.map (·.data.delete) =
              (db₂.getStateObjectContainDelete a).1.map (·.data.delete))
    | _, _ => False := by
  unfold voteChangeToDelegateState countTrxVote
  dsimp only
  generalize (ite (tx.action = ActionAddVote ∨ tx.action = ActionSubVote) _ _ :
      Except GoPanic (Except String (List VoteCandidate × SortedMap Address Int))) = start
  rcases start with p | e | ⟨pre, m⟩
  · rfl
  · exact ⟨rfl, rfl, fun h => by cases h⟩
  · have hperm := ((horder₁ m.entries).trans (horder₂ m.entries).symm).map fun e =>
      if e.2 < 0 then (⟨e.1, e.2.natAbs, "", subVote⟩ : VoteCandidate)
      else ⟨e.1, e.2.natAbs, "", addVote⟩
    have hnodup := map_entries_nodup order₁ horder₁ m
    dsimp only [Except.map]
    rcases db.exist fromAddr with ⟨exist, db'⟩
    rcases statedb.getBalance fromAddr with ⟨balance, statedb'⟩
    cases exist
    · have h := (voteCountAll_reorder blockTime pre _ _ [] hperm hnodup db').observe
      simp only [List.append_nil] at h
      exact ⟨h.1, rfl, h.2⟩
    · by_cases hbalance : balance < Params.TxGasAgentCreation
      · have h := (voteCountAll_reorder blockTime pre _ _ [⟨fromAddr, 0, "", cancel⟩] hperm hnodup
          db').observe
        simp only [if_true, hbalance]
        exact ⟨h.1, trivial, h.2⟩
      · have h := (voteCountAll_reorder blockTime pre _ _ [] hperm hnodup db').observe
        simp only [List.append_nil] at h
        simp only [if_true, hbalance, if_false]
        exact ⟨h.1, trivial, h.2⟩

theorem voteChange_order_independent_two_votes :
    (∀ l : List (Address × Int), (id l).Perm l) ∧ (∀ l : List (Address × Int), l.reverse.Perm l) ∧
    match voteChangeToDelegateState { pairRuntime with mapOrder := id } 16
        (txFrom 16 0 ActionAddVote none 0 [5, 0, 6, 1]) (StateDB.new voterAt)
        (DelegateDB.new (delegateFive false)) 110,
      voteChangeToDelegateState { pairRuntime with mapOrder := List.reverse } 16
        (txFrom 16 0 ActionAddVote none 0 [5, 0, 6, 1]) (StateDB.new voterAt)
        (DelegateDB.new (delegateFive false)) 110 with
    | .error p₁, .error p₂ => p₁ = p₂
    | .ok (err₁, statedb₁, db₁), .ok (err₂, statedb₂, db₂) =>
        err₁.isSome = err₂.isSome ∧ statedb₁ = statedb₂ ∧
          (err₁ = none → ∀ a, (db₁.exist a).1 = (db₂.exist a).1 ∧
            (db₁.getVote a).1 = (db₂.getVote a).1 ∧
            (db₁.getStateObjectContainDelete a).1.map (·.data.delete) =
              (db₂.getStateObjectContainDelete a).1.map (·.data.delete))
    | _, _ => False :=
  ⟨fun l => List.Perm.refl l, fun l => List.reverse_perm l,
    voteChange_order_independent pairRuntime id List.reverse (fun l => List.Perm.refl l)
      (fun l => List.reverse_perm l) 16 (txFrom 16 0 ActionAddVote none 0 [5, 0, 6, 1])
      (StateDB.new voterAt) (DelegateDB.new (delegateFive false)) 110⟩

end AuroraChain.Core
