import AuroraChain.State.StateDB
/-!
# Voting: `core.Vote` and `changeVoteList`

A vote transaction carries a list of operations, `0` to add a candidate to the sender's vote list
and `1` to remove one. `changeVoteList` applies them one by one to the stored list, and `Vote` then
moves one coin per net added candidate from the balance to the lock balance and stores the new
list.

`changeVoteList` starts from the stored slice itself and removes a candidate with
`append(list[:j], list[j+1:]...)`, which shifts the later elements down inside the stored array.
When a later operation then fails, `Vote` returns the error without storing anything, but the
stored header already shows the shifted array (`changeVoteList_remove_then_fail`). No journal entry
records the elements, so reverting the state does not restore them either.
-/

namespace AuroraChain.Core

open State

/-- The errors of `core` and `core/vm` that the modelled functions return. -/
inductive Error where
  | errVote
  | errInsufficientBalance
  | errInsufficientBalanceForGas
  | errGasLimitReached
  | errNonceTooHigh
  | errNonceTooLow
  | errOutOfGas
  | errDuplicateRegisterAgent
  | errAddVote
  | errSubVote
  | errSubVoteNotEnough
  | errCancelAgent
  | illegalAction (action : Nat)
  | emptyVoteList
  | alreadyRegistered (address : Address)
  | createContractWithoutData
  | publishAsset (message : String)
  deriving DecidableEq, Repr

/-- The message each error prints. -/
def Error.message : Error → String
  | .errVote => "error vote"
  | .errInsufficientBalance => "insufficient balance for transfer"
  | .errInsufficientBalanceForGas => "insufficient balance to pay for gas"
  | .errGasLimitReached => "gas limit reached"
  | .errNonceTooHigh => "nonce too high"
  | .errNonceTooLow => "nonce too low"
  | .errOutOfGas => "out of gas"
  | .errDuplicateRegisterAgent => "duplicate register vote address"
  | .errAddVote => "delegate not exist when add vote"
  | .errSubVote => "delegate not exist when sub vote"
  | .errSubVoteNotEnough => "delegate sub error,vote not enough"
  | .errCancelAgent => "delegate not exist when cancel"
  | .illegalAction _ => "Illegal action"
  | .emptyVoteList => "empty vote list"
  | .alreadyRegistered _ => "have already register delegate"
  | .createContractWithoutData => "Create contract but data is nil"
  | .publishAsset message => message

/-- `types.Vote`: the candidate is a pointer, nil when the JSON gives none. -/
structure Vote where
  candidate : Option Address
  operation : Nat
  deriving DecidableEq, Repr

/-- The delegate poll `Vote` checks candidates against, `map[common.Address]types.Candidate`. -/
abbrev DelegateList := SortedMap Address Candidate

/-- `sliceContains`: the first index holding the address. -/
def sliceContains (address : Address) (slice : List Address) : Option Nat :=
  slice.findIdx? (fun a => address == a)

/-- The loop of `changeVoteList`, from the current list and the running difference. The outer
`Except` is a panic; the inner one the error `changeVoteList` returns. The heap comes back in every
case: writes made before an error stay. -/
def changeVoteListLoop (g : Growth) (delegateList : DelegateList) :
    List Vote → Slice → Int → Heap Address →
      Except GoPanic (Except Error (Slice × Int) × Heap Address)
  | [], voteChangeList, diff, h => .ok (.ok (voteChangeList, diff * Params.Em), h)
  | vote :: rest, voteChangeList, diff, h =>
      match vote.operation with
      | 0 =>
          match vote.candidate with
          | none => .error .nilDereference
          | some candidate =>
              match sliceContains candidate (h.read voteChangeList) with
              | none =>
                  if delegateList.contains candidate then
                    let (h, voteChangeList) := voteChangeList.append g h [candidate]
                    changeVoteListLoop g delegateList rest voteChangeList (diff + 1) h
                  else .ok (.error .errVote, h)
              | some _ => .ok (.error .errVote, h)
      | 1 =>
          match vote.candidate with
          | none => .error .nilDereference
          | some candidate =>
              match sliceContains candidate (h.read voteChangeList) with
              | some j =>
                  match voteChangeList.sub 0 j, voteChangeList.sub (j + 1) voteChangeList.len with
                  | some pre, some post =>
                      let (h, voteChangeList) := pre.append g h (h.read post)
                      changeVoteListLoop g delegateList rest voteChangeList (diff - 1) h
                  | _, _ => .error .sliceOutOfRange
              | none => .ok (.error .errVote, h)
      | _ => .ok (.error .errVote, h)

/-- `changeVoteList`: the new list and the coin to lock (negative to unlock). -/
def changeVoteList (g : Growth) (h : Heap Address) (prevVoteList : Slice) (curVoteList : List Vote)
    (delegateList : DelegateList) : Except GoPanic (Except Error (Slice × Int) × Heap Address) :=
  changeVoteListLoop g delegateList curVoteList prevVoteList 0 h

/-- Removing a listed candidate and then adding one outside the poll: `changeVoteList` reports
`ErrVote`, and the stored header, which `Vote` leaves in place, shows the list without the candidate
followed by the list's old last element. -/
theorem changeVoteList_remove_then_fail (g : Growth) {h : Heap Address} {prev : Slice}
    {delegateList : DelegateList} {c x : Address} {j : Nat} (hv : prev.Valid h)
    (hj : sliceContains c (h.read prev) = some j) (hx : delegateList.contains x = false) :
    ∃ h', changeVoteList g h prev [⟨some c, 1⟩, ⟨some x, 0⟩] delegateList = .ok (.error .errVote, h') ∧
      h'.read prev = (h.read prev).eraseIdx j ++ (h.read prev).drop (prev.len - 1) := by
  have hlt : j < prev.len := by
    have hbound := (List.findIdx?_eq_some_iff_getElem.mp hj).1
    rwa [Slice.length_read hv] at hbound
  have hcap := hv.1
  obtain ⟨pre, hpre⟩ : ∃ pre, prev.sub 0 j = some pre := ⟨_, if_pos ⟨Nat.zero_le _, by omega⟩⟩
  obtain ⟨post, hpost⟩ : ∃ post, prev.sub (j + 1) prev.len = some post :=
    ⟨_, if_pos ⟨by omega, hcap⟩⟩
  obtain ⟨-, hstored⟩ := Slice.append_remove g hv hlt hpre hpost
  refine ⟨(pre.append g h (h.read post)).1, ?_, hstored⟩
  have hmissing : delegateList.get? x = none := by simpa using hx
  -- the addition of `x` fails whether or not `x` is still listed
  simp only [changeVoteList, changeVoteListLoop, hj, hpre, hpost]
  split <;> simp [hmissing]

/-- `CanTransfer` for coin (`asset == nil`): the balance covers the amount. -/
def canTransfer (db : StateDB) (addr : Address) (amount : Int) : Bool × StateDB :=
  let (balance, db) := db.getBalance addr
  (decide (amount ≤ balance), db)

/-- `CanTransfer` for an asset. -/
def canTransferAsset (db : StateDB) (addr asset : Address) (amount : Int) : Bool × StateDB :=
  let (balance, db) := db.getAssetBalance addr asset
  (decide (amount ≤ balance), db)

/-- `Transfer`: coin moves from sender to recipient; an asset moves only if the sender's side of
it succeeds. -/
def transfer (db : StateDB) (sender recipient : Address) (asset : Option Address) (amount : Int) :
    StateDB :=
  match asset with
  | none => (db.subBalance sender amount).addBalance recipient amount
  | some asset =>
      let (ok, db) := db.subAssetBalance sender asset amount
      if ok then db.addAssetBalance recipient asset amount else db

/-- `core.Vote`. The outer `Except` is a panic: a nil candidate, or the nil lock balance of an
account created in memory. `some e` is the error `Vote` returns. -/
def vote (g : Growth) (db : StateDB) (user : Address) (votes : List Vote)
    (delegateList : DelegateList) (maxElectDelegate : Int) : Except GoPanic (Option Error × StateDB) :=
  let (prev, db) := db.getVoteList user
  match changeVoteList g db.heap prev votes delegateList with
  | .error p => .error p
  | .ok (.error e, heap) => .ok (some e, { db with heap })
  | .ok (.ok (newVoteList, diff), heap) =>
      let db := { db with heap }
      let (ok, db) := canTransfer db user diff
      if !ok then .ok (some .errInsufficientBalance, db)
      else
        match db.getLockBalance user with
        | (none, _) => .error .nilDereference
        | (some lockBalance, db) =>
            if lockBalance + diff > Params.Em * maxElectDelegate then .ok (some .errVote, db)
            else
              let db := db.subBalance user diff
              (db.addLockBalance user diff).map fun db => (none, db.setVoteList user newVoteList)

/-- Account 10, committed with ten coins, two locked, and a vote list `[1, 2]`. -/
def voterTrie : SortedMap Address Account :=
  (∅ : SortedMap Address Account).insert 10
    { nonce := 1, balance := 10 * Params.Em, codeHash := emptyCodeHash,
      lockBalance := 2 * Params.Em, voteList := [1, 2], assetList := ∅, assetHash := none }

/-- A poll of the delegates 1 and 2. -/
def twoDelegatePoll : DelegateList :=
  ((∅ : DelegateList).insert 1 ⟨1, 0, "one", 0⟩).insert 2 ⟨2, 0, "two", 0⟩

theorem vote_error_rewrites_vote_list :
    (((StateDB.new voterTrie).getVoteList 10).2.heap.read
        ((StateDB.new voterTrie).getVoteList 10).1) = [1, 2] ∧
      ((vote Growth.double (StateDB.new voterTrie) 10 [⟨some 1, 1⟩, ⟨some 3, 0⟩] twoDelegatePoll 30).map
        fun r => (r.1, r.2.heap.read (r.2.getVoteList 10).1, (r.2.getBalance 10).1,
          (r.2.getLockBalance 10).1)) =
        .ok (some .errVote, [2, 2], 10 * Params.Em, some (2 * Params.Em)) := by
  have hbefore : (((StateDB.new voterTrie).getVoteList 10).2.heap.read
      ((StateDB.new voterTrie).getVoteList 10).1) = [1, 2] := by decide
  refine ⟨hbefore, ?_⟩
  have hvalid : ((StateDB.new voterTrie).getVoteList 10).1.Valid
      ((StateDB.new voterTrie).getVoteList 10).2.heap := by
    unfold Slice.Valid
    decide
  have hfound : sliceContains 1 (((StateDB.new voterTrie).getVoteList 10).2.heap.read
      ((StateDB.new voterTrie).getVoteList 10).1) = some 0 := by decide
  have hlen : ((StateDB.new voterTrie).getVoteList 10).1.len = 2 := by decide
  have hobj : (((StateDB.new voterTrie).getVoteList 10).2.stateObjects.get? 10).map
      (fun o => (o.deleted, decide (o.data.voteList = ((StateDB.new voterTrie).getVoteList 10).1),
        o.data.balance, o.data.lockBalance)) =
        some (false, true, ((10 * Params.Em : Nat) : Int), some ((2 * Params.Em : Nat) : Int)) := by
    decide
  rcases hload : (StateDB.new voterTrie).getVoteList 10 with ⟨prev, db⟩
  rw [hload] at hbefore hvalid hfound hlen hobj
  dsimp only at hbefore hvalid hfound hlen hobj
  obtain ⟨obj, hlive, hfields⟩ := Option.map_eq_some_iff.mp hobj
  simp only [Prod.mk.injEq, decide_eq_true_eq] at hfields
  obtain ⟨hdeleted, hlist, hbalance, hlock⟩ := hfields
  -- removing candidate 1 shifts the stored array; adding 3, which is not in the poll, then fails
  obtain ⟨h', hchange, hread⟩ := changeVoteList_remove_then_fail Growth.double hvalid hfound
    (show twoDelegatePoll.contains 3 = false by decide)
  have hlive' : ({ db with heap := h' } : StateDB).stateObjects.get? 10 = some obj := hlive
  unfold vote
  rw [hload]
  dsimp only
  rw [hchange]
  simp only [Except.map, StateDB.getVoteList, StateDB.getBalance, StateDB.getLockBalance,
    StateDB.getField_of_live hlive' hdeleted, hlist, hbalance, hlock]
  rw [hread, hbefore, hlen]
  rfl

end AuroraChain.Core
