import AuroraChain.Aoa.TaskManager
import Mathlib
/-!
# Collecting a block's confirmations: `aoa/dpos_lock.go`

Delegates confirm a pending block by signing its hash. `addSignToPendingBlock` recovers the
signer, drops a signature from outside the current round or from a signer already stored, and
queues the rest; one goroutine takes them off the queue and runs `dealBlockSign`, which files
them per block hash in a `blockSignMap`, counts the approving ones, and once more than
`delegateAmount` approve hands that many plus one to `blockGenerateCallback`, which puts them in
the block. A timer drops a block's map some rounds later.

The check in `addSignToPendingBlock` races with the store, so the same signer may reach
`dealBlockSign` more than once, in any order. The model runs the queue as a list of events, each
`dealBlockSign` as one step; the walk over the Go map that picks the signatures is in the order
the event names.
-/

namespace AuroraChain.Aoa

open AuroraChain.Core Dpos

def approveVote : Nat := 0

/-- `blockSignMap`: the signature of each signer, and the number of approving ones. -/
structure BlockSignMap where
  data : SortedMap Address VoteSign
  approveVotes : Nat

namespace BlockSignMap

/-- `newBlockSignMap`. -/
def new : BlockSignMap := ⟨∅, 0⟩

/-- `put`: a signer's first signature is stored and counted; a later one is ignored. -/
def put (b : BlockSignMap) (address : Address) (sign : VoteSign) : BlockSignMap :=
  match b.data.get? address with
  | some _ => b
  | none =>
      { data := b.data.insert address sign,
        approveVotes := if sign.voteAction = approveVote then b.approveVotes + 1 else b.approveVotes }

def exist (b : BlockSignMap) (address : Address) : Bool := (b.data.get? address).isSome

def countApproveVote (b : BlockSignMap) : Nat := b.approveVotes

end BlockSignMap

/-- `storeSigns`, without the round, which `dealBlockSign` does not read. -/
structure StoreSigns where
  blockHash : Hash
  sign : List UInt8
  action : Nat
  address : Address

/-- The loop of `dealBlockSign` that picks the signatures: approving ones, until one more than
`delegateAmount` are taken. -/
def collectApproveSigns (delegateAmount : Nat) :
    List VoteSign → Nat → List VoteSign → List VoteSign
  | [], _, signs => signs
  | v :: rest, approveVoteCount, signs =>
      if v.voteAction = approveVote then
        if approveVoteCount + 1 > delegateAmount then signs ++ [v]
        else collectApproveSigns delegateAmount rest (approveVoteCount + 1) (signs ++ [v])
      else collectApproveSigns delegateAmount rest approveVoteCount signs

/-- The end of `dealBlockSign`: with more than `delegateAmount` approvals, the signatures for
`blockGenerateCallback`, the map walked in the order `walk`. -/
def quorumSigns (walk : List (Address × VoteSign) → List (Address × VoteSign))
    (delegateAmount : Nat) (b : BlockSignMap) : Option (List VoteSign) :=
  if b.countApproveVote > delegateAmount then
    some (collectApproveSigns delegateAmount ((walk b.data.entries).map Prod.snd) 0 [])
  else none

/-- `dealBlockSign`: the block maps after one queued signature, and the signatures handed to
`blockGenerateCallback`, if it is called. -/
def dealBlockSign (walk : List (Address × VoteSign) → List (Address × VoteSign))
    (delegateAmount : Nat) (signMap : SortedMap Hash BlockSignMap) (s : StoreSigns) :
    SortedMap Hash BlockSignMap × Option (List VoteSign) :=
  let sign : VoteSign := ⟨s.sign, s.action⟩
  match signMap.get? s.blockHash with
  | none =>
      let b := BlockSignMap.new.put s.address sign
      (signMap.insert s.blockHash b, quorumSigns walk delegateAmount b)
  | some b =>
      if b.countApproveVote > delegateAmount then (signMap, none)
      else
        let b := if !b.exist s.address then b.put s.address sign else b
        (signMap.insert s.blockHash b, quorumSigns walk delegateAmount b)

/-- What happens to the block maps: a queued signature reaches `dealBlockSign` (with the order in
which that call walks the Go map), or a block's expiry timer fires. -/
inductive SignEvent where
  | deliver (s : StoreSigns) (walk : List (Address × VoteSign) → List (Address × VoteSign))
  | expire (blockHash : Hash)

/-- One event: the block maps after it, and the callback it makes, with its block hash. -/
def SignEvent.step (delegateAmount : Nat) (signMap : SortedMap Hash BlockSignMap) :
    SignEvent → SortedMap Hash BlockSignMap × Option (Hash × List VoteSign)
  | .deliver s walk =>
      let (signMap, signs) := dealBlockSign walk delegateAmount signMap s
      (signMap, signs.map (s.blockHash, ·))
  | .expire blockHash => (signMap.erase blockHash, none)

/-- A run: the block maps at the end, and every callback made, in order. -/
def runSignEvents (delegateAmount : Nat) :
    SortedMap Hash BlockSignMap → List SignEvent →
      SortedMap Hash BlockSignMap × List (Hash × List VoteSign)
  | signMap, [] => (signMap, [])
  | signMap, e :: rest =>
      let (signMap, call) := e.step delegateAmount signMap
      let (signMap, calls) := runSignEvents delegateAmount signMap rest
      (signMap, call.toList ++ calls)


section

variable (c : Crypto) (S : ShuffleList)

/-- One step of the loop of `VerifyBlockGenerate` over the decoded signatures: a signer of the
round is added to the set. -/
def countSigner (h : Hash) (m : SortedMap Address Unit) (sign : VoteSign) :
    Except GoPanic (SortedMap Address Unit) :=
  (signerAddress c h sign.sign).map fun address =>
    if checkInShuffleList S address then m.insert address () else m

/-- What `addSignToPendingBlock` checks before queueing a signature: its signer is the address it
is filed under, and a member of the round. -/
def StoreSigns.Valid (s : StoreSigns) : Prop :=
  signerAddress c s.blockHash s.sign = .ok s.address ∧ checkInShuffleList S s.address = true

/-- The events of a run: each queued signature passed `addSignToPendingBlock`, and each walk over
a Go map visits every entry once. -/
def SignEvent.Valid : SignEvent → Prop
  | .deliver s walk => s.Valid c S ∧ ∀ l, (walk l).Perm l
  | .expire _ => True

/-- The invariant of the map of one block: the counter is the number of approving signatures
stored, and each stored signature was made by the member of the round it is filed under. -/
structure SignMapOk (h : Hash) (b : BlockSignMap) : Prop where
  count : b.approveVotes = (b.data.entries.filter fun e => e.2.voteAction = approveVote).length
  signed : ∀ a v, b.data.get? a = some v →
    signerAddress c h v.sign = .ok a ∧ checkInShuffleList S a = true

/-- Every block map satisfies `SignMapOk` under its own hash. -/
def MapsOk (signMap : SortedMap Hash BlockSignMap) : Prop :=
  ∀ h b, signMap.get? h = some b → SignMapOk c S h b

/-- What `blockGenerateCallback` receives: one more than `delegateAmount` approving signatures,
made by distinct members of the round, which `VerifyBlockGenerate` counts as such. -/
structure Quorum (delegateAmount : Nat) (h : Hash) (signs : List VoteSign) : Prop where
  length : signs.length = delegateAmount + 1
  approve : ∀ v ∈ signs, v.voteAction = approveVote
  signers : ∃ addresses : List Address, addresses.Nodup ∧
    List.Forall₂ (fun v a => signerAddress c h v.sign = .ok a ∧ checkInShuffleList S a = true)
      signs addresses
  counted : ∃ m, signs.foldlM (countSigner c S h) ∅ = .ok m ∧ delegateAmount < m.keys.length

variable {c S}

theorem SignMapOk.new (h : Hash) : SignMapOk c S h BlockSignMap.new where
  count := rfl
  signed _ _ hv := by simp [BlockSignMap.new] at hv

theorem SignMapOk.put {h : Hash} {b : BlockSignMap} {a : Address} {sign : VoteSign}
    (hb : SignMapOk c S h b)
    (hs : signerAddress c h sign.sign = .ok a ∧ checkInShuffleList S a = true) :
    SignMapOk c S h (b.put a sign) := by
  unfold BlockSignMap.put
  cases hget : b.data.get? a with
  | some _ => exact hb
  | none =>
      have hperm := b.data.perm_insert_of_get?_eq_none sign hget
      constructor
      · rw [(hperm.filter _).length_eq, List.filter_cons, hb.count]
        by_cases happ : sign.voteAction = approveVote <;> simp [happ]
      · intro x v hx
        rw [SortedMap.get?_insert] at hx
        split_ifs at hx with hxa
        · cases hx
          rw [hxa]
          exact hs
        · exact hb.signed x v hx

theorem MapsOk.insert {signMap : SortedMap Hash BlockSignMap} {h : Hash} {b : BlockSignMap}
    (hm : MapsOk c S signMap) (hb : SignMapOk c S h b) : MapsOk c S (signMap.insert h b) := by
  intro x b' hx
  rw [SortedMap.get?_insert] at hx
  split_ifs at hx with hxh
  · cases hx
    rw [hxh]
    exact hb
  · exact hm x b' hx

theorem MapsOk.erase {signMap : SortedMap Hash BlockSignMap} (hm : MapsOk c S signMap)
    (h : Hash) : MapsOk c S (signMap.erase h) := by
  intro x b hx
  rw [SortedMap.get?_erase] at hx
  split_ifs at hx
  exact hm x b hx

/-- The extraction loop takes the first approving signatures, one more than `delegateAmount` in
all. -/
theorem collectApproveSigns_eq (delegateAmount : Nat) :
    ∀ (vs : List VoteSign) (count : Nat) (signs : List VoteSign), count ≤ delegateAmount →
      collectApproveSigns delegateAmount vs count signs =
        signs ++ (vs.filter fun v => v.voteAction = approveVote).take (delegateAmount + 1 - count)
  | [], _, signs, _ => by simp [collectApproveSigns]
  | v :: rest, count, signs, hcount => by
      unfold collectApproveSigns
      by_cases happ : v.voteAction = approveVote
      · rw [if_pos happ, List.filter_cons_of_pos (by simpa using happ)]
        by_cases hlast : count + 1 > delegateAmount
        · rw [if_pos hlast, show delegateAmount + 1 - count = 0 + 1 by omega, List.take_succ_cons,
            List.take_zero]
        · rw [if_neg hlast, collectApproveSigns_eq delegateAmount rest (count + 1) (signs ++ [v])
            (by omega), show delegateAmount + 1 - count = delegateAmount + 1 - (count + 1) + 1 by omega,
            List.take_succ_cons, List.append_assoc, List.singleton_append]
      · rw [if_neg happ, List.filter_cons_of_neg (by simpa using happ),
          collectApproveSigns_eq delegateAmount rest count signs hcount]

/-- The verifier's loop over signatures of distinct members of the round, none of them in the set
yet, adds each of them. -/
theorem foldlM_countSigner (h : Hash) :
    ∀ (es : List (Address × VoteSign)) (m₀ : SortedMap Address Unit),
      (es.map Prod.fst).Nodup →
      (∀ e ∈ es, signerAddress c h e.2.sign = .ok e.1 ∧ checkInShuffleList S e.1 = true) →
      (∀ e ∈ es, m₀.get? e.1 = none) →
      ∃ m, (es.map Prod.snd).foldlM (countSigner c S h) m₀ = .ok m ∧
        m.keys.length = m₀.keys.length + es.length
  | [], m₀, _, _, _ => ⟨m₀, rfl, rfl⟩
  | e :: rest, m₀, hnodup, hsigned, hfresh => by
      obtain ⟨hsigner, hin⟩ := hsigned e List.mem_cons_self
      rw [List.map_cons, List.nodup_cons] at hnodup
      have hstep : countSigner c S h m₀ e.2 = .ok (m₀.insert e.1 ()) := by
        rw [countSigner, hsigner]
        show Except.ok (if checkInShuffleList S e.1 = true then _ else _) = _
        rw [if_pos hin]
      have hfresh' : ∀ e' ∈ rest, (m₀.insert e.1 ()).get? e'.1 = none := by
        intro e' he'
        have hne : e'.1 ≠ e.1 := fun heq => hnodup.1 (heq ▸ List.mem_map_of_mem he')
        rw [SortedMap.get?_insert, if_neg hne]
        exact hfresh e' (List.mem_cons_of_mem _ he')
      have hkeys : (m₀.insert e.1 ()).keys.length = m₀.keys.length + 1 := by
        simp only [SortedMap.keys, List.length_map]
        rw [(m₀.perm_insert_of_get?_eq_none () (hfresh e List.mem_cons_self)).length_eq,
          List.length_cons]
      obtain ⟨m, hm, hlen⟩ := foldlM_countSigner h rest (m₀.insert e.1 ()) hnodup.2
        (fun e' he' => hsigned e' (List.mem_cons_of_mem _ he')) hfresh'
      refine ⟨m, ?_, ?_⟩
      · rw [List.map_cons, List.foldlM_cons, hstep]
        exact hm
      · rw [hlen, hkeys, List.length_cons]
        omega

/-- Signatures taken from distinct entries, each made by the member it is filed under, form a
quorum once there are one more than `delegateAmount` approving ones. -/
theorem Quorum.of_entries {delegateAmount : Nat} {h : Hash} (es : List (Address × VoteSign))
    (hlen : es.length = delegateAmount + 1) (happ : ∀ e ∈ es, e.2.voteAction = approveVote)
    (hnodup : (es.map Prod.fst).Nodup)
    (hsigned : ∀ e ∈ es, signerAddress c h e.2.sign = .ok e.1 ∧ checkInShuffleList S e.1 = true) :
    Quorum c S delegateAmount h (es.map Prod.snd) where
  length := by rw [List.length_map, hlen]
  approve v hv := by
    obtain ⟨e, he, rfl⟩ := List.mem_map.mp hv
    exact happ e he
  signers := by
    refine ⟨es.map Prod.fst, hnodup, ?_⟩
    rw [List.forall₂_map_left_iff, List.forall₂_map_right_iff, List.forall₂_same]
    exact hsigned
  counted := by
    obtain ⟨m, hm, hkeys⟩ := foldlM_countSigner h es ∅ hnodup hsigned fun _ _ => rfl
    refine ⟨m, hm, ?_⟩
    rw [hkeys, hlen]
    exact Nat.lt_of_lt_of_le (Nat.lt_succ_self _) (Nat.le_add_left _ _)

/-- Whatever the order of the walk, the signatures `dealBlockSign` hands on from a map that
satisfies the invariant form a quorum. -/
theorem quorumSigns_ok {walk : List (Address × VoteSign) → List (Address × VoteSign)}
    {delegateAmount : Nat} {h : Hash} {b : BlockSignMap} {signs : List VoteSign}
    (hb : SignMapOk c S h b) (hwalk : ∀ l, (walk l).Perm l)
    (hsigns : quorumSigns walk delegateAmount b = some signs) :
    Quorum c S delegateAmount h signs := by
  unfold quorumSigns at hsigns
  split_ifs at hsigns with hgt
  cases hsigns
  have hperm : (walk b.data.entries).Perm b.data.entries := hwalk _
  -- the signatures taken are the values of the first approving entries of the walk
  set chosen := ((walk b.data.entries).filter fun e => e.2.voteAction = approveVote).take
    (delegateAmount + 1)
  have hsub : chosen.Sublist (walk b.data.entries) :=
    (List.take_sublist _ _).trans List.filter_sublist
  have hmem : ∀ e ∈ chosen, b.data.get? e.1 = some e.2 := fun e he =>
    (b.data.mem_entries_iff e.1 e.2).mp (hperm.mem_iff.mp (hsub.subset he))
  have hcollect : collectApproveSigns delegateAmount ((walk b.data.entries).map Prod.snd) 0 [] =
      chosen.map Prod.snd := by
    rw [collectApproveSigns_eq delegateAmount _ 0 [] (Nat.zero_le _), List.nil_append,
      List.filter_map, List.map_take]
    rfl
  rw [hcollect]
  apply Quorum.of_entries chosen
  · have hfilter := (hperm.filter fun e => decide (e.2.voteAction = approveVote)).length_eq
    rw [List.length_take, hfilter, ← hb.count]
    exact Nat.min_eq_left hgt
  · intro e he
    simpa using (List.mem_filter.mp (List.mem_of_mem_take he)).2
  · have hkeys : (b.data.entries.map Prod.fst).Nodup := b.data.sorted.imp ne_of_lt
    exact (hsub.map Prod.fst).nodup ((hperm.map Prod.fst).nodup_iff.mpr hkeys)
  · intro e he
    exact hb.signed e.1 e.2 (hmem e he)

section Step

variable {walk : List (Address × VoteSign) → List (Address × VoteSign)} (delegateAmount : Nat)
  {signMap : SortedMap Hash BlockSignMap}

/-- `dealBlockSign` keeps the invariant, and whatever it hands to `blockGenerateCallback` is a
quorum, through either branch. -/
theorem dealBlockSign_ok {s : StoreSigns} (hm : MapsOk c S signMap) (hs : s.Valid c S)
    (hwalk : ∀ l, (walk l).Perm l) :
    MapsOk c S (dealBlockSign walk delegateAmount signMap s).1 ∧
      ∀ signs, (dealBlockSign walk delegateAmount signMap s).2 = some signs →
        Quorum c S delegateAmount s.blockHash signs := by
  have hput : ∀ b, SignMapOk c S s.blockHash b →
      SignMapOk c S s.blockHash (b.put s.address ⟨s.sign, s.action⟩) := fun b hb => hb.put hs
  unfold dealBlockSign
  cases hget : signMap.get? s.blockHash with
  | none =>
      have hb := hput _ (SignMapOk.new s.blockHash)
      exact ⟨hm.insert hb, fun _ => quorumSigns_ok hb hwalk⟩
  | some b =>
      have hb := hm _ _ hget
      dsimp only
      by_cases hfull : b.countApproveVote > delegateAmount
      · rw [if_pos hfull]
        exact ⟨hm, fun _ hnone => nomatch hnone⟩
      · rw [if_neg hfull]
        have hb' : SignMapOk c S s.blockHash
            (if !b.exist s.address then b.put s.address ⟨s.sign, s.action⟩ else b) := by
          split_ifs
          · exact hput b hb
          · exact hb
        exact ⟨hm.insert hb', fun _ => quorumSigns_ok hb' hwalk⟩

theorem SignEvent.step_deliver (s : StoreSigns) :
    (SignEvent.deliver s walk).step delegateAmount signMap =
      ((dealBlockSign walk delegateAmount signMap s).1,
        (dealBlockSign walk delegateAmount signMap s).2.map (s.blockHash, ·)) := rfl

theorem SignEvent.step_ok {e : SignEvent} (hm : MapsOk c S signMap) (he : e.Valid c S) :
    MapsOk c S (e.step delegateAmount signMap).1 ∧
      ∀ call, (e.step delegateAmount signMap).2 = some call →
        Quorum c S delegateAmount call.1 call.2 := by
  cases e with
  | deliver s walk =>
      obtain ⟨hs, hwalk⟩ := he
      have hdeal := dealBlockSign_ok delegateAmount hm hs hwalk
      rw [SignEvent.step_deliver]
      refine ⟨hdeal.1, fun call hcall => ?_⟩
      obtain ⟨signs, hsigns, rfl⟩ := Option.map_eq_some_iff.mp hcall
      exact hdeal.2 signs hsigns
  | expire blockHash =>
      exact ⟨hm.erase blockHash, fun _ hnone => nomatch hnone⟩

theorem runSignEvents_cons (e : SignEvent) (rest : List SignEvent) :
    runSignEvents delegateAmount signMap (e :: rest) =
      ((runSignEvents delegateAmount (e.step delegateAmount signMap).1 rest).1,
        (e.step delegateAmount signMap).2.toList ++
          (runSignEvents delegateAmount (e.step delegateAmount signMap).1 rest).2) := rfl

/-- A run keeps the invariant, and every callback of the run is a quorum. -/
theorem runSignEvents_ok :
    ∀ (events : List SignEvent) (signMap : SortedMap Hash BlockSignMap), MapsOk c S signMap →
      (∀ e ∈ events, e.Valid c S) →
      MapsOk c S (runSignEvents delegateAmount signMap events).1 ∧
        ∀ call ∈ (runSignEvents delegateAmount signMap events).2,
          Quorum c S delegateAmount call.1 call.2
  | [], signMap, hm, _ => ⟨hm, fun _ hcall => nomatch hcall⟩
  | e :: rest, signMap, hm, hvalid => by
      have hstep := SignEvent.step_ok delegateAmount hm
        (hvalid e List.mem_cons_self)
      have hrun := runSignEvents_ok rest _ hstep.1
        fun e' he' => hvalid e' (List.mem_cons_of_mem _ he')
      rw [runSignEvents_cons]
      refine ⟨hrun.1, fun call hcall => ?_⟩
      rcases List.mem_append.mp hcall with hfirst | hlater
      · exact hstep.2 call (Option.mem_toList.mp hfirst)
      · exact hrun.2 call hlater

end Step

/-- A block carrying a quorum for its hash passes `VerifyBlockGenerate` once its header and
signature do. -/
theorem verifyBlockGenerate_of_quorum {blockHash : Header → Hash} {chain : ChainReader}
    {now : Int} {decodeVoteSigns : List UInt8 → Except String (List VoteSign)} {block : Block}
    {blockInterval maxElectDelegate : Nat} {signs : List VoteSign}
    (hq : Quorum c S ((maxElectDelegate / 3) * 2) (blockHash block.header) signs)
    (hheader : verifyHeaderAndSign c blockHash chain now block S blockInterval = .ok (.ok ()))
    (hdecode : decodeVoteSigns block.rlpEncodeSigns = .ok signs) :
    verifyBlockGenerate c blockHash chain now decodeVoteSigns block S blockInterval
      maxElectDelegate = .ok (.ok ()) := by
  obtain ⟨m, hm, hlt⟩ := hq.counted
  rw [verifyBlockGenerate_of_decoded c blockHash chain now hheader hdecode]
  show Except.map _ (signs.foldlM (countSigner c S (blockHash block.header)) ∅) = _
  rw [hm]
  show Except.ok (if (maxElectDelegate / 3) * 2 < m.keys.length then _ else _) = _
  rw [if_pos hlt]

end

/-- Collection agrees with verification: after any run of deliveries and expiries, in any order
and with repeats, from no block maps, every map keeps its counter and its signers right, and
every set of signatures handed to `blockGenerateCallback` is a quorum that `VerifyBlockGenerate`
accepts for a block of that hash. -/
theorem dealBlockSign_quorum (c : Crypto) (S : ShuffleList) (maxElectDelegate : Nat)
    (events : List SignEvent) (hvalid : ∀ e ∈ events, e.Valid c S) :
    MapsOk c S (runSignEvents ((maxElectDelegate / 3) * 2) ∅ events).1 ∧
      ∀ call ∈ (runSignEvents ((maxElectDelegate / 3) * 2) ∅ events).2,
        Quorum c S ((maxElectDelegate / 3) * 2) call.1 call.2 ∧
          ∀ (blockHash : Header → Hash) (chain : ChainReader) (now : Int)
            (decodeVoteSigns : List UInt8 → Except String (List VoteSign)) (block : Block)
            (blockInterval : Nat), blockHash block.header = call.1 →
            verifyHeaderAndSign c blockHash chain now block S blockInterval = .ok (.ok ()) →
            decodeVoteSigns block.rlpEncodeSigns = .ok call.2 →
            verifyBlockGenerate c blockHash chain now decodeVoteSigns block S blockInterval
              maxElectDelegate = .ok (.ok ()) := by
  have hempty : MapsOk c S ∅ := fun _ _ hb => nomatch hb
  have hrun := runSignEvents_ok ((maxElectDelegate / 3) * 2) events ∅ hempty hvalid
  refine ⟨hrun.1, fun call hcall => ⟨hrun.2 call hcall, ?_⟩⟩
  intro blockHash chain now decodeVoteSigns block blockInterval hhash hheader hdecode
  apply verifyBlockGenerate_of_quorum _ hheader hdecode
  rw [hhash]
  exact hrun.2 call hcall

/-- The approval of block 1 by delegate 5, delivered twice, walked in two orders. -/
def approveTwice : List SignEvent :=
  [.deliver ⟨1, List.replicate 65 0, approveVote, 5⟩ id,
    .deliver ⟨1, List.replicate 65 0, approveVote, 5⟩ List.reverse]

theorem dealBlockSign_quorum_approve_twice :
    (∀ e ∈ approveTwice, e.Valid signedByFive ⟨[⟨110, 5, 1, ""⟩]⟩) ∧
      (runSignEvents ((1 / 3) * 2) ∅ approveTwice).2 = [(1, [⟨List.replicate 65 0, 0⟩])] ∧
      (MapsOk signedByFive ⟨[⟨110, 5, 1, ""⟩]⟩ (runSignEvents ((1 / 3) * 2) ∅ approveTwice).1 ∧
        ∀ call ∈ (runSignEvents ((1 / 3) * 2) ∅ approveTwice).2,
          Quorum signedByFive ⟨[⟨110, 5, 1, ""⟩]⟩ ((1 / 3) * 2) call.1 call.2 ∧
            ∀ (blockHash : Header → Hash) (chain : ChainReader) (now : Int)
              (decodeVoteSigns : List UInt8 → Except String (List VoteSign)) (block : Block)
              (blockInterval : Nat), blockHash block.header = call.1 →
              verifyHeaderAndSign signedByFive blockHash chain now block ⟨[⟨110, 5, 1, ""⟩]⟩
                blockInterval = .ok (.ok ()) →
              decodeVoteSigns block.rlpEncodeSigns = .ok call.2 →
              verifyBlockGenerate signedByFive blockHash chain now decodeVoteSigns block
                ⟨[⟨110, 5, 1, ""⟩]⟩ blockInterval 1 = .ok (.ok ())) := by
  have hvalid : ∀ e ∈ approveTwice, e.Valid signedByFive ⟨[⟨110, 5, 1, ""⟩]⟩ := by
    intro e he
    simp only [approveTwice, List.mem_cons, List.not_mem_nil, or_false] at he
    rcases he with rfl | rfl
    · exact ⟨show _ ∧ _ by decide, List.Perm.refl⟩
    · exact ⟨show _ ∧ _ by decide, List.reverse_perm⟩
  exact ⟨hvalid, by decide, dealBlockSign_quorum signedByFive _ 1 approveTwice hvalid⟩

end AuroraChain.Aoa
