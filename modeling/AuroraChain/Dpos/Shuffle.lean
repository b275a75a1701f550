import AuroraChain.Core.Types
import Mathlib
/-!
# The round schedule: `util/shuffle.go`

A round gives each of the top delegates one slot, `blockInterval` seconds apart from the round's
start. `Shuffle` permutes the delegates by swaps driven by the first four hex digits of the SHA-256
digest of the round's seed, `ShuffleNewRound` lays the permuted delegates out in slots, and
`CalShuffleTimeByHeaderTime` finds the start of the round a block time falls in.

SHA-256 is the parameter `sha256`, with its digest length as a field; `strconv.FormatFloat` of a
whole seed is written out (`formatFloatE`). `CalShuffleTimeByHeaderTime` loops until it finds the
round or passes the local time; the model gives it fuel, and `none` is running out of it.
-/

namespace AuroraChain.Dpos

open AuroraChain.Core

/-- A SHA-256 digest. -/
structure Digest where
  bytes : List UInt8
  length_eq : bytes.length = 32

/-- `hex.EncodeToString`: two lower-case hex digits per byte. -/
def hexEncode (bytes : List UInt8) : List Char :=
  bytes.flatMap fun b => [Nat.digitChar (b.toNat / 16), Nat.digitChar (b.toNat % 16)]

/-- `strconv.FormatFloat(v, 'E', -1, 64)` for a whole number `v` that float64 holds exactly: the
shortest mantissa, and an exponent of at least two digits. -/
def formatFloatE (v : Int) : String :=
  let sign := if v < 0 then "-" else ""
  let digits := Nat.toDigits 10 v.natAbs
  let exponent := digits.length - 1
  -- trailing zeros of the mantissa are dropped, but never its first digit
  let mantissa := (digits.head! :: (digits.tail.reverse.dropWhile (· == '0')).reverse)
  let frac := match mantissa with
    | [d] => String.singleton d
    | d :: rest => String.singleton d ++ "." ++ String.ofList rest
    | [] => ""
  let exp := if exponent < 10 then "0" ++ toString exponent else toString exponent
  sign ++ frac ++ "E+" ++ exp

/-- `truncDelegateList[newIndex], truncDelegateList[i] = truncDelegateList[i], truncDelegateList[newIndex]`. -/
def swap (l : List Nat) (newIndex i : Nat) : List Nat :=
  (l.set newIndex (l.getD i 0)).set i (l.getD newIndex 0)

/-- The two loops of `Shuffle`: the inner one swaps slot `i` with the slot named by hex digit `x`
and advances both, for `x` below four; when it stops, the outer loop's `i++` skips a slot and the
inner loop starts again at `x = 0`. Each step advances `i`, so `delCount + 1` steps finish. -/
def shuffleLoop (currentSend : List Char) (delCount : Nat) :
    Nat → Nat → Nat → List Nat → List Nat
  | 0, _, _, l => l
  | fuel + 1, i, x, l =>
      if i < delCount then
        if x < 4 then
          let newIndex := (currentSend.getD x '0').toNat % delCount
          shuffleLoop currentSend delCount fuel (i + 1) (x + 1) (swap l newIndex i)
        else shuffleLoop currentSend delCount fuel (i + 1) 0 l
      else l

/-- `Shuffle(height, delegateNumber)`: a permutation of `0 ..< delegateNumber` seeded by the
height's round number. A zero delegate number divides by zero. -/
def shuffle (sha256 : List UInt8 → Digest) (height : Int) (delegateNumber : Nat) :
    Except GoPanic (List Nat) :=
  if delegateNumber = 0 then .error .divideByZero
  else
    let seed := height.tdiv delegateNumber
    let seed := if height.tmod delegateNumber > 0 then seed + 1 else seed
    let md := sha256 (formatFloatE seed).toUTF8.toList
    let currentSend := hexEncode md.bytes
    .ok (shuffleLoop currentSend delegateNumber (delegateNumber + 1) 0 0 (List.range delegateNumber))

theorem swap_eq_swap {l : List Nat} {a b : Nat} (ha : a < l.length) (hb : b < l.length) :
    swap l a b = l.swap a b := by
  rw [List.swap_eq_of_lt ha hb, swap, List.getD_eq_getElem _ _ hb, List.getD_eq_getElem _ _ ha]

theorem shuffleLoop_perm (currentSend : List Char) (delCount : Nat) (hpos : 0 < delCount) :
    ∀ (fuel i x : Nat) (l : List Nat), l.length = delCount →
      (shuffleLoop currentSend delCount fuel i x l).Perm l := by
  intro fuel
  -- on the fuel: a step swaps two positions of the list, both in range since `% delCount`
  induction fuel with
  | zero => intro i x l _; exact List.Perm.refl l
  | succ fuel ih =>
      intro i x l hlen
      rw [shuffleLoop]
      split
      · rename_i hi
        split
        · have hidx : (currentSend.getD x '0').toNat % delCount < l.length := by
            rw [hlen]; exact Nat.mod_lt _ hpos
          have hswap := swap_eq_swap hidx (by omega : i < l.length)
          refine (ih _ _ _ ?_).trans ?_
          · rw [hswap, List.length_swap, hlen]
          · rw [hswap]; exact List.swap_perm _ _ _
        · exact ih _ _ _ hlen
      · exact List.Perm.refl l

theorem shuffle_perm (sha256 : List UInt8 → Digest) (height : Int) {delegateNumber : Nat}
    (hpos : 0 < delegateNumber) :
    ∃ l, shuffle sha256 height delegateNumber = .ok l ∧ l.Perm (List.range delegateNumber) := by
  unfold shuffle
  rw [if_neg (Nat.pos_iff_ne_zero.mp hpos)]
  exact ⟨_, rfl, shuffleLoop_perm _ _ hpos _ _ _ _ List.length_range⟩

/-- `ShuffleNewRound(beginTime, maxElectDelegate, currentDposList, blockInterval)`: the first
`maxElectDelegate` delegates (or all, if fewer), shuffled, one slot each from `beginTime` on. -/
def shuffleNewRound (sha256 : List UInt8 → Digest) (beginTime : Int) (maxElectDelegate : Nat)
    (currentDposList : List Candidate) (blockInterval : Int) : Except GoPanic (List ShuffleDel) := do
  let maxElectDelegate := if currentDposList.length < maxElectDelegate then currentDposList.length
    else maxElectDelegate
  let truncDelegateList ← shuffle sha256 (beginTime + 1) maxElectDelegate
  (List.range maxElectDelegate).mapM fun index =>
    match truncDelegateList[index]? with
    | none => .error .sliceOutOfRange
    | some delegateIndex =>
        match currentDposList[delegateIndex]? with
        | none => .error .sliceOutOfRange
        | some d =>
            .ok { workTime := toUint64 (beginTime + index * blockInterval), address := d.address,
                  vote := d.vote, nickname := d.nickname }

theorem mapM_ok_mem {ε α β : Type} {f : α → Except ε β} :
    ∀ {xs : List α} {ys : List β}, xs.mapM f = .ok ys → ∀ y ∈ ys, ∃ x ∈ xs, f x = .ok y
  | [], ys, h, y, hy => by
    simp only [List.mapM_nil, pure, Except.pure, Except.ok.injEq] at h
    subst h
    cases hy
  | x :: xs, ys, h, y, hy => by
    rw [List.mapM_cons] at h
    cases hx : f x with
    | error e => simp [hx, bind, Except.bind] at h
    | ok z =>
      cases hrest : xs.mapM f with
      | error e => simp [hx, hrest, bind, Except.bind] at h
      | ok zs =>
        simp only [hx, hrest, bind, Except.bind, pure, Except.pure, Except.ok.injEq] at h
        subst h
        rcases List.mem_cons.mp hy with rfl | hy
        · exact ⟨x, List.mem_cons_self, hx⟩
        · obtain ⟨x', hx', hfx'⟩ := mapM_ok_mem hrest y hy
          exact ⟨x', List.mem_cons_of_mem _ hx', hfx'⟩

theorem mapM_ok_of_forall {ε α β : Type} {f : α → Except ε β} (g : α → β) :
    ∀ {xs : List α}, (∀ x ∈ xs, f x = .ok (g x)) → xs.mapM f = .ok (xs.map g)
  | [], _ => rfl
  | x :: xs, h => by
    rw [List.mapM_cons, h x List.mem_cons_self,
      mapM_ok_of_forall g fun y hy => h y (List.mem_cons_of_mem _ hy)]
    rfl

theorem range_map_getD {α : Type} {l : List α} {n : Nat} (d : α) (h : l.length = n) :
    (List.range n).map (fun i => l.getD i d) = l := by
  subst h
  apply List.ext_getElem (by simp)
  intro i h1 h2
  simp [List.getElem?_eq_getElem h2]

theorem map_take_eq_range_map {α β : Type} (f : α → β) {l : List α} {k : Nat} (d : α)
    (hk : k ≤ l.length) :
    (l.take k).map f = (List.range k).map (fun j => f (l.getD j d)) := by
  apply List.ext_getElem (by simp; omega)
  intro i h1 h2
  have hi : i < l.length := by simp at h2; omega
  simp [List.getElem?_eq_getElem hi]

/-- Every slot of a round `ShuffleNewRound` lays out goes to one of the delegates it was given. -/
theorem shuffleNewRound_address_mem {sha256 : List UInt8 → Digest} {beginTime : Int}
    {maxElectDelegate : Nat} {currentDposList : List Candidate} {blockInterval : Int}
    {round : List ShuffleDel}
    (h : shuffleNewRound sha256 beginTime maxElectDelegate currentDposList blockInterval = .ok round) :
    ∀ del ∈ round, ∃ d ∈ currentDposList, del.address = d.address := by
  intro del hdel
  unfold shuffleNewRound at h
  cases hperm : shuffle sha256 (beginTime + 1) (if currentDposList.length < maxElectDelegate then
      currentDposList.length else maxElectDelegate) with
  | error p => simp [hperm, bind, Except.bind] at h
  | ok perm =>
    simp only [hperm, bind, Except.bind] at h
    obtain ⟨index, -, hindex⟩ := mapM_ok_mem h del hdel
    split at hindex
    · cases hindex
    · split at hindex
      · cases hindex
      · rename_i d hd
        cases hindex
        exact ⟨d, List.mem_of_getElem? hd, rfl⟩

/-- The `i`-th result of a successful `mapM` comes from the `i`-th input. -/
theorem mapM_ok_getElem? {ε α β : Type} {f : α → Except ε β} :
    ∀ {xs : List α} {ys : List β}, xs.mapM f = .ok ys →
      ∀ (i : Nat) (y : β), ys[i]? = some y → ∃ x, xs[i]? = some x ∧ f x = .ok y
  | [], ys, h, i, y, hy => by
    simp only [List.mapM_nil, pure, Except.pure, Except.ok.injEq] at h
    subst h
    cases hy
  | x :: xs, ys, h, i, y, hy => by
    rw [List.mapM_cons] at h
    obtain ⟨z, hx, h⟩ := except_bind_eq_ok h
    obtain ⟨zs, hrest, h⟩ := except_bind_eq_ok h
    cases h
    cases i with
    | zero =>
      cases hy
      exact ⟨x, rfl, hx⟩
    | succ i => exact mapM_ok_getElem? hrest i y hy

/-- Slot `i` of a round starts `i` block intervals after `beginTime`. -/
theorem shuffleNewRound_workTime {sha256 : List UInt8 → Digest} {beginTime : Int}
    {maxElectDelegate : Nat} {currentDposList : List Candidate} {blockInterval : Int}
    {round : List ShuffleDel}
    (h : shuffleNewRound sha256 beginTime maxElectDelegate currentDposList blockInterval = .ok round) :
    ∀ (i : Nat) (del : ShuffleDel), round[i]? = some del →
      del.workTime = toUint64 (beginTime + i * blockInterval) := by
  intro i del hdel
  unfold shuffleNewRound at h
  obtain ⟨perm, -, h⟩ := except_bind_eq_ok h
  obtain ⟨index, hindex, hslot⟩ := mapM_ok_getElem? h i del hdel
  have hlt : i < (List.range _).length := (List.getElem?_eq_some_iff.mp hindex).1
  rw [List.length_range] at hlt
  rw [List.getElem?_range hlt, Option.some.injEq] at hindex
  subst hindex
  split at hslot
  · cases hslot
  · split at hslot
    · cases hslot
    · cases hslot
      rfl

/-- Once the shuffle names only delegates of the list, every read of `ShuffleNewRound` succeeds:
slot `index` goes to delegate `perm[index]`. -/
theorem shuffleNewRound_of_shuffle {sha256 : List UInt8 → Digest} {beginTime : Int}
    {maxElectDelegate : Nat} {currentDposList : List Candidate} {blockInterval : Int}
    {perm : List Nat} (d0 : Candidate)
    (hperm : shuffle sha256 (beginTime + 1) (min maxElectDelegate currentDposList.length) = .ok perm)
    (hlen : perm.length = min maxElectDelegate currentDposList.length)
    (hlt : ∀ j ∈ perm, j < currentDposList.length) :
    shuffleNewRound sha256 beginTime maxElectDelegate currentDposList blockInterval =
      .ok ((List.range (min maxElectDelegate currentDposList.length)).map fun index =>
        let d := currentDposList.getD (perm.getD index 0) d0
        { workTime := toUint64 (beginTime + index * blockInterval), address := d.address,
          vote := d.vote, nickname := d.nickname }) := by
  have hk : (if currentDposList.length < maxElectDelegate then currentDposList.length
      else maxElectDelegate) = min maxElectDelegate currentDposList.length := by
    split <;> omega
  unfold shuffleNewRound
  simp only [hk, hperm, bind, Except.bind]
  apply mapM_ok_of_forall
  intro index hindex
  have hi : index < perm.length := by rw [hlen]; exact List.mem_range.mp hindex
  have hj : perm[index] < currentDposList.length := hlt _ (List.getElem_mem hi)
  simp only [List.getElem?_eq_getElem hi, List.getElem?_eq_getElem hj,
    List.getD_eq_getElem _ _ hi, List.getD_eq_getElem _ _ hj]

theorem shuffleNewRound_one_slot_each (sha256 : List UInt8 → Digest) :
    (∀ (height : Int) (n : Nat), 1 ≤ n →
      ∃ l, shuffle sha256 height n = .ok l ∧ l.Perm (List.range n)) ∧
    ∀ (beginTime : Int) (maxElectDelegate : Nat) (currentDposList : List Candidate)
      (blockInterval : Int), 1 ≤ maxElectDelegate → currentDposList ≠ [] →
      ∃ round, shuffleNewRound sha256 beginTime maxElectDelegate currentDposList blockInterval =
          .ok round ∧
        round.length = min maxElectDelegate currentDposList.length ∧
        (round.map (·.address)).Perm
          ((currentDposList.take (min maxElectDelegate currentDposList.length)).map (·.address)) ∧
        round.map (·.workTime) = (List.range (min maxElectDelegate currentDposList.length)).map
          fun i : Nat => toUint64 (beginTime + i * blockInterval) := by
  refine ⟨fun height n hn => shuffle_perm sha256 height hn, ?_⟩
  intro beginTime maxElectDelegate currentDposList blockInterval hmax hne
  have hkpos : 0 < min maxElectDelegate currentDposList.length := by
    have := List.length_pos_iff.mpr hne
    omega
  obtain ⟨perm, hshuffle, hperm⟩ := shuffle_perm sha256 (beginTime + 1) hkpos
  have hlen : perm.length = min maxElectDelegate currentDposList.length := by
    rw [hperm.length_eq, List.length_range]
  have hlt : ∀ j ∈ perm, j < currentDposList.length := by
    intro j hj
    have := List.mem_range.mp (hperm.subset hj)
    omega
  refine ⟨_, shuffleNewRound_of_shuffle (currentDposList.head hne) hshuffle hlen hlt, by simp, ?_,
    by simp⟩
  have hread : (List.range _).map (fun i => perm.getD i 0) = perm := range_map_getD 0 hlen
  refine .trans (.of_eq ?_) ((hperm.map fun j => (currentDposList.getD j
    (currentDposList.head hne)).address).trans (.of_eq ?_))
  · conv_rhs => rw [← hread]
    rw [List.map_map, List.map_map]
    rfl
  · exact (map_take_eq_range_map _ _ (Nat.min_le_right _ _)).symm

/-- A digest of zero bytes. -/
def zeroDigest (_ : List UInt8) : Digest :=
  ⟨List.replicate 32 0, List.length_replicate⟩

theorem shuffleNewRound_one_slot_each_two_delegates :
    1 ≤ 21 ∧ [⟨7, 3, "a", 0⟩, ⟨9, 2, "b", 1⟩] ≠ ([] : List Candidate) ∧
      ∃ round, shuffleNewRound zeroDigest 100 21 [⟨7, 3, "a", 0⟩, ⟨9, 2, "b", 1⟩] 10 = .ok round ∧
        round.length = min 21 [(⟨7, 3, "a", 0⟩ : Candidate), ⟨9, 2, "b", 1⟩].length ∧
        (round.map (·.address)).Perm
          (([(⟨7, 3, "a", 0⟩ : Candidate), ⟨9, 2, "b", 1⟩].take
            (min 21 [(⟨7, 3, "a", 0⟩ : Candidate), ⟨9, 2, "b", 1⟩].length)).map (·.address)) ∧
        round.map (·.workTime) =
          (List.range (min 21 [(⟨7, 3, "a", 0⟩ : Candidate), ⟨9, 2, "b", 1⟩].length)).map
            fun i : Nat => toUint64 (100 + i * 10) :=
  ⟨by decide, by simp,
    (shuffleNewRound_one_slot_each zeroDigest).2 100 21 _ 10 (by decide) (by simp)⟩

/-- `CalShuffleTimeByHeaderTime` at the local time `now`: the start of the round, counted from
`nextRoundBeginTime` in steps of a round, that `blockTime` falls in; `0` when the backward search
passes zero or the forward search passes `now`. Every sum and product is `int64` arithmetic, and
`count*maxElectDelegate*blockInterval` is grouped from the left as Go groups it. -/
def calShuffleTimeByHeaderTime (now : Int) (fuel : Nat)
    (nextRoundBeginTime blockTime blockInterval maxElectDelegate : Int) : Option Int :=
  let rec forward : Nat → Int → Option Int
    | 0, _ => none
    | fuel + 1, count =>
        let shuffleTime := toInt64 (nextRoundBeginTime +
          toInt64 (toInt64 (count * maxElectDelegate) * blockInterval))
        if shuffleTime ≤ blockTime ∧
            blockTime < toInt64 (shuffleTime + toInt64 (maxElectDelegate * blockInterval)) then
          some shuffleTime
        else if now ≤ shuffleTime then some 0
        else forward fuel (toInt64 (count + 1))
  let rec backward : Nat → Int → Option Int
    | 0, _ => none
    | fuel + 1, count =>
        let shuffleTime := toInt64 (nextRoundBeginTime -
          toInt64 (toInt64 (count * maxElectDelegate) * blockInterval))
        if shuffleTime ≤ blockTime then some shuffleTime
        else if shuffleTime ≤ 0 then some 0
        else backward fuel (toInt64 (count + 1))
  if nextRoundBeginTime = blockTime then some nextRoundBeginTime
  else if nextRoundBeginTime < blockTime then forward fuel 0
  else backward fuel 0

/-- The start of the round of length `round`, counted from `nextRoundBeginTime`, that `blockTime`
falls in. -/
def roundStart (nextRoundBeginTime blockTime round : Int) : Int :=
  nextRoundBeginTime + (blockTime - nextRoundBeginTime) / round * round

section RoundStart

variable {nextRoundBeginTime blockTime round : Int}

theorem roundStart_le (hround : 0 < round) :
    roundStart nextRoundBeginTime blockTime round ≤ blockTime := by
  have h := Int.ediv_mul_le (blockTime - nextRoundBeginTime) hround.ne'
  unfold roundStart
  omega

theorem lt_roundStart_add (hround : 0 < round) :
    blockTime < roundStart nextRoundBeginTime blockTime round + round := by
  have h := Int.lt_ediv_add_one_mul_self (blockTime - nextRoundBeginTime) hround
  unfold roundStart
  rw [Int.add_mul, Int.one_mul] at h
  omega

/-- A time a whole number of rounds from `nextRoundBeginTime` whose round holds `blockTime` is the
round start. -/
theorem roundStart_eq_of_window (hround : 0 < round) {x : Int} (k : Int)
    (hx : x = nextRoundBeginTime + k * round) (hle : x ≤ blockTime) (hlt : blockTime < x + round) :
    roundStart nextRoundBeginTime blockTime round = x := by
  have hdiv : (blockTime - nextRoundBeginTime) / round = k :=
    ((Int.ediv_emod_unique (r := blockTime - x) hround).2
      ⟨by rw [hx]; ring, by omega, by omega⟩).1
  unfold roundStart
  rw [hdiv, hx]

end RoundStart

/-! ### The searches in `int64`

The count the code keeps is the number of rounds stepped, wrapped to `int64`, and the offset it
computes is that number of rounds wrapped. As long as the true shuffle time stays in range the
wrapped one is the true one. -/

section Search

variable {now nextRoundBeginTime blockTime blockInterval maxElectDelegate : Int}

theorem offset_modEq (c : Nat) (maxElectDelegate blockInterval : Int) :
    toInt64 (toInt64 (toInt64 c * maxElectDelegate) * blockInterval) ≡
      c * toInt64 (maxElectDelegate * blockInterval) [ZMOD 2 ^ 64] :=
  calc toInt64 (toInt64 (toInt64 c * maxElectDelegate) * blockInterval)
      ≡ toInt64 (toInt64 c * maxElectDelegate) * blockInterval [ZMOD 2 ^ 64] := toInt64_modEq _
    _ ≡ c * maxElectDelegate * blockInterval [ZMOD 2 ^ 64] :=
        ((toInt64_modEq _).trans ((toInt64_modEq _).mul_right _)).mul_right _
    _ = c * (maxElectDelegate * blockInterval) := by ring
    _ ≡ c * toInt64 (maxElectDelegate * blockInterval) [ZMOD 2 ^ 64] :=
        (toInt64_modEq _).symm.mul_left _

theorem toInt64_count_succ (c : Nat) : toInt64 (toInt64 c + 1) = toInt64 ((c + 1 : Nat) : Int) :=
  toInt64_eq_of_modEq (by push_cast; exact (toInt64_modEq _).add_right 1)

/-- The forward search from `c` rounds, with the rounds before the block's still ahead: it finds
the block's round, or stops at `0` on a round start at or after `now`, which is then before the
block. -/
theorem forward_spec (now : Int) (hround : 0 < toInt64 (maxElectDelegate * blockInterval))
    (hbegin : -2 ^ 63 ≤ nextRoundBeginTime)
    (hblock : blockTime + toInt64 (maxElectDelegate * blockInterval) < 2 ^ 63) :
    ∀ (fuel c : Nat),
      nextRoundBeginTime + c * toInt64 (maxElectDelegate * blockInterval) ≤ blockTime →
      (blockTime - (nextRoundBeginTime + c * toInt64 (maxElectDelegate * blockInterval))).toNat <
        fuel →
      calShuffleTimeByHeaderTime.forward now nextRoundBeginTime blockTime blockInterval
          maxElectDelegate fuel (toInt64 c) =
        some (roundStart nextRoundBeginTime blockTime (toInt64 (maxElectDelegate * blockInterval))) ∨
      now < blockTime ∧ calShuffleTimeByHeaderTime.forward now nextRoundBeginTime blockTime
          blockInterval maxElectDelegate fuel (toInt64 c) = some 0
  | 0, _, _, hfuel => absurd hfuel (Nat.not_lt_zero _)
  | fuel + 1, c, hle, hfuel => by
      have hc : 0 ≤ (c : Int) * toInt64 (maxElectDelegate * blockInterval) :=
        Int.mul_nonneg (Int.natCast_nonneg c) hround.le
      have hshuffle : toInt64 (nextRoundBeginTime +
          toInt64 (toInt64 (toInt64 c * maxElectDelegate) * blockInterval)) =
          nextRoundBeginTime + c * toInt64 (maxElectDelegate * blockInterval) := by
        rw [toInt64_eq_of_modEq ((offset_modEq c _ _).add_left _)]
        exact toInt64_of_lt (by omega) (by omega)
      have hend : toInt64 (nextRoundBeginTime + c * toInt64 (maxElectDelegate * blockInterval) +
          toInt64 (maxElectDelegate * blockInterval)) =
          nextRoundBeginTime + c * toInt64 (maxElectDelegate * blockInterval) +
            toInt64 (maxElectDelegate * blockInterval) :=
        toInt64_of_lt (by omega) (by omega)
      rw [calShuffleTimeByHeaderTime.forward, hshuffle, hend]
      by_cases hwindow : blockTime < nextRoundBeginTime +
          c * toInt64 (maxElectDelegate * blockInterval) + toInt64 (maxElectDelegate * blockInterval)
      · left
        rw [if_pos ⟨hle, hwindow⟩, roundStart_eq_of_window hround c rfl hle hwindow]
      rw [if_neg (fun h => hwindow h.2)]
      by_cases hpast : now ≤ nextRoundBeginTime + c * toInt64 (maxElectDelegate * blockInterval)
      · right
        rw [if_pos hpast]
        exact ⟨by omega, rfl⟩
      have hnext : ((c + 1 : Nat) : Int) * toInt64 (maxElectDelegate * blockInterval) =
          c * toInt64 (maxElectDelegate * blockInterval) +
            toInt64 (maxElectDelegate * blockInterval) := by push_cast; ring
      rw [if_neg hpast, toInt64_count_succ]
      exact forward_spec now hround hbegin hblock fuel (c + 1) (by omega) (by omega)

/-- The backward search from `c` rounds, with the block's round not yet passed: it finds the
block's round, or stops at `0` on a round start at or below zero, which is then after the
block. -/
theorem backward_spec (hround : 0 < toInt64 (maxElectDelegate * blockInterval))
    (hbegin : nextRoundBeginTime < 2 ^ 63) :
    ∀ (fuel c : Nat),
      -2 ^ 63 ≤ nextRoundBeginTime - c * toInt64 (maxElectDelegate * blockInterval) →
      blockTime < nextRoundBeginTime - c * toInt64 (maxElectDelegate * blockInterval) +
        toInt64 (maxElectDelegate * blockInterval) →
      (nextRoundBeginTime - c * toInt64 (maxElectDelegate * blockInterval) - blockTime).toNat <
        fuel →
      calShuffleTimeByHeaderTime.backward nextRoundBeginTime blockTime blockInterval
          maxElectDelegate fuel (toInt64 c) =
        some (roundStart nextRoundBeginTime blockTime (toInt64 (maxElectDelegate * blockInterval))) ∨
      blockTime < 0 ∧ calShuffleTimeByHeaderTime.backward nextRoundBeginTime blockTime
          blockInterval maxElectDelegate fuel (toInt64 c) = some 0
  | 0, _, _, _, hfuel => absurd hfuel (Nat.not_lt_zero _)
  | fuel + 1, c, hlow, hwindow, hfuel => by
      have hc : 0 ≤ (c : Int) * toInt64 (maxElectDelegate * blockInterval) :=
        Int.mul_nonneg (Int.natCast_nonneg c) hround.le
      have hround_lt := toInt64_lt (maxElectDelegate * blockInterval)
      have hshuffle : toInt64 (nextRoundBeginTime -
          toInt64 (toInt64 (toInt64 c * maxElectDelegate) * blockInterval)) =
          nextRoundBeginTime - c * toInt64 (maxElectDelegate * blockInterval) := by
        rw [toInt64_eq_of_modEq ((offset_modEq c _ _).sub_left _)]
        exact toInt64_of_lt hlow (by omega)
      rw [calShuffleTimeByHeaderTime.backward, hshuffle]
      by_cases hle : nextRoundBeginTime - c * toInt64 (maxElectDelegate * blockInterval) ≤ blockTime
      · left
        rw [if_pos hle, roundStart_eq_of_window hround (-c) (by ring) hle hwindow]
      rw [if_neg hle]
      by_cases hzero : nextRoundBeginTime - c * toInt64 (maxElectDelegate * blockInterval) ≤ 0
      · right
        rw [if_pos hzero]
        exact ⟨by omega, rfl⟩
      have hnext : ((c + 1 : Nat) : Int) * toInt64 (maxElectDelegate * blockInterval) =
          c * toInt64 (maxElectDelegate * blockInterval) +
            toInt64 (maxElectDelegate * blockInterval) := by push_cast; ring
      rw [if_neg hzero, toInt64_count_succ]
      exact backward_spec hround hbegin fuel (c + 1) (by omega) (by omega) (by omega)

/-- With a positive round and no overflow past the block's round, enough fuel always ends the
search: at the block's round, or at `0` when the forward search passes `now` before the block or
the backward search passes zero after it. -/
theorem calShuffleTimeByHeaderTime_cases (now : Int)
    (hround : 0 < toInt64 (maxElectDelegate * blockInterval))
    (hbegin : -2 ^ 63 ≤ nextRoundBeginTime ∧ nextRoundBeginTime < 2 ^ 63)
    (hblock : -2 ^ 63 ≤ blockTime ∧
      blockTime + toInt64 (maxElectDelegate * blockInterval) < 2 ^ 63)
    {fuel : Nat} (hfuel : (blockTime - nextRoundBeginTime).natAbs < fuel) :
    calShuffleTimeByHeaderTime now fuel nextRoundBeginTime blockTime blockInterval
        maxElectDelegate =
      some (roundStart nextRoundBeginTime blockTime (toInt64 (maxElectDelegate * blockInterval))) ∨
    calShuffleTimeByHeaderTime now fuel nextRoundBeginTime blockTime blockInterval
        maxElectDelegate = some 0 ∧
      (nextRoundBeginTime < blockTime ∧ now < blockTime ∨
        blockTime < nextRoundBeginTime ∧ blockTime < 0) := by
  have hround_lt := toInt64_lt (maxElectDelegate * blockInterval)
  unfold calShuffleTimeByHeaderTime
  split_ifs with heq hlt
  · left
    rw [roundStart_eq_of_window hround 0 (by ring) heq.le (by omega)]
  · rcases forward_spec now hround hbegin.1 hblock.2 fuel 0 (by simpa using hlt.le)
      (by simp only [Nat.cast_zero, zero_mul, add_zero]; omega) with h | ⟨hnow, h⟩
    · exact .inl h
    · exact .inr ⟨h, .inl ⟨hlt, hnow⟩⟩
  · have hwindow : blockTime < nextRoundBeginTime -
        ((0 : Nat) : Int) * toInt64 (maxElectDelegate * blockInterval) +
          toInt64 (maxElectDelegate * blockInterval) := by
      simp only [Nat.cast_zero, zero_mul, sub_zero]
      omega
    rcases backward_spec hround hbegin.2 fuel 0 (by simpa using hbegin.1) hwindow
      (by simp only [Nat.cast_zero, zero_mul, sub_zero]; omega) with h | ⟨hneg, h⟩
    · exact .inl h
    · exact .inr ⟨h, .inr ⟨by omega, hneg⟩⟩

end Search

theorem calShuffleTimeByHeaderTime_round_start
    (now nextRoundBeginTime blockTime blockInterval maxElectDelegate : Int)
    (hround : 0 < toInt64 (maxElectDelegate * blockInterval))
    (hbegin : -2 ^ 63 ≤ nextRoundBeginTime ∧ nextRoundBeginTime < 2 ^ 63)
    (hblock : -2 ^ 63 ≤ blockTime ∧
      blockTime + toInt64 (maxElectDelegate * blockInterval) < 2 ^ 63) :
    ∃ N : Nat, ∀ fuel, N ≤ fuel → ∃ r,
      calShuffleTimeByHeaderTime now fuel nextRoundBeginTime blockTime blockInterval
          maxElectDelegate = some r ∧
        (blockTime ≤ now → (nextRoundBeginTime ≤ blockTime ∨ 0 < blockTime) →
          (∃ k : Int, r = nextRoundBeginTime + k * toInt64 (maxElectDelegate * blockInterval)) ∧
          r ≤ blockTime ∧ blockTime < r + toInt64 (maxElectDelegate * blockInterval)) := by
  refine ⟨(blockTime - nextRoundBeginTime).natAbs + 1, fun fuel hfuel => ?_⟩
  rcases calShuffleTimeByHeaderTime_cases now hround hbegin hblock
      (show (blockTime - nextRoundBeginTime).natAbs < fuel by omega) with h | ⟨h, hzero⟩
  · exact ⟨_, h, fun _ _ => ⟨⟨_, rfl⟩, roundStart_le hround, lt_roundStart_add hround⟩⟩
  · refine ⟨0, h, fun hnow hcase => ?_⟩
    omega

theorem calShuffleTimeByHeaderTime_round_start_ahead :
    0 < toInt64 (21 * 10) ∧ (-2 ^ 63 ≤ (3030 : Int) ∧ (3030 : Int) < 2 ^ 63) ∧
      (-2 ^ 63 ≤ (2040 : Int) ∧ 2040 + toInt64 (21 * 10) < 2 ^ 63) ∧
      ∃ N : Nat, ∀ fuel, N ≤ fuel → ∃ r,
        calShuffleTimeByHeaderTime 2100 fuel 3030 2040 10 21 = some r ∧
          ((2040 : Int) ≤ 2100 → ((3030 : Int) ≤ 2040 ∨ (0 : Int) < 2040) →
            (∃ k : Int, r = 3030 + k * toInt64 (21 * 10)) ∧ r ≤ 2040 ∧
              2040 < r + toInt64 (21 * 10)) :=
  ⟨by decide, ⟨by norm_num, by norm_num⟩, ⟨by norm_num, by decide⟩,
    calShuffleTimeByHeaderTime_round_start 2100 3030 2040 10 21 (by decide)
      ⟨by norm_num, by norm_num⟩ ⟨by norm_num, by decide⟩⟩

/-- At the top of the `int64` range, a round of ten seconds and a block in the last second: the
search returns `0`, though that is not the start of the block's round. -/
theorem forward_at_top {fuel : Nat} (hfuel : 3 ≤ fuel) :
    calShuffleTimeByHeaderTime (2 ^ 63 - 1) fuel (2 ^ 63 - 21) (2 ^ 63 - 1) 10 1 = some 0 := by
  obtain ⟨f, rfl⟩ := Nat.exists_eq_add_of_le' hfuel
  rfl

/-- Rounds of two seconds from zero never reach a block in the last second of the `int64` range:
each shuffle time is even, and the end of each round wraps or falls short of the block. -/
theorem forward_wraps (fuel : Nat) (count : Int) :
    calShuffleTimeByHeaderTime.forward (2 ^ 63 - 1) 0 (2 ^ 63 - 1) 2 1 fuel count = none := by
  induction fuel generalizing count with
  | zero => rfl
  | succ fuel ih =>
      rw [calShuffleTimeByHeaderTime.forward]
      have heven : toInt64 (0 + toInt64 (toInt64 (count * 1) * 2)) % 2 = 0 := by
        rw [toInt64_emod_two, zero_add, toInt64_emod_two]
        omega
      have hlt := toInt64_lt (0 + toInt64 (toInt64 (count * 1) * 2))
      have hend := toInt64_lt (toInt64 (0 + toInt64 (toInt64 (count * 1) * 2)) + toInt64 (1 * 2))
      rw [if_neg (by omega), if_neg (by omega)]
      exact ih _

theorem calShuffleTimeByHeaderTime_overflows :
    (∀ fuel, 3 ≤ fuel →
      calShuffleTimeByHeaderTime (2 ^ 63 - 1) fuel (2 ^ 63 - 21) (2 ^ 63 - 1) 10 1 = some 0) ∧
    ¬ ((0 : Int) ≤ 2 ^ 63 - 1 ∧ (2 : Int) ^ 63 - 1 < 0 + toInt64 (1 * 10)) ∧
    ∀ fuel, calShuffleTimeByHeaderTime (2 ^ 63 - 1) fuel 0 (2 ^ 63 - 1) 2 1 = none := by
  refine ⟨fun fuel hfuel => forward_at_top hfuel, by decide, fun fuel => ?_⟩
  unfold calShuffleTimeByHeaderTime
  rw [if_neg (by norm_num), if_pos (by norm_num)]
  exact forward_wraps fuel 0

end AuroraChain.Dpos
