import AuroraChain.Core.Types
/-!
# Serving a header query: `aoa/handle_msg.go`

`dealGetBlockHeadersMsg` answers a `GetBlockHeadersMsg` with headers from an origin (a hash, or a
number when the hash is zero) onwards, `Skip` blocks apart, towards the head or towards the
genesis. Each round of its loop takes the origin's header, while `Amount`, `MaxHeaderFetch` and
the soft size limit allow, and then advances the origin in one of four ways.

The origin number and `Skip` are `uint64`. Only the forward walk by hash checks that
`current + Skip + 1` does not wrap: the walks by number step by `(Skip + 1) mod 2^64`, so
`Skip = 2^64 - 1` does not move at all, and the reverse walk by hash counts its steps in `int`,
so a `Skip` of `2^63 - 1` or more takes none. A walk that does not move sends the same header
again each round.

The loop is `gatherLoop`, and what it sends is the header of each origin along the walk
(`gatherLoop_along`), whichever way the origin advances. The chain is what the handler reads of
`pm.blockchain`; `GetBlockHashesFromHash` is modelled from those lookups as `core/headerchain.go`
has it.
-/

namespace AuroraChain.Aoa

open AuroraChain.Core

def MaxHeaderFetch : Nat := 192

/-- `softResponseLimit`, two megabytes. -/
def softResponseLimit : Nat := 2 * 1024 * 1024

def estHeaderRlpSize : Nat := 500

/-- `hashOrNumber`: a zero hash means the number is the origin. -/
structure HashOrNumber where
  hash : Hash
  number : Nat
  deriving DecidableEq

/-- `getBlockHeadersData`, as decoded from the message. -/
structure GetBlockHeadersData where
  origin : HashOrNumber
  amount : Nat
  skip : Nat
  reverse : Bool
  deriving DecidableEq

/-- What the handler reads of `pm.blockchain`: `GetHeaderByHash`, `GetHeaderByNumber`,
`GetHeader(hash, number)` and `Header.Hash`. -/
structure HeaderChain where
  getHeaderByHash : Hash → Option Header
  getHeaderByNumber : Nat → Option Header
  getHeader : Hash → Nat → Option Header
  hash : Header → Hash

namespace HeaderChain

variable (bc : HeaderChain)

/-- The loop of `HeaderChain.GetBlockHashesFromHash` from `header`: at most `max` parent hashes,
stopping at the genesis. -/
def blockHashesLoop : Nat → Header → List Hash
  | 0, _ => []
  | max + 1, header =>
      let next := header.parentHash
      match bc.getHeader next ((toUint64 header.number + 2 ^ 64 - 1) % 2 ^ 64) with
      | none => []
      | some header => next :: if header.number = 0 then [] else blockHashesLoop max header

def getBlockHashesFromHash (hash : Hash) (max : Nat) : List Hash :=
  match bc.getHeaderByHash hash with
  | none => []
  | some header => bc.blockHashesLoop max header

/-- The inner loop of the reverse walk by hash, `for i := 0; i < int(query.Skip)+1; i++`: each
step goes to the parent and decrements the `uint64` number. The flag is `unknown`. -/
def walkBack : Nat → Hash → Nat → Hash × Bool
  | 0, hash, _ => (hash, false)
  | k + 1, hash, number =>
      match bc.getHeader hash number with
      | some header => walkBack k header.parentHash ((number + 2 ^ 64 - 1) % 2 ^ 64)
      | none => (hash, true)

end HeaderChain

/-- The `switch` that advances the origin after a header of `uint64` number `number` was taken.
The flag is `unknown`; an index past the end of `GetBlockHashesFromHash`'s slice panics. -/
def advance (bc : HeaderChain) (query : GetBlockHeadersData) (number : Nat) :
    Except GoPanic (GetBlockHeadersData × Bool) :=
  if query.origin.hash ≠ 0 ∧ query.reverse then
    -- hash based traversal towards the genesis block
    let (hash, unknown) :=
      bc.walkBack (toInt64 (toInt64 query.skip + 1)).toNat query.origin.hash number
    .ok ({ query with origin := { query.origin with hash } }, unknown)
  else if query.origin.hash ≠ 0 ∧ !query.reverse then
    -- hash based traversal towards the leaf block, the one walk that checks for a wrap
    let current := number
    let next := (current + query.skip + 1) % 2 ^ 64
    if next ≤ current then .ok (query, true)
    else
      match bc.getHeaderByNumber next with
      | none => .ok (query, true)
      | some header =>
          match (bc.getBlockHashesFromHash (bc.hash header) ((query.skip + 1) % 2 ^ 64))[query.skip]? with
          | none => .error .sliceOutOfRange
          | some h =>
              if h = query.origin.hash then
                .ok ({ query with origin := { query.origin with hash := bc.hash header } }, false)
              else .ok (query, true)
  else if query.reverse then
    -- number based traversal towards the genesis block
    if (query.skip + 1) % 2 ^ 64 ≤ query.origin.number then
      .ok ({ query with
        origin := { query.origin with number := query.origin.number - (query.skip + 1) % 2 ^ 64 } },
        false)
    else .ok (query, true)
  else
    -- number based traversal towards the leaf block
    .ok ({ query with
      origin := { query.origin with number := (query.origin.number + query.skip + 1) % 2 ^ 64 } },
      false)

/-- The state of the gathering loop: the query as advanced so far, `bytes`, `headers` and
`unknown`. -/
structure Gather where
  query : GetBlockHeadersData
  bytes : Nat
  headers : List Header
  unknown : Bool

/-- The loop's condition. -/
def Gather.more (s : Gather) : Bool :=
  !s.unknown && decide ((s.headers.length : Int) < toInt64 s.query.amount) &&
    decide (s.bytes < softResponseLimit) && decide (s.headers.length < MaxHeaderFetch)

/-- The header the round takes: by hash in hash mode, by number otherwise. -/
def originHeader (bc : HeaderChain) (hashMode : Bool) (query : GetBlockHeadersData) :
    Option Header :=
  if hashMode then bc.getHeaderByHash query.origin.hash
  else bc.getHeaderByNumber query.origin.number

/-- The gathering loop. A round that goes on takes one header, so `MaxHeaderFetch` rounds are all
the loop can run (`gatherLoop_fuel`). -/
def gatherLoop (bc : HeaderChain) (hashMode : Bool) : Nat → Gather → Except GoPanic (List Header)
  | 0, s => .ok s.headers
  | fuel + 1, s =>
      if s.more then
        match originHeader bc hashMode s.query with
        | none => .ok s.headers
        | some origin =>
            (advance bc s.query (toUint64 origin.number)).bind fun (query, unknown) =>
              gatherLoop bc hashMode fuel
                { query, bytes := s.bytes + estHeaderRlpSize, headers := s.headers ++ [origin],
                  unknown }
      else .ok s.headers

/-- `dealGetBlockHeadersMsg`, from the decoded query to the headers it sends. -/
def dealGetBlockHeadersMsg (bc : HeaderChain) (query : GetBlockHeadersData) :
    Except GoPanic (List Header) :=
  gatherLoop bc (decide (query.origin.hash ≠ 0)) MaxHeaderFetch
    { query, bytes := 0, headers := [], unknown := false }

/-! ### The loop -/

/-- How many headers the loop's condition lets through: `int(query.Amount)` and `MaxHeaderFetch`.
The size limit is never reached first: `MaxHeaderFetch` headers are far below it. -/
def headerLimit (amount : Nat) : Nat := min (toInt64 amount).toNat MaxHeaderFetch

theorem headerLimit_le (amount : Nat) : headerLimit amount ≤ min amount MaxHeaderFetch := by
  have hle := toInt64_le (Int.natCast_nonneg amount)
  unfold headerLimit
  omega

/-- The loop goes on exactly while it has taken fewer headers than the limit, once it has not
stopped and has counted `estHeaderRlpSize` bytes a header. -/
theorem more_iff {s : Gather} (hu : s.unknown = false)
    (hb : s.bytes = estHeaderRlpSize * s.headers.length) :
    s.more = true ↔ s.headers.length < headerLimit s.query.amount := by
  simp only [Gather.more, hu, hb, Bool.not_false, Bool.true_and, Bool.and_eq_true,
    decide_eq_true_eq]
  simp only [headerLimit, estHeaderRlpSize, softResponseLimit, MaxHeaderFetch]
  omega

theorem Gather.length_lt_of_more {s : Gather} (h : s.more = true) :
    s.headers.length < MaxHeaderFetch ∧ (s.headers.length : Int) < toInt64 s.query.amount := by
  simp only [Gather.more, Bool.and_eq_true, decide_eq_true_eq] at h
  exact ⟨h.2, h.1.1.2⟩

/-- A loop that has stopped sends what it has. -/
theorem gatherLoop_unknown (bc : HeaderChain) (hashMode : Bool) :
    ∀ (fuel : Nat) (s : Gather), s.unknown = true → gatherLoop bc hashMode fuel s = .ok s.headers
  | 0, _, _ => rfl
  | _ + 1, s, hu => by
      rw [gatherLoop, if_neg (by simp [Gather.more, hu])]

/-- `MaxHeaderFetch` rounds are enough: more fuel changes nothing, so the model's bound stands for
Go's unbounded `for`. -/
theorem gatherLoop_fuel (bc : HeaderChain) (hashMode : Bool) :
    ∀ (fuel : Nat) (s : Gather), MaxHeaderFetch ≤ s.headers.length + fuel →
      gatherLoop bc hashMode (fuel + 1) s = gatherLoop bc hashMode fuel s := by
  intro fuel
  induction fuel with
  | zero =>
      intro s hlen
      have hmore : s.more = false :=
        Bool.eq_false_iff.mpr fun h => by
          have := (Gather.length_lt_of_more h).1
          omega
      simp only [gatherLoop, hmore, Bool.false_eq_true, if_false]
  | succ fuel ih =>
      intro s hlen
      rw [gatherLoop, gatherLoop]
      split
      · split
        · rfl
        · congr 1
          funext r
          exact ih _ (by rw [List.length_append, List.length_singleton]; omega)
      · rfl

/-! ### The walk the loop follows -/

/-- The headers along a walk from `query`: the origin's header, then the next origin's, until
`count` headers, a missing header, or the end of the walk (`step` gives `none`). -/
def along (origin : GetBlockHeadersData → Option Header)
    (step : GetBlockHeadersData → Option GetBlockHeadersData) :
    Nat → GetBlockHeadersData → List Header
  | 0, _ => []
  | count + 1, query =>
      match origin query with
      | none => []
      | some header => header :: match step query with
        | none => []
        | some query => along origin step count query

/-- What `advance` answers on a walk `step`: the next query, or the same one and `unknown`. -/
def stepResult (step : GetBlockHeadersData → Option GetBlockHeadersData)
    (query : GetBlockHeadersData) : GetBlockHeadersData × Bool :=
  match step query with
  | some next => (next, false)
  | none => (query, true)

/-- A walk that does not move takes the same header each time. -/
theorem along_fixed {origin : GetBlockHeadersData → Option Header}
    {step : GetBlockHeadersData → Option GetBlockHeadersData} {query : GetBlockHeadersData}
    {header : Header} (horigin : origin query = some header) (hstep : step query = some query) :
    ∀ count, along origin step count query = List.replicate count header
  | 0 => rfl
  | count + 1 => by
      rw [along, horigin]
      dsimp only
      rw [hstep]
      dsimp only
      rw [along_fixed horigin hstep count, List.replicate_succ]

section Along

variable (bc : HeaderChain) (hashMode : Bool) (P : GetBlockHeadersData → Prop)
  (step : GetBlockHeadersData → Option GetBlockHeadersData)
  (hadv : ∀ query header, P query → originHeader bc hashMode query = some header →
    advance bc query (toUint64 header.number) = .ok (stepResult step query))
  (hstep : ∀ query next, P query → step query = some next → P next ∧ next.amount = query.amount)
include hadv hstep

/-- The loop sends the headers along the walk that `advance` follows, from every query the walk
reaches (`P`). The induction is on the fuel; each round takes the walk's next header. -/
theorem gatherLoop_along : ∀ (fuel : Nat) (s : Gather), P s.query → s.unknown = false →
    s.bytes = estHeaderRlpSize * s.headers.length →
    s.headers.length ≤ headerLimit s.query.amount →
    headerLimit s.query.amount ≤ s.headers.length + fuel →
    gatherLoop bc hashMode fuel s = .ok (s.headers ++
      along (originHeader bc hashMode) step (headerLimit s.query.amount - s.headers.length) s.query) := by
  intro fuel
  induction fuel with
  | zero =>
      intro s _ _ _ _ hfuel
      rw [gatherLoop, show headerLimit s.query.amount - s.headers.length = 0 by omega, along,
        List.append_nil]
  | succ fuel ih =>
      intro s hP hu hb hle hfuel
      by_cases hlt : s.headers.length < headerLimit s.query.amount
      · obtain ⟨c, hc⟩ : ∃ c, headerLimit s.query.amount - s.headers.length = c + 1 :=
          ⟨_, (Nat.succ_pred_eq_of_pos (Nat.sub_pos_of_lt hlt)).symm⟩
        rw [gatherLoop, if_pos ((more_iff hu hb).mpr hlt), hc, along]
        cases horigin : originHeader bc hashMode s.query with
        | none => rw [List.append_nil]
        | some header =>
            dsimp only
            rw [hadv _ _ hP horigin, stepResult]
            cases hs : step s.query with
            | none =>
                dsimp only [Except.bind]
                rw [gatherLoop_unknown _ _ _ _ rfl]
            | some next =>
                obtain ⟨hPn, hamount⟩ := hstep _ _ hP hs
                dsimp only [Except.bind]
                rw [ih _ hPn rfl (by rw [List.length_append, List.length_singleton, hb, Nat.mul_succ])
                  (by rw [List.length_append, List.length_singleton, hamount]; omega)
                  (by rw [List.length_append, List.length_singleton, hamount]; omega)]
                dsimp only
                rw [hamount, List.length_append, List.length_singleton,
                  show headerLimit s.query.amount - (s.headers.length + 1) = c by omega,
                  List.append_assoc, List.singleton_append]
      · rw [gatherLoop, if_neg (fun h => hlt ((more_iff hu hb).mp h)),
          show headerLimit s.query.amount - s.headers.length = 0 by omega, along, List.append_nil]

end Along

/-- The loop from the handler's first state sends the headers along the walk. -/
theorem dealGetBlockHeadersMsg_along (bc : HeaderChain) (P : GetBlockHeadersData → Prop)
    (step : GetBlockHeadersData → Option GetBlockHeadersData) (query : GetBlockHeadersData)
    (hadv : ∀ q header, P q → originHeader bc (decide (query.origin.hash ≠ 0)) q = some header →
      advance bc q (toUint64 header.number) = .ok (stepResult step q))
    (hstep : ∀ q next, P q → step q = some next → P next ∧ next.amount = q.amount)
    (hP : P query) :
    dealGetBlockHeadersMsg bc query =
      .ok (along (originHeader bc (decide (query.origin.hash ≠ 0))) step
        (headerLimit query.amount) query) := by
  have hlimit := headerLimit_le query.amount
  rw [dealGetBlockHeadersMsg, gatherLoop_along bc _ P step hadv hstep MaxHeaderFetch _ hP rfl rfl
    (Nat.zero_le _) (by dsimp only; omega)]
  dsimp only
  rw [List.nil_append, List.length_nil, Nat.sub_zero]

/-! ### The walks by number -/

/-- The walks by number as the code advances them, in `uint64`: forward by `Skip + 1` modulo
`2^64`; backward by `(Skip + 1) mod 2^64` while the origin is at least that, else the walk ends. -/
def numberStep (query : GetBlockHeadersData) : Option GetBlockHeadersData :=
  if query.reverse then
    if (query.skip + 1) % 2 ^ 64 ≤ query.origin.number then
      some { query with
        origin := { query.origin with number := query.origin.number - (query.skip + 1) % 2 ^ 64 } }
    else none
  else
    some { query with
      origin := { query.origin with number := (query.origin.number + query.skip + 1) % 2 ^ 64 } }

theorem advance_of_hash_eq_zero (bc : HeaderChain) {query : GetBlockHeadersData}
    (h : query.origin.hash = 0) (number : Nat) :
    advance bc query number = .ok (stepResult numberStep query) := by
  unfold advance stepResult numberStep
  rw [if_neg (by rw [h]; exact fun h' => h'.1 rfl), if_neg (by rw [h]; exact fun h' => h'.1 rfl)]
  cases query.reverse
  · rfl
  · rw [if_pos rfl, if_pos rfl]
    by_cases hc : (query.skip + 1) % 2 ^ 64 ≤ query.origin.number
    · rw [if_pos hc, if_pos hc]
    · rw [if_neg hc, if_neg hc]

theorem numberStep_hash {query next : GetBlockHeadersData} (h : numberStep query = some next) :
    next.origin.hash = query.origin.hash ∧ next.amount = query.amount := by
  unfold numberStep at h
  split at h
  · split at h
    · cases h
      exact ⟨rfl, rfl⟩
    · cases h
  · cases h
    exact ⟨rfl, rfl⟩

/-- A query by number gets the headers along the walk by number: the origin's, then those
`(Skip + 1) mod 2^64` on, while they exist, up to the limit. -/
theorem dealGetBlockHeadersMsg_number (bc : HeaderChain) {query : GetBlockHeadersData}
    (h : query.origin.hash = 0) :
    dealGetBlockHeadersMsg bc query =
      .ok (along (originHeader bc false) numberStep (headerLimit query.amount) query) := by
  have hmode : decide (query.origin.hash ≠ 0) = false := by
    rw [h]
    decide
  have hwalk := dealGetBlockHeadersMsg_along bc (fun q => q.origin.hash = 0) numberStep query
    (fun q _ hq _ => advance_of_hash_eq_zero bc hq _)
    (fun q next hq hnext => ⟨(numberStep_hash hnext).1.trans hq, (numberStep_hash hnext).2⟩) h
  rw [hmode] at hwalk
  exact hwalk

theorem numberStep_of_skip_max {query : GetBlockHeadersData} (hskip : query.skip = 2 ^ 64 - 1)
    (hnumber : query.origin.number < 2 ^ 64) : numberStep query = some query := by
  obtain ⟨⟨hash, number⟩, amount, skip, reverse⟩ := query
  dsimp only at hskip hnumber
  subst hskip
  unfold numberStep
  cases reverse
  · rw [if_neg Bool.false_ne_true]
    dsimp only
    rw [show (number + (2 ^ 64 - 1) + 1) % 2 ^ 64 = number by omega]
  · rw [if_pos rfl]
    dsimp only
    rw [if_pos (by omega), show number - (2 ^ 64 - 1 + 1) % 2 ^ 64 = number by omega]

theorem dealGetBlockHeadersMsg_max_skip_repeats (bc : HeaderChain) (number amount : Nat)
    (reverse : Bool) (header : Header) (hheader : bc.getHeaderByNumber number = some header)
    (hnumber : number < 2 ^ 64) :
    dealGetBlockHeadersMsg bc ⟨⟨0, number⟩, amount, 2 ^ 64 - 1, reverse⟩ =
      .ok (List.replicate (headerLimit amount) header) := by
  rw [dealGetBlockHeadersMsg_number bc rfl]
  exact congrArg Except.ok (along_fixed hheader (numberStep_of_skip_max rfl hnumber) _)

/-- A chain whose lookup by number knows the blocks up to 10, each header holding its number. -/
def numberedChain : HeaderChain :=
  { getHeaderByHash := fun _ => none,
    getHeaderByNumber := fun n => if n ≤ 10 then some (headerAt n) else none,
    getHeader := fun _ _ => none,
    hash := fun _ => 0 }
where
  /-- The header of block `n`, with every other field empty. -/
  headerAt (n : Nat) : Header :=
    { parentHash := 0, coinbase := 0, root := ∅, txHash := 0, receiptHash := 0, bloom := 0,
      number := n, gasLimit := 0, gasUsed := 0, time := 0, extra := [], agentName := [],
      delegateRoot := ∅, shuffleHash := 0, shuffleBlockNumber := 0 }

theorem dealGetBlockHeadersMsg_max_skip_repeats_seven :
    numberedChain.getHeaderByNumber 7 = some (numberedChain.headerAt 7) ∧ 7 < 2 ^ 64 ∧
      dealGetBlockHeadersMsg numberedChain ⟨⟨0, 7⟩, 3, 2 ^ 64 - 1, false⟩ =
        .ok (List.replicate (headerLimit 3) (numberedChain.headerAt 7)) :=
  ⟨rfl, by decide, dealGetBlockHeadersMsg_max_skip_repeats numberedChain 7 3 false _ rfl (by decide)⟩

example : dealGetBlockHeadersMsg numberedChain ⟨⟨0, 7⟩, 3, 2 ^ 64 - 1, true⟩ =
    .ok [numberedChain.headerAt 7, numberedChain.headerAt 7, numberedChain.headerAt 7] := by
  decide +kernel

/-! ### What every reply holds -/

/-- A header of the local chain: one that its lookup by hash or by number returns. -/
def OnChain (bc : HeaderChain) (header : Header) : Prop :=
  (∃ hash, bc.getHeaderByHash hash = some header) ∨ ∃ number, bc.getHeaderByNumber number = some header

theorem originHeader_onChain {bc : HeaderChain} {hashMode : Bool} {query : GetBlockHeadersData}
    {header : Header} (h : originHeader bc hashMode query = some header) : OnChain bc header := by
  unfold originHeader at h
  split at h
  · exact .inl ⟨_, h⟩
  · exact .inr ⟨_, h⟩

theorem advance_amount {bc : HeaderChain} {query next : GetBlockHeadersData} {number : Nat}
    {unknown : Bool} (h : advance bc query number = .ok (next, unknown)) :
    next.amount = query.amount := by
  unfold advance at h
  split at h
  · -- the reverse walk by hash
    split at h
    cases h
    rfl
  · split at h
    · -- the forward walk by hash
      dsimp only at h
      split at h
      · cases h
        rfl
      · split at h
        · cases h
          rfl
        · split at h
          · cases h
          · split at h <;> cases h <;> rfl
    · -- the walks by number
      split at h
      · split at h <;> cases h <;> rfl
      · cases h
        rfl

/-- Every reply of the loop holds at most `Amount` and `MaxHeaderFetch` headers, all of the local
chain, whichever way its origin advances and whatever it wraps to. -/
theorem gatherLoop_within (bc : HeaderChain) (hashMode : Bool) :
    ∀ (fuel : Nat) (s : Gather) (headers : List Header), gatherLoop bc hashMode fuel s = .ok headers →
      s.headers.length ≤ min s.query.amount MaxHeaderFetch → (∀ h ∈ s.headers, OnChain bc h) →
      headers.length ≤ min s.query.amount MaxHeaderFetch ∧ ∀ h ∈ headers, OnChain bc h := by
  intro fuel
  induction fuel with
  | zero =>
      intro s headers hrun hlen hon
      cases hrun
      exact ⟨hlen, hon⟩
  | succ fuel ih =>
      intro s headers hrun hlen hon
      rw [gatherLoop] at hrun
      split at hrun
      · rename_i hmore
        split at hrun
        · cases hrun
          exact ⟨hlen, hon⟩
        · rename_i origin horigin
          obtain ⟨⟨query, unknown⟩, hadv, hrest⟩ := except_bind_eq_ok hrun
          have hamount := advance_amount hadv
          have hlt := Gather.length_lt_of_more hmore
          have hamount_le := toInt64_le (Int.natCast_nonneg s.query.amount)
          have hnext := ih _ _ hrest
            (by dsimp only; rw [hamount, List.length_append, List.length_singleton]; omega)
            (fun h hh => by
              rcases List.mem_append.mp hh with hh | hh
              · exact hon h hh
              · rw [List.mem_singleton.mp hh]
                exact originHeader_onChain horigin)
          rw [hamount] at hnext
          exact hnext
      · cases hrun
        exact ⟨hlen, hon⟩

/-- A reply to `GetBlockHeadersMsg` has at most `min(Amount, MaxHeaderFetch)` headers, all from
the local chain. -/
theorem dealGetBlockHeadersMsg_within {bc : HeaderChain} {query : GetBlockHeadersData}
    {headers : List Header} (h : dealGetBlockHeadersMsg bc query = .ok headers) :
    headers.length ≤ min query.amount MaxHeaderFetch ∧ ∀ header ∈ headers, OnChain bc header :=
  gatherLoop_within bc _ _ _ _ h (Nat.zero_le _) (fun _ hh => by cases hh)

theorem dealGetBlockHeadersMsg_within_every_other :
    dealGetBlockHeadersMsg numberedChain ⟨⟨0, 2⟩, 3, 1, false⟩ =
        .ok [numberedChain.headerAt 2, numberedChain.headerAt 4, numberedChain.headerAt 6] ∧
      [numberedChain.headerAt 2, numberedChain.headerAt 4, numberedChain.headerAt 6].length ≤
        min 3 MaxHeaderFetch ∧
      ∀ header ∈ [numberedChain.headerAt 2, numberedChain.headerAt 4, numberedChain.headerAt 6],
        OnChain numberedChain header := by
  have h : dealGetBlockHeadersMsg numberedChain ⟨⟨0, 2⟩, 3, 1, false⟩ =
      .ok [numberedChain.headerAt 2, numberedChain.headerAt 4, numberedChain.headerAt 6] := by
    decide +kernel
  exact ⟨h, dealGetBlockHeadersMsg_within h⟩

end AuroraChain.Aoa
