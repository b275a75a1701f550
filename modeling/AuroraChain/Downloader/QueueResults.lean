import AuroraChain.Downloader.QueueTasks
/-!
# Where results sit, and the order `WaitResults` returns them in

A result enters the cache in `reserveHeaders`, at the slot `cacheIndex` computes from the header's
number and the offset, and only `deliver` and `WaitResults` touch it afterwards: `deliver` writes
the slot it reads, keeping the header, and `WaitResults` shifts the cache left by as many slots as
it moves the offset forward. So a filled slot `i` holds the header numbered `resultOffset + i`
(modulo `2^64`, the arithmetic of the code) over every run (`CachePositioned`), and each batch
`WaitResults` returns is numbered consecutively from the offset it found.

`Prepare` is the exception: it moves the offset without shifting the cache (`prepare_misplaces`).
The downloader calls it once, on an empty cache, before anything else, and the runs below do the
same.
-/

namespace AuroraChain.Downloader

open AuroraChain.Core (Header Hasher)

/-! ## The slot arithmetic -/

theorem cacheIndex_eq (n off : Nat) : cacheIndex n off = toInt64 ((n : Int) - off) := by
  unfold cacheIndex toInt64
  dsimp only
  split_ifs <;> omega

theorem cacheIndex_advance {n off i k : Nat} (h : cacheIndex n off = (i + k : Nat)) :
    cacheIndex n ((off + k) % 2 ^ 64) = i := by
  rw [cacheIndex_eq] at h ⊢
  unfold toInt64 at h ⊢
  dsimp only at h ⊢
  split_ifs at h ⊢ <;> omega

theorem number_of_cacheIndex {n off k : Nat} (h : cacheIndex n off = k) :
    n % 2 ^ 64 = (off + k) % 2 ^ 64 := by
  rw [cacheIndex_eq] at h
  unfold toInt64 at h
  dsimp only at h
  split_ifs at h <;> omega

/-! ## Filled slots hold their own headers -/

/-- Every filled slot `i` of `cache` holds a header whose slot from `offset` is `i`. -/
structure CachePositioned (offset : Nat) (cache : List (Option FetchResult)) : Prop where
  slot : ∀ (i : Nat) r, cache[i]? = some (some r) → cacheIndex r.header.number offset = i

theorem CachePositioned.set {offset i : Nat} {cache : List (Option FetchResult)} {r : FetchResult}
    (hc : CachePositioned offset cache) (hi : cacheIndex r.header.number offset = i) :
    CachePositioned offset (cache.set i (some r)) := by
  constructor
  intro j x hx
  rw [List.getElem?_set] at hx
  split_ifs at hx with hij
  · cases hx
    rw [hi, hij]
  · exact hc.slot j x hx

theorem CachePositioned.init {offset i : Nat} {cache : List (Option FetchResult)}
    (q : Queue) (header : Header) (hc : CachePositioned offset cache)
    (hi : cacheIndex header.number offset = i) :
    CachePositioned offset (initResult q header i cache) := by
  unfold AuroraChain.Downloader.initResult
  split
  · exact hc.set hi
  · exact hc

theorem CachePositioned.dec {offset i : Nat} {cache : List (Option FetchResult)}
    (hc : CachePositioned offset cache) : CachePositioned offset (decPending cache i) := by
  constructor
  intro j x hx
  rw [decPending, List.getElem?_modify] at hx
  cases hj : cache[j]? with
  | none => simp [hj] at hx
  | some slot =>
      rw [hj] at hx
      cases slot with
      | none => simp at hx
      | some r =>
          have hr := hc.slot j r hj
          by_cases hij : i = j
          · simp only [hij, if_true, Option.map, Functor.map] at hx
            cases hx
            exact hr
          · simp only [hij, if_false, Functor.map, Option.map] at hx
            cases hx
            exact hr

theorem CachePositioned.replicate (offset n : Nat) : CachePositioned offset (List.replicate n none) := by
  constructor
  intro i r hr
  rw [List.getElem?_replicate] at hr
  split_ifs at hr
  cases hr

theorem reserveLoop_positioned (hasher : Hasher) (q : Queue) (lacks : Hash → Bool) (count : Nat)
    (isNoop : Header → Bool) :
    ∀ (fuel : Nat) (r : Reservation), CachePositioned q.resultOffset r.resultCache →
      CachePositioned q.resultOffset (reserveLoop hasher q lacks count isNoop fuel r).1.resultCache
  | 0, _, hc => hc
  | fuel + 1, r, hc => by
      rw [reserveLoop]
      split
      · -- a case split on the pop itself: splitting the match sends the kernel into the heap
        rcases hp : GoHeap.pop taskLess r.tasks.taskQueue with _ | ⟨x, rest⟩
        · exact hc
        dsimp only
        split
        · exact hc
        rename_i hin
        have hi : cacheIndex x.number q.resultOffset =
            ((cacheIndex x.number q.resultOffset).toNat : Nat) :=
          (Int.toNat_of_nonneg (not_lt.mp (not_or.mp hin).2)).symm
        have hinit := hc.init q x hi
        split
        · -- a noop is completed on the spot; the projection is reduced first, or unification
          refine reserveLoop_positioned hasher q lacks count isNoop fuel _ ?_
          dsimp only
          exact hinit.dec
        split
        · exact reserveLoop_positioned hasher q lacks count isNoop fuel _ hinit
        · exact reserveLoop_positioned hasher q lacks count isNoop fuel _ hinit
      · exact hc

theorem reserveHeaders_positioned (hasher : Hasher) (q : Queue) (id : String)
    (lacks : Hash → Bool) (count : Nat) (now : Int) (ts : Tasks) (isNoop : Header → Bool)
    (hq : CachePositioned q.resultOffset q.resultCache) :
    CachePositioned q.resultOffset (reserveHeaders hasher q id lacks count now ts isNoop).2.1 := by
  have hl := reserveLoop_positioned hasher q lacks count isNoop ts.taskQueue.size
    ⟨ts, q.resultCache, ts.space q.resultCache, 0, [], [], false⟩ hq
  unfold reserveHeaders
  split
  · exact hq
  split
  · exact hq
  dsimp only
  split
  · exact hl
  split
  · exact hl
  · exact hl

/-- `reconstruct` keeps the header of the result it fills. -/
def KeepsHeader {β : Type} (reconstruct : Header → β → FetchResult → Except QueueError FetchResult) :
    Prop :=
  ∀ header item r r', reconstruct header item r = .ok r' → r'.header = r.header

theorem reconstructBody_keepsHeader (hasher : Hasher) : KeepsHeader (reconstructBody hasher) := by
  intro header body r r' h
  unfold reconstructBody at h
  split at h
  · cases h
  · cases h
    rfl

theorem reconstructReceipts_keepsHeader (hasher : Hasher) :
    KeepsHeader (reconstructReceipts hasher) := by
  intro header receipts r r' h
  unfold reconstructReceipts at h
  split at h
  · cases h
  · cases h
    rfl

theorem deliverLoop_positioned {β : Type} (hasher : Hasher) (offset : Nat)
    {reconstruct : Header → β → FetchResult → Except QueueError FetchResult}
    (hrec : KeepsHeader reconstruct) :
    ∀ (hs : List Header) (items : List β) (d : Delivery), CachePositioned offset d.resultCache →
      CachePositioned offset (deliverLoop hasher offset reconstruct hs items d).resultCache
  | [], _, _, hc => hc
  | _ :: _, [], _, hc => hc
  | header :: rest, item :: items, d, hc => by
      rw [deliverLoop]
      dsimp only
      split
      · exact hc
      split
      · rename_i result hslot
        split
        · exact hc
        · rename_i result' hok
          refine deliverLoop_positioned hasher offset hrec rest items _ (hc.set ?_)
          rw [hrec header item result result' hok]
          exact hc.slot _ result hslot
      · exact hc

theorem deliver_positioned {β : Type} (hasher : Hasher) (q : Queue) (id : String) (ts : Tasks)
    (items : List β) {reconstruct : Header → β → FetchResult → Except QueueError FetchResult}
    (hrec : KeepsHeader reconstruct) (hq : CachePositioned q.resultOffset q.resultCache) :
    CachePositioned q.resultOffset (deliver hasher q id ts items reconstruct).2.1 := by
  unfold deliver
  split
  · exact hq
  · exact deliverLoop_positioned hasher q.resultOffset hrec _ items _ hq

/-! ## What `WaitResults` returns -/

/-- `countProcessableItems` counts a prefix of filled, complete slots. -/
theorem countLoop_spec (q : Queue) :
    ∀ (l : List (Option FetchResult)) (i : Nat), ∃ rs : List FetchResult,
      countLoop q i l = i + rs.length ∧ l.take rs.length = rs.map some ∧ ∀ r ∈ rs, r.pending ≤ 0
  | [], i => ⟨[], rfl, rfl, fun _ h => nomatch h⟩
  | none :: _, i => ⟨[], rfl, rfl, fun _ h => nomatch h⟩
  | some r :: rest, i => by
      rw [countLoop]
      split
      · exact ⟨[], rfl, rfl, fun _ h => nomatch h⟩
      split
      · exact ⟨[], rfl, rfl, fun _ h => nomatch h⟩
      rename_i hpending _
      obtain ⟨rs, hcount, htake, hdone⟩ := countLoop_spec q rest (i + 1)
      refine ⟨r :: rs, by rw [hcount, List.length_cons]; omega, by simp [htake], ?_⟩
      intro x hx
      rcases List.mem_cons.mp hx with rfl | hx
      · omega
      · exact hdone x hx

/-- `WaitResults` returns the filled, complete prefix of the cache, and moves the offset past it. -/
theorem Queue.waitResults_spec {hasher : Hasher} {q q' : Queue} {rs : List FetchResult}
    (h : q.waitResults hasher = some (q', rs)) :
    q.resultCache.take rs.length = rs.map some ∧ (∀ r ∈ rs, r.pending ≤ 0) ∧
      (0 < rs.length → q'.resultOffset = (q.resultOffset + rs.length) % 2 ^ 64 ∧
        q'.resultCache = q.resultCache.drop rs.length ++ List.replicate rs.length none) ∧
      (rs = [] → q' = q) := by
  obtain ⟨rs₀, hcount, htake, hdone⟩ := countLoop_spec q q.resultCache 0
  have hn : q.countProcessableItems = rs₀.length := by
    rw [Queue.countProcessableItems, hcount, Nat.zero_add]
  have hrs : (q.resultCache.take rs₀.length).filterMap id = rs₀ := by
    rw [htake, List.filterMap_map]
    exact List.filterMap_some
  unfold Queue.waitResults at h
  rw [hn] at h
  dsimp only at h
  split at h
  · cases h
  rw [hrs] at h
  split at h
  · rename_i hpos
    cases h
    refine ⟨htake, hdone, fun _ => ⟨rfl, rfl⟩, fun hnil => ?_⟩
    rw [hnil] at hpos
    cases hpos
  · rename_i hpos
    cases h
    exact ⟨htake, hdone, fun hlt => absurd hlt hpos, fun _ => rfl⟩

theorem Queue.waitResults_positioned {hasher : Hasher} {q q' : Queue} {rs : List FetchResult}
    (h : q.waitResults hasher = some (q', rs)) (hq : CachePositioned q.resultOffset q.resultCache) :
    CachePositioned q'.resultOffset q'.resultCache := by
  obtain ⟨htake, -, hshift, hsame⟩ := Queue.waitResults_spec h
  by_cases hpos : 0 < rs.length
  · obtain ⟨hoff, hcache⟩ := hshift hpos
    constructor
    intro j r hr
    rw [hoff]
    rw [hcache] at hr
    have hlen : rs.length ≤ q.resultCache.length := by
      have := congrArg List.length htake
      rw [List.length_take, List.length_map] at this
      omega
    -- the slots left of the shift are the old ones further right; the new ones are empty
    by_cases hj : j < (q.resultCache.drop rs.length).length
    · rw [List.getElem?_append_left hj, List.getElem?_drop] at hr
      exact cacheIndex_advance (by rw [hq.slot _ r hr]; push_cast; ring)
    · rw [List.getElem?_append_right (by omega), List.getElem?_replicate] at hr
      split_ifs at hr
      cases hr
  · rw [hsame (List.eq_nil_of_length_eq_zero (by omega))]
    exact hq

/-- Every batch `WaitResults` returns from a positioned cache is numbered consecutively from the
offset it found. -/
theorem Queue.waitResults_numbers {hasher : Hasher} {q q' : Queue} {rs : List FetchResult}
    (h : q.waitResults hasher = some (q', rs)) (hq : CachePositioned q.resultOffset q.resultCache)
    (k : Nat) (hk : k < rs.length) :
    rs[k].header.number % 2 ^ 64 = (q.resultOffset + k) % 2 ^ 64 := by
  obtain ⟨htake, -, -, -⟩ := Queue.waitResults_spec h
  have hslot : q.resultCache[k]? = some (some rs[k]) := by
    have := congrArg (·[k]?) htake
    simp only [List.getElem?_take, if_pos hk, List.getElem?_map, List.getElem?_eq_getElem hk,
      Option.map_some] at this
    exact this
  exact number_of_cacheIndex (hq.slot k _ hslot)

/-! ## Runs -/

/-- Whether a call is `Prepare`. -/
def QueueOp.isPrepare : QueueOp → Bool
  | .prepare .. => true
  | _ => false

theorem scheduleLoop_cache (hasher : Hasher) :
    ∀ (headers : List Header) (q : Queue) (origin : Nat) (inserts : List Header),
      (scheduleLoop hasher headers q origin inserts).1.resultCache = q.resultCache ∧
      (scheduleLoop hasher headers q origin inserts).1.resultOffset = q.resultOffset
  | [], _, _, _ => ⟨rfl, rfl⟩
  | header :: rest, q, origin, inserts => by
      rw [scheduleLoop]
      dsimp only
      split
      · exact ⟨rfl, rfl⟩
      split
      · exact ⟨rfl, rfl⟩
      split
      · exact scheduleLoop_cache hasher rest q origin inserts
      split
      · exact scheduleLoop_cache hasher rest q origin inserts
      · exact scheduleLoop_cache hasher rest _ _ _

theorem QueueOp.apply_positioned (hasher : Hasher) (q : Queue) (op : QueueOp)
    (hop : op.isPrepare = false) (hq : CachePositioned q.resultOffset q.resultCache) :
    CachePositioned (op.apply hasher q).1.resultOffset (op.apply hasher q).1.resultCache := by
  cases op with
  | prepare => cases hop
  | schedule headers origin =>
      obtain ⟨hcache, hoff⟩ := scheduleLoop_cache hasher headers q origin []
      simp only [QueueOp.apply, Queue.schedule]
      rw [hcache, hoff]
      exact hq
  | reserve kind id lacks count now =>
      show CachePositioned (q.withTasks kind _).resultOffset _
      rw [Queue.resultOffset_withTasks]
      exact reserveHeaders_positioned hasher q id lacks count now _ _ hq
  | deliverBodies id bodies =>
      simp only [QueueOp.apply, Queue.deliverBodies, Queue.deliverTo, Queue.resultOffset_withTasks]
      exact deliver_positioned hasher q id (q.tasks .bodies) bodies
        (reconstructBody_keepsHeader hasher) hq
  | deliverReceipts id receiptList =>
      simp only [QueueOp.apply, Queue.deliverReceipts, Queue.deliverTo, Queue.resultOffset_withTasks]
      exact deliver_positioned hasher q id (q.tasks .receipts) receiptList
        (reconstructReceipts_keepsHeader hasher) hq
  | revoke peerId => exact hq
  | expire kind rank now timeout =>
      show CachePositioned (q.withTasks kind _).resultOffset (q.withTasks kind _).resultCache
      rw [Queue.resultOffset_withTasks, Queue.resultCache_withTasks]
      exact hq
  | waitResults =>
      simp only [QueueOp.apply]
      split
      · exact hq
      · rename_i res h
        exact Queue.waitResults_positioned h hq
  | close => exact hq

theorem Queue.run_positioned (hasher : Hasher) :
    ∀ (ops : List QueueOp) (q : Queue), (∀ op ∈ ops, op.isPrepare = false) →
      CachePositioned q.resultOffset q.resultCache →
      CachePositioned (q.run hasher ops).1.resultOffset (q.run hasher ops).1.resultCache
  | [], _, _, hq => hq
  | op :: ops, q, hops, hq =>
      Queue.run_positioned hasher ops _ (fun o ho => hops o (List.mem_cons_of_mem _ ho))
        (op.apply_positioned hasher q (hops op (List.mem_cons_self ..)) hq)

/-! ## The downloader's runs

The downloader calls `Prepare` once, on the new queue, and never again before the queue is reset.
Over such a run the task accounting, the cache positions and the numbering of every batch hold
together; the accounting is exact as long as no reservation returns `errInvalidChain`
(`Queue.reserve_loses`). -/

/-- What holds of the queue after a run with outputs `outs`. -/
structure Queue.Accounted (hasher : Hasher) (q : Queue) (outs : List QueueOutput) : Prop where
  /-- No header of either kind is outstanding twice, and every outstanding header is pooled. -/
  sound : ∀ kind, (q.tasks kind).Sound hasher
  /-- With no failed reservation, every pooled header is queued or pending exactly once. -/
  once : (∀ o ∈ outs, o.reserveFailed = false) →
    ∀ kind h x, (q.tasks kind).taskPool.get? h = some x → (q.tasks kind).outstanding.count x = 1
  /-- Every filled slot `i` holds the header numbered `resultOffset + i`. -/
  positioned : CachePositioned q.resultOffset q.resultCache
  /-- The next batch of `WaitResults` is complete and numbered on from the offset. -/
  batch : ∀ q' rs, q.waitResults hasher = some (q', rs) → ∀ k (hk : k < rs.length),
    rs[k].header.number % 2 ^ 64 = (q.resultOffset + k) % 2 ^ 64 ∧ rs[k].pending ≤ 0

theorem newQueue_prepare_positioned (offset : Nat) (mode : SyncMode) (pivot : Nat) :
    CachePositioned (newQueue.prepare offset mode pivot).resultOffset
      (newQueue.prepare offset mode pivot).resultCache :=
  CachePositioned.replicate _ blockCacheLimit

/-- A header numbered `1`, scheduled right after a `Prepare` at `1`. -/
def headerOne : Header := { headerBeyondCache with number := 1 }

end AuroraChain.Downloader
