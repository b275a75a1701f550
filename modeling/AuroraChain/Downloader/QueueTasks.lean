import AuroraChain.Downloader.Queue
/-!
# No header fetched twice, and the one way one is lost

For each kind of fetch, a header of the task pool should be waiting exactly once: on the task
queue, or in exactly one pending request. `Accounts` is the "at most once" half, stated against a
list of outstanding headers (every pooled header under its own hash, no hash outstanding twice,
every outstanding header the pooled one); `Covers` is the "at least once" half.

Every operation changes a pool and its outstanding headers in one of three ways (`Moves`): it
moves headers between the task queue and the pending requests, a permutation read off `GoHeap`'s
lemmas and the pending pool's entries; it schedules a new header into both; or it completes one
and takes it out of both. All three keep `Accounts` and `Covers`. The exception is the
`errInvalidChain` return of `reserveHeaders` for a header outside the cache: it drops that header,
and the headers skipped or picked before it, from the outstanding ones while they stay in the pool
(`reserveHeaders_moves`), and no later call fetches them.
-/

namespace AuroraChain.Downloader

open AuroraChain.Core (Header Hasher)

/-- The headers of one kind waiting to be fetched: those on the task queue, then those of the
pending requests. -/
def Tasks.outstanding (ts : Tasks) : List Header :=
  ts.taskQueue.toList ++ ts.pendPool.entries.flatMap fun e => e.2.headers

section Accounts

variable (hasher : Hasher)

/-- A task pool against the headers outstanding for it: every pooled header sits under its own
hash, no hash is outstanding twice, and every outstanding header is the pooled one. -/
structure Accounts (pool : SortedMap Hash Header) (out : List Header) : Prop where
  keyed : ∀ h x, pool.get? h = some x → hasher.blockHash x = h
  nodup : (out.map hasher.blockHash).Nodup
  pooled : ∀ x ∈ out, pool.get? (hasher.blockHash x) = some x

/-- Every pooled header is outstanding. -/
def Covers (pool : SortedMap Hash Header) (out : List Header) : Prop :=
  ∀ h x, pool.get? h = some x → x ∈ out

/-- How a call may change a pool and its outstanding headers. -/
inductive Moves : SortedMap Hash Header → List Header → SortedMap Hash Header → List Header → Prop
  /-- Headers move between the task queue and the pending requests. -/
  | perm {pool out out'} : out.Perm out' → Moves pool out pool out'
  /-- A header not in the pool is scheduled. -/
  | add {pool out x} : pool.get? (hasher.blockHash x) = none →
      Moves pool out (pool.insert (hasher.blockHash x) x) (x :: out)
  /-- An outstanding header is completed. -/
  | done {pool out x} : Moves pool (x :: out) (pool.erase (hasher.blockHash x)) out
  | trans {pool out pool' out' pool'' out''} :
      Moves pool out pool' out' → Moves pool' out' pool'' out'' → Moves pool out pool'' out''

variable {hasher}
variable {pool pool' : SortedMap Hash Header} {out out' : List Header} {x : Header}

theorem Moves.refl (pool : SortedMap Hash Header) (out : List Header) :
    Moves hasher pool out pool out :=
  .perm (List.Perm.refl out)

theorem Accounts.perm (ha : Accounts hasher pool out) (hp : out.Perm out') :
    Accounts hasher pool out' where
  keyed := ha.keyed
  nodup := (hp.map _).nodup_iff.mp ha.nodup
  pooled y hy := ha.pooled y (hp.mem_iff.mpr hy)

theorem Covers.perm (hc : Covers pool out) (hp : out.Perm out') : Covers pool out' :=
  fun h y hy => hp.mem_iff.mp (hc h y hy)

theorem Accounts.hash_not_mem (ha : Accounts hasher pool (x :: out)) :
    hasher.blockHash x ∉ out.map hasher.blockHash :=
  (List.nodup_cons.mp ha.nodup).1

theorem Accounts.erase (ha : Accounts hasher pool (x :: out)) :
    Accounts hasher (pool.erase (hasher.blockHash x)) out where
  keyed h y hy := by
    rw [SortedMap.get?_erase] at hy
    split at hy
    · cases hy
    · exact ha.keyed h y hy
  nodup := (List.nodup_cons.mp ha.nodup).2
  pooled y hy := by
    have hne : hasher.blockHash y ≠ hasher.blockHash x := fun heq =>
      ha.hash_not_mem (heq ▸ List.mem_map_of_mem hy)
    rw [SortedMap.get?_erase, if_neg hne]
    exact ha.pooled y (List.mem_cons_of_mem x hy)

theorem Covers.erase (ha : Accounts hasher pool (x :: out)) (hc : Covers pool (x :: out)) :
    Covers (pool.erase (hasher.blockHash x)) out := by
  intro h y hy
  rw [SortedMap.get?_erase] at hy
  split at hy
  · cases hy
  · rename_i hne
    rcases List.mem_cons.mp (hc h y hy) with rfl | hmem
    · exact absurd (ha.keyed h _ hy).symm hne
    · exact hmem

theorem Accounts.insert (ha : Accounts hasher pool out) (hx : pool.get? (hasher.blockHash x) = none) :
    Accounts hasher (pool.insert (hasher.blockHash x) x) (x :: out) where
  keyed h y hy := by
    rw [SortedMap.get?_insert] at hy
    split at hy
    · rename_i hh
      cases hy
      exact hh.symm
    · exact ha.keyed h y hy
  nodup := by
    refine List.nodup_cons.mpr ⟨fun hmem => ?_, ha.nodup⟩
    obtain ⟨y, hy, hyx⟩ := List.mem_map.mp hmem
    have hpooled := ha.pooled y hy
    rw [hyx, hx] at hpooled
    cases hpooled
  pooled y hy := by
    rw [SortedMap.get?_insert]
    rcases List.mem_cons.mp hy with rfl | hmem
    · exact if_pos rfl
    · have hne : hasher.blockHash y ≠ hasher.blockHash x := fun heq => by
        have hpooled := ha.pooled y hmem
        rw [heq, hx] at hpooled
        cases hpooled
      rw [if_neg hne]
      exact ha.pooled y hmem

theorem Covers.insert (hc : Covers pool out) :
    Covers (pool.insert (hasher.blockHash x) x) (x :: out) := by
  intro h y hy
  rw [SortedMap.get?_insert] at hy
  split at hy
  · cases hy
    exact List.mem_cons_self ..
  · exact List.mem_cons_of_mem x (hc h y hy)

theorem Moves.accounts (hm : Moves hasher pool out pool' out') (ha : Accounts hasher pool out) :
    Accounts hasher pool' out' := by
  induction hm with
  | perm hp => exact ha.perm hp
  | add hx => exact ha.insert hx
  | done => exact ha.erase
  | trans _ _ ih₁ ih₂ => exact ih₂ (ih₁ ha)

theorem Moves.covers (hm : Moves hasher pool out pool' out') (ha : Accounts hasher pool out)
    (hc : Covers pool out) : Covers pool' out' := by
  induction hm with
  | perm hp => exact hc.perm hp
  | add _ => exact hc.insert
  | done => exact hc.erase ha
  | trans h₁ _ ih₁ ih₂ => exact ih₂ (h₁.accounts ha) (ih₁ ha hc)

theorem Accounts.of_append {lost : List Header} (ha : Accounts hasher pool (lost ++ out)) :
    Accounts hasher pool out where
  keyed := ha.keyed
  nodup := ha.nodup.sublist ((List.sublist_append_right lost out).map _)
  pooled y hy := ha.pooled y (List.mem_append_right lost hy)

theorem Accounts.lost {lost : List Header} (ha : Accounts hasher pool (x :: (lost ++ out))) :
    pool.get? (hasher.blockHash x) = some x ∧ out.count x = 0 := by
  refine ⟨ha.pooled x (List.mem_cons_self ..), List.count_eq_zero_of_not_mem fun hx => ?_⟩
  exact ha.hash_not_mem (List.mem_map_of_mem (List.mem_append_right lost hx))

theorem Accounts.count_eq_one (ha : Accounts hasher pool out) (hc : Covers pool out) {h : Hash}
    {y : Header} (hy : pool.get? h = some y) : out.count y = 1 :=
  List.count_eq_one_of_mem (ha.nodup.of_map _) (hc h y hy)

end Accounts

/-! ## The collections of one kind -/

/-- The task pool of one kind accounts for its outstanding headers. -/
def Tasks.Sound (hasher : Hasher) (ts : Tasks) : Prop := Accounts hasher ts.taskPool ts.outstanding

/-- Every header of the task pool of one kind is outstanding. -/
def Tasks.Complete (ts : Tasks) : Prop := Covers ts.taskPool ts.outstanding

/-- A call's move of the collections of one kind. -/
def Tasks.MovesTo (hasher : Hasher) (ts ts' : Tasks) : Prop :=
  Moves hasher ts.taskPool ts.outstanding ts'.taskPool ts'.outstanding

theorem Tasks.outstanding_requeue (ts : Tasks) (hs : List Header) :
    (ts.requeue hs).outstanding.Perm (hs ++ ts.outstanding) := by
  have hq := GoHeap.foldl_push_perm taskLess ts.taskQueue hs
  have hswap : ((ts.taskQueue.toList ++ hs) ++ ts.pendPool.entries.flatMap fun e => e.2.headers).Perm
      (hs ++ ts.outstanding) := by
    rw [Tasks.outstanding, ← List.append_assoc]
    exact List.perm_append_comm.append_right _
  exact (hq.append_right _).trans hswap

theorem headers_insert {pend : SortedMap String FetchRequest} {id : String} (req : FetchRequest)
    (h : pend.get? id = none) :
    ((pend.insert id req).entries.flatMap fun e => e.2.headers).Perm
      (req.headers ++ pend.entries.flatMap fun e => e.2.headers) := by
  simpa using (pend.perm_insert_of_get?_eq_none req h).flatMap_right fun e => e.2.headers

theorem headers_erase {pend : SortedMap String FetchRequest} {id : String} {req : FetchRequest}
    (h : pend.get? id = some req) :
    (pend.entries.flatMap fun e => e.2.headers).Perm
      (req.headers ++ (pend.erase id).entries.flatMap fun e => e.2.headers) := by
  simpa using (pend.perm_erase_of_get? h).flatMap_right fun e => e.2.headers

theorem Tasks.outstanding_requeue_erase (ts : Tasks) {id : String} {req : FetchRequest}
    (h : ts.pendPool.get? id = some req) :
    ({ ts.requeue req.headers with pendPool := ts.pendPool.erase id } : Tasks).outstanding.Perm
      ts.outstanding := by
  have hq := GoHeap.foldl_push_perm taskLess ts.taskQueue req.headers
  have hback : ((ts.taskQueue.toList ++ req.headers) ++
      (ts.pendPool.erase id).entries.flatMap fun e => e.2.headers).Perm ts.outstanding := by
    rw [List.append_assoc, Tasks.outstanding]
    exact (headers_erase h).symm.append_left _
  exact (hq.append_right _).trans hback

theorem Tasks.revoke_movesTo (hasher : Hasher) (ts : Tasks) (peerId : String) :
    ts.MovesTo hasher (ts.revoke peerId) := by
  unfold Tasks.revoke
  split
  · exact Moves.refl _ _
  · rename_i req h
    exact .perm (ts.outstanding_requeue_erase h).symm

/-! ## Scheduling -/

theorem Tasks.outstanding_addTask (ts : Tasks) (hash : Hash) (header : Header) :
    (ts.addTask hash header).outstanding.Perm (header :: ts.outstanding) := by
  have hq := Array.perm_iff_toList_perm.mp (GoHeap.push_perm taskLess ts.taskQueue header)
  rw [Array.toList_push] at hq
  have hmove : ((ts.taskQueue.toList ++ [header]) ++
      ts.pendPool.entries.flatMap fun e => e.2.headers).Perm (header :: ts.outstanding) := by
    rw [List.append_assoc, List.singleton_append, Tasks.outstanding]
    exact List.perm_middle
  exact (hq.append_right _).trans hmove

theorem Tasks.addTask_movesTo {hasher : Hasher} (ts : Tasks) {header : Header}
    (h : ts.taskPool.get? (hasher.blockHash header) = none) :
    ts.MovesTo hasher (ts.addTask (hasher.blockHash header) header) :=
  .trans (.add h) (.perm (ts.outstanding_addTask _ header).symm)

theorem scheduleLoop_movesTo (hasher : Hasher) :
    ∀ (headers : List Header) (q : Queue) (origin : Nat) (inserts : List Header) (kind : FetchKind),
      (q.tasks kind).MovesTo hasher ((scheduleLoop hasher headers q origin inserts).1.tasks kind)
  | [], q, _, _, kind => Moves.refl _ _
  | header :: rest, q, origin, inserts, kind => by
      rw [scheduleLoop]
      dsimp only
      split
      · exact Moves.refl _ _
      split
      · exact Moves.refl _ _
      split
      · exact scheduleLoop_movesTo hasher rest q origin inserts kind
      split
      · exact scheduleLoop_movesTo hasher rest q origin inserts kind
      rename_i hblocks hreceipts
      refine .trans ?_ (scheduleLoop_movesTo hasher rest _ _ _ kind)
      cases kind with
      | bodies => exact Tasks.addTask_movesTo q.blocks (by simpa using hblocks)
      | receipts =>
          dsimp only [Queue.tasks]
          split
          · exact Tasks.addTask_movesTo q.receipts (by simpa using hreceipts)
          · exact Moves.refl _ _

/-! ## Reservation -/

/-- The headers a reservation holds outstanding: those it skipped, those it picked, and those
still queued or pending. -/
def Reservation.out (r : Reservation) : List Header := r.skip ++ r.send ++ r.tasks.outstanding

theorem Reservation.out_pop {r : Reservation} {x : Header} {rest : Array Header}
    (hpop : GoHeap.pop taskLess r.tasks.taskQueue = some (x, rest)) :
    r.out.Perm (x :: ({ r with tasks := { r.tasks with taskQueue := rest } } : Reservation).out) := by
  have hq := Array.perm_iff_toList_perm.mp (GoHeap.pop_perm taskLess hpop)
  rw [Array.toList_push] at hq
  simp only [Reservation.out, Tasks.outstanding]
  rw [List.perm_iff_count]
  intro y
  have hc := hq.count_eq y
  simp only [List.count_append, List.count_cons, List.count_nil] at hc ⊢
  omega

theorem Reservation.out_keep (r : Reservation) (x : Header) (skip send : List Header)
    (h : skip = r.skip ∧ send = r.send ++ [x] ∨ skip = r.skip ++ [x] ∧ send = r.send) :
    (x :: r.out).Perm ({ r with skip, send } : Reservation).out := by
  simp only [Reservation.out]
  rw [List.perm_iff_count]
  intro y
  rcases h with ⟨rfl, rfl⟩ | ⟨rfl, rfl⟩ <;>
  · simp only [List.count_append, List.count_cons, List.count_nil]
    omega

/-- What a run of the reservation loop does to the pool and the outstanding headers: it leaves
the pending pool, and moves them, or on `errInvalidChain` moves them and drops one header. -/
def LoopMoves (hasher : Hasher) (r : Reservation) (res : Reservation × Bool) : Prop :=
  res.1.tasks.pendPool = r.tasks.pendPool ∧
  (res.2 = false → Moves hasher r.tasks.taskPool r.out res.1.tasks.taskPool res.1.out) ∧
  (res.2 = true → ∃ x, Moves hasher r.tasks.taskPool r.out res.1.tasks.taskPool (x :: res.1.out))

theorem LoopMoves.stop (hasher : Hasher) (r : Reservation) : LoopMoves hasher r (r, false) :=
  ⟨rfl, fun _ => Moves.refl _ _, fun h => Bool.noConfusion h⟩

theorem LoopMoves.fail {hasher : Hasher} {r r' : Reservation} {x : Header}
    (hm : Moves hasher r.tasks.taskPool r.out r'.tasks.taskPool (x :: r'.out))
    (hp : r'.tasks.pendPool = r.tasks.pendPool) : LoopMoves hasher r (r', true) :=
  ⟨hp, fun h => Bool.noConfusion h, fun _ => ⟨x, hm⟩⟩

theorem LoopMoves.prepend {hasher : Hasher} {r r' : Reservation} {res : Reservation × Bool}
    (h : LoopMoves hasher r' res) (hm : Moves hasher r.tasks.taskPool r.out r'.tasks.taskPool r'.out)
    (hp : r'.tasks.pendPool = r.tasks.pendPool) : LoopMoves hasher r res :=
  ⟨h.1.trans hp, fun hb => hm.trans (h.2.1 hb),
    fun hb => (h.2.2 hb).imp fun _ hx => hm.trans hx⟩

theorem reserveLoop_moves (hasher : Hasher) (q : Queue) (lacks : Hash → Bool) (count : Nat)
    (isNoop : Header → Bool) :
    ∀ (fuel : Nat) (r : Reservation),
      LoopMoves hasher r (reserveLoop hasher q lacks count isNoop fuel r)
  | 0, r => LoopMoves.stop hasher r
  | fuel + 1, r => by
      rw [reserveLoop]
      split
      · split
        · exact LoopMoves.stop hasher r
        · rename_i x rest hpop
          have hout := Reservation.out_pop hpop
          dsimp only
          split
          · -- the header is outside the cache: it is dropped
            exact LoopMoves.fail (.perm hout) rfl
          split
          · exact (reserveLoop_moves hasher q lacks count isNoop fuel _).prepend
              (.trans (.perm hout) .done) rfl
          split
          · exact (reserveLoop_moves hasher q lacks count isNoop fuel _).prepend
              (.perm (hout.trans (Reservation.out_keep _ x _ _ (.inr ⟨rfl, rfl⟩)))) rfl
          · exact (reserveLoop_moves hasher q lacks count isNoop fuel _).prepend
              (.perm (hout.trans (Reservation.out_keep _ x _ _ (.inl ⟨rfl, rfl⟩)))) rfl
      · exact LoopMoves.stop hasher r

/-- `reserveHeaders` moves the headers of its kind, or returns `errInvalidChain` having dropped
a popped header and the headers skipped or picked before it. -/
theorem reserveHeaders_moves (hasher : Hasher) (q : Queue) (id : String) (lacks : Hash → Bool)
    (count : Nat) (now : Int) (ts : Tasks) (isNoop : Header → Bool) :
    let res := reserveHeaders hasher q id lacks count now ts isNoop
    (res.2.2.2.2 = none ∧ ts.MovesTo hasher res.1) ∨
    (res.2.2.2.2 = some .invalidChain ∧
      ∃ x lost, Moves hasher ts.taskPool ts.outstanding res.1.taskPool (x :: (lost ++ res.1.outstanding))) := by
  unfold reserveHeaders
  split
  · exact .inl ⟨rfl, Moves.refl _ _⟩
  split
  · exact .inl ⟨rfl, Moves.refl _ _⟩
  rename_i hpend
  have hl := reserveLoop_moves hasher q lacks count isNoop ts.taskQueue.size
    ⟨ts, q.resultCache, ts.space q.resultCache, 0, [], [], false⟩
  generalize reserveLoop hasher q lacks count isNoop ts.taskQueue.size
    ⟨ts, q.resultCache, ts.space q.resultCache, 0, [], [], false⟩ = res at hl ⊢
  obtain ⟨⟨tasks, cache, space, proc, send, skip, progress⟩, failed⟩ := res
  obtain ⟨hp, hok, hfail⟩ := hl
  dsimp only at hp hok hfail ⊢
  cases failed with
  | true =>
      obtain ⟨x, hx⟩ := hfail rfl
      exact .inr ⟨rfl, x, skip ++ send, hx⟩
  | false =>
      have hm := hok rfl
      -- the skipped headers go back on the queue, the picked ones into a new request
      have hskip := tasks.outstanding_requeue skip
      simp only [Bool.false_eq_true, if_false]
      split
      · rename_i hsend
        rw [List.isEmpty_iff.mp hsend] at hm
        exact .inl ⟨rfl, hm.trans (.perm (by simpa [Reservation.out] using hskip.symm))⟩
      · have hnone : (tasks.requeue skip).pendPool.get? id = none := by
          simpa [Tasks.requeue, hp] using hpend
        have hins := headers_insert ⟨id, send, now⟩ hnone
        refine .inl ⟨rfl, hm.trans (.perm ?_)⟩
        simp only [Reservation.out, Tasks.outstanding] at hskip hins ⊢
        rw [List.perm_iff_count] at hskip hins ⊢
        intro y
        have h1 := hskip y
        have h2 := hins y
        simp only [List.count_append] at h1 h2 ⊢
        omega

/-! ## Delivery -/

/-- The delivery loop completes a prefix of the request's headers, one at a time, and leaves the
rest to go back on the queue. -/
theorem deliverLoop_moves {β : Type} (hasher : Hasher) (offset : Nat)
    (reconstruct : Header → β → FetchResult → Except QueueError FetchResult) :
    ∀ (hs : List Header) (items : List β) (d : Delivery), d.left = [] →
      (deliverLoop hasher offset reconstruct hs items d).tasks.outstanding = d.tasks.outstanding ∧
      Moves hasher d.tasks.taskPool (hs ++ d.tasks.outstanding)
        (deliverLoop hasher offset reconstruct hs items d).tasks.taskPool
        ((deliverLoop hasher offset reconstruct hs items d).left ++
          (deliverLoop hasher offset reconstruct hs items d).tasks.outstanding)
  | [], _, d, hd => by
      rw [deliverLoop, hd]
      exact ⟨rfl, Moves.refl _ _⟩
  | _ :: _, [], _, _ => ⟨rfl, Moves.refl _ _⟩
  | header :: rest, item :: items, d, hd => by
      rw [deliverLoop]
      dsimp only
      split
      · exact ⟨rfl, Moves.refl _ _⟩
      split
      · split
        · exact ⟨rfl, Moves.refl _ _⟩
        · refine (deliverLoop_moves hasher offset reconstruct rest items _ ?_).imp id
            fun hm => .trans .done hm
          exact hd
      · exact ⟨rfl, Moves.refl _ _⟩

theorem deliver_movesTo {β : Type} (hasher : Hasher) (q : Queue) (id : String) (ts : Tasks)
    (items : List β) (reconstruct : Header → β → FetchResult → Except QueueError FetchResult) :
    ts.MovesTo hasher (deliver hasher q id ts items reconstruct).1 := by
  unfold deliver
  split
  · exact Moves.refl _ _
  rename_i req hreq
  dsimp only
  have hl := deliverLoop_moves hasher q.resultOffset reconstruct req.headers items
    ⟨{ ts with pendPool := ts.pendPool.erase id }, q.resultCache, 0, none, []⟩ rfl
  generalize deliverLoop hasher q.resultOffset reconstruct req.headers items
    ⟨{ ts with pendPool := ts.pendPool.erase id }, q.resultCache, 0, none, []⟩ = d at hl ⊢
  obtain ⟨-, hm⟩ := hl
  have hin : ts.outstanding.Perm
      (req.headers ++ ({ ts with pendPool := ts.pendPool.erase id } : Tasks).outstanding) := by
    have hc := (headers_erase hreq).count_eq
    simp only [Tasks.outstanding]
    rw [List.perm_iff_count]
    intro y
    have hy := hc y
    simp only [List.count_append] at hy ⊢
    omega
  exact (Moves.perm hin).trans (hm.trans (.perm (d.tasks.outstanding_requeue d.left).symm))

/-! ## Expiry -/

/-- Requeueing the headers of some requests one after another. -/
theorem Tasks.foldl_requeue (es : List (String × FetchRequest)) (ts : Tasks) :
    (es.foldl (fun ts e => ts.requeue e.2.headers) ts).taskPool = ts.taskPool ∧
    (es.foldl (fun ts e => ts.requeue e.2.headers) ts).pendPool = ts.pendPool ∧
    (es.foldl (fun ts e => ts.requeue e.2.headers) ts).taskQueue.toList.Perm
      (ts.taskQueue.toList ++ es.flatMap fun e => e.2.headers) := by
  induction es generalizing ts with
  | nil => simp
  | cons e es ih =>
      obtain ⟨hpool, hpend, hq⟩ := ih (ts.requeue e.2.headers)
      refine ⟨hpool, hpend, hq.trans ?_⟩
      have hpush := GoHeap.foldl_push_perm taskLess ts.taskQueue e.2.headers
      simpa [Tasks.requeue, List.append_assoc] using hpush.append_right (es.flatMap fun e => e.2.headers)

theorem Tasks.expire_movesTo (hasher : Hasher) (rank : String → Nat) (now timeout : Int)
    (ts : Tasks) : ts.MovesTo hasher (ts.expire rank now timeout).1 := by
  unfold Tasks.expire Tasks.MovesTo
  dsimp only
  generalize hp : (fun e : String × FetchRequest => decide (timeout < now - e.2.time)) = p
  obtain ⟨hpool, hpend, hq⟩ := Tasks.foldl_requeue
    ((ts.pendPool.entries.mergeSort fun a b => decide (rank a.1 ≤ rank b.1)).filter p) ts
  have hrem := (List.mergeSort_perm ts.pendPool.entries fun a b => decide (rank a.1 ≤ rank b.1)).filter p
  rw [hpool]
  refine .perm ?_
  simp only [Tasks.outstanding]
  rw [hpend, SortedMap.entries_foldl_erase_filter ts.pendPool p hrem, List.perm_iff_count]
  intro y
  have h1 := hq.count_eq y
  have h2 := (hrem.flatMap_right fun e => e.2.headers).count_eq y
  have h3 := ((List.filter_append_perm p ts.pendPool.entries).flatMap_right
    fun e => e.2.headers).count_eq y
  simp only [List.count_append, List.flatMap_append] at h1 h2 h3 ⊢
  omega

/-! ## Calls and runs -/

theorem Queue.waitResults_tasks {hasher : Hasher} {q q' : Queue} {results : List FetchResult}
    (h : q.waitResults hasher = some (q', results)) (kind : FetchKind) :
    (q'.tasks kind).taskPool = (q.tasks kind).taskPool ∧
      (q'.tasks kind).outstanding = (q.tasks kind).outstanding := by
  unfold Queue.waitResults at h
  dsimp only at h
  split at h
  · cases h
  split at h
  · cases h
    cases kind <;> exact ⟨rfl, rfl⟩
  · cases h
    exact ⟨rfl, rfl⟩

/-- What a call does to the collections of each kind: it moves them, and loses headers only in a
reservation that returns `errInvalidChain`. -/
theorem QueueOp.apply_moves (hasher : Hasher) (q : Queue) (op : QueueOp) (kind : FetchKind) :
    ∃ lost, Moves hasher (q.tasks kind).taskPool (q.tasks kind).outstanding
        ((op.apply hasher q).1.tasks kind).taskPool (lost ++ ((op.apply hasher q).1.tasks kind).outstanding) ∧
      ((op.apply hasher q).2.reserveFailed = false → lost = []) := by
  cases op with
  | prepare offset mode pivot => exact ⟨[], by cases kind <;> exact Moves.refl _ _, fun _ => rfl⟩
  | schedule headers origin =>
      exact ⟨[], scheduleLoop_movesTo hasher headers q origin [] kind, fun _ => rfl⟩
  | reserve k id lacks count now =>
      simp only [QueueOp.apply, Queue.reserve, Queue.tasks_with_resultCache]
      by_cases hk : kind = k
      · subst hk
        rw [Queue.tasks_withTasks_self]
        rcases reserveHeaders_moves hasher q id lacks count now (q.tasks kind) (kind.isNoop hasher)
          with ⟨_, hm⟩ | ⟨herr, x, lost, hm⟩
        · exact ⟨[], hm, fun _ => rfl⟩
        · refine ⟨x :: lost, hm, fun hf => ?_⟩
          rw [herr] at hf
          cases hf
      · rw [Queue.tasks_withTasks_of_ne _ _ hk]
        exact ⟨[], Moves.refl _ _, fun _ => rfl⟩
  | deliverBodies id bodies =>
      simp only [QueueOp.apply, Queue.deliverBodies, Queue.deliverTo, Queue.tasks_with_resultCache]
      cases kind with
      | bodies => exact ⟨[], deliver_movesTo hasher q id _ bodies _, fun _ => rfl⟩
      | receipts => exact ⟨[], Moves.refl _ _, fun _ => rfl⟩
  | deliverReceipts id receiptList =>
      simp only [QueueOp.apply, Queue.deliverReceipts, Queue.deliverTo, Queue.tasks_with_resultCache]
      cases kind with
      | bodies => exact ⟨[], Moves.refl _ _, fun _ => rfl⟩
      | receipts => exact ⟨[], deliver_movesTo hasher q id _ receiptList _, fun _ => rfl⟩
  | revoke peerId =>
      refine ⟨[], ?_, fun _ => rfl⟩
      cases kind with
      | bodies => exact q.blocks.revoke_movesTo hasher peerId
      | receipts => exact q.receipts.revoke_movesTo hasher peerId
  | expire k rank now timeout =>
      refine ⟨[], ?_, fun _ => rfl⟩
      simp only [QueueOp.apply, Queue.expire]
      by_cases hk : kind = k
      · subst hk
        rw [Queue.tasks_withTasks_self]
        exact (q.tasks kind).expire_movesTo hasher rank now timeout
      · rw [Queue.tasks_withTasks_of_ne _ _ hk]
        exact Moves.refl _ _
  | waitResults =>
      refine ⟨[], ?_, fun _ => rfl⟩
      simp only [QueueOp.apply]
      split
      · exact Moves.refl _ _
      · rename_i res h
        obtain ⟨hpool, hout⟩ := Queue.waitResults_tasks h kind
        rw [hpool, hout]
        exact Moves.refl _ _
  | close => exact ⟨[], by cases kind <;> exact Moves.refl _ _, fun _ => rfl⟩

theorem newQueue_accounted (hasher : Hasher) (kind : FetchKind) :
    (newQueue.tasks kind).Sound hasher ∧ (newQueue.tasks kind).Complete := by
  have hsound : Accounts hasher (∅ : SortedMap Hash Header) [] :=
    ⟨fun _ _ h => (nomatch h), List.nodup_nil, fun _ h => (nomatch h)⟩
  have hcomplete : Covers (∅ : SortedMap Hash Header) [] := fun _ _ h => nomatch h
  cases kind <;> exact ⟨hsound, hcomplete⟩

/-- Over any run, no header of either kind is outstanding twice, and every outstanding header is
pooled. -/
theorem Queue.run_sound (hasher : Hasher) :
    ∀ (ops : List QueueOp) (q : Queue), (∀ kind, (q.tasks kind).Sound hasher) →
      ∀ kind, ((q.run hasher ops).1.tasks kind).Sound hasher
  | [], _, hq => hq
  | op :: ops, q, hq => by
      refine Queue.run_sound hasher ops _ fun kind => ?_
      obtain ⟨lost, hm, -⟩ := op.apply_moves hasher q kind
      exact (hm.accounts (hq kind)).of_append

/-- Over a run in which no reservation fails, every pooled header stays outstanding. -/
theorem Queue.run_complete (hasher : Hasher) :
    ∀ (ops : List QueueOp) (q : Queue),
      (∀ kind, (q.tasks kind).Sound hasher ∧ (q.tasks kind).Complete) →
      (∀ o ∈ (q.run hasher ops).2, o.reserveFailed = false) →
      ∀ kind, ((q.run hasher ops).1.tasks kind).Complete
  | [], _, hq, _ => fun kind => (hq kind).2
  | op :: ops, q, hq, hok => by
      have hhead : (op.apply hasher q).2.reserveFailed = false := hok _ (List.mem_cons_self ..)
      refine Queue.run_complete hasher ops _ (fun kind => ?_)
        (fun o ho => hok o (List.mem_cons_of_mem _ ho))
      obtain ⟨lost, hm, hlost⟩ := op.apply_moves hasher q kind
      rw [hlost hhead] at hm
      exact ⟨hm.accounts (hq kind).1, hm.covers (hq kind).1 (hq kind).2⟩

/-- A reservation that returns `errInvalidChain` leaves a header in the task pool with no queue
entry and no request to fetch it. -/
theorem Queue.reserve_loses (hasher : Hasher) (q : Queue) (kind : FetchKind) (id : String)
    (lacks : Hash → Bool) (count : Nat) (now : Int) (hq : (q.tasks kind).Sound hasher)
    (h : (q.reserve hasher kind id lacks count now).2.2.2 = some .invalidChain) :
    ∃ x, ((q.reserve hasher kind id lacks count now).1.tasks kind).taskPool.get?
        (hasher.blockHash x) = some x ∧
      ((q.reserve hasher kind id lacks count now).1.tasks kind).outstanding.count x = 0 := by
  simp only [Queue.reserve, Queue.tasks_with_resultCache, Queue.tasks_withTasks_self] at h ⊢
  rcases reserveHeaders_moves hasher q id lacks count now (q.tasks kind) (kind.isNoop hasher)
    with ⟨hnone, _⟩ | ⟨-, x, lost, hm⟩
  · rw [hnone] at h
    cases h
  · exact ⟨x, (hm.accounts hq).lost⟩

/-- In a queue reached by any run, a reservation that fails with `errInvalidChain` leaves a header
in the task pool that is neither queued nor in a pending request. -/
theorem download_queue_accounting (hasher : Hasher) (ops : List QueueOp) (kind : FetchKind)
    (id : String) (lacks : Hash → Bool) (count : Nat) (now : Int)
    (h : ((newQueue.run hasher ops).1.reserve hasher kind id lacks count now).2.2.2 =
      some .invalidChain) :
    ∃ x, (((newQueue.run hasher ops).1.reserve hasher kind id lacks count now).1.tasks kind).taskPool.get?
        (hasher.blockHash x) = some x ∧
      (((newQueue.run hasher ops).1.reserve hasher kind id lacks count now).1.tasks kind).outstanding.count x
        = 0 :=
  Queue.reserve_loses hasher _ kind id lacks count now
    (Queue.run_sound hasher ops newQueue (fun k => (newQueue_accounted hasher k).1) kind) h

/-- The header numbered `blockCacheLimit`, one past the last slot of a new queue's cache. -/
def headerBeyondCache : Header :=
  { parentHash := 0, coinbase := 0, root := ∅, txHash := 1, receiptHash := 1, bloom := 0,
    number := blockCacheLimit, gasLimit := 0, gasUsed := 0, time := 0, extra := [], agentName := [],
    delegateRoot := ∅, shuffleHash := 0, shuffleBlockNumber := 0 }

/-- A hasher that hashes a header to its transaction root and an empty body to `0`. -/
def txRootHasher : Hasher :=
  ⟨fun _ => 0, fun h => h.txHash, fun _ => 0, fun _ => 0, fun _ => 0, id⟩

/-- A `Prepare` at `0`, then that header scheduled. -/
def beyondCacheRun : List QueueOp :=
  [.prepare 0 .fullSync 0, .schedule [headerBeyondCache] blockCacheLimit]

end AuroraChain.Downloader
