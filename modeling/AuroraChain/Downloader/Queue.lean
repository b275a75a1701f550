import AuroraChain.Core.Processor
import AuroraChain.Lib.GoHeap
/-!
# The download queue: `aoa/downloader/queue.go`

The part of the downloader's `queue` that fetches block bodies and receipts. Each of the two kinds
of fetch keeps four collections, which `reserveHeaders`, `deliver` and `expire` take as parameters:
the task pool (the headers still to fetch, by hash), the task queue (a `prque` of headers, lowest
number first), the pending pool (the one request in flight per peer) and the done pool. The result
cache is shared: slot `i` collects the parts of the block numbered `resultOffset + i`, and
`WaitResults` hands the completed prefix to the importer.

The `prque` is Go's `container/heap` over a block-based stack with `Less` comparing priorities, so
it is `Lib/GoHeap.lean`'s heap on an array; the priority of a header is `-float32(number)`, and the
conversion to `float32` rounds, so two close numbers above `2^24` share a priority
(`float32OfUint64`). The order in which `expire` ranges over the pending pool is the runtime's, a
`rank` of the peers. A peer is seen through what the queue asks of it: its id, and whether it
`Lacks` a hash; `deliver`'s `MarkLacking` calls are returned as the hashes marked. `time.Now()` is
a parameter, and `WaitResults`' wait on the condition variable is the operation not being enabled.
The header-skeleton part of the queue (`ScheduleSkeleton`, `ReserveHeaders`, `DeliverHeaders`) is
left out; so are a request's `From` and `Hashes`, which `reserveHeaders` leaves at zero for the
body and receipt requests that `cancel` and `expire` see here.
-/

namespace AuroraChain.Downloader

open AuroraChain.Core (Header Transaction Receipt Hasher)

/-- `blockCacheLimit`, the number of slots of the result cache. -/
def blockCacheLimit : Nat := 8192

/-- `fsHeaderForceVerify`, the headers a fast sync verifies around its pivot. -/
def fsHeaderForceVerify : Nat := 24

inductive SyncMode where
  | fullSync
  | fastSync
  deriving DecidableEq, Repr

/-- The errors the queue returns: `errNoFetchesPending`, `errStaleDelivery`, the downloader's
`errInvalidChain`, `errInvalidBody` and `errInvalidReceipt`, and `deliver`'s
`"partial failure: %v"` around another. -/
inductive QueueError where
  | noFetchesPending
  | staleDelivery
  | invalidChain
  | invalidBody
  | invalidReceipt
  | partialFailure (err : QueueError)
  deriving DecidableEq, Repr

/-- `fetchRequest` of a body or receipt fetch: the peer's id, the headers asked for in order, and
the time of the request. -/
structure FetchRequest where
  peer : String
  headers : List Header
  time : Int
  deriving DecidableEq

/-- `fetchResult`, a block being assembled, with the number of parts still to come. -/
structure FetchResult where
  pending : Int
  header : Header
  uncles : List Header
  transactions : List Transaction
  receipts : List Receipt
  deriving DecidableEq

/-- The task pool, task queue, pending pool and done pool of one kind of fetch. -/
structure Tasks where
  taskPool : SortedMap Hash Header
  taskQueue : Array Header
  pendPool : SortedMap String FetchRequest
  donePool : SortedMap Hash Unit

/-- The fields of `queue` the body and receipt fetches read and write. -/
structure Queue where
  mode : SyncMode
  fastSyncPivot : Nat
  headerHead : Hash
  blocks : Tasks
  receipts : Tasks
  resultCache : List (Option FetchResult)
  resultOffset : Nat
  closed : Bool

/-- The two kinds of fetch, bodies and receipts. -/
inductive FetchKind where
  | bodies
  | receipts
  deriving DecidableEq, Repr

/-! ## The task queue -/

/-- `float32(n)` of a `uint64`: `n` rounded to a 24-bit significand, to nearest, ties to even.
Below `2^24` it is `n` itself. -/
def float32OfUint64 (n : Nat) : Nat :=
  let shift := Nat.log2 n + 1 - 24
  let q := n / 2 ^ shift
  let r := n % 2 ^ shift
  let half := 2 ^ shift / 2
  (if half < r ∨ (r = half ∧ 0 < shift ∧ q % 2 = 1) then q + 1 else q) * 2 ^ shift

/-- `sstack.Less` on the items the queue pushes, `priority > priority'` with the priority
`-float32(header.Number.Uint64())`: the lower rounded number comes first. -/
def taskLess (a b : Header) : Bool :=
  decide (float32OfUint64 (toUint64 a.number) < float32OfUint64 (toUint64 b.number))

/-- `taskQueue.Push(header, -float32(header.Number.Uint64()))` for each of `headers`, in order. -/
def Tasks.requeue (ts : Tasks) (headers : List Header) : Tasks :=
  { ts with taskQueue := headers.foldl (GoHeap.push taskLess) ts.taskQueue }

/-- A header entered in the task pool under its hash and pushed on the task queue. -/
def Tasks.addTask (ts : Tasks) (hash : Hash) (header : Header) : Tasks :=
  { ts with taskPool := ts.taskPool.insert hash header,
            taskQueue := GoHeap.push taskLess ts.taskQueue header }

/-- The empty collections of `newQueue`. -/
def Tasks.empty : Tasks := ⟨∅, #[], ∅, ∅⟩

/-- `newQueue()`, or the queue after `Reset()`. -/
def newQueue : Queue where
  mode := .fullSync
  fastSyncPivot := 0
  headerHead := 0
  blocks := .empty
  receipts := .empty
  resultCache := List.replicate blockCacheLimit none
  resultOffset := 0
  closed := false

/-- The collections of one kind: `q.blockTaskPool, q.blockTaskQueue, ...` or the receipt ones. -/
def Queue.tasks (q : Queue) : FetchKind → Tasks
  | .bodies => q.blocks
  | .receipts => q.receipts

/-- The queue with the collections of one kind replaced. -/
def Queue.withTasks (q : Queue) : FetchKind → Tasks → Queue
  | .bodies, ts => { q with blocks := ts }
  | .receipts, ts => { q with receipts := ts }

@[simp] theorem Queue.tasks_withTasks_self (q : Queue) (kind : FetchKind) (ts : Tasks) :
    (q.withTasks kind ts).tasks kind = ts := by
  cases kind <;> rfl

theorem Queue.tasks_withTasks_of_ne (q : Queue) {kind kind' : FetchKind} (ts : Tasks)
    (h : kind' ≠ kind) : (q.withTasks kind ts).tasks kind' = q.tasks kind' := by
  cases kind <;> cases kind' <;> first | rfl | exact absurd rfl h

@[simp] theorem Queue.tasks_with_resultCache (q : Queue) (cache : List (Option FetchResult))
    (kind : FetchKind) : ({ q with resultCache := cache }).tasks kind = q.tasks kind := by
  cases kind <;> rfl

@[simp] theorem Queue.resultCache_withTasks (q : Queue) (kind : FetchKind) (ts : Tasks) :
    (q.withTasks kind ts).resultCache = q.resultCache := by
  cases kind <;> rfl

@[simp] theorem Queue.resultOffset_withTasks (q : Queue) (kind : FetchKind) (ts : Tasks) :
    (q.withTasks kind ts).resultOffset = q.resultOffset := by
  cases kind <;> rfl

/-! ## Scheduling -/

/-- The loop of `Schedule` from `header :: rest` on, with the number expected next and the headers
inserted so far. It stops at a header that breaks the numbering or the parent chain, and skips one
already scheduled for either kind. -/
def scheduleLoop (hasher : Hasher) : List Header → Queue → Nat → List Header → Queue × List Header
  | [], q, _, inserts => (q, inserts)
  | header :: rest, q, origin, inserts =>
      let hash := hasher.blockHash header
      if toUint64 header.number ≠ origin then (q, inserts)
      else if q.headerHead ≠ 0 ∧ q.headerHead ≠ header.parentHash then (q, inserts)
      else if (q.blocks.taskPool.get? hash).isSome then scheduleLoop hasher rest q origin inserts
      else if (q.receipts.taskPool.get? hash).isSome then scheduleLoop hasher rest q origin inserts
      else
        -- the fast phase of a fast sync fetches the receipts too
        let receipts :=
          if q.mode = .fastSync ∧ toUint64 header.number ≤ q.fastSyncPivot then
            q.receipts.addTask hash header
          else q.receipts
        scheduleLoop hasher rest
          { q with blocks := q.blocks.addTask hash header, receipts, headerHead := hash }
          ((origin + 1) % 2 ^ 64) (inserts ++ [header])

/-- `Schedule(headers, from)`: the queue and the headers inserted. -/
def Queue.schedule (hasher : Hasher) (headers : List Header) (origin : Nat) (q : Queue) :
    Queue × List Header :=
  scheduleLoop hasher headers q origin []

/-! ## Reservation -/

/-- The slot of a header in the result cache, `int(header.Number.Int64() - int64(q.resultOffset))`
in 64-bit arithmetic. -/
def cacheIndex (number offset : Nat) : Int := toInt64 (toInt64 number - toInt64 offset)

/-- `q.resultCache[index] = &fetchResult{Pending: components, Header: header}` when the slot is
empty: two parts in the fast phase of a fast sync, one otherwise. -/
def initResult (q : Queue) (header : Header) (i : Nat) (cache : List (Option FetchResult)) :
    List (Option FetchResult) :=
  if cache[i]? = some none then
    let components : Int :=
      if q.mode = .fastSync ∧ toUint64 header.number ≤ q.fastSyncPivot then 2 else 1
    cache.set i (some ⟨components, header, [], [], []⟩)
  else cache

/-- `q.resultCache[index].Pending--`. -/
def decPending (cache : List (Option FetchResult)) (i : Nat) : List (Option FetchResult) :=
  cache.modify i (Option.map fun r => { r with pending := r.pending - 1 })

/-- What the loop of `reserveHeaders` carries from one round to the next. -/
structure Reservation where
  tasks : Tasks
  resultCache : List (Option FetchResult)
  space : Int
  proc : Int
  send : List Header
  skip : List Header
  progress : Bool

/-- The loop of `reserveHeaders`, with the rounds left as fuel; the flag is set when it returns
`errInvalidChain` for a header outside the cache. A noop header is completed on the spot: its
`proc-1` and the loop's `proc++` cancel, and it takes one slot of space. -/
def reserveLoop (hasher : Hasher) (q : Queue) (lacks : Hash → Bool) (count : Nat)
    (isNoop : Header → Bool) : Nat → Reservation → Reservation × Bool
  | 0, r => (r, false)
  | fuel + 1, r =>
      if r.proc < r.space ∧ r.send.length < count then
        match GoHeap.pop taskLess r.tasks.taskQueue with
        | none => (r, false)
        | some (header, rest) =>
            let r := { r with tasks := { r.tasks with taskQueue := rest } }
            let index := cacheIndex header.number q.resultOffset
            if (r.resultCache.length : Int) ≤ index ∨ index < 0 then (r, true)
            else
              let cache := initResult q header index.toNat r.resultCache
              let hash := hasher.blockHash header
              if isNoop header then
                reserveLoop hasher q lacks count isNoop fuel
                  { r with
                    tasks := { r.tasks with donePool := r.tasks.donePool.insert hash (),
                                            taskPool := r.tasks.taskPool.erase hash },
                    resultCache := decPending cache index.toNat,
                    space := r.space - 1, progress := true }
              else if lacks hash then
                reserveLoop hasher q lacks count isNoop fuel
                  { r with resultCache := cache, proc := r.proc + 1, skip := r.skip ++ [header] }
              else
                reserveLoop hasher q lacks count isNoop fuel
                  { r with resultCache := cache, proc := r.proc + 1, send := r.send ++ [header] }
      else (r, false)

/-- The room `reserveHeaders` leaves in the cache: the slots less the done and in-flight ones. -/
def Tasks.space (ts : Tasks) (cache : List (Option FetchResult)) : Int :=
  (cache.length : Int) - ts.donePool.entries.length -
    (ts.pendPool.entries.map fun e => (e.2.headers.length : Int)).sum

/-- `reserveHeaders(p, count, taskPool, taskQueue, pendPool, donePool, isNoop)` for the peer `id`
at time `now`: the collections and cache after it, and its results `(request, progress, err)`.
Each round pops a header, so the task queue's size bounds the rounds. -/
def reserveHeaders (hasher : Hasher) (q : Queue) (id : String) (lacks : Hash → Bool)
    (count : Nat) (now : Int) (ts : Tasks) (isNoop : Header → Bool) :
    Tasks × List (Option FetchResult) × (Option FetchRequest × Bool × Option QueueError) :=
  if ts.taskQueue.size = 0 then (ts, q.resultCache, none, false, none)
  else if (ts.pendPool.get? id).isSome then (ts, q.resultCache, none, false, none)
  else
    let res := reserveLoop hasher q lacks count isNoop ts.taskQueue.size
      ⟨ts, q.resultCache, ts.space q.resultCache, 0, [], [], false⟩
    let r := res.1
    -- the error returns at once: the headers popped so far are not pushed back
    if res.2 then (r.tasks, r.resultCache, none, false, some .invalidChain)
    else
      let tasks := r.tasks.requeue r.skip
      if r.send.isEmpty then (tasks, r.resultCache, none, r.progress, none)
      else
        let request : FetchRequest := ⟨id, r.send, now⟩
        ({ tasks with pendPool := tasks.pendPool.insert id request }, r.resultCache,
          some request, r.progress, none)

/-- The `isNoop` of `ReserveBodies` and `ReserveReceipts`: the header's transaction or receipt root
is `types.EmptyRootHash`, `DeriveSha(Transactions{})`. -/
def FetchKind.isNoop (hasher : Hasher) : FetchKind → Header → Bool
  | .bodies, header => decide (header.txHash = hasher.deriveShaTxs [])
  | .receipts, header => decide (header.receiptHash = hasher.deriveShaTxs [])

/-- `reserveHeaders` on the collections of one kind. -/
def Queue.reserve (hasher : Hasher) (kind : FetchKind) (id : String) (lacks : Hash → Bool)
    (count : Nat) (now : Int) (q : Queue) :
    Queue × (Option FetchRequest × Bool × Option QueueError) :=
  let res := reserveHeaders hasher q id lacks count now (q.tasks kind) (kind.isNoop hasher)
  ({ q.withTasks kind res.1 with resultCache := res.2.1 }, res.2.2)

def Queue.reserveBodies (hasher : Hasher) (id : String) (lacks : Hash → Bool) (count : Nat)
    (now : Int) (q : Queue) : Queue × (Option FetchRequest × Bool × Option QueueError) :=
  q.reserve hasher .bodies id lacks count now

def Queue.reserveReceipts (hasher : Hasher) (id : String) (lacks : Hash → Bool) (count : Nat)
    (now : Int) (q : Queue) : Queue × (Option FetchRequest × Bool × Option QueueError) :=
  q.reserve hasher .receipts id lacks count now

/-! ## Delivery -/

/-- What the loop of `deliver` carries: the collections, the cache, the results accepted, the
failure that stopped it, and the headers of the request it did not fill. -/
structure Delivery where
  tasks : Tasks
  resultCache : List (Option FetchResult)
  accepted : Nat
  failure : Option QueueError
  left : List Header

/-- The loop of `deliver` over the request's headers, in step with the delivered items: it stops
when the items run out (`i >= results`), at a header outside the cache or with no result in its
slot, and at the first item `reconstruct` rejects. A filled header is done: it leaves the task
pool, and its result has one part less to come. -/
def deliverLoop {β : Type} (hasher : Hasher) (offset : Nat)
    (reconstruct : Header → β → FetchResult → Except QueueError FetchResult) :
    List Header → List β → Delivery → Delivery
  | [], _, d => d
  | header :: rest, [], d => { d with left := header :: rest }
  | header :: rest, item :: items, d =>
      let index := cacheIndex header.number offset
      if (d.resultCache.length : Int) ≤ index ∨ index < 0 then
        { d with failure := some .invalidChain, left := header :: rest }
      else
        match d.resultCache[index.toNat]? with
        | some (some result) =>
            match reconstruct header item result with
            | .error err => { d with failure := some err, left := header :: rest }
            | .ok result =>
                let hash := hasher.blockHash header
                deliverLoop hasher offset reconstruct rest items
                  { d with
                    tasks := { d.tasks with donePool := d.tasks.donePool.insert hash (),
                                            taskPool := d.tasks.taskPool.erase hash },
                    resultCache := d.resultCache.set index.toNat
                      (some { result with pending := result.pending - 1 }),
                    accepted := d.accepted + 1 }
        | _ => { d with failure := some .invalidChain, left := header :: rest }

/-- The error `deliver` returns for the failure that stopped its loop. -/
def deliverError (accepted : Nat) : Option QueueError → Option QueueError
  | none => none
  | some .invalidChain => some .invalidChain
  | some err => if 0 < accepted then some (.partialFailure err) else some .staleDelivery

/-- `deliver(id, taskPool, taskQueue, pendPool, donePool, reqTimer, results, reconstruct)`: the
collections and cache after it, the hashes marked lacking on the peer (all of the request's when
nothing came), the results accepted, and the error. The headers not filled go back on the task
queue. -/
def deliver {β : Type} (hasher : Hasher) (q : Queue) (id : String) (ts : Tasks) (items : List β)
    (reconstruct : Header → β → FetchResult → Except QueueError FetchResult) :
    Tasks × List (Option FetchResult) × List Hash × Nat × Option QueueError :=
  match ts.pendPool.get? id with
  | none => (ts, q.resultCache, [], 0, some .noFetchesPending)
  | some request =>
      let lacking := if items.isEmpty then request.headers.map hasher.blockHash else []
      let d := deliverLoop hasher q.resultOffset reconstruct request.headers items
        ⟨{ ts with pendPool := ts.pendPool.erase id }, q.resultCache, 0, none, []⟩
      (d.tasks.requeue d.left, d.resultCache, lacking, d.accepted, deliverError d.accepted d.failure)

/-- The `reconstruct` of `DeliverBodies`: the transactions must hash to the header's root. -/
def reconstructBody (hasher : Hasher) (header : Header) (body : List Transaction × List Header)
    (result : FetchResult) : Except QueueError FetchResult :=
  if hasher.deriveShaTxs body.1 ≠ header.txHash then .error .invalidBody
  else .ok { result with transactions := body.1, uncles := body.2 }

/-- The `reconstruct` of `DeliverReceipts`: the receipts must hash to the header's root. -/
def reconstructReceipts (hasher : Hasher) (header : Header) (receipts : List Receipt)
    (result : FetchResult) : Except QueueError FetchResult :=
  if hasher.deriveShaReceipts receipts ≠ header.receiptHash then .error .invalidReceipt
  else .ok { result with receipts }

/-- `deliver` on the collections of one kind. -/
def Queue.deliverTo {β : Type} (hasher : Hasher) (kind : FetchKind) (id : String) (items : List β)
    (reconstruct : Header → β → FetchResult → Except QueueError FetchResult) (q : Queue) :
    Queue × (List Hash × Nat × Option QueueError) :=
  let res := deliver hasher q id (q.tasks kind) items reconstruct
  ({ q.withTasks kind res.1 with resultCache := res.2.1 }, res.2.2)

/-- `DeliverBodies(id, txLists, uncleLists)`. The handler builds the two lists from one message,
index by index, so they come here as one list of bodies. -/
def Queue.deliverBodies (hasher : Hasher) (id : String) (bodies : List (List Transaction × List Header))
    (q : Queue) : Queue × (List Hash × Nat × Option QueueError) :=
  q.deliverTo hasher .bodies id bodies (reconstructBody hasher)

def Queue.deliverReceipts (hasher : Hasher) (id : String) (receiptList : List (List Receipt))
    (q : Queue) : Queue × (List Hash × Nat × Option QueueError) :=
  q.deliverTo hasher .receipts id receiptList (reconstructReceipts hasher)

/-! ## Cancellation, revocation and expiry -/

/-- `cancel(request, taskQueue, pendPool)`: the request's headers back on the task queue, and the
peer's pending request dropped. -/
def Tasks.cancel (ts : Tasks) (request : FetchRequest) : Tasks :=
  { ts.requeue request.headers with pendPool := ts.pendPool.erase request.peer }

/-- The part of `Revoke(peerId)` for one kind: the peer's pending request, if any, cancelled. -/
def Tasks.revoke (ts : Tasks) (peerId : String) : Tasks :=
  match ts.pendPool.get? peerId with
  | none => ts
  | some request => { ts.requeue request.headers with pendPool := ts.pendPool.erase peerId }

def Queue.revoke (q : Queue) (peerId : String) : Queue :=
  { q with blocks := q.blocks.revoke peerId, receipts := q.receipts.revoke peerId }

/-- `expire(timeout, pendPool, taskQueue, timeoutMeter)` at time `now`, ranging over the pending
pool in the order `rank`: the headers of every request older than `timeout` go back on the task
queue, and the expired requests are dropped. The report gives each expired peer the size of its
request. -/
def Tasks.expire (rank : String → Nat) (now timeout : Int) (ts : Tasks) :
    Tasks × List (String × Nat) :=
  let visit := ts.pendPool.entries.mergeSort fun a b => decide (rank a.1 ≤ rank b.1)
  let expired := visit.filter fun e => decide (timeout < now - e.2.time)
  let ts' := expired.foldl (fun ts e => ts.requeue e.2.headers) ts
  ({ ts' with pendPool := expired.foldl (fun m e => m.erase e.1) ts'.pendPool },
    expired.map fun e => (e.1, e.2.headers.length))

/-- `ExpireBodies(timeout)` or `ExpireReceipts(timeout)`. -/
def Queue.expire (kind : FetchKind) (rank : String → Nat) (now timeout : Int) (q : Queue) :
    Queue × List (String × Nat) :=
  let res := (q.tasks kind).expire rank now timeout
  (q.withTasks kind res.1, res.2)

/-! ## Results -/

/-- Whether the `fsHeaderForceVerify` slots after `i` are all inside the cache and filled. -/
def forceVerifyReady (cache : List (Option FetchResult)) (i : Nat) : Bool :=
  (List.range fsHeaderForceVerify).all fun j =>
    match cache[i + j + 1]? with
    | some (some _) => true
    | _ => false

/-- The loop of `countProcessableItems` from slot `i` on: it stops at an empty or incomplete slot,
and at the pivot of a fast sync unless the slots after it are filled. -/
def countLoop (q : Queue) (i : Nat) : List (Option FetchResult) → Nat
  | [] => i
  | none :: _ => i
  | some result :: rest =>
      if 0 < result.pending then i
      else if q.mode = .fastSync ∧ toUint64 result.header.number = q.fastSyncPivot ∧
          forceVerifyReady q.resultCache i = false then i
      else countLoop q (i + 1) rest

def Queue.countProcessableItems (q : Queue) : Nat := countLoop q 0 q.resultCache

/-- `WaitResults()`: `none` while it would wait (nothing to process and the queue open). Otherwise
the processable prefix of the cache leaves it, with the done pools, and the offset moves past it. -/
def Queue.waitResults (hasher : Hasher) (q : Queue) : Option (Queue × List FetchResult) :=
  let nproc := q.countProcessableItems
  if nproc = 0 ∧ q.closed = false then none
  else
    let results := (q.resultCache.take nproc).filterMap id
    let hashes := results.map fun r => hasher.blockHash r.header
    if 0 < nproc then
      some ({ q with
          blocks := { q.blocks with donePool := hashes.foldl SortedMap.erase q.blocks.donePool },
          receipts := { q.receipts with donePool := hashes.foldl SortedMap.erase q.receipts.donePool },
          resultCache := q.resultCache.drop nproc ++ List.replicate nproc none,
          resultOffset := (q.resultOffset + nproc) % 2 ^ 64 }, results)
    else some (q, results)

/-- `Prepare(offset, mode, pivot, head)`: the offset only moves forward. -/
def Queue.prepare (offset : Nat) (mode : SyncMode) (pivot : Nat) (q : Queue) : Queue :=
  { q with resultOffset := if q.resultOffset < offset then offset else q.resultOffset,
           fastSyncPivot := pivot, mode }

def Queue.close (q : Queue) : Queue := { q with closed := true }

/-! ## Runs -/

/-- The calls the downloader makes on the queue for bodies and receipts. -/
inductive QueueOp where
  | prepare (offset : Nat) (mode : SyncMode) (pivot : Nat)
  | schedule (headers : List Header) (origin : Nat)
  | reserve (kind : FetchKind) (id : String) (lacks : Hash → Bool) (count : Nat) (now : Int)
  | deliverBodies (id : String) (bodies : List (List Transaction × List Header))
  | deliverReceipts (id : String) (receiptList : List (List Receipt))
  | revoke (peerId : String)
  | expire (kind : FetchKind) (rank : String → Nat) (now timeout : Int)
  | waitResults
  | close

/-- What a call returns. `blocked` is a `WaitResults` that waits. -/
inductive QueueOutput where
  | done
  | inserts (headers : List Header)
  | reserved (request : Option FetchRequest) (progress : Bool) (err : Option QueueError)
  | delivered (lacking : List Hash) (accepted : Nat) (err : Option QueueError)
  | expired (expiries : List (String × Nat))
  | results (results : List FetchResult)
  | blocked

/-- One call. -/
def QueueOp.apply (hasher : Hasher) (q : Queue) : QueueOp → Queue × QueueOutput
  | .prepare offset mode pivot => (q.prepare offset mode pivot, .done)
  | .schedule headers origin =>
      let res := q.schedule hasher headers origin
      (res.1, .inserts res.2)
  | .reserve kind id lacks count now =>
      let res := q.reserve hasher kind id lacks count now
      (res.1, .reserved res.2.1 res.2.2.1 res.2.2.2)
  | .deliverBodies id bodies =>
      let res := q.deliverBodies hasher id bodies
      (res.1, .delivered res.2.1 res.2.2.1 res.2.2.2)
  | .deliverReceipts id receiptList =>
      let res := q.deliverReceipts hasher id receiptList
      (res.1, .delivered res.2.1 res.2.2.1 res.2.2.2)
  | .revoke peerId => (q.revoke peerId, .done)
  | .expire kind rank now timeout =>
      let res := q.expire kind rank now timeout
      (res.1, .expired res.2)
  | .waitResults =>
      match q.waitResults hasher with
      | none => (q, .blocked)
      | some res => (res.1, .results res.2)
  | .close => (q.close, .done)

/-- A sequence of calls, with what each returned. -/
def Queue.run (hasher : Hasher) (q : Queue) : List QueueOp → Queue × List QueueOutput
  | [] => (q, [])
  | op :: ops =>
      let step := op.apply hasher q
      let rest := step.1.run hasher ops
      (rest.1, step.2 :: rest.2)

/-- A reservation that returned `errInvalidChain`. -/
def QueueOutput.reserveFailed : QueueOutput → Bool
  | .reserved _ _ (some .invalidChain) => true
  | _ => false

end AuroraChain.Downloader
