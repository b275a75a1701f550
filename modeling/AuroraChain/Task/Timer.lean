import AuroraChain.Lib.GoHeapOrder
/-!
# The timing wheel of package `task`

A `TimingWheel` keeps its pending timers in a min-heap on expiration, a `timerHeapType` whose
`Swap`, `Push` and `Pop` also keep each timer's `index` field. One goroutine, `start`, owns the
heap: it takes new timers from `addChan`, ids to cancel from `cancelChan`, and on each tick of the
ticker pops the expired timers, sends their callbacks on `timeOutChan` and pushes the repeating
ones back. `AddTimer` and `CancelTimer` only send on the two channels.

`start` selects among the ready channels at random. A caller that adds a timer and then cancels it
leaves one message on each channel, and `start` may take the cancel first: the heap does not hold
the timer yet, so the cancel removes nothing, and the timer is pushed afterwards and fires
(`cancelled_timer_fires`). Taken in the caller's order, the same two messages remove the timer.

Times are nanoseconds, and each tick reads the clock once, as `now`.
-/

namespace AuroraChain.Task

/-- `bufferSize`, the capacity of `addChan` and `cancelChan`. -/
def bufferSize : Nat := 1024

/-- `timerType`: the callback `timeout` is left abstract, and `ctx`, which no method reads, is left
out. -/
structure TimerType (β : Type) where
  id : Int
  expiration : Int
  interval : Int
  timeout : β
  index : Int

variable {β : Type}

def TimerType.isRepeat (t : TimerType β) : Bool := decide (t.interval > 0)

/-- `timerHeapType`. -/
abbrev TimerHeap (β : Type) := Array (TimerType β)

namespace TimerHeap

/-- `getIndexByID`: the `index` field of the first timer with that id, or -1. -/
def getIndexByID (h : TimerHeap β) (id : Int) : Int :=
  match h.find? (·.id == id) with
  | some t => t.index
  | none => -1

/-- `Less`: by expiration. -/
def less (a b : TimerType β) : Bool := decide (a.expiration < b.expiration)

/-- `Swap(i, j)`: the timers trade places and take their new positions as their indices. -/
def swap (h : TimerHeap β) (i j : Nat) : TimerHeap β :=
  ((h.swapIfInBounds i j).modify i fun t => { t with index := i }).modify j
    fun t => { t with index := j }

/-- `Push(x)`: the timer takes the next position as its index and is appended. -/
def push (h : TimerHeap β) (x : TimerType β) : TimerHeap β := Array.push h { x with index := h.size }

/-- `Pop()`: the last timer, its index set to -1, taken off. Go indexes out of range on an empty
heap: `none`. -/
def pop (h : TimerHeap β) : Option (TimerType β × TimerHeap β) :=
  h.back?.map fun t => ({ t with index := -1 }, Array.pop h)

/-! `container/heap` over this `Interface`: the loops of `Lib/GoHeap.lean`, with this `Swap`. -/

/-- The loop of `down(h, i0, n)`, with `fuel` rounds. -/
def downLoop (n : Nat) : Nat → TimerHeap β → Nat → TimerHeap β × Nat
  | 0, h, i => (h, i)
  | fuel + 1, h, i =>
      if n ≤ 2 * i + 1 then (h, i)
      else if !GoHeap.lessAt less h (GoHeap.child less h i n) i then (h, i)
      else downLoop n fuel (swap h i (GoHeap.child less h i n)) (GoHeap.child less h i n)

def down (h : TimerHeap β) (i0 n : Nat) : TimerHeap β × Bool :=
  let r := downLoop n n h i0
  (r.1, decide (i0 < r.2))

/-- The loop of `up(h, j)`, with `fuel` rounds. -/
def upLoop : Nat → TimerHeap β → Nat → TimerHeap β
  | 0, h, _ => h
  | fuel + 1, h, j =>
      let i := (j - 1) / 2
      if i = j ∨ !GoHeap.lessAt less h j i then h
      else upLoop fuel (swap h i j) i

def up (h : TimerHeap β) (j : Nat) : TimerHeap β := upLoop j h j

/-- `heap.Push(h, x)`. -/
def heapPush (h : TimerHeap β) (x : TimerType β) : TimerHeap β := up (push h x) h.size

/-- `heap.Pop(h)`. -/
def heapPop (h : TimerHeap β) : Option (TimerType β × TimerHeap β) :=
  pop (down (swap h 0 (h.size - 1)) 0 (h.size - 1)).1

/-- `heap.Remove(h, i)`; `none` where Go indexes out of range. -/
def heapRemove (h : TimerHeap β) (i : Nat) : Option (TimerType β × TimerHeap β) :=
  if i < h.size then
    let n := h.size - 1
    let h' :=
      if n ≠ i then
        match down (swap h i n) i n with
        | (h, true) => h
        | (h, false) => up h i
      else h
    pop h'
  else none

end TimerHeap

open TimerHeap

/-- The state of a `TimingWheel` and its channels: the heap, the messages waiting in `addChan` and
`cancelChan`, the callbacks sent on `timeOutChan` so far, and the shared counter `timerIds`. -/
structure Wheel (β : Type) where
  timers : TimerHeap β
  addChan : List (TimerType β)
  cancelChan : List Int
  timeOutChan : List β
  timerIds : Int

/-- `NewTimingWheel`, with the id counter where it stands. -/
def newTimingWheel (timerIds : Int) : Wheel β := ⟨#[], [], [], [], timerIds⟩

namespace Wheel

/-! ### The caller's side -/

/-- `AddTimer(when, interv, to)`, with `to` as `onTimeOut`: -1 for a nil callback; otherwise a new timer with the next id,
sent on `addChan`. A full channel blocks: `none`. -/
def addTimer (w : Wheel β) (when interv : Int) (onTimeOut : Option β) : Option (Int × Wheel β) :=
  match onTimeOut with
  | none => some (-1, w)
  | some cb =>
      if w.addChan.length < bufferSize then
        some (w.timerIds,
          { w with addChan := w.addChan ++ [⟨w.timerIds, when, interv, cb, 0⟩],
                   timerIds := w.timerIds + 1 })
      else none

/-- `CancelTimer(timerID)`: the id sent on `cancelChan`. A full channel blocks: `none`. -/
def cancelTimer (w : Wheel β) (timerID : Int) : Option (Wheel β) :=
  if w.cancelChan.length < bufferSize then some { w with cancelChan := w.cancelChan ++ [timerID] }
  else none

/-! ### The loop of `start` -/

/-- The loop of `getExpired` at `now`, with `fuel` rounds: pop timers while their expiration has
passed; push the first that has not back. -/
def getExpiredLoop (now : Int) :
    Nat → TimerHeap β → List (TimerType β) → TimerHeap β × List (TimerType β)
  | 0, h, expired => (h, expired)
  | fuel + 1, h, expired =>
      match heapPop h with
      | none => (h, expired)
      | some (timer, h') =>
          if now - timer.expiration > 0 then getExpiredLoop now fuel h' (expired ++ [timer])
          else (heapPush h' timer, expired)

/-- `getExpired`: each round pops one timer, so the heap's size in rounds is enough. -/
def getExpired (now : Int) (h : TimerHeap β) : TimerHeap β × List (TimerType β) :=
  getExpiredLoop now h.size h []

/-- `update`: each expired repeating timer goes back one interval later, or at `now` when that is
ten seconds or more behind. -/
def update (now : Int) (h : TimerHeap β) (timers : List (TimerType β)) : TimerHeap β :=
  timers.foldl (fun h t =>
    if t.isRepeat then
      let expiration := t.expiration + t.interval
      heapPush h { t with expiration := if now - expiration ≥ 10 * 10 ^ 9 then now else expiration }
    else h) h

/-- The cases of the `select` in `start` that change the wheel. -/
inductive LoopCase where
  | cancel
  | add
  | tick (now : Int)

/-- One round of `start` through a case: `none` when its channel has nothing to take, or when
`heap.Remove` would index out of range. -/
def loopStep (w : Wheel β) : LoopCase → Option (Wheel β)
  | .cancel =>
      match w.cancelChan with
      | [] => none
      | timerID :: rest =>
          let index := w.timers.getIndexByID timerID
          if index ≥ 0 then
            (heapRemove w.timers index.toNat).map fun r => { w with cancelChan := rest, timers := r.2 }
          else some { w with cancelChan := rest }
  | .add =>
      match w.addChan with
      | [] => none
      | timer :: rest => some { w with addChan := rest, timers := heapPush w.timers timer }
  | .tick now =>
      let r := getExpired now w.timers
      some { w with timers := update now r.1 r.2,
                    timeOutChan := w.timeOutChan ++ r.2.map (·.timeout) }

end Wheel

/-- What can happen next: a call of the caller's goroutine, or a round of `start`. A list of
events is an interleaving of the two. -/
inductive Event (β : Type) where
  | addTimer (when interv : Int) (onTimeOut : Option β)
  | cancelTimer (timerID : Int)
  | loop (c : Wheel.LoopCase)

namespace Wheel

def step (w : Wheel β) : Event β → Option (Wheel β)
  | .addTimer when interv onTimeOut => (w.addTimer when interv onTimeOut).map (·.2)
  | .cancelTimer timerID => w.cancelTimer timerID
  | .loop c => w.loopStep c

/-- A run through the events, `none` when one of them cannot happen. -/
def run (w : Wheel β) : List (Event β) → Option (Wheel β)
  | [] => some w
  | e :: es => (w.step e).bind fun w' => w'.run es

end Wheel

/-! ### Indices are positions

`Swap`, `Push` and `Pop` set the index of each position they write. A heap whose indices are its
positions therefore goes through every operation of `container/heap` as the plain array of
`Lib/GoHeap.lean` does, with the indices set to the new positions (`heapPush_reindex`,
`heapPop_reindex`, `heapRemove_reindex`); the popped or removed timer gets -1. -/

namespace TimerHeap

/-- Every timer's `index` is its position. -/
def Indexed (h : TimerHeap β) : Prop := ∀ k (hk : k < h.size), h[k].index = k

/-- The heap with every index set to its position. -/
def reindex (h : TimerHeap β) : TimerHeap β := h.mapIdx fun k t => { t with index := k }

@[simp] theorem size_reindex (h : TimerHeap β) : (reindex h).size = h.size := Array.size_mapIdx

theorem getElem_reindex (h : TimerHeap β) {k : Nat} (hk : k < (reindex h).size) :
    (reindex h)[k] = { getElem h k (by rwa [size_reindex] at hk) with index := k } :=
  Array.getElem_mapIdx _

theorem getElem?_reindex (h : TimerHeap β) (k : Nat) :
    (reindex h)[k]? = h[k]?.map fun t => { t with index := k } :=
  Array.getElem?_mapIdx

theorem indexed_reindex (h : TimerHeap β) : Indexed (reindex h) := by
  intro k hk
  rw [getElem_reindex]

theorem Indexed.reindex_eq {h : TimerHeap β} (hI : Indexed h) : reindex h = h := by
  apply Array.ext (size_reindex h)
  intro k hk _
  rw [getElem_reindex]
  have := hI k (by rwa [size_reindex] at hk)
  rw [← this]

theorem lessAt_reindex (h : TimerHeap β) (i j : Nat) :
    GoHeap.lessAt less (reindex h) i j = GoHeap.lessAt less h i j := by
  rw [GoHeap.lessAt, GoHeap.lessAt, getElem?_reindex, getElem?_reindex]
  cases h[i]? <;> cases h[j]? <;> rfl

theorem child_reindex (h : TimerHeap β) (i n : Nat) :
    GoHeap.child less (reindex h) i n = GoHeap.child less h i n := by
  rw [GoHeap.child, GoHeap.child, lessAt_reindex]

theorem swap_reindex (h : TimerHeap β) (i j : Nat) :
    swap (reindex h) i j = reindex (h.swapIfInBounds i j) := by
  apply Array.ext (by simp [swap])
  intro k hk _
  have hks : k < h.size := by simpa [swap] using hk
  rw [getElem_reindex]
  simp only [swap, Array.getElem_modify]
  by_cases hkj : j = k
  · subst hkj
    rw [if_pos rfl]
    by_cases hi : i < h.size
    · rw [Array.getElem_swapIfInBounds_right (by simpa using hi),
        Array.getElem_swapIfInBounds_right hi, getElem_reindex]
      split_ifs <;> rfl
    · rw [Array.getElem_swapIfInBounds_of_size_le_left (by simpa using hi),
        Array.getElem_swapIfInBounds_of_size_le_left (not_lt.mp hi), getElem_reindex]
      split_ifs <;> rfl
  · rw [if_neg hkj]
    by_cases hki : i = k
    · subst hki
      rw [if_pos rfl]
      by_cases hj : j < h.size
      · rw [Array.getElem_swapIfInBounds_left (by simpa using hj),
          Array.getElem_swapIfInBounds_left hj, getElem_reindex]
      · rw [Array.getElem_swapIfInBounds_of_size_le_right (by simpa using hj),
          Array.getElem_swapIfInBounds_of_size_le_right (not_lt.mp hj), getElem_reindex]
    · rw [if_neg hki, Array.getElem_swapIfInBounds_of_ne_of_ne (Ne.symm hki) (Ne.symm hkj),
        Array.getElem_swapIfInBounds_of_ne_of_ne (Ne.symm hki) (Ne.symm hkj), getElem_reindex]

theorem push_reindex (h : TimerHeap β) (x : TimerType β) :
    push (reindex h) x = reindex (Array.push h x) := by
  apply Array.ext (by simp [push])
  intro k hk _
  simp only [push, Array.getElem_push, getElem_reindex, size_reindex]
  split_ifs with hlt
  · rfl
  · have hk' : k = h.size := by simp [push] at hk; omega
    subst hk'
    rfl

theorem pop_reindex (h : TimerHeap β) :
    pop (reindex h) = h.back?.map fun t => ({ t with index := -1 }, reindex (Array.pop h)) := by
  have hpop : Array.pop (reindex h) = reindex (Array.pop h) := by
    apply Array.ext (by simp)
    intro k hk _
    simp only [Array.getElem_pop, getElem_reindex]
  have hback : (reindex h).back? = h.back?.map fun t => { t with index := ((h.size - 1 : Nat) : Int) } := by
    rw [Array.back?_eq_getElem?, Array.back?_eq_getElem?, size_reindex, getElem?_reindex]
  rw [pop, hpop, hback, Option.map_map]
  rfl

theorem downLoop_reindex (n : Nat) : ∀ (fuel : Nat) (h : TimerHeap β) (i : Nat),
    downLoop n fuel (reindex h) i =
      (reindex (GoHeap.downLoop less n fuel h i).1, (GoHeap.downLoop less n fuel h i).2)
  | 0, h, i => rfl
  | fuel + 1, h, i => by
      rw [downLoop, GoHeap.downLoop, child_reindex, lessAt_reindex]
      split_ifs
      · rfl
      · rfl
      · rw [swap_reindex, downLoop_reindex n fuel]

theorem upLoop_reindex : ∀ (fuel : Nat) (h : TimerHeap β) (j : Nat),
    upLoop fuel (reindex h) j = reindex (GoHeap.upLoop less fuel h j)
  | 0, h, j => rfl
  | fuel + 1, h, j => by
      rw [upLoop, GoHeap.upLoop, lessAt_reindex]
      split_ifs
      · rfl
      · rw [swap_reindex, upLoop_reindex fuel]

theorem down_reindex (h : TimerHeap β) (i0 n : Nat) :
    down (reindex h) i0 n = (reindex (GoHeap.down less h i0 n).1, (GoHeap.down less h i0 n).2) := by
  rw [down, downLoop_reindex, GoHeap.down]

theorem heapPush_reindex (h : TimerHeap β) (x : TimerType β) :
    heapPush (reindex h) x = reindex (GoHeap.push less h x) := by
  rw [heapPush, push_reindex, size_reindex, up, upLoop_reindex, GoHeap.push, GoHeap.up]

theorem heapPop_reindex (h : TimerHeap β) :
    heapPop (reindex h) = (GoHeap.pop less h).map fun r => ({ r.1 with index := -1 }, reindex r.2) := by
  rw [heapPop, size_reindex, swap_reindex, down_reindex, pop_reindex, GoHeap.pop, Option.map_map]
  rfl

/-- The sift `heap.Remove` makes at `i` after moving the last timer there. -/
theorem sift_reindex (h : TimerHeap β) (i n : Nat) :
    (if n ≠ i then
        match down (swap (reindex h) i n) i n with
        | (h, true) => h
        | (h, false) => up h i
      else reindex h) =
      reindex (if n ≠ i then GoHeap.siftAt less (h.swapIfInBounds i n) i n else h) := by
  split_ifs
  · rw [swap_reindex, down_reindex, GoHeap.siftAt]
    cases GoHeap.down less (h.swapIfInBounds i n) i n with
    | mk h' moved =>
        cases moved
        · show up (reindex h') i = reindex (GoHeap.up less h' i)
          rw [up, upLoop_reindex, GoHeap.up]
        · rfl
  · rfl

theorem heapRemove_reindex (h : TimerHeap β) (i : Nat) :
    heapRemove (reindex h) i =
      (GoHeap.remove less h i).map fun r => ({ r.1 with index := -1 }, reindex r.2) := by
  rw [heapRemove, GoHeap.remove, size_reindex]
  split_ifs
  · dsimp only
    rw [sift_reindex, pop_reindex, Option.map_map]
    rfl
  · rfl

theorem Indexed.heapPush {h : TimerHeap β} (hI : Indexed h) (x : TimerType β) :
    Indexed (heapPush h x) := by
  rw [← hI.reindex_eq, heapPush_reindex]
  exact indexed_reindex _

theorem Indexed.heapPop {h h' : TimerHeap β} {x : TimerType β} (hI : Indexed h)
    (hpop : heapPop h = some (x, h')) : Indexed h' := by
  rw [← hI.reindex_eq, heapPop_reindex] at hpop
  obtain ⟨r, -, hr⟩ := Option.map_eq_some_iff.mp hpop
  rw [← (Prod.mk.inj hr).2]
  exact indexed_reindex _

theorem Indexed.heapRemove {h h' : TimerHeap β} {x : TimerType β} {i : Nat} (hI : Indexed h)
    (hrem : heapRemove h i = some (x, h')) : Indexed h' := by
  rw [← hI.reindex_eq, heapRemove_reindex] at hrem
  obtain ⟨r, -, hr⟩ := Option.map_eq_some_iff.mp hrem
  rw [← (Prod.mk.inj hr).2]
  exact indexed_reindex _

end TimerHeap

/-! ### The indices over whole runs -/

namespace TimerHeap

/-- On a heap whose indices are positions, `getIndexByID` is the position of a timer with the id,
or -1 when no timer has it. -/
theorem getIndexByID_cases {h : TimerHeap β} (hI : Indexed h) (id : Int) :
    (getIndexByID h id = -1 ∧ ∀ t ∈ h, t.id ≠ id) ∨
      ∃ k, ∃ hk : k < h.size, getIndexByID h id = k ∧ h[k].id = id := by
  rw [getIndexByID]
  cases hfind : h.find? (·.id == id) with
  | none =>
      refine .inl ⟨rfl, fun t ht hid => ?_⟩
      have hnot := Array.find?_eq_none.mp hfind t ht
      simp [hid] at hnot
  | some t =>
      have ht : t ∈ h := Array.mem_of_find?_eq_some hfind
      have hid : t.id = id := by simpa using Array.find?_some hfind
      obtain ⟨k, hk, rfl⟩ := Array.getElem_of_mem ht
      exact .inr ⟨k, hk, hI k hk, hid⟩

theorem heapRemove_indexed {h : TimerHeap β} (hI : Indexed h) {k : Nat} (hk : k < h.size) :
    ∃ h', heapRemove h k = some ({ h[k] with index := -1 }, h') ∧ Indexed h' := by
  have hrem := heapRemove_reindex h k
  rw [hI.reindex_eq] at hrem
  obtain ⟨⟨y, r⟩, hy⟩ := Option.isSome_iff_exists.mp (GoHeap.remove_isSome less hk)
  have hfst : h[k]? = some y := GoHeap.remove_fst less hy
  rw [Array.getElem?_eq_getElem hk, Option.some.injEq] at hfst
  rw [hy, Option.map_some] at hrem
  exact ⟨reindex r, by rw [hrem, hfst], indexed_reindex r⟩

end TimerHeap

namespace Wheel

theorem indexed_getExpiredLoop (now : Int) : ∀ (fuel : Nat) (h : TimerHeap β)
    (expired : List (TimerType β)), h.Indexed → (getExpiredLoop now fuel h expired).1.Indexed
  | 0, h, _, hI => hI
  | fuel + 1, h, expired, hI => by
      rw [getExpiredLoop]
      cases hpop : heapPop h with
      | none => exact hI
      | some r =>
          obtain ⟨timer, h'⟩ := r
          have hI' := hI.heapPop hpop
          dsimp only
          split
          · exact indexed_getExpiredLoop now fuel h' _ hI'
          · exact hI'.heapPush timer

theorem indexed_update (now : Int) : ∀ (timers : List (TimerType β)) (h : TimerHeap β),
    h.Indexed → (update now h timers).Indexed
  | [], h, hI => hI
  | t :: rest, h, hI => by
      rw [update, List.foldl_cons]
      apply indexed_update now rest
      split
      · exact hI.heapPush _
      · exact hI

theorem indexed_loopStep {w w' : Wheel β} (hI : w.timers.Indexed) {c : LoopCase}
    (hstep : w.loopStep c = some w') : w'.timers.Indexed := by
  cases c with
  | cancel =>
      rw [loopStep] at hstep
      split at hstep
      · cases hstep
      · dsimp only at hstep
        split at hstep
        · obtain ⟨r, hr, rfl⟩ := Option.map_eq_some_iff.mp hstep
          exact hI.heapRemove hr
        · cases hstep
          exact hI
  | add =>
      rw [loopStep] at hstep
      split at hstep
      · cases hstep
      · cases hstep
        exact hI.heapPush _
  | tick now =>
      rw [loopStep] at hstep
      cases hstep
      exact indexed_update now _ _ (indexed_getExpiredLoop now _ _ _ hI)

/-- The caller's calls only send: the heap is the loop's alone. -/
theorem addTimer_timers {w : Wheel β} {when interv : Int} {onTimeOut : Option β}
    {r : Int × Wheel β} (h : w.addTimer when interv onTimeOut = some r) : r.2.timers = w.timers := by
  cases onTimeOut with
  | none =>
      cases h
      rfl
  | some cb =>
      rw [addTimer] at h
      split at h
      · cases h
        rfl
      · cases h

theorem cancelTimer_timers {w w' : Wheel β} {timerID : Int} (h : w.cancelTimer timerID = some w') :
    w'.timers = w.timers := by
  rw [cancelTimer] at h
  split at h
  · cases h
    rfl
  · cases h

theorem indexed_step {w w' : Wheel β} (hI : w.timers.Indexed) {e : Event β}
    (hstep : w.step e = some w') : w'.timers.Indexed := by
  cases e with
  | addTimer when interv onTimeOut =>
      obtain ⟨r, hr, rfl⟩ := Option.map_eq_some_iff.mp hstep
      rw [addTimer_timers hr]
      exact hI
  | cancelTimer timerID =>
      rw [cancelTimer_timers hstep]
      exact hI
  | loop c => exact indexed_loopStep hI hstep

theorem indexed_run : ∀ (es : List (Event β)) {w w' : Wheel β}, w.timers.Indexed →
    w.run es = some w' → w'.timers.Indexed
  | [], _, _, hI, hrun => by
      cases hrun
      exact hI
  | e :: es, w, w', hI, hrun => by
      rw [run] at hrun
      obtain ⟨w₁, hstep, hrest⟩ := Option.bind_eq_some_iff.mp hrun
      exact indexed_run es (indexed_step hI hstep) hrest

/-- Whatever the interleaving, the heap of a wheel keeps its indices at the positions. -/
theorem indexed_of_run {timerIds : Int} {es : List (Event β)} {w : Wheel β}
    (hrun : (newTimingWheel timerIds).run es = some w) : w.timers.Indexed :=
  indexed_run es (w := newTimingWheel timerIds) (fun k hk => absurd hk (Nat.not_lt_zero k)) hrun

theorem loopStep_cancel_isSome {w : Wheel β} (hI : w.timers.Indexed) (hc : w.cancelChan ≠ []) :
    (w.loopStep .cancel).isSome := by
  obtain ⟨timerID, rest, hcons⟩ := List.exists_cons_of_ne_nil hc
  rw [loopStep, hcons]
  dsimp only
  rcases getIndexByID_cases hI timerID with ⟨hnone, -⟩ | ⟨k, hk, hidx, -⟩
  · rw [if_neg (by rw [hnone]; decide)]
    rfl
  · obtain ⟨h', hrem, -⟩ := heapRemove_indexed hI hk
    rw [if_pos (by rw [hidx]; exact Int.natCast_nonneg k), hidx, Int.toNat_natCast, hrem]
    rfl

/-- Whatever the interleaving of the callers and `start`, a round of `start` that takes a cancel
never panics: `getIndexByID` returns -1 or a position of the heap, never a stale index. -/
theorem cancel_never_panics {timerIds : Int} {es : List (Event β)} {w : Wheel β}
    (hrun : (newTimingWheel timerIds).run es = some w) (hc : w.cancelChan ≠ []) :
    (w.loopStep .cancel).isSome :=
  loopStep_cancel_isSome (indexed_of_run hrun) hc

theorem cancel_never_panics_after_add :
    (newTimingWheel 0 : Wheel Unit).run [.addTimer 0 0 (some ()), .loop .add, .cancelTimer 0] =
        some ⟨#[⟨0, 0, 0, (), 0⟩], [], [0], [], 1⟩ ∧ [(0 : Int)] ≠ [] ∧
      (Wheel.loopStep ⟨#[⟨0, 0, 0, (), 0⟩], [], [0], [], 1⟩ .cancel).isSome := by
  have hrun : (newTimingWheel 0 : Wheel Unit).run
      [.addTimer 0 0 (some ()), .loop .add, .cancelTimer 0] =
        some ⟨#[⟨0, 0, 0, (), 0⟩], [], [0], [], 1⟩ := rfl
  exact ⟨hrun, List.cons_ne_nil _ _, cancel_never_panics hrun (List.cons_ne_nil _ _)⟩


end Wheel

/-! ### Expiration order

The heap is ordered on expiration: the array of its expirations is an ordered `container/heap`
(`GoHeap.Ordered`). `getExpired` then pops the expired timers, the earliest first, and puts back
the first one that has not expired, so it takes off exactly the expired timers
(`getExpiredLoop_spec`). Timers are compared without their `index`, which the heap rewrites as it
moves them. -/

/-- A timer without its `index`. -/
def TimerType.unindexed (t : TimerType β) : TimerType β := { t with index := 0 }

/-- Whether a timer has expired at `now`, as `getExpired` tests it. -/
def TimerType.expiredAt (now : Int) (t : TimerType β) : Bool := decide (now - t.expiration > 0)

@[simp] theorem TimerType.expiredAt_unindexed (now : Int) (t : TimerType β) :
    t.unindexed.expiredAt now = t.expiredAt now := rfl

namespace TimerHeap

/-- The expirations, in heap order. -/
def keys (h : TimerHeap β) : Array Int := h.map (·.expiration)

/-- The heap order on expirations. -/
def Ordered (h : TimerHeap β) : Prop := GoHeap.Ordered (keys h) (keys h).size

/-- The timers without their indices, in heap order. -/
def views (h : TimerHeap β) : List (TimerType β) := h.toList.map TimerType.unindexed

theorem keys_reindex (h : TimerHeap β) : keys (reindex h) = keys h := by
  apply Array.ext (by simp [keys])
  intro k hk _
  simp only [keys, Array.getElem_map, getElem_reindex]

theorem views_reindex (h : TimerHeap β) : views (reindex h) = views h := by
  apply List.ext_getElem (by simp [views])
  intro k hk _
  simp only [views, List.getElem_map, Array.getElem_toList, getElem_reindex]
  rfl

theorem views_push (h : TimerHeap β) (x : TimerType β) :
    views (Array.push h x) = views h ++ [x.unindexed] := by
  simp [views]

theorem views_perm {h h' : TimerHeap β} (hp : h.Perm h') : (views h).Perm (views h') :=
  (Array.perm_iff_toList_perm.mp hp).map _

theorem less_eq (a b : TimerType β) : less a b = GoHeap.ltLess a.expiration b.expiration := rfl

theorem Indexed.heapPop_cases {h h' : TimerHeap β} {x : TimerType β} (hI : Indexed h)
    (hpop : TimerHeap.heapPop h = some (x, h')) :
    ∃ y g, GoHeap.pop less h = some (y, g) ∧ x = { y with index := -1 } ∧ h' = reindex g := by
  rw [← hI.reindex_eq, heapPop_reindex] at hpop
  obtain ⟨⟨y, g⟩, hr, he⟩ := Option.map_eq_some_iff.mp hpop
  obtain ⟨rfl, rfl⟩ := Prod.mk.inj he
  exact ⟨y, g, hr, rfl, rfl⟩

theorem Indexed.heapRemove_cases {h h' : TimerHeap β} {x : TimerType β} {i : Nat}
    (hI : Indexed h) (hrem : TimerHeap.heapRemove h i = some (x, h')) :
    ∃ y g, GoHeap.remove less h i = some (y, g) ∧ x = { y with index := -1 } ∧ h' = reindex g := by
  rw [← hI.reindex_eq, heapRemove_reindex] at hrem
  obtain ⟨⟨y, g⟩, hr, he⟩ := Option.map_eq_some_iff.mp hrem
  obtain ⟨rfl, rfl⟩ := Prod.mk.inj he
  exact ⟨y, g, hr, rfl, rfl⟩

theorem Indexed.heapPush_views {h : TimerHeap β} (hI : Indexed h) (x : TimerType β) :
    (views (TimerHeap.heapPush h x)).Perm (views h ++ [x.unindexed]) := by
  rw [← hI.reindex_eq, heapPush_reindex, views_reindex, views_reindex, ← views_push]
  exact views_perm (GoHeap.push_perm less h x)

theorem Indexed.heapPop_views {h h' : TimerHeap β} {x : TimerType β} (hI : Indexed h)
    (hpop : TimerHeap.heapPop h = some (x, h')) : (views h' ++ [x.unindexed]).Perm (views h) := by
  obtain ⟨y, g, hg, rfl, rfl⟩ := hI.heapPop_cases hpop
  rw [views_reindex]
  have hp := views_perm (GoHeap.pop_perm less hg)
  rw [views_push] at hp
  exact hp

theorem Indexed.heapRemove_views {h h' : TimerHeap β} {x : TimerType β} {i : Nat}
    (hI : Indexed h) (hrem : TimerHeap.heapRemove h i = some (x, h')) :
    (views h' ++ [x.unindexed]).Perm (views h) := by
  obtain ⟨y, g, hg, rfl, rfl⟩ := hI.heapRemove_cases hrem
  rw [views_reindex]
  have hp := views_perm (GoHeap.remove_perm less hg)
  rw [views_push] at hp
  exact hp

theorem Ordered.heapPush {h : TimerHeap β} (ho : h.Ordered) (hI : Indexed h) (x : TimerType β) :
    (TimerHeap.heapPush h x).Ordered := by
  rw [← hI.reindex_eq, heapPush_reindex, Ordered, keys_reindex, keys,
    ← GoHeap.push_map less less_eq]
  exact GoHeap.Ordered.push ho x.expiration

theorem Ordered.heapPop {h h' : TimerHeap β} {x : TimerType β} (ho : h.Ordered) (hI : Indexed h)
    (hpop : TimerHeap.heapPop h = some (x, h')) : h'.Ordered := by
  obtain ⟨y, g, hg, -, rfl⟩ := hI.heapPop_cases hpop
  have hk : GoHeap.pop GoHeap.ltLess (keys h) = some (y.expiration, keys g) := by
    rw [keys, GoHeap.pop_map less less_eq, hg]
    rfl
  rw [Ordered, keys_reindex]
  exact GoHeap.Ordered.heapPop ho hk

theorem Ordered.heapPop_le {h h' : TimerHeap β} {x : TimerType β} (ho : h.Ordered)
    (hI : Indexed h) (hpop : TimerHeap.heapPop h = some (x, h')) : ∀ t ∈ h', x.expiration ≤ t.expiration := by
  obtain ⟨y, g, hg, rfl, rfl⟩ := hI.heapPop_cases hpop
  have hk : GoHeap.pop GoHeap.ltLess (keys h) = some (y.expiration, keys g) := by
    rw [keys, GoHeap.pop_map less less_eq, hg]
    rfl
  intro t ht
  obtain ⟨k, hk', rfl⟩ := Array.getElem_of_mem ht
  have hkg : k < g.size := by simpa using hk'
  have hmem : g[k].expiration ∈ keys g := Array.mem_map_of_mem (Array.getElem_mem hkg)
  rw [getElem_reindex]
  exact GoHeap.Ordered.pop_le ho hk _ hmem

theorem Ordered.heapRemove {h h' : TimerHeap β} {x : TimerType β} {i : Nat} (ho : h.Ordered)
    (hI : Indexed h) (hrem : TimerHeap.heapRemove h i = some (x, h')) : h'.Ordered := by
  obtain ⟨y, g, hg, -, rfl⟩ := hI.heapRemove_cases hrem
  have hk : GoHeap.remove GoHeap.ltLess (keys h) i = some (y.expiration, keys g) := by
    rw [keys, GoHeap.remove_map less less_eq, hg]
    rfl
  rw [Ordered, keys_reindex]
  exact GoHeap.Ordered.heapRemove ho hk

end TimerHeap

namespace Wheel

open TimerHeap

theorem run_append (w : Wheel β) (es es' : List (Event β)) :
    w.run (es ++ es') = (w.run es).bind fun w' => w'.run es' := by
  induction es generalizing w with
  | nil => rfl
  | cons e es ih => simp only [List.cons_append, run, ih, Option.bind_assoc]

/-- What `getExpired` at `now` leaves of the heap `h` and takes off it: the timers that have not
expired, in a heap still indexed and ordered, and the expired ones. -/
structure Expiry (now : Int) (h rest : TimerHeap β) (expired : List (TimerType β)) : Prop where
  indexed : rest.Indexed
  ordered : rest.Ordered
  kept : (views rest).Perm ((views h).filter fun t => !t.expiredAt now)
  taken : (expired.map TimerType.unindexed).Perm ((views h).filter (·.expiredAt now))

theorem Expiry.of_all_kept {now : Int} {h : TimerHeap β} (hI : h.Indexed) (ho : h.Ordered)
    (hkept : ∀ t ∈ views h, t.expiredAt now = false) : Expiry now h h [] := by
  have hfilter : (views h).filter (·.expiredAt now) = [] := List.filter_eq_nil_iff.mpr
    fun t ht => by simp [hkept t ht]
  refine ⟨hI, ho, ?_, by rw [hfilter]; rfl⟩
  rw [List.filter_eq_self.mpr fun t ht => by simp [hkept t ht]]

theorem views_eq_nil_of_heapPop {h : TimerHeap β} (hpop : heapPop h = none) (hI : h.Indexed) :
    views h = [] := by
  rw [← hI.reindex_eq, heapPop_reindex, Option.map_eq_none_iff] at hpop
  have hsize : h.size = 0 := by
    by_contra hne
    have := GoHeap.pop_isSome less (h := h) (by omega)
    rw [hpop] at this
    cases this
  simp [views, Array.eq_empty_of_size_eq_zero hsize]

/-- `getExpired`'s loop, with at least a round per timer, takes off the expired timers of an
ordered heap and keeps the others. The earliest timer comes off first: once one has not expired,
none has. -/
theorem getExpiredLoop_spec (now : Int) : ∀ (fuel : Nat) (h : TimerHeap β)
    (acc : List (TimerType β)), h.Indexed → h.Ordered → h.size ≤ fuel →
    ∃ ex, (getExpiredLoop now fuel h acc).2 = acc ++ ex ∧
      Expiry now h (getExpiredLoop now fuel h acc).1 ex
  | 0, h, acc, hI, ho, hsize => by
      have hnil : views h = [] := by
        simp [views, Array.eq_empty_of_size_eq_zero (Nat.eq_zero_of_le_zero hsize)]
      exact ⟨[], (List.append_nil acc).symm, .of_all_kept hI ho (by simp [hnil])⟩
  | fuel + 1, h, acc, hI, ho, hsize => by
      rw [getExpiredLoop]
      cases hpop : heapPop h with
      | none =>
          have hnil := views_eq_nil_of_heapPop hpop hI
          exact ⟨[], (List.append_nil acc).symm, .of_all_kept hI ho (by simp [hnil])⟩
      | some r =>
          obtain ⟨timer, h'⟩ := r
          have hv := hI.heapPop_views hpop
          have hI' := hI.heapPop hpop
          have ho' := ho.heapPop hI hpop
          have hsize' : h'.size ≤ fuel := by
            have hlen := hv.length_eq
            simp only [views, List.length_append, List.length_map, Array.length_toList,
              List.length_singleton] at hlen
            omega
          dsimp only
          split
          · -- expired: the rest of the loop runs on what `Pop` left
            rename_i hexp
            have hexp' : timer.expiredAt now = true := decide_eq_true hexp
            obtain ⟨ex, hex, hE⟩ := getExpiredLoop_spec now fuel h' (acc ++ [timer]) hI' ho' hsize'
            refine ⟨timer :: ex, by rw [hex]; simp, hE.indexed, hE.ordered, ?_, ?_⟩
            · refine hE.kept.trans ?_
              have := hv.filter fun t => !t.expiredAt now
              simpa [List.filter_append, hexp'] using this
            · have hfilter : (views h' ++ [timer.unindexed]).filter (·.expiredAt now) =
                  (views h').filter (·.expiredAt now) ++ [timer.unindexed] := by
                simp [List.filter_append, hexp']
              have hp := hv.filter (·.expiredAt now)
              rw [hfilter] at hp
              exact (hE.taken.cons _).trans ((List.perm_append_singleton _ _).symm.trans hp)
          · -- not expired: neither is any later timer, and the timer goes back
            rename_i hnot
            have hnot' : timer.expiredAt now = false := decide_eq_false hnot
            have hall : ∀ t ∈ views h, t.expiredAt now = false := by
              intro t ht
              rcases List.mem_append.mp (hv.mem_iff.mpr ht) with ht' | ht'
              · obtain ⟨t0, ht0, rfl⟩ := List.mem_map.mp ht'
                have hle := ho.heapPop_le hI hpop t0 (by simpa using ht0)
                rw [TimerType.expiredAt_unindexed, TimerType.expiredAt, decide_eq_false_iff_not]
                omega
              · rw [List.mem_singleton.mp ht']
                exact hnot'
            have hE : Expiry now h h [] := .of_all_kept hI ho hall
            refine ⟨[], (List.append_nil acc).symm, hI'.heapPush timer, ho'.heapPush hI' timer,
              ((hI'.heapPush_views timer).trans hv).trans hE.kept, hE.taken⟩

theorem getExpired_spec (now : Int) {h : TimerHeap β} (hI : h.Indexed) (ho : h.Ordered) :
    Expiry now h (getExpired now h).1 (getExpired now h).2 := by
  obtain ⟨ex, hex, hE⟩ := getExpiredLoop_spec now h.size h [] hI ho le_rfl
  rw [getExpired, hex, List.nil_append]
  exact hE

/-- The timer `update` puts back at `now` for an expired repeating one. -/
def rescheduled (now : Int) (t : TimerType β) : TimerType β :=
  let expiration := t.expiration + t.interval
  { t with expiration := if now - expiration ≥ 10 * 10 ^ 9 then now else expiration }

/-- `update` pushes the repeating timers back, rescheduled, and keeps the heap indexed and
ordered. -/
theorem update_spec (now : Int) : ∀ (timers : List (TimerType β)) (h : TimerHeap β),
    h.Indexed → h.Ordered →
    (update now h timers).Indexed ∧ (update now h timers).Ordered ∧
      (views (update now h timers)).Perm
        (views h ++ ((timers.filter (·.isRepeat)).map (rescheduled now)).map TimerType.unindexed)
  | [], h, hI, ho => ⟨hI, ho, by simp [update]⟩
  | t :: rest, h, hI, ho => by
      rw [update, List.foldl_cons]
      by_cases hr : t.isRepeat
      · rw [if_pos hr]
        obtain ⟨hI', ho', hv⟩ := update_spec now rest _ (hI.heapPush _) (ho.heapPush hI _)
        refine ⟨hI', ho', hv.trans ?_⟩
        rw [List.filter_cons_of_pos hr, List.map_cons, List.map_cons, ← List.singleton_append,
          ← List.append_assoc]
        exact (hI.heapPush_views _).append_right _
      · rw [if_neg hr]
        obtain ⟨hI', ho', hv⟩ := update_spec now rest h hI ho
        rw [List.filter_cons_of_neg hr]
        exact ⟨hI', ho', hv⟩

end Wheel

/-! ### Small heaps -/

namespace TimerHeap

theorem heapPush_empty (x : TimerType β) : heapPush #[] x = #[{ x with index := 0 }] := rfl

theorem heapPop_singleton (t : TimerType β) : heapPop #[t] = some ({ t with index := -1 }, #[]) :=
  rfl

theorem getIndexByID_empty (id : Int) : getIndexByID (#[] : TimerHeap β) id = -1 := rfl

theorem getIndexByID_singleton (t : TimerType β) : getIndexByID #[t] t.id = t.index := by
  simp [getIndexByID]

theorem heapRemove_singleton (t : TimerType β) :
    heapRemove #[t] 0 = some ({ t with index := -1 }, #[]) := rfl

end TimerHeap

namespace Wheel

theorem getExpired_singleton {now : Int} {t : TimerType β} (h : now - t.expiration > 0) :
    getExpired now #[t] = (#[], [{ t with index := -1 }]) := by
  rw [getExpired, List.size_toArray, List.length_singleton, getExpiredLoop, heapPop_singleton]
  dsimp only
  rw [if_pos h]
  rfl

end Wheel

/-! ### Cancelling races with adding -/

/-- A timer added and then cancelled by one caller fires at a tick after its expiration when
`start` takes the cancel before the add; taken the other way round, it never fires. -/
theorem cancelled_timer_fires (timerIds when interv now : Int) (cb : β) (hnow : when < now) :
    ((newTimingWheel timerIds : Wheel β).addTimer when interv (some cb)).map (·.1) =
        some timerIds ∧
      ((newTimingWheel timerIds).run [.addTimer when interv (some cb), .cancelTimer timerIds,
          .loop .cancel, .loop .add, .loop (.tick now)]).map (·.timeOutChan) = some [cb] ∧
      ((newTimingWheel timerIds).run [.addTimer when interv (some cb), .cancelTimer timerIds,
          .loop .add, .loop .cancel, .loop (.tick now)]).map (·.timeOutChan) = some [] := by
  have hpos : now - when > 0 := by omega
  set t : TimerType β := ⟨timerIds, when, interv, cb, 0⟩
  have hexp : Wheel.getExpired now #[t] = (#[], [{ t with index := -1 }]) :=
    Wheel.getExpired_singleton hpos
  have hidx : getIndexByID #[t] timerIds = 0 := getIndexByID_singleton t
  refine ⟨rfl, ?_, ?_⟩
  · -- the cancel finds an empty heap; the timer is pushed after it, and expires at the tick
    simp [Wheel.run, Wheel.step, Wheel.addTimer, Wheel.cancelTimer, Wheel.loopStep,
      newTimingWheel, bufferSize, getIndexByID_empty, heapPush_empty, hexp, t]
  · -- the cancel finds the timer at index 0 and removes it; the tick finds nothing
    simp [Wheel.run, Wheel.step, Wheel.addTimer, Wheel.cancelTimer, Wheel.loopStep,
      newTimingWheel, bufferSize, heapPush_empty, hidx, heapRemove_singleton, t]
    rfl

theorem cancelled_timer_fires_one_second :
    (0 : Int) < 10 ^ 9 ∧
      ((newTimingWheel 0 : Wheel Unit).addTimer 0 0 (some ())).map (·.1) = some 0 ∧
      ((newTimingWheel 0 : Wheel Unit).run [.addTimer 0 0 (some ()), .cancelTimer 0,
          .loop .cancel, .loop .add, .loop (.tick (10 ^ 9))]).map (·.timeOutChan) = some [()] ∧
      ((newTimingWheel 0 : Wheel Unit).run [.addTimer 0 0 (some ()), .cancelTimer 0,
          .loop .add, .loop .cancel, .loop (.tick (10 ^ 9))]).map (·.timeOutChan) = some [] :=
  ⟨by decide, cancelled_timer_fires 0 0 0 (10 ^ 9) () (by decide)⟩

end AuroraChain.Task
