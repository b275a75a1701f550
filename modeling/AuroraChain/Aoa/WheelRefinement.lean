import AuroraChain.Aoa.Schedule
import AuroraChain.Task.Timer
/-!
# The schedule's timing wheel and the wheel of package `task`

`Aoa.Schedule` keeps its timers in `TimingWheel`, a list in seconds, and takes `AddTimer`,
`CancelTimer` and a tick of `start` as functions on it. Package `task` is the code: a heap in
nanoseconds that the goroutine `start` owns and that the callers reach through `addChan` and
`cancelChan`. The list is what the code does when `start` takes each message before the next call
is made and the clock reads whole seconds. `WheelRefines` relates the two: no message waiting, the
same timers up to order and index, the same id counter. Every call keeps it, and a tick sends the
callbacks the list model returns, up to order (`timingWheel_refines`). The order of one tick's
callbacks is not the code's to keep: `StartOnTimeOut` runs each in a goroutine of its own.

The other interleavings are not covered: `cancelled_timer_fires` is one where `start` takes a
cancel before the add it follows.
-/

namespace AuroraChain.Aoa

open AuroraChain.Task AuroraChain.Task.TimerHeap

/-- A timer of the list model as the code holds it: times in nanoseconds, no position. -/
def Timer.toTask (t : Timer) : TimerType Callback :=
  ⟨t.id, t.expiration * 10 ^ 9, t.interval * 10 ^ 9, t.timeout, 0⟩

/-- The timer `update` puts back at `now` for an expired repeating one. -/
def Timer.rescheduled (now : Int) (t : Timer) : Timer :=
  let expiration := t.expiration + t.interval
  { t with expiration := if now - expiration ≥ 10 then now else expiration }

theorem TimingWheel.update_timers (tw : TimingWheel) (now : Int) (timers : List Timer) :
    (tw.update now timers).timers =
      tw.timers ++ (timers.filter Timer.isRepeat).map (Timer.rescheduled now) := rfl

@[simp] theorem Timer.toTask_unindexed (t : Timer) : t.toTask.unindexed = t.toTask := rfl

@[simp] theorem Timer.toTask_isRepeat (t : Timer) : t.toTask.isRepeat = t.isRepeat := by
  rw [TimerType.isRepeat, Timer.isRepeat, Bool.eq_iff_iff, decide_eq_true_iff, decide_eq_true_iff]
  show t.interval * 10 ^ 9 > 0 ↔ t.interval > 0
  omega

theorem Timer.toTask_expiredAt (now : Int) (t : Timer) :
    t.toTask.expiredAt (now * 10 ^ 9) = decide (t.expiration < now) := by
  rw [TimerType.expiredAt, Bool.eq_iff_iff, decide_eq_true_iff, decide_eq_true_iff]
  show now * 10 ^ 9 - t.expiration * 10 ^ 9 > 0 ↔ t.expiration < now
  omega

theorem Timer.toTask_rescheduled (now : Int) (t : Timer) :
    Wheel.rescheduled (now * 10 ^ 9) t.toTask = (t.rescheduled now).toTask := by
  simp only [Wheel.rescheduled, Timer.rescheduled, Timer.toTask, TimerType.mk.injEq, and_true,
    true_and]
  split_ifs <;> first | rfl | omega

/-! ## Ids -/

namespace TimingWheel

/-- The ids of the pending timers are distinct and below the counter. -/
structure IdsFresh (tw : TimingWheel) : Prop where
  lt : ∀ t ∈ tw.timers, t.id < tw.timerIds
  nodup : (tw.timers.map (·.id)).Nodup

theorem IdsFresh.of_sublist {tw tw' : TimingWheel} (hf : tw.IdsFresh)
    (hsub : (tw'.timers.map (·.id)).Sublist (tw.timers.map (·.id)))
    (hmem : ∀ t ∈ tw'.timers, ∃ t₀ ∈ tw.timers, t₀.id = t.id) (hids : tw'.timerIds = tw.timerIds) :
    tw'.IdsFresh := by
  refine ⟨fun t ht => ?_, hf.nodup.sublist hsub⟩
  obtain ⟨t₀, ht₀, hid⟩ := hmem t ht
  rw [hids, ← hid]
  exact hf.lt t₀ ht₀

theorem IdsFresh.addTimer {tw : TimingWheel} (hf : tw.IdsFresh) (when interval : Int)
    (onTimeOut : Callback) : (tw.addTimer when interval onTimeOut).2.IdsFresh := by
  refine ⟨fun t ht => ?_, ?_⟩
  · rcases List.mem_append.mp ht with ht | ht
    · exact Nat.lt_succ_of_lt (hf.lt t ht)
    · rw [List.mem_singleton.mp ht]
      exact Nat.lt_succ_self _
  · simp only [TimingWheel.addTimer, List.map_append, List.map_cons, List.map_nil]
    refine List.nodup_append.mpr ⟨hf.nodup, List.nodup_singleton _, ?_⟩
    intro a ha b hb hab
    obtain ⟨t, ht, rfl⟩ := List.mem_map.mp ha
    rw [List.mem_singleton.mp hb] at hab
    exact absurd hab (hf.lt t ht).ne

theorem IdsFresh.cancelTimer {tw : TimingWheel} (hf : tw.IdsFresh) (timerID : Nat) :
    (tw.cancelTimer timerID).IdsFresh :=
  hf.of_sublist ((List.eraseP_sublist).map _)
    (fun t ht => ⟨t, List.mem_of_mem_eraseP ht, rfl⟩) rfl

/-- A tick takes off the expired timers and puts the repeating ones back, with their ids. -/
theorem tick_ids_sublist (tw : TimingWheel) (now : Int) :
    List.Sublist ((tw.tick now).2.timers.map (·.id))
      (List.map (·.id) ((tw.timers.filter fun t => !decide (t.expiration < now)) ++
        tw.timers.filter fun t => decide (t.expiration < now))) := by
  simp only [tick, getExpired, update_timers, List.map_append, List.map_map]
  have hid : (fun t : Timer => t.id) ∘ Timer.rescheduled now = fun t => t.id := rfl
  rw [hid]
  exact (List.filter_sublist.map _).append_left _

theorem IdsFresh.tick {tw : TimingWheel} (hf : tw.IdsFresh) (now : Int) :
    (tw.tick now).2.IdsFresh := by
  have hperm := List.filter_append_perm (fun t : Timer => !decide (t.expiration < now)) tw.timers
  simp only [Bool.not_not] at hperm
  refine ⟨fun t ht => ?_, ?_⟩
  · have hmem : t.id ∈ tw.timers.map (·.id) :=
      (hperm.map (·.id)).subset ((tick_ids_sublist tw now).subset (List.mem_map_of_mem ht))
    obtain ⟨t₀, ht₀, hid⟩ := List.mem_map.mp hmem
    rw [← hid]
    exact hf.lt t₀ ht₀
  · exact ((hperm.map (·.id)).nodup_iff.mpr hf.nodup).sublist (tick_ids_sublist tw now)

end TimingWheel

/-! ## The relation -/

/-- The code's wheel `w` at rest stands for the list model's `tw`: no message waits in `addChan`
or `cancelChan`, the heap is indexed and ordered, it holds the timers of `tw` in nanoseconds, up to
order, and the counters agree. -/
structure WheelRefines (w : Wheel Callback) (tw : TimingWheel) : Prop where
  addChan : w.addChan = []
  cancelChan : w.cancelChan = []
  indexed : w.timers.Indexed
  ordered : w.timers.Ordered
  timers : (views w.timers).Perm (tw.timers.map Timer.toTask)
  timerIds : w.timerIds = tw.timerIds
  fresh : tw.IdsFresh

theorem wheelRefines_new (timerIds : Nat) :
    WheelRefines (newTimingWheel (timerIds : Int)) ⟨[], timerIds⟩ := by
  refine ⟨rfl, rfl, fun k hk => ?_, fun k _ hk => ?_, List.Perm.refl _, rfl,
    ⟨fun t ht => absurd ht List.not_mem_nil, List.nodup_nil⟩⟩
  · simp [newTimingWheel] at hk
  · simp [newTimingWheel, keys] at hk

/-- A call on the wheel, as the schedule makes them, with times in seconds. -/
inductive WheelCall where
  | addTimer (when interval : Int) (onTimeOut : Callback)
  | cancelTimer (timerID : Nat)
  | tick (now : Int)

namespace WheelCall

/-- The call on the list model: the callbacks sent, and the wheel. -/
def apply (tw : TimingWheel) : WheelCall → List Callback × TimingWheel
  | addTimer when interval onTimeOut => ([], (tw.addTimer when interval onTimeOut).2)
  | cancelTimer timerID => ([], tw.cancelTimer timerID)
  | tick now => tw.tick now

/-- The call in the code, taken by `start` at once: the caller's send and the round of `start` that
receives it. A tick at `now` seconds reads the clock in nanoseconds. -/
def events : WheelCall → List (Event Callback)
  | addTimer when interval onTimeOut =>
      [.addTimer (when * 10 ^ 9) (interval * 10 ^ 9) (some onTimeOut), .loop .add]
  | cancelTimer timerID => [.cancelTimer timerID, .loop .cancel]
  | tick now => [.loop (.tick (now * 10 ^ 9))]

end WheelCall

/-- Calls one after another on the list model: the callbacks sent, in order, and the wheel. -/
def runCalls (tw : TimingWheel) : List WheelCall → List Callback × TimingWheel
  | [] => ([], tw)
  | c :: cs =>
      let r := c.apply tw
      let rest := runCalls r.2 cs
      (r.1 ++ rest.1, rest.2)

/-! ## Each call keeps the relation -/

namespace WheelRefines

variable {w : Wheel Callback} {tw : TimingWheel}

theorem addTimer (hR : WheelRefines w tw) (when interval : Int) (onTimeOut : Callback) :
    (w.addTimer (when * 10 ^ 9) (interval * 10 ^ 9) (some onTimeOut)).map (·.1) =
        some ((tw.addTimer when interval onTimeOut).1 : Int) ∧
      ∃ w', w.run (WheelCall.addTimer when interval onTimeOut).events = some w' ∧
        WheelRefines w' (tw.addTimer when interval onTimeOut).2 ∧ w'.timeOutChan = w.timeOutChan := by
  set t : TimerType Callback := ⟨w.timerIds, when * 10 ^ 9, interval * 10 ^ 9, onTimeOut, 0⟩
  have hsend : w.addTimer (when * 10 ^ 9) (interval * 10 ^ 9) (some onTimeOut) =
      some (w.timerIds, { w with addChan := [t], timerIds := w.timerIds + 1 }) := by
    simp [Wheel.addTimer, hR.addChan, bufferSize, t]
  have ht : t.unindexed = (⟨tw.timerIds, when, interval, onTimeOut⟩ : Timer).toTask := by
    simp [t, Timer.toTask, TimerType.unindexed, hR.timerIds]
  refine ⟨by rw [hsend, hR.timerIds]; rfl,
    { w with addChan := [], timers := heapPush w.timers t, timerIds := w.timerIds + 1 }, ?_, ?_, rfl⟩
  · simp only [WheelCall.events, Wheel.run, Wheel.step, hsend, Option.map_some, Option.bind_some,
      Wheel.loopStep]
  · refine ⟨rfl, hR.cancelChan, hR.indexed.heapPush t, hR.ordered.heapPush hR.indexed t, ?_,
      by simp [TimingWheel.addTimer, hR.timerIds], hR.fresh.addTimer when interval onTimeOut⟩
    refine (hR.indexed.heapPush_views t).trans ?_
    rw [ht, TimingWheel.addTimer, List.map_append]
    exact hR.timers.append_right _

/-- On distinct ids, `CancelTimer` takes off the one timer with the id, wherever the heap holds
it, as `eraseP` does in the list. -/
theorem cancelTimer (hR : WheelRefines w tw) (timerID : Nat) :
    ∃ w', w.run (WheelCall.cancelTimer timerID).events = some w' ∧
      WheelRefines w' (tw.cancelTimer timerID) ∧ w'.timeOutChan = w.timeOutChan := by
  have hsent : w.cancelTimer timerID = some { w with cancelChan := [(timerID : Int)] } := by
    simp [Wheel.cancelTimer, hR.cancelChan, bufferSize]
  rcases getIndexByID_cases hR.indexed timerID with ⟨hnone, hnot⟩ | ⟨k, hk, hidx, hid⟩
  · -- no timer has the id, in the heap or in the list
    have hkeep : tw.timers.eraseP (·.id == timerID) = tw.timers := by
      refine List.eraseP_of_forall_not fun t ht heq => ?_
      have hmem : t.toTask ∈ views w.timers := hR.timers.mem_iff.mpr (List.mem_map_of_mem ht)
      obtain ⟨t₀, ht₀, he⟩ := List.mem_map.mp hmem
      have hid₀ : t₀.id = timerID := by
        have := congrArg TimerType.id he
        simp only [TimerType.unindexed, Timer.toTask] at this
        rw [this, (beq_iff_eq.mp heq)]
      exact hnot t₀ (Array.mem_toList_iff.mp ht₀) hid₀
    refine ⟨{ w with cancelChan := [] }, ?_, ?_, rfl⟩
    · simp [WheelCall.events, Wheel.run, Wheel.step, hsent, Wheel.loopStep, hnone]
    · refine ⟨hR.addChan, rfl, hR.indexed, hR.ordered, ?_, hR.timerIds,
        hR.fresh.cancelTimer timerID⟩
      rw [TimingWheel.cancelTimer, hkeep]
      exact hR.timers
  · -- the timer at `k` has the id; in the list it is the one `eraseP` takes
    obtain ⟨h', hrem, hI'⟩ := heapRemove_indexed hR.indexed hk
    have hv := hR.indexed.heapRemove_views hrem
    have hmem : w.timers[k].unindexed ∈ tw.timers.map Timer.toTask :=
      hR.timers.mem_iff.mp (List.mem_map_of_mem (Array.mem_toList_iff.mpr (Array.getElem_mem hk)))
    obtain ⟨t, ht, hte⟩ := List.mem_map.mp hmem
    have htid : t.id = timerID := by
      have := congrArg TimerType.id hte
      simp only [TimerType.unindexed, Timer.toTask] at this
      omega
    obtain ⟨a, l₁, l₂, -, hpa, hsplit, herase⟩ :=
      @List.exists_of_eraseP _ (fun x : Timer => x.id == timerID) _ _ ht (by simpa using htid)
    have hat : a = t := by
      have hida : a.id = t.id := by rw [htid]; simpa using hpa
      exact List.inj_on_of_nodup_map hR.fresh.nodup (by rw [hsplit]; simp) ht hida
    refine ⟨{ w with cancelChan := [], timers := h' }, ?_, ⟨hR.addChan, rfl, hI',
      hR.ordered.heapRemove hR.indexed hrem, ?_, hR.timerIds, hR.fresh.cancelTimer timerID⟩, rfl⟩
    · have hge : (getIndexByID w.timers timerID) ≥ 0 := by rw [hidx]; exact Int.natCast_nonneg k
      simp [WheelCall.events, Wheel.run, Wheel.step, hsent, Wheel.loopStep, hidx, hrem]
    · have hfull := hv.trans hR.timers
      rw [hsplit, List.map_append, List.map_cons, hat] at hfull
      have hx : ({ w.timers[k] with index := -1 } : TimerType Callback).unindexed = t.toTask :=
        hte.symm
      rw [hx] at hfull
      rw [TimingWheel.cancelTimer, herase, List.map_append]
      exact (List.perm_append_right_iff _).mp
        (hfull.trans (List.perm_middle.trans (List.perm_append_singleton _ _).symm))

/-- A tick at a whole second sends the callbacks of the expired timers, up to order, and leaves
the timers the list model leaves. -/
theorem tick (hR : WheelRefines w tw) (now : Int) :
    ∃ w', w.run (WheelCall.tick now).events = some w' ∧ WheelRefines w' (tw.tick now).2 ∧
      ∃ sent, w'.timeOutChan = w.timeOutChan ++ sent ∧ sent.Perm (tw.tick now).1 := by
  set r := Wheel.getExpired (now * 10 ^ 9) w.timers
  have hE := Wheel.getExpired_spec (now * 10 ^ 9) hR.indexed hR.ordered
  obtain ⟨hI', ho', hv⟩ := Wheel.update_spec (now * 10 ^ 9) r.2 r.1 hE.indexed hE.ordered
  have hP : (fun t : Timer => t.toTask.expiredAt (now * 10 ^ 9)) =
      fun t => decide (t.expiration < now) := funext (Timer.toTask_expiredAt now)
  have htaken : (r.2.map TimerType.unindexed).Perm
      ((tw.timers.filter fun t => decide (t.expiration < now)).map Timer.toTask) := by
    refine hE.taken.trans ((hR.timers.filter _).trans ?_)
    rw [List.filter_map, Function.comp_def, hP]
  have hkept : (views r.1).Perm
      ((tw.timers.filter fun t => !decide (t.expiration < now)).map Timer.toTask) := by
    refine hE.kept.trans ((hR.timers.filter _).trans ?_)
    rw [List.filter_map, Function.comp_def]
    simp only [Timer.toTask_expiredAt]
    exact List.Perm.refl _
  have hback : (((r.2.filter (·.isRepeat)).map (Wheel.rescheduled (now * 10 ^ 9))).map
      TimerType.unindexed).Perm
      ((((tw.timers.filter fun t => decide (t.expiration < now)).filter Timer.isRepeat).map
        (Timer.rescheduled now)).map Timer.toTask) := by
    have hcomm : ((r.2.filter (·.isRepeat)).map (Wheel.rescheduled (now * 10 ^ 9))).map
        TimerType.unindexed =
        (((r.2.map TimerType.unindexed).filter (·.isRepeat)).map
          (Wheel.rescheduled (now * 10 ^ 9))) := by
      rw [List.filter_map, List.map_map, List.map_map]
      rfl
    rw [hcomm]
    refine ((htaken.filter _).map _).trans ?_
    rw [List.filter_map, List.map_map, List.map_map]
    simp only [Function.comp_def, Timer.toTask_isRepeat, Timer.toTask_rescheduled]
    exact List.Perm.refl _
  let sent := r.2.map (·.timeout)
  let w' : Wheel Callback :=
    { w with timers := Wheel.update (now * 10 ^ 9) r.1 r.2, timeOutChan := w.timeOutChan ++ sent }
  refine ⟨w', rfl, ⟨hR.addChan, hR.cancelChan, hI', ho', ?_, hR.timerIds, hR.fresh.tick now⟩, sent,
    rfl, ?_⟩
  · refine hv.trans ?_
    simp only [TimingWheel.tick, TimingWheel.getExpired, TimingWheel.update_timers,
      List.map_append]
    exact hkept.append hback
  · have hsent := htaken.map (·.timeout)
    simp only [List.map_map, Function.comp_def, TimerType.unindexed, Timer.toTask] at hsent
    exact hsent

theorem call (hR : WheelRefines w tw) (c : WheelCall) :
    ∃ w', w.run c.events = some w' ∧ WheelRefines w' (c.apply tw).2 ∧
      ∃ sent, w'.timeOutChan = w.timeOutChan ++ sent ∧ sent.Perm (c.apply tw).1 := by
  cases c with
  | addTimer when interval onTimeOut =>
      obtain ⟨-, w', hrun, hR', hout⟩ := hR.addTimer when interval onTimeOut
      exact ⟨w', hrun, hR', [], by rw [hout, List.append_nil], List.Perm.refl _⟩
  | cancelTimer timerID =>
      obtain ⟨w', hrun, hR', hout⟩ := hR.cancelTimer timerID
      exact ⟨w', hrun, hR', [], by rw [hout, List.append_nil], List.Perm.refl _⟩
  | tick now => exact hR.tick now

/-- Calls one after another keep the relation, and the code sends the callbacks of all of them,
up to order. The induction is on the calls, from any pair of related wheels. -/
theorem runCalls (hR : WheelRefines w tw) (cs : List WheelCall) :
    ∃ w', w.run (cs.flatMap WheelCall.events) = some w' ∧ WheelRefines w' (Aoa.runCalls tw cs).2 ∧
      ∃ sent, w'.timeOutChan = w.timeOutChan ++ sent ∧ sent.Perm (Aoa.runCalls tw cs).1 := by
  induction cs generalizing w tw with
  | nil => exact ⟨w, rfl, hR, [], (List.append_nil _).symm, List.Perm.refl _⟩
  | cons c cs ih =>
      obtain ⟨w₁, hrun₁, hR₁, sent₁, hout₁, hp₁⟩ := hR.call c
      obtain ⟨w₂, hrun₂, hR₂, sent₂, hout₂, hp₂⟩ := ih hR₁
      refine ⟨w₂, ?_, hR₂, sent₁ ++ sent₂, by rw [hout₂, hout₁, List.append_assoc], hp₁.append hp₂⟩
      rw [List.flatMap_cons, Wheel.run_append, hrun₁, Option.bind_some]
      exact hrun₂

end WheelRefines

theorem timingWheel_refines (timerIds : Nat) (cs : List WheelCall) :
    ∃ w, (newTimingWheel (timerIds : Int)).run (cs.flatMap WheelCall.events) = some w ∧
      WheelRefines w (runCalls ⟨[], timerIds⟩ cs).2 ∧
      w.timeOutChan.Perm (runCalls ⟨[], timerIds⟩ cs).1 := by
  obtain ⟨w, hrun, hR, sent, hout, hp⟩ := (wheelRefines_new timerIds).runCalls cs
  refine ⟨w, hrun, hR, ?_⟩
  rw [hout]
  exact hp

end AuroraChain.Aoa
