import AuroraChain.Aoa.TaskManager
/-!
# The round schedule: `aoa/dpos_taskManager.go` and `task/timer.go`

The task manager keeps a repeating shuffle timer on a timing wheel. Each time it fires,
`shuffleCallback` lays out a round from the head block's delegates, starting at
`initTaskBeginTime + shuffleCount * maxElectDelegate * blockInterval`, installs it, hands it to
`update` over the unbuffered `shuffleNewRoundChan` and advances `shuffleCount`. `update` keeps the
first id of `runningTimeIds` (the shuffle timer), drops the rest without cancelling them, and adds
a production timer for each slot of a local account. `ShuffleWhenVerifyFail` installs a round of
its own and hands it to `update` too when a local account is among the candidates and the round's
time has not passed.

`shuffleCount` counts the rounds installed, not the firings: a firing that returns early, because
the delegate state does not open or no local account is a candidate, leaves it, and the next round
is laid out one round too early (`shuffle_round_lags_skipped_firing`). `update` never removes a
timer from the wheel, so the production timers of a round it replaces stay pending.

Times are in seconds. Each callback runs as one step at the tick that fires it. The wheel is kept
as a list; `timingWheel_refines` shows that it is the heap of package `task` when `start` takes
each call before the next one.
-/

namespace AuroraChain.Aoa

open AuroraChain.Core Dpos DelegateState

/-! ## The timing wheel -/

/-- What a timer does when it times out: the shuffle, or `produceBlockCallback` with the delegate
whose slot it is in its context. -/
inductive Callback where
  | shuffle
  | produceBlock (delegate : ShuffleDel)
  deriving DecidableEq, Repr

/-- `timerType`. -/
structure Timer where
  id : Nat
  expiration : Int
  interval : Int
  timeout : Callback
  deriving DecidableEq, Repr

def Timer.isRepeat (t : Timer) : Bool := decide (t.interval > 0)

/-- `TimingWheel`: the heap of pending timers, as a list, and the counter `timerIds` new ids are
drawn from. -/
structure TimingWheel where
  timers : List Timer
  timerIds : Nat
  deriving DecidableEq, Repr

namespace TimingWheel

def addTimer (tw : TimingWheel) (when interval : Int) (onTimeOut : Callback) : Nat × TimingWheel :=
  (tw.timerIds, ⟨tw.timers ++ [⟨tw.timerIds, when, interval, onTimeOut⟩], tw.timerIds + 1⟩)

/-- `CancelTimer`: the loop removes the timer with that id, if it is still pending. -/
def cancelTimer (tw : TimingWheel) (timerID : Nat) : TimingWheel :=
  { tw with timers := tw.timers.eraseP (·.id == timerID) }

/-- `getExpired` at time `now`: the timers whose expiration has passed, taken off the heap. -/
def getExpired (tw : TimingWheel) (now : Int) : List Timer × TimingWheel :=
  (tw.timers.filter (·.expiration < now),
    { tw with timers := tw.timers.filter fun t => !decide (t.expiration < now) })

/-- `update`: an expired repeating timer goes back one interval later, or at `now` when that is
ten seconds or more in the past. -/
def update (tw : TimingWheel) (now : Int) (timers : List Timer) : TimingWheel :=
  { tw with timers := tw.timers ++ (timers.filter Timer.isRepeat).map fun t =>
      let expiration := t.expiration + t.interval
      { t with expiration := if now - expiration ≥ 10 then now else expiration } }

/-- One tick of `start` at time `now`: the callbacks sent to `timeOutChan`, and the wheel. -/
def tick (tw : TimingWheel) (now : Int) : List Callback × TimingWheel :=
  let expired := tw.getExpired now
  (expired.1.map (·.timeout), expired.2.update now expired.1)

end TimingWheel

/-! ## The task manager -/

/-- The schedule of the task manager: its timer ids, its wheel, the installed round, and the
package variables `initTaskBeginTime` and `shuffleCount`. -/
structure Schedule where
  runningTimeIds : List Nat
  timingWheel : TimingWheel
  taskManager : TaskManager
  initTaskBeginTime : Int
  shuffleCount : Nat
  deriving DecidableEq

/-- `checkNodeInAccounts`: a slot held by a local account, as the delegate its production
timer carries. -/
def checkNodeInAccounts (node : Node) (shuffleDel : ShuffleDel) : Option ShuffleDel :=
  if node.isLocalAccount shuffleDel.address then some shuffleDel else none

/-- The loop of `update` that adds a production timer at each local slot's `WorkTime`. -/
def addProduceTimers : TimingWheel → List Nat → List ShuffleDel → TimingWheel × List Nat
  | tw, runningTimeIds, [] => (tw, runningTimeIds)
  | tw, runningTimeIds, v :: rest =>
      let added := tw.addTimer (toInt64 v.workTime) (-1) (.produceBlock v)
      addProduceTimers added.2 (runningTimeIds ++ [added.1]) rest

namespace Schedule

/-- The body of `update` for a round received on `shuffleNewRoundChan`. -/
def update (node : Node) (s : Schedule) (shuffleList : ShuffleList) : Schedule :=
  let localDelegates := shuffleList.shuffleDels.filterMap (checkNodeInAccounts node)
  let runningTimeIds := if s.runningTimeIds.length > 1 then s.runningTimeIds.take 1
    else s.runningTimeIds
  let added := addProduceTimers s.timingWheel runningTimeIds localDelegates
  { s with
    runningTimeIds := added.2
    timingWheel := added.1
    taskManager := { s.taskManager with currentNewRound := shuffleList } }

/-- `shuffleCallback`, when the shuffle timer fires with `head` as the current block, whose
delegate state opens when `opens` holds: the schedule, and the round installed, if any. -/
def shuffleCallback (node : Node) (s : Schedule) (head : Header) (opens : Bool) :
    Except GoPanic (Schedule × Option ShuffleList) :=
  if !opens then .ok (s, none)
  else
    let shuffleTime : Int :=
      s.initTaskBeginTime + (s.shuffleCount * (node.maxElectDelegate * node.blockInterval) : Nat)
    let checked := checkLocalExistDelegateWhenShuffle node (DelegateDB.new head.delegateRoot)
    if !checked.1 then .ok (s, none)
    else if checked.2.length = 0 then .ok (s, none)
    else
      let topDelegates := if checked.2.length > node.maxElectDelegate then
        checked.2.take node.maxElectDelegate else checked.2
      (shuffleNewRound node.sha256 shuffleTime node.maxElectDelegate topDelegates
          node.blockInterval).map fun shuffleNewRound =>
        let shuffleList : ShuffleList := ⟨shuffleNewRound⟩
        let s := { s with taskManager :=
          { currentRoundBlockHeight := head.number, currentNewRound := shuffleList,
            currentNewRoundHash := node.shuffleListHash shuffleList } }
        -- the send on the unbuffered channel returns once `update` has taken the round
        let s := s.update node shuffleList
        ({ s with shuffleCount := s.shuffleCount + 1 }, some shuffleList)

end Schedule

/-- The last test of `ShuffleWhenVerifyFail`: the round goes to `update` only when a local account
is among the candidates and the round's time has not passed. -/
def verifyFailHandOff (node : Node) (receiveBlockTime : Int) (shuffleBlockNumber : Nat) : Bool :=
  match node.getBlockByNumber (toUint64 shuffleBlockNumber) with
  | none => false
  | some shuffleBlock =>
      let exist :=
        (checkLocalExistDelegateWhenShuffle node (DelegateDB.new shuffleBlock.header.delegateRoot)).1
      match calShuffleTimeByHeaderTime node.now node.fuel node.initTaskBeginTime receiveBlockTime
          node.blockInterval node.maxElectDelegate with
      | none => false
      | some shuffleTime => exist && !decide (shuffleTime < node.now)

namespace Schedule

/-- `ShuffleWhenVerifyFail` on the schedule: the round `shuffleWhenVerifyFail` installs, handed to
`update` when `verifyFailHandOff` says so. An error leaves the schedule as it was, and so does a
search for the round's time that does not end, since nothing is written before it. -/
def shuffleWhenVerifyFail (node : Node) (s : Schedule) (receiveBlockTime : Int)
    (shuffleBlockNumber : Nat) : Except GoPanic Schedule :=
  let node := { node with initTaskBeginTime := s.initTaskBeginTime }
  match AuroraChain.Aoa.shuffleWhenVerifyFail node receiveBlockTime shuffleBlockNumber with
  | none => .ok s
  | some (.error p) => .error p
  | some (.ok (.error _)) => .ok s
  | some (.ok (.ok tm)) =>
      let s := { s with taskManager := tm }
      .ok (if verifyFailHandOff node receiveBlockTime shuffleBlockNumber then
        s.update node tm.currentNewRound else s)

end Schedule

/-- `generateNextRoundBeginTime(genesisBlockTime)` at time `now`; Go's `%` truncates. -/
def generateNextRoundBeginTime (node : Node) (now genesisBlockTime : Int) : Except GoPanic Int :=
  let roundTime : Int := node.maxElectDelegate * node.blockInterval
  if roundTime = 0 then .error .divideByZero
  else .ok (now + (roundTime - (now - genesisBlockTime).tmod roundTime))

/-- `initTask` at time `now`: the kept timers are cancelled and the shuffle timer is set to fire
every round from the next round boundary after genesis. -/
def Schedule.initTask (node : Node) (s : Schedule) (now genesisTime : Int) :
    Except GoPanic Schedule :=
  let tw := s.runningTimeIds.foldl TimingWheel.cancelTimer s.timingWheel
  (generateNextRoundBeginTime node now genesisTime).map fun nextRoundBeginTime =>
    let added := tw.addTimer nextRoundBeginTime (node.blockInterval * node.maxElectDelegate)
      Callback.shuffle
    { s with
      timingWheel := added.2
      runningTimeIds := [added.1]
      initTaskBeginTime := nextRoundBeginTime }

/-- `NewDposTaskManager` at time `now`, with the round read back from the database. -/
def newSchedule (node : Node) (now genesisTime : Int) (tm : TaskManager) :
    Except GoPanic Schedule :=
  Schedule.initTask node ⟨[], ⟨[], 0⟩, tm, 0, 0⟩ now genesisTime

/-! ## Runs -/

/-- What a run did: a firing of the shuffle timer, with the round it installed, if any, or a
production timer firing for a delegate at a time. -/
inductive Fired where
  | shuffle (installed : Option ShuffleList)
  | produceBlock (delegate : ShuffleDel) (now : Int)
  deriving DecidableEq

/-- What happens to the schedule: a tick of the wheel at `now`, where a shuffle firing reads
`head`; or a call of `ShuffleWhenVerifyFail` at `now`. -/
inductive ScheduleEvent where
  | tick (now : Int) (head : Header) (opens : Bool)
  | shuffleWhenVerifyFail (now receiveBlockTime : Int) (shuffleBlockNumber : Nat)

namespace Schedule

/-- The callbacks of one tick, in order. -/
def runCallbacks (node : Node) (now : Int) (head : Header) (opens : Bool) :
    Schedule → List Callback → Except GoPanic (Schedule × List Fired)
  | s, [] => .ok (s, [])
  | s, .shuffle :: rest =>
      (s.shuffleCallback node head opens).bind fun r =>
        (runCallbacks node now head opens r.1 rest).map fun r' => (r'.1, .shuffle r.2 :: r'.2)
  | s, .produceBlock d :: rest =>
      (runCallbacks node now head opens s rest).map fun r => (r.1, .produceBlock d now :: r.2)

/-- One event. -/
def step (node : Node) (s : Schedule) : ScheduleEvent → Except GoPanic (Schedule × List Fired)
  | .tick now head opens =>
      let ticked := s.timingWheel.tick now
      runCallbacks node now head opens { s with timingWheel := ticked.2 } ticked.1
  | .shuffleWhenVerifyFail now receiveBlockTime shuffleBlockNumber =>
      (s.shuffleWhenVerifyFail { node with now := now } receiveBlockTime shuffleBlockNumber).map
        fun s => (s, [])

end Schedule

/-- A run: the schedule at the end, and everything that fired, in order. -/
def runSchedule (node : Node) : Schedule → List ScheduleEvent → Except GoPanic (Schedule × List Fired)
  | s, [] => .ok (s, [])
  | s, e :: rest =>
      (s.step node e).bind fun r =>
        (runSchedule node r.1 rest).map fun r' => (r'.1, r.2 ++ r'.2)

namespace Schedule

@[simp] theorem update_initTaskBeginTime (node : Node) (s : Schedule) (shuffleList : ShuffleList) :
    (s.update node shuffleList).initTaskBeginTime = s.initTaskBeginTime := rfl

@[simp] theorem update_shuffleCount (node : Node) (s : Schedule) (shuffleList : ShuffleList) :
    (s.update node shuffleList).shuffleCount = s.shuffleCount := rfl

end Schedule

/-! ## Rounds are numbered by the rounds installed -/

/-- The rounds the shuffle timer installed, in order. -/
def installedRounds (fired : List Fired) : List ShuffleList :=
  fired.filterMap fun f => match f with
    | .shuffle installed => installed
    | .produceBlock _ _ => none

theorem installedRounds_append (f₁ f₂ : List Fired) :
    installedRounds (f₁ ++ f₂) = installedRounds f₁ ++ installedRounds f₂ :=
  List.filterMap_append

/-- Every slot `i` of the round lies `i` block intervals after `t`. -/
def StartsAt (node : Node) (t : Int) (shuffleList : ShuffleList) : Prop :=
  ∀ (i : Nat) (d : ShuffleDel), shuffleList.shuffleDels[i]? = some d →
    d.workTime = toUint64 (t + i * node.blockInterval)

/-- What a stretch of a run from `s` to `s'` that fired `fired` does to the schedule's counting:
`initTaskBeginTime` stays, `shuffleCount` grows by one per round installed, and the `j`-th round
installed starts `shuffleCount + j` rounds after `initTaskBeginTime`. -/
structure Counts (node : Node) (s s' : Schedule) (fired : List Fired) : Prop where
  begin : s'.initTaskBeginTime = s.initTaskBeginTime
  count : s'.shuffleCount = s.shuffleCount + (installedRounds fired).length
  rounds : ∀ (j : Nat) (shuffleList : ShuffleList), (installedRounds fired)[j]? = some shuffleList →
    StartsAt node (s.initTaskBeginTime +
      ((s.shuffleCount + j) * (node.maxElectDelegate * node.blockInterval) : Nat)) shuffleList

namespace Counts

variable {node : Node}

/-- A stretch that installs no round and leaves both counters. -/
theorem of_eq {s s' : Schedule} {fired : List Fired} (hnone : installedRounds fired = [])
    (hbegin : s'.initTaskBeginTime = s.initTaskBeginTime)
    (hcount : s'.shuffleCount = s.shuffleCount) : Counts node s s' fired where
  begin := hbegin
  count := by rw [hcount, hnone, List.length_nil, Nat.add_zero]
  rounds j _ hj := by
    rw [hnone] at hj
    cases hj

theorem trans {s₁ s₂ s₃ : Schedule} {f₁ f₂ : List Fired} (h₁ : Counts node s₁ s₂ f₁)
    (h₂ : Counts node s₂ s₃ f₂) : Counts node s₁ s₃ (f₁ ++ f₂) where
  begin := h₂.begin.trans h₁.begin
  count := by
    rw [h₂.count, h₁.count, installedRounds_append, List.length_append, Nat.add_assoc]
  rounds j shuffleList hj := by
    rw [installedRounds_append] at hj
    by_cases hlt : j < (installedRounds f₁).length
    · rw [List.getElem?_append_left hlt] at hj
      exact h₁.rounds j shuffleList hj
    · rw [List.getElem?_append_right (Nat.le_of_not_lt hlt)] at hj
      have hstart := h₂.rounds _ shuffleList hj
      rw [h₁.begin, h₁.count] at hstart
      have hshift : s₁.shuffleCount + (installedRounds f₁).length +
          (j - (installedRounds f₁).length) = s₁.shuffleCount + j := by omega
      rwa [hshift] at hstart

end Counts

namespace Schedule

/-- A firing of the shuffle timer that installs a round installs it at the round `shuffleCount`
names, and advances `shuffleCount`; one that returns early changes nothing. -/
theorem shuffleCallback_counts {node : Node} {s : Schedule} {head : Header} {opens : Bool}
    {r : Schedule × Option ShuffleList} (h : s.shuffleCallback node head opens = .ok r) :
    Counts node s r.1 [.shuffle r.2] := by
  unfold shuffleCallback at h
  dsimp only at h
  split at h
  · cases h
    exact Counts.of_eq rfl rfl rfl
  split at h
  · cases h
    exact Counts.of_eq rfl rfl rfl
  split at h
  · cases h
    exact Counts.of_eq rfl rfl rfl
  obtain ⟨round, hround, h⟩ := except_map_eq_ok h
  cases h
  refine ⟨rfl, rfl, fun j shuffleList hj => ?_⟩
  cases j with
  | zero =>
      cases hj
      rw [Nat.add_zero]
      exact shuffleNewRound_workTime hround
  | succ j => cases hj

theorem runCallbacks_counts {node : Node} {now : Int} {head : Header} {opens : Bool} :
    ∀ (callbacks : List Callback) (s : Schedule) (r : Schedule × List Fired),
      runCallbacks node now head opens s callbacks = .ok r → Counts node s r.1 r.2
  | [], s, r, h => by
      cases h
      exact Counts.of_eq rfl rfl rfl
  | .shuffle :: rest, s, r, h => by
      obtain ⟨r₁, h₁, h⟩ := except_bind_eq_ok h
      obtain ⟨r₂, h₂, h⟩ := except_map_eq_ok h
      cases h
      exact (shuffleCallback_counts h₁).trans (runCallbacks_counts rest r₁.1 r₂ h₂)
  | .produceBlock d :: rest, s, r, h => by
      obtain ⟨r₁, h₁, h⟩ := except_map_eq_ok h
      cases h
      exact (show Counts node s s [.produceBlock d now] from Counts.of_eq rfl rfl rfl).trans
        (runCallbacks_counts rest s r₁ h₁)

theorem shuffleWhenVerifyFail_counts {node : Node} {s s' : Schedule} {receiveBlockTime : Int}
    {shuffleBlockNumber : Nat}
    (h : s.shuffleWhenVerifyFail node receiveBlockTime shuffleBlockNumber = .ok s') :
    Counts node s s' [] := by
  unfold shuffleWhenVerifyFail at h
  dsimp only at h
  split at h
  · cases h
    exact Counts.of_eq rfl rfl rfl
  · cases h
  · cases h
    exact Counts.of_eq rfl rfl rfl
  · cases h
    split <;> exact Counts.of_eq rfl rfl rfl

theorem step_counts {node : Node} {s : Schedule} {r : Schedule × List Fired} :
    ∀ {e : ScheduleEvent}, s.step node e = .ok r → Counts node s r.1 r.2
  | .tick now head opens, h => by
      -- the tick only moves the wheel, which the counting does not look at
      have hc := runCallbacks_counts _ _ r h
      exact ⟨hc.begin, hc.count, hc.rounds⟩
  | .shuffleWhenVerifyFail now receiveBlockTime shuffleBlockNumber, h => by
      obtain ⟨s', h', h⟩ := except_map_eq_ok h
      cases h
      have hc := shuffleWhenVerifyFail_counts h'
      exact ⟨hc.begin, hc.count, hc.rounds⟩

end Schedule

/-- Over a whole run, `initTaskBeginTime` stays, `shuffleCount` is the number of rounds installed,
and the `j`-th round installed starts `shuffleCount + j` rounds after `initTaskBeginTime`: rounds
are placed by the count of rounds installed, whatever the number of firings. -/
theorem runSchedule_counts (node : Node) :
    ∀ (events : List ScheduleEvent) (s : Schedule) (r : Schedule × List Fired),
      runSchedule node s events = .ok r → Counts node s r.1 r.2
  | [], s, r, h => by
      cases h
      exact Counts.of_eq rfl rfl rfl
  | e :: rest, s, r, h => by
      obtain ⟨r₁, h₁, h⟩ := except_bind_eq_ok h
      obtain ⟨r₂, h₂, h⟩ := except_map_eq_ok h
      cases h
      exact (Schedule.step_counts h₁).trans (runSchedule_counts node rest r₁.1 r₂ h₂)

/-- A node where only the account 5 is local, with rounds of one ten-second slot. -/
def lagNode : Node := { twoDelegateSetsNode with isLocalAccount := fun a => a == 5 }

/-- A head block whose delegate state holds the one delegate `a`. -/
def headHolding (a : Address) : Header :=
  { parentHeader with number := 1, delegateRoot := soleDelegate a }

/-- Started at time 990 on a chain from time 0, the shuffle timer is set for 1000 and every ten
seconds. Its first firing, at 1001, finds no local delegate. Its second, scheduled for 1010, lays
out the round from `shuffleCount = 0`, at 1000, and at 1011 leaves a production timer for 1000
pending. -/
theorem shuffle_round_lags_skipped_firing :
    ((newSchedule lagNode 990 0 emptyRound).bind fun s =>
        runSchedule lagNode s [.tick 1001 (headHolding 6) true, .tick 1011 (headHolding 5) true]).map
      (fun r => (r.1.initTaskBeginTime, r.2, r.1.timingWheel.timers)) =
    .ok (1000, [.shuffle none, .shuffle (some ⟨[⟨1000, 5, 1, ""⟩]⟩)],
      [⟨0, 1020, 10, .shuffle⟩, ⟨1, 1000, -1, .produceBlock ⟨1000, 5, 1, ""⟩⟩]) := by
  decide +kernel

end AuroraChain.Aoa
