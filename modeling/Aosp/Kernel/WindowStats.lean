import Aosp.Lib.Run
import Mathlib.Algebra.Group.Int.Defs
import Mathlib.Algebra.Group.Nat.Defs
import Mathlib.Logic.Function.Basic

/-! # Window based load statistics

The per-window accounting of `kernel/sched/core.c`: each task keeps its busy time
in the current and in the previous window, each run queue the busy time of the
CPU in the two.  The windows of a task are rolled over when the task is next
accounted, those of a run queue when its current task is.

`RavgUpdate` is one call of `update_task_ravg`; `SchedState.step` is the machine
whose events are the places the scheduler calls it from.  The counts of windows
are stored in an `int` as in the source.  The runnable sums are natural numbers:
they would have to reach 2^64 ns of busy time within a window to differ.
-/

namespace Aosp.Kernel

open Aosp.Lib
open Function (update)

def exitingTaskMarker : Nat := 0xdeaddead

def minSchedRavgWindow : Nat := 10000000

/-- A 64-bit count as an `int` keeps it. -/
def storeInt (count : Nat) : Int := Int.bmod count (2 ^ 32)

def storeU32 (v : Nat) : Nat := v % 2 ^ 32

structure Ravg where
  markStart : Nat
  sum : Nat
  demand : Nat
  sumHistory : Nat → Nat
  currWindow : Nat
  prevWindow : Nat

def Ravg.exitingTask (rv : Ravg) : Bool := rv.sumHistory 0 == exitingTaskMarker

inductive TaskEvent where
  | putPrevTask
  | pickNextTask
  | taskWake
  | taskMigrate
  | taskUpdate
  | irqUpdate
deriving DecidableEq

inductive WindowStatsPolicy where
  | recent
  | max
  | maxRecentAvg
  | avg
deriving DecidableEq

/-- What the accounting reads of the frequencies and the tunables. -/
structure Settings where
  curFreq : Nat
  maxFreq : Nat
  rqMaxPossibleFreq : Nat
  efficiency : Nat
  /-- `cpu_is_waiting_on_io` -/
  waitingOnIo : Bool
  maxPossibleFreq : Nat
  maxPossibleEfficiency : Nat
  schedHeavyTask : Nat
  schedAccountWaitTime : Bool
  schedFreqAccountWaitTime : Bool
  schedRavgHistSize : Nat
  schedWindowStatsPolicy : WindowStatsPolicy

def Settings.scaleExecTime (conf : Settings) (delta : Nat) : Nat :=
  let curFreq :=
    if conf.maxPossibleFreq < conf.curFreq ∨ (conf.curFreq = conf.maxFreq ∧ conf.maxFreq < conf.rqMaxPossibleFreq) then
      conf.rqMaxPossibleFreq
    else conf.curFreq
  -- div64_u64 rounded up
  let scaled := (delta * curFreq + conf.maxPossibleFreq - 1) % 2 ^ 64 / conf.maxPossibleFreq
  let sf := (conf.efficiency * 1024 + conf.maxPossibleEfficiency - 1) / conf.maxPossibleEfficiency
  scaled * sf % 2 ^ 64 / 2 ^ 10

structure RunQueue (T : Type) where
  curr : T
  windowStart : Nat
  currRunnableSum : Nat
  prevRunnableSum : Nat

/-- One call of `update_task_ravg`: its arguments, and what it reads elsewhere. -/
structure RavgUpdate where
  settings : Settings
  /-- `sched_ravg_window` -/
  window : Nat
  /-- `is_idle_task(p)` -/
  idle : Bool
  /-- `p == rq->curr` -/
  isCurrTask : Bool
  event : TaskEvent
  wallclock : Nat
  irqtime : Nat

section Accounting

variable {T : Type} (call : RavgUpdate) (rv : Ravg) (rq : RunQueue T)

def RavgUpdate.updateWindowStart : RunQueue T :=
  let delta : Int := (call.wallclock : Int) - rq.windowStart
  if delta < call.window then rq
  else
    let nrWindows := storeInt (delta.toNat / call.window)
    { rq with windowStart := ((rq.windowStart + nrWindows * call.window) % 2 ^ 64).toNat }

/-! ## Demand of a task -/

def RavgUpdate.accountBusyForTaskDemand : Bool :=
  if rv.exitingTask || call.idle then false
  else if call.event = .taskWake ∨
      (call.settings.schedAccountWaitTime = false ∧ (call.event = .pickNextTask ∨ call.event = .taskMigrate)) then
    false
  else true

/-- The history while samples are written to it, with their sum and maximum. -/
structure HistoryScan where
  hist : Nat → Nat
  sum : Nat
  max : Nat

def HistoryScan.put (scan : HistoryScan) (widx v : Nat) : HistoryScan where
  hist := update scan.hist widx v
  sum := scan.sum + v
  max := if scan.max < v then v else scan.max

/-- The first loop of `update_history`, which makes room for the samples; `ridx` counts down. -/
def shiftHistory (histSize samples : Nat) (hist : Nat → Nat) : HistoryScan :=
  (List.range (histSize - samples)).reverse.foldl (fun scan ridx => scan.put (ridx + samples) (scan.hist ridx))
    ⟨hist, 0, 0⟩

/-- The second loop. -/
def HistoryScan.pushSamples (scan : HistoryScan) (histSize samples runtime : Nat) : HistoryScan :=
  (List.range (min samples histSize)).foldl (fun scan widx => scan.put widx runtime) scan

def RavgUpdate.updateHistory (runtime samples : Nat) : Ravg :=
  if runtime = 0 ∨ call.idle = true ∨ rv.exitingTask = true ∨ samples = 0 then rv
  else
    let histSize := call.settings.schedRavgHistSize
    let scan := (shiftHistory histSize samples rv.sumHistory).pushSamples histSize samples runtime
    let avg := scan.sum / histSize
    let demand := match call.settings.schedWindowStatsPolicy with
      | .recent => runtime
      | .max => scan.max
      | .avg => avg
      | .maxRecentAvg => max avg runtime
    { rv with sumHistory := scan.hist, sum := 0, demand := demand }

def RavgUpdate.addToTaskDemand (delta : Nat) : Ravg :=
  let sum := storeU32 (rv.sum + call.settings.scaleExecTime delta)
  { rv with sum := if call.window < sum then call.window else sum }

def RavgUpdate.updateTaskDemand : Ravg :=
  let newWindow := rv.markStart < rq.windowStart
  if call.accountBusyForTaskDemand rv = false then
    if newWindow then call.updateHistory rv rv.sum 1 else rv
  else if ¬ newWindow then call.addToTaskDemand rv (call.wallclock - rv.markStart)
  else
    let nrFull := storeInt ((rq.windowStart - rv.markStart) / call.window)
    -- the first window boundary after mark_start
    let firstStart : Int := rq.windowStart - nrFull * call.window
    let begun := call.addToTaskDemand rv ((firstStart - rv.markStart) % 2 ^ 64).toNat
    let closed := call.updateHistory begun begun.sum 1
    let full :=
      if nrFull ≠ 0 then
        call.updateHistory closed (storeU32 (call.settings.scaleExecTime call.window)) nrFull.toNat
      else closed
    call.addToTaskDemand full (call.wallclock - rq.windowStart)

/-! ## Busy time of a CPU -/

def RavgUpdate.accountBusyForCpuTime : Bool :=
  if call.idle then
    if call.event = .pickNextTask then false else call.irqtime != 0 || call.settings.waitingOnIo
  else
    match call.event with
    | .taskWake => false
    | .putPrevTask | .irqUpdate | .taskUpdate => true
    | .taskMigrate | .pickNextTask => call.settings.schedFreqAccountWaitTime

def RavgUpdate.heavyTaskWakeup (ws : Nat) : Bool :=
  if call.settings.schedHeavyTask = 0 ∨ call.event ≠ .taskWake ∨ rv.demand < call.settings.schedHeavyTask ∨
      rv.exitingTask = true then
    false
  else if ws < rv.markStart then false
  else call.window < ws - rv.markStart

/-- The per-task rollover at the start of `update_cpu_busy_time`. -/
def Ravg.rollOver (nrFull : Int) : Ravg :=
  { rv with prevWindow := if nrFull = 0 then rv.currWindow else 0, currWindow := 0 }

/-- The whole time since `mark_start` is busy, not only the time in interrupts. -/
def RavgUpdate.notIrqtime : Bool :=
  call.irqtime == 0 || !call.idle || call.settings.waitingOnIo

def RavgUpdate.accountSameWindow : Ravg × RunQueue T :=
  let delta := call.settings.scaleExecTime (if call.notIrqtime then call.wallclock - rv.markStart else call.irqtime)
  (if call.idle || rv.exitingTask then rv else { rv with currWindow := storeU32 (rv.currWindow + delta) },
    { rq with currRunnableSum := rq.currRunnableSum + delta })

def RavgUpdate.accountOtherTask (nrFull : Int) (rv : Ravg) (rq : RunQueue T) : Ravg × RunQueue T :=
  let pre := call.settings.scaleExecTime
    (if nrFull = 0 then rq.windowStart - rv.markStart else call.window)
  let inside := call.settings.scaleExecTime (call.wallclock - rq.windowStart)
  (if rv.exitingTask then rv
    else { rv with
      prevWindow := if nrFull = 0 then storeU32 (rv.prevWindow + pre) else storeU32 pre
      currWindow := storeU32 inside }, { rq with
      prevRunnableSum := rq.prevRunnableSum + pre
      currRunnableSum := rq.currRunnableSum + inside })

def RavgUpdate.accountCurrTask (nrFull : Int) (rv : Ravg) (rq : RunQueue T) : Ravg × RunQueue T :=
  let pre := call.settings.scaleExecTime
    (if nrFull = 0 then rq.windowStart - rv.markStart else call.window)
  let inside := call.settings.scaleExecTime (call.wallclock - rq.windowStart)
  (if call.idle || rv.exitingTask then rv
    else { rv with
      prevWindow := if nrFull = 0 then storeU32 (rv.prevWindow + pre) else storeU32 pre
      currWindow := storeU32 inside }, { rq with
      prevRunnableSum := if nrFull = 0 then pre + rq.currRunnableSum else pre
      currRunnableSum := inside })

/-- Interrupts while the CPU is idle; the time of each call started `irqtime` ago. -/
def RavgUpdate.accountIrqtime : RunQueue T :=
  let markStart := (((call.wallclock : Int) - call.irqtime) % 2 ^ 64).toNat
  if rq.windowStart < markStart then
    { rq with
      prevRunnableSum := rq.currRunnableSum
      currRunnableSum := call.settings.scaleExecTime call.irqtime }
  else
    let delta := call.settings.scaleExecTime (min (rq.windowStart - markStart) call.window)
    { rq with
      prevRunnableSum := rq.currRunnableSum + delta
      currRunnableSum := call.settings.scaleExecTime (call.wallclock - rq.windowStart) }

def RavgUpdate.updateCpuBusyTime (old : Ravg) (rq : RunQueue T) : Ravg × RunQueue T :=
  let newWindow : Bool := old.markStart < rq.windowStart
  let nrFull := if newWindow then storeInt ((rq.windowStart - old.markStart) / call.window) else 0
  let rv := if newWindow && !call.idle && !old.exitingTask then old.rollOver nrFull else old
  if call.accountBusyForCpuTime = false then
    if newWindow = false then (rv, rq)
    else if call.isCurrTask then
      (rv, { rq with
        prevRunnableSum := if nrFull = 0 then rq.currRunnableSum else 0
        currRunnableSum := 0 })
    else if call.heavyTaskWakeup rv rq.windowStart then
      ({ rv with prevWindow := rv.demand }, { rq with prevRunnableSum := rq.prevRunnableSum + rv.demand })
    else (rv, rq)
  else if newWindow = false then call.accountSameWindow rv rq
  else if call.isCurrTask = false then call.accountOtherTask nrFull rv rq
  else if call.notIrqtime then call.accountCurrTask nrFull rv rq
  else (rv, call.accountIrqtime rq)

/-- `update_task_ravg` once the statistics are known to be on. -/
def RavgUpdate.updateTaskRavg : Ravg × RunQueue T :=
  let rq := call.updateWindowStart rq
  let updated :=
    if rv.markStart = 0 then (rv, rq) else call.updateCpuBusyTime (call.updateTaskDemand rv rq) rq
  ({ updated.1 with markStart := call.wallclock }, updated.2)

end Accounting

/-! ## The scheduler -/

/-- Where `reset_all_window_stats` is: not called, between `disable_window_stats` and
    `reset_all_task_stats`, and between that and `enable_window_stats`. -/
inductive StatsPhase where
  | enabled
  | disabled
  | cleared
deriving DecidableEq

/-- `on_rq` is set in `queued` only, `state` is `TASK_WAKING` in `waking` only. -/
inductive RunState where
  /-- Forked and not yet started. -/
  | new
  | sleeping
  | waking
  | queued
deriving DecidableEq

structure SchedState (C T : Type) where
  /-- `sched_clock()` -/
  clock : Nat
  schedRavgWindow : Nat
  phase : StatsPhase
  rq : C → RunQueue T
  ravg : T → Ravg
  taskCpu : T → C
  runState : T → RunState
  /-- Whether `do_each_thread` visits the task. -/
  listed : T → Bool

def resetTaskStats (rv : Ravg) : Ravg where
  markStart := 0
  sum := 0
  demand := 0
  sumHistory := update (fun _ => 0) 0 (if rv.exitingTask then exitingTaskMarker else 0)
  currWindow := 0
  prevWindow := 0

inductive SchedEvent (C T : Type) where
  /-- `__schedule`; `sleeps` says that `prev` is deactivated. -/
  | schedule (cpu : C) (next : T) (sleeps : Bool)
  /-- `scheduler_tick`, `sched_get_busy` and, before it stores the new frequency, `cpufreq_notifier_trans`. -/
  | taskUpdate (cpu : C)
  | schedAccountIrqtime (cpu : C) (irqtime : Nat)
  /-- The locked section of `try_to_wake_up`, up to `TASK_WAKING`. -/
  | tryToWakeUp (tk : T)
  | ttwuActivate (tk : T)
  | setTaskCpu (tk : T) (dst : C)
  /-- `copy_process` makes the task visible. -/
  | listTask (tk : T)
  | wakeUpNewTask (tk : T) (dst : C)
  | schedExit (cpu : C)
  | unlistTask (tk : T)
  | disableWindowStats
  | resetAllTaskStats
  /-- The rest of `reset_all_window_stats`, with the window in ns and 0 for an argument that is not given. -/
  | enableWindowStats (ws window : Nat)

/-- An event, the time it happens at and what it reads of the frequencies and tunables. -/
structure SchedLabel (C T : Type) where
  event : SchedEvent C T
  wallclock : Nat
  settings : C → Settings

namespace SchedState

variable {C T : Type} [DecidableEq C] [DecidableEq T] (isIdle : T → Bool) (s : SchedState C T)
  (conf : C → Settings) (tk : T) (cpu : C) (dst : C)

def ravgUpdate (ev : TaskEvent) (irqtime : Nat) : RavgUpdate where
  settings := conf cpu
  window := s.schedRavgWindow
  idle := isIdle tk
  isCurrTask := tk = (s.rq cpu).curr
  event := ev
  wallclock := s.clock
  irqtime := irqtime

def updateTaskRavg (ev : TaskEvent) (irqtime : Nat) : SchedState C T :=
  if (s.rq cpu).windowStart = 0 ∨ s.phase ≠ .enabled then s
  else
    let updated := (s.ravgUpdate isIdle conf tk cpu ev irqtime).updateTaskRavg (s.ravg tk)
      (s.rq cpu)
    { s with
      ravg := update s.ravg tk updated.1
      rq := update s.rq cpu updated.2 }

@[simp] def updateCurr (ev : TaskEvent) (irqtime : Nat) : SchedState C T :=
  s.updateTaskRavg isIdle conf (s.rq cpu).curr cpu ev irqtime

/-- `fixup_busy_time` returns before it changes anything. -/
def fixupReturns : Bool :=
  (s.ravg tk).exitingTask || (s.runState tk != .queued && s.runState tk != .waking) || s.phase != .enabled

/-- The three updates of `fixup_busy_time`, all with one `wallclock`. -/
def fixupUpdates : SchedState C T :=
  let srcUpdated := s.updateCurr isIdle conf (s.taskCpu tk) .taskUpdate 0
  let destUpdated := srcUpdated.updateCurr isIdle conf dst .taskUpdate 0
  destUpdated.updateTaskRavg isIdle conf tk (s.taskCpu tk) .taskMigrate 0

/-- What is subtracted from the sums of the source is no more than they hold. -/
def WindowsCovered : Prop :=
  (s.ravg tk).currWindow ≤ (s.rq (s.taskCpu tk)).currRunnableSum ∧
    (s.ravg tk).prevWindow ≤ (s.rq (s.taskCpu tk)).prevRunnableSum

/-- The two `BUG_ON`s, on the differences as signed numbers. -/
def fixupBug : Bool :=
  let src := s.rq (s.taskCpu tk)
  (src.prevRunnableSum : Int) - (s.ravg tk).prevWindow < 0 || (src.currRunnableSum : Int) - (s.ravg tk).currWindow < 0

def moveWindows : SchedState C T :=
  let rv := s.ravg tk
  let src := s.rq (s.taskCpu tk)
  let dest := s.rq dst
  { s with
    rq := update
      (update s.rq (s.taskCpu tk) { src with
        currRunnableSum := src.currRunnableSum - rv.currWindow
        prevRunnableSum := src.prevRunnableSum - rv.prevWindow })
      dst { dest with
        currRunnableSum := dest.currRunnableSum + rv.currWindow
        prevRunnableSum := dest.prevRunnableSum + rv.prevWindow } }

def fixupBusyTime : SchedState C T :=
  if s.fixupReturns tk then s
  else (s.fixupUpdates isIdle conf tk dst).moveWindows tk dst

def setTaskCpu : SchedState C T :=
  let fixed := if s.taskCpu tk = dst then s else s.fixupBusyTime isIdle conf tk dst
  { fixed with taskCpu := update fixed.taskCpu tk dst }

@[simps] def setRavg (rv : Ravg) : SchedState C T :=
  { s with ravg := update s.ravg tk rv }

@[simps] def setRunState (runState : RunState) : SchedState C T :=
  { s with runState := update s.runState tk runState }

@[simps] def setCurr (next : T) : SchedState C T :=
  { s with rq := update s.rq cpu { s.rq cpu with curr := next } }

def markTaskStarting : SchedState C T :=
  if (s.rq (s.taskCpu tk)).windowStart = 0 ∨ s.phase ≠ .enabled then
    s.setRavg tk (resetTaskStats (s.ravg tk))
  else s.setRavg tk { s.ravg tk with markStart := s.clock }

/-- The accounting of a context switch; `curr` is still `prev` when `next` is accounted. -/
def switchTo (next : T) : SchedState C T :=
  let put := s.updateCurr isIdle conf cpu .putPrevTask 0
  (put.updateTaskRavg isIdle conf next cpu .pickNextTask 0).setCurr cpu next

def schedExit : SchedState C T :=
  let tk := (s.rq cpu).curr
  let updated := s.updateCurr isIdle conf cpu .taskUpdate 0
  let reset := resetTaskStats (updated.ravg tk)
  updated.setRavg tk { reset with
    markStart := s.clock
    sumHistory := update reset.sumHistory 0 exitingTaskMarker }

def enableWindowStats (ws window : Nat) : SchedState C T :=
  { s with
    schedRavgWindow := if window ≠ 0 then window else s.schedRavgWindow
    phase := .enabled
    rq := fun cpu => { s.rq cpu with
      windowStart := if ws ≠ 0 then ws else (s.rq cpu).windowStart
      currRunnableSum := 0
      prevRunnableSum := 0 } }

/-- A task that `pick_next_task` can return. -/
def runnable (tk : T) : Bool :=
  s.taskCpu tk = cpu && (isIdle tk || s.runState tk == .queued)

def take : SchedEvent C T → Option (SchedState C T)
  | .schedule cpu next sleeps =>
    let prev := (s.rq cpu).curr
    if s.runnable isIdle cpu next ∧ (sleeps = true → next ≠ prev ∧ isIdle prev = false) then
      let switched := s.switchTo isIdle conf cpu next
      some (if sleeps then switched.setRunState prev .sleeping else switched)
    else none
  | .taskUpdate cpu => some (s.updateCurr isIdle conf cpu .taskUpdate 0)
  | .schedAccountIrqtime cpu irqtime =>
    if isIdle (s.rq cpu).curr then some (s.updateCurr isIdle conf cpu .irqUpdate irqtime)
    else some s
  | .tryToWakeUp tk =>
    if s.runState tk = .sleeping ∧ isIdle tk = false then
      let cpu := s.taskCpu tk
      let updated := s.updateCurr isIdle conf cpu .taskUpdate 0
      some ((updated.updateTaskRavg isIdle conf tk cpu .taskWake 0).setRunState tk .waking)
    else none
  | .ttwuActivate tk =>
    if s.runState tk = .waking then some (s.setRunState tk .queued) else none
  | .setTaskCpu tk dst =>
    -- a task that runs is not moved
    if (s.runState tk = .queued ∨ s.runState tk = .waking) ∧ isIdle tk = false ∧ tk ≠ (s.rq (s.taskCpu tk)).curr then
      some (s.setTaskCpu isIdle conf tk dst)
    else none
  | .listTask tk =>
    if s.runState tk = .new then some { s with listed := update s.listed tk true } else none
  | .wakeUpNewTask tk dst =>
    if s.runState tk = .new ∧ s.listed tk = true ∧ isIdle tk = false then
      some (((s.setTaskCpu isIdle conf tk dst).markTaskStarting tk).setRunState tk .queued)
    else none
  | .schedExit cpu =>
    if isIdle (s.rq cpu).curr then none else some (s.schedExit isIdle conf cpu)
  | .unlistTask tk =>
    -- `sched_exit` is called before the task leaves the list
    if (s.ravg tk).exitingTask then some { s with listed := update s.listed tk false }
    else none
  | .disableWindowStats => if s.phase = .enabled then some { s with phase := .disabled } else none
  | .resetAllTaskStats =>
    if s.phase = .disabled then
      some { s with
        phase := .cleared
        ravg := fun tk => if s.listed tk then resetTaskStats (s.ravg tk) else s.ravg tk }
    else none
  | .enableWindowStats ws window =>
    -- `sched_set_window` puts window_start in the past
    if s.phase = .cleared ∧ ws ≤ s.clock ∧ (window ≠ 0 → minSchedRavgWindow ≤ window ∧ window < 2 ^ 32) then
      some (s.enableWindowStats ws window)
    else none

def step (lb : SchedLabel C T) : Option (SchedState C T) :=
  if s.clock ≤ lb.wallclock ∧ lb.wallclock < 2 ^ 64 then
    { s with clock := lb.wallclock }.take isIdle lb.settings lb.event
  else none

end SchedState

end Aosp.Kernel
