import Aosp.Kernel.BusyTimeFixup

/-! # Runs of the scheduler

Every event keeps `BusyInv`, provided the counts of windows fit the `int`s they are
stored in, so in every such run the sums of a CPU hold the windows of the tasks that
leave it.  A task that sleeps for exactly 2^32 windows shows that the condition is
needed: its stale window is taken for the one just before.
-/

namespace Aosp.Kernel

open Aosp.Lib SchedState

theorem resetTaskStats_exitingTask (rv : Ravg) : (resetTaskStats rv).exitingTask = rv.exitingTask := by
  cases exits : rv.exitingTask with
  | true =>
    simp only [resetTaskStats, exits]
    simp [Ravg.exitingTask]
  | false =>
    simp only [resetTaskStats, exits]
    simp [Ravg.exitingTask, exitingTaskMarker]

theorem resetTaskStats_idle (rv : Ravg) : (resetTaskStats rv).Idle := ⟨rfl, rfl⟩

theorem resetTaskStats_live {rv : Ravg} (lives : rv.exitingTask = false) : (resetTaskStats rv).Live :=
  ⟨(resetTaskStats_exitingTask rv).trans lives, by show 0 < exitingTaskMarker; decide⟩

namespace SchedState

/-! ## Events -/

section Events

variable {C T : Type} [DecidableEq C] {isIdle : T → Bool} {s : SchedState C T}
  {conf : C → Settings} {tk : T} {cpu dst : C}

section

variable (inv : BusyInv isIdle s)
include inv

theorem BusyInv.notCurr (busy : isIdle tk = false)
    (notQueued : s.runState tk ≠ .queued) (cpu : C) : (s.rq cpu).curr ≠ tk := by
  intro eq
  have runs := inv.runs cpu
  rw [eq] at runs
  cases runs with
  | inl idle => simp [busy] at idle
  | inr hq => exact notQueued hq

theorem BusyInv.advance {wallclock : Nat} (late : s.clock ≤ wallclock)
    (cap : wallclock < 2 ^ 64) : BusyInv isIdle { s with clock := wallclock } :=
  { inv with
    clock := cap
    past := fun cpu => (inv.past cpu).trans late
    marks := fun tk => (inv.marks tk).trans late }

theorem BusyInv.setListed {li : T → Bool}
    (kept : ∀ tk, s.counts isIdle tk = true → s.listed tk = true → li tk = true) :
    BusyInv isIdle { s with listed := li } :=
  { inv with
    listed := fun tk tally => by
      cases inv.listed tk tally with
      | inl inList => exact .inl (kept tk tally inList)
      | inr new => exact .inr new }

theorem BusyInv.resetAllTaskStats : BusyInv isIdle { s with
      phase := .cleared
      ravg := fun tk => if s.listed tk then resetTaskStats (s.ravg tk) else s.ravg tk } := by
  let reset := fun tk => if s.listed tk then resetTaskStats (s.ravg tk) else s.ravg tk
  have hc : ∀ tk, (!isIdle tk && !(reset tk).exitingTask) = s.counts isIdle tk := by
    intro tk
    by_cases inList : s.listed tk = true
    · simp [reset, inList, resetTaskStats_exitingTask, counts]
    · simp [reset, inList, counts]
  -- what is not listed is new, and has no busy time either
  have idle : ∀ tk, s.counts isIdle tk = true → (reset tk).Idle := by
    intro tk tally
    by_cases inList : s.listed tk = true
    · simpa [reset, inList] using resetTaskStats_idle _
    · have isNew := (inv.listed tk tally).resolve_left inList
      simpa [reset, inList] using inv.new tk tally isNew
  exact { inv with
    marks := fun tk => by
      by_cases inList : s.listed tk = true
      · simp [inList, resetTaskStats]
      · simpa [inList] using inv.marks tk
    new := fun tk tally _ => idle tk (hc tk ▸ tally)
    listed := fun tk tally => inv.listed tk (hc tk ▸ tally)
    live := fun tk tally => by
      have wasCounted : s.counts isIdle tk = true := hc tk ▸ tally
      by_cases inList : s.listed tk = true
      · simpa [inList] using resetTaskStats_live (counts_eq_true.mp wasCounted).2
      · simpa [inList] using inv.live tk wasCounted
    account := fun he => by cases he
    cleared := fun _ tk tally => idle tk (hc tk ▸ tally) }

theorem BusyInv.enableWindowStats (task : s.phase = .cleared) {ws win : Nat} (past : ws ≤ s.clock) :
    BusyInv isIdle (s.enableWindowStats ws win) :=
  { inv with
    window := by
      by_cases none : win = 0
      · simpa [SchedState.enableWindowStats, none] using inv.window
      · simpa [SchedState.enableWindowStats, none] using Nat.pos_of_ne_zero none
    started := fun cpu => by
      by_cases none : ws = 0
      · simpa [SchedState.enableWindowStats, none] using inv.started cpu
      · simpa [SchedState.enableWindowStats, none] using Nat.pos_of_ne_zero none
    past := fun cpu => by
      by_cases none : ws = 0
      · simpa [SchedState.enableWindowStats, none] using inv.past cpu
      · simpa [SchedState.enableWindowStats, none] using past
    account := fun _ cpu => by
      refine cpuAccount_of_idle fun tk _ hf => ?_
      obtain ⟨-, tally, rfl⟩ := share_eq_some hf
      exact inv.cleared task tk tally
    cleared := nofun }

end

variable [DecidableEq T] {next : T}

theorem BusyInv.updateBoth (inv : BusyInv isIdle s) (on : s.taskCpu tk = cpu)
    (start : isIdle tk = true ∨ s.runState tk ≠ .new)
    (fitsCurr : s.phase = .enabled → s.updateFits conf (s.rq cpu).curr cpu = true)
    (fitsTask : s.phase = .enabled → s.updateFits conf tk cpu = true) (first snd : TaskEvent) :
    let both := (s.updateCurr isIdle conf cpu first 0).updateTaskRavg isIdle conf tk cpu snd 0
    BusyInv isIdle both ∧ (s.phase = .enabled → (both.ravg tk).markStart = both.mark cpu) := by
  have one := inv.updateCurr fitsCurr first 0
  have cur := fun he : s.phase = .enabled =>
    inv.current_updateTaskRavg he (fitsCurr he) (.inl rfl) first 0
  have fits := fun he : s.phase = .enabled =>
    inv.updateFits_updateCurr he (fitsCurr he) (fitsTask he) first 0
  have ph : (s.updateCurr isIdle conf cpu first 0).phase = s.phase := by
    simp
  constructor
  · refine one.updateTaskRavg ?_ ?_ (fun he => .inr (cur (ph ▸ he)))
      (fun he => fits (ph ▸ he)) snd 0
    · simpa using on
    · simpa using start
  · intro he
    have both := one.current_updateTaskRavg (ph ▸ he) (fits he) (.inr (cur he)) snd 0
    rw [both.mark, updateTaskRavg_frame.2.1]
    exact one.marked_updateTaskRavg (ph ▸ he) (fits he) snd 0

theorem BusyInv.switchTo (inv : BusyInv isIdle s) (on : s.taskCpu next = cpu)
    (runs : isIdle next = true ∨ s.runState next = .queued)
    (fits : s.phase = .enabled → s.updateFits conf (s.rq cpu).curr cpu = true)
    (fitsNext : s.phase = .enabled → s.updateFits conf next cpu = true) :
    BusyInv isIdle (s.switchTo isIdle conf cpu next) := by
  have start : isIdle next = true ∨ s.runState next ≠ .new := by
    cases runs with
    | inl idle => exact .inl idle
    | inr hq => exact .inr (by simp [hq])
  obtain ⟨both, mark⟩ := inv.updateBoth on start fits fitsNext .putPrevTask .pickNextTask
  refine both.setCurr ?_ ?_ ?_
  · simpa using on
  · simpa using runs
  · simpa using mark

theorem BusyInv.tryToWakeUp (inv : BusyInv isIdle s) (sleeps : s.runState tk = .sleeping)
    (busy : isIdle tk = false) (fits : s.phase = .enabled →
      s.updateFits conf (s.rq (s.taskCpu tk)).curr (s.taskCpu tk) = true)
    (fitsTask : s.phase = .enabled → s.updateFits conf tk (s.taskCpu tk) = true) :
    BusyInv isIdle (((s.updateCurr isIdle conf (s.taskCpu tk) .taskUpdate 0).updateTaskRavg
      isIdle conf tk (s.taskCpu tk) .taskWake 0).setRunState tk .waking) := by
  have start : s.runState tk ≠ .new := by simp [sleeps]
  have both := (inv.updateBoth rfl (.inr start) fits fitsTask .taskUpdate .taskWake).1
  refine both.setRunState (by simp) (.inr ?_) (fun cpu curr => ?_)
  · simpa using start
  · refine absurd ?_ (inv.notCurr busy (by simp [sleeps]) cpu)
    simpa using curr

omit [DecidableEq C] [DecidableEq T] in
theorem fixupReturns_eq_false : s.fixupReturns tk = false ↔
    (s.ravg tk).exitingTask = false ∧ (s.runState tk = .queued ∨ s.runState tk = .waking) ∧ s.phase = .enabled := by
  cases isState : s.runState tk <;> simp [fixupReturns, isState]

section

variable (inv : BusyInv isIdle s)
include inv

/-- When `fixup_busy_time` does not return, it gets to the subtraction. -/
theorem BusyInv.fixup_of_returns (busy : isIdle tk = false)
    (other : ∀ cpu, (s.rq cpu).curr ≠ tk) (ne : s.taskCpu tk ≠ dst) (returns : s.fixupReturns tk = false)
    (fits : ∀ ent ∈ s.accounted (.setTaskCpu tk dst), s.updateFits conf ent.1 ent.2 = true) :
    Fixup isIdle (s.fixupUpdates isIdle conf tk dst) tk dst := by
  obtain ⟨lives, onRq, he⟩ := fixupReturns_eq_false.mp returns
  simp only [accounted, List.forall_mem_cons] at fits
  refine inv.fixup he (counts_eq_true.mpr ⟨busy, lives⟩) ne other ?_ fits.1 fits.2.1 fits.2.2.1
  cases onRq with
  | inl hq => simp [hq]
  | inr waking => simp [waking]

theorem BusyInv.setTaskCpu (busy : isIdle tk = false)
    (other : ∀ cpu, (s.rq cpu).curr ≠ tk) (awake : s.runState tk ≠ .sleeping) (fits : s.fixupReturns tk = false →
      ∀ ent ∈ s.accounted (.setTaskCpu tk dst), s.updateFits conf ent.1 ent.2 = true) :
    BusyInv isIdle (s.setTaskCpu isIdle conf tk dst) := by
  unfold SchedState.setTaskCpu
  by_cases eq : s.taskCpu tk = dst
  · have kept : Function.update s.taskCpu tk dst = s.taskCpu := by
      rw [← eq, Function.update_eq_self]
    simpa [eq, kept] using inv
  · simp only [eq, fixupBusyTime]
    cases returns : s.fixupReturns tk with
    | true =>
      refine inv.setIdleCpu other (fun he tally => ?_) dst
      -- it returns for a task that has not started
      have lives := (counts_eq_true.mp tally).2
      have isNew : s.runState tk = .new := by
        cases isState : s.runState tk with
        | new => rfl
        | sleeping => exact absurd isState awake
        | waking | queued => simp [fixupReturns, lives, he, isState] at returns
      exact inv.new tk tally isNew
    | false =>
      exact (inv.fixup_of_returns busy other eq returns (fits returns)).busyInv

theorem BusyInv.markTaskStarting (new : s.runState tk = .new)
    (other : ∀ cpu, (s.rq cpu).curr ≠ tk) : BusyInv isIdle (s.markTaskStarting tk) := by
  unfold SchedState.markTaskStarting
  split
  next =>
    refine inv.setRavg (Nat.zero_le _) (fun busy lives => ?_) (fun _ cpu curr => absurd curr (other cpu))
    rw [resetTaskStats_exitingTask] at lives
    exact ⟨counts_eq_true.mpr ⟨busy, lives⟩, resetTaskStats_live lives, resetTaskStats_idle _⟩
  next =>
    refine inv.setRavg (Nat.le_refl _) (fun busy lives => ?_) (fun _ cpu curr => absurd curr (other cpu))
    have hc : s.counts isIdle tk = true := counts_eq_true.mpr ⟨busy, lives⟩
    exact ⟨hc, (inv.live tk hc).of_history rfl rfl, inv.new tk hc new⟩

theorem BusyInv.schedExit (fits : s.phase = .enabled → s.updateFits conf (s.rq cpu).curr cpu = true) :
    BusyInv isIdle (s.schedExit isIdle conf cpu) := by
  refine (inv.updateCurr fits .taskUpdate 0).setRavg ?_ (fun _ lives => ?_) (fun he _ _ => ?_)
  · simp
  · simp [Ravg.exitingTask] at lives
  · have wasEnabled : s.phase = .enabled := by simpa using he
    exact (inv.marked_updateTaskRavg wasEnabled (fits wasEnabled) .taskUpdate 0).symm

/-- The new task owns nothing, so that `fixup_busy_time` returns for it does no harm. -/
theorem BusyInv.wakeUpNewTask (new : s.runState tk = .new) (inList : s.listed tk = true) (busy : isIdle tk = false) :
    BusyInv isIdle (((s.setTaskCpu isIdle conf tk dst).markTaskStarting tk).setRunState tk .queued) := by
  have other := inv.notCurr busy (show s.runState tk ≠ .queued by simp [new])
  have returns : s.fixupReturns tk = true := by simp [fixupReturns, new]
  have put : BusyInv isIdle (s.setTaskCpu isIdle conf tk dst) :=
    inv.setTaskCpu busy other (by simp [new]) (fun runs => by simp [returns] at runs)
  have eq : (if s.taskCpu tk = dst then s
      else s.fixupBusyTime isIdle conf tk dst) = s := by
    simp [fixupBusyTime, returns]
  unfold SchedState.setTaskCpu at put ⊢
  rw [eq] at put ⊢
  refine (put.markTaskStarting new other).setRunState (by simp) (.inl ?_) (fun _ _ => .inr rfl)
  unfold SchedState.markTaskStarting
  split <;> exact inList

end

theorem switchTo_curr (cpu o : C) (next : T) :
    ((s.switchTo isIdle conf cpu next).rq o).curr = if o = cpu then next else (s.rq o).curr := by
  by_cases eq : o = cpu
  · simp [switchTo, eq]
  · simp [switchTo, eq]

theorem BusyInv.sleep (inv : BusyInv isIdle s)
    (switched : BusyInv isIdle (s.switchTo isIdle conf cpu next)) (ne : next ≠ (s.rq cpu).curr)
    (busy : isIdle (s.rq cpu).curr = false) :
    BusyInv isIdle ((s.switchTo isIdle conf cpu next).setRunState (s.rq cpu).curr .sleeping) := by
  have hq : s.runState (s.rq cpu).curr = .queued := (inv.runs cpu).resolve_left (by simp [busy])
  refine switched.setRunState (by simp) (.inr ?_) (fun o curr => ?_)
  · simp [SchedState.switchTo, hq]
  · rw [switchTo_curr] at curr
    split at curr
    next => exact absurd curr ne
    next far => exact absurd curr (inv.curr_ne far)

omit [DecidableEq T] in
theorem BusyInv.notRunning (inv : BusyInv isIdle s) (task : tk ≠ (s.rq (s.taskCpu tk)).curr)
    (cpu : C) : (s.rq cpu).curr ≠ tk := by
  intro curr
  apply task
  rw [← curr, inv.curr]

theorem BusyInv.take {ev : SchedEvent C T} {next : SchedState C T} (inv : BusyInv isIdle s)
    (fits : s.phase = .enabled → ∀ ent ∈ s.accounted ev, s.updateFits conf ent.1 ent.2 = true)
    (ht : s.take isIdle conf ev = some next) : BusyInv isIdle next := by
  cases ev <;>
    simp only [SchedState.take, Option.ite_none_right_eq_some, Option.ite_none_left_eq_some, Option.some.injEq] at ht
  case schedule cpu picked sleeps =>
    obtain ⟨⟨ready, sleeping⟩, rfl⟩ := ht
    simp only [runnable, Bool.and_eq_true, Bool.or_eq_true, decide_eq_true_eq, beq_iff_eq] at ready
    simp only [accounted, List.forall_mem_cons] at fits
    have switched := inv.switchTo ready.1 ready.2 (fun he => (fits he).1)
      (fun he => (fits he).2.1)
    cases sleeps with
    | false => exact switched
    | true =>
      obtain ⟨ne, busy⟩ := sleeping rfl
      exact inv.sleep switched ne busy
  case taskUpdate cpu =>
    simp only [accounted, List.forall_mem_singleton] at fits
    exact ht ▸ inv.updateCurr fits .taskUpdate 0
  case schedAccountIrqtime cpu irqtime =>
    simp only [accounted, List.forall_mem_singleton] at fits
    split at ht <;> cases ht
    next => exact inv.updateCurr fits .irqUpdate irqtime
    next => exact inv
  case tryToWakeUp tk =>
    obtain ⟨⟨sleeps, busy⟩, rfl⟩ := ht
    simp only [accounted, List.forall_mem_cons] at fits
    exact inv.tryToWakeUp sleeps busy (fun he => (fits he).1) (fun he => (fits he).2.1)
  case ttwuActivate tk =>
    obtain ⟨waking, rfl⟩ := ht
    exact inv.setRunState (by simp) (.inr (by simp [waking])) (fun _ _ => .inr rfl)
  case setTaskCpu tk dst =>
    obtain ⟨⟨awake, busy, notRunning⟩, rfl⟩ := ht
    refine inv.setTaskCpu busy (inv.notRunning notRunning) ?_
      (fun returns => fits (fixupReturns_eq_false.mp returns).2.2)
    cases awake with
    | inl hq => simp [hq]
    | inr waking => simp [waking]
  case listTask tk =>
    obtain ⟨-, rfl⟩ := ht
    exact inv.setListed fun o _ inList => by simp [Function.update_apply, inList]
  case wakeUpNewTask tk dst =>
    obtain ⟨⟨new, inList, busy⟩, rfl⟩ := ht
    exact inv.wakeUpNewTask new inList busy
  case schedExit cpu =>
    obtain ⟨-, rfl⟩ := ht
    simp only [accounted, List.forall_mem_singleton] at fits
    exact inv.schedExit fits
  case unlistTask tk =>
    obtain ⟨exits, rfl⟩ := ht
    refine inv.setListed fun o tally inList => ?_
    -- only tasks without busy time of their own leave the list
    have ne : o ≠ tk := by
      rintro rfl
      simp [counts, exits] at tally
    rwa [Function.update_of_ne ne]
  case disableWindowStats =>
    obtain ⟨-, rfl⟩ := ht
    exact { inv with account := by rintro ⟨⟩, cleared := by rintro ⟨⟩ }
  case resetAllTaskStats =>
    obtain ⟨-, rfl⟩ := ht
    exact inv.resetAllTaskStats
  case enableWindowStats windowStart window =>
    obtain ⟨⟨current, past, -⟩, rfl⟩ := ht
    exact inv.enableWindowStats current past

end Events

/-! ## Runs -/

section Runs

variable {C T : Type} [DecidableEq C] [DecidableEq T]

/-- The steps of the scheduler, and those whose counts of windows fit. -/
def SchedStep (isIdle : T → Bool) (s : SchedState C T) (lb : SchedLabel C T)
    (next : SchedState C T) : Prop :=
  s.step isIdle lb = some next

def FittingStep (isIdle : T → Bool) (s : SchedState C T) (lb : SchedLabel C T)
    (next : SchedState C T) : Prop :=
  s.labelFits lb = true ∧ s.step isIdle lb = some next

/-- If the label is a migration that `fixup_busy_time` acts on, then when it subtracts the windows of the task, the
    sums of the source hold them, and neither `BUG_ON` is hit. -/
def MigrationCovered (isIdle : T → Bool) (s : SchedState C T) (lb : SchedLabel C T) : Prop :=
  ∀ tk dst, lb.event = .setTaskCpu tk dst → s.taskCpu tk ≠ dst → s.fixupReturns tk = false →
    let subtracts := { s with clock := lb.wallclock }.fixupUpdates isIdle lb.settings tk dst
    subtracts.WindowsCovered tk ∧ subtracts.fixupBug tk = false

variable {idle : T → Bool} {first s next : SchedState C T} {lab : SchedLabel C T}

omit [DecidableEq C] [DecidableEq T] in
theorem updateFits_of_labelFits (fits : s.labelFits lab = true) (he : s.phase = .enabled) :
    ∀ ent ∈ { s with clock := lab.wallclock }.accounted lab.event,
      { s with clock := lab.wallclock }.updateFits lab.settings ent.1 ent.2 = true := by
  simpa only [labelFits, he, bne_self_eq_false, Bool.false_or, List.all_eq_true] using fits

theorem BusyInv.timed (inv : BusyInv idle s) (ht : s.step idle lab = some next) :
    BusyInv idle { s with clock := lab.wallclock } ∧
      { s with clock := lab.wallclock }.take idle lab.settings lab.event = some next := by
  unfold step at ht
  split at ht
  next late => exact ⟨inv.advance late.1 late.2, ht⟩
  next => cases ht

theorem run_busyInv (beg : Started idle first) (reach : Reachable (FittingStep idle) first s) : BusyInv idle s := by
  refine reach.invariant beg.busyInv fun s _ _ inv ht => ?_
  obtain ⟨timed, ran⟩ := inv.timed ht.2
  exact timed.take (updateFits_of_labelFits ht.1) ran

omit [DecidableEq C] [DecidableEq T] in
theorem WindowsCovered.noBug {tk : T} (cover : s.WindowsCovered tk) : s.fixupBug tk = false := by
  have currCovered := cover.1
  have prevCovered := cover.2
  simp only [fixupBug, Bool.or_eq_false_iff, decide_eq_false_iff_not]
  omega

/-- In every run whose counts of windows fit, the sums of a CPU hold the windows of every task that leaves it when they
    are subtracted. -/
theorem busy_time_fixup_never_negative (isIdle : T → Bool) (first : SchedState C T)
    (beg : Started isIdle first) (s : SchedState C T)
    (reach : Reachable (FittingStep isIdle) first s) (lb : SchedLabel C T)
    (next : SchedState C T) (taken : FittingStep isIdle s lb next) : MigrationCovered isIdle s lb := by
  intro _ _ isMigration different returns
  obtain ⟨inv, ran⟩ := (run_busyInv beg reach).timed taken.2
  have fits := updateFits_of_labelFits taken.1
  rw [isMigration] at ran fits
  simp only [take, Option.ite_none_right_eq_some] at ran
  obtain ⟨⟨-, notIdle, notRunning⟩, -⟩ := ran
  have fixup := inv.fixup_of_returns notIdle (inv.notRunning notRunning) different returns
    (fits (fixupReturns_eq_false.mp returns).2.2)
  exact ⟨fixup.leave.1, fixup.leave.1.noBug⟩

end Runs

/-! ## A worker on two CPUs

Task 2 works for half a window on the first CPU and goes to sleep; tasks 0 and 1 are the idle tasks. -/

local instance threeTasks : NeZero 3 := ⟨by decide⟩

def twoIdle (tk : Fin 3) : Bool := tk ≠ 2

def fullSpeed (_ : Bool) : Settings where
  curFreq := 1
  maxFreq := 1
  rqMaxPossibleFreq := 1
  efficiency := 1024
  waitingOnIo := false
  maxPossibleFreq := 1
  maxPossibleEfficiency := 1024
  schedHeavyTask := 0
  schedAccountWaitTime := true
  schedFreqAccountWaitTime := false
  schedRavgHistSize := 5
  schedWindowStatsPolicy := .maxRecentAvg

/-- 10 ms after the clock was started. -/
def twoCpus : SchedState Bool (Fin 3) where
  clock := 10000000
  schedRavgWindow := 10000000
  phase := .enabled
  rq cpu := ⟨if cpu then 1 else 2, 10000000, 0, 0⟩
  ravg _ := ⟨10000000, 0, 0, fun _ => 0, 0, 0⟩
  taskCpu task := task = 1
  runState _ := .queued
  listed _ := true

theorem twoCpus_started : Started twoIdle twoCpus where
  phase := rfl
  window := by decide
  clock := by decide
  started := by decide
  past := by decide
  marks := by decide
  curr := by decide
  runs := by decide
  listed _ _ := .inl rfl
  unaccounted _ := ⟨rfl, rfl, rfl⟩

def atTime (wallclock : Nat) (ev : SchedEvent Bool (Fin 3)) : SchedLabel Bool (Fin 3) :=
  ⟨ev, wallclock, fullSpeed⟩

/-- The worker is woken up in the next window and moved to the other CPU. -/
def shortSleep : List (SchedLabel Bool (Fin 3)) :=
  [atTime 15000000 (.schedule false 0 true), atTime 22000000 (.tryToWakeUp 2)]

/-- It is woken up 2^32 windows later.  The CPUs are accounted in between. -/
def longSleep : List (SchedLabel Bool (Fin 3)) :=
  [atTime 15000000 (.schedule false 0 true),
    atTime (2 ^ 30 * 10000000) (.taskUpdate false), atTime (2 ^ 30 * 10000000) (.taskUpdate true),
    atTime (2 * 2 ^ 30 * 10000000) (.taskUpdate false), atTime (2 * 2 ^ 30 * 10000000) (.taskUpdate true),
    atTime (3 * 2 ^ 30 * 10000000) (.taskUpdate false), atTime (3 * 2 ^ 30 * 10000000) (.taskUpdate true),
    atTime ((2 ^ 32 + 2) * 10000000) (.tryToWakeUp 2)]

/-- The worker is about to be moved to the other CPU at the time, and the previous windows of the worker and of its CPU
    are these when `fixup_busy_time` subtracts the one from the other. -/
def Subtracts (s : SchedState Bool (Fin 3)) (wallclock prevWindow prevRunnableSum : Nat) : Prop :=
  let subtracts := { s with clock := wallclock }.fixupUpdates twoIdle fullSpeed 2 true
  s.taskCpu 2 ≠ true ∧ s.fixupReturns 2 = false ∧ (subtracts.ravg 2).prevWindow = prevWindow ∧
    (subtracts.rq (subtracts.taskCpu 2)).prevRunnableSum = prevRunnableSum

instance (s : SchedState Bool (Fin 3)) (wallclock prevWindow prevRunnableSum : Nat) :
    Decidable (s.Subtracts wallclock prevWindow prevRunnableSum) :=
  inferInstanceAs (Decidable (_ ∧ _ ∧ _ ∧ _))

/-- The half window of the worker moves with it. -/
theorem busy_time_fixup_short_sleep :
    ∃ s next, Reachable (FittingStep twoIdle) twoCpus s ∧
      FittingStep twoIdle s (atTime 23000000 (.setTaskCpu 2 true)) next ∧
      s.Subtracts 23000000 5000000 5000000 ∧ MigrationCovered twoIdle s (atTime 23000000 (.setTaskCpu 2 true)) := by
  have ran : (runLabels (fun s lb => s.labelFits lb = true) (step twoIdle) twoCpus
      shortSleep).any (fun s => s.Subtracts 23000000 5000000 5000000 ∧
        s.labelFits (atTime 23000000 (.setTaskCpu 2 true)) = true ∧
        (s.step twoIdle (atTime 23000000 (.setTaskCpu 2 true))).isSome) = true := by
    decide +kernel
  obtain ⟨s, found, facts⟩ := (Option.any_eq_true _ _).mp ran
  obtain ⟨subtracts, fits, taken⟩ := of_decide_eq_true facts
  obtain ⟨next, taken⟩ := Option.isSome_iff_exists.mp taken
  have reach : Reachable _ twoCpus s := ⟨_, run_of_runLabels found⟩
  exact ⟨s, next, reach, ⟨fits, taken⟩, subtracts,
    busy_time_fixup_never_negative twoIdle twoCpus twoCpus_started s reach _ next ⟨fits, taken⟩⟩

/-- After 2^32 windows the worker still has the half window, and its CPU does not. -/
theorem busy_time_fixup_long_sleep :
    Started twoIdle twoCpus ∧ ∃ s next, Reachable (SchedStep twoIdle) twoCpus s ∧
        SchedStep twoIdle s (atTime ((2 ^ 32 + 2) * 10000000) (.setTaskCpu 2 true)) next ∧
        ¬ MigrationCovered twoIdle s (atTime ((2 ^ 32 + 2) * 10000000) (.setTaskCpu 2 true)) := by
  have ran : (runLabels (fun _ _ => True) (step twoIdle) twoCpus longSleep).any
      (fun s => s.Subtracts ((2 ^ 32 + 2) * 10000000) 5000000 0 ∧
        (s.step twoIdle (atTime ((2 ^ 32 + 2) * 10000000) (.setTaskCpu 2 true))).isSome) = true := by
    decide +kernel
  obtain ⟨s, found, facts⟩ := (Option.any_eq_true _ _).mp ran
  obtain ⟨⟨different, returns, prevWindow, prevSum⟩, taken⟩ := of_decide_eq_true facts
  obtain ⟨next, taken⟩ := Option.isSome_iff_exists.mp taken
  have run : Run _ twoCpus longSleep s := (run_of_runLabels found).mono fun _ _ _ step => step.2
  refine ⟨twoCpus_started, s, next, ⟨_, run⟩, taken, fun covered => ?_⟩
  have tooLarge := (covered 2 true rfl different returns).1.2
  have none : _ ≤ 0 := prevWindow.ge.trans (tooLarge.trans prevSum.le)
  simp at none

end SchedState

end Aosp.Kernel
