import Aosp.Kernel.CpuAccount

/-! # Busy time of migrated tasks

`fixup_busy_time` subtracts the windows of a task from the sums of the CPU it
leaves.  `BusyInv` is the invariant of the scheduler: while the statistics are on,
every CPU has a `CpuAccount`.  Here it is kept by every update and every other write
of the events, and by the migration, where it implies that the sums hold what is
subtracted from them.

The one step that involves two CPUs is the migration: the current tasks of both and
the task that moves are accounted at the same time, so its share means the same on
either.  The windows of different CPUs need not be aligned for this.
-/

namespace Aosp.Kernel

open Aosp.Lib SchedState
open Function (update update_of_ne update_self)

namespace SchedState

variable {C T : Type} [DecidableEq C] [DecidableEq T] (isIdle : T → Bool)

section

variable (s : SchedState C T) (conf : C → Settings) (tk : T) (cpu : C)

/-- The task has windows of its own. -/
def counts : Bool :=
  !isIdle tk && !(s.ravg tk).exitingTask

def share (tk : T) : Option Ravg :=
  if s.taskCpu tk = cpu ∧ s.counts isIdle tk = true then some (s.ravg tk) else none

def mark : Nat := (s.ravg (s.rq cpu).curr).markStart

/-- The current task of the CPU was accounted just now. -/
structure Current : Prop where
  mark : s.mark cpu = s.clock
  window : StartsWindow s.schedRavgWindow s.clock (s.rq cpu).windowStart (s.rq cpu).windowStart

/-- What holds of the clock, the windows and the tasks whether busy time is accounted or not. -/
structure Timed : Prop where
  window : 0 < s.schedRavgWindow
  clock : s.clock < 2 ^ 64
  started : ∀ cpu, 0 < (s.rq cpu).windowStart
  past : ∀ cpu, (s.rq cpu).windowStart ≤ s.clock
  marks : ∀ tk, (s.ravg tk).markStart ≤ s.clock
  curr : ∀ cpu, s.taskCpu (s.rq cpu).curr = cpu
  runs : ∀ cpu, isIdle (s.rq cpu).curr = true ∨ s.runState (s.rq cpu).curr = .queued
  listed : ∀ tk, s.counts isIdle tk = true → s.listed tk = true ∨ s.runState tk = .new

structure BusyInv : Prop extends Timed isIdle s where
  new : ∀ tk, s.counts isIdle tk = true → s.runState tk = .new → (s.ravg tk).Idle
  live : ∀ tk, s.counts isIdle tk = true → (s.ravg tk).Live
  account : s.phase = .enabled → ∀ cpu, CpuAccount s.schedRavgWindow (s.mark cpu) (s.rq cpu) (s.share isIdle cpu)
  cleared : s.phase = .cleared → ∀ tk, s.counts isIdle tk = true → (s.ravg tk).Idle

/-! ## Which runs are considered -/

/-- The counts of windows that an update of the task stores in an `int` fit, and no sample looks like the marker. -/
def updateFits : Bool :=
  let window := s.schedRavgWindow
  let markStart := (s.ravg tk).markStart
  window < exitingTaskMarker && storeU32 ((conf cpu).scaleExecTime window) != exitingTaskMarker &&
    (s.clock - (s.rq cpu).windowStart) / window < 2 ^ 31 && (markStart == 0 || (s.clock - markStart) / window < 2 ^ 31)

def accounted : SchedEvent C T → List (T × C)
  | .schedule cpu next _ => [((s.rq cpu).curr, cpu), (next, cpu)]
  | .taskUpdate cpu | .schedAccountIrqtime cpu _ | .schedExit cpu => [((s.rq cpu).curr, cpu)]
  | .tryToWakeUp tk =>
    let cpu := s.taskCpu tk
    [((s.rq cpu).curr, cpu), (tk, cpu)]
  | .setTaskCpu tk dst =>
    let cpu := s.taskCpu tk
    [((s.rq cpu).curr, cpu), ((s.rq dst).curr, dst), (tk, cpu)]
  | _ => []

/-- All updates of the event fit; there are none while the statistics are off. -/
def labelFits (lb : SchedLabel C T) : Bool :=
  let timed := { s with clock := lb.wallclock }
  s.phase != .enabled || (timed.accounted lb.event).all fun (tk, cpu) => timed.updateFits lb.settings tk cpu

structure Started : Prop extends Timed isIdle s where
  phase : s.phase = .enabled
  unaccounted : ∀ tk, (s.ravg tk).sum = 0 ∧ (s.ravg tk).Idle

end

variable {isIdle} {s : SchedState C T} {conf : C → Settings} {tk : T} {cpu : C}

omit [DecidableEq C] [DecidableEq T] in
theorem counts_eq_true : s.counts isIdle tk = true ↔ isIdle tk = false ∧ (s.ravg tk).exitingTask = false := by
  simp [counts]

omit [DecidableEq T] in
theorem share_eq_some {f : Ravg} (share : s.share isIdle cpu tk = some f) :
    s.taskCpu tk = cpu ∧ s.counts isIdle tk = true ∧ f = s.ravg tk := by
  obtain ⟨owns, ⟨⟩⟩ := Option.ite_none_right_eq_some.mp share
  exact ⟨owns.1, owns.2, rfl⟩

omit [DecidableEq T] in
theorem Started.busyInv (beg : Started isIdle s) : BusyInv isIdle s :=
  { beg with
    new := fun tk _ _ => (beg.unaccounted tk).2
    live := fun tk tally => by
      refine ⟨(counts_eq_true.mp tally).2, ?_⟩
      rw [(beg.unaccounted tk).1]
      decide
    account := fun _ _ => by
      refine cpuAccount_of_idle fun tk _ hf => ?_
      obtain ⟨-, -, rfl⟩ := share_eq_some hf
      exact (beg.unaccounted tk).2
    cleared := fun wiped => by simp [beg.phase] at wiped }

/-! ## Updates -/

section Updates

variable {ev : TaskEvent} {irq : Nat}

omit [DecidableEq C] in
@[simp] theorem ravgUpdate_window : (s.ravgUpdate isIdle conf tk cpu ev irq).window = s.schedRavgWindow := rfl

omit [DecidableEq C] in
@[simp] theorem ravgUpdate_wallclock : (s.ravgUpdate isIdle conf tk cpu ev irq).wallclock = s.clock := rfl

@[simps] def written (s : SchedState C T) (tk : T) (cpu : C) (new : Ravg) (post : RunQueue T) :
    SchedState C T :=
  { s with
    ravg := update s.ravg tk new
    rq := update s.rq cpu post }

variable {new : Ravg} {post : RunQueue T}

section

variable (chg : RavgChange (s.ravgUpdate isIdle conf tk cpu ev irq) (s.ravg tk) (s.rq cpu) new post)
include chg

theorem counts_written (o : T) : (s.written tk cpu new post).counts isIdle o = s.counts isIdle o := by
  by_cases eq : o = tk
  · simpa [counts, eq, RavgUpdate.counts, ravgUpdate] using chg.counts
  · simp [counts, eq]

theorem curr_written (o : C) : ((s.written tk cpu new post).rq o).curr = (s.rq o).curr := by
  by_cases eq : o = cpu
  · simp [eq, chg.curr]
  · simp [eq]

end

theorem share_own (on : s.taskCpu tk = cpu) :
    s.share isIdle cpu tk = (s.ravgUpdate isIdle conf tk cpu ev irq).shareOf (s.ravg tk) := by
  simp [share, counts, RavgUpdate.shareOf, RavgUpdate.counts, ravgUpdate, on]

theorem share_written (on : s.taskCpu tk = cpu) :
    (s.written tk cpu new post).share isIdle cpu = update (s.share isIdle cpu) tk
      ((s.ravgUpdate isIdle conf tk cpu ev irq).shareOf new) := by
  funext other
  by_cases eq : other = tk
  · simp [share, counts, RavgUpdate.shareOf, RavgUpdate.counts, ravgUpdate, eq, on]
  · simp [share, counts, eq]

variable {o : C}

theorem share_written_of_ne (ne : s.taskCpu tk ≠ o) :
    (s.written tk cpu new post).share isIdle o = s.share isIdle o := by
  funext owner
  by_cases eq : owner = tk
  · simp [share, eq, ne]
  · simp [share, counts, eq]

theorem current_written (may : tk = (s.rq cpu).curr ∨ s.Current cpu)
    (chg : RavgChange (s.ravgUpdate isIdle conf tk cpu ev irq) (s.ravg tk) (s.rq cpu)
      new post) : (s.written tk cpu new post).Current cpu where
  mark := by
    rw [mark, curr_written chg cpu]
    by_cases eq : (s.rq cpu).curr = tk
    · simpa [eq] using chg.mark
    · have marked := (may.resolve_left (Ne.symm eq)).mark
      simpa [mark, eq] using marked
  window := by
    simp only [written, update_self]
    exact ⟨Nat.le_refl _, chg.start.le, chg.start.lt, rfl⟩

theorem BusyInv.written (inv : BusyInv isIdle s) (on : s.taskCpu tk = cpu)
    (he : s.phase = .enabled) (may : tk = (s.rq cpu).curr ∨ s.Current cpu)
    (start : isIdle tk = true ∨ s.runState tk ≠ .new)
    (chg : RavgChange (s.ravgUpdate isIdle conf tk cpu ev irq) (s.ravg tk) (s.rq cpu)
      new post) : BusyInv isIdle (s.written tk cpu new post) where
  window := inv.window
  clock := inv.clock
  started := (Function.forall_update_iff s.rq fun _ rq => 0 < rq.windowStart).mpr
    ⟨Nat.lt_of_lt_of_le (inv.started cpu) chg.start.ge, fun o _ => inv.started o⟩
  past := (Function.forall_update_iff s.rq fun _ rq => rq.windowStart ≤ s.clock).mpr
    ⟨chg.start.le, fun o _ => inv.past o⟩
  marks := (Function.forall_update_iff s.ravg fun _ rv => rv.markStart ≤ s.clock).mpr
    ⟨chg.mark.le, fun o _ => inv.marks o⟩
  curr o := by
    rw [curr_written chg o]
    exact inv.curr o
  runs o := by
    rw [curr_written chg o]
    exact inv.runs o
  new o isCounted isNew := by
    rw [counts_written chg o] at isCounted
    by_cases eq : o = tk
    · cases start with
      | inl idle => simp [counts, eq, idle] at isCounted
      | inr notNew => exact absurd isNew (eq ▸ notNew)
    · simpa [eq] using inv.new o isCounted isNew
  listed o isCounted := inv.listed o (counts_written chg o ▸ isCounted)
  live o isCounted := by
    rw [counts_written chg o] at isCounted
    by_cases eq : o = tk
    · have isLive := chg.live (by rw [chg.counts]; exact eq ▸ isCounted)
      simpa [eq] using isLive
    · simpa [eq] using inv.live o isCounted
  account _ o := by
    by_cases eq : o = cpu
    · have marked := (current_written may chg).mark
      rw [eq, marked, share_written on]
      simp only [SchedState.written, update_self]
      have ac := inv.account he cpu
      have own := @share_own C T _ _ isIdle s conf tk cpu ev irq on
      by_cases isCurr : tk = (s.rq cpu).curr
      · rw [show s.mark cpu = (s.ravg tk).markStart by rw [isCurr]; rfl] at ac
        exact ac.updateCurr own chg (by simp [ravgUpdate, isCurr]) (inv.started cpu) (inv.marks tk)
      · have cur := may.resolve_left isCurr
        rw [cur.mark] at ac
        exact ac.updateOther own chg (by simp [ravgUpdate, isCurr]) (inv.started cpu) cur.window
    · -- the other CPUs see nothing of it
      have far : s.taskCpu tk ≠ o := on ▸ Ne.symm eq
      have other : (s.rq o).curr ≠ tk := fun isCurr => far (isCurr ▸ inv.curr o)
      rw [share_written_of_ne far]
      have ac := inv.account he o
      simpa [mark, eq, other] using ac
  cleared isCleared := by simp [he] at isCleared

omit [DecidableEq C] [DecidableEq T] in
theorem updateFits_eq_true : s.updateFits conf tk cpu = true ↔ (s.schedRavgWindow < exitingTaskMarker ∧
      storeU32 ((conf cpu).scaleExecTime s.schedRavgWindow) ≠ exitingTaskMarker) ∧
    (s.clock - (s.rq cpu).windowStart) / s.schedRavgWindow < 2 ^ 31 ∧ ((s.ravg tk).markStart = 0 ∨
      (s.clock - (s.ravg tk).markStart) / s.schedRavgWindow < 2 ^ 31) := by
  simp [updateFits, and_assoc]

theorem BusyInv.ravgChange (inv : BusyInv isIdle s) (fits : s.updateFits conf tk cpu = true)
    (ev : TaskEvent) (irq : Nat) : let c := s.ravgUpdate isIdle conf tk cpu ev irq
    let updated := c.updateTaskRavg (s.ravg tk) (s.rq cpu)
    RavgChange c (s.ravg tk) (s.rq cpu) updated.1 updated.2 := by
  obtain ⟨⟨win, fullWindow⟩, windows, fullWindows⟩ := updateFits_eq_true.mp fits
  exact ravgChange_updateTaskRavg inv.window (inv.past cpu) inv.clock ⟨windows, fullWindows⟩ ⟨win, fullWindow⟩
    (inv.live tk)

theorem updateTaskRavg_off (off : s.phase ≠ .enabled) (ev : TaskEvent) (irq : Nat) :
    s.updateTaskRavg isIdle conf tk cpu ev irq = s := by
  simp [updateTaskRavg, off]

/-- While the statistics are on an update writes what `update_task_ravg` computes. -/
theorem BusyInv.updateTaskRavg_on (inv : BusyInv isIdle s) (he : s.phase = .enabled)
    (fits : s.updateFits conf tk cpu = true) (ev : TaskEvent) (irq : Nat) :
    ∃ new post, s.updateTaskRavg isIdle conf tk cpu ev irq = s.written tk cpu new post ∧
      RavgChange (s.ravgUpdate isIdle conf tk cpu ev irq) (s.ravg tk) (s.rq cpu) new post := by
  refine ⟨_, _, ?_, inv.ravgChange fits ev irq⟩
  simp [SchedState.updateTaskRavg, SchedState.written, he, Nat.ne_of_gt (inv.started cpu)]

theorem BusyInv.updateTaskRavg (inv : BusyInv isIdle s) (on : s.taskCpu tk = cpu)
    (start : isIdle tk = true ∨ s.runState tk ≠ .new) (may : s.phase = .enabled → tk = (s.rq cpu).curr ∨ s.Current cpu)
    (fits : s.phase = .enabled → s.updateFits conf tk cpu = true) (ev : TaskEvent) (irq : Nat) :
    BusyInv isIdle (s.updateTaskRavg isIdle conf tk cpu ev irq) := by
  by_cases he : s.phase = .enabled
  · obtain ⟨_, _, post, chg⟩ := inv.updateTaskRavg_on he (fits he) ev irq
    rw [post]
    exact inv.written on he (may he) start chg
  · rw [updateTaskRavg_off he]
    exact inv

section

variable (inv : BusyInv isIdle s) (he : s.phase = .enabled)
  (fits : s.updateFits conf tk cpu = true)
include inv he fits

theorem BusyInv.current_updateTaskRavg (may : tk = (s.rq cpu).curr ∨ s.Current cpu) (ev : TaskEvent) (irq : Nat) :
    (s.updateTaskRavg isIdle conf tk cpu ev irq).Current cpu := by
  obtain ⟨_, _, post, chg⟩ := inv.updateTaskRavg_on he fits ev irq
  rw [post]
  exact current_written may chg

theorem BusyInv.marked_updateTaskRavg (ev : TaskEvent) (irq : Nat) :
    ((s.updateTaskRavg isIdle conf tk cpu ev irq).ravg tk).markStart = s.clock := by
  obtain ⟨_, _, post, chg⟩ := inv.updateTaskRavg_on he fits ev irq
  rw [post]
  simpa [written] using chg.mark

theorem BusyInv.counts_updateTaskRavg (ev : TaskEvent) (irq : Nat) (o : T) :
    (s.updateTaskRavg isIdle conf tk cpu ev irq).counts isIdle o = s.counts isIdle o := by
  obtain ⟨_, _, post, chg⟩ := inv.updateTaskRavg_on he fits ev irq
  rw [post]
  exact counts_written chg o

end

omit [DecidableEq T] in
theorem BusyInv.begun_curr (inv : BusyInv isIdle s) (cpu : C) :
    isIdle (s.rq cpu).curr = true ∨ s.runState (s.rq cpu).curr ≠ .new := by
  cases inv.runs cpu with
  | inl idle => exact .inl idle
  | inr hq => exact .inr (by simp [hq])

theorem BusyInv.updateCurr (inv : BusyInv isIdle s)
    (fits : s.phase = .enabled → s.updateFits conf (s.rq cpu).curr cpu = true) (ev : TaskEvent)
    (irq : Nat) : BusyInv isIdle (s.updateCurr isIdle conf cpu ev irq) :=
  inv.updateTaskRavg (inv.curr cpu) (inv.begun_curr cpu) (fun _ => .inl rfl) fits ev irq

/-! What an update leaves alone. -/

@[simp] theorem updateTaskRavg_frame : let post := s.updateTaskRavg isIdle conf tk cpu ev irq
    post.phase = s.phase ∧ post.clock = s.clock ∧ post.schedRavgWindow = s.schedRavgWindow ∧
      post.taskCpu = s.taskCpu ∧ post.runState = s.runState := by
  unfold updateTaskRavg
  split <;> simp

theorem updateTaskRavg_ravg {o : T} (ne : o ≠ tk) : (s.updateTaskRavg isIdle conf tk cpu ev irq).ravg o = s.ravg o := by
  unfold updateTaskRavg
  split
  next => rfl
  next => exact update_of_ne ne _ _

theorem updateTaskRavg_rq (ne : o ≠ cpu) : (s.updateTaskRavg isIdle conf tk cpu ev irq).rq o = s.rq o := by
  unfold updateTaskRavg
  split
  next => rfl
  next => exact update_of_ne ne _ _

@[simp] theorem updateTaskRavg_curr (o : C) :
    ((s.updateTaskRavg isIdle conf tk cpu ev irq).rq o).curr = (s.rq o).curr := by
  by_cases eq : o = cpu
  · unfold updateTaskRavg
    split
    next => rfl
    next => simp [eq]
  · rw [updateTaskRavg_rq eq]

theorem Current.updateTaskRavg (cur : s.Current o) (ne : o ≠ cpu) (other : (s.rq o).curr ≠ tk) :
    (s.updateTaskRavg isIdle conf tk cpu ev irq).Current o where
  mark := by
    have marked := cur.mark
    simpa [SchedState.mark, updateTaskRavg_ravg other] using marked
  window := by simpa [updateTaskRavg_rq ne] using cur.window

omit [DecidableEq C] [DecidableEq T] in
theorem updateFits_congr (s : SchedState C T) {late : SchedState C T} (win : late.schedRavgWindow = s.schedRavgWindow)
    (clock : late.clock = s.clock) (ws : (late.rq cpu).windowStart = (s.rq cpu).windowStart)
    (markStart : (late.ravg tk).markStart = (s.ravg tk).markStart) :
    late.updateFits conf tk cpu = s.updateFits conf tk cpu := by
  simp [updateFits, win, clock, ws, markStart]

theorem BusyInv.updateFits_updateCurr (inv : BusyInv isIdle s) (he : s.phase = .enabled)
    (fitsCurr : s.updateFits conf (s.rq cpu).curr cpu = true)
    (fits : s.updateFits conf tk cpu = true) (ev : TaskEvent) (irq : Nat) :
    (s.updateCurr isIdle conf cpu ev irq).updateFits conf tk cpu = true := by
  have cur : (s.updateCurr isIdle conf cpu ev irq).Current cpu :=
    inv.current_updateTaskRavg he fitsCurr (.inl rfl) ev irq
  obtain ⟨bare, -, fullWindows⟩ := updateFits_eq_true.mp fits
  refine updateFits_eq_true.mpr ⟨by simpa using bare, ?_, ?_⟩
  · have high := cur.window.le
    have hi := cur.window.lt
    rw [Nat.div_eq_of_lt (by omega)]
    decide
  · by_cases eq : tk = (s.rq cpu).curr
    · have marked := cur.mark
      simp_all [mark]
    · simpa [updateTaskRavg_ravg eq] using fullWindows

end Updates

/-! ## The other writes of the events -/

section Writes

variable (inv : BusyInv isIdle s)
include inv

theorem BusyInv.setRunState {tg : RunState} (notNew : tg ≠ .new)
    (start : s.listed tk = true ∨ s.runState tk ≠ .new)
    (hr : ∀ cpu, (s.rq cpu).curr = tk → isIdle tk = true ∨ tg = .queued) : BusyInv isIdle (s.setRunState tk tg) :=
  { inv with
    runs := by
      intro cpu
      by_cases eq : (s.rq cpu).curr = tk
      · simpa [eq] using hr cpu eq
      · simpa [eq] using inv.runs cpu
    new := by
      intro o tally isNew
      by_cases eq : o = tk
      · simp [eq, notNew] at isNew
      · exact inv.new o tally (by simpa [eq] using isNew)
    listed := by
      intro o tally
      by_cases eq : o = tk
      · subst eq
        cases start with
        | inl inList => exact .inl inList
        | inr wasBegun => exact .inl ((inv.listed o tally).resolve_right wasBegun)
      · simpa [eq] using inv.listed o tally }

omit [DecidableEq T] in
/-- The run queue gets another current task, which was accounted when the old one was. -/
theorem BusyInv.setCurr {next : T} (on : s.taskCpu next = cpu)
    (runs : isIdle next = true ∨ s.runState next = .queued)
    (marked : s.phase = .enabled → (s.ravg next).markStart = s.mark cpu) : BusyInv isIdle (s.setCurr cpu next) := by
  -- the counters of the run queues are as before
  have start : ∀ o, ((s.setCurr cpu next).rq o).windowStart = (s.rq o).windowStart := by
    intro o
    by_cases eq : o = cpu
    · simp [eq]
    · simp [eq]
  exact { inv with
    started := fun o => (start o).symm ▸ inv.started o
    past := fun o => (start o).symm ▸ inv.past o
    curr := fun o => by
      by_cases eq : o = cpu
      · simpa [eq] using on
      · simpa [eq] using inv.curr o
    runs := fun o => by
      by_cases eq : o = cpu
      · simpa [eq] using runs
      · simpa [eq] using inv.runs o
    account := fun he o => by
      have ac := inv.account he o
      by_cases eq : o = cpu
      · subst eq
        rw [← marked he] at ac
        simp only [mark, setCurr, update_self]
        exact ⟨ac.fresh, ac.curr, ac.prev⟩
      · rw [show (s.setCurr cpu next).share isIdle o = s.share isIdle o from rfl]
        simpa [mark, eq] using ac }

/-- The record of a task is replaced by one without busy time. -/
theorem BusyInv.setRavg {rv : Ravg} (past : rv.markStart ≤ s.clock)
    (kept : isIdle tk = false → rv.exitingTask = false →
      s.counts isIdle tk = true ∧ rv.Live ∧ rv.Idle) (marked : s.phase = .enabled → ∀ cpu, (s.rq cpu).curr = tk →
      rv.markStart = (s.ravg tk).markStart) : BusyInv isIdle (s.setRavg tk rv) := by
  have hc : ∀ o, (s.setRavg tk rv).counts isIdle o = true →
      s.counts isIdle o = true ∧ (o = tk → rv.Live ∧ rv.Idle) := by
    intro o tally
    obtain ⟨busy, lives⟩ := counts_eq_true.mp tally
    by_cases eq : o = tk
    · subst eq
      obtain ⟨was, isLiveIdle⟩ := kept busy (by simpa using lives)
      exact ⟨was, fun _ => isLiveIdle⟩
    · simp only [setRavg_ravg, update_of_ne eq] at lives
      exact ⟨counts_eq_true.mpr ⟨busy, lives⟩, fun hit => absurd hit eq⟩
  exact { inv with
    marks := (Function.forall_update_iff s.ravg fun _ rv => rv.markStart ≤ s.clock).mpr
      ⟨past, fun o _ => inv.marks o⟩
    new := fun o tally isNew => by
      by_cases eq : o = tk
      · simpa [eq] using ((hc o tally).2 eq).2
      · simpa [eq] using inv.new o (hc o tally).1 isNew
    listed := fun o tally => inv.listed o (hc o tally).1
    live := fun o tally => by
      by_cases eq : o = tk
      · simpa [eq] using ((hc o tally).2 eq).1
      · simpa [eq] using inv.live o (hc o tally).1
    account := fun he cpu => by
      have ac := inv.account he cpu
      have sameMark : (s.setRavg tk rv).mark cpu = s.mark cpu := by
        by_cases eq : (s.rq cpu).curr = tk
        · simpa [mark, eq] using marked he cpu eq
        · simp [mark, eq]
      rw [sameMark]
      refine ac.mono fun o _ isShare => ?_
      obtain ⟨on, tally, rfl⟩ := share_eq_some isShare
      by_cases eq : o = tk
      · exact .inr (by simpa [eq] using ((hc o tally).2 eq).2)
      · refine .inl ?_
        simp [share, eq, show s.taskCpu o = cpu from on, (hc o tally).1]
    cleared := fun wiped o tally => by
      by_cases eq : o = tk
      · simpa [eq] using ((hc o tally).2 eq).2
      · simpa [eq] using
          inv.cleared wiped o (hc o tally).1 }

theorem BusyInv.setIdleCpu (other : ∀ cpu, (s.rq cpu).curr ≠ tk)
    (idle : s.phase = .enabled → s.counts isIdle tk = true → (s.ravg tk).Idle) (dst : C) :
    BusyInv isIdle { s with taskCpu := update s.taskCpu tk dst } :=
  { inv with
    curr := fun cpu => (update_of_ne (other cpu) _ _).trans (inv.curr cpu)
    account := fun he cpu => by
      refine (inv.account he cpu).mono fun o _ share => ?_
      obtain ⟨on, tally, rfl⟩ := share_eq_some share
      by_cases eq : o = tk
      · subst eq
        exact .inr (idle he tally)
      · refine .inl (if_pos ⟨?_, tally⟩)
        simpa [eq] using on }

end Writes

/-! ## Migration -/

section Migration

variable {dst : C}

/-- The state in which `fixup_busy_time` subtracts, and what it knows of it. -/
structure Fixup (isIdle : T → Bool) (s : SchedState C T) (tk : T) (dst : C) : Prop where
  inv : BusyInv isIdle s
  enabled : s.phase = .enabled
  counts : s.counts isIdle tk = true
  different : s.taskCpu tk ≠ dst
  notCurr : ∀ cpu, (s.rq cpu).curr ≠ tk
  src : s.Current (s.taskCpu tk)
  dest : s.Current dst
  marked : (s.ravg tk).markStart = s.clock

theorem Fixup.leave (fixup : Fixup isIdle s tk dst) :
    s.WindowsCovered tk ∧ CpuAccount s.schedRavgWindow (s.mark (s.taskCpu tk)) { s.rq (s.taskCpu tk) with
          currRunnableSum := (s.rq (s.taskCpu tk)).currRunnableSum - (s.ravg tk).currWindow
          prevRunnableSum := (s.rq (s.taskCpu tk)).prevRunnableSum - (s.ravg tk).prevWindow }
        (update (s.share isIdle (s.taskCpu tk)) tk none) := by
  have ac := fixup.inv.account fixup.enabled (s.taskCpu tk)
  refine ac.leave (if_pos ⟨rfl, fixup.counts⟩) ?_
  rw [fixup.marked]
  exact fixup.src.window.le

theorem Fixup.arrive (fixup : Fixup isIdle s tk dst) :
    CpuAccount s.schedRavgWindow (s.mark dst) { s.rq dst with
        currRunnableSum := (s.rq dst).currRunnableSum + (s.ravg tk).currWindow
        prevRunnableSum := (s.rq dst).prevRunnableSum + (s.ravg tk).prevWindow }
      (update (s.share isIdle dst) tk (some (s.ravg tk))) := by
  have ac := fixup.inv.account fixup.enabled dst
  have mark : (s.ravg tk).markStart = s.mark dst := fixup.marked.trans fixup.dest.mark.symm
  refine ac.arrive mark (fixup.inv.started dst) ?_
  rw [fixup.dest.mark]
  exact fixup.dest.window

def moved (s : SchedState C T) (tk : T) (dst : C) : SchedState C T :=
  { s.moveWindows tk dst with taskCpu := update s.taskCpu tk dst }

theorem moved_rq (ne : s.taskCpu tk ≠ dst) (cpu : C) : (s.moved tk dst).rq cpu = if cpu = dst then { s.rq dst with
          currRunnableSum := (s.rq dst).currRunnableSum + (s.ravg tk).currWindow
          prevRunnableSum := (s.rq dst).prevRunnableSum + (s.ravg tk).prevWindow }
      else if cpu = s.taskCpu tk then
        { s.rq cpu with
          currRunnableSum := (s.rq cpu).currRunnableSum - (s.ravg tk).currWindow
          prevRunnableSum := (s.rq cpu).prevRunnableSum - (s.ravg tk).prevWindow }
      else s.rq cpu := by
  simp only [moved, moveWindows]
  by_cases new : cpu = dst
  · simp [new]
  · by_cases old : cpu = s.taskCpu tk
    · simp [old, ne]
    · simp [new, old]

theorem moved_rq_frame (cpu : C) : ((s.moved tk dst).rq cpu).curr = (s.rq cpu).curr ∧
      ((s.moved tk dst).rq cpu).windowStart = (s.rq cpu).windowStart := by
  simp only [moved, moveWindows]
  by_cases new : cpu = dst
  · simp [new]
  · by_cases old : cpu = s.taskCpu tk
    · subst old
      simp [new]
    · simp [new, old]

theorem share_of_moved {ow : T} {rv : Ravg} (share : (s.moved tk dst).share isIdle cpu ow = some rv) :
    ow = tk ∧ cpu = dst ∧ rv = s.ravg tk ∨ ow ≠ tk ∧ s.share isIdle cpu ow = some rv := by
  obtain ⟨on, tally, rfl⟩ := share_eq_some share
  have onCpu : update s.taskCpu tk dst ow = cpu := on
  by_cases eq : ow = tk
  · subst eq
    rw [update_self] at onCpu
    exact .inl ⟨rfl, onCpu.symm, rfl⟩
  · rw [update_of_ne eq] at onCpu
    exact .inr ⟨eq, if_pos ⟨onCpu, tally⟩⟩

theorem Fixup.account (fixup : Fixup isIdle s tk dst) (cpu : C) :
    CpuAccount s.schedRavgWindow (s.mark cpu) ((s.moved tk dst).rq cpu) ((s.moved tk dst).share isIdle cpu) := by
  rw [moved_rq fixup.different]
  split
  next new =>
    subst new
    refine fixup.arrive.mono fun ow rv share => .inl ?_
    cases share_of_moved share with
    | inl hit => simp [hit]
    | inr other => rw [update_of_ne other.1]; exact other.2
  next notNew =>
    split
    next old =>
      subst old
      refine fixup.leave.2.mono fun ow rv share => .inl ?_
      cases share_of_moved share with
      | inl hit => exact absurd hit.2.1 notNew
      | inr other => rw [update_of_ne other.1]; exact other.2
    next =>
      refine (fixup.inv.account fixup.enabled cpu).mono fun ow rv share => .inl ?_
      cases share_of_moved share with
      | inl hit => exact absurd hit.2.1 notNew
      | inr other => exact other.2

theorem Fixup.busyInv (fixup : Fixup isIdle s tk dst) : BusyInv isIdle (s.moved tk dst) :=
  { fixup.inv with
    started := fun cpu => by
      rw [(moved_rq_frame cpu).2]
      exact fixup.inv.started cpu
    past := fun cpu => by
      rw [(moved_rq_frame cpu).2]
      exact fixup.inv.past cpu
    curr := fun cpu => by
      rw [(moved_rq_frame cpu).1]
      exact (update_of_ne (fixup.notCurr cpu) _ _).trans (fixup.inv.curr cpu)
    runs := fun cpu => by
      rw [(moved_rq_frame cpu).1]
      exact fixup.inv.runs cpu
    account := fun _ cpu => by
      rw [show (s.moved tk dst).mark cpu = s.mark cpu by
        rw [mark, (moved_rq_frame cpu).1]; rfl]
      exact fixup.account cpu }

omit [DecidableEq T] in
theorem BusyInv.curr_ne (inv : BusyInv isIdle s) {one o : C} (ne : one ≠ o) : (s.rq one).curr ≠ (s.rq o).curr := by
  intro eq
  apply ne
  rw [← inv.curr one, eq, inv.curr]

section

variable (inv : BusyInv isIdle s) (he : s.phase = .enabled)
  (hc : s.counts isIdle tk = true) (ne : s.taskCpu tk ≠ dst)
  (other : ∀ cpu, (s.rq cpu).curr ≠ tk) (start : s.runState tk ≠ .new)
include inv he hc ne other start

/-- The last of the three updates of `fixup_busy_time`. -/
theorem BusyInv.fixup_task (src : s.Current (s.taskCpu tk)) (dest : s.Current dst)
    (fits : s.updateFits conf tk (s.taskCpu tk) = true) :
    Fixup isIdle (s.updateTaskRavg isIdle conf tk (s.taskCpu tk) .taskMigrate 0) tk dst where
  inv := inv.updateTaskRavg rfl (.inr start) (fun _ => .inr src) (fun _ => fits) .taskMigrate 0
  enabled := by simpa using he
  counts := by rwa [inv.counts_updateTaskRavg he fits]
  different := by simpa using ne
  notCurr := by simpa using other
  src := by
    rw [updateTaskRavg_frame.2.2.2.1]
    exact inv.current_updateTaskRavg he fits (.inr src) .taskMigrate 0
  dest := dest.updateTaskRavg (Ne.symm ne) (other dst)
  marked := by
    rw [updateTaskRavg_frame.2.1]
    exact inv.marked_updateTaskRavg he fits .taskMigrate 0

theorem BusyInv.fixup_dest (src : s.Current (s.taskCpu tk)) (fitsDest : s.updateFits conf (s.rq dst).curr dst = true)
    (fits : s.updateFits conf tk (s.taskCpu tk) = true) :
    Fixup isIdle ((s.updateCurr isIdle conf dst .taskUpdate 0).updateTaskRavg isIdle conf tk
      (s.taskCpu tk) .taskMigrate 0) tk dst := by
  have taskCpu : (s.updateCurr isIdle conf dst .taskUpdate 0).taskCpu tk = s.taskCpu tk := by
    simp
  rw [← taskCpu]
  refine (inv.updateCurr (fun _ => fitsDest) .taskUpdate 0).fixup_task ?_ ?_ ?_ ?_ ?_ ?_ ?_ ?_
  · simpa using he
  · rwa [SchedState.updateCurr, inv.counts_updateTaskRavg he fitsDest]
  · rwa [taskCpu]
  · simpa using other
  · simpa using start
  · rw [taskCpu]
    exact src.updateTaskRavg ne (inv.curr_ne ne)
  · exact inv.current_updateTaskRavg he fitsDest (.inl rfl) .taskUpdate 0
  · rw [taskCpu, updateFits_congr s]
    · exact fits
    · simp
    · simp
    · rw [SchedState.updateCurr, updateTaskRavg_rq ne]
    · rw [SchedState.updateCurr, updateTaskRavg_ravg (Ne.symm (other dst))]

/-- The three updates of `fixup_busy_time` make the migration possible. -/
theorem BusyInv.fixup (fitsSrc : s.updateFits conf (s.rq (s.taskCpu tk)).curr (s.taskCpu tk) = true)
    (fitsDest : s.updateFits conf (s.rq dst).curr dst = true) (fits : s.updateFits conf tk (s.taskCpu tk) = true) :
    Fixup isIdle (s.fixupUpdates isIdle conf tk dst) tk dst := by
  have taskCpu : (s.updateCurr isIdle conf (s.taskCpu tk) .taskUpdate 0).taskCpu tk = s.taskCpu tk := by
    simp
  have tl := @BusyInv.fixup_dest C T _ _ isIdle _ conf tk dst
    (inv.updateCurr (fun _ => fitsSrc) .taskUpdate 0)
  rw [taskCpu] at tl
  refine tl ?_ ?_ ne ?_ ?_ ?_ ?_ ?_
  · simpa using he
  · rwa [SchedState.updateCurr, inv.counts_updateTaskRavg he fitsSrc]
  · simpa using other
  · simpa using start
  · exact inv.current_updateTaskRavg he fitsSrc (.inl rfl) .taskUpdate 0
  · rw [updateFits_congr s]
    · simpa using fitsDest
    · simp
    · simp
    · rw [SchedState.updateCurr, updateTaskRavg_rq (Ne.symm ne)]
    · rw [SchedState.updateCurr, updateTaskRavg_curr, updateTaskRavg_ravg (inv.curr_ne (Ne.symm ne))]
  · exact inv.updateFits_updateCurr he fitsSrc fits .taskUpdate 0

end

end Migration

end SchedState

end Aosp.Kernel
