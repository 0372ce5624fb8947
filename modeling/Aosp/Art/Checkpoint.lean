import Aosp.Art.SuspendBarrier

/-! # Checkpoints of a thread

A checkpoint that `RequestCheckpoint` has inserted is in the slot, in the overflow
list, or just taken by the target; in the order of the requests these follow those
that have run (`PendingInv.order`).

This needs that a checkpoint which reaches a suspend check was the last one pending
when it was taken (`lastOfBatch`).  The loop of `RunCheckpointFunction` decides before
it runs a checkpoint whether there is another one.  If the checkpoint itself reaches
a suspend check, the call of `RunCheckpointFunction` in there takes that other one,
and the loop aborts (`checkpoint_reenters`).
-/

namespace Aosp.Art

open Aosp.Lib SuspendState

/-- What the call on top of the stack has to do with the checkpoints. -/
structure CheckpointStage where
  clearing : Bool := false
  taken : List Closure := []
  /-- It relies on a checkpoint being there. -/
  expects : Bool := false

def checkpointStage : List Frame → CheckpointStage
  | .runCheckpointFunction .lock :: _ | .runCheckpointFunction .locked :: _ => { expects := true }
  | .runCheckpointFunction (.clearFlag checkpoint) :: _ => { clearing := true, taken := [checkpoint] }
  | .runCheckpointFunction (.unlock checkpoint done) :: _ => { taken := [checkpoint], expects := !done }
  | .runCheckpointFunction (.running done) :: _ | .closure _ :: .runCheckpointFunction (.running done) :: _ =>
    { expects := !done }
  | _ => {}

/-- A loop that will take another checkpoint when the one it runs has returned. -/
def Frame.moreToRun : Frame → Bool
  | .runCheckpointFunction (.running done) => !done
  | _ => false

def NoBatch (frs : List Frame) : Prop := frs.any Frame.moreToRun = false

/-- A checkpoint that reaches a suspend check was the last one pending when it was taken. -/
def lastOfBatch (s : SuspendState) : SuspendLabel → Bool
  | .checkSuspend => !s.frames.any Frame.moreToRun
  | _ => true

/-- A loop that will take another checkpoint is on top, or right under the checkpoint it runs. -/
def Tidy : List Frame → Prop
  | .closure _ :: _ :: rest => NoBatch rest
  | _ :: rest => NoBatch rest
  | [] => True

def inserting : Option Holder → Bool
  | some (.other (.checkpointInsert _)) => true
  | _ => false

attribute [simp] inserting.eq_1 inserting.eq_2

def requestedOf (log : List SuspendEvent) : List Closure :=
  log.filterMap fun | .requested function => some function | _ => none

def ranOf (log : List SuspendEvent) : List Closure :=
  log.filterMap fun | .ran function => some function | _ => none

/-- When the target leaves `kRunnable`, everything that was requested has run. -/
def LeftAfterRunning (pre : List SuspendEvent) (ev : SuspendEvent) : Prop :=
  ev = .suspended → requestedOf pre = ranOf pre

theorem left_snoc {log : List SuspendEvent} {ev : SuspendEvent}
    (o : ev ≠ .suspended) (left : EachAfter LeftAfterRunning log) : EachAfter LeftAfterRunning (log ++ [ev]) :=
  eachAfter_snoc.mpr ⟨left, fun isSuspended => absurd isSuspended o⟩

/-- A checkpoint is pending, or the flag is set for one that is about to be. -/
def SuspendState.coming (s : SuspendState) : Bool :=
  s.thread.checkpointFunction.isSome || inserting s.lock

@[simp] theorem SuspendState.coming_goto (s : SuspendState) (frs : List Frame) : (s.goto frs).coming = s.coming := rfl

structure PendingInv (s : SuspendState) : Prop where
  slotFirst : s.thread.checkpointFunction = none → s.thread.checkpointOverflow = []
  order : requestedOf s.log = ranOf s.log ++ (checkpointStage s.frames).taken ++
    s.thread.checkpointFunction.toList ++ s.thread.checkpointOverflow
  flag : (s.stateAndFlags.checkpointRequest && !(checkpointStage s.frames).clearing) = s.coming
  expects : (checkpointStage s.frames).expects = true → s.coming = true
  left : EachAfter LeftAfterRunning s.log

/-- Nothing happens to the checkpoints. -/
structure Undisturbed (s next : SuspendState) : Prop where
  function : next.thread.checkpointFunction = s.thread.checkpointFunction := by rfl
  overflow : next.thread.checkpointOverflow = s.thread.checkpointOverflow := by rfl
  flag : next.stateAndFlags.checkpointRequest = s.stateAndFlags.checkpointRequest := by rfl
  stage : checkpointStage next.frames = checkpointStage s.frames := by
    first | rfl | simp [*] <;> rfl
  inserting : inserting next.lock = inserting s.lock := by first | rfl | simp [*]
  requested : requestedOf next.log = requestedOf s.log := by simp [requestedOf]
  ran : ranOf next.log = ranOf s.log := by simp [ranOf]
  left : EachAfter LeftAfterRunning s.log → EachAfter LeftAfterRunning next.log := by
    first | exact id | exact left_snoc nofun

def Section.Knows (checkpointFunction : Option Closure) : Section → Prop
  | .settle op _ => ∀ v, op.onFlag .checkpointRequest v = v ∧ op.onFlag .emptyCheckpointRequest v = v
  | .checkpointSwap _ old | .emptyCheckpointSwap old => old.state = .runnable
  | .checkpointCheck => checkpointFunction.isSome = true
  | _ => True

structure QuietInv (s : SuspendState) : Prop where
  suspended : s.stateAndFlags.state ≠ .runnable →
    s.stateAndFlags.checkpointRequest = false ∧ s.stateAndFlags.emptyCheckpointRequest = false
  knows : ∀ code, s.lock = some (.other code) → code.Knows s.thread.checkpointFunction

section Stack

variable {word : StateAndFlags} {barriers : Request → Int} {fr locked : Frame}
  {frs tl : List Frame} {s next : SuspendState} {code : Section}

theorem checkpointStage_waiting (wait : Waiting tl) (alone : NoBatch tl) : checkpointStage tl = {} := by
  fun_cases checkpointStage tl <;> simp_all [NoBatch, Frame.waits, Frame.moreToRun]

theorem NoBatch.tidy (alone : NoBatch frs) : Tidy frs := by
  fun_cases Tidy frs <;> simp_all [NoBatch]

theorem Control.checkpointStage (ctl : Control word barriers fr frs) (wait : Waiting tl) (alone : NoBatch tl) :
    checkpointStage (frs ++ tl) = checkpointStage (fr :: tl) ∨
      word.checkpointRequest = true ∧ checkpointStage (fr :: tl) = {} ∧
        checkpointStage (frs ++ tl) = { expects := true } := by
  have bare := checkpointStage_waiting wait alone
  cases ctl
  case checkpoint set | leavingCheckpoint set => exact .inr ⟨set, rfl, rfl⟩
  case checked | lastRan | allPassed => exact .inl bare
  all_goals exact .inl rfl

theorem Control.tidy (ctl : Control word barriers fr frs) (alone : NoBatch tl) : Tidy (frs ++ tl) := by
  cases ctl
  case checked | lastRan | allPassed => exact alone.tidy
  all_goals simpa [Tidy, NoBatch, Frame.moreToRun, SuspendState.fullSuspendCheck] using alone

theorem Locks.checkpointStage (locks : Locks fr locked) :
    checkpointStage (locked :: tl) = checkpointStage (fr :: tl) := by
  cases locks <;> rfl

theorem Unlocks.checkpointStage (free : Unlocks fr frs) (wait : Waiting tl) (alone : NoBatch tl) :
    checkpointStage (frs ++ tl) = checkpointStage (fr :: tl) := by
  cases free with
  | quickExit => exact checkpointStage_waiting wait alone
  | _ => rfl

theorem stage_closure {cp : Closure} (wait : Waiting tl) (tidy : Tidy (.closure cp :: tl)) :
    checkpointStage tl = checkpointStage (.closure cp :: tl) ∧ Tidy tl := by
  cases tl with
  | nil => exact ⟨rfl, trivial⟩
  | cons snd tl =>
    have alone : NoBatch tl := tidy
    cases snd with
    | runCheckpointFunction ph =>
      cases ph with
      | running => exact ⟨rfl, alone⟩
      | _ => cases (waiting_cons.mp wait).1
    | _ => exact ⟨checkpointStage_waiting wait alone, NoBatch.tidy alone⟩

theorem PendingInv.undisturbed (inv : PendingInv s) (eq : Undisturbed s next) : PendingInv next := by
  have due : next.coming = s.coming := by rw [coming, eq.function, eq.inserting, coming]
  refine ⟨?_, ?_, ?_, ?_, eq.left inv.left⟩
  · rw [eq.function, eq.overflow]
    exact inv.slotFirst
  · rw [eq.requested, eq.ran, eq.stage, eq.function, eq.overflow]
    exact inv.order
  · rw [eq.flag, eq.stage, due]
    exact inv.flag
  · rw [eq.stage, due]
    exact inv.expects

theorem PendingInv.all_ran (inv : PendingInv s) (isClear : s.stateAndFlags.checkpointRequest = false)
    (bare : checkpointStage s.frames = {}) : requestedOf s.log = ranOf s.log := by
  have flag := inv.flag
  rw [isClear, Bool.false_and, coming, Eq.comm, Bool.or_eq_false_iff, Option.isSome_eq_false_iff,
    Option.isNone_iff_eq_none] at flag
  simpa [bare, flag.1, inv.slotFirst flag.1] using inv.order

theorem not_clearing (noTop : topOp frs = none) : (checkpointStage frs).clearing = false := by
  revert noTop
  fun_cases checkpointStage frs <;> simp [Frame.pendingOp]

theorem SectionTurn.knows {word : StateAndFlags} {la : Section} (turn : SectionTurn word code la)
    (fn : Option Closure) : la.Knows fn := by
  cases turn with
  | read _ ready | readEmpty ready => exact ready
  | _ => trivial

theorem flagOp_knows (th : ThreadData) {fg : List ThreadFlag}
    (noCheckpoint : .checkpointRequest ∉ fg ∧ .emptyCheckpointRequest ∉ fg) (v : Bool) :
    (th.flagOp fg).onFlag .checkpointRequest v = v ∧ (th.flagOp fg).onFlag .emptyCheckpointRequest v = v := by
  unfold ThreadData.flagOp
  split <;> simp [FlagOp.onFlag, noCheckpoint]

theorem pushCheckpoint_isSome (th : ThreadData) (fn : Closure) :
    (th.pushCheckpoint fn).checkpointFunction.isSome = true := by
  fun_cases ThreadData.pushCheckpoint th fn <;> simp_all

end Stack

section Moves

variable {s next : SuspendState} {lab : SuspendLabel}
  {code : Section} {fr : Frame} {frs tl : List Frame}

theorem TargetMove.noBatch (move : TargetMove s fr frs next) (tidy : Tidy (fr :: tl)) : NoBatch tl := by
  cases move with
  | control ctl => cases ctl <;> exact tidy
  | fails fails => cases fails <;> exact tidy
  | lock locks => cases locks <;> exact tidy
  | unlock free => cases free <;> exact tidy
  | _ => exact tidy

theorem PendingInv.target (inv : PendingInv s) (ctl : ControlInv s) (tidy : Tidy s.frames)
    (st : s.frames = fr :: tl) (move : TargetMove s fr frs next) : PendingInv (next.goto (frs ++ tl)) := by
  have same := move.noBatch (st ▸ tidy)
  obtain ⟨fits, wait, -⟩ := st ▸ ctl.stacked
  have pop := checkpointStage_waiting wait same
  have held : fr.holdsLock = true → inserting s.lock = false := by
    intro hh
    rw [ctl.held.mpr (st ▸ hh)]
    rfl
  cases move with
  | control ctl =>
    rcases ctl.checkpointStage wait same with eq | ⟨set, bare, isStage⟩
    · exact inv.undisturbed { stage := by rw [st]; exact eq }
    · have due : s.coming = true := by simpa [st, bare, set] using inv.flag.symm
      exact { inv with
        order := by simpa [st, bare, isStage] using inv.order
        flag := by simpa [st, bare, isStage] using inv.flag
        expects := fun _ => due }
  | fails | emptyCheckpoint | flip | setState | passed | claim | clearBarrier => exact inv.undisturbed {}
  | lock locks _ => exact inv.undisturbed { stage := by rw [st]; exact locks.checkpointStage }
  | unlock free =>
    exact inv.undisturbed {
      stage := by rw [st]; exact free.checkpointStage wait same
      inserting := (held free.held.1).symm }
  | takeFirst fn overflow =>
    exact {
      slotFirst := nofun
      order := by simpa [st, checkpointStage, fn, overflow] using inv.order
      flag := by simpa [st, checkpointStage, fn, coming] using inv.flag
      expects := fun _ => rfl
      left := inv.left }
  | takeLast fn overflow =>
    -- the slot and the list are empty, and the flag is cleared before the lock is left
    exact {
      slotFirst := fun _ => overflow
      order := by simpa [st, checkpointStage, fn] using inv.order
      flag := by simpa [checkpointStage, coming] using (held rfl).symm
      expects := nofun
      left := inv.left }
  | clearCheckpoint cp =>
    have flag := inv.flag
    rw [st, checkpointStage, Bool.not_true, Bool.and_false] at flag
    exact { inv with
      order := by simpa [st, checkpointStage] using inv.order
      flag := flag
      expects := nofun }
  | run cp _ =>
    have due : coming ((s.setLock none).record (.ran cp)) = s.coming := by
      rw [coming, coming, held rfl]
      rfl
    exact {
      slotFirst := inv.slotFirst
      order := by simpa [st, checkpointStage, requestedOf, ranOf] using inv.order
      flag := by simpa [st, checkpointStage, ← due] using inv.flag
      expects := by simpa [st, checkpointStage, ← due] using inv.expects
      left := left_snoc nofun inv.left }
  | leave _ unchanged =>
    subst unchanged
    have allRan := inv.all_ran (fits.2.2 _ rfl).1 (by rw [st]; rfl)
    exact inv.undisturbed { left := fun left => eachAfter_snoc.mpr ⟨left, fun _ => allRan⟩ }
  | decrement | resume =>
    subst_vars
    exact inv.undisturbed {}

theorem PendingInv.goOn (inv : PendingInv s) (ctl : ControlInv s)
    (knows : code.Knows s.thread.checkpointFunction) (hh : s.lock = some (.other code))
    (move : SectionMove s code next) : PendingInv next := by
  cases move with
  | turn turn => cases turn <;> exact inv.undisturbed {}
  | fails | leave => exact inv.undisturbed {}
  | suspend _ _ _ isThread | resume _ _ isThread =>
    subst isThread
    exact inv.undisturbed {}
  | settle | install => exact inv.undisturbed { flag := readFlag_apply.trans (knows _).1 }
  | @clearBarrier req _ _ evs events =>
    have cases : evs = [.removed req] ∨ evs = [] := events ▸ ite_eq_or_eq _ _ _
    refine inv.undisturbed { inserting := by rw [hh]; split <;> rfl, requested := ?_, ran := ?_, left := ?_ }
    · rcases cases with events | events <;> simp [events, requestedOf]
    · rcases cases with events | events <;> simp [events, ranOf]
    · rcases cases with events | events
      · simpa [events] using left_snoc (by simp)
      · simp [events]
  | checkpointSet fn same =>
    exact { inv with
      flag := by simp [not_clearing (topOp_of_not_target ctl (by simp [hh])), coming]
      expects := fun _ => by simp [coming] }
  | insert fn =>
    have flag := inv.flag
    simp only [coming, hh] at flag
    have push : (s.thread.pushCheckpoint fn).checkpointFunction.isSome = true := pushCheckpoint_isSome _ _
    exact {
      slotFirst := fun emp => absurd push (by simpa using emp)
      order := by
        have ord := congrArg (· ++ [fn]) inv.order
        cases function : s.thread.checkpointFunction with
        | none =>
          simpa [ThreadData.pushCheckpoint, function, inv.slotFirst function, requestedOf, ranOf] using ord
        | some _ => simpa [ThreadData.pushCheckpoint, function, requestedOf, ranOf] using ord
      flag := by simpa [push, coming] using flag
      expects := fun _ => by simp [push, coming]
      left := left_snoc nofun inv.left }
  | emptyCheckpointSet same =>
    subst same
    exact inv.undisturbed {}

theorem QuietInv.target (inv : QuietInv s) (ctl : ControlInv s) (st : s.frames = fr :: tl)
    (move : TargetMove s fr frs next) : QuietInv (next.goto (frs ++ tl)) := by
  obtain ⟨fits, -, -⟩ := st ▸ ctl.stacked
  have knows : ∀ code, next.lock = some (.other code) → code.Knows s.thread.checkpointFunction :=
    fun code hh => inv.knows code (move.own.lock code hh)
  have notOther : fr.holdsLock = true → ∀ code, s.lock ≠ some (.other code) := by
    intro hh code other
    rw [ctl.held.mpr (st ▸ hh)] at other
    cases other
  cases move with
  | takeFirst | takeLast => exact ⟨inv.suspended, fun code hh => absurd hh (notOther rfl code)⟩
  | clearCheckpoint | emptyCheckpoint =>
    exact ⟨fun idle => absurd (of_decide_eq_true fits) (by simpa using idle), knows⟩
  | leave ns _ =>
    have bare := fits.2.2 _ rfl
    exact ⟨fun _ => bare, knows⟩
  | setState ns =>
    exact ⟨fun _ => inv.suspended (of_decide_eq_false (fits.2 rfl)), knows⟩
  | resume => exact ⟨fun idle => absurd rfl idle, knows⟩
  | clearBarrier => exact ⟨by simpa [FlagOp.apply, StateAndFlags.putFlag] using inv.suspended, knows⟩
  | _ => exact ⟨inv.suspended, knows⟩

theorem QuietInv.goOn (inv : QuietInv s) (hh : s.lock = some (.other code))
    (move : SectionMove s code next) : QuietInv next := by
  have knows := inv.knows code hh
  cases move with
  | turn turn =>
    refine ⟨inv.suspended, fun later late => ?_⟩
    cases late
    exact turn.knows _
  | fails => exact ⟨inv.suspended, inv.knows⟩
  | suspend | resume =>
    refine ⟨inv.suspended, fun later late => ?_⟩
    cases late
    exact flagOp_knows _ (by simp)
  | settle op | install op =>
    refine ⟨fun idle => ?_, fun later late => by cases late; trivial⟩
    have pre := inv.suspended (by simpa using idle)
    exact ⟨readFlag_apply.trans ((knows _).1.trans pre.1), readFlag_apply.trans ((knows _).2.trans pre.2)⟩
  | clearBarrier =>
    refine ⟨inv.suspended, fun later late => ?_⟩
    cases late
    split
    · trivial
    · simp [Section.Knows, FlagOp.onFlag]
  | checkpointSet fn same | emptyCheckpointSet same =>
    exact ⟨fun idle => absurd knows idle, fun later late => by cases late; trivial⟩
  | insert fn =>
    refine ⟨inv.suspended, fun later late => ?_⟩
    cases late
    exact pushCheckpoint_isSome _ _
  | leave => exact ⟨inv.suspended, fun _ late => by cases late⟩

def Fatal.aboutCheckpoints : Fatal → Bool
  | .withoutCheckpoint | .checkpointFlag | .suspendedWithCheckpoint | .runnableWithCheckpoint => true
  | _ => false

structure CheckpointInv (s : SuspendState) : Prop where
  tidy : Tidy s.frames
  quiet : QuietInv s
  pending : PendingInv s
  fatal : ∀ fatal, s.fatal = some fatal → fatal.aboutCheckpoints = false

theorem TargetMove.tidy (move : TargetMove s fr frs next) (tidy : Tidy (fr :: tl)) : Tidy (frs ++ tl) := by
  have alone := move.noBatch tidy
  cases move with
  | control ctl => exact ctl.tidy alone
  | fails => exact tidy
  | lock locks => cases locks <;> exact alone
  | unlock free =>
    cases free with
    | quickExit => exact alone.tidy
    | _ => exact alone
  | emptyCheckpoint | leave | passed | setState | flip => exact alone.tidy
  | _ => exact alone

theorem CheckpointInv.target_fatal (inv : CheckpointInv s) (ctl : ControlInv s)
    (st : s.frames = fr :: tl) (move : TargetMove s fr frs next) (fatal : Fatal)
    (isFatal : next.fatal = some fatal) : fatal.aboutCheckpoints = false := by
  obtain ⟨fits, -, -⟩ := st ▸ ctl.stacked
  cases move with
  | fails fails =>
    cases isFatal
    cases fails with
    | withoutCheckpoint emp =>
      have due := inv.pending.expects (by rw [st]; rfl)
      rw [coming, emp, ctl.held.mpr (by rw [st]; rfl)] at due
      cases due
    | suspendedWithCheckpoint set | runnableWithCheckpoint set =>
      simp [inv.quiet.suspended (of_decide_eq_false fits)] at set
    | _ => rfl
  | _ => exact inv.fatal fatal isFatal

theorem CheckpointInv.goOn_fatal (inv : CheckpointInv s) (hh : s.lock = some (.other code))
    (move : SectionMove s code next) (fatal : Fatal) (isFatal : next.fatal = some fatal) :
    fatal.aboutCheckpoints = false := by
  cases move with
  | fails fails =>
    cases isFatal
    cases fails with
    | checkpointFlag isClear =>
      have flag := inv.pending.flag
      have due : s.thread.checkpointFunction.isSome = true := inv.quiet.knows _ hh
      rw [isClear, coming, due] at flag
      cases flag
    | _ => rfl
  | _ => exact inv.fatal fatal isFatal

theorem UserCall.checkpointStage (c : UserCall s lab frs) (ctl : ControlInv s)
    (tidy : Tidy s.frames) (last : lastOfBatch s lab = true) :
    checkpointStage frs = checkpointStage s.frames ∧ Tidy frs := by
  cases c with
  | checkSuspend user _ =>
    have alone : NoBatch s.frames := by simpa [lastOfBatch, NoBatch] using last
    exact ⟨(checkpointStage_waiting (waiting_of_inUserCode user ctl.stacked) alone).symm, alone⟩
  | toSuspended emp | setState emp | toRunnable emp => exact ⟨by rw [emp]; rfl, rfl⟩
  | closureReturns st =>
    rw [st] at tidy ⊢
    exact stage_closure (st ▸ ctl.stacked).2.1 tidy

theorem CheckpointInv.move (inv : CheckpointInv s) (ctl : ControlInv s) (move : SuspendMove s lab next)
    (last : lastOfBatch s lab = true) : CheckpointInv next := by
  cases move with
  | target _ st move =>
    exact ⟨move.tidy (st ▸ inv.tidy), inv.quiet.target ctl st move,
      inv.pending.target ctl inv.tidy st move, fun fatal => inv.target_fatal ctl st move fatal⟩
  | call c =>
    obtain ⟨stage, tidy⟩ := c.checkpointStage ctl inv.tidy last
    exact ⟨tidy, ⟨inv.quiet.suspended, inv.quiet.knows⟩, inv.pending.undisturbed { stage }, inv.fatal⟩
  | @enter code free may =>
    have bare : Section.Knows s.thread.checkpointFunction code ∧ inserting (some (.other code)) = false := by
      cases code <;> first | cases may; done | exact ⟨trivial, rfl⟩
    refine ⟨inv.tidy, ⟨inv.quiet.suspended, ?_⟩, inv.pending.undisturbed { inserting := by simp [free, bare.2] },
      inv.fatal⟩
    rintro _ ⟨⟩
    exact bare.1
  | goOn hh move =>
    have alien := move.foreign hh
    exact ⟨alien.frames ▸ inv.tidy, inv.quiet.goOn hh move,
      inv.pending.goOn ctl (inv.quiet.knows _ hh) hh move, inv.goOn_fatal hh move⟩
  | setFlipFunction => exact ⟨inv.tidy, ⟨inv.quiet.suspended, inv.quiet.knows⟩, inv.pending.undisturbed {}, inv.fatal⟩

end Moves

/-! ## Runs -/

def LastOfBatchStep (rb : Bool) (pre : SuspendState)
    (lb : SuspendLabel) (post : SuspendState) : Prop :=
  lastOfBatch pre lb = true ∧ pre.step rb lb = some post

structure CheckpointsRun (s : SuspendState) : Prop where
  /-- Those that have run come first in the order of the requests, then at most one that is about to run, then
      those that wait. -/
  order : requestedOf s.log = ranOf s.log ++ (checkpointStage s.frames).taken ++
    s.thread.checkpointFunction.toList ++ s.thread.checkpointOverflow
  beforeLeaving : EachAfter LeftAfterRunning s.log
  flag : s.lock = none → (s.stateAndFlags.checkpointRequest = true ↔ s.thread.checkpointFunction.isSome = true)
  slotFirst : s.thread.checkpointFunction = none → s.thread.checkpointOverflow = []
  fatal : ∀ fatal, s.fatal = some fatal → fatal.aboutCheckpoints = false

theorem checkpoints_run_once_in_order (rb : Bool) (threadState : ThreadState) (s : SuspendState)
    (reach : Reachable (LastOfBatchStep rb) (.start threadState) s) : CheckpointsRun s := by
  have inv : ControlInv s ∧ CheckpointInv s := by
    refine reach.invariant (P := fun s => ControlInv s ∧ CheckpointInv s) ?_ fun _ _ _ inv taken => ?_
    · exact ⟨(SuspendInv.start threadState).control, trivial, ⟨fun _ => ⟨rfl, rfl⟩, nofun⟩,
        ⟨fun _ => rfl, rfl, rfl, nofun, eachAfter_nil _⟩, nofun⟩
    · have move := move_of_suspendStep taken.2
      exact ⟨inv.1.move move, inv.2.move inv.1 move taken.1⟩
  obtain ⟨control, _, _, pending, fatal⟩ := inv
  refine ⟨pending.order, pending.left, fun free => ?_, pending.slotFirst, fatal⟩
  have notClearing := not_clearing (topOp_of_not_target control (by simp [free]))
  have flag := pending.flag
  simp only [notClearing, coming, free, inserting, Bool.not_false, Bool.and_true, Bool.or_false] at flag
  rw [flag]

theorem checkpoints_run_once_in_order_two_requests :
    ∃ s : SuspendState, Reachable (LastOfBatchStep true) (.start .runnable) s ∧
      s.log = [.requested 1, .requested 2, .ran 1, .ran 2, .suspended] ∧ CheckpointsRun s := by
  have ran : (runLabels (fun s lb => lastOfBatch s lb = true) (step true)
      (.start .runnable : SuspendState)
      ([.enter (.requestCheckpoint 1), .goOn, .goOn, .goOn, .goOn, .goOn,
        .enter (.requestCheckpoint 2), .goOn, .goOn, .goOn, .goOn, .goOn,
        .transitionFromRunnableToSuspended .suspended] ++ List.replicate 4 (.target false) ++ [.closureReturns] ++
        List.replicate 5 (.target false) ++ [.closureReturns] ++ List.replicate 3 (.target false))).map log =
        some [.requested 1, .requested 2, .ran 1, .ran 2, .suspended] := by
    decide +kernel
  obtain ⟨s, found, log⟩ := Option.map_eq_some_iff.mp ran
  have reach : Reachable _ _ s := ⟨_, run_of_runLabels found⟩
  exact ⟨s, reach, log, checkpoints_run_once_in_order true .runnable s reach⟩

/-- Two checkpoints are pending and the first one reaches a suspend check. -/
theorem checkpoint_reenters :
    ∃ s : SuspendState, Reachable (SuspendStep true) (.start .runnable) s ∧
      s.log = [.requested 1, .requested 2, .ran 1, .ran 2] ∧ s.fatal = some .withoutCheckpoint := by
  have ran : (runLabels (fun _ _ => True) (step true) (.start .runnable : SuspendState)
      ([.enter (.requestCheckpoint 1), .goOn, .goOn, .goOn, .goOn, .goOn,
        .enter (.requestCheckpoint 2), .goOn, .goOn, .goOn, .goOn, .goOn, .checkSuspend] ++
        List.replicate 4 (.target false) ++ [.checkSuspend] ++ List.replicate 5 (.target false) ++ [.closureReturns] ++
        List.replicate 4 (.target false) ++ [.closureReturns] ++ List.replicate 3 (.target false))).map
        (fun s => (s.log, s.fatal)) = some ([.requested 1, .requested 2, .ran 1, .ran 2], some .withoutCheckpoint) := by
    decide +kernel
  obtain ⟨s, found, res⟩ := Option.map_eq_some_iff.mp ran
  exact ⟨s, ⟨_, (run_of_runLabels found).mono fun _ _ _ taken => taken.2⟩, congrArg Prod.fst res, congrArg Prod.snd res⟩

end Aosp.Art
