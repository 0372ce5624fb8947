import Aosp.Kernel.WindowStats
import Aosp.Lib.Shares
import Mathlib.Data.Nat.ModEq

/-! # What one update does to the busy time

`Ravg.currAt` and `Ravg.prevAt` are the windows of a task as they will be once the
task is rolled over to a given window start.  `BusyChange` says what
`update_cpu_busy_time` can do in terms of them: either it adds to the sums, or it
rolls the sums over, and then the task is the current one.  `update_task_demand`
touches neither the windows nor, unless a sample equals the marker, whether the
task is an exiting one.
-/

namespace Aosp.Kernel

open Aosp.Lib RavgUpdate Ravg Nat

theorem storeInt_of_lt {cnt : Nat} (small : cnt < 2 ^ 31) : storeInt cnt = cnt := by
  unfold storeInt
  rw [Int.bmod_eq_of_le] <;> omega

theorem storeU32_le (v : Nat) : storeU32 v ≤ v := mod_le _ _

/-- The current window of the task once it is rolled over to `ws`. -/
def Ravg.currAt (rv : Ravg) (ws : Nat) : Nat :=
  if ws ≤ rv.markStart then rv.currWindow else 0

/-- The previous window of the task once it is rolled over to `ws`. -/
def Ravg.prevAt (rv : Ravg) (window ws : Nat) : Nat :=
  if ws ≤ rv.markStart then rv.prevWindow
  else if ws - rv.markStart < window then rv.currWindow
  else 0

def RavgUpdate.counts (call : RavgUpdate) (rv : Ravg) : Bool := !call.idle && !rv.exitingTask

variable {T : Type}

inductive BusyChange (call : RavgUpdate) (old : Ravg) (rq : RunQueue T) (new : Ravg) (after : RunQueue T) :
    Prop where
  | added (curr prev : Nat) (unrolled : call.isCurrTask = false ∨ rq.windowStart ≤ old.markStart)
      (currSum : after.currRunnableSum = rq.currRunnableSum + curr)
      (prevSum : after.prevRunnableSum = rq.prevRunnableSum + prev)
      (currWindow : call.counts old = true → new.currWindow ≤ old.currAt rq.windowStart + curr)
      (prevWindow : call.counts old = true → new.prevWindow ≤ old.prevAt call.window rq.windowStart + prev)
  | rolled (prev : Nat) (isCurrTask : call.isCurrTask = true) (older : old.markStart < rq.windowStart)
      (prevSum : (if rq.windowStart - old.markStart < call.window then rq.currRunnableSum else 0) + prev ≤
        after.prevRunnableSum)
      (currWindow : call.counts old = true → new.currWindow ≤ after.currRunnableSum)
      (prevWindow : call.counts old = true → new.prevWindow ≤ old.prevAt call.window rq.windowStart + prev)

section Branches

variable {call : RavgUpdate} {old : Ravg} {rq : RunQueue T}

theorem not_idle_or_exiting (cs : call.counts old = true) : (call.idle || old.exitingTask) = false := by
  simpa [counts] using cs

theorem busyChange_accountSameWindow (eq : rq.windowStart ≤ old.markStart) :
    BusyChange call old rq (call.accountSameWindow old rq).1 (call.accountSameWindow old rq).2 := by
  refine .added _ 0 (.inr eq) rfl rfl (fun cs => ?_) (fun cs => ?_)
  · simp only [accountSameWindow, not_idle_or_exiting cs, currAt, eq]
    exact storeU32_le _
  · simp [accountSameWindow, not_idle_or_exiting cs, prevAt, eq]

variable {nfw : Int} {rv : Ravg}

@[simp] theorem Ravg.rollOver_exitingTask : (old.rollOver nfw).exitingTask = old.exitingTask := rfl

/-- The task after the rollover: idle and exiting tasks are not rolled over. -/
structure RolledOver (call : RavgUpdate) (old : Ravg) (nrFull : Int) (rv : Ravg) : Prop where
  rolled : call.counts old = true → rv = old.rollOver nrFull
  sumHistory : rv.sumHistory = old.sumHistory
  sum : rv.sum = old.sum

theorem rolledOver_ite (call : RavgUpdate) (old : Ravg) (nfw : Int) :
    RolledOver call old nfw
      (if (!call.idle && !old.exitingTask) = true then old.rollOver nfw else old) := by
  refine ⟨fun cs => if_pos cs, ?_, ?_⟩
  · split <;> rfl
  · split <;> rfl

section

variable (older : old.markStart < rq.windowStart)
  (full : nfw = 0 ↔ rq.windowStart - old.markStart < call.window)
include older full

theorem rollOver_prevWindow : (old.rollOver nfw).prevWindow = old.prevAt call.window rq.windowStart := by
  simp [rollOver, prevAt, not_le.mpr older, full]

/-- The previous window of a task that was busy in a part of it, or in all of it. -/
theorem accounted_prevWindow_le (pre : Nat) :
    (if nfw = 0 then storeU32 ((old.rollOver nfw).prevWindow + pre) else storeU32 pre) ≤
      old.prevAt call.window rq.windowStart + pre := by
  rw [← rollOver_prevWindow older full]
  split
  · exact storeU32_le _
  · exact (storeU32_le _).trans (le_add_left _ _)

theorem busyChange_rolled (curr : call.isCurrTask = true)
    (roll : call.counts old = true → rv = old.rollOver nfw) :
    BusyChange call old rq rv
      { rq with
        prevRunnableSum := if nfw = 0 then rq.currRunnableSum else 0
        currRunnableSum := 0 } := by
  refine .rolled 0 curr older ?_ (fun cs => ?_) (fun cs => ?_)
  · simp [full]
  · simp [roll cs, rollOver]
  · rw [roll cs, rollOver_prevWindow older full]
    exact le_refl _

end

theorem busyChange_heavy (o : call.isCurrTask = false)
    (roll : call.counts old = true → rv = old.rollOver nfw) :
    BusyChange call old rq { rv with prevWindow := rv.demand }
      { rq with prevRunnableSum := rq.prevRunnableSum + rv.demand } := by
  refine .added 0 rv.demand (.inl o) rfl rfl (fun cs => ?_) (fun cs => ?_)
  · simp [roll cs, rollOver]
  · exact le_add_left _ _

section

variable (older : old.markStart < rq.windowStart)
  (full : nfw = 0 ↔ rq.windowStart - old.markStart < call.window)
  (roll : call.counts old = true → rv = old.rollOver nfw)
include older full roll

theorem busyChange_idle (o : call.isCurrTask = false) : BusyChange call old rq rv rq := by
  refine .added 0 0 (.inl o) rfl rfl (fun cs => ?_) (fun cs => ?_)
  · simp [roll cs, rollOver]
  · rw [roll cs, rollOver_prevWindow older full]
    exact le_refl _

theorem busyChange_accountOtherTask (o : call.isCurrTask = false) :
    BusyChange call old rq (call.accountOtherTask nfw rv rq).1 (call.accountOtherTask nfw rv rq).2 := by
  refine .added _ _ (.inl o) rfl rfl (fun cs => ?_) (fun cs => ?_)
  · have inList := (Bool.or_eq_false_iff.mp (not_idle_or_exiting cs)).2
    simp only [accountOtherTask, roll cs, rollOver_exitingTask, inList]
    exact (storeU32_le _).trans (le_add_left _ _)
  · have inList := (Bool.or_eq_false_iff.mp (not_idle_or_exiting cs)).2
    simp only [accountOtherTask, roll cs, rollOver_exitingTask, inList]
    exact accounted_prevWindow_le older full _

theorem busyChange_accountCurrTask (curr : call.isCurrTask = true) :
    BusyChange call old rq (call.accountCurrTask nfw rv rq).1 (call.accountCurrTask nfw rv rq).2 := by
  refine .rolled (call.settings.scaleExecTime
    (if nfw = 0 then rq.windowStart - rv.markStart else call.window)) curr older ?_
    (fun cs => ?_) (fun cs => ?_)
  · simp only [accountCurrTask, ← full]
    split <;> omega
  · simp only [accountCurrTask, roll cs, rollOver_exitingTask, not_idle_or_exiting cs]
    exact storeU32_le _
  · simp only [accountCurrTask, roll cs, rollOver_exitingTask, not_idle_or_exiting cs]
    exact accounted_prevWindow_le older full _

end

theorem busyChange_accountIrqtime (curr : call.isCurrTask = true) (older : old.markStart < rq.windowStart)
    (idle : call.notIrqtime = false) : BusyChange call old rq rv (call.accountIrqtime rq) := by
  have uncounted : ¬ call.counts old = true := by
    simp only [notIrqtime, Bool.or_eq_false_iff] at idle
    simp [counts, idle.1.2]
  have fuel : rq.currRunnableSum ≤ (call.accountIrqtime rq).prevRunnableSum := by
    unfold accountIrqtime
    dsimp only
    split
    · exact le_refl _
    · exact le_add_right _ _
  refine .rolled 0 curr older ?_ (fun cs => absurd cs uncounted) (fun cs => absurd cs uncounted)
  split <;> omega

theorem nrFullWindows_eq_zero_iff (pos : 0 < call.window)
    (few : (rq.windowStart - old.markStart) / call.window < 2 ^ 31) :
    storeInt ((rq.windowStart - old.markStart) / call.window) = 0 ↔ rq.windowStart - old.markStart < call.window := by
  rw [storeInt_of_lt few, Int.natCast_eq_zero, div_eq_zero_iff_lt pos]

/-- The branches of `update_cpu_busy_time`.  In a new window the task is rolled over first. -/
theorem updateCpuBusyTime_cases {P : Ravg × RunQueue T → Prop}
    (unaccounted : rq.windowStart ≤ old.markStart → P (old, rq))
    (sameWindow : rq.windowStart ≤ old.markStart → P (call.accountSameWindow old rq))
    (newWindow : ∀ nfw rv, old.markStart < rq.windowStart →
      nfw = storeInt ((rq.windowStart - old.markStart) / call.window) → RolledOver call old nfw rv →
      (call.isCurrTask = true → P (rv, { rq with
          prevRunnableSum := if nfw = 0 then rq.currRunnableSum else 0
          currRunnableSum := 0 }) ∧ P (call.accountCurrTask nfw rv rq) ∧
        (call.notIrqtime = false → P (rv, call.accountIrqtime rq))) ∧ (call.isCurrTask = false → P (rv, rq) ∧
        P ({ rv with prevWindow := rv.demand }, { rq with prevRunnableSum := rq.prevRunnableSum + rv.demand }) ∧
        P (call.accountOtherTask nfw rv rq))) :
    P (call.updateCpuBusyTime old rq) := by
  unfold updateCpuBusyTime
  by_cases older : old.markStart < rq.windowStart
  · have rolledOver := rolledOver_ite call old (storeInt ((rq.windowStart - old.markStart) / call.window))
    simp only [older, decide_true, Bool.true_and, Bool.true_eq_false, if_true]
    generalize isCount : storeInt _ = nfw at rolledOver ⊢
    generalize (if (!call.idle && !old.exitingTask) = true then old.rollOver nfw else old) = rv
      at rolledOver ⊢
    obtain ⟨ofCurr, ofOther⟩ := newWindow nfw rv older isCount.symm rolledOver
    cases curr : call.isCurrTask with
    | true =>
      obtain ⟨roll, paid, irq⟩ := ofCurr curr
      simp only [if_true, Bool.true_eq_false, if_false]
      split
      next => exact roll
      next =>
        split
        next => exact paid
        next notBusy => exact irq (Bool.eq_false_iff.mpr notBusy)
    | false =>
      obtain ⟨kept, heavy, paid⟩ := ofOther curr
      simp only [Bool.false_eq_true, if_false]
      split
      next =>
        split
        next => exact heavy
        next => exact kept
      next => exact paid
  · have eq := Nat.le_of_not_lt older
    simp only [older, decide_false, Bool.false_and, Bool.false_eq_true, if_true, if_false]
    split
    next => exact unaccounted eq
    next => exact sameWindow eq

theorem busyChange_updateCpuBusyTime (pos : 0 < call.window)
    (few : (rq.windowStart - old.markStart) / call.window < 2 ^ 31) :
    BusyChange call old rq (call.updateCpuBusyTime old rq).1 (call.updateCpuBusyTime old rq).2 := by
  refine updateCpuBusyTime_cases (P := fun updated => BusyChange call old rq updated.1 updated.2)
    (fun eq => ?_) busyChange_accountSameWindow (fun _ _ older isCount rolledOver => ?_)
  · exact .added 0 0 (.inr eq) rfl rfl (by simp [currAt, eq]) (by simp [prevAt, eq])
  · have full := nrFullWindows_eq_zero_iff pos few
    rw [← isCount] at full
    have other := rolledOver.rolled
    exact ⟨fun curr => ⟨busyChange_rolled older full curr other,
        busyChange_accountCurrTask older full other curr, busyChange_accountIrqtime curr older⟩,
      fun o => ⟨busyChange_idle older full other o, busyChange_heavy o other,
        busyChange_accountOtherTask older full other o⟩⟩

/-- What `update_cpu_busy_time` leaves alone. -/
structure BusyFrame (old : Ravg) (rq : RunQueue T) (updated : Ravg × RunQueue T) : Prop where
  sumHistory : updated.1.sumHistory = old.sumHistory
  sum : updated.1.sum = old.sum
  curr : updated.2.curr = rq.curr
  windowStart : updated.2.windowStart = rq.windowStart

theorem busyFrame_updateCpuBusyTime (call : RavgUpdate) (old : Ravg) (rq : RunQueue T) :
    BusyFrame old rq (call.updateCpuBusyTime old rq) := by
  refine updateCpuBusyTime_cases (fun _ => ⟨rfl, rfl, rfl, rfl⟩) (fun _ => ?_)
    (fun _ _ _ _ roll => ?_)
  · unfold accountSameWindow
    dsimp only
    split <;> exact ⟨rfl, rfl, rfl, rfl⟩
  · obtain ⟨-, history, sum⟩ := roll
    refine ⟨fun _ => ⟨⟨history, sum, rfl, rfl⟩, ?_, fun _ => ?_⟩, fun _ =>
      ⟨⟨history, sum, rfl, rfl⟩, ⟨history, sum, rfl, rfl⟩, ?_⟩⟩
    · unfold accountCurrTask
      dsimp only
      split <;> exact ⟨history, sum, rfl, rfl⟩
    · unfold accountIrqtime
      dsimp only
      split <;> exact ⟨history, sum, rfl, rfl⟩
    · unfold accountOtherTask
      dsimp only
      split <;> exact ⟨history, sum, rfl, rfl⟩

end Branches

/-! ## Demand -/

section Demand

variable {call : RavgUpdate} {rv : Ravg} {rq : RunQueue T}

/-- The task is not an exiting one, and its next sample will not make it look like one. -/
structure Ravg.Live (rv : Ravg) : Prop where
  notExiting : rv.exitingTask = false
  sum : rv.sum < exitingTaskMarker

theorem shiftHistory_zero {smp : Nat} (pos : 0 < smp) (histSize : Nat) (hist : Nat → Nat) :
    (shiftHistory histSize smp hist).hist 0 = hist 0 := by
  -- every index written is at least `samples`
  suffices kept : ∀ (indices : List Nat) (scan : HistoryScan),
      (indices.foldl _ scan).hist 0 = scan.hist 0 from
    kept _ _
  intro indices
  induction indices with
  | nil => intro scan; rfl
  | cons _ indices ih =>
    intro scan
    rw [List.foldl_cons, ih]
    exact Function.update_of_ne (by omega) _ _

theorem pushSamples_zero (scan : HistoryScan) (histSize smp rt : Nat) :
    (scan.pushSamples histSize smp rt).hist 0 = scan.hist 0 ∨ (scan.pushSamples histSize smp rt).hist 0 = rt := by
  unfold HistoryScan.pushSamples
  induction List.range _ generalizing scan with
  | nil => exact .inl rfl
  | cons widx _ ih =>
    rw [List.foldl_cons]
    cases ih _ with
    | inr push => exact .inr push
    | inl kept =>
      rw [kept]
      by_cases first : widx = 0
      · exact .inr (by simp [HistoryScan.put, first])
      · exact .inl (Function.update_of_ne (Ne.symm first) _ _)

theorem updateHistory_live (live : rv.Live) {rt smp : Nat} (bare : rt ≠ exitingTaskMarker) :
    (call.updateHistory rv rt smp).Live := by
  unfold updateHistory
  split
  next => exact live
  next logged =>
    have pos : 0 < smp := by
      apply pos_of_ne_zero
      intro none
      exact logged (.inr (.inr (.inr none)))
    have notMarked := live.notExiting
    simp only [exitingTask, beq_eq_false_iff_ne] at notMarked
    constructor
    · simp only [exitingTask, beq_eq_false_iff_ne]
      have first := pushSamples_zero (shiftHistory call.settings.schedRavgHistSize smp rv.sumHistory)
        call.settings.schedRavgHistSize smp rt
      rw [shiftHistory_zero pos] at first
      cases first with
      | inl kept => rw [kept]; exact notMarked
      | inr push => rw [push]; exact bare
    · show 0 < exitingTaskMarker
      decide

theorem addToTaskDemand_live (lives : rv.exitingTask = false) (win : call.window < exitingTaskMarker)
    (delta : Nat) : (call.addToTaskDemand rv delta).Live := by
  refine ⟨lives, ?_⟩
  simp only [addToTaskDemand]
  split <;> omega

theorem updateHistory_exiting (exits : rv.exitingTask = true) (rt smp : Nat) : call.updateHistory rv rt smp = rv := by
  simp [updateHistory, exits]

theorem updateTaskDemand_exiting (exits : rv.exitingTask = true) : call.updateTaskDemand rv rq = rv := by
  simp [updateTaskDemand, accountBusyForTaskDemand, updateHistory_exiting, exits]

/-- No sample that can be recorded is the marker. -/
structure RavgUpdate.Unmarked (call : RavgUpdate) : Prop where
  window : call.window < exitingTaskMarker
  fullWindow : storeU32 (call.settings.scaleExecTime call.window) ≠ exitingTaskMarker

/-- What the two writers of the demand keep, `update_task_demand` keeps. -/
theorem updateTaskDemand_induction {P : Ravg → Prop} (history : ∀ rv rt smp, P rv →
      rt = rv.sum ∨ rt = storeU32 (call.settings.scaleExecTime call.window) →
      P (call.updateHistory rv rt smp)) (add : ∀ rv delta, P rv → P (call.addToTaskDemand rv delta)) (beg : P rv) :
    P (call.updateTaskDemand rv rq) := by
  unfold updateTaskDemand
  dsimp only
  split
  next =>
    split
    next => exact history _ _ _ beg (.inl rfl)
    next => exact beg
  next =>
    split
    next => exact add _ _ beg
    next =>
      -- up to the first boundary, the full windows, and the rest
      apply add
      split
      next => exact history _ _ _ (history _ _ _ (add _ _ beg) (.inl rfl)) (.inr rfl)
      next => exact history _ _ _ (add _ _ beg) (.inl rfl)

theorem updateTaskDemand_live (live : rv.Live) (bare : call.Unmarked) : (call.updateTaskDemand rv rq).Live := by
  refine updateTaskDemand_induction (fun o _ _ isLive sample => ?_) (fun o delta isLive => ?_) live
  · cases sample with
    | inl ofSum => exact updateHistory_live isLive (ofSum ▸ Nat.ne_of_lt isLive.sum)
    | inr ofWindow => exact updateHistory_live isLive (ofWindow ▸ bare.fullWindow)
  · exact addToTaskDemand_live isLive.notExiting bare.window delta

def Ravg.SameWindows (old new : Ravg) : Prop :=
  new.markStart = old.markStart ∧ new.currWindow = old.currWindow ∧ new.prevWindow = old.prevWindow

theorem updateHistory_sameWindows (call : RavgUpdate) (rv : Ravg) (rt smp : Nat) :
    rv.SameWindows (call.updateHistory rv rt smp) := by
  unfold updateHistory
  split <;> exact ⟨rfl, rfl, rfl⟩

theorem updateTaskDemand_sameWindows (call : RavgUpdate) (rv : Ravg) (rq : RunQueue T) :
    rv.SameWindows (call.updateTaskDemand rv rq) := by
  refine updateTaskDemand_induction (P := rv.SameWindows) (fun o rt smp eq _ => ?_)
    (fun o _ eq => eq) ⟨rfl, rfl, rfl⟩
  obtain ⟨mark, curr, prev⟩ := updateHistory_sameWindows call o rt smp
  exact ⟨mark.trans eq.1, curr.trans eq.2.1, prev.trans eq.2.2⟩

end Demand

/-! ## One update -/

/-- `next` starts the window that `time` is in, counted from `ws`. -/
structure StartsWindow (window time ws next : Nat) : Prop where
  ge : ws ≤ next
  le : next ≤ time
  lt : time < next + window
  aligned : next ≡ ws [MOD window]

theorem StartsWindow.eq {win time first snd next o : Nat} (one : StartsWindow win time first next)
    (two : StartsWindow win time snd o) (agree : first ≡ snd [MOD win]) : next = o := by
  have eq : next ≡ o [MOD win] := (one.aligned.trans agree).trans two.aligned.symm
  have first := one.le
  have snd := two.le
  have third := one.lt
  have fourth := two.lt
  apply eq.eq_of_abs_lt
  rw [abs_lt]
  omega

theorem startsWindow_div {win time ws : Nat} (pos : 0 < win) (past : ws ≤ time) :
    StartsWindow win time ws (ws + win * ((time - ws) / win)) := by
  have division := div_add_mod (time - ws) win
  have remainder := mod_lt (time - ws) pos
  exact ⟨by omega, by omega, by omega, by simp [Nat.ModEq]⟩

section Update

variable {call : RavgUpdate} {old new : Ravg} {rq post : RunQueue T}

/-- The counts of windows that the update stores in an `int` fit. -/
structure RavgUpdate.Fits (call : RavgUpdate) (old : Ravg) (rq : RunQueue T) : Prop where
  windows : (call.wallclock - rq.windowStart) / call.window < 2 ^ 31
  fullWindows : old.markStart = 0 ∨ (call.wallclock - old.markStart) / call.window < 2 ^ 31

theorem startsWindow_updateWindowStart (pos : 0 < call.window) (past : rq.windowStart ≤ call.wallclock)
    (cap : call.wallclock < 2 ^ 64) (few : (call.wallclock - rq.windowStart) / call.window < 2 ^ 31) :
    StartsWindow call.window call.wallclock rq.windowStart (call.updateWindowStart rq).windowStart := by
  unfold updateWindowStart
  dsimp only
  split
  next _ => exact ⟨le_refl _, past, by omega, rfl⟩
  next =>
    have delta : ((call.wallclock : Int) - rq.windowStart).toNat = call.wallclock - rq.windowStart := by
      rw [← Int.natCast_sub past, Int.toNat_natCast]
    rw [delta, storeInt_of_lt few, Int.mul_comm]
    have start := startsWindow_div pos past
    have fits := mod_eq_of_lt (lt_of_le_of_lt start.le cap)
    generalize _ / call.window = windows at start fits ⊢
    have beg : ((rq.windowStart + call.window * windows : Int) % 2 ^ 64).toNat =
        rq.windowStart + call.window * windows := by
      norm_cast
    rw [beg]
    exact start

theorem updateWindowStart_eq (call : RavgUpdate) (rq : RunQueue T) :
    ∃ ws, call.updateWindowStart rq = { rq with windowStart := ws } := by
  unfold updateWindowStart
  dsimp only
  split
  next => exact ⟨rq.windowStart, rfl⟩
  next => exact ⟨_, rfl⟩

@[simp] theorem updateTaskRavg_curr (call : RavgUpdate) (old : Ravg) (rq : RunQueue T) :
    (call.updateTaskRavg old rq).2.curr = rq.curr := by
  obtain ⟨_, sums⟩ := updateWindowStart_eq call rq
  unfold updateTaskRavg
  rw [sums]
  split
  next => rfl
  next => exact (busyFrame_updateCpuBusyTime _ _ _).curr

theorem Ravg.Live.of_history (live : old.Live) (history : new.sumHistory = old.sumHistory) (sum : new.sum = old.sum) :
    new.Live := by
  refine ⟨?_, sum ▸ live.sum⟩
  rw [← live.notExiting]
  simp [exitingTask, history]

/-- What a call of `update_task_ravg` does. -/
structure RavgChange (call : RavgUpdate) (old : Ravg) (rq : RunQueue T) (new : Ravg) (after : RunQueue T) :
    Prop where
  curr : after.curr = rq.curr
  start : StartsWindow call.window call.wallclock rq.windowStart after.windowStart
  mark : new.markStart = call.wallclock
  counts : call.counts new = call.counts old
  live : call.counts new = true → new.Live
  busy : old.markStart = 0 ∧ new.currWindow = old.currWindow ∧ new.prevWindow = old.prevWindow ∧
      after = { rq with windowStart := after.windowStart } ∨
    BusyChange call old { rq with windowStart := after.windowStart } new after

theorem BusyChange.of_sameWindows {demand : Ravg} (eq : old.SameWindows demand)
    (cs : call.counts demand = call.counts old) (chg : BusyChange call demand rq new post) :
    BusyChange call old rq new post := by
  obtain ⟨mark, cw, pw⟩ := eq
  cases chg with
  | added curr prev unrolled currSum ps currBound prevBound =>
    simp only [currAt, prevAt, mark, cw, pw, cs] at unrolled currBound prevBound
    exact .added curr prev unrolled currSum ps currBound prevBound
  | rolled prev isCurrTask older ps currBound prevBound =>
    simp only [prevAt, mark, cw, pw, cs] at older ps currBound prevBound
    exact .rolled prev isCurrTask older ps currBound prevBound

theorem counts_updateTaskDemand (bare : call.Unmarked) (live : call.counts old = true → old.Live) :
    call.counts (call.updateTaskDemand old rq) = call.counts old ∧
      (call.counts old = true → (call.updateTaskDemand old rq).Live) := by
  have kept := fun cs => @updateTaskDemand_live T call old rq (live cs) bare
  refine ⟨?_, kept⟩
  cases idle : call.idle with
  | true => simp [counts, idle]
  | false =>
    cases exits : old.exitingTask with
    | true => rw [updateTaskDemand_exiting exits]
    | false =>
      have cs : call.counts old = true := by simp [counts, idle, exits]
      simp [counts, exits, (kept cs).notExiting]

theorem ravgChange_updateTaskRavg (pos : 0 < call.window) (past : rq.windowStart ≤ call.wallclock)
    (cap : call.wallclock < 2 ^ 64) (fits : call.Fits old rq) (bare : call.Unmarked)
    (live : call.counts old = true → old.Live) :
    RavgChange call old rq (call.updateTaskRavg old rq).1 (call.updateTaskRavg old rq).2 := by
  have beg := startsWindow_updateWindowStart pos past cap fits.windows
  obtain ⟨ws, sums⟩ := updateWindowStart_eq call rq
  unfold updateTaskRavg
  rw [sums] at beg ⊢
  by_cases none : old.markStart = 0
  · simp only [none]
    exact ⟨rfl, beg, rfl, rfl, fun cs => (live cs).of_history rfl rfl, .inl ⟨none, rfl, rfl, rfl⟩⟩
  · have eq := updateTaskDemand_sameWindows call old { rq with windowStart := ws }
    have demand := @counts_updateTaskDemand T call old { rq with windowStart := ws } bare live
    have few : _ / call.window < 2 ^ 31 :=
      Nat.lt_of_le_of_lt (Nat.div_le_div_right (Nat.sub_le_sub_right beg.le _)) (fits.fullWindows.resolve_left none)
    simp only [none, if_false]
    generalize call.updateTaskDemand old { rq with windowStart := ws } = middle at eq demand ⊢
    rw [← eq.1] at few
    obtain ⟨history, sum, curr, start⟩ := busyFrame_updateCpuBusyTime call middle { rq with windowStart := ws }
    have chg := @busyChange_updateCpuBusyTime T call middle { rq with windowStart := ws } pos few
    generalize call.updateCpuBusyTime middle { rq with windowStart := ws } = updated at *
    have cs : call.counts updated.1 = call.counts old := by
      rw [← demand.1]
      simp [counts, exitingTask, history]
    refine ⟨curr, start ▸ beg, rfl, cs, fun tally => ?_, .inr ?_⟩
    · exact (demand.2 (cs ▸ tally)).of_history history sum
    · rw [start]
      cases chg.of_sameWindows eq demand.1 with
      | added currAdded prevAdded unrolled currSum ps cw pw =>
        exact .added currAdded prevAdded unrolled currSum ps cw pw
      | rolled prevAdded isCurrTask older ps cw pw =>
        exact .rolled prevAdded isCurrTask older ps cw pw

end Update

end Aosp.Kernel
