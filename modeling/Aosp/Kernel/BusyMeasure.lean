import Aosp.Kernel.BusyTimeRuns

/-! # Busy time as a measure

For one CPU that switches tasks, is updated, and takes interrupts while it is idle:
`curr_runnable_sum` and `prev_runnable_sum` are the lengths of the busy intervals within
the current and the previous window (`busy_time_of_window`).  An interrupt after a window
without any update is the exception (`irq_after_idle_windows`).
-/

namespace Aosp.Kernel

open Aosp.Lib RavgUpdate Nat
open Function (update update_of_ne update_self)

/-- How much of the interval lies between the two times. -/
def overlap (lo hi : Nat) (interval : Nat × Nat) : Nat := min interval.2 hi - max interval.1 lo

def busyTime (busy : List (Nat × Nat)) (lo hi : Nat) : Nat := (busy.map (overlap lo hi)).sum

theorem busyTime_over {busy : List (Nat × Nat)} {mark hi : Nat} (past : ∀ i ∈ busy, i.2 ≤ mark) (le : mark ≤ hi)
    (lo : Nat) : busyTime busy lo hi = busyTime busy lo mark := by
  refine congrArg List.sum (List.map_congr_left fun i mem => ?_)
  have := past i mem
  rw [overlap, overlap]
  omega

theorem busyTime_past {busy : List (Nat × Nat)} {lo : Nat} (past : ∀ i ∈ busy, i.2 ≤ lo) (hi : Nat) :
    busyTime busy lo hi = 0 := by
  rw [busyTime, List.sum_eq_zero_iff_forall_eq_nat, List.forall_mem_map]
  intro i mem
  have := past i mem
  rw [overlap]
  omega

/-! ## One update -/

/-- The highest frequency on the best CPU; a CPU that waits is not busy. -/
abbrev Settings.Unscaled (s : Settings) : Prop :=
  s.curFreq = s.maxPossibleFreq ∧ s.rqMaxPossibleFreq ≤ s.maxPossibleFreq ∧ 0 < s.maxPossibleFreq ∧
    s.maxPossibleFreq < 2 ^ 32 ∧ s.efficiency = s.maxPossibleEfficiency ∧ 0 < s.maxPossibleEfficiency ∧
    s.waitingOnIo = false ∧ s.schedFreqAccountWaitTime = false

theorem scaleExecTime_unscaled {s : Settings} (hu : s.Unscaled) {d : Nat} (small : d < 2 ^ 32) :
    s.scaleExecTime d = d := by
  obtain ⟨isMax, _, freq, cap, isBest, best, -, -⟩ := hu
  have up : ∀ {n f : Nat}, 0 < f → (n * f + f - 1) / f = n := fun {n f} pos => by
    rw [Nat.mul_comm, Nat.add_sub_assoc pos, Nat.mul_add_div pos, Nat.div_eq_of_lt (by omega), Nat.add_zero]
  have fits : d * s.maxPossibleFreq + s.maxPossibleFreq - 1 < 2 ^ 64 := by
    have := Nat.mul_le_mul (Nat.succ_le_of_lt small) cap.le
    rw [succ_mul] at this
    omega
  rw [Settings.scaleExecTime, isMax, isBest, if_neg (by omega), mod_eq_of_lt fits, up freq,
    mul_comm s.maxPossibleEfficiency, up best, mod_eq_of_lt (by omega)]
  omega

variable {T : Type} {call : RavgUpdate} {old : Ravg} {rq : RunQueue T} {busy : List (Nat × Nat)}

/-- When the time that an update of the current task accounts began. -/
def RavgUpdate.busyFrom (call : RavgUpdate) (mark : Nat) : Nat :=
  if call.idle then call.wallclock - call.irqtime else mark

structure RavgUpdate.OfCurr (call : RavgUpdate) (mark : Nat) : Prop where
  isCurrTask : call.isCurrTask = true
  event : call.event = .putPrevTask ∨ call.event = .taskUpdate ∨ call.event = .irqUpdate
  unscaled : call.settings.Unscaled
  size : call.window < 2 ^ 32
  past : mark ≤ call.wallclock
  irqtime : call.irqtime ≤ call.wallclock - mark
  tasks : call.idle = false → call.irqtime = 0

def Accounts (call : RavgUpdate) (mark : Nat) (rq post : RunQueue T) : Prop :=
  post.currRunnableSum = (if rq.windowStart ≤ mark then rq.currRunnableSum else 0) +
      overlap rq.windowStart call.wallclock (call.busyFrom mark, call.wallclock) ∧
    post.prevRunnableSum = (if rq.windowStart ≤ mark then rq.prevRunnableSum
        else if rq.windowStart - mark < call.window then rq.currRunnableSum else 0) +
      overlap (rq.windowStart - call.window) rq.windowStart (call.busyFrom mark, call.wallclock)

section

variable (ofCurr : call.OfCurr old.markStart) (lo : rq.windowStart ≤ call.wallclock)
  (up : call.wallclock < rq.windowStart + call.window)
include ofCurr lo up

theorem accountSameWindow_accounts (eq : rq.windowStart ≤ old.markStart) (irq : call.idle = true → call.irqtime ≠ 0) :
    Accounts call old.markStart rq (call.accountSameWindow old rq).2 := by
  obtain ⟨-, -, hu, _, _, _, tasks⟩ := ofCurr
  have noIo : call.settings.waitingOnIo = false := hu.2.2.2.2.2.2.1
  simp only [accountSameWindow, Accounts, eq, notIrqtime, noIo, busyFrom, overlap]
  rw [scaleExecTime_unscaled hu (by split <;> omega)]
  cases idle : call.idle with
  | false =>
    simp [tasks idle]
    omega
  | true =>
    simp [irq idle]
    omega

theorem accountCurrTask_accounts {rv : Ravg} {nfw : Int} (roll : old.markStart < rq.windowStart)
    (tk : call.idle = false) (mark : rv.markStart = old.markStart)
    (full : nfw = 0 ↔ rq.windowStart - old.markStart < call.window) :
    Accounts call old.markStart rq (call.accountCurrTask nfw rv rq).2 := by
  obtain ⟨-, -, hu, _, _, _, _⟩ := ofCurr
  have hi := scaleExecTime_unscaled hu (show call.wallclock - rq.windowStart < 2 ^ 32 by omega)
  simp only [accountCurrTask, Accounts, full, not_le.mpr roll, busyFrom, tk, overlap, hi]
  rw [scaleExecTime_unscaled hu (by split <;> omega)]
  simp
  split <;> omega

theorem accountIrqtime_accounts (roll : old.markStart < rq.windowStart) (idle : call.idle = true)
    (cap : call.wallclock < 2 ^ 64) (hr : rq.windowStart - old.markStart < call.window ∨ rq.currRunnableSum = 0) :
    Accounts call old.markStart rq (call.accountIrqtime rq) := by
  obtain ⟨-, -, hu, sz, _, _, _⟩ := ofCurr
  have sum : (if rq.windowStart - old.markStart < call.window then rq.currRunnableSum else 0) = rq.currRunnableSum := by
    split <;> omega
  simp only [accountIrqtime, Accounts, not_le.mpr roll, busyFrom, overlap, if_false]
  split
  next =>
    simp only [scaleExecTime_unscaled hu (show call.irqtime < 2 ^ 32 by omega)]
    omega
  next =>
    simp only [scaleExecTime_unscaled hu (show call.wallclock - rq.windowStart < 2 ^ 32 by omega),
      scaleExecTime_unscaled hu ((min_le_right _ _).trans_lt sz)]
    omega

theorem updateCpuBusyTime_accounts (cap : call.wallclock < 2 ^ 64) (pos : 0 < call.window)
    (few : (rq.windowStart - old.markStart) / call.window < 2 ^ 31)
    (hr : call.irqtime = 0 ∨ rq.windowStart - old.markStart < call.window ∨ rq.currRunnableSum = 0) :
    Accounts call old.markStart rq (call.updateCpuBusyTime old rq).2 := by
  have full := nrFullWindows_eq_zero_iff pos few
  have noIo : call.settings.waitingOnIo = false := ofCurr.unscaled.2.2.2.2.2.2.1
  have ha : call.accountBusyForCpuTime = !(call.idle && call.irqtime == 0) := by
    rw [accountBusyForCpuTime]
    rcases ofCurr.event with is | is | is <;> cases call.idle <;> simp [is, noIo, bne]
  have irq : call.notIrqtime = (call.irqtime == 0 || !call.idle) := by simp [notIrqtime, noIo]
  rw [updateCpuBusyTime, ha, ofCurr.isCurrTask, irq]
  by_cases roll : old.markStart < rq.windowStart
  · simp only [roll, decide_true, Bool.true_and, if_true]
    generalize storeInt _ = nfw at *
    have mark : (if (!call.idle && !old.exitingTask) = true then old.rollOver nfw else old).markStart =
      old.markStart := by
      split <;> rfl
    generalize (if (!call.idle && !old.exitingTask) = true then old.rollOver nfw else old) = ravg at *
    cases idle : call.idle with
    | false =>
      simpa using accountCurrTask_accounts ofCurr lo up roll idle mark full
    | true =>
      by_cases none : call.irqtime = 0
      · simp [none, Accounts, full, busyFrom, idle, overlap, roll]
      · simpa [none] using accountIrqtime_accounts ofCurr lo up roll idle cap (hr.resolve_left none)
  · have eq := not_lt.mp roll
    simp only [roll, decide_false, if_true]
    split
    next same =>
      obtain ⟨idle, none⟩ : call.idle = true ∧ call.irqtime = 0 := by simpa using same
      simp [idle, none, Accounts, eq, busyFrom, overlap]
    next takes => exact accountSameWindow_accounts ofCurr lo up eq fun idle => by simpa [idle] using takes

end

/-! ## The account of busy intervals -/

structure Measures (window mark : Nat) (rq : RunQueue T) (busy : List (Nat × Nat)) : Prop where
  pos : 0 < rq.windowStart
  starts : StartsWindow window mark rq.windowStart rq.windowStart
  ended : ∀ i ∈ busy, i.2 ≤ mark
  curr : rq.currRunnableSum = busyTime busy rq.windowStart mark
  prev : rq.prevRunnableSum = busyTime busy (rq.windowStart - window) rq.windowStart

variable {post : RunQueue T} {mark : Nat}

theorem Measures.of_accounts (measures : Measures call.window mark rq busy) (past : mark ≤ call.wallclock)
    (beg : StartsWindow call.window call.wallclock rq.windowStart post.windowStart)
    (ha : Accounts call mark { rq with windowStart := post.windowStart } post) :
    Measures call.window call.wallclock post ((call.busyFrom mark, call.wallclock) :: busy) := by
  obtain ⟨pos, ⟨-, _, _, -⟩, ended, curr, prev⟩ := measures
  obtain ⟨ge, le, lt, agree⟩ := beg
  have eq : post.windowStart ≤ mark → post.windowStart = rq.windowStart := fun fits =>
    agree.eq_of_abs_lt (by rw [abs_lt]; omega)
  refine ⟨pos.trans_le ge, ⟨le_rfl, le, lt, rfl⟩, ?_, ?_, ?_⟩
  · rintro i (_ | ⟨_, mem⟩)
    · exact le_rfl
    · exact (ended i mem).trans past
  · rw [ha.1, add_comm, busyTime, List.map_cons, List.sum_cons, ← busyTime]
    dsimp only
    split
    next fits => rw [eq fits, busyTime_over ended past, curr]
    next late => rw [busyTime_past fun i mem => (ended i mem).trans (by omega)]
  · rw [ha.2, add_comm, busyTime, List.map_cons, List.sum_cons, ← busyTime]
    dsimp only
    split
    next fits => rw [eq fits, prev]
    next late =>
      split
      next _ =>
        have next : post.windowStart = rq.windowStart + call.window := by
          have : post.windowStart ≡ rq.windowStart + call.window [MOD call.window] := by simpa using agree
          exact this.eq_of_abs_lt (by rw [abs_lt]; omega)
        rw [next, Nat.add_sub_cancel, busyTime_over ended (by omega), curr]
      next => rw [busyTime_past fun i mem => (ended i mem).trans (by omega)]

theorem Measures.update (measures : Measures call.window old.markStart rq busy) (ofCurr : call.OfCurr old.markStart)
    (cap : call.wallclock < 2 ^ 64) (few : (call.wallclock - rq.windowStart) / call.window < 2 ^ 31)
    (hr : call.irqtime = 0 ∨ call.wallclock < rq.windowStart + 2 * call.window ∨ rq.currRunnableSum = 0) :
    Measures call.window call.wallclock (call.updateTaskRavg old rq).2
      ((call.busyFrom old.markStart, call.wallclock) :: busy) := by
  have pos := measures.pos
  obtain ⟨-, lo, up, -⟩ := measures.starts
  have beg := startsWindow_updateWindowStart (by omega) (lo.trans ofCurr.past) cap few
  obtain ⟨ws, sums⟩ := updateWindowStart_eq call rq
  have mark := (updateTaskDemand_sameWindows call old { rq with windowStart := ws }).1
  rw [sums] at beg
  dsimp only at beg
  rw [updateTaskRavg, sums, if_neg (by omega)]
  generalize call.updateTaskDemand old { rq with windowStart := ws } = dm at mark ⊢
  rw [← mark] at measures ofCurr lo up ⊢
  have fr : (call.updateCpuBusyTime dm { rq with windowStart := ws }).2.windowStart = ws :=
    (busyFrame_updateCpuBusyTime _ _ _).windowStart
  refine measures.of_accounts ofCurr.past (by rw [fr]; exact beg) ?_
  rw [fr]
  refine updateCpuBusyTime_accounts ofCurr beg.le beg.lt cap (by omega) ?_ ?_
  · exact (Nat.div_le_div_right (tsub_le_tsub beg.le lo)).trans_lt few
  · refine hr.imp_right fun hr => or_iff_not_imp_left.mpr fun long => hr.elim (fun _ => ?_) id
    have next : ws = rq.windowStart + call.window := by
      have agree : ws ≡ rq.windowStart + call.window [MOD call.window] := by simpa using beg.aligned
      have le := beg.le
      exact agree.eq_of_abs_lt (by rw [abs_lt]; dsimp only at long; omega)
    -- the last update was at the very start of its window
    have first : dm.markStart ≤ rq.windowStart := by
      dsimp only at long
      omega
    exact measures.curr.trans (busyTime_past (fun i mem => (measures.ended i mem).trans first) _)

/-! ## Runs of one CPU -/

namespace SchedState

variable {C : Type} [DecidableEq C] [DecidableEq T] (isIdle : T → Bool) (cpu : C)

def irqtimeOf : SchedEvent C T → Nat
  | .schedAccountIrqtime _ irqtime => irqtime
  | _ => 0

section

variable (s : SchedState C T) (lb : SchedLabel C T)

/-- A task runs since the last label, or the CPU is idle but for the time in interrupts. -/
def busyInterval : Nat × Nat :=
  (if isIdle (s.rq cpu).curr then lb.wallclock - irqtimeOf lb.event else s.clock, lb.wallclock)

/-- The CPU switches tasks, is updated, or takes interrupts while it is idle. -/
abbrev OnCpu : Prop :=
  (lb.settings cpu).Unscaled ∧ (match lb.event with
    | .schedule c _ _ | .taskUpdate c => decide (c = cpu)
    | .schedAccountIrqtime c irqtime =>
      decide (c = cpu ∧ isIdle (s.rq cpu).curr = true ∧ irqtime ≤ lb.wallclock - s.clock)
    | _ => false) = true

/-- Interrupts after a window without any update find no busy time before it, and the
    number of windows fits in an `int`. -/
abbrev Timely : Prop :=
  (lb.wallclock - (s.rq cpu).windowStart) / s.schedRavgWindow < 2 ^ 31 ∧
    (irqtimeOf lb.event = 0 ∨ lb.wallclock < (s.rq cpu).windowStart + 2 * s.schedRavgWindow ∨
      (s.rq cpu).currRunnableSum = 0)

end

def busyStep (s : SchedState C T × List (Nat × Nat)) (lb : SchedLabel C T) :
    Option (SchedState C T × List (Nat × Nat)) :=
  (s.1.step isIdle lb).map fun next => (next, s.1.busyInterval isIdle cpu lb :: s.2)

def TimelyStep (p : SchedState C T × List (Nat × Nat)) (lb : SchedLabel C T)
    (q : SchedState C T × List (Nat × Nat)) : Prop :=
  (p.1.OnCpu isIdle cpu lb ∧ p.1.Timely cpu lb) ∧ busyStep isIdle cpu p lb = some q

/-- The current task was accounted at `mark`, and it is `time`. -/
structure Measured (time mark : Nat) (s : SchedState C T) (busy : List (Nat × Nat)) : Prop where
  phase : s.phase = .enabled
  size : s.schedRavgWindow < 2 ^ 32
  clock : s.clock = time
  isMark : s.mark cpu = mark
  sums : Measures s.schedRavgWindow mark (s.rq cpu) busy

variable {cpu} {s next : SchedState C T} {conf : C → Settings} {ev : TaskEvent} {irq time : Nat}

theorem Measured.written (hm : Measured cpu time mark s busy) (tk : T) (ev : TaskEvent) (irq : Nat) :
    s.updateTaskRavg isIdle conf tk cpu ev irq = s.written tk cpu
      ((s.ravgUpdate isIdle conf tk cpu ev irq).updateTaskRavg (s.ravg tk) (s.rq cpu)).1
      ((s.ravgUpdate isIdle conf tk cpu ev irq).updateTaskRavg (s.ravg tk) (s.rq cpu)).2 := by
  simp [SchedState.updateTaskRavg, SchedState.written, hm.phase, ne_of_gt hm.sums.pos]

theorem Measured.updateCurr (hm : Measured cpu time mark s busy) (past : mark ≤ time) (cap : time < 2 ^ 64)
    (hu : (conf cpu).Unscaled) (event : ev = .putPrevTask ∨ ev = .taskUpdate ∨ ev = .irqUpdate)
    (hi : irq ≤ time - mark) (tasks : isIdle (s.rq cpu).curr = false → irq = 0)
    (few : (time - (s.rq cpu).windowStart) / s.schedRavgWindow < 2 ^ 31)
    (hr : irq = 0 ∨ time < (s.rq cpu).windowStart + 2 * s.schedRavgWindow ∨ (s.rq cpu).currRunnableSum = 0) :
    Measured cpu time time (s.updateCurr isIdle conf cpu ev irq)
      ((if isIdle (s.rq cpu).curr then time - irq else mark, time) :: busy) := by
  rw [SchedState.updateCurr, hm.written]
  obtain ⟨ph, sz, rfl, rfl, measures⟩ := hm
  refine ⟨ph, sz, rfl, ?_, ?_⟩
  · rw [SchedState.mark, written_rq, update_self, Kernel.updateTaskRavg_curr, written_ravg, update_self]
    rfl
  · rw [written_rq, update_self]
    exact @Measures.update T (s.ravgUpdate isIdle conf (s.rq cpu).curr cpu ev irq) _ _ _ measures
      ⟨decide_eq_true rfl, event, hu, sz, past, hi, tasks⟩ cap few hr

theorem Measured.pickNext (hm : Measured cpu time time s busy)
    (wait : (conf cpu).schedFreqAccountWaitTime = false) (next : T) :
    Measured cpu time time ((s.updateTaskRavg isIdle conf next cpu .pickNextTask 0).setCurr cpu next) busy := by
  rw [hm.written]
  obtain ⟨ph, sz, rfl, mark, measures⟩ := hm
  obtain ⟨-, lo, _, -⟩ := measures.starts
  have kept : ((s.ravgUpdate isIdle conf next cpu .pickNextTask 0).updateTaskRavg (s.ravg next) (s.rq cpu)).2 =
      s.rq cpu := by
    have eq : (s.ravgUpdate isIdle conf next cpu .pickNextTask 0).updateWindowStart _ = s.rq cpu :=
      if_pos (by simp; omega)
    rw [RavgUpdate.updateTaskRavg, eq]
    split
    next => rfl
    next =>
      have dm := (updateTaskDemand_sameWindows (s.ravgUpdate isIdle conf next cpu .pickNextTask 0) (s.ravg next)
        (s.rq cpu)).1
      have same : (s.ravgUpdate isIdle conf next cpu .pickNextTask 0).accountBusyForCpuTime = false := by
        simp [accountBusyForCpuTime, ravgUpdate, wait]
      rw [updateCpuBusyTime, if_pos same]
      split
      next => rfl
      next notWorking =>
        split
        next tally =>
          obtain rfl : next = (s.rq cpu).curr := of_decide_eq_true tally
          rw [SchedState.mark, ← dm] at mark
          simp [mark, lo] at notWorking
        next => simp [heavyTaskWakeup, ravgUpdate]
  rw [kept]
  refine ⟨ph, sz, rfl, by simp [SchedState.mark, RavgUpdate.updateTaskRavg], ?_⟩
  simp only [setCurr_rq, written_rq, update_self]
  exact ⟨measures.1, measures.2, measures.3, measures.4, measures.5⟩

theorem Measured.step {lab : SchedLabel C T} (hm : Measured cpu s.clock s.clock s busy)
    (onCpu : s.OnCpu isIdle cpu lab) (timely : s.Timely cpu lab) (ht : s.step isIdle lab = some next) :
    Measured cpu lab.wallclock lab.wallclock next (s.busyInterval isIdle cpu lab :: busy) := by
  obtain ⟨clock, ran⟩ := Option.ite_none_right_eq_some.mp ht
  obtain ⟨ev, wallclock, _⟩ := lab
  obtain ⟨hu, onCpu⟩ := onCpu
  replace hm : Measured cpu wallclock s.clock { s with clock := wallclock } busy :=
    ⟨hm.1, hm.2, rfl, hm.4, hm.5⟩
  cases ev with
  | schedule c tk _ =>
    obtain rfl : c = cpu := of_decide_eq_true onCpu
    obtain ⟨-, ran⟩ := Option.ite_none_right_eq_some.mp ran
    have put := hm.updateCurr isIdle clock.1 clock.2 hu (.inl rfl) (zero_le _) (fun _ => rfl) timely.1
      (.inl rfl)
    have swap := put.pickNext isIdle hu.2.2.2.2.2.2.2 tk
    cases ran
    split
    · exact ⟨swap.1, swap.2, swap.3, swap.4, swap.5⟩
    · exact swap
  | taskUpdate c =>
    obtain rfl : c = cpu := of_decide_eq_true onCpu
    cases ran
    exact hm.updateCurr isIdle clock.1 clock.2 hu (.inr (.inl rfl)) (zero_le _) (fun _ => rfl)
      timely.1 (.inl rfl)
  | schedAccountIrqtime c _ =>
    obtain ⟨rfl, idle, hi⟩ := of_decide_eq_true onCpu
    rw [SchedState.take, if_pos idle] at ran
    cases ran
    exact hm.updateCurr isIdle clock.1 clock.2 hu (.inr (.inr rfl)) hi (fun tk => by simp [idle] at tk)
      timely.1 timely.2
  | _ => cases onCpu

/-- The sums are the time that tasks or interrupts took of the current window so far, and
    of the previous one. -/
theorem busy_time_of_window {first : SchedState C T} (beg : Measured cpu first.clock first.clock first [])
    (met : Reachable (TimelyStep isIdle cpu) (first, []) (s, busy)) :
    (s.rq cpu).currRunnableSum = busyTime busy (s.rq cpu).windowStart s.clock ∧ (s.rq cpu).prevRunnableSum =
        busyTime busy ((s.rq cpu).windowStart - s.schedRavgWindow) (s.rq cpu).windowStart := by
  suffices hm : Measured cpu s.clock s.clock s busy from ⟨hm.sums.curr, hm.sums.prev⟩
  refine met.invariant (P := fun p => Measured cpu p.1.clock p.1.clock p.1 p.2) beg fun p _ q hm ht => ?_
  obtain ⟨_, stored, rfl⟩ := Option.map_eq_some_iff.mp ht.2
  have kept := hm.step isIdle ht.1.1 ht.1.2 stored
  rwa [← kept.clock] at kept

/-- A worker goes to sleep in the second window, and an interrupt comes in the third. -/
theorem busy_time_of_window_irq :
    ∃ s busy, Reachable (TimelyStep twoIdle false) (twoCpus, []) (s, busy) ∧ (s.rq false).prevRunnableSum = 2000000 ∧
      busyTime busy ((s.rq false).windowStart - s.schedRavgWindow) (s.rq false).windowStart = 2000000 := by
  have ran : (runLabels (fun p lab => p.1.OnCpu twoIdle false lab ∧ p.1.Timely false lab) (busyStep twoIdle false)
      (twoCpus, []) [atTime 15000000 (.taskUpdate false), atTime 22000000 (.schedule false 0 true),
        atTime 35000000 (.schedAccountIrqtime false 1000000)]).any
      (fun p => (p.1.rq false).prevRunnableSum = 2000000) = true := by
    decide +kernel
  obtain ⟨⟨s, busy⟩, hf, sum⟩ := (Option.any_eq_true _ _).mp ran
  have beg : Measured false twoCpus.clock twoCpus.clock twoCpus [] :=
    ⟨rfl, by decide, rfl, rfl, by decide, ⟨le_rfl, by decide, by decide, rfl⟩, by simp, rfl, rfl⟩
  have met : Reachable _ _ _ := ⟨_, run_of_runLabels hf⟩
  have sums := busy_time_of_window twoIdle beg met
  exact ⟨s, busy, met, of_decide_eq_true sum, sums.2.symm.trans (of_decide_eq_true sum)⟩

/-- The worker's half window is three windows old, and is said to be that of the last one. -/
theorem irq_after_idle_windows :
    ∃ s busy, Reachable (fun p lab q => p.1.OnCpu twoIdle false lab ∧ busyStep twoIdle false p lab = some q)
        (twoCpus, []) (s, busy) ∧ (s.rq false).prevRunnableSum = 5000000 ∧
      busyTime busy ((s.rq false).windowStart - s.schedRavgWindow) (s.rq false).windowStart = 0 := by
  have ran : (runLabels (fun p lab => p.1.OnCpu twoIdle false lab) (busyStep twoIdle false) (twoCpus, [])
      [atTime 15000000 (.schedule false 0 true), atTime 45000000 (.schedAccountIrqtime false 1000000)]).any
      (fun p => (p.1.rq false).prevRunnableSum = 5000000 ∧
        busyTime p.2 ((p.1.rq false).windowStart - p.1.schedRavgWindow) (p.1.rq false).windowStart = 0) = true := by
    decide +kernel
  obtain ⟨⟨s, busy⟩, hf, facts⟩ := (Option.any_eq_true _ _).mp ran
  exact ⟨s, busy, ⟨_, run_of_runLabels hf⟩, of_decide_eq_true facts⟩

end SchedState

end Aosp.Kernel
