import Aosp.Kernel.KthreadWorker
import Mathlib.Data.List.Nodup

/-! # What a kernel worker guarantees

`ListInv` is the accounting of the list: the calls that have queued a work are
the executions so far followed by the works in the list.  `FlushInv` says of a
flush that waits how many executions lie before its own work in the list; taking
a work, or putting another flush in front, does not change that number, so it
has come true when the worker reaches the flush.

Together they give the order of the executions and what a flush waits for, in
every run.
-/

namespace Aosp.Kernel

open Aosp.Lib List
open Function (update_of_ne update_self)

section

variable {W : Type}

def works (l : List (KthreadWork W)) : List W :=
  l.filterMap fun
    | .work work => some work
    | .flush _ => none

theorem mem_works {l : List (KthreadWork W)} {work : W} : work ∈ works l ↔ .work work ∈ l := by
  constructor
  · intro mem
    obtain ⟨hf, found, isWork⟩ := mem_filterMap.mp mem
    cases hf with
    | work o =>
      cases isWork
      exact found
    | flush c => cases isWork
  · intro mem
    exact mem_filterMap.mpr ⟨_, mem, rfl⟩

@[simp] theorem works_append (ft back : List (KthreadWork W)) : works (ft ++ back) = works ft ++ works back :=
  filterMap_append

@[simp] theorem works_nil : works ([] : List (KthreadWork W)) = [] := rfl

@[simp] theorem works_cons_work (work : W) (tl : List (KthreadWork W)) :
    works (.work work :: tl) = work :: works tl := rfl

@[simp] theorem works_cons_flush (c : Nat) (tl : List (KthreadWork W)) : works (.flush c :: tl) = works tl := rfl

section Logs

variable (log more : List (WorkerEvent W)) (ev : WorkerEvent W)

@[simp] theorem queuedWorks_append : queuedWorks (log ++ more) = queuedWorks log ++ queuedWorks more :=
  filterMap_append

@[simp] theorem startedWorks_append : startedWorks (log ++ more) = startedWorks log ++ startedWorks more :=
  filterMap_append

@[simp] theorem finishedWorks_append : finishedWorks (log ++ more) = finishedWorks log ++ finishedWorks more :=
  filterMap_append

@[simp] theorem queuedWorks_singleton :
    queuedWorks [ev] = match ev with
      | .queued work => [work]
      | _ => [] := by
  cases ev <;> rfl

@[simp] theorem startedWorks_singleton :
    startedWorks [ev] = match ev with
      | .started work => [work]
      | _ => [] := by
  cases ev <;> rfl

@[simp] theorem finishedWorks_singleton :
    finishedWorks [ev] = match ev with
      | .finished work => [work]
      | _ => [] := by
  cases ev <;> rfl

end Logs

/-- How many executions lie before the work of the flush in the list. -/
def ahead (c : Nat) (l : List (KthreadWork W)) : Nat :=
  (works (l.takeWhile fun
    | .work _ => true
    | .flush o => o ≠ c)).length

section Ahead

variable {c o : Nat} {work : W} {ft back l : List (KthreadWork W)}

@[simp] theorem ahead_cons_work : ahead c (.work work :: l) = ahead c l + 1 := by
  simp [ahead]

@[simp] theorem ahead_cons_self : ahead c (.flush c :: l) = 0 := by
  simp [ahead]

theorem ahead_cons_other (ne : o ≠ c) : ahead c (.flush o :: l) = ahead c l := by
  simp [ahead, ne]

theorem ahead_append_of_mem (mem : .flush c ∈ ft) : ahead c (ft ++ back) = ahead c ft := by
  induction ft with
  | nil => cases mem
  | cons first tl ih =>
    cases first with
    | work work => simpa using ih (by simpa using mem)
    | flush hf =>
      by_cases eq : hf = c
      · simp [eq]
      · rw [cons_append, ahead_cons_other eq, ahead_cons_other eq]
        exact ih (by simpa [Ne.symm eq] using mem)

theorem ahead_append_self (ha : .flush c ∉ ft) : ahead c (ft ++ .flush c :: back) = (works ft).length := by
  induction ft with
  | nil => simp [works]
  | cons first tl ih =>
    rw [mem_cons, not_or] at ha
    cases first with
    | work work => simpa using ih ha.2
    | flush hf =>
      have ne : hf ≠ c := fun eq => ha.1 (by rw [eq])
      rw [cons_append, ahead_cons_other ne]
      exact ih ha.2

theorem ahead_insert (ne : o ≠ c) : ahead c (ft ++ .flush o :: back) = ahead c (ft ++ back) := by
  induction ft with
  | nil => exact ahead_cons_other ne
  | cons first tl ih =>
    cases first with
    | work work => simpa using ih
    | flush hf =>
      by_cases eq : hf = c
      · simp [eq]
      · rw [cons_append, ahead_cons_other eq, cons_append, ahead_cons_other eq]
        exact ih

end Ahead

/-! ## The invariant -/

attribute [simp] KthreadWorker.record KthreadWorker.insertKthreadWork KthreadWorker.setFlush

structure ListInv (wk : KthreadWorker W) : Prop where
  fifo : queuedWorks wk.log = startedWorks wk.log ++ works wk.workList
  nodup : wk.workList.Nodup
  /-- The works executed so far are finished, but for the one that the worker is in. -/
  executing : ∀ work, wk.phase = .working (.work work) →
    startedWorks wk.log = finishedWorks wk.log ++ [work] ∧ wk.currentWork = some (.work work)
  between : (∀ work, wk.phase ≠ .working (.work work)) → startedWorks wk.log = finishedWorks wk.log
  known : ∀ work ∈ queuedWorks wk.log, wk.hasWorker work = true
  /-- A worker that has found the list empty is woken up by whoever puts a work into it. -/
  awake : wk.phase = .idle → wk.workList ≠ [] → wk.taskRunning = true

/-- The first `count` executions are all that the flush has to wait for. -/
def Covers (log : List (WorkerEvent W)) (flush : FlushCall W) (count : Nat) : Prop :=
  ∀ n work, n < flush.queuedBefore → (queuedWorks log)[n]? = some work →
    flush.target = none ∨ flush.target = some work → n < count

structure Untouched (wk : KthreadWorker W) (c : Nat) : Prop where
  notListed : .flush c ∉ wk.workList
  notTaken : wk.phase ≠ .working (.flush c)
  notDone : wk.done c = false

structure FlushInv (wk : KthreadWorker W) : Prop where
  early : ∀ c, (∀ flush, wk.flushes c = some flush → flush.phase = .begun ∨ flush.phase = .locking) → Untouched wk c
  gone : ∀ c, wk.done c = true ∨ wk.phase = .working (.flush c) → .flush c ∉ wk.workList
  bounded : ∀ c flush, wk.flushes c = some flush → flush.queuedBefore ≤ (queuedWorks wk.log).length
  listed : ∀ c flush, wk.flushes c = some flush → flush.phase = .waiting → .flush c ∈ wk.workList →
    Covers wk.log flush ((startedWorks wk.log).length + ahead c wk.workList)
  passed : ∀ c flush, wk.flushes c = some flush → flush.phase = .waiting → .flush c ∉ wk.workList →
    Covers wk.log flush (finishedWorks wk.log).length
  began : EachAfter (fun pre ent => ∀ c tg, ent = .flushBegan c tg →
    ∃ flush, wk.flushes c = some flush ∧ flush.target = tg ∧ flush.queuedBefore = (queuedWorks pre).length) wk.log

def FlushDone (pre : List (WorkerEvent W)) (ent : WorkerEvent W) : Prop :=
  ∀ c, ent = .flushReturned c → ∀ early tg late, pre = early ++ .flushBegan c tg :: late →
    ∀ n work, (queuedWorks early)[n]? = some work → tg = none ∨ tg = some work → n < (finishedWorks pre).length

variable {wk next : KthreadWorker W} {c : Nat} {flush : FlushCall W}

/-- A step that leaves the worker's own data as they are. -/
theorem ListInv.of_same (inv : ListInv wk) (hq : queuedWorks next.log = queuedWorks wk.log)
    (start : startedWorks next.log = startedWorks wk.log)
    (done : finishedWorks next.log = finishedWorks wk.log) (l : next.workList = wk.workList)
    (ph : next.phase = wk.phase) (cur : next.currentWork = wk.currentWork)
    (ptrs : next.hasWorker = wk.hasWorker) (tk : wk.taskRunning = true → next.taskRunning = true) : ListInv next where
  fifo := by rw [hq, start, l]; exact inv.fifo
  nodup := by rw [l]; exact inv.nodup
  executing := by rw [start, done, ph, cur]; exact inv.executing
  between := by rw [start, done, ph]; exact inv.between
  known := by rw [hq, ptrs]; exact inv.known
  awake := by rw [ph, l]; exact fun idle ne => tk (inv.awake idle ne)

theorem ListInv.setPhase (inv : ListInv wk) (pre : ∀ work, wk.phase ≠ .working (.work work))
    (post : ∀ work, next.phase ≠ .working (.work work)) (log : next.log = wk.log)
    (l : next.workList = wk.workList) (ptrs : next.hasWorker = wk.hasWorker)
    (emp : next.phase = .idle → wk.workList = []) : ListInv next where
  fifo := by rw [log, l]; exact inv.fifo
  nodup := by rw [l]; exact inv.nodup
  executing := fun work phase => absurd phase (post work)
  between := fun _ => by rw [log]; exact inv.between pre
  known := by rw [log, ptrs]; exact inv.known
  awake := fun idle ne => absurd (l.trans (emp idle)) ne

/-- Where a flush puts its work, and that nothing it waits for is behind that place. -/
theorem FlushInsert.shape {workList : List (KthreadWork W)} (adds : FlushInsert wk c flush workList)
    (nodup : wk.workList.Nodup) :
    ∃ ft back, workList = ft ++ .flush c :: back ∧ wk.workList = ft ++ back ∧
      ∀ work, flush.target = none ∨ flush.target = some work → work ∉ works back := by
  cases adds with
  | after tg list first =>
    rename_i work ft back
    refine ⟨ft ++ [.work work], back, by simp, by simp [list], ?_⟩
    rintro o goal mem
    simp only [tg, reduceCtorEq, Option.some.injEq, false_or] at goal
    subst goal
    rw [list, nodup_middle, nodup_cons] at nodup
    exact nodup.1 (mem_append_right _ (mem_works.mp mem))
  | front tg cur ha =>
    refine ⟨[], wk.workList, rfl, rfl, ?_⟩
    rintro o goal mem
    simp only [tg, reduceCtorEq, Option.some.injEq, false_or] at goal
    subst goal
    exact ha (mem_works.mp mem)
  | tail tg => exact ⟨wk.workList, [], rfl, by simp, by simp⟩

/-- A flush that is about to put its work into the list. -/
theorem FlushInv.untouched (inv : FlushInv wk) (isFlush : wk.flushes c = some flush)
    (pre : flush.phase = .begun ∨ flush.phase = .locking) : Untouched wk c := by
  refine inv.early c fun o other => ?_
  cases isFlush.symm.trans other
  exact pre

/-! ## What a flush waits for -/

theorem Covers.mono {log : List (WorkerEvent W)} {cnt more : Nat} (cover : Covers log flush cnt)
    (larger : cnt ≤ more) : Covers log flush more :=
  fun n work pre isWork tg => Nat.lt_of_lt_of_le (cover n work pre isWork tg) larger

theorem Covers.append {log : List (WorkerEvent W)} {cnt : Nat} (cover : Covers log flush cnt)
    (cap : flush.queuedBefore ≤ (queuedWorks log).length) (more : List (WorkerEvent W)) :
    Covers (log ++ more) flush cnt := by
  intro n work pre isWork tg
  rw [queuedWorks_append, List.getElem?_append_left (Nat.lt_of_lt_of_le pre cap)] at isWork
  exact cover n work pre isWork tg

theorem lt_length_of_not_mem {ft back : List W} {n : Nat} {work : W} (hf : (ft ++ back)[n]? = some work)
    (ha : work ∉ back) : n < ft.length := by
  by_contra beyond
  rw [List.getElem?_append_right (Nat.le_of_not_lt beyond)] at hf
  exact ha (mem_of_getElem? hf)

theorem ListInv.covers_insert (inv : ListInv wk) {ft back : List (KthreadWork W)} (list : wk.workList = ft ++ back)
    (behind : ∀ work, flush.target = none ∨ flush.target = some work → work ∉ works back) :
    Covers wk.log flush ((startedWorks wk.log).length + (works ft).length) := by
  intro n work pre isWork tg
  rw [inv.fifo, list, works_append, ← append_assoc] at isWork
  rw [← length_append]
  exact lt_length_of_not_mem isWork (behind work tg)

theorem FlushReturn.covers (may : FlushReturn wk c flush) (l : ListInv wk) (inv : FlushInv wk)
    (isFlush : wk.flushes c = some flush) : Covers wk.log flush (finishedWorks wk.log).length := by
  cases may with
  | unused tg unset =>
    rename_i work
    intro n o pre isWork goal
    simp only [tg, reduceCtorEq, Option.some.injEq, false_or] at goal
    subst goal
    have set := l.known work (mem_of_getElem? isWork)
    rw [unset] at set
    cases set
  | noop tg ha other =>
    intro n o pre isWork goal
    simp only [tg, reduceCtorEq, Option.some.injEq, false_or] at goal
    subst goal
    rw [l.fifo] at isWork
    have start := lt_length_of_not_mem isWork fun mem => ha (mem_works.mp mem)
    -- the work in execution, if there is one, is another one
    by_cases busy : ∃ worker, wk.phase = .working (.work worker)
    · obtain ⟨worker, phase⟩ := busy
      obtain ⟨isStarted, isCurrent⟩ := l.executing worker phase
      rw [List.getElem?_append_left start, isStarted] at isWork
      refine lt_length_of_not_mem isWork fun mem => other ?_
      rw [mem_singleton.mp mem]
      exact isCurrent
    · rw [← l.between fun worker phase => busy ⟨worker, phase⟩]
      exact start
  | completed waited done => exact inv.passed c flush isFlush waited (inv.gone c (.inl done))

/-! ## Each step -/

variable [DecidableEq W]

theorem ListInv.move (inv : ListInv wk) (move : WorkerMove wk next)
    (untouched : ∀ c flush, wk.flushes c = some flush → flush.phase = .begun ∨ flush.phase = .locking →
      .flush c ∉ wk.workList) : ListInv next := by
  cases move with
  | refuse => exact inv
  | beginFlush | returnFlush => exact inv.of_same (by simp) (by simp) (by simp) rfl rfl rfl rfl id
  | readWorker isFlush pre => exact inv.of_same rfl rfl rfl rfl rfl rfl rfl id
  | wake => exact inv.of_same rfl rfl rfl rfl rfl rfl rfl fun _ => rfl
  | queue ha =>
    rename_i work
    refine ⟨by simp [inv.fifo], ?_, by simpa using inv.executing, by simpa using inv.between, ?_, ?_⟩
    · exact (perm_append_singleton _ _).nodup_iff.mpr (nodup_cons.mpr ⟨ha, inv.nodup⟩)
    · intro o mem
      simp only [KthreadWorker.record, queuedWorks_append, queuedWorks_singleton, mem_append, mem_singleton] at mem ⊢
      by_cases eq : o = work
      · rw [eq, update_self]
      · rw [update_of_ne eq]
        exact inv.known o (mem.resolve_right eq)
    · intro idle _
      have isIdle : wk.phase = .idle := idle
      simp [isIdle]
  | insert isFlush pre adds =>
    -- a flush comes in between, and the works keep their order
    obtain ⟨ft, back, rfl, list, -⟩ := adds.shape inv.nodup
    have ha := untouched _ _ isFlush pre
    refine ⟨by simpa [list] using inv.fifo, ?_, inv.executing, inv.between, inv.known, ?_⟩
    · refine nodup_middle.mpr (nodup_cons.mpr ?_)
      rw [← list]
      exact ⟨ha, inv.nodup⟩
    · intro idle _
      have isIdle : wk.phase = .idle := idle
      simp [isIdle]
  | attach was | repeat_ was | finishFlush was | wakeUp was =>
    exact inv.setPhase (by simp [was]) (by simp) rfl rfl rfl (by simp)
  | sleep was emp => exact inv.setPhase (by simp [was]) (by simp) rfl rfl rfl fun _ => emp
  | takeWork was list =>
    rename_i work tl
    have fifo := inv.fifo
    have same := inv.nodup
    rw [list] at fifo same
    have eq := inv.between (by simp [was])
    refine ⟨by simp [fifo], (nodup_cons.mp same).2, ?_, ?_, by simpa using inv.known, by simp⟩
    · intro o other
      cases other
      simp [eq]
    · exact fun notWorking => absurd rfl (notWorking work)
  | takeFlush was list =>
    have fifo := inv.fifo
    have same := inv.nodup
    rw [list] at fifo same
    exact ⟨fifo, (nodup_cons.mp same).2, by simp, fun _ => inv.between (by simp [was]), inv.known, by simp⟩
  | finishWork was =>
    obtain ⟨start, -⟩ := inv.executing _ was
    exact ⟨by simpa using inv.fifo, inv.nodup, by simp, fun _ => by simp [start], by simpa using inv.known, by simp⟩

theorem WorkerMove.log (move : WorkerMove wk next) : next.log = wk.log ∨ ∃ ev, next.log = wk.log ++ [ev] := by
  cases move with
  | queue | beginFlush | returnFlush | takeWork | finishWork => exact .inr ⟨_, rfl⟩
  | _ => exact .inl rfl

omit [DecidableEq W] in
theorem setFlush_self (ph : FlushPhase) : (wk.setFlush c flush ph).flushes c = some { flush with phase := ph } :=
  update_self ..

variable {late : FlushCall W} {o : Nat} {ph : FlushPhase}

omit [DecidableEq W] in
theorem setFlush_cases (isLater : (wk.setFlush o flush ph).flushes c = some late) :
    c = o ∧ late = { flush with phase := ph } ∨ c ≠ o ∧ wk.flushes c = some late := by
  by_cases eq : c = o
  · subst eq
    rw [setFlush_self] at isLater
    exact .inl ⟨rfl, (Option.some.inj isLater).symm⟩
  · exact .inr ⟨eq, (update_of_ne eq ..).symm.trans isLater⟩

theorem WorkerMove.flush_from (move : WorkerMove wk next) (isLater : next.flushes c = some late) :
    (∃ flush, wk.flushes c = some flush ∧ late = { flush with phase := late.phase }) ∨
      wk.flushes c = none ∧ late.phase = .begun ∧ late.queuedBefore = (queuedWorks wk.log).length := by
  cases move with
  | beginFlush new tg =>
    obtain ⟨rfl, rfl⟩ | ⟨-, old⟩ := setFlush_cases isLater
    · exact .inr ⟨new, rfl, rfl⟩
    · exact .inl ⟨late, old, rfl⟩
  | readWorker isFlush | insert isFlush | returnFlush isFlush =>
    obtain ⟨rfl, rfl⟩ | ⟨-, old⟩ := setFlush_cases isLater
    · exact .inl ⟨_, isFlush, rfl⟩
    · exact .inl ⟨late, old, rfl⟩
  | _ => exact .inl ⟨late, isLater, rfl⟩

/-- A flush call stays, and does not go back to before it has touched the worker. -/
theorem WorkerMove.flush_kept (move : WorkerMove wk next) (isFlush : wk.flushes c = some flush) :
    ∃ late, next.flushes c = some late ∧ late.target = flush.target ∧ late.queuedBefore = flush.queuedBefore ∧
      (late.phase = .begun ∨ late.phase = .locking → flush.phase = .begun ∨ flush.phase = .locking) := by
  have changed : ∀ {o changed ph}, wk.flushes o = some changed →
      (ph = .begun ∨ ph = .locking → changed.phase = .begun ∨ changed.phase = .locking) →
      ∃ late, (wk.setFlush o changed ph).flushes c = some late ∧ late.target = flush.target ∧
        late.queuedBefore = flush.queuedBefore ∧
        (late.phase = .begun ∨ late.phase = .locking → flush.phase = .begun ∨ flush.phase = .locking) := by
    intro o changed ph isChanged early
    by_cases eq : c = o
    · subst eq
      cases isFlush.symm.trans isChanged
      exact ⟨_, setFlush_self ph, rfl, rfl, early⟩
    · exact ⟨flush, (update_of_ne eq ..).trans isFlush, rfl, rfl, id⟩
  cases move with
  | beginFlush new tg =>
    rename_i began
    have ne : c ≠ began := by
      rintro rfl
      rw [new] at isFlush
      cases isFlush
    exact ⟨flush, (update_of_ne ne ..).trans isFlush, rfl, rfl, id⟩
  | readWorker isChanged pre => exact changed isChanged fun _ => .inl pre
  | insert isChanged | returnFlush isChanged => exact changed isChanged (by simp)
  | _ => exact ⟨flush, isFlush, rfl, rfl, id⟩

section

variable (inv : FlushInv wk) (move : WorkerMove wk next)
include inv move

theorem FlushInv.bounded_move (isLater : next.flushes c = some late) :
    late.queuedBefore ≤ (queuedWorks next.log).length := by
  have old : late.queuedBefore ≤ (queuedWorks wk.log).length := by
    cases move.flush_from isLater with
    | inl hk =>
      obtain ⟨flush, isFlush, eq⟩ := hk
      rw [eq]
      exact inv.bounded c flush isFlush
    | inr new => exact Nat.le_of_eq new.2.2
  cases move.log with
  | inl eq => rw [eq]; exact old
  | inr more =>
    obtain ⟨ev, log⟩ := more
    rw [log, queuedWorks_append, length_append]
    exact Nat.le_add_right_of_le old

theorem FlushInv.began_move :
    EachAfter (fun pre ent => ∀ c tg, ent = .flushBegan c tg →
      ∃ flush, next.flushes c = some flush ∧ flush.target = tg ∧
        flush.queuedBefore = (queuedWorks pre).length) next.log := by
  have old : EachAfter (fun pre ent => ∀ c tg, ent = .flushBegan c tg →
      ∃ flush, next.flushes c = some flush ∧ flush.target = tg ∧
        flush.queuedBefore = (queuedWorks pre).length) wk.log := by
    intro pre ent post split c tg start
    obtain ⟨flush, isFlush, goal, isCount⟩ := inv.began pre ent post split c tg start
    obtain ⟨late, isLater, sameTarget, sameCount, -⟩ := move.flush_kept isFlush
    exact ⟨late, isLater, sameTarget.trans goal, sameCount.trans isCount⟩
  cases move with
  | beginFlush new tg =>
    refine eachAfter_snoc.mpr ⟨old, fun c o start => ?_⟩
    cases start
    exact ⟨_, setFlush_self .begun, rfl, rfl⟩
  | queue | returnFlush | takeWork | finishWork => exact eachAfter_snoc.mpr ⟨old, by simp⟩
  | _ => exact old

theorem FlushInv.early_move (l : ListInv wk)
    (early : ∀ flush, next.flushes c = some flush → flush.phase = .begun ∨ flush.phase = .locking) :
    Untouched next c := by
  obtain ⟨new, notTaken, open_⟩ : Untouched wk c := by
    refine inv.early c fun flush isFlush => ?_
    obtain ⟨late, isLater, -, -, pre⟩ := move.flush_kept isFlush
    exact pre (early late isLater)
  cases move with
  | queue ha => exact ⟨by simpa using new, notTaken, open_⟩
  | insert isFlush pre adds =>
    obtain ⟨ft, back, rfl, list, -⟩ := adds.shape l.nodup
    rename_i inserter changed
    have ne : c ≠ inserter := by
      rintro rfl
      have isWaiting := early _ (setFlush_self .waiting)
      simp at isWaiting
    rw [list] at new
    exact ⟨by simpa [ne] using new, notTaken, open_⟩
  | takeWork was list =>
    rw [list, mem_cons, not_or] at new
    exact ⟨new.2, by simp, open_⟩
  | takeFlush was list =>
    rw [list, mem_cons, not_or] at new
    exact ⟨new.2, by simpa [eq_comm] using new.1, open_⟩
  | finishFlush was =>
    rename_i done
    have ne : c ≠ done := by
      rintro rfl
      exact notTaken was
    exact ⟨new, by simp, (update_of_ne ne ..).trans open_⟩
  | attach | repeat_ | sleep | finishWork | wakeUp => exact ⟨new, by simp, open_⟩
  | _ => exact ⟨new, notTaken, open_⟩

theorem FlushInv.gone_move (l : ListInv wk)
    (past : next.done c = true ∨ next.phase = .working (.flush c)) : .flush c ∉ next.workList := by
  have old := inv.gone c
  cases move with
  | queue ha => simpa using old past
  | insert flush pre adds =>
    rename_i inserter changed workList
    have ne : c ≠ inserter := by
      rintro rfl
      have untouched := inv.untouched flush pre
      cases past with
      | inl done => cases untouched.notDone.symm.trans done
      | inr ht => exact untouched.notTaken ht
    obtain ⟨ft, back, rfl, list, -⟩ := adds.shape l.nodup
    have new := old past
    rw [list] at new
    simpa [ne] using new
  | takeWork was list =>
    have new := old (.inl (past.resolve_right (by simp)))
    rw [list] at new
    exact fun mem => new (mem_cons_of_mem _ mem)
  | takeFlush was list =>
    intro mem
    cases past with
    | inl done => exact old (.inl done) (by rw [list]; exact mem_cons_of_mem _ mem)
    | inr hit =>
      cases hit
      have nodup := l.nodup
      rw [list] at nodup
      exact (nodup_cons.mp nodup).1 mem
  | finishFlush was =>
    rename_i finished
    by_cases eq : c = finished
    · subst eq
      exact old (.inr was)
    · refine old (.inl ?_)
      exact (update_of_ne eq ..).symm.trans (past.resolve_right (by simp))
  | attach | repeat_ | sleep | finishWork | wakeUp => exact old (.inl (past.resolve_right (by simp)))
  | _ => exact old past

theorem FlushInv.waiting_move (l : ListInv wk)
    (isLater : next.flushes c = some late) (wait : late.phase = .waiting) : (.flush c ∈ next.workList →
      Covers next.log late ((startedWorks next.log).length + ahead c next.workList)) ∧
    (.flush c ∉ next.workList → Covers next.log late (finishedWorks next.log).length) := by
  have inList := fun old => inv.listed c late old wait
  have passed := fun old => inv.passed c late old wait
  have mute := inv.bounded c late
  -- a step that only changes another flush call, or writes an event that is no execution
  have silent : wk.flushes c = some late → ∀ more, startedWorks more = [] → finishedWorks more = [] →
      (.flush c ∈ wk.workList →
        Covers (wk.log ++ more) late ((startedWorks (wk.log ++ more)).length + ahead c wk.workList)) ∧
      (.flush c ∉ wk.workList → Covers (wk.log ++ more) late (finishedWorks (wk.log ++ more)).length) := by
    intro old more notStarted notFinished
    rw [startedWorks_append, finishedWorks_append, notStarted, notFinished, append_nil, append_nil]
    exact ⟨fun mem => (inList old mem).append (mute old) more, fun ha => (passed old ha).append (mute old) more⟩
  cases move with
  | queue ha =>
    rename_i work
    obtain ⟨isListed, isPassed⟩ := silent isLater [.queued work] rfl rfl
    have eq : .flush c ∈ wk.workList ++ [KthreadWork.work work] ↔ .flush c ∈ wk.workList := by simp
    constructor
    · intro mem
      have unchanged : ahead c (wk.workList ++ [KthreadWork.work work]) = ahead c wk.workList :=
        ahead_append_of_mem (eq.mp mem)
      exact unchanged.symm ▸ isListed (eq.mp mem)
    · exact fun same => isPassed fun mem => same (eq.mpr mem)
  | beginFlush | returnFlush =>
    obtain ⟨rfl, rfl⟩ | ⟨-, old⟩ := setFlush_cases isLater
    · cases wait
    · exact silent old [_] rfl rfl
  | readWorker flush pre =>
    obtain ⟨rfl, rfl⟩ | ⟨-, old⟩ := setFlush_cases isLater
    · cases wait
    · exact ⟨inList old, passed old⟩
  | insert flush pre adds =>
    obtain ⟨ft, back, rfl, list, behind⟩ := adds.shape l.nodup
    obtain ⟨rfl, rfl⟩ | ⟨ne, old⟩ := setFlush_cases isLater
    · have same := (inv.untouched flush pre).notListed
      rw [list, mem_append, not_or] at same
      constructor
      · intro _
        have place : ahead c (ft ++ .flush c :: back) = (works ft).length := ahead_append_self same.1
        exact place.symm ▸ l.covers_insert list behind
      · exact fun ha => absurd (mem_append_right ft mem_cons_self) ha
    · rename_i inserter changed
      have unchanged : ahead c (ft ++ .flush inserter :: back) = ahead c wk.workList := by
        rw [ahead_insert (Ne.symm ne), list]
      have keep : .flush c ∈ ft ++ .flush inserter :: back ↔ .flush c ∈ wk.workList := by
        simp [list, ne]
      constructor
      · intro mem
        exact unchanged.symm ▸ inList old (keep.mp mem)
      · exact fun same => passed old fun mem => same (keep.mpr mem)
  | takeWork was list =>
    rename_i work tl
    rw [list] at inList passed
    constructor
    · intro mem
      have cover := inList isLater (mem_cons_of_mem _ mem)
      refine (cover.append (mute isLater) [.started work]).mono ?_
      simp
      omega
    · intro ha
      exact ((passed isLater (by simpa using ha)).append (mute isLater) [.started work]).mono (by simp)
  | takeFlush was list =>
    rename_i ht tl
    rw [list] at inList passed
    by_cases eq : c = ht
    · subst eq
      have nodup := l.nodup
      rw [list] at nodup
      refine ⟨fun mem => absurd mem (nodup_cons.mp nodup).1, fun _ => ?_⟩
      have cover := inList isLater mem_cons_self
      rwa [ahead_cons_self, l.between (by simp [was])] at cover
    · constructor
      · intro mem
        have cover := inList isLater (mem_cons_of_mem _ mem)
        rwa [ahead_cons_other (Ne.symm eq)] at cover
      · exact fun ha => passed isLater (by simpa [eq] using ha)
  | finishWork was =>
    rename_i work
    exact ⟨fun mem => ((inList isLater mem).append (mute isLater) [.finished work]).mono (by simp),
      fun ha => ((passed isLater ha).append (mute isLater) [.finished work]).mono (by simp)⟩
  | _ => exact ⟨inList isLater, passed isLater⟩

end

/-! ## Every run -/

structure WorkerInv (wk : KthreadWorker W) : Prop where
  list : ListInv wk
  flushes : FlushInv wk
  returned : EachAfter FlushDone wk.log

theorem WorkerInv.move (inv : WorkerInv wk) (move : WorkerMove wk next) : WorkerInv next := by
  refine ⟨inv.list.move move ?_, ⟨?_, ?_, ?_, ?_, ?_, inv.flushes.began_move move⟩, ?_⟩
  · exact fun c flush isFlush pre => (inv.flushes.untouched isFlush pre).notListed
  · exact fun c => inv.flushes.early_move move inv.list
  · exact fun c => inv.flushes.gone_move move inv.list
  · exact fun c flush => inv.flushes.bounded_move move
  · exact fun c flush isLater wait => (inv.flushes.waiting_move move inv.list isLater wait).1
  · exact fun c flush isLater wait => (inv.flushes.waiting_move move inv.list isLater wait).2
  · cases move with
    | queue | beginFlush | takeWork | finishWork => exact eachAfter_snoc.mpr ⟨inv.returned, by simp [FlushDone]⟩
    | returnFlush isFlush may =>
      rename_i returner changed
      refine eachAfter_snoc.mpr ⟨inv.returned, ?_⟩
      intro c isReturned early tg late split n work isWork goal
      cases isReturned
      obtain ⟨flush, start, rfl, isCount⟩ := inv.flushes.began early _ late split returner tg rfl
      cases isFlush.symm.trans start
      have fits : n < (queuedWorks early).length := (List.getElem?_eq_some_iff.mp isWork).1
      refine may.covers inv.list inv.flushes isFlush n work (by omega) ?_ goal
      rw [show wk.log = _ from split, queuedWorks_append, List.getElem?_append_left fits]
      exact isWork
    | _ => exact inv.returned

omit [DecidableEq W] in
theorem WorkerInv.start : WorkerInv (.start : KthreadWorker W) where
  list := ⟨rfl, nodup_nil, nofun, fun _ => rfl, nofun, nofun⟩
  flushes := ⟨fun _ _ => ⟨nofun, nofun, rfl⟩, nofun, nofun, nofun, nofun, eachAfter_nil _⟩
  returned := eachAfter_nil _

/-- The state of a worker as its users may rely on it. -/
structure QueueSemantics (wk : KthreadWorker W) : Prop where
  /-- A work is in the list at most once. -/
  once : (works wk.workList).Nodup
  /-- The n-th execution is for the n-th call that returned true; the calls without one are those in the list. -/
  order : queuedWorks wk.log = startedWorks wk.log ++ works wk.workList
  /-- At most one execution has started and not finished. -/
  oneAtATime : startedWorks wk.log = finishedWorks wk.log ∨ ∃ work, startedWorks wk.log = finishedWorks wk.log ++ [work]
  flush : EachAfter FlushDone wk.log

omit [DecidableEq W] in
theorem works_nodup {l : List (KthreadWork W)} (nodup : l.Nodup) : (works l).Nodup := by
  refine nodup.filterMap ?_
  intro one o work isOne other
  cases one <;> cases o <;> simp_all

omit [DecidableEq W] in
theorem WorkerInv.semantics (inv : WorkerInv wk) : QueueSemantics wk := by
  refine ⟨works_nodup inv.list.nodup, inv.list.fifo, ?_, inv.returned⟩
  by_cases busy : ∃ work, wk.phase = .working (.work work)
  · obtain ⟨work, phase⟩ := busy
    exact .inr ⟨work, (inv.list.executing work phase).1⟩
  · exact .inl (inv.list.between fun work phase => busy ⟨work, phase⟩)

def WorkerStep (wk : KthreadWorker W) (lb : WorkerLabel W) (next : KthreadWorker W) : Prop :=
  wk.step lb = some next

theorem run_workerInv (reach : Reachable WorkerStep .start wk) : WorkerInv wk :=
  reach.invariant .start fun _ _ _ inv ht => inv.move (move_of_workerStep ht)

end

end Aosp.Kernel
