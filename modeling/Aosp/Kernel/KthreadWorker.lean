import Aosp.Lib.Run
import Mathlib.Logic.Function.Basic

/-! # Kernel worker threads

Model of `kthread_worker_fn`, `queue_kthread_work`, `flush_kthread_work` and
`flush_kthread_worker` of `kernel/kthread.c` for one worker with any number of
works and callers.  A flush puts a work of its own into the list and waits until
the worker has executed it; where it is put depends on whether the flushed work
is queued, was taken last, or neither.

Each section under `worker->lock` is one step, and so is each piece of the
worker's loop between two such sections.  The worker goes to sleep only if it is
still `TASK_INTERRUPTIBLE`, so the state of its task is part of the model.  The
worker is not stopped, and a work is used with this one worker, so the retry of
`flush_kthread_work` is never taken.  `WorkerMove` lists what a step can do.
-/

namespace Aosp.Kernel

open Aosp.Lib

/-- What is in the list: the works of the callers, and the works that flushes put there, told apart by the call. -/
inductive KthreadWork (W : Type) where
  | work (work : W)
  | flush (c : Nat)
deriving DecidableEq

/-- Where the loop of `kthread_worker_fn` is. -/
inductive WorkerPhase (W : Type) where
  /-- No thread is attached to the worker yet. -/
  | detached
  /-- At the label `repeat`. -/
  | repeating
  /-- Before the lock is taken, the task being interruptible. -/
  | looking
  /-- In the function of the work. -/
  | working (work : KthreadWork W)
  /-- In `schedule`, the list having been empty. -/
  | idle
deriving DecidableEq

inductive FlushPhase where
  /-- Before `work->worker` is read, or before `flush_kthread_worker` queues its work. -/
  | begun
  /-- Before the lock is taken. -/
  | locking
  /-- In `wait_for_completion`. -/
  | waiting
  | returned
deriving DecidableEq

/-- A call of `flush_kthread_work` for a work, or of `flush_kthread_worker`. -/
structure FlushCall (W : Type) where
  target : Option W
  /-- How many calls had queued a work when the flush began. -/
  queuedBefore : Nat
  phase : FlushPhase

inductive WorkerEvent (W : Type) where
  /-- `queue_kthread_work` returns true. -/
  | queued (work : W)
  | started (work : W)
  | finished (work : W)
  | flushBegan (c : Nat) (tg : Option W)
  | flushReturned (c : Nat)
deriving DecidableEq

structure KthreadWorker (W : Type) where
  workList : List (KthreadWork W)
  currentWork : Option (KthreadWork W)
  phase : WorkerPhase W
  /-- The task of the worker is `TASK_RUNNING`, not `TASK_INTERRUPTIBLE`. -/
  taskRunning : Bool
  /-- Whether `work->worker` is set. -/
  hasWorker : W → Bool
  flushes : Nat → Option (FlushCall W)
  /-- The completion of a flush. -/
  done : Nat → Bool
  log : List (WorkerEvent W)

open KthreadWorker

section

variable {W : Type}

def KthreadWorker.start : KthreadWorker W :=
  ⟨[], none, .detached, true, fun _ => false, fun _ => none, fun _ => false, []⟩

/-- The calls that have queued a work, the executions that have started and those that have finished. -/
def queuedWorks (log : List (WorkerEvent W)) : List W :=
  log.filterMap fun
    | .queued work => some work
    | _ => none

def startedWorks (log : List (WorkerEvent W)) : List W :=
  log.filterMap fun
    | .started work => some work
    | _ => none

def finishedWorks (log : List (WorkerEvent W)) : List W :=
  log.filterMap fun
    | .finished work => some work
    | _ => none

def KthreadWorker.record (wk : KthreadWorker W) (ev : WorkerEvent W) : KthreadWorker W :=
  { wk with log := wk.log ++ [ev] }

/-- `insert_kthread_work`, given the list with the new work in it: the task of the worker is woken up. -/
def KthreadWorker.insertKthreadWork (wk : KthreadWorker W) (workList : List (KthreadWork W)) :
    KthreadWorker W :=
  { wk with
    workList := workList
    taskRunning :=
      match wk.phase with
      | .detached => wk.taskRunning
      | _ => true }

def KthreadWorker.setFlush (wk : KthreadWorker W) (c : Nat) (flush : FlushCall W) (ph : FlushPhase) :
    KthreadWorker W :=
  { wk with flushes := Function.update wk.flushes c (some { flush with phase := ph }) }

inductive WorkerLabel (W : Type) where
  | queue (work : W)
  | beginFlush (c : Nat) (tg : Option W)
  /-- The flush reads `work->worker`. -/
  | readWorker (c : Nat)
  /-- The section of a flush under the lock. -/
  | lockFlush (c : Nat)
  | returnFlush (c : Nat)
  /-- The worker goes on. -/
  | worker
  /-- Somebody else wakes the task of the worker up. -/
  | wake
deriving DecidableEq

variable [DecidableEq W]

/-- `list_add_tail(new, pos->next)`: right after the first `here`. -/
def insertAfter (here new : KthreadWork W) : List (KthreadWork W) → List (KthreadWork W)
  | [] => []
  | work :: rest => if work = here then work :: new :: rest else work :: insertAfter here new rest

variable (worker : KthreadWorker W)

/-- `queue_kthread_work`; nothing changes where it returns false. -/
def KthreadWorker.queueKthreadWork (work : W) : KthreadWorker W :=
  if .work work ∈ worker.workList then worker
  else
    { worker.insertKthreadWork (worker.workList ++ [KthreadWork.work work]) with
      hasWorker := Function.update worker.hasWorker work true }.record (.queued work)

/-- The section of `flush_kthread_work` under the lock. -/
def KthreadWorker.flushKthreadWork (c : Nat) (flush : FlushCall W) (work : W) : KthreadWorker W :=
  if .work work ∈ worker.workList then
    (worker.insertKthreadWork (insertAfter (.work work) (.flush c) worker.workList)).setFlush c flush .waiting
  else if worker.currentWork = some (.work work) then
    (worker.insertKthreadWork (.flush c :: worker.workList)).setFlush c flush .waiting
  else (worker.setFlush c flush .returned).record (.flushReturned c)

/-- The next piece of the loop of `kthread_worker_fn`; `none` while the task sleeps. -/
def KthreadWorker.workerFn : Option (KthreadWorker W) :=
  match worker.phase with
  | .detached => some { worker with phase := .repeating }
  | .repeating => some { worker with phase := .looking, taskRunning := false }
  | .looking =>
    match worker.workList with
    | [] => some { worker with currentWork := none, phase := .idle }
    | .work work :: rest =>
      some ({ worker with
        workList := rest
        currentWork := some (.work work)
        phase := .working (.work work)
        taskRunning := true }.record (.started work))
    | .flush call :: rest =>
      some { worker with
        workList := rest
        currentWork := some (.flush call)
        phase := .working (.flush call)
        taskRunning := true }
  | .working (.work work) => some ({ worker with phase := .repeating }.record (.finished work))
  -- `kthread_flush_work_fn`
  | .working (.flush call) =>
    some { worker with phase := .repeating, done := Function.update worker.done call true }
  | .idle => if worker.taskRunning then some { worker with phase := .repeating } else none

def KthreadWorker.step : WorkerLabel W → Option (KthreadWorker W)
  | .queue work => some (worker.queueKthreadWork work)
  | .beginFlush c tg =>
    match worker.flushes c with
    | some _ => none
    | none =>
      some ((worker.setFlush c ⟨tg, (queuedWorks worker.log).length, .begun⟩ .begun).record
        (.flushBegan c tg))
  | .readWorker c =>
    match worker.flushes c with
    | some ⟨some work, queuedBefore, .begun⟩ =>
      if worker.hasWorker work then some (worker.setFlush c ⟨some work, queuedBefore, .begun⟩ .locking)
      else some ((worker.setFlush c ⟨some work, queuedBefore, .begun⟩ .returned).record (.flushReturned c))
    | _ => none
  | .lockFlush c =>
    match worker.flushes c with
    | some ⟨some work, queuedBefore, .locking⟩ =>
      some (worker.flushKthreadWork c ⟨some work, queuedBefore, .locking⟩ work)
    | some ⟨none, queuedBefore, .begun⟩ =>
      some ((worker.insertKthreadWork (worker.workList ++ [.flush c])).setFlush c ⟨none, queuedBefore, .begun⟩
        .waiting)
    | _ => none
  | .returnFlush c =>
    match worker.flushes c with
    | some flush =>
      if flush.phase = .waiting ∧ worker.done c then
        some ((worker.setFlush c flush .returned).record (.flushReturned c))
      else none
    | none => none
  | .worker => worker.workerFn
  | .wake => some { worker with taskRunning := true }

/-! ## What a step can do -/

inductive FlushInsert (wk : KthreadWorker W) (c : Nat) (flush : FlushCall W) :
    List (KthreadWork W) → Prop where
  | after {work front back} (tg : flush.target = some work) (isList : wk.workList = front ++ .work work :: back)
      (first : .work work ∉ front) : FlushInsert wk c flush (front ++ .work work :: .flush c :: back)
  | front {work} (tg : flush.target = some work) (cur : wk.currentWork = some (.work work))
      (absent : .work work ∉ wk.workList) : FlushInsert wk c flush (.flush c :: wk.workList)
  | tail (tg : flush.target = none) : FlushInsert wk c flush (wk.workList ++ [.flush c])

inductive FlushReturn (wk : KthreadWorker W) (c : Nat) (flush : FlushCall W) : Prop where
  | unused {work} (tg : flush.target = some work) (unset : wk.hasWorker work = false) :
      FlushReturn wk c flush
  | noop {work} (tg : flush.target = some work) (absent : .work work ∉ wk.workList)
      (notCurrent : wk.currentWork ≠ some (.work work)) : FlushReturn wk c flush
  | completed (waited : flush.phase = .waiting) (done : wk.done c = true) : FlushReturn wk c flush

inductive WorkerMove (wk : KthreadWorker W) : KthreadWorker W → Prop where
  | refuse : WorkerMove wk wk
  | queue {work} (absent : .work work ∉ wk.workList) :
      WorkerMove wk ({ wk.insertKthreadWork (wk.workList ++ [KthreadWork.work work]) with
        hasWorker := Function.update wk.hasWorker work true }.record (.queued work))
  | beginFlush {call} (fresh : wk.flushes call = none) (tg) :
      WorkerMove wk ((wk.setFlush call ⟨tg, (queuedWorks wk.log).length, .begun⟩ .begun).record
        (.flushBegan call tg))
  | readWorker {call flush} (isFlush : wk.flushes call = some flush) (pre : flush.phase = .begun) :
      WorkerMove wk (wk.setFlush call flush .locking)
  | insert {call flush} (isFlush : wk.flushes call = some flush) (pre : flush.phase = .begun ∨ flush.phase = .locking)
      {workList} (inserted : FlushInsert wk call flush workList) :
      WorkerMove wk ((wk.insertKthreadWork workList).setFlush call flush .waiting)
  | returnFlush {call flush} (isFlush : wk.flushes call = some flush) (may : FlushReturn wk call flush) :
      WorkerMove wk ((wk.setFlush call flush .returned).record (.flushReturned call))
  | attach (was : wk.phase = .detached) : WorkerMove wk { wk with phase := .repeating }
  | repeat_ (was : wk.phase = .repeating) :
      WorkerMove wk { wk with phase := .looking, taskRunning := false }
  | sleep (was : wk.phase = .looking) (empty : wk.workList = []) :
      WorkerMove wk { wk with currentWork := none, phase := .idle }
  | takeWork (was : wk.phase = .looking) {work rest} (isList : wk.workList = .work work :: rest) :
      WorkerMove wk ({ wk with
        workList := rest
        currentWork := some (.work work)
        phase := .working (.work work)
        taskRunning := true }.record (.started work))
  | takeFlush (was : wk.phase = .looking) {call rest} (isList : wk.workList = .flush call :: rest) :
      WorkerMove wk { wk with
        workList := rest
        currentWork := some (.flush call)
        phase := .working (.flush call)
        taskRunning := true }
  | finishWork {work} (was : wk.phase = .working (.work work)) :
      WorkerMove wk ({ wk with phase := .repeating }.record (.finished work))
  | finishFlush {call} (was : wk.phase = .working (.flush call)) :
      WorkerMove wk { wk with phase := .repeating, done := Function.update wk.done call true }
  | wakeUp (was : wk.phase = .idle) (running : wk.taskRunning = true) :
      WorkerMove wk { wk with phase := .repeating }
  | wake : WorkerMove wk { wk with taskRunning := true }

theorem insertAfter_eq {here new : KthreadWork W} {ft back : List (KthreadWork W)} (first : here ∉ ft) :
    insertAfter here new (ft ++ here :: back) = ft ++ here :: new :: back := by
  induction ft with
  | nil => simp [insertAfter]
  | cons _ _ ih =>
    rw [List.mem_cons, not_or] at first
    rw [List.cons_append, insertAfter, if_neg (Ne.symm first.1), ih first.2]
    rfl

variable {wk next : KthreadWorker W}

theorem move_of_workerFn (ht : wk.workerFn = some next) : WorkerMove wk next := by
  unfold workerFn at ht
  split at ht
  next was => cases ht; exact .attach was
  next was => cases ht; exact .repeat_ was
  next was =>
    split at ht
    next emp => cases ht; exact .sleep was emp
    next work tl list => cases ht; exact .takeWork was list
    next c tl list => cases ht; exact .takeFlush was list
  next work was => cases ht; exact .finishWork was
  next c was => cases ht; exact .finishFlush was
  next was =>
    split at ht
    next hr => cases ht; exact .wakeUp was hr
    next => cases ht

theorem move_of_flushKthreadWork {c : Nat} {flush : FlushCall W} {work : W}
    (isFlush : wk.flushes c = some flush) (pre : flush.phase = .locking) (tg : flush.target = some work) :
    WorkerMove wk (wk.flushKthreadWork c flush work) := by
  unfold flushKthreadWork
  split
  next mem =>
    obtain ⟨_, _, list, first⟩ := List.eq_append_cons_of_mem mem
    rw [list, insertAfter_eq first]
    exact .insert isFlush (.inr pre) (.after tg list first)
  next ha =>
    split
    next cur => exact .insert isFlush (.inr pre) (.front tg cur ha)
    next other => exact .returnFlush isFlush (.noop tg ha other)

theorem move_of_workerStep {lab : WorkerLabel W} (ht : wk.step lab = some next) : WorkerMove wk next := by
  cases lab with
  | queue work =>
    simp only [step, queueKthreadWork] at ht
    split at ht
    next => cases ht; exact .refuse
    next ha => cases ht; exact .queue ha
  | beginFlush c tg =>
    simp only [step] at ht
    split at ht
    next => cases ht
    next new => cases ht; exact .beginFlush new tg
  | readWorker c =>
    simp only [step] at ht
    split at ht
    next work queuedBefore flush =>
      split at ht
      next => cases ht; exact .readWorker flush rfl
      next unset => cases ht; exact .returnFlush flush (.unused rfl (by simpa using unset))
    next => cases ht
  | lockFlush c =>
    simp only [step] at ht
    split at ht
    next work queuedBefore flush => cases ht; exact move_of_flushKthreadWork flush rfl rfl
    next queuedBefore flush => cases ht; exact .insert flush (.inl rfl) (.tail rfl)
    next => cases ht
  | returnFlush c =>
    simp only [step] at ht
    split at ht
    next _ flush =>
      split at ht
      next ready => cases ht; exact .returnFlush flush (.completed ready.1 ready.2)
      next => cases ht
    next => cases ht
  | worker => exact move_of_workerFn ht
  | wake =>
    cases ht
    exact .wake

end

end Aosp.Kernel
