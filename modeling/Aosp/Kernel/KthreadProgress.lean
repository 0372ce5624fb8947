import Aosp.Kernel.KthreadQueue
import Aosp.Lib.Fair
import Mathlib.Data.Prod.Lex

/-! # A kernel worker gets its works done

In a fair run, where the worker is not passed over for ever while it can go on,
every work that was queued is executed.  The callers can put flushes in front of
it, but only after the work that was taken last, so `KthreadWorker.remaining`
decreases with every piece of the worker's loop and no caller increases it.  That
the worker does not sleep with a work in its list is part of `ListInv`.
-/

namespace Aosp.Kernel

open Aosp.Lib KthreadWorker

section

variable {W : Type} {wk next : KthreadWorker W}

def frontFlushes : List (KthreadWork W) → Nat
  | .flush _ :: rest => frontFlushes rest + 1
  | _ => 0

theorem frontFlushes_work (ft back : List (KthreadWork W)) (work : W) :
    frontFlushes (ft ++ .work work :: back) = frontFlushes (ft ++ [.work work]) := by
  induction ft with
  | nil => rfl
  | cons first _ ih =>
    cases first with
    | work o => rfl
    | flush c => simp [frontFlushes, ih]

theorem frontFlushes_append {l : List (KthreadWork W)} (busy : works l ≠ []) (more : List (KthreadWork W)) :
    frontFlushes (l ++ more) = frontFlushes l := by
  obtain ⟨_, mem⟩ := List.exists_mem_of_ne_nil _ busy
  obtain ⟨ft, back, list⟩ := List.append_of_mem (mem_works.mp mem)
  rw [list, List.append_assoc, List.cons_append, frontFlushes_work, frontFlushes_work ft back]

/-- Whether flushes of the work that was taken last may still get to the front. -/
def currentStage : Option (KthreadWork W) → Nat
  | some (.work _) => 2
  | _ => 1

/-- How close the worker is to finishing a work, which is closest when it executes one. -/
def KthreadWorker.stage (wk : KthreadWorker W) : Nat :=
  match wk.phase with
  | .working (.work _) => 0
  | _ => currentStage wk.currentWork

theorem stage_of_not_working (notWorking : ∀ work, wk.phase ≠ .working (.work work)) :
    wk.stage = currentStage wk.currentWork := by
  unfold stage
  split
  next work phase => exact absurd phase (notWorking work)
  next => rfl

def WorkerPhase.rank : WorkerPhase W → Nat
  | .detached => 3
  | .repeating => 1
  | .looking => 0
  | .working _ | .idle => 2

/-- What the worker has to do until the first `n + 1` executions are finished. -/
def KthreadWorker.remaining (n : Nat) (wk : KthreadWorker W) : ℕ ×ₗ ℕ ×ₗ ℕ ×ₗ ℕ :=
  toLex (n + 1 - (finishedWorks wk.log).length, toLex (wk.stage,
    toLex (if wk.stage = 1 then frontFlushes wk.workList else 0, wk.phase.rank)))

variable {n : Nat}

section

variable (inv : ListInv wk) (hq : n < (queuedWorks wk.log).length)
  (lacks : ¬ n < (finishedWorks wk.log).length)
include inv hq lacks

/-- As long as an execution is missing that was asked for, the list is not empty between two executions. -/
theorem ListInv.busy (notWorking : ∀ work, wk.phase ≠ .working (.work work)) : works wk.workList ≠ [] := by
  intro emp
  rw [inv.fifo, emp, List.append_nil, inv.between notWorking] at hq
  exact lacks hq

theorem workerFn_ne_none [DecidableEq W] : wk.step .worker ≠ none := by
  intro sleeps
  simp only [step, workerFn] at sleeps
  split at sleeps
  next => cases sleeps
  next => cases sleeps
  next => split at sleeps <;> cases sleeps
  next => cases sleeps
  next => cases sleeps
  next idle =>
    have busy := inv.busy hq lacks (by simp [idle])
    have ne : wk.workList ≠ [] := by
      intro emp
      rw [emp] at busy
      exact busy rfl
    rw [if_pos (inv.awake idle ne)] at sleeps
    cases sleeps

end

theorem remaining_lt_of_rank (log : next.log = wk.log) (cur : next.currentWork = wk.currentWork)
    (l : next.workList = wk.workList) (was : ∀ work, wk.phase ≠ .working (.work work))
    (is : ∀ work, next.phase ≠ .working (.work work)) (less : next.phase.rank < wk.phase.rank) :
    next.remaining n < wk.remaining n := by
  have stage : next.stage = wk.stage := by rw [stage_of_not_working was, stage_of_not_working is, cur]
  simp only [remaining, Prod.Lex.toLex_lt_toLex, log, stage, l]
  exact .inr ⟨trivial, .inr ⟨trivial, .inr ⟨trivial, less⟩⟩⟩

variable [DecidableEq W]

theorem remaining_lt_of_workerFn (inv : ListInv wk) (hq : n < (queuedWorks wk.log).length)
    (lacks : ¬ n < (finishedWorks wk.log).length) (ht : wk.step .worker = some next) :
    next.remaining n < wk.remaining n := by
  simp only [KthreadWorker.step, KthreadWorker.workerFn] at ht
  split at ht
  next was =>
    cases ht
    exact remaining_lt_of_rank rfl rfl rfl (by simp [was]) (by simp) (by simp [was, WorkerPhase.rank])
  next was =>
    cases ht
    exact remaining_lt_of_rank rfl rfl rfl (by simp [was]) (by simp) (by simp [was, WorkerPhase.rank])
  next was =>
    have busy := inv.busy hq lacks (by simp [was])
    have stage : wk.stage = currentStage wk.currentWork := stage_of_not_working (by simp [was])
    split at ht
    next emp =>
      rw [emp] at busy
      exact absurd rfl busy
    next work tl list =>
      cases ht
      simp only [KthreadWorker.remaining, Prod.Lex.toLex_lt_toLex]
      rw [stage]
      unfold currentStage
      split <;> simp [KthreadWorker.stage]
    next c tl list =>
      cases ht
      simp only [KthreadWorker.remaining, Prod.Lex.toLex_lt_toLex]
      refine .inr ⟨trivial, ?_⟩
      rw [stage, list]
      unfold currentStage
      split
      next => exact .inl (by simp [KthreadWorker.stage, currentStage])
      next => exact .inr ⟨rfl, .inl (by simp [KthreadWorker.stage, currentStage, frontFlushes])⟩
  next work was =>
    cases ht
    simp only [KthreadWorker.remaining, Prod.Lex.toLex_lt_toLex]
    simp only [KthreadWorker.record, finishedWorks_append, finishedWorks_singleton, List.length_append,
      List.length_singleton]
    omega
  next c was =>
    cases ht
    exact remaining_lt_of_rank rfl rfl rfl (by simp [was]) (by simp) (by simp [was, WorkerPhase.rank])
  next was =>
    split at ht
    next =>
      cases ht
      exact remaining_lt_of_rank rfl rfl rfl (by simp [was]) (by simp) (by simp [was, WorkerPhase.rank])
    next => cases ht

theorem phase_of_callerStep {lab : WorkerLabel W} (caller : lab ≠ .worker)
    (ht : wk.step lab = some next) : next.phase = wk.phase := by
  cases lab with
  | worker => exact absurd rfl caller
  | queue _ =>
    cases ht
    unfold queueKthreadWork
    split <;> rfl
  | beginFlush c _ =>
    simp only [step] at ht
    split at ht <;> cases ht
    rfl
  | readWorker c =>
    simp only [step] at ht
    split at ht
    next => split at ht <;> cases ht <;> rfl
    next => cases ht
  | lockFlush c =>
    simp only [step] at ht
    split at ht
    next =>
      cases ht
      unfold flushKthreadWork
      split
      next => rfl
      next => split <;> rfl
    next => cases ht; rfl
    next => cases ht
  | returnFlush c =>
    simp only [step] at ht
    split at ht
    next => split at ht <;> cases ht; rfl
    next => cases ht
  | wake =>
    cases ht
    rfl

theorem remaining_of_callerMove (inv : ListInv wk) (hq : n < (queuedWorks wk.log).length)
    (lacks : ¬ n < (finishedWorks wk.log).length) (move : WorkerMove wk next)
    (ph : next.phase = wk.phase) : next.remaining n = wk.remaining n := by
  have eq : next.currentWork = wk.currentWork → finishedWorks next.log = finishedWorks wk.log →
      (wk.stage = 1 → frontFlushes next.workList = frontFlushes wk.workList) → next.remaining n = wk.remaining n := by
    intro cur done fronts
    have stage : next.stage = wk.stage := by simp only [stage, ph, cur]
    simp only [remaining, done, stage, ph]
    by_cases busy : wk.stage = 1
    · rw [if_pos busy, if_pos busy, fronts busy]
    · rw [if_neg busy, if_neg busy]
  -- a worker between two executions still has a work in its list, so the end of the list is not its front
  have busy : wk.stage = 1 → works wk.workList ≠ [] := by
    intro amid
    refine inv.busy hq lacks fun work working => ?_
    simp [stage, working] at amid
  cases move with
  | refuse => rfl
  | queue ha =>
    refine eq rfl (by simp) fun amid => ?_
    exact frontFlushes_append (busy amid) [KthreadWork.work _]
  | beginFlush _ tg =>
    exact eq rfl (by simp) fun _ => rfl
  | readWorker flush pre => exact eq rfl rfl fun _ => rfl
  | insert flush pre adds =>
    refine eq rfl rfl fun amid => ?_
    cases adds with
    | after tg goal _ =>
      rw [goal]
      exact (frontFlushes_work _ _ _).trans (frontFlushes_work _ _ _).symm
    | front tg cur ha =>
      -- the last work taken is a caller's, so the worker is not between flushes
      unfold stage at amid
      split at amid
      next => cases amid
      next =>
        rw [cur] at amid
        cases amid
    | tail tg => exact frontFlushes_append (busy amid) _
  | returnFlush flush _ =>
    exact eq rfl (by simp) fun _ => rfl
  | wake => exact eq rfl rfl fun _ => rfl
  | attach was | repeat_ was | sleep was | takeWork was | takeFlush was | finishWork was | finishFlush was
  | wakeUp was =>
    simp [was] at ph

theorem WorkerMove.queued_le (move : WorkerMove wk next) :
    (queuedWorks wk.log).length ≤ (queuedWorks next.log).length := by
  cases move.log with
  | inl eq => rw [eq]
  | inr more =>
    obtain ⟨_, log⟩ := more
    rw [log, queuedWorks_append, List.length_append]
    exact Nat.le_add_right _ _

theorem fair_run_executes {sts : Nat → KthreadWorker W} {labs : Nat → WorkerLabel W}
    (first : sts 0 = .start) (run : FairRun step .worker sts labs) {i : Nat}
    (hq : n < (queuedWorks (sts i).log).length) : ∃ j, i ≤ j ∧ n < (finishedWorks (sts j).log).length := by
  have always : ∀ j, WorkerInv _ := fun j =>
    run.always (first ▸ WorkerInv.start) (fun _ _ _ inv ht => inv.move (move_of_workerStep ht)) (Nat.zero_le j)
  have inv : ∀ j, i ≤ j → ListInv (sts j) ∧ n < (queuedWorks (sts j).log).length := by
    intro j late
    refine ⟨(always j).list, ?_⟩
    exact run.always (I := fun wk => n < (queuedWorks wk.log).length) hq
      (fun _ _ _ pre ht => Nat.lt_of_lt_of_le pre (move_of_workerStep ht).queued_le) late
  exact run.eventually (I := fun wk => ListInv wk ∧ n < (queuedWorks wk.log).length)
    (P := fun wk => n < (finishedWorks wk.log).length)
    (fun _ hk lacks => workerFn_ne_none hk.1 hk.2 lacks)
    (fun _ _ _ hk lacks ht caller => remaining_of_callerMove hk.1 hk.2 lacks (move_of_workerStep ht)
      (phase_of_callerStep caller ht)) wellFounded_lt
    (fun _ _ hk lacks ht => .inr (remaining_lt_of_workerFn hk.1 hk.2 lacks ht)) i inv

/-- In every interleaving of the callers with the worker: a work is in the list at most once, the executions are those
    asked for, in order and one at a time, and a flush returns after the executions it waits for.  If the worker is not
    passed over for ever while it can run, every execution that was asked for takes place. -/
theorem kthread_worker_semantics : (∀ wk : KthreadWorker W, Reachable WorkerStep .start wk → QueueSemantics wk) ∧
    ∀ (states : Nat → KthreadWorker W) (labels : Nat → WorkerLabel W), states 0 = .start →
      FairRun step .worker states labels → ∀ i n, n < (queuedWorks (states i).log).length →
        ∃ j, i ≤ j ∧ n < (finishedWorks (states j).log).length :=
  ⟨fun _ reach => (run_workerInv reach).semantics, fun _ _ first run _ _ queued => fair_run_executes first run queued⟩

end

/-- Two works are queued and the first of them is flushed. -/
def flushedFirst : List (WorkerLabel Bool) :=
  [.queue false, .queue true, .beginFlush 0 (some false), .readWorker 0, .lockFlush 0]

/-- After these steps only the worker runs, woken up whenever it sleeps. -/
def flushedLabel (i : Nat) (wk : KthreadWorker Bool) : WorkerLabel Bool :=
  flushedFirst[i]?.getD (if wk.workerFn.isSome then .worker else .wake)

def flushedStates : Nat → KthreadWorker Bool
  | 0 => .start
  | i + 1 => ((flushedStates i).step (flushedLabel i (flushedStates i))).getD .start

theorem kthread_worker_semantics_flushed :
    (flushedStates 5).workList = [.work false, .flush 0, .work true] ∧ QueueSemantics (flushedStates 5) ∧
      ∃ j, 5 ≤ j ∧ 1 < (finishedWorks (flushedStates j).log).length := by
  have alone : ∀ i, 5 ≤ i → flushedLabel i (flushedStates i) =
      if (flushedStates i).workerFn.isSome then .worker else .wake := by
    intro i late
    rw [flushedLabel, List.getElem?_eq_none late, Option.getD_none]
  have taken : ∀ i, (flushedStates i).step (flushedLabel i (flushedStates i)) = some (flushedStates (i + 1)) := by
    intro i
    have defined : ((flushedStates i).step (flushedLabel i (flushedStates i))).isSome = true := by
      by_cases first : i < 5
      · revert i
        decide
      · rw [alone i (by omega)]
        split
        next ran => exact ran
        next => rfl
    obtain ⟨next, ran⟩ := Option.isSome_iff_exists.mp defined
    rw [flushedStates, ran, Option.getD_some]
  have run : FairRun step .worker flushedStates fun i => flushedLabel i (flushedStates i) := by
    refine ⟨taken, fun i => ⟨i + 5, by omega, ?_⟩⟩
    rw [alone (i + 5) (by omega)]
    cases ran : (flushedStates (i + 5)).workerFn with
    | some next => exact .inl rfl
    | none => exact .inr ran
  have reach : Reachable WorkerStep .start (flushedStates 5) :=
    ⟨_, .snoc (.snoc (.snoc (.snoc (.snoc .nil (taken 0)) (taken 1)) (taken 2)) (taken 3)) (taken 4)⟩
  exact ⟨by decide, kthread_worker_semantics.1 _ reach, kthread_worker_semantics.2 _ _ rfl run 5 1 (by decide)⟩

end Aosp.Kernel
