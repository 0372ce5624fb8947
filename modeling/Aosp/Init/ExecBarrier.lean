import Aosp.Init.ServiceManager

/-! # The `exec` barrier

While init waits for a child of `exec` or `exec_start` it runs no further commands:
`IsWaitingForExec` should hold exactly as long as there is such a child.  It does
not, because `SVC_EXEC` stays set when `exec_start` fails, and because there is one
timer for all children.

`exec_barrier_holds_iff` says for which runs it does.
-/

namespace Aosp.Init

open Aosp.Lib Aosp.Bionic ServiceManager ManagerState

namespace ManagerState

/-- A child of `exec` or `exec_start` has not been reaped.  It counts until
    `ReapOneProcess` is done with it. -/
def ExecPending (s : ManagerState) : Prop :=
  s.execChildren ≠ [] ∨ ∃ reaping ∈ s.reaping, reaping.execChild = true

/-- Init waits exactly while there is such a child, and never dereferenced a null
    `exec_waiter_`. -/
def Barrier (s : ManagerState) : Prop :=
  s.crashed = false ∧ (s.manager.isWaitingForExec = true ↔ s.ExecPending)

/-- The step respects the barrier.  An `exec` or `exec_start` that cannot start its
    service is not run while a child is pending; a service with `SVC_EXEC` exits only
    while one is, and no other one is left when `ReapOneProcess` is done with it. -/
def Safe (du : Bytes → Nat) (s : ManagerState) : ManagerOp → Prop
  | .exec args e => ∀ made ∈ s.manager.makeExecOneshotService du args,
      (made.1.execStart e).2.1 = false → ¬ s.ExecPending
  | .execStart n e => ∀ svc ∈ s.manager.findServiceByName n, (svc.execStart e).2.1 = false → ¬ s.ExecPending
  | .reapBegin pid _ => ∀ svc ∈ s.manager.findServiceByPid pid, svc.flags.exec = true → s.ExecPending
  | .reapEnd => ∀ reaping ∈ s.reaping, ∀ svc ∈ s.manager.findServiceByName reaping.name,
      svc.flags.exec = true → s.execChildren = []
  | .add _ | .operate _ => True

/-! ## One step -/

variable {s post : ManagerState}

theorem Barrier.congr (bar : s.Barrier) (crashed : post.crashed = s.crashed)
    (waiter : post.manager.execWaiter = s.manager.execWaiter) (due : post.ExecPending ↔ s.ExecPending) :
    post.Barrier := by
  unfold Barrier isWaitingForExec at bar ⊢
  rw [crashed, waiter, due]
  exact bar

/-- After `exec` and `exec_start` the timer tells whether the service was started. -/
theorem afterExec_barrier (hr : s.crashed = false) {res : ServiceManager × Bool} {e : StartEnv}
    (waiter : res.1.execWaiter = res.2) (chd : res.2 = true → ∃ chd, e.fork = some chd) :
    (s.afterExec res e).Barrier ↔ (res.2 = false → ¬ s.ExecPending) := by
  obtain ⟨_, ok⟩ := res
  simp only at waiter chd
  simp only [Barrier, isWaitingForExec, afterExec, waiter, hr]
  cases ok with
  | false => simp [ExecPending]
  | true =>
    obtain ⟨_, fork⟩ := chd rfl
    simp [ExecPending, fork]

theorem execStart_child {svc : Service} {e : StartEnv} (ok : (svc.execStart e).2.1 = true) :
    ∃ chd, e.fork = some chd := by
  obtain ⟨chd, fork, -⟩ := Service.start_success ok
  exact ⟨chd, fork⟩

theorem exec_barrier (hr : s.crashed = false) (bar : s.Barrier) (du : Bytes → Nat)
    (args : List Bytes) (e : StartEnv) : (s.afterExec (s.manager.exec du args e) e).Barrier ↔
      s.Safe du (.exec args e) := by
  simp only [Safe]
  cases made : s.manager.makeExecOneshotService du args with
  | none =>
    have eq : s.afterExec (s.manager.exec du args e) e = s := by
      simp [afterExec, ServiceManager.exec, made]
    rw [eq]
    simp [bar]
  | some res =>
    obtain ⟨svc, _⟩ := res
    have waiter : (s.manager.exec du args e).1.execWaiter = (svc.execStart e).2.1 ∧
        (s.manager.exec du args e).2 = (svc.execStart e).2.1 := by
      unfold ServiceManager.exec
      simp only [made]
      cases ok : (svc.execStart e).2.1 <;>
        simp [ServiceManager.execStartService, ok, ServiceManager.removeService]
    rw [afterExec_barrier hr (waiter.1.trans waiter.2.symm), waiter.2]
    · simp
    · rw [waiter.2]
      exact execStart_child

theorem execStart_barrier (hr : s.crashed = false) (bar : s.Barrier) (du : Bytes → Nat)
    (n : Bytes) (e : StartEnv) : (s.afterExec (s.manager.execStart n e) e).Barrier ↔ s.Safe du (.execStart n e) := by
  simp only [Safe]
  cases hf : s.manager.findServiceByName n with
  | none =>
    have eq : s.afterExec (s.manager.execStart n e) e = s := by
      simp [afterExec, execStart, hf]
    rw [eq]
    simp [bar]
  | some svc =>
    have eq : s.manager.execStart n e = s.manager.execStartService svc e := by
      simp [execStart, hf]
    rw [eq, afterExec_barrier hr rfl execStart_child]
    simp [execStartService]

/-- A child that exits is pending until `ReapOneProcess` is done with it. -/
theorem reapBegin_pending (idle : s.reaping = none) {pid : Nat} {n : Bytes} {onr : Bool}
    (chn : post.execChildren = s.execChildren.erase pid)
    (reaping : post.reaping = some ⟨n, onr, pid ∈ s.execChildren⟩) : post.ExecPending ↔ s.ExecPending := by
  unfold ExecPending
  rw [chn, reaping, idle]
  by_cases child : pid ∈ s.execChildren
  · have some_ : s.execChildren ≠ [] := List.ne_nil_of_mem child
    simp [child, some_]
  · rw [List.erase_of_not_mem child]
    simp [child]

theorem reapEnd_barrier (wf : s.WellFormed) (bar : s.Barrier) (du : Bytes → Nat)
    {child : Reaping} (dead : s.reaping = some child) :
    Barrier { s with manager := s.manager.reapEnd child.name, reaping := none } ↔
      s.Safe du .reapEnd := by
  obtain ⟨svc, mem, name, execChild, -⟩ := wf.reaping child dead
  have hf : s.manager.findServiceByName child.name = some svc := by
    rw [← name]
    exact wf.find mem
  have waiter : (s.manager.reapEnd child.name).execWaiter = (s.manager.execWaiter && !svc.flags.exec) := by
    unfold reapEnd
    simp only [hf]
    cases svc.flags.exec <;> cases svc.flags.temporary <;> simp [removeService]
  simp only [Safe, dead, Option.mem_def, Option.some.injEq, forall_eq', hf]
  cases exec : svc.flags.exec with
  | true =>
    simp [Barrier, isWaitingForExec, waiter, exec, bar.1, ExecPending]
  | false =>
    -- the process was not a child of `exec`, so the same children are pending
    have o : child.execChild = false := by
      apply Bool.eq_false_iff.mpr
      intro isChild
      rw [execChild isChild] at exec
      cases exec
    have kept : Barrier { s with manager := s.manager.reapEnd child.name, reaping := none } := by
      apply Barrier.congr bar
      · rfl
      · simp [waiter, exec]
      · simp [ExecPending, dead, o]
    simp [kept]

theorem step_barrier_iff {du : Bytes → Nat} {op : ManagerOp} (wf : s.WellFormed)
    (bar : s.Barrier) (ran : s.exec du op = some post) : post.Barrier ↔ s.Safe du op := by
  obtain ⟨hr, ht⟩ := exec_taken ran
  cases ht with
  | add =>
    rename_i svc _ _
    have kept : Barrier { s with manager := s.manager.addService svc } := by
      apply Barrier.congr bar
      · rfl
      · unfold addService
        split <;> rfl
      · rfl
    exact ⟨fun _ => trivial, fun _ => kept⟩
  | exec => exact exec_barrier hr bar du _ _
  | execStart => exact execStart_barrier hr bar du _ _
  | operate =>
    refine ⟨fun _ => trivial, fun _ => ?_⟩
    apply Barrier.congr bar
    · rfl
    · rfl
    · rfl
  | untracked idle nz ha =>
    rw [wf.untracked_erase ha]
    simp [Safe, ha, bar]
  | crashed idle nz hf isExec null =>
    have notPending : ¬ s.ExecPending := by
      rw [← bar.2, isWaitingForExec, null]
      decide
    simp [Barrier, Safe, hf, isExec, notPending]
  | reapBegin idle nz hf safe _ =>
    constructor
    · intro _ svc found isExec
      rw [hf] at found
      cases found
      exact bar.2.mp (safe isExec)
    · intro _
      apply Barrier.congr bar
      · rfl
      · rfl
      · apply reapBegin_pending idle
        · rfl
        · rfl
  | reapEnd dead => exact reapEnd_barrier wf bar du dead

end ManagerState

/-! ## Runs -/

/-- The barrier holds in every state of a run exactly when every step of the run
    respects it. -/
theorem exec_barrier_holds_iff (du : Bytes → Nat) (ops : List ManagerOp) :
    AllStates (exec du) ManagerState.Barrier {} ops ↔ AllSteps (exec du) (ManagerState.Safe du) {} ops := by
  have beg : ManagerState.Barrier {} := by
    simp [ManagerState.Barrier, isWaitingForExec, ManagerState.ExecPending]
  apply allStates_iff_allSteps _ _ ops _ wellFormed_init beg
  · intro s op post wf _ ran
    exact taken_wellFormed wf (exec_taken ran).2
  · intro s op post wf barrier ran
    exact step_barrier_iff wf barrier ran

/-- A service is started, an `exec_start` of it fails because it runs, and it exits. -/
def stickyExec : List ManagerOp :=
  [.add { name := ascii "a", args := [ascii "/system/bin/a"] }, .operate fun svc =>
      if svc.name = ascii "a" then some (.start { fork := some firstChild }) else none,
    .execStart (ascii "a") { fork := none }, .reapBegin 7 0]

/-- `ReapOneProcess` dereferences the null `exec_waiter_`. -/
theorem exec_barrier_crashes : (stickyExec.foldlM (exec fun _ => 0) {}).map
        (fun s => (s.crashed, s.manager.isWaitingForExec, s.execChildren)) = some (true, false, []) := by
  decide

end Aosp.Init
