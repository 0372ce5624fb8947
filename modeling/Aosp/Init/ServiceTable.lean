import Aosp.Init.ServiceManager

/-! # The service table

What every reachable state of the service manager has: names and processes belong to
one service each, and the flags agree with the process (`service_table_stays_valid`).
`ManagerState.WellFormed` has most of it; what is added here is that a service waiting
to be restarted is neither disabled nor reset.

Names and processes being distinct, finding by pid and removing by name reach the
service that is meant and no other.
-/

namespace Aosp.Init

open Aosp.Lib Aosp.Bionic List ServiceManager Service ManagerState

namespace Service

/-! ## A service that is to be restarted -/

/-- `SVC_RESTARTING` excludes `SVC_DISABLED` and `SVC_RESET`. -/
def Settled (svc : Service) : Prop :=
  svc.flags.restarting = true → svc.flags.disabled = false ∧ svc.flags.reset = false

variable {svc : Service}

theorem settled_of_not_restarting (idle : svc.flags.restarting = false) : svc.Settled := by
  intro again
  rw [idle] at again
  cases again

/-- `Start` takes a service out of the restarting state, whatever comes of it. -/
theorem start_restarting (svc : Service) (e : StartEnv) : (svc.start e).1.flags.restarting = false := by
  have oc := svc.start_outcome e
  generalize svc.start e = res at oc
  cases oc with
  | alreadyRunning => rfl
  | failed => rfl
  | started => rfl

theorem stopOrReset_service (svc : Service) (how : StopHow) :
    (svc.stopOrReset how).1 = { svc with flags := stopFlags svc.flags how } := by
  unfold stopOrReset
  dsimp only
  split <;> rfl

/-- What an operation does to the record of a service: it calls `Start`, perhaps with
    other flags, or it changes flags alone.  Then the service is restarting only if
    it was, and neither disabled nor reset by it. -/
inductive Operated (svc : Service) : Service → Prop where
  | starts (flags : ServiceFlags) (e : StartEnv) : Operated svc ({ svc with flags }.start e).1
  | flags (flags : ServiceFlags)
      (settles : flags.restarting = true → svc.flags.restarting = true ∧
        (svc.flags.disabled = false → flags.disabled = false) ∧
        (svc.flags.reset = false → flags.reset = false)) : Operated svc { svc with flags }

theorem Operated.refl (svc : Service) : Operated svc svc :=
  .flags svc.flags fun again => ⟨again, id, id⟩

theorem stopOrReset_operated (svc : Service) (how : StopHow) : Operated svc (svc.stopOrReset how).1 := by
  rw [stopOrReset_service]
  refine .flags _ fun again => ?_
  rw [(stopFlags_keeps svc.flags how).2.2.2] at again
  cases again

theorem exec_operated (svc : Service) (op : ServiceOp) : Operated svc (op.exec svc).1 := by
  cases op with
  | start e => exact .starts svc.flags e
  | startIfNotDisabled e =>
    simp only [ServiceOp.exec, startIfNotDisabled]
    split
    · exact .starts svc.flags e
    · exact .flags _ fun again => ⟨again, id, id⟩
  | enable e =>
    simp only [ServiceOp.exec, enable]
    split
    · exact .starts _ e
    · exact .flags _ fun again => ⟨again, fun _ => rfl, id⟩
  | reset | stop => exact svc.stopOrReset_operated _
  | terminate =>
    simp only [ServiceOp.exec, terminate]
    split <;> exact .flags _ nofun
  | restart e =>
    simp only [ServiceOp.exec, restart]
    split
    · exact svc.stopOrReset_operated .restart
    · split
      · exact .starts svc.flags e
      · exact .refl svc
  | restartIfNeeded now time restartAt e =>
    simp only [ServiceOp.exec, restartIfNeeded]
    split
    · exact .starts _ e
    · split <;> exact .refl svc

theorem exec_settled (calm : svc.Settled) (op : ServiceOp) : (op.exec svc).1.Settled := by
  have hop := svc.exec_operated op
  generalize (op.exec svc).1 = post at hop ⊢
  cases hop with
  | starts fg e => exact settled_of_not_restarting (start_restarting _ e)
  | flags fg settles =>
    intro again
    obtain ⟨pre, off, reset⟩ := settles again
    exact ⟨off (calm pre).1, reset (calm pre).2⟩

theorem applyOp_settled (calm : svc.Settled) (ops : Service → Option ServiceOp) : (applyOp ops svc).Settled := by
  unfold applyOp
  cases ops svc with
  | none => exact calm
  | some op => exact exec_settled calm op

/-! ## The exit of a process -/

def exitFlags (flags : ServiceFlags) : ServiceFlags :=
  { flags with running := false, disabled := flags.disabled || (flags.oneshot && !flags.restart) }

/-- The signal that `Reap` starts with. -/
def reapKills (svc : Service) : List ServiceEffect :=
  if !svc.flags.oneshot || svc.flags.restart then svc.killProcessGroup .sigkill else []

/-- The service with the crash counted, if `Reap` does not panic. -/
def countCrash (svc : Service) (now : Int) : Option Service :=
  if svc.flags.critical && !svc.flags.restart then
    if now < svc.timeCrashed + seconds 240 then
      if svc.crashCount + 1 > 4 then none else some { svc with crashCount := svc.crashCount + 1 }
    else some { svc with timeCrashed := now, crashCount := 1 }
  else some svc

/-- `Reap` by cases, with its flags written out. -/
theorem reapBegin_eq (svc : Service) (now : Int) : svc.reapBegin now =
    if svc.flags.temporary then some (svc, svc.reapKills, false)
    else let quit : Service := { svc with pid := 0, flags := exitFlags svc.flags }
      if quit.flags.disabled || quit.flags.reset then
        some (quit, svc.reapKills ++ quit.notifyStateChange .stopped, false)
      else
        (quit.countCrash now).map fun hc =>
          ({ hc with flags := { exitFlags svc.flags with restart := false, restarting := true } },
            svc.reapKills, true) := by
  have fg : (if (svc.flags.oneshot && !svc.flags.restart) = true then
      { svc.flags with running := false, disabled := true } else { svc.flags with running := false }) =
      exitFlags svc.flags := by
    unfold exitFlags
    split
    · rename_i once
      simp [once]
    · rename_i once
      simp [once]
  unfold reapBegin countCrash reapKills
  dsimp only
  rw [fg]

theorem reapBegin_settled {rd : Service} {now : Int} {efs : List ServiceEffect} {onr : Bool}
    (calm : svc.Settled) (idle : svc.flags.restarting = false)
    (done : svc.reapBegin now = some (rd, efs, onr)) : rd.Settled := by
  rw [reapBegin_eq] at done
  split at done
  · cases done
    exact calm
  · dsimp only at done
    split at done
    · cases done
      exact settled_of_not_restarting idle
    · rename_i active
      obtain ⟨hc, -, eq⟩ := Option.map_eq_some_iff.mp done
      cases eq
      have active : (exitFlags svc.flags).disabled = false ∧ (exitFlags svc.flags).reset = false := by
        simpa using active
      exact fun _ => active

end Service

/-! ## Which services a step touches -/

namespace ServiceManager

variable {mgr : ServiceManager} {n : Bytes} {post : Service}

/-- `exec_start` changes the service it names, by `ExecStart`. -/
theorem mem_execStart {e : StartEnv} (mem : post ∈ (mgr.execStart n e).1.services) :
    post ∈ mgr.services ∨ ∃ pre ∈ mgr.services, post = (pre.execStart e).1 := by
  unfold execStart at mem
  split at mem
  · exact .inl mem
  · rcases mem_modify mem with ⟨old, -⟩ | ⟨pre, old, -, eq⟩
    · exact .inl old
    · exact .inr ⟨pre, old, eq⟩

/-- The second half of `ReapOneProcess` takes no service but the one reaped. -/
theorem mem_reapEnd (mem : post ∈ (mgr.reapEnd n).services) : post ∈ mgr.services := by
  unfold reapEnd at mem
  split at mem
  · exact mem
  · rename_i svc hf
    have eq : (if svc.flags.exec then { mgr with execWaiter := false } else mgr).services = mgr.services := by
      split <;> rfl
    dsimp only at mem
    split at mem
    · rw [← eq]
      exact eraseP_subset mem
    · rw [← eq]
      exact mem

end ServiceManager

namespace ManagerState

/-- No service of the manager is restarting and disabled or reset. -/
def Settled (s : ManagerState) : Prop := ∀ svc ∈ s.manager.services, svc.Settled

variable {s : ManagerState} {du : Bytes → Nat}

/-- `exec` adds the temporary service it started, and nothing if it could not start it. -/
theorem WellFormed.exec_services (wf : s.WellFormed) (du : Bytes → Nat) (args : List Bytes)
    (e : StartEnv) : (s.manager.exec du args e).1.services = s.manager.services ∨
      ∃ svc : Service, svc.flags.temporary = true ∧ (svc.execStart e).2.1 = true ∧
        (s.manager.exec du args e).1.services = s.manager.services ++ [(svc.execStart e).1] := by
  unfold ServiceManager.exec
  cases new : s.manager.makeExecOneshotService du args with
  | none => exact .inl rfl
  | some made =>
    obtain ⟨svc, mgr⟩ := made
    obtain ⟨rfl, ⟨cmd, name⟩, -, fg⟩ := ServiceManager.makeExecOneshotService_spec new
    have newName : ∀ o ∈ s.manager.services, o.name ≠ svc.name := by
      rw [name]
      exact wf.execName_new cmd
    -- the name is new, so the services before it stay as they were
    have changed : (s.manager.services ++ [svc]).map (fun o =>
          if o.name = svc.name then (o.execStart e).1 else o) = s.manager.services ++ [(svc.execStart e).1] := by
      rw [map_append, map_singleton, if_pos rfl]
      congr 1
      conv_rhs => rw [← map_id s.manager.services]
      exact map_congr_left fun o mem => if_neg (newName o mem)
    cases ok : (svc.execStart e).2.1 with
    | true =>
      refine .inr ⟨svc, by rw [fg], ok, ?_⟩
      simp only [ServiceManager.execStartService, ok]
      exact changed
    | false =>
      refine .inl ?_
      simp only [ServiceManager.execStartService, ok]
      show List.eraseP _ (List.map _ _) = _
      rw [changed, eraseP_append_right _ fun o mem => by simpa using newName o mem]
      simp [(svc.execStart_keeps e).name]

theorem taken_settled {post : ManagerState} {op : ManagerOp} (wf : s.WellFormed)
    (calm : s.Settled) (ht : Taken du s op post) : post.Settled := by
  cases ht with
  | add takes read =>
    unfold addService
    split
    · exact calm
    · intro o mem
      rcases mem_append.mp mem with old | new
      · exact calm o old
      · rw [mem_singleton.mp new]
        exact settled_of_not_restarting read.2.2.2.1
  | exec =>
    rename_i args e _ _
    intro o mem
    rcases wf.exec_services du args e with eq | ⟨svc, -, -, hg⟩
    · exact calm o (eq ▸ mem)
    · rcases mem_append.mp (hg ▸ mem) with old | new
      · exact calm o old
      · rw [mem_singleton.mp new]
        exact settled_of_not_restarting (svc.markExec.start_restarting e)
  | execStart =>
    intro o mem
    rcases mem_execStart mem with old | ⟨svc, -, rfl⟩
    · exact calm o old
    · exact settled_of_not_restarting (svc.markExec.start_restarting _)
  | operate =>
    intro o mem
    obtain ⟨svc, pre, rfl⟩ := mem_map.mp mem
    exact applyOp_settled (calm svc pre) _
  | untracked | crashed => exact calm
  | reapBegin idle nz hf safe done =>
    rename_i svc _ _ _
    intro o mem
    rcases mem_modify mem with ⟨old, -⟩ | ⟨_, -, -, rfl⟩
    · exact calm o old
    · have ow := mem_of_find?_eq_some hf
      have idle : svc.flags.restarting = false := by
        -- a service with a process is not waiting for its restart
        apply Bool.eq_false_iff.mpr
        intro again
        rw [← findServiceByPid_pid hf] at nz
        exact nz ((wf.sound svc ow).restarting again)
      exact reapBegin_settled (calm svc ow) idle done
  | reapEnd => exact fun o mem => calm o (mem_reapEnd mem)

theorem run_settled {ops : List ManagerOp}
    (run : Run (fun pre op post => pre.exec du op = some post) {} ops s) : s.Settled := by
  have both : s.WellFormed ∧ s.Settled :=
    run.invariant (P := fun s => s.WellFormed ∧ s.Settled)
      ⟨wellFormed_init, fun _ mem => absurd mem not_mem_nil⟩
      fun _ _ _ hinv ran =>
        have ht := (exec_taken ran).2
        ⟨taken_wellFormed hinv.1 ht, taken_settled hinv.1 hinv.2 ht⟩
  exact both.2

/-! ## Reaping and removing -/

theorem eraseP_congr {α : Type*} {p q : α → Bool} {items : List α} (eq : ∀ item ∈ items, p item = q item) :
    items.eraseP p = items.eraseP q := by
  induction items with
  | nil => rfl
  | cons item items ih =>
    have tl := ih fun o mem => eq o (mem_cons_of_mem _ mem)
    simp only [eraseP_cons, eq item mem_cons_self, tl]

section

variable {s : ManagerState} (wf : s.WellFormed) {svc : Service}

include wf

theorem WellFormed.pids_nodup : ((s.manager.services.map pid).filter (· ≠ 0)).Nodup := by
  have far : s.manager.services.Pairwise fun one two => one.name ≠ two.name :=
    pairwise_map.mp wf.names
  rw [List.Nodup, pairwise_filter, pairwise_map]
  apply far.imp_of_mem
  intro one two isOne hit otherName nz _ eq
  exact otherName (wf.pids two hit one isOne (eq ▸ by simpa using nz) eq)

/-- `RemoveService` removes the service it is given and nothing else. -/
theorem WellFormed.removeService_erase (mem : svc ∈ s.manager.services) :
    (s.manager.removeService svc.name).services = s.manager.services.erase svc := by
  rw [erase_eq_eraseP]
  apply eraseP_congr
  intro o om
  by_cases eq : o = svc
  · simp [eq]
  · have far : o.name ≠ svc.name := fun name => eq (wf.unique mem om name)
    simp [far, Ne.symm eq]

theorem WellFormed.removed : svc ∉ s.manager.services.erase svc :=
  wf.names.of_map.not_mem_erase

/-- `Reap` changes the service that owns the process, in its place. -/
theorem WellFormed.reapBegin_others {pid : Nat} {now : Int} {post : ManagerState}
    (ht : Taken du s (.reapBegin pid now) post) :
    List.Forall₂ (fun pre post => pre.pid ≠ pid → post = pre) s.manager.services post.manager.services := by
  cases ht with
  | untracked | crashed => exact forall₂_same.mpr fun _ _ _ => rfl
  | reapBegin idle nz hf safe done =>
    show List.Forall₂ _ _ (s.manager.services.map _)
    rw [forall₂_map_right_iff, forall₂_same]
    intro o mem far
    apply if_neg
    intro eq
    have service := wf.unique (mem_of_find?_eq_some hf) mem eq
    exact far (service ▸ findServiceByPid_pid hf)

/-- The rest of `ReapOneProcess` removes the service if it is temporary. -/
theorem WellFormed.reapEnd_services {child : Reaping} (dead : s.reaping = some child) :
    (s.manager.reapEnd child.name).services =
      s.manager.services.filter fun svc => ¬ (svc.name = child.name ∧ svc.flags.temporary = true) := by
  obtain ⟨svc, mem, named, -⟩ := wf.reaping child dead
  rw [← named]
  unfold ServiceManager.reapEnd
  rw [wf.find mem]
  dsimp only
  have eq : (if svc.flags.exec then { s.manager with execWaiter := false } else s.manager).services =
      s.manager.services := by
    split <;> rfl
  cases hit : svc.flags.temporary with
  | false =>
    rw [if_neg (by simp), eq]
    symm
    apply filter_eq_self.mpr
    intro o om
    -- another service of this name would be this one, which is not temporary
    have kept : ¬ (o.name = svc.name ∧ o.flags.temporary = true) := by
      rintro ⟨name, set⟩
      rw [wf.unique mem om name, hit] at set
      cases set
    exact decide_eq_true kept
  | true =>
    show (List.eraseP _ _) = _
    rw [eq]
    have gone := wf.removeService_erase mem
    rw [wf.names.of_map.erase_eq_filter] at gone
    apply gone.trans
    apply filter_congr
    intro o om
    by_cases service : o = svc
    · simp [service, hit]
    · have far : o.name ≠ svc.name := fun name => service (wf.unique mem om name)
      simp [service, far]

end

end ManagerState

/-- The service table stays valid: in every reachable state of the manager the names
    are distinct, a service runs exactly if it has a process, processes are distinct, and a
    service that is to be restarted is neither running nor disabled nor reset.  So
    `ReapOneProcess` changes the owner of the process and, in its second half, removes no
    service but a temporary owner, and `RemoveService` removes the one it is given. -/
theorem service_table_stays_valid (du : Bytes → Nat) (ops : List ManagerOp) (s : ManagerState)
    (run : Run (fun pre op post => pre.exec du op = some post) {} ops s) :
    (s.manager.services.map name).Nodup ∧
      (∀ svc ∈ s.manager.services, svc.flags.running = true ↔ svc.pid ≠ 0) ∧
      ((s.manager.services.map pid).filter (· ≠ 0)).Nodup ∧
      (∀ svc ∈ s.manager.services, svc.flags.restarting = true →
        svc.flags.running = false ∧ svc.flags.disabled = false ∧ svc.flags.reset = false) ∧
      (∀ pid now post, s.exec du (.reapBegin pid now) = some post →
        List.Forall₂ (fun pre post => pre.pid ≠ pid → post = pre) s.manager.services post.manager.services ∧
          ∀ reaping ∈ post.reaping, ∃ svc ∈ s.manager.services, svc.pid = pid ∧ svc.name = reaping.name) ∧
      (∀ post, s.exec du .reapEnd = some post → ∃ reaping ∈ s.reaping,
        post.manager.services = s.manager.services.filter fun svc =>
          ¬ (svc.name = reaping.name ∧ svc.flags.temporary = true)) ∧
      ∀ svc ∈ s.manager.services,
        (s.manager.removeService svc.name).services = s.manager.services.erase svc ∧
          svc ∉ (s.manager.removeService svc.name).services := by
  have wf := ManagerState.run_wellFormed run
  have settled := run_settled run
  refine ⟨wf.names, fun svc member => (wf.sound svc member).running, wf.pids_nodup, ?_, ?_, ?_, ?_⟩
  · intro svc member restarting
    refine ⟨?_, settled svc member restarting⟩
    have sound := wf.sound svc member
    apply Bool.eq_false_iff.mpr
    intro running
    exact sound.running.mp running (sound.restarting restarting)
  · intro pid now post exec
    have taken := (exec_taken exec).2
    refine ⟨wf.reapBegin_others taken, ?_⟩
    intro reaping isReaped
    -- only a process that belongs to a service starts a reaping
    cases taken with
    | untracked idle | crashed idle =>
      rw [show _ = none from idle] at isReaped
      cases isReaped
    | reapBegin idle nonzero found =>
      cases isReaped
      exact ⟨_, mem_of_find?_eq_some found, findServiceByPid_pid found, rfl⟩
  · intro post exec
    cases (exec_taken exec).2 with
    | reapEnd isReaped => exact ⟨_, isReaped, wf.reapEnd_services isReaped⟩
  · intro svc member
    rw [wf.removeService_erase member]
    exact ⟨rfl, wf.removed⟩

/-- Two services are started, an `exec` runs beside them, and one of the two exits. -/
def busyTable : List ManagerOp :=
  [.add { name := ascii "a", args := [ascii "/a"] }, .add { name := ascii "b", args := [ascii "/b"] },
    .add { name := ascii "a", args := [ascii "/other"] },
    .operate fun svc => some (.start { fork := some (if svc.name = ascii "a" then firstChild else secondChild) }),
    .exec [ascii "exec", ascii "/c"] { fork := some ⟨9, by decide⟩ }, .reapBegin 8 1]

set_option maxRecDepth 8000 in
theorem service_table_stays_valid_busy :
    ∃ s, Run (fun pre op post => ManagerState.exec (fun _ => 0) pre op = some post) {} busyTable s ∧
      s.manager.services.map pid = [7, 0, 9] ∧ (s.manager.services.map name).Nodup ∧
      ((s.manager.services.map pid).filter (· ≠ 0)).Nodup := by
  have ends : ((runLabels (fun _ _ => True) (ManagerState.exec fun _ => 0) {} busyTable).map fun s =>
      decide (s.manager.services.map pid = [7, 0, 9])) = some true := by decide
  obtain ⟨s, ran, pids⟩ := Option.map_eq_some_iff.mp ends
  have run := (run_of_runLabels ran).mono fun _ _ _ taken => taken.2
  have valid := service_table_stays_valid (fun _ => 0) busyTable s run
  exact ⟨s, run, of_decide_eq_true pids, valid.1, valid.2.2.1⟩

end Aosp.Init
