import Aosp.Init.ServiceRestart

/-! # Commands for whole classes

Model of the `class_` commands of `init/builtins.cpp` and of `restart_processes` of
`init/init.cpp`: each goes over all services and treats some of them.

A disabled service should be left alone by all of them.  It is not by
`class_restart`; `disabled_service_stays_iff` says which runs leave it disabled.
-/

namespace Aosp.Init

open Aosp.Lib Aosp.Bionic List ServiceManager ManagerState

/-! ## The commands -/

def forEachServiceInClass (classname : Bytes) (op : Service → ServiceOp) : ManagerOp :=
  .operate fun svc => if classname ∈ svc.classnames then some (op svc) else none

/-- The service that `FindServiceByName` finds. -/
def onService (n : Bytes) (op : ServiceOp) : ManagerOp :=
  .operate fun svc => if svc.name = n then some op else none

/-- `restart_processes` over the services of the manager: those with `SVC_RESTARTING` are
    restarted if it is time, and `processNeedsRestartAt` is passed along.  `clock` gives
    the boot clock and the wall clock as each service reads them. -/
def restartProcesses (clock : Service → Int × Int) (e : Service → StartEnv) :
    List Service → Int → List Service × Int
  | [], processNeedsRestartAt => ([], processNeedsRestartAt)
  | service :: services, processNeedsRestartAt =>
    let restarted : Service × Int :=
      if service.flags.restarting then
        let res := service.restartIfNeeded (clock service).1 (clock service).2 processNeedsRestartAt (e service)
        (res.1, res.2.2)
      else (service, processNeedsRestartAt)
    let tl := restartProcesses clock e services restarted.2
    (restarted.1 :: tl.1, tl.2)

/-- What `restart_processes` does to a service. -/
def restartOp (clock : Service → Int × Int) (e : Service → StartEnv) (svc : Service) : Option ServiceOp :=
  if svc.flags.restarting then some (.restartIfNeeded (clock svc).1 (clock svc).2 0 (e svc))
  else none

/-- The commands of init that act on services, the start of the main loop's round
    (`restartProcesses`), and the exits of processes. -/
inductive ServiceCommand where
  | classStart (classname : Bytes) (e : Service → StartEnv)
  | classStop (classname : Bytes)
  | classReset (classname : Bytes)
  | classRestart (classname : Bytes) (e : Service → StartEnv)
  | restartProcesses (clock : Service → Int × Int) (e : Service → StartEnv)
  | start (n : Bytes) (e : StartEnv)
  | stop (n : Bytes)
  | restart (n : Bytes) (e : StartEnv)
  | enable (n : Bytes) (e : StartEnv)
  | exec (args : List Bytes) (e : StartEnv)
  | execStart (n : Bytes) (e : StartEnv)
  | add (svc : Service)
  | reapBegin (pid : Nat) (now : Int)
  | reapEnd

namespace ServiceCommand

def op : ServiceCommand → ManagerOp
  | .classStart classname e => forEachServiceInClass classname fun svc => .startIfNotDisabled (e svc)
  | .classStop classname => forEachServiceInClass classname fun _ => .stop
  | .classReset classname => forEachServiceInClass classname fun _ => .reset
  | .classRestart classname e => forEachServiceInClass classname fun svc => .restart (e svc)
  | .restartProcesses clock e => .operate (restartOp clock e)
  | .start n e => onService n (.start e)
  | .stop n => onService n .stop
  | .restart n e => onService n (.restart e)
  | .enable n e => onService n (.enable e)
  | .exec args e => .exec args e
  | .execStart n e => .execStart n e
  | .add svc => .add svc
  | .reapBegin pid now => .reapBegin pid now
  | .reapEnd => .reapEnd

def run (du : Bytes → Nat) (s : ManagerState) (cmd : ServiceCommand) : Option ManagerState :=
  s.exec du cmd.op

def Requests (n : Bytes) : ServiceCommand → Prop
  | .start other _ | .restart other _ | .enable other _ | .execStart other _ => other = n
  | _ => False

/-- The command leaves a disabled service alone: it is no `class_restart` of one of its
    classes, unless the console or the binary of the service is missing. -/
def LeavesDisabled (n : Bytes) (s : ManagerState) : ServiceCommand → Prop
  | .classRestart classname e => ∀ svc ∈ s.manager.findServiceByName n,
      classname ∈ svc.classnames → svc.Unavailable (e svc)
  | _ => True

end ServiceCommand

/-! ## One service under the commands -/

def Service.Dormant (svc : Service) : Prop :=
  svc.flags.disabled = true ∧ svc.flags.running = false

instance (svc : Service) : Decidable svc.Dormant := inferInstanceAs (Decidable (_ ∧ _))

def ManagerState.Dormant (n : Bytes) (s : ManagerState) : Prop :=
  ∃ svc, s.manager.findServiceByName n = some svc ∧ svc.Dormant

namespace Service

variable {svc : Service}

theorem stopOrReset_dormant (sleeps : svc.Dormant) (how : StopHow) : (svc.stopOrReset how).1.Dormant := by
  obtain ⟨off, stop⟩ := sleeps
  rw [stopOrReset_service]
  refine ⟨?_, ((stopFlags_keeps svc.flags how).2.2.1).trans stop⟩
  cases how with
  | disabled => rfl
  | restart => exact off
  | reset =>
    unfold stopFlags
    dsimp only
    split
    · rfl
    · exact off

/-- `class_start` only remembers that it was asked for. -/
theorem startIfNotDisabled_dormant (sleeps : svc.Dormant) (e : StartEnv) : (svc.startIfNotDisabled e).1.Dormant := by
  unfold startIfNotDisabled
  rw [if_neg (by simp [sleeps.1])]
  exact sleeps

theorem restart_dormant_iff (sleeps : svc.Dormant) (calm : svc.Settled) (e : StartEnv) :
    (svc.restart e).1.Dormant ↔ svc.Unavailable e := by
  have idle : svc.flags.restarting = false := by
    apply Bool.eq_false_iff.mpr
    intro again
    have he := (calm again).1
    rw [sleeps.1] at he
    cases he
  have start : (svc.restart e).1 = (svc.start e).1 := by
    unfold restart
    rw [if_neg (by simp [sleeps.2]), if_pos idle]
  rw [start]
  rcases start_stopped sleeps.2 e with ⟨lacks, off, stop⟩ | ⟨ready, he, -⟩
  · exact ⟨fun _ => lacks, fun _ => ⟨off, stop⟩⟩
  · refine ⟨fun still => ?_, fun lacks => absurd lacks ready⟩
    rw [Dormant, he] at still
    cases still.1

end Service

namespace ServiceManager

variable {mgr : ServiceManager}

theorem findServiceByName_mapServices {chg : Service → Service} (name : ∀ svc, (chg svc).name = svc.name) (n : Bytes) :
    (mgr.mapServices chg).findServiceByName n = (mgr.findServiceByName n).map chg := by
  show (mgr.services.map chg).find? _ = _
  rw [List.find?_map]
  congr 2
  funext svc
  simp [name]

theorem findServiceByName_name {n : Bytes} {svc : Service}
    (hf : mgr.findServiceByName n = some svc) : svc.name = n := by
  simpa using List.find?_some hf

end ServiceManager

/-- The step operates on no service of this name: it starts no operation, and no
    `exec_start` of it. -/
def ManagerOp.Elsewhere (n : Bytes) : ManagerOp → Prop
  | .operate _ => False
  | .execStart other _ => other ≠ n
  | _ => True

namespace ManagerState

/-! ## A temporary service is there only while it runs -/

/-- There is no temporary service without a process. -/
def NoLeftovers (s : ManagerState) : Prop :=
  ∀ svc ∈ s.manager.services, svc.flags.temporary = true → svc.pid ≠ 0

theorem keeps_process {svc post : Service} {fork : Option ChildPid} (hs : svc.Sound)
    (keep : svc.Keeps fork post) (hp : svc.flags.temporary = true → svc.pid ≠ 0)
    (temp : post.flags.temporary = true) : post.pid ≠ 0 := by
  rcases keep.pid hs with eq | ⟨-, chd, -, child⟩
  · rw [eq]
    exact hp (keep.temporary ▸ temp)
  · rw [child]
    exact chd.2

variable {du : Bytes → Nat} {s post : ManagerState} {op : ManagerOp}

theorem taken_noLeftovers (wf : s.WellFormed) (hp : s.NoLeftovers) (ht : Taken du s op post) : post.NoLeftovers := by
  cases ht with
  | add _ read =>
    unfold addService
    split
    · exact hp
    · intro o mem temp
      rcases mem_append.mp mem with old | new
      · exact hp o old temp
      · rw [mem_singleton.mp new, read.2.2.2.2.2] at temp
        cases temp
  | exec =>
    rename_i args e _ _
    intro o mem
    rcases wf.exec_services du args e with eq | ⟨svc, -, ok, hg⟩
    · exact hp o (eq ▸ mem)
    · rcases mem_append.mp (hg ▸ mem) with old | new
      · exact hp o old
      -- the temporary service is added once its fork has succeeded
      · obtain ⟨chd, -, child⟩ := Service.start_success ok
        rw [mem_singleton.mp new, show (svc.execStart e).1.pid = chd.1 from child]
        exact fun _ => chd.2
  | execStart =>
    intro o mem
    rcases mem_execStart mem with old | ⟨svc, old, rfl⟩
    · exact hp o old
    · exact keeps_process (wf.sound svc old) (svc.execStart_keeps _) (hp svc old)
  | operate =>
    intro o mem
    obtain ⟨svc, old, rfl⟩ := mem_map.mp mem
    exact keeps_process (wf.sound svc old) (applyOp_keeps _ svc) (hp svc old)
  | untracked | crashed => exact hp
  | reapBegin _ _ hf _ done =>
    intro o mem temp
    have old := mem_of_find?_eq_some hf
    rcases mem_modify mem with ⟨pre, -⟩ | ⟨_, -, -, rfl⟩
    · exact hp o pre temp
    -- `Reap` leaves a temporary service its pid; it is removed afterwards
    · obtain ⟨-, -, sameTemporary, -, kept | gone⟩ := Service.reapBegin_keeps done (wf.sound _ old)
      · rw [kept.2.1]
        exact hp _ old kept.1
      · rw [sameTemporary, gone.1] at temp
        cases temp
  | reapEnd => exact fun o mem => hp o (mem_reapEnd mem)

/-- What is known of every reachable state. -/
structure Sound (s : ManagerState) : Prop where
  wellFormed : s.WellFormed
  settled : s.Settled
  present : s.NoLeftovers

theorem exec_sound (hs : s.Sound) (ran : s.exec du op = some post) : post.Sound :=
  have ht := (exec_taken ran).2
  ⟨taken_wellFormed hs.wellFormed ht, taken_settled hs.wellFormed hs.settled ht,
    taken_noLeftovers hs.wellFormed hs.present ht⟩

theorem run_sound {ops : List ManagerOp}
    (run : Run (fun pre op post => pre.exec du op = some post) {} ops s) : s.Sound :=
  run.invariant
    ⟨wellFormed_init, fun _ mem => absurd mem not_mem_nil, fun _ mem => absurd mem not_mem_nil⟩
    fun _ _ _ hs ran => exec_sound hs ran

/-! ## A disabled service under a command -/

section

variable {du : Bytes → Nat} {s post : ManagerState} {n : Bytes} {svc : Service}
  (hs : s.Sound) (hf : s.manager.findServiceByName n = some svc)

include hf

/-- A command that goes over the services does to this one what it does. -/
theorem operate_dormant_iff {ops : Service → Option ServiceOp} (ran : s.exec du (.operate ops) = some post) :
    post.Dormant n ↔ (applyOp ops svc).Dormant := by
  cases (exec_taken ran).2 with
  | operate =>
    have eq : (s.manager.mapServices (applyOp ops)).findServiceByName n = some (applyOp ops svc) := by
      rw [findServiceByName_mapServices (fun svc => (applyOp_keeps ops svc).name) n, hf]
      rfl
    simp [Dormant, eq]

/-- A command for some services keeps this one disabled if it is one of them and its
    operation does. -/
theorem some_dormant_iff {chosen : Service → Prop} [DecidablePred chosen] {op : Service → ServiceOp}
    (sleeps : svc.Dormant)
    (ran : s.exec du (.operate fun svc => if chosen svc then some (op svc) else none) = some post) :
    post.Dormant n ↔ (chosen svc → ((op svc).exec svc).1.Dormant) := by
  rw [operate_dormant_iff hf ran]
  by_cases pick : chosen svc
  · simp [applyOp, pick]
  · simp [applyOp, pick, sleeps]

include hs in
theorem untouched (sleeps : svc.Dormant) (ran : s.exec du op = some post) (far : op.Elsewhere n) : post.Dormant n := by
  have mem := mem_of_find?_eq_some hf
  have name := findServiceByName_name hf
  have idle : svc.pid = 0 := by
    by_contra present
    have hr := (hs.wellFormed.sound svc mem).running.mpr present
    rw [sleeps.2] at hr
    cases hr
  suffices stays : svc ∈ post.manager.services by
    refine ⟨svc, ?_, sleeps⟩
    rw [← name]
    exact (exec_sound hs ran).wellFormed.find stays
  cases (exec_taken ran).2 with
  | add =>
    rename_i new _ _
    show svc ∈ (s.manager.addService new).services
    unfold addService
    split
    · exact mem
    · exact mem_append_left _ mem
  | exec =>
    rename_i args e _ _
    show svc ∈ (s.manager.exec du args e).1.services
    rcases hs.wellFormed.exec_services du args e with eq | ⟨_, -, -, hg⟩
    · rw [eq]
      exact mem
    · rw [hg]
      exact mem_append_left _ mem
  | execStart =>
    rename_i o e _ _
    show svc ∈ (s.manager.execStart o e).1.services
    unfold execStart
    split
    · exact mem
    · rename_i ow own
      apply mem_modify_of_ne mem
      intro eq
      rw [findServiceByName_name own, name] at eq
      exact far eq.symm
  | operate => exact far.elim
  | untracked | crashed => exact mem
  | reapBegin _ nz own _ _ =>
    -- the process that exits is not one of this service
    apply mem_modify_of_ne mem
    intro eq
    have service := hs.wellFormed.unique (mem_of_find?_eq_some own) mem eq
    have owns := findServiceByPid_pid own
    rw [← service, idle] at owns
    exact nz owns.symm
  | reapEnd dead =>
    show svc ∈ (s.manager.reapEnd _).services
    rw [hs.wellFormed.reapEnd_services dead]
    apply mem_filter.mpr
    refine ⟨mem, decide_eq_true ?_⟩
    rintro ⟨-, temp⟩
    exact hs.present svc mem temp idle

end

theorem step_dormant_iff {n : Bytes} {cmd : ServiceCommand} (hs : s.Sound) (sleeps : s.Dormant n)
    (unasked : ¬ cmd.Requests n) (ran : cmd.run du s = some post) : post.Dormant n ↔ cmd.LeavesDisabled n s := by
  obtain ⟨svc, hf, idle⟩ := sleeps
  have calm := hs.settled svc (mem_of_find?_eq_some hf)
  cases cmd with
  | classStart classname e =>
    rw [some_dormant_iff hf idle ran]
    exact ⟨fun _ => trivial, fun _ _ => Service.startIfNotDisabled_dormant idle _⟩
  | classStop which | classReset which | stop which =>
    rw [some_dormant_iff hf idle ran]
    exact ⟨fun _ => trivial, fun _ _ => Service.stopOrReset_dormant idle _⟩
  | classRestart classname e =>
    rw [some_dormant_iff hf idle ran]
    simp only [ServiceCommand.LeavesDisabled, hf, Option.mem_def, Option.some.injEq, forall_eq']
    exact imp_congr_right fun _ => Service.restart_dormant_iff idle calm _
  | restartProcesses _ e =>
    rw [some_dormant_iff hf idle ran]
    -- a disabled service is not waiting for its restart
    refine ⟨fun _ => trivial, fun _ again => ?_⟩
    have he := (calm again).1
    rw [idle.1] at he
    cases he
  | start o e | restart o e | enable o e =>
    rw [some_dormant_iff hf idle ran]
    refine ⟨fun _ => trivial, fun _ eq => ?_⟩
    exact absurd (eq.symm.trans (findServiceByName_name hf)) unasked
  | execStart o e => exact ⟨fun _ => trivial, fun _ => untouched hs hf idle ran unasked⟩
  | exec args e | add new | reapBegin pid now | reapEnd =>
    exact ⟨fun _ => trivial, fun _ => untouched hs hf idle ran trivial⟩

end ManagerState

/-- From any reachable state in which a service is disabled and not running, it stays
    so through a run that does not ask for it by name exactly if no step of the run is a
    `class_restart` of one of its classes that finds its console and its binary. -/
theorem disabled_service_stays_iff (du : Bytes → Nat) (history : List ManagerOp) (s : ManagerState)
    (reached : Run (fun pre op post => pre.exec du op = some post) {} history s) (n : Bytes)
    (dormant : s.Dormant n) (cmds : List ServiceCommand) (unasked : ∀ cmd ∈ cmds, ¬ cmd.Requests n) :
    AllStates (ServiceCommand.run du) (ManagerState.Dormant n) s cmds ↔
      AllSteps (ServiceCommand.run du) (ServiceCommand.LeavesDisabled n) s cmds :=
  allStates_iff_allSteps_of_mem (L := fun cmd => ¬ cmd.Requests n) (I := ManagerState.Sound)
    (fun _ _ _ _ sound _ exec => exec_sound sound exec)
    (fun _ _ _ unasked sound dormant exec => step_dormant_iff sound dormant unasked exec)
    cmds unasked s (ManagerState.run_sound reached) dormant

/-- A service with the option `disabled`. -/
def disabledService : Service :=
  { name := ascii "a", args := [ascii "/a"], flags := { disabled := true, rcDisabled := true } }

def classCommands : List ServiceCommand :=
  [.classStart (ascii "default") fun _ => { fork := some firstChild }, .classReset (ascii "default"),
    .classStop (ascii "default"), .restartProcesses (fun _ => (0, 0)) fun _ => { fork := some secondChild }]

set_option maxRecDepth 8000 in
theorem disabled_service_stays_iff_classCommands :
    ∃ s : ManagerState, s.Dormant (ascii "a") ∧
      AllStates (ServiceCommand.run fun _ => 0) (ManagerState.Dormant (ascii "a")) s classCommands := by
  have reached : Run (fun pre op post => ManagerState.exec (fun _ => 0) pre op = some post) {}
      [.add disabledService] { manager := { services := [disabledService] } } := .snoc .nil rfl
  have dormant : ManagerState.Dormant (ascii "a") { manager := { services := [disabledService] } } :=
    ⟨disabledService, by decide, by decide⟩
  refine ⟨_, dormant, (disabled_service_stays_iff (fun _ => 0) _ _ reached (ascii "a") dormant classCommands ?_).mpr ?_⟩
  · simp [classCommands, ServiceCommand.Requests]
  · simp [classCommands, AllSteps, ServiceCommand.LeavesDisabled]

set_option maxRecDepth 8000 in
/-- The service is there, disabled and not running, and `class_restart` starts it. -/
theorem class_restart_starts_disabled :
    (exec (fun _ => 0) {} (.add disabledService)).map (fun s => s.manager.services.map
        fun svc => (svc.flags.disabled, svc.flags.running)) = some [(true, false)] ∧
    ((exec (fun _ => 0) {} (.add disabledService)).bind fun s =>
        (ServiceCommand.classRestart (ascii "default") fun _ => { fork := some ⟨7, by decide⟩ }).run
          (fun _ => 0) s).map (fun s => s.manager.services.map
        fun svc => (svc.flags.running, svc.pid)) = some [(true, 7)] := by
  decide

end Aosp.Init
