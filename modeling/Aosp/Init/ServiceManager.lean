import Aosp.Init.Service
import Aosp.Lib.Run

/-! # The service manager

Model of class `ServiceManager` of `init/service.cpp`, and of the machine around it:
the commands of init that act on services, and the exits of their processes.

A `Service*` is the name of the service.  This is no restriction, because names stay
distinct: `AddService` drops a second definition, and the names of services made by
`exec` are numbered and are not legal names.

`Reap` runs the `onrestart` commands of a service while `ReapOneProcess` is still at
work, so the machine takes `ReapOneProcess` in two steps.  It also records, for what
is proved about it, which children were started by `exec` or `exec_start` and have
not been reaped.  `ManagerState.exec_taken` says what a step can do, and
`ManagerState.run_wellFormed` that the invariant holds in every run.
-/

namespace Aosp.Init

open Aosp.Lib Aosp.Bionic List

/-- `execWaiter` is whether `exec_waiter_` points to a timer. -/
structure ServiceManager where
  services : List Service := []
  execWaiter : Bool := false
  execCount : Nat := 0

namespace ServiceManager

def findServiceByName (manager : ServiceManager) (n : Bytes) : Option Service :=
  manager.services.find? fun svc => svc.name = n

def findServiceByPid (manager : ServiceManager) (pid : Nat) : Option Service :=
  manager.services.find? fun svc => svc.pid = pid

variable {mgr : ServiceManager} {svc : Service} {n : Bytes} {chg : Service → Service} {pid : Nat}

theorem findServiceByPid_pid (hf : mgr.findServiceByPid pid = some svc) : svc.pid = pid := by
  simpa using List.find?_some hf

section

variable (manager : ServiceManager)

def addService (svc : Service) : ServiceManager :=
  match manager.findServiceByName svc.name with
  | some _ => manager
  | none => { manager with services := manager.services ++ [svc] }

def removeService (n : Bytes) : ServiceManager :=
  { manager with services := manager.services.eraseP fun svc => svc.name = n }

def mapServices (change : Service → Service) : ServiceManager :=
  { manager with services := manager.services.map change }

def modify (n : Bytes) (change : Service → Service) : ServiceManager :=
  manager.mapServices fun svc => if svc.name = n then change svc else svc

theorem mem_modify {post : Service} (mem : post ∈ (mgr.modify n chg).services) :
    (post ∈ mgr.services ∧ post.name ≠ n) ∨ ∃ svc ∈ mgr.services, svc.name = n ∧ post = chg svc := by
  obtain ⟨svc, pre, rfl⟩ := mem_map.mp mem
  by_cases name : svc.name = n
  · exact .inr ⟨svc, pre, name, if_pos name⟩
  · rw [if_neg name]
    exact .inl ⟨pre, name⟩

theorem mem_modify_of_ne (mem : svc ∈ mgr.services) (o : svc.name ≠ n) : svc ∈ (mgr.modify n chg).services :=
  mem_map.mpr ⟨svc, mem, if_neg o⟩

theorem mem_modify_of_eq (mem : svc ∈ mgr.services) (eq : svc.name = n) : chg svc ∈ (mgr.modify n chg).services :=
  mem_map.mpr ⟨svc, mem, if_pos eq⟩

/-! ## `exec` -/

def NR_SVC_SUPP_GIDS : Nat := 12

def execName (count : Nat) (cmd : Bytes) : Bytes :=
  ascii "exec " ++ decimal count ++ ascii " (" ++ cstr cmd ++ ascii ")"

/-- Where the command of `exec [SECLABEL [UID [GID]*] --] COMMAND ARGS...` is. -/
def commandArg (args : List Bytes) : Nat :=
  match (args.drop 1).findIdx? (· = ascii "--") with
  | some i => i + 2
  | none => 1

/-- `du` is `decode_uid`. -/
def makeExecOneshotService (du : Bytes → Nat) (manager : ServiceManager) (args : List Bytes) :
    Option (Service × ServiceManager) :=
  let commandArg := commandArg args
  if commandArg > 4 + NR_SVC_SUPP_GIDS then none
  else if commandArg ≥ args.length then none
  else
    let strArgs := args.drop commandArg
    let execCount := manager.execCount + 1
    let svc : Service :=
      { name := execName execCount (strArgs.headD [])
        flags := { exec := true, oneshot := true, temporary := true }
        seclabel := if commandArg > 2 ∧ args.getD 1 [] ≠ ascii "-" then args.getD 1 [] else []
        uid := if commandArg > 3 then du (args.getD 2 []) else 0
        gid := if commandArg > 4 then du (args.getD 3 []) else 0
        suppGids := if commandArg > 4 then ((args.drop 4).take (commandArg - 1 - 4)).map du else []
        args := strArgs }
    some (svc, { manager with services := manager.services ++ [svc], execCount })

theorem makeExecOneshotService_spec {du : Bytes → Nat} {made : ServiceManager} {args : List Bytes}
    (new : mgr.makeExecOneshotService du args = some (svc, made)) :
    made = { mgr with services := mgr.services ++ [svc], execCount := mgr.execCount + 1 } ∧
      (∃ cmd, svc.name = execName (mgr.execCount + 1) cmd) ∧ svc.pid = 0 ∧
      svc.flags = { exec := true, oneshot := true, temporary := true } := by
  unfold makeExecOneshotService at new
  dsimp only at new
  split at new
  · cases new
  · split at new
    · cases new
    · cases new
      exact ⟨rfl, ⟨_, rfl⟩, rfl, rfl⟩

/-- `Service::ExecStart` on the service of this name: it leaves a timer exactly if
    the service was started. -/
def execStartService (svc : Service) (e : StartEnv) : ServiceManager × Bool :=
  let success := (svc.execStart e).2.1
  ({ manager.modify svc.name (fun svc => (svc.execStart e).1) with execWaiter := success }, success)

def exec (du : Bytes → Nat) (manager : ServiceManager) (args : List Bytes) (e : StartEnv) :
    ServiceManager × Bool :=
  match manager.makeExecOneshotService du args with
  | none => (manager, false)
  | some (svc, manager) =>
    match manager.execStartService svc e with
    | (manager, true) => (manager, true)
    | (manager, false) => (manager.removeService svc.name, false)

def execStart (n : Bytes) (e : StartEnv) : ServiceManager × Bool :=
  match manager.findServiceByName n with
  | none => (manager, false)
  | some svc => manager.execStartService svc e

def isWaitingForExec : Bool := manager.execWaiter

/-- The number is part of the name. -/
theorem execName_count {cnt o : Nat} {cmd otherCommand : Bytes}
    (eq : execName cnt cmd = execName o otherCommand) : cnt = o := by
  have pure : ∀ n, (32 : UInt8) ∉ decimal n := fun n mem => by
    have cap := (mem_decimal mem).1
    exact absurd cap (by decide)
  have spaced : ∀ n cmd, execName n cmd =
      ascii "exec " ++ (decimal n ++ 32 :: (ascii "(" ++ cstr cmd ++ ascii ")")) := by
    intro n cmd
    simp only [execName, append_assoc]
    rfl
  rw [spaced, spaced] at eq
  exact decimal_injective (eq_of_append_cons (pure cnt) (pure o) (append_cancel_left eq))

/-- The parser accepts no name that `exec` makes. -/
theorem isValidName_execName (cnt : Nat) (cmd : Bytes) : isValidName (execName cnt cmd) = false := by
  apply Bool.eq_false_iff.mpr
  intro hv
  simp only [isValidName, Bool.and_eq_true] at hv
  have space : (32 : UInt8) ∈ ascii "init.svc." ++ execName cnt cmd := by
    apply mem_append_right
    simp only [execName, append_assoc]
    apply mem_append_left
    decide
  exact absurd (legal_mem hv.1 space) (by decide)

/-! ## Reaping -/

/-- `ReapOneProcess` up to the `onrestart` commands. -/
inductive ReapBegin where
  | untracked
  -- `exec_waiter_` is dereferenced and is null
  | nullDereference
  | panicked
  | reaping (manager : ServiceManager) (n : Bytes) (onrestart : Bool)

def reapBegin (pid : Nat) (now : Int) : ReapBegin :=
  match manager.findServiceByPid pid with
  | none => .untracked
  | some svc =>
    if svc.flags.exec && !manager.execWaiter then .nullDereference
    else
      match svc.reapBegin now with
      | none => .panicked
      | some (reaped, _, onrestart) => .reaping (manager.modify svc.name fun _ => reaped) svc.name onrestart

/-- The rest of `ReapOneProcess`, after the `onrestart` commands. -/
def reapEnd (n : Bytes) : ServiceManager :=
  match manager.findServiceByName n with
  | none => manager
  | some svc =>
    let manager := if svc.flags.exec then { manager with execWaiter := false } else manager
    if svc.flags.temporary then manager.removeService svc.name else manager

end

end ServiceManager

/-! ## The machine -/

/-- `ReapOneProcess` is at the service `name`; `onrestart` is whether it is at its
    commands, and `execChild` whether the process that exited was one of those
    started by `exec` or `exec_start`. -/
structure Reaping where
  name : Bytes
  onrestart : Bool
  execChild : Bool

structure ManagerState where
  manager : ServiceManager := {}
  reaping : Option Reaping := none
  -- `exec_waiter_` was dereferenced while it was null
  crashed : Bool := false
  -- the children started by `exec` and `exec_start` that have not exited
  execChildren : List Nat := []

/-- The commands of init that act on services, and the two halves of
    `ReapOneProcess`.  `operate` gives each service the operation it is to undergo:
    `start`, `stop`, `restart` and `enable` choose the service by its name, the
    `class_` commands by its class and `restart_processes` by its flags. -/
inductive ManagerOp where
  | add (svc : Service)
  | exec (args : List Bytes) (e : StartEnv)
  | execStart (n : Bytes) (e : StartEnv)
  | operate (ops : Service → Option ServiceOp)
  | reapBegin (pid : Nat) (now : Int)
  | reapEnd

/-- A service as the parser makes it. -/
def Service.Parsed (svc : Service) : Prop :=
  isValidName svc.name = true ∧ svc.pid = 0 ∧ svc.flags.running = false ∧
    svc.flags.restarting = false ∧ svc.flags.exec = false ∧ svc.flags.temporary = false

instance (svc : Service) : Decidable svc.Parsed := inferInstanceAs (Decidable (_ ∧ _))

/-- A `fork` gives a child that is not the process of another service. -/
def FreshFork (services : List Service) (fork : Option ChildPid) : Prop :=
  ∀ child ∈ fork, ∀ svc ∈ services, svc.pid ≠ child.1

instance (services : List Service) (fork : Option ChildPid) : Decidable (FreshFork services fork) :=
  inferInstanceAs (Decidable (∀ child ∈ fork, _))

def FreshForks (services : List Service) (fork : Service → Option ChildPid) : Prop :=
  ∀ svc ∈ services, FreshFork services (fork svc) ∧
    ∀ o ∈ services, ∀ child ∈ fork svc, fork o = some child → o.name = svc.name

instance (services : List Service) (fork : Service → Option ChildPid) : Decidable (FreshForks services fork) :=
  inferInstanceAs (Decidable (∀ svc ∈ services, _ ∧ ∀ o ∈ services, ∀ child ∈ fork svc, _))

def applyOp (ops : Service → Option ServiceOp) (svc : Service) : Service :=
  match ops svc with
  | none => svc
  | some op => (op.exec svc).1

def forkOf (ops : Service → Option ServiceOp) (svc : Service) : Option ChildPid :=
  (ops svc).bind ServiceOp.fork

theorem applyOp_keeps (ops : Service → Option ServiceOp) (svc : Service) :
    svc.Keeps (forkOf ops svc) (applyOp ops svc) := by
  unfold applyOp forkOf
  cases ops svc with
  | none => exact Service.keeps_of_same none (by simp)
  | some op => exact op.exec_keeps svc

open ServiceManager

namespace ManagerState

/-- Commands run from the main loop, or as `onrestart` commands. -/
def Accepts (s : ManagerState) : Prop := ∀ reaping ∈ s.reaping, reaping.onrestart = true

instance (s : ManagerState) : Decidable s.Accepts :=
  inferInstanceAs (Decidable (∀ reaping ∈ s.reaping, _))

/-- After an `exec` or `exec_start` that returned `started`. -/
def afterExec (s : ManagerState) (res : ServiceManager × Bool) (e : StartEnv) : ManagerState :=
  { s with
    manager := res.1
    execChildren := if res.2 then s.execChildren ++ e.fork.toList.map Subtype.val else s.execChildren }

/-- `none` if the step cannot be taken here, or init panics. -/
def exec (du : Bytes → Nat) (s : ManagerState) (op : ManagerOp) : Option ManagerState :=
  if s.crashed then none
  else
    match op with
    | .add svc =>
      if s.Accepts ∧ svc.Parsed then
        some { s with manager := s.manager.addService svc }
      else none
    | .exec args e =>
      if s.Accepts ∧ FreshFork s.manager.services e.fork then
        some (s.afterExec (s.manager.exec du args e) e)
      else none
    | .execStart n e =>
      if s.Accepts ∧ FreshFork s.manager.services e.fork then
        some (s.afterExec (s.manager.execStart n e) e)
      else none
    | .operate ops =>
      if s.Accepts ∧ FreshForks s.manager.services (forkOf ops) then
        some { s with manager := s.manager.mapServices (applyOp ops) }
      else none
    | .reapBegin pid now =>
      if s.reaping.isSome ∨ pid = 0 then none
      else
        match s.manager.reapBegin pid now with
        | .untracked => some { s with execChildren := s.execChildren.erase pid }
        | .nullDereference => some { s with crashed := true }
        | .panicked => none
        | .reaping manager n onrestart =>
          some { s with
            manager
            reaping := some ⟨n, onrestart, pid ∈ s.execChildren⟩
            execChildren := s.execChildren.erase pid }
    | .reapEnd =>
      match s.reaping with
      | none => none
      | some reaping => some { s with manager := s.manager.reapEnd reaping.name, reaping := none }

inductive Taken (du : Bytes → Nat) (s : ManagerState) : ManagerOp → ManagerState → Prop where
  | add {svc : Service} (accepts : s.Accepts) (parsed : svc.Parsed) :
      Taken du s (.add svc) { s with manager := s.manager.addService svc }
  | exec {args : List Bytes} {e : StartEnv} (accepts : s.Accepts)
      (fresh : FreshFork s.manager.services e.fork) :
      Taken du s (.exec args e) (s.afterExec (s.manager.exec du args e) e)
  | execStart {n : Bytes} {e : StartEnv} (accepts : s.Accepts)
      (fresh : FreshFork s.manager.services e.fork) :
      Taken du s (.execStart n e) (s.afterExec (s.manager.execStart n e) e)
  | operate {ops : Service → Option ServiceOp} (accepts : s.Accepts)
      (fresh : FreshForks s.manager.services (forkOf ops)) :
      Taken du s (.operate ops) { s with manager := s.manager.mapServices (applyOp ops) }
  | untracked {pid : Nat} {now : Int} (idle : s.reaping = none) (nonzero : pid ≠ 0)
      (absent : s.manager.findServiceByPid pid = none) :
      Taken du s (.reapBegin pid now) { s with execChildren := s.execChildren.erase pid }
  | crashed {pid : Nat} {now : Int} {svc : Service} (idle : s.reaping = none) (nonzero : pid ≠ 0)
      (found : s.manager.findServiceByPid pid = some svc) (isExec : svc.flags.exec = true)
      (null : s.manager.execWaiter = false) :
      Taken du s (.reapBegin pid now) { s with crashed := true }
  | reapBegin {pid : Nat} {now : Int} {svc reaped : Service} {effects : List ServiceEffect} {onrestart : Bool}
      (idle : s.reaping = none) (nonzero : pid ≠ 0)
      (found : s.manager.findServiceByPid pid = some svc)
      (safe : svc.flags.exec = true → s.manager.execWaiter = true)
      (done : svc.reapBegin now = some (reaped, effects, onrestart)) :
      Taken du s (.reapBegin pid now) { s with
        manager := s.manager.modify svc.name fun _ => reaped
        reaping := some ⟨svc.name, onrestart, pid ∈ s.execChildren⟩
        execChildren := s.execChildren.erase pid }
  | reapEnd {reaping : Reaping} (isReaped : s.reaping = some reaping) :
      Taken du s .reapEnd
        { s with manager := s.manager.reapEnd reaping.name, reaping := none }

variable {du : Bytes → Nat} {s : ManagerState} {post : ManagerState} {chg : Service → Service} {pid : Nat}

theorem exec_reapBegin_taken {now : Int} (hr : s.crashed = false)
    (ran : s.exec du (.reapBegin pid now) = some post) : Taken du s (.reapBegin pid now) post := by
  unfold ManagerState.exec at ran
  rw [if_neg (Bool.eq_false_iff.mp hr)] at ran
  obtain ⟨may, start⟩ := Option.ite_none_left_eq_some.mp ran
  obtain ⟨idle, nz⟩ := not_or.mp may
  have idle : s.reaping = none := by simpa using idle
  unfold reapBegin at start
  cases hf : s.manager.findServiceByPid pid with
  | none =>
    rw [hf] at start
    cases start
    exact .untracked idle nz hf
  | some svc =>
    simp only [hf] at start
    by_cases null : (svc.flags.exec && !s.manager.execWaiter) = true
    · rw [if_pos null] at start
      cases start
      rw [Bool.and_eq_true, Bool.not_eq_true'] at null
      exact .crashed idle nz hf null.1 null.2
    · rw [if_neg null] at start
      have safe : svc.flags.exec = true → s.manager.execWaiter = true := by
        simpa using null
      cases done : svc.reapBegin now with
      | none =>
        rw [done] at start
        cases start
      | some _ =>
        rw [done] at start
        cases start
        exact .reapBegin idle nz hf safe done

variable {op : ManagerOp} {e : StartEnv}

theorem exec_taken (ran : s.exec du op = some post) : s.crashed = false ∧ Taken du s op post := by
  have hr : s.crashed = false := by
    cases crashed : s.crashed with
    | false => rfl
    | true => simp [ManagerState.exec, crashed] at ran
  refine ⟨hr, ?_⟩
  have step := ran
  unfold ManagerState.exec at step
  rw [if_neg (Bool.eq_false_iff.mp hr)] at step
  cases op with
  | add _ =>
    obtain ⟨⟨takes, read⟩, eq⟩ := Option.ite_none_right_eq_some.mp step
    cases eq
    exact .add takes read
  | exec _ e =>
    obtain ⟨⟨takes, new⟩, eq⟩ := Option.ite_none_right_eq_some.mp step
    cases eq
    exact .exec takes new
  | execStart n e =>
    obtain ⟨⟨takes, new⟩, eq⟩ := Option.ite_none_right_eq_some.mp step
    cases eq
    exact .execStart takes new
  | operate _ =>
    obtain ⟨⟨takes, new⟩, eq⟩ := Option.ite_none_right_eq_some.mp step
    cases eq
    exact .operate takes new
  | reapBegin _ _ => exact exec_reapBegin_taken hr ran
  | reapEnd =>
    cases dead : s.reaping with
    | none =>
      rw [dead] at step
      cases step
    | some _ =>
      simp only [dead] at step
      cases step
      exact .reapEnd dead

/-! ## The invariant -/

structure WellFormed (s : ManagerState) : Prop where
  names : (s.manager.services.map Service.name).Nodup
  named : ∀ svc ∈ s.manager.services, isValidName svc.name = true ∨
    ∃ count ≤ s.manager.execCount, ∃ cmd, svc.name = execName count cmd
  sound : ∀ svc ∈ s.manager.services, svc.Sound
  pids : ∀ svc ∈ s.manager.services, ∀ o ∈ s.manager.services, svc.pid ≠ 0 → o.pid = svc.pid → o.name = svc.name
  -- the children of `exec` and `exec_start` are processes of services with `SVC_EXEC`
  tracked : ∀ pid ∈ s.execChildren, pid ≠ 0 ∧ ∃ svc ∈ s.manager.services, svc.pid = pid ∧ svc.flags.exec = true
  children : s.execChildren.Nodup
  -- the service being reaped is still there, and a temporary one has no commands
  reaping : ∀ reaping ∈ s.reaping, ∃ svc ∈ s.manager.services, svc.name = reaping.name ∧
    (reaping.execChild = true → svc.flags.exec = true) ∧
    (svc.flags.temporary = true → svc.pid ∉ s.execChildren ∧ reaping.onrestart = false)

theorem wellFormed_init : WellFormed {} := by
  refine ⟨nodup_nil, ?_, ?_, ?_, ?_, nodup_nil, ?_⟩
  · intro svc mem
    cases mem
  · intro svc mem
    cases mem
  · intro svc mem
    cases mem
  · intro _ mem
    cases mem
  · intro _ mem
    cases mem

section

variable {s : ManagerState} (wf : s.WellFormed) {svc : Service}

include wf

theorem WellFormed.unique {o : Service} (mem : svc ∈ s.manager.services)
    (om : o ∈ s.manager.services) (eq : o.name = svc.name) : o = svc :=
  inj_on_of_nodup_map wf.names om mem eq

theorem WellFormed.find (mem : svc ∈ s.manager.services) : s.manager.findServiceByName svc.name = some svc := by
  unfold findServiceByName
  cases hf : s.manager.services.find? _ with
  | none =>
    have ha := List.find?_eq_none.mp hf svc mem
    simp at ha
  | some o =>
    have eq : o.name = svc.name := by simpa using List.find?_some hf
    rw [wf.unique mem (mem_of_find?_eq_some hf) eq]

theorem WellFormed.untracked_erase (ha : s.manager.findServiceByPid pid = none) :
    s.execChildren.erase pid = s.execChildren := by
  apply erase_of_not_mem
  intro child
  obtain ⟨-, svc, mem, owns, -⟩ := wf.tracked pid child
  have far := List.find?_eq_none.mp ha svc mem
  simp [owns] at far

theorem WellFormed.mapServices (takes : s.Accepts)
    {fork : Service → Option ChildPid} (fresh : FreshForks s.manager.services fork)
    (keep : ∀ svc : Service, svc.Keeps (fork svc) (chg svc)) :
    WellFormed { s with manager := s.manager.mapServices chg } where
  names := by
    have eq : (s.manager.services.map chg).map Service.name = s.manager.services.map Service.name := by
      rw [map_map]
      exact map_congr_left fun svc _ => (keep svc).name
    show ((s.manager.services.map chg).map Service.name).Nodup
    rw [eq]
    exact wf.names
  named := by
    intro post mem
    obtain ⟨svc, pre, rfl⟩ := mem_map.mp mem
    rw [(keep svc).name]
    exact wf.named svc pre
  sound := by
    intro post mem
    obtain ⟨svc, pre, rfl⟩ := mem_map.mp mem
    exact (keep svc).sound (wf.sound svc pre)
  pids := by
    intro post mem _ om nz eq
    obtain ⟨svc, pre, rfl⟩ := mem_map.mp mem
    obtain ⟨o, before, rfl⟩ := mem_map.mp om
    rw [(keep svc).name, (keep o).name]
    -- a process is an old one or a new child, for either service
    rcases (keep svc).pid (wf.sound svc pre) with kept | ⟨-, chd, forked, new⟩
    · rcases (keep o).pid (wf.sound o before) with otherKept | ⟨-, chd, forked, new⟩
      · rw [kept] at nz eq
        rw [otherKept] at eq
        exact wf.pids svc pre o before nz eq
      · rw [kept, new] at eq
        exact absurd eq.symm ((fresh o before).1 chd forked svc pre)
    · rcases (keep o).pid (wf.sound o before) with otherKept | ⟨-, otherChild, otherForked, otherNew⟩
      · rw [otherKept, new] at eq
        exact absurd eq ((fresh svc pre).1 chd forked o before)
      · rw [new, otherNew] at eq
        have sameChild : otherChild = chd := Subtype.ext eq
        subst sameChild
        exact (fresh svc pre).2 o before otherChild forked otherForked
  tracked := by
    intro chd mem
    obtain ⟨nz, svc, pre, owns, exec⟩ := wf.tracked chd mem
    refine ⟨nz, chg svc, mem_map_of_mem pre, ?_, (keep svc).exec exec⟩
    rcases (keep svc).pid (wf.sound svc pre) with kept | ⟨gone, -⟩
    · rw [kept, owns]
    · rw [owns] at gone
      exact absurd gone nz
  children := wf.children
  reaping := by
    intro dead mem
    obtain ⟨svc, pre, isExec, exec, hit⟩ := wf.reaping dead mem
    refine ⟨chg svc, mem_map_of_mem pre, (keep svc).name.trans isExec, fun chd => ?_, fun set => ?_⟩
    · exact (keep svc).exec (exec chd)
    · -- a temporary service is not being reaped while commands run
      rw [(keep svc).temporary] at set
      have mute := (hit set).2
      rw [takes dead mem] at mute
      cases mute

/-- The timer is not part of the invariant, and the counter may grow. -/
theorem WellFormed.congr (svs : post.manager.services = s.manager.services)
    (cnt : s.manager.execCount ≤ post.manager.execCount)
    (chn : post.execChildren = s.execChildren) (dead : post.reaping = s.reaping) : post.WellFormed where
  names := by rw [svs]; exact wf.names
  named := by
    intro svc mem
    rw [svs] at mem
    rcases wf.named svc mem with hv | ⟨num, cap, cmd, name⟩
    · exact .inl hv
    · exact .inr ⟨num, cap.trans cnt, cmd, name⟩
  sound := by rw [svs]; exact wf.sound
  pids := by rw [svs]; exact wf.pids
  tracked := by rw [svs, chn]; exact wf.tracked
  children := by rw [chn]; exact wf.children
  reaping := by rw [svs, chn, dead]; exact wf.reaping

theorem WellFormed.append (cnt : Nat) (hg : s.manager.execCount ≤ cnt)
    (newName : ∀ o ∈ s.manager.services, o.name ≠ svc.name) (hs : svc.Sound)
    (idle : svc.pid = 0)
    (name : isValidName svc.name = true ∨ ∃ num ≤ cnt, ∃ cmd, svc.name = execName num cmd) :
    WellFormed { s with
      manager := { s.manager with services := s.manager.services ++ [svc], execCount := cnt } } where
  names := by
    rw [map_append, nodup_append]
    refine ⟨wf.names, nodup_singleton _, ?_⟩
    intro n mem o isNew
    obtain ⟨old, oldMember, rfl⟩ := mem_map.mp mem
    rw [mem_singleton.mp isNew]
    exact newName old oldMember
  named := by
    intro o mem
    rcases mem_append.mp mem with old | new
    · rcases wf.named o old with hv | ⟨num, cap, cmd, exec⟩
      · exact .inl hv
      · exact .inr ⟨num, cap.trans hg, cmd, exec⟩
    · rw [mem_singleton.mp new]
      exact name
  sound := by
    intro o mem
    rcases mem_append.mp mem with old | new
    · exact wf.sound o old
    · rw [mem_singleton.mp new]
      exact hs
  pids := by
    intro one mem two twoMem nz eq
    rcases mem_append.mp mem with old | new
    · rcases mem_append.mp twoMem with twoOld | twoNew
      · exact wf.pids one old two twoOld nz eq
      · rw [mem_singleton.mp twoNew, idle] at eq
        exact absurd eq.symm nz
    · rw [mem_singleton.mp new, idle] at nz
      exact absurd rfl nz
  tracked := by
    intro pid mem
    obtain ⟨nz, o, old, owns⟩ := wf.tracked pid mem
    exact ⟨nz, o, mem_append_left _ old, owns⟩
  children := wf.children
  reaping := by
    intro dead mem
    obtain ⟨o, old, reaped⟩ := wf.reaping dead mem
    exact ⟨o, mem_append_left _ old, reaped⟩

/-- A service without a child of `exec`, which is not being reaped, is removed. -/
theorem WellFormed.removeService (mem : svc ∈ s.manager.services)
    (noChild : svc.pid ∉ s.execChildren) (notReaped : ∀ dead ∈ s.reaping, dead.name ≠ svc.name) :
    WellFormed { s with manager := s.manager.removeService svc.name } := by
  have sub : (s.manager.services.eraseP fun o => o.name = svc.name).Sublist
      s.manager.services := eraseP_sublist
  have keep : ∀ o ∈ s.manager.services, o.name ≠ svc.name → o ∈ s.manager.services.eraseP fun o => o.name = svc.name :=
    fun o old far => (mem_eraseP_of_neg (by simpa using far)).mpr old
  refine ⟨wf.names.sublist (sub.map _), fun o old => wf.named o (sub.subset old),
    fun o old => wf.sound o (sub.subset old),
    fun one old two twoOld => wf.pids one (sub.subset old) two (sub.subset twoOld), ?_, wf.children, ?_⟩
  · intro pid child
    obtain ⟨nz, o, old, owns, exec⟩ := wf.tracked pid child
    refine ⟨nz, o, keep o old ?_, owns, exec⟩
    intro eq
    rw [wf.unique mem old eq] at owns
    exact noChild (owns ▸ child)
  · intro dead reaped
    obtain ⟨o, old, rest, tl⟩ := wf.reaping dead reaped
    exact ⟨o, keep o old (rest ▸ notReaped dead reaped), rest, tl⟩

/-- A service that `exec` or `exec_start` started has a new child. -/
theorem WellFormed.addChild (takes : s.Accepts) (mem : svc ∈ s.manager.services)
    (exec : svc.flags.exec = true) (nz : svc.pid ≠ 0) (new : svc.pid ∉ s.execChildren) :
    WellFormed { s with execChildren := s.execChildren ++ [svc.pid] } where
  names := wf.names
  named := wf.named
  sound := wf.sound
  pids := wf.pids
  tracked := by
    intro pid child
    rcases mem_append.mp child with old | isNew
    · exact wf.tracked pid old
    · rw [mem_singleton.mp isNew]
      exact ⟨nz, svc, mem, rfl, exec⟩
  children := by
    rw [nodup_append]
    refine ⟨wf.children, nodup_singleton _, ?_⟩
    intro pid old o isNew
    rw [mem_singleton.mp isNew]
    intro eq
    exact new (eq ▸ old)
  reaping := by
    intro dead reaped
    obtain ⟨o, old, isChild, chd, temp⟩ := wf.reaping dead reaped
    refine ⟨o, old, isChild, chd, fun set => ?_⟩
    have mute := (temp set).2
    rw [takes dead reaped] at mute
    cases mute

theorem WellFormed.modify (takes : s.Accepts) (n : Bytes)
    {fork : Option ChildPid} (new : FreshFork s.manager.services fork)
    (keep : ∀ svc : Service, svc.Keeps fork (chg svc)) :
    WellFormed { s with manager := s.manager.modify n chg } := by
  have forks : FreshForks s.manager.services fun o => if o.name = n then fork else none := by
    intro one _
    by_cases isOne : one.name = n
    · simp only [isOne]
      refine ⟨new, fun o _ chd _ forked => ?_⟩
      split at forked
      · assumption
      · cases forked
    · simp only [isOne]
      exact ⟨fun chd never => absurd never (Option.not_mem_none chd),
        fun _ _ chd never => absurd never (Option.not_mem_none chd)⟩
  apply wf.mapServices takes forks
  intro o
  split
  · exact keep o
  · exact Service.keeps_of_same none (by simp)

theorem WellFormed.execStartService (takes : s.Accepts) (mem : svc ∈ s.manager.services)
    (fresh : FreshFork s.manager.services e.fork) : (s.afterExec (s.manager.execStartService svc e) e).WellFormed := by
  have changed : WellFormed { s with manager := (s.manager.execStartService svc e).1 } :=
    (wf.modify takes svc.name fresh fun o => o.execStart_keeps e).congr rfl le_rfl rfl rfl
  cases ok : (svc.execStart e).2.1 with
  | false =>
    have eq : s.afterExec (s.manager.execStartService svc e) e =
        { s with manager := (s.manager.execStartService svc e).1 } := by
      simp [afterExec, ServiceManager.execStartService, ok]
    rw [eq]
    exact changed
  | true =>
    obtain ⟨chd, fork, isPid⟩ := Service.start_success ok
    have start : (svc.execStart e).1 ∈ (s.manager.execStartService svc e).1.services := by
      apply mem_map.mpr
      exact ⟨svc, mem, if_pos rfl⟩
    have new : (svc.execStart e).1.pid ∉ s.execChildren := by
      intro old
      obtain ⟨-, ow, ownerMember, owns, -⟩ := wf.tracked _ old
      exact fresh chd fork ow ownerMember (owns.trans isPid)
    have nz : (svc.execStart e).1.pid ≠ 0 := by
      rw [show (svc.execStart e).1.pid = chd.1 from isPid]
      exact chd.2
    have hg := changed.addChild takes start (svc.execStart_exec e) nz new
    have eq : s.afterExec (s.manager.execStartService svc e) e = { s with
          manager := (s.manager.execStartService svc e).1
          execChildren := s.execChildren ++ [(svc.execStart e).1.pid] } := by
      rw [show (svc.execStart e).1.pid = chd.1 from isPid]
      simp [afterExec, ServiceManager.execStartService, ok, fork]
    rw [eq]
    exact hg

theorem WellFormed.execName_new (cmd : Bytes) : ∀ o ∈ s.manager.services,
    o.name ≠ execName (s.manager.execCount + 1) cmd := by
  intro o mem eq
  rcases wf.named o mem with hv | ⟨cnt, cap, otherCommand, name⟩
  · rw [eq, isValidName_execName] at hv
    cases hv
  · have cs := execName_count (name.symm.trans eq)
    omega

theorem WellFormed.exec (takes : s.Accepts) {du : Bytes → Nat} {args : List Bytes}
    (fresh : FreshFork s.manager.services e.fork) : (s.afterExec (s.manager.exec du args e) e).WellFormed := by
  unfold ServiceManager.exec
  cases new : s.manager.makeExecOneshotService du args with
  | none => exact wf.congr rfl le_rfl rfl rfl
  | some made =>
    obtain ⟨svc, _⟩ := made
    obtain ⟨rfl, ⟨cmd, name⟩, idle, fg⟩ := ServiceManager.makeExecOneshotService_spec new
    have newName : ∀ o ∈ s.manager.services, o.name ≠ svc.name := by
      rw [name]
      exact wf.execName_new cmd
    have adds := wf.append _ (Nat.le_succ _) newName
      ⟨by simp [fg, idle], fun _ => idle⟩ idle (.inr ⟨_, le_rfl, cmd, name⟩)
    have stillFresh : FreshFork (s.manager.services ++ [svc]) e.fork := by
      intro chd isChild o mem
      rcases mem_append.mp mem with old | isNew
      · exact fresh chd isChild o old
      · rw [mem_singleton.mp isNew, idle]
        exact chd.2.symm
    have mem : svc ∈ s.manager.services ++ [svc] := mem_append_right _ mem_cons_self
    have start := adds.execStartService takes mem stillFresh
    cases ok : (svc.execStart e).2.1 with
    | true =>
      simp only [ServiceManager.execStartService, ok] at start ⊢
      exact start
    | false =>
      simp only [ServiceManager.execStartService, ok] at start ⊢
      -- the service that was added is removed again
      have noChild : (svc.execStart e).1.pid ∉ s.execChildren := by
        intro child
        have zero : (svc.execStart e).1.pid = 0 := by
          rcases Service.start_failure ok with eq | zero
          · exact eq.trans idle
          · exact zero
        rw [zero] at child
        exact (wf.tracked 0 child).1 rfl
      have sameName : (svc.execStart e).1.name = svc.name := (svc.execStart_keeps e).name
      have notReaped : ∀ dead ∈ s.reaping, dead.name ≠ (svc.execStart e).1.name := by
        intro dead same eq
        obtain ⟨o, old, named, -⟩ := wf.reaping dead same
        exact newName o old (named.trans (eq.trans sameName))
      have isThere : (svc.execStart e).1 ∈ (s.manager.services ++ [svc]).map fun o =>
          if o.name = svc.name then (o.execStart e).1 else o :=
        mem_map.mpr ⟨svc, mem, if_pos rfl⟩
      have gone := WellFormed.removeService start isThere noChild notReaped
      rw [sameName] at gone
      exact gone

/-- A process exits and its service is reaped, up to its `onrestart` commands. -/
theorem WellFormed.reapBegin {rd : Service} (mem : svc ∈ s.manager.services) (nz : svc.pid ≠ 0)
    {now : Int} {efs : List ServiceEffect} {onr : Bool}
    (done : svc.reapBegin now = some (rd, efs, onr)) :
    WellFormed { s with
      manager := s.manager.modify svc.name fun _ => rd
      reaping := some ⟨svc.name, onr, svc.pid ∈ s.execChildren⟩
      execChildren := s.execChildren.erase svc.pid } := by
  obtain ⟨n, exec, temp, hs, oc⟩ := Service.reapBegin_keeps done (wf.sound svc mem)
  have pidKept : rd.pid ≠ 0 → rd.pid = svc.pid := by
    intro hp
    rcases oc with ⟨-, eq, -⟩ | ⟨-, zero⟩
    · exact eq
    · exact absurd zero hp
  -- the other services are as they were
  have cases_ : ∀ post ∈ (s.manager.modify svc.name fun _ => rd).services,
      (post ∈ s.manager.services ∧ post.name ≠ svc.name) ∨ post = rd := by
    intro post after_
    rcases mem_modify after_ with old | ⟨_, -, -, eq⟩
    · exact .inl old
    · exact .inr eq
  refine ⟨?_, ?_, ?_, ?_, ?_, wf.children.erase _, ?_⟩
  · have eq : (s.manager.modify svc.name fun _ => rd).services.map Service.name =
        s.manager.services.map Service.name := by
      show (s.manager.services.map _).map Service.name = _
      rw [map_map]
      apply map_congr_left
      intro o _
      simp only [Function.comp_apply]
      split
      · rename_i name
        rw [n, name]
      · rfl
    rw [eq]
    exact wf.names
  · intro post after_
    rcases cases_ post after_ with old | rfl
    · exact wf.named post old.1
    · rw [n]
      exact wf.named svc mem
  · intro post after_
    rcases cases_ post after_ with old | rfl
    · exact wf.sound post old.1
    · exact hs
  · intro one isOne two hit hp eq
    rcases cases_ one isOne with old | rfl
    · rcases cases_ two hit with twoOld | rfl
      · exact wf.pids one old.1 two twoOld.1 hp eq
      · rw [pidKept (eq ▸ hp)] at eq
        rw [n]
        exact wf.pids one old.1 svc mem hp eq
    · rcases cases_ two hit with twoOld | rfl
      · rw [pidKept hp] at eq
        rw [n]
        exact wf.pids svc mem two twoOld.1 nz eq
      · rfl
  · intro pid child
    obtain ⟨far, old⟩ := (List.Nodup.mem_erase_iff wf.children).mp child
    obtain ⟨hp, o, om, owns, isExec⟩ := wf.tracked pid old
    refine ⟨hp, o, mem_modify_of_ne om ?_, owns, isExec⟩
    intro eq
    rw [wf.unique mem om eq] at owns
    exact far owns.symm
  · intro _ dead
    cases dead
    refine ⟨rd, mem_modify_of_eq mem rfl, n, fun chd => ?_, fun set => ?_⟩
    · -- the process is that of one service
      obtain ⟨-, ow, ownerMember, owns, isExec⟩ := wf.tracked svc.pid (by simpa using chd)
      have eq := wf.pids svc mem ow ownerMember nz owns
      rw [exec, ← wf.unique mem ownerMember eq]
      exact isExec
    · rcases oc with ⟨-, eq, mute⟩ | ⟨keep, -⟩
      · refine ⟨fun child => ?_, mute⟩
        rw [eq] at child
        exact ((List.Nodup.mem_erase_iff wf.children).mp child).1 rfl
      · rw [temp, keep] at set
        cases set

theorem WellFormed.reapEnd {dead : Reaping} (reaped : s.reaping = some dead) :
    WellFormed { s with manager := s.manager.reapEnd dead.name, reaping := none } := by
  obtain ⟨svc, mem, name, -, temporary⟩ := wf.reaping dead reaped
  have done : WellFormed { s with reaping := none } :=
    ⟨wf.names, wf.named, wf.sound, wf.pids, wf.tracked, wf.children, fun _ none => absurd none (Option.not_mem_none _)⟩
  rw [← name]
  unfold ServiceManager.reapEnd
  rw [wf.find mem]
  dsimp only
  have mute : ∀ execWaiter, WellFormed { s with manager := { s.manager with execWaiter }, reaping := none } :=
    fun _ => done.congr rfl le_rfl rfl rfl
  cases hit : svc.flags.temporary with
  | false =>
    cases svc.flags.exec with
    | false => exact done
    | true => exact mute false
  | true =>
    have noChild := (temporary hit).1
    cases svc.flags.exec with
    | false => exact WellFormed.removeService done mem noChild fun _ none => absurd none (Option.not_mem_none _)
    | true =>
      exact WellFormed.removeService (mute false) mem noChild fun _ none => absurd none (Option.not_mem_none _)

theorem taken_wellFormed {du : Bytes → Nat} (ht : Taken du s op post) : post.WellFormed := by
  cases ht with
  | add takes read =>
    obtain ⟨hv, noProcess, stop, -, -, -⟩ := read
    unfold addService
    split
    · exact wf
    · rename_i svc _ ha
      refine wf.append _ le_rfl (fun o mem eq => ?_)
        ⟨by simp [stop, noProcess], fun _ => noProcess⟩ noProcess (.inl hv)
      have far := List.find?_eq_none.mp ha o mem
      simp [eq] at far
  | exec takes new => exact wf.exec takes new
  | execStart takes new =>
    unfold execStart
    split
    · exact wf.congr rfl le_rfl rfl rfl
    · rename_i svc hf
      exact wf.execStartService takes (mem_of_find?_eq_some hf) new
  | operate takes new => exact wf.mapServices takes new (applyOp_keeps _)
  | untracked idle nz ha =>
    rw [wf.untracked_erase ha]
    exact wf
  | crashed => exact wf.congr rfl le_rfl rfl rfl
  | reapBegin idle nz hf _ done =>
    have owns := findServiceByPid_pid hf
    subst owns
    exact wf.reapBegin (mem_of_find?_eq_some hf) nz done
  | reapEnd dead => exact wf.reapEnd dead

end

theorem run_wellFormed {ops : List ManagerOp}
    (run : Run (fun pre op post => pre.exec du op = some post) {} ops s) : s.WellFormed :=
  run.invariant wellFormed_init fun _ _ _ wf ran => taken_wellFormed wf (exec_taken ran).2

end ManagerState

end Aosp.Init
