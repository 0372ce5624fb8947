import Aosp.Lib.RefCount
import Mathlib.Tactic.Abel

/-! # Forking a process

Model of `copy_process` and of the helpers of `kernel/fork.c` that it calls, with
`CONFIG_NUMA` and `CONFIG_TASK_CPUFREQ_STATS`: what each step counts up, and what is
counted down behind each label of the error path.  What the helpers of other files and
the allocators return is a parameter (`ForkEnv`); a helper that fails has undone its own
work.

Whatever fails, the error path releases what was acquired, and the arrays that the
child's `cpufreq_stats` point to.  Until `cpufreq_stats_tsk_init` these are the arrays
of the parent (`failed_fork_iff`).
-/

namespace Aosp.Kernel

open Aosp.Lib Counts

def CLONE_VM : Nat := 0x100
def CLONE_FS : Nat := 0x200
def CLONE_FILES : Nat := 0x400
def CLONE_SIGHAND : Nat := 0x800
def CLONE_PARENT : Nat := 0x8000
def CLONE_THREAD : Nat := 0x10000
def CLONE_NEWNS : Nat := 0x20000
def CLONE_NEWUSER : Nat := 0x10000000
def CLONE_NEWPID : Nat := 0x20000000
def CLONE_IO : Nat := 0x80000000

def EAGAIN : Int := 11
def ENOMEM : Int := 12
def EINVAL : Int := 22
def ERESTARTNOINTR : Int := 513

def INIT_USER : Nat := 0

def hasFlag (fg flag : Nat) : Bool := fg &&& flag ≠ 0

/-- What is counted: references to an object in memory, the processes of a user,
    readers of `current->signal->group_rwsem`, `NR_KERNEL_STACK`, `nr_threads`,
    `total_forks`. -/
inductive Counter where
  | object (adr : Nat)
  | processes (user : Nat)
  | groupReaders
  | kernelStacks
  | nrThreads
  | totalForks
deriving DecidableEq

abbrev KernelCounts : Type := Counts Counter

/-- The fields of a `task_struct` that hold references; `pointer` is the type of those
    that are null only while the task is being built. -/
structure Task (pointer : Type) where
  self : Nat
  stack : Nat
  user : Nat
  cred : Nat
  execDomainModule : Option Nat := none
  delays : Option Nat := none
  cgroups : Nat
  mempolicy : Option Nat := none
  perfEventCtx : Option Nat := none
  auditContext : Option Nat := none
  undoList : Option Nat := none
  files : Option Nat := none
  fs : pointer
  sighand : pointer
  signal : pointer
  mm : Option Nat := none
  nsproxy : Option Nat := none
  ioContext : Option Nat := none
  seccompFilter : Option Nat := none
  /-- `time_in_state` and `cumulative_time_in_state` for each cpu -/
  cpufreqStats : List (Option Nat × Option Nat) := []

/-- What the calls return: an error, or the address of what the child gets a reference
    to. -/
structure ForkEnv where
  unkillable : Bool := false
  otherPidNs : Bool := false
  securityTaskCreate : Int := 0
  allocTaskStruct : Option Nat
  allocThreadInfo : Option Nat
  archDupTaskStruct : Int := 0
  rlimitNproc : Nat
  capSysAdmin : Bool := false
  capSysResource : Bool := false
  copyCreds : Except Int (Nat × Nat)
  maxThreads : Nat
  tryModuleGet : Bool := true
  delayacct : Option Nat := none
  mpolDup : Except Int Nat
  perfEventInitTask : Except Int (Option Nat)
  auditAlloc : Except Int (Option Nat)
  copySemundo : Except Int (Option Nat)
  dupFd : Except Int Nat
  fsInExec : Bool := false
  copyFsStruct : Option Nat
  allocSighand : Option Nat
  allocSignal : Option Nat
  dupMm : Option Nat
  copyNamespaces : Except Int (Option Nat)
  ioprioValid : Bool := false
  getTaskIoContext : Option Nat := none
  copyThread : Int := 0
  /-- `pid` is `&init_struct_pid` -/
  initStructPid : Bool := false
  allocPid : Option Nat
  maxState : Nat → Int
  kzalloc : Nat → Option Nat × Option Nat
  signalPending : Bool := false

abbrev Parent : Type := Task Nat
abbrev Child : Type := Task (Option Nat)

def object (adr : Nat) : Option Counter := some (.object adr)
def reference (pointer : Option Nat) : Option Counter := pointer.map .object

/-! ## The error path

Each label is modelled by what is released from it on, in order. -/

section

variable (e : ForkEnv) (fg : Nat) (cur : Parent) (p : Child) (cs : KernelCounts)

/-- `free_task` -/
def badForkFree : List (Option Counter) :=
  [some .kernelStacks, object p.stack, reference p.seccompFilter, object p.self]

def badForkCleanupCount : List (Option Counter) :=
  [some (.processes p.user), object p.cred] ++ badForkFree p

def cpufreqStatsTskFree (stats : List (Option Nat × Option Nat)) : List (Option Counter) :=
  stats.flatMap fun cpu => [reference cpu.1, reference cpu.2]

def badForkCleanupCgroup : List (Option Counter) :=
  [if hasFlag fg CLONE_THREAD then some .groupReaders else none, object p.cgroups, reference p.delays] ++
    (cpufreqStatsTskFree p.cpufreqStats ++ (reference p.execDomainModule :: badForkCleanupCount p))

def badForkCleanupPolicy : List (Option Counter) :=
  reference p.mempolicy :: badForkCleanupCgroup fg p

def badForkCleanupPerf : List (Option Counter) :=
  reference p.perfEventCtx :: badForkCleanupPolicy fg p

def badForkCleanupAudit : List (Option Counter) :=
  reference p.auditContext :: badForkCleanupPerf fg p

def badForkCleanupSemundo : List (Option Counter) :=
  reference p.undoList :: badForkCleanupAudit fg p

def badForkCleanupFiles : List (Option Counter) :=
  reference p.files :: badForkCleanupSemundo fg p

def badForkCleanupFs : List (Option Counter) :=
  reference p.fs :: badForkCleanupFiles fg p

def badForkCleanupSighand : List (Option Counter) :=
  reference p.sighand :: badForkCleanupFs fg p

def signalOf (signal : Option Nat) : Option Counter :=
  if hasFlag fg CLONE_THREAD then none else reference signal

def badForkCleanupSignal : List (Option Counter) :=
  signalOf fg p.signal :: badForkCleanupSighand fg p

def badForkCleanupMm : List (Option Counter) :=
  reference p.mm :: badForkCleanupSignal fg p

def badForkCleanupNamespaces : List (Option Counter) :=
  reference p.nsproxy :: badForkCleanupMm fg p

def badForkCleanupIo : List (Option Counter) :=
  reference p.ioContext :: badForkCleanupNamespaces fg p

/-- `pid` is null for `&init_struct_pid`. -/
def badForkFreePid (pid : Option Nat) (p : Child) : List (Option Counter) :=
  reference pid :: badForkCleanupIo fg p

/-! ## The steps -/

abbrev Attempt : Type := Except (Int × Child × KernelCounts) (Child × KernelCounts)

/-- The result of a call that returns nothing else than an error. -/
def attempt (retval : Int) (p : Child) (cs : KernelCounts) : Attempt :=
  if retval ≠ 0 then .error (retval, p, cs) else .ok (p, cs)

/-- What the helpers of other files do: the child gets a reference, which `store` puts
    in its place. -/
def external (copied : Except Int (Option Nat)) (store : Option Nat → Child) (p : Child)
    (cs : KernelCounts) : Attempt :=
  match copied with
  | .error retval => .error (retval, p, cs)
  | .ok pointer => .ok (store pointer, cs.acquire (reference pointer))

inductive DupResult where
  | failed (cs : KernelCounts)
  | copied (p : Child) (cs : KernelCounts)

/-- `dup_task_struct`; `none` if something is released that is not held. -/
def dupTaskStruct (orig : Parent) (cs : KernelCounts) : Option DupResult :=
  match e.allocTaskStruct with
  | none => some (.failed cs)
  | some tsk =>
    let cs := cs.acquire (object tsk)
    match e.allocThreadInfo with
    | none => (cs.releaseAll [object tsk]).map .failed
    | some ti =>
      let cs := cs.acquire (object ti)
      if e.archDupTaskStruct ≠ 0 then (cs.releaseAll [object ti, object tsk]).map .failed
      else
        let copy : Child :=
          { orig with fs := some orig.fs, sighand := some orig.sighand, signal := some orig.signal }
        some (.copied { copy with self := tsk, stack := ti, seccompFilter := none }
          (cs.acquire (some .kernelStacks)))

def nprocExceeded (user : Nat) (cs : KernelCounts) : Bool :=
  cs (.processes user) ≥ e.rlimitNproc && !e.capSysAdmin && !e.capSysResource && user ≠ INIT_USER

def copyCreds : Attempt :=
  match e.copyCreds with
  | .error retval => .error (retval, p, cs)
  | .ok (cred, user) =>
    .ok ({ p with cred, user }, (cs.acquire (object cred)).acquire (some (.processes user)))

/-- Code that is not in a module has a null pointer, which can always be got. -/
def tryModuleGet : Attempt :=
  if p.execDomainModule.isSome ∧ ¬ e.tryModuleGet then .error (-EAGAIN, p, cs)
  else .ok (p, cs.acquire (reference p.execDomainModule))

def mpolDup : Attempt :=
  match p.mempolicy, e.mpolDup with
  | none, _ => .ok (p, cs)
  | some _, .error retval => .error (retval, { p with mempolicy := none }, cs)
  | some _, .ok policy => .ok ({ p with mempolicy := some policy }, cs.acquire (object policy))

def copyFiles : Attempt :=
  match cur.files with
  | none => .ok (p, cs)
  | some oldf =>
    if hasFlag fg CLONE_FILES then .ok (p, cs.acquire (object oldf))
    else
      match e.dupFd with
      | .error error => .error (error, p, cs)
      | .ok newf => .ok ({ p with files := some newf }, cs.acquire (object newf))

def copyFs : Attempt :=
  if hasFlag fg CLONE_FS then
    -- `p.fs` is already what is wanted
    if e.fsInExec then .error (-EAGAIN, p, cs) else .ok (p, cs.acquire (object cur.fs))
  else
    match e.copyFsStruct with
    | none => .error (-ENOMEM, { p with fs := none }, cs)
    | some fs => .ok ({ p with fs := some fs }, cs.acquire (object fs))

def copySighand : Attempt :=
  if hasFlag fg CLONE_SIGHAND then .ok (p, cs.acquire (object cur.sighand))
  else
    match e.allocSighand with
    | none => .error (-ENOMEM, { p with sighand := none }, cs)
    | some sig => .ok ({ p with sighand := some sig }, cs.acquire (object sig))

def copySignal : Attempt :=
  if hasFlag fg CLONE_THREAD then .ok (p, cs)
  else
    match e.allocSignal with
    | none => .error (-ENOMEM, { p with signal := none }, cs)
    | some sig => .ok ({ p with signal := some sig }, cs.acquire (object sig))

def copyMm : Attempt :=
  match cur.mm with
  | none => .ok ({ p with mm := none }, cs)
  | some oldmm =>
    if hasFlag fg CLONE_VM then .ok ({ p with mm := some oldmm }, cs.acquire (object oldmm))
    else
      match e.dupMm with
      | none => .error (-ENOMEM, { p with mm := none }, cs)
      | some mm => .ok ({ p with mm := some mm }, cs.acquire (object mm))

def copyIo : Attempt :=
  match cur.ioContext with
  | none => .ok (p, cs)
  | some ioc =>
    if hasFlag fg CLONE_IO then .ok ({ p with ioContext := some ioc }, cs.acquire (object ioc))
    else if e.ioprioValid then
      match e.getTaskIoContext with
      | none => .error (-ENOMEM, p, cs)
      | some newIoc => .ok ({ p with ioContext := some newIoc }, cs.acquire (object newIoc))
    else .ok (p, cs)

/-- `cpufreq_stats_tsk_init` from a cpu on; `none` if a null pointer is written
    through. -/
def cpufreqStatsTskInit (e : ForkEnv) :
    (cpu : Nat) → List (Option Nat × Option Nat) → KernelCounts → Option (List (Option Nat × Option Nat) × KernelCounts)
  | _, [], cs => some ([], cs)
  | cpu, _ :: rest, cs =>
    if e.maxState cpu > 0 then
      match e.kzalloc cpu with
      | (some timeInState, some cumulativeTimeInState) =>
        (cpufreqStatsTskInit e (cpu + 1) rest
          ((cs.acquire (object timeInState)).acquire (object cumulativeTimeInState))).map
          fun res => ((some timeInState, some cumulativeTimeInState) :: res.1, res.2)
      | _ => none
    else
      (cpufreqStatsTskInit e (cpu + 1) rest cs).map fun res => ((none, none) :: res.1, res.2)

/-! ## `copy_process` -/

inductive ForkResult where
  | error (retval : Int)
  | child (p : Child)

/-- `none` if something is released that is not held, or a null pointer is written
    through. -/
abbrev ForkOutcome : Type := Option (KernelCounts × ForkResult)

def goto (retval : Int) (lb : List (Option Counter)) (cs : KernelCounts) : ForkOutcome :=
  (cs.releaseAll lb).map fun cs => (cs, .error retval)

def orGoto (attempt : Attempt) (lb : Child → List (Option Counter)) (next : Child → KernelCounts → ForkOutcome) :
    ForkOutcome :=
  match attempt with
  | .error (retval, p, cs) => goto retval (lb p) cs
  | .ok (p, cs) => next p cs

/-- The checks at the beginning. -/
def flagsRefused : Bool :=
  fg &&& (CLONE_NEWNS ||| CLONE_FS) = CLONE_NEWNS ||| CLONE_FS ||
  fg &&& (CLONE_NEWUSER ||| CLONE_FS) = CLONE_NEWUSER ||| CLONE_FS ||
  hasFlag fg CLONE_THREAD && !hasFlag fg CLONE_SIGHAND || hasFlag fg CLONE_SIGHAND && !hasFlag fg CLONE_VM ||
  hasFlag fg CLONE_PARENT && e.unkillable || hasFlag fg (CLONE_SIGHAND ||| CLONE_NEWPID) && e.otherPidNs

def visibleChild (pid : Option Nat) (cs : KernelCounts) : KernelCounts :=
  let cs :=
    if pid.isSome then
      (if hasFlag fg CLONE_THREAD then cs.acquire (object cur.signal) else cs).acquire
        (some .nrThreads)
    else cs
  cs.acquire (some .totalForks)

def finishFork (pid : Option Nat) (p : Child) (cs : KernelCounts) : ForkOutcome :=
  -- `copy_seccomp`
  let cs := cs.acquire (reference cur.seccompFilter)
  let p := { p with seccompFilter := cur.seccompFilter }
  if e.signalPending then goto (-ERESTARTNOINTR) (badForkFreePid fg pid p) cs
  else
    let cs := visibleChild fg cur pid cs
    -- `threadgroup_change_end`
    (cs.releaseAll [if hasFlag fg CLONE_THREAD then some .groupReaders else none]).map
      fun cs => (cs, .child p)

/-- From `alloc_pid` on. -/
def forkPid : ForkOutcome :=
  let initialised (pid : Option Nat) (cs : KernelCounts) : ForkOutcome :=
    match cpufreqStatsTskInit e 0 p.cpufreqStats cs with
    | none => none
    | some (cpufreqStats, cs) => finishFork e fg cur pid { p with cpufreqStats } cs
  if e.initStructPid then initialised none cs
  else
    match e.allocPid with
    | none => goto (-ENOMEM) (badForkCleanupIo fg p) cs
    | some pid => initialised (some pid) (cs.acquire (object pid))

/-- From `copy_mm` on. -/
def forkMm : ForkOutcome :=
  orGoto (copyMm e fg cur p cs) (badForkCleanupSignal fg) fun p cs =>
  orGoto (external e.copyNamespaces (fun nsproxy => { p with nsproxy }) p cs)
    (badForkCleanupMm fg) fun p cs =>
  orGoto (copyIo e fg cur p cs) (badForkCleanupNamespaces fg) fun p cs =>
  orGoto (attempt e.copyThread p cs) (badForkCleanupIo fg) fun p cs =>
  forkPid e fg cur p cs

/-- From `copy_files` on. -/
def forkFiles : ForkOutcome :=
  orGoto (copyFiles e fg cur p cs) (badForkCleanupSemundo fg) fun p cs =>
  orGoto (copyFs e fg cur p cs) (badForkCleanupFiles fg) fun p cs =>
  orGoto (copySighand e fg cur p cs) (badForkCleanupFs fg) fun p cs =>
  orGoto (copySignal e fg p cs) (badForkCleanupSighand fg) fun p cs =>
  forkMm e fg cur p cs

/-- From `mpol_dup` on. -/
def forkPolicy : ForkOutcome :=
  orGoto (mpolDup e p cs) (badForkCleanupCgroup fg) fun p cs =>
  orGoto (external e.perfEventInitTask (fun perfEventCtx => { p with perfEventCtx }) p cs)
    (badForkCleanupPolicy fg) fun p cs =>
  orGoto (external e.auditAlloc (fun auditContext => { p with auditContext }) p cs)
    (badForkCleanupPerf fg) fun p cs =>
  orGoto (external e.copySemundo (fun undoList => { p with undoList }) p cs)
    (badForkCleanupAudit fg) fun p cs =>
  forkFiles e fg cur p cs

/-- From `delayacct_tsk_init` on. -/
def forkGroup : ForkOutcome :=
  let p := { p with delays := e.delayacct }
  let cs := cs.acquire (reference e.delayacct)
  let p := { p with ioContext := none, auditContext := none }
  -- `threadgroup_change_begin`
  let cs := cs.acquire (if hasFlag fg CLONE_THREAD then some .groupReaders else none)
  -- `cgroup_fork`
  let p := { p with cgroups := cur.cgroups }
  let cs := cs.acquire (object cur.cgroups)
  forkPolicy e fg cur p cs

/-- From the check of `RLIMIT_NPROC` on. -/
def forkCreds : ForkOutcome :=
  if nprocExceeded e p.user cs then goto (-EAGAIN) (badForkFree p) cs
  else
    orGoto (copyCreds e p cs) badForkFree fun p cs =>
    if cs .nrThreads ≥ e.maxThreads then goto (-EAGAIN) (badForkCleanupCount p) cs
    else
      orGoto (tryModuleGet e p cs) badForkCleanupCount fun p cs =>
      forkGroup e fg cur p cs

def copyProcess : ForkOutcome :=
  if flagsRefused e fg then some (cs, .error (-EINVAL))
  else if e.securityTaskCreate ≠ 0 then some (cs, .error e.securityTaskCreate)
  else
    match dupTaskStruct e cur cs with
    | none => none
    | some (.failed cs) => some (cs, .error (-ENOMEM))
    | some (.copied p cs) => forkCreds e fg cur p cs

/-! ## What fails, and what is left -/

def NoTrace (pre : KernelCounts) : ForkOutcome → Prop
  | none => False
  | some (after, .error _) => after = pre
  | some (_, .child _) => True

/-- Something fails before the reference to the module is held. -/
def failsEarly : Bool :=
  flagsRefused e fg || e.securityTaskCreate ≠ 0 || e.allocTaskStruct.isNone ||
  e.allocThreadInfo.isNone || e.archDupTaskStruct ≠ 0 || nprocExceeded e cur.user cs ||
  !e.copyCreds.isOk || e.maxThreads ≤ cs .nrThreads || cur.execDomainModule.isSome && !e.tryModuleGet

end

section Copies

variable (e : ForkEnv) (fg : Nat) (cur : Parent)

def mpolDupFails : Bool := cur.mempolicy.isSome && !e.mpolDup.isOk
def copyFilesFails : Bool := cur.files.isSome && !hasFlag fg CLONE_FILES && !e.dupFd.isOk
def copyFsFails : Bool := if hasFlag fg CLONE_FS then e.fsInExec else e.copyFsStruct.isNone
def copySighandFails : Bool := !hasFlag fg CLONE_SIGHAND && e.allocSighand.isNone
def copySignalFails : Bool := !hasFlag fg CLONE_THREAD && e.allocSignal.isNone
def copyMmFails : Bool := cur.mm.isSome && !hasFlag fg CLONE_VM && e.dupMm.isNone

def copyIoFails : Bool :=
  cur.ioContext.isSome && !hasFlag fg CLONE_IO && e.ioprioValid && e.getTaskIoContext.isNone

def allocPidFails : Bool := !e.initStructPid && e.allocPid.isNone

/-- Something fails from `mpol_dup` to `alloc_pid`. -/
def failsCopying : Bool :=
  mpolDupFails e cur || !e.perfEventInitTask.isOk || !e.auditAlloc.isOk || !e.copySemundo.isOk ||
  copyFilesFails e fg cur || copyFsFails e fg || copySighandFails e fg ||
  copySignalFails e fg || copyMmFails e fg cur || !e.copyNamespaces.isOk ||
  copyIoFails e fg cur || e.copyThread ≠ 0 || allocPidFails e

end Copies

def ArraysMade (e : ForkEnv) (cpu : Nat) : Prop :=
  e.maxState cpu > 0 → (e.kzalloc cpu).1.isSome = true ∧ (e.kzalloc cpu).2.isSome = true

/-- Every array of the child's statistics is allocated. -/
def KzallocsSucceed (e : ForkEnv) (cur : Parent) : Prop :=
  ∀ cpu < cur.cpufreqStats.length, ArraysMade e cpu

def NoArrays (cur : Parent) : Prop := ∀ cpu ∈ cur.cpufreqStats, cpu = (none, none)

def Step (attempt : Attempt) (fails : Bool) (store : Option Nat → Child) (held : Option Nat → Option Counter)
    (cs : KernelCounts) : Prop :=
  (fails = true ∧ ∃ retval pointer, attempt = .error (retval, store pointer, cs)) ∨
  (fails = false ∧ ∃ pointer, attempt = .ok (store pointer, cs.acquire (held pointer)))

theorem acquire_none (cs : KernelCounts) : cs.acquire none = cs := by
  rw [acquire, one_none, add_zero]

section Steps

variable {e : ForkEnv} {fg : Nat} {cur : Parent} {p : Child} {cs : KernelCounts} {store : Option Nat → Child}

theorem kept_step {held : Option Nat → Option Counter} {post : KernelCounts}
    (ptr : Option Nat) (eq : store ptr = p) (hc : cs.acquire (held ptr) = post) :
    Step (.ok (p, post)) false store held cs :=
  .inr ⟨rfl, ptr, by rw [eq, hc]⟩

theorem external_step (copy : Except Int (Option Nat)) (kept : ∃ ptr, store ptr = p) :
    Step (external copy store p cs) (!copy.isOk) store reference cs := by
  cases copy with
  | error rv =>
    obtain ⟨ptr, eq⟩ := kept
    exact .inl ⟨rfl, rv, ptr, by rw [external, eq]⟩
  | ok ptr => exact .inr ⟨rfl, ptr, rfl⟩

theorem mpolDup_step (eq : p.mempolicy = cur.mempolicy) :
    Step (mpolDup e p cs) (mpolDupFails e cur) (fun mempolicy => { p with mempolicy }) reference cs := by
  rw [mpolDupFails, mpolDup, ← eq]
  cases pol : p.mempolicy with
  | none => exact kept_step p.mempolicy rfl (by rw [pol]; exact acquire_none cs)
  | some _ =>
    cases e.mpolDup with
    | error rv => exact .inl ⟨rfl, rv, none, rfl⟩
    | ok new => exact .inr ⟨rfl, some new, rfl⟩

theorem copyFiles_step (eq : p.files = cur.files) :
    Step (copyFiles e fg cur p cs) (copyFilesFails e fg cur) (fun files => { p with files }) reference cs := by
  rw [copyFilesFails, copyFiles, ← eq]
  cases files : p.files with
  | none => exact kept_step p.files rfl (by rw [files]; exact acquire_none cs)
  | some _ =>
    cases hasFlag fg CLONE_FILES with
    | true => exact kept_step p.files rfl (by rw [files]; rfl)
    | false =>
      cases e.dupFd with
      | error rv => exact .inl ⟨rfl, rv, p.files, rfl⟩
      | ok newf => exact .inr ⟨rfl, some newf, rfl⟩

theorem copyFs_step (eq : p.fs = some cur.fs) :
    Step (copyFs e fg cur p cs) (copyFsFails e fg) (fun fs => { p with fs }) reference cs := by
  rw [copyFsFails, copyFs]
  cases hasFlag fg CLONE_FS with
  | true =>
    cases e.fsInExec with
    | true => exact .inl ⟨rfl, _, p.fs, rfl⟩
    | false => exact kept_step p.fs rfl (by rw [eq]; rfl)
  | false =>
    cases e.copyFsStruct with
    | none => exact .inl ⟨rfl, _, none, rfl⟩
    | some fs => exact .inr ⟨rfl, some fs, rfl⟩

theorem copySighand_step (eq : p.sighand = some cur.sighand) :
    Step (copySighand e fg cur p cs) (copySighandFails e fg) (fun sighand => { p with sighand }) reference cs := by
  rw [copySighandFails, copySighand]
  cases hasFlag fg CLONE_SIGHAND with
  | true => exact kept_step p.sighand rfl (by rw [eq]; rfl)
  | false =>
    cases e.allocSighand with
    | none => exact .inl ⟨rfl, _, none, rfl⟩
    | some sig => exact .inr ⟨rfl, some sig, rfl⟩

theorem copySignal_step :
    Step (copySignal e fg p cs) (copySignalFails e fg) (fun signal => { p with signal }) (signalOf fg) cs := by
  unfold copySignalFails copySignal signalOf
  cases hasFlag fg CLONE_THREAD with
  | true => exact kept_step p.signal rfl (acquire_none cs)
  | false =>
    cases e.allocSignal with
    | none => exact .inl ⟨rfl, _, none, rfl⟩
    | some sig => exact .inr ⟨rfl, some sig, rfl⟩

theorem copyMm_step :
    Step (copyMm e fg cur p cs) (copyMmFails e fg cur) (fun mm => { p with mm }) reference cs := by
  rw [copyMmFails, copyMm]
  cases cur.mm with
  | none => exact .inr ⟨rfl, none, by simp [reference, acquire_none]⟩
  | some oldmm =>
    cases hasFlag fg CLONE_VM with
    | true => exact .inr ⟨rfl, some oldmm, rfl⟩
    | false =>
      cases e.dupMm with
      | none => exact .inl ⟨rfl, _, none, rfl⟩
      | some mm => exact .inr ⟨rfl, some mm, rfl⟩

theorem copyIo_step (unset : p.ioContext = none) :
    Step (copyIo e fg cur p cs) (copyIoFails e fg cur) (fun ioContext => { p with ioContext }) reference cs := by
  rw [copyIoFails, copyIo]
  have nt : Step (.ok (p, cs)) false (fun ioContext => { p with ioContext }) reference cs :=
    kept_step p.ioContext rfl (by rw [unset]; exact acquire_none cs)
  cases cur.ioContext with
  | none => exact nt
  | some ioc =>
    cases hasFlag fg CLONE_IO with
    | true => exact .inr ⟨rfl, some ioc, rfl⟩
    | false =>
      cases e.ioprioValid with
      | false => exact nt
      | true =>
        cases e.getTaskIoContext with
        | none => exact .inl ⟨rfl, _, p.ioContext, rfl⟩
        | some newIoc => exact .inr ⟨rfl, some newIoc, rfl⟩

theorem attempt_step (rv : Int) : Step (attempt rv p cs) (rv ≠ 0) (fun _ => p) (fun _ => none) cs := by
  by_cases zero : rv = 0
  · exact .inr ⟨by simp [zero], none, by simp [attempt, zero, acquire_none]⟩
  · exact .inl ⟨by simp [zero], rv, none, by simp [attempt, zero]⟩

end Steps

/-! ## The error path releases what is held -/

/-- From the label on, what was acquired is released, and the arrays besides. -/
def Balanced (pre : KernelCounts) (lb : Child → List (Option Counter)) (p : Child) (cs : KernelCounts) : Prop :=
  cs + total (cpufreqStatsTskFree p.cpufreqStats) = pre + total (lb p)

def arraysNull (p : Child) : Prop := total (cpufreqStatsTskFree p.cpufreqStats) = 0

theorem noTrace_goto_iff {pre cs : KernelCounts} {rv : Int} {lab : List (Option Counter)} :
    NoTrace pre (goto rv lab cs) ↔ cs = pre + total lab := by
  rw [← releaseAll_eq_some_iff, goto]
  cases cs.releaseAll lab with
  | none => simp [NoTrace]
  | some _ => simp [NoTrace]

section

variable {lab : Child → List (Option Counter)} {pre cs : KernelCounts} {p : Child}
  (hb : Balanced pre lab p cs)
include hb

theorem Balanced.noTrace_goto (rv : Int) : NoTrace pre (goto rv (lab p) cs) ↔ arraysNull p := by
  rw [noTrace_goto_iff, arraysNull, ← hb, left_eq_add]

/-- One more reference is held, and released by the label in front. -/
theorem Balanced.cons (held : Option Counter) : Balanced pre (fun p => held :: lab p) p (cs.acquire held) := by
  rw [Balanced, total_cons, acquire, add_right_comm, hb, add_assoc, add_comm (total _)]

end

theorem cpufreqStatsTskInit_eq (e : ForkEnv) (cpu : Nat) (old : List (Option Nat × Option Nat)) (cs : KernelCounts) :
    ((∀ i < old.length, ArraysMade e (cpu + i)) ∧
      ∃ sta, cpufreqStatsTskInit e cpu old cs = some (sta, cs + total (cpufreqStatsTskFree sta))) ∨
    ((¬ ∀ i < old.length, ArraysMade e (cpu + i)) ∧ cpufreqStatsTskInit e cpu old cs = none) := by
  induction old generalizing cpu cs with
  | nil => exact .inl ⟨by simp, [], by simp [cpufreqStatsTskInit, cpufreqStatsTskFree]⟩
  | cons first old ih =>
    have split : (∀ i < (first :: old).length, ArraysMade e (cpu + i)) ↔
        ArraysMade e cpu ∧ ∀ i < old.length, ArraysMade e (cpu + 1 + i) := by
      rw [List.length_cons, Nat.forall_lt_succ_left]
      simp only [add_zero, Nat.add_assoc, Nat.add_comm 1]
    rw [cpufreqStatsTskInit, split]
    by_cases pos : e.maxState cpu > 0
    · rw [if_pos pos]
      cases kz : e.kzalloc cpu with
      | mk time cumulative =>
        cases time with
        | none => exact .inr ⟨by simp [ArraysMade, pos, kz], rfl⟩
        | some time =>
          cases cumulative with
          | none => exact .inr ⟨by simp [ArraysMade, pos, kz], rfl⟩
          | some cumulative =>
            have made : ArraysMade e cpu := by simp [ArraysMade, kz]
            rcases ih _ _ with
              ⟨all, sta, tl⟩ | ⟨notAll, tl⟩
            · refine .inl ⟨⟨made, all⟩, (some time, some cumulative) :: sta, ?_⟩
              dsimp only
              rw [tl]
              simp [cpufreqStatsTskFree, acquire, reference, object, add_assoc]
            · exact .inr ⟨fun both => notAll both.2, by dsimp only; rw [tl]; rfl⟩
    · have made : ArraysMade e cpu := fun isPositive => absurd isPositive pos
      rw [if_neg pos]
      rcases ih _ cs with ⟨all, sta, tl⟩ | ⟨notAll, tl⟩
      · refine .inl ⟨⟨made, all⟩, (none, none) :: sta, ?_⟩
        rw [tl]
        simp [cpufreqStatsTskFree, reference]
      · exact .inr ⟨fun both => notAll both.2, by rw [tl]; rfl⟩

def Unwinds (pre : KernelCounts) (fails : Bool) (null good : Prop) (out : ForkOutcome) : Prop :=
  NoTrace pre out ↔ (fails = true ∧ null) ∨ (fails = false ∧ good)

section

variable {pre cs : KernelCounts} {attempt : Attempt} {fails laterFails : Bool} {store : Option Nat → Child}
  {held : Option Nat → Option Counter} {lab L : Child → List (Option Counter)} {p : Child}
  {next : Child → KernelCounts → ForkOutcome} {null good : Prop}

theorem Unwinds.orGoto (step : Step attempt fails store held cs)
    (fail : ∀ ptr rv, NoTrace pre (goto rv (lab (store ptr)) cs) ↔ null)
    (late : ∀ ptr, Unwinds pre laterFails null good (next (store ptr) (cs.acquire (held ptr)))) :
    Unwinds pre (fails || laterFails) null good (orGoto attempt lab next) := by
  rcases step with ⟨rfl, rv, ptr, rfl⟩ | ⟨rfl, ptr, rfl⟩
  · simp [Unwinds, Kernel.orGoto, fail]
  · exact late ptr

theorem Balanced.acquire_none (hb : Balanced pre lab p cs) : Balanced pre lab p (cs.acquire none) := by
  rwa [Kernel.acquire_none]

/-- What the step acquires is released by the label in front of the one that it goes to. -/
theorem Balanced.orGoto (hb : Balanced pre lab p cs) (step : Step attempt fails store held cs)
    (late : ∀ ptr, Balanced pre L (store ptr) (cs.acquire (held ptr)) →
      Unwinds pre laterFails (arraysNull p) good (next (store ptr) (cs.acquire (held ptr))))
    (kept : ∀ ptr, (store ptr).cpufreqStats = p.cpufreqStats ∧ lab (store ptr) = lab p := by exact fun _ => ⟨rfl, rfl⟩)
    (front : ∀ ptr, L (store ptr) = held ptr :: lab p := by exact fun _ => rfl) :
    Unwinds pre (fails || laterFails) (arraysNull p) good (orGoto attempt lab next) := by
  refine .orGoto step (fun ptr rv => ?_) fun ptr => late ptr ?_
  · rw [(kept ptr).2]
    exact hb.noTrace_goto rv
  · rw [Balanced, front, (kept ptr).1]
    exact hb.cons _

end

section Fork

variable {e : ForkEnv} {fg : Nat} {cur : Parent} {p : Child} {pre cs : KernelCounts}

/-- Arrays and filter are released behind everything else. -/
theorem total_badForkCleanupIo (sta : List (Option Nat × Option Nat)) (filter : Option Nat) :
    total (badForkCleanupIo fg { p with cpufreqStats := sta, seccompFilter := filter }) =
      total (badForkCleanupIo fg { p with cpufreqStats := [], seccompFilter := none }) +
        total (cpufreqStatsTskFree sta) + one (reference filter) := by
  simp only [badForkCleanupIo, badForkCleanupNamespaces, badForkCleanupMm, badForkCleanupSignal, badForkCleanupSighand,
    badForkCleanupFs, badForkCleanupFiles, badForkCleanupSemundo, badForkCleanupAudit, badForkCleanupPerf,
    badForkCleanupPolicy, badForkCleanupCgroup, badForkCleanupCount, badForkFree, total_append, total_cons, total_nil]
  abel

theorem visibleChild_eq (fg : Nat) (cur : Parent) (pid : Option Nat) (cs : KernelCounts) :
    ∃ more, visibleChild fg cur pid cs = cs + more := by
  rw [visibleChild]
  simp only [acquire]
  split
  · split
    · exact ⟨_, by rw [add_assoc, add_assoc]⟩
    · exact ⟨_, by rw [add_assoc]⟩
  · exact ⟨_, rfl⟩

theorem finishFork_noTrace (hb : Balanced pre (badForkCleanupIo fg) p cs)
    (noFilter : p.seccompFilter = none) (pid : Option Nat) (sta : List (Option Nat × Option Nat)) :
    NoTrace pre (finishFork e fg cur pid { p with cpufreqStats := sta }
      (cs.acquire (reference pid) + total (cpufreqStatsTskFree sta))) := by
  have held : cs = pre + total (badForkCleanupIo fg { p with cpufreqStats := [], seccompFilter := none }) := by
    have sum := hb
    have parts := @total_badForkCleanupIo fg p p.cpufreqStats none
    have full : { p with cpufreqStats := p.cpufreqStats, seccompFilter := none } = p := by rw [← noFilter]
    rw [full, reference, Option.map_none, one_none, add_zero] at parts
    rw [Balanced, parts, ← add_assoc] at sum
    exact add_right_cancel sum
  unfold finishFork
  dsimp only
  split
  · rw [noTrace_goto_iff, badForkFreePid, total_cons, total_badForkCleanupIo, held, acquire, acquire]
    abel
  · -- the lock of a thread's group is held
    have mem : (if hasFlag fg CLONE_THREAD then some Counter.groupReaders else none) ∈
        badForkCleanupIo fg { p with cpufreqStats := [], seccompFilter := none } := by
      simp [badForkCleanupIo, badForkCleanupNamespaces, badForkCleanupMm, badForkCleanupSignal, badForkCleanupSighand,
        badForkCleanupFs, badForkCleanupFiles, badForkCleanupSemundo, badForkCleanupAudit, badForkCleanupPerf,
        badForkCleanupPolicy, badForkCleanupCgroup]
    obtain ⟨rest, split⟩ := exists_total_eq_add_one mem
    obtain ⟨more, hc⟩ := visibleChild_eq fg cur pid
      _
    have tally : (cs.acquire (reference pid) + total (cpufreqStatsTskFree sta)).acquire
          (reference cur.seccompFilter) + more = pre + rest + one (reference pid) + total (cpufreqStatsTskFree sta) +
          one (reference cur.seccompFilter) + more +
          total [if hasFlag fg CLONE_THREAD then some Counter.groupReaders else none] := by
      rw [held, split, acquire, acquire, total_cons]
      abel
    rw [hc, releaseAll_eq_some_iff.mpr tally]
    trivial

theorem forkPid_noTrace (hb : Balanced pre (badForkCleanupIo fg) p cs)
    (noFilter : p.seccompFilter = none) (sameStats : p.cpufreqStats = cur.cpufreqStats) :
    Unwinds pre (allocPidFails e) (arraysNull p) (KzallocsSucceed e cur) (forkPid e fg cur p cs) := by
  have ready : ∀ pid : Option Nat, NoTrace pre
      (match cpufreqStatsTskInit e 0 p.cpufreqStats (cs.acquire (reference pid)) with
        | none => none
        | some (cpufreqStats, cs) => finishFork e fg cur pid { p with cpufreqStats } cs) ↔ KzallocsSucceed e cur := by
    intro pid
    have init := cpufreqStatsTskInit_eq e 0 p.cpufreqStats (cs.acquire (reference pid))
    simp only [zero_add] at init
    rcases init with ⟨made, sta, done⟩ | ⟨notMade, fail⟩
    · rw [done]
      refine iff_of_true (finishFork_noTrace hb noFilter pid sta) ?_
      rwa [KzallocsSucceed, ← sameStats]
    · rw [fail]
      refine iff_of_false id ?_
      rwa [KzallocsSucceed, ← sameStats]
  rw [Unwinds, forkPid, allocPidFails]
  cases e.initStructPid with
  | true =>
    have withNone := ready none
    rw [reference, Option.map_none, acquire_none] at withNone
    simpa using withNone
  | false =>
    cases e.allocPid with
    | none => simpa using hb.noTrace_goto _
    | some pid => simpa [reference, object] using ready (some pid)

theorem forkMm_noTrace (hb : Balanced pre (badForkCleanupSignal fg) p cs)
    (noFilter : p.seccompFilter = none) (sameStats : p.cpufreqStats = cur.cpufreqStats) (noIo : p.ioContext = none) :
    Unwinds pre (copyMmFails e fg cur || (!e.copyNamespaces.isOk ||
        (copyIoFails e fg cur || (e.copyThread ≠ 0 || allocPidFails e))))
      (arraysNull p) (KzallocsSucceed e cur) (forkMm e fg cur p cs) := by
  refine hb.orGoto (L := badForkCleanupMm fg) copyMm_step fun _ hb => ?_
  refine hb.orGoto (L := badForkCleanupNamespaces fg) (external_step _ ⟨p.nsproxy, rfl⟩) fun _ hb => ?_
  refine hb.orGoto (L := badForkCleanupIo fg) (copyIo_step noIo) fun _ hb => ?_
  refine .orGoto (attempt_step e.copyThread) (fun _ rv => hb.noTrace_goto rv) fun _ => ?_
  exact forkPid_noTrace hb.acquire_none noFilter sameStats

structure Copied (cur : Parent) (p : Child) : Prop where
  files : p.files = cur.files
  fs : p.fs = some cur.fs
  sighand : p.sighand = some cur.sighand
  cpufreqStats : p.cpufreqStats = cur.cpufreqStats
  ioContext : p.ioContext = none
  seccompFilter : p.seccompFilter = none

theorem forkFiles_noTrace (hb : Balanced pre (badForkCleanupSemundo fg) p cs) (copy : Copied cur p) :
    Unwinds pre (copyFilesFails e fg cur || (copyFsFails e fg ||
        (copySighandFails e fg || (copySignalFails e fg || (copyMmFails e fg cur ||
          (!e.copyNamespaces.isOk || (copyIoFails e fg cur || (e.copyThread ≠ 0 || allocPidFails e))))))))
      (arraysNull p) (KzallocsSucceed e cur) (forkFiles e fg cur p cs) := by
  refine hb.orGoto (L := badForkCleanupFiles fg) (copyFiles_step copy.files) fun _ hb => ?_
  refine hb.orGoto (L := badForkCleanupFs fg) (copyFs_step copy.fs) fun _ hb => ?_
  refine hb.orGoto (L := badForkCleanupSighand fg) (copySighand_step copy.sighand) fun _ hb => ?_
  refine hb.orGoto (L := badForkCleanupSignal fg) copySignal_step fun _ hb => ?_
  exact forkMm_noTrace hb copy.seccompFilter copy.cpufreqStats copy.ioContext

theorem forkPolicy_noTrace (hb : Balanced pre (badForkCleanupCgroup fg) p cs)
    (copy : Copied cur p) (samePolicy : p.mempolicy = cur.mempolicy) :
    Unwinds pre (failsCopying e fg cur) (arraysNull p) (KzallocsSucceed e cur) (forkPolicy e fg cur p cs) := by
  simp only [failsCopying, Bool.or_assoc]
  refine hb.orGoto (L := badForkCleanupPolicy fg) (mpolDup_step samePolicy) fun _ hb => ?_
  refine hb.orGoto (L := badForkCleanupPerf fg) (external_step _ ⟨p.perfEventCtx, rfl⟩) fun _ hb => ?_
  refine hb.orGoto (L := badForkCleanupAudit fg) (external_step _ ⟨p.auditContext, rfl⟩) fun _ hb => ?_
  refine hb.orGoto (L := badForkCleanupSemundo fg) (external_step _ ⟨p.undoList, rfl⟩) fun _ hb => ?_
  exact forkFiles_noTrace hb
    ⟨copy.files, copy.fs, copy.sighand, copy.cpufreqStats, copy.ioContext, copy.seccompFilter⟩

end Fork

/-! ## A whole fork -/

theorem arraysNull_iff {p : Child} : arraysNull p ↔ ∀ cpu ∈ p.cpufreqStats, cpu = (none, none) := by
  rw [arraysNull, total_eq_zero_iff, cpufreqStatsTskFree]
  simp only [List.mem_flatMap, List.mem_cons, List.not_mem_nil, or_false]
  constructor
  · intro null cpu mem
    have first := null _ ⟨cpu, mem, .inl rfl⟩
    have snd := null _ ⟨cpu, mem, .inr rfl⟩
    exact Prod.ext (Option.map_eq_none_iff.mp first) (Option.map_eq_none_iff.mp snd)
  · rintro null _ ⟨cpu, mem, rfl | rfl⟩
    · rw [null cpu mem]
      rfl
    · rw [null cpu mem]
      rfl

/-- What `dup_task_struct` copies. -/
def dupTask (orig : Parent) (tsk ti : Nat) : Child :=
  { orig with
    fs := some orig.fs, sighand := some orig.sighand, signal := some orig.signal, self := tsk, stack := ti
    seccompFilter := none }

theorem dupTaskStruct_eq (e : ForkEnv) (orig : Parent) (cs : KernelCounts) :
    ((e.allocTaskStruct = none ∨ e.allocThreadInfo = none ∨ e.archDupTaskStruct ≠ 0) ∧
      dupTaskStruct e orig cs = some (.failed cs)) ∨
    ∃ tsk ti, e.allocTaskStruct = some tsk ∧ e.allocThreadInfo = some ti ∧ e.archDupTaskStruct = 0 ∧
      dupTaskStruct e orig cs =
        some (.copied (dupTask orig tsk ti) (cs + total (badForkFree (dupTask orig tsk ti)))) := by
  rw [dupTaskStruct]
  cases e.allocTaskStruct with
  | none => exact .inl ⟨.inl rfl, rfl⟩
  | some tsk =>
    cases e.allocThreadInfo with
    | none =>
      have undone : (cs.acquire (object tsk)).releaseAll [object tsk] = some cs := by
        rw [releaseAll_eq_some_iff, total_cons, total_nil, add_zero, acquire]
      simp [undone]
    | some ti =>
      by_cases arch : e.archDupTaskStruct = 0
      · refine .inr ⟨tsk, ti, rfl, rfl, arch, ?_⟩
        have held : ((cs.acquire (object tsk)).acquire (object ti)).acquire (some .kernelStacks) =
            cs + total (badForkFree (dupTask orig tsk ti)) := by
          simp only [badForkFree, dupTask, total_cons, acquire]
          abel
        simp only [arch, held]
        rfl
      · refine .inl ⟨.inr (.inr arch), ?_⟩
        have undone : ((cs.acquire (object tsk)).acquire (object ti)).releaseAll [object ti, object tsk] = some cs := by
          rw [releaseAll_eq_some_iff]
          simp only [total_cons, acquire]
          abel
        simp [arch, undone]

theorem total_badForkCleanupCount_nrThreads (p : Child) : total (badForkCleanupCount p) .nrThreads = 0 := by
  cases filter : p.seccompFilter <;>
    simp [badForkCleanupCount, badForkFree, one, object, reference, filter]

theorem forkGroup_noTrace {e : ForkEnv} {fg : Nat} {cur : Parent} {p : Child} {pre : KernelCounts}
    (copy : p.files = cur.files ∧ p.fs = some cur.fs ∧ p.sighand = some cur.sighand ∧
      p.cpufreqStats = cur.cpufreqStats ∧ p.seccompFilter = none ∧ p.mempolicy = cur.mempolicy) :
    Unwinds pre (failsCopying e fg cur) (NoArrays cur) (KzallocsSucceed e cur) (forkGroup e fg cur p
        ((pre + total (badForkCleanupCount p)).acquire (reference p.execDomainModule))) := by
  obtain ⟨files, fs, sighand, sta, filter, mempolicy⟩ := copy
  have null : NoArrays cur ↔ arraysNull p := by rw [arraysNull_iff, sta, NoArrays]
  rw [null]
  refine forkPolicy_noTrace ?_ ⟨files, fs, sighand, sta, rfl, filter⟩ mempolicy
  simp only [Balanced, badForkCleanupCgroup, badForkCleanupCount, badForkFree, total_append, total_cons,
    total_nil, acquire]
  abel

theorem forkCreds_noTrace {e : ForkEnv} {fg : Nat} {cur : Parent} {pre : KernelCounts} (tsk ti : Nat) :
    NoTrace pre (forkCreds e fg cur (dupTask cur tsk ti) (pre + total (badForkFree (dupTask cur tsk ti)))) ↔
      (nprocExceeded e cur.user pre || !e.copyCreds.isOk || e.maxThreads ≤ pre .nrThreads ||
        cur.execDomainModule.isSome && !e.tryModuleGet) = true ∨ (failsCopying e fg cur = true ∧ NoArrays cur) ∨
      (failsCopying e fg cur = false ∧ KzallocsSucceed e cur) := by
  have sameLimit : nprocExceeded e (dupTask cur tsk ti).user
      (pre + total (badForkFree (dupTask cur tsk ti))) = nprocExceeded e cur.user pre := by
    rfl
  rw [forkCreds, sameLimit]
  cases nprocExceeded e cur.user pre with
  | true => simp [noTrace_goto_iff]
  | false =>
    rw [copyCreds]
    cases e.copyCreds with
    | error _ => simp [orGoto, noTrace_goto_iff, Except.toBool]
    | ok pair =>
      obtain ⟨cred, user⟩ := pair
      have held : ((pre + total (badForkFree (dupTask cur tsk ti))).acquire (object cred)).acquire
            (some (.processes user)) = pre + total (badForkCleanupCount { dupTask cur tsk ti with cred, user }) := by
        simp only [badForkCleanupCount, badForkFree, total_append, total_cons, acquire]
        abel
      simp only [orGoto, Bool.false_eq_true, if_false, held, Pi.add_apply, total_badForkCleanupCount_nrThreads,
        add_zero, tryModuleGet]
      by_cases ths : e.maxThreads ≤ pre .nrThreads
      · simp [ths, noTrace_goto_iff]
      · have tl := @forkGroup_noTrace e fg cur { dupTask cur tsk ti with cred, user } pre
          ⟨rfl, rfl, rfl, rfl, rfl, rfl⟩
        rw [if_neg ths]
        by_cases refused : (dupTask cur tsk ti).execDomainModule.isSome = true ∧ ¬ e.tryModuleGet = true
        · have isModule : cur.execDomainModule.isSome = true := refused.1
          rw [if_pos refused]
          simp [noTrace_goto_iff, isModule, refused.2]
        · have notEarly : (false || !(Except.ok (cred, user) : Except Int _).isOk ||
              decide (e.maxThreads ≤ pre .nrThreads) || cur.execDomainModule.isSome && !e.tryModuleGet) = false := by
            have granted : (cur.execDomainModule.isSome && !e.tryModuleGet) = false := by
              simpa [dupTask] using refused
            simp [ths, granted, Except.toBool]
          rw [if_neg refused, notEarly]
          simp only [Bool.false_eq_true, false_or]
          exact tl

/-- In every fork: no trace is left exactly if something fails early, or something fails
    and the parent has no arrays, or nothing but a signal can make it fail and the arrays
    of the child are allocated. -/
theorem failed_fork_iff (e : ForkEnv) (fg : Nat) (cur : Parent) (cs : KernelCounts) :
    NoTrace cs (copyProcess e fg cur cs) ↔
      failsEarly e fg cur cs = true ∨ (failsCopying e fg cur = true ∧ NoArrays cur) ∨
      (failsCopying e fg cur = false ∧ KzallocsSucceed e cur) := by
  rw [copyProcess, failsEarly]
  cases refused : flagsRefused e fg with
  | true => simp [NoTrace]
  | false =>
    by_cases security : e.securityTaskCreate = 0
    · rcases dupTaskStruct_eq e cur cs with ⟨failed, duplicated⟩ | ⟨tsk, ti, tk, info, arch, duplicated⟩
      · have fails : e.allocTaskStruct.isNone = true ∨ e.allocThreadInfo.isNone = true ∨ e.archDupTaskStruct ≠ 0 := by
          simpa using failed
        refine iff_of_true (by simp [duplicated, security, NoTrace]) (.inl ?_)
        simp only [Bool.or_eq_true, decide_eq_true_eq]
        tauto
      · have tl := @forkCreds_noTrace e fg cur cs tsk ti
        simpa [duplicated, security, tk, info, arch] using tl
    · simp [NoTrace, security]

/-- A parent with arrays for its only cpu forks, and there is no pid left. -/
def parentWithArrays : Parent :=
  { self := 1, stack := 2, user := 1000, cred := 3, cgroups := 4, fs := 5, sighand := 6, signal := 7
    cpufreqStats := [(some 8, some 9)] }

def noPidLeft : ForkEnv where
  allocTaskStruct := some 20
  allocThreadInfo := some 21
  rlimitNproc := 100
  copyCreds := .ok (22, 1000)
  maxThreads := 100
  mpolDup := .ok 23
  perfEventInitTask := .ok none
  auditAlloc := .ok none
  copySemundo := .ok none
  dupFd := .ok 24
  copyFsStruct := some 25
  allocSighand := some 26
  allocSignal := some 27
  dupMm := some 28
  copyNamespaces := .ok (some 29)
  allocPid := none
  maxState := fun _ => 4
  kzalloc := fun _ => (some 30, some 31)

def parentCounts : KernelCounts
  | .object adr => if adr < 10 then 1 else 0
  | .processes _ => 1
  | _ => 0

/-- The fork fails, and the arrays of the parent are freed. -/
theorem failed_fork_frees_arrays :
    ∃ post, copyProcess noPidLeft 0 parentWithArrays parentCounts = some (post, .error (-ENOMEM)) ∧
      parentCounts (.object 8) = 1 ∧ post (.object 8) = 0 ∧ parentCounts (.object 9) = 1 ∧ post (.object 9) = 0 := by
  refine ⟨_, rfl, ?_⟩
  decide

end Aosp.Kernel
