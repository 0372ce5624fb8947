import Aosp.Init.PropertyService

/-! # Services

Model of class `Service` of `init/service.cpp`: what each operation does to the
flags and the process of a service, and the properties it sets and the signals
it sends on the way (`ServiceEffect`).  What the system calls inside `Start` return
is a parameter (`StartEnv`).

`Service.start_outcome` says once what `Start` can do, and `ServiceOp.exec_keeps`
what every operation keeps.
-/

namespace Aosp.Init

open Aosp.Lib Aosp.Bionic

/-- The bits of `flags_`, `SVC_DISABLED` to `SVC_TEMPORARY`. -/
structure ServiceFlags where
  disabled : Bool := false
  oneshot : Bool := false
  running : Bool := false
  restarting : Bool := false
  console : Bool := false
  critical : Bool := false
  reset : Bool := false
  rcDisabled : Bool := false
  restart : Bool := false
  disabledStart : Bool := false
  exec : Bool := false
  shutdownCritical : Bool := false
  temporary : Bool := false
deriving DecidableEq

/-- Times are nanoseconds of the boot clock; `pid` is 0 while there is no process. -/
structure Service where
  name : Bytes
  classnames : List Bytes := [ascii "default"]
  console : Bytes := []
  flags : ServiceFlags := {}
  pid : Nat := 0
  timeStarted : Int := 0
  timeCrashed : Int := 0
  crashCount : Nat := 0
  uid : Nat := 0
  gid : Nat := 0
  suppGids : List Nat := []
  seclabel : Bytes := []
  args : List Bytes
deriving DecidableEq

def isValidName (n : Bytes) : Bool :=
  isLegalPropertyName (ascii "init.svc." ++ n) && n.length ≤ PROP_VALUE_MAX

/-- The values of `init.svc.<name>`. -/
inductive ServiceState where
  | running
  | stopping
  | stopped
  | restarting
deriving DecidableEq

def ServiceState.text : ServiceState → Bytes
  | .running => ascii "running"
  | .stopping => ascii "stopping"
  | .stopped => ascii "stopped"
  | .restarting => ascii "restarting"

inductive Signal where
  | sigkill
  | sigterm
deriving DecidableEq

inductive ServiceEffect where
  | propertySet (n v : Bytes)
  | killProcessGroup (pid : Nat) (signal : Signal)
deriving DecidableEq

/-- The parent's result of a `fork` or `clone` that succeeds. -/
abbrev ChildPid := { pid : Nat // pid ≠ 0 }

def firstChild : ChildPid := ⟨7, by decide⟩
def secondChild : ChildPid := ⟨8, by decide⟩

/-- What `Start` finds: whether the console can be opened and `stat` finds the
    binary, what `ComputeContextFromExecutable` returns, the child if there is one,
    and the time. -/
structure StartEnv where
  defaultConsole : Bytes := ascii "/dev/console"
  consoleOpens : Bool := true
  statFinds : Bool := true
  context : Bytes := ascii "u:r:service:s0"
  fork : Option ChildPid
  now : Int := 0

namespace Service

/-! ## Publishing the state -/

section

variable (svc : Service) (e : StartEnv)

def stateProperty : Bytes := ascii "init.svc." ++ cstr svc.name

def notifyStateChange (ns : ServiceState) : List ServiceEffect :=
  -- Services created by 'exec' are temporary and don't have properties tracking their state.
  if svc.flags.temporary then []
  else
    .propertySet svc.stateProperty ns.text ::
      if ns = .running then
        [.propertySet (ascii "ro.boottime." ++ cstr svc.name) (decimal (svc.timeStarted % 2 ^ 64).toNat)]
      else []

/-! ## Starting -/

def clearForStart : Service :=
  { svc with
    flags := { svc.flags with
      disabled := false, restarting := false, reset := false, restart := false, disabledStart := false } }

def disable : Service :=
  { svc with flags := { svc.flags with disabled := true } }

def start : Service × Bool × List ServiceEffect :=
  let svc := svc.clearForStart
  if svc.flags.running then (svc, false, [])
  else
    let needsConsole := svc.flags.console
    let svc :=
      if needsConsole && svc.console.isEmpty then { svc with console := e.defaultConsole } else svc
    if needsConsole && !e.consoleOpens then (svc.disable, false, [])
    else if !e.statFinds then (svc.disable, false, [])
    else if svc.seclabel.isEmpty && e.context.isEmpty then (svc, false, [])
    else
      match e.fork with
      | none => ({ svc with pid := 0 }, false, [])
      | some pid =>
        let svc :=
          { svc with timeStarted := e.now, pid := pid.1, flags := { svc.flags with running := true } }
        (svc, true, svc.notifyStateChange .running)

/-- The console or the binary is missing: `Start` disables the service. -/
def Unavailable (svc : Service) (e : StartEnv) : Prop :=
  svc.flags.console = true ∧ e.consoleOpens = false ∨ e.statFinds = false

instance (svc : Service) (e : StartEnv) : Decidable (svc.Unavailable e) :=
  inferInstanceAs (Decidable (_ ∨ _))

/-- The flags that `ExecStart` sets, and that are never cleared. -/
def markExec : Service :=
  { svc with flags := { svc.flags with exec := true, oneshot := true } }

def execStart : Service × Bool × List ServiceEffect :=
  svc.markExec.start e

def startIfNotDisabled : Service × Bool × List ServiceEffect :=
  if svc.flags.disabled = false then svc.start e
  else ({ svc with flags := { svc.flags with disabledStart := true } }, true, [])

def enable : Service × Bool × List ServiceEffect :=
  let svc := { svc with flags := { svc.flags with disabled := false, rcDisabled := false } }
  if svc.flags.disabledStart then svc.start e else (svc, true, [])

/-! ## Stopping -/

/-- What `StopOrReset` is called with. -/
inductive StopHow where
  | disabled
  | reset
  | restart
deriving DecidableEq

def killProcessGroup (signal : Signal) : List ServiceEffect :=
  [.killProcessGroup svc.pid signal]

def stopFlags (flags : ServiceFlags) (how : StopHow) : ServiceFlags :=
  -- The service is still SVC_RUNNING until its process exits, but if it has
  -- already exited it shoudn't attempt a restart yet.
  let flags := { flags with restarting := false, disabledStart := false }
  match how with
  -- If the service has not yet started, prevent it from auto-starting with its class.
  | .reset => if flags.rcDisabled then { flags with disabled := true } else { flags with reset := true }
  | .disabled => { flags with disabled := true }
  | .restart => { flags with restart := true }

def stopOrReset (how : StopHow) : Service × List ServiceEffect :=
  let svc := { svc with flags := stopFlags svc.flags how }
  if svc.pid ≠ 0 then
    (svc, svc.killProcessGroup .sigkill ++ svc.notifyStateChange .stopping)
  else (svc, svc.notifyStateChange .stopped)

def reset : Service × List ServiceEffect := svc.stopOrReset .reset

def stop : Service × List ServiceEffect := svc.stopOrReset .disabled

def terminate : Service × List ServiceEffect :=
  let svc :=
    { svc with flags := { svc.flags with restarting := false, disabledStart := false, disabled := true } }
  if svc.pid ≠ 0 then
    (svc, svc.killProcessGroup .sigterm ++ svc.notifyStateChange .stopping)
  else (svc, [])

def restart : Service × List ServiceEffect :=
  if svc.flags.running then svc.stopOrReset .restart
  else if svc.flags.restarting = false then
    let (svc, _, effects) := svc.start e
    (svc, effects)
  else (svc, [])

def seconds (n : Int) : Int := n * 1000000000

/-- `now` and `time` are the boot clock and the wall clock (in seconds); the last
    result is the new `*process_needs_restart_at`. -/
def restartIfNeeded (now time restartAt : Int) (e : StartEnv) : Service × List ServiceEffect × Int :=
  let nextStart := svc.timeStarted + seconds 5
  if now > nextStart then
    let svc := { svc with flags := { svc.flags with restarting := false } }
    let (svc, _, effects) := svc.start e
    (svc, effects, restartAt)
  else
    let nextStartTime := time + (nextStart - now) / seconds 1
    if nextStartTime < restartAt ∨ restartAt = 0 then (svc, [], nextStartTime)
    else (svc, [], restartAt)

/-! ## Reaping

`Reap` runs the `onrestart` commands of the service, which may act on any service.
It is therefore modelled in two parts, before and after them. -/

/-- `Reap` before the `onrestart` commands, and whether it gets there: `none` if
    init panics because a critical service exits too often. -/
def reapBegin (now : Int) : Option (Service × List ServiceEffect × Bool) :=
  let kills :=
    if !svc.flags.oneshot || svc.flags.restart then svc.killProcessGroup .sigkill else []
  if svc.flags.temporary then some (svc, kills, false)
  else
    let flags := { svc.flags with running := false }
    -- Oneshot processes go into the disabled state on exit,
    -- except when manually restarted.
    let flags := if flags.oneshot && !flags.restart then { flags with disabled := true } else flags
    let svc := { svc with pid := 0, flags }
    if flags.disabled || flags.reset then
      some (svc, kills ++ svc.notifyStateChange .stopped, false)
    else
      let counted :=
        -- If we crash > 4 times in 4 minutes, reboot into recovery.
        if flags.critical && !flags.restart then
          if now < svc.timeCrashed + seconds 240 then
            if svc.crashCount + 1 > 4 then none
            else some { svc with crashCount := svc.crashCount + 1 }
          else some { svc with timeCrashed := now, crashCount := 1 }
        else some svc
      counted.map fun svc =>
        ({ svc with flags := { flags with restart := false, restarting := true } }, kills, true)

/-- `Reap` after the `onrestart` commands. -/
def reapEnd : List ServiceEffect := svc.notifyStateChange .restarting

/-! ## What an operation can do -/

def forked (console : Bytes) (pid : ChildPid) (now : Int) : Service :=
  let svc := svc.clearForStart
  { svc with console, timeStarted := now, pid := pid.1, flags := { svc.flags with running := true } }

def unstarted (console : Bytes) (disabled : Bool) (pid : Nat) : Service :=
  let svc := svc.clearForStart
  { svc with console, pid, flags := { svc.flags with disabled } }

end

inductive StartOutcome (svc : Service) (e : StartEnv) : Service × Bool × List ServiceEffect → Prop where
  | alreadyRunning (running : svc.flags.running = true) :
      StartOutcome svc e (svc.clearForStart, false, [])
  | failed (stopped : svc.flags.running = false) (console : Bytes) (disabled : Bool) (pid : Nat)
      (noProcess : pid = svc.pid ∨ pid = 0) :
      StartOutcome svc e (svc.unstarted console disabled pid, false, [])
  | started (stopped : svc.flags.running = false) (console : Bytes) (pid : ChildPid)
      (child : e.fork = some pid) :
      StartOutcome svc e
        (svc.forked console pid e.now, true, (svc.forked console pid e.now).notifyStateChange .running)

/-- The console is the only other field that changes before the outcome is known. -/
theorem exists_console (svc : Service) (e : StartEnv) : ∃ con,
    (if (svc.flags.console && svc.console.isEmpty) = true then { svc with console := e.defaultConsole } else svc) =
      { svc with console := con } := by
  split
  · exact ⟨_, rfl⟩
  · exact ⟨_, rfl⟩

theorem start_outcome (svc : Service) (e : StartEnv) : StartOutcome svc e (svc.start e) := by
  unfold start
  dsimp only
  split
  · rename_i hr
    exact .alreadyRunning hr
  · rename_i hr
    have stop : svc.flags.running = false := Bool.eq_false_iff.mpr hr
    obtain ⟨con, name⟩ := svc.clearForStart.exists_console e
    rw [name]
    split
    · exact .failed stop con true svc.pid (.inl rfl)
    · split
      · exact .failed stop con true svc.pid (.inl rfl)
      · split
        · exact .failed stop con false svc.pid (.inl rfl)
        · split
          · exact .failed stop con false 0 (.inr rfl)
          · rename_i pid chd
            exact .started stop con pid chd

/-- The flags tell whether there is a process. -/
structure Sound (svc : Service) : Prop where
  running : svc.flags.running = true ↔ svc.pid ≠ 0
  restarting : svc.flags.restarting = true → svc.pid = 0

/-- What the operations on a service keep: which service it is, `SVC_EXEC` once it
    is set, that it is sound, and the process if there is one; a new one is the
    child of the `fork`. -/
structure Keeps (svc : Service) (fork : Option ChildPid) (post : Service) : Prop where
  name : post.name = svc.name
  temporary : post.flags.temporary = svc.flags.temporary
  exec : svc.flags.exec = true → post.flags.exec = true
  sound : svc.Sound → post.Sound
  pid : svc.Sound → post.pid = svc.pid ∨ svc.pid = 0 ∧ ∃ child : ChildPid, fork = some child ∧ post.pid = child.1

theorem start_keeps (svc : Service) (e : StartEnv) : svc.Keeps e.fork (svc.start e).1 := by
  have oc := svc.start_outcome e
  generalize svc.start e = res at oc
  cases oc with
  | alreadyRunning _ =>
    exact ⟨rfl, rfl, id, fun hs => ⟨hs.running, nofun⟩, fun _ => .inl rfl⟩
  | failed stop con _ pid idle =>
    have gone : svc.Sound → svc.pid = 0 := by
      intro hs
      by_contra present
      rw [hs.running.mpr present] at stop
      cases stop
    have pidGone : svc.Sound → pid = 0 := by
      intro hs
      rcases idle with eq | zero
      · rw [eq, gone hs]
      · exact zero
    refine ⟨rfl, rfl, id, fun hs => ⟨?_, nofun⟩, fun hs => .inl ?_⟩
    · show svc.flags.running = true ↔ pid ≠ 0
      simp [stop, pidGone hs]
    · show pid = svc.pid
      rw [pidGone hs, gone hs]
  | started stop con pid chd =>
    refine ⟨rfl, rfl, id, fun hs => ⟨⟨fun _ => pid.2, fun _ => rfl⟩, nofun⟩, fun hs => .inr ⟨?_, pid, chd, rfl⟩⟩
    by_contra present
    rw [hs.running.mpr present] at stop
    cases stop

variable {svc : Service}

theorem start_success {e : StartEnv} (ok : (svc.start e).2.1 = true) :
    ∃ chd : ChildPid, e.fork = some chd ∧ (svc.start e).1.pid = chd.1 := by
  have oc := svc.start_outcome e
  generalize svc.start e = res at ok oc
  cases oc with
  | alreadyRunning => cases ok
  | failed => cases ok
  | started _ _ chd fork => exact ⟨chd, fork, rfl⟩

theorem start_failure {e : StartEnv} (failure : (svc.start e).2.1 = false) :
    (svc.start e).1.pid = svc.pid ∨ (svc.start e).1.pid = 0 := by
  have oc := svc.start_outcome e
  generalize svc.start e = res at failure oc
  cases oc with
  | alreadyRunning => exact .inl rfl
  | failed _ _ _ _ noProcess => exact noProcess
  | started => cases failure

/-- Only flags that say nothing about the process change, and `SVC_RESTARTING` is
    not set. -/
theorem keeps_of_same {post : Service} (fork : Option ChildPid)
    (eq : post.name = svc.name ∧ post.pid = svc.pid ∧ post.flags.temporary = svc.flags.temporary ∧
      (svc.flags.exec = true → post.flags.exec = true) ∧ post.flags.running = svc.flags.running ∧
      (post.flags.restarting = true → svc.flags.restarting = true)) :
    svc.Keeps fork post := by
  obtain ⟨n, pid, temp, exec, hr, again⟩ := eq
  refine ⟨n, temp, exec, fun hs => ⟨?_, fun set => ?_⟩, fun _ => .inl pid⟩
  · rw [hr, pid]
    exact hs.running
  · rw [pid]
    exact hs.restarting (again set)

theorem Keeps.trans {mid post : Service} {fork : Option ChildPid} (first : svc.Keeps none mid)
    (snd : mid.Keeps fork post) : svc.Keeps fork post where
  name := snd.name.trans first.name
  temporary := snd.temporary.trans first.temporary
  exec isExec := snd.exec (first.exec isExec)
  sound hs := snd.sound (first.sound hs)
  pid hs := by
    have eq : mid.pid = svc.pid := by
      rcases first.pid hs with eq | ⟨-, chd, none, -⟩
      · exact eq
      · cases none
    rw [← eq]
    exact snd.pid (first.sound hs)

theorem execStart_keeps (svc : Service) (e : StartEnv) : svc.Keeps e.fork (svc.execStart e).1 := by
  apply Keeps.trans _ (svc.markExec.start_keeps e)
  exact keeps_of_same none (by simp [markExec])

theorem execStart_exec (svc : Service) (e : StartEnv) : (svc.execStart e).1.flags.exec = true :=
  (svc.markExec.start_keeps e).exec rfl

theorem stopFlags_keeps (fg : ServiceFlags) (how : StopHow) :
    (stopFlags fg how).temporary = fg.temporary ∧ (stopFlags fg how).exec = fg.exec ∧
      (stopFlags fg how).running = fg.running ∧ (stopFlags fg how).restarting = false := by
  cases how with
  | disabled => exact ⟨rfl, rfl, rfl, rfl⟩
  | restart => exact ⟨rfl, rfl, rfl, rfl⟩
  | reset =>
    unfold stopFlags
    dsimp only
    split <;> exact ⟨rfl, rfl, rfl, rfl⟩

section

variable (svc : Service)

theorem stopOrReset_keeps (how : StopHow) (fork : Option ChildPid) :
    svc.Keeps fork (svc.stopOrReset how).1 := by
  unfold stopOrReset
  dsimp only
  split <;> exact keeps_of_same fork (by simp [stopFlags_keeps])

theorem startIfNotDisabled_keeps (e : StartEnv) : svc.Keeps e.fork (svc.startIfNotDisabled e).1 := by
  unfold startIfNotDisabled
  split
  · exact svc.start_keeps e
  · exact keeps_of_same _ (by simp)

theorem enable_keeps (e : StartEnv) : svc.Keeps e.fork (svc.enable e).1 := by
  unfold enable
  dsimp only
  split
  · apply Keeps.trans _ (start_keeps _ e)
    exact keeps_of_same _ (by simp)
  · exact keeps_of_same _ (by simp)

theorem terminate_keeps (fork : Option ChildPid) : svc.Keeps fork svc.terminate.1 := by
  unfold terminate
  dsimp only
  split <;> exact keeps_of_same _ (by simp)

theorem restart_keeps (e : StartEnv) : svc.Keeps e.fork (svc.restart e).1 := by
  unfold restart
  split
  · exact svc.stopOrReset_keeps .restart _
  · split
    · exact svc.start_keeps e
    · exact keeps_of_same _ (by simp)

theorem restartIfNeeded_keeps (now time restartAt : Int) (e : StartEnv) :
    svc.Keeps e.fork (svc.restartIfNeeded now time restartAt e).1 := by
  unfold restartIfNeeded
  dsimp only
  split
  · apply Keeps.trans _ (start_keeps _ e)
    exact keeps_of_same _ (by simp)
  · split <;> exact keeps_of_same _ (by simp)

end

def Kills (effects : List ServiceEffect) : Prop :=
  ∀ effect ∈ effects, ∃ pid signal, effect = .killProcessGroup pid signal

theorem kills_nil : Kills [] := fun _ mem => absurd mem List.not_mem_nil

theorem kills_killProcessGroup (svc : Service) (signal : Signal) : Kills (svc.killProcessGroup signal) :=
  fun _ mem => ⟨_, _, List.mem_singleton.mp mem⟩

/-- Everything `Reap` can do before the `onrestart` commands, but panic. -/
inductive ReapOutcome (svc : Service) : Service × List ServiceEffect × Bool → Prop where
  | temporary (temporary : svc.flags.temporary = true) (kills : List ServiceEffect) (onlyKills : Kills kills) :
      ReapOutcome svc (svc, kills, false)
  | stopped (permanent : svc.flags.temporary = false) (kills : List ServiceEffect) (onlyKills : Kills kills)
      (post : Service) (n : post.name = svc.name)
      (flags : ∃ disabled, post.flags = { svc.flags with running := false, disabled }) (pid : post.pid = 0) :
      ReapOutcome svc (post, kills ++ post.notifyStateChange .stopped, false)
  | restarting (permanent : svc.flags.temporary = false) (kills : List ServiceEffect) (onlyKills : Kills kills)
      (post : Service) (n : post.name = svc.name)
      (flags : ∃ disabled, post.flags =
        { svc.flags with running := false, disabled, restart := false, restarting := true })
      (pid : post.pid = 0) : ReapOutcome svc (post, kills, true)

theorem reapBegin_outcome {now : Int} {res : Service × List ServiceEffect × Bool}
    (dead : svc.reapBegin now = some res) : svc.ReapOutcome res := by
  unfold reapBegin at dead
  dsimp only at dead
  obtain ⟨kills, onlyKills, killed⟩ : ∃ kills, Kills kills ∧
      (if (!svc.flags.oneshot || svc.flags.restart) = true then svc.killProcessGroup .sigkill else []) = kills := by
    split
    · exact ⟨_, svc.kills_killProcessGroup .sigkill, rfl⟩
    · exact ⟨_, kills_nil, rfl⟩
  rw [killed] at dead
  obtain ⟨disabled, exits⟩ : ∃ disabled, (if (svc.flags.oneshot && !svc.flags.restart) = true then
        { svc.flags with running := false, disabled := true } else { svc.flags with running := false }) =
      { svc.flags with running := false, disabled } := by
    split
    · exact ⟨_, rfl⟩
    · exact ⟨_, rfl⟩
  rw [exits] at dead
  split at dead
  · rename_i temp
    cases dead
    exact .temporary temp kills onlyKills
  · rename_i keep
    have keep : svc.flags.temporary = false := Bool.eq_false_iff.mpr keep
    split at dead
    · cases dead
      exact .stopped keep kills onlyKills _ rfl ⟨_, rfl⟩ rfl
    · obtain ⟨hc, crashes, rfl⟩ := Option.map_eq_some_iff.mp dead
      -- counting the crash leaves the name and the process
      have eq : hc.name = svc.name ∧ hc.pid = 0 := by
        split at crashes
        · split at crashes
          · split at crashes
            · cases crashes
            · cases crashes
              exact ⟨rfl, rfl⟩
          · cases crashes
            exact ⟨rfl, rfl⟩
        · cases crashes
          exact ⟨rfl, rfl⟩
      exact .restarting keep kills onlyKills _ eq.1 ⟨_, rfl⟩ eq.2

theorem reapBegin_keeps {rd : Service} {now : Int} {efs : List ServiceEffect} {onr : Bool}
    (done : svc.reapBegin now = some (rd, efs, onr)) (hs : svc.Sound) :
    rd.name = svc.name ∧ rd.flags.exec = svc.flags.exec ∧ rd.flags.temporary = svc.flags.temporary ∧ rd.Sound ∧
      (svc.flags.temporary = true ∧ rd.pid = svc.pid ∧ onr = false ∨ svc.flags.temporary = false ∧ rd.pid = 0) := by
  cases reapBegin_outcome done with
  | temporary temp => exact ⟨rfl, rfl, rfl, hs, .inl ⟨temp, rfl, rfl⟩⟩
  | stopped keep _ _ _ n fg pid | restarting keep _ _ _ n fg pid =>
    obtain ⟨_, fg⟩ := fg
    exact ⟨n, by rw [fg], by rw [fg], ⟨by simp [fg, pid], fun _ => pid⟩, .inr ⟨keep, pid⟩⟩

end Service

/-! ## Operations -/

/-- What is done to a service from outside, with what its system calls find. -/
inductive ServiceOp where
  | start (e : StartEnv)
  | startIfNotDisabled (e : StartEnv)
  | enable (e : StartEnv)
  | reset
  | stop
  | terminate
  | restart (e : StartEnv)
  | restartIfNeeded (now time restartAt : Int) (e : StartEnv)

namespace ServiceOp

def exec (svc : Service) : ServiceOp → Service × List ServiceEffect
  | .start e => ((svc.start e).1, (svc.start e).2.2)
  | .startIfNotDisabled e => ((svc.startIfNotDisabled e).1, (svc.startIfNotDisabled e).2.2)
  | .enable e => ((svc.enable e).1, (svc.enable e).2.2)
  | .reset => svc.reset
  | .stop => svc.stop
  | .terminate => svc.terminate
  | .restart e => svc.restart e
  | .restartIfNeeded now time restartAt e =>
    ((svc.restartIfNeeded now time restartAt e).1, (svc.restartIfNeeded now time restartAt e).2.1)

def fork : ServiceOp → Option ChildPid
  | .start env | .startIfNotDisabled env | .enable env | .restart env | .restartIfNeeded _ _ _ env => env.fork
  | .reset | .stop | .terminate => none

theorem exec_keeps (svc : Service) (op : ServiceOp) : svc.Keeps op.fork (op.exec svc).1 := by
  cases op with
  | start e => exact svc.start_keeps e
  | startIfNotDisabled e => exact svc.startIfNotDisabled_keeps e
  | enable e => exact svc.enable_keeps e
  | reset => exact svc.stopOrReset_keeps .reset _
  | stop => exact svc.stopOrReset_keeps .disabled _
  | terminate => exact svc.terminate_keeps _
  | restart e => exact svc.restart_keeps e
  | restartIfNeeded now time restartAt e =>
    exact svc.restartIfNeeded_keeps now time restartAt e

end ServiceOp

end Aosp.Init
