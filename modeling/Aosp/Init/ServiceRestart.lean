import Aosp.Init.ServiceTable

/-! # Asking a running service to come back

A request to a service that runs is left in its flags and takes effect when the
process exits: `class_reset` with a later `class_start`, and `restart`.  Whether the
request is met depends on what else is in the flags when `Reap` reads them
(`reset_undone_by_class_start_iff`, `restart_restarts_iff`).

A critical service that exits is counted.  `critical_panics_iff` compares the count
that the code keeps with the rule of more than four exits in four minutes.
-/

namespace Aosp.Init

open Aosp.Lib Aosp.Bionic List Service

namespace Service

/-! ## What `Start` needs -/

/-- Nothing keeps `Start` from the fork, unless the service is running. -/
def Startable (svc : Service) (e : StartEnv) : Prop :=
  ¬ svc.Unavailable e ∧ (svc.seclabel.isEmpty = true → e.context.isEmpty = false)

instance (svc : Service) (e : StartEnv) : Decidable (svc.Startable e) :=
  inferInstanceAs (Decidable (_ ∧ _))

variable {svc : Service} {e : StartEnv}

/-- `Start` of a service that is not running, by what is missing. -/
theorem start_stopped (stop : svc.flags.running = false) (e : StartEnv) :
    (svc.Unavailable e ∧ (svc.start e).1.flags.disabled = true ∧ (svc.start e).1.flags.running = false) ∨
      (¬ svc.Unavailable e ∧ (svc.start e).1.flags.disabled = false ∧
        (svc.Startable e → ∀ chd, e.fork = some chd → (svc.start e).2.1 = true)) := by
  generalize isResult : svc.start e = res
  unfold start at isResult
  dsimp only at isResult
  rw [if_neg (by simp [clearForStart, stop])] at isResult
  -- the default console is filled in before it is opened
  obtain ⟨_, name⟩ := svc.clearForStart.exists_console e
  rw [name] at isResult
  split at isResult
  · rename_i shut
    cases isResult
    exact .inl ⟨.inl (by simpa [clearForStart] using shut), rfl, stop⟩
  · rename_i hop
    split at isResult
    · rename_i lacks
      cases isResult
      exact .inl ⟨.inr (by simpa using lacks), rfl, stop⟩
    · rename_i hf
      have ready : ¬ svc.Unavailable e :=
        not_or.mpr ⟨by simpa [clearForStart] using hop, by simpa using hf⟩
      refine .inr ⟨ready, ?_⟩
      split at isResult
      · rename_i bare
        cases isResult
        refine ⟨rfl, fun startable => ?_⟩
        have bare : svc.seclabel.isEmpty = true ∧ e.context.isEmpty = true := by
          simpa [clearForStart] using bare
        rw [startable.2 bare.1] at bare
        cases bare.2
      · cases fork : e.fork with
        | none =>
          rw [fork] at isResult
          cases isResult
          exact ⟨rfl, fun _ chd never => by cases never⟩
        | some _ =>
          rw [fork] at isResult
          cases isResult
          exact ⟨rfl, fun _ _ _ => rfl⟩

/-- `StartIfNotDisabled` calls `Start`, which forks. -/
def StartsWithClass (svc : Service) (e : StartEnv) : Prop :=
  svc.flags.disabled = false ∧ (svc.start e).2.1 = true

instance (svc : Service) (e : StartEnv) : Decidable (svc.StartsWithClass e) :=
  inferInstanceAs (Decidable (_ ∧ _))

theorem start_forks {chd : ChildPid} (stop : svc.flags.running = false) (startable : svc.Startable e)
    (forks : e.fork = some chd) : (svc.start e).2.1 = true := by
  rcases start_stopped stop e with ⟨lacks, -⟩ | ⟨-, -, start⟩
  · exact absurd lacks startable.1
  · exact start startable chd forks

theorem start_running (hr : svc.flags.running = true) : (svc.start e).2.1 = false := by
  unfold start
  rw [if_pos (show svc.clearForStart.flags.running = true from hr)]

/-! ## `class_reset` and `restart` -/

/-- The flags of a service that is reset; it may have been disabled in the `.rc` file. -/
theorem reset_flags (he : svc.flags.rcDisabled = false) :
    svc.reset.1 = { svc with
      flags := { svc.flags with restarting := false, disabledStart := false, reset := true } } := by
  rw [reset, stopOrReset_service]
  simp [stopFlags, he]

theorem restart_flags (hr : svc.flags.running = true) : (svc.restart e).1 = { svc with
      flags := { svc.flags with restarting := false, disabledStart := false, restart := true } } := by
  rw [restart, if_pos hr, stopOrReset_service]
  rfl

/-- A service that was reset is stopped when its process exits. -/
theorem reset_reapBegin (he : svc.flags.rcDisabled = false) (keep : svc.flags.temporary = false) (now : Int) :
    ∃ efs, svc.reset.1.reapBegin now =
      some ({ svc.reset.1 with pid := 0, flags := exitFlags svc.reset.1.flags }, efs, false) := by
  rw [reset_flags he, reapBegin_eq]
  rw [if_neg (by simp [keep]), if_pos (by simp [exitFlags])]
  exact ⟨_, rfl⟩

theorem restart_reapBegin (hr : svc.flags.running = true) (e : StartEnv)
    (keep : svc.flags.temporary = false) (now : Int) :
    ∃ efs onr dead, (svc.restart e).1.reapBegin now = some (dead, efs, onr) ∧
      dead.flags.disabled = svc.flags.disabled ∧ dead.flags.reset = svc.flags.reset ∧
      (dead.flags.restarting = true ↔ svc.flags.disabled = false ∧ svc.flags.reset = false) := by
  rw [restart_flags hr, reapBegin_eq]
  rw [if_neg (by simp [keep])]
  -- `SVC_RESTART` keeps a oneshot service from being disabled and a critical one from being counted
  have manual : ∀ quit : Service, quit.flags.restart = true → quit.countCrash now = some quit := by
    intro quit isManual
    simp [countCrash, isManual]
  by_cases stops : (svc.flags.disabled || svc.flags.reset) = true
  · rw [if_pos (by simpa [exitFlags] using stops)]
    refine ⟨_, _, _, rfl, by simp [exitFlags], rfl, ?_⟩
    constructor
    · intro never
      cases never
    · rintro ⟨notDisabled, notReset⟩
      simp [notDisabled, notReset] at stops
  · rw [if_neg (by simpa [exitFlags] using stops), manual _ rfl]
    refine ⟨_, _, _, rfl, by simp [exitFlags], rfl, ?_⟩
    simpa using stops

end Service

/-- `class_reset` is undone by `class_start`, for a service that runs and is not
    disabled, exactly if the service is permanent and not oneshot; a oneshot service comes
    back too if a manual restart was pending. -/
theorem reset_undone_by_class_start_iff (svc : Service) (enabled : svc.flags.rcDisabled = false)
    (running : svc.flags.running = true) (notDisabled : svc.flags.disabled = false) (now : Int)
    (e : StartEnv) (startable : svc.Startable e) (forks : e.fork.isSome = true) :
    (∃ reaped effects onrestart, svc.reset.1.reapBegin now = some (reaped, effects, onrestart) ∧
        reaped.StartsWithClass e) ↔
      svc.flags.temporary = false ∧ (svc.flags.oneshot = true → svc.flags.restart = true) := by
  cases isTemporary : svc.flags.temporary with
  | true =>
    -- the service is left as it is, and removed
    simp only [Bool.true_eq_false, false_and, iff_false]
    rintro ⟨reaped, effects, onrestart, done, -, starts⟩
    rw [reset_flags enabled, reapBegin_eq, if_pos isTemporary] at done
    cases done
    cases starts.symm.trans (start_running running)
  | false =>
    obtain ⟨effects, done⟩ := reset_reapBegin enabled isTemporary now
    rw [done, reset_flags enabled]
    obtain ⟨_, forks⟩ := Option.isSome_iff_exists.mp forks
    constructor
    · rintro ⟨reaped, _, _, same, active, -⟩
      cases same
      simpa [exitFlags, notDisabled] using active
    · rintro ⟨-, manual⟩
      refine ⟨_, _, _, rfl, by simpa [exitFlags, notDisabled] using manual, ?_⟩
      exact start_forks rfl startable forks

def plainService (flags : ServiceFlags) : Service := { name := ascii "a", args := [ascii "/a"], flags }

theorem reset_undone_by_class_start_iff_plain :
    ∃ svc : Service, svc.flags.rcDisabled = false ∧ svc.flags.running = true ∧
      svc.flags.disabled = false ∧ ∃ reaped effects onrestart,
        svc.reset.1.reapBegin 0 = some (reaped, effects, onrestart) ∧
          reaped.StartsWithClass { fork := some ⟨8, by decide⟩ } := by
  let svc := { plainService { running := true } with pid := 7 }
  exact ⟨svc, rfl, rfl, rfl, (reset_undone_by_class_start_iff svc rfl rfl rfl 0 _ (by decide) rfl).mpr (by decide)⟩

def resetOneshot : List ManagerOp :=
  [.add (plainService { oneshot := true }),
    .operate fun _ => some (.start { fork := some firstChild }),
    .operate fun _ => some .reset, .reapBegin 7 0, .reapEnd,
    .operate fun _ => some (.startIfNotDisabled { fork := some secondChild })]

set_option maxRecDepth 8000 in
/-- The oneshot service ran, was neither disabled nor disabled in its file, and is
    disabled instead of started. -/
theorem oneshot_reset_not_undone :
    ((resetOneshot.take 2).foldlM (ManagerState.exec fun _ => 0) {}).map (fun s => s.manager.services.map
        fun svc => (svc.flags.running, svc.flags.disabled, svc.flags.rcDisabled)) = some [(true, false, false)] ∧
    (resetOneshot.foldlM (ManagerState.exec fun _ => 0) {}).map (fun s => s.manager.services.map
        fun svc => (svc.flags.running, svc.flags.disabled, svc.flags.disabledStart)) = some [(false, true, true)] := by
  decide

/-- A restart that was asked for while the service runs takes effect when its process
    exits exactly if the service is permanent and had not been asked to stop or to
    reset. -/
theorem restart_restarts_iff (svc : Service) (running : svc.flags.running = true) (e : StartEnv) (now : Int) :
    (∃ reaped effects onrestart, (svc.restart e).1.reapBegin now = some (reaped, effects, onrestart) ∧
        reaped.flags.restarting = true ∧ reaped.flags.disabled = false ∧ reaped.flags.reset = false) ↔
      svc.flags.temporary = false ∧ svc.flags.disabled = false ∧ svc.flags.reset = false := by
  cases isTemporary : svc.flags.temporary with
  | true =>
    simp only [Bool.true_eq_false, false_and, iff_false]
    rintro ⟨reaped, effects, onrestart, done, restarting, -⟩
    rw [restart_flags running, reapBegin_eq, if_pos isTemporary] at done
    cases done
    cases restarting
  | false =>
    obtain ⟨effects, onrestart, reaped, done, disabled, reset, restarting⟩ :=
      restart_reapBegin running e isTemporary now
    rw [done]
    constructor
    · rintro ⟨_, _, _, same, isRestarting, -⟩
      cases same
      exact ⟨rfl, restarting.mp isRestarting⟩
    · rintro ⟨-, notStopped⟩
      exact ⟨reaped, effects, onrestart, rfl, restarting.mpr notStopped, disabled.trans notStopped.1,
        reset.trans notStopped.2⟩

theorem restart_restarts_iff_plain :
    ∃ svc : Service, svc.flags.running = true ∧ ∃ reaped effects onrestart,
      (svc.restart { fork := none }).1.reapBegin 0 = some (reaped, effects, onrestart) ∧
        reaped.flags.restarting = true ∧ reaped.flags.disabled = false ∧ reaped.flags.reset = false := by
  let svc := { plainService { running := true } with pid := 7 }
  exact ⟨svc, rfl, (restart_restarts_iff svc rfl _ 0).mpr (by decide)⟩

def restartStopped : List ManagerOp :=
  [.add (plainService {}),
    .operate fun _ => some (.start { fork := some firstChild }), .operate fun _ => some .stop,
    .operate fun _ => some (.restart { fork := some secondChild }), .reapBegin 7 0, .reapEnd]

set_option maxRecDepth 8000 in
/-- The service runs when the restart is asked for, and ends disabled. -/
theorem stopped_service_not_restarted :
    ((restartStopped.take 3).foldlM (ManagerState.exec fun _ => 0) {}).map (fun s => s.manager.services.map
        fun svc => svc.flags.running) = some [true] ∧
    (restartStopped.foldlM (ManagerState.exec fun _ => 0) {}).map (fun s => s.manager.services.map
        fun svc => (svc.flags.restarting, svc.flags.disabled, svc.flags.running)) = some [(false, true, false)] := by
  decide

/-! ## Critical services -/

def Service.Critical (svc : Service) : Prop :=
  svc.flags.critical = true ∧ svc.flags.oneshot = false ∧ svc.flags.disabled = false ∧
    svc.flags.reset = false ∧ svc.flags.restart = false

instance (svc : Service) : Decidable svc.Critical := inferInstanceAs (Decidable (_ ∧ _))

/-- The life of a service: it is operated on, and its process exits at a time. -/
inductive CrashOp where
  | operate (op : ServiceOp)
  | reap (now : Int)

namespace CrashOp

/-- `none` if init panics. -/
def exec (svc : Service) : CrashOp → Option Service
  | .operate op => some (op.exec svc).1
  | .reap now => (svc.reapBegin now).map Prod.fst

def Allowed (svc : Service) : CrashOp → Prop
  | .operate _ => True
  | .reap _ => svc.Critical

instance (svc : Service) (op : CrashOp) : Decidable (op.Allowed svc) := by
  cases op with
  | operate => exact instDecidableTrue
  | reap => exact inferInstanceAs (Decidable svc.Critical)

def time? : CrashOp → Option Int
  | .operate _ => none
  | .reap now => some now

end CrashOp

def reapTimes (ops : List CrashOp) : List Int := ops.filterMap CrashOp.time?

/-- Where the window begins in which `Reap` counts: at boot, and then at the first exit
    four minutes or more after the beginning of the last window. -/
def windowStart (times : List Int) : Int :=
  times.foldl (fun beg now => if now < beg + seconds 240 then beg else now) 0

/-- The last exit is at least the fifth in some window of less than four minutes that
    ends with it. -/
def FifthInFourMinutes (times : List Int) (now : Int) : Prop :=
  ∃ length < seconds 240, 5 ≤ (times.filter (now - length ≤ ·)).length

/-- The last exit is at least the fifth in the window of the code. -/
def FifthInWindow (times : List Int) : Prop := 5 ≤ (times.filter (windowStart times ≤ ·)).length

theorem windowStart_snoc (times : List Int) (now : Int) : windowStart (times ++ [now]) =
    if now < windowStart times + seconds 240 then windowStart times else now := by
  unfold windowStart
  rw [foldl_append]
  rfl

variable {times : List Int}

/-- The window begins before any later exit, and less than four minutes before every
    exit in it. -/
theorem windowStart_bounds (ho : (0 :: times).Pairwise (· ≤ ·)) :
    (∀ now, 0 ≤ now → (∀ time ∈ times, time ≤ now) → windowStart times ≤ now) ∧
      ∀ time ∈ times, time < windowStart times + seconds 240 := by
  induction times using List.reverseRecOn with
  | nil => exact ⟨fun now pos _ => pos, fun _ mem => absurd mem not_mem_nil⟩
  | append_singleton times last ih =>
    have pre : (0 :: times).Pairwise (· ≤ ·) := ho.sublist (by simp)
    have latest : ∀ time ∈ times, time ≤ last := by
      rw [← cons_append, pairwise_append] at ho
      exact fun time mem => ho.2.2 time (mem_cons_of_mem _ mem) last mem_cons_self
    obtain ⟨start, fits⟩ := ih pre
    have pos : (0 : Int) < seconds 240 := by decide
    rw [windowStart_snoc]
    constructor
    · intro now nonnegative late
      split
      · exact start now nonnegative fun time mem => late time (mem_append_left _ mem)
      · exact late last (mem_append_right _ mem_cons_self)
    · intro time mem
      rcases mem_append.mp mem with old | isLast
      · split
        · exact fits time old
        · exact (latest time old).trans_lt (by omega)
      · rw [mem_singleton.mp isLast]
        split
        · assumption
        · omega

def Service.Counts (svc : Service) (times : List Int) : Prop :=
  svc.timeCrashed = windowStart times ∧ svc.crashCount = (times.filter (windowStart times ≤ ·)).length

variable {svc : Service}

theorem countCrash_counts {now : Int} (cs : svc.Counts times)
    (ho : (0 :: (times ++ [now])).Pairwise (· ≤ ·)) (critical : svc.flags.critical = true)
    (automatic : svc.flags.restart = false) : (svc.countCrash now = none ↔ FifthInWindow (times ++ [now])) ∧
      ∀ hc ∈ svc.countCrash now, hc.Counts (times ++ [now]) := by
  obtain ⟨start, hc⟩ := cs
  rw [← cons_append, pairwise_append] at ho
  obtain ⟨pre, -, latest⟩ := ho
  have latest : ∀ time ∈ 0 :: times, time ≤ now := fun time mem => latest time mem now mem_cons_self
  obtain ⟨starts, fits⟩ := windowStart_bounds pre
  have countable : (svc.flags.critical && !svc.flags.restart) = true := by simp [critical, automatic]
  unfold countCrash FifthInWindow Service.Counts
  rw [if_pos countable, start, hc, windowStart_snoc]
  by_cases hi : now < windowStart times + seconds 240
  · -- the exit falls into the window and is added to it
    have counting : windowStart times ≤ now :=
      starts now (latest 0 mem_cons_self) fun time mem => latest time (mem_cons_of_mem _ mem)
    have hg : ((times ++ [now]).filter (windowStart times ≤ ·)).length =
        (times.filter (windowStart times ≤ ·)).length + 1 := by
      simp [counting]
    rw [if_pos hi, if_pos hi, hg]
    split
    · rename_i fifth
      exact ⟨⟨fun _ => fifth, fun _ => rfl⟩, fun _ none => absurd none (Option.not_mem_none _)⟩
    · rename_i early
      refine ⟨⟨fun never => (by cases never), fun fifth => absurd fifth early⟩, ?_⟩
      rintro hc ⟨⟩
      exact ⟨rfl, rfl⟩
  · -- every earlier exit is before the window that begins now
    have old : times.filter (now ≤ ·) = [] := by
      apply filter_eq_nil_iff.mpr
      intro time mem
      have cap := fits time mem
      simp only [decide_eq_true_eq]
      omega
    have alone : ((times ++ [now]).filter (now ≤ ·)).length = 1 := by
      simp [old]
    rw [if_neg hi, if_neg hi, alone]
    refine ⟨⟨fun never => (by cases never), fun fifth => absurd fifth (by decide)⟩, ?_⟩
    rintro hc ⟨⟩
    exact ⟨rfl, rfl⟩

/-- `Reap` of a critical service whose exits count does nothing but count them, and marks
    the service for its restart. -/
theorem Service.reapBegin_critical (critical : svc.Critical) (keep : svc.flags.temporary = false)
    (now : Int) : svc.reapBegin now =
      (({ svc with pid := 0, flags := exitFlags svc.flags } : Service).countCrash now).map fun hc =>
        ({ hc with flags := { exitFlags svc.flags with restart := false, restarting := true } },
          svc.reapKills, true) := by
  obtain ⟨-, repeats, notDisabled, notReset, -⟩ := critical
  rw [reapBegin_eq, if_neg (by simp [keep])]
  rw [if_neg (by simp [exitFlags, repeats, notDisabled, notReset])]

theorem Service.start_counts (svc : Service) (e : StartEnv) : (svc.start e).1.timeCrashed = svc.timeCrashed ∧
      (svc.start e).1.crashCount = svc.crashCount := by
  have oc := svc.start_outcome e
  generalize svc.start e = res at oc
  cases oc <;> exact ⟨rfl, rfl⟩

theorem ServiceOp.exec_counts (svc : Service) (op : ServiceOp) : (op.exec svc).1.timeCrashed = svc.timeCrashed ∧
      (op.exec svc).1.crashCount = svc.crashCount := by
  have hop := svc.exec_operated op
  generalize (op.exec svc).1 = post at hop ⊢
  cases hop with
  | starts _ e => exact start_counts _ e
  | flags => exact ⟨rfl, rfl⟩

theorem reapBegin_counts {now : Int} (cs : svc.Counts times) (critical : svc.Critical)
    (keep : svc.flags.temporary = false) (ho : (0 :: (times ++ [now])).Pairwise (· ≤ ·)) :
    (svc.reapBegin now = none ↔ FifthInWindow (times ++ [now])) ∧
      ∀ dead ∈ (svc.reapBegin now).map Prod.fst, dead.Counts (times ++ [now]) ∧ dead.flags.temporary = false := by
  have quit : ({ svc with pid := 0, flags := exitFlags svc.flags } : Service).Counts times := cs
  obtain ⟨panics, hc⟩ := countCrash_counts quit ho critical.1 critical.2.2.2.2
  rw [reapBegin_critical critical keep, Option.map_eq_none_iff, Option.map_map]
  refine ⟨panics, fun dead reaped => ?_⟩
  obtain ⟨post, tally, rfl⟩ := Option.map_eq_some_iff.mp reaped
  exact ⟨hc post tally, keep⟩

theorem run_counts {first last : Service} {ops : List CrashOp} (stays : first.flags.temporary = false)
    (new : first.timeCrashed = 0 ∧ first.crashCount = 0)
    (run : Run (fun pre op post => CrashOp.Allowed pre op ∧ CrashOp.exec pre op = some post) first ops last)
    (ho : (0 :: reapTimes ops).Pairwise (· ≤ ·)) : last.Counts (reapTimes ops) ∧ last.flags.temporary = false := by
  induction run with
  | nil => exact ⟨new, stays⟩
  | snoc pre ht ih =>
    rename_i ops op mid last
    obtain ⟨may, ran⟩ := ht
    have split : reapTimes (ops ++ [op]) = reapTimes ops ++ op.time?.toList := by
      unfold reapTimes
      rw [filterMap_append]
      cases op <;> rfl
    rw [split] at ho ⊢
    obtain ⟨cs, keep⟩ := ih (ho.sublist (by simp))
    cases op with
    | operate op =>
      cases ran
      obtain ⟨sameTime, sameCount⟩ := op.exec_counts mid
      rw [show reapTimes ops ++ (CrashOp.operate op).time?.toList = reapTimes ops from append_nil _]
      exact ⟨⟨sameTime.trans cs.1, sameCount.trans cs.2⟩, (op.exec_keeps mid).temporary.trans keep⟩
    | reap _ => exact (reapBegin_counts cs may keep ho).2 last ran

/-- The code panics at the fifth exit of its window; then the exit is also the fifth in
    four minutes.  So the rule of more than four exits in four minutes is kept at an
    exit exactly if five exits in four minutes that end with it fall into one window. -/
theorem critical_panics_iff (first last : Service) (ops : List CrashOp) (permanent : first.flags.temporary = false)
    (new : first.timeCrashed = 0 ∧ first.crashCount = 0)
    (run : Run (fun pre op post => CrashOp.Allowed pre op ∧ CrashOp.exec pre op = some post) first ops last)
    (now : Int) (critical : last.Critical) (ordered : (0 :: (reapTimes ops ++ [now])).Pairwise (· ≤ ·)) :
    (last.reapBegin now = none ↔ FifthInWindow (reapTimes ops ++ [now])) ∧
    ((last.reapBegin now = none ↔ FifthInFourMinutes (reapTimes ops ++ [now]) now) ↔
      (FifthInFourMinutes (reapTimes ops ++ [now]) now → FifthInWindow (reapTimes ops ++ [now]))) := by
  obtain ⟨cs, stays⟩ := run_counts permanent new run (ordered.sublist (by simp))
  have panics := (reapBegin_counts cs critical stays ordered).1
  have sliding : FifthInWindow (reapTimes ops ++ [now]) → FifthInFourMinutes (reapTimes ops ++ [now]) now := by
    intro fifth
    have recent := (windowStart_bounds ordered).2 now (mem_append_right _ mem_cons_self)
    refine ⟨now - windowStart (reapTimes ops ++ [now]), by omega, ?_⟩
    rw [sub_sub_cancel]
    exact fifth
  refine ⟨panics, ?_⟩
  rw [panics]
  exact ⟨fun agree => agree.mpr, fun covers => ⟨sliding, covers⟩⟩

def criticalService : Service := plainService { critical := true }

def exitAt (second : Int) : List CrashOp :=
  [.reap (seconds second), .operate (.restartIfNeeded (seconds (second + 6)) 0 0
    { fork := some firstChild, now := seconds (second + 6) })]

def fourExits : List CrashOp :=
  .operate (.start { fork := some firstChild }) :: [200, 210, 220, 230].flatMap exitAt

set_option maxRecDepth 8000 in
theorem critical_panics_iff_fourExits :
    ∃ last : Service, last.Critical ∧
      (last.reapBegin (seconds 239) = none ↔ FifthInWindow (reapTimes fourExits ++ [seconds 239])) := by
  have ends : (runLabels CrashOp.Allowed CrashOp.exec criticalService fourExits).map
      (fun last => decide last.Critical) = some true := by decide
  obtain ⟨last, ran, critical⟩ := Option.map_eq_some_iff.mp ends
  have critical := of_decide_eq_true critical
  exact ⟨last, critical, (critical_panics_iff criticalService last fourExits rfl ⟨rfl, rfl⟩ (run_of_runLabels ran)
    (seconds 239) critical (by decide)).1⟩

set_option maxRecDepth 8000 in
/-- The fifth exit, 241 seconds after boot and 41 after the first, opens a new window: the service is
    marked for its restart and init goes on. -/
theorem fifth_exit_does_not_panic :
    ((fourExits ++ [CrashOp.reap (seconds 241)]).foldlM CrashOp.exec criticalService).map
        (fun svc => (svc.flags.restarting, svc.crashCount)) = some (true, 1) ∧
      FifthInFourMinutes (reapTimes fourExits ++ [seconds 241]) (seconds 241) := by
  refine ⟨by decide, seconds 41, by decide, by decide⟩

end Aosp.Init
