import Aosp.Init.PropertyStore
import Aosp.Init.Service

/-! # The published state of a service

Every operation on a service publishes its state as the property
`init.svc.<name>`.  The machine here is one service and the property store of
init: operations on the service, the reaping of its process (with the properties
that its `onrestart` commands set), and properties set by the rest of init.

`published_state_matches_iff`: what is published matches the process and the flags
in every state of a run exactly when no operation takes the service silently out
of `SVC_RESTARTING`, as `Terminate` and a `Start` that fails do.
-/

namespace Aosp.Init

open Aosp.Lib Aosp.Bionic Service ServiceState

/-! ## The machine -/

structure ServiceView where
  init : InitState
  service : Service

/-- Only `persist.` properties depend on the environment of `property_set`, and a
    service sets none. -/
def InitState.apply (s : InitState) : List ServiceEffect → Option InitState
  | [] => some s
  | .killProcessGroup _ _ :: tl => s.apply tl
  | .propertySet name value :: tl =>
    match s.propertySet {} name value with
    | none => none
    | some (next, _) => next.apply tl

/-- A call of `property_set` by another part of init. -/
structure PropertyCall where
  env : PersistEnv
  name : Bytes
  value : Bytes

def InitState.setOthers (svc : Service) (s : InitState) : List PropertyCall → Option InitState
  | [] => some s
  | call :: tl =>
    if call.name ≠ svc.stateProperty ∧ call.name.length < 2 ^ 32 then
      match s.propertySet call.env call.name call.value with
      | none => none
      | some (next, _) => next.setOthers svc tl
    else none

inductive PublishOp where
  | operate (op : ServiceOp)
  | reap (now : Int) (onrestart : List PropertyCall)
  | elsewhere (calls : List PropertyCall)

namespace ServiceView

/-- `none` if init panics, or if there is no process to reap. -/
def exec (view : ServiceView) : PublishOp → Option ServiceView
  | .operate op =>
    let (svc, effects) := op.exec view.service
    (view.init.apply effects).map fun init => ⟨init, svc⟩
  | .reap now onrestart =>
    if view.service.pid = 0 then none
    else
      match view.service.reapBegin now with
      | none => none
      | some (svc, effects, restarts) =>
        match view.init.apply effects with
        | none => none
        | some init =>
          if restarts then
            match init.setOthers svc onrestart with
            | none => none
            | some init => (init.apply svc.reapEnd).map fun init => ⟨init, svc⟩
          else some ⟨init, svc⟩
  | .elsewhere calls => (view.init.setOthers view.service calls).map fun init => ⟨init, view.service⟩

def published (view : ServiceView) : Option Bytes :=
  (view.init.read view.service.stateProperty).map fun res => res.2.take res.1

/-- A published state is `running` or `stopping` exactly if there is a process, and
    `restarting` exactly if `SVC_RESTARTING` is set. -/
def Matches (view : ServiceView) : Prop :=
  ∀ v, view.published = some v → ((v = running.text ∨ v = stopping.text) ↔ view.service.pid ≠ 0) ∧
      (v = restarting.text ↔ view.service.flags.restarting = true)

structure Consistent (view : ServiceView) : Prop where
  wellFormed : view.init.properties.WellFormed
  valid : isValidName view.service.name = true
  permanent : view.service.flags.temporary = false
  sound : view.service.Sound

end ServiceView

/-! ## What an operation announces -/

def Service.Shows (svc : Service) (s : ServiceState) : Prop :=
  ((s = .running ∨ s = .stopping) ↔ svc.pid ≠ 0) ∧ (s = .restarting ↔ svc.flags.restarting = true)

/-- The last thing an operation does is to announce the state the service is in. -/
def Announced (post : Service) (effects : List ServiceEffect) : Prop :=
  ∃ kills s, Service.Kills kills ∧ post.Shows s ∧ effects = kills ++ post.notifyStateChange s

/-- Nothing is announced, and there is nothing to announce. -/
def Silent (svc post : Service) (effects : List ServiceEffect) : Prop :=
  effects = [] ∧ post.pid = svc.pid ∧ post.flags.restarting = svc.flags.restarting

def Dropped (svc post : Service) (effects : List ServiceEffect) : Prop :=
  effects = [] ∧ post.pid = svc.pid ∧ post.flags.restarting = false

/-- The service is running, its console or binary is missing, no context is
    computed, or the fork fails. -/
def Service.StartFails (svc : Service) (e : StartEnv) : Prop :=
  svc.flags.running = true ∨ svc.Unavailable e ∨ (svc.seclabel.isEmpty = true ∧ e.context.isEmpty = true) ∨
    e.fork = none

/-- The operation takes a restarting service out of `SVC_RESTARTING` without
    starting it: it terminates it, or tries to start it and fails. -/
def ServiceOp.Drops (svc : Service) : ServiceOp → Prop
  | .terminate => True
  | .start e => svc.StartFails e
  | .startIfNotDisabled e => svc.flags.disabled = false ∧ svc.StartFails e
  | .enable e => svc.flags.disabledStart = true ∧ svc.StartFails e
  | .restartIfNeeded now _ _ e => now > svc.timeStarted + seconds 5 ∧ svc.StartFails e
  | .reset | .stop | .restart _ => False

variable {svc : Service} {efs : List ServiceEffect} {drops : Prop} {cls : List PropertyCall} {op : PublishOp}

theorem start_eq_false_iff {e : StartEnv} : (svc.start e).2.1 = false ↔ svc.StartFails e := by
  obtain ⟨_, named⟩ := svc.clearForStart.exists_console e
  unfold Service.start StartFails Unavailable
  dsimp only
  repeat' split
  all_goals simp_all [clearForStart]

theorem start_announces (hs : svc.Sound) (e : StartEnv) :
    ((svc.start e).2.1 = true ∧ Announced (svc.start e).1 (svc.start e).2.2) ∨
      ((svc.start e).2.1 = false ∧ Dropped svc (svc.start e).1 (svc.start e).2.2) := by
  have keep := (svc.start_keeps e).pid hs
  have oc := svc.start_outcome e
  generalize svc.start e = res at keep oc
  cases oc with
  | alreadyRunning => exact .inr ⟨rfl, rfl, rfl, rfl⟩
  | failed stop _ _ pid idle =>
    have gone : svc.pid = 0 := by
      by_contra present
      rw [hs.running.mpr present] at stop
      cases stop
    have eq : pid = svc.pid := by
      rcases idle with eq | zero
      · exact eq
      · rw [zero, gone]
    exact .inr ⟨rfl, rfl, eq, rfl⟩
  | started _ _ pid =>
    refine .inl ⟨rfl, [], .running, kills_nil, ⟨?_, ?_⟩, rfl⟩
    · exact ⟨fun _ => pid.2, fun _ => .inl rfl⟩
    · exact ⟨nofun, nofun⟩

theorem stopOrReset_announces (svc : Service) (how : Service.StopHow) :
    Announced (svc.stopOrReset how).1 (svc.stopOrReset how).2 := by
  have cleared := (stopFlags_keeps svc.flags how).2.2.2
  unfold stopOrReset
  dsimp only
  split
  · rename_i hp
    refine ⟨_, .stopping, kills_killProcessGroup _ .sigkill, ⟨?_, ?_⟩, rfl⟩
    · exact ⟨fun _ => hp, fun _ => .inr rfl⟩
    · simp [cleared]
  · rename_i ha
    refine ⟨[], .stopped, kills_nil, ⟨?_, ?_⟩, rfl⟩
    · simpa using ha
    · simp [cleared]

/-- An operation announces the new state, or there is nothing to announce, unless
    the service is restarting and the operation drops that. -/
structure Reports (svc : Service) (drops : Prop) (post : Service) (effects : List ServiceEffect) : Prop where
  dropped : svc.flags.restarting = true → drops → Dropped svc post effects
  kept : ¬ (svc.flags.restarting = true ∧ drops) → Announced post effects ∨ Silent svc post effects

theorem Reports.announced {post : Service} (told : Announced post efs) (never : ¬ drops) : Reports svc drops post efs :=
  ⟨fun _ happens => absurd happens never, fun _ => .inl told⟩

theorem Reports.silent {post : Service} (effects : Silent svc post efs)
    (never : ¬ (svc.flags.restarting = true ∧ drops)) :
    Reports svc drops post efs :=
  ⟨fun again happens => absurd ⟨again, happens⟩ never, fun _ => .inr effects⟩

/-- `Start` drops `SVC_RESTARTING` exactly when it fails. -/
theorem start_reports {tried : Service} {e : StartEnv} (hs : tried.Sound) (pid : tried.pid = svc.pid)
    (fails : tried.StartFails e ↔ svc.StartFails e) :
    Reports svc (svc.StartFails e) (tried.start e).1 (tried.start e).2.2 := by
  rw [← fails, ← start_eq_false_iff]
  rcases start_announces hs e with ⟨ok, told⟩ | ⟨failure, efs, eq, cleared⟩
  · exact .announced told (by rw [ok]; decide)
  · refine ⟨fun _ _ => ⟨efs, eq.trans pid, cleared⟩, fun kept => .inr ⟨efs, eq.trans pid, ?_⟩⟩
    have still : svc.flags.restarting = false := Bool.eq_false_iff.mpr fun set => kept ⟨set, failure⟩
    rw [cleared, still]

theorem ServiceOp.exec_reports (hs : svc.Sound) (op : ServiceOp) :
    Reports svc (op.Drops svc) (op.exec svc).1 (op.exec svc).2 := by
  cases op with
  | start e => exact start_reports hs rfl Iff.rfl
  | startIfNotDisabled e =>
    simp only [exec, Drops, Service.startIfNotDisabled]
    split
    · rename_i enabled
      simp only [enabled, true_and]
      exact start_reports hs rfl Iff.rfl
    · rename_i disabled
      exact .silent ⟨rfl, rfl, rfl⟩ fun both => disabled both.2.1
  | enable e =>
    simp only [exec, Drops, Service.enable]
    split
    · rename_i delayed
      simp only [delayed, true_and]
      exact start_reports ⟨hs.running, hs.restarting⟩ rfl Iff.rfl
    · rename_i never
      exact .silent ⟨rfl, rfl, rfl⟩ fun both => never both.2.1
  | reset => exact .announced (stopOrReset_announces svc .reset) id
  | stop => exact .announced (stopOrReset_announces svc .disabled) id
  | terminate =>
    simp only [exec, Service.terminate]
    split
    · rename_i hp
      have settled : svc.flags.restarting = false :=
        Bool.eq_false_iff.mpr fun set => hp (hs.restarting set)
      refine ⟨fun set => ?_, fun _ => .inl ?_⟩
      · rw [settled] at set
        cases set
      · exact ⟨_, .stopping, Service.kills_killProcessGroup _ .sigterm,
          ⟨⟨fun _ => hp, fun _ => .inr rfl⟩, nofun, nofun⟩, rfl⟩
    · refine ⟨fun _ _ => ⟨rfl, rfl, rfl⟩, fun kept => .inr ⟨rfl, rfl, ?_⟩⟩
      exact (Bool.eq_false_iff.mpr fun set => kept ⟨set, trivial⟩).symm
  | restart e =>
    simp only [exec, Service.restart]
    split
    · exact .announced (stopOrReset_announces svc .restart) id
    · split
      · rename_i settled
        refine ⟨fun _ => False.elim, fun _ => (start_reports (e := e) hs rfl Iff.rfl).kept ?_⟩
        simp [settled]
      · exact .silent ⟨rfl, rfl, rfl⟩ (fun both => both.2)
  | restartIfNeeded _ _ _ e =>
    simp only [exec, Drops, Service.restartIfNeeded]
    split
    · rename_i late
      simp only [late, true_and]
      exact start_reports ⟨hs.running, nofun⟩ rfl Iff.rfl
    · rename_i early
      split <;> exact .silent ⟨rfl, rfl, rfl⟩ (fun both => early both.2.1)

/-! ## Setting the state property -/

section

variable {svc : Service} (hv : isValidName svc.name = true)

include hv

theorem stateProperty_legal : isLegalPropertyName svc.stateProperty = true ∧ cstr svc.name = svc.name := by
  simp only [isValidName, Bool.and_eq_true] at hv
  have free : NulFree svc.name := fun mem =>
    legal_nulFree hv.1 (List.mem_append_right _ mem)
  rw [stateProperty, cstr_of_nulFree free]
  exact ⟨hv.1, rfl⟩

theorem name_short : svc.name.length ≤ PROP_VALUE_MAX := by
  simp only [isValidName, Bool.and_eq_true, decide_eq_true_eq] at hv
  exact hv.2

theorem stateProperty_short : svc.stateProperty.length < 2 ^ 32 := by
  have long := name_short hv
  simp only [stateProperty, (stateProperty_legal hv).2, List.length_append, PROP_VALUE_MAX] at long ⊢
  have nine : (ascii "init.svc.").length = 9 := rfl
  omega

variable {s post : InitState}

theorem read_frame {e : PersistEnv} {n v : Bytes} {res : PropResult}
    (wf : s.properties.WellFormed) (fits : n.length < 2 ^ 32) (o : n ≠ svc.stateProperty)
    (set : s.propertySet e n v = some (post, res)) :
    post.properties.WellFormed ∧ post.read svc.stateProperty = s.read svc.stateProperty := by
  obtain ⟨awf, kept⟩ := propertySet_frame wf fits set
  have eq := kept (PropName.ofLegal svc.stateProperty (stateProperty_legal hv).1 (stateProperty_short hv))
    o.symm
  simp only [PropName.ofLegal] at eq
  exact ⟨awf, by rw [InitState.read, eq, InitState.read]⟩

theorem setOthers_frame (wf : s.properties.WellFormed) (set : s.setOthers svc cls = some post) :
    post.properties.WellFormed ∧ post.read svc.stateProperty = s.read svc.stateProperty := by
  induction cls generalizing s with
  | nil =>
    cases set
    exact ⟨wf, rfl⟩
  | cons c _ ih =>
    unfold InitState.setOthers at set
    split at set
    · rename_i may
      split at set
      · cases set
      · rename_i next _ call
        obtain ⟨nextFine, eq⟩ := read_frame hv wf may.2 may.1 call
        obtain ⟨awf, late⟩ := ih nextFine set
        exact ⟨awf, late.trans eq⟩
    · cases set

theorem apply_notifyStateChange (keep : svc.flags.temporary = false) {ns : ServiceState}
    (wf : s.properties.WellFormed) (used : s.apply (svc.notifyStateChange ns) = some post) :
    post.properties.WellFormed ∧ (post.read svc.stateProperty = some (ns.text.length, ns.text ++ [0]) ∨
        post.read svc.stateProperty = none) := by
  have free : NulFree ns.text ∧ ns.text.length < PROP_VALUE_MAX := by
    cases ns <;> decide
  have writable : (ascii "ro.").isPrefixOf svc.stateProperty = false := rfl
  simp only [notifyStateChange, keep, Bool.false_eq_true, if_false, InitState.apply] at used
  split at used
  · cases used
  · rename_i next _ set
    obtain ⟨nextFine, -⟩ := propertySet_frame wf (stateProperty_short hv) set
    have read := propertySet_read wf (stateProperty_short hv) set (stateProperty_legal hv).1 writable free.1 free.2
    split at used
    · -- a service that runs also sets the time it was started
      unfold InitState.apply at used
      split at used
      · cases used
      · rename_i final _ timed
        cases used
        have fits : (ascii "ro.boottime." ++ cstr svc.name).length < 2 ^ 32 := by
          have long := name_short hv
          simp only [(stateProperty_legal hv).2, List.length_append, PROP_VALUE_MAX] at long ⊢
          have twelve : (ascii "ro.boottime.").length = 12 := rfl
          omega
        -- the two names differ in their first character
        have o : ascii "ro.boottime." ++ cstr svc.name ≠ svc.stateProperty := by
          intro eq
          exact absurd (congrArg List.head? eq) (by simp [stateProperty, ascii])
        obtain ⟨awf, kept⟩ := read_frame hv nextFine fits o timed
        rw [kept]
        exact ⟨awf, read⟩
    · cases used
      exact ⟨nextFine, read⟩

end

theorem apply_kills {kills : List ServiceEffect} (onlyKills : Service.Kills kills) (s : InitState)
    (tl : List ServiceEffect) : s.apply (kills ++ tl) = s.apply tl := by
  induction kills with
  | nil => rfl
  | cons effect kills ih =>
    obtain ⟨_, _, rfl⟩ := onlyKills effect List.mem_cons_self
    exact ih fun o mem => onlyKills o (List.mem_cons_of_mem _ mem)

/-! ## Matching -/

theorem ServiceState.text_injective {one two : ServiceState} (eq : one.text = two.text) : one = two := by
  cases one <;> cases two <;> first | rfl | exact absurd eq (by decide)

namespace ServiceView

theorem matches_of_announced {init post : InitState} {svc : Service} (hv : isValidName svc.name = true)
    (keep : svc.flags.temporary = false) (wf : init.properties.WellFormed)
    (told : Announced svc efs) (used : init.apply efs = some post) :
    post.properties.WellFormed ∧ Matches ⟨post, svc⟩ := by
  obtain ⟨_, s, kills, shows, rfl⟩ := told
  rw [apply_kills kills] at used
  obtain ⟨awf, read⟩ := apply_notifyStateChange hv keep wf used
  refine ⟨awf, fun v seen => ?_⟩
  rcases read with kept | ha
  · simp only [published, kept, Option.map_some, List.take_left, Option.some.injEq] at seen
    subst seen
    constructor
    · rw [← shows.1]
      exact ⟨Or.imp text_injective text_injective, Or.imp (congrArg text) (congrArg text)⟩
    · rw [← shows.2]
      exact ⟨text_injective, congrArg text⟩
  · simp [published, ha] at seen

variable {view post : ServiceView}

theorem published_congr (n : post.service.name = view.service.name)
    (read : post.init.read view.service.stateProperty = view.init.read view.service.stateProperty) :
    post.published = view.published := by
  simp only [published, stateProperty, n] at read ⊢
  rw [read]

theorem matches_congr (seen : post.published = view.published) (pid : post.service.pid = view.service.pid)
    (again : post.service.flags.restarting = view.service.flags.restarting) (fits : view.Matches) : post.Matches := by
  intro v eq
  rw [pid, again]
  exact fits v (seen.symm.trans eq)

/-- The step does not take a restarting service, whose state is published, silently
    out of `SVC_RESTARTING`. -/
def Keeps (view : ServiceView) : PublishOp → Prop
  | .operate op => ¬ (view.published ≠ none ∧ view.service.flags.restarting = true ∧ op.Drops view.service)
  | .reap _ _ | .elsewhere _ => True

section

variable (sound : view.Consistent)
include sound

theorem operate_step (op : ServiceOp) (ran : view.exec (.operate op) = some post) :
    post.Consistent ∧ (view.Matches → view.Keeps (.operate op) → post.Matches) := by
  simp only [exec, Option.map_eq_some_iff] at ran
  obtain ⟨init, used, rfl⟩ := ran
  have keep := op.exec_keeps view.service
  have reports := op.exec_reports sound.sound
  have hv : isValidName (op.exec view.service).1.name = true := by
    rw [keep.name]
    exact sound.valid
  have stays : (op.exec view.service).1.flags.temporary = false := by
    rw [keep.temporary]
    exact sound.permanent
  have done : ∀ wf : init.properties.WellFormed, Consistent ⟨init, (op.exec view.service).1⟩ :=
    fun wf => ⟨wf, hv, stays, keep.sound sound.sound⟩
  by_cases drops : view.service.flags.restarting = true ∧ op.Drops view.service
  -- nothing is announced; by assumption there is no published value that could become stale
  · obtain ⟨efs, -, -⟩ := reports.dropped drops.1 drops.2
    rw [efs] at used
    cases used
    refine ⟨done sound.wellFormed, fun _ unpublished v seen => ?_⟩
    have eq : (⟨view.init, (op.exec view.service).1⟩ : ServiceView).published = view.published :=
      published_congr keep.name rfl
    rw [eq] at seen
    exact absurd ⟨by simp [seen], drops⟩ unpublished
  · rcases reports.kept drops with told | ⟨efs, pid, again⟩
    · obtain ⟨wf, fits⟩ := matches_of_announced hv stays sound.wellFormed told used
      exact ⟨done wf, fun _ _ => fits⟩
    · rw [efs] at used
      cases used
      refine ⟨done sound.wellFormed, fun fits _ => matches_congr ?_ pid again fits⟩
      exact published_congr keep.name rfl

theorem reap_step {now : Int} {onr : List PropertyCall} (ran : view.exec (.reap now onr) = some post) :
    post.Consistent ∧ post.Matches := by
  simp only [exec] at ran
  split at ran
  · cases ran
  · rename_i hp
    -- a service with a process is not waiting for its restart
    have settled : view.service.flags.restarting = false :=
      Bool.eq_false_iff.mpr fun set => hp (sound.sound.restarting set)
    split at ran
    · cases ran
    · rename_i service efs restarts dead
      split at ran
      · cases ran
      · rename_i init used
        cases reapBegin_outcome dead with
        | temporary temp =>
          rw [sound.permanent] at temp
          cases temp
        | stopped keep kills onlyKills service n fg pid =>
          obtain ⟨off, fg⟩ := fg
          cases ran
          have hv : isValidName service.name = true := by
            rw [n]
            exact sound.valid
          have lasts : service.flags.temporary = false := by rw [fg]; exact keep
          have told : Announced service _ :=
            ⟨kills, .stopped, onlyKills, by simp [Service.Shows, pid, fg, settled], rfl⟩
          obtain ⟨wf, fits⟩ :=
            matches_of_announced hv lasts sound.wellFormed told used
          exact ⟨⟨wf, hv, lasts, ⟨by simp [fg, pid], fun _ => pid⟩⟩, fits⟩
        | restarting keep _ onlyKills service n fg pid =>
          obtain ⟨off, fg⟩ := fg
          rw [← List.append_nil efs, apply_kills onlyKills] at used
          cases used
          have hv : isValidName service.name = true := by
            rw [n]
            exact sound.valid
          have lasts : service.flags.temporary = false := by rw [fg]; exact keep
          simp only [↓reduceIte] at ran
          split at ran
          · cases ran
          -- the `onrestart` commands set other properties before the state is announced
          · rename_i amid rest
            obtain ⟨betweenWellFormed, -⟩ := setOthers_frame hv sound.wellFormed rest
            obtain ⟨_, notified, rfl⟩ := Option.map_eq_some_iff.mp ran
            have told : Announced service service.reapEnd :=
              ⟨[], .restarting, kills_nil, by simp [Service.Shows, pid, fg], rfl⟩
            obtain ⟨wf, fits⟩ :=
              matches_of_announced hv lasts betweenWellFormed told notified
            exact ⟨⟨wf, hv, lasts, ⟨by simp [fg, pid], fun _ => pid⟩⟩, fits⟩

theorem elsewhere_step (ran : view.exec (.elsewhere cls) = some post) :
    post.Consistent ∧ (view.Matches → post.Matches) := by
  obtain ⟨_, rest, rfl⟩ := Option.map_eq_some_iff.mp ran
  obtain ⟨wf, read⟩ := setOthers_frame sound.valid sound.wellFormed rest
  exact ⟨⟨wf, sound.valid, sound.permanent, sound.sound⟩, matches_congr (published_congr rfl read) rfl rfl⟩

/-- A step that drops `SVC_RESTARTING` leaves `restarting` published. -/
theorem dropped_step (fits : view.Matches) (seen : view.published ≠ none)
    {op : ServiceOp} (again : view.service.flags.restarting = true) (drops : op.Drops view.service)
    (ran : view.exec (.operate op) = some post) : ¬ post.Matches := by
  intro matchedAfter
  obtain ⟨efs, -, cleared⟩ := (op.exec_reports sound.sound).dropped again drops
  simp only [exec, efs] at ran
  cases ran
  obtain ⟨v, val⟩ := Option.ne_none_iff_exists'.mp seen
  have eq : (⟨view.init, (op.exec view.service).1⟩ : ServiceView).published = some v := by
    rw [← val]
    exact published_congr (op.exec_keeps view.service).name rfl
  have stillRestarting := (matchedAfter v eq).2.mp ((fits v val).2.mpr again)
  rw [cleared] at stillRestarting
  cases stillRestarting

theorem step_matches_iff (fits : view.Matches) (ran : view.exec op = some post) : post.Matches ↔ view.Keeps op := by
  cases op with
  | operate op =>
    constructor
    · intro matchedAfter drops
      exact dropped_step sound fits drops.1 drops.2.1 drops.2.2 ran matchedAfter
    · intro keep
      exact (operate_step sound op ran).2 fits keep
  | reap _ _ => exact ⟨fun _ => trivial, fun _ => (reap_step sound ran).2⟩
  | elsewhere _ => exact ⟨fun _ => trivial, fun _ => (elsewhere_step sound ran).2 fits⟩

theorem step_consistent (ran : view.exec op = some post) : post.Consistent := by
  cases op with
  | operate op => exact (operate_step sound op ran).1
  | reap _ _ => exact (reap_step sound ran).1
  | elsewhere _ => exact (elsewhere_step sound ran).1

end

end ServiceView

open ServiceView

/-- The published state matches in every state of a run exactly when no step takes
    the service silently out of `SVC_RESTARTING`. -/
theorem published_state_matches_iff (view : ServiceView) (consistent : view.Consistent) (matched : view.Matches)
    (ops : List PublishOp) : AllStates exec ServiceView.Matches view ops ↔ AllSteps exec ServiceView.Keeps view ops :=
  allStates_iff_allSteps (fun _ _ _ consistent _ ran => step_consistent consistent ran)
    (fun _ _ _ consistent matched ran => step_matches_iff consistent matched ran) ops view
    consistent matched

/-- A service that was just parsed, on a device without properties. -/
def parsedService : ServiceView where
  init := emptyStore
  service := { name := ascii "a", args := [ascii "/system/bin/a"] }

def lostBinary : List PublishOp :=
  [.operate (.start { fork := some firstChild }), .reap 0 [],
    .operate (.restartIfNeeded (seconds 6) 0 0 { fork := none, statFinds := false })]

set_option maxRecDepth 8000 in
theorem published_state_matches_iff_parsed :
    parsedService.Consistent ∧ parsedService.Matches ∧
      (AllStates exec ServiceView.Matches parsedService lostBinary ↔
        AllSteps exec ServiceView.Keeps parsedService lostBinary) := by
  have consistent : parsedService.Consistent :=
    ⟨SystemProperties.wellFormed_fresh _, by decide, rfl, ⟨by decide, nofun⟩⟩
  have unpublished : parsedService.published = none := by decide
  have matched : parsedService.Matches := fun v isPublished => by
    cases isPublished
  exact ⟨consistent, matched, published_state_matches_iff parsedService consistent matched lostBinary⟩

set_option maxRecDepth 8000 in
/-- The service is disabled and its state is still `restarting`. -/
theorem published_state_stays_restarting : (lostBinary.foldlM exec parsedService).map
        (fun view => (view.published, view.service.flags.restarting, view.service.flags.disabled, view.service.pid)) =
      some (some (ascii "restarting"), false, true, 0) := by
  decide

end Aosp.Init
