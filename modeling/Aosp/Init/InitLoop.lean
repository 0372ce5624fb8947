import Aosp.Init.ActionInvariant
import Aosp.Init.PropertyStore

/-! # The action manager and the property service together

`Aosp.Init.ActionRun` lets properties change and property triggers be queued at will.
Here both are what init makes of them: `property_set` stores a value and, through
`property_changed`, queues a trigger once triggers are enabled; they are enabled by two
builtin actions that `main` and `queue_property_triggers_action` queue.

The steps are the calls that configuration files, commands and the main loop make, in
any order.  `step_outcome` says once what a step can do, in moves of the action manager
and lookups in the store; `run_sound` is what every state of a run has.
-/

namespace Aosp.Init

open Aosp.Lib Aosp.Bionic List ActionState InitState Aosp.Init.Action

/-! ## The machine -/

/-- The functions that `main` queues, and the names it gives them. -/
def mainBuiltins : List (BuiltinFunction × Bytes) :=
  [(.waitForColdbootDoneAction, ascii "wait_for_coldboot_done"),
    (.mixHwrngIntoLinuxRngAction, ascii "mix_hwrng_into_linux_rng"), (.setMmapRndBitsAction, ascii "set_mmap_rnd_bits"),
    (.setKptrRestrictAction, ascii "set_kptr_restrict"), (.keychordInitAction, ascii "keychord_init"),
    (.consoleInitAction, ascii "console_init"), (.queuePropertyTriggersAction, ascii "queue_property_triggers")]

/-- `parser`, `running` and `log` are those of `ActionState`; the manager and the
    properties are in `init`. -/
structure LoopState where
  init : InitState
  parser : ActionParser := {}
  running : Option Nat := none
  log : List Event := []

/-- `executeOneCommand` carries the address of the action that the command may
    allocate. -/
inductive LoopOp where
  | call (op : ActionOp)
  | propertySet (e : PersistEnv) (n v : Bytes)
  | executeOneCommand (addr : Nat)

/-- What `GetProperty(name, "")` of libbase, which is not part of this tree, returns:
    the stored value as a C string. -/
def ReadsStore (gp : SystemProperties → Bytes → Bytes) : Prop :=
  ∀ properties n, gp properties n = ((properties.lookup (cstr n)).map fun hit => cstr hit.2.read.2).getD []

def ActionState.calling (actions : ActionState) : Option BuiltinFunction :=
  actions.running.bind fun addr => (actions.manager.command addr).map Command.func

def ActionState.queuePropertyTriggersAction (actions : ActionState) (addr : Nat) : ActionState :=
  let queued :=
    actions.queueBuiltinAction addr .propertyEnableTriggersAction (ascii "enable_property_trigger")
  { queued with manager := queued.manager.queueAllPropertyTriggers }.record [.queued (.property [] [])]

namespace LoopState

def actions (gp : SystemProperties → Bytes → Bytes) (s : LoopState) : ActionState where
  manager := s.init.manager
  parser := s.parser
  getProperty := gp s.init.properties
  running := s.running
  log := s.log

def withActions (s : LoopState) (actions : ActionState) : LoopState where
  init := { s.init with manager := actions.manager }
  parser := actions.parser
  running := actions.running
  log := actions.log

def propertyEnableTriggersAction (s : LoopState) : LoopState :=
  { s with init := { s.init with propertyTriggersEnabled := true } }

theorem actions_withActions {gp : SystemProperties → Bytes → Bytes} {s : LoopState}
    {post : ActionState} (eq : post.getProperty = gp s.init.properties) : (s.withActions post).actions gp = post := by
  simp [actions, withActions, ← eq]

end LoopState

/-- What a token of a configuration file is: the tokenizer stops at a NUL. -/
def IsToken (tok : Bytes) : Prop := NulFree tok ∧ tok.length < 2 ^ 32

namespace ReadsStore

variable {gp : SystemProperties → Bytes → Bytes}

theorem unnamed (reads : ReadsStore gp) (prs : SystemProperties) : gp prs [] = [] := by
  have ha : prs.lookup [] = none := by
    cases look : prs.lookup [] with
    | none => rfl
    | some _ =>
      obtain ⟨_, _, _, _, hf⟩ := SystemProperties.lookup_eq_some look
      exact absurd rfl (PropArea.lookup_tokens hf [] (by simp [List.splitOn]))
  rw [reads]
  simp [cstr, ha]

variable {n v : Bytes}

theorem same (reads : ReadsStore gp) {pre post : SystemProperties} (hit : IsToken n)
    (kept : ∀ held : PropName, held.bytes = n → post.lookup held.bytes = pre.lookup held.bytes) :
    gp post n = gp pre n := by
  rw [reads, reads, cstr_of_nulFree hit.1, SystemProperties.lookup_of_names hit.1 hit.2 kept]

theorem stored (reads : ReadsStore gp) {prs : SystemProperties}
    {pi : PropInfoPtr} {pre : Option PropInfo} (legal : isLegalPropertyName n = true)
    (fits : v.length < PROP_VALUE_MAX) (free : NulFree v)
    (own : prs.lookup n = some (pi, storedInfo n v pre)) : gp prs n = v := by
  rw [reads, cstr_of_legal legal, own]
  simp [read_storedInfo free fits, cstr_append_zero, cstr_of_nulFree free]

end ReadsStore

/-- `GetProperty` as `ReadsStore` asks. -/
def readStore (properties : SystemProperties) (n : Bytes) : Bytes :=
  ((properties.lookup (cstr n)).map fun hit => cstr hit.2.read.2).getD []

/-- The calls of the action manager that are made outside `property_set`,
    `ExecuteOneCommand` and the builtin actions. -/
def ActionOp.Direct : ActionOp → Prop
  | .parseSection _ args => ∀ arg ∈ args, IsToken arg
  | .queueBuiltinAction _ func name => (func, name) ∈ mainBuiltins
  | .parseLineSection _ _ _ | .endSection | .queueEventTrigger _ | .endCommand => True
  | .queuePropertyTrigger _ _ | .queueAllPropertyTriggers | .propertySet _ _ _ | .beginCommand => False

instance (tok : Bytes) : Decidable (IsToken tok) :=
  inferInstanceAs (Decidable (NulFree tok ∧ tok.length < 2 ^ 32))

instance : (op : ActionOp) → Decidable op.Direct
  | .parseSection _ args => inferInstanceAs (Decidable (∀ arg ∈ args, IsToken arg))
  | .queueBuiltinAction _ func name => inferInstanceAs (Decidable ((func, name) ∈ mainBuiltins))
  | .parseLineSection _ _ _ | .endSection | .queueEventTrigger _ | .endCommand => inferInstanceAs (Decidable True)
  | .queuePropertyTrigger _ _ | .queueAllPropertyTriggers | .propertySet _ _ _ | .beginCommand =>
    inferInstanceAs (Decidable False)

namespace LoopOp

variable (fmap : Option (KeywordMap BuiltinFunction)) (gp : SystemProperties → Bytes → Bytes)

def Allowed (s : LoopState) : LoopOp → Prop
  | .call op => op.Direct ∧ op.Allowed (s.actions gp)
  | .propertySet _ name _ => name.length < 2 ^ 32
  | .executeOneCommand addr => s.running = none ∧ addr ∉ (s.actions gp).live

instance (s : LoopState) : (op : LoopOp) → Decidable (op.Allowed gp s)
  | .call op => inferInstanceAs (Decidable (op.Direct ∧ op.Allowed (s.actions gp)))
  | .propertySet _ name _ => inferInstanceAs (Decidable (name.length < 2 ^ 32))
  | .executeOneCommand addr =>
    inferInstanceAs (Decidable (s.running = none ∧ addr ∉ (s.actions gp).live))

/-- The state after a call; `none` is undefined behaviour. -/
def exec (s : LoopState) : LoopOp → Option LoopState
  | .call op => (op.exec fmap (s.actions gp)).map s.withActions
  | .propertySet e n v =>
    match s.init.propertySet e n v with
    | none => none
    | some (init, .success) =>
      let queued := if s.init.propertyTriggersEnabled then [Event.queued (.property n v)] else []
      some { s with init, log := s.log ++ .propertySet n v :: queued }
    | some (init, _) => some { s with init }
  | .executeOneCommand addr =>
    match (s.actions gp).beginCommand with
    | none => none
    | some begun =>
      -- the bodies of the two builtin actions; other commands make further calls
      match begun.calling with
      | some .queuePropertyTriggersAction =>
        some (s.withActions (begun.queuePropertyTriggersAction addr))
      | some .propertyEnableTriggersAction => some (s.withActions begun).propertyEnableTriggersAction
      | _ => some (s.withActions begun)

end LoopOp

def LoopStep (fmap : Option (KeywordMap BuiltinFunction))
    (gp : SystemProperties → Bytes → Bytes) (pre : LoopState) (op : LoopOp)
    (post : LoopState) : Prop :=
  op.Allowed gp pre ∧ op.exec fmap gp pre = some post

/-! ## What moves add to the log -/

/-- All new entries of the log meet `Q`. -/
def Adds (Q : Event → Prop) (pre post : ActionState) : Prop :=
  ∃ events, post.log = pre.log ++ events ∧ ∀ ev ∈ events, Q ev

namespace Adds

variable {Q : Event → Prop} {pre mid post : ActionState}

theorem of_log_eq (eq : post.log = pre.log) : Adds Q pre post :=
  ⟨[], by simp [eq], by simp⟩

theorem trans (first : Adds Q pre mid) (snd : Adds Q mid post) : Adds Q pre post := by
  obtain ⟨early, earlyLog, earlyAll⟩ := first
  obtain ⟨late, lateLog, lateAll⟩ := snd
  refine ⟨early ++ late, by simp [lateLog, earlyLog], fun ev mem => ?_⟩
  obtain inEarly | inLate := mem_append.mp mem
  · exact earlyAll ev inEarly
  · exact lateAll ev inLate

theorem of_move (move : Move pre post) : Adds (fun _ => True) pre post := by
  cases move with
  | parse | advance => exact .of_log_eq rfl
  | set | push | create | append | dequeue | execute | retire | erase => exact ⟨_, rfl, fun _ _ => trivial⟩

theorem of_moves (mvs : Moves pre post) : Adds (fun _ => True) pre post := by
  induction mvs with
  | refl => exact .of_log_eq rfl
  | tail _ move ih => exact ih.trans (.of_move move)

/-- New entries that meet `Q` do so on the way, too. -/
theorem split (adds : Adds Q pre post) (first : Moves pre mid) (snd : Move mid post) :
    Adds Q pre mid ∧ Adds Q mid post := by
  obtain ⟨early, earlyLog, -⟩ := of_moves first
  obtain ⟨late, lateLog, -⟩ := of_move snd
  obtain ⟨_, log, all⟩ := adds
  rw [lateLog, earlyLog, append_assoc] at log
  have eq := append_cancel_left log
  exact ⟨⟨early, earlyLog, fun ev mem => all ev (eq ▸ mem_append_left _ mem)⟩,
    ⟨late, lateLog, fun ev mem => all ev (eq ▸ mem_append_right _ mem)⟩⟩

end Adds

variable {pre post st bg : ActionState} {fmap : Option (KeywordMap BuiltinFunction)}
  {gp : SystemProperties → Bytes → Bytes}

/-- The induction over moves whose new entries all meet `Q`. -/
theorem moves_invariant_adds {P : ActionState → Prop} {Q : Event → Prop}
    (kept : ∀ s t, P s → Move s t → Adds Q s t → P t) (beg : P pre) (mvs : Moves pre post)
    (adds : Adds Q pre post) : P post := by
  induction mvs with
  | refl => exact beg
  | tail first move ih =>
    obtain ⟨early, late⟩ := adds.split first move
    exact kept _ _ (ih early) move late

namespace Event

def NotSet : Event → Prop
  | .propertySet _ _ => False
  | _ => True

/-- The entry is not the call of `property_enable_triggers_action`. -/
def NotEnable : Event → Prop
  | .executed _ _ command => command.func ≠ .propertyEnableTriggersAction
  | _ => True

/-- Neither of these, and no other call either. -/
def Quiet : Event → Prop
  | .propertySet _ _ | .executed _ _ _ => False
  | _ => True

theorem Quiet.notSet {ev : Event} (mute : ev.Quiet) : ev.NotSet := by
  cases ev with
  | propertySet => exact mute
  | _ => trivial

theorem Quiet.notEnable {ev : Event} (mute : ev.Quiet) : ev.NotEnable := by
  cases ev with
  | executed => exact mute.elim
  | _ => trivial

end Event

theorem Adds.mono {Q R : Event → Prop} (weaker : ∀ ev, Q ev → R ev) (adds : Adds Q pre post) : Adds R pre post := by
  obtain ⟨evs, log, all⟩ := adds
  exact ⟨evs, log, fun ev mem => weaker ev (all ev mem)⟩

theorem queueBuiltinAction_adds (s : ActionState) (addr : Nat) (func : BuiltinFunction) (n : Bytes) :
    Adds Event.Quiet s (s.queueBuiltinAction addr func n) := by
  refine ⟨_, rfl, fun _ mem => ?_⟩
  split at mem
  · simp only [mem_cons, not_mem_nil, or_false] at mem
    obtain rfl | rfl := mem <;> trivial
  · cases mem

theorem endSection_adds (s : ActionState) : Adds Event.Quiet s s.endSection := by
  unfold endSection
  split
  · exact .of_log_eq rfl
  · refine ⟨_, rfl, fun _ mem => ?_⟩
    rw [mem_singleton] at mem
    subst mem
    split <;> trivial

theorem endCommand_adds (past : st.endCommand = some post) : Adds Event.Quiet st post := by
  obtain ⟨move, hr, rests⟩ := endCommand_move past
  cases move with
  | advance => exact .of_log_eq rfl
  | retire | erase => exact ⟨_, rfl, by simp [Event.Quiet]⟩
  | execute => cases rests
  | parse | set | push | create | append | dequeue => exact absurd rests hr

theorem direct_adds {op : ActionOp} (direct : op.Direct) (ran : op.exec fmap st = some post) :
    Adds Event.Quiet st post := by
  cases op with
  | parseSection | parseLineSection =>
    simp only [ActionOp.exec] at ran
    split at ran <;> cases ran <;> exact .of_log_eq rfl
  | endSection =>
    cases ran
    exact endSection_adds st
  | queueEventTrigger _ =>
    cases ran
    exact ⟨_, rfl, by simp [Event.Quiet]⟩
  | queueBuiltinAction addr func n =>
    cases ran
    exact queueBuiltinAction_adds st addr func n
  | endCommand => exact endCommand_adds ran
  | queuePropertyTrigger | queueAllPropertyTriggers | propertySet | beginCommand => exact direct.elim

theorem queuePropertyTriggersAction_adds (s : ActionState) (addr : Nat) :
    Adds Event.Quiet s (s.queuePropertyTriggersAction addr) :=
  (queueBuiltinAction_adds s addr _ _).trans ⟨_, rfl, by simp [Event.Quiet]⟩

section

variable (start : st.beginCommand = some bg)
include start

/-- `ExecuteOneCommand` sets no property itself, and calls one command. -/
theorem beginCommand_adds : Adds (fun ev => ev.Quiet ∨
      ∃ addr idx cmd, ev = .executed addr idx cmd ∧ bg.calling = some cmd.func) st bg := by
  have dequeues : ∀ (po : List Trigger) (ev : Event),
      ev ∈ po.map (fun trig => .dequeued trig st.manager.actions st.getProperty) → ev.Quiet := by
    intro po ev mem
    obtain ⟨trig, -, rfl⟩ := mem_map.mp mem
    trivial
  unfold beginCommand at start
  dsimp only at start
  split at start
  · cases start
    exact ⟨_, rfl, fun ev mem => .inl (dequeues _ ev mem)⟩
  · split at start <;> cases start
    rename_i addr _ _ _ cmd hf
    refine ⟨_, append_assoc _ _ _, fun ev mem => ?_⟩
    obtain po | call := mem_append.mp mem
    · exact .inl (dequeues _ ev po)
    · rw [mem_singleton] at call
      exact .inr ⟨addr, _, cmd, call, by simp [calling, hf]⟩

theorem beginCommand_notSet : Adds Event.NotSet st bg := by
  refine (beginCommand_adds start).mono fun _ kind => ?_
  obtain mute | ⟨_, _, _, rfl, -⟩ := kind
  · exact mute.notSet
  · trivial

theorem beginCommand_notEnable
    (o : bg.calling ≠ some .propertyEnableTriggersAction) : Adds Event.NotEnable st bg := by
  refine (beginCommand_adds start).mono fun _ kind => ?_
  obtain mute | ⟨_, _, _, rfl, call⟩ := kind
  · exact mute.notEnable
  · intro enable
    exact o (call.trans (congrArg some enable))

end

theorem moves_getProperty (mvs : Moves pre post) (noSet : Adds Event.NotSet pre post) :
    post.getProperty = pre.getProperty := by
  refine moves_invariant_adds (P := fun st => st.getProperty = pre.getProperty) ?_ rfl mvs noSet
  intro s t eq move adds
  cases move with
  | set n v _ =>
    obtain ⟨_, log, all⟩ := adds
    have event := append_cancel_left log
    exact (all (.propertySet n v) (event ▸ mem_singleton_self _)).elim
  | parse | push | create | append | dequeue | execute | advance | retire | erase => exact eq

/-! ## What a step can do -/

theorem InitState.announce_manager (e : PersistEnv) (s : InitState) (n v : Bytes) :
    (s.announce e n v).manager = (if s.propertyTriggersEnabled then s.manager.queuePropertyTrigger n v
          else s.manager) ∧ (s.announce e n v).propertyTriggersEnabled = s.propertyTriggersEnabled := by
  unfold announce propertyChanged effect
  dsimp only
  split <;> split <;> split <;> split <;> simp_all

theorem InitState.restorecon_manager (s : InitState) (n v : Bytes) : (s.restorecon n v).manager = s.manager ∧
      (s.restorecon n v).propertyTriggersEnabled = s.propertyTriggersEnabled := by
  unfold restorecon
  split <;> exact ⟨rfl, rfl⟩

section Outcome

/-- Everything a step can do. -/
inductive LoopOutcome (gp : SystemProperties → Bytes → Bytes) (s : LoopState) :
    LoopState → Prop where
  | acts (post : ActionState) (moves : Moves (s.actions gp) post)
      (noSet : Adds Event.NotSet (s.actions gp) post)
      (noEnable : Adds Event.NotEnable (s.actions gp) post) :
      LoopOutcome gp s (s.withActions post)
  | enables (post : ActionState) (moves : Moves (s.actions gp) post)
      (noSet : Adds Event.NotSet (s.actions gp) post) :
      LoopOutcome gp s (s.withActions post).propertyEnableTriggersAction
  | rejects (init : InitState) (mgr : init.manager = s.init.manager)
      (enabled : init.propertyTriggersEnabled = s.init.propertyTriggersEnabled)
      (store : init.properties.WellFormed)
      (kept : ∀ held : PropName, init.properties.lookup held.bytes = s.init.properties.lookup held.bytes) :
      LoopOutcome gp s { s with init }
  | stores (init : InitState) (n v : Bytes) (pi : PropInfoPtr)
      (mgr : init.manager = if s.init.propertyTriggersEnabled then s.init.manager.queuePropertyTrigger n v
        else s.init.manager)
      (enabled : init.propertyTriggersEnabled = s.init.propertyTriggersEnabled)
      (store : init.properties.WellFormed) (legal : isLegalPropertyName n = true)
      (fits : v.length < PROP_VALUE_MAX)
      (own : init.properties.lookup n = some (pi, storedInfo n v ((s.init.properties.lookup n).map Prod.snd)))
      (kept : ∀ held : PropName, held.bytes ≠ n →
        init.properties.lookup held.bytes = s.init.properties.lookup held.bytes) :
      LoopOutcome gp s { s with
        init
        log := s.log ++ .propertySet n v ::
          if s.init.propertyTriggersEnabled then [.queued (.property n v)] else [] }

theorem step_outcome {s post : LoopState} {op : LoopOp}
    (live : (s.actions gp).live.Nodup) (store : s.init.properties.WellFormed)
    (step : LoopStep fmap gp s op post) : LoopOutcome gp s post := by
  obtain ⟨allowed, ran⟩ := step
  cases op with
  | call op =>
    obtain ⟨direct, may⟩ := allowed
    obtain ⟨isActed, acted, rfl⟩ := Option.map_eq_some_iff.mp ran
    have adds := direct_adds direct acted
    exact .acts isActed (exec_moves live ⟨may, acted⟩) (adds.mono fun _ => Event.Quiet.notSet)
      (adds.mono fun _ => Event.Quiet.notEnable)
  | propertySet e n v =>
    obtain ⟨_, _, set, oc⟩ := propertySet_outcome store e n v allowed
    simp only [LoopOp.exec, set] at ran
    have went := s.init.restorecon_manager n v
    cases oc with
    -- refused before anything is relabelled
    | badName | badValue =>
      cases ran
      exact .rejects s.init rfl rfl store fun _ => rfl
    | readOnly =>
      cases ran
      exact .rejects _ went.1 went.2 (by simpa using store) (by simp)
    | full _ _ _ _ wf kept =>
      cases ran
      exact .rejects _ went.1 went.2 wf kept
    | stored legal fits _ properties pi wf own kept =>
      cases ran
      -- of what follows the store only the trigger reaches the action manager
      have told := announce_manager e
        { s.init.restorecon n v with properties } n v
      refine .stores _ n v pi ?_ ?_ (by simpa using wf) legal fits (by simpa using own)
        (by simpa using kept)
      · rw [told.1]
        simp only [went]
      · rw [told.2]
        exact went.2
  | executeOneCommand addr =>
    obtain ⟨rest, _⟩ := allowed
    simp only [LoopOp.exec] at ran
    split at ran
    · cases ran
    rename_i bg start
    have mvs := beginCommand_moves rest start
    have noSet := beginCommand_notSet start
    split at ran
    · rename_i calling
      cases ran
      -- `queue_property_triggers` queues a builtin action and a trigger of its own
      have o : bg.calling ≠ some .propertyEnableTriggersAction := by simp [calling]
      have adds := queuePropertyTriggersAction_adds bg addr
      have free : addr ∉ bg.live := by rwa [beginCommand_live start]
      refine .acts _ ((mvs.trans (queueBuiltinAction_moves _ _ free)).tail (.push _ _))
        (noSet.trans (adds.mono fun _ => Event.Quiet.notSet))
        ((beginCommand_notEnable start o).trans (adds.mono fun _ => Event.Quiet.notEnable))
    · cases ran
      exact .enables bg mvs noSet
    · rename_i o
      cases ran
      exact .acts bg mvs noSet (beginCommand_notEnable start o)

end Outcome

/-! ## Where the triggers of an action come from -/

structure Action.Declared (act : Action) : Prop where
  names : ∀ trg ∈ act.propertyTriggers, IsToken trg.1
  event : act.oneshot = true → act.eventTrigger ≠ []

variable {act : Action} {n val : Bytes} {args : List Bytes}

theorem Action.Declared.commands (own : act.Declared) (cmds : List Command) :
    { act with commands := cmds }.Declared :=
  ⟨own.names, own.event⟩

theorem emplace_mem {key : Bytes} {pre post : List (Bytes × Bytes)}
    (put : emplace key val pre = some post) {trig : Bytes × Bytes} (mem : trig ∈ post) :
    trig = (key, val) ∨ trig ∈ pre := by
  induction pre generalizing post with
  | nil =>
    cases put
    exact .inl (mem_singleton.mp mem)
  | cons _ _ ih =>
    simp only [emplace] at put
    split at put
    · cases put
    split at put
    · cases put
      exact mem_cons.mp mem
    · obtain ⟨_, down, rfl⟩ := Option.map_eq_some_iff.mp put
      obtain isFirst | late := mem_cons.mp mem
      · exact .inr (isFirst ▸ mem_cons_self)
      · obtain new | old := ih down late
        · exact .inl new
        · exact .inr (mem_cons_of_mem _ old)

theorem initTriggersFrom_names {res : Action} {i : Nat}
    (read : act.initTriggersFrom i args = .ok res) (toks : ∀ arg ∈ args, IsToken arg)
    (names : ∀ hk ∈ act.propertyTriggers, IsToken hk.1) : ∀ hk ∈ res.propertyTriggers, IsToken hk.1 := by
  refine act.initTriggersFrom_induction (P := fun act => ∀ hk ∈ act.propertyTriggers, IsToken hk.1)
    read toks (fun _ _ arg hit trig names hk mem => ?_) (fun _ _ names => names) names
  obtain ⟨_, _, -, put, rfl⟩ := parsePropertyTrigger_ok trig
  obtain rfl | old := emplace_mem put mem
  · -- the name is a piece of the token
    refine ⟨(hit.1.drop _).take _, lt_of_le_of_lt ?_ hit.2⟩
    rw [length_take, length_drop]
    omega
  · exact names hk old

theorem parseSection_declared {psr pa : ActionParser} {addr : Nat}
    (ok : psr.parseSection addr args = .ok pa) (toks : ∀ arg ∈ args, IsToken arg) :
    ∀ act ∈ pa.action, act.Declared := by
  revert ok
  fun_cases ActionParser.parseSection psr addr args with
  | case1 | case2 => rintro ⟨⟩
  | case3 _ _ act trs =>
    rintro ⟨⟩ _ ⟨⟩
    refine ⟨initTriggersFrom_names trs (fun arg mem => toks arg (mem_of_mem_drop mem)) (by simp), fun once => ?_⟩
    rw [(initTriggersFrom_keeps trs).2.1] at once
    cases once

theorem builtinAction_event {addr : Nat} {func : BuiltinFunction} (ne : n ≠ [])
    (ev : n.take propStr.length ≠ propStr) :
    ActionManager.builtinAction addr func n =
      some { addr, oneshot := true, eventTrigger := n, commands := [⟨func, [n], [], 0⟩] } := by
  simp [ActionManager.builtinAction, initSingleTrigger, initTriggers, initTriggersFrom,
    ne, ev, addCommand, Except.toOption]

theorem mainBuiltins_event : ∀ builtin ∈ mainBuiltins, builtin.2 ≠ [] ∧ builtin.2.take propStr.length ≠ propStr := by
  decide

def AllDeclared (s : ActionState) : Prop :=
  (∀ act ∈ s.manager.actions, act.Declared) ∧ ∀ act ∈ s.parser.action, act.Declared

theorem endSection_declared (declared : AllDeclared st) : AllDeclared st.endSection := by
  unfold endSection ActionParser.endSection
  cases read : st.parser.action with
  | none => exact declared
  | some act =>
    have own : act.Declared := declared.2 act read
    by_cases cmds : act.numCommands > 0
    · simp only [cmds, if_true]
      refine ⟨fun o mem => ?_, nofun⟩
      obtain ⟨_, old, _, here, hf, combined⟩ | ⟨hf, adds⟩ := st.manager.addAction_cases act
      · simp only [combined, record_manager, mem_append, mem_cons] at mem
        obtain early | rfl | late := mem
        · exact declared.1 o (by simp [here, early])
        · exact (declared.1 old (by simp [here])).commands _
        · exact declared.1 o (by simp [here, late])
      · simp only [adds, record_manager, mem_append, mem_singleton] at mem
        obtain old | rfl := mem
        · exact declared.1 o old
        · exact own
    · simp only [cmds]
      exact ⟨declared.1, fun o mem => declared.2 o (read ▸ mem)⟩

theorem queueBuiltinAction_declared (own : AllDeclared st) (addr : Nat) (func : BuiltinFunction)
    (ne : n ≠ []) (ev : n.take propStr.length ≠ propStr) : AllDeclared (st.queueBuiltinAction addr func n) := by
  refine ⟨fun act mem => ?_, own.2⟩
  simp only [queueBuiltinAction, ActionManager.queueBuiltinAction,
    builtinAction_event ne ev, record_manager, mem_append, mem_singleton] at mem
  obtain old | rfl := mem
  · exact own.1 act old
  · exact ⟨by simp, fun _ => ne⟩

theorem direct_declared {op : ActionOp} (own : AllDeclared st) (direct : op.Direct)
    (ran : op.exec fmap st = some post) : AllDeclared post := by
  cases op with
  | parseSection addr args =>
    simp only [ActionOp.exec] at ran
    split at ran
    · rename_i psr ok
      cases ran
      exact ⟨own.1, parseSection_declared ok direct⟩
    · cases ran
      exact own
  | parseLineSection args f l =>
    simp only [ActionOp.exec] at ran
    split at ran
    · rename_i psr ok
      cases ran
      -- a command more does not change how the action was declared
      obtain ⟨act, _, pre, more⟩ := parseLineSection_command ok
      refine ⟨own.1, fun o mem => ?_⟩
      rw [more] at mem
      cases mem
      exact (own.2 act pre).commands _
    · cases ran
      exact own
  | endSection =>
    cases ran
    exact endSection_declared own
  | queueEventTrigger =>
    cases ran
    exact own
  | queueBuiltinAction addr func n =>
    cases ran
    obtain ⟨ne, ev⟩ := mainBuiltins_event _ direct
    exact queueBuiltinAction_declared own addr func ne ev
  | endCommand =>
    have shrunk := endCommand_actions ran
    exact ⟨fun act mem => own.1 act (shrunk.1.subset mem), shrunk.2 ▸ own.2⟩
  | queuePropertyTrigger | queueAllPropertyTriggers | propertySet | beginCommand => exact direct.elim

/-! ## What every state has -/

open LoopState

section Sound

structure LoopSound (gp : SystemProperties → Bytes → Bytes) (s : LoopState) : Prop where
  live : (s.actions gp).live.Nodup
  wellFormed : WellFormed (s.actions gp)
  store : s.init.properties.WellFormed
  declared : AllDeclared (s.actions gp)

/-- `WellFormed` does not speak about properties. -/
theorem WellFormed.withProperties {s : ActionState} (wf : WellFormed s)
    (prs : Bytes → Bytes) : WellFormed { s with getProperty := prs } :=
  ⟨wf.distinct, wf.nonempty, wf.alive, wf.once, wf.idle, wf.inside, wf.running⟩

variable {s post : LoopState} {init : InitState} {op : LoopOp}

theorem stores_moves
    (mgr : init.manager =
      if s.init.propertyTriggersEnabled then s.init.manager.queuePropertyTrigger n val else s.init.manager) :
    Moves (s.actions gp) (actions gp { s with
      init
      log := s.log ++ .propertySet n val ::
        if s.init.propertyTriggersEnabled then [.queued (.property n val)] else [] }) := by
  have set := Move.set (s.actions gp) n val (gp init.properties)
  cases he : s.init.propertyTriggersEnabled with
  | false =>
    rw [he] at mgr
    refine .single ?_
    simpa [actions, record, mgr] using set
  | true =>
    rw [he] at mgr
    refine .tail (.single set) ?_
    have push := Move.push (({ s.actions gp with
      getProperty := gp init.properties }).record [.propertySet n val]) (.property n val)
    simpa [actions, record, mgr, ActionManager.queuePropertyTrigger] using push

theorem step_wellFormed (hs : LoopSound gp s) (step : LoopStep fmap gp s op post) : WellFormed (post.actions gp) := by
  cases step_outcome hs.live hs.store step with
  | acts acted mvs noSet _ | enables acted mvs noSet =>
    have met := moves_invariant (fun _ _ => move_wellFormed) hs.wellFormed mvs
    rwa [← actions_withActions (moves_getProperty mvs noSet)] at met
  | rejects init manager _ _ _ =>
    have eq := hs.wellFormed.withProperties (gp init.properties)
    simpa [actions, manager] using eq
  | stores init n _ _ manager _ _ _ _ _ _ =>
    exact moves_invariant (fun _ _ => move_wellFormed) hs.wellFormed (stores_moves manager)

theorem step_store (hs : LoopSound gp s) (step : LoopStep fmap gp s op post) : post.init.properties.WellFormed := by
  cases step_outcome hs.live hs.store step with
  | acts | enables => exact hs.store
  | rejects _ _ _ store _ => exact store
  | stores _ _ _ _ _ _ store _ _ _ _ => exact store

/-- No action comes or goes when a property is set. -/
theorem SetOutcome.actions {e : PersistEnv} {s post : InitState} {res : PropResult}
    (oc : InitState.SetOutcome e s n val post res) : post.manager.actions = s.manager.actions := by
  have went := (s.restorecon_manager n val).1
  cases oc with
  | badName | badValue => rfl
  | readOnly | full => exact congrArg _ went
  | stored _ _ _ properties _ _ _ _ =>
    rw [(announce_manager e { s.restorecon n val with properties } n val).1]
    split
    · show (s.restorecon n val).manager.actions = _
      rw [went]
    · show (s.restorecon n val).manager.actions = _
      rw [went]

theorem step_actions (hs : LoopSound gp s) (step : LoopStep fmap gp s op post) :
    (post.actions gp).live.Nodup ∧ AllDeclared (post.actions gp) := by
  obtain ⟨allowed, ran⟩ := step
  cases op with
  | call op =>
    obtain ⟨direct, may⟩ := allowed
    obtain ⟨acted, isActed, rfl⟩ := Option.map_eq_some_iff.mp ran
    have live : acted.live.Nodup := step_live hs.live ⟨may, isActed⟩
    have own : AllDeclared acted := direct_declared hs.declared direct isActed
    exact ⟨live, own⟩
  | propertySet e n val =>
    obtain ⟨_, _, set, oc⟩ := propertySet_outcome hs.store e n val allowed
    simp only [LoopOp.exec, set] at ran
    -- setting a property queues a trigger at most
    have same : post.init.manager.actions = s.init.manager.actions ∧ post.parser = s.parser := by
      split at ran
      · cases ran
      · rename_i isInit
        cases isInit
        cases ran
        exact ⟨SetOutcome.actions oc, rfl⟩
      · rename_i isInit
        cases isInit
        cases ran
        exact ⟨SetOutcome.actions oc, rfl⟩
    simp only [AllDeclared, live, actions, same]
    exact ⟨hs.live, hs.declared⟩
  | executeOneCommand addr =>
    obtain ⟨-, _⟩ := allowed
    simp only [LoopOp.exec] at ran
    split at ran
    · cases ran
    rename_i bg start
    have sameLive := beginCommand_live start
    have live : bg.live.Nodup := sameLive ▸ hs.live
    have own : AllDeclared bg := by
      obtain ⟨acts, psr⟩ := beginCommand_actions start
      rw [AllDeclared, acts, psr]
      exact hs.declared
    split at ran
    · cases ran
      have free : addr ∉ bg.live := by rwa [sameLive]
      exact ⟨queueBuiltinAction_live _ _ free live, queueBuiltinAction_declared own addr _ (by decide) (by decide)⟩
    · cases ran
      exact ⟨live, own⟩
    · cases ran
      exact ⟨live, own⟩

theorem step_sound (hs : LoopSound gp s) (step : LoopStep fmap gp s op post) : LoopSound gp post where
  live := (step_actions hs step).1
  wellFormed := step_wellFormed hs step
  store := step_store hs step
  declared := (step_actions hs step).2

/-- init before it has parsed anything, on any property store. -/
theorem LoopSound.start (blank : init.manager = {}) (store : init.properties.WellFormed) : LoopSound gp { init } where
  live := by simp [ActionState.live, actions, blank]
  wellFormed := by
    have emp := WellFormed.init.withProperties (gp init.properties)
    simpa [actions, blank] using emp
  store := store
  declared := by simp [AllDeclared, actions, blank]

theorem run_sound {ops : List LoopOp} (blank : init.manager = {}) (store : init.properties.WellFormed)
    (run : Run (LoopStep fmap gp) { init } ops s) : LoopSound gp s :=
  run.invariant (.start blank store) fun _ _ _ => step_sound

end Sound

end Aosp.Init
