import Aosp.Init.InitLoop

/-! # No property change is lost by triggers

An action with property triggers only, registered before
`queue_property_triggers_action` runs, is put into execution after the last time one of
its properties was set, if in the end its triggers hold.

Two facts carry the proof over a run.  As long as the triggers of the action hold,
either a trigger that will find it is in the queue or it has been put into execution
since (`Covered`).  As long as property triggers are not enabled, the "all properties"
trigger is in the queue, behind the action that enables them (`Pending`): a property
that is set without a trigger of its own is still found by that one.

The value that a trigger carries is the `std::string` that was set, while
`GetProperty` returns a C string; so a value with a NUL is lost
(`property_change_lost`).
-/

namespace Aosp.Init

open Aosp.Lib Aosp.Bionic List ActionManager

/-! ## Triggers that find an action -/

namespace Action

def names (act : Action) : List Bytes := act.propertyTriggers.map Prod.fst

def Holds (gp : Bytes → Bytes) (act : Action) : Prop :=
  ∀ trg ∈ act.propertyTriggers, gp trg.1 ≠ [] ∧ (trg.2 = ascii "*" ∨ trg.2 = gp trg.1)

def isSame (act o : Action) : Bool := o.addr == act.addr && o.triggersEqual act

def Covers (gp : Bytes → Bytes) (act : Action) : Trigger → Prop
  | .property n v => (n = [] ∧ v = []) ∨ (n ∈ act.names ∧ v = gp n)
  | .event _ | .builtin _ => False

variable {act : Action} {gp la : Bytes → Bytes} {v n : Bytes} {trig : Trigger}

theorem Holds.congr (hh : act.Holds la) (eq : ∀ n ∈ act.names, la n = gp n) : act.Holds gp := by
  intro trig mem
  rw [← eq trig.1 (mem_map_of_mem mem)]
  exact hh trig mem

theorem Covers.congr (cover : act.Covers gp trig) (eq : ∀ n ∈ act.names, la n = gp n) : act.Covers la trig := by
  cases trig with
  | event | builtin => exact cover.elim
  | property n v =>
    obtain all | ⟨name, cur⟩ := cover
    · exact .inl all
    · exact .inr ⟨name, by rw [eq n name, cur]⟩

theorem isSame_iff {o : Action} : act.isSame o = true ↔
    o.addr = act.addr ∧ o.propertyTriggers = act.propertyTriggers ∧ o.eventTrigger = act.eventTrigger := by
  simp [isSame, triggersEqual]

/-- The loop of `CheckPropertyTriggers` when the triggers hold and the pair it is given
    is up to date. -/
theorem checkPropertyTriggersFrom_holds {f : Bool} {trs : List (Bytes × Bytes)} (hh : ∀ trig ∈ trs,
      gp trig.1 ≠ [] ∧ (trig.2 = ascii "*" ∨ trig.2 = gp trig.1))
    (cur : n ∈ trs.map Prod.fst → v = gp n) (finds : f = true ∨ n ∈ trs.map Prod.fst) :
    checkPropertyTriggersFrom gp n v f trs = true := by
  induction trs generalizing f with
  | nil => simpa [checkPropertyTriggersFrom] using finds
  | cons trig tl ih =>
    obtain ⟨tn, tv⟩ := trig
    obtain ⟨ne, value_⟩ := hh _ mem_cons_self
    have restHolds := fun trig mem => hh trig (mem_cons_of_mem _ mem)
    have restCurrent : n ∈ tl.map Prod.fst → v = gp n := fun mem =>
      cur (mem_cons_of_mem _ mem)
    unfold checkPropertyTriggersFrom
    by_cases own : tn = n
    · subst own
      rw [← cur mem_cons_self] at value_
      rw [if_pos rfl, if_neg (fun apart => value_.elim apart.1 apart.2)]
      exact ih restHolds restCurrent (.inl rfl)
    · have far : f = true ∨ n ∈ tl.map Prod.fst := by
        obtain before | mem := finds
        · exact .inl before
        · exact .inr ((mem_cons.mp mem).resolve_left (Ne.symm own))
      have passes : ¬ (gp tn = [] ∨ (tv ≠ ascii "*" ∧ tv ≠ gp tn)) := by
        rintro (emp | apart)
        · exact ne emp
        · exact value_.elim apart.1 apart.2
      rw [if_neg own]
      simp only [passes]
      exact ih restHolds restCurrent far

theorem Covers.finds {o : Action} (cover : act.Covers gp trig)
    (hh : act.Holds gp) (mute : act.eventTrigger = []) (noName : gp [] = [])
    (eq : act.isSame o = true) : trig.checkTriggers gp o = true := by
  obtain ⟨-, sameTriggers, sameEvent⟩ := isSame_iff.mp eq
  cases trig with
  | event | builtin => exact cover.elim
  | property n v =>
    have checks : checkPropertyTriggersFrom gp n v n.isEmpty act.propertyTriggers = true := by
      apply checkPropertyTriggersFrom_holds hh
      · intro name
        obtain ⟨rfl, rfl⟩ | ⟨-, cur⟩ := cover
        · exact noName.symm
        · exact cur
      · obtain ⟨rfl, -⟩ | ⟨name, -⟩ := cover
        · exact .inl rfl
        · exact .inr name
    simp only [Trigger.checkTriggers, checkPropertyTrigger, checkPropertyTriggers, sameTriggers, sameEvent, mute,
      checks]
    simp

end Action

/-! ## The action stays registered -/

def Registered (act : Action) (s : ActionState) : Prop :=
  ∃ cur ∈ s.manager.actions, act.isSame cur = true ∧ cur.oneshot = false

variable {act : Action} {before after st : ActionState} {trig : Trigger} {v n : Bytes} {que : List Trigger}
  {op : LoopOp}

theorem move_registered (known : Registered act before) (wf : WellFormed before)
    (move : Move before after) : Registered act after := by
  obtain ⟨cur, mem, eq, keep⟩ := known
  cases move with
  | parse | set | push | dequeue | execute | advance | retire => exact ⟨cur, mem, eq, keep⟩
  | create => exact ⟨cur, mem_append_left _ mem, eq, keep⟩
  | append _ _ _ _ here =>
    rw [here] at mem
    obtain early | late := mem_append.mp mem
    · exact ⟨cur, mem_append_left _ early, eq, keep⟩
    · obtain rfl | la := mem_cons.mp late
      · exact ⟨_, mem_append_right _ mem_cons_self, eq, keep⟩
      · exact ⟨cur, mem_append_right _ (mem_cons_of_mem _ la), eq, keep⟩
  | erase _ _ erasedMember _ once =>
    -- only oneshot actions are erased
    refine ⟨cur, filter_addr_mem.mpr ⟨mem, fun sameAddr => ?_⟩, eq, keep⟩
    rw [wf.unique mem erasedMember sameAddr, once] at keep
    cases keep

/-! ## The action is put into execution -/

def startedStep (act : Action) (started : Bool) : Event → Bool
  | .propertySet n _ => started && !act.names.contains n
  | .dequeued trg actions gp =>
    started || (matching gp actions trg).any act.isSame
  | _ => started

/-- The action was put into execution after the last time one of its properties was
    set, or at all if none was. -/
def startedSinceSet (act : Action) (log : List Event) : Bool := log.foldl (startedStep act) false

theorem startedSinceSet_snoc (act : Action) (log : List Event) (ev : Event) :
    startedSinceSet act (log ++ [ev]) = startedStep act (startedSinceSet act log) ev := by
  simp [startedSinceSet]

def Covered (act : Action) (s : ActionState) : Prop :=
  act.Holds s.getProperty → (∃ trg ∈ s.manager.triggerQueue, act.Covers s.getProperty trg) ∨
      startedSinceSet act s.log = true

/-- An entry of the log that is not about properties leaves things as they are. -/
theorem Covered.quiet (cover : Covered act before)
    (sameQueue : ∀ trig ∈ before.manager.triggerQueue, trig ∈ after.manager.triggerQueue)
    (sameProperties : after.getProperty = before.getProperty)
    (start : startedSinceSet act before.log = true → startedSinceSet act after.log = true) : Covered act after := by
  intro hh
  rw [sameProperties] at hh ⊢
  obtain ⟨trig, hq, covers⟩ | already := cover hh
  · exact .inl ⟨trig, sameQueue trig hq, covers⟩
  · exact .inr (start already)

theorem Covered.dequeue (covered : Covered act st) (known : Registered act st)
    (mute : act.eventTrigger = []) (noName : st.getProperty [] = []) (ft : st.manager.triggerQueue = trig :: que)
    (hh : act.Holds st.getProperty) : (∃ trig ∈ que, act.Covers st.getProperty trig) ∨
      startedSinceSet act (st.log ++ [.dequeued trig st.manager.actions st.getProperty]) = true := by
  rw [startedSinceSet_snoc]
  obtain ⟨covering, hq, cover⟩ | already := covered hh
  · rw [ft] at hq
    obtain rfl | la := mem_cons.mp hq
    · obtain ⟨cur, mem, eq, -⟩ := known
      have hf := cover.finds hh mute noName eq
      refine .inr ?_
      simp only [startedStep, Bool.or_eq_true, any_eq_true]
      exact .inr ⟨cur, mem_filter.mpr ⟨mem, hf⟩, eq⟩
    · exact .inl ⟨covering, la, cover⟩
  · exact .inr (by simp [startedStep, already])

theorem move_covered (mute : act.eventTrigger = []) (noName : before.getProperty [] = [])
    (known : Registered act before) (cover : Covered act before) (move : Move before after)
    (noSet : Adds Event.NotSet before after) : Covered act after := by
  cases move with
  | parse | advance => exact cover
  | set n v _ =>
    obtain ⟨_, log, all⟩ := noSet
    have event := append_cancel_left log
    exact (all (.propertySet n v) (event ▸ mem_singleton_self _)).elim
  | push trig =>
    refine cover.quiet (fun _ hq => mem_append_left _ hq) rfl fun already => ?_
    rw [ActionState.record_log, startedSinceSet_snoc]
    exact already
  | create | append | execute | retire =>
    refine cover.quiet (fun _ hq => hq) rfl fun already => ?_
    rw [ActionState.record_log, startedSinceSet_snoc]
    exact already
  | erase gone =>
    refine cover.quiet (fun _ hq => hq) rfl fun already => ?_
    have both : before.log ++ [Event.retired gone.addr, Event.erased gone] =
        (before.log ++ [.retired gone.addr]) ++ [.erased gone] := by simp
    rw [ActionState.record_log, both, startedSinceSet_snoc, startedSinceSet_snoc]
    exact already
  | dequeue trig _ ft _ _ => exact cover.dequeue known mute noName ft

/-! ## Triggers are enabled before the "all properties" trigger -/

structure Waits (s : ActionState) (enabler : Action) : Prop where
  alive : enabler ∈ s.manager.actions
  enables : (enabler.commands.head?).map Command.func = some .propertyEnableTriggersAction
  resting : s.running ≠ some enabler.addr
  unstarted : s.manager.currentExecutingActions.head? = some enabler.addr → s.manager.currentCommand = 0

def Pending (s : ActionState) : Prop :=
  ∃ enabler, Waits s enabler ∧
    ((enabler.addr ∈ s.manager.currentExecutingActions ∧ .property [] [] ∈ s.manager.triggerQueue) ∨
      ∃ early late, s.manager.triggerQueue = early ++ .builtin enabler.addr :: late ∧ .property [] [] ∈ late)

theorem Pending.queued (due : Pending st) : .property [] [] ∈ st.manager.triggerQueue := by
  obtain ⟨_, -, ⟨-, hq⟩ | ⟨_, _, que, hq⟩⟩ := due
  · exact hq
  · rw [que]
    exact mem_append_right _ (mem_cons_of_mem _ hq)

theorem Pending.push (due : Pending st) (trig : Trigger) :
    Pending ({ st with manager := st.manager.push trig }.record [.queued trig]) := by
  obtain ⟨enabler, ⟨live, enables, rest, idle⟩, place⟩ := due
  refine ⟨enabler, ⟨live, enables, rest, idle⟩, ?_⟩
  obtain ⟨runs, hq⟩ | ⟨early, late, que, hq⟩ := place
  · exact .inl ⟨runs, mem_append_left _ hq⟩
  · refine .inr ⟨early, late ++ [trig], ?_, mem_append_left _ hq⟩
    simp [ActionManager.push, que]

/-- The front trigger puts the enabling action into execution, or leaves it in place. -/
theorem Pending.dequeue (wf : WellFormed st) (due : Pending st) (ft : st.manager.triggerQueue = trig :: que)
    (idle : st.manager.currentExecutingActions = []) (left : after.manager.triggerQueue = que)
    (hf : after.manager.currentExecutingActions = (matching st.getProperty st.manager.actions trig).map Action.addr)
    (tl : after.running = none ∧ after.manager.actions = st.manager.actions ∧
      after.manager.currentCommand = st.manager.currentCommand) :
    Pending after := by
  obtain ⟨enabler, ⟨live, enables, -, -⟩, ⟨runs, -⟩ | ⟨early, late, full, hq⟩⟩ := due
  · rw [idle] at runs
    cases runs
  · have wait : Waits after enabler :=
      ⟨tl.2.1 ▸ live, enables, by simp [tl.1], fun _ => tl.2.2.trans (wf.idle idle)⟩
    rw [ft] at full
    refine ⟨enabler, wait, ?_⟩
    rw [left, hf]
    cases early with
    | nil =>
      obtain ⟨rfl, rfl⟩ := List.cons.inj full
      refine .inl ⟨mem_map_of_mem (mem_filter.mpr ⟨live, ?_⟩), hq⟩
      simp [Trigger.checkTriggers]
    | cons _ early =>
      obtain ⟨-, rfl⟩ := List.cons.inj full
      exact .inr ⟨early, late, rfl, hq⟩

/-- The front action, which is not the enabling one, is popped. -/
theorem Pending.pop (wf : WellFormed st) (due : Pending st) (hr : st.running = some act.addr)
    (rest : ∀ o ∈ st.manager.actions, o.addr ≠ act.addr → o ∈ after.manager.actions)
    (pop : after.manager.currentExecutingActions = st.manager.currentExecutingActions.tail)
    (tl : after.running = none ∧ after.manager.currentCommand = 0 ∧
      after.manager.triggerQueue = st.manager.triggerQueue) :
    Pending after := by
  obtain ⟨enabler, ⟨live, enables, rests, -⟩, place⟩ := due
  have ne : enabler.addr ≠ act.addr := by
    rintro eq
    exact rests (eq ▸ hr)
  refine ⟨enabler, ⟨rest enabler live ne, enables, by simp [tl.1], fun _ => tl.2.1⟩, ?_⟩
  rw [tl.2.2, pop]
  obtain ⟨runs, hq⟩ | inQueue := place
  · obtain ⟨back, split⟩ : ∃ back, st.manager.currentExecutingActions = act.addr :: back :=
      ⟨_, eq_cons_of_mem_head? (wf.running _ hr)⟩
    rw [split] at runs
    rw [split]
    exact .inl ⟨(mem_cons.mp runs).resolve_left ne, hq⟩
  · exact .inr inQueue

theorem move_pending (wf : WellFormed before) (due : Pending before) (move : Move before after)
    (noEnable : Adds Event.NotEnable before after) : Pending after := by
  cases move with
  | parse | set =>
    obtain ⟨enabler, ⟨live, enables, rest, unstarted⟩, place⟩ := due
    exact ⟨enabler, ⟨live, enables, rest, unstarted⟩, place⟩
  | push trig => exact due.push trig
  | create =>
    obtain ⟨enabler, ⟨live, enables, rest, unstarted⟩, place⟩ := due
    exact ⟨enabler, ⟨mem_append_left _ live, enables, rest, unstarted⟩, place⟩
  | append ft _ tl cmds here =>
    obtain ⟨enabler, ⟨live, enables, rest, unstarted⟩, place⟩ := due
    rw [here] at live
    obtain early | late := mem_append.mp live
    · exact ⟨enabler, ⟨mem_append_left _ early, enables, rest, unstarted⟩, place⟩
    · obtain rfl | la := mem_cons.mp late
      · have stillEnables :
          ((enabler.commands ++ cmds).head?).map Command.func = some .propertyEnableTriggersAction := by
          obtain ⟨cmd, head, func⟩ := Option.map_eq_some_iff.mp enables
          rw [List.head?_append, head]
          exact congrArg some func
        exact ⟨{ enabler with commands := enabler.commands ++ cmds },
          ⟨mem_append_right _ mem_cons_self, stillEnables, rest, unstarted⟩, place⟩
      · exact ⟨enabler, ⟨mem_append_right _ (mem_cons_of_mem _ la), enables, rest, unstarted⟩, place⟩
  | dequeue trig _ ft idle rest =>
    exact due.dequeue wf ft idle rfl rfl ⟨rest, rfl, rfl⟩
  | execute act tl cmd ft mem here rest =>
    obtain ⟨enabler, ⟨live, enables, -, unstarted⟩, place⟩ := due
    refine ⟨enabler, ⟨live, enables, ?_, unstarted⟩, place⟩
    intro isRunning
    have eq : act.addr = enabler.addr := Option.some.inj isRunning
    -- the first command of the enabling action would be called
    have sameAction := wf.unique mem live eq
    subst sameAction
    rw [unstarted (by rw [ft]; rfl), ← List.head?_eq_getElem?] at here
    rw [here] at enables
    obtain ⟨_, log, all⟩ := noEnable
    have event := append_cancel_left log
    exact all (.executed act.addr before.manager.currentCommand cmd)
      (event ▸ mem_singleton_self _) (Option.some.inj enables)
  | advance act hr mem _ =>
    obtain ⟨enabler, ⟨live, enables, rest, -⟩, place⟩ := due
    refine ⟨enabler, ⟨live, enables, nofun, fun head => ?_⟩, place⟩
    have running_ : before.running = some enabler.addr := by
      rw [hr, ← wf.running _ hr]
      exact head
    exact absurd running_ rest
  | retire act hr mem last _ =>
    exact due.pop wf hr (fun _ o _ => o) rfl ⟨rfl, rfl, rfl⟩
  | erase act hr mem last _ =>
    exact due.pop wf hr (fun _ o ne => filter_addr_mem.mpr ⟨o, ne⟩) rfl
      ⟨rfl, rfl, rfl⟩

/-! ## Along moves -/

section Moves

variable {act : Action} {pre post : ActionState}

section

variable (wf : WellFormed pre) (mvs : Moves pre post)
include wf mvs

theorem moves_registered (known : Registered act pre) : Registered act post := by
  have both : WellFormed post ∧ Registered act post := by
    refine moves_invariant (P := fun st => WellFormed st ∧ Registered act st)
      (fun s t hh move => ?_) ⟨wf, known⟩ mvs
    exact ⟨move_wellFormed hh.1 move, move_registered hh.2 hh.1 move⟩
  exact both.2

theorem moves_covered (known : Registered act pre) (mute : act.eventTrigger = []) (noName : pre.getProperty [] = [])
    (cover : Covered act pre) (noSet : Adds Event.NotSet pre post) : Covered act post := by
  have all : WellFormed post ∧ Registered act post ∧ post.getProperty [] = [] ∧ Covered act post := by
    refine moves_invariant_adds (P := fun st => WellFormed st ∧ Registered act st ∧
      st.getProperty [] = [] ∧ Covered act st) (fun s t hh move adds => ?_)
      ⟨wf, known, noName, cover⟩ mvs noSet
    obtain ⟨wf, known, noName, cover⟩ := hh
    exact ⟨move_wellFormed wf move, move_registered known wf move,
      by rw [moves_getProperty (.single move) adds, noName],
      move_covered mute noName known cover move adds⟩
  exact all.2.2.2

theorem moves_pending (due : Pending pre) (noEnable : Adds Event.NotEnable pre post) : Pending post := by
  have both : WellFormed post ∧ Pending post := by
    refine moves_invariant_adds (P := fun st => WellFormed st ∧ Pending st)
      (fun s t hh move adds => ?_) ⟨wf, due⟩ mvs noEnable
    exact ⟨move_wellFormed hh.1 move, move_pending hh.1 hh.2 move adds⟩
  exact both.2

end

end Moves

/-! ## Along runs -/

section Runs

variable {fmap : Option (KeywordMap BuiltinFunction)} {gp : SystemProperties → Bytes → Bytes}

/-- What holds of an action from when `queue_property_triggers_action` has run. -/
structure Watched (gp : SystemProperties → Bytes → Bytes) (act : Action) (s : LoopState) :
    Prop where
  sound : LoopSound gp s
  registered : Registered act (s.actions gp)
  covered : Covered act (s.actions gp)
  pending : s.init.propertyTriggersEnabled = true ∨ Pending (s.actions gp)

variable {act : Action} {s st post : LoopState}

theorem Watched.isToken (watched : Watched gp act st) : ∀ n ∈ act.names, IsToken n := by
  obtain ⟨cur, mem, eq, -⟩ := watched.registered
  intro n name
  obtain ⟨trig, isTrigger, rfl⟩ := mem_map.mp name
  rw [← (Action.isSame_iff.mp eq).2.1] at isTrigger
  exact (watched.sound.declared.1 cur mem).names trig isTrigger

theorem step_log (hs : LoopSound gp st) (step : LoopStep fmap gp st op post) : st.log <+: post.log := by
  cases step_outcome hs.live hs.store step with
  | acts acted _ noSet _ | enables acted _ noSet =>
    obtain ⟨evs, log, -⟩ := noSet
    exact ⟨evs, log.symm⟩
  | rejects => exact prefix_rfl
  | stores => exact prefix_append _ _

theorem Watched.stores {init : InitState} {pi : PropInfoPtr} (reads : ReadsStore gp)
    (watched : Watched gp act s)
    (mgr : init.manager =
      if s.init.propertyTriggersEnabled then s.init.manager.queuePropertyTrigger n v else s.init.manager)
    (legal : isLegalPropertyName n = true) (fits : v.length < PROP_VALUE_MAX)
    (own : init.properties.lookup n = some (pi, InitState.storedInfo n v ((s.init.properties.lookup n).map Prod.snd)))
    (kept : ∀ held : PropName, held.bytes ≠ n → init.properties.lookup held.bytes = s.init.properties.lookup held.bytes)
    (free : n ∈ act.names → NulFree v) :
    Covered act (LoopState.actions gp { s with
      init
      log := s.log ++ .propertySet n v ::
        if s.init.propertyTriggersEnabled then [.queued (.property n v)] else [] }) := by
  intro hh
  by_cases name : n ∈ act.names
  · left
    cases he : s.init.propertyTriggersEnabled with
    | true =>
      -- the new value is what the trigger carries, so the trigger matches as long as it stands
      have cur := reads.stored legal fits (free name) own
      refine ⟨.property n v, ?_, .inr ⟨name, cur.symm⟩⟩
      simp [LoopState.actions, mgr, he, queuePropertyTrigger, push]
    | false =>
      -- triggers are not enabled yet; the one for all properties is still ahead in the queue
      have due := watched.pending.resolve_left (by simp [he])
      refine ⟨.property [] [], ?_, .inl ⟨rfl, rfl⟩⟩
      simpa [LoopState.actions, mgr, he] using due.queued
  · -- the properties of the action are as they were
    have eq : ∀ o ∈ act.names, gp init.properties o = gp s.init.properties o := by
      intro o otherNamed
      apply reads.same (watched.isToken o otherNamed)
      rintro held rfl
      exact kept held fun isName => name (isName ▸ otherNamed)
    obtain ⟨trig, hq, cover⟩ | already := watched.covered (hh.congr eq)
    · refine .inl ⟨trig, ?_, cover.congr eq⟩
      simp only [LoopState.actions, mgr] at hq ⊢
      split
      · exact mem_append_left _ hq
      · exact hq
    · refine .inr ?_
      have start : startedStep act (startedSinceSet act s.log) (.propertySet n v) = true := by
        simpa [startedStep, name, LoopState.actions] using already
      simp only [LoopState.actions]
      split
      · rw [append_cons, startedSinceSet_snoc, startedSinceSet_snoc]
        exact start
      · rw [startedSinceSet_snoc]
        exact start

theorem step_watched (reads : ReadsStore gp) (mute : act.eventTrigger = [])
    (watched : Watched gp act st) (step : LoopStep fmap gp st op post)
    (free : ∀ n v, .propertySet n v ∈ post.log → n ∈ act.names → NulFree v) : Watched gp act post := by
  have hs := step_sound watched.sound step
  have wf := watched.sound.wellFormed
  have noName := reads.unnamed st.init.properties
  cases step_outcome watched.sound.live watched.sound.store step with
  | acts acted mvs noSet noEnable =>
    have met : (st.withActions acted).actions gp = acted :=
      LoopState.actions_withActions (moves_getProperty mvs noSet)
    refine ⟨hs, ?_, ?_, watched.pending.imp_right fun moves => ?_⟩
    · rw [met]
      exact moves_registered wf mvs watched.registered
    · rw [met]
      exact moves_covered wf mvs watched.registered mute noName watched.covered noSet
    · rw [met]
      exact moves_pending wf mvs moves noEnable
  | enables acted mvs noSet =>
    have met : (st.withActions acted).actions gp = acted :=
      LoopState.actions_withActions (moves_getProperty mvs noSet)
    refine ⟨hs, ?_, ?_, .inl rfl⟩
    · show Registered act ((st.withActions acted).actions gp)
      rw [met]
      exact moves_registered wf mvs watched.registered
    · show Covered act ((st.withActions acted).actions gp)
      rw [met]
      exact moves_covered wf mvs watched.registered mute noName watched.covered noSet
  -- nothing was stored, so what covered the action before covers it now
  | rejects init mgr enabled _ kept =>
    have eq : ∀ n ∈ act.names, gp init.properties n = gp st.init.properties n :=
      fun n name => reads.same (watched.isToken n name) fun held _ => kept held
    refine ⟨hs, ?_, fun hh => ?_, ?_⟩
    · simpa [Registered, LoopState.actions, mgr] using watched.registered
    · obtain ⟨trig, hq, cover⟩ | already := watched.covered (hh.congr eq)
      · exact .inl ⟨trig, by simpa [LoopState.actions, mgr] using hq, cover.congr eq⟩
      · exact .inr already
    · rw [enabled]
      refine watched.pending.imp_right fun moves => ?_
      obtain ⟨enabler, ⟨live, isEnables, rest, idle⟩, place⟩ := moves
      simp only [LoopState.actions, ← mgr] at live rest idle place
      exact ⟨enabler, ⟨live, isEnables, rest, idle⟩, place⟩
  | stores init n v _ mgr enabled _ legal fits own kept =>
    have mvs : Moves (st.actions gp) _ := stores_moves mgr
    refine ⟨hs, moves_registered wf mvs watched.registered,
      watched.stores reads mgr legal fits own kept (free n v (by simp)), ?_⟩
    rw [enabled]
    refine watched.pending.imp_right fun moves => moves_pending wf mvs moves ⟨_, rfl, ?_⟩
    -- neither of the two events is a run of the command that enables triggers
    rintro _ (_ | ⟨_, la⟩)
    · trivial
    · split at la
      · rw [mem_singleton.mp la]
        trivial
      · cases la

/-- The action that `queue_property_triggers_action` queues. -/
def enabler (addr : Nat) : Action where
  addr := addr
  oneshot := true
  eventTrigger := ascii "enable_property_trigger"
  commands := [⟨.propertyEnableTriggersAction, [ascii "enable_property_trigger"], [], 0⟩]

theorem queuePropertyTriggersAction_manager (bg : ActionState) (addr : Nat) :
    (bg.queuePropertyTriggersAction addr).manager = { bg.manager with
      actions := bg.manager.actions ++ [enabler addr]
      triggerQueue := bg.manager.triggerQueue ++ [.builtin addr, .property [] []] } := by
  have made : builtinAction addr .propertyEnableTriggersAction
      _ = some (enabler addr) :=
    builtinAction_event (by decide) (by decide)
  simp [ActionState.queuePropertyTriggersAction, ActionState.queueBuiltinAction,
    queueBuiltinAction, made, queueAllPropertyTriggers, queuePropertyTrigger, push]

theorem queuePropertyTriggersAction_pending {bg : ActionState} {addr : Nat} (wf : WellFormed bg)
    (new : addr ∉ bg.live) : Pending (bg.queuePropertyTriggersAction addr) := by
  have notAction : addr ∉ bg.manager.actions.map Action.addr := fun mem =>
    new (by simpa [ActionState.live] using Or.inl (by simpa using mem))
  have notFront : bg.manager.currentExecutingActions.head? ≠ some addr := fun head =>
    notAction (wf.alive addr (mem_of_mem_head? head))
  have mgr := queuePropertyTriggersAction_manager bg addr
  refine ⟨enabler addr, ⟨?_, rfl, ?_, ?_⟩, .inr ⟨bg.manager.triggerQueue, [.property [] []], ?_, ?_⟩⟩
  · exact mem_append_right _ (mem_singleton_self _)
  · intro hr
    exact notFront (wf.running addr hr)
  · exact fun head => absurd head notFront
  · rw [mgr]
    rfl
  · exact mem_singleton_self _

theorem watched_of_queued {addr : Nat} (mute : act.eventTrigger = []) (hs : LoopSound gp st)
    (mem : act ∈ st.init.manager.actions) (step : LoopStep fmap gp st (.executeOneCommand addr) post)
    (ran : (post.actions gp).calling = some .queuePropertyTriggersAction) : Watched gp act post := by
  have known : Registered act (st.actions gp) := by
    refine ⟨act, mem, Action.isSame_iff.mpr ⟨rfl, rfl, rfl⟩, ?_⟩
    cases once : act.oneshot with
    | false => rfl
    | true => exact absurd mute ((hs.declared.1 act mem).event once)
  have afterSound := step_sound hs step
  obtain ⟨⟨rest, _⟩, executed⟩ := step
  simp only [LoopOp.exec] at executed
  split at executed
  · cases executed
  rename_i begun start
  have mvs := beginCommand_moves rest start
  have wf := moves_invariant (fun _ _ => move_wellFormed) hs.wellFormed mvs
  split at executed
  · cases executed
    have free : addr ∉ begun.live := by rwa [beginCommand_live start]
    have due := queuePropertyTriggersAction_pending wf free
    -- the call is three small steps: the command begins, and queues two triggers
    have allMoves := (mvs.trans (queueBuiltinAction_moves .propertyEnableTriggersAction
      (ascii "enable_property_trigger") free)).tail (.push _ (.property [] []))
    have met : (st.withActions _).actions gp =
        begun.queuePropertyTriggersAction addr :=
      LoopState.actions_withActions (moves_getProperty mvs (beginCommand_notSet start))
    refine ⟨afterSound, ?_, ?_, .inr ?_⟩
    · rw [met]
      exact moves_registered hs.wellFormed allMoves known
    · exact fun _ => .inl ⟨.property [] [], due.queued, .inl ⟨rfl, rfl⟩⟩
    · rw [met]
      exact due
  -- the other two commands the loop knows are not this one
  · rename_i call
    cases executed
    exact absurd (call.symm.trans ran) (by decide)
  · rename_i o _
    cases executed
    exact absurd ran o

theorem run_watched {ops : List LoopOp} (reads : ReadsStore gp) (mute : act.eventTrigger = [])
    (watched : Watched gp act st) (run : Run (LoopStep fmap gp) st ops post)
    (free : ∀ n v, .propertySet n v ∈ post.log → n ∈ act.names → NulFree v) : Watched gp act post := by
  -- the log only grows, so the values set so far are among those of the whole run
  have sofar : LoopSound gp post ∧ ((∀ n v, .propertySet n v ∈ post.log → n ∈ act.names → NulFree v) →
        Watched gp act post) := by
    refine run.invariant (P := fun st => LoopSound gp st ∧
      ((∀ n v, .propertySet n v ∈ st.log → n ∈ act.names → NulFree v) → Watched gp act st))
        ⟨watched.sound, fun _ => watched⟩ ?_
    intro s _ t hh step
    refine ⟨step_sound hh.1 step, fun all => ?_⟩
    have hg := (step_log hh.1 step).subset
    exact step_watched reads mute
      (hh.2 fun n v mem name => all n v (hg mem) name) step all
  exact sofar.2 free

end Runs

/-- In every run: an action without event trigger that is registered when
    `queue_property_triggers_action` is called has been put into execution after the last
    time one of its properties was set, in every later state with an empty trigger queue
    in which its triggers hold, provided that no value set for these properties contains a
    NUL. -/
theorem property_changes_not_lost (fmap : Option (KeywordMap BuiltinFunction))
    (gp : SystemProperties → Bytes → Bytes) (reads : ReadsStore gp) (init : InitState)
    (blank : init.manager = {}) (store : init.properties.WellFormed) (early late : List LoopOp)
    (registered queued last : LoopState) (addr : Nat) (act : Action)
    (pre : Run (LoopStep fmap gp) { init } early registered)
    (member : act ∈ registered.init.manager.actions) (noEvent : act.eventTrigger = [])
    (step : LoopStep fmap gp registered (.executeOneCommand addr) queued)
    (ran : (queued.actions gp).calling = some .queuePropertyTriggersAction)
    (post : Run (LoopStep fmap gp) queued late last)
    (free : ∀ n v, .propertySet n v ∈ last.log → n ∈ act.names → NulFree v)
    (empty : last.init.manager.triggerQueue = []) (holds : act.Holds (gp last.init.properties)) :
    startedSinceSet act last.log = true := by
  have watched := watched_of_queued noEvent (run_sound blank store pre) member step ran
  obtain ⟨trg, inQueue, -⟩ | started := (run_watched reads noEvent watched post free).covered holds
  · have inEmpty : trg ∈ last.init.manager.triggerQueue := inQueue
    rw [empty] at inEmpty
    cases inEmpty
  · exact started

/-! ## A run -/

instance (act : Action) (gp : Bytes → Bytes) : Decidable (act.Holds gp) :=
  inferInstanceAs (Decidable (∀ trg ∈ act.propertyTriggers, gp trg.1 ≠ [] ∧ (trg.2 = ascii "*" ∨ trg.2 = gp trg.1)))

/-- `on property:a=x`, then `queue_property_triggers`. -/
def registerOps : List LoopOp :=
  [.call (.parseSection 1 [ascii "on", ascii "property:a=x"]),
    .call (.parseLineSection [ascii "trigger", ascii "late"] (ascii "init.rc") 2), .call .endSection,
    .call (.queueBuiltinAction 2 .queuePropertyTriggersAction (ascii "queue_property_triggers"))]

/-- Triggers are enabled, nothing matches "all properties", and then the property is
    set. -/
def setOps (v : Bytes) : List LoopOp :=
  [.call .endCommand, .executeOneCommand 4, .call .endCommand, .executeOneCommand 4,
    .propertySet {} (ascii "a") v, .executeOneCommand 4]

def watchedAction : Action where
  addr := 1
  propertyTriggers := [(ascii "a", ascii "x")]
  commands := [⟨.builtin (ascii "trigger"), [ascii "trigger", ascii "late"], ascii "init.rc", 2⟩]

/-- The states before and after `queue_property_triggers_action`, and the last one. -/
def watchedRun (v : Bytes) : Option (LoopState × LoopState × LoopState) := do
  let registered ← runLabels (LoopOp.Allowed readStore) (LoopOp.exec bootFunctionMap readStore)
    { init := emptyStore } registerOps
  let queued ← runLabels (LoopOp.Allowed readStore) (LoopOp.exec bootFunctionMap readStore) registered
    [.executeOneCommand 3]
  let last ← runLabels (LoopOp.Allowed readStore) (LoopOp.exec bootFunctionMap readStore) queued (setOps v)
  pure (registered, queued, last)

theorem watchedRun_runs {known q last : LoopState} (ran : watchedRun v = some (known, q, last)) :
    Run (LoopStep bootFunctionMap readStore) { init := emptyStore } registerOps known ∧
      LoopStep bootFunctionMap readStore known (.executeOneCommand 3) q ∧
      Run (LoopStep bootFunctionMap readStore) q (setOps v) last := by
  simp only [watchedRun, Option.bind_eq_bind, Option.bind_eq_some_iff, Option.pure_def, Option.some.injEq,
    Prod.mk.injEq] at ran
  obtain ⟨_, first, _, snd, _, third, rfl, rfl, rfl⟩ := ran
  refine ⟨run_of_runLabels first, ?_, run_of_runLabels third⟩
  simp only [runLabels] at snd
  split at snd
  · rename_i may
    split at snd
    · rename_i executed
      cases snd
      exact ⟨may, executed⟩
    · cases snd
  · cases snd

def setValues (log : List Event) : List Bytes :=
  log.filterMap fun ev => match ev with
    | .propertySet _ value => some value
    | _ => none

set_option maxRecDepth 8000 in
theorem property_changes_not_lost_set :
    ∃ registered queued last, watchedRun (ascii "x") = some (registered, queued, last) ∧
      startedSinceSet watchedAction last.log = true := by
  have ends : ((watchedRun (ascii "x")).map fun states => decide
      (watchedAction ∈ states.1.init.manager.actions ∧
        (states.2.1.actions readStore).calling = some .queuePropertyTriggersAction ∧
        states.2.2.init.manager.triggerQueue = [] ∧ watchedAction.Holds (readStore states.2.2.init.properties) ∧
        setValues states.2.2.log = [ascii "x"])) = some true := by decide
  obtain ⟨⟨registered, queued, last⟩, ran, facts⟩ := Option.map_eq_some_iff.mp ends
  obtain ⟨member, calling, empty, holds, values⟩ := of_decide_eq_true facts
  obtain ⟨before, step, after⟩ := watchedRun_runs ran
  refine ⟨registered, queued, last, ran, ?_⟩
  refine property_changes_not_lost bootFunctionMap readStore (fun _ _ => rfl) emptyStore rfl
    (SystemProperties.wellFormed_fresh _) registerOps (setOps (ascii "x")) registered queued last 3
    watchedAction before member rfl step calling after ?_ empty holds
  intro n v set _
  have isValue : v ∈ setValues last.log := mem_filterMap.mpr ⟨_, set, rfl⟩
  rw [values] at isValue
  rw [mem_singleton.mp isValue]
  decide

set_option maxRecDepth 8000 in
/-- The value `x\0y` is read back as `x`, but the trigger that carries it does not find
    `on property:a=x`. -/
theorem property_change_lost :
    ∃ registered queued last, Run (LoopStep bootFunctionMap readStore) { init := emptyStore } registerOps registered ∧
        watchedAction ∈ registered.init.manager.actions ∧
        LoopStep bootFunctionMap readStore registered (.executeOneCommand 3) queued ∧
        (queued.actions readStore).calling = some .queuePropertyTriggersAction ∧
        Run (LoopStep bootFunctionMap readStore) queued (setOps (ascii "x" ++ 0 :: ascii "y")) last ∧
        last.init.propertyTriggersEnabled = true ∧ last.init.manager.triggerQueue = [] ∧
        last.init.manager.currentExecutingActions = [] ∧ watchedAction.Holds (readStore last.init.properties) ∧
        startedSinceSet watchedAction last.log = false := by
  have ends : ((watchedRun (ascii "x" ++ 0 :: ascii "y")).map fun states => decide
      (watchedAction ∈ states.1.init.manager.actions ∧
        (states.2.1.actions readStore).calling = some .queuePropertyTriggersAction ∧
        states.2.2.init.propertyTriggersEnabled = true ∧ states.2.2.init.manager.triggerQueue = [] ∧
        states.2.2.init.manager.currentExecutingActions = [] ∧
        watchedAction.Holds (readStore states.2.2.init.properties) ∧
        startedSinceSet watchedAction states.2.2.log = false)) = some true := by decide
  obtain ⟨⟨registered, queued, last⟩, ran, facts⟩ := Option.map_eq_some_iff.mp ends
  obtain ⟨member, calling, enabled, empty, idle, holds, lost⟩ := of_decide_eq_true facts
  obtain ⟨before, step, after⟩ := watchedRun_runs ran
  exact ⟨registered, queued, last, before, member, step, calling, after, enabled, empty, idle, holds, lost⟩

end Aosp.Init
