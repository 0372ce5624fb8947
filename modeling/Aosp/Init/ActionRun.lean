import Aosp.Init.Action
import Aosp.Lib.Run

/-! # Runs of the action manager

The manager as a transition system.  Its labels are the calls that init makes,
in any order: parsing `on` sections (`AddAction` is reached through `EndSection`
alone), queueing triggers and builtin actions, setting properties, and the two
halves of `ExecuteOneCommand`.  Whatever happens between the halves is what the
running command does.

A log records what happened.  `Move` describes each label as a few small steps,
and every invariant is proved once for each of those: `WellFormed` here, and the
schedule in `Aosp.Init.ActionSchedule`.
-/

namespace Aosp.Init

open Aosp.Lib List Aosp.Init.Action

/-! ## The machine -/

inductive Event where
  | queued (trg : Trigger)
  | dequeued (trg : Trigger) (actions : List Action) (getProperty : Bytes → Bytes)
  | created (act : Action)
  | appended (addr : Nat) (cmds : List Command)
  | executed (addr : Nat) (idx : Nat) (cmd : Command)
  | retired (addr : Nat)
  | erased (act : Action)
  | propertySet (n v : Bytes)

/-- `running` is the `action` of an `ExecuteOneCommand` that has called its
    command, and `getProperty` what `GetProperty` returns. -/
structure ActionState where
  manager : ActionManager := {}
  parser : ActionParser := {}
  getProperty : Bytes → Bytes := fun _ => []
  running : Option Nat := none
  log : List Event := []

/-- A call.  Calls that allocate an `Action` carry the address they get. -/
inductive ActionOp where
  | parseSection (addr : Nat) (args : List Bytes)
  | parseLineSection (args : List Bytes) (f : Bytes) (l : Nat)
  | endSection
  | queueEventTrigger (trg : Bytes)
  | queuePropertyTrigger (n v : Bytes)
  | queueAllPropertyTriggers
  | queueBuiltinAction (addr : Nat) (func : BuiltinFunction) (n : Bytes)
  | propertySet (n v : Bytes) (getProperty : Bytes → Bytes)
  | beginCommand
  | endCommand

namespace ActionState

def live (s : ActionState) : List Nat :=
  (s.manager.actions ++ s.parser.action.toList).map addr

@[simps] def record (s : ActionState) (events : List Event) : ActionState :=
  { s with log := s.log ++ events }

def endSection (s : ActionState) : ActionState :=
  match s.parser.endSection with
  | (none, parser) => { s with parser }
  | (some action, parser) =>
    let ev := match s.manager.actions.find? action.triggersEqual with
      | some old => Event.appended old.addr action.commands
      | none => Event.created action
    { s with parser, manager := s.manager.addAction action }.record [ev]

def queueBuiltinAction (s : ActionState) (addr : Nat) (func : BuiltinFunction) (n : Bytes) :
    ActionState :=
  let events := match ActionManager.builtinAction addr func n with
    | some act => [Event.queued (.builtin addr), Event.created act]
    | none => []
  { s with manager := s.manager.queueBuiltinAction addr func n }.record events

/-- `ExecuteOneCommand` up to the call of the command, if there is one to call. -/
def beginCommand (s : ActionState) : Option ActionState :=
  let (popped, manager) := s.manager.dequeueTriggers s.getProperty
  let begun := { s with manager }.record
    (popped.map fun trg => .dequeued trg s.manager.actions s.getProperty)
  match manager.currentExecutingActions with
  | [] => some begun
  | addr :: _ =>
    match manager.command addr with
    | none => none
    | some cmd =>
      some ({ begun with running := some addr }.record [.executed addr manager.currentCommand cmd])

def endCommand (s : ActionState) : Option ActionState :=
  match s.running with
  | none => none
  | some addr =>
    match s.manager.endCommand addr, s.manager.deref addr with
    | some manager, some action =>
      let events :=
        if s.manager.currentCommand + 1 = action.numCommands then
          Event.retired addr :: (if action.oneshot then [Event.erased action] else [])
        else []
      some ({ s with manager, running := none }.record events)
    | _, _ => none

end ActionState

namespace ActionOp

/-- The allocator hands out addresses of no live action, and `ExecuteOneCommand`
    is not re-entered. -/
def Allowed (s : ActionState) : ActionOp → Prop
  | .parseSection addr _ => addr ∉ s.live
  | .queueBuiltinAction addr _ _ => addr ∉ s.live
  | .beginCommand => s.running = none
  | .endCommand => s.running ≠ none
  | _ => True

instance (s : ActionState) : (op : ActionOp) → Decidable (op.Allowed s)
  | .parseSection addr _ => inferInstanceAs (Decidable (addr ∉ s.live))
  | .queueBuiltinAction addr _ _ => inferInstanceAs (Decidable (addr ∉ s.live))
  | .beginCommand => inferInstanceAs (Decidable (s.running = none))
  | .endCommand => inferInstanceAs (Decidable (s.running ≠ none))
  | .parseLineSection _ _ _ | .endSection | .queueEventTrigger _ | .queuePropertyTrigger _ _
  | .queueAllPropertyTriggers | .propertySet _ _ _ => inferInstanceAs (Decidable True)

/-- The state after a call; `none` is undefined behaviour. -/
def exec (fmap : Option (KeywordMap BuiltinFunction)) (s : ActionState) :
    ActionOp → Option ActionState
  | .parseSection addr args =>
    match s.parser.parseSection addr args with
    | .ok parser => some { s with parser }
    | .error _ => some s
  | .parseLineSection args f l =>
    match s.parser.parseLineSection fmap args f l with
    | .ok parser => some { s with parser }
    | .error _ => some s
  | .endSection => some s.endSection
  | .queueEventTrigger trg =>
    some ({ s with manager := s.manager.queueEventTrigger trg }.record
      [.queued (.event trg)])
  | .queuePropertyTrigger n v =>
    some ({ s with manager := s.manager.queuePropertyTrigger n v }.record
      [.queued (.property n v)])
  | .queueAllPropertyTriggers =>
    some ({ s with manager := s.manager.queueAllPropertyTriggers }.record
      [.queued (.property [] [])])
  | .queueBuiltinAction addr func n => some (s.queueBuiltinAction addr func n)
  | .propertySet n v getProperty =>
    some ({ s with getProperty }.record [.propertySet n v])
  | .beginCommand => s.beginCommand
  | .endCommand => s.endCommand

end ActionOp

/-- One call, in a state that allows it, without undefined behaviour. -/
def ActionStep (fmap : Option (KeywordMap BuiltinFunction)) (pre : ActionState) (op : ActionOp)
    (post : ActionState) : Prop :=
  op.Allowed pre ∧ op.exec fmap pre = some post

/-! ## Small steps -/

open ActionState in
/-- What a call does, one change at a time. -/
inductive Move : ActionState → ActionState → Prop where
  | parse (s : ActionState) (parser : ActionParser) : Move s { s with parser }
  | set (s : ActionState) (n v : Bytes) (getProperty : Bytes → Bytes) :
      Move s ({ s with getProperty }.record [.propertySet n v])
  | push (s : ActionState) (trg : Trigger) :
      Move s ({ s with manager := s.manager.push trg }.record [.queued trg])
  | create (s : ActionState) (act : Action)
      (fresh : act.addr ∉ s.manager.actions.map addr) (nonempty : act.commands ≠ []) :
      Move s ({ s with manager := { s.manager with
        actions := s.manager.actions ++ [act] } }.record [.created act])
  | append (s : ActionState) (pre : List Action) (old : Action) (post : List Action)
      (cmds : List Command) (here : s.manager.actions = pre ++ old :: post) :
      Move s ({ s with manager := { s.manager with
        actions := pre ++ { old with commands := old.commands ++ cmds } :: post } }.record
          [.appended old.addr cmds])
  | dequeue (s : ActionState) (trg : Trigger) (queue : List Trigger)
      (front : s.manager.triggerQueue = trg :: queue)
      (idle : s.manager.currentExecutingActions = []) (resting : s.running = none) :
      Move s ({ s with manager := { s.manager with
        triggerQueue := queue, currentExecutingActions :=
          (ActionManager.matching s.getProperty s.manager.actions trg).map addr } }.record
            [.dequeued trg s.manager.actions s.getProperty])
  | execute (s : ActionState) (act : Action) (tl : List Nat) (cmd : Command)
      (front : s.manager.currentExecutingActions = act.addr :: tl)
      (member : act ∈ s.manager.actions)
      (here : act.commands[s.manager.currentCommand]? = some cmd)
      (resting : s.running = none) :
      Move s ({ s with running := some act.addr }.record
        [.executed act.addr s.manager.currentCommand cmd])
  | advance (s : ActionState) (act : Action) (running : s.running = some act.addr)
      (member : act ∈ s.manager.actions)
      (more : s.manager.currentCommand + 1 ≠ act.commands.length) :
      Move s { s with running := none, manager := { s.manager with
        currentCommand := s.manager.currentCommand + 1 } }
  | retire (s : ActionState) (act : Action) (running : s.running = some act.addr)
      (member : act ∈ s.manager.actions)
      (last : s.manager.currentCommand + 1 = act.commands.length)
      (stays : act.oneshot = false) :
      Move s ({ s with running := none, manager := { s.manager with
        currentExecutingActions := s.manager.currentExecutingActions.tail,
        currentCommand := 0 } }.record [.retired act.addr])
  | erase (s : ActionState) (act : Action) (running : s.running = some act.addr)
      (member : act ∈ s.manager.actions)
      (last : s.manager.currentCommand + 1 = act.commands.length)
      (oneshot : act.oneshot = true) :
      Move s ({ s with running := none, manager := { s.manager with
        actions := s.manager.actions.filter (·.addr ≠ act.addr),
        currentExecutingActions := s.manager.currentExecutingActions.tail,
        currentCommand := 0 } }.record [.retired act.addr, .erased act])

abbrev Moves : ActionState → ActionState → Prop := Relation.ReflTransGen Move

@[simp] theorem ActionState.record_nil (s : ActionState) : s.record [] = s := by simp [record]

/-! ### Each call is a few moves -/

variable {addr : Nat} {act : Action} {args : List Bytes} {s post : ActionState}
  {fmap : Option (KeywordMap BuiltinFunction)} {op : ActionOp} {psr pa : ActionParser}

theorem ActionManager.deref_eq_some {mgr : ActionManager} (hf : mgr.deref addr = some act) :
    act ∈ mgr.actions ∧ act.addr = addr :=
  ⟨mem_of_find?_eq_some hf, by simpa using List.find?_some hf⟩

/-- `AddAction` appends to the first action with the same triggers, or adds the
    action at the end. -/
theorem ActionManager.addAction_cases (mgr : ActionManager) (act : Action) :
    (∃ pre old post, mgr.actions = pre ++ old :: post ∧ mgr.actions.find? act.triggersEqual = some old ∧
        mgr.addAction act = { mgr with
          actions := pre ++ { old with commands := old.commands ++ act.commands } :: post }) ∨
      (mgr.actions.find? act.triggersEqual = none ∧
        mgr.addAction act = { mgr with actions := mgr.actions ++ [act] }) := by
  unfold ActionManager.addAction
  cases hf : mgr.actions.findIdx? act.triggersEqual with
  | none =>
    refine .inr ⟨?_, rfl⟩
    rw [List.find?_eq_none]
    intro o mem
    simpa using List.findIdx?_eq_none_iff.mp hf o mem
  | some i =>
    obtain ⟨cap, here, prior⟩ := List.findIdx?_eq_some_iff_getElem.mp hf
    refine .inl ⟨mgr.actions.take i, mgr.actions[i], mgr.actions.drop (i + 1), ?_, ?_, ?_⟩
    · rw [getElem_cons_drop, take_append_drop]
    · exact List.find?_eq_some_iff_getElem.mpr ⟨here, i, cap, rfl, fun j lt => by simpa using prior j lt⟩
    · dsimp only
      rw [modify_eq_take_cons_drop cap]
      rfl

theorem initTriggersFrom_keeps {res : Action} {i : Nat} (read : act.initTriggersFrom i args = .ok res) :
    res.addr = act.addr ∧ res.oneshot = act.oneshot ∧ res.commands = act.commands := by
  refine initTriggersFrom_induction (P := fun post => post.addr = act.addr ∧ post.oneshot = act.oneshot ∧
    post.commands = act.commands) (Q := fun _ => True) read (fun _ _ => trivial)
    (fun _ _ _ _ trig kept => ?_) (fun _ _ kept => kept) ⟨rfl, rfl, rfl⟩
  obtain ⟨-, -, -, -, rfl⟩ := parsePropertyTrigger_ok trig
  exact kept

theorem ActionManager.builtinAction_spec {func : BuiltinFunction} {n : Bytes}
    (made : builtinAction addr func n = some act) :
    act.addr = addr ∧ act.oneshot = true ∧ act.commands = [⟨func, [n], [], 0⟩] := by
  simp only [builtinAction, initSingleTrigger, Option.map_eq_some_iff] at made
  obtain ⟨_, read, rfl⟩ := made
  cases oc : ({ addr, oneshot := true } : Action).initTriggers [n] with
  | error _ => simp [oc, Except.toOption] at read
  | ok _ =>
    rw [oc] at read
    cases read
    obtain ⟨sameAddr, sameOneshot, same⟩ := initTriggersFrom_keeps oc
    exact ⟨sameAddr, sameOneshot, by simp [addCommand, same]⟩

open ActionState

theorem dequeue_moves {que : List Trigger} (ft : s.manager.triggerQueue = que)
    (idle : s.manager.currentExecutingActions = []) (rest : s.running = none) :
    Moves s ({ s with manager := { s.manager with
        triggerQueue := (ActionManager.dequeue s.getProperty s.manager.actions que).2.2
        currentExecutingActions :=
          (ActionManager.dequeue s.getProperty s.manager.actions que).2.1.map Action.addr }}.record
      ((ActionManager.dequeue s.getProperty s.manager.actions que).1.map fun trig =>
        .dequeued trig s.manager.actions s.getProperty)) := by
  induction que generalizing s with
  | nil =>
    have eq : ({ s with manager := { s.manager with
        triggerQueue := [], currentExecutingActions := [] }} : ActionState).record [] = s := by
      rw [← ft, ← idle]
      simp [record]
    simp only [ActionManager.dequeue, map_nil, eq]
    exact .refl
  | cons trig que ih =>
    have pop := Move.dequeue s trig que ft idle rest
    unfold ActionManager.dequeue
    cases fits : ActionManager.matching s.getProperty s.manager.actions trig with
    | nil =>
      rw [fits] at pop
      have tl := @ih ({ s with manager := { s.manager with
        triggerQueue := que, currentExecutingActions := [] }}.record
          [.dequeued trig s.manager.actions s.getProperty]) rfl rfl rest
      refine .head pop ?_
      simpa [record] using tl
    | cons _ tl =>
      rw [fits] at pop
      exact .single pop

theorem dequeueTriggers_moves (rest : s.running = none) :
    Moves s ({ s with manager := (s.manager.dequeueTriggers s.getProperty).2 }.record
      ((s.manager.dequeueTriggers s.getProperty).1.map fun trig =>
        .dequeued trig s.manager.actions s.getProperty)) := by
  unfold ActionManager.dequeueTriggers
  split
  · simp only [map_nil, record_nil]
    exact .refl
  · rename_i idle
    exact dequeue_moves rfl idle rest

theorem beginCommand_moves (rest : s.running = none) (start : s.beginCommand = some post) : Moves s post := by
  have pop := dequeueTriggers_moves rest
  unfold beginCommand at start
  dsimp only at start
  split at start
  · cases start
    exact pop
  · rename_i addr tl ft
    split at start <;> cases start
    rename_i cmd hf
    unfold ActionManager.command at hf
    split at hf
    · cases hf
    · rename_i act live
      obtain ⟨mem, rfl⟩ := ActionManager.deref_eq_some live
      exact .tail pop (.execute _ act tl cmd ft mem hf rest)

theorem endCommand_move (past : s.endCommand = some post) : Move s post ∧ s.running ≠ none ∧ post.running = none := by
  unfold endCommand at past
  split at past
  · cases past
  rename_i addr hr
  split at past <;> cases past
  rename_i mgr act done live
  obtain ⟨mem, rfl⟩ := ActionManager.deref_eq_some live
  refine ⟨?_, by simp [hr], rfl⟩
  simp only [ActionManager.endCommand, live] at done
  by_cases last : s.manager.currentCommand + 1 = act.commands.length
  · simp only [numCommands, last, if_true] at done ⊢
    cases once : act.oneshot with
    | false =>
      simp only [once, Bool.false_eq_true, if_false, Option.some.injEq] at done ⊢
      subst done
      exact .retire s act hr mem last once
    | true =>
      simp only [once, if_true, ActionManager.eraseAction, Option.ite_none_right_eq_some] at done ⊢
      obtain ⟨-, ⟨⟩⟩ := done
      exact .erase s act hr mem last once
  · simp only [numCommands, last, if_false, Option.some.injEq] at done ⊢
    subst done
    rw [record_nil]
    exact .advance s act hr mem last

theorem endSection_moves (live : s.live.Nodup) : Moves s s.endSection := by
  unfold ActionState.endSection ActionParser.endSection
  cases read : s.parser.action with
  | none => exact .single (.parse s _)
  | some act =>
    by_cases cmds : act.numCommands > 0
    · simp only [cmds, if_true]
      have ne : act.commands ≠ [] := by
        rintro emp
        simp [numCommands, emp] at cmds
      have new : act.addr ∉ s.manager.actions.map addr := by
        simp only [ActionState.live, read, map_append] at live
        exact fun mem => disjoint_of_nodup_append live mem (by simp)
      refine .head (.parse s {}) (.single ?_)
      rcases s.manager.addAction_cases act with
        ⟨pre, old, tl, here, hf, combined⟩ | ⟨hf, adds⟩
      · rw [hf, combined]
        exact Move.append { s with parser := {} } pre old tl act.commands here
      · rw [hf, adds]
        exact Move.create { s with parser := {} } act new ne
    · simp only [cmds]
      exact .single (.parse s _)

theorem queueBuiltinAction_moves (func : BuiltinFunction) (n : Bytes) (new : addr ∉ s.live) :
    Moves s (s.queueBuiltinAction addr func n) := by
  unfold queueBuiltinAction ActionManager.queueBuiltinAction
  cases made : ActionManager.builtinAction addr func n with
  | none =>
    rw [record_nil]
  | some act =>
    obtain ⟨rfl, -, cmds⟩ := ActionManager.builtinAction_spec made
    have notAction : act.addr ∉ s.manager.actions.map addr := fun mem =>
      new (by simpa [live] using Or.inl (by simpa using mem))
    refine .head (.push s (.builtin act.addr)) (.single ?_)
    have created := Move.create ({ s with manager := s.manager.push (.builtin act.addr) }.record
      [.queued (.builtin act.addr)]) act notAction (by simp [cmds])
    simpa [record, ActionManager.push] using created

theorem exec_moves (live : s.live.Nodup) (step : ActionStep fmap s op post) : Moves s post := by
  obtain ⟨may, ran⟩ := step
  cases op with
  | parseSection addr args | parseLineSection args f l =>
    simp only [ActionOp.exec] at ran
    split at ran <;> cases ran
    · exact .single (.parse s _)
    · exact .refl
  | endSection =>
    cases ran
    exact endSection_moves live
  | queueEventTrigger | queuePropertyTrigger | queueAllPropertyTriggers =>
    cases ran
    exact .single (.push s _)
  | queueBuiltinAction addr func n =>
    cases ran
    exact queueBuiltinAction_moves func n may
  | propertySet n v gp =>
    cases ran
    exact .single (.set s n v gp)
  | beginCommand => exact beginCommand_moves may ran
  | endCommand => exact .single (endCommand_move ran).1

/-! ## Live actions have different addresses -/

theorem parseSection_addr (ok : psr.parseSection addr args = .ok pa) :
    ∃ act, pa.action = some act ∧ act.addr = addr := by
  revert ok
  fun_cases ActionParser.parseSection psr addr args with
  | case1 | case2 => nofun
  | case3 _ _ act trs =>
    rintro ⟨⟩
    exact ⟨act, rfl, (initTriggersFrom_keeps trs).1⟩

theorem parseLineSection_command {f : Bytes} {l : Nat} (ok : psr.parseLineSection fmap args f l = .ok pa) :
    ∃ act cmd, psr.action = some act ∧ pa.action = some { act with commands := act.commands ++ [cmd] } := by
  unfold ActionParser.parseLineSection at ok
  split at ok
  · cases ok
  rename_i act here
  split at ok <;> cases ok
  rename_i more adds
  revert adds
  fun_cases act.addParsedCommand fmap args f l with
  | case1 | case2 | case3 => nofun
  | case4 =>
    rintro ⟨⟩
    exact ⟨act, _, here, rfl⟩

theorem endSection_live (live : s.live.Nodup) : s.endSection.live.Nodup := by
  unfold ActionState.endSection ActionParser.endSection
  cases read : s.parser.action with
  | none => exact live
  | some act =>
    by_cases cmds : act.numCommands > 0
    · simp only [cmds, if_true]
      rcases s.manager.addAction_cases act with
        ⟨pre, old, tl, here, hf, combined⟩ | ⟨hf, adds⟩
      · rw [combined]
        simp only [ActionState.live, here] at live
        have acts : ((pre ++ old :: tl).map addr).Nodup := by
          rw [map_append] at live
          exact (nodup_append.mp live).1
        simpa [ActionState.live] using acts
      · rw [adds]
        simpa [ActionState.live, read] using live
    · simpa only [cmds, if_false] using live

theorem queueBuiltinAction_live (func : BuiltinFunction) (n : Bytes) (new : addr ∉ s.live)
    (live : s.live.Nodup) : (s.queueBuiltinAction addr func n).live.Nodup := by
  unfold ActionState.queueBuiltinAction ActionManager.queueBuiltinAction
  cases made : ActionManager.builtinAction addr func n with
  | none => exact live
  | some act =>
    obtain ⟨rfl, -, -⟩ := ActionManager.builtinAction_spec made
    have both : (act.addr :: s.live).Nodup := nodup_cons.mpr ⟨new, live⟩
    refine List.Perm.nodup ?_ both
    simp only [ActionState.live, ActionState.record, append_assoc, map_append]
    exact perm_middle.symm

theorem beginCommand_actions (start : s.beginCommand = some post) :
    post.manager.actions = s.manager.actions ∧ post.parser = s.parser := by
  have kept : (s.manager.dequeueTriggers s.getProperty).2.actions = s.manager.actions := by
    unfold ActionManager.dequeueTriggers
    split <;> rfl
  unfold beginCommand at start
  dsimp only at start
  split at start
  · cases start
    exact ⟨kept, rfl⟩
  · split at start <;> cases start
    exact ⟨kept, rfl⟩

theorem beginCommand_live (start : s.beginCommand = some post) : post.live = s.live := by
  obtain ⟨acts, psr⟩ := beginCommand_actions start
  simp only [live, acts, psr]

theorem endCommand_actions (past : s.endCommand = some post) :
    post.manager.actions.Sublist s.manager.actions ∧ post.parser = s.parser := by
  obtain ⟨move, hr, rests⟩ := endCommand_move past
  cases move with
  | advance | retire => exact ⟨.refl _, rfl⟩
  | erase => exact ⟨filter_sublist, rfl⟩
  | execute => cases rests
  | parse | set | push | create | append | dequeue => exact absurd rests hr

theorem endCommand_live (past : s.endCommand = some post) : post.live.Sublist s.live := by
  obtain ⟨acts, psr⟩ := endCommand_actions past
  simp only [live, psr, map_append]
  exact (acts.map _).append_right _

theorem step_live (live : s.live.Nodup) (step : ActionStep fmap s op post) : post.live.Nodup := by
  obtain ⟨may, ran⟩ := step
  cases op with
  | parseSection addr args =>
    simp only [ActionOp.exec] at ran
    split at ran
    · rename_i psr ok
      cases ran
      obtain ⟨act, read, rfl⟩ := parseSection_addr ok
      simp only [ActionState.live, map_append] at live
      simp only [ActionOp.Allowed, ActionState.live, map_append, mem_append, not_or] at may
      simp only [ActionState.live, read, map_append]
      exact (nodup_append.mp live).1.append (nodup_singleton _) (by simpa using may.1)
    · cases ran
      exact live
  | parseLineSection args f l =>
    simp only [ActionOp.exec] at ran
    split at ran
    · rename_i psr ok
      cases ran
      obtain ⟨act, _, pre, more⟩ := parseLineSection_command ok
      simpa [ActionState.live, pre, more] using live
    · cases ran
      exact live
  | endSection =>
    cases ran
    exact endSection_live live
  | queueBuiltinAction addr func n =>
    cases ran
    exact queueBuiltinAction_live func n may live
  | queueEventTrigger | queuePropertyTrigger | queueAllPropertyTriggers | propertySet =>
    cases ran
    exact live
  | beginCommand =>
    rw [beginCommand_live ran]
    exact live
  | endCommand => exact (endCommand_live ran).nodup live

end Aosp.Init
