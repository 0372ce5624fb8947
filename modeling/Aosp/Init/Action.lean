import Aosp.Lib.Bytes

/-! # Actions, triggers and the action manager

Model of `init/action.cpp`: commands, the trigger grammar of `on` lines, the
three kinds of trigger, `ActionManager` and `ActionParser`, with the argument
check of `init/keyword_map.h`.

An `Action` lives behind a pointer that is compared (`BuiltinTrigger`), kept in a
queue (`current_executing_actions_`) and freed (oneshot actions), so the model
carries the address of each object.  A freed address may be handed out again.

`ExecuteOneCommand` is cut where it calls the command's function: that call may
re-enter the manager.  `beginCommand` is everything before it and `endCommand`
everything after it.  `none` stands for undefined behaviour: a dangling pointer
is dereferenced, or `commands_` is indexed out of range.
-/

namespace Aosp.Init

open Aosp.Lib

/-! ## Keyword maps -/

def sizeMax : Nat := 2 ^ 64 - 1

/-- Keyword, minimum and maximum number of arguments, function. -/
abbrev KeywordMap (α : Type) := List (Bytes × Nat × Nat × α)

namespace KeywordMap

variable {α : Type}

def findFunction (map : KeywordMap α) (keyword : Bytes) (numArgs : Nat) : Except Bytes α :=
  match map.find? fun ent => ent.1 = keyword with
  | none => .error (ascii "invalid keyword '" ++ cstr keyword ++ ascii "'")
  | some (_, minArgs, maxArgs, function) =>
    if minArgs = maxArgs ∧ numArgs ≠ minArgs then
      .error (cstr keyword ++ ascii " requires " ++ ascii (toString minArgs) ++ ascii " argument" ++
        (if minArgs > 1 ∨ minArgs = 0 then ascii "s" else []))
    else if numArgs < minArgs ∨ numArgs > maxArgs then
      if maxArgs = sizeMax then
        .error (cstr keyword ++ ascii " requires at least " ++ ascii (toString minArgs) ++
          ascii " argument" ++ (if minArgs > 1 then ascii "s" else []))
      else
        .error (cstr keyword ++ ascii " requires between " ++ ascii (toString minArgs) ++
          ascii " and " ++ ascii (toString maxArgs) ++ ascii " arguments")
    else .ok function

theorem mem_of_findFunction {map : KeywordMap α} {kw : Bytes} {na : Nat} {fn : α}
    (hf : map.findFunction kw na = .ok fn) :
    ∃ minArgs maxArgs, (kw, minArgs, maxArgs, fn) ∈ map ∧ minArgs ≤ na ∧ na ≤ maxArgs := by
  unfold findFunction at hf
  split at hf
  · cases hf
  · rename_i ent
    split at hf
    · cases hf
    split at hf
    · split at hf <;> cases hf
    · cases hf
      have isKeyword := List.find?_some ent
      simp only [decide_eq_true_eq] at isKeyword
      subst isKeyword
      exact ⟨_, _, List.mem_of_find?_eq_some ent, by omega, by omega⟩

end KeywordMap

/-! ## Commands -/

/-- What a command calls: a function of the keyword map, or one of the actions
    that `init.cpp` queues itself. -/
inductive BuiltinFunction where
  | builtin (keyword : Bytes)
  | waitForColdbootDoneAction
  | mixHwrngIntoLinuxRngAction
  | setMmapRndBitsAction
  | setKptrRestrictAction
  | keychordInitAction
  | consoleInitAction
  | queuePropertyTriggersAction
  | propertyEnableTriggersAction
deriving DecidableEq

structure Command where
  func : BuiltinFunction
  args : List Bytes
  filename : Bytes := []
  line : Nat := 0
deriving DecidableEq

/-! ## Actions -/

/-- The `Action` object at an address.  `propertyTriggers` is a `std::map`: one
    entry for each name, in the order of the names. -/
structure Action where
  addr : Nat
  oneshot : Bool := false
  propertyTriggers : List (Bytes × Bytes) := []
  eventTrigger : Bytes := []
  commands : List Command := []
deriving DecidableEq

/-- `std::map::emplace`: `none` when the key is taken. -/
def emplace (key val : Bytes) : List (Bytes × Bytes) → Option (List (Bytes × Bytes))
  | [] => some [(key, val)]
  | (k, v) :: rest =>
    if k = key then none
    else if key < k then some ((key, val) :: (k, v) :: rest)
    else (emplace key val rest).map ((k, v) :: ·)

namespace Action

variable (gp : Bytes → Bytes) (action : Action)

/-- `AddCommand` for the functions that are not looked up. -/
def addCommand (func : BuiltinFunction) (args : List Bytes) (f : Bytes) (l : Nat) : Action :=
  { action with commands := action.commands ++ [⟨func, args, f, l⟩] }

/-- `AddCommand` for a line of a configuration file. -/
def addParsedCommand (fmap : Option (KeywordMap BuiltinFunction)) (act : Action)
    (args : List Bytes) (f : Bytes) (l : Nat) : Except Bytes Action :=
  match fmap with
  | none => .error (ascii "no function map available")
  | some map =>
    match args with
    | [] => .error (ascii "command needed, but not provided")
    | keyword :: rest =>
      match map.findFunction keyword rest.length with
      | .error err => .error err
      | .ok function => .ok (act.addCommand function args f l)

def combineAction (act o : Action) : Action :=
  { act with commands := act.commands ++ o.commands }

def numCommands : Nat := action.commands.length

def propStr : Bytes := ascii "property:"

def parsePropertyTrigger (trigger : Bytes) : Except Bytes Action :=
  let propName := trigger.drop propStr.length
  match strchr propName equalsSign with
  | none => .error (ascii "property trigger found without matching '='")
  | some equalPos =>
    match emplace (propName.take equalPos) (propName.drop (equalPos + 1)) action.propertyTriggers with
    | none => .error (ascii "multiple property triggers found for same property")
    | some triggers => .ok { action with propertyTriggers := triggers }

/-- The loop of `InitTriggers`, at argument `i`. -/
def initTriggersFrom (act : Action) : Nat → List Bytes → Except Bytes Action
  | _, [] => .ok act
  | i, arg :: args =>
    if arg = [] then .error (ascii "empty trigger is not valid")
    else if i % 2 = 1 then
      if arg ≠ ascii "&&" then .error (ascii "&& is the only symbol allowed to concatenate actions")
      else act.initTriggersFrom (i + 1) args
    else if arg.take propStr.length = propStr then
      match act.parsePropertyTrigger arg with
      | .error err => .error err
      | .ok act => act.initTriggersFrom (i + 1) args
    else if act.eventTrigger ≠ [] then .error (ascii "multiple event triggers are not allowed")
    else { act with eventTrigger := arg }.initTriggersFrom (i + 1) args

def initTriggers (args : List Bytes) : Except Bytes Action :=
  action.initTriggersFrom 0 args

section Parsed

variable {act next res : Action} {arg : Bytes} {args : List Bytes} {i : Nat}

theorem parsePropertyTrigger_ok (read : act.parsePropertyTrigger arg = .ok next) :
    ∃ equalPos trs, strchr (arg.drop propStr.length) equalsSign = some equalPos ∧
      emplace ((arg.drop propStr.length).take equalPos) ((arg.drop propStr.length).drop (equalPos + 1))
        act.propertyTriggers = some trs ∧ next = { act with propertyTriggers := trs } := by
  revert read
  fun_cases parsePropertyTrigger act arg with
  | case1 | case2 => nofun
  | case3 _ equalPos hf trs put =>
    rintro ⟨⟩
    exact ⟨equalPos, trs, hf, put, rfl⟩

/-- What the two kinds of trigger keep, `InitTriggers` keeps. -/
theorem initTriggersFrom_induction {P : Action → Prop} {Q : Bytes → Prop}
    (read : act.initTriggersFrom i args = .ok res) (all : ∀ arg ∈ args, Q arg)
    (property : ∀ act next arg, Q arg → parsePropertyTrigger act arg = .ok next → P act → P next)
    (ev : ∀ act eventTrigger, P act → P { act with eventTrigger }) (beg : P act) : P res := by
  fun_induction initTriggersFrom act i args with
  | case1 => cases read; exact beg
  | case2 | case3 | case5 | case7 => cases read
  | case4 act i arg args _ _ _ ih => exact ih read (List.forall_mem_cons.mp all).2 beg
  | case6 act i arg args _ _ _ next trig ih =>
    obtain ⟨ofArg, late⟩ := List.forall_mem_cons.mp all
    exact ih read late (property act next arg ofArg trig beg)
  | case8 act i arg args _ _ _ _ ih => exact ih read (List.forall_mem_cons.mp all).2 (ev act arg beg)

end Parsed

/-- `InitSingleTrigger`: `none` when it returns false. -/
def initSingleTrigger (trigger : Bytes) : Option Action :=
  (action.initTriggers [trigger]).toOption

/-- The loop of `CheckPropertyTriggers`; `gp` is `GetProperty` with an
    empty default. -/
def checkPropertyTriggersFrom (gp : Bytes → Bytes) (n v : Bytes) (found : Bool) :
    List (Bytes × Bytes) → Bool
  | [] => found
  | (triggerName, triggerValue) :: rest =>
    if triggerName = n then
      if triggerValue ≠ ascii "*" ∧ triggerValue ≠ v then false
      else checkPropertyTriggersFrom gp n v true rest
    else
      let propVal := gp triggerName
      if propVal = [] ∨ (triggerValue ≠ ascii "*" ∧ triggerValue ≠ propVal) then false
      else checkPropertyTriggersFrom gp n v found rest

def checkPropertyTriggers (n v : Bytes) : Bool :=
  if action.propertyTriggers.isEmpty then true
  else checkPropertyTriggersFrom gp n v n.isEmpty action.propertyTriggers

def checkEventTrigger (trigger : Bytes) : Bool :=
  !action.eventTrigger.isEmpty && trigger == action.eventTrigger && action.checkPropertyTriggers gp [] []

def checkPropertyTrigger (n v : Bytes) : Bool :=
  action.eventTrigger.isEmpty && action.checkPropertyTriggers gp n v

def triggersEqual (act o : Action) : Bool :=
  act.propertyTriggers == o.propertyTriggers && act.eventTrigger == o.eventTrigger

end Action

/-! ## Triggers -/

inductive Trigger where
  | event (trigger : Bytes)
  | property (n v : Bytes)
  | builtin (act : Nat)
deriving DecidableEq

def Trigger.checkTriggers (gp : Bytes → Bytes) (trigger : Trigger) (act : Action) : Bool :=
  match trigger with
  | .event fired => act.checkEventTrigger gp fired
  | .property n v => act.checkPropertyTrigger gp n v
  | .builtin addr => addr == act.addr

/-! ## The action manager -/

/-- `actions` are the objects of `actions_`; `currentExecutingActions` holds
    addresses only. -/
structure ActionManager where
  actions : List Action := []
  triggerQueue : List Trigger := []
  currentExecutingActions : List Nat := []
  currentCommand : Nat := 0

namespace ActionManager

variable (mgr : ActionManager) (addr : Nat)

def addAction (act : Action) : ActionManager :=
  match mgr.actions.findIdx? act.triggersEqual with
  | some i => { mgr with actions := mgr.actions.modify i (·.combineAction act) }
  | none => { mgr with actions := mgr.actions ++ [act] }

def push (trigger : Trigger) : ActionManager :=
  { mgr with triggerQueue := mgr.triggerQueue ++ [trigger] }

def queueEventTrigger (trigger : Bytes) : ActionManager :=
  mgr.push (.event trigger)

def queuePropertyTrigger (n v : Bytes) : ActionManager :=
  mgr.push (.property n v)

def queueAllPropertyTriggers : ActionManager :=
  mgr.queuePropertyTrigger [] []

/-- The action that `QueueBuiltinAction` allocates, if its name is a trigger. -/
def builtinAction (func : BuiltinFunction) (n : Bytes) : Option Action :=
  (({ addr, oneshot := true } : Action).initSingleTrigger n).map (·.addCommand func [n] [] 0)

def queueBuiltinAction (func : BuiltinFunction) (n : Bytes) : ActionManager :=
  match builtinAction addr func n with
  | none => mgr
  | some act =>
    { mgr.push (.builtin addr) with actions := mgr.actions ++ [act] }

/-- What a trigger puts into the executing queue. -/
def matching (gp : Bytes → Bytes) (actions : List Action) (trigger : Trigger) : List Action :=
  actions.filter (trigger.checkTriggers gp)

def dequeue (gp : Bytes → Bytes) (actions : List Action) :
    List Trigger → List Trigger × List Action × List Trigger
  | [] => ([], [], [])
  | trigger :: queue =>
    match matching gp actions trigger with
    | [] =>
      let (popped, executing, left) := dequeue gp actions queue
      (trigger :: popped, executing, left)
    | first :: rest => ([trigger], first :: rest, queue)

/-- The loop of `ExecuteOneCommand`: the triggers it pops, and the manager. -/
def dequeueTriggers (gp : Bytes → Bytes) (mgr : ActionManager) :
    List Trigger × ActionManager :=
  match mgr.currentExecutingActions with
  | _ :: _ => ([], mgr)
  | [] =>
    let (popped, executing, left) := dequeue gp mgr.actions mgr.triggerQueue
    (popped, { mgr with
      triggerQueue := left, currentExecutingActions := executing.map Action.addr })

/-- The object at an address, if it is alive. -/
def deref : Option Action :=
  mgr.actions.find? (·.addr = addr)

/-- The command that `action->ExecuteOneCommand(current_command_)` copies. -/
def command : Option Command :=
  match mgr.deref addr with
  | none => none
  | some act => act.commands[mgr.currentCommand]?

/-- `actions_.erase(std::remove_if(...))`: with no match it would erase the end
    iterator, with several it would leave null pointers behind. -/
def eraseAction : Option ActionManager :=
  if (mgr.actions.filter (·.addr = addr)).length = 1 then
    some { mgr with actions := mgr.actions.filter (·.addr ≠ addr) }
  else none

/-- `ExecuteOneCommand` after the command, for `act` at the given address. -/
def endCommand : Option ActionManager :=
  match mgr.deref addr with
  | none => none
  | some act =>
    let cursor := mgr.currentCommand + 1
    if cursor = act.numCommands then
      let popped := { mgr with
        currentExecutingActions := mgr.currentExecutingActions.tail, currentCommand := 0 }
      if act.oneshot then popped.eraseAction addr else some popped
    else some { mgr with currentCommand := cursor }

def hasMoreCommands : Bool :=
  !mgr.currentExecutingActions.isEmpty || !mgr.triggerQueue.isEmpty

end ActionManager

/-! ## The parser of `on` sections -/

/-- `ActionParser`: the section being parsed. -/
structure ActionParser where
  action : Option Action := none

namespace ActionParser

def parseSection (parser : ActionParser) (addr : Nat) (args : List Bytes) :
    Except Bytes ActionParser :=
  let triggers := args.drop 1
  if triggers.length < 1 then .error (ascii "actions must have a trigger")
  else
    match ({ addr } : Action).initTriggers triggers with
    | .error err => .error err
    | .ok act => .ok { parser with action := some act }

def parseLineSection (fmap : Option (KeywordMap BuiltinFunction)) (parser : ActionParser)
    (args : List Bytes) (f : Bytes) (l : Nat) : Except Bytes ActionParser :=
  match parser.action with
  | none => .error []
  | some act =>
    match act.addParsedCommand fmap args f l with
    | .error err => .error err
    | .ok act => .ok { parser with action := some act }

/-- The action that `EndSection` hands to `AddAction`, and the parser after it. -/
def endSection (parser : ActionParser) : Option Action × ActionParser :=
  match parser.action with
  | some act => if act.numCommands > 0 then (some act, {}) else (none, parser)
  | none => (none, parser)

end ActionParser

end Aosp.Init
