import Aosp.Init.ServiceOptions
import Aosp.Init.TokenReading

/-! # Sections of `.rc` files

Model of `Parser::ParseData` of `init/init_parser.cpp` with the section parsers that
`init.cpp` registers: `ServiceParser`, `ActionParser` and `ImportParser`, and of
`expand_props`, which the last one calls.

The loop of `ParseData` only strings together two things that know nothing of each
other: the tokenizer, which turns the text into numbered argument lists
(`lines`), and `handleLine`, which hands one list to the section parsers.
`parseData_eq` says so, and everything about sections is then a fact about a fold
over lines.
-/

namespace Aosp.Init

open Aosp.Lib List Option

/-! ## Property expansion -/

def dollar : UInt8 := 36
def openBrace : UInt8 := 123
def closeBrace : UInt8 := 125

def findString (needle : Bytes) : Bytes → Option Nat
  | [] => if needle = [] then some 0 else none
  | c :: rest => if needle <+: c :: rest then some 0 else (findString needle rest).map (· + 1)

/-- The name and the default of `${name}` or `${name:-default}`. -/
def splitDefault (inside : Bytes) : Bytes × Bytes :=
  match findString (ascii ":-") inside with
  | some i => (inside.take i, inside.drop (i + 2))
  | none => (inside, [])

/-- The loop of `expand_props` at `src`: what `dst` is in the end, and what is
    returned. -/
def expandPropsFrom (gp : Bytes → Bytes) : Nat → Bytes → Bytes → Option (Bytes × Bool)
  | 0, _, _ => none
  | fuel + 1, src, dst =>
    if src = [] then some (dst, true)
    else
      match strchr src dollar with
      | none => some (dst ++ src, true)
      | some i =>
        let dst := dst ++ src.take i
        let v (n defaultValue post : Bytes) : Option (Bytes × Bool) :=
          if n = [] then some (dst, false)
          else if gp n ≠ [] then expandPropsFrom gp fuel post (dst ++ gp n)
          else if defaultValue ≠ [] then expandPropsFrom gp fuel post (dst ++ defaultValue)
          else some (dst, false)
        match src.drop (i + 1) with
        | [] => some (dst, true)
        | c :: rest =>
          if c = dollar then expandPropsFrom gp fuel rest (dst ++ [c])
          else if c = openBrace then
            match strchr rest closeBrace with
            | none => some (dst, false)
            | some close =>
              let (n, defaultValue) := splitDefault (rest.take close)
              v n defaultValue (rest.drop (close + 1))
          -- the deprecated syntax: the name is everything that is left
          else v (c :: rest) [] []

def expandProps (gp : Bytes → Bytes) (src dst : Bytes) : Option (Bytes × Bool) :=
  expandPropsFrom gp ((cstr src).length + 1) (cstr src) dst

/-! ## The section parsers -/

/-- The section parsers of `init.cpp`. -/
inductive SectionKind where
  | service
  | on
  | imports
deriving DecidableEq

def sectionParsers (keyword : Bytes) : Option SectionKind :=
  if keyword = ascii "service" then some .service
  else if keyword = ascii "on" then some .on
  else if keyword = ascii "import" then some .imports
  else none

/-- The state of the section parsers, `action_`, `service_` and `imports_`, and of
    the two managers they register with. -/
structure Registry where
  actionParser : ActionParser := {}
  service : Option ServiceDefinition := none
  imports : List Bytes := []
  actionManager : ActionManager := {}
  services : List ServiceDefinition := []

/-- `allocate` is the address a new `Action` gets. -/
structure SectionEnv where
  options : OptionEnv
  getProperty : Bytes → Bytes
  allocate : Registry → Nat

namespace Registry

variable (e : SectionEnv) (kind : SectionKind) (reg : Registry) (args : List Bytes)

def addService (svc : ServiceDefinition) : Registry :=
  match reg.services.find? fun old => old.name = svc.name with
  | some _ => reg
  | none => { reg with services := reg.services ++ [svc] }

/-- The registry after a call of `ActionParser`, with the error when it returned false. -/
def afterAction : Except Bytes ActionParser → Registry × Option Bytes
  | .error err => (reg, some err)
  | .ok actionParser => ({ reg with actionParser }, none)

/-- `ParseSection` of one of the parsers, with the error when it returns false. -/
def parseSection : Registry × Option Bytes :=
  match kind with
  | .on => reg.afterAction (reg.actionParser.parseSection (e.allocate reg) args)
  | .service =>
    if args.length < 3 then (reg, some (ascii "services must have a name and a program"))
    else
      let nm := args.getD 1 []
      if isValidName nm then ({ reg with service := some (.new nm (args.drop 2)) }, none)
      else (reg, some (ascii "invalid service name '" ++ cstr nm ++ ascii "'"))
  | .imports =>
    if args.length ≠ 2 then (reg, some (ascii "single argument needed for import\n"))
    else
      match expandProps e.getProperty (args.getD 1 []) [] with
      | some (confFile, true) => ({ reg with imports := reg.imports ++ [confFile] }, none)
      | _ => (reg, some (ascii "error while expanding import"))

def parseLineSection (f : Bytes) (l : Nat) : Registry × Option Bytes :=
  match kind with
  | .on =>
    reg.afterAction (reg.actionParser.parseLineSection e.options.functionMap args f l)
  | .service =>
    match reg.service with
    | none => (reg, some [])
    | some svc =>
      let (svc, err) := svc.parseLine e.options args
      ({ reg with service := some svc }, err)
  | .imports => (reg, none)

def endSection : Registry :=
  match kind with
  | .on =>
    match reg.actionParser.endSection with
    | (some action, actionParser) =>
      { reg with actionParser, actionManager := reg.actionManager.addAction action }
    | (none, actionParser) => { reg with actionParser }
  | .service =>
    match reg.service with
    | none => reg
    | some svc => { reg.addService svc with service := none }
  | .imports => reg

end Registry

/-! ## `ParseData` -/

/-- `section_parser` of `ParseData`, and the state it works on. -/
structure Cursor where
  sectionParser : Option SectionKind
  registry : Registry

namespace Cursor

/-- `if (section_parser) section_parser->EndSection()`. -/
def finish (cursor : Cursor) : Registry :=
  match cursor.sectionParser with
  | some kind => cursor.registry.endSection kind
  | none => cursor.registry

/-- What `ParseData` does with a non-empty list of arguments. -/
def handleLine (e : SectionEnv) (f : Bytes) (cursor : Cursor) (l : List Bytes × Nat) : Cursor :=
  match sectionParsers (l.1.headD []) with
  | some kind =>
    match cursor.finish.parseSection e kind l.1 with
    | (reg, none) => ⟨some kind, reg⟩
    | (reg, some _) => ⟨none, reg⟩
  | none =>
    match cursor.sectionParser with
    | some kind => { cursor with registry := (cursor.registry.parseLineSection e kind l.1 f l.2).1 }
    | none => cursor

end Cursor

def parseLoop (e : SectionEnv) (f : Bytes) : Nat → ParseState → List Bytes → Cursor → Option Registry
  | 0, _, _, _ => none
  | fuel + 1, s, args, cursor =>
    match nextToken s with
    | (.eof, _) => some cursor.finish
    | (.newline, s) =>
      let s := { s with line := s.line + 1 }
      if args = [] then parseLoop e f fuel s [] cursor
      else parseLoop e f fuel s [] (cursor.handleLine e f (args, s.line))
    | (.text text, s) => parseLoop e f fuel s (args ++ [text]) cursor

def parseData (e : SectionEnv) (f data : Bytes) (reg : Registry) : Option Registry :=
  parseLoop e f (2 * data.length + 1) { ptr := data } [] ⟨none, reg⟩

/-- The lines of a text, handled one after the other. -/
def Cursor.handleLines (e : SectionEnv) (f : Bytes) (cursor : Cursor) (lines : List (List Bytes × Nat)) :
    Cursor :=
  lines.foldl (fun cursor l => cursor.handleLine e f l) cursor

theorem parseLoop_eq (e : SectionEnv) (f : Bytes) (fl : Nat) (s : ParseState) (args : List Bytes) (csr : Cursor) :
    parseLoop e f fl s args csr = (tokenLines fl s args).map fun lns => (csr.handleLines e f lns).finish := by
  induction fl generalizing s args csr with
  | zero => rfl
  | succ fl ih =>
    rw [parseLoop, tokenLines]
    rcases nextToken s with ⟨tok, post⟩
    cases tok with
    | eof => rfl
    | text t => exact ih _ _ _
    | newline =>
      by_cases blank : args = []
      · simp [blank, ih]
      · simp [blank, ih, Cursor.handleLines, Function.comp_def]

def Registry.afterData (e : SectionEnv) (f : Bytes) (reg : Registry) (data : Bytes) : Registry :=
  (Cursor.handleLines e f ⟨none, reg⟩ (lines data)).finish

/-- `ParseData` returns, and has handled the lines of the text. -/
theorem parseData_eq (e : SectionEnv) (f data : Bytes) (reg : Registry) :
    parseData e f data reg = some (reg.afterData e f data) := by
  rw [parseData, parseLoop_eq, tokenLines_eq (Nat.lt_succ_self _)]
  rfl

/-! ## Line numbers and addresses do not matter

Commands keep the number of their line and actions have an address, but no
section parser looks at either. -/

def Command.forget (cmd : Command) : Command := { cmd with line := 0 }

namespace Action

def forget (act : Action) : Action :=
  { act with addr := 0, commands := act.commands.map Command.forget }

@[simp] theorem forget_forget (act : Action) : act.forget.forget = act.forget := by
  simp [forget, Command.forget]

theorem combineAction_forget (act o : Action) : (act.combineAction o).forget = act.forget.combineAction o.forget := by
  simp [forget, combineAction]

theorem parsePropertyTrigger_addr (act : Action) (trig : Bytes) (addr : Nat) :
    { act with addr }.parsePropertyTrigger trig = (act.parsePropertyTrigger trig).map ({ · with addr }) := by
  simp only [parsePropertyTrigger]
  split
  · rfl
  · split <;> rfl

theorem initTriggersFrom_addr (act : Action) (i : Nat) (args : List Bytes) (addr : Nat) :
    { act with addr }.initTriggersFrom i args = (act.initTriggersFrom i args).map ({ · with addr }) := by
  induction args generalizing act i with
  | nil => rfl
  | cons arg args ih =>
    simp only [initTriggersFrom, parsePropertyTrigger_addr]
    split
    · rfl
    split
    · split
      · rfl
      · exact ih _ _
    split
    · cases act.parsePropertyTrigger arg with
      | error => rfl
      | ok _ => exact ih _ _
    split
    · rfl
    · exact ih { act with eventTrigger := arg } _

theorem initTriggers_forget (addr o : Nat) (trs : List Bytes) : (({ addr } : Action).initTriggers trs).map forget =
      (({ addr := o } : Action).initTriggers trs).map forget := by
  have went := initTriggersFrom_addr { addr := o } 0 trs addr
  rw [initTriggers, initTriggers]
  rw [went]
  cases ({ addr := o } : Action).initTriggersFrom 0 trs <;> rfl

theorem addParsedCommand_forget (fmap : Option (KeywordMap BuiltinFunction)) (act : Action)
    (args : List Bytes) (f : Bytes) (l o : Nat) : (act.addParsedCommand fmap args f l).map forget =
      (act.forget.addParsedCommand fmap args f o).map forget := by
  unfold addParsedCommand
  split
  · rfl
  split
  · rfl
  split
  · rfl
  · simp [Except.map, addCommand, forget, Command.forget]

end Action

theorem ActionManager.addAction_forget (mgr : ActionManager) (act : Action) :
    (mgr.addAction act).actions.map Action.forget =
      (({ actions := mgr.actions.map Action.forget } : ActionManager).addAction act.forget).actions := by
  have sameTest : (act.forget.triggersEqual ∘ Action.forget) = act.triggersEqual := rfl
  simp only [addAction, List.findIdx?_map, sameTest]
  split
  · apply ext_getElem?
    intro j
    simp only [List.getElem?_map, List.getElem?_modify]
    cases mgr.actions[j]? with
    | none => rfl
    | some old =>
      simp only [Option.map_eq_map, Option.map_some, Option.some.injEq]
      split
      · exact old.combineAction_forget act
      · rfl
  · simp

namespace ActionParser

def forget (parser : ActionParser) : ActionParser := ⟨parser.action.map Action.forget⟩

@[simp] theorem forget_forget (psr : ActionParser) : psr.forget.forget = psr.forget := by
  simp [forget, Function.comp_def]

/-- An action that is put into the parser, seen without line numbers and addresses. -/
theorem store_forget (psr : ActionParser) (res : Except Bytes Action) :
    Except.map forget (match res with
      | .error err => .error err
      | .ok act => .ok { psr with action := some act }) = (res.map Action.forget).map fun act => ⟨some act⟩ := by
  cases res <;> rfl

theorem parseSection_forget (psr o : ActionParser) (addr otherAddr : Nat) (args : List Bytes) :
    (psr.parseSection addr args).map forget = (o.parseSection otherAddr args).map forget := by
  have eq := Action.initTriggers_forget addr otherAddr (args.drop 1)
  simp only [parseSection]
  split
  · rfl
  · exact (store_forget psr _).trans ((congrArg _ eq).trans (store_forget o _).symm)

theorem parseLineSection_forget (fmap : Option (KeywordMap BuiltinFunction)) (psr : ActionParser)
    (args : List Bytes) (f : Bytes) (l o : Nat) : (psr.parseLineSection fmap args f l).map forget =
      (psr.forget.parseLineSection fmap args f o).map forget := by
  obtain ⟨act⟩ := psr
  cases act with
  | none => rfl
  | some act =>
    have eq := act.addParsedCommand_forget fmap args f l o
    exact (store_forget {} _).trans ((congrArg _ eq).trans (store_forget {} _).symm)

end ActionParser

namespace Registry

def forget (reg : Registry) : Registry :=
  { reg with
    actionParser := reg.actionParser.forget
    actionManager := { actions := reg.actionManager.actions.map Action.forget } }

theorem addAction_forget (mgr : ActionManager) (act : Action) :
    ({ actions := (mgr.addAction act).actions.map Action.forget } : ActionManager) =
      ({ actions := mgr.actions.map Action.forget } : ActionManager).addAction act.forget := by
  rw [mgr.addAction_forget act]
  simp only [ActionManager.addAction]
  split <;> rfl

theorem endSection_forget (kind : SectionKind) (reg : Registry) :
    (reg.endSection kind).forget = reg.forget.endSection kind := by
  obtain ⟨⟨act⟩, svc, imports, _, _⟩ := reg
  cases kind with
  | imports => rfl
  | service =>
    cases svc with
    | none => rfl
    | some svc =>
      simp only [endSection, forget, addService]
      split <;> rfl
  | on =>
    cases act with
    | none => rfl
    | some act =>
      have sameCount : act.forget.numCommands = act.numCommands := by
        simp [Action.numCommands, Action.forget]
      simp only [endSection, forget, ActionParser.forget, ActionParser.endSection, map_some, sameCount]
      by_cases hasCommands : act.numCommands > 0
      · simp [hasCommands, addAction_forget]
      · simp [hasCommands]

@[simp] theorem forget_forget (reg : Registry) : reg.forget.forget = reg.forget := by
  simp [forget]

theorem afterAction_forget (reg : Registry) {here there : Except Bytes ActionParser}
    (eq : here.map ActionParser.forget = there.map ActionParser.forget) :
    (reg.afterAction here).1.forget = (reg.forget.afterAction there).1.forget ∧
      (reg.afterAction here).2 = (reg.forget.afterAction there).2 := by
  cases here with
  | error _ =>
    cases there with
    | error => cases eq; exact ⟨reg.forget_forget.symm, rfl⟩
    | ok => cases eq
  | ok psr =>
    cases there with
    | error => cases eq
    | ok o =>
      have parsers : psr.forget = o.forget := Except.ok.inj eq
      exact ⟨by simp [afterAction, forget, parsers], rfl⟩

theorem parseSection_forget (e : SectionEnv) (kind : SectionKind) (reg : Registry) (args : List Bytes) :
    (reg.parseSection e kind args).1.forget = (reg.forget.parseSection e kind args).1.forget ∧
      (reg.parseSection e kind args).2 = (reg.forget.parseSection e kind args).2 := by
  cases kind with
  | service | imports =>
    simp only [parseSection]
    split
    · simp
    · split
      · exact ⟨by simp [forget], rfl⟩
      · simp
  | on => exact reg.afterAction_forget (ActionParser.parseSection_forget _ _ _ _ args)

theorem parseLineSection_forget (e : SectionEnv) (kind : SectionKind) (reg : Registry)
    (args : List Bytes) (f : Bytes) (l o : Nat) : (reg.parseLineSection e kind args f l).1.forget =
      (reg.forget.parseLineSection e kind args f o).1.forget := by
  cases kind with
  | imports => simp [parseLineSection]
  | service =>
    have sameService : reg.forget.service = reg.service := rfl
    simp only [parseLineSection, sameService]
    split
    · simp
    · simp [forget]
  | on => exact (reg.afterAction_forget (reg.actionParser.parseLineSection_forget _ _ _ _ _)).1

theorem parseSection_error {e : SectionEnv} {kind : SectionKind} {reg : Registry} {args : List Bytes}
    (fail : (reg.parseSection e kind args).2 ≠ none) : (reg.parseSection e kind args).1 = reg := by
  cases kind with
  | service | imports =>
    simp only [parseSection] at fail ⊢
    split
    · rfl
    · split <;> simp_all
  | on =>
    simp only [parseSection] at fail ⊢
    generalize reg.actionParser.parseSection _ args = res at fail ⊢
    cases res with
    | error => rfl
    | ok => exact absurd rfl fail

end Registry

namespace Cursor

variable {e : SectionEnv} {f : Bytes}

/-- The cursors agree up to line numbers and addresses. -/
def Similar (cursor o : Cursor) : Prop :=
  cursor.sectionParser = o.sectionParser ∧ cursor.registry.forget = o.registry.forget

variable {csr o : Cursor} {lns : List (List Bytes × Nat)}

theorem Similar.finish (similar : Similar csr o) : csr.finish.forget = o.finish.forget := by
  obtain ⟨kind, _⟩ := csr
  obtain ⟨_, _⟩ := o
  obtain ⟨otherKind, eq⟩ := similar
  cases otherKind
  cases kind with
  | none => exact eq
  | some kind =>
    simp only [Cursor.finish, Registry.endSection_forget]
    rw [eq]

theorem Similar.handleLine (similar : Similar csr o) {l otherLine : List Bytes × Nat} (sameArgs : l.1 = otherLine.1) :
    Similar (csr.handleLine e f l) (o.handleLine e f otherLine) := by
  have done := similar.finish
  simp only [Cursor.handleLine, sameArgs]
  cases sectionParsers _ with
  | some kind =>
    -- a new section starts from what the last one left, which is similar again
    have here := csr.finish.parseSection_forget e kind otherLine.1
    have there := o.finish.parseSection_forget e kind otherLine.1
    rw [done] at here
    have registries := here.1.trans there.1.symm
    have errors := here.2.trans there.2.symm
    dsimp only
    generalize csr.finish.parseSection e kind otherLine.1 = res at registries errors ⊢
    generalize o.finish.parseSection e kind otherLine.1 = otherResult at registries errors ⊢
    obtain ⟨_, err⟩ := res
    obtain ⟨_, _⟩ := otherResult
    cases errors
    cases err <;> exact ⟨rfl, registries⟩
  | none =>
    obtain ⟨sameSection, eq⟩ := similar
    rw [sameSection]
    cases o.sectionParser with
    | none => exact ⟨sameSection, eq⟩
    | some kind =>
      refine ⟨rfl, ?_⟩
      have here := csr.registry.parseLineSection_forget e kind otherLine.1 f l.2 otherLine.2
      have there := o.registry.parseLineSection_forget e kind otherLine.1 f otherLine.2 otherLine.2
      rw [eq] at here
      exact here.trans there.symm

theorem Similar.handleLines (similar : Similar csr o) {otherLines : List (List Bytes × Nat)}
    (sameArgs : lns.map Prod.fst = otherLines.map Prod.fst) :
    Similar (csr.handleLines e f lns) (o.handleLines e f otherLines) := by
  induction lns generalizing csr o otherLines with
  | nil =>
    obtain rfl : otherLines = [] := map_eq_nil_iff.mp sameArgs.symm
    exact similar
  | cons l lns ih =>
    cases otherLines with
    | nil => cases sameArgs
    | cons _ otherLines =>
      obtain ⟨head, tail⟩ := List.cons.inj sameArgs
      exact ih (similar.handleLine head) tail

theorem handleLines_append (csr : Cursor) (lns more : List (List Bytes × Nat)) :
    csr.handleLines e f (lns ++ more) = (csr.handleLines e f lns).handleLines e f more :=
  foldl_append

/-- Before a line with a section keyword, going on and starting afresh are the
    same: whatever section was open is ended first. -/
theorem finish_handleLines_opening (csr : Cursor)
    (hop : ∀ args ∈ (lns.map Prod.fst).head?, (sectionParsers (args.headD [])).isSome) :
    (csr.handleLines e f lns).finish = (Cursor.handleLines e f ⟨none, csr.finish⟩ lns).finish := by
  cases lns with
  | nil => rfl
  | cons l lns =>
    obtain ⟨_, kw⟩ := isSome_iff_exists.mp (hop l.1 rfl)
    have eq : csr.handleLine e f l = handleLine e f ⟨none, csr.finish⟩ l := by
      simp only [handleLine, kw]
      rfl
    simp only [handleLines, foldl_cons, eq]

theorem handleLines_outside (reg : Registry) (bare : ∀ args ∈ lns.map Prod.fst, sectionParsers (args.headD []) = none) :
    handleLines e f ⟨none, reg⟩ lns = ⟨none, reg⟩ := by
  induction lns with
  | nil => rfl
  | cons l lns ih =>
    simp only [map_cons, forall_mem_cons] at bare
    have skips : handleLine e f ⟨none, reg⟩ l = ⟨none, reg⟩ := by
      simp only [handleLine, bare.1]
    rw [handleLines, foldl_cons, skips]
    exact ih bare.2

end Cursor

/-! ## Sections are isolated -/

structure RegisteredConfig where
  actions : List Action
  services : List ServiceDefinition
  imports : List Bytes

def Registry.registered (reg : Registry) : RegisteredConfig where
  actions := reg.actionManager.actions.map Action.forget
  services := reg.services
  imports := reg.imports

theorem Registry.registered_of_forget {reg o : Registry} (eq : reg.forget = o.forget) :
    reg.registered = o.registered := by
  have view : ∀ reg : Registry, reg.registered = reg.forget.registered := by
    simp [registered, forget]
  rw [view, eq, ← view]

/-- The first line with tokens starts with a section keyword. -/
def OpensSection (data : Bytes) : Prop :=
  ∀ args ∈ ((lines data).map Prod.fst).head?, (sectionParsers (args.headD [])).isSome

/-- One section, whose `ParseSection` fails. -/
def FailedSection (e : SectionEnv) (reg : Registry) (data : Bytes) : Prop :=
  ∃ header tl kind, (lines data).map Prod.fst = header :: tl ∧
    sectionParsers (header.headD []) = some kind ∧ (reg.parseSection e kind header).2 ≠ none ∧
    ∀ args ∈ tl, sectionParsers (args.headD []) = none

namespace Registry

variable {e : SectionEnv} {f : Bytes}

theorem afterData_append (reg : Registry) {first snd : Bytes} (ends : EndsLine { ptr := first })
    (hop : OpensSection snd) :
    (reg.afterData e f (first ++ snd)).forget = ((reg.afterData e f first).afterData e f snd).forget := by
  have eq := lines_append ends snd
  rw [← map_append] at eq
  have beg : Cursor.Similar ⟨none, reg⟩ ⟨none, reg⟩ := ⟨rfl, rfl⟩
  have full : (reg.afterData e f _).forget =
      (Cursor.handleLines e f ⟨none, reg⟩ _).finish.forget :=
    (beg.handleLines eq).finish
  rw [Cursor.handleLines_append, Cursor.finish_handleLines_opening _ hop] at full
  exact full

theorem afterData_failed {reg : Registry} {bad : Bytes} (fail : FailedSection e reg bad) :
    reg.afterData e f bad = reg := by
  obtain ⟨_, _, _, split, kw, fails, bare⟩ := fail
  rw [afterData]
  cases badLines : lines bad with
  | nil => rw [badLines] at split; cases split
  | cons l rest =>
    rw [badLines] at split
    obtain ⟨rfl, rfl⟩ := List.cons.inj split
    have kept := parseSection_error fails
    have skips : Cursor.handleLine e f ⟨none, reg⟩ l = ⟨none, reg⟩ := by
      simp only [Cursor.handleLine, kw, Cursor.finish]
      split
      · rename_i res
        rw [res] at fails
        exact absurd rfl fails
      · rename_i res
        rw [res] at kept
        rw [← kept]
    rw [Cursor.handleLines, foldl_cons, skips]
    change (Cursor.handleLines e f ⟨none, reg⟩ rest).finish = reg
    rw [Cursor.handleLines_outside reg bare]
    rfl

end Registry

theorem FailedSection.opensSection {e : SectionEnv} {reg : Registry} {bad : Bytes}
    (fail : FailedSection e reg bad) (ends : EndsLine { ptr := bad }) (snd : Bytes) :
    OpensSection (bad ++ snd) := by
  obtain ⟨_, _, _, split, kw, -, -⟩ := fail
  intro _ first
  rw [lines_append ends, split, cons_append, List.head?_cons, mem_some] at first
  rw [← first, kw]
  rfl

/-- `ParseData` of two texts, the second of which starts with a section, registers
    what parsing them one after the other registers, and a failed section
    between them changes nothing. -/
theorem parseData_sections_isolated (e : SectionEnv) (f : Bytes) (reg : Registry)
    (first second : Bytes) (ends : EndsLine { ptr := first }) (opens : OpensSection second) :
    ∃ whole middle last, parseData e f (first ++ second) reg = some whole ∧ parseData e f first reg = some middle ∧
      parseData e f second middle = some last ∧ whole.registered = last.registered ∧
      ∀ bad, EndsLine { ptr := bad } → FailedSection e middle bad →
        ∃ withBad, parseData e f (first ++ bad ++ second) reg = some withBad ∧
          withBad.registered = last.registered := by
  refine ⟨_, _, _, parseData_eq _ _ _ _, parseData_eq _ _ _ _, parseData_eq _ _ _ _,
    Registry.registered_of_forget (reg.afterData_append ends opens), ?_⟩
  intro bad badEnds failed
  refine ⟨_, parseData_eq _ _ _ _, Registry.registered_of_forget ?_⟩
  rw [append_assoc]
  calc (reg.afterData e f _).forget
      = ((reg.afterData e f first).afterData e f _).forget :=
        reg.afterData_append ends (failed.opensSection badEnds second)
    _ = (((reg.afterData e f first).afterData e f bad).afterData e f second).forget :=
        (reg.afterData e f first).afterData_append badEnds opens
    _ = ((reg.afterData e f first).afterData e f second).forget := by
        rw [Registry.afterData_failed failed]

/-- A keyword map with one command, and none of the system calls of the service
    options. -/
def startOnlyEnv : SectionEnv where
  options :=
    { functionMap := some [(ascii "start", 1, 1, .builtin (ascii "start"))]
      decodeUid := fun _ => 0
      parseInt := fun _ => none
      strtoul8 := fun _ => 0
      capAmbientSupported := false
      lastValidCap := 0
      lookupCap := fun _ => -1
      priorityHighest := -20
      priorityLowest := 19 }
  getProperty := fun _ => []
  allocate := fun _ => 0

set_option maxRecDepth 8000 in
/-- The command behind the action without a trigger lands nowhere. -/
theorem parseData_sections_isolated_boot :
    ∃ withBad : Registry, parseData startOnlyEnv (ascii "init.rc")
        (ascii "on boot\n  start a\n" ++ ascii "on\n start b\n" ++ ascii "service s /bin/s\n") {} = some withBad ∧
      withBad.registered.actions.map (fun act => act.commands.map (·.args)) = [[[ascii "start", ascii "a"]]] ∧
      withBad.registered.services.map (·.name) = [ascii "s"] := by
  have endsOn : EndsLine { ptr := ascii "on boot\n  start a\n" } :=
    .more rfl (by decide) <| .more rfl (by decide) <| .more rfl (by decide) <| .more rfl (by decide) <|
      .more rfl (by decide) <| .last rfl rfl rfl
  have endsBad : EndsLine { ptr := ascii "on\n start b\n" } :=
    .more rfl (by decide) <| .more rfl (by decide) <| .more rfl (by decide) <| .more rfl (by decide) <|
      .last rfl rfl rfl
  have opens : OpensSection (ascii "service s /bin/s\n") := by
    intro _ first
    cases mem_def.mp first
    decide
  obtain ⟨_, middle, _, parsed, -, -, same, skips⟩ :=
    parseData_sections_isolated startOnlyEnv (ascii "init.rc") {} _ _ endsOn opens
  have failed : FailedSection startOnlyEnv middle (ascii "on\n start b\n") :=
    ⟨[ascii "on"], [[ascii "start", ascii "b"]], .on, by decide, by decide, nofun, by decide⟩
  obtain ⟨withBad, parsedBad, unchanged⟩ := skips _ endsBad failed
  have computed : (parseData startOnlyEnv (ascii "init.rc")
      (ascii "on boot\n  start a\n" ++ ascii "service s /bin/s\n") {}).map (fun reg =>
        (reg.registered.actions.map fun act => act.commands.map (·.args), reg.registered.services.map (·.name))) =
      some ([[[ascii "start", ascii "a"]]], [ascii "s"]) := by decide
  rw [parsed, map_some, some.injEq, Prod.mk.injEq] at computed
  rw [same, ← unchanged] at computed
  exact ⟨withBad, parsedBad, computed⟩

end Aosp.Init
