import Aosp.Lib.Run
import Aosp.Lib.Stacks

/-! # Class initialization

`ClassLinker::InitializeClass` with `WaitForInitializeClass` and
`InitializeDefaultInterfaceRecursive`, driven by any number of threads.  A thread
has a stack of calls: the initialization of a class calls that of its superclass
and of its interfaces, and the static initializer of a class is code of the user
that may cause any further initialization.  Each section under the lock of a
class is one step; where `VerifyClass` is called inside such a section the lock
may be given up, so the section is cut there.

Full initialization is allowed (`can_init_statics`, `can_init_parents`), so
`CanWeInitializeClass` answers true.  The checks that abort the runtime are left
out: they only take runs away.  `InitMove` lists what a step can do.
-/

namespace Aosp.Art

open Aosp.Lib
open Function (update update_of_ne update_self)

/-- `Class::Status`, as far as initialization tells the values apart; the id of the initializing thread is read only
    while the class is initializing. -/
inductive ClassStatus where
  | notVerified
  | verified
  | initializing (clinitThreadId : Nat)
  | initialized
  | erroneous
deriving DecidableEq

structure ClassHierarchy (C : Type) where
  isInterface : C → Bool
  superClass : C → Option C
  directInterfaces : C → List C
  hasDefaultMethods : C → Bool
  /-- Whether `FindClassInitializer` finds a static initializer. -/
  hasClassInitializer : C → Bool
  isAotCompiler : Bool

/-- How far a call of `InitializeClass` is. -/
inductive InitPhase (C : Type) where
  /-- Before the check without the lock. -/
  | entered
  /-- Before the class is locked. -/
  | locking
  /-- In `VerifyClass`. -/
  | verifying
  /-- In `WaitForInitializeClass`. -/
  | waiting
  /-- The class is marked as initializing by this thread. -/
  | superClass
  /-- In `InitializeClass` of the superclass. -/
  | inSuper
  /-- The direct interfaces that are still to be looked at. -/
  | interfaces (tl : List C)
  | inInterface (ifc : C) (tl : List C)
  /-- The superclass or an interface has failed. -/
  | failed
  | staticValues
  /-- In the static initializer. -/
  | clinit
  /-- Before the class is locked again. -/
  | finishing
deriving DecidableEq

/-- How far a call of `InitializeDefaultInterfaceRecursive` is. -/
inductive InterfacePhase (C : Type) where
  | superInterfaces (tl : List C)
  | inSuperInterface (superIf : C) (tl : List C)
  /-- In `EnsureInitialized` of the interface itself. -/
  | ensuring
  /-- Before the interface is marked. -/
  | marking
  | failed
deriving DecidableEq

inductive InitFrame (C : Type) where
  | initializeClass (klass : C) (ph : InitPhase C)
  | initializeDefaultInterface (ifc : C) (ph : InterfacePhase C)
deriving DecidableEq

inductive InitEvent (C : Type) where
  | clinitStarted (thr : Nat) (klass : C)
  | returned (thr : Nat) (klass : C) (res : Bool)
deriving DecidableEq

structure InitState (C : Type) where
  status : C → ClassStatus
  recursivelyInitialized : C → Bool
  exceptionPending : Nat → Bool
  threads : Stacks (InitFrame C)
  log : List (InitEvent C)

open ClassHierarchy

section

variable {C : Type}

/-- Every class is resolved, none has been touched. -/
def InitState.start : InitState C :=
  ⟨fun _ => .notVerified, fun _ => false, fun _ => false, fun _ => [], []⟩

section

variable (hier : ClassHierarchy C) (s : InitState C) (self : Nat) (klass : C)

def InitState.goto (frs : List (InitFrame C)) : InitState C :=
  { s with threads := update s.threads self frs }

def InitState.record (ev : InitEvent C) : InitState C :=
  { s with log := s.log ++ [ev] }

def InitState.throw (pending : Bool) : InitState C :=
  { s with exceptionPending := update s.exceptionPending self pending }

/-- The interfaces that `InitializeClass` looks at. -/
def ClassHierarchy.interfacesOf : List C :=
  if hier.isInterface klass then [] else hier.directInterfaces klass

def ClassHierarchy.directSuperclass : Option C :=
  if hier.isInterface klass then none else hier.superClass klass

/-- How the caller goes on when the call it has made returns. -/
def ClassHierarchy.resume (res : Bool) : InitFrame C → InitFrame C
  | .initializeClass klass .inSuper =>
    .initializeClass klass (if res then .interfaces (hier.interfacesOf klass) else .failed)
  | .initializeClass klass (.inInterface _ rest) => .initializeClass klass (if res then .interfaces rest else .failed)
  | .initializeDefaultInterface iface (.inSuperInterface _ rest) =>
    .initializeDefaultInterface iface (if res then .superInterfaces rest else .failed)
  | .initializeDefaultInterface iface .ensuring => .initializeDefaultInterface iface (if res then .marking else .failed)
  | frame => frame

def ClassHierarchy.resumeTop (res : Bool) : List (InitFrame C) → List (InitFrame C)
  | [] => []
  | caller :: below => hier.resume res caller :: below

/-- A call returns: false leaves an exception behind. -/
def ClassHierarchy.ret (tl : List (InitFrame C)) (res : Bool) : InitState C :=
  (s.goto self (hier.resumeTop res tl)).throw self (s.exceptionPending self || !res)

def ClassHierarchy.retInit (tl : List (InitFrame C)) (res : Bool) : InitState C :=
  (hier.ret s self tl res).record (.returned self klass res)

end

section Fields

variable (hier : ClassHierarchy C) (s : InitState C) (self : Nat) (kl : C)
  (tl : List (InitFrame C)) (res : Bool)

@[simp] theorem goto_threads_self (frs : List (InitFrame C)) : (s.goto self frs).threads self = frs :=
  update_self ..

@[simp] theorem record_threads (ev : InitEvent C) : (s.record ev).threads = s.threads := rfl

@[simp] theorem throw_threads (pd : Bool) : (s.throw self pd).threads = s.threads := rfl

@[simp] theorem ret_threads_self : (hier.ret s self tl res).threads self = hier.resumeTop res tl :=
  update_self ..

@[simp] theorem retInit_threads_self : (hier.retInit s self kl tl res).threads self = hier.resumeTop res tl :=
  update_self ..

@[simp] theorem retInit_status : (hier.retInit s self kl tl res).status = s.status := rfl

@[simp] theorem retInit_log : (hier.retInit s self kl tl res).log = s.log ++ [.returned self kl res] := rfl

end Fields

inductive InitLabel (C : Type) where
  /-- Code of the user causes the initialization of a class. -/
  | call (self : Nat) (klass : C)
  /-- Code of the user throws or catches. -/
  | exception (self : Nat) (pending : Bool)
  /-- Some thread has verified the class. -/
  | verify (klass : C) (okay : Bool)
  /-- The thread goes on.  The flag is what code outside the modelled functions answers: whether
  `ValidateSuperClassDescriptors` fails, the static values or the static initializer throw, or the transaction is
  aborted. -/
  | advance (self : Nat) (fails : Bool)

/-- The thread that takes the step; verification is not told apart by thread. -/
def InitLabel.self : InitLabel C → Nat
  | .call self _ | .exception self _ | .advance self _ => self
  | .verify _ _ => 0

/-- Whether code of the user runs on top of the stack. -/
def inUserCode : List (InitFrame C) → Bool
  | [] => true
  | .initializeClass _ .clinit :: _ => true
  | _ => false

variable [DecidableEq C]

section

variable (hier : ClassHierarchy C) (s : InitState C) (self : Nat) (klass : C) (tl : List
  (InitFrame C))

def InitState.setStatus (status : ClassStatus) : InitState C :=
  { s with status := update s.status klass status }

@[simp] theorem setStatus_self (s : InitState C) (kl : C) (sts : ClassStatus) : (s.setStatus kl sts).status kl = sts :=
  update_self ..

theorem setStatus_of_ne (s : InitState C) {kl o : C} (ne : o ≠ kl)
    (sts : ClassStatus) : (s.setStatus kl sts).status o = s.status o :=
  update_of_ne ne ..

/-- The section under the lock from the check for `kStatusInitializing` on. -/
def ClassHierarchy.lockSection (fails : Bool) : Option (InitState C) :=
  match s.status klass with
  | .initializing clinitThreadId =>
    if s.exceptionPending self then some (hier.retInit s self klass tl false)
    else if clinitThreadId = self then some (hier.retInit s self klass tl true)
    else some (s.goto self (.initializeClass klass .waiting :: tl))
  | .verified =>
    if fails then some (hier.retInit (s.setStatus klass .erroneous) self klass tl false)
    else some ((s.setStatus klass (.initializing self)).goto self (.initializeClass klass .superClass :: tl))
  | _ => none

def ClassHierarchy.advanceClass (fails : Bool) : InitPhase C → Option (InitState C)
  | .entered =>
    if s.status klass = .initialized then some (hier.retInit s self klass tl true)
    else some (s.goto self (.initializeClass klass .locking :: tl))
  | .locking =>
    match s.status klass with
    | .initialized => some (hier.retInit s self klass tl true)
    | .erroneous => some (hier.retInit s self klass tl false)
    | .notVerified => some (s.goto self (.initializeClass klass .verifying :: tl))
    | _ => hier.lockSection s self klass tl fails
  | .verifying =>
    match s.status klass with
    | .notVerified => none
    | .erroneous => some (hier.retInit s self klass tl false)
    | .initialized => some (hier.retInit s self klass tl true)
    | _ => hier.lockSection s self klass tl fails
  | .waiting =>
    if s.exceptionPending self then
      some (hier.retInit (s.setStatus klass .erroneous) self klass tl false)
    else
      match s.status klass with
      | .initializing _ => none
      | .verified => if hier.isAotCompiler then some (hier.retInit s self klass tl false) else none
      | .erroneous => some (hier.retInit s self klass tl false)
      | .initialized => some (hier.retInit s self klass tl true)
      | .notVerified => none
  | .superClass =>
    match hier.directSuperclass klass with
    | none => some (s.goto self (.initializeClass klass (.interfaces (hier.interfacesOf klass)) :: tl))
    | some super =>
      if s.status super = .initialized then
        some (s.goto self (.initializeClass klass (.interfaces (hier.interfacesOf klass)) :: tl))
      else some (s.goto self (.initializeClass super .entered :: .initializeClass klass .inSuper :: tl))
  | .interfaces [] => some (s.goto self (.initializeClass klass .staticValues :: tl))
  | .interfaces (ifc :: more) =>
    if s.recursivelyInitialized ifc then some (s.goto self (.initializeClass klass (.interfaces more) :: tl))
    else
      some (s.goto self (.initializeDefaultInterface ifc (.superInterfaces (hier.directInterfaces ifc)) ::
        .initializeClass klass (.inInterface ifc more) :: tl))
  | .failed => some (hier.retInit (s.setStatus klass .erroneous) self klass tl false)
  | .staticValues =>
    let pending := s.exceptionPending self || fails
    if !pending && hier.hasClassInitializer klass then
      some ((s.goto self (.initializeClass klass .clinit :: tl)).record (.clinitStarted self klass))
    else some ((s.goto self (.initializeClass klass .finishing :: tl)).throw self pending)
  | .clinit => some ((s.goto self (.initializeClass klass .finishing :: tl)).throw self fails)
  | .finishing =>
    if s.exceptionPending self || fails then
      some (hier.retInit (s.setStatus klass .erroneous) self klass tl false)
    else some (hier.retInit (s.setStatus klass .initialized) self klass tl true)
  | .inSuper => none
  | .inInterface _ _ => none

def ClassHierarchy.advanceInterface
    (ifc : C) (tl : List (InitFrame C)) : InterfacePhase C → Option (InitState C)
  | .superInterfaces [] =>
    if hier.hasDefaultMethods ifc && s.status ifc ≠ .initialized then
      some (s.goto self (.initializeClass ifc .entered :: .initializeDefaultInterface ifc .ensuring :: tl))
    else some (s.goto self (.initializeDefaultInterface ifc .marking :: tl))
  | .superInterfaces (superIf :: more) =>
    if s.recursivelyInitialized superIf then
      some (s.goto self (.initializeDefaultInterface ifc (.superInterfaces more) :: tl))
    else
      some (s.goto self
        (.initializeDefaultInterface superIf (.superInterfaces (hier.directInterfaces superIf)) ::
          .initializeDefaultInterface ifc (.inSuperInterface superIf more) :: tl))
  | .marking =>
    let marked := { s with recursivelyInitialized := update s.recursivelyInitialized ifc true }
    some (hier.ret marked self tl true)
  | .failed => some (hier.ret s self tl false)
  | .ensuring => none
  | .inSuperInterface _ _ => none

def ClassHierarchy.step : InitLabel C → Option (InitState C)
  | .call self klass =>
    if inUserCode (s.threads self) then
      some (s.goto self (.initializeClass klass .entered :: s.threads self))
    else none
  | .exception self pending => if inUserCode (s.threads self) then some (s.throw self pending) else none
  | .verify klass okay =>
    if s.status klass = .notVerified then
      some (s.setStatus klass (if okay then .verified else .erroneous))
    else none
  | .advance self fails =>
    match s.threads self with
    | [] => none
    | .initializeClass klass phase :: tl => hier.advanceClass s self klass tl fails phase
    | .initializeDefaultInterface iface phase :: tl => hier.advanceInterface s self iface tl phase

end

/-! ## What a step can do -/

/-- The frame on top goes on, possibly with a call; classes and marks stay as they are. -/
inductive InitTurn (hier : ClassHierarchy C) (s : InitState C) (self : Nat) :
    InitFrame C → List (InitFrame C) → Prop where
  | lock (klass) : InitTurn hier s self (.initializeClass klass .entered) [.initializeClass klass .locking]
  | verify (klass) : InitTurn hier s self (.initializeClass klass .locking) [.initializeClass klass .verifying]
  | wait {klass phase} (locked : phase = .locking ∨ phase = .verifying) (quiet : s.exceptionPending self = false) :
      InitTurn hier s self (.initializeClass klass phase) [.initializeClass klass .waiting]
  | superDone {klass} (ready : ∀ super, hier.directSuperclass klass = some super → s.status super = .initialized) :
      InitTurn hier s self (.initializeClass klass .superClass)
        [.initializeClass klass (.interfaces (hier.interfacesOf klass))]
  | callSuper {klass super} (isSuper : hier.directSuperclass klass = some super) :
      InitTurn hier s self (.initializeClass klass .superClass)
        [.initializeClass super .entered, .initializeClass klass .inSuper]
  | interfacesDone (klass) :
      InitTurn hier s self (.initializeClass klass (.interfaces [])) [.initializeClass klass .staticValues]
  | skipInterface {klass ifc more} (marked : s.recursivelyInitialized ifc = true) :
      InitTurn hier s self (.initializeClass klass (.interfaces (ifc :: more)))
        [.initializeClass klass (.interfaces more)]
  | callInterface (klass ifc more) :
      InitTurn hier s self (.initializeClass klass (.interfaces (ifc :: more)))
        [.initializeDefaultInterface ifc (.superInterfaces (hier.directInterfaces ifc)),
          .initializeClass klass (.inInterface ifc more)]
  | ensure {ifc} (hasDefault : hier.hasDefaultMethods ifc = true) :
      InitTurn hier s self (.initializeDefaultInterface ifc (.superInterfaces []))
        [.initializeClass ifc .entered, .initializeDefaultInterface ifc .ensuring]
  | ensured {ifc} (ready : hier.hasDefaultMethods ifc = true → s.status ifc = .initialized) :
      InitTurn hier s self (.initializeDefaultInterface ifc (.superInterfaces []))
        [.initializeDefaultInterface ifc .marking]
  | skipSuperInterface {ifc superIf more} (marked : s.recursivelyInitialized superIf = true) :
      InitTurn hier s self (.initializeDefaultInterface ifc (.superInterfaces (superIf :: more)))
        [.initializeDefaultInterface ifc (.superInterfaces more)]
  | callSuperInterface (ifc superIf more) :
      InitTurn hier s self (.initializeDefaultInterface ifc (.superInterfaces (superIf :: more)))
        [.initializeDefaultInterface superIf (.superInterfaces (hier.directInterfaces superIf)),
          .initializeDefaultInterface ifc (.inSuperInterface superIf more)]

/-- Phases in which the call has marked the class as initializing. -/
def InitPhase.owns : InitPhase C → Bool
  | .entered | .locking | .verifying | .waiting => false
  | _ => true

inductive InitMove (hier : ClassHierarchy C) (s : InitState C) (self : Nat) : InitState C → Prop where
  | call (user : inUserCode (s.threads self) = true) (klass) :
      InitMove hier s self (s.goto self (.initializeClass klass .entered :: s.threads self))
  | exception (user : inUserCode (s.threads self) = true) (pending) :
      InitMove hier s self (s.throw self pending)
  | verify {klass} (was : s.status klass = .notVerified) {status}
      (becomes : status = .verified ∨ status = .erroneous) : InitMove hier s self (s.setStatus klass status)
  | turn {frame rest} (stack : s.threads self = frame :: rest) {frames}
      (turn : InitTurn hier s self frame frames) : InitMove hier s self (s.goto self (frames ++ rest))
  /-- The call returns without having marked the class. -/
  | answer {klass phase rest} (stack : s.threads self = .initializeClass klass phase :: rest)
      (free : phase.owns = false) {res}
      (ready : res = true → s.status klass = .initialized ∨ s.status klass = .initializing self) :
      InitMove hier s self (hier.retInit s self klass rest res)
  | reject {klass phase rest} (stack : s.threads self = .initializeClass klass phase :: rest)
      (free : phase.owns = false) (was : s.status klass = .verified) :
      InitMove hier s self (hier.retInit (s.setStatus klass .erroneous) self klass rest false)
  /-- An exception while waiting. -/
  | interrupt {klass rest} (stack : s.threads self = .initializeClass klass .waiting :: rest)
      (pending : s.exceptionPending self = true) :
      InitMove hier s self (hier.retInit (s.setStatus klass .erroneous) self klass rest false)
  | take {klass phase rest} (stack : s.threads self = .initializeClass klass phase :: rest)
      (free : phase.owns = false) (was : s.status klass = .verified) :
      InitMove hier s self
        ((s.setStatus klass (.initializing self)).goto self (.initializeClass klass .superClass :: rest))
  | startClinit {klass rest} (stack : s.threads self = .initializeClass klass .staticValues :: rest) :
      InitMove hier s self
        ((s.goto self (.initializeClass klass .clinit :: rest)).record (.clinitStarted self klass))
  | leaveClinit {klass phase rest} (stack : s.threads self = .initializeClass klass phase :: rest)
      (was : phase = .staticValues ∨ phase = .clinit) (pending) :
      InitMove hier s self ((s.goto self (.initializeClass klass .finishing :: rest)).throw self pending)
  | close {klass phase rest} (stack : s.threads self = .initializeClass klass phase :: rest)
      (was : phase = .failed ∨ phase = .finishing) (res : Bool) :
      InitMove hier s self
        (hier.retInit (s.setStatus klass (if res then .initialized else .erroneous)) self klass rest res)
  | mark {iface rest} (stack : s.threads self = .initializeDefaultInterface iface .marking :: rest) :
      InitMove hier s self
        (hier.ret { s with recursivelyInitialized := update s.recursivelyInitialized iface true }
          self rest true)
  | giveUp {iface rest} (stack : s.threads self = .initializeDefaultInterface iface .failed :: rest) :
      InitMove hier s self (hier.ret s self rest false)

variable {hier : ClassHierarchy C} {s next : InitState C} {self : Nat} {tl : List (InitFrame C)}
  {fails : Bool}

section

variable {ph : InitPhase C} {kl : C} (st : s.threads self = .initializeClass kl ph :: tl)
include st

theorem lockSection_moves (locked : ph = .locking ∨ ph = .verifying) :
    Leads (InitMove hier s self) (hier.lockSection s self kl tl fails) := by
  have free : ph.owns = false := by
    cases locked with
    | inl locked | inr locked => rw [locked]; rfl
  unfold lockSection
  split
  next _ sts =>
    split
    next => exact .answer st free (by simp)
    next mute =>
      split
      next mine => exact .answer st free fun _ => .inr (by rw [sts, mine])
      next => exact .turn st (.wait locked (by simpa using mute))
  next sts =>
    split
    next => exact .reject st free sts
    next => exact .take st free sts
  next => trivial

theorem advanceClass_moves : Leads (InitMove hier s self) (hier.advanceClass s self kl tl fails ph) := by
  unfold advanceClass
  split
  next =>
    split
    next sts => exact .answer st rfl fun _ => .inl sts
    next => exact .turn st (.lock kl)
  next =>
    split
    next sts => exact .answer st rfl fun _ => .inl sts
    next => exact .answer st rfl (by simp)
    next => exact .turn st (.verify kl)
    next => exact lockSection_moves st (.inl rfl)
  next =>
    split
    next => trivial
    next => exact .answer st rfl (by simp)
    next sts => exact .answer st rfl fun _ => .inl sts
    next => exact lockSection_moves st (.inr rfl)
  next =>
    split
    next due => exact .interrupt st due
    next =>
      split
      next => trivial
      next =>
        split
        next => exact .answer st rfl (by simp)
        next => trivial
      next => exact .answer st rfl (by simp)
      next sts => exact .answer st rfl fun _ => .inl sts
      next => trivial
  next =>
    split
    next super_ => exact .turn st (.superDone (by simp [super_]))
    next _ super_ =>
      split
      next ready => exact .turn st (.superDone (by simp [super_, ready]))
      next => exact .turn st (.callSuper super_)
  next => exact .turn st (.interfacesDone kl)
  next ic more =>
    split
    next mark => exact .turn st (.skipInterface mark)
    next => exact .turn st (.callInterface kl ic more)
  next => exact .close st (.inl rfl) false
  next =>
    dsimp only
    split
    next => exact .startClinit st
    next => exact .leaveClinit st (.inl rfl) _
  next => exact .leaveClinit st (.inr rfl) _
  next =>
    split
    next => exact .close st (.inr rfl) false
    next => exact .close st (.inr rfl) true
  next => trivial
  next => trivial

end

theorem advanceInterface_moves {ic : C} {ph : InterfacePhase C}
    (st : s.threads self = .initializeDefaultInterface ic ph :: tl) :
    Leads (InitMove hier s self) (hier.advanceInterface s self ic tl ph) := by
  unfold advanceInterface
  split
  next =>
    split
    next ensures => exact .turn st (.ensure (by simp at ensures; exact ensures.1))
    next ensured => exact .turn st (.ensured (by simpa using ensured))
  next si more =>
    split
    next mark => exact .turn st (.skipSuperInterface mark)
    next => exact .turn st (.callSuperInterface ic si more)
  next => exact .mark st
  next => exact .giveUp st
  next => trivial
  next => trivial

theorem initStep_moves (lab : InitLabel C) : Leads (InitMove hier s lab.self) (hier.step s lab) := by
  cases lab with
  | call self kl =>
    simp only [step]
    split
    next user => exact .call user kl
    next => trivial
  | exception self due =>
    simp only [step]
    split
    next user => exact .exception user due
    next => trivial
  | verify kl okay =>
    simp only [step]
    split
    next was => exact .verify was (by cases okay <;> simp)
    next => trivial
  | advance self _ =>
    simp only [step]
    split
    next => trivial
    next kl ph tl st => exact advanceClass_moves st
    next _ ph tl st => exact advanceInterface_moves st

theorem move_of_initStep {lab : InitLabel C} (ht : hier.step s lab = some next) : InitMove hier s lab.self next :=
  (initStep_moves lab).of_eq ht

end

end Aosp.Art
