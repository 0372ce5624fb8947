import Aosp.Lib.Run
import Aosp.Lib.Stacks

/-! # Loading native libraries

`JavaVMExt::LoadNativeLibrary` as a machine that any number of threads drive.  A
call looks the path up, opens the library without a lock, inserts it if nobody
else has in the meantime, and runs `JNI_OnLoad`, which may load further
libraries; dlopen runs constructors, which may do so too.  Each section under
`jni_libraries_lock_` or the lock of a library is one step, libraries are never
unloaded.

`LoadMove` lists what a step of a thread can do.
-/

namespace Aosp.Art

open Aosp.Lib

inductive JniOnLoadState where
  | pending
  | failed
  | okay
deriving DecidableEq

structure SharedLibrary (L A H : Type) where
  handle : H
  classLoader : Option L
  classLoaderAllocator : A
  /-- 0 when no thread runs `JNI_OnLoad`. -/
  jniOnLoadThreadId : Nat
  jniOnLoadResult : JniOnLoadState

def SharedLibrary.setResult {L A H : Type} (lib : SharedLibrary L A H)
    (res : Bool) : SharedLibrary L A H :=
  { lib with jniOnLoadResult := if res then .okay else .failed, jniOnLoadThreadId := 0 }

def jniErr : Int := -1

def isBadJniVersion (version : Int) : Bool :=
  version ≠ 0x00010002 && version ≠ 0x00010004 && version ≠ 0x00010006

/-- What `LoadNativeLibrary` asks of the rest of the runtime. -/
structure JavaVm (L A H : Type) where
  isBootClassLoader : L → Bool
  /-- `GetAllocatorForClassLoader`, with `none` for the boot class loader. -/
  allocatorForClassLoader : Option L → A
  /-- Whether `FindSymbol` finds the name in the library. -/
  findSymbol : H → String → Bool
  /-- A weak global reference and a local one, as `%p` prints them. -/
  showWeak : Option L → String
  showLocal : Option L → String

section

variable {L A H : Type}

def JavaVm.loaderOf (vm : JavaVm L A H) (ldr : Option L) : Option L :=
  ldr.filter fun loader => !vm.isBootClassLoader loader

def JavaVm.allocatorOf (vm : JavaVm L A H) (ldr : Option L) : A :=
  vm.allocatorForClassLoader (vm.loaderOf ldr)

/-- How far a call of `LoadNativeLibrary` is. -/
inductive LoadPhase (H : Type) where
  /-- Before the first lookup. -/
  | lookup
  /-- In `CheckOnLoadResult`, after the first lookup or after the lost race to insert. -/
  | checking (lostRace : Bool)
  /-- In the loop of `CheckOnLoadResult`. -/
  | waiting (lostRace : Bool)
  /-- In `OpenNativeLibrary`. -/
  | opening
  | opened (handle : H)
  /-- The new entry is in the table. -/
  | created (handle : H)
  /-- In `JNI_OnLoad`. -/
  | onLoad
  /-- Before `SetResult`. -/
  | finishing (wasSuccessful : Bool) (errorMsg : String)
deriving DecidableEq

structure LoadFrame (L H : Type) where
  path : String
  classLoader : Option L
  phase : LoadPhase H

inductive LoadEvent (L : Type) where
  | onLoadCalled (thr : Nat) (path : String)
  | onLoadReturned (path : String) (wasSuccessful : Bool)
  | noOnLoad (path : String)
  | returned (thr : Nat) (path : String) (ldr : Option L) (res : Bool) (errorMsg : String)
deriving DecidableEq

structure VmState (L A H : Type) where
  libraries : String → Option (SharedLibrary L A H)
  threads : Stacks (LoadFrame L H)
  log : List (LoadEvent L)

def VmState.start : VmState L A H := ⟨fun _ => none, fun _ => [], []⟩

section

variable (vm : JavaVm L A H) (s : VmState L A H) (self : Nat)
  (frame : LoadFrame L H)

def VmState.goto (frs : List (LoadFrame L H)) : VmState L A H :=
  { s with threads := Function.update s.threads self frs }

def VmState.record (ev : LoadEvent L) : VmState L A H :=
  { s with log := s.log ++ [ev] }

def VmState.put (path : String)
    (lib : SharedLibrary L A H) : VmState L A H :=
  { s with libraries := Function.update s.libraries path (some lib) }

/-- The call on top of the stack returns. -/
def VmState.ret (tl : List (LoadFrame L H)) (res : Bool) (errorMsg : String) :
    VmState L A H :=
  (s.goto self tl).record (.returned self frame.path frame.classLoader res errorMsg)

/-- What the first lookup says to a caller that it turns away. -/
def JavaVm.alreadyOpened
    (lib : SharedLibrary L A H) (frame : LoadFrame L H) : String :=
  "Shared library \"" ++ frame.path ++ "\" already opened by ClassLoader " ++ vm.showWeak lib.classLoader ++
    "; can't open in ClassLoader " ++ vm.showLocal (vm.loaderOf frame.classLoader)

/-- After `CheckOnLoadResult`: only the caller that found the path at once reports the failure. -/
def VmState.checked
    (tl : List (LoadFrame L H)) (lostRace okay : Bool) : VmState L A H :=
  s.ret self frame tl okay
    (if lostRace || okay then "" else "JNI_OnLoad failed on a previous attempt to load \"" ++ frame.path ++ "\"")

end

/-- What the version returned by `JNI_OnLoad` means. -/
def onLoadOutcome (path : String) (version : Int) : Bool × String :=
  if version = jniErr then (false, "JNI_ERR returned from JNI_OnLoad in \"" ++ path ++ "\"")
  else if isBadJniVersion version then
    (false, "Bad JNI version returned from JNI_OnLoad in \"" ++ path ++ "\": " ++ toString version)
  else (true, "")

inductive LoadLabel (L H : Type) where
  /-- `LoadNativeLibrary` is called, also from within `JNI_OnLoad` or a constructor. -/
  | call (self : Nat) (path : String) (ldr : Option L)
  /-- `OpenNativeLibrary` returns a handle or fails with a message. -/
  | openNativeLibrary (self : Nat) (handle : Except String H)
  /-- `JNI_OnLoad` returns. -/
  | onLoad (self : Nat) (version : Int)
  /-- The thread goes on by itself. -/
  | advance (self : Nat)

def LoadLabel.self : LoadLabel L H → Nat
  | .call self _ _ | .openNativeLibrary self _ | .onLoad self _ | .advance self => self

/-- Whether the code that runs on top of the stack may load a library. -/
def mayCall : List (LoadFrame L H) → Bool
  | [] => true
  | frame :: _ =>
    match frame.phase with
    | .opening | .onLoad => true
    | _ => false

variable [DecidableEq A]

section

variable (vm : JavaVm L A H) (s : VmState L A H) (self : Nat)

def JavaVm.advance (frame : LoadFrame L H) (tl : List (LoadFrame L H)) :
    Option (VmState L A H) :=
  match frame.phase with
  | .lookup =>
    match s.libraries frame.path with
    | some lib =>
      if lib.classLoaderAllocator ≠ vm.allocatorOf frame.classLoader then
        some (s.ret self frame tl false (vm.alreadyOpened lib frame))
      else some (s.goto self ({ frame with phase := .checking false } :: tl))
    | none => some (s.goto self ({ frame with phase := .opening } :: tl))
  | .checking lostRace =>
    match s.libraries frame.path with
    | some lib =>
      if lib.jniOnLoadThreadId = self then some (s.checked self frame tl lostRace true)
      else if lib.jniOnLoadResult = .pending then
        some (s.goto self ({ frame with phase := .waiting lostRace } :: tl))
      else some (s.checked self frame tl lostRace (lib.jniOnLoadResult = .okay))
    | none => none
  | .waiting lostRace =>
    match s.libraries frame.path with
    | some lib =>
      if lib.jniOnLoadResult = .pending then none
      else some (s.checked self frame tl lostRace (lib.jniOnLoadResult = .okay))
    | none => none
  | .opened handle =>
    match s.libraries frame.path with
    | some _ => some (s.goto self ({ frame with phase := .checking true } :: tl))
    | none =>
      some ((s.put frame.path
        ⟨handle, vm.loaderOf frame.classLoader, vm.allocatorOf frame.classLoader, self, .pending⟩).goto self
          ({ frame with phase := .created handle } :: tl))
  | .created handle =>
    if vm.findSymbol handle "JNI_OnLoad" then
      some ((s.goto self ({ frame with phase := .onLoad } :: tl)).record (.onLoadCalled self frame.path))
    else
      some ((s.goto self ({ frame with phase := .finishing true "" } :: tl)).record (.noOnLoad frame.path))
  | .finishing wasSuccessful errorMsg =>
    match s.libraries frame.path with
    | some lib =>
      some ((s.put frame.path (lib.setResult wasSuccessful)).ret self frame tl wasSuccessful errorMsg)
    | none => none
  | .opening | .onLoad => none

def JavaVm.step : LoadLabel L H → Option (VmState L A H)
  | .call self path ldr =>
    if self ≠ 0 ∧ mayCall (s.threads self) then
      some (s.goto self (⟨path, ldr, .lookup⟩ :: s.threads self))
    else none
  | .openNativeLibrary self handle =>
    match s.threads self with
    | [] => none
    | frame :: rest =>
      match frame.phase, handle with
      | .opening, .ok handle => some (s.goto self ({ frame with phase := .opened handle } :: rest))
      | .opening, .error message => some (s.ret self frame rest false message)
      | _, _ => none
  | .onLoad self version =>
    match s.threads self with
    | [] => none
    | frame :: rest =>
      match frame.phase with
      | .onLoad =>
        let (wasSuccessful, errorMsg) := onLoadOutcome frame.path version
        some ((s.goto self ({ frame with phase := .finishing wasSuccessful errorMsg } :: rest)).record
          (.onLoadReturned frame.path wasSuccessful))
      | _ => none
  | .advance self =>
    match s.threads self with
    | [] => none
    | frame :: rest => vm.advance s self frame rest

/-! ## What a step can do -/

/-- The top frame goes on to another phase and nothing else changes. -/
inductive LoadTurn (vm : JavaVm L A H) (s : VmState L A H)
    (frame : LoadFrame L H) : LoadPhase H → Prop where
  | found (ph : frame.phase = .lookup) {library} (known : s.libraries frame.path = some library)
      (same : library.classLoaderAllocator = vm.allocatorOf frame.classLoader) : LoadTurn vm s frame (.checking false)
  | missing (ph : frame.phase = .lookup) : LoadTurn vm s frame .opening
  | wait {lostRace} (ph : frame.phase = .checking lostRace) : LoadTurn vm s frame (.waiting lostRace)
  | opened (ph : frame.phase = .opening) (handle : H) : LoadTurn vm s frame (.opened handle)
  | lost {handle} (ph : frame.phase = .opened handle) {library} (known : s.libraries frame.path = some library) :
      LoadTurn vm s frame (.checking true)

/-- The call returns without having inserted the library. -/
inductive LoadAnswer (vm : JavaVm L A H) (s : VmState L A H) (self : Nat)
    (frame : LoadFrame L H) : Bool → Prop where
  | turnedAway (ph : frame.phase = .lookup) : LoadAnswer vm s self frame false
  | notOpened (ph : frame.phase = .opening) : LoadAnswer vm s self frame false
  | recursive {lostRace} (ph : frame.phase = .checking lostRace) {library}
      (known : s.libraries frame.path = some library) (running : library.jniOnLoadThreadId = self) :
      LoadAnswer vm s self frame true
  | earlier {lostRace} (ph : frame.phase = .checking lostRace ∨ frame.phase = .waiting lostRace) {library}
      (known : s.libraries frame.path = some library) (settled : library.jniOnLoadResult ≠ .pending) :
      LoadAnswer vm s self frame (library.jniOnLoadResult = .okay)

inductive LoadMove (vm : JavaVm L A H) (s : VmState L A H) (self : Nat) :
    VmState L A H → Prop where
  | call (isThread : self ≠ 0) (may : mayCall (s.threads self) = true) (path ldr) :
      LoadMove vm s self (s.goto self (⟨path, ldr, .lookup⟩ :: s.threads self))
  | turn {frame rest} (stack : s.threads self = frame :: rest) {ph} (turn : LoadTurn vm s frame ph) :
      LoadMove vm s self (s.goto self ({ frame with phase := ph } :: rest))
  | answer {frame rest} (stack : s.threads self = frame :: rest) {result}
      (answer : LoadAnswer vm s self frame result) (errorMsg) :
      LoadMove vm s self (s.ret self frame rest result errorMsg)
  | create {frame rest} (stack : s.threads self = frame :: rest) {handle}
      (ph : frame.phase = .opened handle) (unknown : s.libraries frame.path = none) :
      LoadMove vm s self ((s.put frame.path
        ⟨handle, vm.loaderOf frame.classLoader, vm.allocatorOf frame.classLoader, self, .pending⟩).goto self
          ({ frame with phase := .created handle } :: rest))
  | start {frame rest} (stack : s.threads self = frame :: rest) {handle}
      (ph : frame.phase = .created handle) :
      LoadMove vm s self
        ((s.goto self ({ frame with phase := .onLoad } :: rest)).record (.onLoadCalled self frame.path))
  | skip {frame rest} (stack : s.threads self = frame :: rest) {handle}
      (ph : frame.phase = .created handle) :
      LoadMove vm s self
        ((s.goto self ({ frame with phase := .finishing true "" } :: rest)).record (.noOnLoad frame.path))
  | leave {frame rest} (stack : s.threads self = frame :: rest) (ph : frame.phase = .onLoad)
      (wasSuccessful errorMsg) :
      LoadMove vm s self ((s.goto self ({ frame with phase := .finishing wasSuccessful errorMsg } :: rest)).record
        (.onLoadReturned frame.path wasSuccessful))
  | finish {frame rest} (stack : s.threads self = frame :: rest) {wasSuccessful errorMsg}
      (ph : frame.phase = .finishing wasSuccessful errorMsg) {library}
      (known : s.libraries frame.path = some library) :
      LoadMove vm s self
        ((s.put frame.path (library.setResult wasSuccessful)).ret self frame rest wasSuccessful errorMsg)

end

variable {vm : JavaVm L A H} {s next : VmState L A H}

theorem advance_moves {self : Nat} {fr : LoadFrame L H} {tl : List (LoadFrame L H)}
    (st : s.threads self = fr :: tl) : Leads (LoadMove vm s self) (vm.advance s self fr tl) := by
  unfold JavaVm.advance
  split
  next ph =>
    split
    next lib hk =>
      split
      next => exact .answer st (.turnedAway ph) _
      next eq => exact .turn st (.found ph hk (by simpa using eq))
    next => exact .turn st (.missing ph)
  next lostRace ph =>
    split
    next lib hk =>
      split
      next hr => exact .answer st (.recursive ph hk hr) _
      next =>
        split
        next => exact .turn st (.wait ph)
        next calm => exact .answer st (.earlier (.inl ph) hk calm) _
    next => trivial
  next lostRace ph =>
    split
    next lib hk =>
      split
      next => trivial
      next calm => exact .answer st (.earlier (.inr ph) hk calm) _
    next => trivial
  next hd ph =>
    split
    next lib hk => exact .turn st (.lost ph hk)
    next new => exact .create st ph new
  next hd ph =>
    split
    next => exact .start st ph
    next => exact .skip st ph
  next _ _ ph =>
    split
    next lib hk => exact .finish st ph hk
    next => trivial
  next => trivial
  next => trivial

theorem loadStep_moves (lab : LoadLabel L H) : Leads (LoadMove vm s lab.self) (vm.step s lab) := by
  cases lab with
  | call self path cld =>
    simp only [JavaVm.step]
    split
    next may => exact .call may.1 may.2 path cld
    next => trivial
  | openNativeLibrary self hd =>
    simp only [JavaVm.step]
    split
    next => trivial
    next fr tl st =>
      split
      next hd ph => exact .turn st (.opened ph hd)
      next msg ph => exact .answer st (.notOpened ph) msg
      next => trivial
  | onLoad self _ =>
    simp only [JavaVm.step]
    split
    next => trivial
    next fr tl st =>
      split
      next ph => exact .leave st ph _ _
      next => trivial
  | advance self =>
    simp only [JavaVm.step]
    split
    next => trivial
    next fr tl st => exact advance_moves st

theorem move_of_loadStep {lab : LoadLabel L H} (ht : vm.step s lab = some next) : LoadMove vm s lab.self next :=
  (loadStep_moves lab).of_eq ht

end

end Aosp.Art
