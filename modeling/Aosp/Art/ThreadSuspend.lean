import Aosp.Lib.Run
import Mathlib.Logic.Function.Basic
import Mathlib.Tactic.Simps.Basic

/-! # Suspending a thread and running checkpoints on it

The protocol of `runtime/thread.cc` and `thread-inl.h` between one target thread
and any number of others.  State and flags of the target share one word that is
changed by compare-and-swap, fetch-or and fetch-and; its counts, barrier slots and
pending checkpoints are accessed under `thread_suspend_count_lock_` only.

A step is one access to the word, together with what its thread does up to the next
one, or it takes or gives up the lock.  The target has a stack of calls
because a checkpoint is code of the user that may reach a suspend check itself;
nothing on the stack, or a checkpoint on top of it, is code of the user.  The others
come in through their sections under the lock (`Section`).  A compare-and-swap that
may fail spuriously does so when its label says so.

`TargetMove` and `SectionMove` list what a step can do.
-/

namespace Aosp.Art

open Aosp.Lib

/-- Suspend requests and checkpoint functions, by number. -/
abbrev Request := Nat

@[inherit_doc Request] abbrev Closure := Nat

/-! ## State -/

/-- `ThreadState`: all states but `kRunnable` are suspended ones. -/
inductive ThreadState where
  | runnable
  | suspended
  | other (number : Nat)
deriving DecidableEq

inductive ThreadFlag where
  | suspendRequest
  | checkpointRequest
  | emptyCheckpointRequest
  | activeSuspendBarrier
deriving DecidableEq

structure StateAndFlags where
  state : ThreadState
  suspendRequest : Bool := false
  checkpointRequest : Bool := false
  emptyCheckpointRequest : Bool := false
  activeSuspendBarrier : Bool := false
deriving DecidableEq

namespace StateAndFlags

def readFlag (word : StateAndFlags) : ThreadFlag → Bool
  | .suspendRequest => word.suspendRequest
  | .checkpointRequest => word.checkpointRequest
  | .emptyCheckpointRequest => word.emptyCheckpointRequest
  | .activeSuspendBarrier => word.activeSuspendBarrier

attribute [simp] readFlag.eq_1 readFlag.eq_2 readFlag.eq_3 readFlag.eq_4

def testAllFlags (word : StateAndFlags) : Bool :=
  word.suspendRequest || word.checkpointRequest || word.emptyCheckpointRequest || word.activeSuspendBarrier

def putFlag (word : StateAndFlags) (v : Bool) : ThreadFlag → StateAndFlags
  | .suspendRequest => { word with suspendRequest := v }
  | .checkpointRequest => { word with checkpointRequest := v }
  | .emptyCheckpointRequest => { word with emptyCheckpointRequest := v }
  | .activeSuspendBarrier => { word with activeSuspendBarrier := v }

end StateAndFlags

/-- `FetchAndOr` of some flags, and `AtomicClearFlag`. -/
inductive FlagOp where
  | or (flags : List ThreadFlag)
  | clear (flag : ThreadFlag)
deriving DecidableEq

def FlagOp.apply : FlagOp → StateAndFlags → StateAndFlags
  | .or flags, word => flags.foldl (fun word flag => word.putFlag true flag) word
  | .clear flag, word => word.putFlag false flag

def kMaxSuspendBarriers : Nat := 3

/-- The fields of the target that the lock guards.  A barrier goes by the request it belongs to. -/
structure ThreadData where
  suspendCount : Int := 0
  debugSuspendCount : Int := 0
  activeSuspendBarriers : List (Option Request) := List.replicate kMaxSuspendBarriers none
  checkpointFunction : Option Closure := none
  checkpointOverflow : List Closure := []
deriving DecidableEq

/-- The `CHECK`s and the calls of `LOG(FATAL)`. -/
inductive Fatal where
  /-- "suspend count already zero." -/
  | suspendCountZero
  /-- `CHECK(ReadFlag(kActiveSuspendBarrier))` -/
  | noActiveBarrier
  /-- "Unexpected value for PassActiveSuspendBarriers()" -/
  | barrierValue
  /-- `CHECK_GT(barrier_count, 0U)` -/
  | noBarrierPassed
  /-- `CHECK_NE(old_state_and_flags.as_struct.state, kRunnable)` -/
  | stateRunnable
  /-- "Checkpoint flag set without pending checkpoint" -/
  | withoutCheckpoint
  /-- `CHECK_EQ(ReadFlag(kCheckpointRequest), true)` -/
  | checkpointFlag
  /-- "Fatal, thread transitioned into suspended without running the checkpoint" -/
  | suspendedWithCheckpoint
  /-- "Transitioning to runnable with checkpoint flag, " -/
  | runnableWithCheckpoint
deriving DecidableEq

inductive CheckpointPhase where
  | lock
  | locked
  /-- The last pending checkpoint is taken, the flag is still set. -/
  | clearFlag (checkpoint : Closure)
  | unlock (checkpoint : Closure) (done : Bool)
  /-- In `checkpoint->Run`. -/
  | running (done : Bool)
deriving DecidableEq

/-- How far `PassActiveSuspendBarriers(self)` is. -/
inductive PassPhase where
  | lock
  | locked
  /-- The slots are copied and emptied, the flag is still set. -/
  | clearFlag (passBarriers : List (Option Request))
  | unlock (passBarriers : List (Option Request))
  /-- The quick exit. -/
  | unlockFalse
  /-- The barriers that are left, those passed, and `cur_val` between the load and the swap. -/
  | passing (passBarriers : List (Option Request)) (barrierCount : Nat) (curVal : Option Int)
deriving DecidableEq

/-- How far `TransitionFromSuspendedToRunnable` is. -/
inductive ResumePhase where
  | read
  | swap (old : StateAndFlags)
  /-- Before the lock is taken, or asleep on `resume_cond_`. -/
  | lock
  | locked
  | unlock
  | flip
deriving DecidableEq

inductive Frame where
  /-- Code of the user in a checkpoint. -/
  | closure (checkpoint : Closure)
  /-- `CheckSuspend`, before it reads the flag. -/
  | checkSuspend (flag : ThreadFlag)
  | runCheckpointFunction (ph : CheckpointPhase)
  | runEmptyCheckpoint
  /-- `TransitionToSuspendedAndRunCheckpoints`, with what it has read before the swap. -/
  | transitionToSuspended (ns : ThreadState) (old : Option StateAndFlags)
  /-- `PassActiveSuspendBarriers()` -/
  | passActiveSuspendBarriers
  /-- `PassActiveSuspendBarriers(self)` -/
  | passBarriers (ph : PassPhase)
  | setState (ns : ThreadState) (checked : Bool)
  | transitionToRunnable (ph : ResumePhase)
deriving DecidableEq

/-- What another thread does while it holds the lock. -/
inductive Section where
  /-- `ModifySuspendCountInternal(+1, barrier)` and `(-1, nullptr)` -/
  | suspend (req : Request) (dbg : Bool)
  | resume (req : Request) (dbg : Bool)
  /-- The counts are changed and the flags are about to be; the request whose barrier this makes active. -/
  | settle (op : FlagOp) (req : Option Request)
  | clearSuspendBarrier (req : Request)
  | requestCheckpoint (function : Closure)
  | checkpointSwap (function : Closure) (old : StateAndFlags)
  | checkpointInsert (function : Closure)
  | checkpointCheck
  | requestEmptyCheckpoint
  | emptyCheckpointSwap (old : StateAndFlags)
  | leave
deriving DecidableEq

inductive Holder where
  | target
  | other (code : Section)
deriving DecidableEq

inductive SuspendEvent where
  /-- The barrier of the request is in a slot and the flags say so. -/
  | installed (req : Request)
  | removed (req : Request)
  | decremented (req : Request)
  /-- The `-1` of the request. -/
  | resumed (req : Request)
  /-- The target leaves the state `kRunnable`. -/
  | suspended
  /-- `PassActiveSuspendBarriers()` returns. -/
  | passed
  /-- The target enters the state `kRunnable`. -/
  | runnable
  /-- `RequestCheckpoint` has inserted the function. -/
  | requested (function : Closure)
  /-- The target runs the function. -/
  | ran (function : Closure)
deriving DecidableEq

structure SuspendState where
  stateAndFlags : StateAndFlags
  thread : ThreadData := {}
  flipFunction : Bool := false
  /-- The values of the barriers: each waits for this one target. -/
  barriers : Request → Int := fun _ => 1
  lock : Option Holder := none
  frames : List Frame := []
  /-- The requests that have had their `+1` and not yet their `-1`. -/
  counted : List Request := []
  /-- The requests that have had their `+1`. -/
  used : List Request := []
  log : List SuspendEvent := []
  fatal : Option Fatal := none

namespace SuspendState

def start (state : ThreadState) : SuspendState := { stateAndFlags := { state } }

variable (s : SuspendState)

@[simps] def setWord (word : StateAndFlags) : SuspendState :=
  { s with stateAndFlags := word }

@[simps] def setThread (thread : ThreadData) : SuspendState :=
  { s with thread }

@[simps] def setLock (lock : Option Holder) : SuspendState :=
  { s with lock }

@[simps] def goto (frames : List Frame) : SuspendState :=
  { s with frames }

@[simps] def record (ev : SuspendEvent) : SuspendState :=
  { s with log := s.log ++ [ev] }

@[simps] def abort (fatal : Fatal) : SuspendState :=
  { s with fatal := some fatal }

/-- The thread that holds the lock goes on to the next part of its section. -/
@[simps] def at_ (code : Section) : SuspendState :=
  { s with lock := some (.other code) }

end SuspendState

/-! ## Sections of the other threads -/

/-- The loop of `ModifySuspendCountInternal` that looks for a free slot. -/
def installBarrier (barrier : Request) : List (Option Request) → Option (List (Option Request))
  | [] => none
  | none :: slots => some (some barrier :: slots)
  | some taken :: slots => (installBarrier barrier slots).map (some taken :: ·)

inductive ModifyResult where
  | fatal
  /-- It returns false. -/
  | refused
  /-- It has changed the fields and is about to change the flags. -/
  | modified (thread : ThreadData) (op : FlagOp)

/-- The counts with `delta` added. -/
def ThreadData.count (thread : ThreadData) (delta : Int) (dbg : Bool) : ThreadData :=
  { thread with
    suspendCount := thread.suspendCount + delta
    debugSuspendCount := if dbg then thread.debugSuspendCount + delta else thread.debugSuspendCount }

def ThreadData.flagOp (thread : ThreadData) (flags : List ThreadFlag) : FlagOp :=
  if thread.suspendCount = 0 then .clear .suspendRequest else .or flags

/-- `ModifySuspendCountInternal` up to its access to the word.  `flipping`: another thread asks
    and the target is in the middle of a thread flip. -/
def ThreadData.modifySuspendCountInternal (thread : ThreadData) (flipping : Bool) (delta : Int)
    (suspendBarrier : Option Request) (dbg : Bool) : ModifyResult :=
  if delta < 0 ∧ thread.suspendCount ≤ 0 then .fatal
  else if flipping ∧ 0 < delta then .refused
  else
    match suspendBarrier.filter fun _ => 0 < delta with
    | none =>
      let thread := thread.count delta dbg
      .modified thread (thread.flagOp [.suspendRequest])
    | some barrier =>
      match installBarrier barrier thread.activeSuspendBarriers with
      -- no barrier spaces available
      | none => .refused
      | some sl =>
        let thread := { thread.count delta dbg with activeSuspendBarriers := sl }
        .modified thread (thread.flagOp [.suspendRequest, .activeSuspendBarrier])

open ThreadData

section Modified

variable {th post : ThreadData} {flipping dbg : Bool} {bar : Request} {op : FlagOp}

theorem ThreadData.modified_suspend
    (thread : th.modifySuspendCountInternal flipping 1 (some bar) dbg = .modified post op) :
    ∃ sl, installBarrier bar th.activeSuspendBarriers = some sl ∧
      post = { th.count 1 dbg with activeSuspendBarriers := sl } ∧
      op = post.flagOp [.suspendRequest, .activeSuspendBarrier] := by
  grind [modifySuspendCountInternal]

theorem ThreadData.modified_resume (thread : th.modifySuspendCountInternal flipping (-1) none dbg = .modified post op) :
    0 < th.suspendCount ∧ post = th.count (-1) dbg ∧ op = post.flagOp [.suspendRequest] := by
  grind [modifySuspendCountInternal]

end Modified

/-- The loop of `ClearSuspendBarrier`. -/
def clearSlots (tg : Request) (sl : List (Option Request)) : List (Option Request) :=
  sl.map fun ptr => if ptr = some tg then none else ptr

/-- How `RequestCheckpoint` inserts the function. -/
def ThreadData.pushCheckpoint (thread : ThreadData) (function : Closure) : ThreadData :=
  match thread.checkpointFunction with
  | none => { thread with checkpointFunction := some function }
  | some _ => { thread with checkpointOverflow := thread.checkpointOverflow ++ [function] }

namespace SuspendState

/-- What `FullSuspendCheck` does: it transitions to suspended and back. -/
def fullSuspendCheck : List Frame :=
  [.transitionToSuspended .suspended none, .passActiveSuspendBarriers, .transitionToRunnable .read]

/-- Whether the target runs code of the user that may reach a suspend check. -/
def inUserCode : List Frame → Bool
  | [] => true
  | .closure _ :: _ => true
  | _ => false

/-- Which sections can begin: each request makes one `+1`, then its `-1`, and clears only its own barrier. -/
def mayEnter (s : SuspendState) : Section → Bool
  | .suspend req _ => req ∉ s.used
  | .resume req _ => req ∈ s.counted
  | .clearSuspendBarrier req => req ∈ s.used
  | .requestCheckpoint _ | .requestEmptyCheckpoint => true
  | .settle .. | .checkpointSwap .. | .checkpointInsert _ | .checkpointCheck | .emptyCheckpointSwap _ | .leave => false

def sectionStep (rb : Bool) (s : SuspendState) :
    Section → SuspendState
  | .suspend req dbg =>
    match s.thread.modifySuspendCountInternal (rb && s.flipFunction) 1 (some req) dbg with
    | .fatal => s.abort .suspendCountZero
    -- `ModifySuspendCount` gives up the lock for a while and tries again
    | .refused => s.at_ .leave
    | .modified thread op =>
      { (s.setThread thread).at_ (.settle op (some req)) with
        counted := s.counted ++ [req]
        used := s.used ++ [req] }
  | .resume req dbg =>
    match s.thread.modifySuspendCountInternal (rb && s.flipFunction) (-1) none dbg with
    | .fatal => s.abort .suspendCountZero
    | .refused => s.at_ .leave
    | .modified thread op =>
      { (s.setThread thread).at_ (.settle op none) with
        counted := s.counted.erase req
        log := s.log ++ [.resumed req] }
  | .settle op req =>
    let s := (s.setWord (op.apply s.stateAndFlags)).at_ .leave
    match req with
    | none => s
    | some req => s.record (.installed req)
  | .clearSuspendBarrier req =>
    if !s.stateAndFlags.readFlag .activeSuspendBarrier then s.abort .noActiveBarrier
    else
      let sl := clearSlots req s.thread.activeSuspendBarriers
      let events := if some req ∈ s.thread.activeSuspendBarriers then [.removed req] else []
      { (s.setThread { s.thread with activeSuspendBarriers := sl }).at_
        (if sl.any Option.isSome then .leave else .settle (.clear .activeSuspendBarrier) none) with
        log := s.log ++ events }
  | .requestCheckpoint function =>
    if s.stateAndFlags.state ≠ .runnable then s.at_ .leave
    else s.at_ (.checkpointSwap function s.stateAndFlags)
  | .checkpointSwap function old =>
    if s.stateAndFlags = old then
      (s.setWord { old with checkpointRequest := true }).at_ (.checkpointInsert function)
    else s.at_ .leave
  | .checkpointInsert function =>
    ((s.setThread (s.thread.pushCheckpoint function)).record (.requested function)).at_ .checkpointCheck
  | .checkpointCheck =>
    if !s.stateAndFlags.readFlag .checkpointRequest then s.abort .checkpointFlag else s.at_ .leave
  | .requestEmptyCheckpoint =>
    if s.stateAndFlags.state ≠ .runnable then s.at_ .leave
    else s.at_ (.emptyCheckpointSwap s.stateAndFlags)
  | .emptyCheckpointSwap old =>
    if s.stateAndFlags = old then (s.setWord { old with emptyCheckpointRequest := true }).at_ .leave
    else s.at_ .leave
  | .leave => s.setLock none

/-! ## The target -/

/-- The call on top of the stack goes on; what takes its place on the stack, and the rest of the
    state.  `none` while it waits for the lock or is code of the user. -/
def advance (s : SuspendState) (spurious : Bool) :
    Frame → Option (List Frame × SuspendState)
  | .closure _ => none
  | .checkSuspend .checkpointRequest =>
    if s.stateAndFlags.readFlag .checkpointRequest then
      some ([.runCheckpointFunction .lock, .checkSuspend .checkpointRequest], s)
    else some ([.checkSuspend .suspendRequest], s)
  | .checkSuspend .suspendRequest =>
    if s.stateAndFlags.readFlag .suspendRequest then
      some (fullSuspendCheck ++ [.checkSuspend .checkpointRequest], s)
    else some ([.checkSuspend .emptyCheckpointRequest], s)
  | .checkSuspend .emptyCheckpointRequest =>
    if s.stateAndFlags.readFlag .emptyCheckpointRequest then
      some ([.runEmptyCheckpoint, .checkSuspend .checkpointRequest], s)
    else some ([], s)
  | .checkSuspend .activeSuspendBarrier => none
  | .runCheckpointFunction .lock =>
    if s.lock.isNone then some ([.runCheckpointFunction .locked], s.setLock (some .target)) else none
  | .runCheckpointFunction .locked =>
    match s.thread.checkpointFunction, s.thread.checkpointOverflow with
    | none, _ => some ([.runCheckpointFunction .locked], s.abort .withoutCheckpoint)
    | some checkpoint, front :: overflow =>
      some ([.runCheckpointFunction (.unlock checkpoint false)],
        s.setThread { s.thread with checkpointFunction := some front, checkpointOverflow := overflow })
    | some checkpoint, [] =>
      some ([.runCheckpointFunction (.clearFlag checkpoint)], s.setThread { s.thread with checkpointFunction := none })
  | .runCheckpointFunction (.clearFlag checkpoint) =>
    some ([.runCheckpointFunction (.unlock checkpoint true)],
      s.setWord ((FlagOp.clear .checkpointRequest).apply s.stateAndFlags))
  | .runCheckpointFunction (.unlock checkpoint done) =>
    some ([.closure checkpoint, .runCheckpointFunction (.running done)], (s.setLock none).record (.ran checkpoint))
  | .runCheckpointFunction (.running done) =>
    some (if done then [] else [.runCheckpointFunction .lock], s)
  | .runEmptyCheckpoint =>
    some ([], s.setWord ((FlagOp.clear .emptyCheckpointRequest).apply s.stateAndFlags))
  | .transitionToSuspended ns none =>
    if s.stateAndFlags.readFlag .checkpointRequest then
      some ([.runCheckpointFunction .lock, .transitionToSuspended ns none], s)
    else if s.stateAndFlags.readFlag .emptyCheckpointRequest then
      some ([.runEmptyCheckpoint, .transitionToSuspended ns none], s)
    else some ([.transitionToSuspended ns (some s.stateAndFlags)], s)
  | .transitionToSuspended ns (some old) =>
    if spurious = false ∧ s.stateAndFlags = old then
      some ([], (s.setWord { old with state := ns }).record .suspended)
    else some ([.transitionToSuspended ns none], s)
  | .passActiveSuspendBarriers =>
    if s.stateAndFlags.readFlag .activeSuspendBarrier then
      some ([.passBarriers .lock, .passActiveSuspendBarriers], s)
    else if s.stateAndFlags.readFlag .checkpointRequest || s.stateAndFlags.readFlag .emptyCheckpointRequest then
      some ([.passActiveSuspendBarriers], s.abort .suspendedWithCheckpoint)
    else some ([], s.record .passed)
  | .passBarriers .lock =>
    if s.lock.isNone then some ([.passBarriers .locked], s.setLock (some .target)) else none
  | .passBarriers .locked =>
    if s.stateAndFlags.readFlag .activeSuspendBarrier then
      some ([.passBarriers (.clearFlag s.thread.activeSuspendBarriers)], s.setThread { s.thread with
          activeSuspendBarriers := s.thread.activeSuspendBarriers.map fun _ => none })
    else some ([.passBarriers .unlockFalse], s)
  | .passBarriers (.clearFlag barriers) =>
    some ([.passBarriers (.unlock barriers)], s.setWord ((FlagOp.clear .activeSuspendBarrier).apply s.stateAndFlags))
  | .passBarriers (.unlock barriers) => some ([.passBarriers (.passing barriers 0 none)], s.setLock none)
  | .passBarriers .unlockFalse => some ([], s.setLock none)
  | .passBarriers (.passing [] count curVal) =>
    if count = 0 then some ([.passBarriers (.passing [] count curVal)], s.abort .noBarrierPassed)
    else some ([], s)
  | .passBarriers (.passing (none :: barriers) count _) => some ([.passBarriers (.passing barriers count none)], s)
  | .passBarriers (.passing (some req :: barriers) count none) =>
    if s.barriers req ≤ 0 then
      some ([.passBarriers (.passing (some req :: barriers) count none)], s.abort .barrierValue)
    else
      some ([.passBarriers (.passing (some req :: barriers) count (some (s.barriers req)))], s)
  | .passBarriers (.passing (some req :: barriers) count (some curVal)) =>
    if spurious = false ∧ s.barriers req = curVal then
      some ([.passBarriers (.passing barriers (count + 1) none)], { s.record (.decremented req) with
          barriers := Function.update s.barriers req (curVal - 1) })
    else some ([.passBarriers (.passing (some req :: barriers) count none)], s)
  | .setState ns false =>
    if s.stateAndFlags.state = .runnable then some ([.setState ns false], s.abort .stateRunnable)
    else some ([.setState ns true], s)
  | .setState ns true => some ([], s.setWord { s.stateAndFlags with state := ns })
  | .transitionToRunnable .read =>
    if !s.stateAndFlags.testAllFlags then some ([.transitionToRunnable (.swap s.stateAndFlags)], s)
    else if s.stateAndFlags.readFlag .activeSuspendBarrier then
      some ([.passBarriers .lock, .transitionToRunnable .read], s)
    else if s.stateAndFlags.readFlag .checkpointRequest || s.stateAndFlags.readFlag .emptyCheckpointRequest then
      some ([.transitionToRunnable .read], s.abort .runnableWithCheckpoint)
    else some ([.transitionToRunnable .lock], s)
  | .transitionToRunnable (.swap old) =>
    if spurious = false ∧ s.stateAndFlags = old then
      some ([.transitionToRunnable .flip], (s.setWord { old with state := .runnable }).record .runnable)
    else some ([.transitionToRunnable .read], s)
  | .transitionToRunnable .lock =>
    if s.lock.isNone then some ([.transitionToRunnable .locked], s.setLock (some .target)) else none
  | .transitionToRunnable .locked =>
    -- `Wait` gives up the lock and takes it again when it is notified
    if s.stateAndFlags.readFlag .suspendRequest then some ([.transitionToRunnable .lock], s.setLock none)
    else some ([.transitionToRunnable .unlock], s)
  | .transitionToRunnable .unlock => some ([.transitionToRunnable .read], s.setLock none)
  | .transitionToRunnable .flip => some ([], { s with flipFunction := false })

end SuspendState

/-! ## The system -/

inductive SuspendLabel where
  /-- The target goes on; whether a compare-and-swap that may fail spuriously does. -/
  | target (spurious : Bool)
  /-- The code of the user on the target calls one of these. -/
  | checkSuspend
  | transitionFromRunnableToSuspended (ns : ThreadState)
  | setState (ns : ThreadState)
  | transitionFromSuspendedToRunnable
  | closureReturns
  /-- Another thread takes the lock, and goes on while it has it. -/
  | enter (code : Section)
  | goOn
  | setFlipFunction
deriving DecidableEq

namespace SuspendState

def take (rb : Bool) (s : SuspendState) :
    SuspendLabel → Option SuspendState
  | .target spurious =>
    match s.frames with
    | [] => none
    | frame :: tl => (s.advance spurious frame).map fun (frames, next) => next.goto (frames ++ tl)
  | .checkSuspend =>
    if inUserCode s.frames ∧ s.stateAndFlags.state = .runnable then
      some (s.goto (.checkSuspend .checkpointRequest :: s.frames))
    else none
  | .transitionFromRunnableToSuspended ns =>
    if s.frames.isEmpty ∧ s.stateAndFlags.state = .runnable ∧ ns ≠ .runnable then
      some (s.goto [.transitionToSuspended ns none, .passActiveSuspendBarriers])
    else none
  | .setState ns =>
    if s.frames.isEmpty ∧ ns ≠ .runnable then some (s.goto [.setState ns false]) else none
  | .transitionFromSuspendedToRunnable =>
    if s.frames.isEmpty ∧ s.stateAndFlags.state ≠ .runnable then
      some (s.goto [.transitionToRunnable .read])
    else none
  | .closureReturns =>
    match s.frames with
    | .closure _ :: tl => some (s.goto tl)
    | _ => none
  | .enter code =>
    if s.lock.isNone ∧ s.mayEnter code then some (s.at_ code) else none
  | .goOn =>
    match s.lock with
    | some (.other code) => some (s.sectionStep rb code)
    | _ => none
  | .setFlipFunction => some { s with flipFunction := true }

def step (rb : Bool) (s : SuspendState) (lb : SuspendLabel) :
    Option SuspendState :=
  if s.fatal.isSome then none else s.take rb lb

end SuspendState

/-! ## What a step can do -/

section Moves

variable (word : StateAndFlags) (barriers : Request → Int) (st : SuspendState)

/-- The call on top of the stack goes on and nothing else changes. -/
inductive Control : Frame → List Frame → Prop where
  | checkpoint (set : word.checkpointRequest = true) : Control (.checkSuspend .checkpointRequest)
      [.runCheckpointFunction .lock, .checkSuspend .checkpointRequest]
  | noCheckpoint : Control (.checkSuspend .checkpointRequest) [.checkSuspend .suspendRequest]
  | fullSuspendCheck : Control (.checkSuspend .suspendRequest)
      (SuspendState.fullSuspendCheck ++ [.checkSuspend .checkpointRequest])
  | noSuspend : Control (.checkSuspend .suspendRequest) [.checkSuspend .emptyCheckpointRequest]
  | emptyCheckpoint : Control (.checkSuspend .emptyCheckpointRequest)
      [.runEmptyCheckpoint, .checkSuspend .checkpointRequest]
  | checked : Control (.checkSuspend .emptyCheckpointRequest) []
  | lastRan : Control (.runCheckpointFunction (.running true)) []
  | ranOne : Control (.runCheckpointFunction (.running false)) [.runCheckpointFunction .lock]
  | leavingCheckpoint (newState) (set : word.checkpointRequest = true) :
      Control (.transitionToSuspended newState none)
        [.runCheckpointFunction .lock, .transitionToSuspended newState none]
  | leavingEmptyCheckpoint (newState) : Control (.transitionToSuspended newState none)
      [.runEmptyCheckpoint, .transitionToSuspended newState none]
  | leavingRead (newState) (noCheckpoint : word.checkpointRequest = false)
      (noEmptyCheckpoint : word.emptyCheckpointRequest = false) :
      Control (.transitionToSuspended newState none) [.transitionToSuspended newState (some word)]
  | leavingAgain (newState old) :
      Control (.transitionToSuspended newState (some old)) [.transitionToSuspended newState none]
  | pass : Control .passActiveSuspendBarriers [.passBarriers .lock, .passActiveSuspendBarriers]
  | quickExit : Control (.passBarriers .locked) [.passBarriers .unlockFalse]
  | emptySlot (rest count curVal) : Control (.passBarriers (.passing (none :: rest) count curVal))
      [.passBarriers (.passing rest count none)]
  | load (req rest count) : Control (.passBarriers (.passing (some req :: rest) count none))
      [.passBarriers (.passing (some req :: rest) count (some (barriers req)))]
  | loadAgain (req rest count curVal) :
      Control (.passBarriers (.passing (some req :: rest) count (some curVal)))
        [.passBarriers (.passing (some req :: rest) count none)]
  | allPassed (count curVal) : Control (.passBarriers (.passing [] count curVal)) []
  | stateChecked (newState) (suspended : word.state ≠ .runnable) :
      Control (.setState newState false) [.setState newState true]
  | resumeRead (noFlags : word.testAllFlags = false) :
      Control (.transitionToRunnable .read) [.transitionToRunnable (.swap word)]
  | resumePass : Control (.transitionToRunnable .read)
      [.passBarriers .lock, .transitionToRunnable .read]
  | resumeWait : Control (.transitionToRunnable .read) [.transitionToRunnable .lock]
  | resumeAgain (old) : Control (.transitionToRunnable (.swap old)) [.transitionToRunnable .read]
  | resumed : Control (.transitionToRunnable .locked) [.transitionToRunnable .unlock]

/-- A call that waits for the lock, and how it goes on. -/
inductive Locks : Frame → Frame → Prop where
  | checkpoint : Locks (.runCheckpointFunction .lock) (.runCheckpointFunction .locked)
  | pass : Locks (.passBarriers .lock) (.passBarriers .locked)
  | resume : Locks (.transitionToRunnable .lock) (.transitionToRunnable .locked)

/-- A call that only gives up the lock. -/
inductive Unlocks : Frame → List Frame → Prop where
  | pass (slots) : Unlocks (.passBarriers (.unlock slots)) [.passBarriers (.passing slots 0 none)]
  | quickExit : Unlocks (.passBarriers .unlockFalse) []
  | wait : Unlocks (.transitionToRunnable .locked) [.transitionToRunnable .lock]
  | resume : Unlocks (.transitionToRunnable .unlock) [.transitionToRunnable .read]

/-- What the target finds when it aborts. -/
inductive TargetFails : Frame → Fatal → Prop where
  | withoutCheckpoint (empty : st.thread.checkpointFunction = none) :
      TargetFails (.runCheckpointFunction .locked) .withoutCheckpoint
  | suspendedWithCheckpoint
      (set : (st.stateAndFlags.checkpointRequest || st.stateAndFlags.emptyCheckpointRequest) = true) :
      TargetFails .passActiveSuspendBarriers .suspendedWithCheckpoint
  | runnableWithCheckpoint
      (set : (st.stateAndFlags.checkpointRequest || st.stateAndFlags.emptyCheckpointRequest) = true) :
      TargetFails (.transitionToRunnable .read) .runnableWithCheckpoint
  | barrierValue (req rest count) (atMost : st.barriers req ≤ 0) :
      TargetFails (.passBarriers (.passing (some req :: rest) count none)) .barrierValue
  | noBarrierPassed (curVal) : TargetFails (.passBarriers (.passing [] 0 curVal)) .noBarrierPassed
  | stateRunnable (newState) (runnable : st.stateAndFlags.state = .runnable) :
      TargetFails (.setState newState false) .stateRunnable

/-- What the target does when it goes on: the call on top of the stack, what takes its place, and the
    state but for the stack. -/
inductive TargetMove : Frame → List Frame → SuspendState → Prop where
  | control {frame frames} (control : Control st.stateAndFlags st.barriers frame frames) :
      TargetMove frame frames st
  | fails {frame fatal} (fails : TargetFails st frame fatal) : TargetMove frame [frame] (st.abort fatal)
  | lock {frame locked} (locks : Locks frame locked) (free : st.lock = none) :
      TargetMove frame [locked] (st.setLock (some .target))
  | unlock {frame frames} (unlocks : Unlocks frame frames) : TargetMove frame frames (st.setLock none)
  | takeFirst {checkpoint front overflow} (isFunction : st.thread.checkpointFunction = some checkpoint)
      (isOverflow : st.thread.checkpointOverflow = front :: overflow) :
      TargetMove (.runCheckpointFunction .locked) [.runCheckpointFunction (.unlock checkpoint false)]
        (st.setThread { st.thread with checkpointFunction := some front, checkpointOverflow := overflow })
  | takeLast {checkpoint} (isFunction : st.thread.checkpointFunction = some checkpoint)
      (isOverflow : st.thread.checkpointOverflow = []) :
      TargetMove (.runCheckpointFunction .locked) [.runCheckpointFunction (.clearFlag checkpoint)]
        (st.setThread { st.thread with checkpointFunction := none })
  | clearCheckpoint (checkpoint) : TargetMove (.runCheckpointFunction (.clearFlag checkpoint))
      [.runCheckpointFunction (.unlock checkpoint true)]
      (st.setWord ((FlagOp.clear .checkpointRequest).apply st.stateAndFlags))
  | run (checkpoint done) : TargetMove (.runCheckpointFunction (.unlock checkpoint done))
      [.closure checkpoint, .runCheckpointFunction (.running done)] ((st.setLock none).record (.ran checkpoint))
  | emptyCheckpoint : TargetMove .runEmptyCheckpoint []
      (st.setWord ((FlagOp.clear .emptyCheckpointRequest).apply st.stateAndFlags))
  | leave (newState) {old} (unchanged : st.stateAndFlags = old) :
      TargetMove (.transitionToSuspended newState (some old)) []
        ((st.setWord { old with state := newState }).record .suspended)
  | passed (noBarrier : st.stateAndFlags.activeSuspendBarrier = false) :
      TargetMove .passActiveSuspendBarriers [] (st.record .passed)
  | claim (set : st.stateAndFlags.activeSuspendBarrier = true) :
      TargetMove (.passBarriers .locked) [.passBarriers (.clearFlag st.thread.activeSuspendBarriers)]
        (st.setThread { st.thread with
          activeSuspendBarriers := st.thread.activeSuspendBarriers.map fun _ => none })
  | clearBarrier (slots) : TargetMove (.passBarriers (.clearFlag slots)) [.passBarriers (.unlock slots)]
      (st.setWord ((FlagOp.clear .activeSuspendBarrier).apply st.stateAndFlags))
  | decrement (req rest count) {curVal} (unchanged : st.barriers req = curVal) :
      TargetMove (.passBarriers (.passing (some req :: rest) count (some curVal)))
        [.passBarriers (.passing rest (count + 1) none)]
        { st.record (.decremented req) with barriers := Function.update st.barriers req (curVal - 1) }
  | setState (newState) : TargetMove (.setState newState true) []
      (st.setWord { st.stateAndFlags with state := newState })
  | resume {old} (unchanged : st.stateAndFlags = old) :
      TargetMove (.transitionToRunnable (.swap old)) [.transitionToRunnable .flip]
        ((st.setWord { old with state := .runnable }).record .runnable)
  | flip : TargetMove (.transitionToRunnable .flip) [] { st with flipFunction := false }

/-- The other thread goes on with its section and nothing else changes. -/
inductive SectionTurn : Section → Section → Prop where
  | refused (request forDebugger) : SectionTurn (.suspend request forDebugger) .leave
  | notRunnable (function) : SectionTurn (.requestCheckpoint function) .leave
  | read (function) (runnable : word.state = .runnable) :
      SectionTurn (.requestCheckpoint function) (.checkpointSwap function word)
  | lost (function old) : SectionTurn (.checkpointSwap function old) .leave
  | checked : SectionTurn .checkpointCheck .leave
  | notRunnableEmpty : SectionTurn .requestEmptyCheckpoint .leave
  | readEmpty (runnable : word.state = .runnable) : SectionTurn .requestEmptyCheckpoint (.emptyCheckpointSwap word)
  | lostEmpty (old) : SectionTurn (.emptyCheckpointSwap old) .leave

inductive SectionFails : Section → Fatal → Prop where
  | suspendCountZero (request forDebugger) (zero : st.thread.suspendCount ≤ 0) :
      SectionFails (.resume request forDebugger) .suspendCountZero
  | noActiveBarrier (request) : SectionFails (.clearSuspendBarrier request) .noActiveBarrier
  | checkpointFlag (clear : st.stateAndFlags.checkpointRequest = false) :
      SectionFails .checkpointCheck .checkpointFlag

inductive SectionMove : Section → SuspendState → Prop where
  | turn {code later} (turn : SectionTurn st.stateAndFlags code later) : SectionMove code (st.at_ later)
  | fails {code fatal} (fails : SectionFails st code fatal) : SectionMove code (st.abort fatal)
  | suspend (request forDebugger) {slots thread}
      (installed : installBarrier request st.thread.activeSuspendBarriers = some slots)
      (isThread : thread = { st.thread.count 1 forDebugger with activeSuspendBarriers := slots }) :
      SectionMove (.suspend request forDebugger)
        { (st.setThread thread).at_
          (.settle (thread.flagOp [.suspendRequest, .activeSuspendBarrier]) (some request)) with
          counted := st.counted ++ [request]
          used := st.used ++ [request] }
  | resume (request forDebugger) {thread} (isThread : thread = st.thread.count (-1) forDebugger)
      (positive : 0 < st.thread.suspendCount) :
      SectionMove (.resume request forDebugger)
        { (st.setThread thread).at_ (.settle (thread.flagOp [.suspendRequest]) none) with
          counted := st.counted.erase request
          log := st.log ++ [.resumed request] }
  | settle (op) : SectionMove (.settle op none) ((st.setWord (op.apply st.stateAndFlags)).at_ .leave)
  | install (op request) : SectionMove (.settle op (some request))
      (((st.setWord (op.apply st.stateAndFlags)).at_ .leave).record (.installed request))
  | clearBarrier (request) {slots} (isSlots : slots = clearSlots request st.thread.activeSuspendBarriers)
      {events} (isEvents : events = if some request ∈ st.thread.activeSuspendBarriers then [.removed request] else []) :
      SectionMove (.clearSuspendBarrier request)
        { (st.setThread { st.thread with activeSuspendBarriers := slots }).at_
          (if slots.any Option.isSome then .leave else .settle (.clear .activeSuspendBarrier) none) with
          log := st.log ++ events }
  | checkpointSet (function) {old} (unchanged : st.stateAndFlags = old) :
      SectionMove (.checkpointSwap function old)
        ((st.setWord { old with checkpointRequest := true }).at_ (.checkpointInsert function))
  | insert (function) : SectionMove (.checkpointInsert function)
      (((st.setThread (st.thread.pushCheckpoint function)).record (.requested function)).at_ .checkpointCheck)
  | emptyCheckpointSet {old} (unchanged : st.stateAndFlags = old) :
      SectionMove (.emptyCheckpointSwap old) ((st.setWord { old with emptyCheckpointRequest := true }).at_ .leave)
  | leave : SectionMove .leave (st.setLock none)

variable {s next : SuspendState}

theorem targetMove_of_advance {spurious : Bool} {fr : Frame}
    {frs : List Frame} (ht : s.advance spurious fr = some (frs, next)) : TargetMove s fr frs next := by
  revert ht
  fun_cases SuspendState.advance s spurious fr
  all_goals intro ht; cases ht
  next set => exact .control (.checkpoint set)
  next => exact .control .noCheckpoint
  next => exact .control .fullSuspendCheck
  next => exact .control .noSuspend
  next => exact .control .emptyCheckpoint
  next => exact .control .checked
  next free => exact .lock .checkpoint (by simpa using free)
  next => exact .fails (.withoutCheckpoint ‹_›)
  next _ _ => exact .takeFirst ‹_› ‹_›
  next => exact .takeLast ‹_› ‹_›
  next => exact .clearCheckpoint _
  next => exact .run _ _
  next done =>
    cases done with
    | true => exact .control .lastRan
    | false => exact .control .ranOne
  next => exact .emptyCheckpoint
  next set => exact .control (.leavingCheckpoint _ set)
  next => exact .control (.leavingEmptyCheckpoint _)
  next other noEmptyCheckpoint =>
    exact .control (.leavingRead _ (eq_false_of_ne_true other) (eq_false_of_ne_true noEmptyCheckpoint))
  next swap => exact .leave _ swap.2
  next => exact .control (.leavingAgain _ _)
  next => exact .control .pass
  next set => exact .fails (.suspendedWithCheckpoint set)
  next noBarrier _ => exact .passed (eq_false_of_ne_true noBarrier)
  next free => exact .lock .pass (by simpa using free)
  next set => exact .claim set
  next => exact .control .quickExit
  next => exact .clearBarrier _
  next => exact .unlock (.pass _)
  next => exact .unlock .quickExit
  next => exact .fails (.noBarrierPassed _)
  next => exact .control (.allPassed _ _)
  next => exact .control (.emptySlot _ _ _)
  next atMost => exact .fails (.barrierValue _ _ _ atMost)
  next => exact .control (.load _ _ _)
  next swap => exact .decrement _ _ _ swap.2
  next => exact .control (.loadAgain _ _ _ _)
  next ready => exact .fails (.stateRunnable _ ready)
  next idle => exact .control (.stateChecked _ idle)
  next => exact .setState _
  next bare => exact .control (.resumeRead (by simpa using bare))
  next => exact .control .resumePass
  next set => exact .fails (.runnableWithCheckpoint set)
  next => exact .control .resumeWait
  next swap => exact .resume swap.2
  next => exact .control (.resumeAgain _)
  next free => exact .lock .resume (by simpa using free)
  next => exact .unlock .wait
  next => exact .control .resumed
  next => exact .unlock .resume
  next => exact .flip

theorem sectionMove (rb : Bool) (s : SuspendState) (code : Section) : SectionMove s code (s.sectionStep rb code) := by
  fun_cases SuspendState.sectionStep rb s code
  · grind [modifySuspendCountInternal]
  · exact .turn (.refused _ _)
  next changed _ =>
    obtain ⟨_, put, rfl, rfl⟩ := modified_suspend changed
    exact .suspend _ _ put rfl
  · exact .fails (.suspendCountZero _ _ (by grind [modifySuspendCountInternal]))
  · grind [modifySuspendCountInternal]
  next changed _ =>
    obtain ⟨pos, rfl, rfl⟩ := modified_resume changed
    exact .resume _ _ rfl pos
  · exact .settle _
  · exact .install _ _
  · exact .fails (.noActiveBarrier _)
  · exact .clearBarrier _ rfl rfl
  · exact .turn (.notRunnable _)
  next ready => exact .turn (.read _ (not_not.mp ready))
  · exact .checkpointSet _ rfl
  · exact .turn (.lost _ _)
  · exact .insert _
  next isClear => exact .fails (.checkpointFlag (by simpa using isClear))
  · exact .turn .checked
  · exact .turn .notRunnableEmpty
  next ready => exact .turn (.readEmpty (not_not.mp ready))
  · exact .emptyCheckpointSet rfl
  · exact .turn (.lostEmpty _)
  · exact .leave

inductive UserCall : SuspendLabel → List Frame → Prop where
  | checkSuspend (user : SuspendState.inUserCode st.frames = true) (runnable : st.stateAndFlags.state = .runnable) :
      UserCall .checkSuspend (.checkSuspend .checkpointRequest :: st.frames)
  | toSuspended (empty : st.frames = []) (runnable : st.stateAndFlags.state = .runnable) {newState}
      (suspended : newState ≠ .runnable) : UserCall (.transitionFromRunnableToSuspended newState)
        [.transitionToSuspended newState none, .passActiveSuspendBarriers]
  | setState (empty : st.frames = []) {newState} (suspended : newState ≠ .runnable) :
      UserCall (.setState newState) [.setState newState false]
  | toRunnable (empty : st.frames = []) (suspended : st.stateAndFlags.state ≠ .runnable) :
      UserCall .transitionFromSuspendedToRunnable [.transitionToRunnable .read]
  | closureReturns {checkpoint rest} (stack : st.frames = .closure checkpoint :: rest) :
      UserCall .closureReturns rest

inductive SuspendMove : SuspendLabel → SuspendState → Prop where
  | target (spurious) {frame tl frames next} (stack : st.frames = frame :: tl)
      (move : TargetMove st frame frames next) : SuspendMove (.target spurious) (next.goto (frames ++ tl))
  | call {label frames} (c : UserCall st label frames) : SuspendMove label (st.goto frames)
  | enter {code} (free : st.lock = none) (may : st.mayEnter code = true) :
      SuspendMove (.enter code) (st.at_ code)
  | goOn {code next} (holds : st.lock = some (.other code)) (move : SectionMove st code next) :
      SuspendMove .goOn next
  | setFlipFunction : SuspendMove .setFlipFunction { st with flipFunction := true }

theorem move_of_suspendStep {rb : Bool}
    {lab : SuspendLabel} (ht : s.step rb lab = some next) : SuspendMove s lab next := by
  obtain ⟨-, ht⟩ := Option.ite_none_left_eq_some.mp ht
  revert ht
  fun_cases SuspendState.take rb s lab
  · rintro ⟨⟩
  next st =>
    intro ht
    obtain ⟨⟨_, _⟩, advanced, rfl⟩ := Option.map_eq_some_iff.mp ht
    exact .target _ st (targetMove_of_advance advanced)
  all_goals rintro ⟨⟩
  next may => exact .call (.checkSuspend may.1 may.2)
  next may => exact .call (.toSuspended (List.isEmpty_iff.mp may.1) may.2.1 may.2.2)
  next may => exact .call (.setState (List.isEmpty_iff.mp may.1) may.2)
  next may => exact .call (.toRunnable (List.isEmpty_iff.mp may.1) may.2)
  next st => exact .call (.closureReturns st)
  next may => exact .enter (Option.isNone_iff_eq_none.mp may.1) may.2
  next hh => exact .goOn hh (sectionMove rb s _)
  · exact .setFlipFunction

end Moves

end Aosp.Art
