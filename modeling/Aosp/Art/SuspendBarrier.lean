import Aosp.Art.ThreadSuspend
import Mathlib.Data.List.Nodup

/-! # The suspension handshake

What other threads rely on when they suspend a thread.  The flags of the target
agree with its suspend count and its barrier slots as soon as the change of the
flags that the holder of the lock still owes is made (`SuspendState.settled`).  A
barrier that was put into a slot is in exactly one place: a slot, the hands of
the target, or it has been decremented or removed (`BarrierInv.places`).  The
target cannot enter `kRunnable` while a request whose barrier it has decremented
is counted, because that request keeps `kSuspendRequest` set.

`suspension_handshake` puts these together for every reachable state.
-/

namespace Aosp.Art

open Aosp.Lib List SuspendState Aosp.Art.Frame ThreadData FlagOp StateAndFlags

/-! ## The stack of the target -/

/-- What a call on top of the stack knows, by whether the state is `kRunnable`. -/
def Frame.Fits (runnable : Bool) : Frame → Prop
  | .closure _ | .checkSuspend _ | .runCheckpointFunction _ | .runEmptyCheckpoint => runnable = true
  | .transitionToSuspended ns old => runnable = true ∧ ns ≠ .runnable ∧
      ∀ word, old = some word → word.checkpointRequest = false ∧ word.emptyCheckpointRequest = false
  | .passActiveSuspendBarriers | .passBarriers _ => runnable = false
  | .setState ns checked => ns ≠ .runnable ∧ (checked = true → runnable = false)
  | .transitionToRunnable .flip => runnable = true
  | .transitionToRunnable (.swap old) => runnable = false ∧ old.testAllFlags = false
  | .transitionToRunnable _ => runnable = false

/-- Whether the state is `kRunnable` when the call returns. -/
def Frame.leaves (runnable : Bool) : Frame → Bool
  | .transitionToSuspended .. | .setState .. => false
  | .transitionToRunnable _ => true
  | _ => runnable

/-- Whether the call can wait for another one that it has made. -/
def Frame.waits : Frame → Bool
  | .passBarriers _ => false
  | .runCheckpointFunction (.running _) => true
  | .runCheckpointFunction _ => false
  | .transitionToRunnable .read => true
  | .transitionToRunnable _ => false
  | _ => true

def Frame.holdsLock : Frame → Bool
  | .runCheckpointFunction (.lock) | .runCheckpointFunction (.running _) => false
  | .runCheckpointFunction _ => true
  | .passBarriers .lock | .passBarriers (.passing ..) => false
  | .passBarriers _ => true
  | .transitionToRunnable .locked | .transitionToRunnable .unlock => true
  | _ => false

/-- The change of the flags that the call is about to make with the lock. -/
def Frame.pendingOp : Frame → Option FlagOp
  | .runCheckpointFunction (.clearFlag _) => some (.clear .checkpointRequest)
  | .passBarriers (.clearFlag _) => some (.clear .activeSuspendBarrier)
  | _ => none

/-- The barriers that the call has taken out of the slots and not decremented. -/
def Frame.claimed : Frame → List (Option Request)
  | .passBarriers (.clearFlag barriers) | .passBarriers (.unlock barriers) | .passBarriers (.passing barriers _ _) =>
    barriers
  | _ => []

attribute [simp] pendingOp.eq_1 pendingOp.eq_2 pendingOp.eq_3 claimed.eq_1 claimed.eq_2
  claimed.eq_3 claimed.eq_4

/-- All these calls wait for a call above them. -/
def Waiting (frs : List Frame) : Prop := ∀ fr ∈ frs, fr.waits = true

/-- Each call on the stack finds the state it needs when the calls above it have returned. -/
def Stacked : Bool → List Frame → Prop
  | _, [] => True
  | runnable, frame :: rest => frame.Fits runnable ∧ Waiting rest ∧ Stacked (frame.leaves runnable) rest

section Frames

variable {word : StateAndFlags} {barriers : Request → Int} {fr locked : Frame}
  {frs tl : List Frame}

@[simp] theorem waiting_nil : Waiting ([] : List Frame) := nofun

@[simp] theorem waiting_cons : Waiting (fr :: tl) ↔ fr.waits = true ∧ Waiting tl := forall_mem_cons

theorem Frame.idle (frame : fr.waits = true) : fr.holdsLock = false ∧ fr.claimed = [] := by
  revert frame
  fun_cases waits fr <;> simp_all [holdsLock]

variable {ru : Bool}

theorem Locks.stacked (locks : Locks fr locked) (frame : Stacked ru (fr :: tl)) : Stacked ru (locked :: tl) := by
  cases locks <;> exact frame

theorem Locks.holdsLock (locks : Locks fr locked) : locked.holdsLock = true := by
  cases locks <;> rfl

theorem Unlocks.stacked (free : Unlocks fr frs) (frame : Stacked ru (fr :: tl)) : Stacked ru (frs ++ tl) := by
  cases free with
  | quickExit => exact frame.2.2
  | _ => exact frame

def topHolds (frs : List Frame) : Bool := frs.head?.any holdsLock

/-- The change of the flags that the call on top is about to make with the lock. -/
def topOp (frs : List Frame) : Option FlagOp := frs.head?.bind pendingOp

@[simp] theorem topHolds_cons : topHolds (fr :: tl) = fr.holdsLock := rfl

@[simp] theorem topOp_cons : topOp (fr :: tl) = fr.pendingOp := rfl

theorem topHolds_eq_false (wait : Waiting tl) : topHolds tl = false := by
  cases tl with
  | nil => rfl
  | cons fr tl => exact (idle (waiting_cons.mp wait).1).1

theorem topOp_eq_none_of_topHolds (free : topHolds frs = false) : topOp frs = none := by
  cases frs with
  | nil => rfl
  | cons fr tl =>
    revert free
    fun_cases pendingOp fr <;> simp [holdsLock]

theorem topOp_eq_none (wait : Waiting tl) : topOp tl = none :=
  topOp_eq_none_of_topHolds (topHolds_eq_false wait)

theorem claimed_eq_nil (wait : Waiting tl) : tl.flatMap claimed = [] :=
  flatMap_eq_nil_iff.mpr fun fr mem => (idle (wait fr mem)).2

theorem Locks.pendingOp (locks : Locks fr locked) : fr.pendingOp = none ∧ locked.pendingOp = none := by
  cases locks <;> exact ⟨rfl, rfl⟩

theorem Unlocks.held (free : Unlocks fr frs) : fr.holdsLock = true ∧ fr.pendingOp = none := by
  cases free <;> exact ⟨rfl, rfl⟩

theorem Unlocks.topOp (free : Unlocks fr frs) (wait : Waiting tl) : topOp (frs ++ tl) = none := by
  cases free with
  | quickExit => exact topOp_eq_none wait
  | _ => rfl

theorem Unlocks.holdsLock (free : Unlocks fr frs) (wait : Waiting tl) : topHolds (frs ++ tl) = false := by
  cases free with
  | quickExit => exact topHolds_eq_false wait
  | _ => rfl

section

variable (ctl : Control word barriers fr frs)
include ctl

theorem Control.stacked (ready : ru = true → word.state = .runnable) (frame : Stacked ru (fr :: tl)) :
    Stacked ru (frs ++ tl) := by
  obtain ⟨fits, wait, locked⟩ := frame
  cases ctl <;>
    simp_all [Stacked, Frame.Fits, leaves, waits, SuspendState.fullSuspendCheck]

theorem Control.pendingOp : fr.pendingOp = none := by
  cases ctl <;> rfl

theorem Control.holdsLock (wait : Waiting tl) : topHolds (frs ++ tl) = fr.holdsLock := by
  cases ctl
  case checked | lastRan | allPassed => exact topHolds_eq_false wait
  all_goals rfl

theorem Control.topOp (wait : Waiting tl) : topOp (frs ++ tl) = none := by
  cases ctl
  case checked | lastRan | allPassed => exact topOp_eq_none wait
  all_goals rfl

theorem Control.claimed (req : Request) : (frs.flatMap claimed).count (some req) = fr.claimed.count (some req) := by
  cases ctl <;> simp [claimed, SuspendState.fullSuspendCheck]

end

end Frames

/-! ## Flags -/

section FlagOps

variable {op : FlagOp} {word : StateAndFlags} {flag o : ThreadFlag} {v : Bool}

def FlagOp.onFlag (op : FlagOp) (flag : ThreadFlag) (v : Bool) : Bool :=
  match op with
  | .or flags => v || flags.contains flag
  | .clear cleared => v && decide (flag ≠ cleared)

@[simp] theorem putFlag_state : (word.putFlag v flag).state = word.state := by
  cases flag <;> rfl

theorem readFlag_putFlag : (word.putFlag v flag).readFlag o = if o = flag then v else word.readFlag o := by
  cases flag <;> cases o <;> rfl

@[simp] theorem apply_state : (op.apply word).state = word.state := by
  cases op with
  | or fg =>
    induction fg generalizing word with
    | nil => rfl
    | cons flag fg ih => exact ih.trans putFlag_state
  | clear flag => exact putFlag_state

@[simp] theorem readFlag_apply : (op.apply word).readFlag flag = op.onFlag flag (word.readFlag flag) := by
  cases op with
  | or fg =>
    simp only [apply, onFlag]
    induction fg generalizing word with
    | nil => simp
    | cons first fg ih =>
      rw [foldl_cons, ih, readFlag_putFlag]
      by_cases eq : flag = first
      · simp [eq]
      · simp [eq]
  | clear cleared =>
    simp only [apply, onFlag, readFlag_putFlag]
    by_cases eq : flag = cleared <;> simp [eq]

variable {th : ThreadData} {fg : List ThreadFlag}

theorem flagOp_suspendRequest (least : 0 ≤ th.suspendCount) (sets : .suspendRequest ∈ fg) :
    (th.flagOp fg).onFlag .suspendRequest v = decide (0 < th.suspendCount) := by
  by_cases zero : th.suspendCount = 0
  · simp [flagOp, onFlag, zero]
  · have pos : 0 < th.suspendCount := by omega
    simp [flagOp, onFlag, zero, sets, pos]

theorem flagOp_activeSuspendBarrier (pos : th.suspendCount = 0 → .activeSuspendBarrier ∉ fg) :
    (th.flagOp fg).onFlag .activeSuspendBarrier v = (v || fg.contains .activeSuspendBarrier) := by
  by_cases zero : th.suspendCount = 0
  · simp [flagOp, onFlag, zero, pos zero]
  · simp [flagOp, onFlag, zero]

end FlagOps

/-! ## Control -/

namespace SuspendState

/-- The change of the flags that another thread is about to make with the lock. -/
def sectionOp : Option Holder → Option FlagOp
  | some (.other (.settle op _)) => some op
  | _ => none

/-- A flag once the holder of the lock has made the change of the flags that it owes. -/
def settledFlag (s : SuspendState) (flag : ThreadFlag) : Bool :=
  match (sectionOp s.lock).or (topOp s.frames) with
  | none => s.stateAndFlags.readFlag flag
  | some op => op.onFlag flag (s.stateAndFlags.readFlag flag)

/-- The request whose barrier is in a slot and not yet active. -/
def settling : Option Holder → List Request
  | some (.other (.settle _ (some request))) => [request]
  | _ => []

attribute [simp] sectionOp.eq_1 sectionOp.eq_2 settling.eq_1 settling.eq_2

end SuspendState

open SuspendState (sectionOp settledFlag)

/-! ## The log -/

section Log

variable {log : List SuspendEvent}

def installedOf (log : List SuspendEvent) : List Request :=
  log.filterMap fun | .installed req => some req | _ => none

def removedOf (log : List SuspendEvent) : List Request :=
  log.filterMap fun | .removed req => some req | _ => none

def decrementedOf (log : List SuspendEvent) : List Request :=
  log.filterMap fun | .decremented req => some req | _ => none

def resumedOf (log : List SuspendEvent) : List Request :=
  log.filterMap fun | .resumed req => some req | _ => none

def SuspendEvent.concernsBarriers : SuspendEvent → Bool
  | .installed _ | .removed _ | .decremented _ | .resumed _ => true
  | _ => false

/-- When the target has passed its barriers, or is back in `kRunnable`, every barrier that was installed
    before has been decremented or removed. -/
def Completed (pre : List SuspendEvent) (ev : SuspendEvent) : Prop :=
  ev = .passed ∨ ev = .runnable → ∀ req ∈ installedOf pre, req ∈ decrementedOf pre ∨ req ∈ removedOf pre

theorem SuspendEvent.projections {ev : SuspendEvent} (o : ev.concernsBarriers = false) (log : List SuspendEvent) :
    installedOf (log ++ [ev]) = installedOf log ∧ decrementedOf (log ++ [ev]) = decrementedOf log ∧
      removedOf (log ++ [ev]) = removedOf log ∧ resumedOf (log ++ [ev]) = resumedOf log := by
  cases ev <;> cases o
  all_goals simp [installedOf, decrementedOf, removedOf, resumedOf]

theorem decrementedOf_decremented (log : List SuspendEvent) (req : Request) :
    decrementedOf (log ++ [.decremented req]) = decrementedOf log ++ [req] := by
  simp [decrementedOf]

end Log

structure ControlInv (s : SuspendState) : Prop where
  stacked : Stacked (decide (s.stateAndFlags.state = .runnable)) s.frames
  held : s.lock = some .target ↔ topHolds s.frames = true

section Moves

variable {s next : SuspendState} {lab : SuspendLabel}
  {code : Section} {fr : Frame} {frames tl : List Frame}

/-- What a section leaves alone. -/
structure Foreign (s next : SuspendState) : Prop where
  frames : next.frames = s.frames
  word : next.stateAndFlags.state = s.stateAndFlags.state
  lock : next.lock ≠ some .target
  barriers : next.barriers = s.barriers

theorem SectionMove.foreign (move : SectionMove s code next) (hh : s.lock = some (.other code)) : Foreign s next := by
  cases move with
  | turn | suspend | resume | clearBarrier | insert | leave => exact ⟨rfl, rfl, nofun, rfl⟩
  | fails => exact ⟨rfl, rfl, by simp [hh], rfl⟩
  | settle | install => exact ⟨rfl, apply_state, nofun, rfl⟩
  | checkpointSet _ same | emptyCheckpointSet same => exact ⟨rfl, by rw [same]; rfl, nofun, rfl⟩

theorem ControlInv.target (inv : ControlInv s) (st : s.frames = fr :: tl)
    (move : TargetMove s fr frames next) : ControlInv (next.goto (frames ++ tl)) := by
  have frame := inv.stacked
  have held := inv.held
  rw [st] at frame held
  have wait := frame.2.1
  have pop := topHolds_eq_false wait
  cases move with
  | control ctl =>
    refine ⟨ctl.stacked (by simp) frame, held.trans ?_⟩
    rw [goto_frames, ctl.holdsLock wait]
    rfl
  | fails | takeFirst | takeLast | claim | decrement => exact ⟨frame, held⟩
  | lock locks free => exact ⟨locks.stacked frame, by simp [locks.holdsLock]⟩
  | unlock frees => exact ⟨frees.stacked frame, by simp [frees.holdsLock wait]⟩
  | clearCheckpoint | clearBarrier =>
    refine ⟨?_, held⟩
    exact frame
  | run =>
    obtain ⟨ru, -, low⟩ := frame
    exact ⟨⟨ru, by simpa [waits] using wait, ru, wait, low⟩, by simp [holdsLock]⟩
  | emptyCheckpoint =>
    exact ⟨by simpa [leaves] using frame.2.2, by simpa [pop, holdsLock] using held⟩
  | leave ns same =>
    have idle := frame.1.2.1
    exact ⟨by simpa [leaves, idle] using frame.2.2, by simpa [pop, holdsLock] using held⟩
  | passed noBarrier => exact ⟨frame.2.2, by simpa [pop, holdsLock] using held⟩
  | setState ns =>
    have idle := frame.1.1
    exact ⟨by simpa [leaves, idle] using frame.2.2, by simpa [pop, holdsLock] using held⟩
  | resume same =>
    exact ⟨by simpa [Stacked, Frame.Fits, leaves] using frame.2, held⟩
  | flip =>
    obtain ⟨ru, -, low⟩ := frame
    exact ⟨by simpa [show decide _ = true from ru, leaves] using low, by simpa [pop, holdsLock] using held⟩

theorem waiting_of_inUserCode {ru : Bool} (user : inUserCode frames = true)
    (stacked : Stacked ru frames) : Waiting frames := by
  cases frames with
  | nil => exact waiting_nil
  | cons fr tl =>
    cases fr with
    | closure cp => exact waiting_cons.mpr ⟨rfl, stacked.2.1⟩
    | _ => cases user

section

variable (c : UserCall s lab frames) (pre : Stacked (decide (s.stateAndFlags.state = .runnable)) s.frames)
include c pre

theorem UserCall.stacked : Stacked (decide (s.stateAndFlags.state = .runnable)) frames := by
  cases c with
  | checkSuspend user ru =>
    exact ⟨by simpa [Frame.Fits] using ru, waiting_of_inUserCode user pre, pre⟩
  | toSuspended emp ru idle => simp [Stacked, Frame.Fits, waits, leaves, ru, idle]
  | setState _ idle | toRunnable _ idle => simpa [Stacked, Frame.Fits] using idle
  | closureReturns st =>
    rw [st] at pre
    exact pre.2.2

theorem UserCall.holdsLock : topHolds frames = false ∧ topHolds s.frames = false := by
  cases c with
  | checkSuspend user ru => exact ⟨rfl, topHolds_eq_false (waiting_of_inUserCode user pre)⟩
  | toSuspended emp | setState emp | toRunnable emp => simp [topHolds, emp, holdsLock]
  | closureReturns st =>
    rw [st] at pre ⊢
    exact ⟨topHolds_eq_false pre.2.1, rfl⟩

end

theorem ControlInv.move (inv : ControlInv s) (move : SuspendMove s lab next) : ControlInv next := by
  cases move with
  | target spurious st move => exact inv.target st move
  | call c =>
    obtain ⟨post, pre⟩ := c.holdsLock inv.stacked
    exact ⟨c.stacked inv.stacked, by simpa [post, pre] using inv.held⟩
  | enter free may =>
    have held := inv.held
    exact ⟨inv.stacked, by simpa [free] using held⟩
  | goOn hh move =>
    have alien := move.foreign hh
    have held := inv.held
    refine ⟨by rw [alien.word, alien.frames]; exact inv.stacked, ?_⟩
    simpa [alien.frames, alien.lock, hh] using held
  | setFlipFunction => exact ⟨inv.stacked, inv.held⟩

/-! ## Sections begin as they may -/

/-- What was checked when the section began. -/
def SuspendState.Entered (s : SuspendState) : Section → Prop
  | .suspend request _ => request ∉ s.used
  | .resume request _ => request ∈ s.counted
  | _ => True

/-- What the target leaves alone. -/
structure Own (s next : SuspendState) : Prop where
  used : next.used = s.used
  counted : next.counted = s.counted
  lock : ∀ code, next.lock = some (.other code) → s.lock = some (.other code)

theorem TargetMove.own (move : TargetMove s fr frames next) : Own s next := by
  cases move with
  | lock | unlock | run => exact ⟨rfl, rfl, nofun⟩
  | _ => exact ⟨rfl, rfl, fun code hh => hh⟩

theorem SuspendState.Entered.congr (entered : s.Entered code) (used : next.used = s.used)
    (hc : next.counted = s.counted) : next.Entered code := by
  cases code with
  | suspend req dbg => exact fun mem => entered (used ▸ mem)
  | resume req dbg =>
    show req ∈ next.counted
    exact hc ▸ entered
  | _ => trivial

variable {la : Section} {req : Request} {slots full : List (Option Request)} {word : StateAndFlags} {th : ThreadData}
  {evs : List SuspendEvent}

theorem SectionTurn.entered (turn : SectionTurn word code la) : s.Entered la := by
  cases turn <;> trivial

/-- The section that another thread is in was entered as it may be. -/
def SuspendState.EnteredAll (s : SuspendState) : Prop :=
  ∀ code, s.lock = some (.other code) → s.Entered code

theorem SectionMove.entered (move : SectionMove s code next) (pre : s.EnteredAll) : next.EnteredAll := by
  intro la hh
  cases move with
  | turn turn =>
    cases hh
    exact turn.entered
  | fails => exact (pre la hh).congr rfl rfl
  | clearBarrier =>
    cases hh
    split <;> trivial
  | leave => cases hh
  | _ =>
    cases hh
    trivial

theorem entered_move (inv : s.EnteredAll) (move : SuspendMove s lab next) : next.EnteredAll := by
  cases move with
  | target spurious st move =>
    exact fun code hh => (inv code (move.own.lock code hh)).congr move.own.used move.own.counted
  | call c => exact fun code hh => (inv code hh).congr rfl rfl
  | enter free may =>
    rename_i code
    intro la hh
    cases hh
    cases code with
    | suspend | resume => simpa [mayEnter, SuspendState.Entered] using may
    | _ => trivial
  | goOn hh move => exact move.entered inv
  | setFlipFunction => exact fun code hh => (inv code hh).congr rfl rfl

/-! ## The flags, the count and the slots -/

structure FlagInv (s : SuspendState) : Prop where
  suspendRequest : s.settledFlag .suspendRequest = decide (0 < s.thread.suspendCount)
  activeBarrier : s.settledFlag .activeSuspendBarrier = s.thread.activeSuspendBarriers.any Option.isSome
  count : s.thread.suspendCount = s.counted.length

theorem settledFlag_eq (noSection : sectionOp s.lock = none) (noTop : topOp s.frames = none)
    (flag : ThreadFlag) : s.settledFlag flag = s.stateAndFlags.readFlag flag := by
  simp [settledFlag, noSection, noTop]

theorem FlagInv.of_same (inv : FlagInv s) (calm : ∀ flag, flag = .suspendRequest ∨ flag = .activeSuspendBarrier →
      next.settledFlag flag = s.settledFlag flag) (cnt : next.thread.suspendCount = s.thread.suspendCount := by rfl)
    (sl : next.thread.activeSuspendBarriers = s.thread.activeSuspendBarriers := by rfl)
    (hc : next.counted = s.counted := by rfl) : FlagInv next where
  suspendRequest := by rw [calm _ (.inl rfl), cnt]; exact inv.suspendRequest
  activeBarrier := by rw [calm _ (.inr rfl), sl]; exact inv.activeBarrier
  count := by rw [cnt, hc]; exact inv.count

theorem FlagInv.target (inv : FlagInv s) (ctl : ControlInv s) (st : s.frames = fr :: tl)
    (move : TargetMove s fr frames next) : FlagInv (next.goto (frames ++ tl)) := by
  have wait := (st ▸ ctl.stacked).2.1
  have held : fr.holdsLock = true → s.lock = some .target := fun hh => ctl.held.mpr (st ▸ hh)
  have pop := topOp_eq_none wait
  cases move with
  | control ctl =>
    exact inv.of_same fun flag _ => by simp [settledFlag, st, ctl.pendingOp, ctl.topOp wait]
  | fails | takeFirst | decrement | passed | flip =>
    exact inv.of_same fun flag _ => by simp [settledFlag, st, pop]
  | lock locks free =>
    exact inv.of_same fun flag _ => by simp [settledFlag, st, free, locks.pendingOp]
  | unlock frees =>
    refine inv.of_same fun flag _ => ?_
    simp [settledFlag, st, held frees.held.1, frees.held.2, frees.topOp wait]
  | takeLast =>
    refine inv.of_same fun flag isFlag => ?_
    rcases isFlag with rfl | rfl <;> simp [settledFlag, st, held rfl, onFlag]
  | claim set =>
    have pre := inv.suspendRequest
    rw [settledFlag_eq (by simp [held rfl]) (by simp [st])] at pre
    refine ⟨?_, ?_, inv.count⟩
    · simpa [settledFlag, held rfl, onFlag] using pre
    · simp [settledFlag, held rfl, onFlag]
  | clearCheckpoint | clearBarrier | run =>
    exact inv.of_same fun flag _ => by simp [settledFlag, st, held rfl]
  | emptyCheckpoint | setState =>
    refine inv.of_same fun flag isFlag => ?_
    rcases isFlag with rfl | rfl <;>
      simp [settledFlag, st, pop, apply, putFlag]
  | leave _ same | resume same =>
    refine inv.of_same fun flag isFlag => ?_
    rcases isFlag with rfl | rfl <;> simp [settledFlag, st, pop, same]

theorem installBarrier_any (put : installBarrier req slots = some full) : full.any Option.isSome = true := by
  revert put
  fun_cases installBarrier req slots with
  | case1 => nofun
  | case2 tl =>
    rintro ⟨⟩
    rfl
  | case3 ht tl =>
    intro put
    obtain ⟨la, -, rfl⟩ := Option.map_eq_some_iff.mp put
    rfl

theorem clearSlots_any (used : (clearSlots req slots).any Option.isSome = true) : slots.any Option.isSome = true := by
  obtain ⟨slot, mem, isSome⟩ := any_eq_true.mp used
  obtain ⟨old, memberOld, rfl⟩ := mem_map.mp mem
  refine any_eq_true.mpr ⟨old, memberOld, ?_⟩
  split at isSome
  · cases isSome
  · exact isSome

theorem pushCheckpoint_kept (th : ThreadData) (fn : Closure) : (th.pushCheckpoint fn).suspendCount = th.suspendCount ∧
      (th.pushCheckpoint fn).activeSuspendBarriers = th.activeSuspendBarriers := by
  fun_cases pushCheckpoint th fn <;> exact ⟨rfl, rfl⟩

theorem SectionTurn.sectionOp (turn : SectionTurn word code la) :
    sectionOp (some (.other code)) = none ∧ sectionOp (some (.other la)) = none := by
  cases turn <;> exact ⟨rfl, rfl⟩

/-- Without the lock the target does not owe a change of the flags. -/
theorem topOp_of_not_target (ctl : ControlInv s) (notTarget : s.lock ≠ some .target) : topOp s.frames = none :=
  topOp_eq_none_of_topHolds (Bool.eq_false_iff.mpr fun top => notTarget (ctl.held.mpr top))

theorem FlagInv.goOn (inv : FlagInv s) (ctl : ControlInv s) (entered : s.EnteredAll)
    (hh : s.lock = some (.other code)) (move : SectionMove s code next) : FlagInv next := by
  have noTop := topOp_of_not_target ctl (by simp [hh])
  cases move with
  | turn turn => exact inv.of_same fun flag _ => by simp [settledFlag, hh, turn.sectionOp]
  | fails fails => exact inv.of_same fun flag _ => rfl
  | suspend req dbg request hit =>
    have cnt := inv.count
    have isSome := installBarrier_any request
    subst hit
    refine ⟨flagOp_suspendRequest (by simp only [ThreadData.count]; omega) (by simp), ?_,
      by simp [ThreadData.count, cnt]⟩
    refine (flagOp_activeSuspendBarrier fun zero => ?_).trans (by simp [isSome])
    simp only [ThreadData.count] at zero
    omega
  | resume req dbg hit pos =>
    have hc : req ∈ s.counted := entered _ hh
    have active := inv.activeBarrier
    rw [settledFlag_eq (by simp [hh]) noTop] at active
    subst hit
    refine ⟨flagOp_suspendRequest (by simp only [ThreadData.count]; omega) (by simp), ?_, ?_⟩
    · exact (flagOp_activeSuspendBarrier fun _ => by simp).trans (by simpa [ThreadData.count] using active)
    · have length := length_erase_of_mem hc
      have cnt := inv.count
      simp only [ThreadData.count, at__thread, setThread_thread]
      omega
  | settle | install | leave => exact inv.of_same fun flag _ => by simp [settledFlag, hh, noTop]
  | clearBarrier req slots events =>
    have ask := inv.suspendRequest
    have active := inv.activeBarrier
    rw [settledFlag_eq (by simp [hh]) noTop] at ask active
    cases used : List.any _ Option.isSome with
    | true =>
      have pre := clearSlots_any (slots ▸ used)
      refine ⟨?_, ?_, inv.count⟩
      · simpa [settledFlag, noTop] using ask
      · rw [pre] at active
        simpa [settledFlag, noTop, used] using active
    | false =>
      refine ⟨?_, ?_, inv.count⟩
      · simpa [settledFlag, onFlag] using ask
      · simp [settledFlag, onFlag, used]
  | checkpointSet fn same | emptyCheckpointSet same =>
    refine inv.of_same fun flag isFlag => ?_
    rcases isFlag with rfl | rfl <;> simp [settledFlag, hh, same]
  | insert fn =>
    refine inv.of_same (fun flag _ => ?_) (pushCheckpoint_kept _ _).1 (pushCheckpoint_kept _ _).2
    simp [settledFlag, hh]

theorem UserCall.topOp (c : UserCall s lab frames) (ctl : ControlInv s) :
    topOp frames = none ∧ Art.topOp s.frames = none := by
  obtain ⟨post, pre⟩ := c.holdsLock ctl.stacked
  exact ⟨topOp_eq_none_of_topHolds post, topOp_eq_none_of_topHolds pre⟩

theorem sectionOp_of_mayEnter (may : s.mayEnter code = true) : sectionOp (some (.other code)) = none := by
  cases code with
  | settle => cases may
  | _ => rfl

theorem FlagInv.move (inv : FlagInv s) (ctl : ControlInv s) (entered : s.EnteredAll)
    (move : SuspendMove s lab next) : FlagInv next := by
  cases move with
  | target spurious st move => exact inv.target ctl st move
  | call c => exact inv.of_same fun flag _ => by simp [settledFlag, c.topOp ctl]
  | enter free may =>
    refine inv.of_same fun flag _ => ?_
    have pre : sectionOp s.lock = none := by rw [free]; rfl
    simp [settledFlag, pre, sectionOp_of_mayEnter may]
  | goOn hh move => exact inv.goOn ctl entered hh move
  | setFlipFunction => exact inv.of_same fun _ _ => rfl

/-! ## Where the barriers are -/

/-- Nothing happens to the barriers. -/
structure Unrelated (s next : SuspendState) : Prop where
  used : next.used = s.used := by rfl
  counted : next.counted = s.counted := by rfl
  barriers : next.barriers = s.barriers := by rfl
  slots : next.thread.activeSuspendBarriers = s.thread.activeSuspendBarriers := by rfl
  settling : settling next.lock = settling s.lock := by simp [*]
  claimed : ∀ req, (next.frames.flatMap claimed).count (some req) =
    (s.frames.flatMap claimed).count (some req) := by simp [*]
  log : next.log = s.log ∨ ∃ ev, ev.concernsBarriers = false ∧ Completed s.log ev ∧ next.log = s.log ++ [ev] := by
      exact .inl rfl
  suspendRequest : next.stateAndFlags.suspendRequest = s.stateAndFlags.suspendRequest := by rfl
  activeBarrier : next.stateAndFlags.activeSuspendBarrier = s.stateAndFlags.activeSuspendBarrier := by rfl
  runnable : next.stateAndFlags.state = .runnable → s.stateAndFlags.state = .runnable ∨
    ∀ req ∈ s.counted, req ∉ decrementedOf s.log := by exact .inl

structure BarrierInv (s : SuspendState) : Prop where
  used : s.used = installedOf s.log ++ settling s.lock
  nodup : s.used.Nodup
  places : ∀ req, s.thread.activeSuspendBarriers.count (some req) +
    (s.frames.flatMap claimed).count (some req) + (decrementedOf s.log).count req +
    (removedOf s.log).count req = s.used.count req
  settling : ∀ req ∈ settling s.lock, some req ∈ s.thread.activeSuspendBarriers
  value : ∀ req, s.barriers req = 1 - (decrementedOf s.log).count req
  counted : ∀ req ∈ s.used, req ∈ s.counted ∨ req ∈ resumedOf s.log
  requested : ∀ req ∈ s.counted, req ∈ installedOf s.log → s.stateAndFlags.suspendRequest = true
  active : ∀ req ∈ installedOf s.log, some req ∈ s.thread.activeSuspendBarriers →
    s.stateAndFlags.activeSuspendBarrier = true
  quiet : ∀ req ∈ s.counted, req ∈ decrementedOf s.log → s.stateAndFlags.state ≠ .runnable
  completed : EachAfter Completed s.log

section

variable (inv : BarrierInv s)
include inv

theorem BarrierInv.unrelated (eq : Unrelated s next) : BarrierInv next := by
  obtain ⟨put, less, gone, back⟩ : installedOf next.log = installedOf s.log ∧
      decrementedOf next.log = decrementedOf s.log ∧ removedOf next.log = removedOf s.log ∧
      resumedOf next.log = resumedOf s.log := by
    rcases eq.log with log | ⟨ev, o, -, log⟩
    · simp [log]
    · rw [log]
      exact ev.projections o s.log
  constructor
  · rw [eq.used, put, eq.settling]
    exact inv.used
  · rw [eq.used]
    exact inv.nodup
  · intro req
    rw [eq.slots, eq.claimed, less, gone, eq.used]
    exact inv.places req
  · rw [eq.settling, eq.slots]
    exact inv.settling
  · rw [eq.barriers, less]
    exact inv.value
  · rw [eq.used, eq.counted, back]
    exact inv.counted
  · rw [eq.counted, put, eq.suspendRequest]
    exact inv.requested
  · rw [put, eq.slots, eq.activeBarrier]
    exact inv.active
  · rw [eq.counted, less]
    intro req hc decremented ru
    rcases eq.runnable ru with pre | none
    · exact inv.quiet req hc decremented pre
    · exact none req hc decremented
  · rcases eq.log with log | ⟨ev, -, done, log⟩
    · exact log ▸ inv.completed
    · rw [log, eachAfter_snoc]
      exact ⟨inv.completed, done⟩

theorem BarrierInv.installed (used : req ∈ s.used)
    (noSlot : some req ∉ s.thread.activeSuspendBarriers) : req ∈ installedOf s.log := by
  rw [inv.used, mem_append] at used
  rcases used with put | settling
  · exact put
  · exact absurd (inv.settling req settling) noSlot

theorem BarrierInv.atMostOnce (req : Request) : s.used.count req ≤ 1 :=
  nodup_iff_count_le_one.mp inv.nodup req

theorem BarrierInv.installed_of_decremented (less : req ∈ decrementedOf s.log) : req ∈ installedOf s.log := by
  have places := inv.places req
  have atMostOnce := inv.atMostOnce req
  have once := count_pos_iff.mpr less
  refine inv.installed (count_pos_iff.mp (by omega)) fun slot => ?_
  have twice := count_pos_iff.mpr slot
  omega

theorem BarrierInv.all_done (noBarrier : s.stateAndFlags.activeSuspendBarrier = false)
    (noneClaimed : s.frames.flatMap claimed = []) (ev : SuspendEvent) : Completed s.log ev := by
  rintro - req put
  have places := inv.places req
  rw [noneClaimed, count_nil] at places
  have used : 0 < s.used.count req := by
    rw [inv.used, count_append]
    have pos := count_pos_iff.mpr put
    omega
  have noSlot : s.thread.activeSuspendBarriers.count _ = 0 :=
    count_eq_zero.mpr fun slot => by simpa [noBarrier] using inv.active req put slot
  by_cases less : req ∈ decrementedOf s.log
  · exact .inl less
  · rw [count_eq_zero.mpr less] at places
    exact .inr (count_pos_iff.mp (by omega))

theorem BarrierInv.claim (st : s.frames = .passBarriers .locked :: tl)
    (noneLess : tl.flatMap claimed = []) (held : s.lock = some .target) :
    BarrierInv ((s.setThread { s.thread with
      activeSuspendBarriers := s.thread.activeSuspendBarriers.map fun _ => none }).goto
        (.passBarriers (.clearFlag s.thread.activeSuspendBarriers) :: tl)) := { inv with
  places := fun req => by
    have places := inv.places req
    have noSlot : (s.thread.activeSuspendBarriers.map fun _ => none).count (some req) = 0 :=
      count_eq_zero.mpr (by simp)
    simp only [st, flatMap_cons, claimed, noneLess, append_nil, count_nil] at places
    simp only [goto_thread, setThread_thread, goto_frames, flatMap_cons,
      claimed, noneLess, append_nil, noSlot, goto_log, setThread_log, goto_used, setThread_used]
    omega
  settling := by simp [held]
  active := fun req _ slot => by simp at slot }

theorem BarrierInv.decrement {cnt : Nat} {curVal : Int}
    (st : s.frames = .passBarriers (.passing (some req :: slots) cnt (some curVal)) :: tl)
    (noneLess : tl.flatMap claimed = []) (idle : s.stateAndFlags.state ≠ .runnable) (same : s.barriers req = curVal) :
    BarrierInv (goto { s.record (.decremented req) with barriers := Function.update s.barriers req (curVal - 1) }
      (.passBarriers (.passing slots (cnt + 1) none) :: tl)) := { inv with
  used := by simpa [installedOf] using inv.used
  places := fun o => by
    have places := inv.places o
    simp only [st, flatMap_cons, claimed, noneLess, append_nil, count_cons] at places
    have less := decrementedOf_decremented s.log req
    have gone : removedOf (s.log ++ [.decremented req]) = removedOf s.log := by simp [removedOf]
    simp only [goto_frames, flatMap_cons, claimed, noneLess, append_nil]
    show _ + _ + (decrementedOf (s.log ++ [.decremented req])).count o +
      (removedOf (s.log ++ [.decremented req])).count o = _
    rw [less, gone, count_append, count_singleton]
    simp only [goto_thread, goto_used, record_thread, record_used]
    by_cases eq : req = o
    · simp only [eq, beq_self_eq_true] at places ⊢
      omega
    · have o : (some req == some o) = false := beq_false_of_ne (by simpa using eq)
      simp only [o, beq_false_of_ne eq] at places ⊢
      omega
  value := fun o => by
    have v := inv.value o
    show Function.update s.barriers req _ o = 1 - (decrementedOf (s.log ++ [.decremented req])).count o
    rw [decrementedOf_decremented]
    by_cases eq : o = req
    · subst eq
      simp
      omega
    · rw [Function.update_of_ne eq, v]
      simp [Ne.symm eq]
  counted := by simpa [resumedOf] using inv.counted
  requested := by simpa [installedOf] using inv.requested
  active := by simpa [installedOf] using inv.active
  quiet := fun _ _ _ => idle
  completed := eachAfter_snoc.mpr ⟨inv.completed, nofun⟩ }

theorem BarrierInv.target (ctl : ControlInv s) (fg : FlagInv s)
    (st : s.frames = fr :: tl) (move : TargetMove s fr frames next) : BarrierInv (next.goto (frames ++ tl)) := by
  obtain ⟨fits, wait, low⟩ := st ▸ ctl.stacked
  have noneLess := claimed_eq_nil wait
  have held : fr.holdsLock = true → s.lock = some .target := fun hh => ctl.held.mpr (st ▸ hh)
  cases move with
  | control ctl => exact inv.unrelated { claimed := fun req => by simp [st, ctl.claimed] }
  | fails | takeFirst | takeLast | clearCheckpoint | emptyCheckpoint | flip => exact inv.unrelated {}
  | lock locks free => cases locks <;> exact inv.unrelated {}
  | unlock frees =>
    have held := held frees.held.1
    cases frees <;> exact inv.unrelated {}
  | run cp done =>
    have held := held rfl
    exact inv.unrelated { log := .inr ⟨.ran cp, rfl, nofun, rfl⟩ }
  | leave ns same =>
    subst same
    exact inv.unrelated {
      log := .inr ⟨.suspended, rfl, nofun, rfl⟩
      runnable := fun ru => absurd ru fits.2.1 }
  | setState ns => exact inv.unrelated { runnable := fun ru => absurd ru fits.1 }
  | passed noBarrier =>
    have completed := inv.all_done noBarrier (by simp [st, noneLess]) .passed
    exact inv.unrelated { log := .inr ⟨.passed, rfl, completed, rfl⟩ }
  | resume same =>
    subst same
    have bare := fits.2
    simp only [testAllFlags, Bool.or_eq_false_iff] at bare
    have completed := inv.all_done bare.2 (by simp [st, noneLess]) .runnable
    refine inv.unrelated {
      log := .inr ⟨.runnable, rfl, completed, rfl⟩
      runnable := fun _ => .inr fun req hc less => ?_ }
    -- the request keeps `kSuspendRequest` set, and the swap has found it clear
    have set := inv.requested req hc (inv.installed_of_decremented less)
    rw [bare.1.1.1] at set
    cases set
  | claim set => exact inv.claim st noneLess (held rfl)
  | clearBarrier barriers =>
    have calm := fg.activeBarrier
    simp only [settledFlag, held rfl, st, sectionOp, topOp_cons, pendingOp,
      onFlag, Option.none_or, ne_eq, not_true_eq_false, decide_false, Bool.and_false] at calm
    refine { inv with
      places := fun req => ?_
      active := fun req _ slot => ?_ }
    · simpa [st] using inv.places req
    · rw [Eq.comm, any_eq_false] at calm
      exact absurd rfl (calm _ slot)
  | decrement req tl cnt same => exact inv.decrement st noneLess (of_decide_eq_false fits) same

end

theorem count_installBarrier (put : installBarrier req slots = some full)
    (o : Request) : full.count (some o) = slots.count (some o) + [req].count o := by
  induction slots generalizing full with
  | nil => cases put
  | cons slot slots ih =>
    cases slot with
    | none =>
      cases put
      simp [count_cons]
    | some ht =>
      obtain ⟨la, late, rfl⟩ := Option.map_eq_some_iff.mp put
      rw [count_cons, count_cons, ih late]
      omega

theorem count_clearSlots (req o : Request) (sl : List (Option Request)) :
    (clearSlots req sl).count (some o) = if o = req then 0 else sl.count (some o) := by
  induction sl with
  | nil => simp [clearSlots]
  | cons slot sl ih =>
    rw [clearSlots, map_cons, ← clearSlots, count_cons, count_cons, ih]
    by_cases isSlot : slot = some req
    · by_cases eq : o = req
      · simp [eq]
      · simp [isSlot, Ne.symm eq]
    · by_cases eq : o = req
      · simp [eq]
      · simp [isSlot, eq]

theorem mem_of_mem_clearSlots {o : Request} (mem : some o ∈ clearSlots req slots) : some o ∈ slots := by
  have pos := count_pos_iff.mpr mem
  rw [count_clearSlots] at pos
  split at pos
  · cases pos
  · exact count_pos_iff.mp pos

theorem FlagInv.requested (fg : FlagInv s) (noSection : sectionOp s.lock = none)
    (noTop : topOp s.frames = none) (hc : req ∈ s.counted) : s.stateAndFlags.suspendRequest = true := by
  have calm := fg.suspendRequest
  rw [settledFlag_eq noSection noTop, readFlag, fg.count] at calm
  have pos := length_pos_of_mem hc
  rw [calm]
  exact decide_eq_true (by omega)

theorem FlagInv.active (fg : FlagInv s) (noSection : sectionOp s.lock = none)
    (noTop : topOp s.frames = none) (slot : some req ∈ s.thread.activeSuspendBarriers) :
    s.stateAndFlags.activeSuspendBarrier = true := by
  have calm := fg.activeBarrier
  rw [settledFlag_eq noSection noTop, readFlag] at calm
  rw [calm]
  exact any_eq_true.mpr ⟨_, slot, rfl⟩

theorem BarrierInv.suspend (inv : BarrierInv s) {dbg : Bool}
    {op : FlagOp} (hh : s.lock = some (.other (.suspend req dbg))) (fresh : req ∉ s.used)
    (placed : installBarrier req s.thread.activeSuspendBarriers = some slots)
    (hit : th = { s.thread.count 1 dbg with activeSuspendBarriers := slots }) :
    BarrierInv { (s.setThread th).at_ (.settle op (some req)) with
      counted := s.counted ++ [req], used := s.used ++ [req] } := by
  have put : installedOf s.log = s.used := by
    simpa [hh] using inv.used.symm
  subst hit
  have pre : ∀ o, some o ∈ slots → o ∈ s.used → some o ∈ s.thread.activeSuspendBarriers := by
    intro o slot isUsed
    have cnt := count_installBarrier placed o
    have pos := count_pos_iff.mpr slot
    have apart : req ≠ o := fun eq => fresh (eq ▸ isUsed)
    rw [count_singleton, beq_false_of_ne apart] at cnt
    rw [cnt] at pos
    exact count_pos_iff.mp pos
  have notDecremented : req ∉ decrementedOf s.log := fun less =>
    fresh (put ▸ inv.installed_of_decremented less)
  refine { inv with
    used := by simp [put]
    nodup := by simpa using inv.nodup.concat fresh
    places := fun o => ?_
    settling := fun o ask => ?_
    counted := fun o isUsed => ?_
    requested := fun o hc isUsed => ?_
    active := fun o isUsed slot => inv.active o isUsed (pre o slot (put ▸ isUsed))
    quiet := fun o hc less => ?_ }
  · have places := inv.places o
    simp only [at__thread, setThread_thread, count_installBarrier placed, count_append]
    simp only [at__frames, setThread_frames, at__log, setThread_log]
    omega
  · obtain rfl := mem_singleton.mp ask
    refine count_pos_iff.mp ?_
    rw [at__thread, setThread_thread, count_installBarrier placed]
    simp
  · rcases mem_append.mp isUsed with old | new
    · exact (inv.counted o old).imp_left (mem_append_left _)
    · exact .inl (mem_append_right _ new)
  · rcases mem_append.mp hc with old | new
    · exact inv.requested o old isUsed
    · obtain rfl := mem_singleton.mp new
      exact absurd (put ▸ isUsed) fresh
  · rcases mem_append.mp hc with old | new
    · exact inv.quiet o old less
    · obtain rfl := mem_singleton.mp new
      exact absurd less notDecremented

/-- What `ClearSuspendBarrier` takes out of the slots counts as removed. -/
theorem BarrierInv.places_cleared (inv : BarrierInv s)
    (events : evs = if some req ∈ s.thread.activeSuspendBarriers then [.removed req] else []) (o : Request) :
    (if o = req then 0 else s.thread.activeSuspendBarriers.count (some o)) +
      (s.frames.flatMap claimed).count (some o) + (decrementedOf s.log).count o +
      (removedOf (s.log ++ evs)).count o = s.used.count o := by
  have places := inv.places o
  have gone : removedOf (s.log ++ evs) = removedOf s.log ++ removedOf evs := by simp [removedOf]
  rw [gone, count_append]
  by_cases eq : o = req
  · subst eq
    have atMostOnce := inv.atMostOnce o
    rw [if_pos rfl]
    by_cases slot : some o ∈ s.thread.activeSuspendBarriers
    · have pos := count_pos_iff.mpr slot
      have one : (removedOf evs).count o = 1 := by simp [events, slot, removedOf]
      omega
    · have zero := count_eq_zero.mpr slot
      have none : (removedOf evs).count o = 0 := by simp [events, slot, removedOf]
      omega
  · have none : (removedOf evs).count o = 0 := by
      rw [events]
      split <;> simp [removedOf, Ne.symm eq]
    rw [if_neg eq]
    omega

theorem BarrierInv.clearBarrier (inv : BarrierInv s) (hh : s.lock = some (.other (.clearSuspendBarrier req)))
    (noSettling : SuspendState.settling (some (.other la)) = [])
    (isSlots : slots = clearSlots req s.thread.activeSuspendBarriers)
    (events : evs = if some req ∈ s.thread.activeSuspendBarriers then [.removed req] else []) :
    BarrierInv { (s.setThread { s.thread with activeSuspendBarriers := slots }).at_ la with
      log := s.log ++ evs } := by
  obtain ⟨put, less, back⟩ : installedOf (s.log ++ evs) = installedOf s.log ∧
      decrementedOf (s.log ++ evs) = decrementedOf s.log ∧ resumedOf (s.log ++ evs) = resumedOf s.log := by
    rw [events]
    split <;> simp [installedOf, decrementedOf, resumedOf]
  have done : EachAfter Completed (s.log ++ evs) := by
    rw [events]
    split
    · exact eachAfter_snoc.mpr ⟨inv.completed, nofun⟩
    · simpa using inv.completed
  exact { inv with
    used := by
      have pre : SuspendState.settling s.lock = [] := by rw [hh]; rfl
      simpa [noSettling, put, pre] using inv.used
    places := fun o => by
      simp only [SuspendState.at__thread, SuspendState.setThread_thread, isSlots, count_clearSlots, less]
      exact inv.places_cleared events o
    settling := by simp [noSettling]
    value := by simpa [less] using inv.value
    counted := by simpa [back] using inv.counted
    requested := by simpa [put] using inv.requested
    active := fun o installed slot =>
      inv.active o (put ▸ installed) (mem_of_mem_clearSlots (isSlots ▸ slot))
    quiet := by simpa [less] using inv.quiet
    completed := done }

theorem BarrierInv.goOn (inv : BarrierInv s) (ctl : ControlInv s) (entered : s.EnteredAll)
    (fg : FlagInv next) (hh : s.lock = some (.other code)) (move : SectionMove s code next) : BarrierInv next := by
  have noTop : topOp s.frames = none := topOp_of_not_target ctl (by simp [hh])
  cases move with
  | turn turn => cases turn <;> exact inv.unrelated {}
  | fails | leave => exact inv.unrelated {}
  | checkpointSet _ same | emptyCheckpointSet same =>
    subst same
    exact inv.unrelated {}
  | insert fn =>
    exact inv.unrelated {
      slots := (pushCheckpoint_kept _ _).2
      log := .inr ⟨.requested fn, rfl, nofun, rfl⟩ }
  | suspend req dbg ask hit =>
    exact inv.suspend hh (entered _ hh) ask hit
  | resume req dbg hit pos =>
    subst hit
    exact { inv with
      used := by simpa [hh, installedOf] using inv.used
      places := by simpa [decrementedOf, removedOf, ThreadData.count] using inv.places
      settling := nofun
      value := by simpa [decrementedOf] using inv.value
      counted := fun o isUsed => by
        by_cases eq : o = req
        · exact .inr (by simp [resumedOf, eq])
        · refine (inv.counted o isUsed).imp (mem_erase_of_ne eq).mpr fun back => ?_
          simpa [resumedOf, eq] using back
      requested := fun o hc => by
        simpa [installedOf] using inv.requested o (mem_of_mem_erase hc)
      active := by simpa [installedOf, ThreadData.count] using inv.active
      quiet := fun o hc => by simpa [decrementedOf] using inv.quiet o (mem_of_mem_erase hc)
      completed := eachAfter_snoc.mpr ⟨inv.completed, nofun⟩ }
  | settle op =>
    exact { inv with
      used := by simpa [hh] using inv.used
      settling := nofun
      requested := fun o hc _ => fg.requested rfl noTop hc
      active := fun o _ slot => fg.active rfl noTop slot
      quiet := by simpa using inv.quiet }
  | install op req =>
    exact { inv with
      used := by simpa [hh, installedOf] using inv.used
      places := by simpa [decrementedOf, removedOf] using inv.places
      settling := nofun
      value := by simpa [decrementedOf] using inv.value
      counted := by simpa [resumedOf] using inv.counted
      requested := fun o hc _ => fg.requested rfl noTop hc
      active := fun o _ slot => fg.active rfl noTop slot
      quiet := by simpa [decrementedOf] using inv.quiet
      completed := eachAfter_snoc.mpr ⟨inv.completed, nofun⟩ }
  | clearBarrier req isSlots events => exact inv.clearBarrier hh (by split <;> rfl) isSlots events

theorem UserCall.claimed (c : UserCall s lab frames) : frames.flatMap claimed = s.frames.flatMap claimed := by
  cases c with
  | checkSuspend => rfl
  | toSuspended emp | setState emp | toRunnable emp => simp [emp]
  | closureReturns st => simp [st]

theorem settling_of_mayEnter (may : s.mayEnter code = true) : settling (some (.other code)) = [] := by
  cases code with
  | settle => cases may
  | _ => rfl

theorem BarrierInv.move (inv : BarrierInv s) (ctl : ControlInv s) (entered : s.EnteredAll)
    (fg : FlagInv s) (move : SuspendMove s lab next) : BarrierInv next := by
  have flagsNext := fg.move ctl entered move
  cases move with
  | target spurious st move => exact inv.target ctl fg st move
  | call c => exact inv.unrelated { claimed := by simp [c.claimed] }
  | enter free may => exact inv.unrelated { settling := by simp [settling_of_mayEnter may, free] }
  | goOn hh move => exact inv.goOn ctl entered flagsNext hh move
  | setFlipFunction => exact inv.unrelated {}

end Moves

/-! ## Runs -/

def SuspendStep (rb : Bool) (pre : SuspendState)
    (lb : SuspendLabel) (post : SuspendState) : Prop :=
  pre.step rb lb = some post

structure SuspendInv (s : SuspendState) : Prop where
  control : ControlInv s
  entered : s.EnteredAll
  flags : FlagInv s
  barriers : BarrierInv s

theorem SuspendInv.start (ts : ThreadState) : SuspendInv (start ts : SuspendState) where
  control := ⟨trivial, by simp [SuspendState.start, topHolds]⟩
  entered := nofun
  flags := ⟨rfl, rfl, rfl⟩
  barriers := {
    used := rfl
    nodup := nodup_nil
    places := fun req => rfl
    settling := nofun
    value := fun req => rfl
    counted := nofun
    requested := nofun
    active := nofun
    quiet := nofun
    completed := eachAfter_nil _ }

theorem SuspendInv.of_reachable {rb : Bool} {ts : ThreadState} {s : SuspendState}
    (reach : Reachable (SuspendStep rb) (.start ts) s) : SuspendInv s := by
  refine reach.invariant (.start ts) fun pre lab post inv ht => ?_
  have move := move_of_suspendStep ht
  exact {
    control := inv.control.move move
    entered := entered_move inv.entered move
    flags := inv.flags.move inv.control inv.entered move
    barriers := inv.barriers.move inv.control inv.entered inv.flags move }

/-- The handshake in one state.  `log` has what happened to the barriers so far. -/
structure SuspensionHandshake (s : SuspendState) : Prop where
  suspendRequest : s.lock = none → (s.stateAndFlags.suspendRequest = true ↔ 0 < s.thread.suspendCount)
  activeBarrier : s.lock = none →
    (s.stateAndFlags.activeSuspendBarrier = true ↔ ∃ req, some req ∈ s.thread.activeSuspendBarriers)
  /-- An installed barrier is in a slot, in the hands of the target, decremented or removed, and only one of these. -/
  once : ∀ req ∈ installedOf s.log, s.thread.activeSuspendBarriers.count (some req) +
    (s.frames.flatMap claimed).count (some req) + (decrementedOf s.log).count req + (removedOf s.log).count req = 1
  /-- The value of a barrier says whether it was decremented. -/
  value : ∀ req, s.barriers req = 1 - (decrementedOf s.log).count req
  /-- No barrier is left behind when the target has passed its barriers or becomes runnable. -/
  completed : EachAfter Completed s.log
  quiet : ∀ req ∈ decrementedOf s.log, req ∉ resumedOf s.log → s.stateAndFlags.state ≠ .runnable

theorem suspension_handshake (rb : Bool) (threadState : ThreadState) (s : SuspendState)
    (reach : Reachable (SuspendStep rb) (.start threadState) s) : SuspensionHandshake s := by
  have inv := SuspendInv.of_reachable reach
  have settled : s.lock = none → ∀ flag, s.settledFlag flag = s.stateAndFlags.readFlag flag := fun free =>
    settledFlag_eq (by rw [free]; rfl) (topOp_of_not_target inv.control (by simp [free]))
  refine ⟨fun free => ?_, fun free => ?_, fun req installed => ?_, inv.barriers.value, inv.barriers.completed, ?_⟩
  · have flag := inv.flags.suspendRequest
    rw [settled free, readFlag] at flag
    simp [flag]
  · have flag := inv.flags.activeBarrier
    rw [settled free, readFlag] at flag
    simp [flag, Option.isSome_iff_exists]
  · rw [inv.barriers.places req]
    refine Nat.le_antisymm (inv.barriers.atMostOnce req) (count_pos_iff.mpr ?_)
    rw [inv.barriers.used]
    exact mem_append_left _ installed
  · intro req decremented notResumed
    have installed := inv.barriers.installed_of_decremented decremented
    have isUsed : req ∈ s.used := by
      rw [inv.barriers.used]
      exact mem_append_left _ installed
    exact inv.barriers.quiet req ((inv.barriers.counted req isUsed).resolve_right notResumed) decremented

/-- One request against a running thread, up to the decrement of its barrier. -/
theorem suspension_handshake_one_request :
    ∃ s : SuspendState, Reachable (SuspendStep true) (.start .runnable) s ∧
      s.log = [.installed 0, .suspended, .decremented 0] ∧ SuspensionHandshake s := by
  have ran : (runLabels (fun _ _ => True) (step true) (.start .runnable : SuspendState)
      ([.enter (.suspend 0 false), .goOn, .goOn, .goOn, .checkSuspend] ++ List.replicate 11 (.target false))).map
        log = some [.installed 0, .suspended, .decremented 0] := by
    decide +kernel
  obtain ⟨s, found, log⟩ := Option.map_eq_some_iff.mp ran
  have reach : Reachable _ _ s :=
    ⟨_, (run_of_runLabels found).mono fun _ _ _ taken => taken.2⟩
  exact ⟨s, reach, log, suspension_handshake true .runnable s reach⟩

end Aosp.Art
