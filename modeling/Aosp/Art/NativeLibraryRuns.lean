import Aosp.Art.NativeLibrary

/-! # Native libraries are initialized once

`OnLoadInv` ties the state of a library to the one frame that runs its
`JNI_OnLoad`; it holds in every run.  That a library belongs to one class loader
is only checked where the path is found at the first lookup, so it holds in the
runs in which the loser of a race to insert has the winner's class loader
(`AllocatorInv`).
-/

namespace Aosp.Art

open Aosp.Lib List LoadFrame VmState
open Function (update update_of_ne update_self)

/-! ## `JNI_OnLoad` runs once -/

section Once

variable {L A H : Type}

/-- The call that runs `JNI_OnLoad`, from the insertion of the library to `SetResult`. -/
def LoadPhase.owns : LoadPhase H → Bool
  | .created _ | .onLoad | .finishing _ _ => true
  | _ => false

def LoadFrame.owns (p : String) (frame : LoadFrame L H) : Bool :=
  frame.path = p && frame.phase.owns

def LoadEvent.isOnLoadOf (p : String) : LoadEvent L → Bool
  | .onLoadCalled _ called => called = p
  | _ => false

def onLoadCalls (log : List (LoadEvent L)) (p : String) : Nat :=
  log.countP (LoadEvent.isOnLoadOf p)

/-- `JNI_OnLoad` of the path has completed successfully or does not exist. -/
def OnLoadCompleted (log : List (LoadEvent L)) (p : String) : Prop :=
  .onLoadReturned p true ∈ log ∨ .noOnLoad p ∈ log

def OnLoadRunning (s : VmState L A H) (thr : Nat) (p : String) : Prop :=
  ∃ frame ∈ s.threads thr, frame.path = p ∧ frame.phase = .onLoad

/-- What the log says when the owner of the library is in this phase. -/
def LoadPhase.Agrees (log : List (LoadEvent L)) (p : String) : LoadPhase H → Prop
  | .created _ => onLoadCalls log p = 0
  | .finishing true _ => OnLoadCompleted log p
  | _ => True

inductive LibraryInv (p : String) (ths : Stacks (LoadFrame L H))
    (log : List (LoadEvent L)) : Option (SharedLibrary L A H) → Prop where
  | unknown (free : Absent (owns p) ths) (never : onLoadCalls log p = 0) :
      LibraryInv p ths log none
  | running {library frame} (pending : library.jniOnLoadResult = .pending)
      (owner : Sole (owns p) ths library.jniOnLoadThreadId frame)
      (agrees : frame.phase.Agrees log p) (once : onLoadCalls log p ≤ 1) : LibraryInv p ths log (some library)
  | settled {library} (res : library.jniOnLoadResult ≠ .pending) (noThread : library.jniOnLoadThreadId = 0)
      (free : Absent (owns p) ths)
      (okay : library.jniOnLoadResult = .okay → OnLoadCompleted log p) (once : onLoadCalls log p ≤ 1) :
      LibraryInv p ths log (some library)

structure OnLoadInv (s : VmState L A H) : Prop where
  library : ∀ p, LibraryInv p s.threads s.log (s.libraries p)
  /-- Below the top of a stack are only calls that have called out. -/
  callers : ∀ thr, ∀ frame ∈ (s.threads thr).tail, frame.phase = .opening ∨ frame.phase = .onLoad
  threads : s.threads 0 = []

variable {vm : JavaVm L A H} {s next : VmState L A H} {p : String}
  {log : List (LoadEvent L)} {ev : LoadEvent L} {self : Nat}

theorem OnLoadCompleted.snoc (done : OnLoadCompleted log p) (ev : LoadEvent L) : OnLoadCompleted (log ++ [ev]) p := by
  exact done.imp (mem_append_left _) (mem_append_left _)

theorem onLoadCalls_snoc (o : ev.isOnLoadOf p = false) : onLoadCalls (log ++ [ev]) p = onLoadCalls log p := by
  simp [onLoadCalls, o]

variable {ph : LoadPhase H} {frs : List (LoadFrame L H)}
  {lib : SharedLibrary L A H} {cld : Option L}

theorem LoadPhase.Agrees.snoc (agree : ph.Agrees log p) (o : ev.isOnLoadOf p = false) : ph.Agrees (log ++ [ev]) p := by
  cases ph with
  | created _ => exact (onLoadCalls_snoc o).trans agree
  | finishing was _ =>
    cases was with
    | true => exact OnLoadCompleted.snoc agree ev
    | false => trivial
  | _ => trivial

section

variable {ent : Option (SharedLibrary L A H)}
  {ths : Stacks (LoadFrame L H)} (inv : LibraryInv p ths log ent)
include inv

theorem LibraryInv.snoc (o : ev.isOnLoadOf p = false) : LibraryInv p ths (log ++ [ev]) ent := by
  have cls : onLoadCalls _ p = onLoadCalls log p := onLoadCalls_snoc o
  cases inv with
  | unknown free never => exact .unknown free (cls.trans never)
  | running due ow agree once => exact .running due ow (agree.snoc o) (cls ▸ once)
  | settled res noThread free okay once =>
    exact .settled res noThread free (fun isOkay => (okay isOkay).snoc ev) (cls ▸ once)

/-- A change of one stack that keeps the owner of the library. -/
theorem LibraryInv.goto {self : Nat} (kept : frs.filter (owns p) = (ths self).filter (owns p)) :
    LibraryInv p (update ths self frs) log ent := by
  cases inv with
  | unknown free never => exact .unknown (free.update self (kept.trans (free self))) never
  | running due ow agree once => exact .running due (ow.update kept) agree once
  | settled res noThread free okay once =>
    exact .settled res noThread (free.update self (kept.trans (free self))) okay once

end

/-! The stack of the moving thread, as the owners of a path see it. -/

variable {fr : LoadFrame L H}

theorem filter_owns_of_not_owns (tl : List (LoadFrame L H)) (notOwner : fr.phase.owns = false)
    (p : String) : (fr :: tl).filter (owns p) = tl.filter (owns p) := by
  simp [owns, notOwner]

theorem filter_owns_of_other_path (tl : List (LoadFrame L H)) (o : fr.path ≠ p) :
    (fr :: tl).filter (owns p) = tl.filter (owns p) := by
  simp [owns, o]

theorem LoadTurn.not_owns (turn : LoadTurn vm s fr ph) : fr.phase.owns = false ∧ ph.owns = false := by
  cases turn with
  | found ph | missing ph | wait ph | opened ph | lost ph => exact ⟨by rw [ph]; rfl, rfl⟩

theorem LoadAnswer.not_owns {self : Nat} {res : Bool} (ans : LoadAnswer vm s self fr res) : fr.phase.owns = false := by
  cases ans with
  | turnedAway ph | notOpened ph | recursive ph => rw [ph]; rfl
  | earlier ph =>
    cases ph with
    | inl ph | inr ph => rw [ph]; rfl

section Owner

variable {ths : Stacks (LoadFrame L H)} {ent : Option (SharedLibrary L A H)}
  {self : Nat} {fr : LoadFrame L H} {tl : List (LoadFrame L H)}

theorem LoadFrame.owns_path (owns : fr.phase.owns = true) : fr.owns fr.path = true := by
  simp [LoadFrame.owns, owns]

theorem LibraryInv.owner (inv : LibraryInv fr.path ths log ent) (st : ths self = fr :: tl)
    (owns : fr.phase.owns = true) :
    ∃ lib, ent = some lib ∧ lib.jniOnLoadResult = .pending ∧ lib.jniOnLoadThreadId = self ∧
      Sole (LoadFrame.owns fr.path) ths self fr ∧ fr.phase.Agrees log fr.path ∧ onLoadCalls log fr.path ≤ 1 := by
  have mem : fr ∈ ths self := by rw [st]; exact mem_cons_self
  have own : fr.owns fr.path = true := owns_path owns
  cases inv with
  | unknown free | settled _ _ free =>
    rw [free.not_mem mem] at own
    cases own
  | running due ow agree once =>
    obtain ⟨rfl, rfl⟩ := ow.eq mem own
    exact ⟨_, rfl, due, rfl, ow, agree, once⟩

theorem LibraryInv.gotoOther (inv : LibraryInv p ths log ent) (st : ths self = fr :: tl)
    (o : fr.path ≠ p) (ph : LoadPhase H) : LibraryInv p (update ths self ({ fr with phase := ph } :: tl)) log ent := by
  refine inv.goto ?_
  rw [@filter_owns_of_other_path _ _ _ { fr with phase := ph } tl o, st,
    filter_owns_of_other_path tl o]

theorem LibraryInv.advance (inv : LibraryInv p ths log ent) (st : ths self = fr :: tl)
    (owns : fr.phase.owns = true) (still : ph.owns = true)
    (mine : fr.phase.Agrees log fr.path → onLoadCalls log fr.path ≤ 1 →
      ph.Agrees (log ++ [ev]) fr.path ∧ onLoadCalls (log ++ [ev]) fr.path ≤ 1)
    (o : fr.path ≠ p → ev.isOnLoadOf p = false) :
    LibraryInv p (update ths self ({ fr with phase := ph } :: tl)) (log ++ [ev]) ent := by
  by_cases eq : fr.path = p
  · subst eq
    obtain ⟨_, rfl, due, rfl, sole, agreed, once⟩ := inv.owner st owns
    obtain ⟨agree, stillOnce⟩ := mine agreed once
    have one : List.filter (LoadFrame.owns fr.path) ({ fr with phase := ph } :: tl) = [{ fr with phase := ph }] := by
      rw [filter_cons_of_pos (by simp [LoadFrame.owns, still]), sole.rest st (LoadFrame.owns_path owns)]
    exact .running due (sole.replace one) agree stillOnce
  · exact (inv.gotoOther st eq _).snoc (o eq)

end Owner

variable {tl : List (LoadFrame L H)}

theorem OnLoadInv.library_create (inv : OnLoadInv s) {self : Nat} (st : s.threads self = fr :: tl)
    (notOwner : fr.phase.owns = false) (new : s.libraries fr.path = none) (hd : H)
    (due : lib.jniOnLoadResult = .pending)
    (mine : lib.jniOnLoadThreadId = self) (p : String) :
    LibraryInv p (update s.threads self ({ fr with phase := .created hd } :: tl)) s.log
      (update s.libraries fr.path (some lib) p) := by
  have old := inv.library p
  by_cases eq : fr.path = p
  · subst eq
    rw [new] at old
    rw [update_self]
    cases old with
    | unknown free never =>
      have low : tl.filter (owns fr.path) = [] := by
        rw [← filter_owns_of_not_owns tl notOwner, ← st]
        exact free self
      have one : List.filter (owns fr.path) ({ fr with phase := .created hd } :: tl) =
          [{ fr with phase := .created hd }] := by
        rw [filter_cons_of_pos (by simp [owns, LoadPhase.owns]), low]
      subst mine
      exact .running due (free.sole one) never (by omega)
  · rw [update_of_ne (Ne.symm eq)]
    exact old.gotoOther st eq _

theorem OnLoadInv.library_finish (inv : OnLoadInv s) {self : Nat} (st : s.threads self = fr :: tl)
    {was : Bool} {msg : String} (ph : fr.phase = .finishing was msg) (lib : SharedLibrary L A H) (p : String) :
    LibraryInv p (update s.threads self tl) s.log (update s.libraries fr.path (some (lib.setResult was)) p) := by
  have old := inv.library p
  by_cases eq : fr.path = p
  · subst eq
    have owns : fr.phase.owns = true := by rw [ph]; rfl
    obtain ⟨-, -, -, -, sole, agree, once⟩ := old.owner st owns
    rw [update_self]
    refine .settled ?_ rfl (sole.absent (sole.rest st (owns_path owns))) ?_ once
    · cases was <;> simp [SharedLibrary.setResult]
    · intro okay
      rw [ph] at agree
      cases was with
      | true => exact agree
      | false => cases okay
  · rw [update_of_ne (Ne.symm eq)]
    refine old.goto ?_
    rw [st, filter_owns_of_other_path tl eq]

theorem OnLoadInv.library_move (inv : OnLoadInv s) (move : LoadMove vm s self next) (p : String) :
    LibraryInv p next.threads next.log (next.libraries p) := by
  have old := inv.library p
  cases move with
  | call _ _ _ _ => exact old.goto (filter_owns_of_not_owns _ rfl p)
  | turn st turn =>
    refine old.goto ?_
    rw [filter_owns_of_not_owns _ turn.not_owns.2, st, filter_owns_of_not_owns _ turn.not_owns.1]
  | answer st ans msg =>
    refine (old.goto ?_).snoc rfl
    rw [st, filter_owns_of_not_owns _ ans.not_owns]
  | create st ph new =>
    exact inv.library_create st (by rw [ph]; rfl) new _ rfl rfl p
  | start st ph =>
    refine old.advance st (by rw [ph]; rfl) rfl (fun agree _ => ⟨trivial, ?_⟩) (by simp [LoadEvent.isOnLoadOf])
    -- the first call of this `JNI_OnLoad`: the log has none yet
    rw [ph] at agree
    have none : onLoadCalls s.log _ = 0 := agree
    simp only [onLoadCalls] at none ⊢
    simp [none, LoadEvent.isOnLoadOf]
  | skip st ph =>
    exact old.advance st (by rw [ph]; rfl) rfl
      (fun _ once => ⟨.inr (by simp), by rwa [onLoadCalls_snoc rfl]⟩) fun _ => rfl
  | leave st ph was msg =>
    refine old.advance st (by rw [ph]; rfl) rfl (fun _ once => ⟨?_, by rwa [onLoadCalls_snoc rfl]⟩) fun _ => rfl
    cases was with
    | true => exact .inl (by simp)
    | false => trivial
  | finish st ph _ => exact (inv.library_finish st ph _ p).snoc rfl

theorem LoadMove.stack (move : LoadMove vm s self next) :
    ∃ frs, next.threads = update s.threads self frs ∧
      (self ≠ 0 ∨ s.threads self ≠ []) ∧ (∀ fr ∈ frs.tail, fr ∈ (s.threads self).tail ∨
        (fr ∈ s.threads self ∧ mayCall (s.threads self) = true ∧ (s.threads self).head? = some fr)) := by
  cases move with
  | call hit may p _ =>
    refine ⟨_, rfl, .inl hit, ?_⟩
    intro fr mem
    cases st : s.threads self with
    | nil =>
      rw [st] at mem
      cases mem
    | cons _ _ =>
      rw [st] at mem
      cases mem_cons.mp mem with
      | inl isTop => exact .inr ⟨mem_cons.mpr (.inl isTop), by rw [← st]; exact may, by rw [isTop]; rfl⟩
      | inr low => exact .inl low
  | turn st | create st | start st | skip st | leave st =>
    exact ⟨_, rfl, .inr (by simp [st]), fun _ mem => .inl (by rw [st]; exact mem)⟩
  | answer st | finish st =>
    exact ⟨_, rfl, .inr (by simp [st]), fun _ mem => .inl (by rw [st]; exact mem_of_mem_tail mem)⟩

theorem phase_of_mayCall (may : mayCall frs = true)
    (head : frs.head? = some fr) : fr.phase = .opening ∨ fr.phase = .onLoad := by
  cases frs with
  | nil => cases head
  | cons _ _ =>
    cases head
    rw [mayCall] at may
    split at may
    next ph => exact .inl ph
    next ph => exact .inr ph
    next => cases may

theorem OnLoadInv.move (inv : OnLoadInv s) (move : LoadMove vm s self next) : OnLoadInv next := by
  obtain ⟨_, changed, hit, low⟩ := move.stack
  refine ⟨inv.library_move move, ?_, ?_⟩
  · intro th fr mem
    rw [changed] at mem
    by_cases eq : th = self
    · rw [eq, update_self] at mem
      cases low fr mem with
      | inl old => exact inv.callers self fr old
      | inr call => exact phase_of_mayCall call.2.1 call.2.2
    · rw [update_of_ne eq] at mem
      exact inv.callers th fr mem
  · have notZero : self ≠ 0 := by
      rintro rfl
      cases hit with
      | inl hit => exact hit rfl
      | inr ne => exact ne inv.threads
    rw [changed, update_of_ne (Ne.symm notZero)]
    exact inv.threads

theorem OnLoadInv.start : OnLoadInv (.start : VmState L A H) where
  library _ := .unknown (fun _ => rfl) rfl
  callers := by simp [VmState.start]
  threads := rfl

def OnLoadOnce (s : VmState L A H) : Prop :=
  ∀ p, onLoadCalls s.log p ≤ 1

theorem OnLoadInv.once (inv : OnLoadInv s) : OnLoadOnce s := by
  intro p
  have lib := inv.library p
  generalize s.libraries p = entry at lib
  cases lib with
  | unknown _ _ => omega
  | running _ _ _ once | settled _ _ _ _ once => exact once

theorem OnLoadInv.answer (inv : OnLoadInv s) {self : Nat} (st : s.threads self = fr :: tl)
    (ans : LoadAnswer vm s self fr true) :
    OnLoadCompleted s.log fr.path ∨ ∃ ow ∈ tl, ow.path = fr.path ∧ ow.phase = .onLoad := by
  have lib := inv.library fr.path
  have notOwner := ans.not_owns
  generalize hit : true = res at ans
  cases ans with
  | turnedAway | notOpened => cases hit
  | recursive ph hk hr =>
    rw [hk] at lib
    cases lib with
    | running due ow agree once =>
      -- the owner is not on top, so it is inside its `JNI_OnLoad`
      rename_i ent hf
      rw [hr] at ow
      obtain ⟨mem, owns⟩ := ow.mem
      rw [LoadFrame.owns, Bool.and_eq_true, decide_eq_true_eq] at owns
      rw [st] at mem
      cases mem_cons.mp mem with
      | inl isTop =>
        rw [isTop, notOwner] at owns
        cases owns.2
      | inr low =>
        refine .inr ⟨hf, low, owns.1, ?_⟩
        cases inv.callers self hf (by rw [st]; exact low) with
        | inl opening =>
          rw [opening] at owns
          cases owns.2
        | inr onLoad => exact onLoad
    | settled res noThread free okay once =>
      have zero : self = 0 := hr.symm.trans noThread
      rw [zero, inv.threads] at st
      cases st
  | earlier ph hk calm =>
    rw [hk] at lib
    cases lib with
    | running due ow agree once => exact absurd due calm
    | settled res noThread free okay once => exact .inl (okay (by simpa using hit.symm))

def ReportsLoaded (s next : VmState L A H) (thr : Nat) (p : String)
    (ldr : Option L) : Prop :=
  ∃ errorMsg, next.log = s.log ++ [.returned thr p ldr true errorMsg]

theorem OnLoadInv.reports (inv : OnLoadInv s) (move : LoadMove vm s self next) {th : Nat}
    (met : ReportsLoaded s next th p cld) : OnLoadCompleted next.log p ∨ OnLoadRunning next th p := by
  obtain ⟨msg, logged⟩ := met
  cases move with
  | answer st ans msg =>
    obtain ⟨rfl, rfl, rfl, rfl, rfl⟩ : _ ∧ _ ∧ _ ∧ _ ∧ _ := by
      simpa [ret, record, goto] using logged
    cases inv.answer st ans with
    | inl done => exact .inl (done.snoc _)
    | inr hr =>
      obtain ⟨ow, low, isPath, onLoad⟩ := hr
      refine .inr ⟨ow, ?_, isPath, onLoad⟩
      simpa [ret, record, goto] using low
  | finish st ph _ =>
    obtain ⟨rfl, rfl, rfl, rfl, rfl⟩ : _ ∧ _ ∧ _ ∧ _ ∧ _ := by
      simpa [ret, record, goto, put] using logged
    obtain ⟨-, -, -, -, -, agree, -⟩ := (inv.library _).owner st (by rw [ph]; rfl)
    rw [ph] at agree
    exact .inl (OnLoadCompleted.snoc agree _)
  | _ => simp [goto, put, record] at logged

end Once

/-! ## One class loader -/

section OneLoader

variable {L A H : Type}

/-- Phases of a call that has found or inserted the library. -/
def LoadPhase.bound : LoadPhase H → Bool
  | .lookup | .opening | .opened _ => false
  | _ => true

section

variable (vm : JavaVm L A H) (s : VmState L A H)

def BelongsTo (p : String) (ldr : Option L) : Prop :=
  ∃ lib, s.libraries p = some lib ∧ lib.classLoaderAllocator = vm.allocatorOf ldr

structure AllocatorInv : Prop where
  frames : ∀ thr, ∀ frame ∈ s.threads thr, frame.phase.bound = true → BelongsTo vm s frame.path frame.classLoader
  returned : ∀ thr p ldr errorMsg, .returned thr p ldr true errorMsg ∈ s.log → BelongsTo vm s p ldr

def OneLoader : Prop :=
  ∀ p thr ldr errorMsg o otherLoader otherMsg, .returned thr p ldr true errorMsg ∈ s.log →
      .returned o p otherLoader true otherMsg ∈ s.log → vm.allocatorOf ldr = vm.allocatorOf otherLoader

end

variable {vm : JavaVm L A H} {s next : VmState L A H} {self : Nat}
  {frame : LoadFrame L H} {frs tl : List (LoadFrame L H)} {p : String} {ph : LoadPhase H}
  {lib : SharedLibrary L A H} {cld : Option L}

theorem AllocatorInv.oneLoader (inv : AllocatorInv vm s) : OneLoader vm s := by
  intro p _ _ _ o _ _ first snd
  obtain ⟨_, hk, isFirst⟩ := inv.returned _ _ _ _ first
  obtain ⟨_, alsoKnown, isSecond⟩ := inv.returned _ _ _ _ snd
  cases hk.symm.trans alsoKnown
  exact isFirst.symm.trans isSecond

def loserMatches [DecidableEq A] (vm : JavaVm L A H)
    (s : VmState L A H) (lb : LoadLabel L H) : Bool :=
  match s.threads lb.self with
  | [] => true
  | frame :: _ =>
    match frame.phase, s.libraries frame.path with
    | .opened _, some library => library.classLoaderAllocator = vm.allocatorOf frame.classLoader
    | _, _ => true

theorem BelongsTo.put (fits : BelongsTo vm s p cld) {cg : String}
    (eq : ∀ old, s.libraries cg = some old → lib.classLoaderAllocator = old.classLoaderAllocator) :
    BelongsTo vm (s.put cg lib) p cld := by
  obtain ⟨old, hk, allocator⟩ := fits
  by_cases here : p = cg
  · subst here
    exact ⟨lib, by simp [VmState.put], (eq old hk).trans allocator⟩
  · exact ⟨old, by simpa [VmState.put, update_of_ne here] using hk, allocator⟩

section

variable (inv : AllocatorInv vm s)
include inv

theorem AllocatorInv.of_changes (kept : ∀ p cld, BelongsTo vm s p cld → BelongsTo vm next p cld)
    (changed : next.threads = update s.threads self frs) (newFrames : ∀ frame ∈ frs, frame ∈ s.threads self ∨
      (frame.phase.bound = true → BelongsTo vm next frame.path frame.classLoader))
    (newEvents : ∀ th p cld msg, .returned th p cld true msg ∈ next.log →
      .returned th p cld true msg ∈ s.log ∨ BelongsTo vm next p cld) : AllocatorInv vm next := by
  constructor
  · intro th frame mem cap
    rw [changed] at mem
    by_cases eq : th = self
    · rw [eq, update_self] at mem
      cases newFrames frame mem with
      | inl old => exact kept _ _ (inv.frames self frame old cap)
      | inr new => exact new cap
    · rw [update_of_ne eq] at mem
      exact kept _ _ (inv.frames th frame mem cap)
  · intro th p cld msg mem
    cases newEvents _ _ _ _ mem with
    | inl old => exact kept _ _ (inv.returned _ _ _ _ old)
    | inr new => exact new

theorem AllocatorInv.goto (st : s.threads self = frame :: tl)
    (fits : ph.bound = true → BelongsTo vm s frame.path frame.classLoader) :
    AllocatorInv vm (s.goto self ({ frame with phase := ph } :: tl)) := by
  refine inv.of_changes (fun _ _ fits => fits) rfl ?_ (fun _ _ _ _ mem => .inl mem)
  intro _ mem
  cases mem_cons.mp mem with
  | inl new => exact .inr (by rw [new]; exact fits)
  | inr old => exact .inl (by rw [st]; exact mem_cons_of_mem _ old)

theorem AllocatorInv.ret (st : s.threads self = frame :: tl) {res : Bool}
    (fits : res = true → BelongsTo vm s frame.path frame.classLoader) (msg : String) :
    AllocatorInv vm (s.ret self frame tl res msg) := by
  refine inv.of_changes (fun _ _ fits => fits) rfl ?_ ?_
  · intro _ mem
    exact .inl (by rw [st]; exact mem_cons_of_mem _ mem)
  · intro _ p _ _ mem
    cases mem_append.mp mem with
    | inl old => exact .inl old
    | inr new =>
      cases mem_singleton.mp new
      exact .inr (fits rfl)

theorem AllocatorInv.record {ev : LoadEvent L}
    (mute : ∀ th p cld res msg, ev ≠ .returned th p cld res msg) : AllocatorInv vm (s.record ev) := by
  refine ⟨inv.frames, ?_⟩
  intro th p cld msg mem
  cases mem_append.mp mem with
  | inl old => exact inv.returned _ _ _ _ old
  | inr new => exact absurd (mem_singleton.mp new).symm (mute _ _ _ _ _)

theorem AllocatorInv.put (eq : ∀ old, s.libraries p = some old → lib.classLoaderAllocator = old.classLoaderAllocator) :
    AllocatorInv vm (s.put p lib) :=
  ⟨fun th frame mem cap => (inv.frames th frame mem cap).put eq, fun _ _ _ _ mem => (inv.returned _ _ _ _ mem).put eq⟩

/-- A move keeps the allocators apart if the loser of a race has the winner's. -/
theorem AllocatorInv.move (move : LoadMove vm s self next)
    (fits : ∀ frame tl hd lib, s.threads self = frame :: tl → frame.phase = .opened hd →
      s.libraries frame.path = some lib → lib.classLoaderAllocator = vm.allocatorOf frame.classLoader) :
    AllocatorInv vm next := by
  have top : ∀ {frame tl}, s.threads self = frame :: tl → frame.phase.bound = true →
      BelongsTo vm s frame.path frame.classLoader := by
    intro frame tl st
    exact inv.frames self frame (by rw [st]; exact mem_cons_self)
  cases move with
  | call _ _ p _ =>
    refine inv.of_changes (fun _ _ belongs => belongs) rfl ?_ (fun _ _ _ _ mem => .inl mem)
    intro _ mem
    cases mem_cons.mp mem with
    | inl new => exact .inr (by simp [new, LoadPhase.bound])
    | inr old => exact .inl old
  | turn st turn =>
    refine inv.goto st fun cap => ?_
    cases turn with
    | found ph hk eq => exact ⟨_, hk, eq⟩
    | missing | opened => cases cap
    | wait ph => exact top st (by rw [ph]; rfl)
    | lost ph hk => exact ⟨_, hk, fits _ _ _ _ st ph hk⟩
  | answer st ans msg =>
    refine inv.ret st (fun isTrue => ?_) msg
    cases ans with
    | turnedAway | notOpened => cases isTrue
    | recursive ph hk _ => exact top st (by rw [ph]; rfl)
    | earlier ph hk _ =>
      cases ph with
      | inl ph | inr ph => exact top st (by rw [ph]; rfl)
  | create st ph unknown =>
    refine (inv.put fun old hk => ?_).goto st fun _ => ⟨_, update_self .., rfl⟩
    rw [unknown] at hk
    cases hk
  | start st ph | skip st ph | leave st ph =>
    exact (inv.goto st fun _ => top st (by rw [ph]; rfl)).record (by simp)
  | finish st ph hk =>
    rename_i frame tl was msg lib
    have eq : ∀ old, s.libraries frame.path = some old →
        (lib.setResult was).classLoaderAllocator = old.classLoaderAllocator := by
      intro old isOld
      cases hk.symm.trans isOld
      rfl
    exact (inv.put eq).ret st (fun _ => (top st (by rw [ph]; rfl)).put eq) _

end

theorem AllocatorInv.start : AllocatorInv vm .start where
  frames := by simp [VmState.start]
  returned := by simp [VmState.start]

section Runs

variable [DecidableEq A] (vm : JavaVm L A H)

/-- The runs of the machine, and those in which the loser of a race has the class loader of the winner. -/
def LoadStep (s : VmState L A H) (lb : LoadLabel L H)
    (next : VmState L A H) : Prop :=
  vm.step s lb = some next

def MatchedLoadStep (s : VmState L A H) (lb : LoadLabel L H)
    (next : VmState L A H) : Prop :=
  loserMatches vm s lb = true ∧ vm.step s lb = some next

variable {vm}

theorem run_onLoadInv (reach : Reachable (LoadStep vm) .start s) : OnLoadInv s :=
  reach.invariant .start fun _ _ _ inv ht => inv.move (move_of_loadStep ht)

theorem matched_of_loserMatches {lab : LoadLabel L H} (matches_ : loserMatches vm s lab = true) :
    ∀ frame tl hd lib, s.threads lab.self = frame :: tl → frame.phase = .opened hd →
      s.libraries frame.path = some lib → lib.classLoaderAllocator = vm.allocatorOf frame.classLoader := by
  intro frame tl hd lib st ph hk
  simpa [loserMatches, st, ph, hk] using matches_

theorem run_allocatorInv (reach : Reachable (MatchedLoadStep vm) .start s) : AllocatorInv vm s :=
  reach.invariant .start fun _ _ _ inv ht =>
    inv.move (move_of_loadStep ht.2) (matched_of_loserMatches ht.1)

/-- In every run `JNI_OnLoad` of a path is called at most once, and a call returns true only if it has completed
    successfully, does not exist or is running in the calling thread.  If the loser of a race to insert a library always
    has a class loader with the winner's allocator, all calls that returned true for a path had one allocator. -/
theorem native_library_once_and_one_loader (vm : JavaVm L A H) :
    (∀ s, Reachable (LoadStep vm) .start s →
        OnLoadOnce s ∧
        ∀ lb next, LoadStep vm s lb next → ∀ thr p ldr,
          ReportsLoaded s next thr p ldr → OnLoadCompleted next.log p ∨ OnLoadRunning next thr p) ∧
      ∀ s, Reachable (MatchedLoadStep vm) .start s → OneLoader vm s := by
  refine ⟨fun s reach => ⟨(run_onLoadInv reach).once, ?_⟩, fun s reach => (run_allocatorInv reach).oneLoader⟩
  intro lb next taken thr p ldr reports
  exact (run_onLoadInv reach).reports (move_of_loadStep taken) reports

end Runs

end OneLoader

/-- Two class loaders with allocators of their own; every library has a `JNI_OnLoad`. -/
def twoLoaders : JavaVm Bool (Option Bool) Unit where
  isBootClassLoader _ := false
  allocatorForClassLoader loader := loader
  findSymbol _ _ := true
  showWeak _ := "0x0"
  showLocal _ := "0x0"

/-- Two threads look the path up before either inserts it; the first wins, runs `JNI_OnLoad` and returns. -/
def raceLabels (second : Bool) : List (LoadLabel Bool Unit) :=
  [.call 1 "libgame.so" (some false), .advance 1, .call 2 "libgame.so" (some second), .advance 2,
    .openNativeLibrary 1 (.ok ()), .openNativeLibrary 2 (.ok ()), .advance 1, .advance 1, .onLoad 1 0x00010006,
    .advance 1, .advance 2, .advance 2]

/-- With one class loader the loser of the race is told the library is loaded, as it should be. -/
theorem native_library_same_loader_race :
    ∃ s, Reachable (MatchedLoadStep twoLoaders) .start s ∧
      s.log = [.onLoadCalled 1 "libgame.so", .onLoadReturned "libgame.so" true,
        .returned 1 "libgame.so" (some false) true "", .returned 2 "libgame.so" (some false) true ""] ∧
      OneLoader twoLoaders s := by
  have ran : (runLabels (fun s lb => loserMatches twoLoaders s lb = true) twoLoaders.step .start
      (raceLabels false)).map log = some [.onLoadCalled 1 "libgame.so", .onLoadReturned "libgame.so" true,
        .returned 1 "libgame.so" (some false) true "", .returned 2 "libgame.so" (some false) true ""] := by
    decide +kernel
  obtain ⟨s, found, log⟩ := Option.map_eq_some_iff.mp ran
  have reach : Reachable _ .start s := ⟨_, run_of_runLabels found⟩
  exact ⟨s, reach, log, (native_library_once_and_one_loader twoLoaders).2 s reach⟩

/-- With two class loaders it is told so as well. -/
theorem native_library_two_loader_race : ∃ s, Reachable (LoadStep twoLoaders) .start s ∧ ¬ OneLoader twoLoaders s := by
  have ran : (runLabels (fun _ _ => True) twoLoaders.step .start (raceLabels true)).map log =
      some [.onLoadCalled 1 "libgame.so", .onLoadReturned "libgame.so" true,
        .returned 1 "libgame.so" (some false) true "", .returned 2 "libgame.so" (some true) true ""] := by
    decide +kernel
  obtain ⟨s, found, log⟩ := Option.map_eq_some_iff.mp ran
  have run := run_of_runLabels found
  refine ⟨s, ⟨_, run.mono fun _ _ _ taken => taken.2⟩, ?_⟩
  intro one
  have same := one "libgame.so" 1 (some false) "" 2 (some true) "" (by simp [log]) (by simp [log])
  exact absurd same (by decide)

end Aosp.Art
