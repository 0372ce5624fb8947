import Aosp.Art.ClassInit
import Mathlib.Data.List.Chain

/-! # The static initializer of a class runs once

`ClassInv` ties the status of a class to the one call that has marked it as
initializing, `StackReady` says that a call which is past the superclass leaves a
superclass behind that is initialized or is being initialized further down the
stack.  Together they are `InitInv`, which every step keeps.
-/

namespace Aosp.Art

open Aosp.Lib List ClassHierarchy InitFrame InitState
open Function (update update_of_ne update_self)

section

variable {C : Type} [DecidableEq C]

/-! ## One owner for each class -/

/-- The call has marked the class as initializing. -/
def InitFrame.owns (klass : C) : InitFrame C → Bool
  | .initializeClass o ph => o = klass && ph.owns
  | .initializeDefaultInterface _ _ => false

def InitPhase.beforeClinit : InitPhase C → Bool
  | .superClass | .inSuper | .interfaces _ | .inInterface _ _ | .staticValues => true
  | _ => false

/-- The call may still start the static initializer. -/
def InitFrame.beforeClinit : InitFrame C → Bool
  | .initializeClass _ phase => phase.beforeClinit
  | .initializeDefaultInterface _ _ => false

def InitEvent.isStartOf (klass : C) : InitEvent C → Bool
  | .clinitStarted _ started => started = klass
  | .returned _ _ _ => false

def clinitStarts (log : List (InitEvent C)) (klass : C) : Nat :=
  log.countP (InitEvent.isStartOf klass)

inductive ClassInv (klass : C) (ths : Stacks (InitFrame C)) (log : List (InitEvent C)) :
    ClassStatus → Prop where
  | idle {status} (isIdle : status = .notVerified ∨ status = .verified) (free : Absent (owns klass) ths)
      (never : clinitStarts log klass = 0) : ClassInv klass ths log status
  | running {thread frame} (owner : Sole (owns klass) ths thread frame)
      (pre : frame.beforeClinit = true → clinitStarts log klass = 0) (once : clinitStarts log klass ≤ 1) :
      ClassInv klass ths log (.initializing thread)
  | settled {status} (isFinal : status = .initialized ∨ status = .erroneous)
      (free : Absent (owns klass) ths) (once : clinitStarts log klass ≤ 1) :
      ClassInv klass ths log status

variable {klass : C} {ths : Stacks (InitFrame C)} {log : List (InitEvent C)} {sts : ClassStatus} {self : Nat}
  {ev : InitEvent C} {la : C → ClassStatus} {low : List (InitFrame C)}

theorem clinitStarts_snoc (o : ev.isStartOf klass = false) :
    clinitStarts (log ++ [ev]) klass = clinitStarts log klass := by
  simp [clinitStarts, o]

theorem ClassInv.snoc (inv : ClassInv klass ths log sts)
    (o : ev.isStartOf klass = false) : ClassInv klass ths (log ++ [ev]) sts := by
  have start : clinitStarts _ klass = clinitStarts log klass := clinitStarts_snoc o
  cases inv with
  | idle isIdle free never => exact .idle isIdle free (start.trans never)
  | running ow pre once => exact .running ow (fun before => start.trans (pre before)) (start ▸ once)
  | settled isFinal free once => exact .settled isFinal free (start ▸ once)

/-- The calls that own the class are still there, and none goes back to before its static initializer. -/
def KeepsOwner (klass : C) (pre post : List (InitFrame C)) : Prop :=
  List.Forall₂ (fun frame next : InitFrame C => next.beforeClinit = true → frame.beforeClinit = true)
    (pre.filter (owns klass)) (post.filter (owns klass))

theorem KeepsOwner.refl (kl : C) (frs : List (InitFrame C)) : KeepsOwner kl frs frs :=
  forall₂_same.mpr fun _ _ before => before

variable {before post : List (InitFrame C)} {ph : InitPhase C} {o : C} {thr : Nat}

theorem KeepsOwner.append {tl late : List (InitFrame C)} (first : KeepsOwner klass before post)
    (snd : KeepsOwner klass tl late) : KeepsOwner klass (before ++ tl) (post ++ late) := by
  unfold KeepsOwner
  rw [filter_append, filter_append]
  exact rel_append first snd

theorem ClassInv.goto (inv : ClassInv klass ths log sts) {frs : List (InitFrame C)}
    (keep : KeepsOwner klass (ths self) frs) : ClassInv klass (update ths self frs) log sts := by
  cases inv with
  | idle isIdle free never => exact .idle isIdle (free.change keep) never
  | running ow before once =>
    obtain ⟨next, same, sole⟩ := ow.change keep
    refine .running sole (fun isBefore => before ?_) once
    cases same with
    | inl eq => rw [← eq]; exact isBefore
    | inr same => exact same isBefore
  | settled isFinal free once => exact .settled isFinal (free.change keep) once

/-! ## How the stacks change -/

def InitFrame.callOf : InitFrame C → Bool × C
  | .initializeClass klass _ => (true, klass)
  | .initializeDefaultInterface iface _ => (false, iface)

def ClassHierarchy.Calls (hier : ClassHierarchy C) (caller : InitFrame C) (callee : Bool × C) : Prop :=
  match caller with
  | .initializeClass klass .inSuper => callee.1 = true ∧ hier.directSuperclass klass = some callee.2
  | .initializeClass _ (.inInterface iface _) => callee = (false, iface)
  | .initializeClass _ .clinit => callee.1 = true
  | .initializeDefaultInterface _ (.inSuperInterface superIface _) => callee = (false, superIface)
  | .initializeDefaultInterface iface .ensuring => callee = (true, iface)
  | _ => False

/-- A call that has just been made. -/
inductive ClassHierarchy.Entry (hier : ClassHierarchy C) : InitFrame C → Prop where
  | initializeClass (klass : C) : Entry hier (.initializeClass klass .entered)
  | initializeDefaultInterface (ifc : C) :
      Entry hier (.initializeDefaultInterface ifc (.superInterfaces (hier.directInterfaces ifc)))

/-- The frame goes on as `last`, with `calls` on top of it. -/
structure TurnShape (hier : ClassHierarchy C) (frame : InitFrame C) (calls : List (InitFrame C))
    (last : InitFrame C) : Prop where
  callOf : last.callOf = frame.callOf
  owns : ∀ klass, last.owns klass = frame.owns klass
  before : last.beforeClinit = true → frame.beforeClinit = true
  callee : calls = [] ∨ ∃ callee, calls = [callee] ∧ hier.Entry callee ∧ hier.Calls last callee.callOf

variable {hier : ClassHierarchy C} {s next : InitState C} {frame fr last : InitFrame C}
  {cls frs tl : List (InitFrame C)}

theorem InitTurn.shape (turn : InitTurn hier s self frame frs) :
    ∃ cls last, frs = cls ++ [last] ∧ TurnShape hier frame cls last := by
  cases turn with
  | wait low mute => obtain rfl | rfl := low <;> exact ⟨[], _, rfl, rfl, fun _ => rfl, id, .inl rfl⟩
  | callSuper super_ =>
    exact ⟨[_], _, rfl, rfl, fun _ => rfl, id, .inr ⟨_, rfl, .initializeClass _, rfl, super_⟩⟩
  | callInterface | callSuperInterface =>
    exact ⟨[_], _, rfl, rfl, fun _ => rfl, id, .inr ⟨_, rfl, .initializeDefaultInterface _, rfl⟩⟩
  | ensure default_ => exact ⟨[_], _, rfl, rfl, fun _ => rfl, id, .inr ⟨_, rfl, .initializeClass _, rfl⟩⟩
  | _ => exact ⟨[], _, rfl, rfl, fun _ => rfl, id, .inl rfl⟩

theorem ClassHierarchy.Entry.not_owns (ent : hier.Entry frame) (kl : C) : frame.owns kl = false := by
  cases ent with
  | initializeClass o => simp [owns, InitPhase.owns]
  | initializeDefaultInterface ic => rfl

omit [DecidableEq C] in
theorem resume_callOf (res : Bool) (fr : InitFrame C) : (hier.resume res fr).callOf = fr.callOf := by
  unfold resume
  split <;> rfl

theorem resume_owns (res : Bool) (fr : InitFrame C) (kl : C) : (hier.resume res fr).owns kl = fr.owns kl := by
  unfold resume
  split <;> cases res <;> rfl

omit [DecidableEq C] in
theorem resume_beforeClinit (res : Bool) (fr : InitFrame C)
    (pre : (hier.resume res fr).beforeClinit = true) : fr.beforeClinit = true := by
  unfold resume at pre
  split at pre <;> first | rfl | exact pre

theorem KeepsOwner.single (owns : last.owns klass = frame.owns klass)
    (pre : last.beforeClinit = true → frame.beforeClinit = true) : KeepsOwner klass [frame] [last] := by
  unfold KeepsOwner
  cases ow : frame.owns klass with
  | true => simpa [ow, owns.trans ow] using pre
  | false => simp [ow, owns.trans ow]

theorem KeepsOwner.push (keep : KeepsOwner klass before post) (free : fr.owns klass = false) :
    KeepsOwner klass before (fr :: post) := by
  rwa [KeepsOwner, filter_cons_of_neg (by simp [free])]

theorem KeepsOwner.pop (keep : KeepsOwner klass before post) (free : fr.owns klass = false) :
    KeepsOwner klass (fr :: before) post := by
  rwa [KeepsOwner, filter_cons_of_neg (by simp [free])]

theorem InitTurn.keepsOwner (turn : InitTurn hier s self fr frs) (kl : C)
    (tl : List (InitFrame C)) : KeepsOwner kl (fr :: tl) (frs ++ tl) := by
  obtain ⟨cls, last, rfl, shape⟩ := turn.shape
  have keep : KeepsOwner kl [fr] [last] := .single (shape.owns kl) shape.before
  have low : KeepsOwner kl _ _ := keep.append (.refl kl tl)
  cases shape.callee with
  | inl none => simpa [none] using low
  | inr call =>
    obtain ⟨callee, one, ent, -⟩ := call
    simpa [one] using low.push (ent.not_owns kl)

theorem resumeTop_keepsOwner (res : Bool) (tl : List (InitFrame C)) (kl : C) :
    KeepsOwner kl tl (hier.resumeTop res tl) := by
  cases tl with
  | nil => exact .refl kl []
  | cons caller low =>
    have keep : KeepsOwner kl [caller] [hier.resume res caller] :=
      .single (resume_owns res caller kl) (resume_beforeClinit res caller)
    exact keep.append (.refl kl low)

/-! ## The owners through a step -/

theorem owns_iff : (initializeClass o ph).owns klass = true ↔ o = klass ∧ ph.owns = true := by
  simp [owns]

theorem owns_eq_false_of_ne (ne : o ≠ klass) : (initializeClass o ph).owns klass = false := by
  simp [owns, ne]

theorem owns_eq_false_of_free (o : C) (free : ph.owns = false) : (initializeClass o ph).owns klass = false := by
  simp [owns, free]

omit [DecidableEq C] in
theorem owns_of_or {first snd : InitPhase C} (was : ph = first ∨ ph = snd) (owns : first.owns = true)
    (alsoOwns : snd.owns = true) : ph.owns = true := by
  cases was with
  | inl was | inr was => rwa [was]

/-- The calls for other classes do not matter to the owner of this one. -/
theorem KeepsOwner.of_ne {la : InitPhase C} (ne : o ≠ klass) (tl : List (InitFrame C)) :
    KeepsOwner klass (.initializeClass o ph :: tl) (.initializeClass o la :: tl) :=
  ((KeepsOwner.refl klass tl).push (owns_eq_false_of_ne ne)).pop (owns_eq_false_of_ne ne)

section

variable (inv : ClassInv klass ths log sts)
include inv

theorem ClassInv.owner (mem : frame ∈ ths self) (owns : frame.owns klass = true) :
    sts = .initializing self ∧ Sole (InitFrame.owns klass) ths self frame ∧
      (frame.beforeClinit = true → clinitStarts log klass = 0) ∧ clinitStarts log klass ≤ 1 := by
  cases inv with
  | idle _ free | settled _ free =>
    rw [free.not_mem mem] at owns
    cases owns
  | running ow before once =>
    obtain ⟨rfl, rfl⟩ := ow.eq mem owns
    exact ⟨rfl, ow, before, once⟩

theorem ClassInv.top (st : ths self = .initializeClass klass ph :: tl) (owns : ph.owns = true) :
    sts = .initializing self ∧ Sole (InitFrame.owns klass) ths self (.initializeClass klass ph) ∧
      (ph.beforeClinit = true → clinitStarts log klass = 0) ∧ clinitStarts log klass ≤ 1 ∧
      tl.filter (InitFrame.owns klass) = [] := by
  have own : (initializeClass klass ph).owns klass = true := owns_iff.mpr ⟨rfl, owns⟩
  obtain ⟨isStatus, sole, before, once⟩ := inv.owner (by rw [st]; exact mem_cons_self) own
  exact ⟨isStatus, sole, before, once, sole.rest st own⟩

theorem ClassInv.ret (st : ths self = frame :: tl) (free : frame.owns klass = false) (res : Bool) :
    ClassInv klass (update ths self (hier.resumeTop res tl)) log sts := by
  refine inv.goto ?_
  rw [st]
  exact (resumeTop_keepsOwner res tl klass).pop free

end

/-- The class becomes initializing, and the call on top is its owner. -/
theorem ClassInv.take (inv : ClassInv klass ths log .verified)
    (st : ths self = .initializeClass klass ph :: tl) (free : ph.owns = false) :
    ClassInv klass (update ths self (.initializeClass klass .superClass :: tl)) log (.initializing self) := by
  cases inv with
  | idle isIdle ha never =>
    have low : tl.filter (owns klass) = [] := by
      have none := ha self
      rwa [st, filter_cons_of_neg (by simp [owns_eq_false_of_free klass free])] at none
    have one : List.filter (owns klass) (.initializeClass klass .superClass :: tl) =
        [.initializeClass klass .superClass] := by
      rw [filter_cons_of_pos (by simp [owns, InitPhase.owns]), low]
    exact .running (ha.sole one) (fun _ => never) (by omega)
  | settled isFinal ha once => simp at isFinal

section

variable (inv : ClassInv klass ths log sts)
include inv

theorem ClassInv.close (st : ths self = .initializeClass klass ph :: tl) (owns : ph.owns = true) {final : ClassStatus}
    (isFinal : final = .initialized ∨ final = .erroneous) (res : Bool) :
    ClassInv klass (update ths self (hier.resumeTop res tl)) log final := by
  obtain ⟨-, sole, -, once, low⟩ := inv.top st owns
  have none : (hier.resumeTop res tl).filter (InitFrame.owns klass) = [] := by
    have keep := @resumeTop_keepsOwner _ _ hier res tl klass
    rwa [KeepsOwner, low, forall₂_nil_left_iff] at keep
  exact .settled isFinal (sole.absent none) once

theorem ClassInv.start (st : ths self = .initializeClass klass .staticValues :: tl) :
    ClassInv klass (update ths self (.initializeClass klass .clinit :: tl))
      (log ++ [.clinitStarted self klass]) sts := by
  obtain ⟨rfl, sole, before, -, low⟩ := inv.top st rfl
  have none : clinitStarts log klass = 0 := before rfl
  have one : List.filter (InitFrame.owns klass) (.initializeClass klass .clinit :: tl) =
      [.initializeClass klass .clinit] := by
    rw [filter_cons_of_pos (by simp [InitFrame.owns, InitPhase.owns]), low]
  have first : clinitStarts (log ++ [.clinitStarted self klass]) klass ≤ 1 := by
    simp only [clinitStarts] at none ⊢
    simp [none, InitEvent.isStartOf]
  exact .running (sole.replace one) (fun before => by cases before) first

/-- A class that nobody has started to initialize may become erroneous. -/
theorem ClassInv.reject (was : sts = .notVerified ∨ sts = .verified) : ClassInv klass ths log .erroneous := by
  cases inv with
  | idle isIdle free never => exact .settled (.inr rfl) free (by omega)
  | running ow before once => simp at was
  | settled isFinal free once => exact .settled (.inr rfl) free once

end

theorem ClassInv.verify (inv : ClassInv klass ths log .notVerified) : ClassInv klass ths log .verified := by
  cases inv with
  | idle isIdle free never => exact .idle (.inr rfl) free never
  | settled isFinal free once => simp at isFinal

/-! ## The superclass comes first -/

def InitPhase.pastSuper : InitPhase C → Bool
  | .interfaces _ | .inInterface _ _ | .staticValues => true
  | _ => false

def ClassHierarchy.SuperReady (hier : ClassHierarchy C) (status : C → ClassStatus) (klass : C)
    (frs : List (InitFrame C)) : Prop :=
  ∀ super, hier.directSuperclass klass = some super →
    status super = .initialized ∨ ∃ frame ∈ frs, frame.owns super = true

def ClassHierarchy.StackReady (hier : ClassHierarchy C) (status : C → ClassStatus) :
    List (InitFrame C) → Prop
  | [] => True
  | frame :: below =>
    (∀ klass ph, frame = .initializeClass klass ph → ph.pastSuper = true →
      hier.SuperReady status klass (frame :: below)) ∧ hier.StackReady status below

variable {sts : C → ClassStatus}

theorem ClassHierarchy.SuperReady.mono (ready : hier.SuperReady sts klass before)
    (stable : ∀ o, sts o = .initialized → la o = .initialized)
    (kept : ∀ sup, ∀ frame ∈ before, frame.owns sup = true → ∃ frame ∈ post, frame.owns sup = true) :
    hier.SuperReady la klass post := by
  intro sup super_
  cases ready sup super_ with
  | inl isSuper => exact .inl (stable sup isSuper)
  | inr owned =>
    obtain ⟨frame, mem, owns⟩ := owned
    exact .inr (kept sup frame mem owns)

theorem ClassHierarchy.StackReady.mono (ready : hier.StackReady sts frs)
    (stable : ∀ o, sts o = .initialized → la o = .initialized) : hier.StackReady la frs := by
  induction frs with
  | nil => trivial
  | cons frame low ih =>
    refine ⟨fun klass ph isFrame past => ?_, ih ready.2⟩
    exact (ready.1 klass ph isFrame past).mono stable fun sup hf mem owns => ⟨hf, mem, owns⟩

theorem ClassHierarchy.StackReady.replace (ready : hier.StackReady sts (fr :: tl))
    (owns : ∀ klass, last.owns klass = fr.owns klass)
    (past : ∀ klass ph, last = .initializeClass klass ph → ph.pastSuper = true →
      (∃ old, fr = .initializeClass klass old ∧ old.pastSuper = true) ∨
        hier.SuperReady sts klass (fr :: tl)) : hier.StackReady sts (last :: tl) := by
  refine ⟨fun klass ph isLast isPast => ?_, ready.2⟩
  have before : hier.SuperReady sts klass (fr :: tl) := by
    cases past klass ph isLast isPast with
    | inl already =>
      obtain ⟨old, frame, wasPast⟩ := already
      exact ready.1 klass old frame wasPast
    | inr before => exact before
  refine before.mono (fun _ initialized => initialized) ?_
  intro sup hf mem own
  cases mem_cons.mp mem with
  | inl top => exact ⟨last, mem_cons_self, by rw [owns, ← top]; exact own⟩
  | inr low => exact ⟨hf, mem_cons_of_mem _ low, own⟩

theorem ClassHierarchy.StackReady.push (ready : hier.StackReady sts tl) (ent : hier.Entry fr) :
    hier.StackReady sts (fr :: tl) := by
  refine ⟨fun klass ph frame past => ?_, ready⟩
  cases ent with
  | initializeClass o =>
    cases frame
    cases past
  | initializeDefaultInterface ic => cases frame

/-- The caller of a call that returns: if it waited for its superclass, that one is ready now. -/
theorem ClassHierarchy.StackReady.resume {res : Bool} (ready : hier.StackReady sts tl)
    (sup : ∀ klass low, tl = .initializeClass klass .inSuper :: low → res = true →
      hier.SuperReady sts klass tl) : hier.StackReady sts (hier.resumeTop res tl) := by
  cases tl with
  | nil => trivial
  | cons caller low =>
    refine ready.replace (resume_owns res caller) ?_
    intro klass ph back past
    unfold resume at back
    split at back
    next o =>
      cases back
      cases res with
      | true => exact .inr (sup klass low rfl rfl)
      | false => cases past
    next o ic more =>
      cases back
      exact .inl ⟨_, rfl, rfl⟩
    next => cases back
    next => cases back
    next => exact .inl ⟨ph, back, past⟩

omit [DecidableEq C] in
theorem InitTurn.past (turn : InitTurn hier s self frame frs)
    (isLast : frs.getLast? = some (.initializeClass klass ph)) (past : ph.pastSuper = true) :
    (∃ old, frame = .initializeClass klass old ∧ old.pastSuper = true) ∨
      ∀ sup, hier.directSuperclass klass = some sup → s.status sup = .initialized := by
  cases turn with
  | superDone ready => cases isLast; exact .inr ready
  | interfacesDone | skipInterface | callInterface => cases isLast; exact .inl ⟨_, rfl, rfl⟩
  | _ => cases isLast <;> cases past

/-! ## The invariant -/

/-- Below the top of a stack every call waits for the one above it. -/
def ClassHierarchy.Linked (hier : ClassHierarchy C) (frs : List (InitFrame C)) : Prop :=
  frs.IsChain fun callee caller => hier.Calls caller callee.callOf

structure InitInv (hier : ClassHierarchy C) (s : InitState C) : Prop where
  classes : ∀ klass, ClassInv klass s.threads s.log (s.status klass)
  linked : ∀ thr, hier.Linked (s.threads thr)
  ready : ∀ thr, hier.StackReady s.status (s.threads thr)
  /-- No exception is pending in a thread that waits. -/
  quiet : ∀ thr klass tl, s.threads thr = .initializeClass klass .waiting :: tl → s.exceptionPending thr = false

theorem InitInv.start : InitInv hier .start where
  classes _ := .idle (.inl rfl) (fun _ => rfl) rfl
  linked _ := isChain_nil
  ready _ := trivial
  quiet := by simp [InitState.start]

theorem InitInv.final_move (inv : InitInv hier s) (move : InitMove hier s self next)
    (final : s.status klass = .initialized ∨ s.status klass = .erroneous) : next.status klass = s.status klass := by
  have o : ∀ changed sts, s.status changed ≠ .initialized → s.status changed ≠ .erroneous →
      (s.setStatus changed sts).status klass = s.status klass := by
    intro changed sts notInitialized notErroneous
    refine update_of_ne ?_ _ _
    rintro rfl
    cases final with
    | inl ready => exact notInitialized ready
    | inr bad => exact notErroneous bad
  cases move with
  | verify was | reject _ _ was | take _ _ was => exact o _ _ (by simp [was]) (by simp [was])
  | interrupt st due =>
    rw [inv.quiet _ _ _ st] at due
    cases due
  | close st was res =>
    obtain ⟨hr, -⟩ := (inv.classes _).top st (owns_of_or was rfl rfl)
    exact o _ _ (by simp [hr]) (by simp [hr])
  | _ => rfl

theorem InitInv.classes_move (inv : InitInv hier s) (move : InitMove hier s self next)
    (kl : C) : ClassInv kl next.threads next.log (next.status kl) := by
  have old := inv.classes kl
  -- a step on another class keeps the owner of this one
  cases move with
  | call user o => exact old.goto ((KeepsOwner.refl kl _).push (owns_eq_false_of_free o rfl))
  | exception user due => exact old
  | verify was becomes =>
    rename_i o sts
    by_cases eq : kl = o
    · subst eq
      rw [setStatus_self]
      cases becomes with
      | inl verified =>
        rw [was] at old
        rw [verified]
        exact old.verify
      | inr bad =>
        rw [bad]
        exact old.reject (.inl was)
    · rw [setStatus_of_ne s eq]
      exact old
  | turn st turn => exact old.goto (st ▸ turn.keepsOwner kl _)
  | answer st free ready => exact (old.ret st (owns_eq_false_of_free _ free) _).snoc rfl
  | reject st free was =>
    rename_i o ph tl
    have next : ClassInv kl (update s.threads self (hier.resumeTop false tl)) s.log
        _ := old.ret st (owns_eq_false_of_free o free) false
    by_cases eq : kl = o
    · subst eq
      rw [retInit_status, setStatus_self]
      exact (next.reject (.inr was)).snoc rfl
    · rw [retInit_status, setStatus_of_ne s eq]
      exact next.snoc rfl
  | interrupt st due =>
    rw [inv.quiet _ _ _ st] at due
    cases due
  | take st free was =>
    rename_i o ph tl
    by_cases eq : kl = o
    · subst eq
      rw [was] at old
      rw [goto, setStatus_self]
      exact old.take st free
    · rw [goto, setStatus_of_ne s eq]
      refine old.goto ?_
      rw [st]
      exact .of_ne (Ne.symm eq) tl
  | startClinit st =>
    rename_i o tl
    by_cases eq : kl = o
    · subst eq
      exact old.start st
    · refine (old.goto ?_).snoc (by simpa [InitEvent.isStartOf] using Ne.symm eq)
      rw [st]
      exact .of_ne (Ne.symm eq) tl
  | leaveClinit st was due =>
    rename_i o ph tl
    refine old.goto ?_
    rw [st]
    refine (KeepsOwner.single ?_ fun before => by cases before).append (.refl kl tl)
    obtain rfl | rfl := was <;> rfl
  | close st was res =>
    rename_i o ph tl
    by_cases eq : kl = o
    · subst eq
      exact (old.close st (owns_of_or was rfl rfl) (by cases res <;> simp) res).snoc rfl
    · rw [retInit_status, setStatus_of_ne s eq]
      exact (old.ret st (owns_eq_false_of_ne (Ne.symm eq)) res).snoc rfl
  | mark st => exact old.ret st rfl true
  | giveUp st => exact old.ret st rfl false

/-! ## One thread's stack through a step -/

/-- What a step does to the stack of its thread. -/
inductive StackChange (hier : ClassHierarchy C) (s : InitState C) (self : Nat) (next : InitState C) :
    List (InitFrame C) → List (InitFrame C) → Prop where
  | same (frs : List (InitFrame C)) : StackChange hier s self next frs frs
  | call {frs : List (InitFrame C)} (user : inUserCode frs = true) (klass : C) :
      StackChange hier s self next frs (.initializeClass klass .entered :: frs)
  | turn {frame : InitFrame C} {frs : List (InitFrame C)} (turn : InitTurn hier s self frame frs)
      (tl : List (InitFrame C)) :
      StackChange hier s self next (frame :: tl) (frs ++ tl)
  /-- The call marks its class, or goes on to or through the static initializer. -/
  | advance {klass : C} {ph later : InitPhase C}
      (isLater : later = .superClass ∨ ph.owns = true ∧ (later = .clinit ∨ later = .finishing))
      (tl : List (InitFrame C)) : StackChange hier s self next (.initializeClass klass ph :: tl)
        (.initializeClass klass later :: tl)
  | ret {frame : InitFrame C} {res : Bool}
      (class_ : ∀ klass ph, frame = .initializeClass klass ph → res = true →
        next.status klass = .initialized ∨ s.status klass = .initializing self ∧ ph.owns = false)
      (interface_ : ∀ ifc ph, frame = .initializeDefaultInterface ifc ph → res = true →
        ph = .marking ∧ next.recursivelyInitialized ifc = true)
      (tl : List (InitFrame C)) :
      StackChange hier s self next (frame :: tl) (hier.resumeTop res tl)

theorem InitMove.stackChange (move : InitMove hier s self next) :
    StackChange hier s self next (s.threads self) (next.threads self) := by
  cases move with
  | call user klass =>
    rw [goto_threads_self]
    exact .call user klass
  | exception | verify => exact .same _
  | turn st turn =>
    rw [goto_threads_self, st]
    exact .turn turn _
  | take st free was =>
    rw [goto_threads_self, st]
    exact .advance (.inl rfl) _
  | startClinit st =>
    rw [record_threads, goto_threads_self, st]
    exact .advance (.inr ⟨rfl, .inl rfl⟩) _
  | leaveClinit st was due =>
    rw [throw_threads, goto_threads_self, st]
    exact .advance (.inr ⟨owns_of_or was rfl rfl, .inr rfl⟩) _
  | answer st free ready =>
    rw [retInit_threads_self, st]
    refine .ret (fun klass ph frame hit => ?_) (by simp) _
    cases frame
    exact (ready hit).imp id fun hr => ⟨hr, free⟩
  | reject st | interrupt st | giveUp st =>
    simp only [retInit_threads_self, ret_threads_self, st]
    exact .ret (by simp) (by simp) _
  | close st was res =>
    rw [retInit_threads_self, st]
    refine .ret (fun klass ph frame hit => .inl ?_) (by simp) _
    cases frame
    rw [hit]
    exact setStatus_self ..
  | mark st =>
    rw [ret_threads_self, st]
    refine .ret (by simp) (fun ic ph frame _ => ?_) _
    cases frame
    exact ⟨rfl, update_self ..⟩

theorem InitMove.others (move : InitMove hier s self next) (o : thr ≠ self) :
    next.threads thr = s.threads thr ∧ next.exceptionPending thr = s.exceptionPending thr := by
  cases move <;>
    simp [InitState.goto, InitState.throw, InitState.record, InitState.setStatus, ret, retInit, update_of_ne o]

omit [DecidableEq C] in
theorem ClassHierarchy.Linked.replace (link : hier.Linked (fr :: tl)) (eq : last.callOf = fr.callOf) :
    hier.Linked (last :: tl) := by
  cases tl with
  | nil => exact isChain_singleton last
  | cons caller low =>
    obtain ⟨cls, down⟩ := isChain_cons_cons.mp link
    exact isChain_cons_cons.mpr ⟨by rw [eq]; exact cls, down⟩

theorem StackChange.linked (chg : StackChange hier s self next before post) (rest : hier.Linked before) :
    hier.Linked post := by
  cases chg with
  | same => exact rest
  | call user klass =>
    cases before with
    | nil => exact isChain_singleton _
    | cons caller low =>
      refine isChain_cons_cons.mpr ⟨?_, rest⟩
      unfold inUserCode at user
      split at user
      next nil => cases nil
      next isCaller =>
        cases isCaller
        rfl
      next => cases user
  | turn turn tl =>
    obtain ⟨cls, last, rfl, shape⟩ := turn.shape
    have low : hier.Linked _ := rest.replace shape.callOf
    cases shape.callee with
    | inl none => simpa [none] using low
    | inr called =>
      obtain ⟨callee, one, -, wait⟩ := called
      rw [one]
      exact isChain_cons_cons.mpr ⟨wait, low⟩
  | advance late tl => exact rest.replace rfl
  | ret class_ interface_ tl =>
    have low : hier.Linked tl := List.IsChain.tail rest
    cases tl with
    | nil => exact low
    | cons caller down => exact low.replace (resume_callOf _ caller)

omit [DecidableEq C] in
theorem ClassHierarchy.Linked.not_waiting {res : Bool} (link : hier.Linked (fr :: tl)) :
    hier.resumeTop res tl ≠ .initializeClass klass .waiting :: low := by
  intro wait
  cases tl with
  | nil => cases wait
  | cons caller down =>
    have cls := (isChain_cons_cons.mp link).1
    have isCaller : hier.resume res caller = .initializeClass klass .waiting := (List.cons.inj wait).1
    unfold resume at isCaller
    split at isCaller
    next => split at isCaller <;> cases isCaller
    next => split at isCaller <;> cases isCaller
    next => cases isCaller
    next => cases isCaller
    next =>
      rw [isCaller] at cls
      exact cls.elim

section

variable (inv : InitInv hier s)
include inv

theorem InitInv.quiet_move (move : InitMove hier s self next)
    (waits : next.threads self = .initializeClass klass .waiting :: tl) : next.exceptionPending self = false := by
  cases move with
  | call | take | startClinit | leaveClinit => simp at waits
  | exception user due =>
    rw [throw_threads] at waits
    rw [waits] at user
    cases user
  | verify was becomes => exact inv.quiet self klass tl waits
  | turn st turn =>
    rw [goto_threads_self] at waits
    cases turn with
    | wait low mute => exact mute
    | _ => cases waits
  | answer st | reject st | interrupt st | close st | mark st | giveUp st =>
    simp only [retInit_threads_self, ret_threads_self] at waits
    exact ((st ▸ inv.linked self).not_waiting waits).elim

theorem InitInv.superReady_of_ret (st : s.threads self = frame :: tl)
    (caller : tl = .initializeClass klass .inSuper :: low) (ret : ∀ sup ph, frame = .initializeClass sup ph →
      next.status sup = .initialized ∨ s.status sup = .initializing self ∧ ph.owns = false) :
    hier.SuperReady next.status klass tl := by
  have cls := inv.linked self
  rw [st, caller] at cls
  obtain ⟨isClass, super_⟩ := (isChain_cons_cons.mp cls).1
  intro sup alsoSuper
  cases frame with
  | initializeDefaultInterface ic ph => cases isClass
  | initializeClass call ph =>
    cases super_.symm.trans alsoSuper
    cases ret _ ph rfl with
    | inl ready => exact .inl ready
    | inr hr =>
      -- the thread is initializing the superclass further down, as the call on top does not own it
      have class_ := inv.classes call
      rw [hr.1] at class_
      cases class_ with
      | idle isIdle free never => simp at isIdle
      | settled isFinal free once => simp at isFinal
      | running ow before once =>
        rename_i hf
        obtain ⟨mem, owns⟩ := ow.mem
        rw [st] at mem
        cases mem_cons.mp mem with
        | inl top =>
          rw [top, owns_eq_false_of_free call hr.2] at owns
          cases owns
        | inr down => exact .inr ⟨hf, down, owns⟩

theorem InitInv.ready_change {frs : List (InitFrame C)}
    (chg : StackChange hier s self next (s.threads self) frs)
    (stable : ∀ klass, s.status klass = .initialized → next.status klass = .initialized) :
    hier.StackReady next.status frs := by
  have old := inv.ready self
  have isChange := inv.linked self
  generalize st : s.threads self = before at chg
  rw [st] at old isChange
  cases chg with
  | same => exact old.mono stable
  | call user klass => exact (old.mono stable).push (.initializeClass klass)
  | turn turn tl =>
    obtain ⟨cls, last, rfl, shape⟩ := turn.shape
    have low : hier.StackReady next.status (last :: tl) := by
      refine (old.replace shape.owns fun klass ph isLast past => ?_).mono stable
      cases turn.past (by rw [List.getLast?_concat, isLast]) past with
      | inl already => exact .inl already
      | inr isSuper => exact .inr fun sup super_ => .inl (isSuper sup super_)
    cases shape.callee with
    | inl none => simpa [none] using low
    | inr called =>
      obtain ⟨callee, one, ent, -⟩ := called
      simpa [one] using low.push ent
  | advance late tl =>
    refine ⟨fun klass ph isTop past => ?_, (old.2).mono stable⟩
    cases isTop
    obtain rfl | ⟨-, rfl | rfl⟩ := late <;> cases past
  | ret class_ interface_ tl =>
    refine (old.2.mono stable).resume fun klass low caller hit => ?_
    exact inv.superReady_of_ret st caller fun sup ph frame => class_ sup ph frame hit

theorem InitInv.move (move : InitMove hier s self next) : InitInv hier next := by
  have stable : ∀ klass, s.status klass = .initialized → next.status klass = .initialized :=
    fun klass ready => (inv.final_move move (.inl ready)).trans ready
  refine ⟨inv.classes_move move, ?_, ?_, ?_⟩
  · intro thr
    by_cases eq : thr = self
    · rw [eq]
      exact move.stackChange.linked (inv.linked self)
    · rw [(move.others eq).1]
      exact inv.linked thr
  · intro thr
    by_cases eq : thr = self
    · rw [eq]
      exact inv.ready_change move.stackChange stable
    · rw [(move.others eq).1]
      exact (inv.ready thr).mono stable
  · intro thr klass tl wait
    by_cases eq : thr = self
    · rw [eq] at wait ⊢
      exact inv.quiet_move move wait
    · rw [(move.others eq).1] at wait
      rw [(move.others eq).2]
      exact inv.quiet thr klass tl wait

end

/-! ## Runs -/

def InitStep (hier : ClassHierarchy C) (s : InitState C) (lb : InitLabel C)
    (next : InitState C) : Prop :=
  hier.step s lb = some next

theorem run_initInv (reach : Reachable (InitStep hier) .start s) : InitInv hier s :=
  reach.invariant .start fun _ _ _ inv ht => inv.move (move_of_initStep ht)

def InitializedFor (s : InitState C) (thr : Nat) (klass : C) : Prop :=
  s.status klass = .initialized ∨ s.status klass = .initializing thr

theorem InitInv.once (inv : InitInv hier s) (kl : C) : clinitStarts s.log kl ≤ 1 := by
  have class_ := inv.classes kl
  generalize s.status kl = sts at class_
  cases class_ with
  | idle isIdle free never => omega
  | running _ _ once | settled _ _ once => exact once

theorem InitMove.returns (move : InitMove hier s self next)
    (logged : next.log = s.log ++ [.returned thr klass true]) : InitializedFor next thr klass := by
  cases move with
  | answer st free ready =>
    obtain ⟨rfl, rfl, rfl⟩ : self = thr ∧ _ = klass ∧ _ = true := by simpa using logged
    exact ready rfl
  | close st was res =>
    obtain ⟨rfl, rfl, rfl⟩ : self = thr ∧ _ = klass ∧ _ = true := by simpa [setStatus] using logged
    exact .inl (setStatus_self ..)
  | reject | interrupt => simp [setStatus] at logged
  | startClinit st => simp [record] at logged
  | _ => simp [InitState.goto, InitState.throw, InitState.setStatus, ret] at logged

theorem InitInv.superFirst (inv : InitInv hier s) (move : InitMove hier s self next)
    (logged : next.log = s.log ++ [.clinitStarted thr klass]) {sup : C}
    (super_ : hier.directSuperclass klass = some sup) : InitializedFor next thr sup := by
  cases move with
  | startClinit st =>
    obtain ⟨rfl, rfl⟩ : self = thr ∧ _ = klass := by simpa [InitState.record, InitState.goto] using logged
    have ready := inv.ready self
    rw [st] at ready
    cases ready.1 _ _ rfl rfl sup super_ with
    | inl initialized => exact .inl initialized
    | inr owned =>
      obtain ⟨frame, mem, owns⟩ := owned
      exact .inr ((inv.classes sup).owner (by rw [st]; exact mem) owns).1
  | _ =>
    simp [InitState.goto, InitState.throw, InitState.setStatus, ret] at logged

theorem run_final {late : InitState C} (inv : InitInv hier s)
    (final : s.status klass = .initialized ∨ s.status klass = .erroneous)
    (reach : Reachable (InitStep hier) s late) : late.status klass = s.status klass := by
  have both : InitInv hier late ∧ late.status klass = s.status klass := by
    refine reach.invariant (P := fun mid => InitInv hier mid ∧ mid.status klass = s.status klass)
      ⟨inv, rfl⟩ fun mid _ next before ht => ?_
    have move := move_of_initStep ht
    refine ⟨before.1.move move, ?_⟩
    exact (before.1.final_move move (before.2.symm ▸ final)).trans before.2
  exact both.2

/-- The locking protocol of class initialization, in every state that any number of threads can reach: a static
    initializer is started at most once, initialized and erroneous are final, `InitializeClass` returns true only
    for a class that is initialized or that the caller is initializing, and the direct superclass comes first. -/
theorem class_initialization_protocol (hierarchy : ClassHierarchy C) (s : InitState C)
    (reach : Reachable (InitStep hierarchy) .start s) : (∀ klass, clinitStarts s.log klass ≤ 1) ∧
    (∀ klass later, s.status klass = .initialized ∨ s.status klass = .erroneous →
      Reachable (InitStep hierarchy) s later → later.status klass = s.status klass) ∧
    ∀ lb next, InitStep hierarchy s lb next →
      (∀ thr klass, next.log = s.log ++ [.returned thr klass true] → InitializedFor next thr klass) ∧
      ∀ thr klass super, next.log = s.log ++ [.clinitStarted thr klass] →
        hierarchy.directSuperclass klass = some super → InitializedFor next thr super := by
  have inv := run_initInv reach
  refine ⟨inv.once, fun klass later final later_ => run_final inv final later_, fun lb next taken => ?_⟩
  have move := move_of_initStep taken
  exact ⟨fun thr klass logged => move.returns logged,
    fun thr klass super logged isSuper => inv.superFirst move logged isSuper⟩

end

def oneSuperclass : ClassHierarchy Bool where
  isInterface _ := false
  superClass klass := if klass then some false else none
  directInterfaces _ := []
  hasDefaultMethods _ := false
  hasClassInitializer _ := true
  isAotCompiler := false

/-- One thread initializes the class, and with it the superclass first. -/
theorem class_initialization_protocol_superclass :
    ∃ s, Reachable (InitStep oneSuperclass) .start s ∧
      s.log = [.clinitStarted 1 false, .returned 1 false true, .clinitStarted 1 true, .returned 1 true true] ∧
      clinitStarts s.log true ≤ 1 := by
  have ran : (runLabels (fun _ _ => True) oneSuperclass.step .start
      ([.verify true true, .verify false true, .call 1 true] ++ List.replicate 14 (.advance 1 false))).map log =
        some [.clinitStarted 1 false, .returned 1 false true, .clinitStarted 1 true, .returned 1 true true] := by
    decide +kernel
  obtain ⟨s, found, log⟩ := Option.map_eq_some_iff.mp ran
  have reach : Reachable _ .start s :=
    ⟨_, (run_of_runLabels found).mono fun _ _ _ taken => taken.2⟩
  exact ⟨s, reach, log, (class_initialization_protocol oneSuperclass s reach).1 true⟩

end Aosp.Art
