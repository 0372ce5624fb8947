import Aosp.Art.ClassInitOnce
import Mathlib.Algebra.GroupWithZero.Nat

/-! # Interfaces with default methods are initialized first

`InitializeDefaultInterfaceRecursive` marks an interface once it and its
superinterfaces are through, and other threads trust the mark.  `MarkInv` says
what the mark should mean: the interface is initialized if it has default
methods, and its superinterfaces are marked.

The mark is also set when `EnsureInitialized` answers true because the thread is
itself initializing the interface.  So the invariant holds in the runs in which
no thread ensures the initialization of an interface that it is initializing
already, and a class can start before its interfaces in the others.
-/

namespace Aosp.Art

open Aosp.Lib ClassHierarchy

section

variable {C : Type} [DecidableEq C]

/-- What a frame knows of the marks; `below` are the frames under it. -/
def ClassHierarchy.FrameMarked (hier : ClassHierarchy C) (s : InitState C)
    (below : List (InitFrame C)) : InitFrame C → Prop
  | .initializeClass klass (.interfaces rest) =>
    ∀ ifc ∈ hier.interfacesOf klass, s.recursivelyInitialized ifc = true ∨ ifc ∈ rest
  | .initializeClass klass (.inInterface current rest) =>
    ∀ ifc ∈ hier.interfacesOf klass, s.recursivelyInitialized ifc = true ∨ ifc ∈ current :: rest
  | .initializeClass klass .staticValues =>
    ∀ ifc ∈ hier.interfacesOf klass, s.recursivelyInitialized ifc = true
  | .initializeDefaultInterface ifc (.superInterfaces rest) =>
    ∀ superIf ∈ hier.directInterfaces ifc, s.recursivelyInitialized superIf = true ∨ superIf ∈ rest
  | .initializeDefaultInterface ifc (.inSuperInterface current rest) =>
    ∀ superIf ∈ hier.directInterfaces ifc, s.recursivelyInitialized superIf = true ∨ superIf ∈ current :: rest
  | .initializeDefaultInterface ifc .ensuring =>
    (∀ superIf ∈ hier.directInterfaces ifc, s.recursivelyInitialized superIf = true) ∧ ∀ fr ∈ below, fr.owns ifc = false
  | .initializeDefaultInterface ifc .marking =>
    (∀ superIf ∈ hier.directInterfaces ifc, s.recursivelyInitialized superIf = true) ∧
      (hier.hasDefaultMethods ifc = true → s.status ifc = .initialized)
  | _ => True

def ClassHierarchy.StackMarked (hier : ClassHierarchy C) (s : InitState C) :
    List (InitFrame C) → Prop
  | [] => True
  | frame :: below => hier.FrameMarked s below frame ∧ hier.StackMarked s below

structure MarkInv (hier : ClassHierarchy C) (s : InitState C) : Prop where
  init : InitInv hier s
  /-- A marked interface is through, and so are those above it. -/
  closed : ∀ ifc, s.recursivelyInitialized ifc = true →
    (hier.hasDefaultMethods ifc = true → s.status ifc = .initialized) ∧
      ∀ superIf ∈ hier.directInterfaces ifc, s.recursivelyInitialized superIf = true
  known : ∀ thr, hier.StackMarked s (s.threads thr)

structure Grows (s next : InitState C) : Prop where
  initialized : ∀ kl, s.status kl = .initialized → next.status kl = .initialized
  marked : ∀ ifc, s.recursivelyInitialized ifc = true → next.recursivelyInitialized ifc = true

variable {hier : ClassHierarchy C} {s next : InitState C} {self : Nat} {kl : C}
  {fr last : InitFrame C} {frs tl low : List (InitFrame C)}

theorem InitMove.grows (move : InitMove hier s self next) (inv : InitInv hier s) : Grows s next := by
  refine ⟨fun kl ready => (inv.final_move move (.inl ready)).trans ready, fun ic marked => ?_⟩
  cases move with
  | mark st =>
    rename_i newly tl
    by_cases eq : ic = newly
    · subst eq
      exact Function.update_self ..
    · exact (Function.update_of_ne eq ..).trans marked
  | _ => exact marked

theorem ClassHierarchy.FrameMarked.mono (hk : hier.FrameMarked s low fr) (grows : Grows s next) :
    hier.FrameMarked next low fr := by
  have left : ∀ {all more : List C}, (∀ ic ∈ all, s.recursivelyInitialized ic = true ∨ ic ∈ more) →
      ∀ ic ∈ all, next.recursivelyInitialized ic = true ∨ ic ∈ more :=
    fun hk ic mem => (hk ic mem).imp_left (grows.marked ic)
  unfold ClassHierarchy.FrameMarked at hk ⊢
  split
  next => exact left hk
  next => exact left hk
  next => exact fun ic mem => grows.marked ic (hk ic mem)
  next => exact left hk
  next => exact left hk
  next => exact ⟨fun ic mem => grows.marked ic (hk.1 ic mem), hk.2⟩
  next ic =>
    exact ⟨fun si mem => grows.marked si (hk.1 si mem), fun default_ => grows.initialized ic (hk.2 default_)⟩
  next => trivial

theorem ClassHierarchy.StackMarked.mono (hk : hier.StackMarked s frs) (grows : Grows s next) :
    hier.StackMarked next frs := by
  induction frs with
  | nil => trivial
  | cons fr low ih => exact ⟨hk.1.mono grows, ih hk.2⟩

section Left

variable {all more : List C} {P : C → Prop}
omit [DecidableEq C]

theorem none_left (left : ∀ ic ∈ all, P ic ∨ ic ∈ []) : ∀ ic ∈ all, P ic :=
  fun ic mem => (left ic mem).resolve_right List.not_mem_nil

theorem first_done (left : ∀ ic ∈ all, P ic ∨ ic ∈ kl :: more) (done : P kl) : ∀ ic ∈ all, P ic ∨ ic ∈ more := by
  intro ic mem
  cases left ic mem with
  | inl before => exact .inl before
  | inr left =>
    cases left with
    | head => exact .inl done
    | tail _ later => exact .inr later

end Left

theorem InitTurn.marked (turn : InitTurn hier s self fr frs) (hk : hier.StackMarked s (fr :: tl))
    (notMine : ∀ ic, fr = .initializeDefaultInterface ic (.superInterfaces []) →
      hier.hasDefaultMethods ic = true → ∀ hf ∈ tl, hf.owns ic = false) : hier.StackMarked s (frs ++ tl) := by
  obtain ⟨top, under⟩ := hk
  cases turn with
  | lock | verify | wait => exact ⟨trivial, under⟩
  | superDone ready => exact ⟨fun ic mem => .inr mem, under⟩
  | callSuper super_ => exact ⟨trivial, trivial, under⟩
  | interfacesDone kl => exact ⟨none_left top, under⟩
  | skipInterface mark | skipSuperInterface mark => exact ⟨first_done top mark, under⟩
  | callInterface kl ic more => exact ⟨fun si mem => .inr mem, top, under⟩
  | ensure default_ => exact ⟨trivial, ⟨none_left top, notMine _ rfl default_⟩, under⟩
  | ensured ready => exact ⟨⟨none_left top, ready⟩, under⟩
  | callSuperInterface ic si more => exact ⟨fun o mem => .inr mem, top, under⟩

theorem MarkInv.resume (inv : MarkInv hier s) (st : s.threads self = fr :: tl) {res : Bool}
    (grows : Grows s next) (class_ : ∀ kl ph, fr = .initializeClass kl ph → res = true →
      next.status kl = .initialized ∨ s.status kl = .initializing self ∧ ph.owns = false)
    (interface_ : ∀ ic ph, fr = .initializeDefaultInterface ic ph → res = true →
      ph = .marking ∧ next.recursivelyInitialized ic = true) : hier.StackMarked next (hier.resumeTop res tl) := by
  have hk := inv.known self
  have link := inv.init.linked self
  rw [st] at hk link
  cases tl with
  | nil => trivial
  | cons caller low =>
    have cls := (List.isChain_cons_cons.mp link).1
    obtain ⟨top, under⟩ := hk.2.mono grows
    refine ⟨?_, under⟩
    unfold resume
    split
    next kl =>
      cases res with
      | true => exact fun ic mem => .inr mem
      | false => trivial
    next kl ic more =>
      cases res with
      | false => trivial
      | true =>
        -- the interface that was waited for is marked now
        cases fr with
        | initializeClass call ph => cases cls
        | initializeDefaultInterface call ph =>
          cases cls
          exact first_done top (interface_ _ ph rfl rfl).2
    next ic si more =>
      cases res with
      | false => trivial
      | true =>
        cases fr with
        | initializeClass call ph => cases cls
        | initializeDefaultInterface call ph =>
          cases cls
          exact first_done top (interface_ _ ph rfl rfl).2
    next ic =>
      cases res with
      | false => trivial
      | true =>
        refine ⟨top.1, fun _ => ?_⟩
        cases fr with
        | initializeDefaultInterface call ph => cases cls
        | initializeClass call ph =>
          cases cls
          cases class_ _ ph rfl rfl with
          | inl ready => exact ready
          | inr hr =>
            -- true because of recursion: the thread would own the interface further down
            have ow := inv.init.classes ic
            rw [hr.1] at ow
            cases ow with
            | idle isIdle free never => simp at isIdle
            | settled isFinal free once => simp at isFinal
            | running sole pre once =>
              rename_i hf
              obtain ⟨mem, owns⟩ := sole.mem
              rw [st] at mem
              cases List.mem_cons.mp mem with
              | inl isTop =>
                rw [isTop, owns_eq_false_of_free ic hr.2] at owns
                cases owns
              | inr down =>
                cases List.mem_cons.mp down with
                | inl isCaller =>
                  rw [isCaller] at owns
                  cases owns
                | inr lower =>
                  rw [top.2 hf lower] at owns
                  cases owns
    next => exact top

def ClassHierarchy.ensuresOthers (hier : ClassHierarchy C) (s : InitState C) (lb : InitLabel C) :
    Bool :=
  match s.threads lb.self with
  | .initializeDefaultInterface iface (.superInterfaces []) :: _ =>
    !hier.hasDefaultMethods iface || s.status iface ≠ .initializing lb.self
  | _ => true

theorem MarkInv.known_change (inv : MarkInv hier s) (grows : Grows s next)
    (chg : StackChange hier s self next (s.threads self) frs)
    (rest : ∀ ic tl, s.threads self = .initializeDefaultInterface ic (.superInterfaces []) :: tl →
      hier.hasDefaultMethods ic = true → s.status ic ≠ .initializing self) : hier.StackMarked next frs := by
  have hk := inv.known self
  generalize st : s.threads self = pre at chg
  rw [st] at hk
  cases chg with
  | same => exact hk.mono grows
  | call user kl => exact ⟨trivial, hk.mono grows⟩
  | turn turn tl =>
    refine (turn.marked hk fun ic frame default_ hf mem => ?_).mono grows
    subst frame
    -- a frame of this thread that owned the interface would make it initializing by this thread
    cases owns : hf.owns ic with
    | false => rfl
    | true =>
      have isMember : hf ∈ s.threads self := by rw [st]; exact List.mem_cons_of_mem _ mem
      exact absurd ((inv.init.classes ic).owner isMember owns).1 (rest ic tl st default_)
  | advance late tl =>
    refine ⟨?_, hk.2.mono grows⟩
    obtain late | ⟨-, late | late⟩ := late
    all_goals rw [late]; trivial
  | ret class_ interface_ tl => exact inv.resume st grows class_ interface_

theorem MarkInv.move (inv : MarkInv hier s) (move : InitMove hier s self next)
    (rest : ∀ ic tl, s.threads self = .initializeDefaultInterface ic (.superInterfaces []) :: tl →
      hier.hasDefaultMethods ic = true → s.status ic ≠ .initializing self) : MarkInv hier next := by
  have grows := move.grows inv.init
  refine ⟨inv.init.move move, ?_, ?_⟩
  · intro ic iface
    have old : s.recursivelyInitialized ic = true → (hier.hasDefaultMethods ic = true → next.status ic = .initialized) ∧
          ∀ si ∈ hier.directInterfaces ic, next.recursivelyInitialized si = true := by
      intro was
      obtain ⟨ready, supers⟩ := inv.closed ic was
      exact ⟨fun default_ => grows.initialized ic (ready default_), fun si mem => grows.marked si (supers si mem)⟩
    cases move with
    | mark st =>
      rename_i newly tl
      by_cases eq : ic = newly
      · subst eq
        have hk := inv.known self
        rw [st] at hk
        exact ⟨hk.1.2, fun si mem => grows.marked si (hk.1.1 si mem)⟩
      · exact old ((Function.update_of_ne eq ..).symm.trans iface)
    | _ => exact old iface
  · intro th
    by_cases eq : th = self
    · rw [eq]
      exact inv.known_change grows move.stackChange rest
    · rw [(move.others eq).1]
      exact (inv.known th).mono grows

theorem MarkInv.start : MarkInv hier .start where
  init := .start
  closed := by simp [InitState.start]
  known _ := trivial

/-! ## Runs -/

/-- The steps in which no thread ensures the initialization of an interface that it is initializing. -/
def OthersInitStep (hier : ClassHierarchy C) (s : InitState C) (lb : InitLabel C)
    (next : InitState C) : Prop :=
  hier.ensuresOthers s lb = true ∧ hier.step s lb = some next

omit [DecidableEq C] in
theorem others_of_ensuresOthers {lab : InitLabel C} (ensures : hier.ensuresOthers s lab = true) :
    ∀ ic tl, s.threads lab.self = .initializeDefaultInterface ic (.superInterfaces []) :: tl →
      hier.hasDefaultMethods ic = true → s.status ic ≠ .initializing lab.self := by
  intro ic tl st default_
  simpa [ensuresOthers, st, default_] using ensures

theorem run_markInv (reach : Reachable (OthersInitStep hier) .start s) : MarkInv hier s :=
  reach.invariant .start fun _ _ _ inv ht =>
    inv.move (move_of_initStep ht.2) (others_of_ensuresOthers ht.1)

/-- `ifc` is reached from `direct` through superinterface links. -/
def ClassHierarchy.SuperInterface (hier : ClassHierarchy C) (direct ifc : C) : Prop :=
  Relation.ReflTransGen (fun one o => o ∈ hier.directInterfaces one) direct ifc

theorem MarkInv.marked_of_superInterface (inv : MarkInv hier s) {dr ic : C}
    (met : hier.SuperInterface dr ic) (mark : s.recursivelyInitialized dr = true) :
    s.recursivelyInitialized ic = true := by
  induction met with
  | refl => exact mark
  | tail _ link ih => exact (inv.closed _ ih).2 _ link

def DefaultInterfacesFirst (hier : ClassHierarchy C) (s : InitState C) : Prop :=
  ∀ lb next, InitStep hier s lb next →
    ∀ thr kl, next.log = s.log ++ [.clinitStarted thr kl] → hier.isInterface kl = false →
      ∀ direct ∈ hier.directInterfaces kl, ∀ ifc, hier.SuperInterface direct ifc →
        hier.hasDefaultMethods ifc = true → InitializedFor next thr ifc

theorem default_interfaces_initialized_first (hierarchy : ClassHierarchy C) (s : InitState C)
    (reach : Reachable (OthersInitStep hierarchy) .start s) : DefaultInterfacesFirst hierarchy s := by
  intro lb next taken thr kl logged isClass direct isDirect ifc reached hasDefault
  have inv := run_markInv reach
  have move := move_of_initStep taken
  generalize lb.self = self at move
  cases move with
  | startClinit stack =>
    obtain ⟨rfl, rfl⟩ : self = thr ∧ _ = kl := by simpa [InitState.record, InitState.goto] using logged
    have known := inv.known self
    rw [stack] at known
    have marked : s.recursivelyInitialized direct = true := by
      refine known.1 direct ?_
      simpa [interfacesOf, isClass] using isDirect
    exact .inl ((inv.closed ifc (inv.marked_of_superInterface reached marked)).1 hasDefault)
  | _ =>
    simp [InitState.goto, InitState.throw, InitState.setStatus, ret] at logged

end

local instance threeClasses : NeZero 3 := ⟨by decide⟩

def twoImplementers : ClassHierarchy (Fin 3) where
  isInterface klass := klass = 0
  superClass _ := none
  directInterfaces klass := if klass = 0 then [] else [0]
  hasDefaultMethods klass := klass = 0
  hasClassInitializer _ := true
  isAotCompiler := false

/-- One thread initializes the class 2; the interface comes first. -/
theorem default_interfaces_initialized_first_alone :
    ∃ s, Reachable (OthersInitStep twoImplementers) .start s ∧
      s.log = [.clinitStarted 1 0, .returned 1 0 true] ∧ DefaultInterfacesFirst twoImplementers s := by
  have ran : (runLabels (fun s lb => twoImplementers.ensuresOthers s lb = true) twoImplementers.step .start
      ([.verify 0 true, .verify 2 true, .call 1 2] ++ List.replicate 14 (.advance 1 false))).map InitState.log =
        some [.clinitStarted 1 0, .returned 1 0 true] := by
    decide +kernel
  obtain ⟨s, found, log⟩ := Option.map_eq_some_iff.mp ran
  have reach : Reachable _ .start s := ⟨_, run_of_runLabels found⟩
  exact ⟨s, reach, log, default_interfaces_initialized_first twoImplementers s reach⟩

/-- Thread 1 is in the static initializer of the interface and causes the initialization of the class 1, which marks the
    interface; thread 2 then finds the mark and is about to start the static initializer of the class 2. -/
def markedTooEarly : List (InitLabel (Fin 3)) :=
  [.verify 0 true, .verify 1 true, .verify 2 true, .call 1 0] ++ List.replicate 5 (.advance 1 false) ++
    [.call 1 1] ++ List.replicate 8 (.advance 1 false) ++ [.call 2 2] ++ List.replicate 5 (.advance 2 false)

theorem default_interfaces_marked_too_early :
    ∃ s, Reachable (InitStep twoImplementers) .start s ∧ ¬ DefaultInterfacesFirst twoImplementers s := by
  have ran : (runLabels (fun _ _ => True) twoImplementers.step .start markedTooEarly).map (fun s =>
      (s.log, (twoImplementers.step s (.advance 2 false)).map fun next => (next.log, next.status 0))) =
        some ([.clinitStarted 1 0, .returned 1 0 true],
          some ([.clinitStarted 1 0, .returned 1 0 true, .clinitStarted 2 2], .initializing 1)) := by
    decide +kernel
  obtain ⟨s, found, both⟩ := Option.map_eq_some_iff.mp ran
  obtain ⟨log, step⟩ := Prod.mk.inj both
  obtain ⟨next, taken, post⟩ := Option.map_eq_some_iff.mp step
  obtain ⟨nextLog, status⟩ := Prod.mk.inj post
  refine ⟨s, ⟨_, (run_of_runLabels found).mono fun _ _ _ taken => taken.2⟩, fun first => ?_⟩
  have initialized := first _ next taken 2 2 (by rw [nextLog, log]; rfl) rfl 0 (by decide) 0 .refl rfl
  simp [InitializedFor, status] at initialized

end Aosp.Art
