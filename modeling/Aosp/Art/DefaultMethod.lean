import Aosp.Art.IfTable

/-! # The search for default methods

Model of `ContainsOverridingMethodOf` and
`ClassLinker::FindDefaultMethodImplementation`.  The search walks the interface
table backwards and keeps one chosen interface.  If every interface stands in
front of its subinterfaces, what it finds is told by the candidates: the
interfaces with a default method that no subinterface of the table redeclares
(`findDefaultMethodImplementation_eq`).
-/

namespace Aosp.Art

open Aosp.Lib List

variable {C : Type} [DecidableEq C] {md : ArtMethod C} {one two : List C}

/-! ## The source -/

/-- `ClassLinker::DefaultMethodSearchResult`, with `out_default_method`. -/
inductive DefaultMethodSearchResult (C : Type) where
  | defaultFound (method : ArtMethod C)
  | abstractFound
  | defaultConflict
deriving DecidableEq

namespace ClassTable

variable (cls : ClassTable C) (tg : ArtMethod C)

def declares (ifc : C) : Bool :=
  (cls.declaredVirtualMethods ifc).any tg.hasSameNameAndSignature

def containsOverridingMethodOf (iftable : List C) (ifstart : Nat) (ifc : C) : Bool :=
  (iftable.drop (ifstart + 1)).any fun currentIface =>
    cls.declares tg currentIface && cls.isAssignableFrom ifc currentIface

/-- The first declared method that is not abstract and matches the target; whether it is
    public makes no difference but for a warning. -/
def defaultMethodOf (ifc : C) : Option (ArtMethod C) :=
  (cls.declaredVirtualMethods ifc).find? fun currentMethod =>
    !currentMethod.isAbstract && tg.hasSameNameAndSignature currentMethod

/-- The loop of `FindDefaultMethodImplementation`: the first `k` interfaces are still to be
    visited, from the last on. -/
def searchBackwards (iftable : List C) :
    Nat → Option (C × ArtMethod C) → DefaultMethodSearchResult C
  | 0, some (_, outDefaultMethod) => .defaultFound outDefaultMethod
  | 0, none => .abstractFound
  | k + 1, chosen =>
    match iftable[k]? with
    | none => searchBackwards iftable k chosen
    | some ifc =>
      match cls.defaultMethodOf tg ifc, chosen with
      | none, _ => searchBackwards iftable k chosen
      | some _, some (chosenIface, _) =>
        if !cls.isAssignableFrom ifc chosenIface &&
            !cls.containsOverridingMethodOf tg iftable k ifc then .defaultConflict
        else searchBackwards iftable k chosen
      | some currentMethod, none =>
        if !cls.containsOverridingMethodOf tg iftable k ifc then
          searchBackwards iftable k (some (ifc, currentMethod))
        else searchBackwards iftable k none

def findDefaultMethodImplementation (kl : C) : DefaultMethodSearchResult C :=
  let iftable := cls.ifTable kl
  if iftable.length = 0 then .abstractFound
  else cls.searchBackwards tg iftable iftable.length none

/-! ## Candidates -/

/-- Some proper subinterface in the table declares the method again. -/
def redeclared (tbl : List C) (ifc : C) : Bool :=
  tbl.any fun o => o ≠ ifc && cls.declares tg o && cls.isAssignableFrom ifc o

def isCandidate (tbl : List C) (ifc : C) : Bool :=
  (cls.defaultMethodOf tg ifc).isSome && !cls.redeclared tg tbl ifc

def decideBy : List C → DefaultMethodSearchResult C
  | [] => .abstractFound
  | [iface] =>
    match cls.defaultMethodOf tg iface with
    | some method => .defaultFound method
    | none => .abstractFound
  | _ :: _ :: _ => .defaultConflict

/-- No duplicates, and no interface behind one of its subinterfaces. -/
structure SuperFirst (tbl : List C) : Prop where
  nodup : tbl.Nodup
  ordered : tbl.Pairwise fun earlier later => cls.isAssignableFrom later earlier = false

variable {cls tg} {ifc : C} {tb : List C} {k : Nat}

omit [DecidableEq C] in
theorem declares_of_defaultMethodOf (hf : cls.defaultMethodOf tg ifc = some md) : cls.declares tg ifc = true := by
  have eq := List.find?_some hf
  rw [Bool.and_eq_true] at eq
  exact any_eq_true.mpr ⟨md, mem_of_find?_eq_some hf, eq.2⟩

/-- The scan behind the interface finds what any scan of the table would. -/
theorem containsOverridingMethodOf_eq (superFirst : cls.SuperFirst tb) (spot : tb[k]? = some ifc) :
    cls.containsOverridingMethodOf tg tb k ifc = cls.redeclared tg tb ifc := by
  obtain ⟨fits, rfl⟩ := List.getElem?_eq_some_iff.mp spot
  rw [Bool.eq_iff_iff, containsOverridingMethodOf, redeclared, any_eq_true, any_eq_true]
  constructor
  · intro ⟨o, mem, over_⟩
    obtain ⟨i, hf⟩ := mem_iff_getElem?.mp mem
    rw [List.getElem?_drop] at hf
    obtain ⟨otherInRange, other⟩ := List.getElem?_eq_some_iff.mp hf
    have far : o ≠ tb[k] := by
      intro eq
      have places := (superFirst.nodup.getElem_inj_iff).mp (other.trans eq)
      omega
    exact ⟨o, mem_of_mem_drop mem, by simpa [far] using over_⟩
  · intro ⟨o, mem, over_⟩
    simp only [Bool.and_eq_true, decide_eq_true_eq] at over_
    obtain ⟨⟨far, own⟩, has⟩ := over_
    obtain ⟨i, otherInRange, rfl⟩ := getElem_of_mem mem
    have late : k < i := by
      by_contra notLater
      have ne : i ≠ k := fun eq => far (by simp only [eq])
      have ord := pairwise_iff_getElem.mp superFirst.ordered i k otherInRange fits (by omega)
      rw [has] at ord
      cases ord
    refine ⟨tb[i], ?_, by simp [own, has]⟩
    rw [mem_drop_iff_getElem]
    exact ⟨i - (k + 1), by omega, by simp only [show k + 1 + (i - (k + 1)) = i by omega]⟩

/-- The candidates among the first `k` interfaces. -/
def candidates (cls : ClassTable C) (tg : ArtMethod C) (tbl : List C) (k : Nat) : List C :=
  (tbl.take k).filter (cls.isCandidate tg tbl)

theorem candidates_succ (spot : tb[k]? = some ifc) :
    cls.candidates tg tb (k + 1) = if cls.isCandidate tg tb ifc then cls.candidates tg tb k ++ [ifc]
      else cls.candidates tg tb k := by
  rw [candidates, take_add_one, spot]
  split
  next isCandidate => simp [candidates, isCandidate]
  next notCandidate => simp [candidates, notCandidate]

/-! ## What the search finds -/

/-- With an interface chosen, only a second candidate makes a difference. -/
theorem searchBackwards_some (superFirst : cls.SuperFirst tb) {ci : C} {outDefaultMethod : ArtMethod C}
    (late : ci ∈ tb.drop k)
    (own : cls.declares tg ci = true) :
    cls.searchBackwards tg tb k (some (ci, outDefaultMethod)) =
      if cls.candidates tg tb k = [] then .defaultFound outDefaultMethod else .defaultConflict := by
  induction k with
  | zero => simp [searchBackwards, candidates]
  | succ k ih =>
    have stillLater : ci ∈ tb.drop k := by
      rw [← drop_drop] at late
      exact mem_of_mem_drop late
    have tl := ih stillLater
    rw [searchBackwards]
    split
    next past =>
      have eq : cls.candidates tg tb (k + 1) = cls.candidates tg tb k := by
        rw [candidates, take_add_one, past, Option.toList_none, append_nil, candidates]
      rw [tl, eq]
    next ifc spot =>
      have overriding : cls.containsOverridingMethodOf tg tb k ifc = _ :=
        containsOverridingMethodOf_eq superFirst spot
      rw [candidates_succ spot, isCandidate]
      cases hf : cls.defaultMethodOf tg ifc with
      | none => simpa [hf] using tl
      | some _ =>
        rw [overriding]
        cases again : cls.redeclared tg tb ifc with
        | true => simpa using tl
        | false =>
          -- a chosen subinterface would have redeclared the method
          have unrelated : cls.isAssignableFrom ifc ci = false := by
            rw [← Bool.not_eq_true]
            intro has
            obtain ⟨_, rfl⟩ := List.getElem?_eq_some_iff.mp spot
            have far : ci ≠ tb[k] := by
              intro eq
              obtain ⟨i, _, pick⟩ := mem_drop_iff_getElem.mp late
              have places := (superFirst.nodup.getElem_inj_iff).mp (pick.trans eq)
              omega
            have redeclares : cls.redeclared tg tb tb[k] = true :=
              any_eq_true.mpr ⟨ci, mem_of_mem_drop late, by simp [far, own, has]⟩
            rw [again] at redeclares
            cases redeclares
          simp [unrelated]

theorem searchBackwards_none (superFirst : cls.SuperFirst tb) :
    cls.searchBackwards tg tb k none = cls.decideBy tg (cls.candidates tg tb k) := by
  induction k with
  | zero => simp [searchBackwards, candidates, decideBy]
  | succ k ih =>
    rw [searchBackwards]
    split
    next past =>
      rw [ih, candidates, candidates, take_add_one, past, Option.toList_none, append_nil]
    next ifc spot =>
      rw [candidates_succ spot, isCandidate]
      cases hf : cls.defaultMethodOf tg ifc with
      | none => simpa [hf] using ih
      | some md =>
        rw [containsOverridingMethodOf_eq superFirst spot]
        cases again : cls.redeclared tg tb ifc with
        | true => simpa using ih
        | false =>
          obtain ⟨fits, isIface⟩ := List.getElem?_eq_some_iff.mp spot
          have late : ifc ∈ tb.drop k := by
            rw [← getElem_cons_drop fits, isIface]
            exact mem_cons_self
          simp only [searchBackwards_some superFirst late (declares_of_defaultMethodOf hf)]
          cases cls.candidates tg tb k with
          | nil => simp [decideBy, hf]
          | cons _ tl => cases tl <;> simp [decideBy]

theorem findDefaultMethodImplementation_eq {kl : C} (superFirst : cls.SuperFirst (cls.ifTable kl)) :
    cls.findDefaultMethodImplementation tg kl =
      cls.decideBy tg ((cls.ifTable kl).filter (cls.isCandidate tg (cls.ifTable kl))) := by
  have full : cls.searchBackwards tg (cls.ifTable kl) (cls.ifTable kl).length none =
      cls.decideBy tg (cls.candidates tg (cls.ifTable kl) (cls.ifTable kl).length) :=
    searchBackwards_none superFirst
  rw [candidates, take_length] at full
  unfold findDefaultMethodImplementation
  dsimp only
  split
  next emp => rw [length_eq_zero_iff.mp emp, filter_nil, decideBy]
  next => exact full

/-! ## The maximally-specific rule -/

def MaximallySpecific (cls : ClassTable C) (tg : ArtMethod C) (tbl : List C)
    (ifc : C) : Prop :=
  ifc ∈ tbl ∧ cls.declares tg ifc = true ∧ ∀ o ∈ tbl, o ≠ ifc → cls.isAssignableFrom ifc o = true →
      cls.declares tg o = false

instance (cls : ClassTable C) (tg : ArtMethod C) (tbl : List C) (ifc : C) :
    Decidable (cls.MaximallySpecific tg tbl ifc) := by
  unfold MaximallySpecific
  infer_instance

def DeclaresDefault (cls : ClassTable C) (tg : ArtMethod C) (ifc : C)
    (method : ArtMethod C) : Prop :=
  method ∈ cls.declaredVirtualMethods ifc ∧ method.isAbstract = false ∧ tg.nameAndSignature = method.nameAndSignature

omit [DecidableEq C] in
theorem declaresDefault_of_found (hf : cls.defaultMethodOf tg ifc = some md) : cls.DeclaresDefault tg ifc md := by
  have matching := List.find?_some hf
  simp only [Bool.and_eq_true, Bool.not_eq_true', ArtMethod.hasSameNameAndSignature_iff] at matching
  exact ⟨mem_of_find?_eq_some hf, matching⟩

omit [DecidableEq C] in
theorem isSome_defaultMethodOf : (cls.defaultMethodOf tg ifc).isSome = true ↔ ∃ md, cls.DeclaresDefault tg ifc md := by
  simp [defaultMethodOf, DeclaresDefault]

theorem isCandidate_iff (mem : ifc ∈ tb) :
    cls.isCandidate tg tb ifc = true ↔ cls.MaximallySpecific tg tb ifc ∧ ∃ md, cls.DeclaresDefault tg ifc md := by
  have redeclared_iff : cls.redeclared tg tb ifc = false ↔ ∀ o ∈ tb, o ≠ ifc → cls.isAssignableFrom ifc o = true →
        cls.declares tg o = false := by
    rw [redeclared, any_eq_false]
    refine forall₂_congr fun o _ => ?_
    cases cls.declares tg o <;> simp
  rw [isCandidate, Bool.and_eq_true, Bool.not_eq_true', redeclared_iff, isSome_defaultMethodOf]
  constructor
  · intro ⟨⟨md, isDefault⟩, notAgain⟩
    have own : cls.declares tg ifc = true :=
      any_eq_true.mpr ⟨md, isDefault.1, (tg.hasSameNameAndSignature_iff md).mpr isDefault.2.2⟩
    exact ⟨⟨mem, own, notAgain⟩, md, isDefault⟩
  · intro ⟨maximal, isDefault⟩
    exact ⟨isDefault, maximal.2.2⟩

theorem mem_candidates_iff :
    ifc ∈ tb.filter (cls.isCandidate tg tb) ↔
      cls.MaximallySpecific tg tb ifc ∧ ∃ md, cls.DeclaresDefault tg ifc md := by
  rw [mem_filter]
  constructor
  · intro ⟨mem, candidate⟩
    exact (isCandidate_iff mem).mp candidate
  · intro both
    exact ⟨both.1.1, (isCandidate_iff both.1.1).mpr both⟩

omit [DecidableEq C] in
theorem decideBy_perm (perm : one.Perm two) : cls.decideBy tg one = cls.decideBy tg two := by
  have len := perm.length_eq
  match one, two, perm, len with
  | [], [], _, _ => rfl
  | [first], [second], perm, _ => rw [perm_singleton.mp perm]
  | _ :: _ :: _, _ :: _ :: _, _, _ => rfl

/-- The candidates depend only on which interfaces are in the table. -/
theorem candidates_perm (perm : one.Perm two) :
    (one.filter (cls.isCandidate tg one)).Perm (two.filter (cls.isCandidate tg two)) := by
  have eq : cls.isCandidate tg one = cls.isCandidate tg two := by
    funext ifc
    simp only [isCandidate, redeclared, perm.any_eq]
  rw [eq]
  exact perm.filter _

/-- One, several or no interface among the maximally specific ones has a default. -/
theorem default_resolution_maximally_specific (cls : ClassTable C) (tg : ArtMethod C)
    (kl : C) (superFirst : cls.SuperFirst (cls.ifTable kl)) :
    (∀ ifc, cls.MaximallySpecific tg (cls.ifTable kl) ifc → (∃ method, cls.DeclaresDefault tg ifc method) →
        (∀ o, cls.MaximallySpecific tg (cls.ifTable kl) o → (∃ method, cls.DeclaresDefault tg o method) → o = ifc) →
        ∃ method, cls.DeclaresDefault tg ifc method ∧
          cls.findDefaultMethodImplementation tg kl = .defaultFound method) ∧
      (∀ one two, one ≠ two → cls.MaximallySpecific tg (cls.ifTable kl) one →
        cls.MaximallySpecific tg (cls.ifTable kl) two → (∃ method, cls.DeclaresDefault tg one method) →
        (∃ method, cls.DeclaresDefault tg two method) → cls.findDefaultMethodImplementation tg kl = .defaultConflict) ∧
      ((∀ ifc, cls.MaximallySpecific tg (cls.ifTable kl) ifc → ¬ ∃ method, cls.DeclaresDefault tg ifc method) →
        cls.findDefaultMethodImplementation tg kl = .abstractFound) ∧
      ∀ o, (cls.ifTable o).Perm (cls.ifTable kl) → cls.SuperFirst (cls.ifTable o) →
        cls.findDefaultMethodImplementation tg o = cls.findDefaultMethodImplementation tg kl := by
  have nodup := superFirst.nodup.filter (cls.isCandidate tg (cls.ifTable kl))
  have members : ∀ ifc, ifc ∈ (cls.ifTable kl).filter (cls.isCandidate tg (cls.ifTable kl)) ↔
      cls.MaximallySpecific tg (cls.ifTable kl) ifc ∧ ∃ method, cls.DeclaresDefault tg ifc method :=
    fun _ => mem_candidates_iff
  have res : cls.findDefaultMethodImplementation tg kl =
      cls.decideBy tg ((cls.ifTable kl).filter (cls.isCandidate tg (cls.ifTable kl))) :=
    findDefaultMethodImplementation_eq superFirst
  refine ⟨?_, ?_, ?_, ?_⟩
  · intro ifc maximal isDefault unique
    have single : (cls.ifTable kl).filter (cls.isCandidate tg (cls.ifTable kl)) = [ifc] :=
      (perm_singleton.mp ((perm_ext_iff_of_nodup nodup (nodup_singleton ifc)).mpr fun o => by
        rw [members, mem_singleton]
        exact ⟨fun both => unique o both.1 both.2, fun same => same ▸ ⟨maximal, isDefault⟩⟩))
    obtain ⟨method, found⟩ := Option.isSome_iff_exists.mp (isSome_defaultMethodOf.mpr isDefault)
    refine ⟨method, declaresDefault_of_found found, ?_⟩
    rw [res, single, decideBy, found]
  · intro one two apart oneMaximal twoMaximal oneDefault twoDefault
    have oneMember := (members one).mpr ⟨oneMaximal, oneDefault⟩
    have twoMember := (members two).mpr ⟨twoMaximal, twoDefault⟩
    rw [res]
    match equal : (cls.ifTable kl).filter (cls.isCandidate tg (cls.ifTable kl)) with
    | [] => simp [equal] at oneMember
    | [only] =>
      rw [equal, mem_singleton] at oneMember twoMember
      exact absurd (oneMember.trans twoMember.symm) apart
    | _ :: _ :: _ => rfl
  · intro noDefault
    have none : (cls.ifTable kl).filter (cls.isCandidate tg (cls.ifTable kl)) = [] := by
      rw [eq_nil_iff_forall_not_mem]
      intro ifc member
      obtain ⟨maximal, isDefault⟩ := (members ifc).mp member
      exact noDefault ifc maximal isDefault
    rw [res, none, decideBy]
  · intro o perm otherFirst
    rw [res, findDefaultMethodImplementation_eq otherFirst]
    exact decideBy_perm (candidates_perm perm)

local instance fiveLinked : NeZero 5 := ⟨by decide⟩

local instance twoDefaults : NeZero 2 := ⟨by decide⟩

def diamondDefaults : ClassTable (Fin 5) :=
  { diamondClasses with
    ifTable := fun c => if c = 4 then [0, 1, 2] else []
    declaredVirtualMethods := fun c => if c = 0 ∨ c = 1 then [smallMethod c.val 0 c false] else [] }

theorem default_resolution_diamond :
    diamondDefaults.findDefaultMethodImplementation (smallMethod 9 0 4 true) 4 =
        .defaultFound (smallMethod 1 0 1 false) ∧
      ∃ method, diamondDefaults.DeclaresDefault (smallMethod 9 0 4 true) 1 method ∧
        diamondDefaults.findDefaultMethodImplementation (smallMethod 9 0 4 true) 4 = .defaultFound method := by
  have superFirst : diamondDefaults.SuperFirst (diamondDefaults.ifTable 4) := ⟨by decide, by decide⟩
  have isDefault : (diamondDefaults.defaultMethodOf (smallMethod 9 0 4 true) 1).isSome = true := by decide
  have unique : ∀ o, diamondDefaults.MaximallySpecific (smallMethod 9 0 4 true) (diamondDefaults.ifTable 4) o →
      o = 1 := by
    decide
  exact ⟨by decide, (default_resolution_maximally_specific diamondDefaults _ 4 superFirst).1 1 (by decide)
    (isSome_defaultMethodOf.mp isDefault) fun o maximal _ => unique o maximal⟩

/-! ## Linked classes -/

/-- For every class linked so far the search follows the rule. -/
theorem linked_findDefaultMethodImplementation {tables : C → Option (List C)}
    (reach : Reachable cls.LinkStep (fun _ => none) tables) {kl : C} (link : (tables kl).isSome) (tg : ArtMethod C) :
    (cls.withTables tables).findDefaultMethodImplementation tg kl =
      (cls.withTables tables).decideBy tg (((cls.withTables tables).ifTable kl).filter
          ((cls.withTables tables).isCandidate tg ((cls.withTables tables).ifTable kl))) := by
  have wf := ((linked_tables_wellFormed reach).of_linked link).1
  exact findDefaultMethodImplementation_eq
    ⟨wf.nodup, wf.pairwise (withTables_assignable cls tables)⟩

def linkedDiamond : ClassTable (Fin 5) :=
  { diamondDefaults with directInterfaces := fun c => if c = 4 then [1, 2, 1] else if c = 0 then [] else [0] }

/-- The tables when the first classes are linked. -/
def diamondTables (linked : Nat) (c : Fin 5) : Option (List (Fin 5)) :=
  if c.val < linked then some (if c = 4 then [0, 1, 2] else if c = 0 then [] else [0]) else none

theorem linked_findDefaultMethodImplementation_diamond :
    Reachable linkedDiamond.LinkStep (fun _ => none) (diamondTables 5) ∧
      .defaultFound (smallMethod 1 0 1 false) =
        (linkedDiamond.withTables (diamondTables 5)).decideBy (smallMethod 9 0 4 true)
          (((linkedDiamond.withTables (diamondTables 5)).ifTable 4).filter
            ((linkedDiamond.withTables (diamondTables 5)).isCandidate (smallMethod 9 0 4 true)
              ((linkedDiamond.withTables (diamondTables 5)).ifTable 4))) := by
  have links : ∀ c : Fin 5, linkedDiamond.LinkStep (diamondTables c) c (diamondTables (c + 1)) := by
    intro c
    refine ⟨?_, ?_, ?_, false, true, true, if c = 4 then [0, 1, 2] else if c = 0 then [] else [0], ?_, funext ?_⟩
    all_goals
      revert c
      decide
  have reached : Reachable linkedDiamond.LinkStep (fun _ => none) (diamondTables 5) :=
    ⟨_, .snoc (.snoc (.snoc (.snoc (.snoc .nil (links 0)) (links 1)) (links 2)) (links 3)) (links 4)⟩
  refine ⟨reached, ?_⟩
  rw [← linked_findDefaultMethodImplementation reached rfl]
  decide

end ClassTable

end Aosp.Art
