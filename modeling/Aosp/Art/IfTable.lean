import Aosp.Art.Method
import Aosp.Lib.Flattened

/-! # Interface tables

Model of `FillIfTable` and `ClassLinker::SetupInterfaceLookupTable`.  A table is
an array whose size is computed in advance; `none` models a write outside the
array, a read of an empty place or a failed check of a debug build.

The places filled are those of a flattened list: the superclass's table, with the
tables of the direct interfaces merged into it one after the other
(`fillIfTable_eq`).  So no check fails and the array is large enough.
-/

namespace Aosp.Art

open Aosp.Lib List
open Function (update update_of_ne update_self)

variable {C : Type} [DecidableEq C]

/-! ## The source -/

def dcheck (debug : Bool) (condition : Bool) : Option Unit :=
  if debug && !condition then none else some ()

/-- The array being filled, how far, and what is in it. -/
structure FillState (C : Type) where
  iftable : List (Option C)
  filledIfcount : Nat
  classesInIftable : List C

def setInterface (iftable : List (Option C)) (i : Nat) (ifc : C) :
    Option (List (Option C)) :=
  if i < iftable.length then some (iftable.set i (some ifc)) else none

namespace ClassTable

variable (cls : ClassTable C) (debug : Bool)

def notSubinterfaceOfAny (classesIn : List C) (v : C) : Bool :=
  classesIn.all fun c => !cls.isAssignableFrom v c

def place (s : FillState C) (ifc : C) : Option (FillState C) := do
  dcheck debug (cls.notSubinterfaceOfAny s.classesInIftable ifc)
  let iftable ← setInterface s.iftable s.filledIfcount ifc
  return ⟨iftable, s.filledIfcount + 1, ifc :: s.classesInIftable⟩

def addSuperInterface (s : FillState C) (superInterface : C) : Option (FillState C) :=
  if superInterface ∈ s.classesInIftable then some s
  else cls.place debug s superInterface

/-- One turn of the loop over `to_process`. -/
def addInterface (s : FillState C) (ifc : C) : Option (FillState C) :=
  if ifc ∈ s.classesInIftable then do
    dcheck debug ((cls.ifTable ifc).all (· ∈ s.classesInIftable))
    return s
  else do
    let s ← (cls.ifTable ifc).foldlM (cls.addSuperInterface debug) s
    cls.place debug s ifc

/-- The first `super_ifcount` entries are noted as added. -/
def noteSuperInterfaces (iftable : List (Option C)) (superIfcount : Nat) : Option (List C) :=
  (iftable.take superIfcount).foldlM (fun classesIn ent => do
    let ifc ← ent
    dcheck debug (cls.notSubinterfaceOfAny classesIn ifc)
    return ifc :: classesIn) []

/-- The check at the end of `FillIfTable`: no interface is a subtype of a later one. -/
def orderedCorrectly : List (Option C) → Bool
  | [] => true
  | entry :: later =>
    (later.all fun o =>
      match entry, o with
      | some ifA, some ifB => !cls.isAssignableFrom ifB ifA
      | _, _ => false) && orderedCorrectly later

def fillIfTable (iftable : List (Option C)) (superIfcount : Nat) (toProcess : List C) :
    Option (FillState C) := do
  let classesIn ← cls.noteSuperInterfaces debug iftable superIfcount
  let s ← toProcess.foldlM (cls.addInterface debug) ⟨iftable, superIfcount, classesIn⟩
  dcheck debug (cls.orderedCorrectly (s.iftable.take s.filledIfcount))
  return s

def superIfTable (kl : C) : List C :=
  match cls.superClass kl with
  | some sup => cls.ifTable sup
  | none => []

def interfacesOf (kl : C) (ifcs : Option (List C)) : List C :=
  ifcs.getD (cls.directInterfaces kl)

/-- The size computed in advance. -/
def ifcount (kl : C) (ifcs : Option (List C)) : Nat :=
  (cls.superIfTable kl).length + (cls.interfacesOf kl ifcs).length +
    ((cls.interfacesOf kl ifcs).map fun ifc => (cls.ifTable ifc).length).sum

def hasNonMarkerInterface (sup : C) : Bool :=
  (range (cls.ifTable sup).length).any fun i => 0 < cls.methodArrayCount sup i

end ClassTable

/-- How `SetupInterfaceLookupTable` ends. -/
inductive SetupResult (C : Type) where
  | linked (iftable : List (Option C))
  | incompatibleClassChangeError (message : String)
  | outOfMemory
  | aborted
deriving DecidableEq

namespace ClassTable

variable (cls : ClassTable C) (debug : Bool)

/-- The part of `SetupInterfaceLookupTable` that builds a new table.  The two allocations
    may fail. -/
def buildIfTable (alloc shrunk : Bool) (kl : C) (ifcs : Option (List C)) :
    SetupResult C :=
  let superTable := cls.superIfTable kl
  let direct := cls.interfacesOf kl ifcs
  match direct.find? (fun ifc => !cls.isInterface ifc) with
  | some ifc =>
    .incompatibleClassChangeError ("Class " ++ cls.prettyDescriptor kl ++
      " implements non-interface class " ++ cls.prettyDescriptor ifc)
  | none =>
    let ifcount := cls.ifcount kl ifcs
    if alloc then
      let iftable := superTable.map some ++ replicate (ifcount - superTable.length) none
      match cls.fillIfTable debug iftable superTable.length direct with
      | none => .aborted
      | some filled =>
        if filled.filledIfcount < ifcount then
          match dcheck debug (direct.length ≠ 0) with
          | none => .aborted
          | some _ => if shrunk then .linked (filled.iftable.take filled.filledIfcount) else .outOfMemory
        else
          match dcheck debug (filled.filledIfcount = ifcount) with
          | none => .aborted
          | some _ => .linked filled.iftable
    else .outOfMemory

def setupInterfaceLookupTable (alloc shrunk : Bool) (kl : C) (ifcs : Option (List C)) :
    SetupResult C :=
  if (cls.interfacesOf kl ifcs).length = 0 then
    match cls.superClass kl with
    | none =>
      -- the class keeps the table it has
      match dcheck debug (cls.ifTable kl).isEmpty with
      | none => .aborted
      | some _ => .linked ((cls.ifTable kl).map some)
    | some sup =>
      if (cls.ifTable sup).length = 0 || !cls.hasNonMarkerInterface sup then
        .linked ((cls.ifTable sup).map some)
      else cls.buildIfTable debug alloc shrunk kl ifcs
  else cls.buildIfTable debug alloc shrunk kl ifcs

/-! ## What a table should be -/

structure WellFormed (tbl : List C) : Prop where
  interfaces : ∀ ifc ∈ tbl, cls.isInterface ifc = true
  nodup : tbl.Nodup
  closed : ∀ ifc ∈ tbl, ∀ superInterface ∈ cls.ifTable ifc, superInterface ∈ tbl
  precedes : ∀ (i j : Nat) (ifc superInterface : C), tbl[i]? = some ifc →
    tbl[j]? = some superInterface → superInterface ∈ cls.ifTable ifc → j < i

/-- `IsAssignableFrom` of an interface. -/
def AssignableByTable : Prop :=
  ∀ ifc o, cls.isInterface ifc = true → (cls.isAssignableFrom ifc o = true ↔ ifc = o ∨ ifc ∈ cls.ifTable o)

variable {tbl l ics : List C} {cap : Nat} {ifc kl : C} {s : FillState C}
  {tables : C → Option (List C)}

omit [DecidableEq C] in
theorem wellFormed_iff :
    cls.WellFormed tbl ↔ (∀ ifc ∈ tbl, cls.isInterface ifc = true) ∧ Flattened cls.ifTable tbl := by
  constructor
  · intro wf
    exact ⟨wf.interfaces, flattened_of_precedes wf.nodup wf.closed wf.precedes⟩
  · intro ⟨ics, flat⟩
    exact ⟨ics, flat.nodup, fun _ mem _ more => flat.closed mem more,
      fun _ _ _ _ spot higherPlace more => flat.precedes spot higherPlace more⟩

/-! ## The table that is built -/

/-- The tables of the interfaces merged into a table one after the other, each interface
    behind its own table. -/
def mergeInterfaces (tbl ifcs : List C) : List C :=
  ifcs.foldl (fun tbl ifc => (cls.ifTable ifc ++ [ifc]).foldl addNew tbl) tbl

/-- The array holds the list, and so does the set. -/
structure Filled (cap : Nat) (l : List C) (s : FillState C) : Prop where
  iftable : s.iftable = l.map some ++ replicate (cap - l.length) none
  filledIfcount : s.filledIfcount = l.length
  classesIn : ∀ c, c ∈ s.classesInIftable ↔ c ∈ l

omit [DecidableEq C] in
@[simp] theorem dcheck_true (debug : Bool) : dcheck debug true = some () := by
  simp [dcheck]

omit [DecidableEq C] in
theorem setInterface_next (room : l.length < cap) (ic : C) :
    setInterface (l.map some ++ replicate (cap - l.length) none) l.length ic =
      some ((l ++ [ic]).map some ++ replicate (cap - (l ++ [ic]).length) none) := by
  obtain ⟨free, split⟩ := Nat.exists_eq_add_one_of_ne_zero (Nat.sub_ne_zero_of_lt room)
  have less : cap - (l ++ [ic]).length = free := by
    rw [length_append, length_singleton]
    omega
  rw [setInterface, split, less, if_pos (by simp)]
  simp [replicate_succ]

variable {cls}

omit [DecidableEq C] in
theorem notSubinterfaceOfAny_of_notMem (has : cls.AssignableByTable)
    (flat : Flattened cls.ifTable l) (classes : cls.isInterface ifc = true)
    (new : ifc ∉ l) {classesIn : List C} (eq : ∀ c, c ∈ classesIn → c ∈ l) :
    cls.notSubinterfaceOfAny classesIn ifc = true := by
  rw [notSubinterfaceOfAny, all_eq_true]
  intro c mem
  rw [Bool.not_eq_true', ← Bool.not_eq_true, has ifc c classes]
  intro either
  cases either with
  | inl hq => exact new (hq ▸ eq c mem)
  | inr high => exact new (flat.closed (eq c mem) high)

omit [DecidableEq C] in
theorem place_filled (has : cls.AssignableByTable) (full : Filled cap l s)
    (flat : Flattened cls.ifTable l) (room : l.length < cap) (classes : cls.isInterface ifc = true) (new : ifc ∉ l) :
    ∃ next, cls.place debug s ifc = some next ∧ Filled cap (l ++ [ifc]) next := by
  have checked := notSubinterfaceOfAny_of_notMem has flat classes new fun c => (full.classesIn c).mp
  refine ⟨⟨_, l.length + 1, ifc :: s.classesInIftable⟩, ?_, ⟨rfl, by simp, ?_⟩⟩
  · rw [place, checked, dcheck_true, full.iftable, full.filledIfcount, setInterface_next room]
    rfl
  · intro c
    simp [full.classesIn, or_comm]

section

variable (has : cls.AssignableByTable) (full : Filled cap l s)
  (flat : Flattened cls.ifTable l)
include has full flat

theorem addSuperInterface_filled (room : l.length < cap) {si : C} (classes : cls.isInterface si = true) :
    ∃ next, cls.addSuperInterface debug s si = some next ∧ Filled cap (addNew l si) next := by
  unfold addSuperInterface
  simp only [full.classesIn]
  split
  next mem =>
    rw [addNew_of_mem mem]
    exact ⟨s, rfl, full⟩
  next new =>
    rw [addNew_of_notMem new]
    exact place_filled debug has full flat room classes new

theorem foldlM_addSuperInterface_filled {more : List C} (moreFlattened : Flattened cls.ifTable more)
    (ics : ∀ ifc ∈ more, cls.isInterface ifc = true) (room : l.length + more.length ≤ cap) :
    ∃ next, more.foldlM (cls.addSuperInterface debug) s = some next ∧ Filled cap (more.foldl addNew l) next := by
  induction more using reverseRecOn with
  | nil => exact ⟨s, rfl, full⟩
  | append_singleton more si ih =>
    obtain ⟨old, _, _⟩ := flattened_snoc.mp moreFlattened
    rw [length_append, length_singleton] at room
    obtain ⟨_, met, middleFilled⟩ := ih old
      (fun ifc mem => ics ifc (mem_append_left _ mem)) (by omega)
    have len := length_foldl_addNew_le l more
    obtain ⟨next, adds, _⟩ := addSuperInterface_filled debug has middleFilled
      (flat.merge old) (by omega) (ics si (by simp))
    refine ⟨next, ?_, ?_⟩
    · rw [foldlM_append, met]
      simpa using adds
    · rwa [foldl_append]

end

omit [DecidableEq C] in
theorem flattened_with_own (flat : Flattened cls.ifTable (cls.ifTable ifc)) :
    Flattened cls.ifTable (cls.ifTable ifc ++ [ifc]) :=
  flattened_snoc.mpr ⟨flat, fun mem => flat.irrefl mem mem, fun _ mem => mem⟩

theorem addInterface_filled (has : cls.AssignableByTable) (full : Filled cap l s)
    (flat : Flattened cls.ifTable l) (classes : cls.isInterface ifc = true) (own : cls.WellFormed (cls.ifTable ifc))
    (room : l.length + (cls.ifTable ifc).length < cap) :
    ∃ next, cls.addInterface debug s ifc = some next ∧ Filled cap ((cls.ifTable ifc ++ [ifc]).foldl addNew l) next := by
  obtain ⟨ownInterfaces, ownFlattened⟩ := cls.wellFormed_iff.mp own
  unfold addInterface
  simp only [full.classesIn]
  split
  next mem =>
    -- everything above it is there as well, and merging changes nothing
    have high : ∀ c ∈ cls.ifTable ifc ++ [ifc], c ∈ l := by
      intro c either
      cases mem_append.mp either with
      | inl more => exact flat.closed mem more
      | inr itself => exact mem_singleton.mp itself ▸ mem
    have checked : ((cls.ifTable ifc).all fun c => decide (c ∈ l)) = true := by
      simpa using fun c more => high c (mem_append_left _ more)
    rw [foldl_addNew_of_subset high, checked, dcheck_true]
    exact ⟨s, rfl, full⟩
  next new =>
    obtain ⟨_, met, middleFilled⟩ := foldlM_addSuperInterface_filled debug has full
      flat ownFlattened ownInterfaces (Nat.le_of_lt room)
    have stillFresh : ifc ∉ (cls.ifTable ifc).foldl addNew l := by
      intro mem
      cases mem_foldl_addNew.mp mem with
      | inl hp => exact new hp
      | inr more => exact ownFlattened.irrefl more more
    have len := length_foldl_addNew_le l (cls.ifTable ifc)
    obtain ⟨next, adds, _⟩ := place_filled debug has middleFilled
      (flat.merge ownFlattened) (by omega) classes stillFresh
    refine ⟨next, ?_, ?_⟩
    · rw [met]
      exact adds
    · rwa [foldl_append, foldl_cons, foldl_nil, addNew_of_notMem stillFresh]

/-! ## The loop over the direct interfaces -/

theorem mergeInterfaces_cons (tb ics : List C) (ic : C) :
    cls.mergeInterfaces tb (ic :: ics) = cls.mergeInterfaces ((cls.ifTable ic ++ [ic]).foldl addNew tb) ics := rfl

theorem mem_mergeInterfaces {c : C} :
    c ∈ cls.mergeInterfaces tbl ics ↔ c ∈ tbl ∨ ∃ ifc ∈ ics, c = ifc ∨ c ∈ cls.ifTable ifc := by
  induction ics generalizing tbl with
  | nil => simp [mergeInterfaces]
  | cons ifc ics ih =>
    rw [mergeInterfaces_cons, ih, mem_foldl_addNew]
    simp only [mem_append, mem_singleton, exists_mem_cons_iff, or_comm (a := c = ifc), or_assoc]

theorem mergeInterfaces_extends (tb ics : List C) : tb <+: cls.mergeInterfaces tb ics := by
  induction ics generalizing tb with
  | nil => exact prefix_refl tb
  | cons _ ics ih =>
    exact (foldl_addNew_extends tb _).trans (ih _)

theorem mergeInterfaces_wellFormed (wf : cls.WellFormed tbl) (ai : ∀ ifc ∈ ics, cls.isInterface ifc = true)
    (each : ∀ ifc ∈ ics, cls.WellFormed (cls.ifTable ifc)) : cls.WellFormed (cls.mergeInterfaces tbl ics) := by
  induction ics generalizing tbl with
  | nil => exact wf
  | cons ifc ics ih =>
    obtain ⟨hp, flat⟩ := cls.wellFormed_iff.mp wf
    obtain ⟨high, own⟩ := cls.wellFormed_iff.mp (each ifc mem_cons_self)
    have merged : ∀ c ∈ (cls.ifTable ifc ++ [ifc]).foldl addNew tbl, cls.isInterface c = true := by
      intro c mem
      simp only [mem_foldl_addNew, mem_append, mem_singleton] at mem
      obtain old | more | itself := mem
      · exact hp c old
      · exact high c more
      · exact itself ▸ ai ifc mem_cons_self
    exact ih (cls.wellFormed_iff.mpr ⟨merged, flat.merge (flattened_with_own own)⟩)
      (fun o mem => ai o (mem_cons_of_mem _ mem))
      (fun o mem => each o (mem_cons_of_mem _ mem))

/-- The entries that the interfaces may need. -/
def entriesFor (cls : ClassTable C) (ifcs : List C) : Nat :=
  ifcs.length + (ifcs.map fun ifc => (cls.ifTable ifc).length).sum

theorem foldlM_addInterface_filled (has : cls.AssignableByTable) (full : Filled cap l s)
    (flat : Flattened cls.ifTable l) (ai : ∀ ic ∈ ics, cls.isInterface ic = true)
    (each : ∀ ic ∈ ics, cls.WellFormed (cls.ifTable ic)) (room : l.length + cls.entriesFor ics ≤ cap) :
    ∃ last, ics.foldlM (cls.addInterface debug) s = some last ∧
      Filled cap (cls.mergeInterfaces l ics) last ∧ (cls.mergeInterfaces l ics).length ≤ cap := by
  induction ics generalizing l s with
  | nil => exact ⟨s, rfl, full, Nat.le_trans (Nat.le_add_right _ _) room⟩
  | cons ic ics ih =>
    have own := each ic mem_cons_self
    have needed : cls.entriesFor (ic :: ics) = (cls.ifTable ic).length + 1 + cls.entriesFor ics := by
      simp only [entriesFor, length_cons, map_cons, sum_cons]
      omega
    obtain ⟨_, adds, nextFilled⟩ := addInterface_filled debug has full flat
      (ai ic mem_cons_self) own (by omega)
    have hg := length_foldl_addNew_le l (cls.ifTable ic ++ [ic])
    rw [length_append, length_singleton] at hg
    rw [mergeInterfaces_cons, foldlM_cons, adds]
    exact ih nextFilled (flat.merge (flattened_with_own (cls.wellFormed_iff.mp own).2))
      (fun o mem => ai o (mem_cons_of_mem _ mem))
      (fun o mem => each o (mem_cons_of_mem _ mem)) (by omega)

/-! ## The checks at both ends -/

omit [DecidableEq C] in
theorem noteSuperInterfaces_some (has : cls.AssignableByTable) (ics : ∀ ifc ∈ tbl, cls.isInterface ifc = true)
    (flat : Flattened cls.ifTable tbl) (free : List (Option C)) :
    ∃ classesIn, cls.noteSuperInterfaces debug (tbl.map some ++ free) tbl.length = some classesIn ∧
      ∀ c, c ∈ classesIn ↔ c ∈ tbl := by
  have ht : (tbl.map some ++ free).take tbl.length = tbl.map some := by
    rw [← length_map (f := some), take_left]
  rw [noteSuperInterfaces, ht]
  induction tbl using reverseRecOn with
  | nil => exact ⟨[], rfl, by simp⟩
  | append_singleton tbl ic ih =>
    obtain ⟨old, new, _⟩ := flattened_snoc.mp flat
    obtain ⟨classesIn, noted, eq⟩ := ih
      (fun ifc mem => ics ifc (mem_append_left _ mem)) old
      (by rw [← length_map (f := some), take_left])
    have checked := notSubinterfaceOfAny_of_notMem has old (ics ic (by simp)) new fun c => (eq c).mp
    refine ⟨ic :: classesIn, ?_, ?_⟩
    · rw [map_append, foldlM_append, noted]
      simp [checked]
    · intro c
      simp [eq, or_comm]

omit [DecidableEq C] in
theorem WellFormed.pairwise (wf : cls.WellFormed tbl) (has : cls.AssignableByTable) :
    tbl.Pairwise fun old late => cls.isAssignableFrom late old = false := by
  rw [pairwise_iff_getElem]
  intro i j iBound jBound less
  rw [← Bool.not_eq_true, has _ _ (wf.interfaces _ (getElem_mem jBound))]
  intro either
  cases either with
  | inl eq => exact Nat.ne_of_lt less ((wf.nodup.getElem_inj_iff).mp eq).symm
  | inr high =>
    have back := wf.precedes i j _ _ (getElem?_eq_getElem iBound) (getElem?_eq_getElem jBound) high
    omega

omit [DecidableEq C] in
theorem orderedCorrectly_of_pairwise (prs : tbl.Pairwise fun old late => cls.isAssignableFrom late old = false) :
    cls.orderedCorrectly (tbl.map some) = true := by
  induction prs with
  | nil => rfl
  | cons first _ ih =>
    rw [map_cons, orderedCorrectly, ih]
    simpa using first

/-! ## The whole function -/

theorem fillIfTable_eq (has : cls.AssignableByTable) {dr : List C}
    (wf : cls.WellFormed tbl) (ai : ∀ ifc ∈ dr, cls.isInterface ifc = true)
    (each : ∀ ifc ∈ dr, cls.WellFormed (cls.ifTable ifc)) (sz : cap = tbl.length + cls.entriesFor dr) :
    ∃ full, cls.fillIfTable debug (tbl.map some ++ replicate (cap - tbl.length) none) tbl.length dr = some full ∧
      Filled cap (cls.mergeInterfaces tbl dr) full ∧ (cls.mergeInterfaces tbl dr).length ≤ cap := by
  obtain ⟨ics, flat⟩ := cls.wellFormed_iff.mp wf
  obtain ⟨classesIn, noted, eq⟩ := noteSuperInterfaces_some debug has ics flat
    _
  obtain ⟨full, met, hh, fits⟩ := foldlM_addInterface_filled debug has
    (⟨rfl, rfl, eq⟩ : Filled cap tbl ⟨_, tbl.length, classesIn⟩) flat ai each
    (Nat.le_of_eq sz.symm)
  have ht : full.iftable.take full.filledIfcount = (cls.mergeInterfaces tbl dr).map some := by
    rw [hh.iftable, hh.filledIfcount, ← length_map (f := some), take_left]
  have merged := mergeInterfaces_wellFormed wf ai each
  have checked := orderedCorrectly_of_pairwise (merged.pairwise has)
  refine ⟨full, ?_, hh, fits⟩
  rw [fillIfTable, noted, Option.bind_eq_bind, Option.bind_some, met, Option.bind_eq_bind, Option.bind_some,
    ht, checked, dcheck_true]
  rfl

/-- What is said of a new table: it starts with the superclass's, holds besides only the
    direct interfaces and what is above them, and fits into the array. -/
structure BuiltTable (cls : ClassTable C) (kl : C) (ifcs : Option (List C))
    (tbl : List C) : Prop where
  starts : cls.superIfTable kl <+: tbl
  members : ∀ c, c ∈ tbl ↔ c ∈ cls.superIfTable kl ∨ ∃ ifc ∈ cls.interfacesOf kl ifcs, c = ifc ∨ c ∈ cls.ifTable ifc
  wellFormed : cls.WellFormed tbl
  fits : tbl.length ≤ cls.ifcount kl ifcs

/-- How the function may end. -/
def SetupOutcome (cls : ClassTable C) (alloc shrunk : Bool) (kl : C)
    (ifcs : Option (List C)) : SetupResult C → Prop
  | .linked iftable => ∃ tbl, iftable = tbl.map some ∧ cls.BuiltTable kl ifcs tbl
  | .incompatibleClassChangeError _ =>
    ∃ ifc ∈ cls.interfacesOf kl ifcs, cls.isInterface ifc = false
  | .outOfMemory => alloc = false ∨ shrunk = false
  | .aborted => False

omit [DecidableEq C] in
theorem builtTable_of_no_interfaces {ics : Option (List C)}
    (none : cls.interfacesOf kl ics = []) (wf : cls.WellFormed (cls.superIfTable kl)) :
    cls.BuiltTable kl ics (cls.superIfTable kl) := by
  refine ⟨prefix_refl _, by simp [none], wf, ?_⟩
  simp [ifcount, none]

theorem buildIfTable_outcome (has : cls.AssignableByTable) (al shrunk : Bool)
    {ics : Option (List C)} (wf : cls.WellFormed (cls.superIfTable kl))
    (each : ∀ ifc ∈ cls.interfacesOf kl ics, cls.WellFormed (cls.ifTable ifc)) :
    cls.SetupOutcome al shrunk kl ics (cls.buildIfTable debug al shrunk kl ics) := by
  unfold buildIfTable
  dsimp only
  split
  next ifc hf => exact ⟨ifc, mem_of_find?_eq_some hf, by simpa using find?_some hf⟩
  next onlyInterfaces =>
    have ai : ∀ ifc ∈ cls.interfacesOf kl ics, cls.isInterface ifc = true := by
      simpa using find?_eq_none.mp onlyInterfaces
    split
    next =>
      have sz : cls.ifcount kl ics = (cls.superIfTable kl).length + cls.entriesFor (cls.interfacesOf kl ics) := by
        rw [ifcount, entriesFor, Nat.add_assoc]
      obtain ⟨_, met, hh, fits⟩ := fillIfTable_eq debug has wf ai each
        sz
      have made : cls.BuiltTable kl ics
          _ :=
        ⟨mergeInterfaces_extends _ _, fun _ => mem_mergeInterfaces,
          mergeInterfaces_wellFormed wf ai each, fits⟩
      rw [met]
      dsimp only
      split
      next less =>
        have some_direct : (cls.interfacesOf kl ics).length ≠ 0 := by
          intro emp
          rw [hh.filledIfcount, sz, length_eq_zero_iff.mp emp] at less
          simp [mergeInterfaces, entriesFor] at less
        simp only [ne_eq, some_direct, not_false_eq_true, decide_true, dcheck_true]
        split
        next =>
          refine ⟨_, ?_, made⟩
          rw [hh.iftable, hh.filledIfcount, ← length_map (f := some), take_left]
        next notShrunk => exact .inr (by simpa using notShrunk)
      next full =>
        rw [hh.filledIfcount] at full
        have exactly : (cls.mergeInterfaces (cls.superIfTable kl)
            (cls.interfacesOf kl ics)).length = cls.ifcount kl ics := by omega
        simp only [hh.filledIfcount, exactly, decide_true, dcheck_true]
        refine ⟨_, ?_, made⟩
        rw [hh.iftable, exactly, Nat.sub_self, replicate_zero, append_nil]
    next notAllocated => exact .inl (by simpa using notAllocated)

omit [DecidableEq C] in
theorem superIfTable_wellFormed (wf : ∀ sc, cls.superClass kl = some sc → cls.WellFormed (cls.ifTable sc)) :
    cls.WellFormed (cls.superIfTable kl) := by
  unfold superIfTable
  split
  next sc hf => exact wf sc hf
  next => exact cls.wellFormed_iff.mpr ⟨by simp, flattened_nil⟩

theorem setupInterfaceLookupTable_outcome (has : cls.AssignableByTable) (al shrunk : Bool)
    (kl : C) (ics : Option (List C)) (new : cls.ifTable kl = []) (superWellFormed : ∀ sc, cls.superClass kl = some sc →
      cls.WellFormed (cls.ifTable sc))
    (directWellFormed : ∀ ifc ∈ cls.interfacesOf kl ics, cls.WellFormed (cls.ifTable ifc)) :
    cls.SetupOutcome al shrunk kl ics (cls.setupInterfaceLookupTable debug al shrunk kl ics) := by
  have superTable := superIfTable_wellFormed superWellFormed
  have build := buildIfTable_outcome debug has al shrunk superTable directWellFormed
  unfold setupInterfaceLookupTable
  split
  next noInterfaces =>
    have reuse := builtTable_of_no_interfaces (length_eq_zero_iff.mp noInterfaces) superTable
    split
    next noSuper =>
      rw [superIfTable, noSuper] at reuse
      simp only [new, isEmpty_nil, dcheck_true]
      exact ⟨[], rfl, reuse⟩
    next sc super_ =>
      rw [superIfTable, super_] at reuse
      split
      next => exact ⟨_, rfl, reuse⟩
      next => exact build
  next => exact build

/-- A table is built from the well-formed tables of the superclass and of the direct
    interfaces, unless one of these is no interface or memory runs out. -/
theorem iftable_closed_and_ordered (assignable : cls.AssignableByTable) (alloc shrunk : Bool)
    (kl : C) (ifcs : Option (List C)) (fresh : cls.ifTable kl = [])
    (superWellFormed : ∀ sup, cls.superClass kl = some sup →
      cls.WellFormed (cls.ifTable sup)) (directWellFormed : ∀ ifc ∈ cls.interfacesOf kl ifcs,
      cls.WellFormed (cls.ifTable ifc)) :
    cls.SetupOutcome alloc shrunk kl ifcs (cls.setupInterfaceLookupTable debug alloc shrunk kl ifcs) ∧
      ((∀ ifc ∈ cls.interfacesOf kl ifcs, cls.isInterface ifc = true) → alloc = true → shrunk = true →
        ∃ tbl, cls.setupInterfaceLookupTable debug alloc shrunk kl ifcs =
            .linked (tbl.map some) ∧ cls.BuiltTable kl ifcs tbl) := by
  have out := setupInterfaceLookupTable_outcome debug assignable alloc shrunk kl ifcs
    fresh superWellFormed directWellFormed
  refine ⟨out, fun allInterfaces isAllocated isShrunk => ?_⟩
  cases ended : cls.setupInterfaceLookupTable debug alloc shrunk kl ifcs with
  | linked _ =>
    rw [ended] at out
    obtain ⟨tbl, rfl, built⟩ := out
    exact ⟨tbl, rfl, built⟩
  | incompatibleClassChangeError _ =>
    rw [ended] at out
    obtain ⟨ifc, member, noInterface⟩ := out
    rw [allInterfaces ifc member] at noInterface
    cases noInterface
  | outOfMemory =>
    rw [ended, isAllocated, isShrunk] at out
    cases out with
    | inl failed => cases failed
    | inr failed => cases failed
  | aborted =>
    rw [ended] at out
    exact out.elim

local instance fiveClasses : NeZero 5 := ⟨by decide⟩

/-- Class 4 extends class 3, whose table is `[0]`, and implements 1 and 2, both
    subinterfaces of 0, and once more 1. -/
def diamondClasses : ClassTable (Fin 5) where
  isInterface c := c.val < 3
  superClass c := if c = 4 then some 3 else none
  directInterfaces c := if c = 4 then [1, 2, 1] else []
  ifTable c := if c = 1 ∨ c = 2 ∨ c = 3 then [0] else []
  methodArrayCount _ _ := 0
  isAssignableFrom i c := decide (i = c ∨ (i = 0 ∧ (c = 1 ∨ c = 2 ∨ c = 3)))
  declaredVirtualMethods _ := []
  vtable _ := []
  shouldHaveEmbeddedVTable _ := true
  canAccessMember _ _ := true
  descriptor _ := ""
  prettyDescriptor _ := ""
  prettyMethod _ := ""

theorem iftable_closed_and_ordered_diamond :
    diamondClasses.setupInterfaceLookupTable true true true 4 none = .linked [some 0, some 1, some 2] ∧
      ∃ tbl, diamondClasses.setupInterfaceLookupTable true true true 4 none = .linked (tbl.map some) ∧
        diamondClasses.BuiltTable 4 none tbl := by
  have assignable : diamondClasses.AssignableByTable := by
    intro ifc o
    revert ifc o
    decide
  have single : diamondClasses.WellFormed [0] :=
    diamondClasses.wellFormed_iff.mpr ⟨by decide, flattened_snoc.mpr ⟨flattened_nil, by decide, by decide⟩⟩
  refine ⟨by decide, (iftable_closed_and_ordered true assignable true true 4 none rfl ?_ ?_).2 (by decide) rfl rfl⟩
  · intro _ isSuper
    cases isSuper
    exact single
  · intro ifc member
    have either : ifc = 1 ∨ ifc = 2 := by
      revert ifc member
      decide
    cases either with
    | inl first => exact first ▸ single
    | inr second => exact second ▸ single

/-! ## Linking class after class -/

/-- The classes while some of them, those with a table, are linked. -/
def withTables (cls : ClassTable C) (tables : C → Option (List C)) : ClassTable C :=
  { cls with
    ifTable := fun c => (tables c).getD []
    isAssignableFrom := fun ifc c => ifc = c ∨ ifc ∈ (tables c).getD [] }

theorem withTables_assignable (cls : ClassTable C) (tables : C → Option (List C)) :
    (cls.withTables tables).AssignableByTable := by
  intro _ o _
  simp [withTables]

structure LinkStep (cls : ClassTable C) (tables : C → Option (List C)) (kl : C)
    (next : C → Option (List C)) : Prop where
  unlinked : tables kl = none
  superLinked : ∀ sup, cls.superClass kl = some sup → (tables sup).isSome
  interfacesLinked : ∀ ifc ∈ cls.directInterfaces kl, (tables ifc).isSome
  linked : ∃ debug alloc shrunk tbl, (cls.withTables tables).setupInterfaceLookupTable debug alloc shrunk kl none =
        .linked (tbl.map some) ∧ next = update tables kl (some tbl)

def TablesWellFormed (cls : ClassTable C) (tables : C → Option (List C)) : Prop :=
  ∀ c tbl, tables c = some tbl → (cls.withTables tables).WellFormed tbl ∧ ∀ ifc ∈ tbl, (tables ifc).isSome

omit [DecidableEq C] in
theorem WellFormed.congr {o : ClassTable C} (wf : cls.WellFormed tbl) (kinds : o.isInterface = cls.isInterface)
    (eq : ∀ ifc ∈ tbl, o.ifTable ifc = cls.ifTable ifc) : o.WellFormed tbl := by
  refine ⟨kinds ▸ wf.interfaces, wf.nodup, ?_, ?_⟩
  · intro ifc mem si high
    rw [eq ifc mem] at high
    exact wf.closed ifc mem si high
  · intro i j ifc si spot superPlace high
    rw [eq ifc (mem_of_getElem? spot)] at high
    exact wf.precedes i j ifc si spot superPlace high

theorem TablesWellFormed.of_linked (wf : cls.TablesWellFormed tables) {c : C} (link : (tables c).isSome) :
    (cls.withTables tables).WellFormed ((cls.withTables tables).ifTable c) ∧
      ∀ ifc ∈ (cls.withTables tables).ifTable c, (tables ifc).isSome := by
  obtain ⟨own, hf⟩ := Option.isSome_iff_exists.mp link
  have isOwn : (cls.withTables tables).ifTable c = own := by simp [withTables, hf]
  rw [isOwn]
  exact wf c own hf

/-- A class that is not linked is in no table; giving it one changes no other. -/
theorem WellFormed.withTables_update (unlinked : tables kl = none) (ad : List C)
    (wf : (cls.withTables tables).WellFormed tbl) (membersLinked : ∀ ifc ∈ tbl, (tables ifc).isSome) :
    (cls.withTables (update tables kl (some ad))).WellFormed tbl ∧
      ∀ ifc ∈ tbl, (update tables kl (some ad) ifc).isSome := by
  have keep : ∀ ifc ∈ tbl, update tables kl (some ad) ifc = tables ifc := by
    intro ifc mem
    apply update_of_ne
    intro eq
    have link := membersLinked ifc mem
    rw [eq, unlinked] at link
    cases link
  refine ⟨wf.congr rfl fun ifc mem => ?_, fun ifc mem => ?_⟩
  · simp only [withTables, keep ifc mem]
  · rw [keep ifc mem]
    exact membersLinked ifc mem

section

variable {next : C → Option (List C)} (step : cls.LinkStep tables kl next)
  (wf : cls.TablesWellFormed tables)
include step wf

theorem LinkStep.members_linked (made : (cls.withTables tables).BuiltTable kl none tbl) :
    ∀ ifc ∈ tbl, (tables ifc).isSome := by
  intro ifc mem
  cases (made.members ifc).mp mem with
  | inl upper =>
    unfold superIfTable at upper
    split at upper
    next sc super_ =>
      exact (wf.of_linked (step.superLinked sc super_)).2 ifc upper
    next => cases upper
  | inr inDirect =>
    obtain ⟨direct, isDirect, either⟩ := inDirect
    have directLinked := step.interfacesLinked direct isDirect
    cases either with
    | inl eq => exact eq ▸ directLinked
    | inr high => exact (wf.of_linked directLinked).2 ifc high

theorem LinkStep.keeps_wellFormed : cls.TablesWellFormed next := by
  obtain ⟨debug, al, shrunk, tbl, link, rfl⟩ := step.linked
  have oc := setupInterfaceLookupTable_outcome debug (withTables_assignable cls tables) al
    shrunk kl none (by simp [withTables, step.unlinked])
    (fun sc super_ => (wf.of_linked (step.superLinked sc super_)).1)
    (fun ifc mem => (wf.of_linked (step.interfacesLinked ifc mem)).1)
  rw [link] at oc
  obtain ⟨made, sameSlots, isBuilt⟩ := oc
  obtain rfl : tbl = made := map_injective_iff.mpr (fun _ _ eq => Option.some.inj eq) sameSlots
  intro c own hf
  by_cases eq : c = kl
  · rw [eq, update_self] at hf
    cases hf
    exact isBuilt.wellFormed.withTables_update step.unlinked tbl (step.members_linked wf isBuilt)
  · rw [update_of_ne eq] at hf
    exact (wf c own hf).1.withTables_update step.unlinked tbl (wf c own hf).2

end

theorem linked_tables_wellFormed (reach : Reachable cls.LinkStep (fun _ => none) tables) :
    cls.TablesWellFormed tables := by
  apply reach.invariant
  · intro c _ hf
    cases hf
  · intro _ _ _ wf step
    exact step.keeps_wellFormed wf

end ClassTable

end Aosp.Art
