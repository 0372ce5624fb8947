import Aosp.Art.DefaultMethod
import Aosp.Lib.LinearProbe
import Aosp.Lib.Loop

/-! # Virtual method tables

Model of `ClassLinker::LinkVirtualMethods` and of the hash table it keeps the
methods in that have overridden nothing yet.  Each entry of the superclass's table
takes its method out of the hash table, so of several accessible entries with one
name and signature only the first is overridden (`First`).
-/

namespace Aosp.Art

open Aosp.Lib List Nat

variable {C : Type} {ht : List (Slot Nat)} {ii : ArtMethod C → Nat}

/-! ## The source -/

inductive MethodTranslation (C : Type) where
  | translation (method : ArtMethod C)
  | conflict
  | abstract
deriving DecidableEq

inductive LinkError where
  | classFormatError (message : String)
  | linkageError (message : String)
  | outOfMemory
  /-- A loop that does not end or a use of an array outside its bounds. -/
  | aborted
deriving DecidableEq

/-- What linking a class's virtual methods leaves behind; interfaces have no vtable. -/
structure LinkedMethods (C : Type) where
  vtable : Option (List (Option (ArtMethod C)))
  methodIndices : List Nat
  hasDefaultMethods : Bool
  markedDefault : List (ArtMethod C)
  defaultTranslations : List (Nat × MethodTranslation C)

/-- The variables of the loop over the superclass's table. -/
structure LinkState (C : Type) where
  vtable : List (Option (ArtMethod C))
  methodIndices : List Nat
  hashTable : List (Slot Nat)
  defaultTranslations : List (Nat × MethodTranslation C)

def isUint16 (n : Nat) : Bool := n < 65536

/-- A null pointer or a place outside an array. -/
def orAbort {α : Type} : Option α → Except LinkError α
  | some v => .ok v
  | none => .error .aborted

@[simp] theorem orAbort_some {α : Type} (v : α) : orAbort (some v) = .ok v := rfl

theorem of_orAbort_bind_ok {α β : Type} {use : Option α} {post : α → Except LinkError β} {res : β}
    (past : (orAbort use >>= post) = .ok res) : ∃ v, use = some v ∧ post v = .ok res := by
  cases use with
  | none => cases past
  | some v => exact ⟨v, rfl, past⟩

theorem of_bind_ok {α β : Type} {first : Except LinkError α} {post : α → Except LinkError β} {res : β}
    (past : (first >>= post) = .ok res) : ∃ v, first = .ok v ∧ post v = .ok res := by
  cases first with
  | error _ => cases past
  | ok v => exact ⟨v, rfl, past⟩

def hashTableAdd (virtuals : List (ArtMethod C)) (hash : String → Nat) (hashTable : List (Slot Nat))
    (virtualMethodIndex : Nat) : Except LinkError (List (Slot Nat)) := do
  let localMethod ← orAbort virtuals[virtualMethodIndex]?
  orAbort (probeAdd hashTable virtualMethodIndex hashTable.length
    (hash localMethod.methodId.name % hashTable.length))

def hashTableFindAndRemove (virtuals : List (ArtMethod C)) (hash : String → Nat) (hashTable : List (Slot Nat))
    (superM : ArtMethod C) : Except LinkError (Option Nat × List (Slot Nat)) :=
  orAbort (probeRemove hashTable
    (fun v => (virtuals[v]?).any fun virtualMethod => superM.hasSameNameAndSignature virtualMethod)
    hashTable.length (hash superM.methodId.name % hashTable.length))

/-- One `FindAndRemove` after the other. -/
def findAndRemoveAll (virtuals : List (ArtMethod C)) (hash : String → Nat) :
    List (Slot Nat) → List (ArtMethod C) → Except LinkError (List (Option Nat))
  | _, [] => return []
  | hashTable, superM :: rest => do
    let (found, hashTable) ← hashTableFindAndRemove virtuals hash hashTable superM
    return found :: (← findAndRemoveAll virtuals hash hashTable rest)

def searchAll (virtuals : List (ArtMethod C)) : List Nat → List (ArtMethod C) → List (Option Nat)
  | _, [] => []
  | left, superM :: rest =>
    match left.find? fun v => (virtuals[v]?).any fun virtualMethod => superM.hasSameNameAndSignature virtualMethod with
    | some v => some v :: searchAll virtuals (left.erase v) rest
    | none => none :: searchAll virtuals left rest

namespace ClassTable

section Source

variable [DecidableEq C] (cls : ClassTable C) (hash : String → Nat) (kl : C)

def defaultTranslation (superM : ArtMethod C) : Option (MethodTranslation C) :=
  match cls.findDefaultMethodImplementation superM kl with
  | .defaultConflict => if superM.isDefaultConflicting then none else some .conflict
  | .abstractFound => if superM.isAbstract then none else some .abstract
  | .defaultFound defaultMethod =>
    if superM.isDefaultConflicting || defaultMethod.declaringClass ≠ superM.declaringClass then
      some (.translation defaultMethod)
    else none

/-- The loop's turn for the entry `j` of the superclass's table. -/
def linkSuperMethod (s : LinkState C) (j : Nat) : Except LinkError (LinkState C) := do
  let virtuals := cls.declaredVirtualMethods kl
  let superM ← orAbort (s.vtable[j]?).join
  if !cls.canAccessMember kl superM then return s
  let (hashIndex, hashTable) ← hashTableFindAndRemove virtuals hash s.hashTable superM
  match hashIndex with
  | some hashIndex =>
    let virtualMethod ← orAbort virtuals[hashIndex]?
    if superM.isFinal then
      .error (.linkageError ("Method " ++ cls.prettyMethod virtualMethod ++ " overrides final method in class " ++
        cls.descriptor superM.declaringClass))
    else
      return { s with
        vtable := s.vtable.set j (some virtualMethod)
        -- the index is kept in 16 bits
        methodIndices := s.methodIndices.set hashIndex (j % 65536)
        hashTable := hashTable }
  | none =>
    let translation := if superM.isOverridableByDefaultMethod then cls.defaultTranslation kl superM
      else none
    return { s with
      hashTable := hashTable
      defaultTranslations := s.defaultTranslations ++ (translation.map fun t => (j, t)).toList }

/-- The turn of the loop that appends what has overridden nothing, with `actual_count`. -/
def appendMethod (superVtableLength : Nat) (s : LinkState C × Nat) (i : Nat) :
    Except LinkError (LinkState C × Nat) := do
  let localMethod ← orAbort (cls.declaredVirtualMethods kl)[i]?
  let methodIdx ← orAbort s.1.methodIndices[i]?
  if methodIdx < superVtableLength && s.1.vtable[methodIdx]? = some (some localMethod) then return s
  if s.2 < s.1.vtable.length then
    return ({ s.1 with
      vtable := s.1.vtable.set s.2 (some localMethod)
      methodIndices := s.1.methodIndices.set i (s.2 % 65536) }, s.2 + 1)
  else .error .aborted

/-- The part of `LinkVirtualMethods` that walks the superclass's table; `initialIndex` is the
    index that a method has before. -/
def overrideAndAppend (shrunk : Bool) (superVt : List (ArtMethod C)) (initialIndex : ArtMethod C → Nat) :
    Except LinkError (LinkedMethods C) := do
  let numVirtualMethods := (cls.declaredVirtualMethods kl).length
  let hashTable ← (range numVirtualMethods).foldlM (hashTableAdd (cls.declaredVirtualMethods kl) hash)
    (replicate (numVirtualMethods * 3 + 1) .empty)
  let overridden ← (range superVt.length).foldlM (cls.linkSuperMethod hash kl)
    ⟨superVt.map some ++ replicate numVirtualMethods none,
      (cls.declaredVirtualMethods kl).map initialIndex, hashTable, []⟩
  let (s, actualCount) ← (range numVirtualMethods).foldlM (cls.appendMethod kl superVt.length)
    (overridden, superVt.length)
  if !isUint16 actualCount then
    .error (.classFormatError ("Too many methods defined on class: " ++ toString actualCount))
  else if actualCount < numVirtualMethods + superVt.length && !shrunk then .error .outOfMemory
  else return ⟨some (s.vtable.take actualCount), s.methodIndices, false, [], s.defaultTranslations⟩

def linkVirtualMethods (alloc shrunk : Bool) (initialIndex : ArtMethod C → Nat) :
    Except LinkError (LinkedMethods C) :=
  let virtuals := cls.declaredVirtualMethods kl
  if cls.isInterface kl then
    if !isUint16 virtuals.length then
      .error (.classFormatError ("Too many methods on interface: " ++ toString virtuals.length))
    else
      let defaults := virtuals.filter fun m => !m.isAbstract
      .ok ⟨none, range virtuals.length, !defaults.isEmpty, defaults, []⟩
  else
    match cls.superClass kl with
    | some sup =>
      let superVt := cls.vtable sup
      let nothingNew := virtuals.length = 0 && (cls.ifTable sup).length = (cls.ifTable kl).length
      -- a class without an embedded table shares its own if nothing is new
      if !alloc && !(nothingNew && !cls.shouldHaveEmbeddedVTable sup) then .error .outOfMemory
      else if nothingNew then .ok ⟨some (superVt.map some), virtuals.map initialIndex, false, [], []⟩
      else cls.overrideAndAppend hash kl shrunk superVt initialIndex
    | none =>
      if !isUint16 virtuals.length then
        .error (.classFormatError ("Too many methods: " ++ toString virtuals.length))
      else if !alloc then .error .outOfMemory
      else .ok ⟨some (virtuals.map some), range virtuals.length, false, [], []⟩

end Source

variable {cls : ClassTable C} {hash : String → Nat} {kl : C} {sup : List (ArtMethod C)}

/-! ## One turn of the first loop -/

section Turn

/-- What the turn looks for in the hash table. -/
def wanted (cls : ClassTable C) (kl : C) (superM : ArtMethod C) (v : Nat) : Bool :=
  ((cls.declaredVirtualMethods kl)[v]?).any fun virtualMethod =>
    superM.hasSameNameAndSignature virtualMethod

variable {s : LinkState C} {j v i : Nat} {superM : ArtMethod C} {md : ArtMethod C}

theorem linkSuperMethod_cases [DecidableEq C] {next : LinkState C} (here : s.vtable[j]? = some (some superM))
    (link : cls.linkSuperMethod hash kl s j = .ok next) :
    (cls.canAccessMember kl superM = false ∧ next = s) ∨ (cls.canAccessMember kl superM = true ∧
        ∃ hf ht, probeRemove s.hashTable (cls.wanted kl superM) s.hashTable.length
            (hash superM.methodId.name % s.hashTable.length) = some (hf, ht) ∧
          ((hf = none ∧ ∃ trs, next = { s with hashTable := ht, defaultTranslations := trs }) ∨ ∃ v vm, hf = some v ∧
              (cls.declaredVirtualMethods kl)[v]? = some vm ∧ superM.isFinal = false ∧ next = { s with
                vtable := s.vtable.set j (some vm)
                methodIndices := s.methodIndices.set v (j % 65536)
                hashTable := ht })) := by
  obtain ⟨_, isHere, link⟩ := of_orAbort_bind_ok link
  rw [here] at isHere
  cases isHere
  split at link
  next noAccess =>
    cases link
    exact .inl ⟨by simpa using noAccess, rfl⟩
  next access =>
    obtain ⟨⟨hf, ht⟩, isSearch, link⟩ := of_orAbort_bind_ok link
    refine .inr ⟨by simpa using access, hf, ht, isSearch, ?_⟩
    cases hf with
    | none =>
      cases link
      exact .inl ⟨rfl, _, rfl⟩
    | some v =>
      obtain ⟨vm, isVirtual, link⟩ := of_orAbort_bind_ok link
      split at link
      next => cases link
      next notFinal =>
        cases link
        exact .inr ⟨v, vm, rfl, isVirtual, by simpa using notFinal, rfl⟩

/-- The entry can be overridden by the method. -/
def Overridable (cls : ClassTable C) (kl : C) (superM method : ArtMethod C) : Prop :=
  cls.canAccessMember kl superM = true ∧ superM.nameAndSignature = method.nameAndSignature

instance (superM method : ArtMethod C) : Decidable (cls.Overridable kl superM method) := by
  unfold Overridable
  infer_instance

/-- The entry at place `i` is the first that can be overridden by the method `v`. -/
structure First (cls : ClassTable C) (kl : C) (superVt : List (ArtMethod C)) (v i : Nat) :
    Prop where
  overridable : ∃ superM method, superVt[i]? = some superM ∧
    (cls.declaredVirtualMethods kl)[v]? = some method ∧ cls.Overridable kl superM method
  notBefore : ∀ (earlier : Nat) superM method, earlier < i → superVt[earlier]? = some superM →
    (cls.declaredVirtualMethods kl)[v]? = some method → ¬ cls.Overridable kl superM method

theorem First.lt (first : cls.First kl sup v i) : i < sup.length := by
  obtain ⟨_, _, hf, _⟩ := first.overridable
  exact (List.getElem?_eq_some_iff.mp hf).1

theorem First.unique (first : cls.First kl sup v i) (o : cls.First kl sup v j) : i = j := by
  obtain ⟨e, m, atI, method, may⟩ := first.overridable
  obtain ⟨e', m', atJ, isMethod', overridable'⟩ := o.overridable
  by_contra far
  cases lt_or_gt_of_ne far with
  | inl less => exact o.notBefore i e m less atI method may
  | inr more => exact first.notBefore j e' m' more atJ isMethod' overridable'

theorem exists_first (spot : sup[i]? = some superM) (method : (cls.declaredVirtualMethods kl)[v]? = some md)
    (may : cls.Overridable kl superM md) : ∃ j ≤ i, cls.First kl sup v j := by
  induction i using Nat.strongRecOn generalizing superM with
  | ind i ih =>
    by_cases old : ∃ j < i, ∃ o, sup[j]? = some o ∧ cls.Overridable kl o md
    · obtain ⟨j, less, o, atJ, may'⟩ := old
      obtain ⟨k, _, first⟩ := ih j less atJ may'
      exact ⟨k, by omega, first⟩
    · refine ⟨i, le_refl i, ⟨superM, md, spot, method, may⟩, ?_⟩
      intro j o _ less atJ isMethod' may'
      rw [method] at isMethod'
      cases isMethod'
      exact old ⟨j, less, o, atJ, may'⟩

/-- The slot that a method is looked for at first. -/
def methodHome (cls : ClassTable C) (hash : String → Nat) (kl : C) (v : Nat) : Nat :=
  (((cls.declaredVirtualMethods kl)[v]?).map fun method => hash method.methodId.name).getD 0

/-- The methods that override no entry before `j`. -/
def remaining (cls : ClassTable C) (kl : C) (superVt : List (ArtMethod C)) (j : Nat) : Set Nat :=
  {v | v < (cls.declaredVirtualMethods kl).length ∧ ∀ i, cls.First kl superVt v i → j ≤ i}

/-- The variables when the first `j` entries have been visited. -/
structure Overridden (cls : ClassTable C) (hash : String → Nat) (kl : C)
    (superVt : List (ArtMethod C)) (j : Nat) (s : LinkState C) : Prop where
  size : s.vtable.length = superVt.length + (cls.declaredVirtualMethods kl).length
  taken : ∀ (v i : Nat) method, cls.First kl superVt v i → i < j →
    (cls.declaredVirtualMethods kl)[v]? = some method → s.vtable[i]? = some (some method)
  inherited : ∀ (i : Nat) superM, superVt[i]? = some superM →
    (∀ v, cls.First kl superVt v i → j ≤ i) → s.vtable[i]? = some (some superM)
  indices : s.methodIndices.length = (cls.declaredVirtualMethods kl).length
  index : ∀ v i, cls.First kl superVt v i → i < j → s.methodIndices[v]? = some (i % 65536)
  hashTable : ProbeSound (cls.methodHome hash kl) s.hashTable (cls.remaining kl superVt j)
  room : 0 < s.hashTable.countP Slot.isEmpty

theorem wanted_iff :
    cls.wanted kl superM v = true ↔
      ∃ md, (cls.declaredVirtualMethods kl)[v]? = some md ∧ superM.nameAndSignature = md.nameAndSignature := by
  simp [wanted, Option.any_eq_true]

theorem methodHome_of_wanted (hash : String → Nat) (superM : ArtMethod C) (v : Nat)
    (wanted : cls.wanted kl superM v = true) : cls.methodHome hash kl v = hash superM.methodId.name := by
  obtain ⟨_, method, eq⟩ := wanted_iff.mp wanted
  rw [methodHome, method]
  exact congrArg hash (congrArg Prod.fst eq).symm

theorem Overridden.skip (inv : cls.Overridden hash kl sup j s)
    (notFirst : ∀ v, ¬ cls.First kl sup v j) (trs : List (Nat × MethodTranslation C)) :
    cls.Overridden hash kl sup (j + 1) { s with defaultTranslations := trs } := by
  have pre : ∀ v i, cls.First kl sup v i → (i < j + 1 ↔ i < j) := by
    intro v i first
    have o : i ≠ j := fun eq => notFirst v (eq ▸ first)
    omega
  refine ⟨inv.size, ?_, ?_, inv.indices, ?_, ?_, inv.room⟩
  · intro v i md first less method
    exact inv.taken v i md first ((pre v i first).mp less) method
  · intro i superM spot late
    refine inv.inherited i superM spot fun v first => ?_
    have after := late v first
    omega
  · intro v i first less
    exact inv.index v i first ((pre v i first).mp less)
  · have eq : cls.remaining kl sup (j + 1) = cls.remaining kl sup j := by
      ext v
      refine and_congr_right fun _ => forall₂_congr fun i first => ?_
      have iff := pre v i first
      omega
    rw [eq]
    exact inv.hashTable

variable (far : ((cls.declaredVirtualMethods kl).map ArtMethod.nameAndSignature).Nodup)
include far

/-- Different methods have different names or signatures. -/
theorem eq_of_nameAndSignature {w : Nat} {one two : ArtMethod C}
    (isOne : (cls.declaredVirtualMethods kl)[v]? = some one)
    (hit : (cls.declaredVirtualMethods kl)[w]? = some two) (eq : one.nameAndSignature = two.nameAndSignature) :
    v = w := by
  obtain ⟨fits, _⟩ := List.getElem?_eq_some_iff.mp isOne
  apply (getElem?_inj (by simpa using fits) far).mp
  rw [getElem?_map, getElem?_map, isOne, hit, Option.map_some, Option.map_some, eq]

/-- No two methods override the same entry first. -/
theorem First.sole {w : Nat} (o : cls.First kl sup w j) (first : cls.First kl sup v j) : w = v := by
  obtain ⟨_, _, atJ, method, may⟩ := first.overridable
  obtain ⟨_, _, otherAtJ, other, may'⟩ := o.overridable
  rw [atJ] at otherAtJ
  cases otherAtJ
  exact eq_of_nameAndSignature far other method (may'.2.symm.trans may.2)

/-- The methods still to be looked for after the entry that `v` overrides. -/
theorem remaining_add_one (first : cls.First kl sup v j) :
    cls.remaining kl sup (j + 1) = cls.remaining kl sup j \ {v} := by
  ext w
  constructor
  · intro ⟨fits, late⟩
    refine ⟨⟨fits, fun i wFirst => le_of_succ_le (late i wFirst)⟩, fun eq => ?_⟩
    have after := late j (eq ▸ first)
    omega
  · intro ⟨⟨fits, late⟩, ne⟩
    refine ⟨fits, fun i wFirst => ?_⟩
    have notAt : i ≠ j := fun atJ => ne ((atJ ▸ wFirst).sole far first)
    have after := late i wFirst
    omega

/-- The method takes the entry's place and is not looked for again. -/
theorem Overridden.take
    (inv : cls.Overridden hash kl sup j s) (first : cls.First kl sup v j)
    (method : (cls.declaredVirtualMethods kl)[v]? = some md)
    (gone : ProbeSound (cls.methodHome hash kl) ht (cls.remaining kl sup j \ {v}))
    (room : 0 < ht.countP Slot.isEmpty) :
    cls.Overridden hash kl sup (j + 1)
      { s with
        vtable := s.vtable.set j (some md)
        methodIndices := s.methodIndices.set v (j % 65536)
        hashTable := ht } := by
  have inTable : j < s.vtable.length := by
    have fits := first.lt
    have sz := inv.size
    omega
  have onlyFirst := fun w (o : cls.First kl sup w j) => o.sole far first
  refine ⟨by simpa using inv.size, ?_, ?_, by simpa using inv.indices, ?_, ?_, room⟩
  · intro w i o wFirst less other
    by_cases eq : i = j
    · subst eq
      rw [onlyFirst w wFirst, method] at other
      cases other
      simp [inTable]
    · rw [getElem?_set_ne (Ne.symm eq)]
      exact inv.taken w i o wFirst (by omega) other
  · intro i superM spot late
    have ne : i ≠ j := by
      intro eq
      have after := late v (eq ▸ first)
      omega
    rw [getElem?_set_ne (Ne.symm ne)]
    refine inv.inherited i superM spot fun w wFirst => ?_
    have after := late w wFirst
    omega
  · intro w i wFirst less
    by_cases eq : w = v
    · subst eq
      rw [wFirst.unique first]
      have fits := (List.getElem?_eq_some_iff.mp method).1
      simp [inv.indices, fits]
    · have ne : i ≠ j := fun atJ => eq (onlyFirst w (atJ ▸ wFirst))
      rw [getElem?_set_ne (Ne.symm eq)]
      exact inv.index w i wFirst (by omega)
  · rw [remaining_add_one far first]
    exact gone

theorem Overridden.turn [DecidableEq C] {next : LinkState C}
    (inv : cls.Overridden hash kl sup j s) (fits : j < sup.length)
    (link : cls.linkSuperMethod hash kl s j = .ok next) : cls.Overridden hash kl sup (j + 1) next := by
  have atJ := getElem?_eq_getElem fits
  have here := inv.inherited j _ atJ fun v _ => le_refl j
  -- a method that overrides the entry is still in the hash table and is what is looked for
  have firstWanted : ∀ v, cls.First kl sup v j → cls.canAccessMember kl sup[j] = true ∧ cls.wanted kl sup[j] v = true ∧
        v < (cls.declaredVirtualMethods kl).length ∧ ∀ i, cls.First kl sup v i → j ≤ i := by
    intro v first
    obtain ⟨e, md, spot, method, access, eq⟩ := first.overridable
    rw [atJ] at spot
    cases spot
    exact ⟨access, wanted_iff.mpr ⟨md, method, eq⟩, (List.getElem?_eq_some_iff.mp method).1,
      fun i o => le_of_eq (first.unique o)⟩
  obtain ⟨noAccess, rfl⟩ | ⟨access, _, _, isSearch, oc⟩ := linkSuperMethod_cases here link
  · refine inv.skip (fun v first => ?_) next.defaultTranslations
    rw [(firstWanted v first).1] at noAccess
    cases noAccess
  · obtain ⟨gone, other⟩ | ⟨v, _, foundIt, ⟨_, notYet⟩, wanted, removed, _, sameRoom, _⟩ :=
      inv.hashTable.remove inv.room fun v _ => methodHome_of_wanted hash sup[j] v
    · rw [gone] at isSearch
      cases isSearch
      obtain ⟨_, trs, rfl⟩ | ⟨val, vm, never, _⟩ := oc
      · refine inv.skip (fun v first => ?_) trs
        obtain ⟨_, wanted, mem⟩ := firstWanted v first
        rw [other v mem] at wanted
        cases wanted
      · cases never
    · rw [foundIt] at isSearch
      cases isSearch
      obtain ⟨never, _⟩ | ⟨val, vm, found, method, _, rfl⟩ := oc
      · cases never
      · cases found
        obtain ⟨md, isMethod', eq⟩ := wanted_iff.mp wanted
        rw [method] at isMethod'
        cases isMethod'
        have first : cls.First kl sup v j := by
          refine ⟨⟨_, vm, atJ, method, access, eq⟩, ?_⟩
          intro _ _ md _ atEarlier isMethod' may
          obtain ⟨k, _, firstK⟩ := exists_first atEarlier isMethod' may
          have after := notYet k firstK
          omega
        exact inv.take far first method removed (sameRoom ▸ inv.room)

end Turn

/-! ## The hash table at the beginning -/

theorem hashTableAdd_all :
    ∃ ht, (range (cls.declaredVirtualMethods kl).length).foldlM (hashTableAdd (cls.declaredVirtualMethods kl) hash)
        (replicate ((cls.declaredVirtualMethods kl).length * 3 + 1) .empty) = .ok ht ∧
      ProbeSound (cls.methodHome hash kl) ht {v | v < (cls.declaredVirtualMethods kl).length} ∧
      0 < ht.countP Slot.isEmpty ∧ ProbeOrdered (cls.methodHome hash kl) ht := by
  let sz := (cls.declaredVirtualMethods kl).length
  obtain ⟨ht, adds, hs, len, emp, ho⟩ :=
    @foldlM_range_exists LinkError _ (hashTableAdd _ hash)
      (fun k ht => ProbeSound _ ht {v | v < k} ∧
        ht.length = sz * 3 + 1 ∧ ht.countP Slot.isEmpty + k = sz * 3 + 1 ∧ ProbeOrdered (cls.methodHome hash kl) ht)
      _ sz
      ⟨by simpa using probeSound_replicate (cls.methodHome hash kl) (sz * 3 + 1), by simp,
        by simp [countP_replicate, Slot.isEmpty], fun w _ _ hf => by simp [getElem?_replicate] at hf⟩
      (by
        rintro k ht less ⟨hs, len, emp, ho⟩
        obtain ⟨next, adds, nextSound, _, _, oneLess⟩ := hs.add (by omega) (fun mem => lt_irrefl k mem)
        have method := getElem?_eq_getElem less
        refine ⟨next, ?_, ?_, by omega, by omega, oneLess (fun o mem => mem) ho⟩
        · rw [hashTableAdd, method]
          rw [methodHome, method, Option.map_some, Option.getD_some] at adds
          change orAbort _ = _
          rw [adds, orAbort_some]
        · have eq : {v | v < k + 1} = insert k {v | v < k} := by
            ext v
            simp only [Set.mem_ofPred_eq, Set.mem_insert_iff]
            omega
          rw [eq]
          exact nextSound)
  exact ⟨ht, adds, hs, by omega, ho⟩

/-- A table that holds the indices `left`, which ascend, answers as a search of them does. -/
theorem findAndRemoveAll_eq (reqs : List (ArtMethod C)) {left : List Nat} {ht : List (Slot Nat)}
    (hs : ProbeSound (cls.methodHome hash kl) ht {v | v ∈ left}) (room : 0 < ht.countP Slot.isEmpty)
    (ho : ProbeOrdered (cls.methodHome hash kl) ht) (asc : left.Pairwise (· < ·)) :
    findAndRemoveAll (cls.declaredVirtualMethods kl) hash ht reqs =
      .ok (searchAll (cls.declaredVirtualMethods kl) left reqs) := by
  induction reqs generalizing left ht with
  | nil => rfl
  | cons superM rest ih =>
    change (orAbort (probeRemove ht (cls.wanted kl superM) _ _) >>= _) =
      .ok (match left.find? (cls.wanted kl superM) with | some v => _ | none => _)
    obtain ⟨gone, other⟩ | ⟨v, next, hf, mem, wanted, nextSound, _, sameRoom, oneLess⟩ :=
      hs.remove room fun v _ => methodHome_of_wanted hash superM v
    · have none : left.find? (cls.wanted kl superM) = none := by simpa using other
      rw [gone, none]
      change (findAndRemoveAll _ hash ht rest >>= _) = _
      rw [ih hs room ho asc]
      rfl
    · obtain ⟨ordered, least⟩ := oneLess ho
      obtain ⟨pre, post, rfl⟩ := append_of_mem mem
      have first : (pre ++ v :: post).find? (cls.wanted kl superM) = some v := by
        refine find?_eq_some_iff_append.mpr ⟨wanted, pre, post, rfl, fun o before => ?_⟩
        rw [Bool.not_eq_true', ← Bool.not_eq_true]
        exact fun how => least o (mem_append_left _ before) how ((pairwise_append.mp asc).2.2 o before v mem_cons_self)
      have erased : {o | o ∈ pre ++ v :: post} \ {v} = {o | o ∈ (pre ++ v :: post).erase v} := by
        ext o
        simp only [Set.mem_sdiff, Set.mem_ofPred_eq, Set.mem_singleton_iff, Nodup.mem_erase_iff (asc.imp ne_of_lt),
          and_comm]
      rw [hf, first]
      change (findAndRemoveAll _ hash next rest >>= _) = _
      rw [ih (erased ▸ nextSound) (sameRoom ▸ room) ordered (asc.sublist erase_sublist)]
      rfl

theorem findAndRemove_naive (cls : ClassTable C) (hash : String → Nat) (kl : C) (reqs : List (ArtMethod C)) :
    ∃ ht, (range (cls.declaredVirtualMethods kl).length).foldlM (hashTableAdd (cls.declaredVirtualMethods kl) hash)
        (replicate ((cls.declaredVirtualMethods kl).length * 3 + 1) .empty) = .ok ht ∧
      findAndRemoveAll (cls.declaredVirtualMethods kl) hash ht reqs =
        .ok (searchAll (cls.declaredVirtualMethods kl) (range (cls.declaredVirtualMethods kl).length) reqs) := by
  obtain ⟨ht, adds, hs, room, ho⟩ := @hashTableAdd_all _ cls hash kl
  exact ⟨ht, adds, findAndRemoveAll_eq reqs (by simpa using hs) room ho pairwise_lt_range⟩

theorem overridden_start (ii : ArtMethod C → Nat)
    (hs : ProbeSound (cls.methodHome hash kl) ht {v | v < (cls.declaredVirtualMethods kl).length})
    (room : 0 < ht.countP Slot.isEmpty) :
    cls.Overridden hash kl sup 0
      ⟨sup.map some ++ replicate (cls.declaredVirtualMethods kl).length none,
        (cls.declaredVirtualMethods kl).map ii, ht, []⟩ := by
  refine ⟨by simp, fun v i _ _ less => by omega, ?_, by simp, fun v i _ less => by omega,
    by simpa [remaining] using hs, room⟩
  intro i _ spot _
  obtain ⟨fits, _⟩ := List.getElem?_eq_some_iff.mp spot
  rw [getElem?_append_left (by simpa using fits), getElem?_map, spot, Option.map_some]

/-! ## The loop that appends -/

section Append

/-- No accessible entry of the superclass's table has the method's name and signature. -/
def overridesNothing (cls : ClassTable C) (kl : C) (superVt : List (ArtMethod C))
    (method : ArtMethod C) : Bool :=
  !superVt.any fun superM => decide (cls.Overridable kl superM method)

variable {i : Nat} {s : LinkState C × Nat} {base : LinkState C} {lm : ArtMethod C}

section

variable {md : ArtMethod C} {v : Nat} (method : (cls.declaredVirtualMethods kl)[v]? = some md)
include method

theorem not_first_of_overridesNothing (nt : cls.overridesNothing kl sup md = true) : ¬ cls.First kl sup v i := by
  intro first
  obtain ⟨sm, o, other, rest, isOther⟩ := first.overridable
  rw [method] at rest
  cases rest
  rw [overridesNothing, Bool.not_eq_true', any_eq_false] at nt
  exact nt sm (mem_of_getElem? other) (by simpa using isOther)

theorem exists_first_of_overridesSomething (some_ : cls.overridesNothing kl sup md = false) :
    ∃ i, cls.First kl sup v i := by
  rw [overridesNothing, Bool.not_eq_false', any_eq_true] at some_
  obtain ⟨_, mem, may⟩ := some_
  obtain ⟨i, spot⟩ := mem_iff_getElem?.mp mem
  obtain ⟨j, _, first⟩ := exists_first spot method (by simpa using may)
  exact ⟨j, first⟩

end

theorem appendMethod_cases [DecidableEq C] {svl : Nat} {next : LinkState C × Nat}
    (adds : cls.appendMethod kl svl s i = .ok next) :
    ∃ lm mi, (cls.declaredVirtualMethods kl)[i]? = some lm ∧ s.1.methodIndices[i]? = some mi ∧
      ((mi < svl ∧ s.1.vtable[mi]? = some (some lm) ∧ next = s) ∨ (¬ (mi < svl ∧ s.1.vtable[mi]? = some (some lm)) ∧
          s.2 < s.1.vtable.length ∧ next = ({ s.1 with
            vtable := s.1.vtable.set s.2 (some lm)
            methodIndices := s.1.methodIndices.set i (s.2 % 65536) }, s.2 + 1))) := by
  obtain ⟨lm, own, adds⟩ := of_orAbort_bind_ok adds
  obtain ⟨mi, index, adds⟩ := of_orAbort_bind_ok adds
  refine ⟨lm, mi, own, index, ?_⟩
  split at adds
  next hp =>
    cases adds
    simp only [Bool.and_eq_true, decide_eq_true_eq] at hp
    exact .inl ⟨hp.1, hp.2, rfl⟩
  next ha =>
    split at adds
    next room =>
      cases adds
      exact .inr ⟨by simpa using ha, room, rfl⟩
    next => cases adds

/-- The variables when the first `i` methods have been visited; `base` are those before the
    loop. -/
structure Appended (cls : ClassTable C) (kl : C) (superVt : List (ArtMethod C))
    (base : LinkState C) (i : Nat) (s : LinkState C × Nat) : Prop where
  count : s.2 = superVt.length +
    (((cls.declaredVirtualMethods kl).take i).filter (cls.overridesNothing kl superVt)).length
  size : s.1.vtable.length = base.vtable.length
  indices : s.1.methodIndices.length = base.methodIndices.length
  low : ∀ k < superVt.length, s.1.vtable[k]? = base.vtable[k]?
  high : ∀ (k : Nat) method, (((cls.declaredVirtualMethods kl).take i).filter (cls.overridesNothing kl superVt))[k]? =
        some method → s.1.vtable[superVt.length + k]? = some (some method)
  recorded : ∀ (v : Nat) method, v < i → (cls.declaredVirtualMethods kl)[v]? = some method →
    cls.overridesNothing kl superVt method = true → ∃ k : Nat, (((cls.declaredVirtualMethods kl).take i).filter
            (cls.overridesNothing kl superVt))[k]? = some method ∧
        s.1.methodIndices[v]? = some ((superVt.length + k) % 65536)
  other : ∀ (v : Nat) method, (cls.declaredVirtualMethods kl)[v]? = some method →
    (i ≤ v ∨ cls.overridesNothing kl superVt method = false) → s.1.methodIndices[v]? = base.methodIndices[v]?

theorem appended_start (base : LinkState C) : cls.Appended kl sup base 0 (base, sup.length) := by
  exact ⟨by simp, rfl, rfl, fun _ _ => rfl, fun k _ hf => by simp at hf, fun v _ _ => by omega,
    fun _ _ _ _ => rfl⟩

/-- The methods without an entry to override, when one more has been visited. -/
theorem filter_take_add_one (sup : List (ArtMethod C))
    (own : (cls.declaredVirtualMethods kl)[i]? = some lm) :
    ((cls.declaredVirtualMethods kl).take (i + 1)).filter (cls.overridesNothing kl sup) =
      ((cls.declaredVirtualMethods kl).take i).filter (cls.overridesNothing kl sup) ++
        (if cls.overridesNothing kl sup lm then [lm] else []) := by
  rw [take_add_one, own, Option.toList_some, filter_append, filter_singleton]
  cases cls.overridesNothing kl sup lm <;> rfl

section

variable (adds : cls.Appended kl sup base i s)
  (own : (cls.declaredVirtualMethods kl)[i]? = some lm)
include adds own

/-- A method that has overridden an entry is passed over. -/
theorem Appended.pass (some_ : cls.overridesNothing kl sup lm = false) : cls.Appended kl sup base (i + 1) s := by
  have hg := filter_take_add_one sup own
  rw [some_, if_neg Bool.false_ne_true, append_nil] at hg
  refine ⟨by rw [hg]; exact adds.count, adds.size, adds.indices, adds.low, by rw [hg]; exact adds.high, ?_, ?_⟩
  · intro v md _ method nt
    rw [hg]
    have notThis : v ≠ i := by
      intro eq
      rw [eq, own] at method
      cases method
      rw [some_] at nt
      cases nt
    exact adds.recorded v md (by omega) method nt
  · intro v md method either
    refine adds.other v md method ?_
    cases either with
    | inl _ => exact .inl (by omega)
    | inr over_ => exact .inr over_

/-- The other methods get the next entry after those of the superclass. -/
theorem Appended.push (indexInRange : i < s.1.methodIndices.length) (room : s.2 < s.1.vtable.length)
    (nt : cls.overridesNothing kl sup lm = true) : cls.Appended kl sup base (i + 1)
      ({ s.1 with
        vtable := s.1.vtable.set s.2 (some lm)
        methodIndices := s.1.methodIndices.set i (s.2 % 65536) }, s.2 + 1) := by
  have hg := filter_take_add_one sup own
  rw [nt, if_pos rfl] at hg
  refine ⟨?_, by simpa using adds.size, by simpa using adds.indices, ?_, ?_, ?_, ?_⟩
  · rw [hg, length_append, length_singleton, ← add_assoc, ← adds.count]
  · intro k low
    have past : s.2 ≠ k := by
      have cnt := adds.count
      omega
    rw [getElem?_set_ne past]
    exact adds.low k low
  · intro k md hf
    rw [hg] at hf
    rw [adds.count] at room ⊢
    by_cases isLast : k = (((cls.declaredVirtualMethods kl).take i).filter
        (cls.overridesNothing kl sup)).length
    · rw [isLast, getElem?_concat_length] at hf
      cases hf
      rw [isLast, getElem?_set_self room]
    · have inOld := (List.getElem?_eq_some_iff.mp hf).1
      rw [length_append, length_singleton] at inOld
      rw [getElem?_append_left (by omega)] at hf
      rw [getElem?_set_ne (by omega)]
      exact adds.high k md hf
  · intro v md _ method overridesNone
    rw [hg]
    by_cases isThis : v = i
    · subst isThis
      rw [own] at method
      cases method
      refine ⟨_, getElem?_concat_length, ?_⟩
      rw [getElem?_set_self indexInRange, adds.count]
    · obtain ⟨k, hf, idx⟩ := adds.recorded v md (by omega) method overridesNone
      refine ⟨k, ?_, ?_⟩
      · rw [List.getElem?_append_left (List.getElem?_eq_some_iff.mp hf).1]
        exact hf
      · rw [getElem?_set_ne (Ne.symm isThis)]
        exact idx
  · -- the methods that override have the indices of the first loop
    intro v md method either
    have notThis : v ≠ i := by
      intro eq
      rw [eq] at either method
      rw [own] at method
      cases method
      rw [nt] at either
      cases either with
      | inl post => omega
      | inr over_ => cases over_
    rw [getElem?_set_ne (Ne.symm notThis)]
    refine adds.other v md method ?_
    cases either with
    | inl post => exact .inl (by omega)
    | inr over_ => exact .inr over_

end

variable (far : ((cls.declaredVirtualMethods kl).map ArtMethod.nameAndSignature).Nodup)
  (new : ∀ method ∈ cls.declaredVirtualMethods kl, method ∉ sup) (small : sup.length < 65536)
  (inv : cls.Overridden hash kl sup sup.length base)
include far new small inv

theorem Appended.passed_over {mi : Nat} (adds : cls.Appended kl sup base i s)
    (own : (cls.declaredVirtualMethods kl)[i]? = some lm) (index : s.1.methodIndices[i]? = some mi) :
    (mi < sup.length ∧ s.1.vtable[mi]? = some (some lm)) ↔ cls.overridesNothing kl sup lm = false := by
  rw [adds.other i lm own (.inl (le_refl i))] at index
  constructor
  · intro ⟨less, hh⟩
    rw [adds.low mi less] at hh
    by_contra nothing
    rw [Bool.not_eq_false] at nothing
    have spot := getElem?_eq_getElem less
    by_cases someFirst : ∃ v, cls.First kl sup v mi
    · obtain ⟨v, first⟩ := someFirst
      obtain ⟨_, md, _, method, _⟩ := first.overridable
      rw [inv.taken v mi md first less method] at hh
      cases hh
      rw [eq_of_nameAndSignature far method own rfl] at first
      exact not_first_of_overridesNothing own nothing first
    · rw [inv.inherited mi _ spot fun v first => absurd ⟨v, first⟩ someFirst] at hh
      cases hh
      exact new _ (mem_of_getElem? own) (getElem_mem less)
  · intro some_
    obtain ⟨j, first⟩ := exists_first_of_overridesSomething own some_
    rw [inv.index i j first first.lt, mod_eq_of_lt (lt_trans first.lt small)] at index
    cases index
    exact ⟨first.lt, (adds.low _ first.lt).trans (inv.taken i _ lm first first.lt own)⟩

theorem Appended.turn [DecidableEq C] {next : LinkState C × Nat}
    (adds : cls.Appended kl sup base i s) (ran : cls.appendMethod kl sup.length s i = .ok next) :
    cls.Appended kl sup base (i + 1) next := by
  obtain ⟨lm, _, own, index, oc⟩ := appendMethod_cases ran
  have passed := adds.passed_over far new small inv own index
  obtain ⟨less, hh, rfl⟩ | ⟨notPassed, room, rfl⟩ := oc
  · exact adds.pass own (passed.mp ⟨less, hh⟩)
  · have nt : cls.overridesNothing kl sup lm = true := by
      rw [← Bool.not_eq_false]
      exact fun some_ => notPassed (passed.mpr some_)
    exact adds.push own (List.getElem?_eq_some_iff.mp index).1 room nt

end Append

/-! ## The finished table -/

structure OverrideLaw (cls : ClassTable C) (kl : C) (superVt : List (ArtMethod C))
    (vtable : List (Option (ArtMethod C))) (methodIndices : List Nat) : Prop where
  replaced : ∀ (j : Nat) superMethod method, superVt[j]? = some superMethod →
    method ∈ cls.declaredVirtualMethods kl → cls.Overridable kl superMethod method → vtable[j]? = some (some method)
  kept : ∀ (j : Nat) superMethod, superVt[j]? = some superMethod →
    (∀ method ∈ cls.declaredVirtualMethods kl, ¬ cls.Overridable kl superMethod method) →
      vtable[j]? = some (some superMethod)
  appended : vtable.drop superVt.length =
    ((cls.declaredVirtualMethods kl).filter (cls.overridesNothing kl superVt)).map some
  recorded : ∀ (v : Nat) method, (cls.declaredVirtualMethods kl)[v]? = some method →
    ∃ idx : Nat, methodIndices[v]? = some idx ∧ vtable[idx]? = some (some method)

def OverridesAtMostOne (cls : ClassTable C) (kl : C) (superVt : List (ArtMethod C)) : Prop :=
  ∀ method ∈ cls.declaredVirtualMethods kl, ∀ (i j : Nat) one two, superVt[i]? = some one →
    superVt[j]? = some two → cls.Overridable kl one method → cls.Overridable kl two method → i = j

structure FirstOverridden (cls : ClassTable C) (kl : C) (superVt : List (ArtMethod C))
    (vtable : List (Option (ArtMethod C))) (methodIndices : List Nat) : Prop where
  taken : ∀ (v i : Nat) method, cls.First kl superVt v i →
    (cls.declaredVirtualMethods kl)[v]? = some method → vtable[i]? = some (some method)
  inherited : ∀ (i : Nat) superMethod, superVt[i]? = some superMethod →
    (∀ v, ¬ cls.First kl superVt v i) → vtable[i]? = some (some superMethod)
  appended : vtable.drop superVt.length =
    ((cls.declaredVirtualMethods kl).filter (cls.overridesNothing kl superVt)).map some
  recorded : ∀ (v : Nat) method, (cls.declaredVirtualMethods kl)[v]? = some method →
    ∃ idx : Nat, methodIndices[v]? = some idx ∧ vtable[idx]? = some (some method)

/-- From the variables after both loops to the table that is kept. -/
theorem firstOverridden_of_loops {base last : LinkState C} {ac : Nat} (small : ac < 65536)
    (inv : cls.Overridden hash kl sup sup.length base)
    (adds : cls.Appended kl sup base (cls.declaredVirtualMethods kl).length (last, ac)) :
    cls.FirstOverridden kl sup (last.vtable.take ac) last.methodIndices := by
  have cnt := adds.count
  have high := adds.high
  have isMethod := adds.recorded
  rw [take_length] at cnt high
  simp only [take_length] at isMethod
  have low : ∀ i < sup.length, (last.vtable.take ac)[i]? = base.vtable[i]? := by
    intro i upper
    rw [getElem?_take_of_lt (by omega)]
    exact adds.low i upper
  refine ⟨?_, ?_, ?_, ?_⟩
  · intro v i md first method
    rw [low i first.lt]
    exact inv.taken v i md first first.lt method
  · intro i sm spot notFirst
    rw [low i (List.getElem?_eq_some_iff.mp spot).1]
    exact inv.inherited i sm spot fun v first => absurd first (notFirst v)
  · apply ext_getElem?
    intro k
    rw [getElem?_drop, getElem?_map]
    by_cases inNew : k < ((cls.declaredVirtualMethods kl).filter
        (cls.overridesNothing kl sup)).length
    · rw [getElem?_take_of_lt (by omega), high k _ (getElem?_eq_getElem inNew),
        getElem?_eq_getElem inNew, Option.map_some]
    · rw [getElem?_take_eq_none (by omega), getElem?_eq_none (by omega), Option.map_none]
  · intro v md method
    have pre := (List.getElem?_eq_some_iff.mp method).1
    cases nt : cls.overridesNothing kl sup md with
    | true =>
      obtain ⟨k, hf, idx⟩ := isMethod v md pre method nt
      have inNew := (List.getElem?_eq_some_iff.mp hf).1
      rw [mod_eq_of_lt (by omega)] at idx
      refine ⟨_, idx, ?_⟩
      rw [getElem?_take_of_lt (by omega)]
      exact high k md hf
    | false =>
      obtain ⟨i, first⟩ := exists_first_of_overridesSomething method nt
      have upper := first.lt
      have idx := adds.other v md method (.inr nt)
      rw [inv.index v i first upper, mod_eq_of_lt (by omega)] at idx
      refine ⟨i, idx, ?_⟩
      rw [low i upper]
      exact inv.taken v i md first upper method

section

variable (far : ((cls.declaredVirtualMethods kl).map ArtMethod.nameAndSignature).Nodup)
  (new : ∀ method ∈ cls.declaredVirtualMethods kl, method ∉ sup)
include far new

theorem overrideAndAppend_firstOverridden [DecidableEq C] {shrunk : Bool}
    {link : LinkedMethods C} (ran : cls.overrideAndAppend hash kl shrunk sup ii = .ok link) :
    ∃ vtable, link.vtable = some vtable ∧ cls.FirstOverridden kl sup vtable link.methodIndices := by
  obtain ⟨_, adds, hs, room, _⟩ := @hashTableAdd_all _ cls hash kl
  unfold overrideAndAppend at ran
  dsimp only at ran
  obtain ⟨_, addedAll, ran⟩ := of_bind_ok ran
  rw [adds] at addedAll
  cases addedAll
  obtain ⟨base, overrode, ran⟩ := of_bind_ok ran
  obtain ⟨⟨_, ac⟩, appendedAll, ran⟩ := of_bind_ok ran
  have inv := foldlM_range_invariant (overridden_start ii hs room)
    (fun j _ _ less hh turn => hh.turn far less turn) overrode
  have least : sup.length ≤ ac := by
    refine @foldlM_range_invariant _ _ _ (fun _ (s : LinkState C × Nat) => sup.length ≤ s.2) _ _ _
      (le_refl _) ?_ appendedAll
    intro i s next _ hh turn
    obtain ⟨_, _, _, _, ⟨_, _, rfl⟩ | ⟨_, _, rfl⟩⟩ := appendMethod_cases turn
    · exact hh
    · exact le_succ_of_le hh
  split at ran
  next => cases ran
  next notTooMany =>
    have small : ac < 65536 := by simpa [isUint16] using notTooMany
    have added := foldlM_range_invariant (appended_start base)
      (fun i _ _ _ hh turn => hh.turn far new (lt_of_le_of_lt least small) inv turn)
      appendedAll
    split at ran
    next => cases ran
    next =>
      cases ran
      exact ⟨_, rfl, firstOverridden_of_loops small inv added⟩

theorem FirstOverridden.law_iff {vtable : List (Option (ArtMethod C))} {methodIndices : List Nat}
    (tb : cls.FirstOverridden kl sup vtable methodIndices) :
    cls.OverrideLaw kl sup vtable methodIndices ↔ cls.OverridesAtMostOne kl sup := by
  constructor
  · intro law md mem i j one two atI atJ oneMovable twoOverridable
    obtain ⟨v, method⟩ := mem_iff_getElem?.mp mem
    obtain ⟨k, _, first⟩ := exists_first atI method oneMovable
    -- an entry behind the first one is inherited, but the law wants it replaced
    have onlyFirst : ∀ (place : Nat) sm, sup[place]? = some sm → cls.Overridable kl sm md → place = k := by
      intro place sm atPlace spot
      by_contra behind
      have swap := law.replaced place sm md atPlace mem spot
      rw [tb.inherited place sm atPlace] at swap
      · cases swap
        exact new _ mem (mem_of_getElem? atPlace)
      · intro w otherFirst
        obtain ⟨_, o, atPlace', other, may'⟩ := otherFirst.overridable
        rw [atPlace] at atPlace'
        cases atPlace'
        rw [eq_of_nameAndSignature far other method (may'.2.symm.trans spot.2)] at otherFirst
        exact behind (otherFirst.unique first)
    rw [onlyFirst i one atI oneMovable, onlyFirst j two atJ twoOverridable]
  · intro atMostOne
    refine ⟨?_, ?_, tb.appended, tb.recorded⟩
    · intro j sm md atJ mem spot
      obtain ⟨v, method⟩ := mem_iff_getElem?.mp mem
      obtain ⟨k, _, first⟩ := exists_first atJ method spot
      obtain ⟨one, o, atK, other, oneMovable⟩ := first.overridable
      rw [method] at other
      cases other
      rw [atMostOne md mem j k sm one atJ atK spot oneMovable]
      exact tb.taken v k md first method
    · intro j sm atJ notOverridable
      refine tb.inherited j sm atJ fun v first => ?_
      obtain ⟨_, md, atJ', method, spot⟩ := first.overridable
      rw [atJ] at atJ'
      cases atJ'
      exact notOverridable md (mem_of_getElem? method) spot

end

theorem linkVirtualMethods_firstOverridden [DecidableEq C] {al shrunk : Bool}
    {sc : C} {link : LinkedMethods C} (noInterface : cls.isInterface kl = false)
    (super_ : cls.superClass kl = some sc)
    (far : ((cls.declaredVirtualMethods kl).map ArtMethod.nameAndSignature).Nodup)
    (new : ∀ md ∈ cls.declaredVirtualMethods kl, md ∉ cls.vtable sc)
    (ran : cls.linkVirtualMethods hash kl al shrunk ii = .ok link) :
    ∃ vtable, link.vtable = some vtable ∧ cls.FirstOverridden kl (cls.vtable sc) vtable link.methodIndices := by
  unfold linkVirtualMethods at ran
  simp only [noInterface, Bool.false_eq_true, if_false, super_] at ran
  split at ran
  next => cases ran
  next =>
    split at ran
    next nothingNew =>
      cases ran
      have none : cls.declaredVirtualMethods kl = [] := by
        simp only [Bool.and_eq_true, decide_eq_true_eq] at nothingNew
        exact length_eq_zero_iff.mp nothingNew.1
      refine ⟨_, rfl, ⟨?_, ?_, ?_, ?_⟩⟩
      · intro v i md _ method
        simp [none] at method
      · intro i _ spot _
        rw [getElem?_map, spot, Option.map_some]
      · simp [none]
      · intro v md method
        simp [none] at method
    next => exact overrideAndAppend_firstOverridden far new ran

/-- A linked class's table follows the law exactly if no method has two entries to override. -/
theorem override_law_iff [DecidableEq C] (cls : ClassTable C) (hash : String → Nat) (kl sup : C)
    (alloc shrunk : Bool) (initialIndex : ArtMethod C → Nat) (linked : LinkedMethods C)
    (noInterface : cls.isInterface kl = false) (isSuper : cls.superClass kl = some sup)
    (distinct : ((cls.declaredVirtualMethods kl).map ArtMethod.nameAndSignature).Nodup)
    (fresh : ∀ method ∈ cls.declaredVirtualMethods kl, method ∉ cls.vtable sup)
    (ran : cls.linkVirtualMethods hash kl alloc shrunk initialIndex = .ok linked) :
    ∃ vtable, linked.vtable = some vtable ∧ (cls.OverrideLaw kl (cls.vtable sup) vtable linked.methodIndices ↔
        cls.OverridesAtMostOne kl (cls.vtable sup)) := by
  obtain ⟨vtable, isTable, tbl⟩ := linkVirtualMethods_firstOverridden noInterface isSuper distinct fresh ran
  exact ⟨vtable, isTable, tbl.law_iff distinct fresh⟩

local instance twoNames : NeZero 2 := ⟨by decide⟩

def packageClasses : ClassTable (Fin 3) where
  isInterface _ := false
  superClass c := if c = 2 then some 1 else if c = 1 then some 0 else none
  directInterfaces _ := []
  ifTable _ := []
  methodArrayCount _ _ := 0
  isAssignableFrom i c := decide (c ≤ i)
  declaredVirtualMethods c := [smallMethod c.val 0 c false]
  vtable c := if c = 1 then [smallMethod 0 0 0 false, smallMethod 1 0 1 false] else [smallMethod 0 0 0 false]
  shouldHaveEmbeddedVTable _ := true
  canAccessMember c m := decide (c ≠ 1 ∨ m.declaringClass ≠ 0)
  descriptor _ := ""
  prettyDescriptor _ := ""
  prettyMethod _ := ""

/-- Without class 1 in between there is one entry to override. -/
theorem override_law_one_entry :
    ∃ vtable methodIndices,
      ({ packageClasses with vtable := fun _ => [smallMethod 0 0 0 false] } : ClassTable (Fin 3)).OverrideLaw 2
        [smallMethod 0 0 0 false] vtable methodIndices := by
  obtain ⟨vtable, _, law⟩ := override_law_iff
    { packageClasses with vtable := fun _ => [smallMethod 0 0 0 false] } (fun _ => 0) 2 1 true true (fun _ => 0)
    ⟨some [some _], [0], false, [], []⟩ rfl rfl (by decide) (by decide) (by rfl)
  refine ⟨vtable, _, law.mpr ?_⟩
  intro _ _ i j _ _ atI atJ _ _
  have firstIn := (List.getElem?_eq_some_iff.mp atI).1
  have secondIn := (List.getElem?_eq_some_iff.mp atJ).1
  simp only [length_singleton] at firstIn secondIn
  omega

/-- Class 1 is linked with an entry of its own beside class 0's.  It is accessible to class 2
    and has the same name, but class 2's method takes only the other entry. -/
theorem override_law_fails :
    packageClasses.linkVirtualMethods (fun _ => 0) 1 true true (fun _ => 0) =
        .ok ⟨some ((packageClasses.vtable 1).map some), [1], false, [], []⟩ ∧
      ∃ linked vtable, packageClasses.linkVirtualMethods (fun _ => 0) 2 true true (fun _ => 0) = .ok linked ∧
        linked.vtable = some vtable ∧
        ¬ packageClasses.OverrideLaw 2 (packageClasses.vtable 1) vtable linked.methodIndices := by
  refine ⟨by rfl, ⟨some [some _, some _], [0], false, [], []⟩, _,
    by rfl, rfl, fun law => ?_⟩
  have replaced := law.replaced 1 _ (smallMethod 2 0 2 false) rfl (by decide) (by decide)
  revert replaced
  decide

end ClassTable

end Aosp.Art
