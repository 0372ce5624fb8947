import Aosp.Art.Method
import Mathlib.Data.Fintype.Basic

/-! # Interface method tables

Model of `ClassLinker::SetIMTRef`, `FillIMTFromIfTable` and
`FillIMTAndConflictTables`.  The methods of all interfaces share a fixed number of
slots.  In a first pass each slot gets the implementation of its interface
methods, or the conflict method if they have several; then conflict tables are
created, sized by a count kept in the first pass, and filled in a second pass
(`fillIMTFromIfTable_slot`).
-/

namespace Aosp.Art

open List
open Function (update update_of_ne update_self)

variable {C : Type}

/-! ## The source -/

/-- `ImtConflictTable`: pairs of interface and implementation method, and for how many of
    them there is room. -/
structure ImtConflictTable (C : Type) where
  capacity : Nat
  entries : List (ArtMethod C × ArtMethod C)
deriving DecidableEq

inductive ImtEntry (C : Type) where
  | unimplemented
  | conflict
  | conflictTable (adr : Nat) (tbl : ImtConflictTable C)
  | method (method : ArtMethod C)
deriving DecidableEq

structure IfEntry (C : Type) where
  interface : C
  virtualMethods : List (ArtMethod C)
  methodArray : List (ArtMethod C)
  fits : methodArray.length ≤ virtualMethods.length

def IfEntry.pairs (ent : IfEntry C) : List (ArtMethod C × ArtMethod C) :=
  ent.virtualMethods.zip ent.methodArray

/-- The pairs that both passes visit, in order. -/
def ifTablePairs (ifTable : List (IfEntry C)) (ignoreCopiedMethods : Bool) :
    List (ArtMethod C × ArtMethod C) :=
  (ifTable.flatMap IfEntry.pairs).filter fun pair => !(ignoreCopiedMethods && pair.2.isCopied)

/-- `ClassLinker::SetIMTRef`: the new content of the slot and `new_conflict`. -/
def setIMTRef (currentMethod : ArtMethod C) (imtRef : ImtEntry C) (newConflict : Bool) :
    ImtEntry C × Bool :=
  match imtRef with
  | .unimplemented => (.method currentMethod, newConflict)
  | .method placed =>
    if placed.hasSameNameAndSignature currentMethod then (.method currentMethod, newConflict)
    else (.conflict, true)
  | .conflict | .conflictTable _ _ => (.conflict, true)

/-- The variables of the first pass. -/
structure ImtState (C : Type) (kSize : Nat) where
  imt : Fin kSize → ImtEntry C
  conflictCounts : Fin kSize → Nat
  newConflict : Bool

variable {kSize : Nat} (imtIdx : ArtMethod C → Fin kSize)

def countAndSet (s : ImtState C kSize) (pair : ArtMethod C × ArtMethod C) : ImtState C kSize :=
  let imtIndex := imtIdx pair.1
  let (ent, newConflict) := setIMTRef pair.2 (s.imt imtIndex) s.newConflict
  ⟨update s.imt imtIndex ent, update s.conflictCounts imtIndex (s.conflictCounts imtIndex + 1), newConflict⟩

/-- A conflict method with an empty table takes the slot of the generic one, if both can be
    allocated; `newMethod i` is the address of the conflict method. -/
def createConflictTable [DecidableEq C] (alloc : Fin kSize → Bool) (newMethod : Fin kSize → Nat)
    (s : ImtState C kSize) (i : Fin kSize) : ImtEntry C :=
  if s.imt i = .conflict then
    if alloc i then .conflictTable (newMethod i) ⟨s.conflictCounts i, []⟩ else .conflict
  else s.imt i

/-- The turn of the second pass. -/
def addToConflictTable (imt : Fin kSize → ImtEntry C) (pair : ArtMethod C × ArtMethod C) :
    Fin kSize → ImtEntry C :=
  match imt (imtIdx pair.1) with
  | .conflictTable adr tbl =>
    update imt (imtIdx pair.1) (.conflictTable adr { tbl with entries := tbl.entries ++ [pair] })
  | _ => imt

def fillIMTFromIfTable [DecidableEq C] (ifTable : List (IfEntry C)) (createConflictTables ignoreCopiedMethods : Bool)
    (alloc : Fin kSize → Bool) (newMethod : Fin kSize → Nat) (imt : Fin kSize → ImtEntry C)
    (newConflict : Bool) : (Fin kSize → ImtEntry C) × Bool :=
  let pairs := ifTablePairs ifTable ignoreCopiedMethods
  let filled := pairs.foldl (countAndSet imtIdx) ⟨imt, fun _ => 0, newConflict⟩
  if createConflictTables then
    (pairs.foldl (addToConflictTable imtIdx) (createConflictTable alloc newMethod filled), filled.newConflict)
  else (filled.imt, filled.newConflict)

def sameSlot [DecidableEq C] (method superM : ImtEntry C) : Bool :=
  if method ≠ superM then
    match method, superM with
    | .conflictTable _ table1, .conflictTable _ table2 => table1.entries = table2.entries
    | _, _ => false
  else true

/-- What `FillIMTAndConflictTables` computes before it compares. -/
def imtData [DecidableEq C] (ifTable : Option (List (IfEntry C))) (alloc : Fin kSize → Bool)
    (newMethod : Fin kSize → Nat) : Fin kSize → ImtEntry C :=
  match ifTable with
  | some ifTable =>
    (fillIMTFromIfTable imtIdx ifTable true false alloc newMethod (fun _ => .unimplemented) false).1
  | none => fun _ => .unimplemented

/-- `ClassLinker::FillIMTAndConflictTables`; the superclass's table is given if it has one. -/
def fillIMTAndConflictTables [DecidableEq C] (ifTable : Option (List (IfEntry C))) (alloc : Fin kSize → Bool)
    (newMethod : Fin kSize → Nat) (superImt : Option (Fin kSize → ImtEntry C)) : Fin kSize → ImtEntry C :=
  let imt := imtData imtIdx ifTable alloc newMethod
  match superImt with
  | some superImt => if ∀ i, sameSlot (imt i) (superImt i) = true then superImt else imt
  | none => imt

/-- The method that a call of an interface method reaches without the runtime's help. -/
def dispatch [DecidableEq C] (imt : Fin kSize → ImtEntry C) (ifcM : ArtMethod C) : Option (ArtMethod C) :=
  match imt (imtIdx ifcM) with
  | .method implementation => some implementation
  | .conflictTable _ table => (table.entries.find? fun pair => pair.1 = ifcM).map Prod.snd
  | _ => none

/-! ## The first pass -/

structure Implements (pairs : List (ArtMethod C × ArtMethod C)) : Prop where
  named : ∀ pair ∈ pairs, pair.2.nameAndSignature = pair.1.nameAndSignature
  consistent : ∀ one ∈ pairs, ∀ two ∈ pairs, one.1.nameAndSignature = two.1.nameAndSignature → one.2 = two.2

def slotPairs (pairs : List (ArtMethod C × ArtMethod C)) (i : Fin kSize) :
    List (ArtMethod C × ArtMethod C) :=
  pairs.filter fun pair => imtIdx pair.1 = i

variable {imtIdx}

structure SlotFilled (pairs : List (ArtMethod C × ArtMethod C)) (ent : ImtEntry C) (count : Nat) : Prop where
  counted : count = pairs.length
  noTable : ∀ adr tbl, ent ≠ .conflictTable adr tbl
  unimplemented : ent = .unimplemented → pairs = []
  method : ∀ placed, ent = .method placed → (∃ pair ∈ pairs, pair.2 = placed) ∧ ∀ pair ∈ pairs, pair.2 = placed

theorem slotFilled_nil : SlotFilled ([] : List (ArtMethod C × ArtMethod C)) .unimplemented 0 :=
  ⟨rfl, by simp, by simp, by simp⟩

variable {prs : List (ArtMethod C × ArtMethod C)} {pair : ArtMethod C × ArtMethod C}
  {imt : Fin kSize → ImtEntry C} {ta : Fin kSize → Bool} {slot : Fin kSize}
  {superImt : Fin kSize → ImtEntry C}

theorem SlotFilled.set {ent : ImtEntry C} {cnt : Nat} (full : SlotFilled prs ent cnt)
    (impl : Implements (prs ++ [pair])) (newConflict : Bool) :
    SlotFilled (prs ++ [pair]) (setIMTRef pair.2 ent newConflict).1 (cnt + 1) := by
  have hc : cnt + 1 = (prs ++ [pair]).length := by simp [full.counted]
  have conflicts : SlotFilled (prs ++ [pair]) .conflict (cnt + 1) := ⟨hc, by simp, by simp, by simp⟩
  have methodIs : (∀ o ∈ prs, o.2 = pair.2) → SlotFilled (prs ++ [pair]) (.method pair.2) (cnt + 1) := by
    intro all
    refine ⟨hc, by simp, by simp, fun put eq => ?_⟩
    cases eq
    refine ⟨⟨pair, by simp, rfl⟩, fun o mem => ?_⟩
    cases mem_append.mp mem with
    | inl old => exact all o old
    | inr new => rw [mem_singleton.mp new]
  cases ent with
  | unimplemented =>
    apply methodIs
    rw [full.unimplemented rfl]
    simp
  | conflict => exact conflicts
  | conflictTable _ _ => exact conflicts
  | method put =>
    obtain ⟨⟨old, oldMember, oldPlaced⟩, all⟩ := full.method put rfl
    rw [setIMTRef]
    split
    next eq =>
      rw [ArtMethod.hasSameNameAndSignature_iff] at eq
      -- the same name and signature, hence the same implementation
      have oldIn : old ∈ prs ++ [pair] := mem_append_left _ oldMember
      have newIn : pair ∈ prs ++ [pair] := by simp
      have names : old.1.nameAndSignature = pair.1.nameAndSignature := by
        rw [← impl.named old oldIn, oldPlaced, eq, impl.named pair newIn]
      have implementation := impl.consistent old oldIn pair newIn names
      exact methodIs fun o mem => (all o mem).trans (oldPlaced.symm.trans implementation)
    next => exact conflicts

theorem slotPairs_append (prs : List (ArtMethod C × ArtMethod C)) (pair : ArtMethod C × ArtMethod C) (i : Fin kSize) :
    slotPairs imtIdx (prs ++ [pair]) i =
      if imtIdx pair.1 = i then slotPairs imtIdx prs i ++ [pair] else slotPairs imtIdx prs i := by
  by_cases eq : imtIdx pair.1 = i <;> simp [eq, slotPairs]

theorem Implements.slotPairs (impl : Implements prs) (i : Fin kSize) : Implements (slotPairs imtIdx prs i) :=
  ⟨fun pair mem => impl.named pair (mem_of_mem_filter mem),
    fun one oneMem two twoMem => impl.consistent one (mem_of_mem_filter oneMem) two
      (mem_of_mem_filter twoMem)⟩

theorem Implements.of_append {more : List (ArtMethod C × ArtMethod C)} (impl : Implements (prs ++ more)) :
    Implements prs :=
  ⟨fun pair mem => impl.named pair (mem_append_left _ mem),
    fun one oneMem two twoMem => impl.consistent one (mem_append_left _ oneMem) two
      (mem_append_left _ twoMem)⟩

theorem countAndSet_all (impl : Implements prs) (newConflict : Bool) (i : Fin kSize) :
    SlotFilled (slotPairs imtIdx prs i)
      ((prs.foldl (countAndSet imtIdx) ⟨fun _ => .unimplemented, fun _ => 0, newConflict⟩).imt i)
      ((prs.foldl (countAndSet imtIdx) ⟨fun _ => .unimplemented, fun _ => 0, newConflict⟩).conflictCounts i) := by
  induction prs using List.reverseRecOn with
  | nil => exact slotFilled_nil
  | append_singleton prs pair ih =>
    have pre := ih impl.of_append
    have ofSlot : Implements (Art.slotPairs imtIdx _ i) := impl.slotPairs i
    rw [slotPairs_append] at ofSlot ⊢
    rw [foldl_append, foldl_cons, foldl_nil, countAndSet]
    dsimp only
    by_cases here : imtIdx pair.1 = i
    · subst here
      rw [if_pos rfl] at ofSlot ⊢
      rw [update_self, update_self]
      exact pre.set ofSlot _
    · rw [if_neg here, update_of_ne (Ne.symm here), update_of_ne (Ne.symm here)]
      exact pre

/-! ## The second pass -/

/-- The tables get the pairs of their slots, everything else stays. -/
theorem addToConflictTable_all (prs : List (ArtMethod C × ArtMethod C)) (imt : Fin kSize → ImtEntry C)
    (i : Fin kSize) :
    prs.foldl (addToConflictTable imtIdx) imt i = match imt i with
      | .conflictTable adr tb =>
        .conflictTable adr { tb with entries := tb.entries ++ slotPairs imtIdx prs i }
      | entry => entry := by
  induction prs using List.reverseRecOn with
  | nil =>
    cases atSlot : imt i with
    | conflictTable adr tb => simp [atSlot, slotPairs]
    | unimplemented | conflict | method _ => simp [atSlot]
  | append_singleton prs pair ih =>
    rw [foldl_append, foldl_cons, slotPairs_append, addToConflictTable]
    by_cases here : imtIdx pair.1 = i
    · subst here
      rw [ih]
      cases atSlot : imt _ with
      | conflictTable adr tb => simp
      | unimplemented | conflict | method _ => simp [ih, atSlot]
    · rw [if_neg here, ← ih]
      cases prs.foldl _ imt _ with
      | conflictTable adr tb => exact update_of_ne (Ne.symm here) _ _
      | unimplemented | conflict | method _ => rfl

inductive SlotDone (pairs : List (ArtMethod C × ArtMethod C)) (alloc : Bool) : ImtEntry C → Prop where
  | unimplemented : pairs = [] → SlotDone pairs alloc .unimplemented
  | direct {placed} : (∀ pair ∈ pairs, pair.2 = placed) → SlotDone pairs alloc (.method placed)
  | table {address} : SlotDone pairs alloc (.conflictTable address ⟨pairs.length, pairs⟩)
  | generic : alloc = false → SlotDone pairs alloc .conflict

theorem fillIMTFromIfTable_slot [DecidableEq C] {ift : List (IfEntry C)} {icm : Bool}
    (impl : Implements (ifTablePairs ift icm)) (ta : Fin kSize → Bool)
    (newMethod : Fin kSize → Nat) (newConflict : Bool) (i : Fin kSize) :
    SlotDone (slotPairs imtIdx (ifTablePairs ift icm) i) (ta i)
      ((fillIMTFromIfTable imtIdx ift true icm ta newMethod (fun _ => .unimplemented) newConflict).1 i) := by
  have full : SlotFilled (slotPairs imtIdx (ifTablePairs ift icm) i) _ _ := countAndSet_all impl newConflict i
  rw [fillIMTFromIfTable]
  simp only [if_true]
  rw [addToConflictTable_all, createConflictTable]
  generalize (ifTablePairs ift icm).foldl _ _ = s at full ⊢
  cases atSlot : s.imt i with
  | unimplemented =>
    exact .unimplemented (full.unimplemented atSlot)
  | method put =>
    exact .direct (full.method put atSlot).2
  | conflictTable adr tb => exact absurd atSlot (full.noTable adr tb)
  | conflict =>
    cases al : ta i with
    | false => exact .generic rfl
    | true =>
      simp only [full.counted]
      exact .table

/-! ## Dispatch -/

def Found (alloc : Fin kSize → Bool) (imt : Fin kSize → ImtEntry C)
    (slot : Fin kSize) (pair : ArtMethod C × ArtMethod C) : Prop :=
  imt slot = .method pair.2 ∨ (∃ adr tbl, imt slot = .conflictTable adr tbl ∧ pair ∈ tbl.entries ∧
      ∀ o, (pair.1, o) ∈ tbl.entries → o = pair.2) ∨ imt slot = .conflict ∧ alloc slot = false

theorem SlotDone.found (done : SlotDone prs (ta slot) (imt slot)) (impl : Implements prs) (mem : pair ∈ prs) :
    Found ta imt slot pair := by
  unfold Found
  cases ent : imt slot with
  | unimplemented =>
    rw [ent] at done
    cases done with
    | unimplemented none => simp [none] at mem
  | method _ =>
    rw [ent] at done
    cases done with
    | direct all => exact .inl (congrArg ImtEntry.method (all pair mem).symm)
  | conflict =>
    rw [ent] at done
    cases done with
    | generic fail => exact .inr (.inr ⟨rfl, fail⟩)
  | conflictTable adr _ =>
    rw [ent] at done
    cases done with
    | table =>
      exact .inr (.inl ⟨adr, _, rfl, mem, fun o om =>
        impl.consistent _ om pair mem rfl⟩)

theorem Found.of_sameSlot [DecidableEq C] (eq : sameSlot (imt slot) (superImt slot) = true)
    (hf : Found ta imt slot pair) : Found ta superImt slot pair := by
  unfold sameSlot at eq
  split at eq
  next =>
    unfold Found at hf ⊢
    split at eq
    next _ _ address2 table2 isTable hist =>
      rw [isTable] at hf
      rw [hist]
      obtain never | ⟨_, _, isIt, hh⟩ | ⟨never, _⟩ := hf
      · cases never
      · cases isIt
        rw [of_decide_eq_true eq] at hh
        exact .inr (.inl ⟨address2, table2, rfl, hh⟩)
      · cases never
    next => cases eq
  next hq =>
    unfold Found at hf ⊢
    rw [← not_not.mp hq]
    exact hf

theorem dispatch_of_sameSlot [DecidableEq C] (eq : ∀ i, sameSlot (imt i) (superImt i) = true) (ifcM : ArtMethod C) :
    dispatch imtIdx superImt ifcM = dispatch imtIdx imt ifcM := by
  have sameHere := eq (imtIdx ifcM)
  unfold sameSlot at sameHere
  unfold dispatch
  split at sameHere
  next =>
    split at sameHere
    next _ _ _ _ isTable hist =>
      rw [isTable, hist]
      simp only [of_decide_eq_true sameHere]
    next => cases sameHere
  next hq => rw [not_not.mp hq]

/-- Every interface method of the table is dispatched to its implementation. -/
theorem imt_dispatch_exact [DecidableEq C] (imtIdx : ArtMethod C → Fin kSize)
    (ifTable : List (IfEntry C)) (implements : Implements (ifTablePairs ifTable false))
    (alloc : Fin kSize → Bool) (newMethod : Fin kSize → Nat)
    (superImt : Option (Fin kSize → ImtEntry C)) :
    (∀ ent ∈ ifTable, ∀ pair ∈ ent.pairs,
        Found alloc (fillIMTAndConflictTables imtIdx (some ifTable) alloc newMethod superImt) (imtIdx pair.1) pair) ∧
      (∀ i adr tbl, imtData imtIdx (some ifTable) alloc newMethod i = .conflictTable adr tbl →
        tbl.entries.length ≤ tbl.capacity) ∧
      ∀ ifcM, dispatch imtIdx (fillIMTAndConflictTables imtIdx (some ifTable) alloc newMethod superImt) ifcM =
        dispatch imtIdx (imtData imtIdx (some ifTable) alloc newMethod) ifcM := by
  have done : ∀ i, SlotDone (slotPairs imtIdx (ifTablePairs ifTable false) i) (alloc i)
      (imtData imtIdx (some ifTable) alloc newMethod i) :=
    fun i => fillIMTFromIfTable_slot implements alloc newMethod false i
  have found : ∀ ent ∈ ifTable, ∀ pair ∈ ent.pairs,
      Found alloc (imtData imtIdx (some ifTable) alloc newMethod) (imtIdx pair.1) pair := by
    intro ent isEntry pair isPair
    have member : pair ∈ ifTablePairs ifTable false := by
      simpa [ifTablePairs] using ⟨ent, isEntry, isPair⟩
    exact (done _).found (implements.slotPairs _) (mem_filter.mpr ⟨member, by simp⟩)
  refine ⟨?_, ?_, ?_⟩
  · intro ent isEntry pair isPair
    unfold fillIMTAndConflictTables
    dsimp only
    split
    next superTable =>
      split
      next same => exact (found ent isEntry pair isPair).of_sameSlot (same _)
      next => exact found ent isEntry pair isPair
    next => exact found ent isEntry pair isPair
  · intro i adr tbl isTable
    have slot := done i
    rw [isTable] at slot
    cases slot with
    | table => exact Nat.le_refl _
  · intro ifcM
    unfold fillIMTAndConflictTables
    dsimp only
    split
    next superTable =>
      split
      next same => exact dispatch_of_sameSlot same ifcM
      next => rfl
    next => rfl

local instance twoSlots : NeZero 2 := ⟨by decide⟩

def twoMethodEntry : IfEntry (Fin 2) :=
  ⟨0, [smallMethod 0 0 0 true, smallMethod 1 1 0 true], [smallMethod 2 0 1 false, smallMethod 3 1 1 false], by decide⟩

theorem imt_dispatch_exact_one_slot :
    dispatch (fun _ => (0 : Fin 1))
        (fillIMTAndConflictTables (fun _ => (0 : Fin 1)) (some [twoMethodEntry]) (fun _ => true) (fun _ => 0) none)
        (smallMethod 1 1 0 true) = some (smallMethod 3 1 1 false) ∧ Found (fun _ => true)
        (fillIMTAndConflictTables (fun _ => (0 : Fin 1)) (some [twoMethodEntry]) (fun _ => true) (fun _ => 0) none)
        0 (smallMethod 1 1 0 true, smallMethod 3 1 1 false) := by
  have implements : Implements (ifTablePairs [twoMethodEntry] false) := ⟨by decide, by decide⟩
  exact ⟨by decide, (imt_dispatch_exact _ [twoMethodEntry] implements _ _ none).1
    twoMethodEntry (by simp) _ (by decide)⟩

end Aosp.Art
