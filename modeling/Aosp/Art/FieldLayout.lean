import Aosp.Lib.Blocks

/-! # Field layout

Model of `AddFieldGap`, `ShuffleForward` and `ClassLinker::LinkFields`.  Offsets
are natural numbers.  The gap queue is the list of the gaps in the order in which
the priority queue would return them.  The state keeps, besides the variables of
the source, the fields placed so far and a log of what has been reached after each
change: at each of these moments the placed fields and the gaps tile the bytes
laid out so far (`LayoutInv`).
-/

namespace Aosp.Art

open Aosp.Lib List Nat

/-! ## The source -/

/-- `Primitive::Type`, for the types that fields have. -/
inductive PrimitiveType where
  | primNot
  | primBoolean
  | primByte
  | primChar
  | primShort
  | primInt
  | primLong
  | primFloat
  | primDouble
deriving DecidableEq

namespace PrimitiveType

/-- `Primitive::ComponentSize`; a reference takes four bytes. -/
def componentSize : PrimitiveType → Nat
  | primNot | primInt | primFloat => 4
  | primBoolean | primByte => 1
  | primChar | primShort => 2
  | primLong | primDouble => 8

def ordinal : PrimitiveType → Nat
  | primNot => 0
  | primBoolean => 1
  | primByte => 2
  | primChar => 3
  | primShort => 4
  | primInt => 5
  | primLong => 6
  | primFloat => 7
  | primDouble => 8

end PrimitiveType

structure ArtField where
  name : String
  type : PrimitiveType
  dexFieldIndex : Nat
deriving DecidableEq

def ArtField.size (field : ArtField) : Nat := field.type.componentSize

/-- `LinkFieldsComparator`: whether the first field goes before the second. -/
def linkFieldsComparator (field1 field2 : ArtField) : Bool :=
  if field1.type ≠ field2.type then
    if field1.type = .primNot then true
    else if field2.type = .primNot then false
    else if field1.size ≠ field2.size then field1.size > field2.size
    else field1.type.ordinal < field2.type.ordinal
  else field1.dexFieldIndex < field2.dexFieldIndex

structure FieldGap where
  startOffset : Nat
  size : Nat
deriving DecidableEq

/-- `FieldGapsComparator`: the first gap is less than the second. -/
def fieldGapsComparator (lhs rhs : FieldGap) : Bool :=
  lhs.size < rhs.size || (lhs.size = rhs.size && lhs.startOffset > rhs.startOffset)

/-- `push` of the priority queue. -/
def pushGap (gap : FieldGap) : List FieldGap → List FieldGap
  | [] => [gap]
  | top :: rest => if fieldGapsComparator gap top then top :: pushGap gap rest else gap :: top :: rest

/-- The loop of `AddFieldGap`, for as many turns as there are bytes. -/
def addFieldGapFrom (gapEnd : Nat) : Nat → Nat → List FieldGap → List FieldGap
  | 0, _, gaps => gaps
  | fuel + 1, curOff, gaps =>
    if curOff = gapEnd then gaps
    else if 4 ≤ gapEnd - curOff ∧ 4 ∣ curOff then
      addFieldGapFrom gapEnd fuel (curOff + 4) (pushGap ⟨curOff, 4⟩ gaps)
    else if 2 ≤ gapEnd - curOff ∧ 2 ∣ curOff then
      addFieldGapFrom gapEnd fuel (curOff + 2) (pushGap ⟨curOff, 2⟩ gaps)
    else addFieldGapFrom gapEnd fuel (curOff + 1) (pushGap ⟨curOff, 1⟩ gaps)

def addFieldGap (gapStart gapEnd : Nat) (gaps : List FieldGap) : List FieldGap :=
  addFieldGapFrom gapEnd (gapEnd - gapStart) gapStart gaps

def roundUp (x n : Nat) : Nat := (x + n - 1) / n * n

structure Moment where
  fieldOffset : Nat
  gaps : List FieldGap
  placed : List (ArtField × Nat)
deriving DecidableEq

structure LayoutState where
  now : Moment
  log : List Moment
deriving DecidableEq

def LayoutState.change (s : LayoutState) (next : Moment) : LayoutState := ⟨next, s.log ++ [next]⟩

/-- The cursor is aligned; the bytes passed over become gaps. -/
def alignOffset (n : Nat) (s : LayoutState) : LayoutState :=
  if n ∣ s.now.fieldOffset then s
  else
    let aligned := roundUp s.now.fieldOffset n
    s.change { s.now with
      fieldOffset := aligned
      gaps := addFieldGap s.now.fieldOffset aligned s.now.gaps }

def placeAtOffset (n : Nat) (field : ArtField) (s : LayoutState) : LayoutState :=
  s.change { s.now with
    fieldOffset := s.now.fieldOffset + n
    placed := s.now.placed ++ [(field, s.now.fieldOffset)] }

/-- The field goes to the first gap if that is large enough, and to the cursor otherwise. -/
def placeField (n : Nat) (field : ArtField) (s : LayoutState) : LayoutState :=
  match s.now.gaps with
  | gap :: gaps =>
    if n ≤ gap.size then
      s.change { s.now with
        gaps := if n < gap.size then addFieldGap (gap.startOffset + n) (gap.startOffset + gap.size) gaps else gaps
        placed := s.now.placed ++ [(field, gap.startOffset)] }
    else placeAtOffset n field s
  | [] => placeAtOffset n field s

/-- `ShuffleForward<n>`, with the fields that remain; a reference among those it places fails
    a check. -/
def shuffleForward (n : Nat) : List ArtField → LayoutState → Option (List ArtField × LayoutState)
  | [], state => some ([], state)
  | field :: rest, state =>
    if field.size < n then some (field :: rest, state)
    else if field.type = .primNot then none
    else shuffleForward n rest (placeField n field (alignOffset n state))

/-- The loop over the references at the front, with their number. -/
def placeReferences : List ArtField → LayoutState → Nat → List ArtField × LayoutState × Nat
  | [], state, cnt => ([], state, cnt)
  | field :: rest, state, cnt =>
    if field.type ≠ .primNot then (field :: rest, state, cnt)
    else placeReferences rest (placeAtOffset 4 field (alignOffset 4 state)) (cnt + 1)

/-- The loops of `LinkFields`: the fields that remain, the layout and the number of references. -/
def layOut (sorted : List ArtField) (s : LayoutState) : Option (List ArtField × LayoutState × Nat) := do
  let (tl, s, references) := placeReferences sorted s 0
  let (tl, s) ← shuffleForward 8 tl s
  let (tl, s) ← shuffleForward 4 tl s
  let (tl, s) ← shuffleForward 2 tl s
  let (tl, s) ← shuffleForward 1 tl s
  return (tl, s, references)

/-- What `LinkFields` reads of the class. -/
structure FieldsClass where
  isStatic : Bool
  /-- `GetFirstReferenceStaticFieldOffsetDuringLinking`. -/
  firstStaticOffset : Nat
  /-- The object size of the superclass and whether it has no reference fields. -/
  superClass : Option (Nat × Bool)
  isReferenceClass : Bool
  isVariableSize : Bool
  /-- The object size before, 0 if not set. -/
  previousSize : Nat

def FieldsClass.firstOffset (kl : FieldsClass) : Nat :=
  if kl.isStatic then kl.firstStaticOffset
  else
    match kl.superClass with
    | some (objectSize, _) => objectSize
    | none => 0

structure LinkedFields where
  size : Nat
  numReferenceFields : Nat
  noReferenceFields : Bool
  state : LayoutState

/-- `ClassLinker::LinkFields` after the fields have been sorted; `none` is a failed check. -/
def linkFields (kl : FieldsClass) (fields sorted : List ArtField) : Option LinkedFields := do
  let beg : Moment := ⟨kl.firstOffset, [], []⟩
  let (tl, s, references) ← layOut sorted ⟨beg, [beg]⟩
  if tl ≠ [] then none
  else
    let isReference := !kl.isStatic && kl.isReferenceClass
    if isReference && (references ≠ fields.length || (fields.getLast?.map ArtField.name) ≠ some "referent") then none
    else
      let references := if isReference then references - 1 else references
      let sz := s.now.fieldOffset
      if !kl.isStatic && !kl.isVariableSize && kl.previousSize ≠ 0 && kl.previousSize ≠ sz then none
      else
        some ⟨sz, references, !kl.isStatic && (references = 0 || kl.superClass.isNone) && kl.superClass.all Prod.snd, s⟩

/-! ## Gaps -/

def FieldGap.block (gap : FieldGap) : Block := ⟨gap.startOffset, gap.size⟩

def FieldGap.Good (gap : FieldGap) : Prop :=
  (gap.size = 1 ∨ gap.size = 2 ∨ gap.size = 4) ∧ gap.size ∣ gap.startOffset

theorem pushGap_perm (gap : FieldGap) (gaps : List FieldGap) : (pushGap gap gaps).Perm (gap :: gaps) := by
  induction gaps with
  | nil => exact .refl _
  | cons top tl ih =>
    rw [pushGap]
    split
    next => exact (ih.cons top).trans (.swap gap top tl)
    next => exact .refl _

open FieldGap

variable {gapEnd : Nat} {er la : ArtField} {moment : Moment} {kl : FieldsClass}

theorem addFieldGapFrom_spec {fl cur : Nat} (gaps : List FieldGap) (fuel : gapEnd - cur ≤ fl) (inOrder : cur ≤ gapEnd) :
    ∃ adds, (addFieldGapFrom gapEnd fl cur gaps).Perm (adds ++ gaps) ∧
      (∀ gap ∈ adds, gap.Good) ∧ Tiles (adds.map block) cur gapEnd := by
  induction fl generalizing cur gaps with
  | zero =>
    have done : cur = gapEnd := by omega
    subst done
    exact ⟨[], .refl _, by simp, tiles_nil _⟩
  | succ fl ih =>
    -- one more gap, of whichever size
    have oneMore : ∀ sz, (⟨cur, sz⟩ : FieldGap).Good → 0 < sz → cur + sz ≤ gapEnd →
        ∃ adds, (addFieldGapFrom gapEnd fl (cur + sz) (pushGap ⟨cur, sz⟩ gaps)).Perm
            (adds ++ gaps) ∧ (∀ gap ∈ adds, gap.Good) ∧ Tiles (adds.map block) cur gapEnd := by
      intro sz good _ fits
      obtain ⟨adds, perm, allGood, tiles⟩ := ih _
        (show gapEnd - _ ≤ fl by omega) fits
      refine ⟨⟨cur, sz⟩ :: adds, ?_, ?_, ?_⟩
      · exact perm.trans (((pushGap_perm _ gaps).append_left adds).trans perm_middle)
      · simpa using ⟨good, allGood⟩
      · exact (tiles_singleton cur sz).append tiles (by omega) fits
    rw [addFieldGapFrom]
    split
    next done =>
      subst done
      exact ⟨[], .refl _, by simp, tiles_nil _⟩
    next _ =>
      split
      next four => exact oneMore 4 ⟨.inr (.inr rfl), four.2⟩ (by omega) (by omega)
      next =>
        split
        next two => exact oneMore 2 ⟨.inr (.inl rfl), two.2⟩ (by omega) (by omega)
        next => exact oneMore 1 ⟨.inl rfl, one_dvd _⟩ (by omega) (by omega)

theorem addFieldGap_spec {gapStart : Nat} (gaps : List FieldGap) (inOrder : gapStart ≤ gapEnd) :
    ∃ adds, (addFieldGap gapStart gapEnd gaps).Perm (adds ++ gaps) ∧
      (∀ gap ∈ adds, gap.Good) ∧ Tiles (adds.map block) gapStart gapEnd :=
  addFieldGapFrom_spec gaps (Nat.le_refl _) inOrder

/-! ## The invariant -/

def fieldBlock (placed : ArtField × Nat) : Block := ⟨placed.2, placed.1.size⟩

def Moment.blocks (moment : Moment) : List Block :=
  moment.placed.map fieldBlock ++ moment.gaps.map block

structure LayoutInv (beg : Nat) (moment : Moment) : Prop where
  inOrder : beg ≤ moment.fieldOffset
  tiles : Tiles moment.blocks beg moment.fieldOffset
  gaps : ∀ gap ∈ moment.gaps, gap.Good
  aligned : ∀ placed ∈ moment.placed, placed.1.size ∣ placed.2

structure LayoutSound (beg : Nat) (s : LayoutState) : Prop where
  now : LayoutInv beg s.now
  log : ∀ moment ∈ s.log, LayoutInv beg moment

variable {beg n : Nat} {s : LayoutState} {field : ArtField}

theorem LayoutSound.change {next : Moment} (hs : LayoutSound beg s) (hh : LayoutInv beg next) :
    LayoutSound beg (s.change next) := by
  refine ⟨hh, fun moment mem => ?_⟩
  cases mem_append.mp mem with
  | inl old => exact hs.log moment old
  | inr new => exact mem_singleton.mp new ▸ hh

theorem dvd_roundUp (x n : Nat) : n ∣ roundUp x n := dvd_mul_left n _

theorem le_roundUp {n : Nat} (pos : 0 < n) (x : Nat) : x ≤ roundUp x n := by
  have division := div_add_mod (x + n - 1) n
  have remainder := mod_lt (x + n - 1) pos
  have product : _ / n * n = n * ((x + n - 1) / n) := mul_comm _ _
  unfold roundUp
  omega

theorem roundUp_of_dvd {n x : Nat} (pos : 0 < n) (even : n ∣ x) : roundUp x n = x := by
  obtain ⟨k, rfl⟩ := even
  rw [roundUp, Nat.add_sub_assoc (by omega), Nat.mul_add_div pos, Nat.div_eq_of_lt (by omega), Nat.add_zero, mul_comm]

theorem alignOffset_fieldOffset (pos : 0 < n) (s : LayoutState) :
    (alignOffset n s).now.fieldOffset = roundUp s.now.fieldOffset n := by
  unfold alignOffset
  split
  next even => exact (roundUp_of_dvd pos even).symm
  next => rfl

theorem alignOffset_placed (n : Nat) (s : LayoutState) : (alignOffset n s).now.placed = s.now.placed := by
  unfold alignOffset
  split <;> rfl

theorem LayoutSound.alignOffset (hs : LayoutSound beg s) (pos : 0 < n) : LayoutSound beg (alignOffset n s) := by
  unfold Art.alignOffset
  split
  next => exact hs
  next =>
    have more := le_roundUp pos s.now.fieldOffset
    obtain ⟨_, perm, good, tiles⟩ := addFieldGap_spec s.now.gaps more
    refine hs.change ⟨Nat.le_trans hs.now.inOrder more, ?_, ?_, hs.now.aligned⟩
    · apply (hs.now.tiles.append tiles hs.now.inOrder more).of_cover
      intro byte
      have gapsCover := cover_perm (perm.map block) byte
      simp only [Moment.blocks, cover_append, map_append] at gapsCover ⊢
      omega
    · intro gap mem
      cases mem_append.mp (perm.mem_iff.mp mem) with
      | inl new => exact good gap new
      | inr old => exact hs.now.gaps gap old

theorem placeAtOffset_placed (n : Nat) (fd : ArtField) (s : LayoutState) :
    (placeAtOffset n fd s).now.placed = s.now.placed ++ [(fd, s.now.fieldOffset)] := rfl

theorem LayoutSound.placeAtOffset (hs : LayoutSound beg s) (size : field.size = n)
    (even : n ∣ s.now.fieldOffset) : LayoutSound beg (placeAtOffset n field s) := by
  refine hs.change ⟨le_add_right_of_le hs.now.inOrder, ?_, hs.now.gaps, ?_⟩
  · apply (hs.now.tiles.append (tiles_singleton s.now.fieldOffset n) hs.now.inOrder
      (le_add_right _ _)).of_cover
    simp only [Moment.blocks, map_append, map_cons, map_nil, cover_append, fieldBlock, size]
    omega
  · intro put mem
    cases mem_append.mp mem with
    | inl old => exact hs.now.aligned put old
    | inr new =>
      rw [mem_singleton.mp new, size]
      exact even

theorem FieldGap.Good.dvd {gap : FieldGap} (good : gap.Good) (sizes : n = 1 ∨ n = 2 ∨ n = 4 ∨ n = 8)
    (large : n ≤ gap.size) : n ∣ gap.startOffset := by
  obtain ⟨one | two | four, even⟩ := good
  · obtain rfl | rfl | rfl | rfl := sizes <;> omega
  · rw [two] at large even
    obtain rfl | rfl | rfl | rfl := sizes <;> omega
  · rw [four] at large even
    obtain rfl | rfl | rfl | rfl := sizes <;> omega

theorem LayoutSound.placeField (hs : LayoutSound beg s) (sizes : n = 1 ∨ n = 2 ∨ n = 4 ∨ n = 8)
    (size : field.size = n) (even : n ∣ s.now.fieldOffset) : LayoutSound beg (placeField n field s) := by
  unfold Art.placeField
  split
  next gap gaps isGaps =>
    split
    next large =>
      have good := hs.now.gaps gap (isGaps ▸ mem_cons_self)
      have rest : ∀ o ∈ gaps, o.Good := fun o mem =>
        hs.now.gaps o (isGaps ▸ mem_cons_of_mem _ mem)
      -- what is left of the gap goes back to the queue
      obtain ⟨adds, perm, allGood, tiles⟩ := addFieldGap_spec gaps
        (show gap.startOffset + n ≤ gap.startOffset + gap.size by omega)
      have remainder : (if n < gap.size then addFieldGap (gap.startOffset + n) (gap.startOffset + gap.size) gaps
          else gaps).Perm (adds ++ gaps) := by
        split
        next => exact perm
        next _ =>
          have none : adds = [] := by
            by_contra some
            obtain ⟨first, mem⟩ := exists_mem_of_ne_nil adds some
            have pos : 0 < first.size := by have sizes := (allGood first mem).1; omega
            have hi := tiles.within (mem_map_of_mem mem) pos
            simp only [block] at hi
            omega
          rw [none, nil_append]
      refine hs.change ⟨hs.now.inOrder, ?_, ?_, ?_⟩
      · apply hs.now.tiles.of_cover
        intro byte
        have full := (tiles_singleton gap.startOffset n).append tiles (by omega) (by omega) byte
        rw [← tiles_singleton gap.startOffset gap.size byte] at full
        have gapsCover := cover_perm (remainder.map block) byte
        simp only [Moment.blocks, isGaps, map_append, map_cons, map_nil, cover_append, cover_cons,
          cover_nil, fieldBlock, size, block] at full gapsCover ⊢
        omega
      · intro o mem
        cases mem_append.mp (remainder.mem_iff.mp mem) with
        | inl new => exact allGood o new
        | inr old => exact rest o old
      · intro put mem
        cases mem_append.mp mem with
        | inl old => exact hs.now.aligned put old
        | inr new =>
          rw [mem_singleton.mp new, size]
          exact good.dvd sizes large
    next => exact hs.placeAtOffset size even
  next => exact hs.placeAtOffset size even

theorem placeField_placed (n : Nat) (fd : ArtField) (s : LayoutState) :
    ∃ off, (placeField n fd s).now.placed = s.now.placed ++ [(fd, off)] := by
  unfold placeField
  split
  next =>
    split
    next => exact ⟨_, rfl⟩
    next => exact ⟨_, rfl⟩
  next => exact ⟨_, rfl⟩

/-! ## The loops -/

def FieldsOrdered (fields : List ArtField) : Prop :=
  fields.Pairwise fun earlier later => linkFieldsComparator later earlier = false

instance (fields : List ArtField) : Decidable (FieldsOrdered fields) :=
  inferInstanceAs (Decidable (fields.Pairwise fun earlier later => linkFieldsComparator later earlier = false))

theorem reference_of_ordered (ho : linkFieldsComparator la er = false)
    (ref : la.type = .primNot) : er.type = .primNot := by
  by_contra primitive
  rw [linkFieldsComparator, if_pos (by rw [ref]; exact Ne.symm primitive), if_pos ref] at ho
  cases ho

theorem size_le_of_ordered (ho : linkFieldsComparator la er = false)
    (prim : er.type ≠ .primNot) : la.size ≤ er.size := by
  by_contra larger
  have ne : la.type ≠ er.type := by
    intro eq
    simp only [ArtField.size, eq] at larger
    omega
  have laterPrimitive : la.type ≠ .primNot := fun ref => prim (reference_of_ordered ho ref)
  rw [linkFieldsComparator, if_pos ne, if_neg laterPrimitive, if_neg prim, if_pos (by omega)] at ho
  simp only [decide_eq_false_iff_not] at ho
  omega

variable {fds : List ArtField}

/-- The references stand in front and get consecutive offsets. -/
theorem placeReferences_spec (ho : FieldsOrdered fds) (hs : LayoutSound beg s) (cnt : Nat) :
    ∃ refs tl next, placeReferences fds s cnt = (tl, next, cnt + refs.length) ∧
      fds = refs ++ tl ∧ (∀ field ∈ refs, field.type = .primNot) ∧
      (∀ field ∈ tl, field.type ≠ .primNot) ∧ LayoutSound beg next ∧
      next.now.placed = s.now.placed ++ refs.mapIdx fun i field => (field, roundUp s.now.fieldOffset 4 + 4 * i) := by
  induction fds generalizing s cnt with
  | nil => exact ⟨[], [], s, rfl, rfl, by simp, by simp, hs, by simp⟩
  | cons field fds ih =>
    obtain ⟨first, late⟩ := pairwise_cons.mp ho
    rw [placeReferences]
    split
    next prim =>
      refine ⟨[], field :: fds, s, rfl, rfl, by simp, ?_, hs, by simp⟩
      intro o mem
      cases mem_cons.mp mem with
      | inl eq => exact eq ▸ prim
      | inr inTail => exact fun ref => prim (reference_of_ordered (first o inTail) ref)
    next reference =>
      rw [not_not] at reference
      have size : field.size = 4 := by rw [ArtField.size, reference]; rfl
      have atOffset := alignOffset_fieldOffset (show 0 < 4 by decide) s
      have alignedSound : LayoutSound beg (alignOffset 4 s) := hs.alignOffset (by decide)
      have even : 4 ∣ (alignOffset 4 s).now.fieldOffset := atOffset ▸ dvd_roundUp _ 4
      obtain ⟨refs, tl, next, put, split, areReferences, prims, nextSound, offs⟩ :=
        ih late (alignedSound.placeAtOffset size even) _
      refine ⟨field :: refs, tl, next, ?_, ?_, ?_, prims, nextSound, ?_⟩
      · rw [put, length_cons, add_assoc, add_comm 1]
      · rw [split, cons_append]
      · simpa using ⟨reference, areReferences⟩
      · have csr : (placeAtOffset 4 field (alignOffset 4 s)).now.fieldOffset = roundUp s.now.fieldOffset 4 + 4 := by
          rw [← atOffset]
          rfl
        have stillAligned : 4 ∣ roundUp s.now.fieldOffset 4 + 4 := Nat.dvd_add (dvd_roundUp _ 4) (Nat.dvd_refl 4)
        rw [offs, placeAtOffset_placed, alignOffset_placed, atOffset, csr,
          roundUp_of_dvd (by decide) stillAligned, mapIdx_cons, append_assoc, singleton_append]
        congr 3
        funext i o
        rw [Nat.mul_add, ← Nat.add_assoc, Nat.add_right_comm]

theorem ArtField.size_cases (fd : ArtField) : fd.size = 1 ∨ fd.size = 2 ∨ fd.size = 4 ∨ fd.size = 8 := by
  unfold ArtField.size
  cases fd.type <;> decide

/-- `ShuffleForward<n>` places the fields of size `n`, which stand in front. -/
theorem shuffleForward_spec (ho : FieldsOrdered fds)
    (left : ∀ field ∈ fds, field.type ≠ .primNot ∧ field.size < 2 * n) (sizes : n = 1 ∨ n = 2 ∨ n = 4 ∨ n = 8)
    (hs : LayoutSound beg s) :
    ∃ tl next offs, shuffleForward n fds s = some (tl, next) ∧ LayoutSound beg next ∧
      next.now.placed = s.now.placed ++ offs ∧ offs.map Prod.fst ++ tl = fds ∧
      FieldsOrdered tl ∧ ∀ field ∈ tl, field.type ≠ .primNot ∧ field.size < n := by
  induction fds generalizing s with
  | nil => exact ⟨[], s, [], rfl, hs, by simp, rfl, ho, by simp⟩
  | cons field fds ih =>
    obtain ⟨first, late⟩ := pairwise_cons.mp ho
    obtain ⟨prim, _⟩ := left field mem_cons_self
    rw [shuffleForward]
    split
    next small =>
      refine ⟨field :: fds, s, [], rfl, hs, by simp, rfl, ho, ?_⟩
      intro o mem
      refine ⟨(left o mem).1, ?_⟩
      cases mem_cons.mp mem with
      | inl eq => exact eq ▸ small
      | inr inTail =>
        exact Nat.lt_of_le_of_lt (size_le_of_ordered (first o inTail) prim) small
    next _ =>
      have size : field.size = n := by have cases := field.size_cases; omega
      have pos : 0 < n := by omega
      have even : n ∣ (alignOffset n s).now.fieldOffset := by
        rw [alignOffset_fieldOffset pos]
        exact dvd_roundUp _ n
      obtain ⟨off, placedHere⟩ := placeField_placed n field _
      obtain ⟨tl, next, offs, shuffled, nextSound, put, split, restOrdered, less⟩ := ih late
        (fun o mem => left o (mem_cons_of_mem _ mem)) ((hs.alignOffset pos).placeField sizes size even)
      refine ⟨tl, next, (field, off) :: offs, shuffled, nextSound, ?_, ?_, restOrdered, less⟩
      · rw [put, placedHere, alignOffset_placed, append_assoc, singleton_append]
      · rw [map_cons, cons_append, split]

/-! ## The whole layout -/

/-- The layout of a class whose first field offset is `beg`. -/
structure SoundLayout (beg : Nat) (fields : List ArtField) (linked : LinkedFields) : Prop where
  everyField : (linked.state.now.placed.map Prod.fst).Perm fields
  aligned : ∀ placed ∈ linked.state.now.placed, placed.1.size ∣ placed.2
  disjoint : ∀ (i j : Nat) one two, i ≠ j → linked.state.now.placed[i]? = some one →
    linked.state.now.placed[j]? = some two → one.2 + one.1.size ≤ two.2 ∨ two.2 + two.1.size ≤ one.2
  inside : ∀ placed ∈ linked.state.now.placed, beg ≤ placed.2 ∧ placed.2 + placed.1.size ≤ linked.size
  references : ∃ (references : List ArtField) (others : List (ArtField × Nat)),
    linked.state.now.placed = (references.mapIdx fun i field => (field, roundUp beg 4 + 4 * i)) ++ others ∧
      (∀ field ∈ references, field.type = .primNot) ∧ ∀ placed ∈ others, placed.1.type ≠ .primNot
  moments : ∀ moment ∈ linked.state.log, Tiles moment.blocks beg moment.fieldOffset

theorem ArtField.size_pos (fd : ArtField) : 0 < fd.size := by
  unfold ArtField.size
  cases fd.type <;> decide

/-- The offsets are below the object size, so those of an object whose size is a
    `uint32_t` are the source's own. -/
theorem SoundLayout.offset_lt {fields : List ArtField} {linked : LinkedFields} (sound : SoundLayout beg fields linked)
    {placed : ArtField × Nat} (mem : placed ∈ linked.state.now.placed) : placed.2 < linked.size := by
  have inside := (sound.inside placed mem).2
  have pos := placed.1.size_pos
  omega

theorem LayoutInv.inside (hh : LayoutInv beg moment) {pl : ArtField × Nat}
    (mem : pl ∈ moment.placed) : beg ≤ pl.2 ∧ pl.2 + pl.1.size ≤ moment.fieldOffset :=
  hh.tiles.within (mem_append_left _ (mem_map_of_mem mem)) pl.1.size_pos

theorem LayoutInv.disjoint (hh : LayoutInv beg moment) {i j : Nat} {one two : ArtField × Nat}
    (far : i < j) (isOne : moment.placed[i]? = some one) (hit : moment.placed[j]? = some two) :
    one.2 + one.1.size ≤ two.2 ∨ two.2 + two.1.size ≤ one.2 := by
  have blk : ∀ (k : Nat) put, moment.placed[k]? = some put → moment.blocks[k]? = some (fieldBlock put) := by
    intro k put isPlaced
    have fits := (List.getElem?_eq_some_iff.mp isPlaced).1
    rw [Moment.blocks, List.getElem?_append_left (by simpa using fits), List.getElem?_map, isPlaced, Option.map_some]
  have noCommon := hh.tiles.disjoint far (blk i one isOne) (blk j two hit) (max one.2 two.2)
  have onePositive := one.1.size_pos
  have twoPositive := two.1.size_pos
  simp only [Block.Contains, fieldBlock] at noCommon
  omega

variable {sorted : List ArtField}

theorem layOut_spec (ho : FieldsOrdered sorted) (hs : LayoutSound beg s) (emp : s.now.placed = []) :
    ∃ (refs : List ArtField) (last : LayoutState) (rest : List (ArtField × Nat)),
      layOut sorted s = some ([], last, refs.length) ∧ LayoutSound beg last ∧
      last.now.placed = (refs.mapIdx fun i field => (field, roundUp s.now.fieldOffset 4 + 4 * i)) ++ rest ∧
      refs ++ rest.map Prod.fst = sorted ∧ (∀ field ∈ refs, field.type = .primNot) ∧
      ∀ put ∈ rest, put.1.type ≠ .primNot := by
  obtain ⟨refs, rest8, _, put, split, areReferences, prims, sound0, offs⟩ :=
    placeReferences_spec ho hs 0
  have ordered8 : FieldsOrdered rest8 := (pairwise_append.mp (split ▸ ho)).2.1
  have left8 : ∀ field ∈ rest8, field.type ≠ .primNot ∧ field.size < 2 * 8 :=
    fun field mem => ⟨prims field mem, by have cases := field.size_cases; omega⟩
  obtain ⟨_, _, offsets8, shuffled8, sound8, placed8, split8, ordered4, left4⟩ :=
    shuffleForward_spec ordered8 left8 (by decide) sound0
  obtain ⟨_, _, offsets4, shuffled4, sound4, placed4, split4, ordered2, left2⟩ :=
    shuffleForward_spec (n := 4) ordered4 left4 (by decide) sound8
  obtain ⟨_, _, offsets2, shuffled2, sound2, placed2, split2, ordered1, left1⟩ :=
    shuffleForward_spec (n := 2) ordered2 left2 (by decide) sound4
  obtain ⟨rest0, last, offsets1, shuffled1, sound1, placed1, split1, -, left0⟩ :=
    shuffleForward_spec (n := 1) ordered1 left1 (by decide) sound2
  have nothingLeft : rest0 = [] := by
    rw [eq_nil_iff_forall_not_mem]
    intro field mem
    have less := (left0 field mem).2
    have pos := field.size_pos
    omega
  subst nothingLeft
  have all : (offsets8 ++ (offsets4 ++ (offsets2 ++ offsets1))).map Prod.fst = rest8 := by
    rw [← split8, ← split4, ← split2, ← split1]
    simp only [map_append, append_nil]
  refine ⟨refs, last, offsets8 ++ (offsets4 ++ (offsets2 ++ offsets1)), ?_, sound1, ?_, ?_, areReferences, ?_⟩
  · simp [layOut, put, shuffled8, shuffled4, shuffled2, shuffled1]
  · rw [placed1, placed2, placed4, placed8, offs, emp]
    simp only [nil_append, append_assoc]
  · rw [all, split]
  · intro o mem
    exact prims o.1 (all ▸ mem_map_of_mem mem)

theorem LayoutSound.begin (beg : Nat) : LayoutSound beg ⟨⟨beg, [], []⟩, [⟨beg, [], []⟩]⟩ := by
  have emp : LayoutInv beg ⟨beg, [], []⟩ := ⟨Nat.le_refl _, tiles_nil _, by simp, by simp⟩
  exact ⟨emp, by simpa using emp⟩

theorem linkFields_sound (perm : sorted.Perm fds) (ho : FieldsOrdered sorted)
    {link : LinkedFields} (ran : linkFields kl fds sorted = some link) : SoundLayout kl.firstOffset fds link := by
  obtain ⟨refs, last, rest, laidOut, hs, put, split, areReferences, prims⟩ :=
    layOut_spec ho (.begin kl.firstOffset) rfl
  have ends : link.state = last ∧ link.size = last.now.fieldOffset := by
    simp only [linkFields, laidOut, Option.bind_eq_bind, Option.bind_some, ne_eq, not_true_eq_false, if_false] at ran
    split at ran
    next => cases ran
    next =>
      split at ran
      next => cases ran
      next =>
        cases ran
        exact ⟨rfl, rfl⟩
  obtain ⟨rfl, size⟩ := ends
  refine ⟨?_, hs.now.aligned, ?_, ?_, ⟨refs, rest, put, areReferences, prims⟩, ?_⟩
  · have inOrder : link.state.now.placed.map Prod.fst = sorted := by
      rw [put, map_append, ← split]
      congr 1
      apply ext_getElem?
      intro i
      rw [List.getElem?_map, List.getElem?_mapIdx, Option.map_map]
      exact congrFun Option.map_id _
    rw [inOrder]
    exact perm
  · intro i j _ _ isOne one hit
    cases Nat.lt_or_gt_of_ne isOne with
    | inl less => exact hs.now.disjoint less one hit
    | inr more => exact (hs.now.disjoint more hit one).symm
  · rw [size]
    exact fun put => hs.now.inside
  · exact fun moment mem => (hs.log moment mem).tiles

theorem linkFields_returns (fds : List ArtField) (ho : FieldsOrdered sorted)
    (notReference : kl.isReferenceClass = false) (new : kl.previousSize = 0) :
    ∃ link, linkFields kl fds sorted = some link := by
  obtain ⟨_, _, _, laidOut, -⟩ := layOut_spec ho (.begin kl.firstOffset) rfl
  simp [linkFields, laidOut, notReference, new]

/-- Every field gets one aligned offset of its own behind the fields of the superclass, the references first and in
    consecutive slots, and placed fields and gaps partition the bytes laid out at every moment. The two checks that
    can stop `LinkFields` concern `java.lang.ref.Reference` and a class whose object size was set before. -/
theorem field_layout_sound (kl : FieldsClass) (fields sorted : List ArtField) (perm : sorted.Perm fields)
    (ordered : FieldsOrdered sorted) :
    (∀ linked, linkFields kl fields sorted = some linked → SoundLayout kl.firstOffset fields linked) ∧
      (kl.isReferenceClass = false → kl.previousSize = 0 → ∃ linked, linkFields kl fields sorted = some linked) :=
  ⟨fun _ ran => linkFields_sound perm ordered ran, linkFields_returns fields ordered⟩

/-- A subclass of a 9 byte object with a `boolean`, a reference, a `short` and a `long`, in the order of declaration. -/
def mixedFields : List ArtField :=
  [⟨"flag", .primBoolean, 0⟩, ⟨"next", .primNot, 1⟩, ⟨"count", .primShort, 2⟩, ⟨"total", .primLong, 3⟩]

def mixedSorted : List ArtField :=
  [⟨"next", .primNot, 1⟩, ⟨"total", .primLong, 3⟩, ⟨"count", .primShort, 2⟩, ⟨"flag", .primBoolean, 0⟩]

theorem field_layout_sound_mixed : (linkFields ⟨false, 0, some (9, true), false, false, 0⟩ mixedFields mixedSorted).map
        (fun linked => (linked.size, linked.state.now.placed.map Prod.snd)) = some (24, [12, 16, 10, 9]) ∧
      ∃ linked, SoundLayout 9 mixedFields linked := by
  have perm : mixedSorted.Perm mixedFields := by decide
  have ordered : FieldsOrdered mixedSorted := by decide
  have sound := field_layout_sound ⟨false, 0, some (9, true), false, false, 0⟩ mixedFields mixedSorted perm ordered
  obtain ⟨linked, ran⟩ := sound.2 rfl rfl
  exact ⟨by decide, linked, sound.1 linked ran⟩

end Aosp.Art
