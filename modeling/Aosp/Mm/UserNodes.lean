import Mathlib.Data.List.Intervals

/-! # Node masks from user space

Model of `get_nodes` of `mm/mempolicy.c`, for any size of a long, of a page and of the
kernel's masks.  A bit of the user's mask that is beyond the last long of a kernel mask is
refused (`getNodes_spec`); one between `MAX_NUMNODES` and the end of that long is not.
-/

namespace Aosp.Mm

open List Nat

def EFAULT : Int := 14

def EINVAL : Int := 22

/-- `MAX_NUMNODES`, `sizeof(long)`, and `PAGE_SIZE` in longs. -/
structure MaskSizes where
  maxNumnodes : Nat
  longBytes : Nat
  pageLongs : Nat
  maxPos : 0 < maxNumnodes
  longPos : 0 < longBytes

namespace MaskSizes

variable (sizes : MaskSizes)

def bitsPerLong : Nat := sizes.longBytes * 8

def pageSize : Nat := sizes.pageLongs * sizes.longBytes

def bitsToLongs (nr : Nat) : Nat := (nr + sizes.bitsPerLong - 1) / sizes.bitsPerLong

abbrev Word : Type := BitVec sizes.bitsPerLong

def endmask (maxnode : Nat) : sizes.Word :=
  if maxnode % sizes.bitsPerLong = 0 then ~~~0 else ((1 : sizes.Word) <<< (maxnode % sizes.bitsPerLong)) - 1

end MaskSizes

variable {sizes : MaskSizes}

def testBit (mask : Nat → sizes.Word) (bit : Nat) : Bool :=
  (mask (bit / sizes.bitsPerLong)).getLsbD (bit % sizes.bitsPerLong)

/-- `nmask` is null or has the longs that can be read. -/
def getNodes (nmask : Option (Nat → Option sizes.Word)) (maxnode : sizes.Word) : Except Int (Nat → sizes.Word) :=
  let maxnode := (maxnode - 1).toNat
  match nmask with
  | none => .ok fun _ => 0
  | some nmask =>
    if maxnode = 0 then .ok fun _ => 0
    else if maxnode > sizes.pageSize * 8 then .error (-EINVAL)
    else
      let nlongs := sizes.bitsToLongs maxnode
      let supported := sizes.bitsToLongs sizes.maxNumnodes
      if nlongs > supported then
        if nlongs > sizes.pageSize / sizes.longBytes then .error (-EINVAL)
        else
          match (Ico supported nlongs).findSome? fun k =>
            match nmask k with
            | none => some (-EFAULT)
            | some t =>
              if (if k = nlongs - 1 then t &&& sizes.endmask maxnode else t) ≠ 0 then some (-EINVAL) else none with
          | some err => .error err
          | none => copyNodes nmask supported (~~~0)
      else copyNodes nmask nlongs (sizes.endmask maxnode)
where
  copyNodes (nmask : Nat → Option sizes.Word) (nlongs : Nat) (endmask : sizes.Word) :
      Except Int (Nat → sizes.Word) :=
    if (Ico 0 nlongs).any fun k => (nmask k).isNone then .error (-EFAULT)
    else .ok fun k =>
      if k < nlongs then
        let word := (nmask k).getD 0
        if k = nlongs - 1 then word &&& endmask else word
      else 0

theorem MaskSizes.bits_pos (sizes : MaskSizes) : 0 < sizes.bitsPerLong := Nat.mul_pos sizes.longPos (by decide)

theorem bitsToLongs_spec {maxnode : Nat} (pos : 0 < maxnode) : ∃ last, sizes.bitsToLongs maxnode = last + 1 ∧
    last * sizes.bitsPerLong < maxnode ∧ maxnode ≤ (last + 1) * sizes.bitsPerLong := by
  have bits := sizes.bits_pos
  refine ⟨(maxnode - 1) / sizes.bitsPerLong, ?_, ?_, ?_⟩
  · rw [MaskSizes.bitsToLongs, ← add_div_right _ bits]
    congr 1
    omega
  · have := div_mul_le_self (maxnode - 1) sizes.bitsPerLong
    omega
  · have := lt_mul_div_succ (maxnode - 1) bits
    rw [Nat.mul_comm] at this
    omega

theorem getLsbD_low {w n bit : Nat} (lt : n < w) : ((1#w <<< n) - 1#w).getLsbD bit = decide (bit < n) := by
  have power := Nat.pow_lt_pow_right (by decide : 1 < 2) lt
  have pos := Nat.two_pow_pos n
  have low : (1#w <<< n - 1#w).toNat = 2 ^ n - 1 := by
    rw [BitVec.toNat_sub, BitVec.toNat_shiftLeft, BitVec.toNat_ofNat, Nat.mod_eq_of_lt (show 1 < 2 ^ w by omega),
      Nat.shiftLeft_eq, Nat.one_mul, Nat.mod_eq_of_lt power,
      show 2 ^ w - 1 + 2 ^ n = 2 ^ w + (2 ^ n - 1) by omega, Nat.add_mod_left, Nat.mod_eq_of_lt (by omega)]
  rw [BitVec.getLsbD, low, Nat.testBit_two_pow_sub_one]

section LastLong

variable {maxnode last supported : Nat} (lower : last * sizes.bitsPerLong < maxnode)
  (upper : maxnode ≤ (last + 1) * sizes.bitsPerLong)
include lower upper

/-- The last long has the bits below `maxnode` left, the others have no other ones. -/
theorem getLsbD_word {k bit : Nat} (le : k ≤ last) (hi : bit < sizes.bitsPerLong) (word : sizes.Word) :
    (if k = last then word &&& sizes.endmask maxnode else word).getLsbD bit =
      (decide (k * sizes.bitsPerLong + bit < maxnode) && word.getLsbD bit) := by
  rw [add_one_mul] at upper
  split
  next eq =>
    subst eq
    obtain ⟨tl, rfl⟩ := Nat.exists_eq_add_of_lt lower
    rw [BitVec.getLsbD_and, Bool.and_comm, MaskSizes.endmask, Nat.add_assoc, Nat.mul_add_mod_self_right]
    congr 1
    rcases lt_or_ge _ sizes.bitsPerLong with small | full
    · rw [mod_eq_of_lt small]
      exact (@getLsbD_low _ _ bit small).trans (decide_eq_decide.mpr (by omega))
    · rw [show tl + 1 = sizes.bitsPerLong by omega]
      simp [hi]
  next o =>
    have := mul_le_mul_right sizes.bitsPerLong (show k + 1 ≤ last by omega)
    rw [add_one_mul] at this
    simp [show k * sizes.bitsPerLong + bit < maxnode by omega]

variable (nmask : Nat → sizes.Word)

theorem word_eq_zero_iff {k : Nat} (le : k ≤ last) :
    (if k = last then nmask k &&& sizes.endmask maxnode else nmask k) = 0 ↔
      ∀ bit < maxnode, bit / sizes.bitsPerLong = k → testBit nmask bit = false := by
  constructor
  · rintro zero bit lt rfl
    have low := getLsbD_word lower upper le (Nat.mod_lt bit sizes.bits_pos) (nmask (bit / sizes.bitsPerLong))
    rw [zero, Nat.div_add_mod'] at low
    simpa [lt, testBit] using low.symm
  · intro clean
    refine BitVec.eq_of_getLsbD_eq fun bit hi => ?_
    have unset := clean (k * sizes.bitsPerLong + bit)
    rw [testBit, Nat.mul_comm k, Nat.mul_add_div sizes.bits_pos, Nat.div_eq_of_lt hi, Nat.mul_add_mod,
      Nat.mod_eq_of_lt hi] at unset
    rw [getLsbD_word lower upper le hi, Nat.mul_comm k]
    simpa using unset

/-- The loop over the longs that are not supported finds nothing iff they have no bit. -/
theorem check_eq_none_iff (err : Int) : ((Ico supported (last + 1)).findSome? fun k =>
      if (if k = last then nmask k &&& sizes.endmask maxnode else nmask k) ≠ 0 then some err else none) = none ↔
    ¬ ∃ bit < maxnode, supported * sizes.bitsPerLong ≤ bit ∧ testBit nmask bit = true := by
  simp only [findSome?_eq_none_iff, Ico.mem, ite_not, ite_eq_left_iff, reduceCtorEq, imp_false, not_not]
  constructor
  · rintro zero ⟨bit, lt, far, set⟩
    have le : bit / sizes.bitsPerLong < last + 1 := Nat.div_lt_of_lt_mul (by rw [Nat.mul_comm]; omega)
    have clean := (word_eq_zero_iff lower upper nmask (Nat.le_of_lt_succ le)).mp
      (zero _ ⟨(Nat.le_div_iff_mul_le sizes.bits_pos).mpr far, le⟩)
    simp [clean bit lt rfl] at set
  · intro clean k mem
    refine (word_eq_zero_iff lower upper nmask (Nat.le_of_lt_succ mem.2)).mpr ?_
    rintro bit lt rfl
    refine Bool.eq_false_iff.mpr fun set => clean ⟨bit, lt, ?_, set⟩
    exact (Nat.le_div_iff_mul_le sizes.bits_pos).mp mem.1

end LastLong

theorem testBit_copied (nmask : Nat → sizes.Word) (nlongs : Nat) (endmask : sizes.Word) :
    ∃ nds, getNodes.copyNodes (fun k => some (nmask k)) nlongs endmask = .ok nds ∧
      ∀ bit, testBit nds bit = (decide (bit / sizes.bitsPerLong < nlongs) &&
        (if bit / sizes.bitsPerLong = nlongs - 1 then nmask (bit / sizes.bitsPerLong) &&& endmask
          else nmask (bit / sizes.bitsPerLong)).getLsbD (bit % sizes.bitsPerLong)) := by
  refine ⟨_, by simp [getNodes.copyNodes]; rfl, fun bit => ?_⟩
  dsimp only [testBit]
  split <;> simp_all

def Refused (nmask : Nat → sizes.Word) (maxnode supported : Nat) : Prop :=
  sizes.pageSize * 8 < maxnode ∨ ∃ bit < maxnode, supported ≤ bit ∧ testBit nmask bit = true

theorem getNodes_spec (nmask : Nat → sizes.Word) (maxnode : sizes.Word) :
    match getNodes (some fun k => some (nmask k)) maxnode with
    | .error err => err = -EINVAL ∧ Refused nmask (maxnode - 1).toNat
        (sizes.bitsToLongs sizes.maxNumnodes * sizes.bitsPerLong)
    | .ok nds => ¬ Refused nmask (maxnode - 1).toNat (sizes.bitsToLongs sizes.maxNumnodes * sizes.bitsPerLong) ∧
      ∀ bit, testBit nds bit = (decide (bit < (maxnode - 1).toNat) && testBit nmask bit) := by
  rw [getNodes]
  generalize (maxnode - 1).toNat = maxnode
  generalize sizes.bitsToLongs sizes.maxNumnodes = supported
  dsimp only
  by_cases emp : maxnode = 0
  · simp [emp, testBit, Refused]
  rw [if_neg emp]
  by_cases large : maxnode > sizes.pageSize * 8
  · rw [if_pos large]
    exact ⟨rfl, .inl large⟩
  obtain ⟨last, lastWord, lower, upper⟩ := @bitsToLongs_spec sizes maxnode (by omega)
  have inLast : ∀ bit < maxnode, bit / sizes.bitsPerLong < last + 1 := fun bit lt =>
    Nat.div_lt_of_lt_mul (by rw [Nat.mul_comm]; omega)
  have long := fun k bit => @Nat.le_div_iff_mul_le sizes.bitsPerLong k bit sizes.bits_pos
  rw [if_neg large, lastWord, Nat.add_sub_cancel]
  by_cases more : last + 1 > supported
  · have pages : ¬ last + 1 > sizes.pageSize / sizes.longBytes := by
      rw [MaskSizes.pageSize, Nat.mul_assoc] at large
      rw [MaskSizes.pageSize, Nat.mul_div_cancel _ sizes.longPos]
      exact Nat.not_lt.mpr (Nat.lt_of_mul_lt_mul_right (lower.trans_le (Nat.not_lt.mp large)))
    rw [if_pos more, if_neg pages]
    have clean := @check_eq_none_iff sizes maxnode last supported lower upper nmask (-EINVAL)
    cases check : findSome? _ (Ico supported (last + 1)) with
    | some err =>
      obtain ⟨_, -, isErr⟩ := exists_of_findSome?_eq_some check
      refine ⟨(Option.some.inj (Option.ite_none_right_eq_some.mp isErr).2).symm, .inr ?_⟩
      by_contra none
      rw [clean.mpr none] at check
      cases check
    | none =>
      -- what is not copied has no bit below `maxnode`
      have clean := clean.mp check
      obtain ⟨nds, copy, bits⟩ := testBit_copied nmask supported (~~~0)
      simp only [copy]
      refine ⟨(·.elim large clean), fun bit => ?_⟩
      rw [bits]
      by_cases near : bit / sizes.bitsPerLong < supported
      · have := Nat.mul_le_mul_right sizes.bitsPerLong (show bit / sizes.bitsPerLong + 1 ≤ last by omega)
        have := Nat.lt_mul_div_succ bit sizes.bits_pos
        rw [Nat.mul_comm] at this
        simp [near, show bit < maxnode by omega, testBit]
      · have : bit < maxnode → testBit nmask bit = false := fun lt =>
          Bool.eq_false_iff.mpr fun set => clean ⟨bit, lt, (long _ bit).mp (Nat.not_lt.mp near), set⟩
        simpa [near] using this
  · -- all longs of the mask are copied, the last one without the bits from `maxnode` on
    rw [if_neg more]
    obtain ⟨nds, copy, bits⟩ := testBit_copied nmask (last + 1) (sizes.endmask maxnode)
    simp only [copy]
    constructor
    · rintro (_ | ⟨bit, lt, far, -⟩)
      · exact large ‹_›
      · have := inLast bit lt
        have := (long _ bit).mpr far
        omega
    · intro bit
      rw [bits, Nat.add_sub_cancel]
      by_cases lt : bit / sizes.bitsPerLong < last + 1
      · rw [getLsbD_word lower upper (Nat.le_of_lt_succ lt) (Nat.mod_lt bit sizes.bits_pos), Nat.div_add_mod']
        simp [lt, testBit]
      · simp [lt, show ¬ bit < maxnode from fun less => lt (inLast bit less)]

/-- Exactly the bits below `maxnode - 1` are returned, or an error exactly if one is not
    supported. -/
def Decoded (nmask : Nat → sizes.Word) (maxnode : sizes.Word) : Prop :=
  match getNodes (some fun k => some (nmask k)) maxnode with
  | .error err => err = -EINVAL ∧ Refused nmask (maxnode - 1).toNat sizes.maxNumnodes
  | .ok nodes => ¬ Refused nmask (maxnode - 1).toNat sizes.maxNumnodes ∧
      (∀ bit, testBit nodes bit = (decide (bit < (maxnode - 1).toNat) && testBit nmask bit)) ∧
      ∀ bit, testBit nodes bit = true → bit < sizes.maxNumnodes

/-- No bit is set between `MAX_NUMNODES` and the end of its last long, or the mask is refused
    for another reason. -/
theorem get_nodes_exact (nmask : Nat → sizes.Word) (maxnode : sizes.Word) :
    Decoded nmask maxnode ↔
      (∀ bit < (maxnode - 1).toNat, sizes.maxNumnodes ≤ bit →
        bit < sizes.bitsToLongs sizes.maxNumnodes * sizes.bitsPerLong → testBit nmask bit = false) ∨
      Refused nmask (maxnode - 1).toNat (sizes.bitsToLongs sizes.maxNumnodes * sizes.bitsPerLong) := by
  have spec := getNodes_spec nmask maxnode
  obtain ⟨_, isLast, -, upper⟩ := @bitsToLongs_spec sizes sizes.maxNumnodes sizes.maxPos
  rw [← isLast] at upper
  unfold Decoded
  split at spec
  · -- what is beyond the last long is beyond `MAX_NUMNODES`
    refine iff_of_true ⟨spec.1, spec.2.imp_right ?_⟩ (.inr spec.2)
    rintro ⟨bit, lt, far, set⟩
    exact ⟨bit, lt, upper.trans far, set⟩
  · obtain ⟨accepted, bits⟩ := spec
    constructor
    · rintro ⟨clean, -⟩
      refine .inl fun bit lt past _ => Bool.eq_false_iff.mpr fun set => clean (.inr ⟨bit, lt, past, set⟩)
    · intro ok
      have clean := ok.resolve_right accepted
      have below : ∀ bit < (maxnode - 1).toNat, testBit nmask bit = true → bit < sizes.maxNumnodes := by
        intro bit lt set
        by_contra past
        refine accepted (.inr ⟨bit, lt, not_lt.mp fun near => ?_, set⟩)
        simp [clean bit lt (not_lt.mp past) near] at set
      refine ⟨?_, bits, fun bit set => ?_⟩
      · rintro (large | ⟨bit, lt, past, set⟩)
        · exact accepted (.inl large)
        · exact absurd (below bit lt set) (not_lt.mpr past)
      · rw [bits, Bool.and_eq_true, decide_eq_true_eq] at set
        exact below bit set.1 set.2

def fourNodes : MaskSizes := ⟨4, 8, 512, by decide, by decide⟩

/-- Node 5 is accepted. -/
theorem get_nodes_past_max :
    ∃ nodes, getNodes (some fun _ => some (32 : fourNodes.Word)) 65 = .ok nodes ∧ testBit nodes 5 = true :=
  ⟨_, rfl, by decide⟩

end Aosp.Mm
