import Mathlib.Data.Nat.ModEq
import Mathlib.Data.Set.Insert
import Mathlib.Tactic.Common

/-! # Hash tables with linear probing

A table of slots in which a value goes to the first empty slot from its home on,
around the end of the table.  A removed value leaves a mark, so that the values
behind it are still found.  `ProbeSound` is the invariant: from its home to its slot a
value meets no empty slot.  The loops run for at most one round (`none` if they
do not end in it); as long as a slot is empty they end.
-/

namespace Aosp.Lib

open List Nat

universe u

inductive Slot (α : Type u) where
  | empty
  | removed
  | full (v : α)
deriving DecidableEq

variable {α : Type u}

/-- The next slot, around the end. -/
def nextIndex (sz idx : Nat) : Nat :=
  if idx + 1 = sz then 0 else idx + 1

def probeAdd (sl : List (Slot α)) (v : α) : Nat → Nat → Option (List (Slot α))
  | 0, _ => none
  | fuel + 1, index =>
    match sl[index]? with
    | none => none
    | some .empty => some (sl.set index (.full v))
    | some _ => probeAdd sl v fuel (nextIndex sl.length index)

def probeRemove (sl : List (Slot α)) (wanted : α → Bool) : Nat → Nat → Option (Option α × List (Slot α))
  | 0, _ => none
  | fuel + 1, index =>
    match sl[index]? with
    | none => none
    | some .empty => some (none, sl)
    | some .removed => probeRemove sl wanted fuel (nextIndex sl.length index)
    | some (.full value) =>
      if wanted value then some (some value, sl.set index .removed)
      else probeRemove sl wanted fuel (nextIndex sl.length index)

/-- The slot after `distance` steps from `home`. -/
def probeIndex (sz home distance : Nat) : Nat := (home + distance) % sz

theorem nextIndex_probeIndex {sz : Nat} (ne : 0 < sz) (home dist : Nat) :
    nextIndex sz (probeIndex sz home dist) = probeIndex sz home (dist + 1) := by
  have small := mod_lt (home + dist) ne
  have step : (home + (dist + 1)) % sz = ((home + dist) % sz + 1) % sz := by
    rw [Nat.mod_add_mod, Nat.add_assoc]
  unfold nextIndex probeIndex
  rw [step]
  split
  next last => rw [last, mod_self]
  next => exact (mod_eq_of_lt (by omega)).symm

variable {idx : Nat} {v : α} {fl dist : Nat}

theorem exists_probeIndex {sz : Nat} (fits : idx < sz) (home : Nat) : ∃ dist < sz, probeIndex sz home dist = idx := by
  have small := mod_lt home (zero_lt_of_lt fits)
  refine ⟨(idx + sz - home % sz) % sz, mod_lt _ (zero_lt_of_lt fits), ?_⟩
  rw [probeIndex, add_mod_mod, ← mod_add_mod]
  rw [show home % sz + _ = idx + sz by omega, add_mod_right]
  exact mod_eq_of_lt fits

theorem probeIndex_inj {sz home i j : Nat} (hi : i < sz) (hj : j < sz)
    (eq : probeIndex sz home i = probeIndex sz home j) : i = j :=
  Nat.ModEq.eq_of_lt_of_lt (Nat.ModEq.add_left_cancel' home eq) hi hj

section Scan

variable {sl : List (Slot α)} {home : Nat}

theorem probeIndex_lt (ne : 0 < sl.length) (home dist : Nat) : probeIndex sl.length home dist < sl.length :=
  mod_lt _ ne

/-- One of the next `fl` slots is empty. -/
abbrev FreeAhead (sl : List (Slot α)) (home dist fl : Nat) : Prop :=
  ∃ late, dist ≤ late ∧ late < dist + fl ∧ sl[probeIndex sl.length home late]? = some .empty

theorem FreeAhead.next (free : FreeAhead sl home dist (fl + 1))
    (used : sl[probeIndex sl.length home dist]? ≠ some .empty) : FreeAhead sl home (dist + 1) fl := by
  obtain ⟨late, _, _, laterFree⟩ := free
  have past : dist ≠ late := fun eq => used (eq ▸ laterFree)
  exact ⟨late, by omega, by omega, laterFree⟩

theorem probeAdd_spec (ne : 0 < sl.length) (v : α) (free : FreeAhead sl home dist fl) :
    ∃ late < dist + fl, sl[probeIndex sl.length home late]? = some .empty ∧
      (∀ amid, dist ≤ amid → amid < late → sl[probeIndex sl.length home amid]? ≠ some .empty) ∧
      probeAdd sl v fl (probeIndex sl.length home dist) =
        some (sl.set (probeIndex sl.length home late) (.full v)) := by
  induction fl generalizing dist with
  | zero =>
    omega
  | succ fl ih =>
    by_cases empty : sl[probeIndex sl.length home dist]? = some .empty
    · exact ⟨dist, by omega, empty, fun amid _ _ => by omega, by simp [probeAdd, empty]⟩
    · obtain ⟨hf, _, foundFree, used, adds⟩ := ih (FreeAhead.next free empty)
      refine ⟨hf, by omega, foundFree, ?_, ?_⟩
      · intro amid _ toFound
        by_cases here : amid = dist
        · exact here ▸ empty
        · exact used amid (by omega) toFound
      · have fits := probeIndex_lt ne home dist
        rw [probeAdd, getElem?_eq_getElem fits]
        rw [getElem?_eq_getElem fits] at empty
        rw [nextIndex_probeIndex ne, adds]
        split
        next ha => cases ha
        next emptySlot => exact absurd emptySlot empty
        next => rfl

/-- The search ends at a wanted value or at an empty slot, whichever comes first. -/
theorem probeRemove_spec (ne : 0 < sl.length) (wanted : α → Bool) (free : FreeAhead sl home dist fl) :
    ∃ stop < dist + fl,
      (∀ amid v, dist ≤ amid → amid < stop →
        sl[probeIndex sl.length home amid]? = some (.full v) → wanted v = false) ∧
      ((sl[probeIndex sl.length home stop]? = some .empty ∧
          probeRemove sl wanted fl (probeIndex sl.length home dist) = some (none, sl)) ∨
        ∃ v, sl[probeIndex sl.length home stop]? = some (.full v) ∧ wanted v = true ∧
          probeRemove sl wanted fl (probeIndex sl.length home dist) =
            some (some v, sl.set (probeIndex sl.length home stop) .removed)) := by
  induction fl generalizing dist with
  | zero =>
    omega
  | succ fl ih =>
    have fits := probeIndex_lt ne home dist
    rw [probeRemove, nextIndex_probeIndex ne]
    cases here : sl[probeIndex sl.length home dist]? with
    | none => rw [getElem?_eq_getElem fits] at here; cases here
    | some slot =>
      cases slot with
      | empty => exact ⟨dist, by omega, fun amid v least low => by omega, .inl ⟨here, rfl⟩⟩
      | removed =>
        obtain ⟨stop, near, other, ends⟩ := ih (FreeAhead.next free (by rw [here]; nofun))
        refine ⟨stop, by omega, ?_, ends⟩
        intro amid v least low hf
        by_cases isHere : amid = dist
        · rw [isHere, here] at hf
          cases hf
        · exact other amid v (by omega) low hf
      | full v =>
        dsimp only
        by_cases isWanted : wanted v = true
        · rw [if_pos isWanted]
          exact ⟨dist, by omega, fun amid v least low => by omega, .inr ⟨v, here, isWanted, rfl⟩⟩
        · rw [if_neg isWanted]
          obtain ⟨stop, near, other, ends⟩ := ih (FreeAhead.next free (by rw [here]; nofun))
          refine ⟨stop, by omega, ?_, ends⟩
          intro amid o least low hf
          by_cases isHere : amid = dist
          · rw [isHere, here] at hf
            cases hf
            exact Bool.not_eq_true _ ▸ isWanted
          · exact other amid o (by omega) low hf

end Scan

/-! ## The invariant -/

def Slot.isEmpty : Slot α → Bool
  | .empty => true
  | _ => false

/-- The table holds the values of `contents`, each once and where it is found from its home. -/
structure ProbeSound (home : α → Nat) (sl : List (Slot α)) (contents : Set α) : Prop where
  mem : ∀ v, v ∈ contents ↔ ∃ idx : Nat, sl[idx]? = some (.full v)
  unique : ∀ (i j : Nat) (v : α), sl[i]? = some (.full v) → sl[j]? = some (.full v) → i = j
  chain : ∀ (idx : Nat) (v : α), sl[idx]? = some (.full v) →
    ∃ distance < sl.length, probeIndex sl.length (home v) distance = idx ∧
      ∀ pre < distance, sl[probeIndex sl.length (home v) pre]? ≠ some .empty

def ProbeOrdered [LT α] (home : α → Nat) (sl : List (Slot α)) : Prop :=
  ∀ (w : α), ∀ far < sl.length, sl[probeIndex sl.length (home w) far]? = some (.full w) → ∀ (v : α) (idx : Nat),
    v < w → home v = home w → sl[idx]? = some (.full v) → ∃ near < far, probeIndex sl.length (home w) near = idx

variable {home : α → Nat} {sl : List (Slot α)} {contents : Set α}

theorem probeSound_replicate (home : α → Nat) (sz : Nat) : ProbeSound home (replicate sz (.empty : Slot α)) ∅ := by
  have noValue : ∀ (idx : Nat) (v : α), (replicate sz (Slot.empty : Slot α))[idx]? ≠ some (.full v) := by
    intro idx v hf
    rw [getElem?_replicate] at hf
    split at hf
    next => cases hf
    next => cases hf
  exact ⟨fun v => ⟨False.elim, fun ⟨idx, hf⟩ => noValue idx v hf⟩,
    fun i _ v hf => absurd hf (noValue i v), fun idx v hf => absurd hf (noValue idx v)⟩

theorem exists_free (some_empty : 0 < sl.countP Slot.isEmpty) (beg : Nat) : FreeAhead sl beg 0 sl.length := by
  obtain ⟨slot, mem, isEmpty⟩ := countP_pos_iff.mp some_empty
  obtain ⟨idx, fits, rfl⟩ := getElem_of_mem mem
  obtain ⟨dist, _, entry⟩ := exists_probeIndex fits beg
  refine ⟨dist, zero_le _, by omega, ?_⟩
  rw [entry, getElem?_eq_getElem fits]
  cases slot : sl[idx] with
  | empty => rfl
  | removed => rw [slot] at isEmpty; cases isEmpty
  | full v => rw [slot] at isEmpty; cases isEmpty

theorem set_ne_empty {o : Nat} {slot : Slot α} (full : slot ≠ .empty) (used : sl[o]? ≠ some .empty) :
    (sl.set idx slot)[o]? ≠ some .empty := by
  rw [getElem?_set]
  split
  next =>
    split
    next => exact fun eq => full (Option.some.inj eq)
    next => exact fun eq => by cases eq
  next => exact used

theorem getElem?_set_full (free : sl[idx]? = some .empty) (i : Nat) (o : α) :
    (sl.set idx (.full v))[i]? = some (.full o) ↔ (i = idx ∧ o = v) ∨ sl[i]? = some (.full o) := by
  obtain ⟨fits, _⟩ := List.getElem?_eq_some_iff.mp free
  by_cases eq : idx = i
  · subst eq
    rw [getElem?_set_self fits, free]
    simp [eq_comm]
  · simp [eq, Ne.symm eq]

theorem getElem?_set_removed (ht : sl[idx]? = some (.full v)) (i : Nat) (o : α) :
    (sl.set idx .removed)[i]? = some (.full o) ↔ i ≠ idx ∧ sl[i]? = some (.full o) := by
  obtain ⟨fits, _⟩ := List.getElem?_eq_some_iff.mp ht
  by_cases eq : idx = i
  · subst eq
    simp [fits]
  · simp [eq, Ne.symm eq]

/-- The new value's slot is behind every value of its home, since it is the first empty one. -/
theorem ProbeOrdered.add [LinearOrder α] (ho : ProbeOrdered home sl) (hs : ProbeSound home sl contents)
    (last : ∀ o ∈ contents, o < v) (hf : dist < sl.length)
    (free : sl[probeIndex sl.length (home v) dist]? = some .empty) :
    ProbeOrdered home (sl.set (probeIndex sl.length (home v) dist) (.full v)) := by
  intro w far inside atFar o idx less eq atIdx
  rw [length_set] at inside atFar ⊢
  rw [getElem?_set_full free] at atFar atIdx
  have old : sl[idx]? = some (.full o) := by
    refine atIdx.resolve_left fun ⟨_, new⟩ => ?_
    obtain ⟨_, alsoNew⟩ | oldW := atFar
    · exact absurd less (new ▸ alsoNew ▸ lt_irrefl v)
    · exact lt_asymm less (new ▸ last w ((hs.mem w).mpr ⟨_, oldW⟩))
  obtain ⟨same, rfl⟩ | oldW := atFar
  · obtain ⟨near, _, entry, pre⟩ := hs.chain idx o old
    rw [eq] at entry pre
    rw [probeIndex_inj inside hf same]
    refine ⟨near, ?_, entry⟩
    by_contra hb
    obtain rfl | lower := eq_or_lt_of_not_gt hb
    · rw [← entry, free] at old
      cases old
    · exact pre dist lower free
  · exact ho w far inside oldW o idx less eq old

theorem ProbeOrdered.remove [LT α] (ho : ProbeOrdered home sl) (ht : sl[idx]? = some (.full v)) :
    ProbeOrdered home (sl.set idx .removed) := by
  intro w far inside atFar o i less eq atI
  rw [length_set] at inside atFar ⊢
  rw [getElem?_set_removed ht] at atFar atI
  exact ho w far inside atFar.2 o i less eq atI.2

theorem ProbeSound.add [LinearOrder α] (hs : ProbeSound home sl contents) (some_empty : 0 < sl.countP Slot.isEmpty)
    (new : v ∉ contents) :
    ∃ next, probeAdd sl v sl.length (home v % sl.length) = some next ∧
      ProbeSound home next (insert v contents) ∧ next.length = sl.length ∧
      next.countP Slot.isEmpty + 1 = sl.countP Slot.isEmpty ∧
      ((∀ o ∈ contents, o < v) → ProbeOrdered home sl → ProbeOrdered home next) := by
  have ne : 0 < sl.length := lt_of_lt_of_le some_empty countP_le_length
  obtain ⟨late, near, free, used, adds⟩ := probeAdd_spec ne v (exists_free some_empty _)
  have fits := probeIndex_lt ne (home v) late
  refine ⟨_, adds, ⟨?_, ?_, ?_⟩, length_set, ?_, fun last ho => ho.add hs last (by omega) free⟩
  · intro o
    simp only [getElem?_set_full free, exists_or, exists_and_right, exists_eq, true_and, ← hs.mem]
    rfl
  · intro i j o atI atJ
    rw [getElem?_set_full free] at atI atJ
    obtain ⟨rfl, rfl⟩ | oldI := atI
    · obtain ⟨rfl, _⟩ | oldJ := atJ
      · rfl
      · exact absurd ((hs.mem o).mpr ⟨j, oldJ⟩) new
    · obtain ⟨rfl, rfl⟩ | oldJ := atJ
      · exact absurd ((hs.mem o).mpr ⟨i, oldI⟩) new
      · exact hs.unique i j o oldI oldJ
  · intro idx o hf
    rw [length_set]
    rw [getElem?_set_full free] at hf
    obtain ⟨rfl, rfl⟩ | old := hf
    · exact ⟨late, by omega, rfl, fun prior less =>
        set_ne_empty (by simp) (used prior (zero_le _) less)⟩
    · obtain ⟨dist, near, entry, pre⟩ := hs.chain idx o old
      exact ⟨dist, near, entry, fun prior less => set_ne_empty (by simp) (pre prior less)⟩
  · rw [getElem?_eq_getElem fits] at free
    rw [countP_set fits, Option.some.inj free]
    simp only [Slot.isEmpty, if_true, Bool.false_eq_true, if_false]
    omega

theorem ProbeSound.remove [LT α] (hs : ProbeSound home sl contents) (some_empty : 0 < sl.countP Slot.isEmpty)
    {wanted : α → Bool} {beg : Nat} (sameHome : ∀ v ∈ contents, wanted v = true → home v = beg) :
    (probeRemove sl wanted sl.length (beg % sl.length) = some (none, sl) ∧ ∀ v ∈ contents, wanted v = false) ∨
      ∃ v next, probeRemove sl wanted sl.length (beg % sl.length) = some (some v, next) ∧
        v ∈ contents ∧ wanted v = true ∧ ProbeSound home next (contents \ {v}) ∧
        next.length = sl.length ∧ next.countP Slot.isEmpty = sl.countP Slot.isEmpty ∧
        (ProbeOrdered home sl → ProbeOrdered home next ∧ ∀ o ∈ contents, wanted o = true → ¬ o < v) := by
  have nonempty : 0 < sl.length := lt_of_lt_of_le some_empty countP_le_length
  obtain ⟨stop, near, other, ends⟩ := probeRemove_spec nonempty wanted (exists_free some_empty beg)
  obtain ⟨free, gone⟩ | ⟨v, ht, isWanted, hf⟩ := ends
  · refine .inl ⟨gone, fun v mem => ?_⟩
    rw [← Bool.not_eq_true]
    intro isWanted
    obtain ⟨idx, entry⟩ := (hs.mem v).mp mem
    obtain ⟨dist, _, index, pre⟩ := hs.chain idx v entry
    rw [sameHome v mem isWanted] at index pre
    rw [← index] at entry
    -- the empty slot is behind the value, which was therefore met
    have back : dist < stop := by
      by_contra notBehind
      by_cases eq : stop = dist
      · rw [← eq, free] at entry
        cases entry
      · exact pre stop (by omega) free
    rw [other dist v (zero_le _) back entry] at isWanted
    cases isWanted
  · have fits := probeIndex_lt nonempty beg stop
    have mem := (hs.mem v).mpr ⟨_, ht⟩
    refine .inr ⟨v, _, hf, mem, isWanted, ⟨?_, ?_, ?_⟩, length_set, ?_, fun ho => ⟨ho.remove ht, ?_⟩⟩
    · intro o
      simp only [getElem?_set_removed ht, Set.mem_sdiff, hs.mem]
      constructor
      · intro ⟨⟨idx, entry⟩, ne⟩
        refine ⟨idx, fun eq => ne ?_, entry⟩
        rw [eq, ht] at entry
        cases entry
        rfl
      · intro ⟨idx, far, entry⟩
        exact ⟨⟨idx, entry⟩, fun eq => far (hs.unique idx _ v (eq ▸ entry) ht)⟩
    · intro i j o atI atJ
      rw [getElem?_set_removed ht] at atI atJ
      exact hs.unique i j o atI.2 atJ.2
    · intro idx o entry
      rw [length_set]
      rw [getElem?_set_removed ht] at entry
      obtain ⟨dist, near, index, pre⟩ := hs.chain idx o entry.2
      exact ⟨dist, near, index, fun old less => set_ne_empty (by simp) (pre old less)⟩
    · rw [getElem?_eq_getElem fits] at ht
      rw [countP_set fits, Option.some.inj ht]
      simp [Slot.isEmpty]
    · intro o kept how less
      obtain ⟨idx, entry⟩ := (hs.mem o).mp kept
      have same := sameHome v mem isWanted
      rw [← same] at ht other
      obtain ⟨d, hd, rfl⟩ := ho v stop (by omega) ht o idx less (by rw [sameHome o kept how, same]) entry
      rw [other d o (zero_le _) hd entry] at how
      cases how

end Aosp.Lib
