import Aosp.Lib.Run
import Mathlib.Data.List.Induction
import Mathlib.Data.List.Nodup

/-! # Flattened hierarchies

`above a` lists what stands above `a` in a hierarchy.  A list is flattened if it
holds no element twice and every element behind all that is above it.  Merging
flattened lists one element after the other, and leaving out what is there
already, keeps the list flattened (`Flattened.merge`).
-/

namespace Aosp.Lib

open List

universe u

variable {α : Type u}

structure Flattened (above : α → List α) (l : List α) : Prop where
  nodup : l.Nodup
  behind : EachAfter (fun pre a => ∀ b ∈ above a, b ∈ pre) l

variable {high : α → List α}

theorem flattened_nil : Flattened high [] :=
  ⟨nodup_nil, eachAfter_nil _⟩

variable {l : List α} {a : α} {b : α}

theorem flattened_snoc : Flattened high (l ++ [a]) ↔ Flattened high l ∧ a ∉ l ∧ ∀ b ∈ high a, b ∈ l := by
  constructor
  · intro flat
    obtain ⟨nodup, _, disjoint⟩ := nodup_append.mp flat.nodup
    obtain ⟨back, last⟩ := eachAfter_snoc.mp flat.behind
    exact ⟨⟨nodup, back⟩, fun mem => disjoint a mem a mem_cons_self rfl, last⟩
  · intro ⟨flat, new, hp⟩
    have far : ∀ b ∈ l, ∀ c ∈ [a], b ≠ c := by
      intro b mem c single eq
      rw [mem_singleton.mp single] at eq
      exact new (eq ▸ mem)
    exact ⟨nodup_append.mpr ⟨flat.nodup, nodup_singleton a, far⟩, eachAfter_snoc.mpr ⟨flat.behind, hp⟩⟩

theorem Flattened.closed (flat : Flattened high l) (mem : a ∈ l) (more : b ∈ high a) : b ∈ l := by
  obtain ⟨pre, post, rfl⟩ := append_of_mem mem
  exact mem_append_left _ (flat.behind pre a post rfl b more)

/-- What is above an element stands at a smaller place. -/
theorem Flattened.precedes (flat : Flattened high l) {i j : Nat} (spot : l[i]? = some a)
    (higherPlace : l[j]? = some b) (more : b ∈ high a) : j < i := by
  obtain ⟨_, rfl⟩ := List.getElem?_eq_some_iff.mp spot
  have split : l = l.take i ++ l[i] :: l.drop (i + 1) := by
    rw [getElem_cons_drop, take_append_drop]
  have pre := flat.behind _ _ _ split b more
  obtain ⟨k, _, hf⟩ := mem_take_iff_getElem.mp pre
  obtain ⟨_, atHigher⟩ := List.getElem?_eq_some_iff.mp higherPlace
  have eq : k = j := (flat.nodup.getElem_inj_iff).mp (hf.trans atHigher.symm)
  omega

theorem flattened_of_precedes (nodup : l.Nodup) (shut : ∀ a ∈ l, ∀ b ∈ high a, b ∈ l)
    (precedes : ∀ (i j : Nat) (a b : α), l[i]? = some a → l[j]? = some b → b ∈ high a → j < i) : Flattened high l := by
  refine ⟨nodup, ?_⟩
  intro pre a _ split b more
  subst split
  have mem := shut a (by simp) b more
  obtain ⟨j, hf⟩ := mem_iff_getElem?.mp mem
  have less := precedes pre.length j a b (by simp) hf more
  rw [List.getElem?_append_left less] at hf
  exact mem_of_getElem? hf

/-- Nothing in a flattened list is above itself. -/
theorem Flattened.irrefl (flat : Flattened high l) (mem : a ∈ l) : a ∉ high a := by
  intro more
  obtain ⟨i, hf⟩ := mem_iff_getElem?.mp mem
  exact Nat.lt_irrefl i (flat.precedes hf hf more)

section Merge

variable [DecidableEq α]

def addNew (l : List α) (a : α) : List α :=
  if a ∈ l then l else l ++ [a]

variable {l more : List α} {a : α}

theorem addNew_of_mem (mem : a ∈ l) : addNew l a = l :=
  if_pos mem

theorem addNew_of_notMem (new : a ∉ l) : addNew l a = l ++ [a] :=
  if_neg new

theorem mem_addNew : b ∈ addNew l a ↔ b ∈ l ∨ b = a := by
  unfold addNew
  split
  next mem => exact ⟨.inl, fun either => either.elim id fun eq => eq ▸ mem⟩
  next => simp

theorem addNew_extends (l : List α) (a : α) : l <+: addNew l a := by
  unfold addNew
  split
  next => exact prefix_refl l
  next => exact prefix_append l [a]

theorem length_addNew_le (l : List α) (a : α) : (addNew l a).length ≤ l.length + 1 := by
  unfold addNew
  split
  next => exact Nat.le_succ _
  next => simp

theorem Flattened.addNew (flat : Flattened high l) (hp : ∀ b ∈ high a, b ∈ l) : Flattened high (addNew l a) := by
  unfold Lib.addNew
  split
  next => exact flat
  next new => exact flattened_snoc.mpr ⟨flat, new, hp⟩

theorem mem_foldl_addNew : b ∈ more.foldl Lib.addNew l ↔ b ∈ l ∨ b ∈ more := by
  induction more generalizing l with
  | nil => simp
  | cons a more ih => simp [ih, mem_addNew, or_assoc]

theorem foldl_addNew_of_subset (subset : ∀ a ∈ more, a ∈ l) : more.foldl Lib.addNew l = l := by
  induction more with
  | nil => rfl
  | cons a more ih =>
    rw [foldl_cons, addNew_of_mem (subset a mem_cons_self)]
    exact ih fun b mem => subset b (mem_cons_of_mem _ mem)

theorem foldl_addNew_extends (l more : List α) : l <+: more.foldl Lib.addNew l := by
  induction more generalizing l with
  | nil => exact prefix_refl l
  | cons a more ih =>
    exact (addNew_extends l a).trans (ih _)

theorem length_foldl_addNew_le (l more : List α) : (more.foldl Lib.addNew l).length ≤ l.length + more.length := by
  induction more generalizing l with
  | nil => simp
  | cons a more ih =>
    have first := length_addNew_le l a
    have late := ih (Lib.addNew l a)
    simp only [foldl_cons, length_cons]
    omega

theorem Flattened.merge (flat : Flattened high l) (moreFlattened : Flattened high more) :
    Flattened high (more.foldl Lib.addNew l) := by
  induction more using List.reverseRecOn with
  | nil => exact flat
  | append_singleton more a ih =>
    obtain ⟨old, _, hp⟩ := flattened_snoc.mp moreFlattened
    rw [foldl_append]
    exact (ih old).addNew fun b higher => mem_foldl_addNew.mpr (.inr (hp b higher))

end Merge

end Aosp.Lib
