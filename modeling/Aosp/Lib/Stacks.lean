import Mathlib.Data.List.Forall2

/-! # Call stacks of threads

A step of a thread changes the top of its own stack.  `Absent` and `Sole` say of
a kind of frame that no stack holds one, or that all stacks together hold exactly
one; the lemmas tell what is left of either when one stack changes.
-/

namespace Aosp.Lib

open Function

universe u

variable {F : Type u}

abbrev Stacks (F : Type u) := Nat → List F

/-- No stack holds a frame with `p`. -/
def Absent (p : F → Bool) (ths : Stacks F) : Prop :=
  ∀ thr, (ths thr).filter p = []

/-- The frame of the thread is the only one with `p` in all stacks. -/
def Sole (p : F → Bool) (ths : Stacks F) (thr : Nat) (fr : F) : Prop :=
  (ths thr).filter p = [fr] ∧ ∀ o, o ≠ thr → (ths o).filter p = []

variable {p : F → Bool} {ths : Stacks F} {th : Nat} {fr : F} {frs : List F} {cg : Nat} {R : F → F → Prop}

theorem Absent.update (ha : Absent p ths) (th : Nat) (none : frs.filter p = []) : Absent p (update ths th frs) := by
  intro o
  by_cases eq : o = th
  · rw [eq, update_self]
    exact none
  · rw [update_of_ne eq]
    exact ha o

theorem Absent.not_mem (ha : Absent p ths) (mem : fr ∈ ths th) : p fr = false := by
  have none := ha th
  rw [List.filter_eq_nil_iff] at none
  simpa using none fr mem

theorem Absent.sole (ha : Absent p ths) (one : frs.filter p = [fr]) : Sole p (Function.update ths th frs) th fr := by
  refine ⟨by rw [update_self]; exact one, ?_⟩
  intro o ne
  rw [update_of_ne ne]
  exact ha o

section

variable (sole : Sole p ths th fr)
include sole

theorem Sole.mem : fr ∈ ths th ∧ p fr = true := by
  have mem : fr ∈ (ths th).filter p := by rw [sole.1]; exact List.mem_singleton_self fr
  exact List.mem_filter.mp mem

theorem Sole.eq {o : Nat} {hf : F} (mem : hf ∈ ths o) (hh : p hf = true) : o = th ∧ hf = fr := by
  have kept : hf ∈ (ths o).filter p := List.mem_filter.mpr ⟨mem, hh⟩
  by_cases eq : o = th
  · rw [eq, sole.1] at kept
    exact ⟨eq, List.mem_singleton.mp kept⟩
  · rw [sole.2 o eq] at kept
    cases kept

/-- A change of one stack that keeps its frames with `p`. -/
theorem Sole.update (kept : frs.filter p = (ths cg).filter p) : Sole p (update ths cg frs) th fr := by
  have all : ∀ o, (Function.update ths cg frs o).filter p = (ths o).filter p := by
    intro o
    by_cases eq : o = cg
    · rw [eq, update_self, kept]
    · rw [update_of_ne eq]
  refine ⟨by rw [all]; exact sole.1, ?_⟩
  intro o ne
  rw [all]
  exact sole.2 o ne

/-- The frame with `p` becomes another one, in the same thread. -/
theorem Sole.replace {next : F} (one : frs.filter p = [next]) : Sole p (Function.update ths th frs) th next := by
  refine ⟨by rw [update_self]; exact one, ?_⟩
  intro o ne
  rw [update_of_ne ne]
  exact sole.2 o ne

theorem Sole.absent (none : frs.filter p = []) : Absent p (Function.update ths th frs) := by
  intro o
  by_cases eq : o = th
  · rw [eq, update_self]
    exact none
  · rw [update_of_ne eq]
    exact sole.2 o eq

/-- What is left of the stack when the one frame with `p` is on top. -/
theorem Sole.rest {top : F} {tl : List F} (st : ths th = top :: tl) (hh : p top = true) : tl.filter p = [] := by
  have kept := sole.1
  rw [st, List.filter_cons_of_pos hh] at kept
  exact (List.cons.inj kept).2

end

/-! A stack changes so that its frames with `p` stay in place, each related to what it was. -/

theorem Absent.change (ha : Absent p ths)
    (same : List.Forall₂ R ((ths cg).filter p) (frs.filter p)) : Absent p (Function.update ths cg frs) := by
  rw [ha cg, List.forall₂_nil_left_iff] at same
  exact ha.update cg same

theorem Sole.change (sole : Sole p ths th fr) (same : List.Forall₂ R ((ths cg).filter p) (frs.filter p)) :
    ∃ next, (next = fr ∨ R fr next) ∧ Sole p (Function.update ths cg frs) th next := by
  by_cases eq : cg = th
  · subst eq
    rw [sole.1, List.forall₂_cons_left_iff] at same
    obtain ⟨next, _, isNext, noOthers, one⟩ := same
    rw [List.forall₂_nil_left_iff.mp noOthers] at one
    exact ⟨next, .inr isNext, sole.replace one⟩
  · rw [sole.2 cg eq, List.forall₂_nil_left_iff] at same
    exact ⟨fr, .inl rfl, sole.update (same.trans (sole.2 cg eq).symm)⟩

end Aosp.Lib
