import Mathlib.Data.Fintype.Order
import Mathlib.Order.Filter.AtTopBot.Basic
import Mathlib.Order.Filter.Finite

/-! # When recursive calls end

`calls x y` says that handling `x` calls for `y`.  Where only finitely many things
are ever called for, the calls from `x` are well founded exactly if nothing reached
from `x` calls, directly or not, for itself.  A recursion that follows the calls then
ends at every depth from some depth on (`eventually_returns`).
-/

namespace Aosp.Lib

open Relation

variable {α : Type*} {cls : α → α → Prop} {x : α}

theorem not_transGen_of_acc (acc : Acc (fun y x => cls x y) x) : ¬ TransGen cls x x := by
  have closure : Acc _ x := acc.transGen
  induction closure with
  | intro x _ ih =>
    intro cycle
    exact ih x (transGen_swap.mpr cycle) acc cycle

theorem acc_of_reflTransGen {y : α} (acc : Acc (fun y x => cls x y) x) (met : ReflTransGen cls x y) :
    Acc (fun y x => cls x y) y := by
  induction met with
  | refl => exact acc
  | tail _ called ih => exact ih.inv called

section

variable {targets : Set α} (finite : targets.Finite) (fits : ∀ x y, cls x y → y ∈ targets)
include finite fits

theorem acc_of_acyclic (acyclic : ∀ y, ReflTransGen cls x y → ¬ TransGen cls y y) : Acc (fun y x => cls x y) x := by
  -- what is reached from `x` is `x` or a target, so the descent stays in a finite type
  have cap : {y | ReflTransGen cls x y} ⊆ insert x targets := by
    intro y met
    cases met.cases_tail with
    | inl eq => exact .inl eq
    | inr last =>
      obtain ⟨z, -, call⟩ := last
      exact .inr (fits z y call)
  have : Finite {y // ReflTransGen cls x y} := (finite.insert x).subset cap
  let low (a b : {y // ReflTransGen cls x y}) : Prop := TransGen cls b.1 a.1
  have : Std.Irrefl low := ⟨fun a cycle => acyclic a.1 a.2 cycle⟩
  have wellFounded : WellFounded low := Finite.wellFounded_of_trans_of_irrefl low
  have all : ∀ y : {y // ReflTransGen cls x y}, Acc (fun y x => cls x y) y.1 := by
    intro y
    induction y using wellFounded.induction with
    | _ y ih =>
      constructor
      intro z call
      exact ih ⟨z, y.2.tail call⟩ (.single call)
  exact all ⟨x, .refl⟩

theorem acc_iff_acyclic : Acc (fun y x => cls x y) x ↔ ∀ y, ReflTransGen cls x y → ¬ TransGen cls y y := by
  constructor
  · intro acc y met
    exact not_transGen_of_acc (acc_of_reflTransGen acc met)
  · exact acc_of_acyclic finite fits

end

/-- A call returns one level deeper than all the calls that it makes. -/
theorem eventually_returns {returns : Nat → α → Prop} (finite : ∀ x, {y | cls x y}.Finite)
    (step : ∀ depth x, (∀ y, cls x y → returns depth y) → returns (depth + 1) x)
    (acc : Acc (fun y x => cls x y) x) : ∀ᶠ depth in Filter.atTop, returns depth x := by
  induction acc with
  | intro x _ ih =>
    have call := (Filter.eventually_all_finite (finite x)).mpr ih
    obtain ⟨cap, call⟩ := Filter.eventually_atTop.mp call
    refine Filter.eventually_atTop.mpr ⟨cap + 1, ?_⟩
    intro depth deep
    obtain ⟨depth, rfl⟩ := Nat.exists_eq_add_of_lt (Nat.lt_of_lt_of_le (Nat.succ_pos cap) deep)
    rw [Nat.zero_add] at deep ⊢
    exact step depth x (call depth (Nat.le_of_succ_le_succ deep))

end Aosp.Lib
