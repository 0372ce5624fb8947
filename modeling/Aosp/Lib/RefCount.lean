import Mathlib.Algebra.BigOperators.Group.List.Basic
import Mathlib.Algebra.Order.Group.Nat
import Mathlib.Data.Nat.Cast.Order.Basic

/-! # Reference counts

Counts of references add up: to acquire one is to add one, and to release one is to
subtract one, which fails where there is none.  `releaseAll_eq_some_iff` is all that
is needed about an error path: what is released on it was held, no more and no less.
-/

namespace Aosp.Lib

/-- How many references there are to each object. -/
abbrev Counts (α : Type) : Type := α → Nat

namespace Counts

variable {α : Type} [DecidableEq α]

/-- One reference; none for a null pointer. -/
def one : Option α → Counts α
  | none => 0
  | some object => Pi.single object 1

def acquire (pointer : Option α) (cs : Counts α) : Counts α := cs + one pointer

/-- `none` if there is no reference to release. -/
def release : Option α → Counts α → Option (Counts α)
  | none, counts => some counts
  | some object, counts =>
    if counts object = 0 then none else some (Function.update counts object (counts object - 1))

def releaseAll : List (Option α) → Counts α → Option (Counts α)
  | [], counts => some counts
  | pointer :: pointers, counts => (release pointer counts).bind (releaseAll pointers)

def total (pointers : List (Option α)) : Counts α := (pointers.map one).sum

@[simp] theorem total_nil : total ([] : List (Option α)) = 0 := rfl

@[simp] theorem total_cons (ptr : Option α) (ptrs : List (Option α)) : total (ptr :: ptrs) = one ptr + total ptrs :=
  List.sum_cons

@[simp] theorem total_append (early late : List (Option α)) : total (early ++ late) = total early + total late := by
  rw [total, List.map_append, List.sum_append]
  rfl

@[simp] theorem one_none : one (none : Option α) = 0 := rfl

variable {ptr : Option α} {ptrs : List (Option α)}

theorem release_eq_some_iff {cs post : Counts α} : release ptr cs = some post ↔ cs = post + one ptr := by
  cases ptr with
  | none => simp [release]
  | some obj =>
    rw [release]
    constructor
    · intro released
      split at released
      · cases released
      next held =>
        cases released
        funext other
        by_cases eq : other = obj
        · subst eq
          simp only [one, Pi.add_apply, Function.update_self, Pi.single_eq_same]
          omega
        · simp [one, eq]
    · rintro rfl
      have held : (post + one (some obj)) obj ≠ 0 := by simp [one]
      rw [if_neg held]
      congr 1
      funext other
      by_cases eq : other = obj
      · subst eq
        simp [one]
      · simp [one, eq]

theorem releaseAll_eq_some_iff {cs post : Counts α} : releaseAll ptrs cs = some post ↔ cs = post + total ptrs := by
  induction ptrs generalizing cs with
  | nil => simp [releaseAll]
  | cons _ ptrs ih =>
    rw [releaseAll, Option.bind_eq_some_iff]
    simp only [release_eq_some_iff, ih, total_cons]
    constructor
    · rintro ⟨_, rfl, rfl⟩
      rw [add_assoc, add_comm (total ptrs)]
    · rintro rfl
      exact ⟨post + total ptrs, by rw [add_assoc, add_comm (total ptrs)], rfl⟩

theorem one_eq_zero_iff : one ptr = 0 ↔ ptr = none := by
  cases ptr with
  | none => simp
  | some obj =>
    refine iff_of_false (fun zero => ?_) (by simp)
    have at_ := congrFun zero obj
    simp [one] at at_

theorem total_eq_zero_iff : total ptrs = 0 ↔ ∀ ptr ∈ ptrs, ptr = none := by
  induction ptrs with
  | nil => simp
  | cons ptr ptrs ih =>
    rw [total_cons, List.forall_mem_cons, ← ih, ← one_eq_zero_iff]
    constructor
    · intro zero
      have both : ∀ obj, one ptr obj = 0 ∧ total ptrs obj = 0 := by
        intro obj
        have sum := congrFun zero obj
        simpa using sum
      exact ⟨funext fun obj => (both obj).1, funext fun obj => (both obj).2⟩
    · rintro ⟨first, tl⟩
      rw [first, tl, add_zero]

theorem exists_total_eq_add_one (mem : ptr ∈ ptrs) : ∃ rest, total ptrs = rest + one ptr := by
  obtain ⟨early, late, rfl⟩ := List.append_of_mem mem
  refine ⟨total early + total late, ?_⟩
  rw [total_append, total_cons, add_assoc, add_comm (one ptr)]

end Counts

end Aosp.Lib
