import Mathlib.Algebra.Order.BigOperators.Group.Finset

/-! # Totals and shares

A counter kept as one total, while each of its owners keeps a share of it.
`Backs total share` says that no finite set of owners holds more than the
total; the owners may be infinitely many.  The lemmas say what total is enough
after one share has grown or has been taken out.
-/

namespace Aosp.Lib

open Finset

universe u

variable {α : Type u}

def Backs (total : Nat) (share : α → Nat) : Prop :=
  ∀ owners : Finset α, ∑ owner ∈ owners, share owner ≤ total

variable {total larger : Nat} {share changed : α → Nat}

theorem Backs.le (backs : Backs total share) (ow : α) : share ow ≤ total := by
  simpa using backs {ow}

theorem Backs.mono (backs : Backs total share) (less : ∀ ow, changed ow ≤ share ow)
    (fuel : total ≤ larger) : Backs larger changed := by
  intro ows
  calc ∑ ow ∈ ows, changed ow
      ≤ ∑ ow ∈ ows, share ow := sum_le_sum fun ow _ => less ow
    _ ≤ total := backs ows
    _ ≤ larger := fuel

theorem backs_zero (none : ∀ ow, share ow = 0) : Backs total share := by
  intro _
  simp [none]

variable [DecidableEq α] {one : α}

/-- One share grows, the others do not. -/
theorem Backs.add (backs : Backs total share) {amount : Nat}
    (rest : ∀ ow, ow ≠ one → changed ow ≤ share ow) (hg : changed one ≤ share one + amount)
    (fuel : total + amount ≤ larger) : Backs larger changed := by
  intro ows
  have tl : ∑ ow ∈ ows.erase one, changed ow ≤ ∑ ow ∈ ows.erase one, share ow :=
    sum_le_sum fun ow mem => rest ow (ne_of_mem_erase mem)
  by_cases mem : one ∈ ows
  · have pre := backs ows
    rw [← add_sum_erase ows share mem] at pre
    rw [← add_sum_erase ows changed mem]
    omega
  · rw [erase_eq_of_notMem mem] at tl
    have pre := backs ows
    omega

/-- What one owner takes along may be subtracted from the total. -/
theorem Backs.remove (backs : Backs total share) (rest : ∀ ow, ow ≠ one → changed ow ≤ share ow)
    (gone : changed one = 0) : Backs (total - share one) changed := by
  intro ows
  have pre := backs (insert one ows)
  rw [← add_sum_erase _ share (mem_insert_self one ows), erase_insert_eq_erase] at pre
  have tl : ∑ ow ∈ ows.erase one, changed ow ≤ ∑ ow ∈ ows.erase one, share ow :=
    sum_le_sum fun ow mem => rest ow (ne_of_mem_erase mem)
  have eq : ∑ ow ∈ ows.erase one, changed ow = ∑ ow ∈ ows, changed ow :=
    sum_erase ows gone
  omega

end Aosp.Lib
