import Mathlib.Data.Finset.Card

/-! # Bitmaps

A bitmap of a given size, the search for its next clear bit, and the number of its
clear bits, which changes by one with each bit that is set or cleared.
-/

namespace Aosp.Lib

open Function (update update_eq_self update_idem update_of_ne update_self)

abbrev Bitmap : Type := Nat → Bool

namespace Bitmap

variable {bits : Bitmap} {sz bit : Nat}

/-- The first clear bit from `off` on, or `sz`. -/
def findNextZeroBit (bits : Bitmap) (sz off : Nat) : Nat :=
  ((List.range' off (sz - off)).find? fun bit => !bits bit).getD sz

theorem findNextZeroBit_clear {off : Nat} (hi : findNextZeroBit bits sz off < sz) :
    bits (findNextZeroBit bits sz off) = false := by
  rw [findNextZeroBit] at hi ⊢
  cases hf : (List.range' off _).find? fun bit => !bits bit with
  | none => simp [hf] at hi
  | some bit => simpa using List.find?_some hf

def zeros (sz : Nat) (bits : Bitmap) : Nat :=
  ((Finset.range sz).filter fun bit => bits bit = false).card

theorem zeros_empty (sz : Nat) : zeros sz (fun _ => false) = sz := by
  simp [zeros]

theorem zeros_set (hi : bit < sz) (isClear : bits bit = false) :
    zeros sz (update bits bit true) + 1 = zeros sz bits := by
  have gone : (Finset.range sz).filter (fun o => update bits bit true o = false) =
      ((Finset.range sz).filter fun o => bits o = false).erase bit := by
    ext o
    by_cases eq : o = bit
    · simp [eq]
    · simp [eq]
  rw [zeros, gone]
  exact Finset.card_erase_add_one (by simp [hi, isClear])

theorem zeros_clear (hi : bit < sz) (set : bits bit = true) :
    zeros sz (update bits bit false) = zeros sz bits + 1 := by
  have undone : update (update bits bit false) bit true = bits := by
    rw [update_idem, ← set, update_eq_self]
  have hc := zeros_set hi (update_self bit false bits)
  rw [undone] at hc
  exact hc.symm

end Bitmap

end Aosp.Lib
