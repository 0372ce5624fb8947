import Mathlib.Tactic.Common

/-! # Counted loops that may fail

A loop over `0, …, n - 1` whose body may fail is a fold over `List.range n` in
`Except`.  `foldlM_range_invariant` is the rule for invariants of such loops that
run to the end, `foldlM_range_exists` the one for loops that never fail.
-/

namespace Aosp.Lib

universe u v

variable {ε : Type u} {σ : Type v} {body : σ → Nat → Except ε σ} {Inv : Nat → σ → Prop} {first last : σ} {n : Nat}

theorem foldlM_range_succ (body : σ → Nat → Except ε σ) (first : σ) (n : Nat) :
    (List.range (n + 1)).foldlM body first = (List.range n).foldlM body first >>= fun mid => body mid n := by
  rw [List.range_succ]
  simp

theorem foldlM_range_invariant (beg : Inv 0 first)
    (turn : ∀ k mid next, k < n → Inv k mid → body mid k = .ok next → Inv (k + 1) next)
    (ran : (List.range n).foldlM body first = .ok last) : Inv n last := by
  induction n generalizing last with
  | zero =>
    cases ran
    exact beg
  | succ n ih =>
    rw [foldlM_range_succ] at ran
    cases pre : (List.range n).foldlM body first with
    | error _ =>
      rw [pre] at ran
      cases ran
    | ok mid =>
      rw [pre] at ran
      exact turn n mid last (Nat.lt_succ_self n) (ih
        (fun k mid next less => turn k mid next (Nat.lt_succ_of_lt less)) pre) ran

theorem foldlM_range_exists (beg : Inv 0 first)
    (turn : ∀ k mid, k < n → Inv k mid → ∃ next, body mid k = .ok next ∧ Inv (k + 1) next) :
    ∃ last, (List.range n).foldlM body first = .ok last ∧ Inv n last := by
  induction n with
  | zero => exact ⟨first, rfl, beg⟩
  | succ n ih =>
    obtain ⟨mid, pre, hh⟩ := ih fun k mid less => turn k mid (Nat.lt_succ_of_lt less)
    obtain ⟨last, post, done⟩ := turn n mid (Nat.lt_succ_self n) hh
    refine ⟨last, ?_, done⟩
    rw [foldlM_range_succ, pre]
    exact post

end Aosp.Lib
