import Mathlib.Order.WellFounded

/-! # Fair runs

An infinite run in which one label is not passed over for ever while it can be
taken.  If that label makes progress towards a goal, measured in a well-founded
order, and the other labels lose none, the goal is reached
(`FairRun.eventually`).
-/

namespace Aosp.Lib

universe u v w

variable {σ : Type u} {α : Type v} {β : Type w}

structure FairRun (next : σ → α → Option σ) (helpful : α) (states : Nat → σ) (labels : Nat → α) : Prop where
  step : ∀ i, next (states i) (labels i) = some (states (i + 1))
  fair : ∀ i, ∃ j, i ≤ j ∧ (labels j = helpful ∨ next (states j) helpful = none)

variable {next : σ → α → Option σ} {helpful : α} {sts : Nat → σ} {labs : Nat → α} {I : σ → Prop} {P : σ → Prop}

section

variable (run : FairRun next helpful sts labs)
include run

/-- What holds at the start and is kept by every step holds all the time. -/
theorem FairRun.always {i : Nat} (beg : I (sts i))
    (kept : ∀ s a t, I s → next s a = some t → I t) {j : Nat} (late : i ≤ j) : I (sts j) := by
  induction late with
  | refl => exact beg
  | step _ ih => exact kept _ _ _ ih (run.step _)

variable {measure : σ → β} (he : ∀ s, I s → ¬ P s → next s helpful ≠ none)
  (rest : ∀ s a t, I s → ¬ P s → next s a = some t → a ≠ helpful → measure t = measure s)
include he rest

theorem FairRun.helped (i : Nat) (inv : ∀ j, i ≤ j → I (sts j)) (never : ∀ j, i ≤ j → ¬ P (sts j)) :
    ∃ j, i ≤ j ∧ labs j = helpful ∧ measure (sts j) = measure (sts i) := by
  obtain ⟨far, post, ht⟩ := run.fair i
  have hit : labs far = helpful := by
    cases ht with
    | inl ht => exact ht
    | inr off => exact absurd off (he _ (inv far post) (never far post))
  -- induction on the distance to the step where the label is taken
  obtain ⟨dist, rfl⟩ := Nat.exists_eq_add_of_le post
  induction dist generalizing i with
  | zero => exact ⟨i, Nat.le_refl i, hit, rfl⟩
  | succ dist ih =>
    by_cases now : labs i = helpful
    · exact ⟨i, Nat.le_refl i, now, rfl⟩
    · have shift : i + 1 + dist = i + (dist + 1) := by omega
      obtain ⟨j, _, helps, eq⟩ := ih (i + 1) (fun j late => inv j (by omega))
        (fun j late => never j (by omega)) (by omega)
        (by rw [shift]; exact .inl hit) (by rw [shift]; exact hit)
      refine ⟨j, by omega, helps, eq.trans ?_⟩
      exact rest _ _ _ (inv i (Nat.le_refl i)) (never i (Nat.le_refl i)) (run.step i) now

theorem FairRun.eventually {r : β → β → Prop} (wellFounded : WellFounded r)
    (helps : ∀ s t, I s → ¬ P s → next s helpful = some t → P t ∨ r (measure t) (measure s)) (i : Nat)
    (inv : ∀ j, i ≤ j → I (sts j)) : ∃ j, i ≤ j ∧ P (sts j) := by
  by_contra unreached
  have never : ∀ j, i ≤ j → ¬ P _ := fun j later hh => unreached ⟨j, later, hh⟩
  -- the measure has a least value from `i` on, and the next helpful step goes below it
  obtain ⟨v, ⟨j, later, val⟩, least⟩ :=
    wellFounded.has_min { v | ∃ j, i ≤ j ∧ measure (sts j) = v } ⟨_, i, Nat.le_refl i, rfl⟩
  obtain ⟨k, atLeast, isHelpful, eq⟩ := run.helped he rest j
    (fun k late => inv k (Nat.le_trans later late)) fun k late => never k (Nat.le_trans later late)
  have ht := run.step k
  rw [isHelpful] at ht
  have late : i ≤ k := Nat.le_trans later atLeast
  cases helps _ _ (inv k late) (never k late) ht with
  | inl met => exact never _ (by omega) met
  | inr less =>
    rw [eq, val] at less
    exact least _ ⟨k + 1, by omega, rfl⟩ less

end

end Aosp.Lib
