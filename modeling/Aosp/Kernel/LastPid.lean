import Mathlib.Data.Fintype.Card

/-! # Concurrent calls of `set_last_pid`

Model of `pid_before` and `set_last_pid` of `kernel/pid.c`, for callers that all found
`last_pid` at `base`.  A step is one `cmpxchg` of one caller.
-/

namespace Aosp.Kernel

/-- An `int`, in which differences wrap. -/
abbrev PidInt : Type := BitVec 32

/-- The distance from `base`, as `unsigned`. -/
def pidDistance (base a : PidInt) : Nat := (a - base).toNat

def pidBefore (base a b : PidInt) : Bool := pidDistance base a < pidDistance base b

/-- `last_pid`, and what each caller will pass to `cmpxchg` as `prev`, until it returns. -/
structure LastPid (ι : Type) where
  lastPid : PidInt
  prev : ι → Option PidInt

open LastPid

section

variable {ι : Type} [DecidableEq ι] (base : PidInt) (pid : ι → PidInt)

def LastPid.initial : LastPid ι := ⟨base, fun _ => some base⟩

/-- One round of the loop of `set_last_pid`; a caller that has returned does nothing. -/
def LastPid.step (s : LastPid ι) (caller : ι) : LastPid ι :=
  match s.prev caller with
  | none => s
  | some prev =>
    let lastWrite := s.lastPid
    { lastPid := if lastWrite = prev then pid caller else lastWrite
      prev := Function.update s.prev caller
        (if prev ≠ lastWrite ∧ pidBefore base lastWrite (pid caller) then some lastWrite else none) }

def LastPid.run (turns : List ι) : LastPid ι := turns.foldl (step base pid) (.initial base)

end

variable {ι : Type} [Fintype ι] {base : PidInt} {pid : ι → PidInt}

theorem pidDistance_inj {a b : PidInt} : pidDistance base a = pidDistance base b ↔ a = b := by
  rw [pidDistance, pidDistance, BitVec.toNat_inj, BitVec.sub_left_inj]

/-- How many of the pids come after `a`. -/
def pidsAfter (base : PidInt) (pid : ι → PidInt) (a : PidInt) : Nat :=
  (Finset.univ.filter fun i => pidDistance base a < pidDistance base (pid i)).card

theorem pidsAfter_lt {a : PidInt} {i : ι} (pre : pidDistance base a < pidDistance base (pid i)) :
    pidsAfter base pid (pid i) < pidsAfter base pid a := by
  apply Finset.card_lt_card
  rw [Finset.ssubset_iff_of_subset]
  · exact ⟨i, by simpa using pre, by simp⟩
  · intro j post
    simp only [Finset.mem_filter, Finset.mem_univ, true_and] at post ⊢
    omega

variable [DecidableEq ι]

/-- After these turns: `last_pid` is not before a `prev`, and each caller that has not
    returned has a later pid than its `prev`, which every turn of it has moved on. -/
structure LastPid.Ordered (base : PidInt) (pid : ι → PidInt) (turns : List ι) (s : LastPid ι) : Prop where
  held : s.lastPid = base ∨ ∃ i, s.lastPid = pid i
  ahead : ∀ i prev, s.prev i = some prev → pidDistance base prev ≤ pidDistance base s.lastPid ∧
    pidDistance base prev < pidDistance base (pid i) ∧ turns.count i + pidsAfter base pid prev ≤ Fintype.card ι
  returned : ∀ i, s.prev i = none → pidDistance base (pid i) ≤ pidDistance base s.lastPid

variable {turns : List ι} {s : LastPid ι}

theorem LastPid.Ordered.of_caller (ho : s.Ordered base pid turns) (caller : ι) {hw : PidInt}
    (held : hw = base ∨ ∃ i, hw = pid i) (late : pidDistance base s.lastPid ≤ pidDistance base hw)
    (next : Option PidInt) (ahead : next = some hw → pidDistance base hw < pidDistance base (pid caller) ∧
      turns.count caller + 1 + pidsAfter base pid hw ≤ Fintype.card ι) (only : ∀ prev, next = some prev → prev = hw)
    (ret : next = none → pidDistance base (pid caller) ≤ pidDistance base hw) :
    LastPid.Ordered base pid (turns ++ [caller]) ⟨hw, Function.update s.prev caller next⟩ := by
  refine ⟨held, fun i prev hr => ?_, fun i stop => ?_⟩ <;> by_cases own : i = caller
  · subst own
    simp only [Function.update_self] at hr
    obtain rfl := only prev hr
    simpa [Nat.add_assoc] using ahead hr
  · simp only [Function.update_of_ne own] at hr
    have := ho.ahead i prev hr
    simpa [Ne.symm own] using ⟨by omega, this.2⟩
  · subst own
    exact ret (by simpa using stop)
  · simp only [Function.update_of_ne own] at stop
    exact (ho.returned i stop).trans late

theorem LastPid.Ordered.step (ho : s.Ordered base pid turns) (caller : ι) :
    (s.step base pid caller).Ordered base pid (turns ++ [caller]) := by
  rw [LastPid.step]
  split
  next _ =>
    refine ⟨ho.held, fun i prev hr => ?_, ho.returned⟩
    have o : caller ≠ i := by
      rintro rfl
      simp_all
    simpa [o] using ho.ahead i prev hr
  next prev hr =>
    obtain ⟨met, own, _⟩ := ho.ahead caller prev hr
    by_cases eq : s.lastPid = prev
    -- the caller's pid is written
    · subst eq
      simpa using ho.of_caller caller (.inr ⟨caller, rfl⟩) own.le none (by simp) (by simp) (by simp)
    -- another caller was faster
    · have went : pidDistance base prev < pidDistance base s.lastPid :=
        lt_of_le_of_ne met fun hq => eq (pidDistance_inj.mp hq).symm
      have fewer : pidsAfter base pid s.lastPid < pidsAfter base pid prev := by
        rcases ho.held with atBase | ⟨j, hw⟩
        · simp [atBase, pidDistance] at went
        · rw [hw] at went ⊢
          exact pidsAfter_lt went
      simp only [if_neg eq]
      apply ho.of_caller caller ho.held le_rfl
      · intro again
        simp only [Option.ite_none_right_eq_some, pidBefore, decide_eq_true_eq] at again
        exact ⟨again.1.2, by omega⟩
      · simp +contextual
      · simp [pidBefore, Ne.symm eq]

theorem LastPid.ordered_run (far : ∀ i, pid i ≠ base) (turns : List ι) :
    (run base pid turns).Ordered base pid turns := by
  induction turns using List.reverseRecOn with
  | nil =>
    refine ⟨.inl rfl, fun i _ hr => ?_, by simp [run, initial]⟩
    cases hr
    have first : pidDistance base base < pidDistance base (pid i) := by
      have := mt (@pidDistance_inj base _ _).mp (far i)
      simp only [pidDistance, BitVec.sub_self, BitVec.toNat_zero] at this ⊢
      omega
    exact ⟨le_rfl, first, by simpa [pidsAfter] using Finset.card_le_univ _⟩
  | append_singleton turns caller ih =>
    rw [run, List.foldl_append]
    exact ih.step caller

/-- For any order of the steps: a caller has returned after as many of its own steps as
    there are callers, and when all have, `last_pid` is the pid that all others come before. -/
theorem last_pid_latest [Nonempty ι] (distinct : Function.Injective pid) (apart : ∀ i, pid i ≠ base)
    (turns : List ι) : (∀ i, Fintype.card ι ≤ turns.count i → (run base pid turns).prev i = none) ∧
      ((∀ i, (run base pid turns).prev i = none) →
        ∃ i, (run base pid turns).lastPid = pid i ∧ ∀ j ≠ i, pidBefore base (pid j) (pid i)) := by
  have ordered := ordered_run apart turns
  constructor
  · intro i _
    cases running : (run base pid turns).prev i with
    | none => rfl
    | some prev =>
      obtain ⟨-, own, _⟩ := ordered.ahead i prev running
      have := pidsAfter_lt own
      omega
  · intro ret
    have latest := fun i => ordered.returned i (ret i)
    have differ : ∀ i, pid i ≠ (run base pid turns).lastPid →
        pidDistance base _ < pidDistance base (run base pid turns).lastPid :=
      fun i o => lt_of_le_of_ne (latest i) (mt pidDistance_inj.mp o)
    rcases ordered.held with atBase | ⟨i, written⟩
    · obtain ⟨i⟩ := ‹Nonempty ι›
      rw [atBase] at differ
      simpa [pidDistance] using differ i (apart i)
    · refine ⟨i, written, fun j o => ?_⟩
      rw [written] at differ
      simpa [pidBefore] using differ j (distinct.ne o)

/-- The caller with the later pid is overtaken and tries again; the numbers have wrapped. -/
theorem last_pid_latest_wrapped :
    ∃ later, (run 32766 (cond · 300 32767) [true, false, true]).lastPid = cond later 300 32767 ∧
      ∀ j ≠ later, pidBefore 32766 (cond j 300 32767) (cond later 300 32767) :=
  (last_pid_latest (by decide) (by decide) _).2 (by decide)

end Aosp.Kernel
