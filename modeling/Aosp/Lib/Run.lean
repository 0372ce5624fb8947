import Mathlib.Tactic.Common

/-! # Runs of transition systems

`Run` is a finite run of a labelled transition relation, `Reachable` the states
such runs end in; `Run.invariant` is the induction over runs.  For machines
whose next state is a function of the label, `AllStates` and `AllSteps` speak
about every state and every step of the run over a list of labels.  `EachAfter`
is about a log that a machine writes as it runs.
-/

namespace Aosp.Lib

universe u v

variable {σ : Type u} {α : Type v} {labs : List α} {next : σ → α → Option σ} {step : σ → α → σ → Prop}
  {first mid last : σ} {I P : σ → Prop} {Q : σ → α → Prop}

inductive Run (step : σ → α → σ → Prop) (first : σ) : List α → σ → Prop where
  | nil : Run step first [] first
  | snoc {labels : List α} {lb : α} {middle last : σ} (pre : Run step first labels middle)
      (taken : step middle lb last) : Run step first (labels ++ [lb]) last

/-- Some run leads from `first` to `last`. -/
def Reachable (step : σ → α → σ → Prop) (first last : σ) : Prop :=
  ∃ labels, Run step first labels last

section

variable (beg : P first) (preserved : ∀ s a t, P s → step s a t → P t)
include beg preserved

/-- What holds at the start and is kept by every step holds at the end. -/
theorem Run.invariant (run : Run step first labs last) : P last := by
  induction run with
  | nil => exact beg
  | snoc _ taken ih => exact preserved _ _ _ ih taken

theorem Reachable.invariant (reach : Reachable step first last) : P last := by
  obtain ⟨_, run⟩ := reach
  exact run.invariant beg preserved

end

theorem Run.append {ea late : List α} (pre : Run step first ea mid) (post : Run step mid late last) :
    Run step first (ea ++ late) last := by
  induction post with
  | nil => simpa using pre
  | snoc _ taken ih =>
    rw [← List.append_assoc]
    exact .snoc ih taken

theorem Run.cons {lab : α} (ht : step first lab mid) (post : Run step mid labs last) :
    Run step first (lab :: labs) last :=
  Run.append (.snoc .nil ht) post

theorem Run.mono {wider : σ → α → σ → Prop} (fits : ∀ s a t, step s a t → wider s a t)
    (run : Run step first labs last) : Run wider first labs last := by
  induction run with
  | nil => exact .nil
  | snoc _ taken ih => exact .snoc ih (fits _ _ _ taken)

/-! ## Deterministic machines -/

/-- The next state, where there is one, satisfies `P`. -/
def Leads (P : σ → Prop) : Option σ → Prop
  | none => True
  | some next => P next

theorem Leads.of_eq {res : Option σ} {next : σ} (leads : Leads P res) (ht : res = some next) : P next := by
  rwa [ht] at leads

/-- The state after the labels, if each is allowed and defined where it is taken. -/
def runLabels (allowed : σ → α → Prop) [∀ s a, Decidable (allowed s a)] (next : σ → α → Option σ) :
    σ → List α → Option σ
  | s, [] => some s
  | s, lb :: labels =>
    if allowed s lb then
      match next s lb with
      | some t => runLabels allowed next t labels
      | none => none
    else none

theorem run_of_runLabels {allowed : σ → α → Prop} [∀ s a, Decidable (allowed s a)]
    (ran : runLabels allowed next first labs = some last) :
    Run (fun s a t => allowed s a ∧ next s a = some t) first labs last := by
  induction labs generalizing first with
  | nil =>
    cases ran
    exact .nil
  | cons _ labs ih =>
    unfold runLabels at ran
    split at ran
    · rename_i may
      split at ran
      · rename_i mid ht
        exact .cons ⟨may, ht⟩ (ih ran)
      · cases ran
    · cases ran

/-- `P` holds in the first state and after every label, as far as the machine gets. -/
def AllStates (next : σ → α → Option σ) (P : σ → Prop) : σ → List α → Prop
  | s, [] => P s
  | s, label :: labels => P s ∧ ∀ t, next s label = some t → AllStates next P t labels

/-- `Q` holds of every label and the state it is taken in. -/
def AllSteps (next : σ → α → Option σ) (Q : σ → α → Prop) : σ → List α → Prop
  | _, [] => True
  | s, label :: labels => ∀ t, next s label = some t → Q s label ∧ AllSteps next Q t labels

theorem AllStates.start {s : σ} (sts : AllStates next P s labs) : P s := by
  cases labs with
  | nil => exact sts
  | cons _ _ => exact sts.1

/-- If, among the states with `I`, a step with a label of `L` keeps `P` exactly when it
    meets `Q`, then `P` holds throughout a run exactly when all its steps meet `Q`. -/
theorem allStates_iff_allSteps_of_mem {L : α → Prop} (kept : ∀ s a t, L a → I s → P s → next s a = some t → I t)
    (exact_ : ∀ s a t, L a → I s → P s → next s a = some t → (P t ↔ Q s a))
    (labs : List α) (legal : ∀ a ∈ labs, L a) (s : σ) (inv : I s) (hh : P s) :
    AllStates next P s labs ↔ AllSteps next Q s labs := by
  induction labs generalizing s with
  | nil => simpa [AllStates, AllSteps] using hh
  | cons lab labs ih =>
    have isLegal := legal lab List.mem_cons_self
    have tl := ih fun a mem => legal a (List.mem_cons_of_mem _ mem)
    constructor
    · intro sts t ht
      have late := sts.2 t ht
      have invNext := kept s lab t isLegal inv hh ht
      exact ⟨(exact_ s lab t isLegal inv hh ht).mp late.start, (tl t invNext late.start).mp late⟩
    · intro steps
      refine ⟨hh, fun t ht => ?_⟩
      have holdsNext := (exact_ s lab t isLegal inv hh ht).mpr (steps t ht).1
      exact (tl t (kept s lab t isLegal inv hh ht) holdsNext).mpr (steps t ht).2

theorem allStates_iff_allSteps (kept : ∀ s a t, I s → P s → next s a = some t → I t)
    (exact_ : ∀ s a t, I s → P s → next s a = some t → (P t ↔ Q s a))
    (labs : List α) (s : σ) (inv : I s) (hh : P s) : AllStates next P s labs ↔ AllSteps next Q s labs :=
  allStates_iff_allSteps_of_mem (L := fun _ => True) (fun s a t _ => kept s a t) (fun s a t _ => exact_ s a t) labs
    (fun _ _ => trivial) s inv hh

/-! ## Logs -/

/-- `P` relates each entry of the log to the entries before it. -/
def EachAfter (P : List α → α → Prop) (log : List α) : Prop :=
  ∀ pre ent post, log = pre ++ ent :: post → P pre ent

theorem eachAfter_nil (P : List α → α → Prop) : EachAfter P [] := by
  intro _ _ _ split
  simp at split

theorem eachAfter_cons {P : List α → α → Prop} {log : List α} {ent : α} :
    EachAfter P (ent :: log) ↔ P [] ent ∧ EachAfter (fun pre => P (ent :: pre)) log := by
  constructor
  · intro each
    exact ⟨each [] ent log rfl, fun pre o post split => each (ent :: pre) o post (congrArg (ent :: ·) split)⟩
  · rintro ⟨first, each⟩ pre o post split
    cases pre with
    | nil =>
      cases split
      exact first
    | cons _ pre =>
      obtain ⟨rfl, tl⟩ := List.cons.inj split
      exact each pre o post tl

theorem eachAfter_snoc {P : List α → α → Prop} {log : List α} {ent : α} :
    EachAfter P (log ++ [ent]) ↔ EachAfter P log ∧ P log ent := by
  constructor
  · intro each
    refine ⟨?_, each log ent [] rfl⟩
    intro pre o post split
    exact each pre o (post ++ [ent]) (by simp [split])
  · rintro ⟨each, last⟩ pre o post split
    rcases List.eq_nil_or_concat post with rfl | ⟨tl, final, rfl⟩
    · obtain ⟨rfl, eq⟩ := List.append_inj' split rfl
      cases eq
      exact last
    · rw [List.concat_eq_append, ← List.cons_append, ← List.append_assoc] at split
      obtain ⟨eq, -⟩ := List.append_inj' split rfl
      exact each pre o tl eq

end Aosp.Lib
