import Mathlib.Tactic.Common

/-! # Searching a growing forest of nodes

A search for a key walks from node to node: at each node it is either done, or
moves on to one other node, or falls off an empty link.  `Verdict` is that
decision and `Descends` the walk.  Nodes are only ever added at a place where
some search fell off; `Grows` describes one such addition and `found_grows`
says what every later search finds: what it found before, or the new node.
Nothing is said about an ordering of keys; the walk being deterministic is
enough.
-/

namespace Aosp.Lib

universe u v

/-- What a search does at a node. -/
inductive Verdict (ν : Type u) where
  | here
  | next (nd : ν)
  | dead

variable {κ : Type u} {ν : Type v}

/-- The search for `key` that stands at the first node reaches the second. -/
inductive Descends (verdict : κ → ν → Verdict ν) (key : κ) : ν → ν → Prop where
  | refl (nd : ν) : Descends verdict key nd nd
  | step {nd successor last : ν} (moves : verdict key nd = .next successor)
      (tl : Descends verdict key successor last) : Descends verdict key nd last

/-- The search for `key` from `beg` ends successfully at `nd`. -/
def Found (verdict : κ → ν → Verdict ν) (key : κ) (beg nd : ν) : Prop :=
  Descends verdict key beg nd ∧ verdict key nd = .here

/-- The search for `key` from `beg` falls off an empty link of `nd`. -/
def Missed (verdict : κ → ν → Verdict ν) (key : κ) (beg nd : ν) : Prop :=
  Descends verdict key beg nd ∧ verdict key nd = .dead

namespace Descends

variable {verdict : κ → ν → Verdict ν} {key : κ} {a b c : ν}

theorem snoc (walk : Descends verdict key a b) (mvs : verdict key b = .next c) : Descends verdict key a c := by
  induction walk with
  | refl => exact .step mvs (.refl _)
  | step first _ ih => exact .step first (ih mvs)

/-- A property that every move keeps holds along the whole walk. -/
theorem invariant {P : ν → Prop} (preserved : ∀ n m, P n → verdict key n = .next m → P m)
    (walk : Descends verdict key a b) (beg : P a) : P b := by
  induction walk with
  | refl => exact beg
  | step moves _ ih => exact ih (preserved _ _ beg moves)

end Descends

variable {verdict : κ → ν → Verdict ν} {key : κ} {a b c : ν}

theorem descends_stop_unique (left : Descends verdict key a b) (leftStops : ∀ n, verdict key b ≠ .next n)
    (right : Descends verdict key a c) (rightStops : ∀ n, verdict key c ≠ .next n) : b = c := by
  induction left with
  | refl =>
    cases right with
    | refl => rfl
    | step moves _ => exact absurd moves (leftStops _)
  | step moves _ ih =>
    cases right with
    | refl => exact absurd moves (rightStops _)
    | step moves' tl =>
      rw [moves] at moves'
      cases moves'
      exact ih leftStops tl

theorem Found.unique (left : Found verdict key a b) (right : Found verdict key a c) : b = c :=
  descends_stop_unique left.1 (by simp [left.2]) right.1 (by simp [right.2])

theorem Found.not_missed (hf : Found verdict key a b) (gone : Missed verdict key a c) : False := by
  have eq := descends_stop_unique hf.1 (by simp [hf.2]) gone.1 (by simp [gone.2])
  have here := hf.2
  rw [eq, gone.2] at here
  cases here

/-- Searches that only visit nodes with the same verdicts find the same. -/
theorem found_congr {o : κ → ν → Verdict ν} {beg nd : ν}
    (agree : ∀ n, Descends verdict key beg n → o key n = verdict key n) :
    Found o key beg nd ↔ Found verdict key beg nd := by
  constructor
  · rintro ⟨walk, here⟩
    induction walk with
    | refl => exact ⟨.refl _, (agree _ (.refl _)) ▸ here⟩
    | step mvs _ ih =>
      have went := (agree _ (.refl _)) ▸ mvs
      obtain ⟨tl, hf⟩ := ih (fun n walk => agree n (.step went walk)) here
      exact ⟨.step went tl, hf⟩
  · rintro ⟨walk, here⟩
    induction walk with
    | refl => exact ⟨.refl _, (agree _ (.refl _)).trans here⟩
    | step mvs _ ih =>
      obtain ⟨tl, hf⟩ := ih (fun n walk => agree n (.step mvs walk)) here
      exact ⟨.step ((agree _ (.refl _)).trans mvs) tl, hf⟩

/-- The forest of `grown` is that of `verdict` with one node more: `fresh`, for
    the key `added`, hung below `last` at the link where searches like that for
    `added` used to fall off. -/
structure Grows (verdict grown : κ → ν → Verdict ν) (last fresh : ν) (added : κ) : Prop where
  hung : verdict added last = .dead
  reached : grown added last = .next fresh
  kept : ∀ key nd, nd ≠ fresh → grown key nd = verdict key nd ∨
    (nd = last ∧ verdict key nd = .dead ∧ grown key nd = .next fresh)
  freshHere : ∀ key, grown key fresh = .here → key = added
  freshFound : grown added fresh = .here
  freshLeaf : ∀ key nd, grown key fresh ≠ .next nd

namespace Grows

variable {verdict hg : κ → ν → Verdict ν} {last new : ν} {adds : κ} {key : κ}

section

variable {a b : ν} (grows : Grows verdict hg last new adds) (unseen : ∀ n, Descends verdict key a n → n ≠ new)
include grows unseen

/-- Walks of the old forest, which never see the fresh node, are walks of the
    grown one. -/
theorem descends (walk : Descends verdict key a b) : Descends hg key a b := by
  induction walk with
  | refl => exact .refl _
  | step moves _ ih =>
    obtain eq | ⟨-, dead, -⟩ := grows.kept key _ (unseen _ (.refl _))
    · exact .step (eq.trans moves) (ih fun n walk => unseen n (.step moves walk))
    · rw [moves] at dead; cases dead

theorem descends_inv (walk : Descends hg key a b) :
    Descends verdict key a b ∨ (b = new ∧ Descends verdict key a last) := by
  induction walk with
  | refl => exact .inl (.refl _)
  | step mvs tl ih =>
    obtain eq | ⟨atLast, -, entered⟩ := grows.kept key _ (unseen _ (.refl _))
    · have went := eq ▸ mvs
      obtain old | ⟨atFresh, walk⟩ :=
        ih fun n walk => unseen n (.step went walk)
      · exact .inl (.step went old)
      · exact .inr ⟨atFresh, .step went walk⟩
    · subst atLast
      rw [entered] at mvs
      cases mvs
      cases tl with
      | refl => exact .inr ⟨rfl, .refl _⟩
      | step more _ => exact absurd more (grows.freshLeaf _ _)

end

theorem found_iff (grows : Grows verdict hg last new adds) {beg nd : ν}
    (unseen : ∀ n, Descends verdict key beg n → n ≠ new) :
    Found hg key beg nd ↔ Found verdict key beg nd ∨ (nd = new ∧ key = adds ∧ Descends verdict key beg last) := by
  constructor
  · rintro ⟨walk, here⟩
    obtain old | ⟨rfl, walk⟩ := grows.descends_inv unseen walk
    · obtain eq | ⟨-, -, went⟩ := grows.kept key nd (unseen _ old)
      · exact .inl ⟨old, eq ▸ here⟩
      · rw [went] at here; cases here
    · exact .inr ⟨rfl, grows.freshHere key here, walk⟩
  · rintro (⟨walk, here⟩ | ⟨rfl, rfl, walk⟩)
    · obtain eq | ⟨-, dead, -⟩ := grows.kept key nd (unseen _ walk)
      · exact ⟨grows.descends unseen walk, eq.trans here⟩
      · rw [here] at dead; cases dead
    · exact ⟨(grows.descends unseen walk).snoc grows.reached, grows.freshFound⟩

end Grows

end Aosp.Lib
