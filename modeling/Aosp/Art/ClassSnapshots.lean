import Mathlib.Data.List.Basic
import Mathlib.Data.List.ModifyLast
import Mathlib.Logic.Function.Basic

/-! # Class tables and their snapshots

Model of `ClassTable` of `runtime/class_table.cc`: a list of hash sets that are searched in
order.  Only the last one is inserted into, but `Remove` erases from whichever set holds the
class.  So the sets together are one map, and a set that `FreezeSnapshot` has frozen
changes if a class of it is removed (`class_table_refines_map`).
-/

namespace Aosp.Art.ClassSnapshots

open List Function

/-- A hash set of classes, by their descriptors. -/
abbrev ClassSet (C D : Type) := D → Option C

variable {C D : Type} [DecidableEq D] (desc : C → D)

inductive TableOp (C D : Type) where
  | tryInsert (kl : C)
  | freezeSnapshot
  | remove (d : D)

/-- The loop over `classes_` of `Lookup`, `LookupByDescriptor`, `Contains` and `TryInsert`. -/
def lookup (cs : List (ClassSet C D)) (d : D) : Option C := cs.findSome? (· d)

def contains [DecidableEq C] (cs : List (ClassSet C D)) (kl : C) : Bool :=
  lookup cs (desc kl) = some kl

def remove (d : D) : List (ClassSet C D) → List (ClassSet C D) × Option C
  | [] => ([], none)
  | first :: rest =>
    if (first d).isSome then (update first d none :: rest, first d)
    else (first :: (remove d rest).1, (remove d rest).2)

/-- An operation and the class that it finds: `TryInsert` returns it, and `Remove` whether
    there is one. -/
def step (cs : List (ClassSet C D)) : TableOp C D → List (ClassSet C D) × Option C
  | .tryInsert kl =>
    match lookup cs (desc kl) with
    | some o => (cs, some o)
    | none => (cs.modifyLast fun last : ClassSet C D => update last (desc kl) (some kl), some kl)
  | .freezeSnapshot => (cs ++ [(fun _ => none : ClassSet C D)], none)
  | .remove d => remove d cs

def mapStep (map : ClassSet C D) : TableOp C D → ClassSet C D × Option C
  | .tryInsert kl =>
    match map (desc kl) with
    | some o => (map, some o)
    | none => (update map (desc kl) (some kl), some kl)
  | .freezeSnapshot => (map, none)
  | .remove d => (update map d none, map d)

def after {S : Type} (next : S → TableOp C D → S × Option C) : S → List (TableOp C D) → S :=
  foldl fun s op => (next s op).1

def OnePerDescriptor (cs : List (ClassSet C D)) : Prop :=
  cs.Pairwise fun s t => ∀ d, (s d).isSome → t d = none

variable {desc} {cs : List (ClassSet C D)} {d : D} {kl : C}

theorem update_none {s : ClassSet C D} (absent : s d = none) : update s d none = s := by
  rw [← absent, update_eq_self]

theorem remove_eq (one : OnePerDescriptor cs) :
    (remove d cs).1 = cs.map (fun s => update s d none) ∧ (remove d cs).2 = lookup cs d := by
  induction cs with
  | nil => exact ⟨rfl, rfl⟩
  | cons first rest ih =>
    obtain ⟨apart, others⟩ := pairwise_cons.mp one
    rw [remove, map_cons, lookup, findSome?_cons]
    cases held : first d with
    | some o =>
      -- the sets behind have no class of the descriptor
      have same : rest.map (fun s => update s d none) = rest :=
        (map_congr_left fun t mem => update_none (apart t mem d (by rw [held]; rfl))).trans (map_id' rest)
      exact ⟨by rw [same]; rfl, rfl⟩
    | none => exact ⟨by rw [update_none held, ← (ih others).1]; rfl, (ih others).2⟩

def Sound (cs : List (ClassSet C D)) : Prop := cs ≠ [] ∧ OnePerDescriptor cs

theorem insert_spec (sound : Sound cs) (absent : lookup cs d = none) :
    let next := cs.modifyLast fun last => update last d (some kl)
    Sound next ∧ lookup next = update (lookup cs) d (some kl) := by
  obtain ⟨ne, one⟩ := sound
  obtain ⟨init, last, rfl⟩ := (eq_nil_or_concat' cs).resolve_left ne
  simp only [modifyLast_concat]
  have empty : ∀ s ∈ init ++ [last], s d = none := findSome?_eq_none_iff.mp absent
  constructor
  · obtain ⟨apart, _, before⟩ := pairwise_append.mp one
    refine ⟨by simp, pairwise_append.mpr ⟨apart, pairwise_singleton _ _, fun s mem t ht o hs => ?_⟩⟩
    cases mem_singleton.mp ht
    rw [update_apply]
    split
    next same => simp [same, empty s (mem_append_left _ mem)] at hs
    next => exact before s mem last mem_cons_self o hs
  · funext o
    rw [lookup, findSome?_append, update_apply]
    split
    next same =>
      rw [same, findSome?_eq_none_iff.mpr fun s mem => empty s (mem_append_left _ mem)]
      simp
    next ne => simp [lookup, findSome?_append, update_of_ne ne]

variable (desc)

theorem step_refines (sound : Sound cs) (op : TableOp C D) : Sound (step desc cs op).1 ∧
    mapStep desc (lookup cs) op =
      (lookup (step desc cs op).1, (step desc cs op).2) := by
  cases op with
  | tryInsert kl =>
    rw [step, mapStep]
    cases found : lookup cs (desc kl) with
    | some o => exact ⟨sound, rfl⟩
    | none =>
      obtain ⟨kept, same⟩ := @insert_spec _ _ _ _ _ kl sound found
      exact ⟨kept, by rw [same]⟩
  | freezeSnapshot =>
    refine ⟨⟨by simp [step], pairwise_append.mpr ⟨sound.2, pairwise_singleton _ _, fun s _ t mem o _ => ?_⟩⟩, ?_⟩
    · cases mem_singleton.mp mem
      rfl
    · simp [step, mapStep, lookup, funext_iff]
  | remove d =>
    obtain ⟨removed, found⟩ := @remove_eq _ _ _ _ d sound.2
    rw [step, mapStep, removed, found]
    refine ⟨⟨by simpa using sound.1, pairwise_map.mpr (sound.2.imp fun apart o held => ?_)⟩, ?_⟩
    · rw [update_apply] at held ⊢
      split at held
      · cases held
      · simpa using fun _ => apart o held
    · congr 1
      funext o
      rw [lookup, findSome?_map, update_apply]
      by_cases same : o = d
      · simp [same, Function.comp_def, findSome?_eq_none_iff.mpr]
      · simp [same, Function.comp_def, lookup]

/-- A set in front of the last one keeps its classes unless one of them is removed. -/
theorem step_frozen (one : OnePerDescriptor cs) {i : Nat} {frozen : ClassSet C D} (at_ : cs[i]? = some frozen)
    (notLast : i + 1 < cs.length) (op : TableOp C D) (away : ∀ d, (frozen d).isSome → op ≠ .remove d) :
    (step desc cs op).1[i]? = some frozen ∧ i + 1 < (step desc cs op).1.length := by
  cases op with
  | tryInsert kl =>
    rw [step]
    split
    · exact ⟨at_, notLast⟩
    · obtain ⟨init, last, rfl⟩ := (eq_nil_or_concat' cs).resolve_left (by rintro rfl; cases at_)
      rw [length_append, length_singleton] at notLast
      rw [getElem?_append_left (by omega)] at at_
      rw [modifyLast_concat, getElem?_append_left (by omega)]
      exact ⟨at_, by simpa using notLast⟩
  | freezeSnapshot => exact ⟨by rw [step, getElem?_append_left (by omega)]; exact at_, by simp [step]; omega⟩
  | remove d =>
    rw [step, (remove_eq one).1, getElem?_map, at_, length_map]
    exact ⟨congrArg some (update_none (by simpa using fun held => away d held)), notLast⟩

theorem after_sound (sound : Sound cs) (ops : List (TableOp C D)) : Sound (after (step desc) cs ops) ∧
    lookup (after (step desc) cs ops) = after (mapStep desc) (lookup cs) ops := by
  induction ops generalizing cs with
  | nil => exact ⟨sound, rfl⟩
  | cons op ops ih =>
    obtain ⟨kept, same⟩ := step_refines desc sound op
    obtain ⟨last, results⟩ := ih kept
    refine ⟨last, results.trans ?_⟩
    change _ = after _ (mapStep desc (lookup cs) op).1 ops
    rw [same]

theorem after_frozen (sound : Sound cs) {i : Nat} {frozen : ClassSet C D} (at_ : cs[i]? = some frozen)
    (notLast : i + 1 < cs.length) {later : List (TableOp C D)} (away : ∀ d, (frozen d).isSome → .remove d ∉ later) :
    (after (step desc) cs later)[i]? = some frozen := by
  induction later generalizing cs with
  | nil => exact at_
  | cons op later ih =>
    obtain ⟨kept, less⟩ := step_frozen desc sound.2 at_ notLast op fun d held eq => away d held (eq ▸ mem_cons_self)
    exact ih (step_refines desc sound op).1 kept less fun d held mem => away d held (mem_cons_of_mem _ mem)

/-- After any operations: one class for each descriptor, the answers of one map, and a
    frozen set that later operations keep if none removes a class of it. -/
theorem class_table_refines_map [DecidableEq C] (ops later : List (TableOp C D)) :
    let cs := after (step desc) [fun _ => none] ops
    let map := after (mapStep desc) (fun _ => none) ops
    OnePerDescriptor cs ∧ lookup cs = map ∧
      (∀ op, (step desc cs op).2 = (mapStep desc map op).2) ∧
      (∀ kl, contains desc cs kl = true ↔ map (desc kl) = some kl) ∧
      ∀ i frozen, cs[i]? = some frozen → i + 1 < cs.length → (∀ d, (frozen d).isSome → .remove d ∉ later) →
        (after (step desc) cs later)[i]? = some frozen := by
  intro cs map
  obtain ⟨sound, same⟩ : Sound cs ∧ lookup cs = map :=
    after_sound desc ⟨by simp, pairwise_singleton _ _⟩ ops
  refine ⟨sound.2, same, fun op => ?_, fun kl => by simp [contains, same],
    fun _ _ at_ notLast => after_frozen desc sound at_ notLast⟩
  rw [← same, (step_refines desc sound op).2]

/-- A class that was inserted before the snapshot is removed from it. -/
theorem remove_changes_frozen :
    let frozen := after (step id) [fun _ => none] [.tryInsert 0, .freezeSnapshot]
    frozen.map (· 0) = [some 0, none] ∧ (step (id : Nat → Nat) frozen (.remove 0)).1.map (· 0) = [none, none] := by
  decide

end Aosp.Art.ClassSnapshots
