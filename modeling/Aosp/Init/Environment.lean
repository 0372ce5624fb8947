import Aosp.Lib.Bytes

/-! # The environment of init

`add_environment` keeps `key=value` strings in the slots of `ENV`.  One scan replaces the
entry of the key or takes the first free slot, whichever comes first, so that the entries
have no holes and no key has two of them is one invariant and not two.
-/

namespace Aosp.Init

open Aosp.Lib List

def isEntryOf (ent key : Bytes) : Bool :=
  let entryKeyLen := (ent.takeWhile (· ≠ equalsSign)).length
  entryKeyLen == key.length && strncmp ent key entryKeyLen == 0

/-- The loop over the slots, the last of which is reserved. -/
def addEnvironment (key v : Bytes) : List (Option Bytes) → List (Option Bytes) × Int
  | slot :: next :: slots =>
    -- delete any existing entry for this key
    match slot.filter fun ent => !isEntryOf ent key with
    | none => (some (key ++ equalsSign :: v) :: next :: slots, 0)
    | some ent =>
      let (tl, result) := addEnvironment key v (next :: slots)
      (some ent :: tl, result)
  | slots => (slots, -1)

/-- The arguments of a call, as C strings. -/
structure EnvCall where
  key : Bytes
  val : Bytes
  noEquals : equalsSign ∉ key
  keyFree : NulFree key
  valFree : NulFree val

def lastAdded (key : Bytes) (log : List (EnvCall × Int)) : Option EnvCall :=
  (log.reverse.find? fun (c, result) => result = 0 ∧ c.key = key).map Prod.fst

theorem lastAdded_snoc (key : Bytes) (log : List (EnvCall × Int)) (c : EnvCall) (res : Int) :
    lastAdded key (log ++ [(c, res)]) = if res = 0 ∧ c.key = key then some c else lastAdded key log := by
  by_cases last : res = 0 ∧ c.key = key <;> simp [lastAdded, last]

namespace EnvCall

def text (c : EnvCall) : Bytes := c.key ++ equalsSign :: c.val

theorem isEntryOf_text (ent c : EnvCall) : isEntryOf ent.text c.key = true ↔ ent.key = c.key := by
  have full : ent.text.takeWhile (· ≠ equalsSign) = ent.key := by
    rw [text, takeWhile_append_of_pos]
    · simp
    · intro _ mem
      simpa using ne_of_mem_of_not_mem mem ent.noEquals
  have textFree : NulFree ent.text := by
    simpa [text, NulFree, equalsSign] using ⟨ent.keyFree, ent.valFree⟩
  simp only [isEntryOf, full, Bool.and_eq_true, beq_iff_eq, strncmp_eq_zero textFree c.keyFree]
  constructor
  · rintro ⟨len, eq⟩
    simpa [text, len] using eq
  · intro eq
    simp [text, eq]

/-- The entries in the first slots, and the others free. -/
def slots (n : Nat) (ents : List EnvCall) : List (Option Bytes) :=
  ents.map (fun ent => some ent.text) ++ replicate (n - ents.length) none

def store (c : EnvCall) : List EnvCall → List EnvCall
  | [] => [c]
  | entry :: entries => if entry.key = c.key then c :: entries else entry :: c.store entries

variable (c : EnvCall) (es : List EnvCall)

theorem store_keys : (c.store es).map key = if c.key ∈ es.map key then es.map key else es.map key ++ [c.key] := by
  induction es with
  | nil => simp [store]
  | cons ent es _ =>
    by_cases eq : ent.key = c.key
    · simp [store, eq]
    · by_cases hp : c.key ∈ es.map key <;> simp_all [store, Ne.symm eq]

theorem store_find (key : Bytes) : (c.store es).find? (·.key = key) =
    if c.key = key then some c else es.find? (·.key = key) := by
  induction es with
  | nil => by_cases here : c.key = key <;> simp [store]
  | cons ent es _ =>
    by_cases eq : ent.key = c.key <;> by_cases here : c.key = key <;> simp_all [store, find?_cons]

theorem addEnvironment_slots {n : Nat} (room : es.length < n) :
    addEnvironment c.key c.val (slots n es) =
      if (c.store es).length < n then (slots n (c.store es), 0) else (slots n es, -1) := by
  induction es generalizing n with
  | nil =>
    obtain _ | _ | n := n
    · cases room
    · simp [slots, store, addEnvironment]
    · simp [slots, store, addEnvironment, replicate_succ, text]
  | cons ent es ih =>
    obtain _ | n := n
    · cases room
    have inner := ih (Nat.lt_of_succ_lt_succ room)
    have cons_slots : ∀ ent es, slots (n + 1) (ent :: es) = some ent.text :: slots n es := by
      simp [slots]
    -- the last slot comes after the entries, so the loop does not stop here
    obtain ⟨next, late, tl⟩ : ∃ next late, slots n es = next :: late := by
      apply exists_cons_of_length_pos
      simp only [slots, length_append, length_replicate, length_cons] at room ⊢
      omega
    by_cases eq : ent.key = c.key
    · have swap := (isEntryOf_text ent c).mpr eq
      have fits : es.length < n := Nat.lt_of_succ_lt_succ room
      simp only [cons_slots, tl, addEnvironment, swap, Bool.not_true, Option.filter_some, store, eq, if_true,
        length_cons, Nat.add_lt_add_iff_right, fits]
      rfl
    · have kept : isEntryOf ent.text c.key = false := by
        simpa using mt (isEntryOf_text ent c).mp eq
      rw [tl] at inner
      simp only [cons_slots, tl, addEnvironment, kept, Bool.not_false, Option.filter_some, if_true, inner,
        store, eq, if_false, length_cons, Nat.add_lt_add_iff_right]
      split <;> rfl

/-- The entries of `ENV`, and what they have to do with the calls so far. -/
structure Holds (ents : List EnvCall) (e : List (Option Bytes)) (log : List (EnvCall × Int)) : Prop where
  inSlots : e = slots 32 ents
  bounded : ents.length < 32
  unique : (ents.map key).Nodup
  last : ∀ key, ents.find? (·.key = key) = lastAdded key log

variable {es} {e : List (Option Bytes)} {log : List (EnvCall × Int)}

theorem Holds.add (hh : Holds es e log) : let adds := addEnvironment c.key c.val e
    ((adds.2 = -1 ↔ es.length = 31 ∧ c.key ∉ es.map key) ∧ (adds.2 = -1 → adds.1 = e)) ∧
      ∃ es, Holds es adds.1 (log ++ [(c, adds.2)]) := by
  have entries := hh.bounded
  have keys := c.store_keys es
  have full : (c.store es).length < 32 ↔ ¬ (es.length = 31 ∧ c.key ∉ es.map key) := by
    rw [← length_map (f := key), keys]
    split
    · simp_all
    · simp_all
      omega
  have adds := c.addEnvironment_slots es entries
  rw [← hh.inSlots] at adds
  by_cases fits : (c.store es).length < 32
  · rw [if_pos fits] at adds
    simp only [adds]
    refine ⟨⟨iff_of_false (by decide) (full.mp fits), fun fail => absurd fail (by decide)⟩, _, rfl, fits, ?_, ?_⟩
    · rw [keys]
      split
      · exact hh.unique
      · rename_i ha
        exact hh.unique.append (nodup_singleton _) (by simpa using ha)
    · intro key
      rw [store_find, lastAdded_snoc, hh.last]
      simp
  · rw [if_neg fits] at adds
    simp only [adds]
    refine ⟨⟨iff_of_true trivial (not_not.mp (mt full.mpr fits)), fun _ => trivial⟩, es,
      { hh with last := fun key => ?_ }⟩
    rw [lastAdded_snoc, hh.last]
    simp

end EnvCall

end Aosp.Init
