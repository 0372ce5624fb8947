import Aosp.Init.PropertyService
import Aosp.Lib.Run

/-! # What the property service keeps

Two properties of `property_set` over the whole store.

* A value is read back as it was set, unless it holds a NUL and replaces an older
  value: `strlcpy` then stops at the NUL, while the length that is stored with the
  value counts past it (`propertySet_read_iff`).
* A name that starts with `ro.` keeps its value for the rest of every run
  (`read_only_properties_are_write_once`).
-/

namespace Aosp.Init

open Aosp.Lib Aosp.Bionic InitState

/-! ## Reading a value back -/

/-- `__system_property_find` and `__system_property_read`. -/
def InitState.read (s : InitState) (n : Bytes) : Option (Nat × Bytes) :=
  (s.properties.lookup n).map fun hit => hit.2.read

/-- The bytes of the old value behind the first NUL of the new one, which
    `strlcpy` leaves alone, happen to be those of the new value. -/
def Leftover (info : PropInfo) (v : Bytes) : Prop :=
  ∀ i, (cstr v).length < i → i ≤ v.length → info.value.get i = (v ++ [0]).getD i 0

variable {v n : Bytes} {e : PersistEnv} {st post : InitState} {res : PropResult} {pre : InitState}

theorem leftover_of_nulFree (free : NulFree v) (info : PropInfo) : Leftover info v := by
  intro i high _
  rw [cstr_of_nulFree free] at high
  omega

theorem serialValueLen_update (info : PropInfo) (v : Bytes) {len : Nat} (fits : len < PROP_VALUE_MAX) :
    serialValueLen (info.update v len).serial = len := by
  rw [serialValueLen_eq, info.update_serial_toNat v fits]
  omega

theorem read_construct (n v : Bytes) (fits : v.length < PROP_VALUE_MAX) :
    (PropInfo.construct {} n n.length v v.length).read = (v.length, v ++ [0]) := by
  have hh := PropInfo.construct_holds {} n n.length v fits
  simp only [PropInfo.read, hh.length, hh.terminated]

/-- The bytes after an update: the new value up to its first NUL, then what was
    there before. -/
theorem get_update (info : PropInfo) (v : Bytes) (fits : v.length < PROP_VALUE_MAX) {i : Nat} (hi : i ≤ v.length) :
    (info.update v v.length).value.get i = if i ≤ (cstr v).length then (v ++ [0]).getD i 0 else info.value.get i := by
  have copy := Buffer.get_strlcpy info.value v (cstr_length_le v)
    (show i < PROP_VALUE_MAX by omega)
  simp only [PropInfo.update, copy]
  split
  · rename_i early
    rw [getD_append_zero early]
  · rfl

theorem read_update (info : PropInfo) (v : Bytes) (fits : v.length < PROP_VALUE_MAX) :
    (info.update v v.length).read = (v.length, v ++ [0]) ↔ Leftover info v := by
  simp only [PropInfo.read, serialValueLen_update info v fits, Prod.mk.injEq, true_and]
  rw [Buffer.bytes_eq_iff _ _ _ (by simp)]
  constructor
  · intro eq i _ low
    have here := eq i (by omega)
    rwa [get_update info v fits low, if_neg (by omega)] at here
  · intro leftover i low
    rw [get_update info v fits (by omega)]
    split
    · rfl
    · exact leftover i (by omega) (by omega)

theorem read_storedInfo (free : NulFree v) (fits : v.length < PROP_VALUE_MAX) (n : Bytes)
    (pre : Option PropInfo) : (storedInfo n v pre).read = (v.length, v ++ [0]) := by
  cases pre with
  | none => exact read_construct n v fits
  | some info => exact (read_update info v fits).mpr (leftover_of_nulFree free info)

/-- Reading a name after it was set gives the value and its terminator exactly
    when the name is new, or the value has no NUL, or what was behind its first NUL
    was there already. -/
theorem propertySet_read_iff (e : PersistEnv) (s post : InitState) (n v : Bytes)
    (wf : s.properties.WellFormed) (short : n.length < 2 ^ 32) (set : s.propertySet e n v = some (post, .success)) :
    post.read n = some (v.length, v ++ [0]) ↔ s.properties.lookup n = none ∨ NulFree v ∨
        ∀ pi info, s.properties.lookup n = some (pi, info) → Leftover info v := by
  obtain ⟨_, _, exec, out⟩ := InitState.propertySet_outcome wf e n v short
  rw [set] at exec
  cases exec
  cases out with
  | stored _ fits _ _ pi _ own _ =>
    simp only [InitState.read, InitState.announce_properties, own, Option.map_some, Option.some.injEq]
    cases pre : s.properties.lookup n with
    | none =>
      simp only [true_or, iff_true]
      exact read_construct n v fits
    | some hit =>
      obtain ⟨oldPi, info⟩ := hit
      simp only [Option.map_some, InitState.storedInfo, read_update info v fits]
      constructor
      · intro leftover
        exact .inr (.inr fun _ _ same => by cases same; exact leftover)
      · intro cases_
        rcases cases_ with absent | free | leftover
        · cases absent
        · exact leftover_of_nulFree free info
        · exact leftover oldPi info rfl

/-- A device with one context for every name. -/
def emptyStore : InitState where
  properties := .fresh [⟨ascii "*", 0⟩]

/-- Several properties set in order, with what each call returns. -/
def setAll (s : InitState) : List (Bytes × Bytes) → Option (InitState × List PropResult)
  | [] => some (s, [])
  | (n, v) :: tl =>
    match s.propertySet {} n v with
    | none => none
    | some (next, result) => (setAll next tl).map fun last => (last.1, result :: last.2)

set_option maxRecDepth 4000 in
/-- `abc` replaced by `x\0c` is read back: the byte behind the NUL was there already. -/
theorem propertySet_read_iff_nul :
    ∃ s post, emptyStore.propertySet {} (ascii "a") (ascii "abc") = some (s, .success) ∧
      s.propertySet {} (ascii "a") (ascii "x" ++ 0 :: ascii "c") = some (post, .success) ∧
      post.read (ascii "a") = some (3, ascii "x" ++ 0 :: ascii "c" ++ [0]) ∧
      ∀ pi info, s.properties.lookup (ascii "a") = some (pi, info) →
        Leftover info (ascii "x" ++ 0 :: ascii "c") := by
  have fresh : emptyStore.properties.WellFormed := SystemProperties.wellFormed_fresh _
  obtain ⟨s, res, added, out⟩ := propertySet_outcome fresh {} (ascii "a") (ascii "abc") (by decide)
  have updated : (emptyStore.propertySet {} (ascii "a") (ascii "abc")).any (fun first =>
      first.2 = .success ∧ (first.1.properties.lookup (ascii "a")).isSome ∧
        (first.1.propertySet {} (ascii "a") (ascii "x" ++ 0 :: ascii "c")).any fun second =>
          second.2 = .success ∧ second.1.read (ascii "a") = some (3, ascii "x" ++ 0 :: ascii "c" ++ [0])) = true := by
    decide
  rw [added] at updated
  obtain ⟨rfl, present, again⟩ := of_decide_eq_true updated
  obtain ⟨⟨post, _⟩, set, read⟩ := (Option.any_eq_true _ _).mp again
  obtain ⟨rfl, read⟩ := of_decide_eq_true read
  have wf : s.properties.WellFormed := by
    cases out with
    | stored _ _ _ _ _ wf _ _ => simpa using wf
  refine ⟨s, post, added, set, read, ?_⟩
  rcases (propertySet_read_iff {} s post _ _ wf (by decide) set).mp read with absent | free | leftover
  · simp [absent] at present
  · exact absurd free (by decide)
  · exact leftover

set_option maxRecDepth 4000 in
/-- `abc` replaced by `x\0y` is read back as `x\0c`: the last byte is that of the
    old value. -/
theorem propertySet_mixes_values :
    (setAll emptyStore [(ascii "a", ascii "abc"), (ascii "a", ascii "x" ++ 0 :: ascii "y")]).map
        (fun last => (last.2, last.1.read (ascii "a"))) =
      some ([.success, .success], some (3, ascii "x" ++ 0 :: ascii "c" ++ [0])) := by
  decide

section

variable (wf : st.properties.WellFormed) (short : n.length < 2 ^ 32)
  (set : st.propertySet e n v = some (post, res))
include wf short set

/-! ## What a call leaves alone -/

/-- A call of `property_set` keeps the store sound and every other name. -/
theorem propertySet_frame :
    post.properties.WellFormed ∧
      ∀ o : PropName, o.bytes ≠ n → post.properties.lookup o.bytes = st.properties.lookup o.bytes := by
  obtain ⟨_, _, ran, oc⟩ := propertySet_outcome wf e n v short
  rw [set] at ran
  cases ran
  cases oc with
  | badName | badValue => exact ⟨wf, fun _ _ => rfl⟩
  | readOnly =>
    rw [restorecon_properties]
    exact ⟨wf, fun _ _ => rfl⟩
  | full _ _ _ _ fullWellFormed kept => exact ⟨fullWellFormed, fun o _ => kept o⟩
  | stored _ _ _ _ _ storedWellFormed _ kept =>
    rw [announce_properties]
    exact ⟨storedWellFormed, kept⟩

theorem propertySet_read (legal : isLegalPropertyName n = true) (writable : (ascii "ro.").isPrefixOf n = false)
    (free : NulFree v)
    (fits : v.length < PROP_VALUE_MAX) : post.read n = some (v.length, v ++ [0]) ∨ post.read n = none := by
  obtain ⟨_, _, ran, oc⟩ := propertySet_outcome wf e n v short
  rw [set] at ran
  cases ran
  cases oc with
  | badName bad =>
    rw [legal] at bad
    cases bad
  | badValue _ _ => omega
  | readOnly _ _ _ mark =>
    rw [writable] at mark
    cases mark
  | full _ _ absent properties _ kept =>
    right
    have still := kept (PropName.ofLegal n legal short)
    simp only [PropName.ofLegal] at still
    rw [InitState.read, still, absent]
    rfl
  | stored _ _ _ properties _ _ own _ =>
    left
    rw [InitState.read, InitState.announce_properties, own, Option.map_some, read_storedInfo free fits]

end

/-! ## Read-only properties -/

/-- What init does, seen from the store: `property_set` is called, by whichever of
    its callers, or something happens that leaves the store alone. -/
inductive PropertyOp where
  | set (e : PersistEnv) (n v : Bytes)
  | elsewhere

variable {op : PropertyOp}

/-- Names have fewer than 2^32 bytes: the trie keeps their lengths in a `uint32_t`. -/
def PropertyStep (pre : InitState) : PropertyOp → InitState → Prop
  | .set e n v, post =>
    n.length < 2 ^ 32 ∧ ∃ res, pre.propertySet e n v = some (post, res)
  | .elsewhere, post => post.properties = pre.properties

structure LegalStore (prs : SystemProperties) : Prop where
  wellFormed : prs.WellFormed
  legal : ∀ n : PropName, prs.lookup n.bytes ≠ none → isLegalPropertyName n.bytes = true

theorem legalStore_fresh (pfs : List PrefixNode) : LegalStore (.fresh pfs) where
  wellFormed := SystemProperties.wellFormed_fresh pfs
  legal n present := absurd (SystemProperties.lookup_fresh pfs n) present

theorem InitState.SetOutcome.legalStore (oc : InitState.SetOutcome e st n v post res)
    (pre : LegalStore st.properties) : LegalStore post.properties := by
  cases oc with
  | badName => exact pre
  | badValue => exact pre
  | readOnly =>
    rw [restorecon_properties]
    exact pre
  | full _ _ _ properties wf kept =>
    exact ⟨wf, fun o hp => pre.legal o (by rwa [← kept o])⟩
  | stored legal _ _ properties _ wf _ kept =>
    rw [announce_properties]
    refine ⟨wf, fun o hp => ?_⟩
    by_cases eq : o.bytes = n
    · rw [eq]
      exact legal
    · exact pre.legal o (by rwa [← kept o eq])

/-- Only a `property_set` of the name itself changes what a name is bound to, and
    not that of a read-only name that is bound. -/
theorem InitState.SetOutcome.lookup_readOnly (oc : InitState.SetOutcome e st n v post res)
    (o : PropName) (mark : (ascii "ro.").isPrefixOf o.bytes = true) (hp : st.properties.lookup o.bytes ≠ none) :
    post.properties.lookup o.bytes = st.properties.lookup o.bytes := by
  cases oc with
  | badName => rfl
  | badValue => rfl
  | readOnly => rw [restorecon_properties]
  | full _ _ _ _ _ kept => exact kept o
  | stored _ _ writable _ _ _ _ kept =>
    rw [announce_properties]
    apply kept o
    intro eq
    subst eq
    rw [writable hp] at mark
    cases mark

theorem step_legalStore (step : PropertyStep pre op post)
    (legal : LegalStore pre.properties) : LegalStore post.properties := by
  cases op with
  | elsewhere =>
    rw [show post.properties = pre.properties from step]
    exact legal
  | set e n v =>
    obtain ⟨fits, _, set⟩ := step
    obtain ⟨_, _, ran, oc⟩ :=
      propertySet_outcome legal.wellFormed e n v fits
    rw [set] at ran
    cases ran
    exact oc.legalStore legal

theorem run_legalStore {beg : InitState} {ops : List PropertyOp} (run : Run PropertyStep beg ops st)
    (legal : LegalStore beg.properties) : LegalStore st.properties :=
  run.invariant (P := fun s => LegalStore s.properties) legal fun _ _ _ kept step =>
    step_legalStore step kept

theorem step_lookup_readOnly (step : PropertyStep pre op post)
    (legal : LegalStore pre.properties) (n : PropName) (mark : (ascii "ro.").isPrefixOf n.bytes = true)
    (hp : pre.properties.lookup n.bytes ≠ none) : post.properties.lookup n.bytes = pre.properties.lookup n.bytes := by
  cases op with
  | elsewhere => rw [show post.properties = pre.properties from step]
  | set e o v =>
    obtain ⟨fits, _, set⟩ := step
    obtain ⟨_, _, ran, oc⟩ :=
      propertySet_outcome legal.wellFormed e o v fits
    rw [set] at ran
    cases ran
    exact oc.lookup_readOnly n mark hp

/-- A read-only name that is bound: `property_set` of it returns an error and does
    nothing. -/
theorem propertySet_readOnly (name : LegalStore st.properties) (n : PropName)
    (mark : (ascii "ro.").isPrefixOf n.bytes = true) (hp : st.properties.lookup n.bytes ≠ none)
    (e : PersistEnv) (v : Bytes) :
    st.propertySet e n.bytes v = some (st, if v.length < PROP_VALUE_MAX then .readOnlyProperty else .invalidValue) := by
  obtain ⟨_, _, ran, oc⟩ :=
    propertySet_outcome name.wellFormed e n.bytes v n.short
  rw [ran]
  cases oc with
  | badName bad =>
    rw [name.legal n hp] at bad
    cases bad
  | badValue _ _ => rw [if_neg (by omega)]
  | readOnly _ fits =>
    have bare : st.restorecon n.bytes v = st := by
      unfold restorecon
      rw [if_neg]
      intro restores
      rw [restores.1] at mark
      exact absurd mark (by decide)
    rw [if_pos fits, bare]
  | full _ _ absent => exact absurd absent hp
  | stored _ _ writable =>
    rw [writable hp] at mark
    cases mark

/-- Once a read-only name is bound, in every later state it is bound to the same
    `prop_info` with the same contents, and every `property_set` of it is refused and
    leaves the whole state as it is. -/
theorem read_only_properties_are_write_once {prefixes : List PrefixNode} {beg st later : InitState}
    {ops laterOps : List PropertyOp} (fresh : beg.properties = .fresh prefixes)
    (run : Run PropertyStep beg ops st) (n : PropName) (marked : (ascii "ro.").isPrefixOf n.bytes = true)
    (present : st.properties.lookup n.bytes ≠ none) (laterRun : Run PropertyStep st laterOps later) :
    later.properties.lookup n.bytes = st.properties.lookup n.bytes ∧
      ∀ e v, later.propertySet e n.bytes v =
        some (later, if v.length < PROP_VALUE_MAX then .readOnlyProperty else .invalidValue) := by
  have legal : LegalStore st.properties := by
    apply run_legalStore run
    rw [fresh]
    exact legalStore_fresh prefixes
  have kept : LegalStore later.properties ∧ later.properties.lookup n.bytes = st.properties.lookup n.bytes := by
    refine laterRun.invariant
      (P := fun s => LegalStore s.properties ∧ s.properties.lookup n.bytes = st.properties.lookup n.bytes)
      ⟨legal, rfl⟩ ?_
    intro pre _ _ holds step
    have bound : pre.properties.lookup n.bytes ≠ none := by rwa [holds.2]
    exact ⟨step_legalStore step holds.1, (step_lookup_readOnly step holds.1 n marked bound).trans holds.2⟩
  refine ⟨kept.2, fun e v => ?_⟩
  exact propertySet_readOnly kept.1 n marked (by rwa [kept.2]) e v

set_option maxRecDepth 4000 in
theorem read_only_properties_are_write_once_empty :
    ∃ st later, Run PropertyStep emptyStore [.set {} (ascii "ro.a") (ascii "1")] st ∧
        Run PropertyStep st [.set {} (ascii "ro.b") (ascii "2")] later ∧ st.properties.lookup (ascii "ro.a") ≠ none ∧
        later.properties.lookup (ascii "ro.a") = st.properties.lookup (ascii "ro.a") ∧
        ∀ e v, later.propertySet e (ascii "ro.a") v =
          some (later, if v.length < PROP_VALUE_MAX then .readOnlyProperty else .invalidValue) := by
  have n : isLegalPropertyName (ascii "ro.a") = true := by decide
  have marked : (ascii "ro.").isPrefixOf (ascii "ro.a") = true := by decide
  have added : (emptyStore.propertySet {} (ascii "ro.a") (ascii "1")).any
      (fun last => (last.1.properties.lookup (ascii "ro.a")).isSome) = true := by decide
  obtain ⟨⟨st, res⟩, set, bound⟩ := (Option.any_eq_true _ _).mp added
  have run : Run PropertyStep emptyStore [.set {} (ascii "ro.a") (ascii "1")] st :=
    .snoc .nil ⟨by decide, res, set⟩
  have legal := run_legalStore run (legalStore_fresh [⟨ascii "*", 0⟩])
  obtain ⟨later, laterResult, laterSet, -⟩ :=
    propertySet_outcome legal.wellFormed {} (ascii "ro.b") (ascii "2") (by decide)
  have laterRun : Run PropertyStep st [.set {} (ascii "ro.b") (ascii "2")] later :=
    .snoc .nil ⟨by decide, laterResult, laterSet⟩
  have present : st.properties.lookup (ascii "ro.a") ≠ none := Option.isSome_iff_ne_none.mp bound
  exact ⟨st, later, run, laterRun, present,
    read_only_properties_are_write_once rfl run (PropName.ofLegal _ n (by decide)) marked present laterRun⟩

set_option maxRecDepth 8000 in
/-- The length of the value is checked before the name is looked up. -/
theorem read_only_property_invalid_value :
    (setAll emptyStore [(ascii "ro.a", ascii "1"), (ascii "ro.a", List.replicate 92 97)]).map Prod.snd =
      some [.success, .invalidValue] := by
  decide

end Aosp.Init
