import Aosp.Bionic.PropMap

/-! # The property store of a process

Model of the `__system_property_*` functions over several areas: a name is
looked up in the area of the first entry of `prefixes` that covers it.  The
store is seen as a map from names to `prop_info`s (`lookup`), and each function
is described by what it does to that map: `find_spec`, `update_spec`,
`add_spec`.
-/

namespace Aosp.Bionic

open Aosp.Lib PropArea

structure PrefixNode where
  namePrefix : Bytes
  context : Nat

/-- `context` numbers the nodes of `contexts`; `areas` gives their `pa_`, and
    `areaSerial` is the serial of `__system_property_area__`.  Each is `none` where
    the pointer is null. -/
structure SystemProperties where
  prefixes : List PrefixNode
  areas : Nat → Option PropArea
  areaSerial : Option (BitVec 32)

/-- A `prop_info` pointer: an area and an offset. -/
abbrev PropInfoPtr := Nat × Nat

/-- The entry is `*` or its prefix is one of the name's. -/
def PrefixNode.covers (nd : PrefixNode) (n : Bytes) : Bool :=
  nd.namePrefix.headD 0 = asterisk || strncmp nd.namePrefix n nd.namePrefix.length = 0

/-- `__system_property_read` without concurrent updates: the length returned and
    the bytes stored through `value`. -/
def PropInfo.read (info : PropInfo) : Nat × Bytes :=
  (serialValueLen info.serial, info.value.bytes (serialValueLen info.serial + 1))

namespace SystemProperties

section

variable (props : SystemProperties) (n : Bytes)

/-- `get_prop_area_for_name`, with the number of the context. -/
def propAreaForName : Option (Nat × PropArea) :=
  match props.prefixes.find? (·.covers n) with
  | none => none
  | some ent => (props.areas ent.context).map fun a => (ent.context, a)

def setArea (context : Nat) (a : PropArea) : SystemProperties :=
  { props with areas := fun c => if c = context then some a else props.areas c }

/-- `__system_property_find`: `none` if the walk did not end. -/
def find : Option (Option PropInfoPtr) :=
  match props.areaSerial with
  | none => some none
  | some _ =>
    match props.propAreaForName n with
    | none => some none
    | some (context, area) => (area.find n).map fun off => off.map fun off => (context, off)

/-- `__system_property_update`, and whether it returns 0. -/
def update (pi : PropInfoPtr) (v : Bytes) (len : Nat) : SystemProperties × Bool :=
  if len ≥ PROP_VALUE_MAX then (props, false)
  else
    match props.areaSerial, props.areas pi.1 with
    | some serial, some area =>
      ({ props.setArea pi.1 (area.update pi.2 v len).1 with areaSerial := some (serial + 1) }, true)
    | _, _ => (props, false)

/-- `__system_property_add`, and whether it returns 0. -/
def add (namelen : Nat) (v : Bytes) (valuelen : Nat) : Option (SystemProperties × Bool) :=
  if valuelen ≥ PROP_VALUE_MAX then some (props, false)
  else if namelen < 1 then some (props, false)
  else
    match props.areaSerial with
    | none => some (props, false)
    | some serial =>
      match props.propAreaForName n with
      | none => some (props, false)
      | some (context, area) =>
        match area.add n namelen v valuelen with
        | none => none
        | some (grown, false) => some (props.setArea context grown, false)
        | some (grown, true) =>
          some ({ props.setArea context grown with areaSerial := some (serial + 1) }, true)

/-! ## The store as a map -/

/-- The `prop_info` that `find` leads to, and the pointer to it. -/
def lookup : Option (PropInfoPtr × PropInfo) :=
  match props.areaSerial with
  | none => none
  | some _ =>
    match props.propAreaForName n with
    | none => none
    | some (context, area) => (area.lookup n).map fun found => ((context, found.1), found.2)

def WellFormed : Prop :=
  ∀ context a, props.areas context = some a → ∃ par, a.Trie par

end

def fresh (prefixes : List PrefixNode) : SystemProperties where
  prefixes := prefixes
  areas := fun _ => some init
  areaSerial := some 0

theorem wellFormed_fresh (pfs : List PrefixNode) : WellFormed (fresh pfs) := by
  intro _ a image
  cases image
  exact ⟨_, PropArea.Trie.init⟩

theorem lookup_fresh (pfs : List PrefixNode) (nm : PropName) : (fresh pfs).lookup nm.bytes = none := by
  have emp : init.lookup nm.bytes = none := by
    rw [lookup_eq_none PropArea.Trie.init]
    intro _ _ kept
    obtain ⟨n, -, -, -, hw⟩ := kept
    cases hw
  unfold lookup
  cases hf : (fresh pfs).propAreaForName nm.bytes with
  | none => rfl
  | some ent =>
    obtain ⟨_, a⟩ := ent
    -- every area of a fresh store is empty
    have isInit : a = init := by
      unfold propAreaForName at hf
      split at hf
      · cases hf
      · simp only [fresh, Option.map_some, Option.some.injEq, Prod.mk.injEq] at hf
        exact hf.2.symm
    simp [fresh, isInit, emp]

section Frame

variable {prs : SystemProperties} {ctx : Nat} {a : PropArea} {n : Bytes}

theorem propAreaForName_area (hf : prs.propAreaForName n = some (ctx, a)) : prs.areas ctx = some a := by
  unfold propAreaForName at hf
  split at hf
  · cases hf
  · obtain ⟨o, image, eq⟩ := Option.map_eq_some_iff.mp hf
    cases eq
    exact image

theorem wellFormed_setArea (wf : WellFormed prs) {par : Nat → List Bytes} (tr : a.Trie par) (ser : Option (BitVec 32)) :
    WellFormed { prs.setArea ctx a with areaSerial := ser } := by
  intro c o image
  by_cases eq : c = ctx
  · simp only [setArea, eq, if_true, Option.some.injEq] at image
    exact ⟨par, image ▸ tr⟩
  · simp only [setArea, eq] at image
    exact wf c o image

variable {g : PropArea}

/-- Replacing one area changes only what is looked up there. -/
theorem lookup_setArea {ser next : BitVec 32} (image : prs.areas ctx = some a)
    (hv : prs.areaSerial = some ser) (n : Bytes) (eq : g.lookup n = a.lookup n) :
    { prs.setArea ctx g with areaSerial := some next }.lookup n = prs.lookup n := by
  simp only [lookup, hv, propAreaForName, setArea]
  cases prs.prefixes.find? (·.covers n) with
  | none => rfl
  | some ent =>
    by_cases here : ent.context = ctx
    · simp [here, image, eq]
    · simp [here]

theorem lookup_setArea_self (next : BitVec 32) (hf : prs.propAreaForName n = some (ctx, a)) :
    { prs.setArea ctx g with areaSerial := some next }.lookup n =
      (g.lookup n).map fun hit => ((ctx, hit.1), hit.2) := by
  unfold propAreaForName at hf
  split at hf
  · cases hf
  · rename_i ent first
    obtain ⟨o, -, eq⟩ := Option.map_eq_some_iff.mp hf
    cases eq
    simp [lookup, propAreaForName, setArea, first]

end Frame

section Specs

variable {prs : SystemProperties}

/-- `__system_property_find` returns, and returns what `lookup` reports. -/
theorem find_spec (wf : WellFormed prs) (n : PropName) :
    prs.find n.bytes = some ((prs.lookup n.bytes).map Prod.fst) := by
  unfold find lookup
  cases prs.areaSerial with
  | none => rfl
  | some _ =>
    cases hf : prs.propAreaForName n.bytes with
    | none => rfl
    | some ent =>
      obtain ⟨ctx, a⟩ := ent
      obtain ⟨_, tr⟩ := wf ctx a (propAreaForName_area hf)
      simp only [PropArea.find_spec tr n]
      cases a.lookup n.bytes <;> rfl

variable {pi : PropInfoPtr} {info : PropInfo} {n : PropName}

theorem lookup_eq_some {n : Bytes} (hf : prs.lookup n = some (pi, info)) :
    ∃ ser a, prs.areaSerial = some ser ∧ prs.propAreaForName n = some (pi.1, a) ∧ a.lookup n = some (pi.2, info) := by
  unfold lookup at hf
  split at hf
  · cases hf
  · rename_i ser hv
    split at hf
    · cases hf
    · rename_i ctx a here
      obtain ⟨_, look, eq⟩ := Option.map_eq_some_iff.mp hf
      cases eq
      exact ⟨ser, a, hv, here, look⟩

/-- Names agree on what is looked up if all that the trie can hold do. -/
theorem lookup_of_names {o : SystemProperties} {n : Bytes} (free : NulFree n) (fits : n.length < 2 ^ 32)
    (eq : ∀ held : PropName, held.bytes = n → o.lookup held.bytes = prs.lookup held.bytes) :
    o.lookup n = prs.lookup n := by
  by_cases ne : ∀ tok ∈ n.splitOn dot, tok ≠ []
  · exact eq ⟨n, free, fits, ne⟩ rfl
  · have ha : ∀ store : SystemProperties, store.lookup n = none := by
      intro store
      cases look : store.lookup n with
      | none => rfl
      | some _ =>
        obtain ⟨_, _, _, _, hf⟩ := lookup_eq_some look
        exact absurd (lookup_tokens hf) ne
    rw [ha, ha]

/-- `__system_property_update` through a pointer that `find` returned rewrites that
    property and no other. -/
theorem update_spec (wf : WellFormed prs) (hf : prs.lookup n.bytes = some (pi, info)) (v : Bytes)
    {len : Nat} (fits : len < PROP_VALUE_MAX) :
    ∃ updated, prs.update pi v len = (updated, true) ∧ WellFormed updated ∧
      updated.lookup n.bytes = some (pi, info.update v len) ∧
      ∀ o, o ≠ n → updated.lookup o.bytes = prs.lookup o.bytes := by
  obtain ⟨ser, a, hv, here, look⟩ := lookup_eq_some hf
  have image := propAreaForName_area here
  obtain ⟨_, tr⟩ := wf pi.1 a image
  obtain ⟨post, done, afterTrie, fr, own⟩ := PropArea.update_spec tr look v fits
  refine ⟨{ prs.setArea pi.1 post with areaSerial := some (ser + 1) }, ?_, wellFormed_setArea wf afterTrie _, ?_, ?_⟩
  · rw [update, if_neg (by omega)]
    simp only [hv, image, done]
  · rw [lookup_setArea_self _ here, own]
    rfl
  · intro o ne
    exact lookup_setArea image hv o.bytes (fr o ne)

/-- `__system_property_add` of an absent name either stores it or fails, and
    disturbs no other name. -/
theorem add_spec (wf : WellFormed prs) (ha : prs.lookup n.bytes = none) (v : Bytes)
    {vl : Nat} (fits : vl < PROP_VALUE_MAX) :
    ∃ adds kept, prs.add n.bytes n.bytes.length v vl = some (adds, kept) ∧
      WellFormed adds ∧ (∀ o, o ≠ n → adds.lookup o.bytes = prs.lookup o.bytes) ∧
      ((kept = false ∧ adds.lookup n.bytes = none) ∨ (kept = true ∧ ∃ pi, adds.lookup n.bytes =
          some (pi, PropInfo.construct {} n.bytes n.bytes.length v vl))) := by
  -- a name has at least one byte
  have nonempty : ¬ n.bytes.length < 1 := by
    intro _
    have emp : n.bytes = [] := List.length_eq_zero_iff.mp (by omega)
    exact n.nonempty [] (by rw [emp]; decide) rfl
  unfold add
  rw [if_neg (by omega), if_neg nonempty]
  cases hv : prs.areaSerial with
  | none => exact ⟨prs, false, rfl, wf, fun _ _ => rfl, .inl ⟨rfl, ha⟩⟩
  | some ser =>
    cases here : prs.propAreaForName n.bytes with
    | none => exact ⟨prs, false, rfl, wf, fun _ _ => rfl, .inl ⟨rfl, ha⟩⟩
    | some ent =>
      obtain ⟨ctx, a⟩ := ent
      have image := propAreaForName_area here
      obtain ⟨_, tr⟩ := wf ctx a image
      have free : a.lookup n.bytes = none := by
        simpa [lookup, hv, here] using ha
      obtain ⟨hg, _, ran, ⟨_, gtr⟩, frame, oc⟩ :=
        PropArea.add_spec tr n v vl
      simp only [ran]
      rcases oc with ⟨-, hp, -⟩ | ⟨rfl, -, off, own⟩ | ⟨rfl, -, own, -⟩
      · exact absurd free hp
      · refine ⟨_, true, rfl, wellFormed_setArea wf gtr _, ?_, .inr ⟨rfl, (ctx, off), ?_⟩⟩
        · intro o ne
          exact lookup_setArea image hv o.bytes (frame o ne)
        · rw [lookup_setArea_self _ here, own]
          rfl
      · -- some nodes may have been linked, but the serial stays
        have eq : prs.setArea ctx hg = { prs.setArea ctx hg with areaSerial := some ser } := by
          simp [setArea, hv]
        refine ⟨_, false, rfl, ?_, ?_, .inl ⟨rfl, ?_⟩⟩
        · exact wellFormed_setArea wf gtr _
        · intro o ne
          rw [eq]
          exact lookup_setArea image hv o.bytes (frame o ne)
        · rw [eq, lookup_setArea_self _ here, own]
          rfl

end Specs

end SystemProperties

end Aosp.Bionic
