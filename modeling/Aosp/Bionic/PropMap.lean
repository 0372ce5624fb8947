import Aosp.Bionic.PropAreaSpec

/-! # A `prop_area` is a finite map from names to values

The abstract view of one area over a whole run of `add` and
`__system_property_update`.  A run records each operation with its outcome;
`firstAdd` and `lastUpdate` read off that history what a name must hold, and
`Refines` ties the area to the history.  One operation keeps `Refines`
(`step_refines`), and so does every run from the empty area (`run_refines`).
-/

namespace Aosp.Bionic

open Aosp.Lib PropArea

/-! ## Values -/

/-- A value as `add` and `__system_property_update` accept it. -/
structure PropValue where
  bytes : Bytes
  nulFree : NulFree bytes
  short : bytes.length < PROP_VALUE_MAX

/-- The `prop_info` is not being written, and its length and bytes are those of
    the value. -/
structure PropInfo.Holds (info : PropInfo) (v : Bytes) : Prop where
  clean : serialDirty info.serial = false
  length : serialValueLen info.serial = v.length
  terminated : info.value.bytes (v.length + 1) = v ++ [0]

theorem PropInfo.construct_holds (memory : PropInfo) (n : Bytes) (nl : Nat) (v : Bytes)
    (fits : v.length < PROP_VALUE_MAX) : (PropInfo.construct memory n nl v v.length).Holds v where
  clean := by
    rw [serialDirty_eq, PropInfo.construct, initialSerial_toNat fits]
    simp only [decide_eq_false_iff_not]
    omega
  length := by
    rw [serialValueLen_eq, PropInfo.construct, initialSerial_toNat fits]
    omega
  terminated := Buffer.bytes_memcpy_set memory.value v fits

theorem PropInfo.update_serial_toNat (info : PropInfo) (v : Bytes) {len : Nat} (fits : len < PROP_VALUE_MAX) :
    (info.update v len).serial.toNat = len * 2 ^ 24 + (info.serial.toNat / 2 * 2 + 2) % 2 ^ 24 := by
  rw [PropInfo.update, nextSerial_toNat fits, dirtySerial_toNat]

theorem PropInfo.update_holds (info : PropInfo) (v : PropValue) :
    (info.update v.bytes v.bytes.length).Holds v.bytes where
  clean := by
    rw [serialDirty_eq, info.update_serial_toNat _ v.short]
    simp only [decide_eq_false_iff_not]
    omega
  length := by
    rw [serialValueLen_eq, info.update_serial_toNat _ v.short]
    omega
  terminated := Buffer.bytes_strlcpy info.value v.bytes v.nulFree v.short

/-! ## Operations and their history -/

/-- An operation on one area.  An update goes through the `prop_info` that
    `find` returns, so on an absent name there is nothing to call it with. -/
inductive AreaOp where
  | add (n : PropName) (v : PropValue)
  | update (n : PropName) (v : PropValue)

namespace AreaOp

def name : AreaOp → PropName
  | .add name _ => name
  | .update name _ => name

/-- The area afterwards, and whether the operation took place. -/
def exec (a : PropArea) : AreaOp → Option (PropArea × Bool)
  | .add n v => a.add n.bytes n.bytes.length v.bytes v.bytes.length
  | .update n v =>
    match a.find n.bytes with
    | none => none
    | some none => some (a, false)
    | some (some pi) => some (a.update pi v.bytes v.bytes.length)

/-- The value of a successful `add` of the name. -/
def added (nm : PropName) : AreaOp × Bool → Option Bytes
  | (.add n value, true) => if n.bytes = nm.bytes then some value.bytes else none
  | _ => none

def updated (nm : PropName) : AreaOp × Bool → Option Bytes
  | (.update n value, true) => if n.bytes = nm.bytes then some value.bytes else none
  | _ => none

end AreaOp

structure AreaRun where
  area : PropArea := init
  history : List (AreaOp × Bool) := []

namespace AreaRun

def step (run : AreaRun) (op : AreaOp) : Option AreaRun :=
  match op.exec run.area with
  | none => none
  | some (a, out) => some ⟨a, run.history ++ [(op, out)]⟩

def steps (ops : List AreaOp) : Option AreaRun := ops.foldlM step {}

end AreaRun

open AreaOp

def firstAdd (history : List (AreaOp × Bool)) (n : PropName) : Option Bytes :=
  history.findSome? (added n)

def lastUpdate (history : List (AreaOp × Bool)) (n : PropName) : Option Bytes :=
  history.reverse.findSome? (updated n)

theorem firstAdd_snoc (history : List (AreaOp × Bool)) (ent : AreaOp × Bool) (n : PropName) :
    firstAdd (history ++ [ent]) n = (firstAdd history n).or (added n ent) := by
  simp [firstAdd]

theorem lastUpdate_snoc (history : List (AreaOp × Bool)) (ent : AreaOp × Bool) (n : PropName) :
    lastUpdate (history ++ [ent]) n = (updated n ent).or (lastUpdate history n) := by
  rw [lastUpdate, List.reverse_append, List.findSome?_append]
  simp [lastUpdate]

theorem firstAdd_isSome (history : List (AreaOp × Bool)) (nm : PropName) :
    (firstAdd history nm).isSome ↔ ∃ v, (add nm v, true) ∈ history := by
  rw [firstAdd, List.findSome?_isSome_iff]
  constructor
  · rintro ⟨⟨op, oc⟩, mem, some⟩
    cases op with
    | update => simp [added] at some
    | add n v =>
      cases oc with
      | false => simp [added] at some
      | true =>
        by_cases eq : n.bytes = nm.bytes
        · obtain rfl := PropName.ext eq
          exact ⟨v, mem⟩
        · simp [added, eq] at some
  · rintro ⟨v, mem⟩
    exact ⟨_, mem, by simp [added]⟩

variable {ent : AreaOp × Bool} {nm : PropName}

/-- Operations on other names and operations that did not take place say nothing
    about a name. -/
theorem AreaOp.silent (o : nm ≠ ent.1.name ∨ ent.2 = false) : added nm ent = none ∧ updated nm ent = none := by
  obtain ⟨op, oc⟩ := ent
  cases oc with
  | false => cases op <;> exact ⟨rfl, rfl⟩
  | true =>
    have different : op.name.bytes ≠ nm.bytes := fun eq =>
      o.elim (fun ne => ne (PropName.ext eq.symm)) (by simp)
    cases op with
    | add n v => exact ⟨if_neg different, rfl⟩
    | update n v => exact ⟨rfl, if_neg different⟩

/-! ## Refinement -/

def Agrees (history : List (AreaOp × Bool)) (n : PropName) : Option (Nat × PropInfo) → Prop
  | none => firstAdd history n = none ∧ lastUpdate history n = none
  | some (_, info) => ∃ first, firstAdd history n = some first ∧ info.Holds ((lastUpdate history n).getD first)

structure Refines (a : PropArea) (history : List (AreaOp × Bool)) : Prop where
  trie : ∃ par, a.Trie par
  agrees : ∀ nm : PropName, Agrees history nm (a.lookup nm.bytes)

theorem Agrees.snoc_silent {history : List (AreaOp × Bool)} {held : Option (Nat × PropInfo)}
    (agree : Agrees history nm held)
    (entry : nm ≠ ent.1.name ∨ ent.2 = false) : Agrees (history ++ [ent]) nm held := by
  obtain ⟨noAdd, noUpdate⟩ := silent entry
  cases held <;> simpa [Agrees, firstAdd_snoc, lastUpdate_snoc, noAdd, noUpdate] using agree

theorem Refines.init : Refines PropArea.init [] where
  trie := ⟨_, PropArea.Trie.init⟩
  agrees := by
    intro nm
    have emp : PropArea.init.lookup nm.bytes = none := by
      rw [PropArea.lookup_eq_none PropArea.Trie.init]
      rintro _ _ ⟨n, -, -, -, hw⟩
      cases hw
    rw [emp]
    exact ⟨rfl, rfl⟩

/-- One operation takes place or not, but it returns, and it keeps the area and
    the history in agreement. -/
theorem step_refines {run : AreaRun} (refines : Refines run.area run.history) (op : AreaOp) :
    ∃ next, run.step op = some next ∧ Refines next.area next.history ∧
      (∃ oc, op.exec run.area = some (next.area, oc) ∧ next.history = run.history ++ [(op, oc)]) ∧
      ∀ o : PropName, o ≠ op.name → next.area.lookup o.bytes = run.area.lookup o.bytes := by
  obtain ⟨_, tr⟩ := refines.trie
  -- it is enough to describe the area afterwards and what the operation's own name leads to
  suffices described : ∃ a oc, op.exec run.area = some (a, oc) ∧
      (∃ parent, a.Trie parent) ∧
      (∀ o : PropName, o ≠ op.name → a.lookup o.bytes = run.area.lookup o.bytes) ∧
      Agrees (run.history ++ [(op, oc)]) op.name (a.lookup op.name.bytes) by
    obtain ⟨a, oc, ran, areaTrie, fr, own⟩ := described
    refine ⟨⟨a, run.history ++ [(op, oc)]⟩, by simp [AreaRun.step, ran], ⟨areaTrie, ?_⟩, ⟨oc, ran, rfl⟩, fr⟩
    intro nm
    by_cases eq : nm = op.name
    · subst eq; exact own
    · rw [fr nm eq]
      exact (refines.agrees nm).snoc_silent (.inl eq)
  have pre := refines.agrees op.name
  cases op with
  | add nm v =>
    obtain ⟨hg, adds, ran, gtr, fr, oc⟩ :=
      add_spec tr nm v.bytes v.bytes.length
    refine ⟨hg, adds, ran, gtr, fr, ?_⟩
    simp only [AreaOp.name] at pre ⊢
    rcases oc with ⟨rfl, hp, rfl⟩ | ⟨rfl, ha, off, hf⟩ | ⟨rfl, ha, stillAbsent, -⟩
    · -- the name is there: the first successful `add` stays the first
      obtain ⟨⟨off, info⟩, hf⟩ := Option.ne_none_iff_exists'.mp hp
      rw [hf] at pre ⊢
      obtain ⟨first, adds, hh⟩ := pre
      refine ⟨first, by rw [firstAdd_snoc, adds]; rfl, ?_⟩
      rw [lastUpdate_snoc]
      exact hh
    · rw [ha] at pre
      rw [hf]
      refine ⟨v.bytes, by simp [firstAdd_snoc, pre.1, added], ?_⟩
      rw [lastUpdate_snoc, pre.2]
      exact PropInfo.construct_holds _ _ _ _ v.short
    · rw [ha] at pre
      rw [stillAbsent]
      exact pre.snoc_silent (.inr rfl)
  | update nm v =>
    have ret := find_spec tr nm
    cases hf : run.area.lookup nm.bytes with
    | none =>
      refine ⟨run.area, false, by simp [exec, ret, hf], refines.trie, fun _ _ => rfl, ?_⟩
      exact pre.snoc_silent (.inr rfl)
    | some held =>
      obtain ⟨off, info⟩ := held
      obtain ⟨isUpdated, ran, updatedTrie, fr, own⟩ :=
        update_spec tr hf v.bytes v.short
      refine ⟨isUpdated, true, by simp [exec, ret, hf, ran], ⟨_, updatedTrie⟩, fr, ?_⟩
      simp only [AreaOp.name, hf] at pre ⊢
      rw [own]
      obtain ⟨first, adds, -⟩ := pre
      refine ⟨first, by rw [firstAdd_snoc, adds]; rfl, ?_⟩
      simpa [lastUpdate_snoc, updated] using info.update_holds v

theorem run_refines (ops : List AreaOp) :
    ∃ run, AreaRun.steps ops = some run ∧ run.history.map Prod.fst = ops ∧ Refines run.area run.history := by
  have general : ∀ (ops : List AreaOp) (beg : AreaRun), Refines beg.area beg.history →
      ∃ run, ops.foldlM AreaRun.step beg = some run ∧ run.history.map Prod.fst = beg.history.map Prod.fst ++ ops ∧
        Refines run.area run.history := by
    intro ops
    induction ops with
    | nil => exact fun beg refines => ⟨beg, rfl, by simp, refines⟩
    | cons op ops ih =>
      intro beg refines
      obtain ⟨next, stepped, nextRefines, ⟨_, -, more⟩, -⟩ := step_refines refines op
      obtain ⟨run, tl, history, runRefines⟩ := ih next nextRefines
      refine ⟨run, by simp [stepped, tl], ?_, runRefines⟩
      rw [history, more]
      simp
  obtain ⟨run, ran, history, refines⟩ := general ops {} Refines.init
  exact ⟨run, ran, by simpa using history, refines⟩

/-- The area refines the map its history describes.  A name is found iff an
    `add` of it succeeded; the `prop_info` found has that name and holds the value
    of the last update, or else of the first successful `add`; the next operation
    leaves alone what other names lead to; an `add` of a name that is present
    succeeds and leaves the area as it is; and an update takes place iff the name is
    present. -/
theorem prop_area_refines_map (ops : List AreaOp) :
    ∃ a history, AreaRun.steps ops = some ⟨a, history⟩ ∧ history.map Prod.fst = ops ∧
      (∀ n : PropName, a.find n.bytes = some ((a.lookup n.bytes).map Prod.fst)) ∧
      (∀ n : PropName, (a.lookup n.bytes).isSome ↔ ∃ v, (add n v, true) ∈ history) ∧
      (∀ (n : PropName) (off : Nat) (info : PropInfo), a.lookup n.bytes = some (off, info) →
        info.name = n.bytes ∧
          ∃ first, firstAdd history n = some first ∧ info.Holds ((lastUpdate history n).getD first)) ∧
      (∀ op : AreaOp, ∃ next out, op.exec a = some (next, out) ∧
        ∀ o : PropName, o ≠ op.name → next.lookup o.bytes = a.lookup o.bytes) ∧
      (∀ (n : PropName) (v : PropValue), (a.lookup n.bytes).isSome → (add n v).exec a = some (a, true)) ∧
      (∀ (n : PropName) (v : PropValue), ∃ next,
        (update n v).exec a = some (next, (a.lookup n.bytes).isSome)) := by
  obtain ⟨⟨a, history⟩, ran, recorded, refines⟩ := run_refines ops
  obtain ⟨_, tr⟩ := refines.trie
  refine ⟨a, history, ran, recorded, find_spec tr, ?_, ?_, ?_, ?_, ?_⟩
  · intro n
    have agrees := refines.agrees n
    rw [← firstAdd_isSome]
    cases found : a.lookup n.bytes with
    | none =>
      rw [found] at agrees
      simp [agrees.1]
    | some held =>
      rw [found] at agrees
      obtain ⟨first, added, -⟩ := agrees
      simp [added]
  · intro n off info found
    have agrees := refines.agrees n
    rw [found] at agrees
    exact ⟨lookup_name tr found, agrees⟩
  · intro op
    obtain ⟨next, -, -, ⟨out, executed, -⟩, fr⟩ := step_refines refines op
    exact ⟨next.area, out, executed, fr⟩
  · intro n v present
    obtain ⟨_, added, executed, -, -, out⟩ :=
      add_spec tr n v.bytes v.bytes.length
    rcases out with ⟨rfl, -, rfl⟩ | ⟨-, absent, -⟩ | ⟨-, absent, -⟩
    · exact executed
    · simp [absent] at present
    · simp [absent] at present
  · intro n v
    have ret := find_spec tr n
    cases found : a.lookup n.bytes with
    | none => exact ⟨a, by simp [exec, ret, found]⟩
    | some held =>
      obtain ⟨updated, executed, -⟩ := update_spec tr found v.bytes v.short
      exact ⟨updated, by simp [exec, ret, found, executed]⟩

end Aosp.Bionic
