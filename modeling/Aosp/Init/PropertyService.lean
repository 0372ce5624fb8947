import Aosp.Bionic.SystemProperties
import Aosp.Init.Action

/-! # `property_set`

Model of the part of `init/property_service.cpp` that sets a property, with
`property_changed` of `init/init.cpp`.  The state is what these functions read
and write: the property store, the files of persistent properties, the action
manager and the property being waited for.  What leaves init (a `restorecon`, a
power control request, a control message) is recorded as an effect.

`InitState.propertySet_outcome` says once what a call can do; everything about the property
service is derived from it.
-/

namespace Aosp.Init

open Aosp.Lib Aosp.Bionic List

/-! ## Names -/

/-- The characters a token may have. -/
def isNameChar (c : UInt8) : Bool :=
  c = 95 || c = 45 || c = 64 || c = 58 || (97 ≤ c && c ≤ 122) || (65 ≤ c && c ≤ 90) || (48 ≤ c && c ≤ 57)

/-- The loop of `is_legal_property_name`, with the previous character. -/
def legalFrom (previous : UInt8) : Bytes → Bool
  | [] => true
  | c :: rest =>
    if c = dot then if previous = dot then false else legalFrom c rest
    else if isNameChar c then legalFrom c rest
    else false

def isLegalPropertyName (n : Bytes) : Bool :=
  if n.length < 1 then false
  else if n.headD 0 = dot then false
  else if n.getLastD 0 = dot then false
  else legalFrom 0 n

variable {previous : UInt8} {s : Bytes}

theorem legalFrom_mem {c : UInt8} (legal : legalFrom previous s = true) (mem : c ∈ s) :
    c = dot ∨ isNameChar c = true := by
  induction s generalizing previous with
  | nil => cases mem
  | cons _ _ ih =>
    unfold legalFrom at legal
    split at legal
    · rename_i isDot
      split at legal
      · cases legal
      · rcases mem_cons.mp mem with isFirst | late
        · exact .inl (isFirst.trans isDot)
        · exact ih legal late
    · split at legal
      · rename_i name
        rcases mem_cons.mp mem with isFirst | late
        · rw [isFirst]
          exact .inr name
        · exact ih legal late
      · cases legal

def isNameToken (tok : Bytes) : Prop := tok ≠ [] ∧ ∀ c ∈ tok, isNameChar c = true

/-- The loop accepts what is made of tokens, of which only the first may be empty, and that
    only if no dot stands before it. -/
theorem legalFrom_iff {first : Bytes} {tl : List Bytes} (split : s.splitOn dot = first :: tl)
    (last : s.getLastD previous ≠ dot) :
    legalFrom previous s = true ↔
      (∀ c ∈ first, isNameChar c = true) ∧ (previous = dot → first ≠ []) ∧ ∀ tok ∈ tl, isNameToken tok := by
  induction s generalizing previous first tl with
  | nil =>
    cases split
    simpa [legalFrom] using last
  | cons c s ih =>
    rw [getLastD_cons] at last
    obtain ⟨_, _, nextSplit⟩ := exists_cons_of_ne_nil (splitOn_ne_nil dot s)
    have turn := ih nextSplit last
    rw [splitOn, splitOnP_cons_eq_if_modifyHead, ← splitOn, nextSplit] at split
    by_cases isDot : c = dot
    · subst isDot
      cases split
      by_cases dots : previous = dot
      · simp [legalFrom, dots]
      · simp [legalFrom, turn, isNameToken, and_left_comm, and_assoc]
    · rw [beq_false_of_ne isDot] at split
      cases split
      simp [legalFrom, isDot, turn, and_assoc]

theorem isLegalPropertyName_iff {n : Bytes} :
    isLegalPropertyName n = true ↔ ∀ tok ∈ n.splitOn dot, isNameToken tok := by
  obtain ⟨first, _, split⟩ := exists_cons_of_ne_nil (splitOn_ne_nil dot n)
  cases n with
  | nil => simp [isLegalPropertyName, isNameToken]
  | cons c n =>
    by_cases last : n.getLastD c = dot
    · -- an empty token stands behind the last dot
      have toks : [] ∈ (c :: n).splitOn dot := by
        rw [← dropLast_append_getLast (cons_ne_nil c n), getLast_eq_getLastD, last, splitOn,
          splitOnP_append_cons _ _ (by simp)]
        simp
      simp only [isLegalPropertyName, getLastD_cons, last, if_true, ite_self, Bool.false_eq_true, false_iff]
      exact fun legal => (legal [] toks).1 rfl
    · have legal := @legalFrom_iff dot _ _ _ split (by rwa [getLastD_cons])
      rw [isLegalPropertyName, getLastD_cons, if_neg last, split, forall_mem_cons, isNameToken,
        and_comm (a := first ≠ []), and_assoc]
      by_cases isDot : c = dot <;> simpa [legalFrom, isDot] using legal

section

variable (legal : isLegalPropertyName n = true)
include legal

theorem legal_mem {c : UInt8} (mem : c ∈ n) : c = dot ∨ isNameChar c = true := by
  have accepted : legalFrom 0 n = true := by grind [isLegalPropertyName]
  exact legalFrom_mem accepted mem

theorem legal_nulFree : NulFree n :=
  fun zero => absurd (legal_mem legal zero) (by decide)

def PropName.ofLegal (n : Bytes) (legal : isLegalPropertyName n = true)
    (short : n.length < 2 ^ 32) : PropName where
  bytes := n
  nulFree := legal_nulFree legal
  short := short
  nonempty := fun tok mem => (isLegalPropertyName_iff.mp legal tok mem).1

theorem cstr_of_legal : cstr n = n :=
  cstr_of_nulFree (legal_nulFree legal)

end

/-! ## State -/

/-- `PROP_SUCCESS` and the `PROP_ERROR_` codes. -/
inductive PropResult where
  | success
  | readCmd
  | readData
  | readOnlyProperty
  | invalidName
  | invalidValue
  | permissionDenied
  | invalidCmd
  | handleControlMessage
  | setFailed
deriving DecidableEq

inductive Effect where
  | restorecon (p : Bytes)
  | powerctl (v : Bytes)
  | controlMessage (msg n : Bytes)
deriving DecidableEq

structure InitState where
  properties : SystemProperties
  persistentPropertiesLoaded : Bool := false
  -- the regular files by path
  files : Bytes → Option Bytes := fun _ => none
  manager : ActionManager := {}
  propertyTriggersEnabled : Bool := false
  -- `wait_prop_name` and `wait_prop_value` while `waiting_for_prop` is set
  waitingForProp : Option (Bytes × Bytes) := none
  effects : List Effect := []

/-- What the system calls of `write_persistent_property` return: whether
    `mkstemp` and `rename` succeed, and how much `write` writes. -/
structure PersistEnv where
  mkstemp : Bool := true
  written : Nat := PROP_VALUE_MAX
  rename : Bool := true

def PATH_MAX : Nat := 4096

def persistentPath (n : Bytes) : Bytes :=
  (ascii "/data/property/" ++ cstr n).take (PATH_MAX - 1)

def writePersistentProperty (e : PersistEnv) (files : Bytes → Option Bytes) (n v : Bytes) :
    Bytes → Option Bytes :=
  if e.mkstemp && e.rename then
    fun p => if p = persistentPath n then some ((cstr v).take e.written) else files p
  else files

/-! ## Setting a property -/

namespace InitState

section

variable (e : PersistEnv) (s : InitState) (n v : Bytes)

def effect (s : InitState) (effect : Effect) : InitState :=
  { s with effects := s.effects ++ [effect] }

def propertyChanged : InitState :=
  let s := if n = ascii "sys.powerctl" then s.effect (.powerctl v) else s
  let s :=
    if s.propertyTriggersEnabled then
      { s with manager := s.manager.queuePropertyTrigger n v }
    else s
  if s.waitingForProp = some (n, v) then { s with waitingForProp := none } else s

/-- The end of a `property_set` that stored the value. -/
def announce : InitState :=
  let s :=
    if s.persistentPropertiesLoaded && (ascii "persist.").isPrefixOf n then
      { s with files := writePersistentProperty e s.files n v }
    else s
  s.propertyChanged n v

/-- The label restored before the value is stored. -/
def restorecon : InitState :=
  if n = ascii "selinux.restorecon_recursive" ∧ v.length > 0 then
    s.effect (.restorecon (cstr v))
  else s

/-- `none` if a walk of the trie did not end. -/
def propertySet : Option (InitState × PropResult) :=
  let valuelen := v.length
  if isLegalPropertyName n = false then some (s, .invalidName)
  else if valuelen ≥ PROP_VALUE_MAX then some (s, .invalidValue)
  else
    let s := s.restorecon n v
    match s.properties.find (cstr n) with
    | none => none
    | some (some pi) =>
      if (ascii "ro.").isPrefixOf n then some (s, .readOnlyProperty)
      else
        let properties := (s.properties.update pi v valuelen).1
        some ({ s with properties }.announce e n v, .success)
    | some none =>
      match s.properties.add (cstr n) (n.length % 2 ^ 32) v valuelen with
      | none => none
      | some (properties, false) => some ({ s with properties }, .setFailed)
      | some (properties, true) =>
        some ({ s with properties }.announce e n v, .success)

@[simp] theorem propertyChanged_properties (s : InitState) (n v : Bytes) :
    (s.propertyChanged n v).properties = s.properties := by
  simp only [propertyChanged]
  split <;> split <;> split <;> rfl

@[simp] theorem announce_properties (e : PersistEnv) (s : InitState) (n v : Bytes) :
    (s.announce e n v).properties = s.properties := by
  simp only [announce, propertyChanged_properties]
  split <;> rfl

@[simp] theorem restorecon_properties (s : InitState) (n v : Bytes) : (s.restorecon n v).properties = s.properties := by
  unfold restorecon
  split <;> rfl

/-- What a value leaves in a `prop_info` that held `pre`, or in a new one. -/
def storedInfo : Option PropInfo → PropInfo
  | some pre => pre.update v v.length
  | none => PropInfo.construct {} n n.length v v.length

inductive SetOutcome (e : PersistEnv) (s : InitState) (n v : Bytes) :
    InitState → PropResult → Prop where
  | badName (illegal : isLegalPropertyName n = false) :
      SetOutcome e s n v s .invalidName
  | badValue (legal : isLegalPropertyName n = true) (long : PROP_VALUE_MAX ≤ v.length) :
      SetOutcome e s n v s .invalidValue
  | readOnly (legal : isLegalPropertyName n = true) (fits : v.length < PROP_VALUE_MAX)
      (present : s.properties.lookup n ≠ none)
      (marked : (ascii "ro.").isPrefixOf n = true) :
      SetOutcome e s n v (s.restorecon n v) .readOnlyProperty
  | full (legal : isLegalPropertyName n = true) (fits : v.length < PROP_VALUE_MAX)
      (absent : s.properties.lookup n = none) (properties : SystemProperties)
      (wf : properties.WellFormed)
      (kept : ∀ o : PropName, properties.lookup o.bytes = s.properties.lookup o.bytes) :
      SetOutcome e s n v { s.restorecon n v with properties } .setFailed
  | stored (legal : isLegalPropertyName n = true) (fits : v.length < PROP_VALUE_MAX)
      (writable : s.properties.lookup n ≠ none → (ascii "ro.").isPrefixOf n = false)
      (properties : SystemProperties) (pi : PropInfoPtr) (wf : properties.WellFormed)
      (own : properties.lookup n = some (pi, storedInfo n v ((s.properties.lookup n).map Prod.snd)))
      (kept : ∀ o : PropName, o.bytes ≠ n → properties.lookup o.bytes = s.properties.lookup o.bytes) :
      SetOutcome e s n v
        ({ s.restorecon n v with properties }.announce e n v) .success

end

theorem propertySet_outcome {s : InitState} (wf : s.properties.WellFormed)
    (e : PersistEnv) (n v : Bytes) (short : n.length < 2 ^ 32) :
    ∃ post res, s.propertySet e n v = some (post, res) ∧ SetOutcome e s n v post res := by
  unfold propertySet
  by_cases bad : isLegalPropertyName n = false
  · exact ⟨s, .invalidName, by simp [bad], .badName bad⟩
  have legal : isLegalPropertyName n = true := by simpa using bad
  by_cases long : v.length ≥ PROP_VALUE_MAX
  · exact ⟨s, .invalidValue, by simp [legal, long], .badValue legal long⟩
  have fits : v.length < PROP_VALUE_MAX := by omega
  have hf := SystemProperties.find_spec wf (PropName.ofLegal n legal short)
  have len : n.length % 2 ^ 32 = n.length := Nat.mod_eq_of_lt short
  have ne : ∀ o : PropName, o.bytes ≠ n → o ≠ PropName.ofLegal n legal short :=
    fun o far eq => far (congrArg PropName.bytes eq)
  simp only [PropName.ofLegal] at hf
  simp only [bad, long, cstr_of_legal legal, restorecon_properties, hf, len]
  cases look : s.properties.lookup n with
  | some hit =>
    obtain ⟨pi, _⟩ := hit
    simp only [Option.map_some]
    cases mark : (ascii "ro.").isPrefixOf n with
    | true => exact ⟨_, _, rfl, .readOnly legal fits (by simp [look]) mark⟩
    | false =>
      have hit : s.properties.lookup (PropName.ofLegal n legal short).bytes = some _ := look
      obtain ⟨updated, done, updatedWellFormed, own, fr⟩ :=
        SystemProperties.update_spec wf hit v fits
      refine ⟨_, _, by simp only [done]; rfl, .stored legal fits (fun _ => mark) updated pi
        updatedWellFormed ?_ fun o far => fr o (ne o far)⟩
      rw [look]
      exact own
  | none =>
    have ha : s.properties.lookup (PropName.ofLegal n legal short).bytes = none := look
    obtain ⟨adds, _, done, addedWellFormed, fr, oc⟩ :=
      SystemProperties.add_spec wf ha v fits
    simp only [PropName.ofLegal] at done oc
    rcases oc with ⟨rfl, stillAbsent⟩ | ⟨rfl, pi, own⟩
    · refine ⟨_, _, by simp only [done]; rfl, .full legal fits look adds addedWellFormed ?_⟩
      intro o
      by_cases eq : o.bytes = n
      · rw [eq, stillAbsent, look]
      · exact fr o (ne o eq)
    · refine ⟨_, _, by simp only [done]; rfl, .stored legal fits (fun hp => absurd look hp) adds
        pi addedWellFormed ?_ fun o far => fr o (ne o far)⟩
      rw [look]
      exact own

end InitState

end Aosp.Init
