import Aosp.Lib.Text
import Aosp.Mm.SharedPolicy

/-! # Policies as strings

Model of `mpol_parse_str` and `mpol_new` of `mm/mempolicy.c`, with what `nodelist_parse`
makes of a node list and the memory that is allocated as parameters.  The two separators
are overwritten and put back, the second one at the wrong place if the node list is not
accepted (`mpolParseStr_restores`).  An empty node list is accepted for a preferred node
(`mpolParseStr_preferred`).
-/

namespace Aosp.Mm

open Aosp.Lib List

def MPOL_DEFAULT : Nat := 0
def MPOL_LOCAL : Nat := 4
def MPOL_F_LOCAL : BitVec 16 := 0x2
def MPOL_F_STATIC_NODES : BitVec 16 := 0x8000
def MPOL_F_RELATIVE_NODES : BitVec 16 := 0x4000

def policyModes : List Bytes := [ascii "default", ascii "prefer", ascii "bind", ascii "interleave", ascii "local"]

/-- `alloc` is the memory that `kmem_cache_alloc` returns. -/
structure NodeEnv where
  maxNumnodes : Nat
  nMemory : Nat
  nodelistParse : Bytes → Option Nat
  alloc : Option Mempolicy
  fits : nMemory < 2 ^ maxNumnodes

section Definitions

variable (e : NodeEnv)

def firstNode (nodes : Nat) : Nat := ((range e.maxNumnodes).find? nodes.testBit).getD e.maxNumnodes

/-- For the modes that reach it; `none` is an error. -/
def mpolNew (mode : Nat) (flags : BitVec 16) (nodes : Nat) : Option Mempolicy :=
  if mode = MPOL_PREFERRED then
    if nodes = 0 ∧ (flags &&& MPOL_F_STATIC_NODES ≠ 0 ∨ flags &&& MPOL_F_RELATIVE_NODES ≠ 0) then none
    else e.alloc.map ({ · with mode, flags })
  else if nodes = 0 then none
  else e.alloc.map ({ · with mode, flags })

/-- The mask of the node list, if it is accepted. -/
def acceptNodes : Option Bytes → Option Nat
  | none => some 0
  | some nodelist => (e.nodelistParse nodelist).filter fun nodes => nodes &&& e.nMemory = nodes

def modeFlags : Option Bytes → Option (BitVec 16)
  | none => some 0
  | some flags =>
    if flags = ascii "static" then some MPOL_F_STATIC_NODES
    else if flags = ascii "relative" then some MPOL_F_RELATIVE_NODES
    else none

/-- From the call of `mpol_new` on. -/
def makePolicy (mode : Nat) (flags : BitVec 16) (nodes : Nat) (listed : Bool) : Option Mempolicy :=
  (mpolNew e mode flags nodes).map fun new =>
    let new :=
      if mode ≠ MPOL_PREFERRED then { new with nodes }
      else if listed then { new with preferredNode := firstNode e nodes }
      else { new with flags := new.flags ||| MPOL_F_LOCAL }
    { new with userNodemask := nodes }

/-- From the search for the mode on; `none` for an error, `some none` for a null pointer. -/
def parseFields (nodes : Nat) (mode : Bytes) (flags nodelist : Option Bytes) : Option (Option Mempolicy) :=
  match policyModes.findIdx? (· = mode) with
  | none => none
  | some mode =>
    if mode = MPOL_DEFAULT then if nodelist = none then some none else none
    else if mode = MPOL_PREFERRED ∧ nodelist.any (!·.all isDigit) ∨ mode = MPOL_LOCAL ∧ nodelist ≠ none ∨
        mode = MPOL_BIND ∧ nodelist = none then none
    else
      match modeFlags flags with
      | none => none
      | some modeFlags =>
        (makePolicy e (if mode = MPOL_LOCAL then MPOL_PREFERRED else mode) modeFlags
          (if mode = MPOL_INTERLEAVE ∧ nodelist = none then e.nMemory else nodes) nodelist.isSome).map some

/-- What is returned, the characters of the string afterwards, and whether the byte before
    it was written. -/
structure ParseOutcome where
  ret : Option (Option Mempolicy)
  text : Bytes
  before : Bool
deriving DecidableEq

def cutAt (t : Bytes) : Option Nat → Bytes
  | none => t
  | some i => t.set i 0

def pieceAfter (t : Bytes) (sep : Option Nat) : Option Bytes := sep.map fun i => cstr (t.drop (i + 1))

/-- From the label `out` on, where `flags` is the pointer. -/
def restoreStr (ret : Option (Option Mempolicy)) (t : Bytes) (nodelist flags : Option Nat) : ParseOutcome :=
  let t := match nodelist with | none => t | some i => t.set i 58
  match flags with
  | none => ⟨ret, t, false⟩
  | some 0 => ⟨ret, t, true⟩
  | some (j + 1) => ⟨ret, t.set j 61, false⟩

def mpolParseStr (str : Bytes) : ParseOutcome :=
  let nodelist := strchr str 58
  let flags := strchr str 61
  let t := cutAt str nodelist
  match acceptNodes e (pieceAfter t nodelist) with
  | none => restoreStr none t nodelist flags
  | some nodes =>
    let t := cutAt t flags
    restoreStr (parseFields e nodes (cstr t) (pieceAfter t flags) (pieceAfter t nodelist)) t nodelist
      (flags.map (· + 1))

end Definitions

variable {e : NodeEnv} {str : Bytes} {pol : Mempolicy}

theorem set_strchr {byte : UInt8} {i : Nat} (found : strchr str byte = some i) : str.set i byte = str := by
  obtain ⟨_, eq, -⟩ := findIdx?_eq_some_iff_getElem.mp found
  rw [← beq_iff_eq.mp eq, set_getElem_self]

theorem getElem?_strchr {byte : UInt8} {i : Nat} (found : strchr str byte = some i) : str[i]? = some byte := by
  obtain ⟨lt, eq, -⟩ := findIdx?_eq_some_iff_getElem.mp found
  rw [getElem?_eq_getElem lt, beq_iff_eq.mp eq]

theorem separators_ne {i j : Nat} (colon : strchr str 58 = some i) (equals : strchr str 61 = some j) : j ≠ i := by
  rintro rfl
  cases (getElem?_strchr colon).symm.trans (getElem?_strchr equals)

/-- The string is as before exactly if it has no flags or its node list is accepted. -/
theorem mpolParseStr_restores :
    (mpolParseStr e str).text = str ∧ (mpolParseStr e str).before = false ↔
      strchr str 61 = none ∨
        (acceptNodes e (pieceAfter (cutAt str (strchr str 58)) (strchr str 58))).isSome := by
  rw [mpolParseStr]
  cases colon : strchr str 58 with
  | none =>
    cases equals : strchr str 61 with
    | none => simp [acceptNodes, pieceAfter, restoreStr, cutAt]
    | some j => simp [acceptNodes, pieceAfter, restoreStr, cutAt, set_strchr equals]
  | some i =>
    cases equals : strchr str 61 with
    | none => split <;> simp [restoreStr, cutAt, set_strchr colon]
    | some j =>
      cases accepted : acceptNodes e (pieceAfter (cutAt str (some i)) (some i)) with
      | some nodes =>
        simp [restoreStr, cutAt, set_comm _ _ (separators_ne colon equals), set_strchr colon, set_strchr equals]
      | none =>
        -- the sign goes one byte before the first one, which is another character
        simp only [restoreStr, cutAt, set_set, set_strchr colon, reduceCtorEq, Option.isSome_none,
          Bool.false_eq_true, or_self, iff_false]
        cases j with
        | zero => simp
        | succ k =>
          obtain ⟨lt, -, earlier⟩ := findIdx?_eq_some_iff_getElem.mp equals
          rintro ⟨same, -⟩
          have sign : str[k]? = some 61 := by
            rw [← same, getElem?_set_self (Nat.lt_of_succ_lt lt)]
          rw [getElem?_eq_getElem (Nat.lt_of_succ_lt lt)] at sign
          exact earlier k (Nat.lt_succ_self k) (beq_iff_eq.mpr (Option.some.inj sign))

def twoNodes : NodeEnv :=
  { maxNumnodes := 2, nMemory := 3, alloc := some ⟨0, 0, 0, 0, 0⟩, fits := by decide
    nodelistParse := fun t => if t = [] then some 0 else if t = ascii "0-1" then some 3 else none }

/-- The node list is not accepted: the sign goes back one byte too early. -/
theorem mpolParseStr_damages : (mpolParseStr twoNodes (ascii "bind=static:9")).text = ascii "bin==static:9" := by
  decide

theorem firstNode_zero : firstNode e 0 = e.maxNumnodes := by
  rw [firstNode, find?_eq_none.mpr fun i _ => by simp]
  rfl

theorem firstNode_mem {nodes : Nat} (ne : nodes ≠ 0) (sub : nodes &&& e.nMemory = nodes) :
    firstNode e nodes < e.maxNumnodes ∧ nodes.testBit (firstNode e nodes) ∧ e.nMemory.testBit (firstNode e nodes) := by
  have bit : ∀ i, nodes.testBit i → e.nMemory.testBit i := fun i set => by
    rw [← sub, Nat.testBit_and, Bool.and_eq_true] at set
    exact set.2
  obtain ⟨i, set⟩ := Nat.exists_testBit_of_ne_zero ne
  have lt : i < e.maxNumnodes := by
    by_contra ge
    have large := Nat.testBit_lt_two_pow (e.fits.trans_le (Nat.pow_le_pow_right two_pos (not_lt.mp ge)))
    rw [bit i set] at large
    cases large
  rw [firstNode]
  cases found : (range e.maxNumnodes).find? nodes.testBit with
  | none => exact absurd set (by simpa using find?_eq_none.mp found i (mem_range.mpr lt))
  | some k => exact ⟨mem_range.mp (mem_of_find?_eq_some found), find?_some found, bit k (find?_some found)⟩

@[simp] theorem restoreStr_ret (ret : Option (Option Mempolicy)) (t : Bytes) (nodelist : Option Nat) :
    ∀ flags, (restoreStr ret t nodelist flags).ret = ret
  | none | some 0 | some (_ + 1) => rfl

theorem parseFields_made {nodes : Nat} {text : Bytes} {flags nodelist : Option Bytes}
    (ret : parseFields e nodes text flags nodelist = some (some pol)) :
    ∃ mode fl nds, makePolicy e mode fl nds nodelist.isSome = some pol ∧ modeFlags flags = some fl ∧
      (mode = MPOL_PREFERRED → nds = nodes ∧
        (nodelist.isSome → text = ascii "prefer" ∧ nodelist.all (·.all isDigit))) := by
  rw [parseFields] at ret
  split at ret
  · cases ret
  next mode found =>
    split at ret
    · split at ret <;> cases ret
    split at ret
    · cases ret
    next plain =>
      split at ret
      · cases ret
      next fl isFlags =>
        refine ⟨_, fl, _, Option.map_injective (Option.some_injective _) (ret.trans (Option.map_some ..).symm),
          isFlags, fun pre => ?_⟩
        push Not at plain
        by_cases islocal : mode = MPOL_LOCAL
        · -- the mode `local` has no node list
          subst islocal
          simp [plain.2.1 rfl, MPOL_LOCAL, MPOL_INTERLEAVE]
        · rw [if_neg islocal] at pre
          subst pre
          refine ⟨if_neg fun inter => (by cases inter.1), fun _ => ⟨?_, ?_⟩⟩
          · obtain ⟨_, eq, -⟩ := findIdx?_eq_some_iff_getElem.mp found
            exact (of_decide_eq_true eq).symm
          · cases nodelist with
            | none => rfl
            | some list => simpa using plain.1 rfl

theorem makePolicy_some {mode nodes : Nat} {fl : BitVec 16} {listed : Bool}
    (made : makePolicy e mode fl nodes listed = some pol) :
    pol.mode = mode ∧ (mode = MPOL_PREFERRED →
      (if listed then pol.preferredNode = firstNode e nodes else pol.flags = fl ||| MPOL_F_LOCAL) ∧
      (nodes = 0 → e.alloc.isSome ∧ fl &&& MPOL_F_STATIC_NODES = 0 ∧ fl &&& MPOL_F_RELATIVE_NODES = 0)) := by
  obtain ⟨new, eq, rfl⟩ := Option.map_eq_some_iff.mp made
  rw [mpolNew] at eq
  by_cases pre : mode = MPOL_PREFERRED
  · rw [if_pos pre] at eq
    split at eq
    · cases eq
    next plain =>
      push Not at plain
      obtain ⟨_, alloc, rfl⟩ := Option.map_eq_some_iff.mp eq
      cases listed <;> simp [pre, alloc] <;> exact plain
  · split_ifs at eq
    obtain ⟨_, -, rfl⟩ := Option.map_eq_some_iff.mp eq
    simp [pre]

/-- The string is `prefer:` and a list of digits that denotes the empty set. -/
structure PrefersNothing (e : NodeEnv) (str : Bytes) : Prop where
  mode : cstr (cutAt str (strchr str 58)) = ascii "prefer"
  unflagged : strchr str 61 = none
  list : ∃ nodelist, pieceAfter (cutAt str (strchr str 58)) (strchr str 58) = some nodelist ∧
    nodelist.all isDigit ∧ e.nodelistParse nodelist = some 0
  alloc : e.alloc.isSome

theorem modeFlags_plain {flags : Option Bytes} {fl : BitVec 16} (isFlags : modeFlags flags = some fl)
    (static : fl &&& MPOL_F_STATIC_NODES = 0) (relative : fl &&& MPOL_F_RELATIVE_NODES = 0) : flags = none := by
  cases flags with
  | none => rfl
  | some text =>
    rw [modeFlags] at isFlags
    split_ifs at isFlags <;> cases isFlags
    · cases static
    · cases relative

theorem PrefersNothing.returned (nothing : PrefersNothing e str) :
    ∃ new : Mempolicy, (mpolParseStr e str).ret = some (some { new with
      mode := MPOL_PREFERRED, flags := 0, preferredNode := e.maxNumnodes, userNodemask := 0 }) := by
  obtain ⟨mode, unflagged, ⟨nodelist, piece, digits, parsed⟩, alloc⟩ := nothing
  obtain ⟨new, alloc⟩ := Option.isSome_iff_exists.mp alloc
  have accepted : acceptNodes e (some nodelist) = some 0 := by simp [acceptNodes, parsed]
  refine ⟨new, ?_⟩
  simp only [mpolParseStr, piece, accepted, unflagged, restoreStr_ret]
  rw [show cutAt (cutAt str (strchr str 58)) none = cutAt str (strchr str 58) from rfl, mode, piece]
  rw [parseFields, show policyModes.findIdx? (· = ascii "prefer") = some 1 by decide]
  simp [digits, pieceAfter, modeFlags, makePolicy, mpolNew, alloc, firstNode_zero, MPOL_DEFAULT, MPOL_LOCAL,
    MPOL_PREFERRED, MPOL_BIND, MPOL_INTERLEAVE]

/-- Every preferred policy that is returned is local or names a node with memory, exactly if
    the string does not prefer the empty set. -/
theorem mpolParseStr_preferred :
    (∀ pol, (mpolParseStr e str).ret = some (some pol) → pol.mode = MPOL_PREFERRED →
      pol.flags &&& MPOL_F_LOCAL ≠ 0 ∨
        ∃ n : Nat, pol.preferredNode = n ∧ n < e.maxNumnodes ∧ e.nMemory.testBit n) ↔
    ¬ PrefersNothing e str := by
  constructor
  · intro real nothing
    obtain ⟨_, returned⟩ := nothing.returned
    rcases real _ returned rfl with islocal | ⟨n, eq, lt, -⟩
    · exact islocal (BitVec.zero_and ..)
    · cases eq
      exact lt_irrefl _ lt
  · intro nonempty pol ret pre
    rw [mpolParseStr] at ret
    split at ret
    · simp at ret
    next nodes accepted =>
      rw [restoreStr_ret] at ret
      obtain ⟨_, fl, nds, made, isFlags, same⟩ := parseFields_made ret
      obtain ⟨isMode, spec⟩ := makePolicy_some made
      obtain rfl := isMode.symm.trans pre
      obtain ⟨rfl, text⟩ := same rfl
      obtain ⟨chosen, empty⟩ := spec rfl
      cases colon : strchr str 58 with
      | none =>
        rw [colon] at chosen
        left
        rw [show pol.flags = fl ||| MPOL_F_LOCAL from chosen]
        intro zero
        have bit := congrArg (BitVec.getLsbD · 1) zero
        simp [MPOL_F_LOCAL] at bit
      | some i =>
        rw [colon] at chosen accepted
        obtain ⟨parsed, sub⟩ := Option.filter_eq_some_iff.mp accepted
        right
        have listed : nds ≠ 0 := by
          intro zero
          obtain ⟨alloc, static, relative⟩ := empty zero
          have unflagged := Option.map_eq_none_iff.mp (modeFlags_plain isFlags static relative)
          rw [unflagged, colon] at text
          rw [zero] at parsed
          refine nonempty ⟨?_, unflagged, ⟨_, by rw [colon]; rfl, ?_, parsed⟩, alloc⟩
          · rw [colon]
            exact (text rfl).1
          · simpa [pieceAfter, cutAt] using (text rfl).2
        have first := firstNode_mem listed (of_decide_eq_true sub)
        exact ⟨_, chosen, first.1, first.2.2⟩

/-- The empty node list is a list of digits, and its first node is `MAX_NUMNODES`. -/
theorem mpolParseStr_empty_list : (mpolParseStr twoNodes (ascii "prefer:")).ret = some (some ⟨1, 0, 2, 0, 0⟩) ∧
    twoNodes.maxNumnodes = 2 := by
  decide

end Aosp.Mm
