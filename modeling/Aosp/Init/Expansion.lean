import Aosp.Init.Parser

/-! # Property expansion by segments

What `expand_props` makes of a text that is put together of literals, `$$`, `${name}` and
`${name:-default}`: what each of them stands for, one after the other, up to the first
property that has no value (`expandPropsFrom_segments`).  A NUL would end the text.
-/

namespace Aosp.Init

open Aosp.Lib List

inductive Segment where
  | literal (text : Bytes)
  | escape
  | property (n : Bytes)
  | withDefault (n defaultValue : Bytes)
deriving DecidableEq

def defaultMark : Bytes := ascii ":-"

namespace Segment

def text : Segment → Bytes
  | .literal text => text
  | .escape => [dollar, dollar]
  | .property n => dollar :: openBrace :: (n ++ [closeBrace])
  | .withDefault n defaultValue =>
    dollar :: openBrace :: (n ++ (defaultMark ++ defaultValue) ++ [closeBrace])

def value (gp : Bytes → Bytes) : Segment → Bytes
  | .literal text => text
  | .escape => [dollar]
  | .property n => gp n
  | .withDefault n defaultValue => if gp n = [] then defaultValue else gp n

/-- `${name}` for a property that is unset or empty. -/
def fails (gp : Bytes → Bytes) : Segment → Bool
  | .property n => gp n = []
  | _ => false

def IsName (n : Bytes) : Prop := n ≠ [] ∧ closeBrace ∉ n ∧ ¬ defaultMark <:+: n

def WellFormed : Segment → Prop
  | .literal text => dollar ∉ text
  | .escape => True
  | .property n => IsName n
  | .withDefault n defaultValue => IsName n ∧ defaultValue ≠ [] ∧ closeBrace ∉ defaultValue

instance (n : Bytes) : Decidable (IsName n) := inferInstanceAs (Decidable (_ ∧ _ ∧ _))

instance : (segment : Segment) → Decidable segment.WellFormed
  | .literal _ => inferInstanceAs (Decidable (_ ∉ _))
  | .escape => inferInstanceAs (Decidable True)
  | .property n => inferInstanceAs (Decidable (IsName n))
  | .withDefault n _ => inferInstanceAs (Decidable (IsName n ∧ _ ∧ _))

end Segment

open Segment (IsName)

section Search

variable {text tl n : Bytes} {byte : UInt8}

theorem strchr_append (ha : byte ∉ text) (tl : Bytes) :
    strchr (text ++ tl) byte = (strchr tl byte).map (· + text.length) := by
  have noMatch : text.findIdx? (· == byte) = none := List.findIdx?_eq_none_iff.mpr fun o mem =>
    beq_false_of_ne fun eq => ha (eq ▸ mem)
  simp [strchr, noMatch]

theorem strchr_first (ha : byte ∉ text) (tl : Bytes) : strchr (text ++ byte :: tl) byte = some text.length := by
  rw [strchr_append ha]
  simp [strchr, List.findIdx?_cons]

theorem findString_eq_none (ha : ¬ defaultMark <:+: text) : findString defaultMark text = none := by
  induction text with
  | nil => rfl
  | cons byte text ih =>
    have notHere : ¬ defaultMark <+: byte :: text := fun hf => ha hf.isInfix
    rw [findString, if_neg notHere, ih fun hf => ha (hf.trans (suffix_cons byte text).isInfix), Option.map_none]

/-- The first `:-` is the one behind the name, even if the name ends in a colon. -/
theorem findString_mark (ha : ¬ defaultMark <:+: n) (tl : Bytes) :
    findString defaultMark (n ++ (defaultMark ++ tl)) = some n.length := by
  induction n with
  | nil => simp [defaultMark, ascii, findString]
  | cons byte n ih =>
    have notHere : ¬ defaultMark <+: byte :: (n ++ (defaultMark ++ tl)) := by
      intro hf
      cases n with
      | nil => simp [defaultMark, ascii] at hf
      | cons _ n =>
        refine ha (IsPrefix.isInfix ?_)
        simpa [defaultMark, ascii] using hf
    rw [cons_append, findString, if_neg notHere, ih fun hf => ha (hf.trans (suffix_cons byte n).isInfix)]
    rfl

theorem splitDefault_name (name : IsName n) : splitDefault n = (n, []) := by
  rw [splitDefault, ← defaultMark, findString_eq_none name.2.2]

theorem splitDefault_default (name : IsName n) (dv : Bytes) : splitDefault (n ++ (defaultMark ++ dv)) = (n, dv) := by
  have back : (n ++ (defaultMark ++ dv)).drop (n.length + 2) = dv := by
    rw [← append_assoc]
    exact drop_left' (by simp [defaultMark, ascii])
  rw [splitDefault, ← defaultMark, findString_mark name.2.2]
  simp [back]

end Search

open Segment

section Loop

variable {gp : Bytes → Bytes} {fl : Nat} {src dst : Bytes}

theorem expandPropsFrom_literal {text : Bytes} (bare : dollar ∉ text) :
    expandPropsFrom gp (fl + 1) (text ++ src) dst = expandPropsFrom gp (fl + 1) src (dst ++ text) := by
  by_cases noText : text = []
  · simp [noText]
  rw [expandPropsFrom, expandPropsFrom, strchr_append bare]
  cases hf : strchr src dollar with
  | none => by_cases atEnd : src = [] <;> simp [noText]
  | some i =>
    have goesOn : src ≠ [] := by
      rintro rfl
      cases hf
    have pre : (text ++ src).take (i + text.length) = text ++ src.take i := by
      rw [Nat.add_comm, take_length_add_append]
    have back : (text ++ src).drop (i + text.length + 1) = src.drop (i + 1) := by
      rw [Nat.add_right_comm, Nat.add_comm, drop_length_add_append]
    simp [goesOn, pre, back]

theorem expandPropsFrom_escape :
    expandPropsFrom gp (fl + 1) (escape.text ++ src) dst = expandPropsFrom gp fl src (dst ++ [dollar]) := by
  simp [expandPropsFrom, text, strchr, List.findIdx?_cons]

/-- Behind an opening brace the text up to the closing one is a name, perhaps with a default. -/
theorem expandPropsFrom_braces {i n dv : Bytes} (shut : closeBrace ∉ i)
    (split : splitDefault i = (n, dv)) (name : n ≠ []) :
    expandPropsFrom gp (fl + 1) (dollar :: openBrace :: (i ++ [closeBrace]) ++ src) dst =
      if gp n ≠ [] then expandPropsFrom gp fl src (dst ++ gp n)
      else if dv ≠ [] then expandPropsFrom gp fl src (dst ++ dv) else some (dst, false) := by
  have first : strchr (dollar :: openBrace :: (i ++ [closeBrace]) ++ src) dollar = some 0 := by
    simp [strchr, List.findIdx?_cons]
  have differ : openBrace ≠ dollar := by decide
  have close : strchr _ closeBrace = some i.length := strchr_first shut src
  rw [expandPropsFrom, first]
  simp [differ, close, split, name]

end Loop

def expandSegments (gp : Bytes → Bytes) : List Segment → Bytes × Bool
  | [] => ([], true)
  | segment :: rest =>
    if segment.fails gp then ([], false)
    else (segment.value gp ++ (expandSegments gp rest).1, (expandSegments gp rest).2)

section

variable (gp : Bytes → Bytes)

theorem expandPropsFrom_segments {fl : Nat} {seg : List Segment} (dst : Bytes)
    (wf : ∀ segment ∈ seg, segment.WellFormed) (fuel : (seg.flatMap text).length < fl) :
    expandPropsFrom gp fl (seg.flatMap text) dst =
      some (dst ++ (expandSegments gp seg).1, (expandSegments gp seg).2) := by
  induction seg generalizing fl dst with
  | nil =>
    cases fl with
    | zero => cases fuel
    | succ fl => simp [expandPropsFrom, expandSegments]
  | cons segment tl ih =>
    obtain ⟨fl, rfl⟩ := Nat.exists_eq_add_of_lt (Nat.zero_lt_of_lt fuel)
    rw [Nat.zero_add] at fuel ⊢
    rw [forall_mem_cons] at wf
    rw [flatMap_cons, length_append] at fuel
    rw [flatMap_cons, expandSegments]
    have less (some : 0 < segment.text.length) : (tl.flatMap text).length < fl := by omega
    cases segment with
    | literal text =>
      rw [Segment.text, expandPropsFrom_literal wf.1, ih _ wf.2 (by omega)]
      simp [fails, value]
    | escape =>
      rw [expandPropsFrom_escape, ih _ wf.2 (less (Nat.succ_pos _))]
      simp [fails, value]
    | property n =>
      rw [text, expandPropsFrom_braces wf.1.2.1 (splitDefault_name wf.1) wf.1.1, ih _ wf.2 (less (Nat.succ_pos _))]
      by_cases unset : gp n = [] <;> simp [fails, value, unset]
    | withDefault n dv =>
      obtain ⟨⟨name, said, shut⟩, others⟩ := wf
      have less := less (Nat.succ_pos _)
      have noClose : closeBrace ∉ n ++ (defaultMark ++ dv) := by
        simp only [mem_append, not_or]
        exact ⟨name.2.1, by decide, shut⟩
      rw [text, expandPropsFrom_braces noClose (splitDefault_default name _) name.1, ih _ others less, ih _ others less]
      by_cases unset : gp n = [] <;> simp [fails, value, unset, said]

theorem expandSegments_ok (seg : List Segment) :
    (expandSegments gp seg).2 = !seg.any (fails gp) ∧ ((expandSegments gp seg).2 = true →
        (expandSegments gp seg).1 = seg.flatMap (value gp)) := by
  induction seg with
  | nil => exact ⟨rfl, fun _ => rfl⟩
  | cons segment _ ih =>
    rw [expandSegments]
    cases fail : segment.fails gp with
    | true => simp [fail]
    | false =>
      refine ⟨by simp [fail, ih.1], fun ok => ?_⟩
      rw [if_neg Bool.false_ne_true] at ok ⊢
      rw [flatMap_cons, ih.2 ok]

/-- Every `$` doubled. -/
def doubleDollars (text : Bytes) : Bytes :=
  text.flatMap fun byte => if byte = dollar then [dollar, dollar] else [byte]

theorem expandProps_eq {seg : List Segment} (dst : Bytes)
    (wf : ∀ segment ∈ seg, segment.WellFormed ∧ NulFree segment.text) :
    expandProps gp (seg.flatMap text) dst = some (dst ++ (expandSegments gp seg).1, (expandSegments gp seg).2) := by
  have free : NulFree (seg.flatMap text) := by
    intro mem
    obtain ⟨segment, isSegment, hi⟩ := mem_flatMap.mp mem
    exact (wf segment isSegment).2 hi
  rw [expandProps, cstr_of_nulFree free]
  exact expandPropsFrom_segments gp dst (fun segment mem => (wf segment mem).1) (Nat.lt_succ_self _)

end

theorem expandProps_compositional (gp : Bytes → Bytes) :
    (∀ (segments : List Segment) (dst : Bytes), (∀ segment ∈ segments, segment.WellFormed ∧ NulFree segment.text) →
      ∃ out ok, expandProps gp (segments.flatMap Segment.text) dst = some (out, ok) ∧
        (ok = true → out = dst ++ segments.flatMap (Segment.value gp)) ∧
        (ok = false ↔ ∃ n, .property n ∈ segments ∧ gp n = [])) ∧
    ∀ text, NulFree text → expandProps gp (doubleDollars text) [] = some (text, true) := by
  constructor
  · intro segments dst wf
    obtain ⟨isOk, v⟩ := expandSegments_ok gp segments
    refine ⟨_, _, expandProps_eq gp dst wf, fun ok => by rw [v ok], ?_⟩
    rw [isOk, Bool.not_eq_false', any_eq_true]
    constructor
    · rintro ⟨segment, member, failed⟩
      cases segment with
      | property n => exact ⟨n, member, of_decide_eq_true failed⟩
      | _ => cases failed
    · rintro ⟨n, member, unset⟩
      exact ⟨_, member, decide_eq_true unset⟩
  · intro text free
    -- one segment for each byte
    let segmentOf (byte : UInt8) : Segment := if byte = dollar then .escape else .literal [byte]
    have isText : (text.map segmentOf).flatMap Segment.text = doubleDollars text := by
      rw [flatMap_map]
      congr 1
      funext byte
      simp only [segmentOf]
      split <;> rfl
    have wf : ∀ segment ∈ text.map segmentOf, segment.WellFormed ∧ NulFree segment.text := by
      intro segment member
      obtain ⟨byte, inside, rfl⟩ := mem_map.mp member
      have nonzero : (0 : UInt8) ≠ byte := fun zero => free (zero ▸ inside)
      by_cases isDollar : byte = dollar
      · simp [segmentOf, isDollar, Segment.WellFormed, Segment.text, NulFree, dollar]
      · simp [segmentOf, isDollar, Segment.WellFormed, Segment.text, NulFree, nonzero, Ne.symm isDollar]
    obtain ⟨isOk, v⟩ := expandSegments_ok gp _
    have ok : (expandSegments gp (text.map segmentOf)).2 = true := by
      rw [isOk, Bool.not_eq_true', any_eq_false]
      intro segment member
      obtain ⟨byte, -, rfl⟩ := mem_map.mp member
      by_cases isDollar : byte = dollar <;> simp [segmentOf, isDollar, Segment.fails]
    have back : (text.map segmentOf).flatMap (Segment.value gp) = text := by
      rw [flatMap_map]
      refine (flatMap_congr fun byte _ => ?_).trans (flatMap_singleton' text)
      by_cases isDollar : byte = dollar <;> simp [segmentOf, isDollar, Segment.value]
    rw [← isText, expandProps_eq gp [] wf, ok, v ok, back, nil_append]

theorem expandProps_compositional_default :
    ∃ out ok, expandProps (fun _ => [])
        ([.literal (ascii "a"), .escape, .withDefault (ascii "b") (ascii "c")].flatMap text) [] = some (out, ok) ∧
      (ok = true → out = ascii "a$c") := by
  have wf : ∀ segment ∈ [literal (ascii "a"), .escape, .withDefault (ascii "b") (ascii "c")],
      segment.WellFormed ∧ NulFree segment.text := by
    decide
  obtain ⟨out, ok, expanded, v, -⟩ := (expandProps_compositional fun _ => []).1 _ [] wf
  exact ⟨out, ok, expanded, v⟩

/-- What is behind a NUL is lost. -/
theorem expandProps_nul : (literal [0, 97]).WellFormed ∧
      expandProps (fun _ => []) ([literal [0, 97]].flatMap text) [] = some ([], true) := by
  constructor
  · simp [Segment.WellFormed, dollar]
  · decide

end Aosp.Init
