import Aosp.Bionic.SystemProperties
import Aosp.Lib.Text

/-! # The list of property prefixes

Model of how `prefixes` is built: `list_add_after_len` inserts an entry in front
of the first shorter one, `initialize_properties_from_file` calls it for each
entry of a `property_contexts` file.  A name belongs to the first entry of the
list that covers it; `entryForName_spec` says which of the inserted entries that
is.
-/

namespace Aosp.Bionic

open Aosp.Lib List

def listAddAfterLen (node : PrefixNode) : List PrefixNode → List PrefixNode
  | [] => [node]
  | next :: rest =>
    if next.namePrefix.length < node.namePrefix.length || next.namePrefix.headD 0 = asterisk then
      node :: next :: rest
    else next :: listAddAfterLen node rest

def listOfInsertions (nodes : List PrefixNode) : List PrefixNode :=
  nodes.foldl (fun l node => listAddAfterLen node l) []

/-- An insertion whose prefix is a non-empty C string and starts with `*` only if it
    is `*`. -/
structure PrefixInsertion extends PrefixNode where
  nulFree : NulFree namePrefix
  nonempty : namePrefix ≠ []
  star_only : namePrefix.headD 0 = asterisk → namePrefix = [asterisk]

/-- The entry that `get_prop_area_for_name` selects. -/
def SystemProperties.entryForName (props : SystemProperties) (n : Bytes) : Option PrefixNode :=
  props.prefixes.find? (·.covers n)

theorem SystemProperties.propAreaForName_eq (prs : SystemProperties) (n : Bytes) :
    prs.propAreaForName n = (prs.entryForName n).bind fun ent =>
        (prs.areas ent.context).map fun a => (ent.context, a) := by
  unfold propAreaForName entryForName
  cases prs.prefixes.find? (·.covers n) <;> rfl

namespace PrefixNode

def len (node : PrefixNode) : Nat := node.namePrefix.length

def isStar (node : PrefixNode) : Bool := node.namePrefix.headD 0 = asterisk

/-- The entry is not `*` and its prefix is one of the name's. -/
def Matches (node : PrefixNode) (n : Bytes) : Prop :=
  node.isStar = false ∧ node.namePrefix <+: n

/-- `ent` is the earliest of the longest matching entries. -/
def EarliestLongest (nodes : List PrefixNode) (n : Bytes) (ent : PrefixNode) : Prop :=
  ∃ pre post, nodes = pre ++ ent :: post ∧ ent.Matches n ∧ (∀ o ∈ pre, o.Matches n → o.len < ent.len) ∧
    ∀ o ∈ post, o.Matches n → o.len ≤ ent.len

theorem covers_of_isStar {node : PrefixNode} (star : node.isStar = true) (n : Bytes) : node.covers n = true := by
  simp only [isStar] at star
  simp only [covers, star, Bool.true_or]

theorem covers_iff_matches {node : PrefixNode} {n : Bytes} (bare : node.isStar = false)
    (free : NulFree node.namePrefix) (nameFree : NulFree n) : node.covers n = true ↔ node.Matches n := by
  have compares : strncmp node.namePrefix n node.namePrefix.length = 0 ↔ node.namePrefix <+: n := by
    rw [strncmp_eq_zero free nameFree, take_length, prefix_iff_eq_take]
  simp only [isStar] at bare
  simp only [covers, bare, Bool.false_or, decide_eq_true_eq, Matches, isStar, true_and, compares]

end PrefixNode

/-! ## The order of the list -/

theorem listAddAfterLen_cons (node next : PrefixNode) (tl : List PrefixNode) :
    listAddAfterLen node (next :: tl) = if next.len < node.len || next.isStar then node :: next :: tl
      else next :: listAddAfterLen node tl := rfl

variable {node : PrefixNode} {specific stars l nodes : List PrefixNode} {n : Bytes}

theorem listAddAfterLen_star (fits : node.len = 1) (bare : ∀ o ∈ specific, o.isStar = false ∧ 0 < o.len)
    (star : ∀ o ∈ stars, o.isStar = true) : listAddAfterLen node (specific ++ stars) = specific ++ node :: stars := by
  induction specific with
  | nil =>
    cases stars with
    | nil => rfl
    | cons first stars => simp [listAddAfterLen_cons, star first mem_cons_self]
  | cons first specific ih =>
    obtain ⟨firstPlain, firstLong⟩ := bare first mem_cons_self
    have late := ih fun o mem => bare o (mem_cons_of_mem _ mem)
    have notShorter : ¬ first.len < node.len := by omega
    simp [listAddAfterLen_cons, firstPlain, notShorter, late]

theorem listAddAfterLen_append (node : PrefixNode) (sp : List PrefixNode) (star : ∀ o ∈ stars, o.isStar = true) :
    listAddAfterLen node (sp ++ stars) = listAddAfterLen node sp ++ stars := by
  induction sp with
  | nil =>
    cases stars with
    | nil => rfl
    | cons first stars =>
      simp [listAddAfterLen_cons, star first mem_cons_self, listAddAfterLen]
  | cons first sp ih =>
    simp only [cons_append, listAddAfterLen_cons]
    split
    · rfl
    · rw [ih, cons_append]

theorem mem_listAddAfterLen {o : PrefixNode} : o ∈ listAddAfterLen node l ↔ o = node ∨ o ∈ l := by
  induction l with
  | nil => simp [listAddAfterLen]
  | cons next tl ih =>
    rw [listAddAfterLen_cons]
    split
    · simp
    · simp only [mem_cons, ih]
      exact or_left_comm

section Plain

variable {node : PrefixNode} {l : List PrefixNode} (bare : ∀ other ∈ l, other.isStar = false)
  (sorted : l.Pairwise fun one two => two.len ≤ one.len)
include bare sorted

theorem sorted_listAddAfterLen : (listAddAfterLen node l).Pairwise fun one two => two.len ≤ one.len := by
  induction l with
  | nil => simp [listAddAfterLen]
  | cons next tl ih =>
    obtain ⟨longest, restSorted⟩ := pairwise_cons.mp sorted
    have restPlain : ∀ o ∈ tl, o.isStar = false :=
      fun o mem => bare o (mem_cons_of_mem _ mem)
    rw [listAddAfterLen_cons, bare next mem_cons_self, Bool.or_false]
    split
    next less =>
      simp only [decide_eq_true_eq] at less
      refine pairwise_cons.mpr ⟨?_, sorted⟩
      intro o mem
      cases mem_cons.mp mem with
      | inl here => exact here ▸ less.le
      | inr late => exact (longest o late).trans less.le
    next more =>
      simp only [decide_eq_true_eq, Nat.not_lt] at more
      refine pairwise_cons.mpr ⟨?_, ih restPlain restSorted⟩
      intro o mem
      cases mem_listAddAfterLen.mp mem with
      | inl new => exact new ▸ more
      | inr old => exact longest o old

/-- Entries of one length stay in the order of their insertion. -/
theorem filter_listAddAfterLen (len : Nat) :
    (listAddAfterLen node l).filter (·.len = len) = (l ++ [node]).filter (·.len = len) := by
  induction l with
  | nil => rfl
  | cons next tl ih =>
    obtain ⟨longest, restSorted⟩ := pairwise_cons.mp sorted
    have restPlain : ∀ o ∈ tl, o.isStar = false :=
      fun o mem => bare o (mem_cons_of_mem _ mem)
    rw [listAddAfterLen_cons, bare next mem_cons_self, Bool.or_false]
    split
    next less =>
      simp only [decide_eq_true_eq] at less
      by_cases eq : node.len = len
      · -- nothing in the list is as long as the new entry
        have none : (next :: tl).filter (·.len = len) = [] := by
          rw [filter_eq_nil_iff]
          intro o mem
          have cap : o.len ≤ next.len := by
            cases mem_cons.mp mem with
            | inl here => exact here ▸ Nat.le_refl _
            | inr late => exact longest o late
          simp only [decide_eq_true_eq]
          omega
        rw [filter_append]
        simp [eq, none]
      · have dropped : [node].filter (·.len = len) = [] := by simp [eq]
        rw [filter_append, dropped, append_nil, filter_cons_of_neg (by simpa using eq)]
    next more =>
      simp only [cons_append, filter_cons, ih restPlain restSorted]

end Plain

/-- The list after some insertions: the entries other than `*` by falling length and,
    for one length, in the order of their insertion, then the entries for `*`. -/
structure Ordered (nodes l : List PrefixNode) (sp stars : List PrefixNode) : Prop where
  split : l = sp ++ stars
  plain : ∀ node ∈ sp, node.isStar = false ∧ 0 < node.len
  starred : ∀ node ∈ stars, node.isStar = true
  sorted : sp.Pairwise fun one two => two.len ≤ one.len
  stable : ∀ len, sp.filter (·.len = len) = (nodes.filter (!·.isStar)).filter (·.len = len)
  mem_stars : ∀ node, node ∈ stars ↔ node ∈ nodes ∧ node.isStar = true

section Insert

variable {nds l sp stars : List PrefixNode} (ho : Ordered nds l sp stars)
  (node : PrefixInsertion)

include ho

/-- An entry for `*` goes in front of the others for it. -/
theorem Ordered.insertStar (star : node.toPrefixNode.isStar = true) :
    Ordered (nds ++ [node.toPrefixNode]) (listAddAfterLen node.toPrefixNode l) sp (node.toPrefixNode :: stars) := by
  have fits : node.toPrefixNode.len = 1 := by
    rw [PrefixNode.isStar, decide_eq_true_eq] at star
    rw [PrefixNode.len, node.star_only star, length_singleton]
  refine ⟨?_, ho.plain, forall_mem_cons.mpr ⟨star, ho.starred⟩, ho.sorted, ?_, ?_⟩
  · rw [ho.split, listAddAfterLen_star fits ho.plain ho.starred]
  · intro len
    rw [ho.stable, filter_append, filter_cons_of_neg (by simp [star]), filter_nil, append_nil]
  · intro o
    simp only [mem_cons, ho.mem_stars, mem_append, not_mem_nil, or_false]
    constructor
    · rintro (rfl | ⟨old, starred⟩)
      · exact ⟨.inr rfl, star⟩
      · exact ⟨.inl old, starred⟩
    · rintro ⟨old | new, starred⟩
      · exact .inr ⟨old, starred⟩
      · exact .inl new

/-- Another entry goes behind those that are as long as it is. -/
theorem Ordered.insertSpecific (isStar : node.toPrefixNode.isStar = false) :
    Ordered (nds ++ [node.toPrefixNode]) (listAddAfterLen node.toPrefixNode l)
      (listAddAfterLen node.toPrefixNode sp) stars := by
  have ne : 0 < node.toPrefixNode.len := length_pos_iff.mpr node.nonempty
  have specificPlain : ∀ o ∈ sp, o.isStar = false :=
    fun o mem => (ho.plain o mem).1
  refine ⟨?_, ?_, ho.starred, sorted_listAddAfterLen specificPlain ho.sorted, ?_, ?_⟩
  · rw [ho.split, listAddAfterLen_append _ _ ho.starred]
  · intro o mem
    cases mem_listAddAfterLen.mp mem with
    | inl new => exact new ▸ ⟨isStar, ne⟩
    | inr old => exact ho.plain o old
  · intro len
    have kept : (nds ++ [node.toPrefixNode]).filter (!·.isStar) = nds.filter (!·.isStar) ++ [node.toPrefixNode] := by
      simp [isStar]
    rw [filter_listAddAfterLen specificPlain ho.sorted, kept, filter_append, filter_append, ho.stable]
  · intro o
    simp only [ho.mem_stars, mem_append, mem_singleton]
    constructor
    · rintro ⟨old, star⟩
      exact ⟨.inl old, star⟩
    · rintro ⟨old | new, star⟩
      · exact ⟨old, star⟩
      · rw [new, isStar] at star
        cases star

theorem Ordered.insert :
    ∃ sp stars, Ordered (nds ++ [node.toPrefixNode]) (listAddAfterLen node.toPrefixNode l) sp stars := by
  cases star : node.toPrefixNode.isStar with
  | true => exact ⟨_, _, ho.insertStar node star⟩
  | false => exact ⟨_, _, ho.insertSpecific node star⟩

end Insert

theorem ordered_listOfInsertions (inss : List PrefixInsertion) :
    ∃ specific stars, Ordered (inss.map (·.toPrefixNode))
      (listOfInsertions (inss.map (·.toPrefixNode))) specific stars := by
  induction inss using List.reverseRecOn with
  | nil => exact ⟨[], [], rfl, nofun, nofun, .nil, fun _ => rfl, by simp⟩
  | append_singleton inss node ih =>
    obtain ⟨specific, stars, ho⟩ := ih
    have step := ho.insert node
    rw [map_append, listOfInsertions, foldl_append]
    exact step

theorem listOfInsertions_concat :
    listOfInsertions (nodes ++ [node]) = listAddAfterLen node (listOfInsertions nodes) := by
  simp [listOfInsertions]

/-! ## The entry of a name -/

section

variable (ho : Ordered nodes l specific stars)
include ho

theorem Ordered.mem_specific :
    node ∈ specific ↔ node ∈ nodes ∧ node.isStar = false := by
  have len : node ∈ specific.filter (·.len = node.len) ↔
      node ∈ (nodes.filter (!·.isStar)).filter (·.len = node.len) := by
    rw [ho.stable]
  simpa using len

theorem Ordered.earliestLongest {pre post : List PrefixNode} {ent : PrefixNode}
    (split : specific = pre ++ ent :: post)
    (matching : ent.Matches n) (first : ∀ o ∈ pre, ¬ o.Matches n) : ent.EarliestLongest nodes n := by
  have sorted := ho.sorted
  rw [split, pairwise_append, pairwise_cons] at sorted
  obtain ⟨-, ⟨shorterAfter, -⟩, -⟩ := sorted
  have longest : ∀ o ∈ nodes, o.Matches n → o.len ≤ ent.len := by
    intro o mem fits
    have held : o ∈ pre ++ ent :: post :=
      split ▸ ho.mem_specific.mpr ⟨mem, fits.1⟩
    rcases mem_append.mp held with old | later
    · exact absurd fits (first o old)
    · cases mem_cons.mp later with
      | inl eq => exact eq ▸ Nat.le_refl _
      | inr later => exact shorterAfter o later
  -- among the entries of its length, `entry` stands behind those of `before`
  have kept := ho.stable ent.len
  rw [split, filter_append, filter_cons_of_pos (by simp), filter_filter] at kept
  obtain ⟨early, tl, nodesSplit, earlyFiltered, restFiltered⟩ := filter_eq_append_iff.mp kept.symm
  obtain ⟨skips, late, restSplit, skippedOther, -, -⟩ := filter_eq_cons_iff.mp restFiltered
  refine ⟨early ++ skips, late, by rw [nodesSplit, restSplit, append_assoc], matching, ?_, ?_⟩
  · intro o mem fits
    have inNodes : o ∈ nodes := by
      rw [nodesSplit, restSplit, ← append_assoc]
      exact mem_append_left _ mem
    have cap := longest o inNodes fits
    have ne : o.len ≠ ent.len := by
      intro eq
      rcases mem_append.mp mem with inEarly | inSkipped
      · have before : o ∈ pre.filter (·.len = ent.len) := by
          rw [← earlyFiltered]
          simp [inEarly, eq, fits.1]
        exact first o (mem_filter.mp before).1 fits
      · exact skippedOther o inSkipped (by simp [eq, fits.1])
    omega
  · intro o mem fits
    refine longest o ?_ fits
    rw [nodesSplit, restSplit]
    simp [mem]

/-- Which inserted entry a name belongs to: the earliest of the longest matching
    ones, an entry for `*` if none matches, and none if there is no such entry
    either. -/
structure EntrySpec (nodes : List PrefixNode) (n : Bytes) (selected : Option PrefixNode) : Prop where
  specific : ∀ ent, selected = some ent → ent.isStar = false → ent.EarliestLongest nodes n
  star : ∀ ent, selected = some ent → ent.isStar = true → ent ∈ nodes ∧ ∀ o ∈ nodes, ¬ o.Matches n
  absent : selected = none → ∀ o ∈ nodes, o.isStar = false ∧ ¬ o.Matches n

theorem Ordered.entrySpec (free : ∀ node ∈ nodes, NulFree node.namePrefix)
    (nameFree : NulFree n) : EntrySpec nodes n (l.find? (·.covers n)) := by
  have cover : ∀ node ∈ specific, (node.covers n = true ↔ node.Matches n) := by
    intro node mem
    exact PrefixNode.covers_iff_matches (ho.plain node mem).1
      (free node (ho.mem_specific.mp mem).1) nameFree
  rw [ho.split, List.find?_append]
  cases hf : specific.find? (·.covers n) with
  | some ent =>
    obtain ⟨covered, pre, post, split, first⟩ := List.find?_eq_some_iff_append.mp hf
    have mem : ent ∈ specific := mem_of_find?_eq_some hf
    have longest : ent.EarliestLongest nodes n := by
      refine ho.earliestLongest split ((cover ent mem).mp covered) ?_
      intro o before fits
      have held : o ∈ specific := by
        rw [split]
        exact mem_append_left _ before
      exact absurd ((cover o held).mpr fits) (by simpa using first o before)
    constructor
    · intro pick eq isSame
      cases eq
      exact longest
    · intro pick eq same
      cases eq
      rw [(ho.plain ent mem).1] at same
      cases same
    · nofun
  | none =>
    have unmatched : ∀ o ∈ nodes, ¬ o.Matches n := by
      intro o mem fits
      have held := ho.mem_specific.mpr ⟨mem, fits.1⟩
      exact List.find?_eq_none.mp hf o held ((cover o held).mpr fits)
    constructor
    · intro pick eq isSame
      have same := ho.starred pick (mem_of_find?_eq_some eq)
      rw [isSame] at same
      cases same
    · intro pick eq same
      exact ⟨((ho.mem_stars pick).mp (mem_of_find?_eq_some eq)).1, unmatched⟩
    · intro ha o mem
      refine ⟨?_, unmatched o mem⟩
      cases same : o.isStar with
      | false => rfl
      | true =>
        have inStars := (ho.mem_stars o).mpr ⟨mem, same⟩
        exact absurd (PrefixNode.covers_of_isStar same n) (List.find?_eq_none.mp ha o inStars)

end

theorem entrySpec_listOfInsertions (inss : List PrefixInsertion) (nameFree : NulFree n) :
    EntrySpec (inss.map (·.toPrefixNode)) n ((listOfInsertions (inss.map (·.toPrefixNode))).find? (·.covers n)) := by
  obtain ⟨specific, stars, ho⟩ := ordered_listOfInsertions inss
  refine ho.entrySpec ?_ nameFree
  intro node mem
  obtain ⟨insertion, -, rfl⟩ := mem_map.mp mem
  exact insertion.nulFree

/-- `get_prop_area_for_name` uses the context of the earliest-inserted among the
    longest prefixes of the name, and that of `*` only if there is none. -/
theorem propAreaForName_longestMatch (insertions : List PrefixInsertion) (props : SystemProperties)
    (built : props.prefixes = listOfInsertions (insertions.map (·.toPrefixNode))) (n : Bytes) (nameFree : NulFree n) :
    EntrySpec (insertions.map (·.toPrefixNode)) n (props.entryForName n) ∧
      props.propAreaForName n = (props.entryForName n).bind fun ent =>
          (props.areas ent.context).map fun a => (ent.context, a) := by
  constructor
  · rw [SystemProperties.entryForName, built]
    exact entrySpec_listOfInsertions insertions nameFree
  · exact props.propAreaForName_eq n

theorem propAreaForName_longestMatch_persist :
    EntrySpec [⟨ascii "persist.", 0⟩, ⟨[asterisk], 1⟩, ⟨ascii "persist.sys.", 2⟩] (ascii "persist.sys.timezone")
      (some ⟨ascii "persist.sys.", 2⟩) :=
  (propAreaForName_longestMatch
    [⟨⟨ascii "persist.", 0⟩, by decide, by decide, by decide⟩, ⟨⟨[asterisk], 1⟩, by decide, by decide, by decide⟩,
      ⟨⟨ascii "persist.sys.", 2⟩, by decide, by decide, by decide⟩]
    (.fresh _) rfl
    _ (by decide)).1

/-! ## Loading the `property_contexts` files -/

def readSpecEntry (ptr : Bytes) : Bytes × Bytes :=
  let tmpBuf := ptr.dropWhile isspace
  (tmpBuf.takeWhile (!isspace ·), tmpBuf.dropWhile (!isspace ·))

/-- The loop of `read_spec_entries`.  An empty entry leaves nothing to read. -/
def readSpecArgs : Nat → Bytes → List Bytes
  | 0, _ => []
  | numArgs + 1, bufP =>
    if bufP = [] then []
    else
      let (ent, rest) := readSpecEntry bufP
      if ent = [] then [] else ent :: readSpecArgs numArgs rest

/-- `read_spec_entries`, with the entries themselves for their number. -/
def readSpecEntries (lineBuf : Bytes) (numArgs : Nat) : List Bytes :=
  let bufP := (chomp lineBuf).dropWhile isspace
  if bufP.headD 0 = 35 ∨ bufP = [] then [] else readSpecArgs numArgs bufP

/-- `prefixes` and `contexts`.  A context's number is its distance from the end of
    `contexts`, whose head is the newest. -/
structure PropContexts where
  prefixes : List PrefixNode
  contexts : List Bytes

namespace PropContexts

def addEntry (lists : PropContexts) (propPrefix context : Bytes) : PropContexts :=
  match lists.contexts.findIdx? (· = context) with
  | some i =>
    { lists with prefixes := listAddAfterLen ⟨propPrefix, lists.contexts.length - 1 - i⟩ lists.prefixes }
  | none =>
    { prefixes := listAddAfterLen ⟨propPrefix, lists.contexts.length⟩ lists.prefixes
      contexts := context :: lists.contexts }

/-- One turn of the loop of `initialize_properties_from_file`. -/
def addLine (lists : PropContexts) (l : Bytes) : PropContexts :=
  match readSpecEntries l 2 with
  | [propPrefix, context] =>
    if strncmp propPrefix (ascii "ctl.") 4 = 0 then lists else lists.addEntry propPrefix context
  | _ => lists

def lineEntry (l : Bytes) : Option (Bytes × Bytes) :=
  match readSpecEntries l 2 with
  | [propPrefix, context] => if strncmp propPrefix (ascii "ctl.") 4 = 0 then none else some (propPrefix, context)
  | _ => none

def fileEntries (data : Bytes) : List (Bytes × Bytes) := (getlines data).filterMap lineEntry

def contextNumber (contexts : List Bytes) (context : Bytes) : Nat :=
  contexts.length - 1 - contexts.findIdx (· = context)

def nodeOf (lists : PropContexts) (ent : Bytes × Bytes) : PrefixNode := ⟨ent.1, contextNumber lists.contexts ent.2⟩

/-- The entries have been inserted one after the other. -/
structure Holds (lists : PropContexts) (ents : List (Bytes × Bytes)) : Prop where
  prefixes : lists.prefixes = listOfInsertions (ents.map lists.nodeOf)
  contexts : ∀ ent ∈ ents, ent.2 ∈ lists.contexts

end PropContexts

namespace PropContexts

theorem contextNumber_cons {contexts : List Bytes} {new old : Bytes} (mem : old ∈ contexts) (fresh : new ∉ contexts) :
    contextNumber (new :: contexts) old = contextNumber contexts old := by
  have other : new ≠ old := fun eq => fresh (eq ▸ mem)
  simp only [contextNumber, findIdx_cons, other, decide_false, cond_false, length_cons]
  omega

theorem addEntry_spec (lists : PropContexts) (propPrefix context : Bytes) :
    let added := lists.addEntry propPrefix context
    added.prefixes = listAddAfterLen (added.nodeOf (propPrefix, context)) lists.prefixes ∧
      context ∈ added.contexts ∧ ∀ old ∈ lists.contexts, old ∈ added.contexts ∧
        contextNumber added.contexts old = contextNumber lists.contexts old := by
  unfold addEntry
  split
  next i known =>
    obtain ⟨_, isIndex⟩ := findIdx?_eq_some_iff_findIdx_eq.mp known
    obtain ⟨lt, is, -⟩ := findIdx?_eq_some_iff_getElem.mp known
    refine ⟨by rw [← isIndex]; rfl, ?_, fun old mem => ⟨mem, rfl⟩⟩
    rw [← of_decide_eq_true is]
    exact getElem_mem lt
  next known =>
    have fresh : context ∉ lists.contexts := fun mem =>
      of_decide_eq_false (findIdx?_eq_none_iff.mp known context mem) rfl
    exact ⟨by simp [nodeOf, contextNumber, findIdx_cons], mem_cons_self, fun old mem =>
      ⟨mem_cons_of_mem _ mem, contextNumber_cons mem fresh⟩⟩

variable {lists : PropContexts} {ents : List (Bytes × Bytes)}

theorem Holds.addEntry (holds : lists.Holds ents) (propPrefix context : Bytes) :
    (lists.addEntry propPrefix context).Holds (ents ++ [(propPrefix, context)]) := by
  obtain ⟨inserted, here, kept⟩ := lists.addEntry_spec propPrefix context
  refine ⟨?_, forall_mem_append.mpr ⟨fun ent mem => (kept _ (holds.contexts ent mem)).1, by simpa using here⟩⟩
  have same : ents.map lists.nodeOf = ents.map (lists.addEntry propPrefix context).nodeOf :=
    map_congr_left fun ent mem => by rw [nodeOf, nodeOf, (kept _ (holds.contexts ent mem)).2]
  rw [inserted, holds.prefixes, same, map_append, map_singleton, listOfInsertions_concat]

theorem addLine_eq (lists : PropContexts) (l : Bytes) :
    lists.addLine l = match lineEntry l with | none => lists | some ent => lists.addEntry ent.1 ent.2 := by
  unfold addLine lineEntry
  split
  · split <;> rfl
  · rfl

theorem Holds.file (holds : lists.Holds ents) (data : Bytes) :
    ((getlines data).foldl addLine lists).Holds (ents ++ fileEntries data) := by
  rw [fileEntries]
  generalize getlines data = lines
  induction lines generalizing lists ents with
  | nil => simpa using holds
  | cons l lines ih =>
    rw [foldl_cons, addLine_eq]
    cases read : lineEntry l with
    | none =>
      rw [filterMap_cons_none read]
      exact ih holds
    | some ent =>
      rw [filterMap_cons_some read, append_cons]
      exact ih (holds.addEntry ent.1 ent.2)

end PropContexts

end Aosp.Bionic
