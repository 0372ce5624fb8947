import Aosp.Bionic.PropTrie

/-! # What `find`, `add` and `update` do to an area

Each operation of a `prop_area` is described by what is `Stored` before and
after it.  `find` reads it off (`find_spec`); `add` either finds the property
there, or attaches a new `prop_info`, or runs out of space, and in no case
disturbs what other names lead to (`add_spec`); `update` rewrites one
`prop_info` in place (`update_spec`).
-/

namespace Aosp.Bionic

open Aosp.Lib List

/-- A property name the trie can hold: no NUL, no empty token, and short enough
    for the `unsigned int namelen` it is passed with. -/
@[ext] structure PropName where
  bytes : Bytes
  nulFree : NulFree bytes
  short : bytes.length < 2 ^ 32
  nonempty : ∀ tok ∈ bytes.splitOn dot, tok ≠ []

theorem mem_of_mem_splitOn {s tok : Bytes} {byte : UInt8} (mem : tok ∈ s.splitOn dot) (hi : byte ∈ tok) : byte ∈ s := by
  have joined : [dot].intercalate _ = s := intercalate_splitOn dot
  rw [← joined]
  generalize s.splitOn dot = toks at mem
  induction toks with
  | nil => cases mem
  | cons head tl ih =>
    cases tl with
    | nil =>
      rw [mem_singleton.mp mem] at hi
      simpa [List.intercalate] using hi
    | cons next tl =>
      rw [intercalate_cons_cons]
      rcases mem_cons.mp mem with rfl | late
      · simp [hi]
      · exact mem_append_right _ (ih late)

namespace PropName

def tokens (n : PropName) : List Token :=
  (n.bytes.splitOn dot).attach.map fun tok =>
    ⟨tok.1, fun zero => n.nulFree (mem_of_mem_splitOn tok.2 zero)⟩

theorem tokens_bytes (n : PropName) : n.tokens.map Token.bytes = n.bytes.splitOn dot := by
  simp [tokens]

theorem intercalate_tokens (n : PropName) : [dot].intercalate (n.tokens.map Token.bytes) = n.bytes := by
  rw [tokens_bytes, intercalate_splitOn]

theorem tokens_nonempty (n : PropName) : ∀ tok ∈ n.tokens, tok.bytes ≠ [] := by
  intro tok mem
  apply n.nonempty
  rw [← n.tokens_bytes]
  exact mem_map_of_mem mem

theorem tokens_injective {left right : PropName} (eq : left.tokens = right.tokens) : left = right := by
  apply PropName.ext
  rw [← left.intercalate_tokens, eq, right.intercalate_tokens]

end PropName

namespace PropArea

variable {a o g : PropArea} {par : Nat → List Bytes} {p : List Token} {tok : Token} {rem : Bytes} {sz off : Nat}
  {info : PropInfo}

/-! ## The loop of `find_prop_bt` -/

theorem toPropObj_of_le (hi : off ≤ paDataSize) : toPropObj off = some off :=
  if_neg (by omega)

theorem cmpPropName_take {two : Bytes} {twoLen : Nat} (name : rem.take sz = tok.bytes) (sized : sz = tok.bytes.length) :
    cmpPropName rem sz two twoLen = cmpPropName tok.bytes tok.bytes.length two twoLen := by
  unfold cmpPropName
  rw [← sized, ← name, strncmp_take]

section FindPropBt

variable {al : Bool}

section

variable (tr : Trie a par)
include tr

theorem enough_fuel {n m : Nat} (nd : a.IsNode m) : m - n < paDataSize + 1 := by
  have := tr.isNode_lt nd
  have := tr.used
  omega

variable (trie : rem.take sz = tok.bytes) (name : sz = tok.bytes.length) {n m : Nat}
  (nd : a.IsNode n)
include trie name nd

theorem findPropBt_next (mvs : a.verdict tok n = .next m) (fl : Nat) :
    findPropBt rem sz al (fl + 1) a (some n) = findPropBt rem sz al fl a (some m) := by
  obtain ⟨tg, nz, apart⟩ := verdict_next mvs
  have hi : m ≤ paDataSize := by
    have := tr.isNode_lt (tr.verdict_next_node nd mvs).2.1
    have := tr.used
    omega
  unfold side at tg
  simp only [findPropBt, cmpPropName_take trie name, apart, if_false, tg, ne_eq, nz,
    not_false_eq_true, if_true, toPropObj_of_le hi]

/-- The loop follows the search; offsets grow, so the fuel cannot run out. -/
theorem findPropBt_descends (walk : Descends a.verdict tok n m) (fl : Nat) (fuel : m - n < fl) :
    ∃ left, findPropBt rem sz al fl a (some n) = findPropBt rem sz al (left + 1) a (some m) := by
  induction walk generalizing fl with
  | refl =>
    obtain ⟨left, rfl⟩ : ∃ left, fl = left + 1 := ⟨fl - 1, by omega⟩
    exact ⟨left, rfl⟩
  | step mvs tl ih =>
    obtain ⟨pre, rfl⟩ : ∃ pre, fl = pre + 1 := ⟨fl - 1, by omega⟩
    obtain ⟨lt, nextNode, -⟩ := tr.verdict_next_node nd mvs
    have le := (tr.descends nextNode tl).1
    rw [findPropBt_next tr trie name nd mvs]
    exact ih nextNode pre (by omega)

theorem findPropBt_found (hf : Found a.verdict tok n m) :
    findPropBt rem sz al (paDataSize + 1) a (some n) = some (a, some m) := by
  obtain ⟨left, eq⟩ := findPropBt_descends tr trie name nd hf.1 _
    (enough_fuel tr (tr.descends nd hf.1).2.1)
  rw [eq]
  simp only [findPropBt, cmpPropName_take trie name, verdict_here hf.2, if_true]

theorem findPropBt_missed
    (gone : Missed a.verdict tok n m) :
    findPropBt rem sz al (paDataSize + 1) a (some n) = if al then
        match a.newPropBt rem sz with
        | some (grown, off) => some (grown.storeLink m (side tok (a.readBt m)) off, some off)
        | none => some (a, none)
      else some (a, none) := by
  obtain ⟨left, eq⟩ := findPropBt_descends tr trie name nd gone.1 _
    (enough_fuel tr (tr.descends nd gone.1).2.1)
  obtain ⟨emp, apart⟩ := verdict_dead gone.2
  unfold side at emp
  rw [eq]
  simp only [findPropBt, cmpPropName_take trie name, apart, emp]
  rfl

end

end FindPropBt

/-! ## The token loop -/

theorem first_token {toks : List Token}
    (split : toks.map Token.bytes = rem.splitOn dot) (fits : rem.length < 2 ^ 32) :
    ∃ tok tl, toks = tok :: tl ∧ rem.take (substrSize rem) = tok.bytes ∧
      substrSize rem = tok.bytes.length ∧ ((strchr rem dot = none ∧ tl = []) ∨
        ∃ sep, strchr rem dot = some sep ∧ tl.map Token.bytes = (rem.drop (sep + 1)).splitOn dot) := by
  cases separator : strchr rem dot with
  | none =>
    have full : rem.splitOn dot = [rem] :=
      splitOn_eq_singleton (strchr_eq_none separator)
    have sz : substrSize rem = rem.length := by
      simp only [substrSize, separator]; omega
    rw [full] at split
    obtain ⟨tok, rfl, eq⟩ := map_eq_singleton_iff.mp split
    refine ⟨tok, [], rfl, ?_, ?_, .inl ⟨rfl, rfl⟩⟩
    · rw [sz, take_length, eq]
    · rw [sz, eq]
  | some sep =>
    obtain ⟨pure, full⟩ := strchr_eq_some separator
    have cap : sep < rem.length :=
      (List.findIdx?_eq_some_iff_getElem.mp separator).1
    have sz : substrSize rem = sep := by
      simp only [substrSize, separator]; omega
    rw [full, splitOn_append_cons_self_of_not_mem pure] at split
    obtain ⟨tok, tl, rfl, eq, restSame⟩ := map_eq_cons_iff.mp split
    refine ⟨tok, tl, rfl, ?_, ?_, .inr ⟨sep, rfl, restSame⟩⟩
    · rw [sz, eq]
    · rw [eq, length_take]; omega

/-- `grown` has every path of `a` and exactly its properties. -/
structure Extends (a grown : PropArea) : Prop where
  trie : ∃ par, Trie grown par
  paths : ∀ p n, At a p n → At grown p n
  stored : ∀ p off info, Stored grown p off info ↔ Stored a p off info

theorem Extends.refl (tr : Trie a par) : Extends a a :=
  ⟨⟨par, tr⟩, fun _ _ at_ => at_, fun _ _ _ => Iff.rfl⟩

theorem Extends.trans {mid last : PropArea} (first : Extends a mid) (snd : Extends mid last) : Extends a last :=
  ⟨snd.trie, fun p n at_ => snd.paths p n (first.paths p n at_),
    fun p off info => (snd.stored p off info).trans (first.stored p off info)⟩

theorem Grown.extends {cur : Nat} {link : Link} (grew : Grown a g cur link tok) (tr : Trie a par)
    (place : Grown.Place a p tok cur link) : Extends a g ∧ At g (p ++ [tok]) a.bytesUsed :=
  ⟨⟨⟨_, grew.trie tr (place.spec tr).1⟩, fun _ _ at_ => (grew.at_iff tr place).mpr (.inl at_),
    fun _ _ _ => grew.stored_iff tr place⟩, (grew.at_iff tr place).mpr (.inr ⟨rfl, rfl⟩)⟩

/-- The outcome of a walk to the node of `p`, which may allocate missing
    nodes: the area afterwards and the node, or null when there is none and none
    could be made. -/
structure Walked (allocIfNeeded : Bool) (a : PropArea) (p : List Token) (grown : PropArea)
    (res : Option Nat) : Prop where
  extended : Extends a grown
  readOnly : allocIfNeeded = false → grown = a
  reached : ∀ m, res = some m → At grown p m
  present : ∀ m, At a p m → grown = a ∧ res = some m

theorem Walked.found (tr : Trie a par) {m : Nat} (at_ : At a p m) (al : Bool) : Walked al a p a (some m) where
  extended := .refl tr
  readOnly := fun _ => rfl
  reached := by rintro k ⟨⟩; exact at_
  present := fun k o => ⟨rfl, by rw [at_.unique o]⟩

theorem Walked.missing (tr : Trie a par) (ha : ∀ m, ¬ At a p m) (al : Bool) : Walked al a p a none where
  extended := .refl tr
  readOnly := fun _ => rfl
  reached := by simp
  present := fun m at_ => absurd at_ (ha m)

theorem Walked.allocated {m : Nat} (ha : ∀ m, ¬ At a p m) (more : Extends a g) (at_ : At g p m) : Walked true a p g (some m) where
  extended := more
  readOnly := by simp
  reached := by rintro k ⟨⟩; exact at_
  present := fun k o => absurd o (ha k)

def Full (a : PropArea) (tokens : List Token) : Prop :=
  ∃ tok ∈ tokens, paDataSize < a.bytesUsed + align (sizeofPropBt + tok.bytes.length + 1)

theorem newPropBt_full (sized : sz = tok.bytes.length) (fail : a.newPropBt rem sz = none) : Full a [tok] := by
  refine ⟨tok, mem_singleton_self tok, ?_⟩
  rw [← sized]
  by_contra room
  simp [newPropBt, allocateObj, room] at fail

section

variable (tr : Trie a par) {cur : Nat} (trie : rem.take sz = tok.bytes) (node : sz = tok.bytes.length) (high : At a p cur)
include tr trie node high

/-- The head of the sibling tree below `cur`: there already, or allocated,
    or null. -/
theorem subtreeRoot_spec (ain : Bool) :
    ∃ g res, subtreeRoot ain a rem sz cur = (g, res) ∧
      Extends a g ∧ (ain = false → g = a) ∧ (res = none → ain = true → Full g [tok]) ∧
      (∀ root, res = some root → (g.readBt cur).children = root ∧ root ≠ 0) ∧
      ((a.readBt cur).children ≠ 0 → g = a ∧ res ≠ none) := by
  have nd := (tr.at_path high).1
  unfold subtreeRoot
  by_cases full : (a.readBt cur).children = 0
  · simp only [full, ne_eq, not_true_eq_false, if_false, false_implies, and_true]
    cases ain with
    | false => exact ⟨_, _, rfl, .refl tr, fun _ => rfl, by simp⟩
    | true =>
      simp only [if_true]
      split
      · rename_i made off al
        obtain ⟨rfl, grew⟩ := newPropBt_grown .children tr nd trie node al
        refine ⟨_, _, rfl, (grew.extends tr (.firstChild high full)).1, by simp, nofun, ?_⟩
        rintro root ⟨⟩
        have pos := tr.isNode_lt nd
        exact ⟨by rw [grew.readBt_current]; rfl, by omega⟩
      · rename_i fail
        exact ⟨_, _, rfl, .refl tr, fun _ => rfl, fun _ _ => newPropBt_full node fail, by simp⟩
  · have hi : (a.readBt cur).children ≤ paDataSize := by
      have := tr.isNode_lt (tr.children_node nd full).2.1
      have := tr.used
      omega
    simp only [ne_eq, full, toPropObj_of_le hi]
    refine ⟨_, _, rfl, .refl tr, fun _ => rfl, nofun, ?_, by simp⟩
    rintro root ⟨⟩
    exact ⟨rfl, full⟩

theorem findPropBt_spec (full : (a.readBt cur).children ≠ 0) (ain : Bool) :
    ∃ g res, findPropBt rem sz ain (paDataSize + 1) a
        (some (a.readBt cur).children) = some (g, res) ∧ Walked ain a (p ++ [tok]) g res ∧
      (res = none → ain = true → Full g [tok]) := by
  have cn := (tr.children_node (tr.at_path high).1 full).2.1
  obtain ⟨m, hf | gone⟩ := tr.search_ends tok cn
  · exact ⟨_, _, findPropBt_found tr trie node cn hf, .found tr (.child high full hf) _, nofun⟩
  · have ha : ∀ k, ¬ At a (p ++ [tok]) k := by
      intro k at_
      obtain ⟨n, o, -, hf⟩ := at_.snoc_inv
      rw [o.unique high] at hf
      exact hf.not_missed gone
    rw [findPropBt_missed tr trie node cn gone]
    cases ain with
    | false => exact ⟨_, _, rfl, .missing tr ha _, nofun⟩
    | true =>
      simp only [if_true]
      split
      · rename_i made off al
        have nd := (tr.descends cn gone.1).2.1
        obtain ⟨rfl, grew⟩ := newPropBt_grown _ tr nd trie node
          al
        obtain ⟨more, here⟩ := grew.extends tr (.sibling high full gone)
        exact ⟨_, _, rfl, .allocated ha more here, nofun⟩
      · rename_i fail
        exact ⟨_, _, rfl, .missing tr ha _, fun _ _ => newPropBt_full node fail⟩

end

/-- The token loop ends, and what it leaves is a trie with the same properties. -/
theorem findPropertyNode_spec (tr : Trie a par) {toks p : List Token}
    {cur fl : Nat} (split : toks.map Token.bytes = rem.splitOn dot)
    (ne : ∀ tok ∈ toks, tok.bytes ≠ []) (fits : rem.length < 2 ^ 32)
    (allocIfNeeded : At a p cur) (fuel : toks.length ≤ fl) (ain : Bool) :
    ∃ g res, findPropertyNode ain fl a rem cur = some (g, res) ∧
      Walked ain a (p ++ toks) g res ∧ (res = none → ain = true → Full g toks) := by
  induction fl generalizing a par toks p rem cur with
  | zero =>
    obtain ⟨tok, tl, rfl, -⟩ := first_token split fits
    simp at fuel
  | succ fl ih =>
    obtain ⟨tok, tl, rfl, name, sized, separator⟩ := first_token split fits
    have pos : substrSize rem ≠ 0 := by
      rw [sized]; simpa using ne tok mem_cons_self
    -- a node further down has a node for this token above it
    have mid : ∀ m, At a (p ++ tok :: tl) m → (a.readBt cur).children ≠ 0 ∧ ∃ k, At a (p ++ [tok]) k := by
      intro m at_
      rw [append_cons] at at_
      obtain ⟨k, here⟩ := at_.above
      obtain ⟨n, o, filled, -⟩ := here.snoc_inv
      exact ⟨o.unique allocIfNeeded ▸ filled, k, here⟩
    have full : ∀ {a : PropArea}, Full a [tok] → Full a (tok :: tl) :=
      fun ⟨one, mem, room⟩ => ⟨one, mem_singleton.mp mem ▸ mem_cons_self, room⟩
    obtain ⟨first, root, rootEq, more, firstReadOnly, firstFull, rooted, firstPresent⟩ :=
      subtreeRoot_spec tr name sized allocIfNeeded ain
    cases root with
    | none =>
      refine ⟨first, none, by simp [findPropertyNode, pos, rootEq], ⟨more, firstReadOnly,
        by simp, ?_⟩, fun _ al => full (firstFull rfl al)⟩
      intro m at_
      exact absurd rfl (firstPresent (mid m at_).1).2
    | some root =>
      obtain ⟨rfl, filled⟩ := rooted root rfl
      obtain ⟨firstParent, firstTrie⟩ := more.trie
      obtain ⟨snd, nd, nodeEq, second_, secondFull⟩ := findPropBt_spec firstTrie name sized
        (more.paths _ _ allocIfNeeded) filled ain
      have soFar := more.trans second_.extended
      have soFarReadOnly : ain = false → snd = a := fun read =>
        (second_.readOnly read).trans (firstReadOnly read)
      have soFarPresent : ∀ m, At a (p ++ tok :: tl) m → snd = a ∧ ∃ k, nd = some k := by
        intro m at_
        obtain ⟨filled, k, here⟩ := mid m at_
        obtain ⟨rfl, -⟩ := firstPresent filled
        obtain ⟨eq, hf⟩ := second_.present k here
        exact ⟨eq, k, hf⟩
      cases nd with
      | none =>
        refine ⟨snd, none, by simp [findPropertyNode, pos, rootEq, nodeEq], ⟨soFar,
          soFarReadOnly, by simp, ?_⟩, fun _ al => full (secondFull rfl al)⟩
        intro m at_
        obtain ⟨-, k, hf⟩ := soFarPresent m at_
        cases hf
      | some nd =>
        have here := second_.reached nd rfl
        rcases separator with ⟨noSep, rfl⟩ | ⟨sep, someSep, restSplit⟩
        · refine ⟨snd, some nd, by simp [findPropertyNode, pos, rootEq, nodeEq, noSep],
            ⟨soFar, soFarReadOnly, by rintro m ⟨⟩; exact here, ?_⟩, nofun⟩
          intro m at_
          obtain ⟨rfl, -⟩ := soFarPresent m at_
          exact ⟨rfl, by rw [here.unique at_]⟩
        · obtain ⟨secondParent, secondTrie⟩ := second_.extended.trie
          obtain ⟨last, res, walk, last_, lastFull⟩ := ih secondTrie restSplit
            (fun tok mem => ne tok (mem_cons_of_mem _ mem))
            (by rw [length_drop]; omega) here (by simpa using fuel)
          rw [← append_cons] at last_
          refine ⟨last, res, by simpa [findPropertyNode, pos, rootEq, nodeEq, someSep] using walk,
            ⟨soFar.trans last_.extended, fun read => (last_.readOnly read).trans
              (soFarReadOnly read), last_.reached, ?_⟩, fun isNone al => ?_⟩
          · intro m at_
            obtain ⟨rfl, -⟩ := soFarPresent m at_
            exact last_.present m at_
          · obtain ⟨one, mem, room⟩ := lastFull isNone al
            exact ⟨one, mem_cons_of_mem _ mem, room⟩

theorem findPropertyNode_tokens {al : Bool} {fl cur nd : Nat} {rem : Bytes} {a g : PropArea}
    (hf : findPropertyNode al fl a rem cur = some (g, some nd)) : ∀ tok ∈ rem.splitOn dot, tok ≠ [] := by
  induction fl generalizing a rem cur with
  | zero => cases hf
  | succ fl ih =>
    unfold findPropertyNode at hf
    dsimp only at hf
    split at hf
    · cases hf
    rename_i pos
    split at hf
    · cases hf
    split at hf
    · cases hf
    · cases hf
    intro tok mem
    split at hf
    · rename_i noSep
      rw [splitOn_eq_singleton (strchr_eq_none noSep), mem_singleton] at mem
      rintro rfl
      rw [← mem] at pos
      exact pos rfl
    · rename_i sep someSep
      obtain ⟨pure, full⟩ := strchr_eq_some someSep
      rw [full, splitOn_append_cons_self_of_not_mem pure] at mem
      obtain isFirst | late := mem_cons.mp mem
      · intro emp
        rw [emp] at isFirst
        have zero : sep = 0 := by
          have cap := (List.findIdx?_eq_some_iff_getElem.mp someSep).1
          have len := congrArg List.length isFirst
          rw [length_take, length_nil] at len
          omega
        apply pos
        simp [substrSize, someSep, zero]
      · exact ih hf tok late

/-! ## Changes that leave the nodes in place -/

/-- The nodes of `a` have the same names and links in `o`. -/
def SameNodes (a o : PropArea) : Prop :=
  ∀ n, a.IsNode n → (o.readBt n).name = (a.readBt n).name ∧ (o.readBt n).namelen = (a.readBt n).namelen ∧
    ∀ link, (o.readBt n).link link = (a.readBt n).link link

theorem SameNodes.at_iff (eq : SameNodes a o) (tr : Trie a par) {m : Nat} : At o p m ↔ At a p m := by
  have chn : ∀ n, a.IsNode n → (o.readBt n).children = (a.readBt n).children :=
    fun n nd => (eq n nd).2.2 .children
  have agree : ∀ (tok : Token) (beg m : Nat), a.IsNode beg →
      (Found o.verdict tok beg m ↔ Found a.verdict tok beg m) := by
    intro tok beg m sn
    apply found_congr
    intro n walk
    obtain ⟨nm, len, links⟩ := eq n (tr.descends sn walk).2.1
    have sameSide : side tok (o.readBt n) = side tok (a.readBt n) := by
      simp [side, nm, len]
    simp only [verdict, sameSide, links, nm, len]
  constructor
  · intro at_
    induction at_ with
    | root => exact .root
    | child _ full hf ih =>
      have nd := (tr.at_path ih).1
      rw [chn _ nd] at full hf
      exact .child ih full
        ((agree _ _ _ (tr.children_node nd full).2.1).mp hf)
  · intro at_
    induction at_ with
    | root => exact .root
    | child high full hf ih =>
      have nd := (tr.at_path high).1
      refine .child ih (by rwa [chn _ nd]) ?_
      rw [chn _ nd, agree _ _ _ (tr.children_node nd full).2.1]
      exact hf

/-- A change to `prop_info`s and `prop` fields only keeps the invariant, provided
    every `prop` field still leads to a `prop_info` with the node's name. -/
theorem SameNodes.trie (eq : SameNodes a o) (tr : Trie a par)
    (nds : ∀ n, o.IsNode n ↔ a.IsNode n) (more : a.bytesUsed ≤ o.bytesUsed)
    (used : o.bytesUsed ≤ paDataSize) (new : ∀ off, o.bytesUsed ≤ off → o.data off = none)
    (rootNode : ∀ info, o.data 0 ≠ some (.info info)) (propInfo : ∀ n, a.IsNode n → (o.readBt n).prop ≠ 0 →
      ∃ info, o.data (o.readBt n).prop = some (.info info) ∧
        info.name = [dot].intercalate (a.pathOf par n)) : Trie o par := by
  have p : ∀ n, a.IsNode n → o.pathOf par n = a.pathOf par n := by
    intro n nd
    rw [pathOf, pathOf, (eq n nd).1]
  refine ⟨le_trans tr.rootFits more, used, new, rootNode, ?_, ?_, ?_⟩
  · intro n link hn full
    have nd := (nds n).mp hn
    rw [(eq n nd).2.2 link] at full ⊢
    obtain ⟨lt, tg, pp⟩ := tr.linked n link nd full
    refine ⟨lt, (nds _).mpr tg, pp.trans ?_⟩
    cases link with
    | children => exact (p n nd).symm
    | left | right => rfl
  · intro n nz hn
    obtain ⟨nm, len, -⟩ := eq n ((nds n).mp hn)
    rw [nm, len]
    exact tr.named n nz ((nds n).mp hn)
  · intro n hn kept
    rw [p n ((nds n).mp hn)]
    exact propInfo n ((nds n).mp hn) kept

/-- `grown` is `a` after a `prop_info` was constructed at the bump pointer and
    its offset stored in the `prop` field of `nd`. -/
structure Attached (a grown : PropArea) (nd : Nat) (info : PropInfo) : Prop where
  more : a.bytesUsed < grown.bytesUsed
  used : grown.bytesUsed ≤ paDataSize
  freshInfo : grown.data a.bytesUsed = some (.info info)
  atNode : grown.data nd = some (.bt { a.readBt nd with prop := a.bytesUsed })
  elsewhere : ∀ o, o ≠ a.bytesUsed → o ≠ nd → grown.data o = a.data o

theorem newPropInfo_attached {bu : PropArea} {nd off nl vl : Nat} {n v : Bytes}
    (tr : Trie a par) (hn : a.IsNode nd) (al : a.newPropInfo n nl v vl = some (bu, off)) :
    off = a.bytesUsed ∧ Attached a (bu.storeProp nd off) nd (PropInfo.construct {} n nl v vl) := by
  unfold newPropInfo at al
  split at al
  case h_2 => cases al
  case h_1 reserved reservedOff reservation =>
    obtain ⟨rfl, rfl, room⟩ := allocateObj_eq_some reservation
    obtain ⟨rfl, rfl⟩ := al
    have low := tr.isNode_lt hn
    have grew := le_align (sizeofPropInfo + nl + 1)
    have zeroed : PropArea.readInfo { a with bytesUsed := a.bytesUsed + align (sizeofPropInfo + nl + 1) }
        a.bytesUsed = {} := by simp [readInfo, tr.fresh _ _]
    refine ⟨rfl, ?_, room, ?_, ?_, ?_⟩
    · show a.bytesUsed < a.bytesUsed + align _
      omega
    · rw [storeProp, write_data, if_neg (by omega), write_data, if_pos rfl, zeroed]
    · rw [storeProp, write_data, if_pos rfl, readBt_write_info _ _ _ _ (by omega)]
      rfl
    · intro o old notNode
      rw [storeProp, write_data, if_neg notNode, write_data, if_neg old]

namespace Attached

variable {nd : Nat}

section

variable (join : Attached a g nd info)
include join

theorem readBt_elsewhere {n : Nat} (old : n ≠ a.bytesUsed) (notNode : n ≠ nd) : g.readBt n = a.readBt n := by
  unfold readBt
  rw [join.elsewhere n old notNode]

section

variable (tr : Trie a par)
include tr

theorem isNode_iff (hn : a.IsNode nd) (n : Nat) : g.IsNode n ↔ a.IsNode n := by
  by_cases new : n = a.bytesUsed
  · have notOld : ¬ a.IsNode n := fun old => absurd (tr.isNode_lt old) (by omega)
    refine iff_of_false ?_ notOld
    rintro (rfl | ⟨bt, hw⟩)
    · exact notOld (.inl rfl)
    · rw [new, join.freshInfo] at hw; cases hw
  · by_cases here : n = nd
    · subst here
      exact iff_of_true (.inr ⟨_, join.atNode⟩) hn
    · simp [IsNode, join.elsewhere n new here]

theorem sameNodes : SameNodes a g := by
  intro n hn
  by_cases here : n = nd
  · subst here
    simp [readBt_of_data join.atNode]
  · have := tr.isNode_lt hn
    simp [join.readBt_elsewhere (by omega) here]

theorem info_old (hn : a.IsNode nd) {old : PropInfo}
    (hw : a.data off = some (.info old)) : g.data off = some (.info old) := by
  have low := tr.info_lt hw
  rw [join.elsewhere off (by omega), hw]
  rintro rfl
  exact tr.info_not_node hw hn

theorem trie
    (hn : a.IsNode nd) (name : info.name = [dot].intercalate (a.pathOf par nd)) : Trie g par := by
  have low := tr.isNode_lt hn
  have more := join.more
  refine (join.sameNodes tr).trie tr (join.isNode_iff tr hn) (by omega)
    join.used ?_ ?_ ?_
  · intro off past
    rw [join.elsewhere off (by omega) (by omega)]
    exact tr.fresh off (by omega)
  · intro o hw
    by_cases here : (0 : Nat) = nd
    · rw [here, join.atNode] at hw; cases hw
    · rw [join.elsewhere 0 (by omega) here] at hw
      exact tr.rootNode o hw
  · intro n old kept
    by_cases here : n = nd
    · subst here
      rw [readBt_of_data join.atNode]
      exact ⟨info, join.freshInfo, name⟩
    · have := tr.isNode_lt old
      rw [join.readBt_elsewhere (by omega) here] at kept ⊢
      obtain ⟨o, hw, nm⟩ := tr.propInfo n old kept
      exact ⟨o, join.info_old tr hn hw, nm⟩

/-- Everything stored before stays, and the new property joins it. -/
theorem stored_iff (here : At a p nd) (free : (a.readBt nd).prop = 0)
    {q : List Token} {o : PropInfo} :
    Stored g q off o ↔ Stored a q off o ∨ (q = p ∧ off = a.bytesUsed ∧ o = info) := by
  obtain ⟨hn, pathEq⟩ := tr.at_path here
  have pos := tr.isNode_lt hn
  have eq := join.sameNodes tr
  constructor
  · rintro ⟨n, at_, prop, nz, hw⟩
    rw [eq.at_iff tr] at at_
    obtain ⟨nNode, nPath⟩ := tr.at_path at_
    by_cases isHere : n = nd
    · subst isHere
      rw [readBt_of_data join.atNode] at prop
      subst prop
      rw [join.freshInfo] at hw
      cases hw
      exact .inr ⟨map_bytes_injective (nPath.symm.trans pathEq), rfl, rfl⟩
    · have := tr.isNode_lt nNode
      rw [join.readBt_elsewhere (by omega) isHere] at prop
      obtain ⟨old, oldWritten, -⟩ := tr.propInfo n nNode (by rw [prop]; exact nz)
      rw [prop] at oldWritten
      rw [join.info_old tr hn oldWritten] at hw
      cases hw
      exact .inl ⟨n, at_, prop, nz, oldWritten⟩
  · rintro (⟨n, at_, prop, nz, hw⟩ | ⟨rfl, rfl, rfl⟩)
    · have := tr.isNode_lt (tr.at_path at_).1
      have notHere : n ≠ nd := by
        rintro rfl
        exact nz (prop.symm.trans free)
      refine ⟨n, (eq.at_iff tr).mpr at_, ?_, nz, join.info_old tr hn hw⟩
      rw [join.readBt_elsewhere (by omega) notHere, prop]
    · refine ⟨nd, (eq.at_iff tr).mpr here, ?_, by omega, join.freshInfo⟩
      rw [readBt_of_data join.atNode]

end

end

end Attached

/-! ## Overwriting a `prop_info` -/

section WriteInfo

variable {old : PropInfo} (info : PropInfo)

section

variable (tr : Trie a par) (hw : a.data off = some (.info old))
include tr hw

theorem writeInfo_readBt {n : Nat} (nd : a.IsNode n) : (a.write off (.info info)).readBt n = a.readBt n := by
  apply readBt_write_info
  rintro rfl
  exact tr.info_not_node hw nd

theorem writeInfo_sameNodes : SameNodes a (a.write off (.info info)) := by
  intro n nd
  simp [writeInfo_readBt info tr hw nd]

theorem writeInfo_trie (name : info.name = old.name) : Trie (a.write off (.info info)) par := by
  have nz : off ≠ 0 := fun zero => tr.info_not_node hw (.inl zero)
  refine (writeInfo_sameNodes info tr hw).trie tr ?_ (le_refl _) tr.used ?_ ?_ ?_
  · intro n
    by_cases here : n = off
    · subst here
      refine iff_of_false ?_ (tr.info_not_node hw)
      rintro (zero | ⟨bt, isBt⟩)
      · exact nz zero
      · simp [write_data] at isBt
    · simp [IsNode, write_data, here]
  · intro o past
    have := tr.info_lt hw
    rw [write_bytesUsed] at past
    rw [write_data, if_neg (by omega)]
    exact tr.fresh o past
  · intro oth isInfo
    rw [write_data, if_neg nz.symm] at isInfo
    exact tr.rootNode oth isInfo
  · intro n nd kept
    rw [writeInfo_readBt info tr hw nd] at kept ⊢
    obtain ⟨oth, put', nm⟩ := tr.propInfo n nd kept
    rw [write_data]
    split
    · rename_i here
      rw [here, hw] at put'
      cases put'
      exact ⟨info, rfl, name.trans nm⟩
    · exact ⟨oth, put', nm⟩

theorem writeInfo_stored_iff {q : List Token} {o : Nat} {oth : PropInfo} :
    Stored (a.write off (.info info)) q o oth ↔
      (o ≠ off ∧ Stored a q o oth) ∨ (o = off ∧ oth = info ∧ Stored a q off old) := by
  have eq := writeInfo_sameNodes info tr hw
  have key : ∀ n, At a q n → ((a.write off _).readBt n).prop = (a.readBt n).prop := fun n at_ => by
    rw [writeInfo_readBt info tr hw (tr.at_path at_).1]
  simp only [Stored, eq.at_iff tr, write_data]
  by_cases here : o = off
  · subst here
    simp only [if_true, Option.some.injEq, PropObj.info.injEq, ne_eq, not_true_eq_false, false_and, false_or, true_and]
    constructor
    · rintro ⟨n, at_, prop, nz, rfl⟩
      exact ⟨rfl, n, at_, by rw [← key n at_, prop], nz, hw⟩
    · rintro ⟨rfl, n, at_, prop, nz, -⟩
      exact ⟨n, at_, by rw [key n at_, prop], nz, rfl⟩
  · simp only [here, ne_eq, not_false_eq_true, true_and, false_and, or_false]
    constructor
    · rintro ⟨n, at_, prop, tl⟩
      exact ⟨n, at_, by rw [← key n at_, prop], tl⟩
    · rintro ⟨n, at_, prop, tl⟩
      exact ⟨n, at_, by rw [key n at_, prop], tl⟩

end

end WriteInfo

/-! ## The three operations -/

/-- What `find` leads to: the offset of the `prop_info` and its contents. -/
def lookup (a : PropArea) (n : Bytes) : Option (Nat × PropInfo) :=
  match a.find n with
  | some (some off) => some (off, a.readInfo off)
  | _ => none

theorem Stored.unique {o : Nat} {one : PropInfo}
    (left : Stored a p o one) (right : Stored a p off info) : o = off ∧ one = info := by
  obtain ⟨n, at_, rfl, -, hw⟩ := left
  obtain ⟨m, mAt, rfl, -, mWritten⟩ := right
  cases at_.unique mAt
  rw [hw] at mWritten
  cases mWritten
  exact ⟨rfl, rfl⟩

theorem Stored.name (tr : Trie a par) {nm : PropName}
    (kept : Stored a nm.tokens off info) : info.name = nm.bytes := by
  obtain ⟨n, at_, rfl, nz, hw⟩ := kept
  obtain ⟨nd, p⟩ := tr.at_path at_
  obtain ⟨o, put', name⟩ := tr.propInfo n nd nz
  rw [hw] at put'
  cases put'
  rw [name, p, nm.intercalate_tokens]

theorem length_le_intercalate (toks : List Bytes) : toks.length ≤ ([dot].intercalate toks).length + 1 := by
  induction toks with
  | nil => simp
  | cons head tl ih =>
    cases tl with
    | nil => simp
    | cons next tl =>
      rw [intercalate_cons_cons]
      simp only [length_cons, length_append] at ih ⊢
      omega

theorem tokens_length_le (n : PropName) : n.tokens.length ≤ n.bytes.length + 1 := by
  have cap := length_le_intercalate (n.tokens.map Token.bytes)
  rwa [n.intercalate_tokens, length_map] at cap

variable (tr : Trie a par)
include tr

theorem findPropertyNode_name (n : PropName) (al : Bool) :
    ∃ g res, findPropertyNode al (n.bytes.length + 1) a n.bytes 0 =
      some (g, res) ∧ Walked al a n.tokens g res ∧ (res = none → al = true → Full g n.tokens) :=
  findPropertyNode_spec tr n.tokens_bytes n.tokens_nonempty n.short .root
    (tokens_length_le n) al

theorem find_stored (nm : PropName) : ∃ res, a.find nm.bytes = some res ∧
      ∀ off, res = some off ↔ ∃ info, Stored a nm.tokens off info := by
  obtain ⟨g, nd, walk, walked, -⟩ := findPropertyNode_name tr nm false
  obtain rfl := walked.readOnly rfl
  cases nd with
  | none =>
    refine ⟨none, by simp [find, findProperty, walk], fun off => iff_of_false (by simp) ?_⟩
    rintro ⟨info, n, at_, -⟩
    cases (walked.present n at_).2
  | some n =>
    have at_ := walked.reached n rfl
    by_cases free : (g.readBt n).prop = 0
    · refine ⟨none, by simp [find, findProperty, walk, free], fun off => iff_of_false (by simp) ?_⟩
      rintro ⟨info, m, mAt, prop, nz, -⟩
      cases at_.unique mAt
      exact nz (prop.symm.trans free)
    · obtain ⟨info, hw, -⟩ := tr.propInfo n (tr.at_path at_).1 free
      have hi : (g.readBt n).prop ≤ paDataSize := by
        have := tr.info_lt hw
        have := tr.used
        omega
      refine ⟨some (g.readBt n).prop, ?_, fun off => ?_⟩
      · simp [find, findProperty, walk, free, toPropObj_of_le hi]
      · constructor
        · rintro ⟨⟩
          exact ⟨info, n, at_, rfl, free, hw⟩
        · rintro ⟨o, m, mAt, prop, -⟩
          rw [at_.unique mAt, prop]

theorem lookup_eq_some (n : PropName) :
    a.lookup n.bytes = some (off, info) ↔ Stored a n.tokens off info := by
  obtain ⟨res, hf, exactly⟩ := find_stored tr n
  unfold lookup
  rw [hf]
  cases res with
  | none =>
    refine iff_of_false (by simp) fun kept => ?_
    simpa using (exactly off).mpr ⟨info, kept⟩
  | some o =>
    obtain ⟨one, kept⟩ := (exactly o).mp rfl
    have hw : a.data o = some _ := kept.choose_spec.2.2.2
    simp only [Option.some.injEq, Prod.mk.injEq, readInfo_of_data hw]
    constructor
    · rintro ⟨rfl, rfl⟩; exact kept
    · exact kept.unique

omit tr in
/-- Only names without an empty token lead anywhere. -/
theorem lookup_tokens {n : Bytes} {it : Nat × PropInfo} (hf : a.lookup n = some it) :
    ∀ tok ∈ n.splitOn dot, tok ≠ [] := by
  unfold lookup find findProperty at hf
  cases walk : findPropertyNode false (n.length + 1) a n 0 with
  | none => simp [walk] at hf
  | some res =>
    obtain ⟨g, nd⟩ := res
    cases nd with
    | none => simp [walk] at hf
    | some nd => exact findPropertyNode_tokens walk

theorem lookup_eq_none (n : PropName) : a.lookup n.bytes = none ↔ ∀ off info, ¬ Stored a n.tokens off info := by
  rw [Option.eq_none_iff_forall_ne_some]
  constructor
  · intro ha off info kept
    exact ha _ ((lookup_eq_some tr n).mpr kept)
  · rintro ha ⟨off, info⟩ found
    exact ha off info ((lookup_eq_some tr n).mp found)

theorem lookup_congr {otherParent : Nat → List Bytes} (otherTrie : Trie o otherParent) (n : PropName)
    (eq : ∀ off info, Stored o n.tokens off info ↔ Stored a n.tokens off info) :
    o.lookup n.bytes = a.lookup n.bytes := by
  apply Option.ext
  rintro ⟨off, info⟩
  rw [lookup_eq_some otherTrie, eq, lookup_eq_some tr]

theorem find_spec (n : PropName) : a.find n.bytes = some ((a.lookup n.bytes).map Prod.fst) := by
  obtain ⟨res, hf, -⟩ := find_stored tr n
  cases res <;> simp [lookup, hf]

theorem lookup_name {n : PropName}
    (hf : a.lookup n.bytes = some (off, info)) : info.name = n.bytes :=
  Stored.name tr ((lookup_eq_some tr n).mp hf)

/-- `add` returns; it keeps what every other name leads to; for its own name it
    finds what is there, or attaches a new `prop_info`, or leaves it absent. -/
theorem add_spec (nm : PropName) (v : Bytes) (vl : Nat) :
    ∃ g adds, a.add nm.bytes nm.bytes.length v vl = some (g, adds) ∧ (∃ grownParent, Trie g grownParent) ∧
      (∀ oth, oth ≠ nm → g.lookup oth.bytes = a.lookup oth.bytes) ∧ ((adds = true ∧ a.lookup nm.bytes ≠ none ∧ g = a) ∨
        (adds = true ∧ a.lookup nm.bytes = none ∧ ∃ off, g.lookup nm.bytes =
          some (off, PropInfo.construct {} nm.bytes nm.bytes.length v vl)) ∨
        (adds = false ∧ a.lookup nm.bytes = none ∧ g.lookup nm.bytes = none ∧
          (Full g nm.tokens ∨ paDataSize < g.bytesUsed + align (sizeofPropInfo + nm.bytes.length + 1)))) := by
  obtain ⟨mid, nd, walk, walked, full⟩ := findPropertyNode_name tr nm true
  obtain ⟨middleParent, mtr⟩ := walked.extended.trie
  have kept : ∀ oth : PropName, mid.lookup oth.bytes = a.lookup oth.bytes := fun oth =>
    lookup_congr tr mtr oth fun off info => walked.extended.stored oth.tokens off info
  cases nd with
  | none =>
    -- space ran out on the way, so the walk did not meet the node of the name
    have ha : a.lookup nm.bytes = none := by
      rw [lookup_eq_none tr]
      rintro off info ⟨n, at_, -⟩
      cases (walked.present n at_).2
    exact ⟨mid, false, by simp [add, findProperty, walk], walked.extended.trie, fun oth _ => kept oth,
      .inr (.inr ⟨rfl, ha, (kept nm).trans ha, .inl (full rfl rfl)⟩)⟩
  | some n =>
    have at_ := walked.reached n rfl
    obtain ⟨hn, p⟩ := mtr.at_path at_
    by_cases free : (mid.readBt n).prop = 0
    · have ha : a.lookup nm.bytes = none := by
        rw [← kept nm, lookup_eq_none mtr]
        rintro off info ⟨m, mAt, prop, nz, -⟩
        cases at_.unique mAt
        exact nz (prop.symm.trans free)
      cases al : mid.newPropInfo nm.bytes nm.bytes.length v vl with
      | none =>
        refine ⟨mid, false, by simp [add, findProperty, walk, free, al], walked.extended.trie,
          fun oth _ => kept oth, .inr (.inr ⟨rfl, ha, (kept nm).trans ha, .inr ?_⟩)⟩
        by_contra room
        simp [newPropInfo, allocateObj, room] at al
      | some made =>
        obtain ⟨made, off⟩ := made
        obtain ⟨rfl, join⟩ := newPropInfo_attached mtr hn al
        have gtr := join.trie mtr hn (by
          rw [p, nm.intercalate_tokens]; exact take_length)
        refine ⟨_, true, by simp [add, findProperty, walk, free, al], ⟨_, gtr⟩, ?_,
          .inr (.inl ⟨rfl, ha, mid.bytesUsed, ?_⟩)⟩
        · intro oth ne
          rw [← kept oth]
          apply lookup_congr mtr gtr
          intro o info
          rw [join.stored_iff mtr at_ free]
          exact or_iff_left fun same => ne (PropName.tokens_injective same.1)
        · rw [lookup_eq_some gtr, join.stored_iff mtr at_ free]
          exact .inr ⟨rfl, rfl, rfl⟩
    · obtain ⟨info, hw, -⟩ := mtr.propInfo n hn free
      have hi : (mid.readBt n).prop ≤ paDataSize := by
        have := mtr.info_lt hw
        have := mtr.used
        omega
      have stored : Stored a nm.tokens (mid.readBt n).prop info :=
        (walked.extended.stored _ _ _).mp ⟨n, at_, rfl, free, hw⟩
      have hp := (lookup_eq_some tr nm).mpr stored
      obtain ⟨m, mAt, -⟩ := stored
      refine ⟨mid, true, by simp [add, findProperty, walk, free, toPropObj_of_le hi],
        walked.extended.trie, fun oth _ => kept oth, .inl ⟨rfl, ?_, (walked.present m mAt).1⟩⟩
      simp [hp]

/-- `update` through the offset that `find` returned rewrites that property and
    no other. -/
theorem update_spec {n : PropName}
    (hf : a.lookup n.bytes = some (off, info)) (v : Bytes) {len : Nat} (fits : len < PROP_VALUE_MAX) :
    ∃ updated, a.update off v len = (updated, true) ∧ Trie updated par ∧
      (∀ oth, oth ≠ n → updated.lookup oth.bytes = a.lookup oth.bytes) ∧
      updated.lookup n.bytes = some (off, info.update v len) := by
  have stored := (lookup_eq_some tr n).mp hf
  have hw : a.data off = some _ := stored.choose_spec.2.2.2
  have updatedTrie := writeInfo_trie (info.update v len) tr hw rfl
  refine ⟨_, by rw [update, if_neg (by omega), readInfo_of_data hw], updatedTrie, ?_, ?_⟩
  · intro oth ne
    apply lookup_congr tr updatedTrie
    intro o one
    rw [writeInfo_stored_iff _ tr hw]
    -- the names stored in the `prop_info`s keep the offsets apart
    have far : ∀ one, ¬ Stored a oth.tokens off one := by
      rintro one otherStored
      have put' : a.data off = some _ := otherStored.choose_spec.2.2.2
      rw [hw] at put'
      cases put'
      exact ne (PropName.ext ((otherStored.name tr).symm.trans (stored.name tr)))
    constructor
    · rintro (⟨-, kept⟩ | ⟨-, -, here⟩)
      · exact kept
      · exact absurd here (far info)
    · intro kept
      refine .inl ⟨?_, kept⟩
      rintro rfl
      exact far one kept
  · rw [lookup_eq_some updatedTrie, writeInfo_stored_iff _ tr hw]
    exact .inr ⟨rfl, rfl, stored⟩

end PropArea

end Aosp.Bionic
