import Aosp.Bionic.PropLayout

/-! # What `foreach` enumerates

`foreach_property` visits the left siblings of a node, then its own property, its
children and its right siblings.  Read off the tokens from the root to each
node, this is an in-order traversal of the token paths: whatever is below the
left link differs from the node's path first in a smaller token, what is below
`children` extends the path, and what is below the right link differs first in
a larger token.  `enumerates` proves this by induction on the offsets, which grow
along links; the order of the names follows, and with it that the
enumeration depends on the set of names alone.
-/

namespace Aosp.Bionic

open Aosp.Lib List

/-! ## The order of tokens and of names -/

def TokenLt (one two : Bytes) : Prop :=
  one.length < two.length ∨ (one.length = two.length ∧ one < two)

/-- Names compare token by token; a name precedes the names that extend it. -/
def NameLt : List Bytes → List Bytes → Prop := List.Lex TokenLt

variable {one two : Bytes}

theorem TokenLt.trans {three : Bytes} (left : TokenLt one two) (right : TokenLt two three) : TokenLt one three := by
  rcases left with shorter | ⟨len, less⟩ <;> rcases right with shorter' | ⟨sameLength', less'⟩
  · exact .inl (by omega)
  · exact .inl (by omega)
  · exact .inl (by omega)
  · exact .inr ⟨len.trans sameLength', List.lt_trans less less'⟩

instance : Std.Asymm TokenLt where
  asymm := by
    rintro one two (shorter | ⟨sameLength, less⟩) (shorter' | ⟨sameLength', less'⟩)
    · omega
    · omega
    · omega
    · exact List.lt_irrefl one (List.lt_trans less less')

instance : Std.Asymm NameLt := inferInstanceAs (Std.Asymm (List.Lex TokenLt))

theorem NameLt.of_token {p tl rest' : List Bytes} (less : TokenLt one two) :
    NameLt (p ++ one :: tl) (p ++ two :: rest') :=
  List.Lex.append_left _ (.rel less) p

theorem NameLt.of_extends (p tl : List Bytes) (tok : Bytes) : NameLt p (p ++ tok :: tl) := by
  have more : List.Lex TokenLt _ (p ++ tok :: tl) := .append_left _ .nil p
  rwa [append_nil] at more

theorem cmpPropName_swap (one two : Bytes) (oneLen twoLen : Nat) :
    cmpPropName two twoLen one oneLen = -cmpPropName one oneLen two twoLen := by
  unfold cmpPropName
  by_cases less : oneLen < twoLen
  · rw [if_neg (by omega), if_pos (by omega), if_pos less, Int.neg_neg]
  · by_cases more : oneLen > twoLen
    · rw [if_pos (by omega), if_neg less, if_pos more]
    · obtain rfl : oneLen = twoLen := by omega
      simp only [Nat.lt_irrefl]
      exact strncmp_swap one two oneLen

theorem tokenLt_of_cmp_neg (neg : cmpPropName one one.length two two.length < 0) : TokenLt one two := by
  unfold cmpPropName at neg
  split at neg
  · exact .inl (by assumption)
  · split at neg
    · omega
    · have len : one.length = two.length := by omega
      exact .inr ⟨len, lt_of_strncmp_neg len neg⟩

theorem tokenLt_of_cmp_pos (pos : 0 < cmpPropName one one.length two two.length) : TokenLt two one := by
  apply tokenLt_of_cmp_neg
  rw [cmpPropName_swap one two]
  omega

namespace PropArea

variable {ar : PropArea} {par : Nat → List Bytes}

/-! ## The nodes below a node -/

/-- `m` can be reached from `n` by following links. -/
inductive Under (a : PropArea) (n : Nat) : Nat → Prop where
  | refl : Under a n n
  | snoc {k m : Nat} {link : Link} (pre : Under a n k) (linked : (a.readBt k).link link = m)
      (nonzero : m ≠ 0) : Under a n m

variable {n m : Nat}

theorem Under.isNode (tr : Trie ar par) (nd : ar.IsNode n) (under : Under ar n m) : ar.IsNode m := by
  induction under with
  | refl => exact nd
  | @snoc k m link _ linked nz ih =>
    exact linked ▸ (tr.linked k link ih (linked ▸ nz)).2.1

theorem Under.through {link : Link} (nz : (ar.readBt n).link link ≠ 0)
    (under : Under ar ((ar.readBt n).link link) m) : Under ar n m := by
  induction under with
  | refl => exact .snoc .refl rfl nz
  | snoc _ linked mNonzero ih => exact .snoc ih linked mNonzero

theorem under_iff : Under ar n m ↔
    m = n ∨ ∃ link, (ar.readBt n).link link ≠ 0 ∧ Under ar ((ar.readBt n).link link) m := by
  constructor
  · intro under
    induction under with
    | refl => exact .inl rfl
    | @snoc k m link _ linked nz ih =>
      rcases ih with rfl | ⟨first, firstNonzero, tl⟩
      · exact .inr ⟨link, linked ▸ nz, linked ▸ .refl⟩
      · exact .inr ⟨first, firstNonzero, .snoc tl linked nz⟩
  · rintro (rfl | ⟨link, nz, under⟩)
    · exact .refl
    · exact .through nz under

/-- Whatever is below a node carries the token of one of its siblings right after
    their common parent path. -/
theorem Under.path (tr : Trie ar par) {top : Nat} (nd : ar.IsNode top) (pos : top ≠ 0) (under : Under ar top m) :
    ∃ k tl, Siblings ar top k ∧ ar.pathOf par m = par top ++ (ar.readBt k).name :: tl := by
  -- either still among the siblings, or some levels further down
  have levels : m ≠ 0 ∧ (Siblings ar top m ∨
      ∃ k tl, Siblings ar top k ∧ par m = par top ++ (ar.readBt k).name :: tl) := by
    induction under with
    | refl => exact ⟨pos, .inl .refl⟩
    | @snoc k m link pre side nz ih =>
      obtain ⟨kNonzero, level⟩ := ih
      have kNode := pre.isNode tr nd
      have tg := (tr.linked k link kNode (side ▸ nz)).2.2
      rw [side] at tg
      refine ⟨nz, ?_⟩
      by_cases sideways : link = .children
      · subst sideways
        rw [linkParent, pathOf, if_neg kNonzero] at tg
        rcases level with sib | ⟨first, tl, sib, p⟩
        · rw [(sib.spec tr nd).2.2] at tg
          exact .inr ⟨k, [], sib, tg⟩
        · rw [p, append_assoc] at tg
          exact .inr ⟨first, _, sib, tg⟩
      · rcases level with sib | ⟨first, tl, sib, p⟩
        · exact .inl (.snoc sib sideways side nz)
        · have eq : ar.linkParent par k link = par k := by
            cases link <;> first | rfl | exact absurd rfl sideways
          rw [eq, p] at tg
          exact .inr ⟨first, tl, sib, tg⟩
  obtain ⟨nz, sib | ⟨k, tl, sib, p⟩⟩ := levels
  · refine ⟨m, [], sib, ?_⟩
    rw [pathOf, if_neg nz, (sib.spec tr nd).2.2]
  · refine ⟨k, tl ++ [(ar.readBt m).name], sib, ?_⟩
    rw [pathOf, if_neg nz, p, append_assoc, cons_append]

theorem At.under {p : List Token} (at_ : At ar p n) : Under ar 0 n := by
  induction at_ with
  | root => exact .refl
  | @child _ n m _ _ populated found ih =>
    have link : (ar.readBt n).link .children = (ar.readBt n).children := rfl
    refine found.1.invariant (P := Under ar 0) ?_ (.snoc ih link populated)
    intro k _ under mvs
    obtain ⟨tg, nz, -⟩ := verdict_next mvs
    exact .snoc under tg nz

/-! ## The traversal -/

section Enumeration

/-- The properties of the given nodes, handed to the callback in this order. -/
def visitAll {σ : Type} (a : PropArea) (propfn : Nat → σ → σ) (owners : List Nat) (cookie : σ) : σ :=
  owners.foldl (fun cookie owner => propfn (a.readBt owner).prop cookie) cookie

@[simp] theorem visitAll_append {σ : Type} (pf : Nat → σ → σ) (ows more : List Nat) (ck : σ) :
    ar.visitAll pf (ows ++ more) ck = ar.visitAll pf more (ar.visitAll pf ows ck) := by
  simp [visitAll]

def Precedes (a : PropArea) (par : Nat → List Bytes) (one two : Nat) : Prop :=
  NameLt (a.pathOf par one) (a.pathOf par two)

/-- `owners` are the nodes with a property below `n`, in the order of their
    paths, and visiting them is what `foreach_property` does at `n`. -/
structure Enumerates (a : PropArea) (par : Nat → List Bytes) (n : Nat) (owners : List Nat) : Prop where
  mem : ∀ m, m ∈ owners ↔ Under a n m ∧ (a.readBt m).prop ≠ 0
  sorted : owners.Pairwise (a.Precedes par)
  visits : ∀ {σ : Type} (propfn : Nat → σ → σ) (fl : Nat) (cookie : σ), a.bytesUsed - n ≤ fl →
    foreachProperty propfn a fl (some n) cookie = some (a.visitAll propfn owners cookie, true)

structure EnumeratesBelow (a : PropArea) (par : Nat → List Bytes) (n : Nat) (link : Link)
    (owners : List Nat) : Prop where
  mem : ∀ m, m ∈ owners ↔ (a.readBt n).link link ≠ 0 ∧ Under a ((a.readBt n).link link) m ∧ (a.readBt m).prop ≠ 0
  sorted : owners.Pairwise (a.Precedes par)
  visits : ∀ {σ : Type} (propfn : Nat → σ → σ) (fl : Nat) (cookie : σ), a.bytesUsed - n ≤ fl + 1 →
    foreachSubtree (foreachProperty propfn a fl) ((a.readBt n).link link) cookie =
      some (a.visitAll propfn owners cookie)

variable {n m : Nat}

theorem Enumerates.below (tr : Trie ar par) (nd : ar.IsNode n) (link : Link)
    (subtree : (ar.readBt n).link link ≠ 0 → ∃ ows, Enumerates ar par ((ar.readBt n).link link) ows) :
    ∃ ows, EnumeratesBelow ar par n link ows := by
  by_cases emp : (ar.readBt n).link link = 0
  · exact ⟨[], by simp [emp], .nil, by simp [emp, foreachSubtree, visitAll]⟩
  · obtain ⟨ows, mem, sorted, visits⟩ := subtree emp
    obtain ⟨_, tg, -⟩ := tr.linked n link nd emp
    have hi : (ar.readBt n).link link ≤ paDataSize := by
      have := tr.isNode_lt tg
      have := tr.used
      omega
    refine ⟨ows, fun m => by simp [mem, emp], sorted, ?_⟩
    intro σ pf fl ck _
    rw [foreachSubtree, if_pos emp, toPropObj_of_le hi, visits pf fl ck (by omega)]
    rfl

/-- The node itself, if it has a property. -/
def ownProp (a : PropArea) (n : Nat) : List Nat := if (a.readBt n).prop ≠ 0 then [n] else []

theorem mem_ownProp : m ∈ ar.ownProp n ↔ m = n ∧ (ar.readBt m).prop ≠ 0 := by
  unfold ownProp
  split
  · rename_i held
    rw [mem_singleton]
    exact ⟨fun eq => ⟨eq, eq ▸ held⟩, fun own => own.1⟩
  · rename_i free
    refine iff_of_false not_mem_nil ?_
    rintro ⟨rfl, held⟩
    exact free held

theorem foreachProperty_node (tr : Trie ar par) (nd : ar.IsNode n) {left chn right : List Nat}
    (onLeft : EnumeratesBelow ar par n .left left) (low : EnumeratesBelow ar par n .children chn)
    (onRight : EnumeratesBelow ar par n .right right) {σ : Type} (pf : Nat → σ → σ) (fl : Nat) (ck : σ)
    (fuel : ar.bytesUsed - n ≤ fl) :
    foreachProperty pf ar fl (some n) ck = some
      (ar.visitAll pf (left ++ (ar.ownProp n ++ (chn ++ right))) ck, true) := by
  have below := tr.isNode_lt nd
  obtain ⟨fl, rfl⟩ : ∃ less, fl = less + 1 := ⟨fl - 1, by omega⟩
  have visitLeft := fun ck => onLeft.visits pf fl ck fuel
  have visitChildren := fun ck => low.visits pf fl ck fuel
  have visitRight := fun ck => onRight.visits pf fl ck fuel
  simp only [PropBt.link] at visitLeft visitChildren visitRight
  have own : ∀ ck, (if (ar.readBt n).prop ≠ 0 then
        (toPropObj (ar.readBt n).prop).map (pf · ck) else some ck) = some (ar.visitAll pf (ar.ownProp n) ck) := by
    by_cases free : (ar.readBt n).prop = 0
    · simp [free, visitAll, ownProp]
    · obtain ⟨_, hw, -⟩ := tr.propInfo n nd free
      have hi : (ar.readBt n).prop ≤ paDataSize := by
        have := tr.info_lt hw
        have := tr.used
        omega
      simp [free, toPropObj_of_le hi, visitAll, ownProp]
  simp only [foreachProperty, visitLeft, own, visitChildren, visitRight, visitAll_append,
    Option.bind_eq_bind, Option.bind_some, Option.pure_def]

/-- What is below a sibling link of `n` first differs from the path of `n` in the
    last token, and to the side of the link. -/
theorem Layout.path_sideways (ly : Layout ar) (tr : Trie ar par) {link : Link} (nd : ar.IsNode n)
    (pos : n ≠ 0) (side : link ≠ .children) (nz : (ar.readBt n).link link ≠ 0)
    (under : Under ar ((ar.readBt n).link link) m) :
    ∃ tok tl, ar.pathOf par m = par n ++ tok :: tl ∧ (link = .left → TokenLt tok (ar.readBt n).name) ∧
      (link = .right → TokenLt (ar.readBt n).name tok) := by
  obtain ⟨_, tg, p⟩ := tr.linked n link nd nz
  have sameParent : ar.linkParent par n link = par n := by
    cases link <;> first | rfl | exact absurd rfl side
  obtain ⟨k, tl, sib, kPath⟩ := under.path tr tg (by omega)
  obtain ⟨_, kNode, -⟩ := sib.spec tr tg
  have compared := ly.ordered tr nd side ⟨nz, sib⟩
  rw [(tr.named n pos nd).1, (tr.named k (by omega) kNode).1] at compared
  rw [p, sameParent] at kPath
  exact ⟨_, tl, kPath, fun isLeft => tokenLt_of_cmp_neg (compared.1 isLeft),
    fun isRight => tokenLt_of_cmp_pos (compared.2 isRight)⟩

/-- What is below the children of `n` extends its path. -/
theorem path_children (tr : Trie ar par) (nd : ar.IsNode n) (nz : (ar.readBt n).link .children ≠ 0)
    (under : Under ar ((ar.readBt n).link .children) m) : ∃ tok tl, ar.pathOf par m = ar.pathOf par n ++ tok :: tl := by
  obtain ⟨_, tg, p⟩ := tr.linked n .children nd nz
  obtain ⟨k, tl, -, kPath⟩ := under.path tr tg (by omega)
  rw [p] at kPath
  exact ⟨_, tl, kPath⟩

namespace EnumeratesBelow

variable {n m : Nat} {link : Link} {ows : List Nat}

theorem eq_nil (low : EnumeratesBelow ar par n link ows) (lacks : (ar.readBt n).link link = 0) : ows = [] :=
  eq_nil_iff_forall_not_mem.mpr fun m mem => ((low.mem m).mp mem).1 lacks

theorem side_path (low : EnumeratesBelow ar par n link ows) (side : link ≠ .children)
    (ly : Layout ar) (tr : Trie ar par) (nd : ar.IsNode n) (pos : n ≠ 0) (mem : m ∈ ows) :
    ∃ tok tl, ar.pathOf par m = par n ++ tok :: tl ∧
      (link = .left → TokenLt tok (ar.readBt n).name) ∧ (link = .right → TokenLt (ar.readBt n).name tok) := by
  obtain ⟨nz, under, -⟩ := (low.mem m).mp mem
  exact ly.path_sideways tr nd pos side nz under

theorem child_path (low : EnumeratesBelow ar par n .children ows) (tr : Trie ar par)
    (nd : ar.IsNode n) (mem : m ∈ ows) : ∃ tok tl, ar.pathOf par m = ar.pathOf par n ++ tok :: tl := by
  obtain ⟨nz, under, -⟩ := (low.mem m).mp mem
  exact path_children tr nd nz under

end EnumeratesBelow

section Activation

variable {n : Nat} {left chn right : List Nat} (onLeft : EnumeratesBelow ar par n .left left)
  (low : EnumeratesBelow ar par n .children chn)
  (onRight : EnumeratesBelow ar par n .right right)

include onLeft low onRight

theorem sorted_root (ly : Layout ar) (root : n = 0) :
    (left ++ (ar.ownProp n ++ (chn ++ right))).Pairwise (ar.Precedes par) := by
  subst root
  have leftNil : left = [] := onLeft.eq_nil (ly.rootBare (.link .left) (by simp))
  have rightNil : right = [] := onRight.eq_nil (ly.rootBare (.link .right) (by simp))
  have noProp : (ar.readBt 0).prop = 0 := ly.rootBare .prop (by simp)
  simpa [leftNil, rightNil, ownProp, noProp] using low.sorted

theorem sorted_node (tr : Trie ar par) (ly : Layout ar) (nd : ar.IsNode n) (pos : n ≠ 0) :
    (left ++ (ar.ownProp n ++ (chn ++ right))).Pairwise (ar.Precedes par) := by
  have ownPath : ar.pathOf par n = par n ++ (ar.readBt n).name :: [] := by
    rw [pathOf, if_neg pos]
  have childPath : ∀ m ∈ chn, ∃ tl, ar.pathOf par m = par n ++ (ar.readBt n).name :: tl := by
    intro m mem
    obtain ⟨tok, tl, p⟩ := low.child_path tr nd mem
    rw [ownPath, append_assoc] at p
    exact ⟨_, p⟩
  have ownSorted : (ar.ownProp n).Pairwise (ar.Precedes par) := by
    unfold ownProp
    split
    · exact pairwise_singleton _ _
    · exact .nil
  -- each piece is sorted; what is left is that every piece comes before the later ones
  simp only [pairwise_append, mem_append]
  refine ⟨onLeft.sorted, ⟨ownSorted, ⟨low.sorted, onRight.sorted, ?childRight⟩, ?ownLater⟩, ?leftLater⟩
  case childRight =>
    intro one chd two mem
    obtain ⟨tl, p⟩ := childPath one chd
    obtain ⟨tok, rest', path', -, more⟩ := onRight.side_path (by decide) ly tr nd pos mem
    rw [Precedes, p, path']
    exact .of_token (more rfl)
  case ownLater =>
    intro one isOwn two mem
    rw [(mem_ownProp.mp isOwn).1, Precedes]
    rcases mem with chd | mem
    · obtain ⟨tok, tl, p⟩ := low.child_path tr nd chd
      rw [p]
      exact .of_extends _ _ _
    · obtain ⟨tok, tl, p, -, more⟩ := onRight.side_path (by decide) ly tr nd pos mem
      rw [ownPath, p]
      exact .of_token (more rfl)
  case leftLater =>
    intro one mem two late
    obtain ⟨tok, tl, p, less, -⟩ := onLeft.side_path (by decide) ly tr nd pos mem
    have less := less rfl
    rw [Precedes, p]
    rcases late with isOwn | chd | mem
    · rw [(mem_ownProp.mp isOwn).1, ownPath]
      exact .of_token less
    · obtain ⟨rest', path'⟩ := childPath two chd
      rw [path']
      exact .of_token less
    · obtain ⟨_, rest', path', -, more⟩ := onRight.side_path (by decide) ly tr nd pos mem
      rw [path']
      exact .of_token (less.trans (more rfl))

end Activation

/-- `foreach_property` enumerates what is below the node it is called on. -/
theorem enumerates (tr : Trie ar par) (ly : Layout ar) (nd : ar.IsNode n) : ∃ ows, Enumerates ar par n ows := by
  obtain ⟨dist, cap⟩ : ∃ dist, ar.bytesUsed - n ≤ dist := ⟨_, le_refl _⟩
  induction dist generalizing n with
  | zero =>
    have := tr.isNode_lt nd
    omega
  | succ dist ih =>
    -- links lead to larger offsets, so the subtrees are closer to the end
    have subtree : ∀ link, ∃ ows, EnumeratesBelow ar par n link ows := by
      intro link
      apply Enumerates.below tr nd link
      intro nz
      obtain ⟨_, tg, -⟩ := tr.linked n link nd nz
      exact ih tg (by omega)
    obtain ⟨left, onLeft⟩ := subtree .left
    obtain ⟨chn, low⟩ := subtree .children
    obtain ⟨right, onRight⟩ := subtree .right
    have sorted : (left ++ (ar.ownProp n ++ (chn ++ right))).Pairwise (ar.Precedes par) := by
      by_cases root : n = 0
      · exact sorted_root onLeft low onRight ly root
      · exact sorted_node onLeft low onRight tr ly nd root
    refine ⟨left ++ _, ?_, sorted, foreachProperty_node tr nd onLeft low onRight⟩
    intro m
    simp only [mem_append, mem_ownProp, onLeft.mem, low.mem, onRight.mem]
    rw [under_iff (n := n)]
    constructor
    · rintro (⟨nz, under, held⟩ | ⟨eq, held⟩ | ⟨nz, under, held⟩ | ⟨nz, under, held⟩)
      · exact ⟨.inr ⟨.left, nz, under⟩, held⟩
      · exact ⟨.inl eq, held⟩
      · exact ⟨.inr ⟨.children, nz, under⟩, held⟩
      · exact ⟨.inr ⟨.right, nz, under⟩, held⟩
    · rintro ⟨eq | ⟨link, nz, under⟩, held⟩
      · exact .inr (.inl ⟨eq, held⟩)
      · cases link with
        | left => exact .inl ⟨nz, under, held⟩
        | children => exact .inr (.inr (.inl ⟨nz, under, held⟩))
        | right => exact .inr (.inr (.inr ⟨nz, under, held⟩))

end Enumeration

/-! ## The properties of an area in order -/

def nameTokens (a : PropArea) (pi : Nat) : List Bytes := (a.readInfo pi).name.splitOn dot

theorem Layout.named (ly : Layout ar) (tr : Trie ar par) (nd : ar.IsNode n) (held : (ar.readBt n).prop ≠ 0) :
    ∃ nm : PropName, ar.lookup nm.bytes = some ((ar.readBt n).prop, ar.readInfo (ar.readBt n).prop) ∧
      (ar.readInfo (ar.readBt n).prop).name = nm.bytes ∧ ar.nameTokens (ar.readBt n).prop = ar.pathOf par n := by
  obtain ⟨nm, at_⟩ := ly.held n nd held
  obtain ⟨_, hw, path⟩ := tr.propInfo n nd held
  have p := (tr.at_path at_).2
  rw [p, nm.intercalate_tokens] at path
  have read := readInfo_of_data hw
  refine ⟨nm, (lookup_eq_some tr nm).mpr ⟨n, at_, rfl, held, by rw [read]; exact hw⟩, ?_, ?_⟩
  · rw [read, path]
  · rw [nameTokens, read, path, p, nm.tokens_bytes]

/-- `pis` are the stored properties, in the order of their names, and `foreach`
    hands them to the callback one after the other. -/
structure Enumeration (a : PropArea) (pis : List Nat) : Prop where
  visits : ∀ {σ : Type} (propfn : Nat → σ → σ) (cookie : σ),
    a.foreach propfn cookie = some (pis.foldl (fun cookie pi => propfn pi cookie) cookie, true)
  sorted : pis.Pairwise fun one two => NameLt (a.nameTokens one) (a.nameTokens two)
  found : ∀ pi ∈ pis, ∃ n : PropName, a.lookup n.bytes = some (pi, a.readInfo pi) ∧ (a.readInfo pi).name = n.bytes
  complete : ∀ (n : PropName) pi info, a.lookup n.bytes = some (pi, info) → pi ∈ pis

theorem Sound.enumeration (hs : Sound ar) : ∃ pis, Enumeration ar pis := by
  obtain ⟨⟨_, tr⟩, layout⟩ := hs
  have rootNode : ar.IsNode 0 := .inl rfl
  obtain ⟨ows, mem, sorted, visits⟩ := enumerates tr layout rootNode
  have oneMem := fun ow (member : ow ∈ ows) =>
    layout.named tr (((mem ow).mp member).1.isNode tr rootNode) ((mem ow).mp member).2
  refine ⟨ows.map fun ow => (ar.readBt ow).prop, ?_, ?_, ?_, ?_⟩
  · intro σ pf ck
    have fuel : ar.bytesUsed - 0 ≤ paDataSize + 1 := by
      have := tr.used
      omega
    rw [foreach, visits pf _ ck fuel, foldl_map]
    rfl
  · rw [pairwise_map]
    refine sorted.imp_of_mem fun {one two} home twoMem precedes => ?_
    obtain ⟨-, -, -, onePath⟩ := oneMem one home
    obtain ⟨-, -, -, twoPath⟩ := oneMem two twoMem
    rw [onePath, twoPath]
    exact precedes
  · intro pi member
    obtain ⟨ow, ownerMember, rfl⟩ := mem_map.mp member
    obtain ⟨nm, hf, eq, -⟩ := oneMem ow ownerMember
    exact ⟨nm, hf, eq⟩
  · intro nm pi _ hf
    obtain ⟨n, at_, prop, nz, -⟩ := (lookup_eq_some tr nm).mp hf
    exact mem_map.mpr ⟨n, (mem n).mpr ⟨at_.under, prop ▸ nz⟩, prop⟩

namespace Enumeration

variable {pis : List Nat}

section

variable (en : Enumeration ar pis)
include en

theorem nodup : pis.Nodup :=
  en.sorted.imp fun {_ _} less eq => by
    subst eq
    exact (Std.Asymm.asymm _ _ less) less

/-- There are fewer properties than bytes in the area. -/
theorem length_le (tr : Trie ar par) : pis.length ≤ paDataSize := by
  have fits : pis ⊆ range paDataSize := by
    intro pi mem
    obtain ⟨n, hf, -⟩ := en.found pi mem
    obtain ⟨-, -, -, -, hw⟩ := (lookup_eq_some tr n).mp hf
    have := tr.info_lt hw
    have := tr.used
    exact mem_range.mpr (by omega)
  simpa using (subperm_of_subset en.nodup fits).length_le

theorem mem_names (tr : Trie ar par) (n : Bytes) :
    n ∈ pis.map (fun pi => (ar.readInfo pi).name) ↔
      ∃ kept : PropName, kept.bytes = n ∧ ar.lookup kept.bytes ≠ none := by
  constructor
  · intro mem
    obtain ⟨pi, piMember, rfl⟩ := mem_map.mp mem
    obtain ⟨kept, hf, eq⟩ := en.found pi piMember
    exact ⟨kept, eq.symm, by rw [hf]; simp⟩
  · rintro ⟨kept, rfl, hp⟩
    obtain ⟨⟨pi, info⟩, hf⟩ := Option.ne_none_iff_exists'.mp hp
    have mem := en.complete kept pi info hf
    refine mem_map.mpr ⟨pi, mem, ?_⟩
    have hw := ((lookup_eq_some tr kept).mp hf).choose_spec.2.2.2
    rw [readInfo_of_data hw, lookup_name tr hf]

/-- The names alone determine the order they are reported in. -/
theorem names_eq {o : PropArea} {ot : List Nat} (otherEnumeration : Enumeration o ot)
    (eq : ∀ n, n ∈ ot.map (fun pi => (o.readInfo pi).name) ↔ n ∈ pis.map (fun pi => (ar.readInfo pi).name)) :
    ot.map (fun pi => (o.readInfo pi).name) = pis.map (fun pi => (ar.readInfo pi).name) := by
  have toks : ∀ (a : PropArea) (l : List Nat), l.map a.nameTokens =
      (l.map fun pi => (a.readInfo pi).name).map (splitOn dot) := by
    simp [nameTokens]
  have sorted := pairwise_map.mpr en.sorted
  have otherSorted := pairwise_map.mpr otherEnumeration.sorted
  rw [toks] at sorted otherSorted
  have injective : Function.Injective _ :=
    Function.LeftInverse.injective fun _ => intercalate_splitOn dot
  refine map_injective_iff.mpr injective (otherSorted.eq_of_mem_iff sorted ?_)
  intro a
  simp only [mem_map (f := splitOn dot), eq]

end

/-- The callback of `find_nth` picks the element whose index is sought; the 32-bit
    counter does not wrap. -/
theorem foldl_findNth (sought : Nat) (pis : List Nat) (cur : Nat) (res : Option Nat)
    (noWrap : cur + pis.length ≤ 2 ^ 32) : (pis.foldl (fun self pi => FindNth.fn pi self) ⟨sought, cur, res⟩).result =
      if cur ≤ sought ∧ sought < cur + pis.length then pis[sought - cur]? else res := by
  induction pis generalizing cur res with
  | nil => simp
  | cons pi pis ih =>
    simp only [length_cons] at noWrap ⊢
    rw [foldl_cons, FindNth.fn]
    cases pis with
    | nil =>
      simp only [foldl_nil, length_nil]
      by_cases here : cur = sought
      · subst here
        simp
      · rw [if_neg here, if_neg (by omega)]
    | cons _ tl =>
      simp only [length_cons] at noWrap ih ⊢
      rw [Nat.mod_eq_of_lt (by omega), ih _ _ (by omega)]
      by_cases here : cur = sought
      · subst here
        simp
      · by_cases late : cur + 1 ≤ sought ∧ sought < cur + 1 + (tl.length + 1)
        · rw [if_pos late, if_pos (by omega), show sought - cur = sought - (cur + 1) + 1 by omega]
          rfl
        · rw [if_neg late, if_neg here, if_neg (by omega)]

theorem findNth_eq (en : Enumeration ar pis) (tr : Trie ar par) (n : Nat) : ar.findNth n = some pis[n]? := by
  have noWrap : 0 + pis.length ≤ 2 ^ 32 := by
    have cap := en.length_le tr
    have small : paDataSize ≤ 2 ^ 32 := by decide
    omega
  rw [findNth, en.visits, Option.map_some, foldl_findNth n pis 0 none noWrap]
  by_cases low : n < pis.length
  · rw [if_pos (by omega)]
    rfl
  · rw [if_neg (by omega), getElem?_eq_none (by omega)]

end Enumeration

/-! ## Sequences of `add` -/

def Added (calls : List AddCall) (results : List Bool) (n : Bytes) : Prop :=
  ∃ c, (c, true) ∈ calls.zip results ∧ c.name = n

theorem add_stored (tr : Trie ar par) (c : AddCall) :
    ∃ hg adds, ar.add c.name c.name.length c.value c.value.length = some (hg, adds) ∧
      (∃ grownParent, Trie hg grownParent) ∧ (∀ n : PropName, hg.lookup n.bytes ≠ none ↔
        ar.lookup n.bytes ≠ none ∨ (adds = true ∧ c.name = n.bytes)) ∧
      (adds = true → ∃ n : PropName, n.bytes = c.name) := by
  by_cases splits : ∀ tok ∈ c.name.splitOn dot, tok ≠ []
  · let own : PropName := ⟨c.name, c.nulFree, c.short, splits⟩
    obtain ⟨hg, adds, addEq, gtr, rest, oc⟩ :=
      add_spec tr own c.value c.value.length
    refine ⟨hg, adds, addEq, gtr, ?_, fun _ => ⟨own, rfl⟩⟩
    intro n
    by_cases eq : n = own
    · subst eq
      have name : c.name = own.bytes := rfl
      rcases oc with ⟨rfl, hp, rfl⟩ | ⟨rfl, ha, off, hf⟩ | ⟨rfl, ha, still, -⟩
      · simp [hp]
      · simp [hf, name]
      · simp [ha, still]
    · have ne : c.name ≠ n.bytes := fun hq => eq (PropName.ext hq.symm)
      simp [rest n eq, ne]
  · -- the token loop gives up at the empty token
    obtain ⟨hg, nd, walk, -, more⟩ :=
      findPropertyNode_publishes tr c.nulFree .root (Nat.lt_succ_self c.name.length) true
    cases nd with
    | some nd => exact absurd (findPropertyNode_tokens walk) splits
    | none =>
      obtain ⟨grownParent, gtr⟩ := more.trie
      refine ⟨hg, false, by simp [add, findProperty, walk], ⟨_, gtr⟩, ?_, by simp⟩
      intro n
      rw [lookup_congr tr gtr n fun off info => more.stored n.tokens off info]
      simp

variable {cls : List AddCall} {res : List Bool}

theorem addAll_stored (tr : Trie ar par) {last : PropArea} (ran : ar.addAll cls = some (last, res)) :
    (∀ n : PropName, last.lookup n.bytes ≠ none ↔ ar.lookup n.bytes ≠ none ∨ Added cls res n.bytes) ∧
    ∀ n, Added cls res n → ∃ kept : PropName, kept.bytes = n := by
  induction cls generalizing ar par res with
  | nil =>
    cases ran
    simp [Added]
  | cons c cls ih =>
    obtain ⟨_, adds, addEq, ⟨_, gtr⟩, kept, splits⟩ := add_stored tr c
    simp only [addAll, addEq] at ran
    obtain ⟨⟨_, restResults⟩, restRan, eq⟩ := Option.map_eq_some_iff.mp ran
    cases eq
    obtain ⟨laterStored, laterSplits⟩ := ih gtr restRan
    have split : ∀ n, Added (c :: cls) (adds :: restResults) n ↔
        (adds = true ∧ c.name = n) ∨ Added cls restResults n := by
      intro n
      simp only [Added, zip_cons_cons, mem_cons, Prod.mk.injEq]
      constructor
      · rintro ⟨o, ⟨rfl, rfl⟩ | late, rfl⟩
        · exact .inl ⟨rfl, rfl⟩
        · exact .inr ⟨o, late, rfl⟩
      · rintro (⟨rfl, rfl⟩ | ⟨o, late, rfl⟩)
        · exact ⟨c, .inl ⟨rfl, rfl⟩, rfl⟩
        · exact ⟨o, .inr late, rfl⟩
    refine ⟨fun n => ?_, fun n => ?_⟩
    · rw [laterStored n, kept n, split, or_assoc]
    · rw [split]
      rintro (⟨isAdded, rfl⟩ | late)
      · exact splits isAdded
      · exact laterSplits n late

/-- After any calls of `add` the enumeration lists the names whose `add` returned
    true. -/
theorem addAll_enumeration (ran : PropArea.init.addAll cls = some (ar, res)) :
    ∃ par pis, Trie ar par ∧ Enumeration ar pis ∧
      ∀ nm, nm ∈ pis.map (fun pi => (ar.readInfo pi).name) ↔ Added cls res nm := by
  obtain ⟨last, lastResults, lastRan, hs⟩ := addAll_sound Sound.init cls
  obtain ⟨rfl, rfl⟩ : ar = last ∧ res = lastResults := by simpa using ran.symm.trans lastRan
  obtain ⟨par, tr⟩ := hs.trie
  obtain ⟨pis, en⟩ := hs.enumeration
  obtain ⟨kept, splits⟩ := addAll_stored Trie.init ran
  have emp : ∀ nm : PropName, PropArea.init.lookup nm.bytes = none := fun nm =>
    (lookup_eq_none Trie.init nm).mpr fun _ _ ⟨n, _, prop, nz, _⟩ => nz prop.symm
  refine ⟨par, pis, tr, en, fun nm => ?_⟩
  rw [en.mem_names tr]
  constructor
  · rintro ⟨stn, rfl, hp⟩
    exact ((kept stn).mp hp).resolve_left (not_not.mpr (emp stn))
  · intro adds
    obtain ⟨stn, rfl⟩ := splits nm adds
    exact ⟨stn, rfl, (kept stn).mpr (.inr adds)⟩

/-- The names `foreach` reports, in order. -/
def names (a : PropArea) : Option (List Bytes) :=
  (a.foreach (fun pi reported => reported ++ [(a.readInfo pi).name]) []).map Prod.fst

theorem Enumeration.names_eq_map {pis : List Nat} (en : Enumeration ar pis) :
    ar.names = some (pis.map fun pi => (ar.readInfo pi).name) := by
  have collect : ∀ (l : List Nat) (reported : List Bytes),
      l.foldl (fun reported pi => reported ++ [(ar.readInfo pi).name]) reported =
        reported ++ l.map fun pi => (ar.readInfo pi).name := by
    intro l
    induction l with
    | nil => simp
    | cons pi l ih => simp [ih]
  rw [names, en.visits, Option.map_some, collect, nil_append]

/-- `foreach` calls the callback once for each property whose `add` returned true
    and for nothing else, in the order of the names, an order that does not depend
    on that of the calls; `find_nth` indexes the same sequence. -/
theorem foreach_sorted_enumeration (calls : List AddCall) :
    ∃ ar results, init.addAll calls = some (ar, results) ∧
      ∃ pis : List Nat,
      (∀ (σ : Type) (propfn : Nat → σ → σ) (cookie : σ), ar.foreach propfn cookie =
        some (pis.foldl (fun cookie pi => propfn pi cookie) cookie, true)) ∧
      (pis.Pairwise fun one two => NameLt (ar.nameTokens one) (ar.nameTokens two)) ∧
      pis.Nodup ∧ (∀ pi ∈ pis, ar.find (ar.readInfo pi).name = some (some pi)) ∧
      (∀ nm, nm ∈ pis.map (fun pi => (ar.readInfo pi).name) ↔ Added calls results nm) ∧
      (∀ others o otherResults, init.addAll others = some (o, otherResults) →
        (∀ nm, Added others otherResults nm ↔ Added calls results nm) → o.names = ar.names) ∧
      (∀ i j, i < pis.length → j < pis.length → ar.findNth i = ar.findNth j → i = j) ∧
      (∀ n, ar.findNth n = some none ↔ pis.length ≤ n) := by
  obtain ⟨ar, results, ran, -⟩ := addAll_sound Sound.init calls
  obtain ⟨_, pis, tr, en, added⟩ := addAll_enumeration ran
  refine ⟨ar, results, ran, pis, fun σ => en.visits, en.sorted, en.nodup,
    ?_, added, ?_, ?_, ?_⟩
  · intro pi member
    obtain ⟨nm, found, same⟩ := en.found pi member
    rw [same, find_spec tr nm, found]
    rfl
  -- both enumerations are sorted and have the same members
  · intro others o otherResults otherRan sameNames
    obtain ⟨-, _, -, otherEnumeration, otherAdded⟩ := addAll_enumeration otherRan
    rw [otherEnumeration.names_eq_map, en.names_eq_map,
      en.names_eq otherEnumeration fun nm => by rw [otherAdded, added, sameNames]]
  · intro i j iBelow _ same
    rw [en.findNth_eq tr, en.findNth_eq tr, Option.some.injEq] at same
    exact (getElem?_inj iBelow en.nodup).mp same
  · intro n
    rw [en.findNth_eq tr, Option.some.injEq, getElem?_eq_none_iff]

/-- How the objects of an area lie, what refers to them, and how sibling trees
    are ordered. -/
structure WellLaidOut (a : PropArea) : Prop where
  used : a.bytesUsed ≤ paDataSize
  offset : ∀ n slot, a.IsNode n → a.slot n slot ≠ 0 → ∃ obj, a.data (a.slot n slot) = some obj ∧ slot.Holds obj
  object : ∀ off obj, off ≠ 0 → a.data off = some obj → 4 ∣ off ∧ sizeofPropBt ≤ off ∧ off + obj.size ≤ a.bytesUsed
  apart : ∀ off o obj otherObj, off ≠ 0 → off < o → a.data off = some obj →
    a.data o = some otherObj → off + obj.size ≤ o
  referenced : ∀ off obj, off ≠ 0 → a.data off = some obj → ∃! field, a.Refers field off
  smaller : ∀ n m, a.IsNode n → a.Below n .left m →
    cmpPropName (a.readBt m).name (a.readBt m).namelen (a.readBt n).name (a.readBt n).namelen < 0
  larger : ∀ n m, a.IsNode n → a.Below n .right m →
    0 < cmpPropName (a.readBt m).name (a.readBt m).namelen (a.readBt n).name (a.readBt n).namelen

theorem Sound.wellLaidOut (hs : Sound ar) : WellLaidOut ar := by
  obtain ⟨⟨_, tr⟩, ly⟩ := hs
  refine ⟨tr.used, ?_, ly.object, ly.apart, ?_, ?_, ?_⟩
  · intro n slot nd nz
    have ref : ar.Refers (n, slot) _ := ⟨nd, rfl, nz⟩
    exact ref.target tr
  · intro off obj nz hw
    obtain ⟨fd, ref⟩ := ly.owned off obj nz hw
    exact ⟨fd, ref, fun o otherRefers => ly.once o fd off otherRefers ref⟩
  · intro n m nd low
    exact (ly.ordered tr nd (by decide) low).1 rfl
  · intro n m nd low
    exact (ly.ordered tr nd (by decide) low).2 rfl

/-- Any calls of `add`, successful or not, return and leave an area in which every
    offset is that of an object inside the used part, objects are aligned, disjoint
    and referenced once, and sibling trees are search trees; so walks return and
    `to_prop_obj` accepts every offset. -/
theorem add_keeps_area_well_laid_out (calls : List AddCall) :
    ∃ ar results, init.addAll calls = some (ar, results) ∧ WellLaidOut ar ∧
      (∀ nm, NulFree nm → ∃ res, ar.find nm = some res) ∧
      (∀ (σ : Type) (propfn : Nat → σ → σ) (cookie : σ), ∃ last, ar.foreach propfn cookie = some (last, true)) ∧
      (∀ n slot, ar.IsNode n → ar.slot n slot ≠ 0 → toPropObj (ar.slot n slot) = some (ar.slot n slot)) := by
  obtain ⟨ar, results, ran, sound⟩ := addAll_sound Sound.init calls
  obtain ⟨_, tr⟩ := sound.trie
  obtain ⟨_, en⟩ := sound.enumeration
  refine ⟨ar, results, ran, sound.wellLaidOut, fun nm => find_returns tr, ?_, ?_⟩
  · intro σ propfn cookie
    exact ⟨_, en.visits propfn cookie⟩
  · intro n slot nd nonzero
    have refers : ar.Refers (n, slot) (ar.slot n slot) := ⟨nd, rfl, nonzero⟩
    have lt := refers.lt tr
    have := tr.used
    exact toPropObj_of_le (by omega)

end PropArea

end Aosp.Bionic
