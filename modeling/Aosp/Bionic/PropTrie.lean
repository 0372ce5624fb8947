import Aosp.Bionic.PropArea
import Aosp.Lib.Descent

/-! # The trie behind a `prop_area`

Every `prop_bt` is a node of a trie of tokens: `Trie` is the invariant that ties
the offsets, the bump allocator and the (ghost) token path of each node
together, `At` says which node a token path leads to, and `Stored` which
`prop_info` hangs there.  A link is stored exactly where a search fell off, so
each `find_prop_bt` that allocates is one step of `Aosp.Lib.Grows`.

* `At.unique`: a token path leads to at most one node.
* `Grown.trie`: storing a link to a fresh node keeps the invariant.
* `Grown.at_iff`, `Grown.stored_iff`: it adds one path, and touches nothing that is
  stored.

The operations themselves are in `PropAreaSpec`.
-/

namespace Aosp.Bionic

open Aosp.Lib

/-! ## Tokens and the sibling search -/

/-- A token of a property name. -/
@[ext] structure Token where
  bytes : Bytes
  nulFree : NulFree bytes

theorem strncmp_take (one two : Bytes) (n : Nat) : strncmp (one.take n) two n = strncmp one two n := by
  induction n generalizing one two with
  | zero => rfl
  | succ n ih => cases one <;> simp [strncmp, ih]

theorem cmpPropName_eq_zero {one two : Bytes} {twoLen : Nat} (oneFree : NulFree one)
    (twoFree : NulFree two) (len : twoLen = two.length) : cmpPropName one one.length two twoLen = 0 ↔ one = two := by
  unfold cmpPropName
  split
  · refine iff_of_false (by decide) ?_
    rintro rfl; omega
  · split
    · refine iff_of_false (by decide) ?_
      rintro rfl; omega
    · have eq : one.length = two.length := by omega
      rw [strncmp_eq_zero oneFree twoFree]
      conv_lhs => rw [List.take_length, eq, List.take_length]

namespace PropArea

/-- The link the sibling search for `tok` follows at a node it differs from. -/
def side (tok : Token) (nd : PropBt) : Link :=
  if cmpPropName tok.bytes tok.bytes.length nd.name nd.namelen < 0 then .left else .right

/-- One round of the loop of `find_prop_bt`. -/
def verdict (a : PropArea) (tok : Token) (n : Nat) : Verdict Nat :=
  let nd := a.readBt n
  if cmpPropName tok.bytes tok.bytes.length nd.name nd.namelen = 0 then .here
  else if nd.link (side tok nd) ≠ 0 then .next (nd.link (side tok nd))
  else .dead

theorem side_ne_children (tok : Token) (nd : PropBt) : side tok nd ≠ .children := by
  unfold side; split <;> simp

variable {a : PropArea} {tok key : Token} {n m off : Nat} {p : List Token} {info : PropInfo}

theorem verdict_here (here : a.verdict tok n = .here) :
    cmpPropName tok.bytes tok.bytes.length (a.readBt n).name (a.readBt n).namelen = 0 := by
  unfold verdict at here
  dsimp only at here
  split at here
  · assumption
  · split at here <;> cases here

theorem verdict_next (mvs : a.verdict tok n = .next m) : (a.readBt n).link (side tok (a.readBt n)) = m ∧ m ≠ 0 ∧
      cmpPropName tok.bytes tok.bytes.length (a.readBt n).name (a.readBt n).namelen ≠ 0 := by
  unfold verdict at mvs
  dsimp only at mvs
  split at mvs
  · cases mvs
  · split at mvs
    · cases mvs; exact ⟨rfl, by assumption, by assumption⟩
    · cases mvs

theorem verdict_dead (dead : a.verdict tok n = .dead) : (a.readBt n).link (side tok (a.readBt n)) = 0 ∧
      cmpPropName tok.bytes tok.bytes.length (a.readBt n).name (a.readBt n).namelen ≠ 0 := by
  unfold verdict at dead
  dsimp only at dead
  split at dead
  · cases dead
  · rename_i apart
    split at dead
    · cases dead
    · rename_i emp; exact ⟨not_not.mp emp, apart⟩

/-! ## The invariant -/

/-- The offset holds a trie node; the root needs no write to be one. -/
def IsNode (a : PropArea) (n : Nat) : Prop := n = 0 ∨ ∃ nd, a.data n = some (.bt nd)

/-- The tokens from the root to a node, given those to its parent. -/
def pathOf (a : PropArea) (par : Nat → List Bytes) (n : Nat) : List Bytes :=
  if n = 0 then [] else par n ++ [(a.readBt n).name]

def linkParent (a : PropArea) (par : Nat → List Bytes) (n : Nat) : Link → List Bytes
  | .children => a.pathOf par n
  | _ => par n

/-- The representation invariant, for a ghost assignment of parent paths to the
    nodes. -/
structure Trie (a : PropArea) (par : Nat → List Bytes) : Prop where
  rootFits : sizeofPropBt ≤ a.bytesUsed
  used : a.bytesUsed ≤ paDataSize
  -- memory behind the bump pointer was never written, so it is still zero
  fresh : ∀ off, a.bytesUsed ≤ off → a.data off = none
  rootNode : ∀ info, a.data 0 ≠ some (.info info)
  -- offsets grow along links: this is what makes every walk terminate
  linked : ∀ n link, a.IsNode n → (a.readBt n).link link ≠ 0 →
    n < (a.readBt n).link link ∧ a.IsNode ((a.readBt n).link link) ∧
      par ((a.readBt n).link link) = a.linkParent par n link
  named : ∀ n, n ≠ 0 → a.IsNode n → (a.readBt n).namelen = (a.readBt n).name.length ∧ NulFree (a.readBt n).name
  propInfo : ∀ n, a.IsNode n → (a.readBt n).prop ≠ 0 → ∃ info, a.data (a.readBt n).prop = some (.info info) ∧
      info.name = [dot].intercalate (a.pathOf par n)

inductive At (a : PropArea) : List Token → Nat → Prop where
  | root : At a [] 0
  | child {p : List Token} {n m : Nat} {tok : Token} (above : At a p n)
      (populated : (a.readBt n).children ≠ 0)
      (found : Found a.verdict tok (a.readBt n).children m) : At a (p ++ [tok]) m

/-- The `prop_info` a list of tokens leads to, and its offset. -/
def Stored (a : PropArea) (p : List Token) (off : Nat) (info : PropInfo) : Prop :=
  ∃ n, At a p n ∧ (a.readBt n).prop = off ∧ off ≠ 0 ∧ a.data off = some (.info info)

namespace Trie

variable {ar : PropArea} {par : Nat → List Bytes}

theorem init : Trie PropArea.init fun _ => [] where
  rootFits := by decide
  used := by decide
  fresh := fun _ _ => rfl
  rootNode := fun _ absurd => by cases absurd
  linked := by
    intro n link _ same
    cases link <;> exact absurd rfl same
  named := by
    rintro n nz (zero | ⟨nd, hw⟩)
    · exact absurd zero nz
    · cases hw
  propInfo := fun n _ kept => absurd rfl kept

variable {n : Nat} {tok : Token}

section

variable (tr : Trie ar par)
include tr

theorem isNode_lt (nd : ar.IsNode n) : n < ar.bytesUsed := by
  obtain rfl | ⟨b, hw⟩ := nd
  · have := tr.rootFits
    simp only [sizeofPropBt] at this
    omega
  · by_contra beyond
    rw [tr.fresh n (by omega)] at hw
    cases hw

theorem isNode_ne (nd : ar.IsNode n) : n ≠ ar.bytesUsed :=
  Nat.ne_of_lt (tr.isNode_lt nd)

theorem info_lt (hw : ar.data off = some (.info info)) : off < ar.bytesUsed := by
  by_contra beyond
  rw [tr.fresh off (by omega)] at hw
  cases hw

theorem info_not_node (hw : ar.data off = some (.info info)) : ¬ ar.IsNode off := by
  rintro (rfl | ⟨nd, o⟩)
  · exact tr.rootNode info hw
  · rw [hw] at o; cases o

theorem verdict_next_node {m : Nat} (nd : ar.IsNode n) (mvs : ar.verdict tok n = .next m) :
    n < m ∧ ar.IsNode m ∧ par m = par n := by
  obtain ⟨tg, nz, -⟩ := verdict_next mvs
  have same := tr.linked n _ nd (by rw [tg]; exact nz)
  rw [tg] at same
  have eq : ar.linkParent par n (side tok (ar.readBt n)) = par n := by
    unfold side; split <;> rfl
  rw [eq] at same
  exact same

/-- The sibling search stays among nodes with one parent path, and offsets
    grow along it. -/
theorem descends {m : Nat} (nd : ar.IsNode n) (walk : Descends ar.verdict tok n m) :
    n ≤ m ∧ ar.IsNode m ∧ par m = par n := by
  refine walk.invariant (P := fun m => n ≤ m ∧ ar.IsNode m ∧ par m = par n) ?_
    ⟨Nat.le_refl n, nd, rfl⟩
  rintro a b ⟨le, aNode, eq⟩ moves
  obtain ⟨lt, bNode, sibling⟩ := tr.verdict_next_node aNode moves
  exact ⟨by omega, bNode, sibling.trans eq⟩

theorem search_ends (tok : Token) (nd : ar.IsNode n) : ∃ m, Found ar.verdict tok n m ∨ Missed ar.verdict tok n m := by
  obtain ⟨k, cap⟩ : ∃ k, ar.bytesUsed - n ≤ k := ⟨_, le_refl _⟩
  induction k generalizing n with
  | zero =>
    have := tr.isNode_lt nd
    omega
  | succ k ih =>
    cases area : ar.verdict tok n with
    | here => exact ⟨n, .inl ⟨.refl n, area⟩⟩
    | dead => exact ⟨n, .inr ⟨.refl n, area⟩⟩
    | next m =>
      obtain ⟨lt, mNode, -⟩ := tr.verdict_next_node nd area
      obtain ⟨last, hf | gone⟩ := ih mNode (by omega)
      · exact ⟨last, .inl ⟨.step area hf.1, hf.2⟩⟩
      · exact ⟨last, .inr ⟨.step area gone.1, gone.2⟩⟩

theorem children_node (nd : ar.IsNode n) (full : (ar.readBt n).children ≠ 0) :
    n < (ar.readBt n).children ∧ ar.IsNode (ar.readBt n).children ∧ par (ar.readBt n).children = ar.pathOf par n :=
  tr.linked n .children nd full

theorem found_name (nz : n ≠ 0) (nd : ar.IsNode n) (here : ar.verdict tok n = .here) :
    (ar.readBt n).name = tok.bytes := by
  obtain ⟨len, free⟩ := tr.named n nz nd
  exact ((cmpPropName_eq_zero tok.nulFree free len).mp (verdict_here here)).symm

theorem at_path {p : List Token} (at_ : At ar p n) : ar.IsNode n ∧ ar.pathOf par n = p.map Token.bytes := by
  induction at_ with
  | root => exact ⟨.inl rfl, rfl⟩
  | @child p n m tok _ populated found ih =>
    obtain ⟨nd, path_eq⟩ := ih
    obtain ⟨high, cn, childParent⟩ := tr.children_node nd populated
    obtain ⟨le, mNode, mParent⟩ := tr.descends cn found.1
    have nz : m ≠ 0 := by omega
    refine ⟨mNode, ?_⟩
    rw [pathOf, if_neg nz, tr.found_name nz mNode found.2, mParent, childParent, path_eq]
    simp

end

end Trie

theorem map_bytes_injective {left right : List Token}
    (eq : left.map Token.bytes = right.map Token.bytes) : left = right :=
  List.map_inj_right (fun _ _ => Token.ext) |>.mp eq

theorem At.nil_inv (at_ : At a [] n) : n = 0 := by
  generalize full : ([] : List Token) = p at at_
  cases at_ with
  | root => rfl
  | child => simp at full

theorem At.snoc_inv (at_ : At a (p ++ [tok]) m) :
    ∃ n, At a p n ∧ (a.readBt n).children ≠ 0 ∧ Found a.verdict tok (a.readBt n).children m := by
  generalize full : p ++ [tok] = q at at_
  cases at_ with
  | root => simp at full
  | child high filled hf =>
    obtain ⟨rfl, toks⟩ := List.append_inj' full rfl
    cases toks
    exact ⟨_, high, filled, hf⟩

theorem At.above {tl : List Token} (at_ : At a (p ++ tl) m) : ∃ n, At a p n := by
  induction tl using List.reverseRecOn generalizing m with
  | nil => exact ⟨m, by simpa using at_⟩
  | append_singleton tl tok ih =>
    rw [← List.append_assoc] at at_
    obtain ⟨n, high, -⟩ := at_.snoc_inv
    exact ih high

theorem At.unique (left : At a p n) (right : At a p m) : n = m := by
  induction left generalizing m with
  | root => exact right.nil_inv.symm
  | child _ _ found ih =>
    obtain ⟨n, high, -, found'⟩ := right.snoc_inv
    cases ih high
    exact found.unique found'

/-! ## Growing the trie by one node -/

/-- `grown` is `a` after a fresh node for `tok` was constructed at the bump
    pointer and its offset stored in the given link of `cur`. -/
structure Grown (a grown : PropArea) (cur : Nat) (link : Link) (tok : Token) : Prop where
  more : a.bytesUsed < grown.bytesUsed
  used : grown.bytesUsed ≤ paDataSize
  freshNode : grown.data a.bytesUsed = some (.bt { namelen := tok.bytes.length, name := tok.bytes })
  atCurrent : grown.data cur = some (.bt ((a.readBt cur).setLink link a.bytesUsed))
  elsewhere : ∀ o, o ≠ a.bytesUsed → o ≠ cur → grown.data o = a.data o

theorem newPropBt_grown {bu : PropArea} {par : Nat → List Bytes} {cur sz : Nat} {n : Bytes}
    (link : Link) (tr : Trie a par) (nd : a.IsNode cur) (name : n.take sz = tok.bytes)
    (sized : sz = tok.bytes.length) (al : a.newPropBt n sz = some (bu, off)) :
    off = a.bytesUsed ∧ Grown a (bu.storeLink cur link off) cur link tok := by
  unfold newPropBt at al
  split at al
  case h_2 => cases al
  case h_1 reserved reservedOff reservation =>
    obtain ⟨rfl, rfl, room⟩ := allocateObj_eq_some reservation
    obtain ⟨rfl, rfl⟩ := al
    have low := tr.isNode_lt nd
    have grew := le_align (sizeofPropBt + sz + 1)
    -- the constructor finds zeroes in the fields it does not write
    have zeroed : PropArea.readBt { a with bytesUsed := a.bytesUsed + align (sizeofPropBt + sz + 1) }
        a.bytesUsed = {} := readBt_of_none (tr.fresh _ (le_refl _))
    refine ⟨rfl, ?_, ?_, ?_, ?_, ?_⟩
    · show a.bytesUsed < a.bytesUsed + align _
      omega
    · exact room
    · rw [storeLink, write_data, if_neg (by omega), write_data, if_pos rfl, zeroed]
      simp only [PropBt.construct, name, ← sized]
    · rw [storeLink, write_data, if_pos rfl, readBt_write, if_neg (by omega)]
      rfl
    · intro o old other
      rw [storeLink, write_data, if_neg other, write_data, if_neg old]

namespace Grown

variable {a g : PropArea} {par : Nat → List Bytes} {cur : Nat} {link : Link}
  {tok : Token}

theorem readBt_fresh (grew : Grown a g cur link tok) :
    g.readBt a.bytesUsed = { namelen := tok.bytes.length, name := tok.bytes } :=
  readBt_of_data grew.freshNode

theorem readBt_current (grew : Grown a g cur link tok) : g.readBt cur = (a.readBt cur).setLink link a.bytesUsed :=
  readBt_of_data grew.atCurrent

variable {n : Nat} {p : List Token}

section

variable (grew : Grown a g cur link tok) (old : n ≠ a.bytesUsed)
include grew old

theorem readBt_elsewhere (other : n ≠ cur) : g.readBt n = a.readBt n := by
  unfold readBt
  rw [grew.elsewhere n old other]

theorem readBt_old : (g.readBt n).name = (a.readBt n).name ∧
      (g.readBt n).namelen = (a.readBt n).namelen ∧ (g.readBt n).prop = (a.readBt n).prop := by
  by_cases here : n = cur
  · subst here; simp [grew.readBt_current]
  · simp [grew.readBt_elsewhere old here]

/-- The links of the old nodes stay, the stored one excepted. -/
theorem link_old {o : Link} (notStored : n ≠ cur ∨ o ≠ link) : (g.readBt n).link o = (a.readBt n).link o := by
  by_cases here : n = cur
  · subst here
    rw [grew.readBt_current, PropBt.link_setLink_of_ne _ _ (by tauto)]
  · rw [grew.readBt_elsewhere old here]

theorem children_old (notStored : n ≠ cur ∨ Link.children ≠ link) : (g.readBt n).children = (a.readBt n).children :=
  grew.link_old old notStored

end

theorem isNode_iff (grew : Grown a g cur link tok) (nd : a.IsNode cur) (n : Nat) :
    g.IsNode n ↔ a.IsNode n ∨ n = a.bytesUsed := by
  by_cases new : n = a.bytesUsed
  · subst new
    exact iff_of_true (.inr ⟨_, grew.freshNode⟩) (.inr rfl)
  · by_cases here : n = cur
    · subst here
      exact iff_of_true (.inr ⟨_, grew.atCurrent⟩) (.inl nd)
    · simp [IsNode, grew.elsewhere n new here, new]

/-- The ghost paths after the growth. -/
def parents (a : PropArea) (par : Nat → List Bytes) (cur : Nat) (link : Link) :
    Nat → List Bytes :=
  fun n => if n = a.bytesUsed then a.linkParent par cur link else par n

section

variable (grew : Grown a g cur link tok)
include grew

theorem pathOf_old (old : n ≠ a.bytesUsed) : g.pathOf (parents a par cur link) n = a.pathOf par n := by
  simp [pathOf, parents, old, (grew.readBt_old old).1]

theorem linkParent_old (o : Link) (old : n ≠ a.bytesUsed) :
    g.linkParent (parents a par cur link) n o = a.linkParent par n o := by
  cases o with
  | children => exact grew.pathOf_old old
  | left | right => simp [linkParent, parents, old]

theorem info_iff (tr : Trie a par) (nd : a.IsNode cur) :
    g.data off = some (.info info) ↔ a.data off = some (.info info) := by
  by_cases new : off = a.bytesUsed
  · subst new
    simp [grew.freshNode, tr.fresh _ _]
  · by_cases here : off = cur
    · subst here
      refine iff_of_false (by simp [grew.atCurrent]) fun hw => tr.info_not_node hw nd
    · rw [grew.elsewhere off new here]

theorem trie (tr : Trie a par) (nd : a.IsNode cur) : Trie g (parents a par cur link) := by
  have low := tr.isNode_lt nd
  refine ⟨?_, grew.used, ?_, ?_, ?_, ?_, ?_⟩
  · have := tr.rootFits
    have := grew.more
    omega
  · intro off past
    have := grew.more
    rw [grew.elsewhere off (by omega) (by omega)]
    exact tr.fresh off (by omega)
  · intro info hw
    by_cases here : (0 : Nat) = cur
    · rw [here, grew.atCurrent] at hw; cases hw
    · rw [grew.elsewhere 0 (tr.isNode_ne (.inl rfl)) here] at hw
      exact tr.rootNode info hw
  · intro n o hn full
    rcases (grew.isNode_iff nd n).mp hn with old | rfl
    · rw [grew.linkParent_old o (tr.isNode_ne old)]
      by_cases kept : n = cur ∧ o = link
      · obtain ⟨rfl, rfl⟩ := kept
        rw [grew.readBt_current, PropBt.link_setLink_self]
        exact ⟨low, .inr ⟨_, grew.freshNode⟩, by simp [parents]⟩
      · rw [grew.link_old (tr.isNode_ne old) (by tauto)] at full ⊢
        obtain ⟨lt, tg, p⟩ := tr.linked n o old full
        refine ⟨lt, (grew.isNode_iff nd _).mpr (.inl tg), ?_⟩
        rw [parents, if_neg (tr.isNode_ne tg), p]
    · rw [grew.readBt_fresh] at full
      cases o <;> exact absurd rfl full
  · intro n nz hn
    rcases (grew.isNode_iff nd n).mp hn with old | rfl
    · obtain ⟨nm, len, -⟩ := grew.readBt_old (tr.isNode_ne old)
      rw [nm, len]
      exact tr.named n nz old
    · rw [grew.readBt_fresh]
      exact ⟨rfl, tok.nulFree⟩
  · intro n hn kept
    rcases (grew.isNode_iff nd n).mp hn with old | rfl
    · obtain ⟨-, -, prop⟩ := grew.readBt_old (tr.isNode_ne old)
      rw [prop] at kept ⊢
      obtain ⟨info, hw, nm⟩ := tr.propInfo n old kept
      refine ⟨info, ?_, by rw [nm, grew.pathOf_old (tr.isNode_ne old)]⟩
      exact (grew.info_iff tr nd).mpr hw
    · rw [grew.readBt_fresh] at kept
      exact absurd rfl kept

/-! ### What the searches find afterwards -/

theorem side_old (key : Token) (old : n ≠ a.bytesUsed) : side key (g.readBt n) = side key (a.readBt n) := by
  obtain ⟨nm, len, -⟩ := grew.readBt_old old
  simp [side, nm, len]

theorem link_current : (g.readBt cur).link link = a.bytesUsed := by
  rw [grew.readBt_current, PropBt.link_setLink_self]

theorem verdict_old (old : n ≠ a.bytesUsed)
    (notStored : n ≠ cur ∨ side key (a.readBt n) ≠ link) : g.verdict key n = a.verdict key n := by
  obtain ⟨nm, len, -⟩ := grew.readBt_old old
  simp only [verdict, grew.side_old key old, grew.link_old old notStored, nm, len]

theorem verdict_fresh (key : Token) : (g.verdict key a.bytesUsed = .here ∧ key = tok) ∨
      (g.verdict key a.bytesUsed = .dead ∧ key ≠ tok) := by
  have eq := cmpPropName_eq_zero key.nulFree tok.nulFree rfl
  have noLink : ∀ o, ({ namelen := tok.bytes.length, name := tok.bytes } : PropBt).link o = 0 := by
    intro o; cases o <;> rfl
  simp only [verdict, grew.readBt_fresh, noLink]
  by_cases hq : key.bytes = tok.bytes
  · exact .inl ⟨by simp [eq.mpr hq], Token.ext hq⟩
  · exact .inr ⟨by simp [mt eq.mp hq], fun h => hq (h ▸ rfl)⟩

end

/-- A link stored in the sibling tree grows the forest of sibling searches. -/
theorem grows (grew : Grown a g cur (side tok (a.readBt cur)) tok)
    (tr : Trie a par) (nd : a.IsNode cur) (dead : a.verdict tok cur = .dead) :
    Grows a.verdict g.verdict cur a.bytesUsed tok where
  hung := dead
  reached := by
    have low := tr.isNode_lt nd
    obtain ⟨-, apart⟩ := verdict_dead dead
    have old : cur ≠ a.bytesUsed := by omega
    obtain ⟨nm, len, -⟩ := grew.readBt_old old
    simp only [verdict, grew.side_old tok old, grew.link_current, nm, len, apart, if_false]
    rw [if_pos (by omega)]
  kept := by
    intro key n notFresh
    by_cases stored : n ≠ cur ∨ side key (a.readBt n) ≠ side tok (a.readBt cur)
    · exact .inl (grew.verdict_old notFresh stored)
    · simp only [not_or, not_not] at stored
      obtain ⟨rfl, sameLink⟩ := stored
      obtain ⟨emp, -⟩ := verdict_dead dead
      obtain ⟨nm, len, -⟩ := grew.readBt_old notFresh
      simp only [verdict, grew.side_old key notFresh, nm, len, sameLink, emp, grew.link_current]
      split
      · exact .inl rfl
      · have := tr.isNode_lt nd
        exact .inr ⟨trivial, by simp, if_pos (by omega)⟩
  freshHere := by
    intro key here
    obtain ⟨-, eq⟩ | ⟨dead, -⟩ := grew.verdict_fresh key
    · exact eq
    · rw [dead] at here; cases here
  freshFound := by
    obtain ⟨here, -⟩ | ⟨-, apart⟩ := grew.verdict_fresh tok
    · exact here
    · exact absurd rfl apart
  freshLeaf := by
    intro key n mvs
    obtain ⟨here, -⟩ | ⟨dead, -⟩ := grew.verdict_fresh key
    · rw [here] at mvs; cases mvs
    · rw [dead] at mvs; cases mvs

/-- Where the new node is hung: next to the node a search for the token fell
    off, or as the first child of a node without children. -/
inductive Place (a : PropArea) (p : List Token) (tok : Token) (cur : Nat) : Link → Prop where
  | sibling {n : Nat} (above : At a p n) (populated : (a.readBt n).children ≠ 0)
      (missed : Missed a.verdict tok (a.readBt n).children cur) :
      Place a p tok cur (side tok (a.readBt cur))
  | firstChild (above : At a p cur) (childless : (a.readBt cur).children = 0) :
      Place a p tok cur .children

theorem Place.spec (tr : Trie a par) (place : Place a p tok cur link) :
    a.IsNode cur ∧ (a.readBt cur).link link = 0 ∧ a.linkParent par cur link = p.map Token.bytes := by
  cases place with
  | sibling high full gone =>
    obtain ⟨nd, pathEq⟩ := tr.at_path high
    obtain ⟨-, cn, childParent⟩ := tr.children_node nd full
    obtain ⟨-, currentNode, currentParent⟩ := tr.descends cn gone.1
    refine ⟨currentNode, (verdict_dead gone.2).1, ?_⟩
    rw [← pathEq, ← childParent, ← currentParent]
    unfold side; split <;> rfl
  | firstChild high childless =>
    obtain ⟨nd, pathEq⟩ := tr.at_path high
    exact ⟨nd, childless, pathEq⟩

theorem found_iff (grew : Grown a g cur link tok) (tr : Trie a par)
    (place : Place a p tok cur link) {beg m : Nat} (sn : a.IsNode beg) :
    Found g.verdict key beg m ↔ Found a.verdict key beg m ∨
      (m = a.bytesUsed ∧ key = tok ∧ link ≠ .children ∧ Descends a.verdict key beg cur) := by
  have unseen : ∀ n, Descends a.verdict key beg n → n ≠ a.bytesUsed := by
    intro n walk eq
    have := tr.isNode_lt (tr.descends sn walk).2.1
    omega
  have nd := (place.spec tr).1
  cases place with
  | sibling _ _ missed =>
    rw [(grew.grows tr nd missed.2).found_iff unseen]
    simp [side_ne_children]
  | firstChild _ _ =>
    -- the search does not look at the stored link at all
    simp only [ne_eq, not_true_eq_false, false_and, and_false, or_false]
    exact found_congr fun n walk => grew.verdict_old (unseen n walk) (.inr (side_ne_children _ _))

section Paths

variable (grew : Grown a g cur link tok) (tr : Trie a par) {p : List Token} (place : Place a p tok cur link)
  {q : List Token} {m : Nat}

include grew tr place

theorem at_old (at_ : At a q m) : At g q m := by
  have emp := (place.spec tr).2.1
  induction at_ with
  | root => exact .root
  | @child q n m key high full hf ih =>
    have nNode := (tr.at_path high).1
    have notStored : n ≠ cur ∨ Link.children ≠ link := by
      by_contra stored
      simp only [not_or, not_not] at stored
      obtain ⟨rfl, rfl⟩ := stored
      exact full emp
    have eq := grew.children_old (tr.isNode_ne nNode) notStored
    refine .child ih (eq ▸ full) ?_
    rw [eq, grew.found_iff tr place (tr.children_node nNode full).2.1]
    exact .inl hf

theorem at_fresh : At g (p ++ [tok]) a.bytesUsed := by
  have nd := (place.spec tr).1
  have old : ∀ {q m}, At a q m → At g q m := grew.at_old tr place
  cases place with
  | sibling high full gone =>
    have aboveNode := (tr.at_path high).1
    have cn := (tr.children_node aboveNode full).2.1
    have eq := grew.children_old (tr.isNode_ne aboveNode) (.inr (side_ne_children tok _).symm)
    refine .child (old high) (by rw [eq]; exact full) ?_
    rw [eq]
    exact (grew.found_iff tr (.sibling high full gone) cn).mpr
      (.inr ⟨rfl, rfl, side_ne_children _ _, gone.1⟩)
  | firstChild high childless =>
    have tg : (g.readBt cur).children = a.bytesUsed := by
      rw [grew.readBt_current]; rfl
    have pos := tr.isNode_lt nd
    refine .child (old high) (by omega) ?_
    rw [tg]
    obtain ⟨here, -⟩ | ⟨-, apart⟩ := grew.verdict_fresh tok
    · exact ⟨.refl _, here⟩
    · exact absurd rfl apart

theorem at_inv (at_ : At g q m) : At a q m ∨ (q = p ++ [tok] ∧ m = a.bytesUsed) := by
  obtain ⟨-, -, pp⟩ := place.spec tr
  induction at_ with
  | root => exact .inl .root
  | @child q n m key _ populated hf ih =>
    rcases ih with old | ⟨-, rfl⟩
    · obtain ⟨nNode, qPath⟩ := tr.at_path old
      by_cases kept : n = cur ∧ Link.children = link
      · -- the fresh node is the only one below `current`
        obtain ⟨rfl, rfl⟩ := kept
        have tg : (g.readBt n).children = a.bytesUsed := by
          rw [grew.readBt_current]; rfl
        rw [tg] at hf
        have pathEq : q = p := map_bytes_injective (qPath.symm.trans pp)
        obtain ⟨here, rfl⟩ | ⟨dead, -⟩ := grew.verdict_fresh key
        · exact .inr ⟨by rw [pathEq], hf.unique ⟨.refl _, here⟩⟩
        · exact (hf.not_missed ⟨.refl _, dead⟩).elim
      · -- the search starts at an old node, and ends at one unless it goes through `current`
        have eq := grew.children_old (tr.isNode_ne nNode) (by tauto)
        rw [eq] at populated hf
        obtain ⟨-, cn, childParent⟩ := tr.children_node nNode populated
        rcases (grew.found_iff tr place cn).mp hf with foundOld | ⟨rfl, rfl, notChild, walk⟩
        · exact .inl (.child old populated foundOld)
        · refine .inr ⟨?_, rfl⟩
          have sib := (tr.descends cn walk).2.2
          have isParent : a.linkParent par cur link = par cur := by
            cases link <;> first | rfl | exact absurd rfl notChild
          rw [isParent, sib, childParent, qPath] at pp
          rw [map_bytes_injective pp]
    · -- the fresh node has no children
      rw [grew.readBt_fresh] at populated
      exact absurd rfl populated

theorem at_iff : At g q m ↔ At a q m ∨ (q = p ++ [tok] ∧ m = a.bytesUsed) := by
  constructor
  · exact grew.at_inv tr place
  · rintro (old | ⟨rfl, rfl⟩)
    · exact grew.at_old tr place old
    · exact grew.at_fresh tr place

end Paths

theorem stored_iff (grew : Grown a g cur link tok) (tr : Trie a par)
    (place : Place a p tok cur link) {q : List Token} : Stored g q off info ↔ Stored a q off info := by
  have nd := (place.spec tr).1
  constructor
  · rintro ⟨n, at_, prop, nz, hw⟩
    rcases (grew.at_iff tr place).mp at_ with old | ⟨-, rfl⟩
    · have notFresh : n ≠ a.bytesUsed := by
        have := tr.isNode_lt (tr.at_path old).1
        omega
      rw [(grew.readBt_old notFresh).2.2] at prop
      exact ⟨n, old, prop, nz, (grew.info_iff tr nd).mp hw⟩
    · rw [grew.readBt_fresh] at prop
      exact absurd prop.symm nz
  · rintro ⟨n, old, prop, nz, hw⟩
    have notFresh : n ≠ a.bytesUsed := by
      have := tr.isNode_lt (tr.at_path old).1
      omega
    refine ⟨n, (grew.at_iff tr place).mpr (.inl old), ?_, nz, (grew.info_iff tr nd).mpr hw⟩
    rw [(grew.readBt_old notFresh).2.2, prop]

end Grown

end PropArea

end Aosp.Bionic
