import Aosp.Bionic.PropAreaSpec

/-! # How the objects of an area lie and refer to each other

Every change `add` makes to an area is a sequence of `Publish` steps: an object
is constructed at the bump pointer and its offset is stored in one field that
was 0.  `Published` says what both kinds of step, a new `prop_bt` and a new
`prop_info`, have in common, and `Layout` is the invariant they keep: aligned
objects that do not overlap and are each referenced by exactly one field.

That sibling trees are search trees is not a separate invariant.  Every node is
found by the search for its own token, a search that passes from a node to its
left is one for a smaller token, and with a single reference to every node there
is no other way into a subtree (`Layout.ordered`).
-/

namespace Aosp.Bionic

open Aosp.Lib

/-- The bytes an object was allocated with, the NUL of its name included. -/
def PropObj.size : PropObj → Nat
  | .bt nd => sizeofPropBt + nd.namelen + 1
  | .info property => sizeofPropInfo + property.name.length + 1

/-- The fields of a `prop_bt` that hold an offset. -/
inductive Slot where
  | link (link : Link)
  | prop
deriving DecidableEq, Repr

/-- Whether an object is of the kind the field is read as. -/
def Slot.Holds : Slot → PropObj → Prop
  | .link _, .bt _ => True
  | .prop, .info _ => True
  | _, _ => False

namespace PropArea

variable {area g : PropArea} {par : Nat → List Bytes}

def slot (area : PropArea) (n : Nat) : Slot → Nat
  | .link link => (area.readBt n).link link
  | .prop => (area.readBt n).prop

def Refers (area : PropArea) (field : Nat × Slot) (off : Nat) : Prop :=
  area.IsNode field.1 ∧ area.slot field.1 field.2 = off ∧ off ≠ 0

/-- `m` is in the sibling tree with root `n`. -/
inductive Siblings (area : PropArea) (n : Nat) : Nat → Prop where
  | refl : Siblings area n n
  | snoc {k m : Nat} {link : Link} (pre : Siblings area n k) (sideways : link ≠ .children)
      (linked : (area.readBt k).link link = m) (nonzero : m ≠ 0) : Siblings area n m

/-! ## Publishing one object -/

/-- One store of `find_prop_bt` or `find_property`, with the allocation and the
    constructor call before it. -/
inductive Publish (area grown : PropArea) : Prop where
  | node {p : List Token} {tok : Token} {cur : Nat} {link : Link}
      (grew : Grown area grown cur link tok) (place : Grown.Place area p tok cur link)
      (sz : grown.bytesUsed = area.bytesUsed + align (sizeofPropBt + tok.bytes.length + 1))
  | info {n : PropName} {nd : Nat} {info : PropInfo} (attached : Attached area grown nd info)
      (here : At area n.tokens nd) (vacant : (area.readBt nd).prop = 0)
      (named : info.name = n.bytes)
      (sz : grown.bytesUsed = area.bytesUsed + align (sizeofPropInfo + n.bytes.length + 1))

/-- What the two kinds of publication have in common. -/
structure Published (area grown : PropArea) (owner : Nat) (slot : Slot) (obj : PropObj) : Prop where
  ownerNode : area.IsNode owner
  vacant : area.slot owner slot = 0
  stored : grown.slot owner slot = area.bytesUsed
  -- the root node has no siblings and no property
  root : owner = 0 → slot = .link .children
  kept : ∀ n o, area.IsNode n → (n, o) ≠ (owner, slot) → grown.slot n o = area.slot n o
  freshObj : grown.data area.bytesUsed = some obj
  leaf : ∀ o, grown.slot area.bytesUsed o = 0
  size : grown.bytesUsed = area.bytesUsed + align obj.size
  oldObj : ∀ off obj, off ≠ 0 → off ≠ area.bytesUsed → grown.data off = some obj →
    ∃ old, area.data off = some old ∧ old.size = obj.size
  nodes : ∀ n, grown.IsNode n → area.IsNode n ∨ n = area.bytesUsed

variable {n off m : Nat} {link : Link} {p : List Token} {name : Bytes}

theorem bt_of_isNode (nd : area.IsNode n) (nz : n ≠ 0) : area.data n = some (.bt (area.readBt n)) := by
  obtain zero | ⟨_, hw⟩ := nd
  · exact absurd zero nz
  · rw [hw, readBt_of_data hw]

theorem Grown.published {cur : Nat} {tok : Token} (grew : Grown area g cur link tok)
    (tr : Trie area par) (place : Place area p tok cur link)
    (sz : g.bytesUsed = area.bytesUsed + align (sizeofPropBt + tok.bytes.length + 1)) :
    Published area g cur (.link link) (.bt { namelen := tok.bytes.length, name := tok.bytes }) := by
  obtain ⟨hn, emp, -⟩ := place.spec tr
  refine ⟨hn, emp, ?_, ?_, ?_, grew.freshNode, ?_, sz, ?_, fun n => (grew.isNode_iff hn n).mp⟩
  · simp [slot, grew.readBt_current]
  · intro _
    cases place with
    | sibling high full gone =>
      have above := (tr.at_path high).1
      -- a sibling hangs below the children of some node, so not at the root
      obtain ⟨_, cn, -⟩ := tr.children_node above full
      have le := (tr.descends cn gone.1).1
      omega
    | firstChild => rfl
  · intro n o nd ne
    cases o with
    | link o =>
      refine grew.link_old (tr.isNode_ne nd) ?_
      by_contra same
      simp only [not_or, not_not] at same
      exact ne (by rw [same.1, same.2])
    | prop => exact (grew.readBt_old (tr.isNode_ne nd)).2.2
  · intro o
    rw [slot.eq_def, grew.readBt_fresh]
    cases o with
    | link o => cases o <;> rfl
    | prop => rfl
  · intro off obj nz old hw
    by_cases here : off = cur
    · subst here
      rw [grew.atCurrent] at hw
      cases hw
      exact ⟨_, bt_of_isNode hn nz, by simp [PropObj.size]⟩
    · rw [grew.elsewhere off old here] at hw
      exact ⟨obj, hw, rfl⟩

theorem Attached.published {nm : PropName} {nd : Nat} {info : PropInfo}
    (join : Attached area g nd info) (tr : Trie area par)
    (here : At area nm.tokens nd) (free : (area.readBt nd).prop = 0) (name : info.name = nm.bytes)
    (sz : g.bytesUsed = area.bytesUsed + align (sizeofPropInfo + nm.bytes.length + 1)) :
    Published area g nd .prop (.info info) := by
  obtain ⟨hn, p⟩ := tr.at_path here
  refine ⟨hn, free, ?_, ?_, ?_, join.freshInfo, ?_, ?_, ?_, fun n new => .inl ((join.isNode_iff tr hn n).mp new)⟩
  · simp [slot, readBt_of_data join.atNode]
  · rintro rfl
    -- a name has a first token, so it does not lead to the root
    rw [nm.tokens_bytes] at p
    exact absurd p.symm (List.splitOn_ne_nil _ _)
  · intro n o old ne
    cases o with
    | link link => exact (join.sameNodes tr n old).2.2 link
    | prop =>
      have notHere : n ≠ nd := fun eq => ne (by rw [eq])
      simp only [slot, join.readBt_elsewhere (tr.isNode_ne old) notHere]
  · intro o
    have zeroed : g.readBt area.bytesUsed = {} := by simp [readBt, join.freshInfo]
    rw [slot.eq_def, zeroed]
    cases o with
    | link o => cases o <;> rfl
    | prop => rfl
  · rw [sz, PropObj.size, name]
  · intro off obj nz notFresh hw
    by_cases atNode : off = nd
    · subst atNode
      rw [join.atNode] at hw
      cases hw
      exact ⟨_, bt_of_isNode hn nz, rfl⟩
    · rw [join.elsewhere off notFresh atNode] at hw
      exact ⟨obj, hw, rfl⟩

theorem Publish.published (publish : Publish area g) (tr : Trie area par) :
    ∃ ow slot obj, Published area g ow slot obj := by
  cases publish with
  | node grew place sz => exact ⟨_, _, _, grew.published tr place sz⟩
  | info join here free name sz => exact ⟨_, _, _, join.published tr here free name sz⟩

theorem Publish.trie (publish : Publish area g) (tr : Trie area par) : ∃ grownParent, Trie g grownParent := by
  cases publish with
  | node grew place sz => exact ⟨_, grew.trie tr (place.spec tr).1⟩
  | @info name node _ join here _ free sz =>
    obtain ⟨hn, p⟩ := tr.at_path here
    exact ⟨_, join.trie tr hn (by rw [p, name.intercalate_tokens, free])⟩

/-! ## The invariant -/

structure Layout (area : PropArea) : Prop where
  alignedEnd : 4 ∣ area.bytesUsed
  object : ∀ off obj, off ≠ 0 → area.data off = some obj →
    4 ∣ off ∧ sizeofPropBt ≤ off ∧ off + obj.size ≤ area.bytesUsed
  apart : ∀ off o obj otherObj, off ≠ 0 → off < o → area.data off = some obj →
    area.data o = some otherObj → off + obj.size ≤ o
  owned : ∀ off obj, off ≠ 0 → area.data off = some obj → ∃ field, area.Refers field off
  once : ∀ field o off, area.Refers field off → area.Refers o off → field = o
  rootBare : ∀ slot, slot ≠ .link .children → area.slot 0 slot = 0
  searchable : ∀ n, area.IsNode n → ∃ p, At area p n
  held : ∀ n, area.IsNode n → (area.readBt n).prop ≠ 0 → ∃ name : PropName, At area name.tokens n

theorem Layout.init : Layout PropArea.init where
  alignedEnd := by decide
  object := fun _ _ _ hw => by cases hw
  apart := fun _ _ _ _ _ _ hw => by cases hw
  owned := fun _ _ _ hw => by cases hw
  once := by
    rintro ⟨n, slot⟩ _ _ ⟨-, v, nz⟩
    cases slot with
    | link link => cases link <;> exact absurd v.symm nz
    | prop => exact absurd v.symm nz
  rootBare := by
    intro slot _
    cases slot with
    | link link => cases link <;> rfl
    | prop => rfl
  searchable := by
    rintro n (rfl | ⟨_, hw⟩)
    · exact ⟨[], .root⟩
    · cases hw
  held := fun _ _ kept => absurd rfl kept

variable {fd : Nat × Slot} {bu : PropArea}

theorem Refers.target (tr : Trie area par) (ref : area.Refers fd off) :
    ∃ obj, area.data off = some obj ∧ fd.2.Holds obj := by
  obtain ⟨n, slot⟩ := fd
  obtain ⟨nd, rfl, nz⟩ := ref
  cases slot with
  | link link =>
    obtain ⟨-, tg, -⟩ := tr.linked n link nd nz
    exact ⟨_, bt_of_isNode tg nz, trivial⟩
  | prop =>
    obtain ⟨_, hw, -⟩ := tr.propInfo n nd nz
    exact ⟨_, hw, trivial⟩

theorem Refers.lt (tr : Trie area par) (ref : area.Refers fd off) : off < area.bytesUsed := by
  obtain ⟨_, hw, -⟩ := ref.target tr
  by_contra beyond
  rw [tr.fresh off (by omega)] at hw
  cases hw

theorem align_dvd (sz : Nat) : 4 ∣ align sz := ⟨_, Nat.mul_comm _ _⟩

namespace Published

variable {ow : Nat} {slot : Slot} {obj : PropObj}

theorem refers_old (seen : Published area g ow slot obj) (nds : ∀ n, area.IsNode n → g.IsNode n) {off : Nat}
    (ref : area.Refers fd off) : g.Refers fd off := by
  obtain ⟨nd, v, nz⟩ := ref
  refine ⟨nds _ nd, ?_, nz⟩
  rw [seen.kept fd.1 fd.2 nd, v]
  intro eq
  cases eq
  exact nz (v.symm.trans seen.vacant)

/-- A reference afterwards is an old one, or the stored one to the new object. -/
theorem refers_inv (seen : Published area g ow slot obj) {off : Nat}
    (ref : g.Refers fd off) : area.Refers fd off ∨ (fd = (ow, slot) ∧ off = area.bytesUsed) := by
  obtain ⟨nd, v, nz⟩ := ref
  rcases seen.nodes _ nd with old | new
  · by_cases here : fd = (ow, slot)
    · subst here
      exact .inr ⟨rfl, v.symm.trans seen.stored⟩
    · rw [seen.kept fd.1 fd.2 old here] at v
      exact .inl ⟨old, v, nz⟩
  · rw [new, seen.leaf] at v
    exact absurd v.symm nz

end Published

section

variable (publish : Publish area g) (tr : Trie area par)
include publish tr

theorem Publish.isNode_mono (nd : area.IsNode n) : g.IsNode n := by
  cases publish with
  | node grew place sz => exact (grew.isNode_iff (place.spec tr).1 n).mpr (.inl nd)
  | info join here _ _ sz =>
    exact (join.isNode_iff tr (tr.at_path here).1 n).mpr nd

theorem Publish.at_mono (at_ : At area p n) : At g p n := by
  cases publish with
  | node grew place sz => exact (grew.at_iff tr place).mpr (.inl at_)
  | info join _ _ _ sz => exact ((join.sameNodes tr).at_iff tr).mpr at_

theorem Publish.searchable (ly : Layout area) (nd : g.IsNode n) : ∃ p, At g p n := by
  have old : area.IsNode n → ∃ p, At g p n := fun hn =>
    (ly.searchable n hn).imp fun _ at_ => publish.at_mono tr at_
  cases publish with
  | node grew place sz =>
    rcases (grew.isNode_iff (place.spec tr).1 n).mp nd with hn | rfl
    · exact old hn
    · exact ⟨_, (grew.at_iff tr place).mpr (.inr ⟨rfl, rfl⟩)⟩
  | info join here _ _ sz =>
    exact old ((join.isNode_iff tr (tr.at_path here).1 n).mp nd)

theorem Publish.held (ly : Layout area) (nd : g.IsNode n) (kept : (g.readBt n).prop ≠ 0) :
    ∃ name : PropName, At g name.tokens n := by
  have old : area.IsNode n → (area.readBt n).prop ≠ 0 → ∃ name : PropName, At g name.tokens n :=
    fun hn kept => (ly.held n hn kept).imp fun _ at_ => publish.at_mono tr at_
  cases publish with
  | node grew place sz =>
    rcases (grew.isNode_iff (place.spec tr).1 n).mp nd with hn | rfl
    · have notFresh := tr.isNode_ne hn
      exact old hn ((grew.readBt_old notFresh).2.2 ▸ kept)
    · rw [grew.readBt_fresh] at kept
      exact absurd rfl kept
  | @info name owner _ join here _ _ sz =>
    have hn := (join.isNode_iff tr (tr.at_path here).1 n).mp nd
    by_cases atOwner : n = owner
    · exact ⟨name, atOwner ▸ ((join.sameNodes tr).at_iff tr).mpr here⟩
    · have notFresh := tr.isNode_ne hn
      exact old hn (join.readBt_elsewhere notFresh atOwner ▸ kept)

theorem Publish.layout (ly : Layout area) : Layout g := by
  obtain ⟨ow, slot, obj, seen⟩ := publish.published tr
  have room := le_align obj.size
  have sz := seen.size
  have nds : ∀ n, area.IsNode n → g.IsNode n := fun _ => publish.isNode_mono tr
  -- an object that is not the new one lies below the old end
  have oldObj : ∀ off hf, off ≠ 0 → g.data off = some hf → off ≠ area.bytesUsed →
      ∃ old, area.data off = some old ∧ old.size = hf.size ∧ off + hf.size ≤ area.bytesUsed := by
    intro off hf nz hw notFresh
    obtain ⟨old, how, eq⟩ := seen.oldObj off hf nz notFresh hw
    obtain ⟨-, -, hi⟩ := ly.object off old nz how
    exact ⟨old, how, eq, eq ▸ hi⟩
  refine ⟨?_, ?_, ?_, ?_, ?_, ?_, fun n => publish.searchable tr ly, fun n => publish.held tr ly⟩
  · rw [sz]
    exact Nat.dvd_add ly.alignedEnd (align_dvd _)
  · intro off hf nz hw
    by_cases new : off = area.bytesUsed
    · subst new
      rw [seen.freshObj] at hw
      cases hw
      exact ⟨ly.alignedEnd, tr.rootFits, by omega⟩
    · obtain ⟨old, how, -, hi⟩ := oldObj off hf nz hw new
      obtain ⟨even, high, -⟩ := ly.object off old nz how
      exact ⟨even, high, by omega⟩
  · intro off o hf found' nz lt hw put'
    by_cases new : off = area.bytesUsed
    · obtain ⟨-, -, -, hi⟩ := oldObj o found' (by omega) put' (by omega)
      omega
    · obtain ⟨old, how, eq, hi⟩ := oldObj off hf nz hw new
      by_cases otherFresh : o = area.bytesUsed
      · omega
      · obtain ⟨otherOld, otherOldWritten, -⟩ :=
          oldObj o found' (by omega) put' otherFresh
        rw [← eq]
        exact ly.apart off o old otherOld nz lt how otherOldWritten
  · intro off hf nz hw
    by_cases new : off = area.bytesUsed
    · exact ⟨(ow, slot), nds _ seen.ownerNode, seen.stored.trans new.symm, nz⟩
    · obtain ⟨old, how, -⟩ := oldObj off hf nz hw new
      obtain ⟨fd, ref⟩ := ly.owned off old nz how
      exact ⟨fd, seen.refers_old nds ref⟩
  · intro fd o off ref otherRefers
    rcases seen.refers_inv ref with old | ⟨rfl, new⟩ <;>
      rcases seen.refers_inv otherRefers with otherOld | ⟨rfl, otherFresh⟩
    · exact ly.once fd o off old otherOld
    · have := old.lt tr
      omega
    · have := otherOld.lt tr
      omega
    · rfl
  · intro o notChildren
    rw [seen.kept 0 o (.inl rfl), ly.rootBare o notChildren]
    intro eq
    cases eq
    exact notChildren (seen.root rfl)

end

/-! ## Sibling trees are search trees -/

theorem Siblings.spec (tr : Trie area par) (nd : area.IsNode n) (sib : Siblings area n m) :
    n ≤ m ∧ area.IsNode m ∧ par m = par n := by
  induction sib with
  | refl => exact ⟨Nat.le_refl n, nd, rfl⟩
  | @snoc k m link _ sideways linked nz ih =>
    obtain ⟨_, kNode, kParent⟩ := ih
    obtain ⟨lt, tg, p⟩ := tr.linked k link kNode (linked ▸ nz)
    rw [linked] at lt tg p
    refine ⟨by omega, tg, ?_⟩
    cases link with
    | children => exact absurd rfl sideways
    | left | right => exact p.trans kParent

/-- A node that some `children` field refers to is in no other node's subtree of
    siblings. -/
theorem Layout.head_outside (ly : Layout area) (tr : Trie area par) {top : Nat} (nd : area.IsNode n)
    (sideways : link ≠ .children) (side : (area.readBt n).link link = top) (nz : top ≠ 0) (high : area.IsNode m)
    (full : (area.readBt m).children ≠ 0) : ¬ Siblings area top (area.readBt m).children := by
  have topNode : area.IsNode top := side ▸ (tr.linked n link nd (side ▸ nz)).2.1
  -- its only reference is a `children` field
  have single : ∀ k o, area.IsNode k → o ≠ .children → (area.readBt k).link o ≠ (area.readBt m).children := by
    intro k o kNode otherSideways eq
    have fds := ly.once (k, .link o) (m, .link .children) _ ⟨kNode, eq, full⟩
      ⟨high, rfl, full⟩
    simp only [Prod.mk.injEq, Slot.link.injEq] at fds
    exact otherSideways fds.2
  intro hi
  cases hi with
  | refl => exact single n link nd sideways side
  | snoc pre otherSideways otherLinked _ =>
    exact single _ _ (pre.spec tr topNode).2.1 otherSideways otherLinked

/-- A search that ends in the subtree below a link of `n` but did not start
    there went through that link. -/
theorem Layout.search_through (ly : Layout area) (tr : Trie area par) {tok : Token} {beg top : Nat}
    (nd : area.IsNode n) (leads : (area.readBt n).link link = top) (nz : top ≠ 0)
    (sn : area.IsNode beg) (walk : Descends area.verdict tok beg m) (hi : Siblings area top m)
    (past : ¬ Siblings area top beg) :
    link = side tok (area.readBt n) ∧
      cmpPropName tok.bytes tok.bytes.length (area.readBt n).name (area.readBt n).namelen ≠ 0 := by
  have topNode : area.IsNode top := leads ▸ (tr.linked n link nd (leads ▸ nz)).2.1
  induction walk with
  | refl => exact absurd hi past
  | @step here next _ mvs _ ih =>
    obtain ⟨tg, nextNonzero, apart⟩ := verdict_next mvs
    have ref : area.Refers (here, .link _) next :=
      ⟨sn, tg, nextNonzero⟩
    by_cases entered : Siblings area top next
    · -- the one reference to `next` is the link the search followed
      cases entered with
      | refl =>
        have fds := ly.once (n, .link link) _ _ ⟨nd, leads, nz⟩ ref
        cases fds
        exact ⟨rfl, apart⟩
      | snoc pre _ otherLinked _ =>
        have fds := ly.once (_, .link _) _ _
          ⟨(pre.spec tr topNode).2.1, otherLinked, nextNonzero⟩ ref
        cases fds
        exact absurd pre past
    · exact ih (tr.verdict_next_node sn mvs).2.1 hi entered

/-- `m` is in the sibling subtree below the given link of `n`. -/
def Below (area : PropArea) (n : Nat) (link : Link) (m : Nat) : Prop :=
  (area.readBt n).link link ≠ 0 ∧ Siblings area ((area.readBt n).link link) m

theorem Layout.ordered (ly : Layout area) (tr : Trie area par) (nd : area.IsNode n)
    (sideways : link ≠ .children) (low : area.Below n link m) :
    (link = .left → cmpPropName (area.readBt m).name (area.readBt m).namelen
      (area.readBt n).name (area.readBt n).namelen < 0) ∧
    (link = .right → 0 < cmpPropName (area.readBt m).name (area.readBt m).namelen
      (area.readBt n).name (area.readBt n).namelen) := by
  obtain ⟨nz, hi⟩ := low
  obtain ⟨_, topNode, -⟩ := tr.linked n link nd nz
  obtain ⟨_, mNode, -⟩ := hi.spec tr topNode
  have mNonzero : m ≠ 0 := by omega
  obtain ⟨len, -⟩ := tr.named m mNonzero mNode
  obtain ⟨p, at_⟩ := ly.searchable m mNode
  cases at_ with
  | root => exact absurd rfl mNonzero
  | @child _ _ _ _ aboveAt populated found =>
    have above := (tr.at_path aboveAt).1
    have past := ly.head_outside tr nd sideways rfl nz above populated
    obtain ⟨via, _⟩ := ly.search_through tr nd rfl nz
      (tr.children_node above populated).2.1 found.1 hi past
    rw [len, tr.found_name mNonzero mNode found.2]
    unfold side at via
    split at via
    · rename_i less
      exact ⟨fun _ => less, fun isRight => by rw [isRight] at via; cases via⟩
    · exact ⟨fun isLeft => (by rw [isLeft] at via; cases via), fun _ => by omega⟩

/-! ## The walks as sequences of publications -/

def Publishes : PropArea → PropArea → Prop := Relation.ReflTransGen Publish

theorem newPropBt_size {nl : Nat} (al : area.newPropBt name nl = some (bu, off)) :
    bu.bytesUsed = area.bytesUsed + align (sizeofPropBt + nl + 1) := by
  unfold newPropBt at al
  split at al
  case h_2 => cases al
  case h_1 reservation =>
    obtain ⟨-, rfl, -⟩ := allocateObj_eq_some reservation
    cases al
    rfl

theorem newPropInfo_size {v : Bytes} {nl vl : Nat} (al : area.newPropInfo name nl v vl = some (bu, off)) :
    bu.bytesUsed = area.bytesUsed + align (sizeofPropInfo + nl + 1) := by
  unfold newPropInfo at al
  split at al
  case h_2 => cases al
  case h_1 reservation =>
    obtain ⟨-, rfl, -⟩ := allocateObj_eq_some reservation
    cases al
    rfl

section Walk

variable {p : List Token} {tok : Token} {rem : Bytes} {sz cur : Nat}
  {ain : Bool} {res : Option Nat}

section

variable (tr : Trie area par) (named : rem.take sz = tok.bytes) (sized : sz = tok.bytes.length)
  (above : At area p cur)
include tr named sized above

theorem subtreeRoot_publishes (walked : subtreeRoot ain area rem sz cur = (g, res)) : Publishes area g := by
  unfold subtreeRoot at walked
  split at walked
  · cases walked
    exact .refl
  · rename_i childless
    split at walked
    · split at walked
      · rename_i built off al
        cases walked
        obtain ⟨-, grew⟩ := newPropBt_grown .children tr (tr.at_path above).1 named sized al
        have sz := newPropBt_size al
        rw [sized] at sz
        exact .single (.node grew (.firstChild above (not_not.mp childless)) sz)
      · cases walked
        exact .refl
    · cases walked
      exact .refl

theorem findPropBt_publishes (filled : (area.readBt cur).children ≠ 0)
    (walked : findPropBt rem sz ain (paDataSize + 1) area
      (some (area.readBt cur).children) = some (g, res)) : Publishes area g := by
  have cn := (tr.children_node (tr.at_path above).1 filled).2.1
  obtain ⟨m, hf | missed⟩ := tr.search_ends tok cn
  · rw [findPropBt_found tr named sized cn hf] at walked
    cases walked
    exact .refl
  · rw [findPropBt_missed tr named sized cn missed] at walked
    split at walked
    · split at walked
      · rename_i built off al
        cases walked
        have nd := (tr.descends cn missed.1).2.1
        obtain ⟨-, grew⟩ := newPropBt_grown _ tr nd named sized al
        have sz := newPropBt_size al
        rw [sized] at sz
        exact .single (.node grew (.sibling above filled missed) sz)
      · cases walked
        exact .refl
    · cases walked
      exact .refl

end

end Walk

theorem substrSize_le (rem : Bytes) : substrSize rem ≤ rem.length := by
  refine le_trans (Nat.mod_le _ _) ?_
  split
  · rename_i sep hf
    exact Nat.le_of_lt (List.findIdx?_eq_some_iff_getElem.mp hf).1
  · exact le_refl _

theorem findPropertyNode_publishes (tr : Trie area par) {rem : Bytes} {cur fl : Nat}
    (nulFree : NulFree rem) (high : At area p cur) (fuel : rem.length < fl) (al : Bool) :
    ∃ g res, findPropertyNode al fl area rem cur = some (g, res) ∧ Publishes area g ∧ Extends area g := by
  induction fl generalizing area par p rem cur with
  | zero => omega
  | succ fl ih =>
    by_cases emp : substrSize rem = 0
    -- an empty token ends the loop without a node
    · exact ⟨area, none, by simp [findPropertyNode, emp], .refl, .refl tr⟩
    let tok : Token := ⟨rem.take (substrSize rem), nulFree.take _⟩
    have name : rem.take _ = tok.bytes := rfl
    have sized : substrSize rem = tok.bytes.length := by
      have := substrSize_le rem
      simp only [tok, List.length_take]
      omega
    -- each round publishes at most two nodes: the root of a sibling tree and one in it
    obtain ⟨first, root, rootEq, more, -, -, rooted, -⟩ :=
      subtreeRoot_spec tr name sized high al
    have firstSteps := subtreeRoot_publishes tr name sized high rootEq
    cases root with
    | none => exact ⟨first, none, by simp [findPropertyNode, emp, rootEq], firstSteps, more⟩
    | some root =>
      obtain ⟨rfl, full⟩ := rooted root rfl
      obtain ⟨_, firstTrie⟩ := more.trie
      have firstAbove := more.paths _ _ high
      obtain ⟨snd, nd, nodeEq, walk, -⟩ :=
        findPropBt_spec firstTrie name sized firstAbove full al
      have secondSteps := firstSteps.trans
        (findPropBt_publishes firstTrie name sized firstAbove full nodeEq)
      have secondExtends := more.trans walk.extended
      cases nd with
      | none =>
        exact ⟨snd, none, by simp [findPropertyNode, emp, rootEq, nodeEq], secondSteps, secondExtends⟩
      | some nd =>
        cases separator : strchr rem dot with
        | none =>
          exact ⟨snd, some nd, by simp [findPropertyNode, emp, rootEq, nodeEq, separator], secondSteps, secondExtends⟩
        | some sep =>
          obtain ⟨_, secondTrie⟩ := walk.extended.trie
          have cap : sep < rem.length := (List.findIdx?_eq_some_iff_getElem.mp separator).1
          obtain ⟨last, res, lastEq, lastSteps, lastExtends⟩ := ih secondTrie
            (nulFree.drop (sep + 1)) (walk.reached nd rfl) (by rw [List.length_drop]; omega)
          exact ⟨last, res, by simpa [findPropertyNode, emp, rootEq, nodeEq, separator] using lastEq,
            secondSteps.trans lastSteps, secondExtends.trans lastExtends⟩

theorem find_returns (tr : Trie area par) (nulFree : NulFree name) : ∃ res, area.find name = some res := by
  obtain ⟨g, nd, walk, -⟩ :=
    findPropertyNode_publishes tr nulFree .root (Nat.lt_succ_self name.length) false
  cases nd with
  | none => exact ⟨none, by simp [find, findProperty, walk]⟩
  | some n =>
    by_cases free : (g.readBt n).prop = 0
    · exact ⟨none, by simp [find, findProperty, walk, free]⟩
    · exact ⟨toPropObj (g.readBt n).prop, by simp [find, findProperty, walk, free]⟩

/-- `add` returns for every name, and publishes nodes and at most one
    `prop_info`. -/
theorem add_publishes (tr : Trie area par) (nulFree : NulFree name) (fits : name.length < 2 ^ 32) (v : Bytes)
    (vl : Nat) : ∃ g adds, area.add name name.length v vl = some (g, adds) ∧ Publishes area g := by
  obtain ⟨mid, nd, walk, steps, -⟩ :=
    findPropertyNode_publishes tr nulFree .root (Nat.lt_succ_self name.length) true
  cases nd with
  | none => exact ⟨mid, false, by simp [add, findProperty, walk], steps⟩
  | some n =>
    by_cases free : (mid.readBt n).prop = 0
    · cases al : mid.newPropInfo name name.length v vl with
      | none => exact ⟨mid, false, by simp [add, findProperty, walk, free, al], steps⟩
      | some _ =>
        -- a walk that got to a node met no empty token
        let full : PropName := ⟨name, nulFree, fits, findPropertyNode_tokens walk⟩
        obtain ⟨g, res, sameWalk, walked, -⟩ := findPropertyNode_name tr full true
        obtain ⟨rfl, rfl⟩ : mid = g ∧ some n = res := by
          simpa using walk.symm.trans sameWalk
        have here := walked.reached n rfl
        obtain ⟨_, mtr⟩ := walked.extended.trie
        obtain ⟨-, join⟩ :=
          newPropInfo_attached mtr (mtr.at_path here).1 al
        have sz := newPropInfo_size al
        exact ⟨_, true, by simp [add, findProperty, walk, free, al],
          steps.tail (.info join here free List.take_length sz)⟩
    · exact ⟨mid, (toPropObj (mid.readBt n).prop).isSome, by simp [add, findProperty, walk, free], steps⟩

/-- The representation invariant of an area. -/
structure Sound (area : PropArea) : Prop where
  trie : ∃ par, Trie area par
  layout : Layout area

theorem Sound.init : Sound PropArea.init := ⟨⟨_, Trie.init⟩, Layout.init⟩

theorem Publishes.sound (steps : Publishes area g) (hs : Sound area) : Sound g := by
  induction steps with
  | refl => exact hs
  | tail _ publish ih =>
    obtain ⟨⟨_, tr⟩, ly⟩ := ih
    exact ⟨publish.trie tr, publish.layout tr ly⟩

/-! ## Sequences of `add` -/

/-- The arguments of a call of `add`: C strings passed with their lengths, the
    value short enough to get past `__system_property_add`. -/
structure AddCall where
  name : Bytes
  value : Bytes
  nulFree : NulFree name
  short : name.length < 2 ^ 32
  fits : value.length < PROP_VALUE_MAX

def addAll : PropArea → List AddCall → Option (PropArea × List Bool)
  | area, [] => some (area, [])
  | area, call :: calls =>
    match area.add call.name call.name.length call.value call.value.length with
    | none => none
    | some (area, added) => (addAll area calls).map fun tl => (tl.1, added :: tl.2)

theorem addAll_sound (hs : Sound area) (cls : List AddCall) :
    ∃ last res, area.addAll cls = some (last, res) ∧ Sound last := by
  induction cls generalizing area with
  | nil => exact ⟨area, [], rfl, hs⟩
  | cons c cls ih =>
    obtain ⟨_, tr⟩ := hs.trie
    obtain ⟨g, adds, addEq, steps⟩ :=
      add_publishes tr c.nulFree c.short c.value c.value.length
    obtain ⟨last, res, restEq, lastSound⟩ := ih (steps.sound hs)
    exact ⟨last, adds :: res, by simp [addAll, addEq, restEq], lastSound⟩

end PropArea

end Aosp.Bionic
