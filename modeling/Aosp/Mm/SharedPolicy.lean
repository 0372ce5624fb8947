import Aosp.Lib.SearchTree
import Mathlib.Algebra.Group.Nat.Defs
import Mathlib.Data.List.Nodup

/-! # Shared memory policies

Model of the shared policy tree of `mm/mempolicy.c`: `sp_lookup`, `sp_insert`, `sp_alloc`,
`shared_policy_replace`, `mpol_set_shared_policy` and `mpol_shared_policy_lookup`, over
any library of red-black trees that keeps the nodes in order.  Reference counts are left
out: a node holds a reference to its policy as long as it is in the tree.

`Ranges` is what holds of the nodes in order, and `spLookup_some` and `spLookup_none` say
what `sp_lookup` finds among such nodes.
-/

namespace Aosp.Mm

open Aosp.Lib List

def ENOMEM : Int := 12

def MPOL_PREFERRED : Nat := 1
def MPOL_BIND : Nat := 2
def MPOL_INTERLEAVE : Nat := 3

def MPOL_F_SHARED : BitVec 16 := 0x1
/-- `MPOL_F_STATIC_NODES | MPOL_F_RELATIVE_NODES` -/
def MPOL_MODE_FLAGS : BitVec 16 := 0xC000

/-- A `struct mempolicy` without its reference count; the node masks are numbers. -/
structure Mempolicy where
  mode : Nat
  flags : BitVec 16
  preferredNode : Int
  nodes : Nat
  userNodemask : Nat
deriving DecidableEq

/-- `none` for the `BUG()` of an unknown mode. -/
def mpolEqual (a b : Mempolicy) : Option Bool :=
  if a.mode ≠ b.mode then some false
  else if a.flags ≠ b.flags then some false
  else if a.flags &&& MPOL_MODE_FLAGS ≠ 0 ∧ a.userNodemask ≠ b.userNodemask then some false
  else if a.mode = MPOL_BIND ∨ a.mode = MPOL_INTERLEAVE then some (a.nodes = b.nodes)
  else if a.mode = MPOL_PREFERRED then some (a.preferredNode = b.preferredNode)
  else none

/-- The range from `start` up to `stop`, the source's `end`. -/
structure SpNode where
  address : Nat
  start : Nat
  stop : Nat
  policy : Mempolicy

/-- Whether the pointer to the node is one to the other. -/
def SpNode.isAt (nd o : SpNode) : Bool := o.address = nd.address

abbrev SpTree : Type := SearchTree SpNode

/-- The loop of `sp_lookup` over the nodes before. -/
def spFirst (root : SpTree) (beg : Nat) : Nat → SpNode → SpNode
  | 0, n => n
  | turns + 1, n =>
    match root.prev n.isAt with
    | none => n
    | some w => if w.stop ≤ beg then n else spFirst root beg turns w

/-- Where the descent of `sp_lookup` goes on. -/
def lookupSide (beg stop : Nat) (p : SpNode) : Ordering :=
  if p.stop ≤ beg then .gt else if stop ≤ p.start then .lt else .eq

def spLookup (root : SpTree) (beg stop : Nat) : Option SpNode :=
  match root.find (lookupSide beg stop) with
  | none => none
  | some n => some (spFirst root beg root.toList.length n)

/-- Where the descent of `sp_insert` goes on; it is a `BUG()` if it does not. -/
def insertSide (new nd : SpNode) : Ordering :=
  if new.start < nd.start then .lt else if nd.stop < new.stop then .gt else .eq

/-- A call: the range and the policy, and what happens in it.  `rebind` is
    `mpol_rebind_policy` if the cpuset of the task is being rebound. -/
structure SetCall where
  vmPgoff : Nat
  vmaPages : Nat
  npol : Option Mempolicy
  snAlloc : Bool
  policyAlloc : Bool
  rebind : Option (Mempolicy → Mempolicy)
  newSnAlloc : Bool
  newPolicyAlloc : Bool
  nonempty : 0 < vmaPages
  noOverflow : vmPgoff + vmaPages < 2 ^ 64

/-- Addresses from `nextAddress` on are not in use. -/
structure SharedPolicy where
  root : SpTree
  nextAddress : Nat

def SharedPolicy.empty : SharedPolicy := ⟨.leaf, 0⟩

section Definitions

variable (lib : SearchTree.Balancer SpNode)

/-- `none` for the `BUG()`. -/
def spInsert (root : SpTree) (new : SpNode) : Option SpTree :=
  (root.link (insertSide new) new).map lib.insertColor

def writeNode (root : SpTree) (n : SpNode) (write : SpNode → SpNode) : SpTree :=
  root.map fun o => if n.isAt o then write o else o

/-- How the part of `shared_policy_replace` under the lock is left. -/
inductive Pass where
  | bug
  | allocNew (root : SpTree)
  | done (root : SpTree)

def splitSpanning (beg stop : Nat) (nNew : Option Nat) (root : SpTree) (n : SpNode) : Pass :=
  match nNew with
  | none => .allocNew root
  | some adr =>
    match spInsert lib (writeNode root n fun m => { m with stop := beg }) ⟨adr, stop, n.stop, n.policy⟩ with
    | none => .bug
    | some root => .done root

/-- The loop of `shared_policy_replace` over the nodes, with the address of `n_new` if
    there is one. -/
def replaceLoop (beg stop : Nat) (nNew : Option Nat) : Nat → SpTree → Option SpNode → Pass
  | 0, root, _ => .done root
  | _ + 1, root, none => .done root
  | turns + 1, root, some n =>
    if n.start < stop then
      let next := root.next n.isAt
      if beg ≤ n.start then
        if n.stop ≤ stop then replaceLoop beg stop nNew turns (lib.erase n.isAt root) next
        else replaceLoop beg stop nNew turns (writeNode root n fun m => { m with start := stop }) next
      else if stop < n.stop then splitSpanning lib beg stop nNew root n
      else replaceLoop beg stop nNew turns (writeNode root n fun m => { m with stop := beg }) next
    else .done root

/-- From the label `restart` to the unlock. -/
def replacePass (beg stop : Nat) (new : Option SpNode) (nNew : Option Nat) (root : SpTree) : Pass :=
  match replaceLoop lib beg stop nNew (root.toList.length + 1) root (spLookup root beg stop) with
  | .done root =>
    match new with
    | none => .done root
    | some new =>
      match spInsert lib root new with
      | none => .bug
      | some root => .done root
  | other => other

/-- The tree and the returned value; `none` for a `BUG()`. -/
def sharedPolicyReplace (c : SetCall) (beg stop : Nat) (new : Option SpNode) (newAddress : Nat)
    (root : SpTree) : Option (SpTree × Int) :=
  match replacePass lib beg stop new none root with
  | .bug => none
  | .done root => some (root, 0)
  | .allocNew root =>
    if c.newSnAlloc && c.newPolicyAlloc then
      match replacePass lib beg stop new (some newAddress) root with
      | .done root => some (root, 0)
      -- `alloc_new` is not reached with a node at hand
      | _ => none
    else some (root, -ENOMEM)

def mpolDup (c : SetCall) (old : Mempolicy) : Option Mempolicy :=
  if c.policyAlloc then
    match c.rebind with
    | none => some old
    | some rebind => some (rebind old)
  else none

def spAlloc (c : SetCall) (adr beg stop : Nat) (pol : Mempolicy) : Option SpNode :=
  if c.snAlloc then
    (mpolDup c pol).map fun newpol => ⟨adr, beg, stop, { newpol with flags := newpol.flags ||| MPOL_F_SHARED }⟩
  else none

def mpolSetSharedPolicy (info : SharedPolicy) (c : SetCall) : Option (SharedPolicy × Int) :=
  let beg := c.vmPgoff
  let stop := c.vmPgoff + c.vmaPages
  let replace (new : Option SpNode) : Option (SharedPolicy × Int) :=
    (sharedPolicyReplace lib c beg stop new (info.nextAddress + 1) info.root).map
      fun (root, err) => (⟨root, info.nextAddress + 2⟩, err)
  match c.npol with
  | none => replace none
  | some npol =>
    match spAlloc c info.nextAddress beg stop npol with
    | none => some (info, -ENOMEM)
    | some new => replace (some new)

/-- `idx + 1` is a sum of `unsigned long`. -/
def mpolSharedPolicyLookup (sp : SharedPolicy) (idx : Nat) : Option Mempolicy :=
  match sp.root with
  | .leaf => none
  | root => (spLookup root idx ((idx + 1) % 2 ^ 64)).map SpNode.policy

end Definitions

/-! ## Ranges -/

def SpNode.Covers (n : SpNode) (idx : Nat) : Prop := n.start ≤ idx ∧ idx < n.stop

def MapsTo (nodes : List SpNode) (idx : Nat) (pol : Mempolicy) : Prop :=
  ∃ n ∈ nodes, n.Covers idx ∧ n.policy = pol

variable {idx beg stop : Nat} {pol : Mempolicy} {n : SpNode} {root : SpTree} {nds : List SpNode}

@[simp] theorem mapsTo_nil : ¬ MapsTo [] idx pol := by simp [MapsTo]

@[simp] theorem mapsTo_cons : MapsTo (n :: nds) idx pol ↔ (n.Covers idx ∧ n.policy = pol) ∨ MapsTo nds idx pol := by
  simp [MapsTo]

@[simp] theorem mapsTo_append {ea late : List SpNode} :
    MapsTo (ea ++ late) idx pol ↔ MapsTo ea idx pol ∨ MapsTo late idx pol := by
  simp [MapsTo, or_and_right, exists_or]

structure Ranges (nodes : List SpNode) : Prop where
  nonempty : ∀ n ∈ nodes, n.start < n.stop
  ordered : nodes.Pairwise fun early late => early.stop ≤ late.start
  distinct : (nodes.map SpNode.address).Nodup

section Splits

variable {pre post : List SpNode} {n : SpNode}

section

variable (rs : Ranges (pre ++ n :: post))
include rs

theorem Ranges.before_stop : ∀ o ∈ pre, o.stop ≤ n.start :=
  fun o mem => (pairwise_append.mp rs.ordered).2.2 o mem n mem_cons_self

theorem Ranges.after_start : ∀ o ∈ post, n.stop ≤ o.start :=
  (pairwise_cons.mp (pairwise_append.mp rs.ordered).2.1).1

theorem Ranges.isAt_before : ∀ o ∈ pre, n.isAt o = false := by
  have other := rs.distinct
  simp only [map_append, map_cons, nodup_append, mem_map] at other
  intro o mem
  simpa [SpNode.isAt] using other.2.2 _ ⟨o, mem, rfl⟩ _ mem_cons_self

theorem Ranges.isAt_after : ∀ o ∈ post, n.isAt o = false := by
  have other := rs.distinct
  simp only [map_append, map_cons, nodup_append, nodup_cons] at other
  intro o mem
  have ha := other.2.1.1
  simp only [mem_map, not_exists, not_and] at ha
  simpa [SpNode.isAt] using ha o mem

end

@[simp] theorem SpNode.isAt_self (n : SpNode) : n.isAt n = true := by simp [SpNode.isAt]

variable {root : SpTree}

section

variable (rs : Ranges (pre ++ n :: post)) (split : root.toList = pre ++ n :: post)
include rs split

theorem next_of_split : root.next n.isAt = post.head? :=
  SearchTree.next_eq split rs.isAt_before n.isAt_self

theorem prev_of_split : root.prev n.isAt = pre.getLast? :=
  SearchTree.prev_eq split rs.isAt_before n.isAt_self

theorem toList_erase_of_split (lib : SearchTree.Balancer SpNode) : (lib.erase n.isAt root).toList = pre ++ post := by
  have keepsBefore : pre.filter (fun o => !n.isAt o) = pre :=
    filter_eq_self.mpr fun o mem => by simp [rs.isAt_before o mem]
  have keepsAfter : post.filter (fun o => !n.isAt o) = post :=
    filter_eq_self.mpr fun o mem => by simp [rs.isAt_after o mem]
  rw [lib.toList_erase, split, filter_append, keepsBefore]
  simp [keepsAfter]

end

theorem map_write_of_absent (write : SpNode → SpNode) (ha : ∀ o ∈ nds, n.isAt o = false) :
    nds.map (fun o => if n.isAt o then write o else o) = nds := by
  have same : ∀ o ∈ nds, (if n.isAt o then write o else o) = id o :=
    fun o mem => by simp [ha o mem]
  rw [map_congr_left same, map_id]

theorem toList_writeNode_of_split (write : SpNode → SpNode) (rs : Ranges (pre ++ n :: post))
    (split : root.toList = pre ++ n :: post) : (writeNode root n write).toList = pre ++ write n :: post := by
  rw [writeNode, SearchTree.toList_map, split, map_append, map_cons,
    map_write_of_absent write rs.isAt_before, map_write_of_absent write rs.isAt_after]
  simp

end Splits

/-! ## Looking up a range -/

theorem lookupSide_eq {p : SpNode} : lookupSide beg stop p = .eq ↔ beg < p.stop ∧ p.start < stop := by
  rw [lookupSide]
  split
  next => simp; omega
  next =>
    split
    next => simp; omega
    next => simp; omega

theorem Ranges.sorted (rs : Ranges nds) (beg stop : Nat) : SearchTree.Sorted (lookupSide beg stop) nds := by
  apply List.Pairwise.imp_of_mem _ rs.ordered
  intro early late earlyMember lateMember _
  have earlyFull := rs.nonempty early earlyMember
  have lateFull := rs.nonempty late lateMember
  constructor
  · simp only [lookupSide]
    grind
  · simp only [lookupSide]
    grind

/-- The loop goes back to the first node that ends behind `beg`. -/
theorem spFirst_eq {turns : Nat} {pre post : List SpNode} (rs : Ranges root.toList)
    (split : root.toList = pre ++ n :: post) (back : beg < n.stop) (fuel : pre.length ≤ turns) :
    ∃ early late, root.toList = early ++ spFirst root beg turns n :: late ∧
      (∀ o ∈ early, o.stop ≤ beg) ∧ beg < (spFirst root beg turns n).stop ∧
      (spFirst root beg turns n).start ≤ n.start := by
  induction turns generalizing pre post n with
  | zero =>
    have first : pre = [] := length_eq_zero_iff.mp (Nat.le_zero.mp fuel)
    subst first
    exact ⟨[], post, split, by simp, back, Nat.le_refl _⟩
  | succ turns ih =>
    have prev := prev_of_split (split ▸ rs) split
    rw [spFirst, prev]
    cases eq_nil_or_concat pre with
    | inl first =>
      subst first
      exact ⟨[], post, split, by simp, back, Nat.le_refl _⟩
    | inr more =>
      obtain ⟨old, w, rfl⟩ := more
      rw [concat_eq_append] at split fuel ⊢
      rw [append_assoc] at split
      have whole : Ranges _ := split ▸ rs
      have full := whole.nonempty w (by simp)
      simp only [List.getLast?_append, List.getLast?_singleton, Option.some_or]
      split
      next ends =>
        refine ⟨old ++ [w], post, by simpa using split, ?_, back, Nat.le_refl _⟩
        intro o mem
        rcases mem_append.mp mem with inEarlier | isLast
        · have ord := whole.before_stop o inEarlier
          omega
        · cases mem_singleton.mp isLast
          exact ends
      next _ =>
        have less : old.length ≤ turns := by simpa using fuel
        obtain ⟨early, late, hf, past, open_, _⟩ := ih split (by omega) less
        have ord := whole.after_start n mem_cons_self
        exact ⟨early, late, hf, past, open_, by omega⟩

theorem spLookup_none (rs : Ranges root.toList) (lacks : spLookup root beg stop = none) :
    ∀ n ∈ root.toList, n.stop ≤ beg ∨ stop ≤ n.start := by
  have gone : root.find (lookupSide beg stop) = none := by
    rw [spLookup] at lacks
    split at lacks
    next gone => exact gone
    next => cases lacks
  intro n mem
  have far := SearchTree.find_none (rs.sorted beg stop) gone n mem
  rw [ne_eq, lookupSide_eq] at far
  omega

theorem spLookup_some (rs : Ranges root.toList) (hf : spLookup root beg stop = some n) :
    ∃ pre post, root.toList = pre ++ n :: post ∧ (∀ o ∈ pre, o.stop ≤ beg) ∧ beg < n.stop ∧ n.start < stop := by
  rw [spLookup] at hf
  split at hf
  next => cases hf
  next _ met =>
    cases hf
    obtain ⟨mem, common⟩ := SearchTree.find_some met
    obtain ⟨back, _⟩ := lookupSide_eq.mp common
    obtain ⟨pre, post, split⟩ := append_of_mem mem
    have fuel : pre.length ≤ root.toList.length := by simp [split]
    obtain ⟨early, late, first, past, open_, _⟩ := spFirst_eq rs split back fuel
    exact ⟨early, late, first, past, open_, by omega⟩

end Aosp.Mm
