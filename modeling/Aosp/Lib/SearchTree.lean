import Mathlib.Data.List.Basic

/-! # Search trees

Binary trees that are searched from the root, and what a search has to do with the list
of the nodes in order: `find` finds a node if there is one, and `link` puts a node in the
one place that its neighbours leave for it.  Whether a tree is balanced does not matter
here: `Balancer` is a library that moves nodes about and keeps their order.
-/

namespace Aosp.Lib

open List

universe u

inductive SearchTree (α : Type u) where
  | leaf
  | node (left : SearchTree α) (v : α) (right : SearchTree α)

namespace SearchTree

variable {α : Type u}

def toList : SearchTree α → List α
  | leaf => []
  | node left v right => left.toList ++ v :: right.toList

def map (f : α → α) : SearchTree α → SearchTree α
  | leaf => leaf
  | node left v right => node (left.map f) (f v) (right.map f)

/-- Goes down to a node with `side` equal, to the left where `side` is less. -/
def find (side : α → Ordering) : SearchTree α → Option α
  | leaf => none
  | node left v right =>
    match side v with
    | .lt => left.find side
    | .eq => some v
    | .gt => right.find side

/-- Goes down to a leaf and puts a new node there; `none` if a node on the way is on
    neither side. -/
def link (side : α → Ordering) (new : α) : SearchTree α → Option (SearchTree α)
  | leaf => some (node leaf new leaf)
  | node left v right =>
    match side v with
    | .lt => (left.link side new).map fun linked => node linked v right
    | .eq => none
    | .gt => (right.link side new).map fun linked => node left v linked

def next (isNode : α → Bool) (t : SearchTree α) : Option α :=
  (t.toList.dropWhile fun v => !isNode v).tail.head?

def prev (isNode : α → Bool) (t : SearchTree α) : Option α :=
  (t.toList.takeWhile fun v => !isNode v).getLast?

@[simp] theorem toList_leaf : (leaf : SearchTree α).toList = [] := rfl

@[simp] theorem toList_node (left : SearchTree α) (v : α) (right : SearchTree α) :
    (node left v right).toList = left.toList ++ v :: right.toList := rfl

@[simp] theorem toList_map (f : α → α) (t : SearchTree α) : (t.map f).toList = t.toList.map f := by
  induction t with
  | leaf => rfl
  | node _ v _ leftIh rightIh => simp [map, leftIh, rightIh]

variable {side : α → Ordering} {t : SearchTree α}

theorem find_some {v : α} (hf : t.find side = some v) : v ∈ t.toList ∧ side v = .eq := by
  induction t with
  | leaf => cases hf
  | node _ _ _ leftIh rightIh =>
    rw [find] at hf
    split at hf
    next =>
      obtain ⟨mem, hq⟩ := leftIh hf
      exact ⟨by simp [mem], hq⟩
    next hq =>
      cases hf
      exact ⟨by simp, hq⟩
    next =>
      obtain ⟨mem, hq⟩ := rightIh hf
      exact ⟨by simp [mem], hq⟩

/-- The nodes on the left side of what is sought come before the others, and those on the
    right side after them. -/
def Sorted (side : α → Ordering) (values : List α) : Prop :=
  values.Pairwise fun early late => (side early = .lt → side late = .lt) ∧ (side late = .gt → side early = .gt)

theorem find_none (sorted : Sorted side t.toList) (lacks : t.find side = none) :
    ∀ v ∈ t.toList, side v ≠ .eq := by
  induction t with
  | leaf => simp
  | node _ root _ leftIh rightIh =>
    rw [Sorted, toList_node, pairwise_append, pairwise_cons] at sorted
    obtain ⟨leftSorted, ⟨afterRoot, rightSorted⟩, across⟩ := sorted
    intro v mem
    rw [toList_node, mem_append, mem_cons] at mem
    rw [find] at lacks
    split at lacks
    next less =>
      rcases mem with inLeft | rfl | inRight
      · exact leftIh leftSorted lacks v inLeft
      · simp [less]
      · simp [(afterRoot v inRight).1 less]
    next => cases lacks
    next more =>
      rcases mem with inLeft | rfl | inRight
      · simp [(across v inLeft root mem_cons_self).2 more]
      · simp [more]
      · exact rightIh rightSorted lacks v inRight

theorem mem_link {new v : α} {t linked : SearchTree α} (eq : t.link side new = some linked) :
    v ∈ linked.toList ↔ v = new ∨ v ∈ t.toList := by
  induction t generalizing linked with
  | leaf =>
    cases eq
    simp
  | node _ _ _ leftIh rightIh =>
    rw [link] at eq
    split at eq
    · obtain ⟨t, below, rfl⟩ := Option.map_eq_some_iff.mp eq
      simp [leftIh below, or_assoc]
    · cases eq
    · obtain ⟨t, below, rfl⟩ := Option.map_eq_some_iff.mp eq
      simp [rightIh below, or_left_comm]

theorem link_between {new : α} {pre post : List α}
    (split : t.toList = pre ++ post) (left : ∀ v ∈ pre, side v = .gt) (right : ∀ v ∈ post, side v = .lt) :
    ∃ linked, t.link side new = some linked ∧ linked.toList = pre ++ new :: post := by
  induction t generalizing pre post with
  | leaf =>
    obtain ⟨rfl, rfl⟩ := append_eq_nil_iff.mp split.symm
    exact ⟨_, rfl, rfl⟩
  | node leftTree root rightTree leftIh rightIh =>
    -- the root is one of the nodes before or one of those after
    rcases append_eq_append_iff.mp split with ⟨more, rfl, tl⟩ | ⟨more, leftEq, rfl⟩
    · cases more with
      | nil =>
        subst tl
        obtain ⟨linked, done, ord⟩ := leftIh (append_nil leftTree.toList).symm
          (by simpa using left) (by simp)
        exact ⟨node linked root rightTree, by simp [link, right root mem_cons_self, done], by simp [ord]⟩
      | cons _ more =>
        obtain ⟨rfl, rightEq⟩ := List.cons.inj tl
        obtain ⟨linked, done, ord⟩ := rightIh rightEq
          (fun v mem => left v (by simp [mem])) right
        exact ⟨node leftTree root linked, by simp [link, left root (by simp), done], by simp [ord]⟩
    · obtain ⟨linked, done, ord⟩ := leftIh leftEq left fun v mem => right v (by simp [mem])
      exact ⟨node linked root rightTree, by simp [link, right root (by simp), done], by simp [ord]⟩

section Neighbours

variable {hn : α → Bool} {pre post : List α} {v : α} (split : t.toList = pre ++ v :: post)
  (rest : ∀ other ∈ pre, hn other = false) (here : hn v = true)
include split rest here

theorem next_eq : t.next hn = post.head? := by
  rw [next, split, dropWhile_append_of_pos (by simpa using rest)]
  simp [here]

theorem prev_eq : t.prev hn = pre.getLast? := by
  rw [prev, split, takeWhile_append_of_pos (by simpa using rest)]
  simp [here]

end Neighbours

/-- The rest of the library: it recolours and rotates after a node was linked, and takes
    nodes out, without changing the order of the nodes. -/
structure Balancer (α : Type u) where
  insertColor : SearchTree α → SearchTree α
  erase : (α → Bool) → SearchTree α → SearchTree α
  toList_insertColor : ∀ t, (insertColor t).toList = t.toList
  toList_erase : ∀ isNode t, (erase isNode t).toList = t.toList.filter fun v => !isNode v

/-- The nodes of a list, one below the other. -/
def ofList : List α → SearchTree α
  | [] => leaf
  | value :: values => node leaf value (ofList values)

@[simp] theorem toList_ofList (values : List α) : (ofList values).toList = values := by
  induction values with
  | nil => rfl
  | cons v values ih => simp [ofList, ih]

def Balancer.unbalanced : Balancer α where
  insertColor tree := tree
  erase isNode tree := ofList (tree.toList.filter fun v => !isNode v)
  toList_insertColor _ := rfl
  toList_erase _ _ := toList_ofList _

end SearchTree

end Aosp.Lib
