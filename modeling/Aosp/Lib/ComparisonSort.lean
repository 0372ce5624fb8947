import Mathlib.Data.Fintype.Prod

/-! # Comparison sorts

A sort that knows its elements only by comparing them, such as `qsort`, is a tree
of comparisons of places.  `SortTree.Correct` says that it sorts by every
comparison function that is a total preorder.

What comparisons must a correct sort make?  Places of equal rank must be linked by
comparisons that found them equal (`Correct.connects`), because otherwise one part
could be moved in front of or behind the other without an answer changing.  No more
than that is needed: `within` makes exactly the comparisons of a given list, and is
correct if they have this property (`within_correct`).
-/

namespace Aosp.Lib

open Relation List

inductive SortTree (n : Nat) where
  | done (order : List (Fin n))
  | compare (i j : Fin n) (next : Ordering → SortTree n)

namespace SortTree

variable {n : Nat}

/-- The new order, for the answers that `cmp` gives. -/
def order (cmp : Fin n → Fin n → Ordering) : SortTree n → List (Fin n)
  | done order => order
  | compare i j next => order cmp (next (cmp i j))

/-- The comparisons made on the way. -/
def compared (cmp : Fin n → Fin n → Ordering) : SortTree n → List (Fin n × Fin n)
  | done _ => []
  | compare i j next => (i, j) :: compared cmp (next (cmp i j))

end SortTree

/-- Every place once, and none in front of one of lower rank. -/
structure SortedBy {n : Nat} (cmp : Fin n → Fin n → Ordering) (order : List (Fin n)) : Prop where
  perm : order.Perm (finRange n)
  sorted : order.Pairwise fun i j => (cmp i j).isLE = true

def SortTree.Correct {n : Nat} (t : SortTree n) : Prop :=
  ∀ (cmp : Fin n → Fin n → Ordering) [Std.TransCmp cmp], SortedBy cmp (t.order cmp)

/-- Keys made of parts of fixed lengths are compared part by part. -/
theorem compare_append {α : Type*} [Ord α] {one two : List α} (len : one.length = two.length)
    (oneRest twoRest : List α) :
    compare (one ++ oneRest) (two ++ twoRest) = (compare one two).then (compare oneRest twoRest) := by
  induction one generalizing two with
  | nil =>
    rw [length_eq_zero_iff.mp len.symm]
    rfl
  | cons x one ih =>
    cases two with
    | nil => cases len
    | cons y two =>
      rw [List.cons_append, List.cons_append, List.compare_cons_cons, List.compare_cons_cons,
        ih (Nat.succ.inj len), Ordering.then_assoc]

/-! ## What must be compared -/

namespace SortTree

variable {n : Nat} {cmp : Fin n → Fin n → Ordering} {t : SortTree n} {o : Fin n → Fin n → Ordering}
  {side : Fin n → Nat}

/-- A comparison function that agrees on the comparisons made leads to the same end. -/
theorem order_congr (eq : ∀ pair ∈ t.compared cmp, o pair.1 pair.2 = cmp pair.1 pair.2) : t.order o = t.order cmp := by
  induction t with
  | done _ => rfl
  | compare i j _ ih =>
    have first : o i j = cmp i j := eq (i, j) mem_cons_self
    rw [order, first]
    exact ih _ fun pair mem => eq pair (mem_cons_of_mem _ mem)

/-- The places were compared and found equal. -/
def Linked (cmp : Fin n → Fin n → Ordering) (t : SortTree n) (i j : Fin n) : Prop :=
  (i, j) ∈ t.compared cmp ∧ cmp i j = .eq

/-- Moving a part that is not linked to the rest changes no answer. -/
theorem order_compareLex (shut : ∀ i j, Linked cmp t i j → side i = side j) :
    t.order (compareLex cmp (compareOn side)) = t.order cmp := by
  apply order_congr
  intro pair mem
  rw [compareLex]
  cases ans : cmp pair.1 pair.2 with
  | lt => rfl
  | gt => rfl
  | eq =>
    rw [Ordering.then, compareOn, shut pair.1 pair.2 ⟨mem, ans⟩]
    exact Std.ReflCmp.compare_self

theorem side_le_of_isLE {i j : Fin n}
    (pre : (compareLex cmp (compareOn side) i j).isLE = true) (hq : cmp i j = .eq) : side i ≤ side j := by
  by_contra greater
  have ans : Ord.compare (side i) (side j) = .gt := Nat.compare_eq_gt.mpr (by omega)
  rw [compareLex, hq, compareOn, ans] at pre
  cases pre

theorem Correct.connects (correct : t.Correct) [Std.TransCmp cmp] {i j : Fin n}
    (hq : cmp i j = .eq) : EqvGen (Linked cmp t) i j := by
  classical
  by_contra apart
  -- the places linked to `i` may as well come before all others of this rank, or behind them
  let first (k : Fin n) : Nat := if EqvGen (Linked cmp t) i k then 0 else 1
  let last (k : Fin n) : Nat := if EqvGen (Linked cmp t) i k then 1 else 0
  have shut : ∀ a b, Linked cmp t a b → (EqvGen (Linked cmp t) i a ↔ EqvGen (Linked cmp t) i b) := by
    intro a b link
    exact ⟨fun met => met.trans _ _ _ (.rel _ _ link), fun met => met.trans _ _ _ (.symm _ _ (.rel _ _ link))⟩
  have firstClosed : ∀ a b, Linked cmp t a b → first a = first b := by
    intro a b link
    simp only [first, shut a b link]
  have lastClosed : ∀ a b, Linked cmp t a b → last a = last b := by
    intro a b link
    simp only [last, shut a b link]
  have sortedFirst := correct (compareLex cmp (compareOn first))
  have sortedLast := correct (compareLex cmp (compareOn last))
  rw [order_compareLex firstClosed] at sortedFirst
  rw [order_compareLex lastClosed] at sortedLast
  have self : EqvGen (Linked cmp t) i i := .refl i
  have ne : j ≠ i := by
    rintro rfl
    exact apart self
  obtain ⟨ft, back, split⟩ := append_of_mem (sortedFirst.perm.mem_iff.mpr (mem_finRange i))
  have mem : j ∈ ft ++ i :: back := split ▸ sortedFirst.perm.mem_iff.mpr (mem_finRange j)
  have pairsFirst := sortedFirst.sorted
  have pairsLast := sortedLast.sorted
  rw [split, pairwise_append, pairwise_cons] at pairsFirst pairsLast
  rcases mem_append.mp mem with inFront | inBack
  · have cap := side_le_of_isLE (pairsFirst.2.2 j inFront i mem_cons_self) (Std.OrientedCmp.eq_symm hq)
    simp [first, self, apart] at cap
  · have late : j ∈ back := (mem_cons.mp inBack).resolve_left ne
    have cap := side_le_of_isLE (pairsLast.2.1.1 j late) hq
    simp [last, self, apart] at cap

/-! ## What is enough -/

def askAll (finish : (Fin n → Fin n → Ordering) → SortTree n) :
    List (Fin n × Fin n) → (Fin n → Fin n → Ordering) → SortTree n
  | [], table => finish table
  | (i, j) :: pairs, table =>
    compare i j fun answer => askAll finish pairs fun a b => if a = i ∧ b = j then answer else table a b

def answered (cmp : Fin n → Fin n → Ordering) (pairs : List (Fin n × Fin n)) (tbl : Fin n → Fin n → Ordering) :
    Fin n → Fin n → Ordering :=
  fun a b => if (a, b) ∈ pairs then cmp a b else tbl a b

theorem askAll_spec (finish : (Fin n → Fin n → Ordering) → SortTree n) (prs : List (Fin n × Fin n))
    (tb : Fin n → Fin n → Ordering) : (askAll finish prs tb).order cmp = (finish (answered cmp prs tb)).order cmp ∧
      (askAll finish prs tb).compared cmp = prs ++ (finish (answered cmp prs tb)).compared cmp := by
  induction prs generalizing tb with
  | nil =>
    exact ⟨rfl, rfl⟩
  | cons pair prs ih =>
    obtain ⟨i, j⟩ := pair
    have eq : answered cmp prs (fun a b => if a = i ∧ b = j then cmp i j else tb a b) =
        answered cmp ((i, j) :: prs) tb := by
      funext a b
      by_cases here : a = i ∧ b = j
      · obtain ⟨rfl, rfl⟩ := here
        simp [answered]
      · simp [answered, here]
    have tl := ih fun a b => if a = i ∧ b = j then cmp i j else tb a b
    rw [eq] at tl
    exact ⟨tl.1, congrArg _ tl.2⟩

def tableOrder (tbl : Fin n → Fin n → Ordering) : List (Fin n) :=
  (finRange n).insertionSort fun i j => (tbl i j).isLE = true

theorem sortedBy_tableOrder [Std.TransCmp cmp] : SortedBy cmp (tableOrder cmp) := by
  have : Std.Total fun i j => (cmp i j).isLE = true := by
    constructor
    intro i j
    have swap : cmp j i = (cmp i j).swap := Std.OrientedCmp.eq_swap
    rw [swap]
    cases cmp i j <;> simp
  have : IsTrans _ fun i j => (cmp i j).isLE = true := ⟨fun _ _ _ => Std.TransCmp.isLE_trans⟩
  exact ⟨perm_insertionSort _ _, pairwise_insertionSort _ _⟩

def allPairs (n : Nat) : List (Fin n × Fin n) := finRange n ×ˢ finRange n

theorem mem_allPairs (a b : Fin n) : (a, b) ∈ allPairs n :=
  pair_mem_product.mpr ⟨mem_finRange a, mem_finRange b⟩

def exhaustive (n : Nat) : SortTree n := askAll (fun tbl => done (tableOrder tbl)) (allPairs n) fun _ _ => .eq

theorem exhaustive_correct (n : Nat) : (exhaustive n).Correct := by
  intro cmp _
  have full : answered cmp (allPairs n) (fun _ _ => .eq) = cmp := by
    funext a b
    rw [answered, if_pos (mem_allPairs a b)]
  rw [exhaustive, (askAll_spec _ _ _).1, full]
  exact sortedBy_tableOrder

/-- If the answers to the allowed comparisons are those of `cmp`, the order is that of `cmp`;
    otherwise every pair is compared. -/
def within (cmp : Fin n → Fin n → Ordering) (allowed : List (Fin n × Fin n)) : SortTree n :=
  askAll (fun tbl =>
    if ∀ pair ∈ allowed, tbl pair.1 pair.2 = cmp pair.1 pair.2 then done (tableOrder cmp) else exhaustive n)
    allowed fun _ _ => .eq

section Links

variable {may : List (Fin n × Fin n)} (unequal : ∀ i j, cmp i j ≠ .eq → (i, j) ∈ may)
  (links : ∀ i j, cmp i j = .eq → EqvGen (fun a b => (a, b) ∈ may ∧ cmp a b = .eq) i j)
include unequal links

/-- Two total preorders that agree on comparisons which link all equal places agree. -/
theorem eq_of_links [Std.TransCmp cmp] [Std.TransCmp o]
    (eq : ∀ pair ∈ may, o pair.1 pair.2 = cmp pair.1 pair.2) : o = cmp := by
  have linked : ∀ i j, EqvGen (fun a b => (a, b) ∈ may ∧ cmp a b = .eq) i j → o i j = .eq := by
    intro i j linked
    induction linked with
    | rel a b link => exact (eq (a, b) link.1).trans link.2
    | refl a => exact Std.ReflCmp.compare_self
    | symm a b _ ih => exact Std.OrientedCmp.eq_symm ih
    | trans a b c _ _ first second => exact Std.TransCmp.eq_trans first second
  funext i j
  by_cases hq : cmp i j = .eq
  · rw [hq]
    exact linked i j (links i j hq)
  · exact eq (i, j) (unequal i j hq)

theorem within_correct [Std.TransCmp cmp] : (within cmp may).Correct := by
  intro o _
  rw [within, (askAll_spec _ _ _).1]
  split
  next agree =>
    have eq : ∀ pair ∈ may, o pair.1 pair.2 = cmp pair.1 pair.2 := by
      intro pair mem
      have ent := agree pair mem
      rwa [answered, if_pos mem] at ent
    rw [eq_of_links unequal links eq]
    exact sortedBy_tableOrder
  next => exact exhaustive_correct n o

end Links

theorem within_compared (may : List (Fin n × Fin n)) : (within cmp may).compared cmp = may := by
  rw [within, (askAll_spec _ _ _).2, if_pos]
  · exact append_nil _
  · intro _ mem
    rw [answered, if_pos mem]

end SortTree

end Aosp.Lib
