import Mathlib.Data.Finset.Sort
import Mathlib.Data.Nat.ModEq

/-! # Static interleaving

Model of `offset_il_node` of `mm/mempolicy.c`, which interleaves the pages of an area by
their offsets.  The offset is narrowed to an `unsigned int` first: the nodes follow each
other in turn but where the narrowed offset starts anew (`offsetIlNode_roundRobin`).
-/

namespace Aosp.Mm

open Finset List

variable (nodes : Finset Nat)

/-- `next_node` of `start - 1`; `none` is `MAX_NUMNODES`. -/
def nextNode (beg : Nat) : Option Nat := (nodes.sort (· ≤ ·)).find? (beg ≤ ·)

/-- The loop, which ends after `left` further turns. -/
def ilWalk : Nat → Nat → Option Nat
  | 0, start => nextNode nodes start
  | left + 1, start =>
    match nextNode nodes start with
    | none => none
    | some nid => ilWalk left (nid + 1)

/-- `none` is `MAX_NUMNODES`. -/
def offsetIlNode (numaNodeId off : Nat) : Option Nat :=
  if nodes.card = 0 then some numaNodeId else ilWalk nodes (off % 2 ^ 32 % nodes.card) 0

/-- The next node of the set, the first one after the last. -/
def cyclicNext (nd : Nat) : Option Nat := (nextNode nodes (nd + 1)).or (nextNode nodes 0)

variable {nodes} {beg i j off : Nat} {pre tl : List Nat}

theorem nextNode_zero : nextNode nodes 0 = (nodes.sort (· ≤ ·)).head? := by
  rw [nextNode]
  cases nodes.sort (· ≤ ·) <;> simp

theorem nextNode_after {n : Nat} (eq : nodes.sort (· ≤ ·) = pre ++ n :: tl) : nextNode nodes (n + 1) = tl.head? := by
  have sorted := nodes.sortedLT_sort.pairwise
  rw [eq, pairwise_append, List.pairwise_cons] at sorted
  have less : ∀ m ∈ pre, m < n := fun m mem => sorted.2.2 m mem n mem_cons_self
  have more : ∀ m ∈ tl, n < m := sorted.2.1.1
  rw [nextNode, eq, find?_append, find?_eq_none.mpr (by simpa using fun m mem => Nat.lt_succ_of_lt (less m mem))]
  cases tl with
  | nil => simp
  | cons m tl =>
    have hm : decide (n + 1 ≤ m) = true := decide_eq_true (more m mem_cons_self)
    rw [find?_cons_of_neg (by simp), find?_cons, hm]
    rfl

/-- The walk from where the nodes `tl` begin. -/
theorem ilWalk_eq (eq : nodes.sort (· ≤ ·) = pre ++ tl) (first : nextNode nodes beg = tl.head?) (left : Nat) :
    ilWalk nodes left beg = tl[left]? := by
  induction left generalizing pre tl beg with
  | zero => rw [ilWalk, first, head?_eq_getElem?]
  | succ left ih =>
    rw [ilWalk, first]
    cases tl with
    | nil => rfl
    | cons n tl => exact ih (eq.trans (append_cons pre n tl)) (nextNode_after eq)

theorem offsetIlNode_eq (ne : nodes.Nonempty) (numaNodeId : Nat) :
    offsetIlNode nodes numaNodeId off = (nodes.sort (· ≤ ·))[off % 2 ^ 32 % nodes.card]? := by
  rw [offsetIlNode, if_neg (card_ne_zero.mpr ne)]
  exact ilWalk_eq (nil_append _).symm nextNode_zero _

theorem cyclicNext_eq (lt : i < nodes.card) :
    (nodes.sort (· ≤ ·))[i]?.bind (cyclicNext nodes) = (nodes.sort (· ≤ ·))[(i + 1) % nodes.card]? := by
  have inside : i < (nodes.sort (· ≤ ·)).length := by rwa [length_sort]
  have next := nextNode_after
    (nodes.sort (· ≤ ·) |>.take_append_drop i |>.symm.trans (by rw [drop_eq_getElem_cons inside]))
  rw [getElem?_eq_getElem inside, Option.bind_some, cyclicNext, next, nextNode_zero, head?_drop, head?_eq_getElem?]
  rcases Nat.lt_or_eq_of_le (Nat.succ_le_of_lt lt) with lt | eq
  · rw [Nat.mod_eq_of_lt lt, getElem?_eq_getElem (by rwa [length_sort]), Option.some_or]
  · rw [← Nat.succ_eq_add_one, eq, Nat.mod_self, getElem?_eq_none (by simp), Option.none_or]

/-- Whether the narrowed offsets of the area from `off` on do not start anew. -/
def Narrow (nodes : Finset Nat) (off len : Nat) : Prop := nodes.card ∣ 2 ^ 32 ∨ off % 2 ^ 32 + len ≤ 2 ^ 32

theorem offsetIlNode_inj (ne : nodes.Nonempty) (numaNodeId : Nat) :
    offsetIlNode nodes numaNodeId i = offsetIlNode nodes numaNodeId j ↔
      i % 2 ^ 32 ≡ j % 2 ^ 32 [MOD nodes.card] := by
  have inside : ∀ k, k % 2 ^ 32 % nodes.card < (nodes.sort (· ≤ ·)).length := fun k => by
    rw [length_sort]
    exact Nat.mod_lt _ ne.card_pos
  rw [offsetIlNode_eq ne, offsetIlNode_eq ne, getElem?_eq_getElem (inside i), getElem?_eq_getElem (inside j),
    Option.some.injEq, (sort_nodup nodes _).getElem_inj_iff]
  rfl

theorem collision {nnodes : Nat} (ndvd : ¬ nnodes ∣ 2 ^ 32) (anew : 2 ^ 32 < off % 2 ^ 32 + nnodes) :
    ∃ i j, off ≤ i ∧ i < j ∧ j < off + nnodes ∧ i % 2 ^ 32 ≡ j % 2 ^ 32 [MOD nnodes] := by
  by_cases wide : 2 ^ 32 < nnodes
  · exact ⟨off, off + 2 ^ 32, by omega, by omega, by omega, by rw [Nat.add_mod_right]⟩
  have pos : 0 < nnodes := by omega
  -- the last page before the new start has the remainder `rem`, and `before` pages precede the new start
  obtain ⟨quot, rem, last, less⟩ : ∃ quot rem, 2 ^ 32 - 1 = nnodes * quot + rem ∧ rem < nnodes :=
    ⟨_, _, (Nat.div_add_mod ..).symm, Nat.mod_lt _ pos⟩
  have short : rem + 1 < nnodes := by
    by_contra full
    refine ndvd ⟨quot + 1, ?_⟩
    rw [Nat.mul_add_one]
    omega
  obtain ⟨before, start⟩ : ∃ before, off % 2 ^ 32 + before = 2 ^ 32 := ⟨2 ^ 32 - off % 2 ^ 32, by omega⟩
  have same : ∀ back, back ≤ rem → 2 ^ 32 - 1 - back ≡ rem - back [MOD nnodes] := fun back le => by
    rw [show 2 ^ 32 - 1 - back = nnodes * quot + (rem - back) by omega]
    exact Nat.mul_add_mod ..
  by_cases inside : rem < nnodes - before
  · refine ⟨off + (before - 1), off + (before + rem), by omega, by omega, by omega, ?_⟩
    rw [show (off + (before - 1)) % 2 ^ 32 = 2 ^ 32 - 1 - 0 by omega,
      show (off + (before + rem)) % 2 ^ 32 = rem - 0 by omega]
    exact same 0 (Nat.zero_le _)
  · refine ⟨off + (before - 1 - (rem - (nnodes - before - 1))), off + (nnodes - 1), by omega, by omega, by omega, ?_⟩
    rw [show (off + (before - 1 - (rem - (nnodes - before - 1)))) % 2 ^ 32 =
        2 ^ 32 - 1 - (rem - (nnodes - before - 1)) by omega,
      show (off + (nnodes - 1)) % 2 ^ 32 = rem - (rem - (nnodes - before - 1)) by omega]
    exact same _ (Nat.sub_le ..)

/-- From a page to the next the nodes follow each other in turn, and as many pages as there are
    nodes are on different ones, exactly if the narrowed offset does not start anew there or
    its range is a multiple of the number of nodes. -/
theorem offsetIlNode_roundRobin (ne : nodes.Nonempty) (numaNodeId : Nat) :
    (offsetIlNode nodes numaNodeId (off + 1) = (offsetIlNode nodes numaNodeId off).bind (cyclicNext nodes) ↔
      Narrow nodes off 2) ∧
    ((∀ i j, off ≤ i → i < j → j < off + nodes.card →
      offsetIlNode nodes numaNodeId i ≠ offsetIlNode nodes numaNodeId j) ↔ Narrow nodes off nodes.card) := by
  have pos := ne.card_pos
  constructor
  · have inside : ∀ k, k % nodes.card < (nodes.sort (· ≤ ·)).length := fun k => by
      rw [length_sort]
      exact Nat.mod_lt _ pos
    rw [offsetIlNode_eq ne, offsetIlNode_eq ne, cyclicNext_eq (Nat.mod_lt _ pos), Nat.mod_add_mod,
      getElem?_eq_getElem (inside _), getElem?_eq_getElem (inside _), Option.some.injEq,
      (sort_nodup nodes _).getElem_inj_iff, Narrow]
    by_cases anew : off % 2 ^ 32 + 2 ≤ 2 ^ 32
    · rw [show (off + 1) % 2 ^ 32 = off % 2 ^ 32 + 1 by omega]
      exact iff_of_true rfl (.inr anew)
    · rw [show (off + 1) % 2 ^ 32 = 0 by omega, show off % 2 ^ 32 + 1 = 2 ^ 32 by omega, Nat.zero_mod,
        or_iff_left (by omega), Nat.dvd_iff_mod_eq_zero, eq_comm]
  · simp only [ne_eq, offsetIlNode_inj ne]
    constructor
    · intro distinct
      by_contra anew
      simp only [Narrow, not_or, not_le] at anew
      obtain ⟨i, j, first, lt, last, eq⟩ := collision anew.1 anew.2
      exact distinct i j first lt last eq
    · intro narrow i j _ lt _ eq
      have dvd : nodes.card ∣ j - i := by
        rcases narrow with dvd | le
        · rw [Nat.ModEq, Nat.mod_mod_of_dvd _ dvd, Nat.mod_mod_of_dvd _ dvd] at eq
          exact (Nat.modEq_iff_dvd' lt.le).mp eq
        · rw [show j - i = j % 2 ^ 32 - i % 2 ^ 32 by omega]
          exact (Nat.modEq_iff_dvd' (by omega)).mp eq
      exact absurd (Nat.le_of_dvd (by omega) dvd) (by omega)

/-- Three nodes, and the last page before offset 2 ^ 32. -/
theorem offsetIlNode_roundRobin_three : offsetIlNode (range 3) 0 (2 ^ 32 - 2 + 1) = some 0 := by
  rw [(offsetIlNode_roundRobin ⟨0, by decide⟩ 0).1.mpr (.inr (by decide))]
  simp [offsetIlNode_eq, cyclicNext, nextNode]

/-- The page after it is on the same node. -/
theorem offsetIlNode_repeats : offsetIlNode (range 3) 0 (2 ^ 32 - 1) = some 0 ∧
    offsetIlNode (range 3) 0 (2 ^ 32) = some 0 ∧ cyclicNext (range 3) 0 = some 1 := by
  simp [offsetIlNode_eq, cyclicNext, nextNode]

end Aosp.Mm
