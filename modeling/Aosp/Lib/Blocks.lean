import Mathlib.Algebra.BigOperators.Group.List.Basic
import Mathlib.Algebra.GroupWithZero.Nat

/-! # Blocks of bytes

A list of blocks tiles a range if every byte of the range is in exactly one of
them and no other byte is in any.  Counting how many blocks a byte is in makes
this a statement about sums: it does not depend on the order of the blocks, and a
block may be replaced by blocks that cover the same bytes.
-/

namespace Aosp.Lib

/-- `size` bytes from `start` on. -/
structure Block where
  start : Nat
  size : Nat
deriving DecidableEq

def Block.Contains (block : Block) (byte : Nat) : Prop :=
  block.start ≤ byte ∧ byte < block.start + block.size

instance (block : Block) (byte : Nat) : Decidable (block.Contains byte) :=
  inferInstanceAs (Decidable (_ ∧ _))

def cover (blocks : List Block) (byte : Nat) : Nat :=
  (blocks.map fun block => if block.Contains byte then 1 else 0).sum

/-- Every byte from `lo` up to `hi` is in one block, every other in none. -/
def Tiles (blocks : List Block) (lo hi : Nat) : Prop :=
  ∀ byte, cover blocks byte = if lo ≤ byte ∧ byte < hi then 1 else 0

@[simp] theorem cover_nil (byte : Nat) : cover [] byte = 0 := rfl

@[simp] theorem cover_cons (blk : Block) (blocks : List Block) (byte : Nat) :
    cover (blk :: blocks) byte = (if blk.Contains byte then 1 else 0) + cover blocks byte := by
  simp [cover]

@[simp] theorem cover_append (one two : List Block) (byte : Nat) :
    cover (one ++ two) byte = cover one byte + cover two byte := by
  simp [cover]

theorem cover_perm {one two : List Block} (perm : one.Perm two) (byte : Nat) : cover one byte = cover two byte :=
  (perm.map _).sum_eq

theorem tiles_nil (lo : Nat) : Tiles [] lo lo := by
  intro _
  rw [cover_nil, if_neg (by omega)]

variable {blocks : List Block} {lo hi : Nat} {blk : Block}

theorem Tiles.of_cover {ot : List Block} (tiles : Tiles blocks lo hi)
    (eq : ∀ byte, cover ot byte = cover blocks byte) : Tiles ot lo hi :=
  fun byte => (eq byte).trans (tiles byte)

theorem Tiles.append {more : List Block} {last : Nat} (tiles : Tiles blocks lo hi) (next : Tiles more hi last)
    (inOrder : lo ≤ hi) (nextInOrder : hi ≤ last) : Tiles (blocks ++ more) lo last := by
  intro byte
  rw [cover_append, tiles byte, next byte]
  split
  next _ => rw [if_neg (by omega), if_pos (by omega)]
  next _ =>
    split
    next _ => rw [if_pos (by omega)]
    next _ => rw [if_neg (by omega)]

theorem tiles_singleton (beg sz : Nat) : Tiles [⟨beg, sz⟩] beg (beg + sz) := by
  intro _
  exact if_congr Iff.rfl rfl rfl

theorem one_le_cover {byte : Nat} (mem : blk ∈ blocks) (contains : blk.Contains byte) : 1 ≤ cover blocks byte := by
  obtain ⟨_, _, rfl⟩ := List.append_of_mem mem
  rw [cover_append, cover_cons, if_pos contains]
  omega

theorem Tiles.within (tiles : Tiles blocks lo hi) (mem : blk ∈ blocks) (ne : 0 < blk.size) :
    lo ≤ blk.start ∧ blk.start + blk.size ≤ hi := by
  have fits : ∀ byte, blk.Contains byte → lo ≤ byte ∧ byte < hi := by
    intro byte contains
    have cover := one_le_cover mem contains
    rw [tiles byte] at cover
    by_contra outside
    rw [if_neg outside] at cover
    omega
  have first := fits blk.start ⟨by omega, by omega⟩
  have last := fits (blk.start + blk.size - 1) ⟨by omega, by omega⟩
  omega

theorem Tiles.disjoint (tiles : Tiles blocks lo hi) {i j : Nat} {one two : Block} (far : i < j)
    (isOne : blocks[i]? = some one) (hit : blocks[j]? = some two) (byte : Nat) :
    ¬ (one.Contains byte ∧ two.Contains byte) := by
  intro ⟨_, inTwo⟩
  obtain ⟨_, rfl⟩ := List.getElem?_eq_some_iff.mp isOne
  have split : blocks = blocks.take i ++ blocks[i] :: blocks.drop (i + 1) := by
    rw [List.getElem_cons_drop, List.take_append_drop]
  have late : two ∈ blocks.drop (i + 1) := by
    apply List.mem_of_getElem? (i := j - _)
    rw [List.getElem?_drop, show i + 1 + (j - (i + 1)) = j by omega]
    exact hit
  have both := one_le_cover late inTwo
  have cnt := tiles byte
  rw [split, cover_append, cover_cons] at cnt
  split_ifs at cnt <;> omega

end Aosp.Lib
