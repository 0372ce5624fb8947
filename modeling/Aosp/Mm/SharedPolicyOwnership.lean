import Aosp.Mm.SharedPolicyReplace

/-! # What `shared_policy_replace` allocates

Model of the ownership of `n_new` and `mpol_new`.  They are allocated without the lock, so
that the tree may be another one when the function starts again, and may have no node left
that spans the range.  Exactly then `mpol_put` is applied to memory as it was allocated;
otherwise what was allocated is in the tree or freed once (`replace_releases`).
-/

namespace Aosp.Mm

open Aosp.Lib List

/-- The memory of `mpol_new`: its reference count, whether that has been set, how often the
    memory was freed, and whether `mpol_put` was applied before the count was set. -/
structure NewPolicy where
  refcnt : Int
  isSet : Bool := false
  frees : Nat := 0
  blindPut : Bool := false
deriving DecidableEq

def mpolPut (p : NewPolicy) : NewPolicy :=
  { p with refcnt := p.refcnt - 1, frees := if p.refcnt - 1 = 0 then p.frees + 1 else p.frees
           blindPut := p.blindPut || !p.isSet }

/-- The tree, the returned value, how often `n_new` was freed if it was allocated, and
    `mpol_new` if it was. -/
structure ReplaceOutcome where
  root : SpTree
  ret : Int
  nodeFrees : Option Nat := none
  policy : Option NewPolicy := none

section Definitions

variable (lib : SearchTree.Balancer SpNode) (beg stop : Nat)

/-- The loop comes to a node that spans the range, for which it takes `n_new`. -/
def takesNew (root : SpTree) : Bool :=
  match replaceLoop lib beg stop none (root.toList.length + 1) root (spLookup root beg stop) with
  | .allocNew _ => true
  | _ => false

/-- `fresh` is the reference count in the memory as it is allocated, `again` the tree when
    the function starts again; `none` for a `BUG()`. -/
def replaceOwning (snAlloc policyAlloc : Bool) (fresh : Int) (new : Option SpNode) (newAddress : Nat)
    (root again : SpTree) : Option ReplaceOutcome :=
  match replacePass lib beg stop new none root with
  | .bug => none
  | .done root => some { root, ret := 0 }
  | .allocNew root =>
    if !snAlloc then some { root, ret := -ENOMEM }
    else if !policyAlloc then some { root, ret := -ENOMEM, nodeFrees := some 1 }
    else
      match replacePass lib beg stop new (some newAddress) again with
      | .done root =>
        if takesNew lib beg stop again then
          some { root, ret := 0, nodeFrees := some 0, policy := some { refcnt := 1, isSet := true } }
        else some { root, ret := 0, nodeFrees := some 1, policy := some (mpolPut { refcnt := fresh }) }
      -- `alloc_new` is not reached with a node at hand
      | _ => none

end Definitions

/-- In the tree with one reference, or freed once, and never put before its count was set. -/
structure ReplaceOutcome.Released (out : ReplaceOutcome) (adr : Nat) : Prop where
  node : ∀ frees ∈ out.nodeFrees, frees = 1 ∨ frees = 0 ∧ ∃ n ∈ out.root.toList, n.address = adr
  policy : ∀ p ∈ out.policy, p.blindPut = false ∧
    (p.frees = 1 ∨ p.frees = 0 ∧ p.refcnt = 1 ∧ ∃ n ∈ out.root.toList, n.address = adr)

variable {lib : SearchTree.Balancer SpNode} {beg stop newAddress turns : Nat} {root root' : SpTree} {new : SpNode}

theorem mem_spInsert (hi : spInsert lib root new = some root') :
    new ∈ root'.toList ∧ ∀ n ∈ root.toList, n ∈ root'.toList := by
  obtain ⟨t, hl, rfl⟩ := Option.map_eq_some_iff.mp hi
  simp +contextual only [lib.toList_insertColor, SearchTree.mem_link hl, true_or, or_true, implies_true, and_self]

theorem replaceLoop_takes {n : Option SpNode} {left : SpTree}
    (takes : replaceLoop lib beg stop none turns root n = .allocNew left)
    (done : replaceLoop lib beg stop (some newAddress) turns root n = .done root') :
    ∃ n ∈ root'.toList, n.address = newAddress := by
  induction turns generalizing root n with
  | zero => cases takes
  | succ turns ih =>
    cases n with
    | none => cases takes
    | some n =>
      rw [replaceLoop] at takes done
      split at takes
      · split_ifs at takes done
        · exact ih takes done
        · exact ih takes done
        · rw [splitSpanning] at done
          split at done
          · cases done
          next hi =>
            cases done
            exact ⟨_, (mem_spInsert hi).1, rfl⟩
        · exact ih takes done
      · cases takes

theorem replacePass_takes {new : Option SpNode} (takes : takesNew lib beg stop root)
    (done : replacePass lib beg stop new (some newAddress) root = .done root') :
    ∃ n ∈ root'.toList, n.address = newAddress := by
  rw [takesNew] at takes
  split at takes
  next reached =>
    rw [replacePass] at done
    split at done
    next t looped =>
      obtain ⟨n, mem, adr⟩ := replaceLoop_takes reached looped
      split at done
      · cases done
        exact ⟨n, mem, adr⟩
      · split at done
        · cases done
        next inserted =>
          cases done
          exact ⟨n, (mem_spInsert inserted).2 n mem, adr⟩
    next o => exact absurd done (o _)
  · cases takes

theorem takesNew_iff (rs : Ranges root.toList) (lt : beg < stop) :
    takesNew lib beg stop root ↔ Spanned beg stop root.toList := by
  rw [takesNew]
  rcases @replaceLoop_carves lib root beg stop none rs lt (by simp) with
    ⟨-, reached, spans⟩ | ⟨_, _, _, done, -, -, none⟩
  · simp [reached, spans]
  · simp [done, none rfl]

theorem replacePass_none (rs : Ranges root.toList) (lt : beg < stop) (new : Option SpNode) :
    match replacePass lib beg stop new none root with
    | .allocNew _ => Spanned beg stop root.toList
    | .done _ => ¬ Spanned beg stop root.toList
    | .bug => True := by
  rw [replacePass]
  rcases @replaceLoop_carves lib root beg stop none rs lt (by simp) with
    ⟨-, reached, spans⟩ | ⟨_, _, _, done, -, -, none⟩
  · rwa [reached]
  · rw [done]
    cases new with
    | none => exact none rfl
    | some nd =>
      dsimp only
      cases spInsert lib _ nd with
      | none => trivial
      | some _ => exact none rfl

/-- Whatever other callers make of the tree and however the allocations end: what was
    allocated is released exactly if a node still spans the range where one did before. -/
theorem replace_releases {snAlloc policyAlloc : Bool} {fresh : Int} {new : Option SpNode} {again : SpTree}
    {out : ReplaceOutcome} (rs : Ranges root.toList) (againRanges : Ranges again.toList) (lt : beg < stop)
    (returns : replaceOwning lib beg stop snAlloc policyAlloc fresh new newAddress root again = some out) :
    out.Released newAddress ↔
      (Spanned beg stop root.toList → snAlloc → policyAlloc → Spanned beg stop again.toList) := by
  have needed := @replacePass_none lib beg stop root rs lt new
  rw [replaceOwning] at returns
  split at returns
  · cases returns
  next done =>
    cases returns
    rw [done] at needed
    exact iff_of_true ⟨by simp, by simp⟩ fun spans => absurd spans needed
  next first =>
    rw [first] at needed
    split at returns
    next failed =>
      cases returns
      exact iff_of_true ⟨by simp, by simp⟩ (by simp_all)
    split at returns
    next failed =>
      cases returns
      exact iff_of_true ⟨by simp, by simp⟩ (by simp_all)
    split at returns
    next second =>
      split at returns
      next takes =>
        cases returns
        have mem := replacePass_takes takes second
        exact iff_of_true ⟨by simpa using mem, by simpa using mem⟩ fun _ _ _ => (takesNew_iff againRanges lt).mp takes
      next unused =>
        cases returns
        rw [takesNew_iff againRanges lt] at unused
        refine iff_of_false (fun released => ?_) fun spans =>
          unused (spans needed (by simp_all) (by simp_all))
        simpa [mpolPut] using (released.policy _ rfl).1
    · cases returns

def spanning : SpTree := .node .leaf ⟨0, 0, 10, ⟨MPOL_BIND, 0, 0, 3, 0⟩⟩ .leaf

theorem replace_releases_split : ∃ out, replaceOwning .unbalanced 4 6 true true 5 none 1 spanning spanning = some out ∧
    out.nodeFrees = some 0 ∧ out.Released 1 := by
  have ranges : Ranges spanning.toList := ⟨by decide, by decide, by decide⟩
  refine ⟨_, rfl, rfl, (@replace_releases .unbalanced 4 6 1 spanning true true 5 none spanning _ ranges ranges
    (by decide) rfl).mpr fun spans _ _ => spans⟩

/-- The range has been replaced by another caller when the function starts again. -/
theorem put_of_fresh_memory : (replaceOwning .unbalanced 4 6 true true 5 none 1 spanning .leaf).any fun out =>
    out.policy = some ⟨4, false, 0, true⟩ := by
  decide

end Aosp.Mm
