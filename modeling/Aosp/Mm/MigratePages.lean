import Mathlib.Data.Finset.Sort

/-! # The order in which nodes are emptied

Model of `do_migrate_pages` of `mm/mempolicy.c`: the calls of `migrate_to_node`, with what
`migrate_prep`, `migrate_vmas` and each of these calls return as a parameter.
-/

namespace Aosp.Mm

open Finset List

/-- What the functions that are called return; `migrateToNode` for the calls in turn. -/
structure MigrateEnv where
  migratePrep : Int := 0
  migrateVmas : Int := 0
  migrateToNode : Nat → Int

variable (src dst : Finset Nat)

/-- The node of the new set with the node's ordinal in the old one, modulo their number. -/
def nodeRemap (nd : Nat) : Nat :=
  if nd ∈ src then ((dst.sort (· ≤ ·))[(src.filter (· < nd)).card % dst.card]?).getD nd else nd

/-- The scan of `tmp` for a pair, with the last one that moves. -/
def scanNodes (tmp : Finset Nat) : List Nat → Option (Nat × Nat) → Option (Nat × Nat)
  | [], memorized => memorized
  | s :: nodes, memorized =>
    if src.card ≠ dst.card ∧ s ∈ dst then scanNodes tmp nodes memorized
    else
      let d := nodeRemap src dst s
      if s = d then scanNodes tmp nodes memorized
      else if d ∉ tmp then some (s, d)
      else scanNodes tmp nodes (some (s, d))

def moves (nd : Nat) : Bool := ¬ (src.card ≠ dst.card ∧ nd ∈ dst) ∧ nd ≠ nodeRemap src dst nd

theorem scanNodes_eq (tmp : Finset Nat) (nds : List Nat) (memorized : Option (Nat × Nat)) :
    scanNodes src dst tmp nds memorized = ((((nds.filter (moves src dst)).find? (nodeRemap src dst · ∉ tmp)).or
        (nds.filter (moves src dst)).getLast?).map fun s => (s, nodeRemap src dst s)).or memorized := by
  fun_induction scanNodes src dst tmp nds memorized with
  | case1 => rfl
  | case2 s nds memorized skip ih => rw [ih, filter_cons_of_neg (by simp [moves, skip])]
  | case3 s nds memorized skip d eq ih => rw [ih, List.filter_cons_of_neg (by simpa [moves] using fun _ => eq)]
  | case4 s nds memorized skip d o free =>
    rw [List.filter_cons_of_pos (by simpa [moves] using ⟨by simpa [imp_iff_not_or] using skip, o⟩),
      find?_cons_of_pos (by simpa using free)]
    rfl
  | case5 s nds memorized skip d o ht ih =>
    rw [ih, List.filter_cons_of_pos (by simpa [moves] using ⟨by simpa [imp_iff_not_or] using skip, o⟩),
      find?_cons_of_neg (by simpa using ht), getLast?_cons]
    cases (nds.filter _).find? _ with
    | some => rfl
    | none => cases (nds.filter _).getLast? <;> rfl

/-- The pair that the scan of `tmp` ends with. -/
def nextPair (tmp : Finset Nat) : Option (Nat × Nat) := scanNodes src dst tmp (tmp.sort (· ≤ ·)) none

variable {src dst} {tmp : Finset Nat} {s d : Nat}

theorem nextPair_none (none : nextPair src dst tmp = none) (mem : s ∈ tmp) : moves src dst s = false := by
  rw [nextPair, scanNodes_eq, Option.or_none, Option.map_eq_none_iff, Option.or_eq_none_iff,
    getLast?_eq_none_iff, filter_eq_nil_iff] at none
  simpa using none.2 s (by simpa using mem)

theorem nextPair_some (hf : nextPair src dst tmp = some (s, d)) :
    s ∈ tmp ∧ moves src dst s = true ∧ d = nodeRemap src dst s ∧
      (d ∈ tmp → ∀ nd ∈ tmp, moves src dst nd = true → nodeRemap src dst nd ∈ tmp) := by
  rw [nextPair, scanNodes_eq, Option.or_none, Option.map_eq_some_iff] at hf
  obtain ⟨nd, hf, isPair⟩ := hf
  cases isPair
  cases free : ((tmp.sort (· ≤ ·)).filter _).find? _ with
  | some o =>
    rw [free] at hf
    cases hf
    have mem := mem_filter.mp (mem_of_find?_eq_some free)
    exact ⟨by simpa using mem.1, mem.2, rfl, fun hi => absurd hi (by simpa using find?_some free)⟩
  | none =>
    rw [free] at hf
    have mem := mem_filter.mp (mem_of_getLast? hf)
    rw [find?_eq_none] at free
    refine ⟨by simpa using mem.1, mem.2, rfl, fun _ nd hn isMoves => ?_⟩
    simpa using free nd (mem_filter.mpr ⟨by simpa using hn, isMoves⟩)

theorem nodeRemap_mem (ne : dst.Nonempty) (mem : s ∈ src) : nodeRemap src dst s ∈ dst := by
  have hi : (src.filter (· < s)).card % dst.card < (dst.sort (· ≤ ·)).length := by
    rw [length_sort]
    exact Nat.mod_lt _ ne.card_pos
  rw [nodeRemap, if_pos mem, getElem?_eq_getElem hi, ← mem_sort (· ≤ ·)]
  exact getElem_mem hi

/-- Between sets of one size the order of the nodes is kept. -/
theorem nodeRemap_lt (eq : src.card = dst.card) {t : Nat} (mem : s ∈ src) (otherMem : t ∈ src) (lt : s < t) :
    nodeRemap src dst s < nodeRemap src dst t := by
  have ordinal : ∀ nd ∈ src, (src.filter (· < nd)).card < src.card := fun nd mem =>
    card_lt_card (filter_ssubset.mpr ⟨nd, mem, lt_irrefl nd⟩)
  have less : (src.filter (· < s)).card < (src.filter (· < t)).card := by
    refine card_lt_card (ssubset_iff_of_subset ?_ |>.mpr ⟨s, by simp [mem, lt], by simp⟩)
    exact monotone_filter_right _ fun nd _ low => low.trans lt
  have hi := ordinal t otherMem
  rw [nodeRemap, nodeRemap, if_pos mem, if_pos otherMem, ← eq, Nat.mod_eq_of_lt (less.trans hi),
    Nat.mod_eq_of_lt hi, getElem?_eq_getElem (by rw [length_sort]; omega),
    getElem?_eq_getElem (by rw [length_sort]; omega)]
  exact (sortedLT_sort dst).getElem_lt_getElem_of_lt less

theorem exists_free (eq : src.card = dst.card) (sub : tmp ⊆ src) (mem : s ∈ tmp) (start : moves src dst s = true) :
    ∃ nd ∈ tmp, moves src dst nd = true ∧ nodeRemap src dst nd ∉ tmp := by
  simp only [moves, eq, ne_eq, not_true_eq_false, false_and, not_false_eq_true, true_and, decide_eq_true_eq] at start ⊢
  by_contra! none
  rcases Nat.lt_or_gt_of_ne start with up | down
  · obtain ⟨nd, hn, last⟩ := (tmp.filter fun nd => nd < nodeRemap src dst nd).exists_max_image id
      ⟨s, by simp [mem, up]⟩
    obtain ⟨hi, up⟩ := mem_filter.mp hn
    have again := none nd hi up.ne
    exact Nat.not_lt.mpr (last _ (mem_filter.mpr ⟨again, nodeRemap_lt eq (sub hi) (sub again) up⟩)) up
  · obtain ⟨nd, hn, first⟩ := (tmp.filter fun nd => nodeRemap src dst nd < nd).exists_min_image id
      ⟨s, by simpa [mem] using down⟩
    obtain ⟨hi, down⟩ := mem_filter.mp hn
    have again := none nd hi down.ne'
    exact Nat.not_lt.mpr (first _ (mem_filter.mpr ⟨again, nodeRemap_lt eq (sub again) (sub hi) down⟩)) down

theorem nextPair_settled (ne : dst.Nonempty) (sub : tmp ⊆ src) (hf : nextPair src dst tmp = some (s, d))
    (mem : d ∈ tmp) : moves src dst d = false := by
  obtain ⟨hi, isMoves, rfl, stuck⟩ := nextPair_some hf
  by_cases eq : src.card = dst.card
  · obtain ⟨nd, hn, nodeMoves, free⟩ := exists_free eq sub hi isMoves
    exact absurd (stuck mem nd hn nodeMoves) free
  · simp [moves, eq, nodeRemap_mem ne (sub hi)]

variable (src dst) in
/-- The loop: the calls of `migrate_to_node`, the first being the `n`-th, and what is returned
    if so many pages were busy before. -/
def migrateLoop (e : MigrateEnv) (n : Nat) (busy : Int) (tmp : Finset Nat) : List (Nat × Nat) × Int :=
  match _found : nextPair src dst tmp with
  | none => ([], busy)
  | some (s, d) =>
    let err := e.migrateToNode n
    if err < 0 then ([(s, d)], err)
    else
      let tl := migrateLoop e (n + 1) (if err > 0 then busy + err else busy) (tmp.erase s)
      ((s, d) :: tl.1, tl.2)
termination_by tmp.card
decreasing_by exact card_erase_lt_of_mem (nextPair_some _found).1

variable (src dst) in
def doMigratePages (e : MigrateEnv) : List (Nat × Nat) × Int :=
  if e.migratePrep ≠ 0 then ([], e.migratePrep)
  else if e.migrateVmas ≠ 0 then ([], if e.migrateVmas < 0 then e.migrateVmas else 0)
  else migrateLoop src dst e 0 0 src

theorem migrateLoop_calls (e : MigrateEnv) (ne : dst.Nonempty) (n : Nat) (busy : Int) (sub : tmp ⊆ src) :
    (∀ c ∈ (migrateLoop src dst e n busy tmp).1, c.1 ∈ tmp ∧ moves src dst c.1 = true ∧ c.2 = nodeRemap src dst c.1) ∧
      (migrateLoop src dst e n busy tmp).1.Pairwise (fun one next => one.1 ≠ next.1 ∧ one.2 ≠ next.1) ∧
      ((∀ n, 0 ≤ e.migrateToNode n) → ∀ nd ∈ tmp, moves src dst nd = true →
        (nd, nodeRemap src dst nd) ∈ (migrateLoop src dst e n busy tmp).1) := by
  fun_induction migrateLoop src dst e n busy tmp with
  | case1 n busy tmp none =>
    refine ⟨nofun, .nil, fun _ nd mem isMoves => ?_⟩
    rw [nextPair_none none mem] at isMoves
    cases isMoves
  | case2 n busy tmp s d hf err fail =>
    obtain ⟨mem, isMoves, isDest, -⟩ := nextPair_some hf
    refine ⟨by simpa using ⟨mem, isMoves, isDest⟩, by simp, fun succeed => ?_⟩
    exact absurd fail (Int.not_lt.mpr (succeed n))
  | case3 n busy tmp s d hf err _ _ ih =>
    obtain ⟨mem, isMoves, isDest, -⟩ := nextPair_some hf
    obtain ⟨cls, ho, all⟩ := ih ((erase_subset _ _).trans sub)
    refine ⟨?_, pairwise_cons.mpr ⟨fun c isCall => ?_, ho⟩, fun succeed nd hn nodeMoves => ?_⟩
    · rintro c (_ | ⟨_, isCall⟩)
      · exact ⟨mem, isMoves, isDest⟩
      · obtain ⟨hi, callMoves⟩ := cls c isCall
        exact ⟨mem_of_mem_erase hi, callMoves⟩
    · obtain ⟨hi, callMoves, -⟩ := cls c isCall
      refine ⟨(ne_of_mem_erase hi).symm, ?_⟩
      rintro rfl
      rw [nextPair_settled ne sub hf (mem_of_mem_erase hi)] at callMoves
      cases callMoves
    · by_cases eq : nd = s
      · subst eq
        rw [isDest]
        exact .head _
      · exact .tail _ (all succeed nd (mem_erase.mpr ⟨eq, hn⟩) nodeMoves)

/-- Whatever the calls of `migrate_to_node` return, each is made for a node of the first set
    that moves and its image, for no node twice and for none that an earlier call has moved
    pages to; and if none fails, for all of them. -/
theorem migrate_pages_in_order (e : MigrateEnv) (nonempty : dst.Nonempty) :
    (∀ c ∈ (doMigratePages src dst e).1, c.1 ∈ src ∧ c.2 = nodeRemap src dst c.1) ∧
      (doMigratePages src dst e).1.Pairwise (fun earlier later => earlier.1 ≠ later.1 ∧ earlier.2 ≠ later.1) ∧
      (e.migratePrep = 0 → e.migrateVmas = 0 → (∀ n, 0 ≤ e.migrateToNode n) → ∀ nd ∈ src,
        nd ≠ nodeRemap src dst nd → (src.card ≠ dst.card → nd ∉ dst) →
          (nd, nodeRemap src dst nd) ∈ (doMigratePages src dst e).1) := by
  obtain ⟨calls, ordered, all⟩ := migrateLoop_calls e nonempty 0 0 (Finset.Subset.refl src)
  rw [doMigratePages]
  split
  next prep => exact ⟨nofun, .nil, fun done => absurd done prep⟩
  next =>
    split
    next vmas => exact ⟨nofun, .nil, fun _ done => absurd done vmas⟩
    next =>
      refine ⟨fun c isCall => ⟨(calls c isCall).1, (calls c isCall).2.2⟩, ordered, ?_⟩
      intro _ _ succeed nd mem o skip
      exact all succeed nd mem (by simpa [moves, o, or_iff_not_imp_left] using skip)

/-- Nodes 0 and 1 to 1 and 2: the second one is emptied first. -/
theorem migrate_pages_in_order_shift : (doMigratePages {0, 1} {1, 2} ⟨0, 0, fun _ => 0⟩).1.Pairwise
      (fun earlier later => earlier.1 ≠ later.1 ∧ earlier.2 ≠ later.1) :=
  (migrate_pages_in_order ⟨0, 0, fun _ => 0⟩ (by decide)).2.1

end Aosp.Mm
