import Aosp.Lib.Run
import Aosp.Mm.SharedPolicy

/-! # Setting shared memory policies

`shared_policy_replace` deletes the nodes in the range, trims those that reach into it and
cuts in two one that spans it, before the new node is put in.  `Carved` says what is left
of the nodes then, and `Replaced` what the call has done.

Whatever the calls, the nodes of the tree stay disjoint ranges in order, no `BUG()` is
reached, and a lookup finds the copy that the last successful call for the index made
(`shared_policies_as_last_set`).
-/

namespace Aosp.Mm

open Aosp.Lib List SharedPolicy SpNode

/-! ## Making room for a range -/

/-- What is left from `stop` on of ranges that do not begin before the new one. -/
def carveRight (stop : Nat) : List SpNode → List SpNode
  | [] => []
  | n :: rest =>
    if n.start < stop then
      if n.stop ≤ stop then carveRight stop rest else { n with start := stop } :: rest
    else n :: rest

variable {early late nds : List SpNode} {n : SpNode} {stop idx : Nat} {policy : Mempolicy} {tl : List SpNode}
  {nd : SpNode}

theorem Ranges.append_left (rs : Ranges (early ++ late)) : Ranges early where
  nonempty n mem := rs.nonempty n (mem_append_left late mem)
  ordered := (pairwise_append.mp rs.ordered).1
  distinct := (nodup_append.mp (map_append ▸ rs.distinct)).1

theorem Ranges.append_right (rs : Ranges (early ++ late)) : Ranges late where
  nonempty n mem := rs.nonempty n (mem_append_right early mem)
  ordered := (pairwise_append.mp rs.ordered).2.1
  distinct := (nodup_append.mp (map_append ▸ rs.distinct)).2.1

theorem Ranges.tail (rs : Ranges (n :: tl)) : Ranges tl :=
  @Ranges.append_right [n] tl rs

theorem Ranges.rest_start (rs : Ranges (n :: tl)) : ∀ o ∈ tl, n.stop ≤ o.start :=
  (pairwise_cons.mp rs.ordered).1

theorem carveRight_start (rs : Ranges nds) : ∀ n ∈ carveRight stop nds, stop ≤ n.start := by
  induction nds with
  | nil => simp [carveRight]
  | cons n _ ih =>
    have back := rs.rest_start
    have full := rs.nonempty n mem_cons_self
    rw [carveRight]
    split
    next =>
      split
      next => exact ih rs.tail
      next =>
        rintro o (_ | mem)
        · exact Nat.le_refl stop
        · have ord := back o ‹_›
          omega
    next =>
      rintro o (_ | mem)
      · omega
      · have ord := back o ‹_›
        omega

theorem MapsTo.le_idx {low : Nat} (back : ∀ n ∈ nds, low ≤ n.start) (maps : MapsTo nds idx policy) : low ≤ idx := by
  obtain ⟨n, mem, cover, -⟩ := maps
  exact Nat.le_trans (back n mem) cover.1

theorem MapsTo.idx_lt {high : Nat} (pre : ∀ n ∈ nds, n.stop ≤ high) (maps : MapsTo nds idx policy) : idx < high := by
  obtain ⟨n, mem, cover, -⟩ := maps
  exact Nat.lt_of_lt_of_le cover.2 (pre n mem)

theorem mapsTo_carveRight (rs : Ranges nds) :
    MapsTo (carveRight stop nds) idx policy ↔ stop ≤ idx ∧ MapsTo nds idx policy := by
  induction nds with
  | nil => simp [carveRight]
  | cons n tl ih =>
    have back : MapsTo tl idx policy → n.stop ≤ idx := MapsTo.le_idx rs.rest_start
    have full := rs.nonempty n mem_cons_self
    rw [carveRight]
    split
    next =>
      split
      next =>
        rw [ih rs.tail, mapsTo_cons, SpNode.Covers]
        grind
      next =>
        rw [mapsTo_cons, mapsTo_cons, SpNode.Covers, SpNode.Covers]
        grind
    next =>
      rw [mapsTo_cons, SpNode.Covers]
      grind

/-- The nodes that are left have the addresses that they had. -/
theorem carveRight_addresses (stop : Nat) (nds : List SpNode) :
    ((carveRight stop nds).map address).Sublist (nds.map address) := by
  induction nds with
  | nil => simp [carveRight]
  | cons n _ ih =>
    rw [carveRight]
    split
    next =>
      split
      next => exact ih.cons _
      next => exact List.Sublist.refl _
    next => exact List.Sublist.refl _

theorem Ranges.carveRight (rs : Ranges nds) : Ranges (carveRight stop nds) := by
  induction nds with
  | nil => exact rs
  | cons n _ ih =>
    rw [Mm.carveRight]
    split
    next =>
      split
      next => exact ih rs.tail
      next trims =>
        exact {
          nonempty := by
            simp only [forall_mem_cons]
            exact ⟨Nat.lt_of_not_le trims, rs.tail.nonempty⟩
          ordered := pairwise_cons.mpr ⟨rs.rest_start, rs.tail.ordered⟩
          distinct := rs.distinct }
    next => exact rs

/-- What is left of the ranges of `old` outside of the range from `beg` to `stop`, with
    at most one more node. -/
structure Carved (beg stop : Nat) (nNew : Option Nat) (old lefts rights : List SpNode) : Prop where
  ranges : Ranges (lefts ++ rights)
  left : ∀ n ∈ lefts, n.stop ≤ beg
  right : ∀ n ∈ rights, stop ≤ n.start
  outside : ∀ idx policy, MapsTo (lefts ++ rights) idx policy ↔ (idx < beg ∨ stop ≤ idx) ∧ MapsTo old idx policy
  addresses : ∀ n ∈ lefts ++ rights, n.address ∈ old.map address ∨ some n.address = nNew

theorem Ranges.append (earlyRanges : Ranges early) (lateRanges : Ranges late)
    (ord : ∀ a ∈ early, ∀ b ∈ late, a.stop ≤ b.start) (far : ∀ a ∈ early, ∀ b ∈ late, a.address ≠ b.address) :
    Ranges (early ++ late) where
  nonempty n mem := (mem_append.mp mem).elim (earlyRanges.nonempty n) (lateRanges.nonempty n)
  ordered := pairwise_append.mpr ⟨earlyRanges.ordered, lateRanges.ordered, ord⟩
  distinct := by
    rw [map_append, nodup_append]
    simpa using ⟨earlyRanges.distinct, lateRanges.distinct, far⟩

theorem Ranges.distinct_append (rs : Ranges (early ++ late)) : ∀ a ∈ early, ∀ b ∈ late, a.address ≠ b.address := by
  have far := rs.distinct
  rw [map_append, nodup_append] at far
  simpa using far.2.2

/-- A range that its neighbours leave room for is one more range in order. -/
theorem Ranges.insert {lefts rts : List SpNode} (rs : Ranges (lefts ++ rts))
    (full : nd.start < nd.stop) (left : ∀ n ∈ lefts, n.stop ≤ nd.start)
    (right : ∀ n ∈ rts, nd.stop ≤ n.start) (new : ∀ n ∈ lefts ++ rts, n.address ≠ nd.address) :
    Ranges (lefts ++ nd :: rts) := by
  obtain ⟨freshLeft, freshRight⟩ := forall_mem_append.mp new
  have late : Ranges _ :=
    { nonempty := forall_mem_cons.mpr ⟨full, rs.append_right.nonempty⟩
      ordered := pairwise_cons.mpr ⟨right, rs.append_right.ordered⟩
      distinct := nodup_cons.mpr ⟨by simpa using freshRight, rs.append_right.distinct⟩ }
  apply rs.append_left.append late
  · intro a mem b mem'
    cases mem_cons.mp mem' with
    | inl hn => exact hn ▸ left a mem
    | inr inRights => exact (pairwise_append.mp rs.ordered).2.2 a mem b inRights
  · intro a mem b mem'
    cases mem_cons.mp mem' with
    | inl hn => exact hn ▸ freshLeft a mem
    | inr inRights => exact rs.distinct_append a mem b inRights

theorem Ranges.carved {beg : Nat} {lefts rts : List SpNode} (rs : Ranges (lefts ++ rts))
    (low : beg ≤ stop) (left : ∀ n ∈ lefts, n.stop ≤ beg) (right : ∀ n ∈ rts, beg ≤ n.start)
    (nNew : Option Nat) : Carved beg stop nNew (lefts ++ rts) lefts (Mm.carveRight stop rts) := by
  have rightRanges := rs.append_right
  have start : ∀ n ∈ Mm.carveRight stop rts, stop ≤ n.start := carveRight_start rightRanges
  have kept : ∀ n ∈ Mm.carveRight stop rts, ∃ o ∈ rts, o.address = n.address := fun n mem =>
    mem_map.mp ((carveRight_addresses stop rts).subset (mem_map_of_mem mem))
  constructor
  case ranges =>
    apply Ranges.append rs.append_left rightRanges.carveRight
    · intro a aMember b mem'
      have ends := left a aMember
      have begins := start b mem'
      omega
    · intro a aMember b mem'
      obtain ⟨o, om, eq⟩ := kept b mem'
      rw [← eq]
      exact rs.distinct_append a aMember o om
  case left => exact left
  case right => exact start
  case outside =>
    intro idx policy
    have inLeft : MapsTo lefts idx policy → idx < beg := MapsTo.idx_lt left
    have inRight : MapsTo rts idx policy → beg ≤ idx := MapsTo.le_idx right
    rw [mapsTo_append, mapsTo_append, mapsTo_carveRight rightRanges]
    constructor
    · rintro (maps | ⟨back, maps⟩)
      · exact ⟨Or.inl (inLeft maps), Or.inl maps⟩
      · exact ⟨Or.inr back, Or.inr maps⟩
    · rintro ⟨_, maps | maps⟩
      · exact Or.inl maps
      · have from_ := inRight maps
        exact Or.inr ⟨by omega, maps⟩
  case addresses =>
    intro n mem
    left
    rcases mem_append.mp mem with inLeft | inRight
    · exact mem_map_of_mem (mem_append_left _ inLeft)
    · obtain ⟨o, om, eq⟩ := kept n inRight
      rw [← eq]
      exact mem_map_of_mem (mem_append_right _ om)

theorem Ranges.trim {beg : Nat} {pre post : List SpNode} (rs : Ranges (pre ++ n :: post))
    (start : n.start < beg) (ends : beg ≤ n.stop) : Ranges (pre ++ { n with stop := beg } :: post) where
  nonempty o mem := by
    rcases mem_append.mp mem with before | _ | inAfter
    · exact rs.append_left.nonempty o before
    · exact start
    · exact rs.append_right.tail.nonempty o ‹_›
  ordered := by
    refine pairwise_append.mpr ⟨rs.append_left.ordered, pairwise_cons.mpr ⟨?_, ?_⟩, ?_⟩
    · exact fun o mem => Nat.le_trans ends (rs.after_start o mem)
    · exact rs.append_right.tail.ordered
    · rintro o mem late (_ | inAfter)
      · exact rs.before_stop o mem
      · exact (pairwise_append.mp rs.ordered).2.2 o mem late (mem_cons_of_mem n ‹_›)
  distinct := by simpa using rs.distinct

/-! ## The loop over the nodes -/

section Loop

variable {lib : SearchTree.Balancer SpNode} {root : SpTree} {beg stop : Nat} {nNew : Option Nat}

theorem replaceLoop_behind {turns : Nat} {n : Option SpNode} (back : ∀ nd, n = some nd → stop ≤ nd.start)
    (fuel : 0 < turns) : replaceLoop lib beg stop nNew turns root n = .done root := by
  obtain ⟨turns, rfl⟩ := Nat.exists_eq_add_one_of_ne_zero (Nat.ne_zero_of_lt fuel)
  cases n with
  | none => rfl
  | some nd =>
    have after := back nd rfl
    simp [replaceLoop, Nat.not_lt.mpr after]

theorem replaceLoop_aligned {turns : Nat} {passed pd : List SpNode} (split : root.toList = passed ++ pd)
    (rs : Ranges root.toList) (even : ∀ n ∈ pd, beg ≤ n.start) (fuel : pd.length < turns) :
    ∃ post, replaceLoop lib beg stop nNew turns root pd.head? = .done post ∧
      post.toList = passed ++ carveRight stop pd := by
  induction pd generalizing turns root with
  | nil => exact ⟨root, replaceLoop_behind (by simp) fuel, split⟩
  | cons n tl ih =>
    obtain ⟨turns, rfl⟩ := Nat.exists_eq_add_one_of_ne_zero (Nat.ne_zero_of_lt fuel)
    have full : Ranges _ := split ▸ rs
    have enoughLeft : tl.length < turns := by simpa using fuel
    have next := next_of_split full split
    have begins := even n mem_cons_self
    rw [List.head?_cons, replaceLoop, carveRight, next]
    by_cases pre : n.start < stop
    · by_cases hi : n.stop ≤ stop
      · -- the node lies in the range and is deleted
        have gone := toList_erase_of_split full split lib
        have left : Ranges _ := Ranges.append full.append_left full.append_right.tail
          (fun a aMember b mem' => (pairwise_append.mp full.ordered).2.2 a aMember b (mem_cons_of_mem n mem'))
          (fun a aMember b mem' => full.distinct_append a aMember b (mem_cons_of_mem n mem'))
        obtain ⟨post, done, res⟩ := ih gone (gone ▸ left)
          (fun o mem => even o (mem_cons_of_mem n mem)) enoughLeft
        exact ⟨post, by simp [pre, begins, hi, done], by simp [pre, hi, res]⟩
      · -- the node begins in the range and ends behind it
        have hw := toList_writeNode_of_split (fun m => { m with start := stop }) full split
        refine ⟨writeNode root n fun m => { m with start := stop }, ?_, by simp [pre, hi, hw]⟩
        simp only [pre, begins, hi]
        apply replaceLoop_behind _ (Nat.zero_lt_of_lt enoughLeft)
        intro nd first
        have ord := full.after_start nd (mem_of_mem_head? first)
        omega
    · exact ⟨root, by simp [pre], by simp [pre, split]⟩

/-- A node that has its neighbours on both sides of it is put between them. -/
theorem spInsert_between {lefts rts : List SpNode} {new : SpNode} (split : root.toList = lefts ++ rts)
    (rs : Ranges root.toList) (full : new.start < new.stop) (left : ∀ n ∈ lefts, n.stop ≤ new.start)
    (right : ∀ n ∈ rts, new.stop ≤ n.start) :
    ∃ post, spInsert lib root new = some post ∧ post.toList = lefts ++ new :: rts := by
  have whole : Ranges _ := split ▸ rs
  obtain ⟨link, done, ord⟩ := @SearchTree.link_between SpNode (insertSide new) root new lefts rts split
    (fun n mem => by
      have ends := left n mem
      have never := whole.append_left.nonempty n mem
      rw [insertSide, if_neg (by omega), if_pos (by omega)])
    (fun n mem => by
      have start := right n mem
      rw [insertSide, if_pos (by omega)])
  exact ⟨lib.insertColor link, by simp [spInsert, done], by rw [lib.toList_insertColor, ord]⟩

variable {pre post : List SpNode} {n : SpNode}

/-- A node that spans the range is cut in two around it. -/
theorem Ranges.carved_split {adr : Nat} (rs : Ranges (pre ++ n :: post)) (low : beg < stop)
    (start : n.start < beg) (ends : stop < n.stop) (past : ∀ o ∈ pre, o.stop ≤ beg)
    (new : adr ∉ (pre ++ n :: post).map address) :
    Carved beg stop (some adr) (pre ++ n :: post) (pre ++ [{ n with stop := beg }])
      (⟨adr, stop, n.stop, n.policy⟩ :: post) := by
  have trims := rs.trim start (by omega)
  rw [append_cons] at trims
  have back := rs.after_start
  have left : ∀ o ∈ pre ++ [{ n with stop := beg }], o.stop ≤ beg := by
    simp only [forall_mem_append, forall_mem_singleton]
    exact ⟨past, Nat.le_refl beg⟩
  have right : ∀ o ∈ (⟨adr, stop, n.stop, n.policy⟩ : SpNode) :: post, stop ≤ o.start := by
    simp only [forall_mem_cons]
    exact ⟨Nat.le_refl stop, fun o mem => Nat.le_trans (Nat.le_of_lt ends) (back o mem)⟩
  have far : ∀ o ∈ pre ++ [{ n with stop := beg }] ++ post, o.address ≠ adr := by
    intro o mem eq
    have inList := mem_map_of_mem (f := address) mem
    rw [eq] at inList
    exact new (by simpa using inList)
  constructor
  case left => exact left
  case right => exact right
  case ranges =>
    exact trims.insert ends (fun o mem => Nat.le_trans (left o mem) (Nat.le_of_lt low)) back far
  case outside =>
    intro idx policy
    have before : MapsTo pre idx policy → idx < beg := MapsTo.idx_lt past
    have inAfter : MapsTo post idx policy → n.stop ≤ idx := MapsTo.le_idx back
    simp only [mapsTo_append, mapsTo_cons, mapsTo_nil, SpNode.Covers]
    grind
  case addresses =>
    grind

theorem splitSpanning_some {adr : Nat} (split : root.toList = pre ++ n :: post) (rs : Ranges root.toList)
    (low : beg < stop) (start : n.start < beg) (ends : stop < n.stop)
    (past : ∀ o ∈ pre, o.stop ≤ beg) (new : adr ∉ root.toList.map address) :
    ∃ res lefts rts, splitSpanning lib beg stop (some adr) root n = .done res ∧
      res.toList = lefts ++ rts ∧ Carved beg stop (some adr) root.toList lefts rts := by
  rw [split] at rs new ⊢
  have hw := toList_writeNode_of_split (fun m => { m with stop := beg }) rs split
  have trims := rs.trim start (by omega)
  rw [append_cons] at hw trims
  obtain ⟨res, adds, ord⟩ := @spInsert_between lib _ _ _ ⟨adr, stop, n.stop, n.policy⟩ hw
    (hw ▸ trims) ends
    (fun o mem => by
      rcases mem_append.mp mem with before | hn
      · have early := past o before
        change o.stop ≤ stop
        omega
      · cases mem_singleton.mp hn
        exact Nat.le_of_lt low)
    (fun o mem => rs.after_start o mem)
  exact ⟨res, _, _, by rw [splitSpanning, adds], ord, rs.carved_split low start ends past new⟩

theorem carveRight_of_behind {nds : List SpNode} (back : ∀ n ∈ nds, stop ≤ n.start) : carveRight stop nds = nds := by
  cases nds with
  | nil => rfl
  | cons n _ => rw [carveRight, if_neg (Nat.not_lt.mpr (back n mem_cons_self))]

theorem Ranges.exists_split {nds : List SpNode} (rs : Ranges nds) (far : ∀ n ∈ nds, n.stop ≤ beg ∨ stop ≤ n.start) :
    ∃ lefts rts, nds = lefts ++ rts ∧ (∀ n ∈ lefts, n.stop ≤ beg) ∧ ∀ n ∈ rts, stop ≤ n.start := by
  induction nds with
  | nil => exact ⟨[], [], rfl, by simp, by simp⟩
  | cons n tl ih =>
    cases far n mem_cons_self with
    | inl ends =>
      obtain ⟨lefts, rts, rfl, left, right⟩ :=
        ih rs.tail fun o mem => far o (mem_cons_of_mem n mem)
      exact ⟨n :: lefts, rts, rfl, forall_mem_cons.mpr ⟨ends, left⟩, right⟩
    | inr start =>
      have full := rs.nonempty n mem_cons_self
      refine ⟨[], n :: tl, rfl, by simp, forall_mem_cons.mpr ⟨start, fun o mem => ?_⟩⟩
      have ord := rs.rest_start o mem
      omega

/-- The first node begins before the range and ends in it. -/
theorem Ranges.carved_trim (rs : Ranges (pre ++ n :: post)) (low : beg < stop) (start : n.start < beg)
    (open_ : beg < n.stop) (ends : n.stop ≤ stop) (past : ∀ o ∈ pre, o.stop ≤ beg) :
    Carved beg stop nNew (pre ++ n :: post) (pre ++ [{ n with stop := beg }])
      (Mm.carveRight stop post) := by
  have trims := rs.trim start (Nat.le_of_lt open_)
  rw [append_cons] at trims
  have back := rs.after_start
  have cut := trims.carved (Nat.le_of_lt low)
    (by simp only [forall_mem_append, forall_mem_singleton]; exact ⟨past, Nat.le_refl beg⟩)
    (fun o mem => Nat.le_trans (Nat.le_of_lt open_) (back o mem)) nNew
  exact { cut with
    outside := fun _ _ => by
      rw [cut.outside]
      simp only [mapsTo_append, mapsTo_cons, mapsTo_nil, SpNode.Covers]
      grind
    addresses := by simpa using cut.addresses }

/-- A node reaches beyond the range on both sides. -/
def Spanned (beg stop : Nat) (nds : List SpNode) : Prop := ∃ n ∈ nds, n.start < beg ∧ stop < n.stop

theorem Ranges.spanned_iff (rs : Ranges (pre ++ n :: post)) (ended : ∀ o ∈ pre, o.stop ≤ beg) (open_ : beg < n.stop)
    (lt : beg < stop) : Spanned beg stop (pre ++ n :: post) ↔ n.start < beg ∧ stop < n.stop := by
  constructor
  · rintro ⟨o, mem, before, behind⟩
    rcases mem_append.mp mem with early | _ | late
    · have ends := ended o early
      omega
    · exact ⟨before, behind⟩
    · have ord := rs.after_start o ‹_›
      omega
  · exact fun spans => ⟨n, by simp, spans⟩

/-- Room is made for the range, unless that takes a node that is not there; then nothing
    has changed yet, since only the first node can span the range. -/
theorem replaceLoop_carves (rs : Ranges root.toList) (low : beg < stop)
    (new : ∀ adr, nNew = some adr → adr ∉ root.toList.map address) :
    let pass := replaceLoop lib beg stop nNew (root.toList.length + 1) root (spLookup root beg stop)
    (nNew = none ∧ pass = .allocNew root ∧ Spanned beg stop root.toList) ∨
      ∃ post lefts rts, pass = .done post ∧ post.toList = lefts ++ rts ∧
        Carved beg stop nNew root.toList lefts rts ∧ (nNew = none → ¬ Spanned beg stop root.toList) := by
  intro pass
  cases hf : spLookup root beg stop with
  | none =>
    have far := spLookup_none rs hf
    obtain ⟨lefts, rts, split, left, right⟩ := rs.exists_split far
    have cut := (split ▸ rs).carved (Nat.le_of_lt low) left
      (fun n mem => Nat.le_trans (Nat.le_of_lt low) (right n mem)) nNew
    rw [carveRight_of_behind right, ← split] at cut
    refine Or.inr ⟨root, lefts, rts, by simp [pass, hf, replaceLoop], split, cut, fun _ => ?_⟩
    rintro ⟨n, mem, before, behind⟩
    have apart := far n mem
    omega
  | some n =>
    obtain ⟨pre, post, split, past, open_, gets⟩ := spLookup_some rs hf
    have full : Ranges _ := split ▸ rs
    have long : root.toList.length = pre.length + (post.length + 1) := by simp [split]
    have spanned := split ▸ full.spanned_iff past open_ low
    by_cases even : beg ≤ n.start
    · -- no node begins before the range
      right
      have alignedAll : ∀ o ∈ n :: post, beg ≤ o.start := by
        refine forall_mem_cons.mpr ⟨even, fun o mem => ?_⟩
        have ord := full.after_start o mem
        omega
      obtain ⟨res, done, ord⟩ := @replaceLoop_aligned lib root beg stop nNew (root.toList.length + 1)
        pre _ split rs alignedAll (by rw [length_cons]; omega)
      exact ⟨res, pre, carveRight stop _, by simp only [pass, hf, ← done, List.head?_cons], ord,
        split ▸ full.carved (Nat.le_of_lt low) past alignedAll nNew, fun _ spans => by have := spanned.mp spans; omega⟩
    · -- the first node begins before the range: it is split, or its end is cut off
      have start := Nat.lt_of_not_le even
      have step : pass = if stop < n.stop then splitSpanning lib beg stop nNew root n
          else replaceLoop lib beg stop nNew root.toList.length
            (writeNode root n fun m => { m with stop := beg }) post.head? := by
        simp only [pass, hf, replaceLoop, gets, even, if_true, if_false, next_of_split full split]
      by_cases spans : stop < n.stop
      · rw [if_pos spans] at step
        cases nNew with
        | none => exact Or.inl ⟨rfl, step, spanned.mpr ⟨start, spans⟩⟩
        | some adr =>
          rw [step]
          obtain ⟨res, lefts, rts, done, ord, cut⟩ := splitSpanning_some split rs low start spans past (new adr rfl)
          exact Or.inr ⟨res, lefts, rts, done, ord, cut, nofun⟩
      · right
        rw [if_neg spans] at step
        have hw := toList_writeNode_of_split (fun m => { m with stop := beg }) full split
        have trims := full.trim start (Nat.le_of_lt open_)
        rw [append_cons] at hw trims
        obtain ⟨res, done, ord⟩ := @replaceLoop_aligned lib _ beg stop nNew root.toList.length _ post
          hw (hw ▸ trims)
          (fun o mem => Nat.le_trans (Nat.le_of_lt open_) (full.after_start o mem))
          (by omega)
        exact ⟨res, _, _, step.trans done, ord, split ▸ full.carved_trim low start open_ (Nat.le_of_not_lt spans) past,
          fun _ both => spans (spanned.mp both).2⟩

end Loop

/-! ## Replacing a range -/

/-- The indices from `beg` to `stop` have the policy, and the others what they had; the
    nodes are at addresses below `bound`. -/
structure Replaced (beg stop : Nat) (policy : Option Mempolicy) (bound : Nat) (old new : List SpNode) : Prop where
  ranges : Ranges new
  maps : ∀ idx p, MapsTo new idx p ↔
    (beg ≤ idx ∧ idx < stop ∧ policy = some p) ∨ ((idx < beg ∨ stop ≤ idx) ∧ MapsTo old idx p)
  allocated : ∀ n ∈ new, n.address < bound

section Replace

variable {lib : SearchTree.Balancer SpNode} {root : SpTree} {beg stop adr : Nat} {new : Option SpNode}
  {nNew : Option Nat} {old lefts rts : List SpNode}

section

variable (cut : Carved beg stop nNew old lefts rts) (al : ∀ n ∈ old, n.address < adr)
  (spare : ∀ other, nNew = some other → other = adr + 1)
include cut al spare

/-- The nodes are old ones or `n_new`. -/
theorem Carved.address_cases : ∀ n ∈ lefts ++ rts, n.address < adr ∨ n.address = adr + 1 := by
  intro n mem
  cases cut.addresses n mem with
  | inl kept =>
    obtain ⟨o, om, eq⟩ := mem_map.mp kept
    exact Or.inl (eq ▸ al o om)
  | inr new => exact Or.inr (spare n.address new.symm)

theorem Carved.replaced : Replaced beg stop none (adr + 2) old (lefts ++ rts) where
  ranges := cut.ranges
  maps idx p := by simpa using cut.outside idx p
  allocated n mem := by
    have cases_ := cut.address_cases al spare n mem
    omega

end

theorem Carved.replaced_insert (cut : Carved nd.start nd.stop nNew old lefts rts)
    (full : nd.start < nd.stop) (al : ∀ n ∈ old, n.address < nd.address)
    (spare : ∀ o, nNew = some o → o = nd.address + 1) :
    Replaced nd.start nd.stop (some nd.policy) (nd.address + 2) old (lefts ++ nd :: rts) := by
  have ads := cut.address_cases al spare
  have far : ∀ n ∈ lefts ++ rts, n.address ≠ nd.address := by
    intro n mem
    have cases_ := ads n mem
    omega
  constructor
  case ranges => exact cut.ranges.insert full cut.left cut.right far
  case maps =>
    intro idx p
    have past := cut.outside idx p
    simp only [mapsTo_append, mapsTo_cons, SpNode.Covers] at past ⊢
    grind
  case allocated =>
    intro n mem
    rcases mem_append.mp mem with inLefts | _ | inRights
    · have cases_ := ads n (mem_append_left rts inLefts)
      omega
    · omega
    · have cases_ := ads n (mem_append_right lefts ‹_›)
      omega

def Placed (beg stop adr : Nat) (new : Option SpNode) : Prop :=
  ∀ nd, new = some nd → nd.start = beg ∧ nd.stop = stop ∧ nd.address = adr

theorem replacePass_replaces (rs : Ranges root.toList) (low : beg < stop)
    (alloc : ∀ n ∈ root.toList, n.address < adr) (put : Placed beg stop adr new)
    (spare : ∀ o, nNew = some o → o = adr + 1) :
    (nNew = none ∧ replacePass lib beg stop new nNew root = .allocNew root) ∨
      ∃ post, replacePass lib beg stop new nNew root = .done post ∧
        Replaced beg stop (new.map SpNode.policy) (adr + 2) root.toList post.toList := by
  have fresh : ∀ o, nNew = some o → o ∉ root.toList.map address := by
    intro o isSpare mem
    obtain ⟨n, hn, _⟩ := mem_map.mp mem
    have less := alloc n hn
    have past := spare o isSpare
    omega
  rw [replacePass]
  rcases @replaceLoop_carves lib root beg stop nNew rs low fresh with
    ⟨none_, al, -⟩ | ⟨carvedTree, lefts, rts, done, split, cut, -⟩
  · rw [al]
    exact Or.inl ⟨none_, rfl⟩
  · rw [done]
    right
    cases new with
    | none => exact ⟨carvedTree, rfl, split ▸ cut.replaced alloc spare⟩
    | some nd =>
      obtain ⟨rfl, rfl, rfl⟩ := put nd rfl
      obtain ⟨post, adds, ord⟩ := @spInsert_between lib carvedTree lefts rts nd split
        (split ▸ cut.ranges) low cut.left cut.right
      exact ⟨post, by simp [adds], ord ▸ cut.replaced_insert low alloc spare⟩

/-- The call makes the replacement, or it fails and the tree is as it was. -/
theorem sharedPolicyReplace_replaces (c : SetCall) (rs : Ranges root.toList) (ranges : beg < stop)
    (alloc : ∀ n ∈ root.toList, n.address < adr) (put : Placed beg stop adr new) :
    ∃ post err, sharedPolicyReplace lib c beg stop new (adr + 1) root = some (post, err) ∧
      ((err = 0 ∧ Replaced beg stop (new.map SpNode.policy) (adr + 2) root.toList post.toList) ∨
        (err = -ENOMEM ∧ post = root)) := by
  rw [sharedPolicyReplace]
  rcases @replacePass_replaces lib root beg stop adr new none rs ranges alloc put (by simp) with
    ⟨-, al⟩ | ⟨post, done, swap⟩
  · rw [al]
    by_cases memory : (c.newSnAlloc && c.newPolicyAlloc) = true
    · rcases @replacePass_replaces lib root beg stop adr new (some (adr + 1)) rs ranges alloc
        put (by simp) with ⟨absurd_, -⟩ | ⟨post, done, swap⟩
      · cases absurd_
      · exact ⟨post, 0, by simp [memory, done], Or.inl ⟨rfl, swap⟩⟩
    · exact ⟨root, -ENOMEM, by simp [memory], Or.inr ⟨rfl, rfl⟩⟩
  · exact ⟨post, 0, by simp [done], Or.inl ⟨rfl, swap⟩⟩

end Replace

/-! ## A history of calls -/

/-- A call, and the value it returns. -/
def SetStep (lib : SearchTree.Balancer SpNode) (pre : SharedPolicy) (ent : SetCall × Int)
    (post : SharedPolicy) : Prop :=
  mpolSetSharedPolicy lib pre ent.1 = some (post, ent.2)

def SetCall.Covers (c : SetCall) (idx : Nat) : Prop := c.vmPgoff ≤ idx ∧ idx < c.vmPgoff + c.vmaPages

instance (c : SetCall) (idx : Nat) : Decidable (c.Covers idx) := inferInstanceAs (Decidable (_ ∧ _))

/-- What a call keeps of a policy: the copy of `mpol_dup`, marked as shared. -/
def SetCall.copy (c : SetCall) (policy : Mempolicy) : Mempolicy :=
  let newpol := c.rebind.getD id policy
  { newpol with flags := newpol.flags ||| MPOL_F_SHARED }

/-- The copy made by the last successful call whose range contains the index. -/
def lastSet (idx : Nat) (log : List (SetCall × Int)) : Option Mempolicy :=
  (log.reverse.find? fun (c, err) => err = 0 ∧ c.Covers idx).bind fun (c, _) => c.npol.map c.copy

theorem lastSet_snoc (idx : Nat) (log : List (SetCall × Int)) (c : SetCall) (err : Int) :
    lastSet idx (log ++ [(c, err)]) = if err = 0 ∧ c.Covers idx then c.npol.map c.copy else lastSet idx log := by
  rw [lastSet]
  by_cases cover : err = 0 ∧ c.Covers idx
  · simp [cover]
  · simp [cover, lastSet]

theorem lastSet_lt {log : List (SetCall × Int)} (set : lastSet idx log = some policy) : idx + 1 < 2 ^ 64 := by
  obtain ⟨⟨c, err⟩, found, -⟩ := Option.bind_eq_some_iff.mp set
  have cover : err = 0 ∧ c.Covers idx := by simpa using List.find?_some found
  have low := cover.2.2
  have cap := c.noOverflow
  omega

structure SharedPolicy.Sound (sp : SharedPolicy) (log : List (SetCall × Int)) : Prop where
  ranges : Ranges sp.root.toList
  allocated : ∀ n ∈ sp.root.toList, n.address < sp.nextAddress
  maps : ∀ idx policy, MapsTo sp.root.toList idx policy ↔ lastSet idx log = some policy

/-- A node that contains the index is the one that is looked up. -/
theorem spLookup_covering {root : SpTree} (rs : Ranges root.toList) :
    (spLookup root idx (idx + 1)).map SpNode.policy = some policy ↔ MapsTo root.toList idx policy := by
  cases hf : spLookup root idx _ with
  | none =>
    have far := spLookup_none rs hf
    have nowhere : ¬ MapsTo root.toList idx policy := by
      rintro ⟨n, mem, cover, -⟩
      have side := far n mem
      rw [SpNode.Covers] at cover
      omega
    simp [nowhere]
  | some n =>
    obtain ⟨pre, post, split, past, open_, gets⟩ := spLookup_some rs hf
    have full : Ranges _ := split ▸ rs
    have after : ¬ MapsTo pre idx policy := fun maps => Nat.lt_irrefl idx (maps.idx_lt past)
    have notAfter : ¬ MapsTo post idx policy := by
      intro maps
      have back := maps.le_idx full.after_start
      omega
    have cover : n.Covers idx := ⟨Nat.le_of_lt_succ gets, open_⟩
    simp [split, after, notAfter, cover]

theorem SharedPolicy.Sound.lookup {sp : SharedPolicy} {log : List (SetCall × Int)} (hs : sp.Sound log)
    (small : idx < 2 ^ 64) : mpolSharedPolicyLookup sp idx = lastSet idx log := by
  have look : mpolSharedPolicyLookup sp idx = (spLookup sp.root idx ((idx + 1) % 2 ^ 64)).map policy := by
    rw [mpolSharedPolicyLookup]
    split
    next emp => simp [emp, spLookup, SearchTree.find]
    next => rfl
  rw [look]
  by_cases last : idx + 1 = 2 ^ 64
  · -- the sum wraps to 0, which no node begins before
    have nt : spLookup sp.root idx 0 = none := by
      cases hf : spLookup sp.root idx 0 with
      | none => rfl
      | some n =>
        obtain ⟨_, _, _, _, _, gets⟩ := spLookup_some hs.ranges hf
        exact absurd gets (Nat.not_lt_zero _)
    have never : lastSet idx log = none := by
      cases set : lastSet idx log with
      | none => rfl
      | some policy => exact absurd (lastSet_lt set) (by omega)
    rw [last, Nat.mod_self, nt, never]
    rfl
  · rw [Nat.mod_eq_of_lt (by omega)]
    apply Option.ext
    intro policy
    rw [spLookup_covering hs.ranges, hs.maps]

section History

variable {lib : SearchTree.Balancer SpNode} {sp : SharedPolicy} {log : List (SetCall × Int)} {c : SetCall}

theorem SharedPolicy.Sound.replaced {root : SpTree} (hs : sp.Sound log)
    (gets : Replaced c.vmPgoff (c.vmPgoff + c.vmaPages) (c.npol.map c.copy) (sp.nextAddress + 2) sp.root.toList
      root.toList) :
    SharedPolicy.Sound ⟨root, sp.nextAddress + 2⟩ (log ++ [(c, 0)]) where
  ranges := gets.ranges
  allocated := gets.allocated
  maps idx policy := by
    rw [gets.maps, hs.maps, lastSet_snoc]
    simp only [SetCall.Covers, true_and]
    split
    next cover =>
      constructor
      · rintro (⟨_, _, said⟩ | ⟨past, _⟩)
        · exact said
        · omega
      · exact fun said => Or.inl ⟨cover.1, cover.2, said⟩
    next past =>
      constructor
      · rintro (⟨high, low, _⟩ | ⟨_, set⟩)
        · exact absurd ⟨high, low⟩ past
        · exact set
      · exact fun set => Or.inr ⟨by omega, set⟩

theorem SharedPolicy.Sound.failed {nextAddress : Nat} (hs : sp.Sound log) (hg : sp.nextAddress ≤ nextAddress) :
    SharedPolicy.Sound ⟨sp.root, nextAddress⟩ (log ++ [(c, -ENOMEM)]) where
  ranges := hs.ranges
  allocated n mem := Nat.lt_of_lt_of_le (hs.allocated n mem) hg
  maps idx policy := by
    rw [lastSet_snoc]
    exact hs.maps idx policy

theorem spAlloc_some {adr beg stop : Nat} {pol : Mempolicy} {new : SpNode}
    (al : spAlloc c adr beg stop pol = some new) : new = ⟨adr, beg, stop, c.copy pol⟩ := by
  rw [spAlloc, mpolDup] at al
  cases rebinding : c.rebind <;> simp_all [SetCall.copy]

/-- Every call returns; it has set the range, or it has changed nothing. -/
theorem SharedPolicy.Sound.set (hs : sp.Sound log) (c : SetCall) :
    ∃ post err, mpolSetSharedPolicy lib sp c = some (post, err) ∧ post.Sound (log ++ [(c, err)]) ∧
      (err = 0 ∨ err = -ENOMEM ∧ post.root = sp.root) := by
  have low : c.vmPgoff < c.vmPgoff + c.vmaPages := Nat.lt_add_of_pos_right c.nonempty
  have replace : ∀ new : Option SpNode, Placed c.vmPgoff (c.vmPgoff + c.vmaPages) sp.nextAddress new →
      new.map policy = c.npol.map c.copy → ∃ post err, (sharedPolicyReplace lib c c.vmPgoff (c.vmPgoff + c.vmaPages) new
          (sp.nextAddress + 1) sp.root).map (fun ret => (⟨ret.1, sp.nextAddress + 2⟩, ret.2)) =
            some ((post : SharedPolicy), err) ∧
        post.Sound (log ++ [(c, err)]) ∧ (err = 0 ∨ err = -ENOMEM ∧ post.root = sp.root) := by
    intro new put said
    obtain ⟨root, err, ret, ⟨rfl, gets⟩ | ⟨rfl, rfl⟩⟩ :=
      @sharedPolicyReplace_replaces lib sp.root _ _ sp.nextAddress new c hs.ranges low hs.allocated put
    · rw [said] at gets
      exact ⟨_, 0, by rw [ret]; rfl, hs.replaced gets, Or.inl rfl⟩
    · exact ⟨_, -ENOMEM, by rw [ret]; rfl, hs.failed (Nat.le_add_right _ 2), Or.inr ⟨rfl, rfl⟩⟩
  rw [mpolSetSharedPolicy]
  cases said : c.npol with
  | none => exact replace none (by simp [Placed]) (by simp [said])
  | some _ =>
    dsimp only
    split
    next => exact ⟨sp, -ENOMEM, rfl, hs.failed (Nat.le_refl _), Or.inr ⟨rfl, rfl⟩⟩
    next new al =>
      cases spAlloc_some al
      exact replace _ (by simp [Placed]) (by simp [said])

theorem SharedPolicy.sound_empty : empty.Sound [] where
  ranges := ⟨by simp [empty], by simp [empty], by simp [empty]⟩
  allocated := by simp [empty]
  maps := by simp [empty, lastSet]

theorem SharedPolicy.sound_of_run (run : Run (SetStep lib) empty log sp) : sp.Sound log := by
  induction run with
  | nil => exact sound_empty
  | @snoc log entry pre _ _ ht ih =>
    obtain ⟨_, _, ret, hs, -⟩ := @SharedPolicy.Sound.set lib pre log ih entry.1
    cases ht.symm.trans ret
    exact hs

end History

/-- The nodes are ranges that are not empty, pairwise disjoint and in order. -/
def SharedPolicy.InOrder (sp : SharedPolicy) : Prop :=
  (∀ n ∈ sp.root.toList, n.start < n.stop) ∧ sp.root.toList.Pairwise fun early late => early.stop ≤ late.start

/-- After any calls the ranges are in order, each index has what the last successful call
    for it set, and the next call reaches no `BUG()` and changes nothing if it fails. -/
theorem shared_policies_as_last_set (lib : SearchTree.Balancer SpNode) (log : List (SetCall × Int))
    (sp : SharedPolicy) (run : Run (SetStep lib) empty log sp) :
    sp.InOrder ∧ (∀ idx < 2 ^ 64, mpolSharedPolicyLookup sp idx = lastSet idx log) ∧
      ∀ c, ∃ post err, mpolSetSharedPolicy lib sp c = some (post, err) ∧
        (err = 0 ∨ err = -ENOMEM ∧ post.root = sp.root) := by
  have sound := sound_of_run run
  refine ⟨⟨sound.ranges.nonempty, sound.ranges.ordered⟩, fun idx small => sound.lookup small, fun c => ?_⟩
  obtain ⟨post, err, ret, -, out⟩ := sound.set c
  exact ⟨post, err, ret, out⟩

/-- A call in which every allocation succeeds and the cpuset stays. -/
def SetCall.plain (vmPgoff vmaPages : Nat) (npol : Option Mempolicy) (nonempty : 0 < vmaPages)
    (noOverflow : vmPgoff + vmaPages < 2 ^ 64) : SetCall :=
  ⟨vmPgoff, vmaPages, npol, true, true, none, true, true, nonempty, noOverflow⟩

def bindNodes : Mempolicy := ⟨MPOL_BIND, 0, 0, 3, 0⟩

/-- The first ten pages are bound to two nodes. -/
def bindTen : SetCall := .plain 0 10 (some bindNodes) (by decide) (by decide)

/-- Two pages in the middle have no policy any more. -/
def clearTwo : SetCall := .plain 4 2 none (by decide) (by decide)

/-- The copy that is looked up has another flag than the policy that was set. -/
theorem shared_policy_differs :
    ∃ sp copy, mpolSetSharedPolicy SearchTree.Balancer.unbalanced empty bindTen = some (sp, 0) ∧
      mpolSharedPolicyLookup sp 5 = some copy ∧ mpolEqual copy bindNodes = some false :=
  ⟨_, _, rfl, rfl, by decide⟩

theorem shared_policies_as_last_set_split :
    ∃ sp, Run (SetStep SearchTree.Balancer.unbalanced) empty [(bindTen, 0), (clearTwo, 0)] sp ∧
      sp.InOrder ∧ mpolSharedPolicyLookup sp 3 = some (bindTen.copy bindNodes) ∧
      mpolSharedPolicyLookup sp 5 = none := by
  have run : ∃ sp, Run (SetStep SearchTree.Balancer.unbalanced) empty [(bindTen, 0), (clearTwo, 0)] sp :=
    ⟨_, .cons rfl (.cons rfl .nil)⟩
  obtain ⟨sp, run⟩ := run
  obtain ⟨inOrder, lookup, -⟩ := shared_policies_as_last_set _ _ _ run
  exact ⟨sp, run, inOrder, lookup 3 (by decide), lookup 5 (by decide)⟩

end Aosp.Mm
