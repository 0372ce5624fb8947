import Aosp.Kernel.PidMap
import Mathlib.Data.List.Intervals

/-! # The number that is allocated

The search of `alloc_pidmap` when pages can be had: it goes through the numbers after
`last_pid`, then through those from `RESERVED_PIDS` on, and takes the first free one
(`alloc_pidmap_first_free`), unless `last_pid` is `RESERVED_PIDS`: the second part is then
skipped, and this may be the only free number (`alloc_pidmap_skips_reserved`).
-/

namespace Aosp.Kernel

open Aosp.Lib List Option

variable {sz : PageBits} {e : MapEnv} {idx off last : Nat} {pidmap : Nat → Pidmap} {nums : Bitmap}

theorem mkPid_count (sz : PageBits) (idx : Nat) : mkPid sz idx sz.count = mkPid sz (idx + 1) 0 := by
  rw [mkPid, mkPid, Nat.add_one_mul, Nat.add_zero]

/-- A search through the numbers of a page is one through its bits. -/
theorem find?_page {bits : Bitmap} (eq : ∀ bit < sz.count, nums (mkPid sz idx bit) = bits bit)
    (off : Nat) : (Ico (mkPid sz idx off) (mkPid sz (idx + 1) 0)).find? nums =
      ((Ico off sz.count).find? bits).map (mkPid sz idx) := by
  rw [← mkPid_count, mkPid, mkPid, Nat.add_comm _ off, Nat.add_comm _ sz.count, ← Ico.map_add, find?_map,
    ← head?_filter, ← head?_filter]
  have agree := filter_congr fun bit (mem : bit ∈ Ico off sz.count) => eq bit (Ico.mem.mp mem).2
  exact congrArg (fun hf => hf.head?.map (mkPid sz idx)) agree

/-- The loop over one page finds the first of its free numbers below `pid_max`. -/
theorem scanPage_find? {page : Bitmap} (eq : ∀ bit < sz.count, nums (mkPid sz idx bit) = !page bit)
    (hi : off < sz.count) (below : mkPid sz idx off < e.pidMax) :
    (scanPage sz e.pidMax idx page sz.count off (mkPid sz idx off)).map Prod.snd =
      (Ico (mkPid sz idx off) (min (mkPid sz (idx + 1) 0) e.pidMax)).find? nums := by
  obtain ⟨turns, fuel⟩ : ∃ turns, sz.count = turns + 2 :=
    ⟨sz.count - 2, by have := sz.reserved; rw [RESERVED_PIDS] at this; omega⟩
  have calm := @scanPage_settled sz e.pidMax idx page turns off (mkPid sz idx off)
  have paged := find?_page eq off
  have upper : mkPid sz idx off < mkPid sz (idx + 1) 0 := by
    rw [← mkPid_count]
    exact Nat.add_lt_add_left hi _
  rw [← Ico.append_consecutive (show _ ≤ min (mkPid sz (idx + 1) 0) e.pidMax by omega) (by omega),
    find?_append] at paged
  rw [← fuel, Bitmap.findNextZeroBit, ← Ico] at calm
  rw [calm]
  split
  next pure => rw [Ico.eq_cons (by omega), find?_cons_of_pos (by simp [eq, hi, pure]), map_some]
  next =>
    cases hf : (Ico off sz.count).find? _ with
    | none =>
      rw [hf, map_none, or_eq_none_iff] at paged
      simp [paged.1]
    | some bit =>
      have inPage : ¬ sz.count ≤ bit := by simpa using (Ico.mem.mp (mem_of_find?_eq_some hf)).2
      rw [hf] at paged
      cases low : (Ico _ _).find? nums with
      | some nr =>
        have := Ico.mem.mp (mem_of_find?_eq_some low)
        rw [low] at paged
        cases paged
        have : ¬ e.pidMax ≤ mkPid sz idx bit := by omega
        simp [inPage, this]
      | none =>
        rw [low] at paged
        have := Ico.mem.mp (mem_of_find?_eq_some paged)
        have : e.pidMax ≤ mkPid sz idx bit := by omega
        simp [this]

variable (sz e last) in
/-- The numbers that the loop over the maps looks at. -/
def visited : Nat → Nat → Nat → List Nat
  | 0, _, _ => []
  | turns + 1, idx, off =>
    Ico (mkPid sz idx off) (min (mkPid sz (idx + 1) 0) e.pidMax) ++
      if idx < (e.pidMax - 1) / sz.count then visited turns (idx + 1) 0
      else if last = RESERVED_PIDS then [] else visited turns 0 RESERVED_PIDS

def Counted (sz : PageBits) (pidmap : Nat → Pidmap) : Prop :=
  ∀ map, (pidmap map).nrFree = (pidmap map).bits.zeros sz.count

theorem next_below (more : idx < (e.pidMax - 1) / sz.count) : mkPid sz (idx + 1) 0 < e.pidMax := by
  have := e.pidMaxMin
  exact Nat.lt_of_le_pred (by omega) ((Nat.le_div_iff_mul_le sz.pos).mp more)

theorem reserved_below : mkPid sz 0 RESERVED_PIDS < e.pidMax := by
  rw [mkPid, Nat.zero_mul]
  exact e.pidMaxMin

theorem scanMaps_find? (nums : Bitmap) (last : Nat) (granted : ∀ map, e.kzalloc map = true) (hc : Counted sz pidmap)
    (eq : ∀ map, ∀ bit < sz.count, nums (mkPid sz map bit) = !(pidmap map).bits bit) (turns : Nat)
    (hi : off < sz.count) (low : mkPid sz idx off < e.pidMax) :
    (scanMaps sz e last turns idx off (mkPid sz idx off) pidmap).2 = (visited sz e last turns idx off).find? nums := by
  induction turns generalizing idx off pidmap with
  | zero => rfl
  | succ turns ih =>
    have kept := fun map => installPage_apply e.kzalloc idx map pidmap
    obtain ⟨page, hp⟩ : ∃ page, (installPage e.kzalloc idx pidmap idx).page = some page := by
      rw [installPage, granted]
      cases ha : (pidmap idx).page <;> simp [ha]
    rw [scanMaps, visited, find?_append]
    generalize installPage e.kzalloc idx pidmap = installed at *
    replace hc : Counted sz installed := fun map => by rw [(kept map).1, (kept map).2, hc]
    simp only [← (kept _).1] at eq
    have bits : (installed idx).bits = page := by rw [Pidmap.bits, hp, getD_some]
    -- a page that counts no clear bits has none
    have ht : (if (installed idx).nrFree ≠ 0 then
        scanPage sz e.pidMax idx page sz.count off (mkPid sz idx off) else none).map Prod.snd =
          (Ico (mkPid sz idx off) (min (mkPid sz (idx + 1) 0) e.pidMax)).find? nums := by
      rw [← scanPage_find? (bits ▸ eq idx) hi low]
      split
      next => rfl
      next full =>
        rw [hc, bits, Bitmap.zeros, not_not, Finset.card_eq_zero, Finset.filter_eq_empty_iff] at full
        cases hit : scanPage sz e.pidMax idx page sz.count off _ with
        | none => rfl
        | some hit =>
          obtain ⟨inPage, pure, -⟩ := scanPage_some hi rfl hit
          exact absurd pure (full (Finset.mem_range.mpr inPage))
    simp only [hp]
    rw [← ht]
    generalize (if (installed idx).nrFree ≠ 0 then
        scanPage sz e.pidMax idx page sz.count off _ else none) = res
    cases res with
    | some hit => rfl
    | none =>
      dsimp only [map_none]
      split
      next more => exact ih hc eq sz.pos (next_below more)
      next =>
        split
        next => rfl
        next => exact ih hc eq sz.reserved reserved_below

/-- Turns that go up from map to map look at numbers that follow one another. -/
theorem visited_up (turns more : Nat) (top : idx + more ≤ (e.pidMax - 1) / sz.count) (hi : off < sz.count) :
    visited sz e last (turns + more + 1) idx off =
      Ico (mkPid sz idx off) (min (mkPid sz (idx + more + 1) 0) e.pidMax) ++
        if idx + more < (e.pidMax - 1) / sz.count then visited sz e last turns (idx + more + 1) 0
        else if last = RESERVED_PIDS then [] else visited sz e last turns 0 RESERVED_PIDS := by
  induction more generalizing idx off with
  | zero => rfl
  | succ more ih =>
    have next := next_below (show idx < (e.pidMax - 1) / sz.count by omega)
    have mono : mkPid sz (idx + 1) 0 ≤ mkPid sz (idx + 1 + more + 1) 0 :=
      Nat.add_le_add_right (Nat.mul_le_mul_right _ (by omega)) _
    have lower : mkPid sz idx off ≤ mkPid sz (idx + 1) 0 := by
      rw [← mkPid_count]
      exact Nat.add_le_add_left hi.le _
    have up := @ih (idx + 1) 0 (by omega) sz.pos
    rw [← Nat.add_assoc, visited, if_pos (by omega), up, min_eq_left next.le, ← append_assoc,
      Ico.append_consecutive lower (le_min mono next.le), show idx + (more + 1) = idx + 1 + more by omega]

/-- The numbers from the first one on, then those from `RESERVED_PIDS` to a map that reaches
    the first one. -/
theorem visited_twice (last : Nat) (hi : off < sz.count) (pos : 0 < mkPid sz idx off)
    (low : mkPid sz idx off < e.pidMax) :
    ∃ stop, mkPid sz idx off ≤ stop ∧ RESERVED_PIDS ≤ stop ∧ stop ≤ e.pidMax ∧
      visited sz e last ((e.pidMax + sz.count - 1) / sz.count - (if off = 0 then 1 else 0) + 1) idx
          off = Ico (mkPid sz idx off) e.pidMax ++ if last = RESERVED_PIDS then [] else Ico RESERVED_PIDS stop := by
  have num : mkPid sz idx off = idx * sz.count + off := rfl
  obtain ⟨more, top⟩ : ∃ more, (e.pidMax - 1) / sz.count = idx + more :=
    Nat.exists_eq_add_of_le ((Nat.le_div_iff_mul_le sz.pos).mpr (by omega))
  have mapsEnd : (e.pidMax + sz.count - 1) / sz.count = idx + more + 1 := by
    rw [← top, ← Nat.add_div_right _ sz.pos]
    congr 1
    omega
  have met : e.pidMax ≤ mkPid sz (idx + more + 1) 0 := by
    have := Nat.lt_mul_div_succ (e.pidMax - 1) sz.pos
    rw [Nat.mul_comm, top] at this
    rw [mkPid]
    omega
  obtain ⟨again, turns, cover⟩ : ∃ again, (e.pidMax + sz.count - 1) / sz.count -
      (if off = 0 then 1 else 0) + 1 = again + 1 + more + 1 ∧ mkPid sz idx off ≤ mkPid sz (again + 1) 0 := by
    split
    next first =>
      cases idx with
      | zero => simp [first, mkPid] at pos
      | succ again => exact ⟨again, by omega, by rw [first]⟩
    next =>
      refine ⟨idx, by omega, ?_⟩
      rw [← mkPid_count]
      exact Nat.add_le_add_left hi.le _
  have reserved : RESERVED_PIDS ≤ mkPid sz (again + 1) 0 :=
    sz.reserved.le.trans (Nat.le_mul_of_pos_left _ (by omega))
  have minimum := e.pidMaxMin
  refine ⟨min (mkPid sz (again + 1) 0) e.pidMax, by omega, by omega, min_le_right _ _, ?_⟩
  rw [turns, visited_up _ more top.ge hi, min_eq_right met, if_neg (by omega)]
  split
  next => rfl
  next o =>
    have up := @visited_up sz e 0 _ last 0 again (by omega) sz.reserved
    simpa [visited, mkPid] using up

variable {space : PidSpace}

/-- `last_pid` is `RESERVED_PIDS` and free, and all numbers behind it are in use. -/
structure OnlyLastFree (sz : PageBits) (e : MapEnv) (space : PidSpace) : Prop where
  last : space.lastPid = RESERVED_PIDS
  free : space.inUse sz RESERVED_PIDS = false
  more : RESERVED_PIDS + 1 < e.pidMax
  full : ∀ nr ∈ Ico (RESERVED_PIDS + 1) e.pidMax, space.inUse sz nr = true

/-- The first free number after `last_pid` is allocated, then the first one from
    `RESERVED_PIDS` on, but for the case in which that is `last_pid` and the only one. -/
theorem alloc_pidmap_first_free (granted : ∀ map, e.kzalloc map = true) (counted : Counted sz space.pidmap) :
    (allocPidmap sz e space).2 =
      ((Ico (space.lastPid + 1) e.pidMax ++ Ico RESERVED_PIDS e.pidMax).find? fun nr => !space.inUse sz nr) ↔
    ¬ OnlyLastFree sz e space := by
  have minimum := e.pidMaxMin
  generalize isStart : (if e.pidMax ≤ space.lastPid + 1 then RESERVED_PIDS else space.lastPid + 1) = start
  have bounds : 0 < start ∧ start < e.pidMax := by
    have : 0 < RESERVED_PIDS := by decide
    split at isStart <;> omega
  have number := mkPid_div_mod sz start
  have inside := Nat.mod_lt start sz.pos
  have below := number.symm ▸ bounds.2
  obtain ⟨stop, reaches, reserved, le, visits⟩ := visited_twice space.lastPid inside (number.symm ▸ bounds.1) below
  have found := scanMaps_find? (fun nr => !space.inUse sz nr) space.lastPid granted counted
    (by intro map bit inside; rw [PidSpace.inUse, mkPid_div _ inside, mkPid_mod _ inside])
    ((e.pidMax + sz.count - 1) / sz.count - (if start % sz.count = 0 then 1 else 0) + 1) inside below
  rw [visits, number, find?_append] at found
  have allocated := Eq.trans (a := (allocPidmap sz e space).2)
    (by rw [allocPidmap, isStart]; split <;> next scanned => rw [scanned]) found
  rw [allocated, find?_append]
  constructor
  · -- the search gives up, but `RESERVED_PIDS` is free
    rintro same ⟨last, free, more, full⟩
    have none : (Ico (RESERVED_PIDS + 1) e.pidMax).find? (fun nr => !space.inUse sz nr) = none :=
      find?_eq_none.mpr fun nr mem => by simp [full nr mem]
    rw [if_neg (by omega), last] at isStart
    rw [← isStart, last, none, if_pos rfl, find?_nil, Ico.eq_cons minimum, find?_cons_of_pos (by simp [free])] at same
    cases same
  intro ok
  cases post : (Ico start e.pidMax).find? fun nr => !space.inUse sz nr with
  | some nr =>
    split at isStart <;> subst isStart
    next past => rw [Ico.eq_nil_of_le past, find?_nil, none_or, post, some_or]
    next => rw [post, some_or, some_or]
  | none =>
    -- the numbers from `start` on are in use
    have none : ∀ lo hi, hi ≤ e.pidMax → (lo < start → space.inUse sz lo = true ∧ start ≤ lo + 1) →
        (Ico lo hi).find? (fun nr => !space.inUse sz nr) = none := by
      intro lo hi le first
      rw [find?_eq_none] at post ⊢
      intro nr mem
      obtain ⟨lower, upper⟩ := Ico.mem.mp mem
      by_cases early : nr < start
      · obtain rfl : nr = lo := by omega
        simp [(first early).1]
      · exact post nr (Ico.mem.mpr (by omega))
    rw [none _ _ le_rfl (by split at isStart <;> omega), none_or, none_or]
    split
    next isReserved =>
      rw [find?_nil, none _ _ le_rfl fun later => ⟨?_, by split at isStart <;> omega⟩]
      rw [isReserved] at isStart
      split at isStart
      · omega
      next more =>
        subst isStart
        by_contra free
        refine ok ⟨isReserved, by simpa using free, by omega, fun nr mem => ?_⟩
        simpa using find?_eq_none.mp post nr mem
    next =>
      rw [← Ico.append_consecutive reserved le, find?_append, none stop _ le_rfl (by omega), or_none]

def defaultPidMax : MapEnv := ⟨32768, by decide, fun _ => true⟩

/-- All numbers are in use but one. -/
def onlyFree (nr last : Nat) : PidSpace where
  pidmap _ := ⟨some (· != nr), 1⟩
  lastPid := last
  nrHashed := 0

theorem onlyFree_counted {nr : Nat} (lt : nr < 32768) (last : Nat) : Counted smallPages (onlyFree nr last).pidmap := by
  intro map
  have only : (Finset.range 32768).filter (fun bit => (bit != nr) = false) = {nr} := by
    ext bit
    simp only [bne_eq_false_iff_eq, Finset.mem_filter, Finset.mem_range, Finset.mem_singleton]
    exact ⟨And.right, fun same => ⟨same ▸ lt, same⟩⟩
  exact (congrArg Finset.card only).symm

/-- The search comes to 400 after the numbers behind 500. -/
theorem alloc_pidmap_first_free_wraps : (allocPidmap smallPages defaultPidMax (onlyFree 400 500)).2 =
      (Ico 501 32768 ++ Ico RESERVED_PIDS 32768).find? fun nr => !(onlyFree 400 500).inUse smallPages nr :=
  (alloc_pidmap_first_free (fun _ => rfl) (onlyFree_counted (by decide) 500)).mpr fun only => by cases only.last

theorem alloc_pidmap_skips_reserved :
    Counted smallPages (onlyFree RESERVED_PIDS RESERVED_PIDS).pidmap ∧
      (onlyFree RESERVED_PIDS RESERVED_PIDS).inUse smallPages RESERVED_PIDS = false ∧
      (allocPidmap smallPages defaultPidMax (onlyFree RESERVED_PIDS RESERVED_PIDS)).2 = none :=
  ⟨onlyFree_counted (by decide) _, by decide +kernel, by decide +kernel⟩

end Aosp.Kernel
