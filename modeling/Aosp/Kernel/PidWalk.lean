import Aosp.Kernel.Pid
import Aosp.Kernel.PidScan

/-! # Going through the pids of a namespace

Model of `next_pidmap` and `find_ge_pid` of `kernel/pid.c`, the successor of a number among
those in use and among those that pids are hashed under.  Asking for one pid after the
other gives each of them once, in the order of the numbers (`pids_in_order`).
-/

namespace Aosp.Kernel

open Aosp.Lib List

/-- `PID_MAX_LIMIT` and `PIDMAP_ENTRIES`. -/
structure PidLimits (sz : PageBits) where
  pidMaxLimit : Nat
  pidmapEntries : Nat
  covers : pidMaxLimit ≤ mkPid sz pidmapEntries 0

/-- The first set bit from `off` on, or `sz`. -/
def findNextBit (bits : Bitmap) (sz off : Nat) : Nat := ((Ico off sz).find? bits).getD sz

/-- The loop of `next_pidmap` over the maps that are left; `none` for -1. -/
def nextMap (sz : PageBits) (pidmap : Nat → Pidmap) : Nat → Nat → Nat → Option Nat
  | 0, _, _ => none
  | left + 1, index, off =>
    match (pidmap index).page with
    | none => nextMap sz pidmap left (index + 1) 0
    | some page =>
      let off := findNextBit page sz.count off
      if off < sz.count then some (mkPid sz index off) else nextMap sz pidmap left (index + 1) 0

section

variable {sz : PageBits} (limits : PidLimits sz) (space : PidSpace)

def nextPidmap (last : Nat) : Option Nat :=
  if limits.pidMaxLimit ≤ last then none
  else
    nextMap sz space.pidmap (limits.pidmapEntries - (last + 1) / sz.count) ((last + 1) / sz.count)
      ((last + 1) % sz.count)

variable {space} {idx off : Nat}

theorem nextMap_find? (left : Nat) (hi : off < sz.count) :
    nextMap sz space.pidmap left idx off =
      (Ico (mkPid sz idx off) (mkPid sz (idx + left) 0)).find? (space.inUse sz) := by
  induction left generalizing idx off with
  | zero =>
    have emp : mkPid sz idx 0 ≤ mkPid sz idx off := Nat.add_le_add_left (Nat.zero_le _) _
    rw [Nat.add_zero, Ico.eq_nil_of_le emp]
    rfl
  | succ left ih =>
    have bits : ∀ bit < sz.count, space.inUse sz (mkPid sz idx bit) = (space.pidmap idx).bits bit := by
      intro bit hi
      rw [PidSpace.inUse, mkPid_div _ hi, mkPid_mod _ hi]
    have lower : mkPid sz idx off ≤ mkPid sz (idx + 1) 0 := by
      rw [← mkPid_count]
      exact Nat.add_le_add_left hi.le _
    have upper : mkPid sz (idx + 1) 0 ≤ mkPid sz (idx + (left + 1)) 0 :=
      Nat.add_le_add_right (Nat.mul_le_mul_right _ (by omega)) _
    rw [nextMap, ← Ico.append_consecutive lower upper, find?_append, find?_page bits, ← Nat.add_assoc,
      Nat.add_right_comm, ← ih sz.pos, Pidmap.bits]
    split
    next ha =>
      rw [ha, find?_eq_none.mpr (by simp), Option.map_none, Option.none_or]
    next page hp =>
      rw [hp, Option.getD_some, findNextBit]
      cases hf : (Ico off sz.count).find? page with
      | none => simp
      | some bit => simp [(Ico.mem.mp (mem_of_find?_eq_some hf)).2]

/-- The loop returns the least number in use after `last`. -/
theorem nextPidmap_find? (alloc : ∀ nr, space.inUse sz nr → nr < limits.pidMaxLimit) (last : Nat) :
    nextPidmap limits space last = (Ico (last + 1) limits.pidMaxLimit).find? (space.inUse sz) := by
  rw [nextPidmap]
  split
  next _ => rw [Ico.eq_nil_of_le (by omega), find?_nil]
  next =>
    have cover := limits.covers
    have hi := Nat.mod_lt (last + 1) sz.pos
    have first : (last + 1) / sz.count ≤ limits.pidmapEntries :=
      Nat.div_le_of_le_mul (by rw [mkPid] at cover; rw [Nat.mul_comm]; omega)
    rw [nextMap_find? _ hi, mkPid_div_mod, Nat.add_sub_cancel' first,
      ← Ico.append_consecutive (show last + 1 ≤ limits.pidMaxLimit by omega) cover, find?_append]
    rw [find?_eq_none.mpr fun nr mem used => Nat.not_lt.mpr (Ico.mem.mp mem).1 (alloc nr used), Option.or_none]

theorem nextPidmap_gt {last next : Nat} (hf : nextPidmap limits space last = some next) :
    last < next ∧ last < limits.pidMaxLimit := by
  obtain ⟨low, hf⟩ := Option.ite_none_left_eq_some.mp hf
  rw [nextMap_find? _ (Nat.mod_lt _ sz.pos), mkPid_div_mod] at hf
  exact ⟨(Ico.mem.mp (mem_of_find?_eq_some hf)).1, Nat.lt_of_not_le low⟩

end

variable {N : Type} [DecidableEq N] (t : PidTree N) (limits : PidLimits t.size) (s : PidState N) (ns : N)

/-- The pid of a number in the namespace, with the number. -/
def pidAt (nr : Nat) : Option (Nat × PidPointer) := (findPidNs t s nr ns).map (nr, ·)

/-- The loop of `find_ge_pid`: the pid it finds, with its number. -/
def findGePid (nr : Nat) : Option (Nat × PidPointer) :=
  match pidAt t s ns nr with
  | some pid => some pid
  | none =>
    match _found : nextPidmap limits (s.spaces ns) nr with
    | none => none
    | some next => findGePid next
termination_by limits.pidMaxLimit - nr
decreasing_by
  have := nextPidmap_gt limits _found
  omega

/-- Up to so many pids, each the successor of the one before. -/
def pidsFrom : Nat → Nat → List (Nat × PidPointer)
  | 0, _ => []
  | most + 1, nr =>
    match findGePid t limits s ns nr with
    | none => []
    | some pid => pid :: pidsFrom most (pid.1 + 1)

section

variable {t s ns} (alloc : ∀ nr, (s.spaces ns).inUse t.size nr → nr < limits.pidMaxLimit)
  (hashed : ∀ nr, pidAt t s ns nr ≠ none → (s.spaces ns).inUse t.size nr)

include alloc hashed

theorem findGePid_findSome? (nr : Nat) :
    findGePid t limits s ns nr = (Ico nr limits.pidMaxLimit).findSome? (pidAt t s ns) := by
  have skip : ∀ {nr stop}, pidAt t s ns nr = none →
      (∀ o, nr + 1 ≤ o → o < stop → (s.spaces ns).inUse t.size o = false) →
      (Ico nr stop).findSome? (pidAt t s ns) = none := by
    intro nr stop ha unused
    rw [findSome?_eq_none_iff]
    intro o mem
    obtain ⟨lower, upper⟩ := Ico.mem.mp mem
    rcases lower.eq_or_lt with rfl | lower
    · exact ha
    · exact not_imp_comm.mp (hashed o) (by simp [unused o lower upper])
  fun_induction findGePid t limits s ns nr with
  | case1 nr _ hf =>
    rw [Ico.eq_cons (alloc nr (hashed nr (by simp [hf]))), findSome?_cons, hf]
  | case2 nr ha none =>
    rw [nextPidmap_find? limits alloc, find?_eq_none] at none
    exact (skip ha fun o lower upper => by simpa using none o (Ico.mem.mpr ⟨lower, upper⟩)).symm
  | case3 nr ha next hf ih =>
    rw [nextPidmap_find? limits alloc, Ico, find?_range'_eq_some, mem_range'_1] at hf
    obtain ⟨used, _, least⟩ := hf
    rw [ih, ← Ico.append_consecutive (show nr ≤ next by omega) (alloc next used).le, findSome?_append,
      skip ha fun o lower upper => by simpa using least o lower upper, Option.none_or]

theorem pidsFrom_eq {most nr : Nat} (fuel : limits.pidMaxLimit - nr ≤ most) :
    pidsFrom t limits s ns most nr = (Ico nr limits.pidMaxLimit).filterMap (pidAt t s ns) := by
  have next := findGePid_findSome? limits alloc hashed
  induction left : limits.pidMaxLimit - nr generalizing nr most with
  | zero => cases most <;> simp [pidsFrom, next, Ico.eq_nil_of_le (Nat.sub_eq_zero_iff_le.mp left)]
  | succ left ih =>
    obtain ⟨most, rfl⟩ := Nat.exists_eq_succ_of_ne_zero (show most ≠ 0 by omega)
    rw [pidsFrom, next, Ico.eq_cons (show nr < limits.pidMaxLimit by omega), findSome?_cons, filterMap_cons]
    cases hf : pidAt t s ns nr with
    | some _ =>
      obtain ⟨_, -, rfl⟩ := Option.map_eq_some_iff.mp hf
      simp only [ih (show limits.pidMaxLimit - (nr + 1) ≤ most by omega) (by omega)]
    | none =>
      rw [← ih (show limits.pidMaxLimit - _ ≤ most + 1 by omega) (by omega), pidsFrom, next]

/-- For any maps and hash chains with every number in use below `PID_MAX_LIMIT`, and pids
    hashed only under numbers in use: the next number in use, the next pid, and all pids. -/
theorem pids_in_order : (∀ last, nextPidmap limits (s.spaces ns) last =
        (Ico (last + 1) limits.pidMaxLimit).find? ((s.spaces ns).inUse t.size)) ∧
      (∀ nr, findGePid t limits s ns nr = (Ico nr limits.pidMaxLimit).findSome? (pidAt t s ns)) ∧
      pidsFrom t limits s ns limits.pidMaxLimit 0 = (range limits.pidMaxLimit).filterMap (pidAt t s ns) := by
  refine ⟨nextPidmap_find? limits alloc, findGePid_findSome? limits alloc hashed, ?_⟩
  rw [← Ico.zero_bot]
  exact pidsFrom_eq limits alloc hashed (Nat.sub_le _ _)

end

def twoHashed : PidState Bool where
  spaces _ := ⟨fun map => if map = 0 then ⟨some [0, 3, 7, 9].contains, 32764⟩ else ⟨none, 32768⟩, 9, 0⟩
  pidHash _ := [⟨⟨9, false⟩, 1, 0⟩, ⟨⟨3, false⟩, 0, 0⟩]
  live := []
  nextAddress := 2

theorem pids_in_order_two :
    findGePid twoLevels ⟨10, 1, by decide⟩ twoHashed false 4 = some (9, ⟨1, 0⟩) ∧
      pidsFrom twoLevels ⟨10, 1, by decide⟩ twoHashed false 10 0 = [(3, ⟨0, 0⟩), (9, ⟨1, 0⟩)] := by
  have alloc : ∀ nr, (twoHashed.spaces false).inUse twoLevels.size nr → nr < 10 := by
    intro nr used
    have first : nr / 32768 = 0 := by
      by_contra later
      simp [PidSpace.inUse, twoHashed, twoLevels, smallPages, later, Pidmap.bits] at used
    have small : nr < 32768 := by omega
    simp [PidSpace.inUse, twoHashed, twoLevels, smallPages, first, Nat.mod_eq_of_lt small, Pidmap.bits] at used
    omega
  have hashed : ∀ nr, pidAt twoLevels twoHashed false nr ≠ none → (twoHashed.spaces false).inUse twoLevels.size nr := by
    intro nr found
    have member : nr = 9 ∨ nr = 3 := by
      by_contra other
      push Not at other
      exact found (by simp [pidAt, findPidNs, twoHashed, other.1.symm, other.2.symm])
    rcases member with rfl | rfl <;> decide
  obtain ⟨-, next, all⟩ := pids_in_order ⟨10, 1, by decide⟩ alloc hashed
  exact ⟨(next 4).trans (by decide), all.trans (by decide)⟩

end Aosp.Kernel
