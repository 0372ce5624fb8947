import Aosp.Lib.Bitmap

/-! # The map of pid numbers

Model of `alloc_pidmap` and `free_pidmap` of `kernel/pid.c`: the numbers of a pid
namespace that are in use are the set bits of pages that are allocated on first use,
each with a count of its clear bits.  The calls follow one another, so that
`test_and_set_bit` and `cmpxchg` meet no other writer.

`Tracks` says which numbers a map has in use.  An allocation that succeeds adds one
number that was free, one that fails adds none (`Tracks.allocPidmap`), and
`free_pidmap` takes one away (`Tracks.freePidmap`).
-/

namespace Aosp.Kernel

open Aosp.Lib Function

def RESERVED_PIDS : Nat := 300

/-- `BITS_PER_PAGE`.  The first page has a bit for `RESERVED_PIDS`. -/
structure PageBits where
  count : Nat
  reserved : RESERVED_PIDS < count

def smallPages : PageBits := ⟨32768, by decide⟩

theorem PageBits.pos (sz : PageBits) : 0 < sz.count := Nat.zero_lt_of_lt sz.reserved

/-- `page` is null before its first use. -/
structure Pidmap where
  page : Option Bitmap
  nrFree : Nat

def Pidmap.bits (map : Pidmap) : Bitmap := map.page.getD fun _ => false

/-- What the allocation of numbers reads and writes of a `struct pid_namespace`. -/
structure PidSpace where
  pidmap : Nat → Pidmap
  lastPid : Nat
  nrHashed : UInt32

/-- `pid_max`, and whether a page for the map of each index can be had. -/
structure MapEnv where
  pidMax : Nat
  pidMaxMin : RESERVED_PIDS + 1 ≤ pidMax
  kzalloc : Nat → Bool

section Definitions

variable (sz : PageBits)

def mkPid (idx off : Nat) : Nat := idx * sz.count + off

/-- The loop over one page: the offset and the number of the bit it takes, `none` where
    it is left by a `break`. -/
def scanPage (pidMax idx : Nat) (page : Bitmap) : Nat → Nat → Nat → Option (Nat × Nat)
  | 0, _, _ => none
  | turns + 1, off, pid =>
    if page off = false then some (off, pid)
    else
      let off := page.findNextZeroBit sz.count off
      if sz.count ≤ off then none
      else
        let pid := mkPid sz idx off
        if pidMax ≤ pid then none else scanPage pidMax idx page turns off pid

/-- The page of a map is allocated when the map is first looked at. -/
def installPage (kzalloc : Nat → Bool) (idx : Nat) (pidmap : Nat → Pidmap) : Nat → Pidmap :=
  if (pidmap idx).page.isNone && kzalloc idx then
    update pidmap idx { pidmap idx with page := some fun _ => false }
  else pidmap

/-- The loop over the maps, with the turns that are left; `none` for -1. -/
def scanMaps (e : MapEnv) (last : Nat) :
    Nat → Nat → Nat → Nat → (Nat → Pidmap) → (Nat → Pidmap) × Option Nat
  | 0, _, _, _, pidmap => (pidmap, none)
  | turns + 1, index, offset, pid, before =>
    let pidmap := installPage e.kzalloc index before
    match (pidmap index).page with
    | none => (pidmap, none)
    | some page =>
      -- the turns of the inner loop go up the page
      let taken :=
        if (pidmap index).nrFree ≠ 0 then scanPage sz e.pidMax index page sz.count offset pid else none
      match taken with
      | some (offset, pid) =>
        let map : Pidmap :=
          { page := some (update page offset true), nrFree := (pidmap index).nrFree - 1 }
        (update pidmap index map, some pid)
      | none =>
        if index < (e.pidMax - 1) / sz.count then
          scanMaps e last turns (index + 1) 0 (mkPid sz (index + 1) 0) pidmap
        else if last = RESERVED_PIDS then (pidmap, none)
        else scanMaps e last turns 0 RESERVED_PIDS (mkPid sz 0 RESERVED_PIDS) pidmap

def allocPidmap (e : MapEnv) (space : PidSpace) : PidSpace × Option Nat :=
  let last := space.lastPid
  let pid := if e.pidMax ≤ last + 1 then RESERVED_PIDS else last + 1
  let off := pid % sz.count
  let maxScan := (e.pidMax + sz.count - 1) / sz.count - (if off = 0 then 1 else 0)
  match scanMaps sz e last (maxScan + 1) (pid / sz.count) off pid space.pidmap with
  -- `set_last_pid` finds `last_pid` as it was read
  | (pidmap, some pid) => ({ space with pidmap := pidmap, lastPid := pid }, some pid)
  | (pidmap, none) => ({ space with pidmap := pidmap }, none)

def freePidmap (nr : Nat) (space : PidSpace) : PidSpace :=
  let idx := nr / sz.count
  let off := nr % sz.count
  let map := space.pidmap idx
  let cleared : Pidmap :=
    { page := map.page.map fun page => update page off false, nrFree := map.nrFree + 1 }
  { space with pidmap := update space.pidmap idx cleared }

def PidSpace.initial (nrHashed : UInt32) : PidSpace where
  pidmap := update (fun _ => ⟨none, sz.count⟩) 0
    ⟨some (update (fun _ => false) 0 true), sz.count - 1⟩
  lastPid := 0
  nrHashed := nrHashed

/-- Whether the bit of a number is set. -/
def PidSpace.inUse (space : PidSpace) (nr : Nat) : Bool :=
  (space.pidmap (nr / sz.count)).bits (nr % sz.count)

/-- The maps have exactly these numbers in use, and each page counts its clear bits. -/
structure Tracks (pidmap : Nat → Pidmap) (used : Set Nat) : Prop where
  bits : ∀ idx off, off < sz.count → ((pidmap idx).bits off = true ↔ mkPid sz idx off ∈ used)
  nrFree : ∀ idx, (pidmap idx).nrFree = (pidmap idx).bits.zeros sz.count

/-- What an allocation leaves behind if `used` were the numbers in use. -/
def AllocatedFrom (used : Set Nat) : (Nat → Pidmap) × Option Nat → Prop
  | (pidmap, none) => Tracks sz pidmap used
  | (pidmap, some nr) => nr ∉ used ∧ Tracks sz pidmap (insert nr used)

end Definitions

variable {sz : PageBits}

/-! ## Numbers, maps and offsets -/

variable {off idx : Nat} {space : PidSpace} {used : Set Nat} {pm : Nat → Pidmap} {page : Bitmap}

theorem mkPid_div (idx : Nat) (hi : off < sz.count) : mkPid sz idx off / sz.count = idx := by
  rw [mkPid, Nat.mul_comm, Nat.mul_add_div sz.pos, Nat.div_eq_of_lt hi, Nat.add_zero]

theorem mkPid_mod (idx : Nat) (hi : off < sz.count) : mkPid sz idx off % sz.count = off := by
  rw [mkPid, Nat.mul_add_mod_self_right, Nat.mod_eq_of_lt hi]

theorem mkPid_div_mod (sz : PageBits) (nr : Nat) : mkPid sz (nr / sz.count) (nr % sz.count) = nr :=
  Nat.div_add_mod' nr sz.count

theorem mkPid_inj {o otherOffset : Nat} (hi : off < sz.count) (otherInside : otherOffset < sz.count) :
    mkPid sz idx off = mkPid sz o otherOffset ↔ idx = o ∧ off = otherOffset := by
  constructor
  · intro eq
    have sameIndex := congrArg (· / sz.count) eq
    have same := congrArg (· % sz.count) eq
    simp only [mkPid_div _ hi, mkPid_div _ otherInside] at sameIndex
    simp only [mkPid_mod _ hi, mkPid_mod _ otherInside] at same
    exact ⟨sameIndex, same⟩
  · rintro ⟨rfl, rfl⟩
    rfl

theorem Tracks.inUse_iff (tracks : Tracks sz space.pidmap used) (nr : Nat) : space.inUse sz nr = true ↔ nr ∈ used := by
  rw [PidSpace.inUse, tracks.bits _ _ (Nat.mod_lt nr sz.pos), mkPid_div_mod]

/-! ## One page -/

/-- The bit that `find_next_zero_bit` finds is clear, so that two turns are enough. -/
theorem scanPage_settled (pidMax idx : Nat) (page : Bitmap) (turns off pid : Nat) :
    scanPage sz pidMax idx page (turns + 2) off pid = if page off = false then some (off, pid)
      else let next := page.findNextZeroBit sz.count off
        if sz.count ≤ next then none
        else if pidMax ≤ mkPid sz idx next then none
        else some (next, mkPid sz idx next) := by
  rw [scanPage]
  by_cases past : sz.count ≤ page.findNextZeroBit sz.count off
  · simp [past]
  · have isClear := Bitmap.findNextZeroBit_clear (Nat.lt_of_not_le past)
    simp [scanPage, isClear]

theorem scanPage_some {pidMax pid nextOffset nextPid : Nat} (hi : off < sz.count) (numbered : pid = mkPid sz idx off)
    (ht : scanPage sz pidMax idx page sz.count off pid = some (nextOffset, nextPid)) :
    nextOffset < sz.count ∧ page nextOffset = false ∧ nextPid = mkPid sz idx nextOffset := by
  obtain ⟨turns, fuel⟩ : ∃ turns, sz.count = turns + 2 :=
    ⟨sz.count - 2, by have := sz.reserved; rw [RESERVED_PIDS] at this; omega⟩
  have calm := @scanPage_settled sz pidMax idx page turns off pid
  rw [← fuel, ht] at calm
  split at calm
  next isClear =>
    cases calm
    exact ⟨hi, isClear, numbered⟩
  next =>
    dsimp only at calm
    split at calm
    next => cases calm
    next low =>
      split at calm
      next => cases calm
      next =>
        cases calm
        exact ⟨Nat.lt_of_not_le low, Bitmap.findNextZeroBit_clear (Nat.lt_of_not_le low), rfl⟩

/-! ## The maps -/

theorem installPage_apply (kz : Nat → Bool) (idx o : Nat) (pm : Nat → Pidmap) :
    (installPage kz idx pm o).bits = (pm o).bits ∧ (installPage kz idx pm o).nrFree = (pm o).nrFree := by
  rw [installPage]
  split
  next _ =>
    by_cases eq : o = idx
    · subst eq
      have null : (pm o).page = none := by simp_all
      simp [Pidmap.bits, null]
    · simp [eq]
  next => exact ⟨rfl, rfl⟩

theorem Tracks.installPage (tracks : Tracks sz pm used) (kz : Nat → Bool) (idx : Nat) :
    Tracks sz (installPage kz idx pm) used where
  bits other off inside := by
    rw [(installPage_apply kz idx other pm).1]
    exact tracks.bits other off inside
  nrFree other := by
    rw [(installPage_apply kz idx other pm).1, (installPage_apply kz idx other pm).2]
    exact tracks.nrFree other

theorem Tracks.update {post : Set Nat} {map : Pidmap} (tracks : Tracks sz pm used) (hi : off < sz.count)
    (v : Bool) (bits : map.bits = update (pm idx).bits off v)
    (hc : map.nrFree = map.bits.zeros sz.count) (changed : mkPid sz idx off ∈ post ↔ v = true)
    (kept : ∀ nr, nr ≠ mkPid sz idx off → (nr ∈ post ↔ nr ∈ used)) : Tracks sz (update pm idx map) post where
  bits other otherOffset otherInside := by
    by_cases eq : other = idx
    · subst eq
      rw [update_self, bits]
      by_cases same : otherOffset = off
      · subst same
        rw [update_self, changed]
      · rw [update_of_ne same, tracks.bits _ _ otherInside, kept]
        simp [mkPid_inj otherInside hi, same]
    · rw [update_of_ne eq, tracks.bits _ _ otherInside, kept]
      simp [mkPid_inj otherInside hi, eq]
  nrFree other := by
    by_cases eq : other = idx
    · rw [eq, update_self, hc]
    · rw [update_of_ne eq, tracks.nrFree]

theorem Tracks.take (tracks : Tracks sz pm used) (hp : (pm idx).page = some page)
    (hi : off < sz.count) (isClear : page off = false) :
    mkPid sz idx off ∉ used ∧ Tracks sz (Function.update pm idx
          ⟨some (Function.update page off true), (pm idx).nrFree - 1⟩) (insert (mkPid sz idx off) used) := by
  have bits : (pm idx).bits = page := by simp [Pidmap.bits, hp]
  constructor
  · rw [← tracks.bits idx off hi, bits, isClear]
    exact Bool.false_ne_true
  · apply tracks.update hi true
    · rw [bits]
      rfl
    · have hc := tracks.nrFree idx
      rw [bits, ← Bitmap.zeros_set hi isClear] at hc
      rw [hc]
      rfl
    · simp
    · intro _ o
      simp [o]

theorem Tracks.scanMaps (e : MapEnv) (last turns : Nat) {pid : Nat} (tracks : Tracks sz pm used)
    (hi : off < sz.count) (numbered : pid = mkPid sz idx off) :
    AllocatedFrom sz used (scanMaps sz e last turns idx off pid pm) := by
  induction turns generalizing idx off pid pm with
  | zero => exact tracks
  | succ turns ih =>
    have put := tracks.installPage e.kzalloc idx
    have more : AllocatedFrom sz used
        (if idx < (e.pidMax - 1) / sz.count then
          Kernel.scanMaps sz e last turns (idx + 1) 0 (mkPid sz (idx + 1) 0)
            (Kernel.installPage e.kzalloc idx pm)
        else if last = RESERVED_PIDS then (Kernel.installPage e.kzalloc idx pm, none)
        else Kernel.scanMaps sz e last turns 0 RESERVED_PIDS (mkPid sz 0 RESERVED_PIDS)
          (Kernel.installPage e.kzalloc idx pm)) := by
      split
      next => exact ih put sz.pos rfl
      next =>
        split
        next => exact put
        next => exact ih put sz.reserved rfl
    rw [Kernel.scanMaps]
    split
    next => exact put
    next _ hp =>
      split
      next =>
        dsimp only
        split
        next ht =>
          obtain ⟨takenInside, isClear, rfl⟩ := scanPage_some hi numbered ht
          exact put.take hp takenInside isClear
        next => exact more
      next => exact more

/-- The first number looked at is split into a map and an offset. -/
theorem Tracks.allocPidmap (tracks : Tracks sz space.pidmap used) (e : MapEnv) :
    AllocatedFrom sz used ((allocPidmap sz e space).1.pidmap, (allocPidmap sz e space).2) := by
  let pid := if e.pidMax ≤ space.lastPid + 1 then RESERVED_PIDS else space.lastPid + 1
  have scanned := tracks.scanMaps e space.lastPid
    ((e.pidMax + sz.count - 1) / sz.count - (if pid % sz.count = 0 then 1 else 0) + 1)
    (Nat.mod_lt pid sz.pos) (mkPid_div_mod sz pid).symm
  rw [Kernel.allocPidmap]
  split <;> next res => exact res ▸ scanned

theorem Tracks.freePidmap {nr : Nat} (tracks : Tracks sz space.pidmap used) (mem : nr ∈ used) :
    Tracks sz (freePidmap sz nr space).pidmap (used \ {nr}) := by
  have hi := Nat.mod_lt nr sz.pos
  have num := mkPid_div_mod sz nr
  have set : (space.pidmap _).bits _ = true := (tracks.inUse_iff nr).mpr mem
  cases hp : (space.pidmap (nr / sz.count)).page with
  | none => simp [Pidmap.bits, hp] at set
  | some page =>
    have bits : (space.pidmap (nr / sz.count)).bits = page := by simp [Pidmap.bits, hp]
    apply tracks.update hi false
    · simp [Pidmap.bits, hp]
    · rw [bits] at set
      have hc := tracks.nrFree (nr / sz.count)
      simp [Pidmap.bits, hp, hc, Bitmap.zeros_clear hi set]
    · simp [num]
    · intro o ne
      rw [num] at ne
      simp [ne]

theorem tracks_initial (nrHashed : UInt32) : Tracks sz (PidSpace.initial sz nrHashed).pidmap {0} := by
  have emp : Tracks sz (fun _ => ⟨none, sz.count⟩) ∅ :=
    { bits := fun _ _ _ => by simp [Pidmap.bits]
      nrFree := fun _ => (Bitmap.zeros_empty sz.count).symm }
  apply emp.update sz.pos true
  · rfl
  · have hc := @Bitmap.zeros_set (fun _ => false) sz.count 0 sz.pos rfl
    rw [Bitmap.zeros_empty] at hc
    simp only [Pidmap.bits, Option.getD_some]
    omega
  · simp [mkPid]
  · intro _ o
    simp_all [mkPid]

end Aosp.Kernel
