import Aosp.Kernel.PidMap
import Aosp.Lib.Run

/-! # Pids

Model of `alloc_pid`, `free_pid`, `disable_pid_allocation` and `find_pid_ns` of
`kernel/pid.c`, over any tree of pid namespaces and any hash function.  A pid has a number
in its namespace and in each one above it; the numbers are taken from the innermost
namespace upwards, and every failure gives back those already taken.

Whatever the calls and whichever of them fail, the numbers in use are those of the live
pids, each pid has its numbers to itself, and a search by number finds it
(`pids_tracked`).
-/

namespace Aosp.Kernel

open Aosp.Lib List Function

/-- `1U << 31` -/
def PIDNS_HASH_ADDING : UInt32 := 0x80000000

structure PidTree (N : Type) where
  size : PageBits
  parent : N → N
  level : N → Nat
  level_parent : ∀ ns, level ns ≠ 0 → level (parent ns) + 1 = level ns
  pidHashfn : Nat → N → Nat

structure Upid (N : Type) where
  nr : Nat
  ns : N
deriving DecidableEq

/-- `address` tells the pids apart; the level of a pid is the last index of `numbers`. -/
structure Pid (N : Type) where
  address : Nat
  numbers : List (Upid N)

/-- A `pid_chain` in a hash chain: the `struct upid` it is in is `numbers[index]` of the
    pid at `address`. -/
structure ChainNode (N : Type) where
  upid : Upid N
  address : Nat
  index : Nat

/-- A pointer to a `struct pid`, or beside one by some elements of `numbers`. -/
structure PidPointer where
  address : Nat
  displacement : Int
deriving DecidableEq

/-- `live` are the pids that `alloc_pid` returned and that are not freed. -/
structure PidState (N : Type) where
  spaces : N → PidSpace
  pidHash : Nat → List (ChainNode N)
  live : List (Pid N)
  nextAddress : Nat

/-- What the functions called by `alloc_pid` return. -/
structure AllocEnv (N : Type) where
  pidMax : Nat
  pidMaxMin : RESERVED_PIDS + 1 ≤ pidMax
  kmemCacheAlloc : Bool
  kzalloc : N → Nat → Bool
  pidNsPrepareProc : Int

def AllocEnv.mapEnv {N : Type} (e : AllocEnv N) (ns : N) : MapEnv where
  pidMax := e.pidMax
  pidMaxMin := e.pidMaxMin
  kzalloc := e.kzalloc ns

section Definitions

variable {N : Type} [DecidableEq N] (t : PidTree N)

/-- The loop over the levels: the numbers from index 0 on, or with an error those of the
    levels that have one. -/
def allocNumbers (e : AllocEnv N) :
    Nat → N → List (Upid N) → (N → PidSpace) → (N → PidSpace) × Except (List (Upid N)) (List (Upid N))
  | i, tmp, nums, spaces =>
    match allocPidmap t.size (e.mapEnv tmp) (spaces tmp) with
    | (space, none) => (update spaces tmp space, .error nums)
    | (space, some nr) =>
      let spaces := update spaces tmp space
      let nums := ⟨nr, tmp⟩ :: nums
      match i with
      | 0 => (spaces, .ok nums)
      | i + 1 => allocNumbers e i (t.parent tmp) nums spaces

def freeNumber (spaces : N → PidSpace) (upid : Upid N) : N → PidSpace :=
  update spaces upid.ns (freePidmap t.size upid.nr (spaces upid.ns))

def freeNumbers (nums : List (Upid N)) (spaces : N → PidSpace) : N → PidSpace :=
  nums.foldl (freeNumber t) spaces

def outFree (nums : List (Upid N)) (s : PidState N) : PidState N × Option Nat :=
  ({ s with spaces := freeNumbers t nums s.spaces }, none)

def isChildReaper (nums : List (Upid N)) : Bool :=
  match nums.getLast? with
  | none => false
  | some upid => upid.nr = 1

/-- The `pid_chain` of each number, from index 0 on. -/
def Pid.nodes (pid : Pid N) : List (ChainNode N) :=
  pid.numbers.zipIdx.map fun (upid, idx) => ⟨upid, pid.address, idx⟩

def hlistAddHead (s : PidState N) (nd : ChainNode N) : PidState N :=
  let bucket := t.pidHashfn nd.upid.nr nd.upid.ns
  let space := s.spaces nd.upid.ns
  { s with
    pidHash := update s.pidHash bucket (nd :: s.pidHash bucket)
    spaces := update s.spaces nd.upid.ns { space with nrHashed := space.nrHashed + 1 } }

def hlistDel (s : PidState N) (nd : ChainNode N) : PidState N :=
  let space := s.spaces nd.upid.ns
  { s with
    pidHash := fun bucket => (s.pidHash bucket).filter fun o =>
      !(o.address = nd.address && o.index = nd.index)
    spaces := update s.spaces nd.upid.ns { space with nrHashed := space.nrHashed - 1 } }

/-- The address of the new pid, or `none` for `NULL`. -/
def allocPid (e : AllocEnv N) (ns : N) (s : PidState N) : PidState N × Option Nat :=
  if !e.kmemCacheAlloc then (s, none)
  else
    match allocNumbers t e (t.level ns) ns [] s.spaces with
    | (spaces, .error nums) => outFree t nums { s with spaces := spaces }
    | (spaces, .ok nums) =>
      let s := { s with spaces := spaces }
      if isChildReaper nums && e.pidNsPrepareProc ≠ 0 then outFree t nums s
      else if (spaces ns).nrHashed &&& PIDNS_HASH_ADDING = 0 then outFree t nums s
      else
        let pid : Pid N := ⟨s.nextAddress, nums⟩
        let hashed := pid.nodes.reverse.foldl (hlistAddHead t) s
        ({ hashed with live := pid :: s.live, nextAddress := s.nextAddress + 1 }, some pid.address)

def freePid (pid : Pid N) (s : PidState N) : PidState N :=
  let unhashed := pid.nodes.foldl hlistDel s
  { unhashed with
    spaces := freeNumbers t pid.numbers unhashed.spaces
    live := s.live.filter fun o => o.address ≠ pid.address }

def disablePidAllocation (ns : N) (s : PidState N) : PidState N :=
  let space := s.spaces ns
  { s with
    spaces := update s.spaces ns { space with nrHashed := space.nrHashed &&& ~~~PIDNS_HASH_ADDING } }

/-- `container_of` takes the number to be at the index of the namespace's level. -/
def findPidNs (s : PidState N) (nr : Nat) (ns : N) : Option PidPointer :=
  ((s.pidHash (t.pidHashfn nr ns)).find? fun nd => nd.upid.nr = nr && nd.upid.ns = ns).map
    fun nd => ⟨nd.address, nd.index - t.level ns⟩

/-- `pid_nr_ns`: the number of a pid in a namespace, or 0. -/
def pidNrNs (pid : Option (Pid N)) (ns : N) : Nat :=
  match pid.bind fun pid => pid.numbers[t.level ns]? with
  | some upid => if upid.ns = ns then upid.nr else 0
  | none => 0

/-- In each namespace only the number 0 is in use. -/
def PidState.initial : PidState N where
  spaces _ := PidSpace.initial t.size PIDNS_HASH_ADDING
  pidHash _ := []
  live := []
  nextAddress := 0

inductive PidCall (N : Type) where
  | alloc (e : AllocEnv N) (ns : N)
  | free (adr : Nat)
  | disable (ns : N)

def PidState.call (s : PidState N) : PidCall N → Option (PidState N)
  | .alloc e ns => some (allocPid t e ns s).1
  | .free adr => (s.live.find? fun pid => pid.address = adr).map fun pid => freePid t pid s
  | .disable ns => some (disablePidAllocation ns s)

def Pid.HasNumber (pid : Pid N) (nr : Nat) (ns : N) : Prop := ⟨nr, ns⟩ ∈ pid.numbers

structure PidState.Tracked (s : PidState N) : Prop where
  bits : ∀ ns nr, (s.spaces ns).inUse t.size nr = true ↔ nr = 0 ∨ ∃ pid ∈ s.live, pid.HasNumber nr ns
  nrFree : ∀ ns idx, ((s.spaces ns).pidmap idx).nrFree = ((s.spaces ns).pidmap idx).bits.zeros t.size.count
  unique : ∀ pid ∈ s.live, ∀ o ∈ s.live, ∀ nr ns, pid.HasNumber nr ns → o.HasNumber nr ns → pid = o
  found : ∀ pid ∈ s.live, ∀ nr ns, pid.HasNumber nr ns → findPidNs t s nr ns = some ⟨pid.address, 0⟩
  notFound : ∀ nr ns, (∀ pid ∈ s.live, ¬ pid.HasNumber nr ns) → findPidNs t s nr ns = none

end Definitions

variable {N : Type} [DecidableEq N] {t : PidTree N}

/-! ## The numbers in use in all namespaces -/

/-- The maps of all namespaces have exactly these numbers in use. -/
def SpacesTrack (t : PidTree N) (spaces : N → PidSpace) (used : Set (Upid N)) : Prop :=
  ∀ ns, Tracks t.size (spaces ns).pidmap {nr | (⟨nr, ns⟩ : Upid N) ∈ used}

variable {spaces : N → PidSpace} {used : Set (Upid N)} {space : PidSpace} {e : MapEnv} {tmp : N} {first : Nat}
  {nums : List (Upid N)} {pid : Pid N} {upid : Upid N}

theorem SpacesTrack.update {post : Set (Upid N)} {ns : N} (tracks : SpacesTrack t spaces used)
    (here : Tracks t.size space.pidmap {nr | (⟨nr, ns⟩ : Upid N) ∈ post})
    (far : ∀ upid : Upid N, upid.ns ≠ ns → (upid ∈ post ↔ upid ∈ used)) :
    SpacesTrack t (update spaces ns space) post := by
  intro o
  by_cases eq : o = ns
  · subst eq
    rwa [update_self]
  · rw [update_of_ne eq]
    have same : {nr | _ ∈ post} = {nr | _ ∈ used} :=
      Set.ext fun nr => far ⟨nr, o⟩ eq
    rw [same]
    exact tracks o

section

variable (tracks : SpacesTrack t spaces used)
include tracks

omit [DecidableEq N] in
theorem SpacesTrack.of_pidmap_eq {post : N → PidSpace} (eq : ∀ ns, (post ns).pidmap = (spaces ns).pidmap) :
    SpacesTrack t post used := by
  intro ns
  rw [eq]
  exact tracks ns

theorem SpacesTrack.allocPidmap_none (fail : allocPidmap t.size e (spaces tmp) = (space, none)) :
    SpacesTrack t (Function.update spaces tmp space) used := by
  have al := (tracks tmp).allocPidmap e
  rw [fail] at al
  exact tracks.update al fun _ _ => Iff.rfl

theorem SpacesTrack.allocPidmap_some {nr : Nat} (ok : allocPidmap t.size e (spaces tmp) = (space, some nr)) :
    ⟨nr, tmp⟩ ∉ used ∧ SpacesTrack t (Function.update spaces tmp space) (insert ⟨nr, tmp⟩ used) := by
  have al := (tracks tmp).allocPidmap e
  rw [ok] at al
  obtain ⟨new, _⟩ := al
  refine ⟨new, tracks.update ?_ ?_⟩
  · have adds : {o | (⟨o, tmp⟩ : Upid N) ∈ insert ⟨nr, tmp⟩ used} = insert nr {o | (⟨o, tmp⟩ : Upid N) ∈ used} := by
      ext o
      simp
    rwa [adds]
  · intro upid ne
    have o : upid ≠ ⟨nr, tmp⟩ := fun eq => ne (by rw [eq])
    simp [o]

theorem SpacesTrack.freeNumber (mem : upid ∈ used) : SpacesTrack t (freeNumber t spaces upid) (used \ {upid}) := by
  apply tracks.update
  · have gone : {nr | (⟨nr, upid.ns⟩ : Upid N) ∈ used \ {upid}} =
        {nr | (⟨nr, upid.ns⟩ : Upid N) ∈ used} \ {upid.nr} := by
      ext nr
      cases upid
      simp
    rw [gone]
    exact (tracks upid.ns).freePidmap mem
  · intro o ne
    have far : o ≠ upid := fun eq => ne (by rw [eq])
    simp [far]

end

/-- The numbers are in use besides the `used` ones, each once, and have the levels from
    `first` on. -/
structure Taken (t : PidTree N) (used : Set (Upid N)) (first : Nat) (nums : List (Upid N))
    (spaces : N → PidSpace) : Prop where
  tracks : SpacesTrack t spaces {upid | upid ∈ nums ∨ upid ∈ used}
  fresh : ∀ upid ∈ nums, upid ∉ used
  levels : nums.map (fun upid => t.level upid.ns) = range' first nums.length

omit [DecidableEq N] in
theorem nodup_of_levels (levels : nums.map (fun upid => t.level upid.ns) = range' first nums.length) : nums.Nodup := by
  apply List.Nodup.of_map fun upid => t.level upid.ns
  rw [levels]
  exact nodup_range'

theorem SpacesTrack.freeNumbers (tracks : SpacesTrack t spaces {upid | upid ∈ nums ∨ upid ∈ used})
    (new : ∀ upid ∈ nums, upid ∉ used) (nodup : nums.Nodup) : SpacesTrack t (freeNumbers t nums spaces) used := by
  induction nums generalizing spaces with
  | nil => simpa [Kernel.freeNumbers] using tracks
  | cons upid nums ih =>
    rw [nodup_cons] at nodup
    have freed := tracks.freeNumber (Or.inl mem_cons_self)
    have left : {o | o ∈ upid :: nums ∨ o ∈ used} \ {upid} = {o | o ∈ nums ∨ o ∈ used} := by
      have notUsed := new upid mem_cons_self
      ext o
      by_cases eq : o = upid
      · simp [eq, nodup.1, notUsed]
      · simp [eq]
    rw [left] at freed
    exact ih freed (fun o mem => new o (mem_cons_of_mem _ mem)) nodup.2

theorem Taken.freeNumbers (ht : Taken t used first nums spaces) : SpacesTrack t (freeNumbers t nums spaces) used :=
  ht.tracks.freeNumbers ht.fresh (nodup_of_levels ht.levels)

/-- The numbers of a failed loop are those above the level it stopped at. -/
def LevelsTaken (t : PidTree N) (used : Set (Upid N)) :
    (N → PidSpace) × Except (List (Upid N)) (List (Upid N)) → Prop
  | (spaces, .error nums) => ∃ first, Taken t used first nums spaces
  | (spaces, .ok nums) => Taken t used 0 nums spaces

theorem Taken.cons {nr : Nat} (ht : Taken t used (t.level tmp + 1) nums spaces)
    (ok : allocPidmap t.size e (spaces tmp) = (space, some nr)) :
    Taken t used (t.level tmp) (⟨nr, tmp⟩ :: nums) (Function.update spaces tmp space) := by
  obtain ⟨free, _⟩ := ht.tracks.allocPidmap_some ok
  simp only [Set.mem_ofPred_eq, not_or] at free
  constructor
  · have adds : {upid | upid ∈ (⟨nr, tmp⟩ : Upid N) :: nums ∨ upid ∈ used} =
        insert ⟨nr, tmp⟩ {upid | upid ∈ nums ∨ upid ∈ used} := by
      ext upid
      simp [or_assoc]
    rwa [adds]
  · simp only [mem_cons, forall_eq_or_imp]
    exact ⟨free.2, ht.fresh⟩
  · rw [map_cons, ht.levels]
    rfl

theorem Taken.allocNumbers (e : AllocEnv N) (ht : Taken t used (t.level tmp + 1) nums spaces) :
    LevelsTaken t used (allocNumbers t e (t.level tmp) tmp nums spaces) := by
  generalize height : t.level tmp = i
  induction i generalizing tmp nums spaces with
  | zero =>
    rw [Kernel.allocNumbers]
    split
    next fail => exact ⟨_, ht.tracks.allocPidmap_none fail, ht.fresh, ht.levels⟩
    next ok =>
      have last := ht.cons ok
      rw [height] at last
      exact last
  | succ i ih =>
    rw [Kernel.allocNumbers]
    split
    next fail => exact ⟨_, ht.tracks.allocPidmap_none fail, ht.fresh, ht.levels⟩
    next ok =>
      have high : t.level _ + 1 = t.level tmp :=
        t.level_parent tmp (by rw [height]; exact Nat.succ_ne_zero i)
      have next := ht.cons ok
      rw [← high] at next
      exact ih next (Nat.succ.inj (high.trans height))

/-! ## The hash chains -/

omit [DecidableEq N] in
theorem mem_nodes {nd : ChainNode N} :
    nd ∈ pid.nodes ↔ nd.address = pid.address ∧ pid.numbers[nd.index]? = some nd.upid := by
  obtain ⟨upid, _, idx⟩ := nd
  simp only [Pid.nodes, mem_map, mem_zipIdx_iff_getElem?, ChainNode.mk.injEq]
  constructor
  · rintro ⟨⟨_, _⟩, hf, rfl, rfl, rfl⟩
    exact ⟨rfl, hf⟩
  · rintro ⟨rfl, hf⟩
    exact ⟨(upid, idx), hf, rfl, rfl, rfl⟩

theorem hlistAddHead_foldl (nds : List (ChainNode N)) (s : PidState N) : let post := nds.foldl (hlistAddHead t) s
    (∀ ns, (post.spaces ns).pidmap = (s.spaces ns).pidmap) ∧ ∀ bkt nd, nd ∈ post.pidHash bkt ↔
        nd ∈ s.pidHash bkt ∨ nd ∈ nds ∧ t.pidHashfn nd.upid.nr nd.upid.ns = bkt := by
  induction nds generalizing s with
  | nil => simp
  | cons first nds ih =>
    obtain ⟨spaces, chains⟩ := ih _
    constructor
    · intro ns
      refine (spaces ns).trans ?_
      by_cases eq : ns = first.upid.ns
      · simp [hlistAddHead, eq]
      · simp [hlistAddHead, eq]
    · intro bkt nd
      refine (chains bkt nd).trans ?_
      by_cases eq : bkt = t.pidHashfn first.upid.nr first.upid.ns
      · simp only [hlistAddHead]
        grind
      · simp only [hlistAddHead]
        grind

/-- Nodes are taken out of the chains, and no map changes. -/
theorem hlistDel_foldl (nds : List (ChainNode N)) (s : PidState N) : let post := nds.foldl hlistDel s
    (∀ ns, (post.spaces ns).pidmap = (s.spaces ns).pidmap) ∧ post.nextAddress = s.nextAddress ∧
      ∀ bkt nd, nd ∈ post.pidHash bkt ↔ nd ∈ s.pidHash bkt ∧
        ∀ gone ∈ nds, ¬ (nd.address = gone.address ∧ nd.index = gone.index) := by
  induction nds generalizing s with
  | nil => simp
  | cons first nds ih =>
    obtain ⟨spaces, next, chains⟩ := ih _
    refine ⟨fun ns => (spaces ns).trans ?_, next, fun bkt nd => (chains bkt nd).trans ?_⟩
    · by_cases eq : ns = first.upid.ns
      · simp [hlistDel, eq]
      · simp [hlistDel, eq]
    · simp only [hlistDel, forall_mem_cons]
      grind

/-! ## The invariant -/

def numbersInUse (live : List (Pid N)) : Set (Upid N) :=
  {upid | upid.nr = 0 ∨ ∃ pid ∈ live, upid ∈ pid.numbers}

/-- What every call keeps: `Tracked`, said about the maps and the chains. -/
structure PidState.Sound (t : PidTree N) (s : PidState N) : Prop where
  tracks : SpacesTrack t s.spaces (numbersInUse s.live)
  levels : ∀ pid ∈ s.live, pid.numbers.map (fun upid => t.level upid.ns) = range' 0 pid.numbers.length
  nonzero : ∀ pid ∈ s.live, ∀ upid ∈ pid.numbers, upid.nr ≠ 0
  unique : ∀ pid ∈ s.live, ∀ o ∈ s.live, ∀ upid ∈ pid.numbers, upid ∈ o.numbers → pid = o
  addresses : ∀ pid ∈ s.live, ∀ o ∈ s.live, pid.address = o.address → pid = o
  allocated : ∀ pid ∈ s.live, pid.address < s.nextAddress
  chains : ∀ bucket nd, nd ∈ s.pidHash bucket ↔
    (∃ pid ∈ s.live, nd ∈ pid.nodes) ∧ t.pidHashfn nd.upid.nr nd.upid.ns = bucket

variable {s : PidState N}

omit [DecidableEq N] in
theorem PidState.Sound.index_eq_level (hs : s.Sound t) (mem : pid ∈ s.live) {idx : Nat}
    (hf : pid.numbers[idx]? = some upid) : idx = t.level upid.ns := by
  have hi : idx < pid.numbers.length := (List.getElem?_eq_some_iff.mp hf).1
  have levels := congrArg (fun l => l[idx]?) (hs.levels pid mem)
  simp only [getElem?_map, hf, Option.map_some, getElem?_range' hi] at levels
  simpa using (Option.some.inj levels).symm

theorem PidState.Sound.tracked (hs : s.Sound t) : s.Tracked t where
  bits ns nr := (hs.tracks ns).inUse_iff nr
  nrFree ns := (hs.tracks ns).nrFree
  unique pid mem other otherMember nr ns := hs.unique pid mem other otherMember ⟨nr, ns⟩
  found pid mem nr ns has := by
    obtain ⟨idx, hi, at_⟩ := mem_iff_getElem.mp has
    have hashed : (⟨⟨nr, ns⟩, pid.address, idx⟩ : ChainNode N) ∈ s.pidHash _ :=
      (hs.chains _ _).mpr ⟨⟨pid, mem, mem_nodes.mpr ⟨rfl, by simp [hi, at_]⟩⟩, rfl⟩
    rw [findPidNs]
    cases isSearch : (s.pidHash _).find?
        fun nd => nd.upid.nr = nr && nd.upid.ns = ns with
    | none => simpa using find?_eq_none.mp isSearch _ hashed
    | some nd =>
      -- the node found has the same number, so it is one of the same pid
      have fits := find?_some isSearch
      obtain ⟨⟨ow, ownerMember, hn⟩, -⟩ := (hs.chains _ _).mp (mem_of_find?_eq_some isSearch)
      obtain ⟨_, standsAt⟩ := mem_nodes.mp hn
      simp only [Bool.and_eq_true, decide_eq_true_eq] at fits
      obtain ⟨rfl, rfl⟩ := fits
      have eq := hs.unique ow ownerMember pid mem _ (mem_of_getElem? standsAt) has
      have level := hs.index_eq_level ownerMember standsAt
      simp_all
  notFound nr ns absent := by
    rw [findPidNs, Option.map_eq_none_iff, find?_eq_none]
    intro nd mem fits
    obtain ⟨⟨pid, pidMember, hn⟩, -⟩ := (hs.chains _ _).mp mem
    have has := mem_of_getElem? (mem_nodes.mp hn).2
    simp only [Bool.and_eq_true, decide_eq_true_eq] at fits
    obtain ⟨rfl, rfl⟩ := fits
    exact absent pid pidMember has

open PidState

omit [DecidableEq N] in
theorem PidState.sound_initial : (initial t).Sound t where
  tracks ns := by
    have only : {nr | (⟨nr, ns⟩ : Upid N) ∈ numbersInUse []} = {0} := by
      ext nr
      simp [numbersInUse]
    rw [initial, only]
    exact tracks_initial PIDNS_HASH_ADDING
  levels := by simp [initial]
  nonzero := by simp [initial]
  unique := by simp [initial]
  addresses := by simp [initial]
  allocated := by simp [initial]
  chains := by simp [initial]

/-! ## The calls -/

section

variable (hs : s.Sound t)
include hs

omit [DecidableEq N] in
theorem PidState.Sound.withSpaces (isTracks : SpacesTrack t spaces (numbersInUse s.live)) :
    PidState.Sound t { s with spaces := spaces } :=
  { hs with tracks := isTracks }

theorem PidState.Sound.outFree (ht : Taken t (numbersInUse s.live) first nums spaces) :
    PidState.Sound t (outFree t nums { s with spaces := spaces }).1 :=
  hs.withSpaces ht.freeNumbers

theorem PidState.Sound.hash (ht : Taken t (numbersInUse s.live) 0 nums spaces) :
    let pid : Pid N := ⟨s.nextAddress, nums⟩
    PidState.Sound t
      { pid.nodes.reverse.foldl (hlistAddHead t) { s with spaces := spaces } with
        live := pid :: s.live
        nextAddress := s.nextAddress + 1 } := by
  intro pid
  obtain ⟨pidmaps, bucket⟩ := @hlistAddHead_foldl N _ t pid.nodes.reverse { s with spaces := spaces }
  have notShared : ∀ o ∈ s.live, ∀ upid ∈ nums, upid ∉ o.numbers :=
    fun o mem upid taking has => ht.fresh upid taking (Or.inr ⟨o, mem, has⟩)
  have newAddress : ∀ o ∈ s.live, o.address ≠ s.nextAddress :=
    fun o mem => (hs.allocated o mem).ne
  constructor
  case tracks =>
    have used : numbersInUse (pid :: s.live) = {upid | upid ∈ nums ∨ upid ∈ numbersInUse s.live} := by
      ext upid
      simp only [numbersInUse, mem_cons, exists_eq_or_imp]
      exact or_left_comm
    rw [used]
    exact ht.tracks.of_pidmap_eq pidmaps
  case levels =>
    simp only [forall_mem_cons]
    exact ⟨ht.levels, hs.levels⟩
  case nonzero =>
    simp only [forall_mem_cons]
    exact ⟨fun upid mem zero => ht.fresh upid mem (Or.inl zero), hs.nonzero⟩
  case unique =>
    simp only [forall_mem_cons]
    refine ⟨⟨fun _ _ _ => trivial, fun o mem upid has otherHas => ?_⟩, fun o mem => ⟨?_, hs.unique o mem⟩⟩
    · exact absurd otherHas (notShared o mem upid has)
    · exact fun upid otherHas has => absurd otherHas (notShared o mem upid has)
  case addresses =>
    simp only [forall_mem_cons]
    refine ⟨⟨fun _ => trivial, fun o mem eq => ?_⟩, fun o mem => ⟨?_, hs.addresses o mem⟩⟩
    · exact absurd eq.symm (newAddress o mem)
    · exact fun eq => absurd eq (newAddress o mem)
  case allocated =>
    simp only [forall_mem_cons]
    exact ⟨Nat.lt_succ_self _, fun o mem => Nat.lt_succ_of_lt (hs.allocated o mem)⟩
  case chains =>
    intro bkt nd
    refine (bucket bkt nd).trans ?_
    simp only [hs.chains, mem_reverse, mem_cons, exists_eq_or_imp]
    rw [or_comm, ← or_and_right]

theorem PidState.Sound.allocPid (e : AllocEnv N) (ns : N) : (allocPid t e ns s).1.Sound t := by
  have beg : Taken t _ (t.level ns + 1) [] s.spaces :=
    ⟨by simpa using hs.tracks, by simp, by simp⟩
  have al := beg.allocNumbers e
  rw [Kernel.allocPid]
  split
  next => exact hs
  next =>
    split
    next fail =>
      rw [fail] at al
      obtain ⟨_, ht⟩ := al
      exact hs.outFree ht
    next ok =>
      rw [ok] at al
      split
      next => exact hs.outFree al
      next =>
        split
        next => exact hs.outFree al
        next => exact hs.hash al

omit [DecidableEq N] in
theorem PidState.Sound.numbersInUse_without {left : List (Pid N)} (mem : pid ∈ s.live)
    (mem_left : ∀ o, o ∈ left ↔ o ∈ s.live ∧ o.address ≠ pid.address) :
    numbersInUse s.live = {upid | upid ∈ pid.numbers ∨ upid ∈ numbersInUse left} := by
  ext upid
  constructor
  · rintro (zero | ⟨o, live, has⟩)
    · exact Or.inr (Or.inl zero)
    · by_cases eq : o.address = pid.address
      · rw [hs.addresses o live pid mem eq] at has
        exact Or.inl has
      · exact Or.inr (Or.inr ⟨o, (mem_left o).mpr ⟨live, eq⟩, has⟩)
  · rintro (has | zero | ⟨o, isLeft, has⟩)
    · exact Or.inr ⟨pid, mem, has⟩
    · exact Or.inl zero
    · exact Or.inr ⟨o, ((mem_left o).mp isLeft).1, has⟩

theorem PidState.Sound.freePid (mem : pid ∈ s.live) : (freePid t pid s).Sound t := by
  obtain ⟨pidmaps, next, bucket⟩ := hlistDel_foldl pid.nodes s
  let left := s.live.filter fun o => o.address ≠ pid.address
  have mem_left : ∀ o, o ∈ left ↔ o ∈ s.live ∧ o.address ≠ pid.address := by simp [left]
  have live : ∀ o ∈ left, o ∈ s.live := fun o isLeft => ((mem_left o).mp isLeft).1
  have new : ∀ upid ∈ pid.numbers, upid ∉ numbersInUse left := by
    rintro upid has (zero | ⟨o, isLeft, otherHas⟩)
    · exact hs.nonzero pid mem upid has zero
    · have eq := hs.unique o (live o isLeft) pid mem upid otherHas has
      exact ((mem_left o).mp isLeft).2 (congrArg Pid.address eq)
  have isTracks := hs.tracks.of_pidmap_eq pidmaps
  rw [hs.numbersInUse_without mem mem_left] at isTracks
  constructor
  case tracks => exact isTracks.freeNumbers new (nodup_of_levels (hs.levels pid mem))
  case levels => exact fun o isLeft => hs.levels o (live o isLeft)
  case nonzero => exact fun o isLeft => hs.nonzero o (live o isLeft)
  case unique =>
    exact fun o isLeft another alsoLeft => hs.unique o (live o isLeft) another (live another alsoLeft)
  case addresses =>
    exact fun o isLeft another alsoLeft =>
      hs.addresses o (live o isLeft) another (live another alsoLeft)
  case allocated => exact fun o isLeft => (hs.allocated o (live o isLeft)).trans_eq next.symm
  case chains =>
    intro bkt nd
    refine (bucket bkt nd).trans ?_
    rw [hs.chains]
    constructor
    · rintro ⟨⟨⟨o, isLive, hn⟩, hashed⟩, kept⟩
      refine ⟨⟨o, (mem_left o).mpr ⟨isLive, fun eq => ?_⟩, hn⟩, hashed⟩
      rw [hs.addresses o isLive pid mem eq] at hn
      exact kept nd hn ⟨rfl, rfl⟩
    · rintro ⟨⟨o, isLeft, hn⟩, hashed⟩
      refine ⟨⟨⟨o, live o isLeft, hn⟩, hashed⟩, fun _ isGone eq => ?_⟩
      have adr := (mem_nodes.mp hn).1.symm.trans (eq.1.trans (mem_nodes.mp isGone).1)
      exact ((mem_left o).mp isLeft).2 adr

theorem PidState.Sound.call {post : PidState N} {c : PidCall N}
    (call : s.call t c = some post) : post.Sound t := by
  cases c with
  | alloc e ns =>
    cases call
    exact hs.allocPid e ns
  | free _ =>
    obtain ⟨_, hf, rfl⟩ := Option.map_eq_some_iff.mp call
    exact hs.freePid (mem_of_find?_eq_some hf)
  | disable ns =>
    cases call
    exact hs.withSpaces (hs.tracks.update (hs.tracks ns) fun _ _ => Iff.rfl)

end

/-- After any calls, failed ones included, the maps, the counts of free numbers and the
    hash chains agree with the live pids. -/
theorem pids_tracked (t : PidTree N) (calls : List (PidCall N)) (s : PidState N)
    (run : Run (fun pre c post => pre.call t c = some post) (initial t) calls s) : s.Tracked t :=
  (run.invariant sound_initial fun _ _ _ sound => sound.call).tracked

/-- A live pid is what is found under its number, in every namespace that sees it. -/
theorem pid_numbers_round_trip (t : PidTree N) (calls : List (PidCall N)) (s : PidState N)
    (run : Run (fun pre c post => pre.call t c = some post) (initial t) calls s) {pid : Pid N} (mem : pid ∈ s.live)
    {nr : Nat} (nonzero : nr ≠ 0) (ns : N) :
    pidNrNs t (some pid) ns = nr ↔ findPidNs t s nr ns = some ⟨pid.address, 0⟩ := by
  have hs : s.Sound t := run.invariant sound_initial fun _ _ _ sound => sound.call
  -- the entry at the level of the namespace is the only one that can be of the namespace
  have number : pidNrNs t (some pid) ns = nr ↔ pid.HasNumber nr ns := by
    constructor
    · intro eq
      rw [pidNrNs, Option.bind_some] at eq
      split at eq
      next upid here =>
        split at eq
        next same =>
          subst eq same
          exact mem_of_getElem? here
        next => exact absurd eq.symm nonzero
      next => exact absurd eq.symm nonzero
    · intro has
      obtain ⟨idx, here⟩ := getElem?_of_mem has
      obtain rfl := hs.index_eq_level mem here
      simp [pidNrNs, here]
  rw [number]
  refine ⟨hs.tracked.found pid mem nr ns, fun found => ?_⟩
  by_contra absent
  have other : ∃ o ∈ s.live, o.HasNumber nr ns := by
    by_contra none
    simp [hs.tracked.notFound nr ns fun o live has => none ⟨o, live, has⟩] at found
  obtain ⟨o, live, has⟩ := other
  have adr := (hs.tracked.found o live nr ns has).symm.trans found
  cases hs.addresses o live pid mem (by simpa using adr)
  exact absent has

/-- A namespace below the first one, and a hash function with one value. -/
def twoLevels : PidTree Bool where
  size := smallPages
  parent _ := false
  level ns := if ns then 1 else 0
  level_parent := by decide
  pidHashfn _ _ := 0

/-- Every call succeeds, but for `pid_ns_prepare_proc`. -/
def procFails : AllocEnv Bool := ⟨32768, smallPages.reserved, true, fun _ _ => true, -12⟩

def twoLevelCalls : List (PidCall Bool) :=
  [.alloc { procFails with pidNsPrepareProc := 0 } false, .alloc procFails false, .alloc procFails true, .free 0]

theorem pids_tracked_two_levels :
    ∃ s : PidState Bool, Run (fun pre c post => pre.call twoLevels c = some post) (initial twoLevels)
        twoLevelCalls s ∧
      findPidNs twoLevels s 1 false = none ∧ findPidNs twoLevels s 2 false = some ⟨1, 0⟩ ∧ s.Tracked twoLevels := by
  have ran : (runLabels (fun _ _ => True) (fun s c => s.call twoLevels c)
      (initial twoLevels) twoLevelCalls).map
        (fun s => (findPidNs twoLevels s 1 false, findPidNs twoLevels s 2 false)) =
      some (none, some ⟨1, 0⟩) := by decide +kernel
  obtain ⟨s, reached, results⟩ := Option.map_eq_some_iff.mp ran
  have run := (run_of_runLabels reached).mono fun _ _ _ taken => taken.2
  exact ⟨s, run, congrArg Prod.fst results, congrArg Prod.snd results, pids_tracked twoLevels twoLevelCalls s run⟩

/-- The first pid of the upper namespace has no number in the other one. -/
theorem pid_numbers_round_trip_first :
    ∃ (s : PidState Bool) (pid : Pid Bool), (pidNrNs twoLevels (some pid) false = 1 ↔
      findPidNs twoLevels s 1 false = some ⟨pid.address, 0⟩) ∧ pidNrNs twoLevels (some pid) true = 0 := by
  have ran : ((initial twoLevels).call twoLevels (twoLevelCalls.head (by decide))).any
      (fun s => s.live.any fun pid => pidNrNs twoLevels (some pid) true = 0) = true := by decide +kernel
  obtain ⟨s, taken, live⟩ := (Option.any_eq_true _ _).mp ran
  obtain ⟨pid, mem, none⟩ := any_eq_true.mp live
  exact ⟨s, pid, pid_numbers_round_trip twoLevels _ s (.snoc .nil taken) mem (by decide) false, of_decide_eq_true none⟩

end Aosp.Kernel
