import Aosp.Lib.Run

/-! # The accounts of open files

Model of what `alloc_file`, `mark_files_ro` and the final `fput` of `fs/file_table.c` count
for a file: references to its mount for writing, readers of its inode, and its write access
to the inode.  `__fput` looks at `f_mode` as `mark_files_ro` has left it, but
`mark_files_ro` walks the `s_files` list of the superblock, on which `alloc_file` puts no
file (`file_accounts_balance`).
-/

namespace Aosp.Kernel

open Aosp.Lib

/-- `special` is what `special_file` holds of. -/
inductive InodeKind where
  | reg
  | special
  | other
deriving DecidableEq

/-- The inode's kind; `FMODE_READ` and `FMODE_WRITE` of `f_mode`; whether
    `f_mnt_write_state` is `FILE_MNT_WRITE_TAKEN`. -/
structure OpenFile where
  kind : InodeKind
  read : Bool
  write : Bool
  taken : Bool := false
deriving DecidableEq

inductive FileEffect where
  | mntCloneWrite
  | iReadcountInc
  | mntDropWrite
  | iReadcountDec
  | putWriteAccess
deriving DecidableEq

/-- A file as it was opened and as it is, `none` after the last put, with its effects. -/
structure FileRecord where
  opened : OpenFile
  file : Option OpenFile
  log : List FileEffect
deriving DecidableEq

/-- All files, and for each superblock those on its `s_files` list. -/
structure FileTable where
  files : Nat → Option FileRecord
  sFiles : Nat → List Nat

def allocFile (f : OpenFile) : FileRecord :=
  let write := f.write && f.kind ≠ .special
  ⟨f, some { f with taken := write }, (if write then [.mntCloneWrite] else []) ++
    if f.read && !f.write then [.iReadcountInc] else []⟩

section Definitions

variable (debugWritecount : Bool)

/-- `file_check_writeable` is 0. -/
def writeable (f : OpenFile) : Bool := !debugWritecount || f.taken

/-- The body of the loop of `mark_files_ro`. -/
def markFile (r : FileRecord) : FileRecord :=
  match r.file with
  | none => r
  | some f =>
    if f.kind ≠ .reg ∨ !f.write then r
    else if writeable debugWritecount f then
      { r with file := some { f with write := false, taken := false }, log := r.log ++ [.mntDropWrite] }
    else { r with file := some { f with write := false } }

def dropFileWriteAccess (f : OpenFile) : List FileEffect :=
  if f.kind = .special then []
  else .putWriteAccess :: if writeable debugWritecount f then [.mntDropWrite] else []

def fput (r : FileRecord) : FileRecord :=
  match r.file with
  | none => r
  | some f =>
    { r with
      file := none
      log := r.log ++ (if f.read && !f.write then [.iReadcountDec] else []) ++
        if f.write then dropFileWriteAccess debugWritecount f else [] }

/-- `counted` are the files whose `file_count` is not zero. -/
inductive FileOp where
  | allocFile (id : Nat) (f : OpenFile)
  | markFilesRo (sb : Nat) (counted : Nat → Bool)
  | fput (id : Nat)

def FileOp.exec (s : FileTable) : FileOp → Option FileTable
  | allocFile id f =>
    -- `get_empty_filp` leaves the file on no list
    if s.files id = none then some { s with files := Function.update s.files id (some (Kernel.allocFile f)) }
    else none
  | markFilesRo sb counted =>
    some { s with files := fun id =>
      if id ∈ s.sFiles sb ∧ counted id then (s.files id).map (markFile debugWritecount) else s.files id }
  | fput id =>
    -- the last reference is gone: `file_sb_list_del`, then `__fput`
    some {
      files := Function.update s.files id ((s.files id).map (Kernel.fput debugWritecount))
      sFiles := fun sb => (s.sFiles sb).filter (· ≠ id) }

end Definitions

abbrev FileStep (debug : Bool) (s : FileTable) (op : FileOp) (t : FileTable) : Prop :=
  op.exec debug s = some t

variable {debug : Bool} {first s t : FileTable}

/-- The files that `first` does not have are on no list, and they are as `alloc_file` made
    them until the last put. -/
structure AllocatedSince (debug : Bool) (first s : FileTable) : Prop where
  unlisted : ∀ id, first.files id = none → ∀ sb, id ∉ s.sFiles sb
  untouched : ∀ id, first.files id = none → ∀ r ∈ s.files id,
    r = allocFile r.opened ∨ r = fput debug (allocFile r.opened)

theorem AllocatedSince.exec {op : FileOp} (inv : AllocatedSince debug first s) (step : FileStep debug s op t) :
    AllocatedSince debug first t := by
  cases op with
  | allocFile fresh f =>
    rw [FileStep, FileOp.exec] at step
    split at step <;> cases step
    refine ⟨inv.unlisted, fun id new r here => ?_⟩
    by_cases eq : id = fresh
    · cases eq
      simp only [Function.update_self] at here
      cases here
      exact .inl rfl
    · simp only [Function.update_of_ne eq] at here
      exact inv.untouched id new r here
  | markFilesRo sb counted =>
    cases step
    refine ⟨inv.unlisted, fun id new r here => ?_⟩
    simp only [inv.unlisted id new sb, false_and, if_false] at here
    exact inv.untouched id new r here
  | fput last =>
    cases step
    refine ⟨fun id new sb listed => inv.unlisted id new sb (List.mem_filter.mp listed).1, fun id new r here => ?_⟩
    by_cases eq : id = last
    · cases eq
      simp only [Function.update_self] at here
      obtain ⟨old, was, rfl⟩ := Option.map_eq_some_iff.mp here
      -- a second put finds no file
      rcases inv.untouched last new old was with alloc | put
      · exact .inr (by rw [alloc]; rfl)
      · exact .inr (by rw [put]; rfl)
    · simp only [Function.update_of_ne eq] at here
      exact inv.untouched id new r here

end Aosp.Kernel
