import Aosp.Init.PropertyService

/-! # Writing the file of a persistent property

`write_persistent_property` call by call.  A stop may come after any of the system
calls, and then a file whose data has not been synced keeps only a part of it.  The
results of `write`, `fsync` and `close` are not looked at: a temporary file that is
too short, or not on the disk, is renamed all the same.
-/

namespace Aosp.Init

open Aosp.Lib

/-- The directory; of at most one file the data is not yet on the disk. -/
structure Directory where
  files : Bytes → Option Bytes
  unsynced : Option Bytes := none

/-- What is left after a stop, if `kept` bytes of the unsynced file were written back. -/
def Directory.afterStop (dir : Directory) (kept : Nat) (p : Bytes) : Option Bytes :=
  if dir.unsynced = some p then (dir.files p).map (·.take kept) else dir.files p

/-- What the system calls return: `mkstemp` with the six letters it chose, `write` with the number of bytes. -/
structure CallResults where
  mkstemp : Option Bytes
  write : Option Nat
  fsync : Bool
  close : Bool
  rename : Bool
  unlink : Bool

def tempPath (letters : Bytes) : Bytes := ascii "/data/property/.temp." ++ letters

namespace Directory

def put (dir : Directory) (p content : Bytes) : Directory where
  files := Function.update dir.files p (some content)
  unsynced := some p

def sync (dir : Directory) : Directory := { dir with unsynced := none }

def rename (dir : Directory) (old new : Bytes) : Directory where
  files := Function.update (Function.update dir.files new (dir.files old)) old none
  unsynced := if dir.unsynced = some old then some new else dir.unsynced

def unlink (dir : Directory) (p : Bytes) : Directory where
  files := Function.update dir.files p none
  unsynced := none

end Directory

open Directory

/-- The system calls that `write_persistent_property` makes, as what each does to the directory. -/
def persistentCalls (results : CallResults) (nm v : Bytes) : List (Directory → Directory) :=
  match results.mkstemp with
  | none => [id]
  | some letters =>
    let temp := tempPath letters
    let written := (results.write.map fun n => (cstr v).take n).getD []
    [(·.put temp []), (·.put temp written), if results.fsync then sync else id, id] ++
      if results.rename then [(·.rename temp (persistentPath nm))]
      else [id, if results.unlink then (·.unlink temp) else id]

/-- The directory if init is stopped after so many calls. -/
def persistentRun (results : CallResults) (files : Bytes → Option Bytes) (n v : Bytes) (stop : Nat) :
    Directory :=
  ((persistentCalls results n v).take stop).foldl (fun dir c => c dir) { files }

/-- The temporary file is not the file of a persistent property. -/
theorem tempPath_ne {n : Bytes} (persistent : (ascii "persist.").isPrefixOf n = true) (letters : Bytes) :
    tempPath letters ≠ persistentPath n := by
  obtain ⟨_, rfl⟩ := List.isPrefixOf_iff_prefix.mp persistent
  intro eq
  have byte := congrArg (·[15]?) eq
  simp [tempPath, persistentPath, PATH_MAX, ascii, cstr] at byte

/-- The bytes of the value that are on the disk if `kept` of an unsynced file were written back. -/
def CallResults.stored (results : CallResults) (kept : Nat) : Nat :=
  if results.fsync then results.write.getD 0 else min kept (results.write.getD 0)

theorem written_take (results : CallResults) (v : Bytes) :
    (results.write.map fun n => (cstr v).take n).getD [] = (cstr v).take (results.write.getD 0) := by
  cases results.write <;> simp

/-- The file of the property is as before or complete, unless a part of the value that is
    not the old content was renamed over it. -/
theorem persistent_property_atomic (results : CallResults) (files : Bytes → Option Bytes) (n v : Bytes)
    (persistent : (ascii "persist.").isPrefixOf n = true) (stop kept : Nat) :
    let left := (persistentRun results files n v stop).afterStop kept (persistentPath n)
    left = files (persistentPath n) ∨ left = some (cstr v) ↔
      results.mkstemp = none ∨ results.rename = false ∨ stop < 5 ∨ (cstr v).length ≤ results.stored kept ∨
        files (persistentPath n) = some ((cstr v).take (results.stored kept)) := by
  cases made : results.mkstemp with
  | none =>
    have calls : persistentCalls results n v = [id] := by simp [persistentCalls, made]
    rcases stop with _ | stop <;> simp [persistentRun, calls, afterStop]
  | some letters =>
    have different := tempPath_ne persistent letters
    simp only [persistentRun, persistentCalls, made, written_take, CallResults.stored]
    -- the places where init can stop
    rcases stop with _ | _ | _ | _ | _ | _ | stop <;> cases results.rename <;> cases results.fsync <;>
      cases results.unlink <;>
      simp [afterStop, put, sync, rename, unlink, different, Ne.symm different, List.take_take,
        List.take_eq_self_iff, or_comm, eq_comm (a := files (persistentPath n)), Nat.succ_lt_succ_iff]

theorem persistent_property_atomic_on :
    let left := (persistentRun ⟨some (ascii "AAAAAA"), some 2, true, true, true, true⟩ (fun _ => some (ascii "off"))
      (ascii "persist.a") (ascii "on") 5).afterStop 0 (persistentPath (ascii "persist.a"))
    left = some (ascii "off") ∨ left = some (ascii "on") :=
  (persistent_property_atomic _ _ _ _ (by decide) 5 0).mpr (by decide)

/-- `write` stores one of two bytes, and the file is renamed all the same. -/
theorem persistent_property_short_write :
    (persistentRun ⟨some (ascii "AAAAAA"), some 1, true, true, true, true⟩ (fun _ => some (ascii "off"))
      (ascii "persist.a") (ascii "on") 5).afterStop 2 (persistentPath (ascii "persist.a")) = some (ascii "o") ∧
    ascii "o" ≠ ascii "off" ∧ ascii "o" ≠ ascii "on" := by
  decide +kernel

end Aosp.Init
