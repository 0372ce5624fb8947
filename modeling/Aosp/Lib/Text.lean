import Aosp.Lib.Bytes

/-! # Reading text files

`isspace`, the lines that `getline` and `fgets` deliver, and what the C library does
with them: `strtok_r`, `strcasecmp`, `strstr`, `strtol`.
-/

namespace Aosp.Lib

open List

/-- `isspace` in the C locale. -/
def isspace (byte : UInt8) : Bool := byte = 32 || (9 ≤ byte && byte ≤ 13)

/-- The pieces of a text, each ended by a newline, by the limit on its length or by
    the end of the text; `cur` is what has been read of the piece. -/
def readLinesFrom (limit : Nat) (cur : Bytes) : Bytes → List Bytes
  | [] => if cur = [] then [] else [cur]
  | byte :: rest =>
    if byte = newline ∨ cur.length + 1 = limit then (cur ++ [byte]) :: readLinesFrom limit [] rest
    else readLinesFrom limit (cur ++ [byte]) rest

/-- The lines that `getline` returns one after the other. -/
def getlines (data : Bytes) : List Bytes := readLinesFrom 0 [] data

/-- The C string of a line without the newline at its end. -/
def chomp (line : Bytes) : Bytes :=
  let t := cstr line
  if t.getLast? = some newline then t.dropLast else t

theorem nulFree_cstr (s : Bytes) : NulFree (cstr s) := by
  intro mem
  simpa using mem_takeWhile_imp mem

theorem nulFree_of_subset {s t : Bytes} (free : NulFree t) (subset : s ⊆ t) : NulFree s :=
  fun mem => free (subset mem)

theorem nulFree_chomp (line : Bytes) : NulFree (chomp line) := by
  unfold chomp
  dsimp only
  split
  · exact nulFree_of_subset (nulFree_cstr line) (dropLast_subset _)
  · exact nulFree_cstr line

/-! ## Case and words -/

/-- `tolower` in the C locale. -/
def toLower (byte : UInt8) : UInt8 := if 65 ≤ byte && byte ≤ 90 then byte + 32 else byte

/-- `strcasecmp` returns 0. -/
def eqIgnoreCase (one two : Bytes) : Bool := one.map toLower = two.map toLower

/-- `strncasecmp` returns 0. -/
def eqIgnoreCaseUpTo (one two : Bytes) (n : Nat) : Bool := (one.map toLower).take n = (two.map toLower).take n

/-- What `strstr` points to. -/
def strstr (needle : Bytes) : Bytes → Option Bytes
  | [] => if needle = [] then some [] else none
  | byte :: rest => if needle.isPrefixOf (byte :: rest) then some (byte :: rest) else strstr needle rest

/-- The words of a text, where `cur` is what has been read of the first. -/
def wordsFrom (isDelimiter : UInt8 → Bool) (cur : Bytes) : Bytes → List Bytes
  | [] => if cur = [] then [] else [cur]
  | byte :: rest =>
    if isDelimiter byte then
      if cur = [] then wordsFrom isDelimiter [] rest else cur :: wordsFrom isDelimiter [] rest
    else wordsFrom isDelimiter (cur ++ [byte]) rest

/-- The tokens that `strtok_r` returns one after the other. -/
def words (isDelimiter : UInt8 → Bool) (t : Bytes) : List Bytes := wordsFrom isDelimiter [] t

def isDigit (byte : UInt8) : Bool := 48 ≤ byte && byte ≤ 57

/-- The sizes of a `long`. -/
inductive LongSize where
  | bits32
  | bits64

def LongSize.max : LongSize → Nat
  | bits32 => 2 ^ 31 - 1
  | bits64 => 2 ^ 63 - 1

/-- `strtol` with base 10, and what `endptr` points to. -/
def strtol (long : LongSize) (s : Bytes) : Int × Bytes :=
  let t := s.dropWhile isspace
  let negative := t.head? = some 45
  let unsigned := if negative ∨ t.head? = some 43 then t.drop 1 else t
  let digits := unsigned.takeWhile isDigit
  -- without digits nothing is converted
  if digits = [] then (0, s)
  else
    let magnitude := ofDecimal digits
    let v : Int := if negative then -(min magnitude (long.max + 1) : Nat) else (min magnitude long.max : Nat)
    (v, unsigned.dropWhile isDigit)

variable {isDelimiter : UInt8 → Bool} {cur t word line : Bytes} {tl : Bytes}

theorem nulFree_wordsFrom (currentFree : NulFree cur) (free : NulFree t)
    (mem : word ∈ wordsFrom isDelimiter cur t) : NulFree word := by
  induction t generalizing cur with
  | nil =>
    rw [wordsFrom] at mem
    split at mem
    · cases mem
    · rwa [mem_singleton.mp mem]
  | cons byte t ih =>
    have nz : byte ≠ 0 := fun zero => free (zero ▸ mem_cons_self)
    have textFree : NulFree t := nulFree_of_subset free (subset_cons_self _ _)
    rw [wordsFrom] at mem
    split at mem
    · split at mem
      · exact ih not_mem_nil textFree mem
      · cases mem_cons.mp mem with
        | inl first => rwa [first]
        | inr late => exact ih not_mem_nil textFree late
    · refine ih ?_ textFree mem
      simp only [NulFree, mem_append, mem_singleton, not_or]
      exact ⟨currentFree, nz.symm⟩

theorem nulFree_words (free : NulFree t) (mem : word ∈ words isDelimiter t) : NulFree word :=
  nulFree_wordsFrom not_mem_nil free mem

theorem length_wordsFrom (mem : word ∈ wordsFrom isDelimiter cur t) : word.length ≤ cur.length + t.length := by
  induction t generalizing cur with
  | nil =>
    rw [wordsFrom] at mem
    split at mem
    · cases mem
    · rw [mem_singleton.mp mem]
      exact Nat.le_add_right _ _
  | cons _ t ih =>
    rw [wordsFrom] at mem
    simp only [length_cons]
    split at mem
    · split at mem
      · have cap := ih mem
        simp only [length_nil] at cap
        omega
      · cases mem_cons.mp mem with
        | inl first =>
          rw [first]
          omega
        | inr late =>
          have cap := ih late
          simp only [length_nil] at cap
          omega
    · have cap := ih mem
      simp only [length_append, length_singleton] at cap
      omega

theorem length_words (mem : word ∈ words isDelimiter t) : word.length ≤ t.length := by
  simpa using length_wordsFrom mem

/-! ## Lines as they are read -/

theorem length_readLinesFrom {limit : Nat} (room : cur.length < limit)
    (mem : line ∈ readLinesFrom limit cur t) : line.length ≤ limit := by
  induction t generalizing cur with
  | nil =>
    rw [readLinesFrom] at mem
    split at mem
    · cases mem
    · rw [mem_singleton.mp mem]
      exact room.le
  | cons _ t ih =>
    rw [readLinesFrom] at mem
    split at mem
    next _ =>
      cases mem_cons.mp mem with
      | inl first =>
        rw [first, length_append, length_singleton]
        omega
      | inr late => exact ih (by rw [length_nil]; omega) late
    next _ =>
      refine ih ?_ mem
      rw [length_append, length_singleton]
      omega

def textLines (data : Bytes) : List Bytes := (getlines data).map (·.takeWhile (· ≠ newline))

theorem getlines_newline (free : newline ∉ line) :
    getlines (line ++ newline :: tl) = (line ++ [newline]) :: getlines tl := by
  have from_ : ∀ cur, readLinesFrom 0 cur (line ++ newline :: tl) =
      (cur ++ line ++ [newline]) :: readLinesFrom 0 [] tl := by
    induction line with
    | nil =>
      intro cur
      rw [nil_append, readLinesFrom, if_pos (Or.inl rfl), append_nil]
    | cons byte line ih =>
      intro cur
      have byteNot : byte ≠ newline := fun eq => free (eq ▸ mem_cons_self)
      rw [cons_append, readLinesFrom, if_neg (by simp [byteNot]), ih fun mem => free (mem_cons_of_mem _ mem)]
      simp
  exact from_ []

theorem getlines_of_free (free : newline ∉ line) : getlines line = if line = [] then [] else [line] := by
  have from_ : ∀ cur, readLinesFrom 0 cur line = if cur ++ line = [] then [] else [cur ++ line] := by
    induction line with
    | nil =>
      intro cur
      rw [readLinesFrom, append_nil]
    | cons byte line ih =>
      intro cur
      have byteNot : byte ≠ newline := fun eq => free (eq ▸ mem_cons_self)
      rw [readLinesFrom, if_neg (by simp [byteNot]), ih fun mem => free (mem_cons_of_mem _ mem)]
      simp
  exact from_ []

theorem takeWhile_newline (free : newline ∉ line) : (line ++ newline :: tl).takeWhile (· ≠ newline) = line := by
  have rest : ∀ byte ∈ line, decide (byte ≠ newline) = true := by
    intro byte mem
    simpa using fun eq : byte = newline => free (eq ▸ mem)
  rw [takeWhile_append_of_pos rest]
  simp

theorem lines_induction {motive : Bytes → Prop} (line : ∀ line, newline ∉ line → motive line)
    (more : ∀ line tl, newline ∉ line → motive tl → motive (line ++ newline :: tl)) (data : Bytes) : motive data := by
  induction sz : data.length using Nat.strong_induction_on generalizing data with
  | _ n ih =>
    by_cases mem : newline ∈ data
    · obtain ⟨ft, tl, rfl, free⟩ := eq_append_cons_of_mem mem
      refine more ft tl free (ih tl.length ?_ tl rfl)
      rw [← sz, length_append, length_cons]
      omega
    · exact line data mem

section Lines

variable {α : Type} {read : Bytes → Option α} {limit : Nat}
  (newlineSkipped : read [newline] = none)
    (newlineDropped : ∀ line, newline ∉ line → read (line ++ [newline]) = read line)
include newlineSkipped newlineDropped

/-- For a reader to which newlines do not matter, a line is read by itself. -/
theorem filterMap_readLinesFrom_newline {cur line : Bytes} (currentFree : newline ∉ cur)
    (free : newline ∉ line) : (readLinesFrom limit cur (line ++ newline :: tl)).filterMap read =
      (readLinesFrom limit cur line).filterMap read ++ (readLinesFrom limit [] tl).filterMap read := by
  induction line generalizing cur with
  | nil =>
    have past : readLinesFrom limit cur (newline :: tl) = (cur ++ [newline]) :: readLinesFrom limit [] tl := by
      rw [readLinesFrom, if_pos (Or.inl rfl)]
    rw [nil_append, past, readLinesFrom, filterMap_cons, newlineDropped cur currentFree]
    by_cases emp : cur = []
    · have nt : read [] = none := by
        rw [← newlineSkipped]
        exact (newlineDropped [] not_mem_nil).symm
      rw [emp, nt]
      rfl
    · rw [if_neg emp, filterMap_cons]
      cases read cur <;> rfl
  | cons byte line ih =>
    have byteNot : byte ≠ newline := fun eq => free (eq ▸ mem_cons_self)
    have lineFree : newline ∉ line := fun mem => free (mem_cons_of_mem _ mem)
    rw [cons_append, readLinesFrom, readLinesFrom]
    by_cases full : byte = newline ∨ cur.length + 1 = limit
    · rw [if_pos full, if_pos full, filterMap_cons, filterMap_cons, ih not_mem_nil lineFree]
      cases read _ <;> rfl
    · rw [if_neg full, if_neg full]
      refine ih ?_ lineFree
      simp only [mem_append, mem_singleton, not_or]
      exact ⟨currentFree, byteNot.symm⟩

theorem filterMap_readLinesFrom (data : Bytes) : (readLinesFrom limit [] data).filterMap read =
      (textLines data).flatMap fun line => (readLinesFrom limit [] line).filterMap read := by
  induction data using lines_induction with
  | line line free =>
    have full : line.takeWhile (· ≠ newline) = line := by
      rw [takeWhile_eq_self_iff]
      intro byte mem
      simpa using fun eq : byte = newline => free (eq ▸ mem)
    rw [textLines, getlines_of_free free]
    by_cases emp : line = []
    · rw [emp]
      rfl
    · rw [if_neg emp, map_singleton, full, flatMap_singleton]
  | more line _ free ih =>
    rw [filterMap_readLinesFrom_newline newlineSkipped newlineDropped not_mem_nil free, ih,
      textLines, textLines, getlines_newline free, map_cons, takeWhile_newline free, flatMap_cons]

end Lines

end Aosp.Lib
