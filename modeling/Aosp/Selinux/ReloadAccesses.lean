import Aosp.Lib.Run
import Aosp.Selinux.SeappLookup

/-! # The string accesses of a load

Where `selinux_android_seapp_context_reload` reads and writes its strings in the two
passes over the files.  A function of the C library may touch a string from its start
to its NUL; the code itself skips spaces and tests the last character at `len - 1`.

Only the last test can leave a string, where the load comes to an empty one
(`reload_accesses_inside`).
-/

namespace Aosp.Selinux

open Aosp.Lib List

/-- An index into a string, with the place of the string's NUL. -/
structure Access where
  nul : Nat
  index : Int
deriving DecidableEq

def Access.Inside (acc : Access) : Prop := 0 ≤ acc.index ∧ acc.index ≤ acc.nul

instance (acc : Access) : Decidable acc.Inside := inferInstanceAs (Decidable (_ ∧ _))

def upTo (n : Nat) (s : Bytes) : List Access := (range (n + 1)).map fun i : Nat => ⟨s.length, i⟩

/-- A call of the C library. -/
def scan (s : Bytes) : List Access := upTo s.length s

/-- `while (isspace(*p)) p++` and the tests of `*p` that follow. -/
def skipSpace (s : Bytes) : List Access := upTo (s.takeWhile isspace).length s

/-- `s[len - 1]`. -/
def lastOf (s : Bytes) : List Access := [⟨s.length, (s.length : Int) - 1⟩]

/-- What the entry has of a selector whose last character is tested. -/
def testedSelector (cur : SeappContext) (n : Bytes) : Option (Option PrefixStr) :=
  if eqIgnoreCase n (ascii "user") then some cur.user
  else if eqIgnoreCase n (ascii "name") then some cur.name
  else if eqIgnoreCase n (ascii "path") then some cur.path
  else none

section Accesses

variable (e : ReloadEnv)

def tokenAccesses (cur : SeappContext) (token : Bytes) (count : Nat) : List Access :=
  scan token ++ match strchr token equalsSign with
    | none => []
    | some i =>
      let n := token.take i
      let v := token.drop (i + 1)
      scan n ++ scan v ++ if testedSelector cur n = some none ∧ e.allocs count then lastOf v else []

/-- The tokens up to one that is refused, and the check of the entry behind them. -/
def tokensAccesses (cur : SeappContext) : List Bytes → Nat → List Access
  | [], _ =>
    match cur.name with
    | none => []
    | some n => scan n.str ++ cur.seinfo.toList.flatMap scan
  | token :: tokens, count =>
    tokenAccesses e cur token count ++ match parseToken e cur token count with
      | .error _ => []
      | .ok (cur, count) => tokensAccesses cur tokens count

def lineAccesses (l : Bytes) (count : Nat) : List Access :=
  scan (cstr l) ++ lastOf (cstr l) ++ skipSpace (chomp l) ++ match entryText l with
    | none => []
    | some p => if e.allocs count then scan p ++ tokensAccesses e {} (words isBlank p) (count + 1) else []

def linesAccesses : List Bytes → Nat → List Access
  | [], _ => []
  | l :: ls, count =>
    lineAccesses e l count ++ match entryText l with
      | none => linesAccesses ls count
      | some p =>
        match parseEntry e p count with
        | .error _ => []
        | .ok (_, count) => linesAccesses ls count

def reloadAccesses : List Access :=
  (((e.files.takeWhile e.countOpens).flatMap e.linesOf).flatMap fun l => skipSpace (cstr l)) ++
    if e.files.all e.countOpens && e.arrayAlloc then
      linesAccesses e ((e.files.takeWhile e.fillOpens).flatMap e.linesOf) 0
    else []

end Accesses

/-! ## Where they stay inside -/

variable (e : ReloadEnv)

/-- The value is not empty if it is copied and its last character is tested. -/
def ValueGiven (cur : SeappContext) (token : Bytes) (count : Nat) : Prop :=
  ∀ i, strchr token equalsSign = some i → testedSelector cur (token.take i) = some none → e.allocs count →
    token.drop (i + 1) ≠ []

def ValuesGiven (cur : SeappContext) (tokens : List Bytes) (count : Nat) : Prop :=
  EachAfter (fun accepted token => ∀ cur' count', parseTokens e cur accepted count = .ok (cur', count') →
    ValueGiven e cur' token count') tokens

/-- The line does not start with a NUL, and gives its values. -/
def Usual (l : Bytes) (count : Nat) : Prop :=
  cstr l ≠ [] ∧ ∀ p ∈ entryText l, e.allocs count → ValuesGiven e {} (words isBlank p) (count + 1)

def LinesUsual (ls : List Bytes) (count : Nat) : Prop :=
  EachAfter (fun accepted l => ∀ ents count', parseEntries e (accepted.filterMap entryText) count = .ok (ents, count') →
    Usual e l count') ls

/-- The accesses are inside their strings. -/
def AllInside (accs : List Access) : Prop := ∀ acc ∈ accs, acc.Inside

variable {e} {cur : SeappContext} {s l token : Bytes} {n count : Nat} {one two : List Access}

theorem allInside_nil : AllInside [] := forall_mem_nil _

theorem allInside_append : AllInside (one ++ two) ↔ AllInside one ∧ AllInside two := forall_mem_append

theorem upTo_inside (le : n ≤ s.length) : AllInside (upTo n s) := by
  intro acc mem
  obtain ⟨i, lt, rfl⟩ := mem_map.mp mem
  have := mem_range.mp lt
  exact ⟨by simp, by simp; omega⟩

theorem scan_inside : AllInside (scan s) := upTo_inside le_rfl

theorem skipSpace_inside : AllInside (skipSpace s) := upTo_inside (takeWhile_sublist _).length_le

theorem lastOf_inside : AllInside (lastOf s) ↔ s ≠ [] := by
  cases s <;> simp [AllInside, lastOf, Access.Inside]

theorem tokenAccesses_inside : AllInside (tokenAccesses e cur token count) ↔ ValueGiven e cur token count := by
  rw [tokenAccesses, ValueGiven, allInside_append]
  cases strchr token equalsSign with
  | none => simp [scan_inside, allInside_nil]
  | some i =>
    simp only [allInside_append, scan_inside, true_and, Option.some.injEq, forall_eq']
    split
    next tested => simp [tested, lastOf_inside]
    next tested => simpa [allInside_nil] using fun sel all => absurd ⟨sel, all⟩ tested

theorem tokensAccesses_inside {tokens : List Bytes} :
    AllInside (tokensAccesses e cur tokens count) ↔ ValuesGiven e cur tokens count := by
  induction tokens generalizing cur count with
  | nil =>
    refine iff_of_true ?_ (eachAfter_nil _)
    unfold tokensAccesses
    split
    · exact allInside_nil
    · refine allInside_append.mpr ⟨scan_inside, fun acc mem => ?_⟩
      obtain ⟨_, -, mem⟩ := mem_flatMap.mp mem
      exact scan_inside acc mem
  | cons token tokens ih =>
    rw [tokensAccesses, allInside_append, tokenAccesses_inside, ValuesGiven, eachAfter_cons]
    refine and_congr ⟨fun given cur' count' parsed => ?_, fun given => given cur count rfl⟩ ?_
    · cases parsed
      exact given
    · cases parsed : parseToken e cur token count with
      | error _ =>
        refine iff_of_true allInside_nil fun accepted _ _ _ cur' count' late => ?_
        obtain ⟨_, _, first, -⟩ := Load.bind_eq_ok.mp late
        rw [parsed] at first
        cases first
      | ok after =>
        refine ih.trans ?_
        have step : ∀ accepted,
            parseTokens e cur (token :: accepted) count = parseTokens e after.1 accepted after.2 := by
          intro accepted
          change Load.bind _ _ count = _
          rw [Load.bind, parsed]
        simp only [step]
        rfl

theorem lineAccesses_inside : AllInside (lineAccesses e l count) ↔ Usual e l count := by
  simp only [lineAccesses, allInside_append, scan_inside, skipSpace_inside, lastOf_inside, true_and, and_true, Usual]
  refine and_congr_right fun _ => ?_
  cases entryText l with
  | none => simp [allInside_nil]
  | some p =>
    by_cases alloc : e.allocs count
    · simp [alloc, allInside_append, scan_inside, tokensAccesses_inside]
    · simp [alloc, allInside_nil]

theorem linesAccesses_inside {ls : List Bytes} : AllInside (linesAccesses e ls count) ↔ LinesUsual e ls count := by
  induction ls generalizing count with
  | nil => exact iff_of_true allInside_nil (eachAfter_nil _)
  | cons l ls ih =>
    rw [linesAccesses, allInside_append, lineAccesses_inside, LinesUsual, eachAfter_cons]
    refine and_congr ⟨fun usual ents count' parsed => ?_, fun usual => usual [] count rfl⟩ ?_
    · cases parsed
      exact usual
    · cases text : entryText l with
      | none =>
        simp only [filterMap_cons_none text]
        exact ih
      | some p =>
        simp only [filterMap_cons_some text, parseEntries_cons]
        cases parsed : parseEntry e p count with
        | error _ => exact iff_of_true allInside_nil (by rintro _ _ _ - _ _ ⟨⟩)
        | ok after =>
          refine ih.trans ⟨fun usual pre o post split ents count' parsed => ?_,
            fun usual pre o post split ents count' parsed => usual pre o post split (after.1 :: ents) count' ?_⟩
          · dsimp only at parsed
            cases rest : parseEntries e (pre.filterMap entryText) after.2 with
            | error _ => simp [rest] at parsed
            | ok late =>
              rw [rest] at parsed
              cases parsed
              exact usual pre o post split _ _ rest
          · simp [parsed]

/-- The accesses are inside their strings exactly if no line that the second pass comes
    to starts with a NUL or has an empty user, name or path behind accepted tokens. -/
theorem reload_accesses_inside : AllInside (reloadAccesses e) ↔ (e.files.all e.countOpens && e.arrayAlloc →
    LinesUsual e ((e.files.takeWhile e.fillOpens).flatMap e.linesOf) 0) := by
  have count : AllInside
    (((e.files.takeWhile e.countOpens).flatMap e.linesOf).flatMap fun l => skipSpace (cstr l)) := by
    intro acc mem
    obtain ⟨_, -, mem⟩ := mem_flatMap.mp mem
    exact skipSpace_inside acc mem
  rw [reloadAccesses, allInside_append]
  by_cases reached : (e.files.all e.countOpens && e.arrayAlloc) = true
  · simp [reached, count, linesAccesses_inside]
  · simp [reached, count, allInside_nil]

/-- An empty user, and a line that starts with a NUL. -/
theorem empty_string_underread : ¬ AllInside (reloadAccesses (rootFiles (ascii "user="))) ∧
    ¬ AllInside (reloadAccesses (rootFiles [0])) := by
  unfold AllInside
  decide +kernel

end Aosp.Selinux
