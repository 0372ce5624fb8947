import Aosp.Selinux.SeappContext

/-! # Loading `seapp_contexts`

Model of `selinux_android_seapp_context_reload` (`libselinux/src/android/android.c`):
the pass that counts the entries, the pass that parses them into the array, `qsort`,
and every way out of them.  What `access`, `fopen` and the allocator return and how
`qsort` goes about sorting are parameters (`ReloadEnv`).

`reload_of_loads` and `reload_of_not_loads` say what a call does; it depends on the
state before only through `seapp_contexts_dup`.
-/

namespace Aosp.Selinux

open Aosp.Lib List

/-! ## Parsing an entry -/

/-- Why an entry is not built: `goto err` or `goto oom`. -/
inductive LoadError where
  | invalid
  | oom
deriving DecidableEq

structure Sorter where
  tree : (n : Nat) → SortTree n
  correct : ∀ n, (tree n).Correct

/-- `contents` is the text of a file in both passes.  `allocs` tells whether the
    allocations made while entries are parsed succeed, in their order; `preceding` is
    the byte in front of a copied string, which is read where the string is empty. -/
structure ReloadEnv where
  long : LongSize := .bits64
  access : Bool := true
  contents : Bytes → Bytes
  countOpens : Bytes → Bool := fun _ => true
  fillOpens : Bytes → Bool := fun _ => true
  arrayAlloc : Bool := true
  allocs : Nat → Bool := fun _ => true
  preceding : UInt8 := 0
  qsort : Sorter

/-- A step of the parser, with the number of allocations made. -/
def Load (α : Type) : Type := Nat → Except LoadError (α × Nat)

namespace Load

def bind {α β : Type} (first : Load α) (next : α → Load β) : Load β := fun count =>
  match first count with
  | .error error => .error error
  | .ok (v, count) => next v count

instance : Monad Load where
  pure value := fun count => .ok (value, count)
  bind := bind

def invalid {α : Type} : Load α := fun _ => .error .invalid

end Load

section Parser

variable (e : ReloadEnv)

/-- One allocation. -/
def allocate : Load Unit := fun count => if e.allocs count then .ok ((), count + 1) else .error .oom

def parseFlag (v : Bytes) : Load Bool :=
  if eqIgnoreCase v (ascii "true") then pure true
  else if eqIgnoreCase v (ascii "false") then pure false
  else .invalid

/-- A copy of the value, unless the selector was given before. -/
def copyString (old : Option Bytes) (v : Bytes) : Load (Option Bytes) :=
  if old.isSome then .invalid
  else do
    allocate e
    return some v

def copyPrefixStr (old : Option PrefixStr) (v : Bytes) : Load (Option PrefixStr) :=
  if old.isSome then .invalid
  else do
    allocate e
    return some { str := v, isPrefix := v.getLastD e.preceding = asterisk }

/-- `none` where the source returns -1. -/
def getMinTargetSdkVersion (v : Bytes) : Option Nat := sdkVersion e.long (· = []) v

def parseLevelFrom (v : Bytes) : Load LevelFrom :=
  if eqIgnoreCase v (ascii "none") then pure .none
  else if eqIgnoreCase v (ascii "app") then pure .app
  else if eqIgnoreCase v (ascii "user") then pure .user
  else if eqIgnoreCase v (ascii "all") then pure .all
  else .invalid

/-- One `name=value`. -/
def parseField (cur : SeappContext) (n v : Bytes) : Load SeappContext :=
  if eqIgnoreCase n (ascii "isSystemServer") then do
    return { cur with isSystemServer := ← parseFlag v }
  else if eqIgnoreCase n (ascii "isEphemeralApp") then do
    return { cur with isEphemeralApp := some (← parseFlag v) }
  else if eqIgnoreCase n (ascii "isV2App") then do
    return { cur with isV2App := some (← parseFlag v) }
  else if eqIgnoreCase n (ascii "isOwner") then do
    return { cur with isOwner := some (← parseFlag v) }
  else if eqIgnoreCase n (ascii "user") then do
    return { cur with user := ← copyPrefixStr e cur.user v }
  else if eqIgnoreCase n (ascii "seinfo") then do
    let seinfo ← copyString e cur.seinfo v
    if colon ∈ v then .invalid else return { cur with seinfo }
  else if eqIgnoreCase n (ascii "name") then do
    return { cur with name := ← copyPrefixStr e cur.name v }
  else if eqIgnoreCase n (ascii "domain") then do
    return { cur with domain := ← copyString e cur.domain v }
  else if eqIgnoreCase n (ascii "type") then do
    return { cur with type := ← copyString e cur.type v }
  else if eqIgnoreCase n (ascii "levelFromUid") then
    if cur.levelFrom ≠ .none then .invalid
    else do
      return { cur with levelFrom := if ← parseFlag v then .app else .none }
  else if eqIgnoreCase n (ascii "levelFrom") then
    if cur.levelFrom ≠ .none then .invalid
    else do
      return { cur with levelFrom := ← parseLevelFrom v }
  else if eqIgnoreCase n (ascii "level") then do
    return { cur with level := ← copyString e cur.level v }
  else if eqIgnoreCase n (ascii "path") then do
    return { cur with path := ← copyPrefixStr e cur.path v }
  else if eqIgnoreCase n (ascii "isPrivApp") then do
    return { cur with isPrivApp := some (← parseFlag v) }
  else if eqIgnoreCase n (ascii "minTargetSdkVersion") then
    match getMinTargetSdkVersion e v with
    | none => .invalid
    | some minTargetSdkVersion => pure { cur with minTargetSdkVersion }
  else .invalid

def parseToken (cur : SeappContext) (token : Bytes) : Load SeappContext :=
  match strchr token equalsSign with
  | none => .invalid
  | some i => parseField e cur (token.take i) (token.drop (i + 1))

def parseTokens (cur : SeappContext) : List Bytes → Load SeappContext
  | [] => pure cur
  | token :: tokens => do
    let cur ← parseToken e cur token
    parseTokens cur tokens

def isBlank (byte : UInt8) : Bool := byte = 32 || byte = 9

/-- The entry of a line, from its first character that is not a space on. -/
def parseEntry (p : Bytes) : Load SeappContext := do
  allocate e
  let tokens := words isBlank p
  if tokens = [] then .invalid
  else
    let cur ← parseTokens e {} tokens
    if cur.name.isSome ∧ (cur.seinfo = none ∨ cur.seinfo = some (ascii "default")) then .invalid else return cur

def parseEntries : List Bytes → Load (List SeappContext)
  | [] => pure []
  | p :: ps => do
    let cur ← parseEntry e p
    let tl ← parseEntries ps
    return cur :: tl

end Parser

/-! ## The two passes -/

/-- The loops skip the line. -/
def skipped (p : Bytes) : Bool := p = [] || p.head? = some numberSign

def counted (l : Bytes) : Bool := !skipped ((cstr l).dropWhile isspace)

/-- What the second pass parses of a line.  (For a line that starts with a NUL it also
    looks at the byte in front of the buffer.) -/
def entryText (l : Bytes) : Option Bytes :=
  let p := (chomp l).dropWhile isspace
  if skipped p then none else some p

def seappContextsSplit : List Bytes :=
  [ascii "/system/etc/selinux/plat_seapp_contexts", ascii "/vendor/etc/selinux/nonplat_seapp_contexts"]

def seappContextsRootfs : List Bytes := [ascii "/plat_seapp_contexts", ascii "/nonplat_seapp_contexts"]

namespace ReloadEnv

def files (e : ReloadEnv) : List Bytes := if e.access then seappContextsSplit else seappContextsRootfs

/-- What `fgets` reads of a file, one after the other. -/
def linesOf (e : ReloadEnv) (f : Bytes) : List Bytes := readLinesFrom (BUFSIZ - 2) [] (e.contents f)

end ReloadEnv

/-- The counting pass: `nspec` in the end, and whether every file could be opened. -/
def countPass (e : ReloadEnv) : List Bytes → Nat → Nat × Bool
  | [], nspec => (nspec, true)
  | file :: files, nspec =>
    if e.countOpens file then countPass e files (nspec + (e.linesOf file).countP counted) else (nspec, false)

/-- Why the second pass ends early: an error, or a write behind the array. -/
inductive FillStop where
  | failed
  | outside
deriving DecidableEq

/-- The slots of the array, the ones in use, and the allocations made. -/
structure Fill where
  slots : List (Option SeappContext)
  nspec : Nat
  allocated : Nat

def fillLines (e : ReloadEnv) : List Bytes → Fill → Except FillStop Fill
  | [], fill => .ok fill
  | line :: lines, fill =>
    match entryText line with
    | none => fillLines e lines fill
    | some p =>
      match parseEntry e p fill.allocated with
      | .error _ => .error .failed
      | .ok (cur, allocated) =>
        if fill.nspec < fill.slots.length then
          fillLines e lines { slots := fill.slots.set fill.nspec (some cur), nspec := fill.nspec + 1, allocated }
        else .error .outside

def fillPass (e : ReloadEnv) : List Bytes → Fill → Except FillStop Fill
  | [], fill => .ok fill
  | file :: files, fill =>
    if e.fillOpens file then
      match fillLines e (e.linesOf file) fill with
      | .error stop => .error stop
      | .ok fill => fillPass e files fill
    else .error .failed

/-! ## `selinux_android_seapp_context_reload` -/

/-- The static variables; `once` is whether the first lookup has loaded the files. -/
structure SeappState where
  seappContexts : Option (List (Option SeappContext)) := none
  nspec : Nat := 0
  seappContextsDup : Bool := false
  once : Bool := false

/-- What `qsort` makes of the entries, and whether it compares duplicates on the way. -/
def sortEntries (qsort : Sorter) (ents : List SeappContext) : List SeappContext × Bool :=
  let cmp (i j : Fin ents.length) : Ordering := (ents.get i).precedence (ents.get j)
  let t := qsort.tree ents.length
  ((t.order cmp).map ents.get, (t.compared cmp).any fun pair => (ents.get pair.1).setsDup (ents.get pair.2))

namespace SeappState

def freeSeappContexts (s : SeappState) : SeappState :=
  match s.seappContexts with
  | none => s
  | some _ => { s with seappContexts := none, nspec := 0 }

/-- The state and the return value; `none` if memory outside the array is written or a
    slot without an entry is read. -/
def reload (e : ReloadEnv) (s : SeappState) : Option (SeappState × Int) :=
  let s := { s.freeSeappContexts with nspec := 0 }
  match countPass e e.files 0 with
  | (nspec, false) => some ({ s with nspec }, -1)
  | (nspec, true) =>
    let s := { s with nspec }
    if !e.arrayAlloc then some (s.freeSeappContexts, -1)
    else
      match fillPass e e.files { slots := List.replicate nspec none, nspec := 0, allocated := 0 } with
      | .error .outside => none
      | .error .failed => some ({ s with seappContexts := some [] }.freeSeappContexts, -1)
      | .ok fill =>
        match (fill.slots.take fill.nspec).allSome with
        | none => none
        | some ents =>
          let (sorted, dup) := sortEntries e.qsort ents
          let s :=
            { s with
              seappContexts := some (sorted.map some ++ fill.slots.drop fill.nspec)
              nspec := fill.nspec
              seappContextsDup := s.seappContextsDup || dup }
          if s.seappContextsDup then some (s.freeSeappContexts, -1) else some (s, 0)

end SeappState

/-! ## What the parser returns

Two runs of the parser on the same text, with other allocations, return the same if
both return. -/

namespace Load

/-- Where both return they return the same, and it is good. -/
def SameResult {α : Type} (good : α → Prop) (one two : Load α) : Prop :=
  ∀ count v post otherCount o otherAfter, one count = .ok (v, post) →
    two otherCount = .ok (o, otherAfter) → o = v ∧ good v

theorem bind_eq_ok {α β : Type} {first : Load α} {next : α → Load β} {cnt : Nat} {res : β × Nat} :
    (first >>= next) cnt = .ok res ↔ ∃ v post, first cnt = .ok (v, post) ∧ next v post = .ok res := by
  change bind first next cnt = .ok res ↔ _
  unfold bind
  cases first cnt with
  | error error => simp
  | ok pair =>
    obtain ⟨v, post⟩ := pair
    simp

namespace SameResult

variable {α β : Type} {good : α → Prop}

theorem pure {v : α} (isGood : good v) : SameResult good (Pure.pure v) (Pure.pure v) := by
  intro _ _ _ _ _ _ one two
  cases one
  cases two
  exact ⟨rfl, isGood⟩

variable {two : Load α}

theorem invalid : SameResult good Load.invalid two := by
  intro _ _ _ _ _ _ one
  cases one

theorem bind {goodNext : β → Prop} {first snd : Load α} {next o : α → Load β}
    (eq : SameResult good first snd) (tl : ∀ v, good v → SameResult goodNext (next v) (o v)) :
    SameResult goodNext (first >>= next) (snd >>= o) := by
  intro _ _ _ _ _ _ one two
  obtain ⟨v, _, early, late⟩ := bind_eq_ok.mp one
  obtain ⟨_, _, otherEarly, otherLate⟩ := bind_eq_ok.mp two
  obtain ⟨rfl, isGood⟩ := eq _ _ _ _ _ _ early otherEarly
  exact tl _ isGood _ _ _ _ _ _ late otherLate

theorem ite {cond : Prop} [Decidable cond] {one o otherElse : Load α}
    (yes : cond → SameResult good one o) (no : ¬ cond → SameResult good two otherElse) :
    SameResult good (if cond then one else two) (if cond then o else otherElse) := by
  by_cases hh : cond
  · rw [if_pos hh, if_pos hh]
    exact yes hh
  · rw [if_neg hh, if_neg hh]
    exact no hh

end SameResult

end Load

section SameParse

open Load

variable {e o : ReloadEnv} {cur : SeappContext} {p v : Bytes}

theorem allocate_same : SameResult (fun _ => True) (allocate e) (allocate o) := by
  intro _ _ _ _ _ _ _ _
  exact ⟨rfl, trivial⟩

theorem parseFlag_same (v : Bytes) : SameResult (fun _ => True) (parseFlag v) (parseFlag v) :=
  .ite (fun _ => .pure trivial) fun _ => .ite (fun _ => .pure trivial) fun _ => .invalid

theorem parseLevelFrom_same (v : Bytes) : SameResult (fun _ => True) (parseLevelFrom v) (parseLevelFrom v) :=
  .ite (fun _ => .pure trivial) fun _ => .ite (fun _ => .pure trivial) fun _ =>
    .ite (fun _ => .pure trivial) fun _ => .ite (fun _ => .pure trivial) fun _ => .invalid

theorem copyString_same (old : Option Bytes) (v : Bytes) :
    SameResult (fun _ => True) (copyString e old v) (copyString o old v) :=
  .ite (fun _ => .invalid) fun _ => .bind allocate_same fun _ _ => .pure trivial

variable (same : e.preceding = o.preceding ∧ e.long = o.long)
include same

theorem copyPrefixStr_same (old : Option PrefixStr) (free : NulFree v) (fits : v.length ≤ BUFSIZ) :
    SameResult (fun copy => ∀ str ∈ copy, str.WellFormed) (copyPrefixStr e old v) (copyPrefixStr o old v) := by
  refine .ite (fun _ => .invalid) fun _ => .bind allocate_same fun _ _ => ?_
  rw [same.1]
  refine .pure ?_
  intro str copy
  cases copy
  refine ⟨free, fits, ?_⟩
  intro isPrefix
  cases v using List.reverseRecOn with
  | nil => exact .inl rfl
  | append_singleton _ _ =>
    simpa using isPrefix

theorem parseField_same (formed : cur.WellFormed) (n : Bytes) (free : NulFree v) (fits : v.length ≤ BUFSIZ) :
    SameResult SeappContext.WellFormed (parseField e cur n v) (parseField o cur n v) := by
  have flag : ∀ set : Bool → SeappContext, (∀ on, (set on).WellFormed) →
      SameResult SeappContext.WellFormed _
        _ :=
    fun _ keep => .bind (parseFlag_same v) fun on _ => .pure (keep on)
  have str : ∀ (old : Option Bytes) (set : Option Bytes → SeappContext), (∀ copy, (set copy).WellFormed) →
      SameResult SeappContext.WellFormed (copyString e old v >>= fun copy => pure _)
        (copyString o old v >>= fun copy => pure _) :=
    fun old _ keep => .bind (copyString_same old v) fun copy _ => .pure (keep copy)
  obtain ⟨user, name, p⟩ := formed
  have copy := fun old => copyPrefixStr_same same old free fits
  refine .ite (fun _ => flag _ fun _ => ⟨user, name, p⟩) fun _ => ?_
  refine .ite (fun _ => flag _ fun _ => ⟨user, name, p⟩) fun _ => ?_
  refine .ite (fun _ => flag _ fun _ => ⟨user, name, p⟩) fun _ => ?_
  refine .ite (fun _ => flag _ fun _ => ⟨user, name, p⟩) fun _ => ?_
  refine .ite (fun _ => .bind (copy _) fun _ user => .pure ⟨user, name, p⟩) fun _ => ?_
  refine .ite (fun _ => ?_) fun _ => ?_
  · refine .bind (copyString_same _ v) fun _ _ => .ite (fun _ => .invalid) fun _ => .pure ?_
    exact ⟨user, name, p⟩
  refine .ite (fun _ => .bind (copy _) fun _ n => .pure ⟨user, n, p⟩) fun _ => ?_
  refine .ite (fun _ => str _ _ fun _ => ⟨user, name, p⟩) fun _ => ?_
  refine .ite (fun _ => str _ _ fun _ => ⟨user, name, p⟩) fun _ => ?_
  refine .ite (fun _ => .ite (fun _ => .invalid) fun _ => ?_) fun _ => ?_
  · exact flag _ fun _ => ⟨user, name, p⟩
  refine .ite (fun _ => .ite (fun _ => .invalid) fun _ => ?_) fun _ => ?_
  · refine .bind (parseLevelFrom_same v) fun _ _ => .pure ?_
    exact ⟨user, name, p⟩
  refine .ite (fun _ => str _ _ fun _ => ⟨user, name, p⟩) fun _ => ?_
  refine .ite (fun _ => .bind (copy _) fun _ p => .pure ⟨user, name, p⟩) fun _ => ?_
  refine .ite (fun _ => flag _ fun _ => ⟨user, name, p⟩) fun _ => ?_
  refine .ite (fun _ => ?_) fun _ => .invalid
  rw [getMinTargetSdkVersion, getMinTargetSdkVersion, same.2]
  cases sdkVersion o.long (· = []) v with
  | none => exact .invalid
  | some _ => exact .pure ⟨user, name, p⟩

end SameParse

section SameParse

open Load

variable {e o : ReloadEnv} {cur : SeappContext} {p : Bytes} (same : e.preceding = o.preceding ∧ e.long = o.long)
include same

theorem parseToken_same (formed : cur.WellFormed) {tok : Bytes} (free : NulFree tok) (short : tok.length ≤ BUFSIZ) :
    SameResult SeappContext.WellFormed (parseToken e cur tok) (parseToken o cur tok) := by
  unfold parseToken
  cases strchr tok equalsSign with
  | none => exact .invalid
  | some i =>
    have fits : (tok.drop (i + 1)).length ≤ BUFSIZ := by
      rw [length_drop]
      omega
    exact parseField_same same formed _ (free.drop _) fits

theorem parseTokens_same {toks : List Bytes} (free : ∀ tok ∈ toks, NulFree tok)
    (fits : ∀ tok ∈ toks, tok.length ≤ BUFSIZ) (formed : cur.WellFormed) :
    SameResult SeappContext.WellFormed (parseTokens e cur toks) (parseTokens o cur toks) := by
  induction toks generalizing cur with
  | nil => exact .pure formed
  | cons tok toks ih =>
    refine .bind (parseToken_same same formed (free tok mem_cons_self)
      (fits tok mem_cons_self)) fun _ nextFormed => ?_
    exact ih (fun late mem => free late (mem_cons_of_mem _ mem))
      (fun late mem => fits late (mem_cons_of_mem _ mem)) nextFormed

theorem parseEntry_same (free : NulFree p) (fits : p.length ≤ BUFSIZ) :
    SameResult SeappContext.WellFormed (parseEntry e p) (parseEntry o p) := by
  have emptyFormed : ({} : SeappContext).WellFormed := ⟨nofun, nofun, nofun⟩
  refine .bind allocate_same fun _ _ => .ite (fun _ => .invalid) fun _ => ?_
  refine .bind (parseTokens_same same ?_ ?_ emptyFormed) fun _ formed =>
    .ite (fun _ => .invalid) fun _ => .pure formed
  · exact fun tok mem => nulFree_words free mem
  · exact fun tok mem => (length_words mem).trans fits

end SameParse

def Parses (e : ReloadEnv) (p : Bytes) (ent : SeappContext) : Prop :=
  ∃ pre post, parseEntry e p pre = .ok (ent, post)

variable {e : ReloadEnv} {ents es : List SeappContext} {l p : Bytes} {fls : List Bytes}

theorem parses_of_parseEntries {texts : List Bytes} {pre post : Nat}
    (read : parseEntries e texts pre = .ok (ents, post)) : List.Forall₂ (Parses e) texts ents := by
  induction texts generalizing pre ents with
  | nil =>
    cases read
    exact .nil
  | cons p texts ih =>
    obtain ⟨_, mid, first, tl⟩ := Load.bind_eq_ok.mp read
    obtain ⟨_, _, rest, full⟩ := Load.bind_eq_ok.mp tl
    cases full
    exact .cons ⟨pre, mid, first⟩ (ih rest)

/-! ## The texts of the entries -/

/-- Both passes skip the same lines. -/
theorem counted_eq (l : Bytes) : counted l = (entryText l).isSome := by
  have eq : skipped ((cstr l).dropWhile isspace) = skipped ((chomp l).dropWhile isspace) := by
    unfold chomp
    dsimp only
    split
    next ends =>
      obtain ⟨ft, t⟩ := List.getLast?_eq_some_iff.mp ends
      rw [t, dropLast_concat, dropWhile_append]
      cases ft.dropWhile isspace with
      | nil => rfl
      | cons _ _ => simp [skipped]
    next => rfl
  rw [counted, entryText, eq]
  cases skipped _ <;> simp

theorem entryText_formed (t : entryText l = some p) : NulFree p ∧ p.length ≤ l.length := by
  rw [entryText] at t
  split at t
  · cases t
  · cases t
    have chompLength : (chomp l).length ≤ l.length := by
      refine le_trans ?_ (cstr_length_le l)
      unfold chomp
      dsimp only
      split
      · exact (List.dropLast_prefix _).length_le
      · exact le_rfl
    exact ⟨nulFree_of_subset (nulFree_chomp l) (dropWhile_suffix _).subset,
      (dropWhile_suffix _).length_le.trans chompLength⟩

theorem chomp_newline (free : newline ∉ l) : chomp (l ++ [newline]) = chomp l := by
  by_cases ended : 0 ∈ l
  · obtain ⟨_, _, rfl⟩ := append_of_mem ended
    rw [append_assoc, cons_append, chomp, chomp, cstr_append_zero, cstr_append_zero]
  · have nulFree : NulFree (l ++ [newline]) := by
      simp only [NulFree, mem_append, not_or]
      exact ⟨ended, by decide⟩
    have noNewline : l.getLast? ≠ some newline := by
      intro ends
      exact free (mem_of_getLast? ends)
    rw [chomp, chomp, cstr_of_nulFree nulFree, cstr_of_nulFree ended, if_neg noNewline,
      if_pos (List.getLast?_concat ..), dropLast_concat]

theorem entryText_newline (free : newline ∉ l) : entryText (l ++ [newline]) = entryText l := by
  rw [entryText, entryText, chomp_newline free]

namespace ReloadEnv

def lines (e : ReloadEnv) : List Bytes := e.files.flatMap fun f => textLines (e.contents f)

def texts (e : ReloadEnv) : List Bytes := e.files.flatMap fun f => (e.linesOf f).filterMap entryText

theorem texts_eq (e : ReloadEnv) :
    e.texts = e.lines.flatMap fun l => (readLinesFrom (BUFSIZ - 2) [] l).filterMap entryText := by
  rw [texts, lines, flatMap_assoc]
  congr 1
  funext file
  exact filterMap_readLinesFrom rfl (fun _ => entryText_newline) _

theorem formed_of_mem_texts {e : ReloadEnv} (mem : p ∈ e.texts) : NulFree p ∧ p.length ≤ BUFSIZ := by
  obtain ⟨f, -, inFile⟩ := mem_flatMap.mp mem
  obtain ⟨l, inLines, t⟩ := mem_filterMap.mp inFile
  obtain ⟨free, _⟩ := entryText_formed t
  have lineShort : l.length ≤ BUFSIZ - 2 := length_readLinesFrom (by decide) inLines
  exact ⟨free, by omega⟩

end ReloadEnv

open ReloadEnv

theorem perm_of_parses {o : ReloadEnv} (same : e.preceding = o.preceding ∧ e.long = o.long)
    (sameLines : e.lines.Perm o.lines) {otherEntries : List SeappContext} (read : List.Forall₂ (Parses e) e.texts ents)
    (otherParsed : List.Forall₂ (Parses o) o.texts otherEntries) : ents.Perm otherEntries := by
  have sameTexts : e.texts.Perm o.texts := by
    rw [e.texts_eq, o.texts_eq]
    exact sameLines.flatMap_right _
  obtain ⟨_, parsedReordered, perm⟩ := perm_comp_forall₂ sameTexts otherParsed
  have unique : ∀ {texts : List Bytes} {one two : List SeappContext}, (∀ p ∈ texts, NulFree p ∧ p.length ≤ BUFSIZ) →
      List.Forall₂ (Parses e) texts one → List.Forall₂ (Parses o) texts two → two = one := by
    intro texts one two formed first snd
    induction first generalizing two with
    | nil =>
      cases snd
      rfl
    | cons ent _ ih =>
      cases snd with
      | cons otherEntry otherRest =>
        obtain ⟨_, _, ent⟩ := ent
        obtain ⟨_, _, otherEntry⟩ := otherEntry
        obtain ⟨free, fits⟩ := formed _ mem_cons_self
        rw [(parseEntry_same same free fits _ _ _ _ _ _ ent otherEntry).1,
          ih (fun p mem => formed p (mem_cons_of_mem _ mem)) otherRest]
  rw [← unique (fun p => formed_of_mem_texts) read parsedReordered]
  exact perm

theorem wellFormed_of_parses (read : List.Forall₂ (Parses e) e.texts es) : ∀ ent ∈ es, ent.WellFormed := by
  have each : ∀ {texts : List Bytes} {es : List SeappContext}, (∀ p ∈ texts, NulFree p ∧ p.length ≤ BUFSIZ) →
      List.Forall₂ (Parses e) texts es → ∀ ent ∈ es, ent.WellFormed := by
    intro texts es formed read
    induction read with
    | nil => simp
    | cons first _ ih =>
      obtain ⟨_, _, first⟩ := first
      obtain ⟨free, fits⟩ := formed _ mem_cons_self
      intro ent mem
      cases mem_cons.mp mem with
      | inl eq =>
        rw [eq]
        exact (parseEntry_same ⟨rfl, rfl⟩ free fits _ _ _ _ _ _ first first).2
      | inr late => exact ih (fun p inTail => formed p (mem_cons_of_mem _ inTail)) ent late
  exact each (fun p => formed_of_mem_texts) read

/-! ## What a reload does -/

theorem parseEntries_cons (e : ReloadEnv) (p : Bytes) (ps : List Bytes) (cnt : Nat) :
    parseEntries e (p :: ps) cnt = match parseEntry e p cnt with
      | .error error => .error error
      | .ok (cur, mid) =>
        match parseEntries e ps mid with
        | .error error => .error error
        | .ok (rest, post) => .ok (cur :: rest, post) := by
  change Load.bind _ _ cnt = _
  rw [Load.bind]
  cases parseEntry e p cnt with
  | error error => rfl
  | ok pair =>
    obtain ⟨cur, mid⟩ := pair
    change Load.bind _ _ mid = _
    rw [Load.bind]
    dsimp only
    cases parseEntries e ps mid <;> rfl

/-- The array with the entries in front and free slots behind them. -/
def Fill.holding (ents : List SeappContext) (free allocated : Nat) : Fill :=
  { slots := ents.map some ++ List.replicate free none, nspec := ents.length, allocated }

theorem fillLines_append (e : ReloadEnv) (ea late : List Bytes) (fill : Fill) :
    fillLines e (ea ++ late) fill = match fillLines e ea fill with
      | .error stop => .error stop
      | .ok mid => fillLines e late mid := by
  induction ea generalizing fill with
  | nil => rfl
  | cons l ea ih =>
    rw [cons_append, fillLines, fillLines]
    split
    · exact ih fill
    · split
      · rfl
      · split
        · exact ih _
        · rfl

theorem holding_set (st : List SeappContext) (cur : SeappContext) (free : Nat) :
    (st.map some ++ List.replicate (free + 1) none).set st.length (some cur) =
      (st ++ [cur]).map some ++ List.replicate free none := by
  simp [replicate_succ]

theorem fillLines_holding (e : ReloadEnv) (lns : List Bytes) (st : List SeappContext) (free al : Nat) :
    fillLines e lns (.holding st ((lns.filterMap entryText).length + free) al) =
      match parseEntries e (lns.filterMap entryText) al with
      | .error _ => .error .failed
      | .ok (ents, post) => .ok (.holding (st ++ ents) free post) := by
  induction lns generalizing st al with
  | nil => simp [fillLines, parseEntries, pure]
  | cons l lns ih =>
    rw [fillLines]
    cases t : entryText l with
    | none =>
      rw [filterMap_cons_none t]
      exact ih st al
    | some p =>
      rw [filterMap_cons_some t, parseEntries_cons, length_cons, Nat.add_right_comm]
      dsimp only [Fill.holding]
      cases parseEntry e p al with
      | error error => rfl
      | ok pair =>
        obtain ⟨cur, mid⟩ := pair
        have tl := ih (st ++ [cur]) mid
        rw [Fill.holding, length_append, length_singleton] at tl
        simp only [length_append, length_map, length_replicate]
        rw [if_pos (by omega), holding_set, tl]
        cases parseEntries e _ mid with
        | error error => rfl
        | ok pair => simp [Fill.holding]

/-- How many entries the files have. -/
def entryCount (e : ReloadEnv) (files : List Bytes) : Nat :=
  (files.flatMap fun f => (e.linesOf f).filterMap entryText).length

theorem entryCount_cons (e : ReloadEnv) (f : Bytes) (fls : List Bytes) :
    entryCount e (f :: fls) = ((e.linesOf f).filterMap entryText).length + entryCount e fls := by
  rw [entryCount, flatMap_cons, length_append, entryCount]

theorem countP_counted (lns : List Bytes) : lns.countP counted = (lns.filterMap entryText).length := by
  rw [length_filterMap_eq_countP]
  congr 1
  funext l
  exact counted_eq l

/-- The counting pass ends in front of the first file that cannot be opened. -/
theorem countPass_eq (e : ReloadEnv) (fls : List Bytes) (nspec : Nat) :
    countPass e fls nspec = (nspec + entryCount e (fls.takeWhile e.countOpens), fls.all e.countOpens) := by
  induction fls generalizing nspec with
  | nil => rfl
  | cons f fls ih =>
    rw [countPass]
    cases hop : e.countOpens f with
    | false => simp [hop, entryCount]
    | true =>
      rw [if_pos rfl, ih, countP_counted, takeWhile_cons_of_pos hop, entryCount_cons,
        Nat.add_assoc, all_cons, hop, Bool.true_and]

theorem fillPass_opened (hop : ∀ f ∈ fls, e.fillOpens f = true) (fill : Fill) :
    fillPass e fls fill = fillLines e (fls.flatMap e.linesOf) fill := by
  induction fls generalizing fill with
  | nil => rfl
  | cons f fls ih =>
    rw [fillPass, if_pos (hop f mem_cons_self), flatMap_cons, fillLines_append]
    cases fillLines e _ fill with
    | error _ => rfl
    | ok fill => exact ih (fun late mem => hop late (mem_cons_of_mem _ mem)) fill

theorem fillPass_closed (closed : ∃ f ∈ fls, e.fillOpens f = false) (st : List SeappContext) (al : Nat) :
    fillPass e fls (.holding st (entryCount e fls) al) = .error .failed := by
  induction fls generalizing st al with
  | nil => simp at closed
  | cons f fls ih =>
    rw [fillPass]
    cases hop : e.fillOpens f with
    | false => rfl
    | true =>
      obtain ⟨o, mem, shut⟩ := closed
      have late : o ∈ fls := by
        refine (mem_cons.mp mem).resolve_left ?_
        rintro rfl
        rw [hop] at shut
        cases shut
      rw [entryCount_cons, fillLines_holding]
      cases parseEntries e _ al with
      | error error => rfl
      | ok _ => exact ih ⟨o, late, shut⟩ _ _

namespace ReloadEnv

/-- Every file can be opened in both passes. -/
def opens (e : ReloadEnv) : Bool := e.files.all fun f => e.countOpens f && e.fillOpens f

/-- The entries that are parsed, if nothing fails. -/
def loads (e : ReloadEnv) : Option (List SeappContext) :=
  if e.opens && e.arrayAlloc then
    match parseEntries e e.texts 0 with
    | .ok (ents, _) => some ents
    | .error _ => none
  else none

def leftOver (e : ReloadEnv) : Nat :=
  if e.files.all e.countOpens && e.arrayAlloc then 0 else entryCount e (e.files.takeWhile e.countOpens)

def findsDup (e : ReloadEnv) : Bool :=
  match e.loads with
  | none => false
  | some ents => (sortEntries e.qsort ents).2

theorem parses_of_loads {e : ReloadEnv} (load : e.loads = some es) : List.Forall₂ (Parses e) e.texts es := by
  unfold loads at load
  split at load
  · split at load
    next read =>
      cases load
      exact parses_of_parseEntries read
    next => cases load
  · cases load

end ReloadEnv

theorem takeWhile_of_all {α : Type} {test : α → Bool} {l : List α} (all : l.all test = true) : l.takeWhile test = l :=
  takeWhile_eq_self_iff.mpr (all_eq_true.mp all)

theorem allSome_map_some (es : List SeappContext) : (es.map some).allSome = some es := by
  rw [List.allSome]
  induction es with
  | nil => rfl
  | cons _ es ih => simp [ih]

theorem fillPass_eq (e : ReloadEnv) (hc : e.files.all e.countOpens = true) (al : e.arrayAlloc = true) :
    (∃ ents post, e.loads = some ents ∧
      fillPass e e.files (.holding [] (entryCount e e.files) 0) = .ok (.holding ents 0 post)) ∨
    e.loads = none ∧ fillPass e e.files (.holding [] (entryCount e e.files) 0) = .error .failed := by
  by_cases file : ∀ f ∈ e.files, e.fillOpens f = true
  · have hop : e.opens = true := by
      rw [opens, all_eq_true]
      intro f mem
      rw [all_eq_true.mp hc f mem, file f mem]
      rfl
    have allTexts : (e.files.flatMap e.linesOf).filterMap entryText = e.texts := filterMap_flatMap
    have sz : entryCount e e.files = ((e.files.flatMap e.linesOf).filterMap entryText).length + 0 := by
      rw [allTexts]
      rfl
    rw [loads, hop, al, fillPass_opened file, sz, fillLines_holding, allTexts]
    cases parseEntries e e.texts 0 with
    | error error => exact .inr ⟨rfl, rfl⟩
    | ok pair => exact .inl ⟨pair.1, pair.2, rfl, rfl⟩
  · have shut : ∃ f ∈ e.files, e.fillOpens f = false := by simpa using file
    have notOpened : e.opens = false := by
      obtain ⟨f, mem, closed⟩ := shut
      rw [opens, all_eq_false]
      exact ⟨f, mem, by simp [closed]⟩
    refine .inr ⟨?_, fillPass_closed shut [] 0⟩
    rw [loads, notOpened]
    rfl

/-- Precedence of the entries at two places. -/
instance (ents : List SeappContext) :
    Std.TransCmp fun i j : Fin ents.length => (ents.get i).precedence (ents.get j) where
  eq_swap := Std.OrientedCmp.eq_swap
  isLE_trans := Std.TransCmp.isLE_trans

theorem sortEntries_perm (qsort : Sorter) (es : List SeappContext) : (sortEntries qsort es).1.Perm es := by
  have sorted := qsort.correct es.length fun i j => (es.get i).precedence (es.get j)
  have image := sorted.perm.map es.get
  rwa [map_get_finRange] at image

theorem sortEntries_inPrecedence (qsort : Sorter) (es : List SeappContext) : InPrecedence (sortEntries qsort es).1 := by
  have sorted := qsort.correct es.length fun i j => (es.get i).precedence (es.get j)
  exact pairwise_map.mpr sorted.sorted

namespace SeappState

@[simp] theorem seappContexts_freeSeappContexts (s : SeappState) : s.freeSeappContexts.seappContexts = none := by
  obtain ⟨arr, _, _, _⟩ := s
  cases arr <;> rfl

@[simp] theorem dup_freeSeappContexts (s : SeappState) : s.freeSeappContexts.seappContextsDup = s.seappContextsDup := by
  obtain ⟨arr, _, _, _⟩ := s
  cases arr <;> rfl

@[simp] theorem once_freeSeappContexts (s : SeappState) : s.freeSeappContexts.once = s.once := by
  obtain ⟨arr, _, _, _⟩ := s
  cases arr <;> rfl

@[simp] theorem freeSeappContexts_none (nspec : Nat) (dup once : Bool) :
    freeSeappContexts ⟨none, nspec, dup, once⟩ = ⟨none, nspec, dup, once⟩ := rfl

@[simp] theorem freeSeappContexts_some (arr : List (Option SeappContext)) (nspec : Nat) (dup once : Bool) :
    freeSeappContexts ⟨some arr, nspec, dup, once⟩ = ⟨none, 0, dup, once⟩ := rfl

theorem reload_of_not_loads {e : ReloadEnv} (fail : e.loads = none) (s : SeappState) :
    s.reload e = some ({ s with seappContexts := none, nspec := e.leftOver }, -1) := by
  have hc := countPass_eq e e.files 0
  cases hop : e.files.all e.countOpens with
  | false =>
    simp [reload, leftOver, hc, hop]
  | true =>
    cases al : e.arrayAlloc with
    | false => simp [reload, leftOver, hc, hop, al]
    | true =>
      rcases fillPass_eq e hop al with ⟨ents, post, load, -⟩ | ⟨-, full⟩
      · rw [fail] at load
        cases load
      · simp only [Fill.holding, map_nil, nil_append, length_nil] at full
        simp [reload, leftOver, hc, hop, al, full, takeWhile_of_all hop]

/-- Files that load are refused if duplicates were compared, now or ever before. -/
theorem reload_of_loads {e : ReloadEnv} (load : e.loads = some es) (s : SeappState) :
    s.reload e = if s.seappContextsDup || e.findsDup then
        some ({ s with seappContexts := none, nspec := 0, seappContextsDup := true }, -1)
      else
        some ({ s with
          seappContexts := some ((sortEntries e.qsort es).1.map some), nspec := es.length }, 0) := by
  have both : e.opens = true ∧ e.arrayAlloc = true := by
    unfold loads at load
    split at load
    next both => simpa using both
    next => cases load
  have hop : e.files.all e.countOpens = true := by
    rw [all_eq_true]
    intro f mem
    have both := all_eq_true.mp both.1 f mem
    simp only [Bool.and_eq_true] at both
    exact both.1
  have hc := countPass_eq e e.files 0
  rw [hop, takeWhile_of_all hop] at hc
  rcases fillPass_eq e hop both.2 with ⟨read, post, sameLoaded, full⟩ | ⟨fail, -⟩
  · have eq : read = es := Option.some.inj (sameLoaded.symm.trans load)
    rw [eq] at full
    simp only [Fill.holding, map_nil, nil_append, length_nil, replicate_zero, append_nil] at full
    have hf : e.findsDup = (sortEntries e.qsort es).2 := by
      rw [findsDup, load]
    have whole : (es.map some).take es.length = es.map some := take_of_length_le (by simp)
    rw [hf]
    simp only [reload, hc, Nat.zero_add, both.2, full, whole, allSome_map_some]
    obtain ⟨_, nspec, dup, _⟩ := s
    cases dup <;> cases (sortEntries e.qsort es).2 <;> simp
  · rw [load] at fail
    cases fail

end SeappState

end Aosp.Selinux
