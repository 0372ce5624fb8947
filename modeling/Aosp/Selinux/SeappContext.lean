import Aosp.Lib.ComparisonSort
import Aosp.Lib.Text

/-! # Entries of `seapp_contexts` and their precedence

Model of `struct seapp_context`, of `seapp_context_cmp`, by which `qsort` orders the
entries, and of the search of `seapp_context_lookup` through the ordered array
(`libselinux/src/android/android.c`).

`precedence_eq_compare` reduces the comparison function to the order of keys, which
makes it a total preorder.  Two entries of equal precedence that match one query have
the same input selectors but for case (`sameButCase_of_matches`), so that a query
determines its entry wherever selectors are distinct.
-/

namespace Aosp.Selinux

open Aosp.Lib List

inductive LevelFrom where
  | none
  | app
  | user
  | all
deriving DecidableEq

/-- `struct prefix_str` whose `str` is not null; `len` is the length of `str`. -/
structure PrefixStr where
  str : Bytes
  isPrefix : Bool
deriving DecidableEq

def PrefixStr.len (string : PrefixStr) : Nat := string.str.length

/-- A flag together with its `Set` is `none` while it is not set; a null pointer is
    `none`. -/
structure SeappContext where
  isSystemServer : Bool := false
  isEphemeralApp : Option Bool := none
  isV2App : Option Bool := none
  isOwner : Option Bool := none
  user : Option PrefixStr := none
  seinfo : Option Bytes := none
  name : Option PrefixStr := none
  path : Option PrefixStr := none
  isPrivApp : Option Bool := none
  minTargetSdkVersion : Nat := 0
  domain : Option Bytes := none
  type : Option Bytes := none
  level : Option Bytes := none
  levelFrom : LevelFrom := .none
deriving DecidableEq

/-! ## `seapp_context_cmp` -/

/-- Precedence to a specified selector over an unspecified one. -/
def preferSpecified (one two : Bool) : Ordering :=
  if one ≠ two then if one then .lt else .gt else .eq

/-- Precedence to a specified string, to a fixed one over a prefix, and to a longer
    prefix over a shorter one. -/
def preferString : Option PrefixStr → Option PrefixStr → Ordering
  | some _, none => .lt
  | none, some _ => .gt
  | none, none => .eq
  | some one, some two =>
    if one.isPrefix ≠ two.isPrefix then if two.isPrefix then .lt else .gt
    else if one.isPrefix ∧ one.len ≠ two.len then if one.len > two.len then .lt else .gt
    else .eq

def preferHigher (one two : Nat) : Ordering :=
  if one > two then .lt else if one < two then .gt else .eq

namespace SeappContext

/-- What `seapp_context_cmp` returns: `lt` is -1, `gt` is 1. -/
def precedence (s1 s2 : SeappContext) : Ordering :=
  (preferSpecified s1.isSystemServer s2.isSystemServer).then <|
  (preferSpecified s1.isEphemeralApp.isSome s2.isEphemeralApp.isSome).then <|
  (preferSpecified s1.isV2App.isSome s2.isV2App.isSome).then <|
  (preferSpecified s1.isOwner.isSome s2.isOwner.isSome).then <|
  (preferString s1.user s2.user).then <|
  (preferSpecified s1.seinfo.isSome s2.seinfo.isSome).then <|
  (preferString s1.name s2.name).then <|
  (preferString s1.path s2.path).then <|
  (preferSpecified s1.isPrivApp.isSome s2.isPrivApp.isSome).then <|
  preferHigher s1.minTargetSdkVersion s2.minTargetSdkVersion

/-- The `dup` of `seapp_context_cmp`: a flag counts as equal only if it is set. -/
def dup (s1 s2 : SeappContext) : Bool :=
  (s1.user.isNone || s1.user.map (·.str) = s2.user.map (·.str)) && (s1.seinfo.isNone || s1.seinfo = s2.seinfo) &&
  (s1.name.isNone || s1.name.map (·.str) = s2.name.map (·.str)) &&
  (s1.path.isNone || s1.path.map (·.str) = s2.path.map (·.str)) &&
  (s1.isPrivApp.isSome && s1.isPrivApp = s2.isPrivApp) && (s1.isOwner.isSome && s1.isOwner = s2.isOwner) &&
  (s1.isSystemServer && s1.isSystemServer = s2.isSystemServer) && (s1.isV2App.isSome && s1.isV2App = s2.isV2App) &&
  (s1.isEphemeralApp.isSome && s1.isEphemeralApp = s2.isEphemeralApp)

/-- Whether the comparison sets `seapp_contexts_dup`. -/
def setsDup (s1 s2 : SeappContext) : Bool := s1.precedence s2 = .eq && s1.dup s2

end SeappContext

/-! ## Precedence as an order of keys -/

def specifiedRank (specified : Bool) : List Int := if specified then [0] else [1]

def stringRank : Option PrefixStr → List Int
  | none => [2, 0]
  | some string => if string.isPrefix then [1, -(string.len : Int)] else [0, 0]

theorem preferSpecified_eq (one two : Bool) :
    preferSpecified one two = compare (specifiedRank one) (specifiedRank two) := by
  cases one <;> cases two <;> rfl

theorem preferHigher_eq (one two : Nat) : preferHigher one two = compare (-(one : Int)) (-(two : Int)) := by
  rw [Int.compare_eq_ite_lt, preferHigher]
  rcases Nat.lt_trichotomy one two with less | eq | more
  · rw [if_neg (by omega), if_pos less, if_neg (by omega), if_pos (by omega)]
  · rw [if_neg (by omega), if_neg (by omega), if_neg (by omega), if_neg (by omega)]
  · rw [if_pos more, if_pos (by omega)]

theorem compare_singleton (one two : Int) : compare [one] [two] = compare one two := by
  rw [List.compare_cons_cons]
  cases compare one two <;> rfl

theorem preferString_eq (one two : Option PrefixStr) :
    preferString one two = compare (stringRank one) (stringRank two) := by
  cases one with
  | none =>
    cases two with
    | none => rfl
    | some two =>
      rw [stringRank, stringRank]
      split <;> rfl
  | some one =>
    cases two with
    | none =>
      rw [stringRank, stringRank]
      split <;> rfl
    | some two =>
      rw [preferString, stringRank, stringRank]
      cases onePrefix : one.isPrefix <;> cases twoPrefix : two.isPrefix
      · rfl
      · rfl
      · rfl
      · have tail : compare [(1 : Int), -(one.len : Int)] [1, -(two.len : Int)] =
            compare (-(one.len : Int)) (-(two.len : Int)) := by
          rw [List.compare_cons_cons, compare_singleton]
          rfl
        simp only [ne_eq, not_true_eq_false, if_false, if_true, true_and, tail, ← preferHigher_eq, preferHigher]
        rcases Nat.lt_trichotomy one.len two.len with less | eq | more
        · rw [if_pos (by omega), if_neg (by omega), if_neg (by omega), if_pos less]
        · rw [if_neg (by omega), if_neg (by omega), if_neg (by omega)]
        · rw [if_pos (by omega), if_pos more, if_pos more]

namespace SeappContext

/-- A key whose order is the precedence. -/
def rank (s : SeappContext) : List Int :=
  specifiedRank s.isSystemServer ++ (specifiedRank s.isEphemeralApp.isSome ++ (specifiedRank s.isV2App.isSome ++
  (specifiedRank s.isOwner.isSome ++ (stringRank s.user ++ (specifiedRank s.seinfo.isSome ++ (stringRank s.name ++
  (stringRank s.path ++ (specifiedRank s.isPrivApp.isSome ++ [-(s.minTargetSdkVersion : Int)]))))))))

end SeappContext

theorem length_specifiedRank (specified : Bool) : (specifiedRank specified).length = 1 := by
  cases specified <;> rfl

theorem length_stringRank (str : Option PrefixStr) : (stringRank str).length = 2 := by
  cases str with
  | none => rfl
  | some str =>
    rw [stringRank]
    split <;> rfl

theorem compare_specifiedRank_append (one two : Bool) (oneRest twoRest : List Int) :
    compare (specifiedRank one ++ oneRest) (specifiedRank two ++ twoRest) =
      (preferSpecified one two).then (compare oneRest twoRest) := by
  rw [compare_append (by simp only [length_specifiedRank]), preferSpecified_eq]

theorem compare_stringRank_append (one two : Option PrefixStr) (oneRest twoRest : List Int) :
    compare (stringRank one ++ oneRest) (stringRank two ++ twoRest) =
      (preferString one two).then (compare oneRest twoRest) := by
  rw [compare_append (by simp only [length_stringRank]), preferString_eq]

namespace SeappContext

theorem precedence_eq_compare (s1 s2 : SeappContext) : s1.precedence s2 = compare s1.rank s2.rank := by
  simp only [rank, compare_specifiedRank_append, compare_stringRank_append, compare_singleton, ← preferHigher_eq]
  rfl

/-- The comparison function is a total preorder. -/
instance : Std.TransCmp precedence where
  eq_swap {s1 s2} := by
    rw [precedence_eq_compare, precedence_eq_compare]
    exact Std.OrientedCmp.eq_swap
  isLE_trans {s1 s2 s3} first second := by
    rw [precedence_eq_compare] at first second ⊢
    exact Std.TransCmp.isLE_trans first second

variable {s1 s2 : SeappContext}

/-- Entries of equal precedence agree in every part of the comparison. -/
theorem precedence_eq (hq : s1.precedence s2 = .eq) :
    s1.isSystemServer = s2.isSystemServer ∧ s1.isEphemeralApp.isSome = s2.isEphemeralApp.isSome ∧
      s1.isV2App.isSome = s2.isV2App.isSome ∧ s1.isOwner.isSome = s2.isOwner.isSome ∧
      preferString s1.user s2.user = .eq ∧ s1.seinfo.isSome = s2.seinfo.isSome ∧
      preferString s1.name s2.name = .eq ∧ preferString s1.path s2.path = .eq ∧
      s1.isPrivApp.isSome = s2.isPrivApp.isSome ∧ s1.minTargetSdkVersion = s2.minTargetSdkVersion := by
  have specified : ∀ {one two : Bool}, preferSpecified one two = .eq → one = two := by decide
  have more : ∀ {one two : Nat}, preferHigher one two = .eq → one = two := by
    intro one two eq
    unfold preferHigher at eq
    split at eq
    · cases eq
    · split at eq
      · cases eq
      · omega
  simp only [precedence, Ordering.then_eq_eq] at hq
  obtain ⟨system, brief, v2, ow, user, seinfo, n, p, priv, sdk⟩ := hq
  exact ⟨specified system, specified brief, specified v2, specified ow, user, specified seinfo, n, p,
    specified priv, more sdk⟩

end SeappContext

/-! ## The search -/

inductive SeappKind where
  | type
  | domain
deriving DecidableEq

/-- The arguments of `seapp_context_lookup`. -/
structure SeappQuery where
  kind : SeappKind
  uid : Nat
  isSystemServer : Bool
  seinfo : Option Bytes
  pkgname : Option Bytes
  path : Option Bytes

/-- What the calls of `seapp_context_lookup` return: the name of `getpwuid`, whether
    `context_type_set` and `context_range_set` succeed, `security_getenforce`. -/
structure LookupEnv where
  long : LongSize := .bits64
  getpwuid : Nat → Option Bytes := fun _ => none
  contextTypeSet : Bool := true
  contextRangeSet : Bool := true
  enforcing : Bool := true

def AID_USER : Nat := 100000
def AID_APP : Nat := 10000
def AID_ISOLATED_START : Nat := 99000
def CAT_MAPPING_MAX_ID : Nat := 2 ^ 16
def BUFSIZ : Nat := 1024
def INT32_MAX : Nat := 2 ^ 31 - 1

def colon : UInt8 := 58

/-- A decimal number, up to its end as `ends` knows it. -/
def sdkVersion (long : LongSize) (ends : Bytes → Bool) (v : Bytes) : Option Nat :=
  let (version, endptr) := strtol long v
  if !ends endptr ∨ version < 0 ∨ version > INT32_MAX then none else some version.toNat

/-- `none` where the source returns a negative number. -/
def getAppTargetSdkVersion (long : LongSize) (seinfo : Bytes) : Option Nat :=
  match strstr (ascii ":targetSdkVersion=") seinfo with
  | none => some 0
  | some substr =>
    sdkVersion long (fun endptr => endptr = [] || endptr.head? = some colon)
      (substr.drop (ascii ":targetSdkVersion=").length)

def seinfoParse (src : Bytes) (sz : Nat) : Option Bytes :=
  let len := (strchr src colon).getD src.length
  if len > sz - 1 then none else some (src.take len)

/-- What `seapp_context_lookup` compares the entries with. -/
structure AppQuery where
  kind : SeappKind
  isSystemServer : Bool
  isPrivApp : Bool := false
  isEphemeralApp : Bool := false
  isV2App : Bool := false
  targetSdkVersion : Nat := 0
  seinfo : Option Bytes := none
  isOwner : Bool
  username : Bytes
  pkgname : Option Bytes
  path : Option Bytes
  appid : Nat
  userid : Nat

/-- The user name of an application id, and the id in its range. -/
def appUser (e : LookupEnv) (appid : Nat) : Option (Bytes × Nat) :=
  if appid < AID_APP then (e.getpwuid appid).map fun n => (n, appid)
  else if appid < AID_ISOLATED_START then some (ascii "_app", appid - AID_APP)
  else some (ascii "_isolated", appid - AID_ISOLATED_START)

/-- The part of `seapp_context_lookup` before its loop; `none` where it goes to `err`. -/
def SeappQuery.resolve (e : LookupEnv) (q : SeappQuery) : Option AppQuery :=
  let userid := q.uid / AID_USER
  let located (app : AppQuery) : Option AppQuery :=
    match appUser e (q.uid % AID_USER) with
    | none => none
    | some (username, appid) =>
      if appid ≥ CAT_MAPPING_MAX_ID ∨ userid ≥ CAT_MAPPING_MAX_ID then none
      else some { app with username, appid }
  let app : AppQuery :=
    { kind := q.kind, isSystemServer := q.isSystemServer, isOwner := userid = 0, username := []
      pkgname := q.pkgname, path := q.path, appid := 0, userid }
  match q.seinfo with
  | none => located app
  | some seinfo =>
    match seinfoParse seinfo BUFSIZ, getAppTargetSdkVersion e.long seinfo with
    | some parsedseinfo, some targetSdkVersion =>
      located { app with
        isPrivApp := (strstr (ascii ":privapp") seinfo).isSome
        isEphemeralApp := (strstr (ascii ":ephemeralapp") seinfo).isSome
        isV2App := (strstr (ascii ":v2") seinfo).isSome
        targetSdkVersion
        seinfo := some parsedseinfo }
    | _, _ => none

/-- `len - 1` of a `size_t`. -/
def lenButOne (len : Nat) : Nat := (len + (2 ^ 64 - 1)) % 2 ^ 64

/-- Neither case nor, for a prefix, what follows it counts. -/
def PrefixStr.matchesName (string : PrefixStr) (v : Bytes) : Bool :=
  if string.isPrefix then eqIgnoreCaseUpTo v string.str (lenButOne string.len)
  else eqIgnoreCase v string.str

def PrefixStr.matchesPath (string : PrefixStr) (v : Bytes) : Bool :=
  if string.isPrefix then strncmp v string.str (lenButOne string.len) = 0 else v = string.str

def selects {α β : Type} (test : α → β → Bool) (selector : Option α) (v : Option β) : Bool :=
  match selector, v with
  | none, _ => true
  | some _, none => false
  | some selector, some v => test selector v

def flagSelects (flag : Option Bool) (v : Bool) : Bool := selects (fun one two => one = two) flag (some v)

/-- The loop of `seapp_context_lookup` does not continue with the next entry. -/
def AppQuery.matches (app : AppQuery) (cur : SeappContext) : Bool :=
  cur.isSystemServer = app.isSystemServer && flagSelects cur.isEphemeralApp app.isEphemeralApp &&
  flagSelects cur.isV2App app.isV2App && flagSelects cur.isOwner app.isOwner &&
  selects PrefixStr.matchesName cur.user (some app.username) &&
  selects (fun seinfo v => eqIgnoreCase v seinfo) cur.seinfo app.seinfo &&
  selects PrefixStr.matchesName cur.name app.pkgname && flagSelects cur.isPrivApp app.isPrivApp &&
  cur.minTargetSdkVersion ≤ app.targetSdkVersion && selects PrefixStr.matchesPath cur.path app.path &&
  (match app.kind with | .type => cur.type.isSome | .domain => cur.domain.isSome)

/-- The return value, and what `context_type_set` and `context_range_set` set. -/
structure LookupResult where
  ret : Int
  type : Option Bytes := none
  range : Option Bytes := none
deriving DecidableEq

def category (base id : Nat) : Bytes := ascii "c" ++ decimal (base + id % 256)

/-- The level an entry gives. -/
def AppQuery.levelOf (app : AppQuery) (cur : SeappContext) : Option Bytes :=
  let ofApp := category 0 app.appid ++ ascii "," ++ category 256 (app.appid / 256)
  let ofUser := category 512 app.userid ++ ascii "," ++ category 768 (app.userid / 256)
  match cur.levelFrom with
  | .app => some (ascii "s0:" ++ ofApp)
  | .user => some (ascii "s0:" ++ ofUser)
  | .all => some (ascii "s0:" ++ ofApp ++ ascii "," ++ ofUser)
  | .none => cur.level

/-- What is done with the entry found, or without one. -/
def AppQuery.conclude (e : LookupEnv) (app : AppQuery) : Option SeappContext → LookupResult
  | none =>
    -- fail to prevent staying in the zygote's context
    if app.kind = .domain ∧ e.enforcing then { ret := -1 } else { ret := 0 }
  | some cur =>
    if !e.contextTypeSet then { ret := -2 }
    else
      let type := match app.kind with | .type => cur.type | .domain => cur.domain
      match app.levelOf cur with
      | none => { ret := 0, type }
      | some level => if e.contextRangeSet then { ret := 0, type, range := some level } else { ret := -2, type }

/-! ## Queries and precedence -/

/-- A string as the parser stores it. -/
structure PrefixStr.WellFormed (string : PrefixStr) : Prop where
  nulFree : NulFree string.str
  short : string.len ≤ BUFSIZ
  marked : string.isPrefix = true → string.str = [] ∨ string.str.getLast? = some asterisk

structure SeappContext.WellFormed (s : SeappContext) : Prop where
  user : ∀ string ∈ s.user, string.WellFormed
  name : ∀ string ∈ s.name, string.WellFormed
  path : ∀ string ∈ s.path, string.WellFormed

structure SameButCase (s1 s2 : SeappContext) : Prop where
  isSystemServer : s1.isSystemServer = s2.isSystemServer
  isEphemeralApp : s1.isEphemeralApp = s2.isEphemeralApp
  isV2App : s1.isV2App = s2.isV2App
  isOwner : s1.isOwner = s2.isOwner
  user : s1.user.map (fun string => string.str.map toLower) = s2.user.map fun string => string.str.map toLower
  seinfo : s1.seinfo.map (·.map toLower) = s2.seinfo.map (·.map toLower)
  name : s1.name.map (fun string => string.str.map toLower) = s2.name.map fun string => string.str.map toLower
  path : s1.path.map (·.str) = s2.path.map (·.str)
  isPrivApp : s1.isPrivApp = s2.isPrivApp
  minTargetSdkVersion : s1.minTargetSdkVersion = s2.minTargetSdkVersion

variable {s1 s2 : SeappContext} {one two : Option PrefixStr} {arr : List SeappContext}

theorem SameButCase.symm (eq : SameButCase s1 s2) : SameButCase s2 s1 := by
  cases eq
  constructor <;> exact Eq.symm ‹_›

theorem lenButOne_eq {len : Nat} (pos : 0 < len) (fits : len ≤ BUFSIZ) : lenButOne len = len - 1 := by
  have cap : len < 2 ^ 64 := lt_of_le_of_lt fits (by decide)
  rw [lenButOne]
  omega

theorem flag_eq {one two : Option Bool} {v : Bool} (eq : one.isSome = two.isSome)
    (oneSelects : flagSelects one v = true) (twoSelects : flagSelects two v = true) : one = two := by
  cases one <;> cases two <;> simp_all [flagSelects, selects]

/-- Strings of equal precedence are of one kind, and prefixes of one length. -/
theorem preferString_eq_eq (hq : preferString one two = .eq) :
    (one = none ∧ two = none) ∨ ∃ first snd, one = some first ∧ two = some snd ∧
      first.isPrefix = snd.isPrefix ∧ (first.isPrefix = true → first.len = snd.len) := by
  cases one with
  | none =>
    cases two with
    | none => exact .inl ⟨rfl, rfl⟩
    | some snd => cases hq
  | some first =>
    cases two with
    | none => cases hq
    | some snd =>
      refine .inr ⟨first, snd, rfl, rfl, ?_⟩
      rw [preferString] at hq
      split at hq
      · split at hq <;> cases hq
      next kind =>
        refine ⟨not_not.mp kind, ?_⟩
        intro star
        by_contra ne
        rw [if_pos ⟨star, ne⟩] at hq
        split at hq <;> cases hq

theorem eq_of_marked {f : UInt8 → UInt8} {s t : Bytes} (mark : s = [] ∨ s.getLast? = some asterisk)
    (alsoMarked : t = [] ∨ t.getLast? = some asterisk) (len : s.length = t.length)
    (eq : 0 < s.length → (s.map f).take (s.length - 1) = (t.map f).take (s.length - 1)) : s.map f = t.map f := by
  rcases mark with rfl | ends
  · rw [length_eq_zero_iff.mp len.symm]
  obtain ⟨ft, rfl⟩ := getLast?_eq_some_iff.mp ends
  rcases alsoMarked with rfl | otherEnds
  · simp at len
  obtain ⟨otherFront, rfl⟩ := getLast?_eq_some_iff.mp otherEnds
  have frontLength : ft.length = otherFront.length := by simpa using len
  have fronts : ft.map f = otherFront.map f := by
    have cut := eq (by simp)
    simpa [frontLength] using cut
  simp [fronts]

/-- `strncmp` within a string without NUL compares that many bytes. -/
theorem take_eq_of_strncmp {v s : Bytes} {n : Nat} (free : NulFree s) (hi : n ≤ s.length)
    (eq : strncmp v s n = 0) : v.take n = s.take n := by
  induction n generalizing v s with
  | zero => rfl
  | succ n ih =>
    cases s with
    | nil => simp at hi
    | cons byte s =>
      have nz : byte ≠ 0 := fun zero => free (zero ▸ mem_cons_self)
      have restFree : NulFree s := nulFree_of_subset free (subset_cons_self _ _)
      have pos : byte.toNat ≠ 0 := fun zero => nz (UInt8.toNat_inj.mp zero)
      cases v with
      | nil => simp [strncmp, nz.symm, pos] at eq
      | cons first v =>
        rw [strncmp_cons] at eq
        by_cases hq : first = byte
        · rw [if_pos hq, if_neg (hq ▸ nz)] at eq
          rw [take_succ_cons, take_succ_cons, hq, ih restFree (Nat.le_of_succ_le_succ hi) eq]
        · rw [if_neg hq] at eq
          exact absurd (UInt8.toNat_inj.mp (by omega)) hq

section Strings

variable {first snd : PrefixStr} (oneFine : first.WellFormed) (twoFine : snd.WellFormed)
  (kind : first.isPrefix = snd.isPrefix) (len : first.isPrefix = true → first.len = snd.len)
include oneFine twoFine kind len

theorem lower_eq_of_matchesName {v : Bytes} (hm1 : first.matchesName v = true)
    (hm2 : snd.matchesName v = true) : first.str.map toLower = snd.str.map toLower := by
  unfold PrefixStr.matchesName at hm1 hm2
  rw [← kind] at hm2
  cases star : first.isPrefix with
  | false =>
    simp only [star, Bool.false_eq_true, if_false, eqIgnoreCase, decide_eq_true_eq] at hm1 hm2
    rw [← hm1, hm2]
  | true =>
    simp only [star, if_true, eqIgnoreCaseUpTo, decide_eq_true_eq] at hm1 hm2
    refine eq_of_marked (oneFine.marked star) (twoFine.marked (kind ▸ star))
      (len star) ?_
    intro pos
    have cut : lenButOne first.len = first.len - 1 := lenButOne_eq pos oneFine.short
    rw [cut] at hm1
    rw [← len star, cut] at hm2
    exact hm1.symm.trans hm2

theorem eq_of_matchesPath {v : Bytes} (hm1 : first.matchesPath v = true)
    (hm2 : snd.matchesPath v = true) : first.str = snd.str := by
  unfold PrefixStr.matchesPath at hm1 hm2
  rw [← kind] at hm2
  cases star : first.isPrefix with
  | false =>
    simp only [star, Bool.false_eq_true, if_false, decide_eq_true_eq] at hm1 hm2
    rw [← hm1, hm2]
  | true =>
    simp only [star, if_true, decide_eq_true_eq] at hm1 hm2
    have image : first.str.map id = snd.str.map id := by
      refine eq_of_marked (oneFine.marked star) (twoFine.marked (kind ▸ star))
        (len star) ?_
      intro pos
      have cut : lenButOne first.len = first.len - 1 := lenButOne_eq pos oneFine.short
      rw [cut] at hm1
      rw [← len star, cut] at hm2
      have firstTake := take_eq_of_strncmp oneFine.nulFree (Nat.sub_le _ _) hm1
      have secondTake := take_eq_of_strncmp twoFine.nulFree (by rw [len star]; exact Nat.sub_le _ _)
        hm2
      rw [map_id, map_id]
      exact firstTake.symm.trans secondTake
    simpa using image

end Strings

/-- Selectors of equal precedence that match one value are the same, as far as the
    test can tell. -/
theorem selector_eq {α : Type} {v : Option Bytes}
    {test : PrefixStr → Bytes → Bool} {seen : PrefixStr → α} (hq : preferString one two = .eq)
    (oneFormed : ∀ str ∈ one, str.WellFormed) (twoFormed : ∀ str ∈ two, str.WellFormed)
    (determined : ∀ {first snd : PrefixStr}, first.WellFormed → snd.WellFormed →
      first.isPrefix = snd.isPrefix → (first.isPrefix = true → first.len = snd.len) →
      ∀ {v : Bytes}, test first v = true → test snd v = true → seen first = seen snd)
    (oneSelects : selects test one v = true) (twoSelects : selects test two v = true) :
    one.map seen = two.map seen := by
  rcases preferString_eq_eq hq with ⟨rfl, rfl⟩ | ⟨first, snd, rfl, rfl, kind, len⟩
  · rfl
  · cases v with
    | none => cases oneSelects
    | some v =>
      rw [Option.map_some, Option.map_some, determined (oneFormed first rfl) (twoFormed snd rfl) kind
        len oneSelects twoSelects]

variable {app : AppQuery}

theorem sameButCase_of_matches (hq : s1.precedence s2 = .eq) (oneFine : s1.WellFormed)
    (twoFine : s2.WellFormed) (hm1 : app.matches s1 = true) (hm2 : app.matches s2 = true) : SameButCase s1 s2 := by
  obtain ⟨system, brief, v2, ow, user, seinfo, n, p, priv, sdk⟩ := SeappContext.precedence_eq hq
  simp only [AppQuery.matches, Bool.and_eq_true] at hm1 hm2
  obtain ⟨⟨⟨⟨⟨⟨⟨⟨⟨⟨-, ephemeral1⟩, v21⟩, owner1⟩, user1⟩, seinfo1⟩, name1⟩, priv1⟩, -⟩, path1⟩, -⟩ := hm1
  obtain ⟨⟨⟨⟨⟨⟨⟨⟨⟨⟨-, ephemeral2⟩, v22⟩, owner2⟩, user2⟩, seinfo2⟩, name2⟩, priv2⟩, -⟩, path2⟩, -⟩ := hm2
  refine ⟨system, flag_eq brief ephemeral1 ephemeral2, flag_eq v2 v21 v22, flag_eq ow owner1 owner2, ?_, ?_, ?_,
    ?_, flag_eq priv priv1 priv2, sdk⟩
  · exact selector_eq user oneFine.user twoFine.user lower_eq_of_matchesName user1 user2
  · cases specified1 : s1.seinfo with
    | none =>
      cases specified2 : s2.seinfo with
      | none => rfl
      | some _ => simp [specified1, specified2] at seinfo
    | some _ =>
      cases specified2 : s2.seinfo with
      | none => simp [specified1, specified2] at seinfo
      | some _ =>
        rw [specified1] at seinfo1
        rw [specified2] at seinfo2
        cases said : app.seinfo with
        | none => simp [said, selects] at seinfo1
        | some v =>
          simp only [said, selects, eqIgnoreCase, decide_eq_true_eq] at seinfo1 seinfo2
          rw [Option.map_some, Option.map_some, ← seinfo1, seinfo2]
  · exact selector_eq n oneFine.name twoFine.name lower_eq_of_matchesName name1 name2
  · exact selector_eq p oneFine.path twoFine.path eq_of_matchesPath path1 path2

def InPrecedence (array : List SeappContext) : Prop :=
  array.Pairwise fun one two => (one.precedence two).isLE = true

theorem find?_highest (ho : InPrecedence arr) {sl : SeappContext}
    (hf : arr.find? app.matches = some sl) : ∀ o ∈ arr, app.matches o = true → o.precedence sl ≠ .lt := by
  obtain ⟨-, _, _, split, old⟩ := find?_eq_some_iff_append.mp hf
  rw [InPrecedence, split, pairwise_append, pairwise_cons] at ho
  intro o mem fits more
  rw [split] at mem
  have notAfter : (sl.precedence o).isLE = true → False := by
    intro inOrder
    have swap : sl.precedence o = (o.precedence sl).swap := Std.OrientedCmp.eq_swap
    rw [swap, more] at inOrder
    cases inOrder
  rcases mem_append.mp mem with before | inAfter
  · simpa [fits] using old o before
  · cases mem_cons.mp inAfter with
    | inl eq =>
      have reflexive : sl.precedence sl = .eq := Std.ReflCmp.compare_self
      rw [eq, reflexive] at more
      cases more
    | inr late => exact notAfter (ho.2.1.1 o late)

theorem find?_perm {o : List SeappContext} (perm : arr.Perm o) (ho : InPrecedence arr)
    (otherOrdered : InPrecedence o) (formed : ∀ ent ∈ arr, ent.WellFormed)
    (far : arr.Pairwise fun one two => ¬ SameButCase one two) : arr.find? app.matches = o.find? app.matches := by
  cases hf : arr.find? app.matches with
  | none =>
    refine (find?_eq_none.mpr ?_).symm
    intro ent mem
    exact find?_eq_none.mp hf ent (perm.mem_iff.mpr mem)
  | some pick =>
    have mem := mem_of_find?_eq_some hf
    have chosenFits := find?_some hf
    cases found' : o.find? app.matches with
    | none => exact absurd chosenFits (find?_eq_none.mp found' pick (perm.mem_iff.mp mem))
    | some otherPick =>
      have om := perm.mem_iff.mpr (mem_of_find?_eq_some found')
      have fits := find?_some found'
      -- neither has a higher precedence, so both have the same selectors
      have notLower := find?_highest ho hf otherPick om fits
      have notHigher := find?_highest otherOrdered found' pick (perm.mem_iff.mp mem) chosenFits
      have hq : pick.precedence otherPick = .eq := by
        have swap : otherPick.precedence pick = (pick.precedence otherPick).swap :=
          Std.OrientedCmp.eq_swap
        rw [swap] at notLower
        cases ans : pick.precedence otherPick with
        | lt => exact absurd ans notHigher
        | eq => rfl
        | gt => simp [ans] at notLower
      have same := sameButCase_of_matches hq (formed pick mem) (formed otherPick om)
        chosenFits fits
      by_contra ne
      have : Std.Symm fun one two : SeappContext => ¬ SameButCase one two := ⟨fun _ _ apart same => apart same.symm⟩
      exact far.forall mem om (fun hq => ne (congrArg some hq)) same

end Aosp.Selinux
