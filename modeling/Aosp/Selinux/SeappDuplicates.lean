import Aosp.Selinux.SeappLookup

/-! # Duplicates in `seapp_contexts`

Reloads refuse files with duplicated entries by way of `seapp_contexts_dup`, which
`seapp_context_cmp` sets when `qsort` happens to compare two duplicates
(`libselinux/src/android/android.c`).

The flag is never reset, so that one reload decides about all later ones
(`reload_independent_iff`).  And it is set only for entries all of whose flags are
given, and only if they are compared with each other: `no_duplicates_iff` says which
files are loaded without duplicates by every correct `qsort`.
-/

namespace Aosp.Selinux

open Aosp.Lib Relation SeappState SeappContext ReloadEnv

/-! ## Earlier reloads -/

namespace SeappState

def reloads (s : SeappState) : List ReloadEnv → Option SeappState
  | [] => some s
  | env :: envs => (s.reload env).bind fun res => res.1.reloads envs

/-- What a reload leaves and returns. -/
def outcome (e : ReloadEnv) (s : SeappState) : Option (Option (List (Option SeappContext)) × Nat × Int) :=
  (s.reload e).map fun res => (res.1.seappContexts, res.1.nspec, res.2)

/-- A reload remembers duplicates. -/
theorem reload_dup (e : ReloadEnv) (s : SeappState) :
    ∃ next ret, s.reload e = some (next, ret) ∧ next.seappContextsDup = (s.seappContextsDup || e.findsDup) := by
  cases load : e.loads with
  | none =>
    have gone : e.findsDup = false := by rw [findsDup, load]
    exact ⟨_, _, reload_of_not_loads load s, by simp [gone]⟩
  | some _ =>
    have loaded := reload_of_loads load s
    split at loaded
    next hf => exact ⟨_, _, loaded, hf.symm⟩
    next gone =>
      refine ⟨_, _, loaded, ?_⟩
      simp only [Bool.not_eq_true, Bool.or_eq_false_iff] at gone
      simp [gone]

theorem reloads_dup (envs : List ReloadEnv) (s : SeappState) :
    ∃ post, s.reloads envs = some post ∧ post.seappContextsDup = (s.seappContextsDup || envs.any findsDup) := by
  induction envs generalizing s with
  | nil => exact ⟨s, rfl, by simp⟩
  | cons e envs ih =>
    obtain ⟨next, _, load, dup⟩ := reload_dup e s
    obtain ⟨post, tl, afterDup⟩ := ih next
    refine ⟨post, by rw [reloads, load]; exact tl, ?_⟩
    rw [afterDup, dup, List.any_cons, Bool.or_assoc]

theorem outcome_eq_iff (e : ReloadEnv) (one two : SeappState) :
    one.outcome e = two.outcome e ↔
      one.seappContextsDup = two.seappContextsDup ∨ e.loads = none ∨ e.findsDup = true := by
  cases load : e.loads with
  | none => simp [outcome, reload_of_not_loads load]
  | some _ =>
    rw [outcome, outcome, reload_of_loads load, reload_of_loads load]
    cases one.seappContextsDup <;> cases two.seappContextsDup <;> cases e.findsDup <;> simp

end SeappState

/-- A reload does the same after two histories exactly if both, or neither, compared
    duplicates once, or the files are refused in any case. -/
theorem reload_independent_iff (early o : List ReloadEnv) (e : ReloadEnv) :
    ∃ s s', reloads {} early = some s ∧ reloads {} o = some s' ∧
      (s.outcome e = s'.outcome e ↔
        (early.any findsDup = o.any findsDup ∨ e.loads = none ∨ e.findsDup = true)) := by
  obtain ⟨s, reached, dup⟩ := reloads_dup early {}
  obtain ⟨s', otherReached, otherDup⟩ := reloads_dup o {}
  refine ⟨s, s', reached, otherReached, ?_⟩
  rw [outcome_eq_iff, dup, otherDup, Bool.false_or, Bool.false_or]

/-- The same entry twice, with every flag given. -/
def duplicated : ReloadEnv :=
  rootFiles (ascii "isSystemServer=true isEphemeralApp=true isV2App=true isOwner=true isPrivApp=true\nisSystemServer=true isEphemeralApp=true isV2App=true isOwner=true isPrivApp=true\n")

set_option maxRecDepth 16000 in
/-- After files with a duplicate have been refused, good files are refused as well. -/
theorem reload_after_duplicated :
    ∃ s s', reloads {} [] = some s ∧ reloads {} [duplicated] = some s' ∧
      s.outcome (rootFiles (ascii "domain=a")) = some (some [some { domain := some (ascii "a") }], 1, 0) ∧
      s'.outcome (rootFiles (ascii "domain=a")) = some (none, 0, -1) := by
  have loads : (rootFiles (ascii "domain=a")).loads = some [{ domain := some (ascii "a") }] := by decide
  obtain ⟨s', reached, dup⟩ := reloads_dup [duplicated] {}
  have found : [duplicated].any findsDup = true := by decide +kernel
  rw [found, Bool.or_true] at dup
  have accepted := reload_of_loads loads {}
  have refused := reload_of_loads loads s'
  rw [dup, Bool.true_or, if_pos rfl] at refused
  have alone : (sortEntries comparingAll [{ domain := some (ascii "a") }]).1 = [{ domain := some (ascii "a") }] :=
    List.perm_singleton.mp (sortEntries_perm _ _)
  refine ⟨{}, s', rfl, reached, ?_, ?_⟩
  · exact congrArg (fun tbl => some (some (tbl.map some), 1, (0 : Int))) alone
  · rw [outcome, refused]
    rfl

/-! ## Which duplicates are found -/

structure SameSelectors (s1 s2 : SeappContext) : Prop where
  isSystemServer : s1.isSystemServer = s2.isSystemServer
  isEphemeralApp : s1.isEphemeralApp = s2.isEphemeralApp
  isV2App : s1.isV2App = s2.isV2App
  isOwner : s1.isOwner = s2.isOwner
  user : s1.user = s2.user
  seinfo : s1.seinfo = s2.seinfo
  name : s1.name = s2.name
  path : s1.path = s2.path
  isPrivApp : s1.isPrivApp = s2.isPrivApp
  minTargetSdkVersion : s1.minTargetSdkVersion = s2.minTargetSdkVersion

/-- `isSystemServer` is true and the other flags are given. -/
def SeappContext.FullyFlagged (s : SeappContext) : Prop :=
  s.isSystemServer = true ∧ s.isEphemeralApp.isSome = true ∧ s.isV2App.isSome = true ∧ s.isOwner.isSome = true ∧
    s.isPrivApp.isSome = true

namespace SameSelectors

variable {s1 s2 s3 : SeappContext}

theorem symm (eq : SameSelectors s1 s2) : SameSelectors s2 s1 := by
  cases eq
  constructor <;> exact Eq.symm ‹_›

theorem trans (first : SameSelectors s1 s2) (snd : SameSelectors s2 s3) : SameSelectors s1 s3 := by
  cases first
  cases snd
  constructor <;> exact Eq.trans ‹_› ‹_›

theorem precedence_eq (eq : SameSelectors s1 s2) : s1.precedence s2 = .eq := by
  rw [precedence_eq_compare]
  have sameRank : s1.rank = s2.rank := by
    simp only [rank, eq.isSystemServer, eq.isEphemeralApp, eq.isV2App, eq.isOwner, eq.user,
      eq.seinfo, eq.name, eq.path, eq.isPrivApp, eq.minTargetSdkVersion]
  rw [sameRank]
  exact Std.ReflCmp.compare_self

theorem fullyFlagged (eq : SameSelectors s1 s2) (flagged : s1.FullyFlagged) : s2.FullyFlagged := by
  rw [SeappContext.FullyFlagged, ← eq.isSystemServer, ← eq.isEphemeralApp, ← eq.isV2App, ← eq.isOwner, ← eq.isPrivApp]
  exact flagged

end SameSelectors

/-- Strings of equal precedence are the same if their texts are. -/
theorem prefixStr_eq {one two : Option PrefixStr} (hq : preferString one two = .eq)
    (eq : one.isNone = true ∨ one.map (·.str) = two.map (·.str)) : one = two := by
  rcases preferString_eq_eq hq with ⟨rfl, rfl⟩ | ⟨first, snd, rfl, rfl, kind, -⟩
  · rfl
  · obtain ⟨_, _⟩ := first
    simp at eq kind
    rw [eq, kind]

/-- A comparison takes entries for duplicates exactly if they are, with all flags given. -/
theorem setsDup_iff {s1 s2 : SeappContext} : s1.setsDup s2 = true ↔ s1.FullyFlagged ∧ SameSelectors s1 s2 := by
  constructor
  · intro sets
    simp only [setsDup, dup, Bool.and_eq_true, Bool.or_eq_true, decide_eq_true_eq] at sets
    obtain ⟨hq, ⟨⟨⟨⟨⟨⟨⟨user, seinfo⟩, name⟩, path⟩, priv⟩, ow⟩, system⟩, v2⟩, brief⟩ := sets
    obtain ⟨-, -, -, -, userEqual, _, nameEqual, pathEqual, -, sdk⟩ := precedence_eq hq
    have sameSeinfo : s1.seinfo = s2.seinfo := by
      cases seinfo with
      | inr eq => exact eq
      | inl _ =>
        cases first : s1.seinfo <;> cases snd : s2.seinfo <;> simp_all
    exact ⟨⟨system.1, brief.1, v2.1, ow.1, priv.1⟩, system.2, brief.2, v2.2, ow.2,
      prefixStr_eq userEqual user, sameSeinfo, prefixStr_eq nameEqual name, prefixStr_eq pathEqual path, priv.2, sdk⟩
  · rintro ⟨⟨system, brief, v2, ow, priv⟩, eq⟩
    simp only [setsDup, dup, eq.precedence_eq, ← eq.isSystemServer, ← eq.isEphemeralApp,
      ← eq.isV2App, ← eq.isOwner, ← eq.user, ← eq.seinfo, ← eq.name, ← eq.path, ← eq.isPrivApp, system,
      brief, v2, ow, priv]
    simp

def DistinctSelectors (ents : List SeappContext) : Prop :=
  ents.Pairwise fun one two => ¬ SameSelectors one two

/-- Two entries are the same with all flags given, and so is every entry of their
    precedence. -/
def DuplicatesMeet (ents : List SeappContext) : Prop :=
  ∃ i j : Fin ents.length, i ≠ j ∧ SameSelectors (ents.get i) (ents.get j) ∧ (ents.get i).FullyFlagged ∧
    ∀ k, (ents.get i).precedence (ents.get k) = .eq → SameSelectors (ents.get i) (ents.get k)

/-- The comparison of places in `sortEntries`. -/
abbrev placePrecedence (ents : List SeappContext) (i j : Fin ents.length) : Ordering :=
  (ents.get i).precedence (ents.get j)

variable {ents : List SeappContext}

theorem sortEntries_dup {qsort : Sorter} : (sortEntries qsort ents).2 = true ↔
      ∃ pair ∈ (qsort.tree ents.length).compared (placePrecedence ents),
        (ents.get pair.1).setsDup (ents.get pair.2) = true :=
  List.any_eq_true

theorem found_of_duplicatesMeet (meet : DuplicatesMeet ents) (qsort : Sorter) : (sortEntries qsort ents).2 = true := by
  obtain ⟨i, j, ne, eq, flagged, alone⟩ := meet
  by_contra notFound
  have noDup : ∀ a b, SortTree.Linked (placePrecedence ents) (qsort.tree ents.length) a b →
      (ents.get a).setsDup (ents.get b) ≠ true := by
    intro a b link sets
    exact notFound (sortEntries_dup.mpr ⟨(a, b), link.1, sets⟩)
  -- the first of them is linked to no other place
  have isolated : ∀ a b, EqvGen (SortTree.Linked (placePrecedence ents) (qsort.tree ents.length)) a b →
      (a = i ↔ b = i) := by
    intro a b linked
    induction linked with
    | rel a b link =>
      constructor
      · rintro rfl
        exact absurd (setsDup_iff.mpr ⟨flagged, alone b link.2⟩) (noDup a b link)
      · rintro rfl
        have back := alone a (Std.OrientedCmp.eq_symm link.2)
        exact absurd (setsDup_iff.mpr ⟨back.fullyFlagged flagged, back.symm⟩) (noDup a b link)
    | refl a => exact Iff.rfl
    | symm a b _ ih => exact ih.symm
    | trans a b c _ _ first second => exact first.trans second
  have linked : EqvGen (SortTree.Linked (placePrecedence ents) _) i j :=
    (qsort.correct ents.length).connects eq.precedence_eq
  exact ne ((isolated i j linked).mp rfl).symm

def Sorter.ofTree {n : Nat} (t : SortTree n) (correct : t.Correct) : Sorter where
  tree m := if same : n = m then same ▸ t else SortTree.exhaustive m
  correct m := by
    by_cases same : n = m
    · subst same
      simpa using correct
    · simpa [same] using SortTree.exhaustive_correct m

theorem Sorter.ofTree_tree {n : Nat} (t : SortTree n) (correct : t.Correct) : (ofTree t correct).tree n = t := by
  simp [ofTree]

theorem exists_not_found (far : ¬ DuplicatesMeet ents) : ∃ qsort : Sorter, (sortEntries qsort ents).2 = false := by
  let may := (SortTree.allPairs ents.length).filter fun pair =>
    !(ents.get pair.1).setsDup (ents.get pair.2)
  have mem_allowed : ∀ {a b}, (ents.get a).setsDup (ents.get b) ≠ true → (a, b) ∈ may := by
    intro a b notDup
    exact List.mem_filter.mpr ⟨SortTree.mem_allPairs a b, by simpa using notDup⟩
  have unequal : ∀ i j, placePrecedence ents i j ≠ .eq → (i, j) ∈ may := by
    intro i j differ
    exact mem_allowed fun sets => differ (setsDup_iff.mp sets).2.precedence_eq
  have links : ∀ i j, placePrecedence ents i j = .eq →
      EqvGen (fun a b => (a, b) ∈ may ∧ placePrecedence ents a b = .eq) i j := by
    intro i j hq
    by_cases sets : (ents.get i).setsDup (ents.get j) = true
    · obtain ⟨flagged, eq⟩ := setsDup_iff.mp sets
      by_cases identical : i = j
      · exact identical ▸ .refl i
      -- through an entry of the same precedence that is different
      obtain ⟨k, equalK, apart⟩ : ∃ k, placePrecedence ents i k = .eq ∧ ¬ SameSelectors _ _ := by
        by_contra none
        push Not at none
        exact far ⟨i, j, identical, eq, flagged, none⟩
      refine .trans _ k _ (.rel _ _ ⟨?_, equalK⟩) (.symm _ _ (.rel _ _ ⟨?_, ?_⟩))
      · exact mem_allowed fun sets => apart (setsDup_iff.mp sets).2
      · exact mem_allowed fun sets => apart (eq.trans (setsDup_iff.mp sets).2)
      · exact Std.TransCmp.eq_trans (Std.OrientedCmp.eq_symm hq) equalK
    · exact .rel _ _ ⟨mem_allowed sets, hq⟩
  have correct := SortTree.within_correct unequal links
  refine ⟨.ofTree _ correct, ?_⟩
  by_contra found
  obtain ⟨pair, compared, sets⟩ := sortEntries_dup.mp (Bool.not_eq_false _ ▸ found)
  rw [Sorter.ofTree_tree, SortTree.within_compared] at compared
  have notSets : _ = true := (List.mem_filter.mp compared).2
  rw [sets] at notSets
  cases notSets

/-! ## What is loaded -/

section Qsort

variable (e : ReloadEnv) (qsort : Sorter)

theorem parseTokens_qsort (cur : SeappContext) (toks : List Bytes) :
    parseTokens { e with qsort } cur toks = parseTokens e cur toks := by
  induction toks generalizing cur with
  | nil => rfl
  | cons _ toks ih =>
    rw [parseTokens]
    simp only [ih]
    rfl

theorem parseEntries_qsort (texts : List Bytes) : parseEntries { e with qsort } texts = parseEntries e texts := by
  induction texts with
  | nil => rfl
  | cons p texts ih =>
    rw [parseEntries, ih, parseEntry]
    simp only [parseTokens_qsort]
    rfl

/-- What the files hold does not depend on the sort. -/
theorem loads_qsort : ({ e with qsort } : ReloadEnv).loads = e.loads := by
  rw [loads, parseEntries_qsort]
  rfl

end Qsort

def SeappState.NoDuplicates (s : SeappState) : Prop :=
  ∀ sl, s.seappContexts = some sl →
    (sl.take s.nspec).Pairwise fun one two => ∀ s1 ∈ one, ∀ s2 ∈ two, ¬ SameSelectors s1 s2

theorem reload_qsort {e : ReloadEnv} (load : e.loads = some ents) (qsort : Sorter) (s : SeappState) :
    s.reload { e with qsort } =
      if s.seappContextsDup || (sortEntries qsort ents).2 then
        some ({ s with seappContexts := none, nspec := 0, seappContextsDup := true }, -1)
      else
        some ({ s with
          seappContexts := some ((sortEntries qsort ents).1.map some), nspec := ents.length }, 0) := by
  have alsoLoaded := (loads_qsort e qsort).trans load
  have hf : ({ e with qsort } : ReloadEnv).findsDup = (sortEntries qsort ents).2 := by
    rw [findsDup, alsoLoaded]
  rw [reload_of_loads alsoLoaded, hf]

theorem noDuplicates_sorted (qsort : Sorter) (es : List SeappContext) (dup once : Bool) :
    SeappState.NoDuplicates ⟨some ((sortEntries qsort es).1.map some), es.length, dup, once⟩ ↔
      DistinctSelectors es := by
  have perm := sortEntries_perm qsort es
  have full : ((sortEntries qsort es).1.map some).take es.length = (sortEntries qsort es).1.map some :=
    List.take_of_length_le (by rw [List.length_map, perm.length_eq])
  have sorted : (sortEntries qsort es).1.Pairwise _ ↔ DistinctSelectors es :=
    perm.pairwise_iff fun far eq => far eq.symm
  rw [← sorted, SeappState.NoDuplicates]
  simp only [Option.some.injEq, forall_eq', full, List.pairwise_map, Option.mem_def]

/-- Whatever correct sort is used, a successful reload leaves no duplicates: exactly if
    duplicates were found before, the files do not load, they hold no duplicates, or
    they hold duplicates that every sort compares. -/
theorem no_duplicates_iff (e : ReloadEnv) (s : SeappState) :
    (∀ (qsort : Sorter) (post : SeappState), s.reload { e with qsort } = some (post, 0) → post.NoDuplicates) ↔
      (s.seappContextsDup = true ∨ e.loads = none ∨
        ∃ ents, e.loads = some ents ∧ (DistinctSelectors ents ∨ DuplicatesMeet ents)) := by
  constructor
  · intro good
    cases loaded : e.loads with
    | none => exact .inr (.inl rfl)
    | some ents =>
      cases already : s.seappContextsDup with
      | true => exact .inl rfl
      | false =>
        refine .inr (.inr ⟨ents, rfl, ?_⟩)
        by_contra neither
        obtain ⟨repeated, apart⟩ := not_or.mp neither
        obtain ⟨qsort, notFound⟩ := exists_not_found apart
        have reloaded := reload_qsort loaded qsort s
        rw [already, notFound] at reloaded
        exact repeated ((noDuplicates_sorted qsort ents _ _).mp (good qsort _ reloaded))
  · intro condition qsort post reloaded
    cases loaded : e.loads with
    | none =>
      rw [reload_of_not_loads ((loads_qsort e qsort).trans loaded)] at reloaded
      cases reloaded
    | some ents =>
      rw [reload_qsort loaded] at reloaded
      split at reloaded
      · cases reloaded
      next notFound =>
        simp only [Bool.or_eq_true, not_or] at notFound
        cases reloaded
        rcases condition with already | failed | ⟨same, isLoaded, distinct | meet⟩
        · exact absurd already notFound.1
        · rw [loaded] at failed
          cases failed
        · rw [loaded] at isLoaded
          cases isLoaded
          exact (noDuplicates_sorted qsort ents _ _).mpr distinct
        · rw [loaded] at isLoaded
          cases isLoaded
          exact absurd (found_of_duplicatesMeet meet qsort) notFound.2

set_option maxRecDepth 8000 in
/-- The same line twice, without flags, is loaded although both are compared. -/
theorem duplicates_loaded :
    ∃ post, reload (rootFiles (ascii "user=a\nuser=a\n")) {} = some (post, 0) ∧ ¬ post.NoDuplicates := by
  have loads : (rootFiles (ascii "user=a\nuser=a\n")).loads =
      some [{ user := some ⟨ascii "a", false⟩ }, { user := some ⟨ascii "a", false⟩ }] := by
    decide
  have reloaded := reload_qsort loads comparingAll {}
  refine ⟨_, reloaded, fun good => ?_⟩
  have distinct := (noDuplicates_sorted _ _ _ _).mp good
  rw [DistinctSelectors, List.pairwise_pair] at distinct
  exact distinct ⟨rfl, rfl, rfl, rfl, rfl, rfl, rfl, rfl, rfl, rfl⟩

end Aosp.Selinux
