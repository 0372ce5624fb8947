import Aosp.Selinux.SeappReload

/-! # Looking up an app in the loaded table

Model of `seapp_context_lookup` over the array and the count that reloads leave
behind (`libselinux/src/android/android.c`).

Whatever order `qsort` leaves the entries in, the entry found is one of highest
precedence (`search_loaded`).  The table can be searched after every reload but one
that ends after it has counted entries and before it has an array (`safeRun_iff`).
-/

namespace Aosp.Selinux

open Aosp.Lib List SeappState

/-- The loop of `seapp_context_lookup` from a slot on, for as many slots as are left;
    `none` if there is no array, no such slot, or no entry in it. -/
def searchFrom (app : AppQuery) (seappContexts : Option (List (Option SeappContext))) :
    (left slot : Nat) → Option (Option SeappContext)
  | 0, _ => some none
  | left + 1, slot =>
    match seappContexts.bind fun sl => sl[slot]? with
    | some (some cur) => if app.matches cur then some (some cur) else searchFrom app seappContexts left (slot + 1)
    | _ => none

namespace SeappState

/-- `__selinux_once(once, seapp_context_init)`. -/
def seappContextInit (e : ReloadEnv) (s : SeappState) : Option SeappState :=
  if s.once then some s else ({ s with once := true }.reload e).map Prod.fst

def search (app : AppQuery) (s : SeappState) : Option (Option SeappContext) :=
  searchFrom app s.seappContexts s.nspec 0

/-- `seapp_context_lookup`; `loadEnv` is what the first call meets when it loads the
    files. -/
def lookup (loadEnv : ReloadEnv) (e : LookupEnv) (q : SeappQuery) (s : SeappState) :
    Option (SeappState × LookupResult) :=
  match s.seappContextInit loadEnv with
  | none => none
  | some s =>
    match q.resolve e with
    | none => some (s, { ret := -1 })
    | some app =>
      match s.search app with
      | none => none
      | some found => some (s, app.conclude e found)

end SeappState

variable {ents : List SeappContext} {beg : SeappState} {le : ReloadEnv}

theorem searchFrom_stored (app : AppQuery) {sl : List (Option SeappContext)} {slot : Nat}
    (kept : (sl.drop slot).take ents.length = ents.map some) :
    searchFrom app (some sl) ents.length slot = some (ents.find? app.matches) := by
  induction ents generalizing slot with
  | nil => rfl
  | cons ent ents ih =>
    obtain ⟨here, tl, split⟩ : ∃ here tl, sl.drop slot = here :: tl := by
      cases rem : sl.drop slot with
      | nil => simp [rem] at kept
      | cons here tl => exact ⟨here, tl, rfl⟩
    rw [split, length_cons, take_succ_cons, map_cons, List.cons.injEq] at kept
    have read : sl[slot]? = some here := by
      rw [← List.head?_drop, split, List.head?_cons]
    have next : sl.drop (slot + 1) = tl := by
      rw [← tail_drop, split, tail_cons]
    rw [length_cons, searchFrom, Option.bind_some, read, kept.1]
    dsimp only
    cases isMatch : app.matches ent with
    | true => simp [isMatch]
    | false =>
      rw [List.find?_cons_of_neg (by simp [isMatch])]
      exact ih (by rw [next]; exact kept.2)

/-! ## Precedence decides -/

/-- The files have been loaded, in an order that `qsort` may leave. -/
structure Loaded (e : ReloadEnv) (s : SeappState) (ents : List SeappContext) : Prop where
  loads : e.loads = some ents
  stored : ∃ array : List SeappContext, array.Perm ents ∧ InPrecedence array ∧
    s.seappContexts = some (array.map some) ∧ s.nspec = array.length

def AppQuery.Highest (app : AppQuery) (ents : List SeappContext) : Option SeappContext → Prop
  | none => ∀ o ∈ ents, app.matches o = false
  | some selected => selected ∈ ents ∧ app.matches selected = true ∧
      ∀ o ∈ ents, app.matches o = true → o.precedence selected ≠ .lt

/-- The order is reflexive, total and transitive, and `lt` is its strict part. -/
structure TotalPreorder {α : Type} (cmp : α → α → Ordering) : Prop where
  refl : ∀ a, cmp a a = .eq
  total : ∀ a b, (cmp a b).isLE = true ∨ (cmp b a).isLE = true
  trans : ∀ a b c, (cmp a b).isLE = true → (cmp b c).isLE = true → (cmp a c).isLE = true
  strict : ∀ a b, cmp a b = .lt ↔ (cmp b a).isLE = false

theorem totalPreorder_precedence : TotalPreorder SeappContext.precedence where
  refl a := Std.ReflCmp.compare_self
  total a b := by
    have swap : b.precedence a = (a.precedence b).swap := Std.OrientedCmp.eq_swap
    rw [swap]
    cases a.precedence b <;> simp
  trans a b c := Std.TransCmp.isLE_trans
  strict a b := by
    have swap : b.precedence a = (a.precedence b).swap := Std.OrientedCmp.eq_swap
    rw [swap]
    cases a.precedence b <;> simp

namespace Loaded

variable {e : ReloadEnv} {s : SeappState} {es : List SeappContext}

theorem of_reload (ok : beg.reload e = some (s, 0)) : ∃ es, Loaded e s es := by
  cases loads : e.loads with
  | none =>
    rw [reload_of_not_loads loads] at ok
    cases ok
  | some es =>
    rw [reload_of_loads loads] at ok
    split at ok
    · cases ok
    · cases ok
      have perm := sortEntries_perm e.qsort es
      exact ⟨es, loads, _, perm, sortEntries_inPrecedence e.qsort es, rfl, perm.length_eq.symm⟩

theorem search (load : Loaded e s es) :
    ∃ arr : List SeappContext, arr.Perm es ∧ InPrecedence arr ∧
      ∀ app : AppQuery, s.search app = some (arr.find? app.matches) := by
  obtain ⟨arr, perm, ho, kept, hc⟩ := load.stored
  refine ⟨arr, perm, ho, fun app => ?_⟩
  rw [SeappState.search, kept, hc]
  exact searchFrom_stored app (by rw [drop_zero, take_of_length_le (by simp)])

theorem search_highest (load : Loaded e s es) (app : AppQuery) :
    ∃ pick, s.search app = some pick ∧ app.Highest es pick := by
  obtain ⟨arr, perm, ho, searched⟩ := load.search
  refine ⟨arr.find? app.matches, searched app, ?_⟩
  cases hf : arr.find? app.matches with
  | none =>
    intro o mem
    simpa using List.find?_eq_none.mp hf o (perm.mem_iff.mpr mem)
  | some pick =>
    refine ⟨perm.mem_iff.mp (mem_of_find?_eq_some hf), List.find?_some hf, ?_⟩
    intro o mem
    exact find?_highest ho hf o (perm.mem_iff.mpr mem)

theorem search_eq {o : ReloadEnv} {s' : SeappState} {otherEntries : List SeappContext}
    (load : Loaded e s es) (otherLoaded : Loaded o s' otherEntries)
    (same : e.preceding = o.preceding ∧ e.long = o.long) (sameLines : e.lines.Perm o.lines)
    (far : es.Pairwise fun one two => ¬ SameButCase one two) (app : AppQuery) : s.search app = s'.search app := by
  obtain ⟨arr, perm, ho, searched⟩ := load.search
  obtain ⟨_, otherPerm, otherOrdered, otherSearched⟩ := otherLoaded.search
  have read := ReloadEnv.parses_of_loads load.loads
  have entriesPerm : es.Perm otherEntries :=
    perm_of_parses same sameLines read (ReloadEnv.parses_of_loads otherLoaded.loads)
  have formed : ∀ ent ∈ arr, ent.WellFormed :=
    fun ent mem => wellFormed_of_parses read ent (perm.mem_iff.mp mem)
  have arrayDistinct : arr.Pairwise fun one two => ¬ SameButCase one two :=
    (perm.pairwise_iff fun apart eq => apart eq.symm).mpr far
  rw [searched, otherSearched,
    find?_perm (perm.trans (entriesPerm.trans otherPerm.symm)) ho otherOrdered formed arrayDistinct]

end Loaded

theorem SeappState.lookup_eq {s : SeappState} {f : AppQuery → Option SeappContext}
    (cur : beg.seappContextInit le = some s) (searched : ∀ app, s.search app = some (f app))
    (e : LookupEnv) (q : SeappQuery) :
    beg.lookup le e q = some (s, match q.resolve e with
        | none => { ret := -1 }
        | some app => app.conclude e (f app)) := by
  rw [lookup, cur]
  cases resolved : q.resolve e with
  | none => rfl
  | some app =>
    dsimp only
    rw [searched]

/-- The comparison function is a total preorder; a lookup in loaded files selects an
    entry of highest precedence; and where selectors are distinct but for case, the
    order of the lines does not matter to it. -/
theorem lookup_decided_by_precedence :
    TotalPreorder SeappContext.precedence ∧
    (∀ (e : ReloadEnv) (beg s : SeappState), beg.reload e = some (s, 0) → ∃ ents, Loaded e s ents) ∧
    (∀ (e : ReloadEnv) (s : SeappState) (ents : List SeappContext), Loaded e s ents →
      ∀ (loadEnv : ReloadEnv) (beg : SeappState), beg.seappContextInit loadEnv = some s →
      ∀ (lookupEnv : LookupEnv) (q : SeappQuery) (app : AppQuery), q.resolve lookupEnv = some app →
        ∃ selected, s.search app = some selected ∧ app.Highest ents selected ∧
          beg.lookup loadEnv lookupEnv q = some (s, app.conclude lookupEnv selected)) ∧
    (∀ (e o : ReloadEnv) (s s' : SeappState) (ents otherEntries : List SeappContext),
      Loaded e s ents → Loaded o s' otherEntries → e.preceding = o.preceding ∧ e.long = o.long →
      e.lines.Perm o.lines → ents.Pairwise (fun one two => ¬ SameButCase one two) →
      (∀ app : AppQuery, s.search app = s'.search app) ∧
      ∀ (loadEnv otherLoadEnv : ReloadEnv) (beg otherStart : SeappState),
        beg.seappContextInit loadEnv = some s → otherStart.seappContextInit otherLoadEnv = some s' →
        ∀ (lookupEnv : LookupEnv) (q : SeappQuery),
          (beg.lookup loadEnv lookupEnv q).map Prod.snd =
            (otherStart.lookup otherLoadEnv lookupEnv q).map Prod.snd) := by
  refine ⟨totalPreorder_precedence, fun _ _ _ => Loaded.of_reload, ?_, ?_⟩
  · intro e s ents loaded loadEnv beg cur lookupEnv q app resolved
    obtain ⟨selected, searched, highest⟩ := loaded.search_highest app
    obtain ⟨array, -, -, searchedAll⟩ := loaded.search
    refine ⟨selected, searched, highest, ?_⟩
    have same : array.find? app.matches = selected := Option.some.inj ((searchedAll app).symm.trans searched)
    rw [lookup_eq cur searchedAll, resolved, ← same]
  · intro e o s s' ents otherEntries loaded otherLoaded samePreceding sameLines distinct
    have same := loaded.search_eq otherLoaded samePreceding sameLines distinct
    refine ⟨same, ?_⟩
    intro loadEnv otherLoadEnv beg otherStart cur otherCurrent lookupEnv q
    obtain ⟨array, -, -, searchedAll⟩ := loaded.search
    have otherSearched : ∀ app, s'.search app = some _ :=
      fun app => (same app).symm.trans (searchedAll app)
    rw [lookup_eq cur searchedAll, lookup_eq otherCurrent otherSearched]
    rfl

/-- A `qsort` that compares every entry with every other. -/
def comparingAll : Sorter := ⟨SortTree.exhaustive, SortTree.exhaustive_correct⟩

def rootFiles (t : Bytes) : ReloadEnv :=
  { access := false
    contents := fun f => if f = ascii "/plat_seapp_contexts" then t else []
    qsort := comparingAll }

set_option maxRecDepth 8000 in
theorem lookup_decided_by_precedence_two_lines :
    ∃ one two : SeappState, reload (rootFiles (ascii "domain=a\nuser=_app domain=b")) {} = some (one, 0) ∧
      reload (rootFiles (ascii "user=_app domain=b\ndomain=a\n")) {} = some (two, 0) ∧
      ∀ app : AppQuery, one.search app = two.search app := by
  have loads : (rootFiles (ascii "domain=a\nuser=_app domain=b")).loads =
      some [{ domain := some (ascii "a") }, { user := some ⟨ascii "_app", false⟩, domain := some (ascii "b") }] := by
    decide
  have otherLoads : (rootFiles (ascii "user=_app domain=b\ndomain=a\n")).loads =
      some [{ user := some ⟨ascii "_app", false⟩, domain := some (ascii "b") }, { domain := some (ascii "a") }] := by
    decide
  have reloaded := reload_of_loads loads {}
  have otherReloaded := reload_of_loads otherLoads {}
  obtain ⟨-, reloadLoads, -, sameSearch⟩ := lookup_decided_by_precedence
  obtain ⟨ents, loaded⟩ := reloadLoads _ _ _ reloaded
  obtain ⟨_, otherLoaded⟩ := reloadLoads _ _ _ otherReloaded
  have isEntries := Option.some.inj (loads.symm.trans loaded.loads)
  have sameLines : (rootFiles (ascii "domain=a\nuser=_app domain=b")).lines.Perm
      (rootFiles (ascii "user=_app domain=b\ndomain=a\n")).lines := by
    decide
  have distinct : ents.Pairwise fun one two => ¬ SameButCase one two := by
    rw [← isEntries, pairwise_pair]
    intro same
    have unequal := same.user
    cases unequal
  have same := (sameSearch _ _ _ _ _ _ loaded otherLoaded (by simp [rootFiles]) sameLines distinct).1
  exact ⟨_, _, reloaded, otherReloaded, same⟩

/-! ## Safety of the table -/

/-- An entry as the parser leaves it. -/
def Built (ent : SeappContext) : Prop := ∃ e p, Parses e p ent

namespace SeappState

/-- There are as many slots as are counted, with an entry in each. -/
def Searchable (s : SeappState) : Prop :=
  match s.seappContexts with
  | none => s.nspec = 0
  | some sl => s.nspec ≤ sl.length ∧ ∀ slot ∈ sl.take s.nspec, ∃ ent, slot = some ent ∧ Built ent

end SeappState

inductive SeappCall where
  | reload (e : ReloadEnv)
  | lookup (loadEnv : ReloadEnv) (e : LookupEnv) (q : SeappQuery)

namespace SeappState

/-- The state after a call; `none` if it reads or writes what is not there. -/
def call (s : SeappState) : SeappCall → Option SeappState
  | .reload e => (s.reload e).map Prod.fst
  | .lookup loadEnv e q => (s.lookup loadEnv e q).map Prod.fst

/-- Every call returns, and the table can be searched before and after it. -/
def SafeRun : SeappState → List SeappCall → Prop
  | state, [] => state.Searchable
  | state, call :: calls => state.Searchable ∧ ∃ next, state.call call = some next ∧ SafeRun next calls

theorem SafeRun.first {s : SeappState} {cls : List SeappCall} (safe : s.SafeRun cls) : s.Searchable := by
  cases cls with
  | nil => exact safe
  | cons _ _ => exact safe.1

end SeappState

def ReloadEnv.Guarded (e : ReloadEnv) : Prop :=
  (e.files.all e.countOpens = true ∧ e.arrayAlloc = true) ∨ entryCount e (e.files.takeWhile e.countOpens) = 0

theorem ReloadEnv.guarded_iff (e : ReloadEnv) : e.Guarded ↔ e.leftOver = 0 := by
  rw [Guarded, leftOver]
  by_cases both : e.files.all e.countOpens = true ∧ e.arrayAlloc = true
  · simp [both]
  · simp only [both, false_or, Bool.and_eq_true, if_false]

def GuardedCalls : (once : Bool) → List SeappCall → Prop
  | _, [] => True
  | once, .reload env :: calls => env.Guarded ∧ GuardedCalls once calls
  | once, .lookup loadEnv _ _ :: calls => (once = true ∨ loadEnv.Guarded) ∧ GuardedCalls true calls

theorem ReloadEnv.leftOver_of_loads {e : ReloadEnv} (load : e.loads = some ents) : e.leftOver = 0 := by
  unfold loads at load
  split at load
  next both =>
    simp only [opens, Bool.and_eq_true, all_eq_true] at both
    have hc : e.files.all e.countOpens = true :=
      all_eq_true.mpr fun f mem => (both.1 f mem).1
    rw [leftOver, hc, both.2]
    rfl
  next => cases load

theorem built_of_loads {e : ReloadEnv} (load : e.loads = some ents) : ∀ ent ∈ ents, Built ent := by
  have read := ReloadEnv.parses_of_loads load
  clear load
  generalize e.texts = texts at read
  induction read with
  | nil => simp
  | cons first _ ih =>
    intro ent mem
    cases mem_cons.mp mem with
    | inl eq => exact ⟨e, _, eq ▸ first⟩
    | inr late => exact ih ent late

namespace SeappState

/-- A reload always returns, and leaves a table that can be searched exactly if it is
    guarded. -/
theorem reload_searchable (e : ReloadEnv) (s : SeappState) :
    ∃ next ret, s.reload e = some (next, ret) ∧ next.once = s.once ∧ (next.Searchable ↔ e.Guarded) := by
  rw [e.guarded_iff]
  cases load : e.loads with
  | none => exact ⟨_, _, reload_of_not_loads load s, rfl, Iff.rfl⟩
  | some ents =>
    have loaded := reload_of_loads load s
    simp only [ReloadEnv.leftOver_of_loads load, iff_true]
    split at loaded
    · exact ⟨_, _, loaded, rfl, rfl⟩
    · have perm := sortEntries_perm e.qsort ents
      refine ⟨_, _, loaded, rfl, ?_⟩
      constructor
      · rw [length_map, perm.length_eq]
      · intro _ mem
        obtain ⟨ent, isEntry, rfl⟩ := mem_map.mp (mem_of_mem_take mem)
        exact ⟨ent, rfl, built_of_loads load ent (perm.mem_iff.mp isEntry)⟩

variable {s : SeappState}

/-- In such a table every search ends. -/
theorem Searchable.search (sorted : s.Searchable) (app : AppQuery) : ∃ hf, s.search app = some hf := by
  obtain ⟨arr, nspec, _, _⟩ := s
  cases arr with
  | none =>
    cases sorted
    exact ⟨none, rfl⟩
  | some sl =>
    obtain ⟨room, full⟩ := sorted
    obtain ⟨ents, kept⟩ : ∃ ents : List SeappContext, sl.take nspec = ents.map some := by
      have fits : sl.take nspec ∈ Set.range (List.map (some : SeappContext → Option SeappContext)) := by
        rw [Set.range_list_map]
        intro slot mem
        obtain ⟨ent, isEntry, -⟩ := full slot mem
        exact ⟨ent, isEntry.symm⟩
      obtain ⟨ents, image⟩ := fits
      exact ⟨ents, image.symm⟩
    have hc : nspec = ents.length := by
      have lengths := congrArg List.length kept
      rw [length_take, length_map, Nat.min_eq_left room] at lengths
      exact lengths
    subst hc
    exact ⟨_, searchFrom_stored app kept⟩

theorem call_reload (s : SeappState) (e : ReloadEnv) :
    ∃ next, s.call (.reload e) = some next ∧ next.once = s.once ∧ (next.Searchable ↔ e.Guarded) := by
  obtain ⟨next, _, load, sameOnce, sorted⟩ := reload_searchable e s
  exact ⟨next, by rw [call, load]; rfl, sameOnce, sorted⟩

/-- What a lookup does once the files are loaded. -/
theorem lookup_searchable (cur : beg.seappContextInit le = some s) (sorted : s.Searchable) (e : LookupEnv)
    (q : SeappQuery) : beg.call (.lookup le e q) = some s := by
  rw [call, lookup, cur]
  cases q.resolve e with
  | none => rfl
  | some app =>
    obtain ⟨_, searched⟩ := sorted.search app
    dsimp only
    rw [searched]
    rfl

theorem lookup_state {next : SeappState} {e : LookupEnv} {q : SeappQuery}
    (cur : beg.seappContextInit le = some s) (ret : beg.call (.lookup le e q) = some next) : next = s := by
  rw [call, lookup, cur] at ret
  cases resolved : q.resolve e with
  | none => simpa [resolved] using ret.symm
  | some app =>
    cases searched : s.search app with
    | none => simp [resolved, searched] at ret
    | some _ => simpa [resolved, searched] using ret.symm

theorem safeRun_iff (cls : List SeappCall) (s : SeappState) (sorted : s.Searchable) :
    s.SafeRun cls ↔ GuardedCalls s.once cls := by
  induction cls generalizing s with
  | nil => exact iff_of_true sorted trivial
  | cons call cls ih =>
    cases call with
    | reload e =>
      obtain ⟨next, called, sameOnce, guarded⟩ := call_reload s e
      rw [SafeRun, GuardedCalls, called, ← guarded, ← sameOnce]
      constructor
      · rintro ⟨-, _, eq, safe⟩
        cases eq
        exact ⟨safe.first, (ih _ safe.first).mp safe⟩
      · rintro ⟨nextSearchable, tl⟩
        exact ⟨sorted, next, rfl, (ih next nextSearchable).mpr tl⟩
    | lookup le e q =>
      -- the state after `once`, in which the search takes place
      obtain ⟨cur, ready, isOnce, guarded⟩ : ∃ cur, s.seappContextInit le = some cur ∧
          cur.once = true ∧ (cur.Searchable ↔ s.once = true ∨ le.Guarded) := by
        rw [seappContextInit]
        cases load : s.once with
        | true => exact ⟨s, rfl, load, iff_of_true sorted (.inl rfl)⟩
        | false =>
          obtain ⟨next, _, loaded, sameOnce, guarded⟩ := reload_searchable le { s with once := true }
          exact ⟨next, by simp [loaded], sameOnce, by simpa using guarded⟩
      rw [GuardedCalls, ← guarded, ← isOnce]
      constructor
      · rintro ⟨-, next, called, safe⟩
        have eq := lookup_state ready called
        subst eq
        exact ⟨safe.first, (ih _ safe.first).mp safe⟩
      · rintro ⟨currentSearchable, tl⟩
        exact ⟨sorted, cur, lookup_searchable ready currentSearchable e q, (ih cur currentSearchable).mpr tl⟩

end SeappState

/-- No reload writes behind the array; and in a run every call returns and finds a table
    that can be searched exactly if every reload is guarded. -/
theorem app_table_safe_iff_guarded (calls : List SeappCall) : (∀ (e : ReloadEnv) (s : SeappState), s.reload e ≠ none) ∧
      (SeappState.SafeRun {} calls ↔ GuardedCalls false calls) := by
  constructor
  · intro e s
    obtain ⟨_, _, reloaded, -⟩ := reload_searchable e s
    simp [reloaded]
  · exact safeRun_iff calls {} rfl

def secondMissing : ReloadEnv :=
  { rootFiles (ascii "domain=a") with countOpens := fun f => f = ascii "/plat_seapp_contexts" }

set_option maxRecDepth 8000 in
theorem app_table_second_missing :
    ¬ SeappState.SafeRun {}
      [.reload secondMissing, .lookup secondMissing {} ⟨.domain, 10000, false, none, none, none⟩] ∧
      call {} (.lookup secondMissing {} ⟨.domain, 10000, false, none, none, none⟩) = none := by
  have reloaded : call {} (.reload secondMissing) = some { nspec := 1 } := by rfl
  constructor
  · rintro ⟨-, _, called, safe⟩
    cases called
    have unsearchable : ¬ SeappState.Searchable { nspec := 1 } := Nat.one_ne_zero
    exact unsearchable safe.first
  · decide

end Aosp.Selinux
