import Aosp.Selinux.SeappContext

/-! # What the categories of a level say about an app

The categories of a level separate the apps and the users they are made from
(`categories_separate`).
-/

namespace Aosp.Selinux

open Aosp.Lib List

/-! ## Categories -/

inductive AppClass where
  | system
  | app
  | isolated
deriving DecidableEq

def appClass (appid : Nat) : AppClass :=
  if appid < AID_APP then .system else if appid < AID_ISOLATED_START then .app else .isolated

def AppClass.first : AppClass → Nat
  | .system => 0
  | .app => AID_APP
  | .isolated => AID_ISOLATED_START

def AppQuery.categories (app : AppQuery) : List Nat :=
  [app.appid % 256, 256 + app.appid / 256 % 256, 512 + app.userid % 256, 768 + app.userid / 256 % 256]

structure Accepts (e : LookupEnv) (q : SeappQuery) (app : AppQuery) (cur : SeappContext) (level : Bytes) :
    Prop where
  resolved : q.resolve e = some app
  selected : app.matches cur = true
  returns : (app.conclude e (some cur)).ret = 0
  range : (app.conclude e (some cur)).range = some level

variable {e : LookupEnv} {q : SeappQuery} {app : AppQuery} {cur : SeappContext} {level : Bytes}

theorem Accepts.levelOf (acc : Accepts e q app cur level) : app.levelOf cur = some level := by
  have ret := acc.returns
  have range := acc.range
  rw [AppQuery.conclude] at ret range
  split at ret
  · cases ret
  · cases lv : app.levelOf cur <;> simp_all
    split at range <;> simp_all

theorem resolve_ids (hr : q.resolve e = some app) : (∃ n, appUser e (q.uid % AID_USER) = some (n, app.appid)) ∧
      app.userid = q.uid / AID_USER ∧ app.appid < CAT_MAPPING_MAX_ID ∧ app.userid < CAT_MAPPING_MAX_ID := by
  unfold SeappQuery.resolve at hr
  dsimp only at hr
  split at hr <;> split at hr <;> try cases hr
  · split at hr <;> cases hr
    exact ⟨⟨_, ‹_›⟩, rfl, lt_of_not_ge (by simp_all), lt_of_not_ge (by simp_all)⟩
  · split at hr <;> try cases hr
    split at hr <;> cases hr
    exact ⟨⟨_, ‹_›⟩, rfl, lt_of_not_ge (by simp_all), lt_of_not_ge (by simp_all)⟩

theorem appUser_eq {appid id : Nat} {n : Bytes} (eq : appUser e appid = some (n, id)) :
    appid = (appClass appid).first + id := by
  rw [appUser] at eq
  rw [appClass]
  split_ifs at eq ⊢ <;> simp [AppClass.first] at eq ⊢ <;> omega

theorem decimal_append_inj {m n : Nat} {x y : Bytes} (eq : decimal m ++ 44 :: x = decimal n ++ 44 :: y) :
    m = n ∧ x = y := by
  have free : ∀ n, 44 ∉ decimal n := fun n mem => absurd (mem_decimal mem).1 (by decide)
  have same := eq_of_append_cons (free m) (free n) eq
  rw [same] at eq
  exact ⟨decimal_injective same, (cons.inj (append_cancel_left eq)).2⟩

/-- Categories as a level lists them, each with a comma after it. -/
def listed (cs : List Nat) : Bytes := cs.flatMap fun c => 99 :: (decimal c ++ [44])

theorem listed_inj {cs ds : List Nat} (eq : listed cs = listed ds) : cs = ds := by
  induction cs generalizing ds with
  | nil => cases ds <;> simp_all [listed]
  | cons c cs ih =>
    cases ds with
    | nil => simp [listed] at eq
    | cons d ds =>
      have parts := decimal_append_inj (m := c) (n := d) (x := listed cs) (y := listed ds)
        (by simpa [listed] using eq)
      rw [parts.1, ih parts.2]

def AppQuery.used (app : AppQuery) : LevelFrom → List Nat
  | .none => []
  | .app => app.categories.take 2
  | .user => app.categories.drop 2
  | .all => app.categories

theorem Accepts.listed_eq (acc : Accepts e q app cur level) (ne : cur.levelFrom ≠ .none) :
    level ++ [44] = ascii "s0:" ++ listed (app.used cur.levelFrom) := by
  have eq := acc.levelOf
  rw [AppQuery.levelOf] at eq
  have c : ascii "c" = [99] := rfl
  have comma : ascii "," = [44] := rfl
  cases lf : cur.levelFrom <;> simp_all only [ne_eq, not_true_eq_false, Option.some.injEq]
  all_goals
    rw [← eq]
    simp [listed, AppQuery.used, AppQuery.categories, category, c]

/-- Of two uids of one class that are accepted with one entry, equal levels identify
    what the entry takes the level from; the categories lie in four disjoint ranges. -/
theorem categories_separate {env' : LookupEnv} {query' : SeappQuery} {app' : AppQuery} {level' : Bytes}
    (acc : Accepts e q app cur level) (acc' : Accepts env' query' app' cur level')
    (same : appClass (q.uid % AID_USER) = appClass (query'.uid % AID_USER)) : (level = level' →
      (cur.levelFrom = .all → q.uid = query'.uid) ∧ (cur.levelFrom = .app → q.uid % AID_USER = query'.uid % AID_USER) ∧
      (cur.levelFrom = .user → q.uid / AID_USER = query'.uid / AID_USER)) ∧
    (cur.levelFrom ≠ .none → level ++ [44] = ascii "s0:" ++ listed (app.used cur.levelFrom)) ∧
    ∀ i, ∀ c ∈ app.categories[i]?, 256 * i ≤ c ∧ c < 256 * (i + 1) := by
  obtain ⟨⟨n, user⟩, userid, small, small'⟩ := resolve_ids acc.resolved
  obtain ⟨⟨_, user'⟩, userid', less, less'⟩ := resolve_ids acc'.resolved
  have id := appUser_eq user
  have id' := appUser_eq user'
  rw [CAT_MAPPING_MAX_ID] at small small' less less'
  have uid := Nat.div_add_mod q.uid AID_USER
  have uid' := Nat.div_add_mod query'.uid AID_USER
  have agree : level = level' → cur.levelFrom ≠ .none → app.used cur.levelFrom = app'.used cur.levelFrom := by
    intro eq ne
    have one := acc.listed_eq ne
    rw [eq, acc'.listed_eq ne] at one
    exact listed_inj (append_cancel_left one).symm
  refine ⟨fun eq => ⟨fun lf => ?_, fun lf => ?_, fun lf => ?_⟩, acc.listed_eq, ?_⟩
  · have cats := agree eq (by simp [lf])
    simp only [lf, AppQuery.used, AppQuery.categories, cons.injEq] at cats
    have apps : app.appid = app'.appid := by omega
    have users : app.userid = app'.userid := by omega
    rw [← uid, ← uid', id, id', same, apps, ← userid, ← userid', users]
  · have cats := agree eq (by simp [lf])
    simp only [lf, AppQuery.used, AppQuery.categories, take_succ_cons, cons.injEq] at cats
    have apps : app.appid = app'.appid := by omega
    rw [id, id', same, apps]
  · have cats := agree eq (by simp [lf])
    simp only [lf, AppQuery.used, AppQuery.categories, drop_succ_cons, drop_zero, cons.injEq] at cats
    omega
  · intro i c mem
    match i with
    | 0 | 1 | 2 | 3 =>
      cases mem
      omega
    | i + 4 => simp [AppQuery.categories] at mem

/-- The domain of a uid of the fifth app, by an entry with `levelFrom=app`. -/
def FifthApp (uid : Nat) (level : Bytes) : Prop :=
  Accepts {} ⟨.domain, uid, false, none, none, none⟩
    { kind := .domain, isSystemServer := false, isOwner := uid < AID_USER, username := ascii "_app", pkgname := none
      path := none, appid := 5, userid := uid / AID_USER }
    { levelFrom := .app, domain := some [] } level

/-- The fifth app of two users gets one level. -/
theorem categories_separate_users : FifthApp 10005 (ascii "s0:c5,c256") ∧ FifthApp 110005 (ascii "s0:c5,c256") ∧
    10005 % AID_USER = 110005 % AID_USER := by
  have one : FifthApp 10005 (ascii "s0:c5,c256") := ⟨rfl, by decide, by decide, by decide +kernel⟩
  have two : FifthApp 110005 (ascii "s0:c5,c256") := ⟨rfl, by decide, by decide, by decide +kernel⟩
  exact ⟨one, two, ((categories_separate one two (by decide)).1 rfl).2.1 rfl⟩

end Aosp.Selinux
