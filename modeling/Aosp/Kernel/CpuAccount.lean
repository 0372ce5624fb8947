import Aosp.Kernel.BusyTime

/-! # The account of a CPU

`CpuAccount` is the invariant of one run queue.  The tasks of the CPU own shares of
its two sums, each share read as if its task had been rolled over to the window of
the run queue.  Shares that are not zero were accounted no later than the current
task, and while there are any the current task was accounted in the window of the
run queue: so when the current task rolls the sums over, all shares roll with them.

One lemma for each thing that happens to a CPU: its current task is accounted,
another one is, a share leaves or arrives.
-/

namespace Aosp.Kernel

open Aosp.Lib Nat
open Function (update update_of_ne update_self)

variable {T : Type}

def Ravg.Idle (rv : Ravg) : Prop := rv.currWindow = 0 ∧ rv.prevWindow = 0

theorem Ravg.Idle.currAt {rv : Ravg} (idle : rv.Idle) (ws : Nat) : rv.currAt ws = 0 := by
  simp [Ravg.currAt, idle.1]

theorem Ravg.Idle.prevAt {rv : Ravg} (idle : rv.Idle) (win ws : Nat) : rv.prevAt win ws = 0 := by
  simp [Ravg.prevAt, idle.1, idle.2]

def owned (view : Ravg → Nat) (share : T → Option Ravg) (tk : T) : Nat := (share tk).elim 0 view

/-- `mark` is the `mark_start` of the current task; the tasks of the CPU that are neither idle nor exiting have
    shares. -/
structure CpuAccount (window mark : Nat) (rq : RunQueue T) (share : T → Option Ravg) : Prop where
  fresh : ∀ tk rv, share tk = some rv → rv.Idle ∨
    0 < rv.markStart ∧ rv.markStart ≤ mark ∧ rq.windowStart ≤ mark ∧ mark < rq.windowStart + window
  curr : Backs rq.currRunnableSum (owned (·.currAt rq.windowStart) share)
  prev : Backs rq.prevRunnableSum (owned (·.prevAt window rq.windowStart) share)

def Backed (window : Nat) (rq : RunQueue T) (share : T → Option Ravg) : Prop :=
  Backs rq.currRunnableSum (owned (·.currAt rq.windowStart) share) ∧
    Backs rq.prevRunnableSum (owned (·.prevAt window rq.windowStart) share)

section Owned

variable {view : Ravg → Nat} {share : T → Option Ravg} {tk : T} {rv : Ravg}

theorem owned_some (hf : share tk = some rv) : owned view share tk = view rv := by
  simp [owned, hf]

theorem owned_le {bd : Nat} (each : ∀ rv, share tk = some rv → view rv ≤ bd) : owned view share tk ≤ bd := by
  cases hf : share tk with
  | none => simp [owned, hf]
  | some rv => exact (owned_some hf).trans_le (each rv hf)

variable [DecidableEq T]

theorem owned_update_of_ne {o : T} (ne : o ≠ tk) (cg : Option Ravg) :
    owned view (update share tk cg) o = owned view share o := by
  simp [owned, update_of_ne ne]

/-- What holds of all shares but one, and of the new value of that one. -/
theorem forall_update_share {Q : Ravg → Prop} {cg : Option Ravg}
    (rest : ∀ o rv, share o = some rv → Q rv) (self : ∀ rv, cg = some rv → Q rv) :
    ∀ o rv, update share tk cg o = some rv → Q rv :=
  (Function.forall_update_iff share fun _ hf => ∀ rv, hf = some rv → Q rv).mpr
    ⟨self, fun o _ => rest o⟩

end Owned

section

variable {win mark : Nat} {rq : RunQueue T} {share : T → Option Ravg} {tk : T}
  {rv : Ravg}

/-- Shares that are all zero make no demands on the run queue. -/
theorem cpuAccount_of_idle (idle : ∀ tk rv, share tk = some rv → rv.Idle) : CpuAccount win mark rq share where
  fresh tk rv hf := .inl (idle tk rv hf)
  curr := backs_zero fun tk => le_zero.mp (owned_le fun rv hf => ((idle tk rv hf).currAt _).le)
  prev := backs_zero fun tk => le_zero.mp (owned_le fun rv hf => ((idle tk rv hf).prevAt _ _).le)

/-- Shares may be dropped, and zero shares may come in. -/
theorem CpuAccount.mono (ac : CpuAccount win mark rq share) {fewer : T → Option Ravg}
    (kept : ∀ tk rv, fewer tk = some rv → share tk = some rv ∨ rv.Idle) : CpuAccount win mark rq fewer where
  fresh tk rv hf := by
    cases kept tk rv hf with
    | inl old => exact ac.fresh tk rv old
    | inr idle => exact .inl idle
  curr := by
    refine ac.curr.mono (fun tk => owned_le fun rv hf => ?_) (le_refl _)
    cases kept tk rv hf with
    | inl old => rw [owned_some old]
    | inr idle => exact (idle.currAt _).trans_le (zero_le _)
  prev := by
    refine ac.prev.mono (fun tk => owned_le fun rv hf => ?_) (le_refl _)
    cases kept tk rv hf with
    | inl old => rw [owned_some old]
    | inr idle => exact (idle.prevAt _ _).trans_le (zero_le _)

end

section Window

variable {c : RavgUpdate} {mark : Nat} {rq post : RunQueue T} {share : T → Option Ravg} {tk : T}

section

variable (ac : CpuAccount c.window mark rq share)
  (beg : StartsWindow c.window c.wallclock rq.windowStart post.windowStart)
include ac beg

/-- The window of the run queue moves on while the current task is still in it. -/
theorem CpuAccount.moveWindow
    (fits : post.windowStart ≤ mark) :
    CpuAccount c.window mark { rq with windowStart := post.windowStart } share := by
  by_cases idle : ∀ tk rv, share tk = some rv → rv.Idle
  · exact cpuAccount_of_idle idle
  · have eq : post.windowStart = rq.windowStart := by
      simp only [not_forall] at idle
      obtain ⟨tk, rv, hf, busy⟩ := idle
      obtain ⟨-, -, -, _⟩ := (ac.fresh tk rv hf).resolve_left busy
      have lower := beg.ge
      exact beg.aligned.eq_of_abs_lt (by rw [abs_lt]; omega)
    rw [eq]
    exact ac

/-- What every share is worth once the current task has rolled the sums over. -/
theorem CpuAccount.rolled
    (old : mark < post.windowStart) {rv : Ravg} (hf : share tk = some rv) :
    rv.currAt post.windowStart = 0 ∧ rv.prevAt c.window post.windowStart ≤
        if post.windowStart - mark < c.window then rv.currAt rq.windowStart else 0 := by
  cases ac.fresh tk rv hf with
  | inl idle => rw [idle.currAt, idle.prevAt]; exact ⟨rfl, zero_le _⟩
  | inr _ =>
    have past : ¬ post.windowStart ≤ rv.markStart := by omega
    refine ⟨by simp [Ravg.currAt, past], ?_⟩
    simp only [Ravg.prevAt, past, if_false]
    split
    next _ =>
      -- the windows are aligned, so exactly one has passed
      have one : post.windowStart = rq.windowStart + c.window := by
        have agree : post.windowStart ≡ rq.windowStart + c.window [MOD c.window] := by
          simpa using beg.aligned
        exact agree.eq_of_abs_lt (by rw [abs_lt]; omega)
      have inWindow : rq.windowStart ≤ rv.markStart := by omega
      simp [Ravg.currAt, inWindow, show post.windowStart - mark < c.window by omega]
    next => exact zero_le _

end

end Window

section Update

variable [DecidableEq T] {c : RavgUpdate} {old new : Ravg} {mark : Nat} {rq post : RunQueue T}
  {share : T → Option Ravg} {tk : T}

/-- The share of the task that the call accounts. -/
def RavgUpdate.shareOf (c : RavgUpdate) (rv : Ravg) : Option Ravg := if c.counts rv then some rv else none

variable {rv : Ravg}

theorem shareOf_eq_some {f : Ravg} (share : c.shareOf rv = some f) : c.counts rv = true ∧ f = rv := by
  obtain ⟨cs, ⟨⟩⟩ := Option.ite_none_right_eq_some.mp share
  exact ⟨cs, rfl⟩

/-- A sum that grows with the share of the accounted task still backs all shares. -/
theorem backs_of_added {view : Ravg → Nat} {total larger amount : Nat} (backs : Backs total (owned view share))
    (own : share tk = c.shareOf old) (cs : c.counts new = c.counts old)
    (hg : c.counts old = true → view new ≤ view old + amount) (fuel : total + amount ≤ larger) :
    Backs larger (owned view (update share tk (c.shareOf new))) := by
  refine backs.add (fun o ne => (owned_update_of_ne ne _).le) ?_ fuel
  refine owned_le fun _ hf => ?_
  rw [update_self] at hf
  obtain ⟨tally, rfl⟩ := shareOf_eq_some hf
  rw [cs] at tally
  rw [owned_some (own.trans (if_pos tally))]
  exact hg tally

omit [DecidableEq T] in
theorem RavgChange.currAt (chg : RavgChange c old rq new post) : new.currAt post.windowStart = new.currWindow := by
  simp [Ravg.currAt, chg.mark, chg.start.le]

omit [DecidableEq T] in
theorem RavgChange.prevAt (chg : RavgChange c old rq new post) :
    new.prevAt c.window post.windowStart = new.prevWindow := by
  simp [Ravg.prevAt, chg.mark, chg.start.le]

omit [DecidableEq T] in
/-- A task that has not been marked yet has no busy time, and gets none. -/
theorem CpuAccount.idle_of_unmarked (ac : CpuAccount c.window mark rq share)
    (own : share tk = c.shareOf old) (cs : c.counts old = true) (none : old.markStart = 0) : old.Idle := by
  cases ac.fresh tk old (own.trans (if_pos cs)) with
  | inl idle => exact idle
  | inr _ => omega

section

variable (own : share tk = c.shareOf old) (chg : RavgChange c old rq new post)
include own chg

/-- The sums were rolled over: the current one holds the share of the current task only, the previous one what the
    current one held before, if that was the window before. -/
theorem CpuAccount.backs_of_rolled (ac : CpuAccount c.window old.markStart rq share)
    (older : old.markStart < post.windowStart) {prev : Nat}
    (ps : (if post.windowStart - old.markStart < c.window then rq.currRunnableSum else 0) + prev ≤ post.prevRunnableSum)
    (cw : c.counts old = true → new.currWindow ≤ post.currRunnableSum)
    (pw : c.counts old = true → new.prevWindow ≤ old.prevAt c.window post.windowStart + prev) :
    Backed c.window post (update share tk (c.shareOf new)) := by
  have other := fun o rv => @CpuAccount.rolled T c old.markStart rq post share o ac chg.start older rv
  have nt : Backs 0 _ :=
    backs_zero fun o => le_zero.mp (owned_le fun rv hf => (other o rv hf).1.le)
  have pre : Backs (if post.windowStart - old.markStart < c.window then rq.currRunnableSum else 0)
      (owned (·.prevAt c.window post.windowStart) share) := by
    split
    next recent =>
      refine ac.curr.mono (fun o => owned_le fun rv hf => ?_) (le_refl _)
      rw [owned_some hf]
      simpa [recent] using (other o rv hf).2
    next long =>
      refine backs_zero fun o => le_zero.mp (owned_le fun rv hf => ?_)
      simpa [long] using (other o rv hf).2
  constructor
  · refine backs_of_added nt own chg.counts (fun cs => ?_) (zero_add _).le
    rw [chg.currAt]
    exact (cw cs).trans (le_add_left _ _)
  · refine backs_of_added pre own chg.counts (fun cs => ?_) ps
    rw [chg.prevAt]
    exact pw cs

theorem CpuAccount.updateCurr (ac : CpuAccount c.window old.markStart rq share)
    (call : c.isCurrTask = true) (pos : 0 < rq.windowStart) (past : old.markStart ≤ c.wallclock) :
    CpuAccount c.window c.wallclock post (update share tk (c.shareOf new)) := by
  have beg := chg.start
  have busy : Backed c.window post (update share tk (c.shareOf new)) := by
    cases chg.busy with
    | inl bare =>
      obtain ⟨none, currSame, prevSame, -⟩ := bare
      have idle : ∀ o rv, update share tk (c.shareOf new) o = some rv → rv.Idle := by
        refine forall_update_share (fun o rv hf => ?_) (fun rv hf => ?_)
        · refine (ac.fresh o rv hf).resolve_right fun bounds => ?_
          omega
        · obtain ⟨cs, rfl⟩ := shareOf_eq_some hf
          have wasIdle := ac.idle_of_unmarked own (chg.counts ▸ cs) none
          exact ⟨currSame.trans wasIdle.1, prevSame.trans wasIdle.2⟩
      have ac : CpuAccount c.window c.wallclock post _ :=
        cpuAccount_of_idle idle
      exact ⟨ac.curr, ac.prev⟩
    | inr changed =>
      cases changed with
      | added _ prev unrolled currSum ps cw pw =>
        have fits : post.windowStart ≤ old.markStart := unrolled.resolve_left (by simp [call])
        have went := ac.moveWindow beg fits
        exact ⟨backs_of_added went.curr own chg.counts (chg.currAt ▸ cw) currSum.ge,
          backs_of_added went.prev own chg.counts (chg.prevAt ▸ pw) ps.ge⟩
      | rolled prev _ older ps cw pw =>
        exact ac.backs_of_rolled own chg older ps cw pw
  refine ⟨forall_update_share (fun o rv hf => ?_) (fun rv hf => ?_), busy.1, busy.2⟩
  · cases ac.fresh o rv hf with
    | inl idle => exact .inl idle
    | inr bounds => exact .inr ⟨bounds.1, bounds.2.1.trans past, beg.le, beg.lt⟩
  · obtain ⟨-, rfl⟩ := shareOf_eq_some hf
    have lower := beg.ge
    have upper := beg.le
    rw [chg.mark]
    exact .inr ⟨by omega, le_refl _, beg.le, beg.lt⟩

theorem CpuAccount.updateOther (ac : CpuAccount c.window c.wallclock rq share)
    (o : c.isCurrTask = false) (pos : 0 < rq.windowStart)
    (cur : StartsWindow c.window c.wallclock rq.windowStart rq.windowStart) :
    CpuAccount c.window c.wallclock post (update share tk (c.shareOf new)) := by
  have eq : post.windowStart = rq.windowStart := chg.start.eq cur rfl
  have busy : Backed c.window post (update share tk (c.shareOf new)) := by
    have currAt := chg.currAt
    have prevAt := chg.prevAt
    have changed := chg.busy
    unfold Backed
    rw [eq] at currAt prevAt changed ⊢
    cases changed with
    | inl bare =>
      obtain ⟨none, currSame, prevSame, sums⟩ := bare
      have idle := fun cs => ac.idle_of_unmarked own cs none
      rw [sums]
      refine ⟨backs_of_added ac.curr own chg.counts (fun cs => ?_) (add_zero _).le,
        backs_of_added ac.prev own chg.counts (fun cs => ?_) (add_zero _).le⟩
      · rw [currAt, currSame, (idle cs).1]
        exact zero_le _
      · rw [prevAt, prevSame, (idle cs).2]
        exact zero_le _
    | inr changed =>
      cases changed with
      | added _ _ _ currSum ps cw pw =>
        exact ⟨backs_of_added ac.curr own chg.counts (currAt ▸ cw) currSum.ge,
          backs_of_added ac.prev own chg.counts (prevAt ▸ pw) ps.ge⟩
      | rolled _ current =>
        rw [o] at current
        cases current
  refine ⟨forall_update_share (fun ow rv hf => ?_) (fun rv hf => ?_), busy.1, busy.2⟩
  · rw [eq]
    exact ac.fresh ow rv hf
  · obtain ⟨-, rfl⟩ := shareOf_eq_some hf
    have upper := cur.le
    rw [chg.mark]
    exact .inr ⟨by omega, le_refl _, chg.start.le, chg.start.lt⟩

end

theorem CpuAccount.leave {win : Nat} (ac : CpuAccount win mark rq share) (hf : share tk = some rv)
    (roll : rq.windowStart ≤ rv.markStart) :
    (rv.currWindow ≤ rq.currRunnableSum ∧ rv.prevWindow ≤ rq.prevRunnableSum) ∧ CpuAccount win mark
        { rq with
          currRunnableSum := rq.currRunnableSum - rv.currWindow
          prevRunnableSum := rq.prevRunnableSum - rv.prevWindow }
        (update share tk none) := by
  have currOwned : owned (·.currAt rq.windowStart) share tk = rv.currWindow := by
    simp [owned_some hf, Ravg.currAt, roll]
  have prevOwned : owned (·.prevAt win rq.windowStart) share tk = rv.prevWindow := by
    simp [owned_some hf, Ravg.prevAt, roll]
  refine ⟨⟨currOwned ▸ ac.curr.le tk, prevOwned ▸ ac.prev.le tk⟩, ?_, ?_, ?_⟩
  · exact forall_update_share ac.fresh (by simp)
  · rw [← currOwned]
    exact ac.curr.remove (fun o ne => (owned_update_of_ne ne _).le) (by simp [owned])
  · rw [← prevOwned]
    exact ac.prev.remove (fun o ne => (owned_update_of_ne ne _).le) (by simp [owned])

theorem CpuAccount.arrive {win : Nat} (ac : CpuAccount win mark rq share) (marked : rv.markStart = mark)
    (pos : 0 < rq.windowStart) (cur : StartsWindow win mark rq.windowStart rq.windowStart) :
    CpuAccount win mark
      { rq with
        currRunnableSum := rq.currRunnableSum + rv.currWindow
        prevRunnableSum := rq.prevRunnableSum + rv.prevWindow }
      (update share tk (some rv)) := by
  have roll : rq.windowStart ≤ rv.markStart := marked ▸ cur.le
  refine ⟨forall_update_share ac.fresh (fun _ isRavg => ?_), ?_, ?_⟩
  · cases isRavg
    exact .inr ⟨by omega, marked.le, cur.le, cur.lt⟩
  · refine ac.curr.add (fun o ne => (owned_update_of_ne ne _).le) ?_ (le_refl _)
    simp [owned, Ravg.currAt, roll]
  · refine ac.prev.add (fun o ne => (owned_update_of_ne ne _).le) ?_ (le_refl _)
    simp [owned, Ravg.prevAt, roll]

end Update

end Aosp.Kernel
