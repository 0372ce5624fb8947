import Aosp.Init.ServiceClasses

/-! # Waking up for a restart

`restart_processes` leaves in `process_needs_restart_at` the first second at which a
waiting service is due, and the main loop sleeps until then.  0 means that none is
waiting, so the services are forgotten exactly if the first of them is due at second 0 of the
wall clock (`restart_rescheduled`).
-/

namespace Aosp.Init

open Aosp.Lib

/-- The time the main loop sleeps, an `int`; `time` is the wall clock when it is computed. -/
def epollTimeoutMs (restartAt time : Int) (hasMoreCommands : Bool) : Int :=
  if hasMoreCommands then 0
  else if restartAt ≠ 0 then
    let timeout := Int.bmod ((restartAt - time) * 1000) (2 ^ 32)
    if timeout < 0 then 0 else timeout
  else -1

variable {restartAt : Int} {times : List Int}

theorem epollTimeoutMs_nonneg (pending : restartAt ≠ 0) (time : Int)
    (hasMoreCommands : Bool) : 0 ≤ epollTimeoutMs restartAt time hasMoreCommands := by
  unfold epollTimeoutMs
  split <;> grind

/-- What a service that goes on waiting makes of `*process_needs_restart_at`. -/
def earlier (restartAt next : Int) : Int := if next < restartAt ∨ restartAt = 0 then next else restartAt

theorem earliest_nonneg (nonneg : ∀ next ∈ times, 0 ≤ next) (known : 0 ≤ restartAt) :
    0 ≤ times.foldl earlier restartAt := by
  induction times generalizing restartAt with
  | nil => exact known
  | cons next times ih =>
    obtain ⟨first, later⟩ := List.forall_mem_cons.mp nonneg
    refine ih later ?_
    unfold earlier
    split <;> assumption

/-- A time is negative, or none is 0: the least time is kept. -/
theorem earliest_le (kept : restartAt < 0 ∨ (∃ next ∈ times, next < 0) ∨ 0 ∉ times) :
    let first := times.foldl earlier restartAt
    (∀ next ∈ times, first ≤ next) ∧ (restartAt ≠ 0 → first ≤ restartAt) ∧
      (first = 0 → times = [] ∧ restartAt = 0) := by
  induction times generalizing restartAt with
  | nil => simp
  | cons next times ih =>
    have here : earlier restartAt next = next ∧ (next < restartAt ∨ restartAt = 0) ∨
        earlier restartAt next = restartAt ∧ restartAt ≤ next ∧ restartAt ≠ 0 := by
      unfold earlier
      grind
    simp only [List.foldl_cons]
    grind

namespace Service

/-- The second of the wall clock at which the service may be started again, `fraction` being the nanoseconds that
    `time()` does not show. -/
def dueSecond (svc : Service) (clock : Int × Int) (fraction : Int) : Int :=
  (seconds clock.2 + fraction + (svc.timeStarted + seconds 5 - clock.1)) / seconds 1

def waits (svc : Service) (clock : Int × Int) : Bool := svc.flags.restarting && clock.1 ≤ svc.timeStarted + seconds 5

theorem dueSecond_zero (svc : Service) (clock : Int × Int) :
    svc.dueSecond clock 0 = clock.2 + (svc.timeStarted + seconds 5 - clock.1) / seconds 1 := by
  simp only [dueSecond, seconds]
  omega

theorem dueSecond_mono (svc : Service) (clock : Int × Int) {fraction : Int} (nonneg : 0 ≤ fraction) :
    svc.dueSecond clock 0 ≤ svc.dueSecond clock fraction := by
  simp only [dueSecond, seconds]
  omega

theorem restartIfNeeded_early (svc : Service) {clock : Int × Int} (restartAt : Int) (e : StartEnv)
    (early : clock.1 ≤ svc.timeStarted + seconds 5) :
    (svc.restartIfNeeded clock.1 clock.2 restartAt e).1 = svc ∧
      (svc.restartIfNeeded clock.1 clock.2 restartAt e).2.2 = earlier restartAt (svc.dueSecond clock 0) := by
  simp only [restartIfNeeded, if_neg (Int.not_lt.mpr early), earlier, dueSecond_zero]
  split <;> exact ⟨rfl, rfl⟩

end Service

def dueTimes (clock : Service → Int × Int) (svs : List Service) : List Int :=
  (svs.filter fun svc => svc.waits (clock svc)).map fun svc => svc.dueSecond (clock svc) 0

variable {clock : Service → Int × Int} {svs : List Service}

theorem mem_dueTimes {next : Int} :
    next ∈ dueTimes clock svs ↔ ∃ svc ∈ svs, svc.waits (clock svc) ∧ svc.dueSecond (clock svc) 0 = next := by
  simp [dueTimes, and_assoc]

theorem restartProcesses_waiting (e : Service → StartEnv) (restartAt : Int) :
    let restarted := restartProcesses clock e svs restartAt
    (∀ svc, svc ∈ restarted.1 ∧ svc.flags.restarting = true ↔ svc ∈ svs ∧ svc.waits (clock svc)) ∧
      restarted.2 = (dueTimes clock svs).foldl earlier restartAt := by
  induction svs generalizing restartAt with
  | nil => exact ⟨by simp [restartProcesses], rfl⟩
  | cons svc svs ih =>
    simp only [restartProcesses, List.mem_cons, or_and_right, dueTimes, List.filter_cons]
    cases restarting : svc.flags.restarting with
    | false =>
      obtain ⟨left, time⟩ := ih restartAt
      have idle : svc.waits (clock svc) = false := by simp [Service.waits, restarting]
      refine ⟨fun o => or_congr ?_ (left o), by simpa [idle, dueTimes] using time⟩
      constructor <;> rintro ⟨rfl, on⟩ <;> simp_all
    | true =>
      by_cases late : (clock svc).1 > svc.timeStarted + Service.seconds 5
      · obtain ⟨left, time⟩ := ih restartAt
        have idle : svc.waits (clock svc) = false := by simp [Service.waits, late]
        have started := Service.start_restarting { svc with flags := { svc.flags with restarting := false } } (e svc)
        simp only [Service.restartIfNeeded, if_pos late, if_true]
        refine ⟨fun o => or_congr ?_ (left o), by simpa [idle, dueTimes] using time⟩
        constructor <;> rintro ⟨rfl, on⟩ <;> simp_all
      · have waits : svc.waits (clock svc) = true := by simp [Service.waits, restarting, Int.not_lt.mp late]
        obtain ⟨same, next⟩ := svc.restartIfNeeded_early restartAt (e svc) (Int.not_lt.mp late)
        obtain ⟨left, time⟩ := ih (earlier restartAt (svc.dueSecond (clock svc) 0))
        simp only [same, next, if_true, waits]
        refine ⟨fun o => or_congr ?_ (left o), time⟩
        constructor <;> rintro ⟨rfl, -⟩ <;> simp_all

/-- `restarted` says when the services are due that `restart_processes` has left waiting. -/
structure Rescheduled (clock : Service → Int × Int) (restarted : List Service × Int) : Prop where
  none : restarted.2 = 0 ↔ ∀ svc ∈ restarted.1, svc.flags.restarting = false
  due : ∀ svc ∈ restarted.1, svc.flags.restarting = true →
    (∀ fraction, 0 ≤ fraction → restarted.2 ≤ svc.dueSecond (clock svc) fraction) ∧
    ∀ time hasMoreCommands, 0 ≤ epollTimeoutMs restarted.2 time hasMoreCommands

def FirstDueAtZero (clock : Service → Int × Int) (services : List Service) : Prop :=
  (∃ svc ∈ services, svc.waits (clock svc) ∧ svc.dueSecond (clock svc) 0 = 0) ∧
    ∀ svc ∈ services, svc.waits (clock svc) → 0 ≤ svc.dueSecond (clock svc) 0

theorem restart_rescheduled (clock : Service → Int × Int) (e : Service → StartEnv) (services : List Service) :
    Rescheduled clock (restartProcesses clock e services 0) ↔ ¬ FirstDueAtZero clock services := by
  obtain ⟨waiting, time⟩ := @restartProcesses_waiting clock services e 0
  generalize restartProcesses clock e services 0 = restarted at waiting time
  constructor
  · rintro ⟨none, due⟩ ⟨⟨svc, member, waits, zero⟩, nonneg⟩
    obtain ⟨member, restarting⟩ := (waiting svc).mpr ⟨member, waits⟩
    have upper := (due svc member restarting).1 0 (Int.le_refl 0)
    have lower : 0 ≤ restarted.2 := by
      rw [time]
      refine earliest_nonneg (fun next mem => ?_) (Int.le_refl 0)
      obtain ⟨svc, member, waits, rfl⟩ := mem_dueTimes.mp mem
      exact nonneg svc member waits
    have settled := none.mp (by omega) svc member
    rw [restarting] at settled
    cases settled
  · intro other
    have kept : (∃ next ∈ dueTimes clock services, next < 0) ∨ 0 ∉ dueTimes clock services := by
      by_contra lost
      push Not at lost
      exact other ⟨mem_dueTimes.mp lost.2, fun svc member waits =>
        lost.1 _ (mem_dueTimes.mpr ⟨svc, member, waits, rfl⟩)⟩
    obtain ⟨least, -, empty⟩ := earliest_le (.inr kept)
    rw [← time] at least empty
    have due : ∀ svc ∈ restarted.1, svc.flags.restarting = true →
        restarted.2 ≤ svc.dueSecond (clock svc) 0 ∧ restarted.2 ≠ 0 := by
      intro svc member restarting
      obtain ⟨member, waits⟩ := (waiting svc).mp ⟨member, restarting⟩
      have mem := mem_dueTimes.mpr ⟨svc, member, waits, rfl⟩
      exact ⟨least _ mem, fun zero => List.ne_nil_of_mem mem (empty zero).1⟩
    refine ⟨⟨fun zero svc member => ?_, fun settled => ?_⟩, fun svc member restarting => ?_⟩
    · by_contra restarting
      exact (due svc member (by simpa using restarting)).2 zero
    · have empty : dueTimes clock services = [] := List.eq_nil_iff_forall_not_mem.mpr fun next mem => by
        obtain ⟨svc, member, waits, -⟩ := mem_dueTimes.mp mem
        obtain ⟨member, restarting⟩ := (waiting svc).mpr ⟨member, waits⟩
        rw [settled svc member] at restarting
        cases restarting
      rw [time, empty]
      rfl
    · obtain ⟨le, pending⟩ := due svc member restarting
      exact ⟨fun fraction nonneg => le.trans (svc.dueSecond_mono _ nonneg), epollTimeoutMs_nonneg pending⟩

def waitingService : Service where
  name := ascii "a"
  args := []
  flags := { restarting := true }

/-- Half a second before the restart, in the first second of the wall clock. -/
theorem restart_forgotten_at_zero :
    restartProcesses (fun _ => (4500000000, 0)) (fun _ => { fork := none }) [waitingService] 0 = ([waitingService], 0) ∧
      waitingService.flags.restarting = true ∧ epollTimeoutMs 0 0 false = -1 := by
  decide

end Aosp.Init
