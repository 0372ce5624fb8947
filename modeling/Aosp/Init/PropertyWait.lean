import Aosp.Init.InitLoop

/-! # Waiting for a property

Model of `start_waiting_for_property` of `init/init.cpp`.  The wait is set up by a
read of the store and ended by `property_changed`, at the end of `property_set`.  No
value is missed in between: `wait_for_prop_not_missed`.
-/

namespace Aosp.Init

open Aosp.Lib Aosp.Bionic InitState

namespace InitState

/-- The arguments are C strings. -/
def startWaitingForProperty (gp : SystemProperties → Bytes → Bytes) (s : InitState)
    (n v : Bytes) : InitState × Bool :=
  if s.waitingForProp.isSome then (s, false)
  else if gp s.properties n ≠ v then
    -- Current property value is not equal to expected value
    ({ s with waitingForProp := some (n, v) }, true)
  else (s, true)

/-! ## What `property_set` does to the wait -/

@[simp] theorem restorecon_waiting (s : InitState) (n v : Bytes) :
    (s.restorecon n v).waitingForProp = s.waitingForProp := by
  unfold restorecon
  split <;> rfl

@[simp] theorem announce_waiting (e : PersistEnv) (s : InitState) (n v : Bytes) :
    (s.announce e n v).waitingForProp = if s.waitingForProp = some (n, v) then none else s.waitingForProp := by
  have unpersisted : (if s.persistentPropertiesLoaded && (ascii "persist.").isPrefixOf n then
      { s with files := writePersistentProperty e s.files n v } else s).waitingForProp = s.waitingForProp := by
    split <;> rfl
  rw [← unpersisted]
  unfold announce
  generalize (if s.persistentPropertiesLoaded && (ascii "persist.").isPrefixOf n then
      { s with files := writePersistentProperty e s.files n v } else s) = written
  simp only [propertyChanged, effect]
  split <;> split <;> split <;> simp_all

end InitState

/-! ## Runs -/

/-- What init does, seen from the wait. -/
inductive WaitOp where
  | startWaiting (n v : Bytes)
  | propertySet (e : PersistEnv) (n v : Bytes)
  | elsewhere

def WaitStep (gp : SystemProperties → Bytes → Bytes) (pre : InitState) : WaitOp → InitState → Prop
  | .startWaiting name value, after =>
    IsToken name ∧ NulFree value ∧ after = (pre.startWaitingForProperty gp name value).1
  | .propertySet env name value, after =>
    name.length < 2 ^ 32 ∧ NulFree value ∧ ∃ res, pre.propertySet env name value = some (after, res)
  | .elsewhere, after =>
    after.properties = pre.properties ∧ after.waitingForProp = pre.waitingForProp

/-- The store is sound, and what is waited for is not there. -/
structure Waiting (gp : SystemProperties → Bytes → Bytes) (s : InitState) : Prop where
  wellFormed : s.properties.WellFormed
  absent : ∀ n v, s.waitingForProp = some (n, v) → IsToken n ∧ gp s.properties n ≠ v

section

variable {gp : SystemProperties → Bytes → Bytes} {pre post : InitState}

/-- A call of `property_set` leaves the awaited value absent, or ends the wait. -/
theorem InitState.SetOutcome.waiting (reads : ReadsStore gp) (wait : Waiting gp pre)
    {e : PersistEnv} {n v : Bytes} {res : PropResult} (free : NulFree v)
    (oc : InitState.SetOutcome e pre n v post res) : Waiting gp post := by
  cases oc with
  | badName | badValue => exact wait
  | readOnly =>
    constructor
    · rw [restorecon_properties]
      exact wait.wellFormed
    · rw [restorecon_waiting, restorecon_properties]
      exact wait.absent
  | full legal fits _ prs wf kept =>
    refine ⟨wf, fun awaited expected due => ?_⟩
    rw [restorecon_waiting] at due
    obtain ⟨hit, far⟩ := wait.absent awaited expected due
    refine ⟨hit, ?_⟩
    rw [reads.same hit fun held _ => kept held]
    exact far
  | stored legal fits _ prs _ wf own kept =>
    refine ⟨by rwa [announce_properties], fun awaited expected due => ?_⟩
    rw [announce_waiting, announce_properties] at *
    simp only [restorecon_waiting] at due
    split at due
    · cases due
    · rename_i o
      obtain ⟨hit, far⟩ := wait.absent awaited expected due
      refine ⟨hit, ?_⟩
      by_cases name : awaited = n
      · -- the name got a value, which is not the awaited one
        subst name
        rw [reads.stored legal fits free own]
        rintro rfl
        exact o due
      · rw [reads.same hit fun held isHeld => kept held (isHeld ▸ name)]
        exact far

theorem step_waiting (reads : ReadsStore gp) (wait : Waiting gp pre) {op : WaitOp}
    (step : WaitStep gp pre op post) : Waiting gp post := by
  cases op with
  | startWaiting n v =>
    obtain ⟨hit, -, rfl⟩ := step
    unfold startWaitingForProperty
    split
    · exact wait
    · split
      · rename_i far
        refine ⟨wait.wellFormed, fun _ _ due => ?_⟩
        cases due
        exact ⟨hit, far⟩
      · exact wait
  | propertySet e n v =>
    obtain ⟨fits, free, _, set⟩ := step
    obtain ⟨_, _, ran, oc⟩ := propertySet_outcome wait.wellFormed e n v fits
    rw [set] at ran
    cases ran
    exact oc.waiting reads wait free
  | elsewhere =>
    obtain ⟨prs, eq⟩ := step
    refine ⟨by rw [prs]; exact wait.wellFormed, ?_⟩
    rw [prs, eq]
    exact wait.absent

/-- A wait is ended or left as it is, never replaced. -/
theorem step_pending (wait : Waiting gp pre) {op : WaitOp} {pd : Bytes × Bytes}
    (pending : pre.waitingForProp = some pd) (step : WaitStep gp pre op post) :
    post.waitingForProp = some pd ∨ post.waitingForProp = none := by
  cases op with
  | startWaiting n v =>
    obtain ⟨-, -, rfl⟩ := step
    simp [startWaitingForProperty, pending]
  | propertySet e n v =>
    obtain ⟨fits, -, _, set⟩ := step
    obtain ⟨_, _, ran, oc⟩ := propertySet_outcome wait.wellFormed e n v fits
    rw [set] at ran
    cases ran
    cases oc with
    | badName | badValue => exact .inl pending
    | readOnly | full => exact .inl (by simpa using pending)
    | stored =>
      simp only [announce_waiting, restorecon_waiting]
      split
      · exact .inr rfl
      · exact .inl pending
  | elsewhere => exact .inl (step.2.trans pending)

theorem run_waiting (reads : ReadsStore gp) {ops : List WaitOp}
    (run : Run (WaitStep gp) pre ops post) (wf : pre.properties.WellFormed)
    (idle : pre.waitingForProp = none) : Waiting gp post :=
  run.invariant ⟨wf, fun _ _ due => by rw [idle] at due; cases due⟩
    fun _ _ _ wait step => step_waiting reads wait step

end

/-- In every reachable state, if init waits for a property then its value is not the
    awaited one.  A second wait changes nothing, and a wait that is pending is replaced by no
    step. -/
theorem wait_for_prop_not_missed (gp : SystemProperties → Bytes → Bytes) (reads : ReadsStore gp)
    (beg s : InitState) (wf : beg.properties.WellFormed) (idle : beg.waitingForProp = none)
    (ops : List WaitOp) (run : Run (WaitStep gp) beg ops s) :
    (∀ n v, s.waitingForProp = some (n, v) → gp s.properties n ≠ v) ∧
    ∀ pending, s.waitingForProp = some pending → (∀ n v, s.startWaitingForProperty gp n v = (s, false)) ∧
      ∀ op post, WaitStep gp s op post → post.waitingForProp = some pending ∨ post.waitingForProp = none := by
  have waiting := run_waiting reads run wf idle
  refine ⟨fun n v isAwaited => (waiting.absent n v isAwaited).2, fun pending isPending => ⟨?_, ?_⟩⟩
  · intro n v
    simp [startWaitingForProperty, isPending]
  · intro op post step
    exact step_pending waiting isPending step

set_option maxRecDepth 8000 in
/-- Init waits for `a=y`, and `a` is set to something else. -/
theorem wait_for_prop_not_missed_other :
    ∃ s : InitState, s.waitingForProp = some (ascii "a", ascii "y") ∧
      readStore s.properties (ascii "a") ≠ ascii "y" := by
  have set : ((emptyStore.startWaitingForProperty readStore (ascii "a") (ascii "y")).1.propertySet {} (ascii "a")
      (ascii "x")).map (fun res => res.1.waitingForProp) = some (some (ascii "a", ascii "y")) := by decide
  obtain ⟨⟨s, res⟩, set, isPending⟩ := Option.map_eq_some_iff.mp set
  have run : Run (WaitStep readStore) emptyStore
      ([.startWaiting (ascii "a") (ascii "y")] ++ [.propertySet {} (ascii "a") (ascii "x")]) s :=
    .snoc (.snoc .nil ⟨by decide, by decide, rfl⟩) ⟨by decide, by decide, res, set⟩
  have holds := wait_for_prop_not_missed readStore (fun _ _ => rfl) emptyStore s
    (SystemProperties.wellFormed_fresh _) rfl _ run
  exact ⟨s, isPending, holds.1 _ _ isPending⟩

end Aosp.Init
