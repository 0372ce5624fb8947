import Mathlib.Data.List.Basic

/-! # Waiting for a serial to change

Model of `__system_property_wait` and `__system_property_wait_any` of
`system_properties.cpp`.  What happens to the caller is a list of rounds: what
`__futex_wait` returns, and the serials in memory when the watched one is loaded after it.
-/

namespace Aosp.Bionic

def ETIMEDOUT : Int := 110

structure WaitRound (Addr : Type) where
  rc : Int
  serials : Addr → UInt32

variable {Addr : Type}

/-- The loop: the value returned and what is stored in `*new_serial_ptr`, or `none` while
    the caller waits. -/
def waitLoop (serialPtr : Addr) (oldSerial : UInt32) : List (WaitRound Addr) → Option (Bool × Option UInt32)
  | [] => none
  | round :: rounds =>
    if round.rc ≠ 0 ∧ round.rc = -ETIMEDOUT then some (false, none)
    else
      let newSerial := round.serials serialPtr
      if newSerial = oldSerial then waitLoop serialPtr oldSerial rounds else some (true, some newSerial)

/-- `a` is the serial of `__system_property_area__` and `pi` that of the property, if
    they are not null. -/
def systemPropertyWait (a pi : Option Addr) (oldSerial : UInt32) (rounds : List (WaitRound Addr)) :
    Option (Bool × Option UInt32) :=
  match pi with
  | none =>
    match a with
    -- -1 is converted to `bool`
    | none => some (true, none)
    | some serialPtr => waitLoop serialPtr oldSerial rounds
  | some serialPtr => waitLoop serialPtr oldSerial rounds

/-- The serial returned is `none` if `new_serial` was never written. -/
def systemPropertyWaitAny (a : Option Addr) (oldSerial : UInt32) (rounds : List (WaitRound Addr)) :
    Option (Option UInt32) :=
  (systemPropertyWait a none oldSerial rounds).map Prod.snd

/-- The round is the last one: what is returned and stored after it. -/
inductive WaitRound.Ends (serialPtr : Addr) (oldSerial : UInt32) (round : WaitRound Addr) :
    Bool × Option UInt32 → Prop where
  | timedOut (expired : round.rc = -ETIMEDOUT) : round.Ends serialPtr oldSerial (false, none)
  | changed (o : round.serials serialPtr ≠ oldSerial) :
      round.Ends serialPtr oldSerial (true, some (round.serials serialPtr))

theorem waitLoop_spec (ptr : Addr) (old : UInt32) (rounds : List (WaitRound Addr)) :
    (∀ res, waitLoop ptr old rounds = some res → ∃ round ∈ rounds, round.Ends ptr old res) ∧
      ∀ round ∈ rounds, ∀ res, round.Ends ptr old res → (waitLoop ptr old rounds).isSome := by
  induction rounds with
  | nil => simp [waitLoop]
  | cons round rounds ih =>
    rw [waitLoop]
    split
    next expired => simpa using Or.inl (WaitRound.Ends.timedOut expired.2)
    next hr =>
      dsimp only
      split
      next eq =>
        refine ⟨fun res ret => ?_, fun last mem res ends => ?_⟩
        · obtain ⟨last, mem, ends⟩ := ih.1 res ret
          exact ⟨last, .tail _ mem, ends⟩
        · rcases List.mem_cons.mp mem with rfl | mem
          · cases ends with
            | timedOut expired => exact absurd ⟨by rw [expired]; decide, expired⟩ hr
            | changed o => exact absurd eq o
          · exact ih.2 last mem res ends
      next o => simpa using Or.inl (WaitRound.Ends.changed o)

structure TellsTruth (a pi : Option Addr) (oldSerial : UInt32) (rounds : List (WaitRound Addr)) : Prop where
  returns : (∃ serialPtr ∈ pi.or a, ∃ round ∈ rounds, round.rc = -ETIMEDOUT ∨ round.serials serialPtr ≠ oldSerial) →
    (systemPropertyWait a pi oldSerial rounds).isSome
  stored : ∀ stored, systemPropertyWait a pi oldSerial rounds = some (true, stored) →
    ∃ serialPtr ∈ pi.or a, ∃ round ∈ rounds,
      stored = some (round.serials serialPtr) ∧ round.serials serialPtr ≠ oldSerial
  timedOut : ∀ stored, systemPropertyWait a pi oldSerial rounds = some (false, stored) →
    ∃ round ∈ rounds, round.rc = -ETIMEDOUT
  any : ∀ ret, pi = none → (∀ round ∈ rounds, round.rc ≠ -ETIMEDOUT) →
    systemPropertyWaitAny a oldSerial rounds = some ret →
    ∃ serialPtr ∈ a, ∃ round ∈ rounds, ret = some (round.serials serialPtr) ∧ round.serials serialPtr ≠ oldSerial

/-- A call tells the truth iff it has a serial to watch. -/
theorem system_property_wait_truthful (a pi : Option Addr) (oldSerial : UInt32) (rounds : List (WaitRound Addr)) :
    TellsTruth a pi oldSerial rounds ↔ pi ≠ none ∨ a ≠ none := by
  constructor
  · intro truth
    by_contra unwatched
    simp only [not_or, not_not] at unwatched
    obtain ⟨rfl, rfl⟩ := unwatched
    -- -1 is true, and nothing is stored
    obtain ⟨_, ⟨⟩, -⟩ := truth.stored none rfl
  intro given
  obtain ⟨serialPtr, watched⟩ : ∃ serialPtr, pi.or a = some serialPtr := by
    cases pi <;> cases a <;> simp_all
  obtain ⟨sound, returns⟩ := waitLoop_spec serialPtr oldSerial rounds
  have loop : systemPropertyWait a pi oldSerial rounds = waitLoop serialPtr oldSerial rounds := by
    cases pi <;> cases a <;> cases watched <;> rfl
  constructor
  · rw [watched, loop]
    rintro ⟨_, ⟨⟩, round, mem, expired | changed⟩
    · exact returns round mem _ (.timedOut expired)
    · exact returns round mem _ (.changed changed)
  · rw [loop]
    intro stored returned
    obtain ⟨round, mem, _ | changed⟩ := sound _ returned
    exact ⟨serialPtr, watched, round, mem, rfl, changed⟩
  · rw [loop]
    intro stored returned
    obtain ⟨round, mem, expired | _⟩ := sound _ returned
    exact ⟨round, mem, expired⟩
  · rintro ret rfl untimed any
    obtain ⟨res, waited, rfl⟩ := Option.map_eq_some_iff.mp any
    obtain ⟨round, mem, expired | changed⟩ := sound res (loop ▸ waited)
    · exact absurd expired (untimed round mem)
    · exact ⟨serialPtr, watched, round, mem, rfl, changed⟩

/-- Without an area the call returns true at once with nothing stored, and what
    `__system_property_wait_any` returns was never written. -/
theorem system_property_wait_without_area :
    systemPropertyWait (none : Option Unit) none 6 [] = some (true, none) ∧
      systemPropertyWaitAny (none : Option Unit) 6 [] = some none :=
  ⟨rfl, rfl⟩

end Aosp.Bionic
