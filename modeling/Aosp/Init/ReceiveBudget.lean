import Aosp.Init.PropertySocket

/-! # The time a client can take

The calls of `poll` of one request share a budget of `kDefaultSocketTimeout`.  Each is made
while some of it is left, an interruption takes at least a millisecond of it, and whatever
is readable brings the request nearer to its end; so their number is bounded, whatever they
see.  Interruptions of `recv` are not charged: `TEMP_FAILURE_RETRY` repeats the call, and
`PollEvent.readable` has what it returns in the end.
-/

namespace Aosp.Init

open Aosp.Lib Aosp.Bionic List SocketConnection

namespace PollEvent

def millis : PollEvent → Nat
  | readable millis _ | expired millis | interrupted millis | failed millis => millis

def interrupts : PollEvent → Bool
  | interrupted _ => true
  | _ => false

/-- What the call leaves of the time. -/
def charge (ev : PollEvent) (ms : Nat) : Nat :=
  let left := elapse ms ev.millis
  if ev.interrupts then left - 1 else left

theorem charge_le (ev : PollEvent) (ms : Nat) :
    ev.charge ms ≤ ms ∧ (ev.interrupts = true → 0 < ms → ev.charge ms < ms) := by
  simp only [charge, elapse]
  split <;> split <;> simp_all
  all_goals omega

end PollEvent

/-- Calls of `poll`, each made while there is time left, and the time left after them. -/
inductive Polls : Nat → List PollEvent → Nat → Prop where
  | done (ms : Nat) : Polls ms [] ms
  /-- Nothing more happens, and `poll` waits for the timeout. -/
  | expire (ms : Nat) : Polls ms [] 0
  | poll {ms last : Nat} {ev : PollEvent} {polls : List PollEvent} (positive : 0 < ms)
      (tl : Polls (ev.charge ms) polls last) : Polls ms (ev :: polls) last

variable {first mid last : Nat} {polls more : List PollEvent}

theorem Polls.trans (one : Polls first polls mid) (two : Polls mid more last) : Polls first (polls ++ more) last := by
  induction one with
  | done => exact two
  | expire =>
    cases two with
    | done | expire => exact .expire _
    | poll positive => cases positive
  | poll positive _ ih => exact .poll positive (ih two)

theorem Polls.interrupted (ht : Polls first polls last) : polls.countP PollEvent.interrupts + last ≤ first := by
  induction ht with
  | done | expire => simp
  | @poll ms _ event _ positive _ _ =>
    obtain ⟨_, interrupted⟩ := event.charge_le ms
    rw [countP_cons]
    split
    · have := interrupted ‹_› positive
      omega
    · omega

/-- The time left and what will happen before, and afterwards: all but `n` of the calls of `poll` are interrupted. -/
def Spends (n : Nat) (pre post : Nat × List PollEvent) : Prop :=
  ∃ polls, pre.2 = polls ++ post.2 ∧ Polls pre.1 polls post.1 ∧ polls.countP (!·.interrupts) ≤ n

variable {beg next post : Nat × List PollEvent} {m n : Nat}

theorem Spends.refl : Spends n beg beg := ⟨[], rfl, .done _, by simp⟩

theorem Spends.mono (spends : Spends m beg post) (le : m ≤ n) : Spends n beg post := by
  obtain ⟨polls, split, ht, few⟩ := spends
  exact ⟨polls, split, ht, few.trans le⟩

theorem Spends.trans (one : Spends m beg next) (two : Spends n next post) : Spends (m + n) beg post := by
  obtain ⟨polls, split, ht, _⟩ := one
  obtain ⟨more, moreSplit, moreTaken, _⟩ := two
  refine ⟨polls ++ more, by rw [split, moreSplit, append_assoc], ht.trans moreTaken, ?_⟩
  rw [countP_append]
  omega

theorem pollIn_spends (ms : Nat) (evs : List PollEvent) : Spends 1 (ms, evs) (pollIn ms evs).2 := by
  fun_induction pollIn ms evs with
  | case1 => exact .refl
  | case2 => exact ⟨[], rfl, .expire _, by simp⟩
  | case3 | case4 | case5 => exact ⟨[_], rfl, .poll (Nat.succ_pos _) (.done _), by simp [PollEvent.interrupts]⟩
  | case6 ms _ evs ih =>
    obtain ⟨polls, split, ht, few⟩ := ih
    exact ⟨_ :: polls, congrArg _ split, .poll (Nat.succ_pos _) ht, by simpa [PollEvent.interrupts] using few⟩

namespace SocketConnection

def budget (sk : SocketConnection) : Nat × List PollEvent := (sk.timeoutMs, sk.events)

/-- A round of the loop makes one call that is not interrupted. -/
theorem recvLoop_spends (fl : Nat) (sk : SocketConnection) (bl : Nat) (data : Bytes) :
    Spends fl sk.budget (recvLoop fl sk bl data).2.budget := by
  induction fl generalizing sk bl data with
  | zero => exact .refl
  | succ fl ih =>
    have poll := pollIn_spends sk.timeoutMs sk.events
    rw [recvLoop, Nat.add_comm]
    split
    · split
      · rename_i most ms evs isPoll
        rw [isPoll] at poll
        dsimp only
        split
        · exact poll.trans .refl
        · exact poll.trans (ih ⟨_, evs, ms, _⟩ _ _)
      · rename_i isPoll
        rw [isPoll] at poll
        exact poll.trans .refl
    · exact .refl

theorem recvUint32_spends (sk : SocketConnection) : Spends 4 sk.budget sk.recvUint32.2.budget :=
  recvLoop_spends 4 sk 4 []

theorem recvString_spends (sk : SocketConnection) : Spends (4 + 0xffff) sk.budget sk.recvString.2.budget := by
  have hc := sk.recvUint32_spends
  unfold recvString
  split
  · rename_i length
    rw [length] at hc
    exact hc.trans .refl
  · rename_i len next length
    rw [length] at hc
    refine hc.trans ?_
    split
    · exact .refl
    · split
      · exact .refl
      · exact (recvLoop_spends len next len []).mono (by omega)

end SocketConnection

theorem recvRequest_spends (sk : SocketConnection) :
    Spends (4 + ((4 + 0xffff) + (4 + 0xffff))) (kDefaultSocketTimeout, sk.events) (recvRequest sk).2.budget := by
  have command := recvUint32_spends { sk with timeoutMs := kDefaultSocketTimeout }
  unfold recvRequest
  split <;> rename_i isCommand <;> rw [isCommand] at command
  · exact command.trans .refl
  rename_i cmd next
  refine command.trans ?_
  split
  · have n := recvLoop_spends PROP_NAME_MAX next PROP_NAME_MAX []
    split <;> rename_i name <;> rw [← recvFully, name] at n
    · exact n.mono (by decide)
    rename_i next
    have v := recvLoop_spends PROP_VALUE_MAX next PROP_VALUE_MAX []
    split <;> rename_i val <;> rw [← recvFully, val] at v
    all_goals exact (n.trans v).mono (by decide)
  · split
    · have n := next.recvString_spends
      split <;> rename_i name <;> rw [name] at n
      · exact n.trans .refl
      rename_i next
      have v := next.recvString_spends
      split <;> rename_i val <;> rw [val] at v
      all_goals exact n.trans v
    · exact .refl

/-- The time left as the source computes it, in 64 bits and then in 32. -/
def elapseWord (ms : UInt32) (millis : UInt64) : UInt32 :=
  if ms.toUInt64 < millis then 0 else (ms.toUInt64 - millis).toUInt32

theorem elapseWord_toNat (ms : UInt32) (millis : UInt64) :
    (elapseWord ms millis).toNat = elapse ms.toNat millis.toNat := by
  have word := ms.toNat_lt
  unfold elapseWord elapse
  split
  · simp_all [UInt64.lt_iff_toNat_lt]
  · rename_i fuel
    have le := UInt64.not_lt.mp fuel
    rw [if_neg (by simpa [UInt64.le_iff_toNat_le] using le), UInt64.toNat_toUInt32, UInt64.toNat_sub_of_le _ _ le]
    simp
    omega

/-- Whatever `poll` sees and however long it takes, one request makes at most so many calls of it; each is made with
    time left and leaves no more, less if it is interrupted. -/
theorem receive_phase_within_budget (sk : SocketConnection) : (∃ polls, sk.events = polls ++ (recvRequest sk).2.events ∧
        Polls kDefaultSocketTimeout polls (recvRequest sk).2.timeoutMs ∧
        polls.length ≤ kDefaultSocketTimeout + 131082 ∧ (recvRequest sk).2.timeoutMs ≤ kDefaultSocketTimeout) ∧
      (∀ (ev : PollEvent) (ms : Nat), ev.charge ms ≤ ms ∧ (ev.interrupts = true → 0 < ms → ev.charge ms < ms)) ∧
      (∀ (ms : UInt32) (millis : UInt64), (elapseWord ms millis).toNat = elapse ms.toNat millis.toNat) ∧
      ∀ (sz extra : Nat) (sk : SocketConnection), recvLoop (sz + extra) sk sz [] = sk.recvFully sz := by
  refine ⟨?_, PollEvent.charge_le, elapseWord_toNat, fun sz extra sk => ?_⟩
  · obtain ⟨polls, split, taken, _⟩ := recvRequest_spends sk
    have interrupted := taken.interrupted
    have all := length_eq_countP_add_countP PollEvent.interrupts (l := polls)
    simp only [Bool.not_eq_true, Bool.decide_eq_false] at all
    exact ⟨polls, split, taken, by omega, le_of_add_le_right interrupted⟩
  · induction extra with
    | zero => rfl
    | succ extra ih => rw [← Nat.add_assoc, recvLoop_fuel (by omega), ih]

/-- `TEMP_FAILURE_RETRY(recv(...))` over what the calls of `recv` return, `none` for `EINTR`; `none` if it has not
    returned after them. -/
def recvRetry : List (Option (Option Nat)) → Option (Option Nat)
  | [] => none
  | none :: calls => recvRetry calls
  | some recv :: _ => some recv

/-- An interrupted `recv` is repeated for as long as it is interrupted, at no charge. -/
theorem recv_interrupted_for_ever : (fun calls => recvRetry (replicate calls none)) = fun _ => none := by
  funext calls
  induction calls with
  | zero => rfl
  | succ calls ih => exact ih

end Aosp.Init
