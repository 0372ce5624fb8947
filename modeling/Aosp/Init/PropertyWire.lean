import Aosp.Init.PropertySocket

/-! # The wire format of a request

`SocketWriter` of the client and `RecvUint32` and `RecvString` of init agree: what one
writes the other reads back, however the stream is cut up on the way, and a stream that
ends early is not taken for a request (`wire_round_trip`).

A delivery is the list of what `poll` and `recv` see (`PollEvent`): the piece that each
`recv` finds may have any length but zero, so every split of the stream is covered.
-/

namespace Aosp.Init

open Aosp.Lib Aosp.Bionic List SocketConnection

/-! ## Deliveries -/

namespace PollEvent

/-- There is something to read, or the call is interrupted. -/
def Delivers : PollEvent → Prop
  | .readable _ (some most) => 0 < most
  | .interrupted _ => True
  | .readable _ none | .expired _ | .failed _ => False

/-- What the event takes off the timeout. -/
def cost : PollEvent → Nat
  | .readable millis _ | .expired millis | .failed millis => millis
  | .interrupted millis => millis + 1

def isReadable : PollEvent → Bool
  | .readable _ _ => true
  | .expired _ | .interrupted _ | .failed _ => false

instance : (ev : PollEvent) → Decidable ev.Delivers
  | .readable _ (some most) => inferInstanceAs (Decidable (0 < most))
  | .interrupted _ => inferInstanceAs (Decidable True)
  | .readable _ none | .expired _ | .failed _ => inferInstanceAs (Decidable False)

end PollEvent

/-- `sz` bytes arrive, in pieces of any length, before the timeout is used up. -/
structure Arrives (events : List PollEvent) (ms sz : Nat) : Prop where
  delivers : ∀ ev ∈ events, ev.Delivers
  inTime : (events.map PollEvent.cost).sum < ms
  -- each piece has at least one byte
  enough : sz ≤ events.countP PollEvent.isReadable

variable {evs : List PollEvent} {v : Bytes}

theorem Arrives.mono {ms sz less : Nat} (comes : Arrives evs ms sz) (cap : less ≤ sz) : Arrives evs ms less :=
  ⟨comes.delivers, comes.inTime, cap.trans comes.enough⟩

namespace SocketConnection

variable {sz : Nat} {sk : SocketConnection} {tl : Bytes}

theorem pollIn_arrives {ms : Nat} (comes : Arrives evs ms (sz + 1)) :
    ∃ most left tl, pollIn ms evs = (some (some most), left, tl) ∧ 0 < most ∧ Arrives tl left sz := by
  induction evs generalizing ms with
  | nil =>
    have never := comes.enough
    simp at never
  | cons ev evs ih =>
    have inTime := comes.inTime
    have fuel := comes.enough
    have rest := comes.delivers ev mem_cons_self
    have tl := fun o mem => comes.delivers o (mem_cons_of_mem _ mem)
    rw [map_cons, sum_cons] at inTime
    obtain ⟨ms, rfl⟩ : ∃ less, ms = less + 1 := ⟨ms - 1, by omega⟩
    cases ev with
    | readable millis recv =>
      cases recv with
      | none => exact rest.elim
      | some most =>
        refine ⟨most, _, evs, rfl, rest, tl, ?_, ?_⟩
        · simp only [PollEvent.cost] at inTime
          rw [elapse, if_neg (by omega)]
          omega
        · rw [countP_cons_of_pos rfl] at fuel
          omega
    | interrupted millis =>
      simp only [PollEvent.cost] at inTime
      apply ih
      refine ⟨tl, ?_, by simpa [PollEvent.isReadable] using fuel⟩
      rw [elapse, if_neg (by omega)]
      omega
    | expired millis => exact rest.elim
    | failed millis => exact rest.elim

/-- The loop of `RecvFully` receives what it waits for. -/
theorem recvLoop_arrives {fl bl : Nat} (data : Bytes) (fuel : bl ≤ fl)
    (hp : bl ≤ sk.pending.length) (comes : Arrives sk.events sk.timeoutMs (bl + sz)) :
    ∃ post, recvLoop fl sk bl data = (some (data ++ sk.pending.take bl), post) ∧
      post.pending = sk.pending.drop bl ∧ post.sent = sk.sent ∧ Arrives post.events post.timeoutMs sz := by
  induction fl generalizing sk bl data with
  | zero =>
    obtain rfl : bl = 0 := by omega
    exact ⟨sk, by simp [recvLoop], rfl, rfl, by simpa using comes⟩
  | succ fl ih =>
    unfold recvLoop
    have hr : 0 < sk.timeoutMs := by
      have inTime := comes.inTime
      omega
    by_cases done : bl = 0
    · subst done
      exact ⟨sk, by simp, rfl, rfl, by simpa using comes⟩
    · obtain ⟨most, left, tl, poll, _, restArrives⟩ :=
        pollIn_arrives (comes.mono (show bl - 1 + sz + 1 ≤ bl + sz by omega))
      rw [if_pos ⟨hr, by omega⟩]
      simp only [poll]
      have len : (sk.pending.take (min most bl)).length = min most bl := by
        rw [length_take]
        omega
      rw [len, if_neg (by omega)]
      have left : bl - min most bl ≤ (mk (sk.pending.drop (min most bl)) tl left sk.sent).pending.length := by
        rw [length_drop]
        omega
      obtain ⟨post, got, sock, sent, afterArrives⟩ := ih
        _ (by omega) left
        (restArrives.mono (show bl - min most bl + sz ≤ bl - 1 + sz by omega))
      have full : min most bl + (bl - min most bl) = bl := by omega
      refine ⟨post, ?_, ?_, sent, afterArrives⟩
      · rw [got, append_assoc, ← take_add, full]
      · rw [sock, drop_drop, full]

theorem recvFully_arrives {ft : Bytes} (sock : sk.pending = ft ++ tl)
    (comes : Arrives sk.events sk.timeoutMs (ft.length + sz)) :
    ∃ post, sk.recvFully ft.length = (some ft, post) ∧ post.pending = tl ∧
      post.sent = sk.sent ∧ Arrives post.events post.timeoutMs sz := by
  obtain ⟨post, got, left, sent, afterArrives⟩ :=
    recvLoop_arrives [] le_rfl (by rw [sock, length_append]; omega) comes
  rw [sock, take_left] at got
  rw [sock, drop_left] at left
  exact ⟨post, got, left, sent, afterArrives⟩

theorem recvUint32_arrives {v : Nat} (cap : v < 2 ^ 32) (sock : sk.pending = le32 v ++ tl)
    (comes : Arrives sk.events sk.timeoutMs (4 + sz)) :
    ∃ post, sk.recvUint32 = (some v, post) ∧ post.pending = tl ∧ post.sent = sk.sent ∧
      Arrives post.events post.timeoutMs sz := by
  obtain ⟨post, got, left, sent, afterArrives⟩ := recvFully_arrives sock comes
  refine ⟨post, ?_, left, sent, afterArrives⟩
  rw [recvUint32, show (4 : Nat) = (le32 v).length from rfl, got]
  simp [readLe32_le32 v cap]

theorem recvString_arrives (fits : v.length ≤ 0xffff) (sock : sk.pending = le32 v.length ++ v ++ tl)
    (comes : Arrives sk.events sk.timeoutMs (4 + v.length + sz)) :
    ∃ post, sk.recvString = (some v, post) ∧ post.pending = tl ∧ post.sent = sk.sent ∧
      Arrives post.events post.timeoutMs sz := by
  rw [Nat.add_assoc] at comes
  obtain ⟨mid, len, left, sent, middleArrives⟩ := recvUint32_arrives (by omega) sock comes
  simp only [recvString, len]
  by_cases emp : v.length = 0
  · -- an empty string has no bytes of its own
    have empty := length_eq_zero_iff.mp emp
    subst empty
    exact ⟨mid, rfl, left, sent, middleArrives.mono (by simp)⟩
  · rw [if_neg emp, if_neg (by omega)]
    obtain ⟨post, got, afterLeft, afterSent, afterArrives⟩ := recvFully_arrives left middleArrives
    exact ⟨post, got, afterLeft, afterSent.trans sent, afterArrives⟩

end SocketConnection

/-! ## A request -/

/-- What `SocketWriter` writes for a request. -/
def requestBytes (key v : Bytes) : Bytes :=
  le32 PROP_MSG_SETPROP2 ++ (le32 key.length ++ key) ++ (le32 v.length ++ v)

theorem recvRequest_arrives (sk : SocketConnection) {key : Bytes} (keyFits : key.length ≤ 0xffff)
    (valueFits : v.length ≤ 0xffff) (sock : sk.pending = requestBytes key v)
    (comes : Arrives sk.events kDefaultSocketTimeout (requestBytes key v).length) :
    ∃ cmd nm post, { sk with timeoutMs := kDefaultSocketTimeout }.recvUint32 =
        (some PROP_MSG_SETPROP2, cmd) ∧ cmd.recvString = (some key, nm) ∧ nm.recvString = (some v, post) ∧
      recvRequest sk = (some (key, v, false), post) ∧ post.pending = [] ∧ post.sent = sk.sent := by
  have sz : (requestBytes key v).length = 4 + (4 + key.length + (4 + v.length + 0)) := by
    have word : ∀ n, (le32 n).length = 4 := fun _ => rfl
    simp only [requestBytes, length_append, word]
    omega
  rw [sz] at comes
  have sock : (mk sk.pending sk.events kDefaultSocketTimeout sk.sent).pending =
      le32 PROP_MSG_SETPROP2 ++ (le32 key.length ++ key ++ (le32 v.length ++ v)) := by
    exact sock
  obtain ⟨cmd, receivedCommand, commandLeft, commandSent, commandArrives⟩ :=
    recvUint32_arrives (by decide) sock comes
  obtain ⟨nm, rn2, nameLeft, nameSent, nameArrives⟩ :=
    recvString_arrives keyFits commandLeft commandArrives
  obtain ⟨post, rv, afterLeft, afterSent, -⟩ :=
    recvString_arrives valueFits (nameLeft.trans (append_nil _).symm) nameArrives
  refine ⟨cmd, nm, post, receivedCommand, rn2, rv, ?_, afterLeft, afterSent.trans (nameSent.trans commandSent)⟩
  simp [recvRequest, receivedCommand, rn2, rv, show PROP_MSG_SETPROP2 ≠ PROP_MSG_SETPROP by decide]

/-- A request written by `SocketWriter` is read back by init as it was, whatever pieces
    it arrives in, with nothing left over; and no stream that ends before the end of the request
    makes init call `handle_property_set`. -/
theorem wire_round_trip (key v : Bytes) (keyFree : NulFree key) (valueFree : NulFree v)
    (keyFits : key.length ≤ 0xffff) (valueFits : v.length < PROP_VALUE_MAX) :
    ∃ writer, (((({} : SocketWriter).writeUint32 PROP_MSG_SETPROP2).bind (·.writeString key)).bind
        (·.writeString v)) = some writer ∧
      (∀ events, Arrives events kDefaultSocketTimeout writer.bytes.length →
        ∃ cmd n post : SocketConnection,
          recvUint32 ⟨writer.bytes, events, kDefaultSocketTimeout, []⟩ = (some PROP_MSG_SETPROP2, cmd) ∧
          cmd.recvString = (some key, n) ∧ n.recvString = (some v, post) ∧
          recvRequest { pending := writer.bytes, events } = (some (key, v, false), post) ∧ post.pending = []) ∧
      ∀ cut events, cut <+: writer.bytes → cut ≠ writer.bytes → (recvRequest { pending := cut, events }).1 = none := by
  have keyShort : key.length < 2 ^ 32 := by omega
  have valueShort : v.length ≤ 0xffff := by
    have bound : PROP_VALUE_MAX ≤ 0xffff := by decide
    omega
  obtain ⟨writer, wrote, bytes⟩ := SocketWriter.write_request keyFree valueFree keyShort (by omega)
  refine ⟨writer, wrote, ?_⟩
  rw [bytes]
  refine ⟨fun events arrives => ?_, fun cut events isCut short => ?_⟩
  · obtain ⟨cmd, n, post, receivedCommand, receivedName, receivedValue, received, left, -⟩ :=
      recvRequest_arrives ⟨requestBytes key v, events, 0, []⟩ keyFits valueShort rfl arrives
    exact ⟨cmd, n, post, receivedCommand, receivedName, receivedValue, received, left⟩
  · rw [← Option.not_isSome_iff_eq_none]
    intro complete
    exact short (delivered_version2 keyShort (by omega) isCut complete).2

/-- Each `recv` reads one byte. -/
theorem wire_round_trip_bytes :
    ∃ writer : SocketWriter,
      Arrives (List.replicate writer.bytes.length (.readable 1 (some 1))) kDefaultSocketTimeout writer.bytes.length ∧
      ∃ post, recvRequest ⟨writer.bytes, List.replicate writer.bytes.length (.readable 1 (some 1)), 0, []⟩ =
        (some (ascii "a.b", [], false), post) := by
  obtain ⟨writer, wrote, decodes, -⟩ :=
    wire_round_trip (ascii "a.b") [] (by decide) (by decide) (by decide) (by decide)
  have length : writer.bytes.length = 15 := by
    cases wrote
    decide
  have arrives : Arrives (List.replicate 15 (.readable 1 (some 1))) kDefaultSocketTimeout 15 :=
    ⟨by decide, by decide, by decide⟩
  rw [length] at decodes
  obtain ⟨_, _, post, -, -, -, received, -⟩ := decodes _ arrives
  exact ⟨writer, by rw [length]; exact arrives, post, by rw [length]; exact received⟩

end Aosp.Init
