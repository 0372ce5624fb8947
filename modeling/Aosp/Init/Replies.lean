import Aosp.Init.PropertyAuthority

/-! # What the peer is told

A peer of the old protocol gets no reply, any other one exactly one code
(`replies_follow_version`); but an illegal name is answered in both.
-/

namespace Aosp.Init

open Aosp.Lib Aosp.Bionic List

namespace SocketConnection

theorem recvLoop_sent (fl : Nat) (sk : SocketConnection) (bl : Nat) (data : Bytes) :
    (recvLoop fl sk bl data).2.sent = sk.sent := by
  fun_induction recvLoop fl sk bl data with
  | case3 => rename_i ih; exact ih
  | _ => rfl

theorem recvUint32_sent (sk : SocketConnection) : sk.recvUint32.2.sent = sk.sent := recvLoop_sent 4 sk 4 []

theorem recvString_sent (sk : SocketConnection) : sk.recvString.2.sent = sk.sent := by
  have len := sk.recvUint32_sent
  rw [recvString]
  split <;> rename_i length <;> rw [length] at len
  · exact len
  · split
    · exact len
    · split
      · exact len
      · exact (recvLoop_sent ..).trans len

def command (sk : SocketConnection) : Option Nat :=
  { sk with timeoutMs := kDefaultSocketTimeout }.recvUint32.1

end SocketConnection

open SocketConnection

def replies (legacy : Bool) (code : PropResult) : List PropResult := if legacy then [] else [code]

/-- The peer's request is of the old protocol. -/
def isLegacy (sk : SocketConnection) : Bool := sk.command = some PROP_MSG_SETPROP

theorem recvRequest_replies {sk post : SocketConnection} {req : Option (Bytes × Bytes × Bool)}
    (got : recvRequest sk = (req, post)) : (∀ n v leg, req = some (n, v, leg) →
        leg = isLegacy sk ∧ post.sent = sk.sent) ∧
      (req = none → ∃ code, post.sent = sk.sent ++ replies (isLegacy sk) code) := by
  have cmdSent := recvUint32_sent { sk with timeoutMs := kDefaultSocketTimeout }
  rw [recvRequest] at got
  rw [isLegacy, command]
  split at got <;> rename_i isCmd <;> rw [isCmd] at cmdSent ⊢
  · cases got
    exact ⟨nofun, fun _ => ⟨.readCmd, by simpa [sendUint32, replies] using cmdSent⟩⟩
  rename_i cmd next
  split at got
  next old =>
    subst old
    have nameSent := recvLoop_sent PROP_NAME_MAX next PROP_NAME_MAX []
    rw [← recvFully] at nameSent
    split at got <;> rename_i name <;> rw [name] at nameSent
    · cases got
      exact ⟨nofun, fun _ => ⟨.success, by simpa [replies] using nameSent.trans cmdSent⟩⟩
    rename_i propName socket
    have valueSent := recvLoop_sent PROP_VALUE_MAX socket PROP_VALUE_MAX []
    rw [← recvFully] at valueSent
    have sent := valueSent.trans (nameSent.trans cmdSent)
    split at got <;> rename_i valued <;> rw [valued] at sent <;> cases got
    · exact ⟨nofun, fun _ => ⟨.success, by simpa [replies] using sent⟩⟩
    · exact ⟨by rintro _ _ _ ⟨⟩; simpa using sent, nofun⟩
  next new =>
    split at got
    · have nameSent := next.recvString_sent
      split at got <;> rename_i name <;> rw [name] at nameSent
      · cases got
        exact ⟨nofun, fun _ => ⟨.readData, by simpa [new, sendUint32, replies] using nameSent.trans cmdSent⟩⟩
      rename_i n socket
      have sent := socket.recvString_sent.trans (nameSent.trans cmdSent)
      split at got <;> rename_i valued <;> rw [valued] at sent <;> cases got
      · exact ⟨nofun, fun _ => ⟨.readData, by simpa [new, sendUint32, replies] using sent⟩⟩
      · exact ⟨by rintro _ _ _ ⟨⟩; simpa [new] using sent, nofun⟩
    · cases got
      exact ⟨nofun, fun _ => ⟨.invalidCmd, by simpa [new, sendUint32, replies] using cmdSent⟩⟩

theorem reply_sent (sk : SocketConnection) (leg : Bool) (code : PropResult) :
    (sk.reply leg code).sent = sk.sent ++ replies leg code := by
  cases leg <;> simp [reply, sendUint32, replies]

theorem update_ne (info : PropInfo) (v : Bytes) {len : Nat} (fits : len < PROP_VALUE_MAX) :
    info.update v len ≠ info := by
  intro eq
  have ser := info.update_serial_toNat v fits
  rw [eq] at ser
  omega

/-- The `prop_info` of the name is what storing the value makes of the one before. -/
def StoredValue (s next : InitState) (n v : Bytes) : Prop :=
  v.length < PROP_VALUE_MAX ∧ ∃ pi, next.properties.lookup n =
    some (pi, InitState.storedInfo n v ((s.properties.lookup n).map Prod.snd))

variable {e : PersistEnv} {s post : InitState} {n v : Bytes} {res : PropResult}

/-- To store a value changes the serial. -/
theorem not_stored_of_same (eq : post.properties.lookup n = s.properties.lookup n) : ¬ StoredValue s post n v := by
  rintro ⟨fits, _, kept⟩
  rw [eq] at kept
  rw [kept] at kept
  exact update_ne _ v fits (congrArg Prod.snd (Option.some.inj kept)).symm

theorem success_iff_stored (oc : InitState.SetOutcome e s n v post res)
    (legal : isLegalPropertyName n = true) (short : n.length < 2 ^ 32) : res = .success ↔ StoredValue s post n v := by
  cases oc with
  | badName | badValue => exact ⟨nofun, fun isStored => absurd isStored (not_stored_of_same rfl)⟩
  | readOnly =>
    exact ⟨nofun, fun isStored => absurd isStored (not_stored_of_same (by rw [InitState.restorecon_properties]))⟩
  | full _ _ _ properties _ kept =>
    exact ⟨nofun, fun isStored => absurd isStored (not_stored_of_same (kept (PropName.ofLegal n legal short)))⟩
  | stored _ fits _ properties pi _ own =>
    refine ⟨fun _ => ⟨fits, pi, ?_⟩, fun _ => rfl⟩
    rw [InitState.announce_properties]
    exact own

def FollowsVersion (e : PersistEnv) (peer : Peer) (s : InitState) (sk : SocketConnection) : Prop :=
  ∃ next post code, handlePropertySetFd e peer s (some sk) = some (next, some post) ∧
    post.sent = sk.sent ++ (if sk.command = some PROP_MSG_SETPROP then [] else [code]) ∧
    ∀ n v, sk.command = some PROP_MSG_SETPROP2 → delivered sk = some (n, v) →
      (ascii "ctl.").isPrefixOf n = false → (code = .success ↔ StoredValue s next n v)

/-- What `handle_property_set` replies to a request, but to an illegal name of the old protocol. -/
theorem handlePropertySet_replies (e : PersistEnv) (peer : Peer) (wf : s.properties.WellFormed) (sk : SocketConnection)
    (v : Bytes) (legacy : Bool) (short : n.length < 2 ^ 32) (legal : legacy = true → isLegalPropertyName n = true) :
    ∃ next post code, handlePropertySet e peer s sk n v legacy = some (next, post) ∧
      post.sent = sk.sent ++ replies legacy code ∧
      ((ascii "ctl.").isPrefixOf n = false → (code = .success ↔ StoredValue s next n v)) := by
  have kept := @not_stored_of_same s s n v rfl
  have replied := fun code => reply_sent sk legacy code
  rw [handlePropertySet]
  split
  next illegal =>
    have new : legacy = false := by
      by_contra old
      simp [legal (by simpa using old)] at illegal
    exact ⟨s, _, .invalidName, rfl, by simp [sendUint32, replies, new], fun _ => by simp [kept]⟩
  next isLegal =>
    split
    next control =>
      split
      · exact ⟨_, _, .success, rfl, replied _, by simp [control]⟩
      · exact ⟨_, _, .handleControlMessage, rfl, replied _, by simp [control]⟩
    next =>
      split
      · obtain ⟨next, res, set, outcome⟩ := InitState.propertySet_outcome wf e n v short
        rw [set]
        exact ⟨next, _, res, rfl, replied _, fun _ => success_iff_stored outcome (by simpa using isLegal) short⟩
      · exact ⟨_, _, .permissionDenied, rfl, replied _, fun _ => by simp [kept]⟩

/-- Only an illegal name of the old protocol is answered against the version. -/
theorem replies_follow_version (e : PersistEnv) (peer : Peer) (s : InitState)
    (wf : s.properties.WellFormed) (sk : SocketConnection) :
    FollowsVersion e peer s sk ↔
      (sk.command = some PROP_MSG_SETPROP → ∀ n v, delivered sk = some (n, v) → isLegalPropertyName n = true) := by
  rcases got : recvRequest sk with ⟨req, received⟩
  obtain ⟨complete, failed⟩ := recvRequest_replies got
  simp only [FollowsVersion, delivered, handlePropertySetFd, got]
  cases req with
  | none =>
    obtain ⟨code, sent⟩ := failed rfl
    exact ⟨by simp, fun _ => ⟨s, received, code, rfl, by simpa [replies, isLegacy] using sent, by simp⟩⟩
  | some req =>
    obtain ⟨n, v, _⟩ := req
    obtain ⟨rfl, sent⟩ := complete _ _ _ rfl
    have short : n.length < 2 ^ 32 := Nat.lt_of_le_of_lt (recvRequest_spec got).2.1 (by decide)
    constructor
    · rintro ⟨next, post, code, handled, replied, -⟩ old _ _ ⟨⟩
      by_contra illegal
      have answered : handlePropertySet e peer s received n v (isLegacy sk) =
          some (s, received.sendUint32 .invalidName) := if_pos (by simpa using illegal)
      simp only [answered] at handled
      cases handled
      simp [sendUint32, sent, old] at replied
    · intro legal
      obtain ⟨next, post, code, handled, replied, success⟩ := handlePropertySet_replies e peer wf received v
        (isLegacy sk) short (fun old => legal (by simpa [isLegacy] using old) _ _ rfl)
      refine ⟨next, post, code, by simp [handled], by simpa [replies, isLegacy, sent] using replied, ?_⟩
      rintro _ _ - ⟨⟩
      exact success

set_option maxRecDepth 8000 in
theorem replies_follow_version_prompt :
    FollowsVersion {} permissivePeer emptyStore (prompt .version2 (ascii "a") (ascii "b")) :=
  (replies_follow_version {} permissivePeer emptyStore (SystemProperties.wellFormed_fresh _) _).mpr
    fun old => absurd old (by decide)

set_option maxRecDepth 8000 in
/-- A peer of the old protocol that sets `a` to `.` gets a code. -/
theorem legacy_peer_gets_reply : (prompt .version1 (ascii "a") (ascii ".")).command = some PROP_MSG_SETPROP ∧
      (handlePropertySetFd {} permissivePeer emptyStore (some (prompt .version1 (ascii "a") (ascii ".")))).map
        (fun last => last.2.map SocketConnection.sent) = some (some [.invalidName]) := by
  decide

end Aosp.Init
