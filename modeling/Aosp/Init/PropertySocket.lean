import Aosp.Bionic.PropertyClient
import Aosp.Init.PropertyStore

/-! # The property socket

Model of `SocketConnection`, `handle_property_set` and `handle_property_set_fd`.
A connection holds the bytes the peer sent and what the calls of `poll` and
`recv` will see, so that short reads, interruptions and timeouts are all part of
the model.  What SELinux answers is a parameter.

A version 2 request is received as the name and the value that were sent; a
version 1 request as the value, twice (`protocol_versions_agree_iff`).
-/

namespace Aosp.Init

open Aosp.Lib Aosp.Bionic List

/-! ## Receiving -/

/-- What one call of `poll` sees after `millis`: data, which the `recv` after it
    fails to read or reads at most so many bytes of; the timeout; `EINTR`; another
    error. -/
inductive PollEvent where
  | readable (millis : Nat) (recv : Option Nat)
  | expired (millis : Nat)
  | interrupted (millis : Nat)
  | failed (millis : Nat)

structure SocketConnection where
  -- sent by the peer and not yet received
  pending : Bytes
  events : List PollEvent
  timeoutMs : Nat := 0
  -- the replies
  sent : List PropResult := []

namespace SocketConnection

def sendUint32 (sk : SocketConnection) (v : PropResult) : SocketConnection :=
  { sk with sent := sk.sent ++ [v] }

/-- The replies that only the newer protocol has. -/
def reply (sk : SocketConnection) (legacy : Bool) (v : PropResult) : SocketConnection :=
  if legacy then sk else sk.sendUint32 v

def elapse (timeoutMs millis : Nat) : Nat :=
  if millis > timeoutMs then 0 else timeoutMs - millis

/-- What the `recv` after it will see if there is something to read, the time
    left and the events left.  When no event is left `poll` waits for the timeout. -/
def pollIn : Nat → List PollEvent → Option (Option Nat) × Nat × List PollEvent
  | 0, events => (none, 0, events)
  | _ + 1, [] => (none, 0, [])
  | timeoutMs + 1, .readable millis recv :: events => (some recv, elapse (timeoutMs + 1) millis, events)
  | timeoutMs + 1, .expired millis :: events => (none, elapse (timeoutMs + 1) millis, events)
  | timeoutMs + 1, .failed millis :: events => (none, elapse (timeoutMs + 1) millis, events)
  | timeoutMs + 1, .interrupted millis :: events =>
    -- a millisecond is counted for an interruption that took less
    pollIn (elapse (timeoutMs + 1) millis - 1) events

/-- The loop of `RecvFully`, at most `fuel` times: `data` was received, `bytesLeft`
    are missing. -/
def recvLoop : Nat → SocketConnection → Nat → Bytes → Option Bytes × SocketConnection
  | 0, sk, bytesLeft, data => (if bytesLeft = 0 then some data else none, sk)
  | fuel + 1, sk, bytesLeft, data =>
    if sk.timeoutMs > 0 ∧ bytesLeft > 0 then
      match pollIn sk.timeoutMs sk.events with
      | (some (some most), timeoutMs, events) =>
        let chunk := sk.pending.take (min most bytesLeft)
        let sk := { sk with timeoutMs, events, pending := sk.pending.drop chunk.length }
        -- 0 is the end of the stream
        if chunk.length = 0 then (none, sk)
        else recvLoop fuel sk (bytesLeft - chunk.length) (data ++ chunk)
      | (_, timeoutMs, events) => (none, { sk with timeoutMs, events })
    else (if bytesLeft = 0 then some data else none, sk)

/-- Each round of the loop receives at least a byte, so `sz` rounds are enough
    (`recvLoop_fuel`). -/
def recvFully (sk : SocketConnection) (sz : Nat) : Option Bytes × SocketConnection :=
  recvLoop sz sk sz []

def recvUint32 (sk : SocketConnection) : Option Nat × SocketConnection :=
  let (data, sk) := sk.recvFully 4
  (data.map readLe32, sk)

def recvString (sk : SocketConnection) : Option Bytes × SocketConnection :=
  match sk.recvUint32 with
  | (none, sk) => (none, sk)
  | (some len, sk) =>
    if len = 0 then (some [], sk)
    else if len > 0xffff then (none, sk)
    else sk.recvFully len

theorem recvLoop_fuel {fl bl : Nat} (fuel : bl ≤ fl) (sk : SocketConnection)
    (data : Bytes) : recvLoop (fl + 1) sk bl data = recvLoop fl sk bl data := by
  induction fl generalizing sk bl data with
  | zero =>
    have none : bl = 0 := by omega
    simp [recvLoop, none]
  | succ fl ih =>
    rw [recvLoop, recvLoop]
    split
    · split
      · dsimp only
        split
        · rfl
        · exact ih (by omega) _ _
      · rfl
    · rfl

variable {sk post : SocketConnection} {tl : Bytes} {data : Bytes}

/-- Whatever `poll` and `recv` do on the way, what is received is what was sent. -/
theorem recvLoop_received {fl bl : Nat} {all : Bytes} (got : recvLoop fl sk bl data = (some all, post)) :
    ∃ more, all = data ++ more ∧ more.length = bl ∧ sk.pending = more ++ post.pending ∧ post.sent = sk.sent := by
  have done : ∀ {sk : SocketConnection} {bl : Nat} {data : Bytes},
      ((if bl = 0 then some data else none), sk) = (some all, post) →
      ∃ more, all = data ++ more ∧ more.length = bl ∧ sk.pending = more ++ post.pending ∧ post.sent = sk.sent := by
    intro sk bl data past
    split at past
    · rename_i full
      cases past
      exact ⟨[], by simp, full.symm, rfl, rfl⟩
    · cases past
  induction fl generalizing sk bl data with
  | zero => exact done got
  | succ fl ih =>
    unfold recvLoop at got
    split at got
    · split at got
      · rename_i most ms evs _
        have ft : sk.pending.take (min most bl) <+: sk.pending := take_prefix _ _
        have fits : (sk.pending.take (min most bl)).length ≤ bl := by
          rw [length_take]
          omega
        -- only that the chunk is the front of what is pending matters
        generalize sk.pending.take _ = chunk at got ft fits
        dsimp only at got
        split at got
        · cases got
        · obtain ⟨more, whole, _, sock, sent⟩ := ih got
          refine ⟨chunk ++ more, by rw [whole, append_assoc], by rw [length_append]; omega, ?_, sent⟩
          rw [append_assoc, ← sock]
          exact prefix_iff_eq_append.mp ft |>.symm
      · cases got
    · exact done got

theorem recvFully_spec {sz : Nat} (got : sk.recvFully sz = (some data, post)) :
    data.length = sz ∧ sk.pending = data ++ post.pending := by
  obtain ⟨_, rfl, len, sock, -⟩ := recvLoop_received got
  exact ⟨len, sock⟩

theorem recvUint32_spec {v : Nat} (got : sk.recvUint32 = (some v, post)) :
    ∃ word, word.length = 4 ∧ readLe32 word = v ∧ sk.pending = word ++ post.pending := by
  unfold recvUint32 at got
  split at got
  rename_i data _ full
  simp only [Prod.mk.injEq, Option.map_eq_some_iff] at got
  obtain ⟨⟨word, rfl, rfl⟩, rfl⟩ := got
  obtain ⟨len, sock⟩ := recvFully_spec full
  exact ⟨word, len, rfl, sock⟩

theorem recvString_spec {v : Bytes} (got : sk.recvString = (some v, post)) :
    v.length ≤ 0xffff ∧ ∃ word, word.length = 4 ∧ v.length = readLe32 word ∧
      sk.pending = word ++ (v ++ post.pending) := by
  unfold recvString at got
  split at got
  · cases got
  next _ next told =>
    obtain ⟨word, wl, rfl, sock⟩ := recvUint32_spec told
    split at got
    next emp =>
      cases got
      exact ⟨Nat.zero_le _, word, wl, emp.symm, sock⟩
    · split at got
      · cases got
      next _ =>
        obtain ⟨length, nextPending⟩ := recvFully_spec got
        exact ⟨by omega, word, wl, length, by rw [sock, nextPending]⟩

theorem eq_of_cut {ft left : Bytes} (cut : data ++ left <+: ft ++ tl) (len : data.length = ft.length) :
    data = ft ∧ left <+: tl := by
  obtain ⟨lacks, stream⟩ := cut
  rw [append_assoc] at stream
  obtain ⟨isFront, isRest⟩ := append_inj stream len
  exact ⟨isFront, lacks, isRest⟩

theorem recvFully_cut {ft : Bytes} (got : sk.recvFully ft.length = (some data, post))
    (cut : sk.pending <+: ft ++ tl) : data = ft ∧ sk.pending = ft ++ post.pending ∧ post.pending <+: tl := by
  obtain ⟨len, sock⟩ := recvFully_spec got
  rw [sock] at cut ⊢
  obtain ⟨rfl, left⟩ := eq_of_cut cut len
  exact ⟨rfl, rfl, left⟩

theorem recvUint32_cut {v sent : Nat} (cap : sent < 2 ^ 32) (got : sk.recvUint32 = (some v, post))
    (cut : sk.pending <+: le32 sent ++ tl) :
    v = sent ∧ sk.pending = le32 sent ++ post.pending ∧ post.pending <+: tl := by
  obtain ⟨_, len, rfl, sock⟩ := recvUint32_spec got
  rw [sock] at cut ⊢
  obtain ⟨rfl, left⟩ := eq_of_cut cut len
  exact ⟨readLe32_le32 sent cap, rfl, left⟩

theorem recvString_cut {v sent : Bytes} (cap : sent.length < 2 ^ 32)
    (got : sk.recvString = (some v, post)) (cut : sk.pending <+: le32 sent.length ++ sent ++ tl) :
    v = sent ∧ sk.pending = le32 sent.length ++ sent ++ post.pending ∧ post.pending <+: tl := by
  obtain ⟨-, _, four, len, sock⟩ := recvString_spec got
  rw [sock] at cut ⊢
  rw [append_assoc] at cut ⊢
  obtain ⟨rfl, left⟩ := eq_of_cut cut four
  rw [readLe32_le32 _ cap] at len
  obtain ⟨rfl, leftString⟩ := eq_of_cut left len
  exact ⟨rfl, rfl, leftString⟩

end SocketConnection

/-! ## Handling a request -/

/-- What SELinux answers: `getpeercon` of the socket, whether `sehandle_prop` is
    open, `selabel_lookup` in it, and `selinux_check_access` for setting a name. -/
structure Peer where
  sourceCtx : Option Bytes
  sehandleProp : Bool
  selabelLookup : Bytes → Option Bytes
  selinuxCheckAccess : Bytes → Bytes → Bytes → Bool

def checkMacPerms (peer : Peer) (n : Bytes) : Bool :=
  match peer.sourceCtx with
  | none => false
  | some sctx =>
    if peer.sehandleProp then
      match peer.selabelLookup (cstr n) with
      | none => false
      | some tctx => peer.selinuxCheckAccess sctx tctx (cstr n)
    else false

def checkControlMacPerms (peer : Peer) (n : Bytes) : Bool :=
  let ctlName := ascii "ctl." ++ cstr n
  -- `snprintf` returns the length it would have written
  if ctlName.length ≥ PROP_VALUE_MAX + 4 then false else checkMacPerms peer ctlName

/-- `none` if a walk of the trie did not end. -/
def handlePropertySet (e : PersistEnv) (peer : Peer) (s : InitState) (sk : SocketConnection)
    (n v : Bytes) (legacy : Bool) : Option (InitState × SocketConnection) :=
  if isLegalPropertyName n = false then some (s, sk.sendUint32 .invalidName)
  else if (ascii "ctl.").isPrefixOf n then
    if checkControlMacPerms peer (cstr v) then
      some (s.effect (.controlMessage (cstr (n.drop 4)) (cstr v)), sk.reply legacy .success)
    else some (s, sk.reply legacy .handleControlMessage)
  else if checkMacPerms peer n then
    (s.propertySet e n v).map fun (next, result) => (next, sk.reply legacy result)
  else some (s, sk.reply legacy .permissionDenied)

def kDefaultSocketTimeout : Nat := 2000

/-- The first part of `handle_property_set_fd`: what it calls `handle_property_set`
    with, if the request is received. -/
def recvRequest (sk : SocketConnection) : Option (Bytes × Bytes × Bool) × SocketConnection :=
  match { sk with timeoutMs := kDefaultSocketTimeout }.recvUint32 with
  | (none, sk) => (none, sk.sendUint32 .readCmd)
  | (some cmd, sk) =>
    if cmd = PROP_MSG_SETPROP then
      match sk.recvFully PROP_NAME_MAX with
      | (none, sk) => (none, sk)
      | (some _, sk) =>
        match sk.recvFully PROP_VALUE_MAX with
        | (none, sk) => (none, sk)
        | (some propValue, sk) =>
          let propValue := propValue.set (PROP_VALUE_MAX - 1) 0
          -- the value is passed as the name, too
          (some (cstr propValue, cstr propValue, true), sk)
    else if cmd = PROP_MSG_SETPROP2 then
      match sk.recvString with
      | (none, sk) => (none, sk.sendUint32 .readData)
      | (some name, sk) =>
        match sk.recvString with
        | (none, sk) => (none, sk.sendUint32 .readData)
        | (some value, sk) => (some (name, value, false), sk)
    else (none, sk.sendUint32 .invalidCmd)

/-- The connection is `none` if it was not accepted or has no credentials. -/
def handlePropertySetFd (e : PersistEnv) (peer : Peer) (s : InitState) :
    Option SocketConnection → Option (InitState × Option SocketConnection)
  | none => some (s, none)
  | some sk =>
    match recvRequest sk with
    | (none, sk) => some (s, some sk)
    | (some (name, value, legacyProtocol), sk) =>
      (handlePropertySet e peer s sk name value legacyProtocol).map fun (next, sk) =>
        (next, some sk)

/-! ## The two versions of the protocol -/

def delivered (sk : SocketConnection) : Option (Bytes × Bytes) :=
  (recvRequest sk).1.map fun req => (req.1, req.2.1)

variable {v n : Bytes}

/-- The terminator written over the last byte of `prop_value` changes nothing for
    a value that was padded with zeros. -/
theorem cstr_padded (free : NulFree v) (fits : v.length < PROP_VALUE_MAX) :
    cstr ((v ++ List.replicate (PROP_VALUE_MAX - v.length) 0).set (PROP_VALUE_MAX - 1) 0) = v := by
  obtain ⟨more, padding⟩ : ∃ more, PROP_VALUE_MAX - v.length = more + 1 :=
    ⟨PROP_VALUE_MAX - 1 - v.length, by omega⟩
  rw [padding, replicate_succ, set_append_right _ _ (by omega)]
  obtain ⟨tail, ended⟩ : ∃ tail, ((0 : UInt8) :: List.replicate more 0).set
      (PROP_VALUE_MAX - 1 - v.length) 0 = 0 :: tail := by
    cases PROP_VALUE_MAX - 1 - v.length with
    | zero => exact ⟨_, rfl⟩
    | succ i => exact ⟨_, rfl⟩
  rw [ended, cstr_append_zero, cstr_of_nulFree free]

open SocketConnection

theorem delivered_version1 {sk : SocketConnection} (free : NulFree v)
    (fits : v.length < PROP_VALUE_MAX) (len : n.length = PROP_NAME_MAX)
    (sock : sk.pending = le32 PROP_MSG_SETPROP ++ n ++ (v ++ List.replicate (PROP_VALUE_MAX - v.length) 0))
    (full : (recvRequest sk).1.isSome) : ∃ post, recvRequest sk = (some (v, v, true), post) := by
  unfold recvRequest at full ⊢
  split at full
  · cases full
  · rename_i cmd afterCmd rc
    rw [append_assoc] at sock
    have whole : sk.pending <+: le32 PROP_MSG_SETPROP ++
        (n ++ (v ++ List.replicate (PROP_VALUE_MAX - v.length) 0)) := by
      rw [sock]
    obtain ⟨rfl, -, leftCmd⟩ := recvUint32_cut (by decide) rc whole
    simp only [↓reduceIte] at full ⊢
    split at full
    · cases full
    · rename_i propName afterName rn2
      rw [← len] at rn2
      obtain ⟨-, -, leftName⟩ := recvFully_cut rn2 leftCmd
      split at full
      · cases full
      · rename_i propValue afterValue rv
        have padded : (v ++ List.replicate (PROP_VALUE_MAX - v.length) 0).length = PROP_VALUE_MAX := by
          simp
          omega
        rw [← padded] at rv
        obtain ⟨rfl, -⟩ := recvFully_cut rv (leftName.trans (prefix_append _ []))
        rw [cstr_padded free fits]
        exact ⟨_, rfl⟩

theorem delivered_version2 {sk : SocketConnection} (fits : n.length < 2 ^ 32) (short : v.length < 2 ^ 32)
    (cut : sk.pending <+: le32 PROP_MSG_SETPROP2 ++ (le32 n.length ++ n) ++ (le32 v.length ++ v))
    (full : (recvRequest sk).1.isSome) : (∃ post, recvRequest sk = (some (n, v, false), post)) ∧
      sk.pending = le32 PROP_MSG_SETPROP2 ++ (le32 n.length ++ n) ++ (le32 v.length ++ v) := by
  rw [append_assoc] at cut ⊢
  unfold recvRequest at full ⊢
  split at full
  · cases full
  · rename_i cmd afterCmd rc
    obtain ⟨rfl, pendingCmd, leftCmd⟩ := recvUint32_cut (by decide) rc cut
    simp only [show PROP_MSG_SETPROP2 ≠ PROP_MSG_SETPROP by decide, ↓reduceIte] at full ⊢
    split at full
    · cases full
    · rename_i receivedNameBytes afterName rn2
      obtain ⟨rfl, pendingName, leftName⟩ := recvString_cut fits rn2 leftCmd
      split at full
      · cases full
      · rename_i receivedValueBytes afterValue rv
        obtain ⟨rfl, pendingValue, leftValue⟩ := recvString_cut short rv
          (leftName.trans (prefix_append _ []))
        refine ⟨⟨_, rfl⟩, ?_⟩
        rw [pendingCmd, pendingName, pendingValue, prefix_nil.mp leftValue, append_nil]

theorem handlePropertySet_state (e : PersistEnv) (peer : Peer) (s : InitState)
    (sk o : SocketConnection) (n v : Bytes) (leg otherProtocol : Bool) :
    (handlePropertySet e peer s sk n v leg).map Prod.fst =
      (handlePropertySet e peer s o n v otherProtocol).map Prod.fst := by
  unfold handlePropertySet
  by_cases bad : isLegalPropertyName n = false
  · rw [if_pos bad, if_pos bad]
    rfl
  rw [if_neg bad, if_neg bad]
  by_cases control : (ascii "ctl.").isPrefixOf n = true
  · rw [if_pos control, if_pos control]
    cases checkControlMacPerms peer _ <;> rfl
  rw [if_neg control, if_neg control]
  cases checkMacPerms peer n with
  | false => rfl
  | true =>
    cases s.propertySet e n v <;> rfl

/-- Both requests for a key and a value, received completely: they have the same
    name and value checked and set, and leave init in the same state, exactly when
    the key is the value. -/
theorem protocol_versions_agree_iff (e : PersistEnv) (peer : Peer) (s : InitState) {key v : Bytes}
    (keyFree : NulFree key) (keyFits : key.length < PROP_NAME_MAX) (valueFree : NulFree v)
    (valueFits : v.length < PROP_VALUE_MAX) {first second : SocketConnection}
    (sentFirst : systemPropertySet .version1 (some key) (some v) = .sent first.pending)
    (sentSecond : systemPropertySet .version2 (some key) (some v) = .sent second.pending)
    (firstComplete : (recvRequest first).1.isSome) (secondComplete : (recvRequest second).1.isSome) :
    (delivered first = delivered second ∧ (handlePropertySetFd e peer s (some first)).map Prod.fst =
          (handlePropertySetFd e peer s (some second)).map Prod.fst) ↔ key = v := by
  rw [systemPropertySet_version1 keyFree valueFree valueFits keyFits] at sentFirst
  rw [systemPropertySet_version2 keyFree valueFree valueFits (lt_trans keyFits (by decide))] at sentSecond
  obtain ⟨_, receivedFirst⟩ := delivered_version1 valueFree valueFits (by simp; omega)
    (SetRequest.sent.inj sentFirst).symm firstComplete
  obtain ⟨⟨_, receivedSecond⟩, -⟩ := delivered_version2 (lt_trans keyFits (by decide))
    (lt_trans valueFits (by decide)) (by rw [SetRequest.sent.inj sentSecond]) secondComplete
  have fst_map : ∀ out : Option (InitState × SocketConnection),
      (out.map fun (next, socket) => (next, some socket)).map Prod.fst = out.map Prod.fst := by
    intro out
    cases out <;> rfl
  simp only [delivered, handlePropertySetFd, receivedFirst, receivedSecond, fst_map]
  constructor
  · intro same
    simpa using same.1.symm
  · intro same
    subst same
    exact ⟨rfl, handlePropertySet_state ..⟩

def permissivePeer : Peer where
  sourceCtx := some (ascii "u:r:init:s0")
  sehandleProp := true
  selabelLookup _ := some (ascii "u:object_r:default_prop:s0")
  selinuxCheckAccess _ _ _ := true

/-- A connection on which a request arrives without delay. -/
def prompt (version : ProtocolVersion) (key v : Bytes) : SocketConnection where
  pending :=
    match systemPropertySet version (some key) (some v) with
    | .sent req => req
    | _ => []
  events := List.replicate 5 (.readable 0 (some PROP_VALUE_MAX))

set_option maxRecDepth 8000 in
theorem protocol_versions_agree_iff_prompt : (recvRequest (prompt .version1 (ascii "a") (ascii "b"))).1.isSome ∧
      (recvRequest (prompt .version2 (ascii "a") (ascii "b"))).1.isSome ∧
      ((delivered (prompt .version1 (ascii "a") (ascii "b")) = delivered (prompt .version2 (ascii "a") (ascii "b")) ∧
        (handlePropertySetFd {} permissivePeer emptyStore (some (prompt .version1 (ascii "a") (ascii "b")))).map
            Prod.fst =
          (handlePropertySetFd {} permissivePeer emptyStore (some (prompt .version2 (ascii "a") (ascii "b")))).map
            Prod.fst) ↔ ascii "a" = ascii "b") := by
  have firstComplete : (recvRequest (prompt .version1 (ascii "a") (ascii "b"))).1.isSome := by decide
  have secondComplete : (recvRequest (prompt .version2 (ascii "a") (ascii "b"))).1.isSome := by decide
  exact ⟨firstComplete, secondComplete, protocol_versions_agree_iff {} permissivePeer emptyStore (by decide)
    (by decide) (by decide) (by decide) (by decide) (by decide) firstComplete secondComplete⟩

set_option maxRecDepth 8000 in
/-- Setting `a` to `b` over the old protocol sets `b`. -/
theorem protocol_versions_differ :
    delivered (prompt .version1 (ascii "a") (ascii "b")) = some (ascii "b", ascii "b") ∧
      delivered (prompt .version2 (ascii "a") (ascii "b")) = some (ascii "a", ascii "b") ∧
      (handlePropertySetFd {} permissivePeer emptyStore (some (prompt .version1 (ascii "a") (ascii "b")))).map
          (fun last => (last.1.read (ascii "a"), last.1.read (ascii "b"))) = some (none, some (1, ascii "b" ++ [0])) ∧
      (handlePropertySetFd {} permissivePeer emptyStore (some (prompt .version2 (ascii "a") (ascii "b")))).map
          (fun last => (last.1.read (ascii "a"), last.1.read (ascii "b"))) =
        some (some (1, ascii "b" ++ [0]), none) := by
  decide

end Aosp.Init
