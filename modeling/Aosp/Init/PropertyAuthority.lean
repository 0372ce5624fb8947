import Aosp.Init.PropertySocket
import Aosp.Init.ServiceManager
import Aosp.Init.ServiceState
import Aosp.Lib.Text

/-! # Who may change the property store

The machine here is init as the clients of the property socket see it: the
property store, the services, and requests served one after the other, each with
its own peer and its own bytes.  `handle_control_message` is carried out on the
service it names.

`serve_outcome` says what serving a request can do, and
`only_authorised_requests_change` that in every run only requests that pass the
checks change anything.
-/

namespace Aosp.Init

open Aosp.Lib Aosp.Bionic List SocketConnection InitState

/-! ## The machine -/

/-- `actions` lists what `handle_control_message` did, with the message and the name
    of the service. -/
structure ControlState where
  init : InitState
  services : ServiceManager
  actions : List (Bytes × Bytes) := []

/-- `start` is what the system calls find if the request starts a service. -/
structure ClientRequest where
  env : PersistEnv := {}
  peer : Peer
  connection : Option SocketConnection
  start : StartEnv

/-- What a control message asks for. -/
def controlOp (beg : StartEnv) (msg : Bytes) : Option ServiceOp :=
  if msg = ascii "start" then some (.start beg)
  else if msg = ascii "stop" then some .stop
  else if msg = ascii "restart" then some (.restart beg)
  else none

namespace ControlState

/-- `none` if a walk of the trie did not end. -/
def handleControlMessage (beg : StartEnv) (s : ControlState) (msg n : Bytes) : Option ControlState :=
  match s.services.findServiceByName n with
  | none => some s
  | some svc =>
    match controlOp beg msg with
    | none => some s
    | some op =>
      (s.init.apply (op.exec svc).2).map fun init =>
        { init
          services := s.services.modify n fun svc => (op.exec svc).1
          actions := s.actions ++ [(msg, n)] }

def carryOut (beg : StartEnv) (s : ControlState) : List Effect → Option ControlState
  | [] => some s
  | .controlMessage msg name :: tl =>
    match s.handleControlMessage beg msg name with
    | none => none
    | some next => next.carryOut beg tl
  | .restorecon _ :: tl => s.carryOut beg tl
  | .powerctl _ :: tl => s.carryOut beg tl

/-- One request: `handle_property_set_fd`, with the control message it leads to. -/
def serve (s : ControlState) (req : ClientRequest) : Option ControlState :=
  match handlePropertySetFd req.env req.peer s.init req.connection with
  | none => none
  | some (init, _) => { s with init }.carryOut req.start (init.effects.drop s.init.effects.length)

def serveAll (s : ControlState) : List ClientRequest → Option ControlState
  | [] => some s
  | request :: requests =>
    match s.serve request with
    | none => none
    | some next => next.serveAll requests

end ControlState

/-! ## Requests -/

def CompleteRequest (stream : Bytes) : Prop :=
  (∃ cmd n v tl, stream = cmd ++ n ++ v ++ tl ∧ cmd.length = 4 ∧
    readLe32 cmd = PROP_MSG_SETPROP ∧ n.length = PROP_NAME_MAX ∧ v.length = PROP_VALUE_MAX) ∨
  ∃ cmd nameLen n valueLen v tl, stream = cmd ++ nameLen ++ n ++ valueLen ++ v ++ tl ∧
    cmd.length = 4 ∧ readLe32 cmd = PROP_MSG_SETPROP2 ∧ nameLen.length = 4 ∧ n.length = readLe32 nameLen ∧
    valueLen.length = 4 ∧ v.length = readLe32 valueLen

def Permitted (peer : Peer) (n v : Bytes) : Prop :=
  isLegalPropertyName n = true ∧ if (ascii "ctl.").isPrefixOf n then checkMacPerms peer (ascii "ctl." ++ cstr v) = true
    else checkMacPerms peer n = true

/-- The request is truncated or fails a check. -/
def ClientRequest.Rejected (req : ClientRequest) : Prop :=
  ∀ sk, req.connection = some sk → CompleteRequest sk.pending → ∀ n v legacy, (recvRequest sk).1 = some (n, v, legacy) →
      ¬ Permitted req.peer n v

theorem recvRequest_spec {sk post : SocketConnection} {n v : Bytes} {leg : Bool}
    (got : recvRequest sk = (some (n, v, leg), post)) :
    CompleteRequest sk.pending ∧ n.length ≤ 0xffff ∧ v.length ≤ 0xffff := by
  unfold recvRequest at got
  split at got
  · cases got
  next _ _ rc =>
    obtain ⟨word, wl, isCmd, due⟩ := recvUint32_spec rc
    split at got
    next isSetprop =>
      split at got
      · cases got
      next propName afterName rn2 =>
        split at got
        · cases got
        next propValue afterValue rv =>
          obtain ⟨nameLength, namePending⟩ := recvFully_spec rn2
          obtain ⟨valueLength, valuePending⟩ := recvFully_spec rv
          simp only [Prod.mk.injEq] at got
          obtain ⟨⟨rfl, rfl, -⟩, rfl⟩ := got
          have fits : (cstr (propValue.set (PROP_VALUE_MAX - 1) 0)).length ≤ 0xffff := by
            refine (cstr_length_le _).trans ?_
            rw [length_set, valueLength]
            decide
          refine ⟨.inl ⟨word, propName, propValue, afterValue.pending, ?_, wl, isCmd.trans isSetprop, nameLength,
            valueLength⟩,
            fits, fits⟩
          rw [due, namePending, valuePending]
          simp only [append_assoc]
    · split at got
      next isSetprop2 =>
        split at got
        · cases got
        next recvName afterName rn2 =>
          split at got
          · cases got
          next recvValue afterValue rv =>
            obtain ⟨nameShort, nameLen, four, nameLength, namePending⟩ :=
              recvString_spec rn2
            obtain ⟨short, valueLen, alsoFour, valueLength, valuePending⟩ :=
              recvString_spec rv
            simp only [Prod.mk.injEq, Option.some.injEq] at got
            obtain ⟨⟨rfl, rfl, -⟩, rfl⟩ := got
            refine ⟨.inr ⟨word, nameLen, recvName, valueLen, recvValue, afterValue.pending, ?_, wl,
              isCmd.trans isSetprop2, four, nameLength, alsoFour, valueLength⟩, nameShort, short⟩
            rw [due, namePending, valuePending]
            simp only [append_assoc]
      · cases got

variable {peer : Peer} {svc : Service} {efs : List ServiceEffect} {beg : StartEnv} {s : InitState}
  {n v : Bytes}

theorem checkControlMacPerms_eq_true (may : checkControlMacPerms peer n = true) :
    checkMacPerms peer (ascii "ctl." ++ cstr n) = true := by
  unfold checkControlMacPerms at may
  dsimp only at may
  split at may
  · cases may
  · exact may

theorem Permitted.control (legal : isLegalPropertyName n = true)
    (control : (ascii "ctl.").isPrefixOf n = true) (may : checkControlMacPerms peer (cstr v) = true) :
    Permitted peer n v := by
  have granted := checkControlMacPerms_eq_true may
  rw [cstr_of_nulFree (nulFree_cstr v)] at granted
  exact ⟨legal, by rw [if_pos control]; exact granted⟩

theorem Permitted.plain (legal : isLegalPropertyName n = true)
    (bare : (ascii "ctl.").isPrefixOf n = false) (may : checkMacPerms peer n = true) : Permitted peer n v :=
  ⟨legal, by rw [if_neg (by rw [bare]; decide)]; exact may⟩

/-! ## What a service publishes -/

namespace Service

def Publishes (svc : Service) (effects : List ServiceEffect) : Prop :=
  ∀ n v, ServiceEffect.propertySet n v ∈ effects → n = svc.stateProperty ∨ n = ascii "ro.boottime." ++ cstr svc.name

theorem publishes_notifyStateChange {post : Service} (eq : post.name = svc.name)
    (ns : ServiceState) : svc.Publishes (post.notifyStateChange ns) := by
  intro n v mem
  unfold notifyStateChange at mem
  rw [stateProperty, eq] at mem
  split at mem
  · cases mem
  · cases mem_cons.mp mem with
    | inl first =>
      cases first
      exact .inl rfl
    | inr snd =>
      split at snd
      · cases mem_singleton.mp snd
        exact .inr rfl
      · cases snd

theorem Publishes.append {kills : List ServiceEffect} (onlyKills : Kills kills)
    (shows : svc.Publishes efs) : svc.Publishes (kills ++ efs) := by
  intro n v mem
  rcases mem_append.mp mem with killed | set
  · obtain ⟨_, _, isKill⟩ := onlyKills _ killed
    cases isKill
  · exact shows n v set

theorem publishes_start (svc : Service) (e : StartEnv) : svc.Publishes (svc.start e).2.2 := by
  have oc := svc.start_outcome e
  generalize svc.start e = res at oc
  cases oc with
  | alreadyRunning => nofun
  | failed => nofun
  | started => exact publishes_notifyStateChange rfl .running

theorem publishes_stopOrReset (svc : Service) (how : StopHow) : svc.Publishes (svc.stopOrReset how).2 := by
  unfold stopOrReset
  dsimp only
  split
  · exact .append (kills_killProcessGroup _ .sigkill) (publishes_notifyStateChange rfl .stopping)
  · exact publishes_notifyStateChange rfl .stopped

end Service

theorem publishes_controlOp {msg : Bytes} {op : ServiceOp}
    (asked : controlOp beg msg = some op) (svc : Service) : svc.Publishes (op.exec svc).2 := by
  unfold controlOp at asked
  split at asked
  · cases asked
    exact svc.publishes_start beg
  · split at asked
    · cases asked
      exact svc.publishes_stopOrReset .disabled
    · split at asked
      · cases asked
        simp only [ServiceOp.exec, Service.restart]
        split
        · exact svc.publishes_stopOrReset .restart
        · split
          · exact svc.publishes_start beg
          · rintro _ _ ⟨⟩
      · cases asked

/-- Publishing leaves the other properties alone. -/
theorem apply_frame (wf : s.properties.WellFormed)
    (fits : ∀ n v, ServiceEffect.propertySet n v ∈ efs → n.length < 2 ^ 32) :
    ∃ post, s.apply efs = some post ∧ post.properties.WellFormed ∧
      ∀ o : PropName, (∀ n v, ServiceEffect.propertySet n v ∈ efs → o.bytes ≠ n) →
        post.properties.lookup o.bytes = s.properties.lookup o.bytes := by
  induction efs generalizing s with
  | nil => exact ⟨s, rfl, wf, fun _ _ => rfl⟩
  | cons effect efs ih =>
    have restShort : ∀ n v, ServiceEffect.propertySet n v ∈ efs → n.length < 2 ^ 32 :=
      fun n v mem => fits n v (mem_cons_of_mem _ mem)
    cases effect with
    | killProcessGroup _ _ =>
      obtain ⟨post, used, awf, kept⟩ := ih wf restShort
      exact ⟨post, used, awf, fun o far =>
        kept o fun n v mem => far n v (mem_cons_of_mem _ mem)⟩
    | propertySet n v =>
      have nameShort := fits n v mem_cons_self
      obtain ⟨_, _, set, -⟩ := propertySet_outcome wf {} n v nameShort
      obtain ⟨nextFine, fr⟩ := propertySet_frame wf nameShort set
      obtain ⟨post, used, awf, kept⟩ := ih nextFine restShort
      refine ⟨post, by rw [apply, set]; exact used, awf, ?_⟩
      intro o far
      rw [kept o fun n v mem => far n v (mem_cons_of_mem _ mem), fr o (far n v mem_cons_self)]

/-! ## What a request can do -/

theorem announce_effects (e : PersistEnv) (s : InitState) (n v : Bytes) :
    (s.announce e n v).effects = s.effects ++ if n = ascii "sys.powerctl" then [.powerctl v] else [] := by
  have changed : ∀ s : InitState, (s.propertyChanged n v).effects =
      s.effects ++ if n = ascii "sys.powerctl" then [.powerctl v] else [] := by
    intro s
    simp only [propertyChanged, effect]
    split <;> split <;> split <;> simp
  unfold announce
  rw [changed]
  split <;> rfl

theorem restorecon_effects (s : InitState) (n v : Bytes) : (s.restorecon n v).effects = s.effects ++
      if n = ascii "selinux.restorecon_recursive" ∧ v.length > 0 then [.restorecon (cstr v)] else [] := by
  unfold restorecon
  split
  · rfl
  · simp

/-- No effect of a `property_set` is a control message. -/
theorem propertySet_effects {e : PersistEnv} {post : InitState} {res : PropResult}
    (oc : InitState.SetOutcome e s n v post res) :
    ∃ adds, post.effects = s.effects ++ adds ∧ ∀ msg tg, Effect.controlMessage msg tg ∉ adds := by
  cases oc with
  | badName | badValue => exact ⟨[], by simp, by simp⟩
  | readOnly | full =>
    refine ⟨_, restorecon_effects .., ?_⟩
    split <;> simp
  | stored =>
    refine ⟨_, by rw [announce_effects]; rw [restorecon_effects, append_assoc], ?_⟩
    split <;> split <;> simp

namespace ControlState

theorem carryOut_of_no_message {efs : List Effect} (s : ControlState)
    (none : ∀ msg tg, Effect.controlMessage msg tg ∉ efs) : s.carryOut beg efs = some s := by
  induction efs with
  | nil => rfl
  | cons effect efs ih =>
    have tl := ih fun msg tg mem => none msg tg (mem_cons_of_mem _ mem)
    cases effect with
    | controlMessage msg tg => exact absurd mem_cons_self (none msg tg)
    | restorecon p => exact tl
    | powerctl v => exact tl

/-- Everything `handle_control_message` can do. -/
inductive Handled (beg : StartEnv) (s : ControlState) (msg n : Bytes) : ControlState → Prop where
  | ignored : Handled beg s msg n s
  | acted (svc : Service) (op : ServiceOp) (found : s.services.findServiceByName n = some svc)
      (asked : controlOp beg msg = some op) (init : InitState) (wf : init.properties.WellFormed)
      (kept : ∀ o : PropName, o.bytes ≠ ascii "init.svc." ++ n → o.bytes ≠ ascii "ro.boottime." ++ n →
        init.properties.lookup o.bytes = s.init.properties.lookup o.bytes) :
      Handled beg s msg n
        { init
          services := s.services.modify n fun svc => (op.exec svc).1
          actions := s.actions ++ [(msg, n)] }

theorem handleControlMessage_handled {s : ControlState} (wf : s.init.properties.WellFormed)
    (beg : StartEnv) (msg : Bytes) {n : Bytes} (free : NulFree n) (fits : n.length ≤ 0xffff) :
    ∃ post, s.handleControlMessage beg msg n = some post ∧ Handled beg s msg n post := by
  unfold handleControlMessage
  cases hf : s.services.findServiceByName n with
  | none => exact ⟨s, rfl, .ignored⟩
  | some svc =>
    cases asked : controlOp beg msg with
    | none => exact ⟨s, rfl, .ignored⟩
    | some op =>
      have name : svc.name = n := by simpa using List.find?_some hf
      have shows := publishes_controlOp asked svc
      rw [Service.Publishes, Service.stateProperty, name, cstr_of_nulFree free] at shows
      have namesShort : ∀ set v, ServiceEffect.propertySet set v ∈ (op.exec svc).2 → set.length < 2 ^ 32 := by
        intro set v mem
        have stateLength : (ascii "init.svc.").length = 9 := rfl
        have timeLength : (ascii "ro.boottime.").length = 12 := rfl
        rcases shows set v mem with rfl | rfl
        · rw [length_append]
          omega
        · rw [length_append]
          omega
      obtain ⟨init, used, initWellFormed, kept⟩ := apply_frame wf namesShort
      refine ⟨_, by simp only [used]; rfl, .acted svc op hf asked init initWellFormed ?_⟩
      intro o notState notTime
      refine kept o ?_
      intro set v mem
      rcases shows set v mem with rfl | rfl
      · exact notState
      · exact notTime

inductive Served (req : ClientRequest) (s : ControlState) : ControlState → Prop where
  | rejected : Served req s s
  | set (sk : SocketConnection) (n v : Bytes) (legacy : Bool)
      (connected : req.connection = some sk) (complete : CompleteRequest sk.pending)
      (received : (recvRequest sk).1 = some (n, v, legacy))
      (permitted : Permitted req.peer n v) (plain : (ascii "ctl.").isPrefixOf n = false)
      (init : InitState) (wf : init.properties.WellFormed)
      (kept : ∀ o : PropName, o.bytes ≠ n → init.properties.lookup o.bytes = s.init.properties.lookup o.bytes) :
      Served req s { s with init }
  | control (sk : SocketConnection) (n v : Bytes) (legacy : Bool)
      (connected : req.connection = some sk) (complete : CompleteRequest sk.pending)
      (received : (recvRequest sk).1 = some (n, v, legacy))
      (permitted : Permitted req.peer n v) (isControl : (ascii "ctl.").isPrefixOf n = true)
      (post : ControlState)
      (handled : Handled req.start
        { s with init := s.init.effect (.controlMessage (cstr (n.drop 4)) (cstr v)) }
        (cstr (n.drop 4)) (cstr v) post) :
      Served req s post

theorem serve_outcome {s : ControlState} (wf : s.init.properties.WellFormed)
    (req : ClientRequest) : ∃ post, s.serve req = some post ∧ Served req s post := by
  have same : { s with init := s.init }.carryOut req.start
      (s.init.effects.drop s.init.effects.length) = some s := by
    rw [drop_length]
    rfl
  unfold serve handlePropertySetFd
  cases link : req.connection with
  | none => exact ⟨s, same, .rejected⟩
  | some sk =>
    dsimp only
    cases got : recvRequest sk with
    | mk msg _ =>
    cases msg with
    | none => exact ⟨s, same, .rejected⟩
    | some msg =>
      obtain ⟨n, v, leg⟩ := msg
      obtain ⟨full, fits, short⟩ := recvRequest_spec got
      have recv : (recvRequest sk).1 = some (n, v, leg) := by rw [got]
      dsimp only
      unfold handlePropertySet
      cases legal : isLegalPropertyName n with
      | false => exact ⟨s, same, .rejected⟩
      | true =>
        cases control : (ascii "ctl.").isPrefixOf n with
        | true =>
          cases may : checkControlMacPerms req.peer _ with
          | false => exact ⟨s, same, .rejected⟩
          | true =>
            have permitted := Permitted.control legal control may
            have isShort : (cstr v).length ≤ 0xffff := (cstr_length_le v).trans short
            have loggedWellFormed :
                (s.init.effect (.controlMessage (cstr (n.drop 4)) (cstr v))).properties.WellFormed :=
              wf
            obtain ⟨post, done, handled⟩ := @handleControlMessage_handled { s with init := _ } loggedWellFormed
              req.start _ _ (nulFree_cstr v) isShort
            refine ⟨post, ?_, .control sk n v leg link full recv permitted
              control post handled⟩
            simp only [Bool.true_eq_false, if_false, if_true, Option.map_some, effect, drop_left, carryOut]
            rw [done]
        | false =>
          cases may : checkMacPerms req.peer n with
          | false => exact ⟨s, same, .rejected⟩
          | true =>
            have permitted : Permitted req.peer n v := Permitted.plain legal control may
            obtain ⟨init, _, set, oc⟩ := propertySet_outcome wf req.env n v
              (lt_of_le_of_lt fits (by decide))
            obtain ⟨initWellFormed, kept⟩ := propertySet_frame wf
              (lt_of_le_of_lt fits (by decide)) set
            obtain ⟨_, efs, pure⟩ := propertySet_effects oc
            refine ⟨{ s with init }, ?_, .set sk n v leg link full recv permitted
              control init initWellFormed kept⟩
            simp only [Bool.true_eq_false, Bool.false_eq_true, if_false, if_true, set, Option.map_some]
            rw [efs, drop_left]
            exact carryOut_of_no_message _ pure

end ControlState

/-! ## Runs -/

namespace ControlState

structure Authorised (req : ClientRequest) (pre post : ControlState) : Prop where
  store : ∀ n, NulFree n → n.length < 2 ^ 32 → post.init.properties.lookup n ≠ pre.init.properties.lookup n →
    (isLegalPropertyName n = true ∧ (ascii "ctl.").isPrefixOf n = false ∧ checkMacPerms req.peer n = true) ∨
      ∃ msg svc, post.actions = pre.actions ++ [(msg, svc)] ∧ checkMacPerms req.peer (ascii "ctl." ++ svc) = true ∧
        (n = ascii "init.svc." ++ svc ∨ n = ascii "ro.boottime." ++ svc)
  control : (post.actions = pre.actions ∧ post.services = pre.services) ∨
    ∃ msg svc op, post.actions = pre.actions ++ [(msg, svc)] ∧ controlOp req.start msg = some op ∧
      post.services = pre.services.modify svc (fun svc => (op.exec svc).1) ∧
      checkMacPerms req.peer (ascii "ctl." ++ svc) = true
  rejected : req.Rejected → post = pre

theorem Served.wellFormed {req : ClientRequest} {s post : ControlState}
    (wf : s.init.properties.WellFormed) (served : Served req s post) : post.init.properties.WellFormed := by
  cases served with
  | rejected => exact wf
  | set _ _ _ _ _ _ _ _ _ _ initWellFormed => exact initWellFormed
  | control _ _ _ _ _ _ _ _ _ post done =>
    cases done with
    | ignored => exact wf
    | acted _ _ _ _ _ initWellFormed => exact initWellFormed

/-- A change that is looked up is a change of a name the trie can hold. -/
theorem changed_name {pre post : SystemProperties} {n : Bytes} (free : NulFree n)
    (fits : n.length < 2 ^ 32) (changed : post.lookup n ≠ pre.lookup n) :
    ∃ held : PropName, held.bytes = n ∧ post.lookup held.bytes ≠ pre.lookup held.bytes := by
  by_contra none
  refine changed (SystemProperties.lookup_of_names free fits ?_)
  intro held eq
  by_contra ne
  exact none ⟨held, eq, ne⟩

theorem Served.authorised {req : ClientRequest} {s post : ControlState}
    (served : Served req s post) : Authorised req s post := by
  cases served with
  | rejected => exact ⟨fun _ _ _ changed => absurd rfl changed, .inl ⟨rfl, rfl⟩, fun _ => rfl⟩
  | set sk n v leg link full got permitted bare init _ kept =>
    refine ⟨?_, .inl ⟨rfl, rfl⟩, ?_⟩
    · intro changedName free fits changed
      obtain ⟨held, rfl, apart⟩ := changed_name free fits changed
      have name : held.bytes = n := by
        by_contra other
        exact apart (kept held other)
      obtain ⟨legal, may⟩ := permitted
      rw [if_neg (by rw [bare]; decide)] at may
      rw [name]
      exact .inl ⟨legal, bare, may⟩
    · intro met
      exact absurd permitted (met sk link full n v leg got)
  | control sk n v leg link full got permitted isControl post done =>
    have met : ¬ req.Rejected := fun met =>
      met sk link full n v leg got permitted
    obtain ⟨-, may⟩ := permitted
    rw [if_pos isControl] at may
    cases done with
    | ignored =>
      exact ⟨fun _ _ _ changed => absurd rfl changed, .inl ⟨rfl, rfl⟩, fun rejects => absurd rejects met⟩
    | acted _ op _ asked init _ kept =>
      refine ⟨?_, .inr ⟨_, _, op, rfl, asked, rfl, may⟩, fun rejects => absurd rejects met⟩
      intro changedName free fits changed
      obtain ⟨held, rfl, apart⟩ := changed_name free fits changed
      refine .inr ⟨_, _, rfl, may, ?_⟩
      by_contra other
      rw [not_or] at other
      exact apart (kept held other.1 other.2)

theorem serveAll_wellFormed {requests : List ClientRequest} {s : ControlState} (wf : s.init.properties.WellFormed) :
    ∃ post, s.serveAll requests = some post ∧ post.init.properties.WellFormed := by
  induction requests generalizing s with
  | nil => exact ⟨s, rfl, wf⟩
  | cons req requests ih =>
    obtain ⟨_, served, oc⟩ := serve_outcome wf req
    obtain ⟨post, tl, awf⟩ := ih (oc.wellFormed wf)
    exact ⟨post, by rw [serveAll, served]; exact tl, awf⟩

end ControlState

/-- In every run of requests, each request is served, and changes only what its peer
    may change. -/
theorem only_authorised_requests_change (beg : ControlState) (wf : beg.init.properties.WellFormed)
    (early late : List ClientRequest) (req : ClientRequest) :
    ∃ pre post last, beg.serveAll early = some pre ∧ pre.serve req = some post ∧
      beg.serveAll (early ++ req :: late) = some last ∧ ControlState.Authorised req pre post := by
  obtain ⟨pre, ran, beforeWellFormed⟩ := @ControlState.serveAll_wellFormed early _ wf
  obtain ⟨post, served, out⟩ := ControlState.serve_outcome beforeWellFormed req
  obtain ⟨last, ranAll, -⟩ := @ControlState.serveAll_wellFormed _ _ wf
  exact ⟨pre, post, last, ran, served, ranAll, out.authorised⟩

theorem only_authorised_requests_change_prompt :
    ∃ pre post last : ControlState, ControlState.serveAll ⟨emptyStore, {}, []⟩ [] = some pre ∧
      pre.serve ⟨{}, permissivePeer, some (prompt .version2 (ascii "a") (ascii "b")), ⟨[], true, true, [], none, 0⟩⟩ =
        some post ∧ ControlState.serveAll ⟨emptyStore, {}, []⟩
          [⟨{}, permissivePeer, some (prompt .version2 (ascii "a") (ascii "b")), ⟨[], true, true, [], none, 0⟩⟩] =
        some last ∧ ControlState.Authorised
        ⟨{}, permissivePeer, some (prompt .version2 (ascii "a") (ascii "b")), ⟨[], true, true, [], none, 0⟩⟩ pre post :=
  only_authorised_requests_change ⟨emptyStore, {}, []⟩ (SystemProperties.wellFormed_fresh _) [] [] _

end Aosp.Init
