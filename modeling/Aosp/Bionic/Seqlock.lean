import Aosp.Bionic.PropMap
import Aosp.Lib.Run

/-! # Reading a property while it is updated

`__system_property_update` and `__system_property_read` (or `_read_callback`) on one
`prop_info` as sequentially consistent steps: one for each load or store of the
serial, one for each byte that is copied.  There is one writer and any number of
readers.

The serial is the length of the value and twice the number of updates, modulo
2^24; it is odd while the value is written.  A reader that finds the serial it
started with, before 2^23 updates, has copied the value that the serial belongs to
(`reads_are_consistent`).
-/

namespace Aosp.Bionic

open Aosp.Lib List

/-! ## The machine -/

/-- Where `__system_property_update` is; `copied` bytes are copied. -/
inductive Writer where
  | idle
  | loaded (v : PropValue) (serial : BitVec 32)
  | copying (v : PropValue) (serial : BitVec 32) (copied : Nat)

inductive ReadKind where
  | read
  | callback
deriving DecidableEq

/-- `__system_property_read` copies the terminator, too. -/
def ReadKind.size (kind : ReadKind) (len : Nat) : Nat :=
  match kind with
  | .read => len + 1
  | .callback => len

def ReadKind.terminate (kind : ReadKind) (buffer : Bytes) : Bytes :=
  match kind with
  | .read => buffer
  | .callback => buffer ++ [0]

theorem ReadKind.size_le (kind : ReadKind) {len : Nat} : kind.size len ≤ len + 1 := by
  cases kind
  · exact le_refl _
  · exact Nat.le_succ len

theorem ReadKind.terminate_take (kind : ReadKind) (v : Bytes) :
    kind.terminate ((v ++ [0]).take (kind.size v.length)) = v ++ [0] := by
  cases kind
  · exact take_of_length_le (by simp [size])
  · simp [terminate, size]

/-- Where a reader is.  `began` and `loadedAt` are how many updates were complete
    when the read began and when the serial was loaded. -/
inductive Reader where
  | idle
  | loading (kind : ReadKind) (began : Nat)
  | copying (kind : ReadKind) (began loadedAt : Nat) (serial : BitVec 32) (buffer : Bytes)

/-- What a read returned, and how many updates were complete when it began and when
    it returned. -/
structure ReadResult where
  began : Nat
  finished : Nat
  len : Nat
  bytes : Bytes
deriving DecidableEq

/-- `updates` are the values of the updates that are complete, after the first value. -/
structure SeqState where
  info : PropInfo
  writer : Writer := .idle
  readers : Nat → Reader := fun _ => .idle
  first : PropValue
  updates : List PropValue := []
  returned : List ReadResult := []

inductive SeqOp where
  | load (v : PropValue)
  | storeDirty
  | copyByte
  | storeSerial
  | call (reader : Nat) (kind : ReadKind)
  | readSerial (reader : Nat)
  | readByte (reader : Nat)
  | check (reader : Nat)

namespace SeqState

def start (memory : PropInfo) (n : Bytes) (namelen : Nat) (v : PropValue) : SeqState where
  info := PropInfo.construct memory n namelen v.bytes v.bytes.length
  first := v

def history (s : SeqState) : List PropValue := s.first :: s.updates

def setReader (s : SeqState) (reader : Nat) (at_ : Reader) : SeqState :=
  { s with readers := fun o => if o = reader then at_ else s.readers o }

/-- `none` if the step is not the next one of its thread. -/
def next (s : SeqState) : SeqOp → Option SeqState
  | .load v =>
    match s.writer with
    | .idle => some { s with writer := .loaded v s.info.serial }
    | _ => none
  | .storeDirty =>
    match s.writer with
    | .loaded v serial =>
      some { s with
        info := { s.info with serial := serial ||| 1 }
        writer := .copying v (serial ||| 1) 0 }
    | _ => none
  | .copyByte =>
    match s.writer with
    | .copying v serial copied =>
      -- `strlcpy` of a value without NUL: its bytes, then the terminator
      if copied ≤ v.bytes.length then
        some { s with
          info := { s.info with value := s.info.value.set copied ((v.bytes ++ [0]).getD copied 0) }
          writer := .copying v serial (copied + 1) }
      else none
    | _ => none
  | .storeSerial =>
    match s.writer with
    | .copying v serial copied =>
      if copied = v.bytes.length + 1 then
        some { s with
          info := { s.info with serial := nextSerial serial v.bytes.length }
          writer := .idle
          updates := s.updates ++ [v] }
      else none
    | _ => none
  | .call reader kind =>
    match s.readers reader with
    | .idle => some (s.setReader reader (.loading kind s.updates.length))
    | _ => none
  | .readSerial reader =>
    match s.readers reader with
    | .loading kind began =>
      -- `__system_property_serial` waits and loads again
      if serialDirty s.info.serial then some s
      else some (s.setReader reader (.copying kind began s.updates.length s.info.serial []))
    | _ => none
  | .readByte reader =>
    match s.readers reader with
    | .copying kind began loadedAt serial buffer =>
      if buffer.length < kind.size (serialValueLen serial) then
        some (s.setReader reader
          (.copying kind began loadedAt serial (buffer ++ [s.info.value.get buffer.length])))
      else none
    | _ => none
  | .check reader =>
    match s.readers reader with
    | .copying kind began _ serial buffer =>
      if buffer.length = kind.size (serialValueLen serial) then
        if serial = s.info.serial then
          let res : ReadResult :=
            ⟨began, s.updates.length, serialValueLen serial, kind.terminate buffer⟩
          some { s.setReader reader .idle with returned := s.returned ++ [res] }
        else some (s.setReader reader (.loading kind began))
      else none
    | _ => none

end SeqState

/-! ## The serial -/

/-- The serial of the value that `count` updates led to. -/
def countSerial (v : PropValue) (count : Nat) : Nat :=
  v.bytes.length * 2 ^ 24 + 2 * count % 2 ^ 24

theorem countSerial_even (v : PropValue) (cnt : Nat) : countSerial v cnt % 2 = 0 := by
  unfold countSerial
  omega

theorem countSerial_length {ser : BitVec 32} {v : PropValue} {cnt : Nat}
    (serial : ser.toNat = countSerial v cnt) : serialValueLen ser = v.bytes.length := by
  rw [serialValueLen_eq, serial, countSerial]
  omega

theorem countSerial_count {one two : PropValue} {cnt la : Nat}
    (eq : countSerial one cnt = countSerial two la) (ord : cnt ≤ la) (near : la - cnt < 2 ^ 23) : cnt = la := by
  unfold countSerial at eq
  omega

/-- The `prop_info` after complete updates. -/
def committed (base : PropInfo) (updates : List PropValue) : PropInfo :=
  updates.foldl (fun info v => info.update v.bytes v.bytes.length) base

theorem committed_snoc (base : PropInfo) (updates : List PropValue) (v : PropValue) :
    committed base (updates ++ [v]) = (committed base updates).update v.bytes v.bytes.length := by
  simp [committed]

/-- The `prop_info` holds the value that `count` updates led to. -/
structure Shows (info : PropInfo) (v : PropValue) (count : Nat) : Prop where
  serial : info.serial.toNat = countSerial v count
  bytes : info.value.bytes (v.bytes.length + 1) = v.bytes ++ [0]

namespace Shows

variable {info : PropInfo} {v : PropValue} {cnt : Nat}

theorem construct (memory : PropInfo) (n : Bytes) (nl : Nat) (v : PropValue) :
    Shows (PropInfo.construct memory n nl v.bytes v.bytes.length) v 0 where
  serial := by
    rw [PropInfo.construct, initialSerial_toNat v.short, countSerial]
    omega
  bytes := (PropInfo.construct_holds memory n nl v.bytes v.short).terminated

theorem get (seen : Shows info v cnt) {i : Nat} (hi : i ≤ v.bytes.length) :
    info.value.get i = (v.bytes ++ [0]).getD i 0 :=
  (Buffer.bytes_eq_iff _ _ _ (by simp)).mp seen.bytes i (Nat.lt_succ_of_le hi)

theorem update (seen : Shows info v cnt) (new : PropValue) :
    Shows (info.update new.bytes new.bytes.length) new (cnt + 1) where
  serial := by
    rw [info.update_serial_toNat _ new.short, seen.serial, countSerial, countSerial]
    omega
  bytes := (info.update_holds new).terminated

theorem committed {base : PropInfo} {first : PropValue} (seen : Shows base first 0) (updates : List PropValue) :
    ∃ v, (first :: updates)[updates.length]? = some v ∧ Shows (committed base updates) v updates.length := by
  induction updates using List.reverseRecOn with
  | nil => exact ⟨first, rfl, seen⟩
  | append_singleton updates new ih =>
    obtain ⟨v, -, pre⟩ := ih
    refine ⟨new, ?_, ?_⟩
    · simp
    · rw [committed_snoc, length_append]
      exact pre.update new

end Shows

/-! ## The invariant -/

open SeqState

namespace SeqState

def Clean (s : SeqState) : Prop :=
  match s.writer with
  | .idle | .loaded _ _ => True
  | .copying _ _ _ => False

/-- How far the writer is from the `prop_info` of the complete updates. -/
def WriterAt (info done : PropInfo) : Writer → Prop
  | .idle => info = done
  | .loaded _ serial => info = done ∧ serial = done.serial
  | .copying v serial copied =>
    serial = done.serial ||| 1 ∧ copied ≤ v.bytes.length + 1 ∧
      info = { done with serial := serial, value := done.value.memcpy (v.bytes ++ [0]) copied }

/-- What a reader knows: the serial is one of the history, and what is copied is
    the beginning of its value as long as nothing was written since. -/
def ReaderAt (s : SeqState) : Reader → Prop
  | .idle => True
  | .loading _ began => began ≤ s.updates.length
  | .copying kind began loadedAt serial buffer =>
    began ≤ loadedAt ∧ loadedAt ≤ s.updates.length ∧
      ∃ v, s.history[loadedAt]? = some v ∧ serial.toNat = countSerial v loadedAt ∧
        buffer.length ≤ kind.size v.bytes.length ∧ (loadedAt = s.updates.length → s.Clean →
          buffer = (v.bytes ++ [0]).take buffer.length)

/-- A read that is short enough returned a value of the history. -/
def ResultAt (s : SeqState) (res : ReadResult) : Prop :=
  res.finished - res.began < 2 ^ 23 → ∃ v ∈ s.history, res.len = v.bytes.length ∧ res.bytes = v.bytes ++ [0]

structure Invariant (base : PropInfo) (first : PropValue) (s : SeqState) : Prop where
  shown : Shows base first 0
  unchanged : s.first = first
  writer : WriterAt s.info (committed base s.updates) s.writer
  readers : ∀ reader, s.ReaderAt (s.readers reader)
  returned : ∀ res ∈ s.returned, s.ResultAt res

namespace Invariant

variable {base : PropInfo} {first : PropValue} {s : SeqState} (hinv : Invariant base first s)

include hinv

/-- A clean `prop_info` is the one of the complete updates. -/
theorem info_of_clean (pure : s.Clean) : s.info = committed base s.updates := by
  have wtr := hinv.writer
  unfold Clean at pure
  cases pos : s.writer with
  | idle =>
    rw [pos] at wtr
    exact wtr
  | loaded =>
    rw [pos] at wtr
    exact wtr.1
  | copying =>
    rw [pos] at pure
    exact pure.elim

theorem shows_of_clean (pure : s.Clean) :
    ∃ v, s.history[s.updates.length]? = some v ∧ Shows s.info v s.updates.length := by
  rw [hinv.info_of_clean pure, history, hinv.unchanged]
  exact hinv.shown.committed s.updates

/-- The serial is odd while the value is written. -/
theorem clean_of_even (even : s.info.serial.toNat % 2 = 0) : s.Clean := by
  have wtr := hinv.writer
  unfold Clean
  cases pos : s.writer with
  | idle | loaded => trivial
  | copying v _ _ =>
    rw [pos] at wtr
    obtain ⟨serial, -, info⟩ := wtr
    rw [info, serial, dirtySerial_toNat] at even
    omega

/-- A step of the writer, which completes the updates `more`. -/
theorem write {post : SeqState} {more : List PropValue}
    (eq : post.first = s.first ∧ post.readers = s.readers ∧ post.returned = s.returned)
    (updates : post.updates = s.updates ++ more) (pure : more = [] → post.Clean → s.Clean)
    (wtr : WriterAt post.info (committed base post.updates) post.writer) : Invariant base first post := by
  obtain ⟨sameFirst, readers, ret⟩ := eq
  have longer : s.updates.length ≤ post.updates.length := by
    rw [updates, length_append]
    exact Nat.le_add_right _ _
  have grown : post.history = s.history ++ more := by
    rw [history, sameFirst, updates, ← cons_append, ← history]
  refine ⟨hinv.shown, sameFirst.trans hinv.unchanged, wtr, fun rdr => ?_, fun res mem near => ?_⟩
  · rw [readers]
    have pre := hinv.readers rdr
    cases pos : s.readers rdr with
    | idle => trivial
    | loading kind began =>
      rw [pos] at pre
      exact le_trans pre longer
    | copying kind began _ _ _ =>
      rw [pos] at pre
      obtain ⟨ord, cap, v, val, isSerial, fits, copy⟩ := pre
      refine ⟨ord, cap.trans longer, v, ?_, isSerial, fits, fun now isClean => ?_⟩
      · rw [grown]
        exact (List.getElem?_append_left (Nat.lt_succ_of_le cap)).trans val
      · -- no update is completed if the reader's serial is still the last one
        have nt : more = [] := by
          rw [updates, length_append] at now
          exact length_eq_zero_iff.mp (by omega)
        rw [updates, nt, append_nil] at now
        exact copy now (pure nt isClean)
  · rw [ret] at mem
    obtain ⟨v, hk, read⟩ := hinv.returned res mem near
    exact ⟨v, grown ▸ mem_append_left more hk, read⟩

/-- A step of a reader to where it knows what it has to. -/
theorem setReader (rdr : Nat) {pos : Reader} (readerAt : s.ReaderAt pos) :
    Invariant base first (s.setReader rdr pos) := by
  refine ⟨hinv.shown, hinv.unchanged, hinv.writer, fun o => ?_, hinv.returned⟩
  show s.ReaderAt (if o = rdr then pos else s.readers o)
  split
  · exact readerAt
  · exact hinv.readers o

/-! ## The steps of the writer -/

theorem load (v : PropValue) : Leads (Invariant base first) (s.next (.load v)) := by
  have wtr := hinv.writer
  simp only [next]
  split
  · rename_i idle
    rw [idle] at wtr
    refine hinv.write ⟨rfl, rfl, rfl⟩ (append_nil _).symm (fun _ _ => ?_) ⟨wtr, congrArg _ wtr⟩
    rw [Clean, idle]
    trivial
  · trivial

theorem storeDirty : Leads (Invariant base first) (s.next .storeDirty) := by
  have wtr := hinv.writer
  simp only [next]
  split
  · rename_i v ser load
    rw [load] at wtr
    obtain ⟨info, serial⟩ := wtr
    refine hinv.write ⟨rfl, rfl, rfl⟩ (append_nil _).symm (fun _ => False.elim) ?_
    refine ⟨by rw [serial], Nat.zero_le _, ?_⟩
    rw [Buffer.memcpy_zero, ← info]
  · trivial

theorem copyByte : Leads (Invariant base first) (s.next .copyByte) := by
  have wtr := hinv.writer
  simp only [next]
  split
  · rename_i v ser val pos
    split
    · rename_i hi
      rw [pos] at wtr
      obtain ⟨serial, -, info⟩ := wtr
      refine hinv.write ⟨rfl, rfl, rfl⟩ (append_nil _).symm (fun _ => False.elim) ?_
      refine ⟨serial, Nat.succ_le_succ hi, ?_⟩
      rw [← Buffer.set_memcpy, info]
    · trivial
  · trivial

theorem storeSerial : Leads (Invariant base first) (s.next .storeSerial) := by
  have wtr := hinv.writer
  simp only [next]
  split
  · rename_i v ser val pos
    split
    · rename_i full
      rw [pos] at wtr
      obtain ⟨serial, -, info⟩ := wtr
      refine hinv.write ⟨rfl, rfl, rfl⟩ rfl (fun never => by cases never) ?_
      show _ = committed base _
      rw [committed_snoc, PropInfo.update, Buffer.strlcpy_eq_memcpy _ _ v.nulFree, info, full, serial]
    · trivial
  · trivial

/-! ## The steps of a reader -/

variable (rdr : Nat)

theorem call (kind : ReadKind) : Leads (Invariant base first) (s.next (.call rdr kind)) := by
  simp only [next]
  split
  · exact hinv.setReader rdr (le_refl s.updates.length)
  · trivial

theorem readSerial : Leads (Invariant base first) (s.next (.readSerial rdr)) := by
  have pre := hinv.readers rdr
  simp only [next]
  split
  · rename_i kind began pos
    rw [pos] at pre
    split
    · exact hinv
    · rename_i notDirty
      have even : s.info.serial.toNat % 2 = 0 := by
        rw [serialDirty_eq, decide_eq_true_eq] at notDirty
        omega
      obtain ⟨v, val, seen⟩ := hinv.shows_of_clean (hinv.clean_of_even even)
      exact hinv.setReader rdr
        ⟨pre, le_refl _, v, val, seen.serial, Nat.zero_le _, fun _ _ => rfl⟩
  · trivial

theorem readByte : Leads (Invariant base first) (s.next (.readByte rdr)) := by
  have pre := hinv.readers rdr
  simp only [next]
  split
  · rename_i kind began loadedAt ser buffer pos
    rw [pos] at pre
    obtain ⟨ord, cap, v, val, serial, -, copy⟩ := pre
    split
    · rename_i more
      rw [countSerial_length serial] at more
      refine hinv.setReader rdr ⟨ord, cap, v, val, serial, ?_, fun now pure => ?_⟩
      · rw [length_append]
        exact more
      · obtain ⟨_, isLast, seen⟩ := hinv.shows_of_clean pure
        rw [← now, val] at isLast
        cases isLast
        have hi : buffer.length ≤ v.bytes.length := Nat.le_of_lt_succ (more.trans_le kind.size_le)
        rw [seen.get hi, length_append, length_singleton, take_add_one, ← copy now pure,
          getD_eq_getElem?_getD, List.getElem?_eq_getElem (by simpa using hi)]
        rfl
    · trivial
  · trivial

/-- Near enough, the serial a reader finds again is still that of the last value,
    and it is not being written. -/
theorem serial_unchanged {v : PropValue} {loadedAt : Nat}
    (serial : s.info.serial.toNat = countSerial v loadedAt) (cap : loadedAt ≤ s.updates.length)
    (near : s.updates.length - loadedAt < 2 ^ 23) : loadedAt = s.updates.length ∧ s.Clean := by
  have pure : s.Clean := hinv.clean_of_even (serial ▸ countSerial_even v loadedAt)
  obtain ⟨_, -, seen⟩ := hinv.shows_of_clean pure
  exact ⟨countSerial_count (serial.symm.trans seen.serial) cap near, pure⟩

theorem check : Leads (Invariant base first) (s.next (.check rdr)) := by
  have pre := hinv.readers rdr
  simp only [next]
  split
  · rename_i kind began loadedAt ser buffer pos
    rw [pos] at pre
    obtain ⟨ord, cap, v, val, serial, -, copy⟩ := pre
    split
    · rename_i full
      rw [countSerial_length serial] at full
      split
      · rename_i same
        have idle := hinv.setReader rdr (show s.ReaderAt .idle from trivial)
        refine ⟨idle.shown, idle.unchanged, idle.writer, idle.readers, fun res mem => ?_⟩
        obtain old | new := mem_append.mp mem
        · exact idle.returned res old
        · rw [mem_singleton] at new
          subst new
          intro near
          obtain ⟨now, pure⟩ := hinv.serial_unchanged (same ▸ serial) cap (by
            have near : s.updates.length - began < 2 ^ 23 := near
            omega)
          refine ⟨v, mem_of_getElem? val, countSerial_length serial, ?_⟩
          rw [copy now pure, full, kind.terminate_take]
      · exact hinv.setReader rdr (ord.trans cap)
    · trivial
  · trivial

theorem step (op : SeqOp) : Leads (Invariant base first) (s.next op) := by
  cases op with
  | load v => exact hinv.load v
  | storeDirty => exact hinv.storeDirty
  | copyByte => exact hinv.copyByte
  | storeSerial => exact hinv.storeSerial
  | call rdr kind => exact hinv.call rdr kind
  | readSerial rdr => exact hinv.readSerial rdr
  | readByte rdr => exact hinv.readByte rdr
  | check rdr => exact hinv.check rdr

end Invariant

variable {memory : PropInfo} {n : Bytes} {nl : Nat} {v : PropValue} {ops : List SeqOp} {st : SeqState}

theorem run_invariant (run : Run (fun s op t => next s op = some t) (start memory n nl v) ops st) :
    Invariant (PropInfo.construct memory n nl v.bytes v.bytes.length) v st := by
  refine run.invariant ?_ fun _ op _ hinv ht => (hinv.step op).of_eq ht
  exact ⟨Shows.construct memory n nl v, rfl, rfl, fun _ => trivial, nofun⟩

end SeqState

/-- A read during which fewer than 2^23 updates completed returned the length and the
    bytes of the first value or of one complete update. -/
theorem reads_are_consistent (memory : PropInfo) (n : Bytes) (namelen : Nat) (v : PropValue)
    (ops : List SeqOp) (st : SeqState) (run : Run (fun s op t => next s op = some t) (start memory n namelen v) ops st)
    (res : ReadResult) (ret : res ∈ st.returned) (near : res.finished - res.began < 2 ^ 23) :
    ∃ shown ∈ v :: st.updates, res.len = shown.bytes.length ∧ res.bytes = shown.bytes ++ [0] := by
  have invariant := run_invariant run
  have known := invariant.returned res ret near
  rwa [history, invariant.unchanged] at known

/-- An update of "a" to "bc" while a reader copies: the first attempt is given up, the
    second waits for the update. -/
def overlappingRead : List SeqOp :=
  [.call 0 .read, .readSerial 0, .readByte 0, .load ⟨ascii "bc", by decide, by decide⟩, .storeDirty, .copyByte,
    .readByte 0, .check 0, .readSerial 0, .copyByte, .copyByte, .storeSerial,
    .readSerial 0, .readByte 0, .readByte 0, .readByte 0, .check 0]

theorem reads_are_consistent_overlap :
    ∃ st, Run (fun s op t => next s op = some t)
        (start {} (ascii "p") 1 ⟨ascii "a", by decide, by decide⟩) overlappingRead st ∧
      ∃ res ∈ st.returned, ∃ shown ∈ ⟨ascii "a", by decide, by decide⟩ :: st.updates,
        res.len = shown.bytes.length ∧ res.bytes = shown.bytes ++ [0] := by
  have ends : ∃ st, runLabels (fun _ _ => True) next
      (start {} (ascii "p") 1 ⟨ascii "a", by decide, by decide⟩) overlappingRead = some st ∧
      (⟨0, 1, 2, ascii "bc" ++ [0]⟩ : ReadResult) ∈ st.returned :=
    ⟨_, rfl, by decide⟩
  obtain ⟨st, ran, ret⟩ := ends
  have run := (run_of_runLabels ran).mono fun _ _ _ taken => taken.2
  exact ⟨st, run, _, ret, reads_are_consistent _ _ _ _ _ _ run _ ret (by decide)⟩

end Aosp.Bionic
