import Aosp.Bionic.PropArea

/-! # Setting a property from another process

Model of `__system_property_set`: the request it sends to init, in either
version of the protocol.
-/

namespace Aosp.Bionic

open Aosp.Lib

def PROP_MSG_SETPROP : Nat := 1
def PROP_MSG_SETPROP2 : Nat := 0x00020001

structure PropMsg where
  cmd : Nat
  name : Buffer PROP_NAME_MAX
  value : Buffer PROP_VALUE_MAX

/-- The message in memory. -/
def PropMsg.bytes (msg : PropMsg) : Bytes :=
  le32 msg.cmd ++ msg.name.bytes PROP_NAME_MAX ++ msg.value.bytes PROP_VALUE_MAX

/-- The first `iov_index_` entries of `iov_`, and how much of `uint_buf_` they use. -/
structure SocketWriter where
  iov : List Bytes := []
  uintBufIndex : Nat := 0

namespace SocketWriter

def kUintBufSize : Nat := 8
def kIovSize : Nat := 8

/-- `none` if a `CHECK` fails. -/
def writeUint32 (writer : SocketWriter) (v : Nat) : Option SocketWriter :=
  if writer.uintBufIndex < kUintBufSize ∧ writer.iov.length < kIovSize then
    some ⟨writer.iov ++ [le32 v], writer.uintBufIndex + 1⟩
  else none

def writeString (writer : SocketWriter) (v : Bytes) : Option SocketWriter :=
  let valuelen := (cstr v).length % 2 ^ 32
  match writer.writeUint32 valuelen with
  | none => none
  | some writer =>
    if valuelen = 0 then some writer
    else if writer.iov.length < kIovSize then
      some { writer with iov := writer.iov ++ [(cstr v).take valuelen] }
    else none

def bytes (writer : SocketWriter) : Bytes := writer.iov.flatten

theorem writeUint32_bytes (wtr : SocketWriter) (v : Nat) (room : wtr.uintBufIndex < kUintBufSize)
    (iovRoom : wtr.iov.length < kIovSize) :
    ∃ next, wtr.writeUint32 v = some next ∧ next.bytes = wtr.bytes ++ le32 v ∧
      next.uintBufIndex = wtr.uintBufIndex + 1 ∧ next.iov.length = wtr.iov.length + 1 := by
  refine ⟨_, if_pos ⟨room, iovRoom⟩, ?_, rfl, ?_⟩
  · simp [bytes]
  · simp

/-- A string is written as its length and its bytes; an empty one has no entry of
    its own in `iov_`. -/
theorem writeString_bytes (wtr : SocketWriter) {v : Bytes} (free : NulFree v)
    (fits : v.length < 2 ^ 32) (room : wtr.uintBufIndex < kUintBufSize) (iovRoom : wtr.iov.length + 1 < kIovSize) :
    ∃ next, wtr.writeString v = some next ∧ next.bytes = wtr.bytes ++ le32 v.length ++ v ∧
      next.uintBufIndex = wtr.uintBufIndex + 1 ∧ next.iov.length ≤ wtr.iov.length + 2 := by
  have eq : cstr v = v := cstr_of_nulFree free
  obtain ⟨next, wrote, nextBytes, words, es⟩ :=
    writeUint32_bytes wtr v.length room (Nat.lt_of_succ_lt iovRoom)
  simp only [writeString, eq, Nat.mod_eq_of_lt fits, wrote]
  by_cases emp : v.length = 0
  · rw [if_pos emp]
    refine ⟨next, rfl, ?_, words, by omega⟩
    rw [nextBytes, List.length_eq_zero_iff.mp emp, List.append_nil]
  · rw [if_neg emp, if_pos (by omega)]
    refine ⟨_, rfl, ?_, words, ?_⟩
    · rw [← nextBytes]
      simp [bytes]
    · simp [es]

end SocketWriter

/-- `kProtocolVersion1` and `kProtocolVersion2`. -/
inductive ProtocolVersion where
  | version1
  | version2
deriving DecidableEq

/-- How far `__system_property_set` gets: it returns -1 before it sends anything, a
    `CHECK` fails, or the request is sent. -/
inductive SetRequest where
  | refused
  | aborted
  | sent (req : Bytes)
deriving DecidableEq

/-- `__system_property_set`, up to the answer; `none` is a null pointer. -/
def systemPropertySet (version : ProtocolVersion) (key v : Option Bytes) : SetRequest :=
  match key with
  | none => .refused
  | some key =>
    let v := v.getD []
    if (cstr v).length ≥ PROP_VALUE_MAX then .refused
    else
      match version with
      | .version1 =>
        -- Old protocol does not support long names
        if (cstr key).length ≥ PROP_NAME_MAX then .refused
        else
          let msg : PropMsg := ⟨PROP_MSG_SETPROP, Buffer.zero.strlcpy key PROP_NAME_MAX,
            Buffer.zero.strlcpy v PROP_VALUE_MAX⟩
          .sent msg.bytes
      | .version2 =>
        let writer : SocketWriter := {}
        match ((writer.writeUint32 PROP_MSG_SETPROP2).bind (·.writeString key)).bind (·.writeString v) with
        | none => .aborted
        | some writer => .sent writer.bytes

/-! ## The two requests -/

section

variable {key v : Bytes} (keyFree : NulFree key) (valueFree : NulFree v)
  (valueFits : v.length < PROP_VALUE_MAX)

include keyFree valueFree valueFits

theorem systemPropertySet_version1 (keyFits : key.length < PROP_NAME_MAX) :
    systemPropertySet .version1 (some key) (some v) =
      .sent (le32 PROP_MSG_SETPROP ++ (key ++ List.replicate (PROP_NAME_MAX - key.length) 0) ++
        (v ++ List.replicate (PROP_VALUE_MAX - v.length) 0)) := by
  simp only [systemPropertySet, Option.getD_some, cstr_of_nulFree keyFree, cstr_of_nulFree valueFree]
  rw [if_neg (by omega), if_neg (by omega)]
  simp only [PropMsg.bytes, Buffer.bytes_strlcpy_zero key keyFree keyFits, Buffer.bytes_strlcpy_zero v valueFree
    valueFits]

omit valueFits in
/-- The eight entries of `iov_` and of `uint_buf_` are enough for a request. -/
theorem SocketWriter.write_request (keyFits : key.length < 2 ^ 32) (fits : v.length < 2 ^ 32) :
    ∃ wtr : SocketWriter, (((({} : SocketWriter).writeUint32 PROP_MSG_SETPROP2).bind (·.writeString key)).bind
        (·.writeString v)) = some wtr ∧
      wtr.bytes = le32 PROP_MSG_SETPROP2 ++ (le32 key.length ++ key) ++ (le32 v.length ++ v) := by
  obtain ⟨first, wroteCmd, firstBytes, firstWords, firstEntries⟩ :=
    SocketWriter.writeUint32_bytes {} PROP_MSG_SETPROP2 (by decide) (by decide)
  obtain ⟨snd, wroteKey, secondBytes, secondWords, secondEntries⟩ :=
    SocketWriter.writeString_bytes first keyFree keyFits (by rw [firstWords]; decide)
      (by rw [firstEntries]; decide)
  obtain ⟨third, wroteValue, thirdBytes, -, -⟩ :=
    SocketWriter.writeString_bytes snd valueFree fits
      (by rw [secondWords, firstWords]; decide)
      (lt_of_le_of_lt (Nat.succ_le_succ secondEntries) (by rw [firstEntries]; decide))
  refine ⟨third, by simp only [wroteCmd, Option.bind_some, wroteKey, wroteValue], ?_⟩
  rw [thirdBytes, secondBytes, firstBytes]
  simp [SocketWriter.bytes]

theorem systemPropertySet_version2 (keyFits : key.length < 2 ^ 32) :
    systemPropertySet .version2 (some key) (some v) =
      .sent (le32 PROP_MSG_SETPROP2 ++ (le32 key.length ++ key) ++ (le32 v.length ++ v)) := by
  obtain ⟨_, wrote, bytes⟩ :=
    SocketWriter.write_request keyFree valueFree keyFits (lt_trans valueFits (by decide))
  simp only [systemPropertySet, Option.getD_some, cstr_of_nulFree valueFree]
  rw [if_neg (by omega), wrote, ← bytes]

end

end Aosp.Bionic
