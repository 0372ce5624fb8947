import Aosp.Lib.Bytes

/-! # `prop_area`: the property trie in its bump-allocated buffer

Model of the data structures and of the trie walk of
`bionic/libc/bionic/system_properties.cpp`.  Objects live at offsets of `data_`
and refer to each other by offset, 0 standing for "no object".  Memory that was
never written is all zero, and the constructors rely on it: they do not write
the link fields of a new `prop_bt`.

The two loops of the source carry fuel.  `none` means that the fuel ran out,
which `Aosp.Bionic.PropTrie` shows never to happen.
-/

namespace Aosp.Bionic

open Aosp.Lib BitVec

/-! ## Constants and layout -/

def PROP_NAME_MAX : Nat := 32

def PROP_VALUE_MAX : Nat := 92

def PA_SIZE : Nat := 128 * 1024

/-- `bytes_used_`, `serial_`, `magic_`, `version_` and `reserved_[28]`. -/
def sizeofPropArea : Nat := 128

/-- `namelen`, `prop`, `left`, `right` and `children`. -/
def sizeofPropBt : Nat := 20

/-- `serial` and `value[PROP_VALUE_MAX]`. -/
def sizeofPropInfo : Nat := 4 + PROP_VALUE_MAX

def paDataSize : Nat := PA_SIZE - sizeofPropArea

def dot : UInt8 := 46

/-! ## Objects -/

/-- The fields of a `prop_bt` that hold the offset of another `prop_bt`. -/
inductive Link where
  | left
  | right
  | children
deriving DecidableEq, Repr

/-- A trie node.  The zero value is what untouched memory reads as; it is also
    the root node, which is never constructed. -/
structure PropBt where
  namelen : Nat := 0
  prop : Nat := 0
  left : Nat := 0
  right : Nat := 0
  children : Nat := 0
  name : Bytes := []
deriving DecidableEq, Repr

namespace PropBt

def link (nd : PropBt) : Link → Nat
  | .left => nd.left
  | .right => nd.right
  | .children => nd.children

def setLink (nd : PropBt) (link : Link) (off : Nat) : PropBt :=
  match link with
  | .left => { nd with left := off }
  | .right => { nd with right := off }
  | .children => { nd with children := off }

section

variable (nd : PropBt) (off : Nat)
include nd off

@[simp] theorem setLink_name (link : Link) : (nd.setLink link off).name = nd.name := by cases link <;> rfl

@[simp] theorem setLink_namelen (link : Link) : (nd.setLink link off).namelen = nd.namelen := by cases link <;> rfl

@[simp] theorem setLink_prop (link : Link) : (nd.setLink link off).prop = nd.prop := by cases link <;> rfl

@[simp] theorem link_setLink_self (link : Link) : (nd.setLink link off).link link = off := by cases link <;> rfl

theorem link_setLink_of_ne {link o : Link} (ne : o ≠ link) : (nd.setLink link off).link o = nd.link o := by
  cases link <;> cases o <;> first | rfl | exact absurd rfl ne

@[simp] theorem link_setProp (link : Link) : { nd with prop := off }.link link = nd.link link := by cases link <;> rfl

end

/-- The constructor `prop_bt(name, name_length)` run on the given memory. -/
def construct (memory : PropBt) (n : Bytes) (nameLength : Nat) : PropBt :=
  { memory with namelen := nameLength, name := n.take nameLength }

end PropBt

structure PropInfo where
  serial : BitVec 32 := 0
  value : Buffer PROP_VALUE_MAX := Buffer.zero
  name : Bytes := []

/-- `SERIAL_DIRTY`. -/
def serialDirty (serial : BitVec 32) : Bool := serial &&& 1 ≠ 0

/-- `SERIAL_VALUE_LEN`. -/
def serialValueLen (serial : BitVec 32) : Nat := (serial >>> 24).toNat

/-- The constructor `prop_info(name, namelen, value, valuelen)` run on the
    given memory. -/
def PropInfo.construct (memory : PropInfo) (n : Bytes) (namelen : Nat) (v : Bytes)
    (valuelen : Nat) : PropInfo where
  name := n.take namelen
  serial := BitVec.ofNat 32 valuelen <<< 24
  value := (memory.value.memcpy v valuelen).set valuelen 0

/-- The serial `__system_property_update` stores last: the length and the next
    count. -/
def nextSerial (serial : BitVec 32) (len : Nat) : BitVec 32 :=
  (BitVec.ofNat 32 len <<< 24) ||| ((serial + 1) &&& 0xffffff)

/-- What `__system_property_update` stores through `pi` once it has accepted
    `len`: the dirty serial, the value and the new serial. -/
def PropInfo.update (info : PropInfo) (v : Bytes) (len : Nat) : PropInfo :=
  let serial := info.serial ||| 1
  { info with
    value := info.value.strlcpy v (len + 1)
    serial := nextSerial serial len }

theorem initialSerial_toNat {len : Nat} (fits : len < PROP_VALUE_MAX) :
    (BitVec.ofNat 32 len <<< 24).toNat = len * 2 ^ 24 := by
  unfold PROP_VALUE_MAX at fits
  rw [toNat_shiftLeft, toNat_ofNat]
  omega

theorem nextSerial_toNat {ser : BitVec 32} {len : Nat} (fits : len < PROP_VALUE_MAX) :
    (nextSerial ser len).toNat = len * 2 ^ 24 + (ser.toNat + 1) % 2 ^ 24 := by
  have low : ((ser + 1) &&& 0xffffff).toNat = (ser.toNat + 1) % 2 ^ 24 := by
    show ((ser.toNat + 1) % 2 ^ 32) &&& (2 ^ 24 - 1) = _ % 2 ^ 24
    rw [Nat.and_two_pow_sub_one_eq_mod]
    omega
  have cap : (ser.toNat + 1) % 2 ^ 24 < 2 ^ 24 := Nat.mod_lt _ (by decide)
  rw [nextSerial, BitVec.toNat_or, low, initialSerial_toNat fits, ← Nat.shiftLeft_eq,
    ← Nat.shiftLeft_add_eq_or_of_lt cap]

theorem serialValueLen_eq (ser : BitVec 32) : serialValueLen ser = ser.toNat / 2 ^ 24 := by
  rw [serialValueLen, toNat_ushiftRight, Nat.shiftRight_eq_div_pow]

theorem serialDirty_eq (ser : BitVec 32) : serialDirty ser = decide (ser.toNat % 2 = 1) := by
  apply decide_eq_decide.mpr
  rw [ne_eq, ← toNat_inj]
  simp

/-- Setting the dirty bit makes the serial odd and changes nothing else. -/
theorem dirtySerial_toNat (ser : BitVec 32) : (ser ||| 1).toNat = ser.toNat / 2 * 2 + 1 := by
  have merge := Nat.shiftLeft_add_eq_or_of_lt (show 1 < 2 ^ 1 by decide) (ser.toNat / 2)
  rw [Nat.shiftLeft_eq] at merge
  show ser.toNat ||| 1 = _
  by_cases even : ser.toNat % 2 = 0
  · have half : ser.toNat = ser.toNat / 2 * 2 ^ 1 := by omega
    rw [half]
    omega
  · have half : ser.toNat = ser.toNat / 2 * 2 ^ 1 + 1 := by omega
    rw [half, merge, Nat.or_assoc, Nat.or_self]
    omega

inductive PropObj where
  | bt (nd : PropBt)
  | info (info : PropInfo)

/-! ## The area -/

/-- `data` maps the offset of every object written so far to the object. -/
structure PropArea where
  bytesUsed : Nat
  serial : BitVec 32
  data : Nat → Option PropObj

namespace PropArea

def init : PropArea where
  bytesUsed := sizeofPropBt
  serial := 0
  data := fun _ => none

section

variable (a : PropArea) (off : Nat) (n : Bytes) (namelen : Nat)

/-- The memory at an offset, read as a `prop_bt`. -/
def readBt : PropBt :=
  match a.data off with
  | some (.bt node) => node
  | _ => {}

/-- The memory at an offset, read as a `prop_info`. -/
def readInfo : PropInfo :=
  match a.data off with
  | some (.info info) => info
  | _ => {}

def write (obj : PropObj) : PropArea :=
  { a with data := fun o => if o = off then some obj else a.data o }

/-- `atomic_store_explicit(&bt->left, off)` and its siblings. -/
def storeLink (bt : Nat) (link : Link) (off : Nat) : PropArea :=
  a.write bt (.bt ((a.readBt bt).setLink link off))

/-- `atomic_store_explicit(&bt->prop, off)`. -/
def storeProp (bt : Nat) (off : Nat) : PropArea :=
  a.write bt (.bt { a.readBt bt with prop := off })

/-- `BIONIC_ALIGN(size, sizeof(uint_least32_t))`. -/
def align (sz : Nat) : Nat := (sz + 3) / 4 * 4

def allocateObj (sz : Nat) : Option (PropArea × Nat) :=
  let aligned := align sz
  if a.bytesUsed + aligned > paDataSize then none
  else some ({ a with bytesUsed := a.bytesUsed + aligned }, a.bytesUsed)

def newPropBt : Option (PropArea × Nat) :=
  match a.allocateObj (sizeofPropBt + namelen + 1) with
  | some (a, off) => some (a.write off (.bt ((a.readBt off).construct n namelen)), off)
  | none => none

def newPropInfo (v : Bytes) (valuelen : Nat) : Option (PropArea × Nat) :=
  match a.allocateObj (sizeofPropInfo + namelen + 1) with
  | some (a, off) =>
    some (a.write off (.info ((a.readInfo off).construct n namelen v valuelen)), off)
  | none => none

end

/-- `to_prop_obj`: `none` is the null pointer. -/
def toPropObj (off : Nat) : Option Nat := if off > paDataSize then none else some off

end PropArea

def cmpPropName (one : Bytes) (oneLen : Nat) (two : Bytes) (twoLen : Nat) : Int :=
  if oneLen < twoLen then -1
  else if oneLen > twoLen then 1
  else strncmp one two oneLen

namespace PropArea

/-- The loop of `find_prop_bt`, at `current` (`none`: the null pointer). -/
def findPropBt (n : Bytes) (namelen : Nat) (allocIfNeeded : Bool) :
    Nat → PropArea → Option Nat → Option (PropArea × Option Nat)
  | 0, _, _ => none
  | _ + 1, area, none => some (area, none)
  | fuel + 1, area, some current =>
    let nd := area.readBt current
    let ret := cmpPropName n namelen nd.name nd.namelen
    if ret = 0 then some (area, some current)
    else
      let link := if ret < 0 then Link.left else Link.right
      if nd.link link ≠ 0 then
        findPropBt n namelen allocIfNeeded fuel area (toPropObj (nd.link link))
      else if allocIfNeeded then
        match area.newPropBt n namelen with
        | some (grown, off) => some (grown.storeLink current link off, some off)
        | none => some (area, none)
      else some (area, none)

/-- The head of the sibling tree below `cur`, allocated when it is missing
    and `alloc_if_needed`. -/
def subtreeRoot (allocIfNeeded : Bool) (a : PropArea) (remaining : Bytes) (substrSize : Nat)
    (cur : Nat) : PropArea × Option Nat :=
  if (a.readBt cur).children ≠ 0 then (a, toPropObj (a.readBt cur).children)
  else if allocIfNeeded then
    match a.newPropBt remaining substrSize with
    | some (grown, off) => (grown.storeLink cur .children off, some off)
    | none => (a, none)
  else (a, none)

/-- The length of the first token, as the source computes it: a pointer
    difference or a `strlen` stored in a `uint32_t`. -/
def substrSize (remaining : Bytes) : Nat :=
  (match strchr remaining dot with
    | some sep => sep
    | none => remaining.length) % 2 ^ 32

/-- The token loop of `find_property`, down to the node of the last token. -/
def findPropertyNode (allocIfNeeded : Bool) :
    Nat → PropArea → Bytes → Nat → Option (PropArea × Option Nat)
  | 0, _, _, _ => none
  | fuel + 1, area, remaining, current =>
    let sz := substrSize remaining
    if sz = 0 then some (area, none)
    else
      match subtreeRoot allocIfNeeded area remaining sz current with
      | (area, none) => some (area, none)
      | (area, some root) =>
        match findPropBt remaining sz allocIfNeeded (paDataSize + 1) area (some root) with
        | none => none
        | some (area, none) => some (area, none)
        | some (area, some current) =>
          match strchr remaining dot with
          | none => some (area, some current)
          | some sep => findPropertyNode allocIfNeeded fuel area (remaining.drop (sep + 1)) current

def findProperty (a : PropArea) (tr : Nat) (n : Bytes) (namelen : Nat) (v : Bytes)
    (valuelen : Nat) (allocIfNeeded : Bool) : Option (PropArea × Option Nat) :=
  match findPropertyNode allocIfNeeded (n.length + 1) a n tr with
  | none => none
  | some (a, none) => some (a, none)
  | some (a, some current) =>
    if (a.readBt current).prop ≠ 0 then some (a, toPropObj (a.readBt current).prop)
    else if allocIfNeeded then
      match a.newPropInfo n namelen v valuelen with
      | some (grown, off) => some (grown.storeProp current off, some off)
      | none => some (a, none)
    else some (a, none)

/-- `find`: the offset of the `prop_info`, or null. -/
def find (a : PropArea) (n : Bytes) : Option (Option Nat) :=
  (a.findProperty 0 n (n.length % 2 ^ 32) [] 0 false).map (·.2)

/-- `add`: the area afterwards and whether a `prop_info` was returned. -/
def add (a : PropArea) (n : Bytes) (namelen : Nat) (v : Bytes) (valuelen : Nat) :
    Option (PropArea × Bool) :=
  (a.findProperty 0 n namelen v valuelen true).map fun r => (r.1, r.2.isSome)

/-- `__system_property_update(pi, value, len)` with `pi` in this area, and
    whether it accepts; the store to the serial of `__system_property_area__`
    is not part of the area. -/
def update (a : PropArea) (pi : Nat) (v : Bytes) (len : Nat) : PropArea × Bool :=
  if len ≥ PROP_VALUE_MAX then (a, false)
  else (a.write pi (.info ((a.readInfo pi).update v len)), true)

/-! ### Enumeration -/

/-- One of the guarded recursive calls of `foreach_property`.  What it returns
    is a `bool`, so `err < 0` never holds. -/
def foreachSubtree {σ : Type} (visit : Option Nat → σ → Option (σ × Bool)) (off : Nat) (cookie : σ) :
    Option σ :=
  if off ≠ 0 then (visit (toPropObj off) cookie).map Prod.fst else some cookie

/-- `foreach_property` at `trie` (`none`: the null pointer); `propfn` acts on the
    cookie. -/
def foreachProperty {σ : Type} (propfn : Nat → σ → σ) (a : PropArea) :
    Nat → Option Nat → σ → Option (σ × Bool)
  | 0, _, _ => none
  | _ + 1, none, cookie => some (cookie, false)
  | fuel + 1, some trie, cookie => do
    let nd := a.readBt trie
    let cookie ← foreachSubtree (foreachProperty propfn a fuel) nd.left cookie
    match (if nd.prop ≠ 0 then (toPropObj nd.prop).map (propfn · cookie) else some cookie) with
    | none => return (cookie, false)
    | some cookie =>
      let cookie ← foreachSubtree (foreachProperty propfn a fuel) nd.children cookie
      let cookie ← foreachSubtree (foreachProperty propfn a fuel) nd.right cookie
      return (cookie, true)

def foreach {σ : Type} (a : PropArea) (propfn : Nat → σ → σ) (cookie : σ) : Option (σ × Bool) :=
  foreachProperty propfn a (paDataSize + 1) (some 0) cookie

/-- The cookie of `__system_property_find_nth`; both counters are `uint32_t`. -/
structure FindNth where
  sought : Nat
  current : Nat := 0
  result : Option Nat := none

def FindNth.fn (pi : Nat) (self : FindNth) : FindNth :=
  { self with
    current := (self.current + 1) % 2 ^ 32
    result := if self.current = self.sought then some pi else self.result }

/-- `__system_property_find_nth` where this area is the only one the process can
    open. -/
def findNth (a : PropArea) (n : Nat) : Option (Option Nat) :=
  (a.foreach FindNth.fn { sought := n }).map fun r => r.1.result

/-! ### Reading back what was written -/

@[simp] theorem write_bytesUsed (a : PropArea) (off : Nat) (obj : PropObj) :
    (a.write off obj).bytesUsed = a.bytesUsed := rfl

theorem write_data (a : PropArea) (off o : Nat) (obj : PropObj) :
    (a.write off obj).data o = if o = off then some obj else a.data o := rfl

variable {a : PropArea} {off : Nat}

theorem readBt_of_data {nd : PropBt} (here : a.data off = some (.bt nd)) : a.readBt off = nd := by
  simp [readBt, here]

theorem readBt_of_none (here : a.data off = none) : a.readBt off = {} := by
  simp [readBt, here]

theorem readInfo_of_data {info : PropInfo} (here : a.data off = some (.info info)) : a.readInfo off = info := by
  simp [readInfo, here]

theorem readBt_write (a : PropArea) (off o : Nat) (nd : PropBt) :
    (a.write off (.bt nd)).readBt o = if o = off then nd else a.readBt o := by
  by_cases eq : o = off <;> simp [readBt, write, eq]

theorem readBt_write_info (a : PropArea) (off o : Nat) (info : PropInfo) (ne : o ≠ off) :
    (a.write off (.info info)).readBt o = a.readBt o := by
  simp [readBt, write, ne]

theorem le_align (sz : Nat) : sz ≤ align sz := by
  unfold align; omega

/-- A successful allocation returns the old end of the used part. -/
theorem allocateObj_eq_some {g : PropArea} {sz : Nat} (al : a.allocateObj sz = some (g, off)) :
    off = a.bytesUsed ∧ g = { a with bytesUsed := a.bytesUsed + align sz } ∧
      a.bytesUsed + align sz ≤ paDataSize := by
  simp only [allocateObj] at al
  split at al
  · cases al
  · obtain ⟨rfl, rfl⟩ := al
    exact ⟨rfl, rfl, by omega⟩

end PropArea

end Aosp.Bionic
