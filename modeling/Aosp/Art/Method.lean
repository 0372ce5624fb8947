import Mathlib.Algebra.GroupWithZero.Nat
import Mathlib.Data.List.Nodup
import Mathlib.Data.List.Perm.Subperm

/-! # Methods and classes as the class linker sees them

The linker reads methods and classes through accessors of `ArtMethod` and
`mirror::Class`; what they return is data here.  Methods are told apart by their
address and compared by `MethodNameAndSignatureComparator`, which is equality of
names and signatures (`hasSameNameAndSignature_iff`).
-/

namespace Aosp.Art

structure DexFile where
  location : Nat
  stringIds : List String
  protoIds : List (List String)
  stringIds_nodup : stringIds.Nodup
  protoIds_nodup : protoIds.Nodup
deriving DecidableEq

/-- `DexFile::MethodId`, with the file it is in. -/
structure MethodId where
  dexFile : DexFile
  nameIdx : Fin dexFile.stringIds.length
  protoIdx : Fin dexFile.protoIds.length
deriving DecidableEq

namespace MethodId

def name (mid : MethodId) : String := mid.dexFile.stringIds.get mid.nameIdx

/-- The length that `StringDataAndUtf16LengthByIdx` returns with the name. -/
def nameLen (mid : MethodId) : Nat :=
  (mid.name.toList.map fun c => if c.toNat < 0x10000 then 1 else 2).sum

def signature (mid : MethodId) : List String := mid.dexFile.protoIds.get mid.protoIdx

/-- `MethodNameAndSignatureComparator::HasSameNameAndSignature`. -/
def hasSameNameAndSignature (mid o : MethodId) : Bool :=
  if mid.dexFile = o.dexFile then
    mid.nameIdx.val = o.nameIdx.val && mid.protoIdx.val = o.protoIdx.val
  else if mid.nameLen ≠ o.nameLen || mid.name ≠ o.name then false
  else mid.signature = o.signature

theorem hasSameNameAndSignature_iff (mid o : MethodId) :
    mid.hasSameNameAndSignature o = true ↔ mid.name = o.name ∧ mid.signature = o.signature := by
  unfold hasSameNameAndSignature
  split
  next sameFile =>
    obtain ⟨dexFile, _, _⟩ := mid
    obtain ⟨_, _, _⟩ := o
    subst sameFile
    simp only [name, signature, Bool.and_eq_true, decide_eq_true_eq, List.get_eq_getElem,
      dexFile.stringIds_nodup.getElem_inj_iff, dexFile.protoIds_nodup.getElem_inj_iff]
  next _ =>
    by_cases sameName : mid.name = o.name
    · have sameLen : mid.nameLen = o.nameLen := by rw [nameLen, nameLen, sameName]
      simp [sameLen]
    · simp [sameName]

end MethodId

/-- What the linker reads of an `ArtMethod`.  `methodId` is the one of
    `GetInterfaceMethodIfProxy`: under it a method is compared with others. -/
structure ArtMethod (C : Type) where
  address : Nat
  methodId : MethodId
  declaringClass : C
  isAbstract : Bool
  isFinal : Bool
  isPublic : Bool
  isCopied : Bool
  isDefaultConflicting : Bool
  isOverridableByDefaultMethod : Bool
deriving DecidableEq

variable {C : Type}

namespace ArtMethod

def hasSameNameAndSignature (method o : ArtMethod C) : Bool :=
  method.methodId.hasSameNameAndSignature o.methodId

/-- By what the comparator tells methods apart. -/
def nameAndSignature (method : ArtMethod C) : String × List String :=
  (method.methodId.name, method.methodId.signature)

@[simp] theorem hasSameNameAndSignature_iff (md o : ArtMethod C) :
    md.hasSameNameAndSignature o = true ↔ md.nameAndSignature = o.nameAndSignature := by
  rw [hasSameNameAndSignature, MethodId.hasSameNameAndSignature_iff, nameAndSignature, nameAndSignature, Prod.mk.injEq]

end ArtMethod

/-- A dex file with two names and one prototype, and a public method of it. -/
def smallDexFile : DexFile := ⟨0, ["f", "g"], [["V"]], by decide, by decide⟩

def smallMethod (adr : Nat) (nameIdx : Fin 2) (declaringClass : C) (isAbstract : Bool) : ArtMethod C where
  address := adr
  methodId := ⟨smallDexFile, nameIdx, (0 : Fin 1)⟩
  declaringClass := declaringClass
  isAbstract := isAbstract
  isFinal := false
  isPublic := true
  isCopied := false
  isDefaultConflicting := false
  isOverridableByDefaultMethod := false

/-- What the linker reads of the classes that are loaded. -/
structure ClassTable (C : Type) where
  isInterface : C → Bool
  superClass : C → Option C
  directInterfaces : C → List C
  /-- The interfaces of the class's `IfTable`, in order. -/
  ifTable : C → List C
  /-- `GetMethodArrayCount` for each place of the table. -/
  methodArrayCount : C → Nat → Nat
  isAssignableFrom : C → C → Bool
  declaredVirtualMethods : C → List (ArtMethod C)
  /-- The table of virtual methods of a linked class. -/
  vtable : C → List (ArtMethod C)
  shouldHaveEmbeddedVTable : C → Bool
  /-- `CanAccessMember`, asked with a method's declaring class and access flags. -/
  canAccessMember : C → ArtMethod C → Bool
  descriptor : C → String
  prettyDescriptor : C → String
  prettyMethod : ArtMethod C → String

end Aosp.Art
