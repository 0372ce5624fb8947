import Aosp.Init.ConfigImport

/-! # Property files

Model of `load_properties` and `load_properties_from_file` of `init/property_service.cpp`.
All that the source writes into its buffer lies between the start of a line and its end,
so a line is a buffer of its own: the bytes up to the newline, which has been replaced by
a NUL.  A file can import itself, so the recursion is bounded by a depth.
-/

namespace Aosp.Init

open Aosp.Lib Relation

/-- `while ((tmp > key) && isspace(*tmp)) *tmp-- = 0`, with `tmp` counted from `key`. -/
def trimFrom (key : Bytes) : Nat → Bytes
  | 0 => key
  | tmp + 1 => if isspace (key.getD (tmp + 1) 0) then trimFrom (key.set (tmp + 1) 0) tmp else key

/-- What a line leads to. -/
inductive LoadCall where
  | propertySet (key v : Bytes)
  | loadPropertiesFromFile (f : Bytes) (filter : Option Bytes)
deriving DecidableEq

/-- The body of the loop of `load_properties`. -/
def loadLine (filter : Option Bytes) (sol : Bytes) : Option LoadCall :=
  let filter := filter.getD []
  let flen := filter.length
  let key := sol.dropWhile isspace
  if key.head? = some 35 then none -- '#'
  else
    let key := cstr (trimFrom key (key.length - 1))
    if strncmp key (ascii "import ") 7 = 0 ∧ flen = 0 then
      let fn := (key.drop 7).dropWhile isspace
      match strchr fn 32 with -- ' '
      | none => some (.loadPropertiesFromFile fn none)
      | some i => some (.loadPropertiesFromFile (fn.take i) (some ((fn.drop (i + 1)).dropWhile isspace)))
    else
      match strchr key 61 with -- '='
      | none => none
      | some i =>
        let v := (key.drop (i + 1)).dropWhile isspace
        let key := cstr (trimFrom (key.take i) (i - 1))
        if flen > 0 ∧ (if filter.getD (flen - 1) 0 = 42 then strncmp key filter (flen - 1) ≠ 0 else key ≠ filter) then
          none
        else some (.propertySet key v)

/-- What `load_properties` finds from `sol` to each newline, `sol` being what it has passed of the line. -/
def endedLines (sol : Bytes) : Bytes → List Bytes
  | [] => []
  | c :: rest => if c = newline then sol :: endedLines [] rest else endedLines (sol ++ [c]) rest

/-- The calls of `property_set`, with their arguments.  `load` is `load_properties_from_file`, and `none`
    means that a call does not return. -/
def loadProperties (load : Bytes → Option Bytes → Option (List (Bytes × Bytes))) (filter : Option Bytes) :
    List Bytes → Option (List (Bytes × Bytes))
  | [] => some []
  | line :: lines =>
    let sets := match loadLine filter line with
      | none => some []
      | some (.propertySet key value) => some [(key, value)]
      | some (.loadPropertiesFromFile filename filter) => load filename filter
    sets.bind fun sets => (loadProperties load filter lines).map (sets ++ ·)

def loadPropertiesFromFile (fs : FileSystem) : Nat → Bytes → Option Bytes → Option (List (Bytes × Bytes))
  | 0, _, _ => none
  | depth + 1, filename, filter =>
    match fs.readFile filename with
    | none => some []
    | some data => loadProperties (loadPropertiesFromFile fs depth) filter (endedLines [] (cstr (data ++ [newline])))

/-! ## When it returns -/

section Returns

variable {fs : FileSystem} {c next : Bytes × Option Bytes} {filter : Option Bytes}

end Returns

end Aosp.Init
