import Aosp.Init.Parser
import Aosp.Lib.CallGraph
import Aosp.Lib.Text

/-! # Importing configuration files

Model of `ParseConfig`, `ParseConfigDir` and `ParseConfigFile` of
`init/init_parser.cpp` and of `ImportParser::EndFile`, which calls `ParseConfig`
again for every import of a file.  The file system is a parameter; the recursion is
bounded by `fuel`, and `parseConfig_returns_iff` says when some bound is enough.

Which calls are made does not depend on the state of the parser: `importsFrom` lists
them for a path, and `ParseConfig` returns exactly if the calls from its path are
well founded.
-/

namespace Aosp.Init

open Aosp.Lib Relation

/-! ## The functions -/

/-- An entry that `readdir` returns, and whether its `d_type` is `DT_REG`. -/
structure DirEntry where
  name : Bytes
  regular : Bool

/-- What `is_dir`, `read_file` and `opendir` say of a path.  Many paths may lead to one
    file, but the files hold finitely many texts. -/
structure FileSystem where
  isDir : Bytes → Bool
  readFile : Bytes → Option Bytes
  opendir : Bytes → Option (List DirEntry)
  contents : List Bytes
  readFile_mem : ∀ {p data}, readFile p = some data → data ∈ contents

/-- `none` if a call does not return within the bound. -/
abbrev ParseCall := Bytes → Registry → Option (Registry × Bool)

def callEach (c : ParseCall) : List Bytes → Registry → Option Registry
  | [], registry => some registry
  | path :: paths, registry =>
    match c path registry with
    | none => none
    | some (registry, _) => callEach c paths registry

section

variable (fs : FileSystem) (e : SectionEnv) (c : ParseCall) (p : Bytes) (reg : Registry)

/-- `ImportParser::EndFile`, where `c` is `ParseConfig`. -/
def endFile : Option Registry :=
  callEach c reg.imports { reg with imports := [] }

/-- The `EndFile` of the other section parsers does nothing. -/
def parseConfigFile : Option (Registry × Bool) :=
  match fs.readFile (cstr p) with
  | none => some (reg, false)
  | some data =>
    match parseData e p (data ++ [newline]) reg with
    | none => none
    | some reg => (endFile c reg).map fun reg => (reg, true)

def configFiles (ents : List DirEntry) : List Bytes :=
  ((ents.filter (·.regular)).map fun ent => cstr p ++ slash :: ent.name).insertionSort (· ≤ ·)

def parseConfigDir : Option (Registry × Bool) :=
  match fs.opendir (cstr p) with
  | none => some (reg, false)
  | some ents =>
    (callEach (parseConfigFile fs e c) (configFiles p ents) reg).map fun reg => (reg, true)

def parseConfig (fs : FileSystem) (e : SectionEnv) : Nat → ParseCall
  | 0, _, _ => none
  | fuel + 1, p, reg =>
    if fs.isDir (cstr p) then parseConfigDir fs e (parseConfig fs e fuel) p reg
    else parseConfigFile fs e (parseConfig fs e fuel) p reg

/-! ## The calls -/

/-- The import that a line asks for. -/
def importOf (args : List Bytes) : Option Bytes :=
  if sectionParsers (args.headD []) = some .imports ∧ args.length = 2 then
    match expandProps e.getProperty (args.getD 1 []) [] with
    | some (confFile, true) => some confFile
    | _ => none
  else none

def importsOf (data : Bytes) : List Bytes :=
  (lines (data ++ [newline])).filterMap fun l => importOf e l.1

/-- The files that `ParseConfig` reads itself. -/
def filesAt : List Bytes :=
  if fs.isDir (cstr p) then ((fs.opendir (cstr p)).map (configFiles p)).getD [] else [p]

/-- The paths for which `ParseConfig` calls itself. -/
def importsFrom : List Bytes :=
  (filesAt fs p).flatMap fun f => ((fs.readFile (cstr f)).map (importsOf e)).getD []

def Imports (p next : Bytes) : Prop := next ∈ importsFrom fs e p

/-- Nothing that is read because of the path leads back to itself. -/
def NoImportCycle : Prop :=
  ∀ o, ReflTransGen (Imports fs e) p o → ¬ TransGen (Imports fs e) o o

end

namespace Registry

@[simp] theorem imports_addService (reg : Registry) (svc : ServiceDefinition) :
    (reg.addService svc).imports = reg.imports := by
  unfold addService
  split <;> rfl

@[simp] theorem imports_afterAction (reg : Registry) (res : Except Bytes ActionParser) :
    (reg.afterAction res).1.imports = reg.imports := by
  cases res <;> rfl

@[simp] theorem imports_endSection (kind : SectionKind) (reg : Registry) :
    (reg.endSection kind).imports = reg.imports := by
  cases kind with
  | on =>
    simp only [endSection]
    split <;> rfl
  | service =>
    simp only [endSection]
    split
    · rfl
    · exact reg.imports_addService _
  | imports => rfl

@[simp] theorem imports_parseLineSection (e : SectionEnv) (kind : SectionKind) (reg : Registry)
    (args : List Bytes) (f : Bytes) (l : Nat) : (reg.parseLineSection e kind args f l).1.imports = reg.imports := by
  cases kind with
  | on => exact reg.imports_afterAction _
  | service =>
    simp only [parseLineSection]
    split <;> rfl
  | imports => rfl

theorem imports_parseSection (e : SectionEnv) {kind : SectionKind} (reg : Registry) {args : List Bytes}
    (hf : sectionParsers (args.headD []) = some kind) :
    (reg.parseSection e kind args).1.imports = reg.imports ++ (importOf e args).toList := by
  unfold importOf
  cases kind with
  | on =>
    rw [if_neg (by rw [hf]; simp)]
    simp [parseSection]
  | service =>
    simp only [hf, parseSection]
    split
    · simp
    · split <;> simp
  | imports =>
    simp only [hf, parseSection, true_and]
    by_cases two : args.length = 2
    · rw [if_neg (by simpa using two), if_pos two]
      rcases expandProps e.getProperty _ [] with _ | ⟨confFile, expanded⟩
      · simp
      · cases expanded <;> simp
    · rw [if_pos two, if_neg two]
      simp

end Registry

namespace Cursor

@[simp] theorem imports_finish (csr : Cursor) : csr.finish.imports = csr.registry.imports := by
  unfold finish
  split <;> simp

theorem imports_handleLine (e : SectionEnv) (f : Bytes) (csr : Cursor) (l : List Bytes × Nat) :
    (csr.handleLine e f l).registry.imports = csr.registry.imports ++ (importOf e l.1).toList := by
  unfold handleLine
  cases hf : sectionParsers _ with
  | some kind =>
    have adds := csr.finish.imports_parseSection e hf
    rw [imports_finish] at adds
    dsimp only
    split
    next reg read => rwa [read] at adds
    next reg err read => rwa [read] at adds
  | none =>
    have nt : importOf e l.1 = none := by
      rw [importOf, if_neg (by rw [hf]; simp)]
    simp only [nt]
    split <;> simp

theorem imports_handleLines (e : SectionEnv) (f : Bytes) (csr : Cursor) (lns : List (List Bytes × Nat)) :
    (csr.handleLines e f lns).registry.imports = csr.registry.imports ++ lns.filterMap fun l => importOf e l.1 := by
  induction lns generalizing csr with
  | nil => simp [handleLines]
  | cons l lns ih =>
    rw [handleLines, List.foldl_cons, ← handleLines, ih, imports_handleLine]
    cases asked : importOf e l.1 <;> simp [asked]

end Cursor

theorem imports_afterData (e : SectionEnv) (f : Bytes) {reg : Registry} (none : reg.imports = [])
    (data : Bytes) : (reg.afterData e f (data ++ [newline])).imports = importsOf e data := by
  rw [Registry.afterData, Cursor.imports_finish, Cursor.imports_handleLines, importsOf]
  simp [none]

/-! ## Calls that return -/

/-- No imports are left over, as between any two calls of `ParseConfigFile`. -/
abbrev Clean (reg : Registry) : Prop := reg.imports = []

/-- The call returns from every state without left-over imports, and leaves none. -/
def Returns (c : ParseCall) (p : Bytes) : Prop :=
  ∀ reg, Clean reg → ∃ post ok, c p reg = some (post, ok) ∧ Clean post

/-- A call that returns leaves no imports. -/
def KeepsClean (c : ParseCall) : Prop :=
  ∀ p reg post ok, Clean reg → c p reg = some (post, ok) → Clean post

section CallEach

variable {c : ParseCall} {paths : List Bytes} {reg : Registry}

theorem callEach_returns (each : ∀ p ∈ paths, Returns c p) (pure : Clean reg) :
    ∃ post, callEach c paths reg = some post ∧ Clean post := by
  induction paths generalizing reg with
  | nil => exact ⟨reg, rfl, pure⟩
  | cons p paths ih =>
    obtain ⟨next, ok, call, nextClean⟩ := each p List.mem_cons_self reg pure
    obtain ⟨post, tl, clean⟩ :=
      ih (fun o mem => each o (List.mem_cons_of_mem _ mem)) nextClean
    exact ⟨post, by rw [callEach, call]; exact tl, clean⟩

theorem callEach_called (keep : KeepsClean c) {post : Registry} (pure : Clean reg)
    (past : callEach c paths reg = some post) :
    Clean post ∧ ∀ p ∈ paths, ∃ pre res, Clean pre ∧ c p pre = some res := by
  induction paths generalizing reg with
  | nil =>
    cases past
    exact ⟨pure, nofun⟩
  | cons p paths ih =>
    rw [callEach] at past
    cases call : c p reg with
    | none =>
      rw [call] at past
      cases past
    | some res =>
      obtain ⟨next, ok⟩ := res
      rw [call] at past
      obtain ⟨clean, tl⟩ := ih (keep p reg next ok pure call) past
      refine ⟨clean, ?_⟩
      intro o mem
      cases List.mem_cons.mp mem with
      | inl first => exact ⟨reg, _, pure, first ▸ call⟩
      | inr late => exact tl o late

end CallEach

section ParseConfig

variable {fs : FileSystem} {e : SectionEnv} {c : ParseCall} {reg : Registry} {p : Bytes}

theorem parseConfigFile_eq (p : Bytes) (pure : Clean reg) :
    parseConfigFile fs e c p reg = match fs.readFile (cstr p) with
      | none => some (reg, false)
      | some data =>
        (callEach c (importsOf e data)
          { reg.afterData e p (data ++ [newline]) with imports := [] }).map fun reg => (reg, true) := by
  unfold parseConfigFile
  cases fs.readFile _ with
  | none => rfl
  | some data =>
    simp only [parseData_eq, endFile, imports_afterData e p pure]

theorem parseConfigFile_returns
    (each : ∀ data, fs.readFile (cstr p) = some data → ∀ next ∈ importsOf e data, Returns c next) :
    Returns (parseConfigFile fs e c) p := by
  intro reg pure
  rw [parseConfigFile_eq p pure]
  cases read : fs.readFile _ with
  | none => exact ⟨reg, false, rfl, pure⟩
  | some data =>
    have parsedClean : Clean { reg.afterData e p (data ++ [newline]) with imports := [] } := rfl
    obtain ⟨post, past, clean⟩ := callEach_returns (each data read) parsedClean
    exact ⟨post, true, by simp [past], clean⟩

variable {res : Registry × Bool} {next : Bytes}

theorem parseConfigFile_called (keep : KeepsClean c) (pure : Clean reg)
    (ret : parseConfigFile fs e c p reg = some res) :
    Clean res.1 ∧ ∀ data, fs.readFile (cstr p) = some data → ∀ next ∈ importsOf e data,
      ∃ pre res, Clean pre ∧ c next pre = some res := by
  rw [parseConfigFile_eq p pure] at ret
  cases read : fs.readFile _ with
  | none =>
    rw [read] at ret
    cases ret
    exact ⟨pure, nofun⟩
  | some data =>
    rw [read] at ret
    obtain ⟨post, past, rfl⟩ := Option.map_eq_some_iff.mp ret
    obtain ⟨clean, call⟩ := callEach_called keep rfl past
    refine ⟨clean, ?_⟩
    intro o eq
    cases eq
    exact call

theorem keepsClean_parseConfigFile (keep : KeepsClean c) : KeepsClean (parseConfigFile fs e c) :=
  fun _ _ _ _ pure ret => (parseConfigFile_called keep pure ret).1

/-- `ParseConfig` reads the files at the path, one after the other. -/
theorem parseConfig_succ (fl : Nat) (p : Bytes) (reg : Registry) : (parseConfig fs e (fl + 1) p reg).map Prod.fst =
      callEach (parseConfigFile fs e (parseConfig fs e fl)) (filesAt fs p) reg := by
  rw [parseConfig, filesAt]
  split
  · unfold parseConfigDir
    cases fs.opendir _ with
    | none => rfl
    | some es => simp [Function.comp_def]
  · rw [callEach]
    cases parseConfigFile fs e _ p reg <;> rfl

theorem keepsClean_parseConfig (fl : Nat) : KeepsClean (parseConfig fs e fl) := by
  induction fl with
  | zero =>
    intro p reg post ok pure ret
    cases ret
  | succ fl ih =>
    intro p reg post ok pure ret
    have past := @parseConfig_succ fs e fl p reg
    rw [ret] at past
    exact (callEach_called (keepsClean_parseConfigFile ih) pure past.symm).1

end ParseConfig

/-! ## When `ParseConfig` returns -/

section

variable {fs : FileSystem} {e : SectionEnv} {p next : Bytes} {res : Registry × Bool}

theorem mem_importsFrom :
    next ∈ importsFrom fs e p ↔
      ∃ f ∈ filesAt fs p, ∃ data, fs.readFile (cstr f) = some data ∧ next ∈ importsOf e data := by
  rw [importsFrom, List.mem_flatMap]
  refine exists_congr fun f => and_congr_right fun _ => ?_
  cases fs.readFile _ <;> simp

/-- Only the imports of the finitely many texts are called for. -/
theorem imports_contents (imps : Imports fs e p next) : next ∈ fs.contents.flatMap (importsOf e) := by
  obtain ⟨f, -, data, read, mem⟩ := mem_importsFrom.mp imps
  exact List.mem_flatMap.mpr ⟨data, fs.readFile_mem read, mem⟩

theorem returns_of_acc (acc : Acc (fun next p => Imports fs e p next) p) : ∃ fl, Returns (parseConfig fs e fl) p := by
  refine (eventually_returns (fun p => (importsFrom fs e p).finite_toSet) ?_ acc).exists
  intro fl p returns reg pure
  have fls : ∀ f ∈ filesAt fs p, Returns (parseConfigFile fs e (parseConfig fs e fl)) f := by
    intro f mem
    apply parseConfigFile_returns
    intro data read next imported
    exact returns next (mem_importsFrom.mpr ⟨f, mem, data, read, imported⟩)
  obtain ⟨post, past, clean⟩ := callEach_returns fls pure
  rw [← parseConfig_succ] at past
  obtain ⟨⟨last, ok⟩, ret, rfl⟩ := Option.map_eq_some_iff.mp past
  exact ⟨last, ok, ret, clean⟩

theorem acc_of_returned {fl : Nat} {reg : Registry} (pure : Clean reg)
    (ret : parseConfig fs e fl p reg = some res) : Acc (fun next p => Imports fs e p next) p := by
  induction fl generalizing p reg res with
  | zero => cases ret
  | succ fl ih =>
    constructor
    intro next imps
    obtain ⟨f, mem, data, read, imported⟩ := mem_importsFrom.mp imps
    have past := @parseConfig_succ fs e fl p reg
    rw [ret] at past
    have keep : KeepsClean (parseConfig fs e fl) := keepsClean_parseConfig fl
    obtain ⟨-, fls⟩ := callEach_called (keepsClean_parseConfigFile keep) pure past.symm
    obtain ⟨pre, fileResult, beforeClean, fileReturned⟩ := fls f mem
    obtain ⟨-, call⟩ := parseConfigFile_called keep beforeClean fileReturned
    obtain ⟨nextBefore, nextResult, nextClean, nextReturned⟩ := call data read next imported
    exact ih nextClean nextReturned

theorem acc_iff_noImportCycle : Acc (fun next p => Imports fs e p next) p ↔ NoImportCycle fs e p :=
  acc_iff_acyclic (fs.contents.flatMap _).finite_toSet fun _ _ imps => imports_contents imps

end

/-- `ParseConfig` returns exactly if no file or directory that is read because of the
    path leads back to itself. -/
theorem parseConfig_returns_iff (fs : FileSystem) (e : SectionEnv) (p : Bytes) (reg : Registry)
    (clean : reg.imports = []) : (∃ fl res, parseConfig fs e fl p reg = some res) ↔ NoImportCycle fs e p := by
  rw [← acc_iff_noImportCycle]
  constructor
  · rintro ⟨fl, res, ret⟩
    exact acc_of_returned clean ret
  · intro acc
    obtain ⟨fl, returns⟩ := returns_of_acc acc
    obtain ⟨post, ok, ret, -⟩ := returns reg clean
    exact ⟨fl, _, ret⟩

def singleFile (p data : Bytes) : FileSystem where
  isDir _ := false
  readFile o := if o = p then some data else none
  opendir _ := none
  contents := [data]
  readFile_mem := by
    intro o found read
    split at read
    · cases read
      exact List.mem_singleton.mpr rfl
    · cases read

theorem parseConfig_returns_iff_single : ({} : Registry).imports = [] ∧
      ((∃ fl res, parseConfig (singleFile (ascii "/init.rc") (ascii "import /vendor.rc")) startOnlyEnv fl
          (ascii "/init.rc") {} = some res) ↔
        NoImportCycle (singleFile (ascii "/init.rc") (ascii "import /vendor.rc")) startOnlyEnv (ascii "/init.rc")) :=
  ⟨rfl, parseConfig_returns_iff _ _ _ {} rfl⟩

set_option maxRecDepth 8000 in
/-- A file that imports itself is read again and again. -/
theorem parseConfig_self_import :
    ¬ ∃ fl res, parseConfig (singleFile (ascii "/init.rc") (ascii "import /init.rc")) startOnlyEnv fl
      (ascii "/init.rc") {} = some res := by
  have imports : Imports (singleFile (ascii "/init.rc") (ascii "import /init.rc")) startOnlyEnv
      (ascii "/init.rc") (ascii "/init.rc") := by
    show _ ∈ importsFrom _ _ _
    decide
  rintro ⟨fl, res, ret⟩
  exact not_transGen_of_acc (acc_of_returned rfl ret) (.single imports)

theorem configFiles_perm {ents o : List DirEntry} (perm : ents.Perm o) (p : Bytes) :
    configFiles p ents = configFiles p o := by
  have same := (perm.filter (·.regular)).map fun ent => cstr p ++ slash :: ent.name
  refine List.Perm.eq_of_pairwise' (r := (· ≤ ·)) (List.pairwise_insertionSort _ _) (List.pairwise_insertionSort _ _) ?_
  exact (List.perm_insertionSort _ _).trans (same.trans (List.perm_insertionSort _ _).symm)

/-- The order in which `readdir` returns the entries of directories has no influence. -/
theorem parseConfig_readdir_order {fs o : FileSystem} (dirs : o.isDir = fs.isDir) (files : o.readFile = fs.readFile)
    (entries : ∀ p, Option.Rel List.Perm (o.opendir p) (fs.opendir p)) (e : SectionEnv) (fl : Nat) :
    parseConfig o e fl = parseConfig fs e fl := by
  induction fl with
  | zero => rfl
  | succ fl ih =>
    funext p reg
    have file : parseConfigFile o e = parseConfigFile fs e := by
      funext c p reg
      rw [parseConfigFile, files]
      rfl
    rw [parseConfig, parseConfig, dirs, ih, parseConfigDir, parseConfigDir, file]
    have ents := entries (cstr p)
    generalize o.opendir (cstr p) = x, fs.opendir (cstr p) = y at ents
    cases ents with
    | none => rfl
    | some perm => simp only [configFiles_perm perm]

def oneDir (ents : List DirEntry) : FileSystem :=
  { singleFile (ascii "/d/a") [] with isDir := fun _ => true, opendir := fun _ => some ents }

theorem parseConfig_readdir_order_two :
    parseConfig (oneDir [⟨ascii "b", true⟩, ⟨ascii "a", true⟩]) startOnlyEnv 2 =
      parseConfig (oneDir [⟨ascii "a", true⟩, ⟨ascii "b", true⟩]) startOnlyEnv 2 := by
  refine parseConfig_readdir_order ?_ ?_ (fun _ => .some (.swap ..)) _ _ <;> rfl

end Aosp.Init
