import Aosp.Init.ServiceManager

/-! # The options of a service

Model of `Service::ParseLine` of `init/service.cpp` with the option parsers behind
its keyword map.  An option parser returns the service it leaves and, when it
returns false, the error: some of them have changed the service by then.

Users, numbers and capabilities are looked up outside this repository
(`OptionEnv`).
-/

namespace Aosp.Init

open Aosp.Lib

inductive DescriptorKind where
  | socket
  | file
deriving DecidableEq

structure DescriptorInfo where
  kind : DescriptorKind
  name : Bytes
  type : Bytes
  uid : Nat
  gid : Nat
  perm : Int
  context : Bytes
deriving DecidableEq

inductive IoSchedClass where
  | none
  | rt
  | be
  | idle
deriving DecidableEq

/-- A service with the fields that only its options and its child process use.
    `onrestart` is a member of the service, so its address is never compared. -/
structure ServiceDefinition extends Service where
  capabilities : Finset Nat := ∅
  namespaceFlags : Nat := 0
  descriptors : List DescriptorInfo := []
  envvars : List (Bytes × Bytes) := []
  onrestart : Action := { addr := 0, eventTrigger := ascii "onrestart" }
  writepidFiles : List Bytes := []
  keycodes : List Int := []
  ioprioClass : IoSchedClass := .none
  ioprioPri : Int := 0
  priority : Int := 0
  oomScoreAdjust : Int := -1000
deriving DecidableEq

/-- What the option parsers call: `parseInt` is `android::base::ParseInt` to `int`
    without bounds, `strtoul8` is `strtoul` to base 8. -/
structure OptionEnv where
  functionMap : Option (KeywordMap BuiltinFunction)
  decodeUid : Bytes → Nat
  parseInt : Bytes → Option Int
  strtoul8 : Bytes → Nat
  capAmbientSupported : Bool
  lastValidCap : Nat
  lookupCap : Bytes → Int
  priorityHighest : Int
  priorityLowest : Int

/-- `ParseInt(s, &out, min, max)`: `out` is written on success only. -/
def OptionEnv.parseIntIn (e : OptionEnv) (s : Bytes) (min max : Int) : Option Int :=
  (e.parseInt s).filter fun n => min ≤ n ∧ n ≤ max

def CLONE_NEWNS : Nat := 0x00020000

def CLONE_NEWPID : Nat := 0x20000000

def setInsert (name : Bytes) : List Bytes → List Bytes
  | [] => [name]
  | n :: rest =>
    if n = name then n :: rest
    else if name < n then name :: n :: rest
    else n :: setInsert name rest

namespace ServiceDefinition

/-- The constructor of a service that is read from a file. -/
def new (name : Bytes) (args : List Bytes) : ServiceDefinition := { name, args }

variable (e : OptionEnv) (svc : ServiceDefinition) (args : List Bytes)

def setFlags (change : ServiceFlags → ServiceFlags) : ServiceDefinition :=
  { svc with flags := change svc.flags }

/-! ## The option parsers -/

def parseCapabilitiesFrom (e : OptionEnv) (svc : ServiceDefinition) :
    List Bytes → ServiceDefinition × Option Bytes
  | [] => (svc, none)
  | arg :: args =>
    let res := e.lookupCap arg
    if res < 0 then (svc, some (ascii "invalid capability '" ++ cstr arg ++ ascii "'"))
    else if res.toNat > e.lastValidCap then
      (svc, some (ascii "capability '" ++ cstr arg ++ ascii "' not supported by the kernel"))
    else
      parseCapabilitiesFrom e { svc with capabilities := insert res.toNat svc.capabilities } args

def parseCapabilities : ServiceDefinition × Option Bytes :=
  let svc := { svc with capabilities := ∅ }
  if !e.capAmbientSupported then
    (svc, some (ascii "capabilities requested but the kernel does not support ambient capabilities"))
  else svc.parseCapabilitiesFrom e (args.drop 1)

def parseClass : ServiceDefinition × Option Bytes :=
  ({ svc with classnames := (args.drop 1).foldl (fun names name => setInsert name names) [] }, none)

def parseConsole : ServiceDefinition × Option Bytes :=
  let svc := svc.setFlags ({ · with console := true })
  ({ svc with console := if args.length > 1 then ascii "/dev/" ++ args.getD 1 [] else [] }, none)

def parseCritical (_ : List Bytes) : ServiceDefinition × Option Bytes :=
  (svc.setFlags ({ · with critical := true }), none)

def parseDisabled (_ : List Bytes) : ServiceDefinition × Option Bytes :=
  (svc.setFlags ({ · with disabled := true, rcDisabled := true }), none)

def parseGroup : ServiceDefinition × Option Bytes :=
  ({ svc with
    gid := e.decodeUid (args.getD 1 [])
    suppGids := svc.suppGids ++ (args.drop 2).map e.decodeUid }, none)

def parsePriority : ServiceDefinition × Option Bytes :=
  let svc := { svc with priority := 0 }
  match e.parseIntIn (args.getD 1 []) e.priorityHighest e.priorityLowest with
  | none => (svc, some (ascii "process priority value must be range " ++
      ascii (toString e.priorityHighest) ++ ascii " - " ++ ascii (toString e.priorityLowest)))
  | some priority => ({ svc with priority }, none)

def parseIoprio : ServiceDefinition × Option Bytes :=
  match e.parseIntIn (args.getD 2 []) 0 7 with
  | none => (svc, some (ascii "priority value must be range 0 - 7"))
  | some ioprioPri =>
    -- the priority is stored before the class is looked at
    let svc := { svc with ioprioPri }
    if args.getD 1 [] = ascii "rt" then ({ svc with ioprioClass := .rt }, none)
    else if args.getD 1 [] = ascii "be" then ({ svc with ioprioClass := .be }, none)
    else if args.getD 1 [] = ascii "idle" then ({ svc with ioprioClass := .idle }, none)
    else (svc, some (ascii "ioprio option usage: ioprio <rt|be|idle> <0-7>"))

/-- Arguments that are no number are ignored. -/
def parseKeycodes : ServiceDefinition × Option Bytes :=
  ({ svc with keycodes := svc.keycodes ++ (args.drop 1).filterMap e.parseInt }, none)

def parseOneshot (_ : List Bytes) : ServiceDefinition × Option Bytes :=
  (svc.setFlags ({ · with oneshot := true }), none)

/-- What `AddCommand` returns is ignored. -/
def parseOnrestart : ServiceDefinition × Option Bytes :=
  match svc.onrestart.addParsedCommand e.functionMap (args.drop 1) [] 0 with
  | .error _ => (svc, none)
  | .ok onrestart => ({ svc with onrestart }, none)

def parseNamespaceFrom (svc : ServiceDefinition) : List Bytes → ServiceDefinition × Option Bytes
  | [] => (svc, none)
  | arg :: args =>
    if arg = ascii "pid" then
      -- PID namespaces require mount namespaces.
      parseNamespaceFrom { svc with
        namespaceFlags := svc.namespaceFlags ||| CLONE_NEWPID ||| CLONE_NEWNS } args
    else if arg = ascii "mnt" then
      parseNamespaceFrom { svc with namespaceFlags := svc.namespaceFlags ||| CLONE_NEWNS } args
    else (svc, some (ascii "namespace must be 'pid' or 'mnt'"))

def parseNamespace : ServiceDefinition × Option Bytes :=
  svc.parseNamespaceFrom (args.drop 1)

def parseOomScoreAdjust : ServiceDefinition × Option Bytes :=
  match e.parseIntIn (args.getD 1 []) (-1000) 1000 with
  | none => (svc, some (ascii "oom_score_adjust value must be in range -1000 - +1000"))
  | some oomScoreAdjust => ({ svc with oomScoreAdjust }, none)

def parseSeclabel : ServiceDefinition × Option Bytes :=
  ({ svc with seclabel := args.getD 1 [] }, none)

def parseSetenv : ServiceDefinition × Option Bytes :=
  ({ svc with envvars := svc.envvars ++ [(args.getD 1 [], args.getD 2 [])] }, none)

/-- `AddDescriptor<T>`.  The search for an old descriptor compares the addresses of
    two objects that are both alive, so it finds none. -/
def addDescriptor (kind : DescriptorKind) (e : OptionEnv) (svc : ServiceDefinition) (args : List Bytes) :
    ServiceDefinition × Option Bytes :=
  let descriptor : DescriptorInfo :=
    { kind
      name := args.getD 1 []
      type := args.getD 2 []
      perm := if args.length > 3 then (BitVec.ofNat 32 (e.strtoul8 (args.getD 3 []))).toInt else -1
      uid := if args.length > 4 then e.decodeUid (args.getD 4 []) else 0
      gid := if args.length > 5 then e.decodeUid (args.getD 5 []) else 0
      context := if args.length > 6 then args.getD 6 [] else [] }
  ({ svc with descriptors := svc.descriptors ++ [descriptor] }, none)

def parseSocket : ServiceDefinition × Option Bytes :=
  if args.getD 2 [] ≠ ascii "dgram" ∧ args.getD 2 [] ≠ ascii "stream" ∧ args.getD 2 [] ≠ ascii "seqpacket" then
    (svc, some (ascii "socket type must be 'dgram', 'stream' or 'seqpacket'"))
  else svc.addDescriptor .socket e args

def parseFile : ServiceDefinition × Option Bytes :=
  if args.getD 2 [] ≠ ascii "r" ∧ args.getD 2 [] ≠ ascii "w" ∧ args.getD 2 [] ≠ ascii "rw" then
    (svc, some (ascii "file type must be 'r', 'w' or 'rw'"))
  else if (args.getD 1 []).headD 0 ≠ slash ∨ ascii "../" <:+: args.getD 1 [] then
    (svc, some (ascii "file name must not be relative"))
  else svc.addDescriptor .file e args

def parseUser : ServiceDefinition × Option Bytes :=
  ({ svc with uid := e.decodeUid (args.getD 1 []) }, none)

def parseWritepid : ServiceDefinition × Option Bytes :=
  ({ svc with writepidFiles := args.drop 1 }, none)

/-! ## The keyword map -/

abbrev OptionParser := ServiceDefinition → List Bytes → ServiceDefinition × Option Bytes

def optionParsers : KeywordMap OptionParser :=
  [(ascii "capabilities", 1, sizeMax, parseCapabilities e), (ascii "class", 1, sizeMax, parseClass),
   (ascii "console", 0, 1, parseConsole), (ascii "critical", 0, 0, parseCritical),
   (ascii "disabled", 0, 0, parseDisabled), (ascii "group", 1, ServiceManager.NR_SVC_SUPP_GIDS + 1, parseGroup e),
   (ascii "ioprio", 2, 2, parseIoprio e), (ascii "priority", 1, 1, parsePriority e),
   (ascii "keycodes", 1, sizeMax, parseKeycodes e), (ascii "oneshot", 0, 0, parseOneshot),
   (ascii "onrestart", 1, sizeMax, parseOnrestart e), (ascii "oom_score_adjust", 1, 1, parseOomScoreAdjust e),
   (ascii "namespace", 1, 2, parseNamespace), (ascii "seclabel", 1, 1, parseSeclabel),
   (ascii "setenv", 2, 2, parseSetenv), (ascii "socket", 3, 6, parseSocket e), (ascii "file", 2, 2, parseFile e),
   (ascii "user", 1, 1, parseUser e), (ascii "writepid", 1, sizeMax, parseWritepid)]

def parseLine : ServiceDefinition × Option Bytes :=
  match args with
  | [] => (svc, some (ascii "option needed, but not provided"))
  | keyword :: rest =>
    match (optionParsers e).findFunction keyword rest.length with
    | .error err => (svc, some err)
    | .ok parser => parser svc args

end ServiceDefinition

end Aosp.Init
