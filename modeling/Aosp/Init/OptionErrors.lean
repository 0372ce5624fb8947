import Aosp.Init.ServiceOptions

/-! # Option lines that are rejected or repeated

Four of the option parsers store something before they have checked everything
(`StoresAndFails`); what the others reject leaves the service as it was.  The descriptors
of a service are those that its `socket` and `file` lines ask for, repeated ones
included: the search of `AddDescriptor` compares addresses.
-/

namespace Aosp.Init

open Aosp.Lib

def OptionEnv.validCap (e : OptionEnv) (arg : Bytes) : Bool :=
  0 ≤ e.lookupCap arg && (e.lookupCap arg).toNat ≤ e.lastValidCap

def isNamespace (arg : Bytes) : Bool := arg = ascii "pid" || arg = ascii "mnt"

def namespaceFlag (arg : Bytes) : Nat :=
  if arg = ascii "pid" then CLONE_NEWPID ||| CLONE_NEWNS else CLONE_NEWNS

namespace ServiceDefinition

variable {svc : ServiceDefinition} {keyword : Bytes}

def StoresAndFails (e : OptionEnv) (svc : ServiceDefinition) (keyword : Bytes) (args : List Bytes) : Prop :=
  if keyword = ascii "capabilities" then
    let valid := if e.capAmbientSupported then args.takeWhile e.validCap else []
    (e.capAmbientSupported → valid ≠ args) ∧ svc.capabilities ≠ (valid.map fun arg => (e.lookupCap arg).toNat).toFinset
  else if keyword = ascii "ioprio" then
    args.getD 0 [] ∉ [ascii "rt", ascii "be", ascii "idle"] ∧
      ∃ pri ∈ e.parseIntIn (args.getD 1 []) 0 7, svc.ioprioPri ≠ pri
  else if keyword = ascii "priority" then
    e.parseIntIn (args.getD 0 []) e.priorityHighest e.priorityLowest = none ∧ svc.priority ≠ 0
  else if keyword = ascii "namespace" then
    let valid := args.takeWhile isNamespace
    valid ≠ args ∧
      svc.namespaceFlags ≠ valid.foldl (fun flags arg => flags ||| namespaceFlag arg) svc.namespaceFlags
  else False

theorem parseCapabilitiesFrom_eq (e : OptionEnv) (svc : ServiceDefinition) (args : List Bytes) :
    let valid := args.takeWhile e.validCap
    let stored := svc.capabilities ∪ (valid.map fun arg => (e.lookupCap arg).toNat).toFinset
    (svc.parseCapabilitiesFrom e args).1 = { svc with capabilities := stored } ∧
    ((svc.parseCapabilitiesFrom e args).2 = none ↔ valid = args) := by
  fun_induction parseCapabilitiesFrom e svc args with
  | case1 => simp
  | case2 svc arg args res neg =>
    have invalid : e.validCap arg = false := by simp [OptionEnv.validCap, neg, res]
    simp [invalid]
  | case3 svc arg args res _ large =>
    have invalid : e.validCap arg = false := by
      simp only [OptionEnv.validCap, Bool.and_eq_false_iff, decide_eq_false_iff_not]
      exact .inr (Nat.not_le.mpr large)
    simp [invalid]
  | case4 svc arg args res nonneg small ih =>
    have valid : e.validCap arg = true := by simp_all [OptionEnv.validCap, res]
    simpa [valid, ← Finset.insert_union_comm] using ih

theorem parseNamespaceFrom_eq (svc : ServiceDefinition) (args : List Bytes) :
    let valid := args.takeWhile isNamespace
    let stored := valid.foldl (fun flags arg => flags ||| namespaceFlag arg) svc.namespaceFlags
    (svc.parseNamespaceFrom args).1 = { svc with namespaceFlags := stored } ∧
    ((svc.parseNamespaceFrom args).2 = none ↔ valid = args) := by
  fun_induction parseNamespaceFrom svc args with
  | case1 => simp
  | case2 svc args ih => simpa [isNamespace, namespaceFlag, Nat.or_assoc] using ih
  | case3 svc args other ih => simpa [isNamespace, namespaceFlag, other] using ih
  | case4 svc arg args other others => simp [isNamespace, other, others]

def ChecksFirst (parser : OptionParser) : Prop :=
  ∀ svc args, (parser svc args).2 = none ∨ (parser svc args).1 = svc

theorem ChecksFirst.iff {parser : OptionParser} (checks : ChecksFirst parser) {e : OptionEnv} {args : List Bytes}
    (other : keyword ∉ [ascii "capabilities", ascii "ioprio", ascii "priority", ascii "namespace"]) :
    ((parser svc (keyword :: args)).2 = none ∨ (parser svc (keyword :: args)).1 = svc) ↔
      ¬ StoresAndFails e svc keyword args := by
  simp only [List.mem_cons, List.not_mem_nil, or_false, not_or] at other
  simpa [StoresAndFails, other] using checks svc (keyword :: args)

theorem optionParsers_iff (e : OptionEnv) : ∀ ent ∈ optionParsers e, ∀ svc args,
    ((ent.2.2.2 svc (ent.1 :: args)).2 = none ∨ (ent.2.2.2 svc (ent.1 :: args)).1 = svc) ↔
      ¬ StoresAndFails e svc ent.1 args := by
  simp only [optionParsers, List.forall_mem_cons]
  refine ⟨?capabilities, ?classnames, ?console, ?critical, ?disabled, ?group, ?ioprio, ?priority, ?keycodes,
    ?oneshot, ?onrestart, ?oomScoreAdjust, ?namespaces, ?seclabel, ?setenv, ?socket, ?file, ?user, ?writepid, nofun⟩
  case capabilities =>
    intro svc args
    have same : ∀ caps, { svc with capabilities := caps } = svc ↔ svc.capabilities = caps :=
      fun _ => ⟨fun eq => (congrArg capabilities eq).symm, fun eq => by rw [← eq]⟩
    obtain ⟨stored, accepted⟩ := parseCapabilitiesFrom_eq e { svc with capabilities := ∅ } args
    rw [StoresAndFails, if_pos rfl, parseCapabilities]
    cases e.capAmbientSupported with
    | false => simp [same]
    | true =>
      simp only [Bool.not_true, Bool.false_eq_true, if_false, if_true, List.drop_succ_cons, List.drop_zero, stored,
        accepted, Finset.empty_union, same, true_imp_iff, not_and_or, not_not, ne_eq]
  case ioprio =>
    intro svc args
    have same : ∀ pri, { svc with ioprioPri := pri } = svc ↔ svc.ioprioPri = pri :=
      fun _ => ⟨fun eq => (congrArg ioprioPri eq).symm, fun eq => by rw [← eq]⟩
    rw [StoresAndFails, if_neg (by decide), if_pos rfl, parseIoprio]
    simp only [List.getD_cons_succ]
    cases e.parseIntIn (args.getD 1 []) 0 7 with
    | none => simp
    | some pri => split_ifs <;> simp_all
  case priority =>
    intro svc args
    have same : { svc with priority := 0 } = svc ↔ svc.priority = 0 :=
      ⟨fun eq => (congrArg priority eq).symm, fun eq => by rw [← eq]⟩
    rw [StoresAndFails, if_neg (by decide), if_neg (by decide), if_pos rfl, parsePriority]
    simp only [List.getD_cons_succ]
    cases e.parseIntIn (args.getD 0 []) e.priorityHighest e.priorityLowest with
    | none => simp [same]
    | some pri => simp
  case namespaces =>
    intro svc args
    have same : ∀ flags, { svc with namespaceFlags := flags } = svc ↔ svc.namespaceFlags = flags :=
      fun _ => ⟨fun eq => (congrArg namespaceFlags eq).symm, fun eq => by rw [← eq]⟩
    obtain ⟨stored, accepted⟩ := parseNamespaceFrom_eq svc args
    rw [StoresAndFails, if_neg (by decide), if_neg (by decide), if_neg (by decide), if_pos rfl, parseNamespace]
    simp only [List.drop_succ_cons, List.drop_zero, stored, accepted, same, not_and_or, not_not, ne_eq]
  all_goals
    intro svc args
    refine ChecksFirst.iff (fun svc args => ?_) (by decide)
  case onrestart | oomScoreAdjust | socket | file =>
    simp only [parseOnrestart, parseOomScoreAdjust, parseSocket, parseFile]
    repeat' split
    all_goals first | exact .inl rfl | exact .inr rfl
  all_goals exact .inl rfl

/-- A rejected line leaves the service as it was, unless it is one of the kind. -/
theorem rejected_option_leaves_service (e : OptionEnv) (svc : ServiceDefinition) (args : List Bytes) :
    ((svc.parseLine e args).2 ≠ none → (svc.parseLine e args).1 = svc) ↔
      ∀ keyword rest, args = keyword :: rest → ((optionParsers e).findFunction keyword rest.length).isOk →
        ¬ StoresAndFails e svc keyword rest := by
  cases args with
  | nil => simp [parseLine]
  | cons keyword rest =>
    simp only [parseLine, List.cons.injEq]
    cases found : (optionParsers e).findFunction keyword rest.length with
    | error err =>
      refine iff_of_true (fun _ => rfl) fun _ _ same => ?_
      rw [← same.1, ← same.2, found]
      nofun
    | ok parser =>
      obtain ⟨_, _, member, -⟩ := KeywordMap.mem_of_findFunction found
      rw [← or_iff_not_imp_left, optionParsers_iff e _ member svc rest]
      refine ⟨fun ok _ _ same => ?_, fun ok => ok _ _ ⟨rfl, rfl⟩ (by rw [found]; rfl)⟩
      rw [← same.1, ← same.2]
      exact fun _ => ok

/-- Nothing can be looked up. -/
def blindEnv : OptionEnv where
  functionMap := none
  decodeUid _ := 0
  parseInt _ := none
  strtoul8 _ := 0
  capAmbientSupported := true
  lastValidCap := 0
  lookupCap _ := -1
  priorityHighest := -20
  priorityLowest := 19

/-- A priority that is no number resets the one the service has. -/
theorem rejected_priority_is_stored :
    (parseLine blindEnv { new [] [] with priority := 5 } [ascii "priority", ascii "x"]).2 ≠ none ∧
      (parseLine blindEnv { new [] [] with priority := 5 } [ascii "priority", ascii "x"]).1 ≠
        { new [] [] with priority := 5 } :=
  ⟨by decide, fun same => absurd (congrArg priority same) (by decide)⟩

/-! ## Descriptors -/

def parseLines (e : OptionEnv) (svc : ServiceDefinition) (lines : List (List Bytes)) : ServiceDefinition :=
  lines.foldl (fun svc l => (svc.parseLine e l).1) svc

abbrev DescriptorKey := DescriptorKind × Bytes × Bytes

def descriptorKey (descriptor : DescriptorInfo) : DescriptorKey :=
  (descriptor.kind, descriptor.name, descriptor.type)

def keyOf (keyword : Bytes) (args : List Bytes) : Option DescriptorKey :=
  let name := args.getD 0 []
  let type := args.getD 1 []
  if keyword = ascii "socket" ∧ (type = ascii "dgram" ∨ type = ascii "stream" ∨ type = ascii "seqpacket") then
    some (.socket, name, type)
  else if keyword = ascii "file" ∧ (type = ascii "r" ∨ type = ascii "w" ∨ type = ascii "rw") ∧
      name.headD 0 = slash ∧ ¬ ascii "../" <:+: name then some (.file, name, type)
  else none

/-- The descriptor that a line asks for, if it has as many arguments as it may. -/
def requestedKey (e : OptionEnv) : List Bytes → Option DescriptorKey
  | [] => none
  | keyword :: args =>
    if ((optionParsers e).findFunction keyword args.length).isOk then keyOf keyword args else none

theorem keyOf_other {args : List Bytes} (socket : keyword ≠ ascii "socket") (file : keyword ≠ ascii "file") :
    keyOf keyword args = none := by
  simp [keyOf, socket, file]

theorem optionParsers_keys (e : OptionEnv) : ∀ ent ∈ optionParsers e, ∀ svc args,
    (ent.2.2.2 svc (ent.1 :: args)).1.descriptors.map descriptorKey =
      svc.descriptors.map descriptorKey ++ (keyOf ent.1 args).toList := by
  have other : ascii "socket" ≠ ascii "file" := by decide
  simp only [optionParsers, List.forall_mem_cons]
  refine ⟨?_, ?_, ?_, ?_, ?_, ?_, ?_, ?_, ?_, ?_, ?_, ?_, ?_, ?_, ?_, ?socket, ?file, ?_, ?_, nofun⟩
  case socket | file =>
    intro svc args
    simp only [parseSocket, parseFile, keyOf, List.getD_cons_succ, other, other.symm, false_and, if_false]
    split_ifs <;> simp_all [addDescriptor, descriptorKey]
  all_goals
    intro svc args
    rw [keyOf_other (by decide) (by decide)]
    simp only [parseCapabilities, parseClass, parseConsole, parseCritical, parseDisabled, parseGroup, parseIoprio,
      parsePriority, parseKeycodes, parseOneshot, parseOnrestart, parseOomScoreAdjust, parseNamespace, parseSeclabel,
      parseSetenv, parseUser, parseWritepid, setFlags]
    repeat' split
    all_goals simp [parseCapabilitiesFrom_eq, parseNamespaceFrom_eq]

theorem parseLine_keys (e : OptionEnv) (svc : ServiceDefinition) (l : List Bytes) :
    (svc.parseLine e l).1.descriptors.map descriptorKey =
      svc.descriptors.map descriptorKey ++ (requestedKey e l).toList := by
  cases l with
  | nil => simp [parseLine, requestedKey]
  | cons keyword args =>
    simp only [parseLine, requestedKey]
    cases found : (optionParsers e).findFunction keyword args.length with
    | error => simp [Except.isOk, Except.toBool]
    | ok parser =>
      obtain ⟨_, _, member, -⟩ := KeywordMap.mem_of_findFunction found
      exact optionParsers_keys e _ member svc args

theorem parseLines_keys (e : OptionEnv) (svc : ServiceDefinition) (lines : List (List Bytes)) :
    (parseLines e svc lines).descriptors.map descriptorKey =
      svc.descriptors.map descriptorKey ++ lines.filterMap (requestedKey e) := by
  induction lines generalizing svc with
  | nil => simp [parseLines]
  | cons l lines ih =>
    rw [parseLines, List.foldl_cons, ← parseLines, ih, parseLine_keys, List.append_assoc]
    cases asked : requestedKey e l <;> simp [asked]

structure DescriptorsDistinct (e : OptionEnv) (svc : ServiceDefinition) (lines : List (List Bytes)) : Prop where
  distinct : ((parseLines e svc lines).descriptors.map descriptorKey).Nodup
  rejected : ∀ earlier l later key, lines = earlier ++ l :: later → requestedKey e l = some key →
    key ∈ (parseLines e svc earlier).descriptors.map descriptorKey →
    ((parseLines e svc earlier).parseLine e l).2 =
      some (ascii "duplicate descriptor " ++ key.2.1 ++ ascii " " ++ key.2.2)

theorem descriptors_distinct (e : OptionEnv) (n : Bytes) (args : List Bytes) (lines : List (List Bytes)) :
    DescriptorsDistinct e (new n args) lines ↔ (lines.filterMap (requestedKey e)).Nodup := by
  have keys := parseLines_keys e (new n args)
  constructor
  · rintro ⟨distinct, -⟩
    rwa [keys] at distinct
  · intro nodup
    refine ⟨by rwa [keys], fun earlier l later key eq asked present => ?_⟩
    rw [keys] at present
    rw [eq, List.filterMap_append, List.filterMap_cons_some asked] at nodup
    exact (List.disjoint_of_nodup_append nodup present List.mem_cons_self).elim

/-- The same socket twice: both lines are accepted. -/
theorem repeated_socket_accepted :
    ∃ svc l, (parseLine blindEnv (parseLine blindEnv (new [] []) l).1 l) = (svc, none) ∧
      ¬ (svc.descriptors.map descriptorKey).Nodup :=
  ⟨_, [ascii "socket", ascii "s", ascii "stream", ascii "0"], rfl, by decide⟩

end ServiceDefinition

end Aosp.Init
