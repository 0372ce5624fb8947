import Aosp.Init.ServiceOptions

/-! # The arguments of `exec`

`exec` limits the index of its command, and the index at twelve supplementary groups is
already above the limit: it admits eleven where the option `group` admits twelve.
-/

namespace Aosp.Init

open Aosp.Lib List ServiceManager ServiceDefinition

theorem commandArg_separator (word : Bytes) {options : List Bytes} (plain : ascii "--" ∉ options)
    (cmd : List Bytes) :
    commandArg (word :: (options ++ ascii "--" :: cmd)) = options.length + 2 := by
  have absent : options.findIdx? (· = ascii "--") = none := by
    simpa using fun _ mem => ne_of_mem_of_not_mem mem plain
  simp [commandArg, findIdx?_cons, absent]

structure DescribedBy (du : Bytes → Nat) (options cmd : List Bytes) (svc : Service) : Prop where
  seclabel : svc.seclabel = if options.head? = some (ascii "-") then [] else options.headD []
  uid : svc.uid = (options[1]?.map du).getD 0
  gid : svc.gid = (options[2]?.map du).getD 0
  suppGids : svc.suppGids = (options.drop 3).map du
  args : svc.args = cmd

/-- `exec` refuses more than twelve supplementary groups, as the option `group` does, and makes
    the service described otherwise. -/
structure FollowsGrammar (du : Bytes → Nat) (options cmd : List Bytes) (made : Option (Service × ServiceManager)) :
    Prop where
  refused : made = none ↔ NR_SVC_SUPP_GIDS < (options.drop 3).length
  described : ∀ res ∈ made, DescribedBy du options cmd res.1
  group : ∀ (e : OptionEnv) (groups : Nat),
    ((optionParsers e).findFunction (ascii "group") (groups + 1)).isOk ↔ groups ≤ NR_SVC_SUPP_GIDS

theorem exec_grammar (du : Bytes → Nat) (mgr : ServiceManager) (word : Bytes) (options cmd : List Bytes)
    (plain : ascii "--" ∉ options) (nonempty : cmd ≠ []) :
    FollowsGrammar du options cmd (mgr.makeExecOneshotService du (word :: (options ++ ascii "--" :: cmd))) ↔
      (options.drop 3).length ≠ NR_SVC_SUPP_GIDS := by
  have index := commandArg_separator word plain cmd
  have room : ¬ options.length + 2 ≥ (word :: (options ++ ascii "--" :: cmd)).length := by simp; omega
  constructor
  · intro follows twelve
    -- the index of the command is already above the limit
    have above : commandArg (word :: (options ++ ascii "--" :: cmd)) > 4 + NR_SVC_SUPP_GIDS := by
      rw [length_drop, NR_SVC_SUPP_GIDS] at twelve
      rw [index, NR_SVC_SUPP_GIDS]
      omega
    have more := follows.refused.mp (if_pos above)
    omega
  intro notTwelve
  refine ⟨?_, fun res => ?_, fun e groups => ?_⟩
  · simp only [makeExecOneshotService, index, length_drop] at notTwelve ⊢
    split <;> simp <;> omega
  · simp only [makeExecOneshotService, index]
    split
    · nofun
    rintro ⟨⟩
    -- the fields are decoded by position, so by how many options there are
    obtain _ | ⟨_, _ | ⟨_, _ | ⟨group, groups⟩⟩⟩ := options <;> constructor <;> simp
  · have entry : (optionParsers e).find? (fun entry => entry.1 = ascii "group") = some _ := rfl
    by_cases fits : groups ≤ 12
    · have admitted : ¬ 13 < groups + 1 := by omega
      simp [KeywordMap.findFunction, entry, fits, admitted, NR_SVC_SUPP_GIDS, Except.toBool]
    · have refused : 13 < groups + 1 := by omega
      simp [KeywordMap.findFunction, entry, fits, refused, NR_SVC_SUPP_GIDS, sizeMax, Except.toBool]

/-- The options of an `exec` with this many supplementary groups. -/
def execOptions (groups : Nat) : List Bytes := [ascii "-", ascii "root"] ++ replicate (groups + 1) (ascii "log")

theorem exec_grammar_eleven :
    FollowsGrammar (fun _ => 7) (execOptions 11) [ascii "/bin/sh"]
      (makeExecOneshotService (fun _ => 7) {} (ascii "exec" :: (execOptions 11 ++ ascii "--" :: [ascii "/bin/sh"]))) :=
  (exec_grammar _ {} _ _ _ (by decide) (by simp)).mpr (by decide)

theorem exec_rejects_twelve_groups :
    makeExecOneshotService (fun _ => 7) {}
      (ascii "exec" :: (execOptions 12 ++ ascii "--" :: [ascii "/bin/sh"])) = none ∧
    ((execOptions 12).drop 3).length = NR_SVC_SUPP_GIDS := by
  decide

end Aosp.Init
