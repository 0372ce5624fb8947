import Aosp.Init.ActionRun

/-! # The cursor and the pointers of the action manager stay valid

`WellFormed` is the invariant behind `ExecuteOneCommand`: what is executing is
alive, once, and the cursor is inside the front action.  `OneshotRuns` adds, from
the log, which commands of a oneshot action have been run.  Every move keeps
both, so they hold in every state of every run (`run_wellFormed`,
`run_oneshotRuns`), and no call of a run meets undefined behaviour
(`exec_defined`).
-/

namespace Aosp.Init

open Aosp.Lib List ActionState

structure WellFormed (s : ActionState) : Prop where
  distinct : (s.manager.actions.map Action.addr).Nodup
  nonempty : ∀ act ∈ s.manager.actions, act.commands ≠ []
  alive : ∀ addr ∈ s.manager.currentExecutingActions, addr ∈ s.manager.actions.map Action.addr
  once : s.manager.currentExecutingActions.Nodup
  idle : s.manager.currentExecutingActions = [] → s.manager.currentCommand = 0
  inside : ∀ act ∈ s.manager.actions, s.manager.currentExecutingActions.head? = some act.addr →
      s.manager.currentCommand < act.commands.length
  running : ∀ addr, s.running = some addr → s.manager.currentExecutingActions.head? = some addr

theorem WellFormed.init : WellFormed {} where
  distinct := nodup_nil
  nonempty := by simp
  alive := by simp
  once := nodup_nil
  idle := fun _ => rfl
  inside := by simp
  running := by simp

variable {st post pre : ActionState} {fmap : Option (KeywordMap BuiltinFunction)} {ops : List ActionOp}
  {act : Action} {P : ActionState → Prop}

theorem WellFormed.unique (wf : WellFormed st) {one two : Action} (oneLive : one ∈ st.manager.actions)
    (twoLive : two ∈ st.manager.actions) (eq : one.addr = two.addr) : one = two :=
  inj_on_of_nodup_map wf.distinct oneLive twoLive eq

theorem filter_addr_mem {acts : List Action} {addr : Nat} :
    act ∈ acts.filter (·.addr ≠ addr) ↔ act ∈ acts ∧ act.addr ≠ addr := by
  simp

/-- The state after the front action is popped: `actions` are those left. -/
theorem WellFormed.pop (wf : WellFormed st) {ft : Nat} (head : st.manager.currentExecutingActions.head? = some ft)
    (sublist : post.manager.actions.Sublist st.manager.actions)
    (rest : ∀ act ∈ st.manager.actions, act.addr ≠ ft → act ∈ post.manager.actions)
    (tail : post.manager.currentExecutingActions = st.manager.currentExecutingActions.tail)
    (reset : post.manager.currentCommand = 0) (rests : post.running = none) : WellFormed post := by
  obtain ⟨tl, runs⟩ : ∃ tl, st.manager.currentExecutingActions = ft :: tl :=
    ⟨_, eq_cons_of_mem_head? head⟩
  have once := wf.once
  rw [runs] at once
  rw [runs] at tail
  refine ⟨(sublist.map _).nodup wf.distinct,
    fun act mem => wf.nonempty act (sublist.subset mem), ?_, ?_, fun _ => reset,
    ?_, by simp [rests]⟩
  · intro addr mem
    rw [tail] at mem
    have ne : addr ≠ ft := by
      rintro rfl
      exact (nodup_cons.mp once).1 mem
    obtain ⟨act, live, rfl⟩ := mem_map.mp
      (wf.alive addr (by rw [runs]; exact mem_cons_of_mem _ mem))
    exact mem_map_of_mem (rest act live ne)
  · rw [tail]
    exact (nodup_cons.mp once).2
  · intro act mem _
    rw [reset]
    exact length_pos_iff.mpr (wf.nonempty act (sublist.subset mem))

theorem mem_append_commands {ft tl : List Action} {old : Action} {cmds : List Command}
    (mem : act ∈ ft ++ { old with commands := old.commands ++ cmds } :: tl) :
    ∃ older ∈ ft ++ old :: tl, older.addr = act.addr ∧ older.oneshot = act.oneshot ∧
      older.commands.length ≤ act.commands.length := by
  rcases mem_append.mp mem with early | late
  · exact ⟨act, by simp [early], rfl, rfl, le_refl _⟩
  · rcases mem_cons.mp late with rfl | later
    · exact ⟨old, by simp, rfl, rfl, by simp⟩
    · exact ⟨act, by simp [later], rfl, rfl, le_refl _⟩

theorem move_wellFormed (wf : WellFormed pre) (move : Move pre post) : WellFormed post := by
  cases move with
  | parse | set | push => exact { wf with }
  | create act fresh nonempty =>
    refine ⟨?_, ?_, ?_, wf.once, wf.idle, ?_, wf.running⟩
    · simp only [record_manager, map_append]
      exact wf.distinct.append (nodup_singleton _) (by simpa using fresh)
    · intro o mem
      rcases mem_append.mp mem with old | new
      · exact wf.nonempty o old
      · rw [mem_singleton.mp new]
        exact nonempty
    · intro addr mem
      have live := wf.alive addr mem
      simp only [record_manager, map_append, mem_append]
      exact .inl live
    · intro o mem head
      rcases mem_append.mp mem with old | new
      · exact wf.inside o old head
      · -- a fresh address is not in the executing queue
        rw [mem_singleton.mp new] at head
        exact absurd (wf.alive _ (mem_of_mem_head? head)) fresh
  | append ft old tl cmds here =>
    have ads : (ft ++ { old with commands := old.commands ++ cmds } :: tl).map Action.addr =
        pre.manager.actions.map Action.addr := by
      simp [here]
    refine ⟨?_, ?_, ?_, wf.once, wf.idle, ?_, wf.running⟩
    · simp only [record_manager]
      rw [ads]
      exact wf.distinct
    · intro act mem
      obtain ⟨older, live, -, -, more⟩ := mem_append_commands mem
      have pos := length_pos_iff.mpr (wf.nonempty older (here ▸ live))
      exact length_pos_iff.mp (by omega)
    · intro addr mem
      simp only [record_manager]
      rw [ads]
      exact wf.alive addr mem
    · intro act mem head
      obtain ⟨older, live, eq, -, more⟩ := mem_append_commands mem
      exact lt_of_lt_of_le (wf.inside older (here ▸ live) (eq ▸ head)) more
  | dequeue trig _ ft idle rest =>
    have fits : ((ActionManager.matching pre.getProperty pre.manager.actions trig).map
        Action.addr).Sublist _ := filter_sublist.map _
    refine ⟨wf.distinct, wf.nonempty, fun addr mem => fits.subset mem,
      fits.nodup wf.distinct, fun _ => wf.idle idle, ?_, ?_⟩
    · intro act mem _
      simp only [wf.idle idle]
      exact length_pos_iff.mpr (wf.nonempty act mem)
    · simp [rest]
  | execute act tl _ ft mem here rest =>
    refine { wf with running := ?_ }
    simp [ft]
  | advance act hr mem _ =>
    have head := wf.running _ hr
    refine { wf with idle := ?_, inside := ?_, running := by simp }
    · intro emp
      simp only at emp
      simp [emp] at head
    · intro o live otherHead
      have eq : o = act := wf.unique live mem
        (Option.some.inj (otherHead.symm.trans head))
      have cap := wf.inside act mem head
      subst eq
      show pre.manager.currentCommand + 1 < o.commands.length
      omega
  | retire act hr mem last _ =>
    exact wf.pop (wf.running _ hr) (.refl _) (fun _ live _ => live) rfl rfl rfl
  | erase act hr mem last _ =>
    exact wf.pop (wf.running _ hr) filter_sublist
      (fun o live ne => filter_addr_mem.mpr ⟨live, ne⟩) rfl rfl rfl

theorem moves_invariant (kept : ∀ s t, P s → Move s t → P t) (hh : P pre) (mvs : Moves pre post) : P post := by
  induction mvs with
  | refl => exact hh
  | tail _ move ih => exact kept _ _ ih move

theorem run_invariant (beg : P {}) (kept : ∀ s t, P s → Move s t → P t)
    (run : Run (ActionStep fmap) {} ops st) : P st := by
  refine (run.invariant (P := fun s => s.live.Nodup ∧ P s) ⟨nodup_nil, beg⟩ ?_).2
  rintro s _ t ⟨live, hh⟩ step
  exact ⟨step_live live step, moves_invariant kept hh (exec_moves live step)⟩

section

variable (wf : WellFormed st)
include wf

/-! ## No undefined behaviour -/

theorem WellFormed.deref (live : act ∈ st.manager.actions) : st.manager.deref act.addr = some act := by
  have hf : (st.manager.deref act.addr).isSome := by
    simp only [ActionManager.deref, List.find?_isSome]
    exact ⟨act, live, by simp⟩
  obtain ⟨o, found'⟩ := Option.isSome_iff_exists.mp hf
  obtain ⟨otherLive, eq⟩ := ActionManager.deref_eq_some found'
  rw [found', wf.unique otherLive live eq]

theorem WellFormed.front {addr : Nat} (head : st.manager.currentExecutingActions.head? = some addr) :
    ∃ act ∈ st.manager.actions, act.addr = addr ∧ st.manager.currentCommand < act.commands.length := by
  obtain ⟨act, live, rfl⟩ := mem_map.mp (wf.alive addr (mem_of_mem_head? head))
  exact ⟨act, live, rfl, wf.inside act live head⟩

theorem beginCommand_defined (rest : st.running = none) : (st.beginCommand).isSome := by
  have pop := moves_invariant (P := WellFormed) (fun _ _ => move_wellFormed) wf
    (dequeueTriggers_moves rest)
  unfold beginCommand
  dsimp only
  split
  · rfl
  · rename_i addr tl runs
    have head : (st.manager.dequeueTriggers st.getProperty).2.currentExecutingActions.head? = some addr := by
      rw [runs]
      rfl
    obtain ⟨_, live, rfl, hi⟩ := pop.front head
    have hf := pop.deref live
    simp only [record_manager] at hf hi
    simp [ActionManager.command, hf, List.getElem?_eq_getElem hi]

theorem endCommand_defined (hr : st.running ≠ none) : (st.endCommand).isSome := by
  obtain ⟨addr, here⟩ := Option.ne_none_iff_exists'.mp hr
  obtain ⟨act, live, rfl, _⟩ := wf.front (wf.running addr here)
  have hf := wf.deref live
  -- the address to erase is there exactly once
  have single : (st.manager.actions.filter (·.addr = act.addr)).length = 1 := by
    have hc := count_eq_one_of_mem wf.distinct (mem_map_of_mem live)
    rw [count_eq_countP, countP_map, countP_eq_length_filter] at hc
    exact hc
  have done : (st.manager.endCommand act.addr).isSome := by
    simp only [ActionManager.endCommand, hf]
    split
    · split
      · simp [ActionManager.eraseAction, single]
      · rfl
    · rfl
  obtain ⟨_, past⟩ := Option.isSome_iff_exists.mp done
  simp [endCommand, here, past, hf]

theorem exec_defined (op : ActionOp) (may : op.Allowed st) : (op.exec fmap st).isSome := by
  cases op with
  | parseSection | parseLineSection =>
    simp only [ActionOp.exec]
    split <;> rfl
  | beginCommand => exact beginCommand_defined wf may
  | endCommand => exact endCommand_defined wf may
  | _ => rfl

end

/-! ## Oneshot actions -/

def executedSince (addr : Nat) (log : List Event) : List Nat :=
  log.foldl (fun indices ev =>
    match ev with
    | .created act => if act.addr = addr then [] else indices
    | .executed running index _ => if running = addr then indices ++ [index] else indices
    | _ => indices) []

theorem executedSince_created (addr : Nat) (log : List Event) (act : Action) :
    executedSince addr (log ++ [.created act]) = if act.addr = addr then [] else executedSince addr log := by
  simp [executedSince]

theorem executedSince_executed (addr r idx : Nat) (log : List Event) (cmd : Command) :
    executedSince addr (log ++ [.executed r idx cmd]) =
      if r = addr then executedSince addr log ++ [idx] else executedSince addr log := by
  simp [executedSince]

/-- How many commands of a live oneshot action have been run, counting the one
    that is running. -/
def ActionState.progress (s : ActionState) (act : Action) : Nat :=
  if s.manager.currentExecutingActions.head? = some act.addr then
    s.manager.currentCommand + (if s.running.isSome then 1 else 0)
  else 0

structure OneshotRuns (s : ActionState) : Prop where
  wellFormed : WellFormed s
  live : ∀ act ∈ s.manager.actions, act.oneshot = true → executedSince act.addr s.log = List.range (s.progress act)
  erased : EachAfter (fun pre ev => ∀ act, ev = .erased act →
    act.oneshot = true ∧ executedSince act.addr pre = List.range act.commands.length)
    s.log

theorem OneshotRuns.init : OneshotRuns {} where
  wellFormed := WellFormed.init
  live := by simp
  erased := eachAfter_nil _

/-- Events other than a command, a creation or an erasure. -/
theorem OneshotRuns.quiet (runs : OneshotRuns st) {ev : Event} (wf : WellFormed post)
    (logged : post.log = st.log ++ [ev])
    (mute : ∀ addr, executedSince addr (st.log ++ [ev]) = executedSince addr st.log)
    (kept : ∀ act, ev ≠ .erased act)
    (eq : ∀ act ∈ post.manager.actions, act.oneshot = true → ∃ old ∈ st.manager.actions,
      old.oneshot = true ∧ old.addr = act.addr ∧ post.progress act = st.progress old) : OneshotRuns post where
  wellFormed := wf
  live := by
    intro act mem once
    obtain ⟨old, live, olderOneshot, addr, progress⟩ := eq act mem once
    rw [logged, mute, ← addr, runs.live old live olderOneshot, progress]
  erased := by
    rw [logged, eachAfter_snoc]
    exact ⟨runs.erased, fun act here => absurd here (kept act)⟩

theorem move_oneshotRuns (runs : OneshotRuns pre) (move : Move pre post) : OneshotRuns post := by
  have wf := runs.wellFormed
  have awf := move_wellFormed wf move
  have noErasure : ∀ {ev : Event}, (∀ act, ev ≠ .erased act) →
      EachAfter (fun pre ev => ∀ act, ev = .erased act →
        act.oneshot = true ∧ executedSince act.addr pre = List.range act.commands.length)
        (pre.log ++ [ev]) := fun kept =>
    eachAfter_snoc.mpr ⟨runs.erased, fun act here => absurd here (kept act)⟩
  cases move with
  | parse _ => exact ⟨awf, runs.live, runs.erased⟩
  | set | push =>
    exact runs.quiet awf rfl (fun _ => by simp [executedSince]) (by simp)
      fun act mem once => ⟨act, mem, once, rfl, rfl⟩
  | create act fresh _ =>
    refine ⟨awf, ?_, noErasure (by simp)⟩
    intro o mem once
    simp only [record_log, executedSince_created]
    rcases mem_append.mp mem with old | new
    · have ne : act.addr ≠ o.addr := fun eq =>
        fresh (eq ▸ mem_map_of_mem old)
      rw [if_neg ne]
      exact runs.live o old once
    · rw [mem_singleton.mp new]
      -- the new action is not executing, as its address is fresh
      have wait : pre.manager.currentExecutingActions.head? ≠ some act.addr := fun head =>
        fresh (wf.alive _ (mem_of_mem_head? head))
      simp [progress, wait]
  | append ft old tl _ here =>
    refine runs.quiet awf rfl (fun _ => by simp [executedSince]) (by simp) ?_
    intro act mem once
    obtain ⟨older, live, addr, eq, -⟩ := mem_append_commands mem
    exact ⟨older, here ▸ live, eq.trans once, addr, by simp [progress, addr]⟩
  | dequeue _ _ ft idle rest =>
    refine runs.quiet awf rfl (fun _ => by simp [executedSince]) (by simp) ?_
    intro act mem once
    refine ⟨act, mem, once, rfl, ?_⟩
    simp [progress, rest, wf.idle idle]
  | execute act tl _ ft mem here rest =>
    refine ⟨awf, ?_, noErasure (by simp)⟩
    intro o live once
    simp only [record_log, executedSince_executed, runs.live o live once]
    by_cases eq : act.addr = o.addr
    · simp [progress, ft, eq, rest, range_succ]
    · simp [progress, ft, eq]
  | advance act hr mem _ =>
    refine ⟨awf, fun o live once => ?_, runs.erased⟩
    rw [runs.live o live once]
    simp [progress, hr]
  | retire act hr mem last keep =>
    have head := wf.running _ hr
    refine runs.quiet awf rfl (fun _ => by simp [executedSince]) (by simp) ?_
    intro o live once
    have ne : act.addr ≠ o.addr := by
      intro eq
      rw [wf.unique mem live eq, once] at keep
      cases keep
    exact ⟨o, live, once, rfl, by simp [progress, head, ne]⟩
  | erase act hr mem last once =>
    have head := wf.running _ hr
    have mute : ∀ addr, executedSince addr (pre.log ++ [.retired act.addr]) =
        executedSince addr pre.log := fun _ => by simp [executedSince]
    have ranAll : executedSince act.addr pre.log = List.range act.commands.length := by
      rw [runs.live act mem once]
      simp [progress, head, hr, last]
    refine ⟨awf, ?_, ?_⟩
    · intro o live otherOneshot
      obtain ⟨otherLive, ne⟩ := filter_addr_mem.mp live
      have none := runs.live o otherLive otherOneshot
      simp only [progress, head, Option.some.injEq, ne.symm] at none
      simpa [executedSince, progress] using none
    · have both : pre.log ++ [Event.retired act.addr, Event.erased act] =
          (pre.log ++ [.retired act.addr]) ++ [.erased act] := by simp
      simp only [record_log]
      rw [both, eachAfter_snoc]
      refine ⟨noErasure (by simp), ?_⟩
      rintro o ⟨⟩
      exact ⟨once, (mute _).trans ranAll⟩

theorem run_oneshotRuns (run : Run (ActionStep fmap) {} ops st) : OneshotRuns st :=
  run_invariant OneshotRuns.init (fun _ _ => move_oneshotRuns) run

/-- In every state of every run, what is executing is alive and in the queue once,
    every action has a command, and the cursor is 0 or inside the front action; so
    every call is defined.  A oneshot action that is alive has run its commands up to
    the cursor, never all of them between calls, and one that is erased has just run
    all of them, each once. -/
theorem action_manager_stays_valid (fmap : Option (KeywordMap BuiltinFunction))
    (ops : List ActionOp) (s : ActionState) (run : Run (ActionStep fmap) {} ops s) :
    (∀ addr ∈ s.manager.currentExecutingActions, ∃ act ∈ s.manager.actions, act.addr = addr) ∧
      s.manager.currentExecutingActions.Nodup ∧
      (s.manager.actions.map Action.addr).Nodup ∧
      (∀ act ∈ s.manager.actions, 1 ≤ act.numCommands) ∧
      (s.manager.currentExecutingActions = [] → s.manager.currentCommand = 0) ∧
      (∀ addr tl, s.manager.currentExecutingActions = addr :: tl →
        ∃ act ∈ s.manager.actions, act.addr = addr ∧ s.manager.currentCommand < act.numCommands) ∧
      (∀ op : ActionOp, op.Allowed s → (op.exec fmap s).isSome) ∧
      (∀ act ∈ s.manager.actions, act.oneshot = true →
        executedSince act.addr s.log = List.range (s.progress act) ∧
          (s.running = none → s.progress act < act.numCommands)) ∧
      (∀ pre act post, s.log = pre ++ .erased act :: post →
        act.oneshot = true ∧ executedSince act.addr pre = List.range act.numCommands) := by
  have runs := run_oneshotRuns run
  have wf := runs.wellFormed
  refine ⟨?_, wf.once, wf.distinct, ?_, wf.idle, ?_, exec_defined wf,
    ?_, fun pre act post split => runs.erased pre _ post split act rfl⟩
  · intro addr member
    obtain ⟨act, live, same⟩ := mem_map.mp (wf.alive addr member)
    exact ⟨act, live, same⟩
  · intro act live
    exact length_pos_iff.mpr (wf.nonempty act live)
  · intro addr tl executing
    exact wf.front (by rw [executing]; rfl)
  · intro act live oneshot
    refine ⟨runs.live act live oneshot, fun resting => ?_⟩
    unfold progress
    split
    · rename_i head
      simpa [resting, Action.numCommands] using wf.inside act live head
    · exact length_pos_iff.mpr (wf.nonempty act live)

def bootOps : List ActionOp :=
  [.parseSection 1 [ascii "on", ascii "boot"], .parseLineSection [ascii "trigger", ascii "late"] (ascii "init.rc") 2,
    .endSection, .queueEventTrigger (ascii "boot"), .queueBuiltinAction 2 .consoleInitAction (ascii "console_init"),
    .beginCommand, .queueEventTrigger (ascii "late"), .endCommand, .beginCommand]

def bootFunctionMap : Option (KeywordMap BuiltinFunction) :=
  some [(ascii "trigger", 1, 1, .builtin (ascii "trigger"))]

theorem action_manager_stays_valid_boot :
    ∃ st, Run (ActionStep bootFunctionMap) {} bootOps st ∧ st.running = some 2 ∧
      (ActionOp.endCommand.exec bootFunctionMap st).isSome := by
  obtain ⟨st, ran, running⟩ : ∃ st, runLabels ActionOp.Allowed (ActionOp.exec bootFunctionMap) {} bootOps = some st ∧
        st.running = some 2 :=
    Option.map_eq_some_iff.mp (by decide)
  have run := run_of_runLabels ran
  have valid := action_manager_stays_valid bootFunctionMap bootOps st run
  exact ⟨st, run, running, valid.2.2.2.2.2.2.1 .endCommand (by simp [ActionOp.Allowed, running])⟩

end Aosp.Init
