import Aosp.Init.ActionInvariant

/-! # The order in which commands are executed

`Schedule` says what the manager is for, as an abstract scheduler driven by the
log: a dequeued trigger puts one job in line for each action that matches it, in
the order of `actions_`; commands appended to an action go to all its jobs that
are not finished; jobs finish in line.  The commands that were executed are those
of the finished jobs and the first few of the job at the front
(`commands_follow_schedule`).
-/

namespace Aosp.Init

open Aosp.Lib List ActionState ActionManager Aosp.Init.Action

/-! ## What the log says -/

/-- A trigger taken from the queue, with the state it was checked against. -/
structure Round where
  trigger : Trigger
  actions : List Action
  getProperty : Bytes → Bytes

def Round.matched (round : Round) : List Action :=
  matching round.getProperty round.actions round.trigger

def queuedTriggers (log : List Event) : List Trigger :=
  log.filterMap fun ev => match ev with
    | .queued trg => some trg
    | _ => none

def rounds (log : List Event) : List Round :=
  log.filterMap fun ev => match ev with
    | .dequeued trg actions gp => some ⟨trg, actions, gp⟩
    | _ => none

def executedCommands (log : List Event) : List Command :=
  log.filterMap fun ev => match ev with
    | .executed _ _ command => some command
    | _ => none

theorem queuedTriggers_append (ea late : List Event) :
    queuedTriggers (ea ++ late) = queuedTriggers ea ++ queuedTriggers late :=
  filterMap_append

theorem rounds_append (ea late : List Event) : rounds (ea ++ late) = rounds ea ++ rounds late :=
  filterMap_append

theorem executedCommands_append (ea late : List Event) :
    executedCommands (ea ++ late) = executedCommands ea ++ executedCommands late :=
  filterMap_append

/-! ## The abstract scheduler -/

/-- One match of an action: where it lives and the commands it has to run. -/
structure Job where
  addr : Nat
  commands : List Command

def Action.job (act : Action) : Job := ⟨act.addr, act.commands⟩

def Job.extend (addr : Nat) (cmds : List Command) (job : Job) : Job :=
  if job.addr = addr then { job with commands := job.commands ++ cmds } else job

@[simp] theorem Job.extend_addr (addr : Nat) (cmds : List Command) (job : Job) :
    (job.extend addr cmds).addr = job.addr := by
  unfold Job.extend
  split <;> rfl

structure Schedule where
  finished : List Job := []
  waiting : List Job := []

def Schedule.step (schedule : Schedule) : Event → Schedule
  | .dequeued trg actions gp =>
    { schedule with
      waiting := schedule.waiting ++ (Round.mk trg actions gp).matched.map job }
  | .appended addr cmds =>
    { schedule with waiting := schedule.waiting.map (Job.extend addr cmds) }
  | .retired _ =>
    { finished := schedule.finished ++ schedule.waiting.take 1, waiting := schedule.waiting.drop 1 }
  | _ => schedule

open Schedule

def schedule (log : List Event) : Schedule := log.foldl step {}

theorem schedule_snoc (log : List Event) (ev : Event) : schedule (log ++ [ev]) = (schedule log).step ev := by
  simp [schedule]

def Schedule.current (schedule : Schedule) : List Command :=
  match schedule.waiting with
  | [] => []
  | job :: _ => job.commands

def ActionState.called (s : ActionState) : Nat :=
  s.manager.currentCommand + (if s.running.isSome then 1 else 0)

/-! ## The manager follows the schedule -/

structure Scheduled (s : ActionState) : Prop where
  wellFormed : WellFormed s
  fifo : queuedTriggers s.log = (rounds s.log).map Round.trigger ++ s.manager.triggerQueue
  inLine : ((schedule s.log).finished ++ (schedule s.log).waiting).map Job.addr =
    (rounds s.log).flatMap fun round => round.matched.map addr
  executing : (schedule s.log).waiting.map Job.addr = s.manager.currentExecutingActions
  commands : ∀ job ∈ (schedule s.log).waiting, ∃ act ∈ s.manager.actions, job = act.job
  executed : executedCommands s.log = (schedule s.log).finished.flatMap Job.commands ++
    (schedule s.log).current.take s.called

theorem Scheduled.init : Scheduled {} where
  wellFormed := WellFormed.init
  fifo := rfl
  inLine := rfl
  executing := rfl
  commands := by simp [schedule]
  executed := rfl

variable {pre post s : ActionState} {act : Action}

theorem Scheduled.quiet (queue : Scheduled pre) {ev : Event} (wf : WellFormed post)
    (logged : post.log = pre.log ++ [ev]) (noRound : rounds [ev] = [])
    (noCommand : executedCommands [ev] = []) (noStep : ∀ s : Schedule, s.step ev = s)
    (que : post.manager.triggerQueue = pre.manager.triggerQueue ++ queuedTriggers [ev])
    (after : post.manager.currentExecutingActions = pre.manager.currentExecutingActions)
    (isAfter : post.called = pre.called)
    (acts : ∀ act ∈ pre.manager.actions, act ∈ post.manager.actions) : Scheduled post := by
  have sameRounds : rounds post.log = rounds pre.log := by
    rw [logged, rounds_append, noRound, append_nil]
  have same : executedCommands post.log = executedCommands pre.log := by
    rw [logged, executedCommands_append, noCommand, append_nil]
  have sameSchedule : schedule post.log = schedule pre.log := by
    rw [logged, schedule_snoc, noStep]
  refine ⟨wf, ?_, ?_, ?_, ?_, ?_⟩
  · rw [logged, queuedTriggers_append, queue.fifo, ← logged, sameRounds, que, append_assoc]
  · rw [sameSchedule, sameRounds]
    exact queue.inLine
  · rw [sameSchedule, after]
    exact queue.executing
  · intro job mem
    rw [sameSchedule] at mem
    obtain ⟨act, live, eq⟩ := queue.commands job mem
    exact ⟨act, acts act live, eq⟩
  · rw [same, sameSchedule, isAfter]
    exact queue.executed

theorem Scheduled.front (queue : Scheduled s) (mem : act ∈ s.manager.actions)
    (head : s.manager.currentExecutingActions.head? = some act.addr) :
    ∃ tl, (schedule s.log).waiting = act.job :: tl := by
  have runs := queue.executing
  cases wait : (schedule s.log).waiting with
  | nil =>
    rw [wait] at runs
    simp [← runs] at head
  | cons job tl =>
    rw [wait] at runs
    obtain ⟨o, live, rfl⟩ := queue.commands job (by simp [wait])
    have eq : o.addr = act.addr := by
      simpa [← runs, job] using head
    rw [queue.wellFormed.unique live mem eq]
    exact ⟨tl, rfl⟩

theorem Scheduled.append (queue : Scheduled pre) (wf : WellFormed post) {ea late : List Action}
    {old : Action} {cmds : List Command} (here : pre.manager.actions = ea ++ old :: late)
    (after_ : post = { pre with manager := { pre.manager with
      actions := ea ++ { old with commands := old.commands ++ cmds } :: late } }.record
        [.appended old.addr cmds]) : Scheduled post := by
  subst after_
  have stepped : schedule (pre.log ++ [.appended old.addr cmds]) = ⟨(schedule pre.log).finished,
      (schedule pre.log).waiting.map _⟩ := schedule_snoc ..
  refine ⟨wf, by simpa [queuedTriggers, rounds] using queue.fifo,
    by simpa [stepped, rounds, Function.comp_def] using queue.inLine,
    by simpa [stepped, Function.comp_def] using queue.executing, ?_, ?_⟩
  · intro job mem
    rw [record_log, stepped] at mem
    obtain ⟨older, olderMember, rfl⟩ := mem_map.mp mem
    obtain ⟨act, live, rfl⟩ := queue.commands older olderMember
    by_cases eq : act.addr = old.addr
    · -- the job is one of the extended action
      have isOld : act = old := queue.wellFormed.unique live (by simp [here]) eq
      refine ⟨{ old with commands := old.commands ++ cmds }, by simp, ?_⟩
      simp [Job.extend, job, isOld]
    · refine ⟨act, ?_, by simp [Job.extend, job, eq]⟩
      rw [here, mem_append, mem_cons] at live
      simp only [record_manager, mem_append]
      tauto
  · have same : executedCommands (pre.log ++ [.appended old.addr cmds]) = executedCommands pre.log := by
      simp [executedCommands]
    rw [record_log, same, queue.executed, stepped]
    congr 1
    cases wait : (schedule pre.log).waiting with
    | nil => simp [current, wait]
    | cons job _ =>
      obtain ⟨act, live, rfl⟩ := queue.commands job (by simp [wait])
      have head : pre.manager.currentExecutingActions.head? = some act.addr := by
        rw [← queue.executing, wait]
        rfl
      -- what was called so far are commands the action had before
      have hi : pre.called ≤ act.commands.length := by
        have cap := queue.wellFormed.inside act live head
        unfold called
        split <;> omega
      simp only [current, wait, map_cons]
      unfold Job.extend
      split
      · exact (take_append_of_le_length hi).symm
      · rfl

theorem Scheduled.pop (queue : Scheduled pre) (wf : WellFormed post)
    (mem : act ∈ pre.manager.actions) (hr : pre.running = some act.addr)
    (last : pre.manager.currentCommand + 1 = act.commands.length)
    (rest : ∀ o ∈ pre.manager.actions, o.addr ≠ act.addr → o ∈ post.manager.actions)
    (logged : schedule post.log = (schedule pre.log).step (.retired act.addr))
    (sameRounds : rounds post.log = rounds pre.log) (sameQueued : queuedTriggers post.log = queuedTriggers pre.log)
    (same : executedCommands post.log = executedCommands pre.log)
    (que : post.manager.triggerQueue = pre.manager.triggerQueue)
    (tail : post.manager.currentExecutingActions = pre.manager.currentExecutingActions.tail)
    (after : post.called = 0) : Scheduled post := by
  obtain ⟨tl, wait⟩ := queue.front mem (queue.wellFormed.running _ hr)
  have stepped : schedule post.log = ⟨(schedule pre.log).finished ++ [act.job], tl⟩ := by
    rw [logged]
    simp [step, wait]
  refine ⟨wf, ?_, ?_, ?_, ?_, ?_⟩
  · rw [sameQueued, sameRounds, que]
    exact queue.fifo
  · rw [stepped, sameRounds, ← queue.inLine, wait]
    simp
  · rw [stepped, tail, ← queue.executing, wait]
    rfl
  · intro job inTail
    rw [stepped] at inTail
    obtain ⟨o, live, rfl⟩ := queue.commands job (by
      rw [wait]
      exact mem_cons_of_mem _ inTail)
    refine ⟨o, rest o live ?_, rfl⟩
    -- an action is in line once
    intro eq
    have once := queue.wellFormed.once
    rw [← queue.executing, wait, map_cons, nodup_cons] at once
    exact once.1 (mem_map.mpr ⟨o.job, inTail, eq⟩)
  · have all : pre.called = act.commands.length := by
      simp [called, hr, last]
    rw [same, queue.executed, stepped, after]
    simp [current, wait, all, job]

theorem move_scheduled (queue : Scheduled pre) (move : Move pre post) : Scheduled post := by
  have wf := move_wellFormed queue.wellFormed move
  cases move with
  | parse _ => exact { queue with wellFormed := wf }
  | set =>
    exact queue.quiet wf rfl rfl rfl (fun _ => rfl) (append_nil _).symm rfl rfl fun _ live => live
  | push =>
    exact queue.quiet wf rfl rfl rfl (fun _ => rfl) rfl rfl rfl fun _ live => live
  | create act _ _ =>
    exact queue.quiet wf rfl rfl rfl (fun _ => rfl) (append_nil _).symm rfl rfl
      fun _ live => mem_append_left _ live
  | append _ _ _ _ here => exact queue.append wf here rfl
  | dequeue trig _ ft idle rest =>
    -- nothing is in line, so the new jobs are the whole line
    have emp : (schedule pre.log).waiting = [] := by
      have runs := queue.executing
      rw [idle] at runs
      exact map_eq_nil_iff.mp runs
    have stepped : schedule (pre.log ++ [.dequeued trig pre.manager.actions pre.getProperty]) =
        ⟨(schedule pre.log).finished, (matching pre.getProperty pre.manager.actions trig).map job⟩ := by
      simp [schedule_snoc, step, emp, Round.matched]
    have fifo := queue.fifo
    have inLine := queue.inLine
    have ran := queue.executed
    rw [ft] at fifo
    rw [emp] at inLine
    refine ⟨wf, by simpa [queuedTriggers, rounds] using fifo, ?_, ?_, ?_, ?_⟩
    · rw [record_log, stepped, rounds_append, flatMap_append, ← inLine]
      simp [rounds, Round.matched, job]
    · rw [record_log, stepped]
      simp [job]
    · intro job mem
      rw [record_log, stepped] at mem
      obtain ⟨act, fits, rfl⟩ := mem_map.mp mem
      exact ⟨act, (mem_filter.mp fits).1, rfl⟩
    · rw [record_log, stepped, executedCommands_append, ran]
      simp [called, rest, queue.wellFormed.idle idle, executedCommands]
  | execute act _ cmd ft mem here rest =>
    have stepped : schedule (pre.log ++
        [.executed act.addr pre.manager.currentCommand cmd]) = schedule pre.log := schedule_snoc ..
    obtain ⟨_, wait⟩ := queue.front mem (by rw [ft]; rfl)
    refine ⟨wf, by simpa [queuedTriggers, rounds] using queue.fifo,
      by simpa [stepped, rounds] using queue.inLine, by simpa [stepped] using queue.executing,
      by simpa [stepped] using queue.commands, ?_⟩
    · rw [record_log, executedCommands_append, stepped, queue.executed]
      simp [current, wait, called, rest, executedCommands, job, take_add_one, here]
  | advance act hr mem _ =>
    have call : pre.called = pre.manager.currentCommand + 1 := by
      simp [called, hr]
    have ran := queue.executed
    rw [call] at ran
    exact { queue with wellFormed := wf, executed := ran }
  | retire act hr mem last _ =>
    exact queue.pop wf mem hr last (fun _ live _ => live) (schedule_snoc _ _)
      (by simp [rounds]) (by simp [queuedTriggers]) (by simp [executedCommands]) rfl rfl rfl
  | erase act hr mem last _ =>
    refine queue.pop wf mem hr last
      (fun o live ne => filter_addr_mem.mpr ⟨live, ne⟩) ?_ (by simp [rounds])
      (by simp [queuedTriggers]) (by simp [executedCommands]) rfl rfl rfl
    simp [schedule, step]

theorem run_scheduled {fmap : Option (KeywordMap BuiltinFunction)} {ops : List ActionOp}
    (run : Run (ActionStep fmap) {} ops s) : Scheduled s :=
  run_invariant Scheduled.init (fun _ _ => move_scheduled) run

/-! ## Progress -/

/-- The loop over the trigger queue gives up only when the queue is empty. -/
theorem dequeue_exhausts (gp : Bytes → Bytes) (acts : List Action) (que : List Trigger)
    (nt : (dequeue gp acts que).2.1 = []) : (dequeue gp acts que).2.2 = [] := by
  induction que with
  | nil => rfl
  | cons _ que ih =>
    unfold dequeue at nt ⊢
    split at nt
    · exact ih nt
    · cases nt

/-- `ExecuteOneCommand` calls a command unless nothing is left to do. -/
theorem beginCommand_progress (wf : WellFormed s) (rest : s.running = none) :
    ∃ post, s.beginCommand = some post ∧ (post.running = none → post.manager.hasMoreCommands = false) := by
  obtain ⟨post, start⟩ := Option.isSome_iff_exists.mp (beginCommand_defined wf rest)
  refine ⟨post, start, fun stillResting => ?_⟩
  unfold beginCommand at start
  dsimp only at start
  split at start
  · rename_i nt
    cases start
    -- the loop ended without a match
    cases runs : s.manager.currentExecutingActions with
    | cons _ _ => simp [dequeueTriggers, runs] at nt
    | nil =>
      simp only [dequeueTriggers, runs, map_eq_nil_iff] at nt
      have exhausted := dequeue_exhausts _ _ _ nt
      simp [hasMoreCommands, dequeueTriggers, runs, nt, exhausted]
  · split at start
    · cases start
    · cases start
      cases stillResting

/-- In every state of every run, triggers have left the queue in the order in which
    they were queued; the jobs, finished and in line, are the actions that matched
    each of them when it was dequeued, in the order of `actions_`; the line is what
    is executing; and the commands called are all those of the finished jobs and the
    first ones of the front job, appended commands included.  The next
    `ExecuteOneCommand` calls a command unless nothing is left to do. -/
theorem commands_follow_schedule (fmap : Option (KeywordMap BuiltinFunction))
    (ops : List ActionOp) (s : ActionState) (run : Run (ActionStep fmap) {} ops s) :
    queuedTriggers s.log = (rounds s.log).map Round.trigger ++ s.manager.triggerQueue ∧
      ((schedule s.log).finished ++ (schedule s.log).waiting).map Job.addr =
        ((rounds s.log).flatMap fun round => round.matched.map addr) ∧
      (schedule s.log).waiting.map Job.addr = s.manager.currentExecutingActions ∧
      executedCommands s.log = (schedule s.log).finished.flatMap Job.commands ++
        (schedule s.log).current.take s.called ∧ s.called ≤ (schedule s.log).current.length ∧
      (s.running = none → ∃ post, ActionOp.beginCommand.exec fmap s = some post ∧
        (post.running = none → post.manager.hasMoreCommands = false)) := by
  have scheduled := run_scheduled run
  refine ⟨scheduled.fifo, scheduled.inLine, scheduled.executing, scheduled.executed, ?_,
    beginCommand_progress scheduled.wellFormed⟩
  cases executing : s.manager.currentExecutingActions with
  | nil =>
    have resting : s.running = none := by
      by_contra running
      obtain ⟨addr, here⟩ := Option.ne_none_iff_exists'.mp running
      simpa [executing] using scheduled.wellFormed.running addr here
    simp [called, resting, scheduled.wellFormed.idle executing]
  | cons addr _ =>
    have head : s.manager.currentExecutingActions.head? = some addr := by
      rw [executing]
      rfl
    obtain ⟨_, live, rfl, _⟩ := scheduled.wellFormed.front head
    obtain ⟨_, waiting⟩ := scheduled.front live head
    simp only [current, waiting, job]
    unfold called
    split <;> omega

theorem commands_follow_schedule_boot :
    ∃ s, Run (ActionStep bootFunctionMap) {} bootOps s ∧
      executedCommands s.log = (schedule s.log).finished.flatMap Job.commands ++ (schedule s.log).current.take 1 ∧
      (schedule s.log).waiting.map Job.addr = [2] := by
  obtain ⟨s, ran, called, executing⟩ : ∃ s,
      runLabels ActionOp.Allowed (ActionOp.exec bootFunctionMap) {} bootOps = some s ∧
        s.called = 1 ∧ s.manager.currentExecutingActions = [2] := by
    refine ⟨_, rfl, ?_, ?_⟩ <;> decide
  have run := run_of_runLabels ran
  have follows := commands_follow_schedule bootFunctionMap bootOps s run
  exact ⟨s, run, called ▸ follows.2.2.2.1, executing ▸ follows.2.2.1⟩

end Aosp.Init
