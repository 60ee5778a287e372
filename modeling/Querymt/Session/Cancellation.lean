/-
`Session/Cancellation.lean` -- which prompt tasks a `Cancel` reaches.

Mirrors the turn bookkeeping of `agent/session_actor.rs`: the handlers of `Prompt`,
`ScheduledPrompt`, `Cancel` and `PromptFinished`, and the two waits for the
execution permit in `execute_prompt_detached`. A prompt is accepted while another
one runs; its task shares the actor's current token and waits for the permit.

The actor keeps one token and one generation, those of the newest prompt. A
`PromptFinished` of the newest prompt resets the token, also when the newest task
gave up waiting and an older one is still executing: from then on a `Cancel` reaches
the new token only, and `prompt_running` says that nothing runs. This is the only
way in which the bookkeeping fails, and the file proves it.
-/
import Mathlib
import Querymt.Library.Runs

set_option autoImplicit false

open Runs

namespace Querymt.Session

/-! ## 1. The actor and its detached tasks -/

/-- The identity of a `CancellationToken`; its clones share it. -/
abbrev CancellationToken := ℕ

inductive ExecutionOrigin where
  | Interactive
  | Scheduled (schedule_public_id : String)
  deriving DecidableEq

/-- Where a detached task is in `execute_prompt_detached`. -/
inductive TaskPhase where
  /-- the first wait for the permit, 100 ms -/
  | AcquiringPermit
  /-- the second wait, `execution_timeout_secs` -/
  | Queued
  | Executing
  | Ended
  deriving DecidableEq

structure PromptTask where
  execution_origin : ExecutionOrigin
  cancel_token : CancellationToken
  prompt_generation : ℕ
  phase : TaskPhase
  deriving DecidableEq

structure TurnState where
  generation : ℕ
  token : CancellationToken
  deriving DecidableEq

inductive AgentEventKind where
  | Cancelled
  | SessionQueued (reason : String)
  | ScheduledExecutionCompleted (schedule_public_id turn_id : String)
  | ScheduledExecutionFailed (schedule_public_id : String) (turn_id : Option String)
      (error : String)
  deriving DecidableEq

/-- The session actor, with the tasks it spawned (in the order of acceptance), the
`PromptFinished` messages on their way to it and the events emitted so far. -/
structure SessionActor where
  session_id : String
  execution_timeout_secs : ℕ
  turn_state : TurnState
  prompt_running : Bool
  cancelled : List CancellationToken
  next_token : CancellationToken
  tasks : List PromptTask
  finished : List ℕ
  events : List AgentEventKind

/-- `acquire_execution_permit_with_timeout`; `Closed` is its error. -/
inductive PermitWaitOutcome where
  | Acquired
  | TimedOut
  | Cancelled
  | Closed
  deriving DecidableEq

/-- One step of the system: a message the actor handles, or progress of the task with
the given number. `turn_id` is the uuid a scheduled task draws when it ends. -/
inductive Input where
  | Prompt
  | ScheduledPrompt (schedule_public_id : String)
  | Cancel
  | PromptFinished (generation : ℕ)
  | PermitWait (task : ℕ) (outcome : PermitWaitOutcome) (turn_id : String)
  | Returns (task : ℕ) (turn_id : String) (result : Except String Unit)

/-- `u64::saturating_add(1)`. -/
def saturating_succ (n : ℕ) : ℕ := min (n + 1) (2 ^ 64 - 1)

namespace SessionActor

/-- `SessionActor::new`. -/
def new (session_id : String) (execution_timeout_secs : ℕ) : SessionActor where
  session_id := session_id
  execution_timeout_secs := execution_timeout_secs
  turn_state := ⟨0, 0⟩
  prompt_running := false
  cancelled := []
  next_token := 1
  tasks := []
  finished := []
  events := []

variable (s : SessionActor)

def is_cancelled (token : CancellationToken) : Bool := decide (token ∈ s.cancelled)

/-- `self.turn_state.token = CancellationToken::new()`. -/
def reset_token : SessionActor :=
  { s with
    turn_state := ⟨s.turn_state.generation, s.next_token⟩
    next_token := s.next_token + 1 }

/-- The turn bookkeeping that `Prompt` and `ScheduledPrompt` share. -/
def begin_turn : SessionActor :=
  let s1 : SessionActor :=
    { s with
      prompt_running := true
      turn_state := ⟨saturating_succ s.turn_state.generation, s.turn_state.token⟩ }
  if s.is_cancelled s.turn_state.token then s1.reset_token else s1

/-- `Message<Prompt>` and `Message<ScheduledPrompt>`. -/
def handle_prompt (execution_origin : ExecutionOrigin) : SessionActor :=
  let s1 := s.begin_turn
  { s1 with
    tasks := s1.tasks ++
      [⟨execution_origin, s1.turn_state.token, s1.turn_state.generation, .AcquiringPermit⟩] }

/-- `Message<Cancel>`. -/
def handle_cancel : SessionActor :=
  { s with
    cancelled := s.turn_state.token :: s.cancelled
    events := s.events ++ [.Cancelled] }

/-- `Message<PromptFinished>`. -/
def handle_prompt_finished (generation : ℕ) : SessionActor :=
  if generation ≠ s.turn_state.generation then s
  else { s with prompt_running := false }.reset_token

/-- The one permit of the session is free. -/
def permit_free : Bool := s.tasks.all fun task => decide (task.phase ≠ .Executing)

def set_phase (i : ℕ) (task : PromptTask) (phase : TaskPhase) : SessionActor :=
  { s with tasks := s.tasks.set i { task with phase := phase } }

/-- The terminal event of a scheduled task. -/
def terminal_event (task : PromptTask) (turn_id : String) (result : Except String Unit) :
    List AgentEventKind :=
  match task.execution_origin, result with
  | .Interactive, _ => []
  | .Scheduled schedule_public_id, .ok () =>
      [.ScheduledExecutionCompleted schedule_public_id turn_id]
  | .Scheduled schedule_public_id, .error error =>
      [.ScheduledExecutionFailed schedule_public_id none error]

/-- The end of a detached task: its terminal event, and `PromptFinished` to the actor. -/
def finish (i : ℕ) (task : PromptTask) (turn_id : String) (result : Except String Unit) :
    SessionActor :=
  let s1 := s.set_phase i task .Ended
  { s1 with
    events := s1.events ++ terminal_event task turn_id result
    finished := s1.finished ++ [task.prompt_generation] }

/-- `AgentError::SessionTimeout`. -/
def session_timeout : String :=
  "session execution timeout: session_id=" ++ s.session_id ++ ", timeout=" ++
    toString s.execution_timeout_secs ++ "s"

/-- A wait for the permit ends. The select takes a branch only when it is ready: the
permit is free, or the task's token is cancelled. -/
def permit_wait (i : ℕ) (task : PromptTask) (outcome : PermitWaitOutcome) (turn_id : String) :
    SessionActor :=
  if task.phase = .AcquiringPermit ∨ task.phase = .Queued then
    match outcome with
    | .Acquired => if s.permit_free then s.set_phase i task .Executing else s
    | .Cancelled => if s.is_cancelled task.cancel_token then s.finish i task turn_id (.ok ()) else s
    | .Closed => s.finish i task turn_id (.error "session semaphore closed")
    | .TimedOut =>
        if task.phase = .AcquiringPermit then
          let s1 := s.set_phase i task .Queued
          { s1 with
            events := s1.events ++ [.SessionQueued "waiting for previous operation to complete"] }
        else s.finish i task turn_id (.error s.session_timeout)
  else s

end SessionActor

/-- A message is handled only if it was sent, and a task makes progress only if it
exists and has not ended; other inputs change nothing. -/
def step (s : SessionActor) : Input → SessionActor
  | .Prompt => s.handle_prompt .Interactive
  | .ScheduledPrompt schedule_public_id => s.handle_prompt (.Scheduled schedule_public_id)
  | .Cancel => s.handle_cancel
  | .PromptFinished generation =>
      if generation ∈ s.finished then
        { s with finished := s.finished.erase generation }.handle_prompt_finished generation
      else s
  | .PermitWait i outcome turn_id =>
      match s.tasks[i]? with
      | some task => s.permit_wait i task outcome turn_id
      | none => s
  | .Returns i turn_id result =>
      match s.tasks[i]? with
      | some task => if task.phase = .Executing then s.finish i task turn_id result else s
      | none => s

/-! ## 2. The laws and the condition -/

/-- Every task that has not ended holds a cancelled token. -/
def Reached (s : SessionActor) : Prop :=
  ∀ task ∈ s.tasks, task.phase ≠ .Ended → task.cancel_token ∈ s.cancelled

/-- `prompt_running` is false only if every task has ended. -/
def FlagRight (s : SessionActor) : Prop :=
  s.prompt_running = false → ∀ task ∈ s.tasks, task.phase = .Ended

/-- **The law of one step.** A `Cancel` reaches every task that has not ended, and the
flag is right after every step. -/
def CancelReaches (s : SessionActor) (i : Input) : Prop :=
  (match i with
    | .Cancel => Reached (step s i)
    | _ => True) ∧ FlagRight (step s i)

/-- **The law of later tasks.** No task accepted after a `Cancel` holds the token that
this `Cancel` cancelled. -/
def LaterTasksFresh (s : SessionActor) (inputs : List Input) : Prop :=
  ∀ done later, inputs = done ++ .Cancel :: later →
    ∀ task ∈ (run step s inputs).tasks.drop (run step s done).tasks.length,
      task.cancel_token ≠ (run step s done).turn_state.token

/-- **The condition.** A `PromptFinished` of the current generation is handled after
all accepted tasks have ended. -/
def NewestLast (s : SessionActor) (i : Input) : Prop :=
  match i with
  | .PromptFinished generation => generation ∈ s.finished →
      generation = s.turn_state.generation → ∀ task ∈ s.tasks, task.phase = .Ended
  | _ => True

/-! ## 3. What a step does

Progress of a task leaves the actor alone; what the handlers do to the tasks is to
accept one at the end of the list. -/

/-- The tokens of the accepted tasks, in the order of acceptance. -/
def SessionActor.tokens (s : SessionActor) : List CancellationToken :=
  s.tasks.map PromptTask.cancel_token

/-- Progress of a task: the actor's fields and the tokens stay, and no task that has
ended goes on. -/
structure TaskProgress (s s' : SessionActor) : Prop where
  turn_state : s'.turn_state = s.turn_state
  prompt_running : s'.prompt_running = s.prompt_running
  cancelled : s'.cancelled = s.cancelled
  next_token : s'.next_token = s.next_token
  tokens : s'.tokens = s.tokens
  tasks : ∀ task' ∈ s'.tasks, task'.phase ≠ .Ended →
    ∃ task ∈ s.tasks, task.phase ≠ .Ended ∧ task.cancel_token = task'.cancel_token

theorem TaskProgress.refl (s : SessionActor) : TaskProgress s s :=
  ⟨rfl, rfl, rfl, rfl, rfl, fun task htask hphase => ⟨task, htask, hphase, rfl⟩⟩

/-- What the queue of messages and the event log hold does not matter here. -/
theorem TaskProgress.with_outputs {s s' : SessionActor} (h : TaskProgress s s')
    (finished : List ℕ) (events : List AgentEventKind) :
    TaskProgress s { s' with finished := finished, events := events } :=
  ⟨h.turn_state, h.prompt_running, h.cancelled, h.next_token, h.tokens, h.tasks⟩

theorem taskProgress_set_phase {s : SessionActor} {i : ℕ} {task : PromptTask}
    (hi : s.tasks[i]? = some task) (hphase : task.phase ≠ .Ended) (phase : TaskPhase) :
    TaskProgress s (s.set_phase i task phase) := by
  have htask : task ∈ s.tasks := List.mem_of_getElem? hi
  refine ⟨rfl, rfl, rfl, rfl, ?_, ?_⟩
  · -- the token at position `i` is written back as it was
    have hget : s.tokens[i]? = some task.cancel_token := by
      rw [SessionActor.tokens, List.getElem?_map, hi]
      rfl
    obtain ⟨hlt, heq⟩ := List.getElem?_eq_some_iff.1 hget
    rw [SessionActor.tokens, SessionActor.set_phase, List.map_set, ← heq]
    exact List.set_getElem_self hlt
  · intro task' htask' hphase'
    rcases List.mem_or_eq_of_mem_set htask' with hmem | rfl
    · exact ⟨task', hmem, hphase', rfl⟩
    · exact ⟨task, htask, hphase, rfl⟩

theorem taskProgress_finish {s : SessionActor} {i : ℕ} {task : PromptTask}
    (hi : s.tasks[i]? = some task) (hphase : task.phase ≠ .Ended) (turn_id : String)
    (result : Except String Unit) : TaskProgress s (s.finish i task turn_id result) :=
  (taskProgress_set_phase hi hphase .Ended).with_outputs _ _

theorem taskProgress_permit_wait {s : SessionActor} {i : ℕ} {task : PromptTask}
    (hi : s.tasks[i]? = some task) (outcome : PermitWaitOutcome) (turn_id : String) :
    TaskProgress s (s.permit_wait i task outcome turn_id) := by
  unfold SessionActor.permit_wait
  by_cases hwait : task.phase = .AcquiringPermit ∨ task.phase = .Queued
  · have hphase : task.phase ≠ .Ended := by
      rcases hwait with h | h <;> rw [h] <;> decide
    rw [if_pos hwait]
    rcases outcome with _ | _ | _ | _
    · -- acquired
      dsimp only
      split
      · exact taskProgress_set_phase hi hphase .Executing
      · exact TaskProgress.refl s
    · -- timed out
      dsimp only
      split
      · exact (taskProgress_set_phase hi hphase .Queued).with_outputs _ _
      · exact taskProgress_finish hi hphase turn_id _
    · -- cancelled
      dsimp only
      split
      · exact taskProgress_finish hi hphase turn_id _
      · exact TaskProgress.refl s
    · exact taskProgress_finish hi hphase turn_id _
  · rw [if_neg hwait]
    exact TaskProgress.refl s

/-- **The step, taken apart.** -/
theorem step_cases (s : SessionActor) (i : Input) :
    (∃ origin, step s i = s.handle_prompt origin ∧ i ≠ .Cancel) ∨
    (i = .Cancel ∧ step s i = s.handle_cancel) ∨
    (∃ generation, i = .PromptFinished generation ∧ generation ∈ s.finished ∧
      generation = s.turn_state.generation ∧ step s i =
        { s with prompt_running := false, finished := s.finished.erase generation }.reset_token) ∨
    (i ≠ .Cancel ∧ TaskProgress s (step s i)) := by
  rcases i with _ | id | _ | generation | ⟨i, outcome, turn_id⟩ | ⟨i, turn_id, result⟩
  · exact Or.inl ⟨.Interactive, rfl, by simp⟩
  · exact Or.inl ⟨.Scheduled id, rfl, by simp⟩
  · exact Or.inr (Or.inl ⟨rfl, rfl⟩)
  · by_cases hmem : generation ∈ s.finished
    · by_cases hgen : generation = s.turn_state.generation
      · refine Or.inr (Or.inr (Or.inl ⟨generation, rfl, hmem, hgen, ?_⟩))
        rw [step, if_pos hmem, SessionActor.handle_prompt_finished, if_neg (not_not.2 hgen)]
      · -- a stale generation is ignored
        refine Or.inr (Or.inr (Or.inr ⟨by simp, ?_⟩))
        rw [step, if_pos hmem, SessionActor.handle_prompt_finished, if_pos hgen]
        exact (TaskProgress.refl s).with_outputs _ _
    · refine Or.inr (Or.inr (Or.inr ⟨by simp, ?_⟩))
      rw [step, if_neg hmem]
      exact TaskProgress.refl s
  · refine Or.inr (Or.inr (Or.inr ⟨by simp, ?_⟩))
    rw [step]
    split
    · next task hi => exact taskProgress_permit_wait hi outcome turn_id
    · exact TaskProgress.refl s
  · refine Or.inr (Or.inr (Or.inr ⟨by simp, ?_⟩))
    rw [step]
    split
    · next task hi =>
        split
        · next hphase => exact taskProgress_finish hi (by rw [hphase]; decide) turn_id result
        · exact TaskProgress.refl s
    · exact TaskProgress.refl s

theorem begin_turn_tasks (s : SessionActor) : s.begin_turn.tasks = s.tasks := by
  rw [SessionActor.begin_turn]
  split <;> rfl

theorem begin_turn_cancelled (s : SessionActor) : s.begin_turn.cancelled = s.cancelled := by
  rw [SessionActor.begin_turn]
  split <;> rfl

theorem begin_turn_prompt_running (s : SessionActor) : s.begin_turn.prompt_running = true := by
  rw [SessionActor.begin_turn]
  split <;> rfl

/-- The token of a new turn: the current one, or a new one if that was cancelled. -/
theorem begin_turn_token (s : SessionActor) :
    (s.turn_state.token ∉ s.cancelled ∧ s.begin_turn.turn_state.token = s.turn_state.token ∧
      s.begin_turn.next_token = s.next_token) ∨
    (s.turn_state.token ∈ s.cancelled ∧ s.begin_turn.turn_state.token = s.next_token ∧
      s.begin_turn.next_token = s.next_token + 1) := by
  by_cases h : s.turn_state.token ∈ s.cancelled
  · have hc : s.is_cancelled s.turn_state.token = true := decide_eq_true h
    right
    rw [SessionActor.begin_turn, if_pos hc]
    exact ⟨h, rfl, rfl⟩
  · have hc : ¬ s.is_cancelled s.turn_state.token = true := by
      rw [SessionActor.is_cancelled, decide_eq_true_eq]
      exact h
    left
    rw [SessionActor.begin_turn, if_neg hc]
    exact ⟨h, rfl, rfl⟩

theorem tokens_handle_prompt (s : SessionActor) (origin : ExecutionOrigin) :
    (s.handle_prompt origin).tokens = s.tokens ++ [s.begin_turn.turn_state.token] := by
  rw [SessionActor.tokens, SessionActor.handle_prompt, List.map_append, begin_turn_tasks]
  rfl

/-! ## 4. The invariant -/

/-- A task that has not ended holds the current token or a cancelled one; and none is
left when the flag is down. -/
structure Guarded (s : SessionActor) : Prop where
  flag : FlagRight s
  token : ∀ task ∈ s.tasks, task.phase ≠ .Ended →
    task.cancel_token = s.turn_state.token ∨ task.cancel_token ∈ s.cancelled

theorem guarded_handle_prompt {s : SessionActor} (h : Guarded s) (origin : ExecutionOrigin) :
    Guarded (s.handle_prompt origin) := by
  have hcancelled := begin_turn_cancelled s
  refine ⟨?_, ?_⟩
  · intro hflag
    have hrun : s.begin_turn.prompt_running = false := hflag
    rw [begin_turn_prompt_running] at hrun
    exact absurd hrun (by decide)
  · intro task htask hphase
    have hmem : task ∈ s.begin_turn.tasks ++ [_] := htask
    rw [List.mem_append, begin_turn_tasks, List.mem_singleton] at hmem
    rcases hmem with hold | rfl
    · -- an older task keeps up with the token, or its token was cancelled before
      change task.cancel_token = s.begin_turn.turn_state.token ∨
        task.cancel_token ∈ s.begin_turn.cancelled
      rw [hcancelled]
      rcases h.token task hold hphase with htoken | htoken
      · rcases begin_turn_token s with ⟨-, hkeep, -⟩ | ⟨hdead, -, -⟩
        · left
          rw [hkeep, htoken]
        · right
          rw [htoken]
          exact hdead
      · exact Or.inr htoken
    · exact Or.inl rfl

theorem reached_handle_cancel {s : SessionActor} (h : Guarded s) : Reached s.handle_cancel := by
  intro task htask hphase
  have hmem : task ∈ s.tasks := htask
  change task.cancel_token ∈ s.turn_state.token :: s.cancelled
  rw [List.mem_cons]
  exact h.token task hmem hphase

theorem guarded_of_taskProgress {s s' : SessionActor} (h : Guarded s) (hp : TaskProgress s s') :
    Guarded s' := by
  refine ⟨?_, ?_⟩
  · intro hflag task' htask'
    by_contra hphase
    obtain ⟨task, htask, hrunning, -⟩ := hp.tasks task' htask' hphase
    rw [hp.prompt_running] at hflag
    exact hrunning (h.flag hflag task htask)
  · intro task' htask' hphase
    obtain ⟨task, htask, hrunning, htoken⟩ := hp.tasks task' htask' hphase
    rw [hp.turn_state, hp.cancelled, ← htoken]
    exact h.token task htask hrunning

/-- One step under the condition keeps the invariant. -/
theorem guarded_step {s : SessionActor} {i : Input} (h : Guarded s) (hC : NewestLast s i) :
    Guarded (step s i) := by
  rcases step_cases s i with ⟨origin, heq, -⟩ | ⟨-, heq⟩ | ⟨generation, rfl, hmem, hgen, heq⟩ | ⟨-, hp⟩
  · rw [heq]
    exact guarded_handle_prompt h origin
  · rw [heq]
    refine ⟨h.flag, fun task htask hphase => Or.inr (reached_handle_cancel h task htask hphase)⟩
  · -- nothing is left to guard
    have hended : ∀ task ∈ s.tasks, task.phase = .Ended := hC hmem hgen
    rw [heq]
    exact ⟨fun _ => hended, fun task htask hphase => absurd (hended task htask) hphase⟩
  · exact guarded_of_taskProgress h hp

theorem guarded_new (session_id : String) (execution_timeout_secs : ℕ) :
    Guarded (.new session_id execution_timeout_secs) := by
  refine ⟨?_, ?_⟩
  · intro _ task htask
    cases htask
  · intro task htask
    cases htask

theorem cancelReaches_of_guarded {s : SessionActor} {i : Input} (h : Guarded s)
    (hC : NewestLast s i) : CancelReaches s i := by
  refine ⟨?_, (guarded_step h hC).flag⟩
  rcases i with _ | _ | _ | _ | _ | _ <;> first | exact trivial | exact reached_handle_cancel h

/-- The flag goes down when a `PromptFinished` of the current generation is handled,
so the law gives the condition back. -/
theorem newestLast_of_cancelReaches {s : SessionActor} {i : Input} (h : CancelReaches s i) :
    NewestLast s i := by
  rcases i with _ | _ | _ | generation | _ | _ <;> try exact trivial
  intro hmem hgen
  have hstep : step s (.PromptFinished generation) =
      { s with prompt_running := false, finished := s.finished.erase generation }.reset_token := by
    rw [step, if_pos hmem, SessionActor.handle_prompt_finished, if_neg (not_not.2 hgen)]
  have hflag := h.2
  rw [hstep] at hflag
  exact hflag rfl

/-! ## 5. Later tasks -/

/-- A cancelled token and every token in use were handed out before. -/
structure TokensKnown (s : SessionActor) : Prop where
  current : s.turn_state.token < s.next_token
  cancelled : ∀ token ∈ s.cancelled, token < s.next_token

theorem tokensKnown_new (session_id : String) (execution_timeout_secs : ℕ) :
    TokensKnown (.new session_id execution_timeout_secs) :=
  ⟨Nat.zero_lt_one, fun _ h => by cases h⟩

theorem tokensKnown_step {s : SessionActor} (h : TokensKnown s) (i : Input) :
    TokensKnown (step s i) := by
  rcases step_cases s i with ⟨origin, heq, -⟩ | ⟨-, heq⟩ | ⟨generation, -, -, -, heq⟩ | ⟨-, hp⟩
  · have hbegin : s.begin_turn.turn_state.token < s.begin_turn.next_token ∧
        s.next_token ≤ s.begin_turn.next_token := by
      rcases begin_turn_token s with ⟨-, htoken, hnext⟩ | ⟨-, htoken, hnext⟩
      · rw [htoken, hnext]
        exact ⟨h.current, le_refl _⟩
      · rw [htoken, hnext]
        exact ⟨Nat.lt_succ_self _, Nat.le_succ _⟩
    rw [heq]
    refine ⟨hbegin.1, ?_⟩
    intro token htoken
    change token ∈ s.begin_turn.cancelled at htoken
    rw [begin_turn_cancelled] at htoken
    exact lt_of_lt_of_le (h.cancelled token htoken) hbegin.2
  · rw [heq]
    refine ⟨h.current, ?_⟩
    intro token htoken
    rcases List.mem_cons.1 htoken with rfl | htoken
    · exact h.current
    · exact h.cancelled token htoken
  · rw [heq]
    exact ⟨Nat.lt_succ_self s.next_token, fun token htoken =>
      Nat.lt_succ_of_lt (h.cancelled token htoken)⟩
  · refine ⟨?_, ?_⟩
    · rw [hp.turn_state, hp.next_token]
      exact h.current
    · rw [hp.cancelled, hp.next_token]
      exact h.cancelled

theorem cancelled_step {s : SessionActor} {token : CancellationToken} (h : token ∈ s.cancelled)
    (i : Input) : token ∈ (step s i).cancelled := by
  rcases step_cases s i with ⟨origin, heq, -⟩ | ⟨-, heq⟩ | ⟨generation, -, -, -, heq⟩ | ⟨-, hp⟩
  · rw [heq]
    change token ∈ s.begin_turn.cancelled
    rw [begin_turn_cancelled]
    exact h
  · rw [heq]
    exact List.mem_cons_of_mem _ h
  · rw [heq]
    exact h
  · rw [hp.cancelled]
    exact h

/-- One step accepts no task with a token that is cancelled before it. -/
theorem tokens_step {s : SessionActor} (hk : TokensKnown s) {token : CancellationToken}
    (h : token ∈ s.cancelled) (i : Input) :
    ∃ accepted, (step s i).tokens = s.tokens ++ accepted ∧ token ∉ accepted := by
  rcases step_cases s i with ⟨origin, heq, -⟩ | ⟨-, heq⟩ | ⟨generation, -, -, -, heq⟩ | ⟨-, hp⟩
  · refine ⟨[s.begin_turn.turn_state.token], by rw [heq, tokens_handle_prompt], ?_⟩
    intro hmem
    rw [List.mem_singleton] at hmem
    have hknown := hk.cancelled token h
    rcases begin_turn_token s with ⟨hlive, htoken, -⟩ | ⟨-, htoken, -⟩
    · rw [htoken] at hmem
      rw [hmem] at h
      exact hlive h
    · rw [hmem, htoken] at hknown
      exact absurd hknown (lt_irrefl _)
  · exact ⟨[], by rw [heq, List.append_nil]; rfl, by simp⟩
  · exact ⟨[], by rw [heq, List.append_nil]; rfl, by simp⟩
  · exact ⟨[], by rw [hp.tokens, List.append_nil], by simp⟩

/-- Nor does a run. -/
theorem tokens_run {s : SessionActor} (hk : TokensKnown s) {token : CancellationToken}
    (h : token ∈ s.cancelled) (inputs : List Input) :
    ∃ accepted, (run step s inputs).tokens = s.tokens ++ accepted ∧ token ∉ accepted := by
  induction inputs generalizing s with
  | nil => exact ⟨[], (List.append_nil _).symm, by simp⟩
  | cons i inputs ih =>
      obtain ⟨first, hfirst, hnot⟩ := tokens_step hk h i
      obtain ⟨rest, hrest, hnot'⟩ := ih (tokensKnown_step hk i) (cancelled_step h i)
      refine ⟨first ++ rest, ?_, ?_⟩
      · rw [run_cons, hrest, hfirst, List.append_assoc]
      · rw [List.mem_append]
        exact fun hor => hor.elim hnot hnot'

theorem tokensKnown_run {s : SessionActor} (hk : TokensKnown s) (inputs : List Input) :
    TokensKnown (run step s inputs) := by
  induction inputs generalizing s with
  | nil => exact hk
  | cons i inputs ih => exact ih (tokensKnown_step hk i)

/-- The law of later tasks holds in every run, whatever the order of the steps. -/
theorem later_tasks_fresh {s : SessionActor} (hk : TokensKnown s) (inputs : List Input) :
    LaterTasksFresh s inputs := by
  intro done later heq task htask
  have hdone : TokensKnown (run step s done) := tokensKnown_run hk done
  have hmem : (run step s done).turn_state.token ∈ (step (run step s done) .Cancel).cancelled :=
    List.mem_cons_self
  obtain ⟨accepted, htokens, hnot⟩ := tokens_run (tokensKnown_step hdone .Cancel) hmem later
  have hrun : run step s inputs = run step (step (run step s done) .Cancel) later := by
    rw [heq, run_append, run_cons]
  have hlen : (step (run step s done) .Cancel).tokens.length = (run step s done).tasks.length := by
    rw [SessionActor.tokens, List.length_map]
    rfl
  have hdrop : task.cancel_token ∈
      (run step s inputs).tokens.drop (run step s done).tasks.length := by
    rw [SessionActor.tokens, ← List.map_drop]
    exact List.mem_map_of_mem htask
  rw [hrun, htokens, ← hlen, List.drop_left] at hdrop
  intro htoken
  rw [htoken] at hdrop
  exact hnot hdrop

/-! ## 6. Every run -/

/-- **A `Cancel` reaches every running turn, and no later one, and the flag is right,
exactly when the newest prompt's `PromptFinished` is handled last.** In every
interleaving of the messages with the progress of the tasks. -/
theorem cancel_reaches_iff (session_id : String) (execution_timeout_secs : ℕ)
    (inputs : List Input) :
    (Along step CancelReaches (.new session_id execution_timeout_secs) inputs ∧
        LaterTasksFresh (.new session_id execution_timeout_secs) inputs) ↔
      Along step NewestLast (.new session_id execution_timeout_secs) inputs := by
  constructor
  · rintro ⟨h, -⟩
    exact h.imp fun s i _ hs => newestLast_of_cancelReaches hs
  · intro h
    refine ⟨?_, later_tasks_fresh (tokensKnown_new session_id execution_timeout_secs) inputs⟩
    exact along_of_invariant h (fun s i => guarded_step) (fun s i => cancelReaches_of_guarded)
      (guarded_new session_id execution_timeout_secs)

/-- A second prompt gives up waiting for the permit while the first one executes; its
`PromptFinished` is handled, and then a `Cancel`. -/
def newest_gives_up : List Input :=
  [.Prompt, .PermitWait 0 .Acquired "", .Prompt, .PermitWait 1 .TimedOut "",
   .PermitWait 1 .TimedOut "", .PromptFinished 2, .Cancel]

/-- The first task goes on executing with a token that is not cancelled, and the flag
says that no prompt runs. -/
theorem newest_gives_up_hides_running :
    ¬ Along step CancelReaches (.new "session" 300) newest_gives_up ∧
      ∃ task ∈ (run step (.new "session" 300) newest_gives_up).tasks, task.phase = .Executing ∧
        task.cancel_token ∉ (run step (.new "session" 300) newest_gives_up).cancelled ∧
        (run step (.new "session" 300) newest_gives_up).prompt_running = false := by
  have hend : ∃ task ∈ (run step (.new "session" 300) newest_gives_up).tasks,
      task.phase = .Executing ∧
        task.cancel_token ∉ (run step (.new "session" 300) newest_gives_up).cancelled ∧
        (run step (.new "session" 300) newest_gives_up).prompt_running = false :=
    ⟨⟨.Interactive, 0, 1, .Executing⟩, by decide, rfl, by decide, rfl⟩
  refine ⟨?_, hend⟩
  intro h
  obtain ⟨task, htask, hphase, hlive, -⟩ := hend
  -- the `Cancel` is the last step, and it should have reached the task
  have hsplit : newest_gives_up = newest_gives_up.take 6 ++ [.Cancel] := rfl
  rw [hsplit, along_append] at h
  have hreached : Reached (run step (.new "session" 300) newest_gives_up) := h.2.1.1
  exact hlive (hreached task htask (by rw [hphase]; decide))

end Querymt.Session
