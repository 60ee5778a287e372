/-
`Delegation/Orchestrator.lean` -- the listener of delegation events and its tasks.

Mirrors `DelegationOrchestrator::handle_envelope`, `execute_delegation` and
`fail_delegation` (`delegation/core.rs`) over the two status writes of
`session/repo_delegation.rs`. The listener handles one event after another; every
requested delegation has a task of its own, which runs between the listener's steps
and between the steps of other tasks.

# What a step is

A task runs from one `.await` to the next without being interrupted, so a task is the
place it waits at (`Pc`) and a step of it is what the awaited call replied. An abort
cuts the task at the place it waits at; a write to the store that it was waiting for
runs on a blocking thread and may land all the same. Of the listener's handlers only
the one for a request is more than one step: it spawns the task, and registers it once
it has the lock of the table.

Store writes succeed. Permits, time and the child session are not modelled: a permit
is granted, a call returns and a grace period ends at any moment, so every order is a
run. The public ids of delegations are unique, and a delegation is requested once.
-/
import Mathlib
import Querymt.Library.Runs

set_option autoImplicit false

open Runs

namespace Querymt.Delegations

/-! ## 1. Delegations and their events -/

inductive DelegationStatus where
  | Requested
  | Running
  | Complete
  | Failed
  | Cancelled
  deriving DecidableEq

def DelegationStatus.is_terminal : DelegationStatus → Bool
  | .Complete | .Failed | .Cancelled => true
  | .Requested | .Running => false

/-- A delegation as the event that requests it carries it, with the session of that
event. -/
structure Delegation where
  public_id : String
  parent_session_id : String
  target_agent_id : String
  status : DelegationStatus
  deriving DecidableEq

/-- The events that tell the parent how a delegation ended. -/
inductive DelegationEvent where
  | DelegationCompleted (result : Option String)
  | DelegationFailed (error : String)
  | DelegationCancelled
  deriving DecidableEq

/-! ## 2. A task (`execute_delegation`) -/

/-- Where a task waits. `removes` says whether the exit it is on removes the entry of
the delegation from the table. -/
inductive Pc where
  | Permit
  | StartHook
  | MarkRunning
  | LoadConfig
  | LoadCwd
  | CreateSession
  | ApplyRouting
  | ApplyModel
  | InheritEffort
  | Shutdown (error : String)
  | Summarize
  | PersistSummary
  | InjectSummary
  | Prompt
  | CancelChild
  | MarkCancelled
  | Verify
  | GetHistory
  | PostHook (summary : String)
  | MarkComplete (summary : String)
  | InjectResults
  | MarkFailed (error : String) (removes : Bool)
  | FailureHook (error : String) (removes : Bool)
  | InjectFailure (removes : Bool)
  | Unregister
  | Ended
  deriving DecidableEq

/-- What the call a task waits for replied. -/
inductive Reply where
  | Done
  | Failed (error : String)
  /-- the parent session has no LLM configuration -/
  | NoConfig
  /-- its reasoning effort cannot be read -/
  | UnreadableEffort (error : String)
  | InvalidNode (node_id error : String)
  | ModelRejected (model_id error : String)
  /-- a summary: of the plan for the child, or of its work -/
  | Summary (summary : String)
  | Contexts (additional_contexts : List String)
  /-- the child's turn ended with another reason than `EndTurn` -/
  | StoppedEarly (stop_reason : String)
  /-- the token was cancelled first -/
  | CancelledFirst
  deriving DecidableEq

structure Task where
  delegation : Delegation
  /-- the registry knows a handle for the target agent -/
  has_handle : Bool
  pc : Pc
  cancel_token : Bool
  /-- the statuses the stored row has had, the current one last -/
  statuses : List DelegationStatus
  events : List DelegationEvent
  deriving DecidableEq

/-- A message with the contexts a hook added. -/
def with_contexts (message : String) (additional_contexts : List String) : String :=
  if additional_contexts.isEmpty then message
  else message ++ "\n\n" ++ String.intercalate "\n\n" additional_contexts

namespace Task

variable (t : Task)

/-- The status that the write waited for stores. The summary is stored with the whole
row, from the copy the event carried. -/
def pending_write : Option DelegationStatus :=
  match t.pc with
  -- a write that fails is logged and the task goes on; here writes succeed
  | .MarkRunning => some .Running
  | .PersistSummary => some t.delegation.status
  | .MarkCancelled => some .Cancelled
  | .MarkComplete _ => some .Complete
  | .MarkFailed _ _ => some .Failed
  | _ => none

/-- The events emitted before the task waits again. -/
def emits (reply : Reply) : List DelegationEvent :=
  match t.pc with
  | .MarkCancelled => [.DelegationCancelled]
  | .MarkComplete summary => [.DelegationCompleted (some summary)]
  | .FailureHook error _ =>
      match reply with
      | .Contexts additional_contexts => [.DelegationFailed (with_contexts error additional_contexts)]
      | _ => [.DelegationFailed error]
  | _ => []

/-- Where the task waits next. -/
def next_pc (reply : Reply) : Pc :=
  let parent := t.delegation.parent_session_id
  let target := t.delegation.target_agent_id
  match t.pc with
  | .Permit =>
      match reply with
      | .Failed _ => .MarkFailed "Delegation queue closed before execution could start" false
      | _ =>
          if t.has_handle then .StartHook
          else .MarkFailed ("Agent '" ++ target ++ "' is not registered with a handle. " ++
            "Register it via register_handle() in the AgentRegistry.") false
  -- what the start hook adds goes into the prompt of the child; its failure is logged
  | .StartHook => .MarkRunning
  | .MarkRunning => .LoadConfig
  | .LoadConfig =>
      match reply with
      | .UnreadableEffort error =>
          .MarkFailed ("Failed to read reasoning effort from parent session '" ++ parent ++ "': " ++
            error) true
      | .NoConfig => .MarkFailed ("Parent session '" ++ parent ++ "' has no LLM configuration") true
      | .Failed error =>
          .MarkFailed ("Failed to load LLM configuration for parent session '" ++ parent ++ "': " ++
            error) true
      | _ => .LoadCwd
  | .LoadCwd => .CreateSession
  | .CreateSession =>
      match reply with
      -- `fail_delegation` and `return`: the only failure after the start that keeps the entry,
      -- next to verification
      | .Failed error => .MarkFailed ("Failed to create session via kameo: " ++ error) false
      | _ => .ApplyRouting
  | .ApplyRouting => .ApplyModel
  | .ApplyModel =>
      match reply with
      | .InvalidNode node_id error =>
          .Shutdown ("Invalid provider node '" ++ node_id ++ "' for delegate model override: " ++
            error)
      | .ModelRejected model_id error =>
          .Shutdown ("Failed to apply model '" ++ model_id ++ "' to delegate '" ++ target ++ "': " ++
            error)
      | _ => .InheritEffort
  | .InheritEffort =>
      match reply with
      | .Failed error =>
          .Shutdown ("Failed to inherit reasoning effort for delegate '" ++ target ++ "': " ++ error)
      | _ => .Summarize
  | .Shutdown error => .MarkFailed error true
  -- without a summarizer, and when it fails, the child is prompted as it is
  | .Summarize =>
      match reply with
      | .Summary _ => .PersistSummary
      | _ => .Prompt
  | .PersistSummary => .InjectSummary
  | .InjectSummary => .Prompt
  | .Prompt =>
      match reply with
      -- the one place that looks at the token
      | .CancelledFirst => if t.cancel_token then .CancelChild else .Prompt
      | .StoppedEarly stop_reason =>
          .MarkFailed ("Delegate stopped prematurely: " ++ stop_reason) true
      | .Failed error => .MarkFailed ("Delegation failed: " ++ error) true
      | _ => .Verify
  | .CancelChild => .MarkCancelled
  | .MarkCancelled => .Unregister
  | .Verify =>
      match reply with
      | .Failed _ =>
          .MarkFailed ("Verification failed: The changes did not pass the specified verification " ++
            "checks.") false
      | _ => .GetHistory
  | .GetHistory =>
      match reply with
      | .Summary summary => .PostHook summary
      | _ => .PostHook "Error extracting summary."
  | .PostHook summary =>
      match reply with
      | .Contexts additional_contexts => .MarkComplete (with_contexts summary additional_contexts)
      | _ => .MarkComplete summary
  | .MarkComplete _ => .InjectResults
  | .InjectResults => .Unregister
  | .MarkFailed error removes => .FailureHook error removes
  | .FailureHook _ removes => .InjectFailure removes
  | .InjectFailure removes => if removes then .Unregister else .Ended
  | .Unregister => .Ended
  | .Ended => .Ended

/-- From one await to the next. -/
def advance (reply : Reply) : Task :=
  { t with
    pc := t.next_pc reply
    statuses := t.statuses ++ t.pending_write.toList
    events := t.events ++ t.emits reply }

/-- The task is cut where it waits. -/
def abort (write_lands : Bool) : Task :=
  { t with
    pc := .Ended
    -- no event follows the write: that is emitted by the task
    statuses := t.statuses ++ if write_lands then t.pending_write.toList else [] }

def cancel : Task := { t with cancel_token := true }

end Task

/-! ## 3. The listener -/

structure Orchestrator where
  tasks : String → Option Task
  /-- `active_delegations`: the parent session of each entry -/
  active : String → Option String
  /-- the request whose task is spawned and not yet registered: its id and parent -/
  registering : Option (String × String)
  /-- the tasks that are aborted if they outlive a grace period -/
  graced : String → Bool

def Orchestrator.new : Orchestrator := ⟨fun _ => none, fun _ => none, none, fun _ => false⟩

inductive Action where
  /-- `DelegationRequested`: the task is spawned -/
  | Requested (delegation : Delegation) (has_handle : Bool)
  /-- the same handler inserts the entry -/
  | Register
  /-- `DelegationCancelRequested` -/
  | CancelRequested (delegation_id : String)
  /-- `Cancelled`, of a session -/
  | SessionCancelled (session_id : String)
  /-- a task runs on -/
  | Advance (delegation_id : String) (reply : Reply)
  /-- a grace period ends; the write the task was waiting for may land -/
  | Abort (delegation_id : String) (write_lands : Bool)
  deriving DecidableEq

/-- The task of a request, before its first step. -/
def spawned (delegation : Delegation) (has_handle : Bool) : Task :=
  ⟨delegation, has_handle, .Permit, false, [delegation.status], []⟩

namespace Orchestrator

variable (s : Orchestrator)

def set_task (id : String) (t : Task) : Orchestrator :=
  { s with tasks := Function.update s.tasks id (some t) }

theorem set_task_self (id : String) (t : Task) : (s.set_task id t).tasks id = some t := by
  dsimp only [set_task]
  rw [Function.update_self]

theorem set_task_of_ne {id other : String} (h : id ≠ other) (t : Task) :
    (s.set_task other t).tasks id = s.tasks id := by
  dsimp only [set_task]
  rw [Function.update_of_ne h]

/-- One step. The listener takes no event while it is registering a task. -/
def step : Action → Orchestrator
  | .Requested delegation has_handle =>
      if s.registering.isSome ∨ (s.tasks delegation.public_id).isSome then s
      else
        { s.set_task delegation.public_id (spawned delegation has_handle) with
          registering := some (delegation.public_id, delegation.parent_session_id) }
  | .Register =>
      match s.registering with
      | none => s
      | some (id, parent) =>
          { s with active := Function.update s.active id (some parent), registering := none }
  | .CancelRequested id =>
      -- a task that is spawned and not registered cannot be cancelled
      if s.registering.isSome ∨ s.active id = none then s
      else
        { s with
          -- removed at once, while the task runs on with its token cancelled
          active := Function.update s.active id none
          tasks := Function.update s.tasks id ((s.tasks id).map Task.cancel)
          graced := Function.update s.graced id true }
  | .SessionCancelled session_id =>
      if s.registering.isSome then s
      else
        -- the entries stay in the table
        { s with
          tasks := fun id =>
            if s.active id = some session_id then (s.tasks id).map Task.cancel else s.tasks id
          graced := fun id => s.graced id || decide (s.active id = some session_id) }
  | .Advance id reply =>
      match s.tasks id with
      | none => s
      | some t =>
          -- `active_delegations.remove`, whatever entry is there by now
          if t.pc = .Unregister then
            { s.set_task id (t.advance reply) with active := Function.update s.active id none }
          else s.set_task id (t.advance reply)
  | .Abort id write_lands =>
      match s.tasks id with
      | none => s
      | some t =>
          if s.graced id ∧ t.pc ≠ .Ended then s.set_task id (t.abort write_lands) else s

end Orchestrator

/-! ## 4. What a step does to a task -/

/-- The step of a task that an action takes, if any. -/
inductive TaskStep (s : Orchestrator) (id : String) : Action → Option Task → Option Task → Prop where
  | same {a : Action} {t : Option Task} : TaskStep s id a t t
  | spawned {delegation : Delegation} {has_handle : Bool} (hid : delegation.public_id = id) :
      TaskStep s id (.Requested delegation has_handle) none
        (some (Delegations.spawned delegation has_handle))
  | cancelled {a : Action} {t : Task} : TaskStep s id a (some t) (some t.cancel)
  | advanced {reply : Reply} {t : Task} :
      TaskStep s id (.Advance id reply) (some t) (some (t.advance reply))
  | aborted {write_lands : Bool} {t : Task} (hgraced : s.graced id = true) (hpc : t.pc ≠ .Ended) :
      TaskStep s id (.Abort id write_lands) (some t) (some (t.abort write_lands))

/-- **What one action can do to one task.** -/
theorem step_taskStep (s : Orchestrator) (a : Action) (id : String) :
    TaskStep s id a (s.tasks id) ((s.step a).tasks id) := by
  cases a with
  | Requested delegation has_handle =>
      rw [Orchestrator.step]
      split
      · exact .same
      · next hfree =>
          by_cases hid : id = delegation.public_id
          · subst hid
            have hnone : s.tasks delegation.public_id = none := by
              rw [not_or, Option.not_isSome_iff_eq_none] at hfree
              exact Option.not_isSome_iff_eq_none.1 hfree.2
            have hset := s.set_task_self delegation.public_id
              (Delegations.spawned delegation has_handle)
            rw [hnone]
            dsimp only
            rw [hset]
            exact .spawned rfl
          · have hset := s.set_task_of_ne hid (Delegations.spawned delegation has_handle)
            dsimp only
            rw [hset]
            exact .same
  | Register =>
      rw [Orchestrator.step]
      split <;> exact .same
  | CancelRequested other =>
      rw [Orchestrator.step]
      split
      · exact .same
      · by_cases hid : id = other
        · subst hid
          dsimp only
          rw [Function.update_self]
          rcases s.tasks id with _ | t
          · exact .same
          · exact .cancelled
        · dsimp only
          rw [Function.update_of_ne hid]
          exact .same
  | SessionCancelled session_id =>
      rw [Orchestrator.step]
      split
      · exact .same
      · dsimp only
        split
        · rcases s.tasks id with _ | t
          · exact .same
          · exact .cancelled
        · exact .same
  -- the two branches differ in the table only, which no task sees
  | Advance other reply =>
      rw [Orchestrator.step]
      rcases htask : s.tasks other with _ | t
      · exact .same
      · have hset : TaskStep s id (.Advance other reply) (s.tasks id)
            ((s.set_task other (t.advance reply)).tasks id) := by
          by_cases hid : id = other
          · subst hid
            rw [s.set_task_self, htask]
            exact .advanced
          · rw [s.set_task_of_ne hid]
            exact .same
        dsimp only
        split
        · exact hset
        · exact hset
  | Abort other write_lands =>
      rw [Orchestrator.step]
      rcases htask : s.tasks other with _ | t
      · exact .same
      · dsimp only
        split
        · next hgrace =>
            by_cases hid : id = other
            · subst hid
              rw [s.set_task_self, htask]
              exact .aborted hgrace.1 hgrace.2
            · rw [s.set_task_of_ne hid]
              exact .same
        · exact .same

end Querymt.Delegations
