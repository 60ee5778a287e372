/-
`Scheduler/Actor.lean` -- `SchedulerActor` (`scheduler/mod.rs`).

The actor handles one mailbox message at a time. A handler is a script of
elementary operations: `fire_schedule` and the sweeps call the terminal handlers
from inside, so one `Reconcile` message is many operations, and the laws of the
later files speak of every operation of a run with the state it is executed in.
An operation without inner calls (`handle_cycle_completed`,
`handle_pause_schedule`, …) is one function on the actor.

Everything the code obtains from outside is in `Env`: the clock, store failures,
the session registry, the reply of `tell_scheduled_prompt`. Spawned timer tasks
are numbered; what the actor spawns, aborts, sends and emits is appended to
`outbox` in order. Metrics, log lines and the lease are left out.
-/
import Querymt.Library.Runs
import Querymt.Scheduler.Domain

set_option autoImplicit false

open Runs

namespace Querymt.Scheduler

/-! ## 1. Effects and environment -/

/-- A prompt for a session; the execution limits it also carries are not read by
the scheduler. -/
structure ScheduledPrompt where
  schedule_public_id : String
  prompt_text : String
  deriving DecidableEq, Repr

/-- The session events the scheduler emits. -/
inductive AgentEventKind where
  | ScheduleFired (schedule_public_id session_public_id : String)
  | ScheduleExhausted (schedule_public_id : String)
  | ScheduleCycleCompleted (schedule_public_id turn_id : String) (run_count : ℕ)
  | ScheduleFailed (schedule_public_id : String) (consecutive_failures : ℕ)
  | ScheduleCycleFailed (schedule_public_id : String) (turn_id : Option String) (error : String)
  | ScheduleCreated (schedule_public_id session_public_id task_public_id : String)
  | SchedulePaused (schedule_public_id : String)
  | ScheduleResumed (schedule_public_id : String)
  deriving DecidableEq, Repr

/-- The timer tasks the scheduler spawns, with the seconds they sleep. -/
inductive TimerKind where
  | Wake (schedule_public_id : String) (seconds : ℕ)
  | Timeout (schedule_public_id : String) (seconds : ℕ)
  -- the fallback without `self_ref`: it only logs
  | SilentTimeout (schedule_public_id : String) (seconds : ℕ)
  | Debounce (schedule_public_id : String) (seconds : ℕ)
  deriving DecidableEq, Repr

inductive Effect where
  | spawn (task : ℕ) (kind : TimerKind)
  | abort (task : ℕ)
  /-- `cycle` is the number of the timeout task spawned with the prompt. -/
  | scheduled_prompt (cycle : ℕ) (session_public_id : String) (prompt : ScheduledPrompt)
  | emit_event (session_id : String) (kind : AgentEventKind)
  deriving DecidableEq, Repr

/-- What one message finds outside the actor. The `…_ok` flags are the outcomes
of store calls; `text_lt` compares two instants as the RFC 3339 texts SQLite
stores. -/
structure Env where
  now : OffsetDateTime
  update_state_ok : String → ScheduleState → ScheduleState → Bool
  update_ok : String → Bool
  create_ok : String → Bool
  delete_ok : String → Bool
  get_ok : String → Bool
  list_running_ok : Bool
  list_armed_ok : Bool
  text_lt : OffsetDateTime → OffsetDateTime → Bool
  row_order : Enumeration Schedule
  key_order : Enumeration String
  session_registered : String → Bool
  tell_scheduled_prompt : String → Except String Unit
  expected_deliverable : String → Option String
  jittered : ℕ → ℕ → OffsetDateTime → ℤ
  uuid : String

/-- Nothing fails: the store answers, every session is registered, no jitter. -/
def Env.calm (now : OffsetDateTime) : Env where
  now := now
  update_state_ok := fun _ _ _ => true
  update_ok := fun _ => true
  create_ok := fun _ => true
  delete_ok := fun _ => true
  get_ok := fun _ => true
  list_running_ok := true
  list_armed_ok := true
  text_lt := fun a b => decide (a < b)
  row_order := Enumeration.stored Schedule
  key_order := Enumeration.stored String
  session_registered := fun _ => true
  tell_scheduled_prompt := fun _ => .ok ()
  expected_deliverable := fun _ => none
  jittered := fun interval _ _ => interval
  uuid := "uuid"

/-! ## 2. The actor -/

structure SchedulerActor where
  schedule_store : ScheduleStore
  deadline_queue : DeadlineQueue := {}
  event_counters : AList fun _ : String => EventAccumulator := ∅
  active_cycles : AList fun _ : String => ActiveCycle := ∅
  pending_deletes : Finset String := ∅
  processed_terminals : Finset (String × Option String) := ∅
  /-- `self_ref` has been set. -/
  self_ref : Bool := false
  wake_handle : Option ℕ := none
  /-- The number of the next spawned task. -/
  next_task : ℕ := 0
  outbox : List Effect := []

/-- The first scheduler of a database without schedules. -/
def SchedulerActor.initial : SchedulerActor := { schedule_store := .empty }

namespace SchedulerActor

/-- The stored row of a schedule. -/
def row (s : SchedulerActor) (id : String) : Option Schedule := s.schedule_store.get_schedule id

/-- `get_schedule`, with a failed read taken as no row, as every caller does. -/
def get_schedule (s : SchedulerActor) (env : Env) (id : String) : Option Schedule :=
  if env.get_ok id then s.row id else none

def send (s : SchedulerActor) (e : Effect) : SchedulerActor := { s with outbox := s.outbox ++ [e] }

def emit_event (s : SchedulerActor) (session_id : String) (kind : AgentEventKind) :
    SchedulerActor :=
  s.send (.emit_event session_id kind)

/-- Abort a task through its handle, if there is one. -/
def abort (s : SchedulerActor) : Option ℕ → SchedulerActor
  | none => s
  | some task => s.send (.abort task)

/-- `update_schedule`: a failed write, or a missing row, changes nothing. -/
def update_schedule (s : SchedulerActor) (env : Env) (schedule : Schedule) : SchedulerActor :=
  if env.update_ok schedule.public_id then
    { s with schedule_store := s.schedule_store.update_schedule schedule }
  else s

def delete_schedule (s : SchedulerActor) (env : Env) (id : String) : SchedulerActor :=
  if env.delete_ok id then { s with schedule_store := s.schedule_store.delete_schedule id } else s

/-- `update_schedule_state`, with a store error taken as `false`. -/
def update_schedule_state (s : SchedulerActor) (env : Env) (id : String)
    (from_state to_state : ScheduleState) : SchedulerActor × Bool :=
  if env.update_state_ok id from_state to_state then
    let r := s.schedule_store.update_schedule_state id from_state to_state env.now
    ({ s with schedule_store := r.1 }, r.2)
  else (s, false)

/-- `reschedule_wake`: abort the wake task and spawn one for the queue's head,
sleeping the whole seconds that remain. -/
def reschedule_wake (s : SchedulerActor) (env : Env) : SchedulerActor :=
  let s := { s.abort s.wake_handle with wake_handle := none }
  if s.self_ref then
    match s.deadline_queue.peek with
    | none => s
    | some (next_time, schedule_public_id) =>
        let delay := (max (next_time - env.now) 0 / second).toNat
        { s.send (.spawn s.next_task (.Wake schedule_public_id delay)) with
          wake_handle := some s.next_task
          next_task := s.next_task + 1 }
  else s

/-- `enqueue_schedule`. -/
def enqueue_schedule (s : SchedulerActor) (env : Env) (schedule : Schedule) : SchedulerActor :=
  match schedule.trigger with
  | .Interval _ | .OnceAt _ =>
      match schedule.next_run_at with
      | none => s
      | some next =>
          { s with
            deadline_queue := s.deadline_queue.insert next schedule.public_id }.reschedule_wake env
  | .EventDriven event_filter _ =>
      { s with
        event_counters :=
          s.event_counters.insert schedule.public_id (EventAccumulator.new event_filter.threshold) }

/-- Remove the queue entries of a schedule and move the wake task. -/
def remove_deadline (s : SchedulerActor) (env : Env) (id : String) : SchedulerActor :=
  { s with deadline_queue := s.deadline_queue.remove id }.reschedule_wake env

/-- `EventAccumulator::reset` of a schedule's accumulator. -/
def reset_accumulator (s : SchedulerActor) (id : String) : SchedulerActor :=
  match s.event_counters.lookup id with
  | none => s
  | some acc =>
      { s with event_counters := s.event_counters.insert id acc.reset }.abort acc.debounce_handle

/-! ## 3. Firing -/

/-- How `fire_schedule` went, up to its calls of the failure handler. -/
inductive FireOutcome where
  /-- the compare-and-swap failed or was denied -/
  | Denied
  /-- the row could not be loaded after the compare-and-swap -/
  | NotLoaded
  /-- the cycle ends at once, with this error -/
  | Ended (error : String)
  | Sent
  deriving DecidableEq

/-- The prompt of a schedule's task. -/
def prompt_text (env : Env) (schedule : Schedule) : String :=
  match env.expected_deliverable schedule.task_public_id with
  | none => "Execute the recurring task for schedule " ++ schedule.public_id ++ "."
  | some text =>
      if text = "" then "Execute the recurring task for schedule " ++ schedule.public_id ++ "."
      else text

/-- The prompt was accepted: timeout task, active cycle, `ScheduleFired`. -/
def open_cycle (s : SchedulerActor) (env : Env) (schedule : Schedule) : SchedulerActor :=
  let id := schedule.public_id
  let cycle := s.next_task
  let timeout :=
    if s.self_ref then TimerKind.Timeout id schedule.config.max_runtime_seconds
    else TimerKind.SilentTimeout id schedule.config.max_runtime_seconds
  let s :=
    (s.send (.scheduled_prompt cycle schedule.session_public_id
      ⟨id, prompt_text env schedule⟩)).send (.spawn cycle timeout)
  let s :=
    { s with
      next_task := cycle + 1
      active_cycles := s.active_cycles.insert id ⟨env.now, cycle⟩ }
  s.emit_event schedule.session_public_id (.ScheduleFired id schedule.session_public_id)

/-- `fire_schedule` without the calls of the failure handler. -/
def begin_cycle (s : SchedulerActor) (env : Env) (id : String) : SchedulerActor × FireOutcome :=
  let r := s.update_schedule_state env id .Armed .Running
  if r.2 = false then (r.1, .Denied)
  else
    match r.1.get_schedule env id with
    | none => (r.1, .NotLoaded)
    | some schedule =>
        if env.session_registered schedule.session_public_id = false then
          (r.1, .Ended "session not found in registry")
        else
          match env.tell_scheduled_prompt schedule.session_public_id with
          | .error e => (r.1, .Ended ("failed to send ScheduledPrompt: " ++ e))
          | .ok () => (r.1.open_cycle env schedule, .Sent)

/-! ## 4. Terminals -/

/-- Remove the active cycle of a schedule and abort its timeout. -/
def remove_active_cycle (s : SchedulerActor) (id : String) : SchedulerActor :=
  match s.active_cycles.lookup id with
  | none => s
  | some cycle =>
      { s with active_cycles := s.active_cycles.erase id }.abort (some cycle.timeout_handle)

/-- The deferred delete at the end of both terminal handlers. -/
def execute_pending_delete (s : SchedulerActor) (env : Env) (id : String) : SchedulerActor :=
  if id ∈ s.pending_deletes then
    { s with pending_deletes := s.pending_deletes.erase id }.delete_schedule env id
  else s

/-- The row a completion writes: `Exhausted` at `max_runs`, else `Armed` again,
with a new deadline for interval schedules only. -/
def completed_row (env : Env) (schedule : Schedule) : Schedule :=
  let updated :=
    { schedule with
      run_count := schedule.run_count + 1
      consecutive_failures := 0
      last_run_at := some env.now
      updated_at := env.now }
  match updated.config.max_runs with
  | some max_runs =>
      if max_runs ≤ updated.run_count then { updated with state := .Exhausted, next_run_at := none }
      else rearmed updated
  | none => rearmed updated
where
  rearmed (updated : Schedule) : Schedule :=
    match updated.trigger with
    | .Interval seconds =>
        { updated with
          state := .Armed
          next_run_at := some
            (compute_next_run_at env.jittered seconds updated.config.jitter_percent env.now) }
    | _ => { updated with state := .Armed }

/-- The row a failure writes: `Failed` at `max_consecutive_failures`, else `Armed`
with the back-off deadline, whatever the trigger. -/
def failed_row (env : Env) (schedule : Schedule) : Schedule :=
  let updated :=
    { schedule with
      consecutive_failures := schedule.consecutive_failures + 1
      last_run_at := some env.now
      updated_at := env.now }
  if updated.config.max_consecutive_failures ≤ updated.consecutive_failures then
    { updated with state := .Failed, next_run_at := none }
  else
    let backoff :=
      compute_backoff env.jittered schedule.config.backoff_base_seconds
        updated.consecutive_failures schedule.config.jitter_percent env.now
    { updated with state := .Armed, next_run_at := some (env.now + backoff) }

/-- The common tail of the terminal handlers: write the row, re-enqueue it when it
is armed again, and announce the state it ended in otherwise. -/
def write_terminal (s : SchedulerActor) (env : Env) (updated : Schedule) : SchedulerActor :=
  let s := s.update_schedule env updated
  match updated.state with
  | .Exhausted => s.emit_event updated.session_public_id (.ScheduleExhausted updated.public_id)
  | .Failed =>
      s.emit_event updated.session_public_id
        (.ScheduleFailed updated.public_id updated.consecutive_failures)
  | _ => s.enqueue_schedule env updated

/-- What the terminal handlers share. `key` is the pair the duplicate filter
remembers, `updated` the row to write, `announce` the closing event. -/
def handle_terminal (s : SchedulerActor) (env : Env) (key : String × Option String)
    (updated : Schedule → Schedule) (announce : Schedule → AgentEventKind) : SchedulerActor :=
  if key ∈ s.processed_terminals then s
  else
    let s := { s with processed_terminals := insert key s.processed_terminals }
    let s := s.remove_active_cycle key.1
    match s.get_schedule env key.1 with
    | none => s
    | some schedule =>
        ((s.write_terminal env (updated schedule)).execute_pending_delete env key.1).emit_event
          schedule.session_public_id (announce schedule)

/-- `handle_cycle_completed`. -/
def handle_cycle_completed (s : SchedulerActor) (env : Env) (id turn_id : String) :
    SchedulerActor :=
  s.handle_terminal env (id, some turn_id) (completed_row env) fun schedule =>
    .ScheduleCycleCompleted id turn_id (schedule.run_count + 1)

/-- `handle_cycle_failed_inner`. -/
def handle_cycle_failed_inner (s : SchedulerActor) (env : Env) (id : String)
    (turn_id : Option String) (error : String) : SchedulerActor :=
  s.handle_terminal env (id, turn_id) (failed_row env) fun _ =>
    .ScheduleCycleFailed id turn_id error

/-! ## 5. Schedule management -/

/-- `create_schedule` generates the public id when there is none. -/
def with_public_id (env : Env) (schedule : Schedule) : Schedule :=
  if schedule.public_id = "" then { schedule with public_id := env.uuid } else schedule

/-- `handle_add_schedule`: a failed insert changes nothing. -/
def handle_add_schedule (s : SchedulerActor) (env : Env) (schedule : Schedule) : SchedulerActor :=
  let schedule := with_public_id env schedule
  if env.create_ok schedule.public_id = false then s
  else
    match s.schedule_store.create_schedule schedule with
    | none => s
    | some store =>
        ({ s with schedule_store := store }.enqueue_schedule env schedule).emit_event
          schedule.session_public_id
          (.ScheduleCreated schedule.public_id schedule.session_public_id schedule.task_public_id)

/-- `handle_remove_schedule`: deferred while a cycle is active. -/
def handle_remove_schedule (s : SchedulerActor) (env : Env) (id : String) : SchedulerActor :=
  if id ∈ s.active_cycles then { s with pending_deletes := insert id s.pending_deletes }
  else
    let s := { s with event_counters := s.event_counters.erase id }
    (s.remove_deadline env id).delete_schedule env id

/-- The two compare-and-swaps of `handle_pause_schedule`: from `Armed`, else from
`Running` (the current turn completes). -/
def try_pause (s : SchedulerActor) (env : Env) (id : String) : SchedulerActor × Bool :=
  let from_armed := s.update_schedule_state env id .Armed .Paused
  if from_armed.2 then from_armed
  else from_armed.1.update_schedule_state env id .Running .Paused

/-- `handle_pause_schedule`. -/
def handle_pause_schedule (s : SchedulerActor) (env : Env) (id : String) : SchedulerActor :=
  let r := s.try_pause env id
  if r.2 then
    let s := { r.1 with deadline_queue := r.1.deadline_queue.remove id }
    ((s.reset_accumulator id).reschedule_wake env).emit_event "" (.SchedulePaused id)
  else r.1

/-- Reload a resumed schedule and re-enqueue it, an interval schedule with a new
deadline. -/
def reload_and_enqueue (s : SchedulerActor) (env : Env) (id : String) : SchedulerActor :=
  match s.get_schedule env id with
  | none => s
  | some schedule =>
      match schedule.trigger with
      | .Interval seconds =>
          let updated :=
            { schedule with
              next_run_at := some
                (compute_next_run_at env.jittered seconds schedule.config.jitter_percent env.now)
              updated_at := env.now }
          (s.update_schedule env updated).enqueue_schedule env updated
      | _ => s.enqueue_schedule env schedule

/-- `handle_resume_schedule`. -/
def handle_resume_schedule (s : SchedulerActor) (env : Env) (id : String) : SchedulerActor :=
  let r := s.update_schedule_state env id .Paused .Armed
  if r.2 then (r.1.reload_and_enqueue env id).emit_event "" (.ScheduleResumed id) else r.1

/-! ## 6. Event accumulators -/

/-- `acc.increment()`. -/
def increment (s : SchedulerActor) (id : String) : SchedulerActor :=
  match s.event_counters.lookup id with
  | none => s
  | some acc => { s with event_counters := s.event_counters.insert id acc.increment }

/-- Open the debounce window; a running debounce timer is replaced, not aborted. -/
def start_debounce (s : SchedulerActor) (env : Env) (id : String) (debounce_secs : ℕ) :
    SchedulerActor :=
  match s.event_counters.lookup id with
  | none => s
  | some acc =>
      let acc := { acc with debounce_until := some (env.now + debounce_secs * second) }
      if s.self_ref then
        { s.send (.spawn s.next_task (.Debounce id debounce_secs)) with
          next_task := s.next_task + 1
          event_counters :=
            s.event_counters.insert id { acc with debounce_handle := some s.next_task } }
      else { s with event_counters := s.event_counters.insert id acc }

/-- The debounce window closes below the threshold. -/
def clear_debounce (s : SchedulerActor) (id : String) : SchedulerActor :=
  match s.event_counters.lookup id with
  | none => s
  | some acc =>
      { s with event_counters := s.event_counters.insert id { acc with debounce_until := none } }

end SchedulerActor

end Querymt.Scheduler
