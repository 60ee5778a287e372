/-
`Scheduler/Handlers.lean` -- the mailbox of `SchedulerActor`.

The elementary operations (`Op`), what each does to the actor (`exec`), and the
handlers of `scheduler/mod.rs` as scripts of operations. A run of the actor is a
list of inputs (a message and what its handling finds outside); `trace` is the
list of all operations of the run, each with its environment.

Terminal messages carry a ghost label, the cycle or timer they come from. The
source's messages do not have it and no handler reads it.
-/
import Querymt.Scheduler.Actor

set_option autoImplicit false

open Runs

namespace Querymt.Scheduler

/-! ## 1. Operations -/

/-- Where a terminal comes from: the session run of a cycle, a timeout task (both
by the number of the cycle), or the scheduler itself. -/
inductive Origin where
  | Session (cycle : ℕ)
  | Timer (cycle : ℕ)
  | Internal
  deriving DecidableEq, Repr

inductive Op where
  | set_self_ref
  /-- the process is gone and a new scheduler starts on the same store -/
  | restart
  | enqueue_schedule (schedule : Schedule)
  | remove_deadline (id : String)
  | fire (id : String)
  | cycle_completed (origin : Origin) (id turn_id : String)
  | cycle_failed (origin : Origin) (id : String) (turn_id : Option String) (error : String)
  | add_schedule (schedule : Schedule)
  | remove_schedule (id : String)
  | pause_schedule (id : String)
  | resume_schedule (id : String)
  | increment (id kind session_id : String)
  | reset_accumulator (id : String)
  | start_debounce (id : String) (debounce_secs : ℕ)
  | clear_debounce (id : String)
  deriving DecidableEq

/-- One operation. -/
def exec (env : Env) (s : SchedulerActor) : Op → SchedulerActor
  | .set_self_ref => { s with self_ref := true }.reschedule_wake env
  | .restart =>
      { schedule_store := s.schedule_store, next_task := s.next_task, outbox := s.outbox }
  | .enqueue_schedule schedule => s.enqueue_schedule env schedule
  | .remove_deadline id => s.remove_deadline env id
  | .fire id => (s.begin_cycle env id).1
  | .cycle_completed _ id turn_id => s.handle_cycle_completed env id turn_id
  | .cycle_failed _ id turn_id error => s.handle_cycle_failed_inner env id turn_id error
  | .add_schedule schedule => s.handle_add_schedule env schedule
  | .remove_schedule id => s.handle_remove_schedule env id
  | .pause_schedule id => s.handle_pause_schedule env id
  | .resume_schedule id => s.handle_resume_schedule env id
  | .increment id _ _ => s.increment id
  | .reset_accumulator id => s.reset_accumulator id
  | .start_debounce id debounce_secs => s.start_debounce env id debounce_secs
  | .clear_debounce id => s.clear_debounce id

/-- An operation with the environment it is executed in. -/
abbrev Act := Env × Op

def step (s : SchedulerActor) (a : Act) : SchedulerActor := exec a.1 s a.2

/-! ## 2. Handlers -/

/-- `fire_schedule`: a cycle that ends at once goes to the failure handler. -/
def fire_schedule (env : Env) (id : String) : Script SchedulerActor Act := fun s =>
  (env, .fire id) ::
    match (s.begin_cycle env id).2 with
    | .Ended error => [(env, .cycle_failed .Internal id none error)]
    | _ => []

/-- `handle_deadline_reached`. -/
def handle_deadline_reached (env : Env) (id : String) : Script SchedulerActor Act :=
  Script.seq step (fun _ => [(env, .remove_deadline id)]) (fire_schedule env id)

/-- `handle_trigger_now`: the same body. -/
def handle_trigger_now (env : Env) (id : String) : Script SchedulerActor Act :=
  Script.seq step (fun _ => [(env, .remove_deadline id)]) (fire_schedule env id)

/-- `acc.reset()` followed by `fire_schedule`. -/
def reset_and_fire (env : Env) (id : String) : Script SchedulerActor Act :=
  Script.seq step (fun _ => [(env, .reset_accumulator id)]) (fire_schedule env id)

/-- The part of `handle_event_received` after `acc.increment()`. -/
def after_increment (env : Env) (id : String) : Script SchedulerActor Act := fun s =>
  match s.event_counters.lookup id with
  | none => []
  | some acc =>
      if acc.threshold_met && !acc.is_debouncing env.now then
        match s.get_schedule env id with
        | none => []
        | some schedule =>
            match schedule.trigger with
            | .EventDriven _ debounce_secs =>
                if 0 < debounce_secs then [(env, .start_debounce id debounce_secs)]
                else reset_and_fire env id s
            | _ => []
      else []

/-- `handle_event_received`. -/
def handle_event_received (env : Env) (id kind session_id : String) : Script SchedulerActor Act :=
  Script.seq step (fun _ => [(env, .increment id kind session_id)]) (after_increment env id)

/-- `handle_debounce_completed`. -/
def handle_debounce_completed (env : Env) (id : String) : Script SchedulerActor Act := fun s =>
  match s.event_counters.lookup id with
  | none => []
  | some acc =>
      if acc.threshold_met then reset_and_fire env id s
      else [(env, .clear_debounce id)]

/-- The rows `list_running_schedules_older_than(now - 300 s)` returns. -/
def stale_running (env : Env) (s : SchedulerActor) : List Schedule :=
  if env.list_running_ok then
    s.schedule_store.list_running_schedules_older_than env.row_order env.text_lt
      (env.now - 300 * second)
  else []

/-- The rows `list_all_armed_schedules` returns. -/
def all_armed (env : Env) (s : SchedulerActor) : List Schedule :=
  if env.list_armed_ok then s.schedule_store.list_all_armed_schedules env.row_order env.text_lt
  else []

/-- Fail a stale schedule that is not an active cycle here. -/
def recover_stale (env : Env) (schedule : Schedule) : Script SchedulerActor Act := fun s =>
  if schedule.public_id ∈ s.active_cycles then []
  else
    [(env, .cycle_failed .Internal schedule.public_id none "recovered by reconciliation sweep")]

/-- Fire a listed schedule whose deadline has passed. -/
def fire_overdue (env : Env) (schedule : Schedule) : Script SchedulerActor Act :=
  match schedule.next_run_at with
  | none => fun _ => []
  | some next_run =>
      if next_run ≤ env.now then fire_schedule env schedule.public_id else fun _ => []

/-- `reconcile`, less the lease. -/
def reconcile (env : Env) : Script SchedulerActor Act :=
  Script.seq step
    (fun s => Script.each step (recover_stale env) (stale_running env s) s)
    (fun s => Script.each step (fire_overdue env) (all_armed env s) s)

/-- `recover_stale_running`. -/
def recover_stale_running (env : Env) : Script SchedulerActor Act := fun s =>
  Script.each step (fun schedule _ => [(env, .cycle_failed .Internal schedule.public_id none
    "recovered from stale running state on startup")]) (stale_running env s) s

/-- `rebuild_queues`. -/
def rebuild_queues (env : Env) : Script SchedulerActor Act := fun s =>
  Script.each step (fun schedule _ => [(env, .enqueue_schedule schedule)]) (all_armed env s) s

/-- A new scheduler on the same store: `SchedulerActor::new` and `initialize`. -/
def initialize_actor (env : Env) : Script SchedulerActor Act :=
  Script.seq step (fun _ => [(env, .restart)])
    (Script.seq step (recover_stale_running env) (rebuild_queues env))

/-- The events of the fanout, as `process_event` tells them apart; `cycle` is the
ghost label. -/
inductive FanoutEvent where
  | ScheduledExecutionCompleted (cycle : ℕ) (schedule_public_id turn_id : String)
  | ScheduledExecutionFailed (cycle : ℕ) (schedule_public_id : String) (turn_id : Option String)
      (error : String)
  | ScheduleDebounceCompleted (schedule_public_id : String)
  | Other (event_kind_name : String)
  deriving DecidableEq

structure EventEnvelope where
  session_id : String
  kind : FanoutEvent
  deriving DecidableEq

/-- One accumulator's turn in `process_event`. -/
def offer_event (env : Env) (kind session_id id : String) : Script SchedulerActor Act := fun s =>
  match s.get_schedule env id with
  | none => []
  | some schedule =>
      if schedule.accepts kind session_id then handle_event_received env id kind session_id s
      else []

/-- `process_event`. -/
def process_event (env : Env) (envelope : EventEnvelope) : Script SchedulerActor Act :=
  match envelope.kind with
  | .ScheduledExecutionCompleted cycle id turn_id =>
      fun _ => [(env, .cycle_completed (.Session cycle) id turn_id)]
  | .ScheduledExecutionFailed cycle id turn_id error =>
      fun _ => [(env, .cycle_failed (.Session cycle) id turn_id error)]
  | .ScheduleDebounceCompleted _ => fun _ => []
  | .Other kind => fun s =>
      Script.each step (offer_event env kind envelope.session_id)
        (env.key_order.order s.event_counters.keys) s

/-! ## 3. Messages and runs -/

inductive Msg where
  | SetSelfRef
  | DeadlineReached (id : String)
  | ProcessEvent (envelope : EventEnvelope)
  | Reconcile
  | CycleCompleted (cycle : ℕ) (id turn_id : String)
  | CycleFailed (timer : ℕ) (id : String) (turn_id : Option String) (error : String)
  | DebounceCompleted (id : String)
  | TriggerNow (id : String)
  | AddSchedule (schedule : Schedule)
  | RemoveSchedule (id : String)
  | PauseSchedule (id : String)
  | ResumeSchedule (id : String)
  /-- not a message: the process ends and a scheduler is spawned again -/
  | Restart
  deriving DecidableEq

/-- The schedule an `AddSchedule` carries. -/
def Msg.added_schedule : Msg → Option Schedule
  | .AddSchedule schedule => some schedule
  | _ => none

/-- A message with what its handling finds outside the actor. -/
structure Input where
  env : Env
  msg : Msg

def handle (i : Input) : Script SchedulerActor Act :=
  match i.msg with
  | .SetSelfRef => fun _ => [(i.env, .set_self_ref)]
  | .DeadlineReached id => handle_deadline_reached i.env id
  | .ProcessEvent envelope => process_event i.env envelope
  | .Reconcile => reconcile i.env
  | .CycleCompleted cycle id turn_id =>
      fun _ => [(i.env, .cycle_completed (.Session cycle) id turn_id)]
  | .CycleFailed timer id turn_id error =>
      fun _ => [(i.env, .cycle_failed (.Timer timer) id turn_id error)]
  | .DebounceCompleted id => handle_debounce_completed i.env id
  | .TriggerNow id => handle_trigger_now i.env id
  | .AddSchedule schedule => fun _ => [(i.env, .add_schedule schedule)]
  | .RemoveSchedule id => fun _ => [(i.env, .remove_schedule id)]
  | .PauseSchedule id => fun _ => [(i.env, .pause_schedule id)]
  | .ResumeSchedule id => fun _ => [(i.env, .resume_schedule id)]
  | .Restart => initialize_actor i.env

/-- All operations of a run, in order. -/
def trace (inputs : List Input) : Script SchedulerActor Act :=
  Script.each step handle inputs

/-- Messages with the times they are handled at, in an environment where nothing
fails. -/
def calmly (msgs : List (OffsetDateTime × Msg)) : List Input :=
  msgs.map fun m => ⟨.calm m.1, m.2⟩

theorem calmly_get_ok (msgs : List (OffsetDateTime × Msg)) :
    ∀ i ∈ calmly msgs, ∀ id, i.env.get_ok id = true := by
  intro i hi id
  obtain ⟨m, -, rfl⟩ := List.mem_map.1 hi
  rfl

/-! ## 4. Which message an operation comes from -/

/-- The operations a message may lead to: the management operations come from their
own message only, and so do the terminals that carry a label. -/
def Op.ComesFrom (msg : Msg) : Op → Prop
  | .set_self_ref => msg = .SetSelfRef
  | .restart => msg = .Restart
  | .enqueue_schedule _ => msg = .Restart
  | .add_schedule schedule => msg = .AddSchedule schedule
  | .remove_schedule id => msg = .RemoveSchedule id
  | .pause_schedule id => msg = .PauseSchedule id
  | .resume_schedule id => msg = .ResumeSchedule id
  | .cycle_completed origin _ _ => ∃ cycle, origin = .Session cycle
  | _ => True

/-- The operation is executed in the message's environment and belongs to it. -/
def Belongs (i : Input) (a : Act) : Prop :=
  a.1 = i.env ∧ a.2.ComesFrom i.msg

/-- The operations that several messages lead to: fires, terminals and the turns of an
accumulator. -/
def Op.Shared : Op → Prop
  | .cycle_completed origin _ _ => ∃ cycle, origin = .Session cycle
  | .fire _ | .cycle_failed _ _ _ _ | .increment _ _ _ | .reset_accumulator _
  | .start_debounce _ _ | .clear_debounce _ => True
  | _ => False

/-- A shared operation in an environment. -/
def Shares (env : Env) (a : Act) : Prop := a.1 = env ∧ a.2.Shared

theorem Shares.belongs {env : Env} {msg : Msg} {a : Act} (h : Shares env a) :
    Belongs ⟨env, msg⟩ a := by
  obtain ⟨env', op⟩ := a
  obtain ⟨henv, hop⟩ := h
  refine ⟨henv, ?_⟩
  cases op <;> first | exact hop | exact hop.elim

theorem emits_one {p : Act → Prop} {a : Act} (h : p a) :
    Script.Emits p (fun _ : SchedulerActor => [a]) := by
  intro s b hb
  rw [List.mem_singleton] at hb
  subst hb
  exact h

theorem emits_none {p : Act → Prop} : Script.Emits p (fun _ : SchedulerActor => []) := by
  intro s a ha
  cases ha

section

variable (env : Env)

theorem fire_schedule_emits (id : String) :
    Script.Emits (Shares env) (fire_schedule env id) := by
  intro s a ha
  simp only [fire_schedule, List.mem_cons] at ha
  rcases ha with rfl | ha
  · exact ⟨rfl, trivial⟩
  · split at ha
    · rw [List.mem_singleton] at ha
      subst ha
      exact ⟨rfl, trivial⟩
    · simp at ha

theorem reset_and_fire_emits (id : String) :
    Script.Emits (Shares env) (reset_and_fire env id) :=
  Script.Emits.seq (emits_one ⟨rfl, trivial⟩) (fire_schedule_emits env id)

theorem after_increment_emits (id : String) :
    Script.Emits (Shares env) (after_increment env id) := by
  intro s
  unfold after_increment
  split
  · exact emits_none s
  · split
    · split
      · exact emits_none s
      · split
        · split
          · exact emits_one ⟨rfl, trivial⟩ s
          · exact reset_and_fire_emits env id s
        · exact emits_none s
    · exact emits_none s

theorem offer_event_emits (kind session_id id : String) :
    Script.Emits (Shares env) (offer_event env kind session_id id) := by
  intro s
  unfold offer_event
  split
  · exact emits_none s
  · split
    · exact Script.Emits.seq (emits_one ⟨rfl, trivial⟩) (after_increment_emits env id) s
    · exact emits_none s

theorem process_event_emits (envelope : EventEnvelope) :
    Script.Emits (Shares env) (process_event env envelope) := by
  unfold process_event
  split
  · next cycle _ _ _ => exact emits_one ⟨rfl, cycle, rfl⟩
  · exact emits_one ⟨rfl, trivial⟩
  · exact emits_none
  · intro s
    exact Script.Emits.each (fun id _ => offer_event_emits env _ _ id) s

theorem handle_debounce_completed_emits (id : String) :
    Script.Emits (Shares env) (handle_debounce_completed env id) := by
  intro s
  unfold handle_debounce_completed
  split
  · exact emits_none s
  · split
    · exact reset_and_fire_emits env id s
    · exact emits_one ⟨rfl, trivial⟩ s

theorem recover_stale_emits (r : Schedule) :
    Script.Emits (Shares env) (recover_stale env r) := by
  intro s
  unfold recover_stale
  split
  · exact emits_none s
  · exact emits_one ⟨rfl, trivial⟩ s

theorem fire_overdue_emits (r : Schedule) : Script.Emits (Shares env) (fire_overdue env r) := by
  unfold fire_overdue
  split
  · exact emits_none
  · split
    · exact fire_schedule_emits env _
    · exact emits_none

theorem reconcile_emits : Script.Emits (Shares env) (reconcile env) := by
  refine Script.Emits.seq ?_ ?_
  · intro s
    exact Script.Emits.each (fun r _ => recover_stale_emits env r) s
  · intro s
    exact Script.Emits.each (fun r _ => fire_overdue_emits env r) s

end

section

variable (i : Input)

theorem initialize_actor_emits (hmsg : i.msg = .Restart) :
    Script.Emits (Belongs i) (initialize_actor i.env) := by
  refine Script.Emits.seq (emits_one ⟨rfl, hmsg⟩) (Script.Emits.seq ?_ ?_)
  · intro s
    exact Script.Emits.each (fun r _ => emits_one ⟨rfl, trivial⟩) s
  · intro s
    exact Script.Emits.each (fun r _ => emits_one ⟨rfl, hmsg⟩) s

theorem handle_emits : Script.Emits (Belongs i) (handle i) := by
  obtain ⟨env, msg⟩ := i
  cases msg with
  | SetSelfRef => exact emits_one ⟨rfl, rfl⟩
  | DeadlineReached id =>
      exact Script.Emits.seq (emits_one ⟨rfl, trivial⟩)
        ((fire_schedule_emits env id).mono fun _ => Shares.belongs)
  | ProcessEvent envelope => exact (process_event_emits env envelope).mono fun _ => Shares.belongs
  | Reconcile => exact (reconcile_emits env).mono fun _ => Shares.belongs
  | CycleCompleted cycle id turn_id => exact emits_one ⟨rfl, cycle, rfl⟩
  | CycleFailed timer id turn_id error => exact emits_one ⟨rfl, trivial⟩
  | DebounceCompleted id =>
      exact (handle_debounce_completed_emits env id).mono fun _ => Shares.belongs
  | TriggerNow id =>
      exact Script.Emits.seq (emits_one ⟨rfl, trivial⟩)
        ((fire_schedule_emits env id).mono fun _ => Shares.belongs)
  | AddSchedule schedule => exact emits_one ⟨rfl, rfl⟩
  | RemoveSchedule id => exact emits_one ⟨rfl, rfl⟩
  | PauseSchedule id => exact emits_one ⟨rfl, rfl⟩
  | ResumeSchedule id => exact emits_one ⟨rfl, rfl⟩
  | Restart => exact initialize_actor_emits ⟨env, .Restart⟩ rfl

end

/-- Every operation of a run comes from one of its messages. -/
theorem trace_emits (inputs : List Input) (s : SchedulerActor) :
    ∀ a ∈ trace inputs s, ∃ i ∈ inputs, Belongs i a := by
  refine Script.Emits.each ?_ s
  intro i hi
  exact (handle_emits i).mono fun a ha => ⟨i, hi, ha⟩

end Querymt.Scheduler
