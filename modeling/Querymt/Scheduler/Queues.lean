/-
`Scheduler/Queues.lean` -- do the in-memory queues mirror the store?

`deadline_queue` and `event_counters` are copies of what the table holds: `initialize`
builds them from it, and every handler that writes a row inserts or removes for itself.
Three ways lead out of step. A deferred delete is executed after its terminal has
enqueued the schedule again, and takes nothing out of the queues; a schedule is enqueued
while an old entry of it is still there (a sweep fires without dequeuing, a late terminal
arms what is armed, `initialize` enqueues what it has just recovered); and a deadline
may not fit the `i64` of the queue. The file proves that there is no fourth.
-/
import Querymt.Scheduler.Deadlines
import Querymt.Scheduler.Events

set_option autoImplicit false

open Runs

namespace Querymt.Scheduler

open SchedulerActor

/-! ## 1. The law -/

/-- The deadline of a schedule that runs on deadlines. -/
def Schedule.deadline (r : Schedule) : Option OffsetDateTime :=
  if r.trigger.timed = true then r.next_run_at else none

namespace SchedulerActor

/-- What is in the queues is in the store, with the right trigger, and queued once. -/
structure Backed (s : SchedulerActor) : Prop where
  deadlines : ∀ e ∈ s.deadline_queue.heap, ∃ r ∈ s.row e.2, r.trigger.timed = true
  counters : ∀ id ∈ s.event_counters, ∃ r ∈ s.row id, r.trigger.timed = false
  once : (s.deadline_queue.heap.map Prod.snd).Nodup

/-- What is armed in the store has its deadline in the queue. -/
def Covers (s : SchedulerActor) : Prop :=
  ∀ id, ∀ r ∈ s.row id, r.state = .Armed → ∀ next ∈ r.deadline,
    (next, id) ∈ s.deadline_queue.heap

/-- **The law.** The queues mirror the store. -/
structure Mirrors (s : SchedulerActor) : Prop where
  backed : s.Backed
  covers : s.Covers

end SchedulerActor

/-- The actor after the handler of a message. -/
def handled (s : SchedulerActor) (i : Input) : SchedulerActor := run step s (handle i s)

/-- The store answers every call. -/
structure Env.Answers (env : Env) : Prop where
  update_state : ∀ id from_state to_state, env.update_state_ok id from_state to_state = true
  update : ∀ id, env.update_ok id = true
  create : ∀ id, env.create_ok id = true
  delete : ∀ id, env.delete_ok id = true
  get : ∀ id, env.get_ok id = true
  list_running : env.list_running_ok = true
  list_armed : env.list_armed_ok = true

theorem calm_answers (now : OffsetDateTime) : (Env.calm now).Answers :=
  ⟨fun _ _ _ => rfl, fun _ => rfl, fun _ => rfl, fun _ => rfl, fun _ => rfl, rfl, rfl⟩

/-! ## 2. The condition -/

/-- The row of a resumed schedule: an interval schedule gets a new deadline. -/
def resumed_row (env : Env) (r : Schedule) : Schedule :=
  match r.trigger with
  | .Interval seconds =>
      { with_state env .Armed r with
        next_run_at := some
          (compute_next_run_at env.jittered seconds r.config.jitter_percent env.now) }
  | _ => with_state env .Armed r

/-- The schedule an operation arms and enqueues: one listed at the start, a new one, a
resumed one, and one whose terminal is not a duplicate and not its last. -/
def Op.enqueued (env : Env) (s : SchedulerActor) : Op → Option Schedule
  | .enqueue_schedule schedule => some schedule
  | .add_schedule schedule =>
      if s.row (with_public_id env schedule).public_id = none then
        some (with_public_id env schedule)
      else none
  | .resume_schedule id =>
      if s.swaps env id .Paused .Armed = true then (s.row id).map (resumed_row env) else none
  | .cycle_completed _ id turn_id =>
      if (id, some turn_id) ∈ s.processed_terminals then none
      else ((s.row id).map (completed_row env)).filter fun r => decide (r.state = .Armed)
  | .cycle_failed _ id turn_id _ =>
      if (id, turn_id) ∈ s.processed_terminals then none
      else ((s.row id).map (failed_row env)).filter fun r => decide (r.state = .Armed)
  | _ => none

/-- The instants a deadline queue can hold, the years 1677 to 2262. -/
def InRange (next : OffsetDateTime) : Prop := -2 ^ 63 ≤ next ∧ next < 2 ^ 63

/-- What is enqueued with a deadline has no entry yet, and the deadline fits if it is
armed. -/
def EnqueuesOnce (s : SchedulerActor) (a : Act) : Prop :=
  ∀ q ∈ a.2.enqueued a.1 s, ∀ next ∈ q.deadline,
    ¬ s.Queued q.public_id ∧ (q.state = .Armed → InRange next)

/-- A terminal that executes a deferred delete enqueues nothing, and finds nothing of
the schedule in the queues. -/
def DeletesUnqueued (s : SchedulerActor) (a : Act) : Prop :=
  ∀ key ∈ a.2.terminal_key, key ∉ s.processed_terminals →
    s.deletes_pending a.1 key.1 = true →
      (∀ q ∈ a.2.enqueued a.1 s, q.trigger.timed = true ∧ q.next_run_at = none) ∧
        ¬ s.Queued key.1 ∧ key.1 ∉ s.event_counters

/-- **The condition** on an operation. -/
def Tidy (s : SchedulerActor) (a : Act) : Prop := EnqueuesOnce s a ∧ DeletesUnqueued s a

instance (next : OffsetDateTime) : Decidable (InRange next) :=
  inferInstanceAs (Decidable (-2 ^ 63 ≤ next ∧ next < 2 ^ 63))

instance (s : SchedulerActor) (a : Act) : Decidable (Tidy s a) :=
  inferInstanceAs (Decidable (
    (∀ q ∈ a.2.enqueued a.1 s, ∀ next ∈ q.deadline,
      ¬ s.Queued q.public_id ∧ (q.state = .Armed → InRange next)) ∧
      ∀ key ∈ a.2.terminal_key, key ∉ s.processed_terminals →
        s.deletes_pending a.1 key.1 = true →
          (∀ q ∈ a.2.enqueued a.1 s, q.trigger.timed = true ∧ q.next_run_at = none) ∧
            ¬ s.Queued key.1 ∧ key.1 ∉ s.event_counters))

theorem InRange.as_i64 {next : ℤ} (h : InRange next) : as_i64 next = next := by
  obtain ⟨hlow, hhigh⟩ : -2 ^ 63 ≤ next ∧ next < 2 ^ 63 := h
  unfold Scheduler.as_i64
  rw [Int.bmod_def]
  split <;> omega

/-! ## 3. What the operations do to the queues -/

namespace SchedulerActor

/-- From `s` to `s'` a schedule enters the queues. -/
structure Enqueues (q : Schedule) (s s' : SchedulerActor) : Prop where
  heap : s'.deadline_queue.heap =
    (q.deadline.map fun next => (as_i64 next, q.public_id)).toList ++ s.deadline_queue.heap
  counters : ∀ id, id ∈ s'.event_counters ↔
    id ∈ s.event_counters ∨ q.trigger.timed = false ∧ id = q.public_id

/-- From `s` to `s'` the queues are the same, up to the contents of accumulators. -/
structure SameQueues (s s' : SchedulerActor) : Prop where
  heap : s'.deadline_queue.heap = s.deadline_queue.heap
  counters : ∀ id, id ∈ s'.event_counters ↔ id ∈ s.event_counters

theorem SameQueues.of_eq {s s' : SchedulerActor} (hheap : s'.deadline_queue = s.deadline_queue)
    (hcounters : s'.event_counters = s.event_counters) : SameQueues s s' :=
  ⟨by rw [hheap], fun _ => by rw [hcounters]⟩

/-- A schedule enters the queues in the middle of an operation. -/
theorem Enqueues.mid {q : Schedule} {s t t' s' : SchedulerActor} (hst : SameQueues s t)
    (h : Enqueues q t t') (hts : SameQueues t' s') : Enqueues q s s' := by
  constructor
  · rw [hts.heap, h.heap, hst.heap]
  · intro id
    rw [hts.counters, h.counters, hst.counters]

theorem SameQueues.trans {s t s' : SchedulerActor} (h : SameQueues s t) (h' : SameQueues t s') :
    SameQueues s s' :=
  ⟨h'.heap.trans h.heap, fun id => (h'.counters id).trans (h.counters id)⟩

/-- Other fields may have changed before. -/
theorem SameQueues.after {s t s' : SchedulerActor} (h : SameQueues t s')
    (hheap : t.deadline_queue = s.deadline_queue) (hcounters : t.event_counters = s.event_counters) :
    SameQueues s s' :=
  (SameQueues.of_eq hheap hcounters).trans h

section

variable (s : SchedulerActor) (env : Env)

theorem sameQueues_abort (handle : Option ℕ) : SameQueues s (s.abort handle) := by
  cases handle <;> exact .of_eq rfl rfl

theorem sameQueues_emit_event (session_id : String) (kind : AgentEventKind) :
    SameQueues s (s.emit_event session_id kind) := .of_eq rfl rfl

theorem sameQueues_reschedule_wake : SameQueues s (s.reschedule_wake env) :=
  .of_eq (by simp) (by simp)

theorem sameQueues_update_schedule (schedule : Schedule) :
    SameQueues s (s.update_schedule env schedule) := by
  unfold update_schedule
  split <;> exact .of_eq rfl rfl

theorem sameQueues_delete_schedule (id : String) : SameQueues s (s.delete_schedule env id) := by
  unfold delete_schedule
  split <;> exact .of_eq rfl rfl

theorem sameQueues_update_schedule_state (id : String) (from_state to_state : ScheduleState) :
    SameQueues s (s.update_schedule_state env id from_state to_state).1 := by
  obtain ⟨store, h⟩ := s.update_schedule_state_eq env id from_state to_state
  rw [h]
  exact .of_eq rfl rfl

theorem sameQueues_remove_active_cycle (id : String) :
    SameQueues s (s.remove_active_cycle id) := by
  unfold remove_active_cycle
  split
  · exact .of_eq rfl rfl
  · exact (sameQueues_abort _ _).after rfl rfl

theorem sameQueues_execute_pending_delete (id : String) :
    SameQueues s (s.execute_pending_delete env id) := by
  unfold execute_pending_delete
  split
  · exact (sameQueues_delete_schedule _ env id).after rfl rfl
  · exact .of_eq rfl rfl

theorem sameQueues_try_pause (id : String) : SameQueues s (s.try_pause env id).1 := by
  unfold try_pause
  dsimp only
  split
  · exact s.sameQueues_update_schedule_state env id _ _
  · exact (s.sameQueues_update_schedule_state env id _ _).trans
      (sameQueues_update_schedule_state _ env id _ _)

/-- An accumulator is replaced. -/
theorem sameQueues_replace {id : String} {acc : EventAccumulator} (acc' : EventAccumulator)
    (h : s.event_counters.lookup id = some acc) :
    SameQueues s { s with event_counters := s.event_counters.insert id acc' } := by
  refine ⟨rfl, fun id' => ?_⟩
  rw [AList.mem_insert]
  constructor
  · rintro (rfl | hmem)
    · rw [← AList.lookup_isSome, h]
      rfl
    · exact hmem
  · exact Or.inr

theorem sameQueues_reset_accumulator (id : String) : SameQueues s (s.reset_accumulator id) := by
  unfold reset_accumulator
  split
  · exact .of_eq rfl rfl
  · next acc hacc => exact (s.sameQueues_replace acc.reset hacc).trans (sameQueues_abort _ _)

theorem sameQueues_begin_cycle (id : String) : SameQueues s (s.begin_cycle env id).1 := by
  have hswap := s.sameQueues_update_schedule_state env id .Armed .Running
  rcases s.begin_cycle_cases env id with ⟨-, heq⟩ | ⟨-, -, r, -, heq⟩
  · rw [heq]
    exact hswap
  · rw [heq]
    exact hswap.trans (.of_eq rfl rfl)

/-- **What `enqueue_schedule` does to the queues.** -/
theorem enqueues_enqueue_schedule (q : Schedule) : Enqueues q s (s.enqueue_schedule env q) := by
  have hinsert : ∀ next, q.trigger.timed = true → q.next_run_at = some next →
      Enqueues q s ({ s with deadline_queue := s.deadline_queue.insert next q.public_id
        }.reschedule_wake env) := by
    intro next htimed hnext
    constructor
    · simp [Schedule.deadline, htimed, hnext, DeadlineQueue.insert]
    · simp [htimed]
  unfold enqueue_schedule
  split
  · next seconds htrigger =>
      have htimed : q.trigger.timed = true := by rw [htrigger]; rfl
      split
      · next hnext => exact ⟨by simp [Schedule.deadline, hnext], by simp [htimed]⟩
      · next next hnext => exact hinsert next htimed hnext
  · next at_time htrigger =>
      have htimed : q.trigger.timed = true := by rw [htrigger]; rfl
      split
      · next hnext => exact ⟨by simp [Schedule.deadline, hnext], by simp [htimed]⟩
      · next next hnext => exact hinsert next htimed hnext
  · next event_filter debounce_secs htrigger =>
      have htimed : q.trigger.timed = false := by rw [htrigger]; rfl
      constructor
      · simp [Schedule.deadline, htimed]
      · intro id
        simp [htimed, or_comm]

end

/-! Which entries an operation keeps. -/

section

variable (s : SchedulerActor) (env : Env)

/-- A terminal that is not a duplicate enqueues the row it arms again, and nothing when
there is none. -/
theorem queues_handle_terminal (key : String × Option String) (updated : Schedule → Schedule)
    (announce : Schedule → AgentEventKind) (hget : env.get_ok key.1 = true)
    (hstate : ∀ r, (updated r).state = .Armed ∨ (updated r).state = .Exhausted ∨
      (updated r).state = .Failed) :
    match (if key ∈ s.processed_terminals then none
      else ((s.row key.1).map updated).filter fun r => decide (r.state = .Armed)) with
    | some q => Enqueues q s (s.handle_terminal env key updated announce)
    | none => SameQueues s (s.handle_terminal env key updated announce) := by
  unfold handle_terminal
  by_cases hdup : key ∈ s.processed_terminals
  · simp only [hdup, if_true]
    exact .of_eq rfl rfl
  · simp only [hdup, if_false]
    set s1 := ({ s with
      processed_terminals := insert key s.processed_terminals }).remove_active_cycle key.1 with hs1
    have hremove : SameQueues s s1 := (sameQueues_remove_active_cycle _ key.1).after rfl rfl
    have hrow : s1.row key.1 = s.row key.1 := by simp [hs1, row]
    unfold get_schedule
    rw [hrow, hget, if_pos rfl]
    cases hr : s.row key.1 with
    | none => exact hremove
    | some r =>
        -- the row is written, enqueued when it is armed, and perhaps deleted
        have hwrite := hremove.trans (s1.sameQueues_update_schedule env (updated r))
        have htail : ∀ t : SchedulerActor, SameQueues t
            ((t.execute_pending_delete env key.1).emit_event r.session_public_id (announce r)) :=
          fun t => (t.sameQueues_execute_pending_delete env key.1).trans
            (sameQueues_emit_event _ _ _)
        rw [Option.map_some]
        unfold write_terminal
        rcases hstate r with harmed | hexhausted | hfailed
        · rw [Option.filter_some_pos (by simpa using harmed)]
          simp only [harmed]
          exact (enqueues_enqueue_schedule _ env (updated r)).mid hwrite (htail _)
        · rw [Option.filter_some_neg (by simp [hexhausted])]
          simp only [hexhausted]
          exact (hwrite.trans (sameQueues_emit_event _ _ _)).trans (htail _)
        · rw [Option.filter_some_neg (by simp [hfailed])]
          simp only [hfailed]
          exact (hwrite.trans (sameQueues_emit_event _ _ _)).trans (htail _)

end

/-- From `s` to `s'` nothing enters the queues, and only entries of `id` may leave. -/
structure Dequeues (id : String) (s s' : SchedulerActor) : Prop where
  heap : s'.deadline_queue.heap = s.deadline_queue.heap ∨
    s'.deadline_queue.heap = s.deadline_queue.heap.filter fun e => e.2 ≠ id
  counters : ∀ id' ∈ s'.event_counters, id' ∈ s.event_counters

theorem SameQueues.dequeues {id : String} {s s' : SchedulerActor} (h : SameQueues s s') :
    Dequeues id s s' :=
  ⟨Or.inl h.heap, fun id' => (h.counters id').1⟩

theorem Dequeues.then {id : String} {s t s' : SchedulerActor} (hst : SameQueues s t)
    (h : Dequeues id t s') : Dequeues id s s' := by
  constructor
  · rw [← hst.heap]
    exact h.heap
  · intro id' hid'
    exact (hst.counters id').1 (h.counters id' hid')

theorem dequeues_remove_deadline (s : SchedulerActor) (env : Env) (id : String) :
    Dequeues id s (s.remove_deadline env id) :=
  ⟨Or.inr (by simp [remove_deadline, DeadlineQueue.remove]), by simp [remove_deadline]⟩

theorem dequeues_handle_pause_schedule (s : SchedulerActor) (env : Env) (id : String) :
    Dequeues id s (s.handle_pause_schedule env id) := by
  have hpause := s.sameQueues_try_pause env id
  unfold handle_pause_schedule
  dsimp only
  split
  · refine Dequeues.then hpause ?_
    set t := (s.try_pause env id).1
    have hreset := sameQueues_reset_accumulator
      { t with deadline_queue := t.deadline_queue.remove id } id
    constructor
    · right
      simp [emit_event, send, DeadlineQueue.remove]
    · intro id' hid'
      simp only [emit_event, send, reschedule_wake_event_counters] at hid'
      exact (hreset.counters id').1 hid'
  · exact hpause.dequeues

/-- A removal that is not deferred leaves nothing of the schedule in the queues. -/
theorem dequeues_handle_remove_schedule (s : SchedulerActor) (env : Env) (id : String) :
    Dequeues id s (s.handle_remove_schedule env id) ∧
      (id ∉ s.active_cycles → ¬ (s.handle_remove_schedule env id).Queued id ∧
        id ∉ (s.handle_remove_schedule env id).event_counters) := by
  unfold handle_remove_schedule
  split
  · next hactive =>
      exact ⟨⟨Or.inl rfl, fun _ hid => hid⟩, fun h => absurd hactive h⟩
  · have hdelete := sameQueues_delete_schedule
      ({ s with event_counters := s.event_counters.erase id }.remove_deadline env id) env id
    have hheap : (({ s with event_counters := s.event_counters.erase id }.remove_deadline env
        id).delete_schedule env id).deadline_queue.heap =
        s.deadline_queue.heap.filter fun e => e.2 ≠ id := by
      rw [hdelete.heap]
      simp [remove_deadline, DeadlineQueue.remove]
    refine ⟨⟨Or.inr hheap, fun id' hid' => ?_⟩, fun _ => ⟨?_, ?_⟩⟩
    · have hmem := (hdelete.counters id').1 hid'
      simp only [remove_deadline, reschedule_wake_event_counters, AList.mem_erase] at hmem
      exact hmem.2
    · rintro ⟨e, he, rfl⟩
      dsimp only at he
      rw [hheap] at he
      simpa using (List.mem_filter.1 he).2
    · intro hmem
      have := (hdelete.counters id).1 hmem
      simp [remove_deadline] at this

end SchedulerActor

/-- The schedule whose entries an operation removes. -/
def Op.dequeued : Op → Option String
  | .remove_deadline id => some id
  | .remove_schedule id => some id
  | .pause_schedule id => some id
  | _ => none

theorem dequeues_exec (env : Env) (s : SchedulerActor) {op : Op} {id : String}
    (h : op.dequeued = some id) : Dequeues id s (exec env s op) := by
  cases op with
  | remove_deadline id' => cases h; exact dequeues_remove_deadline s env id
  | remove_schedule id' => cases h; exact (dequeues_handle_remove_schedule s env id).1
  | pause_schedule id' => cases h; exact dequeues_handle_pause_schedule s env id
  | _ => cases h

/-- The states a completion or a failure leads to. -/
theorem terminal_states {env : Env} (op : Op) {key : String × Option String}
    {updated : Schedule → Schedule} (hop : op.terminal env = some (key, updated)) (r : Schedule) :
    (updated r).state = .Armed ∨ (updated r).state = .Exhausted ∨ (updated r).state = .Failed := by
  rcases (updated_row hop r).1 with ⟨-, harmed⟩ | ⟨-, hend⟩
  · exact Or.inl harmed
  · exact Or.inr hend

/-- The reload after a resume enqueues the resumed row. -/
theorem enqueues_resume {env : Env} (hans : env.Answers) {s : SchedulerActor} {id : String}
    {r : Schedule} (hswap : s.swaps env id .Paused .Armed = true) (hr : s.row id = some r) :
    Enqueues (resumed_row env r) s (s.handle_resume_schedule env id) ∧
      (s.handle_resume_schedule env id).row id = some (resumed_row env r) := by
  have hstate := s.sameQueues_update_schedule_state env id .Paused .Armed
  have hrow := s.row_update_schedule_state env id .Paused .Armed id
  simp only [hswap, and_self, if_true, hr, Option.map_some] at hrow
  unfold handle_resume_schedule
  dsimp only
  rw [update_schedule_state_snd, hswap, if_pos rfl]
  set t := (s.update_schedule_state env id .Paused .Armed).1
  have hpid : r.public_id = id := row_public_id hr
  unfold reload_and_enqueue get_schedule
  rw [hans.get, if_pos rfl, hrow]
  dsimp only
  unfold resumed_row
  have hemit : ∀ u : SchedulerActor, SameQueues u (u.emit_event "" (.ScheduleResumed id)) :=
    fun u => u.sameQueues_emit_event _ _
  cases htrigger : r.trigger with
  | Interval seconds =>
      simp only [with_state, htrigger]
      constructor
      · exact (enqueues_enqueue_schedule _ env _).mid
          (hstate.trans (sameQueues_update_schedule _ env _)) (hemit _)
      · have hwritten := t.row_update_schedule env { with_state env .Armed r with
          next_run_at := some
            (compute_next_run_at env.jittered seconds r.config.jitter_percent env.now) } id
        simp [with_state, hpid, hans.update, hrow, ScheduleStore.written, htrigger] at hwritten
        simpa [emit_event, send, row, hpid] using hwritten
  | EventDriven event_filter debounce_secs =>
      simp only [with_state, htrigger]
      exact ⟨(enqueues_enqueue_schedule _ env _).mid hstate (hemit _), by
        simpa [emit_event, send, row, with_state, htrigger] using hrow⟩
  | OnceAt at_time =>
      simp only [with_state, htrigger]
      exact ⟨(enqueues_enqueue_schedule _ env _).mid hstate (hemit _), by
        simpa [emit_event, send, row, with_state, htrigger] using hrow⟩

/-- A new schedule is stored as it is enqueued. -/
theorem enqueues_add {env : Env} (hans : env.Answers) {s : SchedulerActor} {schedule : Schedule}
    (hnew : s.row (with_public_id env schedule).public_id = none) :
    Enqueues (with_public_id env schedule) s (s.handle_add_schedule env schedule) ∧
      (s.handle_add_schedule env schedule).row (with_public_id env schedule).public_id =
        some (with_public_id env schedule) := by
  unfold handle_add_schedule
  dsimp only
  set added := with_public_id env schedule
  rw [hans.create, if_neg (by simp)]
  cases hcreate : s.schedule_store.create_schedule added with
  | none =>
      unfold ScheduleStore.create_schedule at hcreate
      split at hcreate
      · cases hcreate
      · next hold => exact absurd hnew hold
  | some store =>
      have hget := (ScheduleStore.get_create hcreate added.public_id).2
      constructor
      · have hstored : SameQueues s { s with schedule_store := store } := .of_eq rfl rfl
        exact (enqueues_enqueue_schedule _ env added).mid hstored (sameQueues_emit_event _ _ _)
      · simpa [emit_event, send, row] using hget

/-- An id that is taken is refused. -/
theorem handle_add_schedule_of_taken {env : Env} {s : SchedulerActor} {schedule : Schedule}
    (h : s.row (with_public_id env schedule).public_id ≠ none) :
    s.handle_add_schedule env schedule = s := by
  unfold handle_add_schedule
  dsimp only
  split
  · rfl
  · have hcreate : s.schedule_store.create_schedule (with_public_id env schedule) = none := by
      unfold ScheduleStore.create_schedule
      exact if_neg h
    rw [hcreate]

/-- **What an operation does to the queues**, when it removes nothing: it enqueues the
schedule it arms, and else leaves them. -/
theorem queues_exec {env : Env} (hans : env.Answers) (s : SchedulerActor) {op : Op}
    (hkeeps : op.dequeued = none) (hrestart : op ≠ .restart) :
    match op.enqueued env s with
    | some q => Enqueues q s (exec env s op)
    | none => SameQueues s (exec env s op) := by
  cases op with
  | set_self_ref => exact (sameQueues_reschedule_wake _ env).after rfl rfl
  | restart => exact absurd rfl hrestart
  | enqueue_schedule schedule => exact enqueues_enqueue_schedule s env schedule
  | remove_deadline id => cases hkeeps
  | fire id => exact s.sameQueues_begin_cycle env id
  | cycle_completed origin id turn_id =>
      exact s.queues_handle_terminal env (id, some turn_id) (completed_row env) _ (hans.get id)
        fun r => terminal_states (.cycle_completed origin id turn_id) rfl r
  | cycle_failed origin id turn_id error =>
      exact s.queues_handle_terminal env (id, turn_id) (failed_row env) _ (hans.get id)
        fun r => terminal_states (.cycle_failed origin id turn_id error) rfl r
  | add_schedule schedule =>
      unfold Op.enqueued exec
      dsimp only
      by_cases hnew : s.row (with_public_id env schedule).public_id = none
      · rw [if_pos hnew]
        exact (enqueues_add hans hnew).1
      · rw [if_neg hnew, handle_add_schedule_of_taken hnew]
        exact .of_eq rfl rfl
  | remove_schedule id => cases hkeeps
  | pause_schedule id => cases hkeeps
  | resume_schedule id =>
      unfold Op.enqueued exec
      dsimp only
      cases hswap : s.swaps env id .Paused .Armed with
      | true =>
          obtain ⟨r, hr, -⟩ := exists_row_of_swaps hswap
          rw [if_pos rfl, hr]
          exact (enqueues_resume hans hswap hr).1
      | false =>
          rw [if_neg (by simp), handle_resume_schedule, update_schedule_state_of_not_swaps hswap]
          exact .of_eq rfl rfl
  | increment id kind session_id =>
      show SameQueues s (s.increment id)
      unfold increment
      split
      · exact .of_eq rfl rfl
      · next acc hacc => exact s.sameQueues_replace _ hacc
  | reset_accumulator id => exact s.sameQueues_reset_accumulator id
  | start_debounce id debounce_secs =>
      show SameQueues s (s.start_debounce env id debounce_secs)
      unfold start_debounce
      split
      · exact .of_eq rfl rfl
      · next acc hacc =>
          dsimp only
          split
          · exact (s.sameQueues_replace _ hacc).trans (.of_eq rfl rfl)
          · exact s.sameQueues_replace _ hacc
  | clear_debounce id =>
      show SameQueues s (s.clear_debounce id)
      unfold clear_debounce
      split
      · exact .of_eq rfl rfl
      · next acc hacc => exact s.sameQueues_replace _ hacc

/-! ## 4. What the operations do to the rows -/

/-- A deferred delete that the terminal executes. -/
def Op.Deletes (env : Env) (s : SchedulerActor) (op : Op) : Prop :=
  ∃ key ∈ op.terminal_key, key ∉ s.processed_terminals ∧ s.deletes_pending env key.1 = true

/-- What is enqueued is what is stored, unless the terminal deletes it. -/
theorem row_enqueued {env : Env} (hans : env.Answers) {s : SchedulerActor} {op : Op} {q : Schedule}
    (hq : op.enqueued env s = some q) (hstored : EnqueuesStored s (env, op))
    (hkept : ¬ op.Deletes env s) : (exec env s op).row q.public_id = some q := by
  -- both terminal handlers
  have hterminal : ∀ (key : String × Option String) (updated : Schedule → Schedule),
      op.terminal env = some (key, updated) →
      (if key ∈ s.processed_terminals then none
        else ((s.row key.1).map updated).filter fun r => decide (r.state = .Armed)) = some q →
      (∀ r, (updated r).public_id = r.public_id) →
      (exec env s op).row q.public_id = some q := by
    intro key updated hop hq hid
    split at hq
    · cases hq
    · next hnew =>
        obtain ⟨hmem, -⟩ := Option.filter_eq_some_iff.1 hq
        obtain ⟨r, hr, rfl⟩ := Option.map_eq_some_iff.1 hmem
        have hdel : s.deletes_pending env key.1 ≠ true := by
          intro hdel
          refine hkept ⟨key, ?_, hnew, hdel⟩
          rw [terminal_key_eq env, hop]
          rfl
        rw [hid, row_public_id hr, row_terminal hop, if_pos ⟨rfl, hnew, hans.get key.1⟩,
          if_neg hdel, if_pos (hans.update key.1), hr]
        rfl
  cases op with
  | enqueue_schedule schedule =>
      cases hq
      have hrow : (exec env s (.enqueue_schedule q)).row q.public_id = s.row q.public_id := by
        simp [exec, row]
      rw [hrow]
      exact hstored q rfl
  | cycle_completed origin id turn_id =>
      exact hterminal (id, some turn_id) _ rfl hq (completed_row_public_id env)
  | cycle_failed origin id turn_id error =>
      exact hterminal (id, turn_id) _ rfl hq (failed_row_public_id env)
  | add_schedule schedule =>
      unfold Op.enqueued at hq
      dsimp only at hq
      split at hq
      · next hnew =>
          cases hq
          exact (enqueues_add hans hnew).2
      · cases hq
  | resume_schedule id =>
      unfold Op.enqueued at hq
      dsimp only at hq
      split at hq
      · next hswap =>
          obtain ⟨r, hr, rfl⟩ := Option.map_eq_some_iff.1 hq
          have hid : (resumed_row env r).public_id = id := by
            have hsame : (resumed_row env r).public_id = r.public_id := by
              unfold resumed_row
              split <;> rfl
            rw [hsame, row_public_id hr]
          rw [hid]
          exact (enqueues_resume hans hswap hr).2
      · cases hq
  | _ => cases hq

/-- What an operation finds or leaves armed is as it was, or is what it enqueues. -/
theorem armed_exec {env : Env} (hans : env.Answers) {s : SchedulerActor} {op : Op} {id : String}
    {r' : Schedule} (hr' : (exec env s op).row id = some r') (harmed : r'.state = .Armed) :
    s.row id = some r' ∨ op.enqueued env s = some r' := by
  rcases row_exec env s op id with hsame | hchange
  · exact Or.inl (hsame ▸ hr')
  · have hleft := hr'
    rw [hr'] at hchange
    generalize hrow' : some r' = row' at hchange
    cases hchange with
    | fired hrow _ => cases hrow'; cases harmed
    | @settled _ turn_id updated r hop hnew _ _ _ hrow =>
        right
        cases hrow'
        have hq : (if (id, turn_id) ∈ s.processed_terminals then none
            else ((s.row id).map updated).filter fun r => decide (r.state = .Armed)) =
            some (updated r) := by
          rw [if_neg hnew, hrow, Option.map_some, Option.filter_some_pos (by simpa using harmed)]
        cases op with
        | cycle_completed origin id' turn_id' => cases hop; exact hq
        | cycle_failed origin id' turn_id' error => cases hop; exact hq
        | _ => cases hop
    | deleted => cases hrow'
    | added hid hnone =>
        right
        cases hrow'
        subst hid
        exact if_pos hnone
    | removed => cases hrow'
    | paused hrow _ => cases hrow'; cases harmed
    | @resumed r _ hrow hswap _ =>
        right
        have hstored := (enqueues_resume hans hswap hrow).2
        have hq : (Op.resume_schedule id).enqueued env s = some (resumed_row env r) := by
          unfold Op.enqueued
          dsimp only
          rw [if_pos hswap, hrow, Option.map_some]
        rw [hq, ← hrow']
        exact hstored.symm.trans hleft

/-- A row survives an operation with its trigger, or is removed, or is deleted at last. -/
theorem row_left (env : Env) {s : SchedulerActor} (op : Op) {id : String} {r : Schedule}
    (hr : s.row id = some r) :
    (∃ r' ∈ (exec env s op).row id, r'.trigger = r.trigger) ∨
      (op = .remove_schedule id ∧ id ∉ s.active_cycles) ∨
      ∃ key ∈ op.terminal_key, key.1 = id ∧ key ∉ s.processed_terminals ∧
        s.deletes_pending env id = true := by
  cases hr' : (exec env s op).row id with
  | some r' => exact Or.inl ⟨r', rfl, trigger_exec hr hr'⟩
  | none =>
      right
      rcases row_exec env s op id with hsame | hchange
      · rw [hr', hr] at hsame
        cases hsame
      · rw [hr'] at hchange
        generalize hrow' : none = row' at hchange
        cases hchange with
        | @deleted _ turn_id updated _ hop hnew _ hdel _ =>
            right
            refine ⟨(id, turn_id), ?_, rfl, hnew, hdel⟩
            rw [terminal_key_eq env, hop]
            rfl
        | removed hinactive _ => exact Or.inl ⟨rfl, hinactive⟩
        | fired => cases hrow'
        | settled => cases hrow'
        | added => cases hrow'
        | paused => cases hrow'
        | resumed => cases hrow'

/-! ## 5. What every operation keeps -/

/-- Nothing entered the queues, and what is left in them is still stored. -/
theorem backed_of_left {s s' : SchedulerActor} (h : s.Backed)
    (hheap : s'.deadline_queue.heap.Sublist s.deadline_queue.heap)
    (hcounters : ∀ id ∈ s'.event_counters, id ∈ s.event_counters)
    (hleft : ∀ id, s'.Queued id ∨ id ∈ s'.event_counters → ∀ r, s.row id = some r →
      ∃ r' ∈ s'.row id, r'.trigger = r.trigger) : s'.Backed := by
  constructor
  · intro e he
    obtain ⟨r, hr, htimed⟩ := h.deadlines e (hheap.subset he)
    obtain ⟨r', hr', htrigger⟩ := hleft e.2 (Or.inl ⟨e, he, rfl⟩) r hr
    exact ⟨r', hr', by rw [htrigger]; exact htimed⟩
  · intro id hid
    obtain ⟨r, hr, htimed⟩ := h.counters id (hcounters id hid)
    obtain ⟨r', hr', htrigger⟩ := hleft id (Or.inr hid) r hr
    exact ⟨r', hr', by rw [htrigger]; exact htimed⟩
  · exact h.once.sublist (hheap.map Prod.snd)

/-- A schedule that is stored and not queued entered the queues. -/
theorem backed_of_enqueues {s s' : SchedulerActor} {q : Schedule} (h : s.Backed)
    (hq : Enqueues q s s') (hstored : s'.row q.public_id = some q)
    (hfresh : ∀ next ∈ q.deadline, ¬ s.Queued q.public_id)
    (hleft : ∀ id r, s.row id = some r → ∃ r' ∈ s'.row id, r'.trigger = r.trigger) :
    s'.Backed := by
  constructor
  · intro e he
    rw [hq.heap, List.mem_append, Option.mem_toList] at he
    rcases he with hnew | hold
    · obtain ⟨next, hnext, rfl⟩ := Option.map_eq_some_iff.1 hnew
      refine ⟨q, hstored, ?_⟩
      unfold Schedule.deadline at hnext
      split at hnext
      · next htimed => exact htimed
      · cases hnext
    · obtain ⟨r, hr, htimed⟩ := h.deadlines e hold
      obtain ⟨r', hr', htrigger⟩ := hleft e.2 r hr
      exact ⟨r', hr', by rw [htrigger]; exact htimed⟩
  · intro id hid
    rcases (hq.counters id).1 hid with hold | ⟨htimed, rfl⟩
    · obtain ⟨r, hr, hevent⟩ := h.counters id hold
      obtain ⟨r', hr', htrigger⟩ := hleft id r hr
      exact ⟨r', hr', by rw [htrigger]; exact hevent⟩
    · exact ⟨q, hstored, htimed⟩
  · rw [hq.heap]
    cases hdeadline : q.deadline with
    | none => exact h.once
    | some next =>
        rw [Option.map_some, Option.toList_some, List.singleton_append, List.map_cons,
          List.nodup_cons]
        refine ⟨?_, h.once⟩
        intro hmem
        obtain ⟨e, he, hid⟩ := List.mem_map.1 hmem
        exact hfresh next hdeadline ⟨e, he, hid⟩

/-- **One operation** keeps what is queued stored. -/
theorem backed_exec {env : Env} (hans : env.Answers) {s : SchedulerActor} {op : Op}
    (h : s.Backed) (hC : Tidy s (env, op)) (hstored : EnqueuesStored s (env, op)) :
    (exec env s op).Backed := by
  -- a deferred delete finds nothing in the queues
  have hdeleted : ∀ id, (∃ key ∈ op.terminal_key, key.1 = id ∧ key ∉ s.processed_terminals ∧
      s.deletes_pending env id = true) → ¬ s.Queued id ∧ id ∉ s.event_counters := by
    rintro id ⟨key, hkey, rfl, hnew, hdel⟩
    exact (hC.2 key hkey hnew hdel).2
  by_cases hrestart : op = .restart
  · subst hrestart
    exact ⟨fun e he => (by cases he), fun id hid => absurd hid (AList.notMem_empty id), by
      simp [exec]⟩
  · cases hkeeps : op.dequeued with
    | some id =>
        have hqueues := dequeues_exec env s hkeeps
        have hsub : (exec env s op).deadline_queue.heap.Sublist s.deadline_queue.heap := by
          rcases hqueues.heap with heq | heq
          · rw [heq]
          · rw [heq]
            exact List.filter_sublist
        refine backed_of_left h hsub hqueues.counters ?_
        intro id' hid' r hr
        rcases row_left env op hr with hleft | ⟨rfl, hinactive⟩ | hdel
        · exact hleft
        · have hgone := (s.dequeues_handle_remove_schedule env id').2 hinactive
          rcases hid' with hid' | hid'
          · exact absurd hid' hgone.1
          · exact absurd hid' hgone.2
        · obtain ⟨hunqueued, hunheard⟩ := hdeleted id' hdel
          rcases hid' with ⟨e, he, rfl⟩ | hid'
          · exact absurd ⟨e, hsub.subset he, rfl⟩ hunqueued
          · exact absurd (hqueues.counters id' hid') hunheard
    | none =>
        have hqueues := queues_exec hans s hkeeps hrestart
        -- the queues are the same, and every row they speak of is left
        have hsame : SameQueues s (exec env s op) → (exec env s op).Backed := by
          intro hsame
          refine backed_of_left h (by rw [hsame.heap]) (fun id => (hsame.counters id).1) ?_
          intro id hid r hr
          rcases row_left env op hr with hleft | ⟨rfl, -⟩ | hdel
          · exact hleft
          · cases hkeeps
          · obtain ⟨hunqueued, hunheard⟩ := hdeleted id hdel
            rcases hid with ⟨e, he, rfl⟩ | hid
            · rw [hsame.heap] at he
              exact absurd ⟨e, he, rfl⟩ hunqueued
            · exact absurd ((hsame.counters id).1 hid) hunheard
        cases hq : op.enqueued env s with
        | none =>
            rw [hq] at hqueues
            exact hsame hqueues
        | some q =>
            rw [hq] at hqueues
            by_cases hdel : op.Deletes env s
            · -- nothing is enqueued when the schedule is deleted
              obtain ⟨key, hkey, hnew, hpending⟩ := hdel
              obtain ⟨htimed, hnext⟩ := (hC.2 key hkey hnew hpending).1 q hq
              apply hsame
              constructor
              · rw [hqueues.heap]
                simp [Schedule.deadline, hnext]
              · intro id
                rw [hqueues.counters, htimed]
                simp
            · refine backed_of_enqueues h hqueues (row_enqueued hans hq hstored hdel)
                (fun next hnext => (hC.1 q hq next hnext).1) ?_
              intro id r hr
              rcases row_left env op hr with hleft | ⟨rfl, -⟩ | ⟨key, hkey, rfl, hnew, hpending⟩
              · exact hleft
              · cases hkeeps
              · exact absurd ⟨key, hkey, hnew, hpending⟩ hdel

/-- **One operation** keeps what is armed queued, unless it only dequeues. -/
theorem covers_exec {env : Env} (hans : env.Answers) {s : SchedulerActor} {op : Op}
    (h : s.Covers) (hC : EnqueuesOnce s (env, op)) (hrestart : op ≠ .restart)
    (hdequeue : ∀ id, op ≠ .remove_deadline id) : (exec env s op).Covers := by
  intro id r' hr' harmed next hnext
  rcases armed_exec hans hr' harmed with hold | hq
  · have hmem := h id r' hold harmed next hnext
    cases hkeeps : op.dequeued with
    | none =>
        have hqueues := queues_exec hans s hkeeps hrestart
        cases hq : op.enqueued env s with
        | none =>
            rw [hq] at hqueues
            rw [hqueues.heap]
            exact hmem
        | some q =>
            rw [hq] at hqueues
            rw [hqueues.heap]
            exact List.mem_append_right _ hmem
    | some id' =>
        rcases (dequeues_exec env s hkeeps).heap with heq | heq
        · rw [heq]
          exact hmem
        · rw [heq, List.mem_filter]
          refine ⟨hmem, decide_eq_true ?_⟩
          -- the entries that leave are those of a row that is gone or paused
          rintro rfl
          cases op with
          | remove_deadline id => exact absurd rfl (hdequeue id)
          | remove_schedule id' =>
              cases hkeeps
              have hrow := s.row_handle_remove_schedule env id id
              by_cases hactive : id ∈ s.active_cycles
              · have hkept : (exec env s (.remove_schedule id)).deadline_queue.heap =
                    s.deadline_queue.heap := by
                  simp [exec, handle_remove_schedule, hactive]
                rw [hkept] at heq
                rw [heq] at hmem
                simpa using (List.mem_filter.1 hmem).2
              · rw [if_pos ⟨rfl, hactive, hans.delete id⟩] at hrow
                rw [exec, hrow] at hr'
                cases hr'
          | pause_schedule id' =>
              cases hkeeps
              have hrow := s.row_handle_pause_schedule env id id
              have hpauses : s.pauses env id = true := by
                unfold pauses swaps
                rw [hold]
                simp [hans.update_state, harmed]
              rw [if_pos ⟨rfl, hpauses⟩, hold] at hrow
              rw [exec, hrow, Option.mem_def, Option.map_some, Option.some.injEq] at hr'
              rw [← hr'] at harmed
              cases harmed
          | _ => cases hkeeps
  · -- the deadline it was enqueued with fits the queue
    have hfits := (hC r' hq next hnext).2 harmed
    have hid : r'.public_id = id := row_public_id hr'
    cases hkeeps : op.dequeued with
    | some id' => cases op <;> first | (cases hkeeps; done) | cases hq
    | none =>
        have hqueues := queues_exec hans s hkeeps hrestart
        rw [hq] at hqueues
        rw [hqueues.heap, ← hid, hnext]
        simp [hfits.as_i64]

/-! ## 6. Messages -/

/-- What an operation needs: the condition, a store that answers, and, where it lists
rows, that they are still stored. -/
def Ready (s : SchedulerActor) (a : Act) : Prop :=
  Tidy s a ∧ EnqueuesStored s a ∧ a.1.Answers

theorem backed_run {s : SchedulerActor} {acts : List Act} (h : s.Backed)
    (hC : Along step Ready s acts) : (run step s acts).Backed := by
  refine run_invariant (I := Backed) hC ?_ h
  rintro t ⟨env, op⟩ ht ⟨htidy, hstored, hans⟩
  exact backed_exec hans ht htidy hstored

/-- A run that neither restarts nor dequeues on its own. -/
theorem covers_run {s : SchedulerActor} {acts : List Act} (h : s.Covers)
    (hC : Along step Ready s acts)
    (hops : ∀ a ∈ acts, a.2 ≠ .restart ∧ ∀ id, a.2 ≠ .remove_deadline id) :
    (run step s acts).Covers := by
  induction acts generalizing s with
  | nil => exact h
  | cons a acts ih =>
      obtain ⟨⟨htidy, -, hans⟩, hrest⟩ := hC
      obtain ⟨hrestart, hdequeue⟩ := hops a (by simp)
      refine ih (covers_exec hans h htidy.1 hrestart hdequeue) hrest ?_
      intro b hb
      exact hops b (by simp [hb])

/-- Dequeueing a schedule and firing it: what was armed runs, or was not armed. -/
theorem covers_remove_and_fire {env : Env} {id : String} {s : SchedulerActor} (h : s.Covers)
    (hC : Along step Ready s (Script.seq step (fun _ => [(env, .remove_deadline id)])
      (fire_schedule env id) s)) :
    (run step s (Script.seq step (fun _ => [(env, .remove_deadline id)])
      (fire_schedule env id) s)).Covers := by
  unfold Script.seq at hC ⊢
  rw [along_append] at hC
  rw [run_append]
  set t := run step s [(env, .remove_deadline id)] with ht
  have hrow : ∀ id', t.row id' = s.row id' := by
    intro id'
    simp [ht, step, exec, row]
  have hheap : t.deadline_queue.heap = s.deadline_queue.heap.filter fun e => e.2 ≠ id := by
    simp [ht, step, exec, remove_deadline, DeadlineQueue.remove]
  obtain ⟨-, hfire⟩ := hC
  unfold fire_schedule at hfire ⊢
  obtain ⟨⟨-, -, hready⟩, hrest⟩ := hfire
  have hans : env.Answers := hready
  rw [run_cons]
  refine covers_run ?_ hrest ?_
  · -- after the fire the schedule is not armed, and the others are as they were
    intro id' r' hr' harmed next hnext
    have hfired := t.row_begin_cycle env id id'
    have hrow' : (t.begin_cycle env id).1.row id' = some r' := hr'
    have hqueue : (t.begin_cycle env id).1.deadline_queue.heap = t.deadline_queue.heap :=
      (t.sameQueues_begin_cycle env id).heap
    rw [hrow'] at hfired
    by_cases hfires : id' = id ∧ t.swaps env id .Armed .Running = true
    · rw [if_pos hfires] at hfired
      obtain ⟨r, -, rfl⟩ := Option.map_eq_some_iff.1 hfired.symm
      cases harmed
    · rw [if_neg hfires, hrow] at hfired
      have hne : id' ≠ id := by
        rintro rfl
        refine hfires ⟨rfl, ?_⟩
        unfold swaps
        rw [hrow, ← hfired]
        simp [hans.update_state, harmed]
      show (next, id') ∈ (t.begin_cycle env id).1.deadline_queue.heap
      rw [hqueue, hheap, List.mem_filter]
      exact ⟨h id' r' hfired.symm harmed next hnext, by simpa using hne⟩
  · intro a ha
    split at ha
    · rw [List.mem_singleton] at ha
      subst ha
      exact ⟨by simp, by simp⟩
    · cases ha

/-- The loop of `rebuild_queues` queues the deadline of every row it goes over. -/
theorem queued_rebuild {env : Env} {xs : List Schedule} {s : SchedulerActor}
    (harmed : ∀ r ∈ xs, r.state = .Armed)
    (hC : Along step Ready s (Script.each step (fun r _ => [(env, Op.enqueue_schedule r)]) xs s)) :
    ∀ r ∈ xs, ∀ next ∈ r.deadline, (next, r.public_id) ∈
      (run step s (Script.each step (fun r _ => [(env, Op.enqueue_schedule r)]) xs
        s)).deadline_queue.heap := by
  induction xs generalizing s with
  | nil => simp
  | cons x xs ih =>
      obtain ⟨⟨htidy, -, -⟩, hrest⟩ := hC
      intro r hr next hnext
      rcases List.mem_cons.1 hr with rfl | hr
      · have hhead : (next, r.public_id) ∈
            (step s (env, .enqueue_schedule r)).deadline_queue.heap := by
          have hqueues := (s.enqueues_enqueue_schedule env r).heap
          show _ ∈ (s.enqueue_schedule env r).deadline_queue.heap
          rw [hqueues, hnext]
          simp [(((htidy.1 r rfl) next hnext).2 (harmed r (by simp))).as_i64]
        -- the rows after it only add entries
        simp only [Script.each, Script.seq, run_append]
        refine Script.each_keeps (fun t : SchedulerActor =>
          (next, r.public_id) ∈ t.deadline_queue.heap) ?_ hhead
        intro y _ t ht
        show _ ∈ (t.enqueue_schedule env y).deadline_queue.heap
        rw [(t.enqueues_enqueue_schedule env y).heap]
        exact List.mem_append_right _ ht
      · exact ih (fun y hy => harmed y (by simp [hy])) hrest r hr next hnext

/-- A start queues whatever is armed. -/
theorem covers_initialize {env : Env} (hans : env.Answers) {s : SchedulerActor}
    (hC : Along step Ready s (initialize_actor env s)) :
    (run step s (initialize_actor env s)).Covers := by
  unfold initialize_actor Script.seq at hC ⊢
  rw [along_append, along_append] at hC
  rw [run_append, run_append]
  obtain ⟨-, -, hrebuild⟩ := hC
  unfold rebuild_queues at hrebuild ⊢
  set t := run step (run step s [(env, Op.restart)])
    (recover_stale_running env (run step s [(env, Op.restart)]))
  intro id r hr harmed next hnext
  have hrows : (run step t (Script.each step (fun r _ => [(env, Op.enqueue_schedule r)])
      (all_armed env t) t)).row id = t.row id := by
    refine Script.each_keeps (fun u : SchedulerActor => u.row id = t.row id) ?_ rfl
    intro x _ u hu
    rw [← hu]
    simp [step, exec, row]
  rw [hrows] at hr
  have hpid : r.public_id = id := row_public_id hr
  have hlisted : r ∈ all_armed env t := by
    unfold all_armed
    rw [if_pos hans.list_armed, ScheduleStore.mem_list_all_armed]
    exact ⟨by rw [hpid]; exact hr, harmed⟩
  rw [← hpid]
  exact queued_rebuild (fun x hx => armed_of_mem_all_armed hx) hrebuild r hlisted next hnext

theorem Shares.ordinary {env : Env} {a : Act} (h : Shares env a) :
    a.2 ≠ .restart ∧ ∀ id, a.2 ≠ .remove_deadline id := by
  obtain ⟨env', op⟩ := a
  obtain ⟨-, hop⟩ := h
  cases op <;> first | exact hop.elim | exact ⟨by simp, by simp⟩

/-- **One message** keeps the mirror. -/
theorem mirrors_handled {s : SchedulerActor} {i : Input} (h : s.Mirrors)
    (hC : Along step Ready s (handle i s)) (hans : i.env.Answers) : (handled s i).Mirrors := by
  refine ⟨backed_run h.backed hC, ?_⟩
  have hcovers := h.covers
  unfold handled
  obtain ⟨env, msg⟩ := i
  have hshared : ∀ {a : Script SchedulerActor Act}, Script.Emits (Shares env) a →
      Along step Ready s (a s) → (run step s (a s)).Covers :=
    fun ha hrun => covers_run hcovers hrun fun b hb => (ha s b hb).ordinary
  have hone : ∀ {op : Op}, op ≠ .restart → (∀ id, op ≠ .remove_deadline id) →
      Along step Ready s [(env, op)] → (run step s [(env, op)]).Covers := by
    intro op hrestart hdequeue hrun
    refine covers_run hcovers hrun fun b hb => ?_
    rw [List.mem_singleton] at hb
    subst hb
    exact ⟨hrestart, hdequeue⟩
  cases msg with
  | SetSelfRef => exact hone (by simp) (by simp) hC
  | DeadlineReached id => exact covers_remove_and_fire hcovers hC
  | ProcessEvent envelope => exact hshared (process_event_emits env envelope) hC
  | Reconcile => exact hshared (reconcile_emits env) hC
  | CycleCompleted cycle id turn_id => exact hone (by simp) (by simp) hC
  | CycleFailed timer id turn_id error => exact hone (by simp) (by simp) hC
  | DebounceCompleted id => exact hshared (handle_debounce_completed_emits env id) hC
  | TriggerNow id => exact covers_remove_and_fire hcovers hC
  | AddSchedule schedule => exact hone (by simp) (by simp) hC
  | RemoveSchedule id => exact hone (by simp) (by simp) hC
  | PauseSchedule id => exact hone (by simp) (by simp) hC
  | ResumeSchedule id => exact hone (by simp) (by simp) hC
  | Restart => exact covers_initialize hans hC

/-- The condition and a store that answers are all a handler needs. -/
theorem ready_handle {s : SchedulerActor} {i : Input} (hans : i.env.Answers)
    (hC : Along step Tidy s (handle i s)) : Along step Ready s (handle i s) := by
  refine (hC.and (enqueuesStored_handle i s)).imp ?_
  rintro t a ha ⟨htidy, hstored⟩
  refine ⟨htidy, hstored, ?_⟩
  rw [(handle_emits i s a ha).1]
  exact hans

/-! ## 7. Runs -/

/-- The messages of a scheduler spawned on a table: `initialize` comes first. -/
def spawned (env : Env) (inputs : List Input) : List Input := ⟨env, .Restart⟩ :: inputs

/-- **The queues mirror the store** after every handler of every run of a scheduler, on
any table, from its start on: as long as the store answers and the operations meet the
condition. -/
theorem queues_mirror_store (store : ScheduleStore) (env : Env) (inputs : List Input)
    (hans : ∀ i ∈ spawned env inputs, i.env.Answers)
    (hC : Along handled (fun s i => Along step Tidy s (handle i s)) { schedule_store := store }
      (spawned env inputs)) :
    Along handled (fun s i => (handled s i).Mirrors) { schedule_store := store }
      (spawned env inputs) := by
  obtain ⟨hstart, hrest⟩ := hC
  -- the new scheduler has queued nothing before its start
  have hempty : ({ schedule_store := store } : SchedulerActor).Backed :=
    ⟨fun e he => (by cases he), fun id hid => absurd hid (AList.notMem_empty id), List.nodup_nil⟩
  have henv : env.Answers := hans ⟨env, .Restart⟩ (by simp [spawned])
  have hready := ready_handle (i := ⟨env, .Restart⟩) henv hstart
  have hstarted : (handled { schedule_store := store } ⟨env, .Restart⟩).Mirrors :=
    ⟨backed_run hempty hready, covers_initialize henv hready⟩
  refine ⟨hstarted, ?_⟩
  have hanswers : Along handled (fun _ i => i.env.Answers)
      (handled { schedule_store := store } ⟨env, .Restart⟩) inputs :=
    along_of_forall fun _ i hi => hans i (by simp [spawned, hi])
  have hstep : ∀ s i, s.Mirrors → i.env.Answers ∧ Along step Tidy s (handle i s) →
      (handled s i).Mirrors :=
    fun s i hs hi => mirrors_handled hs (ready_handle hi.1 hi.2) hi.1
  exact along_of_invariant (I := Mirrors) (hanswers.and hrest) hstep hstep hstarted

/-- Fire, complete, pause, resume, and fire again. -/
def orderly_life : List Input :=
  calmly
    [(0, .SetSelfRef),
     (0, .AddSchedule hourly),
     (3600 * second, .DeadlineReached "sched"),
     (3610 * second, .CycleCompleted 1 "sched" "turn-1"),
     (3700 * second, .PauseSchedule "sched"),
     (3800 * second, .ResumeSchedule "sched"),
     (7400 * second, .DeadlineReached "sched"),
     (7410 * second, .CycleCompleted 4 "sched" "turn-2")]

theorem orderly_life_mirrored :
    Along handled (fun s i => (handled s i).Mirrors) .initial
      (spawned (.calm 0) orderly_life) ∧
      (run handled .initial (spawned (.calm 0) orderly_life)).deadline_queue.heap =
        [(11010 * second, "sched")] := by
  refine ⟨queues_mirror_store .empty (.calm 0) orderly_life ?_ (by decide), by decide⟩
  intro i hi
  rcases List.mem_cons.1 hi with rfl | hi
  · exact calm_answers 0
  · obtain ⟨m, -, rfl⟩ := List.mem_map.1 hi
    exact calm_answers m.1

/-- A running schedule is removed; its completion deletes the row and leaves the
deadline it has just queued. -/
def removed_while_running : List Input :=
  calmly
    [(0, .SetSelfRef),
     (0, .AddSchedule hourly),
     (3600 * second, .DeadlineReached "sched"),
     (3605 * second, .RemoveSchedule "sched"),
     (3610 * second, .CycleCompleted 1 "sched" "turn-1")]

/-- The sweep fires a schedule whose deadline stays queued; its completion queues the
next one beside it. -/
def fired_by_sweep : List Input :=
  calmly
    [(0, .SetSelfRef),
     (0, .AddSchedule hourly),
     (3601 * second, .Reconcile),
     (3610 * second, .CycleCompleted 2 "sched" "turn-1")]

/-- A ghost in the queue of the one run, a schedule queued twice in the other; in both
the store answers every call. -/
theorem queues_out_of_step :
    ¬ Along handled (fun s i => (handled s i).Mirrors) .initial
        (spawned (.calm 0) removed_while_running) ∧
      ¬ Along handled (fun s i => (handled s i).Mirrors) .initial
        (spawned (.calm 0) fired_by_sweep) := by
  -- the law holds at the end of a run that meets it throughout
  have hend : ∀ inputs, Along handled (fun s i => (handled s i).Mirrors) .initial
      (spawned (.calm 0) inputs) → (run handled .initial (spawned (.calm 0) inputs)).Mirrors :=
    fun inputs h => forall_trace_iff.2 h _ (run_mem_trace _ _)
  constructor
  · intro h
    obtain ⟨r, hr, -⟩ := (hend _ h).backed.deadlines (7210 * second, "sched") (by decide)
    have hgone : (run handled .initial (spawned (.calm 0) removed_while_running)).row "sched" =
        none := by decide
    rw [hgone] at hr
    cases hr
  · intro h
    exact absurd (hend _ h).backed.once (by decide)

end Querymt.Scheduler
