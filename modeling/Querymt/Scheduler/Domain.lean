/-
`Scheduler/Domain.lean` -- the data the scheduler works on.

Mirrors `session/domain_schedule.rs` (schedules, triggers, states),
`scheduler/wake.rs` (deadline queue, event accumulator, next-run and back-off
arithmetic) and the row semantics of `session/repo_schedule.rs` (the `schedules`
table behind `ScheduleRepository`).

Instants are nanoseconds since the epoch. The jitter of `compute_next_run_at` is
floating point; it enters as the parameter `jittered`, the whole seconds the code
obtains from it.
-/
import Mathlib

set_option autoImplicit false

namespace Querymt.Scheduler

/-! ## 1. Schedules (`domain_schedule.rs`) -/

/-- Nanoseconds since the epoch. -/
abbrev OffsetDateTime := ℤ

/-- One second, in nanoseconds. -/
def second : ℤ := 1000000000

/-- Filter for event-driven triggers; `session_public_id = none` is any session. -/
structure EventTriggerFilter where
  event_kinds : List String
  threshold : ℕ
  session_public_id : Option String
  deriving DecidableEq, Repr

inductive ScheduleTrigger where
  | Interval (seconds : ℕ)
  | EventDriven (event_filter : EventTriggerFilter) (debounce_seconds : ℕ)
  | OnceAt (at_time : OffsetDateTime)
  deriving DecidableEq, Repr

inductive ScheduleState where
  | Armed
  | Running
  | Paused
  | Exhausted
  | Failed
  deriving DecidableEq, Repr

/-- Operational configuration; the defaults are those of `ScheduleConfig::default`. -/
structure ScheduleConfig where
  max_runs : Option ℕ := none
  max_consecutive_failures : ℕ := 3
  max_runtime_seconds : ℕ := 120
  jitter_percent : ℕ := 10
  backoff_base_seconds : ℕ := 60
  deriving DecidableEq, Repr

structure Schedule where
  public_id : String
  task_public_id : String
  session_public_id : String
  trigger : ScheduleTrigger
  state : ScheduleState
  last_run_at : Option OffsetDateTime
  next_run_at : Option OffsetDateTime
  run_count : ℕ
  consecutive_failures : ℕ
  config : ScheduleConfig
  created_at : OffsetDateTime
  updated_at : OffsetDateTime
  deriving DecidableEq, Repr

/-- The first `next_run_at` of a trigger. -/
def ScheduleTrigger.first_run_at (now : OffsetDateTime) : ScheduleTrigger → Option OffsetDateTime
  | .Interval seconds => some (now + seconds * second)
  | .EventDriven _ _ => none
  | .OnceAt at_time => some at_time

/-- `Schedule::new`: armed, never run, `max_runs = 1` for a one-shot trigger. The
public id is the generated uuid. -/
def Schedule.new (uuid task_public_id session_public_id : String) (trigger : ScheduleTrigger)
    (now : OffsetDateTime) : Schedule where
  public_id := uuid
  task_public_id := task_public_id
  session_public_id := session_public_id
  trigger := trigger
  state := .Armed
  last_run_at := none
  next_run_at := trigger.first_run_at now
  run_count := 0
  consecutive_failures := 0
  config :=
    match trigger with
    | .OnceAt _ => { max_runs := some 1 }
    | _ => {}
  created_at := now
  updated_at := now

/-- `Schedule::is_valid_transition`. -/
def Schedule.is_valid_transition : ScheduleState → ScheduleState → Bool
  | .Armed, .Running => true      -- normal firing
  | .Running, .Armed => true      -- cycle completed (below max_runs)
  | .Running, .Exhausted => true  -- cycle completed (max_runs reached)
  | .Running, .Failed => true     -- failure threshold reached
  | .Armed, .Paused => true       -- user pause from armed
  | .Running, .Paused => true     -- user pause from running
  | .Paused, .Armed => true       -- user resume
  | _, _ => false

/-- The match of `process_event`: the kind is listed and the session in scope. -/
def EventTriggerFilter.accepts (f : EventTriggerFilter) (kind session : String) : Bool :=
  f.event_kinds.contains kind &&
    match f.session_public_id with
    | none => true
    | some filter_session => filter_session == session

/-- Does an event of this kind and session match the schedule's filter? -/
def Schedule.accepts (row : Schedule) (kind session : String) : Bool :=
  match row.trigger with
  | .EventDriven event_filter _ => event_filter.accepts kind session
  | _ => false

/-- The filter of an event-driven trigger. -/
def ScheduleTrigger.event_filter : ScheduleTrigger → Option EventTriggerFilter
  | .EventDriven event_filter _ => some event_filter
  | _ => none

/-! ## 2. Wake arithmetic (`wake.rs`) -/

/-- `compute_next_run_at`: at least one second after `from_time`. -/
def compute_next_run_at (jittered : ℕ → ℕ → OffsetDateTime → ℤ)
    (interval_seconds jitter_percent : ℕ) (from_time : OffsetDateTime) : OffsetDateTime :=
  from_time + max 1 (jittered interval_seconds jitter_percent from_time) * second

/-- `compute_backoff`: `min(base * 2^failures, 3600)` seconds with jitter, at least
one second. (The saturating products of the source saturate far above 3600.) -/
def compute_backoff (jittered : ℕ → ℕ → OffsetDateTime → ℤ)
    (backoff_base_seconds consecutive_failures jitter_percent : ℕ) (now : OffsetDateTime) : ℤ :=
  let raw_delay := min (backoff_base_seconds * 2 ^ consecutive_failures) 3600
  max (compute_next_run_at jittered raw_delay jitter_percent now - now) second

/-- Min-heap of `(unix_timestamp_nanos, schedule_public_id)`, as a bag of entries. -/
structure DeadlineQueue where
  heap : List (ℤ × String) := []
  deriving DecidableEq

/-- `as i64` on a nanosecond timestamp. -/
def as_i64 (nanos : ℤ) : ℤ := nanos.bmod (2 ^ 64)

def DeadlineQueue.insert (q : DeadlineQueue) (next_run_at : OffsetDateTime)
    (schedule_public_id : String) : DeadlineQueue :=
  ⟨(as_i64 next_run_at, schedule_public_id) :: q.heap⟩

def DeadlineQueue.remove (q : DeadlineQueue) (schedule_public_id : String) : DeadlineQueue :=
  ⟨q.heap.filter fun entry => entry.2 ≠ schedule_public_id⟩

/-- The order of the heap's entries: by time, then by id. -/
def deadline_le (a b : ℤ × String) : Bool :=
  decide (a.1 < b.1) || (decide (a.1 = b.1) && decide (a.2 ≤ b.2))

/-- The earliest entry. -/
def DeadlineQueue.peek (q : DeadlineQueue) : Option (OffsetDateTime × String) :=
  q.heap.foldr (fun entry best =>
    match best with
    | none => some entry
    | some b => if deadline_le entry b then some entry else some b) none

/-- Per-schedule event accumulator; `debounce_handle` is the timer task. -/
structure EventAccumulator where
  count : ℕ
  threshold : ℕ
  debounce_until : Option OffsetDateTime
  debounce_handle : Option ℕ
  deriving DecidableEq, Repr

def EventAccumulator.new (threshold : ℕ) : EventAccumulator := ⟨0, threshold, none, none⟩

def EventAccumulator.increment (acc : EventAccumulator) : EventAccumulator :=
  { acc with count := acc.count + 1 }

def EventAccumulator.threshold_met (acc : EventAccumulator) : Bool :=
  decide (acc.threshold ≤ acc.count)

def EventAccumulator.is_debouncing (acc : EventAccumulator) (now : OffsetDateTime) : Bool :=
  match acc.debounce_until with
  | some until_time => decide (now < until_time)
  | none => false

/-- `reset`, with the timer it aborts left to the caller. -/
def EventAccumulator.reset (acc : EventAccumulator) : EventAccumulator :=
  { acc with count := 0, debounce_until := none, debounce_handle := none }

/-- Metadata of an in-flight cycle; `timeout_handle` is the timeout task. -/
structure ActiveCycle where
  started_at : OffsetDateTime
  timeout_handle : ℕ
  deriving DecidableEq, Repr

/-! ## 3. The schedules table (`repo_schedule.rs`) -/

/-- An order the source leaves open: the iteration order of a `HashMap`, the order
in which a query returns rows it does not sort. -/
structure Enumeration (α : Type) where
  order : List α → List α
  perm : ∀ l, (order l).Perm l

@[simp] theorem Enumeration.mem_order {α : Type} (e : Enumeration α) (l : List α) (x : α) :
    x ∈ e.order l ↔ x ∈ l :=
  (e.perm l).mem_iff

/-- The enumeration that keeps the stored order. -/
def Enumeration.stored (α : Type) : Enumeration α := ⟨id, List.Perm.refl⟩

/-- The `schedules` table: one row per `public_id`, filed under it. -/
structure ScheduleStore where
  rows : AList fun _ : String => Schedule
  keyed : ∀ id row, rows.lookup id = some row → row.public_id = id

namespace ScheduleStore

def empty : ScheduleStore := ⟨∅, by simp⟩

/-- `SELECT … WHERE public_id = ?`. -/
def get_schedule (st : ScheduleStore) (id : String) : Option Schedule := st.rows.lookup id

/-- `UPDATE … WHERE public_id = ?`; no row, no change. -/
def update_where (st : ScheduleStore) (id : String) (f : Schedule → Schedule)
    (hf : ∀ row, (f row).public_id = row.public_id) : ScheduleStore :=
  match h : st.rows.lookup id with
  | none => st
  | some row =>
      ⟨st.rows.insert id (f row), by
        intro id' row' hrow'
        by_cases hid : id' = id
        · subst hid
          rw [AList.lookup_insert, Option.some.injEq] at hrow'
          rw [← hrow', hf, st.keyed _ _ h]
        · rw [AList.lookup_insert_ne hid] at hrow'
          exact st.keyed _ _ hrow'⟩

/-- The columns `update_schedule` writes. -/
def written (schedule row : Schedule) : Schedule :=
  { row with
    trigger := schedule.trigger
    state := schedule.state
    last_run_at := schedule.last_run_at
    next_run_at := schedule.next_run_at
    run_count := schedule.run_count
    consecutive_failures := schedule.consecutive_failures
    config := schedule.config
    updated_at := schedule.updated_at }

/-- `update_schedule`, where the write itself succeeds. -/
def update_schedule (st : ScheduleStore) (schedule : Schedule) : ScheduleStore :=
  st.update_where schedule.public_id (written schedule) fun _ => rfl

/-- `update_schedule_state`: compare-and-swap on the state column; the flag says
whether exactly one row was affected. -/
def update_schedule_state (st : ScheduleStore) (id : String) (from_state to_state : ScheduleState)
    (now : OffsetDateTime) : ScheduleStore × Bool :=
  match st.get_schedule id with
  | none => (st, false)
  | some row =>
      if row.state = from_state then
        (st.update_where id (fun row => { row with state := to_state, updated_at := now })
          fun _ => rfl, true)
      else (st, false)

/-- `create_schedule`; `none` when the id violates the uniqueness constraint. -/
def create_schedule (st : ScheduleStore) (schedule : Schedule) : Option ScheduleStore :=
  if st.rows.lookup schedule.public_id = none then
    some ⟨st.rows.insert schedule.public_id schedule, by
      intro id row hrow
      by_cases hid : id = schedule.public_id
      · subst hid
        rw [AList.lookup_insert, Option.some.injEq] at hrow
        rw [← hrow]
      · rw [AList.lookup_insert_ne hid] at hrow
        exact st.keyed _ _ hrow⟩
  else none

def delete_schedule (st : ScheduleStore) (id : String) : ScheduleStore :=
  ⟨st.rows.erase id, by
    intro id' row hrow
    by_cases hid : id' = id
    · subst hid
      simp at hrow
    · rw [AList.lookup_erase_ne hid] at hrow
      exact st.keyed _ _ hrow⟩

/-- The stored rows, in some order. -/
def all (st : ScheduleStore) (e : Enumeration Schedule) : List Schedule :=
  e.order (st.rows.entries.map fun entry => entry.2)

/-- `ORDER BY` a nullable time column: nulls first, then the order of the formatted
texts. -/
def null_first_le (text_lt : OffsetDateTime → OffsetDateTime → Bool) :
    Option OffsetDateTime → Option OffsetDateTime → Bool
  | none, _ => true
  | some _, none => false
  | some a, some b => !text_lt b a

/-- `list_all_armed_schedules`. -/
def list_all_armed_schedules (st : ScheduleStore) (e : Enumeration Schedule)
    (text_lt : OffsetDateTime → OffsetDateTime → Bool) : List Schedule :=
  ((st.all e).filter fun row => decide (row.state = .Armed)).insertionSort
    fun a b => null_first_le text_lt a.next_run_at b.next_run_at = true

/-- `list_running_schedules_older_than`; a null `last_run_at` compares to nothing. -/
def list_running_schedules_older_than (st : ScheduleStore) (e : Enumeration Schedule)
    (text_lt : OffsetDateTime → OffsetDateTime → Bool) (cutoff : OffsetDateTime) : List Schedule :=
  ((st.all e).filter fun row =>
    decide (row.state = .Running) &&
      match row.last_run_at with
      | some last_run_at => text_lt last_run_at cutoff
      | none => false).insertionSort
    fun a b => null_first_le text_lt a.last_run_at b.last_run_at = true

/-! What each operation does to the row of an id. -/

@[simp] theorem get_empty (id : String) : empty.get_schedule id = none := rfl

theorem get_update_where (st : ScheduleStore) (id : String) (f : Schedule → Schedule)
    (hf : ∀ row, (f row).public_id = row.public_id) (id' : String) :
    (st.update_where id f hf).get_schedule id' =
      if id' = id then (st.get_schedule id).map f else st.get_schedule id' := by
  simp only [update_where, get_schedule]
  split
  · next h =>
      by_cases hid : id' = id
      · subst hid; simp [h]
      · simp [hid]
  · next row h =>
      by_cases hid : id' = id
      · subst hid; simp [h, AList.lookup_insert]
      · simp [hid, AList.lookup_insert_ne hid]

theorem get_update_schedule (st : ScheduleStore) (schedule : Schedule) (id' : String) :
    (st.update_schedule schedule).get_schedule id' =
      if id' = schedule.public_id then
        (st.get_schedule schedule.public_id).map (written schedule)
      else st.get_schedule id' :=
  get_update_where st schedule.public_id (written schedule) (fun _ => rfl) id'

theorem get_create {st st' : ScheduleStore} {schedule : Schedule}
    (h : st.create_schedule schedule = some st') (id : String) :
    st.get_schedule schedule.public_id = none ∧ st'.get_schedule id =
      if id = schedule.public_id then some schedule else st.get_schedule id := by
  unfold create_schedule at h
  split at h
  · next hnone =>
      refine ⟨hnone, ?_⟩
      simp only [Option.some.injEq] at h
      subst h
      by_cases hid : id = schedule.public_id
      · subst hid; simp [get_schedule, AList.lookup_insert]
      · simp [get_schedule, hid, AList.lookup_insert_ne hid]
  · exact absurd h (by simp)

@[simp] theorem get_delete (st : ScheduleStore) (id id' : String) :
    (st.delete_schedule id).get_schedule id' = if id' = id then none else st.get_schedule id' := by
  by_cases hid : id' = id
  · subst hid; simp [delete_schedule, get_schedule]
  · simp [delete_schedule, get_schedule, hid, AList.lookup_erase_ne hid]

theorem mem_all (st : ScheduleStore) (e : Enumeration Schedule) (row : Schedule) :
    row ∈ st.all e ↔ st.get_schedule row.public_id = some row := by
  simp only [all, Enumeration.mem_order, List.mem_map, get_schedule]
  constructor
  · rintro ⟨⟨id, row'⟩, hmem, rfl⟩
    have hlook : st.rows.lookup id = some row' := by
      rw [← Option.mem_def, AList.mem_lookup_iff]; exact hmem
    rw [st.keyed _ _ hlook]; exact hlook
  · intro hlook
    rw [← Option.mem_def, AList.mem_lookup_iff] at hlook
    exact ⟨_, hlook, rfl⟩

/-- The rows are filed under their ids, so each id is listed once. -/
theorem nodup_all (st : ScheduleStore) (e : Enumeration Schedule) :
    ((st.all e).map Schedule.public_id).Nodup := by
  have hrows : (st.rows.entries.map fun entry => entry.2.public_id) = st.rows.keys := by
    unfold AList.keys List.keys
    apply List.map_congr_left
    intro entry hentry
    apply st.keyed
    rw [← Option.mem_def, AList.mem_lookup_iff]
    exact hentry
  unfold all
  rw [((e.perm _).map Schedule.public_id).nodup_iff, List.map_map]
  exact hrows ▸ st.rows.keys_nodup

theorem mem_list_all_armed (st : ScheduleStore) (e : Enumeration Schedule)
    (text_lt : OffsetDateTime → OffsetDateTime → Bool) (row : Schedule) :
    row ∈ st.list_all_armed_schedules e text_lt ↔
      st.get_schedule row.public_id = some row ∧ row.state = .Armed := by
  simp [list_all_armed_schedules, List.mem_insertionSort, mem_all]

theorem mem_list_running (st : ScheduleStore) (e : Enumeration Schedule)
    (text_lt : OffsetDateTime → OffsetDateTime → Bool) (cutoff : OffsetDateTime)
    (row : Schedule) :
    row ∈ st.list_running_schedules_older_than e text_lt cutoff ↔
      st.get_schedule row.public_id = some row ∧ row.state = .Running ∧
        ∃ last_run_at ∈ row.last_run_at, text_lt last_run_at cutoff = true := by
  unfold list_running_schedules_older_than
  rw [List.mem_insertionSort, List.mem_filter, mem_all]
  cases row.last_run_at <;> simp

end ScheduleStore

end Querymt.Scheduler
