/-
`Scheduler/Rows.lean` -- what each operation does to the stored rows.

The schedule laws are laws about one row of the table, so the file says once, for
every operation, how the row of an id can change: `row_exec` is the inversion
lemma every later invariant proof starts from.
-/
import Querymt.Scheduler.Handlers

set_option autoImplicit false

open Runs

namespace Querymt.Scheduler

namespace SchedulerActor

/-! ## 1. Frames

`reschedule_wake` sits at the end of most operations and touches the wake task
only; `enqueue_schedule` adds a queue entry or an accumulator to that. -/

theorem peek_mem {q : DeadlineQueue} {e : ℤ × String} (h : q.peek = some e) : e ∈ q.heap := by
  obtain ⟨heap⟩ := q
  unfold DeadlineQueue.peek at h
  induction heap generalizing e with
  | nil => simp at h
  | cons x xs ih =>
      rw [List.foldr_cons] at h
      split at h
      · simp_all
      · next b hb =>
          split at h
          · simp_all
          · rw [Option.some.injEq] at h
            subst h
            exact List.mem_cons_of_mem _ (ih hb)

theorem abort_eq (s : SchedulerActor) (handle : Option ℕ) :
    ∃ out, s.abort handle = { s with outbox := s.outbox ++ out } ∧
      ∀ e ∈ out, ∃ task, e = .abort task := by
  cases handle with
  | none => exact ⟨[], by simp [abort], by simp⟩
  | some task => exact ⟨[.abort task], rfl, by simp⟩

/-- **What `reschedule_wake` can do**: abort a task, and spawn one wake task for an
id in the queue. -/
theorem reschedule_wake_eq (s : SchedulerActor) (env : Env) :
    ∃ handle n out, s.reschedule_wake env =
        { s with wake_handle := handle, next_task := s.next_task + n, outbox := s.outbox ++ out } ∧
      ∀ e ∈ out, (∃ task, e = .abort task) ∨
        ∃ t id seconds, e = .spawn s.next_task (.Wake id seconds) ∧ n = 1 ∧
          (t, id) ∈ s.deadline_queue.heap := by
  obtain ⟨out, hout, hall⟩ := s.abort_eq s.wake_handle
  unfold reschedule_wake
  rw [hout]
  dsimp only
  split
  · split
    · exact ⟨none, 0, out, rfl, fun e he => Or.inl (hall e he)⟩
    · next t id hpeek =>
        refine ⟨some s.next_task, 1, out ++ [.spawn s.next_task
          (.Wake id (max (t - env.now) 0 / second).toNat)], ?_, ?_⟩
        · rw [send, ← List.append_assoc]
        · intro e he
          rcases List.mem_append.1 he with he | he
          · exact Or.inl (hall e he)
          · rw [List.mem_singleton] at he
            exact Or.inr ⟨t, id, _, he, rfl, peek_mem hpeek⟩
  · exact ⟨none, 0, out, rfl, fun e he => Or.inl (hall e he)⟩

section

variable (s : SchedulerActor) (env : Env)

@[simp] theorem reschedule_wake_schedule_store :
    (s.reschedule_wake env).schedule_store = s.schedule_store := by
  obtain ⟨_, _, _, h, _⟩ := s.reschedule_wake_eq env
  rw [h]

@[simp] theorem reschedule_wake_event_counters :
    (s.reschedule_wake env).event_counters = s.event_counters := by
  obtain ⟨_, _, _, h, _⟩ := s.reschedule_wake_eq env
  rw [h]

@[simp] theorem reschedule_wake_deadline_queue :
    (s.reschedule_wake env).deadline_queue = s.deadline_queue := by
  obtain ⟨_, _, _, h, _⟩ := s.reschedule_wake_eq env
  rw [h]

@[simp] theorem reschedule_wake_active_cycles :
    (s.reschedule_wake env).active_cycles = s.active_cycles := by
  obtain ⟨_, _, _, h, _⟩ := s.reschedule_wake_eq env
  rw [h]

@[simp] theorem reschedule_wake_pending_deletes :
    (s.reschedule_wake env).pending_deletes = s.pending_deletes := by
  obtain ⟨_, _, _, h, _⟩ := s.reschedule_wake_eq env
  rw [h]

@[simp] theorem reschedule_wake_processed_terminals :
    (s.reschedule_wake env).processed_terminals = s.processed_terminals := by
  obtain ⟨_, _, _, h, _⟩ := s.reschedule_wake_eq env
  rw [h]

@[simp] theorem enqueue_schedule_schedule_store (schedule : Schedule) :
    (s.enqueue_schedule env schedule).schedule_store = s.schedule_store := by
  unfold enqueue_schedule
  split
  · split <;> simp
  · split <;> simp
  · rfl

@[simp] theorem enqueue_schedule_active_cycles (schedule : Schedule) :
    (s.enqueue_schedule env schedule).active_cycles = s.active_cycles := by
  unfold enqueue_schedule
  split
  · split <;> simp
  · split <;> simp
  · rfl

@[simp] theorem enqueue_schedule_pending_deletes (schedule : Schedule) :
    (s.enqueue_schedule env schedule).pending_deletes = s.pending_deletes := by
  unfold enqueue_schedule
  split
  · split <;> simp
  · split <;> simp
  · rfl

@[simp] theorem enqueue_schedule_processed_terminals (schedule : Schedule) :
    (s.enqueue_schedule env schedule).processed_terminals = s.processed_terminals := by
  unfold enqueue_schedule
  split
  · split <;> simp
  · split <;> simp
  · rfl

@[simp] theorem remove_deadline_schedule_store (id : String) :
    (s.remove_deadline env id).schedule_store = s.schedule_store := by
  simp [remove_deadline]

@[simp] theorem abort_schedule_store (task : Option ℕ) :
    (s.abort task).schedule_store = s.schedule_store := by
  cases task <;> rfl

@[simp] theorem reset_accumulator_schedule_store (id : String) :
    (s.reset_accumulator id).schedule_store = s.schedule_store := by
  unfold reset_accumulator
  split <;> simp

@[simp] theorem increment_schedule_store (id : String) :
    (s.increment id).schedule_store = s.schedule_store := by
  unfold increment
  split <;> rfl

@[simp] theorem start_debounce_schedule_store (id : String) (debounce_secs : ℕ) :
    (s.start_debounce env id debounce_secs).schedule_store = s.schedule_store := by
  unfold start_debounce
  split
  · rfl
  · dsimp only
    split <;> rfl

@[simp] theorem clear_debounce_schedule_store (id : String) :
    (s.clear_debounce id).schedule_store = s.schedule_store := by
  unfold clear_debounce
  split <;> rfl

@[simp] theorem remove_active_cycle_schedule_store (id : String) :
    (s.remove_active_cycle id).schedule_store = s.schedule_store := by
  unfold remove_active_cycle
  split <;> simp

@[simp] theorem remove_active_cycle_pending_deletes (id : String) :
    (s.remove_active_cycle id).pending_deletes = s.pending_deletes := by
  unfold remove_active_cycle
  split <;> rfl

@[simp] theorem emit_event_schedule_store (session_id : String) (kind : AgentEventKind) :
    (s.emit_event session_id kind).schedule_store = s.schedule_store := rfl

@[simp] theorem open_cycle_schedule_store (schedule : Schedule) :
    (s.open_cycle env schedule).schedule_store = s.schedule_store := rfl

@[simp] theorem update_schedule_pending_deletes (schedule : Schedule) :
    (s.update_schedule env schedule).pending_deletes = s.pending_deletes := by
  unfold update_schedule
  split <;> rfl

end

/-! ## 2. Single writes -/

/-- The row of an id is filed under it. -/
theorem row_public_id {s : SchedulerActor} {id : String} {r : Schedule} (h : s.row id = some r) :
    r.public_id = id :=
  s.schedule_store.keyed id r h

/-- A row with its state column changed by a compare-and-swap. -/
def with_state (env : Env) (to_state : ScheduleState) (r : Schedule) : Schedule :=
  { r with state := to_state, updated_at := env.now }

/-- Does the compare-and-swap succeed? -/
def swaps (s : SchedulerActor) (env : Env) (id : String) (from_state to_state : ScheduleState) :
    Bool :=
  env.update_state_ok id from_state to_state &&
    decide ((s.row id).map Schedule.state = some from_state)

theorem update_schedule_state_snd (s : SchedulerActor) (env : Env) (id : String)
    (from_state to_state : ScheduleState) :
    (s.update_schedule_state env id from_state to_state).2 = s.swaps env id from_state to_state := by
  unfold update_schedule_state ScheduleStore.update_schedule_state swaps row
  split
  · next hok =>
      dsimp only
      split
      · next h => simp [h]
      · next r h =>
          split
          · next hr => simp [h, hr, hok]
          · next hr => simp [h, hr]
  · next hok => simp [hok]

/-- A compare-and-swap that does not succeed changes nothing. -/
theorem update_schedule_state_of_not_swaps {s : SchedulerActor} {env : Env} {id : String}
    {from_state to_state : ScheduleState} (h : s.swaps env id from_state to_state = false) :
    s.update_schedule_state env id from_state to_state = (s, false) := by
  unfold swaps row at h
  unfold update_schedule_state ScheduleStore.update_schedule_state
  split
  · next hok =>
      dsimp only
      split
      · rfl
      · next r hr =>
          split
          · next hstate => simp [hok, hr, hstate] at h
          · rfl
  · rfl

theorem row_update_schedule_state (s : SchedulerActor) (env : Env) (id : String)
    (from_state to_state : ScheduleState) (id' : String) :
    (s.update_schedule_state env id from_state to_state).1.row id' =
      if id' = id ∧ s.swaps env id from_state to_state = true then
        (s.row id).map (with_state env to_state)
      else s.row id' := by
  unfold update_schedule_state ScheduleStore.update_schedule_state swaps row
  split
  · next hok =>
      dsimp only
      split
      · next h => simp [h]
      · next r h =>
          split
          · next hr =>
              rw [ScheduleStore.get_update_where]
              by_cases hid : id' = id
              · simp [hid, h, hr, hok, with_state]
              · simp [hid]
          · next hr => simp [h, hr]
  · next hok => simp [hok]

theorem row_update_schedule (s : SchedulerActor) (env : Env) (schedule : Schedule) (id' : String) :
    (s.update_schedule env schedule).row id' =
      if id' = schedule.public_id ∧ env.update_ok id' = true then
        (s.row id').map (ScheduleStore.written schedule)
      else s.row id' := by
  unfold update_schedule row
  split
  · next hok =>
      dsimp only
      rw [ScheduleStore.get_update_schedule]
      by_cases hid : id' = schedule.public_id
      · simp [hid, hok]
      · simp [hid]
  · next hok =>
      by_cases hid : id' = schedule.public_id
      · simp [hid, hok]
      · simp [hid]

theorem row_delete_schedule (s : SchedulerActor) (env : Env) (id id' : String) :
    (s.delete_schedule env id).row id' =
      if id' = id ∧ env.delete_ok id = true then none else s.row id' := by
  unfold delete_schedule row
  split
  · next hok => simp [hok]
  · next hok => simp [hok]

/-! ## 3. Terminals -/

theorem completed_row_public_id (env : Env) (r : Schedule) :
    (completed_row env r).public_id = r.public_id := by
  unfold completed_row completed_row.rearmed
  dsimp only
  split
  · split
    · rfl
    · split <;> rfl
  · split <;> rfl

theorem failed_row_public_id (env : Env) (r : Schedule) :
    (failed_row env r).public_id = r.public_id := by
  unfold failed_row
  dsimp only
  split <;> rfl

theorem row_write_terminal (s : SchedulerActor) (env : Env) (updated : Schedule) (id' : String) :
    (s.write_terminal env updated).row id' = (s.update_schedule env updated).row id' := by
  unfold write_terminal row
  dsimp only
  split <;> simp

/-- Is the pending delete of a schedule executed when its next terminal is? -/
def deletes_pending (s : SchedulerActor) (env : Env) (id : String) : Bool :=
  decide (id ∈ s.pending_deletes) && env.delete_ok id

theorem row_execute_pending_delete (s : SchedulerActor) (env : Env) (id id' : String) :
    (s.execute_pending_delete env id).row id' =
      if id' = id ∧ s.deletes_pending env id = true then none else s.row id' := by
  unfold execute_pending_delete deletes_pending
  split
  · next h =>
      rw [row_delete_schedule]
      simp [h, row]
  · next h => simp [h]

@[simp] theorem write_terminal_pending_deletes (s : SchedulerActor) (env : Env)
    (updated : Schedule) : (s.write_terminal env updated).pending_deletes = s.pending_deletes := by
  unfold write_terminal
  dsimp only
  split
  · exact update_schedule_pending_deletes s env updated
  · exact update_schedule_pending_deletes s env updated
  · simp

/-- The row a terminal with row function `updated` leaves, when it is not a
duplicate and the row can be read. -/
theorem row_handle_terminal (s : SchedulerActor) (env : Env) (key : String × Option String)
    (updated : Schedule → Schedule) (announce : Schedule → AgentEventKind)
    (hid : ∀ r, (updated r).public_id = r.public_id) (id' : String) :
    (s.handle_terminal env key updated announce).row id' =
      if id' = key.1 ∧ key ∉ s.processed_terminals ∧ env.get_ok key.1 = true then
        if s.deletes_pending env key.1 = true then none
        else if env.update_ok key.1 = true then
          (s.row key.1).map fun r => ScheduleStore.written (updated r) r
        else s.row key.1
      else s.row id' := by
  unfold handle_terminal
  split
  · next hdup => simp [hdup]
  · next hdup =>
      -- up to the read, nothing is written
      set s1 := ({ s with
        processed_terminals := insert key s.processed_terminals }).remove_active_cycle key.1 with hs1
      have hrow1 : ∀ id, s1.row id = s.row id := by
        intro id
        simp [hs1, row]
      have hpending : ∀ u, (s1.write_terminal env u).deletes_pending env key.1 =
          s.deletes_pending env key.1 := by
        intro u
        simp [deletes_pending, hs1]
      dsimp only
      unfold get_schedule
      rw [hrow1]
      by_cases hget : env.get_ok key.1 = true
      · simp only [hget, if_true, hdup, not_false_eq_true, and_true]
        cases hr : s.row key.1 with
        | none =>
            dsimp only
            rw [hrow1]
            by_cases hk : id' = key.1
            · simp [hk, hr]
            · simp [hk]
        | some r =>
            have hpid : (updated r).public_id = key.1 := by rw [hid, row_public_id hr]
            dsimp only
            rw [show ∀ (t : SchedulerActor) (a : String) (k : AgentEventKind) (i : String),
              (t.emit_event a k).row i = t.row i from fun _ _ _ _ => rfl,
              row_execute_pending_delete, hpending, row_write_terminal, row_update_schedule, hpid,
              hrow1]
            by_cases hk : id' = key.1
            · subst hk
              simp [hr]
            · simp [hk]
      · simp [hget, row]

@[simp] theorem written_completed_row (env : Env) (r : Schedule) :
    ScheduleStore.written (completed_row env r) r = completed_row env r := by
  unfold completed_row completed_row.rearmed
  dsimp only
  split
  · split
    · rfl
    · split <;> rfl
  · split <;> rfl

@[simp] theorem written_failed_row (env : Env) (r : Schedule) :
    ScheduleStore.written (failed_row env r) r = failed_row env r := by
  unfold failed_row
  dsimp only
  split <;> rfl

/-! ## 4. Firing, adding, pausing, resuming -/

theorem row_begin_cycle (s : SchedulerActor) (env : Env) (id id' : String) :
    (s.begin_cycle env id).1.row id' =
      if id' = id ∧ s.swaps env id .Armed .Running = true then
        (s.row id).map (with_state env .Running)
      else s.row id' := by
  have hsent : ∀ (t : SchedulerActor) (r : Schedule), (t.open_cycle env r).row id' = t.row id' :=
    fun _ _ => rfl
  rw [← row_update_schedule_state]
  unfold begin_cycle
  dsimp only
  split
  · rfl
  · split
    · rfl
    · split
      · rfl
      · split
        · rfl
        · exact hsent _ _

/-- Either compare-and-swap of `handle_pause_schedule` succeeds. -/
def pauses (s : SchedulerActor) (env : Env) (id : String) : Bool :=
  s.swaps env id .Armed .Paused || s.swaps env id .Running .Paused

theorem row_try_pause (s : SchedulerActor) (env : Env) (id id' : String) :
    (s.try_pause env id).1.row id' =
      if id' = id ∧ s.pauses env id = true then (s.row id).map (with_state env .Paused)
      else s.row id' := by
  unfold try_pause pauses
  cases harmed : s.swaps env id .Armed .Paused with
  | true =>
      simp only [update_schedule_state_snd, harmed, if_true, Bool.true_or]
      rw [row_update_schedule_state]
      simp [harmed]
  | false =>
      simp only [update_schedule_state_of_not_swaps harmed, Bool.false_eq_true, if_false,
        Bool.false_or]
      rw [row_update_schedule_state]

theorem row_handle_pause_schedule (s : SchedulerActor) (env : Env) (id id' : String) :
    (s.handle_pause_schedule env id).row id' =
      if id' = id ∧ s.pauses env id = true then (s.row id).map (with_state env .Paused)
      else s.row id' := by
  rw [← row_try_pause]
  unfold handle_pause_schedule
  dsimp only
  split
  · simp [row]
  · rfl

/-- Reloading a row keeps it, up to the deadline of an interval schedule. -/
theorem row_reload_and_enqueue (s : SchedulerActor) (env : Env) (id id' : String) :
    (s.reload_and_enqueue env id).row id' = s.row id' ∨
      id' = id ∧ ∃ r next seconds, s.row id = some r ∧ r.trigger = .Interval seconds ∧
        (s.reload_and_enqueue env id).row id' =
          some { r with next_run_at := next, updated_at := env.now } := by
  unfold reload_and_enqueue get_schedule
  by_cases hget : env.get_ok id = true
  · simp only [hget, if_true]
    cases hr : s.row id with
    | none => exact Or.inl rfl
    | some r =>
        have hpid : r.public_id = id := row_public_id hr
        dsimp only
        split
        · next seconds htrig =>
            set updated := { r with
              next_run_at := some
                (compute_next_run_at env.jittered seconds r.config.jitter_percent env.now)
              updated_at := env.now }
            have hrow : ((s.update_schedule env updated).enqueue_schedule env updated).row id' =
                (s.update_schedule env updated).row id' := by simp [row]
            rw [hrow, row_update_schedule]
            by_cases hk : id' = id ∧ env.update_ok id' = true
            · obtain ⟨rfl, hok⟩ := hk
              refine Or.inr ⟨rfl, r, updated.next_run_at, seconds, rfl, htrig, ?_⟩
              rw [if_pos ⟨hpid.symm, hok⟩, hr]
              rfl
            · rw [show updated.public_id = id from hpid, if_neg hk]
              exact Or.inl rfl
        · exact Or.inl (by simp [row])
  · exact Or.inl (by simp [hget])

theorem row_handle_resume_schedule (s : SchedulerActor) (env : Env) (id id' : String) :
    (s.handle_resume_schedule env id).row id' = s.row id' ∨
      id' = id ∧ s.swaps env id .Paused .Armed = true ∧ ∃ r next, s.row id = some r ∧
        (next = r.next_run_at ∨ ∃ seconds, r.trigger = .Interval seconds) ∧
        (s.handle_resume_schedule env id).row id' =
          some { with_state env .Armed r with next_run_at := next } := by
  unfold handle_resume_schedule
  dsimp only
  rw [update_schedule_state_snd]
  cases hsw : s.swaps env id .Paused .Armed with
  | false => exact Or.inl (by simp [update_schedule_state_of_not_swaps hsw])
  | true =>
      obtain ⟨r, hr⟩ : ∃ r, s.row id = some r := by
        unfold swaps at hsw
        cases h : s.row id with
        | none => simp [h] at hsw
        | some r => exact ⟨r, rfl⟩
      have hrow1 := s.row_update_schedule_state env id .Paused .Armed
      simp only [hsw, and_true, hr, Option.map_some] at hrow1
      simp only [if_true, true_and]
      rw [show ∀ t : SchedulerActor, (t.emit_event "" (.ScheduleResumed id)).row id' = t.row id' from
        fun _ => rfl]
      rcases row_reload_and_enqueue (s.update_schedule_state env id .Paused .Armed).1 env id id' with
        hsame | ⟨rfl, r1, next, seconds, hr1, htrig, hnew⟩
      · rw [hsame, hrow1]
        by_cases hk : id' = id
        · subst hk
          exact Or.inr ⟨rfl, r, r.next_run_at, hr, Or.inl rfl, by simp [with_state]⟩
        · exact Or.inl (by simp [hk])
      · rw [hrow1, if_pos rfl, Option.some.injEq] at hr1
        subst hr1
        exact Or.inr ⟨rfl, r, next, hr, Or.inr ⟨seconds, htrig⟩, by rw [hnew]; rfl⟩

theorem row_handle_remove_schedule (s : SchedulerActor) (env : Env) (id id' : String) :
    (s.handle_remove_schedule env id).row id' =
      if id' = id ∧ id ∉ s.active_cycles ∧ env.delete_ok id = true then none else s.row id' := by
  unfold handle_remove_schedule
  split
  · next h => simp [h, row]
  · next h =>
      dsimp only
      rw [row_delete_schedule]
      simp [h, row]

theorem row_handle_add_schedule (s : SchedulerActor) (env : Env) (schedule : Schedule)
    (id' : String) :
    (s.handle_add_schedule env schedule).row id' = s.row id' ∨
      (with_public_id env schedule).public_id = id' ∧ s.row id' = none ∧
        (s.handle_add_schedule env schedule).row id' = some (with_public_id env schedule) := by
  unfold handle_add_schedule
  dsimp only
  split
  · exact Or.inl rfl
  · cases hcreate : s.schedule_store.create_schedule (with_public_id env schedule) with
    | none => exact Or.inl rfl
    | some store =>
        have hget := ScheduleStore.get_create hcreate id'
        have hrow : (({ s with schedule_store := store }.enqueue_schedule env
            (with_public_id env schedule)).emit_event (with_public_id env schedule).session_public_id
              (.ScheduleCreated (with_public_id env schedule).public_id
                (with_public_id env schedule).session_public_id
                (with_public_id env schedule).task_public_id)).row id' =
            store.get_schedule id' := by
          simp [row]
        dsimp only
        rw [hrow, hget.2]
        by_cases hk : id' = (with_public_id env schedule).public_id
        · subst hk
          exact Or.inr ⟨rfl, hget.1, by simp⟩
        · exact Or.inl (by simp [hk, row])

end SchedulerActor

open SchedulerActor

/-! ## 5. The inversion lemma -/

/-- The key and the row function of a terminal operation. -/
def Op.terminal (env : Env) : Op → Option ((String × Option String) × (Schedule → Schedule))
  | .cycle_completed _ id turn_id => some ((id, some turn_id), completed_row env)
  | .cycle_failed _ id turn_id _ => some ((id, turn_id), failed_row env)
  | _ => none

/-- The key of a terminal in the duplicate filter. -/
def Op.terminal_key : Op → Option (String × Option String)
  | .cycle_completed _ id turn_id => some (id, some turn_id)
  | .cycle_failed _ id turn_id _ => some (id, turn_id)
  | _ => none

theorem terminal_key_eq (env : Env) (op : Op) :
    op.terminal_key = (op.terminal env).map Prod.fst := by
  cases op <;> rfl

/-- The ways an operation changes the row of `id`, with the row it leaves. -/
inductive RowChange (env : Env) (s : SchedulerActor) (id : String) : Op → Option Schedule → Prop
  | fired {r : Schedule} (hrow : s.row id = some r)
      (hswap : s.swaps env id .Armed .Running = true) :
      RowChange env s id (.fire id) (some (with_state env .Running r))
  | settled {op : Op} {turn_id : Option String} {updated : Schedule → Schedule} {r : Schedule}
      (hop : op.terminal env = some ((id, turn_id), updated))
      (hnew : (id, turn_id) ∉ s.processed_terminals) (hget : env.get_ok id = true)
      (hkeep : s.deletes_pending env id = false) (hok : env.update_ok id = true)
      (hrow : s.row id = some r) :
      RowChange env s id op (some (updated r))
  | deleted {op : Op} {turn_id : Option String} {updated : Schedule → Schedule} {r : Schedule}
      (hop : op.terminal env = some ((id, turn_id), updated))
      (hnew : (id, turn_id) ∉ s.processed_terminals) (hget : env.get_ok id = true)
      (hdel : s.deletes_pending env id = true) (hrow : s.row id = some r) :
      RowChange env s id op none
  | added {schedule : Schedule} (hid : (with_public_id env schedule).public_id = id)
      (hrow : s.row id = none) :
      RowChange env s id (.add_schedule schedule) (some (with_public_id env schedule))
  | removed (hactive : id ∉ s.active_cycles) (hok : env.delete_ok id = true) :
      RowChange env s id (.remove_schedule id) none
  | paused {r : Schedule} (hrow : s.row id = some r) (hpause : s.pauses env id = true) :
      RowChange env s id (.pause_schedule id) (some (with_state env .Paused r))
  | resumed {r : Schedule} {next : Option OffsetDateTime} (hrow : s.row id = some r)
      (hswap : s.swaps env id .Paused .Armed = true)
      (hnext : next = r.next_run_at ∨ ∃ seconds, r.trigger = .Interval seconds) :
      RowChange env s id (.resume_schedule id)
        (some { with_state env .Armed r with next_run_at := next })

theorem row_terminal {env : Env} {op : Op} {key : String × Option String}
    {updated : Schedule → Schedule} (hop : op.terminal env = some (key, updated))
    (s : SchedulerActor) (id : String) :
    (exec env s op).row id =
      if id = key.1 ∧ key ∉ s.processed_terminals ∧ env.get_ok key.1 = true then
        if s.deletes_pending env key.1 = true then none
        else if env.update_ok key.1 = true then (s.row key.1).map updated
        else s.row key.1
      else s.row id := by
  cases op with
  | cycle_completed origin id turn_id =>
      cases hop
      have h := s.row_handle_terminal env (id, some turn_id) (completed_row env)
        (fun schedule => .ScheduleCycleCompleted id turn_id (schedule.run_count + 1))
        (completed_row_public_id env)
      simp only [written_completed_row] at h
      exact h _
  | cycle_failed origin id turn_id error =>
      cases hop
      have h := s.row_handle_terminal env (id, turn_id) (failed_row env)
        (fun _ => .ScheduleCycleFailed id turn_id error) (failed_row_public_id env)
      simp only [written_failed_row] at h
      exact h _
  | _ => cases hop

/-- A terminal, seen from one row. -/
theorem row_exec_terminal {env : Env} {op : Op} {key : String × Option String}
    {updated : Schedule → Schedule} (hop : op.terminal env = some (key, updated))
    (s : SchedulerActor) (id : String) :
    (exec env s op).row id = s.row id ∨ RowChange env s id op ((exec env s op).row id) := by
  have h := row_terminal hop s id
  obtain ⟨kid, turn_id⟩ := key
  by_cases hc : id = kid ∧ (kid, turn_id) ∉ s.processed_terminals ∧ env.get_ok kid = true
  · rw [if_pos hc] at h
    obtain ⟨rfl, hnew, hget⟩ := hc
    dsimp only at h
    cases hr : s.row id with
    | none =>
        left
        rw [h, hr]
        split
        · rfl
        · split <;> rfl
    | some r =>
        rw [hr] at h
        cases hdel : s.deletes_pending env id with
        | true =>
            simp only [hdel, if_true] at h
            rw [h]
            exact Or.inr (.deleted hop hnew hget hdel hr)
        | false =>
            simp only [hdel, Bool.false_eq_true, if_false] at h
            by_cases hok : env.update_ok id = true
            · simp only [hok, if_true, Option.map_some] at h
              rw [h]
              exact Or.inr (.settled hop hnew hget hdel hok hr)
            · simp only [hok, Bool.false_eq_true, if_false] at h
              exact Or.inl h
  · rw [if_neg hc] at h
    exact Or.inl h

/-- A successful compare-and-swap found a row. -/
theorem exists_row_of_swaps {s : SchedulerActor} {env : Env} {id : String}
    {from_state to_state : ScheduleState} (h : s.swaps env id from_state to_state = true) :
    ∃ r, s.row id = some r ∧ r.state = from_state := by
  unfold swaps at h
  cases hr : s.row id with
  | none => simp [hr] at h
  | some r =>
      simp only [hr, Option.map_some, Option.some.injEq, Bool.and_eq_true, decide_eq_true_eq] at h
      exact ⟨r, rfl, h.2⟩

theorem exists_row_of_pauses {s : SchedulerActor} {env : Env} {id : String}
    (h : s.pauses env id = true) :
    ∃ r, s.row id = some r ∧ (r.state = .Armed ∨ r.state = .Running) := by
  unfold pauses at h
  rw [Bool.or_eq_true] at h
  rcases h with h | h
  · obtain ⟨r, hr, hst⟩ := exists_row_of_swaps h
    exact ⟨r, hr, Or.inl hst⟩
  · obtain ⟨r, hr, hst⟩ := exists_row_of_swaps h
    exact ⟨r, hr, Or.inr hst⟩

/-- **What an operation can do to a row**: nothing, or one of the changes above. -/
theorem row_exec (env : Env) (s : SchedulerActor) (op : Op) (id : String) :
    (exec env s op).row id = s.row id ∨ RowChange env s id op ((exec env s op).row id) := by
  cases op with
  | set_self_ref => exact Or.inl (by simp [exec, row])
  | restart => exact Or.inl rfl
  | enqueue_schedule schedule => exact Or.inl (by simp [exec, row])
  | remove_deadline id' => exact Or.inl (by simp [exec, row])
  | increment id' kind session_id => exact Or.inl (by simp [exec, row])
  | reset_accumulator id' => exact Or.inl (by simp [exec, row])
  | start_debounce id' debounce_secs => exact Or.inl (by simp [exec, row])
  | clear_debounce id' => exact Or.inl (by simp [exec, row])
  | cycle_completed origin id' turn_id => exact row_exec_terminal rfl s id
  | cycle_failed origin id' turn_id error => exact row_exec_terminal rfl s id
  | fire id' =>
      have h := s.row_begin_cycle env id' id
      by_cases hc : id = id' ∧ s.swaps env id' .Armed .Running = true
      · obtain ⟨rfl, hswap⟩ := hc
        obtain ⟨r, hr, -⟩ := exists_row_of_swaps hswap
        rw [if_pos ⟨rfl, hswap⟩, hr, Option.map_some] at h
        right
        rw [exec, h]
        exact .fired hr hswap
      · rw [if_neg hc] at h
        exact Or.inl h
  | add_schedule schedule =>
      rcases s.row_handle_add_schedule env schedule id with h | ⟨hid, hnone, h⟩
      · exact Or.inl h
      · right
        rw [exec, h]
        exact .added hid hnone
  | remove_schedule id' =>
      have h := s.row_handle_remove_schedule env id' id
      by_cases hc : id = id' ∧ id' ∉ s.active_cycles ∧ env.delete_ok id' = true
      · rw [if_pos hc] at h
        obtain ⟨rfl, hactive, hok⟩ := hc
        right
        rw [exec, h]
        exact .removed hactive hok
      · rw [if_neg hc] at h
        exact Or.inl h
  | pause_schedule id' =>
      have h := s.row_handle_pause_schedule env id' id
      by_cases hc : id = id' ∧ s.pauses env id' = true
      · obtain ⟨rfl, hpause⟩ := hc
        obtain ⟨r, hr, -⟩ := exists_row_of_pauses hpause
        rw [if_pos ⟨rfl, hpause⟩, hr, Option.map_some] at h
        right
        rw [exec, h]
        exact .paused hr hpause
      · rw [if_neg hc] at h
        exact Or.inl h
  | resume_schedule id' =>
      rcases s.row_handle_resume_schedule env id' id with h | ⟨rfl, hswap, r, next, hr, hnext, h⟩
      · exact Or.inl h
      · right
        rw [exec, h]
        exact .resumed hr hswap hnext

end Querymt.Scheduler
