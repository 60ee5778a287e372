/-
`Scheduler/Deadlines.lean` -- a deadline never fires a schedule early.

A wake task sleeps until the head of the deadline queue and then sends
`DeadlineReached` with nothing but the schedule's id. What the message finds may
be another deadline than the one the task slept for: the handler looks neither at
the queue entry nor at the row before it fires. Three ways lead there. The message
is handled after its entry left the queue and the schedule was armed again; a
schedule is armed again while an old entry of it is still queued (the sweep fires
without removing the entry, a late terminal re-arms what is armed); and a deadline
from the year 2262 on does not fit the `i64` of the queue. The file proves that
there is no fourth.

Wake tasks are ghost data: when each one was spawned and aborted is read off the
outbox, and a `DeadlineReached` is delivered only from a task that slept its delay
and was not aborted before.
-/
import Querymt.Scheduler.Accumulator
import Querymt.Scheduler.Legal

set_option autoImplicit false

open Runs

namespace Querymt.Scheduler

open SchedulerActor

/-! ## 1. Wake tasks and deliveries -/

/-- A wake task: the queue entry it was spawned for, the end of its sleep, and when
it was aborted. -/
structure WakeTask where
  task : ℕ
  schedule_public_id : String
  deadline : OffsetDateTime
  wakes_at : OffsetDateTime
  aborted_at : Option OffsetDateTime
  deriving DecidableEq

/-- What an effect does to the wake tasks; `head` is the head of the queue. -/
def note_effect (now : OffsetDateTime) (head : Option (OffsetDateTime × String))
    (tasks : List WakeTask) : Effect → List WakeTask
  | .spawn task (.Wake id seconds) =>
      match head with
      | none => tasks
      | some (next_time, _) => ⟨task, id, next_time, now + seconds * second, none⟩ :: tasks
  | .abort task =>
      tasks.map fun w =>
        if w.task = task ∧ w.aborted_at = none then { w with aborted_at := some now } else w
  | _ => tasks

/-- The wake tasks after an operation; none survives the process. -/
def note_wakes (s : SchedulerActor) (a : Act) (tasks : List WakeTask) : List WakeTask :=
  if a.2 = .restart then []
  else
    ((step s a).outbox.drop s.outbox.length).foldl
      (note_effect a.1.now (step s a).deadline_queue.peek) tasks

/-- The schedule a `DeadlineReached` names. -/
def Msg.deadline_reached : Msg → Option String
  | .DeadlineReached id => some id
  | _ => none

/-- The actor next to the wake tasks spawned so far. -/
abbrev Timed := SchedulerActor × List WakeTask

/-- A message of the mailbox, with the wake task that sent it if it is a
`DeadlineReached`. -/
structure Delivery where
  input : Input
  sender : ℕ := 0

/-- The handling of one message. -/
def deliver (p : Timed) (d : Delivery) : Timed :=
  run (instrument step note_wakes) p (handle d.input p.1)

/-- **What the runtime promises** about `DeadlineReached`: it is sent by a wake task of
the schedule that slept its delay without being aborted, and handled later. -/
def Delivered (p : Timed) (d : Delivery) : Prop :=
  ∀ id ∈ d.input.msg.deadline_reached,
    ∃ w ∈ p.2, w.task = d.sender ∧ w.schedule_public_id = id ∧
      w.wakes_at ≤ d.input.env.now ∧ ∀ t ∈ w.aborted_at, w.wakes_at ≤ t

/-! ## 2. The law -/

/-- Interval and one-shot triggers run on deadlines. -/
def ScheduleTrigger.timed : ScheduleTrigger → Bool
  | .Interval _ | .OnceAt _ => true
  | .EventDriven _ _ => false

/-- The schedule an operation tries to fire. -/
def Op.fires : Op → Option String
  | .fire id => some id
  | _ => none

/-- A fire that takes place finds the stored `next_run_at` reached, up to `tolerance`
nanoseconds. -/
def FiresDue (tolerance : ℤ) (s : SchedulerActor) (a : Act) : Prop :=
  ∀ id ∈ a.2.fires, s.swaps a.1 id .Armed .Running = true →
    ∀ r ∈ s.row id, r.trigger.timed = true → ∃ next ∈ r.next_run_at, next ≤ a.1.now + tolerance

/-- By how much a fire may come early: by the sub-second part that a wake task does not
sleep, and not at all in a sweep. The other messages fire without a deadline. -/
def Msg.tolerance : Msg → Option ℤ
  | .DeadlineReached _ => some (second - 1)
  | .Reconcile => some 0
  | _ => none

/-- **Never early**: every fire of a `DeadlineReached` or a `Reconcile` is due. -/
def NeverEarly (p : Timed) (d : Delivery) : Prop :=
  ∀ tolerance ∈ d.input.msg.tolerance,
    Along step (FiresDue tolerance) p.1 (handle d.input p.1)

/-! ## 3. The condition -/

/-- A `DeadlineReached` that finds its schedule armed finds the queue entry its task
slept for, and a deadline before the year 2262. -/
def Unsuperseded (p : Timed) (d : Delivery) : Prop :=
  ∀ id ∈ d.input.msg.deadline_reached,
    p.1.swaps d.input.env id .Armed .Running = true →
      (∀ w ∈ p.2, w.task = d.sender → (w.deadline, id) ∈ p.1.deadline_queue.heap) ∧
      ∀ r ∈ p.1.row id, ∀ next ∈ r.next_run_at, next < 2 ^ 63

/-- A schedule is added, resumed or armed again by a terminal only when no entry of it
is queued, and the store takes the row. -/
def RearmsUnqueued (s : SchedulerActor) (a : Act) : Prop :=
  match a.2 with
  | .add_schedule schedule => ¬ s.Queued (with_public_id a.1 schedule).public_id
  | .resume_schedule id =>
      s.swaps a.1 id .Paused .Armed = true → ¬ s.Queued id ∧ a.1.update_ok id = true
  | op =>
      ∀ key ∈ op.terminal_key, key ∉ s.processed_terminals →
        ∀ r ∈ s.row key.1, ¬ op.EndsSchedule r →
          ¬ s.Queued key.1 ∧ (a.1.update_ok key.1 = true ∨ r.state ≠ .Armed)

instance (tolerance : ℤ) (s : SchedulerActor) (a : Act) : Decidable (FiresDue tolerance s a) :=
  inferInstanceAs (Decidable (∀ id ∈ a.2.fires, s.swaps a.1 id .Armed .Running = true →
    ∀ r ∈ s.row id, r.trigger.timed = true → ∃ next ∈ r.next_run_at, next ≤ a.1.now + tolerance))

instance (p : Timed) (d : Delivery) : Decidable (NeverEarly p d) :=
  inferInstanceAs (Decidable (∀ tolerance ∈ d.input.msg.tolerance,
    Along step (FiresDue tolerance) p.1 (handle d.input p.1)))

instance (p : Timed) (d : Delivery) : Decidable (Delivered p d) :=
  inferInstanceAs (Decidable (∀ id ∈ d.input.msg.deadline_reached,
    ∃ w ∈ p.2, w.task = d.sender ∧ w.schedule_public_id = id ∧
      w.wakes_at ≤ d.input.env.now ∧ ∀ t ∈ w.aborted_at, w.wakes_at ≤ t))

instance (s : SchedulerActor) (id : String) : Decidable (s.Queued id) :=
  inferInstanceAs (Decidable (∃ e ∈ s.deadline_queue.heap, e.2 = id))

instance (p : Timed) (d : Delivery) : Decidable (Unsuperseded p d) :=
  inferInstanceAs (Decidable (∀ id ∈ d.input.msg.deadline_reached,
    p.1.swaps d.input.env id .Armed .Running = true →
      (∀ w ∈ p.2, w.task = d.sender → (w.deadline, id) ∈ p.1.deadline_queue.heap) ∧
      ∀ r ∈ p.1.row id, ∀ next ∈ r.next_run_at, next < 2 ^ 63))

/-- The condition on one message. -/
def Undisturbed (p : Timed) (d : Delivery) : Prop :=
  Unsuperseded p d ∧ Along step RearmsUnqueued p.1 (handle d.input p.1)

instance (s : SchedulerActor) (a : Act) : Decidable (RearmsUnqueued s a) :=
  match a with
  | (env, .add_schedule schedule) =>
      inferInstanceAs (Decidable (¬ s.Queued (with_public_id env schedule).public_id))
  | (env, .resume_schedule id) =>
      inferInstanceAs (Decidable (s.swaps env id .Paused .Armed = true →
        ¬ s.Queued id ∧ env.update_ok id = true))
  | (env, .cycle_completed origin id turn_id) =>
      rearmed env (.cycle_completed origin id turn_id)
  | (env, .cycle_failed origin id turn_id error) =>
      rearmed env (.cycle_failed origin id turn_id error)
  | (env, .set_self_ref) => rearmed env .set_self_ref
  | (env, .restart) => rearmed env .restart
  | (env, .enqueue_schedule schedule) => rearmed env (.enqueue_schedule schedule)
  | (env, .remove_deadline id) => rearmed env (.remove_deadline id)
  | (env, .fire id) => rearmed env (.fire id)
  | (env, .remove_schedule id) => rearmed env (.remove_schedule id)
  | (env, .pause_schedule id) => rearmed env (.pause_schedule id)
  | (env, .increment id kind session_id) => rearmed env (.increment id kind session_id)
  | (env, .reset_accumulator id) => rearmed env (.reset_accumulator id)
  | (env, .start_debounce id debounce_secs) => rearmed env (.start_debounce id debounce_secs)
  | (env, .clear_debounce id) => rearmed env (.clear_debounce id)
where
  rearmed (env : Env) (op : Op) :
      Decidable (∀ key ∈ op.terminal_key, key ∉ s.processed_terminals →
        ∀ r ∈ s.row key.1, ¬ op.EndsSchedule r →
          ¬ s.Queued key.1 ∧ (env.update_ok key.1 = true ∨ r.state ≠ .Armed)) :=
    inferInstance

instance (p : Timed) (d : Delivery) : Decidable (Undisturbed p d) :=
  inferInstanceAs
    (Decidable (Unsuperseded p d ∧ Along step RearmsUnqueued p.1 (handle d.input p.1)))

/-! ## 4. Queue entries are stored deadlines -/

/-- Every queue entry of an armed schedule is its stored deadline. -/
def QueueMatches (s : SchedulerActor) : Prop :=
  ∀ e ∈ s.deadline_queue.heap, ∀ r ∈ s.row e.2, r.state = .Armed →
    ∃ next ∈ r.next_run_at, e.1 = as_i64 next

/-- The queue only loses entries, and what is armed was armed with the same deadline. -/
theorem QueueMatches.mono {s s' : SchedulerActor} (h : QueueMatches s)
    (hqueue : ∀ e ∈ s'.deadline_queue.heap, e ∈ s.deadline_queue.heap)
    (hrow : ∀ id r', s'.row id = some r' → r'.state = .Armed →
      ∃ r, s.row id = some r ∧ r.state = .Armed ∧ r.next_run_at = r'.next_run_at) :
    QueueMatches s' := by
  intro e he r' hr' harmed
  obtain ⟨r, hr, hr_armed, hnext⟩ := hrow e.2 r' hr' harmed
  obtain ⟨next, hmem, heq⟩ := h e (hqueue e he) r hr hr_armed
  exact ⟨next, by rw [← hnext]; exact hmem, heq⟩

theorem as_i64_ge {next : ℤ} (h : next < 2 ^ 63) : next ≤ as_i64 next := by
  unfold as_i64
  rw [Int.bmod_def]
  split <;> omega

section

variable (s : SchedulerActor) (env : Env)

@[simp] theorem abort_deadline_queue (handle : Option ℕ) :
    (s.abort handle).deadline_queue = s.deadline_queue := by
  cases handle <;> rfl

@[simp] theorem update_schedule_deadline_queue (schedule : Schedule) :
    (s.update_schedule env schedule).deadline_queue = s.deadline_queue := by
  unfold update_schedule
  split <;> rfl

@[simp] theorem delete_schedule_deadline_queue (id : String) :
    (s.delete_schedule env id).deadline_queue = s.deadline_queue := by
  unfold delete_schedule
  split <;> rfl

@[simp] theorem update_schedule_state_deadline_queue (id : String)
    (from_state to_state : ScheduleState) :
    (s.update_schedule_state env id from_state to_state).1.deadline_queue = s.deadline_queue := by
  obtain ⟨store, h⟩ := s.update_schedule_state_eq env id from_state to_state
  rw [h]

@[simp] theorem reset_accumulator_deadline_queue (id : String) :
    (s.reset_accumulator id).deadline_queue = s.deadline_queue := by
  unfold reset_accumulator
  split <;> simp

@[simp] theorem remove_active_cycle_deadline_queue (id : String) :
    (s.remove_active_cycle id).deadline_queue = s.deadline_queue := by
  unfold remove_active_cycle
  split <;> simp

@[simp] theorem execute_pending_delete_deadline_queue (id : String) :
    (s.execute_pending_delete env id).deadline_queue = s.deadline_queue := by
  unfold execute_pending_delete
  split <;> simp

@[simp] theorem try_pause_deadline_queue (id : String) :
    (s.try_pause env id).1.deadline_queue = s.deadline_queue := by
  unfold try_pause
  dsimp only
  split <;> simp

/-- What `enqueue_schedule` adds to the queue: at most the schedule's deadline. -/
theorem mem_enqueue_schedule {schedule : Schedule} {e : ℤ × String}
    (he : e ∈ (s.enqueue_schedule env schedule).deadline_queue.heap) :
    e ∈ s.deadline_queue.heap ∨
      e.2 = schedule.public_id ∧ ∃ next ∈ schedule.next_run_at, e.1 = as_i64 next := by
  -- both kinds of deadline are inserted the same way
  have hinsert : ∀ next, schedule.next_run_at = some next →
      e ∈ ({ s with deadline_queue := s.deadline_queue.insert next schedule.public_id
        }.reschedule_wake env).deadline_queue.heap →
      e ∈ s.deadline_queue.heap ∨
        e.2 = schedule.public_id ∧ ∃ next ∈ schedule.next_run_at, e.1 = as_i64 next := by
    intro next hnext hmem
    rw [reschedule_wake_deadline_queue] at hmem
    rcases List.mem_cons.1 hmem with rfl | hmem
    · exact Or.inr ⟨rfl, next, hnext, rfl⟩
    · exact Or.inl hmem
  unfold enqueue_schedule at he
  split at he
  · split at he
    · exact Or.inl he
    · next next hnext => exact hinsert next hnext he
  · split at he
    · exact Or.inl he
    · next next hnext => exact hinsert next hnext he
  · exact Or.inl he

end

/-- A terminal adds at most the deadline of the row it writes, where it arms the
schedule again. -/
theorem mem_handle_terminal {s : SchedulerActor} {env : Env} {key : String × Option String}
    {updated : Schedule → Schedule} {announce : Schedule → AgentEventKind} {e : ℤ × String}
    (hid : ∀ r, (updated r).public_id = r.public_id)
    (he : e ∈ (s.handle_terminal env key updated announce).deadline_queue.heap) :
    e ∈ s.deadline_queue.heap ∨ key ∉ s.processed_terminals ∧ env.get_ok key.1 = true ∧
      e.2 = key.1 ∧ ∃ r, s.row key.1 = some r ∧ (updated r).state ≠ .Exhausted ∧
        (updated r).state ≠ .Failed ∧
        ∃ next ∈ (updated r).next_run_at, e.1 = as_i64 next := by
  unfold handle_terminal at he
  split at he
  · exact Or.inl he
  · next hnew =>
      dsimp only at he
      split at he
      · rw [remove_active_cycle_deadline_queue] at he
        exact Or.inl he
      · next r hread =>
          obtain ⟨hget, hrow⟩ : env.get_ok key.1 = true ∧ s.row key.1 = some r := by
            unfold get_schedule at hread
            split at hread
            · next hget => exact ⟨hget, by simpa [row] using hread⟩
            · cases hread
          have hpid : (updated r).public_id = key.1 := by rw [hid, row_public_id hrow]
          simp only [emit_event, send, execute_pending_delete_deadline_queue] at he
          unfold write_terminal at he
          dsimp only at he
          split at he
          · exact Or.inl (by simpa [emit_event, send] using he)
          · exact Or.inl (by simpa [emit_event, send] using he)
          · next hexhausted hfailed =>
              rcases mem_enqueue_schedule _ env he with he | ⟨hkey, hnext⟩
              · exact Or.inl (by simpa using he)
              · exact Or.inr ⟨hnew, hget, hkey.trans hpid, r, hrow, hexhausted, hfailed, hnext⟩

/-- The queue after a terminal operation. -/
theorem mem_exec_terminal {env : Env} {s : SchedulerActor} {op : Op}
    {key : String × Option String} {updated : Schedule → Schedule} {e : ℤ × String}
    (hop : op.terminal env = some (key, updated))
    (he : e ∈ (exec env s op).deadline_queue.heap) :
    e ∈ s.deadline_queue.heap ∨ key ∉ s.processed_terminals ∧ env.get_ok key.1 = true ∧
      e.2 = key.1 ∧ ∃ r, s.row key.1 = some r ∧ ¬ op.EndsSchedule r ∧
        ∃ next ∈ (updated r).next_run_at, e.1 = as_i64 next := by
  -- the row is armed again exactly when the terminal is not the last one
  have hends : ∀ r, (updated r).state ≠ .Exhausted → (updated r).state ≠ .Failed →
      ¬ op.EndsSchedule r := by
    intro r hexhausted hfailed hends
    rcases (updated_row hop r).1 with ⟨hnot, -⟩ | ⟨-, hstate | hstate⟩
    · exact hnot hends
    · exact hexhausted hstate
    · exact hfailed hstate
  cases op with
  | cycle_completed origin id turn_id =>
      cases hop
      rcases mem_handle_terminal (completed_row_public_id env) he with
        he | ⟨hnew, hget, hkey, r, hrow, hexhausted, hfailed, hnext⟩
      · exact Or.inl he
      · exact Or.inr ⟨hnew, hget, hkey, r, hrow, hends r hexhausted hfailed, hnext⟩
  | cycle_failed origin id turn_id error =>
      cases hop
      rcases mem_handle_terminal (failed_row_public_id env) he with
        he | ⟨hnew, hget, hkey, r, hrow, hexhausted, hfailed, hnext⟩
      · exact Or.inl he
      · exact Or.inr ⟨hnew, hget, hkey, r, hrow, hends r hexhausted hfailed, hnext⟩
  | _ => cases hop

/-! ## 5. What every operation keeps -/

/-- A terminal keeps the queue in step with the rows, when no entry of the schedule it
arms again is queued and the write is taken. -/
theorem queueMatches_terminal {env : Env} {s : SchedulerActor} {op : Op}
    {key : String × Option String} {updated : Schedule → Schedule} (h : QueueMatches s)
    (hop : op.terminal env = some (key, updated))
    (hC : key ∉ s.processed_terminals → ∀ r ∈ s.row key.1, ¬ op.EndsSchedule r →
      ¬ s.Queued key.1 ∧ (env.update_ok key.1 = true ∨ r.state ≠ .Armed)) :
    QueueMatches (exec env s op) := by
  intro e he r' hr' harmed
  have hrow := row_terminal hop s e.2
  rw [Option.mem_def] at hr'
  by_cases hkey : e.2 = key.1 ∧ key ∉ s.processed_terminals ∧ env.get_ok key.1 = true
  · obtain ⟨hid, hnew, hget⟩ := hkey
    rw [if_pos ⟨hid, hnew, hget⟩, hr'] at hrow
    by_cases hdel : s.deletes_pending env key.1 = true
    · simp [hdel] at hrow
    · rw [if_neg hdel] at hrow
      cases hr : s.row key.1 with
      | none => split at hrow <;> simp [hr] at hrow
      | some r =>
          by_cases hok : env.update_ok key.1 = true
          · rw [if_pos hok, hr, Option.map_some, Option.some.injEq] at hrow
            subst hrow
            -- the row is armed, so the terminal was not the last and nothing was queued
            have hlast : ¬ op.EndsSchedule r := by
              rcases (updated_row hop r).1 with ⟨hnot, -⟩ | ⟨-, hstate | hstate⟩
              · exact hnot
              · rw [hstate] at harmed; cases harmed
              · rw [hstate] at harmed; cases harmed
            obtain ⟨hunqueued, -⟩ := hC hnew r hr hlast
            rcases mem_exec_terminal hop he with hold | ⟨-, -, -, r1, hr1, -, hnext⟩
            · exact absurd ⟨e, hold, hid⟩ hunqueued
            · rw [hr, Option.some.injEq] at hr1
              subst hr1
              exact hnext
          · rw [if_neg hok, hr, Option.some.injEq] at hrow
            subst hrow
            -- the write failed: an armed row is as before, and nothing was added for it
            rcases mem_exec_terminal hop he with hold | ⟨-, -, -, r1, hr1, hlast, -⟩
            · exact h e hold r' (by rw [hid]; exact hr) harmed
            · rw [hr, Option.some.injEq] at hr1
              subst hr1
              rcases (hC hnew r' hr hlast).2 with hupd | hstate
              · exact absurd hupd hok
              · exact absurd harmed hstate
  · rw [if_neg hkey] at hrow
    rw [hrow] at hr'
    rcases mem_exec_terminal hop he with hold | ⟨hnew, hget, hid, -⟩
    · exact h e hold r' hr' harmed
    · exact absurd ⟨hid, hnew, hget⟩ hkey

/-- A new row: the deadline it is enqueued with is its own. -/
theorem queueMatches_add {env : Env} {s : SchedulerActor} {schedule : Schedule}
    (h : QueueMatches s) (hC : ¬ s.Queued (with_public_id env schedule).public_id) :
    QueueMatches (s.handle_add_schedule env schedule) := by
  unfold handle_add_schedule
  dsimp only
  set added := with_public_id env schedule
  split
  · exact h
  · cases hcreate : s.schedule_store.create_schedule added with
    | none => exact h
    | some store =>
        intro e he r hr harmed
        have hget := (ScheduleStore.get_create hcreate e.2).2
        have hrow : store.get_schedule e.2 = some r := by simpa [row] using hr
        rw [hget] at hrow
        have hmem := mem_enqueue_schedule { s with schedule_store := store } env he
        by_cases hid : e.2 = added.public_id
        · rw [if_pos hid, Option.some.injEq] at hrow
          subst hrow
          rcases hmem with hold | ⟨-, hnext⟩
          · exact absurd ⟨e, hold, hid⟩ hC
          · exact hnext
        · rw [if_neg hid] at hrow
          rcases hmem with hold | ⟨hid', -⟩
          · exact h e hold r hrow harmed
          · exact absurd hid' hid

/-- Reloading a row that is not queued: it is enqueued with the deadline it is stored
with. -/
theorem queueMatches_reload {env : Env} {s : SchedulerActor} {id : String}
    (h : ∀ e ∈ s.deadline_queue.heap, e.2 ≠ id → ∀ r ∈ s.row e.2, r.state = .Armed →
      ∃ next ∈ r.next_run_at, e.1 = as_i64 next)
    (hqueued : ¬ s.Queued id) (hok : env.update_ok id = true) :
    QueueMatches (s.reload_and_enqueue env id) := by
  -- the row that is enqueued is the row that is stored, and nothing else changes
  have henqueue : ∀ (t : SchedulerActor) (schedule : Schedule), schedule.public_id = id →
      t.row id = some schedule → t.deadline_queue = s.deadline_queue →
      (∀ id', id' ≠ id → t.row id' = s.row id') →
      QueueMatches (t.enqueue_schedule env schedule) := by
    intro t schedule hid hrow hqueue hother e he r hr harmed
    have hr' : t.row e.2 = some r := by simpa [row] using hr
    have hmem := mem_enqueue_schedule t env he
    rw [hqueue, hid] at hmem
    by_cases hk : e.2 = id
    · rw [hk, hrow, Option.some.injEq] at hr'
      subst hr'
      rcases hmem with hold | ⟨-, hnext⟩
      · exact absurd ⟨e, hold, hk⟩ hqueued
      · exact hnext
    · rcases hmem with hold | ⟨hk', -⟩
      · rw [hother e.2 hk] at hr'
        exact h e hold hk r hr' harmed
      · exact absurd hk' hk
  unfold reload_and_enqueue
  split
  · intro e he r hr harmed
    exact h e he (fun hk => hqueued ⟨e, he, hk⟩) r hr harmed
  · next schedule hread =>
      have hrow : s.row id = some schedule := by
        unfold get_schedule at hread
        split at hread
        · exact hread
        · cases hread
      have hpid : schedule.public_id = id := row_public_id hrow
      split
      · apply henqueue
        · exact hpid
        · rw [row_update_schedule]
          simp [hpid, hok, hrow, ScheduleStore.written]
        · simp
        · intro id' hne
          rw [row_update_schedule]
          simp [hpid, hne]
      · exact henqueue s schedule hpid hrow rfl fun _ _ => rfl

theorem queueMatches_resume {env : Env} {s : SchedulerActor} {id : String} (h : QueueMatches s)
    (hC : s.swaps env id .Paused .Armed = true → ¬ s.Queued id ∧ env.update_ok id = true) :
    QueueMatches (s.handle_resume_schedule env id) := by
  unfold handle_resume_schedule
  dsimp only
  rw [update_schedule_state_snd]
  cases hswap : s.swaps env id .Paused .Armed with
  | false =>
      rw [update_schedule_state_of_not_swaps hswap]
      exact h
  | true =>
      obtain ⟨hqueued, hok⟩ := hC hswap
      have hreload : QueueMatches
          ((s.update_schedule_state env id .Paused .Armed).1.reload_and_enqueue env id) := by
        apply queueMatches_reload _ (by simpa [Queued] using hqueued) hok
        intro e he hne r hr harmed
        rw [row_update_schedule_state, if_neg fun hk => hne hk.1] at hr
        exact h e (by simpa using he) r hr harmed
      exact hreload

/-- Enqueueing a stored row again adds its stored deadline. -/
theorem queueMatches_enqueue {env : Env} {s : SchedulerActor} {schedule : Schedule}
    (h : QueueMatches s) (hrow : s.row schedule.public_id = some schedule) :
    QueueMatches (s.enqueue_schedule env schedule) := by
  intro e he r hr harmed
  have hr' : s.row e.2 = some r := by simpa [row] using hr
  rcases mem_enqueue_schedule s env he with hold | ⟨hid, hnext⟩
  · exact h e hold r hr' harmed
  · rw [hid, hrow, Option.some.injEq] at hr'
    subst hr'
    exact hnext

/-- The row an `enqueue_schedule` is given is the stored one. -/
def EnqueuesStored (s : SchedulerActor) (a : Act) : Prop :=
  ∀ schedule, a.2 = .enqueue_schedule schedule → s.row schedule.public_id = some schedule

/-- The operations that add nothing to the queue. -/
theorem queueMatches_other {env : Env} {s : SchedulerActor} {op : Op} (h : QueueMatches s)
    (hqueue : ∀ e ∈ (exec env s op).deadline_queue.heap, e ∈ s.deadline_queue.heap)
    (hterminal : op.terminal env = none) (hadd : ∀ schedule, op ≠ .add_schedule schedule)
    (hresume : ∀ id, op ≠ .resume_schedule id) : QueueMatches (exec env s op) := by
  apply h.mono hqueue
  intro id r' hr' harmed
  rcases row_exec env s op id with hsame | hchange
  · exact ⟨r', by rw [← hsame]; exact hr', harmed, rfl⟩
  · rw [hr'] at hchange
    generalize hrow' : some r' = row' at hchange
    cases hchange with
    | fired hrow hswap => cases hrow'; cases harmed
    | settled hop => rw [hop] at hterminal; cases hterminal
    | deleted hop => cases hrow'
    | added => exact absurd rfl (hadd _)
    | removed => cases hrow'
    | paused => cases hrow'; cases harmed
    | resumed => exact absurd rfl (hresume id)

/-- **One operation** keeps the queue in step with the rows. -/
theorem queueMatches_exec {env : Env} {s : SchedulerActor} {op : Op} (h : QueueMatches s)
    (hC : RearmsUnqueued s (env, op)) (hstored : EnqueuesStored s (env, op)) :
    QueueMatches (exec env s op) := by
  cases op with
  | enqueue_schedule schedule => exact queueMatches_enqueue h (hstored schedule rfl)
  | add_schedule schedule => exact queueMatches_add h hC
  | resume_schedule id => exact queueMatches_resume h hC
  | cycle_completed origin id turn_id =>
      exact queueMatches_terminal h rfl (hC (id, some turn_id) rfl)
  | cycle_failed origin id turn_id error =>
      exact queueMatches_terminal h rfl (hC (id, turn_id) rfl)
  | set_self_ref =>
      exact queueMatches_other h (by simp [exec]) rfl (by simp) (by simp)
  | restart => exact queueMatches_other h (by simp [exec]) rfl (by simp) (by simp)
  | remove_deadline id =>
      refine queueMatches_other h ?_ rfl (by simp) (by simp)
      intro e he
      simp only [exec, remove_deadline, reschedule_wake_deadline_queue] at he
      exact (List.mem_filter.1 he).1
  | fire id =>
      refine queueMatches_other h ?_ rfl (by simp) (by simp)
      intro e he
      simp only [exec] at he
      rcases s.begin_cycle_cases env id with ⟨-, heq⟩ | ⟨-, -, r, -, heq⟩
      · simpa [heq] using he
      · rw [heq] at he
        simpa [open_cycle, emit_event, send] using he
  | remove_schedule id =>
      refine queueMatches_other h ?_ rfl (by simp) (by simp)
      intro e he
      simp only [exec, handle_remove_schedule] at he
      split at he
      · exact he
      · simp only [delete_schedule_deadline_queue, remove_deadline,
          reschedule_wake_deadline_queue] at he
        exact (List.mem_filter.1 he).1
  | pause_schedule id =>
      refine queueMatches_other h ?_ rfl (by simp) (by simp)
      intro e he
      simp only [exec, handle_pause_schedule] at he
      split at he
      · simp only [emit_event, send, reschedule_wake_deadline_queue,
          reset_accumulator_deadline_queue, try_pause_deadline_queue] at he
        exact (List.mem_filter.1 he).1
      · simpa using he
  | increment id kind session_id =>
      refine queueMatches_other h ?_ rfl (by simp) (by simp)
      intro e he
      simp only [exec, increment] at he
      split at he <;> exact he
  | reset_accumulator id =>
      exact queueMatches_other h (by simp [exec]) rfl (by simp) (by simp)
  | start_debounce id debounce_secs =>
      refine queueMatches_other h ?_ rfl (by simp) (by simp)
      intro e he
      simp only [exec, start_debounce] at he
      split at he
      · exact he
      · split at he <;> exact he
  | clear_debounce id =>
      refine queueMatches_other h ?_ rfl (by simp) (by simp)
      intro e he
      simp only [exec, clear_debounce] at he
      split at he <;> exact he

/-! ## 6. Wake tasks sleep almost to their deadline

`Silent` steps spawn no wake task; a step that `Rewakes` spawns them for the head of
the queue it leaves. -/

/-- The effect spawns a wake task. -/
def spawns_any_wake : Effect → Bool
  | .spawn _ (.Wake _ _) => true
  | _ => false

/-- Effects are only added, and no wake task among them. -/
def Silent (s s' : SchedulerActor) : Prop :=
  ∃ out, s'.outbox = s.outbox ++ out ∧ ∀ e ∈ out, spawns_any_wake e = false

/-- A wake task sleeps to less than a second before the head of the queue. -/
def SleepsLong (now : OffsetDateTime) (head : Option (OffsetDateTime × String)) (e : Effect) :
    Prop :=
  ∀ task id seconds, e = .spawn task (.Wake id seconds) →
    ∀ next ∈ head, next.1 ≤ now + seconds * second + (second - 1)

/-- Effects are only added, and a wake task among them sleeps to the head of the queue. -/
def Rewakes (env : Env) (s s' : SchedulerActor) : Prop :=
  ∃ out, s'.outbox = s.outbox ++ out ∧
    ∀ e ∈ out, SleepsLong env.now s'.deadline_queue.peek e

theorem silent_of_eq {s s' : SchedulerActor} (h : s'.outbox = s.outbox) : Silent s s' :=
  ⟨[], by simp [h], by simp⟩

theorem Silent.trans {s s' s'' : SchedulerActor} (h : Silent s s') (h' : Silent s' s'') :
    Silent s s'' := by
  obtain ⟨out, heq, hall⟩ := h
  obtain ⟨out', heq', hall'⟩ := h'
  refine ⟨out ++ out', by rw [heq', heq, List.append_assoc], ?_⟩
  intro e he
  rcases List.mem_append.1 he with he | he
  · exact hall e he
  · exact hall' e he

theorem sleepsLong_of_silent {now : OffsetDateTime} {head : Option (OffsetDateTime × String)}
    {e : Effect} (h : spawns_any_wake e = false) : SleepsLong now head e := by
  rintro task id seconds rfl
  cases h

theorem Silent.rewakes {env : Env} {s s' : SchedulerActor} (h : Silent s s') :
    Rewakes env s s' := by
  obtain ⟨out, heq, hall⟩ := h
  exact ⟨out, heq, fun e he => sleepsLong_of_silent (hall e he)⟩

/-- Rewaking after silence. -/
theorem Silent.then {env : Env} {s t s' : SchedulerActor} (h : Silent s t)
    (h' : Rewakes env t s') : Rewakes env s s' := by
  obtain ⟨out, heq, hall⟩ := h
  obtain ⟨out', heq', hall'⟩ := h'
  refine ⟨out ++ out', by rw [heq', heq, List.append_assoc], ?_⟩
  intro e he
  rcases List.mem_append.1 he with he | he
  · exact sleepsLong_of_silent (hall e he)
  · exact hall' e he

/-- Silence after rewaking, with the queue left alone. -/
theorem Rewakes.then {env : Env} {s t s' : SchedulerActor} (h : Rewakes env s t)
    (h' : Silent t s') (hqueue : s'.deadline_queue = t.deadline_queue) : Rewakes env s s' := by
  obtain ⟨out, heq, hall⟩ := h
  obtain ⟨out', heq', hall'⟩ := h'
  refine ⟨out ++ out', by rw [heq', heq, List.append_assoc], ?_⟩
  intro e he
  rcases List.mem_append.1 he with he | he
  · rw [hqueue]
    exact hall e he
  · exact sleepsLong_of_silent (hall' e he)

/-- The whole seconds up to a deadline miss less than one of it. -/
theorem le_whole_seconds (next now : ℤ) :
    next ≤ now + ((max (next - now) 0 / second).toNat : ℤ) * second + (second - 1) := by
  unfold second
  omega

section

variable (s : SchedulerActor) (env : Env)

theorem silent_send {e : Effect} (h : spawns_any_wake e = false) : Silent s (s.send e) :=
  ⟨[e], rfl, by simpa using h⟩

theorem silent_emit_event (session_id : String) (kind : AgentEventKind) :
    Silent s (s.emit_event session_id kind) :=
  silent_send s rfl

theorem silent_abort (handle : Option ℕ) : Silent s (s.abort handle) := by
  cases handle with
  | none => exact silent_of_eq rfl
  | some task => exact silent_send s rfl

theorem rewakes_reschedule_wake : Rewakes env s (s.reschedule_wake env) := by
  have habort : Silent s { s.abort s.wake_handle with wake_handle := none } :=
    silent_abort s s.wake_handle
  unfold reschedule_wake
  dsimp only
  split
  · split
    · exact habort.rewakes
    · next next_time id hpeek =>
        refine habort.then ⟨[_], rfl, ?_⟩
        intro e he
        rw [List.mem_singleton] at he
        subst he
        rintro task id' seconds hspawn next hnext
        cases hspawn
        rw [Option.mem_def] at hnext
        cases hpeek.symm.trans hnext
        exact le_whole_seconds next_time env.now
  · exact habort.rewakes

theorem rewakes_enqueue_schedule (schedule : Schedule) :
    Rewakes env s (s.enqueue_schedule env schedule) := by
  have hinsert : ∀ next, Rewakes env s ({ s with
      deadline_queue := s.deadline_queue.insert next schedule.public_id }.reschedule_wake env) :=
    fun next => (silent_of_eq rfl : Silent s _).then (rewakes_reschedule_wake _ env)
  unfold enqueue_schedule
  split
  · split
    · exact (silent_of_eq rfl).rewakes
    · exact hinsert _
  · split
    · exact (silent_of_eq rfl).rewakes
    · exact hinsert _
  · exact (silent_of_eq rfl).rewakes

theorem rewakes_remove_deadline (id : String) : Rewakes env s (s.remove_deadline env id) :=
  (silent_of_eq rfl : Silent s { s with deadline_queue := s.deadline_queue.remove id }).then
    (rewakes_reschedule_wake _ env)

theorem silent_reset_accumulator (id : String) : Silent s (s.reset_accumulator id) := by
  unfold reset_accumulator
  split
  · exact silent_of_eq rfl
  · exact (silent_of_eq rfl).trans (silent_abort _ _)

theorem silent_remove_active_cycle (id : String) : Silent s (s.remove_active_cycle id) := by
  unfold remove_active_cycle
  split
  · exact silent_of_eq rfl
  · exact (silent_of_eq rfl).trans (silent_abort _ _)

theorem silent_update_schedule (schedule : Schedule) :
    Silent s (s.update_schedule env schedule) := by
  unfold update_schedule
  split <;> exact silent_of_eq rfl

theorem silent_delete_schedule (id : String) : Silent s (s.delete_schedule env id) := by
  unfold delete_schedule
  split <;> exact silent_of_eq rfl

theorem silent_update_schedule_state (id : String) (from_state to_state : ScheduleState) :
    Silent s (s.update_schedule_state env id from_state to_state).1 := by
  obtain ⟨store, h⟩ := s.update_schedule_state_eq env id from_state to_state
  rw [h]
  exact silent_of_eq rfl

theorem silent_execute_pending_delete (id : String) :
    Silent s (s.execute_pending_delete env id) := by
  unfold execute_pending_delete
  split
  · exact (silent_of_eq rfl).trans (silent_delete_schedule _ env id)
  · exact silent_of_eq rfl

theorem rewakes_write_terminal (updated : Schedule) :
    Rewakes env s (s.write_terminal env updated) := by
  have hwrite := silent_update_schedule s env updated
  unfold write_terminal
  dsimp only
  split
  · exact (hwrite.trans (silent_emit_event _ _ _)).rewakes
  · exact (hwrite.trans (silent_emit_event _ _ _)).rewakes
  · exact hwrite.then (rewakes_enqueue_schedule _ env updated)

theorem rewakes_handle_terminal (key : String × Option String) (updated : Schedule → Schedule)
    (announce : Schedule → AgentEventKind) :
    Rewakes env s (s.handle_terminal env key updated announce) := by
  unfold handle_terminal
  split
  · exact (silent_of_eq rfl).rewakes
  · have hmark : Silent s ({ s with
        processed_terminals := insert key s.processed_terminals }.remove_active_cycle key.1) :=
      (silent_of_eq rfl : Silent s { s with
        processed_terminals := insert key s.processed_terminals }).trans
        (silent_remove_active_cycle _ key.1)
    dsimp only
    split
    · exact hmark.rewakes
    · refine (hmark.then (rewakes_write_terminal _ env _)).then
        ((silent_execute_pending_delete _ env key.1).trans (silent_emit_event _ _ _)) ?_
      simp [emit_event, send]

theorem silent_begin_cycle (id : String) : Silent s (s.begin_cycle env id).1 := by
  have hswap := silent_update_schedule_state s env id .Armed .Running
  rcases s.begin_cycle_cases env id with ⟨-, heq⟩ | ⟨-, -, r, -, heq⟩
  · rw [heq]
    exact hswap
  · rw [heq]
    refine hswap.trans ⟨_, open_cycle_outbox _ env _, ?_⟩
    intro e he
    simp only [List.mem_cons, List.not_mem_nil, or_false] at he
    rcases he with rfl | rfl | rfl
    · rfl
    · split <;> rfl
    · rfl

theorem rewakes_handle_add_schedule (schedule : Schedule) :
    Rewakes env s (s.handle_add_schedule env schedule) := by
  unfold handle_add_schedule
  dsimp only
  split
  · exact (silent_of_eq rfl).rewakes
  · split
    · exact (silent_of_eq rfl).rewakes
    · next store _ =>
        exact ((silent_of_eq rfl : Silent s { s with schedule_store := store }).then
          (rewakes_enqueue_schedule _ env _)).then (silent_emit_event _ _ _) rfl

theorem rewakes_handle_remove_schedule (id : String) :
    Rewakes env s (s.handle_remove_schedule env id) := by
  unfold handle_remove_schedule
  split
  · exact (silent_of_eq rfl).rewakes
  · refine ((silent_of_eq rfl : Silent s { s with
      event_counters := s.event_counters.erase id }).then
        (rewakes_remove_deadline _ env id)).then (silent_delete_schedule _ env id) ?_
    simp

theorem rewakes_handle_pause_schedule (id : String) :
    Rewakes env s (s.handle_pause_schedule env id) := by
  have hpause : Silent s (s.try_pause env id).1 := by
    unfold try_pause
    dsimp only
    split
    · exact silent_update_schedule_state s env id _ _
    · exact (silent_update_schedule_state s env id _ _).trans
        (silent_update_schedule_state _ env id _ _)
  unfold handle_pause_schedule
  dsimp only
  split
  · have hreset := (hpause.trans (silent_of_eq rfl : Silent _ { (s.try_pause env id).1 with
      deadline_queue := (s.try_pause env id).1.deadline_queue.remove id })).trans
        (silent_reset_accumulator _ id)
    exact (hreset.then (rewakes_reschedule_wake _ env)).then (silent_emit_event _ _ _) rfl
  · exact hpause.rewakes

theorem rewakes_handle_resume_schedule (id : String) :
    Rewakes env s (s.handle_resume_schedule env id) := by
  have hswap := silent_update_schedule_state s env id .Paused .Armed
  have hreload : ∀ t : SchedulerActor, Rewakes env t (t.reload_and_enqueue env id) := by
    intro t
    unfold reload_and_enqueue
    split
    · exact (silent_of_eq rfl).rewakes
    · split
      · exact (silent_update_schedule t env _).then (rewakes_enqueue_schedule _ env _)
      · exact rewakes_enqueue_schedule t env _
  unfold handle_resume_schedule
  dsimp only
  split
  · exact (hswap.then (hreload _)).then (silent_emit_event _ _ _) rfl
  · exact hswap.rewakes

/-- **What an operation spawns**: wake tasks for the head of the queue, if any. -/
theorem rewakes_exec (op : Op) : Rewakes env s (exec env s op) := by
  cases op with
  | set_self_ref =>
      exact (silent_of_eq rfl : Silent s { s with self_ref := true }).then
        (rewakes_reschedule_wake _ env)
  | restart => exact (silent_of_eq rfl).rewakes
  | enqueue_schedule schedule => exact rewakes_enqueue_schedule s env schedule
  | remove_deadline id => exact rewakes_remove_deadline s env id
  | fire id => exact (silent_begin_cycle s env id).rewakes
  | cycle_completed origin id turn_id => exact rewakes_handle_terminal s env _ _ _
  | cycle_failed origin id turn_id error => exact rewakes_handle_terminal s env _ _ _
  | add_schedule schedule => exact rewakes_handle_add_schedule s env schedule
  | remove_schedule id => exact rewakes_handle_remove_schedule s env id
  | pause_schedule id => exact rewakes_handle_pause_schedule s env id
  | resume_schedule id => exact rewakes_handle_resume_schedule s env id
  | increment id kind session_id =>
      refine (silent_of_eq ?_).rewakes
      simp only [exec, increment]
      split <;> rfl
  | reset_accumulator id => exact (silent_reset_accumulator s id).rewakes
  | start_debounce id debounce_secs =>
      simp only [exec, start_debounce]
      split
      · exact (silent_of_eq rfl).rewakes
      · split
        · exact Silent.rewakes ⟨[_], rfl, by simp [spawns_any_wake]⟩
        · exact (silent_of_eq rfl).rewakes
  | clear_debounce id =>
      refine (silent_of_eq ?_).rewakes
      simp only [exec, clear_debounce]
      split <;> rfl

end

/-- Every wake task's sleep ends less than a second before its deadline. -/
def SleepsToDeadline (tasks : List WakeTask) : Prop :=
  ∀ w ∈ tasks, w.deadline ≤ w.wakes_at + (second - 1)

theorem sleepsToDeadline_note_effect {now : OffsetDateTime}
    {head : Option (OffsetDateTime × String)} {tasks : List WakeTask} {e : Effect}
    (h : SleepsToDeadline tasks) (he : SleepsLong now head e) :
    SleepsToDeadline (note_effect now head tasks e) := by
  unfold note_effect
  split
  · next task id seconds =>
      split
      · exact h
      · next next_time id' =>
          intro w hw
          rcases List.mem_cons.1 hw with rfl | hw
          · exact he task id seconds rfl (next_time, id') rfl
          · exact h w hw
  · intro w hw
    obtain ⟨w0, hw0, rfl⟩ := List.mem_map.1 hw
    split
    · exact h w0 hw0
    · exact h w0 hw0
  · exact h

theorem sleepsToDeadline_note_wakes {tasks : List WakeTask} (h : SleepsToDeadline tasks)
    (s : SchedulerActor) (a : Act) : SleepsToDeadline (note_wakes s a tasks) := by
  unfold note_wakes
  split
  · simp [SleepsToDeadline]
  · obtain ⟨out, heq, hall⟩ := rewakes_exec s a.1 a.2
    have hdrop : (step s a).outbox.drop s.outbox.length = out := by
      rw [step, heq, List.drop_left]
    rw [hdrop]
    clear heq hdrop
    -- one new effect at a time
    induction out generalizing tasks with
    | nil => exact h
    | cons e out ih =>
        rw [List.foldl_cons]
        apply ih
        · exact sleepsToDeadline_note_effect h (hall e (by simp))
        · intro e' he'
          exact hall e' (by simp [he'])

/-! ## 7. Messages -/

theorem row_of_mem_all_armed {env : Env} {s : SchedulerActor} {r : Schedule}
    (h : r ∈ all_armed env s) : s.row r.public_id = some r := by
  unfold all_armed at h
  split at h
  · exact ((ScheduleStore.mem_list_all_armed _ _ _ _).1 h).1
  · cases h

theorem armed_of_mem_all_armed {env : Env} {s : SchedulerActor} {r : Schedule}
    (h : r ∈ all_armed env s) : r.state = .Armed := by
  unfold all_armed at h
  split at h
  · exact ((ScheduleStore.mem_list_all_armed _ _ _ _).1 h).2
  · cases h

/-- `rebuild_queues` enqueues the rows it listed, and writes none on the way. -/
theorem enqueuesStored_rebuild (env : Env) (xs : List Schedule) (s : SchedulerActor)
    (h : ∀ r ∈ xs, s.row r.public_id = some r) :
    Along step EnqueuesStored s
      (Script.each step (fun r _ => [(env, Op.enqueue_schedule r)]) xs s) := by
  induction xs generalizing s with
  | nil => trivial
  | cons x xs ih =>
      refine ⟨?_, ih _ ?_⟩
      · rintro schedule hop
        cases hop
        exact h x (by simp)
      · intro r hr
        have hsame : (exec env s (.enqueue_schedule x)).row r.public_id = s.row r.public_id := by
          simp [exec, row]
        exact hsame.trans (h r (by simp [hr]))

theorem enqueuesStored_handle (i : Input) (s : SchedulerActor) :
    Along step EnqueuesStored s (handle i s) := by
  by_cases hrestart : i.msg = .Restart
  · -- only the last part of a restart enqueues, from the rows it has just listed
    have hother : ∀ (a : Script SchedulerActor Act),
        Script.Emits (fun act : Act => ∀ schedule, act.2 ≠ .enqueue_schedule schedule) a →
        ∀ t, Along step EnqueuesStored t (a t) := by
      intro a ha t
      apply along_of_forall
      intro _ act hact schedule hop
      exact absurd hop (ha t act hact schedule)
    unfold handle
    rw [hrestart]
    dsimp only
    unfold initialize_actor Script.seq
    rw [along_append, along_append]
    refine ⟨?_, ?_, ?_⟩
    · refine hother (fun _ => [(i.env, .restart)]) ?_ s
      intro _ act hact schedule
      rw [List.mem_singleton] at hact
      subst hact
      simp
    · apply hother
      intro t
      refine Script.Emits.each ?_ t
      rintro r - t act hact schedule
      rw [List.mem_singleton] at hact
      subst hact
      simp
    · apply enqueuesStored_rebuild
      intro r hr
      exact row_of_mem_all_armed hr
  · apply along_of_forall
    intro _ act hact schedule hop
    have hfrom := (handle_emits i s act hact).2
    rw [hop] at hfrom
    exact absurd hfrom hrestart

/-- The invariant of the actor next to its wake tasks. -/
def OnSchedule (p : Timed) : Prop :=
  QueueMatches p.1 ∧ SleepsToDeadline p.2

/-- **One message** keeps the invariant. -/
theorem onSchedule_deliver {p : Timed} {d : Delivery} (h : OnSchedule p)
    (hC : Along step RearmsUnqueued p.1 (handle d.input p.1)) : OnSchedule (deliver p d) := by
  have hboth := (hC.and (enqueuesStored_handle d.input p.1)).instrument note_wakes
  refine run_invariant hboth ?_ h
  rintro ⟨s, tasks⟩ a ⟨hqueue, hsleep⟩ ⟨hrearm, hstored⟩
  exact ⟨queueMatches_exec hqueue hrearm hstored, sleepsToDeadline_note_wakes hsleep s a⟩

/-- A sweep works on a list of rows with distinct ids. -/
theorem nodup_all_armed (env : Env) (s : SchedulerActor) :
    ((all_armed env s).map Schedule.public_id).Nodup := by
  unfold all_armed
  split
  · unfold ScheduleStore.list_all_armed_schedules
    rw [((List.perm_insertionSort _ _).map Schedule.public_id).nodup_iff]
    exact (s.schedule_store.nodup_all env.row_order).sublist (List.filter_sublist.map _)
  · simp

/-- A fire of one schedule and its immediate failure leave the other rows alone. -/
theorem row_fire_schedule (env : Env) {id id' : String} (h : id' ≠ id) (s : SchedulerActor) :
    (run step s (fire_schedule env id s)).row id' = s.row id' := by
  have hfire : (exec env s (.fire id)).row id' = s.row id' := by
    rw [exec, row_begin_cycle, if_neg fun hk => h hk.1]
  unfold fire_schedule
  split
  · next error _ =>
      have hop : (Op.cycle_failed .Internal id none error).terminal env =
          some ((id, none), failed_row env) := rfl
      have hfail := row_terminal hop (exec env s (.fire id)) id'
      rw [if_neg fun hk => h hk.1, hfire] at hfail
      exact hfail
  · exact hfire

/-- A fire whose schedule is due, and the failure that may follow it. -/
theorem firesDue_fire_schedule {env : Env} {id : String} {tolerance : ℤ} {s : SchedulerActor}
    (h : FiresDue tolerance s (env, .fire id)) :
    Along step (FiresDue tolerance) s (fire_schedule env id s) := by
  unfold fire_schedule
  refine ⟨h, ?_⟩
  split
  · refine ⟨?_, trivial⟩
    intro id hid
    cases hid
  · trivial

theorem fire_overdue_cases (env : Env) (r : Schedule) :
    fire_overdue env r = (fun _ => []) ∨
      ∃ next, r.next_run_at = some next ∧ next ≤ env.now ∧
        fire_overdue env r = fire_schedule env r.public_id := by
  unfold fire_overdue
  split
  · exact Or.inl rfl
  · next next hnext =>
      by_cases hdue : next ≤ env.now
      · exact Or.inr ⟨next, hnext, hdue, if_pos hdue⟩
      · exact Or.inl (if_neg hdue)

/-- **The sweep fires what is due**, in any state. -/
theorem firesDue_reconcile (env : Env) (s : SchedulerActor) :
    Along step (FiresDue 0) s (reconcile env s) := by
  -- the rows still to come are as they were listed: each id comes once
  have hloop : ∀ (xs : List Schedule) (t : SchedulerActor),
      (xs.map Schedule.public_id).Nodup → (∀ r ∈ xs, t.row r.public_id = some r) →
      Along step (FiresDue 0) t (Script.each step (fire_overdue env) xs t) := by
    intro xs
    induction xs with
    | nil => exact fun t _ _ => trivial
    | cons x xs ih =>
        intro t hnodup hrows
        rw [List.map_cons, List.nodup_cons] at hnodup
        obtain ⟨hx, hnodup⟩ := hnodup
        have hne : ∀ r ∈ xs, r.public_id ≠ x.public_id :=
          fun r hr heq => hx (List.mem_map.2 ⟨r, hr, heq⟩)
        unfold Script.each Script.seq
        rw [along_append]
        rcases fire_overdue_cases env x with hskip | ⟨next, hnext, hdue, hfire⟩
        · rw [hskip]
          exact ⟨trivial, ih t hnodup fun r hr => hrows r (by simp [hr])⟩
        · rw [hfire]
          refine ⟨firesDue_fire_schedule ?_, ih _ hnodup ?_⟩
          · rintro _ ⟨⟩ - r hr -
            rw [hrows x (by simp), Option.mem_def, Option.some.injEq] at hr
            subst hr
            exact ⟨next, hnext, by simpa using hdue⟩
          · intro r hr
            rw [row_fire_schedule env (hne r hr)]
            exact hrows r (by simp [hr])
  unfold reconcile Script.seq
  rw [along_append]
  refine ⟨?_, ?_⟩
  · have hstale : Script.Emits (fun a : Act => ∀ id, a.2 ≠ .fire id)
        (Script.each step (recover_stale env) (stale_running env s)) := by
      apply Script.Emits.each
      intro r _ t a ha id
      unfold recover_stale at ha
      split at ha
      · cases ha
      · rw [List.mem_singleton] at ha
        subst ha
        simp
    apply along_of_forall
    intro t a ha id hid
    have hop : a.2 = .fire id := by
      unfold Op.fires at hid
      split at hid
      · next hop => cases hid; exact hop
      · cases hid
    exact absurd hop (hstale s a ha id)
  · apply hloop
    · exact nodup_all_armed env _
    · exact fun r hr => row_of_mem_all_armed hr

/-- **A delivered `DeadlineReached`** that meets the condition fires what is due. -/
theorem neverEarly_of_unsuperseded {p : Timed} {d : Delivery} (h : OnSchedule p)
    (hsent : Delivered p d) (hC : Unsuperseded p d) : NeverEarly p d := by
  intro tolerance htol
  cases hmsg : d.input.msg with
  | DeadlineReached id =>
      rw [hmsg] at htol
      cases htol
      have hid : id ∈ d.input.msg.deadline_reached := by rw [hmsg]; rfl
      obtain ⟨w, hw, hsender, -, hslept, -⟩ := hsent id hid
      unfold handle
      rw [hmsg]
      dsimp only
      unfold handle_deadline_reached Script.seq
      rw [along_append]
      refine ⟨⟨fun _ hfires => (by cases hfires), trivial⟩, firesDue_fire_schedule ?_⟩
      -- removing the queue entry leaves the table as it was
      set t := run step p.1 [(d.input.env, Op.remove_deadline id)] with ht
      have hrow : ∀ id', t.row id' = p.1.row id' := by
        intro id'
        simp [ht, step, exec, row]
      have hswaps : t.swaps d.input.env id .Armed .Running =
          p.1.swaps d.input.env id .Armed .Running := by
        unfold swaps
        rw [hrow]
      rintro _ ⟨⟩ hswap r hr -
      rw [hrow] at hr
      rw [hswaps] at hswap
      obtain ⟨hentry, hfits⟩ := hC id hid hswap
      obtain ⟨r', hr', harmed⟩ := exists_row_of_swaps hswap
      rw [Option.mem_def, hr', Option.some.injEq] at hr
      subst hr
      obtain ⟨next, hnext, heq⟩ := h.1 (w.deadline, id) (hentry w hw hsender) r' hr' harmed
      refine ⟨next, hnext, ?_⟩
      calc next ≤ as_i64 next := as_i64_ge (hfits r' hr' next hnext)
        _ = w.deadline := heq.symm
        _ ≤ w.wakes_at + (second - 1) := h.2 w hw
        _ ≤ d.input.env.now + (second - 1) := Int.add_le_add_right hslept _
  | Reconcile =>
      rw [hmsg] at htol
      cases htol
      unfold handle
      rw [hmsg]
      exact firesDue_reconcile d.input.env p.1
  | _ =>
      rw [hmsg] at htol
      cases htol

/-! ## 8. Runs -/

/-- **A deadline never fires a schedule early**, in any run of a scheduler on any
database whose messages meet the condition. -/
theorem never_early (store : ScheduleStore) (ds : List Delivery)
    (hsent : Along deliver Delivered ({ schedule_store := store }, []) ds)
    (hC : Along deliver Undisturbed ({ schedule_store := store }, []) ds) :
    Along deliver NeverEarly ({ schedule_store := store }, []) ds := by
  have hinit : OnSchedule ({ schedule_store := store }, []) := by
    constructor
    · intro e he
      cases he
    · intro w hw
      cases hw
  refine along_of_invariant (I := OnSchedule) (hsent.and hC) ?_ ?_ hinit
  · rintro p d h ⟨-, hd⟩
    exact onSchedule_deliver h hd.2
  · rintro p d h ⟨hd, hdC⟩
    exact neverEarly_of_unsuperseded h hd hdC.1

/-- An hourly schedule, deadlines at 3600 s, then an hour after each completed cycle. -/
def hourly_report : Schedule :=
  .new "sched" "task" "session" (.Interval 3600) 0

/-- Messages, the task that sent each, and when it is handled; nothing fails. -/
def deliveries (msgs : List (OffsetDateTime × Msg × ℕ)) : List Delivery :=
  msgs.map fun m => ⟨⟨.calm m.1, m.2.1⟩, m.2.2⟩

/-- At 3600 s the wake task sends its message behind a `Reconcile`; the sweep fires the
schedule, the cycle completes, and then the message is handled. -/
def stale_wake : List Delivery :=
  deliveries
    [(0, .SetSelfRef, 0),
     (0, .AddSchedule hourly_report, 0),
     (3600 * second, .Reconcile, 0),
     (3610 * second, .CycleCompleted 1 "sched" "turn-1", 0),
     (3610 * second, .DeadlineReached "sched", 0)]

/-- The schedule is fired an hour early, by a message that was in time when it was
sent. -/
theorem stale_wake_fires_early :
    Along deliver Delivered (.initial, []) stale_wake ∧
      ¬ Along deliver NeverEarly (.initial, []) stale_wake := by
  decide

/-- The wake task's message comes first, the sweep has nothing to do, and after an hour
the next wake task sends its own. -/
def fresh_wakes : List Delivery :=
  deliveries
    [(0, .SetSelfRef, 0),
     (0, .AddSchedule hourly_report, 0),
     (3600 * second, .DeadlineReached "sched", 0),
     (3601 * second, .Reconcile, 0),
     (3610 * second, .CycleCompleted 1 "sched" "turn-1", 0),
     (7210 * second, .DeadlineReached "sched", 2)]

theorem fresh_wakes_never_early :
    Along deliver NeverEarly (.initial, []) fresh_wakes ∧
      ((run deliver (.initial, []) fresh_wakes).1.row "sched").map Schedule.state =
        some .Running :=
  ⟨never_early .empty fresh_wakes (by decide) (by decide), by decide⟩

end Querymt.Scheduler
