/-
`Scheduler/Events.lean` -- an event-driven schedule is fired by events.

An event-driven schedule has no deadline: `next_run_at` is empty, it is never in
the deadline queue and no wake task is spawned for it. The failure handler stores a
back-off deadline whatever the trigger, and from then on every sweep finds the
schedule overdue. The file follows one schedule through every run and proves that,
apart from that back-off, it fires only on `threshold` matching events.
-/
import Querymt.Scheduler.Accumulator
import Querymt.Scheduler.Settle

set_option autoImplicit false

open Runs

namespace Querymt.Scheduler

open SchedulerActor

/-! ## 1. The law and its conditions -/

/-- The matching events since the schedule's last fire, creation or resume. -/
def count_events (id : String) (s : SchedulerActor) (a : Act) (n : ℕ) : ℕ :=
  match a.2 with
  | .increment id' kind session_id =>
      if id' = id ∧ ∃ r ∈ s.row id, r.accepts kind session_id = true then n + 1 else n
  | .fire id' => if id' = id ∧ s.swaps a.1 id .Armed .Running = true then 0 else n
  | .resume_schedule id' => if id' = id ∧ s.swaps a.1 id .Paused .Armed = true then 0 else n
  | .add_schedule _ => if s.row id = none ∧ (step s a).row id ≠ none then 0 else n
  | _ => n

/-- The actor next to the event count of one schedule. -/
abbrev counting_step (id : String) : SchedulerActor × ℕ → Act → SchedulerActor × ℕ :=
  instrument step (count_events id)

/-- **The law.** A successful fire of the schedule, if it is event-driven, comes after
at least `threshold` matching events. -/
def FiredByEvents (id : String) (p : SchedulerActor × ℕ) (a : Act) : Prop :=
  a.2 = .fire id → p.1.swaps a.1 id .Armed .Running = true →
    ∀ r ∈ p.1.row id, ∀ f ∈ r.trigger.event_filter, f.threshold ≤ p.2

/-- What the callers promise: an added schedule has a new id and, if it is
event-driven, no deadline (`Schedule::new`); a `DeadlineReached` comes from a wake
task of the schedule. -/
def Promised (id : String) (s : SchedulerActor) (a : Act) : Prop :=
  match a.2 with
  | .add_schedule schedule => (with_public_id a.1 schedule).public_id = id →
      ¬ s.Created id ∧ (schedule.trigger.event_filter ≠ none → schedule.next_run_at = none)
  | .remove_deadline id' => id' = id → s.Woken id
  | _ => True

/-- **The condition.** No failure of the event-driven schedule re-arms it: it is
dropped as a duplicate, or cannot be read or written, or ends in the pending delete,
or is the last one; and the row is read when the schedule is resumed. -/
def NoBackoff (id : String) (s : SchedulerActor) (a : Act) : Prop :=
  match a.2 with
  | .cycle_failed _ id' turn_id _ => id' = id → ∀ r ∈ s.row id, r.trigger.event_filter ≠ none →
      (id, turn_id) ∈ s.processed_terminals ∨ a.1.get_ok id = false ∨
        s.deletes_pending a.1 id = true ∨ a.1.update_ok id = false ∨
        r.config.max_consecutive_failures ≤ r.consecutive_failures + 1
  | .resume_schedule id' => id' = id → a.1.get_ok id = true
  | _ => True

instance (id : String) (p : SchedulerActor × ℕ) (a : Act) : Decidable (FiredByEvents id p a) :=
  inferInstanceAs (Decidable (a.2 = .fire id → p.1.swaps a.1 id .Armed .Running = true →
    ∀ r ∈ p.1.row id, ∀ f ∈ r.trigger.event_filter, f.threshold ≤ p.2))

instance (id : String) (s : SchedulerActor) (a : Act) : Decidable (Promised id s a) := by
  unfold Promised
  cases a.2 <;> infer_instance

instance (id : String) (s : SchedulerActor) (a : Act) : Decidable (NoBackoff id s a) := by
  unfold NoBackoff
  cases a.2 <;> infer_instance

/-! ## 2. The invariant -/

/-- Before its creation the schedule is nowhere; as an event-driven one it has no
deadline, and its accumulator has counted no more than the matching events. -/
structure Eventful (id : String) (p : SchedulerActor × ℕ) : Prop where
  unborn : ¬ p.1.Created id →
    p.1.row id = none ∧ p.1.Timeless id ∧ p.1.event_counters.lookup id = none
  armed : ∀ r, p.1.row id = some r → ∀ f ∈ r.trigger.event_filter,
    r.next_run_at = none ∧ p.1.Timeless id ∧
      ∀ acc, p.1.event_counters.lookup id = some acc → acc.threshold = f.threshold ∧ acc.count ≤ p.2

theorem eventful_initial (id : String) : Eventful id (.initial, 0) := by
  refine ⟨fun _ => ⟨rfl, ⟨?_, ?_⟩, rfl⟩, ?_⟩
  · rintro ⟨e, he, -⟩
    cases he
  · rintro ⟨e, he, -⟩
    cases he
  · intro r hr
    cases hr

/-- A schedule with a row was created. -/
theorem Eventful.created {id : String} {p : SchedulerActor × ℕ} (hI : Eventful id p)
    {r : Schedule} (hr : p.1.row id = some r) : p.1.Created id := by
  by_contra h
  have := (hI.unborn h).1
  rw [hr] at this
  cases this

/-! ## 3. What the operations keep -/

/-- Effects are only added. -/
theorem outbox_mono (env : Env) (s : SchedulerActor) (op : Op) {e : Effect} (he : e ∈ s.outbox) :
    e ∈ (exec env s op).outbox := by
  by_cases hfire : ∃ id, op = .fire id
  · obtain ⟨id, rfl⟩ := hfire
    obtain ⟨store, hstore⟩ := s.update_schedule_state_eq env id .Armed .Running
    rw [exec]
    rcases s.begin_cycle_cases env id with ⟨-, heq⟩ | ⟨-, -, r, -, heq⟩
    · rw [heq, hstore]
      exact he
    · rw [heq, hstore, open_cycle_outbox]
      exact List.mem_append_left _ he
  · obtain ⟨out, heq, -⟩ := (quiet_exec env s op fun id h => hfire ⟨id, h⟩).outbox
    rw [heq]
    exact List.mem_append_left _ he

theorem created_exec (env : Env) {s : SchedulerActor} (op : Op) {id : String}
    (h : s.Created id) : (exec env s op).Created id := by
  obtain ⟨e, he, hann⟩ := h
  exact ⟨e, outbox_mono env s op he, hann⟩

theorem completed_row_trigger (env : Env) (r : Schedule) :
    (completed_row env r).trigger = r.trigger ∧
      (r.trigger.event_filter ≠ none → r.next_run_at = none →
        (completed_row env r).next_run_at = none) := by
  unfold completed_row completed_row.rearmed
  dsimp only
  split
  · split
    · exact ⟨rfl, fun _ _ => rfl⟩
    · split
      · next h => exact ⟨rfl, fun hed => absurd (by simp [h, ScheduleTrigger.event_filter]) hed⟩
      · exact ⟨rfl, fun _ hnext => hnext⟩
  · split
    · next h => exact ⟨rfl, fun hed => absurd (by simp [h, ScheduleTrigger.event_filter]) hed⟩
    · exact ⟨rfl, fun _ hnext => hnext⟩

theorem failed_row_trigger (env : Env) (r : Schedule) :
    (failed_row env r).trigger = r.trigger ∧
      (r.config.max_consecutive_failures ≤ r.consecutive_failures + 1 →
        (failed_row env r).next_run_at = none) := by
  unfold failed_row
  dsimp only
  split
  · exact ⟨rfl, fun _ => rfl⟩
  · next h => exact ⟨rfl, fun hlast => absurd hlast h⟩

theorem terminal_trigger {env : Env} {op : Op} {key : String × Option String}
    {updated : Schedule → Schedule} (hop : op.terminal env = some (key, updated)) (r : Schedule) :
    (updated r).trigger = r.trigger := by
  cases op with
  | cycle_completed origin id turn_id => cases hop; exact (completed_row_trigger env r).1
  | cycle_failed origin id turn_id error => cases hop; exact (failed_row_trigger env r).1
  | _ => cases hop

/-- No operation changes the trigger of a row. -/
theorem trigger_exec {env : Env} {s : SchedulerActor} {op : Op} {id : String} {r r' : Schedule}
    (hr : s.row id = some r) (hr' : (exec env s op).row id = some r') : r'.trigger = r.trigger := by
  rcases row_exec env s op id with hsame | hchange
  · rw [hsame, hr, Option.some.injEq] at hr'
    rw [hr']
  · rw [hr'] at hchange
    generalize hrow' : some r' = row' at hchange
    cases hchange with
    | fired hrow _ => cases hrow'; cases hr.symm.trans hrow; rfl
    | settled hop _ _ _ _ hrow =>
        cases hrow'
        cases hr.symm.trans hrow
        exact terminal_trigger hop r
    | deleted => cases hrow'
    | added _ hnone => exact absurd (hr.symm.trans hnone) (by simp)
    | removed => cases hrow'
    | paused hrow _ => cases hrow'; cases hr.symm.trans hrow; rfl
    | resumed hrow _ _ => cases hrow'; cases hr.symm.trans hrow; rfl

/-- A row appears only by `AddSchedule`. -/
theorem row_exec_none {env : Env} {s : SchedulerActor} {op : Op} {id : String}
    (hnone : s.row id = none) (hadd : ∀ schedule, op ≠ .add_schedule schedule) :
    (exec env s op).row id = none := by
  rcases row_exec env s op id with hsame | hchange
  · rw [hsame, hnone]
  · generalize (exec env s op).row id = row' at hchange
    cases hchange with
    | fired hrow _ => exact absurd (hnone.symm.trans hrow) (by simp)
    | settled _ _ _ _ _ hrow => exact absurd (hnone.symm.trans hrow) (by simp)
    | deleted => rfl
    | added => exact absurd rfl (hadd _)
    | removed => rfl
    | paused hrow _ => exact absurd (hnone.symm.trans hrow) (by simp)
    | resumed hrow _ _ => exact absurd (hnone.symm.trans hrow) (by simp)

theorem eventDriven_of_filter {t : ScheduleTrigger} {f : EventTriggerFilter}
    (h : f ∈ t.event_filter) : ∃ d, t = .EventDriven f d := by
  cases t with
  | EventDriven f' d => cases h; exact ⟨d, rfl⟩
  | Interval seconds => cases h
  | OnceAt at_time => cases h

/-- A terminal, for a schedule whose row, if any, is event-driven. -/
theorem tame_terminal {env : Env} {op : Op} {key : String × Option String}
    {updated : Schedule → Schedule} (hop : op.terminal env = some (key, updated))
    {s : SchedulerActor} {id : String} {fresh : Option ℕ}
    (hrow : ∀ r, s.row id = some r → ∃ f ∈ r.trigger.event_filter, fresh = some f.threshold) :
    Tame id fresh s (exec env s op) := by
  have hupdated : ∀ r, s.row key.1 = some r → (updated r).public_id = r.public_id →
      (updated r).public_id = id →
      ∃ f d, (updated r).trigger = .EventDriven f d ∧ fresh = some f.threshold := by
    intro r hr hpid hid
    have hkey : key.1 = id := by rw [← row_public_id hr, ← hpid, hid]
    obtain ⟨f, hf, hfresh⟩ := hrow r (by rw [← hkey]; exact hr)
    obtain ⟨d, htrig⟩ := eventDriven_of_filter hf
    exact ⟨f, d, (terminal_trigger hop r).trans htrig, hfresh⟩
  cases op with
  | cycle_completed origin id' turn_id =>
      cases hop
      exact tame_handle_terminal id fresh s env _ _ _ (fun _ _ => rfl)
        fun r hr => hupdated r hr (completed_row_public_id env r)
  | cycle_failed origin id' turn_id error =>
      cases hop
      exact tame_handle_terminal id fresh s env _ _ _ (fun _ _ => rfl)
        fun r hr => hupdated r hr (failed_row_public_id env r)
  | _ => cases hop

/-- Adding a schedule that does not become the row of `id`. -/
theorem tame_add_schedule {env : Env} {s : SchedulerActor} {schedule : Schedule} {id : String}
    {fresh : Option ℕ}
    (h : ¬ (s.row id = none ∧ (exec env s (.add_schedule schedule)).row id ≠ none)) :
    Tame id fresh s (exec env s (.add_schedule schedule)) := by
  have hrow := s.row_handle_add_schedule env schedule id
  unfold exec at h ⊢
  dsimp only at h ⊢
  unfold handle_add_schedule at h hrow ⊢
  dsimp only at h hrow ⊢
  split at h
  · next hok =>
      rw [if_pos hok]
      exact Tame.refl s
  · next hok =>
      rw [if_neg hok]
      cases hcreate : s.schedule_store.create_schedule (with_public_id env schedule) with
      | none => exact Tame.refl s
      | some store =>
          have hget := ScheduleStore.get_create hcreate id
          have hne : (with_public_id env schedule).public_id ≠ id := by
            intro hid
            refine h ⟨by rw [← hid]; exact hget.1, ?_⟩
            rw [hcreate]
            simp [row, hget.2, hid]
          have hstore : Tame id fresh s { s with schedule_store := store } := Tame.of_eq rfl rfl rfl
          exact hstore.trans ((tame_enqueue_schedule id fresh _ env _ fun hid => absurd hid hne).trans
            (tame_emit_event id fresh _ _ _ (by simp [announces_creation, hne])))

/-- **The frame.** Apart from an event counted for the schedule, its own enqueueing and
its creation, every operation is tame for an event-driven schedule. -/
theorem tame_exec {env : Env} {s : SchedulerActor} {op : Op} {id : String} {fresh : Option ℕ}
    (hrow : ∀ r, s.row id = some r → ∃ f ∈ r.trigger.event_filter, fresh = some f.threshold)
    (hadd : ∀ schedule, op = .add_schedule schedule →
      ¬ (s.row id = none ∧ (exec env s op).row id ≠ none))
    (hinc : ∀ kind session_id, op ≠ .increment id kind session_id)
    (henq : ∀ schedule, op = .enqueue_schedule schedule → schedule.public_id ≠ id) :
    Tame id fresh s (exec env s op) := by
  cases op with
  | set_self_ref =>
      have hset : Tame id fresh s { s with self_ref := true } := Tame.of_eq rfl rfl rfl
      exact hset.trans (tame_reschedule_wake id fresh _ env)
  | restart =>
      refine ⟨?_, ?_, Iff.rfl⟩
      · rintro ⟨-, hw⟩
        refine ⟨?_, hw⟩
        rintro ⟨e, he, -⟩
        cases he
      · intro acc' hacc'
        cases hacc'
  | enqueue_schedule schedule =>
      exact tame_enqueue_schedule id fresh s env schedule fun hid =>
        absurd hid (henq schedule rfl)
  | remove_deadline id' => exact tame_remove_deadline id fresh s env id'
  | fire id' => exact tame_begin_cycle id fresh s env id'
  | cycle_completed origin id' turn_id => exact tame_terminal rfl hrow
  | cycle_failed origin id' turn_id error => exact tame_terminal rfl hrow
  | add_schedule schedule => exact tame_add_schedule (hadd schedule rfl)
  | remove_schedule id' => exact tame_handle_remove_schedule id fresh s env id'
  | pause_schedule id' => exact tame_handle_pause_schedule id fresh s env id'
  | resume_schedule id' =>
      have hswap := tame_update_schedule_state id fresh s env id' .Paused .Armed
      rw [exec, handle_resume_schedule]
      split
      · refine hswap.trans ((tame_reload_and_enqueue id fresh _ env id' ?_).trans
          (tame_emit_event id fresh _ _ _ rfl))
        rintro r hr rfl
        rw [row_update_schedule_state] at hr
        -- the compare-and-swap keeps the trigger
        obtain ⟨r0, hr0, htrig⟩ : ∃ r0, s.row id' = some r0 ∧ r.trigger = r0.trigger := by
          split at hr
          · obtain ⟨r0, hr0, rfl⟩ := Option.map_eq_some_iff.1 hr
            exact ⟨r0, hr0, rfl⟩
          · exact ⟨r, hr, rfl⟩
        obtain ⟨f, hf, hfresh⟩ := hrow r0 hr0
        obtain ⟨d, hed⟩ := eventDriven_of_filter hf
        exact ⟨f, d, htrig.trans hed, hfresh⟩
      · exact hswap
  | increment id' kind session_id =>
      refine tame_increment id fresh s ?_
      rintro rfl
      exact hinc kind session_id rfl
  | reset_accumulator id' => exact tame_reset_accumulator id fresh s id'
  | start_debounce id' debounce_secs => exact tame_start_debounce id fresh s env id' debounce_secs
  | clear_debounce id' => exact tame_clear_debounce id fresh s id'

/-- A resume that reads the row renews the accumulator. -/
theorem lookup_resume {env : Env} {s : SchedulerActor} {id : String} {r : Schedule}
    {f : EventTriggerFilter} (hr : s.row id = some r) (hf : f ∈ r.trigger.event_filter)
    (hswap : s.swaps env id .Paused .Armed = true) (hget : env.get_ok id = true) :
    (exec env s (.resume_schedule id)).event_counters.lookup id =
      some (EventAccumulator.new f.threshold) := by
  obtain ⟨d, htrig⟩ := eventDriven_of_filter hf
  have hrow := s.row_update_schedule_state env id .Paused .Armed id
  rw [if_pos ⟨rfl, hswap⟩, hr] at hrow
  have hpid : r.public_id = id := row_public_id hr
  rw [exec, handle_resume_schedule]
  simp only [update_schedule_state_snd, hswap, if_true]
  rw [reload_and_enqueue, get_schedule, if_pos hget, hrow]
  simp only [Option.map_some, with_state, htrig, enqueue_schedule, emit_event, send, hpid]
  exact AList.lookup_insert _

/-! ## 4. One operation -/

/-- The new row of an event-driven schedule still has no deadline. -/
theorem next_run_at_exec {env : Env} {s : SchedulerActor} {op : Op} {id : String} {r r' : Schedule}
    (hC : NoBackoff id s (env, op)) (hr : s.row id = some r) (hed : r.trigger.event_filter ≠ none)
    (hnext : r.next_run_at = none) (hr' : (exec env s op).row id = some r') :
    r'.next_run_at = none := by
  rcases row_exec env s op id with hsame | hchange
  · rw [hsame, hr, Option.some.injEq] at hr'
    rw [← hr']
    exact hnext
  · rw [hr'] at hchange
    generalize hrow' : some r' = row' at hchange
    cases hchange with
    | fired hrow _ => cases hrow'; cases hr.symm.trans hrow; exact hnext
    | @settled _ turn_id updated r1 hop hnew hget hkeep hok hrow =>
        cases hrow'
        cases hr.symm.trans hrow
        cases op with
        | cycle_completed origin id' turn_id' =>
            cases hop
            exact (completed_row_trigger env r).2 hed hnext
        | cycle_failed origin id' turn_id' error =>
            cases hop
            refine (failed_row_trigger env r).2 ?_
            rcases hC rfl r hr hed with h | h | h | h | h
            · exact absurd h hnew
            · exact absurd (h.symm.trans hget) (by simp)
            · exact absurd (h.symm.trans hkeep) (by simp)
            · exact absurd (h.symm.trans hok) (by simp)
            · exact h
        | _ => cases hop
    | deleted => cases hrow'
    | added _ hnone => exact absurd (hr.symm.trans hnone) (by simp)
    | removed => cases hrow'
    | paused hrow _ => cases hrow'; cases hr.symm.trans hrow; exact hnext
    | resumed hrow _ hnew =>
        cases hrow'
        cases hr.symm.trans hrow
        rcases hnew with hnew | ⟨seconds, htrig⟩
        · rw [hnew]
          exact hnext
        · exact absurd (by rw [htrig]; rfl) hed

/-- An operation that is tame for the schedule, with the count of events it leaves. -/
theorem Eventful.of_tame {id : String} {s : SchedulerActor} {n m : ℕ} (hI : Eventful id (s, n))
    {env : Env} {op : Op} (hC : NoBackoff id s (env, op))
    (htame : ∀ fresh, (∀ r, s.row id = some r → ∃ f ∈ r.trigger.event_filter,
      fresh = some f.threshold) → Tame id fresh s (exec env s op))
    (hrow : s.row id = none → (exec env s op).row id = none)
    (hcount : ∀ r, s.row id = some r → ∀ f ∈ r.trigger.event_filter, ∀ acc,
      (exec env s op).event_counters.lookup id = some acc → acc.count ≤ n → acc.count ≤ m) :
    Eventful id (exec env s op, m) := by
  cases hr : s.row id with
  | none =>
      refine ⟨fun hunborn => ?_, fun r hr' => ?_⟩
      · obtain ⟨-, htimeless, hacc⟩ := hI.unborn fun h => hunborn (created_exec env op h)
        have ht := htame none (by rw [hr]; exact fun _ h => by cases h)
        refine ⟨hrow hr, ht.timeless htimeless, ?_⟩
        cases hacc' : (exec env s op).event_counters.lookup id with
        | none => rfl
        | some acc' =>
            rcases ht.acc acc' hacc' with ⟨acc, h, -⟩ | ⟨h, -⟩
            · exact absurd (hacc.symm.trans h) (by simp)
            · cases h
      · exact absurd ((hrow hr).symm.trans hr') (by simp)
  | some r =>
      refine ⟨fun hunborn => absurd (created_exec env op (hI.created hr)) hunborn, ?_⟩
      intro r' hr' f hf
      rw [trigger_exec hr hr'] at hf
      obtain ⟨hnext, htimeless, hacc⟩ := hI.armed r hr f hf
      have ht := htame (some f.threshold) (by
        intro r1 hr1
        cases hr.symm.trans hr1
        exact ⟨f, hf, rfl⟩)
      have hed : r.trigger.event_filter ≠ none := by
        rw [Option.mem_def] at hf
        rw [hf]
        simp
      refine ⟨next_run_at_exec hC hr hed hnext hr', ht.timeless htimeless, ?_⟩
      intro acc' hacc'
      rcases ht.acc acc' hacc' with ⟨acc, h, hth, hle⟩ | ⟨hth, hzero⟩
      · obtain ⟨hthreshold, hn⟩ := hacc acc h
        exact ⟨hth.trans hthreshold, hcount r hr f hf acc' hacc' (hle.trans hn)⟩
      · exact ⟨by simpa using hth.symm, by omega⟩

/-- **One operation**, where it is not a fire of the schedule, an event counted for it,
its enqueueing, or an `AddSchedule`. -/
theorem eventful_step {id : String} {p : SchedulerActor × ℕ} (hI : Eventful id p) {env : Env}
    {op : Op} (hC : NoBackoff id p.1 (env, op)) (hfire : op ≠ .fire id)
    (hadd : ∀ schedule, op ≠ .add_schedule schedule)
    (hinc : ∀ kind session_id, op ≠ .increment id kind session_id)
    (henq : ∀ schedule, op = .enqueue_schedule schedule → schedule.public_id ≠ id) :
    Eventful id (counting_step id p (env, op)) := by
  obtain ⟨s, n⟩ := p
  have htame : ∀ fresh, (∀ r, s.row id = some r → ∃ f ∈ r.trigger.event_filter,
      fresh = some f.threshold) → Tame id fresh s (exec env s op) :=
    fun fresh hrow => tame_exec hrow (fun schedule h => absurd h (hadd schedule)) hinc henq
  refine hI.of_tame hC htame (fun hnone => row_exec_none hnone hadd) ?_
  intro r hr f hf acc hacc hle
  -- the count is the old one, but for a resume, which renews the accumulator
  unfold count_events
  split
  · next id' kind session_id hop =>
      split
      · omega
      · exact hle
  · next id' hop =>
      rw [if_neg]
      · exact hle
      · rintro ⟨rfl, -⟩
        exact hfire hop
  · next id' hop =>
      split
      · next h =>
          obtain ⟨rfl, hswap⟩ := h
          dsimp only at hop
          subst hop
          rw [lookup_resume hr hf hswap (hC rfl), Option.some.injEq] at hacc
          rw [← hacc]
          exact le_rfl
      · exact hle
  · next schedule hop => exact absurd hop (hadd schedule)
  · exact hle

/-- A fire of the schedule, after `threshold` events and with the accumulator reset. -/
theorem eventful_fire {id : String} {p : SchedulerActor × ℕ} (hI : Eventful id p) (env : Env)
    (hfire : p.1.swaps env id .Armed .Running = true → ∀ r, p.1.row id = some r →
      ∀ f ∈ r.trigger.event_filter, f.threshold ≤ p.2 ∧
        ∀ acc, p.1.event_counters.lookup id = some acc → acc.count = 0) :
    FiredByEvents id p (env, .fire id) ∧ Eventful id (counting_step id p (env, .fire id)) := by
  obtain ⟨s, n⟩ := p
  refine ⟨fun _ hswap r hr f hf => (hfire hswap r hr f hf).1, ?_⟩
  have htame : ∀ fresh, (∀ r, s.row id = some r → ∃ f ∈ r.trigger.event_filter,
      fresh = some f.threshold) → Tame id fresh s (exec env s (.fire id)) :=
    fun fresh hrow => tame_exec hrow (by simp) (by simp) (by simp)
  refine hI.of_tame trivial htame (fun hnone => row_exec_none hnone (by simp)) ?_
  intro r hr f hf acc hacc hle
  simp only [count_events, true_and]
  split
  · next hswap =>
      rcases (htame (some f.threshold) (by
        intro r1 hr1
        cases hr.symm.trans hr1
        exact ⟨f, hf, rfl⟩)).acc acc hacc with ⟨acc0, h, -, hle0⟩ | ⟨-, hzero⟩
      · have := (hfire hswap r hr f hf).2 acc0 h
        omega
      · omega
  · exact hle

/-- An event that matches the schedule's filter. -/
theorem eventful_increment {id : String} {p : SchedulerActor × ℕ} (hI : Eventful id p) (env : Env)
    {kind session_id : String} {r : Schedule} (hr : p.1.row id = some r)
    (haccepts : r.accepts kind session_id = true) :
    Eventful id (counting_step id p (env, .increment id kind session_id)) := by
  obtain ⟨s, n⟩ := p
  have hcount : count_events id s (env, .increment id kind session_id) n = n + 1 :=
    if_pos ⟨rfl, r, hr, haccepts⟩
  have hrow : ∀ id', (s.increment id).row id' = s.row id' := by simp [row]
  rw [counting_step, instrument, hcount, step]
  refine ⟨fun hunborn => absurd (created_exec env _ (hI.created hr)) hunborn, ?_⟩
  intro r' hr' f hf
  rw [show (exec env s (.increment id kind session_id)).row id = s.row id from hrow id] at hr'
  obtain ⟨hnext, htimeless, hacc⟩ := hI.armed r' hr' f hf
  dsimp only [exec]
  unfold increment
  cases hlook : s.event_counters.lookup id with
  | none =>
      refine ⟨hnext, htimeless, ?_⟩
      intro acc h
      exact absurd (hlook.symm.trans h) (by simp)
  | some acc =>
      refine ⟨hnext, htimeless, ?_⟩
      intro acc' h
      dsimp only at h
      rw [AList.lookup_insert, Option.some.injEq] at h
      subst h
      obtain ⟨hth, hle⟩ := hacc acc hlook
      exact ⟨hth, Nat.succ_le_succ hle⟩

/-- The schedule is enqueued again, with the trigger of its row. -/
theorem eventful_enqueue {id : String} {p : SchedulerActor × ℕ} (hI : Eventful id p) (env : Env)
    {schedule : Schedule} (hcreated : p.1.Created id)
    (htrig : ∀ r, p.1.row id = some r → r.trigger = schedule.trigger) :
    Eventful id (counting_step id p (env, .enqueue_schedule schedule)) := by
  obtain ⟨s, n⟩ := p
  have hrow : (exec env s (.enqueue_schedule schedule)).row id = s.row id := by simp [exec, row]
  refine ⟨fun hunborn => absurd (created_exec env _ hcreated) hunborn, ?_⟩
  intro r hr f hf
  rw [counting_step, instrument, step] at hr ⊢
  dsimp only at hr ⊢
  rw [hrow] at hr
  obtain ⟨hnext, htimeless, hacc⟩ := hI.armed r hr f hf
  obtain ⟨d, hed⟩ := eventDriven_of_filter hf
  have ht : Tame id (some f.threshold) s (exec env s (.enqueue_schedule schedule)) := by
    refine tame_enqueue_schedule id _ s env schedule fun _ => ⟨f, d, ?_, rfl⟩
    rw [← htrig r hr, hed]
  refine ⟨hnext, ht.timeless htimeless, ?_⟩
  intro acc' hacc'
  rcases ht.acc acc' hacc' with ⟨acc, h, hth, hle⟩ | ⟨hth, hzero⟩
  · obtain ⟨hthreshold, hn⟩ := hacc acc h
    exact ⟨hth.trans hthreshold, hle.trans hn⟩
  · exact ⟨by simpa using hth.symm, by omega⟩

/-- An added schedule starts without a deadline and with an empty accumulator. -/
theorem eventful_add {id : String} {p : SchedulerActor × ℕ} (hI : Eventful id p) {env : Env}
    {schedule : Schedule} (hP : Promised id p.1 (env, .add_schedule schedule)) :
    Eventful id (counting_step id p (env, .add_schedule schedule)) := by
  obtain ⟨s, n⟩ := p
  by_cases hborn : s.row id = none ∧ (exec env s (.add_schedule schedule)).row id ≠ none
  · obtain ⟨hnone, hsome⟩ := hborn
    have hcount : count_events id s (env, .add_schedule schedule) n = 0 := if_pos ⟨hnone, hsome⟩
    rw [counting_step, instrument, hcount, step]
    dsimp only
    rcases s.row_handle_add_schedule env schedule id with hsame | ⟨hid, -, hrow⟩
    · exact absurd (hsame.trans hnone) hsome
    obtain ⟨hfresh, hnext⟩ := hP hid
    obtain ⟨-, htimeless, -⟩ := hI.unborn hfresh
    -- the insert succeeded: enqueue the schedule and announce it
    obtain ⟨store, hstate⟩ : ∃ store, exec env s (.add_schedule schedule) =
        ({ s with schedule_store := store }.enqueue_schedule env
          (with_public_id env schedule)).emit_event (with_public_id env schedule).session_public_id
          (.ScheduleCreated (with_public_id env schedule).public_id
            (with_public_id env schedule).session_public_id
            (with_public_id env schedule).task_public_id) := by
      rw [exec, handle_add_schedule]
      by_cases hok : env.create_ok (with_public_id env schedule).public_id = false
      · rw [exec, handle_add_schedule] at hsome
        simp [hok, hnone] at hsome
      · cases hcreate : s.schedule_store.create_schedule (with_public_id env schedule) with
        | none =>
            rw [exec, handle_add_schedule] at hsome
            simp [hok, hcreate, hnone] at hsome
        | some store => exact ⟨store, by simp [hok]⟩
    refine ⟨fun hunborn => absurd ?_ hunborn, ?_⟩
    · rw [hstate]
      exact ⟨_, List.mem_append_right _ (List.mem_singleton_self _), by
        simp [announces_creation, hid]⟩
    · intro r hr f hf
      rw [show (exec env s (.add_schedule schedule)).row id = _ from hrow, Option.some.injEq] at hr
      subst hr
      have htrig : (with_public_id env schedule).trigger = schedule.trigger ∧
          (with_public_id env schedule).next_run_at = schedule.next_run_at := by
        unfold with_public_id
        split <;> exact ⟨rfl, rfl⟩
      obtain ⟨d, hed⟩ := eventDriven_of_filter hf
      have ht : Tame id (some f.threshold) { s with schedule_store := store }
          ({ s with schedule_store := store }.enqueue_schedule env (with_public_id env schedule)) :=
        tame_enqueue_schedule id _ _ env _ fun _ => ⟨f, d, hed, rfl⟩
      have hfilter : schedule.trigger.event_filter ≠ none := by
        rw [← htrig.1, hed]
        simp [ScheduleTrigger.event_filter]
      refine ⟨by rw [htrig.2]; exact hnext hfilter, ?_, ?_⟩
      · rw [hstate]
        obtain ⟨hq, hw⟩ := ht.timeless htimeless
        refine ⟨hq, ?_⟩
        rintro ⟨e, he, hspawn⟩
        rcases List.mem_append.1 he with he | he
        · exact hw ⟨e, he, hspawn⟩
        · rw [List.mem_singleton] at he
          subst he
          cases hspawn
      · intro acc hacc
        rw [hstate] at hacc
        have hnew : acc = EventAccumulator.new f.threshold := by
          simp only [emit_event, send, enqueue_schedule, hed, hid, AList.lookup_insert,
            Option.some.injEq] at hacc
          exact hacc.symm
        rw [hnew]
        exact ⟨rfl, le_rfl⟩
  · have hcount : count_events id s (env, .add_schedule schedule) n = n := if_neg hborn
    rw [counting_step, instrument, hcount]
    refine hI.of_tame trivial (fun fresh _ => tame_add_schedule hborn) ?_ fun _ _ _ _ _ _ h => h
    intro hnone
    by_contra hsome
    exact hborn ⟨hnone, hsome⟩

/-! ## 5. Handlers

A sweep works on rows it listed before; `Listed` carries to each of its operations
that the row of the schedule, if it is still there, has the trigger that was
listed. -/

/-- The rows `xs` were listed, and the trigger of the schedule is the listed one. -/
def Listed (id : String) (xs : List Schedule) (s : SchedulerActor) : Prop :=
  ∀ r0 ∈ xs, r0.public_id = id → s.Created id ∧ ∀ r, s.row id = some r → r.trigger = r0.trigger

theorem listed_exec {id : String} {xs : List Schedule} {s : SchedulerActor}
    (h : Listed id xs s) (env : Env) {op : Op} (hadd : ∀ schedule, op ≠ .add_schedule schedule) :
    Listed id xs (exec env s op) := by
  intro r0 hr0 hid
  obtain ⟨hcreated, htrig⟩ := h r0 hr0 hid
  refine ⟨created_exec env op hcreated, ?_⟩
  intro r' hr'
  cases hr : s.row id with
  | none => exact absurd ((row_exec_none hr hadd).symm.trans hr') (by simp)
  | some r => rw [trigger_exec hr hr', htrig r hr]

/-- The promises and the condition, at one operation. -/
def Ordinary (id : String) (p : SchedulerActor × ℕ) (a : Act) : Prop :=
  Promised id p.1 a ∧ NoBackoff id p.1 a

/-- The script keeps the invariant, with the law on the way. -/
abbrev KeepsEvents (id : String) (xs : List Schedule) (a : Script SchedulerActor Act) : Prop :=
  Script.KeepsGhost step (count_events id) (fun p => Eventful id p ∧ Listed id xs p.1)
    (Ordinary id) (FiredByEvents id) a

section

variable (id : String) (xs : List Schedule) (env : Env)

theorem keepsEvents_none : KeepsEvents id xs fun _ => [] :=
  Script.KeepsGhost.none

theorem firedByEvents_of_ne {p : SchedulerActor × ℕ} {op : Op} (h : op ≠ .fire id) :
    FiredByEvents id p (env, op) :=
  fun hop => absurd hop h

/-- An operation that `eventful_step` covers. -/
theorem keepsEvents_one (op : Op) (hfire : op ≠ .fire id)
    (hadd : ∀ schedule, op ≠ .add_schedule schedule)
    (hinc : ∀ kind session_id, op ≠ .increment id kind session_id)
    (henq : ∀ schedule, op = .enqueue_schedule schedule → schedule.public_id ≠ id) :
    KeepsEvents id xs fun _ => [(env, op)] :=
  Script.KeepsGhost.one fun _ hI hC => ⟨firedByEvents_of_ne id env hfire,
    eventful_step hI.1 hC.2 hfire hadd hinc henq, listed_exec hI.2 env hadd⟩

/-- `fire_schedule` from a state in which a fire of the schedule is due to events. -/
theorem keepsEvents_fire_at (id' : String) (p : SchedulerActor × ℕ)
    (hfire : id' = id → p.1.swaps env id .Armed .Running = true → ∀ r, p.1.row id = some r →
      ∀ f ∈ r.trigger.event_filter, f.threshold ≤ p.2 ∧
        ∀ acc, p.1.event_counters.lookup id = some acc → acc.count = 0)
    (hI : Eventful id p ∧ Listed id xs p.1)
    (hC : Along (counting_step id) (Ordinary id) p (fire_schedule env id' p.1)) :
    Along (counting_step id) (FiredByEvents id) p (fire_schedule env id' p.1) ∧
      Eventful id (run (counting_step id) p (fire_schedule env id' p.1)) ∧
      Listed id xs (run (counting_step id) p (fire_schedule env id' p.1)).1 := by
  have hhead : FiredByEvents id p (env, .fire id') ∧
      Eventful id (counting_step id p (env, .fire id')) := by
    by_cases hid : id' = id
    · subst hid
      exact eventful_fire hI.1 env (hfire rfl)
    · have hne : Op.fire id' ≠ .fire id := by simpa using hid
      exact ⟨firedByEvents_of_ne id env hne, eventful_step hI.1 hC.1.2 hne (by simp) (by simp) (by simp)⟩
  have hlisted : Listed id xs (counting_step id p (env, .fire id')).1 :=
    listed_exec hI.2 env (by simp)
  unfold fire_schedule at hC ⊢
  split at hC
  · next error hended =>
      have htail := keepsEvents_one id xs env (.cycle_failed .Internal id' none error)
        (by simp) (by simp) (by simp) (by simp)
        (counting_step id p (env, .fire id')) ⟨hhead.2, hlisted⟩ hC.2
      exact ⟨⟨hhead.1, htail.1⟩, htail.2⟩
  · exact ⟨⟨hhead.1, trivial⟩, hhead.2, hlisted⟩

theorem lookup_reset_accumulator {s : SchedulerActor} {id : String} {acc : EventAccumulator}
    (hacc : s.event_counters.lookup id = some acc) :
    (s.reset_accumulator id).event_counters.lookup id = some acc.reset := by
  rw [reset_accumulator, hacc]
  dsimp only
  cases acc.debounce_handle with
  | none => exact AList.lookup_insert _
  | some handle => exact AList.lookup_insert _

/-- `reset_and_fire` from a state in which the accumulator is at its threshold. -/
theorem keepsEvents_reset_and_fire_at (id' : String) (p : SchedulerActor × ℕ)
    {acc : EventAccumulator} (hacc : p.1.event_counters.lookup id' = some acc)
    (hmet : acc.threshold_met = true) (hI : Eventful id p ∧ Listed id xs p.1)
    (hC : Along (counting_step id) (Ordinary id) p (reset_and_fire env id' p.1)) :
    Along (counting_step id) (FiredByEvents id) p (reset_and_fire env id' p.1) ∧
      Eventful id (run (counting_step id) p (reset_and_fire env id' p.1)) ∧
      Listed id xs (run (counting_step id) p (reset_and_fire env id' p.1)).1 := by
  obtain ⟨hC1, hC2⟩ := hC
  have hreset := keepsEvents_one id xs env (.reset_accumulator id') (by simp) (by simp) (by simp)
    (by simp) p hI ⟨hC1, trivial⟩
  have hrow : ∀ id'', (p.1.reset_accumulator id').row id'' = p.1.row id'' := by simp [row]
  -- the events were counted before the reset
  have hfire := keepsEvents_fire_at id xs env id' (counting_step id p (env, .reset_accumulator id'))
    (by
      rintro rfl - r hr f hf
      rw [show (counting_step id' p (env, .reset_accumulator id')).1.row id' = p.1.row id' from
        hrow id'] at hr
      obtain ⟨-, -, hbound⟩ := hI.1.armed r hr f hf
      obtain ⟨hth, hle⟩ := hbound acc hacc
      simp only [EventAccumulator.threshold_met, decide_eq_true_eq] at hmet
      refine ⟨?_, ?_⟩
      · rw [← hth]
        exact hmet.trans hle
      · intro acc' hacc'
        have hreset' : (p.1.reset_accumulator id').event_counters.lookup id' = some acc' := hacc'
        rw [lookup_reset_accumulator hacc, Option.some.injEq] at hreset'
        rw [← hreset']
        rfl) hreset.2 hC2
  exact ⟨⟨hreset.1.1, hfire.1⟩, hfire.2⟩

theorem keepsEvents_after_increment (id' : String) :
    KeepsEvents id xs (after_increment env id') := by
  intro p
  unfold Script.lift after_increment
  cases hacc : p.1.event_counters.lookup id' with
  | none => exact keepsEvents_none id xs p
  | some acc =>
      dsimp only
      split
      · next hmet =>
          rw [Bool.and_eq_true] at hmet
          split
          · exact keepsEvents_none id xs p
          · next r hr =>
              split
              · next f debounce_secs _ =>
                  split
                  · exact keepsEvents_one id xs env (.start_debounce id' debounce_secs) (by simp)
                      (by simp) (by simp) (by simp) p
                  · exact keepsEvents_reset_and_fire_at id xs env id' p hacc hmet.1
              · exact keepsEvents_none id xs p
      · exact keepsEvents_none id xs p

theorem keepsEvents_handle_debounce_completed (id' : String) :
    KeepsEvents id xs (handle_debounce_completed env id') := by
  intro p
  unfold Script.lift handle_debounce_completed
  cases hacc : p.1.event_counters.lookup id' with
  | none => exact keepsEvents_none id xs p
  | some acc =>
      dsimp only
      split
      · next hmet => exact keepsEvents_reset_and_fire_at id xs env id' p hacc hmet
      · exact keepsEvents_one id xs env (.clear_debounce id') (by simp) (by simp) (by simp)
          (by simp) p

/-- An event is counted only for a schedule whose filter accepts it. -/
theorem keepsEvents_offer_event (kind session_id id' : String) :
    KeepsEvents id xs (offer_event env kind session_id id') := by
  intro p
  unfold Script.lift offer_event
  split
  · exact keepsEvents_none id xs p
  · next r hr =>
      split
      · next haccepts =>
          intro hI hC
          have hrow : p.1.row id' = some r := by
            unfold get_schedule at hr
            split at hr
            · exact hr
            · cases hr
          have hincrement : Eventful id (counting_step id p (env, .increment id' kind session_id)) := by
            by_cases hid : id' = id
            · subst hid
              exact eventful_increment hI.1 env hrow haccepts
            · exact eventful_step hI.1 trivial (by simp) (by simp) (by simp [hid]) (by simp)
          have htail := keepsEvents_after_increment id xs env id'
            (counting_step id p (env, .increment id' kind session_id))
            ⟨hincrement, listed_exec hI.2 env (by simp)⟩ hC.2
          exact ⟨⟨firedByEvents_of_ne id env (by simp), htail.1⟩, htail.2⟩
      · exact keepsEvents_none id xs p

theorem keepsEvents_process_event (envelope : EventEnvelope) :
    KeepsEvents id xs (process_event env envelope) := by
  unfold process_event
  split
  · next cycle id' turn_id _ =>
      exact keepsEvents_one id xs env (.cycle_completed (.Session cycle) id' turn_id) (by simp)
        (by simp) (by simp) (by simp)
  · next cycle id' turn_id error _ =>
      exact keepsEvents_one id xs env (.cycle_failed (.Session cycle) id' turn_id error) (by simp)
        (by simp) (by simp) (by simp)
  · exact keepsEvents_none id xs
  · next kind _ =>
    have hloop : ∀ ys, KeepsEvents id xs
        (Script.each step (offer_event env kind envelope.session_id) ys) :=
      fun ys => Script.KeepsGhost.each fun id' _ => keepsEvents_offer_event id xs env _ _ id'
    exact fun p => hloop _ p

/-- A deadline of the schedule was once set, so the schedule is not event-driven. -/
theorem keepsEvents_handle_deadline_reached (id' : String) :
    KeepsEvents id xs (handle_deadline_reached env id') := by
  intro p hI hC
  obtain ⟨hC1, hC2⟩ := hC
  have hremove := keepsEvents_one id xs env (.remove_deadline id') (by simp) (by simp) (by simp)
    (by simp) p hI ⟨hC1, trivial⟩
  have hrow : ∀ id'', (p.1.remove_deadline env id').row id'' = p.1.row id'' := by simp [row]
  have hfire := keepsEvents_fire_at id xs env id' (counting_step id p (env, .remove_deadline id'))
    (by
      rintro rfl - r hr f hf
      rw [show (counting_step id' p (env, .remove_deadline id')).1.row id' = p.1.row id' from
        hrow id'] at hr
      exact absurd (hC1.1 rfl) (hI.1.armed r hr f hf).2.1.2) hremove.2 hC2
  exact ⟨⟨hremove.1.1, hfire.1⟩, hfire.2⟩

theorem keepsEvents_handle_trigger_now {id' : String} (hid : id' ≠ id) :
    KeepsEvents id xs (handle_trigger_now env id') := by
  refine Script.KeepsGhost.seq (keepsEvents_one id xs env (.remove_deadline id') (by simp)
    (by simp) (by simp) (by simp)) ?_
  exact fun p hI hC => keepsEvents_fire_at id xs env id' p (fun h => absurd h hid) hI hC

/-- A listed schedule that is event-driven has no deadline to be overdue. -/
theorem keepsEvents_fire_overdue {r0 : Schedule} (hr0 : r0 ∈ xs)
    (hnext : r0.public_id = id → r0.trigger.event_filter ≠ none → r0.next_run_at = none) :
    KeepsEvents id xs (fire_overdue env r0) := by
  unfold fire_overdue
  split
  · exact keepsEvents_none id xs
  · next next_run hsome =>
      split
      · intro p hI hC
        refine keepsEvents_fire_at id xs env r0.public_id p ?_ hI hC
        intro hid _ r hr f hf
        rw [(hI.2 r0 hr0 hid).2 r hr, Option.mem_def] at hf
        have := hnext hid (by rw [hf]; simp)
        rw [hsome] at this
        cases this
      · exact keepsEvents_none id xs

/-- The rows listed from a state are listed there. -/
theorem listed_all_armed {p : SchedulerActor × ℕ} (hI : Eventful id p) :
    Listed id (all_armed env p.1) p.1 ∧ ∀ r0 ∈ all_armed env p.1, r0.public_id = id →
      r0.trigger.event_filter ≠ none → r0.next_run_at = none := by
  have hrow : ∀ r0 ∈ all_armed env p.1, r0.public_id = id → p.1.row id = some r0 := by
    intro r0 hr0 hid
    unfold all_armed at hr0
    split at hr0
    · rw [ScheduleStore.mem_list_all_armed, hid] at hr0
      exact hr0.1
    · cases hr0
  constructor
  · intro r0 hr0 hid
    refine ⟨hI.created (hrow r0 hr0 hid), ?_⟩
    intro r hr
    rw [hrow r0 hr0 hid, Option.some.injEq] at hr
    rw [hr]
  · intro r0 hr0 hid hfilter
    obtain ⟨f, hf⟩ := Option.ne_none_iff_exists'.1 hfilter
    exact (hI.armed r0 (hrow r0 hr0 hid) f hf).1

/-- A loop over the armed rows, from a state in which nothing is listed. -/
theorem keepsEvents_over_armed {f : Schedule → Script SchedulerActor Act}
    (hf : ∀ xs, (∀ r0 ∈ xs, r0.public_id = id → r0.trigger.event_filter ≠ none →
      r0.next_run_at = none) → ∀ r0 ∈ xs, KeepsEvents id xs (f r0)) :
    KeepsEvents id [] fun s => Script.each step f (all_armed env s) s := by
  intro p hI hC
  obtain ⟨hlisted, hnext⟩ := listed_all_armed id env hI.1
  have hloop : KeepsEvents id (all_armed env p.1) (Script.each step f (all_armed env p.1)) :=
    Script.KeepsGhost.each (hf _ hnext)
  obtain ⟨hlaw, hafter⟩ := hloop p ⟨hI.1, hlisted⟩ hC
  exact ⟨hlaw, hafter.1, fun _ h => by cases h⟩

theorem keepsEvents_reconcile : KeepsEvents id [] (reconcile env) := by
  refine Script.KeepsGhost.seq ?_ (keepsEvents_over_armed id env fun xs hnext r0 hr0 =>
    keepsEvents_fire_overdue id xs env hr0 (hnext r0 hr0))
  have hstale : ∀ r, KeepsEvents id [] (recover_stale env r) := by
    intro r p
    unfold Script.lift recover_stale
    split
    · exact keepsEvents_none id [] p
    · exact keepsEvents_one id [] env (.cycle_failed .Internal r.public_id none _) (by simp)
        (by simp) (by simp) (by simp) p
  have hloop : ∀ ys, KeepsEvents id [] (Script.each step (recover_stale env) ys) :=
    fun ys => Script.KeepsGhost.each fun r _ => hstale r
  exact fun p => hloop _ p

theorem keepsEvents_initialize_actor : KeepsEvents id [] (initialize_actor env) := by
  refine Script.KeepsGhost.seq (keepsEvents_one id [] env .restart (by simp) (by simp) (by simp)
    (by simp)) (Script.KeepsGhost.seq ?_ (keepsEvents_over_armed id env ?_))
  · have hloop : ∀ ys : List Schedule, KeepsEvents id [] (Script.each step
        (fun r _ => [(env, .cycle_failed .Internal r.public_id none
          "recovered from stale running state on startup")]) ys) :=
      fun ys => Script.KeepsGhost.each fun r _ => keepsEvents_one id [] env
        (.cycle_failed .Internal r.public_id none _) (by simp) (by simp) (by simp) (by simp)
    exact fun p => hloop _ p
  · intro xs _ r0 hr0
    by_cases hid : r0.public_id = id
    · refine Script.KeepsGhost.one fun p hI hC => ⟨firedByEvents_of_ne id env (by simp), ?_⟩
      obtain ⟨hcreated, htrig⟩ := hI.2 r0 hr0 hid
      exact ⟨eventful_enqueue hI.1 env hcreated htrig, listed_exec hI.2 env (by simp)⟩
    · refine keepsEvents_one id xs env (.enqueue_schedule r0) (by simp) (by simp) (by simp) ?_
      rintro schedule hop rfl
      cases hop
      exact hid rfl

end

theorem keepsEvents_handle (id : String) (i : Input) (htrigger : i.msg ≠ .TriggerNow id) :
    KeepsEvents id [] (handle i) := by
  obtain ⟨env, msg⟩ := i
  cases msg with
  | SetSelfRef => exact keepsEvents_one id [] env .set_self_ref (by simp) (by simp) (by simp) (by simp)
  | DeadlineReached id' => exact keepsEvents_handle_deadline_reached id [] env id'
  | ProcessEvent envelope => exact keepsEvents_process_event id [] env envelope
  | Reconcile => exact keepsEvents_reconcile id env
  | CycleCompleted cycle id' turn_id =>
      exact keepsEvents_one id [] env (.cycle_completed (.Session cycle) id' turn_id) (by simp)
        (by simp) (by simp) (by simp)
  | CycleFailed timer id' turn_id error =>
      exact keepsEvents_one id [] env (.cycle_failed (.Timer timer) id' turn_id error) (by simp)
        (by simp) (by simp) (by simp)
  | DebounceCompleted id' => exact keepsEvents_handle_debounce_completed id [] env id'
  | TriggerNow id' =>
      refine keepsEvents_handle_trigger_now id [] env ?_
      rintro rfl
      exact htrigger rfl
  | AddSchedule schedule =>
      exact Script.KeepsGhost.one fun p hI hC => ⟨firedByEvents_of_ne id env (by simp),
        eventful_add hI.1 hC.1, fun _ h => by cases h⟩
  | RemoveSchedule id' =>
      exact keepsEvents_one id [] env (.remove_schedule id') (by simp) (by simp) (by simp) (by simp)
  | PauseSchedule id' =>
      exact keepsEvents_one id [] env (.pause_schedule id') (by simp) (by simp) (by simp) (by simp)
  | ResumeSchedule id' =>
      exact keepsEvents_one id [] env (.resume_schedule id') (by simp) (by simp) (by simp) (by simp)
  | Restart => exact keepsEvents_initialize_actor id env

/-! ## 6. Every run -/

/-- **An event-driven schedule is fired by events**, in every run without `TriggerNow`
for it in which no failure re-arms it. -/
theorem event_driven_fires_on_events (id : String) (inputs : List Input)
    (htrigger : ∀ i ∈ inputs, i.msg ≠ .TriggerNow id)
    (hpromised : Along step (Promised id) .initial (trace inputs .initial))
    (hbackoff : Along step (NoBackoff id) .initial (trace inputs .initial)) :
    Along (counting_step id) (FiredByEvents id) (.initial, 0) (trace inputs .initial) := by
  have hkeeps : KeepsEvents id [] (trace inputs) :=
    Script.KeepsGhost.each fun i hi => keepsEvents_handle id i (htrigger i hi)
  have hordinary : Along (counting_step id) (Ordinary id) (.initial, 0) (trace inputs .initial) := by
    have hboth := hpromised.and hbackoff
    exact Along.instrument (P := fun s a => Promised id s a ∧ NoBackoff id s a)
      (count_events id) hboth
  have hlisted : Listed id [] .initial := fun _ h => by cases h
  exact (hkeeps _ ⟨eventful_initial id, hlisted⟩ hordinary).1

/-- A schedule that waits for one `ToolCallEnd`, without debounce. -/
def on_tool_end : Schedule :=
  .new "sched" "task" "session" (.EventDriven ⟨["ToolCallEnd"], 1, none⟩ 0) 0

/-- One event fires the schedule, the cycle fails, and a sweep comes after the
back-off deadline. -/
def swept_after_failure : List Input :=
  calmly
    [(0, .SetSelfRef),
     (0, .AddSchedule on_tool_end),
     (1, .ProcessEvent ⟨"session", .Other "ToolCallEnd"⟩),
     (2, .ProcessEvent ⟨"session", .ScheduledExecutionFailed 1 "sched" none "boom"⟩),
     (600 * second, .Reconcile)]

/-- The sweep fires the schedule, and no event has come since its last fire. -/
theorem sweep_fires_event_driven :
    (∀ i ∈ swept_after_failure, i.msg ≠ .TriggerNow "sched") ∧
      Along step (Promised "sched") .initial (trace swept_after_failure .initial) ∧
      ¬ Along (counting_step "sched") (FiredByEvents "sched") (.initial, 0)
        (trace swept_after_failure .initial) :=
  ⟨by decide, by decide, by decide⟩

/-- Two events, two fires: the first cycle completes, the sweep in between does
nothing. -/
def fired_twice : List Input :=
  calmly
    [(0, .SetSelfRef),
     (0, .AddSchedule on_tool_end),
     (1, .ProcessEvent ⟨"session", .Other "ToolCallEnd"⟩),
     (2, .ProcessEvent ⟨"session", .ScheduledExecutionCompleted 1 "sched" "turn-1"⟩),
     (600 * second, .Reconcile),
     (601 * second, .ProcessEvent ⟨"session", .Other "ToolCallEnd"⟩)]

theorem fired_twice_on_events :
    Along (counting_step "sched") (FiredByEvents "sched") (.initial, 0)
        (trace fired_twice .initial) ∧
      ((run step .initial (trace fired_twice .initial)).row "sched").map Schedule.state =
        some .Running :=
  ⟨event_driven_fires_on_events "sched" fired_twice (by decide) (by decide) (by decide),
    by decide⟩

end Querymt.Scheduler
