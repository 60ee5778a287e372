/-
`Scheduler/Accumulator.lean` -- one schedule's timers and event accumulator.

Which operations can give a schedule a deadline, a wake task or a larger event
count: `Tame` says that none of this happened between two states, and the lemmas
say so of every function of the actor. It is the frame of the laws about
event-driven schedules, which have an accumulator and no deadline.
-/
import Querymt.Scheduler.Effects

set_option autoImplicit false

open Runs

namespace Querymt.Scheduler

open SchedulerActor

/-! ## 1. One schedule's timers, accumulator and creation -/

/-- The schedule has an entry in the deadline queue. -/
def SchedulerActor.Queued (s : SchedulerActor) (id : String) : Prop :=
  ∃ e ∈ s.deadline_queue.heap, e.2 = id

/-- The effect spawns a wake task for the schedule. -/
def spawns_wake (id : String) : Effect → Bool
  | .spawn _ (.Wake id' _) => decide (id' = id)
  | _ => false

/-- A wake task was spawned for the schedule. -/
def SchedulerActor.Woken (s : SchedulerActor) (id : String) : Prop :=
  ∃ e ∈ s.outbox, spawns_wake id e = true

/-- The effect announces the creation of the schedule. -/
def announces_creation (id : String) : Effect → Bool
  | .emit_event _ (.ScheduleCreated id' _ _) => decide (id' = id)
  | _ => false

/-- The schedule was created. -/
def SchedulerActor.Created (s : SchedulerActor) (id : String) : Prop :=
  ∃ e ∈ s.outbox, announces_creation id e = true

/-- No deadline and no wake task for the schedule. -/
def SchedulerActor.Timeless (s : SchedulerActor) (id : String) : Prop :=
  ¬ s.Queued id ∧ ¬ s.Woken id

instance (s : SchedulerActor) (id : String) : Decidable (s.Woken id) :=
  inferInstanceAs (Decidable (∃ e ∈ s.outbox, spawns_wake id e = true))

instance (s : SchedulerActor) (id : String) : Decidable (s.Created id) :=
  inferInstanceAs (Decidable (∃ e ∈ s.outbox, announces_creation id e = true))

/-- From `s` to `s'` the schedule gets no deadline, its accumulator does not grow (it
may be renewed with the threshold `fresh`), and it is not created. -/
structure Tame (id : String) (fresh : Option ℕ) (s s' : SchedulerActor) : Prop where
  timeless : s.Timeless id → s'.Timeless id
  acc : ∀ acc', s'.event_counters.lookup id = some acc' →
    (∃ acc, s.event_counters.lookup id = some acc ∧ acc'.threshold = acc.threshold ∧
      acc'.count ≤ acc.count) ∨ (fresh = some acc'.threshold ∧ acc'.count = 0)
  created : s'.Created id ↔ s.Created id

namespace Tame

variable {id : String} {fresh : Option ℕ}

theorem trans {s s' s'' : SchedulerActor} (h : Tame id fresh s s') (h' : Tame id fresh s' s'') :
    Tame id fresh s s'' := by
  refine ⟨fun ht => h'.timeless (h.timeless ht), ?_, h'.created.trans h.created⟩
  intro acc'' hacc''
  rcases h'.acc acc'' hacc'' with ⟨acc', hacc', hth', hle'⟩ | hfresh
  · rcases h.acc acc' hacc' with ⟨acc, hacc, hth, hle⟩ | ⟨hth, hzero⟩
    · exact Or.inl ⟨acc, hacc, hth'.trans hth, hle'.trans hle⟩
    · exact Or.inr ⟨by rw [hth, hth'], by omega⟩
  · exact Or.inr hfresh

/-- The queue only loses entries, the accumulators are the same, and the new effects
neither wake nor create the schedule. -/
theorem of_outbox {s s' : SchedulerActor}
    (hqueue : ∀ e ∈ s'.deadline_queue.heap, e ∈ s.deadline_queue.heap)
    (hacc : s'.event_counters = s.event_counters)
    (hout : ∃ out, s'.outbox = s.outbox ++ out ∧
      ∀ e ∈ out, spawns_wake id e = false ∧ announces_creation id e = false) :
    Tame id fresh s s' := by
  obtain ⟨out, heq, hall⟩ := hout
  refine ⟨?_, ?_, ?_⟩
  · rintro ⟨hq, hw⟩
    refine ⟨fun ⟨e, he, hid⟩ => hq ⟨e, hqueue e he, hid⟩, ?_⟩
    rintro ⟨e, he, hspawn⟩
    rw [heq] at he
    rcases List.mem_append.1 he with he | he
    · exact hw ⟨e, he, hspawn⟩
    · rw [(hall e he).1] at hspawn
      cases hspawn
  · intro acc' hacc'
    rw [hacc] at hacc'
    exact Or.inl ⟨acc', hacc', rfl, le_rfl⟩
  · constructor
    · rintro ⟨e, he, hann⟩
      rw [heq] at he
      rcases List.mem_append.1 he with he | he
      · exact ⟨e, he, hann⟩
      · rw [(hall e he).2] at hann
        cases hann
    · rintro ⟨e, he, hann⟩
      exact ⟨e, by rw [heq]; exact List.mem_append_left _ he, hann⟩

/-- Fields that do not matter here. -/
theorem of_eq {s s' : SchedulerActor} (hqueue : s'.deadline_queue = s.deadline_queue)
    (hacc : s'.event_counters = s.event_counters) (hout : s'.outbox = s.outbox) :
    Tame id fresh s s' :=
  of_outbox (by rw [hqueue]; exact fun _ h => h) hacc ⟨[], by simp [hout], by simp⟩

theorem refl (s : SchedulerActor) : Tame id fresh s s := of_eq rfl rfl rfl

/-- Only the accumulators change. -/
theorem of_counters {s s' : SchedulerActor} (hqueue : s'.deadline_queue = s.deadline_queue)
    (hout : s'.outbox = s.outbox)
    (hacc : ∀ acc', s'.event_counters.lookup id = some acc' →
      (∃ acc, s.event_counters.lookup id = some acc ∧ acc'.threshold = acc.threshold ∧
        acc'.count ≤ acc.count) ∨ (fresh = some acc'.threshold ∧ acc'.count = 0)) :
    Tame id fresh s s' := by
  refine ⟨?_, hacc, ?_⟩
  · rintro ⟨hq, hw⟩
    exact ⟨by unfold Queued; rw [hqueue]; exact hq, by unfold Woken; rw [hout]; exact hw⟩
  · unfold Created
    rw [hout]

end Tame

section

variable (id : String) (fresh : Option ℕ) (s : SchedulerActor) (env : Env)

theorem tame_emit_event (session_id : String) (kind : AgentEventKind)
    (h : announces_creation id (.emit_event session_id kind) = false) :
    Tame id fresh s (s.emit_event session_id kind) :=
  Tame.of_outbox (fun _ he => he) rfl
    ⟨[_], rfl, by simp only [List.mem_singleton, forall_eq]; exact ⟨rfl, h⟩⟩

theorem tame_abort (handle : Option ℕ) : Tame id fresh s (s.abort handle) := by
  cases handle with
  | none => exact Tame.refl s
  | some task =>
      exact Tame.of_outbox (fun _ he => he) rfl ⟨[.abort task], rfl, by simp [spawns_wake,
        announces_creation]⟩

/-- The wake task goes to the head of the queue, which is not the schedule. -/
theorem tame_reschedule_wake : Tame id fresh s (s.reschedule_wake env) := by
  obtain ⟨handle, n, out, heq, hall⟩ := s.reschedule_wake_eq env
  rw [heq]
  refine ⟨?_, fun acc' h => Or.inl ⟨acc', h, rfl, le_rfl⟩, ?_⟩
  · rintro ⟨hq, hw⟩
    refine ⟨hq, ?_⟩
    rintro ⟨e, he, hspawn⟩
    rcases List.mem_append.1 he with he | he
    · exact hw ⟨e, he, hspawn⟩
    · rcases hall e he with ⟨task, rfl⟩ | ⟨t, id', seconds, rfl, -, hmem⟩
      · cases hspawn
      · simp only [spawns_wake, decide_eq_true_eq] at hspawn
        exact hq ⟨(t, id'), hmem, hspawn⟩
  · constructor
    · rintro ⟨e, he, hann⟩
      rcases List.mem_append.1 he with he | he
      · exact ⟨e, he, hann⟩
      · rcases hall e he with ⟨task, rfl⟩ | ⟨t, id', seconds, rfl, -, -⟩ <;> cases hann
    · rintro ⟨e, he, hann⟩
      exact ⟨e, List.mem_append_left _ he, hann⟩

theorem tame_remove_deadline (id' : String) : Tame id fresh s (s.remove_deadline env id') := by
  have hremove : Tame id fresh s { s with deadline_queue := s.deadline_queue.remove id' } :=
    Tame.of_outbox (fun e he => (List.mem_filter.1 he).1) rfl ⟨[], by simp, by simp⟩
  exact hremove.trans (tame_reschedule_wake id fresh _ env)

/-- Enqueueing: another schedule, or this one as an event-driven one. -/
theorem tame_enqueue_schedule (schedule : Schedule)
    (h : schedule.public_id = id → ∃ f d, schedule.trigger = .EventDriven f d ∧
      fresh = some f.threshold) :
    Tame id fresh s (s.enqueue_schedule env schedule) := by
  -- a new queue entry is another schedule's
  have hqueue : ∀ next, schedule.public_id ≠ id → Tame id fresh s
      ({ s with deadline_queue := s.deadline_queue.insert next schedule.public_id }.reschedule_wake
        env) := by
    intro next hne
    have hinsert : Tame id fresh s { s with
        deadline_queue := s.deadline_queue.insert next schedule.public_id } := by
      refine ⟨?_, fun acc' h => Or.inl ⟨acc', h, rfl, le_rfl⟩, Iff.rfl⟩
      rintro ⟨hq, hw⟩
      refine ⟨?_, hw⟩
      rintro ⟨e, he, hid⟩
      rcases List.mem_cons.1 he with rfl | he
      · exact hne hid
      · exact hq ⟨e, he, hid⟩
    exact hinsert.trans (tame_reschedule_wake id fresh _ env)
  by_cases hid : schedule.public_id = id
  · obtain ⟨f, d, htrig, hfresh⟩ := h hid
    unfold enqueue_schedule
    rw [htrig]
    refine Tame.of_counters rfl rfl ?_
    intro acc' hacc'
    dsimp only at hacc'
    rw [hid, AList.lookup_insert, Option.some.injEq] at hacc'
    subst hacc'
    exact Or.inr ⟨hfresh, rfl⟩
  · unfold enqueue_schedule
    split
    · split
      · exact Tame.refl s
      · exact hqueue _ hid
    · split
      · exact Tame.refl s
      · exact hqueue _ hid
    · refine Tame.of_counters rfl rfl ?_
      intro acc' hacc'
      dsimp only at hacc'
      rw [AList.lookup_insert_ne (Ne.symm hid)] at hacc'
      exact Or.inl ⟨acc', hacc', rfl, le_rfl⟩

/-- Replacing an accumulator by one that has not grown. -/
theorem tame_replace {id' : String} {acc : EventAccumulator} (acc' : EventAccumulator)
    (hlook : s.event_counters.lookup id' = some acc) (hth : acc'.threshold = acc.threshold)
    (hle : acc'.count ≤ acc.count) :
    Tame id fresh s { s with event_counters := s.event_counters.insert id' acc' } := by
  refine Tame.of_counters rfl rfl ?_
  intro acc'' hacc''
  left
  dsimp only at hacc''
  by_cases hid : id = id'
  · subst hid
    rw [AList.lookup_insert, Option.some.injEq] at hacc''
    subst hacc''
    exact ⟨acc, hlook, hth, hle⟩
  · rw [AList.lookup_insert_ne hid] at hacc''
    exact ⟨acc'', hacc'', rfl, le_rfl⟩

theorem tame_reset_accumulator (id' : String) : Tame id fresh s (s.reset_accumulator id') := by
  unfold reset_accumulator
  split
  · exact Tame.refl s
  · next acc hlook =>
      exact (tame_replace id fresh s acc.reset hlook rfl (Nat.zero_le _)).trans (tame_abort id fresh _ _)

theorem tame_increment {id' : String} (h : id' ≠ id) : Tame id fresh s (s.increment id') := by
  unfold increment
  split
  · exact Tame.refl s
  · refine Tame.of_counters rfl rfl ?_
    intro acc' hacc'
    dsimp only at hacc'
    rw [AList.lookup_insert_ne (Ne.symm h)] at hacc'
    exact Or.inl ⟨acc', hacc', rfl, le_rfl⟩

theorem tame_clear_debounce (id' : String) : Tame id fresh s (s.clear_debounce id') := by
  unfold clear_debounce
  split
  · exact Tame.refl s
  · next acc hlook =>
      exact tame_replace id fresh s { acc with debounce_until := none } hlook rfl le_rfl

theorem tame_start_debounce (id' : String) (debounce_secs : ℕ) :
    Tame id fresh s (s.start_debounce env id' debounce_secs) := by
  unfold start_debounce
  split
  · exact Tame.refl s
  · next acc hlook =>
      dsimp only
      split
      · have hspawn : Tame id fresh s (s.send (.spawn s.next_task (.Debounce id' debounce_secs))) :=
          Tame.of_outbox (fun _ he => he) rfl
            ⟨[_], rfl, by simp [spawns_wake, announces_creation]⟩
        refine hspawn.trans ?_
        have hreplace := tame_replace id fresh
          (s.send (.spawn s.next_task (.Debounce id' debounce_secs)))
          { acc with
            debounce_until := some (env.now + debounce_secs * second)
            debounce_handle := some s.next_task } hlook rfl le_rfl
        exact hreplace.trans (Tame.of_eq rfl rfl rfl)
      · exact tame_replace id fresh s
          { acc with debounce_until := some (env.now + debounce_secs * second) }
          hlook rfl le_rfl

theorem tame_update_schedule (schedule : Schedule) :
    Tame id fresh s (s.update_schedule env schedule) := by
  unfold update_schedule
  split <;> exact Tame.of_eq rfl rfl rfl

theorem tame_delete_schedule (id' : String) : Tame id fresh s (s.delete_schedule env id') := by
  unfold delete_schedule
  split <;> exact Tame.of_eq rfl rfl rfl

theorem tame_update_schedule_state (id' : String) (from_state to_state : ScheduleState) :
    Tame id fresh s (s.update_schedule_state env id' from_state to_state).1 := by
  obtain ⟨store, heq⟩ := s.update_schedule_state_eq env id' from_state to_state
  rw [heq]
  exact Tame.of_eq rfl rfl rfl

theorem tame_remove_active_cycle (id' : String) : Tame id fresh s (s.remove_active_cycle id') := by
  unfold remove_active_cycle
  split
  · exact Tame.refl s
  · next cycle _ =>
      have herase : Tame id fresh s { s with active_cycles := s.active_cycles.erase id' } :=
        Tame.of_eq rfl rfl rfl
      exact herase.trans (tame_abort id fresh _ _)

theorem tame_execute_pending_delete (id' : String) :
    Tame id fresh s (s.execute_pending_delete env id') := by
  unfold execute_pending_delete
  split
  · have herase : Tame id fresh s { s with pending_deletes := s.pending_deletes.erase id' } :=
      Tame.of_eq rfl rfl rfl
    exact herase.trans (tame_delete_schedule id fresh _ env id')
  · exact Tame.refl s

theorem tame_write_terminal (updated : Schedule)
    (h : updated.public_id = id → ∃ f d, updated.trigger = .EventDriven f d ∧
      fresh = some f.threshold) :
    Tame id fresh s (s.write_terminal env updated) := by
  have hwrite := tame_update_schedule id fresh s env updated
  unfold write_terminal
  dsimp only
  split
  · exact hwrite.trans (tame_emit_event id fresh _ _ _ rfl)
  · exact hwrite.trans (tame_emit_event id fresh _ _ _ rfl)
  · exact hwrite.trans (tame_enqueue_schedule id fresh _ env updated h)

/-- A terminal of another schedule, or of this one as an event-driven one. -/
theorem tame_handle_terminal (key : String × Option String) (updated : Schedule → Schedule)
    (announce : Schedule → AgentEventKind)
    (hannounce : ∀ r session_id, announces_creation id (.emit_event session_id (announce r)) = false)
    (h : ∀ r, s.row key.1 = some r → (updated r).public_id = id →
      ∃ f d, (updated r).trigger = .EventDriven f d ∧ fresh = some f.threshold) :
    Tame id fresh s (s.handle_terminal env key updated announce) := by
  unfold handle_terminal
  split
  · exact Tame.refl s
  · have hmark : Tame id fresh s
        { s with processed_terminals := insert key s.processed_terminals } :=
      Tame.of_eq rfl rfl rfl
    have hremove := hmark.trans (tame_remove_active_cycle id fresh _ key.1)
    dsimp only
    split
    · exact hremove
    · next r hr =>
        have hrow : s.row key.1 = some r := by
          unfold get_schedule at hr
          split at hr
          · simpa [row] using hr
          · cases hr
        exact hremove.trans ((tame_write_terminal id fresh _ env _ (h r hrow)).trans
          ((tame_execute_pending_delete id fresh _ env _).trans
            (tame_emit_event id fresh _ _ _ (hannounce r _))))

theorem tame_handle_remove_schedule (id' : String) :
    Tame id fresh s (s.handle_remove_schedule env id') := by
  unfold handle_remove_schedule
  split
  · exact Tame.of_eq rfl rfl rfl
  · have herase : Tame id fresh s { s with event_counters := s.event_counters.erase id' } := by
      refine Tame.of_counters rfl rfl ?_
      intro acc' hacc'
      dsimp only at hacc'
      by_cases hid : id = id'
      · subst hid
        rw [AList.lookup_erase] at hacc'
        cases hacc'
      · rw [AList.lookup_erase_ne hid] at hacc'
        exact Or.inl ⟨acc', hacc', rfl, le_rfl⟩
    exact herase.trans ((tame_remove_deadline id fresh _ env id').trans
      (tame_delete_schedule id fresh _ env id'))

theorem tame_handle_pause_schedule (id' : String) :
    Tame id fresh s (s.handle_pause_schedule env id') := by
  have hpause : Tame id fresh s (s.try_pause env id').1 := by
    unfold try_pause
    dsimp only
    split
    · exact tame_update_schedule_state id fresh s env id' _ _
    · exact (tame_update_schedule_state id fresh s env id' _ _).trans
        (tame_update_schedule_state id fresh _ env id' _ _)
  unfold handle_pause_schedule
  dsimp only
  split
  · have hremove : Tame id fresh (s.try_pause env id').1 { (s.try_pause env id').1 with
        deadline_queue := (s.try_pause env id').1.deadline_queue.remove id' } :=
      Tame.of_outbox (fun e he => (List.mem_filter.1 he).1) rfl ⟨[], by simp, by simp⟩
    exact hpause.trans (hremove.trans ((tame_reset_accumulator id fresh _ id').trans
      ((tame_reschedule_wake id fresh _ env).trans (tame_emit_event id fresh _ _ _ rfl))))
  · exact hpause

/-- Reloading another schedule, or this one as an event-driven one. -/
theorem tame_reload_and_enqueue (id' : String)
    (h : ∀ r, s.row id' = some r → id' = id → ∃ f d, r.trigger = .EventDriven f d ∧
      fresh = some f.threshold) :
    Tame id fresh s (s.reload_and_enqueue env id') := by
  unfold reload_and_enqueue
  split
  · exact Tame.refl s
  · next r hr =>
      have hrow : s.row id' = some r := by
        unfold get_schedule at hr
        split at hr
        · exact hr
        · cases hr
      have hpid : r.public_id = id' := row_public_id hrow
      split
      · next seconds htrig =>
          refine (tame_update_schedule id fresh s env _).trans
            (tame_enqueue_schedule id fresh _ env _ ?_)
          intro hid
          obtain ⟨f, d, hed, -⟩ := h r hrow (hpid.symm.trans hid)
          exact absurd (htrig.symm.trans hed) (by simp)
      · refine tame_enqueue_schedule id fresh s env r ?_
        intro hid
        exact h r hrow (hpid.symm.trans hid)

theorem tame_begin_cycle (id' : String) : Tame id fresh s (s.begin_cycle env id').1 := by
  have hswap := tame_update_schedule_state id fresh s env id' .Armed .Running
  rcases s.begin_cycle_cases env id' with ⟨-, heq⟩ | ⟨-, -, r, -, heq⟩
  · rw [heq]
    exact hswap
  · rw [heq]
    refine hswap.trans (Tame.of_outbox (fun _ he => he) rfl ⟨_, open_cycle_outbox _ env _, ?_⟩)
    intro e he
    simp only [List.mem_cons, List.not_mem_nil, or_false] at he
    rcases he with rfl | rfl | rfl
    · exact ⟨rfl, rfl⟩
    · split <;> exact ⟨rfl, rfl⟩
    · exact ⟨rfl, rfl⟩

end

end Querymt.Scheduler
