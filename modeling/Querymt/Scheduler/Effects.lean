/-
`Scheduler/Effects.lean` -- what each operation sends out, and the cycle tables.

A cycle is opened by three effects, the prompt, its timeout task and the
`ScheduleFired` event, and only `fire` produces them: every other operation is
`Quiet`. The laws about prompts need no more about the outbox than this. The
active cycles and the duplicate filter change in `fire`, in the terminals and in a
restart only.
-/
import Querymt.Scheduler.Rows

set_option autoImplicit false

open Runs

namespace Querymt.Scheduler

namespace SchedulerActor

/-- The effects that open a cycle: the prompt and its timeout task. -/
def opens_cycle : Effect → Bool
  | .scheduled_prompt _ _ _ => true
  | .spawn _ (.Timeout _ _) => true
  | .spawn _ (.SilentTimeout _ _) => true
  | _ => false

/-- From `s` to `s'` effects are only added, none of them opens a cycle, and task
numbers are not reused. -/
structure Quiet (s s' : SchedulerActor) : Prop where
  outbox : ∃ out, s'.outbox = s.outbox ++ out ∧ ∀ e ∈ out, opens_cycle e = false
  next_task : s.next_task ≤ s'.next_task

namespace Quiet

theorem of_eq {s s' : SchedulerActor} (hout : s'.outbox = s.outbox)
    (hnext : s'.next_task = s.next_task) : Quiet s s' :=
  ⟨⟨[], by simp [hout], by simp⟩, by rw [hnext]⟩

theorem refl (s : SchedulerActor) : Quiet s s := of_eq rfl rfl

/-- Other fields may have changed before. -/
theorem after {s t s' : SchedulerActor} (h : Quiet t s')
    (hout : t.outbox = s.outbox) (hnext : t.next_task = s.next_task) : Quiet s s' := by
  obtain ⟨out, heq, hall⟩ := h.outbox
  exact ⟨⟨out, by rw [heq, hout], hall⟩, by rw [← hnext]; exact h.next_task⟩

theorem trans {s s' s'' : SchedulerActor} (h : Quiet s s') (h' : Quiet s' s'') : Quiet s s'' := by
  obtain ⟨out, hout, hall⟩ := h.outbox
  obtain ⟨out', hout', hall'⟩ := h'.outbox
  refine ⟨⟨out ++ out', by rw [hout', hout, List.append_assoc], ?_⟩,
    h.next_task.trans h'.next_task⟩
  intro e he
  rcases List.mem_append.1 he with he | he
  · exact hall e he
  · exact hall' e he

end Quiet

variable (s : SchedulerActor) (env : Env)

theorem quiet_send {e : Effect} (he : opens_cycle e = false) : Quiet s (s.send e) :=
  ⟨⟨[e], rfl, by simpa using he⟩, le_rfl⟩

theorem quiet_emit_event (session_id : String) (kind : AgentEventKind) :
    Quiet s (s.emit_event session_id kind) :=
  quiet_send s rfl

theorem quiet_abort (handle : Option ℕ) : Quiet s (s.abort handle) := by
  cases handle with
  | none => exact Quiet.refl s
  | some task => exact quiet_send s rfl

theorem quiet_reschedule_wake : Quiet s (s.reschedule_wake env) := by
  obtain ⟨handle, n, out, heq, hall⟩ := s.reschedule_wake_eq env
  rw [heq]
  refine ⟨⟨out, rfl, ?_⟩, Nat.le_add_right _ _⟩
  intro e he
  rcases hall e he with ⟨task, rfl⟩ | ⟨_, id, seconds, rfl, -⟩ <;> rfl

theorem quiet_remove_deadline (id : String) : Quiet s (s.remove_deadline env id) :=
  (quiet_reschedule_wake { s with deadline_queue := s.deadline_queue.remove id } env).after rfl rfl

theorem quiet_enqueue_schedule (schedule : Schedule) :
    Quiet s (s.enqueue_schedule env schedule) := by
  unfold enqueue_schedule
  split
  · split
    · exact Quiet.refl s
    · exact (quiet_reschedule_wake _ env).after rfl rfl
  · split
    · exact Quiet.refl s
    · exact (quiet_reschedule_wake _ env).after rfl rfl
  · exact Quiet.of_eq rfl rfl

theorem quiet_reset_accumulator (id : String) : Quiet s (s.reset_accumulator id) := by
  unfold reset_accumulator
  split
  · exact Quiet.refl s
  · exact (quiet_abort _ _).after rfl rfl

theorem quiet_increment (id : String) : Quiet s (s.increment id) := by
  unfold increment
  split
  · exact Quiet.refl s
  · exact Quiet.of_eq rfl rfl

theorem quiet_clear_debounce (id : String) : Quiet s (s.clear_debounce id) := by
  unfold clear_debounce
  split
  · exact Quiet.refl s
  · exact Quiet.of_eq rfl rfl

theorem quiet_start_debounce (id : String) (debounce_secs : ℕ) :
    Quiet s (s.start_debounce env id debounce_secs) := by
  unfold start_debounce
  split
  · exact Quiet.refl s
  · dsimp only
    split
    · exact ⟨⟨[_], rfl, by simp [opens_cycle]⟩, Nat.le_succ _⟩
    · exact Quiet.of_eq rfl rfl

theorem quiet_update_schedule (schedule : Schedule) :
    Quiet s (s.update_schedule env schedule) := by
  unfold update_schedule
  split
  · exact Quiet.of_eq rfl rfl
  · exact Quiet.refl s

theorem quiet_delete_schedule (id : String) : Quiet s (s.delete_schedule env id) := by
  unfold delete_schedule
  split
  · exact Quiet.of_eq rfl rfl
  · exact Quiet.refl s

/-- A compare-and-swap touches the table only. -/
theorem update_schedule_state_eq (id : String) (from_state to_state : ScheduleState) :
    ∃ store, (s.update_schedule_state env id from_state to_state).1 =
      { s with schedule_store := store } := by
  unfold update_schedule_state
  split
  · exact ⟨_, rfl⟩
  · exact ⟨s.schedule_store, rfl⟩

theorem quiet_update_schedule_state (id : String) (from_state to_state : ScheduleState) :
    Quiet s (s.update_schedule_state env id from_state to_state).1 := by
  obtain ⟨store, heq⟩ := s.update_schedule_state_eq env id from_state to_state
  rw [heq]
  exact Quiet.of_eq rfl rfl

theorem quiet_remove_active_cycle (id : String) : Quiet s (s.remove_active_cycle id) := by
  unfold remove_active_cycle
  split
  · exact Quiet.refl s
  · exact (quiet_abort _ _).after rfl rfl

theorem quiet_write_terminal (updated : Schedule) : Quiet s (s.write_terminal env updated) := by
  have hwrite := s.quiet_update_schedule env updated
  unfold write_terminal
  dsimp only
  split
  · exact hwrite.trans (quiet_emit_event _ _ _)
  · exact hwrite.trans (quiet_emit_event _ _ _)
  · exact hwrite.trans (quiet_enqueue_schedule _ _ _)

theorem quiet_execute_pending_delete (id : String) :
    Quiet s (s.execute_pending_delete env id) := by
  unfold execute_pending_delete
  split
  · exact (quiet_delete_schedule _ env id).after rfl rfl
  · exact Quiet.refl s

theorem quiet_terminal_tail (updated : Schedule) (id session_id : String) (kind : AgentEventKind) :
    Quiet s (((s.write_terminal env updated).execute_pending_delete env id).emit_event
      session_id kind) :=
  (quiet_write_terminal s env updated).trans
    ((quiet_execute_pending_delete _ env id).trans (quiet_emit_event _ _ _))

theorem quiet_handle_terminal (key : String × Option String) (updated : Schedule → Schedule)
    (announce : Schedule → AgentEventKind) :
    Quiet s (s.handle_terminal env key updated announce) := by
  unfold handle_terminal
  split
  · exact Quiet.refl s
  · have hremove : Quiet s (remove_active_cycle
        { s with processed_terminals := insert key s.processed_terminals } key.1) :=
      (quiet_remove_active_cycle _ key.1).after rfl rfl
    dsimp only
    split
    · exact hremove
    · exact hremove.trans (quiet_terminal_tail _ env _ _ _ _)

/-- A terminal that is not dropped aborts the timeout of the active cycle. -/
theorem abort_mem_handle_terminal {key : String × Option String} {cycle : ActiveCycle}
    (updated : Schedule → Schedule) (announce : Schedule → AgentEventKind)
    (hnew : key ∉ s.processed_terminals) (hactive : s.active_cycles.lookup key.1 = some cycle) :
    .abort cycle.timeout_handle ∈ (s.handle_terminal env key updated announce).outbox := by
  have hmem : .abort cycle.timeout_handle ∈ (remove_active_cycle
      { s with processed_terminals := insert key s.processed_terminals } key.1).outbox := by
    simp [remove_active_cycle, hactive, abort, send]
  unfold handle_terminal
  rw [if_neg hnew]
  dsimp only
  split
  · exact hmem
  · next schedule _ =>
      obtain ⟨out, heq, -⟩ := (quiet_terminal_tail (remove_active_cycle
        { s with processed_terminals := insert key s.processed_terminals } key.1) env
          (updated schedule) key.1 schedule.session_public_id (announce schedule)).outbox
      rw [heq]
      exact List.mem_append_left _ hmem

theorem quiet_handle_add_schedule (schedule : Schedule) :
    Quiet s (s.handle_add_schedule env schedule) := by
  unfold handle_add_schedule
  dsimp only
  split
  · exact Quiet.refl s
  · split
    · exact Quiet.refl s
    · next store _ =>
        exact ((quiet_enqueue_schedule { s with schedule_store := store } env _).trans
          (quiet_emit_event _ _ _)).after rfl rfl

theorem quiet_handle_remove_schedule (id : String) :
    Quiet s (s.handle_remove_schedule env id) := by
  unfold handle_remove_schedule
  split
  · exact Quiet.of_eq rfl rfl
  · exact ((quiet_remove_deadline _ env id).trans (quiet_delete_schedule _ env id)).after rfl rfl

theorem quiet_try_pause (id : String) : Quiet s (s.try_pause env id).1 := by
  unfold try_pause
  dsimp only
  split
  · exact s.quiet_update_schedule_state env id _ _
  · exact (s.quiet_update_schedule_state env id _ _).trans
      (quiet_update_schedule_state _ env id _ _)

theorem quiet_handle_pause_schedule (id : String) : Quiet s (s.handle_pause_schedule env id) := by
  have hpause := s.quiet_try_pause env id
  unfold handle_pause_schedule
  dsimp only
  split
  · refine hpause.trans (Quiet.trans ?_ (quiet_emit_event _ _ _))
    exact ((quiet_reset_accumulator _ id).trans (quiet_reschedule_wake _ env)).after rfl rfl
  · exact hpause

theorem quiet_reload_and_enqueue (id : String) : Quiet s (s.reload_and_enqueue env id) := by
  unfold reload_and_enqueue
  split
  · exact Quiet.refl s
  · split
    · exact (quiet_update_schedule s env _).trans (quiet_enqueue_schedule _ env _)
    · exact quiet_enqueue_schedule s env _

theorem quiet_handle_resume_schedule (id : String) : Quiet s (s.handle_resume_schedule env id) := by
  have hswap := s.quiet_update_schedule_state env id .Paused .Armed
  unfold handle_resume_schedule
  dsimp only
  split
  · exact hswap.trans ((quiet_reload_and_enqueue _ env id).trans (quiet_emit_event _ _ _))
  · exact hswap

/-- The effects of an accepted prompt. -/
theorem open_cycle_outbox (schedule : Schedule) :
    (s.open_cycle env schedule).outbox = s.outbox ++
      [.scheduled_prompt s.next_task schedule.session_public_id
          ⟨schedule.public_id, prompt_text env schedule⟩,
        .spawn s.next_task
          (if s.self_ref then .Timeout schedule.public_id schedule.config.max_runtime_seconds
            else .SilentTimeout schedule.public_id schedule.config.max_runtime_seconds),
        .emit_event schedule.session_public_id
          (.ScheduleFired schedule.public_id schedule.session_public_id)] := by
  simp [open_cycle, emit_event, send]

/-- Only a fire whose compare-and-swap succeeded ends its cycle at once. -/
theorem swaps_of_ended {s : SchedulerActor} {env : Env} {id error : String}
    (h : (s.begin_cycle env id).2 = .Ended error) : s.swaps env id .Armed .Running = true := by
  cases hswap : s.swaps env id .Armed .Running with
  | true => rfl
  | false =>
      rw [begin_cycle, update_schedule_state_of_not_swaps hswap] at h
      simp at h

/-- **What firing can do**: it stays quiet, or the compare-and-swap succeeded, the
prompt was accepted and the cycle is open. -/
theorem begin_cycle_cases (id : String) :
    ((s.begin_cycle env id).2 ≠ .Sent ∧
        (s.begin_cycle env id).1 = (s.update_schedule_state env id .Armed .Running).1) ∨
      ((s.begin_cycle env id).2 = .Sent ∧ s.swaps env id .Armed .Running = true ∧
        ∃ r, s.row id = some r ∧ (s.begin_cycle env id).1 =
          (s.update_schedule_state env id .Armed .Running).1.open_cycle env
            (with_state env .Running r)) := by
  unfold begin_cycle
  dsimp only
  rw [update_schedule_state_snd]
  cases hswap : s.swaps env id .Armed .Running with
  | false => exact Or.inl ⟨by simp, by simp⟩
  | true =>
      obtain ⟨r, hr, -⟩ := exists_row_of_swaps hswap
      have hrow := s.row_update_schedule_state env id .Armed .Running id
      simp only [hswap, hr, and_self, if_true, Option.map_some] at hrow
      simp only [Bool.true_eq_false, if_false, get_schedule, hrow]
      by_cases hget : env.get_ok id = true
      · simp only [hget, if_true]
        split
        · exact Or.inl ⟨by simp, rfl⟩
        · split
          · exact Or.inl ⟨by simp, rfl⟩
          · exact Or.inr ⟨rfl, trivial, r, hr, rfl⟩
      · simp [hget]

end SchedulerActor

open SchedulerActor

/-- Every operation but `fire` is quiet. -/
theorem quiet_exec (env : Env) (s : SchedulerActor) (op : Op) (h : ∀ id, op ≠ .fire id) :
    Quiet s (exec env s op) := by
  cases op with
  | set_self_ref => exact (quiet_reschedule_wake { s with self_ref := true } env).after rfl rfl
  | restart => exact Quiet.of_eq rfl rfl
  | enqueue_schedule schedule => exact quiet_enqueue_schedule s env schedule
  | remove_deadline id => exact quiet_remove_deadline s env id
  | fire id => exact absurd rfl (h id)
  | cycle_completed origin id turn_id => exact quiet_handle_terminal s env _ _ _
  | cycle_failed origin id turn_id error => exact quiet_handle_terminal s env _ _ _
  | add_schedule schedule => exact quiet_handle_add_schedule s env schedule
  | remove_schedule id => exact quiet_handle_remove_schedule s env id
  | pause_schedule id => exact quiet_handle_pause_schedule s env id
  | resume_schedule id => exact quiet_handle_resume_schedule s env id
  | increment id kind session_id => exact quiet_increment s id
  | reset_accumulator id => exact quiet_reset_accumulator s id
  | start_debounce id debounce_secs => exact quiet_start_debounce s env id debounce_secs
  | clear_debounce id => exact quiet_clear_debounce s id

/-! ## The cycle tables -/

namespace SchedulerActor

/-- The active cycles and the duplicate filter are the same. -/
structure KeepsCycles (s s' : SchedulerActor) : Prop where
  active_cycles : s'.active_cycles = s.active_cycles
  processed_terminals : s'.processed_terminals = s.processed_terminals

theorem KeepsCycles.trans {s s' s'' : SchedulerActor} (h : KeepsCycles s s')
    (h' : KeepsCycles s' s'') : KeepsCycles s s'' :=
  ⟨h'.1.trans h.1, h'.2.trans h.2⟩

/-- Other fields may have changed before. -/
theorem KeepsCycles.after {s t s' : SchedulerActor} (h : KeepsCycles t s')
    (hactive : t.active_cycles = s.active_cycles)
    (hprocessed : t.processed_terminals = s.processed_terminals) : KeepsCycles s s' :=
  ⟨h.1.trans hactive, h.2.trans hprocessed⟩

variable (s : SchedulerActor) (env : Env)

theorem keepsCycles_abort (handle : Option ℕ) : KeepsCycles s (s.abort handle) := by
  cases handle <;> exact ⟨rfl, rfl⟩

theorem keepsCycles_emit_event (session_id : String) (kind : AgentEventKind) :
    KeepsCycles s (s.emit_event session_id kind) := ⟨rfl, rfl⟩

theorem keepsCycles_reschedule_wake : KeepsCycles s (s.reschedule_wake env) :=
  ⟨by simp, by simp⟩

theorem keepsCycles_remove_deadline (id : String) : KeepsCycles s (s.remove_deadline env id) :=
  ⟨by simp [remove_deadline], by simp [remove_deadline]⟩

theorem keepsCycles_enqueue_schedule (schedule : Schedule) :
    KeepsCycles s (s.enqueue_schedule env schedule) :=
  ⟨by simp, by simp⟩

theorem keepsCycles_reset_accumulator (id : String) :
    KeepsCycles s (s.reset_accumulator id) := by
  unfold reset_accumulator
  split
  · exact ⟨rfl, rfl⟩
  · exact (keepsCycles_abort _ _).after rfl rfl

theorem keepsCycles_increment (id : String) : KeepsCycles s (s.increment id) := by
  unfold increment
  split <;> exact ⟨rfl, rfl⟩

theorem keepsCycles_start_debounce (id : String) (debounce_secs : ℕ) :
    KeepsCycles s (s.start_debounce env id debounce_secs) := by
  unfold start_debounce
  split
  · exact ⟨rfl, rfl⟩
  · dsimp only
    split <;> exact ⟨rfl, rfl⟩

theorem keepsCycles_clear_debounce (id : String) : KeepsCycles s (s.clear_debounce id) := by
  unfold clear_debounce
  split <;> exact ⟨rfl, rfl⟩

theorem keepsCycles_update_schedule (schedule : Schedule) :
    KeepsCycles s (s.update_schedule env schedule) := by
  unfold update_schedule
  split <;> exact ⟨rfl, rfl⟩

theorem keepsCycles_delete_schedule (id : String) :
    KeepsCycles s (s.delete_schedule env id) := by
  unfold delete_schedule
  split <;> exact ⟨rfl, rfl⟩

theorem keepsCycles_update_schedule_state (id : String) (from_state to_state : ScheduleState) :
    KeepsCycles s (s.update_schedule_state env id from_state to_state).1 := by
  obtain ⟨store, heq⟩ := s.update_schedule_state_eq env id from_state to_state
  rw [heq]
  exact ⟨rfl, rfl⟩

theorem keepsCycles_write_terminal (updated : Schedule) :
    KeepsCycles s (s.write_terminal env updated) := by
  have hwrite := s.keepsCycles_update_schedule env updated
  unfold write_terminal
  dsimp only
  split
  · exact hwrite.trans (keepsCycles_emit_event _ _ _)
  · exact hwrite.trans (keepsCycles_emit_event _ _ _)
  · exact hwrite.trans (keepsCycles_enqueue_schedule _ env _)

theorem keepsCycles_execute_pending_delete (id : String) :
    KeepsCycles s (s.execute_pending_delete env id) := by
  unfold execute_pending_delete
  split
  · exact (keepsCycles_delete_schedule _ env id).after rfl rfl
  · exact ⟨rfl, rfl⟩

theorem keepsCycles_handle_add_schedule (schedule : Schedule) :
    KeepsCycles s (s.handle_add_schedule env schedule) := by
  unfold handle_add_schedule
  dsimp only
  split
  · exact ⟨rfl, rfl⟩
  · split
    · exact ⟨rfl, rfl⟩
    · next store _ =>
        exact ((keepsCycles_enqueue_schedule { s with schedule_store := store } env _).trans
          (keepsCycles_emit_event _ _ _)).after rfl rfl

theorem keepsCycles_handle_remove_schedule (id : String) :
    KeepsCycles s (s.handle_remove_schedule env id) := by
  unfold handle_remove_schedule
  split
  · exact ⟨rfl, rfl⟩
  · exact ((keepsCycles_remove_deadline _ env id).trans
      (keepsCycles_delete_schedule _ env id)).after rfl rfl

theorem keepsCycles_try_pause (id : String) : KeepsCycles s (s.try_pause env id).1 := by
  unfold try_pause
  dsimp only
  split
  · exact s.keepsCycles_update_schedule_state env id _ _
  · exact (s.keepsCycles_update_schedule_state env id _ _).trans
      (keepsCycles_update_schedule_state _ env id _ _)

theorem keepsCycles_handle_pause_schedule (id : String) :
    KeepsCycles s (s.handle_pause_schedule env id) := by
  have hpause := s.keepsCycles_try_pause env id
  unfold handle_pause_schedule
  dsimp only
  split
  · refine hpause.trans (KeepsCycles.trans ?_ (keepsCycles_emit_event _ _ _))
    exact ((keepsCycles_reset_accumulator _ id).trans
      (keepsCycles_reschedule_wake _ env)).after rfl rfl
  · exact hpause

theorem keepsCycles_handle_resume_schedule (id : String) :
    KeepsCycles s (s.handle_resume_schedule env id) := by
  have hswap := s.keepsCycles_update_schedule_state env id .Paused .Armed
  have hreload : ∀ t : SchedulerActor, KeepsCycles t (t.reload_and_enqueue env id) := by
    intro t
    unfold reload_and_enqueue
    split
    · exact ⟨rfl, rfl⟩
    · split
      · exact (keepsCycles_update_schedule t env _).trans (keepsCycles_enqueue_schedule _ env _)
      · exact keepsCycles_enqueue_schedule t env _
  unfold handle_resume_schedule
  dsimp only
  split
  · exact hswap.trans ((hreload _).trans (keepsCycles_emit_event _ _ _))
  · exact hswap

/-- The active cycles and the duplicate filter after a terminal. -/
theorem cycles_handle_terminal (key : String × Option String) (updated : Schedule → Schedule)
    (announce : Schedule → AgentEventKind) (hnew : key ∉ s.processed_terminals) :
    (s.handle_terminal env key updated announce).active_cycles = s.active_cycles.erase key.1 ∧
      (s.handle_terminal env key updated announce).processed_terminals =
        insert key s.processed_terminals := by
  -- what follows the removal of the active cycle keeps both tables
  have hremove : ∀ t : SchedulerActor,
      (t.remove_active_cycle key.1).active_cycles = t.active_cycles.erase key.1 ∧
        (t.remove_active_cycle key.1).processed_terminals = t.processed_terminals := by
    intro t
    unfold remove_active_cycle
    split
    · next hnone =>
        refine ⟨?_, rfl⟩
        rw [AList.lookup_eq_none] at hnone
        refine AList.ext ?_
        rw [AList.erase]
        exact (List.kerase_of_notMem_keys hnone).symm
    · exact ⟨rfl, rfl⟩
  have htail : ∀ (t : SchedulerActor) (r : Schedule) (session_id : String) (kind : AgentEventKind),
      KeepsCycles t (((t.write_terminal env r).execute_pending_delete env key.1).emit_event
        session_id kind) :=
    fun t r _ _ => ((t.keepsCycles_write_terminal env r).trans
      (keepsCycles_execute_pending_delete _ env key.1)).trans (keepsCycles_emit_event _ _ _)
  obtain ⟨hactive, hprocessed⟩ :=
    hremove { s with processed_terminals := insert key s.processed_terminals }
  unfold handle_terminal
  rw [if_neg hnew]
  dsimp only
  split
  · exact ⟨hactive, hprocessed⟩
  · exact ⟨(htail _ _ _ _).1.trans hactive, (htail _ _ _ _).2.trans hprocessed⟩

end SchedulerActor

/-- The operations other than `fire`, the terminals and a restart keep both tables. -/
theorem keepsCycles_exec (env : Env) (s : SchedulerActor) (op : Op) (hfire : ∀ id, op ≠ .fire id)
    (hterm : op.terminal env = none) (hrestart : op ≠ .restart) :
    KeepsCycles s (exec env s op) := by
  cases op with
  | set_self_ref => exact (keepsCycles_reschedule_wake { s with self_ref := true } env).after rfl rfl
  | restart => exact absurd rfl hrestart
  | enqueue_schedule schedule => exact keepsCycles_enqueue_schedule s env schedule
  | remove_deadline id => exact keepsCycles_remove_deadline s env id
  | fire id => exact absurd rfl (hfire id)
  | cycle_completed origin id turn_id => exact absurd hterm (by simp [Op.terminal])
  | cycle_failed origin id turn_id error => exact absurd hterm (by simp [Op.terminal])
  | add_schedule schedule => exact keepsCycles_handle_add_schedule s env schedule
  | remove_schedule id => exact keepsCycles_handle_remove_schedule s env id
  | pause_schedule id => exact keepsCycles_handle_pause_schedule s env id
  | resume_schedule id => exact keepsCycles_handle_resume_schedule s env id
  | increment id kind session_id => exact keepsCycles_increment s id
  | reset_accumulator id => exact keepsCycles_reset_accumulator s id
  | start_debounce id debounce_secs => exact keepsCycles_start_debounce s env id debounce_secs
  | clear_debounce id => exact keepsCycles_clear_debounce s id

/-- The tables after a terminal: a duplicate changes nothing at all. -/
theorem cycles_terminal {env : Env} {op : Op} {key : String × Option String}
    {updated : Schedule → Schedule} (hop : op.terminal env = some (key, updated))
    (s : SchedulerActor) :
    (key ∈ s.processed_terminals ∧ exec env s op = s) ∨
      (key ∉ s.processed_terminals ∧
        (exec env s op).active_cycles = s.active_cycles.erase key.1 ∧
        (exec env s op).processed_terminals = insert key s.processed_terminals) := by
  by_cases hdup : key ∈ s.processed_terminals
  · left
    refine ⟨hdup, ?_⟩
    cases op with
    | cycle_completed origin id turn_id =>
        cases hop
        simp [exec, handle_cycle_completed, handle_terminal, hdup]
    | cycle_failed origin id turn_id error =>
        cases hop
        simp [exec, handle_cycle_failed_inner, handle_terminal, hdup]
    | _ => cases hop
  · right
    refine ⟨hdup, ?_⟩
    cases op with
    | cycle_completed origin id turn_id =>
        cases hop
        exact cycles_handle_terminal s env _ _ _ hdup
    | cycle_failed origin id turn_id error =>
        cases hop
        exact cycles_handle_terminal s env _ _ _ hdup
    | _ => cases hop

/-- The timeout of the active cycle is aborted by a terminal. -/
theorem abort_mem_terminal {env : Env} {op : Op} {key : String × Option String}
    {updated : Schedule → Schedule} (hop : op.terminal env = some (key, updated))
    {s : SchedulerActor} {cycle : ActiveCycle} (hnew : key ∉ s.processed_terminals)
    (hactive : s.active_cycles.lookup key.1 = some cycle) :
    .abort cycle.timeout_handle ∈ (exec env s op).outbox := by
  cases op with
  | cycle_completed origin id turn_id =>
      cases hop
      exact abort_mem_handle_terminal s env _ _ hnew hactive
  | cycle_failed origin id turn_id error =>
      cases hop
      exact abort_mem_handle_terminal s env _ _ hnew hactive
  | _ => cases hop

/-- The tables after a fire: a sent prompt enters the active cycles. -/
theorem cycles_fire (env : Env) (s : SchedulerActor) (id : String) :
    (exec env s (.fire id)).processed_terminals = s.processed_terminals ∧
      ((exec env s (.fire id)).active_cycles = s.active_cycles ∨
        s.swaps env id .Armed .Running = true ∧
          (exec env s (.fire id)).active_cycles =
            s.active_cycles.insert id ⟨env.now, s.next_task⟩) := by
  obtain ⟨store, hstore⟩ := s.update_schedule_state_eq env id .Armed .Running
  unfold exec
  dsimp only
  rcases s.begin_cycle_cases env id with ⟨-, heq⟩ | ⟨-, hswap, r, hr, heq⟩
  · rw [heq, hstore]
    exact ⟨rfl, Or.inl rfl⟩
  · rw [heq, hstore, ← row_public_id hr]
    exact ⟨rfl, Or.inr ⟨by rw [row_public_id hr]; exact hswap, rfl⟩⟩

end Querymt.Scheduler
