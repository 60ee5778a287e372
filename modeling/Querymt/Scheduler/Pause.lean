/-
`Scheduler/Pause.lean` -- does a paused schedule stay paused?

`handle_pause_schedule` is a compare-and-swap; the terminal handlers read the whole
row, change it and write it back without looking at the state they found. A
schedule paused in the middle of a cycle is therefore `Armed` (or worse) again as
soon as the cycle ends. Everything else respects the pause.
-/
import Querymt.Scheduler.Effects
import Querymt.Scheduler.Settle

set_option autoImplicit false

open Runs

namespace Querymt.Scheduler

open SchedulerActor

/-! ## 1. Prompts of one schedule -/

/-- Is the effect a prompt for the schedule? -/
def prompts (id : String) : Effect → Bool
  | .scheduled_prompt _ _ prompt => decide (prompt.schedule_public_id = id)
  | _ => false

/-- The number of prompts sent for a schedule so far. -/
def SchedulerActor.prompts_sent (s : SchedulerActor) (id : String) : ℕ :=
  s.outbox.countP (prompts id)

theorem prompts_sent_of_quiet {s s' : SchedulerActor} (h : Quiet s s') (id : String) :
    s'.prompts_sent id = s.prompts_sent id := by
  obtain ⟨out, heq, hall⟩ := h.outbox
  have hnone : out.countP (prompts id) = 0 := by
    rw [List.countP_eq_zero]
    intro e he hp
    have := hall e he
    cases e <;> simp_all [prompts, opens_cycle]
  rw [prompts_sent, heq, List.countP_append, hnone]
  rfl

/-- A prompt goes out only where the compare-and-swap `Armed → Running` succeeds. -/
theorem prompts_sent_exec {env : Env} {s : SchedulerActor} {op : Op} {id : String}
    (h : op = .fire id → s.swaps env id .Armed .Running = false) :
    (exec env s op).prompts_sent id = s.prompts_sent id := by
  by_cases hfire : ∃ id', op = .fire id'
  · obtain ⟨id', rfl⟩ := hfire
    obtain ⟨store, hstore⟩ := s.update_schedule_state_eq env id' .Armed .Running
    have hquiet := s.quiet_update_schedule_state env id' .Armed .Running
    rcases s.begin_cycle_cases env id' with ⟨-, heq⟩ | ⟨-, hswap, r, hr, heq⟩
    · rw [exec, heq]
      exact prompts_sent_of_quiet hquiet id
    · have hne : id' ≠ id := by
        rintro rfl
        rw [h rfl] at hswap
        exact absurd hswap (by simp)
      have hpid : r.public_id = id' := row_public_id hr
      rw [exec, heq, ← prompts_sent_of_quiet hquiet id]
      simp [open_cycle, prompts_sent, emit_event, send, prompts, with_state, hpid, hne]
  · exact prompts_sent_of_quiet (quiet_exec env s op fun id' hid' => hfire ⟨id', hid'⟩) id

/-! ## 2. The law and its condition -/

def SchedulerActor.IsPaused (s : SchedulerActor) (id : String) : Prop :=
  ∃ r ∈ s.row id, r.state = .Paused

def SchedulerActor.IsRemoved (s : SchedulerActor) (id : String) : Prop :=
  s.row id = none

/-- **The law.** The operation leaves the schedule paused, or removed, and sends no
prompt for it. -/
def KeepsPaused (id : String) (s : SchedulerActor) (a : Act) : Prop :=
  ((step s a).IsRemoved id ∨ (step s a).IsPaused id) ∧
    (step s a).prompts_sent id = s.prompts_sent id

/-- **The condition.** No terminal of the schedule is written back: it is dropped as
a duplicate, or cannot be read or written, or ends in the pending delete. -/
def NoTerminalWritten (id : String) (s : SchedulerActor) (a : Act) : Prop :=
  ∀ key ∈ a.2.terminal_key, key.1 = id →
    key ∈ s.processed_terminals ∨ a.1.get_ok id = false ∨ s.deletes_pending a.1 id = true ∨
      a.1.update_ok id = false

instance (s : SchedulerActor) (id : String) : Decidable (s.IsPaused id) :=
  inferInstanceAs (Decidable (∃ r ∈ s.row id, r.state = .Paused))

instance (id : String) : DecidablePred fun s : SchedulerActor => s.IsRemoved id :=
  fun s => inferInstanceAs (Decidable (s.row id = none))

instance (id : String) (s : SchedulerActor) (a : Act) : Decidable (KeepsPaused id s a) :=
  inferInstanceAs (Decidable ((((step s a).row id = none) ∨ (step s a).IsPaused id) ∧
    (step s a).prompts_sent id = s.prompts_sent id))

instance (id : String) (s : SchedulerActor) (a : Act) : Decidable (NoTerminalWritten id s a) :=
  inferInstanceAs (Decidable (∀ key ∈ a.2.terminal_key, key.1 = id →
    key ∈ s.processed_terminals ∨ a.1.get_ok id = false ∨ s.deletes_pending a.1 id = true ∨
      a.1.update_ok id = false))

/-- No terminal writes `Paused`. -/
theorem updated_ne_paused {env : Env} {op : Op} {key : String × Option String}
    {updated : Schedule → Schedule} (hop : op.terminal env = some (key, updated)) (r : Schedule) :
    (updated r).state ≠ .Paused := by
  cases op with
  | cycle_completed origin id turn_id =>
      cases hop
      rw [completed_row_state]
      split <;> simp
  | cycle_failed origin id turn_id error =>
      cases hop
      rw [failed_row_state, state_after_failure]
      split <;> simp
  | _ => cases hop

/-- One operation on a paused schedule: the law holds exactly under the condition. -/
theorem keepsPaused_iff {id : String} {s : SchedulerActor} {a : Act}
    (hresume : a.2 ≠ .resume_schedule id) (hpaused : s.IsPaused id) :
    KeepsPaused id s a ↔ NoTerminalWritten id s a := by
  obtain ⟨env, op⟩ := a
  obtain ⟨r, hr, hstate⟩ := hpaused
  rw [Option.mem_def] at hr
  have hswap : ∀ from_state to_state, from_state ≠ .Paused →
      s.swaps env id from_state to_state = false := by
    intro from_state to_state hne
    simp [swaps, hr, hstate, hne.symm]
  constructor
  · rintro ⟨hrow, -⟩ key hkey rfl
    rw [terminal_key_eq env, Option.mem_def, Option.map_eq_some_iff] at hkey
    obtain ⟨⟨key', updated⟩, hop, rfl⟩ := hkey
    by_contra hcond
    simp only [not_or, Bool.not_eq_false, Bool.not_eq_true] at hcond
    obtain ⟨hnew, hget, hdel, hok⟩ := hcond
    have hwrite := row_terminal hop s key'.1
    simp only [hnew, not_false_eq_true, hget, hdel, hok, hr, if_true, Bool.false_eq_true,
      if_false, Option.map_some, and_self] at hwrite
    -- the row is there, and it is what the terminal wrote
    rcases hrow with hgone | ⟨r', hr', hst'⟩
    · exact absurd (hwrite.symm.trans hgone) (by simp)
    · rw [Option.mem_def, step, hwrite, Option.some.injEq] at hr'
      exact updated_ne_paused hop r (by rw [hr', hst'])
  · intro hcond
    refine ⟨?_, prompts_sent_exec fun _ => hswap _ _ (by simp)⟩
    unfold step IsRemoved IsPaused
    rcases row_exec env s op id with hsame | hchange
    · exact Or.inr ⟨r, by rw [hsame, Option.mem_def, hr], hstate⟩
    · generalize hnew : (exec env s op).row id = row' at hchange
      cases hchange with
      | fired _ h => exact absurd h (by simp [hswap])
      | settled hop hkey hget hdel hok _ =>
          have := hcond _ (by rw [terminal_key_eq env, Option.mem_def, hop]; rfl) rfl
          simp_all
      | deleted => exact Or.inl rfl
      | added _ hnone => exact absurd (hr.symm.trans hnone) (by simp)
      | removed => exact Or.inl rfl
      | paused _ h => exact absurd h (by simp [pauses, hswap])
      | resumed => exact absurd rfl hresume

/-! ## 3. Every run -/

/-- **A schedule stays paused until it is resumed or removed exactly when no
terminal of it is written back meanwhile.** `s` is any state in which a
`PauseSchedule` succeeds, `inputs` any messages after it without a `ResumeSchedule`
for the schedule. -/
theorem keepsPaused_until_iff (s : SchedulerActor) (env : Env) (id : String) (inputs : List Input)
    (hpause : s.pauses env id = true) (hresume : ∀ i ∈ inputs, i.msg ≠ .ResumeSchedule id) :
    let paused := run step s (handle ⟨env, .PauseSchedule id⟩ s)
    paused.IsPaused id ∧
      (Until step (KeepsPaused id) (fun s => s.IsRemoved id) paused (trace inputs paused) ↔
        Until step (NoTerminalWritten id) (fun s => s.IsRemoved id) paused
          (trace inputs paused)) := by
  intro paused
  have hpaused : paused.IsPaused id := by
    obtain ⟨r, hr, -⟩ := exists_row_of_pauses hpause
    have hrow := s.row_handle_pause_schedule env id id
    rw [if_pos ⟨rfl, hpause⟩, hr] at hrow
    exact ⟨with_state env .Paused r, hrow, rfl⟩
  have hops : ∀ a ∈ trace inputs paused, a.2 ≠ .resume_schedule id := by
    intro a ha hop
    obtain ⟨i, hi, -, hmsg⟩ := trace_emits inputs paused a ha
    rw [hop] at hmsg
    exact hresume i hi hmsg
  refine ⟨hpaused, until_congr (I := fun s => s.IsPaused id) ?_ ?_ hpaused⟩
  · intro s' a ha hI
    exact keepsPaused_iff (hops a ha) hI
  · intro s' a _ _ hP
    exact hP.1

/-- An hourly schedule between two cycles. -/
def armed_hourly : SchedulerActor :=
  run step .initial (trace (calmly [(0, .SetSelfRef), (0, .AddSchedule hourly)]) .initial)

/-- The same schedule in the middle of a cycle. -/
def running_hourly : SchedulerActor :=
  run step armed_hourly (trace (calmly [(1, .TriggerNow "sched")]) armed_hourly)

/-- Paused in the middle of a cycle, the schedule is armed again when the cycle
completes. -/
theorem completion_unpauses_schedule :
    let paused := run step running_hourly (handle ⟨.calm 2, .PauseSchedule "sched"⟩ running_hourly)
    running_hourly.pauses (.calm 2) "sched" = true ∧
      ¬ Until step (KeepsPaused "sched") (fun s => s.IsRemoved "sched") paused (trace (calmly
        [(3, .ProcessEvent ⟨"session", .ScheduledExecutionCompleted 1 "sched" "turn-1"⟩)])
        paused) := by
  decide

/-- Paused between cycles, the schedule stays paused through a sweep and a trigger. -/
theorem armed_schedule_stays_paused :
    let paused := run step armed_hourly (handle ⟨.calm 2, .PauseSchedule "sched"⟩ armed_hourly)
    Until step (KeepsPaused "sched") (fun s => s.IsRemoved "sched") paused (trace (calmly
      [(4000 * second, .Reconcile), (4001 * second, .TriggerNow "sched")]) paused) :=
  have hpause : armed_hourly.pauses (.calm 2) "sched" = true := by decide
  (keepsPaused_until_iff armed_hourly (.calm 2) "sched" (calmly
    [(4000 * second, .Reconcile), (4001 * second, .TriggerNow "sched")]) hpause
    (by simp [calmly])).2.2 (by decide)

end Querymt.Scheduler
