/-
`Scheduler/Settle.lean` -- does a cycle that ends leave `Running`?

Both terminal handlers remember `(schedule_public_id, turn_id)` and drop a second
terminal with the same key. Failures carry no turn id, so the key of every failure
of a schedule is the same pair, and the second failure of a schedule is dropped as
a duplicate of the first. The file states the law at every terminal of a run and
proves for which terminals the code meets it.
-/
import Querymt.Scheduler.Rows

set_option autoImplicit false

open Runs

namespace Querymt.Scheduler

open SchedulerActor

/-! ## 1. The rows the terminals write -/

/-- A completion re-arms or exhausts. -/
theorem completed_row_state (env : Env) (r : Schedule) :
    (completed_row env r).state =
      if ∃ max_runs ∈ r.config.max_runs, max_runs ≤ r.run_count + 1 then .Exhausted else .Armed := by
  unfold completed_row completed_row.rearmed
  dsimp only
  split
  · next m hm =>
      split
      · next h => simp [hm, h]
      · next h => split <;> simp [hm, h]
  · next hm => split <;> simp [hm]

theorem completed_row_state_ne_running (env : Env) (r : Schedule) :
    (completed_row env r).state ≠ .Running := by
  rw [completed_row_state]
  split <;> simp

/-- The state a failure leads to. -/
def state_after_failure (r : Schedule) : ScheduleState :=
  if r.config.max_consecutive_failures ≤ r.consecutive_failures + 1 then .Failed else .Armed

theorem failed_row_state (env : Env) (r : Schedule) :
    (failed_row env r).state = state_after_failure r := by
  unfold failed_row state_after_failure
  dsimp only
  split <;> rfl

theorem failed_row_consecutive_failures (env : Env) (r : Schedule) :
    (failed_row env r).consecutive_failures = r.consecutive_failures + 1 := by
  unfold failed_row
  dsimp only
  split <;> rfl

/-! ## 2. The law and its condition -/

/-- What a terminal owes to a running schedule `r`, given the row it leaves. A row
that is gone was deleted on request and has left `Running` too. -/
def Op.Settled (op : Op) (r r' : Schedule) : Prop :=
  match op with
  | .cycle_completed _ _ _ => r'.state ≠ .Running
  | .cycle_failed _ _ _ _ =>
      r'.consecutive_failures = r.consecutive_failures + 1 ∧ r'.state = state_after_failure r
  | _ => True

/-- The schedule an operation settles, if it is a terminal. -/
def Op.terminal_id : Op → Option String
  | .cycle_completed _ id _ => some id
  | .cycle_failed _ id _ _ => some id
  | _ => none

/-- **The law.** A terminal of a running schedule takes it out of `Running`; a
failure counts, and re-arms it or, at the limit, fails it. -/
def LeavesRunning (s : SchedulerActor) (a : Act) : Prop :=
  ∀ id ∈ a.2.terminal_id, ∀ r ∈ s.row id, r.state = .Running →
    ∀ r' ∈ (step s a).row id, a.2.Settled r r'

/-- **The condition.** A terminal that finds its schedule running is the first one
with its key, and the store takes its write (or executes a pending delete). -/
def FirstOfItsKey (s : SchedulerActor) (a : Act) : Prop :=
  ∀ key ∈ a.2.terminal_key, (∃ r ∈ s.row key.1, r.state = .Running) →
    key ∉ s.processed_terminals ∧
      (s.deletes_pending a.1 key.1 = true ∨ a.1.update_ok key.1 = true)

instance (op : Op) (r r' : Schedule) : Decidable (op.Settled r r') := by
  unfold Op.Settled
  cases op <;> infer_instance

instance (s : SchedulerActor) (a : Act) : Decidable (LeavesRunning s a) :=
  inferInstanceAs (Decidable (∀ id ∈ a.2.terminal_id, ∀ r ∈ s.row id, r.state = .Running →
    ∀ r' ∈ (step s a).row id, a.2.Settled r r'))

instance (s : SchedulerActor) (a : Act) : Decidable (FirstOfItsKey s a) :=
  inferInstanceAs (Decidable (∀ key ∈ a.2.terminal_key, (∃ r ∈ s.row key.1, r.state = .Running) →
    key ∉ s.processed_terminals ∧
      (s.deletes_pending a.1 key.1 = true ∨ a.1.update_ok key.1 = true)))

/-- The row a terminal writes meets the law, and a running row left as it was does
not. -/
theorem settled_updated {env : Env} {op : Op} {key : String × Option String}
    {updated : Schedule → Schedule} (hop : op.terminal env = some (key, updated)) (r : Schedule) :
    op.Settled r (updated r) ∧ (r.state = .Running → ¬ op.Settled r r) := by
  cases op with
  | cycle_completed origin id turn_id =>
      cases hop
      exact ⟨completed_row_state_ne_running env r, fun hr h => h hr⟩
  | cycle_failed origin id turn_id error =>
      cases hop
      refine ⟨⟨failed_row_consecutive_failures env r, failed_row_state env r⟩, ?_⟩
      rintro - ⟨hcount, -⟩
      omega
  | _ => cases hop

/-- Both handlers, one terminal: the law holds exactly under the condition. -/
theorem leavesRunning_iff {s : SchedulerActor} {a : Act}
    (hget : ∀ id, a.1.get_ok id = true) : LeavesRunning s a ↔ FirstOfItsKey s a := by
  obtain ⟨env, op⟩ := a
  -- the operations that are not terminals owe nothing
  by_cases hterm : op.terminal env = none
  · have hid : op.terminal_id = none := by
      cases op <;> first | rfl | exact absurd hterm (by simp [Op.terminal])
    have hkey : op.terminal_key = none := by
      cases op <;> first | rfl | exact absurd hterm (by simp [Op.terminal])
    simp [LeavesRunning, FirstOfItsKey, hid, hkey]
  · obtain ⟨⟨key, updated⟩, hop⟩ := Option.ne_none_iff_exists'.1 hterm
    have hid : op.terminal_id = some key.1 := by
      cases op <;> first | (cases hop; done) | (cases hop; rfl)
    have hkey : op.terminal_key = some key := by
      cases op <;> first | (cases hop; done) | (cases hop; rfl)
    have hread : env.get_ok key.1 = true := hget key.1
    have hrow := row_terminal hop s key.1
    simp only [true_and, hread, and_true] at hrow
    unfold LeavesRunning FirstOfItsKey step
    simp only [hid, hkey, Option.mem_def, Option.some.injEq, forall_eq']
    constructor
    · rintro h ⟨r, hr, hrunning⟩
      have hstuck := (settled_updated hop r).2 hrunning
      by_cases hdup : key ∈ s.processed_terminals
      · rw [if_neg (by simpa using hdup)] at hrow
        exact absurd (h r hr hrunning r (by rw [hrow, hr])) hstuck
      · refine ⟨hdup, ?_⟩
        by_contra hwrite
        rw [not_or] at hwrite
        rw [if_pos hdup, if_neg hwrite.1, if_neg hwrite.2] at hrow
        exact absurd (h r hr hrunning r (by rw [hrow, hr])) hstuck
    · intro h r hr hrunning r' hr'
      obtain ⟨hnew, hwrite⟩ := h ⟨r, hr, hrunning⟩
      rw [if_pos hnew] at hrow
      by_cases hdel : s.deletes_pending env key.1 = true
      · rw [if_pos hdel] at hrow
        simp [hrow] at hr'
      · rw [if_neg hdel, if_pos (hwrite.resolve_left hdel), hr, Option.map_some, hr',
          Option.some.injEq] at hrow
        rw [hrow]
        exact (settled_updated hop r).1

/-! ## 3. Every run -/

/-- **A run never strands a running schedule exactly when none of its terminals is
taken for a duplicate (or lost by the store).** From any state, for any messages,
with the store's reads succeeding. -/
theorem leavesRunning_along_iff (s : SchedulerActor) (inputs : List Input)
    (hreads : ∀ i ∈ inputs, ∀ id, i.env.get_ok id = true) :
    Along step LeavesRunning s (trace inputs s) ↔ Along step FirstOfItsKey s (trace inputs s) := by
  refine along_congr ?_
  intro s' a ha
  obtain ⟨i, hi, henv, -⟩ := trace_emits inputs s a ha
  exact leavesRunning_iff fun id => by rw [henv]; exact hreads i hi id

/-- An hourly schedule, as `Schedule::new` builds it. -/
def hourly : Schedule := .new "sched" "task" "session" (.Interval 3600) 0

/-- Two cycles of one schedule, both of which the session reports as failed. -/
def two_failures : List Input :=
  calmly
    [(0, .SetSelfRef),
     (0, .AddSchedule hourly),
     (1, .TriggerNow "sched"),
     (2, .ProcessEvent ⟨"session", .ScheduledExecutionFailed 1 "sched" none "boom"⟩),
     (3, .TriggerNow "sched"),
     (4, .ProcessEvent ⟨"session", .ScheduledExecutionFailed 3 "sched" none "boom"⟩)]

/-- The second failure is dropped: the store answers every read, and the schedule
stays `Running`. -/
theorem second_failure_strands_schedule :
    (∀ i ∈ two_failures, ∀ id, i.env.get_ok id = true) ∧
      ¬ Along step LeavesRunning .initial (trace two_failures .initial) ∧
      ((run step .initial (trace two_failures .initial)).row "sched").map Schedule.state =
        some .Running :=
  ⟨calmly_get_ok _, by decide, by decide⟩

/-- One failure and one completion of the same schedule meet the law. -/
theorem failure_then_completion_settles :
    Along step LeavesRunning .initial (trace (calmly
      [(0, .SetSelfRef),
       (0, .AddSchedule hourly),
       (1, .TriggerNow "sched"),
       (2, .ProcessEvent ⟨"session", .ScheduledExecutionFailed 1 "sched" none "boom"⟩),
       (3, .TriggerNow "sched"),
       (4, .ProcessEvent ⟨"session", .ScheduledExecutionCompleted 3 "sched" "turn-2"⟩)]) .initial) :=
  (leavesRunning_along_iff _ _ (calmly_get_ok _)).2 (by decide)

end Querymt.Scheduler
