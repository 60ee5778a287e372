/-
`Scheduler/Recovery.lean` -- which orphaned runs a new scheduler finds.

A schedule whose run was under way when the process died stays `Running` in the
store. `initialize` and `reconcile` look for such rows, "anything running for longer
than 2x the max runtime", and fail them. The query compares `last_run_at`, and
`fire_schedule` does not write that column: the terminal handlers do, so it holds the
end of the previous run, or nothing before the first one has ended. The file states
the law against the times of the fires themselves (ghost data of a run) and says for
which rows the query meets it.
-/
import Querymt.Scheduler.Deadlines

set_option autoImplicit false

open Runs

namespace Querymt.Scheduler

open SchedulerActor

/-! ## 1. The law -/

/-- When each schedule was last taken from `Armed` to `Running`. -/
abbrev FireTimes := String → OffsetDateTime

/-- The fire times after an operation. -/
def note_fire (s : SchedulerActor) (a : Act) (fired_at : FireTimes) : FireTimes :=
  match a.2 with
  | .fire id =>
      if s.swaps a.1 id .Armed .Running = true then Function.update fired_at id a.1.now
      else fired_at
  | _ => fired_at

/-- The cutoff of both sweeps, 300 seconds ago. -/
def stale_cutoff (env : Env) : OffsetDateTime := env.now - 300 * second

/-- A row left in `Running` that is no active cycle of this scheduler. -/
structure SchedulerActor.Orphan (s : SchedulerActor) (id : String) (r : Schedule) : Prop where
  row : s.row id = some r
  running : r.state = .Running
  inactive : id ∉ s.active_cycles

/-- **The law.** An orphan fired before the cutoff leaves `Running`; one fired after it
is left as it is. -/
def FindsOrphans (fired_at : FireTimes) (env : Env) (s s' : SchedulerActor) : Prop :=
  ∀ id r, s.Orphan id r →
    (fired_at id < stale_cutoff env → (s'.row id).map Schedule.state ≠ some .Running) ∧
      (stale_cutoff env < fired_at id → s'.row id = some r)

/-- The scheduler that starts on the store of a dead one: empty tables. -/
def SchedulerActor.restarted (s : SchedulerActor) : SchedulerActor :=
  { schedule_store := s.schedule_store, next_task := s.next_task, outbox := s.outbox }

@[simp] theorem restarted_deletes_pending (s : SchedulerActor) (env : Env) (id : String) :
    s.restarted.deletes_pending env id = false := by
  simp [deletes_pending, restarted]

/-! ## 2. The condition -/

/-- Does the query list the row? A schedule that never ended a run is not listed. -/
def ended_before (env : Env) (r : Schedule) : Bool :=
  match r.last_run_at with
  | some last_run_at => env.text_lt last_run_at (stale_cutoff env)
  | none => false

/-- Does a sweep recover an orphan? Its previous run ended before the cutoff, no
failure without a turn was handled for it before, and the store answers. -/
def SchedulerActor.recovers (s : SchedulerActor) (env : Env) (id : String) (r : Schedule) :
    Bool :=
  env.list_running_ok && ended_before env r && env.get_ok id &&
    decide ((id, none) ∉ s.processed_terminals) &&
    (s.deletes_pending env id || env.update_ok id)

/-- **The condition.** The orphans fired before the cutoff are the ones that the query
lists and the store lets recover. -/
def ToldByLastRun (fired_at : FireTimes) (env : Env) (s : SchedulerActor) : Prop :=
  ∀ id r, s.Orphan id r →
    (fired_at id < stale_cutoff env → s.recovers env id r = true) ∧
      (stale_cutoff env < fired_at id → s.recovers env id r = false)

/-! ## 3. One recovery

A recovery of one schedule leaves what the recovery of another one reads. -/

/-- Whatever a recovery of `id` reads is the same in both states. -/
structure SchedulerActor.Alike (id : String) (s t : SchedulerActor) : Prop where
  row : t.row id = s.row id
  inactive : id ∈ t.active_cycles ↔ id ∈ s.active_cycles
  processed : (id, none) ∈ t.processed_terminals ↔ (id, none) ∈ s.processed_terminals
  pending : id ∈ t.pending_deletes ↔ id ∈ s.pending_deletes

theorem mem_pending_deletes_handle_terminal (s : SchedulerActor) (env : Env)
    (key : String × Option String) (updated : Schedule → Schedule)
    (announce : Schedule → AgentEventKind) {id : String} (h : id ≠ key.1) :
    id ∈ (s.handle_terminal env key updated announce).pending_deletes ↔
      id ∈ s.pending_deletes := by
  unfold handle_terminal
  split
  · exact Iff.rfl
  · dsimp only
    split
    · simp
    · simp only [emit_event, send, execute_pending_delete]
      split
      · have hdelete : ∀ t : SchedulerActor,
            (t.delete_schedule env key.1).pending_deletes = t.pending_deletes := by
          intro t
          unfold delete_schedule
          split <;> rfl
        rw [hdelete]
        simp [h]
      · simp

/-- The recovery of another schedule. -/
theorem alike_recovery {env : Env} {s t : SchedulerActor} {id id' error : String}
    (h : s.Alike id t) (hne : id ≠ id') :
    s.Alike id (exec env t (.cycle_failed .Internal id' none error)) := by
  have hop : (Op.cycle_failed .Internal id' none error).terminal env =
      some ((id', none), failed_row env) := rfl
  rcases cycles_terminal hop t with ⟨-, hsame⟩ | ⟨-, hactive, hprocessed⟩
  · rw [hsame]
    exact h
  · constructor
    · rw [row_terminal hop t id, if_neg fun hk => hne hk.1]
      exact h.row
    · rw [hactive, AList.mem_erase, ← h.inactive]
      exact and_iff_right hne
    · rw [hprocessed, ← h.processed]
      simp [hne]
    · rw [← h.pending]
      exact mem_pending_deletes_handle_terminal t env (id', none) _ _ hne

/-- The row a recovery leaves, in any state that reads like `s`. -/
theorem row_recovery {env : Env} {s t : SchedulerActor} {id error : String} {r : Schedule}
    (h : s.Alike id t) (hrow : s.row id = some r) (hlist : env.list_running_ok = true)
    (hended : ended_before env r = true) :
    (exec env t (.cycle_failed .Internal id none error)).row id =
      if s.recovers env id r = true then
        if s.deletes_pending env id = true then none else some (failed_row env r)
      else some r := by
  have hop : (Op.cycle_failed .Internal id none error).terminal env =
      some ((id, none), failed_row env) := rfl
  have hpending : t.deletes_pending env id = s.deletes_pending env id := by
    unfold deletes_pending
    rw [decide_eq_decide.2 h.pending]
  rw [row_terminal hop t id]
  simp only [h.processed, hpending, h.row, hrow]
  unfold recovers
  by_cases hnew : (id, none) ∈ s.processed_terminals
  · simp [hnew]
  · cases env.get_ok id with
    | false => simp
    | true =>
        cases s.deletes_pending env id with
        | true => simp [hnew, hlist, hended]
        | false => cases env.update_ok id <;> simp [hnew, hlist, hended]

/-! ## 4. The sweep over the stale rows -/

theorem mem_stale_running {env : Env} {s : SchedulerActor} {r : Schedule} :
    r ∈ stale_running env s ↔ env.list_running_ok = true ∧ s.row r.public_id = some r ∧
      r.state = .Running ∧ ended_before env r = true := by
  unfold stale_running
  split
  · next hok =>
      rw [ScheduleStore.mem_list_running]
      unfold ended_before stale_cutoff
      cases r.last_run_at <;> simp [hok, row]
  · next hok => simp [hok]

theorem nodup_stale_running (env : Env) (s : SchedulerActor) :
    ((stale_running env s).map Schedule.public_id).Nodup := by
  unfold stale_running
  split
  · unfold ScheduleStore.list_running_schedules_older_than
    rw [((List.perm_insertionSort _ _).map Schedule.public_id).nodup_iff]
    exact (s.schedule_store.nodup_all env.row_order).sublist (List.filter_sublist.map _)
  · simp

/-- What both sweeps leave of an orphan: `f` fails each listed row, or skips it when it
is an active cycle. -/
theorem row_recoveries {env : Env} {s : SchedulerActor} {id : String} (error : String) {r : Schedule}
    {f : Schedule → Script SchedulerActor Act}
    (hf : ∀ x t, f x t = [] ∨
      f x t = [(env, .cycle_failed .Internal x.public_id none error)])
    (hown : ∀ x t, x.public_id ∉ t.active_cycles →
      f x t = [(env, .cycle_failed .Internal x.public_id none error)])
    (h : s.Orphan id r) :
    (run step s (Script.each step f (stale_running env s) s)).row id =
      if s.recovers env id r = true then
        if s.deletes_pending env id = true then none else some (failed_row env r)
      else some r := by
  -- the turn of another row
  have hother : ∀ x t, x.public_id ≠ id → (run step t (f x t)).row id = t.row id := by
    intro x t hx
    rcases hf x t with hskip | hfail
    · rw [hskip]
      rfl
    · rw [hfail]
      have hop : (Op.cycle_failed .Internal x.public_id none error).terminal env =
          some ((x.public_id, none), failed_row env) := rfl
      have hrow := row_terminal hop t id
      rwa [if_neg fun hk => hx hk.1.symm] at hrow
  by_cases hlisted : env.list_running_ok = true ∧ ended_before env r = true
  · obtain ⟨hlist, hended⟩ := hlisted
    have hpid : r.public_id = id := row_public_id h.row
    have hmem : r ∈ stale_running env s :=
      mem_stale_running.2 ⟨hlist, by rw [hpid]; exact h.row, h.running, hended⟩
    have honce : (stale_running env s).Pairwise
        fun x y => ¬ (x.public_id = id ∧ y.public_id = id) := by
      refine (List.pairwise_map.1 (nodup_stale_running env s)).imp ?_
      rintro x y hne ⟨hx, hy⟩
      exact hne (hx.trans hy.symm)
    refine Script.each_turn (s.Alike id) (fun t => t.row id =
        if s.recovers env id r = true then
          if s.deletes_pending env id = true then none else some (failed_row env r)
        else some r) honce ⟨r, hmem, hpid⟩ ?_ ?_ ?_ ⟨rfl, Iff.rfl, Iff.rfl, Iff.rfl⟩
    · intro x _ hx t ht
      have hinactive : x.public_id ∉ t.active_cycles := by
        rw [hx, ht.inactive]
        exact h.inactive
      rw [hown x t hinactive, hx]
      exact row_recovery ht h.row hlist hended
    · intro x _ hx t ht
      rcases hf x t with hskip | hfail
      · rw [hskip]
        exact ht
      · rw [hfail]
        exact alike_recovery ht fun hid => hx hid.symm
    · intro x _ hx t ht
      rw [hother x t hx]
      exact ht
  · have hkept : s.recovers env id r = false := by
      unfold recovers
      rw [not_and_or] at hlisted
      rcases hlisted with hlist | hended
      · simp [hlist]
      · simp [hended]
    rw [hkept, if_neg (by simp)]
    refine Script.each_keeps (fun t : SchedulerActor => t.row id = some r) ?_ h.row
    intro x hx t ht
    rw [hother x t ?_]
    · exact ht
    · -- the row of this id is not in the list
      intro hxid
      obtain ⟨hlist, hxrow, -, hended⟩ := mem_stale_running.1 hx
      rw [hxid, h.row, Option.some.injEq] at hxrow
      rw [← hxrow] at hended
      exact hlisted ⟨hlist, hended⟩

/-! ## 5. Both sweeps -/

/-- A recovered schedule waits for its back-off. -/
theorem failed_row_later (env : Env) (r : Schedule) :
    ∀ next ∈ (failed_row env r).next_run_at, env.now < next := by
  intro next hnext
  unfold failed_row at hnext
  dsimp only at hnext
  split at hnext
  · cases hnext
  · rw [Option.mem_def, Option.some.injEq] at hnext
    have hbackoff : second ≤ compute_backoff env.jittered r.config.backoff_base_seconds
        (r.consecutive_failures + 1) r.config.jitter_percent env.now := le_max_right _ _
    have hsecond : 0 < second := by decide
    rw [← hnext]
    exact lt_add_of_pos_right _ (hsecond.trans_le hbackoff)

/-- The second half of `reconcile` leaves a row that is not overdue. -/
theorem row_fire_all_overdue {env : Env} {s : SchedulerActor} {id : String}
    (h : ∀ r ∈ s.row id, r.state = .Armed → ∀ next ∈ r.next_run_at, env.now < next) :
    (run step s (Script.each step (fire_overdue env) (all_armed env s) s)).row id = s.row id := by
  refine Script.each_keeps (fun t : SchedulerActor => t.row id = s.row id) ?_ rfl
  intro x hx t ht
  rcases fire_overdue_cases env x with hskip | ⟨next, hnext, hdue, hfire⟩
  · rw [hskip]
    exact ht
  · have hne : id ≠ x.public_id := by
      rintro rfl
      have hlater := h x (row_of_mem_all_armed hx) (armed_of_mem_all_armed hx) next hnext
      exact absurd hdue (not_le.2 hlater)
    rw [hfire, row_fire_schedule env hne]
    exact ht

/-- **What `reconcile` leaves of an orphan.** -/
theorem row_reconcile {env : Env} {s : SchedulerActor} {id : String} {r : Schedule}
    (h : s.Orphan id r) :
    (run step s (reconcile env s)).row id =
      if s.recovers env id r = true then
        if s.deletes_pending env id = true then none else some (failed_row env r)
      else some r := by
  have hsweep : (run step s (Script.each step (recover_stale env) (stale_running env s) s)).row
      id = if s.recovers env id r = true then
        if s.deletes_pending env id = true then none else some (failed_row env r)
      else some r := by
    refine row_recoveries "recovered by reconciliation sweep" ?_ ?_ h
    · intro x t
      unfold recover_stale
      split
      · exact Or.inl rfl
      · exact Or.inr rfl
    · intro x t hinactive
      unfold recover_stale
      rw [if_neg hinactive]
  unfold reconcile
  simp only [Script.seq, run_append]
  rw [row_fire_all_overdue, hsweep]
  -- neither the failed row nor the orphan itself is overdue
  rw [hsweep]
  intro r' hr' harmed
  split at hr'
  · split at hr'
    · cases hr'
    · cases hr'
      exact failed_row_later env r
  · cases hr'
    rw [h.running] at harmed
    cases harmed

/-- **What a restart leaves of a row that was `Running`.** -/
theorem row_initialized {env : Env} {s : SchedulerActor} {id : String} {r : Schedule}
    (h : s.restarted.Orphan id r) :
    (run step s (initialize_actor env s)).row id =
      if s.restarted.recovers env id r = true then some (failed_row env r) else some r := by
  have hsweep := row_recoveries "recovered from stale running state on startup" (f := fun x _ =>
      [(env, Op.cycle_failed .Internal x.public_id none
        "recovered from stale running state on startup")])
    (fun _ _ => Or.inr rfl) (fun _ _ _ => rfl) h
  simp only [restarted_deletes_pending, Bool.false_eq_true, if_false] at hsweep
  rw [← hsweep]
  unfold initialize_actor
  simp only [Script.seq, run_append]
  set t := run step (run step s [(env, Op.restart)])
    (recover_stale_running env (run step s [(env, Op.restart)])) with ht
  -- rebuilding the queues writes no row
  refine Script.each_keeps (fun u : SchedulerActor => u.row id = t.row id) ?_ rfl
  intro x _ u hu
  rw [← hu]
  simp [step, exec, row]

/-! ## 6. Which orphans are found -/

/-- An orphan that is not recovered stays as it is, and a recovered one leaves
`Running`: the law is about `recovers`. -/
theorem findsOrphans_iff {fired_at : FireTimes} {env : Env} {s s' : SchedulerActor}
    (hleft : ∀ id r, s.Orphan id r → s'.row id =
      if s.recovers env id r = true then
        if s.deletes_pending env id = true then none else some (failed_row env r)
      else some r) :
    FindsOrphans fired_at env s s' ↔ ToldByLastRun fired_at env s := by
  refine forall_congr' fun id => forall_congr' fun r => forall_congr' fun h => ?_
  have hrow := hleft id r h
  cases hrec : s.recovers env id r with
  | false =>
      rw [hrec, if_neg (by simp)] at hrow
      simp [hrow, h.running]
  | true =>
      rw [hrec, if_pos rfl] at hrow
      have hout : (s'.row id).map Schedule.state ≠ some .Running := by
        rw [hrow]
        split
        · simp
        · rw [Option.map_some, failed_row_state]
          unfold state_after_failure
          split <;> simp
      have hchanged : s'.row id ≠ some r := by
        intro hsame
        rw [hsame, Option.map_some, h.running] at hout
        exact hout rfl
      simp [hout, hchanged]

/-- **Which orphaned runs are found**, after every run of the scheduler: a sweep, of
this scheduler or of a new one on its store, and the start of a new one recover the runs
they should if and only if the end of the previous run tells the old fires from the
recent ones. -/
theorem finds_orphans_iff (s : SchedulerActor) (fired_at : FireTimes) (inputs : List Input)
    (env : Env) :
    let p := run (instrument step note_fire) (s, fired_at) (trace inputs s)
    let last := p.1
    let new := p.1.restarted
    (FindsOrphans p.2 env last (run step last (reconcile env last)) ↔
        ToldByLastRun p.2 env last) ∧
      (FindsOrphans p.2 env new (run step new (reconcile env new)) ↔
        ToldByLastRun p.2 env new) ∧
      (FindsOrphans p.2 env new (run step last (initialize_actor env last)) ↔
        ToldByLastRun p.2 env new) := by
  intro p last new
  refine ⟨findsOrphans_iff fun id r h => row_reconcile h,
    findsOrphans_iff fun id r h => row_reconcile h, ?_⟩
  apply findsOrphans_iff
  intro id r h
  rw [row_initialized h, restarted_deletes_pending]
  rfl

/-- The first run of an hourly schedule, fired at 3600 s. -/
def first_run : List Input :=
  calmly
    [(0, .SetSelfRef),
     (0, .AddSchedule hourly),
     (3600 * second, .TriggerNow "sched")]

/-- The second run, fired an hour after the first one ended. -/
def second_run : List Input :=
  first_run ++ calmly
    [(3610 * second, .CycleCompleted 1 "sched" "turn-1"),
     (7210 * second, .TriggerNow "sched")]

/-- An hour after the process died in the first run, neither sweep of a new scheduler
finds it. Ten seconds after it died in the second one, both take that run for stale. -/
theorem first_run_lost_and_second_interrupted :
    let p := run (instrument step note_fire) (.initial, fun _ => 0) (trace first_run .initial)
    let q := run (instrument step note_fire) (.initial, fun _ => 0) (trace second_run .initial)
    let late := Env.calm (7200 * second)
    let soon := Env.calm (7220 * second)
    let lost := p.1.restarted
    let fresh := q.1.restarted
    (p.2 "sched" = 3600 * second ∧
      ¬ FindsOrphans p.2 late lost (run step lost (reconcile late lost)) ∧
      ¬ FindsOrphans p.2 late lost (run step p.1 (initialize_actor late p.1))) ∧
    (q.2 "sched" = 7210 * second ∧
      ¬ FindsOrphans q.2 soon fresh (run step fresh (reconcile soon fresh)) ∧
      ¬ FindsOrphans q.2 soon fresh (run step q.1 (initialize_actor soon q.1))) := by
  intro p q late soon lost fresh
  -- what is left in the store
  have hlost : lost.Orphan "sched" (with_state (.calm (3600 * second)) .Running hourly) :=
    ⟨by decide, rfl, by decide⟩
  have hfresh : fresh.Orphan "sched" (with_state (.calm (7210 * second)) .Running
      (completed_row (.calm (3610 * second)) hourly)) :=
    ⟨by decide, rfl, by decide⟩
  refine ⟨⟨by decide, ?_, ?_⟩, by decide, ?_, ?_⟩
  · intro h
    exact (h _ _ hlost).1 (by decide) (by decide)
  · intro h
    exact (h _ _ hlost).1 (by decide) (by decide)
  · intro h
    exact absurd ((h _ _ hfresh).2 (by decide)) (by decide)
  · intro h
    exact absurd ((h _ _ hfresh).2 (by decide)) (by decide)

end Querymt.Scheduler
