/-
`Scheduler/Legal.lean` -- legal state changes, and fires settled at most once.

The terminal handlers look neither at the state of the row nor at the cycle a
terminal belongs to. A cycle that timed out keeps running in its session, and its
late terminal is applied to whatever the schedule is by then. The file proves that
late terminals (and a schedule added with `max_runs = 0`) are the only way to break
the three laws: legal transitions, at most one settlement per fire, and
`run_count ≤ max_runs`.
-/
import Querymt.Scheduler.Effects
import Querymt.Scheduler.Settle

set_option autoImplicit false

open Runs

namespace Querymt.Scheduler

open SchedulerActor

/-! ## 1. The laws -/

/-- A change of the schedule's stored state is a valid transition. -/
def LegalFor (id : String) (s : SchedulerActor) (a : Act) : Prop :=
  ∀ r ∈ s.row id, ∀ r' ∈ (step s a).row id,
    r.state = r'.state ∨ Schedule.is_valid_transition r.state r'.state = true

/-- **Legal changes**, for every schedule. -/
def LegalChange (s : SchedulerActor) (a : Act) : Prop :=
  ∀ id, LegalFor id s a

/-- One for a successful fire (compare-and-swap `Armed → Running`) of the schedule. -/
def fired (id : String) (s : SchedulerActor) (a : Act) : ℕ :=
  if a.2 = .fire id ∧ s.swaps a.1 id .Armed .Running = true then 1 else 0

/-- One for a terminal of the schedule that passes the duplicate filter. -/
def processed (id : String) (s : SchedulerActor) (a : Act) : ℕ :=
  match a.2.terminal_key with
  | some key => if key.1 = id ∧ key ∉ s.processed_terminals then 1 else 0
  | none => 0

/-- `run_count` stays within `max_runs`. -/
def WithinRuns (r : Schedule) : Prop :=
  ∀ max_runs ∈ r.config.max_runs, r.run_count ≤ max_runs

/-! ## 2. The condition -/

/-- The terminal is the last one of the schedule: it exhausts or fails it. -/
def Op.EndsSchedule (op : Op) (r : Schedule) : Prop :=
  match op with
  | .cycle_completed _ _ _ => ∃ max_runs ∈ r.config.max_runs, max_runs ≤ r.run_count + 1
  | .cycle_failed _ _ _ _ => r.config.max_consecutive_failures ≤ r.consecutive_failures + 1
  | _ => False

/-- **The condition on terminals.** One that is not dropped finds the schedule
running, and the store reads and writes (or deletes) the row; or it finds the
schedule paused or armed again with the cycle still active, and is not the last. -/
def OnTime (s : SchedulerActor) (a : Act) : Prop :=
  ∀ key ∈ a.2.terminal_key, key ∉ s.processed_terminals → ∃ r ∈ s.row key.1,
    (r.state = .Running ∧ a.1.get_ok key.1 = true ∧
      (s.deletes_pending a.1 key.1 = true ∨ a.1.update_ok key.1 = true)) ∨
    ((r.state = .Paused ∨ r.state = .Armed) ∧ key.1 ∈ s.active_cycles ∧ ¬ a.2.EndsSchedule r)

/-- A schedule as `Schedule::new` builds it, with a `max_runs` that allows a run. -/
def Schedule.IsNew (r : Schedule) : Prop :=
  r.state = .Armed ∧ r.run_count = 0 ∧ r.config.max_runs ≠ some 0

/-- The condition on one operation. -/
def Orderly (s : SchedulerActor) (a : Act) : Prop :=
  OnTime s a ∧ ∀ schedule, a.2 = .add_schedule schedule → schedule.IsNew

instance (op : Op) (r : Schedule) : Decidable (op.EndsSchedule r) :=
  match op with
  | .cycle_completed _ _ _ =>
      inferInstanceAs (Decidable (∃ max_runs ∈ r.config.max_runs, max_runs ≤ r.run_count + 1))
  | .cycle_failed _ _ _ _ =>
      inferInstanceAs (Decidable (r.config.max_consecutive_failures ≤ r.consecutive_failures + 1))
  | .set_self_ref | .restart | .enqueue_schedule _ | .remove_deadline _ | .fire _
  | .add_schedule _ | .remove_schedule _ | .pause_schedule _ | .resume_schedule _
  | .increment _ _ _ | .reset_accumulator _ | .start_debounce _ _ | .clear_debounce _ =>
      inferInstanceAs (Decidable False)

instance (id : String) (s : SchedulerActor) (a : Act) : Decidable (LegalFor id s a) :=
  inferInstanceAs (Decidable (∀ r ∈ s.row id, ∀ r' ∈ (step s a).row id,
    r.state = r'.state ∨ Schedule.is_valid_transition r.state r'.state = true))

instance (s : SchedulerActor) (a : Act) : Decidable (OnTime s a) :=
  inferInstanceAs (Decidable (∀ key ∈ a.2.terminal_key, key ∉ s.processed_terminals →
    ∃ r ∈ s.row key.1,
      (r.state = .Running ∧ a.1.get_ok key.1 = true ∧
        (s.deletes_pending a.1 key.1 = true ∨ a.1.update_ok key.1 = true)) ∨
      ((r.state = .Paused ∨ r.state = .Armed) ∧ key.1 ∈ s.active_cycles ∧ ¬ a.2.EndsSchedule r)))

instance (r : Schedule) : Decidable r.IsNew :=
  inferInstanceAs (Decidable (r.state = .Armed ∧ r.run_count = 0 ∧ r.config.max_runs ≠ some 0))

theorem isNew_with_public_id (env : Env) {schedule : Schedule} (h : schedule.IsNew) :
    (with_public_id env schedule).IsNew := by
  unfold with_public_id
  split
  · exact h
  · exact h

/-! ## 3. The rows terminals write -/

theorem completed_row_run_count (env : Env) (r : Schedule) :
    (completed_row env r).run_count = r.run_count + 1 ∧
      (completed_row env r).config = r.config := by
  unfold completed_row completed_row.rearmed
  dsimp only
  split
  · split
    · exact ⟨rfl, rfl⟩
    · split <;> exact ⟨rfl, rfl⟩
  · split <;> exact ⟨rfl, rfl⟩

theorem failed_row_run_count (env : Env) (r : Schedule) :
    (failed_row env r).run_count = r.run_count ∧ (failed_row env r).config = r.config := by
  unfold failed_row
  dsimp only
  split <;> exact ⟨rfl, rfl⟩

/-- What a terminal writes: `Armed` unless it is the last one, and then one of the
two final states, with at most one more run. -/
theorem updated_row {env : Env} {op : Op} {key : String × Option String}
    {updated : Schedule → Schedule} (hop : op.terminal env = some (key, updated)) (r : Schedule) :
    ((¬ op.EndsSchedule r ∧ (updated r).state = .Armed) ∨
      (op.EndsSchedule r ∧ ((updated r).state = .Exhausted ∨ (updated r).state = .Failed))) ∧
    (updated r).config = r.config ∧
    ((updated r).run_count = r.run_count ∨
      (updated r).run_count = r.run_count + 1 ∧
        ((updated r).state = .Armed → ∀ m ∈ r.config.max_runs, r.run_count + 1 < m)) := by
  cases op with
  | cycle_completed origin id turn_id =>
      cases hop
      obtain ⟨hrun, hconfig⟩ := completed_row_run_count env r
      have hstate := completed_row_state env r
      by_cases hend : ∃ max_runs ∈ r.config.max_runs, max_runs ≤ r.run_count + 1
      · rw [if_pos hend] at hstate
        refine ⟨Or.inr ⟨hend, Or.inl hstate⟩, hconfig, Or.inr ⟨hrun, ?_⟩⟩
        simp [hstate]
      · rw [if_neg hend] at hstate
        refine ⟨Or.inl ⟨hend, hstate⟩, hconfig, Or.inr ⟨hrun, fun _ m hm => ?_⟩⟩
        by_contra hlt
        exact hend ⟨m, hm, by omega⟩
  | cycle_failed origin id turn_id error =>
      cases hop
      obtain ⟨hrun, hconfig⟩ := failed_row_run_count env r
      have hstate := failed_row_state env r
      unfold state_after_failure at hstate
      by_cases hend : r.config.max_consecutive_failures ≤ r.consecutive_failures + 1
      · rw [if_pos hend] at hstate
        exact ⟨Or.inr ⟨hend, Or.inr hstate⟩, hconfig, Or.inl hrun⟩
      · rw [if_neg hend] at hstate
        exact ⟨Or.inl ⟨hend, hstate⟩, hconfig, Or.inl hrun⟩
  | _ => cases hop

/-! ## 4. One operation -/

/-- A schedule that can still run has runs left. -/
def RunsLeft (s : SchedulerActor) : Prop :=
  ∀ id, ∀ r ∈ s.row id, WithinRuns r ∧
    (r.state ≠ .Exhausted → r.state ≠ .Failed → ∀ m ∈ r.config.max_runs, r.run_count < m)

/-- What an orderly terminal finds, where it is written. -/
theorem OnTime.found {env : Env} {op : Op} {id : String} {turn_id : Option String}
    {updated : Schedule → Schedule} {s : SchedulerActor} {r : Schedule} (h : OnTime s (env, op))
    (hop : op.terminal env = some ((id, turn_id), updated))
    (hnew : (id, turn_id) ∉ s.processed_terminals) (hrow : s.row id = some r) :
    r.state = .Running ∨ (r.state = .Paused ∨ r.state = .Armed) ∧ ¬ op.EndsSchedule r := by
  obtain ⟨r', hr', hfound⟩ := h (id, turn_id) (by rw [terminal_key_eq env, hop]; rfl) hnew
  rw [Option.mem_def, hrow, Option.some.injEq] at hr'
  subst hr'
  rcases hfound with ⟨hrunning, -⟩ | ⟨hstate, -, hlast⟩
  · exact Or.inl hrunning
  · exact Or.inr ⟨hstate, hlast⟩

theorem legalChange_of_orderly {s : SchedulerActor} {a : Act} (h : Orderly s a) :
    LegalChange s a := by
  obtain ⟨env, op⟩ := a
  obtain ⟨htime, hadd⟩ := h
  intro id r hr r' hr'
  rw [Option.mem_def] at hr hr'
  unfold step at hr'
  rcases row_exec env s op id with hsame | hchange
  · rw [hsame, hr, Option.some.injEq] at hr'
    exact Or.inl (by rw [hr'])
  · rw [hr'] at hchange
    generalize hrow' : some r' = row' at hchange
    cases hchange with
    | fired hrow hswap =>
        obtain ⟨r1, hr1, hst⟩ := exists_row_of_swaps hswap
        cases hrow'
        cases hr.symm.trans hrow
        cases hr.symm.trans hr1
        exact Or.inr (by rw [hst]; rfl)
    | settled hop hnew hget hkeep hok hrow =>
        cases hrow'
        cases hr.symm.trans hrow
        rcases htime.found hop hnew hr with hrunning | ⟨hstate, hlast⟩
        · rcases (updated_row hop r).1 with ⟨-, hst⟩ | ⟨-, hst | hst⟩ <;>
            exact Or.inr (by rw [hrunning, hst]; rfl)
        · rcases (updated_row hop r).1 with ⟨-, hst⟩ | ⟨hend, -⟩
          · rcases hstate with hstate | hstate
            · exact Or.inr (by rw [hstate, hst]; rfl)
            · exact Or.inl (by rw [hstate, hst])
          · exact absurd hend hlast
    | deleted => cases hrow'
    | added hid hnone => exact absurd (hr.symm.trans hnone) (by simp)
    | removed => cases hrow'
    | paused hrow hpause =>
        obtain ⟨r1, hr1, hst⟩ := exists_row_of_pauses hpause
        cases hrow'
        cases hr.symm.trans hrow
        cases hr.symm.trans hr1
        rcases hst with hst | hst <;> exact Or.inr (by rw [hst]; rfl)
    | resumed hrow hswap hnext =>
        obtain ⟨r1, hr1, hst⟩ := exists_row_of_swaps hswap
        cases hrow'
        cases hr.symm.trans hrow
        cases hr.symm.trans hr1
        exact Or.inr (by rw [hst]; rfl)

theorem runsLeft_step {s : SchedulerActor} {a : Act} (hI : RunsLeft s) (h : Orderly s a) :
    RunsLeft (step s a) := by
  obtain ⟨env, op⟩ := a
  obtain ⟨htime, hadd⟩ := h
  intro id r' hr'
  rw [Option.mem_def] at hr'
  unfold step at hr'
  rcases row_exec env s op id with hsame | hchange
  · rw [hsame] at hr'
    exact hI id r' hr'
  · rw [hr'] at hchange
    generalize hrow' : some r' = row' at hchange
    cases hchange with
    | @fired r hrow hswap =>
        obtain ⟨r1, hr1, hst⟩ := exists_row_of_swaps hswap
        cases hrow'
        cases hr1.symm.trans hrow
        obtain ⟨hwithin, hleft⟩ := hI id r hrow
        exact ⟨hwithin, fun _ _ => hleft (by simp [hst]) (by simp [hst])⟩
    | @settled op turn_id updated r hop hnew hget hkeep hok hrow =>
        cases hrow'
        obtain ⟨hwithin, hleft⟩ := hI id r hrow
        -- the schedule was not in a final state, so it had a run left
        have hopen : ∀ m ∈ r.config.max_runs, r.run_count < m := by
          rcases htime.found hop hnew hrow with hst | ⟨hst | hst, -⟩ <;>
            exact hleft (by simp [hst]) (by simp [hst])
        obtain ⟨hstate, hconfig, hrun⟩ := updated_row hop r
        rw [WithinRuns, hconfig]
        refine ⟨fun m hm => ?_, fun hne hnf m hm => ?_⟩
        · have := hopen m hm
          rcases hrun with hrun | ⟨hrun, -⟩ <;> omega
        · have harmed : (updated r).state = .Armed := by
            rcases hstate with ⟨-, hst⟩ | ⟨-, hst | hst⟩
            · exact hst
            · exact absurd hst hne
            · exact absurd hst hnf
          have := hopen m hm
          rcases hrun with hrun | ⟨hrun, hroom⟩
          · omega
          · have := hroom harmed m hm
            omega
    | deleted => cases hrow'
    | @added schedule hid hnone =>
        cases hrow'
        obtain ⟨-, hrun, hmax⟩ := isNew_with_public_id env (hadd schedule rfl)
        have hpos : ∀ m ∈ (with_public_id env schedule).config.max_runs, 0 < m := by
          intro m hm
          rw [Option.mem_def] at hm
          rcases Nat.eq_zero_or_pos m with rfl | hm'
          · exact absurd hm hmax
          · exact hm'
        rw [WithinRuns, hrun]
        exact ⟨fun m hm => (hpos m hm).le, fun _ _ => hpos⟩
    | removed => cases hrow'
    | @paused r hrow hpause =>
        obtain ⟨r1, hr1, hst⟩ := exists_row_of_pauses hpause
        cases hrow'
        cases hr1.symm.trans hrow
        obtain ⟨hwithin, hleft⟩ := hI id r hrow
        refine ⟨hwithin, fun _ _ => ?_⟩
        rcases hst with hst | hst <;> exact hleft (by simp [hst]) (by simp [hst])
    | @resumed r next hrow hswap hnext =>
        obtain ⟨r1, hr1, hst⟩ := exists_row_of_swaps hswap
        cases hrow'
        cases hr1.symm.trans hrow
        obtain ⟨hwithin, hleft⟩ := hI id r hrow
        exact ⟨hwithin, fun _ _ => hleft (by simp [hst]) (by simp [hst])⟩

/-! ## 5. Fires and settlements

A fire is outstanding while the row is `Running` or its cycle is active; that is
the credit a terminal is charged to. -/

def Outstanding (id : String) (s : SchedulerActor) : Prop :=
  (∃ r ∈ s.row id, r.state = .Running) ∨ id ∈ s.active_cycles

instance (id : String) (s : SchedulerActor) : Decidable (Outstanding id s) :=
  inferInstanceAs (Decidable ((∃ r ∈ s.row id, r.state = .Running) ∨ id ∈ s.active_cycles))

/-- The credit of a schedule: one while a fire is outstanding. -/
def credit (id : String) (s : SchedulerActor) : ℕ :=
  if Outstanding id s then 1 else 0

theorem credit_le_one (id : String) (s : SchedulerActor) : credit id s ≤ 1 := by
  unfold credit
  split <;> simp

theorem credit_le {id : String} {s s' : SchedulerActor}
    (h : Outstanding id s' → Outstanding id s) : credit id s' ≤ credit id s := by
  unfold credit
  split
  · next h' => rw [if_pos (h h')]
  · exact Nat.zero_le _

/-- A terminal of another schedule, or a duplicate, leaves the credit alone. -/
theorem outstanding_of_other_terminal {env : Env} {op : Op} {key : String × Option String}
    {updated : Schedule → Schedule} (hop : op.terminal env = some (key, updated))
    {s : SchedulerActor} {id : String} (hid : ¬ (key.1 = id ∧ key ∉ s.processed_terminals)) :
    Outstanding id (exec env s op) → Outstanding id s := by
  rcases cycles_terminal hop s with ⟨-, hsame⟩ | ⟨hnew, hactive, -⟩
  · rw [hsame]
    exact fun h => h
  · have hne : id ≠ key.1 := fun h => hid ⟨h.symm, hnew⟩
    have hrow := row_terminal hop s id
    rw [if_neg (fun h => hne h.1)] at hrow
    rintro (⟨r, hr, hst⟩ | h)
    · exact Or.inl ⟨r, by rwa [hrow] at hr, hst⟩
    · rw [hactive, AList.mem_erase] at h
      exact Or.inr h.2

/-- An orderly terminal that is not dropped uses up the credit. -/
theorem credit_of_terminal {env : Env} {op : Op} {key : String × Option String}
    {updated : Schedule → Schedule} (hop : op.terminal env = some (key, updated))
    {s : SchedulerActor} (htime : OnTime s (env, op)) (hnew : key ∉ s.processed_terminals) :
    credit key.1 s = 1 ∧ credit key.1 (exec env s op) = 0 := by
  obtain ⟨r, hr, hfound⟩ := htime key (by rw [terminal_key_eq env, hop]; rfl) hnew
  rw [Option.mem_def] at hr
  constructor
  · refine if_pos ?_
    rcases hfound with ⟨hrunning, -⟩ | ⟨-, hactive, -⟩
    · exact Or.inl ⟨r, hr, hrunning⟩
    · exact Or.inr hactive
  · refine if_neg ?_
    obtain ⟨-, hactive, -⟩ := (cycles_terminal hop s).resolve_left fun h => hnew h.1
    have hrow := row_terminal hop s key.1
    have hupdated : (updated r).state ≠ .Running := by
      rcases (updated_row hop r).1 with ⟨-, hst⟩ | ⟨-, hst | hst⟩ <;> simp [hst]
    rintro (⟨r', hr', hst'⟩ | h)
    · rw [Option.mem_def, hrow, hr, Option.map_some] at hr'
      rcases hfound with ⟨hrunning, hget, hwrite⟩ | ⟨hstate, -, -⟩
      · -- a running row is deleted or rewritten
        rw [if_pos ⟨rfl, hnew, hget⟩] at hr'
        split at hr'
        · cases hr'
        · next hdel =>
            rw [if_pos (hwrite.resolve_left hdel), Option.some.injEq] at hr'
            exact hupdated (by rw [hr', hst'])
      · have hnot : r.state ≠ .Running := by
          rcases hstate with h | h <;> simp [h]
        split at hr'
        · split at hr'
          · cases hr'
          · split at hr'
            · rw [Option.some.injEq] at hr'
              exact hupdated (by rw [hr', hst'])
            · rw [Option.some.injEq] at hr'
              exact hnot (by rw [hr', hst'])
        · rw [Option.some.injEq] at hr'
          exact hnot (by rw [hr', hst'])
    · rw [hactive, AList.mem_erase] at h
      exact h.1 rfl

/-- The operations that are neither terminals nor fires open no credit. -/
theorem outstanding_of_plain {env : Env} {op : Op} {s : SchedulerActor} {id : String}
    (hadd : ∀ schedule, op = .add_schedule schedule → schedule.IsNew)
    (hterm : op.terminal env = none) (hfire : ∀ id', op ≠ .fire id') :
    Outstanding id (exec env s op) → Outstanding id s := by
  rintro (⟨r', hr', hst'⟩ | h)
  · rw [Option.mem_def] at hr'
    rcases row_exec env s op id with hsame | hchange
    · exact Or.inl ⟨r', by rw [← hsame]; exact hr', hst'⟩
    · rw [hr'] at hchange
      generalize hrow' : some r' = row' at hchange
      cases hchange with
      | fired => exact absurd rfl (hfire id)
      | settled hop => exact absurd (hterm.symm.trans hop) (by simp)
      | deleted hop => exact absurd (hterm.symm.trans hop) (by simp)
      | added hid hnone =>
          cases hrow'
          have := (isNew_with_public_id env (hadd _ rfl)).1
          exact absurd (this.symm.trans hst') (by simp)
      | removed => cases hrow'
      | paused => cases hrow'; simp [with_state] at hst'
      | resumed => cases hrow'; simp [with_state] at hst'
  · by_cases hrestart : op = .restart
    · subst hrestart
      simp [exec] at h
    · rw [(keepsCycles_exec env s op hfire hterm hrestart).active_cycles] at h
      exact Or.inr h

/-- **One operation.** What it settles is covered by what it fires and the credit. -/
theorem processed_le_fired {s : SchedulerActor} {a : Act} (h : Orderly s a) (id : String) :
    processed id s a + credit id (step s a) ≤ fired id s a + credit id s := by
  obtain ⟨env, op⟩ := a
  obtain ⟨htime, hadd⟩ := h
  unfold step processed
  cases hop : op.terminal env with
  | some p =>
      obtain ⟨key, updated⟩ := p
      rw [terminal_key_eq env, hop]
      simp only [Option.map_some]
      split
      · next hkey =>
          obtain ⟨rfl, hnew⟩ := hkey
          obtain ⟨hbefore, hafter⟩ := credit_of_terminal hop htime hnew
          omega
      · next hkey =>
          have := credit_le (outstanding_of_other_terminal hop hkey)
          omega
  | none =>
      rw [terminal_key_eq env, hop]
      simp only [Option.map_none]
      by_cases hfire : ∃ id', op = .fire id'
      · obtain ⟨id', rfl⟩ := hfire
        by_cases hswap : id' = id ∧ s.swaps env id .Armed .Running = true
        · obtain ⟨rfl, hswap⟩ := hswap
          have := credit_le_one id' (exec env s (.fire id'))
          simp only [fired, hswap, and_self, if_true]
          omega
        · -- another schedule's fire, or a denied one
          have hle : Outstanding id (exec env s (.fire id')) → Outstanding id s := by
            have hrow := s.row_begin_cycle env id' id
            rw [if_neg (fun h => hswap ⟨h.1.symm, by rw [h.1]; exact h.2⟩)] at hrow
            rintro (⟨r, hr, hst⟩ | h)
            · refine Or.inl ⟨r, ?_, hst⟩
              rw [Option.mem_def] at hr ⊢
              exact hrow.symm.trans hr
            · rcases (cycles_fire env s id').2 with hsame | ⟨hsw, hins⟩
              · exact Or.inr (by rwa [hsame] at h)
              · rw [hins, AList.mem_insert] at h
                rcases h with rfl | h
                · exact absurd ⟨rfl, hsw⟩ hswap
                · exact Or.inr h
          have := credit_le hle
          omega
      · have hle : Outstanding id (exec env s op) → Outstanding id s :=
          outstanding_of_plain hadd hop fun id' hid' => hfire ⟨id', hid'⟩
        have := credit_le hle
        omega

/-! ## 6. Every run -/

/-- **Every orderly run is legal, settles each fire at most once and keeps
`run_count` within `max_runs`.** The run starts on an empty database; schedules are
added as `Schedule::new` builds them, with a `max_runs` other than `0`; and no
terminal comes late. The last two laws hold after every operation of the run. -/
theorem legal_of_orderly (inputs : List Input)
    (hnew : ∀ i ∈ inputs, ∀ schedule ∈ i.msg.added_schedule, schedule.IsNew)
    (htime : Along step OnTime .initial (trace inputs .initial)) :
    Along step LegalChange .initial (trace inputs .initial) ∧
      ∀ done later, trace inputs .initial = done ++ later → ∀ id,
        tally step (processed id) .initial done ≤ tally step (fired id) .initial done ∧
          ∀ r ∈ (run step .initial done).row id, ∀ max_runs ∈ r.config.max_runs,
            r.run_count ≤ max_runs := by
  have horderly : Along step Orderly .initial (trace inputs .initial) := by
    refine htime.imp ?_
    intro s a ha hs
    refine ⟨hs, ?_⟩
    intro schedule hop
    obtain ⟨i, hi, -, hmsg⟩ := trace_emits inputs .initial a ha
    rw [hop] at hmsg
    exact hnew i hi schedule (by rw [show i.msg = .AddSchedule schedule from hmsg]; rfl)
  refine ⟨horderly.imp fun s a _ h => legalChange_of_orderly h, ?_⟩
  intro done later heq id
  rw [heq, along_append] at horderly
  have hempty : RunsLeft SchedulerActor.initial := by
    intro id r hr
    cases hr
  constructor
  · have := tally_le_of_potential (credit id) horderly.1 fun s a h => processed_le_fired h id
    have hzero : credit id SchedulerActor.initial = 0 := rfl
    omega
  · intro r hr
    exact (run_invariant horderly.1 (fun s a hI h => runsLeft_step hI h) hempty id r hr).1

/-- A schedule that may run once. -/
def once : Schedule := { hourly with config := { max_runs := some 1 } }

/-- The cycle of `once` times out, and completes afterwards. -/
def late_completion : List Input :=
  calmly
    [(0, .SetSelfRef),
     (0, .AddSchedule once),
     (1, .TriggerNow "sched"),
     (120 * second, .CycleFailed 1 "sched" none "cycle exceeded max_runtime_seconds (120)"),
     (121 * second, .ProcessEvent ⟨"session", .ScheduledExecutionCompleted 1 "sched" "turn-1"⟩)]

/-- The late completion moves the schedule from `Armed` to `Exhausted`, and is the
second terminal of one fire. -/
theorem late_completion_is_illegal :
    (∀ i ∈ late_completion, ∀ schedule ∈ i.msg.added_schedule, schedule.IsNew) ∧
      ¬ Along step LegalChange .initial (trace late_completion .initial) ∧
      tally step (fired "sched") .initial (trace late_completion .initial) <
        tally step (processed "sched") .initial (trace late_completion .initial) := by
  refine ⟨by decide, ?_, by decide⟩
  intro h
  have hsched : Along step (LegalFor "sched") .initial (trace late_completion .initial) :=
    h.imp fun s a _ hs => hs "sched"
  exact absurd hsched (by decide)

/-- The cycle of `once` completes in time. -/
def timely_completion : List Input :=
  calmly
    [(0, .SetSelfRef),
     (0, .AddSchedule once),
     (1, .TriggerNow "sched"),
     (2, .ProcessEvent ⟨"session", .ScheduledExecutionCompleted 1 "sched" "turn-1"⟩)]

/-- The law on a run that exhausts a schedule. -/
theorem timely_completion_is_legal :
    Along step LegalChange .initial (trace timely_completion .initial) :=
  (legal_of_orderly timely_completion (by decide) (by decide)).1

end Querymt.Scheduler
