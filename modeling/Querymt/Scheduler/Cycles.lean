/-
`Scheduler/Cycles.lean` -- at most one outstanding cycle per schedule.

Exclusion rests on the row being `Running` for the whole cycle. Pausing a running
schedule and resuming it arms the row while the cycle is still executing, so the
next fire sends a second prompt; and a terminal of an earlier cycle, handled late,
ends the cycle that is outstanding by then. The file keeps the outstanding cycles
as ghost data and proves exclusion for the runs in which neither happens.
-/
import Querymt.Scheduler.Effects

set_option autoImplicit false

open Runs

namespace Querymt.Scheduler

open SchedulerActor

/-! ## 1. Outstanding cycles -/

/-- The outstanding cycles, with their schedules. -/
abbrev OpenCycles := List (ℕ × String)

/-- The origin of a terminal. -/
def Op.origin : Op → Option Origin
  | .cycle_completed origin _ _ => some origin
  | .cycle_failed origin _ _ _ => some origin
  | _ => none

/-- A terminal that is not dropped closes the cycle it comes from. -/
def close (origin : Option Origin) (g : OpenCycles) : OpenCycles :=
  match origin with
  | some (.Session cycle) => g.filter fun c => c.1 ≠ cycle
  | some (.Timer cycle) => g.filter fun c => c.1 ≠ cycle
  | _ => g

/-- A sent prompt opens a cycle; its own terminal event, or its timeout, closes it. -/
def track (s : SchedulerActor) (a : Act) (g : OpenCycles) : OpenCycles :=
  match a.2 with
  | .fire id => if (s.begin_cycle a.1 id).2 = .Sent then (s.next_task, id) :: g else g
  | op =>
      match op.terminal_key with
      | some key => if key ∈ s.processed_terminals then g else close op.origin g
      | none => g

/-- The actor next to its outstanding cycles. -/
abbrev tracked_step : SchedulerActor × OpenCycles → Act → SchedulerActor × OpenCycles :=
  instrument step track

/-! ## 2. The laws and the condition -/

/-- No prompt is sent for a schedule with an outstanding cycle. -/
def NoOverlap (p : SchedulerActor × OpenCycles) (a : Act) : Prop :=
  ∀ id, a.2 = .fire id → (p.1.begin_cycle a.1 id).2 = .Sent → ∀ cycle, (cycle, id) ∉ p.2

/-- A timeout that is not dropped finds its own cycle outstanding, and no other. -/
def OwnTimeout (p : SchedulerActor × OpenCycles) (a : Act) : Prop :=
  ∀ timer id turn_id error, a.2 = .cycle_failed (.Timer timer) id turn_id error →
    (id, turn_id) ∉ p.1.processed_terminals → ∀ cycle, (cycle, id) ∈ p.2 ↔ cycle = timer

/-- **The law.** -/
def Exclusive (p : SchedulerActor × OpenCycles) (a : Act) : Prop :=
  NoOverlap p a ∧ OwnTimeout p a

/-- The effect spawns the timeout task of the cycle for the schedule. -/
def spawns_timeout (cycle : ℕ) (id : String) : Effect → Bool
  | .spawn task (.Timeout id' _) => decide (task = cycle) && decide (id' = id)
  | _ => false

/-- The timeout task of the cycle was spawned for the schedule and is not aborted. -/
def SchedulerActor.TimerPending (s : SchedulerActor) (cycle : ℕ) (id : String) : Prop :=
  (∃ e ∈ s.outbox, spawns_timeout cycle id e = true) ∧ .abort cycle ∉ s.outbox

/-- The schedule an operation resumes. -/
def Op.resumed : Op → Option String
  | .resume_schedule id => some id
  | _ => none

/-- **The condition.** A schedule is not resumed while a cycle of it is outstanding; a
terminal event of a cycle is handled while the cycle is outstanding (or dropped as
a duplicate); a timeout message is handled while its task is not aborted. -/
def InOrder (p : SchedulerActor × OpenCycles) (a : Act) : Prop :=
  (∀ id ∈ a.2.resumed, p.1.swaps a.1 id .Paused .Armed = true → ∀ c ∈ p.2, c.2 ≠ id) ∧
  ∀ key ∈ a.2.terminal_key, key ∉ p.1.processed_terminals →
    match a.2.origin with
    | some (.Session cycle) => (cycle, key.1) ∈ p.2
    | some (.Timer cycle) => p.1.TimerPending cycle key.1
    | _ => True

instance (s : SchedulerActor) (cycle : ℕ) (id : String) : Decidable (s.TimerPending cycle id) :=
  inferInstanceAs (Decidable ((∃ e ∈ s.outbox, spawns_timeout cycle id e = true) ∧
    .abort cycle ∉ s.outbox))

instance (p : SchedulerActor × OpenCycles) (a : Act) : Decidable (InOrder p a) := by
  unfold InOrder
  cases a.2.origin with
  | none => infer_instance
  | some origin => cases origin <;> infer_instance

/-! ## 3. The invariant -/

/-- An outstanding cycle is the active one of its schedule, whose row is `Running`, or
`Paused` since; and a timeout task that can still report belongs to an outstanding
cycle. -/
structure Tracks (p : SchedulerActor × OpenCycles) : Prop where
  active : ∀ cycle id, (cycle, id) ∈ p.2 →
    ∃ c, p.1.active_cycles.lookup id = some c ∧ c.timeout_handle = cycle
  row : ∀ cycle id, (cycle, id) ∈ p.2 →
    ∃ r, p.1.row id = some r ∧ (r.state = .Running ∨ r.state = .Paused)
  timer : ∀ cycle id, p.1.TimerPending cycle id → (cycle, id) ∈ p.2

theorem Tracks.unique {p : SchedulerActor × OpenCycles} (h : Tracks p) {cycle cycle' : ℕ}
    {id : String} (hc : (cycle, id) ∈ p.2) (hc' : (cycle', id) ∈ p.2) : cycle = cycle' := by
  obtain ⟨c, hlook, rfl⟩ := h.active cycle id hc
  obtain ⟨c', hlook', rfl⟩ := h.active cycle' id hc'
  rw [hlook, Option.some.injEq] at hlook'
  rw [hlook']

/-- A schedule whose row is armed has no outstanding cycle. -/
theorem Tracks.not_open_of_swaps {p : SchedulerActor × OpenCycles} (h : Tracks p) {env : Env}
    {id : String} (hswap : p.1.swaps env id .Armed .Running = true) :
    ∀ cycle, (cycle, id) ∉ p.2 := by
  intro cycle hc
  obtain ⟨r, hr, hst⟩ := exists_row_of_swaps hswap
  obtain ⟨r', hr', hst'⟩ := h.row cycle id hc
  cases hr.symm.trans hr'
  rcases hst' with h' | h' <;> exact absurd (hst.symm.trans h') (by simp)

theorem timerPending_of_quiet {s s' : SchedulerActor} (h : Quiet s s') {cycle : ℕ} {id : String}
    (hp : s'.TimerPending cycle id) : s.TimerPending cycle id := by
  obtain ⟨out, heq, hall⟩ := h.outbox
  obtain ⟨⟨e, hmem, hspawn⟩, hnot⟩ := hp
  rw [heq] at hmem hnot
  refine ⟨⟨e, ?_, hspawn⟩, fun h => hnot (List.mem_append_left _ h)⟩
  rcases List.mem_append.1 hmem with hmem | hmem
  · exact hmem
  · have := hall e hmem
    unfold spawns_timeout at hspawn
    split at hspawn
    · cases this
    · cases hspawn

/-! ## 4. One operation -/

/-- The operations other than fires, terminals and restarts. -/
theorem tracks_plain {p : SchedulerActor × OpenCycles} (hI : Tracks p) {env : Env} {op : Op}
    (hC : InOrder p (env, op)) (hfire : ∀ id, op ≠ .fire id) (hterm : op.terminal env = none)
    (hrestart : op ≠ .restart) : Tracks (tracked_step p (env, op)) := by
  obtain ⟨s, g⟩ := p
  have hghost : track s (env, op) g = g := by
    unfold track
    split
    · next id h => exact absurd h (hfire id)
    · rw [terminal_key_eq env, hterm]
      rfl
  have hactive := (keepsCycles_exec env s op hfire hterm hrestart).active_cycles
  refine ⟨?_, ?_, ?_⟩
  · intro cycle id hc
    rw [tracked_step, instrument, hghost] at hc
    rw [tracked_step, instrument, step, hactive]
    exact hI.active cycle id hc
  · intro cycle id hc
    rw [tracked_step, instrument, hghost] at hc
    obtain ⟨r, hr, hst⟩ := hI.row cycle id hc
    obtain ⟨c, hlook, -⟩ := hI.active cycle id hc
    rw [tracked_step, instrument, step]
    dsimp only at hr hlook ⊢
    rcases row_exec env s op id with hsame | hchange
    · exact ⟨r, by rw [hsame, hr], hst⟩
    · generalize hrow' : (exec env s op).row id = row' at hchange
      cases hchange with
      | fired => exact absurd rfl (hfire id)
      | settled hop => exact absurd (hterm.symm.trans hop) (by simp)
      | deleted hop => exact absurd (hterm.symm.trans hop) (by simp)
      | added hid hnone => exact absurd (hr.symm.trans hnone) (by simp)
      | removed hnot =>
          rw [← AList.lookup_eq_none] at hnot
          exact absurd (hnot.symm.trans hlook) (by simp)
      | paused => exact ⟨_, rfl, Or.inr rfl⟩
      | resumed hrow hswap => exact absurd rfl (hC.1 id rfl hswap (cycle, id) hc)
  · intro cycle id hp
    rw [tracked_step, instrument, step] at hp
    rw [tracked_step, instrument, hghost]
    exact hI.timer cycle id (timerPending_of_quiet (quiet_exec env s op hfire) hp)

/-- A fire: a sent prompt finds no outstanding cycle and opens one. -/
theorem tracks_fire {p : SchedulerActor × OpenCycles} (hI : Tracks p) (env : Env) (id : String) :
    Tracks (tracked_step p (env, .fire id)) := by
  obtain ⟨s, g⟩ := p
  obtain ⟨store, hstore⟩ := s.update_schedule_state_eq env id .Armed .Running
  have hrow := s.row_begin_cycle env id
  have hother : ∀ cycle id', (cycle, id') ∈ g → (exec env s (.fire id)).row id' = s.row id' := by
    intro cycle id' hc
    rw [exec, hrow, if_neg]
    rintro ⟨rfl, hswap⟩
    exact hI.not_open_of_swaps hswap cycle hc
  rcases s.begin_cycle_cases env id with ⟨hout, heq⟩ | ⟨hout, hswap, r, hr, heq⟩
  · -- no prompt: the compare-and-swap is all that happened
    have hghost : track s (env, .fire id) g = g := if_neg hout
    rw [hstore] at heq
    refine ⟨?_, ?_, ?_⟩
    · intro cycle id' hc
      rw [tracked_step, instrument, hghost] at hc
      rw [tracked_step, instrument, step, exec, heq]
      exact hI.active cycle id' hc
    · intro cycle id' hc
      rw [tracked_step, instrument, hghost] at hc
      rw [tracked_step, instrument, step, hother cycle id' hc]
      exact hI.row cycle id' hc
    · intro cycle id' hp
      rw [tracked_step, instrument, step, exec, heq] at hp
      rw [tracked_step, instrument, hghost]
      exact hI.timer cycle id' hp
  · have hghost : track s (env, .fire id) g = (s.next_task, id) :: g := if_pos hout
    have hopen := hI.not_open_of_swaps hswap
    have hpid : r.public_id = id := row_public_id hr
    rw [hstore] at heq
    have hactive : (exec env s (.fire id)).active_cycles =
        s.active_cycles.insert id ⟨env.now, s.next_task⟩ := by
      rw [exec, heq, ← hpid]
      rfl
    refine ⟨?_, ?_, ?_⟩
    · intro cycle id' hc
      rw [tracked_step, instrument, hghost, List.mem_cons] at hc
      rw [tracked_step, instrument, step, hactive]
      rcases hc with hc | hc
      · cases hc
        exact ⟨⟨env.now, s.next_task⟩, AList.lookup_insert _, rfl⟩
      · have hne : id' ≠ id := by
          rintro rfl
          exact hopen cycle hc
        rw [AList.lookup_insert_ne hne]
        exact hI.active cycle id' hc
    · intro cycle id' hc
      rw [tracked_step, instrument, hghost, List.mem_cons] at hc
      rw [tracked_step, instrument, step]
      rcases hc with hc | hc
      · cases hc
        refine ⟨with_state env .Running r, ?_, Or.inl rfl⟩
        dsimp only
        rw [exec, hrow, if_pos ⟨rfl, hswap⟩, hr]
        rfl
      · dsimp only
        rw [hother cycle id' hc]
        exact hI.row cycle id' hc
    · intro cycle id' hp
      rw [tracked_step, instrument, hghost, List.mem_cons]
      obtain ⟨⟨e, hmem, hspawn⟩, hnot⟩ := hp
      rw [tracked_step, instrument, step, exec, heq] at hmem hnot
      simp only [open_cycle_outbox, List.mem_append, List.mem_cons, List.not_mem_nil, or_false,
        not_or] at hmem hnot
      rcases hmem with hmem | rfl | rfl | rfl
      · exact Or.inr (hI.timer cycle id' ⟨⟨e, hmem, hspawn⟩, hnot.1⟩)
      · cases hspawn
      · left
        rw [show (with_state env .Running r).public_id = id from hpid] at hspawn
        split at hspawn
        · simp only [spawns_timeout, Bool.and_eq_true, decide_eq_true_eq] at hspawn
          rw [← hspawn.1, ← hspawn.2]
        · cases hspawn
      · cases hspawn

/-- A terminal that is not dropped, where the cycles left are those of other
schedules. -/
theorem tracks_settled {s : SchedulerActor} {g g' : OpenCycles} (hI : Tracks (s, g)) {env : Env}
    {op : Op} {key : String × Option String} {updated : Schedule → Schedule}
    (hop : op.terminal env = some (key, updated)) (hnew : key ∉ s.processed_terminals)
    (hsub : ∀ cycle id, (cycle, id) ∈ g' → (cycle, id) ∈ g ∧ id ≠ key.1)
    (hkeep : ∀ cycle id, (cycle, id) ∈ g → .abort cycle ∉ (exec env s op).outbox →
      (cycle, id) ∈ g') :
    Tracks (exec env s op, g') := by
  obtain ⟨-, hactive, -⟩ := (cycles_terminal hop s).resolve_left fun h => hnew h.1
  have hfire : ∀ id, op ≠ .fire id := by
    rintro id rfl
    cases hop
  refine ⟨?_, ?_, ?_⟩
  · intro cycle id hc
    obtain ⟨hc, hne⟩ := hsub cycle id hc
    rw [hactive, AList.lookup_erase_ne hne]
    exact hI.active cycle id hc
  · intro cycle id hc
    obtain ⟨hc, hne⟩ := hsub cycle id hc
    have hrow := row_terminal hop s id
    rw [if_neg (fun h => hne h.1)] at hrow
    dsimp only
    rw [hrow]
    exact hI.row cycle id hc
  · intro cycle id hp
    exact hkeep cycle id (hI.timer cycle id (timerPending_of_quiet (quiet_exec env s op hfire) hp))
      hp.2

/-- A terminal with a label: its cycle is outstanding, and is the one closed. -/
theorem tracks_labelled {s : SchedulerActor} {g : OpenCycles} (hI : Tracks (s, g)) {env : Env}
    {op : Op} {key : String × Option String} {updated : Schedule → Schedule}
    (hop : op.terminal env = some (key, updated)) (hnew : key ∉ s.processed_terminals) {cycle : ℕ}
    (hopen : (cycle, key.1) ∈ g) :
    Tracks (exec env s op, g.filter fun c => c.1 ≠ cycle) := by
  refine tracks_settled hI hop hnew ?_ ?_
  · intro cycle' id hc
    simp only [ne_eq, decide_not, List.mem_filter, Bool.not_eq_eq_eq_not, Bool.not_true,
      decide_eq_false_iff_not] at hc
    refine ⟨hc.1, ?_⟩
    rintro rfl
    exact hc.2 (hI.unique hc.1 hopen)
  · intro cycle' id hc hnot
    obtain ⟨c, hlook, hhandle⟩ := hI.active cycle key.1 hopen
    have habort := abort_mem_terminal hop hnew hlook
    rw [hhandle] at habort
    simp only [ne_eq, decide_not, List.mem_filter, Bool.not_eq_eq_eq_not, Bool.not_true,
      decide_eq_false_iff_not]
    refine ⟨hc, ?_⟩
    rintro rfl
    exact hnot habort

/-- A terminal of the scheduler itself, for a schedule without an outstanding cycle. -/
theorem tracks_internal {p : SchedulerActor × OpenCycles} (hI : Tracks p) (env : Env)
    {id : String} (turn_id : Option String) (error : String)
    (hopen : ∀ cycle, (cycle, id) ∉ p.2) :
    Tracks (tracked_step p (env, .cycle_failed .Internal id turn_id error)) := by
  obtain ⟨s, g⟩ := p
  have hghost : track s (env, .cycle_failed .Internal id turn_id error) g = g := by
    simp [track, Op.terminal_key, close, Op.origin]
  rw [tracked_step, instrument, hghost, step]
  have hop : Op.terminal env (.cycle_failed .Internal id turn_id error) =
    some ((id, turn_id), failed_row env) := rfl
  rcases cycles_terminal hop s with ⟨-, hsame⟩ | ⟨hnew, -⟩
  · dsimp only
    rw [hsame]
    exact hI
  · refine tracks_settled hI hop hnew ?_ ?_
    · intro cycle id' hc
      refine ⟨hc, ?_⟩
      rintro rfl
      exact hopen cycle hc
    · exact fun cycle id' hc _ => hc

/-- The invariant and the condition give the law. -/
theorem exclusive_of_tracks {p : SchedulerActor × OpenCycles} (hI : Tracks p) {a : Act}
    (hC : InOrder p a) : Exclusive p a := by
  obtain ⟨env, op⟩ := a
  constructor
  · rintro id hop hsent cycle hc
    rcases p.1.begin_cycle_cases env id with ⟨hout, -⟩ | ⟨-, hswap, -⟩
    · exact hout hsent
    · exact hI.not_open_of_swaps hswap cycle hc
  · rintro timer id turn_id error hop hnew cycle
    have hpending : p.1.TimerPending timer id := by
      have h := hC.2 (id, turn_id) (by rw [hop]; rfl) hnew
      rw [hop] at h
      exact h
    have hopen := hI.timer timer id hpending
    constructor
    · exact fun hc => hI.unique hc hopen
    · rintro rfl
      exact hopen

/-- **One operation** keeps the invariant, where it is not the scheduler's own
terminal and not a restart. -/
theorem tracks_step {p : SchedulerActor × OpenCycles} (hI : Tracks p) {env : Env} {op : Op}
    (hC : InOrder p (env, op)) (horigin : op.origin ≠ some .Internal) (hrestart : op ≠ .restart) :
    Exclusive p (env, op) ∧ Tracks (tracked_step p (env, op)) := by
  refine ⟨exclusive_of_tracks hI hC, ?_⟩
  by_cases hfire : ∃ id, op = .fire id
  · obtain ⟨id, rfl⟩ := hfire
    exact tracks_fire hI env id
  have hfire : ∀ id, op ≠ .fire id := fun id h => hfire ⟨id, h⟩
  cases hop : op.terminal env with
  | none => exact tracks_plain hI hC hfire hop hrestart
  | some t =>
      obtain ⟨key, updated⟩ := t
      obtain ⟨s, g⟩ := p
      have hkey : op.terminal_key = some key := by rw [terminal_key_eq env, hop]; rfl
      rw [tracked_step, instrument, step]
      dsimp only
      rcases cycles_terminal hop s with ⟨hdup, hsame⟩ | ⟨hnew, -⟩
      · have hghost : track s (env, op) g = g := by
          unfold track
          split
          · next id h => exact absurd h (hfire id)
          · simp [hkey, hdup]
        rw [hsame, hghost]
        exact hI
      · have hghost : track s (env, op) g = close op.origin g := by
          unfold track
          split
          · next id h => exact absurd h (hfire id)
          · simp [hkey, hnew]
        have hcond := hC.2 key (by rw [Option.mem_def]; exact hkey) hnew
        rw [hghost]
        unfold close
        split
        · next cycle h =>
            simp only [h] at hcond
            exact tracks_labelled hI hop hnew hcond
        · next cycle h =>
            simp only [h] at hcond
            exact tracks_labelled hI hop hnew (hI.timer cycle key.1 hcond)
        · next h1 h2 =>
            cases op with
            | cycle_completed origin id turn_id =>
                cases origin with
                | Session cycle => exact absurd rfl (h1 cycle)
                | Timer cycle => exact absurd rfl (h2 cycle)
                | Internal => exact absurd rfl horigin
            | cycle_failed origin id turn_id error =>
                cases origin with
                | Session cycle => exact absurd rfl (h1 cycle)
                | Timer cycle => exact absurd rfl (h2 cycle)
                | Internal => exact absurd rfl horigin
            | _ => cases hop

/-! ## 5. Handlers -/

/-- The script keeps the invariant, with the law on the way. -/
abbrev KeepsTracks (a : Script SchedulerActor Act) : Prop :=
  Script.KeepsGhost step track Tracks InOrder Exclusive a

section

variable (env : Env)

theorem keepsTracks_one {op : Op} (horigin : op.origin ≠ some .Internal)
    (hrestart : op ≠ .restart) : KeepsTracks fun _ => [(env, op)] :=
  Script.KeepsGhost.one fun _ hI hC => tracks_step hI hC horigin hrestart

/-- A fire that ends at once: the row was armed, so no cycle is outstanding when the
failure is booked. -/
theorem keepsTracks_fire_schedule (id : String) : KeepsTracks (fire_schedule env id) := by
  intro p hI hC
  unfold Script.lift fire_schedule at *
  have hfire := tracks_fire hI env id
  have hlaw := exclusive_of_tracks hI hC.1
  rcases p.1.begin_cycle_cases env id with ⟨hout, heq⟩ | ⟨hout, hswap, r, hr, heq⟩
  · split at hC
    · next error hended =>
        have hghost : track p.1 (env, .fire id) p.2 = p.2 := if_neg hout
        have hopen : ∀ cycle, (cycle, id) ∉ (tracked_step p (env, .fire id)).2 := by
          rw [tracked_step, instrument, hghost]
          exact hI.not_open_of_swaps (swaps_of_ended hended)
        exact ⟨⟨hlaw, exclusive_of_tracks hfire hC.2.1, trivial⟩,
          tracks_internal hfire env none error hopen⟩
    · exact ⟨⟨hlaw, trivial⟩, hfire⟩
  · simp only [hout]
    exact ⟨⟨hlaw, trivial⟩, hfire⟩

theorem keepsTracks_reset_and_fire (id : String) : KeepsTracks (reset_and_fire env id) :=
  Script.KeepsGhost.seq (keepsTracks_one env (by simp [Op.origin]) (by simp))
    (keepsTracks_fire_schedule env id)

theorem keepsTracks_after_increment (id : String) : KeepsTracks (after_increment env id) := by
  intro p
  unfold Script.lift after_increment
  split
  · exact Script.KeepsGhost.none p
  · split
    · split
      · exact Script.KeepsGhost.none p
      · split
        · split
          · exact keepsTracks_one env (by simp [Op.origin]) (by simp) p
          · exact keepsTracks_reset_and_fire env id p
        · exact Script.KeepsGhost.none p
    · exact Script.KeepsGhost.none p

theorem keepsTracks_process_event (envelope : EventEnvelope) :
    KeepsTracks (process_event env envelope) := by
  unfold process_event
  split
  · exact keepsTracks_one env (by simp [Op.origin]) (by simp)
  · exact keepsTracks_one env (by simp [Op.origin]) (by simp)
  · exact Script.KeepsGhost.none
  · intro p
    refine Script.KeepsGhost.each (fun id _ => ?_) p
    intro p
    unfold Script.lift offer_event
    split
    · exact Script.KeepsGhost.none p
    · split
      · exact Script.KeepsGhost.seq (keepsTracks_one env (by simp [Op.origin]) (by simp))
          (keepsTracks_after_increment env id) p
      · exact Script.KeepsGhost.none p

theorem keepsTracks_handle_debounce_completed (id : String) :
    KeepsTracks (handle_debounce_completed env id) := by
  intro p
  unfold Script.lift handle_debounce_completed
  split
  · exact Script.KeepsGhost.none p
  · split
    · exact keepsTracks_reset_and_fire env id p
    · exact keepsTracks_one env (by simp [Op.origin]) (by simp) p

/-- The sweep fails a schedule only if no cycle of it is active here. -/
theorem keepsTracks_recover_stale (r : Schedule) : KeepsTracks (recover_stale env r) := by
  intro p hI hC
  unfold Script.lift recover_stale at *
  split at hC
  · next h =>
      rw [if_pos h]
      exact ⟨trivial, hI⟩
  · next h =>
      rw [if_neg h]
      have hopen : ∀ cycle, (cycle, r.public_id) ∉ p.2 := by
        intro cycle hc
        obtain ⟨c, hlook, -⟩ := hI.active cycle r.public_id hc
        rw [← AList.lookup_eq_none] at h
        exact absurd (h.symm.trans hlook) (by simp)
      exact ⟨⟨exclusive_of_tracks hI hC.1, trivial⟩, tracks_internal hI env none _ hopen⟩

theorem keepsTracks_reconcile : KeepsTracks (reconcile env) := by
  refine Script.KeepsGhost.seq ?_ ?_
  · intro p
    exact Script.KeepsGhost.each (fun r _ => keepsTracks_recover_stale env r) p
  · intro p
    refine Script.KeepsGhost.each (fun r _ => ?_) p
    unfold fire_overdue
    split
    · exact Script.KeepsGhost.none
    · split
      · exact keepsTracks_fire_schedule env _
      · exact Script.KeepsGhost.none

end

theorem keepsTracks_handle (i : Input) (hrestart : i.msg ≠ .Restart) : KeepsTracks (handle i) := by
  obtain ⟨env, msg⟩ := i
  have hone : ∀ op : Op, op.origin ≠ some .Internal → op ≠ .restart →
      KeepsTracks fun _ => [(env, op)] :=
    fun op h h' => keepsTracks_one env h h'
  cases msg with
  | SetSelfRef => exact hone .set_self_ref (by simp [Op.origin]) (by simp)
  | DeadlineReached id =>
      exact Script.KeepsGhost.seq (hone (.remove_deadline id) (by simp [Op.origin]) (by simp))
        (keepsTracks_fire_schedule env id)
  | ProcessEvent envelope => exact keepsTracks_process_event env envelope
  | Reconcile => exact keepsTracks_reconcile env
  | CycleCompleted cycle id turn_id =>
      exact hone (.cycle_completed (.Session cycle) id turn_id) (by simp [Op.origin]) (by simp)
  | CycleFailed timer id turn_id error =>
      exact hone (.cycle_failed (.Timer timer) id turn_id error) (by simp [Op.origin]) (by simp)
  | DebounceCompleted id => exact keepsTracks_handle_debounce_completed env id
  | TriggerNow id =>
      exact Script.KeepsGhost.seq (hone (.remove_deadline id) (by simp [Op.origin]) (by simp))
        (keepsTracks_fire_schedule env id)
  | AddSchedule schedule => exact hone (.add_schedule schedule) (by simp [Op.origin]) (by simp)
  | RemoveSchedule id => exact hone (.remove_schedule id) (by simp [Op.origin]) (by simp)
  | PauseSchedule id => exact hone (.pause_schedule id) (by simp [Op.origin]) (by simp)
  | ResumeSchedule id => exact hone (.resume_schedule id) (by simp [Op.origin]) (by simp)
  | Restart => exact absurd rfl hrestart

/-! ## 6. Every run -/

/-- Operations other than fires open no cycle. -/
theorem quiet_run {s : SchedulerActor} {acts : List Act} (h : ∀ a ∈ acts, ∀ id, a.2 ≠ .fire id) :
    Quiet s (run step s acts) := by
  induction acts generalizing s with
  | nil => exact Quiet.refl s
  | cons a acts ih =>
      rw [run_cons]
      refine (quiet_exec a.1 s a.2 (h a (by simp))).trans (ih ?_)
      intro b hb
      exact h b (by simp [hb])

theorem initialize_actor_quiet (env : Env) :
    Script.Emits (fun a : Act => ∀ id, a.2 ≠ .fire id) (initialize_actor env) := by
  have hone : ∀ op : Op, (∀ id, op ≠ .fire id) →
      Script.Emits (fun a : Act => ∀ id, a.2 ≠ .fire id) fun _ : SchedulerActor => [(env, op)] := by
    intro op hop s a ha
    rw [List.mem_singleton] at ha
    subst ha
    exact hop
  refine Script.Emits.seq (hone .restart (by simp)) (Script.Emits.seq ?_ ?_)
  · intro s
    refine Script.Emits.each (fun r _ => ?_) s
    exact hone (.cycle_failed .Internal r.public_id none _) (by simp)
  · intro s
    refine Script.Emits.each (fun r _ => ?_) s
    exact hone (.enqueue_schedule r) (by simp)

/-- A scheduler right after `initialize`, on any table. -/
def started (env : Env) (store : ScheduleStore) : SchedulerActor :=
  run step { schedule_store := store } (initialize_actor env { schedule_store := store })

theorem tracks_started (env : Env) (store : ScheduleStore) : Tracks (started env store, []) := by
  refine ⟨by simp, by simp, ?_⟩
  intro cycle id hp
  have hquiet : Quiet { schedule_store := store } (started env store) :=
    quiet_run (initialize_actor_quiet env _)
  obtain ⟨⟨e, hmem, -⟩, -⟩ := timerPending_of_quiet hquiet hp
  cases hmem

/-- **At most one cycle of a schedule is outstanding, and a timeout fails its own
cycle**, in every run of a scheduler (on any table, with any messages) that resumes
no schedule with an outstanding cycle and handles no terminal after its cycle is
over. -/
theorem exclusive_of_inOrder (env : Env) (store : ScheduleStore) (inputs : List Input)
    (hrestart : ∀ i ∈ inputs, i.msg ≠ .Restart)
    (horder : Along tracked_step InOrder (started env store, [])
      (trace inputs (started env store))) :
    Along tracked_step Exclusive (started env store, []) (trace inputs (started env store)) := by
  have hkeeps : KeepsTracks (trace inputs) :=
    Script.KeepsGhost.each fun i hi => keepsTracks_handle i (hrestart i hi)
  exact (hkeeps _ (tracks_started env store) horder).1

/-- Pause and resume a schedule in the middle of a cycle, and trigger it again. -/
def resumed_mid_cycle : List Input :=
  calmly
    [(0, .SetSelfRef),
     (0, .AddSchedule (.new "sched" "task" "session" (.Interval 3600) 0)),
     (1, .TriggerNow "sched"),
     (2, .PauseSchedule "sched"),
     (3, .ResumeSchedule "sched"),
     (4, .TriggerNow "sched")]

/-- The second prompt goes out while cycle 1 is outstanding. -/
theorem resumed_mid_cycle_overlaps :
    (∀ i ∈ resumed_mid_cycle, i.msg ≠ .Restart) ∧
      ¬ Along tracked_step Exclusive (started (.calm 0) .empty, [])
        (trace resumed_mid_cycle (started (.calm 0) .empty)) := by
  refine ⟨by decide, ?_⟩
  intro h
  have hsched : Along tracked_step
      (fun p a => a.2 = .fire "sched" → (p.1.begin_cycle a.1 "sched").2 = .Sent →
        (1, "sched") ∉ p.2)
      (started (.calm 0) .empty, []) (trace resumed_mid_cycle (started (.calm 0) .empty)) :=
    h.imp fun p a _ hp hop hsent => hp.1 "sched" hop hsent 1
  exact absurd hsched (by decide)

/-- Two cycles one after the other, the second one timed out. -/
def one_after_the_other : List Input :=
  calmly
    [(0, .SetSelfRef),
     (0, .AddSchedule (.new "sched" "task" "session" (.Interval 3600) 0)),
     (1, .TriggerNow "sched"),
     (2, .ProcessEvent ⟨"session", .ScheduledExecutionCompleted 1 "sched" "turn-1"⟩),
     (3, .TriggerNow "sched"),
     (4 + 120 * second, .CycleFailed 3 "sched" none "cycle exceeded max_runtime_seconds (120)")]

theorem one_after_the_other_exclusive :
    Along tracked_step Exclusive (started (.calm 0) .empty, [])
      (trace one_after_the_other (started (.calm 0) .empty)) :=
  exclusive_of_inOrder (.calm 0) .empty one_after_the_other (by decide) (by decide)

end Querymt.Scheduler
