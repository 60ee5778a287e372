/-
`Delegation/Settlement.lean` -- is every delegation settled once, and is the table of
active delegations accurate?

Both laws are about a task and the listener taking steps in any order. A task settles
its delegation by a status write and an event, and leaves the table by a last step of
its own; what it meets on the way are an abort, which cuts it anywhere, a row written
back from the copy it started with, and exits that skip the last step. The two
conditions name exactly these.
-/
import Querymt.Delegation.Orchestrator

set_option autoImplicit false

open Runs

namespace Querymt.Delegations

/-! ## 1. Settled once -/

/-- A delegation that runs is not requested again. -/
def NotBack (status next : DelegationStatus) : Prop :=
  ¬ (status = .Running ∧ next = .Requested)

instance : DecidableRel NotBack := fun status next =>
  inferInstanceAs (Decidable (¬ (status = .Running ∧ next = .Requested)))

/-- **A delegation is settled exactly once**: its status never goes back from `Running`
to `Requested`, and once its task has ended the stored status is final and exactly one
event has said so. -/
structure Task.Settled (t : Task) : Prop where
  never_back : t.statuses.IsChain NotBack
  settled : t.pc = .Ended →
    (∃ status ∈ t.statuses.getLast?, status.is_terminal = true) ∧ t.events.length = 1

def AllSettled (s : Orchestrator) : Prop := ∀ id, ∀ t ∈ s.tasks id, t.Settled

/-- **The condition.** No task is aborted before it has emitted its event, and no
planning summary is written back with the status of the request. -/
def SettlesOnce (s : Orchestrator) : Action → Prop
  | .Abort id _ => ∀ t ∈ s.tasks id, s.graced id = true → t.pc ≠ .Ended → t.events ≠ []
  | .Advance id _ => ∀ t ∈ s.tasks id, t.pc = .PersistSummary → t.delegation.status ≠ .Requested
  | _ => True

/-- The task has started and its summary is not yet stored. -/
def Pc.is_running : Pc → Bool
  | .LoadConfig | .LoadCwd | .CreateSession | .ApplyRouting | .ApplyModel | .InheritEffort
  | .Summarize | .PersistSummary => true
  | _ => false

/-- The final status is stored. -/
def Pc.is_written : Pc → Bool
  | .FailureHook _ _ | .InjectResults | .InjectFailure _ | .Unregister | .Ended => true
  | _ => false

/-- The event is emitted. -/
def Pc.is_settled : Pc → Bool
  | .InjectResults | .InjectFailure _ | .Unregister | .Ended => true
  | _ => false

/-- **The invariant**: where the task is tells the last status and the events so far. -/
structure Task.Ordered (t : Task) : Prop where
  never_back : t.statuses.IsChain NotBack
  last : ∃ status ∈ t.statuses.getLast?, (t.pc.is_running = true → status = .Running) ∧
    (t.pc.is_written = true → status.is_terminal = true)
  events : t.events.length = if t.pc.is_settled then 1 else 0

theorem Task.Ordered.settled {t : Task} (h : t.Ordered) : t.Settled := by
  refine ⟨h.never_back, fun hpc => ?_⟩
  obtain ⟨status, hstatus, -, hwritten⟩ := h.last
  have hevents := h.events
  rw [hpc] at hwritten hevents
  exact ⟨⟨status, hstatus, hwritten rfl⟩, hevents⟩

/-! ## 2. One step of a task -/

section

variable {t : Task}

theorem ordered_spawned (delegation : Delegation) (has_handle : Bool) :
    (spawned delegation has_handle).Ordered :=
  ⟨List.isChain_singleton _, ⟨delegation.status, rfl, fun h => (by cases h), fun h => by cases h⟩,
    rfl⟩

theorem Task.Ordered.cancel (h : t.Ordered) : t.cancel.Ordered := ⟨h.never_back, h.last, h.events⟩

/-- A write extends the statuses by one that may follow. -/
theorem isChain_write {statuses : List DelegationStatus} (h : statuses.IsChain NotBack)
    {write : Option DelegationStatus} (hwrite : write ≠ some .Requested) :
    (statuses ++ write.toList).IsChain NotBack := by
  rcases write with _ | status
  · rw [Option.toList_none, List.append_nil]
    exact h
  · rw [Option.toList_some, List.isChain_append]
    refine ⟨h, List.isChain_singleton _, ?_⟩
    intro last _ next hnext
    rintro ⟨-, rfl⟩
    exact hwrite (congrArg some (Option.some.inj hnext))

/-- The status a task stores is never that of a request, but for the copied row. -/
theorem pending_write_eq_requested :
    t.pending_write = some .Requested ↔
      t.pc = .PersistSummary ∧ t.delegation.status = .Requested := by
  rw [Task.pending_write]
  cases t.pc <;> simp

/-- The places a task comes to while it is running. -/
theorem is_running_next_pc (reply : Reply) (h : (t.next_pc reply).is_running = true) :
    t.pending_write = some .Running ∨ (t.pc.is_running = true ∧ t.pending_write = none) := by
  obtain ⟨delegation, has_handle, pc, cancel_token, statuses, events⟩ := t
  cases pc with
  -- the statuses start with `Running` here, and nothing is stored before the summary
  | MarkRunning => exact .inl rfl
  | LoadConfig => exact .inr ⟨rfl, rfl⟩
  | LoadCwd => exact .inr ⟨rfl, rfl⟩
  | CreateSession => exact .inr ⟨rfl, rfl⟩
  | ApplyRouting => exact .inr ⟨rfl, rfl⟩
  | ApplyModel => exact .inr ⟨rfl, rfl⟩
  | InheritEffort => exact .inr ⟨rfl, rfl⟩
  | Summarize => exact .inr ⟨rfl, rfl⟩
  | Permit => cases reply <;> cases has_handle <;> cases h
  | Prompt => cases reply <;> cases cancel_token <;> cases h
  | Verify => cases reply <;> cases h
  | GetHistory => cases reply <;> cases h
  | PostHook => cases reply <;> cases h
  | InjectFailure removes => cases removes <;> cases h
  | _ => cases h

/-- The places a task comes to once its final status is stored. -/
theorem is_written_next_pc (reply : Reply) (h : (t.next_pc reply).is_written = true) :
    (∃ status ∈ t.pending_write, status.is_terminal = true) ∨
      (t.pc.is_written = true ∧ t.pending_write = none) := by
  obtain ⟨delegation, has_handle, pc, cancel_token, statuses, events⟩ := t
  cases pc with
  -- three writes are final; every place behind them waits for something else
  | MarkCancelled => exact .inl ⟨_, rfl, rfl⟩
  | MarkComplete => exact .inl ⟨_, rfl, rfl⟩
  | MarkFailed => exact .inl ⟨_, rfl, rfl⟩
  | FailureHook => exact .inr ⟨rfl, rfl⟩
  | InjectResults => exact .inr ⟨rfl, rfl⟩
  | InjectFailure => exact .inr ⟨rfl, rfl⟩
  | Unregister => exact .inr ⟨rfl, rfl⟩
  | Ended => exact .inr ⟨rfl, rfl⟩
  | Permit => cases reply <;> cases has_handle <;> cases h
  | Prompt => cases reply <;> cases cancel_token <;> cases h
  | LoadConfig => cases reply <;> cases h
  | CreateSession => cases reply <;> cases h
  | ApplyModel => cases reply <;> cases h
  | InheritEffort => cases reply <;> cases h
  | Summarize => cases reply <;> cases h
  | Verify => cases reply <;> cases h
  | GetHistory => cases reply <;> cases h
  | PostHook => cases reply <;> cases h
  | _ => cases h

/-- A task emits its event on the step to a settled place, and only there. -/
theorem length_emits (reply : Reply) :
    (t.emits reply).length + (if t.pc.is_settled then 1 else 0) =
      if (t.next_pc reply).is_settled then 1 else 0 := by
  obtain ⟨delegation, has_handle, pc, cancel_token, statuses, events⟩ := t
  cases pc with
  | Permit => cases reply <;> cases has_handle <;> rfl
  | Prompt => cases reply <;> cases cancel_token <;> rfl
  | InjectFailure removes => cases removes <;> rfl
  | LoadConfig => cases reply <;> rfl
  | CreateSession => cases reply <;> rfl
  | ApplyModel => cases reply <;> rfl
  | InheritEffort => cases reply <;> rfl
  | Summarize => cases reply <;> rfl
  | Verify => cases reply <;> rfl
  | GetHistory => cases reply <;> rfl
  | PostHook => cases reply <;> rfl
  -- a failure emits after its hook, the other two right after their write
  | FailureHook => cases reply <;> rfl
  | _ => rfl

theorem getLast?_write (statuses : List DelegationStatus) (write : Option DelegationStatus) :
    (statuses ++ write.toList).getLast? = write.or statuses.getLast? := by
  rcases write with _ | status
  · rw [Option.toList_none, List.append_nil, Option.none_or]
  · rw [Option.toList_some, List.getLast?_concat, Option.some_or]

/-- **A step of a task keeps the invariant**, unless it writes the request back. -/
theorem Task.Ordered.advance (h : t.Ordered) (reply : Reply)
    (hwrite : t.pending_write ≠ some .Requested) : (t.advance reply).Ordered := by
  obtain ⟨last, hlast, hrunning, hwritten⟩ := h.last
  refine ⟨isChain_write h.never_back hwrite, ?_, ?_⟩
  · change ∃ status ∈ (t.statuses ++ t.pending_write.toList).getLast?, _
    rw [getLast?_write]
    rcases hpending : t.pending_write with _ | status
    · refine ⟨last, hlast, fun hrun => ?_, fun hwrit => ?_⟩
      · rcases is_running_next_pc reply hrun with hp | ⟨hpc, -⟩
        · rw [hpending] at hp
          cases hp
        · exact hrunning hpc
      · rcases is_written_next_pc reply hwrit with ⟨status, hp, -⟩ | ⟨hpc, -⟩
        · rw [hpending] at hp
          cases hp
        · exact hwritten hpc
    · refine ⟨status, rfl, fun hrun => ?_, fun hwrit => ?_⟩
      · rcases is_running_next_pc reply hrun with hp | ⟨-, hnone⟩
        · exact Option.some.inj (hpending.symm.trans hp)
        · rw [hpending] at hnone
          cases hnone
      · rcases is_written_next_pc reply hwrit with ⟨status', hp, hterminal⟩ | ⟨-, hnone⟩
        · rw [Option.some.inj (hpending.symm.trans hp)]
          exact hterminal
        · rw [hpending] at hnone
          cases hnone
  · change (t.events ++ t.emits reply).length = _
    rw [List.length_append, h.events, Nat.add_comm]
    exact length_emits reply

/-- The request written back is a step back. -/
theorem not_never_back_of_requested (h : t.Ordered) (reply : Reply)
    (hwrite : t.pending_write = some .Requested) :
    ¬ (t.advance reply).statuses.IsChain NotBack := by
  obtain ⟨hpc, -⟩ := pending_write_eq_requested.1 hwrite
  obtain ⟨last, hlast, hrunning, -⟩ := h.last
  -- the task is running when it persists the summary, so the last status is `Running`
  rw [hpc] at hrunning
  intro hchain
  change (t.statuses ++ t.pending_write.toList).IsChain NotBack at hchain
  rw [hwrite, Option.toList_some, List.isChain_append] at hchain
  exact hchain.2.2 last hlast .Requested rfl ⟨hrunning rfl, rfl⟩

/-- **An abort keeps the invariant** exactly when the event has been emitted. -/
theorem Task.Ordered.abort (h : t.Ordered) (write_lands : Bool) (hevents : t.events ≠ []) :
    (t.abort write_lands).Ordered := by
  have hlength := h.events
  -- an event has been emitted only behind the final write
  have hsettled : t.pc.is_settled = true := by
    by_contra hne
    rw [if_neg hne] at hlength
    exact hevents (List.length_eq_zero_iff.1 hlength)
  rw [if_pos hsettled] at hlength
  -- nothing is waited for after the event that would be stored
  have hnone : t.pending_write = none ∧ t.pc.is_written = true := by
    rw [Task.pending_write]
    cases hpc : t.pc <;> rw [hpc] at hsettled <;> first | exact ⟨rfl, rfl⟩ | cases hsettled
  have hstatuses : (t.abort write_lands).statuses = t.statuses := by
    change t.statuses ++ (if write_lands then t.pending_write.toList else []) = _
    rw [hnone.1, Option.toList_none, ite_self, List.append_nil]
  obtain ⟨last, hlast, -, hwritten⟩ := h.last
  refine ⟨?_, ⟨last, ?_, fun hrun => (by cases hrun), fun _ => hwritten hnone.2⟩, hlength⟩
  · rw [hstatuses]
    exact h.never_back
  · rw [hstatuses]
    exact hlast

end

/-! ## 3. Every run settles -/

theorem tasks_advance {s : Orchestrator} {id : String} {t : Task} (h : s.tasks id = some t)
    (reply : Reply) : (s.step (.Advance id reply)).tasks id = some (t.advance reply) := by
  rw [Orchestrator.step, h]
  dsimp only
  split
  · exact s.set_task_self id (t.advance reply)
  · exact s.set_task_self id (t.advance reply)

theorem tasks_abort {s : Orchestrator} {id : String} {t : Task} (h : s.tasks id = some t)
    (hgraced : s.graced id = true) (hpc : t.pc ≠ .Ended) (write_lands : Bool) :
    (s.step (.Abort id write_lands)).tasks id = some (t.abort write_lands) := by
  rw [Orchestrator.step, h]
  dsimp only
  rw [if_pos ⟨hgraced, hpc⟩]
  exact s.set_task_self id (t.abort write_lands)

def AllOrdered (s : Orchestrator) : Prop := ∀ id, ∀ t ∈ s.tasks id, t.Ordered

theorem AllOrdered.step {s : Orchestrator} (h : AllOrdered s) {a : Action}
    (hC : SettlesOnce s a) : AllOrdered (s.step a) := by
  -- one task, from what it was before the action
  have htask : ∀ id before after, TaskStep s id a before after → s.tasks id = before →
      ∀ t ∈ after, t.Ordered := by
    intro id before after hstep hbefore t ht
    cases hstep with
    | same => exact h id t (hbefore.trans ht)
    -- whatever stands in the row of the request, the chain starts with it
    | spawned _ =>
        rw [← Option.some.inj ht]
        exact ordered_spawned _ _
    | @cancelled _ t' =>
        rw [← Option.some.inj ht]
        exact (h id t' hbefore).cancel
    | @advanced reply t' =>
        rw [← Option.some.inj ht]
        refine (h id t' hbefore).advance reply fun hwrite => ?_
        obtain ⟨hpc, hstatus⟩ := pending_write_eq_requested.1 hwrite
        exact hC t' hbefore hpc hstatus
    | @aborted write_lands t' hgraced hpc =>
        rw [← Option.some.inj ht]
        exact (h id t' hbefore).abort write_lands (hC t' hbefore hgraced hpc)
  intro id
  exact htask id _ _ (step_taskStep s a id) rfl

/-- Where the condition fails, the law fails with the same step. -/
theorem AllOrdered.settlesOnce {s : Orchestrator} (h : AllOrdered s) {a : Action}
    (hsettled : AllSettled (s.step a)) : SettlesOnce s a := by
  cases a with
  | Advance id reply =>
      intro t ht hpc hstatus
      have hadvance := hsettled id (t.advance reply) (tasks_advance ht reply)
      refine not_never_back_of_requested (h id t ht) reply ?_ hadvance.never_back
      exact pending_write_eq_requested.2 ⟨hpc, hstatus⟩
  | Abort id write_lands =>
      intro t ht hgraced hpc hnil
      have habort := hsettled id (t.abort write_lands) (tasks_abort ht hgraced hpc write_lands)
      -- the aborted task has ended, so the law asks for its event
      have hlength : t.events.length = 1 := (habort.settled rfl).2
      rw [hnil] at hlength
      cases hlength
  | _ => trivial

/-- **When every delegation is settled exactly once**: in every run, whatever the order
of events, tasks and aborts, exactly as long as no task is aborted before its event and
no planning summary is written back over the status. -/
theorem settled_once_iff (actions : List Action) :
    Along Orchestrator.step (fun s a => AllSettled (s.step a)) .new actions ↔
      Along Orchestrator.step SettlesOnce .new actions := by
  have hnew : AllOrdered .new := fun _ _ ht => by cases ht
  refine along_iff_of_invariant (fun s a h => ⟨h.settlesOnce, fun hC => ?_⟩)
    (fun s a h hsettled => h.step (h.settlesOnce hsettled)) hnew
  exact fun id t ht => (h.step hC id t ht).settled

/-- A delegation of the session `parent`. -/
def task_of (id : String) : Delegation := ⟨id, "parent", "coder", .Requested⟩

/-- The task of a delegation, up to its prompt; `summary` is what the summarizer says. -/
def up_to_prompt (id : String) (summary : Reply) : List Action :=
  [.Requested (task_of id) true, .Register] ++
    [.Done, .Done, .Done, .Done, .Done, .Done, .Done, .Done, .Done, summary].map (.Advance id)

/-- A cancelled delegation whose child does not stop in time. -/
def aborted_run : List Action :=
  (up_to_prompt "d" .Done ++ [.CancelRequested "d", .Advance "d" .CancelledFirst]) ++
    [.Abort "d" false]

/-- A delegation for which a planning summary is generated. -/
def summarized_run : List Action :=
  up_to_prompt "d" (.Summary "plan") ++ [.Advance "d" .Done]

/-- The first ends with its row at `Running` and no event; the second writes `Requested`
over `Running`. -/
theorem delegation_not_settled :
    ¬ Along Orchestrator.step (fun s a => AllSettled (s.step a)) .new aborted_run ∧
      ¬ Along Orchestrator.step (fun s a => AllSettled (s.step a)) .new summarized_run := by
  constructor
  · intro h
    rw [aborted_run, along_append] at h
    have hlast := h.2.1
    have hended := (hlast "d" _ rfl).settled rfl
    cases hended.2
  · intro h
    rw [summarized_run, along_append] at h
    have hlast := h.2.1
    exact absurd (hlast "d" _ rfl).never_back (by decide)

/-! ## 4. The table of active delegations -/

/-- The task of a delegation has been spawned and has not ended. -/
def Orchestrator.live (s : Orchestrator) (id : String) : Bool :=
  (s.tasks id).any fun t => decide (t.pc ≠ .Ended)

/-- **The table is accurate**: while no handler is in progress, the entries are those of
the tasks that have not ended. -/
def Accurate (s : Orchestrator) : Prop :=
  s.registering = none → ∀ id, (s.active id).isSome = true ↔ s.live id = true

/-- **The condition.** A task is still running when it is registered, no exit that
leaves its entry behind is taken by a registered task, no task is aborted, and no entry
is taken out by a cancel request while its task runs. -/
def KeepsTable (s : Orchestrator) : Action → Prop
  | .Register => ∀ p ∈ s.registering, s.live p.1 = true
  | .CancelRequested id => s.registering = none → s.active id = none
  | .Advance id _ => ∀ t ∈ s.tasks id, t.pc = .InjectFailure false → s.active id = none
  | .Abort id _ => ∀ t ∈ s.tasks id, s.graced id = true → t.pc = .Ended
  | .Requested _ _ | .SessionCancelled _ => True

instance (s : Orchestrator) : DecidablePred (KeepsTable s)
  | .Register => inferInstanceAs (Decidable (∀ p ∈ s.registering, s.live p.1 = true))
  | .CancelRequested id => inferInstanceAs (Decidable (s.registering = none → s.active id = none))
  | .Advance id _ =>
      inferInstanceAs (Decidable (∀ t ∈ s.tasks id, t.pc = .InjectFailure false → s.active id = none))
  | .Abort id _ =>
      inferInstanceAs (Decidable (∀ t ∈ s.tasks id, s.graced id = true → t.pc = .Ended))
  | .Requested _ _ | .SessionCancelled _ => inferInstanceAs (Decidable True)

/-- **The invariant**: accurate but for the task that is being registered, which has no
entry yet. -/
structure Tabled (s : Orchestrator) : Prop where
  registered : ∀ id, (∀ p ∈ s.registering, p.1 ≠ id) →
    ((s.active id).isSome = true ↔ s.live id = true)
  registering : ∀ p ∈ s.registering, s.active p.1 = none

theorem Tabled.accurate {s : Orchestrator} (h : Tabled s) : Accurate s := by
  intro hnone id
  refine h.registered id ?_
  rw [hnone]
  exact fun p hp => by cases hp

section

variable {s : Orchestrator}

theorem live_of_task {id : String} {t : Task} (h : s.tasks id = some t) :
    s.live id = decide (t.pc ≠ .Ended) := by
  rw [Orchestrator.live, h]
  rfl

theorem live_of_none {id : String} (h : s.tasks id = none) : s.live id = false := by
  rw [Orchestrator.live, h]
  rfl

/-- The exits of a task. -/
theorem next_pc_eq_ended (t : Task) (reply : Reply) :
    t.next_pc reply = .Ended ↔ t.pc = .Ended ∨ t.pc = .Unregister ∨ t.pc = .InjectFailure false := by
  obtain ⟨delegation, has_handle, pc, cancel_token, statuses, events⟩ := t
  cases pc with
  | Permit => cases reply <;> cases has_handle <;> simp [Task.next_pc]
  | Prompt => cases reply <;> cases cancel_token <;> simp [Task.next_pc]
  | InjectFailure removes => cases removes <;> simp [Task.next_pc]
  | LoadConfig => cases reply <;> simp [Task.next_pc]
  | CreateSession => cases reply <;> simp [Task.next_pc]
  | ApplyModel => cases reply <;> simp [Task.next_pc]
  | InheritEffort => cases reply <;> simp [Task.next_pc]
  | Summarize => cases reply <;> simp [Task.next_pc]
  | Verify => cases reply <;> simp [Task.next_pc]
  | GetHistory => cases reply <;> simp [Task.next_pc]
  | PostHook => cases reply <;> simp [Task.next_pc]
  | _ => simp [Task.next_pc]

/-- A cancellation ends no task. -/
theorem any_cancel (task : Option Task) :
    ((task.map Task.cancel).any fun t => decide (t.pc ≠ .Ended)) =
      task.any fun t => decide (t.pc ≠ .Ended) := by
  rcases task with _ | t <;> rfl

theorem Tabled.requested (h : Tabled s) (delegation : Delegation) (has_handle : Bool) :
    Tabled (s.step (.Requested delegation has_handle)) := by
  rw [Orchestrator.step]
  split
  · exact h
  · next hfree =>
      rw [not_or, Option.not_isSome_iff_eq_none, Option.not_isSome_iff_eq_none] at hfree
      have hidle : ∀ id, ∀ p ∈ s.registering, p.1 ≠ id := by
        rw [hfree.1]
        exact fun _ p hp => by cases hp
      refine ⟨fun id hid => ?_, fun p hp => ?_⟩
      · have hne : id ≠ delegation.public_id := fun heq => hid _ rfl heq.symm
        have hlive := s.set_task_of_ne hne (spawned delegation has_handle)
        dsimp only [Orchestrator.live]
        rw [hlive]
        exact h.registered id (hidle id)
      · rw [← Option.some.inj hp]
        change s.active delegation.public_id = none
        -- a delegation without a task has no entry
        rw [← Option.not_isSome_iff_eq_none, h.registered _ (hidle _), live_of_none hfree.2]
        exact Bool.false_ne_true

theorem Tabled.register (h : Tabled s) (hC : KeepsTable s .Register) :
    Tabled (s.step .Register) := by
  rw [Orchestrator.step]
  rcases hreg : s.registering with _ | ⟨id, parent⟩
  · exact h
  · refine ⟨fun other _ => ?_, fun p hp => by cases hp⟩
    by_cases heq : other = id
    · subst heq
      have hlive : s.live other = true := hC (other, parent) hreg
      dsimp only
      rw [Function.update_self]
      exact ⟨fun _ => hlive, fun _ => rfl⟩
    · dsimp only
      rw [Function.update_of_ne heq]
      refine h.registered other ?_
      rw [hreg]
      intro p hp
      rw [← Option.some.inj hp]
      exact fun h => heq h.symm

theorem Tabled.sessionCancelled (h : Tabled s) (session_id : String) :
    Tabled (s.step (.SessionCancelled session_id)) := by
  rw [Orchestrator.step]
  split
  · exact h
  · refine ⟨fun id hid => ?_, h.registering⟩
    have hregistered := h.registered id hid
    dsimp only [Orchestrator.live] at hregistered ⊢
    split
    · rw [any_cancel]
      exact hregistered
    · exact hregistered

theorem Tabled.advance (h : Tabled s) {id : String} {reply : Reply}
    (hC : KeepsTable s (.Advance id reply)) : Tabled (s.step (.Advance id reply)) := by
  rw [Orchestrator.step]
  rcases htask : s.tasks id with _ | t
  · exact h
  · dsimp only
    have hlive := live_of_task htask
    by_cases hunregister : t.pc = .Unregister
    · rw [if_pos hunregister]
      have hended : (t.advance reply).pc = .Ended :=
        (next_pc_eq_ended t reply).2 (.inr (.inl hunregister))
      refine ⟨fun other hother => ?_, fun p hp => ?_⟩
      · by_cases heq : other = id
        · subst heq
          have hset := s.set_task_self other (t.advance reply)
          dsimp only [Orchestrator.live]
          rw [Function.update_self, hset]
          simp [hended]
        · have hset := s.set_task_of_ne heq (t.advance reply)
          dsimp only [Orchestrator.live]
          rw [Function.update_of_ne heq, hset]
          exact h.registered other hother
      · change Function.update s.active id none p.1 = none
        by_cases heq : p.1 = id
        · rw [heq, Function.update_self]
        · rw [Function.update_of_ne heq]
          exact h.registering p hp
    · rw [if_neg hunregister]
      refine ⟨fun other hother => ?_, h.registering⟩
      by_cases heq : other = id
      · subst heq
        have hregistered := h.registered other hother
        have hexit : (t.advance reply).pc = .Ended ↔ t.pc = .Ended := by
          refine (next_pc_eq_ended t reply).trans ⟨?_, .inl⟩
          rintro (hpc | hpc | hpc)
          · exact hpc
          · exact absurd hpc hunregister
          · -- a registered task has an entry, so it is not on this exit
            have hnone := hC t htask hpc
            rw [hnone, hlive, hpc] at hregistered
            exact absurd (hregistered.2 rfl) (by simp)
        rw [live_of_task (s.set_task_self other (t.advance reply))]
        change (s.active other).isSome = true ↔ _
        rw [hregistered, hlive, decide_eq_true_eq, decide_eq_true_eq, ne_eq, ne_eq, hexit]
      · have hset := s.set_task_of_ne heq (t.advance reply)
        have hsame : (s.set_task id (t.advance reply)).live other = s.live other := by
          rw [Orchestrator.live, hset]
          rfl
        rw [hsame]
        exact h.registered other hother

/-- **One step under the condition.** -/
theorem Tabled.step (h : Tabled s) {a : Action} (hC : KeepsTable s a) : Tabled (s.step a) := by
  cases a with
  | Requested delegation has_handle => exact h.requested delegation has_handle
  | Register => exact h.register hC
  | CancelRequested id =>
      -- nothing to take out
      have hsame : s.step (.CancelRequested id) = s := by
        rw [Orchestrator.step]
        refine if_pos ?_
        by_cases hreg : s.registering.isSome = true
        · exact .inl hreg
        · exact .inr (hC (Option.not_isSome_iff_eq_none.1 hreg))
      rw [hsame]
      exact h
  | SessionCancelled session_id => exact h.sessionCancelled session_id
  | Advance id reply => exact h.advance hC
  | Abort id write_lands =>
      have hsame : s.step (.Abort id write_lands) = s := by
        rw [Orchestrator.step]
        rcases htask : s.tasks id with _ | t
        · rfl
        · exact if_neg fun hgrace => hgrace.2 (hC t htask hgrace.1)
      rw [hsame]
      exact h

end

/-- **The table is accurate** in every state of every run that meets the condition. -/
theorem table_accurate (actions : List Action)
    (hC : Along Orchestrator.step KeepsTable .new actions) :
    Accurate (run Orchestrator.step .new actions) := by
  have hnew : Tabled .new :=
    ⟨fun _ _ => ⟨fun h => (by cases h), fun h => by cases h⟩, fun _ hp => by cases hp⟩
  exact (run_invariant hC (fun _ _ h hs => h.step hs) hnew).accurate

/-- The child session cannot be created. -/
def creation_failure : List Action :=
  [.Requested (task_of "d") true, .Register] ++
    [.Done, .Done, .Done, .Done, .Done, .Failed "no route", .Done, .Done, .Done].map (.Advance "d")

/-- The target has no handle, and the task fails before the listener has the lock. -/
def early_failure : List Action :=
  [.Requested (task_of "d") false] ++ [.Done, .Done, .Done, .Done].map (.Advance "d") ++ [.Register]

/-- A cancel request for a running delegation. -/
def cancelled_run : List Action := up_to_prompt "d" .Done ++ [.CancelRequested "d"]

/-- Two entries that outlive their tasks, and a task without an entry. -/
theorem table_inaccurate :
    ¬ Accurate (run Orchestrator.step .new creation_failure) ∧
      ¬ Accurate (run Orchestrator.step .new early_failure) ∧
      ¬ Accurate (run Orchestrator.step .new cancelled_run) := by
  refine ⟨fun h => ?_, fun h => ?_, fun h => ?_⟩
  · cases (h rfl "d").1 rfl
  · cases (h rfl "d").1 rfl
  · cases (h rfl "d").2 rfl

/-- A delegation that completes. -/
def completed_run : List Action :=
  up_to_prompt "d" .Done ++
    [.Done, .Done, .Summary "done", .Done, .Done, .Done, .Done].map (.Advance "d")

theorem completed_run_accurate :
    (run Orchestrator.step .new completed_run).live "d" = false ∧
      Accurate (run Orchestrator.step .new completed_run) :=
  ⟨rfl, table_accurate completed_run (by decide)⟩

end Querymt.Delegations
