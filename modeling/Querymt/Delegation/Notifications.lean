/-
`Delegation/Notifications.lean` -- snapshots of delegations from their events.

Mirrors `DelegationUpdateProjector` (`control/delegation_notifications.rs`) as
`delegation_updates_from_events` uses it, without the limits of the live stream. An event that
comes after the request of its delegation is applied at once; an earlier one is queued, and of
two queued ones of a kind the earlier in time is kept.

# When the order of delivery does not matter

A set of delegations is told by its events in any order and any number of times. Every order
gives the same snapshots exactly if no delegation has two terminal events
(`order_independent_iff`): of two that are applied at once the first delivered counts.
-/
import Mathlib.Data.List.MinMax
import Mathlib.Data.List.Permutation
import Mathlib.Data.String.Basic
import Querymt.Library.HashMaps

set_option autoImplicit false

open HashMaps

namespace Querymt.DelegationUpdates

/-! ## 1. The projector -/

inductive DelegationUpdateState where
  | Requested
  | Forked
  | Completed
  | Failed
  | Cancelled
  deriving DecidableEq

namespace DelegationUpdateState

def is_terminal : DelegationUpdateState → Bool
  | Completed | Failed | Cancelled => true
  | _ => false

end DelegationUpdateState

@[ext] structure DelegationUpdateNotification where
  version : ℕ
  session_id : String
  delegation_id : String
  tool_call_id : Option String
  state : DelegationUpdateState
  target_agent_id : String
  objective : String
  child_session_id : Option String
  requested_at : ℤ
  forked_at : Option ℤ
  finished_at : Option ℤ
  updated_at : ℤ
  result_summary : Option String
  error : Option String
  deriving DecidableEq

inductive ForkOrigin where
  | User
  | Delegation
  deriving DecidableEq

/-- What a request says of its delegation. -/
structure Delegation where
  public_id : String
  target_agent_id : String
  objective : String
  deriving DecidableEq

inductive AgentEventKind where
  | DelegationRequested (delegation : Delegation) (tool_call_id : Option String)
  | SessionForked (parent_session_id child_session_id : String) (origin : ForkOrigin)
      (fork_point_ref : String)
  | DelegationCompleted (delegation_id : String) (result : Option String)
  | DelegationFailed (delegation_id : String) (error : String)
  | DelegationCancelled (delegation_id : String)
  | Other
  deriving DecidableEq

structure AgentEvent where
  timestamp : ℤ
  session_id : String
  kind : AgentEventKind
  deriving DecidableEq

inductive PendingDelegationTransition where
  | Forked (session_id child_session_id : String) (timestamp : ℤ)
  | Finished (timestamp : ℤ) (state : DelegationUpdateState) (result_summary error : Option String)
  deriving DecidableEq

namespace PendingDelegationTransition

def timestamp : PendingDelegationTransition → ℤ
  | Forked _ _ timestamp => timestamp
  | Finished timestamp _ _ _ => timestamp

def same_kind : PendingDelegationTransition → PendingDelegationTransition → Bool
  | Forked _ _ _, Forked _ _ _ => true
  | Finished _ _ _ _, Finished _ _ _ _ => true
  | _, _ => false

end PendingDelegationTransition

structure DelegationUpdateProjector where
  snapshots : HashMap String DelegationUpdateNotification
  pending : HashMap String (List PendingDelegationTransition)

def TERMINAL_SUMMARY_MAX_CHARS : ℕ := 512

def bounded_summary (value : String) : String :=
  let summary := value.toList.take TERMINAL_SUMMARY_MAX_CHARS
  if TERMINAL_SUMMARY_MAX_CHARS < value.toList.length then
    String.ofList (summary.take (TERMINAL_SUMMARY_MAX_CHARS - 3)) ++ "..."
  else String.ofList summary

/-- What a transition makes of the snapshot that is there. -/
def transitioned (snapshot : DelegationUpdateNotification) :
    PendingDelegationTransition → DelegationUpdateNotification
  | .Forked session_id child_session_id timestamp =>
      if timestamp < snapshot.requested_at ∨
          snapshot.finished_at.any (fun finished_at => finished_at < timestamp) then
        snapshot
      else
        let snapshot :=
          { snapshot with
            session_id
            child_session_id := some child_session_id
            forked_at := some (match snapshot.forked_at with
              | none => timestamp
              | some current => min current timestamp) }
        if snapshot.state.is_terminal then snapshot
        else
          { snapshot with
            state := .Forked
            updated_at := max snapshot.updated_at timestamp }
  | .Finished timestamp state result_summary error =>
      if timestamp < snapshot.requested_at ∨ snapshot.state.is_terminal then snapshot
      else
        { snapshot with
          state
          finished_at := some timestamp
          updated_at := max snapshot.updated_at timestamp
          result_summary
          error }

/-- Transitions that wait, and one more: of each kind the earliest is kept. -/
def queued (transition : PendingDelegationTransition) :
    List PendingDelegationTransition → List PendingDelegationTransition
  | [] => [transition]
  | existing :: transitions =>
      if existing.same_kind transition then
        (if transition.timestamp < existing.timestamp then transition else existing) :: transitions
      else existing :: queued transition transitions

/-- The snapshot of a request. -/
def requested (session_id : String) (timestamp : ℤ) (delegation : Delegation)
    (tool_call_id : Option String) : DelegationUpdateNotification where
  version := 1
  session_id := session_id
  delegation_id := delegation.public_id
  tool_call_id := tool_call_id
  state := .Requested
  target_agent_id := delegation.target_agent_id
  objective := delegation.objective
  child_session_id := none
  requested_at := timestamp
  forked_at := none
  finished_at := none
  updated_at := timestamp
  result_summary := none
  error := none

def sort_by_timestamp (transitions : List PendingDelegationTransition) :
    List PendingDelegationTransition :=
  transitions.insertionSort fun a b => a.timestamp ≤ b.timestamp

namespace DelegationUpdateProjector

variable (p : DelegationUpdateProjector)

def apply_transition (delegation_id : String) (transition : PendingDelegationTransition) :
    Bool × DelegationUpdateProjector :=
  match p.snapshots.lookup delegation_id with
  | none => (false, p)
  | some snapshot =>
      (true, { p with
        snapshots := p.snapshots.insert delegation_id (transitioned snapshot transition) })

def queue_pending (delegation_id : String) (transition : PendingDelegationTransition) :
    DelegationUpdateProjector :=
  { p with
    pending := p.pending.insert delegation_id
      (queued transition ((p.pending.lookup delegation_id).getD [])) }

/-- `apply_transition`, and `queue_pending` where there is no snapshot yet. -/
def apply_or_queue (delegation_id : String) (transition : PendingDelegationTransition) :
    Option DelegationUpdateNotification × DelegationUpdateProjector :=
  let r := p.apply_transition delegation_id transition
  if r.1 then (r.2.snapshots.lookup delegation_id, r.2)
  else (none, r.2.queue_pending delegation_id transition)

def finish (delegation_id : String) (timestamp : ℤ) (state : DelegationUpdateState)
    (result_summary error : Option String) :
    Option DelegationUpdateNotification × DelegationUpdateProjector :=
  p.apply_or_queue delegation_id (.Finished timestamp state result_summary error)

/-- A request: a snapshot, with what waited for it. -/
def request (session_id : String) (timestamp : ℤ) (delegation : Delegation)
    (tool_call_id : Option String) :
    Option DelegationUpdateNotification × DelegationUpdateProjector :=
  match p.snapshots.lookup delegation.public_id with
  | some snapshot =>
      let snapshot :=
        if snapshot.tool_call_id.isNone then { snapshot with tool_call_id } else snapshot
      (some snapshot, { p with snapshots := p.snapshots.insert delegation.public_id snapshot })
  | none =>
      let snapshot := requested session_id timestamp delegation tool_call_id
      let p := { p with snapshots := p.snapshots.insert delegation.public_id snapshot }
      let p :=
        match p.pending.lookup delegation.public_id with
        | none => p
        | some transitions =>
            (sort_by_timestamp transitions).foldl
              (fun p transition => (p.apply_transition delegation.public_id transition).2)
              { p with pending := p.pending.erase delegation.public_id }
      (p.snapshots.lookup delegation.public_id, p)

def project (session_id : String) (timestamp : ℤ) :
    AgentEventKind → Option DelegationUpdateNotification × DelegationUpdateProjector
  | .DelegationRequested delegation tool_call_id =>
      p.request session_id timestamp delegation tool_call_id
  | .SessionForked parent_session_id child_session_id .Delegation fork_point_ref =>
      p.apply_or_queue fork_point_ref (.Forked parent_session_id child_session_id timestamp)
  | .DelegationCompleted delegation_id result =>
      p.finish delegation_id timestamp .Completed (result.map bounded_summary) none
  | .DelegationFailed delegation_id error =>
      p.finish delegation_id timestamp .Failed none (some (bounded_summary error))
  | .DelegationCancelled delegation_id => p.finish delegation_id timestamp .Cancelled none none
  | _ => (none, p)

def project_event (event : AgentEvent) :
    Option DelegationUpdateNotification × DelegationUpdateProjector :=
  p.project event.session_id event.timestamp event.kind

end DelegationUpdateProjector

/-- By the time of the request, then by the id. -/
def earlier (left right : DelegationUpdateNotification) : Prop :=
  left.requested_at < right.requested_at ∨
    left.requested_at = right.requested_at ∧ left.delegation_id ≤ right.delegation_id

instance : DecidableRel earlier := fun _ _ =>
  inferInstanceAs (Decidable (_ < _ ∨ _ = _ ∧ _ ≤ _))

section

variable (order : DrainOrder String DelegationUpdateNotification)

/-- `snapshots`: the values of the map, in the order of their hashes, sorted. -/
def DelegationUpdateProjector.sorted_snapshots (p : DelegationUpdateProjector) :
    List DelegationUpdateNotification :=
  ((order.drain p.snapshots).map Sigma.snd).insertionSort earlier

def projected (events : List AgentEvent) : DelegationUpdateProjector :=
  events.foldl (fun p event => (p.project_event event).2) ⟨∅, ∅⟩

def delegation_updates_from_events (events : List AgentEvent) :
    List DelegationUpdateNotification :=
  (projected events).sorted_snapshots order

end

/-! ## 2. A delegation and its events -/

structure Fork where
  session_id : String
  parent_session_id : String
  child_session_id : String
  timestamp : ℤ
  deriving DecidableEq

inductive Outcome where
  | Completed (result : Option String)
  | Failed (error : String)
  | Cancelled
  deriving DecidableEq

namespace Outcome

def state : Outcome → DelegationUpdateState
  | Completed _ => .Completed
  | Failed _ => .Failed
  | Cancelled => .Cancelled

def result_summary : Outcome → Option String
  | Completed result => result.map bounded_summary
  | _ => none

def error : Outcome → Option String
  | Failed error => some (bounded_summary error)
  | _ => none

def kind (delegation_id : String) : Outcome → AgentEventKind
  | Completed result => .DelegationCompleted delegation_id result
  | Failed error => .DelegationFailed delegation_id error
  | Cancelled => .DelegationCancelled delegation_id

end Outcome

structure Terminal where
  session_id : String
  timestamp : ℤ
  outcome : Outcome
  deriving DecidableEq

/-- What happened to one delegation: a request, at most one fork, and terminal events at
distinct times, none before what it follows. -/
structure Lifecycle where
  session_id : String
  requested_at : ℤ
  delegation : Delegation
  tool_call_id : Option String
  fork : Option Fork
  terminals : List Terminal
  fork_after : ∀ f, fork = some f → requested_at ≤ f.timestamp
  terminal_after : ∀ t ∈ terminals, requested_at ≤ t.timestamp ∧
    ∀ f, fork = some f → f.timestamp ≤ t.timestamp
  distinct_times : (terminals.map Terminal.timestamp).Nodup

namespace Lifecycle

variable (lc : Lifecycle)

def id : String := lc.delegation.public_id

def request_event : AgentEvent :=
  ⟨lc.requested_at, lc.session_id, .DelegationRequested lc.delegation lc.tool_call_id⟩

def fork_event (f : Fork) : AgentEvent :=
  ⟨f.timestamp, f.session_id,
    .SessionForked f.parent_session_id f.child_session_id .Delegation lc.id⟩

def terminal_event (t : Terminal) : AgentEvent :=
  ⟨t.timestamp, t.session_id, t.outcome.kind lc.id⟩

def events : List AgentEvent :=
  lc.request_event :: (lc.fork.toList.map lc.fork_event ++ lc.terminals.map lc.terminal_event)

/-- The snapshot when a fork, and a terminal event, are known. -/
def told (f : Option Fork) (t : Option Terminal) : DelegationUpdateNotification where
  version := 1
  session_id := f.elim lc.session_id Fork.parent_session_id
  delegation_id := lc.id
  tool_call_id := lc.tool_call_id
  state := t.elim (f.elim .Requested fun _ => .Forked) fun t => t.outcome.state
  target_agent_id := lc.delegation.target_agent_id
  objective := lc.delegation.objective
  child_session_id := f.map Fork.child_session_id
  requested_at := lc.requested_at
  forked_at := f.map Fork.timestamp
  finished_at := t.map Terminal.timestamp
  updated_at := t.elim (f.elim lc.requested_at Fork.timestamp) Terminal.timestamp
  result_summary := t.bind fun t => t.outcome.result_summary
  error := t.bind fun t => t.outcome.error

/-- The earliest terminal event. -/
def earliest (terminals : List Terminal) : Option Terminal :=
  @List.argmin _ _ Int.instLinearOrder.toPreorder Int.decLt Terminal.timestamp terminals

/-- **The snapshot of a delegation**: of its terminal events the earliest counts. -/
def snapshot : DelegationUpdateNotification :=
  lc.told lc.fork (earliest lc.terminals)

end Lifecycle

/-- Delegations with different ids. -/
structure Lifecycles where
  lifecycles : List Lifecycle
  distinct : (lifecycles.map Lifecycle.id).Nodup

namespace Lifecycles

variable (ls : Lifecycles)

def events : List AgentEvent := ls.lifecycles.flatMap Lifecycle.events

/-- The snapshots of the delegations, in the order of their requests. -/
def snapshots : List DelegationUpdateNotification :=
  (ls.lifecycles.map Lifecycle.snapshot).insertionSort earlier

/-- A delivery of the events: in any order, each at least once. -/
def Delivered (delivered : List AgentEvent) : Prop := ∀ e, e ∈ delivered ↔ e ∈ ls.events

end Lifecycles

/-! ## 3. One delegation at a time -/

/-- The delegation that an event is about. -/
def AgentEvent.delegation_id (e : AgentEvent) : Option String :=
  match e.kind with
  | .DelegationRequested delegation _ => some delegation.public_id
  | .SessionForked _ _ .Delegation fork_point_ref => some fork_point_ref
  | .DelegationCompleted delegation_id _ => some delegation_id
  | .DelegationFailed delegation_id _ => some delegation_id
  | .DelegationCancelled delegation_id => some delegation_id
  | _ => none

def is_about (id : String) (e : AgentEvent) : Bool := decide (e.delegation_id = some id)

/-- What the projector holds of one delegation: a snapshot, or what waits for it. -/
structure Held where
  snapshot : Option DelegationUpdateNotification
  waiting : List PendingDelegationTransition

def DelegationUpdateProjector.held (p : DelegationUpdateProjector) (id : String) : Held :=
  ⟨p.snapshots.lookup id, (p.pending.lookup id).getD []⟩

namespace Held

def transition (h : Held) (t : PendingDelegationTransition) : Held :=
  match h.snapshot with
  | some snapshot => ⟨some (transitioned snapshot t), h.waiting⟩
  | none => ⟨none, queued t h.waiting⟩

def request (h : Held) (fresh : DelegationUpdateNotification) : Held :=
  match h.snapshot with
  | some snapshot =>
      ⟨some (if snapshot.tool_call_id.isNone then
        { snapshot with tool_call_id := fresh.tool_call_id } else snapshot), h.waiting⟩
  | none => ⟨some ((sort_by_timestamp h.waiting).foldl transitioned fresh), []⟩

/-- One event of the delegation. -/
def step (h : Held) (e : AgentEvent) : Held :=
  match e.kind with
  | .DelegationRequested delegation tool_call_id =>
      h.request (requested e.session_id e.timestamp delegation tool_call_id)
  | .SessionForked parent_session_id child_session_id .Delegation _ =>
      h.transition (.Forked parent_session_id child_session_id e.timestamp)
  | .DelegationCompleted _ result =>
      h.transition (.Finished e.timestamp .Completed (result.map bounded_summary) none)
  | .DelegationFailed _ error =>
      h.transition (.Finished e.timestamp .Failed none (some (bounded_summary error)))
  | .DelegationCancelled _ => h.transition (.Finished e.timestamp .Cancelled none none)
  | _ => h

end Held

section

variable {p : DelegationUpdateProjector} {id id' : String}

theorem held_apply_transition (t : PendingDelegationTransition)
    {snapshot : DelegationUpdateNotification} (h : p.snapshots.lookup id = some snapshot) :
    (p.apply_transition id t).1 = true ∧
      (p.apply_transition id t).2.held id =
        ⟨some (transitioned snapshot t), (p.held id).waiting⟩ ∧
      ∀ id', id' ≠ id → (p.apply_transition id t).2.held id' = p.held id' := by
  simp only [DelegationUpdateProjector.apply_transition, h]
  refine ⟨trivial, ?_, fun id' hne => ?_⟩
  · simp [DelegationUpdateProjector.held]
  · simp [DelegationUpdateProjector.held, AList.lookup_insert_ne hne]

theorem held_apply_or_queue (t : PendingDelegationTransition) :
    (p.apply_or_queue id t).2.held id = (p.held id).transition t ∧
      ∀ id', id' ≠ id → (p.apply_or_queue id t).2.held id' = p.held id' := by
  cases h : p.snapshots.lookup id with
  | some snapshot =>
      obtain ⟨happlied, hheld, hother⟩ := held_apply_transition t h
      rw [DelegationUpdateProjector.apply_or_queue]
      rw [if_pos happlied]
      refine ⟨?_, hother⟩
      rw [hheld]
      simp [Held.transition, DelegationUpdateProjector.held, h]
  | none =>
      have happly : p.apply_transition id t = (false, p) := by
        simp [DelegationUpdateProjector.apply_transition, h]
      rw [DelegationUpdateProjector.apply_or_queue, happly]
      refine ⟨?_, fun id' hne => ?_⟩
      · simp [Held.transition, DelegationUpdateProjector.held,
          DelegationUpdateProjector.queue_pending, h]
      · simp [DelegationUpdateProjector.held, DelegationUpdateProjector.queue_pending,
          AList.lookup_insert_ne hne]

/-- The transitions that waited, applied one after another. -/
theorem held_replay (transitions : List PendingDelegationTransition)
    {snapshot : DelegationUpdateNotification} (h : p.snapshots.lookup id = some snapshot) :
    (transitions.foldl (fun p t => (p.apply_transition id t).2) p).held id =
        ⟨some (transitions.foldl transitioned snapshot), (p.held id).waiting⟩ ∧
      ∀ id', id' ≠ id →
        (transitions.foldl (fun p t => (p.apply_transition id t).2) p).held id' = p.held id' := by
  induction transitions generalizing p snapshot with
  | nil => exact ⟨by simp [DelegationUpdateProjector.held, h], fun _ _ => rfl⟩
  | cons t transitions ih =>
      obtain ⟨-, hheld, hother⟩ := held_apply_transition t h
      have hlookup : (p.apply_transition id t).2.snapshots.lookup id =
          some (transitioned snapshot t) := congrArg Held.snapshot hheld
      obtain ⟨hrest, hrest'⟩ := ih hlookup
      rw [List.foldl_cons, List.foldl_cons]
      refine ⟨?_, fun id' hne => ?_⟩
      · rw [hrest, hheld]
      · rw [hrest' id' hne, hother id' hne]

theorem held_request (session_id : String) (timestamp : ℤ) (delegation : Delegation)
    (tool_call_id : Option String) :
    (p.request session_id timestamp delegation tool_call_id).2.held delegation.public_id =
        (p.held delegation.public_id).request
          (requested session_id timestamp delegation tool_call_id) ∧
      ∀ id', id' ≠ delegation.public_id →
        (p.request session_id timestamp delegation tool_call_id).2.held id' = p.held id' := by
  cases h : p.snapshots.lookup delegation.public_id with
  | some snapshot =>
      simp only [DelegationUpdateProjector.request, h]
      refine ⟨?_, fun id' hne => ?_⟩
      · simp [DelegationUpdateProjector.held, Held.request, h, requested]
      · simp [DelegationUpdateProjector.held, AList.lookup_insert_ne hne]
  | none =>
      simp only [DelegationUpdateProjector.request, h]
      cases hpending : p.pending.lookup delegation.public_id with
      | none =>
          refine ⟨?_, fun id' hne => ?_⟩
          · simp [DelegationUpdateProjector.held, Held.request, h, hpending, sort_by_timestamp]
          · simp [DelegationUpdateProjector.held, AList.lookup_insert_ne hne]
      | some transitions =>
          have hlookup : (⟨p.snapshots.insert delegation.public_id
                (requested session_id timestamp delegation tool_call_id),
              p.pending.erase delegation.public_id⟩ : DelegationUpdateProjector).snapshots.lookup
                delegation.public_id =
              some (requested session_id timestamp delegation tool_call_id) :=
            AList.lookup_insert _
          obtain ⟨hheld, hother⟩ := held_replay (sort_by_timestamp transitions) hlookup
          refine ⟨?_, fun id' hne => ?_⟩
          · dsimp only
            rw [hheld]
            simp [DelegationUpdateProjector.held, Held.request, h, hpending]
          · dsimp only
            rw [hother id' hne]
            simp [DelegationUpdateProjector.held, AList.lookup_insert_ne hne,
              AList.lookup_erase_ne hne]

/-- **One event** steps its own delegation, and no other. -/
theorem held_project_event (p : DelegationUpdateProjector) (e : AgentEvent) (id : String) :
    (p.project_event e).2.held id =
      if e.delegation_id = some id then (p.held id).step e else p.held id := by
  have hsettle : ∀ {r : DelegationUpdateProjector} {id₀ : String} {h : Held},
      r.held id₀ = h → (∀ id', id' ≠ id₀ → r.held id' = p.held id') →
      (id₀ = id → h = (p.held id).step e) →
      r.held id = if some id₀ = some id then (p.held id).step e else p.held id := by
    intro r id₀ h hown hother hstep
    by_cases hid : id₀ = id
    · subst hid
      rw [if_pos rfl, hown, hstep rfl]
    · rw [if_neg fun heq => hid (Option.some.inj heq)]
      exact hother id (Ne.symm hid)
  obtain ⟨timestamp, session_id, kind⟩ := e
  cases kind with
  | DelegationRequested delegation tool_call_id =>
      obtain ⟨hown, hother⟩ := @held_request p session_id timestamp delegation tool_call_id
      exact hsettle hown hother fun hid => by rw [hid]; rfl
  | SessionForked parent child origin ref =>
      cases origin with
      | User => rfl
      | Delegation =>
          obtain ⟨hown, hother⟩ := @held_apply_or_queue p ref (.Forked parent child timestamp)
          exact hsettle hown hother fun hid => by rw [hid]; rfl
  | DelegationCompleted ref result =>
      obtain ⟨hown, hother⟩ := @held_apply_or_queue p ref
        (.Finished timestamp .Completed (result.map bounded_summary) none)
      exact hsettle hown hother fun hid => by rw [hid]; rfl
  | DelegationFailed ref error =>
      obtain ⟨hown, hother⟩ := @held_apply_or_queue p ref
        (.Finished timestamp .Failed none (some (bounded_summary error)))
      exact hsettle hown hother fun hid => by rw [hid]; rfl
  | DelegationCancelled ref =>
      obtain ⟨hown, hother⟩ := @held_apply_or_queue p ref
        (.Finished timestamp .Cancelled none none)
      exact hsettle hown hother fun hid => by rw [hid]; rfl
  | Other => rfl

/-- **Any events**: a delegation sees those about it, in their order. -/
theorem held_projected (events : List AgentEvent) (id : String) :
    (projected events).held id =
      (events.filter (is_about id)).foldl Held.step ⟨none, []⟩ := by
  have hfrom : ∀ p : DelegationUpdateProjector,
      (events.foldl (fun p event => (p.project_event event).2) p).held id =
        (events.filter (is_about id)).foldl Held.step
          (p.held id) := by
    induction events with
    | nil => exact fun _ => rfl
    | cons e events ih =>
        intro p
        rw [List.foldl_cons, ih, held_project_event]
        by_cases hid : e.delegation_id = some id
        · have habout : is_about id e = true := decide_eq_true hid
          rw [if_pos hid, List.filter_cons_of_pos habout, List.foldl_cons]
        · rw [if_neg hid, List.filter_cons_of_neg (by rwa [is_about, decide_eq_true_iff])]
  exact hfrom ⟨∅, ∅⟩

end

/-! ## 4. What is known of a delegation -/

namespace Fork

def transition (f : Fork) : PendingDelegationTransition :=
  .Forked f.parent_session_id f.child_session_id f.timestamp

end Fork

namespace Terminal

def transition (t : Terminal) : PendingDelegationTransition :=
  .Finished t.timestamp t.outcome.state t.outcome.result_summary t.outcome.error

end Terminal

section

variable {lc : Lifecycle} {f : Option Fork} {F : Fork} {t t' : Option Terminal} {T : Terminal}

theorem step_request (h : Held) :
    h.step lc.request_event = h.request (lc.told none none) := rfl

theorem step_fork (h : Held) (F : Fork) : h.step (lc.fork_event F) = h.transition F.transition :=
  rfl

theorem step_terminal (h : Held) (T : Terminal) :
    h.step (lc.terminal_event T) = h.transition T.transition := by
  obtain ⟨session_id, timestamp, outcome⟩ := T
  cases outcome <;> rfl

theorem Outcome.state_is_terminal (o : Outcome) : o.state.is_terminal = true := by
  cases o <;> rfl

/-- The fork becomes known, once or again. -/
theorem told_fork (hF : lc.fork = some F) (hf : f = none ∨ f = some F)
    (ht : ∀ T, t = some T → F.timestamp ≤ T.timestamp) :
    transitioned (lc.told f t) F.transition = lc.told (some F) t := by
  have hafter := lc.fork_after F hF
  have hearly : ¬(F.timestamp < (lc.told f t).requested_at ∨
      (lc.told f t).finished_at.any (fun finished_at => finished_at < F.timestamp) = true) := by
    rintro (hlt | hany)
    · have hreq : (lc.told f t).requested_at = lc.requested_at := rfl
      omega
    · cases t with
      | none => cases hany
      | some T =>
          have hlt : T.timestamp < F.timestamp := of_decide_eq_true hany
          have hle := ht T rfl
          omega
  rw [Fork.transition, transitioned, if_neg hearly]
  have hmin : (match (lc.told f t).forked_at with
      | none => F.timestamp
      | some current => min current F.timestamp) = F.timestamp := by
    rcases hf with rfl | rfl
    · rfl
    · exact min_self _
  cases t with
  | some T =>
      have hterminal : (lc.told f (some T)).state.is_terminal = true :=
        Outcome.state_is_terminal T.outcome
      dsimp only
      rw [if_pos hterminal, hmin]
      rfl
  | none =>
      have hterminal : ¬(lc.told f none).state.is_terminal = true := by
        rcases hf with rfl | rfl <;> exact Bool.false_ne_true
      have hmax : max (lc.told f none).updated_at F.timestamp = F.timestamp := by
        apply max_eq_right
        rcases hf with rfl | rfl
        · exact hafter
        · exact le_refl _
      dsimp only
      rw [if_neg hterminal, hmin, hmax]
      rfl

/-- The first terminal event counts. -/
theorem told_terminal (hT : T ∈ lc.terminals) (hf : f = none ∨ f = lc.fork) :
    transitioned (lc.told f none) T.transition = lc.told f (some T) := by
  obtain ⟨hrequest, hfork⟩ := lc.terminal_after T hT
  have hstate : ¬(lc.told f none).state.is_terminal = true := by
    cases f <;> exact Bool.false_ne_true
  have hearly : ¬(T.timestamp < (lc.told f none).requested_at ∨
      (lc.told f none).state.is_terminal = true) := by
    rintro (hlt | hterminal)
    · have hreq : (lc.told f none).requested_at = lc.requested_at := rfl
      omega
    · exact hstate hterminal
  have hmax : max (lc.told f none).updated_at T.timestamp = T.timestamp := by
    apply max_eq_right
    cases f with
    | none => exact hrequest
    | some F => exact hfork F (hf.resolve_left (Option.some_ne_none F)).symm
  rw [Terminal.transition, transitioned, if_neg hearly, hmax]
  rfl

/-- After it, none does. -/
theorem transitioned_terminal {s : DelegationUpdateNotification} (hs : s.state.is_terminal = true)
    (T : Terminal) : transitioned s T.transition = s := by
  rw [Terminal.transition, transitioned, if_pos (.inr hs)]

/-- What is held of the delegation when a fork and a terminal event are known. -/
inductive Knows (lc : Lifecycle) (f : Option Fork) (t : Option Terminal) : Bool → Held → Prop where
  | waiting {q : List PendingDelegationTransition}
      (h : q.Perm (f.toList.map Fork.transition ++ t.toList.map Terminal.transition)) :
      Knows lc f t false ⟨none, q⟩
  | running {q : List PendingDelegationTransition} : Knows lc f t true ⟨some (lc.told f t), q⟩

theorem queued_of_none {x : PendingDelegationTransition} {q : List PendingDelegationTransition}
    (h : ∀ y ∈ q, y.same_kind x = false) : queued x q = q ++ [x] := by
  induction q with
  | nil => rfl
  | cons y q ih =>
      have hy := h y List.mem_cons_self
      rw [queued, if_neg (by rw [hy]; exact Bool.false_ne_true),
        ih fun z hz => h z (List.mem_cons_of_mem _ hz)]
      rfl

/-- One that waits already is not queued again. -/
theorem queued_of_mem {x : PendingDelegationTransition} {q : List PendingDelegationTransition}
    (hx : x ∈ q) (hkind : x.same_kind x = true) (h : ∀ y ∈ q, y.same_kind x = true → y = x) :
    queued x q = q := by
  induction q with
  | nil => cases hx
  | cons y q ih =>
      rw [queued]
      by_cases hy : y.same_kind x = true
      · have heq := h y List.mem_cons_self hy
        rw [if_pos hy, heq, if_neg (lt_irrefl _)]
      · rw [if_neg hy, ih ?_ fun z hz => h z (List.mem_cons_of_mem _ hz)]
        rcases List.mem_cons.1 hx with rfl | hx
        · exact absurd hkind hy
        · exact hx

/-- **A request**, in the midst of what waits for it or again. -/
theorem Knows.request {b : Bool} {h : Held} (hk : Knows lc f t b h)
    (hf : f = none ∨ f = lc.fork) (ht : ∀ T, t = some T → T ∈ lc.terminals) :
    Knows lc f t true (h.step lc.request_event) := by
  rw [step_request]
  cases hk with
  | running =>
      have htool : (if (lc.told f t).tool_call_id.isNone then
          { lc.told f t with tool_call_id := (lc.told none none).tool_call_id }
          else lc.told f t) = lc.told f t := by
        split <;> rfl
      simp only [Held.request, htool]
      exact .running
  | @waiting q hq =>
      have hreplay : (sort_by_timestamp q).foldl transitioned (lc.told none none) =
          lc.told f t := by
        have hsorted := (List.perm_insertionSort (fun a b : PendingDelegationTransition =>
          a.timestamp ≤ b.timestamp) q).trans hq
        change (sort_by_timestamp q).Perm _ at hsorted
        cases f with
        | none =>
            cases t with
            | none =>
                rw [hsorted.eq_nil]
                rfl
            | some T =>
                rw [List.perm_singleton.1 hsorted]
                exact told_terminal (ht T rfl) (.inl rfl)
        | some F =>
            have hF := (hf.resolve_left (Option.some_ne_none F)).symm
            have hfork : transitioned (lc.told none none) F.transition = lc.told (some F) none :=
              told_fork hF (.inl rfl) fun T hT => nomatch hT
            cases t with
            | none =>
                rw [List.perm_singleton.1 hsorted]
                exact hfork
            | some T =>
                have hT := ht T rfl
                rcases List.perm_pair.1 hsorted with heq | heq
                · rw [heq, List.foldl_cons, hfork, List.foldl_cons,
                    told_terminal hT (.inr hF.symm)]
                  rfl
                · -- the terminal event first, at the same time as the fork
                  rw [heq, List.foldl_cons, told_terminal hT (.inl rfl), List.foldl_cons,
                    told_fork hF (.inl rfl)]
                  · rfl
                  · intro T' hT'
                    obtain rfl := Option.some.inj hT'
                    exact (lc.terminal_after T hT).2 F hF
      simp only [Held.request, hreplay]
      exact .running

/-- **The fork**. -/
theorem Knows.fork {b : Bool} {h : Held} (hk : Knows lc f t b h) (hF : lc.fork = some F)
    (hf : f = none ∨ f = lc.fork) (ht : ∀ T, t = some T → T ∈ lc.terminals) :
    Knows lc (some F) t b (h.step (lc.fork_event F)) := by
  rw [hF] at hf
  rw [step_fork]
  cases hk with
  | running =>
      have htold := told_fork hF hf fun T hT => (lc.terminal_after T (ht T hT)).2 F hF
      simp only [Held.transition, htold]
      exact .running
  | @waiting q hq =>
      apply Knows.waiting
      rcases hf with rfl | rfl
      · rw [queued_of_none]
        · exact (List.perm_append_singleton _ _).trans (hq.cons _)
        · intro y hy
          have hmem := hq.subset hy
          cases t with
          | none => cases hmem
          | some T => rw [List.mem_singleton.1 hmem]; rfl
      · rw [queued_of_mem (hq.symm.subset List.mem_cons_self) rfl]
        · exact hq
        · intro y hy hkind
          rcases List.mem_cons.1 (hq.subset hy) with rfl | hmem
          · rfl
          · cases t with
            | none => cases hmem
            | some T =>
                rw [List.mem_singleton.1 hmem] at hkind
                cases hkind

/-- **The terminal event**, if there is one. -/
theorem Knows.terminal {b : Bool} {h : Held} (hk : Knows lc f t b h) (hT : T ∈ lc.terminals)
    (hf : f = none ∨ f = lc.fork) (ht : t = none ∨ t = some T) :
    Knows lc f (some T) b (h.step (lc.terminal_event T)) := by
  rw [step_terminal]
  cases hk with
  | running =>
      have htold : transitioned (lc.told f t) T.transition = lc.told f (some T) := by
        rcases ht with rfl | rfl
        · exact told_terminal hT hf
        · exact transitioned_terminal (Outcome.state_is_terminal T.outcome) T
      simp only [Held.transition, htold]
      exact .running
  | @waiting q hq =>
      apply Knows.waiting
      rcases ht with rfl | rfl
      · rw [queued_of_none]
        · rw [Option.toList_none, List.map_nil, List.append_nil] at hq
          exact hq.append_right _
        · intro y hy
          have hmem := hq.subset hy
          cases f with
          | none => cases hmem
          | some F => rw [List.mem_singleton.1 hmem]; rfl
      · have hlast : T.transition ∈
            f.toList.map Fork.transition ++ (some T).toList.map Terminal.transition :=
          List.mem_append_right _ List.mem_cons_self
        rw [queued_of_mem (hq.symm.subset hlast) rfl]
        · exact hq
        · intro y hy hkind
          rcases List.mem_append.1 (hq.subset hy) with hmem | hmem
          · cases f with
            | none => cases hmem
            | some F =>
                rw [List.mem_singleton.1 hmem] at hkind
                cases hkind
          · exact List.mem_singleton.1 hmem

end

/-! ## 5. All its events -/

section

variable {lc : Lifecycle}

theorem mem_events {e : AgentEvent} :
    e ∈ lc.events ↔ e = lc.request_event ∨ (∃ F, lc.fork = some F ∧ e = lc.fork_event F) ∨
      ∃ T ∈ lc.terminals, e = lc.terminal_event T := by
  rw [Lifecycle.events, List.mem_cons, List.mem_append, List.mem_map, List.mem_map]
  simp only [Option.mem_toList, eq_comm]

theorem delegation_id_of_mem {e : AgentEvent} (he : e ∈ lc.events) :
    e.delegation_id = some lc.id := by
  rcases mem_events.1 he with rfl | ⟨F, -, rfl⟩ | ⟨T, -, rfl⟩
  · rfl
  · rfl
  · obtain ⟨session_id, timestamp, outcome⟩ := T
    cases outcome <;> rfl

/-- What is known after some of its events, if at most one of them is terminal. -/
theorem knows_after (hone : lc.terminals.length ≤ 1) {l : List AgentEvent}
    (hl : ∀ e ∈ l, e ∈ lc.events) :
    ∃ f t b, Knows lc f t b (l.foldl Held.step ⟨none, []⟩) ∧
      (f = none ∨ f = lc.fork) ∧ (∀ T, t = some T → T ∈ lc.terminals) ∧
      (lc.request_event ∈ l → b = true) ∧
      (∀ F, lc.fork = some F → lc.fork_event F ∈ l → f = some F) ∧
      ∀ T ∈ lc.terminals, lc.terminal_event T ∈ l → t = some T := by
  have hsame : ∀ {T T'}, T ∈ lc.terminals → T' ∈ lc.terminals → T = T' := by
    intro T T' hT hT'
    match hterminals : lc.terminals, hone with
    | [], _ => rw [hterminals] at hT; cases hT
    | [x], _ =>
        rw [hterminals] at hT hT'
        rw [List.mem_singleton.1 hT, List.mem_singleton.1 hT']
  have hdiffer : ∀ T, lc.terminal_event T ≠ lc.request_event ∧
      ∀ F, lc.terminal_event T ≠ lc.fork_event F := by
    rintro ⟨session_id, timestamp, outcome⟩
    cases outcome <;> exact ⟨fun h => (nomatch congrArg AgentEvent.kind h),
      fun F h => (nomatch congrArg AgentEvent.kind h)⟩
  have hdiffer' : ∀ F, lc.fork_event F ≠ lc.request_event :=
    fun F h => nomatch congrArg AgentEvent.kind h
  induction l using List.reverseRecOn with
  | nil =>
      exact ⟨none, none, false, .waiting (List.Perm.refl _), .inl rfl, fun T hT => (nomatch hT),
        fun h => (nomatch h), fun F _ h => (nomatch h), fun T _ h => (nomatch h)⟩
  | append_singleton l e ih =>
      obtain ⟨f, t, b, hk, hf, ht, hrequest, hfork, hterminal⟩ :=
        ih fun e he => hl e (List.mem_append_left _ he)
      rw [List.foldl_append, List.foldl_cons, List.foldl_nil]
      rcases mem_events.1 (hl e (List.mem_append_right _ List.mem_cons_self)) with
        rfl | ⟨F, hF, rfl⟩ | ⟨T, hT, rfl⟩
      · refine ⟨f, t, true, hk.request hf ht, hf, ht, fun _ => rfl, ?_, ?_⟩
        · intro F hF hmem
          apply hfork F hF
          rcases List.mem_append.1 hmem with hmem | hmem
          · exact hmem
          · exact absurd (List.mem_singleton.1 hmem) (hdiffer' F)
        · intro T hT hmem
          apply hterminal T hT
          rcases List.mem_append.1 hmem with hmem | hmem
          · exact hmem
          · exact absurd (List.mem_singleton.1 hmem) (hdiffer T).1
      · refine ⟨some F, t, b, hk.fork hF hf ht, .inr hF.symm, ht, ?_, ?_, ?_⟩
        · intro hmem
          apply hrequest
          rcases List.mem_append.1 hmem with hmem | hmem
          · exact hmem
          · exact absurd (List.mem_singleton.1 hmem).symm (hdiffer' F)
        · intro F' hF' _
          rw [← hF, hF']
        · intro T hT hmem
          apply hterminal T hT
          rcases List.mem_append.1 hmem with hmem | hmem
          · exact hmem
          · exact absurd (List.mem_singleton.1 hmem) ((hdiffer T).2 F)
      · have hnone : t = none ∨ t = some T := by
          cases t with
          | none => exact .inl rfl
          | some T' => exact .inr (congrArg some (hsame (ht T' rfl) hT))
        refine ⟨f, some T, b, hk.terminal hT hf hnone, hf, ?_, ?_, ?_, ?_⟩
        · intro T' hT'
          rwa [← Option.some.inj hT']
        · intro hmem
          apply hrequest
          rcases List.mem_append.1 hmem with hmem | hmem
          · exact hmem
          · exact absurd (List.mem_singleton.1 hmem).symm (hdiffer T).1
        · intro F hF hmem
          apply hfork F hF
          rcases List.mem_append.1 hmem with hmem | hmem
          · exact hmem
          · exact absurd (List.mem_singleton.1 hmem).symm ((hdiffer T).2 F)
        · intro T' hT' _
          rw [hsame hT' hT]

/-- **One delegation, told in any order.** -/
theorem held_of_one_terminal (hone : lc.terminals.length ≤ 1) {l : List AgentEvent}
    (hl : ∀ e, e ∈ l ↔ e ∈ lc.events) :
    (l.foldl Held.step ⟨none, []⟩).snapshot = some lc.snapshot := by
  obtain ⟨f, t, b, hk, hf, ht, hrequest, hfork, hterminal⟩ :=
    knows_after hone fun e he => (hl e).1 he
  have hb := hrequest ((hl _).2 (mem_events.2 (.inl rfl)))
  have hf' : f = lc.fork := by
    rcases hf with rfl | hf
    · cases hF : lc.fork with
      | none => rfl
      | some F => exact hfork F hF ((hl _).2 (mem_events.2 (.inr (.inl ⟨F, hF, rfl⟩))))
    · exact hf
  have ht' : t = Lifecycle.earliest lc.terminals := by
    match hterminals : lc.terminals, hone with
    | [], _ =>
        cases t with
        | none => rfl
        | some T =>
            have hT := ht T rfl
            rw [hterminals] at hT
            cases hT
    | [T], _ =>
        have hT : T ∈ lc.terminals := by rw [hterminals]; exact List.mem_cons_self
        exact hterminal T hT ((hl _).2 (mem_events.2 (.inr (.inr ⟨T, hT, rfl⟩))))
  rw [hb, hf', ht'] at hk
  generalize l.foldl Held.step ⟨none, []⟩ = h at hk
  cases hk
  rfl

/-- A finished delegation stays finished when it was. -/
theorem finished_stays {h : Held} {s : DelegationUpdateNotification} (hs : h.snapshot = some s)
    (hterminal : s.state.is_terminal = true) (l : List AgentEvent) :
    ∃ s', (l.foldl Held.step h).snapshot = some s' ∧ s'.finished_at = s.finished_at ∧
      s'.delegation_id = s.delegation_id := by
  have htransition : ∀ (s : DelegationUpdateNotification) (x : PendingDelegationTransition),
      s.state.is_terminal = true →
      (transitioned s x).state.is_terminal = true ∧
        (transitioned s x).finished_at = s.finished_at ∧
        (transitioned s x).delegation_id = s.delegation_id := by
    intro s x hs
    cases x with
    | Forked session_id child timestamp =>
        rw [transitioned]
        split
        · exact ⟨hs, rfl, rfl⟩
        · dsimp only
          rw [if_pos hs]
          exact ⟨hs, rfl, rfl⟩
    | Finished timestamp state summary error =>
        rw [transitioned, if_pos (.inr hs)]
        exact ⟨hs, rfl, rfl⟩
  have hheld : ∀ (h : Held) (x : PendingDelegationTransition) (s : DelegationUpdateNotification),
      h.snapshot = some s → (h.transition x).snapshot = some (transitioned s x) := by
    intro h x s hs
    simp [Held.transition, hs]
  have hstep : ∀ (h : Held) (e : AgentEvent) (s : DelegationUpdateNotification),
      h.snapshot = some s → s.state.is_terminal = true →
      ∃ s', (h.step e).snapshot = some s' ∧ s'.state.is_terminal = true ∧
        s'.finished_at = s.finished_at ∧ s'.delegation_id = s.delegation_id := by
    rintro h ⟨timestamp, session_id, kind⟩ s hs hterminal
    cases kind with
    | DelegationRequested delegation tool_call_id =>
        simp only [Held.step, Held.request, hs]
        refine ⟨_, rfl, ?_⟩
        split <;> exact ⟨hterminal, rfl, rfl⟩
    | SessionForked parent child origin ref =>
        cases origin with
        | User => exact ⟨s, hs, hterminal, rfl, rfl⟩
        | Delegation => exact ⟨_, hheld h _ s hs, htransition s _ hterminal⟩
    | DelegationCompleted ref result => exact ⟨_, hheld h _ s hs, htransition s _ hterminal⟩
    | DelegationFailed ref error => exact ⟨_, hheld h _ s hs, htransition s _ hterminal⟩
    | DelegationCancelled ref => exact ⟨_, hheld h _ s hs, htransition s _ hterminal⟩
    | Other => exact ⟨s, hs, hterminal, rfl, rfl⟩
  induction l generalizing h s with
  | nil => exact ⟨s, hs, rfl, rfl⟩
  | cons e l ih =>
      obtain ⟨s₁, hs₁, hterminal₁, hfinished₁, hid₁⟩ := hstep h e s hs hterminal
      obtain ⟨s₂, hs₂, hfinished₂, hid₂⟩ := ih hs₁ hterminal₁
      exact ⟨s₂, hs₂, hfinished₂.trans hfinished₁, hid₂.trans hid₁⟩

end

/-! ## 6. All delegations -/

section

variable {ls : Lifecycles} {delivered : List AgentEvent}

theorem lifecycle_unique {lc lc' : Lifecycle} (h : lc ∈ ls.lifecycles) (h' : lc' ∈ ls.lifecycles)
    (hid : lc.id = lc'.id) : lc = lc' :=
  List.inj_on_of_nodup_map ls.distinct h h' hid

/-- The events of a delivery that are about a delegation are its events. -/
theorem mem_about {lc : Lifecycle} (hlc : lc ∈ ls.lifecycles) (h : ls.Delivered delivered)
    (e : AgentEvent) :
    e ∈ delivered.filter (is_about lc.id) ↔ e ∈ lc.events := by
  rw [List.mem_filter, h e, Lifecycles.events, List.mem_flatMap, is_about, decide_eq_true_iff]
  constructor
  · rintro ⟨⟨lc', hlc', he⟩, hid⟩
    rw [delegation_id_of_mem he] at hid
    rwa [lifecycle_unique hlc hlc' (Option.some.inj hid).symm]
  · exact fun he => ⟨⟨lc, hlc, he⟩, delegation_id_of_mem he⟩

theorem lookup_projected (delivered : List AgentEvent) (id : String) :
    (projected delivered).snapshots.lookup id =
      ((delivered.filter (is_about id)).foldl Held.step
        ⟨none, []⟩).snapshot :=
  congrArg Held.snapshot (held_projected delivered id)

instance : IsTrans DelegationUpdateNotification earlier where
  trans := by
    rintro a b c (hab | ⟨hab, hab'⟩) (hbc | ⟨hbc, hbc'⟩)
    · exact .inl (hab.trans hbc)
    · exact .inl (hbc ▸ hab)
    · exact .inl (hab ▸ hbc)
    · exact .inr ⟨hab.trans hbc, hab'.trans hbc'⟩

instance : Std.Total (α := DelegationUpdateNotification) earlier where
  total := by
    intro a b
    rcases lt_trichotomy a.requested_at b.requested_at with h | h | h
    · exact .inl (.inl h)
    · rcases le_total a.delegation_id b.delegation_id with h' | h'
      · exact .inl (.inr ⟨h, h'⟩)
      · exact .inr (.inr ⟨h.symm, h'⟩)
    · exact .inr (.inl h)

/-- **If** no delegation has two terminal events. -/
theorem updates_of_one_terminal (order : DrainOrder String DelegationUpdateNotification)
    (hone : ∀ lc ∈ ls.lifecycles, lc.terminals.length ≤ 1) (h : ls.Delivered delivered) :
    delegation_updates_from_events order delivered = ls.snapshots := by
  have hsnapshots : ∀ lc ∈ ls.lifecycles,
      (projected delivered).snapshots.lookup lc.id = some lc.snapshot := by
    intro lc hlc
    rw [lookup_projected]
    exact held_of_one_terminal (hone lc hlc) (mem_about hlc h)
  have hnone : ∀ id, id ∉ ls.lifecycles.map Lifecycle.id →
      (projected delivered).snapshots.lookup id = none := by
    intro id hid
    have hempty : (delivered.filter (is_about id)) = [] := by
      rw [List.filter_eq_nil_iff]
      intro e he habout
      rw [h e, Lifecycles.events, List.mem_flatMap] at he
      obtain ⟨lc, hlc, he⟩ := he
      have habout := of_decide_eq_true habout
      rw [delegation_id_of_mem he] at habout
      exact hid (List.mem_map.2 ⟨lc, hlc, Option.some.inj habout⟩)
    rw [lookup_projected, hempty]
    rfl
  have hperm : (order.drain (projected delivered).snapshots).Perm
      (ls.lifecycles.map fun lc => (⟨lc.id, lc.snapshot⟩ :
        Σ _ : String, DelegationUpdateNotification)) := by
    refine (order.perm _).trans (List.lookup_ext (projected delivered).snapshots.nodupKeys ?_ ?_)
    · rw [List.NodupKeys, List.keys, List.map_map]
      exact ls.distinct
    · intro id s
      have hnodup : (ls.lifecycles.map fun lc => (⟨lc.id, lc.snapshot⟩ :
          Σ _ : String, DelegationUpdateNotification)).NodupKeys := by
        rw [List.NodupKeys, List.keys, List.map_map]
        exact ls.distinct
      change s ∈ (projected delivered).snapshots.lookup id ↔ _
      rw [List.mem_dlookup_iff hnodup, List.mem_map]
      constructor
      · intro hs
        by_cases hid : id ∈ ls.lifecycles.map Lifecycle.id
        · obtain ⟨lc, hlc, rfl⟩ := List.mem_map.1 hid
          rw [hsnapshots lc hlc] at hs
          exact ⟨lc, hlc, by rw [Option.some.inj hs]⟩
        · rw [hnone id hid] at hs
          cases hs
      · rintro ⟨lc, hlc, heq⟩
        cases heq
        exact hsnapshots lc hlc
  have hvalues := hperm.map Sigma.snd
  rw [List.map_map] at hvalues
  have hsorted := ((List.perm_insertionSort earlier _).trans hvalues).trans
    (List.perm_insertionSort earlier (ls.lifecycles.map Lifecycle.snapshot)).symm
  -- the order is strict on snapshots of different delegations
  apply @List.Perm.eq_of_pairwise _ earlier _ _ _ (List.pairwise_insertionSort _ _)
    (List.pairwise_insertionSort _ _) hsorted
  intro a b ha hb hab hba
  rw [hsorted.mem_iff, List.mem_insertionSort, List.mem_map] at ha
  rw [List.mem_insertionSort, List.mem_map] at hb
  obtain ⟨lc, hlc, rfl⟩ := ha
  obtain ⟨lc', hlc', rfl⟩ := hb
  have hid : lc.id = lc'.id := by
    rcases hab with hab | ⟨hab, hab'⟩
    · rcases hba with hba | ⟨hba, -⟩
      · exact absurd (hab.trans hba) (lt_irrefl _)
      · exact absurd hab (by rw [hba]; exact lt_irrefl _)
    · rcases hba with hba | ⟨-, hba'⟩
      · exact absurd hba (by rw [hab]; exact lt_irrefl _)
      · exact le_antisymm hab' hba'
  rw [lifecycle_unique hlc hlc' hid]

/-- **Only if**: of two terminal events, the later in time may be delivered first. -/
theorem one_terminal_of_updates (order : DrainOrder String DelegationUpdateNotification)
    (h : ∀ delivered, ls.Delivered delivered →
      delegation_updates_from_events order delivered = ls.snapshots) :
    ∀ lc ∈ ls.lifecycles, lc.terminals.length ≤ 1 := by
  intro lc hlc
  by_contra hmany
  -- a terminal event that is not the earliest
  obtain ⟨T, hT, hlate⟩ : ∃ T ∈ lc.terminals,
      Lifecycle.earliest lc.terminals ≠ none ∧
        (Lifecycle.earliest lc.terminals).map Terminal.timestamp ≠ some T.timestamp := by
    match hterminals : lc.terminals with
    | [] => rw [hterminals] at hmany; exact absurd (Nat.zero_le _) hmany
    | [_] => rw [hterminals] at hmany; exact absurd (Nat.le_refl _) hmany
    | T₁ :: T₂ :: rest =>
        have hdistinct := lc.distinct_times
        rw [hterminals, List.map_cons, List.map_cons, List.nodup_cons] at hdistinct
        have hne : T₁.timestamp ≠ T₂.timestamp := fun heq =>
          hdistinct.1 (heq ▸ List.mem_cons_self)
        have hsome : Lifecycle.earliest (T₁ :: T₂ :: rest) ≠ none :=
          fun hnone => absurd (List.argmin_eq_none.1 hnone) (List.cons_ne_nil _ _)
        by_cases hfirst : (Lifecycle.earliest (T₁ :: T₂ :: rest)).map Terminal.timestamp =
            some T₁.timestamp
        · refine ⟨T₂, List.mem_cons_of_mem _ List.mem_cons_self, hsome, ?_⟩
          rw [hfirst]
          exact fun heq => hne (Option.some.inj heq)
        · exact ⟨T₁, List.mem_cons_self, hsome, hfirst⟩
  have hrequest : lc.request_event ∈ ls.events :=
    List.mem_flatMap.2 ⟨lc, hlc, mem_events.2 (.inl rfl)⟩
  have hterminal : lc.terminal_event T ∈ ls.events :=
    List.mem_flatMap.2 ⟨lc, hlc, mem_events.2 (.inr (.inr ⟨T, hT, rfl⟩))⟩
  have hdelivered : ls.Delivered (lc.request_event :: lc.terminal_event T :: ls.events) := by
    intro e
    rw [List.mem_cons, List.mem_cons]
    constructor
    · rintro (rfl | rfl | he)
      · exact hrequest
      · exact hterminal
      · exact he
    · exact fun he => .inr (.inr he)
  have hupdates := h _ hdelivered
  -- its snapshot is finished by that event
  have habout : ∀ e ∈ lc.events, is_about lc.id e = true := fun e he =>
    decide_eq_true (delegation_id_of_mem he)
  obtain ⟨s, hs, hfinished, hid⟩ : ∃ s,
      (projected (lc.request_event :: lc.terminal_event T :: ls.events)).snapshots.lookup lc.id =
        some s ∧ s.finished_at = some T.timestamp ∧ s.delegation_id = lc.id := by
    rw [lookup_projected, List.filter_cons_of_pos (habout _ (mem_events.2 (.inl rfl))),
      List.filter_cons_of_pos (habout _ (mem_events.2 (.inr (.inr ⟨T, hT, rfl⟩)))),
      List.foldl_cons, List.foldl_cons]
    have hfirst : ((Held.step ⟨none, []⟩ lc.request_event).step (lc.terminal_event T)).snapshot =
        some (lc.told none (some T)) := by
      rw [step_request, step_terminal]
      exact congrArg some (told_terminal hT (.inl rfl))
    exact finished_stays hfirst (Outcome.state_is_terminal T.outcome) _
  have hmem : s ∈ delegation_updates_from_events order
      (lc.request_event :: lc.terminal_event T :: ls.events) := by
    rw [delegation_updates_from_events, DelegationUpdateProjector.sorted_snapshots,
      List.mem_insertionSort, List.mem_map]
    exact ⟨⟨lc.id, s⟩, (order.perm _).mem_iff.2 (AList.mem_lookup_iff.1 hs), rfl⟩
  rw [hupdates, Lifecycles.snapshots, List.mem_insertionSort, List.mem_map] at hmem
  obtain ⟨lc', hlc', rfl⟩ := hmem
  rw [lifecycle_unique hlc' hlc hid] at hfinished
  exact hlate.2 hfinished

end

/-- **Independent of the order, exactly**: every delivery of the events, in any order and with
any repetitions, gives the snapshots of the delegations if and only if no delegation has two
terminal events. -/
theorem order_independent_iff (order : DrainOrder String DelegationUpdateNotification)
    (ls : Lifecycles) :
    (∀ delivered, ls.Delivered delivered →
        delegation_updates_from_events order delivered = ls.snapshots) ↔
      ∀ lc ∈ ls.lifecycles, lc.terminals.length ≤ 1 :=
  ⟨one_terminal_of_updates order, fun hone _ h => updates_of_one_terminal order hone h⟩

/-- A delegation that failed, and was cancelled later. -/
def cancelled_late : Lifecycles where
  lifecycles := [⟨"parent", 1, ⟨"d", "coder", "Implement it"⟩, none, none,
    [⟨"parent", 2, .Failed "lost"⟩, ⟨"parent", 3, .Cancelled⟩],
    fun f hf => (nomatch hf), by decide, by decide⟩]
  distinct := by decide

/-- The cancellation is delivered first, and counts. -/
theorem late_terminal_counts :
    cancelled_late.Delivered
        [⟨1, "parent", .DelegationRequested ⟨"d", "coder", "Implement it"⟩ none⟩,
          ⟨3, "parent", .DelegationCancelled "d"⟩, ⟨2, "parent", .DelegationFailed "d" "lost"⟩] ∧
      delegation_updates_from_events falling
          [⟨1, "parent", .DelegationRequested ⟨"d", "coder", "Implement it"⟩ none⟩,
            ⟨3, "parent", .DelegationCancelled "d"⟩, ⟨2, "parent", .DelegationFailed "d" "lost"⟩] ≠
        cancelled_late.snapshots := by
  refine ⟨?_, ?_⟩
  · intro e
    simp [cancelled_late, Lifecycles.events, Lifecycle.events, Lifecycle.request_event,
      Lifecycle.terminal_event, Lifecycle.id, Outcome.kind]
    tauto
  · decide +kernel

end Querymt.DelegationUpdates
