/-
`Dashboard/Delegations.lean` -- what an event list says about its delegations.

An event list of a session is read as a list of actions: a tool call is made or answered, a
delegation is requested, forked or finished. Which tool call issued a delegation is known to the
agent that runs the session, but is not in the event list (`issuer`). The view of a tool call is
what its group should show: the delegation that it issued, with its status, end and child session.
-/
import Querymt.Dashboard.ChatView
import Querymt.Library.Histories

set_option autoImplicit false

open Histories

namespace Querymt.ChatView

/-! ## 1. Actions -/

inductive Action where
  | Called (key : String)
  | Delegated (key : String) (target_agent_id : Option String)
  | Answered (key : String) (failed : Bool)
  | Requested (delegation_id target_agent_id : String)
  | Forked (delegation_id child_session_id : String)
  | Finished (delegation_id : String) (failed : Bool) (time : ℤ)
  deriving DecidableEq

namespace EventItem

variable (event : EventItem)

def requests : List Action :=
  match event.delegation_of .requested, truthy event.delegation_target_agent_id with
  | some delegation_id, some agent_id => [.Requested delegation_id agent_id]
  | _, _ => []

def forks : List Action :=
  match truthy event.fork_child_session_id, truthy event.fork_delegation_id with
  | some child_session_id, some delegation_id => [.Forked delegation_id child_session_id]
  | _, _ => []

def ends (type : DelegationEventType) (failed : Bool) : List Action :=
  match event.delegation_of type with
  | some delegation_id => [.Finished delegation_id failed event.timestamp]
  | none => []

def call : Action :=
  if event.is_delegate_tool_call then
    .Delegated event.tool_call_key (truthy event.get_delegate_target_agent_id)
  else .Called event.tool_call_key

def answers : List Action :=
  match truthy event.tool_call_id with
  | some key => [.Answered key event.is_failed]
  | none => []

def delegation_actions : List Action :=
  event.requests ++ event.forks ++ event.ends .completed false ++ event.ends .failed true

/-- What an event says about the delegations; a system event says nothing. -/
def actions : List Action :=
  match event.type with
  | .system => []
  | .tool_call => event.delegation_actions ++ [event.call]
  | .tool_result => event.delegation_actions ++ event.answers
  | .user => event.delegation_actions
  | .agent => event.delegation_actions

end EventItem

def actions (events : List EventItem) : List Action := events.flatMap EventItem.actions

/-- The key of a tool call, a delegate tool call or any other. -/
def Action.called : Action → Option String
  | Called key => some key
  | Delegated key _ => some key
  | _ => none

def Action.delegated : Action → Option String
  | Delegated key _ => some key
  | _ => none

/-- The key of a delegate tool call to an agent. -/
def Action.called_for (agent_id : String) : Action → Option String
  | Delegated key target_agent_id => if target_agent_id = some agent_id then some key else none
  | _ => none

def Action.answered : Action → Option String
  | Answered key _ => some key
  | _ => none

def Action.requested : Action → Option String
  | Requested delegation_id _ => some delegation_id
  | _ => none

def Action.requested_for (agent_id : String) : Action → Option String
  | Requested delegation_id target_agent_id =>
      if target_agent_id = agent_id then some delegation_id else none
  | _ => none

def calls (h : List Action) : List String := h.filterMap Action.called

def delegate_calls (h : List Action) : List String := h.filterMap Action.delegated

def calls_to (agent_id : String) (h : List Action) : List String :=
  h.filterMap (Action.called_for agent_id)

def answered (h : List Action) : List String := h.filterMap Action.answered

def requested (h : List Action) : List String := h.filterMap Action.requested

def requested_of (agent_id : String) (h : List Action) : List String :=
  h.filterMap (Action.requested_for agent_id)

/-! ## 2. The view of a tool call -/

/-- What the group of a tool call shows. -/
structure CallView where
  delegation_id : Option String
  status : Status
  end_time : Option ℤ
  child_session_id : Option String

def CallView.new : CallView := ⟨none, .in_progress, none, none⟩

section

variable (issuer : String → String)

/-- The view changes with the actions about the call and about the delegation that it issued. -/
def CallView.step (key : String) (view : CallView) : Action → CallView
  | .Requested delegation_id _ =>
      if issuer delegation_id = key then { view with delegation_id := some delegation_id } else view
  | .Forked delegation_id child_session_id =>
      if view.delegation_id = some delegation_id then
        { view with child_session_id := some child_session_id }
      else view
  | .Finished delegation_id failed time =>
      if view.delegation_id = some delegation_id then
        { view with
          end_time := some time
          status :=
            if failed then .failed
            else if view.status = .in_progress then .completed else view.status }
      else view
  | .Answered key' failed => if key' = key ∧ failed then { view with status := .failed } else view
  | .Called _ => view
  | .Delegated _ _ => view

def view_of (key : String) (h : List Action) : CallView :=
  h.foldl (CallView.step issuer key) CallView.new

/-! ## 3. The sessions -/

/-- The delegation that is forked or finished. -/
def Action.mentions : Action → Option String
  | Forked delegation_id _ => some delegation_id
  | Finished delegation_id _ _ => some delegation_id
  | _ => none

/-- **An event list of a session**: every delegate tool call is answered by a failure without a
delegation, or followed by its own request; the requests to one agent come in the order of their
calls. Ids are distinct, and a delegation is forked and finished after its request. -/
structure Session (events : List EventItem) : Prop where
  named : ∀ event ∈ events, event.type ≠ .system → (event.delegation_of .requested).isSome →
    truthy event.delegation_target_agent_id ≠ none
  keys_named : "" ∉ calls (actions events)
  keys_distinct : (calls (actions events)).Nodup
  answered_once : (answered (actions events)).Nodup
  requested_once : (requested (actions events)).Nodup
  issued : Throughout (fun before a => ∀ delegation_id agent_id,
    a = .Requested delegation_id agent_id →
      ((requested_of agent_id (before ++ [a])).map issuer).Sublist (calls_to agent_id before))
    (actions events)
  settled : ∀ key ∈ delegate_calls (actions events),
    key ∈ (requested (actions events)).map issuer ∨ .Answered key true ∈ actions events
  started : Throughout (fun before a => ∀ delegation_id, a.mentions = some delegation_id →
    delegation_id ∉ calls (actions events) ∧
      (delegation_id ∈ requested (actions events) → delegation_id ∈ requested before))
    (actions events)

/-- A delegation to an agent that has been requested and has not finished. -/
def Unfinished (agent_id delegation_id : String) (h : List Action) : Prop :=
  .Requested delegation_id agent_id ∈ h ∧ ∀ failed time, .Finished delegation_id failed time ∉ h

/-- The event gets a row: a system event has a summary, and a result comes before its call. -/
def Shown (before : List EventItem) (event : EventItem) : Prop :=
  match event.type with
  | .system => truthy event.compaction_summary ≠ none
  | .tool_result => ∀ key, truthy event.tool_call_id = some key → key ∉ calls (actions before)
  | _ => True

/-- An agent with an unfinished delegation has an event that is shown. -/
def Works (before : List EventItem) (event : EventItem) (agent_id : String) : Prop :=
  event.agent_id = some agent_id ∧ Shown before event ∧
    ∃ delegation_id, Unfinished agent_id delegation_id (actions (before ++ [event]))

/-! ## 4. The law -/

variable (infer_tool_name : EventItem → Option String)

/-- The group of the tool call that issued a delegation has what the delegation says. -/
def Attached (events : List EventItem) (delegation_id : String) : Prop :=
  ∃ group, (build_event_rows_with_delegations infer_tool_name events).delegation_groups
      (issuer delegation_id) = some group ∧
    group.delegation_id = some delegation_id ∧
    group.status = (view_of issuer (issuer delegation_id) (actions events)).status ∧
    group.end_time = (view_of issuer (issuer delegation_id) (actions events)).end_time ∧
    group.child_session_id =
      (view_of issuer (issuer delegation_id) (actions events)).child_session_id

/-- The row of an event is in the group of an unfinished delegation to its agent. -/
def Placed (events before : List EventItem) (event : EventItem) (agent_id : String) : Prop :=
  ∃ delegation_id, Unfinished agent_id delegation_id (actions (before ++ [event])) ∧
    (∃ row, (build_event_rows_with_delegations infer_tool_name events).rows[
        (build_event_rows_with_delegations infer_tool_name before).rows.length]? = some row ∧
      row.event = event ∧ row.delegation_group_id = some (issuer delegation_id) ∧
      row.is_hidden = true) ∧
    ∃ group, (build_event_rows_with_delegations infer_tool_name events).delegation_groups
        (issuer delegation_id) = some group ∧
      event ∈ group.events.map EventRow.event

/-- **Each delegation is shown under its own tool call.** -/
structure ShowsDelegations (events : List EventItem) : Prop where
  attached : ∀ delegation_id ∈ requested (actions events),
    Attached issuer infer_tool_name events delegation_id
  only : ∀ key group, (build_event_rows_with_delegations infer_tool_name events).delegation_groups
      key = some group → ∀ delegation_id, group.delegation_id = some delegation_id →
    delegation_id ∈ requested (actions events) ∧ issuer delegation_id = key
  placed : Throughout (fun before event => ∀ agent_id, Works before event agent_id →
    Placed issuer infer_tool_name events before event agent_id) events
  unmixed : ∀ session_thinking_agent_id,
    ((build_turns infer_tool_name events session_thinking_agent_id).turns.flatMap Turn.rows).Subset
      ((build_event_rows_with_delegations infer_tool_name events).rows.filter
        fun row => !row.is_hidden)

/-! ## 5. The condition -/

/-- No delegation to the agent has finished since the last request to it. -/
def NoneFinishedSince (agent_id : String) (h : List Action) : Prop :=
  ∃ before delegation_id after, h = before ++ .Requested delegation_id agent_id :: after ∧
    ∀ finished failed time, .Finished finished failed time ∈ after →
      .Requested finished agent_id ∉ h

/-- **The condition**: no refused call to an agent before one that issues a delegation to it, and
an agent that works on a delegation neither delegates nor is compacted, nor has one of its
delegations finished since the last one was requested. -/
structure Separable (events : List EventItem) : Prop where
  none_refused : ∀ agent_id, (calls_to agent_id (actions events)).Pairwise fun earlier later =>
    later ∈ (requested (actions events)).map issuer →
      earlier ∈ (requested (actions events)).map issuer
  apart : Throughout (fun before event => ∀ agent_id, Works before event agent_id →
    event.type ≠ .system ∧ ¬ (event.type = .tool_call ∧ event.is_delegate_tool_call = true) ∧
      NoneFinishedSince agent_id (actions (before ++ [event]))) events

end

end Querymt.ChatView
