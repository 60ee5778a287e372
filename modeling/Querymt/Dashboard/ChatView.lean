/-
`Dashboard/ChatView.lean` -- the rows, delegations and turns that the dashboard shows.

Mirrors `buildEventRowsWithDelegations` and `buildTurns` (`ui/src/logic/chatViewLogic.ts`). The
events of a session become rows in one pass. A delegation is asked for by a tool call of the kind
`delegate`; the event `requested` that follows does not name this call, so the calls wait in a
queue for each agent, and what an agent does goes to the one delegation that is active for it.

Absent values and the empty string are both false in a condition (`truthy`). The name of a tool,
which is read from its id and its description, is an arbitrary function of the event.
-/
import Mathlib

set_option autoImplicit false

namespace Querymt.ChatView

/-! ## 1. Events -/

inductive EventType where
  | user
  | agent
  | tool_call
  | tool_result
  | system
  deriving DecidableEq

/-- The status of a tool call, and of a delegation. -/
inductive Status where
  | in_progress
  | completed
  | failed
  deriving DecidableEq

/-- The input of a tool call, as far as a delegation reads it; not an object has no fields. -/
structure RawInput where
  target_agent_id : Option String
  targetAgentId : Option String
  objective : Option String
  deriving DecidableEq

structure ToolCall where
  tool_call_id : Option String
  kind : Option String
  status : Option Status
  raw_input : Option RawInput
  deriving DecidableEq

inductive DelegationEventType where
  | requested
  | completed
  | failed
  deriving DecidableEq

structure EventItem where
  id : String
  agent_id : Option String := none
  type : EventType
  content : String := ""
  timestamp : ℤ
  is_message : Bool := false
  is_stream_delta : Bool := false
  tool_call : Option ToolCall := none
  delegation_id : Option String := none
  delegation_target_agent_id : Option String := none
  delegation_objective : Option String := none
  delegation_event_type : Option DelegationEventType := none
  fork_child_session_id : Option String := none
  fork_delegation_id : Option String := none
  provider : Option String := none
  model : Option String := none
  config_id : Option ℤ := none
  compaction_token_estimate : Option ℤ := none
  compaction_summary : Option String := none
  compaction_summary_len : Option ℤ := none
  deriving DecidableEq

structure EventRow where
  event : EventItem
  depth : ℕ
  parent_id : Option String
  tool_name : Option String
  merged_result : Option EventItem
  is_delegate_tool_call : Bool
  delegation_group_id : Option String

def EventRow.with_result (result : EventItem) (row : EventRow) : EventRow :=
  { row with merged_result := some result }

structure DelegationGroupInfo where
  id : String
  delegate_tool_call_id : String
  delegate_event : EventRow
  delegation_id : Option String
  target_agent_id : Option String
  objective : Option String
  agent_id : Option String
  child_session_id : Option String
  events : List EventRow
  status : Status
  start_time : ℤ
  end_time : Option ℤ

/-- A string that is true in a condition. -/
def truthy (s : Option String) : Option String := s.filter (· ≠ "")

namespace EventItem

variable (event : EventItem)

def get_delegate_target_agent_id : Option String :=
  (event.tool_call.bind ToolCall.raw_input).bind fun raw_input =>
    raw_input.target_agent_id.or raw_input.targetAgentId

def tool_call_id : Option String := event.tool_call.bind ToolCall.tool_call_id

/-- The key of a tool call. -/
def tool_call_key : String := event.tool_call_id.getD event.id

def is_delegate_tool_call : Bool :=
  event.tool_call.any fun tool_call => decide (tool_call.kind = some "delegate")

def is_failed : Bool :=
  event.tool_call.any fun tool_call => decide (tool_call.status = some .failed)

/-- The delegation of an event of this type. -/
def delegation_of (type : DelegationEventType) : Option String :=
  if event.delegation_event_type = some type then truthy event.delegation_id else none

end EventItem

/-! ## 2. The state of the pass -/

structure ToolCallEntry where
  event_id : String
  depth : ℕ
  row_index : ℕ

/-- The maps are functions; the groups keep the order of their keys. -/
structure State where
  rows : List EventRow
  group_keys : List String
  delegation_groups : String → Option DelegationGroupInfo
  depth_map : String → Option ℕ
  tool_call_map : String → Option ToolCallEntry
  pending_tool_results_by_id : String → Option EventItem
  current_agent_id : Option String
  pending_delegations_by_agent : String → List String
  delegation_id_to_tool_call : String → Option String
  active_delegation_by_agent : String → Option String

def State.new : State where
  rows := []
  group_keys := []
  delegation_groups := fun _ => none
  depth_map := fun _ => none
  tool_call_map := fun _ => none
  pending_tool_results_by_id := fun _ => none
  current_agent_id := none
  pending_delegations_by_agent := fun _ => []
  delegation_id_to_tool_call := fun _ => none
  active_delegation_by_agent := fun _ => none

namespace State

variable (s : State)

def modify_group (key : String) (f : DelegationGroupInfo → DelegationGroupInfo) : State :=
  { s with
    delegation_groups :=
      Function.update s.delegation_groups key ((s.delegation_groups key).map f) }

def add_pending_delegation (agent_id tool_call_id : String) : State :=
  { s with
    pending_delegations_by_agent :=
      Function.update s.pending_delegations_by_agent agent_id
        (s.pending_delegations_by_agent agent_id ++ [tool_call_id]) }

/-- The first call that waits for the agent, and the queue without it. -/
def take_pending_delegation (agent_id : String) : Option String × State :=
  ((s.pending_delegations_by_agent agent_id).head?,
    { s with
      pending_delegations_by_agent :=
        Function.update s.pending_delegations_by_agent agent_id
          (s.pending_delegations_by_agent agent_id).tail })

/-- The group of a delegation before anything is known of it. -/
def new_group (tool_call_id : String) (fallback_event : EventItem) : DelegationGroupInfo where
  id := tool_call_id
  delegate_tool_call_id := tool_call_id
  delegate_event :=
    { event :=
        { fallback_event with
          type := .tool_call
          content := if fallback_event.content = "" then "delegate" else fallback_event.content
          tool_call := fallback_event.tool_call.or
            (some ⟨none, some "delegate", some .in_progress, none⟩) }
      depth := 1
      parent_id := none
      tool_name := none
      merged_result := none
      is_delegate_tool_call := true
      delegation_group_id := some tool_call_id }
  delegation_id := none
  target_agent_id := none
  objective := none
  agent_id := none
  child_session_id := none
  events := []
  status := .in_progress
  start_time := fallback_event.timestamp
  end_time := none

def ensure_delegation_group (tool_call_id : String) (fallback_event : EventItem) : State :=
  match s.delegation_groups tool_call_id with
  | some _ => s
  | none =>
      { s with
        group_keys := s.group_keys ++ [tool_call_id]
        delegation_groups :=
          Function.update s.delegation_groups tool_call_id
            (some (new_group tool_call_id fallback_event)) }

/-! ## 3. The events of a delegation -/

/-- The call that a request takes, if it names an agent. -/
def take_for (target_agent_id : Option String) : Option String × State :=
  match truthy target_agent_id with
  | some agent_id => s.take_pending_delegation agent_id
  | none => (none, s)

def map_delegation (delegation_id delegation_key : String) : State :=
  { s with
    delegation_id_to_tool_call :=
      Function.update s.delegation_id_to_tool_call delegation_id (some delegation_key) }

def set_active (target_agent_id delegation_key : Option String) : State :=
  match truthy target_agent_id with
  | some agent_id =>
      { s with
        active_delegation_by_agent :=
          Function.update s.active_delegation_by_agent agent_id delegation_key }
  | none => s

def on_requested (event : EventItem) : State :=
  match event.delegation_of .requested with
  | none => s
  | some delegation_id =>
      let target_agent_id := event.delegation_target_agent_id
      let taken := s.take_for target_agent_id
      let delegation_key := taken.1.getD delegation_id
      let s := (taken.2.map_delegation delegation_id delegation_key).ensure_delegation_group
        delegation_key event
      let s := s.modify_group delegation_key fun group =>
        { group with
          delegation_id := some delegation_id
          target_agent_id := target_agent_id.or group.target_agent_id
          objective := event.delegation_objective.or group.objective
          start_time := event.timestamp }
      s.set_active target_agent_id (some delegation_key)

def on_forked (event : EventItem) : State :=
  match truthy event.fork_child_session_id, truthy event.fork_delegation_id with
  | some child_session_id, some delegation_id =>
      s.modify_group ((s.delegation_id_to_tool_call delegation_id).getD delegation_id)
        fun group => { group with child_session_id := some child_session_id }
  | _, _ => s

/-- The end of a delegation: its time and status, and the agent has no active one any more. -/
def on_finished (type : DelegationEventType) (finished : Status → Status) (event : EventItem) :
    State :=
  match event.delegation_of type with
  | none => s
  | some delegation_id =>
      let delegation_key := (s.delegation_id_to_tool_call delegation_id).getD delegation_id
      match s.delegation_groups delegation_key with
      | none => s
      | some group =>
          let s := s.modify_group delegation_key fun group =>
            { group with end_time := some event.timestamp, status := finished group.status }
          s.set_active group.target_agent_id none

def on_completed (event : EventItem) : State :=
  s.on_finished .completed (fun status => if status = .in_progress then .completed else status)
    event

def on_failed (event : EventItem) : State := s.on_finished .failed (fun _ => .failed) event

/-- The group that an event of an agent goes to. -/
def active_delegation_key (event : EventItem) : Option String :=
  (truthy event.agent_id).bind fun agent_id => truthy (s.active_delegation_by_agent agent_id)

/-! ## 4. The row of an event -/

/-- `group.events.push`; a group takes the name of the first agent in it. -/
def push_to_group (key : String) (names_agent : Bool) (row : EventRow) : State :=
  s.modify_group key fun group =>
    { group with
      events := group.events ++ [row]
      agent_id :=
        if names_agent ∧ truthy row.event.agent_id ≠ none ∧ truthy group.agent_id = none then
          row.event.agent_id
        else group.agent_id }

def push_to_active (active : Option String) (names_agent : Bool) (row : EventRow) : State :=
  match active with
  | some group_id => s.push_to_group group_id names_agent row
  | none => s

/-- The call of a delegation gets a result; a failure is the status of the group. -/
def merge_delegate_result (key : String) (result : EventItem) : State :=
  s.modify_group key fun group =>
    { group with
      delegate_event := group.delegate_event.with_result result
      status := if result.is_failed then .failed else group.status }

/-- The copy of the row of a call in its group gets a result. -/
def merge_group_result (group_id key : String) (result : EventItem) : State :=
  s.modify_group group_id fun group =>
    { group with
      events := group.events.modify
        (group.events.findIdx fun row => decide (row.event.tool_call_id = some key))
        (EventRow.with_result result) }

/-- The row at an index gets a result, and so do its copies in the groups. -/
def attach_result (key : String) (row_index : ℕ) (result : EventItem) : State :=
  let group_id := (s.rows[row_index]?).bind fun row => truthy row.delegation_group_id
  let s := { s with rows := s.rows.modify row_index (EventRow.with_result result) }
  let s := s.merge_delegate_result key result
  match group_id with
  | none => s
  | some group_id => s.merge_group_result group_id key result

variable (infer_tool_name : EventItem → Option String)

/-- A delegate tool call waits for the request, if it names an agent. -/
def queue_delegation (target_agent_id : Option String) (key : String) : State :=
  match truthy target_agent_id with
  | some agent_id => s.add_pending_delegation agent_id key
  | none => s

/-- A delegate tool call opens its group. -/
def open_delegation (key : String) (event : EventItem) (row : EventRow) : State :=
  let target_agent_id := event.get_delegate_target_agent_id
  let s := s.queue_delegation target_agent_id key
  (s.ensure_delegation_group key event).modify_group key fun group =>
    { group with
      target_agent_id := target_agent_id.or group.target_agent_id
      objective := (group.objective.or ((event.tool_call.bind ToolCall.raw_input).bind
        RawInput.objective)).or event.delegation_objective
      delegate_event := row }

def push_row (row : EventRow) : State :=
  { s with
    depth_map := Function.update s.depth_map row.event.id (some row.depth)
    rows := s.rows ++ [row] }

/-- A result that came before its call. -/
def attach_pending_result (key : String) : State :=
  match (truthy (some key)).bind s.pending_tool_results_by_id with
  | none => s
  | some result =>
      { s with
        pending_tool_results_by_id := Function.update s.pending_tool_results_by_id key none
        }.attach_result key (s.rows.length - 1) result

def call_row (event : EventItem) : EventRow :=
  let active := s.active_delegation_key event
  let delegation_parent := active.bind fun group_id =>
    (s.tool_call_map group_id).map ToolCallEntry.event_id
  let parent_candidate := delegation_parent.or s.current_agent_id
  let parent_depth := ((truthy parent_candidate).bind s.depth_map).getD 0
  { event := event
    depth := parent_depth + 1
    parent_id := parent_candidate
    tool_name := infer_tool_name event
    merged_result := none
    is_delegate_tool_call := event.is_delegate_tool_call
    delegation_group_id := if event.is_delegate_tool_call then some event.tool_call_key else active }

def on_tool_call (event : EventItem) : State :=
  let active := s.active_delegation_key event
  let key := event.tool_call_key
  let row := s.call_row infer_tool_name event
  let s :=
    { s with
      tool_call_map :=
        Function.update s.tool_call_map key (some ⟨event.id, row.depth, s.rows.length⟩) }
  let s :=
    if event.is_delegate_tool_call then s.open_delegation key event row
    else s.push_to_active active true row
  (s.push_row row).attach_pending_result key

/-- The row of a result whose call has not come. -/
def result_row (event : EventItem) : EventRow where
  event := event
  depth :=
    match truthy s.current_agent_id with
    | some agent_id => (s.depth_map agent_id).getD 0 + 1
    | none => 1
  parent_id := truthy s.current_agent_id
  tool_name := none
  merged_result := none
  is_delegate_tool_call := false
  delegation_group_id := s.active_delegation_key event

def on_tool_result (event : EventItem) : State :=
  match (truthy event.tool_call_id).bind fun key => (s.tool_call_map key).map fun e => (key, e) with
  | some (key, tool_parent) =>
      let s := s.attach_result key tool_parent.row_index event
      { s with
        pending_tool_results_by_id := Function.update s.pending_tool_results_by_id key none }
  | none =>
      let row := s.result_row event
      let active := s.active_delegation_key event
      let s :=
        match truthy event.tool_call_id with
        | some key =>
            { s with
              pending_tool_results_by_id :=
                Function.update s.pending_tool_results_by_id key (some event) }
        | none => s
      (s.push_to_active active false row).push_row row

def message_row (event : EventItem) : EventRow :=
  let active := s.active_delegation_key event
  { event := event
    depth :=
      match active with
      | some group_id => ((s.tool_call_map group_id).map ToolCallEntry.depth).getD 1 + 1
      | none => 0
    parent_id := active.bind fun group_id => (s.tool_call_map group_id).map ToolCallEntry.event_id
    tool_name := none
    merged_result := none
    is_delegate_tool_call := false
    delegation_group_id := active }

/-- A user or agent event. -/
def on_message (event : EventItem) : State :=
  let row := s.message_row event
  let s := s.push_to_active (s.active_delegation_key event) true row
  let s :=
    { s with
      current_agent_id :=
        if event.type = EventType.agent ∧ event.is_message = true then some event.id
        else s.current_agent_id }
  s.push_row row

def on_system (event : EventItem) : State :=
  if truthy event.compaction_summary = none then s
  else s.push_row ⟨event, 0, none, none, none, false, none⟩

/-- What the delegation events say, before the event gets its row. -/
def on_delegation (event : EventItem) : State :=
  (((s.on_requested event).on_forked event).on_completed event).on_failed event

def on_event (event : EventItem) : State :=
  match event.type with
  | .system => s.on_system event
  | .tool_call => (s.on_delegation event).on_tool_call infer_tool_name event
  | .tool_result => (s.on_delegation event).on_tool_result event
  | .user => (s.on_delegation event).on_message event
  | .agent => (s.on_delegation event).on_message event

end State

section

variable (infer_tool_name : EventItem → Option String)

def build_event_rows_with_delegations (events : List EventItem) : State :=
  events.foldl (fun s event => s.on_event infer_tool_name event) State.new

end

/-! ## 5. Turns -/

structure ModelTimelineEntry where
  timestamp : ℤ
  config_id : Option ℤ
  label : String

def model_label (event : EventItem) : Option String :=
  (truthy event.provider).bind fun provider =>
    (truthy event.model).map fun model => provider ++ " / " ++ model

def build_model_timeline (events : List EventItem) : List ModelTimelineEntry :=
  events.filterMap fun event =>
    (model_label event).map fun label => ⟨event.timestamp, event.config_id, label⟩

def get_active_model_at (timeline : List ModelTimelineEntry) (timestamp : ℤ) :
    Option ModelTimelineEntry :=
  (timeline.takeWhile fun entry => decide (entry.timestamp ≤ timestamp)).getLast?

def has_multiple_models (timeline : List ModelTimelineEntry) : Bool :=
  decide (1 < (timeline.map ModelTimelineEntry.label).dedup.length)

structure TurnCompaction where
  token_estimate : ℤ
  summary : String
  summary_len : ℤ
  timestamp : ℤ

structure Turn where
  id : String
  user_message : Option EventRow
  agent_messages : List EventRow
  tool_calls : List EventRow
  delegations : List DelegationGroupInfo
  agent_id : Option String
  start_time : ℤ
  end_time : Option ℤ
  is_active : Bool
  model_label : Option String
  model_config_id : Option ℤ
  compaction : Option TurnCompaction

/-- A row that stays with its delegation. -/
def EventRow.is_hidden (row : EventRow) : Bool :=
  decide (truthy row.delegation_group_id ≠ none) && !row.is_delegate_tool_call

def EventRow.is_agent_message (row : EventRow) : Bool :=
  decide (row.event.type = .agent) && (row.event.is_message || row.event.is_stream_delta)

/-- The rows that a turn shows. -/
def Turn.rows (turn : Turn) : List EventRow :=
  turn.user_message.toList ++ turn.agent_messages ++ turn.tool_calls

structure TurnsState where
  turns : List Turn
  current_turn : Option Turn
  turn_counter : ℕ

section

variable (timeline : List ModelTimelineEntry)
  (delegation_groups : String → Option DelegationGroupInfo)

/-- A turn that starts with a row. -/
def start_turn (turn_counter : ℕ) (row : EventRow) : Turn :=
  let active_model := get_active_model_at timeline row.event.timestamp
  { id := "turn-" ++ toString turn_counter
    user_message := none
    agent_messages := []
    tool_calls := []
    delegations := []
    agent_id := none
    start_time := row.event.timestamp
    end_time := none
    is_active := true
    model_label := active_model.map ModelTimelineEntry.label
    model_config_id := active_model.bind ModelTimelineEntry.config_id
    compaction := none }

/-- A turn ends at the next one, unless it has an end that is not zero. -/
def close_turn (timestamp : ℤ) (turn : Turn) : Turn :=
  { turn with
    end_time := if turn.end_time.getD 0 = 0 then some timestamp else turn.end_time
    is_active := false }

/-- A row of the current turn that starts no new one. -/
def add_to_turn (turn : Turn) (row : EventRow) : Turn :=
  let turn :=
    if row.is_agent_message then
      { turn with
        agent_messages := turn.agent_messages ++ [row]
        agent_id :=
          if truthy turn.agent_id = none ∧ truthy row.event.agent_id ≠ none then row.event.agent_id
          else turn.agent_id
        end_time := some row.event.timestamp }
    else if row.event.type = .tool_call then
      { turn with
        tool_calls := turn.tool_calls ++ [row]
        delegations := turn.delegations ++
          if row.is_delegate_tool_call then
            ((truthy row.delegation_group_id).bind delegation_groups).toList
          else []
        end_time := some row.event.timestamp }
    else if row.event.type = .tool_result then { turn with end_time := some row.event.timestamp }
    else turn
  match model_label row.event with
  | some label =>
      { turn with model_label := some label, model_config_id := row.event.config_id }
  | none => turn

def add_row (s : TurnsState) (row : EventRow) : TurnsState :=
  if row.is_hidden then s
  else if row.event.type = .user then
    { turns := s.turns ++ (s.current_turn.map (close_turn row.event.timestamp)).toList
      current_turn := some { start_turn timeline s.turn_counter row with user_message := some row }
      turn_counter := s.turn_counter + 1 }
  else
    match s.current_turn with
    | some turn => { s with current_turn := some (add_to_turn delegation_groups turn row) }
    | none =>
        if row.is_agent_message then
          { s with
            current_turn := some
              { start_turn timeline s.turn_counter row with
                agent_messages := [row]
                agent_id := row.event.agent_id
                end_time := some row.event.timestamp }
            turn_counter := s.turn_counter + 1 }
        else s

end

/-- `String.prototype.length` counts the units of UTF-16. -/
def js_length (s : String) : ℕ :=
  (s.toList.map fun c => if c.toNat < 0x10000 then 1 else 2).sum

/-- The compaction of a system event that has a summary. -/
def compaction_of (event : EventItem) : Option TurnCompaction :=
  if event.type = .system then
    (truthy event.compaction_summary).map fun summary =>
      { token_estimate := event.compaction_token_estimate.getD 0
        summary := summary
        summary_len := event.compaction_summary_len.getD (js_length summary)
        timestamp := event.timestamp }
  else none

/-- The last turn that started before a compaction gets it, unless it has one. -/
def attach_compaction (turns : List Turn) (compaction : TurnCompaction) : List Turn :=
  let later := turns.reverse.findIdx fun turn => decide (turn.start_time ≤ compaction.timestamp)
  if later < turns.length then
    turns.modify (turns.length - 1 - later) fun turn =>
      { turn with compaction := turn.compaction.or (some compaction) }
  else turns

structure TurnsResult where
  turns : List Turn
  all_event_rows : List EventRow
  has_multiple_models : Bool
  delegations : List DelegationGroupInfo

def build_turns (infer_tool_name : EventItem → Option String) (events : List EventItem)
    (session_thinking_agent_id : Option String) : TurnsResult :=
  let built := build_event_rows_with_delegations infer_tool_name events
  let timeline := build_model_timeline events
  let s := built.rows.foldl (add_row timeline built.delegation_groups) ⟨[], none, 0⟩
  let turns := s.turns ++ (s.current_turn.map fun turn =>
    { turn with is_active := session_thinking_agent_id.isSome }).toList
  { turns := (events.filterMap compaction_of).foldl attach_compaction turns
    all_event_rows := built.rows
    has_multiple_models := has_multiple_models timeline
    delegations := (built.group_keys.filterMap built.delegation_groups).insertionSort
      fun group other => group.start_time ≤ other.start_time }

end Querymt.ChatView
