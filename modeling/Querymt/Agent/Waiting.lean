/-
`Agent/Waiting.lean` -- waiting for delegations.

Mirrors `transition_waiting_for_event` (`agent/execution/wait.rs`): the two loops, for
the first result (`Any`) and for all of them (`All`), over what the `select!` of an
iteration yields. A `HashSet` is a `Finset` here; the order in which it is iterated, which
only the report of a timeout shows, is a parameter (`HashOrder`).

The report of an `All` wait is built from items, one line each. An item carries the id
it is about next to its text: a result is free text, and the lines of a report cannot
be told apart by reading it.
-/
import Querymt.Agent.Context

set_option autoImplicit false

namespace Querymt.Agent

/-! ## 1. Events -/

inductive DelegationWaitPolicy where
  | All
  | Any
  deriving DecidableEq

/-- The events a wait looks at. -/
inductive WaitEventKind where
  | DelegationCompleted (delegation_id : String) (result : Option String)
  | DelegationFailed (delegation_id error : String)
  | DelegationCancelled (delegation_id : String)
  | Other
  deriving DecidableEq

structure EventEnvelope where
  session_id : String
  kind : WaitEventKind
  deriving DecidableEq

inductive WaitEventOutcome where
  | Completed (delegation_id : String) (result : Option String)
  | Failed (delegation_id error : String)
  | Cancelled (delegation_id : String)
  deriving DecidableEq

def WaitEventOutcome.delegation_id : WaitEventOutcome → String
  | .Completed delegation_id _ => delegation_id
  | .Failed delegation_id _ => delegation_id
  | .Cancelled delegation_id => delegation_id

/-- A wait without ids takes the events of every delegation. -/
def WaitCondition.covers (wait : WaitCondition) (delegation_id : String) : Bool :=
  wait.correlation_ids.isEmpty || decide (delegation_id ∈ wait.correlation_ids)

def match_wait_event (wait : WaitCondition) (event : EventEnvelope) : Option WaitEventOutcome :=
  match event.kind with
  | .DelegationCompleted delegation_id result =>
      if wait.covers delegation_id then some (.Completed delegation_id result) else none
  | .DelegationFailed delegation_id error =>
      if wait.covers delegation_id then some (.Failed delegation_id error) else none
  | .DelegationCancelled delegation_id =>
      if wait.covers delegation_id then some (.Cancelled delegation_id) else none
  | .Other => none

/-! ## 2. Reports -/

/-- `str::contains`. -/
def contains (text pattern : String) : Bool :=
  text.toList.tails.any fun rest => pattern.toList.isPrefixOf rest

def classify_delegation_error (error : String) : String × String :=
  if contains error "Invalid patch" || contains error "patch: ****" ||
      (contains error "Line" && contains error "mismatch") then
    ("Patch Application Failure",
      "The patch could not be applied to the file.\n" ++
      "-> Use read_tool to see the current state of the target file\n" ++
      "-> Verify the lines you want to change actually exist as shown in the file\n" ++
      "-> Create a new patch with correct context lines matching the actual file")
  else if contains error "Verification failed" || contains error "cargo check" ||
      contains error "compilation" then
    ("Verification Failure",
      "The code change was applied but does not compile or pass tests.\n" ++
      "-> Read the verification error output carefully\n" ++
      "-> Understand what is wrong with the code\n" ++
      "-> Fix the compilation/test errors with another delegation")
  else if contains error "workdir" || contains error "does not exist" then
    ("Invalid Working Directory",
      "The specified path or directory does not exist.\n" ++
      "-> Do NOT specify workdir parameter in patches\n" ++
      "-> Patches apply relative to current directory by default\n" ++
      "-> Verify file paths are correct")
  else if contains error "MAX RETRIES" || contains error "retry" then
    ("Too Many Retries",
      "This delegation has been attempted multiple times and keeps failing.\n" ++
      "-> The current approach is not working\n" ++
      "-> Try a completely different strategy\n" ++
      "-> Break down the task into smaller, simpler steps\n" ++
      "-> Consider delegating to a different agent")
  else
    ("Unknown Error",
      "Review the error details above carefully.\n" ++
      "-> Look for clues about what went wrong\n" ++
      "-> Consider trying a different approach\n" ++
      "-> If the error is unclear, break the task into smaller steps")

def format_delegation_completion_message (delegation_id summary : String) : String :=
  "Delegation completed.\n\nDelegation ID: " ++ delegation_id ++ "\n\n" ++ summary ++ "\n\n" ++
  "Please review the changes and determine if:\n" ++
  "1. The task is complete and satisfactory\n" ++
  "2. Additional fixes or improvements are needed\n" ++
  "3. Further delegation is required"

def format_delegation_failure_message (delegation_id error : String) : String :=
  let (error_type, remediation) := classify_delegation_error error
  "Delegation failed.\n\nDelegation ID: " ++ delegation_id ++ "\n\n" ++
  "Error Type: " ++ error_type ++ "\nError Details:\n" ++ error ++ "\n\n" ++
  "Suggested Next Steps:\n" ++ remediation ++ "\n\n" ++
  "IMPORTANT: Do NOT immediately retry the same approach. " ++
  "Analyze the error and adjust your strategy."

def format_wait_outcome : WaitEventOutcome → String
  | .Completed delegation_id result =>
      format_delegation_completion_message delegation_id (result.getD "No summary provided.")
  | .Failed delegation_id error => format_delegation_failure_message delegation_id error
  | .Cancelled delegation_id => "Delegation cancelled.\n\nDelegation ID: " ++ delegation_id

/-- One line of a report, and the delegation it is about. -/
structure WaitItem where
  delegation_id : String
  text : String
  deriving DecidableEq

def format_wait_all_item (outcome : WaitEventOutcome) : WaitItem where
  delegation_id := outcome.delegation_id
  text :=
    match outcome with
    | .Completed delegation_id result =>
        "- " ++ delegation_id ++ ": completed (" ++ result.getD "No summary provided." ++ ")"
    | .Failed delegation_id error => "- " ++ delegation_id ++ ": failed (" ++ error ++ ")"
    | .Cancelled delegation_id => "- " ++ delegation_id ++ ": cancelled"

def timed_out_item (timeout_secs : ℕ) (delegation_id : String) : WaitItem where
  delegation_id := delegation_id
  text := "- " ++ delegation_id ++ ": timed out after " ++ toString timeout_secs ++
    "s of inactivity (cancel requested)"

def format_wait_all_summary (items : List WaitItem) : String :=
  "Delegation batch completed.\n\nResults:\n" ++
  String.join (items.map fun item => item.text ++ "\n") ++
  "\nPlease review outcomes and decide next actions."

/-! ## 3. The two loops -/

/-- The order in which a `HashSet` is iterated: some order of its elements, each once. -/
structure HashOrder where
  iter : Finset String → List String
  nodup : ∀ s, (iter s).Nodup
  mem : ∀ s id, id ∈ iter s ↔ id ∈ s

/-- What an iteration of the loop is woken by. -/
inductive WaitInput where
  | Cancelled
  | TimedOut
  | Event (event : EventEnvelope)
  /-- the receiver missed events -/
  | Lagged
  | Closed
  deriving DecidableEq

inductive WaitResult where
  | Cancelled
  | Closed
  /-- there was nothing to wait for -/
  | Unchanged
  /-- the message injected, and the items it reports -/
  | Resumed (items : List WaitItem) (message : String)
  deriving DecidableEq

/-- The loop of `Any`; `none` while it waits. It has no timer. -/
def wait_any (session_id : String) (wait : WaitCondition) : List WaitInput → Option WaitResult
  | [] => none
  | .Cancelled :: _ => some .Cancelled
  | .Closed :: _ => some .Closed
  | .TimedOut :: inputs => wait_any session_id wait inputs
  | .Lagged :: inputs => wait_any session_id wait inputs
  | .Event event :: inputs =>
      if event.session_id ≠ session_id then wait_any session_id wait inputs
      else
        match match_wait_event wait event with
        | some outcome =>
            some (.Resumed [format_wait_all_item outcome] (format_wait_outcome outcome))
        | none => wait_any session_id wait inputs

/-- The loop of `All`, with the delegations that are still pending and the outcomes so
far; a timeout of zero never fires. -/
def wait_all (order : HashOrder) (timeout_secs : ℕ) (session_id : String) (wait : WaitCondition) :
    Finset String → List WaitItem → List WaitInput → Option WaitResult
  | _, _, [] => none
  | _, _, .Cancelled :: _ => some .Cancelled
  | _, _, .Closed :: _ => some .Closed
  | pending, outcomes, .Lagged :: inputs =>
      wait_all order timeout_secs session_id wait pending outcomes inputs
  | pending, outcomes, .TimedOut :: inputs =>
      -- with a timeout of zero the branch of the timer is disabled
      if timeout_secs = 0 then wait_all order timeout_secs session_id wait pending outcomes inputs
      else
        -- the delegations that are left are cancelled, and reported as timed out
        let items := outcomes ++ (order.iter pending).map (timed_out_item timeout_secs)
        some (.Resumed items (format_wait_all_summary items))
  | pending, outcomes, .Event event :: inputs =>
      if event.session_id ≠ session_id then
        wait_all order timeout_secs session_id wait pending outcomes inputs
      else
        match match_wait_event wait event with
        | none => wait_all order timeout_secs session_id wait pending outcomes inputs
        | some outcome =>
            -- reported before, or not waited for
            if outcome.delegation_id ∉ pending then
              wait_all order timeout_secs session_id wait pending outcomes inputs
            else
              let pending := pending.erase outcome.delegation_id
              let outcomes := outcomes ++ [format_wait_all_item outcome]
              if pending = ∅ then some (.Resumed outcomes (format_wait_all_summary outcomes))
              else wait_all order timeout_secs session_id wait pending outcomes inputs

/-- `transition_waiting_for_event`, from the check of the token on. -/
def wait_for_event (policy : DelegationWaitPolicy) (order : HashOrder) (timeout_secs : ℕ)
    (session_id : String) (wait : WaitCondition) (cancelled : Bool) (inputs : List WaitInput) :
    Option WaitResult :=
  if cancelled then some .Cancelled
  else
    match policy with
    | .Any => wait_any session_id wait inputs
    | .All =>
        let pending := wait.correlation_ids.toFinset
        -- back to the model call without a message
        if pending = ∅ then some .Unchanged
        else wait_all order timeout_secs session_id wait pending [] inputs

/-- The outcome of a wait as an iteration of the machine learns it. -/
def WaitResult.outcome : WaitResult → WaitOutcome
  | .Cancelled => .Cancelled
  | .Closed => .Closed
  | .Unchanged => .Unchanged
  | .Resumed _ message => .Resumed message

/-! ## 4. What a wait is answered with -/

/-- The answer of a wait for all: exactly one item for each distinct id. -/
def AnswersAll (wait : WaitCondition) (items : List WaitItem) : Prop :=
  (items.map WaitItem.delegation_id).Perm wait.correlation_ids.dedup

instance (wait : WaitCondition) (items : List WaitItem) : Decidable (AnswersAll wait items) :=
  inferInstanceAs (Decidable (List.Perm _ _))

/-- The answer of a wait for the first: at least one item, and only of the ids. -/
def AnswersAny (wait : WaitCondition) (items : List WaitItem) : Prop :=
  items ≠ [] ∧ ∀ item ∈ items, item.delegation_id ∈ wait.correlation_ids

/-- An event of the session that answers the wait came in, with this outcome. -/
def Reported (session_id : String) (wait : WaitCondition) (inputs : List WaitInput)
    (outcome : WaitEventOutcome) : Prop :=
  ∃ event, .Event event ∈ inputs ∧ event.session_id = session_id ∧
    match_wait_event wait event = some outcome

/-- The lines of an injected report: each says what an event reported, or that the delegation
timed out. -/
def Lines (timeout_secs : ℕ) (session_id : String) (wait : WaitCondition)
    (inputs : List WaitInput) (items : List WaitItem) : Prop :=
  ∀ item ∈ items,
    (∃ outcome, Reported session_id wait inputs outcome ∧ item = format_wait_all_item outcome) ∨
    (.TimedOut ∈ inputs ∧ item = timed_out_item timeout_secs item.delegation_id)

theorem Reported.cons {session_id : String} {wait : WaitCondition} {inputs : List WaitInput}
    {outcome : WaitEventOutcome} (h : Reported session_id wait inputs outcome)
    (input : WaitInput) : Reported session_id wait (input :: inputs) outcome := by
  obtain ⟨event, hmem, hsession, hmatch⟩ := h
  exact ⟨event, List.mem_cons_of_mem input hmem, hsession, hmatch⟩

theorem covers_of_match {wait : WaitCondition} {event : EventEnvelope}
    {outcome : WaitEventOutcome} (h : match_wait_event wait event = some outcome) :
    wait.covers outcome.delegation_id = true := by
  rw [match_wait_event] at h
  split at h
  · split at h
    · cases h
      assumption
    · cases h
  · split at h
    · cases h
      assumption
    · cases h
  · split at h
    · cases h
      assumption
    · cases h
  · cases h

theorem wait_any_resumed {session_id : String} {wait : WaitCondition} {inputs : List WaitInput}
    {items : List WaitItem} {message : String}
    (h : wait_any session_id wait inputs = some (.Resumed items message)) :
    ∃ outcome, items = [format_wait_all_item outcome] ∧ message = format_wait_outcome outcome ∧
      Reported session_id wait inputs outcome := by
  induction inputs with
  | nil => cases h
  | cons input inputs ih =>
      have hlater (h' : wait_any session_id wait inputs = some (.Resumed items message)) :
          ∃ outcome, items = [format_wait_all_item outcome] ∧
            message = format_wait_outcome outcome ∧
            Reported session_id wait (input :: inputs) outcome := by
        obtain ⟨outcome, hitems, hmessage, hreported⟩ := ih h'
        exact ⟨outcome, hitems, hmessage, hreported.cons input⟩
      cases input with
      | Cancelled => cases h
      | Closed => cases h
      | TimedOut => exact hlater h
      | Lagged => exact hlater h
      | Event event =>
          rw [wait_any] at h
          split at h
          · exact hlater h
          · next hsession =>
            rw [not_not] at hsession
            split at h
            · next outcome hmatch =>
                cases h
                exact ⟨outcome, rfl, rfl, event, List.mem_cons_self, hsession, hmatch⟩
            · exact hlater h

/-- The id of an event is one of the pending ones. -/
theorem HashOrder.iter_erase_perm (order : HashOrder) {pending : Finset String} {id : String}
    (hpending : id ∈ pending) :
    (order.iter pending).Perm (id :: order.iter (pending.erase id)) := by
  refine (List.perm_ext_iff_of_nodup (order.nodup pending) ?_).2 fun other => ?_
  · refine List.nodup_cons.2 ⟨?_, order.nodup _⟩
    rw [order.mem]
    exact Finset.notMem_erase _ _
  · rw [order.mem, List.mem_cons, order.mem, Finset.mem_erase]
    by_cases heq : other = id
    · rw [heq]
      exact ⟨fun _ => .inl rfl, fun _ => hpending⟩
    · exact ⟨fun hother => .inr ⟨heq, hother⟩, fun hother => (hother.resolve_left heq).2⟩

theorem HashOrder.iter_empty (order : HashOrder) : order.iter ∅ = [] := by
  rw [List.eq_nil_iff_forall_not_mem]
  intro id hid
  rw [order.mem] at hid
  exact absurd hid (Finset.notMem_empty id)

/-- **What the loop of `All` reports**: the outcomes it started with and every pending
delegation, each once. The induction is on the inputs; an event moves one id from the
pending ones to the outcomes. -/
theorem wait_all_resumed {order : HashOrder} {timeout_secs : ℕ} {session_id : String}
    {wait : WaitCondition} {pending : Finset String} {outcomes items : List WaitItem}
    {inputs : List WaitInput} {message : String}
    (h : wait_all order timeout_secs session_id wait pending outcomes inputs =
      some (.Resumed items message)) :
    (items.map WaitItem.delegation_id).Perm
        (outcomes.map WaitItem.delegation_id ++ order.iter pending) ∧
      message = format_wait_all_summary items ∧
      ∃ later, items = outcomes ++ later ∧ Lines timeout_secs session_id wait inputs later := by
  induction inputs generalizing pending outcomes with
  | nil =>
      rw [wait_all] at h
      cases h
  | cons input inputs ih =>
      have hlines {later : List WaitItem} (h' : Lines timeout_secs session_id wait inputs later) :
          Lines timeout_secs session_id wait (input :: inputs) later := by
        intro item hitem
        rcases h' item hitem with ⟨outcome, hreported, htext⟩ | ⟨htimeout, htext⟩
        · exact .inl ⟨outcome, hreported.cons input, htext⟩
        · exact .inr ⟨List.mem_cons_of_mem input htimeout, htext⟩
      have hlater (h' : wait_all order timeout_secs session_id wait pending outcomes inputs =
            some (.Resumed items message)) :
          (items.map WaitItem.delegation_id).Perm
              (outcomes.map WaitItem.delegation_id ++ order.iter pending) ∧
            message = format_wait_all_summary items ∧
            ∃ later, items = outcomes ++ later ∧
              Lines timeout_secs session_id wait (input :: inputs) later := by
        obtain ⟨hperm, hmessage, later, hitems, h''⟩ := ih h'
        exact ⟨hperm, hmessage, later, hitems, hlines h''⟩
      cases input with
      | Cancelled =>
          rw [wait_all] at h
          cases h
      | Closed =>
          rw [wait_all] at h
          cases h
      | Lagged =>
          rw [wait_all] at h
          exact hlater h
      | TimedOut =>
          rw [wait_all] at h
          split at h
          · exact hlater h
          · cases h
            refine ⟨?_, rfl, _, rfl, ?_⟩
            · rw [List.map_append, List.map_map]
              have hids : (order.iter pending).map
                  (WaitItem.delegation_id ∘ timed_out_item timeout_secs) = order.iter pending :=
                List.map_id _
              rw [hids]
            · intro item hitem
              obtain ⟨id, -, rfl⟩ := List.mem_map.1 hitem
              exact .inr ⟨List.mem_cons_self, rfl⟩
      | Event event =>
          rw [wait_all] at h
          split at h
          · exact hlater h
          · next hsession =>
            rw [not_not] at hsession
            split at h
            · exact hlater h
            · next outcome hmatch =>
                split at h
                · exact hlater h
                · next hpending =>
                    rw [not_not] at hpending
                    have hone : Lines timeout_secs session_id wait (.Event event :: inputs)
                        [format_wait_all_item outcome] := by
                      intro item hitem
                      rw [List.mem_singleton] at hitem
                      exact .inl ⟨outcome, ⟨event, List.mem_cons_self, hsession, hmatch⟩, hitem⟩
                    have hreport : ((outcomes ++ [format_wait_all_item outcome]).map
                        WaitItem.delegation_id ++
                          order.iter (pending.erase outcome.delegation_id)).Perm
                        (outcomes.map WaitItem.delegation_id ++ order.iter pending) := by
                      rw [List.map_append, List.append_assoc]
                      exact (order.iter_erase_perm hpending).symm.append_left _
                    dsimp only at h
                    split at h
                    · next hempty =>
                        cases h
                        refine ⟨?_, rfl, _, rfl, hone⟩
                        rw [hempty, order.iter_empty, List.append_nil] at hreport
                        exact hreport
                    · obtain ⟨hperm, hmessage, later, hitems, hrest⟩ := ih h
                      refine ⟨hperm.trans hreport, hmessage,
                        format_wait_all_item outcome :: later, ?_, ?_⟩
                      · rw [hitems, List.append_assoc]
                        rfl
                      · intro item hitem
                        rcases List.mem_cons.1 hitem with rfl | hitem
                        · exact hone _ List.mem_cons_self
                        · exact hlines hrest item hitem

/-- The ids waited for, in the order of the set. -/
theorem iter_toFinset_perm (order : HashOrder) (ids : List String) :
    (order.iter ids.toFinset).Perm ids.dedup := by
  refine (List.perm_ext_iff_of_nodup (order.nodup _) (List.nodup_dedup ids)).2 fun id => ?_
  rw [order.mem, List.mem_toFinset, List.mem_dedup]

/-- **A wait is answered exactly.** Whatever the events, their order and the timeouts,
a wait for all injects the report of one item for each distinct id and no other, and a wait for
the first injects what one event reported, of one of its ids if it has any. -/
theorem wait_answered (policy : DelegationWaitPolicy) (order : HashOrder) (timeout_secs : ℕ)
    (session_id : String) (wait : WaitCondition) (cancelled : Bool) (inputs : List WaitInput)
    (items : List WaitItem) (message : String)
    (h : wait_for_event policy order timeout_secs session_id wait cancelled inputs =
      some (.Resumed items message)) :
    (policy = .All → AnswersAll wait items ∧ message = format_wait_all_summary items ∧
        Lines timeout_secs session_id wait inputs items) ∧
      (policy = .Any → (∃ outcome, Reported session_id wait inputs outcome ∧
          items = [format_wait_all_item outcome] ∧ message = format_wait_outcome outcome) ∧
        (wait.correlation_ids ≠ [] → AnswersAny wait items)) := by
  unfold wait_for_event at h
  split at h
  · cases h
  · cases policy with
    | Any =>
        refine ⟨fun hpolicy => (by cases hpolicy), fun _ => ?_⟩
        obtain ⟨outcome, rfl, rfl, hreported⟩ := wait_any_resumed h
        refine ⟨⟨outcome, hreported, rfl, rfl⟩,
          fun hids => ⟨List.cons_ne_nil _ _, fun item hitem => ?_⟩⟩
        obtain ⟨event, -, -, hmatch⟩ := hreported
        have hcovers := covers_of_match hmatch
        rw [List.mem_singleton.1 hitem]
        rw [WaitCondition.covers, List.isEmpty_eq_false_iff.2 hids, Bool.false_or,
          decide_eq_true_eq] at hcovers
        exact hcovers
    | All =>
        refine ⟨fun _ => ?_, fun hpolicy => by cases hpolicy⟩
        dsimp only at h
        split at h
        · cases h
        · obtain ⟨hperm, hmessage, later, hitems, hlines⟩ := wait_all_resumed h
          rw [List.map_nil, List.nil_append] at hperm
          rw [List.nil_append] at hitems
          rw [hitems] at hperm hmessage ⊢
          exact ⟨hperm.trans (iter_toFinset_perm order wait.correlation_ids), hmessage, hlines⟩

/-- Iteration in the order of the strings. -/
def sorted_order : HashOrder where
  iter := fun s => s.sort (· ≤ ·)
  nodup := fun s => s.sort_nodup (· ≤ ·)
  mem := fun s _ => s.mem_sort (· ≤ ·)

/-- The event of a delegation of the session `session`. -/
def cancelled_event (delegation_id : String) : WaitInput :=
  .Event ⟨"session", .DelegationCancelled delegation_id⟩

/-- A wait for no delegation in particular is answered by any. -/
theorem wait_without_ids_answered :
    ∃ items message,
      wait_for_event .Any sorted_order 120 "session" ⟨[]⟩ false [cancelled_event "d"] =
        some (.Resumed items message) ∧
      ¬ AnswersAny ⟨[]⟩ items := by
  refine ⟨_, _, rfl, fun h => ?_⟩
  exact absurd (h.2 _ List.mem_cons_self) List.not_mem_nil

/-- Two delegations, one waited for twice and reported twice. -/
theorem duplicate_wait_answered :
    AnswersAll ⟨["d", "e", "d"]⟩ [⟨"d", "- d: cancelled"⟩, ⟨"e", "- e: cancelled"⟩] :=
  ((wait_answered .All sorted_order 120 "session" ⟨["d", "e", "d"]⟩ false
    [cancelled_event "d", cancelled_event "d", cancelled_event "x", cancelled_event "e"] _ _
    rfl).1 rfl).1

/-! ## 5. The waits of the machine

The wait an iteration goes to after its tool calls is merged from one condition for
each delegation, so it is never one without ids. -/

theorem record_all_side_effects_waits {env : Env} {results adjusted : List ToolResult}
    {waits : List WaitCondition} (h : record_all_side_effects env results = .ok (adjusted, waits)) :
    ∀ wait ∈ waits, wait.correlation_ids ≠ [] := by
  induction results generalizing adjusted waits with
  | nil =>
      cases h
      exact fun wait hwait => by cases hwait
  | cons result results ih =>
      rw [record_all_side_effects] at h
      rcases hside : record_tool_side_effects env result with error | ⟨stored, wait⟩
      · rw [hside] at h
        cases h
      · rw [hside] at h
        dsimp only at h
        rcases hrest : record_all_side_effects env results with error | ⟨rest, restWaits⟩
        · rw [hrest] at h
          cases h
        · rw [hrest] at h
          cases h
          intro wait' hwait'
          rcases List.mem_append.1 hwait' with hhead | htail
          · rw [Option.mem_toList] at hhead
            have hone : ∃ id, wait' = ⟨[id]⟩ := by
              rw [record_tool_side_effects] at hside
              split at hside
              · split at hside
                · cases hside
                · cases hside
                  cases hhead
                · cases hside
                  obtain ⟨id, -, hid⟩ := Option.mem_map.1 hhead
                  exact ⟨id, hid.symm⟩
              · cases hside
                cases hhead
            obtain ⟨id, rfl⟩ := hone
            exact List.cons_ne_nil _ _
          · exact ih hrest wait' htail

/-- **A wait for delegations names them.** -/
theorem stored_wait_has_ids {cfg : Config} {env : Env} {m : Machine} {results : List ToolResult}
    {context context' : ConversationContext} {cancelled : Bool} {wait : WaitCondition}
    (hstate : ∀ context wait, m.state ≠ .WaitingForEvent context wait)
    (h : (store_all_tool_results cfg env m results context cancelled).state =
      .WaitingForEvent context' wait) : wait.correlation_ids ≠ [] := by
  rw [store_all_tool_results] at h
  split at h
  · exact absurd h (hstate context' wait)
  · next adjusted waits hrecord =>
      dsimp only at h
      split at h
      · cases h
      · split at h
        · next merged hmerge =>
            cases h
            have hids := record_all_side_effects_waits hrecord
            rw [WaitCondition.merge] at hmerge
            split at hmerge
            · cases hmerge
            · next hnonempty =>
                cases hmerge
                rw [List.isEmpty_iff] at hnonempty
                -- merged from one condition at least, each with an id
                obtain ⟨first, rest, rfl⟩ := List.exists_cons_of_ne_nil hnonempty
                intro hnil
                rw [List.flatMap_cons, List.append_eq_nil_iff] at hnil
                exact hids first List.mem_cons_self hnil.1
        · cases h

end Querymt.Agent
