/-
`Agent/Hooks.lean` -- what the outcomes of hook commands decide.

Mirrors `run_pre_tool_use`, `run_permission_request`, `run_post_tool_use` and `run_event`
(`hooks/engine.rs`), the parsing of their outputs (`hooks/output_parser.rs`) and
`run_command_hook` (`hooks/runner.rs`).

How the process of each command ends is arbitrary, and may depend on what the command reads at
its input. A process that cannot be run, is too slow or exits with another code than 0 and 2
ends the event with an error; one that a signal ends has no code, and its output counts.

The JSON of an input stays its text, and regular expressions and the JSON reader are arbitrary.
-/
import Querymt.Agent.Permissions
import Querymt.Library.Strings

set_option autoImplicit false

open Strings (Str is_whitespace)

namespace Querymt.Hooks

open Querymt.Agent (PermissionRequestDecision)

/-! ## 1. Commands -/

structure CommandOutput where
  exit_code : Option ℤ
  stdout : String
  stderr : String

structure HookCommandConfig where
  command : String
  timeout_sec : Option ℕ
  env : List (String × String)

structure CommandHookSpec where
  command : String
  timeout : ℕ
  env : List (String × String)

def spec_from_command (command : HookCommandConfig) : CommandHookSpec :=
  ⟨command.command, command.timeout_sec.getD 30, command.env⟩

/-- How the process of a command ends. -/
inductive Ending where
  /-- it is not spawned, does not take its input, or cannot be waited for -/
  | Failed (error : String)
  | TimedOut
  | Exited (code : ℤ) (stdout stderr : String)
  | Signalled (stdout stderr : String)

/-- `status.code()` is `None` for a process that a signal ended. -/
def run_command_hook (spec : CommandHookSpec) : Ending → Except String CommandOutput
  | .Failed error => .error error
  | .TimedOut => .error ("hook timed out after " ++ toString spec.timeout ++ "s")
  | .Exited code stdout stderr => .ok ⟨some code, stdout, stderr⟩
  | .Signalled stdout stderr => .ok ⟨none, stdout, stderr⟩

/-- A command, and how it ends on an input. -/
structure Hook (Input : Type) where
  config : HookCommandConfig
  ends : Input → Ending

structure MatcherGroupConfig (Input : Type) where
  matcher : Option String
  hooks : List (Hook Input)

/-- `str::trim`. -/
def trim (s : String) : String := String.ofList (Strings.trim s.toList)

section

variable {Input : Type} (is_match : String → String → Option Bool)

/-- `is_match` is whether a regular expression, if it is one, matches a value. -/
def matches_group (matcher : Option String) (value : String) : Bool :=
  match matcher.filter fun matcher => trim matcher ≠ "" with
  | none => true
  | some matcher => (is_match matcher value).getD false

/-- The commands of the groups that match, in order. -/
def matching_hooks (groups : List (MatcherGroupConfig Input)) (value : String) :
    List (Hook Input) :=
  (groups.filter fun group => matches_group is_match group.matcher value).flatMap
    MatcherGroupConfig.hooks

/-- The loops of `run_event`: the first command that fails ends them. -/
def run_event (label : String) (input : Input) : List (Hook Input) → Except String (List String)
  | [] => .ok []
  | hook :: hooks =>
      match run_command_hook (spec_from_command hook.config) (hook.ends input) with
      | .error error => .error error
      | .ok output =>
          match output.exit_code with
          | none => (run_event label input hooks).map fun outputs => output.stdout :: outputs
          | some code =>
              if code = 0 ∨ code = 2 then
                (run_event label input hooks).map fun outputs => output.stdout :: outputs
              else
                .error (label ++ " hook command failed with exit code " ++ toString code ++ ": " ++
                  trim output.stderr)

end

/-! ## 2. Outputs -/

def looks_like_json (stdout : String) : Bool :=
  match stdout.toList.dropWhile is_whitespace with
  | '\x7b' :: _ => true
  | '[' :: _ => true
  | _ => false

def summarize_output (output : String) : String :=
  let compact := output.toList.flatMap fun c => if c = '\n' then ['\\', 'n'] else [c]
  if compact.length ≤ 160 then String.ofList compact
  else String.ofList (compact.take 160) ++ "..."

/-- `from_str` is the JSON reader for the type of an output. -/
def parse_json {α : Type} (from_str : String → Except String α) (stdout : String) :
    Except String (Option α) :=
  let trimmed := trim stdout
  if trimmed = "" then .ok none
  else if looks_like_json trimmed = false then
    .error ("hook output must be JSON; got: " ++ summarize_output trimmed)
  else
    match from_str trimmed with
    | .ok output => .ok (some output)
    | .error err =>
        .error ("invalid hook JSON output: " ++ err ++ "; stdout: " ++ summarize_output trimmed)

inductive PreToolUseDecisionWire where
  | Approve
  | Block

inductive PreToolUsePermissionDecisionWire where
  | Allow
  | Deny
  | Ask

structure PreToolUseHookSpecificOutputWire where
  permission_decision : Option PreToolUsePermissionDecisionWire
  permission_decision_reason : Option String
  updated_input : Option String
  additional_context : Option String

structure PreToolUseCommandOutputWire where
  decision : Option PreToolUseDecisionWire
  reason : Option String
  hook_specific_output : Option PreToolUseHookSpecificOutputWire

inductive PermissionRequestBehaviorWire where
  | Allow
  | Deny

structure PermissionRequestDecisionWire where
  behavior : PermissionRequestBehaviorWire
  message : Option String

structure PermissionRequestHookSpecificOutputWire where
  decision : Option PermissionRequestDecisionWire

structure PermissionRequestCommandOutputWire where
  hook_specific_output : Option PermissionRequestHookSpecificOutputWire

inductive BlockDecisionWire where
  | Block

/-- The message for the system is left out. -/
structure HookUniversalOutputWire where
  continue_processing : Bool
  stop_reason : Option String

structure PostToolUseHookSpecificOutputWire where
  additional_context : Option String

structure PostToolUseCommandOutputWire where
  universal : HookUniversalOutputWire
  decision : Option BlockDecisionWire
  reason : Option String
  hook_specific_output : Option PostToolUseHookSpecificOutputWire

inductive ParsedDecision where
  | Block

inductive ParsedPermissionDecision where
  | Allow
  | Deny (message : String)

structure ParsedPreToolUse where
  decision : Option ParsedDecision
  reason : Option String
  permission_decision : Option ParsedPermissionDecision
  updated_input : Option String
  additional_context : Option String

structure ParsedPermissionRequest where
  decision : Option ParsedPermissionDecision

structure ParsedPostToolUse where
  decision : Option ParsedDecision
  reason : Option String
  continue_processing : Bool
  stop_reason : Option String
  additional_context : Option String

/-- The JSON readers of the outputs. -/
structure Readers where
  pre_tool_use : String → Except String PreToolUseCommandOutputWire
  permission_request : String → Except String PermissionRequestCommandOutputWire
  post_tool_use : String → Except String PostToolUseCommandOutputWire

section

variable (readers : Readers)

def parse_pre_tool_use (stdout : String) : Except String (Option ParsedPreToolUse) :=
  (parse_json readers.pre_tool_use stdout).map fun output => output.map fun output =>
    let hook_specific := output.hook_specific_output
    let decision_reason := hook_specific.bind fun hook => hook.permission_decision_reason
    { decision := output.decision.bind fun decision =>
        match decision with
        | .Block => some .Block
        | .Approve => none
      reason := output.reason.or decision_reason
      permission_decision := (hook_specific.bind fun hook => hook.permission_decision).map
        fun decision =>
          match decision with
          | .Allow => .Allow
          | .Deny => .Deny (decision_reason.getD "blocked by hook")
          | .Ask => .Deny (decision_reason.getD "hook requested confirmation")
      updated_input := hook_specific.bind fun hook => hook.updated_input
      additional_context := hook_specific.bind fun hook => hook.additional_context }

def parse_permission_request (stdout : String) : Except String (Option ParsedPermissionRequest) :=
  (parse_json readers.permission_request stdout).map fun output => output.map fun output =>
    { decision := (output.hook_specific_output.bind fun hook => hook.decision).map fun decision =>
        match decision.behavior with
        | .Allow => .Allow
        | .Deny => .Deny (decision.message.getD "blocked by hook") }

def parse_post_tool_use (stdout : String) : Except String (Option ParsedPostToolUse) :=
  (parse_json readers.post_tool_use stdout).map fun output => output.map fun output =>
    { decision := output.decision.map fun _ => .Block
      reason := output.reason
      continue_processing := output.universal.continue_processing
      stop_reason := output.universal.stop_reason
      additional_context := output.hook_specific_output.bind fun hook => hook.additional_context }

/-! ## 3. The engine -/

structure HookNotice where
  event_name : String
  message : String
  is_error : Bool

def invalid_notice (label err : String) : HookNotice :=
  ⟨label, "Ignoring invalid " ++ label ++ " hook output: " ++ err, true⟩

/-- The name of the event and a path that is always null are left out. -/
structure PreToolUseCommandInput where
  session_id : String
  turn_id : String
  cwd : String
  model : String
  permission_mode : String
  tool_name : String
  tool_input : String
  tool_use_id : String

structure PermissionRequestCommandInput where
  session_id : String
  turn_id : String
  cwd : String
  model : String
  permission_mode : String
  tool_name : String
  tool_input : String

/-- The response is the text of the result. -/
structure PostToolUseCommandInput where
  session_id : String
  turn_id : String
  cwd : String
  model : String
  permission_mode : String
  tool_name : String
  tool_input : String
  tool_response : String
  tool_use_id : String

/-- The configuration, as far as the three events read it. -/
structure HooksConfig where
  enabled : Bool
  pre_tool_use : List (MatcherGroupConfig PreToolUseCommandInput)
  permission_request : List (MatcherGroupConfig PermissionRequestCommandInput)
  post_tool_use : List (MatcherGroupConfig PostToolUseCommandInput)

structure PreToolUseResult where
  should_block : Bool
  block_reason : Option String
  updated_input : Option String
  additional_contexts : List String
  notices : List HookNotice

def PreToolUseResult.default : PreToolUseResult := ⟨false, none, none, [], []⟩

structure PermissionRequestResult where
  decision : Option PermissionRequestDecision
  notices : List HookNotice

def PermissionRequestResult.default : PermissionRequestResult := ⟨none, []⟩

structure PostToolUseResult where
  should_block : Bool
  block_reason : Option String
  stop_reason : Option String
  additional_contexts : List String
  notices : List HookNotice

def PostToolUseResult.default : PostToolUseResult := ⟨false, none, none, [], []⟩

/-- One output in the loop of `run_pre_tool_use`. -/
def read_pre_tool_use (result : PreToolUseResult) (stdout : String) : PreToolUseResult :=
  match parse_pre_tool_use readers stdout with
  | .error err => { result with notices := result.notices ++ [invalid_notice "pre_tool_use" err] }
  | .ok none => result
  | .ok (some parsed) =>
      let result :=
        { result with
          additional_contexts := result.additional_contexts ++ parsed.additional_context.toList
          updated_input := parsed.updated_input.or result.updated_input }
      let result :=
        match parsed.permission_decision with
        | some (.Deny message) =>
            { result with should_block := true, block_reason := result.block_reason.or (some message) }
        | _ => result
      match parsed.decision with
      | some .Block =>
          { result with
            should_block := true
            block_reason := result.block_reason.or (parsed.reason.or (some "blocked by hook")) }
      | none => result

/-- The loop of `run_permission_request`: a denial ends it. -/
def read_permission_requests : PermissionRequestResult → List String → PermissionRequestResult
  | result, [] => result
  | result, stdout :: rest =>
      match parse_permission_request readers stdout with
      | .error err =>
          read_permission_requests
            { result with notices := result.notices ++ [invalid_notice "permission_request" err] }
            rest
      | .ok none => read_permission_requests result rest
      | .ok (some parsed) =>
          match parsed.decision with
          | some (.Deny message) => { result with decision := some (.Deny message) }
          | some .Allow => read_permission_requests { result with decision := some .Allow } rest
          | none => read_permission_requests result rest

/-- One output in the loop of `run_post_tool_use`. -/
def read_post_tool_use (result : PostToolUseResult) (stdout : String) : PostToolUseResult :=
  match parse_post_tool_use readers stdout with
  | .error err => { result with notices := result.notices ++ [invalid_notice "post_tool_use" err] }
  | .ok none => result
  | .ok (some parsed) =>
      let result :=
        { result with
          additional_contexts := result.additional_contexts ++ parsed.additional_context.toList }
      let result :=
        match parsed.decision with
        | some .Block =>
            { result with
              should_block := true
              block_reason := result.block_reason.or (parsed.reason.or (some "blocked by hook")) }
        | none => result
      if parsed.continue_processing = false ∧ result.stop_reason = none then
        { result with stop_reason := parsed.stop_reason.or parsed.reason }
      else result

variable (is_match : String → String → Option Bool) (config : HooksConfig)

/-- The commands that a call of a tool runs first. -/
def pre_tool_use_hooks (tool_name : String) : List (Hook PreToolUseCommandInput) :=
  if config.enabled then matching_hooks is_match config.pre_tool_use tool_name else []

/-- The commands that are asked for permission. -/
def permission_request_hooks (tool_name : String) : List (Hook PermissionRequestCommandInput) :=
  if config.enabled then matching_hooks is_match config.permission_request tool_name else []

/-- The commands that a call of a tool runs behind it. -/
def post_tool_use_hooks (tool_name : String) : List (Hook PostToolUseCommandInput) :=
  if config.enabled then matching_hooks is_match config.post_tool_use tool_name else []

def run_pre_tool_use (input : PreToolUseCommandInput) : Except String PreToolUseResult :=
  if config.enabled then
    (run_event "pre_tool_use" input
      (matching_hooks is_match config.pre_tool_use input.tool_name)).map fun outputs =>
        outputs.foldl (read_pre_tool_use readers) PreToolUseResult.default
  else .ok PreToolUseResult.default

def run_permission_request (input : PermissionRequestCommandInput) :
    Except String PermissionRequestResult :=
  if config.enabled then
    (run_event "permission_request" input
      (matching_hooks is_match config.permission_request input.tool_name)).map fun outputs =>
        read_permission_requests readers PermissionRequestResult.default outputs
  else .ok PermissionRequestResult.default

def run_post_tool_use (input : PostToolUseCommandInput) : Except String PostToolUseResult :=
  if config.enabled then
    (run_event "post_tool_use" input
      (matching_hooks is_match config.post_tool_use input.tool_name)).map fun outputs =>
        outputs.foldl (read_post_tool_use readers) PostToolUseResult.default
  else .ok PostToolUseResult.default

end

/-! ## 4. What an ending means -/

namespace Ending

/-- The command ended normally, with one of the two codes that count. -/
def Normal : Ending → Prop
  | Exited code _ _ => code = 0 ∨ code = 2
  | _ => False

/-- The event ends with an error. -/
def Aborts : Ending → Prop
  | Failed _ | TimedOut => True
  | Exited code _ _ => ¬ (code = 0 ∨ code = 2)
  | Signalled _ _ => False

def BySignal : Ending → Prop
  | Signalled _ _ => True
  | _ => False

def stdout : Ending → String
  | Exited _ stdout _ | Signalled stdout _ => stdout
  | _ => ""

/-- What neither aborts nor was ended by a signal ended normally. -/
theorem normal_iff (e : Ending) : e.Normal ↔ ¬ e.Aborts ∧ ¬ e.BySignal := by
  cases e with
  | Failed error => exact iff_of_false id fun h => h.1 trivial
  | TimedOut => exact iff_of_false id fun h => h.1 trivial
  | Exited code stdout stderr =>
      exact ⟨fun h => ⟨fun hnot => hnot h, id⟩, fun h => not_not.1 h.1⟩
  | Signalled stdout stderr => exact iff_of_false id fun h => h.2 trivial

end Ending

section

variable {Input : Type} {label : String} {input : Input} {hooks : List (Hook Input)}

/-- **The outputs of all commands**, if none of them aborts. -/
theorem run_event_ok (h : ∀ hook ∈ hooks, ¬ (hook.ends input).Aborts) :
    run_event label input hooks = .ok (hooks.map fun hook => (hook.ends input).stdout) := by
  induction hooks with
  | nil => rfl
  | cons hook hooks ih =>
      obtain ⟨hhook, hrest⟩ := List.forall_mem_cons.1 h
      rw [run_event, List.map_cons, ih hrest]
      cases hends : hook.ends input with
      | Failed error =>
          rw [hends] at hhook
          exact absurd trivial hhook
      | TimedOut =>
          rw [hends] at hhook
          exact absurd trivial hhook
      | Exited code stdout stderr =>
          rw [hends] at hhook
          exact if_pos (not_not.1 hhook)
      | Signalled stdout stderr => rfl

/-- **One command that aborts ends the event**, whatever the others do. -/
theorem run_event_error (h : ∃ hook ∈ hooks, (hook.ends input).Aborts) :
    ∃ error, run_event label input hooks = .error error := by
  induction hooks with
  | nil =>
      obtain ⟨hook, hmem, -⟩ := h
      exact absurd hmem List.not_mem_nil
  | cons hook hooks ih =>
      rw [run_event]
      have hrest : ¬ (hook.ends input).Aborts →
          ∃ error, run_event label input hooks = .error error := by
        intro hnot
        obtain ⟨other, hmem, haborts⟩ := h
        obtain rfl | hmem := List.mem_cons.1 hmem
        · exact absurd haborts hnot
        · exact ih ⟨other, hmem, haborts⟩
      cases hends : hook.ends input with
      | Failed error => exact ⟨error, rfl⟩
      | TimedOut => exact ⟨_, rfl⟩
      | Exited code stdout stderr =>
          rw [hends] at hrest
          by_cases hcode : code = 0 ∨ code = 2
          · obtain ⟨error, herror⟩ := hrest fun hnot => hnot hcode
            exact ⟨error, (if_pos hcode).trans (by rw [herror]; rfl)⟩
          · exact ⟨_, if_neg hcode⟩
      | Signalled stdout stderr =>
          rw [hends] at hrest
          obtain ⟨error, herror⟩ := hrest id
          refine ⟨error, ?_⟩
          rw [herror]
          rfl

end

/-! ## 5. What an output means -/

section

variable (readers : Readers)

/-- The output of a command before a tool denies or blocks. -/
def Refuses (stdout : String) : Prop :=
  ∃ parsed, parse_pre_tool_use readers stdout = .ok (some parsed) ∧
    ((∃ message, parsed.permission_decision = some (.Deny message)) ∨
      parsed.decision = some .Block)

/-- The input that an output of a command before a tool rewrites it to. -/
def rewritten_input (stdout : String) : Option String :=
  match parse_pre_tool_use readers stdout with
  | .ok (some parsed) => parsed.updated_input
  | _ => none

/-- What an output of a command that is asked for permission decides. -/
def decision_of (stdout : String) : Option ParsedPermissionDecision :=
  match parse_permission_request readers stdout with
  | .ok (some parsed) => parsed.decision
  | _ => none

def Denies (stdout : String) : Prop := ∃ message, decision_of readers stdout = some (.Deny message)

def Allows (stdout : String) : Prop := decision_of readers stdout = some .Allow

end

section

variable {readers : Readers}

theorem read_pre_tool_use_blocks (result : PreToolUseResult) (stdout : String) :
    (read_pre_tool_use readers result stdout).should_block = true ↔
      result.should_block = true ∨ Refuses readers stdout := by
  unfold read_pre_tool_use Refuses
  cases parse_pre_tool_use readers stdout with
  | error err => simp
  | ok parsed =>
      cases parsed with
      | none => simp
      | some parsed =>
          dsimp only
          cases hpermission : parsed.permission_decision with
          | none => cases hdecision : parsed.decision with
            | none => simp [hpermission, hdecision]
            | some block => cases block; simp [hdecision]
          | some decision => cases decision with
            | Allow => cases hdecision : parsed.decision with
              | none => simp [hpermission, hdecision]
              | some block => cases block; simp [hdecision]
            | Deny message => cases hdecision : parsed.decision with
              | none => simp [hpermission]
              | some block => cases block; simp [hdecision]

theorem read_pre_tool_use_input (result : PreToolUseResult) (stdout : String) :
    (read_pre_tool_use readers result stdout).updated_input =
      (rewritten_input readers stdout).or result.updated_input := by
  unfold read_pre_tool_use rewritten_input
  cases parse_pre_tool_use readers stdout with
  | error err => rfl
  | ok parsed =>
      cases parsed with
      | none => rfl
      | some parsed =>
          dsimp only
          cases parsed.permission_decision with
          | none => cases parsed.decision with
            | none => rfl
            | some block => rfl
          | some decision => cases decision with
            | Allow => cases parsed.decision with
              | none => rfl
              | some block => rfl
            | Deny message => cases parsed.decision with
              | none => rfl
              | some block => rfl

/-- **A refusal stays**: the outputs block exactly if one of them refuses. -/
theorem foldl_blocks (result : PreToolUseResult) (outputs : List String) :
    (outputs.foldl (read_pre_tool_use readers) result).should_block = true ↔
      result.should_block = true ∨ ∃ stdout ∈ outputs, Refuses readers stdout := by
  induction outputs generalizing result with
  | nil => simp
  | cons stdout outputs ih =>
      rw [List.foldl_cons, ih, read_pre_tool_use_blocks, List.exists_mem_cons_iff, or_assoc]

/-- The last output that rewrites the input counts. -/
theorem foldl_input (result : PreToolUseResult) (outputs : List String) :
    (outputs.foldl (read_pre_tool_use readers) result).updated_input =
      ((outputs.filterMap (rewritten_input readers)).getLast?).or result.updated_input := by
  induction outputs generalizing result with
  | nil => rfl
  | cons stdout outputs ih =>
      rw [List.foldl_cons, ih, read_pre_tool_use_input, ← Option.or_assoc, List.filterMap_cons]
      cases rewritten_input readers stdout with
      | none => rw [Option.or_none]
      | some input =>
          rw [List.getLast?_cons]
          cases (outputs.filterMap (rewritten_input readers)).getLast? <;> rfl

/-- What the outputs decide, read in order. -/
def decided : Option PermissionRequestDecision → List (Option ParsedPermissionDecision) →
    Option PermissionRequestDecision
  | decision, [] => decision
  | decision, none :: rest => decided decision rest
  | _, some .Allow :: rest => decided (some .Allow) rest
  | _, some (.Deny message) :: _ => some (.Deny message)

/-- Notices decide nothing. -/
theorem read_permission_requests_decision (result : PermissionRequestResult)
    (outputs : List String) :
    (read_permission_requests readers result outputs).decision =
      decided result.decision (outputs.map (decision_of readers)) := by
  induction outputs generalizing result with
  | nil => rfl
  | cons stdout outputs ih =>
      rw [List.map_cons, decision_of, read_permission_requests]
      cases parse_permission_request readers stdout with
      | error err => exact ih _
      | ok parsed =>
          cases parsed with
          | none => exact ih _
          | some parsed =>
              dsimp only
              cases parsed.decision with
              | none => exact ih _
              | some decision =>
                  cases decision with
                  | Allow => exact ih _
                  | Deny message => rfl

theorem decided_deny_iff {decision : Option PermissionRequestDecision}
    {outputs : List (Option ParsedPermissionDecision)}
    (h : ∀ message, decision ≠ some (.Deny message)) :
    (∃ message, decided decision outputs = some (.Deny message)) ↔
      ∃ message, some (.Deny message) ∈ outputs := by
  induction outputs generalizing decision with
  | nil =>
      refine iff_of_false (fun ⟨message, hdeny⟩ => h message hdeny) fun ⟨message, hmem⟩ => ?_
      exact absurd hmem List.not_mem_nil
  | cons o outputs ih =>
      simp only [List.mem_cons]
      rcases o with _ | (_ | message)
      · rw [decided, ih h]
        simp
      · rw [decided, ih (by simp)]
        simp
      · exact iff_of_true ⟨message, rfl⟩ ⟨message, .inl rfl⟩

theorem decided_allow_iff {decision : Option PermissionRequestDecision}
    {outputs : List (Option ParsedPermissionDecision)}
    (h : ∀ message, decision ≠ some (.Deny message)) :
    decided decision outputs = some .Allow ↔
      (¬ ∃ message, some (.Deny message) ∈ outputs) ∧
        (decision = some .Allow ∨ some .Allow ∈ outputs) := by
  induction outputs generalizing decision with
  | nil => simp [decided]
  | cons o outputs ih =>
      rcases o with _ | (_ | message)
      · rw [decided, ih h]
        simp
      · rw [decided, ih (by simp)]
        simp
      · rw [decided]
        simp

end

end Querymt.Hooks
