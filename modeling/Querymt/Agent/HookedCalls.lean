/-
`Agent/HookedCalls.lean` -- a tool call with its hooks.

Mirrors `execute_tool_call` and `ensure_tool_permission` (`execution/tool_calls.rs`) with the
hooks that they run, before the call, for a permission and behind the call, and with all the
places that get the arguments of the call. Without these places, and up to the hooks behind the
call, it is the dispatch of `Permissions.lean` (`execute_run`).

# A hook's refusal wins

A tool runs only if every command before it ended normally and none of them refused it, and a
permission is denied or allowed by the commands together, unless a signal ended one of them:
such a command passes for one that ended normally. And the arguments that a command rewrites are
the ones that everybody is given, unless the call fails behind it: the result that
`transition_processing_tool_calls` makes up for a call that fails has the arguments of the
response, also when the tool has run (`refusal_wins_iff`).
-/
import Querymt.Agent.Hooks

set_option autoImplicit false

open Querymt.Agent

namespace Querymt.Hooks

/-! ## 1. The code -/

/-- What a call meets outside of the configuration; the client's answer may depend on the input
it is shown. -/
structure CallEnv where
  session_id : String
  turn_id : String
  cwd : Option String
  model : String
  permission_mode : String
  active_task : Option TaskStatus
  permission_cache : String → Option Bool
  bridge : Option (String → Except String RequestPermissionOutcome)
  provider_error : Option String
  /-- the first truncation of the text blocks of a result that is no error -/
  truncate : List Content → List Content

/-- Who is given the arguments of a call. -/
inductive Recipient where
  | PermissionHooks
  | Client
  | Tool
  | PostHooks
  | Start
  | Result
  deriving DecidableEq

structure Given where
  recipient : Recipient
  args : String
  deriving DecidableEq

section

variable (readers : Readers) (is_match : String → String → Option Bool) (config : HooksConfig)
  (setup : ToolSetup) (env : CallEnv)

def permission_input (tool_name args : String) : PermissionRequestCommandInput where
  session_id := env.session_id
  turn_id := env.turn_id
  cwd := env.cwd.getD "."
  model := env.model
  permission_mode := env.permission_mode
  tool_name := tool_name
  tool_input := args

def pre_tool_use_input (call : MiddlewareToolCall) (args : String) : PreToolUseCommandInput where
  session_id := env.session_id
  turn_id := env.turn_id
  cwd := env.cwd.getD "."
  model := env.model
  permission_mode := env.permission_mode
  tool_name := call.function.name
  tool_input := args
  tool_use_id := call.id

def post_tool_use_input (call : MiddlewareToolCall) (args : String)
    (result_blocks : List Content) : PostToolUseCommandInput where
  session_id := env.session_id
  turn_id := env.turn_id
  cwd := env.cwd.getD "."
  model := env.model
  permission_mode := env.permission_mode
  tool_name := call.function.name
  tool_input := args
  tool_response := String.intercalate "\n" (result_blocks.filterMap fun b =>
    match b with
    | .Text text => some text
    | _ => none)
  tool_use_id := call.id

/-- The decision with the cache it leaves, and who was given the arguments. -/
def ensure_tool_permission (tool_name args : String) : Permission × List Given :=
  let cache := env.permission_cache
  if requires_permission_for_tool setup tool_name = false then ((.ok true, cache), [])
  else if env.active_task.any fun status => decide (status ≠ .Active) then ((.ok false, cache), [])
  else
    match cache tool_name with
    | some cached => ((.ok cached, cache), [])
    | none =>
        let asked : List Given := [⟨.PermissionHooks, args⟩]
        match run_permission_request readers is_match config (permission_input env tool_name args) with
        | .error error => ((.error error, cache), asked)
        | .ok hook_decision =>
            match hook_decision.decision with
            | some .Allow => ((.ok true, cache), asked)
            | some (.Deny _) => ((.ok false, cache), asked)
            | none =>
                match env.bridge with
                | none => ((.ok true, cache), asked)
                | some request_permission =>
                    let shown := asked ++ [⟨.Client, args⟩]
                    match request_permission args with
                    | .error error => ((.error error, cache), shown)
                    | .ok (.Selected option_id) =>
                        let allow := decide (option_id = "allow_once" ∨ option_id = "allow_always")
                        if option_id = "allow_always" then
                          ((.ok allow, Function.update cache tool_name (some true)), shown)
                        else if option_id = "reject_always" then
                          ((.ok allow, Function.update cache tool_name (some false)), shown)
                        else ((.ok allow, cache), shown)
                    | .ok .Cancelled => ((.ok false, cache), shown)

/-- The environment of `Permissions.lean`, when the hooks have run. -/
def plain_env (pre_tool_use : Except String PreToolUseResult) (tool_name args : String) :
    ToolEnv where
  pre_tool_use := pre_tool_use.map fun result =>
    ⟨result.should_block, result.block_reason, result.updated_input⟩
  active_task := env.active_task
  permission_cache := env.permission_cache
  permission_request :=
    (run_permission_request readers is_match config (permission_input env tool_name args)).map
      PermissionRequestResult.decision
  bridge := env.bridge.map fun request_permission => request_permission args
  provider_error := env.provider_error

/-- The dispatch of a call: its run, and who was given the arguments. -/
def dispatch (tool_name args : String) : ToolRun × List Given :=
  let cache := env.permission_cache
  if is_mcp_tool_allowed_with setup.tool_config tool_name (setup.mcp.server_of tool_name) = false then
    (⟨[], cache, .ok ([.Text ("Error: tool '" ++ tool_name ++ "' is not allowed")], true, .Blocked)⟩,
      [])
  else
    match setup.tool_registry.find tool_name with
    | some tool =>
        (⟨[.Invoked .Builtin tool.definition], cache, .ok (tool_output .Builtin (tool.call args))⟩,
          [⟨.Tool, args⟩])
    | none =>
        match setup.mcp.get tool_name with
        | some tool =>
            (⟨[.Invoked .Mcp tool.descriptor], cache, .ok (tool_output .Mcp (tool.call args))⟩,
              [⟨.Tool, args⟩])
        | none =>
            match ensure_tool_permission readers is_match config setup env tool_name args with
            | ((.error error, cache'), given) =>
                (⟨[], cache', .error ("Permission check failed: " ++ error)⟩, given)
            | ((.ok false, cache'), given) =>
                (⟨[], cache', .ok ([.Text "Error: permission denied"], true, .Provider)⟩, given)
            | ((.ok true, cache'), given) =>
                let called := call_provider setup
                  (plain_env readers is_match config env (.ok PreToolUseResult.default) tool_name args)
                  tool_name args
                (⟨.PermissionGranted :: called.1, cache', .ok called.2⟩, given ++ [⟨.Tool, args⟩])

structure HookedRun where
  run : ToolRun
  given : List Given

/-- The blocks of a raw result, behind the first truncation. -/
def result_blocks (raw : List Content × Bool × ToolSource) : List Content :=
  if raw.2.1 then raw.1 else env.truncate raw.1

/-- What the commands behind a call make of its result. -/
def after_tool_use (call : MiddlewareToolCall) (args : String)
    (raw : List Content × Bool × ToolSource) : Except String (List Content × Bool × ToolSource) :=
  (run_post_tool_use readers is_match config
    (post_tool_use_input env call args (result_blocks env raw))).map fun post_hook =>
      if post_hook.should_block then
        ([.Text ("Error: " ++ post_hook.block_reason.getD "tool result blocked by hook")], true,
          raw.2.2)
      else (result_blocks env raw, raw.2.1, raw.2.2)

/-- `execute_tool_call`, without the snapshot; the start of the call and its result carry the
arguments. -/
def execute_tool_call (call : MiddlewareToolCall) : HookedRun :=
  let args := call.function.arguments
  match run_pre_tool_use readers is_match config (pre_tool_use_input env call args) with
  | .error error => ⟨⟨[], env.permission_cache, .error error⟩, []⟩
  | .ok hook_result =>
      let args := hook_result.updated_input.getD args
      if hook_result.should_block then
        -- the commands behind the call are not run
        ⟨⟨[], env.permission_cache, .ok ([.Text ("Error: " ++
          hook_result.block_reason.getD "tool blocked by hook")], true, .Blocked)⟩,
          [⟨.Result, args⟩]⟩
      else
        let dispatched := dispatch readers is_match config setup env call.function.name args
        match dispatched.1.result with
        | .error _ => ⟨dispatched.1, ⟨.Start, args⟩ :: dispatched.2⟩
        | .ok raw =>
            let result := after_tool_use readers is_match config env call args raw
            -- an error of these commands is the error of the call, whose tool has run
            ⟨{ dispatched.1 with result := result },
              ⟨.Start, args⟩ :: (dispatched.2 ++ ⟨.PostHooks, args⟩ ::
                match result with
                | .ok _ => [⟨.Result, args⟩]
                | .error _ => [])⟩

/-- Who is given the arguments of a call when `transition_processing_tool_calls` is through with
it: it makes up a result for a call that fails. -/
def processed_given (call : MiddlewareToolCall) : List Given :=
  let executed := execute_tool_call readers is_match config setup env call
  executed.given ++
    match executed.run.result with
    | .ok _ => []
    | .error _ => [⟨.Result, call.function.arguments⟩]

/-! ## 2. The law and the condition -/

/-- The input of the commands before a call. -/
def first_input (call : MiddlewareToolCall) : PreToolUseCommandInput :=
  pre_tool_use_input env call call.function.arguments

/-- The arguments of a call, as the last command that rewrites them has them. -/
def rewritten_args (call : MiddlewareToolCall) : String :=
  (((pre_tool_use_hooks is_match config call.function.name).filterMap fun hook =>
    rewritten_input readers (hook.ends (first_input env call)).stdout).getLast?).getD
      call.function.arguments

/-- A tool runs. -/
def Invokes (run : ToolRun) : Prop := ∃ source tool, .Invoked source tool ∈ run.actions

/-- What the commands decide about a permission. -/
def hook_decision (input : PermissionRequestCommandInput) : Option PermissionRequestDecision :=
  (run_permission_request readers is_match config input).toOption.bind
    PermissionRequestResult.decision

def IsDeny (decision : Option PermissionRequestDecision) : Prop :=
  ∃ message, decision = some (.Deny message)

/-- **A hook's refusal wins** in a call, and in a request for a permission. -/
structure RefusalWins (call : MiddlewareToolCall) (input : PermissionRequestCommandInput) :
    Prop where
  gate : Invokes (execute_tool_call readers is_match config setup env call).run →
    ∀ hook ∈ pre_tool_use_hooks is_match config call.function.name,
      (hook.ends (first_input env call)).Normal ∧
        ¬ Refuses readers (hook.ends (first_input env call)).stdout
  denied : IsDeny (hook_decision readers is_match config input) ↔
    (∃ hook ∈ permission_request_hooks is_match config input.tool_name,
      Denies readers (hook.ends input).stdout) ∧
      ∀ hook ∈ permission_request_hooks is_match config input.tool_name, (hook.ends input).Normal
  allowed : hook_decision readers is_match config input = some .Allow ↔
    (¬ ∃ hook ∈ permission_request_hooks is_match config input.tool_name,
      Denies readers (hook.ends input).stdout) ∧
      (∃ hook ∈ permission_request_hooks is_match config input.tool_name,
        Allows readers (hook.ends input).stdout) ∧
      ∀ hook ∈ permission_request_hooks is_match config input.tool_name, (hook.ends input).Normal
  reordered : ∀ config', (permission_request_hooks is_match config' input.tool_name).Perm
      (permission_request_hooks is_match config input.tool_name) →
    (IsDeny (hook_decision readers is_match config' input) ↔
      IsDeny (hook_decision readers is_match config input)) ∧
    (hook_decision readers is_match config' input = some .Allow ↔
      hook_decision readers is_match config input = some .Allow)
  rewritten : (∀ hook ∈ pre_tool_use_hooks is_match config call.function.name,
      ¬ (hook.ends (first_input env call)).Aborts) →
    ∀ given ∈ processed_given readers is_match config setup env call,
      given.args = rewritten_args readers is_match config env call
  told : Invokes (execute_tool_call readers is_match config setup env call).run →
    ∀ recipient ∈ [Recipient.Start, .Tool, .Result],
      ⟨recipient, rewritten_args readers is_match config env call⟩ ∈
        processed_given readers is_match config setup env call

/-- A call that no hook stops runs a tool: it is allowed, and belongs to a tool of the registry
or of a server, or to one of the provider that is permitted. -/
def Reaches (tool_name args : String) : Prop :=
  is_mcp_tool_allowed_with setup.tool_config tool_name (setup.mcp.server_of tool_name) = true ∧
    ((setup.tool_registry.find tool_name).isSome = true ∨
      (setup.mcp.get tool_name).isSome = true ∨
      ((ensure_tool_permission readers is_match config setup env tool_name args).1.1 = .ok true ∧
        env.provider_error = none ∧ (setup.provider.find tool_name).isSome = true))

/-- A call that no hook stops fails: its permission cannot be asked for, or a command behind it
aborts. -/
def Fails (call : MiddlewareToolCall) (args : String) : Prop :=
  match (dispatch readers is_match config setup env call.function.name args).1.result with
  | .error _ => True
  | .ok raw => ∃ hook ∈ post_tool_use_hooks is_match config call.function.name,
      (hook.ends (post_tool_use_input env call args (result_blocks env raw))).Aborts

/-- **The condition**: no signal ends a command, unless the others decide without it; and a call
that fails behind the commands that rewrite its arguments has the arguments it had. -/
structure Unsignalled (call : MiddlewareToolCall) (input : PermissionRequestCommandInput) :
    Prop where
  pre_tool_use :
    (∀ hook ∈ pre_tool_use_hooks is_match config call.function.name,
      ¬ (hook.ends (first_input env call)).BySignal) ∨
    (∃ hook ∈ pre_tool_use_hooks is_match config call.function.name,
      (hook.ends (first_input env call)).Aborts) ∨
    (∃ hook ∈ pre_tool_use_hooks is_match config call.function.name,
      Refuses readers (hook.ends (first_input env call)).stdout) ∨
    ¬ Reaches readers is_match config setup env call.function.name
      (rewritten_args readers is_match config env call)
  permission_request :
    (∀ hook ∈ permission_request_hooks is_match config input.tool_name,
      ¬ (hook.ends input).BySignal) ∨
    (∃ hook ∈ permission_request_hooks is_match config input.tool_name, (hook.ends input).Aborts) ∨
    ∀ hook ∈ permission_request_hooks is_match config input.tool_name,
      ¬ Denies readers (hook.ends input).stdout ∧ ¬ Allows readers (hook.ends input).stdout
  reported :
    (∃ hook ∈ pre_tool_use_hooks is_match config call.function.name,
      (hook.ends (first_input env call)).Aborts) ∨
    (∃ hook ∈ pre_tool_use_hooks is_match config call.function.name,
      Refuses readers (hook.ends (first_input env call)).stdout) ∨
    ¬ Fails readers is_match config setup env call
      (rewritten_args readers is_match config env call) ∨
    rewritten_args readers is_match config env call = call.function.arguments

end

/-! ## 3. The commands before a call -/

section

variable {readers : Readers} {is_match : String → String → Option Bool} {config : HooksConfig}
  {setup : ToolSetup} {env : CallEnv} {call : MiddlewareToolCall}

theorem run_pre_tool_use_eq (input : PreToolUseCommandInput) :
    run_pre_tool_use readers is_match config input =
      (run_event "pre_tool_use" input (pre_tool_use_hooks is_match config input.tool_name)).map
        fun outputs => outputs.foldl (read_pre_tool_use readers) PreToolUseResult.default := by
  unfold run_pre_tool_use pre_tool_use_hooks
  by_cases henabled : config.enabled = true
  · rw [if_pos henabled, if_pos henabled]
  · rw [if_neg henabled, if_neg henabled]
    rfl

theorem run_permission_request_eq (input : PermissionRequestCommandInput) :
    run_permission_request readers is_match config input =
      (run_event "permission_request" input
        (permission_request_hooks is_match config input.tool_name)).map fun outputs =>
          read_permission_requests readers PermissionRequestResult.default outputs := by
  unfold run_permission_request permission_request_hooks
  by_cases henabled : config.enabled = true
  · rw [if_pos henabled, if_pos henabled]
  · rw [if_neg henabled, if_neg henabled]
    rfl

/-- The commands before a call, when none aborts: they block it exactly if one refuses, and the
arguments are the rewritten ones. -/
theorem pre_tool_use_ok
    (h : ∀ hook ∈ pre_tool_use_hooks is_match config call.function.name,
      ¬ (hook.ends (first_input env call)).Aborts) :
    ∃ result, run_pre_tool_use readers is_match config (first_input env call) = .ok result ∧
      (result.should_block = true ↔
        ∃ hook ∈ pre_tool_use_hooks is_match config call.function.name,
          Refuses readers (hook.ends (first_input env call)).stdout) ∧
      result.updated_input.getD call.function.arguments =
        rewritten_args readers is_match config env call := by
  rw [run_pre_tool_use_eq]
  have hname : (first_input env call).tool_name = call.function.name := rfl
  rw [hname, run_event_ok h]
  refine ⟨_, rfl, ?_, ?_⟩
  · rw [foldl_blocks]
    simp [PreToolUseResult.default]
  · rw [foldl_input, List.filterMap_map]
    exact congrArg (fun o : Option String => o.getD call.function.arguments) (Option.or_none)

theorem pre_tool_use_error
    (h : ∃ hook ∈ pre_tool_use_hooks is_match config call.function.name,
      (hook.ends (first_input env call)).Aborts) :
    ∃ error, run_pre_tool_use readers is_match config (first_input env call) = .error error := by
  obtain ⟨error, herror⟩ := @run_event_error _ "pre_tool_use" _ _ h
  refine ⟨error, ?_⟩
  rw [run_pre_tool_use_eq]
  have hname : (first_input env call).tool_name = call.function.name := rfl
  rw [hname, herror]
  rfl

/-! ## 4. The dispatch -/

variable {tool_name args : String}

/-- Whoever is asked for permission is given the same arguments. -/
theorem permission_given : ∃ recipients : List Recipient,
    (ensure_tool_permission readers is_match config setup env tool_name args).2 =
      recipients.map fun recipient => ⟨recipient, args⟩ := by
  unfold ensure_tool_permission
  dsimp only
  split_ifs
  · exact ⟨[], rfl⟩
  · exact ⟨[], rfl⟩
  · split
    · exact ⟨[], rfl⟩
    · split
      · exact ⟨[.PermissionHooks], rfl⟩
      · split
        · exact ⟨[.PermissionHooks], rfl⟩
        · exact ⟨[.PermissionHooks], rfl⟩
        · split
          · exact ⟨[.PermissionHooks], rfl⟩
          · split
            · exact ⟨[.PermissionHooks, .Client], rfl⟩
            · split_ifs <;> exact ⟨[.PermissionHooks, .Client], rfl⟩
            · exact ⟨[.PermissionHooks, .Client], rfl⟩

/-- **Without the recipients it is the permission check of `Permissions.lean`.** -/
theorem permission_plain (pre : Except String PreToolUseResult) :
    (ensure_tool_permission readers is_match config setup env tool_name args).1 =
      Agent.ensure_tool_permission setup
        (plain_env readers is_match config env pre tool_name args) tool_name := by
  unfold ensure_tool_permission Agent.ensure_tool_permission plain_env
  dsimp only
  split_ifs with hfree htask
  · rfl
  · rfl
  · cases env.permission_cache tool_name with
    | some cached => rfl
    | none =>
        cases run_permission_request readers is_match config
            (permission_input env tool_name args) with
        | error error => rfl
        | ok result =>
            obtain ⟨decision, notices⟩ := result
            cases decision with
            | some decision => cases decision <;> rfl
            | none =>
                cases env.bridge with
                | none => rfl
                | some request_permission =>
                    dsimp only [Option.map_some, Except.map]
                    cases request_permission args with
                    | error error => rfl
                    | ok outcome =>
                        cases outcome with
                        | Selected option_id => dsimp only; split_ifs <;> rfl
                        | Cancelled => rfl

/-- **Without the recipients it is the dispatch of `Permissions.lean`.** -/
theorem dispatch_plain (pre : Except String PreToolUseResult) :
    (dispatch readers is_match config setup env tool_name args).1 =
      Agent.dispatch setup (plain_env readers is_match config env pre tool_name args) tool_name
        args := by
  unfold dispatch Agent.dispatch
  dsimp only
  rw [← permission_plain pre]
  split_ifs with hallowed
  · rfl
  · cases setup.tool_registry.find tool_name with
    | some tool => rfl
    | none =>
        cases setup.mcp.get tool_name with
        | some tool => rfl
        | none =>
            dsimp only
            cases ensure_tool_permission readers is_match config setup env tool_name args with
            | mk permission given =>
                obtain ⟨granted, cache⟩ := permission
                cases granted with
                | error error => rfl
                | ok granted => cases granted <;> rfl

theorem dispatch_given : ∃ recipients : List Recipient,
    (dispatch readers is_match config setup env tool_name args).2 =
        recipients.map (fun recipient => ⟨recipient, args⟩) ∧
      (Invokes (dispatch readers is_match config setup env tool_name args).1 →
        Recipient.Tool ∈ recipients ∧
          ∃ output, (dispatch readers is_match config setup env tool_name args).1.result =
            .ok output) := by
  unfold dispatch
  dsimp only
  have hidle : ∀ {cache : String → Option Bool}
      {result : Except String (List Content × Bool × ToolSource)} {P : Prop},
      Invokes ⟨[], cache, result⟩ → P :=
    fun ⟨_, _, hmem⟩ => absurd hmem List.not_mem_nil
  split_ifs with hallowed
  · exact ⟨[], rfl, hidle⟩
  · cases setup.tool_registry.find tool_name with
    | some tool => exact ⟨[.Tool], rfl, fun _ => ⟨List.mem_singleton_self _, _, rfl⟩⟩
    | none =>
        cases setup.mcp.get tool_name with
        | some tool => exact ⟨[.Tool], rfl, fun _ => ⟨List.mem_singleton_self _, _, rfl⟩⟩
        | none =>
            dsimp only
            obtain ⟨recipients, hgiven⟩ := @permission_given readers is_match config setup env
              tool_name args
            cases hpermission :
                ensure_tool_permission readers is_match config setup env tool_name args with
            | mk permission given =>
                rw [hpermission] at hgiven
                obtain rfl : given = _ := hgiven
                obtain ⟨granted, cache⟩ := permission
                cases granted with
                | error error => exact ⟨recipients, rfl, hidle⟩
                | ok granted =>
                    cases granted with
                    | false => exact ⟨recipients, rfl, hidle⟩
                    | true =>
                        refine ⟨recipients ++ [.Tool], ?_, fun _ => ⟨?_, _, rfl⟩⟩
                        · rw [List.map_append]
                          rfl
                        · exact List.mem_append_right _ (List.mem_singleton_self _)

/-- **A dispatch runs a tool exactly if the call reaches one.** -/
theorem invokes_dispatch_iff : Invokes (dispatch readers is_match config setup env tool_name args).1 ↔
    Reaches readers is_match config setup env tool_name args := by
  unfold dispatch Reaches Invokes
  dsimp only
  by_cases hallowed : is_mcp_tool_allowed_with setup.tool_config tool_name
      (setup.mcp.server_of tool_name) = false
  · rw [if_pos hallowed, hallowed]
    simp
  · rw [if_neg hallowed, Bool.eq_true_of_not_eq_false hallowed]
    cases setup.tool_registry.find tool_name with
    | some tool => simp
    | none =>
        cases setup.mcp.get tool_name with
        | some tool => simp
        | none =>
            cases ensure_tool_permission readers is_match config setup env tool_name args with
            | mk permission given =>
                obtain ⟨granted, cache⟩ := permission
                cases granted with
                | error error => simp
                | ok granted =>
                    cases granted with
                    | false => simp
                    | true =>
                        unfold call_provider plain_env
                        dsimp only
                        cases env.provider_error with
                        | some error => simp
                        | none => cases setup.provider.find tool_name <;> simp

/-! ## 5. The call -/

/-- The arguments that are in effect behind the commands of a call. -/
def args_in_effect (readers : Readers) (is_match : String → String → Option Bool)
    (config : HooksConfig) (env : CallEnv) (call : MiddlewareToolCall) : String :=
  match run_pre_tool_use readers is_match config (first_input env call) with
  | .ok result => result.updated_input.getD call.function.arguments
  | .error _ => call.function.arguments

/-- **Without the recipients it is the call of `Permissions.lean`**, whose environment has what
the commands decide; up to the commands behind the call, whose error is the one that is left. -/
theorem execute_run :
    let plain := Agent.execute_tool_call setup
      (plain_env readers is_match config env
        (run_pre_tool_use readers is_match config (first_input env call)) call.function.name
        (args_in_effect readers is_match config env call)) call
    (execute_tool_call readers is_match config setup env call).run.actions = plain.actions ∧
      (execute_tool_call readers is_match config setup env call).run.permission_cache =
        plain.permission_cache ∧
      ∀ error, plain.result = .error error →
        (execute_tool_call readers is_match config setup env call).run.result = .error error := by
  unfold execute_tool_call Agent.execute_tool_call args_in_effect first_input
  dsimp only
  have henv : ∀ pre, (plain_env readers is_match config env pre call.function.name
      (match run_pre_tool_use readers is_match config
          (pre_tool_use_input env call call.function.arguments) with
        | .ok result => result.updated_input.getD call.function.arguments
        | .error _ => call.function.arguments)).pre_tool_use = pre.map fun result =>
          ⟨result.should_block, result.block_reason, result.updated_input⟩ := fun _ => rfl
  rw [henv]
  cases hpre : run_pre_tool_use readers is_match config
      (pre_tool_use_input env call call.function.arguments) with
  | error error => exact ⟨rfl, rfl, fun _ h => h⟩
  | ok result =>
      dsimp only [Except.map]
      rw [← dispatch_plain (.ok result)]
      split_ifs with hblock
      · exact ⟨rfl, rfl, fun _ h => h⟩
      · cases hresult : (dispatch readers is_match config setup env call.function.name
          (result.updated_input.getD call.function.arguments)).1.result with
        | error error => exact ⟨rfl, rfl, fun _ h => hresult.trans h⟩
        | ok raw => exact ⟨rfl, rfl, fun _ h => by cases h⟩

/-- The commands behind a call fail it exactly if one of them aborts. -/
theorem after_tool_use_error_iff {args : String} (raw : List Content × Bool × ToolSource) :
    (∃ error, after_tool_use readers is_match config env call args raw = .error error) ↔
      ∃ hook ∈ post_tool_use_hooks is_match config call.function.name,
        (hook.ends (post_tool_use_input env call args (result_blocks env raw))).Aborts := by
  have hrun : run_post_tool_use readers is_match config
      (post_tool_use_input env call args (result_blocks env raw)) =
        (run_event "post_tool_use" (post_tool_use_input env call args (result_blocks env raw))
          (post_tool_use_hooks is_match config call.function.name)).map fun outputs =>
            outputs.foldl (read_post_tool_use readers) PostToolUseResult.default := by
    unfold run_post_tool_use post_tool_use_hooks
    by_cases henabled : config.enabled = true
    · rw [if_pos henabled, if_pos henabled]
      rfl
    · rw [if_neg henabled, if_neg henabled]
      rfl
  rw [after_tool_use, hrun]
  by_cases haborts : ∃ hook ∈ post_tool_use_hooks is_match config call.function.name,
      (hook.ends (post_tool_use_input env call args (result_blocks env raw))).Aborts
  · obtain ⟨error, herror⟩ := @run_event_error _ "post_tool_use" _ _ haborts
    rw [herror]
    exact iff_of_true ⟨error, rfl⟩ haborts
  · have hnone : ∀ hook ∈ post_tool_use_hooks is_match config call.function.name,
        ¬ (hook.ends (post_tool_use_input env call args (result_blocks env raw))).Aborts :=
      fun hook hhook h => haborts ⟨hook, hhook, h⟩
    rw [run_event_ok hnone]
    exact iff_of_false (fun ⟨_, h⟩ => by cases h) haborts

/-- **How a call goes**: a command aborts it, or one refuses it, or it is dispatched with the
rewritten arguments; then it fails, and the made-up result has the arguments of the response, or
it has its own. -/
theorem execute_cases :
    (∃ hook ∈ pre_tool_use_hooks is_match config call.function.name,
        (hook.ends (first_input env call)).Aborts) ∧
      ¬ Invokes (execute_tool_call readers is_match config setup env call).run ∨
    (∃ hook ∈ pre_tool_use_hooks is_match config call.function.name,
        Refuses readers (hook.ends (first_input env call)).stdout) ∧
      ¬ Invokes (execute_tool_call readers is_match config setup env call).run ∧
      processed_given readers is_match config setup env call =
        [⟨.Result, rewritten_args readers is_match config env call⟩] ∨
    (∀ hook ∈ pre_tool_use_hooks is_match config call.function.name,
        ¬ (hook.ends (first_input env call)).Aborts ∧
          ¬ Refuses readers (hook.ends (first_input env call)).stdout) ∧
      (execute_tool_call readers is_match config setup env call).run.actions =
        (dispatch readers is_match config setup env call.function.name
          (rewritten_args readers is_match config env call)).1.actions ∧
      ∃ behind : List Given, ∃ reported : String,
        processed_given readers is_match config setup env call =
          ⟨.Start, rewritten_args readers is_match config env call⟩ ::
            ((dispatch readers is_match config setup env call.function.name
              (rewritten_args readers is_match config env call)).2 ++
                (behind ++ [⟨.Result, reported⟩])) ∧
        (∀ given ∈ behind, given.args = rewritten_args readers is_match config env call) ∧
        (Fails readers is_match config setup env call
            (rewritten_args readers is_match config env call) →
          reported = call.function.arguments) ∧
        (¬ Fails readers is_match config setup env call
            (rewritten_args readers is_match config env call) →
          reported = rewritten_args readers is_match config env call) := by
  have hidle : ∀ {cache : String → Option Bool}
      {result : Except String (List Content × Bool × ToolSource)},
      ¬ Invokes ⟨[], cache, result⟩ :=
    fun ⟨_, _, hmem⟩ => absurd hmem List.not_mem_nil
  unfold processed_given execute_tool_call
  dsimp only
  by_cases haborts : ∃ hook ∈ pre_tool_use_hooks is_match config call.function.name,
      (hook.ends (first_input env call)).Aborts
  · obtain ⟨error, herror⟩ := @pre_tool_use_error readers is_match config env call haborts
    rw [first_input] at herror
    rw [herror]
    exact .inl ⟨haborts, hidle⟩
  · have hnone : ∀ hook ∈ pre_tool_use_hooks is_match config call.function.name,
        ¬ (hook.ends (first_input env call)).Aborts :=
      fun hook hhook h => haborts ⟨hook, hhook, h⟩
    obtain ⟨result, hresult, hblock, hargs⟩ := @pre_tool_use_ok readers is_match config env call hnone
    rw [first_input] at hresult
    rw [hresult]
    dsimp only
    rw [hargs]
    by_cases hrefused : result.should_block = true
    · rw [if_pos hrefused]
      exact .inr (.inl ⟨hblock.1 hrefused, hidle, rfl⟩)
    · rw [if_neg hrefused]
      refine .inr (.inr ⟨fun hook hhook => ⟨hnone hook hhook, fun h => ?_⟩, ?_⟩)
      · exact hrefused (hblock.2 ⟨hook, hhook, h⟩)
      · unfold Fails
        generalize rewritten_args readers is_match config env call = args
        cases hdispatch : (dispatch readers is_match config setup env call.function.name
            args).1.result with
        | error error =>
            dsimp only
            rw [hdispatch]
            refine ⟨rfl, [], call.function.arguments, ?_, fun _ h => absurd h List.not_mem_nil,
              fun _ => rfl, fun h => absurd trivial h⟩
            rw [List.nil_append, List.cons_append]
        | ok raw =>
            dsimp only
            have hafter := @after_tool_use_error_iff readers is_match config env call args raw
            have hbehind : ∀ given ∈ [(⟨.PostHooks, args⟩ : Given)], given.args = args :=
              fun given hgiven => by rw [List.mem_singleton.1 hgiven]
            cases hresult : after_tool_use readers is_match config env call args raw with
            | error error =>
                refine ⟨rfl, [⟨.PostHooks, args⟩], call.function.arguments, ?_, hbehind,
                  fun _ => rfl, fun h => absurd (hafter.1 ⟨error, hresult⟩) h⟩
                simp
            | ok output =>
                refine ⟨rfl, [⟨.PostHooks, args⟩], args, ?_, hbehind, fun h => ?_, fun _ => rfl⟩
                · simp
                · obtain ⟨error, herror⟩ := hafter.2 h
                  rw [hresult] at herror
                  cases herror

/-- A tool runs exactly if no command aborts the call, none refuses it, and it reaches one. -/
theorem invokes_iff : Invokes (execute_tool_call readers is_match config setup env call).run ↔
    (∀ hook ∈ pre_tool_use_hooks is_match config call.function.name,
      ¬ (hook.ends (first_input env call)).Aborts ∧
        ¬ Refuses readers (hook.ends (first_input env call)).stdout) ∧
      Reaches readers is_match config setup env call.function.name
        (rewritten_args readers is_match config env call) := by
  obtain ⟨⟨hook, hhook, haborts⟩, hidle⟩ | ⟨⟨hook, hhook, hrefuses⟩, hidle, -⟩ |
    ⟨hclear, hactions, -⟩ := @execute_cases readers is_match config setup env call
  · exact iff_of_false hidle fun h => (h.1 hook hhook).1 haborts
  · exact iff_of_false hidle fun h => (h.1 hook hhook).2 hrefuses
  · rw [Invokes, hactions, ← Invokes, invokes_dispatch_iff]
    exact ⟨fun h => ⟨hclear, h⟩, fun h => h.2⟩

/-- The gate is closed by every command that does not end normally, unless a signal ends it. -/
theorem gate_iff :
    (Invokes (execute_tool_call readers is_match config setup env call).run →
      ∀ hook ∈ pre_tool_use_hooks is_match config call.function.name,
        (hook.ends (first_input env call)).Normal ∧
          ¬ Refuses readers (hook.ends (first_input env call)).stdout) ↔
    ((∀ hook ∈ pre_tool_use_hooks is_match config call.function.name,
      ¬ (hook.ends (first_input env call)).BySignal) ∨
    (∃ hook ∈ pre_tool_use_hooks is_match config call.function.name,
      (hook.ends (first_input env call)).Aborts) ∨
    (∃ hook ∈ pre_tool_use_hooks is_match config call.function.name,
      Refuses readers (hook.ends (first_input env call)).stdout) ∨
    ¬ Reaches readers is_match config setup env call.function.name
      (rewritten_args readers is_match config env call)) := by
  rw [invokes_iff]
  constructor
  · intro h
    by_cases hclear : ∀ hook ∈ pre_tool_use_hooks is_match config call.function.name,
        ¬ (hook.ends (first_input env call)).Aborts ∧
          ¬ Refuses readers (hook.ends (first_input env call)).stdout
    · by_cases hreaches : Reaches readers is_match config setup env call.function.name
          (rewritten_args readers is_match config env call)
      · exact .inl fun hook hhook =>
          ((Ending.normal_iff _).1 (h ⟨hclear, hreaches⟩ hook hhook).1).2
      · exact .inr (.inr (.inr hreaches))
    · -- one of them aborts, or refuses
      push Not at hclear
      obtain ⟨hook, hhook, hnot⟩ := hclear
      by_cases haborts : (hook.ends (first_input env call)).Aborts
      · exact .inr (.inl ⟨hook, hhook, haborts⟩)
      · exact .inr (.inr (.inl ⟨hook, hhook, hnot haborts⟩))
  · rintro h ⟨hclear, hreaches⟩ hook hhook
    refine ⟨(Ending.normal_iff _).2 ⟨(hclear hook hhook).1, ?_⟩, (hclear hook hhook).2⟩
    rcases h with hsignal | ⟨hook', hhook', haborts⟩ | ⟨hook', hhook', hrefuses⟩ | hnot
    · exact hsignal hook hhook
    · exact absurd haborts (hclear hook' hhook').1
    · exact absurd hrefuses (hclear hook' hhook').2
    · exact absurd hreaches hnot

/-- **Whoever is given the arguments of a call is given the rewritten ones**, unless the call
fails behind the commands that rewrote them. -/
theorem rewritten_iff :
    ((∀ hook ∈ pre_tool_use_hooks is_match config call.function.name,
        ¬ (hook.ends (first_input env call)).Aborts) →
      ∀ given ∈ processed_given readers is_match config setup env call,
        given.args = rewritten_args readers is_match config env call) ↔
    ((∃ hook ∈ pre_tool_use_hooks is_match config call.function.name,
      (hook.ends (first_input env call)).Aborts) ∨
    (∃ hook ∈ pre_tool_use_hooks is_match config call.function.name,
      Refuses readers (hook.ends (first_input env call)).stdout) ∨
    ¬ Fails readers is_match config setup env call
      (rewritten_args readers is_match config env call) ∨
    rewritten_args readers is_match config env call = call.function.arguments) := by
  obtain ⟨⟨hook, hhook, haborts⟩, -⟩ | ⟨hrefuses, -, hgiven⟩ |
    ⟨hclear, -, behind, reported, hgiven, hbehind, hfailed, hpassed⟩ :=
      @execute_cases readers is_match config setup env call
  · exact iff_of_true (fun h => absurd haborts (h hook hhook)) (.inl ⟨hook, hhook, haborts⟩)
  · refine iff_of_true (fun _ given hmem => ?_) (.inr (.inl hrefuses))
    rw [hgiven] at hmem
    rw [List.mem_singleton.1 hmem]
  · have hreported : (⟨.Result, reported⟩ : Given) ∈
        processed_given readers is_match config setup env call := by
      rw [hgiven]
      exact List.mem_cons_of_mem _ (List.mem_append_right _ (List.mem_append_right _
        (List.mem_singleton_self _)))
    constructor
    · intro h
      by_cases hfails : Fails readers is_match config setup env call
          (rewritten_args readers is_match config env call)
      · have hsame := h (fun hook hhook => (hclear hook hhook).1) _ hreported
        exact .inr (.inr (.inr (hsame.symm.trans (hfailed hfails))))
      · exact .inr (.inr (.inl hfails))
    · -- everybody but the result has the rewritten arguments, and the result has these
      intro h _ given hmem
      have hresult : reported = rewritten_args readers is_match config env call := by
        rcases h with ⟨hook, hhook, haborts⟩ | ⟨hook, hhook, hrefuses⟩ | hfails | hsame
        · exact absurd haborts (hclear hook hhook).1
        · exact absurd hrefuses (hclear hook hhook).2
        · exact hpassed hfails
        · by_cases hfails : Fails readers is_match config setup env call
              (rewritten_args readers is_match config env call)
          · exact (hfailed hfails).trans hsame.symm
          · exact hpassed hfails
      obtain ⟨recipients, hrecipients, -⟩ := @dispatch_given readers is_match config setup env
        call.function.name (rewritten_args readers is_match config env call)
      rw [hgiven, hrecipients] at hmem
      rcases List.mem_cons.1 hmem with rfl | hmem
      · rfl
      · rcases List.mem_append.1 hmem with hmem | hmem
        · obtain ⟨recipient, -, rfl⟩ := List.mem_map.1 hmem
          rfl
        · rcases List.mem_append.1 hmem with hmem | hmem
          · exact hbehind given hmem
          · rw [List.mem_singleton.1 hmem]
            exact hresult

/-- A tool that runs is told of at its start and with its result. -/
theorem given_of_invokes
    (hrewritten : (∀ hook ∈ pre_tool_use_hooks is_match config call.function.name,
        ¬ (hook.ends (first_input env call)).Aborts) →
      ∀ given ∈ processed_given readers is_match config setup env call,
        given.args = rewritten_args readers is_match config env call)
    (h : Invokes (execute_tool_call readers is_match config setup env call).run) :
    ∀ recipient ∈ [Recipient.Start, .Tool, .Result],
      ⟨recipient, rewritten_args readers is_match config env call⟩ ∈
        processed_given readers is_match config setup env call := by
  obtain ⟨-, hidle⟩ | ⟨-, hidle, -⟩ | ⟨hclear, hactions, behind, reported, hgiven, -, -, -⟩ :=
    @execute_cases readers is_match config setup env call
  · exact absurd h hidle
  · exact absurd h hidle
  · rw [Invokes, hactions, ← Invokes] at h
    obtain ⟨recipients, hrecipients, hran⟩ := @dispatch_given readers is_match config setup env
      call.function.name (rewritten_args readers is_match config env call)
    have hreported : (⟨.Result, reported⟩ : Given) ∈
        processed_given readers is_match config setup env call := by
      rw [hgiven]
      exact List.mem_cons_of_mem _ (List.mem_append_right _ (List.mem_append_right _
        (List.mem_singleton_self _)))
    have hresult : reported = rewritten_args readers is_match config env call :=
      hrewritten (fun hook hhook => (hclear hook hhook).1) _ hreported
    rw [hresult] at hreported
    intro recipient hrecipient
    simp only [List.mem_cons, List.not_mem_nil, or_false] at hrecipient
    rcases hrecipient with rfl | rfl | rfl
    · rw [hgiven]
      exact List.mem_cons_self
    · rw [hgiven, hrecipients]
      exact List.mem_cons_of_mem _ (List.mem_append_left _ (List.mem_map_of_mem (hran h).1))
    · exact hreported

/-! ## 6. The request for a permission -/

variable {input : PermissionRequestCommandInput}

theorem hook_decision_ok
    (h : ∀ hook ∈ permission_request_hooks is_match config input.tool_name,
      ¬ (hook.ends input).Aborts) :
    hook_decision readers is_match config input =
      decided none ((permission_request_hooks is_match config input.tool_name).map fun hook =>
        decision_of readers (hook.ends input).stdout) := by
  unfold hook_decision
  rw [run_permission_request_eq, run_event_ok h]
  have hdecision := @read_permission_requests_decision readers PermissionRequestResult.default
    ((permission_request_hooks is_match config input.tool_name).map fun hook =>
      (hook.ends input).stdout)
  rw [List.map_map] at hdecision
  exact hdecision

theorem hook_decision_error
    (h : ∃ hook ∈ permission_request_hooks is_match config input.tool_name,
      (hook.ends input).Aborts) :
    hook_decision readers is_match config input = none := by
  unfold hook_decision
  obtain ⟨error, herror⟩ := @run_event_error _ "permission_request" _ _ h
  rw [run_permission_request_eq, herror]
  rfl

/-- **Denied by the commands together**: none aborts, and one denies. -/
theorem isDeny_iff : IsDeny (hook_decision readers is_match config input) ↔
    (∀ hook ∈ permission_request_hooks is_match config input.tool_name,
      ¬ (hook.ends input).Aborts) ∧
      ∃ hook ∈ permission_request_hooks is_match config input.tool_name,
        Denies readers (hook.ends input).stdout := by
  by_cases h : ∀ hook ∈ permission_request_hooks is_match config input.tool_name,
      ¬ (hook.ends input).Aborts
  · rw [hook_decision_ok h]
    refine (decided_deny_iff fun _ hnone => by cases hnone).trans ?_
    simp only [List.mem_map]
    constructor
    · rintro ⟨message, hook, hhook, hdenies⟩
      exact ⟨h, hook, hhook, message, hdenies⟩
    · rintro ⟨-, hook, hhook, message, hdenies⟩
      exact ⟨message, hook, hhook, hdenies⟩
  · refine iff_of_false (fun ⟨message, hdeny⟩ => ?_) fun hboth => h hboth.1
    push Not at h
    rw [hook_decision_error h] at hdeny
    cases hdeny

/-- **Allowed by the commands together**: none aborts, none denies, and one allows. -/
theorem isAllow_iff : hook_decision readers is_match config input = some .Allow ↔
    (∀ hook ∈ permission_request_hooks is_match config input.tool_name,
      ¬ (hook.ends input).Aborts) ∧
      (¬ ∃ hook ∈ permission_request_hooks is_match config input.tool_name,
        Denies readers (hook.ends input).stdout) ∧
      ∃ hook ∈ permission_request_hooks is_match config input.tool_name,
        Allows readers (hook.ends input).stdout := by
  by_cases h : ∀ hook ∈ permission_request_hooks is_match config input.tool_name,
      ¬ (hook.ends input).Aborts
  · rw [hook_decision_ok h, decided_allow_iff fun _ hnone => by cases hnone]
    simp only [List.mem_map]
    constructor
    · rintro ⟨hdenies, hallow⟩
      refine ⟨h, fun ⟨hook, hhook, message, hdeny⟩ => hdenies ⟨message, hook, hhook, hdeny⟩, ?_⟩
      exact hallow.resolve_left fun hnone => by cases hnone
    · rintro ⟨-, hdenies, hallow⟩
      exact ⟨fun ⟨message, hook, hhook, hdeny⟩ => hdenies ⟨hook, hhook, message, hdeny⟩,
        .inr hallow⟩
  · refine iff_of_false (fun hallow => ?_) fun hall => h hall.1
    push Not at h
    rw [hook_decision_error h] at hallow
    cases hallow

/-- With the commands in another order the decision is the same. -/
theorem decision_of_perm {config' : HooksConfig}
    (h : (permission_request_hooks is_match config' input.tool_name).Perm
      (permission_request_hooks is_match config input.tool_name)) :
    (IsDeny (hook_decision readers is_match config' input) ↔
      IsDeny (hook_decision readers is_match config input)) ∧
    (hook_decision readers is_match config' input = some .Allow ↔
      hook_decision readers is_match config input = some .Allow) := by
  simp only [isDeny_iff, isAllow_iff, h.mem_iff, and_self]

end

/-! ## 7. Refusals win -/

/-- A command for every tool, that is killed before it prints anything. -/
def crashing_config : HooksConfig where
  enabled := true
  pre_tool_use := [⟨none, [⟨⟨"./guard.sh", none, []⟩, fun _ => .Signalled "" ""⟩]⟩]
  permission_request := []
  post_tool_use := []

/-- One that rewrites the arguments, and one behind the call that exits with 1. -/
def auditing_config : HooksConfig where
  enabled := true
  pre_tool_use := [⟨none, [⟨⟨"./rewrite.sh", none, []⟩, fun _ => .Exited 0 "\x7b\x7d" ""⟩]⟩]
  permission_request := []
  post_tool_use := [⟨none, [⟨⟨"./audit.sh", none, []⟩, fun _ => .Exited 1 "" ""⟩]⟩]

def guarded_setup : ToolSetup where
  tool_config := ⟨.BuiltInAndProvider, none, ∅⟩
  mutating_tools := ∅
  tool_registry := ToolRegistry.new.add ⟨"shell", "Run a command", "", fun _ => .ok []⟩
  mcp := .empty
  provider := .Plain

def quiet_env : CallEnv where
  session_id := "session-1"
  turn_id := "turn-1"
  cwd := none
  model := "model"
  permission_mode := "default"
  active_task := none
  permission_cache := fun _ => none
  bridge := none
  provider_error := none
  truncate := id

def shell_call : MiddlewareToolCall := ⟨"call-1", ⟨"shell", "rm -r ."⟩⟩

/-- Every output before a tool rewrites the arguments; no other output is read. -/
def rewriting_readers : Readers where
  pre_tool_use := fun _ => .ok ⟨none, none, some ⟨none, none, some "ls", none⟩⟩
  permission_request := fun _ => .error ""
  post_tool_use := fun _ => .error ""

def literal_match (matcher value : String) : Option Bool := some (decide (matcher = value))

end Querymt.Hooks
