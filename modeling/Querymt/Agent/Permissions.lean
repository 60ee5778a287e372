/-
`Agent/Permissions.lean` -- which tools are offered, and which tools run.

Two pieces of code decide this independently. `AgentConfig::collect_tools` builds the
list sent to the model from the policy, the allowlist and three sources of tools.
`execute_tool_call` (`tool_calls.rs`) dispatches a call by name: the built-in
registry first, then the MCP snapshot, then the provider, and only the provider's
branch goes through `ensure_tool_permission`. The policy is not consulted there, and
the allowlist is asked once for the name, whatever source then answers to it. The
file proves for which configurations the two agree on a name.

Modelled is `execute_tool_call` up to the raw result; truncation of the output, the
post-tool hook, snapshots and events work on that result. The JSON of the arguments
stays the text it is parsed from.
-/
import Querymt.Agent.State

set_option autoImplicit false

namespace Querymt.Agent

/-! ## 1. Tools and their three sources -/

/-- `querymt::chat::Tool`: what the model is told about a tool. -/
structure Tool where
  name : String
  description : String
  parameters : String
  deriving DecidableEq

/-- A built-in tool; its definition carries its own name. -/
structure BuiltInTool where
  name : String
  description : String
  parameters : String
  call : String → Except String (List Content)

def BuiltInTool.definition (tool : BuiltInTool) : Tool :=
  ⟨tool.name, tool.description, tool.parameters⟩

/-- The registry is a map by name. -/
structure ToolRegistry where
  tools : List BuiltInTool
  distinct : (tools.map BuiltInTool.name).Nodup

def ToolRegistry.new : ToolRegistry := ⟨[], List.nodup_nil⟩

/-- A tool takes the place of the one registered under its name. -/
def ToolRegistry.add (registry : ToolRegistry) (tool : BuiltInTool) : ToolRegistry where
  tools := tool :: registry.tools.filter fun other => other.name ≠ tool.name
  distinct := by
    rw [List.map_cons, List.nodup_cons]
    refine ⟨?_, (List.filter_sublist.map BuiltInTool.name).nodup registry.distinct⟩
    intro hmem
    obtain ⟨other, hother, hname⟩ := List.mem_map.1 hmem
    exact absurd hname (of_decide_eq_true (List.mem_filter.1 hother).2)

def ToolRegistry.definitions (registry : ToolRegistry) : List Tool :=
  registry.tools.map BuiltInTool.definition

def ToolRegistry.find (registry : ToolRegistry) (name : String) : Option BuiltInTool :=
  registry.tools.find? fun tool => tool.name = name

structure McpToolAdapter where
  server_name : String
  descriptor : Tool
  call : String → Except String (List Content)

/-- `McpToolSnapshot`: the adapters by the name of their descriptor, and the
definitions published with them. -/
structure McpToolSnapshot where
  tools : List McpToolAdapter
  tool_defs : List Tool

namespace McpToolSnapshot

variable (snapshot : McpToolSnapshot)

def empty : McpToolSnapshot := ⟨[], []⟩

def get (name : String) : Option McpToolAdapter :=
  snapshot.tools.find? fun adapter => adapter.descriptor.name = name

def server_of (name : String) : Option String :=
  (snapshot.get name).map McpToolAdapter.server_name

/-- One adapter in the loops of `build_mcp_state`, `merge_connected_mcp_peers` and
`on_tool_list_changed`: the first tool of a name is kept. -/
def add_tool (adapter : McpToolAdapter) : McpToolSnapshot :=
  if (snapshot.get adapter.descriptor.name).isSome then snapshot
  else ⟨snapshot.tools ++ [adapter], snapshot.tool_defs ++ [adapter.descriptor]⟩

/-- `on_tool_list_changed`: the tools of the other servers, then the new ones of this
server. -/
def refresh (server_name : String) (adapters : List McpToolAdapter) : McpToolSnapshot :=
  adapters.foldl add_tool
    ⟨snapshot.tools.filter fun adapter => adapter.server_name ≠ server_name,
      snapshot.tool_defs.filter fun tool_def =>
        (snapshot.server_of tool_def.name).any fun server => decide (server ≠ server_name)⟩

end McpToolSnapshot

/-- A tool registered with a provider (`CallFunctionTool`). -/
structure CallableTool where
  descriptor : Tool
  call : String → Except String (List Content)

/-- A provider as its factory made it, or wrapped in a `ToolEnabledProvider`. -/
inductive LlmProvider where
  | Plain
  | ToolEnabled (tool_list : List Tool) (registry : List (String × CallableTool))

def LlmProvider.tools : LlmProvider → Option (List Tool)
  | .Plain => none
  | .ToolEnabled tool_list _ => some tool_list

/-- The tool that `call_tool` runs. -/
def LlmProvider.find (name : String) : LlmProvider → Option CallableTool
  | .Plain => none
  | .ToolEnabled _ registry => registry.lookup name

/-- `LLMProvider::call_tool`. -/
def LlmProvider.call_tool (provider : LlmProvider) (name args : String) :
    Except String (List Content) :=
  match provider with
  | .Plain => .error "LLM Provider Error: tool calling not supported"
  | .ToolEnabled _ registry =>
      match registry.lookup name with
      | none => .error ("Invalid Request: unknown tool `" ++ name ++ "`")
      | some tool =>
          match tool.call args with
          | .ok blocks => .ok blocks
          | .error error => .error ("Invalid Request: " ++ error)

/-! ## 2. Configuration -/

inductive ToolPolicy where
  | BuiltInOnly
  | ProviderOnly
  | BuiltInAndProvider
  deriving DecidableEq

structure ToolConfig where
  policy : ToolPolicy
  allowlist : Option (Finset String)
  denylist : Finset String

/-- `is_mcp_tool_allowed_with`. -/
def is_mcp_tool_allowed_with (config : ToolConfig) (name : String) (server_name : Option String) :
    Bool :=
  if name ∈ config.denylist then false
  else
    match config.allowlist with
    | none => true
    | some allowlist =>
        if name ∈ allowlist then true
        else
          match server_name with
          | some sname => decide (sname ++ ".*" ∈ allowlist)
          | none => false

/-- `is_tool_allowed_with`. -/
def is_tool_allowed_with (config : ToolConfig) (name : String) : Bool :=
  is_mcp_tool_allowed_with config name none

inductive ToolKind where
  | Search
  | Edit
  | Delete
  | Execute
  | Fetch
  | Other
  deriving DecidableEq

def tool_kind_for_tool (name : String) : ToolKind :=
  if name = "search_text" then .Search
  else if name = "mdq" then .Search
  else if name = "write_file" ∨ name = "edit" ∨ name = "multiedit" then .Edit
  else if name = "delete_file" then .Delete
  else if name = "shell" then .Execute
  else if name = "web_fetch" ∨ name = "browse" then .Fetch
  else .Other

/-- What a session has to offer: the agent's configuration with the tool configuration
of the turn, the MCP snapshot of the runtime, and the provider. -/
structure ToolSetup where
  tool_config : ToolConfig
  mutating_tools : Finset String
  tool_registry : ToolRegistry
  mcp : McpToolSnapshot
  provider : LlmProvider

/-- `requires_permission_for_tool`. -/
def requires_permission_for_tool (setup : ToolSetup) (tool_name : String) : Bool :=
  decide (tool_name ∈ setup.mutating_tools) ||
    match tool_kind_for_tool tool_name with
    | .Edit | .Delete | .Execute => true
    | .Search | .Fetch | .Other => false

/-! ## 3. The offer -/

/-- Where a tool comes from; `Blocked` marks the result of a call that is not allowed. -/
inductive ToolSource where
  | Blocked
  | Builtin
  | Mcp
  | Provider
  deriving DecidableEq

/-- `collect_tools`, each definition with the source it was taken from. -/
def collect_tools (setup : ToolSetup) : List (ToolSource × Tool) :=
  let config := setup.tool_config
  let builtins := setup.tool_registry.definitions.map fun tool => (ToolSource.Builtin, tool)
  let provided := (setup.provider.tools.getD []).map fun tool => (ToolSource.Provider, tool)
  let tools :=
    match config.policy with
    | .BuiltInOnly => builtins
    | .ProviderOnly => provided
    | .BuiltInAndProvider => builtins ++ provided
  let mcp_tool_defs :=
    match config.policy with
    | .ProviderOnly | .BuiltInAndProvider => setup.mcp.tool_defs
    | .BuiltInOnly => []
  (tools.filter fun tool => is_tool_allowed_with config tool.2.name) ++
    (mcp_tool_defs.filter fun tool_def =>
      is_mcp_tool_allowed_with config tool_def.name (setup.mcp.server_of tool_def.name)).map
        fun tool => (ToolSource.Mcp, tool)

/-! ## 4. Permission -/

inductive TaskStatus where
  | Active
  | Paused
  | Done
  | Cancelled
  deriving DecidableEq

inductive PermissionRequestDecision where
  | Allow
  | Deny (message : String)

/-- The client selects one of the options, or cancels. -/
inductive RequestPermissionOutcome where
  | Selected (option_id : String)
  | Cancelled
  deriving DecidableEq

structure PreToolUseResult where
  should_block : Bool
  block_reason : Option String
  updated_input : Option String

/-- What a call meets outside the configuration. -/
structure ToolEnv where
  pre_tool_use : Except String PreToolUseResult
  active_task : Option TaskStatus
  permission_cache : String → Option Bool
  permission_request : Except String (Option PermissionRequestDecision)
  /-- the client and its answer, when one is attached -/
  bridge : Option (Except String RequestPermissionOutcome)
  /-- the provider cannot be built -/
  provider_error : Option String

/-- The decision, and the cache it leaves. -/
abbrev Permission := Except String Bool × (String → Option Bool)

/-- `ensure_tool_permission`. -/
def ensure_tool_permission (setup : ToolSetup) (env : ToolEnv) (tool_name : String) : Permission :=
  let cache := env.permission_cache
  if requires_permission_for_tool setup tool_name = false then (.ok true, cache)
  else if env.active_task.any fun status => decide (status ≠ .Active) then (.ok false, cache)
  else
    match cache tool_name with
    | some cached => (.ok cached, cache)
    | none =>
        match env.permission_request with
        | .error error => (.error error, cache)
        | .ok (some .Allow) => (.ok true, cache)
        | .ok (some (.Deny _)) => (.ok false, cache)
        | .ok none =>
            match env.bridge with
            | none => (.ok true, cache)
            | some (.error error) => (.error error, cache)
            | some (.ok (.Selected option_id)) =>
                let allow := decide (option_id = "allow_once" ∨ option_id = "allow_always")
                if option_id = "allow_always" then
                  (.ok allow, Function.update cache tool_name (some true))
                else if option_id = "reject_always" then
                  (.ok allow, Function.update cache tool_name (some false))
                else (.ok allow, cache)
            | some (.ok .Cancelled) => (.ok false, cache)

/-! ## 5. The dispatch -/

/-- What a call does that others can see. -/
inductive ToolAction where
  | PermissionGranted
  | Invoked (source : ToolSource) (tool : Tool)
  deriving DecidableEq

structure ToolRun where
  actions : List ToolAction
  permission_cache : String → Option Bool
  /-- the raw blocks, whether they are an error, and the source -/
  result : Except String (List Content × Bool × ToolSource)

/-- The result of a tool that ran. -/
def tool_output (source : ToolSource) :
    Except String (List Content) → List Content × Bool × ToolSource
  | .ok blocks => (blocks, false, source)
  | .error error => ([.Text ("Error: " ++ error)], true, source)

/-- The provider's branch, once permission is granted. -/
def call_provider (setup : ToolSetup) (env : ToolEnv) (name args : String) :
    List ToolAction × (List Content × Bool × ToolSource) :=
  match env.provider_error with
  | some error => ([], tool_output .Provider (.error error))
  | none =>
      ((setup.provider.find name).toList.map fun tool => .Invoked .Provider tool.descriptor,
        tool_output .Provider (setup.provider.call_tool name args))

/-- The dispatch of `execute_tool_call`, with the arguments in effect. -/
def dispatch (setup : ToolSetup) (env : ToolEnv) (name args : String) : ToolRun :=
  let cache := env.permission_cache
  if is_mcp_tool_allowed_with setup.tool_config name (setup.mcp.server_of name) = false then
    ⟨[], cache, .ok ([.Text ("Error: tool '" ++ name ++ "' is not allowed")], true, .Blocked)⟩
  else
    match setup.tool_registry.find name with
    | some tool =>
        ⟨[.Invoked .Builtin tool.definition], cache, .ok (tool_output .Builtin (tool.call args))⟩
    | none =>
        match setup.mcp.get name with
        | some tool =>
            ⟨[.Invoked .Mcp tool.descriptor], cache, .ok (tool_output .Mcp (tool.call args))⟩
        | none =>
            match ensure_tool_permission setup env name with
            | (.error error, cache') => ⟨[], cache', .error ("Permission check failed: " ++ error)⟩
            | (.ok false, cache') =>
                ⟨[], cache', .ok ([.Text "Error: permission denied"], true, .Provider)⟩
            | (.ok true, cache') =>
                ⟨.PermissionGranted :: (call_provider setup env name args).1, cache',
                  .ok (call_provider setup env name args).2⟩

/-- `execute_tool_call`, up to the raw result. -/
def execute_tool_call (setup : ToolSetup) (env : ToolEnv) (call : MiddlewareToolCall) : ToolRun :=
  match env.pre_tool_use with
  | .error error => ⟨[], env.permission_cache, .error error⟩
  | .ok hook_result =>
      if hook_result.should_block then
        ⟨[], env.permission_cache, .ok ([.Text ("Error: " ++
          hook_result.block_reason.getD "tool blocked by hook")], true, .Blocked)⟩
      else
        dispatch setup env call.function.name
          (hook_result.updated_input.getD call.function.arguments)

/-! ## 6. The law and the condition -/

/-- **Only offered and permitted tools run.** Whatever a call invokes was listed, under
the name it was called by and from the source it is taken from, and had been permitted
where that is required. -/
def OnlyOffered (setup : ToolSetup) (name : String) (run : ToolRun) : Prop :=
  ∀ before source tool after, run.actions = before ++ .Invoked source tool :: after →
    (source, tool) ∈ collect_tools setup ∧ tool.name = name ∧
      (requires_permission_for_tool setup name = true → .PermissionGranted ∈ before)

/-- **The condition.** A name that is not blocked belongs to a tool the policy offers;
for a built-in tool the allowlist names it without the help of an MCP server, and only
the provider's tools may need permission. -/
def Offers (setup : ToolSetup) (name : String) : Prop :=
  is_mcp_tool_allowed_with setup.tool_config name (setup.mcp.server_of name) = true →
    match setup.tool_registry.find name, setup.mcp.get name with
    | some _, _ =>
        setup.tool_config.policy ≠ .ProviderOnly ∧
          is_tool_allowed_with setup.tool_config name = true ∧
          requires_permission_for_tool setup name = false
    | none, some adapter =>
        setup.tool_config.policy ≠ .BuiltInOnly ∧ adapter.descriptor ∈ setup.mcp.tool_defs ∧
          requires_permission_for_tool setup name = false
    | none, none =>
        ∀ tool, setup.provider.find name = some tool →
          setup.tool_config.policy ≠ .BuiltInOnly ∧
            tool.descriptor ∈ setup.provider.tools.getD [] ∧ tool.descriptor.name = name

/-! ## 7. What is listed -/

section

variable {setup : ToolSetup}

theorem mem_collect_builtin (tool : Tool) :
    (ToolSource.Builtin, tool) ∈ collect_tools setup ↔
      setup.tool_config.policy ≠ .ProviderOnly ∧ tool ∈ setup.tool_registry.definitions ∧
        is_tool_allowed_with setup.tool_config tool.name = true := by
  rw [collect_tools, List.mem_append, List.mem_filter]
  rcases setup.tool_config.policy <;> simp

theorem mem_collect_provider (tool : Tool) :
    (ToolSource.Provider, tool) ∈ collect_tools setup ↔
      setup.tool_config.policy ≠ .BuiltInOnly ∧ tool ∈ setup.provider.tools.getD [] ∧
        is_tool_allowed_with setup.tool_config tool.name = true := by
  rw [collect_tools, List.mem_append, List.mem_filter]
  rcases setup.tool_config.policy <;> simp

theorem mem_collect_mcp (tool : Tool) :
    (ToolSource.Mcp, tool) ∈ collect_tools setup ↔
      setup.tool_config.policy ≠ .BuiltInOnly ∧ tool ∈ setup.mcp.tool_defs ∧
        is_mcp_tool_allowed_with setup.tool_config tool.name (setup.mcp.server_of tool.name) =
          true := by
  rw [collect_tools, List.mem_append, List.mem_filter]
  rcases setup.tool_config.policy <;> simp

end

theorem ToolRegistry.find_spec {registry : ToolRegistry} {name : String} {tool : BuiltInTool}
    (h : registry.find name = some tool) :
    tool.definition ∈ registry.definitions ∧ tool.name = name := by
  have hname := List.find?_some h
  exact ⟨List.mem_map_of_mem (List.mem_of_find?_eq_some h), of_decide_eq_true hname⟩

theorem McpToolSnapshot.get_spec {snapshot : McpToolSnapshot} {name : String}
    {adapter : McpToolAdapter} (h : snapshot.get name = some adapter) :
    adapter ∈ snapshot.tools ∧ adapter.descriptor.name = name := by
  have hname := List.find?_some h
  exact ⟨List.mem_of_find?_eq_some h, of_decide_eq_true hname⟩

/-- **A published snapshot**: names are distinct, and every tool that would run is
defined. -/
structure McpToolSnapshot.Consistent (snapshot : McpToolSnapshot) : Prop where
  distinct : (snapshot.tools.map fun adapter => adapter.descriptor.name).Nodup
  defined : ∀ adapter ∈ snapshot.tools, adapter.descriptor ∈ snapshot.tool_defs

namespace McpToolSnapshot

variable {snapshot : McpToolSnapshot}

theorem consistent_empty : empty.Consistent :=
  ⟨List.nodup_nil, fun adapter hadapter => by cases hadapter⟩

theorem get_of_mem (h : (snapshot.tools.map fun adapter => adapter.descriptor.name).Nodup)
    {adapter : McpToolAdapter} (hmem : adapter ∈ snapshot.tools) :
    snapshot.get adapter.descriptor.name = some adapter := by
  rcases hget : snapshot.get adapter.descriptor.name with _ | other
  · have hnone := List.find?_eq_none.1 hget adapter hmem
    exact absurd (decide_eq_true rfl) hnone
  · obtain ⟨hother, hname⟩ := get_spec hget
    rw [List.inj_on_of_nodup_map h hother hmem hname]

theorem Consistent.add_tool (h : snapshot.Consistent) (adapter : McpToolAdapter) :
    (snapshot.add_tool adapter).Consistent := by
  rw [McpToolSnapshot.add_tool]
  split
  · exact h
  · next hnew =>
      constructor
      · rw [List.map_append, List.nodup_append]
        refine ⟨h.distinct, List.nodup_singleton _, ?_⟩
        intro name hname name' hname' heq
        rw [List.map_singleton, List.mem_singleton] at hname'
        obtain ⟨other, hother, hsame⟩ := List.mem_map.1 hname
        have hget := get_of_mem h.distinct hother
        rw [show other.descriptor.name = adapter.descriptor.name from
          hsame.trans (heq.trans hname')] at hget
        rw [hget] at hnew
        exact hnew rfl
      · intro other hother
        rcases List.mem_append.1 hother with hother | hother
        · exact List.mem_append_left _ (h.defined other hother)
        · rw [List.mem_singleton.1 hother]
          exact List.mem_append_right _ (List.mem_singleton_self _)

theorem Consistent.add_tools (h : snapshot.Consistent) (adapters : List McpToolAdapter) :
    (adapters.foldl McpToolSnapshot.add_tool snapshot).Consistent := by
  induction adapters generalizing snapshot with
  | nil => exact h
  | cons adapter adapters ih => exact ih (h.add_tool adapter)

/-- A refresh keeps the definitions of exactly the adapters it keeps. -/
theorem Consistent.refresh (h : snapshot.Consistent) (server_name : String)
    (adapters : List McpToolAdapter) : (snapshot.refresh server_name adapters).Consistent := by
  rw [McpToolSnapshot.refresh]
  refine Consistent.add_tools ⟨?_, ?_⟩ adapters
  · exact (List.filter_sublist.map _).nodup h.distinct
  · intro adapter hadapter
    obtain ⟨hmem, hother⟩ := List.mem_filter.1 hadapter
    refine List.mem_filter.2 ⟨h.defined adapter hmem, ?_⟩
    rw [server_of, get_of_mem h.distinct hmem, Option.map_some, Option.any_some]
    exact hother

end McpToolSnapshot

/-! ## 8. What is invoked -/

section

variable {setup : ToolSetup} {name : String} {run : ToolRun} {source : ToolSource} {tool : Tool}

theorem onlyOffered_of_quiet (h : ∀ source tool, .Invoked source tool ∉ run.actions) :
    OnlyOffered setup name run := by
  intro before source tool after heq
  refine absurd ?_ (h source tool)
  rw [heq]
  exact List.mem_append_right _ List.mem_cons_self

/-- A tool that runs without having asked. -/
theorem onlyOffered_unasked (h : run.actions = [.Invoked source tool]) :
    OnlyOffered setup name run ↔
      (source, tool) ∈ collect_tools setup ∧ tool.name = name ∧
        requires_permission_for_tool setup name = false := by
  constructor
  · intro hoffered
    obtain ⟨hlisted, hname, hpermission⟩ := hoffered [] source tool [] h
    refine ⟨hlisted, hname, ?_⟩
    by_contra hrequired
    exact absurd (hpermission (by simpa using hrequired)) List.not_mem_nil
  · rintro ⟨hlisted, hname, hfree⟩ before source' tool' after heq
    rw [h] at heq
    rcases before with _ | ⟨first, before⟩
    · rw [List.nil_append, List.cons.injEq, ToolAction.Invoked.injEq] at heq
      obtain ⟨⟨rfl, rfl⟩, -⟩ := heq
      refine ⟨hlisted, hname, fun hrequired => ?_⟩
      rw [hfree] at hrequired
      cases hrequired
    · rw [List.cons_append, List.cons.injEq] at heq
      exact absurd heq.2.symm (List.append_ne_nil_of_right_ne_nil _ (List.cons_ne_nil _ _))

/-- A tool that runs after permission was granted. -/
theorem onlyOffered_granted (h : run.actions = [.PermissionGranted, .Invoked source tool]) :
    OnlyOffered setup name run ↔ (source, tool) ∈ collect_tools setup ∧ tool.name = name := by
  constructor
  · intro hoffered
    obtain ⟨hlisted, hname, -⟩ := hoffered [.PermissionGranted] source tool [] h
    exact ⟨hlisted, hname⟩
  · rintro ⟨hlisted, hname⟩ before source' tool' after heq
    rw [h] at heq
    rcases before with _ | ⟨first, _ | ⟨second, before⟩⟩
    · rw [List.nil_append, List.cons.injEq] at heq
      cases heq.1
    · rw [List.cons_append, List.nil_append, List.cons.injEq, List.cons.injEq,
        ToolAction.Invoked.injEq] at heq
      obtain ⟨rfl, ⟨rfl, rfl⟩, -⟩ := heq
      exact ⟨hlisted, hname, fun _ => List.mem_cons_self⟩
    · rw [List.cons_append, List.cons_append, List.cons.injEq, List.cons.injEq] at heq
      exact absurd heq.2.2.symm (List.append_ne_nil_of_right_ne_nil _ (List.cons_ne_nil _ _))

end

/-- What `ensure_tool_permission` lets pass: nothing to permit, or an active task and a
cached decision, the hook, the client, or no client to ask. -/
theorem ensure_tool_permission_granted {setup : ToolSetup} {env : ToolEnv} {name : String}
    (h : (ensure_tool_permission setup env name).1 = .ok true) :
    requires_permission_for_tool setup name = false ∨
      ((∀ status, env.active_task = some status → status = .Active) ∧
        (env.permission_cache name = some true ∨
          env.permission_request = .ok (some .Allow) ∨
          (env.permission_request = .ok none ∧
            (env.bridge = none ∨ env.bridge = some (.ok (.Selected "allow_once")) ∨
              env.bridge = some (.ok (.Selected "allow_always")))))) := by
  rw [ensure_tool_permission] at h
  dsimp only at h
  split at h
  · next hfree => exact .inl hfree
  · split at h
    · cases h
    · next htask =>
        right
        constructor
        · intro status hstatus
          rw [hstatus, Option.any_some] at htask
          simpa using htask
        · split at h
          · next cached hcached =>
              rw [Except.ok.injEq] at h
              rw [h] at hcached
              exact .inl hcached
          · split at h
            · cases h
            · next hhook => exact .inr (.inl hhook)
            · cases h
            · next hhook =>
                refine .inr (.inr ⟨hhook, ?_⟩)
                split at h
                · next hbridge => exact .inl hbridge
                · cases h
                · next option_id hbridge =>
                    -- whatever is cached, the answer is the option selected
                    have hallow : option_id = "allow_once" ∨ option_id = "allow_always" := by
                      split at h
                      · exact of_decide_eq_true (Except.ok.inj h)
                      · split at h
                        · exact of_decide_eq_true (Except.ok.inj h)
                        · exact of_decide_eq_true (Except.ok.inj h)
                    rcases hallow with rfl | rfl
                    · exact .inr (.inl hbridge)
                    · exact .inr (.inr hbridge)
                · cases h

/-! ## 9. Which configurations are safe -/

/-- No hook objects, the provider can be built, and every permission is granted. -/
def permissive_env : ToolEnv where
  pre_tool_use := .ok ⟨false, none, none⟩
  active_task := none
  permission_cache := fun _ => some true
  permission_request := .ok none
  bridge := none
  provider_error := none

theorem permissive_env_granted (setup : ToolSetup) (name : String) :
    ensure_tool_permission setup permissive_env name =
      (.ok true, permissive_env.permission_cache) := by
  rw [ensure_tool_permission]
  dsimp only
  split
  · rfl
  · rfl

section

variable {setup : ToolSetup} {name args : String}

/-- The provider's branch, in any environment. -/
theorem dispatch_provider_offered
    (hallowed : is_mcp_tool_allowed_with setup.tool_config name (setup.mcp.server_of name) = true)
    (hfind : setup.tool_registry.find name = none) (hget : setup.mcp.get name = none)
    (hoffers : ∀ tool, setup.provider.find name = some tool →
      setup.tool_config.policy ≠ .BuiltInOnly ∧
        tool.descriptor ∈ setup.provider.tools.getD [] ∧ tool.descriptor.name = name)
    (env : ToolEnv) : OnlyOffered setup name (dispatch setup env name args) := by
  have hserver : setup.mcp.server_of name = none := by
    rw [McpToolSnapshot.server_of, hget, Option.map_none]
  rw [hserver] at hallowed
  rw [dispatch, hserver, if_neg (by rw [hallowed]; decide), hfind, hget]
  dsimp only
  split
  · exact onlyOffered_of_quiet fun _ _ => List.not_mem_nil
  · exact onlyOffered_of_quiet fun _ _ => List.not_mem_nil
  · rw [call_provider]
    rcases env.provider_error with _ | error
    · rcases hprovider : setup.provider.find name with _ | tool
      · refine onlyOffered_of_quiet fun source tool hmem => ?_
        cases List.mem_singleton.1 hmem
      · obtain ⟨hpolicy, hlisted, hname⟩ := hoffers tool hprovider
        refine (onlyOffered_granted rfl).2 ⟨(mem_collect_provider _).2 ⟨hpolicy, hlisted, ?_⟩, hname⟩
        rw [hname]
        exact hallowed
    · refine onlyOffered_of_quiet fun source tool hmem => ?_
      cases List.mem_singleton.1 hmem

end

/-- **The configurations that are safe for a name**: whatever the hooks, the client and
the cache answer, a call of the name invokes only what was offered and permitted, if and
only if the configuration offers the name as the dispatch resolves it. -/
theorem only_offered_iff (setup : ToolSetup) (call : MiddlewareToolCall) :
    (∀ env, OnlyOffered setup call.function.name (execute_tool_call setup env call)) ↔
      Offers setup call.function.name := by
  constructor
  · intro hall hallowed
    have hrun : OnlyOffered setup call.function.name
        (dispatch setup permissive_env call.function.name call.function.arguments) :=
      hall permissive_env
    rw [dispatch, if_neg (by rw [hallowed]; decide)] at hrun
    rcases hfind : setup.tool_registry.find call.function.name with _ | tool
    · rw [hfind] at hrun
      rcases hget : setup.mcp.get call.function.name with _ | adapter
      · rw [hget] at hrun
        dsimp only at hrun ⊢
        rw [permissive_env_granted] at hrun
        intro tool htool
        dsimp only [call_provider, permissive_env] at hrun
        rw [htool] at hrun
        obtain ⟨hlisted, hname⟩ := (onlyOffered_granted rfl).1 hrun
        obtain ⟨hpolicy, hmem, -⟩ := (mem_collect_provider _).1 hlisted
        exact ⟨hpolicy, hmem, hname⟩
      · rw [hget] at hrun
        obtain ⟨hlisted, -, hfree⟩ := (onlyOffered_unasked rfl).1 hrun
        obtain ⟨hpolicy, hmem, -⟩ := (mem_collect_mcp _).1 hlisted
        exact ⟨hpolicy, hmem, hfree⟩
    · rw [hfind] at hrun
      obtain ⟨hlisted, hname, hfree⟩ := (onlyOffered_unasked rfl).1 hrun
      obtain ⟨hpolicy, -, hbasic⟩ := (mem_collect_builtin _).1 hlisted
      rw [hname] at hbasic
      exact ⟨hpolicy, hbasic, hfree⟩
  · intro hoffers env
    rw [execute_tool_call]
    rcases env.pre_tool_use with error | hook_result
    · exact onlyOffered_of_quiet fun _ _ => List.not_mem_nil
    · dsimp only
      split
      · exact onlyOffered_of_quiet fun _ _ => List.not_mem_nil
      · by_cases hallowed : is_mcp_tool_allowed_with setup.tool_config call.function.name
            (setup.mcp.server_of call.function.name) = true
        · have hoffered := hoffers hallowed
          rcases hfind : setup.tool_registry.find call.function.name with _ | tool
          · rw [hfind] at hoffered
            rcases hget : setup.mcp.get call.function.name with _ | adapter
            · rw [hget] at hoffered
              exact dispatch_provider_offered hallowed hfind hget hoffered env
            · rw [hget] at hoffered
              obtain ⟨hpolicy, hmem, hfree⟩ := hoffered
              have hname := (McpToolSnapshot.get_spec hget).2
              rw [dispatch, if_neg (by rw [hallowed]; decide), hfind, hget]
              refine (onlyOffered_unasked rfl).2 ⟨(mem_collect_mcp _).2 ⟨hpolicy, hmem, ?_⟩,
                hname, hfree⟩
              rw [hname]
              exact hallowed
          · rw [hfind] at hoffered
            obtain ⟨hpolicy, hbasic, hfree⟩ := hoffered
            obtain ⟨hmem, hname⟩ := ToolRegistry.find_spec hfind
            rw [dispatch, if_neg (by rw [hallowed]; decide), hfind]
            refine (onlyOffered_unasked rfl).2 ⟨(mem_collect_builtin _).2 ⟨hpolicy, hmem, ?_⟩,
              hname, hfree⟩
            rw [← hname] at hbasic
            exact hbasic
        · rw [dispatch, if_pos (by simpa using hallowed)]
          exact onlyOffered_of_quiet fun _ _ => List.not_mem_nil

/-- The tool `shell`, in a session with no policy of its own and a client that has
rejected it for good. -/
def shell_setup : ToolSetup where
  tool_config := ⟨.BuiltInAndProvider, none, ∅⟩
  mutating_tools := ∅
  tool_registry := ToolRegistry.new.add ⟨"shell", "Run a command", "", fun _ => .ok []⟩
  mcp := .empty
  provider := .Plain

def rejected_env : ToolEnv :=
  { permissive_env with permission_cache := fun _ => some false }

/-- It runs all the same: nobody asks before a built-in tool runs. -/
theorem rejected_shell_runs :
    (ensure_tool_permission shell_setup rejected_env "shell").1 = .ok false ∧
      ¬ OnlyOffered shell_setup "shell" (execute_tool_call shell_setup rejected_env
        ⟨"call-1", ⟨"shell", "rm -r ."⟩⟩) := by
  refine ⟨rfl, fun hoffered => ?_⟩
  have hfree := ((onlyOffered_unasked rfl).1 hoffered).2.2
  exact absurd hfree (by decide)

/-- With the default policy, no allowlist, a published snapshot and a provider that
lists what it runs, permission is the one thing the dispatch misses. -/
theorem offers_default_iff {setup : ToolSetup} {name : String}
    (hpolicy : setup.tool_config.policy = .BuiltInAndProvider)
    (hallowlist : setup.tool_config.allowlist = none) (hmcp : setup.mcp.Consistent)
    (hprovider : ∀ tool, setup.provider.find name = some tool →
      tool.descriptor ∈ setup.provider.tools.getD [] ∧ tool.descriptor.name = name) :
    Offers setup name ↔
      name ∈ setup.tool_config.denylist ∨
        (setup.tool_registry.find name = none ∧ setup.mcp.get name = none) ∨
        requires_permission_for_tool setup name = false := by
  have hallowed : ∀ server, is_mcp_tool_allowed_with setup.tool_config name server = true ↔
      name ∉ setup.tool_config.denylist := by
    intro server
    rw [is_mcp_tool_allowed_with, hallowlist]
    split
    · next hdenied => exact ⟨fun h => (by cases h), fun h => absurd hdenied h⟩
    · next hfree => exact ⟨fun _ => hfree, fun _ => rfl⟩
  rw [Offers, hallowed]
  by_cases hdenied : name ∈ setup.tool_config.denylist
  · exact ⟨fun _ => .inl hdenied, fun _ h => absurd hdenied h⟩
  · rcases hfind : setup.tool_registry.find name with _ | tool
    · rcases hget : setup.mcp.get name with _ | adapter
      · refine ⟨fun _ => .inr (.inl ⟨rfl, rfl⟩), fun _ _ tool htool => ?_⟩
        rw [hpolicy]
        exact ⟨by decide, hprovider tool htool⟩
      · constructor
        · intro h
          exact .inr (.inr (h hdenied).2.2)
        · rintro (h | ⟨-, h⟩ | hfree) _
          · exact absurd h hdenied
          · cases h
          · rw [hpolicy]
            exact ⟨by decide, hmcp.defined adapter (McpToolSnapshot.get_spec hget).1, hfree⟩
    · constructor
      · intro h
        exact .inr (.inr (h hdenied).2.2)
      · rintro (h | ⟨h, -⟩ | hfree) _
        · exact absurd h hdenied
        · cases h
        · rw [hpolicy]
          exact ⟨by decide, (hallowed none).2 hdenied, hfree⟩

end Querymt.Agent
