/-
`Agent/EffectiveHistory.lean` -- what the effective history keeps.

The three passes of `filter_to_effective_history` (cut at the last compaction request, drop
what carries only snapshot metadata, merge runs of tool results) lose no part but snapshot
metadata, and a second application finds nothing to do: the request stays in the first
message, whatever is merged into it, and every message keeps a part that is no snapshot.

What merging does is said by the runs it folds up (`ToolResultRun`), which carry the
reason why they may be folded.
-/
import Querymt.Agent.History

set_option autoImplicit false

namespace Querymt.Agent

/-! ## 1. The law -/

/-- `suffix` is the part of a history from its last compaction request on, or all of it if
there is none. -/
inductive SinceCompaction (messages : List AgentMessage) : List AgentMessage → Prop
  | all : (∀ m ∈ messages, m.has_compaction_request = false) → SinceCompaction messages messages
  | last {before : List AgentMessage} {m : AgentMessage} {after : List AgentMessage} :
      messages = before ++ m :: after → m.has_compaction_request = true →
      (∀ x ∈ after, x.has_compaction_request = false) → SinceCompaction messages (m :: after)

/-- One message, or several messages of the user in sequence that each carry a tool result. -/
structure ToolResultRun where
  first : AgentMessage
  rest : List AgentMessage
  results : ∀ m ∈ rest, first.is_user_tool_result = true ∧ m.is_user_tool_result = true

def ToolResultRun.messages (run : ToolResultRun) : List AgentMessage := run.first :: run.rest

/-- The first message of the run, with the parts of all of them. -/
def ToolResultRun.merged (run : ToolResultRun) : AgentMessage :=
  { run.first with parts := run.messages.flatMap AgentMessage.parts }

/-- No two tool-result messages of the user stand next to each other. -/
def Separated (messages : List AgentMessage) : Prop :=
  messages.IsChain fun m m' => ¬(m.is_user_tool_result = true ∧ m'.is_user_tool_result = true)

/-! ## 2. The cut -/

theorem exists_since_compaction (messages : List AgentMessage) :
    ∃ suffix, SinceCompaction messages suffix := by
  induction messages with
  | nil => exact ⟨[], .all fun m hm => absurd hm List.not_mem_nil⟩
  | cons m rest ih =>
      obtain ⟨suffix, hsuffix⟩ := ih
      cases hsuffix with
      | all hnone =>
          by_cases hrequest : m.has_compaction_request = true
          · exact ⟨m :: rest, .last (List.nil_append _).symm hrequest hnone⟩
          · refine ⟨m :: rest, .all ?_⟩
            intro x hx
            rcases List.mem_cons.1 hx with rfl | hx
            · exact Bool.eq_false_iff.2 hrequest
            · exact hnone x hx
      | @last before m' after heq hrequest hafter =>
          have hsplit : m :: rest = (m :: before) ++ m' :: after := by
            rw [heq, List.cons_append]
          exact ⟨m' :: after, .last hsplit hrequest hafter⟩

/-- `rposition` and `skip` find the suffix. -/
theorem SinceCompaction.from_last {messages suffix : List AgentMessage}
    (h : SinceCompaction messages suffix) :
    (from_last_compaction messages).getD messages = suffix := by
  cases h with
  | all hnone => rw [from_last_compaction_none hnone, Option.getD_none]
  | last heq hrequest hafter =>
      rw [heq, from_last_compaction_of_last hrequest hafter, Option.getD_some]

/-! ## 3. Merging -/

theorem ToolResultRun.is_user_tool_result_merged (run : ToolResultRun) :
    run.merged.is_user_tool_result = run.first.is_user_tool_result := by
  obtain ⟨first, rest, results⟩ := run
  rcases rest with _ | ⟨m, rest⟩
  · rw [merged, messages, List.flatMap_singleton]
  · have hfirst := (results m List.mem_cons_self).1
    refine Eq.trans ?_ (is_user_tool_result_extend
      ⟨m.id, m.session_id, m.role, (m :: rest).flatMap AgentMessage.parts, 0, none, none, none⟩
      hfirst |>.trans hfirst.symm)
    rfl

/-- A run that grows by one message at its front. -/
def ToolResultRun.cons (m : AgentMessage) (run : ToolResultRun)
    (hm : m.is_user_tool_result = true) (hfirst : run.first.is_user_tool_result = true) :
    ToolResultRun where
  first := m
  rest := run.messages
  results := by
    intro x hx
    rcases List.mem_cons.1 hx with rfl | hx
    · exact ⟨hm, hfirst⟩
    · exact ⟨hm, (run.results x hx).2⟩

/-- A message on its own. -/
def ToolResultRun.singleton (m : AgentMessage) : ToolResultRun where
  first := m
  rest := []
  results := fun _ hx => absurd hx List.not_mem_nil

theorem ToolResultRun.merged_singleton (m : AgentMessage) : (singleton m).merged = m := by
  rw [merged, messages, singleton, List.flatMap_singleton]

/-- No two tool-result messages stand next to each other after merging. -/
theorem separated_merge_right (messages : List AgentMessage) :
    Separated (merge_right messages) := by
  induction messages with
  | nil => exact .nil
  | cons m rest ih =>
      rw [merge_right]
      rcases hmerged : merge_right rest with _ | ⟨next, merged⟩
      · exact .singleton m
      · rw [hmerged] at ih
        dsimp only
        by_cases h : (m.is_user_tool_result && next.is_user_tool_result) = true
        · rw [if_pos h]
          rw [Bool.and_eq_true] at h
          rcases merged with _ | ⟨next', merged⟩
          · exact .singleton _
          · -- what followed the merged message is no tool-result message
            refine .cons_cons ?_ ih.tail
            intro hboth
            exact ih.rel ⟨h.2, hboth.2⟩
        · rw [if_neg h]
          refine .cons_cons ?_ ih
          rwa [← Bool.and_eq_true]

/-- **Merging folds up runs.** -/
theorem merge_right_runs (messages : List AgentMessage) : ∃ runs : List ToolResultRun,
    runs.flatMap ToolResultRun.messages = messages ∧
      runs.map ToolResultRun.merged = merge_right messages := by
  induction messages with
  | nil => exact ⟨[], rfl, rfl⟩
  | cons m rest ih =>
      obtain ⟨runs, hmessages, hmerged⟩ := ih
      rw [merge_right, ← hmerged, ← hmessages]
      rcases runs with _ | ⟨run, runs⟩
      · exact ⟨[.singleton m], rfl, by rw [List.map_singleton, ToolResultRun.merged_singleton]; rfl⟩
      · rw [List.map_cons]
        dsimp only
        by_cases h : (m.is_user_tool_result && run.merged.is_user_tool_result) = true
        · rw [if_pos h]
          rw [Bool.and_eq_true, run.is_user_tool_result_merged] at h
          exact ⟨.cons m run h.1 h.2 :: runs, rfl, rfl⟩
        · rw [if_neg h]
          refine ⟨.singleton m :: run :: runs, rfl, ?_⟩
          rw [List.map_cons, List.map_cons, ToolResultRun.merged_singleton]

theorem flatMap_parts_merge_right (messages : List AgentMessage) :
    (merge_right messages).flatMap AgentMessage.parts = messages.flatMap AgentMessage.parts := by
  obtain ⟨runs, hmessages, hmerged⟩ := merge_right_runs messages
  rw [← hmerged, ← hmessages, List.flatMap_map, List.flatMap_assoc]
  rfl

/-- Merging finds nothing to do where no tool-result messages are next to each other. -/
theorem Separated.merge_right_eq {messages : List AgentMessage} (h : Separated messages) :
    merge_right messages = messages := by
  induction messages with
  | nil => rfl
  | cons m rest ih =>
      rw [merge_right, ih h.tail]
      rcases rest with _ | ⟨next, rest⟩
      · rfl
      · dsimp only
        rw [if_neg]
        rw [Bool.and_eq_true]
        exact h.rel

/-! ## 4. A second application -/

theorem has_content_merged (run : ToolResultRun) (h : run.first.has_content = true) :
    run.merged.has_content = true := by
  change (run.first.parts ++ run.rest.flatMap AgentMessage.parts).any _ = true
  rw [List.any_append, Bool.or_eq_true]
  exact .inl h

theorem has_compaction_request_merged (run : ToolResultRun) :
    run.merged.has_compaction_request =
      run.messages.any AgentMessage.has_compaction_request := by
  change (run.messages.flatMap AgentMessage.parts).any _ = _
  rw [List.any_flatMap]
  rfl

theorem has_content_of_request {m : AgentMessage} (h : m.has_compaction_request = true) :
    m.has_content = true := by
  obtain ⟨part, hpart, hrequest⟩ := List.any_eq_true.1 h
  refine List.any_eq_true.2 ⟨part, hpart, ?_⟩
  cases part <;> first | rfl | cases hrequest

/-- Merging messages with content gives messages with content. -/
theorem has_content_merge_right {messages : List AgentMessage}
    (h : ∀ m ∈ messages, m.has_content = true) : ∀ m ∈ merge_right messages, m.has_content = true := by
  obtain ⟨runs, hmessages, hmerged⟩ := merge_right_runs messages
  intro m hm
  rw [← hmerged] at hm
  obtain ⟨run, hrun, rfl⟩ := List.mem_map.1 hm
  refine has_content_merged run (h run.first ?_)
  rw [← hmessages]
  exact List.mem_flatMap.2 ⟨run, hrun, List.mem_cons_self⟩

/-- Merging messages without a request gives messages without a request. -/
theorem no_request_merge_right {messages : List AgentMessage}
    (h : ∀ m ∈ messages, m.has_compaction_request = false) :
    ∀ m ∈ merge_right messages, m.has_compaction_request = false := by
  obtain ⟨runs, hmessages, hmerged⟩ := merge_right_runs messages
  intro m hm
  rw [← hmerged] at hm
  obtain ⟨run, hrun, rfl⟩ := List.mem_map.1 hm
  rw [has_compaction_request_merged, List.any_eq_false]
  intro x hx
  rw [h x, Bool.false_eq_true]
  · exact not_false
  · rw [← hmessages]
    exact List.mem_flatMap.2 ⟨run, hrun, hx⟩

theorem from_last_compaction_first {m : AgentMessage} {after : List AgentMessage}
    (hrequest : m.has_compaction_request = true)
    (hafter : ∀ x ∈ after, x.has_compaction_request = false) :
    from_last_compaction (m :: after) = some (m :: after) :=
  @from_last_compaction_of_last [] after m hrequest hafter

/-- **The cut survives merging**: a request of the first message stays in the first message,
and nothing later has one. -/
theorem SinceCompaction.from_last_merge_right {messages suffix : List AgentMessage}
    (h : SinceCompaction messages suffix) :
    (from_last_compaction (merge_right (suffix.filter AgentMessage.has_content))).getD
        (merge_right (suffix.filter AgentMessage.has_content)) =
      merge_right (suffix.filter AgentMessage.has_content) := by
  cases h with
  | all hnone =>
      rw [from_last_compaction_none, Option.getD_none]
      exact no_request_merge_right fun m hm => hnone m (List.mem_filter.1 hm).1
  | @last before m after heq hrequest hafter =>
      rw [List.filter_cons_of_pos (has_content_of_request hrequest), merge_right]
      have hlater := @no_request_merge_right (after.filter AgentMessage.has_content)
        fun x hx => hafter x (List.mem_filter.1 hx).1
      generalize merge_right (after.filter AgentMessage.has_content) = later at hlater ⊢
      rcases later with _ | ⟨next, merged⟩
      · dsimp only
        rw [from_last_compaction_first hrequest hlater, Option.getD_some]
      · dsimp only
        split
        · have hextend : (m.extend next).has_compaction_request = true := by
            change (m.parts ++ next.parts).any _ = true
            rw [List.any_append, Bool.or_eq_true]
            exact .inl hrequest
          rw [from_last_compaction_first hextend fun x hx => hlater x (List.mem_cons_of_mem next hx),
            Option.getD_some]
        · rw [from_last_compaction_first hrequest hlater, Option.getD_some]

/-! ## 5. The result -/

/-- **The effective history loses nothing but snapshot metadata, repairs every run of tool
results, and is its own effective history.** -/
theorem effective_history_lossless (messages : List AgentMessage) :
    ∃ suffix, SinceCompaction messages suffix ∧
      (filter_to_effective_history messages).flatMap AgentMessage.parts =
        (suffix.filter AgentMessage.has_content).flatMap AgentMessage.parts ∧
      Separated (filter_to_effective_history messages) ∧
      (∃ runs : List ToolResultRun,
        runs.flatMap ToolResultRun.messages = suffix.filter AgentMessage.has_content ∧
        runs.map ToolResultRun.merged = filter_to_effective_history messages) ∧
      filter_to_effective_history (filter_to_effective_history messages) =
        filter_to_effective_history messages := by
  obtain ⟨suffix, hsuffix⟩ := exists_since_compaction messages
  have hresult : filter_to_effective_history messages =
      merge_right (suffix.filter AgentMessage.has_content) := by
    rw [filter_to_effective_history, hsuffix.from_last, merge_eq_merge_right]
  refine ⟨suffix, hsuffix, ?_, ?_, ?_, ?_⟩
  · rw [hresult, flatMap_parts_merge_right]
  · rw [hresult]
    exact separated_merge_right _
  · rw [hresult]
    exact merge_right_runs _
  · rw [hresult, filter_to_effective_history, hsuffix.from_last_merge_right, merge_eq_merge_right,
      List.filter_eq_self.2]
    · exact (separated_merge_right _).merge_right_eq
    · exact has_content_merge_right fun m hm => (List.mem_filter.1 hm).2

end Querymt.Agent
