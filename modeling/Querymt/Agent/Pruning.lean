/-
`Agent/Pruning.lean` -- which tool results are old enough to be cleared.

Mirrors `compute_prune_candidates` (`session/pruning.rs`): the history is walked from the
newest message, the last two user turns are to be left alone, and the tool results
before them become candidates once enough tokens of them are protected. Token counts are
`usize`; no result here depends on where they would overflow. An estimator is any
function of the content of a tool result.

# What a turn is

The walk skips until it has passed two messages of the user. The agent stores the results
of tool calls as messages of the user too, so two batches of tool results count as two
turns, and the results before them are fair game (`leaves_recent_turns_iff`).
-/
import Querymt.Agent.Model

set_option autoImplicit false

namespace Querymt.Agent

/-! ## 1. The code -/

structure PruneConfig where
  protect_tokens : ℕ := 40000
  minimum_tokens : ℕ := 20000
  protected_tools : List String := ["skill"]

/-- `ContentCostEstimator::estimate_content`. -/
abbrev ContentCostEstimator := List Content → ℕ

structure PrunableToolResult where
  message_id : String
  call_id : String
  tokens : ℕ
  deriving DecidableEq

structure PruneAnalysis where
  protected_tokens : ℕ
  prunable_tokens : ℕ
  candidates : List PrunableToolResult
  should_prune : Bool
  deriving DecidableEq

/-- The variables of the walk. -/
structure PruneWalk where
  user_turn_count : ℕ := 0
  protected_tokens : ℕ := 0
  prunable_tokens : ℕ := 0
  candidates : List PrunableToolResult := []

/-- A compaction boundary, request or summary. -/
def MessagePart.is_compaction_boundary : MessagePart → Bool
  | .Compaction _ _ | .CompactionRequest _ => true
  | _ => false

def AgentMessage.has_compaction (m : AgentMessage) : Bool :=
  m.parts.any MessagePart.is_compaction_boundary

/-- One part of a message that the walk looks at. -/
def prune_part (config : PruneConfig) (estimator : ContentCostEstimator) (message_id : String)
    (w : PruneWalk) : MessagePart → PruneWalk
  | .ToolResult call_id content _ tool_name _ compacted_at =>
      if compacted_at.isSome then w
      else if tool_name.any fun name => config.protected_tools.contains name then w
      else
        let tokens := estimator content
        if w.protected_tokens < config.protect_tokens then
          { w with protected_tokens := w.protected_tokens + tokens }
        else
          { w with
            prunable_tokens := w.prunable_tokens + tokens
            candidates := w.candidates ++ [⟨message_id, call_id, tokens⟩] }
  | _ => w

/-- The walk, from the newest message. -/
def prune_walk (config : PruneConfig) (estimator : ContentCostEstimator) :
    PruneWalk → List AgentMessage → PruneWalk
  | w, [] => w
  | w, message :: older =>
      if w.user_turn_count < 2 then
        prune_walk config estimator
          (if message.role = .User then { w with user_turn_count := w.user_turn_count + 1 } else w)
          older
      else if message.has_compaction then w
      else
        prune_walk config estimator
          (message.parts.foldl (prune_part config estimator message.id) w) older

def compute_prune_candidates (messages : List AgentMessage) (config : PruneConfig)
    (estimator : ContentCostEstimator) : PruneAnalysis :=
  let w := prune_walk config estimator {} messages.reverse
  let should_prune := decide (config.minimum_tokens ≤ w.prunable_tokens)
  { protected_tokens := w.protected_tokens
    prunable_tokens := w.prunable_tokens
    candidates := if should_prune then w.candidates else []
    should_prune }

/-! ## 2. The law and the condition -/

def AgentMessage.has_tool_result (m : AgentMessage) : Bool := m.parts.any MessagePart.is_tool_result

/-- A message that starts a turn of the user. -/
def AgentMessage.starts_turn (m : AgentMessage) : Bool :=
  decide (m.role = .User) && !m.has_tool_result

/-- A history as the agent stores it: ids are unique, and tool results are messages of the
user. -/
structure StoredHistory where
  messages : List AgentMessage
  ids : (messages.map AgentMessage.id).Nodup
  tool_results : ∀ m ∈ messages, m.has_tool_result = true → m.role = .User

/-- The messages from the second most recent start of a turn on: `t` starts it, and one
message after it starts another. -/
structure LastTwoTurns (messages : List AgentMessage) (recent : List AgentMessage) : Prop where
  suffix : recent <:+ messages
  started : ∃ t after, recent = t :: after ∧ t.starts_turn = true ∧
    after.countP AgentMessage.starts_turn = 1

/-- **The last two turns are left alone.** -/
def LeavesRecentTurns (messages : List AgentMessage) (config : PruneConfig)
    (estimator : ContentCostEstimator) : Prop :=
  ∀ recent, LastTwoTurns messages recent → ∀ m ∈ recent,
    ∀ c ∈ (compute_prune_candidates messages config estimator).candidates, c.message_id ≠ m.id

/-- What comes before the last `n` messages of the user, newest first. -/
def before_user_messages : ℕ → List AgentMessage → List AgentMessage
  | 0, older => older
  | _ + 1, [] => []
  | n + 1, message :: older =>
      if message.role = .User then before_user_messages n older
      else before_user_messages (n + 1) older

/-- The messages before the last `n` messages of the user, back to a compaction. -/
def exposed_from (n : ℕ) (newest_first : List AgentMessage) : List AgentMessage :=
  (before_user_messages n newest_first).takeWhile fun m => !m.has_compaction

/-- The messages before the last two messages of the user, back to a compaction. -/
def exposed (messages : List AgentMessage) : List AgentMessage :=
  exposed_from 2 messages.reverse

/-- A tool result that was not cleared yet. -/
def MessagePart.is_uncleared : MessagePart → Bool
  | .ToolResult _ _ _ _ _ compacted_at => !compacted_at.isSome
  | _ => false

/-- **The condition**: every uncleared tool result of the last two turns is in one of the last
two messages of the user, or behind a compaction. -/
def Sheltered (messages : List AgentMessage) : Prop :=
  ∀ recent, LastTwoTurns messages recent → ∀ m ∈ recent, m ∈ exposed messages →
    m.parts.any MessagePart.is_uncleared = false

/-! ## 3. Where candidates come from -/

section Walk

variable {config : PruneConfig} {estimator : ContentCostEstimator}

/-- **What a part does**: nothing that is counted, or, for an uncleared tool result, one
candidate more. -/
theorem prune_part_cases (message_id : String) (w : PruneWalk) (part : MessagePart) :
    (prune_part config estimator message_id w part).user_turn_count = w.user_turn_count ∧
      ((prune_part config estimator message_id w part).candidates = w.candidates ∨
        part.is_uncleared = true ∧ ∃ c : PrunableToolResult, c.message_id = message_id ∧
          (prune_part config estimator message_id w part).candidates = w.candidates ++ [c]) := by
  cases part with
  | ToolResult call_id content is_error tool_name tool_arguments compacted_at =>
      rw [prune_part]
      by_cases hcleared : compacted_at.isSome
      · rw [if_pos hcleared]
        exact ⟨rfl, .inl rfl⟩
      · rw [if_neg hcleared]
        by_cases hprotected : tool_name.any fun name => config.protected_tools.contains name
        · rw [if_pos hprotected]
          exact ⟨rfl, .inl rfl⟩
        · rw [if_neg hprotected]
          dsimp only
          by_cases hwindow : w.protected_tokens < config.protect_tokens
          · rw [if_pos hwindow]
            exact ⟨rfl, .inl rfl⟩
          · rw [if_neg hwindow]
            refine ⟨rfl, .inr ⟨?_, ⟨message_id, call_id, estimator content⟩, rfl, rfl⟩⟩
            rw [MessagePart.is_uncleared, Bool.eq_false_iff.2 hcleared, Bool.not_false]
  | _ => exact ⟨rfl, .inl rfl⟩

theorem user_turn_count_parts (message_id : String) (parts : List MessagePart) (w : PruneWalk) :
    (parts.foldl (prune_part config estimator message_id) w).user_turn_count =
      w.user_turn_count := by
  induction parts generalizing w with
  | nil => rfl
  | cons part parts ih =>
      rw [List.foldl_cons, ih]
      exact (prune_part_cases message_id w part).1

theorem exposed_from_zero (ms : List AgentMessage) :
    exposed_from 0 ms = ms.takeWhile fun m => !m.has_compaction := by
  rw [exposed_from, before_user_messages]

/-- A new candidate of a message names it, and the message has an uncleared tool result. -/
theorem candidates_parts {message_id : String} {parts : List MessagePart} {w : PruneWalk}
    {c : PrunableToolResult}
    (h : c ∈ (parts.foldl (prune_part config estimator message_id) w).candidates) :
    c ∈ w.candidates ∨ c.message_id = message_id ∧ parts.any MessagePart.is_uncleared = true := by
  induction parts generalizing w with
  | nil => exact .inl h
  | cons part parts ih =>
      rw [List.any_cons]
      rcases ih h with hbefore | ⟨hid, huncleared⟩
      · rcases (prune_part_cases message_id w part).2 with hsame | ⟨huncleared, c', hid, hadds⟩
        · rw [hsame] at hbefore
          exact .inl hbefore
        · rw [hadds] at hbefore
          rcases List.mem_append.1 hbefore with hold | hnew
          · exact .inl hold
          · rw [List.mem_singleton.1 hnew, huncleared]
            exact .inr ⟨hid, rfl⟩
      · rw [huncleared, Bool.or_true]
        exact .inr ⟨hid, rfl⟩

/-- **Every candidate of the walk is from an exposed message** with an uncleared tool
result. The walk has still `n` messages of the user to pass. -/
theorem candidates_walk {n : ℕ} {ms : List AgentMessage} {w : PruneWalk}
    (hcount : w.user_turn_count + n = 2) {c : PrunableToolResult}
    (h : c ∈ (prune_walk config estimator w ms).candidates) :
    c ∈ w.candidates ∨ ∃ m ∈ exposed_from n ms, c.message_id = m.id ∧
      m.parts.any MessagePart.is_uncleared = true := by
  induction ms generalizing w n with
  | nil => exact .inl h
  | cons message older ih =>
      rw [prune_walk] at h
      rcases n with _ | n
      · rw [if_neg (by omega)] at h
        rw [exposed_from_zero, List.takeWhile_cons]
        by_cases hcompaction : message.has_compaction
        · rw [if_pos hcompaction] at h
          exact .inl h
        · rw [if_neg hcompaction] at h
          rw [if_pos (by rw [Bool.eq_false_iff.2 hcompaction, Bool.not_false])]
          have holder := ih (n := 0) (by rw [user_turn_count_parts]; exact hcount) h
          rw [exposed_from_zero] at holder
          rcases holder with hbefore | ⟨m, hm, hid, huncleared⟩
          · rcases candidates_parts hbefore with hold | ⟨hid, huncleared⟩
            · exact .inl hold
            · exact .inr ⟨message, List.mem_cons_self, hid, huncleared⟩
          · exact .inr ⟨m, List.mem_cons_of_mem _ hm, hid, huncleared⟩
      · rw [if_pos (by omega)] at h
        rw [exposed_from, before_user_messages]
        by_cases huser : message.role = .User
        · rw [if_pos huser] at h ⊢
          exact ih (w := { w with user_turn_count := w.user_turn_count + 1 })
            (by dsimp only; omega) h
        · rw [if_neg huser] at h ⊢
          exact ih hcount h

/-! ## 4. Nothing is protected -/

/-- A configuration that protects nothing. -/
def unprotected : PruneConfig := ⟨0, 0, []⟩

theorem prune_part_unprotected {message_id : String} {w : PruneWalk} {part : MessagePart}
    (h : part.is_uncleared = true) :
    ∃ c : PrunableToolResult, c.message_id = message_id ∧
      (prune_part unprotected estimator message_id w part).candidates = w.candidates ++ [c] := by
  cases part with
  | ToolResult call_id content is_error tool_name tool_arguments compacted_at =>
      rw [MessagePart.is_uncleared, Bool.not_eq_true'] at h
      have hnone : (tool_name.any fun name => unprotected.protected_tools.contains name) = false := by
        cases tool_name <;> rfl
      rw [prune_part, h, if_neg Bool.false_ne_true, hnone, if_neg Bool.false_ne_true]
      exact ⟨⟨message_id, call_id, estimator content⟩, rfl, rfl⟩
  | _ => cases h

theorem subset_candidates_parts (message_id : String) (parts : List MessagePart) (w : PruneWalk) :
    w.candidates ⊆ (parts.foldl (prune_part config estimator message_id) w).candidates := by
  induction parts generalizing w with
  | nil => exact List.Subset.refl _
  | cons part parts ih =>
      rw [List.foldl_cons]
      refine List.Subset.trans ?_ (ih _)
      rcases (prune_part_cases message_id w part).2 with hsame | ⟨-, c, -, hadds⟩
      · rw [hsame]
        exact List.Subset.refl _
      · rw [hadds]
        exact List.subset_append_left _ _

theorem subset_candidates_walk (ms : List AgentMessage) (w : PruneWalk) :
    w.candidates ⊆ (prune_walk config estimator w ms).candidates := by
  induction ms generalizing w with
  | nil => exact List.Subset.refl _
  | cons message older ih =>
      rw [prune_walk]
      split
      · refine List.Subset.trans ?_ (ih _)
        split <;> exact List.Subset.refl _
      · split
        · exact List.Subset.refl _
        · exact List.Subset.trans (subset_candidates_parts _ _ _) (ih _)

theorem candidate_of_uncleared {message_id : String} {parts : List MessagePart} (w : PruneWalk)
    (h : parts.any MessagePart.is_uncleared = true) :
    ∃ c ∈ (parts.foldl (prune_part unprotected estimator message_id) w).candidates,
      c.message_id = message_id := by
  induction parts generalizing w with
  | nil => cases h
  | cons part parts ih =>
      rw [List.any_cons, Bool.or_eq_true] at h
      rw [List.foldl_cons]
      rcases h with hpart | hparts
      · obtain ⟨c, hid, hadds⟩ := @prune_part_unprotected estimator message_id w part hpart
        refine ⟨c, subset_candidates_parts message_id parts _ ?_, hid⟩
        rw [hadds]
        exact List.mem_append_right _ (List.mem_singleton_self c)
      · exact ih _ hparts

/-- **An exposed message with an uncleared tool result becomes a candidate**, when nothing is
protected. -/
theorem candidate_of_exposed {n : ℕ} {ms : List AgentMessage} {w : PruneWalk}
    (hcount : w.user_turn_count + n = 2) {m : AgentMessage} (hm : m ∈ exposed_from n ms)
    (huncleared : m.parts.any MessagePart.is_uncleared = true) :
    ∃ c ∈ (prune_walk unprotected estimator w ms).candidates, c.message_id = m.id := by
  induction ms generalizing w n with
  | nil =>
      rcases n with _ | n <;> cases hm
  | cons message older ih =>
      rw [prune_walk]
      rcases n with _ | n
      · rw [if_neg (by omega)]
        rw [exposed_from_zero, List.takeWhile_cons] at hm
        by_cases hcompaction : message.has_compaction
        · rw [hcompaction] at hm
          cases hm
        · rw [if_pos (by rw [Bool.eq_false_iff.2 hcompaction, Bool.not_false])] at hm
          rw [if_neg hcompaction]
          rcases List.mem_cons.1 hm with heq | hm
          · rw [heq] at huncleared ⊢
            obtain ⟨c, hc, hid⟩ := @candidate_of_uncleared estimator message.id _ w huncleared
            exact ⟨c, subset_candidates_walk older _ hc, hid⟩
          · rw [← exposed_from_zero] at hm
            exact ih (by rw [user_turn_count_parts]; exact hcount) hm
      · rw [if_pos (by omega)]
        rw [exposed_from, before_user_messages] at hm
        by_cases huser : message.role = .User
        · rw [if_pos huser] at hm ⊢
          exact ih (by dsimp only; omega) hm
        · rw [if_neg huser] at hm ⊢
          exact ih hcount hm

end Walk

/-! ## 5. The result -/

theorem before_user_messages_subset (n : ℕ) (ms : List AgentMessage) :
    before_user_messages n ms ⊆ ms := by
  induction ms generalizing n with
  | nil => cases n <;> exact List.Subset.refl _
  | cons message older ih =>
      rcases n with _ | n
      · exact List.Subset.refl _
      · rw [before_user_messages]
        split
        · exact List.subset_cons_of_subset _ (ih n)
        · exact List.subset_cons_of_subset _ (ih (n + 1))

theorem exposed_subset {messages : List AgentMessage} {m : AgentMessage}
    (h : m ∈ exposed messages) : m ∈ messages :=
  List.mem_reverse.1 (before_user_messages_subset 2 _ (List.takeWhile_sublist _ |>.subset h))

/-- **The last two turns are left alone, whatever is protected, exactly when every uncleared
tool result of theirs is sheltered.** -/
theorem leaves_recent_turns_iff (history : StoredHistory) :
    (∀ config estimator, LeavesRecentTurns history.messages config estimator) ↔
      Sheltered history.messages := by
  constructor
  · intro hleaves recent hrecent m hm hexposed
    by_contra huncleared
    rw [Bool.not_eq_false] at huncleared
    obtain ⟨c, hc, hid⟩ := @candidate_of_exposed (fun _ => 0) 2 history.messages.reverse {} rfl m
      hexposed huncleared
    exact hleaves unprotected (fun _ => 0) recent hrecent m hm c hc hid
  · intro hsheltered config estimator recent hrecent m hm c hc hid
    unfold compute_prune_candidates at hc
    dsimp only at hc
    split at hc
    · rcases candidates_walk (w := {}) (n := 2) rfl hc with hnone | ⟨m', hm', hid', huncleared⟩
      · cases hnone
      · -- ids are unique: the exposed message is the recent one
        have heq : m' = m := List.inj_on_of_nodup_map history.ids (exposed_subset hm')
          (hrecent.suffix.subset hm) (hid'.symm.trans hid)
        rw [heq] at hm' huncleared
        rw [hsheltered recent hrecent m hm hm'] at huncleared
        cases huncleared
    · cases hc

/-- A prompt of the user. -/
def pruned_prompt (id text : String) : AgentMessage :=
  ⟨id, "s", .User, [.Text text], 0, none, none, none⟩

/-- An answer with a tool call. -/
def call_message (id call_id : String) : AgentMessage :=
  ⟨id, "s", .Assistant, [.ToolUse ⟨call_id, "function", ⟨"read_tool", "\x7b\x7d"⟩⟩], 0, none, none, none⟩

/-- The result of the call, as the agent stores it. -/
def result_message_of (id call_id : String) : AgentMessage :=
  ⟨id, "s", .User, [.ToolResult call_id [.Text "content"] false (some "read_tool") none none], 0,
    none, none, none⟩

/-- A turn with three tool calls after a turn without any. -/
def busy_turn : StoredHistory where
  messages := [pruned_prompt "p1" "hello", pruned_prompt "p2" "read three files",
    call_message "a1" "c1", result_message_of "r1" "c1", call_message "a2" "c2",
    result_message_of "r2" "c2", call_message "a3" "c3", result_message_of "r3" "c3"]
  ids := by decide
  tool_results := by
    intro m hm
    simp only [List.mem_cons, List.not_mem_nil, or_false] at hm
    rcases hm with rfl | rfl | rfl | rfl | rfl | rfl | rfl | rfl <;> decide

/-- The result of the first call of the running turn is a candidate. -/
theorem recent_result_pruned :
    ¬ LeavesRecentTurns busy_turn.messages ⟨0, 1, []⟩ (fun _ => 100) := by
  intro hleaves
  have hrecent : LastTwoTurns busy_turn.messages busy_turn.messages :=
    ⟨List.suffix_refl _, _, _, rfl, rfl, rfl⟩
  exact hleaves _ hrecent (result_message_of "r1" "c1")
    (List.mem_of_getElem? (i := 3) rfl) ⟨"r1", "c1", 100⟩ (by decide) rfl

end Querymt.Agent
