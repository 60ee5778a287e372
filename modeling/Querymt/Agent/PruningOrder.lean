/-
`Agent/PruningOrder.lean` -- which tool results the protection covers.

`compute_prune_candidates` is meant to protect the most recent tool results and to stop at a
compaction. Its walk goes through the messages from the newest, but through the parts of one
message from the oldest, and it looks for a compaction only once two messages of the user
have passed. Both are laws about places in the history, so the tool results carry theirs.

# Where it goes wrong

When the protection runs out inside a message, the newer results of that message are the
ones that are pruned (`protects_recent_iff`). When a compaction stands among the messages
that are skipped, the walk goes on behind it (`stops_at_compaction_iff`).
-/
import Querymt.Agent.Pruning
import Querymt.Library.Budgets

set_option autoImplicit false

namespace Querymt.Agent

/-! ## 1. Tool results at their places -/

/-- The result that a part of a message is for the walk, if it counts: it was not cleared
yet, and it is of no protected tool. -/
def eligible_result (config : PruneConfig) (estimator : ContentCostEstimator)
    (message_id : String) : MessagePart → Option PrunableToolResult
  | .ToolResult call_id content _ tool_name _ compacted_at =>
      if compacted_at.isSome then none
      else if tool_name.any fun name => config.protected_tools.contains name then none
      else some ⟨message_id, call_id, estimator content⟩
  | _ => none

/-- A tool result at its place: the message counted from the newest, the part counted from
the first. -/
structure PlacedResult where
  age : ℕ
  index : ℕ
  result : PrunableToolResult
  deriving DecidableEq

/-- `r'` comes later in the history than `r`. -/
def PlacedResult.later (r r' : PlacedResult) : Bool :=
  decide (r'.age < r.age ∨ r'.age = r.age ∧ r.index < r'.index)

abbrev tokens_of (rs : List PlacedResult) : ℕ := Budgets.total (fun r => r.result.tokens) rs

/-- The eligible results of one message. -/
def AgentMessage.placed_results (config : PruneConfig) (estimator : ContentCostEstimator)
    (m : AgentMessage) (age : ℕ) : List PlacedResult :=
  m.parts.zipIdx.filterMap fun p =>
    (eligible_result config estimator m.id p.1).map fun r => ⟨age, p.2, r⟩

/-- How many messages the walk skips. -/
def skipped_count (messages : List AgentMessage) : ℕ :=
  messages.length - (before_user_messages 2 messages.reverse).length

/-- The messages that the walk skips, newest first. -/
def skipped (messages : List AgentMessage) : List AgentMessage :=
  messages.reverse.take (skipped_count messages)

section Places

variable (messages : List AgentMessage) (config : PruneConfig) (estimator : ContentCostEstimator)

/-- The eligible results of every message of the scanned window, newest message first. -/
def batches : List (List PlacedResult) :=
  ((exposed messages).zipIdx (skipped_count messages)).map fun p =>
    p.1.placed_results config estimator p.2

/-- The eligible results in the order of the walk. -/
def scanned : List PlacedResult := (batches messages config estimator).flatten

/-- The results that the walk reaches when enough tokens are protected. -/
def beyond_protection : List PlacedResult :=
  Budgets.beyond (fun r => r.result.tokens) config.protect_tokens 0
    (scanned messages config estimator)

/-- The selected results. -/
def selected : List PlacedResult :=
  if config.minimum_tokens ≤ tokens_of (beyond_protection messages config estimator) then
    beyond_protection messages config estimator
  else []

/-! ## 2. The laws and the conditions -/

/-- **The most recent results are protected.** What comes later than a selected result is worth
the protection, and what comes before it is selected with it. -/
def ProtectsRecent : Prop :=
  ∀ r ∈ selected messages config estimator,
    config.protect_tokens ≤ tokens_of ((scanned messages config estimator).filter r.later) ∧
      ∀ r' ∈ scanned messages config estimator, r'.later r = true →
        r' ∈ selected messages config estimator

/-- **The condition**: where the protection runs out inside a message, what is left does not
make up the minimum. -/
def RunsOutBetweenMessages : Prop :=
  ∀ newer batch older counted rest,
    batches messages config estimator = newer ++ batch :: older → batch = counted ++ rest →
      rest ≠ [] → tokens_of newer.flatten < config.protect_tokens →
      config.protect_tokens ≤ tokens_of newer.flatten + tokens_of counted →
      tokens_of rest + tokens_of older.flatten < config.minimum_tokens

/-- **Nothing behind a compaction is selected.** -/
def StopsAtCompaction : Prop :=
  ∀ r ∈ selected messages config estimator, ∀ age m, messages.reverse[age]? = some m →
    m.has_compaction = true → r.age < age

/-- Too little is left when the protection runs out. -/
def TooLittleLeft : Prop :=
  ∀ counted rest, scanned messages config estimator = counted ++ rest → rest ≠ [] →
    config.protect_tokens ≤ tokens_of counted → tokens_of rest < config.minimum_tokens

end Places

/-! ## 3. The walk -/

section Walk

variable {config : PruneConfig} {estimator : ContentCostEstimator}

/-- The walk over one result. -/
def count_result (config : PruneConfig) (w : PruneWalk) (r : PrunableToolResult) : PruneWalk :=
  if w.protected_tokens < config.protect_tokens then
    { w with protected_tokens := w.protected_tokens + r.tokens }
  else
    { w with
      prunable_tokens := w.prunable_tokens + r.tokens
      candidates := w.candidates ++ [r] }

theorem prune_part_eq (message_id : String) (w : PruneWalk) (part : MessagePart) :
    prune_part config estimator message_id w part =
      ((eligible_result config estimator message_id part).toList).foldl (count_result config) w := by
  cases part with
  | ToolResult call_id content is_error tool_name tool_arguments compacted_at =>
      rw [prune_part, eligible_result]
      split
      · rfl
      · split <;> rfl
  | _ => rfl

theorem prune_parts_eq (message_id : String) (parts : List MessagePart) (w : PruneWalk) :
    parts.foldl (prune_part config estimator message_id) w =
      (parts.filterMap (eligible_result config estimator message_id)).foldl
        (count_result config) w := by
  induction parts generalizing w with
  | nil => rfl
  | cons part parts ih =>
      rw [List.foldl_cons, ih, prune_part_eq, List.filterMap_cons]
      rcases eligible_result config estimator message_id part with _ | r <;> rfl

/-- **The walk counts the results of the messages up to a compaction**, once it skips no more. -/
theorem prune_walk_scans (ms : List AgentMessage) (w : PruneWalk) (hpassed : w.user_turn_count = 2) :
    prune_walk config estimator w ms =
      ((ms.takeWhile fun m => !m.has_compaction).flatMap fun m =>
        m.parts.filterMap (eligible_result config estimator m.id)).foldl (count_result config) w := by
  induction ms generalizing w with
  | nil => rfl
  | cons message older ih =>
      rw [prune_walk, if_neg (by omega), List.takeWhile_cons]
      by_cases hcompaction : message.has_compaction
      · rw [if_pos hcompaction, hcompaction]
        rfl
      · rw [if_neg hcompaction, Bool.eq_false_iff.2 hcompaction, Bool.not_false, if_pos rfl,
          List.flatMap_cons, List.foldl_append, ih, prune_parts_eq]
        rw [user_turn_count_parts, hpassed]

/-- **The walk skips**, as long as it has `n` messages of the user to pass. -/
theorem prune_walk_skips {n : ℕ} (ms : List AgentMessage) (w : PruneWalk)
    (hcount : w.user_turn_count + n = 2) : ∃ turns,
    prune_walk config estimator w ms =
      { prune_walk config estimator { w with user_turn_count := 2 } (before_user_messages n ms) with
        user_turn_count := turns } := by
  induction ms generalizing w n with
  | nil => rcases n with _ | n <;> exact ⟨w.user_turn_count, rfl⟩
  | cons message older ih =>
      rcases n with _ | n
      · rw [before_user_messages]
        have hpassed : w.user_turn_count = 2 := hcount
        have hsame : { w with user_turn_count := 2 } = w := by rw [← hpassed]
        rw [hsame]
        exact ⟨(prune_walk config estimator w (message :: older)).user_turn_count, rfl⟩
      · rw [prune_walk, if_pos (by omega), before_user_messages]
        by_cases huser : message.role = .User
        · rw [if_pos huser, if_pos huser]
          exact ih { w with user_turn_count := w.user_turn_count + 1 } (by dsimp only; omega)
        · rw [if_neg huser, if_neg huser]
          exact ih w hcount

theorem count_results_eq (rs : List PrunableToolResult) (w : PruneWalk) :
    (rs.foldl (count_result config) w).candidates = w.candidates ++
        Budgets.beyond PrunableToolResult.tokens config.protect_tokens w.protected_tokens rs ∧
      (rs.foldl (count_result config) w).prunable_tokens = w.prunable_tokens +
        Budgets.total PrunableToolResult.tokens
          (Budgets.beyond PrunableToolResult.tokens config.protect_tokens w.protected_tokens rs) := by
  induction rs generalizing w with
  | nil => exact ⟨(List.append_nil _).symm, rfl⟩
  | cons r rs ih =>
      obtain ⟨hcandidates, hprunable⟩ := ih (count_result config w r)
      rw [List.foldl_cons, hcandidates, hprunable, Budgets.beyond, count_result]
      by_cases h : w.protected_tokens < config.protect_tokens
      · rw [if_pos h, if_pos h]
        exact ⟨rfl, rfl⟩
      · rw [if_neg h, if_neg h, Budgets.beyond_of_le (Nat.not_lt.1 h)]
        refine ⟨?_, ?_⟩
        · rw [List.append_assoc, List.singleton_append]
        · rw [Budgets.total_cons, Nat.add_assoc]

/-! ## 4. The walk with places -/

theorem map_result_placed_results (m : AgentMessage) (age : ℕ) :
    (m.placed_results config estimator age).map PlacedResult.result =
      m.parts.filterMap (eligible_result config estimator m.id) := by
  unfold AgentMessage.placed_results
  rw [List.map_filterMap]
  generalize 0 = start
  induction m.parts generalizing start with
  | nil => rfl
  | cons part parts ih =>
      rw [List.zipIdx_cons, List.filterMap_cons, List.filterMap_cons, ih]
      rcases eligible_result config estimator m.id part with _ | r <;> rfl

theorem map_result_scanned (messages : List AgentMessage) :
    (scanned messages config estimator).map PlacedResult.result =
      (exposed messages).flatMap fun m =>
        m.parts.filterMap (eligible_result config estimator m.id) := by
  unfold scanned batches
  generalize skipped_count messages = start
  induction exposed messages generalizing start with
  | nil => rfl
  | cons m older ih =>
      rw [List.zipIdx_cons, List.map_cons, List.flatten_cons, List.map_append, ih,
        map_result_placed_results, List.flatMap_cons]

/-- **The candidates are the selected results, without their places.** -/
theorem candidates_eq_selected (messages : List AgentMessage) :
    (compute_prune_candidates messages config estimator).candidates =
      (selected messages config estimator).map PlacedResult.result := by
  have hresults := @count_results_eq config
    ((scanned messages config estimator).map PlacedResult.result) { user_turn_count := 2 }
  rw [Budgets.beyond_map, Budgets.total_map, List.nil_append, Nat.zero_add] at hresults
  obtain ⟨turns, hwalk⟩ := @prune_walk_skips config estimator 2 messages.reverse {} rfl
  rw [prune_walk_scans (before_user_messages 2 messages.reverse) { user_turn_count := 2 } rfl]
    at hwalk
  change _ = { (((exposed messages).flatMap _).foldl (count_result config)
    { user_turn_count := 2 }) with user_turn_count := turns } at hwalk
  rw [← map_result_scanned] at hwalk
  unfold compute_prune_candidates
  dsimp only
  rw [hwalk, hresults.1, hresults.2]
  unfold selected beyond_protection
  split
  · next h => rw [if_pos (of_decide_eq_true h)]
  · next h =>
      rw [if_neg fun hle => h (decide_eq_true hle)]
      rfl

/-! ## 5. The order of places -/

theorem age_placed_results {m : AgentMessage} {age : ℕ} {r : PlacedResult}
    (h : r ∈ m.placed_results config estimator age) : r.age = age := by
  obtain ⟨p, -, hp⟩ := List.mem_filterMap.1 h
  obtain ⟨result, -, rfl⟩ := Option.map_eq_some_iff.1 hp
  rfl

/-- Inside a message the parts come in order. -/
theorem pairwise_placed_results (m : AgentMessage) (age : ℕ) :
    (m.placed_results config estimator age).Pairwise fun r r' => r.index < r'.index := by
  unfold AgentMessage.placed_results
  rw [List.pairwise_filterMap]
  have hplaces : (m.parts.zipIdx).Pairwise fun p p' => p.2 < p'.2 := by
    refine List.pairwise_map.1 ?_
    rw [List.zipIdx_map_snd]
    exact List.pairwise_lt_range' 1
  refine hplaces.imp ?_
  intro p p' hlt r hr r' hr'
  obtain ⟨result, -, rfl⟩ := Option.map_eq_some_iff.1 hr
  obtain ⟨result', -, rfl⟩ := Option.map_eq_some_iff.1 hr'
  exact hlt

/-- From one batch to the next the messages get older. -/
theorem pairwise_batches (ms : List AgentMessage) (start : ℕ) :
    (∀ batch ∈ (ms.zipIdx start).map (fun p => p.1.placed_results config estimator p.2),
      ∀ r ∈ batch, start ≤ r.age) ∧
    ((ms.zipIdx start).map fun p => p.1.placed_results config estimator p.2).Pairwise
      fun batch batch' => ∀ r ∈ batch, ∀ r' ∈ batch', r.age < r'.age := by
  induction ms generalizing start with
  | nil => exact ⟨fun _ h => absurd h List.not_mem_nil, .nil⟩
  | cons m ms ih =>
      obtain ⟨hstart, hpairwise⟩ := ih (start + 1)
      rw [List.zipIdx_cons, List.map_cons]
      refine ⟨?_, .cons ?_ hpairwise⟩
      · intro batch hbatch r hr
        rcases List.mem_cons.1 hbatch with rfl | hbatch
        · rw [age_placed_results hr]
        · have := hstart batch hbatch r hr
          omega
      · intro batch' hbatch' r hr r' hr'
        rw [age_placed_results hr]
        exact hstart batch' hbatch' r' hr'

theorem age_lt_of_newer {messages : List AgentMessage} {newer older : List (List PlacedResult)}
    (h : batches messages config estimator = newer ++ older) {r r' : PlacedResult}
    (hr : r ∈ newer.flatten) (hr' : r' ∈ older.flatten) : r.age < r'.age := by
  have hpairwise :=
    (@pairwise_batches config estimator (exposed messages) (skipped_count messages)).2
  change (batches messages config estimator).Pairwise _ at hpairwise
  rw [h, List.pairwise_append] at hpairwise
  obtain ⟨batch, hbatch, hr⟩ := List.mem_flatten.1 hr
  obtain ⟨batch', hbatch', hr'⟩ := List.mem_flatten.1 hr'
  exact hpairwise.2.2 batch hbatch batch' hbatch' r hr r' hr'

theorem batch_eq {messages : List AgentMessage} {batch : List PlacedResult}
    (h : batch ∈ batches messages config estimator) :
    ∃ m age, batch = AgentMessage.placed_results config estimator m age := by
  obtain ⟨p, -, hp⟩ := List.mem_map.1 h
  exact ⟨p.1, p.2, hp.symm⟩

end Walk

/-! ## 6. Protection -/

section Results

variable {messages : List AgentMessage} {config : PruneConfig} {estimator : ContentCostEstimator}

theorem selected_of_minimum
    (h : config.minimum_tokens ≤ tokens_of (beyond_protection messages config estimator)) :
    selected messages config estimator = beyond_protection messages config estimator :=
  if_pos h

theorem selected_of_mem {r : PlacedResult} (h : r ∈ selected messages config estimator) :
    config.minimum_tokens ≤ tokens_of (beyond_protection messages config estimator) := by
  by_contra hless
  rw [selected, if_neg hless] at h
  cases h

/-- What the protection covers: the shortest front that costs it. -/
theorem exists_covered_results (messages : List AgentMessage) (config : PruneConfig)
    (estimator : ContentCostEstimator) : ∃ covered,
    scanned messages config estimator = covered ++ beyond_protection messages config estimator ∧
    (beyond_protection messages config estimator ≠ [] →
      config.protect_tokens ≤ tokens_of covered) ∧
    ∀ front back, covered = front ++ back → back ≠ [] →
      tokens_of front < config.protect_tokens := by
  have h := Budgets.exists_covered (fun r : PlacedResult => r.result.tokens)
    config.protect_tokens 0 (scanned messages config estimator)
  simp only [Nat.zero_add] at h
  exact h

theorem runs_out_of_protects (h : ProtectsRecent messages config estimator) :
    RunsOutBetweenMessages messages config estimator := by
  intro newer batch older counted rest hbatches hbatch hrest hbefore hreached
  by_contra henough
  rw [Nat.not_lt] at henough
  obtain ⟨covered, hscanned, hpaid, hshortest⟩ := exists_covered_results messages config estimator
  have hsplit : scanned messages config estimator =
      (newer.flatten ++ counted) ++ (rest ++ older.flatten) := by
    rw [scanned, hbatches, List.flatten_append, List.flatten_cons, hbatch, List.append_assoc,
      List.append_assoc]
  -- the covered results end inside the batch, behind at least one of its results
  obtain ⟨kept, hbeyond⟩ : rest ++ older.flatten <:+ beyond_protection messages config estimator := by
    rw [beyond_protection, hsplit]
    exact Budgets.suffix_beyond (by rw [Budgets.total_append, Nat.zero_add]; exact hreached)
  replace hbeyond := hbeyond.symm
  have hkept : covered ++ kept = newer.flatten ++ counted := by
    rw [hsplit, hbeyond, ← List.append_assoc covered] at hscanned
    exact (List.append_cancel_right hscanned).symm
  have hcost : config.protect_tokens ≤ tokens_of covered := hpaid (by rw [hbeyond]; simp [hrest])
  obtain ⟨cut, hcut⟩ : newer.flatten <+: covered := by
    rcases List.prefix_or_prefix_of_prefix (List.prefix_append newer.flatten counted)
      ⟨kept, hkept⟩ with hprefix | hprefix
    · exact hprefix
    · have := Budgets.total_sublist (fun r : PlacedResult => r.result.tokens) hprefix.sublist
      unfold tokens_of at hcost hbefore
      omega
  rw [← hcut, List.append_assoc] at hkept
  have hcounted : counted = cut ++ kept := (List.append_cancel_left hkept).symm
  rcases cut with _ | ⟨first, cut⟩
  · rw [← hcut, List.append_nil] at hcost
    omega
  rcases rest with _ | ⟨next, rest⟩
  · exact hrest rfl
  -- the first of them is older than what is left of the batch, and is not selected
  have hselected : selected messages config estimator =
      kept ++ (next :: rest ++ older.flatten) := by
    rw [selected_of_minimum, hbeyond]
    rw [hbeyond, tokens_of, Budgets.total_append, Budgets.total_append]
    unfold tokens_of at henough
    omega
  obtain ⟨m, age, hplaced⟩ := @batch_eq config estimator messages batch (by rw [hbatches]; simp)
  have horder := @pairwise_placed_results config estimator m age
  have hsame : ∀ r ∈ batch, r.age = age := by
    intro r hr
    rw [hplaced] at hr
    exact age_placed_results hr
  rw [← hplaced, hbatch, hcounted, List.append_assoc, List.cons_append, List.pairwise_cons] at horder
  have hfirst : first ∈ batch := by rw [hbatch, hcounted]; simp
  have hnext : next ∈ batch := by rw [hbatch]; simp
  have hlater : first.later next = true :=
    decide_eq_true (.inr ⟨by rw [hsame first hfirst, hsame next hnext], horder.1 next (by simp)⟩)
  have hmem := (h next (by rw [hselected]; simp)).2 first
    (by rw [hsplit, hcounted]; simp) hlater
  rw [hselected] at hmem
  rcases List.mem_append.1 hmem with hkept | hmem
  · have := horder.1 first (by simp [hkept])
    omega
  · rcases List.mem_append.1 hmem with hrest | holder
    · have := horder.1 first (by simp only [List.mem_append]; exact .inr (.inr hrest))
      omega
    · have hsplit' : batches messages config estimator = (newer ++ [batch]) ++ older := by
        rw [hbatches]
        simp
      have hages := age_lt_of_newer hsplit' (List.mem_flatten.2 ⟨batch, by simp, hfirst⟩) holder
      omega

/-- Where the protection runs out between two messages, what it covers is newer than what
it does not. -/
theorem beyond_of_runs_out (h : RunsOutBetweenMessages messages config estimator)
    (henough : config.minimum_tokens ≤ tokens_of (beyond_protection messages config estimator)) :
    beyond_protection messages config estimator = [] ∨ ∃ newer older,
      batches messages config estimator = newer ++ older ∧
      beyond_protection messages config estimator = older.flatten ∧
      config.protect_tokens ≤ tokens_of newer.flatten := by
  obtain ⟨covered, hscanned, hpaid, hshortest⟩ := exists_covered_results messages config estimator
  rcases Budgets.cut_flatten hscanned with
    hnil | ⟨newer, batch, older, counted, rest, hbatches, hbatch, hrest, hcovered, hbeyond⟩
  · exact .inl hnil
  · have hreached := hpaid (by rw [hbeyond]; simp [hrest])
    rw [hcovered, tokens_of, Budgets.total_append] at hreached
    rcases counted with _ | ⟨r, counted⟩
    · refine .inr ⟨newer, batch :: older, hbatches, ?_, ?_⟩
      · rw [hbeyond, List.flatten_cons, hbatch, List.nil_append]
      · rw [Budgets.total_nil, Nat.add_zero] at hreached
        exact hreached
    · -- the protection would run out inside the batch
      have hbefore := hshortest newer.flatten (r :: counted) hcovered (List.cons_ne_nil _ _)
      have hfew := h newer batch older (r :: counted) rest hbatches hbatch hrest hbefore hreached
      rw [hbeyond, tokens_of, Budgets.total_append] at henough
      unfold tokens_of at hfew
      omega

theorem protects_of_runs_out (h : RunsOutBetweenMessages messages config estimator) :
    ProtectsRecent messages config estimator := by
  intro r hr
  have henough := selected_of_mem hr
  rw [selected_of_minimum henough] at hr ⊢
  rcases beyond_of_runs_out h henough with hnil | ⟨newer, older, hbatches, hbeyond, hprotected⟩
  · rw [hnil] at hr
    cases hr
  · rw [hbeyond] at hr ⊢
    have hscanned : scanned messages config estimator = newer.flatten ++ older.flatten := by
      rw [scanned, hbatches, List.flatten_append]
    rw [hscanned]
    refine ⟨?_, ?_⟩
    · have hlater : newer.flatten.filter r.later = newer.flatten := by
        refine List.filter_eq_self.2 ?_
        intro r' hr'
        exact decide_eq_true (.inl (age_lt_of_newer hbatches hr' hr))
      calc config.protect_tokens ≤ tokens_of newer.flatten := hprotected
        _ = tokens_of (newer.flatten.filter r.later) := by rw [hlater]
        _ ≤ tokens_of ((newer.flatten ++ older.flatten).filter r.later) :=
            Budgets.total_sublist _ ((List.sublist_append_left _ _).filter _)
    · intro r' hr' hlater
      rcases List.mem_append.1 hr' with hnewer | holder
      · have := age_lt_of_newer hbatches hnewer hr
        have := of_decide_eq_true hlater
        omega
      · exact holder

/-- **The most recent results are protected exactly when the protection runs out between two
messages**, or what is left does not make up the minimum. -/
theorem protects_recent_iff (messages : List AgentMessage) (config : PruneConfig)
    (estimator : ContentCostEstimator) :
    (compute_prune_candidates messages config estimator).candidates =
        (selected messages config estimator).map PlacedResult.result ∧
      (ProtectsRecent messages config estimator ↔
        RunsOutBetweenMessages messages config estimator) :=
  ⟨candidates_eq_selected messages, runs_out_of_protects, protects_of_runs_out⟩

/-- A message with the results of two calls, as the agent stores them. -/
def batched_history : List AgentMessage :=
  [pruned_prompt "p1" "read two files",
    ⟨"r1", "s", .User, [.ToolResult "c1" [.Text "old"] false none none none,
      .ToolResult "c2" [.Text "new"] false none none none], 0, none, none, none⟩,
    pruned_prompt "p2" "go on", pruned_prompt "p3" "go on"]

/-- The protection is worth one result. The older one is protected, and the newer one goes. -/
theorem newer_result_pruned :
    ¬ ProtectsRecent batched_history ⟨100, 1, []⟩ (fun _ => 100) := by
  intro hprotects
  have hnewer := hprotects ⟨2, 1, ⟨"r1", "c2", 100⟩⟩ (by decide)
  exact absurd (hnewer.2 ⟨2, 0, ⟨"r1", "c1", 100⟩⟩ (by decide) (by decide)) (by decide)

/-! ## 7. Compactions -/

theorem before_user_messages_suffix (n : ℕ) (ms : List AgentMessage) :
    before_user_messages n ms <:+ ms := by
  induction ms generalizing n with
  | nil => cases n <;> exact List.suffix_refl _
  | cons message older ih =>
      rcases n with _ | n
      · exact List.suffix_refl _
      · rw [before_user_messages]
        split
        · exact (ih n).trans (List.suffix_cons _ _)
        · exact (ih (n + 1)).trans (List.suffix_cons _ _)

theorem getElem?_before_user_messages (messages : List AgentMessage) (i : ℕ) :
    (before_user_messages 2 messages.reverse)[i]? =
      messages.reverse[skipped_count messages + i]? := by
  have hdrop := List.suffix_iff_eq_drop.1 (before_user_messages_suffix 2 messages.reverse)
  rw [List.length_reverse] at hdrop
  change _ = messages.reverse.drop (skipped_count messages) at hdrop
  rw [hdrop, List.getElem?_drop]

/-- A counted result is in a message of the window. -/
theorem exposed_of_scanned {r : PlacedResult} (h : r ∈ scanned messages config estimator) :
    skipped_count messages ≤ r.age ∧
      r.age - skipped_count messages < (exposed messages).length := by
  obtain ⟨batch, hbatch, hr⟩ := List.mem_flatten.1 h
  obtain ⟨⟨m, age⟩, hp, rfl⟩ := List.mem_map.1 hbatch
  rw [age_placed_results hr]
  have := List.mem_zipIdx hp
  omega

/-- Up to the last message of the window no message that is not skipped has a compaction. -/
theorem no_compaction_in_window {r : PlacedResult} (h : r ∈ scanned messages config estimator)
    {age : ℕ} {m : AgentMessage} (hm : messages.reverse[age]? = some m)
    (hskipped : skipped_count messages ≤ age) (hage : age ≤ r.age) : m.has_compaction = false := by
  obtain ⟨hle, hlt⟩ := exposed_of_scanned h
  obtain ⟨i, rfl⟩ := Nat.exists_eq_add_of_le hskipped
  rw [← getElem?_before_user_messages] at hm
  obtain ⟨behind, hwindow⟩ : exposed messages <+: before_user_messages 2 messages.reverse :=
    List.takeWhile_prefix _
  rw [← hwindow, List.getElem?_append_left (by omega)] at hm
  have := List.mem_takeWhile_imp (List.mem_of_getElem? hm)
  rwa [Bool.not_eq_true'] at this

theorem beyond_subset_scanned {r : PlacedResult}
    (h : r ∈ beyond_protection messages config estimator) :
    r ∈ scanned messages config estimator := by
  obtain ⟨covered, hscanned, -, -⟩ := exists_covered_results messages config estimator
  rw [hscanned]
  exact List.mem_append_right covered h

/-- **Nothing behind a compaction is selected exactly when no skipped message has one**, or
nothing is selected at all. -/
theorem stops_at_compaction_iff (messages : List AgentMessage) (config : PruneConfig)
    (estimator : ContentCostEstimator) :
    (compute_prune_candidates messages config estimator).candidates =
        (selected messages config estimator).map PlacedResult.result ∧
      (StopsAtCompaction messages config estimator ↔
        (∀ m ∈ skipped messages, m.has_compaction = false) ∨
          TooLittleLeft messages config estimator) := by
  refine ⟨candidates_eq_selected messages, ?_, ?_⟩
  · intro hstops
    by_cases hnone : ∀ m ∈ skipped messages, m.has_compaction = false
    · exact .inl hnone
    · right
      intro counted rest hscanned hrest hreached
      by_contra henough
      rw [Nat.not_lt] at henough
      obtain ⟨kept, hbeyond⟩ : rest <:+ beyond_protection messages config estimator := by
        rw [beyond_protection, hscanned]
        exact Budgets.suffix_beyond (by rw [Nat.zero_add]; exact hreached)
      rcases rest with _ | ⟨r, rest⟩
      · exact hrest rfl
      have hselected : selected messages config estimator = kept ++ r :: rest := by
        rw [selected_of_minimum, hbeyond]
        rw [← hbeyond, tokens_of, Budgets.total_append]
        exact Nat.le_add_left_of_le henough
      -- the selected result is older than the skipped compaction
      rw [not_forall₂] at hnone
      obtain ⟨m, hm, hcompaction⟩ := hnone
      obtain ⟨age, hage⟩ := List.getElem?_of_mem hm
      rw [skipped, List.getElem?_take] at hage
      split at hage
      · next hlt =>
          have := hstops r (by rw [hselected]; simp) age m hage (eq_true_of_ne_false hcompaction)
          have := (exposed_of_scanned (r := r) (by rw [hscanned]; simp)).1
          omega
      · cases hage
  · intro hcondition r hr age m hm hcompaction
    have henough := selected_of_mem hr
    rw [selected_of_minimum henough] at hr
    rcases hcondition with hnone | hlittle
    · have hskipped : skipped_count messages ≤ age := by
        by_contra hlt
        have hmem : m ∈ skipped messages := by
          refine List.mem_of_getElem? (i := age) ?_
          rw [skipped, List.getElem?_take_of_lt (Nat.not_le.1 hlt), hm]
        rw [hnone m hmem] at hcompaction
        cases hcompaction
      by_contra hage
      rw [no_compaction_in_window (beyond_subset_scanned hr) hm hskipped (Nat.not_lt.1 hage)]
        at hcompaction
      cases hcompaction
    · obtain ⟨covered, hscanned, hpaid, -⟩ := exists_covered_results messages config estimator
      have hne : beyond_protection messages config estimator ≠ [] := List.ne_nil_of_mem hr
      have := hlittle covered _ hscanned hne (hpaid hne)
      omega

/-- A compaction as it is stored, between a tool result and a prompt: the request is a message
of the user, and counts as the second one that is skipped. -/
def compacted_history : List AgentMessage :=
  [pruned_prompt "p1" "read a file",
    call_message "a1" "c1", result_message_of "r1" "c1",
    ⟨"q", "s", .User, [.CompactionRequest 100], 0, none, none, none⟩,
    ⟨"a2", "s", .Assistant, [.Compaction "summary" 100], 0, none, none, none⟩,
    pruned_prompt "p2" "go on"]

/-- The result before the compaction is a candidate. -/
theorem result_behind_compaction_pruned :
    ¬ StopsAtCompaction compacted_history ⟨0, 1, []⟩ (fun _ => 100) := by
  intro hstops
  exact absurd (hstops ⟨3, 0, ⟨"r1", "c1", 100⟩⟩ (by decide) 1 _ rfl rfl) (by decide)

end Results

end Querymt.Agent
