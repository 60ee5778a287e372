/-
`Agent/History.lean` -- the history that is sent to the model.

Mirrors `filter_to_effective_history` and `merge_consecutive_tool_result_messages`
of `session/compaction.rs`: the suffix from the last compaction request, without the
messages that only carry snapshot metadata, with runs of tool-result messages merged.
The messages come from the store in the order of their times (`get_history`).

A history is `Paired` when it is made of plain messages and of exchanges (an
assistant message with tool calls, and right after it the messages with their
results). A paired history has all its calls answered, and so has the effective
history taken from it.
-/
import Querymt.Agent.Model
import Querymt.Library.Tables

set_option autoImplicit false

namespace Querymt.Agent

/-! ## 1. The effective history -/

/-- `get_history`, of the messages of a session in the order in which they were stored:
`ORDER BY created_at`, a clock in whole seconds. -/
def get_history (stored : List AgentMessage) : List AgentMessage :=
  stored.insertionSort fun a b => a.created_at ≤ b.created_at

/-- The suffix from the last compaction request (`rposition` and `skip`). -/
def from_last_compaction : List AgentMessage → Option (List AgentMessage)
  | [] => none
  | m :: rest =>
      match from_last_compaction rest with
      | some suffix => some suffix
      | none => if m.has_compaction_request then some (m :: rest) else none

def AgentMessage.is_user_tool_result (m : AgentMessage) : Bool :=
  decide (m.role = .User) && m.parts.any MessagePart.is_tool_result

/-- `prev.parts.extend(msg.parts)`. -/
def AgentMessage.extend (prev msg : AgentMessage) : AgentMessage :=
  { prev with parts := prev.parts ++ msg.parts }

/-- One iteration of the merge loop. -/
def merge_step (result : List AgentMessage) (msg : AgentMessage) : List AgentMessage :=
  match result.getLast? with
  | some prev =>
      if msg.is_user_tool_result && prev.is_user_tool_result then
        result.dropLast ++ [prev.extend msg]
      else result ++ [msg]
  | none => result ++ [msg]

def merge_consecutive_tool_result_messages (messages : List AgentMessage) : List AgentMessage :=
  if messages.length < 2 then messages else messages.foldl merge_step []

/-- Is there a part other than snapshot metadata? -/
def AgentMessage.has_content (m : AgentMessage) : Bool :=
  m.parts.any fun p => !p.is_turn_snapshot

def filter_to_effective_history (messages : List AgentMessage) : List AgentMessage :=
  merge_consecutive_tool_result_messages
    (((from_last_compaction messages).getD messages).filter AgentMessage.has_content)

section

local instance : Std.Total fun a b : AgentMessage => a.created_at ≤ b.created_at :=
  ⟨fun a b => le_total a.created_at b.created_at⟩

local instance : IsTrans AgentMessage fun a b => a.created_at ≤ b.created_at :=
  ⟨fun _ _ _ hab hbc => hab.trans hbc⟩

/-- A message that is stored goes where its time puts it. -/
theorem get_history_concat (stored : List AgentMessage) (message : AgentMessage) :
    get_history (stored ++ [message]) =
      (get_history stored).orderedInsert (fun a b => a.created_at < b.created_at) message :=
  Tables.insertionSort_concat (fun _ _ => not_le.symm) stored message

/-- While the clock does not step back, what is stored later is read later. -/
theorem get_history_append {old new : List AgentMessage}
    (hold : ∀ a ∈ old, ∀ b ∈ new, a.created_at ≤ b.created_at)
    (hnew : new.Pairwise fun a b => a.created_at ≤ b.created_at) :
    get_history (old ++ new) = get_history old ++ new :=
  Tables.insertionSort_append hold hnew

theorem get_history_filter (p : AgentMessage → Bool) (stored : List AgentMessage) :
    (get_history stored).filter p = get_history (stored.filter p) :=
  Tables.filter_insertionSort p stored

theorem get_history_map {f : AgentMessage → AgentMessage}
    (hf : ∀ m, (f m).created_at = m.created_at) (stored : List AgentMessage) :
    get_history (stored.map f) = (get_history stored).map f := by
  refine (List.map_insertionSort _ _ f stored fun a _ b _ => ?_).symm
  rw [hf a, hf b]

end

/-! ## 2. Merging, from the right -/

/-- The merge by recursion on the list. -/
def merge_right : List AgentMessage → List AgentMessage
  | [] => []
  | m :: rest =>
      match merge_right rest with
      | [] => [m]
      | next :: merged =>
          if m.is_user_tool_result && next.is_user_tool_result then m.extend next :: merged
          else m :: next :: merged

theorem is_user_tool_result_extend {prev : AgentMessage} (msg : AgentMessage)
    (h : prev.is_user_tool_result = true) : (prev.extend msg).is_user_tool_result = true := by
  unfold AgentMessage.is_user_tool_result at h ⊢
  rw [Bool.and_eq_true] at h ⊢
  refine ⟨h.1, ?_⟩
  change (prev.parts ++ msg.parts).any MessagePart.is_tool_result = true
  rw [List.any_append, h.2, Bool.true_or]

/-- The first message of a merged list starts with the first message of the list, and
is a tool-result message if and only if that one is. -/
theorem merge_right_cons (m : AgentMessage) (rest : List AgentMessage) :
    ∃ first merged, merge_right (m :: rest) = first :: merged ∧
      first.is_user_tool_result = m.is_user_tool_result := by
  rw [merge_right]
  rcases merge_right rest with _ | ⟨next, merged⟩
  · exact ⟨m, [], rfl, rfl⟩
  · dsimp only
    by_cases h : (m.is_user_tool_result && next.is_user_tool_result) = true
    · rw [if_pos h]
      rw [Bool.and_eq_true] at h
      exact ⟨_, _, rfl, by rw [is_user_tool_result_extend next h.1, h.1]⟩
    · rw [if_neg h]
      exact ⟨_, _, rfl, rfl⟩

/-- A message that is not a tool-result message stays as it is. -/
theorem merge_right_cons_of_not {m : AgentMessage} (h : m.is_user_tool_result = false)
    (rest : List AgentMessage) : merge_right (m :: rest) = m :: merge_right rest := by
  rw [merge_right]
  rcases merge_right rest with _ | ⟨next, merged⟩
  · rfl
  · dsimp only
    rw [h, Bool.false_and, if_neg (by decide)]

theorem extend_assoc (a b c : AgentMessage) : (a.extend b).extend c = a.extend (b.extend c) := by
  unfold AgentMessage.extend
  rw [List.append_assoc]

theorem merge_right_extend {p m : AgentMessage} (hp : p.is_user_tool_result = true)
    (hm : m.is_user_tool_result = true) (rest : List AgentMessage) :
    merge_right (p :: m :: rest) = merge_right (p.extend m :: rest) := by
  have hpm := is_user_tool_result_extend m hp
  rw [merge_right, merge_right, merge_right]
  rcases merge_right rest with _ | ⟨next, merged⟩
  · dsimp only
    rw [hp, hm, Bool.true_and, if_pos rfl]
  · dsimp only
    rw [hm, hpm, Bool.true_and]
    by_cases hn : next.is_user_tool_result = true
    · rw [if_pos hn, if_pos hn]
      dsimp only
      rw [hp, is_user_tool_result_extend next hm, Bool.true_and, if_pos rfl, extend_assoc]
    · rw [if_neg hn, if_neg hn]
      dsimp only
      rw [hp, hm, Bool.true_and, if_pos rfl]

/-- The loop, from an accumulator that ends in `p`. -/
theorem foldl_merge_step (acc : List AgentMessage) (p : AgentMessage)
    (messages : List AgentMessage) :
    messages.foldl merge_step (acc ++ [p]) = acc ++ merge_right (p :: messages) := by
  induction messages generalizing acc p with
  | nil => rfl
  | cons m messages ih =>
      rw [List.foldl_cons, merge_step, List.getLast?_concat]
      dsimp only
      by_cases h : (m.is_user_tool_result && p.is_user_tool_result) = true
      · rw [if_pos h, List.dropLast_concat, ih]
        rw [Bool.and_eq_true] at h
        rw [merge_right_extend h.2 h.1]
      · rw [if_neg h, ih]
        -- the two heads do not merge, so the list splits between them
        obtain ⟨first, merged, heq, hfirst⟩ := merge_right_cons m messages
        rw [List.append_assoc, List.singleton_append]
        congr 1
        conv_rhs => rw [merge_right, heq]
        dsimp only
        rw [heq, if_neg]
        rw [hfirst, Bool.and_comm]
        exact h

theorem merge_eq_merge_right (messages : List AgentMessage) :
    merge_consecutive_tool_result_messages messages = merge_right messages := by
  unfold merge_consecutive_tool_result_messages
  rcases messages with _ | ⟨m, _ | ⟨m', messages⟩⟩
  · rfl
  · rfl
  · rw [if_neg (by simp)]
    exact foldl_merge_step [] m (m' :: messages)

/-! ## 3. Paired histories -/

/-- Plain messages and exchanges, in sequence. -/
inductive Paired : List AgentMessage → Prop
  | nil : Paired []
  | plain {m : AgentMessage} {h : List AgentMessage} :
      m.tool_use_ids = [] → m.tool_result_ids = [] → Paired h → Paired (m :: h)
  | exchange {a : AgentMessage} {rs h : List AgentMessage} :
      a.role = .Assistant → a.tool_result_ids = [] → a.has_compaction_request = false →
      (∀ r ∈ rs, r.role = .User ∧ r.tool_use_ids = [] ∧ r.has_compaction_request = false) →
      a.tool_use_ids.Nodup → (rs.flatMap AgentMessage.tool_result_ids).Perm a.tool_use_ids →
      Paired h → Paired (a :: (rs ++ h))

theorem Paired.append {h h' : List AgentMessage} (hh : Paired h) (hh' : Paired h') :
    Paired (h ++ h') := by
  induction hh with
  | nil => exact hh'
  | plain huses hresults _ ih => exact Paired.plain huses hresults ih
  | exchange hrole hresults hreq hrs hnodup hperm _ ih =>
      rw [List.cons_append, List.append_assoc]
      exact Paired.exchange hrole hresults hreq hrs hnodup hperm ih

/-- Messages without tool traffic in front of a paired history. -/
theorem Paired.plain_append {rs h : List AgentMessage}
    (hrs : ∀ r ∈ rs, r.tool_use_ids = [] ∧ r.tool_result_ids = []) (hh : Paired h) :
    Paired (rs ++ h) := by
  induction rs with
  | nil => exact hh
  | cons r rs ih =>
      have hr := hrs r List.mem_cons_self
      refine Paired.plain hr.1 hr.2 (ih ?_)
      intro x hx
      exact hrs x (List.mem_cons_of_mem r hx)

/-- Before its first assistant message a paired history answers nothing. -/
theorem Paired.leading_results {h : List AgentMessage} (hh : Paired h) :
    (((h.map AgentMessage.traffic).takeWhile fun t => decide (t.role ≠ .Assistant)).flatMap
      Traffic.results) = [] := by
  induction hh with
  | nil => rfl
  | @plain m h huses hresults _ ih =>
      rw [List.map_cons, List.takeWhile_cons]
      split
      · rw [List.flatMap_cons, ih]
        change m.tool_result_ids ++ [] = []
        rw [hresults, List.append_nil]
      · rfl
  | @exchange a rs h hrole _ _ _ _ _ _ _ =>
      rw [List.map_cons, List.takeWhile_cons, if_neg]
      · rfl
      · rw [decide_eq_true_eq]
        exact fun hne => hne hrole

/-- **A paired history has every tool call answered exactly once.** -/
theorem Paired.answered {h : List AgentMessage} (hh : Paired h) :
    Answered (h.map AgentMessage.traffic) := by
  induction hh with
  | nil => trivial
  | @plain m h huses hresults _ ih =>
      refine ⟨?_, ih⟩
      intro _ id hid
      change id ∈ m.tool_use_ids at hid
      rw [huses] at hid
      cases hid
  | @exchange a rs h hrole hresults hreq hrs hnodup hperm hh ih =>
      -- the results stand right after the calls, and none before the next assistant
      have hwhile : ((rs ++ h).map AgentMessage.traffic).takeWhile
          (fun t => decide (t.role ≠ .Assistant)) =
          rs.map AgentMessage.traffic ++
            (h.map AgentMessage.traffic).takeWhile fun t => decide (t.role ≠ .Assistant) := by
        rw [List.map_append, List.takeWhile_append_of_pos]
        intro t ht
        obtain ⟨r, hr, rfl⟩ := List.mem_map.1 ht
        rw [decide_eq_true_eq]
        change r.role ≠ .Assistant
        rw [(hrs r hr).1]
        decide
      have hflat : (rs.map AgentMessage.traffic).flatMap Traffic.results =
          rs.flatMap AgentMessage.tool_result_ids := List.flatMap_map _ _ _
      have hanswered : Answered ((rs ++ h).map AgentMessage.traffic) := by
        clear hwhile hflat hperm
        induction rs with
        | nil => exact ih
        | cons r rs ihrs =>
            refine ⟨?_, ihrs ?_⟩
            · intro hassistant
              change r.role = .Assistant at hassistant
              rw [(hrs r List.mem_cons_self).1] at hassistant
              cases hassistant
            · intro x hx
              exact hrs x (List.mem_cons_of_mem r hx)
      refine ⟨?_, hanswered⟩
      intro _ id hid
      rw [hwhile, List.flatMap_append, hh.leading_results, List.append_nil, hflat,
        hperm.count_eq]
      exact List.count_eq_one_of_mem hnodup hid

/-! ## 4. The effective history of a paired history is paired -/

theorem from_last_compaction_append {rs : List AgentMessage}
    (hrs : ∀ r ∈ rs, r.has_compaction_request = false) {h : List AgentMessage} :
    from_last_compaction (rs ++ h) = from_last_compaction h := by
  induction rs with
  | nil => rfl
  | cons r rs ih =>
      have hrest : ∀ x ∈ rs, x.has_compaction_request = false :=
        fun x hx => hrs x (List.mem_cons_of_mem r hx)
      rw [List.cons_append, from_last_compaction, ih hrest]
      rcases from_last_compaction h with _ | suffix
      · dsimp only
        rw [hrs r List.mem_cons_self, if_neg (by decide)]
      · rfl

theorem from_last_compaction_none {h : List AgentMessage}
    (hh : ∀ m ∈ h, m.has_compaction_request = false) : from_last_compaction h = none := by
  calc from_last_compaction h = from_last_compaction (h ++ []) := by rw [List.append_nil]
    _ = from_last_compaction [] := from_last_compaction_append hh
    _ = none := rfl

theorem from_last_compaction_of_last {pre post : List AgentMessage} {request : AgentMessage}
    (hrequest : request.has_compaction_request = true)
    (hpost : ∀ m ∈ post, m.has_compaction_request = false) :
    from_last_compaction (pre ++ request :: post) = some (request :: post) := by
  induction pre with
  | nil =>
      rw [List.nil_append, from_last_compaction, from_last_compaction_none hpost]
      exact if_pos hrequest
  | cons m pre ih => rw [List.cons_append, from_last_compaction, ih]

theorem Paired.from_last_compaction {h suffix : List AgentMessage} (hh : Paired h)
    (heq : from_last_compaction h = some suffix) : Paired suffix := by
  induction hh generalizing suffix with
  | nil => cases heq
  | @plain m h huses hresults hh ih =>
      rw [Querymt.Agent.from_last_compaction] at heq
      rcases hlast : Querymt.Agent.from_last_compaction h with _ | later
      · rw [hlast] at heq
        dsimp only at heq
        split at heq
        · cases heq
          exact Paired.plain huses hresults hh
        · cases heq
      · rw [hlast] at heq
        cases heq
        exact ih hlast
  | @exchange a rs h hrole hresults hreq hrs hnodup hperm hh ih =>
      refine ih ?_
      rw [← heq, ← List.cons_append]
      refine (from_last_compaction_append ?_).symm
      intro r hr
      rcases List.mem_cons.1 hr with rfl | hr
      · exact hreq
      · exact (hrs r hr).2.2

/-- A message with nothing but snapshot metadata has no tool traffic. -/
theorem traffic_of_not_has_content {m : AgentMessage} (h : m.has_content = false) :
    m.tool_use_ids = [] ∧ m.tool_result_ids = [] := by
  have hsnap : ∀ p ∈ m.parts, p.is_turn_snapshot = true := by
    intro p hp
    by_contra hne
    rw [AgentMessage.has_content, List.any_eq_false] at h
    exact h p hp (by simpa using hne)
  constructor
  · refine List.filterMap_eq_nil_iff.2 ?_
    intro p hp
    have := hsnap p hp
    cases p <;> first | rfl | cases this
  · refine List.filterMap_eq_nil_iff.2 ?_
    intro p hp
    have := hsnap p hp
    cases p <;> first | rfl | cases this

theorem flatMap_results_filter (rs : List AgentMessage) :
    (rs.filter AgentMessage.has_content).flatMap AgentMessage.tool_result_ids =
      rs.flatMap AgentMessage.tool_result_ids := by
  induction rs with
  | nil => rfl
  | cons r rs ih =>
      rw [List.filter_cons, List.flatMap_cons]
      split
      · rw [List.flatMap_cons, ih]
      · next hr => rw [ih, (traffic_of_not_has_content (by simpa using hr)).2, List.nil_append]

theorem Paired.filter_has_content {h : List AgentMessage} (hh : Paired h) :
    Paired (h.filter AgentMessage.has_content) := by
  induction hh with
  | nil => exact Paired.nil
  | @plain m h huses hresults _ ih =>
      rw [List.filter_cons]
      split
      · exact Paired.plain huses hresults ih
      · exact ih
  | @exchange a rs h hrole hresults hreq hrs hnodup hperm hh ih =>
      rw [List.filter_cons, List.filter_append]
      split
      · refine Paired.exchange hrole hresults hreq ?_ hnodup ?_ ih
        · intro r hr
          exact hrs r (List.mem_filter.1 hr).1
        · rw [flatMap_results_filter]
          exact hperm
      · -- a message without content makes no calls, so nothing is answered
        next ha =>
          have huses : a.tool_use_ids = [] := (traffic_of_not_has_content (by simpa using ha)).1
          rw [huses, List.perm_nil, List.flatMap_eq_nil_iff] at hperm
          refine Paired.plain_append ?_ ih
          intro r hr
          have hmem := (List.mem_filter.1 hr).1
          exact ⟨(hrs r hmem).2.1, hperm r hmem⟩

theorem is_user_tool_result_of_no_results {m : AgentMessage} (h : m.tool_result_ids = []) :
    m.is_user_tool_result = false := by
  rw [AgentMessage.is_user_tool_result, Bool.and_eq_false_iff]
  right
  rw [List.any_eq_false]
  intro p hp htr
  have hnone := List.filterMap_eq_nil_iff.1 h p hp
  cases p with
  | ToolResult call_id content is_error tool_name tool_arguments compacted_at => cases hnone
  | _ => cases htr

/-- Merging keeps the shape of the result messages of an exchange. -/
theorem merge_right_results {rs : List AgentMessage}
    (hrs : ∀ r ∈ rs, r.role = .User ∧ r.tool_use_ids = [] ∧ r.has_compaction_request = false) :
    (∀ r ∈ merge_right rs, r.role = .User ∧ r.tool_use_ids = [] ∧
      r.has_compaction_request = false) ∧
    (merge_right rs).flatMap AgentMessage.tool_result_ids =
      rs.flatMap AgentMessage.tool_result_ids := by
  induction rs with
  | nil => exact ⟨hrs, rfl⟩
  | cons m rs ih =>
      have hm := hrs m List.mem_cons_self
      obtain ⟨hall, hflat⟩ := ih fun r hr => hrs r (List.mem_cons_of_mem m hr)
      rw [merge_right]
      rcases hmerge : merge_right rs with _ | ⟨next, merged⟩
      · rw [hmerge, List.flatMap_nil] at hflat
        refine ⟨?_, ?_⟩
        · intro r hr
          rw [List.mem_singleton.1 hr]
          exact hm
        · rw [List.flatMap_cons, List.flatMap_cons, ← hflat, List.flatMap_nil]
      · rw [hmerge] at hall hflat
        have hnext := hall next List.mem_cons_self
        dsimp only
        split
        · refine ⟨?_, ?_⟩
          · intro r hr
            rcases List.mem_cons.1 hr with rfl | hr
            · refine ⟨hm.1, ?_, ?_⟩
              · change (m.parts ++ next.parts).filterMap MessagePart.tool_use_id = []
                rw [List.filterMap_append]
                change m.tool_use_ids ++ next.tool_use_ids = []
                rw [hm.2.1, hnext.2.1, List.append_nil]
              · change (m.parts ++ next.parts).any MessagePart.is_compaction_request = false
                rw [List.any_append, Bool.or_eq_false_iff]
                exact ⟨hm.2.2, hnext.2.2⟩
            · exact hall r (List.mem_cons_of_mem next hr)
          · have hext : (m.extend next).tool_result_ids =
                m.tool_result_ids ++ next.tool_result_ids := List.filterMap_append
            rw [List.flatMap_cons, List.flatMap_cons, hext, ← hflat, List.flatMap_cons,
              List.append_assoc]
        · refine ⟨?_, ?_⟩
          · intro r hr
            rcases List.mem_cons.1 hr with rfl | hr
            · exact hm
            · exact hall r hr
          · rw [List.flatMap_cons, hflat, List.flatMap_cons]

/-- Merging goes through a boundary behind which no tool-result message stands. -/
theorem merge_right_append {rs h : List AgentMessage}
    (hhead : ∀ first merged, merge_right h = first :: merged → first.is_user_tool_result = false) :
    merge_right (rs ++ h) = merge_right rs ++ merge_right h := by
  induction rs with
  | nil => rfl
  | cons m rs ih =>
      rw [List.cons_append, merge_right, ih, merge_right]
      rcases hrs : merge_right rs with _ | ⟨next, merged⟩
      · rw [List.nil_append]
        rcases hh : merge_right h with _ | ⟨first, rest⟩
        · rfl
        · dsimp only
          rw [hhead first rest hh, Bool.and_false, if_neg (by decide)]
          rfl
      · rw [List.cons_append]
        dsimp only
        split <;> rfl

theorem Paired.merge_right {h : List AgentMessage} (hh : Paired h) :
    Paired (merge_right h) ∧
      ∀ first merged, merge_right h = first :: merged → first.is_user_tool_result = false := by
  induction hh with
  | nil => exact ⟨Paired.nil, fun _ _ h => by cases h⟩
  | @plain m h huses hresults _ ih =>
      have hm := is_user_tool_result_of_no_results hresults
      rw [merge_right_cons_of_not hm]
      refine ⟨Paired.plain huses hresults ih.1, ?_⟩
      intro first merged heq
      cases heq
      exact hm
  | @exchange a rs h hrole hresults hreq hrs hnodup hperm _ ih =>
      have ha := is_user_tool_result_of_no_results hresults
      obtain ⟨hall, hflat⟩ := merge_right_results hrs
      rw [merge_right_cons_of_not ha, merge_right_append ih.2]
      refine ⟨Paired.exchange hrole hresults hreq hall hnodup ?_ ih.1, ?_⟩
      · rw [hflat]
        exact hperm
      · intro first merged heq
        cases heq
        exact ha

/-- **The effective history of a paired history is paired.** -/
theorem Paired.effective_history {h : List AgentMessage} (hh : Paired h) :
    Paired (filter_to_effective_history h) := by
  rw [filter_to_effective_history, merge_eq_merge_right]
  have hsuffix : Paired ((Querymt.Agent.from_last_compaction h).getD h) := by
    rcases hlast : Querymt.Agent.from_last_compaction h with _ | suffix
    · exact hh
    · exact hh.from_last_compaction hlast
  exact hsuffix.filter_has_content.merge_right.1

end Querymt.Agent
