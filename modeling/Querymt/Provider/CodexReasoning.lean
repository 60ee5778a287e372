/-
`Provider/CodexReasoning.lean` -- the reasoning of a streamed answer of Codex.

A reasoning item is told by deltas, by the item that is done, or by the list of the whole answer.
`codex_parse_stream_chunk_with_state` (`providers/codex/src/api.rs`) does not keep which item a text
belongs to: it compares each text that is reported in full with all thinking so far, and what it
does then depends on whether any delta has come (`mark_final_thinking_emitted`).

# What is told apart

A text that is reported in full is taken for one that is known if it occurs somewhere in the
thinking so far. The items are told exactly once if every item that comes without deltas can be
told apart from what came before it, and the list at the end from all of it
(`reasoning_told_once`). Deltas need no comparison, so items that all come with deltas and are
listed together are always told once.
-/
import Querymt.Provider.CodexStream

set_option autoImplicit false

open Strings HashMaps

namespace Querymt.Codex

open Querymt.Agent (StreamChunk FinishReason Usage)

/-! ## 1. Reasoning items -/

/-- What an item says in full. -/
def reasoning_text (value : OutputItem) : String :=
  String.join (collect_reasoning_text_from_value value)

/-- A reasoning item, its deltas, and in which of the two other ways it is reported. What the
deltas say, if there are any, is what the item says in full. -/
structure ReasoningItem where
  value : OutputItem
  reasoning : value.item_type = some "reasoning"
  deltas : List String
  consistent : deltas ≠ [] → String.join deltas = reasoning_text value
  item_done : Bool
  listed : Bool
  reported : deltas ≠ [] ∨ item_done = true ∨ listed = true

/-- What an event says about reasoning. -/
inductive Report where
  | Delta (text : String)
  | Done (value : OutputItem)

namespace ReasoningItem

variable (item : ReasoningItem)

def text : String := reasoning_text item.value

/-- The item is reported before the end. -/
def told : Bool := !item.deltas.isEmpty || item.item_done

def reports : List Report :=
  item.deltas.map .Delta ++ if item.item_done then [.Done item.value] else []

end ReasoningItem

/-- What the event says about reasoning. -/
def CodexSseEvent.report (e : CodexSseEvent) : Option Report :=
  if is_reasoning_delta e.kind then e.delta.map .Delta
  else if e.kind = "response.output_item.done" then
    (e.item.filter fun item => decide (item.item_type = some "reasoning")).map .Done
  else none

def Event.report : Event → Option Report
  | .other e _ => e.report
  | _ => none

/-- **The reasoning of a stream**: the reports of the items, one item after the other, among the
other events, and the listed items in the list at the end. -/
structure Reasons (items : List ReasoningItem) (events : List Event) (ending : Ending) : Prop where
  reported : events.filterMap Event.report = items.flatMap ReasoningItem.reports
  listed : (ending.listed.map Prod.fst).filter (fun value =>
      decide (value.item_type = some "reasoning")) =
    (items.filter ReasoningItem.listed).map ReasoningItem.value

/-! ## 2. When they are told apart -/

section

variable (items : List ReasoningItem)

/-- A delta that says something has come. -/
def Streamed : Prop := ∃ item ∈ items, ∃ delta ∈ item.deltas, delta ≠ ""

/-- What the items have said before the end. -/
def told_text : String :=
  String.join ((items.filter ReasoningItem.told).map ReasoningItem.text)

/-- The texts that were reported by items that are done. -/
def done_texts : List String :=
  ((items.filter ReasoningItem.item_done).map ReasoningItem.text).filter (· ≠ "")

/-- What only the list can say. -/
def missing_text : String :=
  String.join ((items.filter fun item => !item.told).map ReasoningItem.text)

def listed_text : String :=
  String.join ((items.filter ReasoningItem.listed).map ReasoningItem.text)

/-- `text` is new: it occurs nowhere in what was said, and does not start with it. -/
def New (said text : String) : Prop :=
  ¬ text.toList <:+: said.toList ∧ ¬ said.toList <+: text.toList

/-- An item that comes without deltas says something new after `before`. -/
def Apart (before : List ReasoningItem) (item : ReasoningItem) : Prop :=
  item.deltas = [] → item.item_done = true → item.text ≠ "" →
    (Streamed before → New (told_text before) item.text) ∧
      (¬ Streamed before → item.text ∉ done_texts before)

/-- **The items are told apart.** -/
structure ToldApart : Prop where
  done : ∀ before item after, items = before ++ item :: after → Apart before item
  /-- What only the list says comes last. -/
  missing_last : items.Pairwise fun item later => later.told = true → later.text ≠ "" →
    item.told = true ∨ item.text = ""
  /-- The list repeats what was said, says all of it, or says what is missing and new. -/
  list : listed_text items ≠ "" →
    (Streamed items →
      missing_text items = "" ∧ (listed_text items).toList <:+: (told_text items).toList ∨
      ¬ (listed_text items).toList <:+: (told_text items).toList ∧
        listed_text items = told_text items ++ missing_text items ∨
      New (told_text items) (listed_text items) ∧ listed_text items = missing_text items) ∧
    (¬ Streamed items →
      missing_text items = "" ∧ listed_text items ∈ done_texts items ∨
      listed_text items ∉ done_texts items ∧ listed_text items = missing_text items)

end

/-- What is told of reasoning before the stream is done. -/
def told_before_done (chunks : List StreamChunk) : String :=
  String.join ((chunks.takeWhile fun c => c.finish_reason.isNone).filterMap StreamChunk.thinking)

/-! ## 3. The thinking, report by report -/

/-- What a report gives, and what is kept of it. -/
def tell (s : CodexToolUseState) : Report → Option String × CodexToolUseState
  | .Delta text => if text = "" then (none, s) else (some text, mark_streamed text s)
  | .Done value =>
      if reasoning_text value = "" then (none, s) else mark_final (reasoning_text value) s

/-- The entry of the thinking. -/
def thinking_entry (p : State) : CodexToolUseState := (p.lookup USIZE_MAX).getD default

theorem collect_nonempty (value : OutputItem) :
    ∀ piece ∈ collect_reasoning_text_from_value value, piece ≠ "" := by
  intro piece hpiece
  have hfilter := (List.mem_filter.1 hpiece).2
  exact of_decide_eq_true hfilter

theorem join_eq_empty_iff (pieces : List String) :
    String.join pieces = "" ↔ ∀ piece ∈ pieces, piece = "" := by
  induction pieces with
  | nil => simp
  | cons piece pieces ih =>
      rw [String.join_cons, String.append_eq_empty_iff, ih, List.forall_mem_cons]

/-- Pieces that are not empty, joined. -/
theorem joined_eq {pieces : List String} (h : ∀ piece ∈ pieces, piece ≠ "") :
    joined_non_empty pieces =
      if String.join pieces = "" then none else some (String.join pieces) := by
  unfold joined_non_empty
  cases pieces with
  | nil => simp
  | cons piece pieces =>
      have hne : String.join (piece :: pieces) ≠ "" := fun hnil =>
        h piece List.mem_cons_self ((join_eq_empty_iff _).1 hnil piece List.mem_cons_self)
      rw [if_neg hne]
      rfl

theorem extract_eq (value : OutputItem) : extract_reasoning_text_from_value value =
    if reasoning_text value = "" then none else some (reasoning_text value) :=
  joined_eq (collect_nonempty value)

theorem join_flatMap {α : Type} (f : α → List String) (as : List α) :
    String.join (as.flatMap f) = String.join (as.map fun a => String.join (f a)) := by
  induction as with
  | nil => rfl
  | cons a as ih =>
      rw [List.flatMap_cons, String.join_append, List.map_cons, String.join_cons, ih]

/-- The reasoning of the list, if it says anything. -/
theorem extract_response_eq (response : Response) :
    extract_reasoning_text_from_response response =
      if String.join (((response.output.getD []).filter fun item =>
          decide (item.item_type = some "reasoning")).map reasoning_text) = "" then none
      else some (String.join (((response.output.getD []).filter fun item =>
          decide (item.item_type = some "reasoning")).map reasoning_text)) := by
  unfold extract_reasoning_text_from_response
  rw [joined_eq, join_flatMap]
  · rfl
  · intro piece hpiece
    obtain ⟨value, -, hmem⟩ := List.mem_flatMap.1 hpiece
    exact collect_nonempty value piece hmem

/-- A text that is reported in full. -/
theorem final_thinking_tells (text : String) (p : State) :
    (final_thinking (if text = "" then none else some text) p).1.filterMap StreamChunk.thinking =
        (if text = "" then none else (mark_final text (thinking_entry p)).1).toList ∧
      thinking_entry (final_thinking (if text = "" then none else some text) p).2 =
        if text = "" then thinking_entry p else (mark_final text (thinking_entry p)).2 := by
  split_ifs with hempty
  · exact ⟨rfl, rfl⟩
  · refine ⟨?_, ?_⟩
    · change ((mark_final text (thinking_entry p)).1.map StreamChunk.Thinking).toList.filterMap
        StreamChunk.thinking = _
      cases (mark_final text (thinking_entry p)).1 <;> rfl
    · change ((at_entry p USIZE_MAX (mark_final text)).2.lookup USIZE_MAX).getD default = _
      rw [lookup_at_entry, if_pos rfl]
      rfl

/-- A report, as a step of a machine. -/
def teller (s : CodexToolUseState) (r : Report) : List String × CodexToolUseState :=
  ((tell s r).1.toList, (tell s r).2)

theorem run_teller (s : CodexToolUseState) (r : Report) :
    Parts.run teller s [r] = ((tell s r).1.toList, (tell s r).2) := by
  rw [Parts.run, Parts.run, List.append_nil]
  rfl

/-- The branch of the deltas tells the delta. -/
theorem reasoning_delta_tells (delta : Option String) (p : State) :
    (reasoning_delta delta p).1.filterMap StreamChunk.thinking =
        (Parts.run teller (thinking_entry p) (delta.map Report.Delta).toList).1 ∧
      thinking_entry (reasoning_delta delta p).2 =
        (Parts.run teller (thinking_entry p) (delta.map Report.Delta).toList).2 := by
  unfold reasoning_delta
  cases delta with
  | none => exact ⟨rfl, rfl⟩
  | some delta =>
      rw [Option.map_some, Option.toList_some, run_teller, tell]
      by_cases hempty : delta = ""
      · rw [if_pos hempty]
        simp [hempty]
      · rw [if_neg hempty]
        dsimp only
        rw [if_neg hempty]
        refine ⟨rfl, ?_⟩
        unfold thinking_entry mark_streamed_thinking_emitted
        rw [lookup_at_entry, if_pos rfl]
        rfl

/-- An item of reasoning that is done is told. -/
theorem item_done_tells (item : OutputItem) (p : State) :
    (final_thinking (extract_reasoning_text_from_value item) p).1.filterMap StreamChunk.thinking =
        (Parts.run teller (thinking_entry p) [.Done item]).1 ∧
      thinking_entry (final_thinking (extract_reasoning_text_from_value item) p).2 =
        (Parts.run teller (thinking_entry p) [.Done item]).2 := by
  obtain ⟨hchunks, hentry⟩ := final_thinking_tells (reasoning_text item) p
  rw [extract_eq, hchunks, hentry, run_teller, tell]
  by_cases hempty : reasoning_text item = ""
  · simp [hempty]
  · simp [hempty]

/-- An item that is no call and no reasoning says nothing. -/
theorem item_tells_nothing {item : OutputItem} (h : item.item_type ≠ some "function_call")
    (output_index : Option ℕ) (p : State) :
    (handle_output_item_event item output_index p).1.filterMap StreamChunk.thinking = [] ∧
      thinking_entry (handle_output_item_event item output_index p).2 = thinking_entry p := by
  unfold handle_output_item_event
  rw [if_neg h]
  exact ⟨rfl, rfl⟩

section

variable (order : DrainOrder ℕ CodexToolUseState)

/-- An event about a call says nothing of reasoning. -/
theorem event_step_index {e : Event} {k : ℕ} (he : e.index = some k) (hk : k ≠ USIZE_MAX)
    (p : State) :
    (event_step order p e).1.filterMap StreamChunk.thinking = [] ∧
      thinking_entry (event_step order p e).2 = thinking_entry p := by
  obtain ⟨hchunks, -, hothers⟩ := event_step_own order (p := p) he
  refine ⟨?_, ?_⟩
  · rw [List.filterMap_eq_nil_iff, hchunks]
    intro c hc
    have hindex := index_of_slot_step he _ c hc
    cases c <;> first | rfl | cases hindex
  · unfold thinking_entry
    rw [hothers USIZE_MAX (Ne.symm hk)]

/-- Any other event gives what its report gives. -/
theorem event_step_report {e : CodexSseEvent} (h : Free e) (p : State) :
    (event_step order p (.other e h)).1.filterMap StreamChunk.thinking =
        (Parts.run teller (thinking_entry p) e.report.toList).1 ∧
      thinking_entry (event_step order p (.other e h)).2 =
        (Parts.run teller (thinking_entry p) e.report.toList).2 := by
  obtain ⟨hkind, hitem⟩ := h
  rw [call_kinds, List.mem_cons, List.mem_cons, List.mem_cons, List.mem_singleton, not_or, not_or,
    not_or] at hkind
  unfold event_step step Event.line CodexSseEvent.report
  dsimp only
  by_cases hreasoning : is_reasoning_delta e.kind = true
  · rw [if_pos hreasoning, if_pos hreasoning]
    exact reasoning_delta_tells e.delta p
  · rw [if_neg hreasoning, if_neg hreasoning]
    unfold handle
    rw [if_neg hkind.1, if_neg hkind.2.1, if_neg hkind.2.2.1]
    by_cases hdone : e.kind = "response.output_item.done"
    · have htext : e.kind ≠ "response.output_text.delta" := by
        rw [hdone]
        decide
      rw [if_neg htext, if_pos hdone, if_pos hdone]
      cases hi : e.item with
      | none => exact ⟨rfl, rfl⟩
      | some item =>
          dsimp only
          unfold output_item_done
          by_cases hreason : item.item_type = some "reasoning"
          · rw [if_pos hreason, Option.filter_some, if_pos (decide_eq_true hreason)]
            exact item_done_tells item p
          · rw [if_neg hreason, Option.filter_some, if_neg (by simpa using hreason)]
            exact item_tells_nothing (hitem item hi) e.output_index p
    · rw [if_neg hdone, if_neg hdone]
      split_ifs
      · refine ⟨?_, rfl⟩
        cases e.delta <;> rfl
      · cases hi : e.item with
        | none => exact ⟨rfl, rfl⟩
        | some item => exact item_tells_nothing (hitem item hi) e.output_index p
      · exact ⟨rfl, rfl⟩

/-- What an event tells, and what it leaves at the entry of the thinking. -/
theorem event_step_tells {e : Event} (he : e.index ≠ some USIZE_MAX) (p : State) :
    (event_step order p e).1.filterMap StreamChunk.thinking =
        (Parts.run teller (thinking_entry p) e.report.toList).1 ∧
      thinking_entry (event_step order p e).2 =
        (Parts.run teller (thinking_entry p) e.report.toList).2 := by
  have hcall : ∀ k, e.index = some k → e.report = none →
      (event_step order p e).1.filterMap StreamChunk.thinking =
          (Parts.run teller (thinking_entry p) e.report.toList).1 ∧
        thinking_entry (event_step order p e).2 =
          (Parts.run teller (thinking_entry p) e.report.toList).2 := by
    intro k hk hreport
    rw [hreport]
    apply event_step_index order hk
    rintro rfl
    exact he hk
  cases e with
  | added k c => exact hcall k rfl rfl
  | delta k c text => exact hcall k rfl rfl
  | arguments_done k c => exact hcall k rfl rfl
  | item_done k c => exact hcall k rfl rfl
  | other e h => exact event_step_report order h p

/-- Before the end, the thinking is what the reports tell one after the other. -/
theorem body_tells {events : List Event} (h : ∀ e ∈ events, e.index ≠ some USIZE_MAX) (p : State) :
    (Parts.run (event_step order) p events).1.filterMap StreamChunk.thinking =
        (Parts.run teller (thinking_entry p) (events.filterMap Event.report)).1 ∧
      thinking_entry (Parts.run (event_step order) p events).2 =
        (Parts.run teller (thinking_entry p) (events.filterMap Event.report)).2 := by
  rw [List.filterMap_eq_flatMap_toList Event.report]
  induction events generalizing p with
  | nil => exact ⟨rfl, rfl⟩
  | cons e events ih =>
      obtain ⟨hchunks, hentry⟩ := event_step_tells order (h e List.mem_cons_self) p
      obtain ⟨hrest, hlast⟩ := ih (fun e' he' => h e' (List.mem_cons_of_mem e he'))
        (event_step order p e).2
      rw [Parts.run, List.flatMap_cons, Parts.run_append, List.filterMap_append, hchunks, hrest,
        hlast, hentry]
      exact ⟨rfl, rfl⟩

end

/-! ## 4. The items, one after the other -/

section

variable (before : List ReasoningItem) (item : ReasoningItem)

theorem told_text_append_singleton : told_text (before ++ [item]) =
    told_text before ++ if item.told then item.text else "" := by
  unfold told_text
  rw [List.filter_append, List.map_append, String.join_append]
  cases htold : item.told <;> simp [htold]

theorem done_texts_append_singleton : done_texts (before ++ [item]) =
    done_texts before ++ if item.item_done = true ∧ item.text ≠ "" then [item.text] else [] := by
  unfold done_texts
  rw [List.filter_append, List.map_append, List.filter_append]
  cases hdone : item.item_done <;> by_cases hempty : item.text = "" <;> simp [hdone, hempty]

theorem streamed_append_singleton : Streamed (before ++ [item]) ↔
    Streamed before ∨ ∃ delta ∈ item.deltas, delta ≠ "" := by
  unfold Streamed
  constructor
  · rintro ⟨other, hmem, hdelta⟩
    obtain hmem | hmem := List.mem_append.1 hmem
    · exact .inl ⟨other, hmem, hdelta⟩
    · rw [List.mem_singleton.1 hmem] at hdelta
      exact .inr hdelta
  · rintro (⟨other, hmem, hdelta⟩ | hdelta)
    · exact ⟨other, List.mem_append_left _ hmem, hdelta⟩
    · exact ⟨item, List.mem_append_right _ List.mem_cons_self, hdelta⟩

end

/-- What is kept once the items have been told. -/
structure Told (items : List ReasoningItem) (s : CodexToolUseState) : Prop where
  text : s.emitted_thinking_text = told_text items
  streamed : s.streamed_thinking_seen = true ↔ Streamed items
  done : ¬ Streamed items → s.emitted_thinking = done_texts items

theorem told_nil : Told [] default where
  text := rfl
  streamed := iff_of_false nofun fun ⟨_, hmem, _⟩ => absurd hmem List.not_mem_nil
  done _ := rfl

/-- The deltas of an item are told as they come. -/
theorem deltas_told (deltas : List String) (s : CodexToolUseState) :
    String.join (Parts.run teller s (deltas.map .Delta)).1 = String.join deltas ∧
      (Parts.run teller s (deltas.map .Delta)).2.emitted_thinking_text =
        s.emitted_thinking_text ++ String.join deltas ∧
      ((Parts.run teller s (deltas.map .Delta)).2.streamed_thinking_seen = true ↔
        s.streamed_thinking_seen = true ∨ ∃ delta ∈ deltas, delta ≠ "") ∧
      ((∀ delta ∈ deltas, delta = "") → (Parts.run teller s (deltas.map .Delta)).2 = s) := by
  induction deltas generalizing s with
  | nil => simp [Parts.run]
  | cons delta deltas ih =>
      obtain ⟨hout, htext, hstreamed, hnothing⟩ := ih (teller s (.Delta delta)).2
      rw [List.map_cons, Parts.run, String.join_append, hout, String.join_cons]
      by_cases hempty : delta = ""
      · -- nothing is told, and nothing is kept
        have hstep : teller s (.Delta delta) = ([], s) := by
          simp [teller, tell, hempty]
        rw [hstep] at htext hstreamed hnothing ⊢
        refine ⟨by simp [hempty], by simpa [hempty] using htext, ?_, ?_⟩
        · rw [hstreamed, List.exists_mem_cons_iff]
          simp [hempty]
        · exact fun hall => hnothing fun d hd => hall d (List.mem_cons_of_mem delta hd)
      · have hstep : teller s (.Delta delta) = ([delta], mark_streamed delta s) := by
          simp [teller, tell, hempty]
        rw [hstep] at htext hstreamed hnothing ⊢
        refine ⟨by simp, ?_, ?_, ?_⟩
        · rw [htext, ← String.append_assoc]
          rfl
        · exact iff_of_true (hstreamed.2 (.inl rfl)) (.inr ⟨delta, List.mem_cons_self, hempty⟩)
        · exact fun hall => absurd (hall delta List.mem_cons_self) hempty

/-- A text that is reported in full and was told before. -/
theorem mark_final_known {text : String} {s : CodexToolUseState}
    (hstreamed : s.streamed_thinking_seen = true)
    (hknown : text.toList <:+: s.emitted_thinking_text.toList) : mark_final text s = (none, s) := by
  unfold mark_final
  rw [if_pos hstreamed, if_pos (.inr (contains_iff.2 hknown))]

/-- An item that is done and says nothing that was not told. -/
theorem done_known {value : OutputItem} {s : CodexToolUseState}
    (h : reasoning_text value ≠ "" → s.streamed_thinking_seen = true ∧
      (reasoning_text value).toList <:+: s.emitted_thinking_text.toList) :
    teller s (.Done value) = ([], s) := by
  unfold teller tell
  dsimp only
  by_cases hempty : reasoning_text value = ""
  · rw [if_pos hempty]
    rfl
  · obtain ⟨hstreamed, hknown⟩ := h hempty
    rw [if_neg hempty, mark_final_known hstreamed hknown]
    rfl

/-- A text that is reported in full and is new. -/
theorem mark_final_new {text : String} {s : CodexToolUseState} {items : List ReasoningItem}
    (htold : Told items s) (hstreamed : Streamed items → New (told_text items) text)
    (hnot : ¬ Streamed items → text ∉ done_texts items) :
    mark_final text s = (some text, push_thinking text s) := by
  unfold mark_final
  by_cases hseen : s.streamed_thinking_seen = true
  · obtain ⟨hwithin, hprefix⟩ := hstreamed (htold.streamed.1 hseen)
    rw [← htold.text] at hwithin hprefix
    have hne : ¬ (s.emitted_thinking_text = text ∨
        Strings.contains text.toList s.emitted_thinking_text.toList = true) := by
      rintro (heq | hcontains)
      · rw [heq] at hwithin
        exact hwithin (List.infix_refl _)
      · exact hwithin (contains_iff.1 hcontains)
    have hafter : after_emitted s.emitted_thinking_text text = text := by
      unfold after_emitted
      rw [if_neg fun h => hprefix (List.isPrefixOf_iff_prefix.1 h)]
    rw [if_pos hseen, if_neg hne, hafter]
  · have hnew : text ∉ s.emitted_thinking := by
      have hquiet : ¬ Streamed items := fun h => hseen (htold.streamed.2 h)
      rw [htold.done hquiet]
      exact hnot hquiet
    rw [if_neg hseen, if_neg fun h => hnew (List.contains_iff_mem.1 h)]

namespace ReasoningItem

variable {item : ReasoningItem} {before : List ReasoningItem} {s : CodexToolUseState}

/-- An item with deltas: nothing more is told when it is done. -/
theorem streamed_told (hdeltas : item.deltas ≠ []) (htold : Told before s) :
    String.join (Parts.run teller s item.reports).1 = item.text ∧
      Told (before ++ [item]) (Parts.run teller s item.reports).2 := by
  obtain ⟨hout, htext, hstreamed, hnothing⟩ := deltas_told item.deltas s
  have hjoin : String.join item.deltas = item.text := item.consistent hdeltas
  have hsome : item.told = true := by
    unfold told
    simp [hdeltas]
  rw [hjoin] at hout htext
  -- the state after the deltas
  have hafter : Told (before ++ [item]) (Parts.run teller s (item.deltas.map .Delta)).2 := by
    refine ⟨?_, ?_, fun hnot => ?_⟩
    · rw [htext, htold.text, told_text_append_singleton, if_pos hsome]
    · rw [hstreamed, htold.streamed, streamed_append_singleton]
    · rw [streamed_append_singleton, not_or] at hnot
      have hall : ∀ delta ∈ item.deltas, delta = "" := fun delta hmem => by
        by_contra hne
        exact hnot.2 ⟨delta, hmem, hne⟩
      have hempty : item.text = "" := by
        rw [← hjoin]
        exact (join_eq_empty_iff _).2 hall
      rw [hnothing hall, htold.done hnot.1, done_texts_append_singleton,
        if_neg fun hboth => hboth.2 hempty, List.append_nil]
  unfold reports
  by_cases hdone : item.item_done = true
  · have hstep : teller (Parts.run teller s (item.deltas.map .Delta)).2 (.Done item.value) =
        ([], (Parts.run teller s (item.deltas.map .Delta)).2) := by
      apply done_known
      intro hempty
      constructor
      · -- a text that is not empty has a delta that is not
        rw [hafter.streamed, streamed_append_singleton]
        right
        by_contra hnone
        apply hempty
        rw [← item.consistent hdeltas, join_eq_empty_iff]
        intro delta hmem
        by_contra hne
        exact hnone ⟨delta, hmem, hne⟩
      · rw [htext, String.toList_append]
        exact (List.suffix_append _ _).isInfix
    rw [if_pos hdone, Parts.run_append, Parts.run, Parts.run, hstep]
    exact ⟨by rw [List.append_nil, List.append_nil, hout], hafter⟩
  · rw [if_neg hdone, List.append_nil]
    exact ⟨hout, hafter⟩

/-- An item without deltas is told when it is done. -/
theorem done_told (hdeltas : item.deltas = []) (hapart : Apart before item)
    (htold : Told before s) :
    String.join (Parts.run teller s item.reports).1 = (if item.told then item.text else "") ∧
      Told (before ++ [item]) (Parts.run teller s item.reports).2 := by
  have hreports : item.reports = if item.item_done then [.Done item.value] else [] := by
    unfold reports
    rw [hdeltas]
    rfl
  have hsame : item.told = item.item_done := by
    unfold told
    rw [hdeltas]
    rfl
  have hstreamed : Streamed (before ++ [item]) ↔ Streamed before := by
    rw [streamed_append_singleton, hdeltas]
    simp
  -- nothing is told, and nothing is kept
  have hquiet : ¬ (item.item_done = true ∧ item.text ≠ "") → Told (before ++ [item]) s := by
    intro hnot
    refine ⟨?_, ?_, fun h => ?_⟩
    · rw [htold.text, told_text_append_singleton, hsame]
      by_cases hdone : item.item_done = true
      · have hempty : item.text = "" := by
          by_contra hne
          exact hnot ⟨hdone, hne⟩
        rw [hempty, ite_self, String.append_empty]
      · rw [if_neg hdone, String.append_empty]
    · rw [htold.streamed, hstreamed]
    · rw [htold.done (fun hb => h (hstreamed.2 hb)), done_texts_append_singleton, if_neg hnot,
        List.append_nil]
  rw [hreports, hsame]
  by_cases hdone : item.item_done = true
  · rw [if_pos hdone, if_pos hdone]
    by_cases hempty : item.text = ""
    · rw [Parts.run, Parts.run, done_known fun hne => absurd hempty hne, hempty]
      exact ⟨rfl, hquiet fun hboth => hboth.2 hempty⟩
    · obtain ⟨hnew, hdifferent⟩ := hapart hdeltas hdone hempty
      have hnonempty : reasoning_text item.value ≠ "" := hempty
      have hmark := mark_final_new htold hnew hdifferent
      rw [run_teller, tell, if_neg hnonempty]
      change String.join (mark_final item.text s).1.toList = _ ∧
        Told (before ++ [item]) (mark_final item.text s).2
      rw [hmark]
      refine ⟨by simp, ?_, ?_, fun h => ?_⟩
      · change s.emitted_thinking_text ++ item.text = _
        rw [htold.text, told_text_append_singleton, hsame, if_pos hdone]
      · exact htold.streamed.trans hstreamed.symm
      · change s.emitted_thinking ++ [item.text] = _
        rw [htold.done (fun hb => h (hstreamed.2 hb)), done_texts_append_singleton,
          if_pos ⟨hdone, hempty⟩]
  · rw [if_neg hdone, if_neg hdone]
    exact ⟨rfl, hquiet fun hboth => hdone hboth.1⟩

/-- One item. -/
theorem reports_told (hapart : Apart before item) (htold : Told before s) :
    String.join (Parts.run teller s item.reports).1 = (if item.told then item.text else "") ∧
      Told (before ++ [item]) (Parts.run teller s item.reports).2 := by
  by_cases hdeltas : item.deltas = []
  · exact done_told hdeltas hapart htold
  · have hsome : item.told = true := by
      unfold told
      simp [hdeltas]
    rw [if_pos hsome]
    exact streamed_told hdeltas htold

end ReasoningItem

/-- **All items**, as far as they are reported before the end. -/
theorem items_told {items : List ReasoningItem}
    (h : ∀ before item after, items = before ++ item :: after → Apart before item) :
    String.join (Parts.run teller default (items.flatMap ReasoningItem.reports)).1 =
        told_text items ∧
      Told items (Parts.run teller default (items.flatMap ReasoningItem.reports)).2 := by
  induction items using List.reverseRecOn with
  | nil => exact ⟨rfl, told_nil⟩
  | append_singleton items item ih =>
      obtain ⟨hout, htold⟩ := ih fun before other after hsplit =>
        h before other (after ++ [item]) (by rw [hsplit, List.append_assoc, List.cons_append])
      obtain ⟨hitem, hafter⟩ := ReasoningItem.reports_told (h items item [] rfl) htold
      rw [List.flatMap_append, List.flatMap_singleton, Parts.run_append, String.join_append, hout,
        hitem, told_text_append_singleton]
      exact ⟨rfl, hafter⟩

/-! ## 5. The list at the end -/

section

variable {items : List ReasoningItem}

/-- What only the list says comes last. -/
theorem told_append_missing (h : items.Pairwise fun item later => later.told = true →
    later.text ≠ "" → item.told = true ∨ item.text = "") :
    String.join (items.map ReasoningItem.text) = told_text items ++ missing_text items := by
  unfold told_text missing_text
  induction items with
  | nil => rfl
  | cons item items ih =>
      obtain ⟨hlater, hrest⟩ := List.pairwise_cons.1 h
      rw [List.map_cons, String.join_cons, ih hrest]
      by_cases htold : item.told = true
      · rw [List.filter_cons_of_pos htold, List.filter_cons_of_neg (by simp [htold]),
          List.map_cons, String.join_cons, String.append_assoc]
      · rw [List.filter_cons_of_neg htold, List.filter_cons_of_pos (by simp [htold]),
          List.map_cons, String.join_cons]
        by_cases hempty : item.text = ""
        · rw [hempty, String.empty_append, String.empty_append]
        · -- nothing that is told comes later
          have hnone : String.join ((items.filter ReasoningItem.told).map ReasoningItem.text) =
              "" := by
            rw [join_eq_empty_iff]
            intro text hmem
            obtain ⟨later, hlater', rfl⟩ := List.mem_map.1 hmem
            obtain ⟨hin, htold'⟩ := List.mem_filter.1 hlater'
            by_contra hne
            exact (hlater later hin htold' hne).elim htold hempty
          rw [hnone, String.empty_append, String.empty_append]

/-- What is missing is listed. -/
theorem missing_empty (h : listed_text items = "") : missing_text items = "" := by
  unfold listed_text at h
  unfold missing_text
  rw [join_eq_empty_iff] at h ⊢
  intro text hmem
  obtain ⟨item, hitem, rfl⟩ := List.mem_map.1 hmem
  obtain ⟨hin, hmissing⟩ := List.mem_filter.1 hitem
  have htold : item.told = false := by simpa using hmissing
  unfold ReasoningItem.told at htold
  rw [Bool.or_eq_false_iff, Bool.not_eq_false', List.isEmpty_iff] at htold
  have hlisted : item.listed = true := by
    obtain hdeltas | hdone | hlisted := item.reported
    · exact absurd htold.1 hdeltas
    · rw [htold.2] at hdone
      cases hdone
    · exact hlisted
  exact h _ (List.mem_map_of_mem (List.mem_filter.2 ⟨hin, hlisted⟩))

/-- The list tells what is missing. -/
theorem list_tells (hapart : ToldApart items) {s : CodexToolUseState} (htold : Told items s)
    (hlisted : listed_text items ≠ "") :
    (mark_final (listed_text items) s).1.getD "" = missing_text items := by
  obtain ⟨hstreamed, hquiet⟩ := hapart.list hlisted
  by_cases hseen : Streamed items
  · have hflag := htold.streamed.2 hseen
    obtain ⟨hnone, hknown⟩ | ⟨hnot, hall⟩ | ⟨hnew, hmissing⟩ := hstreamed hseen
    · rw [mark_final_known hflag (by rw [htold.text]; exact hknown), hnone]
      rfl
    · -- what was told is cut off
      have hprefix : (told_text items).toList <+: (listed_text items).toList := by
        rw [hall, String.toList_append]
        exact List.prefix_append _ _
      have hne : ¬ (told_text items = listed_text items ∨
          Strings.contains (listed_text items).toList (told_text items).toList = true) := by
        rintro (heq | hcontains)
        · rw [heq] at hnot
          exact hnot (List.infix_refl _)
        · exact hnot (contains_iff.1 hcontains)
      unfold mark_final after_emitted
      rw [if_pos hflag, htold.text, if_neg hne, if_pos (List.isPrefixOf_iff_prefix.2 hprefix), hall,
        String.toList_append, List.drop_left, String.ofList_toList]
      rfl
    · rw [mark_final_new htold (fun _ => hnew) (fun h => absurd hseen h)]
      exact hmissing
  · obtain ⟨hnone, hknown⟩ | ⟨hnot, hmissing⟩ := hquiet hseen
    · have hflag : ¬ s.streamed_thinking_seen = true := fun h => hseen (htold.streamed.1 h)
      rw [← htold.done hseen] at hknown
      unfold mark_final
      rw [if_neg hflag, if_pos (List.contains_iff_mem.2 hknown), hnone]
      rfl
    · rw [mark_final_new htold (fun h => absurd h hseen) (fun _ => hnot)]
      exact hmissing

/-- The calls of the list say nothing of reasoning. -/
theorem emit_calls_tell {ending : Ending} (h : ∀ entry ∈ ending.listed, entry.2 < USIZE_MAX)
    (p : State) :
    (∀ c ∈ (Parts.run list_step p ending.listed).1, c.finish_reason = none) ∧
      (Parts.run list_step p ending.listed).1.filterMap StreamChunk.thinking = [] ∧
      thinking_entry (Parts.run list_step p ending.listed).2 = thinking_entry p := by
  refine ⟨fun c hc => ?_, ?_, ?_⟩
  · have hindex := list_index p ending.listed c hc
    cases c <;> first | rfl | exact absurd rfl hindex
  · rw [List.filterMap_eq_nil_iff]
    intro c hc
    have hindex := list_index p ending.listed c hc
    cases c <;> first | rfl | exact absurd rfl hindex
  · have hnone : ending.listed.filter (at_place USIZE_MAX) = [] := by
      apply List.filter_eq_nil_iff.2
      intro entry hentry hplace
      exact (h entry hentry).ne (at_place_iff.1 hplace).1
    unfold thinking_entry
    rw [list_entry, hnone, List.foldl_nil]

/-- What is told up to the end of the answer. -/
theorem told_before_done_append {a b : List StreamChunk} (h : ∀ c ∈ a, c.finish_reason = none) :
    told_before_done (a ++ b) =
      String.join (a.filterMap StreamChunk.thinking) ++ told_before_done b := by
  unfold told_before_done
  rw [List.takeWhile_append_of_pos fun c hc => by rw [h c hc]; rfl, List.filterMap_append,
    String.join_append]

theorem told_before_done_done (reason : FinishReason) (rest : List StreamChunk) :
    told_before_done (.Done reason :: rest) = "" := rfl

variable (order : DrainOrder ℕ CodexToolUseState) {calls : ℕ → Option Call} {events : List Event}
  {ending : Ending}

/-- The usage says nothing of reasoning. -/
theorem usage_not_done (usage : Option Usage) :
    ∀ c ∈ (usage.map StreamChunk.Usage).toList, c.finish_reason = none := by
  intro c hc
  obtain ⟨value, -, rfl⟩ := Option.map_eq_some_iff.1 (Option.mem_toList.1 hc)
  rfl

theorem usage_tells_nothing (usage : Option Usage) :
    (usage.map StreamChunk.Usage).toList.filterMap StreamChunk.thinking = [] := by
  cases usage <;> rfl

/-- The text of the reasoning that is listed. -/
theorem listed_reasoning {response : Response} (h : Reasons items events ending)
    (hcompleted : ending.completed = some (some response)) :
    extract_reasoning_text_from_response response =
      if listed_text items = "" then none else some (listed_text items) := by
  have hlisted : ending.listed.map Prod.fst = response.output.getD [] := by
    unfold Ending.listed
    rw [hcompleted, List.zipIdx_map_fst]
    rfl
  rw [extract_response_eq, ← hlisted, h.listed, List.map_map]
  rfl

/-- Without a list nothing is missing. -/
theorem nothing_listed (h : Reasons items events ending) (hnone : ending.listed = []) :
    missing_text items = "" := by
  apply missing_empty
  have hlisted := h.listed
  rw [hnone] at hlisted
  have hempty : items.filter ReasoningItem.listed = [] := by
    simpa using hlisted.symm
  unfold listed_text
  rw [hempty]
  rfl

/-- The whole answer tells what is missing, and nothing is read behind it. -/
theorem completed_tells {response : Response}
    (hbound : ∀ entry ∈ ending.listed, entry.2 < USIZE_MAX)
    (hreasons : Reasons items events ending) (hapart : ToldApart items) {p : State}
    (htold : Told items (thinking_entry p)) (hcompleted : ending.completed = some (some response))
    (rest : List StreamChunk) :
    told_before_done ((response_completed (some response) p).1 ++ rest) = missing_text items := by
  have hlist : emit_tool_calls_from_response response p =
      Parts.run list_step p ending.listed := by
    unfold emit_tool_calls_from_response Ending.listed
    rw [hcompleted]
    rfl
  have hchunks : (response_completed (some response) p).1 =
      (emit_tool_calls_from_response response p).1 ++
        (final_thinking (extract_reasoning_text_from_response response)
          (emit_tool_calls_from_response response p).2).1 ++
        (response.usage.map .Usage).toList ++
        [.Done (finish_reason (final_thinking (extract_reasoning_text_from_response response)
          (emit_tool_calls_from_response response p).2).2)] := rfl
  obtain ⟨hfinish, hcalls, hentry⟩ := emit_calls_tell hbound p
  rw [hchunks, hlist, listed_reasoning hreasons hcompleted]
  generalize (Parts.run list_step p ending.listed).2 = q at hentry
  obtain ⟨hthinking, -⟩ := final_thinking_tells (listed_text items) q
  have hquiet : Quiet q (final_thinking
      (if listed_text items = "" then none else some (listed_text items)) q) :=
    quiet_final_thinking _
  rw [List.append_assoc, List.append_assoc, List.append_assoc,
    told_before_done_append hfinish, hcalls,
    told_before_done_append fun c hc => (hquiet.chunks c hc).2, hthinking,
    told_before_done_append (usage_not_done response.usage), usage_tells_nothing,
    List.singleton_append, told_before_done_done, hentry]
  by_cases hempty : listed_text items = ""
  · rw [if_pos hempty, missing_empty hempty]
    rfl
  · rw [if_neg hempty, ← list_tells hapart htold hempty]
    cases (mark_final (listed_text items) (thinking_entry p)).1 <;> simp

/-- The end tells what is missing. -/
theorem ending_tells (hbound : ∀ entry ∈ ending.listed, entry.2 < USIZE_MAX)
    (hreasons : Reasons items events ending) (hapart : ToldApart items) {p : State}
    (htold : Told items (thinking_entry p)) :
    told_before_done (Parts.run (step order) p ending.lines).1 = missing_text items := by
  cases hcompleted : ending.completed with
  | none =>
      have hlines : ending.lines = if ending.marker then [.Marker] else [] := by
        unfold Ending.lines
        rw [hcompleted]
        rfl
      have hnone : ending.listed = [] := by
        unfold Ending.listed
        rw [hcompleted]
        rfl
      rw [nothing_listed hreasons hnone, hlines]
      split_ifs <;> rfl
  | some response =>
      have hlines : ending.lines =
          .Event ⟨"response.completed", none, none, response, none, none, none⟩ ::
            if ending.marker then [.Marker] else [] := by
        unfold Ending.lines
        rw [hcompleted]
        rfl
      rw [hlines, Parts.run, step_completed]
      cases response with
      | none =>
          have hnone : ending.listed = [] := by
            unfold Ending.listed
            rw [hcompleted]
            rfl
          rw [nothing_listed hreasons hnone]
          rfl
      | some response =>
          exact completed_tells hbound hreasons hapart htold hcompleted _

/-- **Reasoning is told exactly once** if the items are told apart, in every interleaving with the
other events and however the lines are divided. -/
theorem reasoning_told_once (order : DrainOrder ℕ CodexToolUseState)
    (from_str : Str → Option CodexSseEvent) (calls : ℕ → Option Call)
    (items : List ReasoningItem) (events : List Event) (ending : Ending) (texts : List String)
    (hstream : Streams calls events ending) (hreasons : Reasons items events ending)
    (hlines : Carries from_str texts (events.map Event.line ++ ending.lines))
    (hapart : ToldApart items) :
    ∃ chunks, parse_stream order from_str ∅ (texts.map String.toList) = .ok chunks ∧
      told_before_done chunks = String.join (items.map ReasoningItem.text) := by
  refine ⟨_, parse_stream_of_carries hlines (no_failure events ending) ∅, ?_⟩
  -- no event has the index of the thinking
  have hindex : ∀ e ∈ events, e.index ≠ some USIZE_MAX := by
    have hnone : events.filter (Event.at_index USIZE_MAX) = [] := by
      rw [hstream.interleaves, hstream.bounded]
      rfl
    intro e he heq
    exact List.filter_eq_nil_iff.1 hnone e he (decide_eq_true heq)
  obtain ⟨hchunks, hentry⟩ := body_tells order hindex ∅
  have hempty : thinking_entry ∅ = default := rfl
  rw [hempty, hreasons.reported] at hchunks hentry
  obtain ⟨htext, htold⟩ := items_told hapart.done
  rw [← hentry] at htold
  rw [Parts.run_append, Parts.run_map]
  change told_before_done ((Parts.run (event_step order) ∅ events).1 ++
    (Parts.run (step order) (Parts.run (event_step order) ∅ events).2 ending.lines).1) = _
  rw [told_before_done_append (body_not_done order events ∅), hchunks, htext,
    ending_tells order hstream.listed_bounded hreasons hapart htold,
    told_append_missing hapart.missing_last]

end

/-! ## 6. Two items, with and without a delta -/

def thought_json (id text : String) : String :=
  "\x7b\"type\":\"reasoning\",\"id\":\"" ++ id ++
    "\",\"summary\":[\x7b\"type\":\"summary_text\",\"text\":\"" ++ text ++ "\"\x7d]\x7d"

def thought_done (index item : String) : String :=
  "\x7b\"type\":\"response.output_item.done\",\"output_index\":" ++ index ++ ",\"item\":" ++ item ++
    "\x7d"

def thought_delta : String :=
  "\x7b\"type\":\"response.reasoning_summary_text.delta\",\"output_index\":0,\"item_id\":\"rs_0\"," ++
    "\"delta\":\"a\"\x7d"

def thought_done_0 : String := thought_done "0" (thought_json "rs_0" "a")

def thought_done_1 : String := thought_done "1" (thought_json "rs_1" "b")

def thought_completed : String :=
  sample_completed (thought_json "rs_0" "a" ++ "," ++ thought_json "rs_1" "b")

/-- What `serde_json` reads of the item. -/
def thought (id text : String) : OutputItem where
  item_type := some "reasoning"
  id := some id
  call_id := none
  name := none
  arguments := none
  text := none
  reasoning := none
  reasoning_content := none
  summary := some [some text]
  content := none

def delta_event_0 : CodexSseEvent :=
  ⟨"response.reasoning_summary_text.delta", some "a", none, none, none, some 0, some "rs_0"⟩

def done_event_of (index : ℕ) (id text : String) : CodexSseEvent :=
  ⟨"response.output_item.done", none, none, none, some (thought id text), some index, none⟩

theorem free_delta : Free delta_event_0 :=
  ⟨by decide, fun _ hitem => absurd hitem (Option.not_mem_none _)⟩

theorem free_done (index : ℕ) (id text : String) : Free (done_event_of index id text) := by
  constructor
  · change "response.output_item.done" ∉ call_kinds
    decide
  · intro item hitem
    rw [← Option.some.inj hitem]
    change some "reasoning" ≠ some "function_call"
    decide

/-- The items are done, and the first comes with a delta or not. -/
def thought_events (streamed : Bool) : List Event :=
  (if streamed then [.other delta_event_0 free_delta] else []) ++
    [.other (done_event_of 0 "rs_0" "a") (free_done 0 "rs_0" "a"),
      .other (done_event_of 1 "rs_1" "b") (free_done 1 "rs_1" "b")]

def thought_ending : Ending :=
  ⟨some (some ⟨some [thought "rs_0" "a", thought "rs_1" "b"], none, none⟩), false⟩

def thought_item (id text : String) (streamed : Bool) (h : reasoning_text (thought id text) = text) :
    ReasoningItem where
  value := thought id text
  reasoning := rfl
  deltas := if streamed then [text] else []
  consistent hne := by
    cases streamed with
    | true => simp [h]
    | false => exact absurd rfl hne
  item_done := true
  listed := true
  reported := .inr (.inl rfl)

def thought_items (streamed : Bool) : List ReasoningItem :=
  [thought_item "rs_0" "a" streamed (by decide), thought_item "rs_1" "b" false (by decide)]

def thought_from_str (data : Str) : Option CodexSseEvent :=
  if data = thought_delta.toList then some delta_event_0
  else if data = thought_done_0.toList then some (done_event_of 0 "rs_0" "a")
  else if data = thought_done_1.toList then some (done_event_of 1 "rs_1" "b")
  else if data = thought_completed.toList then
    some ⟨"response.completed", none, none, thought_ending.completed.bind id, none, none, none⟩
  else none

/-- One text for each line. -/
def thought_texts (streamed : Bool) : List String :=
  ((if streamed then [thought_delta] else []) ++
    [thought_done_0, thought_done_1, thought_completed]).map fun data => "data: " ++ data ++ "\n"

theorem thought_streams (streamed : Bool) :
    Streams (fun _ => none) (thought_events streamed) thought_ending where
  interleaves i := by
    cases streamed <;> rfl
  ids i j c d hc := by cases hc
  bounded := rfl
  listed entry hentry hcall := by
    have hthought : entry.1 = thought "rs_0" "a" ∨ entry.1 = thought "rs_1" "b" := by
      have hmem : entry.1 ∈ [thought "rs_0" "a", thought "rs_1" "b"] :=
        List.fst_mem_of_mem_zipIdx hentry
      simpa using hmem
    obtain heq | heq := hthought
    · rw [heq] at hcall
      exact absurd hcall (by decide)
    · rw [heq] at hcall
      exact absurd hcall (by decide)
  listed_bounded entry hentry := by
    have hlt := List.snd_lt_of_mem_zipIdx hentry
    have hmax : 2 < USIZE_MAX := by decide
    change entry.2 < 2 + 0 at hlt
    omega

theorem thought_reasons (streamed : Bool) :
    Reasons (thought_items streamed) (thought_events streamed) thought_ending where
  reported := by
    cases streamed <;> rfl
  listed := rfl

set_option maxRecDepth 10000 in
theorem thought_carries (streamed : Bool) :
    Carries thought_from_str (thought_texts streamed)
      ((thought_events streamed).map Event.line ++ thought_ending.lines) := by
  unfold Carries thought_texts thought_from_str thought_delta thought_done_0 thought_done_1
    thought_completed thought_done sample_completed thought_json
  cases streamed with
  | true =>
      simp only [↓reduceIte, List.map_cons, List.map_nil, List.flatMap_cons, List.flatMap_nil,
        String.toList_append, String.reduceToList, List.cons_append, List.nil_append]
      decide +kernel
  | false =>
      simp only [Bool.false_eq_true, ↓reduceIte, List.map_cons, List.map_nil, List.flatMap_cons,
        List.flatMap_nil, String.toList_append, String.reduceToList, List.cons_append,
        List.nil_append]
      decide +kernel

theorem thought_streamed : Streamed [thought_item "rs_0" "a" true (by decide)] :=
  ⟨_, List.mem_cons_self, "a", List.mem_cons_self, by decide⟩

/-- After a delta the items are told apart. -/
theorem thought_apart : ToldApart (thought_items true) where
  done before item after hsplit hdeltas _ _ := by
    rcases before with _ | ⟨first, _ | ⟨second, before⟩⟩
    · -- the first item has a delta
      obtain ⟨rfl, -⟩ := List.cons.inj hsplit
      cases hdeltas
    · obtain ⟨rfl, hrest⟩ := List.cons.inj hsplit
      obtain ⟨rfl, -⟩ := List.cons.inj hrest
      refine ⟨fun _ => ?_, fun hquiet => absurd thought_streamed hquiet⟩
      unfold New
      decide +kernel
    · have hlength := congrArg List.length hsplit
      simp [thought_items] at hlength
  missing_last := by
    simp [thought_items, thought_item, ReasoningItem.told]
  list _ := by
    refine ⟨fun _ => .inl ?_, fun hquiet => absurd ?_ hquiet⟩
    · decide +kernel
    · obtain ⟨item, hitem, hdelta⟩ := thought_streamed
      exact ⟨item, List.mem_append_left [thought_item "rs_1" "b" false (by decide)] hitem, hdelta⟩

theorem reasoning_told_sample :
    ∃ chunks, parse_stream falling thought_from_str ∅ ((thought_texts true).map String.toList) =
        .ok chunks ∧
      told_before_done chunks =
        String.join ((thought_items true).map ReasoningItem.text) := by
  exact reasoning_told_once falling thought_from_str (fun _ => none) (thought_items true)
    (thought_events true) thought_ending (thought_texts true) (thought_streams true)
    (thought_reasons true) (thought_carries true) thought_apart

/-- Without a delta the list is not known, and what it says is told once more. -/
theorem listed_reasoning_told_twice :
    Streams (fun _ => none) (thought_events false) thought_ending ∧
      Reasons (thought_items false) (thought_events false) thought_ending ∧
      Carries thought_from_str (thought_texts false)
        ((thought_events false).map Event.line ++ thought_ending.lines) ∧
      ¬ ∃ chunks, parse_stream falling thought_from_str ∅
          ((thought_texts false).map String.toList) = .ok chunks ∧
        told_before_done chunks =
          String.join ((thought_items false).map ReasoningItem.text) := by
  refine ⟨thought_streams false, thought_reasons false, thought_carries false, ?_⟩
  rintro ⟨chunks, hparse, htold⟩
  rw [parse_stream_of_carries (thought_carries false) (no_failure _ _), Except.ok.injEq] at hparse
  rw [← hparse] at htold
  exact absurd htold (by decide +kernel)

end Querymt.Codex
