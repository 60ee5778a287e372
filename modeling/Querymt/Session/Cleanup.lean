/-
`Session/Cleanup.lean` -- a new prompt after undos.

Mirrors `cleanup_revert_on_prompt` (`agent/undo.rs`). Its comment gives the purpose: it
"deletes messages and event journal entries that belong to the undone turns so they do
not reappear after a page reload". An undo only pushes a revert state; with several of
them on the stack the undone turns are those from the earliest target on, in the order
in which the history is read.

The code takes one frontier, the target of the newest revert state. It deletes the
messages whose rows come at or after the frontier's, and the events from the first
`prompt_received` that names the frontier, looking at 10 000 events. So three orders
have to agree: of the stack, of the rows and of the journal
(`cleanup_erases_iff`). They do not when the newest target is a later message than an
older one (`undone_turn_reappears`).
-/
import Querymt.Session.Undo

set_option autoImplicit false

namespace Querymt.Session

open Querymt.Agent (ChatRole MessagePart AgentMessage)
open Tables

/-! ## 1. The code -/

/-- The first `prompt_received` that names the message, among the events that are loaded. -/
def Db.frontier_seq (db : Db) (session_id message_id : String) : Option ℕ :=
  (db.load_session_stream session_id).findSome? fun e =>
    match e.kind with
    | .PromptReceived _ (some mid) => if mid = message_id then some e.stream_seq else none
    | _ => none

/-- `cleanup_revert_on_prompt`. -/
def cleanup_revert_on_prompt (session_id : String) (db : Db) : Except UndoError Unit × Db :=
  match db.peek_revert_state session_id with
  | .error e => (.error (.Store ("Failed to get revert state: " ++ e.to_string)), db)
  | .ok none => (.ok (), db)
  | .ok (some revert_state) =>
      match db.delete_messages_after session_id revert_state.message_id with
      | .error e => (.error (.Store ("Failed to delete messages: " ++ e.to_string)), db)
      | .ok (db, _) =>
          let db :=
            match db.frontier_seq session_id revert_state.message_id with
            | some seq => db.delete_session_events_from session_id seq
            | none => db
          match db.clear_revert_states session_id with
          | .error e => (.error (.Store ("Failed to clear revert state: " ++ e.to_string)), db)
          | .ok db => (.ok (), db)

/-! ## 2. The law -/

namespace Db

variable (db : Db) (session_id : String) (session_internal_id : ℕ)

/-- The messages that undos went back to. -/
def targets : List String := (db.revert_stack session_internal_id).map RevertState.message_id

def not_target (r : ℕ × MessageRow) : Bool :=
  decide (r.2.public_id ∉ db.targets session_internal_id)

/-- The ids of the messages before the earliest target. -/
def surviving : List String :=
  ((db.history_rows session_internal_id).takeWhile (db.not_target session_internal_id)).map
    fun r => r.2.public_id

/-- The ids of the earliest target and the messages after it. -/
def undone : List String :=
  ((db.history_rows session_internal_id).dropWhile (db.not_target session_internal_id)).map
    fun r => r.2.public_id

/-- Events with the prompt of their turn: the last `prompt_received` so far. -/
def by_turn : Option String → List EventRow → List (EventRow × Option String)
  | _, [] => []
  | turn, e :: rest =>
      let turn :=
        match e.kind with
        | .PromptReceived _ message_id => message_id
        | _ => turn
      (e, turn) :: by_turn turn rest

/-- The events of a session with the prompts of their turns. -/
def events_by_turn : List (EventRow × Option String) :=
  by_turn none (db.event_journal.filter fun e => decide (e.session_id = session_id))

end Db

/-- A message without its link to a parent, which may have been deleted. -/
def body (m : AgentMessage) : AgentMessage := { m with parent_message_id := none }

/-- The undone turns are gone, and nothing else is. -/
structure Erased (session_id : String) (session_internal_id : ℕ) (db db' : Db) : Prop where
  messages : ∃ history history', db.get_history session_id = .ok history ∧
    db'.get_history session_id = .ok history' ∧
    history'.map body
      = (history.takeWhile fun m => decide (m.id ∉ db.targets session_internal_id)).map body
  undone_events : ∀ e mid, (e, some mid) ∈ db.events_by_turn session_id →
    mid ∈ db.undone session_internal_id → e ∉ db'.event_journal
  surviving_events : ∀ e mid, (e, some mid) ∈ db.events_by_turn session_id →
    mid ∈ db.surviving session_internal_id → e ∈ db'.event_journal
  stack : db'.revert_stack session_internal_id = []

namespace Db

variable (db : Db) (session_id : String) (session_internal_id : ℕ)

/-- A message has its row before that of the newest target exactly when it comes before the
earliest target. -/
def RowsAgree : Prop :=
  ∀ newest ∈ (db.targets session_internal_id).getLast?,
    ∀ frontier ∈ (db.resolve_message_internal_id newest).toOption,
      ∀ r ∈ db.history_rows session_internal_id,
        r.1 < frontier ↔ r.2.public_id ∈ db.surviving session_internal_id

/-- The events of undone turns come at or after the first `prompt_received`, of the first
10 000 events, that names the newest target, and those of surviving turns before it. -/
def EventsAgree : Prop :=
  ∀ newest ∈ (db.targets session_internal_id).getLast?,
    ∀ et ∈ db.events_by_turn session_id, ∀ mid ∈ et.2,
      (mid ∈ db.undone session_internal_id →
        ∃ cut ∈ db.frontier_seq session_id newest, cut ≤ et.1.stream_seq) ∧
      (mid ∈ db.surviving session_internal_id →
        ∀ cut ∈ db.frontier_seq session_id newest, et.1.stream_seq < cut)

end Db

/-! ## 3. What the code does -/

section Cleanup

variable {db : Db} {session_id : String} {sid : ℕ} {state : RevertState} {frontier : ℕ}

/-- The messages that the deletion from a row on keeps. -/
def keeps (sid frontier : ℕ) (r : ℕ × MessageRow) : Bool :=
  !(decide (r.2.session_id = sid) && decide (frontier ≤ r.1))

/-- A cleanup with a frontier deletes from its row and from its prompt on, and clears the
stack. -/
theorem cleanup_ok (hsid : db.resolve_session_internal_id session_id = .ok sid)
    (hnewest : (db.revert_stack sid).getLast? = some state)
    (hfrontier : db.resolve_message_internal_id state.message_id = .ok frontier) :
    ∃ db', cleanup_revert_on_prompt session_id db = (.ok (), db') ∧
      db'.sessions = db.sessions ∧
      db'.messages = (db.keep_messages (keeps sid frontier)).messages ∧
      (∀ e, e ∈ db'.event_journal ↔ e ∈ db.event_journal ∧
        ¬ (e.session_id = session_id ∧
          ∃ cut ∈ db.frontier_seq session_id state.message_id, cut ≤ e.stream_seq)) ∧
      db'.revert_stack sid = [] := by
  have hpeek : db.peek_revert_state session_id = .ok (some state) := by
    unfold Db.peek_revert_state
    rw [hsid, ← hnewest]
  have hdelete : db.delete_messages_after session_id state.message_id
      = .ok (db.keep_messages (keeps sid frontier),
          (db.messages.rows.filter fun r => !keeps sid frontier r).length) := by
    unfold Db.delete_messages_after
    simp only [hsid, hfrontier, keeps, Bool.not_not]
    rfl
  have hseq : (db.keep_messages (keeps sid frontier)).frontier_seq session_id state.message_id
      = db.frontier_seq session_id state.message_id := rfl
  -- clearing leaves no revert state of the session, whatever the events
  have hclear : ∀ db₁ : Db, db₁.resolve_session_internal_id session_id = .ok sid →
      ∃ db', db₁.clear_revert_states session_id = .ok db' ∧ db'.sessions = db₁.sessions ∧
        db'.messages = db₁.messages ∧ db'.event_journal = db₁.event_journal ∧
        db'.revert_stack sid = [] := by
    intro db₁ hsid₁
    unfold Db.clear_revert_states
    rw [hsid₁]
    refine ⟨_, rfl, rfl, rfl, rfl, ?_⟩
    unfold Db.revert_stack
    rw [List.map_eq_nil_iff, List.filter_eq_nil_iff]
    intro r hr
    have hother := List.of_mem_filter hr
    rw [decide_eq_true_eq] at hother ⊢
    exact hother
  unfold cleanup_revert_on_prompt
  simp only [hpeek, hdelete, hseq]
  cases hcut : db.frontier_seq session_id state.message_id with
  | none =>
      obtain ⟨db', hclear', hsessions, hmessages, hevents, hstack⟩ :=
        hclear (db.keep_messages (keeps sid frontier)) hsid
      simp only [hclear']
      refine ⟨db', rfl, hsessions, hmessages, ?_, hstack⟩
      intro e
      rw [hevents]
      simp [Db.keep_messages]
  | some seq =>
      obtain ⟨db', hclear', hsessions, hmessages, hevents, hstack⟩ :=
        hclear ((db.keep_messages (keeps sid frontier)).delete_session_events_from session_id seq)
          hsid
      simp only [hclear']
      refine ⟨db', rfl, hsessions, hmessages, ?_, hstack⟩
      intro e
      rw [hevents]
      simp [Db.delete_session_events_from, Db.keep_events, Db.keep_messages, imp_iff_not_or]

/-! ## 4. The messages -/

/-- A row as a message, without the parent. -/
def row_body (session_id : String) (r : ℕ × MessageRow) : AgentMessage :=
  body (Db.to_message session_id [] r)

/-- The rows of a session after a deletion, in the order of the history. -/
theorem history_rows_keep (p : ℕ × MessageRow → Bool) :
    (db.keep_messages p).history_rows sid
      = ((db.history_rows sid).filter p).map
          fun r => (r.1, Db.unlink (db.messages.filter p) r.2) := by
  have hunlinked : (db.keep_messages p).session_rows sid
      = ((db.session_rows sid).filter p).map
          fun r => (r.1, Db.unlink (db.messages.filter p) r.2) := by
    unfold Db.session_rows Db.keep_messages
    rw [Table.rows_map, Table.rows_filter, List.filter_map, List.filter_comm]
    rfl
  unfold Db.history_rows Db.by_created_at
  rw [hunlinked, filter_insertionSort]
  symm
  apply List.map_insertionSort
  intro a _ b _
  rfl

/-- The messages of the surviving turns are what the history keeps, exactly when the row
order tells them apart. -/
theorem messages_erased_iff {db' : Db}
    (hsid : db.resolve_session_internal_id session_id = .ok sid)
    (hsessions : db'.sessions = db.sessions)
    (hmessages : db'.messages = (db.keep_messages (keeps sid frontier)).messages) :
    (∃ history history', db.get_history session_id = .ok history ∧
      db'.get_history session_id = .ok history' ∧
      history'.map body
        = (history.takeWhile fun m => decide (m.id ∉ db.targets sid)).map body) ↔
    ∀ r ∈ db.history_rows sid, r.1 < frontier ↔ r.2.public_id ∈ db.surviving sid := by
  have hsid' : db'.resolve_session_internal_id session_id = .ok sid := by
    unfold Db.resolve_session_internal_id
    rw [hsessions]
    exact hsid
  have hrows' : db'.history_rows sid = (db.keep_messages (keeps sid frontier)).history_rows sid := by
    unfold Db.history_rows Db.session_rows
    rw [hmessages]
  -- both sides as rows
  have hleft : ((db'.history_rows sid).map
        (Db.to_message session_id (db'.session_rows sid))).map body
      = ((db.history_rows sid).filter (keeps sid frontier)).map (row_body session_id) := by
    rw [hrows', history_rows_keep, List.map_map, List.map_map]
    rfl
  have hright : (((db.history_rows sid).map
        (Db.to_message session_id (db.session_rows sid))).takeWhile
          fun m => decide (m.id ∉ db.targets sid)).map body
      = ((db.history_rows sid).takeWhile (db.not_target sid)).map (row_body session_id) := by
    rw [List.takeWhile_map, List.map_map]
    rfl
  have hrow : ∀ r ∈ db.history_rows sid, r ∈ db.messages.rows := fun r hr =>
    (mem_history_rows.1 hr).1
  have hpre : ∀ r ∈ (db.history_rows sid).takeWhile (db.not_target sid),
      r ∈ db.history_rows sid := fun r hr => (List.takeWhile_sublist _).subset hr
  have hmap : ((db.history_rows sid).filter (keeps sid frontier)).map (row_body session_id)
        = ((db.history_rows sid).takeWhile (db.not_target sid)).map (row_body session_id)
      ↔ (db.history_rows sid).filter (keeps sid frontier)
        = (db.history_rows sid).takeWhile (db.not_target sid) := by
    refine ⟨map_inj_of_column ?_, fun h => by rw [h]⟩
    intro r hr r' hr' heq
    exact row_of_public_id (hrow r (List.mem_of_mem_filter hr)) (hrow r' (hpre r' hr'))
      (congrArg AgentMessage.id heq)
  have hlaw : (∃ history history', db.get_history session_id = .ok history ∧
      db'.get_history session_id = .ok history' ∧
      history'.map body
        = (history.takeWhile fun m => decide (m.id ∉ db.targets sid)).map body) ↔
      (db.history_rows sid).filter (keeps sid frontier)
        = (db.history_rows sid).takeWhile (db.not_target sid) := by
    rw [get_history_eq hsid, get_history_eq hsid', ← hmap, ← hleft, ← hright]
    constructor
    · rintro ⟨history, history', hh, hh', heq⟩
      cases hh
      cases hh'
      exact heq
    · exact fun heq => ⟨_, _, rfl, rfl, heq⟩
  rw [hlaw, filter_eq_takeWhile_iff (history_rows_nodup db sid)]
  refine forall₂_congr fun r hr => ?_
  have hsession := (mem_history_rows.1 hr).2
  have hkeeps : keeps sid frontier r = true ↔ r.1 < frontier := by
    unfold keeps
    simp [hsession]
  have hmem : r ∈ (db.history_rows sid).takeWhile (db.not_target sid)
      ↔ r.2.public_id ∈ db.surviving sid := by
    unfold Db.surviving
    rw [List.mem_map]
    constructor
    · exact fun h => ⟨r, h, rfl⟩
    · rintro ⟨r', hr', heq⟩
      rw [← row_of_public_id (hrow r' (hpre r' hr')) (hrow r hr) heq]
      exact hr'
  rw [hkeeps, hmem]

/-! ## 5. The law and the code -/

theorem by_turn_mem {turn : Option String} {events : List EventRow} {et : EventRow × Option String}
    (h : et ∈ Db.by_turn turn events) : et.1 ∈ events := by
  induction events generalizing turn with
  | nil => cases h
  | cons e rest ih =>
      rcases List.mem_cons.1 h with rfl | h
      · exact List.mem_cons_self
      · exact List.mem_cons_of_mem e (ih h)

/-- The targets of the stack are messages of the session, as an undo has checked. -/
def Db.TargetsStored (db : Db) (sid : ℕ) : Prop :=
  ∀ mid ∈ db.targets sid, ∃ r ∈ db.history_rows sid, r.2.public_id = mid

/-- **When a new prompt erases exactly the undone turns.** -/
theorem cleanup_erases_iff (db : Db) (session_id : String) (sid : ℕ)
    (hsid : db.resolve_session_internal_id session_id = .ok sid)
    (hstack : db.revert_stack sid ≠ []) (hstored : db.TargetsStored sid) :
    (cleanup_revert_on_prompt session_id db).1 = .ok () ∧
    (Erased session_id sid db (cleanup_revert_on_prompt session_id db).2
      ↔ db.RowsAgree sid ∧ db.EventsAgree session_id sid) := by
  obtain ⟨state, hnewest⟩ : ∃ state, (db.revert_stack sid).getLast? = some state :=
    ⟨_, List.getLast?_eq_some_getLast hstack⟩
  have htarget : (db.targets sid).getLast? = some state.message_id := by
    unfold Db.targets
    rw [List.getLast?_map, hnewest]
    rfl
  obtain ⟨row, hrow, hid⟩ := hstored state.message_id (List.mem_of_getLast? htarget)
  have hfrontier : db.resolve_message_internal_id state.message_id = .ok row.1 := by
    rw [← hid]
    exact resolve_message_of_row (mem_history_rows.1 hrow).1
  obtain ⟨db', hcleanup, hsessions, hmessages, hevents, hempty⟩ :=
    cleanup_ok hsid hnewest hfrontier
  have hrows := messages_erased_iff hsid hsessions hmessages
  have hagree : db.RowsAgree sid ↔
      ∀ r ∈ db.history_rows sid, r.1 < row.1 ↔ r.2.public_id ∈ db.surviving sid := by
    unfold Db.RowsAgree
    rw [htarget]
    simp [hfrontier, Except.toOption]
  -- what is left of the journal, event by event
  have hleft : ∀ et ∈ db.events_by_turn session_id, et.1 ∈ db'.event_journal ↔
      ¬ ∃ cut ∈ db.frontier_seq session_id state.message_id, cut ≤ et.1.stream_seq := by
    intro et het
    have hmem := List.mem_filter.1 (by_turn_mem het)
    rw [decide_eq_true_eq] at hmem
    rw [hevents]
    exact ⟨fun h hcut => h.2 ⟨hmem.2, hcut⟩, fun h => ⟨hmem.1, fun hcut => h hcut.2⟩⟩
  rw [hcleanup]
  refine ⟨rfl, ?_⟩
  rw [hagree, ← hrows]
  constructor
  · intro herased
    refine ⟨herased.messages, ?_⟩
    rintro newest hnew ⟨e, turn⟩ het mid hmid
    rw [htarget, Option.mem_some_iff] at hnew
    rw [Option.mem_def] at hmid
    subst hnew hmid
    constructor
    · intro hundone
      by_contra hno
      exact herased.undone_events e mid het hundone ((hleft _ het).2 hno)
    · intro hsurvives cut hcut
      have hin := (hleft _ het).1 (herased.surviving_events e mid het hsurvives)
      by_contra hlt
      exact hin ⟨cut, hcut, not_lt.1 hlt⟩
  · rintro ⟨hmsgs, hjournal⟩
    have hjournal' := hjournal state.message_id htarget
    refine ⟨hmsgs, ?_, ?_, hempty⟩
    · intro e mid het hundone hin
      exact (hleft _ het).1 hin ((hjournal' _ het mid rfl).1 hundone)
    · intro e mid het hsurvives
      refine (hleft _ het).2 ?_
      rintro ⟨cut, hcut, hle⟩
      exact absurd ((hjournal' _ het mid rfl).2 hsurvives cut hcut) (not_lt.2 hle)

end Cleanup

/-! A session of three turns, with two undos. -/

def three_turns_db (older newer : String) : Db where
  sessions := ⟨[(1, ⟨"s", none, "1"⟩)], by decide⟩
  messages := ⟨[
    (1, message_row "m1" 1 .User 0 [.Text "one"]), (2, message_row "a1" 1 .Assistant 1 [.Text "1"]),
    (3, message_row "m2" 1 .User 2 [.Text "two"]), (4, message_row "a2" 1 .Assistant 3 [.Text "2"]),
    (5, message_row "m3" 1 .User 4 [.Text "three"]),
    (6, message_row "a3" 1 .Assistant 5 [.Text "3"])], by decide⟩
  revert_states := ⟨[(1, ⟨1, ⟨"u1", older, "w1"⟩⟩), (2, ⟨1, ⟨"u2", newer, "w2"⟩⟩)], by simp⟩
  event_journal := [
    ⟨1, "s", 0, .PromptReceived "one" (some "m1")⟩,
    ⟨2, "s", 1, .AssistantMessageStored "1" none (some "a1")⟩,
    ⟨3, "s", 2, .PromptReceived "two" (some "m2")⟩,
    ⟨4, "s", 3, .AssistantMessageStored "2" none (some "a2")⟩,
    ⟨5, "s", 4, .PromptReceived "three" (some "m3")⟩,
    ⟨6, "s", 5, .AssistantMessageStored "3" none (some "a3")⟩]
  next_seq := 7
  session_ids := by decide
  message_ids := by decide
  message_sessions := by decide
  seq_sorted := by decide
  seq_fresh := by decide

/-- Back to "m3", then back to "m2": a new prompt leaves the first turn. -/
theorem two_undone_turns_erased :
    (three_turns_db "m3" "m2").surviving 1 = ["m1", "a1"] ∧
    Erased "s" 1 (three_turns_db "m3" "m2")
      (cleanup_revert_on_prompt "s" (three_turns_db "m3" "m2")).2 := by
  refine ⟨rfl, (cleanup_erases_iff (three_turns_db "m3" "m2") "s" 1 rfl (by decide) ?_).2.2 ⟨?_, ?_⟩⟩
  · unfold Db.TargetsStored
    decide
  · unfold Db.RowsAgree
    decide
  · unfold Db.EventsAgree
    decide

/-- Back to "m2", then to "m3": the turn of "m2" was undone, and a new prompt leaves its
messages and its events. -/
theorem undone_turn_reappears :
    (three_turns_db "m2" "m3").surviving 1 = ["m1", "a1"] ∧
    ((cleanup_revert_on_prompt "s" (three_turns_db "m2" "m3")).2.history_rows 1).map
      (fun r => r.2.public_id) = ["m1", "a1", "m2", "a2"] ∧
    ⟨3, "s", 2, .PromptReceived "two" (some "m2")⟩ ∈
      (cleanup_revert_on_prompt "s" (three_turns_db "m2" "m3")).2.event_journal ∧
    ¬ Erased "s" 1 (three_turns_db "m2" "m3")
      (cleanup_revert_on_prompt "s" (three_turns_db "m2" "m3")).2 := by
  have hevent : (⟨3, "s", 2, .PromptReceived "two" (some "m2")⟩ : EventRow) ∈
      (cleanup_revert_on_prompt "s" (three_turns_db "m2" "m3")).2.event_journal := by decide
  refine ⟨rfl, rfl, hevent, ?_⟩
  intro herased
  exact herased.undone_events _ "m2" (by decide) (by decide) hevent

end Querymt.Session
