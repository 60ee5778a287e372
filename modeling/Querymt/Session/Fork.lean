/-
`Session/Fork.lean` -- forks of a session at a message.

Mirrors `fork_session` (`session_store.rs`). A fork is to be a session of its own with
the history of its source up to the target: the same messages in the same order, and
events that speak of its own messages, so that undo and another fork work on them.

The code copies the source's rows in the order of their ids up to the target's row,
gives the copies new public ids, and copies the conversation's events as they are. So

* the copies are the prefix of the history exactly when the target stands in the rows
  where its time puts it (`copies_are_prefix_iff`), since the history is read by time;
* an event that was copied names a message of the source and never one of the fork;
* a target of another session is not noticed: all of the source is copied.

`fork_lawful_iff` puts the three together.
-/
import Querymt.Session.Store

set_option autoImplicit false

namespace Querymt.Session

open Querymt.Agent (ChatRole MessagePart AgentMessage)
open Tables

/-! ## 1. The code -/

/-- The new uuids of a fork: of the session, and of its messages by their number. -/
structure ForkIds where
  session : String
  message : ℕ → String

/-- A row as it is copied. -/
def copied (public_id : String) (new_sid : ℕ) (row : MessageRow) : MessageRow :=
  { row with public_id := public_id, session_id := new_sid, parent_message_id := none }

/-- Copy messages and their parts; `k` numbers them. -/
def copy_messages (ids : ForkIds) (new_sid : ℕ) :
    ℕ → List (ℕ × MessageRow) → Db → Except SessionError Db
  | _, [], db => .ok db
  | k, r :: rest, db =>
      match db.insert_message (copied (ids.message k) new_sid r.2) with
      | .error e => .error e
      | .ok db => copy_messages ids new_sid (k + 1) rest db

/-- Copy events into the new session, as they are. -/
def copy_events (session_id : String) : List EventRow → Db → Db
  | [], db => db
  | e :: rest, db => copy_events session_id rest (db.insert_event session_id e.timestamp e.kind)

/-- The event is one of the conversation and names one of the messages. -/
def names_one_of (ids : List String) (e : EventRow) : Bool :=
  (e.kind.message_id.map fun mid => decide (mid ∈ ids)).getD false

/-- `fork_session`. `now` is the time of the new session. -/
def fork_session (ids : ForkIds) (now : String) (source_session_id target_message_id : String)
    (db : Db) : Except SessionError (String × Db) :=
  match db.resolve_session_internal_id source_session_id with
  | .error e => .error e
  | .ok source_sid =>
      match db.resolve_message_internal_id target_message_id with
      | .error e => .error e
      | .ok target_row =>
          match db.insert_session ⟨ids.session, some source_sid, now⟩ with
          | .error e => .error e
          | .ok forked =>
              let new_sid := db.sessions.next_key
              let messages_to_copy := up_to target_row (db.session_rows source_sid)
              let copied_message_ids := messages_to_copy.map fun r => r.2.public_id
              let events_to_copy := (db.event_journal.filter fun e =>
                decide (e.session_id = source_session_id)).filter (names_one_of copied_message_ids)
              match copy_messages ids new_sid 0 messages_to_copy forked with
              | .error e => .error e
              | .ok forked => .ok (ids.session, copy_events ids.session events_to_copy forked)

/-! ## 2. The law -/

/-- What a fork is to keep of a message. -/
structure MessageContent where
  role : ChatRole
  parts : List MessagePart
  created_at : ℤ
  source_provider : Option String
  source_model : Option String

def content (m : AgentMessage) : MessageContent :=
  ⟨m.role, m.parts, m.created_at, m.source_provider, m.source_model⟩

/-- A fork is a copy of the source up to the target that stands on its own, and leaves the
source as it is. -/
structure SelfContained (source_session_id target_message_id : String) (db : Db)
    (fork : String) (db' : Db) : Prop where
  history : ∃ history copy, db.get_history source_session_id = .ok history ∧
    db'.get_history fork = .ok copy ∧
    copy.map content
      = (through (fun m => decide (m.id = target_message_id)) history).map content
  events : ∀ copy, db'.get_history fork = .ok copy →
    ∀ e ∈ db'.event_journal, e.session_id = fork → ∀ mid ∈ e.kind.message_id,
      mid ∈ copy.map AgentMessage.id
  source_messages :
    db'.get_history source_session_id = db.get_history source_session_id
  source_events : db'.event_journal.filter (fun e => decide (e.session_id = source_session_id))
    = db.event_journal.filter fun e => decide (e.session_id = source_session_id)

/-- A target of the session gives a self-contained fork, any other is rejected. -/
def ForkLawful (ids : ForkIds) (now : String) (source_session_id target_message_id : String)
    (sid : ℕ) (db : Db) : Prop :=
  if target_message_id ∈ (db.session_rows sid).map fun r => r.2.public_id then
    ∃ fork db', fork_session ids now source_session_id target_message_id db = .ok (fork, db') ∧
      SelfContained source_session_id target_message_id db fork db'
  else
    ∃ e, fork_session ids now source_session_id target_message_id db = .error e

/-- The target's row stands among the rows of the session where its time puts it. -/
def InTimeOrder (db : Db) (sid : ℕ) (t : ℕ × MessageRow) : Prop :=
  ∀ r ∈ db.session_rows sid,
    (r.1 ≤ t.1 → r.2.created_at ≤ t.2.created_at) ∧
    (t.1 ≤ r.1 → t.2.created_at ≤ r.2.created_at)

/-- No event of the conversation names a message up to the target's row. -/
def NoEventNames (db : Db) (source_session_id : String) (sid : ℕ) (t : ℕ × MessageRow) : Prop :=
  ∀ e ∈ db.event_journal, e.session_id = source_session_id → ∀ mid ∈ e.kind.message_id,
    ∀ r ∈ db.session_rows sid, r.1 ≤ t.1 → r.2.public_id ≠ mid

/-- Uuids are new. -/
structure ForkIds.Fresh (ids : ForkIds) (db : Db) : Prop where
  session : ids.session ∉ db.sessions.rows.map fun r => r.2.public_id
  events : ∀ e ∈ db.event_journal, e.session_id ≠ ids.session
  messages : ∀ k, ids.message k ∉ db.messages.rows.map fun r => r.2.public_id
  distinct : ∀ k k', ids.message k = ids.message k' → k = k'

/-! ## 3. What the code writes -/

section Writes

variable {db : Db} {ids : ForkIds} {new_sid : ℕ}

/-- The rows that the copies get, from a first key on. -/
def copies (ids : ForkIds) (new_sid : ℕ) :
    ℕ → ℕ → List (ℕ × MessageRow) → List (ℕ × MessageRow)
  | _, _, [] => []
  | k, key, r :: rest =>
      (key, copied (ids.message k) new_sid r.2) :: copies ids new_sid (k + 1) (key + 1) rest

theorem copies_session {k key : ℕ} {rows : List (ℕ × MessageRow)} {r : ℕ × MessageRow}
    (hr : r ∈ copies ids new_sid k key rows) : r.2.session_id = new_sid := by
  induction rows generalizing k key with
  | nil => cases hr
  | cons r' rest ih =>
      rcases List.mem_cons.1 hr with rfl | hr
      · rfl
      · exact ih hr

theorem copies_public_id {k key : ℕ} {rows : List (ℕ × MessageRow)} {r : ℕ × MessageRow}
    (hr : r ∈ copies ids new_sid k key rows) : ∃ j, r.2.public_id = ids.message j := by
  induction rows generalizing k key with
  | nil => cases hr
  | cons r' rest ih =>
      rcases List.mem_cons.1 hr with rfl | hr
      · exact ⟨k, rfl⟩
      · exact ih hr

theorem insert_message_ok (row : MessageRow)
    (hnew : row.public_id ∉ db.messages.rows.map fun r => r.2.public_id)
    (hsession : row.session_id ∈ db.sessions.rows.map Prod.fst) :
    ∃ db', db.insert_message row = .ok db' ∧ db'.messages = db.messages.insert row ∧
      db'.sessions = db.sessions ∧ db'.event_journal = db.event_journal := by
  unfold Db.insert_message
  rw [dif_neg hnew, dif_pos hsession]
  exact ⟨_, rfl, rfl, rfl, rfl⟩

/-- With new ids, all messages are copied. -/
theorem copy_messages_ok (k : ℕ) (rows : List (ℕ × MessageRow))
    (hdistinct : ∀ j j', ids.message j = ids.message j' → j = j')
    (hnew : ∀ j, k ≤ j → ids.message j ∉ db.messages.rows.map fun r => r.2.public_id)
    (hsession : new_sid ∈ db.sessions.rows.map Prod.fst) :
    ∃ db', copy_messages ids new_sid k rows db = .ok db' ∧
      db'.messages.rows = db.messages.rows ++ copies ids new_sid k db.messages.next_key rows ∧
      db'.sessions = db.sessions ∧ db'.event_journal = db.event_journal := by
  induction rows generalizing k db with
  | nil => exact ⟨db, rfl, (List.append_nil _).symm, rfl, rfl⟩
  | cons r rest ih =>
      obtain ⟨db₁, hinsert, hmessages, hsessions, hevents⟩ :=
        insert_message_ok (copied (ids.message k) new_sid r.2) (hnew k le_rfl) hsession
      have hnew₁ : ∀ j, k + 1 ≤ j →
          ids.message j ∉ db₁.messages.rows.map fun r => r.2.public_id := by
        intro j hj
        rw [hmessages, Table.rows_insert, List.map_append, List.mem_append]
        rintro (hold | hlast)
        · exact hnew j (by omega) hold
        · have hjk := hdistinct j k (List.mem_singleton.1 hlast)
          omega
      obtain ⟨db', hcopy, hrows, hsessions', hevents'⟩ := ih (k + 1) hnew₁ (hsessions ▸ hsession)
      refine ⟨db', ?_, ?_, hsessions'.trans hsessions, hevents'.trans hevents⟩
      · unfold copy_messages
        rw [hinsert]
        exact hcopy
      · rw [hrows, hmessages, Table.next_key_insert, Table.rows_insert, List.append_assoc]
        rfl

/-- The events are appended, under the new session and otherwise as they are. -/
theorem copy_events_eq (session_id : String) (events : List EventRow) (db : Db) :
    (copy_events session_id events db).sessions = db.sessions ∧
    (copy_events session_id events db).messages = db.messages ∧
    ∃ added, (copy_events session_id events db).event_journal = db.event_journal ++ added ∧
      added.map EventRow.kind = events.map EventRow.kind ∧
      ∀ e ∈ added, e.session_id = session_id := by
  induction events generalizing db with
  | nil => exact ⟨rfl, rfl, [], (List.append_nil _).symm, rfl, fun e he => (by cases he)⟩
  | cons e rest ih =>
      obtain ⟨hsessions, hmessages, added, hjournal, hkinds, hadded⟩ :=
        ih (db.insert_event session_id e.timestamp e.kind)
      refine ⟨hsessions, hmessages,
        ⟨db.next_seq, session_id, e.timestamp, e.kind⟩ :: added, ?_, ?_, ?_⟩
      · rw [copy_events, hjournal]
        exact List.append_assoc _ _ _
      · rw [List.map_cons, List.map_cons, hkinds]
      · intro e' he'
        rcases List.mem_cons.1 he' with rfl | he'
        · rfl
        · exact hadded e' he'

end Writes

/-- The rows that a fork at a row copies. -/
def rows_to_copy (db : Db) (sid target_row : ℕ) : List (ℕ × MessageRow) :=
  up_to target_row (db.session_rows sid)

/-- The events that it copies. -/
def events_to_copy (db : Db) (source_session_id : String) (sid target_row : ℕ) : List EventRow :=
  (db.event_journal.filter fun e => decide (e.session_id = source_session_id)).filter
    (names_one_of ((rows_to_copy db sid target_row).map fun r => r.2.public_id))

/-- What a fork writes. -/
structure ForkWrites (ids : ForkIds) (now source_session_id : String) (sid target_row : ℕ)
    (db db' : Db) : Prop where
  sessions : db'.sessions = db.sessions.insert ⟨ids.session, some sid, now⟩
  messages : db'.messages.rows = db.messages.rows ++ copies ids db.sessions.next_key 0
    db.messages.next_key (rows_to_copy db sid target_row)
  journal : ∃ added, db'.event_journal = db.event_journal ++ added ∧
    added.map EventRow.kind
      = (events_to_copy db source_session_id sid target_row).map EventRow.kind ∧
    ∀ e ∈ added, e.session_id = ids.session

section Fork

variable {db db' : Db} {ids : ForkIds} {now source_session_id target_message_id : String}
variable {sid target_row : ℕ}

/-- A fork succeeds for any target that exists. -/
theorem fork_ok (now : String) (hfresh : ids.Fresh db)
    (hsid : db.resolve_session_internal_id source_session_id = .ok sid)
    (htarget : db.resolve_message_internal_id target_message_id = .ok target_row) :
    ∃ db', fork_session ids now source_session_id target_message_id db = .ok (ids.session, db') ∧
      ForkWrites ids now source_session_id sid target_row db db' := by
  obtain ⟨forked, hinsert, hsessions, hmessages, hevents⟩ : ∃ forked,
      db.insert_session ⟨ids.session, some sid, now⟩ = .ok forked ∧
      forked.sessions = db.sessions.insert ⟨ids.session, some sid, now⟩ ∧
      forked.messages = db.messages ∧ forked.event_journal = db.event_journal := by
    unfold Db.insert_session
    rw [dif_neg hfresh.session]
    exact ⟨_, rfl, rfl, rfl, rfl⟩
  have hstored : db.sessions.next_key ∈ forked.sessions.rows.map Prod.fst := by
    rw [hsessions, Table.rows_insert, List.map_append]
    exact List.mem_append_right _ (List.mem_singleton_self _)
  obtain ⟨copied_db, hcopy, hrows, hsessions', hevents'⟩ := copy_messages_ok 0
    (rows_to_copy db sid target_row) hfresh.distinct
    (fun j _ => hmessages ▸ hfresh.messages j) hstored
  obtain ⟨hs, hm, added, hjournal, hkinds, hadded⟩ := copy_events_eq ids.session
    (events_to_copy db source_session_id sid target_row) copied_db
  refine ⟨copy_events ids.session (events_to_copy db source_session_id sid target_row) copied_db,
    ?_, (hs.trans hsessions').trans hsessions, ?_, added, ?_, hkinds, hadded⟩
  · unfold fork_session
    simp only [hsid, htarget, hinsert]
    unfold rows_to_copy at hcopy
    simp only [hcopy]
    rfl
  · rw [hm, hrows, hmessages]
  · rw [hjournal, hevents', hevents]

/-! ## 4. Reading the fork and its source -/

theorem resolve_session_mem (hsid : db.resolve_session_internal_id source_session_id = .ok sid) :
    ∃ row, (sid, row) ∈ db.sessions.rows ∧ row.public_id = source_session_id := by
  unfold Db.resolve_session_internal_id at hsid
  split at hsid
  · next r hfind =>
    cases hsid
    have hid := List.find?_some hfind
    exact ⟨r.2, List.mem_of_find?_eq_some hfind, of_decide_eq_true hid⟩
  · cases hsid

namespace ForkWrites

variable (hwrites : ForkWrites ids now source_session_id sid target_row db db')
include hwrites

theorem resolve_source (hsid : db.resolve_session_internal_id source_session_id = .ok sid) :
    db'.resolve_session_internal_id source_session_id = .ok sid := by
  unfold Db.resolve_session_internal_id at hsid ⊢
  rw [hwrites.sessions, Table.rows_insert, List.find?_append]
  split at hsid
  · next r hfind =>
    rw [hfind]
    exact hsid
  · cases hsid

theorem resolve_fork (hfresh : ids.Fresh db) :
    db'.resolve_session_internal_id ids.session = .ok db.sessions.next_key := by
  have hnone : db.sessions.rows.find? (fun r => decide (r.2.public_id = ids.session)) = none := by
    rw [List.find?_eq_none]
    intro r hr heq
    exact hfresh.session (List.mem_map.2 ⟨r, hr, of_decide_eq_true heq⟩)
  unfold Db.resolve_session_internal_id
  rw [hwrites.sessions, Table.rows_insert, List.find?_append, hnone]
  simp

/-- The rows of the source are as they were. -/
theorem source_rows (hsid : db.resolve_session_internal_id source_session_id = .ok sid) :
    db'.session_rows sid = db.session_rows sid := by
  obtain ⟨row, hrow, -⟩ := resolve_session_mem hsid
  have hlt := db.sessions.lt_next_key hrow
  unfold Db.session_rows
  rw [hwrites.messages, List.filter_append, List.append_right_eq_self, List.filter_eq_nil_iff]
  intro r hr heq
  have hnew := copies_session hr
  have hold := of_decide_eq_true heq
  omega

/-- The rows of the fork are the copies. -/
theorem fork_rows : db'.session_rows db.sessions.next_key
    = copies ids db.sessions.next_key 0 db.messages.next_key (rows_to_copy db sid target_row) := by
  unfold Db.session_rows
  rw [hwrites.messages, List.filter_append]
  have hold : db.messages.rows.filter
      (fun r => decide (r.2.session_id = db.sessions.next_key)) = [] := by
    rw [List.filter_eq_nil_iff]
    intro r hr heq
    obtain ⟨row, hrow, hkey⟩ := List.mem_map.1 (db.message_sessions r hr)
    have hlt := db.sessions.lt_next_key hrow
    have hsession := of_decide_eq_true heq
    omega
  rw [hold, List.nil_append, List.filter_eq_self]
  exact fun r hr => decide_eq_true (copies_session hr)

theorem source_history (hsid : db.resolve_session_internal_id source_session_id = .ok sid) :
    db'.get_history source_session_id = db.get_history source_session_id := by
  rw [get_history_eq hsid, get_history_eq (hwrites.resolve_source hsid)]
  unfold Db.history_rows
  rw [hwrites.source_rows hsid]

theorem source_events (hfresh : ids.Fresh db)
    (hsid : db.resolve_session_internal_id source_session_id = .ok sid) :
    db'.event_journal.filter (fun e => decide (e.session_id = source_session_id))
      = db.event_journal.filter fun e => decide (e.session_id = source_session_id) := by
  obtain ⟨row, hrow, hid⟩ := resolve_session_mem hsid
  obtain ⟨added, hjournal, -, hadded⟩ := hwrites.journal
  rw [hjournal, List.filter_append, List.append_right_eq_self, List.filter_eq_nil_iff]
  intro e he heq
  apply hfresh.session
  rw [← hadded e he, of_decide_eq_true heq, ← hid]
  exact List.mem_map.2 ⟨(sid, row), hrow, rfl⟩

end ForkWrites

/-! ## 5. The copies and the prefix -/

/-- What a fork keeps of a row. -/
def row_content (r : ℕ × MessageRow) : MessageContent :=
  ⟨r.2.role, r.2.parts, r.2.created_at, r.2.source_provider, r.2.source_model⟩

theorem copies_content {new_sid k key : ℕ} {rows : List (ℕ × MessageRow)} :
    (copies ids new_sid k key rows).map row_content = rows.map row_content := by
  induction rows generalizing k key with
  | nil => rfl
  | cons r rest ih =>
      rw [copies, List.map_cons, List.map_cons, ih]
      rfl

theorem by_created_at_content (rows : List (ℕ × MessageRow)) :
    (Db.by_created_at rows).map row_content
      = (rows.map row_content).insertionSort fun a b => a.created_at ≤ b.created_at := by
  apply List.map_insertionSort
  intro a _ b _
  rfl

/-- The history of the fork, message by message. -/
theorem ForkWrites.fork_history (hwrites : ForkWrites ids now source_session_id sid target_row db db')
    (hfresh : ids.Fresh db) :
    ∃ copy, db'.get_history ids.session = .ok copy ∧
      copy.map content = (Db.by_created_at (rows_to_copy db sid target_row)).map row_content ∧
      ∀ mid ∈ copy.map AgentMessage.id, ∃ j, mid = ids.message j := by
  rw [get_history_eq (hwrites.resolve_fork hfresh)]
  refine ⟨_, rfl, ?_, ?_⟩
  · rw [List.map_map]
    show (db'.history_rows db.sessions.next_key).map row_content = _
    unfold Db.history_rows
    rw [hwrites.fork_rows, by_created_at_content, by_created_at_content, copies_content]
  · intro mid hmid
    rw [List.map_map] at hmid
    obtain ⟨r, hr, rfl⟩ := List.mem_map.1 hmid
    unfold Db.history_rows at hr
    rw [hwrites.fork_rows] at hr
    exact copies_public_id ((List.mem_insertionSort _).1 hr)

/-- The rows of a session are in key order. -/
theorem session_rows_sorted : ((db.session_rows sid).map Prod.fst).Pairwise (· < ·) :=
  db.messages.sorted.sublist (List.filter_sublist.map Prod.fst)

/-- The history is in the order of time, and of keys within one second. -/
theorem history_rows_sorted (db : Db) (sid : ℕ) : (db.history_rows sid).Pairwise fun a b =>
    a.2.created_at ≤ b.2.created_at ∧ (b.2.created_at ≤ a.2.created_at → a.1 < b.1) := by
  apply pairwise_insertionSort_stable
  exact List.pairwise_map.1 session_rows_sorted

theorem mem_session_rows {r : ℕ × MessageRow} :
    r ∈ db.session_rows sid ↔ r ∈ db.history_rows sid :=
  (List.mem_insertionSort _).symm

/-- The history around one of its rows: what comes before it is earlier, or of the same
second and under a smaller key; what comes after it the other way round. -/
structure SplitAt (db : Db) (sid : ℕ) (t : ℕ × MessageRow) (before after : List (ℕ × MessageRow)) :
    Prop where
  history : db.history_rows sid = before ++ t :: after
  earlier : ∀ b ∈ before, b.2.created_at ≤ t.2.created_at ∧
    (t.2.created_at ≤ b.2.created_at → b.1 < t.1)
  later : ∀ a ∈ after, t.2.created_at ≤ a.2.created_at ∧
    (a.2.created_at ≤ t.2.created_at → t.1 < a.1)

theorem exists_splitAt {t : ℕ × MessageRow} (ht : t ∈ db.session_rows sid) :
    ∃ before after, SplitAt db sid t before after := by
  obtain ⟨before, after, hsplit⟩ := List.append_of_mem (mem_session_rows.1 ht)
  have hsorted := history_rows_sorted db sid
  rw [hsplit] at hsorted
  obtain ⟨-, hafter, hbefore⟩ := List.pairwise_append.1 hsorted
  exact ⟨before, after, hsplit, fun b hb => hbefore b hb t List.mem_cons_self,
    (List.pairwise_cons.1 hafter).1⟩

section

variable {t : ℕ × MessageRow} {before after : List (ℕ × MessageRow)}

theorem SplitAt.mem_session_rows (h : SplitAt db sid t before after) {r : ℕ × MessageRow} :
    r ∈ db.session_rows sid ↔ r ∈ before ∨ r = t ∨ r ∈ after := by
  rw [Session.mem_session_rows, h.history, List.mem_append, List.mem_cons]

theorem SplitAt.not_mem_before (h : SplitAt db sid t before after) : t ∉ before := by
  intro hbefore
  have hnodup := history_rows_nodup db sid
  rw [h.history] at hnodup
  exact (List.nodup_append.1 hnodup).2.2 t hbefore t List.mem_cons_self rfl

/-- The copied rows in order of time, around the target. -/
theorem SplitAt.copied (h : SplitAt db sid t before after) :
    Db.by_created_at (rows_to_copy db sid t.1) =
      before.filter (fun r => decide (r.1 ≤ t.1)) ++ t ::
        after.filter fun r => decide (r.1 ≤ t.1) := by
  have ht : t ∈ db.session_rows sid := h.mem_session_rows.2 (.inr (.inl rfl))
  unfold rows_to_copy
  rw [up_to_eq_filter session_rows_sorted ⟨t, ht, rfl⟩]
  unfold Db.by_created_at
  rw [← filter_insertionSort]
  have hhistory : (db.session_rows sid).insertionSort
      (fun a b => a.2.created_at ≤ b.2.created_at) = before ++ t :: after := h.history
  rw [hhistory, List.filter_append, List.filter_cons_of_pos (by simp)]

/-- The history up to the target. -/
theorem SplitAt.through_target (h : SplitAt db sid t before after) :
    through (fun r : ℕ × MessageRow => decide (r.2.public_id = t.2.public_id))
      (db.history_rows sid) = before ++ [t] := by
  rw [h.history]
  apply through_append
  · intro b hb
    rw [decide_eq_false_iff_not]
    intro hid
    have hrow := List.mem_of_mem_filter (h.mem_session_rows.2 (.inl hb))
    have htarget := List.mem_of_mem_filter (h.mem_session_rows.2 (.inr (.inl rfl)))
    rw [row_of_public_id hrow htarget hid] at hb
    exact h.not_mem_before hb
  · exact decide_eq_true rfl

/-- Where no copied row is later than the target, none stands after it. -/
theorem SplitAt.filter_after (h : SplitAt db sid t before after)
    (hlate : ∀ r ∈ db.session_rows sid, r.1 ≤ t.1 → r.2.created_at ≤ t.2.created_at) :
    after.filter (fun r => decide (r.1 ≤ t.1)) = [] := by
  rw [List.filter_eq_nil_iff]
  intro a ha hle
  have hle' := of_decide_eq_true hle
  have hlt := (h.later a ha).2 (hlate a (h.mem_session_rows.2 (.inr (.inr ha))) hle')
  omega

/-- Where every row that is not copied is no earlier than the target, all that stand
before it are copied. -/
theorem SplitAt.filter_before (h : SplitAt db sid t before after)
    (hearly : ∀ r ∈ db.session_rows sid, t.1 ≤ r.1 → t.2.created_at ≤ r.2.created_at) :
    before.filter (fun r => decide (r.1 ≤ t.1)) = before := by
  rw [List.filter_eq_self]
  intro b hb
  rw [decide_eq_true_eq]
  by_contra hgt
  have htime := hearly b (h.mem_session_rows.2 (.inl hb)) (by omega)
  have hlt := (h.earlier b hb).2 htime
  omega

/-- A copy that reads like the history up to the target holds nothing later than it. -/
theorem SplitAt.not_late (h : SplitAt db sid t before after)
    (heq : (Db.by_created_at (rows_to_copy db sid t.1)).map row_content =
      (before ++ [t]).map row_content) :
    ∀ r ∈ db.session_rows sid, r.1 ≤ t.1 → r.2.created_at ≤ t.2.created_at := by
  intro r hr hle
  have hcopied : r ∈ Db.by_created_at (rows_to_copy db sid t.1) := by
    rw [h.copied, List.mem_append, List.mem_cons, List.mem_filter, List.mem_filter]
    rcases h.mem_session_rows.1 hr with hb | rfl | ha
    · exact .inl ⟨hb, decide_eq_true hle⟩
    · exact .inr (.inl rfl)
    · exact .inr (.inr ⟨ha, decide_eq_true hle⟩)
  have hcontent : row_content r ∈ (before ++ [t]).map row_content := by
    rw [← heq]
    exact List.mem_map_of_mem hcopied
  obtain ⟨r', hr', hsame⟩ := List.mem_map.1 hcontent
  have htime : r'.2.created_at = r.2.created_at := congrArg MessageContent.created_at hsame
  rw [← htime]
  rcases List.mem_append.1 hr' with hb | hlast
  · exact (h.earlier r' hb).1
  · rw [List.mem_singleton.1 hlast]

end

/-- **The rows up to the target's, read in order of time, are the history up to the target
exactly when the target stands in the rows where its time puts it.** -/
theorem copies_are_prefix_iff {t : ℕ × MessageRow} (ht : t ∈ db.session_rows sid) :
    (Db.by_created_at (rows_to_copy db sid t.1)).map row_content
        = (through (fun r : ℕ × MessageRow => decide (r.2.public_id = t.2.public_id))
            (db.history_rows sid)).map row_content
      ↔ InTimeOrder db sid t := by
  obtain ⟨before, after, h⟩ := exists_splitAt ht
  rw [h.through_target]
  constructor
  · intro heq r hr
    have hlate := h.not_late heq
    refine ⟨hlate r hr, fun hge => ?_⟩
    -- nothing is copied from after the target, so all of `before` is
    have hlen := congrArg List.length heq
    rw [h.copied, h.filter_after hlate] at hlen
    simp only [List.length_map, List.length_append, List.length_singleton] at hlen
    rcases h.mem_session_rows.1 hr with hb | rfl | ha
    · have hle : r.1 ≤ t.1 := of_decide_eq_true
        (List.length_filter_eq_length_iff.1 (Nat.add_right_cancel hlen) r hb)
      have hsame : r = t := db.messages.row_unique (List.mem_of_mem_filter hr)
        (List.mem_of_mem_filter ht) (le_antisymm hle hge)
      rw [hsame]
    · exact le_rfl
    · exact (h.later r ha).1
  · intro horder
    rw [h.copied, h.filter_before fun r hr => (horder r hr).2,
      h.filter_after fun r hr => (horder r hr).1]

/-! ## 6. The law and the code -/

theorem names_one_of_iff {mids : List String} {e : EventRow} :
    names_one_of mids e = true ↔ ∃ mid ∈ e.kind.message_id, mid ∈ mids := by
  unfold names_one_of
  cases e.kind.message_id <;> simp

theorem mem_rows_to_copy {t r : ℕ × MessageRow} (ht : t ∈ db.session_rows sid) :
    r ∈ rows_to_copy db sid t.1 ↔ r ∈ db.session_rows sid ∧ r.1 ≤ t.1 := by
  unfold rows_to_copy
  rw [up_to_eq_filter session_rows_sorted ⟨t, ht, rfl⟩, List.mem_filter, decide_eq_true_eq]

/-- A copied event never names a message of the fork, so there must be none. -/
theorem fork_events_iff {t : ℕ × MessageRow} (ht : t ∈ db.session_rows sid)
    (hfresh : ids.Fresh db)
    (hwrites : ForkWrites ids now source_session_id sid t.1 db db') :
    (∀ copy, db'.get_history ids.session = .ok copy →
      ∀ e ∈ db'.event_journal, e.session_id = ids.session → ∀ mid ∈ e.kind.message_id,
        mid ∈ copy.map AgentMessage.id) ↔ NoEventNames db source_session_id sid t := by
  obtain ⟨copy, hcopy, -, hids⟩ := hwrites.fork_history hfresh
  obtain ⟨added, hjournal, hkinds, hadded⟩ := hwrites.journal
  constructor
  · intro hnamed e he hsource mid hmid r hr hle hid
    have hlisted : e ∈ events_to_copy db source_session_id sid t.1 := by
      refine List.mem_filter.2 ⟨List.mem_filter.2 ⟨he, decide_eq_true hsource⟩, ?_⟩
      rw [names_one_of_iff]
      exact ⟨mid, hmid, List.mem_map.2 ⟨r, (mem_rows_to_copy ht).2 ⟨hr, hle⟩, hid⟩⟩
    obtain ⟨e', he', hkind⟩ : ∃ e' ∈ added, e'.kind = e.kind := by
      have hmem := List.mem_map_of_mem (f := EventRow.kind) hlisted
      rw [← hkinds] at hmem
      exact List.mem_map.1 hmem
    have hin := hnamed copy hcopy e' (hjournal ▸ List.mem_append_right _ he') (hadded e' he') mid
      (hkind ▸ hmid)
    obtain ⟨j, hj⟩ := hids mid hin
    apply hfresh.messages j
    rw [← hj, ← hid]
    exact List.mem_map_of_mem (f := fun r : ℕ × MessageRow => r.2.public_id)
      (List.mem_of_mem_filter hr)
  · intro hno copy' _ e he hfork mid hmid
    exfalso
    rw [hjournal, List.mem_append] at he
    rcases he with he | he
    · exact hfresh.events e he hfork
    · obtain ⟨src, hsrc, hkind⟩ : ∃ src ∈ events_to_copy db source_session_id sid t.1,
          src.kind = e.kind := by
        have hmem := List.mem_map_of_mem (f := EventRow.kind) he
        rw [hkinds] at hmem
        exact List.mem_map.1 hmem
      obtain ⟨hsrc, hnames⟩ := List.mem_filter.1 hsrc
      obtain ⟨hsrc, hsession⟩ := List.mem_filter.1 hsrc
      obtain ⟨mid', hmid', hcopied⟩ := names_one_of_iff.1 hnames
      obtain ⟨r, hr, hid⟩ := List.mem_map.1 hcopied
      obtain ⟨hr, hle⟩ := (mem_rows_to_copy ht).1 hr
      exact hno src hsrc (of_decide_eq_true hsession) mid' hmid' r hr hle hid

/-- A message with the target's id is one of the session, stands where its time puts it, and
no event of the conversation names it or a message before it. -/
def ForkSafe (db : Db) (source_session_id target_message_id : String) (sid : ℕ) : Prop :=
  ∀ t ∈ db.messages.rows, t.2.public_id = target_message_id →
    t.2.session_id = sid ∧ InTimeOrder db sid t ∧ NoEventNames db source_session_id sid t

/-- A target of the session. -/
theorem self_contained_iff {t : ℕ × MessageRow} (ht : t ∈ db.session_rows sid)
    (hfresh : ids.Fresh db)
    (hsid : db.resolve_session_internal_id source_session_id = .ok sid)
    (hwrites : ForkWrites ids now source_session_id sid t.1 db db') :
    SelfContained source_session_id t.2.public_id db ids.session db' ↔
      InTimeOrder db sid t ∧ NoEventNames db source_session_id sid t := by
  obtain ⟨copy, hcopy, hcontent, -⟩ := hwrites.fork_history hfresh
  have hpre : (through (fun m => decide (m.id = t.2.public_id)) ((db.history_rows sid).map
        (Db.to_message source_session_id (db.session_rows sid)))).map content
      = (through (fun r : ℕ × MessageRow => decide (r.2.public_id = t.2.public_id))
          (db.history_rows sid)).map row_content := by
    rw [map_through, List.map_map]
    rfl
  rw [← copies_are_prefix_iff ht, ← fork_events_iff ht hfresh hwrites, ← hcontent, ← hpre]
  constructor
  · intro hself
    obtain ⟨history, copy', hhistory, hcopy', heq⟩ := hself.history
    rw [get_history_eq hsid] at hhistory
    rw [hcopy] at hcopy'
    cases hhistory
    cases hcopy'
    exact ⟨heq, hself.events⟩
  · rintro ⟨heq, hevents⟩
    exact ⟨⟨_, copy, get_history_eq hsid, hcopy, heq⟩, hevents, hwrites.source_history hsid,
      hwrites.source_events hfresh hsid⟩

/-- **When a fork is a self-contained copy, or rejected as it should be.** -/
theorem fork_lawful_iff (db : Db) (ids : ForkIds) (now source_session_id target_message_id : String)
    (sid : ℕ) (hfresh : ids.Fresh db)
    (hsid : db.resolve_session_internal_id source_session_id = .ok sid) :
    ForkLawful ids now source_session_id target_message_id sid db
      ↔ ForkSafe db source_session_id target_message_id sid := by
  unfold ForkLawful
  split
  · next hmem =>
    obtain ⟨t, ht, hid⟩ := List.mem_map.1 hmem
    subst hid
    have hrow := List.mem_of_mem_filter ht
    have hunique : ∀ t' ∈ db.messages.rows, t'.2.public_id = t.2.public_id → t' = t :=
      fun t' ht' hid => row_of_public_id ht' hrow hid
    have hsession : t.2.session_id = sid := by
      have hfilter := List.of_mem_filter ht
      exact of_decide_eq_true hfilter
    obtain ⟨db', hfork, hwrites⟩ :=
      fork_ok now hfresh hsid (resolve_message_of_row hrow)
    have hself := self_contained_iff ht hfresh hsid hwrites
    constructor
    · rintro ⟨fork, db'', hfork', hlaw⟩ t' ht' hid
      rw [hfork] at hfork'
      cases hfork'
      rw [hunique t' ht' hid]
      exact ⟨hsession, hself.1 hlaw⟩
    · intro hsafe
      exact ⟨_, db', hfork, hself.2 (hsafe t hrow rfl).2⟩
  · next hnot =>
    have helsewhere : ∀ t ∈ db.messages.rows, t.2.public_id = target_message_id →
        t.2.session_id ≠ sid := fun t ht hid hsession =>
      hnot (List.mem_map.2 ⟨t, List.mem_filter.2 ⟨ht, decide_eq_true hsession⟩, hid⟩)
    constructor
    · rintro ⟨e, hrejected⟩ t ht hid
      -- a message of another session is taken for a target
      subst hid
      obtain ⟨db', hfork, -⟩ := fork_ok now hfresh hsid (resolve_message_of_row ht)
      rw [hfork] at hrejected
      cases hrejected
    · intro hsafe
      have hnone : db.messages.rows.find?
          (fun r => decide (r.2.public_id = target_message_id)) = none := by
        rw [List.find?_eq_none]
        intro r hr hid
        have hid' := of_decide_eq_true hid
        exact helsewhere r hr hid' (hsafe r hr hid').1
      unfold fork_session Db.resolve_message_internal_id
      rw [hsid, hnone]
      exact ⟨_, rfl⟩

end Fork

/-! A session of one turn. -/

def one_turn_db (event_message : Option String) : Db where
  sessions := Table.empty.insert ⟨"s", none, "1"⟩
  messages := ⟨[(1, ⟨"m1", 1, .User, [.Text "hi"], 0, none, none, none⟩),
    (2, ⟨"a1", 1, .Assistant, [.Text "hello"], 1, none, none, none⟩),
    (3, ⟨"m2", 1, .User, [.Text "bye"], 1, none, none, none⟩)], by decide⟩
  revert_states := .empty
  event_journal := [⟨1, "s", 0, .PromptReceived "hi" event_message⟩]
  next_seq := 2
  session_ids := List.nodup_singleton "s"
  message_ids := by decide
  message_sessions := by decide
  seq_sorted := by simp
  seq_fresh := by simp

def long_ids : ForkIds := ⟨"fork", fun k => String.ofList (List.replicate (k + 3) 'f')⟩

theorem long_ids_fresh (event_message : Option String) :
    long_ids.Fresh (one_turn_db event_message) where
  session := by simp [long_ids, one_turn_db, Table.empty]
  events := by simp [long_ids, one_turn_db]
  messages := by
    intro k hk
    have hlen : ∀ id ∈ (one_turn_db event_message).messages.rows.map (fun r => r.2.public_id),
        id.length = 2 := by simp [one_turn_db]; decide
    have hk' := hlen _ hk
    simp [long_ids] at hk'
  distinct := by
    intro k k' heq
    have hlen := congrArg String.length heq
    simp [long_ids] at hlen
    exact hlen

/-- Without an event that names a message, the fork at the answer is a copy of the turn. -/
theorem one_turn_forked : ForkLawful long_ids "2" "s" "a1" 1 (one_turn_db none) := by
  refine (fork_lawful_iff (one_turn_db none) long_ids "2" "s" "a1" 1 (long_ids_fresh none) rfl).2 ?_
  unfold ForkSafe InTimeOrder NoEventNames
  decide

/-- With the event that a prompt leaves, the fork's copy of it names "m1", a message of the
source only. -/
theorem forked_event_names_source_message :
    (fork_session long_ids "2" "s" "a1" (one_turn_db (some "m1"))).toOption.map
      (fun r => ((r.2.event_journal.filter fun e => decide (e.session_id = "fork")).map
          fun e => e.kind.message_id,
        (r.2.history_rows 2).map fun r => r.2.public_id))
      = some ([some "m1"], ["fff", "ffff"]) ∧
    ¬ ForkLawful long_ids "2" "s" "a1" 1 (one_turn_db (some "m1")) := by
  refine ⟨by decide, ?_⟩
  rintro ⟨fork, db', hfork, hself⟩
  have hfresh := long_ids_fresh (some "m1")
  obtain ⟨db'', hfork', hwrites⟩ : ∃ db'',
      fork_session long_ids "2" "s" "a1" (one_turn_db (some "m1")) = .ok ("fork", db'') ∧
      ForkWrites long_ids "2" "s" 1 2 (one_turn_db (some "m1")) db'' := fork_ok "2" hfresh rfl rfl
  rw [hfork'] at hfork
  cases hfork
  have hsafe := (self_contained_iff (t := (2, ⟨"a1", 1, .Assistant, [.Text "hello"], 1, none, none,
    none⟩)) (.tail _ (.head _)) hfresh rfl hwrites).1 hself
  exact hsafe.2 _ List.mem_cons_self rfl "m1" rfl _ List.mem_cons_self (by decide) rfl

end Querymt.Session
