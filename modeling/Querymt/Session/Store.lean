/-
`Session/Store.lean` -- the session store on SQLite.

Mirrors the part of `session/sqlite_storage/session_store.rs` (with
`event_journal.rs` and `repo_session.rs`) that undo, redo, the cleanup after them and
forks work on: sessions, messages with their parts, the event journal and the stack
of revert states.

`messages.id` and `revert_states.id` are integer primary keys. The history of a
session is read `ORDER BY created_at`, a time in seconds; rows of one second come in
the order of their keys, as the sorter returns them from the session index. The parts
of a message are kept with it, in `sort_order`. The statements run in transactions
and their I/O does not fail; what can fail is a lookup or a constraint.
-/
import Querymt.Agent.Model
import Querymt.Library.Tables

set_option autoImplicit false

namespace Querymt.Session

open Querymt.Agent (ChatRole MessagePart AgentMessage)
open Tables

/-! ## 1. Tables -/

structure SessionRow where
  public_id : String
  parent_session_id : Option ℕ
  created_at : String
  deriving DecidableEq

structure MessageRow where
  public_id : String
  session_id : ℕ
  role : ChatRole
  parts : List MessagePart
  created_at : ℤ
  parent_message_id : Option ℕ
  source_provider : Option String
  source_model : Option String

/-- The kind and payload of a journal event; `Other` is every kind that no function here
tells apart. -/
inductive JournalKind where
  | PromptReceived (content : String) (message_id : Option String)
  | AssistantMessageStored (content : String) (thinking : Option String)
      (message_id : Option String)
  | Other (kind : String)
  deriving DecidableEq

/-- The message that an event of the conversation names. -/
def JournalKind.message_id : JournalKind → Option String
  | .PromptReceived _ message_id => message_id
  | .AssistantMessageStored _ _ message_id => message_id
  | .Other _ => none

structure EventRow where
  stream_seq : ℕ
  session_id : String
  timestamp : ℤ
  kind : JournalKind
  deriving DecidableEq

structure RevertState where
  public_id : String
  message_id : String
  snapshot_id : String
  deriving DecidableEq

/-- A row of `revert_states`; `session_id` is the session's internal id. -/
structure RevertRow where
  session_id : ℕ
  state : RevertState
  deriving DecidableEq

/-- The database. Public ids of sessions and of messages are unique, a message belongs to a
session, and the journal is kept in the order of its sequence numbers. -/
structure Db where
  sessions : Table SessionRow
  messages : Table MessageRow
  revert_states : Table RevertRow
  event_journal : List EventRow
  next_seq : ℕ
  session_ids : (sessions.rows.map fun r => r.2.public_id).Nodup
  message_ids : (messages.rows.map fun r => r.2.public_id).Nodup
  message_sessions : ∀ r ∈ messages.rows, r.2.session_id ∈ sessions.rows.map Prod.fst
  seq_sorted : event_journal.Pairwise fun a b => a.stream_seq < b.stream_seq
  seq_fresh : ∀ e ∈ event_journal, e.stream_seq < next_seq

def Db.empty : Db where
  sessions := .empty
  messages := .empty
  revert_states := .empty
  event_journal := []
  next_seq := 1
  session_ids := List.nodup_nil
  message_ids := List.nodup_nil
  message_sessions := fun _ h => (by cases h)
  seq_sorted := List.Pairwise.nil
  seq_fresh := fun _ h => (by cases h)

inductive SessionError where
  | SessionNotFound (session_id : String)
  | InvalidOperation (message : String)
  | DatabaseError (message : String)
  deriving DecidableEq

def SessionError.to_string : SessionError → String
  | .SessionNotFound session_id => "Session not found: " ++ session_id
  | .InvalidOperation message => "Invalid operation: " ++ message
  | .DatabaseError message => "Database error: " ++ message

namespace Db

variable (db : Db)

/-! ## 2. Reading -/

def resolve_session_internal_id (session_id : String) : Except SessionError ℕ :=
  match db.sessions.rows.find? fun r => r.2.public_id = session_id with
  | some r => .ok r.1
  | none => .error (.SessionNotFound session_id)

def resolve_message_internal_id (message_id : String) : Except SessionError ℕ :=
  match db.messages.rows.find? fun r => r.2.public_id = message_id with
  | some r => .ok r.1
  | none => .error (.InvalidOperation ("Message not found: " ++ message_id))

/-- `SELECT … FROM messages WHERE session_id = ? ORDER BY id`. -/
def session_rows (session_internal_id : ℕ) : List (ℕ × MessageRow) :=
  db.messages.rows.filter fun r => decide (r.2.session_id = session_internal_id)

/-- `ORDER BY created_at`, from rows in key order. -/
def by_created_at (rows : List (ℕ × MessageRow)) : List (ℕ × MessageRow) :=
  rows.insertionSort fun a b => a.2.created_at ≤ b.2.created_at

/-- The rows of a session in the order of its history. -/
def history_rows (session_internal_id : ℕ) : List (ℕ × MessageRow) :=
  by_created_at (db.session_rows session_internal_id)

/-- A row as a message; the parent is looked up among the rows of the session. -/
def to_message (session_id : String) (rows : List (ℕ × MessageRow)) (r : ℕ × MessageRow) :
    AgentMessage where
  id := r.2.public_id
  session_id := session_id
  role := r.2.role
  parts := r.2.parts
  created_at := r.2.created_at
  parent_message_id := r.2.parent_message_id.bind fun pid =>
    (rows.find? fun r => r.1 = pid).map fun r => r.2.public_id
  source_provider := r.2.source_provider
  source_model := r.2.source_model

/-- `get_history`. -/
def get_history (session_id : String) : Except SessionError (List AgentMessage) :=
  match db.resolve_session_internal_id session_id with
  | .error e => .error e
  | .ok session_internal_id =>
      .ok ((db.history_rows session_internal_id).map
        (to_message session_id (db.session_rows session_internal_id)))

/-- `list_child_sessions`: delegations and forks alike. -/
def list_child_sessions (parent_id : String) : Except SessionError (List String) :=
  match db.resolve_session_internal_id parent_id with
  | .error e => .error e
  | .ok parent_internal_id =>
      .ok (((db.sessions.rows.filter fun r =>
        decide (r.2.parent_session_id = some parent_internal_id)).insertionSort
          fun a b => a.2.created_at ≤ b.2.created_at).map fun r => r.2.public_id)

/-- `load_session_stream` without a start and a limit: at most 10 000 events. -/
def load_session_stream (session_id : String) : List EventRow :=
  (db.event_journal.filter fun e => decide (e.session_id = session_id)).take 10000

/-! ## 3. Writing -/

theorem nodup_ids_insert {α : Type} (t : Table α) (id : α → String) (a : α)
    (hids : (t.rows.map fun r => id r.2).Nodup) (hnew : id a ∉ t.rows.map fun r => id r.2) :
    ((t.insert a).rows.map fun r => id r.2).Nodup := by
  rw [Table.rows_insert, List.map_append, List.nodup_append]
  refine ⟨hids, by simp, ?_⟩
  intro x hx y hy
  rw [List.map_singleton, List.mem_singleton] at hy
  rintro rfl
  rw [hy] at hx
  exact hnew hx

/-- Insert a session; its public id must be new. -/
def insert_session (row : SessionRow) : Except SessionError Db :=
  if h : row.public_id ∈ db.sessions.rows.map fun r => r.2.public_id then
    .error (.DatabaseError "UNIQUE constraint failed: sessions.public_id")
  else
    .ok { db with
      sessions := db.sessions.insert row
      session_ids := nodup_ids_insert _ _ _ db.session_ids h
      message_sessions := by
        intro r hr
        rw [Table.rows_insert, List.map_append]
        exact List.mem_append_left _ (db.message_sessions r hr) }

/-- Insert a message with its parts; its public id must be new and its session stored. -/
def insert_message (row : MessageRow) : Except SessionError Db :=
  if h : row.public_id ∈ db.messages.rows.map fun r => r.2.public_id then
    .error (.DatabaseError "UNIQUE constraint failed: messages.public_id")
  else if hsession : row.session_id ∈ db.sessions.rows.map Prod.fst then
    .ok { db with
      messages := db.messages.insert row
      message_ids := nodup_ids_insert _ _ _ db.message_ids h
      message_sessions := by
        intro r hr
        rcases List.mem_append.1 hr with hr | hr
        · exact db.message_sessions r hr
        · rw [List.mem_singleton.1 hr]
          exact hsession }
  else
    .error (.DatabaseError "FOREIGN KEY constraint failed")

/-- Append an event under the next sequence number. -/
def insert_event (session_id : String) (timestamp : ℤ) (kind : JournalKind) : Db :=
  { db with
    event_journal := db.event_journal ++ [⟨db.next_seq, session_id, timestamp, kind⟩]
    next_seq := db.next_seq + 1
    seq_sorted := by
      rw [List.pairwise_append]
      refine ⟨db.seq_sorted, by simp, ?_⟩
      intro a ha b hb
      rw [List.mem_singleton] at hb
      rw [hb]
      exact db.seq_fresh a ha
    seq_fresh := by
      intro e he
      rcases List.mem_append.1 he with he | he
      · exact Nat.lt_succ_of_lt (db.seq_fresh e he)
      · rw [List.mem_singleton.1 he]
        exact Nat.lt_succ_self _ }

/-- `ON DELETE SET NULL` on the parent of a message. -/
def unlink (kept : Table MessageRow) (row : MessageRow) : MessageRow :=
  { row with
    parent_message_id := row.parent_message_id.filter fun pid => kept.rows.any fun r => r.1 = pid }

/-- Keep the messages that satisfy `p`, with their parts. -/
def keep_messages (p : ℕ × MessageRow → Bool) : Db :=
  { db with
    messages := (db.messages.filter p).map (unlink (db.messages.filter p))
    message_ids := by
      rw [Table.rows_map, List.map_map]
      exact db.message_ids.sublist
        (List.filter_sublist.map fun r : ℕ × MessageRow => r.2.public_id)
    message_sessions := by
      intro r hr
      obtain ⟨r', hr', rfl⟩ := List.mem_map.1 hr
      exact db.message_sessions r' (List.mem_of_mem_filter hr') }

/-- Keep the events that satisfy `p`. -/
def keep_events (p : EventRow → Bool) : Db :=
  { db with
    event_journal := db.event_journal.filter p
    seq_sorted := db.seq_sorted.sublist List.filter_sublist
    seq_fresh := fun e he => db.seq_fresh e (List.mem_of_mem_filter he) }

/-- `delete_messages_after`: the target and every row with a larger key. -/
def delete_messages_after (session_id message_id : String) : Except SessionError (Db × ℕ) :=
  match db.resolve_session_internal_id session_id with
  | .error e => .error e
  | .ok session_internal_id =>
      match db.resolve_message_internal_id message_id with
      | .error e => .error e
      | .ok message_internal_id =>
          let deleted (r : ℕ × MessageRow) : Bool :=
            decide (r.2.session_id = session_internal_id) && decide (message_internal_id ≤ r.1)
          .ok (db.keep_messages fun r => !deleted r, (db.messages.rows.filter deleted).length)

/-- `delete_session_events_from`. -/
def delete_session_events_from (session_id : String) (from_seq : ℕ) : Db :=
  db.keep_events fun e => !(decide (e.session_id = session_id) && decide (from_seq ≤ e.stream_seq))

/-! ## 4. Revert states -/

/-- The revert states of a session, oldest first (`list_revert_states`). -/
def revert_stack (session_internal_id : ℕ) : List RevertState :=
  (db.revert_states.rows.filter fun r =>
    decide (r.2.session_id = session_internal_id)).map fun r => r.2.state

def peek_revert_state (session_id : String) : Except SessionError (Option RevertState) :=
  match db.resolve_session_internal_id session_id with
  | .error e => .error e
  | .ok session_internal_id => .ok (db.revert_stack session_internal_id).getLast?

def push_revert_state (session_id : String) (state : RevertState) : Except SessionError Db :=
  match db.resolve_session_internal_id session_id with
  | .error e => .error e
  | .ok session_internal_id =>
      .ok { db with revert_states := db.revert_states.insert ⟨session_internal_id, state⟩ }

/-- The key of the newest revert state of a session. -/
def newest_revert (session_internal_id : ℕ) : Option ℕ :=
  (db.revert_states.rows.filter fun r =>
    decide (r.2.session_id = session_internal_id)).getLast?.map Prod.fst

def pop_revert_state (session_id : String) : Except SessionError Db :=
  match db.resolve_session_internal_id session_id with
  | .error e => .error e
  | .ok session_internal_id =>
      match db.newest_revert session_internal_id with
      | none => .ok db
      | some key =>
          .ok { db with revert_states := db.revert_states.filter fun r => decide (r.1 ≠ key) }

def clear_revert_states (session_id : String) : Except SessionError Db :=
  match db.resolve_session_internal_id session_id with
  | .error e => .error e
  | .ok session_internal_id =>
      .ok { db with revert_states :=
        db.revert_states.filter fun r => decide (r.2.session_id ≠ session_internal_id) }

end Db

/-! ## 5. Rows and messages -/

section Rows

variable {db : Db} {session_id : String} {sid : ℕ}

theorem mem_history_rows {r : ℕ × MessageRow} :
    r ∈ db.history_rows sid ↔ r ∈ db.messages.rows ∧ r.2.session_id = sid := by
  unfold Db.history_rows Db.by_created_at Db.session_rows
  rw [List.mem_insertionSort, List.mem_filter, decide_eq_true_eq]

theorem history_rows_nodup (db : Db) (sid : ℕ) : (db.history_rows sid).Nodup := by
  have hrows : db.messages.rows.Nodup := List.Nodup.of_map _ db.message_ids
  exact (List.perm_insertionSort _ _).nodup_iff.2 (hrows.filter _)

/-- Rows with one public id are one row. -/
theorem row_of_public_id {r r' : ℕ × MessageRow} (hr : r ∈ db.messages.rows)
    (hr' : r' ∈ db.messages.rows) (h : r.2.public_id = r'.2.public_id) : r = r' :=
  List.inj_on_of_nodup_map db.message_ids hr hr' h

theorem get_history_eq (hsid : db.resolve_session_internal_id session_id = .ok sid) :
    db.get_history session_id = .ok ((db.history_rows sid).map
      (Db.to_message session_id (db.session_rows sid))) := by
  unfold Db.get_history
  rw [hsid]

theorem resolve_message_of_row {r : ℕ × MessageRow} (hr : r ∈ db.messages.rows) :
    db.resolve_message_internal_id r.2.public_id = .ok r.1 := by
  unfold Db.resolve_message_internal_id
  cases hfind : db.messages.rows.find? fun r' => r'.2.public_id = r.2.public_id with
  | none =>
      have hnot := List.find?_eq_none.1 hfind r hr
      simp at hnot
  | some r' =>
      have hid := List.find?_some hfind
      rw [decide_eq_true_eq] at hid
      rw [row_of_public_id (List.mem_of_find?_eq_some hfind) hr hid]

end Rows

end Querymt.Session
