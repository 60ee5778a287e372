/-
`Session/Journal.lean` -- the event journal on SQLite.

Mirrors `session/sqlite_storage/event_journal.rs` with the tables of `schema.rs`: appending
an event under the next number of `event_journal_seq`, reading the stream of a session or
of all of them after a cursor, and deleting the end of a session's stream. `Store.lean`
has as much of this as undo needs; here the rows have all their columns, a statement may
fail, and what is read is compared with what was appended.

# Statements, not transactions

`append_durable` is two statements, each committed on its own: one takes a number, one
inserts the row. Where the second fails the number is gone, and no event has it.

# The cap

Without a limit the reads stop at 10 000 rows. Every caller that wants the whole stream
asks without a limit, so from 10 001 events on it gets the oldest ones
(`journal_replays_iff`).
-/
import Mathlib
import Querymt.Library.Runs

set_option autoImplicit false

open Runs

namespace Querymt.Journal

/-! ## 1. Events and rows -/

/-- Where an event comes from. Another name is never one of the two: the deserializer
reads those as what they name. -/
inductive EventOrigin where
  | Local
  | Remote
  | Unknown (name : { s : String // s ≠ "local" ∧ s ≠ "remote" })
  deriving DecidableEq

def EventOrigin.as_str : EventOrigin → String
  | .Local => "local"
  | .Remote => "remote"
  | .Unknown name => name.1

def EventOrigin.from_str (s : String) : EventOrigin :=
  if hlocal : s = "local" then .Local
  else if hremote : s = "remote" then .Remote
  else .Unknown ⟨s, hlocal, hremote⟩

/-- How the kind of an event is written: its tag, and itself as JSON that reads back as it was.
`κ` is the content that is stored: what a field with `serde(skip)` holds is no part of it. -/
structure KindCodec (κ : Type) where
  tag : κ → String
  to_json : κ → String
  from_json : String → Option κ
  from_to : ∀ kind, from_json (to_json kind) = some kind

structure NewDurableEvent (κ : Type) where
  session_id : String
  origin : EventOrigin
  source_node : Option String
  kind : κ

structure DurableEvent (κ : Type) where
  event_id : String
  stream_seq : ℤ
  session_id : String
  timestamp : ℤ
  origin : EventOrigin
  source_node : Option String
  kind : κ

/-- A row of `event_journal`. -/
structure JournalRow where
  event_id : String
  stream_seq : ℤ
  session_id : String
  timestamp : ℤ
  origin : String
  source_node : Option String
  kind : String
  payload_json : String

/-- The two tables: the rows in the order they were inserted, and the next number. -/
structure EventJournal where
  rows : List JournalRow
  next_seq : ℤ

/-- `schema.rs`: `INSERT … (id, next_seq) VALUES (1, 1)`. -/
def EventJournal.new : EventJournal := ⟨[], 1⟩

inductive SessionError where
  | DatabaseError (message : String)
  deriving DecidableEq

/-! ## 2. The code -/

variable {κ : Type}

/-- What goes wrong with the disk during an append: the first statement fails, or the
second. -/
inductive AppendFault where
  | Update
  | Insert
  deriving DecidableEq

namespace EventJournal

variable (codec : KindCodec κ) (j : EventJournal)

/-- `append_durable`; the id and the time are those of the call. `event_id` is the primary
key. -/
def append_durable (event : NewDurableEvent κ) (event_id : String) (timestamp : ℤ)
    (fault : Option AppendFault) : Except SessionError (DurableEvent κ) × EventJournal :=
  if fault = some .Update then (.error (.DatabaseError "disk I/O error"), j)
  else
    let stream_seq := j.next_seq
    let j := { j with next_seq := j.next_seq + 1 }
    if fault = some .Insert then (.error (.DatabaseError "disk I/O error"), j)
    else if event_id ∈ j.rows.map JournalRow.event_id then
      (.error (.DatabaseError "UNIQUE constraint failed: event_journal.event_id"), j)
    else
      let row : JournalRow :=
        { event_id, stream_seq, timestamp
          session_id := event.session_id
          origin := event.origin.as_str
          source_node := event.source_node
          kind := codec.tag event.kind
          payload_json := codec.to_json event.kind }
      (.ok { event_id, stream_seq, timestamp
             session_id := event.session_id
             origin := event.origin
             source_node := event.source_node
             kind := event.kind },
        { j with rows := j.rows ++ [row] })

def parse_journal_row (row : JournalRow) : Except SessionError (DurableEvent κ) :=
  match codec.from_json row.payload_json with
  | none => .error (.DatabaseError "Query is not read-only")
  | some kind =>
      .ok { event_id := row.event_id
            stream_seq := row.stream_seq
            session_id := row.session_id
            timestamp := row.timestamp
            origin := .from_str row.origin
            source_node := row.source_node
            kind }

/-- `usize as i64`. -/
def as_i64 (n : ℕ) : ℤ := (n + 2 ^ 63) % 2 ^ 64 - 2 ^ 63

/-- `ORDER BY stream_seq ASC LIMIT ?`; a negative limit is none. -/
def order_limit (rows : List JournalRow) (limit : ℤ) : List JournalRow :=
  let sorted := rows.insertionSort fun a b => a.stream_seq ≤ b.stream_seq
  if limit < 0 then sorted else sorted.take limit.toNat

def load_session_stream (session_id : String) (after_seq : Option ℤ) (limit : Option ℕ) :
    Except SessionError (List (DurableEvent κ)) :=
  let after := after_seq.getD 0
  let lim := as_i64 (limit.getD 10000)
  (order_limit (j.rows.filter fun row =>
    decide (row.session_id = session_id) && decide (after < row.stream_seq)) lim).mapM
      (parse_journal_row codec)

def load_global_stream (after_seq : Option ℤ) (limit : Option ℕ) :
    Except SessionError (List (DurableEvent κ)) :=
  let after := after_seq.getD 0
  let lim := as_i64 (limit.getD 10000)
  (order_limit (j.rows.filter fun row => decide (after < row.stream_seq)) lim).mapM
    (parse_journal_row codec)

/-- The rows that a deletion takes out. -/
def deletes (session_id : String) (from_seq : ℤ) (of_session : String) (stream_seq : ℤ) : Bool :=
  decide (of_session = session_id) && decide (from_seq ≤ stream_seq)

def delete_session_events_from (session_id : String) (from_seq : ℤ) : ℕ × EventJournal :=
  let deleted (row : JournalRow) : Bool :=
    deletes session_id from_seq row.session_id row.stream_seq
  ((j.rows.filter deleted).length, { j with rows := j.rows.filter fun row => !deleted row })

end EventJournal

/-! ## 3. Runs and the law -/

inductive JournalOp (κ : Type) where
  | Append (event : NewDurableEvent κ) (event_id : String) (timestamp : ℤ)
      (fault : Option AppendFault)
  | Delete (session_id : String) (from_seq : ℤ)

def step (codec : KindCodec κ) (j : EventJournal) : JournalOp κ → EventJournal
  | .Append event event_id timestamp fault => (j.append_durable codec event event_id timestamp fault).2
  | .Delete session_id from_seq => (j.delete_session_events_from session_id from_seq).2

/-- **What a journal is for**: the numbers given out so far, and the events that were
appended and not deleted since. -/
structure History (κ : Type) where
  issued : List ℤ
  surviving : List (DurableEvent κ)

/-- What an operation does to the history, from the answers it gives. -/
def History.record (codec : KindCodec κ) (j : EventJournal) : JournalOp κ → History κ → History κ
  | .Append event event_id timestamp fault, h =>
      match (j.append_durable codec event event_id timestamp fault).1 with
      | .ok appended => ⟨h.issued ++ [appended.stream_seq], h.surviving ++ [appended]⟩
      | .error _ => h
  | .Delete session_id from_seq, h =>
      let deleted (e : DurableEvent κ) : Bool :=
        EventJournal.deletes session_id from_seq e.session_id e.stream_seq
      { h with surviving := h.surviving.filter fun e => !deleted e }

/-- The journal after a run, with its history. -/
def journal_run (codec : KindCodec κ) (ops : List (JournalOp κ)) : EventJournal × History κ :=
  run (instrument (step codec) (History.record codec)) (.new, ⟨[], []⟩) ops

/-- The events after a cursor, of one session or of all. -/
def History.after (h : History κ) (session_id : Option String) (after_seq : Option ℤ) :
    List (DurableEvent κ) :=
  h.surviving.filter fun e =>
    session_id.all (fun s => decide (e.session_id = s)) &&
      after_seq.all (fun after => decide (after < e.stream_seq))

/-- **The law**: numbers grow and are not given out twice, and a read without a limit
returns what is left of the stream. -/
structure Replays (codec : KindCodec κ) (j : EventJournal) (h : History κ) : Prop where
  increasing : h.issued.Pairwise (· < ·)
  session_stream : ∀ session_id after_seq,
    j.load_session_stream codec session_id after_seq none = .ok (h.after (some session_id) after_seq)
  global_stream : ∀ after_seq,
    j.load_global_stream codec after_seq none = .ok (h.after none after_seq)

/-! ## 4. What the tables hold -/

@[simp] theorem EventOrigin.from_as_str (origin : EventOrigin) : from_str origin.as_str = origin := by
  rcases origin with _ | _ | ⟨name, hlocal, hremote⟩
  · rfl
  · rfl
  · simp [from_str, as_str, hlocal, hremote]

/-- The row of an event. -/
def DurableEvent.row (codec : KindCodec κ) (e : DurableEvent κ) : JournalRow where
  event_id := e.event_id
  stream_seq := e.stream_seq
  session_id := e.session_id
  timestamp := e.timestamp
  origin := e.origin.as_str
  source_node := e.source_node
  kind := codec.tag e.kind
  payload_json := codec.to_json e.kind

theorem parse_row (codec : KindCodec κ) (e : DurableEvent κ) :
    EventJournal.parse_journal_row codec (e.row codec) = .ok e := by
  rw [EventJournal.parse_journal_row, DurableEvent.row, codec.from_to]
  simp

/-- **Inversion of an append**: an event under the next number, or an error and at most a
number lost. -/
theorem append_cases (codec : KindCodec κ) (j : EventJournal) (event : NewDurableEvent κ)
    (event_id : String) (timestamp : ℤ) (fault : Option AppendFault) :
    (∃ e : DurableEvent κ, e.stream_seq = j.next_seq ∧
      j.append_durable codec event event_id timestamp fault =
        (.ok e, ⟨j.rows ++ [e.row codec], j.next_seq + 1⟩)) ∨
    ∃ error next_seq, j.next_seq ≤ next_seq ∧
      j.append_durable codec event event_id timestamp fault = (.error error, ⟨j.rows, next_seq⟩) := by
  unfold EventJournal.append_durable
  by_cases hupdate : fault = some .Update
  · rw [if_pos hupdate]
    exact .inr ⟨_, _, le_rfl, rfl⟩
  · rw [if_neg hupdate]
    dsimp only
    by_cases hinsert : fault = some .Insert
    · rw [if_pos hinsert]
      exact .inr ⟨_, _, by omega, rfl⟩
    · rw [if_neg hinsert]
      by_cases hunique : event_id ∈ j.rows.map JournalRow.event_id
      · rw [if_pos hunique]
        exact .inr ⟨_, _, by omega, rfl⟩
      · rw [if_neg hunique]
        exact .inl ⟨_, rfl, rfl⟩

/-- **The invariant**: the rows are those of the surviving events, in the order of their
numbers, and every number given out is behind the next one. -/
structure Holds (codec : KindCodec κ) (p : EventJournal × History κ) : Prop where
  rows : p.1.rows = p.2.surviving.map (DurableEvent.row codec)
  increasing : p.2.issued.Pairwise (· < ·)
  issued : ∀ n ∈ p.2.issued, 0 < n ∧ n < p.1.next_seq
  ordered : p.2.surviving.Pairwise fun a b => a.stream_seq < b.stream_seq
  numbered : ∀ e ∈ p.2.surviving, e.stream_seq ∈ p.2.issued
  positive : 0 < p.1.next_seq

theorem holds_new (codec : KindCodec κ) : Holds codec (.new, ⟨[], []⟩) where
  rows := rfl
  increasing := List.Pairwise.nil
  issued n hn := by cases hn
  ordered := List.Pairwise.nil
  numbered e he := by cases he
  positive := Int.one_pos

theorem Holds.append {codec : KindCodec κ} {j : EventJournal} {h : History κ}
    (hholds : Holds codec (j, h)) (e : DurableEvent κ) (hseq : e.stream_seq = j.next_seq) :
    Holds codec (⟨j.rows ++ [e.row codec], j.next_seq + 1⟩,
      ⟨h.issued ++ [e.stream_seq], h.surviving ++ [e]⟩) := by
  have hpositive := hholds.positive
  have hissued := hholds.issued
  dsimp only at hpositive hissued
  refine ⟨?_, ?_, ?_, ?_, ?_, by dsimp only; omega⟩
  · rw [List.map_append, ← hholds.rows]
    rfl
  · rw [List.pairwise_append]
    refine ⟨hholds.increasing, List.pairwise_singleton _ _, ?_⟩
    intro n hn m hm
    rw [List.mem_singleton.1 hm, hseq]
    exact (hissued n hn).2
  · intro n hn
    dsimp only at hn ⊢
    rcases List.mem_append.1 hn with hn | hn
    · have hold := hissued n hn
      omega
    · rw [List.mem_singleton.1 hn, hseq]
      omega
  · rw [List.pairwise_append]
    refine ⟨hholds.ordered, List.pairwise_singleton _ _, ?_⟩
    intro a ha b hb
    rw [List.mem_singleton.1 hb, hseq]
    exact (hissued _ (hholds.numbered a ha)).2
  · intro e' he'
    rcases List.mem_append.1 he' with he' | he'
    · exact List.mem_append_left _ (hholds.numbered e' he')
    · rw [List.mem_singleton.1 he']
      exact List.mem_append_right _ (List.mem_singleton_self _)

/-- A number is lost when the row is not inserted. -/
theorem Holds.skip {codec : KindCodec κ} {j : EventJournal} {h : History κ}
    (hholds : Holds codec (j, h)) {next_seq : ℤ} (hle : j.next_seq ≤ next_seq) :
    Holds codec (⟨j.rows, next_seq⟩, h) := by
  have hpositive := hholds.positive
  refine ⟨hholds.rows, hholds.increasing, ?_, hholds.ordered, hholds.numbered, ?_⟩
  · intro n hn
    have hold := hholds.issued n hn
    dsimp only at hold ⊢
    omega
  · dsimp only at hpositive ⊢
    omega

theorem Holds.delete {codec : KindCodec κ} {j : EventJournal} {h : History κ}
    (hholds : Holds codec (j, h)) (session_id : String) (from_seq : ℤ) :
    Holds codec ((j.delete_session_events_from session_id from_seq).2,
      History.record codec j (.Delete session_id from_seq) h) := by
  refine ⟨?_, hholds.increasing, hholds.issued, ?_, ?_, hholds.positive⟩
  · have hrows : j.rows = h.surviving.map (DurableEvent.row codec) := hholds.rows
    show j.rows.filter _ = (h.surviving.filter _).map _
    rw [hrows, List.filter_map]
    rfl
  · exact hholds.ordered.sublist List.filter_sublist
  · exact fun e he => hholds.numbered e (List.mem_of_mem_filter he)

/-- **One step keeps the invariant.** -/
theorem Holds.step {codec : KindCodec κ} {p : EventJournal × History κ} (hholds : Holds codec p)
    (op : JournalOp κ) :
    Holds codec (instrument (Journal.step codec) (History.record codec) p op) := by
  obtain ⟨j, h⟩ := p
  cases op with
  | Append event event_id timestamp fault =>
      rcases append_cases codec j event event_id timestamp fault with
        ⟨e, hseq, heq⟩ | ⟨error, next_seq, hle, heq⟩
      · have happend := hholds.append e hseq
        simp only [instrument, Journal.step, History.record, heq]
        exact happend
      · have hskip := hholds.skip hle
        simp only [instrument, Journal.step, History.record, heq]
        exact hskip
  | Delete session_id from_seq => exact hholds.delete session_id from_seq

theorem holds_run (codec : KindCodec κ) (ops : List (JournalOp κ)) :
    Holds codec (journal_run codec ops) :=
  run_invariant (along_of_forall (P := fun _ _ => True) fun _ _ _ => trivial)
    (fun _ op hholds _ => hholds.step op) (holds_new codec)

/-! ## 5. Reading -/

theorem mapM_parse_rows (codec : KindCodec κ) (events : List (DurableEvent κ)) :
    (events.map (DurableEvent.row codec)).mapM (EventJournal.parse_journal_row codec) =
      .ok events := by
  induction events with
  | nil => rfl
  | cons e rest ih =>
      rw [List.map_cons, List.mapM_cons, parse_row, ih]
      rfl

/-- Rows that are in order already are cut at 10 000. -/
theorem order_limit_of_sorted {rows : List JournalRow}
    (hsorted : rows.Pairwise fun a b => a.stream_seq < b.stream_seq) :
    EventJournal.order_limit rows (EventJournal.as_i64 ((none : Option ℕ).getD 10000)) =
      rows.take 10000 := by
  have hle : rows.Pairwise fun a b => a.stream_seq ≤ b.stream_seq := hsorted.imp fun hlt => hlt.le
  have hlimit : EventJournal.as_i64 ((none : Option ℕ).getD 10000) = 10000 := by decide
  rw [EventJournal.order_limit, hlimit, hle.insertionSort_eq]
  rfl

section

variable {codec : KindCodec κ} {p : EventJournal × History κ}

/-- **A read without a limit** returns the first 10 000 of the events it selects. -/
theorem Holds.load (hholds : Holds codec p) {selects : JournalRow → Bool}
    {q : DurableEvent κ → Bool}
    (hselects : ∀ e ∈ p.2.surviving, selects (e.row codec) = q e) :
    (EventJournal.order_limit (p.1.rows.filter selects)
      (EventJournal.as_i64 ((none : Option ℕ).getD 10000))).mapM
        (EventJournal.parse_journal_row codec) = .ok ((p.2.surviving.filter q).take 10000) := by
  have hrows : p.1.rows.filter selects = (p.2.surviving.filter q).map (DurableEvent.row codec) := by
    rw [show p.1.rows = p.2.surviving.map (DurableEvent.row codec) from hholds.rows, List.filter_map]
    congr 1
    exact List.filter_congr hselects
  have hsorted : (p.1.rows.filter selects).Pairwise fun a b => a.stream_seq < b.stream_seq := by
    rw [hrows, List.pairwise_map]
    exact hholds.ordered.sublist List.filter_sublist
  rw [order_limit_of_sorted hsorted, hrows, ← List.map_take, mapM_parse_rows]

/-- Without a cursor the reads start after 0, and every number is positive. -/
theorem Holds.after_cursor (hholds : Holds codec p) {e : DurableEvent κ}
    (he : e ∈ p.2.surviving) (after_seq : Option ℤ) :
    decide (after_seq.getD 0 < e.stream_seq) =
      after_seq.all (fun after => decide (after < e.stream_seq)) := by
  rcases after_seq with _ | after
  · have hpositive := (hholds.issued _ (hholds.numbered e he)).1
    simpa using hpositive
  · simp

theorem Holds.load_session_stream (hholds : Holds codec p) (session_id : String)
    (after_seq : Option ℤ) :
    p.1.load_session_stream codec session_id after_seq none =
      .ok ((p.2.after (some session_id) after_seq).take 10000) := by
  refine hholds.load fun e he => ?_
  rw [← hholds.after_cursor he]
  rfl

theorem Holds.load_global_stream (hholds : Holds codec p) (after_seq : Option ℤ) :
    p.1.load_global_stream codec after_seq none = .ok ((p.2.after none after_seq).take 10000) := by
  refine hholds.load fun e he => ?_
  rw [← hholds.after_cursor he]
  rfl

theorem Holds.session_stream_iff (hholds : Holds codec p) (session_id : String)
    (after_seq : Option ℤ) :
    p.1.load_session_stream codec session_id after_seq none =
      .ok (p.2.after (some session_id) after_seq) ↔
      (p.2.after (some session_id) after_seq).length ≤ 10000 := by
  rw [hholds.load_session_stream, Except.ok.injEq, List.take_eq_self_iff]

theorem Holds.global_stream_iff (hholds : Holds codec p) (after_seq : Option ℤ) :
    p.1.load_global_stream codec after_seq none = .ok (p.2.after none after_seq) ↔
      (p.2.after none after_seq).length ≤ 10000 := by
  rw [hholds.load_global_stream, Except.ok.injEq, List.take_eq_self_iff]

/-- The whole journal can be read exactly when it has at most 10 000 events. -/
theorem Holds.replays_iff (hholds : Holds codec p) :
    Replays codec p.1 p.2 ↔ p.2.surviving.length ≤ 10000 := by
  constructor
  · intro hreplays
    have hall := (hholds.global_stream_iff none).1 (hreplays.global_stream none)
    have hafter : p.2.after none none = p.2.surviving := by simp [History.after]
    rw [hafter] at hall
    exact hall
  · intro hfew
    have hless : ∀ session_id after_seq, (p.2.after session_id after_seq).length ≤ 10000 :=
      fun _ _ => (List.length_filter_le _ _).trans hfew
    exact ⟨hholds.increasing, fun _ _ => (hholds.session_stream_iff _ _).2 (hless _ _),
      fun _ => (hholds.global_stream_iff _).2 (hless _ _)⟩

end

/-- **The journal replays what it holds, up to 10 000 events**: after every run the numbers
have grown, and each read without a limit is whole exactly when it selects at most
10 000 events. -/
theorem journal_replays_iff (codec : KindCodec κ) (ops : List (JournalOp κ)) :
    (journal_run codec ops).2.issued.Pairwise (· < ·) ∧
      (∀ session_id after_seq,
        (journal_run codec ops).1.load_session_stream codec session_id after_seq none =
          .ok ((journal_run codec ops).2.after (some session_id) after_seq) ↔
        ((journal_run codec ops).2.after (some session_id) after_seq).length ≤ 10000) ∧
      (∀ after_seq,
        (journal_run codec ops).1.load_global_stream codec after_seq none =
          .ok ((journal_run codec ops).2.after none after_seq) ↔
        ((journal_run codec ops).2.after none after_seq).length ≤ 10000) ∧
      (Replays codec (journal_run codec ops).1 (journal_run codec ops).2 ↔
        (journal_run codec ops).2.surviving.length ≤ 10000) := by
  have hholds := holds_run codec ops
  exact ⟨hholds.increasing, hholds.session_stream_iff, hholds.global_stream_iff,
    hholds.replays_iff⟩

/-- Appends under different ids are all there. -/
theorem surviving_appends (codec : KindCodec κ) (event : NewDurableEvent κ) (timestamp : ℤ)
    (ids : List String) (hids : ids.Nodup) :
    (journal_run codec (ids.map fun id => .Append event id timestamp none)).2.surviving.map
      DurableEvent.event_id = ids := by
  induction ids using List.reverseRecOn with
  | nil => rfl
  | append_singleton ids id ih =>
      rw [List.nodup_append] at hids
      have hrows := (holds_run codec (ids.map fun id => .Append event id timestamp none)).rows
      have hbefore := ih hids.1
      have hfresh : id ∉ (journal_run codec
          (ids.map fun id => .Append event id timestamp none)).1.rows.map JournalRow.event_id := by
        rw [hrows, List.map_map]
        intro hmem
        change id ∈ List.map DurableEvent.event_id _ at hmem
        rw [hbefore] at hmem
        exact hids.2.2 id hmem id (List.mem_singleton_self id) rfl
      have happend : ((journal_run codec (ids.map fun id =>
          .Append event id timestamp none)).1.append_durable codec event id timestamp none).1 =
          .ok ⟨id, (journal_run codec (ids.map fun id => .Append event id timestamp none)).1.next_seq,
            event.session_id, timestamp, event.origin, event.source_node, event.kind⟩ := by
        rw [EventJournal.append_durable, if_neg (by simp)]
        dsimp only
        rw [if_neg (by simp), if_neg hfresh]
      rw [List.map_append, journal_run, run_append]
      change (History.record codec (journal_run codec (ids.map fun id =>
        .Append event id timestamp none)).1 (.Append event id timestamp none)
          (journal_run codec (ids.map fun id => .Append event id timestamp none)).2).surviving.map
            DurableEvent.event_id = _
      simp only [History.record, happend, List.map_append, List.map_singleton, hbefore]

/-- The kind without data, as the journal writes it. -/
def session_created : KindCodec Unit where
  tag _ := "session_created"
  to_json _ := "\x7b\"type\":\"session_created\"\x7d"
  from_json _ := some ()
  from_to _ := rfl

/-- So many events of one session. -/
def many_events (n : ℕ) : List (JournalOp Unit) :=
  ((List.range n).map fun i => String.ofList (List.replicate i 'e')).map fun id =>
    .Append ⟨"s", .Local, none, ()⟩ id 0 none

theorem length_surviving_many (n : ℕ) :
    (journal_run session_created (many_events n)).2.surviving.length = n := by
  have hids : ((List.range n).map fun i => String.ofList (List.replicate i 'e')).Nodup := by
    apply List.Nodup.map _ List.nodup_range
    intro i i' heq
    have hlength := congrArg (fun s : String => s.toList.length) heq
    simpa using hlength
  have hall := congrArg List.length
    (surviving_appends session_created ⟨"s", .Local, none, ()⟩ 0 _ hids)
  rw [List.length_map, List.length_map, List.length_range] at hall
  exact hall

theorem replays_many_iff (n : ℕ) :
    Replays session_created (journal_run session_created (many_events n)).1
      (journal_run session_created (many_events n)).2 ↔ n ≤ 10000 := by
  rw [(holds_run session_created (many_events n)).replays_iff, length_surviving_many]

/-- 10 001 events of one session: the last one is not read. -/
theorem stream_cut_short :
    ¬ Replays session_created (journal_run session_created (many_events 10001)).1
      (journal_run session_created (many_events 10001)).2 := by
  rw [replays_many_iff]
  exact Nat.not_succ_le_self 10000

end Querymt.Journal
