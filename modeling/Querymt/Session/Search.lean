/-
`Session/Search.lean` -- the full-text index of the sessions.

Models the triggers on `sessions` of `schema.rs` (migration 9 creates the same ones), the
writes that fire them, the refresh in `create_intent_snapshot`, and `search_sessions` of
`view_store.rs`.

The index is contentless: what is to be deleted has to be supplied. The triggers supply
the row id alone, so they delete nothing. What a row once contained stays under its id
when the row is changed, when it is deleted, and when a later session is given its id.

The tokenizer and the ranking belong to SQLite. The order of the groups in the answer is
left out.
-/
import Querymt.Library.FullText
import Querymt.Library.Runs
import Querymt.Library.Strings
import Querymt.Library.Tables

set_option autoImplicit false

open FullText Runs Strings Tables

namespace Querymt.Search

/-! ## Tables -/

structure SessionRow where
  public_id : Str
  name : Option Str
  cwd : Option Str
  created_at : Option ℤ
  updated_at : Option ℤ
  parent_session_id : Option ℕ
  fork_origin : Option Str
  session_kind : Option Str
  deriving DecidableEq

structure SnapshotRow where
  session_id : ℕ
  summary : Str
  deriving DecidableEq

structure Db where
  sessions : Table SessionRow
  intent_snapshots : Table SnapshotRow
  sessions_fts : Index

def Db.empty : Db := ⟨.empty, .empty, .empty⟩

/-- `SELECT summary FROM intent_snapshots WHERE session_id = ? ORDER BY id ASC LIMIT 1`. -/
def Db.title (db : Db) (id : ℕ) : Option Str :=
  (db.intent_snapshots.rows.find? fun r => r.2.session_id = id).map fun r => r.2.summary

/-- The columns of the index for a row of `sessions`. -/
def Db.columns (db : Db) (id : ℕ) (new : SessionRow) : List Str :=
  [new.public_id, new.name.getD [], new.cwd.getD [], (db.title id).getD []]

section

variable (tokenize : Str → List Token)

/-! ## Triggers -/

/-- `INSERT INTO sessions_fts(rowid, public_id, name, cwd, title)`. -/
def Db.fts_insert (db : Db) (id : ℕ) (new : SessionRow) : Db :=
  { db with sessions_fts :=
      db.sessions_fts.insert id (row_postings ((db.columns id new).map tokenize)) }

/-- `INSERT INTO sessions_fts(sessions_fts, rowid, …) VALUES ('delete', …)`, with the
columns that are supplied. -/
def Db.fts_delete (db : Db) (id : ℕ) (columns : List Str) : Db :=
  { db with sessions_fts := db.sessions_fts.delete id (row_postings (columns.map tokenize)) }

/-- `AFTER INSERT ON sessions`. -/
def sessions_ai (db : Db) (id : ℕ) (new : SessionRow) : Db := db.fts_insert tokenize id new

/-- `AFTER UPDATE ON sessions`. -/
def sessions_au (db : Db) (id : ℕ) (new : SessionRow) : Db :=
  (db.fts_delete tokenize id []).fts_insert tokenize id new

/-- `AFTER DELETE ON sessions`. -/
def sessions_ad (db : Db) (id : ℕ) : Db := db.fts_delete tokenize id []

/-! ## Writes -/

/-- The parent of a row is stored. -/
def Db.ParentStored (db : Db) (new : SessionRow) : Prop :=
  ∀ parent, new.parent_session_id = some parent → parent ∈ db.sessions.rows.map Prod.fst

instance (db : Db) (new : SessionRow) : Decidable (db.ParentStored new) :=
  match h : new.parent_session_id with
  | none => .isTrue fun parent hp => by rw [h] at hp; cases hp
  | some parent =>
      decidable_of_iff (parent ∈ db.sessions.rows.map Prod.fst)
        ⟨fun hmem p hp => by rw [h] at hp; cases hp; exact hmem, fun hall => hall parent h⟩

/-- The constraints on a new row. -/
def Db.CanInsert (db : Db) (new : SessionRow) : Prop :=
  (∀ r ∈ db.sessions.rows, r.2.public_id ≠ new.public_id) ∧ db.ParentStored new

/-- The constraints on a row that is changed, which has to be there. -/
def Db.CanUpdate (db : Db) (id : ℕ) (new : SessionRow) : Prop :=
  id ∈ db.sessions.rows.map Prod.fst ∧
    (∀ r ∈ db.sessions.rows, r.1 ≠ id → r.2.public_id ≠ new.public_id) ∧ db.ParentStored new

instance (db : Db) (new : SessionRow) : Decidable (db.CanInsert new) :=
  inferInstanceAs (Decidable (_ ∧ _))

instance (db : Db) (id : ℕ) (new : SessionRow) : Decidable (db.CanUpdate id new) :=
  inferInstanceAs (Decidable (_ ∧ _ ∧ _))

/-- `INSERT INTO sessions`; without effect where a constraint is violated. -/
def insert_session (db : Db) (new : SessionRow) : Db :=
  if db.CanInsert new then
    sessions_ai tokenize { db with sessions := db.sessions.insert new } db.sessions.next_key new
  else db

/-- The table with the row of one session replaced. -/
def Db.with_row (db : Db) (id : ℕ) (new : SessionRow) : Db :=
  { db with sessions :=
    { rows := db.sessions.rows.map fun r => if r.1 = id then (id, new) else r
      sorted := by
        have hkeys : (db.sessions.rows.map fun r => if r.1 = id then (id, new) else r).map
            Prod.fst = db.sessions.rows.map Prod.fst := by
          rw [List.map_map]
          refine List.map_congr_left fun r _ => ?_
          rw [Function.comp_apply]
          split
          · next h => exact h.symm
          · rfl
        rw [hkeys]
        exact db.sessions.sorted } }

/-- `UPDATE sessions SET … WHERE id = ?`; without effect where no row is updated or a
constraint is violated. -/
def update_session (db : Db) (id : ℕ) (new : SessionRow) : Db :=
  if db.CanUpdate id new then sessions_au tokenize (db.with_row id new) id new
  else db

/-- `ON DELETE SET NULL`: the rows of the children are updated. -/
def orphan (id : ℕ) (row : SessionRow) : SessionRow :=
  if row.parent_session_id = some id then { row with parent_session_id := none } else row

/-- `DELETE FROM sessions WHERE public_id = ?`, with what the foreign keys do. -/
def delete_session (db : Db) (public_id : Str) : Db :=
  match db.sessions.rows.find? fun r => r.2.public_id = public_id with
  | none => db
  | some old =>
      let kept := db.sessions.filter fun r => r.1 ≠ old.1
      let children := kept.rows.filter fun r => r.2.parent_session_id = some old.1
      let db' : Db :=
        { sessions := kept.map (orphan old.1)
          intent_snapshots := db.intent_snapshots.filter fun r => r.2.session_id ≠ old.1
          sessions_fts := db.sessions_fts }
      sessions_ad tokenize
        (children.foldl (fun db r => sessions_au tokenize db r.1 (orphan old.1 r.2)) db') old.1

/-- `create_intent_snapshot`: the row of the index is refreshed. -/
def create_intent_snapshot (db : Db) (snapshot : SnapshotRow) : Db :=
  match db.sessions.rows.find? fun r => r.1 = snapshot.session_id with
  | none => db
  | some r =>
      let db := { db with intent_snapshots := db.intent_snapshots.insert snapshot }
      (db.fts_delete tokenize r.1 []).fts_insert tokenize r.1 r.2

inductive Write
  | InsertSession (new : SessionRow)
  | UpdateSession (id : ℕ) (new : SessionRow)
  | DeleteSession (public_id : Str)
  | CreateIntentSnapshot (snapshot : SnapshotRow)

def step (db : Db) : Write → Db
  | .InsertSession new => insert_session tokenize db new
  | .UpdateSession id new => update_session tokenize db id new
  | .DeleteSession public_id => delete_session tokenize db public_id
  | .CreateIntentSnapshot snapshot => create_intent_snapshot tokenize db snapshot

/-- `migration_0009_sessions_browse_and_search_indexes`: a new index, filled from the
sessions. -/
def migration_0009 (db : Db) : Db :=
  db.sessions.rows.foldl (fun db r => db.fts_insert tokenize r.1 r.2)
    { db with sessions_fts := .empty }

/-! ## Searching -/

inductive SessionScope
  | All
  | Root
  | Forks
  | Delegates
  | Children
  deriving DecidableEq

/-- `session_scope_where`. -/
def session_scope_where (scope : SessionScope) (s : SessionRow) : Bool :=
  match scope with
  | .All => true
  | .Root => s.parent_session_id.isNone
  | .Forks => s.parent_session_id.isSome && decide (s.fork_origin = some "user".toList)
  | .Children => s.parent_session_id.isSome
  | .Delegates => s.parent_session_id.isSome && decide (s.fork_origin = some "delegation".toList)

/-- `build_session_fts_query`: the terms of the query, each of which is written in quotes
with a star behind it. -/
def build_session_fts_query (input : Str) : List Str :=
  ((split_whitespace input).map (replace ['"'] [])).filter (· ≠ [])

/-- `sessions_fts MATCH`: all terms, each as a phrase. -/
def Db.fts_match (db : Db) (terms : List Str) (id : ℕ) : Bool :=
  terms.all fun term => phrase_matches (db.sessions_fts.row id) (tokenize term)

/-- `FROM sessions_fts f JOIN sessions s ON s.id = f.rowid WHERE sessions_fts MATCH …`. -/
def Db.matched (db : Db) (terms : List Str) (scope : SessionScope) : List (ℕ × SessionRow) :=
  db.sessions.rows.filter fun r =>
    db.fts_match tokenize terms r.1 && session_scope_where scope r.2

structure SessionListItem where
  session_id : Str
  name : Option Str
  cwd : Option Str
  title : Option Str
  created_at : Option ℤ
  updated_at : Option ℤ
  parent_session_id : Option Str
  fork_origin : Option Str
  session_kind : Option Str
  has_children : Bool
  fork_count : ℕ
  deriving DecidableEq

/-- As many characters as fit. -/
def take_bytes : ℕ → Str → Str
  | _, [] => []
  | n, c :: s => if c.utf8Size ≤ n then c :: take_bytes (n - c.utf8Size) s else []

/-- `truncate_with_ellipsis(&summary, 80)`. -/
def truncate_title (summary : Str) : Str :=
  if byte_len summary ≤ 80 then summary else take_bytes 77 summary ++ "...".toList

/-- `map_session_list_item_row`. -/
def Db.list_item (db : Db) (r : ℕ × SessionRow) : SessionListItem :=
  let fork_count := (db.sessions.rows.filter fun c =>
    c.2.parent_session_id = some r.1 ∧ c.2.fork_origin = some "user".toList).length
  { session_id := r.2.public_id
    name := r.2.name
    cwd := r.2.cwd
    title := (db.title r.1).map truncate_title
    created_at := r.2.created_at
    updated_at := r.2.updated_at
    parent_session_id := (r.2.parent_session_id.bind fun parent =>
      db.sessions.rows.find? fun p => p.1 = parent).map fun p => p.2.public_id
    fork_origin := r.2.fork_origin
    session_kind := r.2.session_kind
    has_children := decide (0 < fork_count)
    fork_count := fork_count }

structure SessionGroup where
  cwd : Option Str
  sessions : List SessionListItem
  latest_activity : Option ℤ
  total_count : Option ℕ
  next_cursor : Option Str
  deriving DecidableEq

/-- `by_cwd.entry(item.cwd.clone()).or_default().push(item)`. -/
def push_item (by_cwd : List (Option Str × List SessionListItem)) (item : SessionListItem) :
    List (Option Str × List SessionListItem) :=
  match by_cwd with
  | [] => [(item.cwd, [item])]
  | entry :: rest =>
      if entry.1 = item.cwd then (entry.1, entry.2 ++ [item]) :: rest
      else entry :: push_item rest item

structure Found where
  groups : List SessionGroup
  next_cursor : Option ℕ
  total_count : ℕ
  deriving DecidableEq

/-- `cursor` is the number that the text of the cursor stands for, `order` is
`ORDER BY bm25(sessions_fts), s.updated_at DESC`. -/
def search_sessions (order : List (ℕ × SessionRow) → List (ℕ × SessionRow)) (db : Db)
    (query : Str) (cursor : Option ℕ) (limit : ℕ) (scope : SessionScope) : Found :=
  let offset := cursor.getD 0
  let limit := max 1 (min limit 200)
  let terms := build_session_fts_query query
  if terms = [] then ⟨[], none, 0⟩
  else
    let found := db.matched tokenize terms scope
    let items := (((order found).drop offset).take limit).map db.list_item
    let groups := (items.foldl push_item []).map fun entry =>
      let group_count := (found.filter fun r => r.2.cwd = entry.1).length
      { cwd := entry.1
        sessions := entry.2
        latest_activity := (entry.2.filterMap fun s => s.updated_at).max?
        total_count := some (if group_count = 0 then entry.2.length else group_count)
        next_cursor := none : SessionGroup }
    { groups := groups
      next_cursor := if offset + limit < found.length then some (offset + limit) else none
      total_count := found.length }

/-! ## What the index says of a row -/

/-- The tokens of a session: of its public id, its name, its directory and its title. -/
def Db.tokens (db : Db) (id : ℕ) (new : SessionRow) : List Token :=
  row_tokens ((db.columns id new).map tokenize)

/-- What a session contains is in the index. -/
def Indexed (db : Db) (id : ℕ) (new : SessionRow) : Prop :=
  ∀ p ∈ row_postings ((db.columns id new).map tokenize), p ∈ db.sessions_fts.row id

/-- What the index holds under a row id, the session contains, or something that begins with
it. -/
def Fresh (db : Db) (id : ℕ) (new : SessionRow) : Prop :=
  ∀ p ∈ db.sessions_fts.row id, ∃ t ∈ db.tokens tokenize id new, p.token <+: t

/-- Of every session the index says what it contains. -/
def Mirrored (db : Db) : Prop :=
  ∀ r ∈ db.sessions.rows, Indexed tokenize db r.1 r.2 ∧ Fresh tokenize db r.1 r.2

/-- A write that puts new contents under a row id: what the index holds there already is
also in the new contents. -/
def KeepsFresh (db : Db) : Write → Prop
  | .InsertSession new => db.CanInsert new → Fresh tokenize db db.sessions.next_key new
  | .UpdateSession id new => db.CanUpdate id new → Fresh tokenize db id new
  | .DeleteSession _ => True
  | .CreateIntentSnapshot snapshot => ∀ r ∈ db.sessions.rows, r.1 = snapshot.session_id →
      Fresh tokenize { db with intent_snapshots := db.intent_snapshots.insert snapshot } r.1 r.2

variable {tokenize} {db : Db} {id : ℕ} {new : SessionRow}

/-- Nothing is supplied, nothing is deleted. -/
theorem fts_delete_nil (db : Db) (id : ℕ) : db.fts_delete tokenize id [] = db := by
  unfold Db.fts_delete
  rw [List.map_nil, show row_postings [] = [] from rfl, Index.delete_nil]

theorem sessions_au_eq (db : Db) (id : ℕ) (new : SessionRow) :
    sessions_au tokenize db id new = db.fts_insert tokenize id new := by
  unfold sessions_au
  rw [fts_delete_nil]

theorem sessions_ad_eq (db : Db) (id : ℕ) : sessions_ad tokenize db id = db := fts_delete_nil db id

theorem mem_fts_insert {p : Posting} {k : ℕ} :
    p ∈ (db.fts_insert tokenize id new).sessions_fts.row k ↔ p ∈ db.sessions_fts.row k ∨
      (k = id ∧ p ∈ row_postings ((db.columns id new).map tokenize)) :=
  Index.mem_row_insert

/-- The row of one session is written: it has to be fresh, the others stay as they are. -/
theorem mirrored_fts_insert (hrow : ∀ r ∈ db.sessions.rows, r.1 = id → r.2 = new)
    (hothers : ∀ r ∈ db.sessions.rows, r.1 ≠ id →
      Indexed tokenize db r.1 r.2 ∧ Fresh tokenize db r.1 r.2)
    (hfresh : Fresh tokenize db id new) : Mirrored tokenize (db.fts_insert tokenize id new) := by
  intro r hr
  have hr' : r ∈ db.sessions.rows := hr
  by_cases hid : r.1 = id
  · have hnew := hrow r hr' hid
    subst hid
    subst hnew
    refine ⟨fun p hp => mem_fts_insert.2 (.inr ⟨rfl, hp⟩), fun p hp => ?_⟩
    obtain hold | ⟨-, hthis⟩ := mem_fts_insert.1 hp
    · exact hfresh p hold
    · exact ⟨p.token, mem_row_tokens.2 ⟨p, hthis, rfl⟩, List.prefix_rfl⟩
  · obtain ⟨hindexed, hold⟩ := hothers r hr' hid
    refine ⟨fun p hp => mem_fts_insert.2 (.inl (hindexed p hp)), fun p hp => ?_⟩
    obtain hin | ⟨heq, -⟩ := mem_fts_insert.1 hp
    · exact hold p hin
    · exact absurd heq hid

/-- Writing a row again changes nothing that matters. -/
theorem Mirrored.refresh (h : Mirrored tokenize db) (hr : (id, new) ∈ db.sessions.rows) :
    Mirrored tokenize (db.fts_insert tokenize id new) := by
  refine mirrored_fts_insert (fun r hr' hid => ?_) (fun r hr' _ => h r hr') (h (id, new) hr).2
  rw [db.sessions.row_unique hr' hr hid]

/-! ## The writes -/

theorem Mirrored.insert_session (h : Mirrored tokenize db)
    (hfresh : KeepsFresh tokenize db (.InsertSession new)) :
    Mirrored tokenize (insert_session tokenize db new) := by
  unfold Search.insert_session
  split
  · next hcan =>
    refine mirrored_fts_insert (fun r hr hid => ?_) (fun r hr hid => ?_) (hfresh hcan)
    · obtain hold | hnew := List.mem_append.1 hr
      · have := db.sessions.lt_next_key hold
        omega
      · rw [List.mem_singleton.1 hnew]
    · obtain hold | hnew := List.mem_append.1 hr
      · exact h r hold
      · rw [List.mem_singleton.1 hnew] at hid
        exact absurd rfl hid
  · exact h

theorem Mirrored.update_session (h : Mirrored tokenize db)
    (hfresh : KeepsFresh tokenize db (.UpdateSession id new)) :
    Mirrored tokenize (update_session tokenize db id new) := by
  unfold Search.update_session
  split
  · next hcan =>
    rw [sessions_au_eq]
    refine mirrored_fts_insert (fun r hr hid => ?_) (fun r hr hid => ?_) (hfresh hcan)
    · obtain ⟨r', hr', rfl⟩ := List.mem_map.1 hr
      by_cases hid' : r'.1 = id
      · rw [if_pos hid']
      · rw [if_neg hid'] at hid
        exact absurd hid hid'
    · obtain ⟨r', hr', rfl⟩ := List.mem_map.1 hr
      by_cases hid' : r'.1 = id
      · rw [if_pos hid'] at hid
        exact absurd rfl hid
      · rw [if_neg hid']
        exact h r' hr'
  · exact h

theorem title_insert (db : Db) {snapshot : SnapshotRow} (hid : id ≠ snapshot.session_id) :
    Db.title { db with intent_snapshots := db.intent_snapshots.insert snapshot } id =
      db.title id := by
  unfold Db.title
  rw [Table.rows_insert, List.find?_append, List.find?_singleton, if_neg, Option.or_none]
  simpa using fun heq => hid heq.symm

theorem title_filter (db : Db) {old : ℕ} (hid : id ≠ old) :
    Db.title { db with intent_snapshots :=
      db.intent_snapshots.filter fun r => r.2.session_id ≠ old } id = db.title id := by
  unfold Db.title
  rw [Table.rows_filter, List.find?_filter]
  congr 2
  funext r
  by_cases hr : r.2.session_id = id
  · simp [hr, hid]
  · simp [hr]

theorem Mirrored.create_intent_snapshot {snapshot : SnapshotRow} (h : Mirrored tokenize db)
    (hfresh : KeepsFresh tokenize db (.CreateIntentSnapshot snapshot)) :
    Mirrored tokenize (create_intent_snapshot tokenize db snapshot) := by
  unfold Search.create_intent_snapshot
  split
  · exact h
  · next r hfind =>
    have hr := List.mem_of_find?_eq_some hfind
    have hid : r.1 = snapshot.session_id := by simpa using List.find?_some hfind
    dsimp only
    rw [fts_delete_nil]
    refine mirrored_fts_insert (fun r' hr' heq => ?_) (fun r' hr' hne => ?_) (hfresh r hr hid)
    · rw [db.sessions.row_unique hr' hr heq]
    · -- the title of another session is the one it had
      have hne' : r'.1 ≠ snapshot.session_id := hid ▸ hne
      have htitle := title_insert db hne'
      unfold Indexed Fresh Db.tokens Db.columns
      rw [htitle]
      exact h r' hr'

/-- The rows of children are written again, after they changed in nothing that is indexed. -/
theorem Mirrored.refresh_all {f : SessionRow → SessionRow} {rs : List (ℕ × SessionRow)}
    (h : Mirrored tokenize db) (hrs : ∀ r ∈ rs, (r.1, f r.2) ∈ db.sessions.rows) :
    Mirrored tokenize (rs.foldl (fun db r => sessions_au tokenize db r.1 (f r.2)) db) := by
  induction rs generalizing db with
  | nil => exact h
  | cons r rs ih =>
      obtain ⟨hr, hrest⟩ := List.forall_mem_cons.1 hrs
      rw [List.foldl_cons, sessions_au_eq]
      exact ih (h.refresh hr) hrest

theorem columns_orphan (db : Db) (id old : ℕ) (row : SessionRow) :
    db.columns id (orphan old row) = db.columns id row := by
  unfold orphan
  split <;> rfl

theorem Mirrored.delete_session {public_id : Str} (h : Mirrored tokenize db) :
    Mirrored tokenize (delete_session tokenize db public_id) := by
  unfold Search.delete_session
  split
  · exact h
  · next old hfind =>
    dsimp only
    rw [sessions_ad_eq]
    refine Mirrored.refresh_all ?_ fun r hr => ?_
    · -- what is left is as it was: the snapshots that go are those of the deleted session
      intro r hr
      obtain ⟨r', hr', rfl⟩ := List.mem_map.1 hr
      obtain ⟨hmem, hne⟩ := List.mem_filter.1 hr'
      have hne' : r'.1 ≠ old.1 := by simpa using hne
      have htitle := title_filter db hne'
      unfold Indexed Fresh Db.tokens
      rw [columns_orphan]
      unfold Db.columns
      have htitle' : Db.title ⟨(db.sessions.filter fun r => r.1 ≠ old.1).map (orphan old.1),
          db.intent_snapshots.filter fun r => r.2.session_id ≠ old.1, db.sessions_fts⟩ r'.1 =
          db.title r'.1 := htitle
      rw [htitle']
      exact h r' hmem
    · obtain ⟨hmem, -⟩ := List.mem_filter.1 hr
      exact List.mem_map.2 ⟨r, hmem, rfl⟩

theorem Mirrored.step {w : Write} (h : Mirrored tokenize db) (hfresh : KeepsFresh tokenize db w) :
    Mirrored tokenize (step tokenize db w) := by
  cases w with
  | InsertSession new => exact h.insert_session hfresh
  | UpdateSession id new => exact h.update_session hfresh
  | DeleteSession public_id => exact h.delete_session
  | CreateIntentSnapshot snapshot => exact h.create_intent_snapshot hfresh

/-- Where the index mirrors the sessions after a write, the write kept it fresh. -/
theorem keepsFresh_of_mirrored {w : Write} (h : Mirrored tokenize (Search.step tokenize db w)) :
    KeepsFresh tokenize db w := by
  -- what is held before the write is still held after it, and there it is fresh
  cases w with
  | InsertSession new =>
      intro hcan p hp
      rw [Search.step, Search.insert_session, if_pos hcan] at h
      have hrow : (db.sessions.next_key, new) ∈ (db.sessions.insert new).rows :=
        List.mem_append_right _ (List.mem_singleton_self _)
      exact (h _ hrow).2 p (mem_fts_insert.2 (.inl hp))
  | UpdateSession id new =>
      intro hcan p hp
      rw [Search.step, Search.update_session, if_pos hcan, sessions_au_eq] at h
      obtain ⟨r, hr, hid⟩ := List.mem_map.1 hcan.1
      have hrow : (id, new) ∈ (db.with_row id new).sessions.rows :=
        List.mem_map.2 ⟨r, hr, if_pos hid⟩
      exact (h _ hrow).2 p (mem_fts_insert.2 (.inl hp))
  | DeleteSession public_id => trivial
  | CreateIntentSnapshot snapshot =>
      intro r hr hid p hp
      rw [Search.step, Search.create_intent_snapshot] at h
      split at h
      · next hnone =>
        have := List.find?_eq_none.1 hnone r hr
        exact absurd hid (by simpa using this)
      · next r' hfind =>
        have hid' : r'.1 = snapshot.session_id := by simpa using List.find?_some hfind
        obtain rfl := db.sessions.row_unique hr (List.mem_of_find?_eq_some hfind)
          (hid.trans hid'.symm)
        dsimp only at h
        rw [fts_delete_nil] at h
        exact (h r hr).2 p (mem_fts_insert.2 (.inl hp))

/-- A new index says of every session what it contains. -/
theorem mirrored_migration (tokenize : Str → List Token) (db : Db) :
    Mirrored tokenize (migration_0009 tokenize db) := by
  -- the loop changes the index only, and puts in the postings of every row
  have hfold : ∀ (rs : List (ℕ × SessionRow)) (d : Db),
      d.sessions = db.sessions → d.intent_snapshots = db.intent_snapshots →
      (rs.foldl (fun d r => d.fts_insert tokenize r.1 r.2) d).sessions = db.sessions ∧
      (rs.foldl (fun d r => d.fts_insert tokenize r.1 r.2) d).intent_snapshots =
        db.intent_snapshots ∧
      ∀ k p, p ∈ (rs.foldl (fun d r => d.fts_insert tokenize r.1 r.2) d).sessions_fts.row k ↔
        p ∈ d.sessions_fts.row k ∨
          ∃ r ∈ rs, k = r.1 ∧ p ∈ row_postings ((db.columns r.1 r.2).map tokenize) := by
    intro rs
    induction rs with
    | nil =>
        intro d hsessions hsnapshots
        exact ⟨hsessions, hsnapshots, fun k p => by simp⟩
    | cons r rs ih =>
        intro d hsessions hsnapshots
        obtain ⟨h₁, h₂, h₃⟩ := ih (d.fts_insert tokenize r.1 r.2) hsessions hsnapshots
        have hcolumns : d.columns r.1 r.2 = db.columns r.1 r.2 := by
          unfold Db.columns Db.title
          rw [hsnapshots]
        refine ⟨h₁, h₂, fun k p => ?_⟩
        rw [List.foldl_cons, h₃, mem_fts_insert, hcolumns, List.exists_mem_cons_iff, or_assoc]
  obtain ⟨hsessions, hsnapshots, hrow⟩ :=
    hfold db.sessions.rows { db with sessions_fts := .empty } rfl rfl
  have hcolumns : ∀ id new, (migration_0009 tokenize db).columns id new = db.columns id new := by
    intro id new
    unfold Db.columns Db.title migration_0009
    rw [hsnapshots]
  intro r hr
  have hr' : r ∈ db.sessions.rows := hsessions ▸ hr
  unfold Indexed Fresh Db.tokens
  rw [hcolumns]
  refine ⟨fun p hp => (hrow r.1 p).2 (.inr ⟨r, hr', rfl, hp⟩), fun p hp => ?_⟩
  obtain hempty | ⟨r', hr'', heq, hp'⟩ := (hrow r.1 p).1 hp
  · exact absurd hempty Index.mem_row_empty
  · obtain rfl := db.sessions.row_unique hr' hr'' heq
    exact ⟨p.token, mem_row_tokens.2 ⟨p, hp', rfl⟩, List.prefix_rfl⟩

/-! ## What a search returns -/

/-- The sessions in the scope that contain a token with the prefix. -/
def Db.containing (tokenize : Str → List Token) (db : Db) (q : Token) (scope : SessionScope) :
    List (ℕ × SessionRow) :=
  db.sessions.rows.filter fun r =>
    (db.tokens tokenize r.1 r.2).any (fun t => q <+: t) && session_scope_where scope r.2

theorem Mirrored.matched {term : Str} {q : Token} (h : Mirrored tokenize db)
    (hterm : tokenize term = [q]) (scope : SessionScope) :
    db.matched tokenize [term] scope = db.containing tokenize q scope := by
  refine List.filter_congr fun r hr => ?_
  obtain ⟨hindexed, hfresh⟩ := h r hr
  congr 1
  unfold Db.fts_match
  rw [List.all_cons, List.all_nil, Bool.and_true, hterm, Bool.eq_iff_iff, phrase_matches_singleton,
    List.any_eq_true]
  simp only [decide_eq_true_iff]
  constructor
  · rintro ⟨p, hp, hq⟩
    obtain ⟨t, ht, hpt⟩ := hfresh p hp
    exact ⟨t, ht, hq.trans hpt⟩
  · rintro ⟨t, ht, hq⟩
    obtain ⟨p, hp, rfl⟩ := mem_row_tokens.1 ht
    exact ⟨p, hindexed p hp, hq⟩

theorem push_item_perm (by_cwd : List (Option Str × List SessionListItem)) (item : SessionListItem) :
    ((push_item by_cwd item).flatMap Prod.snd).Perm (by_cwd.flatMap Prod.snd ++ [item]) := by
  induction by_cwd with
  | nil => exact List.Perm.refl _
  | cons entry rest ih =>
      rw [push_item]
      split
      · rw [List.flatMap_cons, List.flatMap_cons, List.append_assoc, List.append_assoc]
        exact (List.perm_append_comm).append_left entry.2
      · rw [List.flatMap_cons, List.flatMap_cons, List.append_assoc]
        exact ih.append_left entry.2

/-- Grouping the items loses none and repeats none. -/
theorem foldl_push_item_perm (items : List SessionListItem)
    (by_cwd : List (Option Str × List SessionListItem)) :
    ((items.foldl push_item by_cwd).flatMap Prod.snd).Perm
      (by_cwd.flatMap Prod.snd ++ items) := by
  induction items generalizing by_cwd with
  | nil => rw [List.append_nil]; exact List.Perm.refl _
  | cons item items ih =>
      rw [List.foldl_cons]
      refine (ih _).trans ?_
      have := (push_item_perm by_cwd item).append_right items
      rwa [List.append_assoc] at this

end

/-- A page of what matches, each session once. -/
theorem search_sessions_spec (tokenize : Str → List Token)
    (order : List (ℕ × SessionRow) → List (ℕ × SessionRow)) (db : Db)
    {query : Str} {terms : List Str} (hterms : build_session_fts_query query = terms)
    (hne : terms ≠ []) (cursor : Option ℕ) (limit : ℕ) (scope : SessionScope) :
    (search_sessions tokenize order db query cursor limit scope).total_count =
        (db.matched tokenize terms scope).length ∧
      ((search_sessions tokenize order db query cursor limit scope).groups.flatMap
        fun g => g.sessions).Perm
        ((((order (db.matched tokenize terms scope)).drop (cursor.getD 0)).take
          (max 1 (min limit 200))).map db.list_item) := by
  unfold search_sessions
  dsimp only
  rw [hterms, if_neg hne]
  refine ⟨rfl, ?_⟩
  rw [List.flatMap_map]
  exact foldl_push_item_perm _ []

/-! ## Every run -/

/-- The index mirrors the sessions in every state of a run exactly if every write keeps it
fresh: nothing that it holds is ever deleted. -/
theorem mirrored_run_iff (tokenize : Str → List Token) (start : Db) (ws : List Write) :
    (∀ db ∈ trace (step tokenize) (migration_0009 tokenize start) ws, Mirrored tokenize db) ↔
      Along (step tokenize) (KeepsFresh tokenize) (migration_0009 tokenize start) ws := by
  have hstart := mirrored_migration tokenize start
  rw [forall_trace_iff, and_iff_right hstart]
  refine along_iff_of_invariant (fun db w h => ?_) (fun _ _ _ h => h) hstart
  exact ⟨keepsFresh_of_mirrored, h.step⟩

/-- In every state of a run whose writes keep the index fresh, a search for a term finds the
sessions that contain a token with that prefix, each once. -/
theorem search_finds_current (tokenize : Str → List Token)
    (order : List (ℕ × SessionRow) → List (ℕ × SessionRow)) (horder : ∀ rows, (order rows).Perm rows)
    (start : Db) (ws : List Write)
    (hfresh : Along (step tokenize) (KeepsFresh tokenize) (migration_0009 tokenize start) ws) :
    ∀ db ∈ trace (step tokenize) (migration_0009 tokenize start) ws,
      ∀ (query term : Str) (q : Token), build_session_fts_query query = [term] →
        tokenize term = [q] → ∀ (cursor : Option ℕ) (limit : ℕ) (scope : SessionScope),
        ∃ found : List (ℕ × SessionRow), found.Perm (db.containing tokenize q scope) ∧
          (search_sessions tokenize order db query cursor limit scope).total_count =
            found.length ∧
          ((search_sessions tokenize order db query cursor limit scope).groups.flatMap
            fun g => g.sessions).Perm
            (((found.drop (cursor.getD 0)).take (max 1 (min limit 200))).map db.list_item) := by
  intro db hdb query term q hquery hterm cursor limit scope
  have hmirrored : Mirrored tokenize db := (mirrored_run_iff tokenize start ws).2 hfresh db hdb
  obtain ⟨htotal, hgroups⟩ := search_sessions_spec tokenize order db hquery
    (List.cons_ne_nil _ _) cursor limit scope
  rw [hmirrored.matched hterm] at htotal hgroups
  refine ⟨order (db.containing tokenize q scope), horder _, ?_, hgroups⟩
  rw [htotal, (horder _).length_eq]

/-- A session with a name, and else with nothing to be found. -/
def named (public_id name : String) : SessionRow :=
  { public_id := public_id.toList
    name := some name.toList
    cwd := none
    created_at := none
    updated_at := none
    parent_session_id := none
    fork_origin := none
    session_kind := none }

/-- A session is deleted, and the next one is given its row id. -/
def reused_id : List Write :=
  [.InsertSession (named "s1" "alpha"), .DeleteSession "s1".toList,
    .InsertSession (named "s2" "beta")]

def renamed : List Write :=
  [.InsertSession (named "s1" "alpha"), .UpdateSession 1 (named "s1" "beta")]

/-- The old name is found, under a session that does not contain it. -/
theorem old_name_found :
    ((search_sessions split_whitespace id (run (step split_whitespace) .empty reused_id)
          "alpha".toList none 10 .All).total_count = 1 ∧
      (run (step split_whitespace) .empty reused_id).containing split_whitespace "alpha".toList
        .All = []) ∧
    (search_sessions split_whitespace id (run (step split_whitespace) .empty renamed)
          "alpha".toList none 10 .All).total_count = 1 ∧
      (run (step split_whitespace) .empty renamed).containing split_whitespace "alpha".toList
        .All = [] :=
  ⟨⟨rfl, rfl⟩, rfl, rfl⟩

/-- A session is given a longer name, and another one comes and goes. -/
def lengthened : List Write :=
  [.InsertSession (named "s1" "alpha"), .InsertSession (named "s2" "beta"),
    .UpdateSession 1 (named "s1" "alpha one"), .DeleteSession "s2".toList]

theorem search_finds_named :
    let db := run (step split_whitespace) (migration_0009 split_whitespace .empty) lengthened
    ∃ found : List (ℕ × SessionRow),
      found.Perm (db.containing split_whitespace "al".toList .All) ∧
      (search_sessions split_whitespace id db "al".toList none 10 .All).total_count =
        found.length ∧
      ((search_sessions split_whitespace id db "al".toList none 10 .All).groups.flatMap
        fun g => g.sessions).Perm (((found.drop 0).take 10).map db.list_item) := by
  refine search_finds_current split_whitespace id (fun rows => List.Perm.refl rows) .empty
    lengthened ⟨fun _ => ?_, fun _ => ?_, fun _ => ?_, trivial, trivial⟩ _ (run_mem_trace _ _)
    "al".toList "al".toList "al".toList rfl rfl none 10 .All
  · exact fun _ hp => absurd hp Index.mem_row_empty
  · unfold Fresh
    decide +kernel
  · -- the old name begins the new one
    unfold Fresh
    decide +kernel

end Querymt.Search
