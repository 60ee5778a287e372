/-
`Session/ListView.lean` -- the list of the sessions, grouped by directory.

Mirrors `get_session_list_view`, `evaluate_session_filter` and `evaluate_predicate`
(`session/sqlite_storage/view_store.rs`). The rows are filtered and cut first; what is left
is put in order under its parents, and only what a root leads to is listed.

# What a limit changes

A limit without a filter and an offset goes into the query. Then the rows behind it are
neither counted nor known as parents.

# What the order changes

A session is listed when all its ancestors are kept as well. A fork whose parent the filter
or the cut has taken away is not (`complete_iff`).
-/
import Querymt.Library.Forests
import Querymt.Library.HashMaps
import Querymt.Library.Strings
import Querymt.Library.Tables
import Querymt.Session.Search

set_option autoImplicit false

open Strings HashMaps Tables

namespace Querymt.ListView

open Querymt.Search (truncate_title)

/-! ## 1. The tables -/

structure SessionRow where
  id : ℕ
  public_id : Str
  name : Option Str
  cwd : Option Str
  created_at : Str
  updated_at : Str
  parent_session_id : Option ℕ
  fork_origin : Option Str
  session_kind : Option Str
  deriving DecidableEq

structure IntentSnapshotRow where
  id : ℕ
  session_id : ℕ
  summary : Str

structure TaskRow where
  session_id : ℕ
  kind : Str

/-- The tables that the view reads. The parents are sessions, as the foreign key has it, and
no session is its own ancestor. -/
structure Database where
  sessions : List SessionRow
  intent_snapshots : List IntentSnapshotRow
  tasks : List TaskRow
  ids : (sessions.map SessionRow.id).Nodup
  public_ids : (sessions.map SessionRow.public_id).Nodup
  forest : ∀ s ∈ sessions, Forests.Rooted SessionRow.id SessionRow.parent_session_id sessions s

/-- `OffsetDateTime`: how it is read and written, and its instant, which is what is compared. -/
structure OffsetDateTime (τ : Type) where
  parse : Str → Option τ
  format : τ → Str
  instant : τ → ℤ

/-! ## 2. Filters -/

/-- `serde_json::Value`; a value that is no text is given by its JSON. -/
inductive Value where
  | String (s : Str)
  | Other (json : Str)
  deriving DecidableEq

namespace Value

def as_str : Value → Option Str
  | String s => some s
  | Other _ => none

end Value

inductive PredicateOp where
  | Eq (val : Value)
  | Ne (val : Value)
  | Gt (val : Value)
  | Gte (val : Value)
  | Lt (val : Value)
  | Lte (val : Value)
  | Contains (s : Str)
  | StartsWith (s : Str)
  | IsNull
  | IsNotNull
  | In (vals : List Value)

structure FieldPredicate where
  field : String
  op : PredicateOp

inductive FilterExpr where
  | Predicate (pred : FieldPredicate)
  | And (exprs : List FilterExpr)
  | Or (exprs : List FilterExpr)
  | Not (expr : FilterExpr)

structure SessionListFilter where
  filter : Option FilterExpr
  limit : Option ℕ
  offset : Option ℕ

section

variable {τ : Type} (time : OffsetDateTime τ)

/-- The text of a field; what has no text is null. -/
def field_value (session : SessionRow) (field : String) : Option Str :=
  match field with
  | "session_id" | "public_id" => some session.public_id
  | "name" => session.name
  | "cwd" => session.cwd
  | "created_at" => (time.parse session.created_at).map time.format
  | "updated_at" => (time.parse session.updated_at).map time.format
  | _ => none

/-- Two texts compared; there is nothing to compare where one of them is missing. -/
def compare_values (field_value : Option Str) (val : Value) (cmp : Str → Str → Bool) : Bool :=
  match field_value, val.as_str with
  | some fv, some v => cmp fv v
  | _, _ => false

def evaluate_predicate (session : SessionRow) (pred : FieldPredicate) : Bool :=
  let field_value := field_value time session pred.field
  match pred.op with
  | .IsNull => field_value.isNone
  | .IsNotNull => field_value.isSome
  | .Eq val => decide (field_value.map Value.String = some val)
  | .Ne val => decide (field_value.map Value.String ≠ some val)
  | .Gt val => compare_values field_value val fun fv v => decide (v < fv)
  | .Gte val => compare_values field_value val fun fv v => !decide (fv < v)
  | .Lt val => compare_values field_value val fun fv v => decide (fv < v)
  | .Lte val => compare_values field_value val fun fv v => !decide (v < fv)
  | .Contains s => field_value.any fun fv => contains s fv
  | .StartsWith s => field_value.any fun fv => s.isPrefixOf fv
  | .In vals => field_value.any fun fv => vals.contains (.String fv)

mutual

def evaluate_session_filter (session : SessionRow) : FilterExpr → Bool
  | .Predicate pred => evaluate_predicate time session pred
  | .And exprs => evaluate_all session exprs
  | .Or exprs => evaluate_any session exprs
  | .Not expr => !evaluate_session_filter session expr

/-- `exprs.iter().all(…)`. -/
def evaluate_all (session : SessionRow) : List FilterExpr → Bool
  | [] => true
  | expr :: exprs => evaluate_session_filter session expr && evaluate_all session exprs

/-- `exprs.iter().any(…)`. -/
def evaluate_any (session : SessionRow) : List FilterExpr → Bool
  | [] => false
  | expr :: exprs => evaluate_session_filter session expr || evaluate_any session exprs

end

/-- A session satisfies the expression, if there is one. -/
def satisfies (expr : Option FilterExpr) (session : SessionRow) : Bool :=
  expr.all (evaluate_session_filter time session)

end

/-! ## 3. The view -/

structure SessionListItem (τ : Type) where
  session_id : Str
  name : Option Str
  cwd : Option Str
  title : Option Str
  created_at : Option τ
  updated_at : Option τ
  parent_session_id : Option Str
  fork_origin : Option Str
  session_kind : Option Str
  has_children : Bool
  fork_count : ℕ

structure SessionGroup (τ : Type) where
  cwd : Option Str
  sessions : List (SessionListItem τ)
  latest_activity : Option τ

/-- The time at which it was generated is left out. -/
structure SessionListView (τ : Type) where
  groups : List (SessionGroup τ)
  total_count : ℕ

namespace Database

variable (db : Database)

/-- The summary of the session's first snapshot. -/
def initial_intent (s : SessionRow) : Option Str :=
  let own := db.intent_snapshots.filter fun i => i.session_id = s.id
  let first := (own.map IntentSnapshotRow.id).min?
  (own.find? fun i => some i.id = first).map IntentSnapshotRow.summary

def is_recurring (s : SessionRow) : Bool :=
  db.tasks.any fun t => decide (t.session_id = s.id ∧ t.kind = "recurring".toList)

/-- The user's forks of a session. -/
def fork_count (s : SessionRow) : ℕ :=
  (db.sessions.filter fun c =>
    c.parent_session_id = some s.id ∧ c.fork_origin = some "user".toList).length

/-- `ORDER BY s.updated_at DESC`. -/
def later (s s' : SessionRow) : Prop := ¬ s.updated_at < s'.updated_at

instance : DecidableRel later := fun _ _ => inferInstanceAs (Decidable (¬ _))

def by_updated_at (order : RowOrder SessionRow) : List SessionRow :=
  order_by order later db.sessions

/-- A limit without a filter expression and an offset. -/
def sql_limit (filter : Option SessionListFilter) : Option ℕ :=
  filter.bind fun f => if f.filter.isNone ∧ f.offset.getD 0 = 0 then f.limit else none

/-- `truncate`, if there is a limit. -/
def truncate {α : Type} (limit : Option ℕ) (l : List α) : List α :=
  match limit with
  | some n => l.take n
  | none => l

section

variable {τ : Type} (time : OffsetDateTime τ)

/-- `parent_session_id` is read off the map from the ids to the public ids. -/
def list_item (id_to_public_id : HashMap ℕ Str) (row : SessionRow) : SessionListItem τ where
  session_id := row.public_id
  name := row.name
  cwd := row.cwd
  title := (db.initial_intent row).map truncate_title
  created_at := time.parse row.created_at
  updated_at := time.parse row.updated_at
  parent_session_id := row.parent_session_id.bind id_to_public_id.lookup
  fork_origin := row.fork_origin
  session_kind := if db.is_recurring row then some "recurring".toList else row.session_kind
  has_children := decide (0 < db.fork_count row)
  fork_count := db.fork_count row

end

end Database

section

variable {τ : Type}

/-- The children by the public id of their parent. -/
def parent_children_map (items : List (SessionListItem τ)) : HashMap Str (List (SessionListItem τ)) :=
  items.foldl (fun m item =>
    match item.parent_session_id with
    | some parent_id => alter m parent_id (· ++ [item])
    | none => m) ∅

/-- The recursion is no deeper than there are items. -/
def attach_children (children_map : HashMap Str (List (SessionListItem τ))) :
    ℕ → SessionListItem τ → List (SessionListItem τ)
  | 0, session => [session]
  | depth + 1, session =>
      session :: ((children_map.lookup session.session_id).getD []).flatMap
        (attach_children children_map depth)

def is_delegated_child (session : SessionListItem τ) : Bool :=
  session.parent_session_id.isSome && decide (session.fork_origin = some "delegation".toList)

def flat_items (items : List (SessionListItem τ)) : List (SessionListItem τ) :=
  let root_sessions := items.filter fun item => item.parent_session_id.isNone
  (root_sessions.flatMap (attach_children (parent_children_map items) items.length)).filter
    fun session => !is_delegated_child session

variable (time : OffsetDateTime τ)

/-- The latest of some times. -/
def latest (times : List τ) : Option τ :=
  times.foldl (fun m t =>
    match m with
    | some u => if time.instant t < time.instant u then some u else some t
    | none => some t) none

/-- The order of options, where none is the least. -/
def at_most (t u : Option τ) : Bool :=
  match t, u with
  | none, _ => true
  | some _, none => false
  | some t, some u => decide (time.instant t ≤ time.instant u)

/-- The group without a directory is first, then the latest. -/
def group_before (a b : SessionGroup τ) : Bool :=
  match a.cwd, b.cwd with
  | none, _ => true
  | some _, none => false
  | some _, some _ => at_most time b.latest_activity a.latest_activity

def group_items (hash : DrainOrder (Option Str) (List (SessionListItem τ)))
    (flat_items : List (SessionListItem τ)) : List (SessionGroup τ) :=
  let groups_map : HashMap (Option Str) (List (SessionListItem τ)) :=
    flat_items.foldl (fun m item => alter m item.cwd (· ++ [item])) ∅
  ((hash.drain groups_map).map fun entry =>
    ⟨entry.1, entry.2, latest time (entry.2.filterMap SessionListItem.updated_at)⟩).insertionSort
      fun a b => group_before time a b = true

/-- The query, the filter, the cut, the hierarchy and the groups. -/
def Database.get_session_list_view (db : Database) (order : RowOrder SessionRow)
    (hash : DrainOrder (Option Str) (List (SessionListItem τ)))
    (filter : Option SessionListFilter) : SessionListView τ :=
  let raw_rows := truncate (sql_limit filter) (db.by_updated_at order)
  let id_to_public_id : HashMap ℕ Str :=
    raw_rows.foldl (fun m r => m.insert r.id r.public_id) ∅
  let filtered := raw_rows.filter (satisfies time (filter.bind SessionListFilter.filter))
  let cut := truncate (filter.bind SessionListFilter.limit)
    (filtered.drop ((filter.bind SessionListFilter.offset).getD 0))
  { groups := group_items time hash (flat_items (cut.map (db.list_item time id_to_public_id)))
    total_count := filtered.length }

end

/-! ## 4. What the view has to be -/

namespace Database

variable {τ : Type} (time : OffsetDateTime τ) (db : Database) (order : RowOrder SessionRow)
  (filter : Option SessionListFilter)

def delegation_child (s : SessionRow) : Bool :=
  s.parent_session_id.isSome && decide (s.fork_origin = some "delegation".toList)

/-- The sessions that satisfy the filter, after the offset and the limit. -/
def kept : List SessionRow :=
  truncate (filter.bind SessionListFilter.limit)
    (((db.by_updated_at order).filter (satisfies time (filter.bind SessionListFilter.filter))).drop
      ((filter.bind SessionListFilter.offset).getD 0))

/-- Each kept session that is no delegation is listed once, under its own directory, of which
there is one group, and all that satisfy the filter are counted. -/
structure Complete (view : SessionListView τ) : Prop where
  listed : (view.groups.flatMap fun g => g.sessions.map fun s => (g.cwd, s.session_id)).Perm
    (((db.kept time order filter).filter fun s => !delegation_child s).map fun s =>
      (s.cwd, s.public_id))
  groups : (view.groups.map SessionGroup.cwd).Nodup
  total : view.total_count =
    (db.sessions.filter (satisfies time (filter.bind SessionListFilter.filter))).length

/-- The limit in the query is no limit, and without one the ancestors of what is to be listed
are kept as well. -/
def Reached : Prop :=
  match sql_limit filter with
  | some limit => db.sessions.length ≤ limit
  | none => ∀ s ∈ db.kept time order filter, delegation_child s = false →
      Forests.Rooted SessionRow.id SessionRow.parent_session_id (db.kept time order filter) s

end Database

/-! ## 5. Groups -/

section

variable {τ : Type} (time : OffsetDateTime τ)

theorem foldl_push {α : Type} (l acc : List α) :
    l.foldl (fun b a => b ++ [a]) acc = acc ++ l := by
  induction l generalizing acc with
  | nil => exact (List.append_nil acc).symm
  | cons a l ih => rw [List.foldl_cons, ih, List.append_assoc, List.singleton_append]

/-- The items of a group are those of its directory. -/
theorem mem_groups_map {l : List (SessionListItem τ)}
    {entry : Σ _ : Option Str, List (SessionListItem τ)}
    (h : entry ∈ (l.foldl (fun m item => alter m item.cwd (· ++ [item]))
      (∅ : HashMap (Option Str) (List (SessionListItem τ)))).entries) :
    ∀ s ∈ entry.2, s.cwd = entry.1 := by
  obtain ⟨cwd, sessions⟩ := entry
  have hlookup := AList.mem_lookup_iff.2 h
  have hbucket := bucket_foldl SessionListItem.cwd (fun b a => b ++ [a]) l ∅ cwd
  rw [bucket, Option.mem_def.1 hlookup, Option.getD_some, foldl_push] at hbucket
  intro s hs
  rw [hbucket] at hs
  exact of_decide_eq_true (List.mem_filter.1 hs).2

theorem perm_group_items (hash : DrainOrder (Option Str) (List (SessionListItem τ)))
    (l : List (SessionListItem τ)) :
    ((group_items time hash l).flatMap fun g => g.sessions.map fun s => (g.cwd, s.session_id)).Perm
      (l.map fun s => (s.cwd, s.session_id)) := by
  unfold group_items
  dsimp only
  refine ((List.perm_insertionSort _ _).flatMap_right _).trans ?_
  rw [List.flatMap_map]
  refine ((hash.perm _).flatMap_right _).trans ?_
  have hcwd : ∀ {entries : List (Σ _ : Option Str, List (SessionListItem τ))},
      (∀ entry ∈ entries, ∀ s ∈ entry.2, s.cwd = entry.1) →
      (entries.flatMap fun e => e.2.map fun s => (e.1, s.session_id)) =
        (entries.flatMap Sigma.snd).map fun s => (s.cwd, s.session_id) := by
    intro entries h
    rw [List.map_flatMap]
    apply List.flatMap_congr
    intro entry hentry
    apply List.map_congr_left
    intro s hs
    rw [h entry hentry s hs]
  rw [hcwd fun entry hentry => mem_groups_map hentry]
  exact (perm_buckets SessionListItem.cwd l ∅).map _

theorem nodup_group_items (hash : DrainOrder (Option Str) (List (SessionListItem τ)))
    (l : List (SessionListItem τ)) : ((group_items time hash l).map SessionGroup.cwd).Nodup := by
  unfold group_items
  dsimp only
  apply ((List.perm_insertionSort _ _).map _).nodup_iff.2
  rw [List.map_map]
  exact ((hash.perm _).map _).nodup_iff.2 (AList.keys_nodup _)

end

/-! ## 6. The hierarchy -/

section

variable {τ : Type}

theorem bucket_children (items : List (SessionListItem τ)) (m : HashMap Str (List (SessionListItem τ)))
    (k : Str) :
    bucket (items.foldl (fun m item =>
        match item.parent_session_id with
        | some parent_id => alter m parent_id (· ++ [item])
        | none => m) m) k =
      bucket m k ++ Forests.children SessionListItem.parent_session_id items k := by
  induction items generalizing m with
  | nil => exact (List.append_nil _).symm
  | cons item items ih =>
      rw [List.foldl_cons, ih, Forests.children, Forests.children, List.filter_cons]
      cases hparent : item.parent_session_id with
      | none => rw [if_neg (by simp)]
      | some parent_id =>
          dsimp only
          rw [bucket_alter]
          by_cases hk : k = parent_id
          · subst hk
            rw [if_pos rfl, if_pos (by simp), List.append_assoc, List.singleton_append]
          · rw [if_neg hk, if_neg (by simpa using Ne.symm hk)]

theorem attach_children_eq (items : List (SessionListItem τ)) (depth : ℕ) :
    attach_children (parent_children_map items) depth =
      Forests.attach SessionListItem.session_id SessionListItem.parent_session_id items depth := by
  induction depth with
  | zero => rfl
  | succ depth ih =>
      funext session
      have hbucket := bucket_children items ∅ session.session_id
      rw [attach_children, Forests.attach, ih]
      exact congrArg (fun l => session :: List.flatMap (Forests.attach SessionListItem.session_id
        SessionListItem.parent_session_id items depth) l) hbucket

theorem flat_items_eq (items : List (SessionListItem τ)) :
    flat_items items = (Forests.listed SessionListItem.session_id
      SessionListItem.parent_session_id items).filter fun session => !is_delegated_child session := by
  unfold flat_items
  rw [attach_children_eq]
  rfl

end

namespace Database

variable {τ : Type} (time : OffsetDateTime τ) (db : Database) (order : RowOrder SessionRow)

theorem perm_by_updated_at : (db.by_updated_at order).Perm db.sessions := perm_order_by _ _ _

theorem truncate_sublist {α : Type} (limit : Option ℕ) (l : List α) : (truncate limit l).Sublist l := by
  cases limit with
  | none => exact List.Sublist.refl l
  | some n => exact List.take_sublist n l

theorem kept_sublist (filter : Option SessionListFilter) :
    (db.kept time order filter).Sublist (db.by_updated_at order) :=
  ((truncate_sublist _ _).trans (List.drop_sublist _ _)).trans List.filter_sublist

/-- The map from the ids to the public ids, over all sessions. -/
def public_id_map : HashMap ℕ Str :=
  (db.by_updated_at order).foldl (fun m r => m.insert r.id r.public_id) ∅

theorem lookup_public_id {r : SessionRow} (hr : r ∈ db.sessions) :
    (db.public_id_map order).lookup r.id = some r.public_id := by
  have hperm := db.perm_by_updated_at order
  have hval : ∀ s ∈ db.by_updated_at order, s.id = r.id → s.public_id = r.public_id :=
    fun s hs hid => congrArg _ (Forests.key_inj db.ids (hperm.mem_iff.1 hs) hr hid)
  exact lookup_foldl_of_mem SessionRow.id SessionRow.public_id hval
    (List.mem_map_of_mem (hperm.mem_iff.2 hr)) ∅

theorem parent_mem {s : SessionRow} (hs : s ∈ db.sessions) {k : ℕ}
    (hk : s.parent_session_id = some k) : ∃ p ∈ db.sessions, p.id = k := by
  obtain ⟨n, hdepth⟩ := db.forest s hs
  cases n with
  | zero =>
      rw [Forests.AtDepth, hk] at hdepth
      cases hdepth
  | succ n =>
      obtain ⟨p, hp, hparent, -⟩ := hdepth
      rw [hk, Option.some_inj] at hparent
      exact ⟨p, hp, hparent.symm⟩

theorem parent_none_iff {s : SessionRow} (hs : s ∈ db.sessions) :
    s.parent_session_id.bind (db.public_id_map order).lookup = none ↔
      s.parent_session_id = none := by
  cases hk : s.parent_session_id with
  | none => simp
  | some k =>
      obtain ⟨p, hp, rfl⟩ := db.parent_mem hs hk
      rw [Option.bind_some, db.lookup_public_id order hp]
      simp

theorem parent_some_iff {s p : SessionRow} (hs : s ∈ db.sessions) (hp : p ∈ db.sessions) :
    s.parent_session_id.bind (db.public_id_map order).lookup = some p.public_id ↔
      s.parent_session_id = some p.id := by
  cases hk : s.parent_session_id with
  | none => simp
  | some k =>
      obtain ⟨q, hq, rfl⟩ := db.parent_mem hs hk
      rw [Option.bind_some, db.lookup_public_id order hq, Option.some_inj, Option.some_inj]
      constructor
      · exact fun h => congrArg _ (Forests.key_inj db.public_ids hq hp h)
      · exact fun h => congrArg _ (Forests.key_inj db.ids hq hp h)

/-- The item of a row, when all rows were read. -/
def item (s : SessionRow) : SessionListItem τ := db.list_item time (db.public_id_map order) s

theorem is_delegated_child_item {s : SessionRow} (hs : s ∈ db.sessions) :
    is_delegated_child (db.item time order s) = delegation_child s := by
  have hparent : (db.item time order s).parent_session_id.isSome = s.parent_session_id.isSome := by
    rw [Bool.eq_iff_iff, Option.isSome_iff_ne_none, Option.isSome_iff_ne_none]
    exact not_congr (db.parent_none_iff order hs)
  rw [is_delegated_child, delegation_child, hparent]
  rfl

section

variable {rows : List SessionRow}

theorem rooted_item (hrows : rows ⊆ db.sessions) {s : SessionRow} (hs : s ∈ rows) :
    Forests.Rooted SessionListItem.session_id SessionListItem.parent_session_id
        (rows.map (db.item time order)) (db.item time order s) ↔
      Forests.Rooted SessionRow.id SessionRow.parent_session_id rows s :=
  @Forests.rooted_map _ _ SessionRow.id SessionRow.parent_session_id rows _ _
    SessionListItem.session_id SessionListItem.parent_session_id (db.item time order)
    (fun _ ha => db.parent_none_iff order (hrows ha))
    (fun _ ha _ hb => db.parent_some_iff order (hrows ha) (hrows hb)) s hs

theorem item_keys (hids : (rows.map SessionRow.public_id).Nodup) :
    ((rows.map (db.item time order)).map SessionListItem.session_id).Nodup := by
  rw [List.map_map]
  exact hids

/-- What is listed of the items. -/
theorem mem_flat_items (hrows : rows ⊆ db.sessions)
    (hids : (rows.map SessionRow.public_id).Nodup) {s : SessionRow} (hs : s ∈ rows) :
    db.item time order s ∈ flat_items (rows.map (db.item time order)) ↔
      Forests.Rooted SessionRow.id SessionRow.parent_session_id rows s ∧
        delegation_child s = false := by
  rw [flat_items_eq, List.mem_filter, Forests.mem_listed (db.item_keys time order hids),
    db.rooted_item time order hrows hs, db.is_delegated_child_item time order (hrows hs)]
  simp [List.mem_map_of_mem hs]

theorem flat_items_perm_iff (hrows : rows ⊆ db.sessions)
    (hids : (rows.map SessionRow.public_id).Nodup) :
    ((flat_items (rows.map (db.item time order))).map fun s => (s.cwd, s.session_id)).Perm
        ((rows.filter fun s => !delegation_child s).map fun s => (s.cwd, s.public_id)) ↔
      ∀ s ∈ rows, delegation_child s = false →
        Forests.Rooted SessionRow.id SessionRow.parent_session_id rows s := by
  have hkeys := db.item_keys time order hids
  have hitems : ∀ x ∈ flat_items (rows.map (db.item time order)),
      ∃ s ∈ rows, db.item time order s = x := by
    intro x hx
    rw [flat_items_eq] at hx
    exact List.mem_map.1 ((Forests.mem_listed hkeys).1 (List.mem_filter.1 hx).1).1
  constructor
  · intro h s hs hdel
    have hmem : (s.cwd, s.public_id) ∈
        (rows.filter fun s => !delegation_child s).map fun s => (s.cwd, s.public_id) :=
      List.mem_map.2 ⟨s, List.mem_filter.2 ⟨hs, by rw [hdel]; rfl⟩, rfl⟩
    obtain ⟨x, hx, hpair⟩ := List.mem_map.1 (h.mem_iff.2 hmem)
    obtain ⟨r, hr, rfl⟩ := hitems x hx
    have hrs : r = s := Forests.key_inj hids hr hs (Prod.mk.inj hpair).2
    subst hrs
    exact ((db.mem_flat_items time order hrows hids hs).1 hx).1
  · intro h
    have hperm : (flat_items (rows.map (db.item time order))).Perm
        ((rows.filter fun s => !delegation_child s).map (db.item time order)) := by
      apply (List.perm_ext_iff_of_nodup ?_ ?_).2
      · intro x
        constructor
        · intro hx
          obtain ⟨s, hs, rfl⟩ := hitems x hx
          have hdel := ((db.mem_flat_items time order hrows hids hs).1 hx).2
          exact List.mem_map_of_mem (List.mem_filter.2 ⟨hs, by rw [hdel]; rfl⟩)
        · intro hx
          obtain ⟨s, hs, rfl⟩ := List.mem_map.1 hx
          obtain ⟨hs, hdel⟩ := List.mem_filter.1 hs
          have hdel : delegation_child s = false := by simpa using hdel
          exact (db.mem_flat_items time order hrows hids hs).2 ⟨h s hs hdel, hdel⟩
      · rw [flat_items_eq]
        exact (Forests.nodup_listed hkeys).filter _
      · exact (hkeys.of_map _).sublist (List.filter_sublist.map _)
    have hmap := hperm.map fun s => (s.cwd, s.session_id)
    rwa [List.map_map] at hmap

end

theorem kept_subset (filter : Option SessionListFilter) :
    db.kept time order filter ⊆ db.sessions := fun _ hs =>
  (db.perm_by_updated_at order).mem_iff.1 ((db.kept_sublist time order filter).subset hs)

theorem kept_keys (filter : Option SessionListFilter) :
    ((db.kept time order filter).map SessionRow.public_id).Nodup :=
  (((db.perm_by_updated_at order).map _).nodup_iff.2 db.public_ids).sublist
    ((db.kept_sublist time order filter).map _)

/-- When all rows are read. -/
theorem complete_iff_rooted (hash : DrainOrder (Option Str) (List (SessionListItem τ)))
    {filter : Option SessionListFilter}
    (hall : truncate (sql_limit filter) (db.by_updated_at order) = db.by_updated_at order) :
    db.Complete time order filter (db.get_session_list_view time order hash filter) ↔
      ∀ s ∈ db.kept time order filter, delegation_child s = false →
        Forests.Rooted SessionRow.id SessionRow.parent_session_id
          (db.kept time order filter) s := by
  have hview : db.get_session_list_view time order hash filter =
      { groups := group_items time hash
          (flat_items ((db.kept time order filter).map (db.item time order)))
        total_count := ((db.by_updated_at order).filter
          (satisfies time (filter.bind SessionListFilter.filter))).length } := by
    unfold get_session_list_view
    rw [hall]
    rfl
  rw [hview, ← db.flat_items_perm_iff time order (db.kept_subset time order filter)
    (db.kept_keys time order filter)]
  have hgroups := perm_group_items time hash
    (flat_items ((db.kept time order filter).map (db.item time order)))
  constructor
  · exact fun h => hgroups.symm.trans h.listed
  · exact fun h => ⟨hgroups.trans h, nodup_group_items time hash _,
      ((db.perm_by_updated_at order).filter _).length_eq⟩

/-- The view is complete exactly when the query has read all rows and no ancestor of a session
that is to be listed was taken away. -/
theorem complete_iff (hash : DrainOrder (Option Str) (List (SessionListItem τ)))
    (filter : Option SessionListFilter) :
    db.Complete time order filter (db.get_session_list_view time order hash filter) ↔
      db.Reached time order filter := by
  have hperm := db.perm_by_updated_at order
  unfold Reached
  cases hsql : sql_limit filter with
  | none => exact db.complete_iff_rooted time order hash (by rw [hsql]; rfl)
  | some limit =>
      dsimp only
      obtain ⟨f, rfl, hf⟩ := Option.bind_eq_some_iff.1 hsql
      by_cases hplain : f.filter.isNone ∧ f.offset.getD 0 = 0
      · rw [if_pos hplain] at hf
        obtain ⟨hnone, hoffset⟩ := hplain
        have hfilter : f.filter = none := Option.isNone_iff_eq_none.1 hnone
        have hsatisfies : ∀ l : List SessionRow, l.filter (satisfies time f.filter) = l := by
          intro l
          rw [hfilter]
          exact List.filter_eq_self.2 fun _ _ => rfl
        have hkept : db.kept time order (some f) = (db.by_updated_at order).take limit := by
          rw [kept, Option.bind_some, Option.bind_some, Option.bind_some, hsatisfies, hoffset, hf,
            List.drop_zero]
          rfl
        constructor
        · -- the rows behind the limit are not counted
          intro h
          have htotal := h.total
          change ((truncate (sql_limit (some f)) (db.by_updated_at order)).filter
            (satisfies time f.filter)).length = (db.sessions.filter _).length at htotal
          rw [Option.bind_some, hsatisfies, hsatisfies, hsql, truncate, List.length_take] at htotal
          omega
        · intro hle
          have hall : (db.by_updated_at order).take limit = db.by_updated_at order :=
            List.take_of_length_le (by rw [hperm.length_eq]; exact hle)
          apply (db.complete_iff_rooted time order hash (by rw [hsql]; exact hall)).2
          intro s hs _
          rw [hkept, hall] at hs ⊢
          exact (Forests.rooted_perm hperm).2 (db.forest s (hperm.mem_iff.1 hs))
      · rw [if_neg hplain] at hf
        cases hf

end Database

/-! ### A fork without its parent -/

def sample_parent : SessionRow :=
  ⟨1, ['a'], none, none, ['1'], ['1'], none, none, none⟩

def sample_fork : SessionRow :=
  ⟨2, ['b'], none, none, ['2'], ['2'], some 1, some "user".toList, none⟩

def sample_db : Database where
  sessions := [sample_parent, sample_fork]
  intent_snapshots := []
  tasks := []
  ids := by decide
  public_ids := by decide
  forest := by
    intro s hs
    obtain rfl | hs := List.mem_cons.1 hs
    · exact ⟨0, rfl⟩
    · obtain rfl := List.mem_singleton.1 hs
      exact ⟨1, sample_parent, List.mem_cons_self, rfl, rfl⟩

/-- `public_id = "b"`. -/
def sample_filter : SessionListFilter :=
  ⟨some (.Predicate ⟨"public_id", .Eq (.String ['b'])⟩), none, none⟩

def sample_time : OffsetDateTime ℤ := ⟨fun _ => none, fun _ => [], id⟩

def sample_order : RowOrder SessionRow := ⟨id, fun _ => .refl _⟩

def sample_hash : DrainOrder (Option Str) (List (SessionListItem ℤ)) :=
  ⟨fun m => m.entries, fun _ => .refl _⟩

/-- The fork satisfies the filter, its parent does not, and nothing is listed. -/
theorem fork_not_listed :
    ¬ sample_db.Complete sample_time sample_order (some sample_filter)
      (sample_db.get_session_list_view sample_time sample_order sample_hash
        (some sample_filter)) := by
  intro h
  have hlen := h.listed.length_eq
  revert hlen
  decide +kernel

end Querymt.ListView
