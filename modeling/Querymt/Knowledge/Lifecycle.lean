/-
`Knowledge/Lifecycle.lean` -- what becomes of an entry of the knowledge store.

Mirrors `consolidate`, `apply_retention` and `list_unconsolidated` of `SqliteKnowledgeStore`
(`knowledge/sqlite.rs`) over the tables of `Query.lean`, with the foreign keys of `schema.rs`:
the rows of its terms go with an entry.

# Two columns

Nothing but `consolidated_at` and `raw_text` of an entry ever changes. The first is written once, by
the first consolidation that names the entry in its own scope after it was ingested; a later one
finds it taken (`entry_after_run`).

# Which entries go

A policy deletes by age first and counts what is left; it archives by age and by count
independently of each other. "Oldest" is the order of the texts of `created_at`, and SQL leaves
open which of two equal texts comes first, so the results below hold for either order.
-/
import Mathlib
import Querymt.Knowledge.Query
import Querymt.Library.Runs

set_option autoImplicit false

open Strings Tables Runs

namespace Querymt.Knowledge

/-! ## 1. The operations -/

structure ConsolidateRequest where
  source_entry_public_ids : List Str
  summary : Str
  insight : Str
  connections : List Str

structure RetentionPolicy where
  max_age_days : Option ℕ
  max_entries : Option ℤ
  archive_raw_text : Bool
  deriving DecidableEq

structure RetentionResult where
  archived : ℕ
  deleted : ℕ
  deriving DecidableEq

/-- `ORDER BY created_at ASC`. -/
def older {ρ : Type} (e e' : KnowledgeEntry ρ) : Prop := ¬ e'.created_at < e.created_at

instance {ρ : Type} : DecidableRel (older (ρ := ρ)) := fun _ _ => inferInstanceAs (Decidable (¬ _))

namespace Store

variable {Algorithm ρ : Type} {nlp : TextProcessing Algorithm}

/-- The entries of a scope. -/
def in_scope (store : Store nlp ρ) (scope : Str) : List (KnowledgeEntry ρ) :=
  store.entries.filter fun e => e.scope = scope

/-- `UPDATE knowledge_entries SET …`, of columns that no other table depends on. -/
def update (store : Store nlp ρ) (f : KnowledgeEntry ρ → KnowledgeEntry ρ)
    (hid : ∀ e, (f e).id = e.id) (hentities : ∀ e, (f e).entities = e.entities)
    (htopics : ∀ e, (f e).topics = e.topics) : Store nlp ρ where
  entries := store.entries.map f
  entity_rows := store.entity_rows
  topic_rows := store.topic_rows
  consolidations := store.consolidations
  ids := by
    rw [List.map_map, show KnowledgeEntry.id ∘ f = KnowledgeEntry.id from funext hid]
    exact store.ids
  entities_indexed := by
    intro e' he'
    obtain ⟨e, he, rfl⟩ := List.mem_map.1 he'
    rw [hid, hentities]
    exact store.entities_indexed e he
  topics_indexed := by
    intro e' he'
    obtain ⟨e, he, rfl⟩ := List.mem_map.1 he'
    rw [hid, htopics]
    exact store.topics_indexed e he
  entities_owned := by
    intro r hr
    rw [List.map_map, show KnowledgeEntry.id ∘ f = KnowledgeEntry.id from funext hid]
    exact store.entities_owned r hr
  topics_owned := by
    intro r hr
    rw [List.map_map, show KnowledgeEntry.id ∘ f = KnowledgeEntry.id from funext hid]
    exact store.topics_owned r hr
  fits := by
    rw [List.length_map]
    exact store.fits

/-- The rows of the entries that stay. -/
def kept_rows (entries : List (KnowledgeEntry ρ)) (rows : List TermRow) : List TermRow :=
  rows.filter fun r => decide (r.entry_id ∈ entries.map KnowledgeEntry.id)

theorem indexed_kept {normalize_term : Str → Str} {terms : KnowledgeEntry ρ → List Str}
    {entries kept : List (KnowledgeEntry ρ)} {rows : List TermRow}
    (h : Indexed normalize_term terms entries rows) (hkept : kept ⊆ entries) :
    Indexed normalize_term terms kept (kept_rows kept rows) := by
  intro e he
  rw [← h e (hkept he), kept_rows, List.filter_filter]
  apply List.filter_congr
  intro r _
  by_cases hid : r.entry_id = e.id
  · have hmem : e.id ∈ kept.map KnowledgeEntry.id := List.mem_map_of_mem he
    simp only [hid, hmem, decide_true, Bool.and_true]
  · simp [hid]

/-- `DELETE FROM knowledge_entries WHERE …`: `ON DELETE CASCADE` takes the rows of the terms. -/
def delete (store : Store nlp ρ) (p : KnowledgeEntry ρ → Bool) : Store nlp ρ where
  entries := store.entries.filter fun e => !p e
  entity_rows := kept_rows (store.entries.filter fun e => !p e) store.entity_rows
  topic_rows := kept_rows (store.entries.filter fun e => !p e) store.topic_rows
  consolidations := store.consolidations
  ids := store.ids.sublist (List.filter_sublist.map _)
  entities_indexed := indexed_kept store.entities_indexed (List.filter_subset_self _)
  topics_indexed := indexed_kept store.topics_indexed (List.filter_subset_self _)
  entities_owned := fun _ hr => of_decide_eq_true (List.mem_filter.1 hr).2
  topics_owned := fun _ hr => of_decide_eq_true (List.mem_filter.1 hr).2
  fits := lt_of_le_of_lt (List.length_filter_le _ _) store.fits

/-- `UPDATE … SET consolidated_at = ? WHERE public_id = ? AND scope = ? AND consolidated_at IS
NULL`. -/
def mark (now scope entry_public_id : Str) (e : KnowledgeEntry ρ) : KnowledgeEntry ρ :=
  if e.public_id = entry_public_id ∧ e.scope = scope ∧ e.consolidated_at = none then
    { e with consolidated_at := some now }
  else e

theorem mark_keeps (now scope entry_public_id : Str) (e : KnowledgeEntry ρ) :
    mark now scope entry_public_id e =
      { e with consolidated_at := (mark now scope entry_public_id e).consolidated_at } := by
  unfold mark
  split <;> rfl

/-- The updates of `consolidate`, one for each id. -/
def mark_all (store : Store nlp ρ) (now scope : Str) (ids : List Str) : Store nlp ρ :=
  ids.foldl (fun store id => store.update (mark now scope id)
    (fun e => by rw [mark_keeps]) (fun e => by rw [mark_keeps]) (fun e => by rw [mark_keeps])) store

def consolidate (store : Store nlp ρ) (scope public_id now : Str) (request : ConsolidateRequest) :
    Store nlp ρ :=
  let c : Consolidation :=
    { id := ((store.consolidations.map Consolidation.id).max?.getD 0) + 1
      public_id := public_id
      scope := scope
      source_entry_public_ids := request.source_entry_public_ids
      summary := request.summary
      insight := request.insight
      connections := request.connections
      created_at := now }
  { store with consolidations := store.consolidations ++ [c] }.mark_all now scope
    request.source_entry_public_ids

def list_unconsolidated (store : Store nlp ρ) (order : RowOrder (KnowledgeEntry ρ)) (scope : Str)
    (limit : ℕ) : List (KnowledgeEntry ρ) :=
  sql_limit limit (order_by order older (store.entries.filter fun e =>
    decide (e.scope = scope) && e.consolidated_at.isNone))

/-- `UPDATE … SET raw_text = NULL WHERE … AND raw_text IS NOT NULL`. -/
def archive (store : Store nlp ρ) (p : KnowledgeEntry ρ → Bool) : Store nlp ρ :=
  store.update (fun e => if p e then { e with raw_text := none } else e)
    (fun e => by split <;> rfl) (fun e => by split <;> rfl) (fun e => by split <;> rfl)

/-- What either half of a policy does to the entries it selects, with the number of rows that the
statement changes. -/
def retire (store : Store nlp ρ) (policy : RetentionPolicy) (p : KnowledgeEntry ρ → Bool) :
    Store nlp ρ × RetentionResult :=
  if policy.archive_raw_text then
    (store.archive p, ⟨(store.entries.filter fun e => p e && e.raw_text.isSome).length, 0⟩)
  else (store.delete p, ⟨0, (store.entries.filter p).length⟩)

/-- `SELECT id … WHERE scope = ? ORDER BY created_at ASC LIMIT ?`. -/
def oldest_ids (store : Store nlp ρ) (order : RowOrder (KnowledgeEntry ρ)) (scope : Str)
    (excess : ℕ) : List ℕ :=
  ((order_by order older (store.in_scope scope)).take excess).map KnowledgeEntry.id

/-- Created before the text of the instant so many days ago. -/
def is_old (scope : Str) (policy : RetentionPolicy) (cutoff : ℕ → Str) (e : KnowledgeEntry ρ) :
    Bool :=
  decide (e.scope = scope) && policy.max_age_days.any fun days => decide (e.created_at < cutoff days)

/-- Among the oldest, as many as there are too many. -/
def is_excess (store : Store nlp ρ) (order : RowOrder (KnowledgeEntry ρ)) (scope : Str)
    (max_entries : ℤ) (e : KnowledgeEntry ρ) : Bool :=
  decide (e.scope = scope) && decide (e.id ∈ store.oldest_ids order scope
    ((store.in_scope scope).length - max_entries).toNat)

/-- The age half of `apply_retention`. -/
def retain_by_age (store : Store nlp ρ) (scope : Str) (policy : RetentionPolicy)
    (cutoff : ℕ → Str) : Store nlp ρ × RetentionResult :=
  match policy.max_age_days with
  | none => (store, ⟨0, 0⟩)
  | some _ => store.retire policy (is_old scope policy cutoff)

/-- The count half. -/
def retain_by_count (store : Store nlp ρ) (order : RowOrder (KnowledgeEntry ρ)) (scope : Str)
    (policy : RetentionPolicy) : Store nlp ρ × RetentionResult :=
  match policy.max_entries with
  | none => (store, ⟨0, 0⟩)
  | some max_entries =>
      if max_entries < (store.in_scope scope).length then
        store.retire policy (store.is_excess order scope max_entries)
      else (store, ⟨0, 0⟩)

def apply_retention (store : Store nlp ρ) (order : RowOrder (KnowledgeEntry ρ)) (scope : Str)
    (policy : RetentionPolicy) (cutoff : ℕ → Str) : Store nlp ρ × RetentionResult :=
  let aged := store.retain_by_age scope policy cutoff
  let counted := aged.1.retain_by_count order scope policy
  (counted.1, ⟨aged.2.archived + counted.2.archived, aged.2.deleted + counted.2.deleted⟩)

/-! ## 2. Runs -/

inductive Op (ρ : Type) where
  | ingest (scope public_id now : Str) (entry : IngestRequest ρ)
  | consolidate (scope public_id now : Str) (request : ConsolidateRequest)
  | apply_retention (scope : Str) (policy : RetentionPolicy) (cutoff : ℕ → Str)

/-- `public_id` is unique. -/
def step (order : RowOrder (KnowledgeEntry ρ)) (store : Store nlp ρ) : Op ρ → Store nlp ρ
  | .ingest scope public_id now entry =>
      if (store.entries.map KnowledgeEntry.public_id).contains public_id then store
      else if room : store.entries.length + 1 < 2 ^ 62 then
        store.ingest scope public_id now entry room
      else store
  | .consolidate scope public_id now request => store.consolidate scope public_id now request
  | .apply_retention scope policy cutoff => (store.apply_retention order scope policy cutoff).1

/-- The operation tries to ingest an entry under this id. -/
def Op.ingests (public_id : Str) : Op ρ → Prop
  | .ingest _ id _ _ => id = public_id
  | _ => False

/-- When the operation consolidates the entry of this id in this scope. -/
def Op.consolidates (scope public_id : Str) : Op ρ → Option Str
  | .consolidate of_scope _ now request =>
      if of_scope = scope ∧ request.source_entry_public_ids.contains public_id then some now
      else none
  | _ => none

/-! ## 3. An entry's two columns -/

theorem mark_all_entries (store : Store nlp ρ) (now scope : Str) (ids : List Str) :
    (store.mark_all now scope ids).entries = store.entries.map fun e =>
      if e.public_id ∈ ids ∧ e.scope = scope ∧ e.consolidated_at = none then
        { e with consolidated_at := some now }
      else e := by
  unfold mark_all
  induction ids generalizing store with
  | nil => simp
  | cons id ids ih =>
      rw [List.foldl_cons, ih]
      simp only [update, List.map_map]
      apply List.map_congr_left
      intro e _
      simp only [Function.comp, mark, List.mem_cons]
      -- an entry that this update marks is not marked again
      by_cases hid : e.public_id = id
      · by_cases hopen : e.scope = scope ∧ e.consolidated_at = none
        · simp [hid, hopen]
        · simp [hid, hopen]
      · simp [hid]

theorem consolidate_entries (store : Store nlp ρ) (scope public_id now : Str)
    (request : ConsolidateRequest) :
    (store.consolidate scope public_id now request).entries = store.entries.map fun e =>
      if e.public_id ∈ request.source_entry_public_ids ∧ e.scope = scope ∧
          e.consolidated_at = none then
        { e with consolidated_at := some now }
      else e :=
  mark_all_entries _ _ _ _

/-- What is there after a policy was there before, perhaps with its raw text. -/
theorem mem_retire {store : Store nlp ρ} {policy : RetentionPolicy} {p : KnowledgeEntry ρ → Bool}
    {e' : KnowledgeEntry ρ} (h : e' ∈ (store.retire policy p).1.entries) :
    ∃ e ∈ store.entries, e' = e ∨ e' = { e with raw_text := none } := by
  rw [retire] at h
  split at h
  · obtain ⟨e, he, rfl⟩ := List.mem_map.1 h
    refine ⟨e, he, ?_⟩
    split
    · exact Or.inr rfl
    · exact Or.inl rfl
  · exact ⟨e', (List.mem_filter.1 h).1, Or.inl rfl⟩

theorem mem_retain_by_age {store : Store nlp ρ} {scope : Str} {policy : RetentionPolicy}
    {cutoff : ℕ → Str} {e' : KnowledgeEntry ρ}
    (h : e' ∈ (store.retain_by_age scope policy cutoff).1.entries) :
    ∃ e ∈ store.entries, e' = e ∨ e' = { e with raw_text := none } := by
  rw [retain_by_age] at h
  split at h
  · exact ⟨e', h, Or.inl rfl⟩
  · exact mem_retire h

theorem mem_retain_by_count {store : Store nlp ρ} {order : RowOrder (KnowledgeEntry ρ)}
    {scope : Str} {policy : RetentionPolicy} {e' : KnowledgeEntry ρ}
    (h : e' ∈ (store.retain_by_count order scope policy).1.entries) :
    ∃ e ∈ store.entries, e' = e ∨ e' = { e with raw_text := none } := by
  rw [retain_by_count] at h
  split at h
  · exact ⟨e', h, Or.inl rfl⟩
  · split at h
    · exact mem_retire h
    · exact ⟨e', h, Or.inl rfl⟩

theorem mem_apply_retention {store : Store nlp ρ} {order : RowOrder (KnowledgeEntry ρ)}
    {scope : Str} {policy : RetentionPolicy} {cutoff : ℕ → Str} {e' : KnowledgeEntry ρ}
    (h : e' ∈ (store.apply_retention order scope policy cutoff).1.entries) :
    ∃ e ∈ store.entries, e' = e ∨ e' = { e with raw_text := none } := by
  obtain ⟨e₁, he₁, hcount⟩ := mem_retain_by_count h
  obtain ⟨e, he, rfl | rfl⟩ := mem_retain_by_age he₁
  · exact ⟨e₁, he, hcount⟩
  · exact ⟨e, he, Or.inr (hcount.elim id id)⟩

/-- **What is known of an entry**: it is the one that was ingested, but for the two columns. -/
def Tracks (ingested : KnowledgeEntry ρ) (consolidated_at : Option Str) (store : Store nlp ρ) :
    Prop :=
  ∀ e ∈ store.entries, e.public_id = ingested.public_id →
    ∃ raw_text, (raw_text = none ∨ raw_text = ingested.raw_text) ∧
      e = { ingested with consolidated_at, raw_text }

/-- **The step lemma**: the first consolidation that names the entry in its scope writes its time;
a later one does not. -/
theorem Tracks.step {ingested : KnowledgeEntry ρ} {consolidated_at : Option Str}
    {store : Store nlp ρ} (h : Tracks ingested consolidated_at store)
    (order : RowOrder (KnowledgeEntry ρ)) {op : Op ρ} (hop : ¬ op.ingests ingested.public_id) :
    Tracks ingested (consolidated_at.or (op.consolidates ingested.scope ingested.public_id))
      (step order store op) := by
  cases op with
  | ingest scope public_id now entry =>
      simp only [Op.consolidates, Option.or_none, Store.step]
      split
      · exact h
      · split
        · intro e he hid
          simp only [ingest, List.mem_append, List.mem_singleton] at he
          rcases he with he | rfl
          · exact h e he hid
          · exact absurd hid hop
        · exact h
  | apply_retention scope policy cutoff =>
      simp only [Op.consolidates, Option.or_none, Store.step]
      intro e' he' hid
      obtain ⟨e, he, rfl | rfl⟩ := mem_apply_retention he'
      · exact h e' he hid
      · obtain ⟨raw_text, -, heq⟩ := h e he hid
        exact ⟨none, Or.inl rfl, by rw [heq]⟩
  | consolidate scope public_id now request =>
      intro e' he' hid
      rw [Store.step, consolidate_entries] at he'
      obtain ⟨e, he, heq'⟩ := List.mem_map.1 he'
      have hid' : e.public_id = ingested.public_id := by
        rw [← hid, ← heq']
        split <;> rfl
      obtain ⟨raw_text, hraw, heq⟩ := h e he hid'
      refine ⟨raw_text, hraw, ?_⟩
      rw [← heq', heq]
      simp only [Op.consolidates]
      cases hat : consolidated_at with
      | some t => simp
      | none =>
          by_cases hscope : scope = ingested.scope
          · by_cases hmem : ingested.public_id ∈ request.source_entry_public_ids
            · simp [hscope, hmem]
            · simp [hmem]
          · simp [hscope, Ne.symm hscope]

/-- **The run lemma.** -/
theorem Tracks.run {ingested : KnowledgeEntry ρ} (order : RowOrder (KnowledgeEntry ρ))
    {ops : List (Op ρ)} (hops : ∀ op ∈ ops, ¬ op.ingests ingested.public_id)
    {consolidated_at : Option Str} {store : Store nlp ρ}
    (h : Tracks ingested consolidated_at store) :
    Tracks ingested (consolidated_at.or
        (ops.filterMap (Op.consolidates ingested.scope ingested.public_id)).head?)
      (Runs.run (Store.step order) store ops) := by
  induction ops generalizing consolidated_at store with
  | nil => simpa using h
  | cons op ops ih =>
      have hstep := h.step order (hops op (by simp))
      have hrest := ih (fun op hop => hops op (by simp [hop])) hstep
      rw [run_cons, List.filterMap_cons]
      cases hop : op.consolidates ingested.scope ingested.public_id with
      | none => simpa [hop] using hrest
      | some t =>
          rw [hop] at hrest
          simp only [Option.or_assoc] at hrest
          simpa using hrest

theorem mem_sql_limit {α : Type} {limit : ℕ} {l : List α} (hlimit : l.length ≤ limit) (a : α) :
    a ∈ sql_limit limit l ↔ a ∈ l := by
  rw [sql_limit]
  split
  · rw [List.take_of_length_le hlimit]
  · exact Iff.rfl

/-- With a limit that is large enough, what is listed is what has no time of consolidation. -/
theorem mem_list_unconsolidated (store : Store nlp ρ) (order : RowOrder (KnowledgeEntry ρ))
    (scope : Str) {limit : ℕ} (hlimit : store.entries.length ≤ limit) (e : KnowledgeEntry ρ) :
    e ∈ store.list_unconsolidated order scope limit ↔
      e ∈ store.entries ∧ e.scope = scope ∧ e.consolidated_at = none := by
  have hperm := perm_order_by order older (store.entries.filter fun e =>
    decide (e.scope = scope) && e.consolidated_at.isNone)
  have hlength : (order_by order older (store.entries.filter fun e =>
      decide (e.scope = scope) && e.consolidated_at.isNone)).length ≤ limit := by
    rw [hperm.length_eq]
    exact le_trans (List.length_filter_le _ _) hlimit
  rw [list_unconsolidated, mem_sql_limit hlength, hperm.mem_iff, List.mem_filter]
  simp

/-- **An entry's life.** After any run that follows its ingestion (with operations on all scopes,
and no other entry of its id), an entry that is still there is as it was ingested, but that
`consolidated_at` is the time of the first consolidation that named it in its scope, if there was
one, and its raw text may be gone. It is listed as unconsolidated when there was none. -/
theorem entry_after_run (order : RowOrder (KnowledgeEntry ρ)) (store : Store nlp ρ)
    (scope public_id now : Str) (entry : IngestRequest ρ)
    (room : store.entries.length + 1 < 2 ^ 62)
    (hnew : public_id ∉ store.entries.map KnowledgeEntry.public_id) (ops : List (Op ρ))
    (hops : ∀ op ∈ ops, ¬ op.ingests public_id) (e : KnowledgeEntry ρ)
    (he : e ∈ (run (step order) (store.ingest scope public_id now entry room) ops).entries)
    (hid : e.public_id = public_id) {limit : ℕ}
    (hlimit : (run (step order) (store.ingest scope public_id now entry room) ops).entries.length ≤
      limit) :
    (∃ raw_text, (raw_text = none ∨ raw_text = some entry.raw_text) ∧
      e = { store.new_entry scope public_id now entry with
        consolidated_at := (ops.filterMap (Op.consolidates scope public_id)).head?, raw_text }) ∧
      (e ∈ (run (step order) (store.ingest scope public_id now entry room) ops).list_unconsolidated
          order scope limit ↔
        ops.filterMap (Op.consolidates scope public_id) = []) := by
  have hstart : Tracks (store.new_entry scope public_id now entry) none
      (store.ingest scope public_id now entry room) := by
    intro e' he' hid'
    simp only [ingest, List.mem_append, List.mem_singleton] at he'
    rcases he' with he' | rfl
    · have hsame : e'.public_id = public_id := hid'
      rw [← hsame] at hnew
      exact absurd (List.mem_map_of_mem he') hnew
    · exact ⟨some entry.raw_text, Or.inr rfl, rfl⟩
  have hrun := hstart.run order hops
  rw [Option.none_or] at hrun
  obtain ⟨raw_text, hraw, heq⟩ := hrun e he hid
  refine ⟨⟨raw_text, hraw, heq⟩, ?_⟩
  rw [mem_list_unconsolidated _ order scope hlimit, ← List.head?_eq_none_iff]
  constructor
  · rintro ⟨-, -, hnone⟩
    rw [heq] at hnone
    exact hnone
  · intro hnone
    exact ⟨he, by rw [heq]; rfl, by rw [heq]; exact hnone⟩

/-- Consolidated twice, and its text archived in between. -/
def sample_ops : List (Op ℤ) :=
  [.consolidate ['s'] ['c'] ['3'] ⟨[['q']], [], [], []⟩,
    .apply_retention ['s'] ⟨none, some 0, true⟩ fun _ => [],
    .consolidate ['s'] ['d'] ['4'] ⟨[['p'], ['q']], [], [], []⟩]

theorem entry_after_run_twice :
    let store := run (step sample_order)
      (sample_store.ingest ['s'] ['q'] ['2'] ⟨[], ['t'], [], [], [], [], 0⟩ (by decide)) sample_ops
    let e : KnowledgeEntry ℤ := ⟨2, ['q'], ['s'], [], none, [], [], [], [], 0, some ['3'], ['2']⟩
    e ∈ store.entries ∧ (e ∈ store.list_unconsolidated sample_order ['s'] 9 ↔
      sample_ops.filterMap (Op.consolidates ['s'] ['q']) = []) :=
  ⟨by decide +kernel, (entry_after_run sample_order sample_store ['s'] ['q'] ['2'] _ (by decide)
    (by decide) sample_ops (by simp [sample_ops, Op.ingests]) _ (by decide +kernel) rfl
    (by decide +kernel)).2⟩

/-! ## 4. Retention -/

instance : Std.Total (older (ρ := ρ)) where
  total e e' := by
    by_cases h : e'.created_at < e.created_at
    · exact Or.inr (lt_asymm h)
    · exact Or.inl h

instance : IsTrans (KnowledgeEntry ρ) older where
  trans e e' e'' h h' := by
    simp only [older, not_lt] at h h' ⊢
    exact le_trans h h'

@[simp] theorem delete_entries (store : Store nlp ρ) (p : KnowledgeEntry ρ → Bool) :
    (store.delete p).entries = store.entries.filter fun e => !p e := rfl

@[simp] theorem archive_entries (store : Store nlp ρ) (p : KnowledgeEntry ρ → Bool) :
    (store.archive p).entries =
      store.entries.map fun e => if p e then { e with raw_text := none } else e := rfl

theorem mem_in_scope {store : Store nlp ρ} {scope : Str} {e : KnowledgeEntry ρ} :
    e ∈ store.in_scope scope ↔ e ∈ store.entries ∧ e.scope = scope := by
  rw [in_scope, List.mem_filter, decide_eq_true_eq]

/-- Rows stay with the entries they belong to. -/
theorem kept_rows_self {entries : List (KnowledgeEntry ρ)} {rows : List TermRow}
    (h : Owned entries rows) : kept_rows entries rows = rows := by
  rw [kept_rows, List.filter_eq_self]
  intro r hr
  exact decide_eq_true (h r hr)

theorem delete_none {store : Store nlp ρ} {p : KnowledgeEntry ρ → Bool}
    (h : ∀ e ∈ store.entries, p e = false) : store.delete p = store := by
  have hentries : (store.entries.filter fun e => !p e) = store.entries := by
    rw [List.filter_eq_self]
    intro e he
    simp [h e he]
  have hentity := kept_rows_self store.entities_owned
  have htopic := kept_rows_self store.topics_owned
  cases store
  simp only [delete, mk.injEq, hentries]
  exact ⟨trivial, hentity, htopic, trivial⟩

theorem filter_none {entries : List (KnowledgeEntry ρ)} {p : KnowledgeEntry ρ → Bool}
    (h : ∀ e ∈ entries, p e = false) : entries.filter p = [] := by
  simpa using h

theorem in_scope_delete (store : Store nlp ρ) (p : KnowledgeEntry ρ → Bool) (scope : Str) :
    (store.delete p).in_scope scope = (store.in_scope scope).filter fun e => !p e := by
  simp only [in_scope, delete_entries, List.filter_filter]
  apply List.filter_congr
  intro e _
  exact Bool.and_comm _ _

/-- The entries split into the oldest, so many, and the rest, none of which is older. -/
theorem oldest_split (store : Store nlp ρ) (order : RowOrder (KnowledgeEntry ρ)) (scope : Str)
    (n : ℕ) : ∃ front back : List (KnowledgeEntry ρ),
      ((store.in_scope scope).filter fun e =>
        decide (e.id ∈ store.oldest_ids order scope n)).Perm front ∧
      ((store.in_scope scope).filter fun e =>
        !decide (e.id ∈ store.oldest_ids order scope n)).Perm back ∧
      front.length + back.length = (store.in_scope scope).length ∧
      front.length = min n (store.in_scope scope).length ∧
      ∀ d ∈ front, ∀ k ∈ back, older d k := by
  have hperm := perm_order_by order older (store.in_scope scope)
  have hkeys : ((store.in_scope scope).map KnowledgeEntry.id).Nodup :=
    store.ids.sublist (List.filter_sublist.map _)
  obtain ⟨hfront, hback⟩ := perm_filter_take hkeys hperm n
  have hsorted := pairwise_order_by order older (store.in_scope scope)
  rw [← List.take_append_drop n (order_by order older (store.in_scope scope)),
    List.pairwise_append] at hsorted
  refine ⟨_, _, hfront, hback, ?_, ?_, hsorted.2.2⟩
  · rw [← List.length_append, List.take_append_drop, hperm.length_eq]
  · rw [List.length_take, hperm.length_eq]

/-- The excess, where the policy bounds the number. -/
def is_over (store : Store nlp ρ) (order : RowOrder (KnowledgeEntry ρ)) (scope : Str)
    (policy : RetentionPolicy) (e : KnowledgeEntry ρ) : Bool :=
  policy.max_entries.any fun max_entries => store.is_excess order scope max_entries e

theorem is_excess_none {store : Store nlp ρ} {order : RowOrder (KnowledgeEntry ρ)} {scope : Str}
    {m : ℤ} (h : (store.in_scope scope).length ≤ m.toNat) (e : KnowledgeEntry ρ) :
    store.is_excess order scope m e = false := by
  -- with a negative bound there is no entry, else there are not too many
  have hids : store.oldest_ids order scope ((store.in_scope scope).length - m).toNat = [] := by
    rw [oldest_ids, List.map_eq_nil_iff]
    apply List.eq_nil_of_length_eq_zero
    rw [List.length_take, (perm_order_by order older _).length_eq]
    omega
  simp [is_excess, hids]

theorem is_over_none {store : Store nlp ρ} {order : RowOrder (KnowledgeEntry ρ)} {scope : Str}
    {policy : RetentionPolicy}
    (h : ∀ m ∈ policy.max_entries, (store.in_scope scope).length ≤ m.toNat)
    (e : KnowledgeEntry ρ) : store.is_over order scope policy e = false := by
  rw [is_over]
  cases hmax : policy.max_entries with
  | none => rfl
  | some m => exact is_excess_none (h m hmax) e

theorem in_scope_of_is_old {scope : Str} {policy : RetentionPolicy} {cutoff : ℕ → Str}
    {e : KnowledgeEntry ρ} (h : is_old scope policy cutoff e = true) : e.scope = scope := by
  simp only [is_old, Bool.and_eq_true, decide_eq_true_eq] at h
  exact h.1

theorem in_scope_of_is_over {store : Store nlp ρ} {order : RowOrder (KnowledgeEntry ρ)}
    {scope : Str} {policy : RetentionPolicy} {e : KnowledgeEntry ρ}
    (h : store.is_over order scope policy e = true) : e.scope = scope := by
  rw [is_over, Option.any_eq_true] at h
  obtain ⟨m, -, hm⟩ := h
  simp only [is_excess, Bool.and_eq_true, decide_eq_true_eq] at hm
  exact hm.1

theorem archive_none {store : Store nlp ρ} {p : KnowledgeEntry ρ → Bool}
    (h : ∀ e ∈ store.entries, p e = false) : store.archive p = store := by
  have hentries : (store.entries.map fun e => if p e then { e with raw_text := none } else e) =
      store.entries := by
    rw [List.map_congr_left fun e he => by rw [h e he, if_neg Bool.false_ne_true], List.map_id']
  cases store
  simp only [archive, update, hentries]

/-- A half of a policy that selects nothing does nothing. -/
theorem retire_none (store : Store nlp ρ) (policy : RetentionPolicy) {p : KnowledgeEntry ρ → Bool}
    (h : ∀ e ∈ store.entries, p e = false) : store.retire policy p = (store, ⟨0, 0⟩) := by
  have hraw : ∀ e ∈ store.entries, (p e && e.raw_text.isSome) = false := by
    intro e he
    rw [h e he, Bool.false_and]
  unfold retire
  split
  · rw [archive_none h, filter_none hraw, List.length_nil]
  · rw [delete_none h, filter_none h, List.length_nil]

theorem retain_by_age_eq (store : Store nlp ρ) (scope : Str) (policy : RetentionPolicy)
    (cutoff : ℕ → Str) : store.retain_by_age scope policy cutoff =
      store.retire policy (is_old scope policy cutoff) := by
  unfold retain_by_age
  cases hdays : policy.max_age_days with
  | some days => rfl
  | none => exact (store.retire_none policy (by simp [is_old, hdays])).symm

theorem retain_by_count_eq (store : Store nlp ρ) (order : RowOrder (KnowledgeEntry ρ))
    (scope : Str) (policy : RetentionPolicy) : store.retain_by_count order scope policy =
      store.retire policy (store.is_over order scope policy) := by
  by_cases h : ∀ m ∈ policy.max_entries, ((store.in_scope scope).length : ℤ) ≤ m
  · have hnone : ∀ e, store.is_over order scope policy e = false :=
      is_over_none fun m hm => by
        have := h m hm
        omega
    rw [store.retire_none policy fun e _ => hnone e]
    unfold retain_by_count
    split
    · rfl
    · next m hm => rw [if_neg (not_lt.2 (h m hm))]
  · push Not at h
    obtain ⟨m, hm, hlt⟩ := h
    have hover : store.is_over order scope policy = store.is_excess order scope m := by
      funext e
      rw [is_over, hm, Option.any_some]
    rw [retain_by_count, hm, hover]
    simp only [hlt, if_true]

/-- A policy that deletes takes the old entries first, then the excess of the others. -/
theorem apply_retention_delete (store : Store nlp ρ) (order : RowOrder (KnowledgeEntry ρ))
    (scope : Str) {policy : RetentionPolicy} (cutoff : ℕ → Str)
    (hdelete : policy.archive_raw_text = false) :
    let young := store.delete (is_old scope policy cutoff)
    store.apply_retention order scope policy cutoff =
      (young.delete (young.is_over order scope policy),
        ⟨0, (store.entries.filter (is_old scope policy cutoff)).length +
          (young.entries.filter (young.is_over order scope policy)).length⟩) := by
  simp only [apply_retention, retain_by_age_eq, retain_by_count_eq, retire, hdelete,
    Bool.false_eq_true, if_false, Nat.add_zero]

/-- The statement's count is the number of entries that the scope loses. -/
theorem length_in_scope_delete (store : Store nlp ρ) {p : KnowledgeEntry ρ → Bool} {scope : Str}
    (hp : ∀ e, p e = true → e.scope = scope) :
    ((store.delete p).in_scope scope).length + (store.entries.filter p).length =
      (store.in_scope scope).length := by
  have hsame : store.entries.filter p = (store.in_scope scope).filter p := by
    rw [in_scope, List.filter_filter]
    apply List.filter_congr
    intro e _
    by_cases h : p e = true
    · simp [h, hp e h]
    · simp [h]
  rw [in_scope_delete, hsame, add_comm]
  exact (List.length_eq_length_filter_add _).symm

/-- Rows of another scope stay. -/
theorem other_scope_delete (store : Store nlp ρ) {p : KnowledgeEntry ρ → Bool} {scope : Str}
    (hp : ∀ e, p e = true → e.scope = scope) {other : Str} (hne : other ≠ scope) :
    (store.delete p).in_scope other = store.in_scope other := by
  rw [in_scope_delete, List.filter_eq_self]
  intro e he
  rw [mem_in_scope] at he
  by_cases h : p e = true
  · exact absurd (he.2.symm.trans (hp e h)) hne
  · simp [h]

/-- What the count half leaves of a scope. -/
theorem in_scope_over (store : Store nlp ρ) (order : RowOrder (KnowledgeEntry ρ)) (scope : Str)
    (policy : RetentionPolicy) :
    let kept := (store.delete (store.is_over order scope policy)).in_scope scope
    kept.length = policy.max_entries.elim (store.in_scope scope).length
        (fun m => min (store.in_scope scope).length m.toNat) ∧
      ∀ d ∈ store.in_scope scope, d ∉ kept → ∀ k ∈ kept, older d k := by
  intro kept
  cases hmax : policy.max_entries with
  | none =>
      have hkept : kept = store.in_scope scope := by
        have hnone : ∀ e, store.is_over order scope policy e = false :=
          is_over_none (by simp [hmax])
        simp only [kept, delete_none fun e _ => hnone e]
      rw [hkept]
      exact ⟨rfl, fun d hd hnot => absurd hd hnot⟩
  | some m =>
      obtain ⟨front, back, hfront, hback, hsum, hlength, hsplit⟩ := store.oldest_split order scope
        ((store.in_scope scope).length - m).toNat
      have hkept : kept.Perm back := by
        refine List.Perm.trans (List.Perm.of_eq ?_) hback
        simp only [kept, in_scope_delete]
        apply List.filter_congr
        intro e he
        simp [is_over, hmax, is_excess, (mem_in_scope.1 he).2]
      constructor
      · rw [Option.elim_some, hkept.length_eq]
        omega
      · intro d hd hnot k hk
        apply hsplit d _ k (hkept.mem_iff.1 hk)
        rw [← hfront.mem_iff, List.mem_filter]
        refine ⟨hd, ?_⟩
        by_contra hout
        exact hnot (hkept.mem_iff.2 (hback.mem_iff.1 (List.mem_filter.2 ⟨hd, by simpa using hout⟩)))

/-- **A policy that deletes.** It leaves the other scopes alone, and of its own none of the old
entries and of the others no more than it allows, as many as it can; every entry that goes for the
number is at least as old as every one that stays. The count it returns is that of the entries
gone, and to apply it again changes nothing. -/
theorem retention_deletes_oldest (store : Store nlp ρ) (order : RowOrder (KnowledgeEntry ρ))
    (scope : Str) (policy : RetentionPolicy) (cutoff : ℕ → Str)
    (hdelete : policy.archive_raw_text = false) :
    let young := (store.in_scope scope).filter fun e => !is_old scope policy cutoff e
    let after := (store.apply_retention order scope policy cutoff).1
    (∀ other, other ≠ scope → after.in_scope other = store.in_scope other) ∧
      (after.in_scope scope).Sublist young ∧
      (after.in_scope scope).length = policy.max_entries.elim young.length
        (fun m => min young.length m.toNat) ∧
      (∀ d ∈ young, d ∉ after.in_scope scope → ∀ k ∈ after.in_scope scope, older d k) ∧
      (store.apply_retention order scope policy cutoff).2 =
        ⟨0, (store.in_scope scope).length - (after.in_scope scope).length⟩ ∧
      after.apply_retention order scope policy cutoff = (after, ⟨0, 0⟩) := by
  intro young after
  have happly := store.apply_retention_delete order scope cutoff hdelete
  set aged := store.delete (is_old scope policy cutoff) with haged
  have hyoung : aged.in_scope scope = young := in_scope_delete _ _ _
  have hafter : after = aged.delete (aged.is_over order scope policy) := by
    simp only [after, happly]
  have hold : ∀ e : KnowledgeEntry ρ, is_old scope policy cutoff e = true → e.scope = scope :=
    fun _ => in_scope_of_is_old
  have hover : ∀ e, aged.is_over order scope policy e = true → e.scope = scope :=
    fun _ => in_scope_of_is_over
  obtain ⟨hlength, hsplit⟩ := aged.in_scope_over order scope policy
  rw [← hafter, hyoung] at hlength hsplit
  have hsub : (after.in_scope scope).Sublist young := by
    rw [hafter, in_scope_delete, hyoung]
    exact List.filter_sublist
  refine ⟨?_, hsub, hlength, hsplit, ?_, ?_⟩
  · intro other hne
    rw [hafter, aged.other_scope_delete hover hne, haged, store.other_scope_delete hold hne]
  · have hfirst := store.length_in_scope_delete hold
    have hsecond := aged.length_in_scope_delete hover
    rw [← haged] at hfirst
    rw [← hafter] at hsecond
    rw [happly]
    simp only [RetentionResult.mk.injEq, true_and]
    omega
  · -- none of the entries left is old, and there are not too many of them
    have hnone : ∀ e ∈ after.entries, is_old scope policy cutoff e = false := by
      intro e he
      rw [hafter, delete_entries, List.mem_filter, haged, delete_entries, List.mem_filter] at he
      simpa using he.1.2
    have hfew : ∀ e, after.is_over order scope policy e = false := by
      apply is_over_none
      intro m hm
      rw [hlength, hm, Option.elim_some]
      exact min_le_right _ _
    rw [after.apply_retention_delete order scope cutoff hdelete]
    simp only [delete_none hnone, delete_none fun e _ => hfew e, filter_none hnone,
      filter_none fun e _ => hfew e, List.length_nil, Nat.add_zero]

/-- Two entries, one too many. -/
def sample_full : Store sample_nlp ℤ :=
  sample_store.ingest ['s'] ['q'] ['2'] ⟨[], ['t'], [], [], [], [], 0⟩ (by decide)

theorem retention_deletes_first :
    let after := (sample_full.apply_retention sample_order ['s'] ⟨none, some 1, false⟩
      fun _ => []).1
    (after.in_scope ['s']).length = 1 ∧
      after.apply_retention sample_order ['s'] ⟨none, some 1, false⟩ (fun _ => []) =
        (after, ⟨0, 0⟩) :=
  ⟨by decide +kernel, (retention_deletes_oldest sample_full sample_order ['s'] ⟨none, some 1, false⟩
    (fun _ => []) rfl).2.2.2.2.2⟩

/-! ## 5. Retention without the texts -/

theorem in_scope_archive (store : Store nlp ρ) (p : KnowledgeEntry ρ → Bool) (scope : Str) :
    (store.archive p).in_scope scope = (store.in_scope scope).map fun e =>
      if p e then { e with raw_text := none } else e := by
  rw [in_scope, archive_entries, List.filter_map, in_scope]
  congr 1
  apply List.filter_congr
  intro e _
  simp only [Function.comp]
  split <;> rfl

/-- The entries of a scope that still have their text. -/
def with_text (store : Store nlp ρ) (scope : Str) : List (KnowledgeEntry ρ) :=
  (store.in_scope scope).filter fun e => e.raw_text.isSome

/-- Archiving keeps the texts of those it does not select. -/
theorem with_text_archive (store : Store nlp ρ) (p : KnowledgeEntry ρ → Bool) (scope : Str) :
    (store.archive p).with_text scope = (store.with_text scope).filter fun e => !p e := by
  rw [with_text, in_scope_archive, with_text]
  induction store.in_scope scope with
  | nil => rfl
  | cons e l ih =>
      by_cases hp : p e = true
      · by_cases hraw : e.raw_text.isSome = true
        · simp [hp, hraw, ih]
        · simp [hp, hraw, ih]
      · by_cases hraw : e.raw_text.isSome = true
        · simp [hp, hraw, ih]
        · simp [hp, hraw, ih]

/-- Entries of another scope keep theirs. -/
theorem other_scope_archive (store : Store nlp ρ) {p : KnowledgeEntry ρ → Bool} {scope : Str}
    (hp : ∀ e, p e = true → e.scope = scope) {other : Str} (hne : other ≠ scope) :
    (store.archive p).in_scope other = store.in_scope other := by
  rw [in_scope_archive]
  conv_rhs => rw [← List.map_id (store.in_scope other)]
  apply List.map_congr_left
  intro e he
  rw [mem_in_scope] at he
  by_cases h : p e = true
  · exact absurd (he.2.symm.trans (hp e h)) hne
  · simp [h]

/-- The statement's count is the number of texts that the scope loses. -/
theorem length_with_text_archive (store : Store nlp ρ) {p : KnowledgeEntry ρ → Bool} {scope : Str}
    (hp : ∀ e, p e = true → e.scope = scope) :
    ((store.archive p).with_text scope).length +
        (store.entries.filter fun e => p e && e.raw_text.isSome).length =
      (store.with_text scope).length := by
  have hsame : (store.entries.filter fun e => p e && e.raw_text.isSome) =
      (store.with_text scope).filter p := by
    rw [with_text, in_scope, List.filter_filter, List.filter_filter]
    apply List.filter_congr
    intro e _
    by_cases h : p e = true
    · simp [h, hp e h]
    · simp [h]
  rw [with_text_archive, hsame, add_comm]
  exact (List.length_eq_length_filter_add _).symm

theorem archive_without_text (store : Store nlp ρ) (p : KnowledgeEntry ρ → Bool) :
    ((store.archive p).entries.map fun e => { e with raw_text := none }) =
      store.entries.map fun e => { e with raw_text := none } := by
  rw [archive_entries, List.map_map]
  apply List.map_congr_left
  intro e _
  simp only [Function.comp]
  split <;> rfl

/-- Which of the texts the count half takes. -/
theorem with_text_over (store : Store nlp ρ) (order : RowOrder (KnowledgeEntry ρ)) (scope : Str)
    (policy : RetentionPolicy) :
    let kept := (store.archive (store.is_over order scope policy)).with_text scope
    (∀ m ∈ policy.max_entries, kept.length ≤ m.toNat ∧
      (store.with_text scope).length ≤ kept.length + ((store.in_scope scope).length - m.toNat)) ∧
      (policy.max_entries = none → kept = store.with_text scope) ∧
      ∀ d ∈ store.with_text scope, d ∉ kept → ∀ k ∈ kept, older d k := by
  intro kept
  have hkept : kept = (store.with_text scope).filter fun e =>
      !store.is_over order scope policy e := with_text_archive _ _ _
  cases hmax : policy.max_entries with
  | none =>
      have hnone : ∀ e, store.is_over order scope policy e = false :=
        is_over_none (by simp [hmax])
      have hall : kept = store.with_text scope := by simp [hkept, hnone]
      rw [hall]
      exact ⟨by simp, fun _ => rfl, fun d hd hnot => absurd hd hnot⟩
  | some m =>
      obtain ⟨front, back, hfront, hback, hsum, hlength, hsplit⟩ := store.oldest_split order scope
        ((store.in_scope scope).length - m).toNat
      have hover : ∀ e ∈ store.in_scope scope, store.is_over order scope policy e =
          decide (e.id ∈ store.oldest_ids order scope
            ((store.in_scope scope).length - m).toNat) := by
        intro e he
        simp [is_over, hmax, is_excess, (mem_in_scope.1 he).2]
      have htext : ∀ e ∈ store.with_text scope, e ∈ store.in_scope scope :=
        fun e he => (List.mem_filter.1 he).1
      -- an entry with its text stays with it just when it is not among the oldest
      have hfront' : ∀ e ∈ store.with_text scope, e ∉ kept → e ∈ front := by
        intro e he hnot
        rw [← hfront.mem_iff, List.mem_filter, ← hover e (htext e he)]
        refine ⟨htext e he, ?_⟩
        by_contra hout
        apply hnot
        rw [hkept, List.mem_filter]
        exact ⟨he, by simpa using hout⟩
      have hback' : ∀ e ∈ kept, e ∈ back := by
        intro e he
        rw [hkept, List.mem_filter] at he
        rw [← hback.mem_iff, List.mem_filter, ← hover e (htext e he.1)]
        exact ⟨htext e he.1, he.2⟩
      refine ⟨?_, by simp, fun d hd hnot k hk => hsplit d (hfront' d hd hnot) k (hback' k hk)⟩
      intro m' hm'
      obtain rfl : m = m' := by simpa using hm'
      have hrest : ((store.in_scope scope).filter fun e =>
          !store.is_over order scope policy e).Perm back := by
        refine List.Perm.trans (List.Perm.of_eq (List.filter_congr fun e he => ?_)) hback
        rw [hover e he]
      have hsome : kept.length ≤ back.length := by
        rw [hkept, ← hrest.length_eq, with_text, List.filter_comm]
        exact List.length_filter_le _ _
      have hlost : ((store.with_text scope).filter (store.is_over order scope policy)).length ≤
          front.length := by
        rw [← hfront.length_eq, with_text, List.filter_comm, List.filter_congr hover]
        exact List.length_filter_le _ _
      have hparts := List.length_eq_length_filter_add (l := store.with_text scope)
        (store.is_over order scope policy)
      rw [← hkept] at hparts
      omega

/-- **A policy that archives.** It changes nothing but the texts, and those of no other scope. No
old entry keeps its text; of the others no more than the policy allows, and it takes the text of
no more than the scope has entries too many, archived ones counted. Every text that goes for the
number is at least as old as every one that stays. It returns the number of the texts gone. -/
theorem retention_archives_oldest (store : Store nlp ρ) (order : RowOrder (KnowledgeEntry ρ))
    (scope : Str) (policy : RetentionPolicy) (cutoff : ℕ → Str)
    (harchive : policy.archive_raw_text = true) :
    let young := (store.with_text scope).filter fun e => !is_old scope policy cutoff e
    let after := (store.apply_retention order scope policy cutoff).1
    (after.entries.map fun e => { e with raw_text := none }) =
        (store.entries.map fun e => { e with raw_text := none }) ∧
      (∀ other, other ≠ scope → after.in_scope other = store.in_scope other) ∧
      (after.with_text scope).Sublist young ∧
      (∀ m ∈ policy.max_entries, (after.with_text scope).length ≤ m.toNat ∧
        young.length ≤ (after.with_text scope).length +
          ((store.in_scope scope).length - m.toNat)) ∧
      (policy.max_entries = none → after.with_text scope = young) ∧
      (∀ d ∈ young, d ∉ after.with_text scope → ∀ k ∈ after.with_text scope, older d k) ∧
      (store.apply_retention order scope policy cutoff).2 =
        ⟨(store.with_text scope).length - (after.with_text scope).length, 0⟩ := by
  intro young after
  set aged := store.archive (is_old scope policy cutoff) with haged
  have happly : store.apply_retention order scope policy cutoff =
      (aged.archive (aged.is_over order scope policy),
        ⟨(store.entries.filter fun e =>
            is_old scope policy cutoff e && e.raw_text.isSome).length +
          (aged.entries.filter fun e =>
            aged.is_over order scope policy e && e.raw_text.isSome).length, 0⟩) := by
    simp only [apply_retention, retain_by_age_eq, retain_by_count_eq, retire, harchive, if_true,
      Nat.add_zero, haged]
  have hafter : after = aged.archive (aged.is_over order scope policy) := by
    simp only [after, happly]
  have hyoung : aged.with_text scope = young := with_text_archive _ _ _
  have hcount : (aged.in_scope scope).length = (store.in_scope scope).length := by
    rw [haged, in_scope_archive, List.length_map]
  have hold : ∀ e : KnowledgeEntry ρ, is_old scope policy cutoff e = true → e.scope = scope :=
    fun _ => in_scope_of_is_old
  have hover : ∀ e, aged.is_over order scope policy e = true → e.scope = scope :=
    fun _ => in_scope_of_is_over
  obtain ⟨hbound, hall, hsplit⟩ := aged.with_text_over order scope policy
  rw [← hafter, hyoung] at hbound hall hsplit
  rw [hcount] at hbound
  refine ⟨?_, ?_, ?_, hbound, hall, hsplit, ?_⟩
  · rw [hafter, archive_without_text, haged, archive_without_text]
  · intro other hne
    rw [hafter, aged.other_scope_archive hover hne, haged, store.other_scope_archive hold hne]
  · rw [hafter, with_text_archive, hyoung]
    exact List.filter_sublist
  · have hfirst := store.length_with_text_archive hold
    have hsecond := aged.length_with_text_archive hover
    rw [← haged] at hfirst
    rw [← hafter] at hsecond
    rw [happly]
    simp only [RetentionResult.mk.injEq, and_true]
    omega

theorem retention_archives_first :
    (sample_full.apply_retention sample_order ['s'] ⟨none, some 0, true⟩ fun _ => []).2 = ⟨1, 0⟩ ∧
      ((sample_full.apply_retention sample_order ['s'] ⟨none, some 0, true⟩
        fun _ => []).1.entries.map fun e => { e with raw_text := none }) =
          sample_full.entries.map fun e => { e with raw_text := none } :=
  ⟨by decide +kernel, (retention_archives_oldest sample_full sample_order ['s'] ⟨none, some 0, true⟩
    (fun _ => []) rfl).1⟩

end Store

end Querymt.Knowledge
