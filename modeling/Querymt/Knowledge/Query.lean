/-
`Knowledge/Query.lean` -- what a question finds in the knowledge store.

Mirrors `ingest` and `query` of `SqliteKnowledgeStore` (`knowledge/sqlite.rs`) and the
keywords of `knowledge/text_processing.rs`. In hybrid mode the candidates come from two
selections, the full-text index and the tables of entities and topics, of which SQL takes the
union.

# One entry, two rows

The rows of the union carry their rank. An entry that both selections find has two ranks, one
with its text relevance and one without, and so two rows, unless the ranks are equal.

# Two stemmers

Entities and topics are stored with their English stems; the keywords are stemmed in the
language of the question.

The result is what it has to be when the stems agree and no second row is among the first
rows (`query_answers`). The full-text index, its ranking, the stemmers and the arithmetic of
SQLite's reals are arbitrary.
-/
import Mathlib
import Querymt.Library.Rankings
import Querymt.Library.Strings
import Querymt.Library.Tables

set_option autoImplicit false

open Strings Tables Rankings

namespace Querymt.Knowledge

/-! ## 1. Keywords -/

/-- `Algorithm` is that of the stemming library. -/
structure DetectedLanguage (Algorithm : Type) where
  stopword_code : String
  stemmer_algorithm : Option Algorithm

/-- The libraries for texts. `detect_lang` is the detection with the table of the languages,
which has English for a language without stop words. -/
structure TextProcessing (Algorithm : Type) where
  to_lowercase : Str → Str
  is_alphanumeric : Char → Bool
  detect_lang : Str → Option (DetectedLanguage Algorithm)
  get_stopwords : String → List Str
  english : Algorithm
  stem : Algorithm → Str → Str

namespace TextProcessing

variable {Algorithm : Type} (nlp : TextProcessing Algorithm)

def ENGLISH : DetectedLanguage Algorithm := ⟨"en", some nlp.english⟩

def detect_language (text : Str) : DetectedLanguage Algorithm :=
  if (split_whitespace text).length < 3 then nlp.ENGLISH
  else (nlp.detect_lang text).getD nlp.ENGLISH

/-- The keywords of a question, without the stop words of its language. -/
def extract_keywords (question : Str) : List Str × DetectedLanguage Algorithm :=
  let lang := nlp.detect_language question
  let stopwords := nlp.get_stopwords lang.stopword_code
  (((nlp.to_lowercase question).splitOnP fun c =>
      !nlp.is_alphanumeric c && decide (c ≠ '_') && decide (c ≠ '-')).filter fun w =>
    decide (2 ≤ byte_len w) && !stopwords.contains w, lang)

def stem_word (word : Str) (lang : DetectedLanguage Algorithm) : Str :=
  match lang.stemmer_algorithm with
  | some algo => nlp.stem algo word
  | none => word

def stem_keywords (keywords : List Str) (lang : DetectedLanguage Algorithm) : List Str :=
  keywords.map fun kw => nlp.stem_word kw lang

def normalize_term (term : Str) : Str := nlp.stem nlp.english (nlp.to_lowercase term)

end TextProcessing

/-- The keywords in quotes, with `OR` between them. -/
def build_fts5_query (keywords : List Str) : Option Str :=
  if keywords = [] then none
  else some (List.intercalate " OR ".toList
    (keywords.map fun kw => '"' :: (replace ['"'] ['"', '"'] kw ++ ['"'])))

/-! ## 2. The store -/

/-- A row of `knowledge_entries`, with its JSON columns read; `ρ` are SQLite's reals. -/
structure KnowledgeEntry (ρ : Type) where
  id : ℕ
  public_id : Str
  scope : Str
  source : Str
  raw_text : Option Str
  summary : Str
  entities : List Str
  topics : List Str
  connections : List Str
  importance : ρ
  consolidated_at : Option Str
  created_at : Str
  deriving DecidableEq

/-- A row of `knowledge_entry_entities` or `knowledge_entry_topics`. -/
structure TermRow where
  entry_id : ℕ
  term : Str
  normalized : Str
  deriving DecidableEq

/-- The rows of an entry are its terms with their normalised forms. -/
def Indexed {ρ : Type} (normalize_term : Str → Str) (terms : KnowledgeEntry ρ → List Str)
    (entries : List (KnowledgeEntry ρ)) (rows : List TermRow) : Prop :=
  ∀ e ∈ entries, (rows.filter fun r => r.entry_id = e.id) =
    (terms e).map fun t => ⟨e.id, t, normalize_term t⟩

/-- A row belongs to an entry, with which it is deleted. -/
def Owned {ρ : Type} (entries : List (KnowledgeEntry ρ)) (rows : List TermRow) : Prop :=
  ∀ r ∈ rows, r.entry_id ∈ entries.map KnowledgeEntry.id

structure Consolidation where
  id : ℕ
  public_id : Str
  scope : Str
  source_entry_public_ids : List Str
  summary : Str
  insight : Str
  connections : List Str
  created_at : Str

/-- The tables. There are fewer rows than a table can have. -/
structure Store {Algorithm : Type} (nlp : TextProcessing Algorithm) (ρ : Type) where
  entries : List (KnowledgeEntry ρ)
  entity_rows : List TermRow
  topic_rows : List TermRow
  consolidations : List Consolidation
  ids : (entries.map KnowledgeEntry.id).Nodup
  entities_indexed : Indexed nlp.normalize_term KnowledgeEntry.entities entries entity_rows
  topics_indexed : Indexed nlp.normalize_term KnowledgeEntry.topics entries topic_rows
  entities_owned : Owned entries entity_rows
  topics_owned : Owned entries topic_rows
  fits : entries.length < 2 ^ 62

structure IngestRequest (ρ : Type) where
  source : Str
  raw_text : Str
  summary : Str
  entities : List Str
  topics : List Str
  connections : List Str
  importance : ρ

section

variable {ρ : Type} {normalize_term : Str → Str} {terms : KnowledgeEntry ρ → List Str}
  {entries : List (KnowledgeEntry ρ)} {rows : List TermRow} {e : KnowledgeEntry ρ}

theorem Owned.insert (h : Owned entries rows) :
    Owned (entries ++ [e]) (rows ++ (terms e).map fun t => ⟨e.id, t, normalize_term t⟩) := by
  intro r hr
  rw [List.map_append, List.mem_append]
  obtain hr | hr := List.mem_append.1 hr
  · exact .inl (h r hr)
  · obtain ⟨t, -, rfl⟩ := List.mem_map.1 hr
    exact .inr (List.mem_singleton.2 rfl)

/-- The rows of a new entry come behind those of the others, none of which is its own. -/
theorem Indexed.insert (h : Indexed normalize_term terms entries rows) (howned : Owned entries rows)
    (hnew : e.id ∉ entries.map KnowledgeEntry.id) :
    Indexed normalize_term terms (entries ++ [e])
      (rows ++ (terms e).map fun t => ⟨e.id, t, normalize_term t⟩) := by
  intro e' he'
  rw [List.filter_append]
  obtain he' | he' := List.mem_append.1 he'
  · have hne : e.id ≠ e'.id := fun heq => hnew (heq ▸ List.mem_map_of_mem he')
    have hnone : ((terms e).map fun t => (⟨e.id, t, normalize_term t⟩ : TermRow)).filter
        (fun r => r.entry_id = e'.id) = [] := by
      apply List.filter_eq_nil_iff.2
      intro r hr
      obtain ⟨t, -, rfl⟩ := List.mem_map.1 hr
      simpa using hne
    rw [hnone, List.append_nil, h e' he']
  · obtain rfl := List.mem_singleton.1 he'
    have hnone : rows.filter (fun r => r.entry_id = e'.id) = [] := by
      apply List.filter_eq_nil_iff.2
      intro r hr
      have hid : r.entry_id ≠ e'.id := fun heq => hnew (heq ▸ howned r hr)
      simpa using hid
    have hall : ((terms e').map fun t => (⟨e'.id, t, normalize_term t⟩ : TermRow)).filter
        (fun r => r.entry_id = e'.id) = (terms e').map fun t => ⟨e'.id, t, normalize_term t⟩ := by
      apply List.filter_eq_self.2
      intro r hr
      obtain ⟨t, -, rfl⟩ := List.mem_map.1 hr
      simp
    rw [hnone, hall, List.nil_append]

end

namespace Store

variable {Algorithm ρ : Type} {nlp : TextProcessing Algorithm}

/-- The row id that SQLite takes next. -/
def next_id (store : Store nlp ρ) : ℕ := ((store.entries.map KnowledgeEntry.id).max?.getD 0) + 1

theorem next_id_new (store : Store nlp ρ) :
    store.next_id ∉ store.entries.map KnowledgeEntry.id := by
  intro h
  unfold next_id at h
  cases hmax : (store.entries.map KnowledgeEntry.id).max? with
  | none =>
      rw [List.max?_eq_none_iff.1 hmax] at h
      exact List.not_mem_nil h
  | some m =>
      rw [hmax] at h
      have hle := (List.max?_eq_some_iff.1 hmax).2 _ h
      rw [Option.getD_some] at hle
      omega

/-- The row that is inserted for a request. -/
def new_entry (store : Store nlp ρ) (scope public_id now : Str) (entry : IngestRequest ρ) :
    KnowledgeEntry ρ where
  id := store.next_id
  public_id := public_id
  scope := scope
  source := entry.source
  raw_text := some entry.raw_text
  summary := entry.summary
  entities := entry.entities
  topics := entry.topics
  connections := entry.connections
  importance := entry.importance
  consolidated_at := none
  created_at := now

/-- `ingest`: the entry and the normalised forms of its entities and topics. -/
def ingest (store : Store nlp ρ) (scope public_id now : Str) (entry : IngestRequest ρ)
    (room : store.entries.length + 1 < 2 ^ 62) : Store nlp ρ :=
  let e := store.new_entry scope public_id now entry
  { entries := store.entries ++ [e]
    entity_rows := store.entity_rows ++ e.entities.map fun t => ⟨e.id, t, nlp.normalize_term t⟩
    topic_rows := store.topic_rows ++ e.topics.map fun t => ⟨e.id, t, nlp.normalize_term t⟩
    consolidations := store.consolidations
    ids := by
      rw [List.map_append, List.map_singleton, List.nodup_append]
      refine ⟨store.ids, List.nodup_singleton _, fun a ha b hb hab => ?_⟩
      rw [hab, List.mem_singleton.1 hb] at ha
      exact store.next_id_new ha
    entities_indexed := store.entities_indexed.insert store.entities_owned store.next_id_new
    topics_indexed := store.topics_indexed.insert store.topics_owned store.next_id_new
    entities_owned := store.entities_owned.insert
    topics_owned := store.topics_owned.insert
    fits := by
      rw [List.length_append, List.length_singleton]
      exact room }

end Store

/-! ## 3. A query -/

/-- The arithmetic of SQLite's reals. -/
structure Arithmetic (ρ : Type) where
  add : ρ → ρ → ρ
  mul : ρ → ρ → ρ
  neg : ρ → ρ
  zero : ρ
  two : ρ
  five : ρ

/-- The full-text indexes: which rows match a query, and `bm25`. -/
structure FullTextIndex (ρ : Type) where
  fts_match : Str → KnowledgeEntry ρ → Bool
  bm25 : Str → KnowledgeEntry ρ → ρ
  consolidation_match : Str → Consolidation → Bool
  consolidation_bm25 : Str → Consolidation → ρ

inductive RetrievalMode where
  | Keyword
  | Hybrid
  deriving DecidableEq

structure QueryOpts where
  limit : ℕ
  include_consolidations : Bool
  retrieval_mode : RetrievalMode

structure KnowledgeQueryResult (ρ : Type) where
  entries : List (KnowledgeEntry ρ)
  consolidations : List Consolidation

/-- `LIMIT`, bound to `limit as i64`; a negative one is none. -/
def sql_limit {α : Type} (limit : ℕ) (l : List α) : List α :=
  if limit < 2 ^ 63 then l.take limit else l

/-- A row of the union. -/
structure Row (ρ : Type) where
  entry : KnowledgeEntry ρ
  rank : ρ
  deriving DecidableEq

/-- `ORDER BY … DESC, created_at DESC, id DESC`. -/
def entry_key {ρ : Type} (rank : ρ) (created_at : Str) (id : ℕ) : ρ ×ₗ (Str ×ₗ ℕ) :=
  toLex (rank, toLex (created_at, id))

def row_key {ρ : Type} (r : Row ρ) : ρ ×ₗ (Str ×ₗ ℕ) :=
  entry_key r.rank r.entry.created_at r.entry.id

section

variable {ρ : Type} (arith : Arithmetic ρ)

/-- `a + b + …`. -/
def sum_expr : List ρ → ρ
  | [] => arith.zero
  | x :: xs => xs.foldl arith.add x

/-- The boosts of the keywords: two for an entity, two for a topic. -/
def boost_expr (entity topic : Str → Bool) (keywords : List Str) : ρ :=
  sum_expr arith (keywords.flatMap fun kw =>
    [if entity kw then arith.two else arith.zero, if topic kw then arith.two else arith.zero])

/-- A rank: the text relevance, the boosts and the importance. -/
def rank_expr (relevance boost importance : ρ) : ρ :=
  arith.add (arith.add relevance boost) (arith.mul importance arith.five)

end

section

variable {Algorithm ρ : Type} [LinearOrder ρ] {nlp : TextProcessing Algorithm}
  (arith : Arithmetic ρ) (index : FullTextIndex ρ) (store : Store nlp ρ)

/-- `EXISTS (… WHERE entry_id = … AND entity_normalized = …)`. -/
def term_exists (rows : List TermRow) (e : KnowledgeEntry ρ) (keyword : Str) : Bool :=
  rows.any fun r => decide (r.entry_id = e.id ∧ r.normalized = keyword)

/-- `junction_where`. -/
def junction_where (keywords : List Str) (e : KnowledgeEntry ρ) : Bool :=
  keywords.any fun kw =>
    term_exists store.entity_rows e kw || term_exists store.topic_rows e kw

def junction_boost (keywords : List Str) (e : KnowledgeEntry ρ) : ρ :=
  boost_expr arith (term_exists store.entity_rows e) (term_exists store.topic_rows e) keywords

def text_rank (fts_query : Str) (keywords : List Str) (e : KnowledgeEntry ρ) : ρ :=
  rank_expr arith (arith.neg (index.bm25 fts_query e)) (junction_boost arith store keywords e)
    e.importance

def junction_rank (keywords : List Str) (e : KnowledgeEntry ρ) : ρ :=
  rank_expr arith arith.zero (junction_boost arith store keywords e) e.importance

/-- The entries of the scope that the full-text index finds. -/
def text_matches (scope fts_query : Str) : List (KnowledgeEntry ρ) :=
  store.entries.filter fun e => index.fts_match fts_query e && decide (e.scope = scope)

/-- The entries of the scope with an entity or a topic that is a keyword. -/
def junction_matches (scope : Str) (keywords : List Str) : List (KnowledgeEntry ρ) :=
  store.entries.filter fun e => decide (e.scope = scope) && junction_where store keywords e

/-- The two selections; `UNION` drops a row that is there already. -/
def union_rows (scope fts_query : Str) (keywords : List Str) : List (Row ρ) :=
  (((text_matches index store scope fts_query).map fun e =>
      Row.mk e (text_rank arith index store fts_query keywords e)) ++
    (junction_matches store scope keywords).map fun e =>
      Row.mk e (junction_rank arith store keywords e)).dedup

/-- `ORDER BY created_at DESC`. -/
def newer (e e' : KnowledgeEntry ρ) : Prop := ¬ e.created_at < e'.created_at

instance : DecidableRel (newer (ρ := ρ)) := fun _ _ => inferInstanceAs (Decidable (¬ _))

def query_entries (order : RowOrder (KnowledgeEntry ρ)) (scope : Str) (fts_query : Option Str)
    (keywords : List Str) (opts : QueryOpts) : List (KnowledgeEntry ρ) :=
  match fts_query with
  -- no keywords: the most recent entries
  | none => sql_limit opts.limit
      (order_by order newer (store.entries.filter fun e => e.scope = scope))
  | some q =>
      match opts.retrieval_mode with
      | .Hybrid =>
          (sql_limit opts.limit
            (ranked row_key (union_rows arith index store scope q keywords))).map Row.entry
      | .Keyword =>
          sql_limit opts.limit (ranked
            (fun e => entry_key (OrderDual.toDual (index.bm25 q e)) e.created_at e.id)
            (text_matches index store scope q))

def consolidation_newer (c c' : Consolidation) : Prop := ¬ c.created_at < c'.created_at

instance : DecidableRel consolidation_newer := fun _ _ => inferInstanceAs (Decidable (¬ _))

def query_consolidations (order : RowOrder Consolidation) (scope : Str) (fts_query : Option Str)
    (limit : ℕ) : List Consolidation :=
  match fts_query with
  | none => sql_limit limit
      (order_by order consolidation_newer (store.consolidations.filter fun c => c.scope = scope))
  | some q => sql_limit limit (ranked
      (fun c => entry_key (OrderDual.toDual (index.consolidation_bm25 q c)) c.created_at c.id)
      (store.consolidations.filter fun c =>
        index.consolidation_match q c && decide (c.scope = scope)))

def query (order : RowOrder (KnowledgeEntry ρ)) (consolidation_order : RowOrder Consolidation)
    (scope question : Str) (opts : QueryOpts) : KnowledgeQueryResult ρ :=
  let extracted := nlp.extract_keywords question
  let fts_query := build_fts5_query extracted.1
  { entries := query_entries arith index store order scope fts_query
      (nlp.stem_keywords extracted.1 extracted.2) opts
    consolidations :=
      if opts.include_consolidations then
        query_consolidations index store consolidation_order scope fts_query opts.limit
      else [] }

end

/-! ## 4. What a query has to find -/

section

variable {Algorithm ρ : Type} [LinearOrder ρ] {nlp : TextProcessing Algorithm}
  (arith : Arithmetic ρ) (index : FullTextIndex ρ) (store : Store nlp ρ) (scope question : Str)

/-- A term of the entry has the normalised form. -/
def has_term (nlp : TextProcessing Algorithm) (terms : List Str) (normalized : Str) : Bool :=
  (terms.map nlp.normalize_term).contains normalized

/-- The normalised forms of the keywords. -/
def normalized_keywords (nlp : TextProcessing Algorithm) (question : Str) : List Str :=
  (nlp.extract_keywords question).1.map nlp.normalize_term

/-- The keywords as the query has them. -/
def stemmed_keywords (nlp : TextProcessing Algorithm) (question : Str) : List Str :=
  nlp.stem_keywords (nlp.extract_keywords question).1 (nlp.extract_keywords question).2

def finds_term (nlp : TextProcessing Algorithm) (question : Str) (e : KnowledgeEntry ρ) : Bool :=
  (normalized_keywords nlp question).any fun kw =>
    has_term nlp e.entities kw || has_term nlp e.topics kw

/-- The text relevance, the boosts and the importance of an entry. -/
def score (nlp : TextProcessing Algorithm) (q : Str) (e : KnowledgeEntry ρ) : ρ :=
  rank_expr arith (if index.fts_match q e then arith.neg (index.bm25 q e) else arith.zero)
    (boost_expr arith (has_term nlp e.entities) (has_term nlp e.topics)
      (normalized_keywords nlp question)) e.importance

/-- The entries of the scope that match the text query or have a term that is a keyword. -/
def candidates (q : Str) : List (KnowledgeEntry ρ) :=
  store.entries.filter fun e =>
    decide (e.scope = scope) && (index.fts_match q e || finds_term nlp question e)

def scored (q : Str) : List (Row ρ) :=
  (candidates index store scope question q).map fun e =>
    Row.mk e (score arith index question nlp q e)

/-- The best of the candidates; without keywords there is none. -/
def best_entries (limit : ℕ) : List (KnowledgeEntry ρ) :=
  match build_fts5_query (nlp.extract_keywords question).1 with
  | none => []
  | some q => (best row_key limit (scored arith index store scope question q)).map Row.entry

/-- The answer to a question: each entry once, all of the scope, no more than the limit, and the
best of the candidates in the order of their scores. -/
structure Answers (limit : ℕ) (found : List (KnowledgeEntry ρ)) : Prop where
  distinct : found.Nodup
  in_scope : ∀ e ∈ found, e.scope = scope
  at_most : found.length ≤ limit
  ranked : found = best_entries arith index store scope question limit

/-- For the terms of the scope, the stem of a keyword says the same as its normalised form. -/
def StemsAgree : Prop :=
  ∀ kw ∈ (nlp.extract_keywords question).1, ∀ e ∈ store.entries, e.scope = scope →
    ∀ t ∈ e.entities ++ e.topics,
      (nlp.normalize_term t = nlp.stem_word kw (nlp.extract_keywords question).2 ↔
        nlp.normalize_term t = nlp.normalize_term kw)

/-- A second row of an entry is behind as many rows as are asked for. Without keywords, there is
nothing in the scope or nothing is asked for. -/
def OneRow (limit : ℕ) : Prop :=
  match build_fts5_query (nlp.extract_keywords question).1 with
  | none => (∀ e ∈ store.entries, e.scope ≠ scope) ∨ limit = 0
  | some q => ∀ e ∈ text_matches index store scope q,
      junction_where store (stemmed_keywords nlp question) e = true →
      text_rank arith index store q (stemmed_keywords nlp question) e ≠
        junction_rank arith store (stemmed_keywords nlp question) e →
      limit ≤ ahead row_key (union_rows arith index store scope q (stemmed_keywords nlp question))
        (row_key ⟨e, junction_rank arith store (stemmed_keywords nlp question) e⟩)

/-- The text relevance of a match is not negative, as `bm25` is lower for better ones. -/
def Relevant : Prop :=
  ∀ q kws, ∀ e ∈ store.entries, index.fts_match q e = true →
    junction_rank arith store kws e ≤ text_rank arith index store q kws e

end

/-! ## 5. The two selections -/

theorem sql_limit_eq {α : Type} {limit : ℕ} {l : List α} (h : l.length < 2 ^ 63) :
    sql_limit limit l = l.take limit := by
  unfold sql_limit
  by_cases hlimit : limit < 2 ^ 63
  · rw [if_pos hlimit]
  · rw [if_neg hlimit, List.take_of_length_le (by omega)]

section

variable {Algorithm ρ : Type} {nlp : TextProcessing Algorithm}

theorem term_exists_eq {terms : KnowledgeEntry ρ → List Str} {entries : List (KnowledgeEntry ρ)}
    {rows : List TermRow} (h : Indexed nlp.normalize_term terms entries rows)
    {e : KnowledgeEntry ρ} (he : e ∈ entries) (keyword : Str) :
    term_exists rows e keyword = has_term nlp (terms e) keyword := by
  have hrows := h e he
  rw [term_exists, has_term, Bool.eq_iff_iff, List.any_eq_true, List.contains_iff_mem, List.mem_map]
  constructor
  · rintro ⟨r, hr, hkeyword⟩
    obtain ⟨hid, hnormalized⟩ := of_decide_eq_true hkeyword
    have hmem : r ∈ rows.filter fun r => r.entry_id = e.id :=
      List.mem_filter.2 ⟨hr, decide_eq_true hid⟩
    rw [hrows] at hmem
    obtain ⟨t, ht, rfl⟩ := List.mem_map.1 hmem
    exact ⟨t, ht, hnormalized⟩
  · rintro ⟨t, ht, rfl⟩
    have hmem : (⟨e.id, t, nlp.normalize_term t⟩ : TermRow) ∈
        rows.filter fun r => r.entry_id = e.id := by
      rw [hrows]
      exact List.mem_map_of_mem ht
    exact ⟨_, (List.mem_filter.1 hmem).1, decide_eq_true ⟨rfl, rfl⟩⟩

variable (store : Store nlp ρ) {scope question : Str}

/-- With stems that agree, the tables say of each keyword what its normalised form says. -/
theorem term_exists_stem (hagree : StemsAgree store scope question) {e : KnowledgeEntry ρ}
    (he : e ∈ store.entries) (hscope : e.scope = scope) {kw : Str}
    (hkw : kw ∈ (nlp.extract_keywords question).1) :
    term_exists store.entity_rows e (nlp.stem_word kw (nlp.extract_keywords question).2) =
        has_term nlp e.entities (nlp.normalize_term kw) ∧
      term_exists store.topic_rows e (nlp.stem_word kw (nlp.extract_keywords question).2) =
        has_term nlp e.topics (nlp.normalize_term kw) := by
  have hterms : ∀ {terms : List Str}, terms ⊆ e.entities ++ e.topics →
      has_term nlp terms (nlp.stem_word kw (nlp.extract_keywords question).2) =
        has_term nlp terms (nlp.normalize_term kw) := by
    intro terms hsub
    rw [has_term, has_term, Bool.eq_iff_iff, List.contains_iff_mem, List.contains_iff_mem,
      List.mem_map, List.mem_map]
    exact exists_congr fun t => and_congr_right fun ht =>
      hagree kw hkw e he hscope t (hsub ht)
  rw [term_exists_eq store.entities_indexed he, term_exists_eq store.topics_indexed he]
  exact ⟨hterms (List.subset_append_left _ _), hterms (List.subset_append_right _ _)⟩

theorem junction_where_eq (hagree : StemsAgree store scope question) {e : KnowledgeEntry ρ}
    (he : e ∈ store.entries) (hscope : e.scope = scope) :
    junction_where store (stemmed_keywords nlp question) e = finds_term nlp question e := by
  rw [junction_where, finds_term, stemmed_keywords, normalized_keywords,
    TextProcessing.stem_keywords, List.any_map, List.any_map, Bool.eq_iff_iff, List.any_eq_true,
    List.any_eq_true]
  apply exists_congr
  intro kw
  apply and_congr_right
  intro hkw
  obtain ⟨hentity, htopic⟩ := term_exists_stem store hagree he hscope hkw
  rw [Function.comp_apply, Function.comp_apply, hentity, htopic]

variable (arith : Arithmetic ρ)

theorem junction_boost_eq (hagree : StemsAgree store scope question) {e : KnowledgeEntry ρ}
    (he : e ∈ store.entries) (hscope : e.scope = scope) :
    junction_boost arith store (stemmed_keywords nlp question) e =
      boost_expr arith (has_term nlp e.entities) (has_term nlp e.topics)
        (normalized_keywords nlp question) := by
  rw [junction_boost, boost_expr, boost_expr, stemmed_keywords, normalized_keywords,
    TextProcessing.stem_keywords, List.flatMap_map, List.flatMap_map]
  congr 1
  apply List.flatMap_congr
  intro kw hkw
  obtain ⟨hentity, htopic⟩ := term_exists_stem store hagree he hscope hkw
  rw [hentity, htopic]

end

/-! ## 6. The candidates -/

section

variable {Algorithm ρ : Type} {nlp : TextProcessing Algorithm} (arith : Arithmetic ρ)
  (index : FullTextIndex ρ) (store : Store nlp ρ) {scope question : Str}

theorem mem_text_matches {q : Str} {e : KnowledgeEntry ρ} :
    e ∈ text_matches index store scope q ↔
      e ∈ store.entries ∧ e.scope = scope ∧ index.fts_match q e = true := by
  rw [text_matches, List.mem_filter, Bool.and_eq_true, decide_eq_true_iff]
  tauto

theorem mem_junction_matches {kws : List Str} {e : KnowledgeEntry ρ} :
    e ∈ junction_matches store scope kws ↔
      e ∈ store.entries ∧ e.scope = scope ∧ junction_where store kws e = true := by
  rw [junction_matches, List.mem_filter, Bool.and_eq_true, decide_eq_true_iff]

/-- The id tells the entries apart, and the rank the rows of one entry. -/
theorem distinct_keys {l : List (Row ρ)} (hl : ∀ r ∈ l, r.entry ∈ store.entries) :
    Distinct row_key l := by
  intro r hr s hs hkey
  have hpair := Prod.mk.inj (toLex.injective hkey)
  have hids := Prod.mk.inj (toLex.injective hpair.2)
  have hentry : r.entry = s.entry :=
    List.inj_on_of_nodup_map store.ids (hl r hr) (hl s hs) hids.2
  obtain ⟨e, x⟩ := r
  obtain ⟨e', x'⟩ := s
  rw [Row.mk.injEq]
  exact ⟨hentry, hpair.1⟩

theorem mem_candidates {q : Str} {e : KnowledgeEntry ρ} :
    e ∈ candidates index store scope question q ↔ e ∈ store.entries ∧ e.scope = scope ∧
      (index.fts_match q e = true ∨ finds_term nlp question e = true) := by
  rw [candidates, List.mem_filter, Bool.and_eq_true, decide_eq_true_iff, Bool.or_eq_true]

theorem mem_scored {q : Str} {r : Row ρ} :
    r ∈ scored arith index store scope question q ↔
      r.entry ∈ candidates index store scope question q ∧
        score arith index question nlp q r.entry = r.rank := by
  obtain ⟨e, x⟩ := r
  rw [scored, List.mem_map]
  simp only [Row.mk.injEq]
  constructor
  · rintro ⟨e', he', rfl, hx⟩
    exact ⟨he', hx⟩
  · rintro ⟨he, hx⟩
    exact ⟨e, he, rfl, hx⟩

theorem nodup_entries : store.entries.Nodup := store.ids.of_map

theorem nodup_scored (q : Str) : (scored arith index store scope question q).Nodup := by
  apply ((nodup_entries store).filter _).map
  exact fun _ _ h => (Row.mk.inj h).1

theorem text_rank_eq (hagree : StemsAgree store scope question) {q : Str} {e : KnowledgeEntry ρ}
    (he : e ∈ text_matches index store scope q) :
    text_rank arith index store q (stemmed_keywords nlp question) e =
      score arith index question nlp q e := by
  obtain ⟨he, hscope, hmatch⟩ := (mem_text_matches index store).1 he
  rw [text_rank, score, if_pos hmatch, junction_boost_eq store arith hagree he hscope]

theorem junction_rank_eq (hagree : StemsAgree store scope question) {q : Str}
    {e : KnowledgeEntry ρ} (he : e ∈ store.entries) (hscope : e.scope = scope)
    (hmatch : index.fts_match q e ≠ true) :
    junction_rank arith store (stemmed_keywords nlp question) e =
      score arith index question nlp q e := by
  rw [junction_rank, score, if_neg hmatch, junction_boost_eq store arith hagree he hscope]

end

/-! ## 7. The union -/

section

variable {Algorithm ρ : Type} [LinearOrder ρ] {nlp : TextProcessing Algorithm}
  (arith : Arithmetic ρ) (index : FullTextIndex ρ) (store : Store nlp ρ) {scope question : Str}

theorem mem_union_rows {q : Str} {kws : List Str} {r : Row ρ} :
    r ∈ union_rows arith index store scope q kws ↔
      (r.entry ∈ text_matches index store scope q ∧
          text_rank arith index store q kws r.entry = r.rank) ∨
        r.entry ∈ junction_matches store scope kws ∧ junction_rank arith store kws r.entry = r.rank := by
  obtain ⟨e, x⟩ := r
  rw [union_rows, List.mem_dedup, List.mem_append, List.mem_map, List.mem_map]
  simp only [Row.mk.injEq]
  constructor
  · rintro (⟨e', he', rfl, hx⟩ | ⟨e', he', rfl, hx⟩)
    · exact .inl ⟨he', hx⟩
    · exact .inr ⟨he', hx⟩
  · rintro (⟨he, hx⟩ | ⟨he, hx⟩)
    · exact .inl ⟨e, he, rfl, hx⟩
    · exact .inr ⟨e, he, rfl, hx⟩

theorem union_entry {q : Str} {kws : List Str} {r : Row ρ}
    (hr : r ∈ union_rows arith index store scope q kws) :
    r.entry ∈ store.entries ∧ r.entry.scope = scope := by
  obtain ⟨h, -⟩ | ⟨h, -⟩ := (mem_union_rows arith index store).1 hr
  · have h := (mem_text_matches index store).1 h
    exact ⟨h.1, h.2.1⟩
  · have h := (mem_junction_matches store).1 h
    exact ⟨h.1, h.2.1⟩

/-- The best candidates are different entries. -/
theorem nodup_best (q : Str) (limit : ℕ) :
    ((best row_key limit (scored arith index store scope question q)).map Row.entry).Nodup := by
  have hperm := perm_ranked row_key (scored arith index store scope question q)
  have hsub : best row_key limit (scored arith index store scope question q) ⊆
      scored arith index store scope question q :=
    fun r hr => hperm.mem_iff.1 (List.mem_of_mem_take hr)
  have hnodup : (best row_key limit (scored arith index store scope question q)).Nodup :=
    (hperm.nodup_iff.2 (nodup_scored arith index store q)).sublist (List.take_sublist _ _)
  refine (List.nodup_map_iff_inj_on hnodup).2 ?_
  rintro ⟨e, x⟩ hr ⟨e', x'⟩ hs heq
  obtain rfl : e = e' := heq
  rw [Row.mk.injEq]
  exact ⟨rfl, ((mem_scored arith index store).1 (hsub hr)).2.symm.trans
    ((mem_scored arith index store).1 (hsub hs)).2⟩

/-- A row has the score of its entry. -/
def is_right (question q : Str) (r : Row ρ) : Bool :=
  decide (score arith index question nlp q r.entry = r.rank)

/-- The rows with the right score are the candidates. -/
theorem perm_right (hagree : StemsAgree store scope question) (q : Str) :
    ((union_rows arith index store scope q (stemmed_keywords nlp question)).filter
      (@is_right _ _ _ nlp arith index question q)).Perm
        (scored arith index store scope question q) := by
  apply (List.perm_ext_iff_of_nodup ((List.nodup_dedup _).filter _)
    (nodup_scored arith index store q)).2
  intro r
  rw [List.mem_filter, mem_scored, mem_candidates, is_right, decide_eq_true_iff]
  constructor
  · rintro ⟨hr, hscore⟩
    obtain ⟨he, hscope⟩ := union_entry arith index store hr
    refine ⟨⟨he, hscope, ?_⟩, hscore⟩
    obtain ⟨h, -⟩ | ⟨h, -⟩ := (mem_union_rows arith index store).1 hr
    · exact .inl ((mem_text_matches index store).1 h).2.2
    · rw [← junction_where_eq store hagree he hscope]
      exact .inr ((mem_junction_matches store).1 h).2.2
  · rintro ⟨⟨he, hscope, hfound⟩, hscore⟩
    refine ⟨(mem_union_rows arith index store).2 ?_, hscore⟩
    by_cases hmatch : index.fts_match q r.entry = true
    · have htext := (mem_text_matches index store).2 ⟨he, hscope, hmatch⟩
      exact .inl ⟨htext, (text_rank_eq arith index store hagree htext).trans hscore⟩
    · have hterm := hfound.resolve_left hmatch
      rw [← junction_where_eq store hagree he hscope] at hterm
      exact .inr ⟨(mem_junction_matches store).2 ⟨he, hscope, hterm⟩,
        (junction_rank_eq arith index store hagree he hscope hmatch).trans hscore⟩

theorem length_union_rows (q : Str) (kws : List Str) :
    (union_rows arith index store scope q kws).length < 2 ^ 63 := by
  have hdedup := (List.dedup_sublist (((text_matches index store scope q).map fun e =>
    Row.mk e (text_rank arith index store q kws e)) ++ (junction_matches store scope kws).map fun e =>
      Row.mk e (junction_rank arith store kws e))).length_le
  rw [List.length_append, List.length_map, List.length_map] at hdedup
  have htext : (text_matches index store scope q).length ≤ store.entries.length :=
    List.length_filter_le _ _
  have hjunction : (junction_matches store scope kws).length ≤ store.entries.length :=
    List.length_filter_le _ _
  have hfits := store.fits
  unfold union_rows
  omega

/-- What the query finds when there are keywords. -/
theorem hybrid_eq (order : RowOrder (KnowledgeEntry ρ)) (q : Str) (limit : ℕ)
    (include_consolidations : Bool) :
    query_entries arith index store order scope (some q) (stemmed_keywords nlp question)
        ⟨limit, include_consolidations, .Hybrid⟩ =
      (best row_key limit (union_rows arith index store scope q
        (stemmed_keywords nlp question))).map Row.entry := by
  have hlen : (ranked row_key (union_rows arith index store scope q
      (stemmed_keywords nlp question))).length < 2 ^ 63 := by
    rw [(perm_ranked row_key _).length_eq]
    exact length_union_rows arith index store q _
  unfold query_entries
  dsimp only
  rw [sql_limit_eq hlen]
  rfl

/-- When every row among the first has the right score, they are the best candidates. -/
theorem best_union_eq (hagree : StemsAgree store scope question) {q : Str} {limit : ℕ}
    (h : ∀ r ∈ best row_key limit (union_rows arith index store scope q
      (stemmed_keywords nlp question)), @is_right _ _ _ nlp arith index question q r = true) :
    best row_key limit (union_rows arith index store scope q (stemmed_keywords nlp question)) =
      best row_key limit (scored arith index store scope question q) := by
  have hdistinct : Distinct row_key
      (union_rows arith index store scope q (stemmed_keywords nlp question)) :=
    distinct_keys store fun r hr => (union_entry arith index store hr).1
  have hscored : Distinct row_key (scored arith index store scope question q) :=
    distinct_keys store fun r hr =>
      ((mem_candidates index store).1 ((mem_scored arith index store).1 hr).1).1
  rw [← best_filter hdistinct _ h, best, best,
    ranked_perm hscored (perm_right arith index store hagree q)]

theorem answers_iff {limit : ℕ} {found : List (KnowledgeEntry ρ)} :
    Answers arith index store scope question limit found ↔
      found = best_entries arith index store scope question limit := by
  constructor
  · exact fun h => h.ranked
  · rintro rfl
    unfold best_entries
    cases hquery : build_fts5_query (nlp.extract_keywords question).1 with
    | none =>
        refine ⟨List.nodup_nil, fun e he => absurd he List.not_mem_nil, Nat.zero_le _, ?_⟩
        unfold best_entries
        rw [hquery]
    | some q =>
        refine ⟨nodup_best arith index store q limit, ?_, ?_, ?_⟩
        · intro e he
          obtain ⟨r, hr, rfl⟩ := List.mem_map.1 he
          have hr := (perm_ranked row_key _).mem_iff.1 (List.mem_of_mem_take hr)
          exact ((mem_candidates index store).1 ((mem_scored arith index store).1 hr).1).2.1
        · rw [List.length_map]
          exact List.length_take_le _ _
        · unfold best_entries
          rw [hquery]

/-- With stems that agree, an answer is right when each entry has one row among the first, and
for a relevance that is not negative it is right only then. -/
theorem query_answers (order : RowOrder (KnowledgeEntry ρ))
    (consolidation_order : RowOrder Consolidation) (limit : ℕ) (include_consolidations : Bool)
    (hagree : StemsAgree store scope question) :
    (OneRow arith index store scope question limit →
      Answers arith index store scope question limit
        (query arith index store order consolidation_order scope question
          ⟨limit, include_consolidations, .Hybrid⟩).entries) ∧
    (Relevant arith index store →
      Answers arith index store scope question limit
        (query arith index store order consolidation_order scope question
          ⟨limit, include_consolidations, .Hybrid⟩).entries →
      OneRow arith index store scope question limit) := by
  rw [answers_iff]
  unfold OneRow best_entries query
  dsimp only
  have hkeywords : nlp.stem_keywords (nlp.extract_keywords question).1
      (nlp.extract_keywords question).2 = stemmed_keywords nlp question := rfl
  rw [hkeywords]
  cases hquery : build_fts5_query (nlp.extract_keywords question).1 with
  | none =>
      dsimp only
      have hempty : query_entries arith index store order scope none (stemmed_keywords nlp question)
            ⟨limit, include_consolidations, .Hybrid⟩ = [] ↔
          (∀ e ∈ store.entries, e.scope ≠ scope) ∨ limit = 0 := by
        have hperm := perm_order_by order newer (store.entries.filter fun e => e.scope = scope)
        have hlen : (order_by order newer
            (store.entries.filter fun e => e.scope = scope)).length < 2 ^ 63 := by
          rw [hperm.length_eq]
          have hle := List.length_filter_le (fun e => decide (e.scope = scope)) store.entries
          have hfits := store.fits
          omega
        unfold query_entries
        dsimp only
        rw [sql_limit_eq hlen, List.take_eq_nil_iff, ← List.length_eq_zero_iff, hperm.length_eq,
          List.length_eq_zero_iff, List.filter_eq_nil_iff, or_comm]
        simp only [decide_eq_true_eq, ne_eq]
      exact ⟨hempty.2, fun _ => hempty.1⟩
  | some q =>
      dsimp only
      rw [hybrid_eq]
      have hdistinct : Distinct row_key
          (union_rows arith index store scope q (stemmed_keywords nlp question)) :=
        distinct_keys store fun r hr => (union_entry arith index store hr).1
      have hnodup : (union_rows arith index store scope q (stemmed_keywords nlp question)).Nodup :=
        List.nodup_dedup _
      constructor
      · intro hone
        rw [best_union_eq arith index store hagree]
        intro r hr
        have hmem := (perm_ranked row_key _).mem_iff.1 (List.mem_of_mem_take hr)
        apply decide_eq_true
        obtain ⟨he, hscope⟩ := union_entry arith index store hmem
        obtain ⟨htext, hrank⟩ | ⟨hterm, hrank⟩ := (mem_union_rows arith index store).1 hmem
        · exact (text_rank_eq arith index store hagree htext).symm.trans hrank
        · by_cases hmatch : index.fts_match q r.entry = true
          · -- a second row, unless both ranks are the same
            have htext := (mem_text_matches index store).2 ⟨he, hscope, hmatch⟩
            by_contra hwrong
            rw [← text_rank_eq arith index store hagree htext, ← hrank] at hwrong
            have hbehind := hone r.entry htext ((mem_junction_matches store).1 hterm).2.2 hwrong
            have hahead := (mem_best hdistinct hnodup hmem).1 hr
            rw [hrank] at hbehind
            exact absurd hahead (Nat.not_lt.2 hbehind)
          · exact (junction_rank_eq arith index store hagree he hscope hmatch).symm.trans hrank
      · intro hrelevant hbest e htext hterm hwrong
        by_contra hahead
        obtain ⟨he, hscope, hmatch⟩ := (mem_text_matches index store).1 htext
        have hjunction : (⟨e, junction_rank arith store (stemmed_keywords nlp question) e⟩ : Row ρ) ∈
            union_rows arith index store scope q (stemmed_keywords nlp question) :=
          (mem_union_rows arith index store).2
            (.inr ⟨(mem_junction_matches store).2 ⟨he, hscope, hterm⟩, rfl⟩)
        have hfirst : (⟨e, text_rank arith index store q (stemmed_keywords nlp question) e⟩ : Row ρ) ∈
            union_rows arith index store scope q (stemmed_keywords nlp question) :=
          (mem_union_rows arith index store).2 (.inl ⟨htext, rfl⟩)
        -- the row with the relevance is ahead of the other, so both are among the first
        have hsecond := (mem_best hdistinct hnodup hjunction).2 (Nat.not_le.1 hahead)
        have hle : row_key ⟨e, junction_rank arith store (stemmed_keywords nlp question) e⟩ ≤
            row_key ⟨e, text_rank arith index store q (stemmed_keywords nlp question) e⟩ :=
          Prod.Lex.toLex_le_toLex'.2 ⟨hrelevant q _ e he hmatch, fun _ => le_rfl⟩
        have hfirst := (mem_best hdistinct hnodup hfirst).2
          ((ahead_anti hle).trans_lt (Nat.not_le.1 hahead))
        have hinj := (List.nodup_map_iff_inj_on
          (((perm_ranked row_key _).nodup_iff.2 hnodup).sublist (List.take_sublist _ _))).1
            (hbest ▸ nodup_best arith index store q limit)
        exact hwrong (Row.mk.inj (hinj _ hfirst _ hsecond rfl)).2

end

/-! ### An entry that both selections find -/

def sample_nlp : TextProcessing Unit where
  to_lowercase := id
  is_alphanumeric := Char.isAlphanum
  detect_lang := fun _ => none
  get_stopwords := fun _ => []
  english := ()
  stem := fun _ word => word

def sample_arithmetic : Arithmetic ℤ := ⟨(· + ·), (· * ·), (- ·), 0, 2, 5⟩

def sample_index : FullTextIndex ℤ := ⟨fun _ _ => true, fun _ _ => -1, fun _ _ => false, fun _ _ => 0⟩

def sample_entry : KnowledgeEntry ℤ :=
  ⟨1, ['p'], ['s'], [], none, "rust".toList, ["rust".toList], [], [], 0, none, ['1']⟩

def sample_store : Store sample_nlp ℤ where
  entries := [sample_entry]
  entity_rows := [⟨1, "rust".toList, "rust".toList⟩]
  topic_rows := []
  consolidations := []
  ids := List.nodup_singleton _
  entities_indexed := by
    intro e he
    obtain rfl := List.mem_singleton.1 he
    rfl
  topics_indexed := by
    intro e he
    obtain rfl := List.mem_singleton.1 he
    rfl
  entities_owned := by
    intro r hr
    obtain rfl := List.mem_singleton.1 hr
    exact List.mem_singleton.2 rfl
  topics_owned := fun _ hr => absurd hr List.not_mem_nil
  fits := by decide

def sample_order {α : Type} : RowOrder α := ⟨id, fun _ => .refl _⟩

theorem sample_room : sample_store.entries.length + 1 < 2 ^ 62 := by decide

/-- Next to the entry that both selections find, one that has the word in its text only, one that
has it for a topic, and one of another scope. -/
def sample_several : Store sample_nlp ℤ :=
  let store := sample_store.ingest ['s'] ['q'] ['2']
    ⟨[], [], "rust is fast".toList, ["speed".toList], [], [], 3⟩ sample_room
  let store := store.ingest ['s'] ['r'] ['3']
    ⟨[], [], "cargo builds".toList, [], ["rust".toList], [], 4⟩ (by decide)
  store.ingest ['t'] ['u'] ['4'] ⟨[], [], "rust".toList, ["rust".toList], [], [], 5⟩ (by decide)

def word_index : FullTextIndex ℤ :=
  ⟨fun _ e => decide ("rust".toList <:+: e.summary), fun _ _ => -1, fun _ _ => false, fun _ _ => 0⟩

/-- The three entries of the scope; the second row of the first one is cut off. -/
theorem query_answers_sample :
    Answers sample_arithmetic word_index sample_several ['s'] "rust".toList 3
      (query sample_arithmetic word_index sample_several sample_order sample_order ['s']
        "rust".toList ⟨3, false, .Hybrid⟩).entries := by
  refine (query_answers sample_arithmetic word_index sample_several sample_order sample_order 3
    false fun _ _ _ _ _ _ _ => Iff.rfl).1 ?_
  have hquery : build_fts5_query (sample_nlp.extract_keywords "rust".toList).1 =
      some "\"rust\"".toList := by decide +kernel
  unfold OneRow
  rw [hquery]
  decide +kernel

/-- The text and the entity of the entry match, and it is there twice. -/
theorem entry_found_twice :
    ¬ Answers sample_arithmetic sample_index sample_store ['s'] "rust".toList 20
      (query sample_arithmetic sample_index sample_store sample_order sample_order ['s']
        "rust".toList ⟨20, false, .Hybrid⟩).entries := by
  intro h
  have hdistinct := h.distinct
  revert hdistinct
  decide +kernel

end Querymt.Knowledge
