/-
`Session/JournalViews.lean` -- what the views read off the event journal.

Mirrors `get_recent_models_view` and `get_session_list_meta_stats`
(`session/sqlite_storage/view_store.rs`) over the rows that `append_durable`
(`event_journal.rs`) writes. The journal holds Unix seconds, which the first view divides by
a thousand; the second takes the latest finish reason that is there, where the latest request
may have none.

# When the views are exact

The recent models are exact if and only if nothing is listed that was used after the epoch,
and the finish reasons if and only if no session's latest request lacks the reason that an
earlier one has (`journal_views_iff`).
-/
import Querymt.Library.HashMaps
import Querymt.Library.Tables

set_option autoImplicit false

open HashMaps Tables

namespace Querymt.JournalViews

/-! ## 1. The tables -/

inductive FinishReason where
  | Stop
  | Length
  | ContentFilter
  | ToolCalls
  | Error
  | Other
  | Unknown
  deriving DecidableEq

namespace FinishReason

/-- As the event's JSON has it. -/
def json : FinishReason → String
  | Stop => "Stop"
  | Length => "Length"
  | ContentFilter => "ContentFilter"
  | ToolCalls => "ToolCalls"
  | Error => "Error"
  | Other => "Other"
  | Unknown => "Unknown"

end FinishReason

def parse_finish_reason (value : String) : Option FinishReason :=
  if value = "Stop" ∨ value = "stop" then some .Stop
  else if value = "Length" ∨ value = "length" then some .Length
  else if value = "ContentFilter" ∨ value = "content_filter" then some .ContentFilter
  else if value = "ToolCalls" ∨ value = "tool_calls" then some .ToolCalls
  else if value = "Error" ∨ value = "error" then some .Error
  else if value = "Other" ∨ value = "other" then some .Other
  else if value = "Unknown" ∨ value = "unknown" then some .Unknown
  else none

theorem parse_json (reason : FinishReason) : parse_finish_reason reason.json = some reason := by
  cases reason <;> decide

/-- The kinds of events that the views read. -/
inductive AgentEventKind where
  | ProviderChanged (provider model : String)
  | LlmRequestEnd (finish_reason : Option FinishReason)
  | Other
  deriving DecidableEq

/-- `OffsetDateTime::from_unix_timestamp`: the instants from the year -9999 to 9999. -/
def from_unix_timestamp (timestamp : ℤ) : Option ℤ :=
  if -377705116800 ≤ timestamp ∧ timestamp ≤ 253402300799 then some timestamp else none

/-- A row of the journal; its timestamp is that of an instant, in Unix seconds. -/
structure JournalRow where
  stream_seq : ℕ
  session_id : String
  timestamp : ℤ
  kind : AgentEventKind
  instant : from_unix_timestamp timestamp = some timestamp

structure SessionRow where
  id : ℕ
  public_id : String
  cwd : Option String
  deriving DecidableEq

structure MessageRow where
  session_id : ℕ
  role : String
  deriving DecidableEq

/-- The tables that the views read, the journal in the order of its sequence. -/
structure Database where
  sessions : List SessionRow
  messages : List MessageRow
  event_journal : List JournalRow
  public_ids : (sessions.map SessionRow.public_id).Nodup
  sequence : (event_journal.map JournalRow.stream_seq).Pairwise (· < ·)

namespace Database

variable (db : Database)

/-! ## 2. Recent models -/

/-- A provider and a model, used in a workspace. -/
structure Key where
  cwd : Option String
  provider : String
  model : String
  deriving DecidableEq

/-- `provider_changed` events, joined with their sessions. -/
def provider_changes : List (Key × ℤ) :=
  db.event_journal.filterMap fun e =>
    match e.kind with
    | .ProviderChanged provider model =>
        (db.sessions.find? fun s => s.public_id = e.session_id).map fun s =>
          (⟨s.cwd, provider, model⟩, e.timestamp)
    | _ => none

/-- The instants of a key's events. -/
def uses (key : Key) : List ℤ :=
  (db.provider_changes.filter fun c => decide (c.1 = key)).map Prod.snd

/-- `MAX(e.timestamp)`. -/
def last_used_ts (key : Key) : ℤ := (db.uses key).max?.getD 0

/-- `COUNT(*)`. -/
def use_count (key : Key) : ℕ := (db.uses key).length

/-- `GROUP BY s.cwd, provider, model`. -/
def keys : List Key := (db.provider_changes.map Prod.fst).dedup

def later (key key' : Key) : Prop := db.last_used_ts key' ≤ db.last_used_ts key

instance : DecidableRel db.later := fun _ _ => inferInstanceAs (Decidable (_ ≤ _))

instance : Std.Total db.later := ⟨fun _ _ => le_total _ _⟩

instance : IsTrans Key db.later := ⟨fun _ _ _ h h' => le_trans h' h⟩

end Database

structure RecentModelEntry where
  provider : String
  model : String
  last_used : ℤ
  use_count : ℕ
  deriving DecidableEq

section

variable (order : RowOrder Database.Key) (now : ℤ) (db : Database)

def entry (key : Database.Key) : RecentModelEntry where
  provider := key.provider
  model := key.model
  last_used := (from_unix_timestamp ((db.last_used_ts key).tdiv 1000)).getD now
  use_count := db.use_count key

/-- One more row, where its workspace has not got its number. -/
def push_limited (limit_per_workspace : ℕ) (entries : List RecentModelEntry)
    (key : Database.Key) : List RecentModelEntry :=
  if entries.length < limit_per_workspace then entries ++ [entry now db key] else entries

/-- The entries of each workspace. A count that does not fit its column is an error. -/
def get_recent_models_view (limit_per_workspace : ℕ) :
    Except String (HashMap (Option String) (List RecentModelEntry)) :=
  let results := order_by order db.later db.keys
  if results.any (fun key => 2 ^ 32 ≤ db.use_count key) then .error "Integer out of range"
  else
    .ok (results.foldl (fun by_workspace key =>
      alter by_workspace key.cwd fun entries =>
        push_limited now db limit_per_workspace entries key) ∅)

end

/-! ## 3. Finish reasons -/

structure SessionListMetaStats where
  message_count : ℕ
  user_message_count : ℕ
  last_finish_reason : Option FinishReason
  deriving DecidableEq

namespace Database

variable (db : Database)

/-- The finish reasons of a session's requests, in the order of the journal. -/
def finish_reasons (session_id : String) : List (Option FinishReason) :=
  db.event_journal.filterMap fun e =>
    if e.session_id = session_id then
      match e.kind with
      | .LlmRequestEnd finish_reason => some finish_reason
      | _ => none
    else none

/-- Rows of `llm_request_end`, of all sessions asked for, latest first. -/
def finish_rows (session_ids : List String) : List (String × Option String) :=
  db.event_journal.reverse.filterMap fun e =>
    if session_ids.contains e.session_id then
      match e.kind with
      | .LlmRequestEnd finish_reason =>
          some (e.session_id, finish_reason.map FinishReason.json)
      | _ => none
    else none

/-- Rows of message counts, one for each session asked for. -/
def message_rows (session_ids : List String) : List (String × ℕ × ℕ) :=
  (db.sessions.filter fun s => session_ids.contains s.public_id).map fun s =>
    (s.public_id, db.messages.countP fun m => m.session_id = s.id,
      db.messages.countP fun m => m.session_id = s.id ∧ m.role = "User")

end Database

/-- `if let Some(entry) = stats.get_mut(id)`. -/
def change (stats : HashMap String SessionListMetaStats) (id : String)
    (f : SessionListMetaStats → SessionListMetaStats) : HashMap String SessionListMetaStats :=
  match stats.lookup id with
  | none => stats
  | some entry => stats.insert id (f entry)

def counted (r : String × ℕ × ℕ) (entry : SessionListMetaStats) : SessionListMetaStats :=
  { entry with message_count := r.2.1 % 2 ^ 32, user_message_count := r.2.2 % 2 ^ 32 }

/-- The first reason that is there is kept. -/
def finished (reason : Option String) (entry : SessionListMetaStats) : SessionListMetaStats :=
  if entry.last_finish_reason.isNone then
    { entry with last_finish_reason := reason.bind parse_finish_reason }
  else entry

def get_session_list_meta_stats (db : Database) (session_ids : List String) :
    HashMap String SessionListMetaStats :=
  if session_ids = [] then ∅
  else
    let stats := session_ids.foldl (fun stats id => stats.insert id ⟨0, 0, none⟩) ∅
    let stats := (db.message_rows session_ids).foldl
      (fun stats r => change stats r.1 (counted r)) stats
    (db.finish_rows session_ids).foldl (fun stats r => change stats r.1 (finished r.2)) stats

/-! ## 4. What the views should say -/

/-- **The recent models of a workspace**: of its distinct pairs the most recently used ones,
most recent first, each with the instant of its latest event and the number of its events. -/
def RecentlyUsed (db : Database) (limit_per_workspace : ℕ) (cwd : Option String)
    (entries : List RecentModelEntry) : Prop :=
  ∃ pairs : List Database.Key, pairs.Nodup ∧
    (∀ key, key ∈ pairs ↔ key.cwd = cwd ∧ db.uses key ≠ []) ∧
    pairs.Pairwise db.later ∧
    entries = (pairs.take limit_per_workspace).map fun key =>
      ⟨key.provider, key.model, db.last_used_ts key, db.use_count key⟩

/-- A key with fewer than the limit of later ones in its workspace. -/
def Listed (db : Database) (limit_per_workspace : ℕ) (key : Database.Key) : Prop :=
  (db.keys.filter fun key' => decide (key'.cwd = key.cwd ∧
    db.last_used_ts key < db.last_used_ts key')).length < limit_per_workspace

/-- The finish reason of the latest request, if it has one. -/
def latest_finish_reason (db : Database) (session_id : String) : Option FinishReason :=
  ((db.finish_reasons session_id).getLast?).bind id

/-! ## 5. Recent models -/

section

variable {db : Database}

theorem mem_keys {key : Database.Key} : key ∈ db.keys ↔ db.uses key ≠ [] := by
  rw [Database.keys, List.mem_dedup, List.mem_map, Database.uses]
  constructor
  · rintro ⟨c, hc, rfl⟩ hnil
    rw [List.map_eq_nil_iff, List.filter_eq_nil_iff] at hnil
    exact hnil c hc (decide_eq_true rfl)
  · intro hne
    rw [Ne, List.map_eq_nil_iff] at hne
    obtain ⟨c, hc⟩ := List.exists_mem_of_ne_nil _ hne
    obtain ⟨hmem, hkey⟩ := List.mem_filter.1 hc
    exact ⟨c, hmem, of_decide_eq_true hkey⟩

/-- The instants of a journal are instants. -/
theorem uses_instant {key : Database.Key} {t : ℤ} (ht : t ∈ db.uses key) :
    from_unix_timestamp t = some t := by
  obtain ⟨c, hc, rfl⟩ := List.mem_map.1 ht
  obtain ⟨e, -, he⟩ := List.mem_filterMap.1 (List.mem_filter.1 hc).1
  split at he
  · obtain ⟨s, -, rfl⟩ := Option.map_eq_some_iff.1 he
    exact e.instant
  · cases he

theorem last_used_ts_mem {key : Database.Key} (h : db.uses key ≠ []) :
    db.last_used_ts key ∈ db.uses key := by
  obtain ⟨t, ht⟩ : ∃ t, (db.uses key).max? = some t := by
    cases hmax : (db.uses key).max? with
    | none => exact absurd (List.max?_eq_none_iff.1 hmax) h
    | some t => exact ⟨t, rfl⟩
  rw [Database.last_used_ts, ht]
  exact List.max?_mem ht

/-- A second after the epoch is not what a thousand seconds before it are. -/
theorem last_used_eq_iff (now : ℤ) {key : Database.Key} (h : key ∈ db.keys) :
    (entry now db key).last_used = db.last_used_ts key ↔ db.last_used_ts key = 0 := by
  have hinstant := uses_instant (last_used_ts_mem (mem_keys.1 h))
  generalize ht : db.last_used_ts key = t at hinstant
  have hrange : -377705116800 ≤ t ∧ t ≤ 253402300799 := by
    by_contra hout
    rw [from_unix_timestamp, if_neg hout] at hinstant
    cases hinstant
  -- the quotient lies between zero and the instant
  have hdiv : t.tdiv 1000 = if 0 ≤ t then t / 1000 else -(-t / 1000) := by
    by_cases hsign : 0 ≤ t
    · rw [if_pos hsign, Int.tdiv_eq_ediv_of_nonneg hsign]
    · rw [if_neg hsign, ← Int.tdiv_eq_ediv_of_nonneg (by omega), Int.neg_tdiv, neg_neg]
  have hquot : from_unix_timestamp (t.tdiv 1000) = some (t.tdiv 1000) := by
    rw [from_unix_timestamp, if_pos]
    rw [hdiv]
    split <;> omega
  have hlast : (entry now db key).last_used = if 0 ≤ t then t / 1000 else -(-t / 1000) := by
    rw [entry]
    dsimp only
    rw [ht, hquot, Option.getD_some, hdiv]
  rw [hlast]
  split <;> omega

theorem foldl_push_limited (now : ℤ) (limit : ℕ) (keys : List Database.Key)
    {entries : List RecentModelEntry} (h : entries.length ≤ limit) :
    keys.foldl (push_limited now db limit) entries =
      entries ++ (keys.take (limit - entries.length)).map (entry now db) := by
  induction keys generalizing entries with
  | nil => simp
  | cons key keys ih =>
      rw [List.foldl_cons, push_limited]
      by_cases hlt : entries.length < limit
      · have hlength : (entries ++ [entry now db key]).length = entries.length + 1 := by simp
        have hsucc : limit - entries.length = limit - (entries.length + 1) + 1 := by omega
        rw [if_pos hlt, ih (by omega), hlength, hsucc, List.take_succ_cons, List.map_cons,
          List.append_assoc, List.singleton_append]
      · have hzero : limit - entries.length = 0 := by omega
        rw [if_neg hlt, ih h, hzero, List.take_zero, List.take_zero]

/-- The keys of a workspace, latest first. -/
def workspace_keys (order : RowOrder Database.Key) (db : Database) (cwd : Option String) :
    List Database.Key :=
  (order_by order db.later db.keys).filter fun key => decide (key.cwd = cwd)

theorem nodup_workspace_keys (order : RowOrder Database.Key) (cwd : Option String) :
    (workspace_keys order db cwd).Nodup :=
  ((perm_order_by order db.later db.keys).nodup_iff.2 (List.nodup_dedup _)).filter _

theorem mem_workspace_keys (order : RowOrder Database.Key) {cwd : Option String}
    {key : Database.Key} :
    key ∈ workspace_keys order db cwd ↔ key.cwd = cwd ∧ db.uses key ≠ [] := by
  rw [workspace_keys, List.mem_filter, (perm_order_by order db.later db.keys).mem_iff, mem_keys,
    decide_eq_true_iff]
  exact and_comm

theorem pairwise_workspace_keys (order : RowOrder Database.Key) (cwd : Option String) :
    (workspace_keys order db cwd).Pairwise db.later :=
  (pairwise_order_by order db.later db.keys).sublist List.filter_sublist

/-- What the view has of a workspace. -/
theorem view_at {order : RowOrder Database.Key} {now : ℤ} {limit : ℕ}
    {view : HashMap (Option String) (List RecentModelEntry)}
    (h : get_recent_models_view order now db limit = .ok view) (cwd : Option String) :
    bucket view cwd = ((workspace_keys order db cwd).take limit).map (entry now db) := by
  unfold get_recent_models_view at h
  dsimp only at h
  split at h
  · cases h
  · rw [← Except.ok.inj h, bucket_foldl]
    have hempty : bucket (∅ : HashMap (Option String) (List RecentModelEntry)) cwd = [] := rfl
    rw [hempty, ← workspace_keys, foldl_push_limited now limit _ (Nat.zero_le _)]
    rfl

/-- The later ones of a workspace come before. -/
theorem later_keys_length (order : RowOrder Database.Key) (key : Database.Key) :
    (db.keys.filter fun key' => decide (key'.cwd = key.cwd ∧
        db.last_used_ts key < db.last_used_ts key')).length =
      ((workspace_keys order db key.cwd).filter fun key' =>
        decide (db.last_used_ts key < db.last_used_ts key')).length := by
  have hperm := (perm_order_by order db.later db.keys).filter fun key' => decide (key'.cwd = key.cwd)
  have hlater := hperm.filter fun key' => decide (db.last_used_ts key < db.last_used_ts key')
  rw [workspace_keys, hlater.length_eq, List.filter_filter]
  congr 1
  apply List.filter_congr
  intro key' _
  rw [Bool.decide_and, Bool.and_comm]

/-- Those that are listed, by their place. -/
theorem listed_of_mem_take {order : RowOrder Database.Key} {limit : ℕ} {cwd : Option String}
    {key : Database.Key} (h : key ∈ (workspace_keys order db cwd).take limit) :
    Listed db limit key := by
  have hcwd := ((mem_workspace_keys order).1 (List.mem_of_mem_take h)).1
  subst hcwd
  rw [Listed, later_keys_length order]
  have hsorted := @pairwise_workspace_keys db order key.cwd
  generalize workspace_keys order db key.cwd = keys at h hsorted
  obtain ⟨front, back, hsplit⟩ := List.append_of_mem h
  have hkeys : keys = front ++ key :: (back ++ keys.drop limit) := by
    conv_lhs => rw [← List.take_append_drop limit keys, hsplit]
    simp
  have hfront : front.length < limit := by
    have hlength := List.length_take_le limit keys
    rw [hsplit] at hlength
    simp only [List.length_append, List.length_cons] at hlength
    omega
  rw [hkeys, List.pairwise_append, List.pairwise_cons] at hsorted
  have hback : (key :: (back ++ keys.drop limit)).filter (fun key' =>
      decide (db.last_used_ts key < db.last_used_ts key')) = [] := by
    rw [List.filter_eq_nil_iff]
    intro key' hkey' hlt
    have hlt := of_decide_eq_true hlt
    rcases List.mem_cons.1 hkey' with rfl | hkey'
    · exact lt_irrefl _ hlt
    · exact absurd (hsorted.2.1.1 key' hkey') (not_le.2 hlt)
  rw [hkeys, List.filter_append, hback, List.append_nil]
  exact lt_of_le_of_lt (List.length_filter_le _ _) hfront

/-- A key that may be listed is as recent as one that is. -/
theorem exists_listed {order : RowOrder Database.Key} {limit : ℕ} {key : Database.Key}
    (hkey : key ∈ db.keys) (h : Listed db limit key) :
    ∃ key' ∈ (workspace_keys order db key.cwd).take limit,
      db.last_used_ts key' = db.last_used_ts key := by
  have hmem : key ∈ workspace_keys order db key.cwd :=
    (mem_workspace_keys order).2 ⟨rfl, mem_keys.1 hkey⟩
  rw [Listed, later_keys_length order] at h
  have hsorted := @pairwise_workspace_keys db order key.cwd
  generalize workspace_keys order db key.cwd = keys at h hsorted hmem
  -- the first that is not later
  have hsplit := List.takeWhile_append_dropWhile
    (p := fun key' => decide (db.last_used_ts key < db.last_used_ts key')) (l := keys)
  have hfront := fun key' hkey' => List.mem_takeWhile_imp
    (p := fun key' => decide (db.last_used_ts key < db.last_used_ts key')) (l := keys)
    (x := key') hkey'
  cases hback : keys.dropWhile fun key' => decide (db.last_used_ts key < db.last_used_ts key') with
  | nil =>
      rw [hback, List.append_nil] at hsplit
      rw [← hsplit] at hmem
      exact absurd (of_decide_eq_true (hfront key hmem)) (lt_irrefl _)
  | cons first rest =>
      have hnot : ¬db.last_used_ts key < db.last_used_ts first := by
        have hne : (keys.dropWhile fun key' =>
            decide (db.last_used_ts key < db.last_used_ts key')) ≠ [] := by
          rw [hback]
          exact List.cons_ne_nil _ _
        have hhead := List.head_dropWhile_not _ hne
        simpa [hback] using hhead
      rw [hback] at hsplit
      generalize hA : keys.takeWhile _ = A at hsplit hfront
      subst hsplit
      refine ⟨first, ?_, ?_⟩
      · have hlength : A.length < limit := by
          apply lt_of_le_of_lt _ h
          rw [List.filter_append, List.length_append, List.filter_eq_self.2 hfront]
          exact Nat.le_add_right _ _
        rw [List.take_append, List.take_of_length_le (by omega)]
        apply List.mem_append_right
        obtain ⟨n, hn⟩ : ∃ n, limit - A.length = n + 1 := ⟨limit - A.length - 1, by omega⟩
        rw [hn, List.take_succ_cons]
        exact List.mem_cons_self
      · apply le_antisymm (not_lt.1 hnot)
        rcases List.mem_append.1 hmem with hA' | hrest
        · exact absurd (of_decide_eq_true (hfront key hA')) (lt_irrefl _)
        · rcases List.mem_cons.1 hrest with rfl | hrest
          · exact le_refl _
          · rw [List.pairwise_append, List.pairwise_cons] at hsorted
            exact hsorted.2.1.1 key hrest

/-- **Recent models, exactly.** -/
theorem recent_models_iff (order : RowOrder Database.Key) (now : ℤ) (limit : ℕ) :
    (∃ view, get_recent_models_view order now db limit = .ok view ∧
        ∀ cwd, RecentlyUsed db limit cwd (bucket view cwd)) ↔
      (∀ key ∈ db.keys, db.use_count key < 2 ^ 32) ∧
        ∀ key ∈ db.keys, Listed db limit key → db.last_used_ts key = 0 := by
  constructor
  · rintro ⟨view, hview, hrecent⟩
    refine ⟨?_, ?_⟩
    · intro key hkey
      by_contra hlarge
      have herror : get_recent_models_view order now db limit = .error "Integer out of range" := by
        unfold get_recent_models_view
        dsimp only
        rw [if_pos]
        rw [List.any_eq_true]
        exact ⟨key, (perm_order_by order db.later db.keys).mem_iff.2 hkey,
          decide_eq_true (not_lt.1 hlarge)⟩
      rw [herror] at hview
      cases hview
    · intro key hkey hlisted
      obtain ⟨key', hkey', hsame⟩ := exists_listed hkey hlisted
      obtain ⟨pairs, -, hpairs, -, hentries⟩ := hrecent key.cwd
      rw [view_at hview] at hentries
      have hmem : entry now db key' ∈
          ((workspace_keys order db key.cwd).take limit).map (entry now db) :=
        List.mem_map_of_mem hkey'
      rw [hentries] at hmem
      obtain ⟨pair, hpair, heq⟩ := List.mem_map.1 hmem
      obtain ⟨hprovider, hmodel, hlast, -⟩ := RecentModelEntry.mk.inj heq
      have hcwd := ((mem_workspace_keys order).1 (List.mem_of_mem_take hkey')).1
      have hcwd' := ((hpairs pair).1 (List.mem_of_mem_take hpair)).1
      have hpair : pair = key' := by
        obtain ⟨cwd, provider, model⟩ := pair
        obtain ⟨cwd', provider', model'⟩ := key'
        obtain rfl : cwd = cwd' := hcwd'.trans hcwd.symm
        obtain rfl : provider = provider' := hprovider
        obtain rfl : model = model' := hmodel
        rfl
      rw [hpair] at hlast
      have hused := (mem_workspace_keys order).1 (List.mem_of_mem_take hkey')
      rw [← hsame]
      exact (last_used_eq_iff now (mem_keys.2 hused.2)).1 hlast.symm
  · rintro ⟨hcount, hzero⟩
    have hok : ∃ view, get_recent_models_view order now db limit = .ok view := by
      unfold get_recent_models_view
      dsimp only
      rw [if_neg]
      · exact ⟨_, rfl⟩
      · intro hany
        obtain ⟨key, hkey, hlarge⟩ := List.any_eq_true.1 hany
        have hsmall := hcount key ((perm_order_by order db.later db.keys).mem_iff.1 hkey)
        exact absurd (of_decide_eq_true hlarge) (not_le.2 hsmall)
    obtain ⟨view, hview⟩ := hok
    refine ⟨view, hview, fun cwd => ?_⟩
    refine ⟨workspace_keys order db cwd, nodup_workspace_keys order cwd,
      fun key => mem_workspace_keys order, pairwise_workspace_keys order cwd, ?_⟩
    rw [view_at hview]
    apply List.map_congr_left
    intro key hkey
    have hused := (mem_workspace_keys order).1 (List.mem_of_mem_take hkey)
    have hlast := (last_used_eq_iff now (mem_keys.2 hused.2)).2
      (hzero key (mem_keys.2 hused.2) (listed_of_mem_take hkey))
    rw [← hlast]
    rfl

end

/-! ## 6. Finish reasons -/

/-- The reasons that are there, the first of them. -/
def first_reason (reasons : List (Option FinishReason)) : Option FinishReason :=
  reasons.findSome? id

section

variable {db : Database}

theorem lookup_change (stats : HashMap String SessionListMetaStats) (id id' : String)
    (f : SessionListMetaStats → SessionListMetaStats) :
    (change stats id' f).lookup id =
      if id' = id then (stats.lookup id).map f else stats.lookup id := by
  rw [change]
  by_cases hid : id' = id
  · subst hid
    rw [if_pos rfl]
    cases h : stats.lookup id' with
    | none => exact h
    | some entry => exact AList.lookup_insert _
  · rw [if_neg hid]
    cases stats.lookup id' with
    | none => rfl
    | some entry => exact AList.lookup_insert_ne (Ne.symm hid)

/-- Rows change the entries of their sessions, one after another. -/
theorem lookup_changes {ρ : Type} (id_of : ρ → String)
    (f : ρ → SessionListMetaStats → SessionListMetaStats) (rows : List ρ) (id : String)
    (stats : HashMap String SessionListMetaStats) :
    (rows.foldl (fun stats r => change stats (id_of r) (f r)) stats).lookup id =
      (stats.lookup id).map fun entry =>
        (rows.filter fun r => decide (id_of r = id)).foldl (fun entry r => f r entry) entry := by
  induction rows generalizing stats with
  | nil => simp
  | cons r rows ih =>
      rw [List.foldl_cons, ih, lookup_change, List.filter_cons]
      by_cases hid : id_of r = id
      · rw [if_pos hid, if_pos (decide_eq_true hid), Option.map_map]
        rfl
      · rw [if_neg hid, if_neg (by simpa using hid)]

theorem lookup_insert_all (ids : List String) (e : SessionListMetaStats) (id : String)
    (stats : HashMap String SessionListMetaStats) :
    (ids.foldl (fun stats id => stats.insert id e) stats).lookup id =
      if id ∈ ids then some e else stats.lookup id := by
  induction ids generalizing stats with
  | nil => rfl
  | cons id' ids ih =>
      rw [List.foldl_cons, ih]
      by_cases hid : id = id'
      · subst hid
        rw [if_pos List.mem_cons_self, AList.lookup_insert]
        split <;> rfl
      · rw [AList.lookup_insert_ne hid]
        simp only [List.mem_cons, hid, false_or]

theorem first_reason_cons (reason : Option FinishReason) (reasons : List (Option FinishReason)) :
    first_reason (reason :: reasons) = reason.or (first_reason reasons) := by
  cases reason <;> rfl

/-- Of the rows of a session, the first reason that is there is kept. -/
theorem last_finish_reason_foldl (rows : List (String × Option FinishReason))
    (entry : SessionListMetaStats) :
    ((rows.map fun r => (r.1, r.2.map FinishReason.json)).foldl
        (fun entry r => finished r.2 entry) entry).last_finish_reason =
      entry.last_finish_reason.or (first_reason (rows.map Prod.snd)) := by
  induction rows generalizing entry with
  | nil =>
      rw [List.map_nil, List.foldl_nil, List.map_nil]
      exact Option.or_none.symm
  | cons r rows ih =>
      rw [List.map_cons, List.foldl_cons, ih, finished, List.map_cons, first_reason_cons]
      have hparse : (r.2.map FinishReason.json).bind parse_finish_reason = r.2 := by
        cases r.2 with
        | none => rfl
        | some reason => exact parse_json reason
      cases hlast : entry.last_finish_reason with
      | some reason => simp [hlast]
      | none => simp [hparse]

/-- The rows of one session are its reasons, latest first. -/
theorem finish_rows_at {session_ids : List String} {id : String} (hid : id ∈ session_ids) :
    ((db.finish_rows session_ids).filter fun r => decide (r.1 = id)) =
      ((db.finish_reasons id).reverse.map fun reason => (id, reason)).map fun r =>
        (r.1, r.2.map FinishReason.json) := by
  rw [Database.finish_rows, Database.finish_reasons, ← List.filterMap_reverse, List.map_map,
    List.map_filterMap, List.filter_filterMap]
  apply List.filterMap_congr
  intro e _
  by_cases hsession : e.session_id = id
  · have hcontains : session_ids.contains e.session_id = true := by
      rw [hsession]
      exact List.contains_iff_mem.2 hid
    rw [if_pos hcontains, if_pos hsession]
    cases e.kind <;> simp [hsession]
  · rw [if_neg hsession]
    split
    · cases e.kind <;> simp [hsession]
    · rfl

/-- **What is reported** of a session: the latest reason that is there. -/
theorem reported_finish_reason {session_ids : List String} {id : String}
    (hid : id ∈ session_ids) :
    ∃ entry, (get_session_list_meta_stats db session_ids).lookup id = some entry ∧
      entry.last_finish_reason = first_reason (db.finish_reasons id).reverse := by
  have hne : session_ids ≠ [] := List.ne_nil_of_mem hid
  have hcounted : ∀ (rows : List (String × ℕ × ℕ)) (entry : SessionListMetaStats),
      (rows.foldl (fun entry r => counted r entry) entry).last_finish_reason =
        entry.last_finish_reason := by
    intro rows entry
    induction rows generalizing entry with
    | nil => rfl
    | cons r rows ih => exact ih (counted r entry)
  have hstats := lookup_insert_all session_ids ⟨0, 0, none⟩ id ∅
  rw [if_pos hid] at hstats
  unfold get_session_list_meta_stats
  rw [if_neg hne]
  dsimp only
  rw [lookup_changes Prod.fst fun r => finished r.2, lookup_changes Prod.fst counted, hstats,
    Option.map_some, Option.map_some, finish_rows_at hid]
  refine ⟨_, rfl, ?_⟩
  rw [last_finish_reason_foldl, hcounted, Option.none_or, List.map_map]
  congr 1
  exact List.map_id _

/-- The latest reason that is there is that of the latest request, unless this has none and an
earlier one has. -/
theorem first_reason_iff (reasons : List (Option FinishReason)) :
    first_reason reasons.reverse = reasons.getLast?.bind id ↔
      (reasons.getLast? = some none → ∀ reason ∈ reasons, reason = none) := by
  rcases List.eq_nil_or_concat reasons with rfl | ⟨front, last, rfl⟩
  · exact ⟨fun _ h => (nomatch h), fun _ => rfl⟩
  · rw [List.concat_eq_append, List.reverse_append, List.getLast?_concat, first_reason,
      List.reverse_singleton, List.singleton_append, List.findSome?_cons]
    cases last with
    | some reason => exact ⟨fun _ h => (nomatch h), fun _ => rfl⟩
    | none =>
        simp only [id_eq, Option.bind_some, List.findSome?_eq_none_iff, List.mem_reverse,
          forall_const, List.mem_append, List.mem_singleton]
        constructor
        · rintro h reason (hmem | rfl)
          · exact h reason hmem
          · rfl
        · exact fun h reason hmem => h reason (.inl hmem)

/-- **Finish reasons, exactly.** -/
theorem finish_reasons_iff (session_ids : List String) :
    (∀ id ∈ session_ids, ∃ entry,
        (get_session_list_meta_stats db session_ids).lookup id = some entry ∧
        entry.last_finish_reason = latest_finish_reason db id) ↔
      ∀ id ∈ session_ids, (db.finish_reasons id).getLast? = some none →
        ∀ reason ∈ db.finish_reasons id, reason = none := by
  constructor
  · intro h id hid
    obtain ⟨entry, hentry, hreported⟩ := h id hid
    obtain ⟨entry', hentry', hreason⟩ := reported_finish_reason hid
    rw [hentry'] at hentry
    obtain rfl := Option.some.inj hentry
    apply (first_reason_iff _).1
    rw [← hreason, hreported]
    rfl
  · intro h id hid
    obtain ⟨entry, hentry, hreason⟩ := reported_finish_reason hid
    refine ⟨entry, hentry, ?_⟩
    rw [hreason]
    exact (first_reason_iff _).2 (h id hid)

end

/-! ## 7. Both views -/

/-- **The views, exactly**: they are what the journal says if and only if every count fits its
column, what may be listed was last used at the epoch itself, and no session's latest request
lacks the finish reason that an earlier one has. -/
theorem journal_views_iff (order : RowOrder Database.Key) (now : ℤ) (db : Database)
    (limit_per_workspace : ℕ) (session_ids : List String) :
    ((∃ view, get_recent_models_view order now db limit_per_workspace = .ok view ∧
          ∀ cwd, RecentlyUsed db limit_per_workspace cwd (bucket view cwd)) ∧
        ∀ id ∈ session_ids, ∃ entry,
          (get_session_list_meta_stats db session_ids).lookup id = some entry ∧
          entry.last_finish_reason = latest_finish_reason db id) ↔
      ((∀ key ∈ db.keys, db.use_count key < 2 ^ 32) ∧
          ∀ key ∈ db.keys, Listed db limit_per_workspace key → db.last_used_ts key = 0) ∧
        ∀ id ∈ session_ids, (db.finish_reasons id).getLast? = some none →
          ∀ reason ∈ db.finish_reasons id, reason = none :=
  and_congr (recent_models_iff order now limit_per_workspace) (finish_reasons_iff session_ids)

/-- One change of the provider, in 2023; a request that stopped, and one without a reason. -/
def one_change : Database where
  sessions := [⟨1, "s", some "/w"⟩]
  messages := []
  event_journal :=
    [⟨1, "s", 1700000000, .ProviderChanged "openai" "gpt", by decide⟩,
      ⟨2, "s", 1700000001, .LlmRequestEnd (some .Stop), by decide⟩,
      ⟨3, "s", 1700000002, .LlmRequestEnd none, by decide⟩]
  public_ids := by decide
  sequence := by decide

/-- Its instant comes out in January 1970, and the reason is not that of the latest request. -/
theorem seconds_taken_for_milliseconds :
    (∃ view, get_recent_models_view ⟨id, fun _ => List.Perm.refl _⟩ 0 one_change 5 = .ok view ∧
        bucket view (some "/w") = [⟨"openai", "gpt", 1700000, 1⟩]) ∧
      one_change.last_used_ts ⟨some "/w", "openai", "gpt"⟩ = 1700000000 ∧
      ((get_session_list_meta_stats one_change ["s"]).lookup "s").map
          SessionListMetaStats.last_finish_reason = some (some .Stop) ∧
      latest_finish_reason one_change "s" = none := by
  refine ⟨⟨_, rfl, ?_⟩, ?_, ?_, ?_⟩ <;> decide +kernel

end Querymt.JournalViews
