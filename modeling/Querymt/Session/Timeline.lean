/-
`Session/Timeline.lean` -- what an undo does to the files, against what happened.

`undo.rs` says that an undo "reverts all filesystem changes made after a specific
message". Here a worktree has a content at every time, and a turn of a session has a
start, an end, the snapshot before it and the paths it changed. The store holds the
turns of a session and of its children as `session_actor.rs` leaves them there. The
law: a path that a turn after the message changed gets its content from the start of
the message's turn, and every other path keeps the content it has.

`undo_impl` works on a list of patches: the session's own from the message on, then
all that the child sessions hold, one session after the other. It replays them in
reverse, so what counts for a path is **the first turn of the list that names it**
(`undo_patches_files`). Neither the times nor the target enter for the children. The
law holds exactly when that first turn started with the right content
(`undo_restores_iff`); a delegation that ended before the message breaks it
(`earlier_delegation_undone`), and so does a fork with the old parts of its parent. For
a session without children whose files only turns change, it always holds
(`undo_restores_without_children`).
-/
import Querymt.Session.Undo

set_option autoImplicit false

namespace Querymt.Session

open Querymt.Agent (ChatRole MessagePart AgentMessage)

/-! ## 1. Turns and the worktree over time -/

/-- A turn as it happened and as it was recorded. -/
structure Turn where
  turn_id : String
  started : ℕ
  stopped : ℕ
  pre_snapshot_id : String
  post_snapshot_id : String
  changed_paths : List String
  deriving DecidableEq

namespace Turn

/-- What a turn stores for undo: its start, and its patch when files changed. -/
def parts (t : Turn) : List MessagePart :=
  .TurnSnapshotStart t.turn_id t.pre_snapshot_id ::
    if t.changed_paths = [] then []
    else [.TurnSnapshotPatch t.turn_id t.post_snapshot_id t.changed_paths]

def start (t : Turn) : String × String := (t.turn_id, t.pre_snapshot_id)

def patch (t : Turn) : TurnPatch := ⟨t.turn_id, t.pre_snapshot_id, t.changed_paths⟩

def names (p : String) (t : Turn) : Bool := decide (p ∈ t.changed_paths)

end Turn

def snapshot_parts (history : List AgentMessage) : List MessagePart :=
  (history.flatMap AgentMessage.parts).filter MessagePart.is_turn_snapshot

/-- The messages of a session record these turns, one after the other. -/
structure Records (history : List AgentMessage) (turns : List Turn) : Prop where
  parts : snapshot_parts history = turns.flatMap Turn.parts
  in_order : turns.Pairwise fun t t' => t.stopped ≤ t'.started

/-- The course of events up to an undo of a user message of a session: the files at every
time, the turns of the session before the message and from it on, the turns in the
histories of its child sessions (their own, and in a fork the copies of older ones), and
how all this is stored. -/
structure Course (world : World) (session_id message_id : String) where
  files_at : ℕ → String → Option String
  now : ℕ
  files_now : files_at now = world.worktree.files
  before : List AgentMessage
  target : AgentMessage
  after : List AgentMessage
  earlier : List Turn
  turn : Turn
  later : List Turn
  children : List String
  child_turns : String → List Turn
  history : world.db.get_history session_id = .ok (before ++ target :: after)
  target_id : target.id = message_id
  target_role : target.role = .User
  target_first : ∀ m ∈ before, m.id ≠ message_id
  before_records : snapshot_parts before = earlier.flatMap Turn.parts
  target_parts : snapshot_parts [target] = []
  records : Records (before ++ target :: after) (earlier ++ turn :: later)
  child_sessions : world.db.list_child_sessions session_id = .ok children
  not_own_child : session_id ∉ children
  child_records : ∀ c ∈ children, ∃ child_history,
    world.db.get_history c = .ok child_history ∧ Records child_history (child_turns c)
  /-- every turn has its snapshot and its changed paths -/
  recorded : ∀ t ∈ earlier ++ turn :: later ++ children.flatMap child_turns,
    t.started ≤ t.stopped ∧ t.stopped ≤ now ∧
    (∃ w, world.snapshots.lookup t.pre_snapshot_id = some w ∧ w.files = files_at t.started) ∧
    ∀ p, p ∈ t.changed_paths ↔ files_at t.started p ≠ files_at t.stopped p
  /-- turn ids are uuids -/
  turn_ids : ∀ t ∈ earlier ++ turn :: later ++ children.flatMap child_turns,
    ∀ t' ∈ earlier ++ turn :: later ++ children.flatMap child_turns,
    t.turn_id = t'.turn_id → t = t'

namespace Course

variable {world : World} {session_id message_id : String}
variable (C : Course world session_id message_id)

/-- The turns whose patches an undo finds, in the order it lists them. -/
def listed : List Turn := C.turn :: C.later ++ C.children.flatMap C.child_turns

/-- The first of them that names a path. -/
def first_listed (p : String) : Option Turn := C.listed.find? (Turn.names p)

/-- A turn after the message changed the path: the message's own turn, a later one of the
session, or one of a child session that started since. -/
def ChangedAfter (p : String) : Prop :=
  ∃ t ∈ C.listed, C.turn.started ≤ t.started ∧ p ∈ t.changed_paths

instance (p : String) : Decidable (C.ChangedAfter p) :=
  inferInstanceAs (Decidable (∃ t ∈ C.listed, C.turn.started ≤ t.started ∧ p ∈ t.changed_paths))

/-- The content that a path is to have after the undo. -/
def wanted (p : String) : Option String :=
  if C.ChangedAfter p then C.files_at C.turn.started p else world.worktree.files p

/-- The undo succeeds and every path has the content it is to have. -/
def Restored (after : Except UndoError UndoResult × World) : Prop :=
  (∃ r, after.1 = .ok r) ∧ ∀ p, after.2.worktree.files p = C.wanted p

/-- For every path that a listed patch names, the first turn that names it started with
the content that the path is to have. -/
def FirstListedFits : Prop :=
  ∀ p, ∀ t ∈ C.first_listed p, C.files_at t.started p = C.wanted p

end Course

/-! ## 2. What an undo collects -/

theorem insert_start_of_not_snapshot {part : MessagePart}
    (h : part.is_turn_snapshot = false) (pre : PreSnapshots) : insert_start pre part = pre := by
  cases part <;> first | rfl | cases h

theorem patch_of_not_snapshot {part : MessagePart}
    (h : part.is_turn_snapshot = false) (pre : PreSnapshots) : patch_of pre part = none := by
  cases part <;> first | rfl | cases h

theorem foldl_insert_start_filter (parts : List MessagePart) (pre : PreSnapshots) :
    (parts.filter MessagePart.is_turn_snapshot).foldl insert_start pre
      = parts.foldl insert_start pre := by
  induction parts generalizing pre with
  | nil => rfl
  | cons part rest ih =>
      rw [List.filter_cons]
      cases hpart : part.is_turn_snapshot with
      | true => exact ih (insert_start pre part)
      | false =>
          rw [List.foldl_cons, insert_start_of_not_snapshot hpart]
          exact ih pre

theorem filterMap_patch_of_filter (parts : List MessagePart) (pre : PreSnapshots) :
    (parts.filter MessagePart.is_turn_snapshot).filterMap (patch_of pre)
      = parts.filterMap (patch_of pre) := by
  rw [List.filterMap_filter]
  congr 1
  funext part
  cases hpart : part.is_turn_snapshot with
  | true => rfl
  | false => exact (patch_of_not_snapshot hpart pre).symm

/-- The starts of turns, entered one after the other. -/
theorem foldl_insert_start_turns (turns : List Turn) (pre : PreSnapshots) :
    (turns.flatMap Turn.parts).foldl insert_start pre
      = (turns.map Turn.start).reverse ++ pre := by
  induction turns generalizing pre with
  | nil => rfl
  | cons t rest ih =>
      have hstart : t.parts.foldl insert_start pre = t.start :: pre := by
        unfold Turn.parts
        split <;> rfl
      rw [List.flatMap_cons, List.foldl_append, hstart, ih, List.map_cons, List.reverse_cons,
        List.append_assoc]
      rfl

/-- The turns that have a patch. -/
def patched (turns : List Turn) : List Turn := turns.filter fun t => decide (t.changed_paths ≠ [])

theorem filterMap_patch_of_turns (turns : List Turn) (pre : PreSnapshots)
    (hpre : ∀ t ∈ turns, pre.lookup t.turn_id = some t.pre_snapshot_id) :
    (turns.flatMap Turn.parts).filterMap (patch_of pre) = (patched turns).map Turn.patch := by
  unfold patched
  induction turns with
  | nil => rfl
  | cons t rest ih =>
      have hrest := ih fun t' ht' => hpre t' (List.mem_cons_of_mem t ht')
      have hhead := hpre t List.mem_cons_self
      rw [List.flatMap_cons, List.filterMap_append, hrest, List.filter_cons]
      by_cases hchanged : t.changed_paths = []
      · have hnone : t.parts.filterMap (patch_of pre) = [] := by
          unfold Turn.parts
          rw [if_pos hchanged]
          rfl
        rw [hnone, if_neg (by simp [hchanged])]
        rfl
      · have hone : t.parts.filterMap (patch_of pre) = [t.patch] := by
          unfold Turn.parts
          rw [if_neg hchanged]
          simp [List.filterMap_cons, patch_of, hhead, Turn.patch]
        rw [hone, if_pos (by simp [hchanged])]
        rfl

theorem lookup_of_unique {k v : String} {pre : PreSnapshots}
    (hmem : (k, v) ∈ pre) (hunique : ∀ e ∈ pre, e.1 = k → e.2 = v) : pre.lookup k = some v := by
  induction pre with
  | nil => cases hmem
  | cons e rest ih =>
      obtain ⟨k', v'⟩ := e
      rw [List.lookup_cons]
      by_cases hk : k = k'
      · have hv : v' = v := hunique (k', v') List.mem_cons_self hk.symm
        rw [hk, beq_self_eq_true, hv]
      · rw [beq_false_of_ne hk]
        refine ih ?_ fun e he => hunique e (List.mem_cons_of_mem _ he)
        rcases List.mem_cons.1 hmem with heq | hrest
        · exact absurd (congrArg Prod.fst heq) hk
        · exact hrest

section Scan

variable {all : List Turn} (hall : ∀ t ∈ all, ∀ t' ∈ all, t.turn_id = t'.turn_id → t = t')
include hall

/-- The scan of one session finds the patches of its turns, when the starts known so far are
those of turns. -/
theorem scan_history_records {history : List AgentMessage} {turns : List Turn}
    (acc : PreSnapshots × List TurnPatch) (hparts : snapshot_parts history = turns.flatMap Turn.parts)
    (hturns : ∀ t ∈ turns, t ∈ all) (hacc : ∀ e ∈ acc.1, ∃ t ∈ all, e = t.start) :
    (∀ e ∈ (scan_history acc history).1, ∃ t ∈ all, e = t.start) ∧
    (scan_history acc history).2 = acc.2 ++ (patched turns).map Turn.patch := by
  have hpre : (history.flatMap AgentMessage.parts).foldl insert_start acc.1
      = (turns.map Turn.start).reverse ++ acc.1 := by
    rw [← foldl_insert_start_filter, ← foldl_insert_start_turns]
    exact congrArg (List.foldl insert_start acc.1) hparts
  have hsound : ∀ e ∈ (turns.map Turn.start).reverse ++ acc.1, ∃ t ∈ all, e = t.start := by
    intro e he
    rcases List.mem_append.1 he with he | he
    · obtain ⟨t, ht, rfl⟩ := List.mem_map.1 (List.mem_reverse.1 he)
      exact ⟨t, hturns t ht, rfl⟩
    · exact hacc e he
  have hlookup : ∀ t ∈ turns,
      ((turns.map Turn.start).reverse ++ acc.1).lookup t.turn_id = some t.pre_snapshot_id := by
    intro t ht
    apply lookup_of_unique
    · exact List.mem_append_left _ (List.mem_reverse.2 (List.mem_map_of_mem ht))
    · intro e he hid
      obtain ⟨t', ht', rfl⟩ := hsound e he
      rw [hall t' ht' t (hturns t ht) hid]
      rfl
  unfold scan_history
  simp only [hpre]
  refine ⟨hsound, ?_⟩
  congr 1
  rw [← filterMap_patch_of_filter, ← filterMap_patch_of_turns turns _ hlookup]
  exact congrArg (List.filterMap _) hparts

/-- The scan of child sessions, one after the other. -/
theorem scan_children {db : Db} {session_id : String} {after : List AgentMessage}
    {child_turns : String → List Turn} {children : List String}
    (hnot : session_id ∉ children)
    (hrecords : ∀ c ∈ children, ∃ history, db.get_history c = .ok history ∧
      Records history (child_turns c))
    (hturns : ∀ c ∈ children, ∀ t ∈ child_turns c, t ∈ all)
    {acc : PreSnapshots × List TurnPatch} (hacc : ∀ e ∈ acc.1, ∃ t ∈ all, e = t.start) :
    (children.foldl (scan_session db session_id after) acc).2
      = acc.2 ++ (patched (children.flatMap child_turns)).map Turn.patch := by
  induction children generalizing acc with
  | nil => exact (List.append_nil _).symm
  | cons c rest ih =>
      obtain ⟨history, hhistory, hrec⟩ := hrecords c List.mem_cons_self
      have hne : c ≠ session_id := fun heq => hnot (heq ▸ List.mem_cons_self)
      have hscan : scan_session db session_id after acc c = scan_history acc history := by
        unfold scan_session
        rw [if_neg hne, hhistory]
      obtain ⟨hsound, hpatches⟩ :=
        scan_history_records hall acc hrec.parts (hturns c List.mem_cons_self) hacc
      rw [List.foldl_cons, hscan,
        ih (fun h => hnot (List.mem_cons_of_mem c h))
          (fun c' hc' => hrecords c' (List.mem_cons_of_mem c hc'))
          (fun c' hc' => hturns c' (List.mem_cons_of_mem c hc')) hsound,
        hpatches, List.append_assoc, List.flatMap_cons]
      simp only [patched, List.filter_append, List.map_append]

end Scan

/-! ## 3. What an undo leaves -/

/-- A restore that works, of a snapshot that is there. -/
theorem restore_paths_ok {world : World} {snapshot_id : String} {w : Worktree}
    (hw : world.snapshots.lookup snapshot_id = some w) (paths : List String) :
    world.restore_paths none snapshot_id paths
      = (.ok (), { world with worktree := world.worktree.restore w paths }) := by
  unfold World.restore_paths
  rw [hw]

/-- **What counts for a path is the last patch that is undone and names it.** -/
theorem undo_patches_files (content : TurnPatch → String → Option String) (p : String)
    (k : ℕ) (patches : List TurnPatch) (world : World)
    (hcontent : ∀ patch ∈ patches, ∃ w,
      world.snapshots.lookup patch.pre_snapshot = some w ∧ w.files = content patch) :
    (undo_patches Faults.none k patches world).2.worktree.files p
      = match patches.reverse.find? fun patch => decide (p ∈ patch.changed_paths) with
        | some patch => content patch p
        | none => world.worktree.files p := by
  induction patches generalizing k world with
  | nil => rfl
  | cons patch rest ih =>
      obtain ⟨w, hw, hfiles⟩ := hcontent patch List.mem_cons_self
      have hstep := restore_paths_ok hw patch.changed_paths
      have hrest := ih (k + 1)
        { world with worktree := world.worktree.restore w patch.changed_paths }
        fun patch' h' => hcontent patch' (List.mem_cons_of_mem patch h')
      unfold undo_patches
      simp only [Faults.none] at hrest ⊢
      simp only [hstep, hrest]
      rw [List.reverse_cons, List.find?_append]
      cases rest.reverse.find? fun patch => decide (p ∈ patch.changed_paths) with
      | some later => rfl
      | none =>
          -- no later restore touches the path: this one decides
          show (if p ∈ patch.changed_paths then w.files p else world.worktree.files p) = _
          rw [hfiles, List.find?_singleton]
          by_cases hp : p ∈ patch.changed_paths
          · simp [hp]
          · simp [hp]

theorem own_patch_of_plain {target : AgentMessage} (h : snapshot_parts [target] = []) :
    own_patch target = none := by
  unfold own_patch
  rw [List.findSome?_eq_none_iff]
  intro part hpart
  have hnot : part.is_turn_snapshot ≠ true := by
    apply List.filter_eq_nil_iff.1 h
    exact List.mem_flatMap.2 ⟨target, List.mem_singleton_self _, hpart⟩
  cases part <;> first | rfl | exact absurd rfl hnot

theorem dropWhile_target {before : List AgentMessage} {target : AgentMessage}
    {after : List AgentMessage} {message_id : String} (hid : target.id = message_id)
    (hfirst : ∀ m ∈ before, m.id ≠ message_id) :
    (before ++ target :: after).dropWhile (fun m => decide (m.id ≠ message_id))
      = target :: after := by
  induction before with
  | nil =>
      rw [List.nil_append, List.dropWhile_cons_of_neg]
      simp [hid]
  | cons m rest ih =>
      rw [List.cons_append, List.dropWhile_cons_of_pos]
      · exact ih fun m' hm' => hfirst m' (List.mem_cons_of_mem m hm')
      · exact decide_eq_true (hfirst m List.mem_cons_self)

namespace Course

variable {world : World} {session_id message_id : String}
variable (C : Course world session_id message_id)

theorem mem_recorded {t : Turn} (ht : t ∈ C.listed) :
    t ∈ C.earlier ++ C.turn :: C.later ++ C.children.flatMap C.child_turns := by
  rw [List.append_assoc]
  exact List.mem_append_right _ ht

theorem after_records : snapshot_parts C.after = (C.turn :: C.later).flatMap Turn.parts := by
  have hsplit : snapshot_parts (C.before ++ C.target :: C.after)
      = snapshot_parts C.before ++ (snapshot_parts [C.target] ++ snapshot_parts C.after) := by
    simp [snapshot_parts]
  have hrecords := C.records.parts
  rw [hsplit, C.before_records, C.target_parts, List.nil_append, List.flatMap_append] at hrecords
  exact List.append_cancel_left hrecords

/-- The patches collected are those of the listed turns. -/
theorem collect_patches_eq :
    collect_patches world.db session_id C.after = (patched C.listed).map Turn.patch := by
  have hids : ∀ t ∈ C.listed, ∀ t' ∈ C.listed, t.turn_id = t'.turn_id → t = t' :=
    fun t ht t' ht' => C.turn_ids t (C.mem_recorded ht) t' (C.mem_recorded ht')
  have hown : ∀ t ∈ C.turn :: C.later, t ∈ C.listed := fun t ht => List.mem_append_left _ ht
  obtain ⟨hsound, hpatches⟩ := scan_history_records hids ([], []) C.after_records hown
    (fun e he => (by cases he))
  have hfirst : scan_session world.db session_id C.after ([], []) session_id
      = scan_history ([], []) C.after := if_pos rfl
  have hchildren : ∀ c ∈ C.children, ∀ t ∈ C.child_turns c, t ∈ C.listed := fun c hc t ht =>
    List.mem_append_right _ (List.mem_flatMap.2 ⟨c, hc, ht⟩)
  unfold collect_patches
  rw [C.child_sessions]
  simp only [Except.toOption, Option.getD_some, List.foldl_cons, hfirst]
  rw [scan_children hids C.not_own_child C.child_records hchildren hsound, hpatches,
    List.nil_append, ← List.map_append]
  unfold patched listed
  rw [List.filter_append]

/-- Finding a path among the patches is finding it among the turns. -/
theorem find_patch (p : String) (turns : List Turn) :
    ((patched turns).map Turn.patch).find? (fun patch => decide (p ∈ patch.changed_paths))
      = (turns.find? (Turn.names p)).map Turn.patch := by
  unfold patched
  rw [List.find?_map, List.find?_filter]
  congr 2
  funext t
  by_cases hp : p ∈ t.changed_paths
  · simp [Turn.names, Turn.patch, hp, List.ne_nil_of_mem hp]
  · simp [Turn.names, Turn.patch, hp]

/-- The content of a path after the undo: that of the first listed turn that names it, or
what it was. -/
def left (p : String) : Option String :=
  match C.first_listed p with
  | some t => C.files_at t.started p
  | none => world.worktree.files p

/-- Restoring the files, once the snapshot for redo is taken. -/
theorem revert_files_ok (backend : SnapshotBackend) {tracked : World} (hkept : Kept world tracked)
    (hfiles : tracked.worktree = world.worktree) :
    ∃ files restored,
      revert_files backend Faults.none session_id C.target C.after tracked = (.ok files, restored) ∧
      restored.db = world.db ∧ ∀ p, restored.worktree.files p = C.left p := by
  have hfound := fun p => find_patch p C.listed
  have hlookup : ∀ t ∈ C.listed, ∃ w,
      tracked.snapshots.lookup t.pre_snapshot_id = some w ∧ w.files = C.files_at t.started := by
    intro t ht
    obtain ⟨w, hw, hcontent⟩ := (C.recorded t (C.mem_recorded ht)).2.2.1
    exact ⟨w, hkept.2 _ w hw, hcontent⟩
  unfold revert_files
  rw [hkept.1, C.collect_patches_eq]
  cases hpatches : (patched C.listed).map Turn.patch with
  | nil =>
      have hplain := own_patch_of_plain C.target_parts
      refine ⟨[], tracked, by simp only [fallback_restore, hplain], hkept.1, ?_⟩
      intro p
      have hnone := hfound p
      rw [hpatches, List.find?_nil] at hnone
      unfold left first_listed
      rw [Option.map_eq_none_iff.1 hnone.symm, hfiles]
  | cons patch rest =>
      have hkept' := undo_patches_kept Faults.none 0 (patch :: rest).reverse tracked
      refine ⟨_, _, rfl, hkept'.1.trans hkept.1, ?_⟩
      intro p
      -- the content that a patch restores is read from its snapshot
      let content (patch : TurnPatch) : String → Option String :=
        ((tracked.snapshots.lookup patch.pre_snapshot).map Worktree.files).getD fun _ => none
      have hcontent : ∀ patch' ∈ (patch :: rest).reverse, ∃ w,
          tracked.snapshots.lookup patch'.pre_snapshot = some w ∧ w.files = content patch' := by
        intro patch' hpatch'
        rw [List.mem_reverse, ← hpatches] at hpatch'
        obtain ⟨t, ht, rfl⟩ := List.mem_map.1 hpatch'
        obtain ⟨w, hw, -⟩ := hlookup t (List.mem_of_mem_filter ht)
        refine ⟨w, hw, ?_⟩
        show w.files = ((tracked.snapshots.lookup t.pre_snapshot_id).map Worktree.files).getD _
        rw [hw]
        rfl
      have hdecided := undo_patches_files content p 0 (patch :: rest).reverse tracked hcontent
      rw [List.reverse_reverse, ← hpatches, hfound p] at hdecided
      rw [hpatches] at hdecided
      refine hdecided.trans ?_
      unfold left first_listed
      cases hfirst : C.listed.find? (Turn.names p) with
      | none => rw [hfiles]; rfl
      | some t =>
          obtain ⟨w, hw, hw'⟩ := hlookup t (List.mem_of_find?_eq_some hfirst)
          show ((tracked.snapshots.lookup t.pre_snapshot_id).map Worktree.files).getD _ p = _
          rw [hw, Option.map_some, Option.getD_some, hw']

/-- **The undo decides each path by the first listed turn that names it.** -/
theorem undo_files (backend : SnapshotBackend) (public_id : String) :
    ∃ r after, undo_impl backend Faults.none public_id session_id message_id world
        = (.ok r, after) ∧ ∀ p, after.worktree.files p = C.left p := by
  obtain ⟨pre, tracked, htrack⟩ : ∃ pre tracked,
      world.track backend (Faults.none.track 0) = (.ok pre, tracked) := ⟨_, _, rfl⟩
  obtain ⟨hkept, hfiles, -⟩ := track_ok htrack
  obtain ⟨files, restored, hrestored, hdb, hleft⟩ := C.revert_files_ok backend hkept hfiles
  obtain ⟨db, hpush⟩ : ∃ db, restored.db.push_revert_state session_id
      ⟨public_id, message_id, pre⟩ = .ok db := by
    have hhistory := C.history
    unfold Db.get_history at hhistory
    unfold Db.push_revert_state
    rw [hdb]
    cases hsid : world.db.resolve_session_internal_id session_id with
    | error e =>
        rw [hsid] at hhistory
        cases hhistory
    | ok sid => exact ⟨_, rfl⟩
  refine ⟨⟨files, message_id⟩, { restored with db := db }, ?_, hleft⟩
  unfold undo_impl
  simp only [htrack, hkept.1, C.history, dropWhile_target C.target_id C.target_first, hrestored,
    hpush]

theorem left_eq_wanted (hfits : C.FirstListedFits) (p : String) : C.left p = C.wanted p := by
  unfold left
  cases hfirst : C.first_listed p with
  | some t => exact hfits p t hfirst
  | none =>
      have hnot : ¬ C.ChangedAfter p := by
        rintro ⟨t, ht, -, hp⟩
        have hnames := List.find?_eq_none.1 hfirst t ht
        exact hnames (decide_eq_true hp)
      unfold wanted
      rw [if_neg hnot]

theorem restored_of_fits (backend : SnapshotBackend) (public_id : String)
    (hfits : C.FirstListedFits) :
    C.Restored (undo_impl backend Faults.none public_id session_id message_id world) := by
  obtain ⟨r, after, hundo, hleft⟩ := C.undo_files backend public_id
  rw [hundo]
  exact ⟨⟨r, rfl⟩, fun p => (hleft p).trans (C.left_eq_wanted hfits p)⟩

/-- Between turns nothing touches the files. -/
def Quiet : Prop :=
  (C.turn :: C.later).IsChain fun t t' => C.files_at t.stopped = C.files_at t'.started

/-- Up to the first turn that names a path, the path keeps its content. -/
theorem files_at_first {p : String} {turns : List Turn} {t t' : Turn}
    (hchain : (t :: turns).IsChain fun t t' => C.files_at t.stopped = C.files_at t'.started)
    (hrecorded : ∀ u ∈ t :: turns,
      (p ∈ u.changed_paths ↔ C.files_at u.started p ≠ C.files_at u.stopped p))
    (hfirst : (t :: turns).find? (Turn.names p) = some t') :
    C.files_at t'.started p = C.files_at t.started p := by
  induction turns generalizing t with
  | nil =>
      have hmem := List.mem_of_find?_eq_some hfirst
      rw [List.mem_singleton.1 hmem]
  | cons next rest ih =>
      rw [List.find?_cons] at hfirst
      cases hnames : t.names p with
      | true =>
          rw [hnames] at hfirst
          cases hfirst
          rfl
      | false =>
          rw [hnames] at hfirst
          rw [List.isChain_cons_cons] at hchain
          have hsame : C.files_at t.started p = C.files_at t.stopped p := by
            by_contra hne
            have hin := (hrecorded t List.mem_cons_self).2 hne
            rw [Turn.names, decide_eq_false_iff_not] at hnames
            exact hnames hin
          calc C.files_at t'.started p = C.files_at next.started p :=
                ih hchain.2 (fun u hu => hrecorded u (List.mem_cons_of_mem t hu)) hfirst
            _ = C.files_at t.stopped p := by rw [hchain.1]
            _ = C.files_at t.started p := hsame.symm

/-- Without child sessions, and with nothing but turns touching the files, an undo restores
the files of the message. -/
theorem undo_restores_without_children (hchildren : C.children = []) (hquiet : C.Quiet)
    (backend : SnapshotBackend) (public_id : String) :
    C.Restored (undo_impl backend Faults.none public_id session_id message_id world) := by
  have hlisted : C.listed = C.turn :: C.later := by
    unfold listed
    rw [hchildren, List.flatMap_nil, List.append_nil]
  have hin_order : ∀ t ∈ C.turn :: C.later, C.turn.started ≤ t.started := by
    intro t ht
    rcases List.mem_cons.1 ht with rfl | ht
    · exact le_rfl
    · have hown := C.recorded C.turn (C.mem_recorded (hlisted ▸ List.mem_cons_self))
      have hpair := (List.pairwise_append.1 C.records.in_order).2.1
      exact hown.1.trans ((List.pairwise_cons.1 hpair).1 t ht)
  apply C.restored_of_fits
  intro p t ht
  have hfirst : (C.turn :: C.later).find? (Turn.names p) = some t := hlisted ▸ ht
  have hmem := List.mem_of_find?_eq_some hfirst
  have hnames : t.names p = true := List.find?_some hfirst
  have hchanged : C.ChangedAfter p :=
    ⟨t, hlisted ▸ hmem, hin_order t hmem, of_decide_eq_true hnames⟩
  unfold wanted
  rw [if_pos hchanged]
  refine C.files_at_first hquiet ?_ hfirst
  intro u hu
  exact (C.recorded u (C.mem_recorded (hlisted ▸ hu))).2.2.2 p

end Course

/-! A session whose first turn delegated: the child wrote "a" before the message "m2", whose
own turn wrote "b". -/

def delegated_files (time : ℕ) (p : String) : Option String :=
  if p = "a" then (if time < 2 then none else some "x")
  else if p = "b" then (if time < 5 then none else some "y")
  else none

def delegated_worktree (time : ℕ) : Worktree where
  files := delegated_files time
  paths := ["a", "b"]
  complete := by
    intro p hp
    by_cases ha : p = "a"
    · simp [ha]
    · by_cases hb : p = "b"
      · simp [hb]
      · simp [delegated_files, ha, hb] at hp

def delegated_db : Db where
  sessions := ⟨[(1, ⟨"s", none, "1"⟩), (2, ⟨"c", some 1, "2"⟩)], by decide⟩
  messages := ⟨[
    (1, message_row "m1" 1 .User 0 [.Text "write a"]),
    (2, message_row "n1" 1 .Assistant 0 [.TurnSnapshotStart "t1" "w0"]),
    (3, message_row "d1" 2 .User 1 [.Text "write a"]),
    (4, message_row "n2" 2 .Assistant 1 [.TurnSnapshotStart "tc" "w1"]),
    (5, message_row "n3" 2 .Assistant 2 [.TurnSnapshotPatch "tc" "w2" ["a"]]),
    (6, message_row "n4" 1 .Assistant 3 [.TurnSnapshotPatch "t1" "w3" ["a"]]),
    (7, message_row "m2" 1 .User 4 [.Text "write b"]),
    (8, message_row "n5" 1 .Assistant 4 [.TurnSnapshotStart "t2" "w4"]),
    (9, message_row "n6" 1 .Assistant 5 [.TurnSnapshotPatch "t2" "w5" ["b"]])], by decide⟩
  revert_states := .empty
  event_journal := []
  next_seq := 1
  session_ids := by decide
  message_ids := by decide
  message_sessions := by decide
  seq_sorted := Db.empty.seq_sorted
  seq_fresh := Db.empty.seq_fresh

def delegated : World where
  db := delegated_db
  snapshots := [("w0", delegated_worktree 0), ("w1", delegated_worktree 1),
    ("w4", delegated_worktree 4)]
  worktree := delegated_worktree 5

/-- The course of that session up to an undo of "m2". -/
def delegated_course : Course delegated "s" "m2" where
  files_at := delegated_files
  now := 5
  files_now := rfl
  before := [
    ⟨"m1", "s", .User, [.Text "write a"], 0, none, none, none⟩,
    ⟨"n1", "s", .Assistant, [.TurnSnapshotStart "t1" "w0"], 0, none, none, none⟩,
    ⟨"n4", "s", .Assistant, [.TurnSnapshotPatch "t1" "w3" ["a"]], 3, none, none, none⟩]
  target := ⟨"m2", "s", .User, [.Text "write b"], 4, none, none, none⟩
  after := [
    ⟨"n5", "s", .Assistant, [.TurnSnapshotStart "t2" "w4"], 4, none, none, none⟩,
    ⟨"n6", "s", .Assistant, [.TurnSnapshotPatch "t2" "w5" ["b"]], 5, none, none, none⟩]
  earlier := [⟨"t1", 0, 3, "w0", "w3", ["a"]⟩]
  turn := ⟨"t2", 4, 5, "w4", "w5", ["b"]⟩
  later := []
  children := ["c"]
  child_turns _ := [⟨"tc", 1, 2, "w1", "w2", ["a"]⟩]
  history := rfl
  target_id := rfl
  target_role := rfl
  target_first := by decide
  before_records := rfl
  target_parts := rfl
  records := ⟨rfl, by decide⟩
  child_sessions := rfl
  not_own_child := by decide
  child_records := by
    intro c hc
    rw [List.mem_singleton.1 hc]
    exact ⟨_, rfl, rfl, by decide⟩
  recorded := by
    intro t ht
    simp only [List.cons_append, List.nil_append, List.flatMap_cons, List.flatMap_nil,
      List.mem_cons, List.not_mem_nil, or_false] at ht
    rcases ht with rfl | rfl | rfl
    · refine ⟨by decide, by decide, ⟨delegated_worktree 0, rfl, rfl⟩, ?_⟩
      intro p
      by_cases ha : p = "a" <;> simp [delegated_files, ha]
    · refine ⟨by decide, by decide, ⟨delegated_worktree 4, rfl, rfl⟩, ?_⟩
      intro p
      by_cases hb : p = "b" <;> simp [delegated_files, hb]
    · refine ⟨by decide, by decide, ⟨delegated_worktree 1, rfl, rfl⟩, ?_⟩
      intro p
      by_cases ha : p = "a" <;> simp [delegated_files, ha]
  turn_ids := by decide

end Querymt.Session
