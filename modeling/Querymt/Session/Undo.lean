/-
`Session/Undo.lean` -- undo and redo of the files of a session.

Mirrors `undo_impl` and `redo_impl` (`agent/undo.rs`) over the store and a snapshot
backend. The backend is taken as faithful: a snapshot id stands for one state of the
worktree for good, `diff` lists the paths that differ, and a `restore_paths` that
succeeds sets exactly the given paths to the snapshot. Any of its operations may also
fail; a restore that fails leaves the worktree in some state or other.

**`redos_undo_undos`** is the law of the pair over whole runs. Undo is a careless
operation, path by path and with failures passed over; what makes redo exact is that
undo takes its snapshot before the first of them and that redo compares with the live
worktree. The stack of revert states then does the rest.
-/
import Querymt.Session.Store

set_option autoImplicit false

namespace Querymt.Session

open Querymt.Agent (ChatRole MessagePart AgentMessage)

/-! ## 1. Worktrees and snapshots -/

/-- The files of a worktree with their contents; `paths` lists them all. -/
structure Worktree where
  files : String → Option String
  paths : List String
  complete : ∀ p, files p ≠ none → p ∈ paths

namespace Worktree

/-- The paths whose content differs. -/
def diff (a b : Worktree) : List String :=
  (a.paths ++ b.paths).filter fun p => decide (a.files p ≠ b.files p)

/-- Set the given paths to the snapshot. -/
def restore (w snapshot : Worktree) (paths : List String) : Worktree where
  files p := if p ∈ paths then snapshot.files p else w.files p
  paths := w.paths ++ snapshot.paths
  complete := by
    intro p hp
    rw [List.mem_append]
    split at hp
    · exact .inr (snapshot.complete p hp)
    · exact .inl (w.complete p hp)

variable (a b w snapshot : Worktree)

theorem mem_diff (p : String) : p ∈ a.diff b ↔ a.files p ≠ b.files p := by
  unfold diff
  rw [List.mem_filter, decide_eq_true_eq, List.mem_append]
  constructor
  · exact fun h => h.2
  · intro hne
    refine ⟨?_, hne⟩
    by_cases ha : a.files p = none
    · exact .inr (b.complete p (fun hb => hne (ha.trans hb.symm)))
    · exact .inl (a.complete p ha)

/-- Restoring what differs gives the snapshot. -/
theorem restore_diff : (w.restore snapshot (w.diff snapshot)).files = snapshot.files := by
  funext p
  show (if p ∈ w.diff snapshot then snapshot.files p else w.files p) = snapshot.files p
  split
  · rfl
  · next hp =>
    rw [mem_diff, not_not] at hp
    exact hp

theorem files_eq_of_diff_nil (h : a.diff b = []) : a.files = b.files := by
  funext p
  by_contra hne
  have hp := (mem_diff a b p).2 hne
  rw [h] at hp
  cases hp

end Worktree

abbrev Snapshots := List (String × Worktree)

/-- A faithful backend: the id of a new snapshot is new, or already stands for the same
state. -/
structure SnapshotBackend where
  commit_id : Snapshots → Worktree → String
  faithful : ∀ (snapshots : Snapshots) w,
    ∀ w' ∈ snapshots.lookup (commit_id snapshots w), w' = w

/-- What goes wrong in the backend during one call of undo or redo: a `track` by its
number, the `diff`, and a `restore_paths` by its number with the worktree that it
leaves. -/
structure Faults where
  track : ℕ → Option String
  diff : Option String
  restore_paths : ℕ → Option (String × Worktree)

def Faults.none : Faults := ⟨fun _ => .none, .none, fun _ => .none⟩

/-- The store, the snapshots and the files. -/
structure World where
  db : Db
  snapshots : Snapshots
  worktree : Worktree

inductive UndoError where
  | Snapshot (message : String)
  | Store (message : String)
  | MessageNotFound (message_id : String)
  | NothingToRedo
  deriving DecidableEq

namespace World

variable (world : World)

def track (backend : SnapshotBackend) (fault : Option String) :
    Except UndoError String × World :=
  match fault with
  | some e => (.error (.Snapshot e), world)
  | none =>
      let id := backend.commit_id world.snapshots world.worktree
      (.ok id, { world with snapshots := (id, world.worktree) :: world.snapshots })

def diff (fault : Option String) (from_id to_id : String) : Except UndoError (List String) :=
  match fault, world.snapshots.lookup from_id, world.snapshots.lookup to_id with
  | some e, _, _ => .error (.Snapshot e)
  | none, some a, some b => .ok (a.diff b)
  | none, none, _ => .error (.Snapshot ("Snapshot not found: " ++ from_id))
  | none, some _, none => .error (.Snapshot ("Snapshot not found: " ++ to_id))

def restore_paths (fault : Option (String × Worktree)) (snapshot_id : String)
    (paths : List String) : Except UndoError Unit × World :=
  match fault with
  | some (e, w) => (.error (.Snapshot e), { world with worktree := w })
  | none =>
      match world.snapshots.lookup snapshot_id with
      | none => (.error (.Snapshot ("Snapshot not found: " ++ snapshot_id)), world)
      | some s => (.ok (), { world with worktree := world.worktree.restore s paths })

end World

/-! ## 2. Undo -/

/-- A patch to undo: the turn, its pre-turn snapshot and the paths it changed. -/
structure TurnPatch where
  turn_id : String
  pre_snapshot : String
  changed_paths : List String
  deriving DecidableEq

/-- The snapshots at the start of turns, the latest insertion first. -/
abbrev PreSnapshots := List (String × String)

def insert_start (pre_snapshots : PreSnapshots) : MessagePart → PreSnapshots
  | .TurnSnapshotStart turn_id snapshot_id => (turn_id, snapshot_id) :: pre_snapshots
  | _ => pre_snapshots

def patch_of (pre_snapshots : PreSnapshots) : MessagePart → Option TurnPatch
  | .TurnSnapshotPatch turn_id _ changed_paths =>
      (pre_snapshots.lookup turn_id).map fun pre => ⟨turn_id, pre, changed_paths⟩
  | _ => none

/-- The two passes over the messages of one session: the starts of its turns, then the
patches of the turns with a known start. -/
def scan_history (acc : PreSnapshots × List TurnPatch) (history : List AgentMessage) :
    PreSnapshots × List TurnPatch :=
  let parts := history.flatMap AgentMessage.parts
  let pre_snapshots := parts.foldl insert_start acc.1
  (pre_snapshots, acc.2 ++ parts.filterMap (patch_of pre_snapshots))

/-- The scan of one session: the part after the target of the session itself, all of a
child. -/
def scan_session (db : Db) (session_id : String) (after_target : List AgentMessage)
    (acc : PreSnapshots × List TurnPatch) (scan_session_id : String) :
    PreSnapshots × List TurnPatch :=
  if scan_session_id = session_id then scan_history acc after_target
  else
    match db.get_history scan_session_id with
    | .ok child_history => scan_history acc child_history
    | .error _ => acc

/-- The patches that an undo collects. -/
def collect_patches (db : Db) (session_id : String) (after_target : List AgentMessage) :
    List TurnPatch :=
  let child_sessions := (db.list_child_sessions session_id).toOption.getD []
  ((session_id :: child_sessions).foldl (scan_session db session_id after_target) ([], [])).2

/-- Undo patches, in the order given; a restore that fails is passed over. `k` numbers the
restores. -/
def undo_patches (faults : Faults) : ℕ → List TurnPatch → World → List String × World
  | _, [], world => ([], world)
  | k, patch :: rest, world =>
      match world.restore_paths (faults.restore_paths k) patch.pre_snapshot patch.changed_paths with
      | (.ok (), world) =>
          let (reverted_files, world) := undo_patches faults (k + 1) rest world
          (patch.changed_paths ++ reverted_files, world)
      | (.error _, world) => undo_patches faults (k + 1) rest world

/-- The snapshot of the first patch among the parts of a message. -/
def own_patch (m : AgentMessage) : Option String :=
  m.parts.findSome? fun
    | .TurnSnapshotPatch _ snapshot_id _ => some snapshot_id
    | _ => none

/-- The restore to the snapshot at the target message, tried when there are no patches. -/
def fallback_restore (backend : SnapshotBackend) (faults : Faults) (target : AgentMessage)
    (world : World) : Except UndoError (List String) × World :=
  match own_patch target with
  | none => (.ok [], world)
  | some snapshot_id =>
      match world.track backend (faults.track 1) with
      | (.error e, world) => (.error e, world)
      | (.ok current_snapshot, world) =>
          match world.diff faults.diff current_snapshot snapshot_id with
          | .error e => (.error e, world)
          | .ok [] => (.ok [], world)
          | .ok changed =>
              match world.restore_paths (faults.restore_paths 0) snapshot_id changed with
              | (.error e, world) => (.error e, world)
              | (.ok (), world) => (.ok changed, world)

structure UndoResult where
  reverted_files : List String
  message_id : String
  deriving DecidableEq

/-- Steps 5 and on of an undo: restore the files. -/
def revert_files (backend : SnapshotBackend) (faults : Faults) (session_id : String)
    (target : AgentMessage) (after_target : List AgentMessage) (world : World) :
    Except UndoError (List String) × World :=
  match collect_patches world.db session_id after_target with
  | [] => fallback_restore backend faults target world
  | all_patches =>
      let (reverted_files, world) := undo_patches faults 0 all_patches.reverse world
      (.ok reverted_files, world)

/-- `undo_impl`. `public_id` is the new uuid of the revert state. -/
def undo_impl (backend : SnapshotBackend) (faults : Faults) (public_id : String)
    (session_id message_id : String) (world : World) : Except UndoError UndoResult × World :=
  match world.track backend (faults.track 0) with
  | (.error e, world) => (.error e, world)
  | (.ok pre_revert_snapshot, world) =>
      match world.db.get_history session_id with
      | .error e => (.error (.Store ("Failed to get history: " ++ e.to_string)), world)
      | .ok history =>
          -- the target is the first message with the id
          match history.dropWhile fun m => decide (m.id ≠ message_id) with
          | [] => (.error (.MessageNotFound message_id), world)
          | target :: after_target =>
              match revert_files backend faults session_id target after_target world with
              | (.error e, world) => (.error e, world)
              | (.ok reverted_files, world) =>
                  match world.db.push_revert_state session_id
                      ⟨public_id, message_id, pre_revert_snapshot⟩ with
                  | .error e =>
                      (.error (.Store ("Failed to store revert state: " ++ e.to_string)), world)
                  | .ok db => (.ok ⟨reverted_files, message_id⟩, { world with db := db })

/-! ## 3. Redo -/

/-- `redo_impl`. The result says only that it was restored. -/
def redo_impl (backend : SnapshotBackend) (faults : Faults) (session_id : String)
    (world : World) : Except UndoError Unit × World :=
  match world.db.peek_revert_state session_id with
  | .error e => (.error (.Store ("Failed to get revert state: " ++ e.to_string)), world)
  | .ok none => (.error .NothingToRedo, world)
  | .ok (some revert_state) =>
      match world.track backend (faults.track 0) with
      | (.error e, world) => (.error e, world)
      | (.ok current_snapshot, world) =>
          match world.diff faults.diff current_snapshot revert_state.snapshot_id with
          | .error e => (.error e, world)
          | .ok changed =>
              let restored : Except UndoError Unit × World :=
                if changed.isEmpty then (.ok (), world)
                else world.restore_paths (faults.restore_paths 0) revert_state.snapshot_id changed
              match restored with
              | (.error e, world) => (.error e, world)
              | (.ok (), world) =>
                  match world.db.pop_revert_state session_id with
                  | .error e =>
                      (.error (.Store ("Failed to update revert state: " ++ e.to_string)), world)
                  | .ok db => (.ok (), { world with db := db })

/-! ## 4. What one call does -/

/-- The store is the same and every snapshot is still there. -/
def Kept (a b : World) : Prop :=
  b.db = a.db ∧ ∀ id, ∀ w ∈ a.snapshots.lookup id, w ∈ b.snapshots.lookup id

variable {backend : SnapshotBackend} {session_id : String} {a b c : World}

theorem Kept.refl (a : World) : Kept a a := ⟨rfl, fun _ _ h => h⟩

theorem Kept.trans (hab : Kept a b) (hbc : Kept b c) : Kept a c :=
  ⟨hbc.1.trans hab.1, fun id w hw => hbc.2 id w (hab.2 id w hw)⟩

/-- A snapshot that was taken is there, and no other is lost. -/
theorem track_ok {fault : Option String} {id : String}
    (h : a.track backend fault = (.ok id, b)) :
    Kept a b ∧ b.worktree = a.worktree ∧ b.snapshots.lookup id = some a.worktree := by
  unfold World.track at h
  cases fault with
  | some e => cases h
  | none =>
      simp only [Prod.mk.injEq, Except.ok.injEq] at h
      obtain ⟨rfl, rfl⟩ := h
      refine ⟨⟨rfl, ?_⟩, rfl, List.lookup_cons_self⟩
      intro id' w hw
      show w ∈ List.lookup id' (_ :: a.snapshots)
      rw [List.lookup_cons]
      by_cases hid : id' = backend.commit_id a.snapshots a.worktree
      · -- an id that is used again stands for the same state
        rw [hid] at hw
        have hsame := backend.faithful a.snapshots a.worktree w hw
        rw [hid, beq_self_eq_true, hsame]
        rfl
      · rw [beq_false_of_ne hid]
        exact hw

theorem restore_paths_kept (fault : Option (String × Worktree)) (snapshot_id : String)
    (paths : List String) : Kept a (a.restore_paths fault snapshot_id paths).2 := by
  unfold World.restore_paths
  split
  · exact Kept.refl _
  · split <;> exact Kept.refl _

theorem undo_patches_kept (faults : Faults) (k : ℕ) (patches : List TurnPatch) (a : World) :
    Kept a (undo_patches faults k patches a).2 := by
  induction patches generalizing k a with
  | nil => exact Kept.refl a
  | cons patch rest ih =>
      unfold undo_patches
      have hkept := restore_paths_kept (a := a) (faults.restore_paths k) patch.pre_snapshot
        patch.changed_paths
      rcases hstep : a.restore_paths (faults.restore_paths k) patch.pre_snapshot
        patch.changed_paths with ⟨_ | _, b⟩
      all_goals
        rw [hstep] at hkept
        exact hkept.trans (ih (k + 1) b)

theorem fallback_restore_kept {faults : Faults} {target : AgentMessage} {files : List String}
    (h : fallback_restore backend faults target a = (.ok files, b)) : Kept a b := by
  unfold fallback_restore at h
  split at h
  · cases h
    exact Kept.refl a
  · next id _ =>
    split at h
    · cases h
    · next current c htrack =>
      have hkept := (track_ok htrack).1
      split at h
      · cases h
      · cases h
        exact hkept
      · next changed _ _ =>
        have hrestored := restore_paths_kept (a := c) (faults.restore_paths 0) id changed
        split at h
        · cases h
        · next d hrestore =>
          cases h
          rw [hrestore] at hrestored
          exact hkept.trans hrestored

theorem revert_files_kept {faults : Faults} {target : AgentMessage}
    {after_target : List AgentMessage} {files : List String}
    (h : revert_files backend faults session_id target after_target a = (.ok files, b)) :
    Kept a b := by
  unfold revert_files at h
  split at h
  · exact fallback_restore_kept h
  · cases h
    exact undo_patches_kept faults 0 _ a

/-- A revert state on top of the stack of a session. -/
def Db.pushed (db : Db) (session_internal_id : ℕ) (state : RevertState) : Db :=
  { db with revert_states := db.revert_states.insert ⟨session_internal_id, state⟩ }

/-- An undo that succeeds pushes one revert state, for the files before it. -/
theorem undo_ok {faults : Faults} {public_id message_id : String} {r : UndoResult}
    (h : undo_impl backend faults public_id session_id message_id a = (.ok r, b)) :
    ∃ session_internal_id state,
      a.db.resolve_session_internal_id session_id = .ok session_internal_id ∧
      b.db = a.db.pushed session_internal_id state ∧
      b.snapshots.lookup state.snapshot_id = some a.worktree ∧
      ∀ id, ∀ w ∈ a.snapshots.lookup id, w ∈ b.snapshots.lookup id := by
  unfold undo_impl at h
  split at h
  · cases h
  · next pre c htrack =>
    obtain ⟨hkept, hfiles, hpre⟩ := track_ok htrack
    split at h
    · cases h
    · split at h
      · cases h
      · split at h
        · cases h
        · next d hrevert =>
          have hkept' := hkept.trans (revert_files_kept hrevert)
          split at h
          · cases h
          · next db hpush =>
            cases h
            unfold Db.push_revert_state at hpush
            rw [hkept'.1] at hpush
            split at hpush
            · cases hpush
            · next sid hsid =>
              cases hpush
              exact ⟨sid, ⟨public_id, message_id, pre⟩, hsid, rfl,
                (revert_files_kept hrevert).2 pre _ hpre, hkept'.2⟩

theorem peek_pushed {db : Db} {session_internal_id : ℕ} {state : RevertState}
    (hsid : db.resolve_session_internal_id session_id = .ok session_internal_id) :
    (db.pushed session_internal_id state).peek_revert_state session_id = .ok (some state) := by
  have hsid' : (db.pushed session_internal_id state).resolve_session_internal_id session_id
      = .ok session_internal_id := hsid
  unfold Db.peek_revert_state Db.revert_stack
  rw [hsid']
  simp [Db.pushed]

/-- Popping takes back what was pushed last. -/
theorem pop_pushed {db : Db} {session_internal_id : ℕ} {state : RevertState}
    (hsid : db.resolve_session_internal_id session_id = .ok session_internal_id) :
    (db.pushed session_internal_id state).pop_revert_state session_id = .ok db := by
  have hsid' : (db.pushed session_internal_id state).resolve_session_internal_id session_id
      = .ok session_internal_id := hsid
  have hnewest : (db.pushed session_internal_id state).newest_revert session_internal_id
      = some db.revert_states.next_key := by
    simp [Db.newest_revert, Db.pushed]
  unfold Db.pop_revert_state
  simp only [hsid', hnewest]
  simp only [Db.pushed, Tables.Table.filter_insert]

/-- A redo with a working backend gives the files of the newest revert state and takes it
from the stack. -/
theorem redo_ok (backend : SnapshotBackend) {db : Db} {session_internal_id : ℕ}
    {state : RevertState} {w : Worktree}
    (hsid : db.resolve_session_internal_id session_id = .ok session_internal_id)
    (hdb : a.db = db.pushed session_internal_id state)
    (hw : a.snapshots.lookup state.snapshot_id = some w) :
    ∃ b, redo_impl backend Faults.none session_id a = (.ok (), b) ∧
      b.worktree.files = w.files ∧ b.db = db ∧
      ∀ id, ∀ w ∈ a.snapshots.lookup id, w ∈ b.snapshots.lookup id := by
  obtain ⟨id, c, htrack⟩ : ∃ id c, a.track backend none = (.ok id, c) := ⟨_, _, rfl⟩
  obtain ⟨hkept, hfiles, hid⟩ := track_ok htrack
  have hw' : c.snapshots.lookup state.snapshot_id = some w := hkept.2 _ w hw
  have hdiff : c.diff none id state.snapshot_id = .ok (a.worktree.diff w) := by
    unfold World.diff
    rw [hid, hw']
  have hpop : c.db.pop_revert_state session_id = .ok db := by
    rw [hkept.1, hdb]
    exact pop_pushed hsid
  unfold redo_impl
  rw [hdb, peek_pushed hsid]
  simp only [Faults.none, htrack, hdiff]
  by_cases hempty : (a.worktree.diff w).isEmpty
  · rw [if_pos hempty]
    simp only [hpop]
    refine ⟨_, rfl, ?_, rfl, hkept.2⟩
    show c.worktree.files = w.files
    rw [hfiles]
    exact Worktree.files_eq_of_diff_nil _ _ (List.isEmpty_iff.1 hempty)
  · rw [if_neg hempty]
    have hrestore : c.restore_paths none state.snapshot_id (a.worktree.diff w)
        = (.ok (), { c with worktree := c.worktree.restore w (a.worktree.diff w) }) := by
      unfold World.restore_paths
      rw [hw']
    simp only [hrestore, hpop]
    refine ⟨_, rfl, ?_, rfl, hkept.2⟩
    show (c.worktree.restore w (a.worktree.diff w)).files = w.files
    rw [hfiles]
    exact Worktree.restore_diff a.worktree w

/-! ## 5. Runs of undos and redos -/

/-- One undo that a user asks for, and what goes wrong in it. -/
structure UndoCall where
  message_id : String
  public_id : String
  faults : Faults

/-- Undos of a session that succeed, one after another: the worlds before each of them,
newest first, and the world after the last. -/
inductive Undone (backend : SnapshotBackend) (session_id : String) (start : World) :
    List World → World → Prop
  | start : Undone backend session_id start [] start
  | undo {befores : List World} {before after : World} (call : UndoCall) (r : UndoResult) :
      Undone backend session_id start befores before →
      undo_impl backend call.faults call.public_id session_id call.message_id before
        = (.ok r, after) →
      Undone backend session_id start (before :: befores) after

/-- `n` redos in a row, with the world after each. -/
def redo_trail (backend : SnapshotBackend) (session_id : String) :
    ℕ → World → List (Except UndoError Unit × World)
  | 0, _ => []
  | n + 1, world =>
      let after := redo_impl backend Faults.none session_id world
      after :: redo_trail backend session_id n after.2

/-- The stack holds one revert state for each world, and its snapshot is that world's
worktree. -/
def Stacked (session_id : String) (snapshots : Snapshots) : Db → List World → Prop
  | _, [] => True
  | db, before :: befores =>
      (∃ session_internal_id state,
        before.db.resolve_session_internal_id session_id = .ok session_internal_id ∧
        db = before.db.pushed session_internal_id state ∧
        snapshots.lookup state.snapshot_id = some before.worktree) ∧
      Stacked session_id snapshots before.db befores

theorem Stacked.mono {snapshots snapshots' : Snapshots} {db : Db} {befores : List World}
    (hmore : ∀ id, ∀ w ∈ snapshots.lookup id, w ∈ snapshots'.lookup id)
    (h : Stacked session_id snapshots db befores) :
    Stacked session_id snapshots' db befores := by
  induction befores generalizing db with
  | nil => trivial
  | cons before befores ih =>
      obtain ⟨⟨sid, state, hsid, hdb, hlookup⟩, hrest⟩ := h
      exact ⟨⟨sid, state, hsid, hdb, hmore _ _ hlookup⟩, ih hrest⟩

theorem Undone.stacked {start world : World} {befores : List World}
    (h : Undone backend session_id start befores world) :
    Stacked session_id world.snapshots world.db befores := by
  induction h with
  | start => trivial
  | undo call r _ hundo ih =>
      obtain ⟨sid, state, hsid, hdb, hlookup, hmore⟩ := undo_ok hundo
      exact ⟨⟨sid, state, hsid, hdb, hlookup⟩, ih.mono hmore⟩

theorem Undone.getLast {start world : World} {befores : List World}
    (h : Undone backend session_id start befores world) :
    befores.getLast?.getD world = start := by
  induction h with
  | start => rfl
  | undo call r hbefore _ ih =>
      rw [List.getLast?_cons, Option.getD_some]
      exact ih

/-- What a redo is to bring back. -/
def BroughtBack (before : World) (after : Except UndoError Unit × World) : Prop :=
  after.1 = .ok () ∧ after.2.worktree.files = before.worktree.files ∧ after.2.db = before.db

theorem redo_trail_brings_back (backend : SnapshotBackend) {world : World} {befores : List World}
    (h : Stacked session_id world.snapshots world.db befores) :
    List.Forall₂ BroughtBack befores (redo_trail backend session_id befores.length world) := by
  induction befores generalizing world with
  | nil => exact List.Forall₂.nil
  | cons before befores ih =>
      obtain ⟨⟨sid, state, hsid, hdb, hlookup⟩, hrest⟩ := h
      obtain ⟨after, hredo, hfiles, hafter, hmore⟩ :=
        redo_ok backend hsid hdb hlookup
      rw [List.length_cons, redo_trail]
      simp only [hredo]
      refine List.Forall₂.cons ⟨rfl, hfiles, hafter⟩ (ih ?_)
      rw [hafter]
      exact hrest.mono hmore

theorem forall₂_getLast {α β : Type} {R : α → β → Prop} {xs : List α} {ys : List β}
    (h : List.Forall₂ R xs ys) {x : α} {y : β} (hxy : R x y) :
    R (xs.getLast?.getD x) (ys.getLast?.getD y) := by
  induction h generalizing x y with
  | nil => exact hxy
  | cons hhead _ ih =>
      rw [List.getLast?_cons, List.getLast?_cons, Option.getD_some, Option.getD_some]
      exact ih hhead

/-- **Redo undoes undo.** After any undos that succeeded, as many redos succeed; each
brings back the files and the store before its undo, the last undo first, and the last
redo leaves the stack as the first undo found it. -/
theorem redos_undo_undos (backend : SnapshotBackend) (session_id : String)
    (start world : World) (befores : List World)
    (h : Undone backend session_id start befores world) :
    List.Forall₂ BroughtBack befores (redo_trail backend session_id befores.length world) ∧
    ∀ last ∈ (redo_trail backend session_id befores.length world).getLast?,
      last.2.worktree.files = start.worktree.files ∧
      last.2.db.revert_states = start.db.revert_states := by
  have hall := redo_trail_brings_back backend h.stacked
  refine ⟨hall, ?_⟩
  intro last hlast
  cases hall with
  | nil => cases hlast
  | cons hfirst hrest =>
      have hback := forall₂_getLast hrest hfirst
      have hstart := h.getLast
      rw [List.length_cons, redo_trail, List.getLast?_cons, Option.mem_some_iff] at hlast
      rw [List.getLast?_cons, Option.getD_some] at hstart
      rw [hlast, hstart] at hback
      exact ⟨hback.2.1, by rw [hback.2.2]⟩

/-! A concrete session: two turns, the second with a patch, undone one inside the other. -/

/-- A backend that numbers its snapshots, by the length of the id. -/
def numbering_backend : SnapshotBackend where
  commit_id snapshots _ :=
    String.ofList (List.replicate ((snapshots.map fun s : String × Worktree => s.1.length).sum + 1) 'a')
  faithful := by
    intro snapshots w w' hw'
    have hlookup := List.lookup_eq_some_iff.1 hw'
    obtain ⟨before, after, hsplit, -⟩ := hlookup
    have hlen := congrArg (fun s : Snapshots => (s.map fun s => s.1.length).sum) hsplit
    simp only [List.map_append, List.map_cons, List.sum_append, List.sum_cons,
      String.length_ofList, List.length_replicate] at hlen
    omega

def one_file (path content : String) : Worktree where
  files p := if p = path then some content else none
  paths := [path]
  complete := by
    intro p hp
    split at hp
    · next heq => rw [heq]; exact List.mem_singleton_self _
    · exact absurd rfl hp

def message_row (id : String) (session_id : ℕ) (role : ChatRole) (created_at : ℤ)
    (parts : List MessagePart) : MessageRow where
  public_id := id
  session_id := session_id
  role := role
  parts := parts
  created_at := created_at
  parent_message_id := none
  source_provider := none
  source_model := none

def two_turns_db : Db where
  sessions := ⟨[(1, ⟨"s", none, ""⟩)], by decide⟩
  messages := ⟨[(1, message_row "m1" 1 .User 0 []), (2, message_row "m2" 1 .User 1 []),
    (3, message_row "n1" 1 .Assistant 1 [.TurnSnapshotStart "t2" "before"]),
    (4, message_row "n2" 1 .Assistant 2 [.TurnSnapshotPatch "t2" "after" ["f"]])], by decide⟩
  revert_states := .empty
  event_journal := []
  next_seq := 1
  session_ids := by decide
  message_ids := by decide
  message_sessions := by decide
  seq_sorted := Db.empty.seq_sorted
  seq_fresh := Db.empty.seq_fresh

def two_turns : World where
  db := two_turns_db
  snapshots := [("before", one_file "f" "old"), ("after", one_file "f" "new")]
  worktree := one_file "f" "new"

/-- Every restore fails and leaves a file half written. -/
def disk_full : Faults :=
  { Faults.none with restore_paths := fun _ => some ("disk full", one_file "f" "half") }

def after_undo (faults : Faults) (public_id message_id : String) (world : World) : World :=
  (undo_impl numbering_backend faults public_id "s" message_id world).2

theorem two_turns_undone : Undone numbering_backend "s" two_turns
    [after_undo disk_full "u1" "m2" two_turns, two_turns]
    (after_undo Faults.none "u2" "m1" (after_undo disk_full "u1" "m2" two_turns)) := by
  refine .undo ⟨"m1", "u2", Faults.none⟩ ⟨["f"], "m1"⟩
    (.undo ⟨"m2", "u1", disk_full⟩ ⟨[], "m2"⟩ .start ?_) ?_
  · exact Prod.ext rfl rfl
  · exact Prod.ext rfl rfl

/-- The first undo fails halfway and leaves the file half written; the second redo still
finds the file as it was. -/
theorem two_redos_bring_back :
    (after_undo disk_full "u1" "m2" two_turns).worktree.files "f" = some "half" ∧
    ∀ last ∈ (redo_trail numbering_backend "s" 2
        (after_undo Faults.none "u2" "m1" (after_undo disk_full "u1" "m2" two_turns))).getLast?,
      last.2.worktree.files = two_turns.worktree.files ∧
      last.2.db.revert_states = two_turns.db.revert_states :=
  ⟨rfl, (redos_undo_undos numbering_backend "s" two_turns _ _ two_turns_undone).2⟩

end Querymt.Session
