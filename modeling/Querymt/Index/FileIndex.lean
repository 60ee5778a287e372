/-
`Index/FileIndex.lean` -- the files of a workspace, kept up to date from watcher events.

Mirrors `build_file_index`, `process_events`, `build_gitignore`, `is_ignored` and
`apply_changes_to_index` (`index/file_index.rs`). Operations change a file system and report
events; a batch of the reported events is processed at any time later, against the file system
as it then is, with the `.gitignore` loaded anew when the batch names one. The rebuild that the
loop makes after such a batch is not part of this.

# Which event counts

Of the events that a batch has for a path, the first that makes a change is the only one. A
file that was created and deleted within one batch stays in the index (`created_and_deleted`).

# Renames

The source of a rename is kept in one variable until the next `To`, and until the end of the
batch. With `Both` the source counts as modified, which leaves it in the index.

# What an operation changes elsewhere

An event for a directory says nothing of what is in it, and neither do the changes that are
made of it. The walker has limits that the events are not tested against, and reads ignore files
at each build: an edit of one of them changes what it sees at paths without an event.

When the first event of each path says what the walker sees, renames find their source, and an
operation changes what the walker sees only where an event is to come, the index is that of a
new build whenever all events are processed (`index_rebuilt`). The walker and the patterns are
arbitrary.
-/
import Querymt.Library.HashMaps
import Querymt.Library.Runs
import Querymt.Library.Strings

set_option autoImplicit false

open Strings HashMaps Runs

namespace Querymt.FileIndexing

/-! ## 1. Paths and file systems -/

/-- A name in a directory. -/
abbrev FileName := { name : Str // name ≠ [] ∧ '/' ∉ name }

/-- A path by its names; the paths of events are absolute. -/
abbrev PathBuf := List FileName

def strip_prefix (root path : PathBuf) : Option PathBuf :=
  if root.isPrefixOf path then some (path.drop root.length) else none

def to_string_lossy (path : PathBuf) : Str := ['/'].intercalate (path.map Subtype.val)

inductive Node where
  | Dir
  | File (content : Str)
  deriving DecidableEq

def Node.is_dir : Node → Bool
  | Dir => true
  | File _ => false

/-- What is at each path. -/
abbrev Tree := HashMap PathBuf Node

namespace Tree

variable (tree : Tree)

def is_dir (path : PathBuf) : Bool := (tree.lookup path).any Node.is_dir

def is_there (path : PathBuf) : Bool := (tree.lookup path).isSome

/-- A new content for a file that exists. -/
def write (path : PathBuf) (content : Str) : Tree :=
  match tree.lookup path with
  | some (.File _) => tree.insert path (.File content)
  | _ => tree

/-- What is not at the path or below. -/
def without (path : PathBuf) : Tree where
  entries := tree.entries.filter fun e => !path.isPrefixOf e.1
  nodupKeys := tree.nodupKeys.sublist List.filter_sublist

/-- What is at a path and below comes to another one, in the place of what was there. -/
def moved (source target : PathBuf) : Tree where
  entries :=
    ((tree.without source).without target).entries ++
      (tree.entries.filter fun e => source.isPrefixOf e.1).map fun e =>
        ⟨target ++ e.1.drop source.length, e.2⟩
  nodupKeys := by
    have hsource : ((tree.entries.filter fun e => source.isPrefixOf e.1).map Sigma.fst).Nodup :=
      tree.nodupKeys.sublist List.filter_sublist
    unfold List.NodupKeys
    rw [List.keys, List.map_append, List.map_map]
    apply List.nodup_append'.2
    refine ⟨((tree.without source).without target).nodupKeys, ?_, ?_⟩
    · -- two paths below the source differ in what is behind it
      apply List.Nodup.map_on _ hsource.of_map
      intro e he e' he' heq
      obtain ⟨rest, hrest⟩ := List.isPrefixOf_iff_prefix.1 (List.mem_filter.1 he).2
      obtain ⟨rest', hrest'⟩ := List.isPrefixOf_iff_prefix.1 (List.mem_filter.1 he').2
      have hdrop : e.1.drop source.length = e'.1.drop source.length :=
        List.append_cancel_left heq
      apply List.inj_on_of_nodup_map hsource he he'
      rw [← hrest, ← hrest', List.drop_left, List.drop_left] at hdrop
      rw [← hrest, ← hrest', hdrop]
    · rw [List.disjoint_left]
      intro path hkept hmoved
      obtain ⟨e, he, rfl⟩ := List.mem_map.1 hkept
      obtain ⟨e', -, heq⟩ := List.mem_map.1 hmoved
      have hpre : target.isPrefixOf e.1 = true := List.isPrefixOf_iff_prefix.2 ⟨_, heq⟩
      have hnot := (List.mem_filter.1 he).2
      rw [hpre] at hnot
      exact absurd hnot (by decide)

end Tree

inductive Operation where
  | Create (path : PathBuf) (node : Node)
  | Modify (path : PathBuf) (content : Str)
  | Delete (path : PathBuf)
  | Rename (source target : PathBuf)

def Operation.perform (tree : Tree) : Operation → Tree
  | Create path node => tree.insert path node
  | Modify path content => tree.write path content
  | Delete path => tree.without path
  | Rename source target => tree.moved source target

/-! ## 2. Events -/

inductive CreateKind where
  | Any
  | File
  | Folder
  | Other

inductive RemoveKind where
  | Any
  | File
  | Folder
  | Other

inductive RenameMode where
  | Any
  | To
  | From
  | Both
  | Other

inductive ModifyKind where
  | Any
  | Data
  | Metadata
  | Name (mode : RenameMode)
  | Other

inductive EventKind where
  | Any
  | Access
  | Create (kind : CreateKind)
  | Modify (kind : ModifyKind)
  | Remove (kind : RemoveKind)
  | Other

structure Event where
  kind : EventKind
  paths : List PathBuf

/-- How a platform may report an operation. -/
inductive Reported : Operation → List Event → Prop where
  | create_file (path : PathBuf) (content : Str) (kind : CreateKind) (h : kind ≠ .Folder) :
      Reported (.Create path (.File content)) [⟨.Create kind, [path]⟩]
  | create_folder (path : PathBuf) (kind : CreateKind) (h : kind ≠ .File) :
      Reported (.Create path .Dir) [⟨.Create kind, [path]⟩]
  | modify_data (path : PathBuf) (content : Str) :
      Reported (.Modify path content) [⟨.Modify .Data, [path]⟩]
  | modify_any (path : PathBuf) (content : Str) :
      Reported (.Modify path content) [⟨.Modify .Any, [path]⟩]
  | delete (path : PathBuf) (kind : RemoveKind) :
      Reported (.Delete path) [⟨.Remove kind, [path]⟩]
  | rename_pair (source target : PathBuf) : Reported (.Rename source target)
      [⟨.Modify (.Name .From), [source]⟩, ⟨.Modify (.Name .To), [target]⟩]
  | rename_both (source target : PathBuf) : Reported (.Rename source target)
      [⟨.Modify (.Name .Both), [source, target]⟩]
  | rename_any (source target : PathBuf) : Reported (.Rename source target)
      [⟨.Modify (.Name .Any), [source]⟩, ⟨.Modify (.Name .Any), [target]⟩]

/-! ## 3. The index -/

structure FileIndexEntry where
  path : Str
  is_dir : Bool
  deriving DecidableEq

structure FileIndex where
  files : List FileIndexEntry

inductive FileChangeKind where
  | Created
  | Modified
  | Removed
  | Renamed (source : PathBuf)

structure FileChange where
  path : PathBuf
  kind : FileChangeKind
  is_dir : Bool

/-- `max_files` is the part of the configuration that the index reads itself. -/
structure FileIndexConfig where
  max_files : ℕ

inductive Match where
  | None
  | Ignore
  | Whitelist
  deriving DecidableEq

/-- What a set of patterns says of a path below the root; for the `.gitignore` this is
`matched_path_or_any_parents`. -/
abbrev Matcher := PathBuf → Bool → Match

def Matcher.empty : Matcher := fun _ _ => .None

/-- The paths that a `WalkBuilder` yields, the root among them, none twice. It has the
configuration and the overrides, and reads the rest from the tree. -/
structure Walker where
  walk : Tree → List PathBuf
  nodup : ∀ tree, (walk tree).Nodup

/-- `overrides` is from the configured patterns, `parse_gitignore` is the `GitignoreBuilder`, and
`order` is that of the map. -/
structure FileIndexWatcher where
  root : PathBuf
  config : FileIndexConfig
  overrides : Matcher
  parse_gitignore : Str → Option Matcher
  walker : Walker
  order : DrainOrder Str FileIndexEntry

/-- Directories first, then by their paths. -/
def FileIndexEntry.le (a b : FileIndexEntry) : Prop :=
  if a.is_dir = b.is_dir then a.path ≤ b.path else a.is_dir = true

instance : DecidableRel FileIndexEntry.le := fun a b =>
  inferInstanceAs (Decidable (if a.is_dir = b.is_dir then a.path ≤ b.path else a.is_dir = true))

def sort_files (files : List FileIndexEntry) : List FileIndexEntry :=
  files.insertionSort FileIndexEntry.le

namespace FileIndexWatcher

variable (w : FileIndexWatcher)

/-! ### The walk -/

/-- What the loop of the build makes of a path. -/
def entry_of (tree : Tree) (path : PathBuf) : Option (PathBuf × Bool) :=
  if path = w.root then none
  else
    match strip_prefix w.root path with
    | none => none
    | some relative => if relative = [] then none else some (relative, tree.is_dir path)

def walk (tree : Tree) : List (PathBuf × Bool) := (w.walker.walk tree).filterMap (w.entry_of tree)

def build_file_index (tree : Tree) : FileIndex where
  files := sort_files (((w.walk tree).take w.config.max_files).map fun e =>
    ⟨to_string_lossy e.1, e.2⟩)

/-! ### Events to changes -/

def gitignore_name : FileName := ⟨".gitignore".toList, by decide +kernel⟩

/-- A file that is not there or not parsed has no patterns. -/
def build_gitignore (tree : Tree) : Matcher :=
  match tree.lookup (w.root ++ [gitignore_name]) with
  | some (.File content) => (w.parse_gitignore content).getD .empty
  | _ => .empty

def changes_content : EventKind → Bool
  | .Create _ | .Modify .Data | .Modify .Any | .Modify (.Name _) | .Remove _ => true
  | _ => false

def gitignore_changed (events : List Event) : Bool :=
  events.any fun e =>
    changes_content e.kind && e.paths.any fun p => p.getLast? = some gitignore_name

def is_ignored (gitignore : Matcher) (relative : PathBuf) (is_dir : Bool) : Bool :=
  w.overrides relative is_dir = .Ignore || gitignore relative is_dir = .Ignore

def event_is_dir (tree : Tree) (kind : EventKind) (path : PathBuf) : Bool :=
  match kind with
  | .Create .Folder => true
  | .Create .File => false
  | .Remove .Folder => true
  | .Remove .File => false
  | _ => tree.is_dir path

/-- The change that an event makes of a path, and the source of a rename that is kept. -/
def change_kind (tree : Tree) (kind : EventKind) (path : PathBuf) (rename_from : Option PathBuf) :
    Option FileChangeKind × Option PathBuf :=
  match kind with
  | .Create _ => (some .Created, rename_from)
  | .Modify .Data | .Modify .Any => (some .Modified, rename_from)
  | .Remove _ => (some .Removed, rename_from)
  | .Modify (.Name .From) => (none, some path)
  | .Modify (.Name .To) => (some (.Renamed (rename_from.getD [])), none)
  | .Modify (.Name .Both) => (some .Modified, rename_from)
  | .Modify (.Name .Any) | .Modify (.Name .Other) =>
      (if tree.is_there path then some .Created else some .Removed, rename_from)
  | _ => (none, rename_from)

/-- The variables of the loop. -/
structure Scan where
  changes : List FileChange
  seen_paths : List PathBuf
  rename_from : Option PathBuf

def take_path (gitignore : Matcher) (tree : Tree) (kind : EventKind) (s : Scan) (path : PathBuf) :
    Scan :=
  if s.seen_paths.contains path then s
  else
    let is_dir := event_is_dir tree kind path
    match strip_prefix w.root path with
    | none => s
    | some relative =>
        if w.is_ignored gitignore relative is_dir then s
        else
          match change_kind tree kind path s.rename_from with
          | (some change, rename_from) =>
              ⟨s.changes ++ [⟨path, change, is_dir⟩], path :: s.seen_paths, rename_from⟩
          | (none, rename_from) => { s with rename_from := rename_from }

def take_event (gitignore : Matcher) (tree : Tree) (s : Scan) (event : Event) : Scan :=
  event.paths.foldl (w.take_path gitignore tree event.kind) s

def process_events (gitignore : Matcher) (tree : Tree) (events : List Event) : List FileChange :=
  (events.foldl (w.take_event gitignore tree) ⟨[], [], none⟩).changes

/-! ### Changes to entries -/

def apply_change (gitignore : Matcher) (entries : HashMap Str FileIndexEntry)
    (change : FileChange) : HashMap Str FileIndexEntry :=
  match strip_prefix w.root change.path with
  | none => entries
  | some relative =>
      if relative = [] ∨ w.is_ignored gitignore relative change.is_dir then entries
      else
        let key := to_string_lossy relative
        let entry : FileIndexEntry := ⟨key, change.is_dir⟩
        match change.kind with
        | .Created => entries.insert key entry
        | .Removed => entries.erase key
        | .Renamed source =>
            match strip_prefix w.root source with
            | some from_rel => (entries.erase (to_string_lossy from_rel)).insert key entry
            | none => entries.insert key entry
        | .Modified => if (entries.lookup key).isSome then entries else entries.insert key entry

end FileIndexWatcher

/-- The entries by their paths. -/
def FileIndex.entries (index : FileIndex) : HashMap Str FileIndexEntry :=
  index.files.foldl (fun m e => m.insert e.path e) ∅

namespace FileIndexWatcher

variable (w : FileIndexWatcher)

/-- The entries after the changes, sorted, before the limit. -/
def changed_files (gitignore : Matcher) (current : FileIndex) (changes : List FileChange) :
    List FileIndexEntry :=
  sort_files
    ((w.order.drain (changes.foldl (w.apply_change gitignore) current.entries)).map Sigma.snd)

def apply_changes_to_index (gitignore : Matcher) (current : FileIndex)
    (changes : List FileChange) : FileIndex where
  files := (w.changed_files gitignore current changes).take w.config.max_files

end FileIndexWatcher

/-! ## 4. Runs -/

structure World where
  tree : Tree
  index : FileIndex
  gitignore : Matcher
  queue : List Event

/-- An operation of any program, with the events that report it; or a batch, which takes the
next `n` events off the queue. -/
inductive Step where
  | Operate (operation : Operation) (events : List Event)
  | Process (n : ℕ)

namespace FileIndexWatcher

variable (w : FileIndexWatcher)

/-- The `.gitignore` is loaded anew when the batch has an event that may have changed one. -/
def reload (world : World) (batch : List Event) : World where
  tree := world.tree
  index := world.index
  gitignore := if gitignore_changed batch then w.build_gitignore world.tree else world.gitignore
  queue := world.queue

def process (world : World) (batch : List Event) : FileIndex :=
  w.apply_changes_to_index world.gitignore world.index
    (w.process_events world.gitignore world.tree batch)

def step (world : World) : Step → World
  | .Operate operation events =>
      { world with tree := operation.perform world.tree, queue := world.queue ++ events }
  | .Process n =>
      let batch := world.queue.take n
      let world := w.reload world batch
      { world with index := w.process world batch, queue := world.queue.drop n }

def start (tree : Tree) : World := ⟨tree, w.build_file_index tree, w.build_gitignore tree, []⟩

/-- The index has the entries of a new build, in the same order, and no path twice. -/
structure Agrees (world : World) : Prop where
  rebuilt : world.index.files = (w.build_file_index world.tree).files
  once : (world.index.files.map FileIndexEntry.path).Nodup

/-- Operations are reported as the platform does, and `max_files` is not reached. -/
def Allowed (world : World) : Step → Prop
  | .Operate operation events => Reported operation events ∧
      (w.walk (operation.perform world.tree)).length ≤ w.config.max_files
  | .Process n =>
      let batch := world.queue.take n
      let world := w.reload world batch
      (w.changed_files world.gitignore world.index
        (w.process_events world.gitignore world.tree batch)).length ≤ w.config.max_files

/-! ### What goes right -/

/-- What the walker sees at a path below the root. -/
def sees (tree : Tree) (path : PathBuf) : Option Bool :=
  if path ≠ [] ∧ w.root ++ path ∈ w.walker.walk tree then some (tree.is_dir (w.root ++ path))
  else none

/-- The paths of a batch, each with the kind of its event. -/
def mentions (batch : List Event) : List (EventKind × PathBuf) :=
  batch.flatMap fun e => e.paths.map fun path => (e.kind, path)

def scan (world : World) (ms : List (EventKind × PathBuf)) : Scan :=
  ms.foldl (fun s m => w.take_path world.gitignore world.tree m.1 s m.2) ⟨[], [], none⟩

/-- The path is new, below the root, and not ignored. -/
def Hears (world : World) (s : Scan) (m : EventKind × PathBuf) : Prop :=
  m.2 ∉ s.seen_paths ∧ ∃ relative, strip_prefix w.root m.2 = some relative ∧
    w.is_ignored world.gitignore relative (event_is_dir world.tree m.1 m.2) = false

/-- A `To` that takes the source that is kept. -/
def Takes (world : World) (s : Scan) (m : EventKind × PathBuf) (source : PathBuf) : Prop :=
  m.1 = .Modify (.Name .To) ∧ w.Hears world s m ∧ s.rename_from = some source ∧
    m.2 ≠ w.root ∧ m.2 ≠ source

def Taken (world : World) (ms : List (EventKind × PathBuf)) (source : PathBuf) : Prop :=
  ∃ before m after, ms = before ++ m :: after ∧ w.Takes world (w.scan world before) m source

/-- What the index has at a path below the root. -/
def entry_at (entries : HashMap Str FileIndexEntry) (path : PathBuf) : Option Bool :=
  (entries.lookup (to_string_lossy path)).map FileIndexEntry.is_dir

/-- A change says what the walker sees; a modification leaves an entry that exists as it is,
so it must not be of the other kind. -/
def Truthful (seen : Option Bool) (is_dir : Bool) (other_kind : Prop) : FileChangeKind → Prop
  | .Created | .Renamed _ => seen = some is_dir
  | .Removed => seen = none
  | .Modified => seen = some is_dir ∧ ¬ other_kind

end FileIndexWatcher

open FileIndexWatcher in
/-- What a batch must have for the paths that no event after it names. -/
structure Settles (w : FileIndexWatcher) (world : World) (batch rest : List Event) : Prop where
  /-- The first event that counts for a path says what the walker sees there. -/
  said : ∀ before m after path, mentions batch = before ++ m :: after →
    w.Hears world (w.scan world before) m → m.2 = w.root ++ path → path ≠ [] →
    w.root ++ path ∉ rest.flatMap Event.paths → ∀ kind,
    (change_kind world.tree m.1 m.2 (w.scan world before).rename_from).1 = some kind →
    Truthful (w.sees world.tree path) (event_is_dir world.tree m.1 m.2)
      (entry_at world.index.entries path = some (!event_is_dir world.tree m.1 m.2) ∧
        ¬ w.Taken world before (w.root ++ path)) kind
  /-- A source that is taken is gone, unless a later event of the batch counts for it. -/
  taken : ∀ before m after path, mentions batch = before ++ m :: after → path ≠ [] →
    w.Takes world (w.scan world before) m (w.root ++ path) →
    w.root ++ path ∉ rest.flatMap Event.paths →
    w.sees world.tree path = none ∨
      w.root ++ path ∉ (w.scan world before).seen_paths ∧
        w.root ++ path ∈ (w.scan world (mentions batch)).seen_paths
  /-- A path for which nothing is done needs nothing. -/
  unsaid : ∀ path, path ≠ [] → w.root ++ path ∈ batch.flatMap Event.paths →
    w.root ++ path ∉ rest.flatMap Event.paths →
    w.root ++ path ∉ (w.scan world (mentions batch)).seen_paths →
    ¬ w.Taken world (mentions batch) (w.root ++ path) →
    entry_at world.index.entries path = w.sees world.tree path

/-- An operation changes what the walker sees only where a pending event names the path; a batch
is settled. -/
def FileIndexWatcher.Sound (w : FileIndexWatcher) (world : World) : Step → Prop
  | .Operate operation events => ∀ path,
      w.root ++ path ∉ (world.queue ++ events).flatMap Event.paths →
      w.sees (operation.perform world.tree) path = w.sees world.tree path
  | .Process n => Settles w (w.reload world (world.queue.take n)) (world.queue.take n)
      (world.queue.drop n)

/-! ## 5. Paths -/

theorem strip_prefix_eq_some {root path relative : PathBuf} :
    strip_prefix root path = some relative ↔ path = root ++ relative := by
  unfold strip_prefix
  by_cases h : root.isPrefixOf path = true
  · rw [if_pos h]
    obtain ⟨rest, rfl⟩ := List.isPrefixOf_iff_prefix.1 h
    rw [List.drop_left, Option.some_inj, List.append_cancel_left_eq, eq_comm]
  · rw [if_neg h]
    constructor
    · exact nofun
    · rintro rfl
      exact absurd (List.isPrefixOf_iff_prefix.2 (List.prefix_append _ _)) h

theorem to_string_lossy_eq_nil {path : PathBuf} : to_string_lossy path = [] ↔ path = [] := by
  constructor
  · intro h
    cases path with
    | nil => rfl
    | cons name path =>
        cases path with
        | nil =>
            rw [to_string_lossy, List.map_singleton, List.intercalate_singleton] at h
            exact absurd h name.2.1
        | cons name' path =>
            rw [to_string_lossy, List.map_cons, List.map_cons, List.intercalate_cons_cons] at h
            exact absurd (List.append_eq_nil_iff.1 (List.append_eq_nil_iff.1 h).1).1 name.2.1
  · rintro rfl
    rfl

/-- The names of a path are between its slashes. -/
theorem to_string_lossy_inj {path path' : PathBuf} :
    to_string_lossy path = to_string_lossy path' ↔ path = path' := by
  constructor
  · intro h
    by_cases hnil : path = []
    · subst hnil
      exact (to_string_lossy_eq_nil.1 h.symm).symm
    · have hnil' : path' ≠ [] := by
        rintro rfl
        exact hnil (to_string_lossy_eq_nil.1 h)
      have hplain : ∀ q : PathBuf, ∀ name ∈ q.map Subtype.val, '/' ∉ name := by
        intro q name hname
        obtain ⟨n, -, rfl⟩ := List.mem_map.1 hname
        exact n.2.2
      have hsplit := congrArg (List.splitOn '/') h
      rw [to_string_lossy, to_string_lossy,
        List.splitOn_intercalate '/' (hplain path) (mt List.map_eq_nil_iff.1 hnil),
        List.splitOn_intercalate '/' (hplain path') (mt List.map_eq_nil_iff.1 hnil')] at hsplit
      exact List.map_injective_iff.2 Subtype.val_injective hsplit
  · exact congrArg _

/-! ## 6. Sorted entries -/

theorem FileIndexEntry.le_iff {a b : FileIndexEntry} :
    a.le b ↔ if a.is_dir = b.is_dir then a.path ≤ b.path else a.is_dir = true := Iff.rfl

instance : Std.Total FileIndexEntry.le where
  total a b := by
    rw [FileIndexEntry.le_iff, FileIndexEntry.le_iff]
    by_cases h : a.is_dir = b.is_dir
    · rw [if_pos h, if_pos h.symm]
      exact le_total _ _
    · rw [if_neg h, if_neg (Ne.symm h)]
      cases ha : a.is_dir with
      | true => exact .inl rfl
      | false => exact .inr (by simpa [ha] using Ne.symm h)

instance : IsTrans FileIndexEntry FileIndexEntry.le where
  trans a b c hab hbc := by
    rw [FileIndexEntry.le_iff] at hab hbc ⊢
    by_cases hsame : a.is_dir = b.is_dir
    · rw [if_pos hsame] at hab
      rw [hsame]
      by_cases hsame' : b.is_dir = c.is_dir
      · rw [if_pos hsame'] at hbc ⊢
        exact hab.trans hbc
      · rw [if_neg hsame'] at hbc ⊢
        exact hbc
    · -- `a` is a directory and `b` is a file, so that `c` is a file
      rw [if_neg hsame] at hab
      have hc : c.is_dir ≠ true := by
        intro hc
        by_cases hsame' : b.is_dir = c.is_dir
        · exact hsame (hab.trans (hsame'.trans hc).symm)
        · rw [if_neg hsame'] at hbc
          exact hsame (hab.trans hbc.symm)
      rw [if_neg fun h => hc (h.symm.trans hab)]
      exact hab

theorem FileIndexEntry.le_antisymm {a b : FileIndexEntry} (hab : a.le b) (hba : b.le a) : a = b := by
  rw [FileIndexEntry.le_iff] at hab hba
  by_cases h : a.is_dir = b.is_dir
  · rw [if_pos h] at hab
    rw [if_pos h.symm] at hba
    cases a
    cases b
    simp only at h hab hba
    rw [h, hab.antisymm hba]
  · rw [if_neg h] at hab
    rw [if_neg (Ne.symm h)] at hba
    exact absurd (hab.trans hba.symm) h

theorem perm_sort_files (files : List FileIndexEntry) : (sort_files files).Perm files :=
  List.perm_insertionSort _ files

/-- There is one way to sort entries. -/
theorem sort_files_eq {files files' : List FileIndexEntry} (h : files.Perm files') :
    sort_files files = sort_files files' :=
  ((perm_sort_files files).trans (h.trans (perm_sort_files files').symm)).eq_of_pairwise
    (fun _ _ _ _ hab hba => FileIndexEntry.le_antisymm hab hba)
    (List.pairwise_insertionSort _ files) (List.pairwise_insertionSort _ files')

/-! ## 7. One change -/

namespace FileIndexWatcher

variable {w : FileIndexWatcher} {gitignore : Matcher} {entries : HashMap Str FileIndexEntry}
  {change : FileChange} {path : PathBuf}

theorem entry_at_insert_self (entry : FileIndexEntry) :
    entry_at (entries.insert (to_string_lossy path) entry) path = some entry.is_dir := by
  rw [entry_at, AList.lookup_insert]
  rfl

theorem entry_at_insert_of_ne {other : PathBuf} (h : path ≠ other) (entry : FileIndexEntry) :
    entry_at (entries.insert (to_string_lossy other) entry) path = entry_at entries path := by
  rw [entry_at, AList.lookup_insert_ne (mt to_string_lossy_inj.1 h)]
  rfl

theorem entry_at_erase_self : entry_at (entries.erase (to_string_lossy path)) path = none := by
  rw [entry_at, AList.lookup_erase]
  rfl

theorem entry_at_erase_of_ne {other : PathBuf} (h : path ≠ other) :
    entry_at (entries.erase (to_string_lossy other)) path = entry_at entries path := by
  rw [entry_at, AList.lookup_erase_ne (mt to_string_lossy_inj.1 h)]
  rfl

/-- What a change does to the entry of its own path. -/
theorem entry_at_apply_self (hpath : path ≠ []) (h : change.path = w.root ++ path)
    (hignored : w.is_ignored gitignore path change.is_dir = false) :
    entry_at (w.apply_change gitignore entries change) path =
      match change.kind with
      | .Created | .Renamed _ => some change.is_dir
      | .Removed => none
      | .Modified => some ((entry_at entries path).getD change.is_dir) := by
  unfold apply_change
  rw [strip_prefix_eq_some.2 h]
  dsimp only
  -- the change is looked at: it is below the root and not ignored
  rw [if_neg (by simp [hpath, hignored])]
  cases change.kind with
  | Created => exact entry_at_insert_self _
  | Removed => exact entry_at_erase_self
  | Renamed source =>
      dsimp only
      cases strip_prefix w.root source with
      | none => exact entry_at_insert_self _
      | some relative => exact entry_at_insert_self _
  | Modified =>
      dsimp only
      by_cases hentry : (entries.lookup (to_string_lossy path)).isSome = true
      · obtain ⟨entry, hlookup⟩ := Option.isSome_iff_exists.1 hentry
        rw [if_pos hentry, entry_at, hlookup]
        rfl
      · rw [if_neg hentry, entry_at_insert_self, entry_at,
          Option.not_isSome_iff_eq_none.1 hentry]
        rfl

/-- A rename takes its source out. -/
theorem entry_at_apply_source {relative : PathBuf} (hrelative : relative ≠ [])
    (h : change.path = w.root ++ relative) (hne : path ≠ relative)
    (hignored : w.is_ignored gitignore relative change.is_dir = false)
    (hkind : change.kind = .Renamed (w.root ++ path)) :
    entry_at (w.apply_change gitignore entries change) path = none := by
  unfold apply_change
  rw [strip_prefix_eq_some.2 h]
  dsimp only
  rw [if_neg (by simp [hrelative, hignored]), hkind]
  dsimp only
  rw [strip_prefix_eq_some.2 rfl]
  exact (entry_at_insert_of_ne hne _).trans entry_at_erase_self

/-- Nothing else is changed. -/
theorem entry_at_apply_other (hne : change.path ≠ w.root ++ path)
    (hkind : change.kind = .Renamed (w.root ++ path) → change.path = w.root) :
    entry_at (w.apply_change gitignore entries change) path = entry_at entries path := by
  unfold apply_change
  cases hstrip : strip_prefix w.root change.path with
  | none => rfl
  | some relative =>
      have hchange := strip_prefix_eq_some.1 hstrip
      have hother : path ≠ relative := by
        rintro rfl
        exact hne hchange
      dsimp only
      by_cases hskip : relative = [] ∨ w.is_ignored gitignore relative change.is_dir = true
      · rw [if_pos hskip]
      · rw [if_neg hskip]
        cases hk : change.kind with
        | Created => exact entry_at_insert_of_ne hother _
        | Removed => exact entry_at_erase_of_ne hother
        | Renamed source =>
            dsimp only
            cases hsource : strip_prefix w.root source with
            | none => exact entry_at_insert_of_ne hother _
            | some from_rel =>
                have hfrom : path ≠ from_rel := by
                  rintro rfl
                  rw [hk, strip_prefix_eq_some.1 hsource] at hkind
                  -- the change would be one of the root
                  apply hskip
                  left
                  have hroot := hkind rfl
                  rw [hchange] at hroot
                  exact List.append_right_eq_self.1 hroot
                exact (entry_at_insert_of_ne hother _).trans (entry_at_erase_of_ne hfrom)
        | Modified =>
            dsimp only
            by_cases hentry : (entries.lookup (to_string_lossy relative)).isSome = true
            · rw [if_pos hentry]
            · rw [if_neg hentry]
              exact entry_at_insert_of_ne hother _

/-! ## 8. One batch -/

variable {tree : Tree} {world : World} {m : EventKind × PathBuf}
  {before after : List (EventKind × PathBuf)}

theorem scan_concat (before : List (EventKind × PathBuf)) (m : EventKind × PathBuf) :
    w.scan world (before ++ [m]) =
      w.take_path world.gitignore world.tree m.1 (w.scan world before) m.2 := by
  rw [scan, List.foldl_append]
  rfl

theorem process_events_eq (batch : List Event) :
    w.process_events world.gitignore world.tree batch =
      (w.scan world (mentions batch)).changes := by
  have hfold : ∀ (s : Scan), batch.foldl (w.take_event world.gitignore world.tree) s =
      (mentions batch).foldl
        (fun s m => w.take_path world.gitignore world.tree m.1 s m.2) s := by
    induction batch with
    | nil => exact fun _ => rfl
    | cons e batch ih =>
        intro s
        rw [List.foldl_cons, ih, mentions, mentions, List.flatMap_cons, List.foldl_append,
          List.foldl_map]
        rfl
  rw [process_events, hfold]
  rfl

/-- What one path of an event does to the variables of the loop. -/
theorem take_path_cases (world : World) (s : Scan) (m : EventKind × PathBuf) :
    (¬ w.Hears world s m ∧ w.take_path world.gitignore world.tree m.1 s m.2 = s) ∨
      (w.Hears world s m ∧ (change_kind world.tree m.1 m.2 s.rename_from).1 = none ∧
        w.take_path world.gitignore world.tree m.1 s m.2 =
          { s with rename_from := (change_kind world.tree m.1 m.2 s.rename_from).2 }) ∨
      ∃ kind, w.Hears world s m ∧ (change_kind world.tree m.1 m.2 s.rename_from).1 = some kind ∧
        w.take_path world.gitignore world.tree m.1 s m.2 =
          ⟨s.changes ++ [⟨m.2, kind, event_is_dir world.tree m.1 m.2⟩], m.2 :: s.seen_paths,
            (change_kind world.tree m.1 m.2 s.rename_from).2⟩ := by
  unfold take_path
  by_cases hseen : m.2 ∈ s.seen_paths
  · rw [if_pos (List.contains_iff_mem.2 hseen)]
    exact .inl ⟨fun h => h.1 hseen, rfl⟩
  · rw [if_neg (mt List.contains_iff_mem.1 hseen)]
    dsimp only
    cases hstrip : strip_prefix w.root m.2 with
    | none =>
        left
        refine ⟨?_, rfl⟩
        rintro ⟨-, relative, hrelative, -⟩
        rw [hstrip] at hrelative
        cases hrelative
    | some relative =>
        dsimp only
        by_cases hignored :
            w.is_ignored world.gitignore relative (event_is_dir world.tree m.1 m.2) = true
        · rw [if_pos hignored]
          left
          refine ⟨?_, rfl⟩
          rintro ⟨-, relative', hrelative, hnot⟩
          rw [hstrip, Option.some_inj] at hrelative
          rw [hrelative, hnot] at hignored
          cases hignored
        · rw [if_neg hignored]
          have hhears : w.Hears world s m :=
            ⟨hseen, relative, hstrip, Bool.not_eq_true _ ▸ hignored⟩
          right
          -- what counts makes a change, or keeps a source and makes none
          rcases hchange : change_kind world.tree m.1 m.2 s.rename_from with ⟨_ | kind, rename_from⟩
          · exact .inl ⟨hhears, rfl, rfl⟩
          · exact .inr ⟨kind, hhears, rfl, rfl⟩

/-- Only a `To` makes a rename, and it takes the source that is kept. -/
theorem change_kind_renamed {kind : EventKind} {rename_from : Option PathBuf} {source : PathBuf}
    (h : (change_kind tree kind path rename_from).1 = some (.Renamed source)) :
    kind = .Modify (.Name .To) ∧ source = rename_from.getD [] := by
  unfold change_kind at h
  split at h
  all_goals first
    | exact ⟨rfl, (FileChangeKind.Renamed.inj (Option.some.inj h)).symm⟩
    | cases h
    | (split_ifs at h <;> cases h)

theorem change_kind_to (rename_from : Option PathBuf) :
    change_kind tree (.Modify (.Name .To)) path rename_from =
      (some (.Renamed (rename_from.getD [])), none) := rfl

theorem taken_concat {source : PathBuf} : w.Taken world (before ++ [m]) source ↔
    w.Taken world before source ∨ w.Takes world (w.scan world before) m source := by
  constructor
  · rintro ⟨x, y, z, heq, htakes⟩
    cases z using List.reverseRecOn with
    | nil =>
        obtain ⟨rfl, hm⟩ := List.append_inj' heq rfl
        rw [(List.cons.inj hm).1]
        exact .inr htakes
    | append_singleton z e =>
        rw [← List.cons_append, ← List.append_assoc] at heq
        exact .inl ⟨x, y, z, (List.append_inj' heq rfl).1, htakes⟩
  · rintro (⟨x, y, z, rfl, htakes⟩ | htakes)
    · exact ⟨x, y, z ++ [m], by simp, htakes⟩
    · exact ⟨before, m, [], rfl, htakes⟩

/-- The entry of a path when a part of the batch is read. -/
def entry_after (w : FileIndexWatcher) (world : World) (before : List (EventKind × PathBuf))
    (path : PathBuf) : Option Bool :=
  entry_at ((w.scan world before).changes.foldl (w.apply_change world.gitignore)
    world.index.entries) path

/-- An entry that is not of the other kind. -/
theorem getD_of_ne {kept : Option Bool} {is_dir : Bool} (h : kept ≠ some (!is_dir)) :
    kept.getD is_dir = is_dir := by
  cases kept with
  | none => rfl
  | some b => cases b <;> cases is_dir <;> simp_all

/-- The entry of a path in the course of a batch, with the changes that are made so far: what
the walker sees once the path counted, nothing after it was taken as a source, and what it was
otherwise. The induction is on what has been read of the batch. -/
theorem entry_of_scan {world : World} {batch rest : List Event} (h : Settles w world batch rest)
    (hpath : path ≠ []) (hrest : w.root ++ path ∉ rest.flatMap Event.paths)
    (hsplit : mentions batch = before ++ after) :
    (w.root ++ path ∈ (w.scan world before).seen_paths →
      w.entry_after world before path = w.sees world.tree path) ∧
    (w.root ++ path ∉ (w.scan world before).seen_paths →
      w.Taken world before (w.root ++ path) →
      w.entry_after world before path = none) ∧
    (w.root ++ path ∉ (w.scan world before).seen_paths →
      ¬ w.Taken world before (w.root ++ path) →
      w.entry_after world before path = entry_at world.index.entries path) := by
  induction before using List.reverseRecOn generalizing after with
  | nil =>
      refine ⟨fun hseen => absurd hseen List.not_mem_nil, ?_, fun _ _ => rfl⟩
      rintro - ⟨x, y, z, heq, -⟩
      exact absurd heq.symm (by simp)
  | append_singleton before m ih =>
      rw [List.append_assoc, List.singleton_append] at hsplit
      obtain ⟨hseen, htaken, huntouched⟩ := ih hsplit
      rw [entry_after, scan_concat, taken_concat]
      rcases take_path_cases world (w.scan world before) m with
        ⟨hdeaf, htake⟩ | ⟨-, hnone, htake⟩ | ⟨kind, hhears, hkind, htake⟩
      · -- the event does not count
        rw [htake, or_iff_left fun htakes => hdeaf htakes.2.1]
        exact ⟨hseen, htaken, huntouched⟩
      · -- the event makes no change, so that it is no `To`
        have hno : ¬ w.Takes world (w.scan world before) m (w.root ++ path) := by
          intro htakes
          rw [htakes.1, change_kind_to] at hnone
          cases hnone
        rw [htake, or_iff_left hno]
        exact ⟨hseen, htaken, huntouched⟩
      · rw [htake, List.foldl_append, List.foldl_cons, List.foldl_nil]
        obtain ⟨hnew, relative, hrelative, hignored⟩ := id hhears
        have hm := strip_prefix_eq_some.1 hrelative
        by_cases hself : m.2 = w.root ++ path
        · -- the first event that counts for the path
          have hsaid := h.said before m after path hsplit hhears hself hpath hrest kind hkind
          obtain rfl : relative = path := List.append_cancel_left (hm.symm.trans hself)
          rw [hself] at hnew
          have hentry : entry_at (w.apply_change world.gitignore
              ((w.scan world before).changes.foldl (w.apply_change world.gitignore)
                world.index.entries)
              ⟨m.2, kind, event_is_dir world.tree m.1 m.2⟩) relative =
                w.sees world.tree relative := by
            rw [entry_at_apply_self hpath hself hignored]
            change (match kind with
              | .Created | .Renamed _ => some (event_is_dir world.tree m.1 m.2)
              | .Removed => none
              | .Modified => some ((w.entry_after world before relative).getD
                  (event_is_dir world.tree m.1 m.2))) = _
            cases kind with
            | Created => exact hsaid.symm
            | Removed => exact hsaid.symm
            | Renamed source => exact hsaid.symm
            | Modified =>
                obtain ⟨hsees, hkept⟩ := hsaid
                rw [hsees]
                by_cases hbefore : w.Taken world before (w.root ++ relative)
                · rw [htaken hnew hbefore]
                  rfl
                · rw [huntouched hnew hbefore]
                  -- an entry of the other kind is excluded
                  rw [getD_of_ne fun hother => hkept ⟨hother, hbefore⟩]
          have hmem : w.root ++ relative ∈ m.2 :: (w.scan world before).seen_paths := by
            rw [hself]
            exact List.mem_cons_self
          exact ⟨fun _ => hentry, fun hnot => absurd hmem hnot, fun hnot => absurd hmem hnot⟩
        · have hmem : w.root ++ path ∈ m.2 :: (w.scan world before).seen_paths ↔
              w.root ++ path ∈ (w.scan world before).seen_paths :=
            ⟨fun hmem => (List.mem_cons.1 hmem).resolve_left (Ne.symm hself),
              List.mem_cons_of_mem _⟩
          rw [hmem]
          by_cases htakes : w.Takes world (w.scan world before) m (w.root ++ path)
          · -- the path is taken as the source of a rename
            obtain ⟨hto, -, hfrom, hroot, -⟩ := id htakes
            rw [hto, change_kind_to, hfrom] at hkind
            have hne : relative ≠ [] := by
              rintro rfl
              exact hroot (hm.trans (List.append_nil _))
            have hentry : entry_at (w.apply_change world.gitignore
                ((w.scan world before).changes.foldl (w.apply_change world.gitignore)
                  world.index.entries)
                ⟨m.2, kind, event_is_dir world.tree m.1 m.2⟩) path = none := by
              apply entry_at_apply_source hne hm _ hignored (Option.some.inj hkind).symm
              rintro rfl
              exact hself hm
            refine ⟨fun hin => ?_, fun _ _ => hentry, fun _ hnot => absurd (.inr htakes) hnot⟩
            rw [hentry]
            exact ((h.taken before m after path hsplit hpath htakes hrest).resolve_right
              fun hlater => hlater.1 hin).symm
          · -- another path
            rw [or_iff_left htakes]
            have hentry : entry_at (w.apply_change world.gitignore
                ((w.scan world before).changes.foldl (w.apply_change world.gitignore)
                  world.index.entries)
                ⟨m.2, kind, event_is_dir world.tree m.1 m.2⟩) path =
                w.entry_after world before path := by
              apply entry_at_apply_other hself
              intro hrenamed
              by_contra hroot
              obtain ⟨hto, hsource⟩ :=
                change_kind_renamed (hkind.trans (congrArg some hrenamed))
              cases hfrom : (w.scan world before).rename_from with
              | none =>
                  rw [hfrom] at hsource
                  exact hpath (List.append_eq_nil_iff.1 hsource).2
              | some source =>
                  rw [hfrom, Option.getD_some] at hsource
                  exact htakes ⟨hto, hhears, hfrom.trans (congrArg some hsource.symm), hroot, hself⟩
            rw [hentry]
            exact ⟨hseen, htaken, huntouched⟩

/-- After a batch that is settled, a path that it names and no later event names has the entry
that the walker sees. -/
theorem entry_of_batch {world : World} {batch rest : List Event} (h : Settles w world batch rest)
    (hpath : path ≠ []) (hrest : w.root ++ path ∉ rest.flatMap Event.paths)
    (hnamed : w.root ++ path ∈ batch.flatMap Event.paths ∨
      entry_at world.index.entries path = w.sees world.tree path) :
    entry_at ((w.process_events world.gitignore world.tree batch).foldl
        (w.apply_change world.gitignore) world.index.entries) path =
      w.sees world.tree path := by
  obtain ⟨hseen, htaken, huntouched⟩ :=
    entry_of_scan h hpath hrest (List.append_nil (mentions batch)).symm
  rw [process_events_eq]
  change w.entry_after world (mentions batch) path = _
  by_cases hin : w.root ++ path ∈ (w.scan world (mentions batch)).seen_paths
  · exact hseen hin
  · by_cases htook : w.Taken world (mentions batch) (w.root ++ path)
    · rw [htaken hin htook]
      obtain ⟨before, m, after, hsplit, htakes⟩ := htook
      exact ((h.taken before m after path hsplit hpath htakes hrest).resolve_right
        fun hlater => hin hlater.2).symm
    · rw [huntouched hin htook]
      by_cases hindex : entry_at world.index.entries path = w.sees world.tree path
      · exact hindex
      · exact h.unsaid path hpath (hnamed.resolve_right hindex) hrest hin htook

/-! ## 9. The map and the list -/

/-- Each entry is filed under its own path, which is one below the root. -/
def Keyed (entries : HashMap Str FileIndexEntry) : Prop :=
  ∀ key entry, entries.lookup key = some entry →
    entry.path = key ∧ ∃ path : PathBuf, path ≠ [] ∧ key = to_string_lossy path

theorem Keyed.insert (h : Keyed entries) (hpath : path ≠ []) (is_dir : Bool) :
    Keyed (entries.insert (to_string_lossy path) ⟨to_string_lossy path, is_dir⟩) := by
  intro key entry hlookup
  by_cases hkey : key = to_string_lossy path
  · rw [hkey, AList.lookup_insert, Option.some_inj] at hlookup
    rw [← hlookup, hkey]
    exact ⟨rfl, path, hpath, rfl⟩
  · rw [AList.lookup_insert_ne hkey] at hlookup
    exact h key entry hlookup

theorem Keyed.erase (h : Keyed entries) (key : Str) : Keyed (entries.erase key) := by
  intro key' entry hlookup
  by_cases hkey : key' = key
  · rw [hkey, AList.lookup_erase] at hlookup
    cases hlookup
  · rw [AList.lookup_erase_ne hkey] at hlookup
    exact h key' entry hlookup

theorem Keyed.apply_change (h : Keyed entries) (change : FileChange) :
    Keyed (w.apply_change gitignore entries change) := by
  unfold FileIndexWatcher.apply_change
  cases strip_prefix w.root change.path with
  | none => exact h
  | some relative =>
      dsimp only
      by_cases hskip : relative = [] ∨ w.is_ignored gitignore relative change.is_dir = true
      · rw [if_pos hskip]
        exact h
      · rw [if_neg hskip]
        have hrelative := fun hnil => hskip (.inl hnil)
        cases change.kind with
        | Created => exact h.insert hrelative _
        | Removed => exact h.erase _
        | Renamed source =>
            dsimp only
            cases strip_prefix w.root source with
            | none => exact h.insert hrelative _
            | some from_rel => exact (h.erase _).insert hrelative _
        | Modified =>
            dsimp only
            by_cases hentry : (entries.lookup (to_string_lossy relative)).isSome = true
            · rw [if_pos hentry]
              exact h
            · rw [if_neg hentry]
              exact h.insert hrelative _

theorem Keyed.foldl (h : Keyed entries) (changes : List FileChange) :
    Keyed (changes.foldl (w.apply_change gitignore) entries) := by
  induction changes generalizing entries with
  | nil => exact h
  | cons change changes ih => exact ih (h.apply_change change)

/-- The files of an index: sorted, each path once, all of them below the root. -/
structure Proper (files : List FileIndexEntry) : Prop where
  sorted : sort_files files = files
  once : (files.map FileIndexEntry.path).Nodup
  named : ∀ e ∈ files, ∃ path : PathBuf, path ≠ [] ∧ e.path = to_string_lossy path

theorem proper_sort_files {files : List FileIndexEntry}
    (once : (files.map FileIndexEntry.path).Nodup)
    (named : ∀ e ∈ files, ∃ path : PathBuf, path ≠ [] ∧ e.path = to_string_lossy path) :
    Proper (sort_files files) where
  sorted := sort_files_eq (perm_sort_files files)
  once := ((perm_sort_files files).map _).nodup_iff.2 once
  named e he := named e ((perm_sort_files files).mem_iff.1 he)

theorem Proper.lookup_iff {index : FileIndex} (h : Proper index.files) {key : Str}
    {entry : FileIndexEntry} :
    index.entries.lookup key = some entry ↔ entry ∈ index.files ∧ entry.path = key := by
  have hmem : ∀ e ∈ index.files, index.entries.lookup e.path = some e := by
    intro e he
    refine lookup_foldl_of_mem FileIndexEntry.path id ?_ (List.mem_map_of_mem he) ∅
    exact fun e' he' heq => List.inj_on_of_nodup_map h.once he' he heq
  constructor
  · intro hlookup
    by_cases hkey : key ∈ index.files.map FileIndexEntry.path
    · obtain ⟨e, he, rfl⟩ := List.mem_map.1 hkey
      rw [hmem e he, Option.some_inj] at hlookup
      rw [← hlookup]
      exact ⟨he, rfl⟩
    · have hnone : index.entries.lookup key = none :=
        lookup_foldl_of_not_mem FileIndexEntry.path id hkey ∅
      rw [hnone] at hlookup
      cases hlookup
  · rintro ⟨he, rfl⟩
    exact hmem entry he

theorem Proper.keyed {index : FileIndex} (h : Proper index.files) : Keyed index.entries := by
  intro key entry hlookup
  obtain ⟨hmem, rfl⟩ := h.lookup_iff.1 hlookup
  exact ⟨rfl, h.named entry hmem⟩

theorem Proper.entry_at_eq_some {index : FileIndex} (h : Proper index.files) {is_dir : Bool} :
    entry_at index.entries path = some is_dir ↔
      ⟨to_string_lossy path, is_dir⟩ ∈ index.files := by
  rw [entry_at, Option.map_eq_some_iff]
  constructor
  · rintro ⟨entry, hlookup, rfl⟩
    obtain ⟨hmem, hkey⟩ := h.lookup_iff.1 hlookup
    rw [← hkey]
    exact hmem
  · intro hmem
    exact ⟨_, h.lookup_iff.2 ⟨hmem, rfl⟩, rfl⟩

/-- The list that a map is drained to says what the map says. -/
theorem drained (h : Keyed entries) : Proper (sort_files ((w.order.drain entries).map Sigma.snd)) ∧
    ∀ entry, entry ∈ sort_files ((w.order.drain entries).map Sigma.snd) ↔
      entries.lookup entry.path = some entry := by
  have hmem : ∀ entry, entry ∈ (w.order.drain entries).map Sigma.snd ↔
      entries.lookup entry.path = some entry := by
    intro entry
    rw [List.mem_map]
    constructor
    · rintro ⟨e, he, rfl⟩
      have hlookup : entries.lookup e.1 = some e.2 :=
        AList.mem_lookup_iff.2 ((w.order.perm entries).mem_iff.1 he)
      rw [(h e.1 e.2 hlookup).1]
      exact hlookup
    · intro hlookup
      exact ⟨⟨entry.path, entry⟩, (w.order.perm entries).mem_iff.2 (AList.mem_lookup_iff.1 hlookup),
        rfl⟩
  constructor
  · apply proper_sort_files
    · rw [List.map_map]
      apply ((w.order.perm entries).map _).nodup_iff.2
      -- the paths are the keys
      have hkeys : entries.entries.map (FileIndexEntry.path ∘ Sigma.snd) = entries.entries.keys := by
        apply List.map_congr_left
        intro e he
        exact (h e.1 e.2 (AList.mem_lookup_iff.2 he)).1
      rw [hkeys]
      exact entries.nodupKeys
    · intro e he
      exact (h e.path e ((hmem e).1 he)).2
  · intro entry
    rw [(perm_sort_files _).mem_iff]
    exact hmem entry

/-- An update below the limit: the entries are those of the map. -/
theorem apply_changes_spec {current : FileIndex} (h : Proper current.files)
    {changes : List FileChange}
    (hlimit : (w.changed_files gitignore current changes).length ≤ w.config.max_files) :
    Proper (w.apply_changes_to_index gitignore current changes).files ∧
      ∀ path, entry_at (w.apply_changes_to_index gitignore current changes).entries path =
        entry_at (changes.foldl (w.apply_change gitignore) current.entries) path := by
  have hkeyed : Keyed (changes.foldl (w.apply_change gitignore) current.entries) :=
    h.keyed.foldl changes
  obtain ⟨hproper, hmem⟩ := drained (w := w) hkeyed
  have hfiles : (w.apply_changes_to_index gitignore current changes).files =
      w.changed_files gitignore current changes := List.take_of_length_le hlimit
  have hproper' : Proper (w.apply_changes_to_index gitignore current changes).files := by
    rw [hfiles]
    exact hproper
  refine ⟨hproper', fun path => ?_⟩
  apply Option.ext
  intro is_dir
  rw [hproper'.entry_at_eq_some, hfiles]
  refine (hmem _).trans ?_
  rw [entry_at, Option.map_eq_some_iff]
  constructor
  · exact fun hlookup => ⟨_, hlookup, rfl⟩
  · rintro ⟨entry, hlookup, rfl⟩
    have hkey := (hkeyed _ _ hlookup).1
    rw [hlookup, ← hkey]

/-! ## 10. The walk -/

theorem entry_of_eq_some {p : PathBuf} {is_dir : Bool} : w.entry_of tree p = some (path, is_dir) ↔
    p = w.root ++ path ∧ path ≠ [] ∧ tree.is_dir p = is_dir := by
  unfold entry_of
  by_cases hroot : p = w.root
  · rw [if_pos hroot]
    refine ⟨nofun, fun ⟨hp, hpath, _⟩ => absurd ?_ hpath⟩
    exact List.append_right_eq_self.1 (hp.symm.trans hroot)
  · rw [if_neg hroot]
    cases hstrip : strip_prefix w.root p with
    | none =>
        refine ⟨nofun, fun ⟨hp, _⟩ => ?_⟩
        rw [strip_prefix_eq_some.2 hp] at hstrip
        cases hstrip
    | some relative =>
        have hp := strip_prefix_eq_some.1 hstrip
        have hrelative : relative ≠ [] := by
          rintro rfl
          exact hroot (hp.trans (List.append_nil _))
        dsimp only
        rw [if_neg hrelative, Option.some_inj, Prod.mk.injEq]
        constructor
        · rintro ⟨rfl, hdir⟩
          exact ⟨hp, hrelative, hdir⟩
        · rintro ⟨hp', -, hdir⟩
          exact ⟨List.append_cancel_left (hp.symm.trans hp'), hdir⟩

theorem sees_eq_some {is_dir : Bool} : w.sees tree path = some is_dir ↔
    (path ≠ [] ∧ w.root ++ path ∈ w.walker.walk tree) ∧ tree.is_dir (w.root ++ path) = is_dir := by
  rw [sees, Option.ite_none_right_eq_some, Option.some_inj]

theorem mem_walk {is_dir : Bool} :
    (path, is_dir) ∈ w.walk tree ↔ w.sees tree path = some is_dir := by
  rw [walk, List.mem_filterMap, sees_eq_some]
  constructor
  · rintro ⟨p, hp, hentry⟩
    obtain ⟨rfl, hpath, hdir⟩ := entry_of_eq_some.1 hentry
    exact ⟨⟨hpath, hp⟩, hdir⟩
  · rintro ⟨⟨hpath, hp⟩, hdir⟩
    exact ⟨_, hp, entry_of_eq_some.2 ⟨rfl, hpath, hdir⟩⟩

theorem nodup_walk : ((w.walk tree).map Prod.fst).Nodup := by
  have hpairs : (w.walk tree).Nodup := by
    apply (w.walker.nodup tree).filterMap
    rintro p p' ⟨path, is_dir⟩ hp hp'
    rw [(entry_of_eq_some.1 hp).1, (entry_of_eq_some.1 hp').1]
  apply hpairs.map_on
  rintro ⟨path, is_dir⟩ hmem ⟨path', is_dir'⟩ hmem' rfl
  rw [mem_walk] at hmem hmem'
  rw [Option.some.inj (hmem.symm.trans hmem')]

/-- A build below the limit has what the walker sees. -/
theorem build_spec (hlimit : (w.walk tree).length ≤ w.config.max_files) :
    Proper (w.build_file_index tree).files ∧
      ∀ path, entry_at (w.build_file_index tree).entries path = w.sees tree path := by
  have hfiles : (w.build_file_index tree).files =
      sort_files ((w.walk tree).map fun e => ⟨to_string_lossy e.1, e.2⟩) := by
    rw [build_file_index, List.take_of_length_le hlimit]
  have hproper : Proper (w.build_file_index tree).files := by
    rw [hfiles]
    apply proper_sort_files
    · rw [List.map_map]
      have hpaths : (((w.walk tree).map Prod.fst).map to_string_lossy).Nodup :=
        nodup_walk.map fun _ _ heq => to_string_lossy_inj.1 heq
      rw [List.map_map] at hpaths
      exact hpaths
    · intro e he
      obtain ⟨⟨path, is_dir⟩, hmem, rfl⟩ := List.mem_map.1 he
      exact ⟨path, (sees_eq_some.1 (mem_walk.1 hmem)).1.1, rfl⟩
  refine ⟨hproper, fun path => ?_⟩
  apply Option.ext
  intro is_dir
  rw [hproper.entry_at_eq_some, hfiles, (perm_sort_files _).mem_iff,
    List.mem_map, ← mem_walk]
  constructor
  · rintro ⟨⟨path', is_dir'⟩, hmem, heq⟩
    obtain ⟨hpath, rfl⟩ := FileIndexEntry.mk.inj heq
    rw [← to_string_lossy_inj.1 hpath]
    exact hmem
  · exact fun hmem => ⟨_, hmem, rfl⟩

/-! ## 11. Runs -/

/-- A path that no event in the queue names has the entry that the walker sees. -/
structure Inv (w : FileIndexWatcher) (world : World) : Prop where
  proper : Proper world.index.files
  settled : ∀ path, path ≠ [] → w.root ++ path ∈ world.queue.flatMap Event.paths ∨
    entry_at world.index.entries path = w.sees world.tree path

theorem inv_start (hlimit : (w.walk tree).length ≤ w.config.max_files) : Inv w (w.start tree) := by
  obtain ⟨hproper, hentry⟩ := build_spec hlimit
  exact ⟨hproper, fun path _ => .inr (hentry path)⟩

/-- An operation: elsewhere the walker sees what it saw. -/
theorem Inv.operate {world : World} (h : Inv w world) {operation : Operation}
    {events : List Event} (hsound : w.Sound world (.Operate operation events)) :
    Inv w (w.step world (.Operate operation events)) := by
  refine ⟨h.proper, fun path hpath => ?_⟩
  by_cases hnamed : w.root ++ path ∈ (world.queue ++ events).flatMap Event.paths
  · exact .inl hnamed
  · right
    have hbefore := hnamed
    rw [List.flatMap_append, List.mem_append, not_or] at hbefore
    exact ((h.settled path hpath).resolve_left hbefore.1).trans (hsound path hnamed).symm

/-- A batch: what the rest of the queue does not name is settled. -/
theorem Inv.process {world : World} (h : Inv w world) {n : ℕ}
    (hallowed : w.Allowed world (.Process n)) (hsound : w.Sound world (.Process n)) :
    Inv w (w.step world (.Process n)) := by
  obtain ⟨hproper, hentry⟩ := apply_changes_spec h.proper hallowed
  refine ⟨hproper, fun path hpath => ?_⟩
  by_cases hrest : w.root ++ path ∈ (world.queue.drop n).flatMap Event.paths
  · exact .inl hrest
  · right
    refine (hentry path).trans (entry_of_batch hsound hpath hrest ?_)
    refine (h.settled path hpath).imp_left fun hnamed => ?_
    rw [← List.take_append_drop n world.queue, List.flatMap_append, List.mem_append] at hnamed
    exact hnamed.resolve_right hrest

theorem Inv.step {world : World} (h : Inv w world) {s : Step} (hallowed : w.Allowed world s)
    (hsound : w.Sound world s) : Inv w (w.step world s) := by
  cases s with
  | Operate operation events => exact h.operate hsound
  | Process n => exact h.process hallowed hsound

/-- With nothing in the queue the index is that of a build: both are sorted, and have the same
entries. -/
theorem Inv.agrees {world : World} (h : Inv w world) (hqueue : world.queue = [])
    (hlimit : (w.walk world.tree).length ≤ w.config.max_files) : w.Agrees world := by
  obtain ⟨hproper, hbuild⟩ := build_spec hlimit
  refine ⟨?_, h.proper.once⟩
  rw [← h.proper.sorted, ← hproper.sorted]
  apply sort_files_eq
  apply (List.perm_ext_iff_of_nodup h.proper.once.of_map hproper.once.of_map).2
  have hsame : ∀ (path : PathBuf) (is_dir : Bool), path ≠ [] →
      (⟨to_string_lossy path, is_dir⟩ ∈ world.index.files ↔
        ⟨to_string_lossy path, is_dir⟩ ∈ (w.build_file_index world.tree).files) := by
    intro path is_dir hpath
    have hentry := (h.settled path hpath).resolve_left (by rw [hqueue]; exact List.not_mem_nil)
    rw [← h.proper.entry_at_eq_some, ← hproper.entry_at_eq_some, hentry, hbuild]
  rintro ⟨key, is_dir⟩
  constructor
  · intro hmem
    obtain ⟨path, hpath, rfl⟩ := h.proper.named _ hmem
    exact (hsame path is_dir hpath).1 hmem
  · intro hmem
    obtain ⟨path, hpath, rfl⟩ := hproper.named _ hmem
    exact (hsame path is_dir hpath).2 hmem

/-- The walk stays below the limit along a run. -/
theorem limit_step {world : World} {s : Step} (h : (w.walk world.tree).length ≤ w.config.max_files)
    (hallowed : w.Allowed world s) : (w.walk (w.step world s).tree).length ≤ w.config.max_files := by
  cases s with
  | Operate operation events => exact hallowed.2
  | Process n => exact h

/-- After any operations, in any batches: when no event is left and each step was sound, the
index is that of a new build. -/
theorem index_rebuilt (w : FileIndexWatcher) (tree : Tree)
    (hlimit : (w.walk tree).length ≤ w.config.max_files) (steps : List Step)
    (hallowed : Along w.step w.Allowed (w.start tree) steps)
    (hsound : Along w.step w.Sound (w.start tree) steps)
    (hqueue : (run w.step (w.start tree) steps).queue = []) :
    w.Agrees (run w.step (w.start tree) steps) := by
  obtain ⟨hinv, hwalk⟩ := run_invariant
    (I := fun world => Inv w world ∧ (w.walk world.tree).length ≤ w.config.max_files)
    (hallowed.and hsound) (fun _ _ h hs => ⟨h.1.step hs.1 hs.2, limit_step h.2 hs.1⟩)
    ⟨inv_start hlimit, hlimit⟩
  exact hinv.agrees hqueue hwalk

/-- One event in a batch, which says what the walker sees. -/
theorem settles_single {world : World} {kind : EventKind} {change : FileChangeKind}
    {rest : List Event} (hkind : kind ≠ .Modify (.Name .To))
    (hhears : w.Hears world ⟨[], [], none⟩ (kind, w.root ++ path))
    (hchange : (change_kind world.tree kind (w.root ++ path) none).1 = some change)
    (hsaid : Truthful (w.sees world.tree path) (event_is_dir world.tree kind (w.root ++ path))
      (entry_at world.index.entries path =
        some (!event_is_dir world.tree kind (w.root ++ path))) change) :
    Settles w world [⟨kind, [w.root ++ path]⟩] rest := by
  have hone : ∀ {before m after}, mentions [⟨kind, [w.root ++ path]⟩] = before ++ m :: after →
      before = [] ∧ m = (kind, w.root ++ path) := by
    intro before m after hsplit
    cases before with
    | nil => exact ⟨rfl, (List.cons.inj hsplit).1.symm⟩
    | cons e before => exact absurd (List.cons.inj hsplit).2.symm (by simp)
  constructor
  · intro before m after path' hsplit _ hm _ _ change' hchange'
    obtain ⟨rfl, rfl⟩ := hone hsplit
    obtain rfl := List.append_cancel_left hm
    obtain rfl := Option.some.inj (hchange.symm.trans hchange')
    cases change with
    | Created => exact hsaid
    | Removed => exact hsaid
    | Renamed source => exact hsaid
    | Modified => exact ⟨hsaid.1, fun hother => hsaid.2 hother.1⟩
  · intro before m after path' hsplit _ htakes
    rw [(hone hsplit).2] at htakes
    exact absurd htakes.1 hkind
  · intro path' _ hnamed _ hunseen
    obtain hpath' : w.root ++ path' = w.root ++ path := by simpa using hnamed
    rw [hpath'] at hunseen
    -- the one event counts, so that its path is seen
    obtain ⟨hdeaf, -⟩ | ⟨-, hnone, -⟩ | ⟨kind', -, -, htake⟩ :=
      w.take_path_cases world ⟨[], [], none⟩ (kind, w.root ++ path)
    · exact absurd hhears hdeaf
    · rw [hchange] at hnone
      cases hnone
    · refine absurd ?_ hunseen
      change _ ∈ (w.take_path world.gitignore world.tree kind ⟨[], [], none⟩
        (w.root ++ path)).seen_paths
      rw [htake]
      exact List.mem_cons_self

/-! ### A file that comes and goes -/

def sample_name : FileName := ⟨"a.rs".toList, by decide +kernel⟩

def sample_root : PathBuf := [⟨"work".toList, by decide +kernel⟩]

/-- A watcher without patterns. Its walker yields all that is in the directory, which is so where
no ignore file is. -/
def sample_watcher : FileIndexWatcher where
  root := sample_root
  config := ⟨10000⟩
  overrides := .empty
  parse_gitignore _ := none
  walker := ⟨fun tree => tree.keys.filter fun p => sample_root.isPrefixOf p,
    fun tree => tree.keys_nodup.filter _⟩
  order := ⟨fun m => m.entries, fun _ => .refl _⟩

def sample_tree : Tree := AList.insert sample_root .Dir ∅

def sample_file : PathBuf := sample_root ++ [sample_name]

def sample_created : Step :=
  .Operate (.Create sample_file (.File [])) [⟨.Create .File, [sample_file]⟩]

def sample_deleted : Step := .Operate (.Delete sample_file) [⟨.Remove .File, [sample_file]⟩]

theorem sample_sees {tree tree' : Tree} {path : PathBuf}
    (h : tree.lookup (sample_root ++ path) = tree'.lookup (sample_root ++ path)) :
    sample_watcher.sees tree path = sample_watcher.sees tree' path := by
  have hmem : ∀ t : Tree, sample_root ++ path ∈ sample_watcher.walker.walk t ↔
      (t.lookup (sample_root ++ path)).isSome = true := by
    intro t
    rw [AList.lookup_isSome]
    refine List.mem_filter.trans (and_iff_left ?_)
    exact List.isPrefixOf_iff_prefix.2 (List.prefix_append _ _)
  have hdir : tree.is_dir (sample_root ++ path) = tree'.is_dir (sample_root ++ path) := by
    rw [Tree.is_dir, Tree.is_dir, h]
  apply Option.ext
  intro is_dir
  rw [sees_eq_some, sees_eq_some]
  change (path ≠ [] ∧ sample_root ++ path ∈ sample_watcher.walker.walk tree) ∧
    tree.is_dir (sample_root ++ path) = is_dir ↔
      (path ≠ [] ∧ sample_root ++ path ∈ sample_watcher.walker.walk tree') ∧
        tree'.is_dir (sample_root ++ path) = is_dir
  rw [hmem, hmem, hdir, h]

/-- In two batches it goes again. -/
theorem index_rebuilt_sample : sample_watcher.Agrees (run sample_watcher.step
    (sample_watcher.start sample_tree)
    [sample_created, .Process 1, sample_deleted, .Process 1]) := by
  apply index_rebuilt
  · decide +kernel
  · refine ⟨⟨.create_file _ _ _ nofun, by decide +kernel⟩, ?_, ⟨.delete _ _, by decide +kernel⟩,
      ?_, trivial⟩
    · change List.length _ ≤ 10000
      decide +kernel
    · change List.length _ ≤ 10000
      decide +kernel
  · refine ⟨?_, ?_, ?_, ?_, trivial⟩
    · intro path hnot
      apply sample_sees
      exact AList.lookup_insert_ne fun heq => hnot (List.mem_singleton.2 heq)
    · refine @settles_single sample_watcher [sample_name] _ _ _ _ nofun
        ⟨List.not_mem_nil, [sample_name], by decide +kernel⟩ rfl ?_
      change sees _ _ _ = some false
      decide +kernel
    · intro path hnot
      apply sample_sees
      have hempty : (Tree.without (AList.insert sample_file (.File []) sample_tree) sample_file :
          Tree) = sample_tree := AList.ext (by decide +kernel)
      refine (congrArg (fun tree : Tree => tree.lookup _) hempty).trans ?_
      exact (AList.lookup_insert_ne fun heq => hnot (List.mem_singleton.2 heq)).symm
    · refine @settles_single sample_watcher [sample_name] _ _ _ _ nofun
        ⟨List.not_mem_nil, [sample_name], by decide +kernel⟩ rfl ?_
      change sees _ _ _ = none
      decide +kernel
  · rfl

/-- In one batch the file stays in the index. -/
theorem created_and_deleted :
    (Along sample_watcher.step sample_watcher.Allowed (sample_watcher.start sample_tree)
        [sample_created, sample_deleted, .Process 2] ∧
      (run sample_watcher.step (sample_watcher.start sample_tree)
        [sample_created, sample_deleted, .Process 2]).queue = []) ∧
    ¬ sample_watcher.Agrees (run sample_watcher.step (sample_watcher.start sample_tree)
        [sample_created, sample_deleted, .Process 2]) := by
  refine ⟨⟨⟨⟨.create_file _ _ _ nofun, by decide +kernel⟩, ⟨.delete _ _, by decide +kernel⟩,
    ?_, trivial⟩, rfl⟩, fun h => ?_⟩
  · change List.length _ ≤ 10000
    decide +kernel
  · exact absurd h.rebuilt (by decide +kernel)

end FileIndexWatcher

end Querymt.FileIndexing
