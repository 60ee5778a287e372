/-
`Snapshot/Git.lean` -- snapshots of a worktree in a git repository.

Mirrors `snapshot/git.rs`: `create_snapshot` walks the worktree and builds a tree object,
`diff_commits` turns the changes between two trees into paths, and `checkout_paths`
writes or removes one path after the other. A snapshot id stands for its tree; that
gix stores and finds objects is taken for granted.

What the filesystem does is modelled as documented for `std::fs`: `create_dir_all` fails
on a file in the way, `write` fails on a directory and keeps the permissions of a file
that exists, a new file is not executable, `remove_file` removes files only.

The changes between two trees come from gix (`diff_tree_to_tree`), with rename tracking
on. `Reports` says what is relied on: one change for every path whose file differs, with
a `Rewrite` in the place of a deletion and an addition that match.
-/
import Querymt.Library.PathTrees

set_option autoImplicit false

namespace Querymt.Snapshot

open PathTrees

/-! ## 1. The worktree on disk -/

/-- A path relative to the worktree, by its components. -/
abbrev Path := List String

structure File where
  content : String
  executable : Bool
  deriving DecidableEq

inductive Node where
  | file (f : File)
  | dir
  deriving DecidableEq

/-- A worktree on disk: what is at each path, with the root a directory and everything else
in a directory. `listing` names all that exists. -/
structure Disk where
  node : Path → Option Node
  listing : List Path
  complete : ∀ p, node p ≠ none → p ∈ listing
  root : node [] = some .dir
  parents : ∀ p name, node (p ++ [name]) ≠ none → node p = some .dir

namespace Disk

variable (disk : Disk)

/-- The file at a path. -/
def file (p : Path) : Option File :=
  match disk.node p with
  | some (.file f) => some f
  | _ => none

/-- All that is above something that exists is a directory. -/
theorem dir_above {p q : Path} (hq : q ≠ []) (h : disk.node (p ++ q) ≠ none) :
    disk.node p = some .dir := by
  induction q using List.reverseRecOn with
  | nil => exact absurd rfl hq
  | append_singleton init name ih =>
      have hparent := disk.parents (p ++ init) name (by rwa [List.append_assoc])
      by_cases hinit : init = []
      · rw [hinit, List.append_nil] at hparent
        exact hparent
      · exact ih hinit (by rw [hparent]; exact Option.some_ne_none _)

theorem file_eq_some {p : Path} {f : File} :
    disk.file p = some f ↔ disk.node p = some (.file f) := by
  unfold file
  split
  · next g hg =>
    rw [hg]
    simp
  · next hno =>
    exact ⟨fun h => (by cases h), fun h => absurd h (hno f)⟩

/-- Nothing is below a file. -/
theorem no_file_above {p q : Path} (hq : q ≠ []) (h : disk.node (p ++ q) ≠ none) :
    disk.file p = none := by
  unfold file
  rw [disk.dir_above hq h]

/-! ## 2. The operations of the filesystem -/

/-- `fs::create_dir_all`; it fails on a file in the way. -/
def create_dir_all (p : Path) : Option Disk :=
  if h : ∀ q ∈ p.inits, disk.file q = none then
    some {
      node := fun q => if q <+: p ∧ disk.node q = none then some .dir else disk.node q
      listing := p.inits ++ disk.listing
      complete := by
        intro q hq
        rw [List.mem_append]
        split at hq
        · next hnew => exact .inl ((List.mem_inits _ _).2 hnew.1)
        · exact .inr (disk.complete q hq)
      root := by
        rw [if_neg (by simp [disk.root])]
        exact disk.root
      parents := by
        intro q name hq
        split at hq
        · -- a new directory: the one above is new too, or was one
          next hnew =>
          have hpre : q <+: p := (List.prefix_append q [name]).trans hnew.1
          by_cases hnone : disk.node q = none
          · rw [if_pos ⟨hpre, hnone⟩]
          · rw [if_neg fun hc => hnone hc.2]
            have hfile := h q ((List.mem_inits _ _).2 hpre)
            unfold file at hfile
            cases hnode : disk.node q with
            | none => exact absurd hnode hnone
            | some n =>
                cases n with
                | file f =>
                    rw [hnode] at hfile
                    cases hfile
                | dir => rfl
        · have hdir := disk.parents q name hq
          rw [if_neg (by simp [hdir])]
          exact hdir }
  else none

/-- The permission bits a write leaves: those of the file that was there. -/
def executable_at (p : Path) : Bool := ((disk.file p).map File.executable).getD false

/-- `fs::write`; it fails on a directory, and where there is no directory above. -/
def write (p : Path) (content : String) : Option Disk :=
  if h : disk.node p ≠ some .dir ∧ disk.node p.dropLast = some .dir then
    some {
      node := fun q =>
        if q = p then some (.file ⟨content, disk.executable_at p⟩) else disk.node q
      listing := p :: disk.listing
      complete := by
        intro q hq
        split at hq
        · next heq =>
          rw [heq]
          exact List.mem_cons_self
        · exact List.mem_cons_of_mem p (disk.complete q hq)
      root := by
        rw [if_neg]
        · exact disk.root
        · rintro rfl
          exact h.1 disk.root
      parents := by
        intro q name hq
        split at hq
        · next heq =>
          have hdrop : p.dropLast = q := by rw [← heq, List.dropLast_concat]
          rw [hdrop] at h
          rw [if_neg]
          · exact h.2
          · rintro rfl
            exact h.1 h.2
        · have hdir := disk.parents q name hq
          rw [if_neg]
          · exact hdir
          · rintro rfl
            exact h.1 hdir }
  else none

/-- `fs::remove_file`, with its failure ignored. -/
def remove_file (p : Path) : Disk :=
  if h : disk.file p = none then disk
  else {
    node := fun q => if q = p then none else disk.node q
    listing := disk.listing
    complete := by
      intro q hq
      split at hq
      · exact absurd rfl hq
      · exact disk.complete q hq
    root := by
      rw [if_neg]
      · exact disk.root
      · rintro rfl
        apply h
        unfold file
        rw [disk.root]
    parents := by
      intro q name hq
      split at hq
      · exact absurd rfl hq
      · have hdir := disk.parents q name hq
        rw [if_neg]
        · exact hdir
        · rintro rfl
          apply h
          unfold file
          rw [hdir] }

/-! What the operations leave. -/

variable {disk} {d : Disk} {p : Path}

theorem file_eq_none_of_node {q : Path} (h : disk.node q = none) : disk.file q = none := by
  unfold file
  rw [h]

theorem create_dir_all_file (h : disk.create_dir_all p = some d) (q : Path) :
    d.file q = disk.file q := by
  unfold create_dir_all at h
  split at h
  · cases h
    show (match (if q <+: p ∧ disk.node q = none then some Node.dir else disk.node q) with
      | some (.file f) => some f
      | _ => none) = disk.file q
    split_ifs with hnew
    · exact (file_eq_none_of_node hnew.2).symm
    · rfl
  · cases h

theorem create_dir_all_dir (h : disk.create_dir_all p = some d) (q : Path) :
    d.node q = some .dir ↔ disk.node q = some .dir ∨ q <+: p := by
  unfold create_dir_all at h
  split at h
  · next hnofile =>
    cases h
    show (if q <+: p ∧ disk.node q = none then some Node.dir else disk.node q) = some .dir ↔ _
    by_cases hpre : q <+: p
    · have hfile := hnofile q ((List.mem_inits _ _).2 hpre)
      unfold file at hfile
      cases hnode : disk.node q with
      | none => simp [hpre]
      | some n =>
          cases n with
          | dir => simp
          | file f =>
              rw [hnode] at hfile
              cases hfile
    · simp [hpre]
  · cases h

theorem create_dir_all_isSome :
    (∃ d, disk.create_dir_all p = some d) ↔ ∀ q, q <+: p → disk.file q = none := by
  unfold create_dir_all
  split
  · next h => exact ⟨fun _ q hq => h q ((List.mem_inits _ _).2 hq), fun _ => ⟨_, rfl⟩⟩
  · next h =>
    refine ⟨fun ⟨d, hd⟩ => (by cases hd), fun hall => absurd ?_ h⟩
    exact fun q hq => hall q ((List.mem_inits _ _).1 hq)

theorem write_isSome (content : String) :
    (∃ d, disk.write p content = some d) ↔
      disk.node p ≠ some .dir ∧ disk.node p.dropLast = some .dir := by
  unfold write
  split
  · next h => exact ⟨fun _ => h, fun _ => ⟨_, rfl⟩⟩
  · next h => exact ⟨fun ⟨d, hd⟩ => (by cases hd), fun h' => absurd h' h⟩

theorem write_file {content : String} (h : disk.write p content = some d) (q : Path) :
    d.file q = if q = p then some ⟨content, disk.executable_at p⟩ else disk.file q := by
  unfold write at h
  split at h
  · cases h
    unfold file
    show (match (if q = p then some (.file ⟨content, disk.executable_at p⟩)
        else disk.node q : Option Node) with
      | some (.file f) => some f
      | _ => none) = _
    split_ifs <;> rfl
  · cases h

theorem write_dir {content : String} (h : disk.write p content = some d) (q : Path) :
    d.node q = some .dir ↔ disk.node q = some .dir := by
  unfold write at h
  split at h
  · next hok =>
    cases h
    show (if q = p then some (.file ⟨content, disk.executable_at p⟩)
        else disk.node q : Option Node) = some .dir ↔ _
    split_ifs with heq
    · rw [heq]
      exact ⟨fun hc => (by cases hc), fun hc => absurd hc hok.1⟩
    · exact Iff.rfl
  · cases h

theorem remove_file_file (q : Path) :
    (disk.remove_file p).file q = if q = p then none else disk.file q := by
  unfold remove_file
  split
  · next h =>
    split_ifs with heq
    · rw [heq]
      exact h
    · rfl
  · unfold file
    show (match (if q = p then none else disk.node q : Option Node) with
      | some (.file f) => some f
      | _ => none) = _
    split_ifs <;> rfl

theorem remove_file_dir (q : Path) :
    (disk.remove_file p).node q = some .dir ↔ disk.node q = some .dir := by
  unfold remove_file
  split
  · exact Iff.rfl
  · next h =>
    show (if q = p then none else disk.node q : Option Node) = some .dir ↔ _
    split_ifs with heq
    · refine ⟨fun hc => (by cases hc), fun hc => absurd ?_ h⟩
      unfold file
      rw [← heq, hc]
    · exact Iff.rfl

end Disk

/-! ## 3. Snapshots -/

/-- `rel_str.starts_with('.') || rel_str.contains("/.")`. -/
def hidden (p : Path) : Bool := p.any fun name => decide (name.toList.head? = some '.')

/-- The order that git puts the entries of a tree in: a directory's name counts with a
slash. -/
def git_name : String × Tree String File → String
  | (name, .node _) => name ++ "/"
  | (name, .leaf _) => name

def git_sort (entries : List (String × Tree String File)) : List (String × Tree String File) :=
  entries.insertionSort fun a b => git_name a ≤ git_name b

/-- `build_tree_from_entries`, down to the depth of the longest path. -/
def build_tree_from_entries (entries : List (Path × File)) : Tree String File :=
  build git_sort ((entries.map fun e => e.1.length).foldr max 0) entries

namespace Disk

variable (ignored : Path → Bool) (disk : Disk)

/-- The file at a path that a snapshot takes: not hidden, and not ignored by the rules of
`.gitignore`, which are hidden files and never touched. -/
def tracked_file (p : Path) : Option File :=
  if hidden p || ignored p then none else disk.file p

/-- The files that the walk finds, sorted. -/
def entries : List (Path × File) :=
  (disk.listing.dedup.filterMap fun p =>
    (disk.tracked_file ignored p).map fun f => (p, f)).insertionSort fun a b => a.1 ≤ b.1

/-- `create_snapshot`: the tree that is committed. -/
def create_snapshot : Tree String File := build_tree_from_entries (disk.entries ignored)

end Disk

/-- The file at a path of a tree. -/
def file_at (tree : Tree String File) (p : Path) : Option File :=
  match lookup p tree with
  | some (.leaf f) => some f
  | _ => none

section Snapshots

variable {ignored : Path → Bool} {disk : Disk}

theorem mem_entries {p : Path} {f : File} :
    (p, f) ∈ disk.entries ignored ↔ disk.tracked_file ignored p = some f := by
  unfold Disk.entries
  rw [List.mem_insertionSort, List.mem_filterMap]
  constructor
  · rintro ⟨q, -, hq⟩
    obtain ⟨g, hg, heq⟩ := Option.map_eq_some_iff.1 hq
    cases heq
    exact hg
  · intro h
    refine ⟨p, List.mem_dedup.2 (disk.complete p ?_), by rw [h]; rfl⟩
    intro hnone
    unfold Disk.tracked_file at h
    rw [Disk.file_eq_none_of_node hnone] at h
    split at h <;> cases h

theorem tracked_file_some {p : Path} {f : File} (h : disk.tracked_file ignored p = some f) :
    disk.file p = some f := by
  unfold Disk.tracked_file at h
  split at h
  · cases h
  · exact h

theorem entries_well_placed :
    WellPlaced (((disk.entries ignored).map fun e => e.1.length).foldr max 0)
      (disk.entries ignored) where
  unique := by
    rintro ⟨p, f⟩ he ⟨q, g⟩ he' heq
    have hpq : p = q := heq
    subst hpq
    have hf := (mem_entries.1 he).symm.trans (mem_entries.1 he')
    cases hf
    rfl
  nonempty := by
    rintro ⟨p, f⟩ he hnil
    have hp : p = [] := hnil
    have hfile := tracked_file_some (mem_entries.1 he)
    rw [hp, Disk.file_eq_some, disk.root] at hfile
    cases hfile
  apart := by
    rintro ⟨p, f⟩ he ⟨q, g⟩ he' ⟨suffix, hsuffix⟩
    have hsuffix' : p ++ suffix = q := hsuffix
    by_contra hne
    have hnonempty : suffix ≠ [] := by
      rintro rfl
      exact hne (by simpa using hsuffix)
    have hfile := tracked_file_some (mem_entries.1 he)
    have hbelow := tracked_file_some (mem_entries.1 he')
    rw [← hsuffix', Disk.file_eq_some] at hbelow
    rw [disk.no_file_above hnonempty (by rw [hbelow]; exact Option.some_ne_none _)] at hfile
    cases hfile
  bounded := by
    intro e he
    generalize disk.entries ignored = entries at he
    induction entries with
    | nil => cases he
    | cons e' rest ih =>
        rw [List.map_cons, List.foldr_cons]
        rcases List.mem_cons.1 he with rfl | he
        · exact le_max_left _ _
        · exact (ih he).trans (le_max_right _ _)

theorem entries_nodup (disk : Disk) : (disk.entries ignored).Nodup := by
  refine (List.perm_insertionSort _ _).nodup_iff.2 ?_
  refine (List.nodup_dedup _).filterMap ?_
  intro p q e hp hq
  obtain ⟨f, -, hf⟩ := Option.map_eq_some_iff.1 hp
  obtain ⟨g, -, hg⟩ := Option.map_eq_some_iff.1 hq
  rw [← hf] at hg
  exact (Prod.mk.inj hg).1.symm

theorem git_sort_perm (l : List (String × Tree String File)) : (git_sort l).Perm l :=
  List.perm_insertionSort _ l

/-- A snapshot holds the tracked files. -/
theorem lookup_snapshot_leaf (p : Path) (f : File) :
    lookup p (disk.create_snapshot ignored) = some (.leaf f)
      ↔ disk.tracked_file ignored p = some f := by
  rw [← mem_entries]
  exact lookup_build_leaf git_sort_perm entries_well_placed p f

/-- A snapshot has a directory where there are tracked files below. -/
theorem lookup_snapshot_node (p : Path) :
    (∃ children, lookup p (disk.create_snapshot ignored) = some (.node children))
      ↔ p ≠ [] ∧ ∃ q f, q ≠ [] ∧ disk.tracked_file ignored (p ++ q) = some f := by
  simp only [← mem_entries]
  exact lookup_build_node git_sort_perm entries_well_placed p

theorem file_at_snapshot (p : Path) :
    file_at (disk.create_snapshot ignored) p = disk.tracked_file ignored p := by
  unfold file_at
  cases h : disk.tracked_file ignored p with
  | some f => rw [(lookup_snapshot_leaf p f).2 h]
  | none =>
      split
      · next f hf =>
        rw [(lookup_snapshot_leaf p f).1 hf] at h
        cases h
      · rfl

/-- Two snapshots are the same tree exactly when they hold the same files. -/
theorem create_snapshot_eq_iff {disk' : Disk} :
    disk.create_snapshot ignored = disk'.create_snapshot ignored
      ↔ ∀ p, disk.tracked_file ignored p = disk'.tracked_file ignored p := by
  constructor
  · intro heq p
    rw [← file_at_snapshot, heq, file_at_snapshot]
  · intro hfiles
    have hmem : ∀ e, e ∈ disk.entries ignored ↔ e ∈ disk'.entries ignored := by
      rintro ⟨p, f⟩
      rw [mem_entries, mem_entries, hfiles]
    have hperm : (disk.entries ignored).Perm (disk'.entries ignored) :=
      (List.perm_ext_iff_of_nodup (entries_nodup disk) (entries_nodup disk')).2 hmem
    have hentries : disk.entries ignored = disk'.entries ignored := by
      refine hperm.eq_of_pairwise ?_ (List.pairwise_insertionSort _ _)
        (List.pairwise_insertionSort _ _)
      -- the sort by path decides, since no two entries share a path
      intro e e' he he' hle hge
      exact entries_well_placed.unique e he e' ((hmem e').2 he') (le_antisymm hle hge)
    unfold Disk.create_snapshot
    rw [hentries]

end Snapshots

/-! ## 4. Differences and restores -/

/-- A change between two trees, with whether its entry is a tree (a directory). -/
inductive Change where
  | Addition (location : Path) (is_tree : Bool)
  | Deletion (location : Path) (is_tree : Bool)
  | Modification (location : Path) (is_tree : Bool)
  | Rewrite (source_location location : Path) (is_tree : Bool)
  deriving DecidableEq

namespace Change

def is_tree : Change → Bool
  | .Addition _ is_tree => is_tree
  | .Deletion _ is_tree => is_tree
  | .Modification _ is_tree => is_tree
  | .Rewrite _ _ is_tree => is_tree

def location : Change → Path
  | .Addition location _ => location
  | .Deletion location _ => location
  | .Modification location _ => location
  | .Rewrite _ location _ => location

end Change

/-- `diff_commits`, on the changes that gix reports: their locations, without trees. -/
def diff_commits (changes : List Change) : List Path :=
  (changes.filter fun change => !change.is_tree).map Change.location

/-- What gix reports of two trees: a change for each path whose file differs. A deletion and
an addition that match are one rewrite. -/
structure Reports (pre post : Tree String File) (changes : List Change) : Prop where
  addition : ∀ p, .Addition p false ∈ changes → file_at pre p = none ∧ file_at post p ≠ none
  deletion : ∀ p, .Deletion p false ∈ changes → file_at pre p ≠ none ∧ file_at post p = none
  modification : ∀ p, .Modification p false ∈ changes →
    file_at pre p ≠ none ∧ file_at post p ≠ none ∧ file_at pre p ≠ file_at post p
  rewrite : ∀ p q, .Rewrite p q false ∈ changes →
    (file_at pre p ≠ none ∧ file_at post p = none) ∧
    (file_at pre q = none ∧ file_at post q ≠ none) ∧ .Deletion p false ∉ changes
  added : ∀ p, file_at pre p = none → file_at post p ≠ none →
    .Addition p false ∈ changes ∨ ∃ source, .Rewrite source p false ∈ changes
  deleted : ∀ p, file_at pre p ≠ none → file_at post p = none →
    .Deletion p false ∈ changes ∨ ∃ q, .Rewrite p q false ∈ changes
  modified : ∀ p, file_at pre p ≠ none → file_at post p ≠ none →
    file_at pre p ≠ file_at post p → .Modification p false ∈ changes

/-- One path of `checkout_paths`. -/
def checkout_path (tree : Tree String File) (p : Path) (disk : Disk) : Except String Unit × Disk :=
  match lookup p tree with
  | some (.node _) => (.ok (), disk)
  | some (.leaf f) =>
      match disk.create_dir_all p.dropLast with
      | none => (.error "Filesystem error: Failed to create parent directory", disk)
      | some disk =>
          match disk.write p f.content with
          | none => (.error "Filesystem error: Failed to write file", disk)
          | some disk => (.ok (), disk)
  | none => (.ok (), disk.remove_file p)

/-- `checkout_paths`: one path after the other, up to the first error. -/
def checkout_paths (tree : Tree String File) : List Path → Disk → Except String Unit × Disk
  | [], disk => (.ok (), disk)
  | p :: rest, disk =>
      match checkout_path tree p disk with
      | (.error e, disk) => (.error e, disk)
      | (.ok (), disk) => checkout_paths tree rest disk

end Querymt.Snapshot
