/-
`Snapshot/RoundTrip.lean` -- going back to a snapshot.

The sequence behind undo and redo: take a snapshot of the present state, list the paths
that differ from an older snapshot, restore these from it. It is to give the older state,
so that a further snapshot is the same tree.

**`round_trip_iff`** says when it does. Three things go wrong, each on its own:

* a name that is a file on one side and a directory on the other stops the restore. A
  file in the way of a directory is never removed, since its path is a tree in the
  snapshot and trees are skipped; a directory in the way of a file is never removed at
  all;
* of a rename, only the new name is listed, so the file under the old name stays;
* the executable bit is in the snapshot and is not restored.

The first is settled by what a restore keeps (`stuck_fails`), the rest by what a restore
without such conflicts leaves, path by path (`checkout_paths_ok`).
-/
import Querymt.Snapshot.Git

set_option autoImplicit false

namespace Querymt.Snapshot

open PathTrees

/-! ## 1. The law and its condition -/

/-- Restoring the paths that differ succeeds, and gives the older tree again. `changes` is
what gix reports between the snapshots of `w2` and `w1`. -/
def RoundTrip (ignored : Path → Bool) (w1 w2 : Disk) (changes : List Change) : Prop :=
  (checkout_paths (w1.create_snapshot ignored) (diff_commits changes) w2).1 = .ok () ∧
  (checkout_paths (w1.create_snapshot ignored) (diff_commits changes) w2).2.create_snapshot ignored
    = w1.create_snapshot ignored

/-- Every file of `w1` has its place in `w2`: no directory is there, and no file above. -/
def NoTypeChange (ignored : Path → Bool) (w1 w2 : Disk) : Prop :=
  ∀ p, w1.tracked_file ignored p ≠ none →
    w2.node p ≠ some .dir ∧ ∀ q suffix, suffix ≠ [] → p = q ++ suffix → w2.file q = none

def NoRewrite (changes : List Change) : Prop := ∀ p q, .Rewrite p q false ∉ changes

/-- Every file of `w1` has its executable bit in `w2`, or none where `w2` has no file. -/
def ExecutableFits (ignored : Path → Bool) (w1 w2 : Disk) : Prop :=
  ∀ p f, w1.tracked_file ignored p = some f → f.executable = w2.executable_at p

section RoundTrip

variable {ignored : Path → Bool} {w1 w2 disk d : Disk} {p q : Path}

/-! ## 2. A conflict stops the restore -/

/-- A file of the snapshot cannot be written: there is a directory, or a file above. -/
def Stuck (disk : Disk) (p : Path) : Prop :=
  disk.node p = some .dir ∨ ∃ q suffix, suffix ≠ [] ∧ p = q ++ suffix ∧ disk.file q ≠ none

theorem checkout_path_leaf {f : File} (h : w1.tracked_file ignored p = some f)
    (hok : (checkout_path (w1.create_snapshot ignored) p disk).1 = .ok ()) :
    ∃ made, disk.create_dir_all p.dropLast = some made ∧
      made.write p f.content = some (checkout_path (w1.create_snapshot ignored) p disk).2 := by
  unfold checkout_path at hok ⊢
  rw [(lookup_snapshot_leaf p f).2 h] at hok ⊢
  simp only at hok ⊢
  cases hmade : disk.create_dir_all p.dropLast with
  | none =>
      rw [hmade] at hok
      cases hok
  | some made =>
      rw [hmade] at hok
      simp only at hok ⊢
      cases hwrite : made.write p f.content with
      | none =>
          rw [hwrite] at hok
          cases hok
      | some d => exact ⟨made, rfl, hwrite⟩

/-- What one path changes: it never removes a directory, and a file only at the path itself
and when the snapshot has nothing there. -/
theorem checkout_path_keeps (tree : Tree String File)
    (hok : (checkout_path tree p disk).1 = .ok ()) :
    (∀ q, disk.node q = some .dir → (checkout_path tree p disk).2.node q = some .dir) ∧
    (∀ q, disk.file q ≠ none → (q = p → lookup p tree ≠ none) →
      (checkout_path tree p disk).2.file q ≠ none) := by
  unfold checkout_path at hok ⊢
  cases hlookup : lookup p tree with
  | none =>
      refine ⟨fun q hq => (Disk.remove_file_dir q).2 hq, fun q hq hne => ?_⟩
      show (disk.remove_file p).file q ≠ none
      rw [Disk.remove_file_file, if_neg fun heq => hne heq rfl]
      exact hq
  | some entry =>
      rw [hlookup] at hok
      cases entry with
      | node children => exact ⟨fun q hq => hq, fun q hq _ => hq⟩
      | leaf f =>
          simp only at hok ⊢
          cases hmade : disk.create_dir_all p.dropLast with
          | none =>
              rw [hmade] at hok
              cases hok
          | some made =>
              rw [hmade] at hok
              simp only at hok ⊢
              cases hwrite : made.write p f.content with
              | none =>
                  rw [hwrite] at hok
                  cases hok
              | some d =>
                  refine ⟨fun q hq => ?_, fun q hq _ => ?_⟩
                  · exact (Disk.write_dir hwrite q).2 ((Disk.create_dir_all_dir hmade q).2 (.inl hq))
                  · show d.file q ≠ none
                    rw [Disk.write_file hwrite q, Disk.create_dir_all_file hmade q]
                    split_ifs
                    · exact Option.some_ne_none _
                    · exact hq

theorem dropLast_append {suffix : Path} (h : suffix ≠ []) : q <+: (q ++ suffix).dropLast := by
  rw [List.dropLast_append_of_ne_nil h]
  exact List.prefix_append _ _

/-- Writing a file that is stuck fails. -/
theorem stuck_not_written (h : w1.tracked_file ignored p ≠ none) (hstuck : Stuck disk p) :
    (checkout_path (w1.create_snapshot ignored) p disk).1 ≠ .ok () := by
  obtain ⟨f, hf⟩ := Option.ne_none_iff_exists'.1 h
  intro hok
  obtain ⟨made, hmade, hwrite⟩ := checkout_path_leaf hf hok
  rcases hstuck with hdir | ⟨q, suffix, hsuffix, heq, hfile⟩
  · have hmade_dir := (Disk.create_dir_all_dir hmade p).2 (.inl hdir)
    exact ((Disk.write_isSome _).1 ⟨_, hwrite⟩).1 hmade_dir
  · have hpre : q <+: p.dropLast := heq ▸ dropLast_append hsuffix
    exact hfile (Disk.create_dir_all_isSome.1 ⟨_, hmade⟩ q hpre)

/-- Restoring another path does not free a file that is stuck. -/
theorem Stuck.step (h : w1.tracked_file ignored p ≠ none) (hstuck : Stuck disk p)
    (hok : (checkout_path (w1.create_snapshot ignored) q disk).1 = .ok ()) :
    Stuck (checkout_path (w1.create_snapshot ignored) q disk).2 p := by
  obtain ⟨hdirs, hfiles⟩ := checkout_path_keeps _ hok
  rcases hstuck with hdir | ⟨r, suffix, hsuffix, heq, hfile⟩
  · exact .inl (hdirs p hdir)
  · refine .inr ⟨r, suffix, hsuffix, heq, hfiles r hfile ?_⟩
    -- the file above is a directory of the snapshot, so its path is skipped
    rintro rfl
    obtain ⟨f, hf⟩ := Option.ne_none_iff_exists'.1 h
    have hroot : r ≠ [] := by
      rintro rfl
      obtain ⟨g, hg⟩ := Option.ne_none_iff_exists'.1 hfile
      rw [Disk.file_eq_some, disk.root] at hg
      cases hg
    obtain ⟨children, hchildren⟩ := (lookup_snapshot_node r).2 ⟨hroot, suffix, f, hsuffix, heq ▸ hf⟩
    rw [hchildren]
    exact Option.some_ne_none _

theorem stuck_fails {paths : List Path} (h : w1.tracked_file ignored p ≠ none)
    (hp : p ∈ paths) (hstuck : Stuck disk p) :
    (checkout_paths (w1.create_snapshot ignored) paths disk).1 ≠ .ok () := by
  induction paths generalizing disk with
  | nil => cases hp
  | cons q rest ih =>
      unfold checkout_paths
      rcases hstep : checkout_path (w1.create_snapshot ignored) q disk with ⟨_ | _, d⟩
      · exact fun hc => (by cases hc)
      · have hok : (checkout_path (w1.create_snapshot ignored) q disk).1 = .ok () := by rw [hstep]
        rcases List.mem_cons.1 hp with rfl | hrest
        · exact absurd hok (stuck_not_written h hstuck)
        · have hnext := hstuck.step h hok
          rw [hstep] at hnext
          exact ih hrest hnext

/-! ## 3. A restore without conflicts -/

/-- What a restore leaves at a path: the content of the snapshot, and the executable bit that
is there. -/
def restored (ignored : Path → Bool) (w1 w2 : Disk) (p : Path) : Option File :=
  (w1.tracked_file ignored p).map fun f => ⟨f.content, w2.executable_at p⟩

/-- The disk with some paths restored. -/
structure Partly (ignored : Path → Bool) (w1 w2 : Disk) (done : List Path) (disk : Disk) :
    Prop where
  files : ∀ p, disk.file p = if p ∈ done then restored ignored w1 w2 p else w2.file p
  dirs : ∀ p, disk.node p = some .dir → w2.node p = some .dir ∨
    ∃ suffix, suffix ≠ [] ∧ w1.tracked_file ignored (p ++ suffix) ≠ none

/-- No file of a snapshot is below another. -/
theorem tracked_apart {suffix : Path} (hsuffix : suffix ≠ [])
    (h : w1.tracked_file ignored (p ++ suffix) ≠ none) : w1.tracked_file ignored p = none := by
  obtain ⟨f, hf⟩ := Option.ne_none_iff_exists'.1 h
  have hfile := tracked_file_some hf
  have habove : w1.file p = none := by
    apply w1.no_file_above hsuffix
    rw [w1.file_eq_some.1 hfile]
    exact Option.some_ne_none _
  unfold Disk.tracked_file
  rw [habove]
  split <;> rfl

theorem tracked_ne_nil (h : w1.tracked_file ignored p ≠ none) : p ≠ [] := by
  rintro rfl
  obtain ⟨f, hf⟩ := Option.ne_none_iff_exists'.1 h
  have hfile := tracked_file_some hf
  rw [Disk.file_eq_some, w1.root] at hfile
  cases hfile

section NoConflict

variable (hfree : NoTypeChange ignored w1 w2) {done : List Path}
include hfree

/-- Where a file of the snapshot goes, no file is above. -/
theorem Partly.no_file_above (hpartly : Partly ignored w1 w2 done disk)
    (h : w1.tracked_file ignored p ≠ none) {suffix : Path} (hsuffix : suffix ≠ [])
    (heq : p = q ++ suffix) : disk.file q = none := by
  rw [hpartly.files]
  split_ifs
  · unfold restored
    rw [tracked_apart hsuffix (heq ▸ h)]
    rfl
  · exact (hfree p h).2 q suffix hsuffix heq

/-- And no directory is there. -/
theorem Partly.no_dir (hpartly : Partly ignored w1 w2 done disk)
    (h : w1.tracked_file ignored p ≠ none) : disk.node p ≠ some .dir := by
  intro hdir
  rcases hpartly.dirs p hdir with hdir | ⟨suffix, hsuffix, hbelow⟩
  · exact (hfree p h).1 hdir
  · exact h (tracked_apart hsuffix hbelow)

omit hfree in
theorem Partly.executable_at (hpartly : Partly ignored w1 w2 done disk) {f : File}
    (h : w1.tracked_file ignored p = some f) : disk.executable_at p = w2.executable_at p := by
  unfold Disk.executable_at
  rw [hpartly.files]
  split_ifs
  · unfold restored
    rw [h]
    rfl
  · rfl

/-- A file of the snapshot is written. -/
theorem Partly.write (hpartly : Partly ignored w1 w2 done disk) {f : File}
    (h : w1.tracked_file ignored p = some f) :
    ∃ d, checkout_path (w1.create_snapshot ignored) p disk = (.ok (), d) ∧
      Partly ignored w1 w2 (p :: done) d := by
  have hsome : w1.tracked_file ignored p ≠ none := by
    rw [h]
    exact Option.some_ne_none f
  have hne := tracked_ne_nil hsome
  have hlast : [p.getLast hne] ≠ [] := List.cons_ne_nil _ _
  have hsplit : p = p.dropLast ++ [p.getLast hne] := (List.dropLast_concat_getLast hne).symm
  have hnofile : ∀ q, q <+: p.dropLast → disk.file q = none := by
    rintro q ⟨suffix, hsuffix⟩
    have heq : p = q ++ (suffix ++ [p.getLast hne]) := by
      rw [← List.append_assoc, hsuffix]
      exact hsplit
    exact hpartly.no_file_above hfree hsome (by simp) heq
  obtain ⟨made, hmade⟩ := Disk.create_dir_all_isSome.2 hnofile
  have hnodir : made.node p ≠ some .dir := by
    intro hdir
    rcases (Disk.create_dir_all_dir hmade p).1 hdir with hdir | hpre
    · exact hpartly.no_dir hfree hsome hdir
    · have hlen := hpre.length_le
      have hpos := List.length_pos_iff.2 hne
      rw [List.length_dropLast] at hlen
      omega
  have hparent : made.node p.dropLast = some .dir :=
    (Disk.create_dir_all_dir hmade _).2 (.inr (List.prefix_refl _))
  obtain ⟨d, hwrite⟩ := (Disk.write_isSome f.content).2 ⟨hnodir, hparent⟩
  have hexecutable : made.executable_at p = w2.executable_at p := by
    rw [← hpartly.executable_at h]
    unfold Disk.executable_at
    rw [Disk.create_dir_all_file hmade]
  refine ⟨d, ?_, ?_, ?_⟩
  · unfold checkout_path
    rw [(lookup_snapshot_leaf p f).2 h]
    simp only [hmade, hwrite]
  · intro q
    rw [Disk.write_file hwrite q, hexecutable, Disk.create_dir_all_file hmade, hpartly.files]
    by_cases hq : q = p
    · rw [if_pos hq, hq, if_pos List.mem_cons_self]
      unfold restored
      rw [h]
      rfl
    · rw [if_neg hq]
      simp [hq]
  · intro q hdir
    rcases (Disk.create_dir_all_dir hmade q).1 ((Disk.write_dir hwrite q).1 hdir) with
      hdir | ⟨suffix, hsuffix⟩
    · exact hpartly.dirs q hdir
    · refine .inr ⟨suffix ++ [p.getLast hne], by simp, ?_⟩
      rw [← List.append_assoc, hsuffix, ← hsplit]
      exact hsome

/-- A file that the snapshot does not have is removed. -/
theorem Partly.remove (hpartly : Partly ignored w1 w2 done disk)
    (h : w1.tracked_file ignored p = none) (hfile : w2.file p ≠ none) :
    ∃ d, checkout_path (w1.create_snapshot ignored) p disk = (.ok (), d) ∧
      Partly ignored w1 w2 (p :: done) d := by
  have hlookup : lookup p (w1.create_snapshot ignored) = none := by
    cases hentry : lookup p (w1.create_snapshot ignored) with
    | none => rfl
    | some entry =>
        cases entry with
        | leaf f =>
            rw [(lookup_snapshot_leaf p f).1 hentry] at h
            cases h
        | node children =>
            obtain ⟨-, q, f, hq, hbelow⟩ := (lookup_snapshot_node p).1 ⟨children, hentry⟩
            have hnone := (hfree (p ++ q) (by rw [hbelow]; exact Option.some_ne_none f)).2 p q hq rfl
            exact absurd hnone hfile
  refine ⟨disk.remove_file p, ?_, ?_, ?_⟩
  · unfold checkout_path
    rw [hlookup]
  · intro q
    rw [Disk.remove_file_file, hpartly.files]
    by_cases hq : q = p
    · rw [if_pos hq, hq, if_pos List.mem_cons_self]
      unfold restored
      rw [h]
      rfl
    · rw [if_neg hq]
      simp [hq]
  · intro q hdir
    exact hpartly.dirs q ((Disk.remove_file_dir q).1 hdir)

/-- **Without conflicts every path is restored, but for the executable bit.** -/
theorem checkout_paths_ok {paths : List Path}
    (hpaths : ∀ p ∈ paths, w1.tracked_file ignored p ≠ none ∨ w2.file p ≠ none)
    (hpartly : Partly ignored w1 w2 done disk) :
    ∃ d, checkout_paths (w1.create_snapshot ignored) paths disk = (.ok (), d) ∧
      ∀ p, d.file p = if p ∈ paths ∨ p ∈ done then restored ignored w1 w2 p else w2.file p := by
  induction paths generalizing done disk with
  | nil => exact ⟨disk, rfl, by simpa using hpartly.files⟩
  | cons q rest ih =>
      obtain ⟨d, hstep, hpartly'⟩ : ∃ d,
          checkout_path (w1.create_snapshot ignored) q disk = (.ok (), d) ∧
          Partly ignored w1 w2 (q :: done) d := by
        cases htracked : w1.tracked_file ignored q with
        | some f => exact hpartly.write hfree htracked
        | none =>
            rcases hpaths q List.mem_cons_self with h | h
            · exact absurd htracked h
            · exact hpartly.remove hfree htracked h
      obtain ⟨d', hrest, hfiles⟩ := ih (fun p hp => hpaths p (List.mem_cons_of_mem q hp)) hpartly'
      refine ⟨d', ?_, ?_⟩
      · unfold checkout_paths
        rw [hstep]
        exact hrest
      · intro p
        rw [hfiles p]
        simp only [List.mem_cons, or_assoc, or_left_comm]

end NoConflict

/-! ## 4. The round trip -/

section Law

variable {changes : List Change}
variable (hreports : Reports (w2.create_snapshot ignored) (w1.create_snapshot ignored) changes)
include hreports

/-- A listed path has another file in the snapshot. -/
theorem listed_differs (hp : p ∈ diff_commits changes) :
    w2.tracked_file ignored p ≠ w1.tracked_file ignored p := by
  obtain ⟨change, hchange, rfl⟩ := List.mem_map.1 hp
  obtain ⟨hmem, hblob⟩ := List.mem_filter.1 hchange
  rw [Bool.not_eq_true'] at hblob
  simp only [← file_at_snapshot]
  cases change with
  | Addition q is_tree =>
      cases hblob
      obtain ⟨hpre, hpost⟩ := hreports.addition q hmem
      exact fun heq => hpost (heq ▸ hpre)
  | Deletion q is_tree =>
      cases hblob
      obtain ⟨hpre, hpost⟩ := hreports.deletion q hmem
      exact fun heq => hpre (heq.trans hpost)
  | Modification q is_tree =>
      cases hblob
      exact (hreports.modification q hmem).2.2
  | Rewrite source q is_tree =>
      cases hblob
      obtain ⟨-, ⟨hpre, hpost⟩, -⟩ := hreports.rewrite source q hmem
      exact fun heq => hpost (heq ▸ hpre)

omit hreports in
theorem mem_diff_commits {change : Change} (hmem : change ∈ changes)
    (hblob : change.is_tree = false) : change.location ∈ diff_commits changes := by
  refine List.mem_map.2 ⟨change, List.mem_filter.2 ⟨hmem, ?_⟩, rfl⟩
  rw [hblob]
  rfl

/-- A path that differs is listed, unless it is the old name of a rename. -/
theorem differing_listed (hne : w2.tracked_file ignored p ≠ w1.tracked_file ignored p) :
    p ∈ diff_commits changes ∨
      (w1.tracked_file ignored p = none ∧ ∃ q, .Rewrite p q false ∈ changes) := by
  simp only [← file_at_snapshot] at hne ⊢
  by_cases hpre : file_at (w2.create_snapshot ignored) p = none
  · have hpost : file_at (w1.create_snapshot ignored) p ≠ none :=
      fun hpost => hne (hpre.trans hpost.symm)
    rcases hreports.added p hpre hpost with hmem | ⟨source, hmem⟩
    · exact .inl (mem_diff_commits hmem rfl)
    · exact .inl (mem_diff_commits hmem rfl)
  · by_cases hpost : file_at (w1.create_snapshot ignored) p = none
    · rcases hreports.deleted p hpre hpost with hmem | hrewrite
      · exact .inl (mem_diff_commits hmem rfl)
      · exact .inr ⟨hpost, hrewrite⟩
    · exact .inl (mem_diff_commits (hreports.modified p hpre hpost hne) rfl)

/-- The old name of a rename is not listed. -/
theorem renamed_not_listed (hmem : .Rewrite p q false ∈ changes) : p ∉ diff_commits changes := by
  obtain ⟨⟨hpre, hpost⟩, -, hnodel⟩ := hreports.rewrite p q hmem
  intro hp
  obtain ⟨change, hchange, hloc⟩ := List.mem_map.1 hp
  obtain ⟨hmem', hblob⟩ := List.mem_filter.1 hchange
  rw [Bool.not_eq_true'] at hblob
  cases change with
  | Addition r is_tree =>
      cases hblob
      cases hloc
      exact (hreports.addition _ hmem').2 hpost
  | Deletion r is_tree =>
      cases hblob
      cases hloc
      exact hnodel hmem'
  | Modification r is_tree =>
      cases hblob
      cases hloc
      exact (hreports.modification _ hmem').2.1 hpost
  | Rewrite source r is_tree =>
      cases hblob
      cases hloc
      exact (hreports.rewrite _ _ hmem').2.1.2 hpost

/-- A restore that succeeds had no conflict. -/
theorem no_type_change_of_ok
    (hok : (checkout_paths (w1.create_snapshot ignored) (diff_commits changes) w2).1 = .ok ()) :
    NoTypeChange ignored w1 w2 := by
  intro p hp
  have hlisted : w2.tracked_file ignored p = none → p ∈ diff_commits changes := by
    intro hnone
    rcases differing_listed hreports (p := p) (fun heq => hp (heq ▸ hnone)) with h | ⟨h, -⟩
    · exact h
    · exact absurd h hp
  have hno : ∀ hstuck : Stuck w2 p, w2.file p = none → False := by
    intro hstuck hfile
    refine stuck_fails hp (hlisted ?_) hstuck hok
    unfold Disk.tracked_file
    rw [hfile]
    split <;> rfl
  constructor
  · intro hdir
    refine hno (.inl hdir) ?_
    unfold Disk.file
    rw [hdir]
  · intro q suffix hsuffix heq
    by_contra hfile
    refine hno (.inr ⟨q, suffix, hsuffix, heq, hfile⟩) ?_
    by_contra hp2
    refine hfile (w2.no_file_above hsuffix ?_)
    rw [← heq]
    exact fun hnone => hp2 (Disk.file_eq_none_of_node hnone)

/-- Without a conflict the restore succeeds, and leaves the listed paths restored. -/
theorem restore_listed (hfree : NoTypeChange ignored w1 w2) :
    ∃ d, checkout_paths (w1.create_snapshot ignored) (diff_commits changes) w2 = (.ok (), d) ∧
      ∀ p, d.file p
        = if p ∈ diff_commits changes then restored ignored w1 w2 p else w2.file p := by
  have hpaths : ∀ p ∈ diff_commits changes,
      w1.tracked_file ignored p ≠ none ∨ w2.file p ≠ none := by
    intro p hp
    by_contra hnone
    simp only [not_or, not_not] at hnone
    apply listed_differs hreports hp
    unfold Disk.tracked_file at hnone ⊢
    rw [hnone.2, hnone.1]
    split <;> rfl
  have hstart : Partly ignored w1 w2 [] w2 := ⟨fun p => by simp, fun p hp => .inl hp⟩
  obtain ⟨d, hd, hfiles⟩ := checkout_paths_ok hfree hpaths hstart
  refine ⟨d, hd, fun p => ?_⟩
  rw [hfiles p]
  simp

end Law

theorem tracked_file_congr (h : w1.file p = w2.file p) :
    w1.tracked_file ignored p = w2.tracked_file ignored p := by
  unfold Disk.tracked_file
  rw [h]

theorem restored_eq (hfits : ExecutableFits ignored w1 w2) :
    restored ignored w1 w2 p = w1.tracked_file ignored p := by
  unfold restored
  cases h : w1.tracked_file ignored p with
  | none => rfl
  | some f =>
      rw [Option.map_some, ← hfits p f h]

/-- A path that is not tracked has no file in any snapshot. -/
theorem tracked_file_of_restored (h : d.file p = w1.tracked_file ignored p) :
    d.tracked_file ignored p = w1.tracked_file ignored p := by
  unfold Disk.tracked_file at h ⊢
  split_ifs at h ⊢
  · rfl
  · exact h

/-- A round trip that succeeds has met no rename: its old name would have stayed. -/
theorem no_rewrite_of_round_trip {changes : List Change}
    (hreports : Reports (w2.create_snapshot ignored) (w1.create_snapshot ignored) changes)
    (hround : RoundTrip ignored w1 w2 changes) : NoRewrite changes := by
  obtain ⟨hok, htree⟩ := hround
  obtain ⟨d, hd, hfiles⟩ := restore_listed hreports (no_type_change_of_ok hreports hok)
  rw [hd, create_snapshot_eq_iff] at htree
  intro p q hmem
  obtain ⟨⟨hpre, hpost⟩, -⟩ := hreports.rewrite p q hmem
  rw [file_at_snapshot] at hpre hpost
  have hkept : d.file p = w2.file p := by
    rw [hfiles p, if_neg (renamed_not_listed hreports hmem)]
  apply hpre
  rw [← tracked_file_congr hkept, ← hpost]
  exact htree p

/-- **When the round trip gives the older snapshot again.** -/
theorem round_trip_iff (ignored : Path → Bool) (w1 w2 : Disk) (changes : List Change)
    (hreports : Reports (w2.create_snapshot ignored) (w1.create_snapshot ignored) changes) :
    RoundTrip ignored w1 w2 changes
      ↔ NoTypeChange ignored w1 w2 ∧ NoRewrite changes ∧ ExecutableFits ignored w1 w2 := by
  constructor
  · intro hround
    have hfree := no_type_change_of_ok hreports hround.1
    obtain ⟨d, hd, hfiles⟩ := restore_listed hreports hfree
    have htree := hround.2
    rw [hd, create_snapshot_eq_iff] at htree
    refine ⟨hfree, no_rewrite_of_round_trip hreports hround, ?_⟩
    intro p f hf
    have hfile : d.file p = some f := tracked_file_some ((htree p).trans hf)
    rw [hfiles p] at hfile
    split_ifs at hfile
    · unfold restored at hfile
      rw [hf, Option.map_some, Option.some.injEq] at hfile
      exact (congrArg File.executable hfile).symm
    · unfold Disk.executable_at
      rw [hfile]
      rfl
  · rintro ⟨hfree, hrewrite, hfits⟩
    obtain ⟨d, hd, hfiles⟩ := restore_listed hreports hfree
    unfold RoundTrip
    rw [hd, create_snapshot_eq_iff]
    refine ⟨rfl, fun p => ?_⟩
    by_cases hlisted : p ∈ diff_commits changes
    · apply tracked_file_of_restored
      rw [hfiles p, if_pos hlisted, restored_eq hfits]
    · have hkept : d.file p = w2.file p := by rw [hfiles p, if_neg hlisted]
      rw [tracked_file_congr hkept]
      by_contra hne
      rcases differing_listed hreports hne with h | ⟨-, q, hmem⟩
      · exact hlisted h
      · exact hrewrite p q hmem

end RoundTrip

/-! Worktrees with one file. -/

def one_file (name content : String) : Disk where
  node p := if p = [] then some .dir else if p = [name] then some (.file ⟨content, false⟩) else none
  listing := [[], [name]]
  complete := by
    intro p hp
    by_cases hnil : p = []
    · simp [hnil]
    · by_cases hname : p = [name]
      · simp [hname]
      · simp [hnil, hname] at hp
  root := rfl
  parents := by
    intro p component hp
    have hne : p ++ [component] ≠ [] := by simp
    rw [if_neg hne] at hp
    by_cases hname : p ++ [component] = [name]
    · have hnil : p = [] := by
        have hlen := congrArg List.length hname
        simpa using hlen
      rw [if_pos hnil]
    · rw [if_neg hname] at hp
      exact absurd rfl hp

theorem one_file_tracked {name content : String} (hvisible : hidden [name] = false) (p : Path) :
    (one_file name content).tracked_file (fun _ => false) p
      = if p = [name] then some ⟨content, false⟩ else none := by
  unfold Disk.tracked_file Disk.file one_file
  by_cases hname : p = [name]
  · simp [hname, hvisible]
  · by_cases hnil : p = []
    · simp [hnil]
    · simp [hname, hnil]

/-- What a snapshot of such a worktree holds. -/
theorem one_file_at {name : String} (content : String) (hvisible : hidden [name] = false)
    (p : Path) :
    file_at ((one_file name content).create_snapshot fun _ => false) p
      = if p = [name] then some ⟨content, false⟩ else none := by
  rw [file_at_snapshot, one_file_tracked hvisible]

theorem edit_reported : Reports ((one_file "a" "new").create_snapshot fun _ => false)
    ((one_file "a" "old").create_snapshot fun _ => false) [.Modification ["a"] false] := by
  have hnew := one_file_at "new" (show hidden ["a"] = false by decide)
  have hold := one_file_at "old" (show hidden ["a"] = false by decide)
  constructor <;> simp [hnew, hold]

/-- A file that was edited is taken back. -/
theorem edit_taken_back :
    RoundTrip (fun _ => false) (one_file "a" "old") (one_file "a" "new")
      [.Modification ["a"] false] := by
  refine (round_trip_iff _ _ _ _ edit_reported).2 ⟨?_, ?_, ?_⟩
  · intro p hp
    rw [one_file_tracked (by decide)] at hp
    have hname : p = ["a"] := by
      by_contra hne
      rw [if_neg hne] at hp
      exact hp rfl
    subst hname
    refine ⟨by decide, ?_⟩
    intro q suffix hsuffix heq
    have hnil : q = [] := by
      have hlen := congrArg List.length heq
      have hpos := List.length_pos_iff.2 hsuffix
      rw [List.length_append, List.length_singleton] at hlen
      exact List.length_eq_zero_iff.1 (by omega)
    subst hnil
    rfl
  · intro p q hmem
    simp at hmem
  · intro p f hf
    rw [one_file_tracked (by decide)] at hf
    split_ifs at hf with hname
    cases hf
    subst hname
    rfl

theorem rename_reported : Reports ((one_file "b" "x").create_snapshot fun _ => false)
    ((one_file "a" "x").create_snapshot fun _ => false) [.Rewrite ["b"] ["a"] false] := by
  have ha := one_file_at "x" (show hidden ["a"] = false by decide)
  have hb := one_file_at "x" (show hidden ["b"] = false by decide)
  constructor <;> simp [ha, hb]

/-- The file "a" was renamed to "b": the way back leaves "b". -/
theorem rename_not_taken_back :
    Reports ((one_file "b" "x").create_snapshot fun _ => false)
      ((one_file "a" "x").create_snapshot fun _ => false) [.Rewrite ["b"] ["a"] false] ∧
    ¬ RoundTrip (fun _ => false) (one_file "a" "x") (one_file "b" "x")
      [.Rewrite ["b"] ["a"] false] := by
  refine ⟨rename_reported, fun hround => ?_⟩
  exact no_rewrite_of_round_trip rename_reported hround ["b"] ["a"] (List.mem_singleton_self _)

end Querymt.Snapshot
