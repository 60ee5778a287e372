/-
`DiffHunks.lean` -- the hunks in which an edit is reported.

Models `build_hunks_from_diff` of `edit_output.rs`. The diff itself comes from
`imara_diff`, as a list of changes, each a range of lines on either side; between the
changes, and around them, the two sides agree line by line. The changes are grouped into
regions with up to three lines of context, and each region is written as a hunk by two
cursors, one on either side.

Context is cut off at the ends of each side, by arithmetic that knows nothing of the
other side. That the two cursors nevertheless stay level rests on the gaps: a gap between
two changes is equally long on both sides, and where it is too short for the context of
both, the changes end up in one region.
-/
import Querymt.Library.Faults
import Querymt.Library.Splices
import Querymt.Library.Strings

set_option autoImplicit false

open Faults Splices Strings

namespace Querymt.Tools

def CONTEXT_LINES : ℕ := 3

/-! ## The code -/

inductive DiffLineKind
  | Context
  | Delete
  | Insert
  deriving DecidableEq, Repr

structure DiffLine where
  kind : DiffLineKind
  text : Str
  /-- The line number in the old file, from 1 on. -/
  old_line : Option ℕ
  new_line : Option ℕ
  deriving DecidableEq, Repr

structure HunkOutput where
  operation : String
  old_start : ℕ
  old_count : ℕ
  new_start : ℕ
  new_count : ℕ
  lines : List DiffLine
  lines_deleted : ℕ
  lines_inserted : ℕ
  deriving DecidableEq, Repr

/-- `Range<usize>`. -/
structure Span where
  start : ℕ
  stop : ℕ
  deriving DecidableEq, Repr

structure ChangeRange where
  old_range : Span
  new_range : Span
  deriving DecidableEq, Repr

structure HunkRegion where
  old_range : Span
  new_range : Span
  changes : List ChangeRange
  deriving DecidableEq, Repr

/-- A range of lines with its context, on a side with so many lines. -/
def around (r : Span) (len : ℕ) : Span :=
  ⟨r.start - CONTEXT_LINES, min (r.stop + CONTEXT_LINES) len⟩

def HunkRegion.of_change (old_len new_len : ℕ) (change : ChangeRange) : HunkRegion where
  old_range := around change.old_range old_len
  new_range := around change.new_range new_len
  changes := [change]

/-- `overlaps_old || overlaps_new`. -/
def HunkRegion.Overlaps (current next : HunkRegion) : Prop :=
  next.old_range.start ≤ current.old_range.stop ∨ next.new_range.start ≤ current.new_range.stop

instance (current next : HunkRegion) : Decidable (current.Overlaps next) :=
  inferInstanceAs (Decidable (_ ∨ _))

/-- The region goes on with the next change. -/
def HunkRegion.merge (current next : HunkRegion) : HunkRegion where
  old_range := ⟨current.old_range.start, max current.old_range.stop next.old_range.stop⟩
  new_range := ⟨current.new_range.start, max current.new_range.stop next.new_range.stop⟩
  changes := current.changes ++ next.changes

/-- The body of the loop of `group_changes_into_regions`. -/
def group_change (old_len new_len : ℕ) (regions : List HunkRegion) (change : ChangeRange) :
    List HunkRegion :=
  let next := HunkRegion.of_change old_len new_len change
  match regions.getLast? with
  | some current =>
      if current.Overlaps next then regions.dropLast ++ [current.merge next] else regions ++ [next]
  | none => regions ++ [next]

def group_changes_into_regions (changes : List ChangeRange) (old_len new_len : ℕ) :
    List HunkRegion :=
  changes.foldl (group_change old_len new_len) []

/-- The local variables of `build_hunk`. -/
structure HunkState where
  lines : List DiffLine
  old_idx : ℕ
  new_idx : ℕ
  deleted : ℕ
  inserted : ℕ

def HunkState.context (s : HunkState) (text : Str) : HunkState :=
  { s with
    lines := s.lines ++ [⟨.Context, text, some (s.old_idx + 1), some (s.new_idx + 1)⟩],
    old_idx := s.old_idx + 1, new_idx := s.new_idx + 1 }

def HunkState.delete (s : HunkState) (text : Str) : HunkState :=
  { s with
    lines := s.lines ++ [⟨.Delete, text, some (s.old_idx + 1), none⟩],
    old_idx := s.old_idx + 1, deleted := s.deleted + 1 }

def HunkState.insert (s : HunkState) (text : Str) : HunkState :=
  { s with
    lines := s.lines ++ [⟨.Insert, text, none, some (s.new_idx + 1)⟩],
    new_idx := s.new_idx + 1, inserted := s.inserted + 1 }

section

variable (orig_lines new_lines : List Str)

/-- `while old_idx < old_stop && new_idx < new_stop`. -/
def push_context (old_stop new_stop : ℕ) (s : HunkState) : Except (Fault Empty) HunkState :=
  if s.old_idx < old_stop ∧ s.new_idx < new_stop then do
    let text ← index orig_lines s.old_idx
    push_context old_stop new_stop (s.context text)
  else .ok s
termination_by old_stop - s.old_idx
decreasing_by simp only [HunkState.context]; omega

/-- `while old_idx < change.old_range.end`. -/
def push_deleted (old_stop : ℕ) (s : HunkState) : Except (Fault Empty) HunkState :=
  if s.old_idx < old_stop then do
    let text ← index orig_lines s.old_idx
    push_deleted old_stop (s.delete text)
  else .ok s
termination_by old_stop - s.old_idx
decreasing_by simp only [HunkState.delete]; omega

/-- `while new_idx < change.new_range.end`. -/
def push_inserted (new_stop : ℕ) (s : HunkState) : Except (Fault Empty) HunkState :=
  if s.new_idx < new_stop then do
    let text ← index new_lines s.new_idx
    push_inserted new_stop (s.insert text)
  else .ok s
termination_by new_stop - s.new_idx
decreasing_by simp only [HunkState.insert]; omega

/-- The loop over the changes of a region. -/
def push_changes : List ChangeRange → HunkState → Except (Fault Empty) HunkState
  | [], s => .ok s
  | change :: changes, s => do
      let s ← push_context orig_lines change.old_range.start change.new_range.start s
      let s ← push_deleted orig_lines change.old_range.stop s
      let s ← push_inserted new_lines change.new_range.stop s
      push_changes changes s

def context_old_count (lines : List DiffLine) : ℕ :=
  lines.countP fun l => l.kind = .Context ∨ l.kind = .Delete

def context_new_count (lines : List DiffLine) : ℕ :=
  lines.countP fun l => l.kind = .Context ∨ l.kind = .Insert

/-- The hunk as it is returned. -/
def HunkState.output (s : HunkState) (region : HunkRegion) : HunkOutput where
  operation := "replace"
  old_start := region.old_range.start + 1
  old_count := context_old_count s.lines
  new_start := region.new_range.start + 1
  new_count := context_new_count s.lines
  lines := s.lines
  lines_deleted := s.deleted
  lines_inserted := s.inserted

def build_hunk (region : HunkRegion) : Except (Fault Empty) HunkOutput := do
  let s : HunkState := ⟨[], region.old_range.start, region.new_range.start, 0, 0⟩
  let s ← push_changes orig_lines new_lines region.changes s
  let s ← push_context orig_lines region.old_range.stop region.new_range.stop s
  return s.output region

/-- `.map(|region| build_hunk(..)).collect()`. -/
def build_hunks : List HunkRegion → Except (Fault Empty) (List HunkOutput)
  | [] => .ok []
  | region :: regions => do
      let hunk ← build_hunk orig_lines new_lines region
      let hunks ← build_hunks regions
      return hunk :: hunks

end

/-- `diff_changes` is what the diff library computes. -/
def build_hunks_from_diff (diff_changes : Str → Str → List ChangeRange) (original new : Str) :
    Except (Fault Empty) (List HunkOutput) :=
  let orig_lines := lines original
  let new_lines := lines new
  let changes := diff_changes original new
  let regions := group_changes_into_regions changes orig_lines.length new_lines.length
  build_hunks orig_lines new_lines regions

/-! ## What a diff is -/

section

variable (orig new : List Str)

/-- The `k` lines from `o` on, and those from `n` on, are there, and are the same. -/
structure Level (o n k : ℕ) : Prop where
  old_le : o + k ≤ orig.length
  new_le : n + k ≤ new.length
  same : (orig.drop o).take k = (new.drop n).take k

/-- The range lies in the lines of its side. -/
structure Span.Within (r : Span) (len : ℕ) : Prop where
  start_le_stop : r.start ≤ r.stop
  stop_le : r.stop ≤ len

/-- Changes one after the other, from a position on either side to another, with level
gaps before them. -/
inductive Chain : ℕ → ℕ → List ChangeRange → ℕ → ℕ → Prop
  | nil (o n : ℕ) : Chain o n [] o n
  | cons {o n k o' n' : ℕ} {c : ChangeRange} {cs : List ChangeRange} :
      Level orig new o n k → c.old_range.start = o + k → c.new_range.start = n + k →
      c.old_range.Within orig.length → c.new_range.Within new.length →
      Chain c.old_range.stop c.new_range.stop cs o' n' → Chain o n (c :: cs) o' n'

/-- The changes turn the old lines into the new ones: around and between them, nothing
differs. -/
def IsDiff (changes : List ChangeRange) : Prop :=
  ∃ o n, Chain orig new 0 0 changes o n ∧ orig.drop o = new.drop n

end

/-! ## What a hunk says -/

/-- Lines with their numbers: so many, from the one with number `start` on. -/
def numbered (ls : List Str) (start count : ℕ) : List (Option ℕ × Str) :=
  ((ls.drop (start - 1)).take count).mapIdx fun i text => (some (start + i), text)

/-- The lines of the old file that a hunk shows, with the numbers it gives them. -/
def old_side (lines : List DiffLine) : List (Option ℕ × Str) :=
  (lines.filter fun l => l.kind = .Context ∨ l.kind = .Delete).map fun l => (l.old_line, l.text)

def new_side (lines : List DiffLine) : List (Option ℕ × Str) :=
  (lines.filter fun l => l.kind = .Context ∨ l.kind = .Insert).map fun l => (l.new_line, l.text)

/-- Each side of the hunk is the part of its file that the hunk's header names. -/
structure HunkOutput.Faithful (h : HunkOutput) (orig new : List Str) : Prop where
  old_pos : 0 < h.old_start
  new_pos : 0 < h.new_start
  old_le : h.old_start - 1 + h.old_count ≤ orig.length
  new_le : h.new_start - 1 + h.new_count ≤ new.length
  old_side : old_side h.lines = numbered orig h.old_start h.old_count
  new_side : new_side h.lines = numbered new h.new_start h.new_count

/-- The second hunk lies behind the first, on both sides. -/
structure HunkOutput.Before (h h' : HunkOutput) : Prop where
  old : h.old_start + h.old_count < h'.old_start
  new : h.new_start + h.new_count < h'.new_start

/-- What the hunk does to the old lines. -/
def HunkOutput.edit (h : HunkOutput) : Edit Str where
  start := h.old_start - 1
  stop := h.old_start - 1 + h.old_count
  new := (new_side h.lines).map Prod.snd

def Span.length (r : Span) : ℕ := r.stop - r.start

/-! ## The two cursors -/

theorem index_of_getElem? {α ε : Type} {data : List α} {i : ℕ} {a : α} (h : data[i]? = some a) :
    @index ε _ data i = .ok a := by
  unfold index
  rw [h]

theorem numbered_succ {ls : List Str} {o k : ℕ} {text : Str} (h : ls[o + k]? = some text) :
    numbered ls (o + 1) (k + 1) = numbered ls (o + 1) k ++ [(some (o + k + 1), text)] := by
  have hdrop : (ls.drop o)[k]? = some text := by rw [List.getElem?_drop, h]
  have hlen : ((ls.drop o).take k).length = k := by
    have := (List.getElem?_eq_some_iff.1 hdrop).1
    exact List.length_take_of_le (by omega)
  unfold numbered
  rw [Nat.add_sub_cancel, List.take_add_one, hdrop, Option.toList_some, List.mapIdx_append, hlen,
    List.mapIdx_singleton]
  congr 4
  omega

theorem length_numbered {ls : List Str} {o k : ℕ} (h : o + k ≤ ls.length) :
    (numbered ls (o + 1) k).length = k := by
  unfold numbered
  rw [List.length_mapIdx, List.length_take, List.length_drop]
  omega

theorem map_snd_numbered (ls : List Str) (o k : ℕ) :
    (numbered ls (o + 1) k).map Prod.snd = (ls.drop o).take k := by
  refine List.ext_getElem? fun j => ?_
  unfold numbered
  rw [List.getElem?_map, List.getElem?_mapIdx, Option.map_map, Nat.add_sub_cancel]
  exact Option.map_id' ..

theorem length_old_side (ls : List DiffLine) : (old_side ls).length = context_old_count ls := by
  unfold old_side context_old_count
  rw [List.length_map, List.countP_eq_length_filter]

theorem length_new_side (ls : List DiffLine) : (new_side ls).length = context_new_count ls := by
  unfold new_side context_new_count
  rw [List.length_map, List.countP_eq_length_filter]

section

variable {orig new : List Str} {o₀ n₀ o n d i : ℕ} {s : HunkState}

/-- Started from `o₀` and `n₀`, the cursors are at `o` and `n`, with so many lines
deleted and inserted, and what was passed on either side is written down. -/
structure Reached (orig new : List Str) (o₀ n₀ o n d i : ℕ) (s : HunkState) : Prop where
  old_idx : s.old_idx = o
  new_idx : s.new_idx = n
  deleted : s.deleted = d
  inserted : s.inserted = i
  old_le : o₀ ≤ o
  new_le : n₀ ≤ n
  old_side : old_side s.lines = numbered orig (o₀ + 1) (o - o₀)
  new_side : new_side s.lines = numbered new (n₀ + 1) (n - n₀)

theorem Level.zero (ho : o ≤ orig.length) (hn : n ≤ new.length) : Level orig new o n 0 :=
  ⟨ho, hn, rfl⟩

/-- A level gap starts with a line that both sides have. -/
theorem Level.head {k : ℕ} (h : Level orig new o n (k + 1)) :
    (∃ text, orig[o]? = some text ∧ new[n]? = some text) ∧ Level orig new (o + 1) (n + 1) k := by
  obtain ⟨ho, hn, hsame⟩ := h
  have horig := List.drop_eq_getElem_cons (l := orig) (i := o) (by omega)
  have hnew := List.drop_eq_getElem_cons (l := new) (i := n) (by omega)
  rw [horig, hnew, List.take_succ_cons, List.take_succ_cons] at hsame
  obtain ⟨hhead, htail⟩ := List.cons.inj hsame
  refine ⟨⟨orig[o], List.getElem?_eq_getElem _, ?_⟩, by omega, by omega, htail⟩
  rw [hhead]
  exact List.getElem?_eq_getElem _

theorem numbered_next {ls : List Str} {a b : ℕ} {text : Str} (hab : a ≤ b)
    (h : ls[b]? = some text) :
    numbered ls (a + 1) (b + 1 - a) = numbered ls (a + 1) (b - a) ++ [(some (b + 1), text)] := by
  have hb : a + (b - a) = b := Nat.add_sub_cancel' hab
  have hsucc := numbered_succ (o := a) (k := b - a) (by rwa [hb])
  rwa [hb, ← Nat.sub_add_comm hab] at hsucc

theorem Reached.context {text : Str} (h : Reached orig new o₀ n₀ o n d i s)
    (ho : orig[o]? = some text) (hn : new[n]? = some text) :
    Reached orig new o₀ n₀ (o + 1) (n + 1) d i (s.context text) where
  old_idx := by rw [HunkState.context, h.old_idx]
  new_idx := by rw [HunkState.context, h.new_idx]
  deleted := h.deleted
  inserted := h.inserted
  old_le := by have := h.old_le; omega
  new_le := by have := h.new_le; omega
  old_side := by
    rw [numbered_next h.old_le ho, ← h.old_side]
    simp [HunkState.context, Tools.old_side, h.old_idx]
  new_side := by
    rw [numbered_next h.new_le hn, ← h.new_side]
    simp [HunkState.context, Tools.new_side, h.new_idx]

theorem Reached.delete {text : Str} (h : Reached orig new o₀ n₀ o n d i s)
    (ho : orig[o]? = some text) : Reached orig new o₀ n₀ (o + 1) n (d + 1) i (s.delete text) where
  old_idx := by rw [HunkState.delete, h.old_idx]
  new_idx := h.new_idx
  deleted := by rw [HunkState.delete, h.deleted]
  inserted := h.inserted
  old_le := by have := h.old_le; omega
  new_le := h.new_le
  old_side := by
    rw [numbered_next h.old_le ho, ← h.old_side]
    simp [HunkState.delete, Tools.old_side, h.old_idx]
  new_side := by
    rw [← h.new_side]
    simp [HunkState.delete, Tools.new_side]

theorem Reached.insert {text : Str} (h : Reached orig new o₀ n₀ o n d i s)
    (hn : new[n]? = some text) : Reached orig new o₀ n₀ o (n + 1) d (i + 1) (s.insert text) where
  old_idx := h.old_idx
  new_idx := by rw [HunkState.insert, h.new_idx]
  deleted := h.deleted
  inserted := by rw [HunkState.insert, h.inserted]
  old_le := h.old_le
  new_le := by have := h.new_le; omega
  old_side := by
    rw [← h.old_side]
    simp [HunkState.insert, Tools.old_side]
  new_side := by
    rw [numbered_next h.new_le hn, ← h.new_side]
    simp [HunkState.insert, Tools.new_side, h.new_idx]

/-- Through a level gap both cursors move alike, and every line is context. -/
theorem push_context_reached {k : ℕ} (h : Reached orig new o₀ n₀ o n d i s)
    (hlevel : Level orig new o n k) :
    ∃ s', push_context orig (o + k) (n + k) s = .ok s' ∧
      Reached orig new o₀ n₀ (o + k) (n + k) d i s' := by
  induction k generalizing o n s with
  | zero =>
      refine ⟨s, ?_, h⟩
      rw [push_context, if_neg]
      rw [h.old_idx]
      omega
  | succ k ih =>
      obtain ⟨⟨text, ho, hn⟩, hrest⟩ := hlevel.head
      obtain ⟨s', hpush, hs'⟩ := ih (h.context ho hn) hrest
      have ho' : o + 1 + k = o + (k + 1) := by omega
      have hn' : n + 1 + k = n + (k + 1) := by omega
      rw [ho', hn'] at hpush hs'
      refine ⟨s', ?_, hs'⟩
      rw [push_context, if_pos (by rw [h.old_idx, h.new_idx]; omega), h.old_idx,
        index_of_getElem? ho, ok_bind, hpush]

theorem push_deleted_reached {k : ℕ} (h : Reached orig new o₀ n₀ o n d i s)
    (hle : o + k ≤ orig.length) :
    ∃ s', push_deleted orig (o + k) s = .ok s' ∧
      Reached orig new o₀ n₀ (o + k) n (d + k) i s' := by
  induction k generalizing o d s with
  | zero =>
      refine ⟨s, ?_, h⟩
      rw [push_deleted, if_neg]
      rw [h.old_idx]
      omega
  | succ k ih =>
      have ho : orig[o]? = some orig[o] := List.getElem?_eq_getElem (by omega)
      obtain ⟨s', hpush, hs'⟩ := ih (h.delete ho) (by omega)
      have ho' : o + 1 + k = o + (k + 1) := by omega
      have hd' : d + 1 + k = d + (k + 1) := by omega
      rw [ho'] at hpush
      rw [ho', hd'] at hs'
      refine ⟨s', ?_, hs'⟩
      rw [push_deleted, if_pos (by rw [h.old_idx]; omega), h.old_idx, index_of_getElem? ho,
        ok_bind, hpush]

theorem push_inserted_reached {k : ℕ} (h : Reached orig new o₀ n₀ o n d i s)
    (hle : n + k ≤ new.length) :
    ∃ s', push_inserted new (n + k) s = .ok s' ∧
      Reached orig new o₀ n₀ o (n + k) d (i + k) s' := by
  induction k generalizing n i s with
  | zero =>
      refine ⟨s, ?_, h⟩
      rw [push_inserted, if_neg]
      rw [h.new_idx]
      omega
  | succ k ih =>
      have hn : new[n]? = some new[n] := List.getElem?_eq_getElem (by omega)
      obtain ⟨s', hpush, hs'⟩ := ih (h.insert hn) (by omega)
      have hn' : n + 1 + k = n + (k + 1) := by omega
      have hi' : i + 1 + k = i + (k + 1) := by omega
      rw [hn'] at hpush
      rw [hn', hi'] at hs'
      refine ⟨s', ?_, hs'⟩
      rw [push_inserted, if_pos (by rw [h.new_idx]; omega), h.new_idx, index_of_getElem? hn,
        ok_bind, hpush]

/-- Along a chain of changes the cursors stay within their sides. -/
theorem push_changes_reached {cs : List ChangeRange} {o' n' : ℕ}
    (h : Reached orig new o₀ n₀ o n d i s) (hchain : Chain orig new o n cs o' n') :
    ∃ s', push_changes orig new cs s = .ok s' ∧
      Reached orig new o₀ n₀ o' n' (d + (cs.map fun c => c.old_range.length).sum)
        (i + (cs.map fun c => c.new_range.length).sum) s' := by
  induction hchain generalizing d i s with
  | nil o n => exact ⟨s, rfl, h⟩
  | @cons o n k o' n' c cs hlevel hos hns hold hnew _ ih =>
      obtain ⟨s₁, hpush₁, h₁⟩ := push_context_reached h hlevel
      have hostop : o + k + c.old_range.length = c.old_range.stop := by
        rw [← hos]
        exact Nat.add_sub_cancel' hold.start_le_stop
      have hnstop : n + k + c.new_range.length = c.new_range.stop := by
        rw [← hns]
        exact Nat.add_sub_cancel' hnew.start_le_stop
      obtain ⟨s₂, hpush₂, h₂⟩ := push_deleted_reached h₁ (k := c.old_range.length)
        (by rw [hostop]; exact hold.stop_le)
      obtain ⟨s₃, hpush₃, h₃⟩ := push_inserted_reached h₂ (k := c.new_range.length)
        (by rw [hnstop]; exact hnew.stop_le)
      rw [hostop] at hpush₂ h₃
      rw [hnstop] at hpush₃ h₃
      obtain ⟨s₄, hpush₄, h₄⟩ := ih h₃
      refine ⟨s₄, ?_, ?_⟩
      · rw [push_changes, hos, hns, hpush₁, ok_bind, hpush₂, ok_bind, hpush₃, ok_bind, hpush₄]
      · simpa only [List.map_cons, List.sum_cons, Nat.add_assoc] using h₄

end

/-! ## One region -/

section

variable {orig new : List Str} {o n o' n' k : ℕ} {cs cs' : List ChangeRange} {r : HunkRegion}

theorem Chain.append {o'' n'' : ℕ} (h : Chain orig new o n cs o' n')
    (h' : Chain orig new o' n' cs' o'' n'') : Chain orig new o n (cs ++ cs') o'' n'' := by
  induction h with
  | nil => exact h'
  | cons hlevel hos hns hold hnew _ ih => exact .cons hlevel hos hns hold hnew (ih h')

/-- The region holds a chain of changes, and level context behind it. -/
structure Framed (orig new : List Str) (r : HunkRegion) : Prop where
  chain : ∃ o n k, Chain orig new r.old_range.start r.new_range.start r.changes o n ∧
    Level orig new o n k ∧ r.old_range.stop = o + k ∧ r.new_range.stop = n + k
  old : r.old_range.Within orig.length
  new : r.new_range.Within new.length

/-- What is said of a hunk that was built for a region. -/
structure HunkOf (orig new : List Str) (r : HunkRegion) (h : HunkOutput) : Prop where
  faithful : h.Faithful orig new
  old_start : h.old_start = r.old_range.start + 1
  old_stop : h.old_start - 1 + h.old_count = r.old_range.stop
  new_start : h.new_start = r.new_range.start + 1
  new_stop : h.new_start - 1 + h.new_count = r.new_range.stop
  new_texts : (new_side h.lines).map Prod.snd =
    (new.drop r.new_range.start).take r.new_range.length
  deleted : h.lines_deleted = (r.changes.map fun c => c.old_range.length).sum
  inserted : h.lines_inserted = (r.changes.map fun c => c.new_range.length).sum

theorem build_hunk_framed (hr : Framed orig new r) :
    ∃ h, build_hunk orig new r = .ok h ∧ HunkOf orig new r h := by
  obtain ⟨⟨o, n, k, hchain, hlevel, hold, hnew⟩, hwo, hwn⟩ := hr
  have hstart : Reached orig new r.old_range.start r.new_range.start r.old_range.start
      r.new_range.start 0 0 ⟨[], r.old_range.start, r.new_range.start, 0, 0⟩ := by
    refine ⟨rfl, rfl, rfl, rfl, Nat.le_refl _, Nat.le_refl _, ?_, ?_⟩
    · rw [Nat.sub_self]
      simp [numbered, old_side]
    · rw [Nat.sub_self]
      simp [numbered, new_side]
  obtain ⟨s₁, hpush₁, h₁⟩ := push_changes_reached hstart hchain
  obtain ⟨s, hpush, h⟩ := push_context_reached h₁ hlevel
  rw [← hold, ← hnew] at hpush h
  have hocount : context_old_count s.lines = r.old_range.length := by
    rw [← length_old_side, h.old_side]
    exact length_numbered (by rw [Nat.add_sub_cancel' hwo.start_le_stop]; exact hwo.stop_le)
  have hncount : context_new_count s.lines = r.new_range.length := by
    rw [← length_new_side, h.new_side]
    exact length_numbered (by rw [Nat.add_sub_cancel' hwn.start_le_stop]; exact hwn.stop_le)
  have hostop : r.old_range.start + r.old_range.length = r.old_range.stop :=
    Nat.add_sub_cancel' hwo.start_le_stop
  have hnstop : r.new_range.start + r.new_range.length = r.new_range.stop :=
    Nat.add_sub_cancel' hwn.start_le_stop
  refine ⟨s.output r, ?_, ?_⟩
  · unfold build_hunk
    dsimp only
    rw [hpush₁, ok_bind, hpush, ok_bind]
    rfl
  · unfold HunkState.output
    refine ⟨⟨Nat.succ_pos _, Nat.succ_pos _, ?_, ?_, ?_, ?_⟩, rfl, ?_, rfl, ?_, ?_, ?_, ?_⟩
    · rw [Nat.add_sub_cancel, hocount, hostop]
      exact hwo.stop_le
    · rw [Nat.add_sub_cancel, hncount, hnstop]
      exact hwn.stop_le
    · rw [h.old_side, hocount]
      rfl
    · rw [h.new_side, hncount]
      rfl
    · rw [Nat.add_sub_cancel, hocount, hostop]
    · rw [Nat.add_sub_cancel, hncount, hnstop]
    · rw [h.new_side, map_snd_numbered]
      rfl
    · rw [h.deleted, Nat.zero_add]
    · rw [h.inserted, Nat.zero_add]

/-! ## Grouping -/

/-- The regions that come of an open one and the changes that follow. -/
def regions_from (old_len new_len : ℕ) : HunkRegion → List ChangeRange → List HunkRegion
  | current, [] => [current]
  | current, c :: cs =>
      let next := HunkRegion.of_change old_len new_len c
      if current.Overlaps next then regions_from old_len new_len (current.merge next) cs
      else current :: regions_from old_len new_len next cs

theorem foldl_group_change (old_len new_len : ℕ) (done : List HunkRegion) (current : HunkRegion)
    (cs : List ChangeRange) :
    cs.foldl (group_change old_len new_len) (done ++ [current]) =
      done ++ regions_from old_len new_len current cs := by
  induction cs generalizing done current with
  | nil => rfl
  | cons c cs ih =>
      have hstep : group_change old_len new_len (done ++ [current]) c =
          if current.Overlaps (HunkRegion.of_change old_len new_len c) then
            done ++ [current.merge (HunkRegion.of_change old_len new_len c)]
          else done ++ [current] ++ [HunkRegion.of_change old_len new_len c] := by
        simp only [group_change, List.getLast?_concat, List.dropLast_concat]
      rw [List.foldl_cons, hstep, regions_from]
      split
      · exact ih _ _
      · rw [ih, List.append_assoc]
        rfl

theorem group_changes_cons (c : ChangeRange) (cs : List ChangeRange) (old_len new_len : ℕ) :
    group_changes_into_regions (c :: cs) old_len new_len =
      regions_from old_len new_len (HunkRegion.of_change old_len new_len c) cs :=
  foldl_group_change old_len new_len [] _ cs

/-- A region that may go on: its changes reach to `o` and `n`, and its context, on each
side, as far as there are lines. -/
structure Growing (orig new : List Str) (r : HunkRegion) (o n : ℕ) : Prop where
  chain : Chain orig new r.old_range.start r.new_range.start r.changes o n
  old_stop : r.old_range.stop = min (o + CONTEXT_LINES) orig.length
  new_stop : r.new_range.stop = min (n + CONTEXT_LINES) new.length
  old_le : o ≤ orig.length
  new_le : n ≤ new.length
  old_start : r.old_range.start ≤ o
  new_start : r.new_range.start ≤ n

variable {c : ChangeRange}

theorem Level.front {j : ℕ} (h : Level orig new o n k) (hj : j ≤ k) : Level orig new o n j := by
  obtain ⟨ho, hn, hsame⟩ := h
  refine ⟨by omega, by omega, ?_⟩
  have := congrArg (List.take j) hsame
  rwa [List.take_take, List.take_take, Nat.min_eq_left hj] at this

theorem Level.rest {j : ℕ} (h : Level orig new o n k) (hj : j ≤ k) :
    Level orig new (o + j) (n + j) (k - j) := by
  obtain ⟨ho, hn, hsame⟩ := h
  refine ⟨by omega, by omega, ?_⟩
  have := congrArg (List.drop j) hsame
  rwa [List.drop_take, List.drop_take, List.drop_drop, List.drop_drop] at this

/-- The change lies a level gap of `k` lines behind `o` and `n`. -/
structure NextChange (orig new : List Str) (o n k : ℕ) (c : ChangeRange) : Prop where
  level : Level orig new o n k
  old_start : c.old_range.start = o + k
  new_start : c.new_range.start = n + k
  old : c.old_range.Within orig.length
  new : c.new_range.Within new.length

/-- A region that starts anew has level context before its change: at the start of the
files both sides are cut off alike, and elsewhere nothing is cut off. -/
theorem growing_of_change (h : NextChange orig new o n k c)
    (hfirst : (o = 0 ∧ n = 0) ∨ CONTEXT_LINES ≤ k) :
    Growing orig new (HunkRegion.of_change orig.length new.length c) c.old_range.stop
      c.new_range.stop ∧
    (HunkRegion.of_change orig.length new.length c).old_range.start = o + (k - CONTEXT_LINES) ∧
    (HunkRegion.of_change orig.length new.length c).new_range.start = n + (k - CONTEXT_LINES) := by
  have hostart : (HunkRegion.of_change orig.length new.length c).old_range.start =
      o + (k - CONTEXT_LINES) := by
    simp only [HunkRegion.of_change, around, h.old_start]
    omega
  have hnstart : (HunkRegion.of_change orig.length new.length c).new_range.start =
      n + (k - CONTEXT_LINES) := by
    simp only [HunkRegion.of_change, around, h.new_start]
    omega
  have hos := h.old_start
  have hns := h.new_start
  have hole := h.old.start_le_stop
  have hnle := h.new.start_le_stop
  refine ⟨⟨?_, rfl, rfl, h.old.stop_le, h.new.stop_le, by omega, by omega⟩, hostart, hnstart⟩
  rw [hostart, hnstart]
  exact .cons (h.level.rest (Nat.sub_le _ _)) (by omega) (by omega) h.old h.new (.nil _ _)

theorem Growing.merge (h : Growing orig new r o n) (hc : NextChange orig new o n k c) :
    Growing orig new (r.merge (HunkRegion.of_change orig.length new.length c)) c.old_range.stop
      c.new_range.stop := by
  have hos := hc.old_start
  have hns := hc.new_start
  have hole := hc.old.start_le_stop
  have hnle := hc.new.start_le_stop
  have hros := h.old_start
  have hrns := h.new_start
  refine ⟨?_, ?_, ?_, hc.old.stop_le, hc.new.stop_le, ?_, ?_⟩
  · exact h.chain.append (.cons hc.level hc.old_start hc.new_start hc.old hc.new (.nil _ _))
  · simp only [HunkRegion.merge, HunkRegion.of_change, around, h.old_stop]
    omega
  · simp only [HunkRegion.merge, HunkRegion.of_change, around, h.new_stop]
    omega
  · simp only [HunkRegion.merge]
    omega
  · simp only [HunkRegion.merge]
    omega

/-- Where the next change starts a region of its own, the gap has room for the context of
both, on both sides. -/
theorem Growing.gap (h : Growing orig new r o n) (hc : NextChange orig new o n k c)
    (hfar : ¬ r.Overlaps (HunkRegion.of_change orig.length new.length c)) :
    CONTEXT_LINES + CONTEXT_LINES < k := by
  have hole := hc.level.old_le
  have hold : ¬ (HunkRegion.of_change orig.length new.length c).old_range.start ≤
      r.old_range.stop := fun hle => hfar (.inl hle)
  simp only [HunkRegion.of_change, around, hc.old_start, h.old_stop] at hold
  omega

/-- The context behind a region is level if what follows is. -/
theorem Growing.framed (h : Growing orig new r o n) (hlevel : Level orig new o n k)
    (hold : r.old_range.stop = o + k) (hnew : r.new_range.stop = n + k) : Framed orig new r := by
  have hos := h.old_start
  have hns := h.new_start
  refine ⟨⟨o, n, k, h.chain, hlevel, hold, hnew⟩, ⟨by omega, ?_⟩, ⟨by omega, ?_⟩⟩
  · rw [hold]
    exact hlevel.old_le
  · rw [hnew]
    exact hlevel.new_le

/-- Regions behind `p` and `q`, each a level gap behind the one before, and level lines
behind the last. -/
inductive Follow (orig new : List Str) : ℕ → ℕ → List HunkRegion → Prop
  | nil {p q : ℕ} : orig.drop p = new.drop q → Follow orig new p q []
  | cons {p q k : ℕ} {r : HunkRegion} {rs : List HunkRegion} :
      0 < k → Level orig new p q k → r.old_range.start = p + k → r.new_range.start = q + k →
      Framed orig new r → Follow orig new r.old_range.stop r.new_range.stop rs →
      Follow orig new p q (r :: rs)

theorem regions_from_follow (h : Growing orig new r o n) (hchain : Chain orig new o n cs o' n')
    (hend : orig.drop o' = new.drop n') :
    ∃ r' rs, regions_from orig.length new.length r cs = r' :: rs ∧
      r'.old_range.start = r.old_range.start ∧ r'.new_range.start = r.new_range.start ∧
      Framed orig new r' ∧ Follow orig new r'.old_range.stop r'.new_range.stop rs ∧
      (r' :: rs).flatMap HunkRegion.changes = r.changes ++ cs := by
  induction hchain generalizing r with
  | nil o n =>
      -- behind the last change both sides have equally many lines left
      have hlen := congrArg List.length hend
      rw [List.length_drop, List.length_drop] at hlen
      have hole := h.old_le
      have hnle := h.new_le
      have hlevel : Level orig new o n (min CONTEXT_LINES (orig.length - o)) :=
        ⟨by omega, by omega, by rw [hend]⟩
      have hold : r.old_range.stop = o + min CONTEXT_LINES (orig.length - o) := by
        rw [h.old_stop]
        omega
      have hnew : r.new_range.stop = n + min CONTEXT_LINES (orig.length - o) := by
        rw [h.new_stop]
        omega
      refine ⟨r, [], rfl, rfl, rfl, h.framed hlevel hold hnew, .nil ?_, by simp⟩
      rw [hold, hnew, ← List.drop_drop, ← List.drop_drop, hend]
  | @cons o n k o' n' c cs hlevel hos hns hold hnew _ ih =>
      have hc : NextChange orig new o n k c := ⟨hlevel, hos, hns, hold, hnew⟩
      rw [regions_from]
      split
      · obtain ⟨r', rs, heq, hstart, hstart', hframed, hfollow, hchanges⟩ := ih (h.merge hc) hend
        refine ⟨r', rs, heq, hstart, hstart', hframed, hfollow, ?_⟩
        rw [hchanges]
        simp [HunkRegion.merge, HunkRegion.of_change]
      · next hfar =>
        have hgap := h.gap hc hfar
        have hole := hlevel.old_le
        have hnle := hlevel.new_le
        have hostop : r.old_range.stop = o + CONTEXT_LINES := by
          rw [h.old_stop]
          omega
        have hnstop : r.new_range.stop = n + CONTEXT_LINES := by
          rw [h.new_stop]
          omega
        obtain ⟨hgrow, hstart, hstart'⟩ := growing_of_change hc (.inr (by omega))
        obtain ⟨r', rs, heq, hrs, hrs', hframed, hfollow, hchanges⟩ := ih hgrow hend
        refine ⟨r, r' :: rs, by rw [heq], rfl, rfl,
          h.framed (hlevel.front (by omega)) hostop hnstop, ?_, ?_⟩
        · -- what is left of the gap between the two contexts
          have hbetween : Level orig new r.old_range.stop r.new_range.stop
              (k - CONTEXT_LINES - CONTEXT_LINES) := by
            rw [hostop, hnstop]
            exact (hlevel.rest (j := CONTEXT_LINES) (by omega)).front (Nat.sub_le _ _)
          refine .cons ?_ hbetween ?_ ?_ hframed hfollow
          · omega
          · rw [hrs, hstart, hostop]
            omega
          · rw [hrs', hstart', hnstop]
            omega
        · rw [List.flatMap_cons, hchanges]
          simp [HunkRegion.of_change]

end

/-! ## All hunks together -/

section

variable {orig new : List Str} {p q k : ℕ} {cs : List ChangeRange} {hs : List HunkOutput}
  {h : HunkOutput} {r : HunkRegion}

/-- The hunks, from `p` and `q` on, show what the changes do: each is faithful, they lie
one behind the other, and carried out they turn the old lines into the new ones. -/
structure Reported (orig new : List Str) (p q : ℕ) (changes : List ChangeRange)
    (hunks : List HunkOutput) : Prop where
  faithful : ∀ h ∈ hunks, h.Faithful orig new
  ordered : hunks.Pairwise HunkOutput.Before
  rewritten : weave (hunks.map HunkOutput.edit) p (orig.drop p) = new.drop q
  deleted : (hunks.map HunkOutput.lines_deleted).sum =
    (changes.map fun c => c.old_range.length).sum
  inserted : (hunks.map HunkOutput.lines_inserted).sum =
    (changes.map fun c => c.new_range.length).sum

/-- The hunks lie behind `p` and `q`. -/
def Behind (p q : ℕ) (hunks : List HunkOutput) : Prop :=
  ∀ h ∈ hunks, p + 1 < h.old_start ∧ q + 1 < h.new_start

/-- One hunk more in front of the others, behind a level gap. -/
theorem Reported.cons (hrest : Reported orig new r.old_range.stop r.new_range.stop cs hs)
    (hbehind : Behind r.old_range.stop r.new_range.stop hs) (hr : Framed orig new r)
    (hof : HunkOf orig new r h) (hlevel : Level orig new p q k)
    (hold : r.old_range.start = p + k) (hnew : r.new_range.start = q + k) :
    Reported orig new p q (r.changes ++ cs) (h :: hs) := by
  have hostop := hof.old_stop
  have hnstop := hof.new_stop
  have hopos := hof.faithful.old_pos
  have hnpos := hof.faithful.new_pos
  have hostart : h.edit.start = r.old_range.start := by
    rw [HunkOutput.edit, hof.old_start, Nat.add_sub_cancel]
  have hestop : h.edit.stop = r.old_range.stop := hof.old_stop
  have hwo := hr.old.start_le_stop
  have hwn := hr.new.start_le_stop
  refine ⟨List.forall_mem_cons.2 ⟨hof.faithful, hrest.faithful⟩,
    List.pairwise_cons.2 ⟨fun x hx => ?_, hrest.ordered⟩, ?_, ?_, ?_⟩
  · obtain ⟨hxo, hxn⟩ := hbehind x hx
    exact ⟨by omega, by omega⟩
  · have hlowest : ∀ e ∈ hs.map HunkOutput.edit, h.edit.stop < e.start := by
      intro e he
      obtain ⟨x, hx, rfl⟩ := List.mem_map.1 he
      have hxo := (hbehind x hx).1
      rw [hestop]
      simp only [HunkOutput.edit]
      omega
    have hlen : h.edit.stop ≤ p + (orig.drop p).length := by
      have := hr.old.stop_le
      rw [hestop, List.length_drop]
      omega
    have hfront : (orig.drop p).take (h.edit.start - p) = (new.drop q).take k := by
      rw [hostart, hold, Nat.add_sub_cancel_left, hlevel.same]
    have hback : (orig.drop p).drop (h.edit.stop - p) = orig.drop r.old_range.stop := by
      rw [List.drop_drop, hestop]
      congr 1
      omega
    have hmiddle : (new.drop q).drop k = (new.drop r.new_range.start).take r.new_range.length ++
        new.drop r.new_range.stop := by
      have hsum : r.new_range.start + r.new_range.length = r.new_range.stop :=
        Nat.add_sub_cancel' hwn
      rw [List.drop_drop, ← hnew, ← hsum, ← List.drop_drop, List.take_append_drop]
    rw [List.map_cons, weave_cons hlowest (by rw [hostart, hestop]; exact hwo)
      (by rw [hostart, hold]; omega) hlen, hfront, hback, hestop, hrest.rewritten]
    simp only [HunkOutput.edit, hof.new_texts]
    rw [← hmiddle, List.take_append_drop]
  · rw [List.map_cons, List.sum_cons, List.map_append, List.sum_append, hof.deleted, hrest.deleted]
  · rw [List.map_cons, List.sum_cons, List.map_append, List.sum_append, hof.inserted,
      hrest.inserted]

theorem reported_nil (hend : orig.drop p = new.drop q) : Reported orig new p q [] [] :=
  ⟨by simp, .nil, by rw [List.map_nil, weave, kept_nil, hend]; rfl, rfl, rfl⟩

theorem build_hunks_cons {rs : List HunkRegion} (hr : build_hunk orig new r = .ok h)
    (hrs : build_hunks orig new rs = .ok hs) :
    build_hunks orig new (r :: rs) = .ok (h :: hs) := by
  rw [build_hunks, hr, ok_bind, hrs]
  rfl

/-- Every region is written without a fault, and behind what comes before. -/
theorem build_hunks_follow {rs : List HunkRegion} (hfollow : Follow orig new p q rs) :
    ∃ hunks, build_hunks orig new rs = .ok hunks ∧
      Reported orig new p q (rs.flatMap HunkRegion.changes) hunks ∧ Behind p q hunks := by
  induction hfollow with
  | nil hend => exact ⟨[], rfl, reported_nil hend, by simp [Behind]⟩
  | @cons p q k r rs hk hlevel hold hnew hframed _ ih =>
      obtain ⟨h, hbuild, hof⟩ := build_hunk_framed hframed
      obtain ⟨hs, hbuilds, hrest, hbehind⟩ := ih
      have hwo := hframed.old.start_le_stop
      have hwn := hframed.new.start_le_stop
      refine ⟨h :: hs, build_hunks_cons hbuild hbuilds,
        hrest.cons hbehind hframed hof hlevel hold hnew, ?_⟩
      rintro x hx
      obtain rfl | hx := List.mem_cons.1 hx
      · rw [hof.old_start, hof.new_start]
        omega
      · obtain ⟨hxo, hxn⟩ := hbehind x hx
        omega

end

/-- Whatever diff the library returns, the hunks are built without a fault; each shows the
lines of its two ranges; they are disjoint and in order on both sides; carried out, they
turn the old lines into the new; and they count the changed lines. -/
theorem hunks_report_the_diff (diff_changes : Str → Str → List ChangeRange) (original new : Str)
    (hdiff : IsDiff (lines original) (lines new) (diff_changes original new)) :
    ∃ hunks, build_hunks_from_diff diff_changes original new = .ok hunks ∧
      (∀ h ∈ hunks, h.Faithful (lines original) (lines new)) ∧
      hunks.Pairwise HunkOutput.Before ∧
      substitute (hunks.map HunkOutput.edit) (lines original) = lines new ∧
      (hunks.map HunkOutput.lines_deleted).sum =
        ((diff_changes original new).map fun c => c.old_range.length).sum ∧
      (hunks.map HunkOutput.lines_inserted).sum =
        ((diff_changes original new).map fun c => c.new_range.length).sum := by
  unfold build_hunks_from_diff
  dsimp only
  generalize diff_changes original new = changes at hdiff ⊢
  generalize lines original = orig at hdiff ⊢
  generalize lines new = new at hdiff ⊢
  have hreported : ∃ hunks, build_hunks orig new
      (group_changes_into_regions changes orig.length new.length) = .ok hunks ∧
      Reported orig new 0 0 changes hunks := by
    obtain ⟨o, n, hchain, hend⟩ := hdiff
    cases hchain with
    | nil => exact ⟨[], rfl, reported_nil hend⟩
    | @cons _ _ k _ _ c cs hlevel hos hns hold hnew hchain =>
        -- the first region starts at the start of the files or leaves all of its context room
        obtain ⟨hgrow, hstart, hstart'⟩ :=
          growing_of_change ⟨hlevel, hos, hns, hold, hnew⟩ (.inl ⟨rfl, rfl⟩)
        obtain ⟨r, rs, heq, hrs, hrs', hframed, hfollow, hchanges⟩ :=
          regions_from_follow hgrow hchain hend
        obtain ⟨h, hbuild, hof⟩ := build_hunk_framed hframed
        obtain ⟨hs, hbuilds, hrest, hbehind⟩ := build_hunks_follow hfollow
        rw [group_changes_cons, heq]
        refine ⟨h :: hs, build_hunks_cons hbuild hbuilds, ?_⟩
        have hall := hrest.cons hbehind hframed hof (hlevel.front (Nat.sub_le k CONTEXT_LINES))
          (hrs.trans hstart) (hrs'.trans hstart')
        rwa [← List.flatMap_cons, hchanges] at hall
  obtain ⟨hunks, hbuild, hreport⟩ := hreported
  exact ⟨hunks, hbuild, hreport.faithful, hreport.ordered, hreport.rewritten, hreport.deleted,
    hreport.inserted⟩

/-- The diff of two texts that differ in their second line. -/
def second_line_changed : Str → Str → List ChangeRange := fun _ _ => [⟨⟨1, 2⟩, ⟨1, 2⟩⟩]

theorem second_line_reported :
    ∃ hunks, build_hunks_from_diff second_line_changed "a\nb\nc\n".toList "a\nx\nc\n".toList =
        .ok hunks ∧
      (∀ h ∈ hunks, h.Faithful (lines "a\nb\nc\n".toList) (lines "a\nx\nc\n".toList)) ∧
      hunks.Pairwise HunkOutput.Before ∧
      substitute (hunks.map HunkOutput.edit) (lines "a\nb\nc\n".toList) =
        lines "a\nx\nc\n".toList ∧
      (hunks.map HunkOutput.lines_deleted).sum = 1 ∧
      (hunks.map HunkOutput.lines_inserted).sum = 1 := by
  have hdiff : IsDiff (lines "a\nb\nc\n".toList) (lines "a\nx\nc\n".toList)
      (second_line_changed "a\nb\nc\n".toList "a\nx\nc\n".toList) :=
    ⟨2, 2, .cons (k := 1) ⟨by decide, by decide, by decide⟩ rfl rfl ⟨by decide, by decide⟩
      ⟨by decide, by decide⟩ (.nil _ _), by decide⟩
  exact hunks_report_the_diff second_line_changed _ _ hdiff

end Querymt.Tools
