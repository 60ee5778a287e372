/-
`Tables.lean` -- tables with an integer primary key.

A table is a list of rows in the order of their keys. A new row gets the key after
the largest one, so the order of the keys is the order of insertion; deleting keeps
the order. This is all that the stores of this development need of a relational
table: reading by key order, appending, deleting by a predicate, and cutting at a
row.
-/
import Mathlib

set_option autoImplicit false

namespace Tables

variable {α : Type}

/-- A table with an integer primary key, rows in key order. -/
@[ext] structure Table (α : Type) where
  rows : List (ℕ × α)
  sorted : (rows.map Prod.fst).Pairwise (· < ·)

namespace Table

def empty : Table α := ⟨[], List.Pairwise.nil⟩

/-- The key after the largest one. -/
def next_key (t : Table α) : ℕ := (t.rows.getLast?.map fun r => r.1 + 1).getD 1

theorem lt_next_key (t : Table α) {r : ℕ × α} (hr : r ∈ t.rows) : r.1 < t.next_key := by
  obtain ⟨rows, hsorted⟩ := t
  unfold next_key
  rcases List.eq_nil_or_concat rows with rfl | ⟨init, last, rfl⟩
  · cases hr
  · simp only [List.concat_eq_append] at hr hsorted ⊢
    rw [List.map_append, List.pairwise_append] at hsorted
    rw [List.getLast?_concat]
    rcases List.mem_append.1 hr with hr | hr
    · have hlt := hsorted.2.2 r.1 (List.mem_map_of_mem hr) last.1 (by simp)
      simp only [Option.map_some, Option.getD_some]
      omega
    · rw [List.mem_singleton.1 hr]
      simp

/-- Insert a row under the next key. -/
def insert (t : Table α) (a : α) : Table α where
  rows := t.rows ++ [(t.next_key, a)]
  sorted := by
    rw [List.map_append, List.pairwise_append]
    refine ⟨t.sorted, by simp, ?_⟩
    intro k hk k' hk'
    obtain ⟨r, hr, rfl⟩ := List.mem_map.1 hk
    rw [List.map_singleton, List.mem_singleton] at hk'
    rw [hk']
    exact t.lt_next_key hr

/-- Keep the rows that satisfy `p`. -/
def filter (t : Table α) (p : ℕ × α → Bool) : Table α where
  rows := t.rows.filter p
  sorted := t.sorted.sublist (List.filter_sublist.map Prod.fst)

/-- Update every row in place. -/
def map (t : Table α) (f : α → α) : Table α where
  rows := t.rows.map fun r => (r.1, f r.2)
  sorted := by
    rw [List.map_map]
    exact t.sorted

@[simp] theorem rows_insert (t : Table α) (a : α) :
    (t.insert a).rows = t.rows ++ [(t.next_key, a)] := rfl

@[simp] theorem rows_filter (t : Table α) (p : ℕ × α → Bool) :
    (t.filter p).rows = t.rows.filter p := rfl

@[simp] theorem rows_map (t : Table α) (f : α → α) :
    (t.map f).rows = t.rows.map fun r => (r.1, f r.2) := rfl

@[simp] theorem next_key_insert (t : Table α) (a : α) :
    (t.insert a).next_key = t.next_key + 1 := by
  show (((t.rows ++ [(t.next_key, a)]).getLast?.map fun r => r.1 + 1).getD 1) = _
  rw [List.getLast?_concat]
  rfl

/-- Taking the last row out again. -/
theorem filter_insert (t : Table α) (a : α) :
    (t.insert a).filter (fun r => decide (r.1 ≠ t.next_key)) = t := by
  apply Table.ext
  rw [rows_filter, rows_insert, List.filter_append]
  have hlast : [(t.next_key, a)].filter (fun r => decide (r.1 ≠ t.next_key)) = [] := by simp
  rw [hlast, List.append_nil, List.filter_eq_self]
  intro r hr
  have hlt := t.lt_next_key hr
  rw [decide_eq_true_eq]
  omega

/-- Two rows with one key are the same row. -/
theorem row_unique (t : Table α) {r r' : ℕ × α} (hr : r ∈ t.rows) (hr' : r' ∈ t.rows)
    (h : r.1 = r'.1) : r = r' := by
  have hnodup : (t.rows.map Prod.fst).Nodup := t.sorted.imp fun hlt => ne_of_lt hlt
  exact List.inj_on_of_nodup_map hnodup hr hr' h

end Table

/-- The list up to and including the first element that satisfies `p`; all of it when there
is none. -/
def through {β : Type} (p : β → Bool) : List β → List β
  | [] => []
  | b :: rest => if p b then [b] else b :: through p rest

theorem through_append {β : Type} {p : β → Bool} {before after : List β} {b : β}
    (hbefore : ∀ c ∈ before, p c = false) (hb : p b = true) :
    through p (before ++ b :: after) = before ++ [b] := by
  induction before with
  | nil =>
      rw [List.nil_append, through, if_pos hb]
      rfl
  | cons c rest ih =>
      have hc := hbefore c List.mem_cons_self
      rw [List.cons_append, through, if_neg (by simp [hc]),
        ih fun d hd => hbefore d (List.mem_cons_of_mem c hd)]
      rfl

theorem map_through {β γ : Type} (f : β → γ) (p : γ → Bool) (l : List β) :
    through p (l.map f) = (through (fun b => p (f b)) l).map f := by
  induction l with
  | nil => rfl
  | cons b rest ih =>
      rw [List.map_cons, through, through, ih]
      split <;> rfl

/-- The rows up to and including the one with the key `k`. -/
def up_to (k : ℕ) (rows : List (ℕ × α)) : List (ℕ × α) := through (fun r => decide (r.1 = k)) rows

/-- Among rows in key order, the rows up to a key that occurs are those with a key no
larger. -/
theorem up_to_eq_filter {k : ℕ} {rows : List (ℕ × α)}
    (hsorted : (rows.map Prod.fst).Pairwise (· < ·)) (hk : ∃ r ∈ rows, r.1 = k) :
    up_to k rows = rows.filter fun r => decide (r.1 ≤ k) := by
  induction rows with
  | nil =>
      obtain ⟨r, hr, -⟩ := hk
      cases hr
  | cons r rest ih =>
      rw [List.map_cons, List.pairwise_cons] at hsorted
      have hlater : ∀ r' ∈ rest, r.1 < r'.1 := fun r' hr' =>
        hsorted.1 r'.1 (List.mem_map_of_mem hr')
      unfold up_to at ih ⊢
      rw [through]
      by_cases hhead : r.1 = k
      · have hnone : rest.filter (fun r => decide (r.1 ≤ k)) = [] := by
          rw [List.filter_eq_nil_iff]
          intro r' hr'
          have := hlater r' hr'
          simp only [decide_eq_true_eq]
          omega
        rw [if_pos (decide_eq_true hhead), List.filter_cons_of_pos (by simp [hhead]), hnone]
      · obtain ⟨r', hr', hkey⟩ := hk
        have hmem : r' ∈ rest := by
          rcases List.mem_cons.1 hr' with rfl | hmem
          · exact absurd hkey hhead
          · exact hmem
        have hlt := hlater r' hmem
        rw [if_neg (by simp [hhead]), List.filter_cons_of_pos (by simp; omega),
          ih hsorted.2 ⟨r', hmem, hkey⟩]

/-! ## Reading in another order

`ORDER BY` a column is a stable sort: rows that compare equal stay in key order. -/

section OrderBy

variable {β : Type} {r : β → β → Prop} [DecidableRel r] [IsTrans β r]

theorem filter_orderedInsert (p : β → Bool) (b : β) {l : List β} (hl : l.Pairwise r) :
    (l.orderedInsert r b).filter p =
      if p b then (l.filter p).orderedInsert r b else l.filter p := by
  induction l with
  | nil =>
      rw [List.orderedInsert_nil, List.filter_singleton]
      cases p b <;> rfl
  | cons c rest ih =>
      rw [List.pairwise_cons] at hl
      by_cases hbc : r b c
      · -- the new element goes first, and stays first among those that are kept
        rw [List.orderedInsert_cons, if_pos hbc, List.filter_cons]
        have hfirst : ∀ d ∈ (c :: rest).filter p, r b d := by
          intro d hd
          rcases List.mem_cons.1 (List.mem_of_mem_filter hd) with rfl | hd
          · exact hbc
          · exact IsTrans.trans b c d hbc (hl.1 d hd)
        cases hkept : (c :: rest).filter p with
        | nil => rfl
        | cons d more =>
            rw [List.orderedInsert_cons, if_pos (hfirst d (hkept ▸ List.mem_cons_self))]
      · rw [List.orderedInsert_cons, if_neg hbc, List.filter_cons, ih hl.2, List.filter_cons]
        cases p b with
        | false => rfl
        | true =>
            cases p c with
            | false => rfl
            | true =>
                show c :: (rest.filter p).orderedInsert r b = (c :: rest.filter p).orderedInsert r b
                rw [List.orderedInsert_cons, if_neg hbc]

/-- Deleting rows and reading in order commute. -/
theorem filter_insertionSort [Std.Total r] (p : β → Bool) (l : List β) :
    (l.insertionSort r).filter p = (l.filter p).insertionSort r := by
  induction l with
  | nil => rfl
  | cons b rest ih =>
      rw [List.insertionSort_cons, filter_orderedInsert p b (List.pairwise_insertionSort r rest),
        ih, List.filter_cons]
      cases p b <;> rfl

/-- Rows in a stable order: those that compare equal keep the order `s` they came in. -/
theorem pairwise_orderedInsert_stable [Std.Total r] {s : β → β → Prop} {b : β} {l : List β}
    (hb : ∀ c ∈ l, s b c) (hl : l.Pairwise fun c d => r c d ∧ (r d c → s c d)) :
    (l.orderedInsert r b).Pairwise fun c d => r c d ∧ (r d c → s c d) := by
  induction l with
  | nil => exact List.pairwise_singleton _ _
  | cons c rest ih =>
      have hl' := List.pairwise_cons.1 hl
      rw [List.orderedInsert_cons]
      by_cases hbc : r b c
      · rw [if_pos hbc, List.pairwise_cons]
        refine ⟨?_, hl⟩
        intro d hd
        refine ⟨?_, fun _ => hb d hd⟩
        rcases List.mem_cons.1 hd with rfl | hd
        · exact hbc
        · exact IsTrans.trans b c d hbc (hl'.1 d hd).1
      · rw [if_neg hbc, List.pairwise_cons]
        refine ⟨?_, ih (fun d hd => hb d (List.mem_cons_of_mem c hd)) hl'.2⟩
        intro d hd
        rcases (List.mem_orderedInsert r).1 hd with rfl | hd
        · exact ⟨(Std.Total.total c d).resolve_right hbc, fun h => absurd h hbc⟩
        · exact hl'.1 d hd

theorem pairwise_insertionSort_stable [Std.Total r] {s : β → β → Prop} {l : List β}
    (hl : l.Pairwise s) : (l.insertionSort r).Pairwise fun c d => r c d ∧ (r d c → s c d) := by
  induction l with
  | nil => exact List.Pairwise.nil
  | cons b rest ih =>
      rw [List.pairwise_cons] at hl
      rw [List.insertionSort_cons]
      apply pairwise_orderedInsert_stable
      · exact fun c hc => hl.1 c ((List.mem_insertionSort r).1 hc)
      · exact ih hl.2

/-! A row that is inserted later comes after the rows that compare equal to it: reading
in order puts it in by the strict relation `s`. -/

variable {s : β → β → Prop} [DecidableRel s]

/-- An earlier and a later row go in in either order. -/
theorem orderedInsert_comm [Std.Total r] (hs : ∀ c d, s c d ↔ ¬ r d c) (a b : β) (l : List β) :
    (l.orderedInsert s b).orderedInsert r a = (l.orderedInsert r a).orderedInsert s b := by
  have hnot : ∀ {c d}, r c d → ¬ s d c := fun h h' => (hs _ _).1 h' h
  induction l with
  | nil =>
      rw [List.orderedInsert_nil, List.orderedInsert_nil]
      by_cases hab : r a b
      · rw [List.orderedInsert_cons_of_le r [] hab, List.orderedInsert_of_not_le s [] (hnot hab)]
        rfl
      · rw [List.orderedInsert_of_not_le r [] hab,
          List.orderedInsert_cons_of_le s [] ((hs b a).2 hab)]
        rfl
  | cons c rest ih =>
      by_cases hbc : s b c
      · rw [List.orderedInsert_cons_of_le s rest hbc]
        by_cases hac : r a c
        · rw [List.orderedInsert_cons_of_le r rest hac]
          by_cases hab : r a b
          · rw [List.orderedInsert_cons_of_le r _ hab, List.orderedInsert_of_not_le s _ (hnot hab),
              List.orderedInsert_cons_of_le s rest hbc]
          · rw [List.orderedInsert_of_not_le r _ hab, List.orderedInsert_cons_of_le r rest hac,
              List.orderedInsert_cons_of_le s _ ((hs b a).2 hab)]
        · -- `b` is in front of `c`, and `c` in front of `a`
          have hab : ¬ r a b := fun h =>
            hac (IsTrans.trans a b c h ((Std.Total.total c b).resolve_left ((hs b c).1 hbc)))
          rw [List.orderedInsert_of_not_le r _ hab, List.orderedInsert_of_not_le r rest hac,
            List.orderedInsert_cons_of_le s _ hbc]
      · have hcb : r c b := by
          by_contra h
          exact hbc ((hs b c).2 h)
        rw [List.orderedInsert_of_not_le s rest hbc]
        by_cases hac : r a c
        · rw [List.orderedInsert_cons_of_le r _ hac, List.orderedInsert_cons_of_le r rest hac,
            List.orderedInsert_of_not_le s _ (hnot (IsTrans.trans a c b hac hcb)),
            List.orderedInsert_of_not_le s rest hbc]
        · rw [List.orderedInsert_of_not_le r _ hac, List.orderedInsert_of_not_le r rest hac,
            List.orderedInsert_of_not_le s _ hbc, ih]

/-- **Inserting and reading in order**: a new row goes into the ordered rows. -/
theorem insertionSort_concat [Std.Total r] (hs : ∀ c d, s c d ↔ ¬ r d c) (l : List β) (b : β) :
    (l ++ [b]).insertionSort r = (l.insertionSort r).orderedInsert s b := by
  induction l with
  | nil => rfl
  | cons a rest ih =>
      rw [List.cons_append, List.insertionSort_cons, ih, orderedInsert_comm hs,
        List.insertionSort_cons]

omit [IsTrans β r] in
/-- Rows that come in order, and after all that are there, are read last. -/
theorem insertionSort_append [Std.Total r] {l l' : List β} (hl : ∀ a ∈ l, ∀ b ∈ l', r a b)
    (hl' : l'.Pairwise r) : (l ++ l').insertionSort r = l.insertionSort r ++ l' := by
  induction l with
  | nil => exact hl'.insertionSort_eq
  | cons a rest ih =>
      have hrest : ∀ c ∈ rest, ∀ b ∈ l', r c b := fun c hc => hl c (List.mem_cons_of_mem a hc)
      rw [List.cons_append, List.insertionSort_cons, ih hrest, List.insertionSort_cons]
      -- `a` finds its place before the new rows
      have hfirst : ∀ b ∈ l', r a b := hl a List.mem_cons_self
      induction rest.insertionSort r with
      | nil =>
          rcases l' with _ | ⟨b, l'⟩
          · rfl
          · exact List.orderedInsert_cons_of_le r l' (hfirst b List.mem_cons_self)
      | cons c sorted ihs =>
          rw [List.cons_append, List.orderedInsert_cons, List.orderedInsert_cons]
          by_cases hac : r a c
          · rw [if_pos hac, if_pos hac]
            rfl
          · rw [if_neg hac, if_neg hac, ihs]
            rfl

end OrderBy

/-- Rows are determined by a column without repetitions. -/
theorem map_inj_of_column {β γ : Type} {f : β → γ} {l l' : List β}
    (hinj : ∀ b ∈ l, ∀ b' ∈ l', f b = f b' → b = b') (h : l.map f = l'.map f) : l = l' := by
  induction l generalizing l' with
  | nil => exact (List.map_eq_nil_iff.1 h.symm).symm
  | cons b rest ih =>
      cases l' with
      | nil => cases h
      | cons b' rest' =>
          rw [List.map_cons, List.map_cons, List.cons.injEq] at h
          rw [hinj b List.mem_cons_self b' List.mem_cons_self h.1,
            ih (fun c hc c' hc' => hinj c (List.mem_cons_of_mem b hc) c'
              (List.mem_cons_of_mem b' hc')) h.2]

/-- The elements before the first that satisfies `q` are those that satisfy `p`, exactly when
`p` says of each element whether it is among them. -/
theorem filter_eq_takeWhile_iff {β : Type} {l : List β} (hl : l.Nodup) (p q : β → Bool) :
    l.filter p = l.takeWhile q ↔ ∀ b ∈ l, p b = true ↔ b ∈ l.takeWhile q := by
  constructor
  · intro heq b hb
    rw [← heq, List.mem_filter]
    exact ⟨fun hp => ⟨hb, hp⟩, fun h => h.2⟩
  · intro hiff
    have hsplit := List.takeWhile_append_dropWhile (p := q) (l := l)
    have hdisjoint : ∀ b ∈ l.dropWhile q, b ∉ l.takeWhile q := by
      rw [← hsplit, List.nodup_append] at hl
      exact fun b hb hb' => hl.2.2 b hb' b hb rfl
    have hmem : ∀ b ∈ l.takeWhile q ++ l.dropWhile q, b ∈ l := fun b hb => hsplit ▸ hb
    have hkept : (l.takeWhile q).filter p = l.takeWhile q := by
      rw [List.filter_eq_self]
      exact fun b hb => (hiff b (hmem b (List.mem_append_left _ hb))).2 hb
    have hdropped : (l.dropWhile q).filter p = [] := by
      rw [List.filter_eq_nil_iff]
      exact fun b hb hp =>
        hdisjoint b hb ((hiff b (hmem b (List.mem_append_right _ hb))).1 hp)
    calc l.filter p = (l.takeWhile q ++ l.dropWhile q).filter p := by rw [hsplit]
      _ = l.takeWhile q := by rw [List.filter_append, hkept, hdropped, List.append_nil]

/-! ## Queries -/

/-- The order in which a query comes by its rows. -/
structure RowOrder (α : Type) where
  arrange : List α → List α
  perm : ∀ l, (arrange l).Perm l

section

variable (order : RowOrder α) (le : α → α → Prop) [DecidableRel le]

/-- `ORDER BY`: rows that the order does not tell apart come in any order. -/
def order_by (l : List α) : List α := (order.arrange l).insertionSort le

theorem perm_order_by (l : List α) : (order_by order le l).Perm l :=
  (List.perm_insertionSort le _).trans (order.perm l)

theorem pairwise_order_by [Std.Total le] [IsTrans α le] (l : List α) :
    (order_by order le l).Pairwise le :=
  List.pairwise_insertionSort le _

end

section

variable {β κ : Type} [DecidableEq κ] {key : β → κ} {l s : List β}

/-- `WHERE key IN (SELECT key … LIMIT n)`: the first rows of the sorted table, by their keys. -/
theorem perm_filter_take (hkeys : (l.map key).Nodup) (hperm : s.Perm l) (n : ℕ) :
    (l.filter fun b => decide (key b ∈ (s.take n).map key)).Perm (s.take n) ∧
      (l.filter fun b => !decide (key b ∈ (s.take n).map key)).Perm (s.drop n) := by
  have hs : (s.map key).Nodup := (hperm.map key).nodup_iff.2 hkeys
  rw [← List.take_append_drop n s, List.map_append, List.nodup_append] at hs
  -- in the sorted table itself the keys of the first rows are theirs alone
  have hfront : (s.filter fun b => decide (key b ∈ (s.take n).map key)) = s.take n := by
    conv_lhs => rw [← List.take_append_drop n s, List.filter_append]
    have htake : ((s.take n).filter fun b => decide (key b ∈
        ((s.take n ++ s.drop n).take n).map key)) = s.take n := by
      rw [List.filter_eq_self]
      intro b hb
      rw [List.take_append_drop]
      exact decide_eq_true (List.mem_map_of_mem hb)
    have hdrop : ((s.drop n).filter fun b => decide (key b ∈
        ((s.take n ++ s.drop n).take n).map key)) = [] := by
      rw [List.filter_eq_nil_iff]
      intro b hb
      rw [List.take_append_drop, decide_eq_true_eq]
      intro hmem
      exact hs.2.2 _ hmem _ (List.mem_map_of_mem hb) rfl
    rw [htake, hdrop, List.append_nil]
  have hback : (s.filter fun b => !decide (key b ∈ (s.take n).map key)) = s.drop n := by
    conv_lhs => rw [← List.take_append_drop n s, List.filter_append]
    have htake : ((s.take n).filter fun b => !decide (key b ∈
        ((s.take n ++ s.drop n).take n).map key)) = [] := by
      rw [List.filter_eq_nil_iff]
      intro b hb
      rw [List.take_append_drop, decide_eq_true (List.mem_map_of_mem hb)]
      simp
    have hdrop : ((s.drop n).filter fun b => !decide (key b ∈
        ((s.take n ++ s.drop n).take n).map key)) = s.drop n := by
      rw [List.filter_eq_self]
      intro b hb
      rw [List.take_append_drop, Bool.not_eq_true', decide_eq_false_iff_not]
      intro hmem
      exact hs.2.2 _ hmem _ (List.mem_map_of_mem hb) rfl
    rw [htake, hdrop, List.nil_append]
  refine ⟨?_, ?_⟩
  · rw [← hfront]
    convert (hperm.symm.filter _) using 3
    rw [hfront]
  · rw [← hback]
    convert (hperm.symm.filter _) using 3

end

end Tables
