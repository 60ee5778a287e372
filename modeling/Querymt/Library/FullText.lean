/-
`FullText.lean` -- a full-text index that keeps nothing but postings.

A row of the index is a list of texts, one for each column. Each text is cut into tokens,
and the index keeps, for every row id, which token stands where in which column. It does
not keep the texts: to take a row out, its texts have to be supplied again, and exactly
what they contain is taken out.

A query is a phrase whose last token may go on: it matches a row if the tokens stand one
after the other in some column.
-/
import Mathlib

set_option autoImplicit false

namespace FullText

abbrev Token := List Char

/-- A token of a row, and where it stands. -/
structure Posting where
  column : ℕ
  position : ℕ
  token : Token
  deriving DecidableEq, Repr

/-- The postings of the tokens of one column. -/
def column_postings (column : ℕ) (tokens : List Token) : List Posting :=
  tokens.zipIdx.map fun t => ⟨column, t.2, t.1⟩

/-- The postings of a row, from the tokens of its columns. -/
def row_postings (columns : List (List Token)) : List Posting :=
  columns.zipIdx.flatMap fun c => column_postings c.2 c.1

/-- The postings of all rows. -/
structure Index where
  entries : List (ℕ × Posting)
  deriving DecidableEq, Repr

namespace Index

def empty : Index := ⟨[]⟩

/-- What is kept for a row id. -/
def row (ix : Index) (rowid : ℕ) : List Posting :=
  (ix.entries.filter fun e => e.1 = rowid).map Prod.snd

def insert (ix : Index) (rowid : ℕ) (postings : List Posting) : Index :=
  ⟨ix.entries ++ postings.map fun p => (rowid, p)⟩

/-- What is supplied is taken out, and no more. -/
def delete (ix : Index) (rowid : ℕ) (postings : List Posting) : Index :=
  ⟨ix.entries.filter fun e => ¬ (e.1 = rowid ∧ e.2 ∈ postings)⟩

variable {ix : Index} {rowid r : ℕ} {ps : List Posting} {p : Posting}

theorem mem_row : p ∈ ix.row r ↔ (r, p) ∈ ix.entries := by
  unfold row
  rw [List.mem_map]
  constructor
  · rintro ⟨⟨r', p'⟩, he, rfl⟩
    obtain ⟨hmem, heq⟩ := List.mem_filter.1 he
    have heq' : r' = r := of_decide_eq_true heq
    rw [← heq']
    exact hmem
  · intro h
    exact ⟨(r, p), List.mem_filter.2 ⟨h, decide_eq_true rfl⟩, rfl⟩

@[simp] theorem mem_row_empty : p ∉ empty.row r := by
  rw [mem_row]
  exact List.not_mem_nil

theorem mem_row_insert :
    p ∈ (ix.insert rowid ps).row r ↔ p ∈ ix.row r ∨ (r = rowid ∧ p ∈ ps) := by
  rw [mem_row, mem_row, insert, List.mem_append, List.mem_map]
  refine or_congr_right ?_
  constructor
  · rintro ⟨p', hp', heq⟩
    obtain ⟨rfl, rfl⟩ := Prod.ext_iff.1 heq
    exact ⟨rfl, hp'⟩
  · rintro ⟨rfl, hp⟩
    exact ⟨p, hp, rfl⟩

/-- Without the texts of a row nothing of it is taken out. -/
theorem delete_nil (ix : Index) (rowid : ℕ) : ix.delete rowid [] = ix := by
  unfold delete
  simp

end Index

/-! ## Queries -/

/-- The tokens stand at a place of a column; the last may be the beginning of what stands
there. -/
def phrase_at (postings : List Posting) (column : ℕ) : ℕ → List Token → Bool
  | _, [] => false
  | position, [token] => postings.any fun p =>
      p.column = column ∧ p.position = position ∧ token <+: p.token
  | position, token :: tokens => (postings.any fun p =>
      p.column = column ∧ p.position = position ∧ p.token = token) &&
        phrase_at postings column (position + 1) tokens

/-- The phrase stands somewhere. -/
def phrase_matches (postings : List Posting) (tokens : List Token) : Bool :=
  postings.any fun p => phrase_at postings p.column p.position tokens

/-- The tokens of all columns. -/
def row_tokens (columns : List (List Token)) : List Token := columns.flatten

variable {columns : List (List Token)} {ps : List Posting} {t : Token}

theorem mem_row_tokens : t ∈ row_tokens columns ↔ ∃ p ∈ row_postings columns, p.token = t := by
  unfold row_tokens row_postings
  rw [List.mem_flatten]
  constructor
  · rintro ⟨tokens, htokens, ht⟩
    obtain ⟨c, hc, rfl⟩ := List.getElem_of_mem htokens
    obtain ⟨k, hk, rfl⟩ := List.getElem_of_mem ht
    refine ⟨⟨c, k, columns[c][k]⟩, List.mem_flatMap.2 ⟨(columns[c], c), ?_, ?_⟩, rfl⟩
    · exact List.mk_mem_zipIdx_iff_getElem?.2 (List.getElem?_eq_getElem hc)
    · exact List.mem_map.2 ⟨(columns[c][k], k),
        List.mk_mem_zipIdx_iff_getElem?.2 (List.getElem?_eq_getElem hk), rfl⟩
  · rintro ⟨p, hp, rfl⟩
    obtain ⟨⟨tokens, c⟩, hc, hp⟩ := List.mem_flatMap.1 hp
    obtain ⟨⟨token, k⟩, hk, rfl⟩ := List.mem_map.1 hp
    refine ⟨tokens, ?_, ?_⟩
    · exact List.mem_of_getElem? (List.mk_mem_zipIdx_iff_getElem?.1 hc)
    · exact List.mem_of_getElem? (List.mk_mem_zipIdx_iff_getElem?.1 hk)

/-- A phrase of one token matches where a token begins with it. -/
theorem phrase_matches_singleton : phrase_matches ps [t] ↔ ∃ p ∈ ps, t <+: p.token := by
  unfold phrase_matches phrase_at
  simp only [List.any_eq_true, decide_eq_true_iff]
  constructor
  · rintro ⟨-, -, p, hp, -, -, hpre⟩
    exact ⟨p, hp, hpre⟩
  · rintro ⟨p, hp, hpre⟩
    exact ⟨p, hp, p, hp, rfl, rfl, hpre⟩

end FullText
