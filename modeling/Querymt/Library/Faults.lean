/-
`Faults.lean` -- code that reads a buffer and may fail or panic.

A computation ends with a value, with an error that it reports, or with a panic: an
index or a range outside of the buffer. `Safe x post` says that `x` does not panic and
that its value, if it has one, satisfies `post`; a reported error is always safe. The
rules below take such code apart statement by statement, so that what was checked
before a read is at hand where the read has to be in range.

The last section is about reading a buffer that was put together from parts.
-/
import Mathlib

set_option autoImplicit false

namespace Faults

variable {ε α β : Type}

/-- How a computation ends without a value. -/
inductive Fault (ε : Type)
  | Panic
  | Error (e : ε)
  deriving DecidableEq, Repr

/-! ## The statements -/

/-- `data[i]`. -/
def index (data : List α) (i : ℕ) : Except (Fault ε) α :=
  match data[i]? with
  | some b => .ok b
  | none => .error .Panic

/-- `data[a..b]`. -/
def slice (data : List α) (a b : ℕ) : Except (Fault ε) (List α) :=
  if a ≤ b ∧ b ≤ data.length then .ok ((data.drop a).take (b - a)) else .error .Panic

/-- `if refused { return Err(e) }`. -/
def reject (refused : Prop) [Decidable refused] (e : ε) : Except (Fault ε) Unit :=
  if refused then .error (.Error e) else .ok ()

/-- `result?`. -/
def fallible (x : Except ε α) : Except (Fault ε) α := x.mapError .Error

/-- `bytes.try_into::<[_; n]>()`. -/
def to_array (n : ℕ) (bs : List α) (e : ε) : Except (Fault ε) {l : List α // l.length = n} :=
  if h : bs.length = n then .ok ⟨bs, h⟩ else .error (.Error e)

/-- `a - b` of unsigned integers. -/
def checked_sub (a b : ℕ) : Except (Fault ε) ℕ := if b ≤ a then .ok (a - b) else .error .Panic

/-- `option.unwrap()`. -/
def unwrap (o : Option α) : Except (Fault ε) α :=
  match o with
  | some a => .ok a
  | none => .error .Panic

/-- A loop that appends what its body finds to a list. -/
def collect {ι : Type} (body : ι → Except ε (List α)) : List ι → Except ε (List α)
  | [] => .ok []
  | i :: is => do
      let found ← body i
      let others ← collect body is
      return found ++ others

/-! ## Sequences of statements -/

@[simp] theorem ok_bind (a : α) (f : α → Except ε β) : (Except.ok a >>= f) = f a := rfl

@[simp] theorem error_bind (e : ε) (f : α → Except ε β) :
    ((Except.error e : Except ε α) >>= f) = .error e := rfl

/-- Where a sequence ends with a value, each statement does. -/
theorem bind_eq_ok {x : Except ε α} {f : α → Except ε β} {b : β} :
    x >>= f = .ok b ↔ ∃ a, x = .ok a ∧ f a = .ok b := by
  constructor
  · intro h
    rcases x with e | a
    · cases h
    · exact ⟨a, rfl, h⟩
  · rintro ⟨a, rfl, h⟩
    exact h

theorem map_eq_ok {β : Type} {x : Except ε α} {f : α → β} {b : β} :
    x.map f = .ok b ↔ ∃ a, x = .ok a ∧ f a = b := by
  rcases x with e | a
  · simp [Except.map]
  · simp [Except.map]

/-- Another text for the error leaves the values alone. -/
@[simp] theorem mapError_eq_ok {ε' : Type} {x : Except ε α} {f : ε → ε'} {a : α} :
    x.mapError f = .ok a ↔ x = .ok a := by
  rcases x with e | b
  · constructor
    · intro h
      cases h
    · intro h
      cases h
  · rw [Except.mapError, Except.ok.injEq, Except.ok.injEq]

section

variable {ι κ : Type} {body : ι → Except ε (List α)} {is : List ι} {found : List α}

theorem collect_eq_ok : collect body is = .ok found ↔
    ∃ parts, List.Forall₂ (fun i part => body i = .ok part) is parts ∧ found = parts.flatten := by
  induction is generalizing found with
  | nil =>
      constructor
      · intro h
        cases h
        exact ⟨[], .nil, rfl⟩
      · rintro ⟨parts, hparts, rfl⟩
        cases hparts
        rfl
  | cons i is ih =>
      rw [collect]
      constructor
      · intro h
        obtain ⟨part, hpart, h⟩ := bind_eq_ok.1 h
        obtain ⟨others, hothers, h⟩ := bind_eq_ok.1 h
        obtain ⟨parts, hparts, rfl⟩ := ih.1 hothers
        cases h
        exact ⟨part :: parts, .cons hpart hparts, rfl⟩
      · rintro ⟨parts, hparts, rfl⟩
        obtain _ | ⟨hpart, hrest⟩ := hparts
        rw [hpart, ok_bind, ih.2 ⟨_, hrest, rfl⟩]
        rfl

/-- What a loop found, one of its rounds found. -/
theorem mem_collect {a : α} (h : collect body is = .ok found) (ha : a ∈ found) :
    ∃ i ∈ is, ∃ part, body i = .ok part ∧ a ∈ part := by
  obtain ⟨parts, hparts, rfl⟩ := collect_eq_ok.1 h
  obtain ⟨part, hpart, ha⟩ := List.mem_flatten.1 ha
  obtain ⟨k, hk, rfl⟩ := List.getElem_of_mem hpart
  have hlen := hparts.length_eq
  exact ⟨is[k], List.getElem_mem _, parts[k], List.forall₂_iff_get.1 hparts |>.2 k (by omega) hk, ha⟩

/-- A loop ends exactly if each of its rounds does. -/
theorem collect_returns_iff :
    (∃ found, collect body is = .ok found) ↔ ∀ i ∈ is, ∃ part, body i = .ok part := by
  induction is with
  | nil => exact iff_of_true ⟨[], rfl⟩ (List.forall_mem_nil _)
  | cons i is ih =>
      rw [List.forall_mem_cons, ← ih, collect]
      constructor
      · rintro ⟨found, h⟩
        obtain ⟨part, hpart, h⟩ := bind_eq_ok.1 h
        obtain ⟨others, hothers, h⟩ := bind_eq_ok.1 h
        exact ⟨⟨part, hpart⟩, others, hothers⟩
      · rintro ⟨⟨part, hpart⟩, others, hothers⟩
        rw [hpart, ok_bind, hothers]
        exact ⟨_, rfl⟩

/-- What holds of all that a loop finds holds of what each of its rounds finds. -/
theorem collect_forall_iff {P : α → Prop} :
    (∃ found, collect body is = .ok found ∧ ∀ a ∈ found, P a) ↔
      ∀ i ∈ is, ∃ part, body i = .ok part ∧ ∀ a ∈ part, P a := by
  induction is with
  | nil => exact iff_of_true ⟨[], rfl, List.forall_mem_nil _⟩ (List.forall_mem_nil _)
  | cons i is ih =>
      rw [List.forall_mem_cons, ← ih, collect]
      constructor
      · rintro ⟨found, h, hall⟩
        obtain ⟨part, hpart, h⟩ := bind_eq_ok.1 h
        obtain ⟨others, hothers, h⟩ := bind_eq_ok.1 h
        rw [← Except.ok.inj h, List.forall_mem_append] at hall
        exact ⟨⟨part, hpart, hall.1⟩, others, hothers, hall.2⟩
      · rintro ⟨⟨part, hpart, hp⟩, others, hothers, ho⟩
        rw [hpart, ok_bind, hothers]
        exact ⟨_, rfl, List.forall_mem_append.2 ⟨hp, ho⟩⟩

/-- A round that finds nothing can be left out. -/
theorem collect_filter_map {p : ι → Bool} {f : ι → κ} {body' : κ → Except ε (List α)}
    (h : ∀ i ∈ is, body i = if p i then body' (f i) else .ok []) :
    collect body is = collect body' ((is.filter p).map f) := by
  induction is with
  | nil => rfl
  | cons i is ih =>
      obtain ⟨hi, his⟩ := List.forall_mem_cons.1 h
      rw [collect, hi, ih his]
      cases hp : p i with
      | true => rw [List.filter_cons_of_pos hp, List.map_cons, collect, if_pos rfl]
      | false =>
          rw [List.filter_cons_of_neg (by rw [hp]; exact Bool.false_ne_true),
            if_neg Bool.false_ne_true, ok_bind]
          cases collect body' ((is.filter p).map f) with
          | error e => rfl
          | ok found => rfl

end

/-! ## Safety -/

/-- No panic, and the value satisfies `post`. -/
def Safe (x : Except (Fault ε) α) (post : α → Prop) : Prop :=
  match x with
  | .ok a => post a
  | .error .Panic => False
  | .error (.Error _) => True

theorem Safe.ne_panic {x : Except (Fault ε) α} {post : α → Prop} (h : Safe x post) :
    x ≠ .error .Panic := by
  rintro rfl
  exact h

theorem Safe.of_ok {x : Except (Fault ε) α} {post : α → Prop} {a : α} (h : Safe x post)
    (hx : x = .ok a) : post a := by
  subst hx
  exact h

theorem Safe.imp {x : Except (Fault ε) α} {post post' : α → Prop} (h : Safe x post)
    (himp : ∀ a, post a → post' a) : Safe x post' := by
  rcases x with (_ | e) | a
  · exact h
  · trivial
  · exact himp a h

/-- Where no error can be reported, there is a value. -/
theorem Safe.returns {x : Except (Fault Empty) α} {post : α → Prop} (h : Safe x post) :
    ∃ a, x = .ok a ∧ post a := by
  rcases x with (_ | e) | a
  · exact h.elim
  · exact e.elim
  · exact ⟨a, rfl, h⟩

/-- What is known of the value may be used together with where it comes from. -/
theorem Safe.with_eq {x : Except (Fault ε) α} {post : α → Prop} (h : Safe x post) :
    Safe x fun a => x = .ok a ∧ post a := by
  rcases x with (_ | e) | a
  · exact h
  · trivial
  · exact ⟨rfl, h⟩

theorem safe_ok {post : α → Prop} {a : α} (h : post a) :
    Safe (.ok a : Except (Fault ε) α) post := h

theorem safe_bind {x : Except (Fault ε) α} {f : α → Except (Fault ε) β} {post : β → Prop}
    (h : Safe x fun a => Safe (f a) post) : Safe (x >>= f) post := by
  rcases x with (_ | e) | a
  · exact h
  · exact h
  · exact h

theorem safe_collect {ι : Type} {body : ι → Except (Fault ε) (List α)} {is : List ι} {post : α → Prop}
    (h : ∀ i ∈ is, Safe (body i) fun part => ∀ a ∈ part, post a) :
    Safe (collect body is) fun found => ∀ a ∈ found, post a := by
  induction is with
  | nil => exact List.forall_mem_nil post
  | cons i is ih =>
      obtain ⟨hi, his⟩ := List.forall_mem_cons.1 h
      refine safe_bind (hi.imp fun part hpart => ?_)
      refine safe_bind ((ih his).imp fun others hothers => ?_)
      exact safe_ok (List.forall_mem_append.2 ⟨hpart, hothers⟩)

theorem safe_reject {refused : Prop} [Decidable refused] {e : ε} {post : Unit → Prop}
    (h : ¬ refused → post ()) : Safe (reject refused e) post := by
  unfold reject
  by_cases hr : refused
  · rw [if_pos hr]
    trivial
  · rw [if_neg hr]
    exact h hr

theorem safe_index {data : List α} {i : ℕ} {post : α → Prop} (hi : i < data.length)
    (h : ∀ b, data[i]? = some b → post b) :
    Safe (index data i : Except (Fault ε) α) post := by
  have hb := List.getElem?_eq_getElem hi
  unfold index
  rw [hb]
  exact h _ hb

theorem checked_sub_of_le {a b : ℕ} (h : b ≤ a) :
    checked_sub a b = (.ok (a - b) : Except (Fault ε) ℕ) := if_pos h

theorem safe_checked_sub {a b : ℕ} {post : ℕ → Prop} (h : b ≤ a) (hpost : post (a - b)) :
    Safe (checked_sub a b : Except (Fault ε) ℕ) post := by
  rw [checked_sub_of_le h]
  exact hpost

theorem safe_slice (n : ℕ) {data : List α} {a b : ℕ} {post : List α → Prop} (hb : b = a + n)
    (hlen : a + n ≤ data.length) (h : post ((data.drop a).take n)) :
    Safe (slice data a b : Except (Fault ε) (List α)) post := by
  subst hb
  unfold slice
  rw [if_pos ⟨Nat.le_add_right a n, hlen⟩, Nat.add_sub_cancel_left]
  exact h

theorem safe_fallible {x : Except ε α} {post : α → Prop} (h : ∀ a, x = .ok a → post a) :
    Safe (fallible x) post := by
  rcases x with e | a
  · trivial
  · exact h a rfl

theorem safe_to_array {n : ℕ} {bs : List α} {e : ε} {post : {l : List α // l.length = n} → Prop}
    (h : ∀ hn : bs.length = n, post ⟨bs, hn⟩) : Safe (to_array n bs e) post := by
  unfold to_array
  by_cases hn : bs.length = n
  · rw [dif_pos hn]
    exact h hn
  · rw [dif_neg hn]
    trivial

/-! ## Reading what was put together -/

theorem reject_of_not {refused : Prop} [Decidable refused] (h : ¬ refused) (e : ε) :
    reject refused e = .ok () := if_neg h

theorem fallible_of_ok {x : Except ε α} {a : α} (h : x = .ok a) : fallible x = .ok a := by
  rw [h]
  rfl

theorem index_of_drop {data rest : List α} {b : α} {i : ℕ} (h : data.drop i = b :: rest) :
    index data i = (.ok b : Except (Fault ε) α) := by
  have hb : data[i]? = some b := by
    rw [← List.head?_drop, h, List.head?_cons]
  unfold index
  rw [hb]

theorem slice_of_drop {data bs rest : List α} {a b : ℕ} (h : data.drop a = bs ++ rest)
    (hb : b = a + bs.length) (hlen : b ≤ data.length) :
    slice data a b = (.ok bs : Except (Fault ε) (List α)) := by
  unfold slice
  rw [if_pos ⟨by omega, hlen⟩, h, hb, Nat.add_sub_cancel_left, List.take_left]

/-- What follows the part that was read. -/
theorem drop_after {data bs rest : List α} {a b : ℕ} (h : data.drop a = bs ++ rest)
    (hb : b = a + bs.length) : data.drop b = rest := by
  rw [hb, ← List.drop_drop, h, List.drop_left]

theorem to_array_of_length {n : ℕ} {bs : List α} (h : bs.length = n) (e : ε) :
    to_array n bs e = .ok ⟨bs, h⟩ := dif_pos h

theorem take_succ_index {data : List α} {i : ℕ} {b : α} (h : data[i]? = some b) :
    data.take (i + 1) = data.take i ++ [b] := by
  rw [List.take_add_one, h]
  rfl

end Faults
