/-
`Splices.lean` -- edits of a sequence, one after the other and all at once.

An edit replaces the elements from `start` to before `stop`. All the positions refer to
the original sequence, so carrying out one edit moves what the others refer to, unless
they lie before it. `substitute` says what is meant: every edit carried out at once, each
element that no edit covers kept. Edits that do not overlap, carried out from the last to
the first, come to the same; two edits that start at the same position do not, since the
second of them finds the text of the first where its range should be.
-/
import Mathlib

set_option autoImplicit false

namespace Splices

variable {α : Type}

/-- Replace what is in `[start, stop)` by `new`. -/
structure Edit (α : Type) where
  start : ℕ
  stop : ℕ
  new : List α

/-- `Vec::splice` with the range of the edit. -/
def splice (c : List α) (e : Edit α) : List α := c.take e.start ++ (e.new ++ c.drop e.stop)

/-! ## All edits at once -/

/-- What the edits put in at a position. -/
def inserted (es : List (Edit α)) (i : ℕ) : List α :=
  (es.filter fun e => e.start = i).flatMap Edit.new

/-- An edit takes the element at the position away. -/
def Covered (es : List (Edit α)) (i : ℕ) : Prop := ∃ e ∈ es, e.start ≤ i ∧ i < e.stop

instance (es : List (Edit α)) (i : ℕ) : Decidable (Covered es i) :=
  inferInstanceAs (Decidable (∃ e ∈ es, e.start ≤ i ∧ i < e.stop))

/-- What becomes of the elements from a position on: each is kept unless it is covered,
and what is put in behind it follows. -/
def kept (es : List (Edit α)) : ℕ → List α → List α
  | _, [] => []
  | i, x :: c => (if Covered es i then [] else [x]) ++ (inserted es (i + 1) ++ kept es (i + 1) c)

/-- The same with what is put in at the position itself. -/
def weave (es : List (Edit α)) (i : ℕ) (c : List α) : List α := inserted es i ++ kept es i c

/-- Every range replaced by its text, every element outside of the ranges kept. -/
def substitute (es : List (Edit α)) (c : List α) : List α := weave es 0 c

/-- The range of the edit lies in a sequence of this length. -/
structure Edit.Within (e : Edit α) (n : ℕ) : Prop where
  start_le_stop : e.start ≤ e.stop
  stop_le : e.stop ≤ n

/-- One of the two edits ends before the other starts. -/
def Apart (e e' : Edit α) : Prop := e.stop ≤ e'.start ∨ e'.stop ≤ e.start

/-- The second edit is to be carried out after the first, and lies before it. -/
structure Above (e e' : Edit α) : Prop where
  start_lt : e'.start < e.start
  stop_le : e'.stop ≤ e.start

/-! ## The order of the edits does not matter -/

section

variable {es es' : List (Edit α)}

theorem kept_cons (i : ℕ) (x : α) (c : List α) :
    kept es i (x :: c) = (if Covered es i then [] else [x]) ++ weave es (i + 1) c := rfl

/-- What becomes of the rest depends only on what the edits do there. -/
theorem kept_congr {i : ℕ} (hins : ∀ j, i < j → inserted es j = inserted es' j)
    (hcov : ∀ j, i ≤ j → (Covered es j ↔ Covered es' j)) (c : List α) :
    kept es i c = kept es' i c := by
  induction c generalizing i with
  | nil => rfl
  | cons x c ih =>
      have htail : kept es (i + 1) c = kept es' (i + 1) c :=
        ih (fun j hj => hins j (by omega)) (fun j hj => hcov j (by omega))
      rw [kept, kept, hins (i + 1) (Nat.lt_succ_self i), htail]
      simp only [hcov i (Nat.le_refl i)]

/-- Edits with different starts: at most one starts at a position. -/
theorem inserted_perm (h : es.Perm es') (hstart : (es.map Edit.start).Nodup) (i : ℕ) :
    inserted es i = inserted es' i := by
  have hperm : (es.filter fun e => e.start = i).Perm (es'.filter fun e => e.start = i) := h.filter _
  have hnodup : ((es.filter fun e => e.start = i).map Edit.start).Nodup :=
    hstart.sublist (List.filter_sublist.map _)
  have hall : ∀ e ∈ es.filter fun e => e.start = i, e.start = i := by simp
  unfold inserted
  generalize (es.filter fun e => e.start = i) = l at hperm hnodup hall
  match l with
  | [] => rw [List.nil_perm.1 hperm]
  | [e] => rw [List.singleton_perm.1 hperm]
  | e :: e' :: _ =>
      have heq : e.start = e'.start := by
        rw [hall e (by simp), hall e' (by simp)]
      simp [heq] at hnodup

theorem substitute_perm (h : es.Perm es') (hstart : (es.map Edit.start).Nodup) (c : List α) :
    substitute es c = substitute es' c := by
  have hcov : ∀ i, Covered es i ↔ Covered es' i := by
    intro i
    unfold Covered
    simp only [h.mem_iff]
  unfold substitute weave
  rw [inserted_perm h hstart, kept_congr (fun i _ => inserted_perm h hstart i) fun i _ => hcov i]

end

/-! ## From the last edit to the first -/

section

variable {e : Edit α} {es : List (Edit α)} {i : ℕ}

theorem inserted_cons (e : Edit α) (es : List (Edit α)) (i : ℕ) :
    inserted (e :: es) i = (if e.start = i then e.new else []) ++ inserted es i := by
  unfold inserted
  by_cases h : e.start = i
  · rw [List.filter_cons_of_pos (by simpa using h), List.flatMap_cons, if_pos h]
  · rw [List.filter_cons_of_neg (by simpa using h), if_neg h, List.nil_append]

theorem covered_cons : Covered (e :: es) i ↔ (e.start ≤ i ∧ i < e.stop) ∨ Covered es i :=
  List.exists_mem_cons_iff ..

theorem inserted_of_ne (h : ∀ e' ∈ es, e'.start ≠ i) : inserted es i = [] := by
  unfold inserted
  rw [List.filter_eq_nil_iff.2, List.flatMap_nil]
  intro e' he'
  simpa using h e' he'

theorem not_covered_of_below (h : ∀ e' ∈ es, e'.stop ≤ i) : ¬ Covered es i := by
  rintro ⟨e', he', -, hlt⟩
  exact absurd (h e' he') (by omega)

theorem kept_nil (i : ℕ) (c : List α) : kept [] i c = c := by
  induction c generalizing i with
  | nil => rfl
  | cons x c ih =>
      rw [kept, if_neg (not_covered_of_below (by simp)), ih]
      rfl

theorem substitute_nil (c : List α) : substitute [] c = c := kept_nil 0 c

/-- From the start of the topmost edit on nothing is left but what lies behind its
range. -/
theorem kept_of_topmost (hes : ∀ e' ∈ es, Above e e') (hi : e.start ≤ i) (c : List α) :
    kept (e :: es) i c = c.drop (e.stop - i) := by
  have hins : ∀ j, e.start ≤ j → inserted (e :: es) (j + 1) = [] := by
    intro j hj
    rw [inserted_cons, if_neg (by omega), List.nil_append]
    refine inserted_of_ne fun e' he' => ?_
    have := (hes e' he').start_lt
    omega
  have hcov : ∀ j, e.start ≤ j → (Covered (e :: es) j ↔ j < e.stop) := by
    intro j hj
    have hbelow : ¬ Covered es j :=
      not_covered_of_below fun e' he' => (hes e' he').stop_le.trans hj
    rw [covered_cons]
    simp [hbelow, hj]
  induction c generalizing i with
  | nil => rw [kept, List.drop_nil]
  | cons x c ih =>
      rw [kept, hins i hi, List.nil_append, ih (by omega)]
      by_cases hlt : i < e.stop
      · obtain ⟨k, hk⟩ : ∃ k, e.stop - i = k + 1 := ⟨e.stop - i - 1, by omega⟩
        have hk' : e.stop - (i + 1) = k := by omega
        rw [if_pos ((hcov i hi).2 hlt), hk, hk', List.drop_succ_cons]
        rfl
      · have h₀ : e.stop - i = 0 := by omega
        have h₁ : e.stop - (i + 1) = 0 := by omega
        rw [if_neg (fun h => hlt ((hcov i hi).1 h)), h₀, h₁]
        rfl

/-- The topmost edit acts on the end of the sequence, the others on what is before its
range. -/
theorem weave_append (hes : ∀ e' ∈ es, Above e e') (a c : List α) (hi : i + a.length = e.start) :
    weave (e :: es) i (a ++ c) = weave es i a ++ (e.new ++ c.drop (e.stop - e.start)) := by
  induction a generalizing i with
  | nil =>
      obtain rfl : i = e.start := by simpa using hi
      have hnone : inserted es e.start = [] :=
        inserted_of_ne fun e' he' => ne_of_lt (hes e' he').start_lt
      unfold weave
      rw [List.nil_append, kept_of_topmost hes (Nat.le_refl _), inserted_cons, if_pos rfl, hnone]
      simp [kept]
  | cons x a ih =>
      rw [List.length_cons] at hi
      have hins : inserted (e :: es) i = inserted es i := by
        rw [inserted_cons, if_neg (by omega), List.nil_append]
      have hcov : Covered (e :: es) i ↔ Covered es i := by
        rw [covered_cons]
        exact or_iff_right fun h => by omega
      rw [List.cons_append, weave, weave, kept_cons, kept_cons, hins, ih (by omega),
        List.append_assoc, List.append_assoc]
      simp only [hcov]

theorem splice_append {a : List α} (h : e.Within a.length) (b : List α) :
    splice (a ++ b) e = splice a e ++ b := by
  have hstart := h.start_le_stop.trans h.stop_le
  unfold splice
  rw [List.take_append_of_le_length hstart, List.drop_append_of_le_length h.stop_le]
  simp only [List.append_assoc]

/-- Edits of the front of a sequence leave the rest of it alone. -/
theorem foldl_splice_append {a : List α} (hin : ∀ e ∈ es, e.Within a.length)
    (habove : es.Pairwise Above) (b : List α) :
    es.foldl splice (a ++ b) = es.foldl splice a ++ b := by
  induction es generalizing a with
  | nil => rfl
  | cons e es ih =>
      obtain ⟨he, habove⟩ := List.pairwise_cons.1 habove
      have hwithin := hin e (List.mem_cons_self ..)
      have hlen : e.start ≤ (splice a e).length := by
        have := hwithin.start_le_stop.trans hwithin.stop_le
        unfold splice
        rw [List.length_append, List.length_take]
        omega
      rw [List.foldl_cons, List.foldl_cons, splice_append hwithin, ih ?_ habove]
      intro e' he'
      have := hin e' (List.mem_cons_of_mem _ he')
      exact ⟨this.start_le_stop, (he e' he').stop_le.trans hlen⟩

/-- From the last edit to the first, one splice after the other: all edits at once. -/
theorem foldl_splice_eq_substitute {c : List α} (hin : ∀ e ∈ es, e.Within c.length)
    (habove : es.Pairwise Above) : es.foldl splice c = substitute es c := by
  induction es generalizing c with
  | nil => exact (substitute_nil c).symm
  | cons e es ih =>
      obtain ⟨he, habove⟩ := List.pairwise_cons.1 habove
      have hwithin := hin e (List.mem_cons_self ..)
      have hlen : (c.take e.start).length = e.start :=
        List.length_take_of_le (hwithin.start_le_stop.trans hwithin.stop_le)
      have hfront : ∀ e' ∈ es, e'.Within (c.take e.start).length := by
        intro e' he'
        rw [hlen]
        exact ⟨(hin e' (List.mem_cons_of_mem _ he')).start_le_stop, (he e' he').stop_le⟩
      have hdrop : (c.drop e.start).drop (e.stop - e.start) = c.drop e.stop := by
        rw [List.drop_drop, Nat.add_sub_cancel' hwithin.start_le_stop]
      calc es.foldl splice (splice c e)
          = es.foldl splice (c.take e.start) ++ (e.new ++ c.drop e.stop) :=
            foldl_splice_append hfront habove _
        _ = substitute es (c.take e.start) ++ (e.new ++ c.drop e.stop) := by
            rw [ih hfront habove]
        _ = weave (e :: es) 0 (c.take e.start ++ c.drop e.start) := by
            rw [weave_append he _ _ (by rw [hlen, Nat.zero_add]), hdrop]
            rfl
        _ = substitute (e :: es) c := by
            rw [List.take_append_drop]
            rfl

end

/-! ## From the first edit to the last -/

section

variable {e : Edit α} {es : List (Edit α)} {i : ℕ}

/-- Within the range of the lowest edit nothing is left. -/
theorem kept_of_lowest (hes : ∀ e' ∈ es, e.stop < e'.start) (hstart : e.start ≤ i)
    (hstop : i ≤ e.stop) {c : List α} (hc : e.stop ≤ i + c.length) :
    kept (e :: es) i c = kept es e.stop (c.drop (e.stop - i)) := by
  induction c generalizing i with
  | nil => rw [List.drop_nil, kept, kept]
  | cons x c ih =>
      rw [List.length_cons] at hc
      obtain rfl | hlt := Nat.eq_or_lt_of_le hstop
      · -- at the end of the range the edit has no say any more
        rw [Nat.sub_self, List.drop_zero]
        refine kept_congr (fun j hj => ?_) (fun j hj => ?_) _
        · rw [inserted_cons, if_neg (by omega), List.nil_append]
        · rw [covered_cons]
          exact or_iff_right fun h => by omega
      · have hins : inserted (e :: es) (i + 1) = [] := by
          rw [inserted_cons, if_neg (by omega), List.nil_append]
          refine inserted_of_ne fun e' he' => ?_
          have := hes e' he'
          omega
        obtain ⟨k, hk⟩ : ∃ k, e.stop - i = k + 1 := ⟨e.stop - i - 1, by omega⟩
        have hk' : e.stop - (i + 1) = k := by omega
        rw [kept, if_pos (covered_cons.2 (.inl ⟨hstart, hlt⟩)), hins,
          ih (by omega) (by omega) (by omega), hk, hk', List.drop_succ_cons]
        rfl

/-- The lowest edit first, and the others on what is behind its range. -/
theorem weave_cons (hes : ∀ e' ∈ es, e.stop < e'.start) (hle : e.start ≤ e.stop)
    (hi : i ≤ e.start) {c : List α} (hc : e.stop ≤ i + c.length) :
    weave (e :: es) i c =
      c.take (e.start - i) ++ (e.new ++ weave es e.stop (c.drop (e.stop - i))) := by
  have hnone : ∀ j, j ≤ e.stop → inserted es j = [] := by
    intro j hj
    refine inserted_of_ne fun e' he' => ?_
    have := hes e' he'
    omega
  induction c generalizing i with
  | nil =>
      rw [List.length_nil] at hc
      obtain rfl : i = e.start := by omega
      simp [weave, kept, inserted_cons, hnone _ hle, hnone _ (Nat.le_refl _)]
  | cons x c ih =>
      rw [List.length_cons] at hc
      obtain rfl | hlt := Nat.eq_or_lt_of_le hi
      · rw [weave, kept_of_lowest hes (Nat.le_refl _) hle (by rw [List.length_cons]; omega),
          inserted_cons, if_pos rfl, hnone _ hle, weave, hnone _ (Nat.le_refl _), Nat.sub_self]
        simp
      · have hcov : ¬ Covered (e :: es) i := by
          rw [covered_cons]
          rintro (h | ⟨e', he', hle', -⟩)
          · omega
          · have := hes e' he'
            omega
        obtain ⟨k, hk⟩ : ∃ k, e.start - i = k + 1 := ⟨e.start - i - 1, by omega⟩
        obtain ⟨m, hm⟩ : ∃ m, e.stop - i = m + 1 := ⟨e.stop - i - 1, by omega⟩
        have hk' : e.start - (i + 1) = k := by omega
        have hm' : e.stop - (i + 1) = m := by omega
        rw [weave, inserted_cons, if_neg (by omega), hnone i (by omega), kept_cons, if_neg hcov,
          ih (by omega) (by omega), hk, hk', hm, hm', List.take_succ_cons, List.drop_succ_cons]
        rfl

end

/-! ## Edits that do not overlap -/

section

variable {es : List (Edit α)} {n : ℕ}

theorem Apart.symm {e e' : Edit α} (h : Apart e e') : Apart e' e := Or.symm h

/-- A chain in which each edit ends before the next starts holds nothing but edits
apart. -/
theorem pairwise_apart_of_chain (hin : ∀ e ∈ es, e.Within n)
    (h : es.IsChain fun e e' => e.stop ≤ e'.start) : es.Pairwise Apart := by
  have hpairwise : es.Pairwise fun e e' => e.stop ≤ e'.start := by
    induction es with
    | nil => exact .nil
    | cons e es ih =>
        have htail := ih (fun e' he' => hin e' (List.mem_cons_of_mem _ he')) h.tail
        refine List.pairwise_cons.2 ⟨fun e' he' => ?_, htail⟩
        cases es with
        | nil => cases he'
        | cons e₁ es =>
            have hfirst : e.stop ≤ e₁.start := (List.isChain_cons_cons.1 h).1
            obtain rfl | he' := List.mem_cons.1 he'
            · exact hfirst
            · have hnext := (List.pairwise_cons.1 htail).1 e' he'
              have := (hin e₁ (by simp)).start_le_stop
              omega
  exact hpairwise.imp Or.inl

/-- Among edits apart with different starts, the one that starts first ends first. -/
theorem Apart.stop_le {e e' : Edit α} (h : Apart e e') (hlt : e.start < e'.start)
    (h' : e'.start ≤ e'.stop) : e.stop ≤ e'.start := by
  unfold Apart at h
  omega

theorem chain_of_pairwise_apart (hin : ∀ e ∈ es, e.Within n)
    (hstart : (es.map Edit.start).Nodup) (hsorted : es.Pairwise fun e e' => e.start ≤ e'.start)
    (h : es.Pairwise Apart) : es.IsChain fun e e' => e.stop ≤ e'.start := by
  have hne : es.Pairwise fun e e' => e.start ≠ e'.start := List.pairwise_map.1 hstart
  have hall := (h.and (hsorted.and hne)).imp_of_mem (S := fun e e' => e.stop ≤ e'.start) ?_
  · exact hall.isChain
  · rintro e e' - he' ⟨hapart, hle, hne⟩
    exact hapart.stop_le (lt_of_le_of_ne hle hne) (hin e' he').start_le_stop

theorem pairwise_above (hin : ∀ e ∈ es, e.Within n) (hstart : (es.map Edit.start).Nodup)
    (hsorted : es.Pairwise fun e e' => e'.start ≤ e.start) (h : es.Pairwise Apart) :
    es.Pairwise Above := by
  have hne : es.Pairwise fun e e' => e.start ≠ e'.start := List.pairwise_map.1 hstart
  refine (h.and (hsorted.and hne)).imp_of_mem ?_
  rintro e e' he - ⟨hapart, hle, hne⟩
  have hlt : e'.start < e.start := lt_of_le_of_ne hle (Ne.symm hne)
  exact ⟨hlt, hapart.symm.stop_le hlt (hin e he).start_le_stop⟩

end

end Splices
