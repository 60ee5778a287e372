/-
`Library/Rankings.lean` -- the best elements of a list.

Elements are ranked by a key, the greatest first; the keys of different elements differ. An
element is among the first `k` exactly when fewer than `k` elements are ahead of it
(`mem_best`), and elements that are not among the first may as well be left out (`best_filter`).
-/
import Mathlib.Data.List.Sort

set_option autoImplicit false

namespace Rankings

variable {α κ : Type}

/-- Different elements have different keys. -/
def Distinct (key : α → κ) (l : List α) : Prop := ∀ a ∈ l, ∀ b ∈ l, key a = key b → a = b

theorem Distinct.subset {key : α → κ} {l l' : List α} (h : Distinct key l) (hsub : l' ⊆ l) :
    Distinct key l' :=
  fun a ha b hb => h a (hsub ha) b (hsub hb)

variable [LinearOrder κ] (key : α → κ)

/-- Ranked, the greatest key first. -/
def ranked (l : List α) : List α := l.insertionSort fun a b => key b ≤ key a

def best (k : ℕ) (l : List α) : List α := (ranked key l).take k

/-- The elements with a greater key. -/
def ahead (l : List α) (c : κ) : ℕ := (l.filter fun b => decide (c < key b)).length

theorem perm_ranked (l : List α) : (ranked key l).Perm l := List.perm_insertionSort _ l

variable {key} {l l' : List α}

/-- Behind a greater key there are no fewer elements ahead. -/
theorem ahead_anti {c d : κ} (h : c ≤ d) : ahead key l d ≤ ahead key l c := by
  apply List.Sublist.length_le
  apply List.monotone_filter_right
  intro b hb
  exact decide_eq_true (h.trans_lt (of_decide_eq_true hb))

theorem ranked_sorted (l : List α) : (ranked key l).Pairwise fun a b => key b ≤ key a :=
  have : Std.Total fun a b : α => key b ≤ key a := ⟨fun a b => le_total (key b) (key a)⟩
  have : IsTrans α fun a b => key b ≤ key a := ⟨fun _ _ _ hab hbc => hbc.trans hab⟩
  List.pairwise_insertionSort _ l

theorem ranked_strict (hdistinct : Distinct key l) (hl : l.Nodup) :
    (ranked key l).Pairwise fun a b => key b < key a := by
  have hnodup : (ranked key l).Nodup := (perm_ranked key l).nodup_iff.2 hl
  refine ((ranked_sorted l).and hnodup).imp_of_mem ?_
  rintro a b ha hb ⟨hle, hne⟩
  apply lt_of_le_of_ne hle
  exact fun heq => hne (hdistinct a ((perm_ranked key l).mem_iff.1 ha) b
    ((perm_ranked key l).mem_iff.1 hb) heq.symm)

/-- There is one way to rank elements. -/
theorem ranked_unique (hdistinct : Distinct key l) {r : List α} (hperm : r.Perm l)
    (hr : r.Pairwise fun a b => key b ≤ key a) : r = ranked key l := by
  refine (hperm.trans (perm_ranked key l).symm).eq_of_pairwise ?_ hr (ranked_sorted l)
  intro a b ha hb hab hba
  have hb := (perm_ranked key l).mem_iff.1 hb
  exact hdistinct a (hperm.mem_iff.1 ha) b hb (le_antisymm hba hab)

theorem ranked_perm (hdistinct : Distinct key l) (hperm : l'.Perm l) :
    ranked key l' = ranked key l :=
  ranked_unique hdistinct ((perm_ranked key l').trans hperm) (ranked_sorted l')

theorem ranked_filter (hdistinct : Distinct key l) (p : α → Bool) :
    ranked key (l.filter p) = (ranked key l).filter p :=
  (ranked_unique (hdistinct.subset List.filter_sublist.subset) ((perm_ranked key l).filter p)
    ((ranked_sorted l).filter p)).symm

/-- As many elements are ahead of an element as come before it. -/
theorem ahead_eq {a : α} {front back : List α}
    (hsorted : (front ++ a :: back).Pairwise fun a b => key b < key a) :
    ahead key (front ++ a :: back) (key a) = front.length := by
  obtain ⟨-, hback, hfront⟩ := List.pairwise_append.1 hsorted
  have hahead : ∀ b ∈ front, key a < key b := fun b hb => hfront b hb a List.mem_cons_self
  have hbehind : ∀ b ∈ back, key b < key a := (List.pairwise_cons.1 hback).1
  have hnone : back.filter (fun b => decide (key a < key b)) = [] := by
    apply List.filter_eq_nil_iff.2
    intro b hb
    simpa using (hbehind b hb).le
  rw [ahead, List.filter_append, List.filter_eq_self.2 (by simpa using hahead),
    List.filter_cons_of_neg (by simp), hnone, List.append_nil]

theorem mem_best (hdistinct : Distinct key l) (hl : l.Nodup) {a : α} (ha : a ∈ l) {k : ℕ} :
    a ∈ best key k l ↔ ahead key l (key a) < k := by
  have hperm := perm_ranked key l
  obtain ⟨front, back, heq⟩ := List.append_of_mem (hperm.mem_iff.2 ha)
  have hstrict := ranked_strict hdistinct hl
  rw [heq] at hstrict
  have hcount : ahead key l (key a) = front.length := by
    rw [← ahead_eq hstrict, ← heq]
    exact ((hperm.filter _).length_eq).symm
  have hnodup : (front ++ a :: back).Nodup := heq ▸ hperm.nodup_iff.2 hl
  have hfront : a ∉ front := fun h =>
    (List.nodup_append.1 hnodup).2.2 a h a List.mem_cons_self rfl
  rw [best, heq, hcount, List.take_append, List.mem_append]
  constructor
  · rintro (h | h)
    · exact absurd (List.mem_of_mem_take h) hfront
    · by_contra hle
      rw [Nat.sub_eq_zero_of_le (by omega), List.take_zero] at h
      exact List.not_mem_nil h
  · intro hlt
    right
    obtain ⟨j, hj⟩ : ∃ j, k - front.length = j + 1 := ⟨k - front.length - 1, by omega⟩
    rw [hj, List.take_succ_cons]
    exact List.mem_cons_self

theorem take_filter (p : α → Bool) {k : ℕ} {r : List α} (h : ∀ a ∈ r.take k, p a = true) :
    (r.filter p).take k = r.take k := by
  induction r generalizing k with
  | nil => rfl
  | cons a r ih =>
      cases k with
      | zero => rfl
      | succ k =>
          rw [List.take_succ_cons] at h ⊢
          have ha := h a List.mem_cons_self
          rw [List.filter_cons_of_pos ha, List.take_succ_cons,
            ih fun b hb => h b (List.mem_cons_of_mem a hb)]

/-- Elements that are not among the best may be left out. -/
theorem best_filter (hdistinct : Distinct key l) (p : α → Bool) {k : ℕ}
    (h : ∀ a ∈ best key k l, p a = true) : best key k (l.filter p) = best key k l := by
  rw [best, ranked_filter hdistinct]
  exact take_filter p h

end Rankings
