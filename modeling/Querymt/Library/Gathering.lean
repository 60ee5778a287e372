/-
`Gathering.lean` -- what one pass over a list has gathered.

A loop that takes its input piece by piece keeps accumulators: the elements of new keys,
the largest value so far, what came since the last mark. Each is here a function of the
whole list, with the equation for one more element at its end, which is what a step of the
loop does, and the laws that say what the function is.
-/
import Mathlib

set_option autoImplicit false

namespace Gathering

variable {α κ : Type}

/-! ## 1. The first of each key -/

section

variable [DecidableEq κ] (key : α → κ)

/-- The elements whose key no earlier element has. -/
def firsts : List α → List α
  | [] => []
  | a :: l => a :: (firsts l).filter fun b => decide (key b ≠ key a)

theorem sublist_firsts (l : List α) : (firsts key l).Sublist l := by
  induction l with
  | nil => exact List.Sublist.slnil
  | cons a l ih => exact (List.filter_sublist.trans ih).cons_cons a

theorem mem_keys_filter_ne {k : κ} {a : α} (hk : k ≠ key a) (l : List α) :
    k ∈ (l.filter fun b => decide (key b ≠ key a)).map key ↔ k ∈ l.map key := by
  constructor
  · exact fun h => (List.filter_sublist.map key).subset h
  · intro h
    obtain ⟨b, hb, rfl⟩ := List.mem_map.1 h
    exact List.mem_map_of_mem (List.mem_filter.2 ⟨hb, by simpa using hk⟩)

theorem mem_keys_firsts (l : List α) (k : κ) : k ∈ (firsts key l).map key ↔ k ∈ l.map key := by
  induction l with
  | nil => exact Iff.rfl
  | cons a l ih =>
      rw [firsts, List.map_cons, List.map_cons, List.mem_cons, List.mem_cons]
      by_cases hk : k = key a
      · exact ⟨fun _ => .inl hk, fun _ => .inl hk⟩
      · rw [mem_keys_filter_ne key hk, ih]

/-- Each key occurs once. -/
theorem nodup_keys_firsts (l : List α) : ((firsts key l).map key).Nodup := by
  induction l with
  | nil => exact List.nodup_nil
  | cons a l ih =>
      rw [firsts, List.map_cons, List.nodup_cons]
      refine ⟨fun h => ?_, ih.sublist (List.filter_sublist.map key)⟩
      obtain ⟨b, hb, heq⟩ := List.mem_map.1 h
      exact absurd heq (by simpa using (List.mem_filter.1 hb).2)

theorem firsts_concat_new {l : List α} {a : α} (ha : key a ∉ l.map key) :
    firsts key (l ++ [a]) = firsts key l ++ [a] := by
  induction l with
  | nil => rfl
  | cons b l ih =>
      rw [List.map_cons, List.mem_cons, not_or] at ha
      rw [List.cons_append, firsts, firsts, ih ha.2, List.filter_append,
        List.filter_cons_of_pos (by simpa using ha.1), List.filter_nil]
      rfl

theorem firsts_concat_old {l : List α} {a : α} (ha : key a ∈ l.map key) :
    firsts key (l ++ [a]) = firsts key l := by
  induction l with
  | nil => exact absurd ha List.not_mem_nil
  | cons b l ih =>
      rw [List.cons_append, firsts, firsts]
      by_cases hl : key a ∈ l.map key
      · rw [ih hl]
      · -- then its key is that of the head, whose filter drops it
        have hb : key a = key b := (List.mem_cons.1 ha).resolve_right hl
        rw [firsts_concat_new key hl, List.filter_append,
          List.filter_cons_of_neg (by simpa using hb), List.filter_nil, List.append_nil]

end

/-! ## 2. The largest value -/

section

variable [LinearOrder α] [OrderBot α]

def greatest (l : List α) : α := l.foldl max ⊥

theorem greatest_concat (l : List α) (a : α) : greatest (l ++ [a]) = max (greatest l) a := by
  rw [greatest, List.foldl_append]
  rfl

/-- It is the least upper bound. -/
theorem greatest_le_iff {l : List α} {b : α} : greatest l ≤ b ↔ ∀ a ∈ l, a ≤ b := by
  induction l using List.reverseRecOn with
  | nil => exact ⟨fun _ a ha => absurd ha List.not_mem_nil, fun _ => bot_le⟩
  | append_singleton l a ih =>
      rw [greatest_concat, max_le_iff, ih]
      constructor
      · rintro ⟨hl, ha⟩ c hc
        rcases List.mem_append.1 hc with hc | hc
        · exact hl c hc
        · rw [List.mem_singleton.1 hc]
          exact ha
      · intro h
        exact ⟨fun c hc => h c (List.mem_append_left _ hc),
          h a (List.mem_append_right _ List.mem_cons_self)⟩

end

/-! ## 3. What came since the last mark -/

section

variable (mark : α → Bool)

/-- The elements after the last one that is marked; all of them when none is. -/
def since (l : List α) : List α := l.rtakeWhile fun a => !mark a

variable {mark}

theorem since_concat_mark {a : α} (ha : mark a = true) (l : List α) :
    since mark (l ++ [a]) = [] := by
  rw [since]
  exact List.rtakeWhile_concat_neg _ _ _ (by rw [ha]; exact Bool.false_ne_true)

/-- What is not marked is added. -/
theorem since_append {more : List α} (hmore : ∀ a ∈ more, mark a = false) (l : List α) :
    since mark (l ++ more) = since mark l ++ more := by
  induction more using List.reverseRecOn with
  | nil => rw [List.append_nil, List.append_nil]
  | append_singleton more a ih =>
      have ha : mark a = false := hmore a (List.mem_append_right _ List.mem_cons_self)
      rw [← List.append_assoc, since, List.rtakeWhile_concat_pos _ _ _ (by rw [ha]; rfl), ← since,
        ih fun b hb => hmore b (List.mem_append_left _ hb), List.append_assoc]

end

end Gathering
