/-
`Library/Budgets.lean` -- a budget spent on a list from the front.

Items are paid for from the front until they have cost the budget; what is left then is
`beyond` it. The last item that is paid for may cost more than what was left of the budget,
so what is covered is the shortest part of the list that costs the budget
(`exists_covered`). Where the list is made of groups, the border between both parts falls
between two groups or inside one (`cut_flatten`).
-/
import Mathlib

set_option autoImplicit false

namespace Budgets

variable {α : Type*} (cost : α → ℕ)

/-- What the items of a list cost. -/
def total (items : List α) : ℕ := (items.map cost).sum

/-- What is left of the list when its front has cost the budget. -/
def beyond (budget : ℕ) : ℕ → List α → List α
  | _, [] => []
  | spent, item :: rest =>
      if spent < budget then beyond budget (spent + cost item) rest else item :: rest

@[simp] theorem total_nil : total cost [] = 0 := rfl

@[simp] theorem total_cons (item : α) (rest : List α) :
    total cost (item :: rest) = cost item + total cost rest := by
  rw [total, List.map_cons, List.sum_cons, total]

@[simp] theorem total_append (items items' : List α) :
    total cost (items ++ items') = total cost items + total cost items' := by
  rw [total, List.map_append, List.sum_append, total, total]

theorem total_sublist {items items' : List α} (h : items.Sublist items') :
    total cost items ≤ total cost items' := by
  induction h with
  | slnil => exact Nat.le_refl _
  | cons item _ ih => rw [total_cons]; omega
  | cons_cons item _ ih => rw [total_cons, total_cons]; omega

theorem total_map {β : Type*} (f : β → α) (items : List β) :
    total cost (items.map f) = total (fun b => cost (f b)) items := by
  rw [total, total, List.map_map]
  rfl

theorem beyond_map {β : Type*} (f : β → α) (budget spent : ℕ) (items : List β) :
    beyond cost budget spent (items.map f) =
      (beyond (fun b => cost (f b)) budget spent items).map f := by
  induction items generalizing spent with
  | nil => rfl
  | cons item rest ih =>
      rw [List.map_cons, beyond, beyond]
      split
      · rw [ih]
      · rw [List.map_cons]

variable {cost}

theorem beyond_of_le {budget spent : ℕ} (h : budget ≤ spent) (items : List α) :
    beyond cost budget spent items = items := by
  cases items with
  | nil => rfl
  | cons item rest => rw [beyond, if_neg (Nat.not_lt.2 h)]

/-- **What is covered is the shortest front that costs the budget.** -/
theorem exists_covered (cost : α → ℕ) (budget spent : ℕ) (items : List α) : ∃ covered,
    items = covered ++ beyond cost budget spent items ∧
      (beyond cost budget spent items ≠ [] → budget ≤ spent + total cost covered) ∧
      ∀ front back, covered = front ++ back → back ≠ [] → spent + total cost front < budget := by
  induction items generalizing spent with
  | nil =>
      refine ⟨[], rfl, fun h => absurd rfl h, ?_⟩
      intro front back heq hback
      exact absurd (List.append_eq_nil_iff.1 heq.symm).2 hback
  | cons item rest ih =>
      rw [beyond]
      by_cases h : spent < budget
      · rw [if_pos h]
        obtain ⟨covered, hitems, hpaid, hshortest⟩ := ih (spent + cost item)
        refine ⟨item :: covered, ?_, ?_, ?_⟩
        · rw [List.cons_append, ← hitems]
        · intro hne
          rw [total_cons]
          have := hpaid hne
          omega
        · intro front back heq hback
          rcases front with _ | ⟨item', front⟩
          · exact h
          · rw [List.cons_append, List.cons.injEq] at heq
            have := hshortest front back heq.2 hback
            rw [total_cons, ← heq.1]
            omega
      · rw [if_neg h]
        refine ⟨[], rfl, fun _ => by rw [total_nil]; omega, ?_⟩
        intro front back heq hback
        exact absurd (List.append_eq_nil_iff.1 heq.symm).2 hback

/-- What is covered is a part of any front that costs the budget. -/
theorem covered_prefix {budget spent : ℕ} {covered front items : List α}
    (hcovered : covered <+: items) (hfront : front <+: items)
    (hshortest : ∀ a b, covered = a ++ b → b ≠ [] → spent + total cost a < budget)
    (hreached : budget ≤ spent + total cost front) : covered <+: front := by
  rcases List.prefix_or_prefix_of_prefix hcovered hfront with h | ⟨rest, hrest⟩
  · exact h
  · rcases rest with _ | ⟨item, rest⟩
    · exact ⟨[], by rw [← hrest, List.append_nil, List.append_nil]⟩
    · have := hshortest front (item :: rest) hrest.symm (List.cons_ne_nil _ _)
      omega

/-- Behind a front that costs the budget nothing is covered. -/
theorem suffix_beyond {budget spent : ℕ} {front back : List α}
    (hreached : budget ≤ spent + total cost front) :
    back <:+ beyond cost budget spent (front ++ back) := by
  obtain ⟨covered, hitems, -, hshortest⟩ := exists_covered cost budget spent (front ++ back)
  obtain ⟨kept, hkept⟩ : covered <+: front :=
    covered_prefix ⟨_, hitems.symm⟩ (List.prefix_append front back) hshortest hreached
  refine ⟨kept, ?_⟩
  rw [← hkept, List.append_assoc] at hitems
  rw [← hkept, List.append_assoc]
  exact List.append_cancel_left hitems

/-- A cut of grouped items falls between two groups, at the end, or inside a group. -/
theorem cut_flatten {groups : List (List α)} {front back : List α}
    (h : groups.flatten = front ++ back) :
    back = [] ∨ ∃ before group after front' back', groups = before ++ group :: after ∧
      group = front' ++ back' ∧ back' ≠ [] ∧ front = before.flatten ++ front' ∧
      back = back' ++ after.flatten := by
  induction groups generalizing front with
  | nil => exact .inl (List.append_eq_nil_iff.1 h.symm).2
  | cons group groups ih =>
      rw [List.flatten_cons] at h
      rcases List.append_eq_append_iff.1 h with ⟨front', hfront, hgroups⟩ | ⟨back', hgroup, hback⟩
      · -- the cut is behind the first group
        rcases ih hgroups with hnil | ⟨before, group', after, front'', back', hg, hg', hne, hf, hb⟩
        · exact .inl hnil
        · refine .inr ⟨group :: before, group', after, front'', back', ?_, hg', hne, ?_, hb⟩
          · rw [hg, List.cons_append]
          · rw [hfront, hf, List.flatten_cons, List.append_assoc]
      · rcases back' with _ | ⟨item, back'⟩
        · -- at the end of the first group
          rw [List.append_nil] at hgroup
          rw [List.nil_append] at hback
          have hnext : groups.flatten = [] ++ back := hback.symm
          rcases ih hnext with
            hnil | ⟨before, group', after, front'', back', hg, hg', hne, hf, hb⟩
          · exact .inl hnil
          · refine .inr ⟨group :: before, group', after, front'', back', ?_, hg', hne, ?_, hb⟩
            · rw [hg, List.cons_append]
            · rw [List.flatten_cons, List.append_assoc, ← hf, List.append_nil, hgroup]
        · exact .inr ⟨[], group, groups, front, item :: back', rfl, hgroup,
            List.cons_ne_nil _ _, rfl, hback⟩

end Budgets
