/-
`Histories.lean` -- lists read from the front.

A history is a list of entries, the oldest first. What holds of an entry may depend on the entries
before it (`Throughout`); what is selected from a history keeps its order, so the selections of two
readers are compared as sublists and prefixes.
-/
import Mathlib

set_option autoImplicit false

namespace Histories

variable {α β : Type}

/-- What holds of every entry, given the entries before it. -/
def Throughout (P : List α → α → Prop) (h : List α) : Prop :=
  ∀ before a after, h = before ++ a :: after → P before a

@[simp] theorem throughout_nil (P : List α → α → Prop) : Throughout P [] :=
  fun _ _ _ h => by simp at h

@[simp] theorem throughout_cons {P : List α → α → Prop} {h : List α} {a : α} :
    Throughout P (a :: h) ↔ P [] a ∧ Throughout (fun before => P (a :: before)) h := by
  constructor
  · intro hall
    exact ⟨hall [] a h rfl, fun before b after hsplit => hall (a :: before) b after
      (congrArg (List.cons a) hsplit)⟩
  · rintro ⟨hfirst, hrest⟩ before b after hsplit
    cases before with
    | nil =>
        obtain ⟨rfl, -⟩ := List.cons.inj hsplit
        exact hfirst
    | cons c before =>
        obtain ⟨rfl, heq⟩ := List.cons.inj hsplit
        exact hrest before b after heq

/-- A sublist whose members come before all others is a prefix. -/
theorem prefix_of_closed {l L : List α} (h : l.Sublist L) (hnodup : L.Nodup)
    (hclosed : L.Pairwise fun earlier later => later ∈ l → earlier ∈ l) : l <+: L := by
  induction h with
  | slnil => exact List.prefix_rfl
  | @cons l L a hsub ih =>
      obtain ⟨hfresh, -⟩ := List.nodup_cons.1 hnodup
      have hempty : l = [] := by
        refine List.eq_nil_iff_forall_not_mem.2 fun b hb => hfresh ?_
        exact hsub.subset ((List.pairwise_cons.1 hclosed).1 b (hsub.subset hb) hb)
      rw [hempty]
      exact List.nil_prefix
  | @cons_cons l L a hsub ih =>
      obtain ⟨hfresh, hnodup⟩ := List.nodup_cons.1 hnodup
      refine (List.prefix_cons_inj a).2 (ih hnodup ?_)
      refine (List.pairwise_cons.1 hclosed).2.imp_of_mem fun {earlier later} hearlier _ himp hl => ?_
      obtain rfl | hmem := List.mem_cons.1 (himp (List.mem_cons_of_mem a hl))
      · exact absurd hearlier hfresh
      · exact hmem

theorem filterMap_concat (f : α → Option β) (l : List α) (a : α) :
    (l ++ [a]).filterMap f = l.filterMap f ++ (f a).toList := by
  rw [List.filterMap_append]
  cases hf : f a <;> simp [hf]

theorem filterMap_sublist {f g : α → Option β} (h : ∀ a b, f a = some b → g a = some b)
    (l : List α) : (l.filterMap f).Sublist (l.filterMap g) := by
  induction l with
  | nil => exact List.Sublist.slnil
  | cons a l ih =>
      cases hf : f a with
      | none =>
          rw [List.filterMap_cons_none hf]
          cases hg : g a with
          | none => rwa [List.filterMap_cons_none hg]
          | some b =>
              rw [List.filterMap_cons_some hg]
              exact ih.cons b
      | some b =>
          rw [List.filterMap_cons_some hf, List.filterMap_cons_some (h a b hf)]
          exact ih.cons_cons b

theorem eq_of_filterMap_nodup {f : α → Option β} {l : List α} (hnodup : (l.filterMap f).Nodup)
    {a a' : α} {b : β} (ha : a ∈ l) (ha' : a' ∈ l) (hf : f a = some b) (hf' : f a' = some b) :
    a = a' := by
  induction l with
  | nil => exact absurd ha List.not_mem_nil
  | cons c l ih =>
      have hrest : (l.filterMap f).Nodup :=
        hnodup.sublist ((List.sublist_cons_self c l).filterMap f)
      have hfresh : ∀ c' ∈ l, f c = some b → f c' ≠ some b := by
        intro c' hc' hc hfc'
        rw [List.filterMap_cons_some hc] at hnodup
        exact (List.nodup_cons.1 hnodup).1 (List.mem_filterMap.2 ⟨c', hc', hfc'⟩)
      obtain hac | hmem := List.mem_cons.1 ha
      · obtain hac' | hmem' := List.mem_cons.1 ha'
        · rw [hac, hac']
        · exact absurd hf' (hfresh a' hmem' (hac ▸ hf))
      · obtain hac' | hmem' := List.mem_cons.1 ha'
        · exact absurd hf (hfresh a hmem (hac' ▸ hf'))
        · exact ih hrest hmem hmem'

/-- A change that a reading does not see. -/
theorem map_modify_of_eq (g : α → β) (f : α → α) (hf : ∀ a, g (f a) = g a) (l : List α)
    (i : ℕ) : (l.modify i f).map g = l.map g := by
  refine List.ext_getElem? fun j => ?_
  rw [List.getElem?_map, List.getElem?_map, List.getElem?_modify]
  cases l[j]? with
  | none => simp
  | some a =>
      by_cases hij : i = j
      · simp [hij, hf]
      · simp [hij]

end Histories
