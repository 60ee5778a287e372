/-
`Library/Forests.lean` -- elements that name their parents, put in order.

Each element of a list has a key and may name the key of a parent. Listing the elements
without a parent, each with its descendants behind it, lists exactly the elements whose
ancestors are all in the list, and each of them once (`mem_listed`, `nodup_listed`).
-/
import Mathlib.Data.List.Nodup
import Mathlib.Data.List.Range
import Mathlib.Data.List.Perm.Basic
import Mathlib.Tactic.Ring

set_option autoImplicit false

namespace Forests

variable {α κ : Type}

section

variable [DecidableEq κ] (key : α → κ) (parent : α → Option κ) (l : List α)

def roots : List α := l.filter fun a => (parent a).isNone

def children (k : κ) : List α := l.filter fun a => decide (parent a = some k)

/-- An element with its descendants behind it, down to a depth. -/
def attach : ℕ → α → List α
  | 0, a => [a]
  | n + 1, a => a :: (children parent l (key a)).flatMap (attach n)

/-- The elements at a depth. -/
def level : ℕ → List α
  | 0 => roots parent l
  | n + 1 => (level n).flatMap fun a => children parent l (key a)

/-- The ancestors are in the list, and there are this many. -/
def AtDepth : ℕ → α → Prop
  | 0, a => parent a = none
  | n + 1, a => ∃ b ∈ l, parent a = some (key b) ∧ AtDepth n b

/-- All ancestors are in the list. -/
def Rooted (a : α) : Prop := ∃ n, AtDepth key parent l n a

end

variable {key : α → κ} {parent : α → Option κ} {l : List α}

/-! ## Depths -/

theorem key_inj (hkeys : (l.map key).Nodup) {a b : α} (ha : a ∈ l) (hb : b ∈ l)
    (h : key a = key b) : a = b :=
  List.inj_on_of_nodup_map hkeys ha hb h

theorem AtDepth.unique (hkeys : (l.map key).Nodup) {n m : ℕ} {a : α}
    (hn : AtDepth key parent l n a) (hm : AtDepth key parent l m a) : n = m := by
  induction n generalizing m a with
  | zero =>
      cases m with
      | zero => rfl
      | succ m =>
          obtain ⟨b, -, hb, -⟩ := hm
          rw [AtDepth] at hn
          rw [hn] at hb
          cases hb
  | succ n ih =>
      obtain ⟨b, hb, hparent, hb'⟩ := hn
      cases m with
      | zero =>
          rw [AtDepth, hparent] at hm
          cases hm
      | succ m =>
          obtain ⟨c, hc, hparent', hc'⟩ := hm
          rw [hparent, Option.some_inj] at hparent'
          rw [← key_inj hkeys hb hc hparent'] at hc'
          rw [ih hb' hc']

/-- Keys and parents may be renamed, as long as they say the same. -/
theorem rooted_map {β κ' : Type} {key' : β → κ'} {parent' : β → Option κ'} {f : α → β}
    (hnone : ∀ a ∈ l, parent' (f a) = none ↔ parent a = none)
    (hsome : ∀ a ∈ l, ∀ b ∈ l, parent' (f a) = some (key' (f b)) ↔ parent a = some (key b))
    {a : α} (ha : a ∈ l) :
    Rooted key' parent' (l.map f) (f a) ↔ Rooted key parent l a := by
  have hdepth : ∀ n, ∀ {b}, b ∈ l →
      (AtDepth key' parent' (l.map f) n (f b) ↔ AtDepth key parent l n b) := by
    intro n
    induction n with
    | zero => exact fun hb => hnone _ hb
    | succ n ih =>
        intro b hb
        rw [AtDepth, AtDepth]
        constructor
        · rintro ⟨c', hc', hparent, hdepth⟩
          obtain ⟨c, hc, rfl⟩ := List.mem_map.1 hc'
          exact ⟨c, hc, (hsome b hb c hc).1 hparent, (ih hc).1 hdepth⟩
        · rintro ⟨c, hc, hparent, hdepth⟩
          exact ⟨f c, List.mem_map_of_mem hc, (hsome b hb c hc).2 hparent, (ih hc).2 hdepth⟩
  exact exists_congr fun n => hdepth n ha

theorem rooted_perm {l' : List α} (h : l.Perm l') {a : α} :
    Rooted key parent l a ↔ Rooted key parent l' a := by
  have hdepth : ∀ n b, AtDepth key parent l n b ↔ AtDepth key parent l' n b := by
    intro n
    induction n with
    | zero => exact fun _ => Iff.rfl
    | succ n ih =>
        intro b
        simp only [AtDepth, h.mem_iff, ih]
  exact exists_congr fun n => hdepth n a

/-! ## Levels -/

section

variable [DecidableEq κ]

theorem mem_level {n : ℕ} {a : α} :
    a ∈ level key parent l n ↔ a ∈ l ∧ AtDepth key parent l n a := by
  induction n generalizing a with
  | zero => simp [level, roots, AtDepth]
  | succ n ih =>
      rw [level, List.mem_flatMap, AtDepth]
      simp only [ih, children, List.mem_filter, decide_eq_true_eq]
      constructor
      · rintro ⟨b, ⟨hb, hdepth⟩, ha, hparent⟩
        exact ⟨ha, b, hb, hparent, hdepth⟩
      · rintro ⟨ha, b, hb, hparent, hdepth⟩
        exact ⟨b, ⟨hb, hdepth⟩, ha, hparent⟩

theorem nodup_children (hl : l.Nodup) (k : κ) : (children parent l k).Nodup := hl.filter _

theorem nodup_level (hkeys : (l.map key).Nodup) (n : ℕ) : (level key parent l n).Nodup := by
  have hl : l.Nodup := hkeys.of_map
  induction n with
  | zero => exact hl.filter _
  | succ n ih =>
      apply List.nodup_flatMap.2
      refine ⟨fun a _ => nodup_children hl _, ?_⟩
      -- a common child of two elements gives both the same key
      refine List.Pairwise.imp_of_mem ?_ ih
      intro a b ha hb hab c hc hc'
      have h := of_decide_eq_true (List.mem_filter.1 hc).2
      have h' := of_decide_eq_true (List.mem_filter.1 hc').2
      rw [h, Option.some_inj] at h'
      exact hab (key_inj hkeys (mem_level.1 ha).1 (mem_level.1 hb).1 h')

theorem nodup_levels (hkeys : (l.map key).Nodup) (n : ℕ) :
    ((List.range n).flatMap (level key parent l)).Nodup := by
  apply List.nodup_flatMap.2
  refine ⟨fun i _ => nodup_level hkeys i, ?_⟩
  refine List.Pairwise.imp_of_mem ?_ List.nodup_range
  intro i j _ _ hij a ha ha'
  exact hij ((mem_level.1 ha).2.unique hkeys (mem_level.1 ha').2)

/-- There are no more levels than elements. -/
theorem AtDepth.lt_length (hkeys : (l.map key).Nodup) {n : ℕ} {a : α} (ha : a ∈ l)
    (h : AtDepth key parent l n a) : n < l.length := by
  have hlevels : ∀ m, ∀ {b}, b ∈ l → AtDepth key parent l m b →
      m + 1 ≤ ((List.range (m + 1)).flatMap (level key parent l)).length := by
    intro m
    induction m with
    | zero =>
        intro b hb hdepth
        have hmem : b ∈ level key parent l 0 := mem_level.2 ⟨hb, hdepth⟩
        have hpos := List.length_pos_of_mem hmem
        have hone : (List.range (0 + 1)).flatMap (level key parent l) = level key parent l 0 := by
          simp
        rw [hone]
        omega
    | succ m ih =>
        intro b hb hdepth
        have hmem : b ∈ level key parent l (m + 1) := mem_level.2 ⟨hb, hdepth⟩
        have hpos := List.length_pos_of_mem hmem
        obtain ⟨c, hc, -, hc'⟩ := hdepth
        have hbefore := ih hc hc'
        rw [List.range_succ, List.flatMap_append, List.length_append, List.flatMap_singleton]
        omega
  have hsub : (List.range (n + 1)).flatMap (level key parent l) ⊆ l := by
    intro b hb
    obtain ⟨i, -, hi⟩ := List.mem_flatMap.1 hb
    exact (mem_level.1 hi).1
  have hle := (List.subperm_of_subset (nodup_levels hkeys (n + 1)) hsub).length_le
  have hmany := hlevels n ha h
  omega

/-! ## The listing -/

theorem perm_levels (n k : ℕ) :
    ((level key parent l k).flatMap (attach key parent l n)).Perm
      ((List.range (n + 1)).flatMap fun i => level key parent l (k + i)) := by
  induction n generalizing k with
  | zero =>
      have h : attach key parent l 0 = fun a => [a] := by
        funext a
        rw [attach]
      rw [h, List.flatMap_singleton']
      simp
  | succ n ih =>
      have hsplit : ((level key parent l k).flatMap (attach key parent l (n + 1))).Perm
          (level key parent l k ++ (level key parent l (k + 1)).flatMap (attach key parent l n)) := by
        have h : attach key parent l (n + 1) =
            fun a => [a] ++ (children parent l (key a)).flatMap (attach key parent l n) := by
          funext a
          rw [attach]
          rfl
        rw [h, level, List.flatMap_assoc]
        have hperm := (List.flatMap_append_perm (level key parent l k) (fun a => [a])
          fun a => (children parent l (key a)).flatMap (attach key parent l n)).symm
        rwa [List.flatMap_singleton'] at hperm
      have hrange : (List.range (n + 1 + 1)).flatMap (fun i => level key parent l (k + i)) =
          level key parent l k ++
            (List.range (n + 1)).flatMap fun i => level key parent l (k + 1 + i) := by
        rw [List.range_succ_eq_map, List.flatMap_cons, List.flatMap_map]
        have hshift : (fun i => level key parent l (k + Nat.succ i)) =
            fun i => level key parent l (k + 1 + i) :=
          funext fun i => congrArg (level key parent l) (by omega)
        exact congrArg (level key parent l k ++ ·) (congrArg (List.flatMap · _) hshift)
      rw [hrange]
      exact hsplit.trans ((ih (k + 1)).append_left _)

/-- The elements without a parent, each with its descendants. -/
def listed (key : α → κ) (parent : α → Option κ) (l : List α) : List α :=
  (roots parent l).flatMap (attach key parent l l.length)

theorem perm_listed :
    (listed key parent l).Perm ((List.range (l.length + 1)).flatMap (level key parent l)) := by
  have h := @perm_levels α κ key parent l _ l.length 0
  simp only [Nat.zero_add] at h
  exact h

theorem nodup_listed (hkeys : (l.map key).Nodup) : (listed key parent l).Nodup :=
  perm_listed.nodup_iff.2 (nodup_levels hkeys _)

theorem mem_listed (hkeys : (l.map key).Nodup) {a : α} :
    a ∈ listed key parent l ↔ a ∈ l ∧ Rooted key parent l a := by
  rw [perm_listed.mem_iff, List.mem_flatMap]
  constructor
  · rintro ⟨n, -, hn⟩
    obtain ⟨ha, hdepth⟩ := mem_level.1 hn
    exact ⟨ha, n, hdepth⟩
  · rintro ⟨ha, n, hdepth⟩
    refine ⟨n, ?_, mem_level.2 ⟨ha, hdepth⟩⟩
    rw [List.mem_range]
    have := hdepth.lt_length hkeys ha
    omega

end

end Forests
