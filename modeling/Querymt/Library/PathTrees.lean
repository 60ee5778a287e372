/-
`PathTrees.lean` -- nested trees from lists of paths.

A list of entries, each a path of names with a value, becomes a tree whose inner nodes
list their children by name: the entries are grouped by their first name, one level at
a time. Looking a path up walks the names down.

For entries of which no path is a prefix of another, the tree holds the entries and
nothing else: a path leads to a leaf exactly when it is an entry
(**`lookup_build_leaf`**), and to an inner node exactly when it is a proper prefix of
one (**`lookup_build_node`**). How the children of a node are ordered does not matter,
so the order is a parameter.
-/
import Mathlib

set_option autoImplicit false

namespace PathTrees

variable {κ β : Type} [DecidableEq κ]

/-! ## 1. Trees -/

inductive Tree (κ β : Type) where
  | leaf (b : β)
  | node (children : List (κ × Tree κ β))

def child (c : κ) (children : List (κ × Tree κ β)) : Option (Tree κ β) :=
  (children.find? fun entry => decide (entry.1 = c)).map Prod.snd

/-- Walk a path down; the empty path leads nowhere, and neither does a path through a leaf. -/
def lookup : List κ → Tree κ β → Option (Tree κ β)
  | [], _ => none
  | _ :: _, .leaf _ => none
  | [c], .node children => child c children
  | c :: d :: rest, .node children => (child c children).bind (lookup (d :: rest))

/-- The entries under a name, with the name taken off. -/
def below (c : κ) (entries : List (List κ × β)) : List (List κ × β) :=
  entries.filterMap fun e =>
    match e.1 with
    | d :: first :: rest => if d = c then some (first :: rest, e.2) else none
    | _ => none

/-- The names with entries under them. -/
def dir_names (entries : List (List κ × β)) : List κ :=
  (entries.filterMap fun e =>
    match e.1 with
    | c :: _ :: _ => some c
    | _ => none).dedup

/-- The entries that are one name. -/
def leaves (entries : List (List κ × β)) : List (κ × Tree κ β) :=
  entries.filterMap fun e =>
    match e.1 with
    | [c] => some (c, .leaf e.2)
    | _ => none

section Build

variable (arrange : List (κ × Tree κ β) → List (κ × Tree κ β))

/-- The tree of the entries, down to a depth; `arrange` orders the children of a node. -/
def build : ℕ → List (List κ × β) → Tree κ β
  | 0, _ => .node []
  | n + 1, entries =>
      .node (arrange ((dir_names entries).map (fun c => (c, build n (below c entries)))
        ++ leaves entries))

/-- The entries have one place each in a tree of depth `n`. -/
structure WellPlaced (n : ℕ) (entries : List (List κ × β)) : Prop where
  unique : ∀ e ∈ entries, ∀ e' ∈ entries, e.1 = e'.1 → e = e'
  nonempty : ∀ e ∈ entries, e.1 ≠ []
  apart : ∀ e ∈ entries, ∀ e' ∈ entries, e.1 <+: e'.1 → e.1 = e'.1
  bounded : ∀ e ∈ entries, e.1.length ≤ n

/-! ## 2. The children of a node -/

variable {arrange} {n : ℕ} {entries : List (List κ × β)} {c : κ}

theorem mem_below {q : List κ} {b : β} :
    (q, b) ∈ below c entries ↔ q ≠ [] ∧ (c :: q, b) ∈ entries := by
  unfold below
  rw [List.mem_filterMap]
  constructor
  · rintro ⟨⟨p, b'⟩, he, heq⟩
    rcases p with _ | ⟨d, _ | ⟨first, rest⟩⟩
    · cases heq
    · cases heq
    · simp only [Option.ite_none_right_eq_some, Option.some.injEq, Prod.mk.injEq] at heq
      obtain ⟨rfl, rfl, rfl⟩ := heq
      exact ⟨List.cons_ne_nil _ _, he⟩
  · rintro ⟨hq, he⟩
    cases q with
    | nil => exact absurd rfl hq
    | cons first rest => exact ⟨_, he, by simp⟩

theorem mem_dir_names :
    c ∈ dir_names entries ↔ ∃ q b, q ≠ [] ∧ (c :: q, b) ∈ entries := by
  unfold dir_names
  rw [List.mem_dedup, List.mem_filterMap]
  constructor
  · rintro ⟨⟨p, b⟩, he, heq⟩
    rcases p with _ | ⟨d, _ | ⟨first, rest⟩⟩
    · cases heq
    · cases heq
    · cases heq
      exact ⟨first :: rest, b, List.cons_ne_nil _ _, he⟩
  · rintro ⟨q, b, hq, he⟩
    cases q with
    | nil => exact absurd rfl hq
    | cons first rest => exact ⟨_, he, rfl⟩

omit [DecidableEq κ] in
theorem mem_leaves {t : Tree κ β} :
    (c, t) ∈ leaves entries ↔ ∃ b, t = .leaf b ∧ ([c], b) ∈ entries := by
  unfold leaves
  rw [List.mem_filterMap]
  constructor
  · rintro ⟨⟨p, b⟩, he, heq⟩
    rcases p with _ | ⟨d, _ | ⟨first, rest⟩⟩
    · cases heq
    · cases heq
      exact ⟨b, rfl, he⟩
    · cases heq
  · rintro ⟨b, rfl, he⟩
    exact ⟨_, he, rfl⟩

theorem WellPlaced.below (h : WellPlaced (n + 1) entries) (c : κ) :
    WellPlaced n (below c entries) where
  unique := by
    rintro ⟨q, b⟩ he ⟨q', b'⟩ he' heq
    have hq : q = q' := heq
    subst hq
    have hsame := h.unique _ (mem_below.1 he).2 _ (mem_below.1 he').2 rfl
    rw [(Prod.mk.inj hsame).2]
  nonempty := fun e he => (mem_below.1 he).1
  apart := by
    rintro ⟨q, b⟩ he ⟨q', b'⟩ he' hpre
    have heq := h.apart _ (mem_below.1 he).2 _ (mem_below.1 he').2
      ((List.prefix_cons_inj c).2 hpre)
    exact (List.cons.inj heq).2
  bounded := by
    rintro ⟨q, b⟩ he
    have hlen := h.bounded _ (mem_below.1 he).2
    simp only [List.length_cons] at hlen
    exact Nat.le_of_succ_le_succ hlen

/-- A name is not both a leaf and a directory. -/
theorem WellPlaced.leaf_not_dir (h : WellPlaced n entries) {b : β} (hleaf : ([c], b) ∈ entries) :
    c ∉ dir_names entries := by
  intro hdir
  obtain ⟨q, b', hq, he⟩ := mem_dir_names.1 hdir
  have heq := h.apart _ hleaf _ he ⟨q, rfl⟩
  exact hq (List.cons.inj heq).2.symm

theorem child_of_mem {t : Tree κ β} {children : List (κ × Tree κ β)} (hmem : (c, t) ∈ children)
    (hunique : ∀ t', (c, t') ∈ children → t' = t) : child c children = some t := by
  unfold child
  cases hfind : children.find? fun entry => decide (entry.1 = c) with
  | none =>
      have hnot := List.find?_eq_none.1 hfind _ hmem
      exact absurd (decide_eq_true rfl) hnot
  | some entry =>
      obtain ⟨c', t'⟩ := entry
      have hname := List.find?_some hfind
      have hc : c' = c := of_decide_eq_true hname
      subst hc
      rw [Option.map_some, hunique t' (List.mem_of_find?_eq_some hfind)]

theorem child_eq_none {children : List (κ × Tree κ β)} (h : ∀ t, (c, t) ∉ children) :
    child c children = none := by
  unfold child
  rw [Option.map_eq_none_iff, List.find?_eq_none]
  rintro ⟨c', t⟩ hmem hname
  have hc : c' = c := of_decide_eq_true hname
  exact h t (hc ▸ hmem)

section Children

variable (harrange : ∀ l, (arrange l).Perm l) (h : WellPlaced (n + 1) entries)
include harrange h

/-- The children of the tree of some entries. -/
theorem child_build (c : κ) :
    ∃ children, build arrange (n + 1) entries = .node children ∧
      (c ∈ dir_names entries → child c children = some (build arrange n (below c entries))) ∧
      (∀ b, ([c], b) ∈ entries → child c children = some (.leaf b)) ∧
      (c ∉ dir_names entries → (∀ b, ([c], b) ∉ entries) → child c children = none) := by
  refine ⟨_, rfl, ?_, ?_, ?_⟩
  all_goals
    have hmem : ∀ t, (c, t) ∈ arrange ((dir_names entries).map
          (fun c => (c, build arrange n (below c entries))) ++ leaves entries) ↔
        (c ∈ dir_names entries ∧ t = build arrange n (below c entries)) ∨
        ∃ b, t = .leaf b ∧ ([c], b) ∈ entries := by
      intro t
      rw [(harrange _).mem_iff, List.mem_append, mem_leaves]
      simp [eq_comm]
  · intro hdir
    apply child_of_mem ((hmem _).2 (.inl ⟨hdir, rfl⟩))
    intro t' ht'
    rcases (hmem t').1 ht' with ⟨-, heq⟩ | ⟨b, -, hleaf⟩
    · exact heq
    · exact absurd hdir (h.leaf_not_dir hleaf)
  · intro b hleaf
    apply child_of_mem ((hmem _).2 (.inr ⟨b, rfl, hleaf⟩))
    intro t' ht'
    rcases (hmem t').1 ht' with ⟨hdir, -⟩ | ⟨b', rfl, hleaf'⟩
    · exact absurd hdir (h.leaf_not_dir hleaf)
    · have hsame := h.unique _ hleaf' _ hleaf rfl
      rw [(Prod.mk.inj hsame).2]
  · intro hdir hleaf
    apply child_eq_none
    intro t ht
    rcases (hmem t).1 ht with ⟨hdir', -⟩ | ⟨b, -, hleaf'⟩
    · exact hdir hdir'
    · exact hleaf b hleaf'

end Children

/-! ## 3. What a path leads to -/

theorem lookup_nil (t : Tree κ β) : lookup [] t = none := by
  unfold lookup
  rfl

/-- A path leads to a leaf exactly when it is an entry. -/
theorem lookup_build_leaf (harrange : ∀ l, (arrange l).Perm l) (h : WellPlaced n entries)
    (p : List κ) (b : β) :
    lookup p (build arrange n entries) = some (.leaf b) ↔ (p, b) ∈ entries := by
  induction p generalizing n entries with
  | nil =>
      rw [lookup_nil]
      refine ⟨fun heq => (by cases heq), fun he => absurd rfl (h.nonempty _ he)⟩
  | cons c rest ih =>
      cases n with
      | zero =>
          refine ⟨fun heq => ?_, fun he => absurd (h.bounded _ he) (by simp)⟩
          cases rest <;> simp [build, lookup, child] at heq
      | succ n =>
          obtain ⟨children, hbuild, hdir, hleaf, hnone⟩ := child_build harrange h c
          rw [hbuild]
          cases rest with
          | nil =>
              show child c children = some (.leaf b) ↔ _
              refine ⟨fun heq => ?_, hleaf b⟩
              by_cases hc : c ∈ dir_names entries
              · rw [hdir hc] at heq
                cases n <;> simp [build] at heq
              · by_contra hno
                have hno' : ∀ b', ([c], b') ∉ entries := by
                  intro b' hb'
                  rw [hleaf b' hb'] at heq
                  cases heq
                  exact hno hb'
                rw [hnone hc hno'] at heq
                cases heq
          | cons d rest =>
              show (child c children).bind (lookup (d :: rest)) = some (.leaf b) ↔ _
              by_cases hc : c ∈ dir_names entries
              · rw [hdir hc, Option.bind_some, ih (h.below c), mem_below]
                exact ⟨fun he => he.2, fun he => ⟨List.cons_ne_nil _ _, he⟩⟩
              · refine ⟨fun heq => ?_, fun he =>
                  absurd (mem_dir_names.2 ⟨_, _, List.cons_ne_nil _ _, he⟩) hc⟩
                by_cases hl : ∃ b', ([c], b') ∈ entries
                · obtain ⟨b', hb'⟩ := hl
                  rw [hleaf b' hb'] at heq
                  cases heq
                · rw [hnone hc fun b' hb' => hl ⟨b', hb'⟩] at heq
                  cases heq

/-- A path leads to an inner node exactly when it is a proper prefix of an entry. -/
theorem lookup_build_node (harrange : ∀ l, (arrange l).Perm l) (h : WellPlaced n entries)
    (p : List κ) :
    (∃ children, lookup p (build arrange n entries) = some (.node children)) ↔
      p ≠ [] ∧ ∃ q b, q ≠ [] ∧ (p ++ q, b) ∈ entries := by
  induction p generalizing n entries with
  | nil =>
      rw [lookup_nil]
      simp
  | cons c rest ih =>
      cases n with
      | zero =>
          constructor
          · rintro ⟨children, heq⟩
            cases rest <;> simp [build, lookup, child] at heq
          · rintro ⟨-, q, b, -, he⟩
            exact absurd (h.bounded _ he) (by simp)
      | succ n =>
          obtain ⟨children, hbuild, hdir, hleaf, hnone⟩ := child_build harrange h c
          rw [hbuild]
          -- a name that is no directory leads to no inner node
          have hfile : c ∉ dir_names entries → ∀ t, child c children = some t →
              ∃ b, t = .leaf b := by
            intro hc t ht
            by_cases hl : ∃ b', ([c], b') ∈ entries
            · obtain ⟨b', hb'⟩ := hl
              rw [hleaf b' hb'] at ht
              cases ht
              exact ⟨b', rfl⟩
            · rw [hnone hc fun b' hb' => hl ⟨b', hb'⟩] at ht
              cases ht
          cases rest with
          | nil =>
              constructor
              · rintro ⟨grandchildren, heq⟩
                have heq' : child c children = some (.node grandchildren) := heq
                refine ⟨List.cons_ne_nil _ _, ?_⟩
                by_contra hno
                obtain ⟨b, hb⟩ := hfile (fun hc => hno (mem_dir_names.1 hc)) _ heq'
                cases hb
              · rintro ⟨-, q, b, hq, he⟩
                have hc : c ∈ dir_names entries := mem_dir_names.2 ⟨q, b, hq, he⟩
                show ∃ grandchildren, child c children = some (.node grandchildren)
                rw [hdir hc]
                cases n with
                | zero => exact ⟨_, rfl⟩
                | succ n => exact ⟨_, rfl⟩
          | cons d rest =>
              show (∃ grandchildren, (child c children).bind (lookup (d :: rest))
                = some (.node grandchildren)) ↔ _
              by_cases hc : c ∈ dir_names entries
              · rw [hdir hc, Option.bind_some, ih (h.below c)]
                constructor
                · rintro ⟨-, q, b, hq, he⟩
                  exact ⟨List.cons_ne_nil _ _, q, b, hq, (mem_below.1 he).2⟩
                · rintro ⟨-, q, b, hq, he⟩
                  exact ⟨List.cons_ne_nil _ _, q, b, hq,
                    mem_below.2 ⟨List.cons_ne_nil _ _, he⟩⟩
              · constructor
                · rintro ⟨grandchildren, heq⟩
                  cases hchild : child c children with
                  | none =>
                      rw [hchild] at heq
                      cases heq
                  | some t =>
                      obtain ⟨b, rfl⟩ := hfile hc t hchild
                      rw [hchild] at heq
                      cases heq
                · rintro ⟨-, q, b, -, he⟩
                  exact absurd (mem_dir_names.2 ⟨_, b, List.cons_ne_nil d (rest ++ q), he⟩) hc

end Build

end PathTrees
