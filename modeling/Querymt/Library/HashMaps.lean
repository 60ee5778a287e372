/-
`Library/HashMaps.lean` -- a map that is drained in any order.

The map is an association list with distinct keys (`AList`); how it came about decides the
order of its entries and nothing else. Draining gives the entries in an order that is
arbitrary, so what is known of a drained map is what does not depend on it: each key's
entry is there once (`drain_at`), and the keys are those of the map.
-/
import Mathlib.Data.List.AList
import Mathlib.Data.List.Sort

set_option autoImplicit false

namespace HashMaps

variable {κ β γ : Type}

abbrev HashMap (κ β : Type) := AList fun _ : κ => β

/-- `HashMap::drain`: the entries, in the order of the hashes. -/
structure DrainOrder (κ β : Type) where
  drain : HashMap κ β → List (Σ _ : κ, β)
  perm : ∀ m, (drain m).Perm m.entries

/-- What is read off the entry of one key. -/
def at_key [DecidableEq κ] (k : κ) (g : β → Option γ) (e : Σ _ : κ, β) : Option γ :=
  if e.1 = k then g e.2 else none

section

variable [DecidableEq κ]

theorem filterMap_at_key {l : List (Σ _ : κ, β)} (hl : l.NodupKeys) (k : κ) (g : β → Option γ) :
    l.filterMap (at_key k g) = ((l.dlookup k).bind g).toList := by
  induction l with
  | nil => rfl
  | cons e l ih =>
      obtain ⟨j, b⟩ := e
      have hnodup := List.nodupKeys_cons.1 hl
      have hrest := ih hnodup.2
      by_cases hj : j = k
      · subst hj
        -- no other entry has the key
        rw [List.dlookup_eq_none.2 hnodup.1] at hrest
        rw [List.filterMap_cons, at_key, if_pos rfl, hrest, List.dlookup_cons_eq, Option.bind_some]
        cases g b <;> rfl
      · rw [List.filterMap_cons_none (by rw [at_key, if_neg hj]), hrest,
          List.dlookup_cons_ne _ _ (Ne.symm hj)]

/-- A drained map has each key's entry once. -/
theorem drain_at (order : DrainOrder κ β) (m : HashMap κ β) (k : κ) (g : β → Option γ) :
    (order.drain m).filterMap (at_key k g) = ((m.lookup k).bind g).toList := by
  have hnodup : (order.drain m).NodupKeys :=
    (List.perm_nodupKeys (order.perm m)).2 m.nodupKeys
  rw [filterMap_at_key hnodup, List.perm_dlookup k hnodup (order.perm m)]
  rfl

end

theorem drain_empty (order : DrainOrder κ β) : order.drain ∅ = [] :=
  (order.perm ∅).eq_nil

theorem mem_drain_keys (order : DrainOrder κ β) (m : HashMap κ β) {k : κ} :
    k ∈ (order.drain m).map Sigma.fst ↔ k ∈ m :=
  ((order.perm m).map Sigma.fst).mem_iff

/-- A key that is not among those that are inserted. -/
theorem lookup_foldl_of_not_mem [DecidableEq κ] {α : Type} (key : α → κ) (val : α → β) {l : List α}
    {k : κ} (h : k ∉ l.map key) (m : HashMap κ β) :
    (l.foldl (fun m a => m.insert (key a) (val a)) m).lookup k = m.lookup k := by
  induction l generalizing m with
  | nil => rfl
  | cons a l ih =>
      rw [List.map_cons, List.mem_cons, not_or] at h
      rw [List.foldl_cons, ih h.2, AList.lookup_insert_ne h.1]

/-- A key that is inserted with one value only, wherever it comes. -/
theorem lookup_foldl_of_mem [DecidableEq κ] {α : Type} (key : α → κ) (val : α → β) {l : List α}
    {k : κ} {v : β} (hval : ∀ a ∈ l, key a = k → val a = v) (h : k ∈ l.map key) (m : HashMap κ β) :
    (l.foldl (fun m a => m.insert (key a) (val a)) m).lookup k = some v := by
  induction l generalizing m with
  | nil => exact absurd h List.not_mem_nil
  | cons a l ih =>
      rw [List.foldl_cons]
      by_cases hl : k ∈ l.map key
      · exact ih (fun b hb => hval b (List.mem_cons_of_mem a hb)) hl _
      · have hk : k = key a := (List.mem_cons.1 h).resolve_right hl
        rw [lookup_foldl_of_not_mem key val hl, hk, AList.lookup_insert,
          hval a List.mem_cons_self hk.symm]

/-! ## Buckets -/

section

variable [DecidableEq κ]

/-- `map.entry(k).or_default()`, read. -/
def bucket (m : HashMap κ (List β)) (k : κ) : List β := (m.lookup k).getD []

/-- `map.entry(k).or_default()`, changed. -/
def alter (m : HashMap κ (List β)) (k : κ) (f : List β → List β) : HashMap κ (List β) :=
  m.insert k (f (bucket m k))

theorem bucket_alter (m : HashMap κ (List β)) (k k' : κ) (f : List β → List β) :
    bucket (alter m k f) k' = if k' = k then f (bucket m k) else bucket m k' := by
  rw [bucket, alter]
  by_cases hk : k' = k
  · rw [if_pos hk, hk, AList.lookup_insert]
    rfl
  · rw [if_neg hk, AList.lookup_insert_ne hk]
    rfl

/-- Each bucket gets the elements of its key, in their order. -/
theorem bucket_foldl {α : Type} (key : α → κ) (f : List β → α → List β) (l : List α)
    (m : HashMap κ (List β)) (k : κ) :
    bucket (l.foldl (fun m a => alter m (key a) fun b => f b a) m) k =
      (l.filter fun a => decide (key a = k)).foldl f (bucket m k) := by
  induction l generalizing m with
  | nil => rfl
  | cons a l ih =>
      rw [List.foldl_cons, ih, bucket_alter, List.filter_cons]
      by_cases hk : key a = k
      · rw [if_pos hk.symm, if_pos (decide_eq_true hk), List.foldl_cons, hk]
      · rw [if_neg (Ne.symm hk), if_neg (by simpa using hk)]

/-- A new element is in its bucket, and the others are where they were. -/
theorem perm_alter (m : HashMap κ (List β)) (k : κ) (b : β) :
    ((alter m k (· ++ [b])).entries.flatMap Sigma.snd).Perm (m.entries.flatMap Sigma.snd ++ [b]) := by
  have : DecidableEq β := Classical.decEq β
  rw [alter, AList.entries_insert, List.flatMap_cons, bucket, AList.lookup]
  by_cases hk : k ∈ m.entries.keys
  · obtain ⟨c, front, back, hfront, hentries, herase⟩ := List.exists_of_kerase hk
    have hlookup : m.entries.dlookup k = some c := by
      rw [hentries, List.dlookup_append, List.dlookup_eq_none.2 hfront, List.dlookup_cons_eq]
      rfl
    rw [hlookup, herase, hentries, Option.getD_some, List.flatMap_append, List.flatMap_append,
      List.flatMap_cons]
    apply List.perm_iff_count.2
    intro x
    simp only [List.count_append]
    omega
  · rw [List.dlookup_eq_none.2 hk, List.kerase_of_notMem_keys hk]
    exact List.perm_append_comm

/-- The buckets of a map that was filled have each element once, in the bucket of its key. -/
theorem perm_buckets (key : β → κ) (l : List β) (m : HashMap κ (List β)) :
    ((l.foldl (fun m b => alter m (key b) (· ++ [b])) m).entries.flatMap Sigma.snd).Perm
      (m.entries.flatMap Sigma.snd ++ l) := by
  induction l generalizing m with
  | nil => simp
  | cons b l ih =>
      rw [List.foldl_cons]
      refine (ih _).trans (((perm_alter m (key b) b).append_right l).trans ?_)
      rw [List.append_assoc, List.singleton_append]

end

/-- The order in which the keys fall. -/
def falling [LinearOrder κ] : DrainOrder κ β where
  drain := fun m => m.entries.insertionSort fun e e' => e'.1 ≤ e.1
  perm := fun m => List.perm_insertionSort _ m.entries

theorem falling_sorted [LinearOrder κ] (m : HashMap κ β) :
    ((falling (β := β)).drain m).Pairwise fun e e' => e'.1 ≤ e.1 :=
  List.pairwise_insertionSort _ _

end HashMaps
