/-
`Library/Parts.lean` -- a machine that emits, and one part of its state.

A step takes an input and gives what is emitted and the next state. When the inputs that
concern a part of the state are the only ones that change it, the part runs on these inputs
as if there were no others (`part_run`), whatever stands between them. So when a part only
ever sees one course of inputs, what the machine emits at each of them is known from that
course (`emitted_eq_flatMap`).
-/
import Mathlib.Data.List.Basic
import Mathlib.Data.List.Induction

set_option autoImplicit false

namespace Parts

variable {σ τ ι γ : Type*}

/-- What some inputs emit, and the state after them. -/
def run (step : σ → ι → List γ × σ) : σ → List ι → List γ × σ
  | s, [] => ([], s)
  | s, i :: is => ((step s i).1 ++ (run step (step s i).2 is).1, (run step (step s i).2 is).2)

section

variable {step : σ → ι → List γ × σ} {s : σ} {is js : List ι}

theorem run_append (s : σ) (is js : List ι) :
    run step s (is ++ js) =
      ((run step s is).1 ++ (run step (run step s is).2 js).1,
        (run step (run step s is).2 js).2) := by
  induction is generalizing s with
  | nil => rfl
  | cons i is ih => rw [List.cons_append, run, ih, run, List.append_assoc]

theorem run_map {κ : Type*} (f : κ → ι) (s : σ) (ks : List κ) :
    run step s (ks.map f) = run (fun s k => step s (f k)) s ks := by
  induction ks generalizing s with
  | nil => rfl
  | cons k ks ih => rw [List.map_cons, run, run, ih]

/-- A step that does what several smaller steps do: so does a run. -/
theorem run_flatMap {κ α : Type*} {big : σ → κ → List γ × σ} {g : κ → List ι}
    {f : γ → Option α} {ks : List κ}
    (h : ∀ s, ∀ k ∈ ks, (big s k).1.filterMap f = (run step s (g k)).1.filterMap f ∧
      (big s k).2 = (run step s (g k)).2) (s : σ) :
    (run big s ks).1.filterMap f = (run step s (ks.flatMap g)).1.filterMap f ∧
      (run big s ks).2 = (run step s (ks.flatMap g)).2 := by
  induction ks generalizing s with
  | nil => exact ⟨rfl, rfl⟩
  | cons k ks ih =>
      obtain ⟨hout, hstate⟩ := h s k List.mem_cons_self
      obtain ⟨hrest, hlast⟩ := ih (fun s k' hk => h s k' (List.mem_cons_of_mem k hk)) (big s k).2
      rw [run, List.flatMap_cons, run_append, List.filterMap_append, List.filterMap_append, hout,
        hrest, hlast, hstate]
      exact ⟨rfl, rfl⟩

/-- What is emitted, when each input emits what it reports wherever it stands. -/
theorem emitted_eq_flatMap {report : ι → List γ}
    (h : ∀ before i after, is = before ++ i :: after →
      (step (run step s before).2 i).1 = report i) :
    (run step s is).1 = is.flatMap report := by
  induction is using List.reverseRecOn with
  | nil => rfl
  | append_singleton is i ih =>
      have hlast := h is i [] rfl
      have hfront : (run step s is).1 = is.flatMap report := by
        apply ih
        intro before j after hsplit
        apply h before j (after ++ [i])
        rw [hsplit, List.append_assoc, List.cons_append]
      rw [run_append, List.flatMap_append, hfront, List.flatMap_singleton, ← hlast, run, run,
        List.append_nil]

end

/-- Inputs that report nothing may be left out. -/
theorem flatMap_filter {own : ι → Bool} {f : ι → List γ} (h : ∀ i, own i = false → f i = [])
    (is : List ι) : (is.filter own).flatMap f = is.flatMap f := by
  induction is with
  | nil => rfl
  | cons i is ih =>
      by_cases hi : own i = true
      · rw [List.filter_cons_of_pos hi, List.flatMap_cons, List.flatMap_cons, ih]
      · rw [List.filter_cons_of_neg hi, List.flatMap_cons, ih, h i (by simpa using hi),
          List.nil_append]

/-- What is read off the reports, when each report has at most one thing to read. -/
theorem filterMap_reports {α : Type*} {f : ι → List γ} {g : γ → Option α} {k : ι → Option α}
    (h : ∀ i, (f i).filterMap g = (k i).toList) (is : List ι) :
    (is.flatMap f).filterMap g = is.filterMap k := by
  rw [List.filterMap_flatMap, List.filterMap_eq_flatMap_toList]
  exact List.flatMap_congr fun i _ => h i

/-! ## A part of the state -/

/-- The part that `view` shows changes as `act` says at the inputs of its `own`, and not at the
others. -/
structure Local (step : σ → ι → List γ × σ) (view : σ → τ) (own : ι → Bool)
    (act : τ → ι → τ) : Prop where
  mine : ∀ s i, own i = true → view (step s i).2 = act (view s) i
  others : ∀ s i, own i = false → view (step s i).2 = view s

variable {step : σ → ι → List γ × σ} {view : σ → τ} {own : ι → Bool} {act : τ → ι → τ}

/-- A part runs on its own inputs. -/
theorem part_run (h : Local step view own act) (s : σ) (is : List ι) :
    view (run step s is).2 = (is.filter own).foldl act (view s) := by
  induction is generalizing s with
  | nil => rfl
  | cons i is ih =>
      rw [run, ih]
      by_cases hi : own i = true
      · rw [List.filter_cons_of_pos hi, List.foldl_cons, h.mine s i hi]
      · rw [List.filter_cons_of_neg hi, h.others s i (by simpa using hi)]

/-- What is emitted about a part, when it is emitted at the part's own inputs. -/
theorem part_emits {α : Type*} (h : Local step view own act) {f : γ → Option α}
    {out : τ → ι → List α} (hmine : ∀ s i, own i = true → (step s i).1.filterMap f = out (view s) i)
    (hothers : ∀ s i, own i = false → (step s i).1.filterMap f = []) (s : σ) (is : List ι) :
    (run step s is).1.filterMap f =
      (run (fun t i => (out t i, act t i)) (view s) (is.filter own)).1 := by
  induction is generalizing s with
  | nil => rfl
  | cons i is ih =>
      rw [run, List.filterMap_append, ih]
      by_cases hi : own i = true
      · rw [List.filter_cons_of_pos hi, run, hmine s i hi, h.mine s i hi]
      · have hfalse : own i = false := by simpa using hi
        rw [List.filter_cons_of_neg hi, hothers s i hfalse, h.others s i hfalse, List.nil_append]

/-- The part before an input that comes once in the course of its own inputs. -/
theorem part_before (h : Local step view own act) {s : σ} {is before after course : List ι}
    {i : ι} (hsplit : is = before ++ i :: after) (hi : own i = true)
    (hcourse : is.filter own = course ++ [i]) (honce : i ∉ course) :
    view (run step s before).2 = course.foldl act (view s) := by
  have hboth : course ++ i :: [] = before.filter own ++ i :: after.filter own := by
    rw [← hcourse, hsplit, List.filter_append, List.filter_cons_of_pos hi]
  have hfront : course = before.filter own :=
    ((List.append_cons_inj_of_notMem honce List.not_mem_nil).1 hboth).1
  rw [part_run h, hfront]

/-! ## Inputs in groups -/

/-- The group in which an input stands. -/
theorem split_groups {groups : List (List ι)} {front back : List ι} {i : ι}
    (h : groups.flatten = front ++ i :: back) :
    ∃ before pre post after, groups = before ++ (pre ++ i :: post) :: after ∧
      before.flatten ++ pre = front ∧ post ++ after.flatten = back := by
  induction groups generalizing front with
  | nil => exact absurd h.symm (List.append_ne_nil_of_right_ne_nil _ (List.cons_ne_nil _ _))
  | cons group groups ih =>
      rw [List.flatten_cons] at h
      obtain ⟨rest, rfl, hrest⟩ | ⟨rest, rfl, hrest⟩ := List.append_eq_append_iff.1 h
      · -- the group ends before the input
        obtain ⟨before, pre, post, after, rfl, rfl, rfl⟩ := ih hrest
        exact ⟨group :: before, pre, post, after, rfl, by simp, rfl⟩
      · rcases rest with _ | ⟨j, post⟩
        · have hnil : groups.flatten = [] ++ i :: back := hrest.symm
          obtain ⟨before, pre, post, after, rfl, hpre, rfl⟩ := ih hnil
          obtain ⟨hbefore, rfl⟩ := List.append_eq_nil_iff.1 hpre
          exact ⟨(front ++ []) :: before, [], post, after, rfl, by simp [hbefore], rfl⟩
        · obtain ⟨rfl, rfl⟩ := List.cons.inj hrest
          exact ⟨[], front, post, groups, rfl, rfl, rfl⟩

end Parts
