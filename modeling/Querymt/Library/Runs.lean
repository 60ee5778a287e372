/-
`Runs.lean` -- finite runs of a deterministic step function.

The state machines of this development are all a state type `σ`, an input type
`ι` and a total step `σ → ι → σ`; every law about one of them is a law about the
fold of that step over a list of inputs. This file is the reasoning interface:
what holds at every step of a run (`Along`), what holds until something happens
(`Until`), what orders the states of a run (`trace`), how much of something a run
accumulates (`tally`), and runs that carry ghost data next to the state
(`instrument`).
-/
import Mathlib.Data.List.Basic
import Mathlib.Order.Basic

set_option autoImplicit false

namespace Runs

variable {σ ι γ : Type*}

/-! ## 1. Runs and step laws -/

/-- The state after the inputs `is`. -/
def run (step : σ → ι → σ) (s : σ) (is : List ι) : σ :=
  is.foldl step s

/-- `P` holds of every state of the run together with the input taken there. -/
def Along (step : σ → ι → σ) (P : σ → ι → Prop) : σ → List ι → Prop
  | _, [] => True
  | s, i :: is => P s i ∧ Along step P (step s i) is

/-- **Weak until**: `P` holds of every step up to and including the first one
that ends in a `Q` state; of every step, when there is none. -/
def Until (step : σ → ι → σ) (P : σ → ι → Prop) (Q : σ → Prop) : σ → List ι → Prop
  | _, [] => True
  | s, i :: is => P s i ∧ (Q (step s i) ∨ Until step P Q (step s i) is)

/-- The states of a run, from the first to the last. -/
def trace (step : σ → ι → σ) (s : σ) (is : List ι) : List σ :=
  is.scanl step s

/-- The sum of the weights of the steps of a run. -/
def tally (step : σ → ι → σ) (w : σ → ι → ℕ) : σ → List ι → ℕ
  | _, [] => 0
  | s, i :: is => w s i + tally step w (step s i) is

instance Along.decidable (step : σ → ι → σ) (P : σ → ι → Prop)
    [hP : ∀ s i, Decidable (P s i)] : ∀ s is, Decidable (Along step P s is)
  | _, [] => isTrue trivial
  | s, i :: is =>
      have := hP s i
      have := Along.decidable step P (step s i) is
      inferInstanceAs (Decidable (P s i ∧ Along step P (step s i) is))

instance Until.decidable (step : σ → ι → σ) (P : σ → ι → Prop) (Q : σ → Prop)
    [hP : ∀ s i, Decidable (P s i)] [hQ : DecidablePred Q] :
    ∀ s is, Decidable (Until step P Q s is)
  | _, [] => isTrue trivial
  | s, i :: is =>
      have := hP s i
      have := hQ (step s i)
      have := Until.decidable step P Q (step s i) is
      inferInstanceAs (Decidable (P s i ∧ (Q (step s i) ∨ Until step P Q (step s i) is)))

section

variable {step : σ → ι → σ} {P C U : σ → ι → Prop} {Q I : σ → Prop}

@[simp] theorem run_nil (s : σ) : run step s [] = s := rfl

@[simp] theorem run_cons (s : σ) (i : ι) (is : List ι) :
    run step s (i :: is) = run step (step s i) is := rfl

theorem run_append (s : σ) (is js : List ι) :
    run step s (is ++ js) = run step (run step s is) js :=
  List.foldl_append

@[simp] theorem along_nil (s : σ) : Along step P s [] := trivial

@[simp] theorem along_cons (s : σ) (i : ι) (is : List ι) :
    Along step P s (i :: is) ↔ P s i ∧ Along step P (step s i) is := Iff.rfl

theorem along_append (s : σ) (is js : List ι) :
    Along step P s (is ++ js) ↔ Along step P s is ∧ Along step P (run step s is) js := by
  induction is generalizing s with
  | nil => simp
  | cons i is ih =>
      rw [List.cons_append, along_cons, along_cons, ih, run_cons]
      exact and_assoc.symm

/-- A step law that follows from another one pointwise follows along every run. -/
theorem Along.imp {s : σ} {is : List ι} (h : Along step P s is)
    (hPC : ∀ s, ∀ i ∈ is, P s i → C s i) : Along step C s is := by
  induction is generalizing s with
  | nil => trivial
  | cons i is ih =>
      obtain ⟨hi, his⟩ := h
      refine ⟨hPC s i (by simp) hi, ih his ?_⟩
      intro s j hj
      exact hPC s j (by simp [hj])

theorem along_of_forall {s : σ} {is : List ι} (h : ∀ s, ∀ i ∈ is, P s i) : Along step P s is := by
  induction is generalizing s with
  | nil => trivial
  | cons i is ih =>
      refine ⟨h s i (by simp), ih ?_⟩
      intro s j hj
      exact h s j (by simp [hj])

/-- Two step laws that agree on the inputs of a run hold along it together. -/
theorem along_congr {s : σ} {is : List ι} (h : ∀ s, ∀ i ∈ is, P s i ↔ C s i) :
    Along step P s is ↔ Along step C s is :=
  ⟨fun hP => hP.imp fun s i hi => (h s i hi).1, fun hC => hC.imp fun s i hi => (h s i hi).2⟩

/-- Two step laws that agree wherever a third one holds, along a run where it does. -/
theorem Along.congr {s : σ} {is : List ι} (hU : Along step U s is)
    (h : ∀ s i, U s i → (P s i ↔ C s i)) : Along step P s is ↔ Along step C s is := by
  induction is generalizing s with
  | nil => exact Iff.rfl
  | cons i is ih => exact and_congr (h s i hU.1) (ih hU.2)

theorem Along.and {s : σ} {is : List ι} (hP : Along step P s is) (hC : Along step C s is) :
    Along step (fun s i => P s i ∧ C s i) s is := by
  induction is generalizing s with
  | nil => trivial
  | cons i is ih => exact ⟨⟨hP.1, hC.1⟩, ih hP.2 hC.2⟩

/-- **The invariant rule.** What every step keeps, where the step meets the
condition `C`, holds after a run all of whose steps meet `C`. -/
theorem run_invariant {s : σ} {is : List ι} (hC : Along step C s is)
    (hstep : ∀ s i, I s → C s i → I (step s i)) (hI : I s) : I (run step s is) := by
  induction is generalizing s with
  | nil => exact hI
  | cons i is ih => exact ih hC.2 (hstep s i hI hC.1)

/-- The safety form of the invariant rule: what the invariant and the condition
give for one step holds along the run. -/
theorem along_of_invariant {s : σ} {is : List ι} (hC : Along step C s is)
    (hstep : ∀ s i, I s → C s i → I (step s i)) (hP : ∀ s i, I s → C s i → P s i)
    (hI : I s) : Along step P s is := by
  induction is generalizing s with
  | nil => trivial
  | cons i is ih => exact ⟨hP s i hI hC.1, ih hC.2 (hstep s i hI hC.1)⟩

/-- Two step laws that agree in every `I` state hold together along a run, when the
first keeps `I`. -/
theorem along_iff_of_invariant {s : σ} {is : List ι} (hPC : ∀ s i, I s → (P s i ↔ C s i))
    (hstep : ∀ s i, I s → P s i → I (step s i)) (hI : I s) :
    Along step P s is ↔ Along step C s is := by
  induction is generalizing s with
  | nil => exact Iff.rfl
  | cons i is ih =>
      constructor
      · rintro ⟨hP, hrest⟩
        exact ⟨(hPC s i hI).1 hP, (ih (hstep s i hI hP)).1 hrest⟩
      · rintro ⟨hC, hrest⟩
        have hP := (hPC s i hI).2 hC
        exact ⟨hP, (ih (hstep s i hI hP)).2 hrest⟩

theorem trace_nil (s : σ) : trace step s [] = [s] := List.scanl_nil

theorem trace_cons (s : σ) (i : ι) (is : List ι) :
    trace step s (i :: is) = s :: trace step (step s i) is := List.scanl_cons

theorem run_mem_trace (s : σ) (is : List ι) : run step s is ∈ trace step s is := by
  induction is generalizing s with
  | nil =>
      rw [trace_nil]
      exact List.mem_singleton_self s
  | cons i is ih =>
      rw [trace_cons, run_cons]
      exact List.mem_cons_of_mem s (ih (step s i))

/-- What holds in all states of a run holds at its start and after every step. -/
theorem forall_trace_iff {s : σ} {is : List ι} : (∀ t ∈ trace step s is, I t) ↔
    I s ∧ Along step (fun s i => I (step s i)) s is := by
  induction is generalizing s with
  | nil =>
      rw [trace_nil, List.forall_mem_singleton]
      exact (and_iff_left trivial).symm
  | cons i is ih =>
      rw [trace_cons, List.forall_mem_cons, ih]
      exact Iff.rfl

/-- **The monotonicity rule.** A preorder that every step follows orders all states of
the run. -/
theorem pairwise_trace {R : σ → σ → Prop} (htrans : ∀ a b c, R a b → R b c → R a c) {s : σ}
    {is : List ι} (h : Along step (fun s i => R s (step s i)) s is) :
    (trace step s is).Pairwise R := by
  -- everything reached from `s` is above whatever is below `s`
  have habove : ∀ (is : List ι) (s b : σ), Along step (fun s i => R s (step s i)) s is → R b s →
      ∀ t ∈ trace step s is, R b t := by
    intro is
    induction is with
    | nil =>
        intro s b _ hbs t ht
        rw [trace_nil, List.mem_singleton] at ht
        rw [ht]
        exact hbs
    | cons i is ih =>
        intro s b hs hbs t ht
        rw [trace_cons, List.mem_cons] at ht
        rcases ht with rfl | ht
        · exact hbs
        · exact ih (step s i) b hs.2 (htrans b s _ hbs hs.1) t ht
  induction is generalizing s with
  | nil =>
      rw [trace_nil]
      exact List.pairwise_singleton R s
  | cons i is ih =>
      rw [trace_cons, List.pairwise_cons]
      exact ⟨habove is (step s i) s h.2 h.1, ih h.2⟩

/-- **The potential rule.** When no step makes `φ` plus what `w` counts outgrow
what `v` counts, a run's `w` total is bounded by its `v` total. -/
theorem tally_le_of_potential {w v : σ → ι → ℕ} (φ : σ → ℕ) {s : σ} {is : List ι}
    (hC : Along step C s is)
    (hstep : ∀ s i, C s i → w s i + φ (step s i) ≤ v s i + φ s) :
    tally step w s is + φ (run step s is) ≤ tally step v s is + φ s := by
  induction is generalizing s with
  | nil => simp [tally]
  | cons i is ih =>
      have hi := hstep s i hC.1
      have his := ih hC.2
      simp only [tally, run_cons]
      omega

/-- What every counted step takes from a stock is counted no more often than the stock
has. -/
theorem tally_le_stock {w : σ → ι → ℕ} (φ : σ → ℕ) {s : σ} {is : List ι}
    (hC : Along step C s is) (hstep : ∀ s i, C s i → w s i + φ (step s i) ≤ φ s) :
    tally step w s is ≤ φ s := by
  induction is generalizing s with
  | nil => exact Nat.zero_le _
  | cons i is ih =>
      have hi := hstep s i hC.1
      have his := ih hC.2
      simp only [tally]
      omega

/-- **The until rule.** Where two step laws agree in every `I` state, and a step
that meets the first ends in a `Q` state or in an `I` state again, they hold until
`Q` together. -/
theorem until_congr {s : σ} {is : List ι} (hPC : ∀ s, ∀ i ∈ is, I s → (P s i ↔ C s i))
    (hstep : ∀ s, ∀ i ∈ is, I s → P s i → Q (step s i) ∨ I (step s i)) (hI : I s) :
    Until step P Q s is ↔ Until step C Q s is := by
  induction is generalizing s with
  | nil => exact Iff.rfl
  | cons i is ih =>
      have hPCi := hPC s i (by simp) hI
      -- past a `Q` state both are settled; otherwise the invariant carries on
      have hrest : P s i →
          ((Q (step s i) ∨ Until step P Q (step s i) is) ↔
            (Q (step s i) ∨ Until step C Q (step s i) is)) := by
        intro hP
        rcases hstep s i (by simp) hI hP with hQ | hI'
        · simp [hQ]
        · rw [ih (fun s j hj => hPC s j (by simp [hj])) (fun s j hj => hstep s j (by simp [hj])) hI']
      constructor
      · rintro ⟨hP, hU⟩
        exact ⟨hPCi.1 hP, (hrest hP).1 hU⟩
      · rintro ⟨hC, hU⟩
        exact ⟨hPCi.2 hC, (hrest (hPCi.2 hC)).2 hU⟩

end

/-! ## 2. Ghost data

`upd` computes the ghost part from the state before the step; the state part of
an instrumented run is the plain run. -/

/-- One step of the machine next to one update of the ghost data. -/
def instrument (step : σ → ι → σ) (upd : σ → ι → γ → γ) (p : σ × γ) (i : ι) : σ × γ :=
  (step p.1 i, upd p.1 i p.2)

theorem run_instrument_fst (step : σ → ι → σ) (upd : σ → ι → γ → γ) (p : σ × γ)
    (is : List ι) : (run (instrument step upd) p is).1 = run step p.1 is := by
  induction is generalizing p with
  | nil => rfl
  | cons i is ih => rw [run_cons, run_cons, ih]; rfl

/-- A step law of the machine holds along the instrumented run. -/
theorem Along.instrument {step : σ → ι → σ} {P : σ → ι → Prop} (upd : σ → ι → γ → γ) {p : σ × γ}
    {is : List ι} (h : Along step P p.1 is) :
    Along (instrument step upd) (fun q i => P q.1 i) p is := by
  induction is generalizing p with
  | nil => trivial
  | cons i is ih => exact ⟨h.1, ih h.2⟩

/-! ## 3. Scripts

A handler of a message is a script: from the state it starts in, it decides which
elementary inputs to take. `seq` runs the second script in the state the first
one left; `each` runs one script after another over a list. -/

/-- The elementary inputs a handler takes, from the state it starts in. -/
abbrev Script (σ ι : Type*) := σ → List ι

/-- `a`, then `b` in the state `a` left. -/
def Script.seq (step : σ → ι → σ) (a b : Script σ ι) : Script σ ι :=
  fun s => a s ++ b (run step s (a s))

/-- `f x` for each element of the list, in order. -/
def Script.each {α : Type*} (step : σ → ι → σ) (f : α → Script σ ι) : List α → Script σ ι
  | [] => fun _ => []
  | x :: xs => Script.seq step (f x) (Script.each step f xs)

/-- The triple `{I} a {I}` with the step law `P` on the way, for the runs of `a` all
of whose steps meet the condition `C`. -/
def Script.Keeps (step : σ → ι → σ) (I : σ → Prop) (C P : σ → ι → Prop)
    (a : Script σ ι) : Prop :=
  ∀ s, I s → Along step C s (a s) → Along step P s (a s) ∧ I (run step s (a s))

/-- Every input the script takes satisfies `p`, from whatever state it starts. -/
def Script.Emits (p : ι → Prop) (a : Script σ ι) : Prop :=
  ∀ s, ∀ i ∈ a s, p i

/-- The script of a machine, run next to ghost data it does not read. -/
def Script.lift (γ : Type*) (a : Script σ ι) : Script (σ × γ) ι :=
  fun p => a p.1

section

variable {step : σ → ι → σ} {I : σ → Prop} {C P : σ → ι → Prop}

theorem Script.Keeps.seq {a b : Script σ ι} (ha : Script.Keeps step I C P a)
    (hb : Script.Keeps step I C P b) : Script.Keeps step I C P (Script.seq step a b) := by
  intro s hI hC
  simp only [Script.seq, along_append, run_append] at hC ⊢
  obtain ⟨hPa, hIa⟩ := ha s hI hC.1
  obtain ⟨hPb, hIb⟩ := hb _ hIa hC.2
  exact ⟨⟨hPa, hPb⟩, hIb⟩

theorem Script.Keeps.each {α : Type*} {f : α → Script σ ι} {xs : List α}
    (hf : ∀ x ∈ xs, Script.Keeps step I C P (f x)) :
    Script.Keeps step I C P (Script.each step f xs) := by
  induction xs with
  | nil => exact fun s hI _ => ⟨trivial, hI⟩
  | cons x xs ih =>
      refine Script.Keeps.seq (hf x (by simp)) (ih ?_)
      intro y hy
      exact hf y (by simp [hy])

theorem Script.Emits.seq {p : ι → Prop} {a b : Script σ ι} (ha : Script.Emits p a)
    (hb : Script.Emits p b) : Script.Emits p (Script.seq step a b) := by
  intro s i hi
  rcases List.mem_append.1 hi with hi | hi
  · exact ha s i hi
  · exact hb _ i hi

theorem Script.Emits.each {α : Type*} {p : ι → Prop} {f : α → Script σ ι} {xs : List α}
    (hf : ∀ x ∈ xs, Script.Emits p (f x)) : Script.Emits p (Script.each step f xs) := by
  induction xs with
  | nil => simp [Script.Emits, Script.each]
  | cons x xs ih =>
      refine Script.Emits.seq (hf x (by simp)) (ih ?_)
      intro y hy
      exact hf y (by simp [hy])

theorem Script.Emits.mono {p q : ι → Prop} {a : Script σ ι} (ha : Script.Emits p a)
    (h : ∀ i, p i → q i) : Script.Emits q a :=
  fun s i hi => h i (ha s i hi)

/-- What every turn of a loop keeps, the loop keeps. -/
theorem Script.each_keeps {α : Type*} (I : σ → Prop) {f : α → Script σ ι} {xs : List α}
    (hI : ∀ x ∈ xs, ∀ s, I s → I (run step s (f x s))) {s : σ} (hs : I s) :
    I (run step s (Script.each step f xs s)) := by
  have hkeeps : Script.Keeps step I (fun _ _ => True) (fun _ _ => True)
      (Script.each step f xs) := by
    apply Script.Keeps.each
    intro x hx t hIt _
    exact ⟨along_of_forall fun _ _ _ => trivial, hI x hx t hIt⟩
  exact (hkeeps s hs (along_of_forall fun _ _ _ => trivial)).2

/-- **The turn rule.** In a loop in which exactly one turn takes `I` to `Q` and every
other turn keeps both, the loop takes `I` to `Q`. -/
theorem Script.each_turn {α : Type*} (I Q : σ → Prop) {own : α → Prop} {f : α → Script σ ι}
    {xs : List α} (honce : xs.Pairwise fun x y => ¬ (own x ∧ own y)) (hown : ∃ x ∈ xs, own x)
    (hturn : ∀ x ∈ xs, own x → ∀ s, I s → Q (run step s (f x s)))
    (hI : ∀ x ∈ xs, ¬ own x → ∀ s, I s → I (run step s (f x s)))
    (hQ : ∀ x ∈ xs, ¬ own x → ∀ s, Q s → Q (run step s (f x s)))
    {s : σ} (hs : I s) : Q (run step s (Script.each step f xs s)) := by
  induction xs generalizing s with
  | nil =>
      obtain ⟨x, hx, -⟩ := hown
      cases hx
  | cons x xs ih =>
      obtain ⟨hx, honce⟩ := List.pairwise_cons.1 honce
      simp only [Script.each, Script.seq, run_append]
      by_cases hxown : own x
      · -- after its own turn only the others are left
        refine Script.each_keeps Q ?_ (hturn x (by simp) hxown s hs)
        intro y hy
        exact hQ y (by simp [hy]) fun hyown => hx y hy ⟨hxown, hyown⟩
      · obtain ⟨y, hy, hyown⟩ := hown
        have hyxs : y ∈ xs := by
          rcases List.mem_cons.1 hy with rfl | hy
          · exact absurd hyown hxown
          · exact hy
        refine ih honce ⟨y, hyxs, hyown⟩ ?_ ?_ ?_ (hI x (by simp) hxown s hs)
        · exact fun z hz => hturn z (by simp [hz])
        · exact fun z hz => hI z (by simp [hz])
        · exact fun z hz => hQ z (by simp [hz])

theorem Script.lift_seq (upd : σ → ι → γ → γ) (a b : Script σ ι) :
    (Script.seq step a b).lift γ =
      Script.seq (instrument step upd) (a.lift γ) (b.lift γ) := by
  funext p
  simp only [Script.lift, Script.seq, run_instrument_fst]

theorem Script.lift_each {α : Type*} (upd : σ → ι → γ → γ) (f : α → Script σ ι)
    (xs : List α) :
    (Script.each step f xs).lift γ =
      Script.each (instrument step upd) (fun x => (f x).lift γ) xs := by
  induction xs with
  | nil => rfl
  | cons x xs ih => rw [Script.each, Script.lift_seq upd, ih]; rfl

end

/-! ## 4. Scripts next to ghost data -/

/-- The triple for a script whose runs carry ghost data. -/
def Script.KeepsGhost (step : σ → ι → σ) (upd : σ → ι → γ → γ) (I : σ × γ → Prop)
    (C P : σ × γ → ι → Prop) (a : Script σ ι) : Prop :=
  Script.Keeps (instrument step upd) I C P (a.lift γ)

section

variable {step : σ → ι → σ} {upd : σ → ι → γ → γ} {I : σ × γ → Prop} {C P : σ × γ → ι → Prop}

theorem Script.KeepsGhost.none : Script.KeepsGhost step upd I C P fun _ => [] :=
  fun _ hI _ => ⟨trivial, hI⟩

theorem Script.KeepsGhost.one {i : ι}
    (h : ∀ p, I p → C p i → P p i ∧ I (instrument step upd p i)) :
    Script.KeepsGhost step upd I C P fun _ => [i] := by
  intro p hI hC
  obtain ⟨hP, hI'⟩ := h p hI hC.1
  exact ⟨⟨hP, trivial⟩, hI'⟩

theorem Script.KeepsGhost.seq {a b : Script σ ι} (ha : Script.KeepsGhost step upd I C P a)
    (hb : Script.KeepsGhost step upd I C P b) :
    Script.KeepsGhost step upd I C P (Script.seq step a b) := by
  unfold Script.KeepsGhost
  rw [Script.lift_seq upd]
  exact Script.Keeps.seq ha hb

theorem Script.KeepsGhost.each {α : Type*} {f : α → Script σ ι} {xs : List α}
    (hf : ∀ x ∈ xs, Script.KeepsGhost step upd I C P (f x)) :
    Script.KeepsGhost step upd I C P (Script.each step f xs) := by
  unfold Script.KeepsGhost
  rw [Script.lift_each upd]
  exact Script.Keeps.each hf

end

end Runs
