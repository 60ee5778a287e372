/-
`Transactions.lean` -- unsynchronised read-modify-write jobs over one store.

A job reads the files of its requests, checks each request against what it read,
validates the whole, and then writes every file it has read, from what it has read.
Jobs run side by side: one step is one atomic read or write of one job, and the steps
of different jobs come in any order. Nothing locks a file between a job's read and its
write.

The file proves when such a run is serial after all: when nobody writes a file that
another job, one that goes on to succeed, has read and is still to write, and no job
fails after a write, the store is what the successful jobs leave when they run one
after another, in the order of their first writes.
-/
import Mathlib
import Querymt.Library.Runs

set_option autoImplicit false
set_option linter.unusedSectionVars false

open Runs

namespace Transactions

variable {κ α ε ι : Type*} [DecidableEq κ] [DecidableEq ι]

/-! ## 1. Jobs -/

/-- The files that exist, with their contents; also the files a job has loaded. -/
abbrev Store (κ α : Type*) := κ → Option α

/-- One request: the file it is about, and its check against the content. -/
abbrev Request (κ α ε : Type*) := κ × (α → Except ε Unit)

/-- A job; `order` is the order in which it writes its files. -/
structure Job (κ α ε : Type*) where
  requests : List (Request κ α ε)
  validate : Store κ α → Except ε Unit
  order : List κ
  apply : Store κ α → κ → Except ε α
  missing : κ → ε
  some_request : requests ≠ []
  distinct : order.Nodup
  covers : ∀ k, k ∈ order ↔ k ∈ requests.map Prod.fst

inductive Phase (κ α ε : Type*) where
  /-- the next request waits for its file -/
  | reading (rest : List (Request κ α ε)) (loaded : Store κ α)
  /-- the files still to write; none left is success -/
  | writing (todo : List κ) (loaded : Store κ α)
  | failed (error : ε)

/-- From one read to the next: the requests whose files are loaded are checked. -/
def Job.settle (job : Job κ α ε) (loaded : Store κ α) : List (Request κ α ε) → Phase κ α ε
  | [] =>
      match job.validate loaded with
      | .error e => .failed e
      | .ok () => .writing job.order loaded
  | (k, check) :: rest =>
      match loaded k with
      | none => .reading ((k, check) :: rest) loaded
      | some a =>
          match check a with
          | .error e => .failed e
          | .ok () => Job.settle job loaded rest

def Job.start (job : Job κ α ε) : Phase κ α ε := job.settle (fun _ => none) job.requests

/-- One read or write; `io` is the error with which it fails, if it does. -/
def Job.advance (job : Job κ α ε) (s : Store κ α × Phase κ α ε) (io : Option ε) :
    Store κ α × Phase κ α ε :=
  match s.2 with
  | .reading ((k, check) :: rest) loaded =>
      match io, s.1 k with
      | some e, _ => (s.1, .failed e)
      | none, none => (s.1, .failed (job.missing k))
      | none, some a =>
          (s.1, job.settle (Function.update loaded k (some a)) ((k, check) :: rest))
  | .writing (k :: todo) loaded =>
      match job.apply loaded k, io with
      | .error e, _ => (s.1, .failed e)
      | .ok _, some e => (s.1, .failed e)
      | .ok a, none => (Function.update s.1 k (some a), .writing todo loaded)
  | .reading [] _ | .writing [] _ | .failed _ => s

/-- The file that the next step writes. -/
def Job.writes (job : Job κ α ε) (phase : Phase κ α ε) (io : Option ε) : Option κ :=
  match phase, io with
  | .writing (k :: _) loaded, none =>
      match job.apply loaded k with
      | .error _ => none
      | .ok _ => some k
  | _, _ => none

/-- The job on its own, to its end. -/
def Job.alone (job : Job κ α ε) (store : Store κ α) : Store κ α × Phase κ α ε :=
  run job.advance (store, job.start)
    (List.replicate (job.requests.length + job.order.length) none)

def Phase.succeeded : Phase κ α ε → Bool
  | .writing [] _ => true
  | _ => false

theorem Phase.succeeded_iff {phase : Phase κ α ε} :
    phase.succeeded = true ↔ ∃ loaded, phase = .writing [] loaded := by
  rcases phase with ⟨rest, loaded⟩ | ⟨_ | ⟨k, todo⟩, loaded⟩ | e
  · exact ⟨fun h => (by cases h), fun ⟨_, h⟩ => by cases h⟩
  · exact ⟨fun _ => ⟨loaded, rfl⟩, fun _ => rfl⟩
  · exact ⟨fun h => (by cases h), fun ⟨_, h⟩ => by cases h⟩
  · exact ⟨fun h => (by cases h), fun ⟨_, h⟩ => by cases h⟩

/-- **The window**: a file that was read and is still to be written. -/
def Phase.Holds : Phase κ α ε → κ → Prop
  | .reading _ loaded, k => (loaded k).isSome = true
  | .writing todo _, k => k ∈ todo
  | .failed _, _ => False

instance (phase : Phase κ α ε) (k : κ) : Decidable (phase.Holds k) :=
  match phase with
  | .reading _ loaded => inferInstanceAs (Decidable ((loaded k).isSome = true))
  | .writing todo _ => inferInstanceAs (Decidable (k ∈ todo))
  | .failed _ => inferInstanceAs (Decidable False)

/-! ## 2. Jobs side by side -/

structure System (κ α ε ι : Type*) where
  store : Store κ α
  phase : ι → Phase κ α ε

/-- The job `i` takes its next step. -/
def step (jobs : ι → Job κ α ε) (s : System κ α ε ι) (i : ι × Option ε) : System κ α ε ι :=
  let next := (jobs i.1).advance (s.store, s.phase i.1) i.2
  ⟨next.1, Function.update s.phase i.1 next.2⟩

def start (jobs : ι → Job κ α ε) (store : Store κ α) : System κ α ε ι :=
  ⟨store, fun i => (jobs i).start⟩

/-- The jobs one after another. -/
def serial (jobs : ι → Job κ α ε) (order : List ι) (store : Store κ α) : Store κ α :=
  order.foldl (fun store i => ((jobs i).alone store).1) store

/-- **The condition**, for the jobs `good` that succeed in the end: who writes is one of
them, and no other one of them has read the file and is still to write it. -/
def Undisturbed (jobs : ι → Job κ α ε) (good : ι → Prop) (s : System κ α ε ι)
    (i : ι × Option ε) : Prop :=
  ∀ k ∈ (jobs i.1).writes (s.phase i.1) i.2,
    good i.1 ∧ ∀ j, j ≠ i.1 → good j → ¬ (s.phase j).Holds k

instance [Fintype ι] (jobs : ι → Job κ α ε) (good : ι → Prop) [DecidablePred good]
    (s : System κ α ε ι) (i : ι × Option ε) : Decidable (Undisturbed jobs good s i) :=
  inferInstanceAs (Decidable (∀ k ∈ (jobs i.1).writes (s.phase i.1) i.2,
    good i.1 ∧ ∀ j, j ≠ i.1 → good j → ¬ (s.phase j).Holds k))

/-! ## 3. One job -/

/-- Requests that passed their check. -/
def Checked (loaded : Store κ α) (requests : List (Request κ α ε)) : Prop :=
  ∀ r ∈ requests, ∃ a, loaded r.1 = some a ∧ r.2 a = .ok ()

/-- `loaded` agrees with `final` as far as it goes. -/
def Within (loaded final : Store κ α) : Prop := ∀ k a, loaded k = some a → final k = some a

section

variable {job : Job κ α ε} {loaded final : Store κ α} {phase : Phase κ α ε} {store : Store κ α}
  {io : Option ε} {k : κ}

theorem Job.mem_order {r : Request κ α ε} (h : r ∈ job.requests) : r.1 ∈ job.order :=
  (job.covers r.1).2 (List.mem_map_of_mem h)

/-- What the checks between two reads come to. -/
theorem Job.settle_cases (job : Job κ α ε) (loaded : Store κ α) (rest : List (Request κ α ε)) :
    (∃ e, job.settle loaded rest = .failed e) ∨
      (∃ done r rest', rest = done ++ r :: rest' ∧ Checked loaded done ∧ loaded r.1 = none ∧
        job.settle loaded rest = .reading (r :: rest') loaded) ∨
      (Checked loaded rest ∧ job.validate loaded = .ok () ∧
        job.settle loaded rest = .writing job.order loaded) := by
  induction rest with
  | nil =>
      rw [Job.settle]
      rcases hvalid : job.validate loaded with e | ⟨⟩
      · exact .inl ⟨e, rfl⟩
      · exact .inr (.inr ⟨fun r hr => (by cases hr), rfl, rfl⟩)
  | cons r rest ih =>
      obtain ⟨k, check⟩ := r
      rw [Job.settle]
      rcases hloaded : loaded k with _ | a
      · exact .inr (.inl ⟨[], (k, check), rest, rfl, fun r hr => (by cases hr), hloaded, rfl⟩)
      · dsimp only
        rcases hcheck : check a with e | ⟨⟩
        · exact .inl ⟨e, rfl⟩
        · -- the head is checked; the rest is the induction
          have hhead : ∀ l, Checked loaded l → Checked loaded ((k, check) :: l) := by
            intro l hl r hr
            rcases List.mem_cons.1 hr with rfl | hr
            · exact ⟨a, hloaded, hcheck⟩
            · exact hl r hr
          rcases ih with hfail | ⟨done, r, rest', hrest, hdone, hnone, heq⟩ | ⟨hall, hvalid, heq⟩
          · exact .inl hfail
          · refine .inr (.inl ⟨(k, check) :: done, r, rest', ?_, hhead done hdone, hnone, heq⟩)
            rw [hrest, List.cons_append]
          · exact .inr (.inr ⟨hhead rest hall, hvalid, heq⟩)

theorem Job.start_eq (job : Job κ α ε) : job.start = .reading job.requests fun _ => none := by
  rw [Job.start]
  rcases hr : job.requests with _ | ⟨⟨k, check⟩, rest⟩
  · exact absurd hr job.some_request
  · rw [Job.settle]

/-- **Inversion of a step**: it changes nothing, fails, reads or writes. -/
theorem Job.advance_cases (job : Job κ α ε) (store : Store κ α) (phase : Phase κ α ε)
    (io : Option ε) :
    (job.advance (store, phase) io = (store, phase) ∧ job.writes phase io = none) ∨
      (∃ e, job.advance (store, phase) io = (store, .failed e) ∧ job.writes phase io = none) ∨
      (∃ k check rest loaded a, phase = .reading ((k, check) :: rest) loaded ∧
        store k = some a ∧ job.writes phase io = none ∧ job.advance (store, phase) io =
          (store, job.settle (Function.update loaded k (some a)) ((k, check) :: rest))) ∨
      (∃ k todo loaded a, phase = .writing (k :: todo) loaded ∧ job.apply loaded k = .ok a ∧
        job.writes phase io = some k ∧ job.advance (store, phase) io =
          (Function.update store k (some a), .writing todo loaded)) := by
  rcases phase with ⟨_ | ⟨⟨k, check⟩, rest⟩, loaded⟩ | ⟨_ | ⟨k, todo⟩, loaded⟩ | e
  · exact .inl ⟨rfl, rfl⟩
  · rcases io with _ | e
    · rcases hstore : store k with _ | a
      · refine .inr (.inl ⟨job.missing k, ?_, rfl⟩)
        rw [Job.advance]
        dsimp only
        rw [hstore]
      · refine .inr (.inr (.inl ⟨k, check, rest, loaded, a, rfl, hstore, rfl, ?_⟩))
        rw [Job.advance]
        dsimp only
        rw [hstore]
    · exact .inr (.inl ⟨e, rfl, rfl⟩)
  · exact .inl ⟨rfl, by rcases io <;> rfl⟩
  · rcases happly : job.apply loaded k with e | a
    · refine .inr (.inl ⟨e, ?_, ?_⟩)
      · rw [Job.advance]
        dsimp only
        rw [happly]
      · rcases io with _ | e'
        · rw [Job.writes, happly]
        · rfl
    · rcases io with _ | e
      · refine .inr (.inr (.inr ⟨k, todo, loaded, a, rfl, happly, ?_, ?_⟩))
        · rw [Job.writes, happly]
        · rw [Job.advance]
          dsimp only
          rw [happly]
      · refine .inr (.inl ⟨e, ?_, rfl⟩)
        rw [Job.advance]
        dsimp only
        rw [happly]
  · exact .inl ⟨rfl, by rcases io <;> rfl⟩

/-- What a job knows in a phase. -/
def Sound (job : Job κ α ε) : Phase κ α ε → Prop
  | .reading rest loaded =>
      (∃ done r rest', job.requests = done ++ rest ∧ rest = r :: rest' ∧ loaded r.1 = none ∧
        Checked loaded done) ∧
      ∀ k, (loaded k).isSome = true → k ∈ job.order
  | .writing todo loaded =>
      Checked loaded job.requests ∧ job.validate loaded = .ok () ∧
        (∀ k, (loaded k).isSome = true → k ∈ job.order) ∧
        ∃ written, job.order = written ++ todo ∧ ∀ k ∈ written, ∃ a, job.apply loaded k = .ok a
  | .failed _ => True

theorem sound_start (job : Job κ α ε) : Sound job job.start := by
  rw [Job.start_eq]
  refine ⟨?_, fun k hk => by cases hk⟩
  rcases hr : job.requests with _ | ⟨r, rest⟩
  · exact absurd hr job.some_request
  · exact ⟨[], r, rest, rfl, rfl, rfl, fun r hr => by cases hr⟩

theorem Checked.loaded_of_mem_order (h : Checked loaded job.requests) (hk : k ∈ job.order) :
    (loaded k).isSome = true := by
  obtain ⟨r, hr, rfl⟩ := List.mem_map.1 ((job.covers k).1 hk)
  obtain ⟨a, ha, -⟩ := h r hr
  rw [ha]
  rfl

/-- A read leaves the requests checked before it as they are. -/
theorem Checked.update {done : List (Request κ α ε)} (h : Checked loaded done)
    (hnone : loaded k = none) (a : α) : Checked (Function.update loaded k (some a)) done := by
  intro r hr
  obtain ⟨b, hb, hcheck⟩ := h r hr
  have hne : r.1 ≠ k := by
    intro heq
    rw [heq, hnone] at hb
    cases hb
  exact ⟨b, by rw [Function.update_of_ne hne, hb], hcheck⟩

theorem sound_settle {done : List (Request κ α ε)} {check : α → Except ε Unit}
    {rest : List (Request κ α ε)} {a : α}
    (hrequests : job.requests = done ++ (k, check) :: rest) (hnone : loaded k = none)
    (hdone : Checked loaded done) (hkeys : ∀ k, (loaded k).isSome = true → k ∈ job.order) :
    Sound job (job.settle (Function.update loaded k (some a)) ((k, check) :: rest)) := by
  have hdone' := hdone.update hnone a
  have hkeys' : ∀ k', (Function.update loaded k (some a) k').isSome = true → k' ∈ job.order := by
    intro k' hk'
    by_cases heq : k' = k
    · rw [heq]
      have hmem : (k, check) ∈ job.requests := by
        rw [hrequests]
        exact List.mem_append_right done List.mem_cons_self
      exact Job.mem_order hmem
    · rw [Function.update_of_ne heq] at hk'
      exact hkeys k' hk'
  rcases job.settle_cases (Function.update loaded k (some a)) ((k, check) :: rest) with
    ⟨e, heq⟩ | ⟨more, r, rest', hrest, hmore, hnone', heq⟩ | ⟨hall, hvalid, heq⟩
  · rw [heq]
    trivial
  · rw [heq]
    refine ⟨⟨done ++ more, r, rest', ?_, rfl, hnone', ?_⟩, hkeys'⟩
    · rw [hrequests, hrest, List.append_assoc]
    · intro r hr
      rcases List.mem_append.1 hr with hr | hr
      · exact hdone' r hr
      · exact hmore r hr
  · rw [heq]
    refine ⟨?_, hvalid, hkeys', [], rfl, fun k hk => by cases hk⟩
    rw [hrequests]
    intro r hr
    rcases List.mem_append.1 hr with hr | hr
    · exact hdone' r hr
    · exact hall r hr

theorem sound_advance (h : Sound job phase) : Sound job (job.advance (store, phase) io).2 := by
  rcases job.advance_cases store phase io with ⟨heq, -⟩ | ⟨e, heq, -⟩ |
    ⟨k, check, rest, loaded, a, rfl, -, -, heq⟩ | ⟨k, todo, loaded, a, rfl, happly, -, heq⟩
  · rw [heq]
    exact h
  · rw [heq]
    trivial
  · rw [heq]
    obtain ⟨⟨done, r, rest', hrequests, hrest, hnone, hdone⟩, hkeys⟩ := h
    rw [List.cons.injEq] at hrest
    rw [← hrest.1] at hnone
    exact sound_settle hrequests hnone hdone hkeys
  · rw [heq]
    obtain ⟨hall, hvalid, hkeys, written, horder, hwritten⟩ := h
    refine ⟨hall, hvalid, hkeys, written ++ [k], ?_, ?_⟩
    · rw [horder, List.append_assoc, List.singleton_append]
    · intro k' hk'
      rcases List.mem_append.1 hk' with hk' | hk'
      · exact hwritten k' hk'
      · rw [List.mem_singleton.1 hk']
        exact ⟨a, happly⟩

/-! ## 4. Jobs that will succeed

`final` is what the job has loaded when it ends; where it stands before can only be on
the way there. -/

def Toward (final : Store κ α) : Phase κ α ε → Prop
  | .reading _ loaded => Within loaded final
  | .writing _ loaded => loaded = final
  | .failed _ => False

/-- What the phase after a read has loaded. -/
theorem toward_settle {rest : List (Request κ α ε)} (h : Toward final (job.settle loaded rest)) :
    Within loaded final := by
  rcases job.settle_cases loaded rest with ⟨e, heq⟩ | ⟨_, r, rest', -, -, -, heq⟩ | ⟨-, -, heq⟩
  · rw [heq] at h
    cases h
  · rw [heq] at h
    exact h
  · rw [heq] at h
    have hloaded : loaded = final := h
    rw [hloaded]
    exact fun k a hk => hk

theorem toward_of_advance (hsound : Sound job phase)
    (h : Toward final (job.advance (store, phase) io).2) : Toward final phase := by
  rcases job.advance_cases store phase io with ⟨heq, -⟩ | ⟨e, heq, -⟩ |
    ⟨k, check, rest, loaded, a, rfl, -, -, heq⟩ | ⟨k, todo, loaded, a, rfl, -, -, heq⟩
  · rw [heq] at h
    exact h
  · rw [heq] at h
    cases h
  · rw [heq] at h
    obtain ⟨⟨done, r, rest', -, hrest, hnone, -⟩, -⟩ := hsound
    rw [List.cons.injEq] at hrest
    rw [← hrest.1] at hnone
    have hwithin := toward_settle h
    intro k' b hb
    have hne : k' ≠ k := by
      intro heq
      rw [heq, hnone] at hb
      cases hb
    refine hwithin k' b ?_
    rw [Function.update_of_ne hne]
    exact hb
  · rw [heq] at h
    exact h

/-- A window stays open until its file is written. -/
theorem holds_advance (hsound : Sound job phase)
    (htoward : Toward final (job.advance (store, phase) io).2) (hk : phase.Holds k)
    (hwrites : job.writes phase io ≠ some k) : (job.advance (store, phase) io).2.Holds k := by
  rcases job.advance_cases store phase io with ⟨heq, -⟩ | ⟨e, heq, -⟩ |
    ⟨k', check, rest, loaded, a, rfl, -, -, heq⟩ | ⟨k', todo, loaded, a, rfl, -, hw, heq⟩
  · rw [heq]
    exact hk
  · rw [heq] at htoward
    cases htoward
  · rw [heq] at htoward ⊢
    have hloaded : (Function.update loaded k' (some a) k).isSome = true := by
      by_cases h : k = k'
      · rw [h, Function.update_self]
        rfl
      · rw [Function.update_of_ne h]
        exact hk
    rcases job.settle_cases (Function.update loaded k' (some a)) ((k', check) :: rest) with
      ⟨e, hnext⟩ | ⟨_, r, rest', -, -, -, hnext⟩ | ⟨-, -, hnext⟩
    · rw [hnext] at htoward
      cases htoward
    · rw [hnext]
      exact hloaded
    · rw [hnext]
      exact hsound.2 k hk
  · rw [heq]
    rcases List.mem_cons.1 hk with rfl | hk
    · exact absurd hw hwrites
    · exact hk

/-- The windows after a read: those before it, and the file read. -/
theorem holds_settle {rest : List (Request κ α ε)}
    (hsound : Sound job (job.settle loaded rest)) (hk : (job.settle loaded rest).Holds k) :
    (loaded k).isSome = true := by
  rcases job.settle_cases loaded rest with ⟨e, heq⟩ | ⟨_, r, rest', -, -, -, heq⟩ | ⟨-, -, heq⟩
  · rw [heq] at hk
    cases hk
  · rw [heq] at hk
    exact hk
  · rw [heq] at hk hsound
    exact hsound.1.loaded_of_mem_order hk

/-- What a job that succeeded has shown. -/
structure Commits (job : Job κ α ε) (final : Store κ α) : Prop where
  checked : Checked final job.requests
  valid : job.validate final = .ok ()
  keys : ∀ k, (final k).isSome = true → k ∈ job.order
  applied : ∀ k ∈ job.order, ∃ a, job.apply final k = .ok a

theorem commits_of_sound (h : Sound job (.writing [] final)) : Commits job final := by
  obtain ⟨hall, hvalid, hkeys, written, horder, hwritten⟩ := h
  rw [List.append_nil] at horder
  rw [← horder] at hwritten
  exact ⟨hall, hvalid, hkeys, hwritten⟩

end

/-! ## 5. A job on its own -/

/-- What a job that loaded `final` makes of a store. -/
def overwrite (job : Job κ α ε) (final store : Store κ α) : Store κ α :=
  fun k => if k ∈ job.order then (job.apply final k).toOption else store k

/-- On its own the job succeeds, and leaves in its files what it makes of them. -/
def Applies (job : Job κ α ε) (store : Store κ α) : Prop :=
  ∃ loaded, (∀ k ∈ job.order, store k = loaded k) ∧
    job.alone store = (overwrite job loaded store, .writing [] loaded)

/-- The steps a job has left. -/
def Phase.left (job : Job κ α ε) : Phase κ α ε → ℕ
  | .reading rest _ => rest.length + job.order.length
  | .writing todo _ => todo.length
  | .failed _ => 0

/-- A job on its own, between `store` and its success. -/
def InLine (job : Job κ α ε) (final store : Store κ α) (s : Store κ α × Phase κ α ε) : Prop :=
  match s.2 with
  | .reading rest loaded =>
      s.1 = store ∧ Within loaded final ∧ Sound job (.reading rest loaded)
  | .writing todo loaded =>
      loaded = final ∧ ∃ written, job.order = written ++ todo ∧
        s.1 = fun k => if k ∈ written then (job.apply final k).toOption else store k
  | .failed _ => False

section

variable {job : Job κ α ε} {final store loaded : Store κ α} {k : κ}

theorem Commits.loaded_of_mem_order (h : Commits job final) (hk : k ∈ job.order) :
    ∃ a, final k = some a :=
  Option.isSome_iff_exists.1 (h.checked.loaded_of_mem_order hk)

/-- A job that has loaded everything has loaded `final`. -/
theorem Commits.eq_of_within (h : Commits job final) (hwithin : Within loaded final)
    (hall : Checked loaded job.requests) : loaded = final := by
  funext k
  rcases hk : final k with _ | a
  · rcases hl : loaded k with _ | b
    · rfl
    · rw [hwithin k b hl] at hk
      cases hk
  · have hmem : k ∈ job.order := h.keys k (by rw [hk]; rfl)
    obtain ⟨b, hb⟩ := Option.isSome_iff_exists.1 (hall.loaded_of_mem_order hmem)
    rw [hb, ← hk, hwithin k b hb]

/-- The checks of a job that commits do not fail on the way. -/
theorem Commits.settle_ne_failed (h : Commits job final) (hwithin : Within loaded final)
    {done rest : List (Request κ α ε)} (hrequests : job.requests = done ++ rest)
    (hdone : Checked loaded done) (e : ε) : job.settle loaded rest ≠ .failed e := by
  induction rest generalizing done with
  | nil =>
      rw [List.append_nil] at hrequests
      rw [← hrequests] at hdone
      rw [Job.settle, h.eq_of_within hwithin hdone, h.valid]
      intro heq
      cases heq
  | cons r rest ih =>
      obtain ⟨k, check⟩ := r
      rw [Job.settle]
      rcases hk : loaded k with _ | a
      · intro heq
        cases heq
      · have hmem : (k, check) ∈ job.requests := by
          rw [hrequests]
          exact List.mem_append_right done List.mem_cons_self
        obtain ⟨b, hb, hcheck⟩ := h.checked (k, check) hmem
        rw [hwithin k a hk, Option.some.injEq] at hb
        rw [← hb] at hcheck
        dsimp only at hcheck ⊢
        rw [hcheck]
        refine @ih (done ++ [(k, check)]) ?_ ?_
        · rw [hrequests, List.append_assoc, List.singleton_append]
        · intro r hr
          rcases List.mem_append.1 hr with hr | hr
          · exact hdone r hr
          · rw [List.mem_singleton.1 hr]
            exact ⟨a, hk, hcheck⟩

/-- The read of a job on its own. -/
theorem inLine_read (hcommits : Commits job final) {check : α → Except ε Unit}
    {rest : List (Request κ α ε)} {a : α} (hwithin : Within loaded final)
    (hsound : Sound job (.reading ((k, check) :: rest) loaded)) (hk : final k = some a) :
    InLine job final store
        (store, job.settle (Function.update loaded k (some a)) ((k, check) :: rest)) ∧
      (job.settle (Function.update loaded k (some a)) ((k, check) :: rest)).left job <
        rest.length + 1 + job.order.length := by
  obtain ⟨⟨done, r, rest', hrequests, hrest, hnone, hdone⟩, hkeys⟩ := hsound
  rw [List.cons.injEq] at hrest
  rw [← hrest.1] at hnone
  have hwithin' : Within (Function.update loaded k (some a)) final := by
    intro k' b hb
    by_cases heq : k' = k
    · rw [heq, Function.update_self] at hb
      rw [heq, hk, hb]
    · rw [Function.update_of_ne heq] at hb
      exact hwithin k' b hb
  have hsound' : Sound job (job.settle (Function.update loaded k (some a)) ((k, check) :: rest)) :=
    sound_settle hrequests hnone hdone hkeys
  have hdone' := hdone.update hnone a
  rcases job.settle_cases (Function.update loaded k (some a)) ((k, check) :: rest) with
    ⟨e, heq⟩ | ⟨more, r', rest'', hrest', hmore, hnone', heq⟩ | ⟨hall, hvalid, heq⟩
  · exact absurd heq (hcommits.settle_ne_failed hwithin' hrequests hdone' e)
  · rw [heq] at hsound' ⊢
    refine ⟨⟨rfl, hwithin', hsound'⟩, ?_⟩
    -- the request that was waiting is checked, so one at least is gone
    have hlen : (r' :: rest'').length ≤ rest.length := by
      rcases more with _ | ⟨first, more⟩
      · rw [List.nil_append, List.cons.injEq] at hrest'
        rw [← hrest'.1, Function.update_self] at hnone'
        cases hnone'
      · rw [List.cons_append, List.cons.injEq] at hrest'
        rw [hrest'.2, List.length_append]
        omega
    simp only [Phase.left]
    omega
  · rw [heq] at hsound' ⊢
    refine ⟨⟨hcommits.eq_of_within hwithin' hsound'.1, [], rfl, ?_⟩, ?_⟩
    · funext k'
      rw [if_neg List.not_mem_nil]
    · simp only [Phase.left]
      omega

theorem inLine_advance (hcommits : Commits job final) (hstore : ∀ k ∈ job.order, store k = final k)
    {s : Store κ α × Phase κ α ε} (h : InLine job final store s) (hleft : s.2.left job ≠ 0) :
    InLine job final store (job.advance s none) ∧
      (job.advance s none).2.left job < s.2.left job := by
  obtain ⟨st, _ | ⟨_ | ⟨k, todo⟩, loaded⟩ | e⟩ := s
  · next rest loaded =>
      obtain ⟨hst, hwithin, hsound⟩ := h
      dsimp only at hst
      obtain ⟨⟨done, ⟨k, check⟩, rest', hrequests, hrest, hnone, hdone⟩, hkeys⟩ := id hsound
      rw [hrest] at hsound hrequests ⊢
      have hmem : (k, check) ∈ job.requests := by
        rw [hrequests]
        exact List.mem_append_right done List.mem_cons_self
      obtain ⟨a, ha, -⟩ := hcommits.checked (k, check) hmem
      have hread : st k = some a := by
        rw [hst, hstore k (Job.mem_order hmem)]
        exact ha
      have heq : job.advance (st, .reading ((k, check) :: rest') loaded) none =
          (st, job.settle (Function.update loaded k (some a)) ((k, check) :: rest')) := by
        rw [Job.advance]
        dsimp only
        rw [hread]
      rw [heq, hst]
      exact inLine_read hcommits hwithin hsound ha
  · exact absurd rfl hleft
  · obtain ⟨hloaded, written, horder, hst⟩ := h
    dsimp only at hloaded hst
    have hmem : k ∈ job.order := by
      rw [horder]
      exact List.mem_append_right written List.mem_cons_self
    obtain ⟨a, ha⟩ := hcommits.applied k hmem
    have heq : job.advance (st, .writing (k :: todo) loaded) none =
        (Function.update st k (some a), .writing todo loaded) := by
      rw [Job.advance, hloaded]
      dsimp only
      rw [ha]
    rw [heq]
    refine ⟨⟨hloaded, written ++ [k], ?_, ?_⟩, Nat.lt_succ_self _⟩
    · rw [horder, List.append_assoc, List.singleton_append]
    · funext k'
      dsimp only
      by_cases hk : k' = k
      · rw [hk, Function.update_self, if_pos (List.mem_append_right _ (List.mem_singleton_self k)),
          ha]
        rfl
      · rw [Function.update_of_ne hk, hst]
        have hiff : k' ∈ written ++ [k] ↔ k' ∈ written := by
          rw [List.mem_append, List.mem_singleton]
          exact or_iff_left hk
        simp only [hiff]
  · cases h

theorem inLine_run (hcommits : Commits job final) (hstore : ∀ k ∈ job.order, store k = final k)
    (n : ℕ) {s : Store κ α × Phase κ α ε} (h : InLine job final store s) (hleft : s.2.left job ≤ n) :
    InLine job final store (run job.advance s (List.replicate n none)) ∧
      (run job.advance s (List.replicate n none)).2.left job = 0 := by
  induction n generalizing s with
  | zero => exact ⟨h, Nat.le_zero.1 hleft⟩
  | succ n ih =>
      rw [List.replicate_succ, run_cons]
      by_cases hzero : s.2.left job = 0
      · -- it has ended, and stays where it is
        have hstay : job.advance s none = s := by
          obtain ⟨st, rest | ⟨_ | ⟨k, todo⟩, loaded⟩ | e⟩ := s
          · obtain ⟨-, -, ⟨⟨done, r, rest', -, hrest, -, -⟩, -⟩⟩ := h
            rw [hrest] at hzero
            simp [Phase.left] at hzero
          · rfl
          · simp [Phase.left] at hzero
          · cases h
        rw [hstay]
        exact ih h (by omega)
      · obtain ⟨h', hless⟩ := inLine_advance hcommits hstore h hzero
        exact ih h' (by omega)

/-- **A job on its own**, from a store in which its files are as it loaded them. -/
theorem alone_eq (hcommits : Commits job final) (hstore : ∀ k ∈ job.order, store k = final k) :
    job.alone store = (overwrite job final store, .writing [] final) := by
  have hstart : InLine job final store (store, job.start) := by
    have hsound := sound_start job
    rw [Job.start_eq] at hsound ⊢
    exact ⟨rfl, fun k a hk => (by cases hk), hsound⟩
  have hleft : job.start.left job = job.requests.length + job.order.length := by
    rw [Job.start_eq]
    rfl
  obtain ⟨hend, hzero⟩ := inLine_run hcommits hstore _ hstart hleft.le
  rw [Job.alone]
  generalize hs : run job.advance (store, job.start)
    (List.replicate (job.requests.length + job.order.length) none) = s at hend hzero ⊢
  obtain ⟨st, rest | ⟨_ | ⟨k, todo⟩, loaded⟩ | e⟩ := s
  · obtain ⟨-, -, ⟨⟨done, r, rest', -, hrest, -, -⟩, -⟩⟩ := hend
    rw [hrest] at hzero
    simp [Phase.left] at hzero
  · obtain ⟨hloaded, written, horder, hst⟩ := hend
    rw [List.append_nil] at horder
    rw [← horder] at hst
    rw [hloaded]
    exact Prod.ext hst rfl
  · simp [Phase.left] at hzero
  · cases hend

end

/-! ## 6. Windows do not overlap

Two jobs that both succeed cannot hold the same file: whoever writes it first does so in
the other's window. -/

section

variable {jobs : ι → Job κ α ε} {good : ι → Prop} {final : ι → Store κ α}
  {s : System κ α ε ι} {i j : ι} {k : κ}

theorem step_phase_self (i : ι × Option ε) :
    (step jobs s i).phase i.1 = ((jobs i.1).advance (s.store, s.phase i.1) i.2).2 :=
  Function.update_self ..

theorem step_phase_of_ne {i : ι × Option ε} (h : j ≠ i.1) :
    (step jobs s i).phase j = s.phase j :=
  Function.update_of_ne h ..

theorem sound_step (h : ∀ i, Sound (jobs i) (s.phase i)) (i : ι × Option ε) (j : ι) :
    Sound (jobs j) ((step jobs s i).phase j) := by
  by_cases hj : j = i.1
  · rw [hj, step_phase_self]
    exact sound_advance (h i.1)
  · rw [step_phase_of_ne hj]
    exact h j

theorem toward_run {schedule : List (ι × Option ε)} (h : ∀ i, Sound (jobs i) (s.phase i))
    {final : Store κ α} (hfinal : (run (step jobs) s schedule).phase i = .writing [] final) :
    Toward final (s.phase i) := by
  induction schedule generalizing s with
  | nil =>
      change s.phase i = _ at hfinal
      rw [hfinal]
      rfl
  | cons a schedule ih =>
      have hnext := ih (sound_step h a) hfinal
      by_cases hi : i = a.1
      · rw [hi, step_phase_self] at hnext
        rw [hi]
        exact toward_of_advance (h a.1) hnext
      · rw [step_phase_of_ne hi] at hnext
        exact hnext

theorem exclusive_run {schedule : List (ι × Option ε)} (h : ∀ i, Sound (jobs i) (s.phase i))
    (hundisturbed : Along (step jobs) (Undisturbed jobs good) s schedule)
    (hfinal : ∀ i, good i → (run (step jobs) s schedule).phase i = .writing [] (final i))
    (hi : good i) (hj : good j) (hne : i ≠ j) (hik : (s.phase i).Holds k) :
    ¬ (s.phase j).Holds k := by
  induction schedule generalizing s with
  | nil =>
      have hend : s.phase i = .writing [] (final i) := hfinal i hi
      rw [hend] at hik
      cases hik
  | cons a schedule ih =>
      intro hjk
      -- neither writes the file now, so both still hold it after the step
      have hkeeps : ∀ l, good l → (s.phase l).Holds k →
          (∀ l', l' ≠ l → ¬ (good l' ∧ (s.phase l').Holds k)) ∨
            ((step jobs s a).phase l).Holds k := by
        intro l hl hlk
        by_cases hla : l = a.1
        · by_cases hwrites : (jobs a.1).writes (s.phase a.1) a.2 = some k
          · left
            intro l' hl' hboth
            exact (hundisturbed.1 k hwrites).2 l' (hla ▸ hl') hboth.1 hboth.2
          · right
            have htoward := toward_run (sound_step h a) (hfinal l hl)
            rw [hla, step_phase_self] at htoward ⊢
            rw [hla] at hlk
            exact holds_advance (h a.1) htoward hlk hwrites
        · right
          rw [step_phase_of_ne hla]
          exact hlk
      rcases hkeeps i hi hik with hnone | hik'
      · exact hnone j (Ne.symm hne) ⟨hj, hjk⟩
      · rcases hkeeps j hj hjk with hnone | hjk'
        · exact hnone i hne ⟨hi, hik⟩
        · exact ih (sound_step h a) hundisturbed.2 hfinal hik' hjk'

end

/-! ## 7. The serial order -/

/-- The jobs of a list one after another, each from what it loaded. -/
def effect (jobs : ι → Job κ α ε) (final : ι → Store κ α) (began : List ι) (store : Store κ α) :
    Store κ α :=
  began.foldl (fun store i => overwrite (jobs i) (final i) store) store

/-- Each job of the list finds its files as it loaded them. -/
def Faithful (jobs : ι → Job κ α ε) (final : ι → Store κ α) : List ι → Store κ α → Prop
  | [], _ => True
  | i :: began, store =>
      (∀ k ∈ (jobs i).order, store k = final i k) ∧
        Faithful jobs final began (overwrite (jobs i) (final i) store)

section

variable {jobs : ι → Job κ α ε} {good : ι → Prop} {final : ι → Store κ α}
  {began : List ι} {init : Store κ α}

theorem faithful_snoc (h : Faithful jobs final began init) {i : ι}
    (hi : ∀ k ∈ (jobs i).order, effect jobs final began init k = final i k) :
    Faithful jobs final (began ++ [i]) init := by
  induction began generalizing init with
  | nil => exact ⟨hi, trivial⟩
  | cons j began ih => exact ⟨h.1, ih h.2 hi⟩

theorem effect_snoc (i : ι) :
    effect jobs final (began ++ [i]) init =
      overwrite (jobs i) (final i) (effect jobs final began init) :=
  List.foldl_concat ..

/-- Jobs that find their files as they loaded them leave the same store when they run
on their own, and succeed. -/
theorem serial_of_faithful (hcommits : ∀ i ∈ began, Commits (jobs i) (final i))
    (h : Faithful jobs final began init) :
    serial jobs began init = effect jobs final began init ∧
      ∀ pre i post, began = pre ++ i :: post → Applies (jobs i) (serial jobs pre init) := by
  induction began generalizing init with
  | nil =>
      refine ⟨rfl, fun pre i post heq => ?_⟩
      exact absurd heq.symm (List.append_ne_nil_of_right_ne_nil _ (List.cons_ne_nil _ _))
  | cons j began ih =>
      have halone := alone_eq (hcommits j List.mem_cons_self) h.1
      have hrest := ih (fun i hi => hcommits i (List.mem_cons_of_mem j hi)) h.2
      have hcons : ∀ l, serial jobs (j :: l) init =
          serial jobs l (overwrite (jobs j) (final j) init) := by
        intro l
        rw [serial, List.foldl_cons, halone]
        rfl
      constructor
      · rw [hcons, hrest.1]
        rfl
      · intro pre i post heq
        rcases pre with _ | ⟨first, pre⟩
        · rw [List.nil_append, List.cons.injEq] at heq
          rw [← heq.1]
          exact ⟨final j, h.1, halone⟩
        · rw [List.cons_append, List.cons.injEq] at heq
          rw [← heq.1, hcons]
          exact hrest.2 pre i post heq.2

end

/-- **The invariant**: the store is what the jobs that began to write leave one after
another, up to the files they are still to write; the others have read the store as it
is. -/
structure Serialised (jobs : ι → Job κ α ε) (good : ι → Prop) (final : ι → Store κ α)
    (init : Store κ α) (began : List ι) (s : System κ α ε ι) : Prop where
  nodup : began.Nodup
  begun : ∀ i ∈ began, good i ∧ ∃ todo loaded, s.phase i = .writing todo loaded
  unbegun : ∀ i, good i → i ∉ began → ∀ todo loaded, s.phase i = .writing todo loaded →
    todo = (jobs i).order
  settled : ∀ k, (∀ i ∈ began, ¬ (s.phase i).Holds k) →
    s.store k = effect jobs final began init k
  pending : ∀ i ∈ began, ∀ k, (s.phase i).Holds k →
    effect jobs final began init k = ((jobs i).apply (final i) k).toOption
  fresh : ∀ i, good i → i ∉ began → ∀ k, (s.phase i).Holds k → s.store k = final i k
  faithful : Faithful jobs final began init

section

variable {jobs : ι → Job κ α ε} {good : ι → Prop} {final : ι → Store κ α}
  {init : Store κ α} {began : List ι} {s s' : System κ α ε ι}

/-- A step that touches neither the store nor a job that succeeds. -/
theorem Serialised.of_same (h : Serialised jobs good final init began s)
    (hstore : s'.store = s.store) (hphase : ∀ i, good i → s'.phase i = s.phase i) :
    Serialised jobs good final init began s' := by
  have hbegan : ∀ i ∈ began, s'.phase i = s.phase i := fun i hi => hphase i (h.begun i hi).1
  constructor
  · exact h.nodup
  · intro i hi
    rw [hbegan i hi]
    exact h.begun i hi
  · intro i hi
    rw [hphase i hi]
    exact h.unbegun i hi
  · intro k hk
    rw [hstore]
    refine h.settled k fun i hi => ?_
    rw [← hbegan i hi]
    exact hk i hi
  · intro i hi
    rw [hbegan i hi]
    exact h.pending i hi
  · intro i hi
    rw [hphase i hi, hstore]
    exact h.fresh i hi
  · exact h.faithful

/-- A job that succeeds reads a file. -/
theorem Serialised.read (h : Serialised jobs good final init began s) {j : ι} (hj : good j)
    {k : κ} {check : α → Except ε Unit} {rest : List (Request κ α ε)} {loaded : Store κ α} {a : α}
    (hphase : s.phase j = .reading ((k, check) :: rest) loaded) (hk : s.store k = some a)
    (hstore : s'.store = s.store) (hothers : ∀ i, i ≠ j → s'.phase i = s.phase i)
    (hnext : s'.phase j =
      (jobs j).settle (Function.update loaded k (some a)) ((k, check) :: rest))
    (hsound : Sound (jobs j) (s'.phase j)) (htoward : Toward (final j) (s'.phase j)) :
    Serialised jobs good final init began s' := by
  have hnot : j ∉ began := by
    intro hmem
    obtain ⟨-, todo, loaded', heq⟩ := h.begun j hmem
    rw [hphase] at heq
    cases heq
  have hne : ∀ i ∈ began, i ≠ j := fun i hi => ne_of_mem_of_not_mem hi hnot
  rw [hnext] at htoward hsound
  constructor
  · exact h.nodup
  · intro i hi
    rw [hothers i (hne i hi)]
    exact h.begun i hi
  · intro i hi hnew todo loaded' heq
    by_cases hij : i = j
    · rw [hij, hnext] at heq
      rcases (jobs j).settle_cases (Function.update loaded k (some a)) ((k, check) :: rest) with
        ⟨e, hcase⟩ | ⟨_, r, rest', -, -, -, hcase⟩ | ⟨-, -, hcase⟩
      · rw [hcase] at heq
        cases heq
      · rw [hcase] at heq
        cases heq
      · rw [hcase, Phase.writing.injEq] at heq
        rw [hij, heq.1]
    · rw [hothers i hij] at heq
      exact h.unbegun i hi hnew todo loaded' heq
  · intro k' hk'
    rw [hstore]
    refine h.settled k' fun i hi => ?_
    rw [← hothers i (hne i hi)]
    exact hk' i hi
  · intro i hi
    rw [hothers i (hne i hi)]
    exact h.pending i hi
  · intro i hi hnew k' hk'
    rw [hstore]
    by_cases hij : i = j
    · rw [hij] at hk' ⊢
      rw [hnext] at hk'
      obtain ⟨b, hb⟩ := Option.isSome_iff_exists.1 (holds_settle hsound hk')
      have hfinal : final j k' = some b := toward_settle htoward k' b hb
      by_cases hkk : k' = k
      · -- the file just read
        rw [hkk, Function.update_self] at hb
        rw [hkk] at hfinal ⊢
        rw [hk, hfinal, hb]
      · rw [Function.update_of_ne hkk] at hb
        refine h.fresh j hj hnot k' ?_
        rw [hphase]
        change (loaded k').isSome = true
        rw [hb]
        rfl
    · rw [hothers i hij] at hk'
      exact h.fresh i hi hnew k' hk'
  · exact h.faithful

/-- A job that has begun writes its next file. -/
theorem Serialised.write (h : Serialised jobs good final init began s) {j : ι} (hmem : j ∈ began)
    {k : κ} {todo : List κ} {loaded : Store κ α} {a : α}
    (hphase : s.phase j = .writing (k :: todo) loaded) (hloaded : loaded = final j)
    (happly : (jobs j).apply loaded k = .ok a)
    (hstore : s'.store = Function.update s.store k (some a))
    (hothers : ∀ i, i ≠ j → s'.phase i = s.phase i) (hnext : s'.phase j = .writing todo loaded)
    (hfree : ∀ i, i ≠ j → good i → ¬ (s.phase i).Holds k) :
    Serialised jobs good final init began s' := by
  have hheld : ∀ k', (s.phase j).Holds k' ↔ k' = k ∨ k' ∈ todo := by
    intro k'
    rw [hphase]
    exact List.mem_cons
  have hvalue : effect jobs final began init k = some a := by
    rw [h.pending j hmem k ((hheld k).2 (.inl rfl)), ← hloaded, happly]
    rfl
  constructor
  · exact h.nodup
  · intro i hi
    by_cases hij : i = j
    · rw [hij]
      exact ⟨(h.begun j hmem).1, todo, loaded, hnext⟩
    · rw [hothers i hij]
      exact h.begun i hi
  · intro i hi hnew todo' loaded' heq
    have hij : i ≠ j := (ne_of_mem_of_not_mem hmem hnew).symm
    rw [hothers i hij] at heq
    exact h.unbegun i hi hnew todo' loaded' heq
  · intro k' hk'
    rw [hstore]
    by_cases hkk : k' = k
    · rw [hkk, Function.update_self, hvalue]
    · rw [Function.update_of_ne hkk]
      refine h.settled k' fun i hi => ?_
      by_cases hij : i = j
      · rw [hij, hheld]
        rintro (heq | htodo)
        · exact hkk heq
        · refine hk' j hmem ?_
          rw [hnext]
          exact htodo
      · rw [← hothers i hij]
        exact hk' i hi
  · intro i hi k' hk'
    by_cases hij : i = j
    · rw [hij] at hk' ⊢
      rw [hnext] at hk'
      exact h.pending j hmem k' ((hheld k').2 (.inr hk'))
    · rw [hothers i hij] at hk'
      exact h.pending i hi k' hk'
  · intro i hi hnew k' hk'
    have hij : i ≠ j := (ne_of_mem_of_not_mem hmem hnew).symm
    rw [hothers i hij] at hk'
    have hkk : k' ≠ k := by
      intro hkk
      rw [hkk] at hk'
      exact hfree i hij hi hk'
    rw [hstore, Function.update_of_ne hkk]
    exact h.fresh i hi hnew k' hk'
  · exact h.faithful

/-- The first write of a job puts it at the end of the order. -/
theorem Serialised.begin (h : Serialised jobs good final init began s) {j : ι} (hj : good j)
    (hnot : j ∉ began) {k : κ} {todo : List κ} {loaded : Store κ α} {a : α}
    (hphase : s.phase j = .writing (k :: todo) loaded) (hloaded : loaded = final j)
    (happly : (jobs j).apply loaded k = .ok a)
    (hstore : s'.store = Function.update s.store k (some a))
    (hothers : ∀ i, i ≠ j → s'.phase i = s.phase i) (hnext : s'.phase j = .writing todo loaded)
    (hexclusive : ∀ i, i ≠ j → good i → ∀ k', (s.phase j).Holds k' → ¬ (s.phase i).Holds k') :
    Serialised jobs good final init (began ++ [j]) s' := by
  have horder : k :: todo = (jobs j).order := h.unbegun j hj hnot _ _ hphase
  have hheld : ∀ k', (s.phase j).Holds k' ↔ k' ∈ (jobs j).order := by
    intro k'
    rw [hphase, ← horder]
    exact Iff.rfl
  have hne : ∀ i ∈ began, i ≠ j := fun i hi => ne_of_mem_of_not_mem hi hnot
  -- nobody else holds the files of the job: the serial store has them as it read them
  have hreads : ∀ k' ∈ (jobs j).order, effect jobs final began init k' = final j k' := by
    intro k' hk'
    rw [← h.settled k' fun i hi =>
      hexclusive i (hne i hi) (h.begun i hi).1 k' ((hheld k').2 hk')]
    exact h.fresh j hj hnot k' ((hheld k').2 hk')
  have hin : ∀ k' ∈ (jobs j).order, effect jobs final (began ++ [j]) init k' =
      ((jobs j).apply (final j) k').toOption := by
    intro k' hk'
    rw [effect_snoc, overwrite, if_pos hk']
  have hout : ∀ k', k' ∉ (jobs j).order → effect jobs final (began ++ [j]) init k' =
      effect jobs final began init k' := by
    intro k' hk'
    rw [effect_snoc, overwrite, if_neg hk']
  have hkorder : k ∈ (jobs j).order := by
    rw [← horder]
    exact List.mem_cons_self
  have hvalue : effect jobs final (began ++ [j]) init k = some a := by
    rw [hin k hkorder, ← hloaded, happly]
    rfl
  constructor
  · rw [List.nodup_append]
    refine ⟨h.nodup, List.nodup_singleton j, fun i hi i' hi' => ?_⟩
    rw [List.mem_singleton.1 hi']
    exact hne i hi
  · intro i hi
    rcases List.mem_append.1 hi with hi | hi
    · rw [hothers i (hne i hi)]
      exact h.begun i hi
    · rw [List.mem_singleton.1 hi]
      exact ⟨hj, todo, loaded, hnext⟩
  · intro i hi hnew todo' loaded' heq
    rw [List.mem_append, not_or, List.mem_singleton] at hnew
    rw [hothers i hnew.2] at heq
    exact h.unbegun i hi hnew.1 todo' loaded' heq
  · intro k' hk'
    rw [hstore]
    by_cases hkk : k' = k
    · rw [hkk, Function.update_self, hvalue]
    · have hnotin : k' ∉ (jobs j).order := by
        rw [← horder, List.mem_cons, not_or]
        refine ⟨hkk, fun htodo => hk' j (List.mem_append_right _ (List.mem_singleton_self j)) ?_⟩
        rw [hnext]
        exact htodo
      rw [Function.update_of_ne hkk, hout k' hnotin]
      refine h.settled k' fun i hi => ?_
      rw [← hothers i (hne i hi)]
      exact hk' i (List.mem_append_left _ hi)
  · intro i hi k' hk'
    rcases List.mem_append.1 hi with hi | hi
    · rw [hothers i (hne i hi)] at hk'
      have hnotin : k' ∉ (jobs j).order := fun hmem =>
        hexclusive i (hne i hi) (h.begun i hi).1 k' ((hheld k').2 hmem) hk'
      rw [hout k' hnotin]
      exact h.pending i hi k' hk'
    · rw [List.mem_singleton.1 hi] at hk' ⊢
      rw [hnext] at hk'
      refine hin k' ?_
      rw [← horder]
      exact List.mem_cons_of_mem k hk'
  · intro i hi hnew k' hk'
    rw [List.mem_append, not_or, List.mem_singleton] at hnew
    rw [hothers i hnew.2] at hk'
    have hkk : k' ≠ k := by
      intro hkk
      rw [hkk] at hk'
      exact hexclusive i hnew.2 hi k ((hheld k).2 hkorder) hk'
    rw [hstore, Function.update_of_ne hkk]
    exact h.fresh i hi hnew.1 k' hk'
  · exact faithful_snoc h.faithful hreads

/-- **One step under the condition.** -/
theorem Serialised.step (h : Serialised jobs good final init began s) {a : ι × Option ε}
    (hundisturbed : Undisturbed jobs good s a)
    (hsound : ∀ i, Sound (jobs i) ((step jobs s a).phase i))
    (htoward : ∀ i, good i → Toward (final i) (s.phase i) ∧
      Toward (final i) ((step jobs s a).phase i))
    (hexclusive : ∀ i j, good i → good j → i ≠ j → ∀ k, (s.phase i).Holds k →
      ¬ (s.phase j).Holds k) :
    ∃ began', Serialised jobs good final init began' (Transactions.step jobs s a) := by
  have hothers : ∀ i, i ≠ a.1 → (Transactions.step jobs s a).phase i = s.phase i :=
    fun i hi => step_phase_of_ne hi
  have hself := @step_phase_self _ _ _ _ _ _ jobs s a
  have hstep : (Transactions.step jobs s a).store =
      ((jobs a.1).advance (s.store, s.phase a.1) a.2).1 := rfl
  rcases (jobs a.1).advance_cases s.store (s.phase a.1) a.2 with ⟨heq, -⟩ | ⟨e, heq, -⟩ |
    ⟨k, check, rest, loaded, v, hphase, hk, -, heq⟩ |
    ⟨k, todo, loaded, v, hphase, happly, hwrites, heq⟩
  · rw [heq] at hself hstep
    refine ⟨began, h.of_same hstep fun i _ => ?_⟩
    by_cases hi : i = a.1
    · rw [hi]
      exact hself
    · exact hothers i hi
  · rw [heq] at hself hstep
    refine ⟨began, h.of_same hstep fun i hi => hothers i fun hia => ?_⟩
    have := (htoward i hi).2
    rw [hia, hself] at this
    cases this
  · rw [heq] at hself hstep
    by_cases hgood : good a.1
    · exact ⟨began, h.read hgood hphase hk hstep hothers hself (hsound a.1) (htoward a.1 hgood).2⟩
    · refine ⟨began, h.of_same hstep fun i hi => hothers i fun hia => ?_⟩
      rw [hia] at hi
      exact hgood hi
  · rw [heq] at hself hstep
    obtain ⟨hgood, hfree⟩ := hundisturbed k hwrites
    have hloaded : loaded = final a.1 := by
      have := (htoward a.1 hgood).1
      rw [hphase] at this
      exact this
    by_cases hmem : a.1 ∈ began
    · exact ⟨began, h.write hmem hphase hloaded happly hstep hothers hself hfree⟩
    · exact ⟨began ++ [a.1], h.begin hgood hmem hphase hloaded happly hstep hothers hself
        fun i hi hgi k' hk' => hexclusive a.1 i hgood hgi (Ne.symm hi) k' hk'⟩

theorem Serialised.run (h : Serialised jobs good final init began s)
    (hsound : ∀ i, Sound (jobs i) (s.phase i)) {schedule : List (ι × Option ε)}
    (hundisturbed : Along (Transactions.step jobs) (Undisturbed jobs good) s schedule)
    (hfinal : ∀ i, good i →
      (run (Transactions.step jobs) s schedule).phase i = .writing [] (final i)) :
    ∃ began', Serialised jobs good final init began' (run (Transactions.step jobs) s schedule) := by
  induction schedule generalizing s began with
  | nil => exact ⟨began, h⟩
  | cons a schedule ih =>
      have hsound' := sound_step hsound a
      have htoward : ∀ i, good i → Toward (final i) (s.phase i) ∧
          Toward (final i) ((Transactions.step jobs s a).phase i) := by
        intro i hi
        exact ⟨toward_run hsound (hfinal i hi), toward_run hsound' (hfinal i hi)⟩
      have hexclusive : ∀ i j, good i → good j → i ≠ j → ∀ k, (s.phase i).Holds k →
          ¬ (s.phase j).Holds k := by
        intro i j hi hj hne k hk
        exact exclusive_run hsound hundisturbed hfinal hi hj hne hk
      obtain ⟨began', h'⟩ := h.step hundisturbed.1 hsound' htoward hexclusive
      exact ih h' hsound' hundisturbed.2 hfinal

end

/-! ## 8. Undisturbed runs are serial -/

/-- **Serialisability.** A run in which the jobs that succeed are undisturbed leaves the
store of these jobs one after another, in some order, in which each of them applies. -/
theorem exists_serial (jobs : ι → Job κ α ε) (store : Store κ α) (schedule : List (ι × Option ε))
    (h : Along (step jobs) (Undisturbed jobs fun i =>
        ((run (step jobs) (start jobs store) schedule).phase i).succeeded = true)
      (start jobs store) schedule) :
    ∃ order : List ι, order.Nodup ∧
      (∀ i, i ∈ order ↔
        ((run (step jobs) (start jobs store) schedule).phase i).succeeded = true) ∧
      (run (step jobs) (start jobs store) schedule).store = serial jobs order store ∧
      ∀ pre i post, order = pre ++ i :: post → Applies (jobs i) (serial jobs pre store) := by
  generalize hgood : (fun i =>
    ((run (step jobs) (start jobs store) schedule).phase i).succeeded = true) = good at h
  have hiff : ∀ i, ((run (step jobs) (start jobs store) schedule).phase i).succeeded = true ↔
      good i := by
    intro i
    rw [← hgood]
  -- what each job that succeeds has loaded in the end
  have hloaded : ∀ i, ∃ final : Store κ α, good i →
      (run (step jobs) (start jobs store) schedule).phase i = .writing [] final := by
    intro i
    by_cases hi : good i
    · obtain ⟨loaded, heq⟩ := Phase.succeeded_iff.1 ((hiff i).2 hi)
      exact ⟨loaded, fun _ => heq⟩
    · exact ⟨fun _ => none, fun hgi => absurd hgi hi⟩
  choose final hfinal using hloaded
  have hsound : ∀ i, Sound (jobs i) ((start jobs store).phase i) := fun i => sound_start (jobs i)
  have hinit : Serialised jobs good final store [] (start jobs store) := by
    have hstart : ∀ i, (start jobs store).phase i = .reading (jobs i).requests fun _ => none :=
      fun i => (jobs i).start_eq
    constructor
    · exact List.nodup_nil
    · exact fun i hi => by cases hi
    · intro i _ _ todo loaded heq
      rw [hstart i] at heq
      cases heq
    · exact fun k _ => rfl
    · exact fun i hi => by cases hi
    · intro i _ _ k hk
      rw [hstart i] at hk
      cases hk
    · trivial
  obtain ⟨began, hend⟩ := hinit.run hsound h hfinal
  have hsoundEnd : ∀ i, Sound (jobs i) ((run (step jobs) (start jobs store) schedule).phase i) :=
    run_invariant (I := fun s => ∀ i, Sound (jobs i) (s.phase i)) h
      (fun s a hs _ => sound_step hs a) hsound
  have hmem : ∀ i, i ∈ began ↔ good i := by
    intro i
    refine ⟨fun hi => (hend.begun i hi).1, fun hi => ?_⟩
    by_contra hnot
    -- a job that succeeded has written all its files, and it has some
    have horder := hend.unbegun i hi hnot [] (final i) (hfinal i hi)
    obtain ⟨r, hr⟩ := List.exists_mem_of_ne_nil _ (jobs i).some_request
    have hin := (jobs i).mem_order hr
    rw [← horder] at hin
    cases hin
  have hcommits : ∀ i ∈ began, Commits (jobs i) (final i) := by
    intro i hi
    apply commits_of_sound
    rw [← hfinal i ((hmem i).1 hi)]
    exact hsoundEnd i
  obtain ⟨hserial, halone⟩ := serial_of_faithful hcommits hend.faithful
  refine ⟨began, hend.nodup, fun i => (hmem i).trans (hiff i).symm, ?_, halone⟩
  funext k
  rw [hserial]
  refine hend.settled k fun i hi hk => ?_
  rw [hfinal i ((hmem i).1 hi)] at hk
  cases hk

end Transactions
