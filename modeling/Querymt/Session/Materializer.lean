/-
`Session/Materializer.lean` -- is a session loaded by one request at a time?

Mirrors `SessionMaterializer::acquire_session_lock`, `SessionSingleFlightGuard::drop`
and the two `prepare_*_session` functions of `agent/session_materializer.rs` with the
registration that follows them, for one session id. Any number of requests run, and
every step below may be followed by a step of any other request.

# References

The per-id lock is an `Arc`, and its owner counts. The table `inflight` holds one
reference. A request holds one more when it has looked the lock up, and two while it
waits (`lock`, and the clone that moved into `lock_owned`) or has the guard (`lock`, and
the one inside `_guard`). `Drop` reads the count and takes 3 for "nobody else"; the
fields go after that, `_guard` last, which gives the lock back and then drops its `Arc`.

# Two ways to go wrong

The count is read before the table is locked. A request that looks the lock up between
the two waits on a lock that is no longer in the table, and the next request makes
another one: two guards. And a count above 3 leaves the entry to somebody else, who may
be a waiter that is cancelled, or an earlier holder on its way out: then the entry
stays. The condition names these moments.
-/
import Mathlib
import Querymt.Library.Runs

set_option autoImplicit false

open Runs

namespace Querymt.Session

/-! ## 1. Requests -/

/-- Where a request for the session is. -/
inductive RequestPc where
  /-- it has looked up or made the per-id lock -/
  | Entered
  /-- it waits in `lock_owned` -/
  | Waiting
  /-- it has the guard; the registry comes next -/
  | Acquired
  /-- the registry has the session: the request returns -/
  | Existing
  | Materializing
  /-- the actor is spawned and not yet registered -/
  | Prepared
  | Registered
  /-- `drop` has read the count 3; the table comes next -/
  | Closing
  /-- `drop` has read another count: the entry stays -/
  | Kept
  /-- `drop` has been to the table -/
  | Removed
  /-- the lock is given back; one `Arc` is still to be dropped -/
  | Leaving
  | Gone
  deriving DecidableEq

namespace RequestPc

/-- The references to its lock that a request holds. -/
def refs : RequestPc → ℕ
  | .Entered => 1
  -- the clone for `lock_owned`, which ends up in the guard
  | .Waiting | .Acquired | .Existing | .Materializing | .Prepared | .Registered => 2
  | .Closing | .Kept | .Removed => 2
  | .Leaving => 1
  | .Gone => 0

/-- The request has a guard that is not being dropped. -/
def in_flight : RequestPc → Bool
  | .Acquired | .Existing | .Materializing | .Prepared | .Registered => true
  | _ => false

/-- **Between acquiring its guard and dropping it**: until `drop` has taken the entry
out of the table or, when it leaves the entry, until the lock is given back. -/
def guards : RequestPc → Bool
  | .Closing | .Kept => true
  | pc => pc.in_flight

/-- The per-id lock is taken. -/
def holds : RequestPc → Bool
  | .Removed => true
  | pc => pc.guards

/-- The request is still to read the count, or to remove the entry. -/
def owes : RequestPc → Bool
  | .Entered | .Waiting | .Closing => true
  | pc => pc.in_flight

/-- An actor is being materialized, or is and waits to be registered. -/
def materializes : RequestPc → Bool
  | .Materializing | .Prepared => true
  | _ => false

end RequestPc

structure Request where
  lock : ℕ
  pc : RequestPc
  deriving DecidableEq

/-- The references to `lock` that the request holds. -/
def Request.refs (r : Request) (lock : ℕ) : ℕ := if r.lock = lock then r.pc.refs else 0

/-! ## 2. The materializer -/

structure Materializer where
  /-- the entry of the session id in `inflight` -/
  inflight : Option ℕ
  /-- the next lock that is made -/
  next_lock : ℕ
  locked : ℕ → Bool
  /-- the request whose actor is registered under the id -/
  registry : Option ℕ
  requests : List Request

def Materializer.new (registry : Option ℕ) : Materializer := ⟨none, 0, fun _ => false, registry, []⟩

inductive LoadAction where
  /-- a new request locks the table and clones the entry or makes one -/
  | Enter
  /-- it clones the lock again, for `lock_owned` -/
  | Queue (i : ℕ)
  | Acquire (i : ℕ)
  /-- the request is cancelled while it waits -/
  | CancelWait (i : ℕ)
  | CheckRegistry (i : ℕ)
  | Materialize (i : ℕ)
  | Register (i : ℕ)
  /-- the request ends, fails or is cancelled, and `drop` starts -/
  | ReadCount (i : ℕ)
  /-- `drop` locks the table and removes the entry if it is this lock -/
  | RemoveEntry (i : ℕ)
  | Release (i : ℕ)
  | Leave (i : ℕ)
  deriving DecidableEq

namespace Materializer

variable (s : Materializer)

def strong_count (lock : ℕ) : ℕ :=
  (if s.inflight = some lock then 1 else 0) + (s.requests.map (·.refs lock)).sum

/-- The request goes on to `pc`. -/
def set_pc (i : ℕ) (r : Request) (pc : RequestPc) : Materializer :=
  { s with requests := s.requests.set i ⟨r.lock, pc⟩ }

/-- What the request does, if it is where the action starts. -/
def request_step (i : ℕ) (r : Request) : LoadAction → Materializer
  | .Queue _ => if r.pc = .Entered then s.set_pc i r .Waiting else s
  | .Acquire _ =>
      if r.pc = .Waiting ∧ s.locked r.lock = false then
        { s.set_pc i r .Acquired with locked := Function.update s.locked r.lock true }
      else s
  -- the drop of the waiter's last reference (with one of the two left the count is not 3
  -- either); there is no guard whose `drop` would run
  | .CancelWait _ => if r.pc = .Waiting then s.set_pc i r .Gone else s
  | .CheckRegistry _ =>
      if r.pc = .Acquired then
        s.set_pc i r (if s.registry.isSome then .Existing else .Materializing)
      else s
  | .Materialize _ => if r.pc = .Materializing then s.set_pc i r .Prepared else s
  | .Register _ =>
      -- `insert`: an actor that is registered already is replaced
      if r.pc = .Prepared then { s.set_pc i r .Registered with registry := some i } else s
  | .ReadCount _ =>
      -- read without the lock of the table
      if r.pc.in_flight then s.set_pc i r (if s.strong_count r.lock = 3 then .Closing else .Kept)
      else s
  | .RemoveEntry _ =>
      if r.pc = .Closing then
        { s.set_pc i r .Removed with
          -- `Arc::ptr_eq`: another lock under the id is left alone
          inflight := if s.inflight = some r.lock then none else s.inflight }
      else s
  | .Release _ =>
      if r.pc = .Kept ∨ r.pc = .Removed then
        { s.set_pc i r .Leaving with locked := Function.update s.locked r.lock false }
      else s
  | .Leave _ => if r.pc = .Leaving then s.set_pc i r .Gone else s
  | .Enter => s

/-- A new request with the per-id lock of the table, or with a new one. -/
def enter : Materializer :=
  match s.inflight with
  | some lock => { s with requests := s.requests ++ [⟨lock, .Entered⟩] }
  | none =>
      { s with
        inflight := some s.next_lock
        next_lock := s.next_lock + 1
        requests := s.requests ++ [⟨s.next_lock, .Entered⟩] }

end Materializer

/-- The request that an action is about. -/
def LoadAction.request : LoadAction → Option ℕ
  | .Enter => none
  | .Queue i | .Acquire i | .CancelWait i | .CheckRegistry i | .Materialize i | .Register i
  | .ReadCount i | .RemoveEntry i | .Release i | .Leave i => some i

def Materializer.step (s : Materializer) (a : LoadAction) : Materializer :=
  match a.request with
  | none => s.enter
  | some i =>
      match s.requests[i]? with
      | none => s
      | some r => s.request_step i r a

/-! ## 3. The law and the condition -/

/-- **Single flight**: at most one request has the guard; while an actor is being
materialized no other one is, and none is registered; and when no request is left, the
entry is gone. -/
structure SingleFlight (s : Materializer) : Prop where
  one_guard : ∀ i j : ℕ, ∀ r ∈ s.requests[i]?, ∀ r' ∈ s.requests[j]?,
    r.pc.guards = true → r'.pc.guards = true → i = j
  one_actor : ∀ i j : ℕ, ∀ r ∈ s.requests[i]?, ∀ r' ∈ s.requests[j]?,
    r.pc.materializes = true → r'.pc.materializes = true → i = j
  unregistered : ∀ r ∈ s.requests, r.pc.materializes = true → s.registry = none
  entry_gone : (∀ r ∈ s.requests, r.pc = .Gone) → s.inflight = none

/-- **The condition.** No request looks the lock up between the count 3 and the removal
of the entry; a waiter is cancelled only while another request for its lock waits too or
is yet to read the count; and the count is read when no earlier holder is on its way
out. -/
def Unraced (s : Materializer) : LoadAction → Prop
  | .Enter => ∀ r ∈ s.requests, r.pc ≠ .Closing
  | .CancelWait i => ∀ r ∈ s.requests[i]?, r.pc = .Waiting →
      ∃ r' ∈ s.requests.eraseIdx i, r'.lock = r.lock ∧ r'.pc.owes = true
  | .ReadCount i => ∀ r ∈ s.requests[i]?, r.pc.in_flight = true →
      ∀ r' ∈ s.requests, r'.pc = .Leaving → r'.lock ≠ r.lock
  | _ => True

instance (s : Materializer) : (a : LoadAction) → Decidable (Unraced s a)
  | .Enter => inferInstanceAs (Decidable (∀ r ∈ s.requests, r.pc ≠ .Closing))
  | .CancelWait i => inferInstanceAs (Decidable (∀ r ∈ s.requests[i]?, r.pc = .Waiting →
      ∃ r' ∈ s.requests.eraseIdx i, r'.lock = r.lock ∧ r'.pc.owes = true))
  | .ReadCount i => inferInstanceAs (Decidable (∀ r ∈ s.requests[i]?, r.pc.in_flight = true →
      ∀ r' ∈ s.requests, r'.pc = .Leaving → r'.lock ≠ r.lock))
  | .Queue _ | .Acquire _ | .CheckRegistry _ | .Materialize _ | .Register _ | .RemoveEntry _
  | .Release _ | .Leave _ => isTrue trivial

/-- The invariant of the table: every request that uses its lock has the one in the
table, it is the only one when it is about to remove it, and the entry is owed. -/
structure Materializer.TableInv (s : Materializer) : Prop where
  entry : ∀ i : ℕ, ∀ r ∈ s.requests[i]?, r.pc.owes = true ∨ r.pc = .Kept → s.inflight = some r.lock
  alone : ∀ i j : ℕ, ∀ r ∈ s.requests[i]?, ∀ r' ∈ s.requests[j]?,
    r.pc = .Closing → r'.lock = r.lock → r'.pc ≠ .Gone → i = j
  owed : ∀ lock ∈ s.inflight, ∃ i : ℕ, ∃ r ∈ s.requests[i]?, r.lock = lock ∧ r.pc.owes = true

/-- The invariant of the locks: each has one holder at most. -/
structure Materializer.LockInv (s : Materializer) : Prop where
  held : ∀ i : ℕ, ∀ r ∈ s.requests[i]?, r.pc.holds = true → s.locked r.lock = true
  one_holder : ∀ i j : ℕ, ∀ r ∈ s.requests[i]?, ∀ r' ∈ s.requests[j]?,
    r.pc.holds = true → r'.pc.holds = true → r.lock = r'.lock → i = j

/-- **The invariant.** -/
structure Materializer.Inv (s : Materializer) : Prop where
  table : s.TableInv
  locks : s.LockInv
  unregistered : ∀ i : ℕ, ∀ r ∈ s.requests[i]?, r.pc.materializes = true → s.registry = none

namespace Materializer

variable {s : Materializer} {i : ℕ} {r : Request}

/-! ## 4. Who is where after a step -/

/-- After a request went on, the others are where they were. -/
theorem mem_set_pc {pc : RequestPc} {j : ℕ} {r' : Request} (hr : r ∈ s.requests[i]?)
    (hr' : r' ∈ (s.set_pc i r pc).requests[j]?) :
    (j = i ∧ r' = ⟨r.lock, pc⟩) ∨ (j ≠ i ∧ r' ∈ s.requests[j]?) := by
  by_cases hij : j = i
  · subst hij
    have hlt : j < s.requests.length := (List.getElem?_eq_some_iff.1 hr).1
    have hset : (s.set_pc j r pc).requests[j]? = some ⟨r.lock, pc⟩ := List.getElem?_set_self hlt
    rw [hset] at hr'
    exact .inl ⟨rfl, (Option.some.inj hr').symm⟩
  · have hset : (s.set_pc i r pc).requests[j]? = s.requests[j]? :=
      List.getElem?_set_ne (Ne.symm hij)
    rw [hset] at hr'
    exact .inr ⟨hij, hr'⟩

/-- The request itself. -/
theorem set_pc_self (pc : RequestPc) (hr : r ∈ s.requests[i]?) :
    (⟨r.lock, pc⟩ : Request) ∈ (s.set_pc i r pc).requests[i]? :=
  List.getElem?_set_self (List.getElem?_eq_some_iff.1 hr).1

theorem set_pc_of_ne {j : ℕ} (pc : RequestPc) (hij : j ≠ i) :
    (s.set_pc i r pc).requests[j]? = s.requests[j]? :=
  List.getElem?_set_ne (Ne.symm hij)

/-- After a request entered, the others are where they were. -/
theorem mem_concat {r₀ : Request} {j : ℕ} {r' : Request}
    (hr' : r' ∈ (s.requests ++ [r₀])[j]?) :
    r' ∈ s.requests[j]? ∨ (j = s.requests.length ∧ r' = r₀) := by
  rcases Nat.lt_trichotomy j s.requests.length with hlt | heq | hgt
  · rw [List.getElem?_append_left hlt] at hr'
    exact .inl hr'
  · subst heq
    rw [List.getElem?_concat_length] at hr'
    exact .inr ⟨rfl, (Option.some.inj hr').symm⟩
  · rw [List.getElem?_eq_none (by simp; omega)] at hr'
    cases hr'

end Materializer

/-! ## 5. The count -/

theorem RequestPc.refs_eq_zero {pc : RequestPc} : pc.refs = 0 ↔ pc = .Gone := by
  cases pc <;> decide

theorem RequestPc.refs_of_in_flight {pc : RequestPc} (h : pc.in_flight = true) : pc.refs = 2 := by
  cases pc <;> first | rfl | cases h

theorem RequestPc.holds_of_guards {pc : RequestPc} (h : pc.guards = true) : pc.holds = true := by
  cases pc <;> first | rfl | cases h

theorem RequestPc.guards_of_in_flight {pc : RequestPc} (h : pc.in_flight = true) :
    pc.guards = true := by
  cases pc <;> first | rfl | cases h

theorem RequestPc.owes_of_in_flight {pc : RequestPc} (h : pc.in_flight = true) :
    pc.owes = true := by
  cases pc <;> first | rfl | cases h

theorem RequestPc.uses_of_guards {pc : RequestPc} (h : pc.guards = true) :
    pc.owes = true ∨ pc = .Kept := by
  cases pc <;> first | exact .inl rfl | exact .inr rfl | cases h

theorem RequestPc.guards_of_materializes {pc : RequestPc} (h : pc.materializes = true) :
    pc.guards = true := by
  cases pc <;> first | rfl | cases h

theorem RequestPc.owes_of_not_holds {pc : RequestPc} (hholds : pc.holds = false)
    (hleaving : pc ≠ .Leaving) (hgone : pc ≠ .Gone) : pc.owes = true := by
  cases pc <;> first | rfl | exact absurd rfl hleaving | exact absurd rfl hgone | cases hholds

theorem Request.refs_eq_zero {r : Request} {lock : ℕ} :
    r.refs lock = 0 ↔ (r.lock = lock → r.pc = .Gone) := by
  rw [Request.refs]
  split
  · next hlock => rw [RequestPc.refs_eq_zero, imp_iff_right hlock]
  · next hlock => simp [hlock]

namespace Materializer

variable {s : Materializer} {i : ℕ} {r : Request}

/-- **The count 3 means nobody else**, for a request whose lock is in the table. -/
theorem strong_count_eq_three (hentry : s.inflight = some r.lock) (hr : r ∈ s.requests[i]?)
    (hpc : r.pc.in_flight = true) :
    s.strong_count r.lock = 3 ↔
      ∀ r' ∈ s.requests.eraseIdx i, r'.lock = r.lock → r'.pc = .Gone := by
  obtain ⟨hlt, hget⟩ := List.getElem?_eq_some_iff.1 hr
  -- the request itself has 2 references, the table has 1
  have hsum : (s.requests.map (·.refs r.lock)).sum =
      2 + ((s.requests.eraseIdx i).map (·.refs r.lock)).sum := by
    have hperm := (List.getElem_cons_eraseIdx_perm hlt).map (·.refs r.lock)
    rw [← hperm.sum_eq, List.map_cons, List.sum_cons, hget, Request.refs, if_pos rfl,
      RequestPc.refs_of_in_flight hpc]
  have hzero : ((s.requests.eraseIdx i).map (·.refs r.lock)).sum = 0 ↔
      ∀ r' ∈ s.requests.eraseIdx i, r'.lock = r.lock → r'.pc = .Gone := by
    rw [List.sum_eq_zero_iff_forall_eq_nat, List.forall_mem_map]
    exact forall₂_congr fun r' _ => Request.refs_eq_zero
  rw [strong_count, if_pos hentry, hsum, ← hzero]
  omega

/-! ## 6. One step -/

theorem inv_new (registry : Option ℕ) : (new registry).Inv where
  table := ⟨by simp [new], by simp [new], by simp [new]⟩
  locks := ⟨by simp [new], by simp [new]⟩
  unregistered := by simp [new]

/-- Two guards are guards of the entry of the table, so there is one. -/
theorem Inv.one_guard (h : s.Inv) {j : ℕ} {r' : Request} (hr : r ∈ s.requests[i]?)
    (hr' : r' ∈ s.requests[j]?) (hg : r.pc.guards = true) (hg' : r'.pc.guards = true) : i = j := by
  -- both have the lock that the table has now
  have hlock := h.table.entry i r hr (RequestPc.uses_of_guards hg)
  have hlock' := h.table.entry j r' hr' (RequestPc.uses_of_guards hg')
  have hsame : r.lock = r'.lock := Option.some.inj (hlock.symm.trans hlock')
  exact h.locks.one_holder i j r hr r' hr' (RequestPc.holds_of_guards hg)
    (RequestPc.holds_of_guards hg') hsame

/-- A new request has the lock of the table, and everything else stays. -/
theorem enter_spec (s : Materializer) :
    ∃ lock, s.enter.inflight = some lock ∧ (∀ entry ∈ s.inflight, entry = lock) ∧
      s.enter.requests = s.requests ++ [⟨lock, .Entered⟩] ∧ s.enter.locked = s.locked ∧
      s.enter.registry = s.registry := by
  rw [enter]
  split
  · next lock hlock =>
      refine ⟨lock, hlock, ?_, rfl, rfl, rfl⟩
      intro entry hentry
      exact Option.some.inj (hentry.symm.trans hlock)
  · next hnone =>
      refine ⟨s.next_lock, rfl, ?_, rfl, rfl, rfl⟩
      intro entry hentry
      rw [hnone] at hentry
      cases hentry

/-- **A new request keeps the invariant**, when nobody is about to remove the entry. -/
theorem Inv.enter (h : s.Inv) (hclosing : ∀ r ∈ s.requests, r.pc ≠ .Closing) : s.enter.Inv := by
  obtain ⟨lock, hinflight, hsame, hrequests, hlocked, hregistry⟩ := enter_spec s
  -- whoever is somewhere else than the new request was there before
  have hold : ∀ (j : ℕ) (r' : Request), r' ∈ s.enter.requests[j]? →
      r'.pc ≠ .Entered → r' ∈ s.requests[j]? := by
    intro j r' hr' hpc
    rw [hrequests] at hr'
    rcases mem_concat hr' with hr' | ⟨-, rfl⟩
    · exact hr'
    · exact absurd rfl hpc
  have hheld : ∀ (j : ℕ) (r' : Request), r' ∈ s.enter.requests[j]? → r'.pc.holds = true →
      r' ∈ s.requests[j]? := by
    intro j r' hr' hholds
    refine hold j r' hr' fun hpc => ?_
    rw [hpc] at hholds
    cases hholds
  refine ⟨⟨?_, ?_, ?_⟩, ⟨?_, ?_⟩, ?_⟩
  · intro j r' hr' huses
    rw [hrequests] at hr'
    rcases mem_concat hr' with hr' | ⟨-, rfl⟩
    · rw [hinflight, hsame _ (h.table.entry j r' hr' huses)]
    · exact hinflight
  · intro i j r hr r' _ hpc
    have hmem := hold i r hr (by rw [hpc]; decide)
    exact absurd hpc (hclosing r (List.mem_of_getElem? hmem))
  · intro entry hentry
    refine ⟨s.requests.length, ⟨lock, .Entered⟩, ?_, ?_, rfl⟩
    · rw [hrequests]
      exact List.getElem?_concat_length
    · exact Option.some.inj (hinflight.symm.trans hentry)
  · intro j r' hr' hholds
    rw [hlocked]
    exact h.locks.held j r' (hheld j r' hr' hholds) hholds
  · intro i j r hr r' hr' hholds hholds'
    exact h.locks.one_holder i j r (hheld i r hr hholds) r' (hheld j r' hr' hholds') hholds hholds'
  · intro j r' hr' hmat
    rw [hregistry]
    refine h.unregistered j r' (hold j r' hr' fun hpc => ?_) hmat
    rw [hpc] at hmat
    cases hmat

/-- **A request that goes on keeps the invariant of the table**, when it uses the lock
only if it did so before, is alone when it is about to remove the entry, and hands the
entry on when it no longer owes it. -/
theorem TableInv.set_pc {pc : RequestPc} (h : s.TableInv) (hr : r ∈ s.requests[i]?)
    (huses : pc.owes = true ∨ pc = .Kept → r.pc.owes = true ∨ r.pc = .Kept)
    (hclosing : pc = .Closing → ∀ r' ∈ s.requests.eraseIdx i, r'.lock = r.lock → r'.pc = .Gone)
    (hgone : r.pc ≠ .Gone)
    (howes : r.pc.owes = true → pc.owes = true ∨
      ∃ r' ∈ s.requests.eraseIdx i, r'.lock = r.lock ∧ r'.pc.owes = true) :
    (s.set_pc i r pc).TableInv := by
  constructor
  · intro j r' hr' hu
    rcases mem_set_pc hr hr' with ⟨-, rfl⟩ | ⟨-, hold⟩
    · exact h.entry i r hr (huses hu)
    · exact h.entry j r' hold hu
  · intro j k r₁ hr₁ r₂ hr₂ hpc hlock hne
    rcases mem_set_pc hr hr₁ with ⟨rfl, rfl⟩ | ⟨-, hold₁⟩ <;>
      rcases mem_set_pc hr hr₂ with ⟨rfl, rfl⟩ | ⟨hk, hold₂⟩
    · rfl
    · have hmem : r₂ ∈ s.requests.eraseIdx j := List.mem_eraseIdx_iff_getElem?.2 ⟨k, hk, hold₂⟩
      exact absurd (hclosing hpc r₂ hmem hlock) hne
    · exact h.alone _ _ r₁ hold₁ r hr hpc hlock hgone
    · exact h.alone _ _ r₁ hold₁ r₂ hold₂ hpc hlock hne
  · intro lock hlock
    -- whoever owed the entry still does, or hands it on
    obtain ⟨j, r', hr', rfl, ho⟩ := h.owed lock hlock
    by_cases hj : j = i
    · subst hj
      obtain rfl : r' = r := Option.some.inj (hr'.symm.trans hr)
      rcases howes ho with hpc | ⟨r₂, hr₂, hlock₂, ho₂⟩
      · exact ⟨j, ⟨r'.lock, pc⟩, set_pc_self pc hr, rfl, hpc⟩
      · obtain ⟨k, hk, hget⟩ := List.mem_eraseIdx_iff_getElem?.1 hr₂
        exact ⟨k, r₂, (set_pc_of_ne pc hk).trans hget, hlock₂, ho₂⟩
    · exact ⟨j, r', (set_pc_of_ne pc hj).trans hr', rfl, ho⟩

/-- A request that goes on keeps the invariant of the locks, when it takes none. -/
theorem LockInv.set_pc {pc : RequestPc} (h : s.LockInv) (hr : r ∈ s.requests[i]?)
    (hholds : pc.holds = true → r.pc.holds = true) : (s.set_pc i r pc).LockInv := by
  constructor
  · intro j r' hr' hh
    rcases mem_set_pc hr hr' with ⟨-, rfl⟩ | ⟨-, hold⟩
    · exact h.held i r hr (hholds hh)
    · exact h.held j r' hold hh
  · intro j k r₁ hr₁ r₂ hr₂ hh₁ hh₂ hlock
    rcases mem_set_pc hr hr₁ with ⟨rfl, rfl⟩ | ⟨-, hold₁⟩ <;>
      rcases mem_set_pc hr hr₂ with ⟨rfl, rfl⟩ | ⟨-, hold₂⟩
    · rfl
    · exact h.one_holder _ _ r hr r₂ hold₂ (hholds hh₁) hh₂ hlock
    · exact h.one_holder _ _ r₁ hold₁ r hr hh₁ (hholds hh₂) hlock
    · exact h.one_holder _ _ r₁ hold₁ r₂ hold₂ hh₁ hh₂ hlock

/-- A request that takes a free lock is its one holder. -/
theorem LockInv.acquire (h : s.LockInv) (hr : r ∈ s.requests[i]?)
    (hfree : s.locked r.lock = false) :
    LockInv { s.set_pc i r .Acquired with locked := Function.update s.locked r.lock true } := by
  -- whoever holds a lock holds another one
  have hne : ∀ (j : ℕ) (r' : Request), r' ∈ s.requests[j]? → r'.pc.holds = true →
      r'.lock ≠ r.lock := by
    intro j r' hr' hh hlock
    have hheld := h.held j r' hr' hh
    rw [hlock, hfree] at hheld
    cases hheld
  constructor
  · intro j r' hr' hh
    dsimp only
    rcases mem_set_pc hr hr' with ⟨-, rfl⟩ | ⟨-, hold⟩
    · rw [Function.update_self]
    · rw [Function.update_of_ne (hne j r' hold hh)]
      exact h.held j r' hold hh
  · intro j k r₁ hr₁ r₂ hr₂ hh₁ hh₂ hlock
    rcases mem_set_pc hr hr₁ with ⟨rfl, rfl⟩ | ⟨-, hold₁⟩ <;>
      rcases mem_set_pc hr hr₂ with ⟨rfl, rfl⟩ | ⟨-, hold₂⟩
    · rfl
    · exact absurd hlock.symm (hne k r₂ hold₂ hh₂)
    · exact absurd hlock (hne j r₁ hold₁ hh₁)
    · exact h.one_holder _ _ r₁ hold₁ r₂ hold₂ hh₁ hh₂ hlock

/-- A lock that is given back has no holder left. -/
theorem LockInv.release (h : s.LockInv) (hr : r ∈ s.requests[i]?) (hpc : r.pc.holds = true) :
    LockInv { s.set_pc i r .Leaving with locked := Function.update s.locked r.lock false } := by
  have hset : (s.set_pc i r .Leaving).LockInv := h.set_pc hr fun hh => by cases hh
  refine ⟨?_, hset.one_holder⟩
  intro j r' hr' hh
  rcases mem_set_pc hr hr' with ⟨-, rfl⟩ | ⟨hj, hold⟩
  · cases hh
  · have hne : r'.lock ≠ r.lock := by
      intro hlock
      exact hj (h.one_holder j i r' hold r hr hh hpc hlock)
    dsimp only
    rw [Function.update_of_ne hne]
    exact h.held j r' hold hh

/-- The last request takes the entry out of the table. -/
theorem TableInv.remove_entry (h : s.TableInv) (hr : r ∈ s.requests[i]?) (hpc : r.pc = .Closing) :
    TableInv { s.set_pc i r .Removed with
      inflight := if s.inflight = some r.lock then none else s.inflight } := by
  have hentry : s.inflight = some r.lock := h.entry i r hr (.inl (by rw [hpc]; rfl))
  have hgone : ∀ (j : ℕ) (r' : Request), j ≠ i → r' ∈ s.requests[j]? → r'.lock = r.lock →
      r'.pc = .Gone := by
    intro j r' hj hr' hlock
    by_contra hne
    exact hj (h.alone i j r hr r' hr' hpc hlock hne).symm
  rw [if_pos hentry]
  constructor
  · intro j r' hr' hu
    rcases mem_set_pc hr hr' with ⟨-, rfl⟩ | ⟨hj, hold⟩
    · rcases hu with hu | hu <;> cases hu
    · have hlock : r'.lock = r.lock :=
        Option.some.inj ((h.entry j r' hold hu).symm.trans hentry)
      rw [hgone j r' hj hold hlock] at hu
      rcases hu with hu | hu <;> cases hu
  · intro j k r₁ hr₁ r₂ hr₂ hpc₁ hlock hne
    rcases mem_set_pc hr hr₁ with ⟨rfl, rfl⟩ | ⟨hj, hold₁⟩
    · cases hpc₁
    · -- nobody else is about to remove the entry
      have hlock₁ : s.inflight = some r₁.lock := h.entry j r₁ hold₁ (.inl (by rw [hpc₁]; rfl))
      have hsame : r₁.lock = r.lock := Option.some.inj (hlock₁.symm.trans hentry)
      rw [hgone j r₁ hj hold₁ hsame] at hpc₁
      cases hpc₁
  · intro lock hlock
    cases hlock

/-- A request that goes on keeps "unregistered", when it materializes only if no actor is
registered. -/
theorem unregistered_set_pc {pc : RequestPc} (h : s.Inv) (hr : r ∈ s.requests[i]?)
    (hmat : pc.materializes = true → s.registry = none) :
    ∀ j : ℕ, ∀ r' ∈ (s.set_pc i r pc).requests[j]?, r'.pc.materializes = true →
      s.registry = none := by
  intro j r' hr' hm
  rcases mem_set_pc hr hr' with ⟨-, rfl⟩ | ⟨-, hold⟩
  · exact hmat hm
  · exact h.unregistered j r' hold hm

/-- A step that only moves one request on. -/
theorem Inv.set_pc {pc : RequestPc} (h : s.Inv) (hr : r ∈ s.requests[i]?) (hgone : r.pc ≠ .Gone)
    (huses : pc.owes = true ∨ pc = .Kept → r.pc.owes = true ∨ r.pc = .Kept)
    (hclosing : pc = .Closing → ∀ r' ∈ s.requests.eraseIdx i, r'.lock = r.lock → r'.pc = .Gone)
    (howes : r.pc.owes = true → pc.owes = true ∨
      ∃ r' ∈ s.requests.eraseIdx i, r'.lock = r.lock ∧ r'.pc.owes = true)
    (hholds : pc.holds = true → r.pc.holds = true)
    (hmat : pc.materializes = true → s.registry = none) : (s.set_pc i r pc).Inv :=
  ⟨h.table.set_pc hr huses hclosing hgone howes, h.locks.set_pc hr hholds,
    unregistered_set_pc h hr hmat⟩

/-- **`drop` reads the count.** If it is 3 the request is alone; if not, and nobody is on
the way out, one of the others is still to read it. -/
theorem Inv.read_count (h : s.Inv) (hr : r ∈ s.requests[i]?) (hpc : r.pc.in_flight = true)
    (hleaving : ∀ r' ∈ s.requests, r'.pc = .Leaving → r'.lock ≠ r.lock) :
    (s.set_pc i r (if s.strong_count r.lock = 3 then .Closing else .Kept)).Inv := by
  have howes := RequestPc.owes_of_in_flight hpc
  have hholds := RequestPc.holds_of_guards (RequestPc.guards_of_in_flight hpc)
  have hentry := h.table.entry i r hr (.inl howes)
  have hcount := strong_count_eq_three hentry hr hpc
  have hgone : r.pc ≠ .Gone := by
    intro hg
    rw [hg] at hpc
    cases hpc
  split
  · next h3 =>
      exact h.set_pc hr hgone (fun _ => .inl howes) (fun _ => hcount.1 h3) (fun _ => .inl rfl)
        (fun _ => hholds) (fun hm => by cases hm)
  · next h3 =>
      refine h.set_pc hr hgone (fun _ => .inl howes) (fun hc => (by cases hc)) (fun _ => .inr ?_)
        (fun _ => hholds) (fun hm => by cases hm)
      rw [hcount] at h3
      push Not at h3
      obtain ⟨r', hmem, hlock, hne⟩ := h3
      obtain ⟨j, hj, hr'⟩ := List.mem_eraseIdx_iff_getElem?.1 hmem
      refine ⟨r', hmem, hlock, ?_⟩
      -- the lock is taken by this request, so the other one does not hold it
      have hother : r'.pc.holds = false := by
        rw [Bool.eq_false_iff]
        intro hh
        exact hj (h.locks.one_holder j i r' hr' r hr hh hholds hlock)
      have hleft : r'.pc ≠ .Leaving := fun hl =>
        hleaving r' (List.mem_of_getElem? hr') hl hlock
      exact RequestPc.owes_of_not_holds hother hleft hne

/-- A request goes on with its guard. -/
theorem Inv.go_on {pc : RequestPc} (h : s.Inv) (hr : r ∈ s.requests[i]?)
    (hpc : r.pc.in_flight = true) (hpc' : pc.in_flight = true)
    (hmat : pc.materializes = true → s.registry = none) : (s.set_pc i r pc).Inv := by
  refine h.set_pc hr ?_ (fun _ => .inl (RequestPc.owes_of_in_flight hpc)) (fun hc => ?_)
    (fun _ => .inl (RequestPc.owes_of_in_flight hpc')) (fun _ => ?_) hmat
  · intro hg
    rw [hg] at hpc
    cases hpc
  · rw [hc] at hpc'
    cases hpc'
  · exact RequestPc.holds_of_guards (RequestPc.guards_of_in_flight hpc)

/-- The registering request is the only one with an actor. -/
theorem Inv.register (h : s.Inv) (hr : r ∈ s.requests[i]?) (hpc : r.pc = .Prepared) :
    Inv { s.set_pc i r .Registered with registry := some i } := by
  have hset : (s.set_pc i r .Registered).Inv :=
    h.go_on hr (by rw [hpc]; rfl) rfl fun hm => by cases hm
  refine ⟨⟨hset.table.entry, hset.table.alone, hset.table.owed⟩,
    ⟨hset.locks.held, hset.locks.one_holder⟩, ?_⟩
  intro j r' hr' hm
  rcases mem_set_pc hr hr' with ⟨-, rfl⟩ | ⟨hj, hold⟩
  · cases hm
  · have hg : r.pc.guards = true := by rw [hpc]; rfl
    exact absurd (h.one_guard hold hr (RequestPc.guards_of_materializes hm) hg) hj

/-- The request takes the lock. -/
theorem Inv.acquire (h : s.Inv) (hr : r ∈ s.requests[i]?) (hpc : r.pc = .Waiting)
    (hfree : s.locked r.lock = false) :
    Inv { s.set_pc i r .Acquired with locked := Function.update s.locked r.lock true } := by
  have htable : (s.set_pc i r .Acquired).TableInv := by
    refine h.table.set_pc hr (fun _ => ?_) (fun hc => (by cases hc)) ?_ (fun _ => .inl rfl)
      <;> rw [hpc]
    · exact .inl rfl
    · decide
  exact ⟨⟨htable.entry, htable.alone, htable.owed⟩, h.locks.acquire hr hfree,
    unregistered_set_pc h hr fun hm => by cases hm⟩

/-- The request gives the lock back. -/
theorem Inv.release (h : s.Inv) (hr : r ∈ s.requests[i]?) (hpc : r.pc = .Kept ∨ r.pc = .Removed) :
    Inv { s.set_pc i r .Leaving with locked := Function.update s.locked r.lock false } := by
  have htable : (s.set_pc i r .Leaving).TableInv := by
    refine h.table.set_pc hr (fun hu => ?_) (fun hc => (by cases hc)) ?_ (fun ho => ?_)
    · rcases hu with hu | hu <;> cases hu
    · rcases hpc with hpc | hpc <;> rw [hpc] <;> decide
    · rcases hpc with hpc | hpc <;> rw [hpc] at ho <;> cases ho
  have hholds : r.pc.holds = true := by
    rcases hpc with hpc | hpc <;> rw [hpc] <;> rfl
  exact ⟨⟨htable.entry, htable.alone, htable.owed⟩, h.locks.release hr hholds,
    unregistered_set_pc h hr fun hm => by cases hm⟩

theorem Inv.remove_entry (h : s.Inv) (hr : r ∈ s.requests[i]?) (hpc : r.pc = .Closing) :
    Inv { s.set_pc i r .Removed with
      inflight := if s.inflight = some r.lock then none else s.inflight } := by
  have hlocks : (s.set_pc i r .Removed).LockInv := h.locks.set_pc hr fun _ => by rw [hpc]; rfl
  exact ⟨h.table.remove_entry hr hpc, ⟨hlocks.held, hlocks.one_holder⟩,
    unregistered_set_pc h hr fun hm => by cases hm⟩

/-- **One step of a request keeps the invariant**, where it meets the condition. -/
theorem Inv.request_step (h : s.Inv) (a : LoadAction) (hr : r ∈ s.requests[i]?)
    (hi : a.request = some i) (ha : Unraced s a) : (s.request_step i r a).Inv := by
  cases a with
  | Enter => exact h
  | Queue k =>
      rw [Materializer.request_step]
      split
      · next hpc =>
          refine h.set_pc hr ?_ (fun _ => ?_) (fun hc => (by cases hc)) (fun _ => .inl rfl)
            (fun hh => (by cases hh)) (fun hm => by cases hm) <;> rw [hpc]
          · decide
          · exact .inl rfl
      · exact h
  | Acquire k =>
      rw [Materializer.request_step]
      split
      · next hpc => exact h.acquire hr hpc.1 hpc.2
      · exact h
  | CancelWait k =>
      obtain rfl : k = i := Option.some.inj hi
      rw [Materializer.request_step]
      split
      · next hpc =>
          refine h.set_pc hr ?_ (fun hu => ?_) (fun hc => (by cases hc)) (fun _ => .inr ?_)
            (fun hh => (by cases hh)) (fun hm => by cases hm)
          · rw [hpc]
            decide
          · rcases hu with hu | hu <;> cases hu
          · exact ha r hr hpc
      · exact h
  | CheckRegistry k =>
      rw [Materializer.request_step]
      split
      · next hpc =>
          have hflight : r.pc.in_flight = true := by rw [hpc]; rfl
          split
          · exact h.go_on hr hflight rfl fun hm => by cases hm
          · next hnone =>
              exact h.go_on hr hflight rfl fun _ => Option.not_isSome_iff_eq_none.1 hnone
      · exact h
  | Materialize k =>
      rw [Materializer.request_step]
      split
      · next hpc =>
          have hnone : s.registry = none := h.unregistered i r hr (by rw [hpc]; rfl)
          exact h.go_on hr (by rw [hpc]; rfl) rfl fun _ => hnone
      · exact h
  | Register k =>
      rw [Materializer.request_step]
      split
      · next hpc => exact h.register hr hpc
      · exact h
  | ReadCount k =>
      obtain rfl : k = i := Option.some.inj hi
      rw [Materializer.request_step]
      split
      · next hpc => exact h.read_count hr hpc (ha r hr hpc)
      · exact h
  | RemoveEntry k =>
      rw [Materializer.request_step]
      split
      · next hpc => exact h.remove_entry hr hpc
      · exact h
  | Release k =>
      rw [Materializer.request_step]
      split
      · next hpc => exact h.release hr hpc
      · exact h
  | Leave k =>
      rw [Materializer.request_step]
      split
      · next hpc =>
          refine h.set_pc hr ?_ (fun hu => ?_) (fun hc => (by cases hc)) (fun ho => ?_)
            (fun hh => (by cases hh)) (fun hm => by cases hm)
          · rw [hpc]
            decide
          · rcases hu with hu | hu <;> cases hu
          · rw [hpc] at ho
            cases ho
      · exact h

theorem Inv.step (h : s.Inv) (a : LoadAction) (ha : Unraced s a) : (s.step a).Inv := by
  rw [Materializer.step]
  split
  · next hnone =>
      cases a with
      | Enter => exact h.enter ha
      | _ => cases hnone
  · next i hi =>
      split
      · exact h
      · next r hr => exact h.request_step a hr hi ha

/-- The invariant gives the law. -/
theorem Inv.single_flight (h : s.Inv) : SingleFlight s where
  one_guard i j r hr r' hr' hg hg' := h.one_guard hr hr' hg hg'
  one_actor i j r hr r' hr' hm hm' :=
    h.one_guard hr hr' (RequestPc.guards_of_materializes hm) (RequestPc.guards_of_materializes hm')
  unregistered r hr hm := by
    obtain ⟨i, hi⟩ := List.mem_iff_getElem?.1 hr
    exact h.unregistered i r hi hm
  entry_gone hgone := by
    rw [Option.eq_none_iff_forall_ne_some]
    intro lock hlock
    obtain ⟨i, r, hr, -, howes⟩ := h.table.owed lock hlock
    rw [hgone r (List.mem_of_getElem? hr)] at howes
    cases howes

end Materializer

/-! ## 7. Every run -/

/-- **A session is loaded by one request at a time**, in every run whose steps meet the
condition: any number of requests, in any order. -/
theorem single_flight_of_unraced (registry : Option ℕ) (actions : List LoadAction)
    (h : Along Materializer.step Unraced (.new registry) actions) :
    SingleFlight (run Materializer.step (.new registry) actions) :=
  (run_invariant h (fun _ a hI hC => hI.step a hC) (Materializer.inv_new registry)).single_flight

/-- One request loads the session, a second one waits for it and finds the actor; the
entry is gone in the end. -/
theorem second_load_finds_actor :
    SingleFlight (run Materializer.step (.new none)
      [.Enter, .Queue 0, .Acquire 0, .Enter, .Queue 1, .CheckRegistry 0, .Materialize 0,
        .Register 0, .ReadCount 0, .Release 0, .Acquire 1, .Leave 0, .CheckRegistry 1,
        .ReadCount 1, .RemoveEntry 1, .Release 1, .Leave 1]) :=
  single_flight_of_unraced none _ (by decide)

/-- A load fails. A second request looks its lock up before the entry is removed, a third
one after: both materialize the session. And a waiter that is cancelled after the count
was read leaves the entry behind. -/
theorem load_not_single_flight :
    ¬ SingleFlight (run Materializer.step (.new none)
      [.Enter, .Queue 0, .Acquire 0, .CheckRegistry 0, .ReadCount 0, .Enter, .RemoveEntry 0,
        .Enter, .Queue 1, .Queue 2, .Acquire 2, .Release 0, .Acquire 1, .CheckRegistry 1,
        .CheckRegistry 2]) ∧
    ¬ SingleFlight (run Materializer.step (.new none)
      [.Enter, .Queue 0, .Acquire 0, .Enter, .Queue 1, .CheckRegistry 0, .Materialize 0,
        .Register 0, .ReadCount 0, .CancelWait 1, .Release 0, .Leave 0]) := by
  constructor
  · intro h
    have hsame := h.one_actor 1 2 ⟨0, .Materializing⟩ rfl ⟨1, .Materializing⟩ rfl rfl rfl
    cases hsame
  · intro h
    have hnone := h.entry_gone (by decide)
    cases hnone

end Querymt.Session
