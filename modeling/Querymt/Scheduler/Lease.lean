/-
`Scheduler/Lease.lean` -- the lease that elects one scheduler.

Mirrors `try_acquire_scheduler_lease`, `renew_scheduler_lease` and
`release_scheduler_lease` of `session/repo_schedule.rs`. The table has one row at most. Its
columns hold the texts of `format_dt`, and whether the lease has expired is a comparison of
texts in SQL: so a lease is exclusive until it expires as far as the texts are in the order
of time (`lease_exclusive_iff`).

`now + Duration::seconds(ttl)` is calendar arithmetic of another crate, and no result here
depends on it; it panics where the sum is out of range.
-/
import Querymt.Library.Runs
import Querymt.Library.Timestamps

set_option autoImplicit false

open Runs Timestamps

namespace Querymt.Scheduler

/-! ## 1. The code -/

/-- `format_dt`: an instant without a text gives the empty one. -/
def format_dt (dt : UtcDateTime) : List Char := (rfc3339 dt).getD []

/-- The row of `scheduler_lease`; `acquired_at` and `expires_at` stand for their texts. -/
structure LeaseRow where
  owner_id : String
  acquired_at : UtcDateTime
  expires_at : UtcDateTime

inductive LeaseRequest where
  | try_acquire (owner_id : String) (now : UtcDateTime) (ttl_seconds : ℕ)
  | renew (owner_id : String) (now : UtcDateTime) (ttl_seconds : ℕ)
  | release (owner_id : String)

section

variable (after : UtcDateTime → ℕ → Option UtcDateTime)

/-- The new row, and whether a row was written; `none` when the expiry is out of range. -/
def try_acquire_scheduler_lease (lease : Option LeaseRow) (owner_id : String) (now : UtcDateTime)
    (ttl_seconds : ℕ) : Option (Option LeaseRow × Bool) :=
  (after now ttl_seconds).map fun expires_at =>
    match lease with
    | none => (some ⟨owner_id, now, expires_at⟩, true)
    | some row =>
        if format_dt row.expires_at < format_dt now then
          (some ⟨owner_id, now, expires_at⟩, true)
        else (lease, false)

def renew_scheduler_lease (lease : Option LeaseRow) (owner_id : String) (now : UtcDateTime)
    (ttl_seconds : ℕ) : Option (Option LeaseRow × Bool) :=
  (after now ttl_seconds).map fun expires_at =>
    match lease with
    | none => (none, false)
    | some row =>
        if row.owner_id = owner_id ∧ format_dt now ≤ format_dt row.expires_at then
          (some ⟨owner_id, now, expires_at⟩, true)
        else (lease, false)

def release_scheduler_lease (lease : Option LeaseRow) (owner_id : String) :
    Option LeaseRow × Bool :=
  match lease with
  | none => (none, false)
  | some row => if row.owner_id = owner_id then (none, true) else (lease, false)

/-- One request: the table after it, and its answer, if it does not panic. -/
def serve (lease : Option LeaseRow) (request : LeaseRequest) : Option LeaseRow × Option Bool :=
  match request with
  | .try_acquire owner_id now ttl_seconds =>
      match try_acquire_scheduler_lease after lease owner_id now ttl_seconds with
      | some (lease', answer) => (lease', some answer)
      | none => (lease, none)
  | .renew owner_id now ttl_seconds =>
      match renew_scheduler_lease after lease owner_id now ttl_seconds with
      | some (lease', answer) => (lease', some answer)
      | none => (lease, none)
  | .release owner_id =>
      let (lease', answer) := release_scheduler_lease lease owner_id
      (lease', some answer)

/-! ## 2. The law and the condition -/

/-- **The lease is exclusive until it expires.** Another owner acquires it only when it has
expired, and its owner renews it exactly when it has not. -/
def LeaseExclusive (lease : Option LeaseRow) : LeaseRequest → Prop
  | .try_acquire owner_id now ttl_seconds =>
      (serve after lease (.try_acquire owner_id now ttl_seconds)).2 = some true →
        ∀ row ∈ lease, row.owner_id ≠ owner_id → row.expires_at < now
  | .renew owner_id now ttl_seconds =>
      (serve after lease (.renew owner_id now ttl_seconds)).2 = some true ↔
        (after now ttl_seconds).isSome ∧
          ∃ row ∈ lease, row.owner_id = owner_id ∧ ¬ row.expires_at < now
  | .release _ => True

end

/-- Two instants of one second with fractions of which one is the beginning of the other. -/
def SharesSecond (a b : UtcDateTime) : Prop :=
  ¬ a.year < 0 ∧ ¬ b.year < 0 ∧ a.to_second = b.to_second ∧ Prefixed a b

/-- The texts of two instants are not in their order. -/
def Misordered (a b : UtcDateTime) : Prop :=
  a.year < 0 ∧ b.year < 0 ∧ a < b ∨ SharesSecond a b

/-- **The condition on a request**: the texts it compares are in the order of time, as far as
its answer depends on it. -/
def ComparesWell (after : UtcDateTime → ℕ → Option UtcDateTime) (lease : Option LeaseRow) :
    LeaseRequest → Prop
  | .try_acquire owner_id now ttl_seconds =>
      (after now ttl_seconds).isSome → ∀ row ∈ lease, row.owner_id ≠ owner_id →
        now < row.expires_at → ¬ SharesSecond row.expires_at now
  | .renew owner_id now ttl_seconds =>
      (after now ttl_seconds).isSome → ∀ row ∈ lease, row.owner_id = owner_id →
        ¬ Misordered row.expires_at now
  | .release _ => True

/-! ## 3. The order of the texts -/

theorem format_dt_lt_iff {a b : UtcDateTime} (ha : ¬ a.year < 0) (hb : ¬ b.year < 0) :
    (format_dt a < format_dt b ↔ a < b) ↔ ¬ SharesSecond a b := by
  have htime : a < b ↔ a.to_second < b.to_second ∨
      a.to_second = b.to_second ∧ a.nanosecond < b.nanosecond := Iff.rfl
  rw [format_dt, format_dt, rfc3339_lt_iff ha hb, htime]
  by_cases hsecond : a.to_second = b.to_second
  · have hirrefl : ¬ a.to_second < b.to_second := by
      rw [hsecond]
      exact lt_irrefl _
    simp only [hsecond, lt_irrefl, true_and, false_or]
    rw [end_of_text_lt_iff, SharesSecond]
    simp only [ha, hb, hsecond, not_false_eq_true, true_and]
  · simp only [hsecond, false_and, or_false, SharesSecond, and_false, not_false_eq_true]

theorem lt_of_year_neg {a b : UtcDateTime} (ha : a.year < 0) (hb : ¬ b.year < 0) :
    format_dt a < format_dt b ∧ a < b := by
  constructor
  · rw [format_dt, format_dt, rfc3339, if_pos ha, rfc3339, if_neg hb]
    exact List.nil_lt_cons _ _
  · exact .inl (List.cons_lt_cons_iff.2 (.inl (by omega)))

theorem utc_lt_asymm {a b : UtcDateTime} (h : a < b) : ¬ b < a := by
  rintro (hsecond | ⟨hsecond, hnano⟩) <;> rcases h with hsecond' | ⟨hsecond', hnano'⟩
  · exact lt_asymm hsecond hsecond'
  · rw [hsecond'] at hsecond
    exact lt_irrefl _ hsecond
  · rw [hsecond] at hsecond'
    exact lt_irrefl _ hsecond'
  · omega

/-- **The texts are in the order of time unless the instants are misordered.** -/
theorem format_dt_order (a b : UtcDateTime) :
    (format_dt a < format_dt b ↔ a < b) ↔ ¬ Misordered a b := by
  unfold Misordered
  by_cases ha : a.year < 0 <;> by_cases hb : b.year < 0
  · -- no text at all
    have hsame : ¬ format_dt a < format_dt b := by
      rw [format_dt, format_dt, rfc3339, rfc3339, if_pos ha, if_pos hb]
      exact List.not_lt_nil _
    simp only [hsame, false_iff, ha, hb, true_and, SharesSecond, not_true_eq_false, false_and,
      or_false]
  · obtain ⟨htext, htime⟩ := lt_of_year_neg ha hb
    refine iff_of_true (iff_of_true htext htime) ?_
    rintro (⟨-, hb', -⟩ | ⟨ha', -⟩)
    · exact hb hb'
    · exact ha' ha
  · obtain ⟨htext, htime⟩ := lt_of_year_neg hb ha
    refine iff_of_true (iff_of_false (lt_asymm htext) (utc_lt_asymm htime)) ?_
    rintro (⟨ha', -, -⟩ | ⟨-, hb', -⟩)
    · exact ha ha'
    · exact hb' hb
  · rw [format_dt_lt_iff ha hb]
    simp only [ha, false_and, false_or]

/-- Instants that share a second are not equal. -/
theorem SharesSecond.lt_or_lt {a b : UtcDateTime} (h : SharesSecond a b) (hnot : ¬ a < b) :
    b < a := by
  obtain ⟨-, -, hsecond, hprefixed⟩ := h
  refine .inr ⟨hsecond.symm, ?_⟩
  have hle : ¬ a.nanosecond < b.nanosecond := fun hlt => hnot (.inr ⟨hsecond, hlt⟩)
  have hne : a.nanosecond ≠ b.nanosecond := by
    intro heq
    refine hprefixed.1 ?_
    unfold UtcDateTime.fraction
    rw [heq]
  omega

/-- **A text is first where its instant is not** exactly when both share a second. -/
theorem misread_iff {a b : UtcDateTime} :
    format_dt a < format_dt b ∧ ¬ a < b ↔ b < a ∧ SharesSecond a b := by
  have horder := format_dt_order a b
  constructor
  · rintro ⟨htext, htime⟩
    have hmis : Misordered a b := by
      by_contra hnot
      exact htime ((horder.2 hnot).1 htext)
    have hshares := hmis.resolve_left fun h => htime h.2.2
    exact ⟨hshares.lt_or_lt htime, hshares⟩
  · rintro ⟨htime, hshares⟩
    have hnot := utc_lt_asymm htime
    refine ⟨?_, hnot⟩
    by_contra htext
    exact horder.1 (iff_of_false htext hnot) (.inr hshares)

/-! ## 4. One request -/

section

variable {after : UtcDateTime → ℕ → Option UtcDateTime} {lease : Option LeaseRow}
  {owner_id : String} {now : UtcDateTime} {ttl_seconds : ℕ}

/-- **When a lease is acquired.** -/
theorem acquired_iff : (serve after lease (.try_acquire owner_id now ttl_seconds)).2 = some true ↔
    (after now ttl_seconds).isSome ∧ ∀ row ∈ lease, format_dt row.expires_at < format_dt now := by
  unfold serve try_acquire_scheduler_lease
  dsimp only
  rcases after now ttl_seconds with _ | expires_at
  · exact iff_of_false (by simp) (by simp)
  · rcases lease with _ | row
    · exact iff_of_true rfl ⟨rfl, fun row hrow => by cases hrow⟩
    · rw [Option.map_some]
      dsimp only
      split
      · next hlt => exact iff_of_true rfl ⟨rfl, fun row hrow => by cases hrow; exact hlt⟩
      · next hlt => exact iff_of_false (by simp) fun h => hlt (h.2 row rfl)

/-- **When a lease is renewed.** -/
theorem renewed_iff : (serve after lease (.renew owner_id now ttl_seconds)).2 = some true ↔
    (after now ttl_seconds).isSome ∧
      ∃ row ∈ lease, row.owner_id = owner_id ∧ ¬ format_dt row.expires_at < format_dt now := by
  unfold serve renew_scheduler_lease
  dsimp only
  rcases after now ttl_seconds with _ | expires_at
  · exact iff_of_false (by simp) (by simp)
  · rcases lease with _ | row
    · exact iff_of_false (by simp) (by simp)
    · rw [Option.map_some]
      dsimp only
      split
      · next hrow =>
          exact iff_of_true rfl ⟨rfl, row, rfl, hrow.1, not_lt.2 hrow.2⟩
      · next hrow =>
          refine iff_of_false (by simp) ?_
          rintro ⟨-, row', hrow', howner, hnot⟩
          cases hrow'
          exact hrow ⟨howner, not_lt.1 hnot⟩

/-- **One request keeps the lease exclusive exactly when it compares well.** -/
theorem leaseExclusive_iff (request : LeaseRequest) :
    LeaseExclusive after lease request ↔ ComparesWell after lease request := by
  cases request with
  | try_acquire owner_id now ttl_seconds =>
      rw [LeaseExclusive, ComparesWell, acquired_iff]
      constructor
      · intro hlaw hsome row hrow howner hlater hshares
        have hmisread := misread_iff.2 ⟨hlater, hshares⟩
        refine hmisread.2 (hlaw ⟨hsome, ?_⟩ row hrow howner)
        intro row' hrow'
        rw [Option.mem_unique hrow' hrow]
        exact hmisread.1
      · rintro hcondition ⟨hsome, htext⟩ row hrow howner
        by_contra htime
        obtain ⟨hlater, hshares⟩ := misread_iff.1 ⟨htext row hrow, htime⟩
        exact hcondition hsome row hrow howner hlater hshares
  | renew owner_id now ttl_seconds =>
      rw [LeaseExclusive, ComparesWell, renewed_iff]
      rcases lease with _ | row
      · exact iff_of_true (by simp) (fun _ row hrow => by cases hrow)
      · simp only [Option.mem_some_iff, exists_eq_left', forall_eq', ← format_dt_order,
          and_congr_right_iff, not_iff_not]
  | release owner_id => exact Iff.rfl

end

/-! ## 5. Every run -/

/-- **The lease is exclusive until it expires exactly in the runs whose requests compare
well**, and texts are in the order of time exactly when the instants are not misordered. -/
theorem lease_exclusive_iff (after : UtcDateTime → ℕ → Option UtcDateTime)
    (requests : List LeaseRequest) :
    (Along (fun lease request => (serve after lease request).1) (LeaseExclusive after) none
        requests ↔
      Along (fun lease request => (serve after lease request).1) (ComparesWell after) none
        requests) ∧
    ∀ a b, (format_dt a < format_dt b ↔ a < b) ↔ ¬ Misordered a b :=
  ⟨along_congr fun _ request _ => leaseExclusive_iff request, format_dt_order⟩

/-- An instant of one minute. -/
def in_minute (second nanosecond : ℕ) (hs : second < 60) (hn : nanosecond < 1000000000) :
    UtcDateTime :=
  ⟨2025, 1, 1, 10, 0, second, nanosecond, by decide, by decide, by decide, by decide, by decide,
    hs, hn⟩

/-- Seconds added inside a minute. -/
def after_in_minute (t : UtcDateTime) (seconds : ℕ) : Option UtcDateTime :=
  if h : t.second + seconds < 60 then
    some { t with
      second := t.second + seconds
      second_lt := h }
  else none

/-- A lease that is taken half a second after `10:00:00` for thirty seconds, and wanted at
`10:00:30`. -/
def early_takeover : List LeaseRequest :=
  [.try_acquire "first" (in_minute 0 500000000 (by decide) (by decide)) 30,
   .try_acquire "second" (in_minute 30 0 (by decide) (by decide)) 20]

/-- The second scheduler gets it half a second too early: `30Z` stands behind `30.5Z`. -/
theorem lease_taken_early :
    ¬ Along (fun lease request => (serve after_in_minute lease request).1)
      (LeaseExclusive after_in_minute) none early_takeover := by
  rintro ⟨-, hsecond, -⟩
  have hexpired := hsecond (by decide) ⟨"first", in_minute 0 500000000 (by decide) (by decide),
    in_minute 30 500000000 (by decide) (by decide)⟩ rfl (by decide)
  rcases hexpired with hearlier | ⟨-, hnano⟩
  · exact lt_irrefl _ hearlier
  · exact absurd hnano (by decide)

end Querymt.Scheduler
