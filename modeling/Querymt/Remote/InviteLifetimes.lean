/-
`InviteLifetimes.lean` -- how long an invite lasts.

A lifetime is read from a text such as `2h`, a number of units, and added to the clock
when the invite is created. Both are 64-bit operations without a check: a build with
overflow checks panics where the exact result does not fit, any other build goes on with
the result modulo `2 ^ 64`, and an invite may come out expired, or, at `0`, lasting for
ever. What is exact is proved for both builds, and that it is exact only as long as the
result fits.

`overflow_checks` says which build it is; the repository's profiles do not set it, so it
is on in a development build and off in a release.
-/
import Querymt.Library.Strings
import Querymt.Remote.InviteStore

set_option autoImplicit false

open Faults Strings

namespace Querymt.Invite

/-! ## Arithmetic of `u64` -/

/-- A result that has to fit into 64 bits. -/
def fitted (overflow_checks : Bool) (exact : ℕ) : Except (Fault Empty) UInt64 :=
  if overflow_checks ∧ 2 ^ 64 ≤ exact then .error .Panic else .ok (UInt64.ofNat exact)

def strip_plus (s : Str) : Str := if s.head? = some '+' then s.tail else s

/-- `u64::from_str`: digits, possibly behind a plus sign, of a number that fits. -/
def u64_from_str (s : Str) : Option UInt64 :=
  let digits := strip_plus s
  if digits ≠ [] ∧ digits.all Char.isDigit ∧ Nat.ofDigitChars 10 digits 0 < 2 ^ 64 then
    some (UInt64.ofNat (Nat.ofDigitChars 10 digits 0))
  else none

/-! ## Lifetimes -/

/-- The number's text and what it counts. -/
def split_unit (s : Str) : Str × UInt64 :=
  match strip_end 'd' s with
  | some n => (n, 86400)
  | none =>
      match strip_end 'h' s with
      | some n => (n, 3600)
      | none =>
          match strip_end 'm' s with
          | some n => (n, 60)
          | none =>
              match strip_end 's' s with
              | some n => (n, 1)
              | none => (s, 1)

def parse_duration_secs (overflow_checks : Bool) (s : Str) :
    Except (Fault Empty) (Option UInt64) :=
  let s := trim s
  if s.map Char.toLower = "none".toList then .ok none
  else
    let (num_str, multiplier) := split_unit s
    match u64_from_str num_str with
    | none => .ok none
    | some n => (fitted overflow_checks (n.toNat * multiplier.toNat)).map some

def format_duration_human (secs : UInt64) : Str :=
  let secs := secs.toNat
  if secs ≥ 86400 ∧ secs % 86400 = 0 then Nat.toDigits 10 (secs / 86400) ++ ['d']
  else if secs ≥ 3600 ∧ secs % 3600 = 0 then Nat.toDigits 10 (secs / 3600) ++ ['h']
  else if secs ≥ 60 ∧ secs % 60 = 0 then Nat.toDigits 10 (secs / 60) ++ ['m']
  else Nat.toDigits 10 secs ++ ['s']

/-- The expiry that `create_invite` computes. -/
def expires_at (overflow_checks : Bool) (now : UInt64) (ttl_secs : Option UInt64) :
    Except (Fault Empty) UInt64 :=
  match ttl_secs with
  | none => .ok 0
  | some ttl => fitted overflow_checks (now.toNat + ttl.toNat)

/-! ## What fits is exact -/

section

variable {checks : Bool}

theorem fitted_of_lt {n : ℕ} (h : n < 2 ^ 64) : fitted checks n = .ok (UInt64.ofNat n) := by
  have hno : ¬ (checks = true ∧ 2 ^ 64 ≤ n) := fun hc => by omega
  unfold fitted
  rw [if_neg hno]

/-- Whatever the build, a result is the exact one only if that fits. -/
theorem fitted_exact_iff {n : ℕ} :
    (∃ v, fitted checks n = .ok v ∧ v.toNat = n) ↔ n < 2 ^ 64 := by
  constructor
  · rintro ⟨v, -, hv⟩
    rw [← hv]
    exact v.toNat_lt
  · intro h
    exact ⟨_, fitted_of_lt h, UInt64.toNat_ofNat_of_lt' h⟩

end

/-! ## What a text spells -/

/-- A decimal number, as `u64::from_str` reads it: a plus sign may come first. -/
def Decimal (s : Str) (n : ℕ) : Prop :=
  ∃ digits, (s = digits ∨ s = '+' :: digits) ∧ digits ≠ [] ∧ (∀ c ∈ digits, c.isDigit) ∧
    n = Nat.ofDigitChars 10 digits 0

/-- The units, each with the seconds it stands for. -/
def units : List (Str × ℕ) := [(['d'], 86400), (['h'], 3600), (['m'], 60), (['s'], 1), ([], 1)]

/-- The text is the number `n`, with a unit of so many seconds behind it. -/
def Spells (s : Str) (n unit : ℕ) : Prop :=
  ∃ number suffix, s = number ++ suffix ∧ Decimal number n ∧ (suffix, unit) ∈ units

section

variable {s : Str} {n unit : ℕ}

theorem strip_plus_cases (s : Str) : s = strip_plus s ∨ s = '+' :: strip_plus s := by
  unfold strip_plus
  split
  · next hplus => exact .inr (List.cons_head?_tail hplus).symm
  · exact .inl rfl

theorem strip_plus_digits {digits : Str} (h : ∀ c ∈ digits, c.isDigit) :
    strip_plus digits = digits := by
  refine if_neg fun hplus => ?_
  have hdigit := h '+' (List.mem_of_mem_head? hplus)
  exact absurd hdigit (by decide)

theorem u64_from_str_eq_some {v : UInt64} : u64_from_str s = some v ↔ Decimal s v.toNat := by
  unfold u64_from_str Decimal
  constructor
  · intro h
    dsimp only at h
    split at h
    · next hd =>
      obtain ⟨hne, hall, hlt⟩ := hd
      cases h
      exact ⟨_, strip_plus_cases s, hne, List.all_eq_true.1 hall, UInt64.toNat_ofNat_of_lt' hlt⟩
    · cases h
  · rintro ⟨digits, hs, hne, hall, hv⟩
    have hdigits : strip_plus s = digits := by
      obtain rfl | rfl := hs
      · exact strip_plus_digits hall
      · rfl
    have hlt : Nat.ofDigitChars 10 digits 0 < 2 ^ 64 := hv ▸ v.toNat_lt
    dsimp only
    rw [hdigits, if_pos ⟨hne, List.all_eq_true.2 hall, hlt⟩, ← hv, UInt64.ofNat_toNat]

/-- The last character of a number is a digit, which no unit is. -/
theorem Decimal.eq_append (h : Decimal s n) : ∃ t c, s = t ++ [c] ∧ c.isDigit := by
  obtain ⟨digits, hs, hne, hall, -⟩ := h
  have hlast := List.dropLast_append_getLast hne
  have hdigit := hall _ (List.getLast_mem hne)
  obtain rfl | rfl := hs
  · exact ⟨_, _, hlast.symm, hdigit⟩
  · exact ⟨'+' :: digits.dropLast, _, by rw [List.cons_append, hlast], hdigit⟩

/-- `split_unit` finds the only number and unit that there can be. -/
theorem spells_iff :
    Spells s n unit ↔ Decimal (split_unit s).1 n ∧ (split_unit s).2.toNat = unit := by
  constructor
  · rintro ⟨number, suffix, rfl, hn, hunit⟩
    simp only [units, List.mem_cons, List.not_mem_nil, or_false, Prod.mk.injEq] at hunit
    obtain ⟨rfl, rfl⟩ | ⟨rfl, rfl⟩ | ⟨rfl, rfl⟩ | ⟨rfl, rfl⟩ | ⟨rfl, rfl⟩ := hunit
    · simpa [split_unit] using hn
    · simpa [split_unit] using hn
    · simpa [split_unit] using hn
    · simpa [split_unit] using hn
    · obtain ⟨t, c, rfl, hc⟩ := hn.eq_append
      have hne : ∀ d : Char, d.isDigit = false → c ≠ d := by
        rintro d hd rfl
        rw [hc] at hd
        cases hd
      rw [List.append_nil]
      simpa [split_unit, hne 'd' rfl, hne 'h' rfl, hne 'm' rfl, hne 's' rfl] using hn
  · rintro ⟨hn, rfl⟩
    unfold split_unit at hn ⊢
    split at hn
    · next t ht => exact ⟨t, _, strip_end_eq_some.1 ht, hn, by simp [units]⟩
    split at hn
    · next t ht => exact ⟨t, _, strip_end_eq_some.1 ht, hn, by simp [units]⟩
    split at hn
    · next t ht => exact ⟨t, _, strip_end_eq_some.1 ht, hn, by simp [units]⟩
    split at hn
    · next t ht => exact ⟨t, _, strip_end_eq_some.1 ht, hn, by simp [units]⟩
    · exact ⟨s, [], (List.append_nil s).symm, hn, by simp [units]⟩

theorem toLower_of_isDigit {c : Char} (h : c.isDigit) : c.toLower = c := by
  unfold Char.isDigit at h
  unfold Char.toLower
  grind

/-- A number does not start like the word `none`. -/
theorem Spells.ne_none (h : Spells s n unit) : s.map Char.toLower ≠ "none".toList := by
  obtain ⟨number, suffix, rfl, ⟨digits, hs, hne, hall, -⟩, -⟩ := h
  obtain ⟨c, digits, rfl⟩ := List.exists_cons_of_ne_nil hne
  intro hnone
  obtain rfl | rfl := hs
  · have hc := hall c (List.mem_cons_self ..)
    have hn : c.toLower = 'n' := (List.cons.inj hnone).1
    rw [toLower_of_isDigit hc] at hn
    rw [hn] at hc
    cases hc
  · exact absurd (List.cons.inj hnone).1 (by decide)

/-- A text that spells a lifetime is read as its number of units, as far as that fits. -/
theorem parse_of_spells {checks : Bool} (h : Spells (trim s) n unit) (hn : n < 2 ^ 64) :
    parse_duration_secs checks s = (fitted checks (n * unit)).map some := by
  obtain ⟨hdecimal, rfl⟩ := spells_iff.1 h
  have hread : u64_from_str (split_unit (trim s)).1 = some (UInt64.ofNat n) :=
    u64_from_str_eq_some.2 (by rwa [UInt64.toNat_ofNat_of_lt' hn])
  unfold parse_duration_secs
  dsimp only
  rw [if_neg h.ne_none, hread]
  dsimp only
  rw [UInt64.toNat_ofNat_of_lt' hn]

/-- Any other text is not read at all. -/
theorem parse_cases (checks : Bool) (s : Str) :
    parse_duration_secs checks s = .ok none ∨
      ∃ n unit, Spells (trim s) n unit ∧ n < 2 ^ 64 := by
  unfold parse_duration_secs
  dsimp only
  split
  · exact .inl rfl
  · cases hread : u64_from_str (split_unit (trim s)).1 with
    | none => exact .inl rfl
    | some v => exact .inr ⟨_, _, spells_iff.2 ⟨u64_from_str_eq_some.1 hread, rfl⟩, v.toNat_lt⟩

theorem spells_unique {m unit' : ℕ} (h : Spells s n unit) (h' : Spells s m unit') :
    n = m ∧ unit = unit' := by
  obtain ⟨⟨d, hs, -, hall, rfl⟩, rfl⟩ := spells_iff.1 h
  obtain ⟨⟨d', hs', -, hall', rfl⟩, rfl⟩ := spells_iff.1 h'
  have hd : ∀ {d : Str}, (∀ c ∈ d, c.isDigit) →
      ((split_unit s).1 = d ∨ (split_unit s).1 = '+' :: d) → strip_plus (split_unit s).1 = d := by
    rintro d hall (hs | hs)
    · rw [hs, strip_plus_digits hall]
    · rw [hs]
      rfl
  rw [← hd hall hs, ← hd hall' hs']
  exact ⟨rfl, rfl⟩

/-- Reading does not panic, and what it gives is the exact length of what the text
spells. -/
def ReadsExactly (checks : Bool) (s : Str) : Prop :=
  ∃ o, parse_duration_secs checks s = .ok o ∧
    ∀ v, o = some v → ∃ n unit, Spells (trim s) n unit ∧ v.toNat = n * unit

theorem readsExactly_iff {checks : Bool} :
    ReadsExactly checks s ↔
      ∀ n unit, Spells (trim s) n unit → n < 2 ^ 64 → n * unit < 2 ^ 64 := by
  unfold ReadsExactly
  constructor
  · rintro ⟨o, ho, hexact⟩ n unit hspells hn
    rw [parse_of_spells hspells hn] at ho
    cases hfit : fitted checks (n * unit) with
    | error e =>
        rw [hfit] at ho
        cases ho
    | ok v =>
        rw [hfit] at ho
        cases ho
        obtain ⟨m, unit', hspells', hv⟩ := hexact v rfl
        obtain ⟨rfl, rfl⟩ := spells_unique hspells hspells'
        rw [← hv]
        exact v.toNat_lt
  · intro hfits
    obtain hnone | ⟨n, unit, hspells, hn⟩ := parse_cases checks s
    · exact ⟨none, hnone, fun v hv => by cases hv⟩
    · obtain ⟨v, hfit, hv⟩ := fitted_exact_iff.2 (hfits n unit hspells hn)
      refine ⟨some v, ?_, ?_⟩
      · rw [parse_of_spells hspells hn, hfit]
        rfl
      · rintro _ ⟨⟩
        exact ⟨n, unit, hspells, hv⟩

end

/-! ## Lifetimes as they are shown -/

theorem decimal_toDigits (n : ℕ) : Decimal (Nat.toDigits 10 n) n :=
  ⟨_, .inl rfl, List.ne_nil_of_length_pos Nat.length_toDigits_pos,
    fun _ hc => Nat.isDigit_of_mem_toDigits (by decide) (by decide) hc,
    Nat.ofDigitChars_ten_toDigits.symm⟩

theorem not_whitespace_of_isDigit {c : Char} (h : c.isDigit) : is_whitespace c = false := by
  have hrange : 48 ≤ c.toNat ∧ c.toNat ≤ 57 := by
    simp only [Char.isDigit, Bool.and_eq_true, decide_eq_true_eq, ge_iff_le,
      UInt32.le_iff_toNat_le] at h
    exact h
  simp only [is_whitespace, List.mem_cons, List.not_mem_nil, or_false, Bool.or_eq_false_iff,
    decide_eq_false_iff_not]
  omega

/-- A number with its unit reads as that many units. -/
theorem parse_shown (checks : Bool) {n unit : ℕ} {u : Char} (hu : ([u], unit) ∈ units)
    (hfits : n * unit < 2 ^ 64) (hunit : 0 < unit) :
    parse_duration_secs checks (Nat.toDigits 10 n ++ [u]) =
      .ok (some (UInt64.ofNat (n * unit))) := by
  have hn : n < 2 ^ 64 := lt_of_le_of_lt (Nat.le_mul_of_pos_right n hunit) hfits
  have hblank : is_whitespace u = false := by
    simp only [units, List.mem_cons, Prod.mk.injEq, List.cons.injEq] at hu
    obtain ⟨⟨rfl, -⟩, -⟩ | ⟨⟨rfl, -⟩, -⟩ | ⟨⟨rfl, -⟩, -⟩ | ⟨⟨rfl, -⟩, -⟩ | ⟨⟨⟩, -⟩ | ⟨⟨⟩⟩ := hu
    all_goals rfl
  have htight : trim (Nat.toDigits 10 n ++ [u]) = Nat.toDigits 10 n ++ [u] := by
    refine Texts.trim_eq_self_iff.2 (Texts.tight_of_forall_not fun c hc => ?_)
    obtain hc | hc := List.mem_append.1 hc
    · exact not_whitespace_of_isDigit (Nat.isDigit_of_mem_toDigits (by decide) (by decide) hc)
    · rw [List.mem_singleton.1 hc, hblank]
  have hspells : Spells (trim (Nat.toDigits 10 n ++ [u])) n unit := by
    rw [htight]
    exact ⟨_, _, rfl, decimal_toDigits n, hu⟩
  rw [parse_of_spells hspells hn, fitted_of_lt hfits]
  rfl

theorem parse_format {checks : Bool} (v : UInt64) :
    parse_duration_secs checks (format_duration_human v) = .ok (some v) := by
  have hv := v.toNat_lt
  have hshown : ∀ (unit : ℕ) {u : Char}, ([u], unit) ∈ units → 0 < unit → v.toNat % unit = 0 →
      parse_duration_secs checks (Nat.toDigits 10 (v.toNat / unit) ++ [u]) = .ok (some v) := by
    intro unit u hu hunit hmod
    have hexact : v.toNat / unit * unit = v.toNat := Nat.div_mul_cancel (Nat.dvd_of_mod_eq_zero hmod)
    have hparse := parse_shown checks (n := v.toNat / unit) hu
      (by rw [hexact]; exact hv) hunit
    rwa [hexact, UInt64.ofNat_toNat] at hparse
  unfold format_duration_human
  dsimp only
  split
  · next h => exact hshown _ (by simp [units]) (by decide) h.2
  split
  · next h => exact hshown _ (by simp [units]) (by decide) h.2
  split
  · next h => exact hshown _ (by simp [units]) (by decide) h.2
  · have hseconds := hshown 1 (u := 's') (by simp [units]) (by decide) (Nat.mod_one _)
    rwa [Nat.div_one] at hseconds

/-! ## The expiry of an invite -/

/-- The invite expires, and not before it is created. -/
def ExpiresLater (checks : Bool) (now ttl : UInt64) : Prop :=
  ∃ e, expires_at checks now (some ttl) = .ok e ∧ now ≤ e ∧ e ≠ 0

theorem expiresLater_iff {checks : Bool} {now ttl : UInt64} :
    ExpiresLater checks now ttl ↔
      now.toNat + ttl.toNat < 2 ^ 64 ∧ 0 < now.toNat + ttl.toNat := by
  unfold ExpiresLater expires_at
  dsimp only
  constructor
  · rintro ⟨e, he, hle, hne⟩
    have hlt := UInt64.le_iff_toNat_le.1 hle
    have hpos : 0 < e.toNat := Nat.pos_of_ne_zero fun h0 => hne (UInt64.toNat_inj.1 h0)
    unfold fitted at he
    split at he
    · cases he
    · cases he
      rw [UInt64.toNat_ofNat'] at hlt hpos
      have hnow := now.toNat_lt
      have httl := ttl.toNat_lt
      omega
  · rintro ⟨hfits, hpos⟩
    refine ⟨_, fitted_of_lt hfits, UInt64.le_iff_toNat_le.2 ?_, fun h0 => ?_⟩
    · rw [UInt64.toNat_ofNat_of_lt' hfits]
      omega
    · have hzero := congrArg UInt64.toNat h0
      rw [UInt64.toNat_ofNat_of_lt' hfits, UInt64.toNat_zero] at hzero
      omega

/-- In a release an invite has this expiry. -/
theorem new_grant_expires_at (c : Crates) (now : UInt64) (uuid : Uuid) (peer_id_str : String)
    (mesh_name : Option String) (ttl_secs : Option UInt64) (max_uses : UInt32)
    (permissions : InvitePermissions) :
    .ok (new_grant c now uuid peer_id_str mesh_name ttl_secs max_uses permissions).expires_at =
      expires_at false now ttl_secs := by
  cases ttl_secs with
  | none => rfl
  | some ttl =>
      unfold new_grant expires_at fitted
      dsimp only [Option.map_some, Option.getD_some]
      rw [if_neg (by simp)]
      refine congrArg Except.ok (UInt64.toNat_inj.1 ?_)
      rw [UInt64.toNat_add, UInt64.toNat_ofNat']

/-- In either build: a lifetime is read exactly, and an expiry is later than its
creation, as long as the exact result fits into 64 bits and is not zero; and a lifetime
reads back as it is shown. What `create_invite` signs is the expiry that a release
computes. -/
theorem invite_lifetimes_exact_iff (checks : Bool) :
    (∀ s, ReadsExactly checks s ↔
      ∀ n unit, Spells (trim s) n unit → n < 2 ^ 64 → n * unit < 2 ^ 64) ∧
    (∀ v, parse_duration_secs checks (format_duration_human v) = .ok (some v)) ∧
    (∀ now ttl, ExpiresLater checks now ttl ↔
      now.toNat + ttl.toNat < 2 ^ 64 ∧ 0 < now.toNat + ttl.toNat) ∧
    ∀ (c : Crates) (s s' : InviteStore) now created_at uuid saved (keypair : Keypair c) peer_id_str
      mesh_name ttl_secs max_uses permissions signed,
      s.create_invite c now created_at uuid saved keypair peer_id_str mesh_name ttl_secs max_uses
        permissions = (.ok signed, s') →
      .ok signed.grant.expires_at = expires_at false now ttl_secs := by
  refine ⟨fun s => readsExactly_iff, parse_format, fun now ttl => expiresLater_iff, ?_⟩
  intro c s s' now created_at uuid saved keypair peer_id_str mesh_name ttl_secs max_uses
    permissions signed h
  unfold InviteStore.create_invite at h
  dsimp only at h
  split at h
  · cases (Prod.mk.inj h).1
  · next signed' hsign =>
    obtain ⟨hsigned, -⟩ := Prod.mk.inj h
    -- neither signing nor saving changes the grant
    obtain ⟨wire, -, hsign⟩ := bind_eq_ok.1 hsign
    obtain ⟨sig, -, hsign⟩ := bind_eq_ok.1 hsign
    cases hsign
    cases saved with
    | error e => cases hsigned
    | ok u =>
      cases hsigned
      exact new_grant_expires_at ..

/-- So many days do not fit: they are read as 17 hours, or not at all. A lifetime that
ends where the clock starts again never ends. -/
theorem lifetimes_wrap :
    parse_duration_secs false "213503982334602d".toList = .ok (some 61184) ∧
    (∀ checks, ¬ ReadsExactly checks "213503982334602d".toList) ∧
    expires_at false 1700000000 (some 18446744072009551616) = .ok 0 ∧
    ∀ checks, ¬ ExpiresLater checks 1700000000 18446744072009551616 := by
  have hspells : Spells (trim "213503982334602d".toList) 213503982334602 86400 :=
    ⟨"213503982334602".toList, ['d'], by decide, ⟨_, .inl rfl, by decide, List.all_eq_true.1 rfl, rfl⟩,
      by simp [units]⟩
  refine ⟨?_, ?_, by rfl, ?_⟩
  · rw [parse_of_spells hspells (by decide)]
    rfl
  · intro checks h
    exact absurd (readsExactly_iff.1 h _ _ hspells (by decide)) (by decide)
  · intro checks h
    exact absurd (expiresLater_iff.1 h).1 (by decide)

end Querymt.Invite
