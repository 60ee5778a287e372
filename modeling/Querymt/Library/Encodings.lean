/-
`Encodings.lean` -- byte strings of fixed width, and bytes written as text.

Three encodings, each with its decoder and the law that the decoder undoes it: numbers
as big-endian bytes, bytes as hexadecimal digits, and bytes as the unpadded base64 of
the URL alphabet. The big-endian law holds in both directions, since bytes of the right
number are the bytes of some number; the text decoders refuse what the encoders never
write, so only one direction is a law there.

Text as bytes is UTF-8, as Lean's own strings carry it; bytes that are no text can still be
read, with a replacement for what is not one (`from_utf8_lossy`).
-/
import Mathlib

set_option autoImplicit false

namespace Encodings

/-! ## Big-endian bytes -/

/-- The `w` bytes of `n`, the most significant first. -/
def be_bytes : ℕ → ℕ → List UInt8
  | 0, _ => []
  | w + 1, n => UInt8.ofNat (n / 256 ^ w) :: be_bytes w n

/-- The number that bytes denote, the most significant first. -/
def of_be : List UInt8 → ℕ
  | [] => 0
  | b :: bs => b.toNat * 256 ^ bs.length + of_be bs

@[simp] theorem length_be_bytes (w n : ℕ) : (be_bytes w n).length = w := by
  induction w with
  | zero => rfl
  | succ w ih => rw [be_bytes, List.length_cons, ih]

theorem of_be_lt (bs : List UInt8) : of_be bs < 256 ^ bs.length := by
  induction bs with
  | nil => simp [of_be]
  | cons b bs ih =>
      have hb : b.toNat + 1 ≤ 256 := b.toNat_lt
      have hle : (b.toNat + 1) * 256 ^ bs.length ≤ 256 * 256 ^ bs.length :=
        Nat.mul_le_mul_right _ hb
      rw [of_be, List.length_cons, pow_succ]
      linarith

theorem of_be_be_bytes (w n : ℕ) : of_be (be_bytes w n) = n % 256 ^ w := by
  induction w with
  | zero => simp [be_bytes, of_be, Nat.mod_one]
  | succ w ih =>
      rw [be_bytes, of_be, length_be_bytes, ih, Nat.mod_pow_succ, UInt8.toNat_ofNat']
      ring

/-- Bytes of one number are no bytes of another. -/
theorem of_be_inj {a b : List UInt8} (hlen : a.length = b.length) (h : of_be a = of_be b) :
    a = b := by
  induction a generalizing b with
  | nil => exact (List.length_eq_zero_iff.1 hlen.symm).symm
  | cons x a ih =>
      cases b with
      | nil => cases hlen
      | cons y b =>
          have hlen' : a.length = b.length := Nat.succ.inj hlen
          have ha := of_be_lt a
          have hb := of_be_lt b
          rw [of_be, of_be, hlen'] at h
          rw [hlen'] at ha
          -- the leading byte is the quotient, the rest is the remainder
          have hpos : 0 < 256 ^ b.length := by positivity
          have hx : (x.toNat * 256 ^ b.length + of_be a) / 256 ^ b.length = x.toNat := by
            rw [Nat.mul_comm, Nat.mul_add_div hpos, Nat.div_eq_of_lt ha, Nat.add_zero]
          have hy : (y.toNat * 256 ^ b.length + of_be b) / 256 ^ b.length = y.toNat := by
            rw [Nat.mul_comm, Nat.mul_add_div hpos, Nat.div_eq_of_lt hb, Nat.add_zero]
          have hxy : x = y := by
            rw [h, hy] at hx
            exact (UInt8.toNat_inj.1 hx).symm
          subst hxy
          rw [ih hlen' (Nat.add_left_cancel h)]

theorem be_bytes_of_be {w : ℕ} {bs : List UInt8} (h : bs.length = w) :
    be_bytes w (of_be bs) = bs := by
  apply of_be_inj
  · rw [length_be_bytes, h]
  · rw [of_be_be_bytes, ← h, Nat.mod_eq_of_lt (of_be_lt bs)]

theorem be_bytes_inj {w n m : ℕ} (hn : n < 256 ^ w) (hm : m < 256 ^ w)
    (h : be_bytes w n = be_bytes w m) : n = m := by
  have hof := congrArg of_be h
  rwa [of_be_be_bytes, of_be_be_bytes, Nat.mod_eq_of_lt hn, Nat.mod_eq_of_lt hm] at hof

/-! ## Text as bytes -/

/-- The UTF-8 bytes of a text. -/
def as_bytes (s : String) : List UInt8 := s.toByteArray.data.toList

/-- The text whose UTF-8 bytes these are, if there is one. -/
def from_utf8 (bs : List UInt8) : Option String := String.fromUTF8? ⟨bs.toArray⟩

theorem from_utf8_as_bytes (s : String) : from_utf8 (as_bytes s) = some s := by
  unfold from_utf8 as_bytes String.fromUTF8?
  rw [dif_pos s.isValidUTF8]
  rfl

theorem as_bytes_of_from_utf8 {bs : List UInt8} {s : String} (h : from_utf8 bs = some s) :
    as_bytes s = bs := by
  unfold from_utf8 String.fromUTF8? at h
  split at h
  · rw [← Option.some.inj h]
    rfl
  · cases h

theorem as_bytes_inj {s t : String} (h : as_bytes s = as_bytes t) : s = t := by
  have hs := from_utf8_as_bytes s
  rw [h, from_utf8_as_bytes] at hs
  exact (Option.some.inj hs).symm

theorem as_bytes_eq_nil {s : String} : as_bytes s = [] ↔ s = "" := by
  constructor
  · intro h
    exact as_bytes_inj h
  · rintro rfl
    rfl

theorem as_bytes_append (s t : String) : as_bytes (s ++ t) = as_bytes s ++ as_bytes t := by
  unfold as_bytes
  rw [String.toByteArray_append, ByteArray.data_append, Array.toList_append]

theorem as_bytes_ofList (l : List Char) :
    as_bytes (String.ofList l) = l.flatMap String.utf8EncodeChar := by
  unfold as_bytes
  rw [String.toByteArray_ofList, List.utf8Encode]
  exact List.data_toByteArray ▸ rfl

/-! ## Bytes that may be no text -/

/-- How many bytes the character takes that starts with the byte; none if none starts so. -/
def char_width (b : UInt8) : ℕ :=
  if b < 0x80 then 1
  else if 0xC2 ≤ b ∧ b ≤ 0xDF then 2
  else if 0xE0 ≤ b ∧ b ≤ 0xEF then 3
  else if 0xF0 ≤ b ∧ b ≤ 0xF4 then 4
  else 0

/-- Whether `c` may be the second byte after `b`. -/
def may_follow (b c : UInt8) : Bool :=
  let low : UInt8 := if b = 0xE0 then 0xA0 else if b = 0xF0 then 0x90 else 0x80
  let high : UInt8 := if b = 0xED then 0x9F else if b = 0xF4 then 0x8F else 0xBF
  decide (low ≤ c ∧ c ≤ high)

/-- How many bytes after the first are still of the same character. -/
def continuation (b : UInt8) : List UInt8 → ℕ
  | [] => 0
  | c :: rest =>
      if 2 ≤ char_width b ∧ may_follow b c = true then
        1 + ((rest.take (char_width b - 2)).takeWhile fun d => decide (0x80 ≤ d ∧ d ≤ 0xBF)).length
      else 0

/-- The characters, with `U+FFFD` for each start of a character that is not completed; the
first argument bounds their number. -/
def replace_invalid : ℕ → List UInt8 → List Char
  | 0, _ => []
  | _, [] => []
  | fuel + 1, b :: rest =>
      let n := continuation b rest
      let replaced := [Char.ofNat 0xFFFD]
      (if n + 1 = char_width b then ((from_utf8 (b :: rest.take n)).map String.toList).getD replaced
        else replaced) ++ replace_invalid fuel (rest.drop n)

/-- `String::from_utf8_lossy`. -/
def from_utf8_lossy (bs : List UInt8) : List Char :=
  match from_utf8 bs with
  | some s => s.toList
  | none => replace_invalid bs.length bs

theorem from_utf8_lossy_as_bytes (s : String) : from_utf8_lossy (as_bytes s) = s.toList := by
  rw [from_utf8_lossy, from_utf8_as_bytes]

/-! ## Hexadecimal digits -/

/-- The digits, lower case, in the order of their values. -/
def hex_digits : List Char := "0123456789abcdef".toList

def hex_digit (n : ℕ) : Char := hex_digits.getD n '0'

/-- The value of a digit of either case. -/
def hex_value (c : Char) : Option ℕ :=
  if '0' ≤ c ∧ c ≤ '9' then some (c.toNat - '0'.toNat)
  else if 'a' ≤ c ∧ c ≤ 'f' then some (c.toNat - 'a'.toNat + 10)
  else if 'A' ≤ c ∧ c ≤ 'F' then some (c.toNat - 'A'.toNat + 10)
  else none

def hex_chars : List UInt8 → List Char
  | [] => []
  | b :: bs => hex_digit (b.toNat / 16) :: hex_digit (b.toNat % 16) :: hex_chars bs

/-- Two digits a byte, nothing else. -/
def hex_bytes : List Char → Option (List UInt8)
  | [] => some []
  | [_] => none
  | h :: l :: cs =>
      match hex_value h, hex_value l, hex_bytes cs with
      | some a, some b, some bs => some (UInt8.ofNat (a * 16 + b) :: bs)
      | _, _, _ => none

theorem hex_value_digit {n : ℕ} (h : n < 16) : hex_value (hex_digit n) = some n := by
  interval_cases n <;> decide

theorem hex_digit_mem {n : ℕ} (h : n < 16) : hex_digit n ∈ hex_digits := by
  interval_cases n <;> decide

theorem hex_bytes_chars (bs : List UInt8) : hex_bytes (hex_chars bs) = some bs := by
  induction bs with
  | nil => rfl
  | cons b bs ih =>
      have hb : b.toNat < 256 := b.toNat_lt
      have hi : hex_value (hex_digit (b.toNat / 16)) = some (b.toNat / 16) :=
        hex_value_digit (by omega)
      have lo : hex_value (hex_digit (b.toNat % 16)) = some (b.toNat % 16) :=
        hex_value_digit (by omega)
      have hsum : b.toNat / 16 * 16 + b.toNat % 16 = b.toNat := by omega
      rw [hex_chars, hex_bytes, hi, lo, ih]
      simp only [hsum, UInt8.ofNat_toNat]

theorem mem_hex_chars {bs : List UInt8} {c : Char} (h : c ∈ hex_chars bs) : c ∈ hex_digits := by
  induction bs with
  | nil => cases h
  | cons b bs ih =>
      have hb : b.toNat < 256 := b.toNat_lt
      rw [hex_chars, List.mem_cons, List.mem_cons] at h
      obtain rfl | rfl | h := h
      · exact hex_digit_mem (by omega)
      · exact hex_digit_mem (by omega)
      · exact ih h

/-! ## Base64, URL alphabet, no padding -/

/-- The symbols in the order of their values. -/
def base64_symbols : List Char :=
  "ABCDEFGHIJKLMNOPQRSTUVWXYZabcdefghijklmnopqrstuvwxyz0123456789-_".toList

def base64_symbol (n : ℕ) : Char := base64_symbols.getD n 'A'

def base64_value (c : Char) : Option ℕ := base64_symbols.idxOf? c

/-- Three bytes are four symbols; one or two bytes at the end are two or three symbols,
the unused bits zero. -/
def base64_chars : List UInt8 → List Char
  | [] => []
  | [a] => [base64_symbol (a.toNat / 4), base64_symbol (a.toNat % 4 * 16)]
  | [a, b] =>
      [base64_symbol (a.toNat / 4), base64_symbol (a.toNat % 4 * 16 + b.toNat / 16),
        base64_symbol (b.toNat % 16 * 4)]
  | a :: b :: c :: bs =>
      base64_symbol (a.toNat / 4) :: base64_symbol (a.toNat % 4 * 16 + b.toNat / 16) ::
        base64_symbol (b.toNat % 16 * 4 + c.toNat / 64) :: base64_symbol (c.toNat % 64) ::
          base64_chars bs

/-- Refused are foreign symbols, a single symbol at the end, and unused bits that are
not zero. -/
def base64_bytes : List Char → Option (List UInt8)
  | [] => some []
  | [_] => none
  | [p, q] =>
      match base64_value p, base64_value q with
      | some i, some j => if j % 16 = 0 then some [UInt8.ofNat (i * 4 + j / 16)] else none
      | _, _ => none
  | [p, q, r] =>
      match base64_value p, base64_value q, base64_value r with
      | some i, some j, some k =>
          if k % 4 = 0 then
            some [UInt8.ofNat (i * 4 + j / 16), UInt8.ofNat (j % 16 * 16 + k / 4)]
          else none
      | _, _, _ => none
  | p :: q :: r :: s :: cs =>
      match base64_value p, base64_value q, base64_value r, base64_value s, base64_bytes cs with
      | some i, some j, some k, some l, some bs =>
          some (UInt8.ofNat (i * 4 + j / 16) :: UInt8.ofNat (j % 16 * 16 + k / 4) ::
            UInt8.ofNat (k % 4 * 64 + l) :: bs)
      | _, _, _, _, _ => none

theorem base64_value_symbol {n : ℕ} (h : n < 64) : base64_value (base64_symbol n) = some n := by
  interval_cases n <;> decide

theorem base64_symbol_mem {n : ℕ} (h : n < 64) : base64_symbol n ∈ base64_symbols := by
  interval_cases n <;> decide

theorem base64_bytes_chars (bs : List UInt8) : base64_bytes (base64_chars bs) = some bs := by
  fun_induction base64_chars bs with
  | case1 => rfl
  | case2 a =>
      have ha : a.toNat < 256 := a.toNat_lt
      rw [base64_bytes, base64_value_symbol (by omega), base64_value_symbol (by omega)]
      have h₁ : a.toNat % 4 * 16 % 16 = 0 := by omega
      have h₂ : a.toNat / 4 * 4 + a.toNat % 4 * 16 / 16 = a.toNat := by omega
      simp only [h₁, h₂, if_true, UInt8.ofNat_toNat]
  | case3 a b =>
      have ha : a.toNat < 256 := a.toNat_lt
      have hb : b.toNat < 256 := b.toNat_lt
      rw [base64_bytes, base64_value_symbol (by omega), base64_value_symbol (by omega),
        base64_value_symbol (by omega)]
      have h₁ : b.toNat % 16 * 4 % 4 = 0 := by omega
      have h₂ : a.toNat / 4 * 4 + (a.toNat % 4 * 16 + b.toNat / 16) / 16 = a.toNat := by omega
      have h₃ : (a.toNat % 4 * 16 + b.toNat / 16) % 16 * 16 + b.toNat % 16 * 4 / 4 = b.toNat := by
        omega
      simp only [h₁, h₂, h₃, if_true, UInt8.ofNat_toNat]
  | case4 a b c bs ih =>
      have ha : a.toNat < 256 := a.toNat_lt
      have hb : b.toNat < 256 := b.toNat_lt
      have hc : c.toNat < 256 := c.toNat_lt
      rw [base64_bytes, base64_value_symbol (by omega), base64_value_symbol (by omega),
        base64_value_symbol (by omega), base64_value_symbol (by omega), ih]
      have h₁ : a.toNat / 4 * 4 + (a.toNat % 4 * 16 + b.toNat / 16) / 16 = a.toNat := by omega
      have h₂ : (a.toNat % 4 * 16 + b.toNat / 16) % 16 * 16 +
          (b.toNat % 16 * 4 + c.toNat / 64) / 4 = b.toNat := by omega
      have h₃ : (b.toNat % 16 * 4 + c.toNat / 64) % 4 * 64 + c.toNat % 64 = c.toNat := by omega
      simp only [h₁, h₂, h₃, UInt8.ofNat_toNat]

theorem mem_base64_chars {bs : List UInt8} {s : Char} (h : s ∈ base64_chars bs) :
    s ∈ base64_symbols := by
  fun_induction base64_chars bs with
  | case1 => cases h
  | case2 a =>
      have ha : a.toNat < 256 := a.toNat_lt
      simp only [List.mem_cons, List.not_mem_nil, or_false] at h
      obtain rfl | rfl := h
      all_goals exact base64_symbol_mem (by omega)
  | case3 a b =>
      have ha : a.toNat < 256 := a.toNat_lt
      have hb : b.toNat < 256 := b.toNat_lt
      simp only [List.mem_cons, List.not_mem_nil, or_false] at h
      obtain rfl | rfl | rfl := h
      all_goals exact base64_symbol_mem (by omega)
  | case4 a b c bs ih =>
      have ha : a.toNat < 256 := a.toNat_lt
      have hb : b.toNat < 256 := b.toNat_lt
      have hc : c.toNat < 256 := c.toNat_lt
      simp only [List.mem_cons] at h
      obtain rfl | rfl | rfl | rfl | h := h
      · exact base64_symbol_mem (by omega)
      · exact base64_symbol_mem (by omega)
      · exact base64_symbol_mem (by omega)
      · exact base64_symbol_mem (by omega)
      · exact ih h

end Encodings
