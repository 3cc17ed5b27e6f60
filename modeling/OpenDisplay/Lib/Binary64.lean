import Mathlib.Data.Int.Log
import Mathlib.Data.Rat.Floor
import OpenDisplay.Lib.Text

/-! # Binary64 numbers and their numerals

A `Double` is an exact rational, an infinity or NaN; the two zeros are one. `round` is rounding to
nearest, ties to even, on the numbers with 53 bits and a last place of at least `2 ^ (-1074)`.

`fromChars` is `std::from_chars` for a `double` in its general format, without the pointer behind the
numeral: an optional minus sign, then `inf`, `nan` or the longest decimal numeral. It is `none` where
there is no numeral, or its value is out of range. It reads numeral characters only
(`fromChars_append`). -/

namespace OpenDisplay.Lib.Binary64

open OpenDisplay.Lib.Text

inductive Double
  | finite (q : ℚ)
  | infinite (negative : Bool)
  | nan
  deriving DecidableEq

/-! ### Rounding -/

/-- The nearest integer, the even one of two. -/
def roundHalfEven (q : ℚ) : ℤ :=
  let floor := q.floor
  if q - floor < 1 / 2 then floor
  else if 1 / 2 < q - floor then floor + 1
  else if floor % 2 = 0 then floor else floor + 1

/-- The exponent of the last place of the numbers around `q`. -/
def lastPlace (q : ℚ) : ℤ := max (Int.log 2 |q| - 52) (-1074)

/-- The nearest number; none behind the largest one, and none for a nonzero `q` that goes to 0. -/
def round (q : ℚ) : Option ℚ :=
  let ulp : ℚ := 2 ^ lastPlace q
  let r := roundHalfEven (q / ulp) * ulp
  if 2 ^ 1024 ≤ |r| ∨ (r = 0 ∧ q ≠ 0) then none else some r

example : round (1 / 10) = some (3602879701896397 / 36028797018963968) := by decide +kernel

/-! ### Numerals -/

/-- A run of digits at the front. -/
def digits (s : List UInt8) : List UInt8 := s.takeWhile fun b => decide (IsDigit b)

/-- What follows the digits at the front. -/
def afterDigits (s : List UInt8) : List UInt8 := s.dropWhile fun b => decide (IsDigit b)

/-- What follows the character `b`, if it is at the front. -/
def stepOver (b : UInt8) : List UInt8 → Option (List UInt8)
  | c :: s => if c = b then some s else none
  | [] => none

/-- The digits of an exponent with their sign; 0 if there are none. -/
def signedValue (s : List UInt8) : ℤ :=
  match stepOver 45 s with
  | some s => -(value (digits s) : ℤ)
  | none => value (digits ((stepOver 43 s).getD s))

/-- The exponent at the front; 0 if there is none. -/
def exponent (s : List UInt8) : ℤ :=
  match (stepOver 101 s).or (stepOver 69 s) with
  | some s => signedValue s
  | none => 0

/-- The decimal numeral at the front, as `m * 10 ^ e`. -/
def decimalNumeral (s : List UInt8) : Option (ℕ × ℤ) :=
  match stepOver 46 (afterDigits s) with
  | some rest =>
    if digits s = [] ∧ digits rest = [] then none
    else some (value (digits s ++ digits rest),
      exponent (afterDigits rest) - (digits rest).length)
  | none =>
    if digits s = [] then none else some (value (digits s), exponent (afterDigits s))

/-- An ASCII letter in lower case. -/
def lower (b : UInt8) : UInt8 := if 65 ≤ b.toNat ∧ b.toNat ≤ 90 then b + 32 else b

/-- The numeral behind the sign. -/
def fromCharsUnsigned (negative : Bool) (s : List UInt8) : Option Double :=
  if (s.take 3).map lower = ascii "inf" then some (.infinite negative)
  else if (s.take 3).map lower = ascii "nan" then some .nan
  else
    match decimalNumeral s with
    | none => none
    | some (m, e) => (round ((if negative then -1 else 1) * m * 10 ^ e)).map .finite

/-- `std::from_chars`. -/
def fromChars (s : List UInt8) : Option Double :=
  match stepOver 45 s with
  | some s => fromCharsUnsigned true s
  | none => fromCharsUnsigned false s

example : fromChars (ascii "-1.5e1,") = some (.finite (-15)) := by decide +kernel

/-! ### What is read of the text -/

/-- A letter, a digit, a sign or a point. -/
def IsNumeralChar (b : UInt8) : Prop :=
  IsDigit b ∨ 97 ≤ (lower b).toNat ∧ (lower b).toNat ≤ 122 ∨ b = 43 ∨ b = 45 ∨ b = 46

instance (b : UInt8) : Decidable (IsNumeralChar b) := by unfold IsNumeralChar; infer_instance

theorem IsNumeralChar.lt_toNat {b : UInt8} (h : IsNumeralChar b) : 42 < b.toNat := by
  rcases h with h | h | rfl | rfl | rfl
  · exact Nat.lt_of_lt_of_le (by decide) h.1
  · unfold lower at h
    split at h <;> omega
  · decide
  · decide
  · decide

theorem IsNumeralChar.toNat_lt {b : UInt8} (h : IsNumeralChar b) : b.toNat < 128 := by
  rcases h with h | h | rfl | rfl | rfl
  · exact Nat.lt_of_le_of_lt h.2 (by decide)
  · unfold lower at h
    split at h <;> omega
  · decide
  · decide
  · decide

/-- The text is at its end or at a character that no numeral has. -/
def Stops (s : List UInt8) : Prop := ∀ b ∈ s.head?, ¬IsNumeralChar b

variable {s x : List UInt8}

theorem isNumeralChar_of_isDigit {b : UInt8} (h : IsDigit b) : IsNumeralChar b := .inl h

theorem Stops.not_isDigit (h : Stops x) : ∀ b ∈ x.head?, decide (IsDigit b) = false :=
  fun b hb => decide_eq_false fun hd => h b hb (isNumeralChar_of_isDigit hd)

theorem digits_append (h : Stops x) : digits (s ++ x) = digits s :=
  takeWhile_append_of_head s h.not_isDigit

theorem afterDigits_append (h : Stops x) : afterDigits (s ++ x) = afterDigits s ++ x :=
  dropWhile_append_of_head s h.not_isDigit

theorem stepOver_append {b : UInt8} (hb : IsNumeralChar b) (h : Stops x) :
    stepOver b (s ++ x) = (stepOver b s).map (· ++ x) := by
  rcases s with - | ⟨c, s⟩
  · rcases x with - | ⟨c, x⟩
    · rfl
    · have hne : c ≠ b := by
        rintro rfl
        exact h c rfl hb
      simp [stepOver, hne]
  · simp only [List.cons_append, stepOver]
    split <;> rfl

theorem signedValue_append (h : Stops x) : signedValue (s ++ x) = signedValue s := by
  unfold signedValue
  rw [stepOver_append (by decide) h, stepOver_append (by decide) h]
  cases stepOver 45 s with
  | some s => simp [digits_append h]
  | none =>
    cases stepOver 43 s with
    | some s => simp [digits_append h]
    | none => simp [digits_append h]

theorem exponent_append (h : Stops x) : exponent (s ++ x) = exponent s := by
  unfold exponent
  rw [stepOver_append (by decide) h, stepOver_append (by decide) h, ← Option.map_or]
  cases (stepOver 101 s).or (stepOver 69 s) with
  | some s => exact signedValue_append h
  | none => rfl

theorem decimalNumeral_append (h : Stops x) : decimalNumeral (s ++ x) = decimalNumeral s := by
  unfold decimalNumeral
  rw [afterDigits_append h, stepOver_append (by decide) h, digits_append h]
  cases stepOver 46 (afterDigits s) with
  | some rest => simp [digits_append h, afterDigits_append h, exponent_append h]
  | none => simp [exponent_append h]

theorem take_append_eq_iff (h : Stops x) : ∀ (w s : List UInt8),
    (∀ b ∈ w, 97 ≤ b.toNat ∧ b.toNat ≤ 122) →
      (((s ++ x).take w.length).map lower = w ↔ (s.take w.length).map lower = w)
  | [], _, _ => by simp
  | b :: w, [], hw => by
    rcases x with - | ⟨c, x⟩
    · rfl
    · have hne : lower c ≠ b := by
        rintro rfl
        exact h c rfl (.inr (.inl (hw _ (by simp))))
      simp [hne]
  | b :: w, c :: s, hw => by
    have ih := take_append_eq_iff h w s fun b hb => hw b (List.mem_cons_of_mem _ hb)
    simp only [List.cons_append, List.length_cons, List.take_succ_cons, List.map_cons,
      List.cons.injEq, ih]

theorem fromCharsUnsigned_append (negative : Bool) (h : Stops x) :
    fromCharsUnsigned negative (s ++ x) = fromCharsUnsigned negative s := by
  have hinf := take_append_eq_iff h (ascii "inf") s (by decide)
  have hnan := take_append_eq_iff h (ascii "nan") s (by decide)
  unfold fromCharsUnsigned
  rw [decimalNumeral_append h]
  exact if_congr hinf rfl (if_congr hnan rfl rfl)

/-- **The numeral ends where the characters of numerals end.** -/
theorem fromChars_append (h : Stops x) : fromChars (s ++ x) = fromChars s := by
  unfold fromChars
  rw [stepOver_append (by decide) h]
  cases stepOver 45 s with
  | some s => exact fromCharsUnsigned_append true h
  | none => exact fromCharsUnsigned_append false h

end OpenDisplay.Lib.Binary64
