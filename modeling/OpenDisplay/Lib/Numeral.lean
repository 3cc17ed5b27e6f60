import Mathlib.Data.List.TakeWhile
import OpenDisplay.Lib.FlatJson
import OpenDisplay.Lib.Rounding

/-! # The numbers of a flat object read back

`Number.value` is what a numeral of the grammar stands for, as a rational. `fromChars` reads the whole
numeral and rounds that value (`fromChars_number`); an integer of at most `2 ^ 53` is a double, so that
a numeral of it is read exactly (`fromChars_integer`). -/

namespace OpenDisplay.Lib.Numeral

open OpenDisplay.Lib.Binary64 OpenDisplay.Lib.FlatJson OpenDisplay.Lib.Text

/-! ### What a numeral stands for -/

def fraction : Option Digits → ℚ
  | none => 0
  | some ds => value ds.text / 10 ^ ds.text.length

def power : Option Exponent → ℤ
  | none => 0
  | some e => if e.sign = some true then -value e.digits.text else value e.digits.text

/-- **The value of a numeral.** -/
def numberValue (n : Number) : ℚ :=
  (if n.negative then -1 else 1) * (n.int + fraction n.frac) * 10 ^ power n.exponent

/-! ### Runs of digits -/

variable {s : List UInt8}

theorem digits_run {ds : List UInt8} (hds : ∀ b ∈ ds, IsDigit b) (hs : ∀ b ∈ s.head?, ¬IsDigit b) :
    digits (ds ++ s) = ds ∧ afterDigits (ds ++ s) = s := by
  have hall : ∀ b ∈ ds, decide (IsDigit b) = true := fun b hb => decide_eq_true (hds b hb)
  have hstop : ∀ b ∈ s.head?, decide (IsDigit b) = false := fun b hb => decide_eq_false (hs b hb)
  unfold digits afterDigits
  rw [takeWhile_append_of_head _ hstop, dropWhile_append_of_head _ hstop,
    List.takeWhile_eq_self_iff.2 hall, List.dropWhile_eq_nil_iff.2 hall]
  exact ⟨rfl, rfl⟩

theorem isDigit_of_mem_text (ds : Digits) : ∀ b ∈ ds.text, IsDigit b := by
  intro b hb
  obtain ⟨d, -, rfl⟩ := List.mem_map.1 hb
  exact isDigit_digit d.isLt

theorem text_ne_nil (ds : Digits) : ds.text ≠ [] := by simp [Digits.text]

theorem foldl_value (b : List UInt8) : ∀ acc : ℕ,
    b.foldl (fun acc b => acc * 10 + (b.toNat - 48)) acc = acc * 10 ^ b.length + value b := by
  unfold value
  induction b with
  | nil => simp
  | cons d b ih =>
    intro acc
    rw [List.foldl_cons, List.foldl_cons, ih, ih (0 * 10 + (d.toNat - 48)), List.length_cons, pow_succ]
    ring

theorem value_append (a b : List UInt8) : value (a ++ b) = value a * 10 ^ b.length + value b := by
  unfold value
  rw [List.foldl_append, foldl_value]
  rfl

theorem stepOver_run {c : UInt8} (hc : ¬IsDigit c) {ds : List UInt8} (hne : ds ≠ [])
    (hds : ∀ b ∈ ds, IsDigit b) (s : List UInt8) : stepOver c (ds ++ s) = none := by
  obtain ⟨b, l, rfl⟩ := List.exists_cons_of_ne_nil hne
  have hb := hds b (by simp)
  refine if_neg ?_
  rintro rfl
  exact hc hb

/-! ### The parts of a numeral -/

theorem signedValue_text (sign : Option Bool) (ds : Digits) :
    signedValue (signText sign ++ ds.text) =
      if sign = some true then -(value ds.text : ℤ) else value ds.text := by
  have hrun := (digits_run (s := []) (isDigit_of_mem_text ds) (by simp)).1
  have hstep : ∀ c, ¬IsDigit c → stepOver c ds.text = none := by
    intro c hc
    have := stepOver_run hc (text_ne_nil ds) (isDigit_of_mem_text ds) []
    rwa [List.append_nil] at this
  rw [List.append_nil] at hrun
  unfold signedValue
  cases sign with
  | none => simp [signText, hstep 45 (by decide), hstep 43 (by decide), hrun]
  | some minus => cases minus <;> simp [signText, stepOver, hrun]

theorem exponent_text (e : Option Exponent) : exponent (exponentText e) = power e := by
  cases e with
  | none => rfl
  | some e =>
    obtain ⟨capital, sign, ds⟩ := e
    have hsigned := signedValue_text sign ds
    unfold exponent exponentText Exponent.text power
    cases capital <;> simp [stepOver, hsigned]

theorem head_exponentText (e : Option Exponent) :
    ∀ b ∈ (exponentText e).head?, ¬IsDigit b ∧ b ≠ 46 := by
  cases e with
  | none => simp [exponentText]
  | some e =>
    rintro b ⟨⟩
    cases e.capital <;> decide

theorem head_fracText (frac : Option Digits) (e : Option Exponent) :
    ∀ b ∈ (fracText frac ++ exponentText e).head?, ¬IsDigit b := by
  cases frac with
  | none => exact fun b hb => (head_exponentText e b hb).1
  | some ds =>
    rintro b ⟨⟩
    decide

theorem decimalNumeral_text (n : Number) : ∃ m : ℕ, ∃ e : ℤ,
    decimalNumeral (decimal n.int ++ (fracText n.frac ++ exponentText n.exponent)) = some (m, e) ∧
      (m : ℚ) * 10 ^ e = (n.int + fraction n.frac) * 10 ^ power n.exponent := by
  obtain ⟨hdigits, hafter⟩ := digits_run (isDigit_of_mem_decimal n.int) (head_fracText n.frac n.exponent)
  have hint := decimal_ne_nil n.int
  unfold decimalNumeral
  rw [hdigits, hafter]
  cases n.frac with
  | none =>
    have hpoint : stepOver 46 (fracText none ++ exponentText n.exponent) = none := by
      cases hexp : exponentText n.exponent with
      | nil => rfl
      | cons b l => exact if_neg (head_exponentText n.exponent b (by simp [hexp])).2
    rw [hpoint]
    refine ⟨n.int, power n.exponent, ?_, by simp [fraction]⟩
    simp [hint, fracText, value_decimal, exponent_text]
  | some ds =>
    have hpoint : stepOver 46 (fracText (some ds) ++ exponentText n.exponent) =
        some (ds.text ++ exponentText n.exponent) := rfl
    obtain ⟨hrun, hrest⟩ := digits_run (isDigit_of_mem_text ds)
      fun b hb => (head_exponentText n.exponent b hb).1
    rw [hpoint]
    dsimp only
    rw [hrun, hrest, if_neg (by simp [hint])]
    refine ⟨_, _, rfl, ?_⟩
    rw [value_append, value_decimal, exponent_text, zpow_sub₀ (by norm_num), zpow_natCast]
    unfold fraction
    push_cast
    field_simp

theorem lower_digit {b : UInt8} (h : IsDigit b) : lower b = b := by
  unfold lower
  rw [if_neg]
  have := h.2
  omega

theorem not_word {w : List UInt8} {c : UInt8} (hc : ¬IsDigit c) {ds : List UInt8} (hne : ds ≠ [])
    (hds : ∀ b ∈ ds, IsDigit b) (s : List UInt8) (k : ℕ) :
    ((ds ++ s).take (k + 1)).map lower ≠ c :: w := by
  obtain ⟨b, l, rfl⟩ := List.exists_cons_of_ne_nil hne
  have hb := hds b (by simp)
  simp only [List.cons_append, List.take_succ_cons, List.map_cons, ne_eq, List.cons.injEq, not_and]
  intro h
  rw [lower_digit hb] at h
  exact absurd (h ▸ hb) hc

theorem fromCharsUnsigned_text (negative : Bool) (n : Number) :
    fromCharsUnsigned negative (decimal n.int ++ (fracText n.frac ++ exponentText n.exponent)) =
      (Binary64.round ((if negative then -1 else 1) * ((n.int + fraction n.frac) * 10 ^ power n.exponent))).map
        .finite := by
  obtain ⟨m, e, hnumeral, hvalue⟩ := decimalNumeral_text n
  have hinf : ascii "inf" = 105 :: [110, 102] := by decide
  have hnan : ascii "nan" = 110 :: [97, 110] := by decide
  unfold fromCharsUnsigned
  rw [hinf, hnan, if_neg (not_word (by decide) (decimal_ne_nil _) (isDigit_of_mem_decimal _) _ 2),
    if_neg (not_word (by decide) (decimal_ne_nil _) (isDigit_of_mem_decimal _) _ 2), hnumeral]
  dsimp only
  rw [mul_assoc, hvalue]

/-- **A numeral is read as its value, rounded.** -/
theorem fromChars_number (n : Number) :
    fromChars n.text = (Binary64.round (numberValue n)).map .finite := by
  have htext : n.text = (if n.negative then [45] else []) ++
      (decimal n.int ++ (fracText n.frac ++ exponentText n.exponent)) := by
    simp [Number.text]
  unfold fromChars numberValue
  rw [htext, mul_assoc]
  cases n.negative with
  | true =>
    have hminus : ∀ t : List UInt8, stepOver 45 (45 :: t) = some t := fun t => rfl
    simp only [if_true, List.singleton_append, hminus]
    exact fromCharsUnsigned_text true n
  | false =>
    simp only [Bool.false_eq_true, if_false, List.nil_append]
    rw [stepOver_run (by decide) (decimal_ne_nil _) (isDigit_of_mem_decimal _)]
    exact fromCharsUnsigned_text false n

/-- **A numeral of an integer is read exactly**, up to `2 ^ 53`. -/
theorem fromChars_integer {n : Number} {z : ℤ} (hn : numberValue n = z) (hz : |z| ≤ 2 ^ 53) :
    fromChars n.text = some (.finite z) := by
  rw [fromChars_number, hn, Rounding.round_int hz]
  rfl

end OpenDisplay.Lib.Numeral
