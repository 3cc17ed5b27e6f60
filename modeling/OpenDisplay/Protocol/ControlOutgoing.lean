import OpenDisplay.Lib.Numeral

/-! # Outgoing control messages

The builders put numbers and strings into a text as they are. `FormatNumber` writes an integral number
without a point and any other number with two decimals. -/

namespace OpenDisplay.Protocol.ControlOutgoing

open OpenDisplay.Lib.Binary64 OpenDisplay.Lib.FlatJson OpenDisplay.Lib.Numeral OpenDisplay.Lib.Rounding
open OpenDisplay.Lib.Text

/-! ## The numbers -/

/-- The number in hundredths, without its sign. -/
def hundredths (q : ℚ) : ℕ := (roundHalfEven (|q| * 100)).toNat

/-- `%.2f`. -/
def fixed2 (q : ℚ) : List UInt8 :=
  (if q < 0 then [45] else []) ++ decimal (hundredths q / 100) ++
    [46, digit (hundredths q / 10 % 10), digit (hundredths q % 10)]

/-- `FormatNumber`; `snprintf` writes at most 31 characters into `buf`. -/
def formatNumber : Double → List UInt8
  | .finite q =>
    if q = q.floor ∧ |q| < 1000000000000000 then decimalInt q.floor else (fixed2 q).take 31
  | .infinite false => ascii "inf"
  | .infinite true => ascii "-inf"
  | .nan => ascii "nan"

/-! ## The messages -/

/-- `HelloInfo`. -/
structure HelloInfo where
  pixelsWide : Int32
  pixelsHigh : Int32
  scale : Double
  device : List UInt8
  id : List UInt8
  pv : Int32
  maxEncodeWide : Option Int32
  maxEncodeHigh : Option Int32
  bitrateKbps : Option Int32

/-- A default-constructed `HelloInfo`. -/
def HelloInfo.empty : HelloInfo where
  pixelsWide := 0
  pixelsHigh := 0
  scale := .finite 1
  device := ascii "Windows"
  id := []
  pv := 3
  maxEncodeWide := none
  maxEncodeHigh := none
  bitrateKbps := none

/-- `std::to_string`. -/
def toText (v : Int32) : List UInt8 := decimalInt v.toInt

/-- The decode ceiling, where both sides of it are known. -/
def maxEncode (info : HelloInfo) : List UInt8 :=
  match info.maxEncodeWide, info.maxEncodeHigh with
  | some wide, some high =>
    ascii ",\"maxEncodeWide\":" ++ toText wide ++ ascii ",\"maxEncodeHigh\":" ++ toText high
  | _, _ => []

/-- `BuildHello`. -/
def buildHello (info : HelloInfo) : List UInt8 :=
  ascii "\x7b\"type\":\"hello\"" ++
  (ascii ",\"pixelsWide\":" ++ toText info.pixelsWide) ++
  (ascii ",\"pixelsHigh\":" ++ toText info.pixelsHigh) ++
  (ascii ",\"scale\":" ++ formatNumber info.scale) ++
  (ascii ",\"device\":\"" ++ info.device ++ ascii "\"") ++
  (if info.id = [] then [] else ascii ",\"id\":\"" ++ info.id ++ ascii "\"") ++
  (ascii ",\"pv\":" ++ toText info.pv) ++
  maxEncode info ++
  (match info.bitrateKbps with
    | some bitrate => ascii ",\"bitrateKbps\":" ++ toText bitrate
    | none => []) ++
  ascii "\x7d"

/-- `std::to_string` of the clock readings. -/
def msText (v : Int64) : List UInt8 := decimalInt v.toInt

/-- `BuildPing`. -/
def buildPing (tMs : Int64) : List UInt8 :=
  ascii "\x7b\"type\":\"ping\",\"t\":" ++ msText tMs ++ ascii "\x7d"

/-- `BuildPong`. -/
def buildPong (tMs mtMs : Int64) : List UInt8 :=
  ascii "\x7b\"type\":\"pong\",\"t\":" ++ msText tMs ++ ascii ",\"mt\":" ++ msText mtMs ++
    ascii "\x7d"

/-- `BuildTouch`. -/
def buildTouch (phase : List UInt8) (x y : Double) : List UInt8 :=
  ascii "\x7b\"type\":\"touch\",\"phase\":\"" ++ phase ++ ascii "\"," ++ ascii "\"x\":" ++
    formatNumber x ++ ascii ",\"y\":" ++ formatNumber y ++ ascii "\x7d"

/-- `BuildScroll`. -/
def buildScroll (dx dy : Double) : List UInt8 :=
  ascii "\x7b\"type\":\"scroll\",\"dx\":" ++ formatNumber dx ++ ascii ",\"dy\":" ++ formatNumber dy ++
    ascii "\x7d"

/-- `BuildKeyframeRequest`. -/
def buildKeyframeRequest : List UInt8 := ascii "\x7b\"type\":\"kf\"\x7d"

/-- `BuildClosing`. -/
def buildClosing : List UInt8 := ascii "\x7b\"type\":\"closing\"\x7d"

/-- `BuildStats`. -/
def buildStats (fps mbps rttMs e2eP50Ms e2eP95Ms : Int32) : List UInt8 :=
  ascii "\x7b\"type\":\"stats\",\"transport\":\"tcp\",\"fps\":" ++ toText fps ++
    ascii ",\"mbps\":" ++ toText mbps ++ ascii ",\"rtt\":" ++ toText rttMs ++
    ascii ",\"e2e50\":" ++ toText e2eP50Ms ++ ascii ",\"e2e95\":" ++ toText e2eP95Ms ++
    ascii ",\"offsetKnown\":true\x7d"

/-! ## What is written for a number -/

/-- An integer as a numeral of the grammar. -/
def intNumeral (x : ℤ) : Number := ⟨decide (x < 0), x.natAbs, none, none⟩

theorem decimalInt_eq (x : ℤ) : decimalInt x = (intNumeral x).text := by
  unfold decimalInt Number.text intNumeral
  by_cases hx : x < 0 <;> simp [hx, fracText, exponentText]

/-- Two decimals as a numeral of the grammar. -/
def fixedNumeral (q : ℚ) : Number :=
  ⟨decide (q < 0), hundredths q / 100,
    some ⟨⟨hundredths q / 10 % 10, Nat.mod_lt _ (by decide)⟩, [⟨hundredths q % 10, Nat.mod_lt _ (by decide)⟩]⟩,
    none⟩

theorem fixed2_eq (q : ℚ) : fixed2 q = (fixedNumeral q).text := by
  unfold fixed2 Number.text fixedNumeral
  by_cases hq : q < 0 <;> simp [hq, fracText, exponentText, Digits.text]

theorem numberValue_intNumeral (x : ℤ) : numberValue (intNumeral x) = x := by
  unfold numberValue intNumeral fraction power
  by_cases hx : x < 0
  · have habs : ((x.natAbs : ℤ) : ℚ) = -x := by
      rw [Int.ofNat_natAbs_of_nonpos hx.le]
      exact Int.cast_neg x
    simp only [hx, decide_true, if_true, add_zero, zpow_zero, mul_one]
    rw [← Int.cast_natCast, habs]
    ring
  · have habs : ((x.natAbs : ℤ) : ℚ) = x := by rw [Int.natAbs_of_nonneg (not_lt.1 hx)]
    simp only [hx, decide_false, Bool.false_eq_true, if_false, add_zero, zpow_zero, mul_one, one_mul]
    rw [← Int.cast_natCast, habs]

theorem numberValue_fixedNumeral {q : ℚ} (hq : 0 ≤ q) : numberValue (fixedNumeral q) = hundredths q / 100 := by
  have hsplit : (hundredths q : ℚ) =
      (hundredths q / 100 : ℕ) * 100 + (hundredths q / 10 % 10 : ℕ) * 10 + (hundredths q % 10 : ℕ) := by
    norm_cast
    omega
  unfold numberValue fixedNumeral fraction power Digits.text value
  rw [hsplit]
  simp only [not_lt.2 hq, decide_false, Bool.false_eq_true, if_false, List.map_cons, List.map_nil,
    List.foldl_cons, List.foldl_nil, toNat_digit (Nat.mod_lt _ (by decide)), Nat.add_sub_cancel_left,
    List.length_cons, List.length_nil]
  push_cast
  ring

theorem hundredths_lt {q : ℚ} (hq : |q| < 1000000000000000) : hundredths q < 10 ^ (17 + 1) := by
  have herror := abs_le.1 (roundHalfEven_error (|q| * 100))
  have hlt : (roundHalfEven (|q| * 100) : ℚ) < ((10 ^ 18 : ℤ) : ℚ) := by
    push_cast
    linarith
  have hint := Int.cast_lt.1 hlt
  unfold hundredths
  omega

theorem length_decimalInt_lt {x : ℤ} (hx : x.natAbs < 10 ^ (14 + 1)) : (decimalInt x).length ≤ 31 := by
  have hlen := length_decimal_le hx
  unfold decimalInt
  split
  · rw [List.length_cons]
    omega
  · omega

theorem length_fixed2 {q : ℚ} (hq : |q| < 1000000000000000) : (fixed2 q).length ≤ 31 := by
  have hlt := hundredths_lt hq
  have hlen : (decimal (hundredths q / 100)).length ≤ 17 + 1 := length_decimal_le (by omega)
  unfold fixed2
  rw [List.length_append, List.length_append]
  have hsign : (if q < 0 then [45] else [] : List UInt8).length ≤ 1 := by split <;> decide
  simp only [List.length_cons, List.length_nil]
  omega

/-- **What `FormatNumber` writes for a number below `1e15` is a legal numeral.** -/
theorem formatNumber_numeral {q : ℚ} (hq : |q| < 1000000000000000) :
    ∃ n : Number, formatNumber (.finite q) = n.text ∧ (formatNumber (.finite q)).length ≤ 31 := by
  rw [formatNumber]
  by_cases hint : q = q.floor ∧ |q| < 1000000000000000
  · have hfloor : (|q.floor| : ℤ) < 1000000000000000 := by
      have hcast : |(q.floor : ℚ)| < 1000000000000000 := by
        rw [← hint.1]
        exact hq
      exact_mod_cast hcast
    rw [if_pos hint]
    refine ⟨_, decimalInt_eq _, length_decimalInt_lt ?_⟩
    rw [Int.abs_eq_natAbs] at hfloor
    omega
  · rw [if_neg hint, List.take_of_length_le (length_fixed2 hq)]
    exact ⟨_, fixed2_eq q, length_fixed2 hq⟩

/-! ## The numeral of a double -/

/-- The numeral that is written. -/
def numeralOf (q : ℚ) : Number := if q = q.floor then intNumeral q.floor else fixedNumeral q

end OpenDisplay.Protocol.ControlOutgoing
