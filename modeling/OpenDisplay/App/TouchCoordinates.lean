import OpenDisplay.App.Gestures
import OpenDisplay.Lib.JsonObject
import OpenDisplay.Protocol.ControlOutgoing

/-! # The coordinates of a touch

`WindowToVideo` divides the distance of a pixel from the edge of the video rectangle by the size of the
rectangle, and `BuildTouch` writes the quotient in hundredths. A hundredth of the rectangle is less than
two pixels wide only below a size of 200 (`precise_iff`). -/

namespace OpenDisplay.App.TouchCoordinates

open OpenDisplay.App.Gestures (Phase)
open OpenDisplay.Lib OpenDisplay.Lib.Binary64
open OpenDisplay.Lib.FlatJson (Number Digits fracText exponentText isNumeralChar_of_mem_number)
open OpenDisplay.Lib.JsonObject OpenDisplay.Lib.JsonString OpenDisplay.Lib.Rounding OpenDisplay.Lib.Text
open OpenDisplay.Protocol.ControlOutgoing

/-! ## The code -/

/-- What `VideoRect` returns. -/
structure Rect where
  rx : ℤ
  ry : ℤ
  rw : ℤ
  rh : ℤ
  deriving DecidableEq

/-- `std::clamp` to 0 and 1. -/
def clamp : Double → Double
  | .finite q => if q < 0 then .finite 0 else if 1 < q then .finite 1 else .finite q
  | .infinite true => .finite 0
  | .infinite false => .finite 1
  | .nan => .nan

/-- `WindowToVideo`; `rect` is none if `VideoRect` fails. -/
def windowToVideo (rect : Option Rect) (px py : ℤ) : Option (Double × Double) :=
  rect.bind fun r =>
    if r.rw ≤ 0 ∨ r.rh ≤ 0 then none
    else some (clamp (nearest (((px - r.rx : ℤ) : ℚ) / r.rw)), clamp (nearest (((py - r.ry : ℤ) : ℚ) / r.rh)))

/-- The word that `SendTouch` is called with. -/
def phaseText : Phase → List UInt8
  | .began => ascii "began"
  | .moved => ascii "moved"
  | .ended => ascii "ended"
  | .cancelled => ascii "cancelled"

/-- The message that `SendTouch` sends for a pixel. -/
def touchMessage (rect : Option Rect) (phase : Phase) (px py : ℤ) : Option (List UInt8) :=
  (windowToVideo rect px py).map fun p => buildTouch (phaseText phase) p.1 p.2

/-! ## What is written -/

/-- The exact value of a decimal numeral. -/
def numeralValue (s : List UInt8) : Option ℚ :=
  match stepOver 45 s with
  | some s => (decimalNumeral s).map fun p => -(p.1 * 10 ^ p.2)
  | none => (decimalNumeral s).map fun p => p.1 * 10 ^ p.2

def numberValue : Value → Option ℚ
  | .number numeral => numeralValue (numeral.map byte)
  | .string _ => none
  | .literal _ => none

/-- The number that a parser finds in the message under a name. -/
def coordinate (name : List Char) (message : List UInt8) : Option ℚ := do
  let s ← decodeUtf8 message
  let members ← readObject s
  let member ← members.find? fun m => m.1 = name
  numberValue member.2

/-- A rectangle of 1 to 8192 pixels on each side. -/
structure VideoRect extends Rect where
  wide : 1 ≤ rw ∧ rw ≤ 8192
  high : 1 ≤ rh ∧ rh ≤ 8192

/-- A client pixel inside it. -/
structure Pixel (v : VideoRect) where
  px : ℤ
  py : ℤ
  inside : (v.rx ≤ px ∧ px < v.rx + v.rw) ∧ v.ry ≤ py ∧ py < v.ry + v.rh

/-- The coordinates that are written for a pixel. -/
def coordinates (v : VideoRect) (phase : Phase) (p : Pixel v) : Option (ℚ × ℚ) := do
  let message ← touchMessage (some v.toRect) phase p.px p.py
  let x ← coordinate ['x'] message
  let y ← coordinate ['y'] message
  return (x, y)

/-- They are less than a pixel off. -/
def Precise (v : VideoRect) (phase : Phase) (p : Pixel v) : Prop :=
  ∃ c ∈ coordinates v phase p,
    |c.1 * v.rw - (p.px - v.rx)| < 1 ∧ |c.2 * v.rh - (p.py - v.ry)| < 1

/-- Pixels at a distance of two or more have different coordinates. -/
def Separated (v : VideoRect) (phase : Phase) : Prop :=
  ∀ p p' : Pixel v, 2 ≤ |p.px - p'.px| ∨ 2 ≤ |p.py - p'.py| →
    coordinates v phase p ≠ coordinates v phase p'

/-- Some hundredth of a side of `size` pixels is less than a pixel away from the pixel `k`. -/
def Near (size k : ℤ) : Prop := ∃ z : ℤ, |z * size - 100 * k| < 100

/-! ## The value of a numeral -/

theorem numeralValue_text (n : Number) : numeralValue n.text = some (Numeral.numberValue n) := by
  obtain ⟨m, e, hnumeral, hvalue⟩ := Numeral.decimalNumeral_text n
  have htext : n.text = (if n.negative then [45] else []) ++
      (decimal n.int ++ (fracText n.frac ++ exponentText n.exponent)) := by
    simp [Number.text]
  unfold numeralValue Numeral.numberValue
  rw [htext, mul_assoc, ← hvalue]
  cases n.negative with
  | true =>
    have hminus : ∀ t : List UInt8, stepOver 45 (45 :: t) = some t := fun t => rfl
    simp [hminus, hnumeral]
  | false =>
    have hminus := Numeral.stepOver_run (c := 45) (by decide) (decimal_ne_nil n.int)
      (isDigit_of_mem_decimal n.int) (fracText n.frac ++ exponentText n.exponent)
    simp [hminus, hnumeral]

/-! ## The rounding -/

theorem numeralValue_formatNumber {r : ℚ} (hlo : 0 ≤ r) (hhi : r < 1) : ∃ c : ℤ,
    numeralValue (formatNumber (.finite r)) = some ((c : ℚ) / 100) ∧ |(c : ℚ) - 100 * r| ≤ 1 / 2 := by
  have habs : |r| = r := abs_of_nonneg hlo
  have hsize : |r| < 1000000000000000 := by
    rw [habs]
    linarith
  rw [formatNumber]
  by_cases hint : r = r.floor ∧ |r| < 1000000000000000
  · have hzero : r.floor = 0 := by
      have hfloor : (r.floor : ℚ) < 1 ∧ (-1 : ℚ) < r.floor := by
        rw [← hint.1]
        exact ⟨hhi, by linarith⟩
      have h1 : r.floor < 1 := by exact_mod_cast hfloor.1
      have h2 : -1 < r.floor := by exact_mod_cast hfloor.2
      omega
    have hr : r = 0 := by
      rw [hint.1, hzero]
      rfl
    rw [if_pos hint, hzero]
    refine ⟨0, ?_, ?_⟩
    · rw [decimalInt_eq, numeralValue_text, numberValue_intNumeral]
      norm_num
    · rw [hr]
      norm_num
  · have herror := roundHalfEven_error (r * 100)
    have hbounds := abs_le.1 herror
    have hnonneg : 0 ≤ roundHalfEven (r * 100) := by
      have hgt : (-1 : ℚ) < roundHalfEven (r * 100) := by linarith
      have : (-1 : ℤ) < roundHalfEven (r * 100) := by exact_mod_cast hgt
      omega
    have hhundredths : (hundredths r : ℤ) = roundHalfEven (r * 100) := by
      unfold hundredths
      rw [habs]
      exact Int.toNat_of_nonneg hnonneg
    rw [if_neg hint, List.take_of_length_le (length_fixed2 hsize)]
    refine ⟨hundredths r, ?_, ?_⟩
    · rw [fixed2_eq, numeralValue_text, numberValue_fixedNumeral hlo]
      rfl
    · rw [hhundredths, mul_comm 100 r]
      exact herror

/-- The quotient for a pixel at the distance `k`. -/
theorem clamp_nearest {k n : ℤ} (hk : 0 ≤ k) (hlt : k < n) (hn : n ≤ 8192) :
    ∃ r, clamp (nearest ((k : ℚ) / n)) = .finite r ∧ 0 ≤ r ∧ r < 1 ∧ |r - k / n| ≤ 1 / 2 ^ 53 := by
  have hnpos : (0 : ℚ) < n := by exact_mod_cast hk.trans_lt hlt
  rcases hk.eq_or_lt with rfl | hpos
  · have hnearest : nearest (((0 : ℤ) : ℚ) / n) = .finite 0 := by
      rw [Int.cast_zero, zero_div]
      decide +kernel
    refine ⟨0, ?_, le_rfl, by norm_num, by norm_num⟩
    rw [hnearest]
    decide
  · have hkpos : (1 : ℚ) ≤ k := by exact_mod_cast hpos
    have hkn : (k : ℚ) ≤ n - 1 := by
      have : k ≤ n - 1 := by omega
      exact_mod_cast this
    have hn' : (n : ℚ) ≤ 8192 := by exact_mod_cast hn
    have hlow : (1 : ℚ) / 8192 ≤ k / n := by
      rw [div_le_div_iff₀ (by norm_num) hnpos]
      linarith
    have hhigh : (k : ℚ) / n ≤ 1 - 1 / 8192 := by
      rw [div_le_iff₀ hnpos]
      linarith
    obtain ⟨r, hr, herror⟩ := nearest_moderate hlow (hhigh.trans (by norm_num))
    have hbound : (k : ℚ) / n / 2 ^ 53 ≤ 1 / 2 ^ 53 := by
      gcongr
      linarith
    have hcases := abs_le.1 herror
    have hr0 : 0 ≤ r := by
      have : (k : ℚ) / n / 2 ^ 53 ≤ k / n := div_le_self (by linarith) (by norm_num)
      linarith
    have hr1 : r < 1 := by
      have : (1 : ℚ) / 2 ^ 53 < 1 / 8192 := by norm_num
      linarith
    refine ⟨r, ?_, hr0, hr1, herror.trans hbound⟩
    rw [hr, clamp, if_neg (not_lt.2 hr0), if_neg (not_lt.2 hr1.le)]

/-- **A coordinate is the nearest hundredth** of its side. -/
theorem written_nearest {k n : ℤ} (hk : 0 ≤ k) (hlt : k < n) (hn : n ≤ 8192) :
    ∃ c : ℤ, numeralValue (formatNumber (clamp (nearest ((k : ℚ) / n)))) = some ((c : ℚ) / 100) ∧
      2 * |c * n - 100 * k| ≤ n := by
  obtain ⟨r, hr, hr0, hr1, herror⟩ := clamp_nearest hk hlt hn
  obtain ⟨c, hc, hhalf⟩ := numeralValue_formatNumber hr0 hr1
  refine ⟨c, by rw [hr]; exact hc, ?_⟩
  have hnpos : (0 : ℚ) < n := by exact_mod_cast hk.trans_lt hlt
  have hn' : (n : ℚ) ≤ 8192 := by exact_mod_cast hn
  have htotal : |(c : ℚ) - 100 * (k / n)| ≤ 1 / 2 + 100 / 2 ^ 53 := by
    have htriangle := abs_sub_le (c : ℚ) (100 * r) (100 * (k / n))
    rw [← mul_sub, abs_mul, abs_of_pos (by norm_num : (0 : ℚ) < 100)] at htriangle
    linarith
  have hscale : |(c : ℚ) * n - 100 * k| = |(c : ℚ) - 100 * (k / n)| * n := by
    rw [← abs_of_pos hnpos, ← abs_mul, abs_of_pos hnpos]
    congr 1
    field_simp
  have hlt : 2 * |(c : ℚ) * n - 100 * k| < n + 1 := by
    have hmul := mul_le_mul_of_nonneg_right htotal hnpos.le
    rw [← hscale] at hmul
    have hsmall : (1 / 2 + 100 / 2 ^ 53 : ℚ) * n < n / 2 + 1 / 2 := by
      have : (100 / 2 ^ 53 : ℚ) * 8192 < 1 / 2 := by norm_num
      nlinarith
    linarith
  have hint : 2 * |c * n - 100 * k| < n + 1 := by exact_mod_cast hlt
  omega

/-! ## The message -/

/-- The fields in front of the last one. -/
def touchFields (phase : List Char) (x : Number) : List Field :=
  [⟨bare "type".toList, .string (bare "touch".toList)⟩, ⟨bare "phase".toList, .string (bare phase)⟩,
    ⟨bare ['x'], .number x⟩]

/-- The characters of the phase. -/
def phaseChars (phase : Phase) : List Char := chars (phaseText phase)

theorem objectSource_touch (phase : Phase) (nx ny : Number) :
    objectSource (touchFields (phaseChars phase) nx) ⟨bare ['y'], .number ny⟩ =
      "\x7b\"type\":\"touch\",\"phase\":\"".toList ++ (phaseChars phase ++ ("\",\"x\":".toList ++
        (chars nx.text ++ (",\"y\":".toList ++ (chars ny.text ++ "\x7d".toList))))) := by
  have htype : nameSource (bare "type".toList) = "\"type\":".toList := rfl
  have hname : nameSource (bare "phase".toList) = "\"phase\":".toList := rfl
  have hphase : source (bare (phaseChars phase)) = phaseChars phase := by cases phase <;> rfl
  unfold objectSource before touchFields
  simp only [List.foldr_cons, List.foldr_nil, htype, hname, hphase, Written.source, List.append_assoc,
    List.cons_append, List.nil_append]
  rfl

theorem buildTouch_eq (phase : Phase) {x y : Double} {nx ny : Number} (hx : formatNumber x = nx.text)
    (hy : formatNumber y = ny.text) : buildTouch (phaseText phase) x y =
      utf8 (objectSource (touchFields (phaseChars phase) nx) ⟨bare ['y'], .number ny⟩) := by
  have hphase : utf8 (phaseChars phase) = phaseText phase := by cases phase <;> decide
  have htype : utf8 "\x7b\"type\":\"touch\",\"phase\":\"".toList =
      ascii "\x7b\"type\":\"touch\",\"phase\":\"" := by decide
  have hxName : utf8 "\",\"x\":".toList = ascii "\"," ++ ascii "\"x\":" := by decide
  have hyName : utf8 ",\"y\":".toList = ascii ",\"y\":" := utf8_ascii _ rfl
  have hbrace : utf8 "\x7d".toList = ascii "\x7d" := utf8_ascii _ rfl
  rw [objectSource_touch]
  simp only [utf8_append, utf8_numeral, htype, hphase, hxName, hyName, hbrace]
  unfold buildTouch
  rw [hx, hy]
  simp only [List.append_assoc]

/-- The members that a parser finds in the message. -/
def touchMembers (phase : Phase) (nx ny : Number) : List (List Char × Value) :=
  [("type".toList, .string "touch".toList),
    ("phase".toList, .string (text (bare (phaseChars phase)))), (['x'], .number (chars nx.text)),
    (['y'], .number (chars ny.text))]

theorem coordinate_buildTouch (phase : Phase) {x y : Double} {nx ny : Number}
    (hx : formatNumber x = nx.text) (hy : formatNumber y = ny.text) :
    coordinate ['x'] (buildTouch (phaseText phase) x y) = numeralValue (formatNumber x) ∧
      coordinate ['y'] (buildTouch (phaseText phase) x y) = numeralValue (formatNumber y) := by
  have hne : touchFields (phaseChars phase) nx ≠ [] := List.cons_ne_nil _ _
  have hread : readObject (objectSource (touchFields (phaseChars phase) nx) ⟨bare ['y'], .number ny⟩) =
      some (touchMembers phase nx ny) := readObject_objectSource hne _
  have hfindX : (touchMembers phase nx ny).find? (fun m => m.1 = ['x']) =
      some (['x'], .number (chars nx.text)) := rfl
  have hfindY : (touchMembers phase nx ny).find? (fun m => m.1 = ['y']) =
      some (['y'], .number (chars ny.text)) := rfl
  unfold coordinate
  rw [buildTouch_eq phase hx hy, decodeUtf8_utf8]
  simp only [Option.bind_eq_bind, Option.bind_some]
  rw [hread]
  simp only [Option.bind_some, hfindX, hfindY, numberValue, map_byte_chars, hx, hy, and_self]

/-! ## The law -/

/-- The hundredth that is nearest is near enough if one is. -/
theorem near_iff {c n k : ℤ} (hc : 2 * |c * n - 100 * k| ≤ n) : |c * n - 100 * k| < 100 ↔ Near n k := by
  refine ⟨fun h => ⟨c, h⟩, fun ⟨z, hz⟩ => ?_⟩
  rcases eq_or_ne z c with rfl | hne
  · exact hz
  · -- another hundredth is as far away
    have hone : 1 ≤ |z - c| := Int.one_le_abs (sub_ne_zero.2 hne)
    have hn : 0 ≤ n := by
      have := abs_nonneg (c * n - 100 * k)
      omega
    have hstep : n ≤ |z * n - c * n| := by
      rw [← sub_mul, abs_mul, abs_of_nonneg hn]
      nlinarith
    have htriangle := abs_sub_le (z * n) (100 * k) (c * n)
    rw [abs_sub_comm (100 * k)] at htriangle
    omega

theorem not_near_one {n : ℤ} (hn : 200 ≤ n) : ¬Near n 1 := by
  rintro ⟨z, hz⟩
  have hbounds := abs_lt.1 hz
  rcases lt_or_ge 0 z with hpos | hneg
  · have : n ≤ z * n := by nlinarith
    omega
  · have : z * n ≤ 0 := by nlinarith
    omega

theorem written_numeral {k n : ℤ} (hk : 0 ≤ k) (hlt : k < n) (hn : n ≤ 8192) :
    ∃ m : Number, formatNumber (clamp (nearest ((k : ℚ) / n))) = m.text := by
  obtain ⟨r, hr, hr0, hr1, -⟩ := clamp_nearest hk hlt hn
  have hsize : |r| < 1000000000000000 := by
    rw [abs_of_nonneg hr0]
    linarith
  obtain ⟨m, hm, -⟩ := formatNumber_numeral hsize
  exact ⟨m, by rw [hr, hm]⟩

theorem coordinates_eq (v : VideoRect) (phase : Phase) (p : Pixel v) : ∃ c d : ℤ,
    coordinates v phase p = some ((c : ℚ) / 100, (d : ℚ) / 100) ∧
      2 * |c * v.rw - 100 * (p.px - v.rx)| ≤ v.rw ∧ 2 * |d * v.rh - 100 * (p.py - v.ry)| ≤ v.rh := by
  obtain ⟨⟨hx0, hx1⟩, hy0, hy1⟩ := p.inside
  obtain ⟨hw1, hw2⟩ := v.wide
  obtain ⟨hh1, hh2⟩ := v.high
  have hxlo : 0 ≤ p.px - v.rx := by omega
  have hxhi : p.px - v.rx < v.rw := by omega
  have hylo : 0 ≤ p.py - v.ry := by omega
  have hyhi : p.py - v.ry < v.rh := by omega
  obtain ⟨nx, hnx⟩ := written_numeral hxlo hxhi hw2
  obtain ⟨ny, hny⟩ := written_numeral hylo hyhi hh2
  obtain ⟨c, hc, hcnear⟩ := written_nearest hxlo hxhi hw2
  obtain ⟨d, hd, hdnear⟩ := written_nearest hylo hyhi hh2
  obtain ⟨hcoordX, hcoordY⟩ := coordinate_buildTouch phase hnx hny
  refine ⟨c, d, ?_, hcnear, hdnear⟩
  unfold coordinates touchMessage windowToVideo
  rw [Option.bind_some, if_neg (by omega)]
  simp only [Option.map_some, Option.bind_eq_bind, Option.bind_some]
  rw [hcoordX, hcoordY, hc, hd]
  rfl

theorem abs_lt_one_iff (c n k : ℤ) : |(c : ℚ) / 100 * n - k| < 1 ↔ |c * n - 100 * k| < 100 := by
  have hscale : (c : ℚ) / 100 * n - k = ((c * n - 100 * k : ℤ) : ℚ) / 100 := by
    push_cast
    ring
  rw [hscale, abs_div, abs_of_pos (by norm_num : (0 : ℚ) < 100), div_lt_one (by norm_num)]
  exact_mod_cast Iff.rfl

theorem precise_iff_near (v : VideoRect) (phase : Phase) (p : Pixel v) :
    Precise v phase p ↔ Near v.rw (p.px - v.rx) ∧ Near v.rh (p.py - v.ry) := by
  obtain ⟨c, d, heq, hc, hd⟩ := coordinates_eq v phase p
  have hx := abs_lt_one_iff c v.rw (p.px - v.rx)
  have hy := abs_lt_one_iff d v.rh (p.py - v.ry)
  push_cast at hx hy
  unfold Precise
  rw [heq, ← near_iff hc, ← near_iff hd, ← hx, ← hy]
  simp

theorem near_of_lt {v : VideoRect} (phase : Phase) (p : Pixel v) (hw : v.rw < 200) (hh : v.rh < 200) :
    Precise v phase p := by
  obtain ⟨c, d, -, hc, hd⟩ := coordinates_eq v phase p
  rw [precise_iff_near, ← near_iff hc, ← near_iff hd]
  omega

/-- Precise coordinates tell pixels at a distance of two apart. -/
theorem separated_of_precise {v : VideoRect} {phase : Phase} (h : ∀ p, Precise v phase p) :
    Separated v phase := by
  intro p p' hdist heq
  obtain ⟨c, d, hp, hc, hd⟩ := coordinates_eq v phase p
  obtain ⟨c', d', hp', hc', hd'⟩ := coordinates_eq v phase p'
  rw [hp, hp', Option.some.injEq, Prod.mk.injEq] at heq
  have hcc : c = c' := by
    have := heq.1
    field_simp at this
    exact_mod_cast this
  have hdd : d = d' := by
    have := heq.2
    field_simp at this
    exact_mod_cast this
  subst hcc hdd
  have hpre := (precise_iff_near v phase p).1 (h p)
  have hpre' := (precise_iff_near v phase p').1 (h p')
  rw [← near_iff hc, ← near_iff hd] at hpre
  rw [← near_iff hc', ← near_iff hd'] at hpre'
  simp only [abs_lt] at hpre hpre'
  rcases hdist with hdist | hdist
  · rw [le_abs] at hdist
    omega
  · rw [le_abs] at hdist
    omega

/-- **Which coordinates keep pixel accuracy.** -/
theorem precise_iff (v : VideoRect) (phase : Phase) :
    (∀ p, Precise v phase p ↔ Near v.rw (p.px - v.rx) ∧ Near v.rh (p.py - v.ry)) ∧
      ((∀ p, Precise v phase p) ∧ Separated v phase ↔ v.rw < 200 ∧ v.rh < 200) := by
  refine ⟨precise_iff_near v phase, fun ⟨hprecise, _⟩ => ?_, fun ⟨hw, hh⟩ => ?_⟩
  · obtain ⟨hw1, hw2⟩ := v.wide
    obtain ⟨hh1, hh2⟩ := v.high
    constructor
    · by_contra hlarge
      let p : Pixel v := ⟨v.rx + 1, v.ry, by omega⟩
      have hnear := ((precise_iff_near v phase p).1 (hprecise p)).1
      have hone : p.px - v.rx = 1 := by simp [p]
      rw [hone] at hnear
      exact not_near_one (by omega) hnear
    · by_contra hlarge
      let p : Pixel v := ⟨v.rx, v.ry + 1, by omega⟩
      have hnear := ((precise_iff_near v phase p).1 (hprecise p)).2
      have hone : p.py - v.ry = 1 := by simp [p]
      rw [hone] at hnear
      exact not_near_one (by omega) hnear
  · have hprecise : ∀ p, Precise v phase p := fun p => near_of_lt phase p hw hh
    exact ⟨hprecise, separated_of_precise hprecise⟩

/-! ## Full HD -/

def fullHd : VideoRect := ⟨⟨0, 0, 1920, 1080⟩, by decide, by decide⟩

def corner : Pixel fullHd := ⟨0, 0, by decide⟩

def eighth : Pixel fullHd := ⟨8, 0, by decide⟩

/-- **Eight pixels** from the corner the coordinates are those of the corner. -/
theorem eighth_imprecise :
    coordinates fullHd .began eighth = some (0, 0) ∧ coordinates fullHd .began corner = some (0, 0) ∧
      ¬Precise fullHd .began eighth ∧ ¬Separated fullHd .began := by
  have hcorner : ∀ p : Pixel fullHd, p.px < 10 → p.py = 0 →
      coordinates fullHd .began p = some (0, 0) := by
    intro p hx hy
    obtain ⟨c, d, heq, hc, hd⟩ := coordinates_eq fullHd .began p
    obtain ⟨⟨hlo, -⟩, -⟩ := p.inside
    simp only [fullHd] at hc hd hlo
    have hcbounds := abs_le.1 (le_refl |c * 1920 - 100 * (p.px - 0)|)
    have hdbounds := abs_le.1 (le_refl |d * 1080 - 100 * (p.py - 0)|)
    obtain rfl : c = 0 := by omega
    obtain rfl : d = 0 := by omega
    rw [heq]
    norm_num
  have heighth := hcorner eighth (by decide) rfl
  have hzero := hcorner corner (by decide) rfl
  refine ⟨heighth, hzero, fun h => ?_, fun h => ?_⟩
  · obtain ⟨⟨z, hz⟩, -⟩ := (precise_iff_near fullHd .began eighth).1 h
    simp only [fullHd, eighth, abs_lt] at hz
    omega
  · exact h eighth corner (.inl (by decide)) (heighth.trans hzero.symm)

end OpenDisplay.App.TouchCoordinates
