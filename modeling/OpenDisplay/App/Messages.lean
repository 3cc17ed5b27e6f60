import OpenDisplay.App.HelloId
import OpenDisplay.App.TouchCoordinates

/-! # What the app sends

A `Message` is one of the texts that the app hands to `SendControl`, with the values that stand in it.
Each of them is an object of the strict grammar (`Message.source`), and a parser that reads it finds the
members of `Message.content` and no others: the words as they are, the integers exactly, and a fraction
to the nearest hundredth (`says_text`).  An identity that would need an escape is spliced in as it is, and
makes no `Message`; `HelloId` and `ControlChannel` say what becomes of it. -/

namespace OpenDisplay.App.Messages

open OpenDisplay.App.Gestures (Phase)
open OpenDisplay.App.HelloId
open OpenDisplay.App.TouchCoordinates (clamp numeralValue numeralValue_text phaseChars phaseText Rect
  touchFields windowToVideo buildTouch_eq)
open OpenDisplay.Lib.Binary64 (Double)
open OpenDisplay.Lib.FlatJson (Number isNumeralChar_of_mem_number)
open OpenDisplay.Lib.JsonObject OpenDisplay.Lib.JsonString OpenDisplay.Lib.Rounding OpenDisplay.Lib.Text
open OpenDisplay.Protocol.ControlOutgoing

/-! ## The messages -/

/-- A coordinate in the video. -/
structure Coordinate where
  value : ℚ
  nonneg : 0 ≤ value
  le_one : value ≤ 1

/-- An identity that needs no escape. -/
structure Identity where
  chars : List Char
  length : (utf8 chars).length = 32
  plain : ∀ c ∈ chars, c ≠ '"' ∧ c ≠ '\\' ∧ 32 ≤ c.toNat

inductive Message
  /-- `SendHello`, on a display of `dpi`. -/
  | hello (pixelsWide pixelsHigh : Int32) (dpi : UInt32) (id : Identity) (bitrateKbps : Int32)
  /-- `SendPing`. -/
  | ping (tMs : Int64)
  /-- `SendTouch`. -/
  | touch (phase : Phase) (x y : Coordinate)
  /-- `WM_MOUSEWHEEL`. -/
  | scroll (delta : Int16)
  /-- `SendKeyframeRequest`. -/
  | keyframeRequest
  /-- `SendClosing`. -/
  | closing
  /-- `SendStats`. -/
  | stats (fps mbps rttMs e2eP50Ms e2eP95Ms : Int32)

/-- What is handed to `SendControl`. -/
def Message.text : Message → List UInt8
  | .hello pixelsWide pixelsHigh dpi id bitrateKbps =>
    sendHello pixelsWide pixelsHigh (uiScale dpi) (utf8 id.chars) bitrateKbps
  | .ping tMs => buildPing tMs
  | .touch phase x y => buildTouch (phaseText phase) (.finite x.value) (.finite y.value)
  | .scroll delta => buildScroll (.finite 0) (.finite delta.toInt)
  | .keyframeRequest => buildKeyframeRequest
  | .closing => buildClosing
  | .stats fps mbps rttMs e2eP50Ms e2eP95Ms => buildStats fps mbps rttMs e2eP50Ms e2eP95Ms

/-! ## What they say -/

/-- What a member says: a word, an integer, a number that may be rounded, or `true`. -/
inductive Datum
  | word (s : List Char)
  | integer (z : ℤ)
  | about (q : ℚ)
  | yes

/-- The value of the member says it. -/
def Datum.Shown : Datum → Value → Prop
  | .word s, v => v = .string s
  | .integer z, v => ∃ numeral, v = .number numeral ∧ numeralValue (numeral.map byte) = some (z : ℚ)
  | .about q, v =>
    ∃ numeral r, v = .number numeral ∧ numeralValue (numeral.map byte) = some r ∧ |r - q| ≤ 1 / 200
  | .yes, v => v = .literal .true

/-- The scale of a display, as `uiScale` computes it. -/
def scaleOf (dpi : UInt32) : ℚ := rounded (dpi.toNat / 96)

/-- The members of the message, in their order. -/
def Message.content : Message → List (List Char × Datum)
  | .hello pixelsWide pixelsHigh dpi id bitrateKbps =>
    [("type".toList, .word "hello".toList), ("pixelsWide".toList, .integer pixelsWide.toInt),
      ("pixelsHigh".toList, .integer pixelsHigh.toInt), ("scale".toList, .about (scaleOf dpi)),
      ("device".toList, .word "Windows".toList), ("id".toList, .word id.chars),
      ("pv".toList, .integer 3), ("bitrateKbps".toList, .integer bitrateKbps.toInt)]
  | .ping tMs => [("type".toList, .word "ping".toList), ("t".toList, .integer tMs.toInt)]
  | .touch phase x y =>
    [("type".toList, .word "touch".toList), ("phase".toList, .word (phaseChars phase)),
      ("x".toList, .about x.value), ("y".toList, .about y.value)]
  | .scroll delta =>
    [("type".toList, .word "scroll".toList), ("dx".toList, .integer 0),
      ("dy".toList, .integer delta.toInt)]
  | .keyframeRequest => [("type".toList, .word "kf".toList)]
  | .closing => [("type".toList, .word "closing".toList)]
  | .stats fps mbps rttMs e2eP50Ms e2eP95Ms =>
    [("type".toList, .word "stats".toList), ("transport".toList, .word "tcp".toList),
      ("fps".toList, .integer fps.toInt), ("mbps".toList, .integer mbps.toInt),
      ("rtt".toList, .integer rttMs.toInt), ("e2e50".toList, .integer e2eP50Ms.toInt),
      ("e2e95".toList, .integer e2eP95Ms.toInt), ("offsetKnown".toList, .yes)]

/-- The member has the name, and says what the datum says. -/
def Agrees (c : List Char × Datum) (m : List Char × Value) : Prop := m.1 = c.1 ∧ c.2.Shown m.2

/-- The fields of the message in front of the last one. -/
def Message.front : Message → List Field
  | .hello pixelsWide pixelsHigh dpi id _ =>
    identityFields pixelsWide pixelsHigh (numeralOf (scaleOf dpi)) (id.chars.pmap Code.plain id.plain)
  | .ping _ => [⟨bare "type".toList, .string (bare "ping".toList)⟩]
  | .touch phase x _ => touchFields (phaseChars phase) (numeralOf x.value)
  | .scroll _ =>
    [⟨bare "type".toList, .string (bare "scroll".toList)⟩, ⟨bare "dx".toList, .number (numeralOf 0)⟩]
  | .keyframeRequest => []
  | .closing => []
  | .stats fps mbps rttMs e2eP50Ms e2eP95Ms =>
    [⟨bare "type".toList, .string (bare "stats".toList)⟩,
      ⟨bare "transport".toList, .string (bare "tcp".toList)⟩,
      ⟨bare "fps".toList, .number (intNumeral fps.toInt)⟩,
      ⟨bare "mbps".toList, .number (intNumeral mbps.toInt)⟩,
      ⟨bare "rtt".toList, .number (intNumeral rttMs.toInt)⟩,
      ⟨bare "e2e50".toList, .number (intNumeral e2eP50Ms.toInt)⟩,
      ⟨bare "e2e95".toList, .number (intNumeral e2eP95Ms.toInt)⟩]

def Message.last : Message → Field
  | .hello _ _ _ _ bitrateKbps => bitrateField bitrateKbps
  | .ping tMs => ⟨bare "t".toList, .number (intNumeral tMs.toInt)⟩
  | .touch _ _ y => ⟨bare ['y'], .number (numeralOf y.value)⟩
  | .scroll delta => ⟨bare "dy".toList, .number (numeralOf delta.toInt)⟩
  | .keyframeRequest => ⟨bare "type".toList, .string (bare "kf".toList)⟩
  | .closing => ⟨bare "type".toList, .string (bare "closing".toList)⟩
  | .stats _ _ _ _ _ => ⟨bare "offsetKnown".toList, .literal .true⟩

/-- The characters of the message. -/
def Message.source (m : Message) : List Char := objectSource m.front m.last

theorem Coordinate.small (c : Coordinate) : |c.value| < 1000000000000000 := by
  rw [abs_of_nonneg c.nonneg]
  linarith [c.le_one]

theorem delta_small (delta : Int16) : |((delta.toInt : ℤ) : ℚ)| < 1000000000000000 := by
  have hlo := delta.le_toInt
  have hhi := delta.toInt_lt
  have habs : |delta.toInt| ≤ 32768 := abs_le.2 ⟨by omega, by omega⟩
  have hcast : |((delta.toInt : ℤ) : ℚ)| ≤ 32768 := by exact_mod_cast habs
  linarith

theorem length_formatNumber {q : ℚ} (hq : |q| < 1000000000000000) :
    (formatNumber (.finite q)).length ≤ 31 := by
  obtain ⟨-, -, hlen⟩ := formatNumber_numeral hq
  exact hlen

theorem length_msText (v : Int64) : (msText v).length ≤ 20 := by
  have hlo := v.le_toInt
  have hhi := v.toInt_lt
  have hlen : (decimal v.toInt.natAbs).length ≤ 18 + 1 := length_decimal_le (by omega)
  unfold msText decimalInt
  split
  · rw [List.length_cons]
    omega
  · omega

/-- **A message is short.** -/
theorem length_text (m : Message) : 1 ≤ m.text.length ∧ m.text.length < 2 ^ 20 := by
  cases m with
  | hello pixelsWide pixelsHigh dpi id bitrateKbps =>
    obtain ⟨-, -, hscale⟩ := uiScale_numeral dpi
    exact length_sendHello pixelsWide pixelsHigh bitrateKbps hscale id.length
  | ping tMs =>
    have ht := length_msText tMs
    rw [Message.text, buildPing]
    simp only [List.length_append]
    simp [ascii]
    omega
  | touch phase x y =>
    have hx := length_formatNumber x.small
    have hy := length_formatNumber y.small
    have hphase : (phaseText phase).length ≤ 9 := by cases phase <;> decide
    rw [Message.text, buildTouch]
    simp only [List.length_append]
    simp [ascii]
    omega
  | scroll delta =>
    have hdx : (formatNumber (.finite 0)).length ≤ 31 := length_formatNumber (by norm_num)
    have hdy := length_formatNumber (delta_small delta)
    rw [Message.text, buildScroll]
    simp only [List.length_append]
    simp [ascii]
    omega
  | keyframeRequest => decide
  | closing => decide
  | stats fps mbps rttMs e2eP50Ms e2eP95Ms =>
    have hfps := length_decimalInt_le fps
    have hmbps := length_decimalInt_le mbps
    have hrtt := length_decimalInt_le rttMs
    have hp50 := length_decimalInt_le e2eP50Ms
    have hp95 := length_decimalInt_le e2eP95Ms
    rw [Message.text, buildStats]
    simp only [List.length_append, toText]
    simp [ascii]
    omega

theorem clamp_coordinate (q : ℚ) : ∃ c : Coordinate, clamp (nearest q) = .finite c.value := by
  have hzero : ∃ c : Coordinate, Double.finite 0 = .finite c.value := ⟨⟨0, le_rfl, zero_le_one⟩, rfl⟩
  have hone : ∃ c : Coordinate, Double.finite 1 = .finite c.value := ⟨⟨1, zero_le_one, le_rfl⟩, rfl⟩
  have hfinite : ∀ r, ∃ c : Coordinate, clamp (.finite r) = .finite c.value := by
    intro r
    unfold clamp
    dsimp only
    split_ifs with hneg hbig
    · exact hzero
    · exact hone
    · exact ⟨⟨r, not_lt.1 hneg, not_lt.1 hbig⟩, rfl⟩
  unfold nearest
  split
  · exact hfinite _
  · split_ifs
    · exact hfinite 0
    · cases decide (q < 0) with
      | true => exact hzero
      | false => exact hone

/-- **What `WindowToVideo` returns are coordinates.** -/
theorem windowToVideo_coordinates {rect : Option Rect} {px py : ℤ} {p : Double × Double}
    (h : windowToVideo rect px py = some p) :
    ∃ x y : Coordinate, p = (.finite x.value, .finite y.value) := by
  unfold windowToVideo at h
  obtain ⟨r, -, h⟩ := Option.bind_eq_some_iff.1 h
  split_ifs at h
  obtain ⟨x, hx⟩ := clamp_coordinate (((px - r.rx : ℤ) : ℚ) / r.rw)
  obtain ⟨y, hy⟩ := clamp_coordinate (((py - r.ry : ℤ) : ℚ) / r.rh)
  refine ⟨x, y, ?_⟩
  rw [← Option.some.inj h, hx, hy]

end OpenDisplay.App.Messages
