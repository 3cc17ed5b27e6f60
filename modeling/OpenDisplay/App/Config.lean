import OpenDisplay.Lib.Buffer
import OpenDisplay.Lib.Trim

/-! # The configuration file

`parseConfig` reads `config.ini` line by line: a line is blank, a comment, the header of a section or
`key=value`. It keeps the section in force and the settings so far; an invalid value leaves its
setting as it is and is reported with the number of its line. Texts are lists of bytes.

`adaptiveDisplaySize` is the size that the app asks for with `adaptive_resolution` on. -/

namespace OpenDisplay.App.Config

open OpenDisplay.Lib.Buffer OpenDisplay.Lib.Text
open OpenDisplay.Lib.Trim (trim)

/-- `std::isspace` of the C locale. -/
def isSpace (b : UInt8) : Bool := b == 32 || (decide (9 ≤ b) && decide (b ≤ 13))

/-- `std::from_chars` of an `int`: an optional minus sign and digits, as many as there are. The result
is the value with the text behind it, and `none` where there are no digits or the value is out of
range. -/
def fromChars : List UInt8 → Option (ℤ × List UInt8)
  | 45 :: rest =>
    let ds := rest.takeWhile (fun b => decide (IsDigit b))
    if ds = [] ∨ 2 ^ 31 < value ds then none else some (-(value ds : ℤ), rest.drop ds.length)
  | text =>
    let ds := text.takeWhile (fun b => decide (IsDigit b))
    if ds = [] ∨ 2 ^ 31 ≤ value ds then none else some ((value ds : ℤ), text.drop ds.length)

/-- `ReadInt`. -/
def readInt (text : List UInt8) : Option ℤ :=
  match fromChars text with
  | some (number, []) => some number
  | _ => none

/-- `ReadBool`. -/
def readBool (text : List UInt8) : Option Bool :=
  if text = ascii "true" ∨ text = ascii "1" then some true
  else if text = ascii "false" ∨ text = ascii "0" then some false
  else none

/-- `ReceiverConfig`. -/
structure ReceiverConfig where
  width : ℤ := 1280
  height : ℤ := 720
  bitrateKbps : ℤ := 18000
  fullscreen : Bool := false
  adaptiveResolution : Bool := false
  deriving DecidableEq

/-- The lines that `std::getline` reads; a line feed at the end of the text starts no further line. -/
def lines : List UInt8 → List (List UInt8)
  | [] => []
  | b :: text =>
    if b = 10 then [] :: lines text
    else match lines text with
      | [] => [[b]]
      | line :: rest => (b :: line) :: rest

/-- The variables of the loop; `lineNumber` is that of the last line read. -/
structure Parse where
  config : ReceiverConfig
  sectionName : List UInt8
  warnings : List (List UInt8)
  lineNumber : ℕ

/-- A warning about the current line. -/
def Parse.warn (st : Parse) (reason : String) : Parse :=
  { st with warnings := st.warnings ++ [ascii "line " ++ decimal st.lineNumber ++ ascii reason] }

/-- A value for a setting, where it is valid. -/
def Parse.assign {α : Type} (st : Parse) (valid : Option α)
    (set : ReceiverConfig → α → ReceiverConfig) : Parse :=
  match valid with
  | some x => { st with config := set st.config x }
  | none => st.warn ": invalid value"

/-- The width that a value gives. -/
def readWidth (text : List UInt8) : Option ℤ :=
  (readInt text).filter fun number => 320 ≤ number ∧ number ≤ 8192 ∧ number.tmod 2 = 0

def readHeight (text : List UInt8) : Option ℤ :=
  (readInt text).filter fun number => 240 ≤ number ∧ number ≤ 8192 ∧ number.tmod 2 = 0

def readBitrateKbps (text : List UInt8) : Option ℤ :=
  (readInt text).filter fun number => 1000 ≤ number ∧ number ≤ 100000

/-- The branches on the section and the key. -/
def Parse.setting (st : Parse) (key value : List UInt8) : Parse :=
  if st.sectionName = ascii "display" ∧ key = ascii "width" then
    st.assign (readWidth value) fun config number => { config with width := number }
  else if st.sectionName = ascii "display" ∧ key = ascii "height" then
    st.assign (readHeight value) fun config number => { config with height := number }
  else if st.sectionName = ascii "display" ∧ key = ascii "fullscreen" then
    st.assign (readBool value) fun config boolean => { config with fullscreen := boolean }
  else if st.sectionName = ascii "display" ∧ key = ascii "adaptive_resolution" then
    st.assign (readBool value) fun config boolean => { config with adaptiveResolution := boolean }
  else if st.sectionName = ascii "video" ∧ key = ascii "bitrate_kbps" then
    st.assign (readBitrateKbps value) fun config number => { config with bitrateKbps := number }
  else st.warn ": unknown setting"

/-- The body of the loop for the text of a line. -/
def Parse.text (st : Parse) (text : List UInt8) : Parse :=
  if text = [] ∨ text.head? = some 59 ∨ text.head? = some 35 then st
  else if text.head? = some 91 ∧ text.getLast? = some 93 then
    { st with sectionName := trim isSpace (slice text 1 (text.length - 2)) }
  else match find [61] text with
    | none => st.warn ": expected key=value"
    | some equals =>
      st.setting (trim isSpace (text.take equals)) (trim isSpace (text.drop (equals + 1)))

/-- The body of the loop. -/
def Parse.line (st : Parse) (line : List UInt8) : Parse :=
  { st with lineNumber := st.lineNumber + 1 }.text (trim isSpace line)

/-- `ParseConfig`: the configuration, and the warnings with those it adds. -/
def parseConfig (input : List UInt8) (warnings : List (List UInt8)) :
    ReceiverConfig × List (List UInt8) :=
  let st := (lines input).foldl Parse.line ⟨{}, [], warnings, 0⟩
  (st.config, st.warnings)

structure DisplaySize where
  width : ℤ
  height : ℤ
  deriving DecidableEq, Repr

/-- `x & ~1` for an `x` that is not negative. -/
def roundEven (x : ℤ) : ℤ := x - x % 2

/-- `AdaptiveDisplaySize`. -/
def adaptiveDisplaySize (config : ReceiverConfig) (clientWidth clientHeight : ℤ) : DisplaySize :=
  if clientWidth < 320 ∨ clientHeight < 240 then ⟨config.width, config.height⟩
  else ⟨roundEven (min clientWidth 8192), roundEven (min clientHeight 8192)⟩

/-- A bad value leaves the one before it in force. -/
example : (parseConfig (ascii "[display]\nwidth = 1920\n; \nwidth=1919\n") []) =
    ({ width := 1920 }, [ascii "line 4: invalid value"]) := by decide +kernel

end OpenDisplay.App.Config
