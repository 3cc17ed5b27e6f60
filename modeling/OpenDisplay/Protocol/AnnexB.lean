import OpenDisplay.Lib.Buffer
import OpenDisplay.Lib.Separator
import OpenDisplay.Lib.Text

/-! # Wire payloads: the control/video demux and the Annex-B parser

A payload is a JSON control message if it is short, starts with `{` and holds no NUL byte
(`isControlJson`); anything else is a video frame:

    [optional telemetry prefix] [00 00 00 01][NALU] [00 00 00 01][NALU] ...

`parseAnnexB` collects the offsets behind the start codes (`startCodes`), cuts the payload there and
classifies the runs by their NAL unit type: 7 is an SPS, 8 a PPS, 6 (SEI) is dropped and everything
else is a VCL NALU. Views into the payload are kept as the bytes they show. -/

namespace OpenDisplay.Protocol.AnnexB

open OpenDisplay.Lib.Buffer OpenDisplay.Lib.Separator OpenDisplay.Lib.Text

/-! ## The demux -/

/-- `kJsonSniffMaxSize`. -/
def kJsonSniffMaxSize : ℕ := 32768

/-- `IsControlJson`. -/
def isControlJson (payload : List UInt8) : Bool :=
  if payload.isEmpty || decide (kJsonSniffMaxSize ≤ payload.length) then false
  else if payload.head? != some 123 then false
  else payload.all (· != 0)

/-! ## The telemetry scanner -/

/-- `std::stoll` on a run of digits and minus signs: an optional sign, then the leading digits.
`none` stands for the exceptions (no digits, or out of the 64-bit range). -/
def stoll : List UInt8 → Option ℤ
  | 45 :: rest =>
    let ds := rest.takeWhile (fun b => decide (IsDigit b))
    if ds = [] then none
    else if 2 ^ 63 < value ds then none else some (-(value ds : ℤ))
  | s =>
    let ds := s.takeWhile (fun b => decide (IsDigit b))
    if ds = [] then none
    else if 2 ^ 63 ≤ value ds then none else some (value ds : ℤ)

/-- The characters skipped behind the colon. -/
def isBlank (b : UInt8) : Bool := b == 32 || b == 9 || b == 13 || b == 10

/-- The characters of a number. -/
def isNumberChar (b : UInt8) : Bool := b == 45 || decide (IsDigit b)

/-- `FindNumber`: the first `"key"`, the next colon, blanks, then the number; `-1` when any of them
is missing. -/
def findNumber (json key : List UInt8) : ℤ :=
  let needle := 34 :: key ++ [34]
  match findFrom needle json 0 with
  | none => -1
  | some pos =>
    match findFrom [58] json (pos + needle.length) with
    | none => -1
    | some pos =>
      let num := ((json.drop (pos + 1)).dropWhile isBlank).takeWhile isNumberChar
      if num = [] then -1 else (stoll num).getD (-1)

/-- `ParseTelemetry`: the capture and the send time. -/
def parseTelemetry (telemetry : List UInt8) : ℤ × ℤ :=
  if telemetry = [] then (-1, -1)
  else (findNumber telemetry (ascii "cap"), findNumber telemetry (ascii "snd"))

/-! ## The access unit -/

/-- `VideoFrame`. -/
structure VideoFrame where
  telemetryPrefix : List UInt8
  sps : List UInt8
  pps : List UInt8
  vclNalus : List (List UInt8)
  captureMs : ℤ
  sendMs : ℤ
  deriving DecidableEq

/-- A default-constructed frame. -/
def VideoFrame.empty : VideoFrame := ⟨[], [], [], [], -1, -1⟩

/-- `VideoFrame::IsEmpty`. -/
def VideoFrame.isEmpty (f : VideoFrame) : Bool := f.vclNalus.isEmpty && f.sps.isEmpty

/-- `NaluType`: the low five bits of the header byte. -/
def naluType : List UInt8 → ℤ
  | [] => -1
  | b :: _ => (b &&& 0x1F).toNat

/-- A start code. -/
def startCode : List UInt8 := [0, 0, 0, 1]

/-- `kStartCodeLen`. -/
def kStartCodeLen : ℕ := 4

/-- The loop of `ParseAnnexB` that collects the offsets behind the start codes, from `i` on. -/
def startCodes (payload : List UInt8) (i : ℕ) : List ℕ :=
  if i + kStartCodeLen ≤ payload.length then
    if payload.getD i 0 = 0 ∧ payload.getD (i + 1) 0 = 0 ∧ payload.getD (i + 2) 0 = 0 ∧
        payload.getD (i + 3) 0 = 1 then
      (i + kStartCodeLen) :: startCodes payload (i + kStartCodeLen)
    else startCodes payload (i + 1)
  else []
termination_by payload.length - i
decreasing_by all_goals unfold kStartCodeLen at *; omega

/-- The switch on the type of a non-empty NALU. -/
def VideoFrame.classify (f : VideoFrame) (nalu : List UInt8) : VideoFrame :=
  if naluType nalu = 7 then { f with sps := nalu }
  else if naluType nalu = 8 then { f with pps := nalu }
  else if naluType nalu = 6 then f
  else { f with vclNalus := f.vclNalus ++ [nalu] }

/-- Where the NALU before the start codes `rest` ends. -/
def naluEnd (payload : List UInt8) : List ℕ → ℕ
  | [] => payload.length
  | s :: _ => s - kStartCodeLen

/-- The loop of `ParseAnnexB` over the start codes. -/
def collect (payload : List UInt8) : VideoFrame → List ℕ → VideoFrame
  | f, [] => f
  | f, naluBegin :: rest =>
    let stop := naluEnd payload rest
    if stop ≤ naluBegin then collect payload f rest
    else collect payload (f.classify (slice payload naluBegin (stop - naluBegin))) rest

/-- `ParseAnnexB`. -/
def parseAnnexB (payload : List UInt8) : VideoFrame :=
  match startCodes payload 0 with
  | [] => .empty
  | first :: rest =>
    let frame :=
      if kStartCodeLen < first then
        let telemetry := slice payload 0 (first - kStartCodeLen)
        { VideoFrame.empty with
          telemetryPrefix := telemetry
          captureMs := (parseTelemetry telemetry).1
          sendMs := (parseTelemetry telemetry).2 }
      else .empty
    collect payload frame (first :: rest)

/-! ### Slice types -/

/-- `bit`: the bit at `pos`, or `-1` behind the end, where the position stays. -/
def sliceBit (b : List UInt8) (pos : ℕ) : ℤ × ℕ :=
  if b.length ≤ pos / 8 then (-1, pos)
  else ((((b.getD (pos / 8) 0).toNat / 2 ^ (7 - pos % 8)) % 2 : ℕ), pos + 1)

/-- `(v << 1) | bit`, where a missing bit is `-1`. -/
def shiftIn (v bit : ℤ) : ℤ := if bit < 0 then -1 else 2 * v + bit

/-- The loop over the leading zeros of `ue`: their number and the position behind the bit that ended
it; `none` when there are more than 24. -/
def sliceZeros (b : List UInt8) (zeros pos : ℕ) : Option (ℕ × ℕ) :=
  if (sliceBit b pos).1 = 0 then
    if 24 < zeros + 1 then none else sliceZeros b (zeros + 1) (sliceBit b pos).2
  else some (zeros, (sliceBit b pos).2)
termination_by 25 - zeros

/-- The suffix bits of `ue`. -/
def sliceSuffix (b : List UInt8) : ℕ → ℤ → ℕ → ℤ × ℕ
  | 0, v, pos => (v, pos)
  | n + 1, v, pos => sliceSuffix b n (shiftIn v (sliceBit b pos).1) (sliceBit b pos).2

/-- `ue` of the slice reader; the position is not needed after a failure. -/
def sliceUe (b : List UInt8) (pos : ℕ) : ℤ × ℕ :=
  match sliceZeros b 0 pos with
  | none => (-1, pos)
  | some (zeros, pos) =>
    let r := sliceSuffix b zeros 1 pos
    (r.1 - 1, r.2)

/-- `SliceType`. -/
def sliceType (nalu : List UInt8) : ℤ :=
  let first := sliceUe nalu 0
  if first.1 < 0 then -1
  else
    let t := (sliceUe nalu first.2).1
    if 0 ≤ t ∧ t ≤ 9 then t else -1

/-- `VideoFrame::IsKeyframe`. -/
def VideoFrame.isKeyframe (f : VideoFrame) : Bool :=
  if f.sps.isEmpty || f.vclNalus.isEmpty then false
  else f.vclNalus.any fun n =>
    decide (naluType n = 5) || (decide (naluType n = 1) && decide (sliceType n = 7))

end OpenDisplay.Protocol.AnnexB
