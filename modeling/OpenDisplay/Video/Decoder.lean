import OpenDisplay.Lib.RateLimit
import OpenDisplay.Net.Session
import OpenDisplay.Protocol.Sps

/-!
# The decoder

`submit` is `H264Decoder::Submit`, with the functions it calls.  The Media Foundation transform is
the environment: what its calls return is part of the input of a submission (`Outcome`), and
`DrainOutput` runs through the outputs that the transform has ready (`Drain`).  The clock that
`RequestKeyframe` reads is the argument `now`.

Each transform object gets a number when it is created.  `trace` records, newest first, what the
decoder does with them; `frames` holds what `onFrame` was given.  Both are ghosts.
-/

namespace OpenDisplay.Video.Decoder

open OpenDisplay.Lib.RateLimit OpenDisplay.Net.Session OpenDisplay.Protocol.Sps

/-! ## The environment -/

/-- An entry of `GetOutputAvailableType`: whether its subtype reads as NV12, and whether
`SetOutputType` takes it. -/
structure OutputType where
  isNv12 : Bool
  settable : Bool

/-- The calls of `SetupMft` for one candidate class. -/
structure Candidate where
  created : Bool
  inputTypeCreated : Bool
  inputTypeAccepted : Bool
  outputTypes : List OutputType

/-- `ProcessInput`. -/
inductive InputResult
  | accepted
  | notAccepting
  | failed
  deriving DecidableEq

/-- What `PublishNv12` reads: the buffer, the frame size of the current output type and the bytes. -/
structure Output where
  hasBuffer : Bool
  size : Option (ℕ × ℕ)
  bytes : Option (List UInt8)

/-- A turn of the loop of `DrainOutput` that goes round: a decoded frame, or a stream change with
the sample size and the frame size of the new type. -/
inductive Turn
  | frame (out : Output)
  | streamChange (outputTypes : List OutputType) (sampleSize : Option ℕ) (size : Option (ℕ × ℕ))

/-- The last turn. -/
inductive Stop
  | noSample
  | needMoreInput
  | failed
  deriving DecidableEq

/-- The outputs that one call of `DrainOutput` finds. -/
structure Drain where
  turns : List Turn
  stop : Stop

/-- The calls of `FeedAccessUnit`. -/
structure FeedOutcome where
  bufferCreated : Bool
  bufferLocked : Bool
  sampleCreated : Bool
  input : InputResult
  /-- `DrainOutput` and the second `ProcessInput`, after `MF_E_NOTACCEPTING`. -/
  retryDrain : Drain
  retryInput : InputResult
  drain : Drain

/-- The calls before `ProcessInput` succeed. -/
def FeedOutcome.prepared (o : FeedOutcome) : Bool :=
  o.bufferCreated && o.bufferLocked && o.sampleCreated

/-- The calls that one `Submit` may make. -/
structure Outcome where
  hardware : Candidate
  software : Candidate
  feed : FeedOutcome

/-! ## The state -/

/-- `DecodedFrame`, without the two crop fields that stay 0. -/
structure DecodedFrame where
  nv12 : List UInt8
  width : ℤ
  height : ℤ
  cropRight : ℤ
  cropBottom : ℤ
  captureMs : ℤ
  arrivalMs : ℤ

/-- What the decoder does with the transforms. -/
inductive Event
  /-- The transform is up and the parameter sets of the sample are remembered. -/
  | built (mft : Option ℕ) (s : VideoSample)
  /-- The sample is passed to `ProcessInput`. -/
  | fed (mft : Option ℕ) (s : VideoSample)
  /-- `SetupMft` or `FeedAccessUnit` returns false. -/
  | failed
  /-- `onRequestKeyframe` is called. -/
  | requested (t : ℤ)

structure H264Decoder where
  /-- `decoder_`. -/
  mft : Option ℕ
  nextMft : ℕ
  mftReady : Bool
  sampleSize : ℕ
  lastW : ℕ
  lastH : ℕ
  lastSps : List UInt8
  lastPps : List UInt8
  visibleW : ℤ
  visibleH : ℤ
  lastKfRequestMs : ℤ
  hwDecoder : Bool
  captureTimes : List (ℤ × ℤ)
  samplesSubmitted : UInt64
  framesDecoded : UInt64
  rebuilds : UInt64
  decoderErrors : UInt64
  fedCount : UInt64
  acceptedUnits : UInt64
  publishedFrames : UInt64
  trace : List Event
  frames : List DecodedFrame

def initial : H264Decoder where
  mft := none
  nextMft := 0
  mftReady := false
  sampleSize := 0
  lastW := 0
  lastH := 0
  lastSps := []
  lastPps := []
  visibleW := 0
  visibleH := 0
  lastKfRequestMs := 0
  hwDecoder := false
  captureTimes := []
  samplesSubmitted := 0
  framesDecoded := 0
  rebuilds := 0
  decoderErrors := 0
  fedCount := 0
  acceptedUnits := 0
  publishedFrames := 0
  trace := []
  frames := []

/-- The least time between two requests. -/
def kfIntervalMs : ℤ := 500

/-- The bytes of an NV12 picture. -/
def nv12Size (width height : ℤ) : ℕ :=
  width.toNat * height.toNat + width.toNat * height.toNat / 2

namespace H264Decoder

variable (d : H264Decoder)

def record (e : Event) : H264Decoder := { d with trace := e :: d.trace }

/-- `ResetMft`. -/
def resetMft : H264Decoder :=
  { d with
    mft := none
    mftReady := false
    sampleSize := 0
    visibleW := 0
    visibleH := 0
    captureTimes := [] }

/-- `RequestKeyframe` at the steady time `now`. -/
def requestKeyframe (now : ℤ) : H264Decoder :=
  if Blocked kfIntervalMs d.lastKfRequestMs now then d
  else { d with lastKfRequestMs := now, trace := .requested now :: d.trace }

end H264Decoder

/-- `SetOutputNv12`: the first type that reads as NV12 decides. -/
def setOutputNv12 : List OutputType → Bool
  | [] => false
  | t :: ts => if t.isNv12 then t.settable else setOutputNv12 ts

/-- The candidate is usable. -/
def Candidate.usable (c : Candidate) : Bool :=
  c.created && c.inputTypeCreated && c.inputTypeAccepted && setOutputNv12 c.outputTypes

namespace H264Decoder

/-- `decoder_.Reset()` and `CoCreateInstance` for one candidate. -/
def create (d : H264Decoder) (c : Candidate) : H264Decoder :=
  if c.created then { d with mft := some d.nextMft, nextMft := d.nextMft + 1 }
  else { d with mft := none }

/-- The candidates in their order; the flag says which is the hardware one. -/
def tryCandidates (d : H264Decoder) : List (Bool × Candidate) → H264Decoder × Bool
  | [] => (d, false)
  | (isHw, c) :: cs =>
    if c.usable then
      ({ d.create c with sampleSize := 0, mftReady := true, hwDecoder := isHw }, true)
    else (d.create c).tryCandidates cs

/-- `SetupMft`. -/
def setupMft (d : H264Decoder) (o : Outcome) : H264Decoder × Bool :=
  d.tryCandidates [(true, o.hardware), (false, o.software)]

/-- The head of `captureTimes_` for the next frame, and the rest; a queue that is still longer than
64 has drifted and is dropped. -/
def popCaptureTime (d : H264Decoder) : (ℤ × ℤ) × List (ℤ × ℤ) :=
  match d.captureTimes with
  | [] => ((-1, 0), [])
  | t :: ts => (t, if 64 < ts.length then [] else ts)

/-- The padding on one side: the coded extent beyond the visible one. -/
def crop (visible coded : ℤ) : ℤ :=
  if 0 < visible ∧ visible ≤ coded then coded - visible else 0

/-- `PublishNv12`. -/
def publishNv12 (d : H264Decoder) (out : Output) : H264Decoder :=
  if out.hasBuffer then
    let (width, height) := match out.size with
      | some (w, h) => (int32 w, int32 h)
      | none => (0, 0)
    let (time, rest) := d.popCaptureTime
    let d := { d with captureTimes := rest }
    if 0 < width ∧ 0 < height then
      match out.bytes with
      | none => d
      | some bytes =>
        if nv12Size width height ≤ bytes.length then
          { d with
            publishedFrames := d.publishedFrames + 1
            frames :=
              { nv12 := bytes.take (nv12Size width height)
                width
                height
                cropRight := crop d.visibleW width
                cropBottom := crop d.visibleH height
                captureMs := time.1
                arrivalMs := time.2 } :: d.frames }
        else d
    else d
  else d

/-- The stream-change branch of `DrainOutput`, once NV12 is selected again. -/
def changeStream (d : H264Decoder) (sampleSize : Option ℕ) (size : Option (ℕ × ℕ)) :
    H264Decoder :=
  { d with
    sampleSize := sampleSize.getD d.sampleSize
    lastW := (size.map Prod.fst).getD d.lastW
    lastH := (size.map Prod.snd).getD d.lastH }

/-- The loop of `DrainOutput`. -/
def drainTurns (d : H264Decoder) (stop : Stop) : List Turn → H264Decoder × Bool
  | [] => (d, decide (stop ≠ .failed))
  | .frame out :: ts =>
    let d := d.publishNv12 out
    drainTurns { d with framesDecoded := d.framesDecoded + 1 } stop ts
  | .streamChange types sampleSize size :: ts =>
    if setOutputNv12 types then (d.changeStream sampleSize size).drainTurns stop ts
    else (d, false)

/-- `DrainOutput`. -/
def drainOutput (d : H264Decoder) (o : Drain) : H264Decoder × Bool := d.drainTurns o.stop o.turns

/-- `ProcessInput`, with the one retry after the outputs are drained; none if the drain fails. -/
def processInput (d : H264Decoder) (o : FeedOutcome) : H264Decoder × Option InputResult :=
  if o.input = .notAccepting then
    match d.drainOutput o.retryDrain with
    | (d, true) => (d, some o.retryInput)
    | (d, false) => (d, none)
  else (d, some o.input)

/-- The transform has taken the sample; its times wait for the frame. -/
def accept (d : H264Decoder) (s : VideoSample) : H264Decoder :=
  { d with
    fedCount := d.fedCount + 1
    acceptedUnits := d.acceptedUnits + 1
    captureTimes := d.captureTimes ++ [(s.captureMs, s.arrivalMs)] }

/-- `FeedAccessUnit`. -/
def feedAccessUnit (d : H264Decoder) (s : VideoSample) (o : FeedOutcome) : H264Decoder × Bool :=
  if o.prepared then
    match (d.record (.fed d.mft s)).processInput o with
    | (d, none) => (d, false)
    | (d, some .accepted) => (d.accept s).drainOutput o.drain
    | (d, some _) => ({ d with fedCount := d.fedCount + 1 }, false)
  else (d, false)

/-- A keyframe brings the size of the displayed picture. -/
def setVisible (d : H264Decoder) (s : VideoSample) : H264Decoder :=
  if s.isKeyframe = true ∧ s.sps ≠ [] then
    match parseSpsDimensions s.sps with
    | some dims => { d with visibleW := dims.width, visibleH := dims.height }
    | none => d
  else d

/-- The end of `Submit`: feed the sample, and reset the transform if that fails. -/
def submitUnit (d : H264Decoder) (s : VideoSample) (o : FeedOutcome) (now : ℤ) : H264Decoder :=
  match (d.setVisible s).feedAccessUnit s o with
  | (d, true) => d
  | (d, false) =>
    (({ d with decoderErrors := d.decoderErrors + 1 }.record .failed).resetMft).requestKeyframe now

/-- The transform is up for the keyframe `s`. -/
def remember (d : H264Decoder) (s : VideoSample) : H264Decoder :=
  { d with
    lastSps := s.sps
    lastPps := s.pps
    rebuilds := d.rebuilds + 1
    trace := .built d.mft s :: d.trace }

/-- Build the transform for the keyframe `s` and feed it. -/
def buildAndSubmit (d : H264Decoder) (s : VideoSample) (o : Outcome) (now : ℤ) : H264Decoder :=
  match d.setupMft o with
  | (d, true) => (d.remember s).submitUnit s o.feed now
  | (d, false) => (d.record .failed).requestKeyframe now

/-- `spsChanged || ppsChanged`. -/
def Changed (d : H264Decoder) (s : VideoSample) : Prop :=
  (s.sps ≠ [] ∧ s.sps ≠ d.lastSps) ∨ (s.pps ≠ [] ∧ s.pps ≠ d.lastPps)

instance (d : H264Decoder) (s : VideoSample) : Decidable (d.Changed s) := by
  unfold Changed
  infer_instance

/-- `Submit` of a sample that has bytes. -/
def submitSample (d : H264Decoder) (s : VideoSample) (o : Outcome) (now : ℤ) : H264Decoder :=
  if d.mftReady then
    if d.Changed s ∧ s.isKeyframe = true then d.resetMft.buildAndSubmit s o now
    else d.submitUnit s o.feed now
  else if s.isKeyframe then d.buildAndSubmit s o now
  else d.requestKeyframe now

/-- `Submit`; `now` is the clock that `RequestKeyframe` reads. -/
def submit (d : H264Decoder) (s : VideoSample) (o : Outcome) (now : ℤ) : H264Decoder :=
  let d := { d with samplesSubmitted := d.samplesSubmitted + 1 }
  if s.annexb = [] then d else d.submitSample s o now

end H264Decoder

end OpenDisplay.Video.Decoder
