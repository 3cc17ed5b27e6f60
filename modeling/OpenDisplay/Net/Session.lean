import OpenDisplay.Protocol.Framing
import OpenDisplay.Protocol.AnnexB

/-! # The session: the read loop

`readIteration` is one pass of `Session::ReadLoop`: the `closed_` test, one `recv`, the liveness test,
the ping, and then either the new bytes (`Feed`, and `dispatchFrame` for each frame) or the end of the
connection. What the environment decides in a pass (the result of `recv`, the clock readings, whether
another thread has closed the session) is an `Iteration`; the calls that the loop makes are a list of
`ReadEvent`s, one for each `Feed` and each frame.

The control parser is a parameter `parseControl` with messages in `μ`. -/

namespace OpenDisplay.Net.Session

open OpenDisplay.Protocol.Framing OpenDisplay.Protocol.AnnexB OpenDisplay.Lib.Separator

/-- `VideoSample`: one access unit with 4-byte start codes. -/
structure VideoSample where
  annexb : List UInt8
  sps : List UInt8
  pps : List UInt8
  captureMs : ℤ
  sendMs : ℤ
  arrivalMs : ℤ
  isKeyframe : Bool
  deriving DecidableEq

/-- A call of a callback for a frame. -/
inductive Callback (μ : Type) where
  | onControl (msg : μ)
  | onVideo (sample : VideoSample)
  deriving DecidableEq

/-- What a pass of the read loop does. -/
inductive ReadEvent (μ : Type) where
  | ping
  | feed (bytes : List UInt8)
  /-- The body of the loop over the frames, with the callback that is called for it. -/
  | frame (bytes : List UInt8) (callback : Option (Callback μ))
  | onClosed (cleanClose : Bool)
  deriving DecidableEq

/-- Why the loop ended. -/
inductive EndReason where
  | closed
  | livenessTimeout
  | corruptFrame
  | peerClosed
  | recvFailed
  deriving DecidableEq

/-- `cleanClose`, the argument of `onClosed`. -/
def EndReason.cleanClose : EndReason → Bool
  | .closed => true
  | .livenessTimeout => false
  | .corruptFrame => false
  | .peerClosed => true
  | .recvFailed => false

/-- A result of `recv`: bytes, end of stream, `WSAETIMEDOUT`/`WSAEWOULDBLOCK`, another error. -/
inductive RecvResult where
  | data (bytes : List UInt8)
  | eof
  | timedOut
  | failed

/-- `kLivenessTimeoutMs`. -/
def kLivenessTimeoutMs : ℤ := 5000

/-- `kPingIntervalMs`. -/
def kPingIntervalMs : ℤ := 2000

/-- The bytes of a sample: the SPS, the PPS and the VCL NALUs, each behind a start code. -/
def annexbOf (vf : VideoFrame) : List UInt8 :=
  (if vf.sps = [] then [] else startCode ++ vf.sps) ++
    (if vf.pps = [] then [] else startCode ++ vf.pps) ++ weave startCode vf.vclNalus

/-- The sample built from a parsed frame. -/
def sampleOf (vf : VideoFrame) (arrivalMs : ℤ) : VideoSample where
  annexb := annexbOf vf
  sps := vf.sps
  pps := vf.pps
  captureMs := vf.captureMs
  sendMs := vf.sendMs
  arrivalMs := arrivalMs
  isKeyframe := vf.isKeyframe

/-- The data of a session that its read loop touches. -/
structure ReadState where
  decoder : FrameDecoder
  lastDataMs : ℤ
  lastPingMs : ℤ
  framesReceived : UInt64
  bytesReceived : UInt64

/-- What the environment contributes to one pass: `closed_` at the top of the loop, the result of
`recv`, the clock behind it, the clock in the data branch, and the clock at each dispatched frame. -/
structure Iteration where
  closed : Bool
  recv : RecvResult
  now : ℤ
  dataNow : ℤ
  arrival : ℕ → ℤ

/-- What one pass leaves: the state, the events, and the reason if the loop ended. -/
structure PassResult (μ : Type) where
  state : ReadState
  events : List (ReadEvent μ)
  ended : Option EndReason

variable {μ : Type} (parseControl : List UInt8 → Option μ)

/-- The body of the loop over the frames of one `Feed`: `framesReceived_` and the callback made. -/
def dispatchFrame (framesReceived : UInt64) (arrivalMs : ℤ) (frame : List UInt8) :
    UInt64 × Option (Callback μ) :=
  if isControlJson frame then (framesReceived, (parseControl frame).map .onControl)
  else
    let vf := parseAnnexB frame
    if vf.isEmpty then (framesReceived, none)
    else (framesReceived + 1, some (.onVideo (sampleOf vf arrivalMs)))

/-- The loop over the frames of one `Feed`; `k` counts the frames before. -/
def dispatchFrames (arrival : ℕ → ℤ) :
    ℕ → UInt64 → List (List UInt8) → UInt64 × List (ReadEvent μ)
  | _, n, [] => (n, [])
  | k, n, frame :: frames =>
    let r := dispatchFrame parseControl n (arrival k) frame
    let rs := dispatchFrames arrival (k + 1) r.1 frames
    (rs.1, .frame frame r.2 :: rs.2)

/-- The data branch of a pass. -/
def readData (st : ReadState) (it : Iteration) (bytes : List UInt8) : PassResult μ :=
  let r := st.decoder.feed bytes
  let st := { st with
    decoder := r.decoder
    lastDataMs := it.dataNow
    bytesReceived := st.bytesReceived + .ofNat bytes.length }
  if r.valid then
    let d := dispatchFrames parseControl it.arrival 0 st.framesReceived r.contents
    ⟨{ st with framesReceived := d.1 }, .feed bytes :: d.2, none⟩
  else ⟨st, [.feed bytes], some .corruptFrame⟩

/-- One pass of `Session::ReadLoop`. -/
def readIteration (st : ReadState) (it : Iteration) : PassResult μ :=
  if it.closed then ⟨st, [], some .closed⟩
  else if kLivenessTimeoutMs < it.now - st.lastDataMs then ⟨st, [], some .livenessTimeout⟩
  else
    let ping := decide (kPingIntervalMs ≤ it.now - st.lastPingMs)
    let st := if ping then { st with lastPingMs := it.now } else st
    let pings : List (ReadEvent μ) := if ping then [.ping] else []
    match it.recv with
    | .data bytes =>
      let r := readData parseControl st it bytes
      { r with events := pings ++ r.events }
    | .eof => ⟨st, pings, some .peerClosed⟩
    | .timedOut => ⟨st, pings, none⟩
    | .failed => ⟨st, pings, some .recvFailed⟩

/-- `Session::ReadLoop` over the passes the environment allows; `none` while it is still running. -/
def readLoop (st : ReadState) : List Iteration → PassResult μ
  | [] => ⟨st, [], none⟩
  | it :: its =>
    let r := readIteration parseControl st it
    match r.ended with
    | some reason => { r with events := r.events ++ [.onClosed reason.cleanClose] }
    | none =>
      let rs := readLoop r.state its
      { rs with events := r.events ++ rs.events }

/-! ## The calls of a run -/

/-- The chunks that went into `Feed`. -/
def feeds (events : List (ReadEvent μ)) : List (List UInt8) :=
  events.filterMap fun
    | .feed bytes => some bytes
    | .ping | .frame .. | .onClosed _ => none

/-- The callback without the clock of the receiver. -/
def Callback.timeless : Callback μ → Callback μ
  | .onControl msg => .onControl msg
  | .onVideo v => .onVideo { v with arrivalMs := 0 }

/-- The frames that the loop went through, each with its callback. -/
def frames (events : List (ReadEvent μ)) : List (List UInt8 × Option (Callback μ)) :=
  events.filterMap fun
    | .frame bytes callback => some (bytes, callback.map .timeless)
    | .ping | .feed _ | .onClosed _ => none

/-- The callback that is due for a frame: `onControl` for what `ParseControlMessage` makes of a control
frame, `onVideo` for what `ParseAnnexB` makes of another one. -/
def due (frame : List UInt8) : Option (Callback μ) :=
  if isControlJson frame = true then (parseControl frame).map .onControl
  else if (parseAnnexB frame).isEmpty = true then none
  else some (.onVideo (sampleOf (parseAnnexB frame) 0))

/-! ## The branches of a pass -/

/-- The state behind the ping. -/
def pinged (st : ReadState) (it : Iteration) : ReadState :=
  if kPingIntervalMs ≤ it.now - st.lastPingMs then { st with lastPingMs := it.now } else st

/-- The ping. -/
def pings (st : ReadState) (it : Iteration) : List (ReadEvent μ) :=
  if kPingIntervalMs ≤ it.now - st.lastPingMs then [.ping] else []

/-- The pass finds the last data older than the liveness timeout. -/
def Late (st : ReadState) (it : Iteration) : Prop := kLivenessTimeoutMs < it.now - st.lastDataMs

instance (st : ReadState) (it : Iteration) : Decidable (Late st it) := by
  unfold Late
  infer_instance

variable {parseControl} {st : ReadState} {it : Iteration} {its : List Iteration}

theorem parse_of_onControl {n : UInt64} {arrivalMs : ℤ} {frame : List UInt8} {msg : μ}
    (h : (dispatchFrame parseControl n arrivalMs frame).2 = some (.onControl msg)) :
    isControlJson frame = true ∧ parseControl frame = some msg := by
  unfold dispatchFrame at h
  split_ifs at h with hjson
  · obtain ⟨m, hparse, hm⟩ := Option.map_eq_some_iff.1 h
    obtain rfl := Callback.onControl.inj hm
    exact ⟨hjson, hparse⟩
  · dsimp only at h
    split_ifs at h
    cases h

theorem sample_of_onVideo {n : UInt64} {arrivalMs : ℤ} {frame : List UInt8} {v : VideoSample}
    (h : (dispatchFrame parseControl n arrivalMs frame).2 = some (.onVideo v)) :
    v = sampleOf (parseAnnexB frame) arrivalMs := by
  unfold dispatchFrame at h
  split_ifs at h with hjson
  · obtain ⟨m, -, hm⟩ := Option.map_eq_some_iff.1 h
    cases hm
  · dsimp only at h
    split_ifs at h
    exact (Callback.onVideo.inj (Option.some.inj h)).symm

theorem timeless_dispatchFrame (n : UInt64) (arrivalMs : ℤ) (frame : List UInt8) :
    (dispatchFrame parseControl n arrivalMs frame).2.map .timeless = due parseControl frame := by
  unfold dispatchFrame due
  split_ifs with hjson hempty
  · rw [Option.map_map]
    rfl
  · dsimp only
    rw [if_pos hempty]
    rfl
  · dsimp only
    rw [if_neg hempty]
    rfl

theorem frames_dispatchFrames (arrival : ℕ → ℤ) : ∀ (fs : List (List UInt8)) (k : ℕ) (n : UInt64),
    frames (dispatchFrames parseControl arrival k n fs).2 = fs.map fun f => (f, due parseControl f)
  | [], _, _ => rfl
  | f :: fs, k, n => by
    have ih := frames_dispatchFrames arrival fs (k + 1) (dispatchFrame parseControl n (arrival k) f).1
    have hhead : (dispatchFrame parseControl n (arrival k) f).2.map .timeless = due parseControl f :=
      timeless_dispatchFrame n (arrival k) f
    rw [dispatchFrames, List.map_cons, ← ih, ← hhead]
    rfl

theorem feeds_dispatchFrames (arrival : ℕ → ℤ) : ∀ (fs : List (List UInt8)) (k : ℕ) (n : UInt64),
    feeds (dispatchFrames parseControl arrival k n fs).2 = []
  | [], _, _ => rfl
  | f :: fs, k, n => by
    rw [dispatchFrames]
    exact feeds_dispatchFrames arrival fs (k + 1) _

theorem feeds_append (a b : List (ReadEvent μ)) : feeds (a ++ b) = feeds a ++ feeds b :=
  List.filterMap_append

theorem frames_append (a b : List (ReadEvent μ)) : frames (a ++ b) = frames a ++ frames b :=
  List.filterMap_append

@[simp] theorem feeds_pings : feeds (pings st it : List (ReadEvent μ)) = [] := by
  unfold pings
  split <;> rfl

@[simp] theorem frames_pings : frames (pings st it : List (ReadEvent μ)) = [] := by
  unfold pings
  split <;> rfl

@[simp] theorem decoder_pinged : (pinged st it).decoder = st.decoder := by
  unfold pinged
  split <;> rfl

@[simp] theorem lastDataMs_pinged : (pinged st it).lastDataMs = st.lastDataMs := by
  unfold pinged
  split <;> rfl

@[simp] theorem framesReceived_pinged : (pinged st it).framesReceived = st.framesReceived := by
  unfold pinged
  split <;> rfl

theorem readIteration_closed (hc : it.closed = true) :
    readIteration parseControl st it = ⟨st, [], some .closed⟩ := by
  simp [readIteration, hc]

theorem readIteration_late (hc : it.closed = false) (hl : Late st it) :
    readIteration parseControl st it = ⟨st, [], some .livenessTimeout⟩ := by
  unfold Late at hl
  simp [readIteration, hc, hl]

theorem readIteration_data {bytes : List UInt8} (hc : it.closed = false) (hl : ¬Late st it)
    (hr : it.recv = .data bytes) :
    readIteration parseControl st it =
      { readData parseControl (pinged st it) it bytes with
        events := pings st it ++ (readData parseControl (pinged st it) it bytes).events } := by
  unfold Late at hl
  simp [readIteration, hc, hl, hr, pinged, pings]

theorem readIteration_eof (hc : it.closed = false) (hl : ¬Late st it) (hr : it.recv = .eof) :
    readIteration parseControl st it = ⟨pinged st it, pings st it, some .peerClosed⟩ := by
  unfold Late at hl
  simp [readIteration, hc, hl, hr, pinged, pings]

theorem readIteration_timedOut (hc : it.closed = false) (hl : ¬Late st it)
    (hr : it.recv = .timedOut) :
    readIteration parseControl st it = ⟨pinged st it, pings st it, none⟩ := by
  unfold Late at hl
  simp [readIteration, hc, hl, hr, pinged, pings]

theorem readIteration_failed (hc : it.closed = false) (hl : ¬Late st it) (hr : it.recv = .failed) :
    readIteration parseControl st it = ⟨pinged st it, pings st it, some .recvFailed⟩ := by
  unfold Late at hl
  simp [readIteration, hc, hl, hr, pinged, pings]

theorem ended_readData (bytes : List UInt8) :
    (readData parseControl st it bytes).ended =
      if (st.decoder.feed bytes).valid then none else some .corruptFrame := by
  unfold readData
  split <;> simp_all

@[simp] theorem decoder_readData (bytes : List UInt8) :
    (readData parseControl st it bytes).state.decoder = (st.decoder.feed bytes).decoder := by
  simp only [readData]
  split <;> rfl

@[simp] theorem lastDataMs_readData (bytes : List UInt8) :
    (readData parseControl st it bytes).state.lastDataMs = it.dataNow := by
  simp only [readData]
  split <;> rfl

theorem feeds_readData (bytes : List UInt8) :
    feeds (readData parseControl st it bytes).events = [bytes] := by
  unfold readData
  dsimp only
  split
  · exact congrArg (bytes :: ·) (feeds_dispatchFrames _ _ _ _)
  · rfl

theorem frames_readData (bytes : List UInt8) :
    frames (readData parseControl st it bytes).events =
      if (st.decoder.feed bytes).valid then
        (st.decoder.feed bytes).contents.map fun f => (f, due parseControl f)
      else [] := by
  unfold readData
  dsimp only
  split
  · exact frames_dispatchFrames _ _ _ _
  · rfl

/-! ## The first pass of a run -/

theorem readLoop_goes (h : (readIteration parseControl st it).ended = none) :
    readLoop parseControl st (it :: its) =
      { readLoop parseControl (readIteration parseControl st it).state its with
        events := (readIteration parseControl st it).events ++
          (readLoop parseControl (readIteration parseControl st it).state its).events } := by
  rw [readLoop, h]

theorem readLoop_ends {reason : EndReason} (h : (readIteration parseControl st it).ended = some reason) :
    readLoop parseControl st (it :: its) =
      ⟨(readIteration parseControl st it).state,
        (readIteration parseControl st it).events ++ [.onClosed reason.cleanClose], some reason⟩ := by
  rw [readLoop, h]

end OpenDisplay.Net.Session
