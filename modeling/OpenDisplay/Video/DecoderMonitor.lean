import OpenDisplay.Video.DecoderDiscipline

/-!
# The decoder under a monitor

A monitor watches what passes between the decoder and its transforms: the access units that are
accepted, the outputs that are published, and when the transform object is given up.  The functions
here are those of `Decoder` with a monitor beside the decoder; the decoder itself is not changed by
it (`fst_submit`).
-/

namespace OpenDisplay.Video.DecoderMonitor

open OpenDisplay.Net.Session OpenDisplay.Video.Decoder
open OpenDisplay.Protocol.Sps (int32)
open OpenDisplay.Video.DecoderDiscipline (Submission Control control_feedAccessUnit)

variable {γ : Type}

/-- What a monitor does with what it sees. -/
structure Monitor (γ : Type) where
  /-- The decoder is about to publish the output. -/
  output : H264Decoder → Output → γ → γ
  /-- The transform has taken the sample. -/
  accepted : VideoSample → γ → γ
  /-- The transform object is released. -/
  released : γ → γ

/-- A decoder under a monitor. -/
abbrev Watched (γ : Type) := H264Decoder × γ

namespace Monitor

variable (M : Monitor γ)

def publishNv12 (w : Watched γ) (out : Output) : Watched γ :=
  (w.1.publishNv12 out, M.output w.1 out w.2)

def drainTurns (w : Watched γ) (stop : Stop) : List Turn → Watched γ × Bool
  | [] => (w, decide (stop ≠ .failed))
  | .frame out :: ts =>
    let w := M.publishNv12 w out
    drainTurns ({ w.1 with framesDecoded := w.1.framesDecoded + 1 }, w.2) stop ts
  | .streamChange types sampleSize size :: ts =>
    if setOutputNv12 types then drainTurns (w.1.changeStream sampleSize size, w.2) stop ts
    else (w, false)

def drainOutput (w : Watched γ) (o : Drain) : Watched γ × Bool := M.drainTurns w o.stop o.turns

def processInput (w : Watched γ) (o : FeedOutcome) : Watched γ × Option InputResult :=
  if o.input = .notAccepting then
    match M.drainOutput w o.retryDrain with
    | (w, true) => (w, some o.retryInput)
    | (w, false) => (w, none)
  else (w, some o.input)

def accept (w : Watched γ) (s : VideoSample) : Watched γ := (w.1.accept s, M.accepted s w.2)

def feedAccessUnit (w : Watched γ) (s : VideoSample) (o : FeedOutcome) : Watched γ × Bool :=
  if o.prepared then
    match M.processInput (w.1.record (.fed w.1.mft s), w.2) o with
    | (w, none) => (w, false)
    | (w, some .accepted) => M.drainOutput (M.accept w s) o.drain
    | (w, some _) => (({ w.1 with fedCount := w.1.fedCount + 1 }, w.2), false)
  else (w, false)

def submitUnit (w : Watched γ) (s : VideoSample) (o : FeedOutcome) (now : ℤ) : Watched γ :=
  match M.feedAccessUnit (w.1.setVisible s, w.2) s o with
  | (w, true) => w
  | (w, false) =>
    ((({ w.1 with decoderErrors := w.1.decoderErrors + 1 }.record .failed).resetMft).requestKeyframe
      now, M.released w.2)

/-- `SetupMft` releases a transform object that is left. -/
def buildAndSubmit (w : Watched γ) (s : VideoSample) (o : Outcome) (now : ℤ) : Watched γ :=
  match w.1.setupMft o with
  | (d, true) => M.submitUnit (d.remember s, M.released w.2) s o.feed now
  | (d, false) => ((d.record .failed).requestKeyframe now, M.released w.2)

def submitSample (w : Watched γ) (s : VideoSample) (o : Outcome) (now : ℤ) : Watched γ :=
  if w.1.mftReady then
    if w.1.Changed s ∧ s.isKeyframe = true then
      M.buildAndSubmit (w.1.resetMft, M.released w.2) s o now
    else M.submitUnit w s o.feed now
  else if s.isKeyframe then M.buildAndSubmit w s o now
  else (w.1.requestKeyframe now, w.2)

def submit (w : Watched γ) (x : Submission) : Watched γ :=
  let d := { w.1 with samplesSubmitted := w.1.samplesSubmitted + 1 }
  if x.sample.annexb = [] then (d, w.2)
  else M.submitSample (d, w.2) x.sample x.outcome x.now

/-- The decoder and its monitor after a list of submissions. -/
def run (w : Watched γ) (xs : List Submission) : Watched γ := xs.foldl M.submit w

/-! ### The decoder is not changed -/

theorem fst_drainTurns (stop : Stop) : ∀ (w : Watched γ) (ts : List Turn),
    ((M.drainTurns w stop ts).1.1, (M.drainTurns w stop ts).2) = w.1.drainTurns stop ts
  | _, [] => rfl
  | w, .frame out :: ts => fst_drainTurns stop _ ts
  | w, .streamChange types sampleSize size :: ts => by
    rw [drainTurns, H264Decoder.drainTurns]
    split
    · exact fst_drainTurns stop _ ts
    · rfl

theorem fst_drainOutput (w : Watched γ) (o : Drain) :
    ((M.drainOutput w o).1.1, (M.drainOutput w o).2) = w.1.drainOutput o :=
  M.fst_drainTurns o.stop w o.turns

theorem fst_processInput (w : Watched γ) (o : FeedOutcome) :
    ((M.processInput w o).1.1, (M.processInput w o).2) = w.1.processInput o := by
  have h := M.fst_drainOutput w o.retryDrain
  unfold processInput H264Decoder.processInput
  split
  · rw [← h]
    rcases M.drainOutput w o.retryDrain with ⟨w', _ | _⟩ <;> rfl
  · rfl

theorem fst_feedAccessUnit (w : Watched γ) (s : VideoSample) (o : FeedOutcome) :
    ((M.feedAccessUnit w s o).1.1, (M.feedAccessUnit w s o).2) = w.1.feedAccessUnit s o := by
  have h := M.fst_processInput (w.1.record (.fed w.1.mft s), w.2) o
  unfold feedAccessUnit H264Decoder.feedAccessUnit
  split
  · rw [← h]
    rcases M.processInput (w.1.record (.fed w.1.mft s), w.2) o with ⟨w', _ | r⟩
    · rfl
    · cases r with
      | accepted => exact M.fst_drainOutput (M.accept w' s) o.drain
      | notAccepting => rfl
      | failed => rfl
  · rfl

theorem mftReady_feedAccessUnit (w : Watched γ) (s : VideoSample) (o : FeedOutcome) :
    (M.feedAccessUnit w s o).1.1.mftReady = w.1.mftReady := by
  have hfst := congrArg Prod.fst (M.fst_feedAccessUnit w s o)
  refine (congrArg H264Decoder.mftReady hfst).trans ?_
  rcases control_feedAccessUnit (d := w.1) (s := s) o with ⟨-, h⟩ | ⟨-, h | ⟨n, h⟩⟩
  · exact congrArg Control.mftReady h
  · exact congrArg Control.mftReady h
  · exact congrArg Control.mftReady h

theorem fst_submitUnit (w : Watched γ) (s : VideoSample) (o : FeedOutcome) (now : ℤ) :
    (M.submitUnit w s o now).1 = w.1.submitUnit s o now := by
  have h := M.fst_feedAccessUnit (w.1.setVisible s, w.2) s o
  unfold submitUnit H264Decoder.submitUnit
  rw [← h]
  rcases M.feedAccessUnit (w.1.setVisible s, w.2) s o with ⟨w', _ | _⟩ <;> rfl

theorem fst_buildAndSubmit (w : Watched γ) (s : VideoSample) (o : Outcome) (now : ℤ) :
    (M.buildAndSubmit w s o now).1 = w.1.buildAndSubmit s o now := by
  unfold buildAndSubmit H264Decoder.buildAndSubmit
  rcases w.1.setupMft o with ⟨d, _ | _⟩
  · rfl
  · exact M.fst_submitUnit (d.remember s, M.released w.2) s o.feed now

theorem fst_submitSample (w : Watched γ) (s : VideoSample) (o : Outcome) (now : ℤ) :
    (M.submitSample w s o now).1 = w.1.submitSample s o now := by
  unfold submitSample H264Decoder.submitSample
  split
  · split
    · exact M.fst_buildAndSubmit (w.1.resetMft, M.released w.2) s o now
    · exact M.fst_submitUnit w s o.feed now
  · split
    · exact M.fst_buildAndSubmit w s o now
    · rfl

theorem fst_submit (w : Watched γ) (x : Submission) :
    (M.submit w x).1 = w.1.submit x.sample x.outcome x.now := by
  unfold submit H264Decoder.submit
  dsimp only
  split
  · rfl
  · exact M.fst_submitSample _ x.sample x.outcome x.now

/-- **The monitored run is the run.** -/
theorem fst_run (w : Watched γ) (xs : List Submission) :
    (M.run w xs).1 = DecoderDiscipline.run w.1 xs := by
  induction xs generalizing w with
  | nil => rfl
  | cons x xs ih =>
    rw [run, List.foldl_cons, ← run, ih, fst_submit]
    rfl

/-! ### What a monitored feed keeps -/

/-- The steps of `FeedAccessUnit` keep `P`. -/
structure Kept (P : Watched γ → Prop) : Prop where
  frame {w : Watched γ} (out : Output) (h : P w) :
    P ({ w.1.publishNv12 out with framesDecoded := (w.1.publishNv12 out).framesDecoded + 1 },
      M.output w.1 out w.2)
  change {w : Watched γ} (sampleSize : Option ℕ) (size : Option (ℕ × ℕ)) (h : P w) :
    P (w.1.changeStream sampleSize size, w.2)
  fed {w : Watched γ} (s : VideoSample) (h : P w) : P (w.1.record (.fed w.1.mft s), w.2)
  accept {w : Watched γ} (s : VideoSample) (h : P w) : P (M.accept w s)
  count {w : Watched γ} (h : P w) : P ({ w.1 with fedCount := w.1.fedCount + 1 }, w.2)

variable {M} {P : Watched γ → Prop} (hP : M.Kept P)
include hP

theorem Kept.drainTurns (stop : Stop) : ∀ {w : Watched γ} (ts : List Turn), P w →
    P (M.drainTurns w stop ts).1
  | _, [], h => h
  | _, .frame out :: ts, h => Kept.drainTurns stop ts (hP.frame out h)
  | w, .streamChange types sampleSize size :: ts, h => by
    rw [Monitor.drainTurns]
    split
    · exact Kept.drainTurns stop ts (hP.change sampleSize size h)
    · exact h

theorem Kept.drainOutput {w : Watched γ} (o : Drain) (h : P w) : P (M.drainOutput w o).1 :=
  hP.drainTurns o.stop o.turns h

theorem Kept.processInput {w : Watched γ} (o : FeedOutcome) (h : P w) :
    P (M.processInput w o).1 := by
  have hdrain := hP.drainOutput o.retryDrain h
  unfold Monitor.processInput
  split
  · rcases hd : M.drainOutput w o.retryDrain with ⟨w', _ | _⟩ <;> rw [hd] at hdrain <;>
      exact hdrain
  · exact h

/-- **A feed keeps what its steps keep.** -/
theorem Kept.feedAccessUnit {w : Watched γ} (s : VideoSample) (o : FeedOutcome) (h : P w) :
    P (M.feedAccessUnit w s o).1 := by
  have hinput := hP.processInput o (hP.fed s h)
  unfold Monitor.feedAccessUnit
  split
  · rcases hp : M.processInput (w.1.record (.fed w.1.mft s), w.2) o with ⟨w', _ | r⟩
    · rw [hp] at hinput
      exact hinput
    · rw [hp] at hinput
      cases r with
      | accepted => exact hP.drainOutput o.drain (hP.accept s hinput)
      | notAccepting => exact hP.count hinput
      | failed => exact hP.count hinput
  · exact h

omit hP in
/-- **The rule for runs.** -/
theorem run_invariant (hstep : ∀ {w : Watched γ}, P w → ∀ x, P (M.submit w x)) {w : Watched γ} (h : P w)
    (xs : List Submission) : P (M.run w xs) := by
  induction xs generalizing w with
  | nil => exact h
  | cons x xs ih => exact ih (hstep h x)

end Monitor

/-! ### What the other steps change -/

theorem setVisible_eq (d : H264Decoder) (s : VideoSample) :
    ∃ w h, d.setVisible s = { d with visibleW := w, visibleH := h } := by
  unfold H264Decoder.setVisible
  split
  · split
    · exact ⟨_, _, rfl⟩
    · exact ⟨_, _, rfl⟩
  · exact ⟨_, _, rfl⟩

theorem requestKeyframe_eq (d : H264Decoder) (now : ℤ) : ∃ lastKfRequestMs trace,
    d.requestKeyframe now = { d with lastKfRequestMs := lastKfRequestMs, trace := trace } := by
  unfold H264Decoder.requestKeyframe
  split
  · exact ⟨_, _, rfl⟩
  · exact ⟨_, _, rfl⟩

theorem setupMft_eq (d : H264Decoder) (o : Outcome) :
    ∃ mft nextMft sampleSize mftReady hwDecoder, (d.setupMft o).1 =
      { d with
        mft := mft
        nextMft := nextMft
        sampleSize := sampleSize
        mftReady := mftReady
        hwDecoder := hwDecoder } := by
  unfold H264Decoder.setupMft
  generalize [(true, o.hardware), (false, o.software)] = cs
  induction cs generalizing d with
  | nil => exact ⟨_, _, _, _, _, rfl⟩
  | cons c cs ih =>
    have hcreate : ∃ mft nextMft,
        d.create c.2 = { d with mft := mft, nextMft := nextMft } := by
      unfold H264Decoder.create
      split <;> exact ⟨_, _, rfl⟩
    obtain ⟨mft, nextMft, hcreate⟩ := hcreate
    rw [H264Decoder.tryCandidates, hcreate]
    split
    · exact ⟨_, _, _, _, _, rfl⟩
    · obtain ⟨mft', nextMft', sampleSize, mftReady, hwDecoder, h⟩ :=
        ih { d with mft := mft, nextMft := nextMft }
      exact ⟨_, _, _, _, _, h⟩

/-! ### What is published -/

/-- The frame that an output gives, if any. -/
def shown (d : H264Decoder) (out : Output) : List DecodedFrame :=
  (d.publishNv12 out).frames.take ((d.publishNv12 out).frames.length - d.frames.length)

/-- **`PublishNv12` on a readable buffer**: it takes the head of the queue, and the frame that it
gives to `onFrame`, if any, has the times of that head and is cropped to the visible size. -/
theorem publishNv12_spec {d : H264Decoder} {out : Output} (h : out.hasBuffer = true) :
    (d.publishNv12 out).captureTimes = d.popCaptureTime.2 ∧
      ((d.publishNv12 out).frames = d.frames ∨
        ∃ f, (d.publishNv12 out).frames = f :: d.frames ∧
          (f.captureMs, f.arrivalMs) = d.popCaptureTime.1 ∧ 0 < f.width ∧ 0 < f.height ∧
          f.cropRight = H264Decoder.crop d.visibleW f.width ∧
          f.cropBottom = H264Decoder.crop d.visibleH f.height) := by
  unfold H264Decoder.publishNv12
  rw [if_pos h]
  rcases d.popCaptureTime with ⟨time, rest⟩
  dsimp only
  split
  case h_1 w h hsize =>
    dsimp only
    generalize int32 w = width, int32 h = height
    split
    case isTrue hpos =>
      split
      case h_1 => exact ⟨rfl, .inl rfl⟩
      case h_2 bytes hbytes =>
        split
        · exact ⟨rfl, .inr ⟨_, rfl, rfl, hpos.1, hpos.2, rfl, rfl⟩⟩
        · exact ⟨rfl, .inl rfl⟩
    case isFalse => exact ⟨rfl, .inl rfl⟩
  case h_2 hsize =>
    rw [if_neg (by decide)]
    exact ⟨rfl, .inl rfl⟩

theorem publishNv12_of_no_buffer {d : H264Decoder} {out : Output} (h : ¬ out.hasBuffer = true) :
    d.publishNv12 out = d := if_neg h

theorem shown_cases (d : H264Decoder) (out : Output) :
    shown d out = [] ∧ (d.publishNv12 out).frames = d.frames ∨
      ∃ f, shown d out = [f] ∧ (d.publishNv12 out).frames = f :: d.frames ∧
        (f.captureMs, f.arrivalMs) = d.popCaptureTime.1 ∧ 0 < f.width ∧ 0 < f.height ∧
        f.cropRight = H264Decoder.crop d.visibleW f.width ∧
        f.cropBottom = H264Decoder.crop d.visibleH f.height := by
  have hsame (h : (d.publishNv12 out).frames = d.frames) : shown d out = [] := by
    rw [shown, h, Nat.sub_self, List.take_zero]
  by_cases hbuffer : out.hasBuffer = true
  · rcases (publishNv12_spec (d := d) hbuffer).2 with h | ⟨f, h, hf⟩
    · exact .inl ⟨hsame h, h⟩
    · refine .inr ⟨f, ?_, h, hf⟩
      rw [shown, h, List.length_cons, Nat.add_sub_cancel_left]
      rfl
  · have h := congrArg H264Decoder.frames (publishNv12_of_no_buffer (d := d) hbuffer)
    exact .inl ⟨hsame h, h⟩

end OpenDisplay.Video.DecoderMonitor
