import OpenDisplay.Video.DecoderDiscipline

/-!
# When a submission asks for a keyframe

What the calls of the transform return decides whether `FeedAccessUnit` succeeds; `Asks` says, from
that and from the state before, whether `Submit` reaches `RequestKeyframe`.  The requests of a
decoder are the pair `kf` of the limiter's stamp and the times let through, and one submission
changes it by at most one attempt of the limiter (`kf_submit`).
-/

namespace OpenDisplay.Video.DecoderRequests

open OpenDisplay.Lib.RateLimit OpenDisplay.Net.Session
open OpenDisplay.Video.Decoder OpenDisplay.Video.DecoderDiscipline

/-! ## What the transform answers -/

/-- `DrainOutput` returns true. -/
def turnsSucceed (stop : Stop) : List Turn → Bool
  | [] => decide (stop ≠ .failed)
  | .frame _ :: ts => turnsSucceed stop ts
  | .streamChange types _ _ :: ts => setOutputNv12 types && turnsSucceed stop ts

def drainSucceeds (o : Drain) : Bool := turnsSucceed o.stop o.turns

/-- `ProcessInput` accepts the sample, at once or after the outputs are drained. -/
def inputSucceeds (o : FeedOutcome) : Bool :=
  if o.input = .notAccepting then drainSucceeds o.retryDrain && decide (o.retryInput = .accepted)
  else decide (o.input = .accepted)

/-- `FeedAccessUnit` returns true. -/
def feedSucceeds (o : FeedOutcome) : Bool := o.prepared && inputSucceeds o && drainSucceeds o.drain

/-- `SetupMft` returns true. -/
def setupSucceeds (o : Outcome) : Bool := o.hardware.usable || o.software.usable

/-- A step of the submission fails, or there is no transform for a sample that is not a keyframe. -/
def SampleAsks (d : H264Decoder) (s : VideoSample) (o : Outcome) : Prop :=
  if d.mftReady = true then
    if d.Changed s ∧ s.isKeyframe = true then (setupSucceeds o && feedSucceeds o.feed) = false
    else feedSucceeds o.feed = false
  else s.isKeyframe = true → (setupSucceeds o && feedSucceeds o.feed) = false

instance (d : H264Decoder) (s : VideoSample) (o : Outcome) : Decidable (SampleAsks d s o) := by
  unfold SampleAsks
  infer_instance

/-- `Submit` reaches `RequestKeyframe`. -/
def Asks (d : H264Decoder) (s : VideoSample) (o : Outcome) : Prop :=
  s.annexb ≠ [] ∧ SampleAsks d s o

instance (d : H264Decoder) (s : VideoSample) (o : Outcome) : Decidable (Asks d s o) := by
  unfold Asks
  infer_instance

variable {d : H264Decoder} {s : VideoSample} {now : ℤ}

theorem snd_drainTurns (stop : Stop) : ∀ (d : H264Decoder) (ts : List Turn),
    (d.drainTurns stop ts).2 = turnsSucceed stop ts
  | _, [] => rfl
  | _, .frame _ :: ts => snd_drainTurns stop _ ts
  | d, .streamChange types sampleSize size :: ts => by
    unfold H264Decoder.drainTurns turnsSucceed
    split
    · rename_i h
      rw [h, Bool.true_and]
      exact snd_drainTurns stop _ ts
    · rename_i h
      simp [h]

theorem snd_drainOutput (o : Drain) : (d.drainOutput o).2 = drainSucceeds o :=
  snd_drainTurns o.stop d o.turns

theorem snd_processInput (o : FeedOutcome) :
    decide ((d.processInput o).2 = some .accepted) = inputSucceeds o := by
  have hdrain := snd_drainOutput (d := d) o.retryDrain
  unfold H264Decoder.processInput inputSucceeds
  split
  · split
    case h_1 d' he =>
      rw [he] at hdrain
      simp [← hdrain]
    case h_2 d' he =>
      rw [he] at hdrain
      simp [← hdrain]
  · simp

theorem snd_feedAccessUnit (o : FeedOutcome) : (d.feedAccessUnit s o).2 = feedSucceeds o := by
  have hinput := snd_processInput (d := d.record (.fed d.mft s)) o
  unfold H264Decoder.feedAccessUnit feedSucceeds
  split
  · rename_i hprep
    rw [hprep, Bool.true_and, ← hinput]
    split
    case h_1 d' he => simp [he]
    case h_2 d' he =>
      rw [he]
      simpa using snd_drainOutput (d := d'.accept s) o.drain
    case h_3 d' r hne he =>
      have hr : r ≠ .accepted := by
        rintro rfl
        exact hne rfl
      simp [he, hr]
  · rename_i hprep
    simp [hprep]

theorem snd_setupMft (o : Outcome) : (d.setupMft o).2 = setupSucceeds o := by
  unfold H264Decoder.setupMft setupSucceeds
  cases hh : o.hardware.usable <;> cases hs : o.software.usable <;>
    simp [H264Decoder.tryCandidates, hh, hs]

/-! ## The requests -/

/-- The limiter's stamp and the times that it let through. -/
def kf (d : H264Decoder) : ℤ × List ℤ := (d.lastKfRequestMs, requests d.trace)

/-- An attempt at `now`. -/
def attempt (p : ℤ × List ℤ) (now : ℤ) : ℤ × List ℤ :=
  if Blocked kfIntervalMs p.1 now then p else (now, now :: p.2)

theorem attempt_blocked (h : Blocked kfIntervalMs d.lastKfRequestMs now) :
    attempt (kf d) now = kf d :=
  if_pos h

theorem attempt_open (h : ¬Blocked kfIntervalMs d.lastKfRequestMs now) :
    attempt (kf d) now = (now, now :: requests d.trace) :=
  if_neg h

theorem kf_requestKeyframe : kf (d.requestKeyframe now) = attempt (kf d) now := by
  unfold H264Decoder.requestKeyframe attempt kf
  split
  · rfl
  · rfl

theorem kf_eq_of_control {c : Control} (h : control d = c) :
    kf d = (c.lastKfRequestMs, requests c.trace) := by
  rw [← h]
  rfl

theorem kf_feedAccessUnit (o : FeedOutcome) : kf (d.feedAccessUnit s o).1 = kf d := by
  rcases control_feedAccessUnit (d := d) (s := s) o with ⟨-, h⟩ | ⟨-, h | ⟨n, h⟩⟩
  · exact kf_eq_of_control h
  · exact kf_eq_of_control h
  · exact kf_eq_of_control h

theorem kf_setupMft (o : Outcome) : kf (d.setupMft o).1 = kf d := by
  rcases control_setupMft (d := d) o with ⟨-, m, -, h⟩ | ⟨-, mft, n, -, h⟩
  · exact kf_eq_of_control h
  · exact kf_eq_of_control h

theorem kf_submitUnit (o : FeedOutcome) :
    kf (d.submitUnit s o now) =
      if feedSucceeds o = false then attempt (kf d) now else kf d := by
  have hsnd := snd_feedAccessUnit (d := d.setVisible s) (s := s) o
  have hkf := kf_feedAccessUnit (d := d.setVisible s) (s := s) o
  have hvis : kf (d.setVisible s) = kf d := kf_eq_of_control control_setVisible
  rw [hvis] at hkf
  unfold H264Decoder.submitUnit
  split
  case h_1 d' he =>
    rw [he] at hsnd hkf
    rw [if_neg (by simp [← hsnd])]
    exact hkf
  case h_2 d' he =>
    rw [he] at hsnd hkf
    rw [if_pos hsnd.symm, kf_requestKeyframe]
    exact congrArg (attempt · now) hkf

theorem kf_buildAndSubmit (o : Outcome) :
    kf (d.buildAndSubmit s o now) =
      if (setupSucceeds o && feedSucceeds o.feed) = false then attempt (kf d) now else kf d := by
  have hsnd := snd_setupMft (d := d) o
  have hkf := kf_setupMft (d := d) o
  unfold H264Decoder.buildAndSubmit
  split
  case h_1 d' he =>
    rw [he] at hsnd hkf
    have hrem : kf (d'.remember s) = kf d := hkf
    rw [kf_submitUnit, hrem, ← hsnd, Bool.true_and]
  case h_2 d' he =>
    rw [he] at hsnd hkf
    have hrec : kf (d'.record .failed) = kf d := hkf
    rw [kf_requestKeyframe, hrec, ← hsnd, Bool.false_and, if_pos rfl]

theorem kf_submitSample (o : Outcome) :
    kf (d.submitSample s o now) = if SampleAsks d s o then attempt (kf d) now else kf d := by
  unfold H264Decoder.submitSample
  by_cases hready : d.mftReady = true
  · rw [if_pos hready]
    by_cases hc : d.Changed s ∧ s.isKeyframe = true
    · have hasks : SampleAsks d s o ↔ (setupSucceeds o && feedSucceeds o.feed) = false := by
        unfold SampleAsks
        rw [if_pos hready, if_pos hc]
      have hreset : kf d.resetMft = kf d := rfl
      rw [if_pos hc, kf_buildAndSubmit, hreset, if_congr hasks rfl rfl]
    · have hasks : SampleAsks d s o ↔ feedSucceeds o.feed = false := by
        unfold SampleAsks
        rw [if_pos hready, if_neg hc]
      rw [if_neg hc, kf_submitUnit, if_congr hasks rfl rfl]
  · rw [if_neg hready]
    by_cases hk : s.isKeyframe = true
    · have hasks : SampleAsks d s o ↔ (setupSucceeds o && feedSucceeds o.feed) = false := by
        unfold SampleAsks
        rw [if_neg hready]
        simp [hk]
      rw [if_pos hk, kf_buildAndSubmit, if_congr hasks rfl rfl]
    · have hasks : SampleAsks d s o := by
        unfold SampleAsks
        rw [if_neg hready]
        intro hk'
        exact absurd hk' hk
      rw [if_neg hk, kf_requestKeyframe, if_pos hasks]

/-- **One submission makes at most one attempt**, exactly if it asks. -/
theorem kf_submit (d : H264Decoder) (s : VideoSample) (o : Outcome) (now : ℤ) :
    kf (d.submit s o now) = if Asks d s o then attempt (kf d) now else kf d := by
  unfold H264Decoder.submit
  by_cases hempty : s.annexb = []
  · have hasks : ¬Asks d s o := fun h => h.1 hempty
    rw [if_pos hempty, if_neg hasks]
    rfl
  · have hasks : Asks d s o ↔ SampleAsks { d with samplesSubmitted := d.samplesSubmitted + 1 } s o :=
      and_iff_right hempty
    rw [if_neg hempty, kf_submitSample, if_congr hasks rfl rfl]
    rfl

end OpenDisplay.Video.DecoderRequests
