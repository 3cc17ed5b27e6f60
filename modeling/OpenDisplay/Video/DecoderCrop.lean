import OpenDisplay.Video.DecoderMonitor

/-!
# The crop belongs to the running stream

`visibleW_` and `visibleH_` are either 0 or the size in the SPS of the keyframe that the current
transform was built from: a keyframe with another SPS builds a new transform, and a reset clears
them.  The monitor `publications` records each frame with the decoder that publishes it, and `Good`
says what holds of them.
-/

namespace OpenDisplay.Video.DecoderCrop

open OpenDisplay.Net.Session OpenDisplay.Protocol.Sps
open OpenDisplay.Video.Decoder OpenDisplay.Video.DecoderMonitor
open OpenDisplay.Video.DecoderDiscipline (Submission Control control control_publishNv12
  control_setVisible control_setupMft)

/-- The frames given to `onFrame`, newest first, each with the decoder as it publishes it. -/
def publications : Monitor (List (H264Decoder × DecodedFrame)) where
  output d out g := (shown d out).map (d, ·) ++ g
  accepted _ g := g
  released g := g

/-- The event brings up a transform. -/
def IsBuilt : Event → Prop
  | .built _ _ => True
  | _ => False

/-- **`k` is the keyframe from which the current transform was built**: the last transform brought up
is the current one, and it was brought up for `k`. -/
def BuiltFrom (d : H264Decoder) (k : VideoSample) : Prop :=
  d.mft ≠ none ∧ k.isKeyframe = true ∧
    ∃ later earlier, d.trace = later ++ .built d.mft k :: earlier ∧ ∀ e ∈ later, ¬ IsBuilt e

/-- The visible size is unknown, or that of the SPS. -/
def VisibleOf (sps : List UInt8) (d : H264Decoder) : Prop :=
  (d.visibleW = 0 ∧ d.visibleH = 0) ∨ parseSpsDimensions sps = some ⟨d.visibleW, d.visibleH⟩

/-- A transform is up for the keyframe `k`. -/
structure Running (k : VideoSample) (d : H264Decoder) : Prop where
  built : BuiltFrom d k
  lastSps : d.lastSps = k.sps
  visible : VisibleOf k.sps d

/-- One side of the crop: inside the coded extent, and what is left is the visible extent where that
is known and fits. -/
def CropOf (visible coded cropped : ℤ) : Prop :=
  0 ≤ cropped ∧ cropped ≤ coded - 1 ∧ (0 < visible → visible ≤ coded → coded - cropped = visible)

/-- **A frame that is published well.** -/
def Good (d : H264Decoder) (f : DecodedFrame) : Prop :=
  (∃ k, BuiltFrom d k ∧ VisibleOf k.sps d) ∧ CropOf d.visibleW f.width f.cropRight ∧
    CropOf d.visibleH f.height f.cropBottom

theorem cropOf_crop (visible : ℤ) {coded : ℤ} (h : 0 < coded) :
    CropOf visible coded (H264Decoder.crop visible coded) := by
  unfold H264Decoder.crop
  split
  case isTrue hfits => exact ⟨by omega, by omega, fun _ _ => by omega⟩
  case isFalse hno => exact ⟨by omega, by omega, fun hpos hle => absurd ⟨hpos, hle⟩ hno⟩

/-! ### The steps of a feed -/

variable {k : VideoSample} {d d' : H264Decoder}

/-- The transform, the trace, the SPS and the visible size are all that it is about. -/
theorem Running.congr (h : Running k d) (hcontrol : control d' = control d)
    (hw : d'.visibleW = d.visibleW) (hh : d'.visibleH = d.visibleH) : Running k d' := by
  have hmft : d'.mft = d.mft := congrArg Control.mft hcontrol
  have htrace : d'.trace = d.trace := congrArg Control.trace hcontrol
  have hsps : d'.lastSps = d.lastSps := congrArg Control.lastSps hcontrol
  refine ⟨?_, hsps.trans h.lastSps, ?_⟩
  · rw [BuiltFrom, hmft, htrace]
    exact h.built
  · rw [VisibleOf, hw, hh]
    exact h.visible

theorem Running.fed (h : Running k d) (s : VideoSample) : Running k (d.record (.fed d.mft s)) := by
  obtain ⟨⟨hmft, hkey, later, earlier, htrace, hlater⟩, hsps, hvisible⟩ := h
  refine ⟨⟨hmft, hkey, .fed d.mft s :: later, earlier, ?_, fun e he => ?_⟩, hsps, hvisible⟩
  · rw [H264Decoder.record, htrace]
    rfl
  · rcases List.mem_cons.1 he with rfl | he
    · exact id
    · exact hlater e he

theorem visible_publishNv12 (d : H264Decoder) (out : Output) :
    (d.publishNv12 out).visibleW = d.visibleW ∧ (d.publishNv12 out).visibleH = d.visibleH := by
  unfold H264Decoder.publishNv12
  repeat' split
  all_goals exact ⟨rfl, rfl⟩

/-- The transform is up, and every frame so far was published well. -/
structure Fine (k : VideoSample) (w : Watched (List (H264Decoder × DecodedFrame))) : Prop where
  running : Running k w.1
  frames : w.2.map Prod.snd = w.1.frames
  good : ∀ p ∈ w.2, Good p.1 p.2

/-- **A feed keeps it.** -/
theorem kept_fine (k : VideoSample) : publications.Kept (Fine k) where
  frame {w} out h := by
    obtain ⟨hw, hh⟩ := visible_publishNv12 w.1 out
    have hrunning := h.running.congr (control_publishNv12 (d := w.1) out) hw hh
    rcases shown_cases w.1 out with
      ⟨hshown, hsame⟩ | ⟨f, hshown, hnew, -, hwidth, hheight, hright, hbottom⟩
    · refine ⟨hrunning.congr rfl rfl rfl, ?_, ?_⟩
      · simp only [publications, hshown, List.map_nil, List.nil_append]
        exact h.frames.trans hsame.symm
      · simpa only [publications, hshown, List.map_nil, List.nil_append] using h.good
    · have hf : Good w.1 f := by
        refine ⟨⟨k, h.running.built, h.running.visible⟩, ?_, ?_⟩
        · rw [hright]
          exact cropOf_crop _ hwidth
        · rw [hbottom]
          exact cropOf_crop _ hheight
      refine ⟨hrunning.congr rfl rfl rfl, ?_, ?_⟩
      · simp only [publications, hshown, List.map_cons, List.map_nil, List.singleton_append]
        rw [hnew, h.frames]
      · intro p hp
        simp only [publications, hshown, List.map_cons, List.map_nil, List.singleton_append] at hp
        rcases List.mem_cons.1 hp with rfl | hp
        · exact hf
        · exact h.good p hp
  change _ _ h := ⟨h.running.congr rfl rfl rfl, h.frames, h.good⟩
  fed s h := ⟨h.running.fed s, h.frames, h.good⟩
  accept _ h := ⟨⟨h.running.built, h.running.lastSps, h.running.visible⟩, h.frames, h.good⟩
  count h := ⟨h.running.congr rfl rfl rfl, h.frames, h.good⟩

/-! ### A submission -/

/-- **The state between two submissions.** -/
structure Inv (w : Watched (List (H264Decoder × DecodedFrame))) : Prop where
  ready : w.1.mftReady = true → ∃ k, Running k w.1
  idle : w.1.mftReady = false → w.1.visibleW = 0 ∧ w.1.visibleH = 0
  frames : w.2.map Prod.snd = w.1.frames
  good : ∀ p ∈ w.2, Good p.1 p.2

theorem Running.setVisible (h : Running k d) {s : VideoSample}
    (hsame : s.isKeyframe = true → s.sps ≠ [] → s.sps = k.sps) : Running k (d.setVisible s) := by
  unfold H264Decoder.setVisible
  split
  case isTrue hsps =>
    split
    case h_1 dims hparse =>
      refine ⟨h.built, h.lastSps, .inr ?_⟩
      rw [← hsame hsps.1 hsps.2]
      exact hparse
    case h_2 => exact h
  case isFalse => exact h

theorem inv_requestKeyframe {g : List (H264Decoder × DecodedFrame)} (hready : d.mftReady = false)
    (hvisible : d.visibleW = 0 ∧ d.visibleH = 0) (hframes : g.map Prod.snd = d.frames)
    (hgood : ∀ p ∈ g, Good p.1 p.2) (now : ℤ) : Inv (d.requestKeyframe now, g) := by
  obtain ⟨last, trace, hreq⟩ := requestKeyframe_eq d now
  rw [hreq]
  exact ⟨fun h => absurd (hready.symm.trans h) Bool.false_ne_true, fun _ => hvisible, hframes, hgood⟩

theorem inv_submitUnit {w : Watched (List (H264Decoder × DecodedFrame))}
    (hready : w.1.mftReady = true) (h : Fine k w) {s : VideoSample}
    (hsame : s.isKeyframe = true → s.sps ≠ [] → s.sps = k.sps) (o : FeedOutcome) (now : ℤ) :
    Inv (publications.submitUnit w s o now) := by
  obtain ⟨d, g⟩ := w
  have hframes : (d.setVisible s).frames = d.frames := by
    obtain ⟨visibleW, visibleH, hvis⟩ := setVisible_eq d s
    rw [hvis]
  have hvisible : (d.setVisible s).mftReady = d.mftReady :=
    congrArg Control.mftReady control_setVisible
  have hfine : Fine k (d.setVisible s, g) :=
    ⟨h.running.setVisible hsame, h.frames.trans hframes.symm, h.good⟩
  have hfeed := (kept_fine k).feedAccessUnit s o hfine
  have hstill := publications.mftReady_feedAccessUnit (d.setVisible s, g) s o
  unfold Monitor.submitUnit
  rcases hres : publications.feedAccessUnit (d.setVisible s, g) s o with ⟨⟨d', g'⟩, _ | _⟩
  · -- the reset clears the visible size
    rw [hres] at hfeed
    have hreset : (({ d' with decoderErrors := d'.decoderErrors + 1 }.record .failed).resetMft).mftReady
        = false := rfl
    exact inv_requestKeyframe hreset ⟨rfl, rfl⟩ hfeed.frames hfeed.good now
  · rw [hres] at hfeed hstill
    have hup : d'.mftReady = true := hstill.trans (hvisible.trans hready)
    refine ⟨fun _ => ⟨k, hfeed.running⟩, fun hidle => ?_, hfeed.frames, hfeed.good⟩
    rw [show d'.mftReady = false from hidle] at hup
    cases hup

theorem inv_buildAndSubmit {w : Watched (List (H264Decoder × DecodedFrame))} {s : VideoSample}
    (hready : w.1.mftReady = false) (h : Inv w) (hkey : s.isKeyframe = true) (o : Outcome)
    (now : ℤ) : Inv (publications.buildAndSubmit w s o now) := by
  obtain ⟨d, g⟩ := w
  have hcontrol := control_setupMft (d := d) o
  obtain ⟨mft, nextMft, sampleSize, mftReady, hwDecoder, hsetup⟩ := setupMft_eq d o
  unfold Monitor.buildAndSubmit
  rcases hres : d.setupMft o with ⟨d', up⟩
  rw [hres] at hcontrol hsetup
  obtain ⟨hw, hh⟩ := h.idle hready
  have hvisible : d'.visibleW = 0 ∧ d'.visibleH = 0 := by
    rw [show d' = _ from hsetup]
    exact ⟨hw, hh⟩
  have hframes : g.map Prod.snd = d'.frames := by
    rw [show d' = _ from hsetup]
    exact h.frames
  cases up with
  | false =>
    have hdown : (d'.record .failed).mftReady = false := by
      rcases hcontrol with ⟨hup, -⟩ | ⟨-, m, n, -, hcontrol⟩
      · cases hup
      · exact (congrArg Control.mftReady hcontrol).trans hready
    exact inv_requestKeyframe hdown hvisible hframes h.good now
  | true =>
    obtain ⟨m, hcontrol⟩ : ∃ m, control d' =
        { control d with mft := some m, nextMft := m + 1, mftReady := true } := by
      rcases hcontrol with ⟨-, m, -, hcontrol⟩ | ⟨hno, -⟩
      · exact ⟨m, hcontrol⟩
      · cases hno
    have hmft : d'.mft = some m := congrArg Control.mft hcontrol
    have hup : (d'.remember s).mftReady = true := congrArg Control.mftReady hcontrol
    have hbuilt : BuiltFrom (d'.remember s) s :=
      ⟨(by rw [show (d'.remember s).mft = some m from hmft]; exact Option.some_ne_none m), hkey,
        [], d'.trace, rfl, fun _ he => by cases he⟩
    have hfine : Fine s (d'.remember s, g) := ⟨⟨hbuilt, rfl, .inl hvisible⟩, hframes, h.good⟩
    exact inv_submitUnit hup hfine (fun _ _ => rfl) o.feed now

theorem inv_submitSample {w : Watched (List (H264Decoder × DecodedFrame))} (h : Inv w)
    (s : VideoSample) (o : Outcome) (now : ℤ) : Inv (publications.submitSample w s o now) := by
  unfold Monitor.submitSample
  split
  case isTrue hready =>
    obtain ⟨k, hrunning⟩ := h.ready hready
    split
    case isTrue hchanged =>
      have hreset : Inv (w.1.resetMft, publications.released w.2) :=
        ⟨(fun hr => by cases hr), fun _ => ⟨rfl, rfl⟩, h.frames, h.good⟩
      exact inv_buildAndSubmit rfl hreset hchanged.2 o now
    case isFalse hsame =>
      refine inv_submitUnit hready ⟨hrunning, h.frames, h.good⟩ (fun hkey hne => ?_) o.feed now
      -- a keyframe with another SPS would have changed the stream
      by_contra hdiffers
      rw [← hrunning.lastSps] at hdiffers
      exact hsame ⟨.inl ⟨hne, hdiffers⟩, hkey⟩
  case isFalse hready =>
    have hidle : w.1.mftReady = false := Bool.eq_false_iff.2 hready
    split
    case isTrue hkey => exact inv_buildAndSubmit hidle h hkey o now
    case isFalse => exact inv_requestKeyframe hidle (h.idle hidle) h.frames h.good now

/-- **One submission.** -/
theorem inv_submit {w : Watched (List (H264Decoder × DecodedFrame))} (h : Inv w)
    (x : Submission) : Inv (publications.submit w x) := by
  have hcount : Inv ({ w.1 with samplesSubmitted := w.1.samplesSubmitted + 1 }, w.2) :=
    ⟨fun hr => (h.ready hr).imp fun _ hk => hk.congr rfl rfl rfl, h.idle, h.frames, h.good⟩
  unfold Monitor.submit
  dsimp only
  split
  · exact hcount
  · exact inv_submitSample hcount x.sample x.outcome x.now

theorem inv_initial : Inv (initial, []) :=
  ⟨(fun h => by cases h), fun _ => ⟨rfl, rfl⟩, rfl, fun _ hp => by cases hp⟩

/-- **The crop always belongs to the running stream.**  For every run of submissions and every
behaviour of the transforms: `publications` lists the frames given to `onFrame`, and whenever one is
published, the visible size is 0 by 0 or that of the SPS of the keyframe from which the current
transform was built; and each side of the crop lies in the coded picture, and leaves the visible
extent where that is positive and fits. -/
theorem crop_belongs (xs : List Submission) :
    let w := publications.run (initial, []) xs
    w.1 = DecoderDiscipline.run initial xs ∧ w.2.map Prod.snd = w.1.frames ∧
      ∀ p ∈ w.2, Good p.1 p.2 := by
  have h := Monitor.run_invariant inv_submit inv_initial xs
  exact ⟨publications.fst_run (initial, []) xs, h.frames, h.good⟩

end OpenDisplay.Video.DecoderCrop
