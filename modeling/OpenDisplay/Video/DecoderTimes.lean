import OpenDisplay.Video.DecoderMonitor

/-!
# Decoded frames keep their timestamps

`inOrder` follows a transform that emits its outputs in the order in which it accepted the access
units, none skipped: the k-th output decodes the k-th unit.  `obeys` turns false when the transform
does otherwise, has more than 64 units outstanding or hands out an output without a readable buffer.
As long as it does not, `captureTimes_` is the queue of the times of the outstanding units, and each
frame has the times of the unit that it decodes.
-/

namespace OpenDisplay.Video.DecoderTimes

open OpenDisplay.Net.Session OpenDisplay.Video.Decoder OpenDisplay.Video.DecoderMonitor
open OpenDisplay.Video.DecoderDiscipline (Submission Control control_feedAccessUnit control_setVisible
  control_setupMft answering unit)

/-- What is known of the current transform: the units it has accepted and the number of outputs it
has emitted; and, of all of them, the frames published, newest first, with the units they decode. -/
structure Line where
  accepted : List VideoSample
  emitted : ℕ
  decoded : List (DecodedFrame × VideoSample)
  obeys : Bool

def Line.fresh : Line := ⟨[], 0, [], true⟩

/-- The units accepted but not yet emitted. -/
def Line.outstanding (l : Line) : List VideoSample := l.accepted.drop l.emitted

/-- The outputs come in the order of the units. -/
def inOrder : Monitor Line where
  output d out l :=
    match l.accepted[l.emitted]?, out.hasBuffer with
    | some unit, true =>
      { l with
        emitted := l.emitted + 1
        decoded := (shown d out).map (·, unit) ++ l.decoded }
    | _, _ => { l with obeys := false }
  accepted s l :=
    { l with
      accepted := l.accepted ++ [s]
      obeys := l.obeys && decide (l.outstanding.length + 1 ≤ 64) }
  released l := { l with accepted := [], emitted := 0 }

/-- `(captureMs, arrivalMs)`. -/
def unitTimes (s : VideoSample) : ℤ × ℤ := (s.captureMs, s.arrivalMs)

/-- **The queue is that of the outstanding units**, and the frames have the times of their units. -/
structure Matches (w : Watched Line) : Prop where
  emitted : w.2.emitted ≤ w.2.accepted.length
  queue : w.1.captureTimes = w.2.outstanding.map unitTimes
  few : w.2.outstanding.length ≤ 64
  frames : w.2.decoded.map Prod.fst = w.1.frames
  times : ∀ p ∈ w.2.decoded, (p.1.captureMs, p.1.arrivalMs) = unitTimes p.2

/-- They match as long as the transforms obey. -/
def Obeying (w : Watched Line) : Prop := w.2.obeys = true → Matches w

/-! ### The steps of a feed -/

theorem obeying_frame {w : Watched Line} (out : Output) (h : Obeying w) :
    Obeying ({ w.1.publishNv12 out with
      framesDecoded := (w.1.publishNv12 out).framesDecoded + 1 }, inOrder.output w.1 out w.2) := by
  obtain ⟨d, l⟩ := w
  intro hobeys
  simp only [inOrder] at hobeys ⊢
  cases hunit : l.accepted[l.emitted]? with
  | none => simp [hunit] at hobeys
  | some unit =>
    cases hbuffer : out.hasBuffer with
    | false => simp [hunit, hbuffer] at hobeys
    | true =>
      simp only [hunit, hbuffer] at hobeys ⊢
      obtain ⟨-, hqueue, hfew, hframes, htimes⟩ := h hobeys
      dsimp only at hqueue hfew hframes htimes
      -- the unit is the first of the outstanding ones, and its times head the queue
      obtain ⟨hlt, hget⟩ := List.getElem?_eq_some_iff.1 hunit
      have hcons : l.outstanding = unit :: l.accepted.drop (l.emitted + 1) := by
        rw [Line.outstanding, List.drop_eq_getElem_cons hlt, hget]
      have hpop : d.popCaptureTime =
          (unitTimes unit, (l.accepted.drop (l.emitted + 1)).map unitTimes) := by
        rw [hcons, List.length_cons] at hfew
        rw [H264Decoder.popCaptureTime, hqueue, hcons, List.map_cons]
        dsimp only
        rw [if_neg (by rw [List.length_map]; omega)]
      have hrest := (publishNv12_spec (d := d) hbuffer).1
      rw [hpop] at hrest
      rw [hcons, List.length_cons] at hfew
      rcases shown_cases d out with ⟨hshown, hsame⟩ | ⟨f, hshown, hnew, hf, -⟩
      · rw [hshown]
        exact ⟨hlt, hrest, Nat.le_of_succ_le hfew, hframes.trans hsame.symm, htimes⟩
      · rw [hpop] at hf
        rw [hshown]
        refine ⟨hlt, hrest, Nat.le_of_succ_le hfew, ?_, ?_⟩
        · dsimp only
          rw [hnew, ← hframes]
          rfl
        · intro p hp
          rcases List.mem_cons.1 hp with rfl | hp
          · exact hf
          · exact htimes p hp

theorem obeying_accept {w : Watched Line} (s : VideoSample) (h : Obeying w) :
    Obeying (inOrder.accept w s) := by
  obtain ⟨d, l⟩ := w
  intro hobeys
  obtain ⟨hold, hfew⟩ : l.obeys = true ∧ l.outstanding.length + 1 ≤ 64 := by
    simpa [Monitor.accept, inOrder] using hobeys
  obtain ⟨hemitted, hqueue, -, hframes, htimes⟩ := h hold
  have houtstanding : (l.accepted ++ [s]).drop l.emitted = l.outstanding ++ [s] :=
    List.drop_append_of_le_length hemitted
  refine ⟨?_, ?_, ?_, hframes, htimes⟩
  · show l.emitted ≤ (l.accepted ++ [s]).length
    rw [List.length_append]
    exact Nat.le_add_right_of_le hemitted
  · show d.captureTimes ++ [unitTimes s] = ((l.accepted ++ [s]).drop l.emitted).map unitTimes
    rw [houtstanding, List.map_append, hqueue]
    rfl
  · show ((l.accepted ++ [s]).drop l.emitted).length ≤ 64
    rw [houtstanding, List.length_append]
    exact hfew

/-- `captureTimes_`, the frames and the line are all that it is about. -/
theorem Obeying.congr {d d' : H264Decoder} {l : Line} (h : Obeying (d, l))
    (hqueue : d'.captureTimes = d.captureTimes) (hframes : d'.frames = d.frames) :
    Obeying (d', l) := by
  intro hobeys
  obtain ⟨hemitted, hq, hfew, hf, htimes⟩ := h hobeys
  exact ⟨hemitted, hqueue.trans hq, hfew, hf.trans hframes.symm, htimes⟩

/-- **A feed keeps it.** -/
theorem kept_obeying : inOrder.Kept Obeying where
  frame out h := obeying_frame out h
  change _ _ h := h.congr rfl rfl
  fed _ h := h.congr rfl rfl
  accept s h := obeying_accept s h
  count h := h.congr rfl rfl

/-! ### A submission -/

theorem Obeying.released {d d' : H264Decoder} {l : Line} (h : Obeying (d, l))
    (hqueue : d'.captureTimes = []) (hframes : d'.frames = d.frames) :
    Obeying (d', inOrder.released l) := by
  intro hobeys
  obtain ⟨-, -, -, hf, htimes⟩ := h hobeys
  exact ⟨Nat.le_refl 0, hqueue, Nat.zero_le 64, hf.trans hframes.symm, htimes⟩

/-- The state between two submissions: without a transform nothing is queued. -/
structure Inv (w : Watched Line) : Prop where
  idle : w.1.mftReady = false → w.1.captureTimes = []
  obeying : Obeying w

theorem inv_submitUnit {w : Watched Line} (hready : w.1.mftReady = true) (h : Obeying w)
    (s : VideoSample) (o : FeedOutcome) (now : ℤ) : Inv (inOrder.submitUnit w s o now) := by
  obtain ⟨d, l⟩ := w
  obtain ⟨visibleW, visibleH, hvis⟩ := setVisible_eq d s
  have hset : Obeying (d.setVisible s, l) := by
    rw [hvis]
    exact h.congr rfl rfl
  have hfeed := kept_obeying.feedAccessUnit s o hset
  have hstill := inOrder.mftReady_feedAccessUnit (d.setVisible s, l) s o
  unfold Monitor.submitUnit
  rcases hres : inOrder.feedAccessUnit (d.setVisible s, l) s o with ⟨⟨d', l'⟩, _ | _⟩
  · -- the transform is released, and with it the queue
    rw [hres] at hfeed
    obtain ⟨last, trace, hreq⟩ := requestKeyframe_eq
      (({ d' with decoderErrors := d'.decoderErrors + 1 }.record .failed).resetMft) now
    dsimp only
    rw [hreq]
    exact ⟨fun _ => rfl, hfeed.released rfl rfl⟩
  · rw [hres] at hfeed hstill
    refine ⟨fun hidle => ?_, hfeed⟩
    have hvisible : (d.setVisible s).mftReady = d.mftReady :=
      congrArg Control.mftReady control_setVisible
    rw [hvisible, hready] at hstill
    rw [hstill] at hidle
    cases hidle

theorem inv_buildAndSubmit {w : Watched Line} (hidle : w.1.captureTimes = []) (h : Obeying w)
    (s : VideoSample) (o : Outcome) (now : ℤ) : Inv (inOrder.buildAndSubmit w s o now) := by
  obtain ⟨d, l⟩ := w
  have hcontrol := control_setupMft (d := d) o
  obtain ⟨hqueue, hframes⟩ : (d.setupMft o).1.captureTimes = d.captureTimes ∧
      (d.setupMft o).1.frames = d.frames := by
    obtain ⟨mft, nextMft, sampleSize, mftReady, hwDecoder, h⟩ := setupMft_eq d o
    rw [h]
    exact ⟨rfl, rfl⟩
  unfold Monitor.buildAndSubmit
  rcases hres : d.setupMft o with ⟨d', _ | _⟩
  · rw [hres] at hqueue hframes
    obtain ⟨last, trace, hreq⟩ := requestKeyframe_eq (d'.record .failed) now
    have hempty : d'.captureTimes = [] := hqueue.trans hidle
    dsimp only
    rw [hreq]
    exact ⟨fun _ => hempty, h.released hempty hframes⟩
  · rw [hres] at hqueue hframes hcontrol
    have hready : d'.mftReady = true := by
      rcases hcontrol with ⟨-, m, -, hcontrol⟩ | ⟨hno, -⟩
      · exact congrArg Control.mftReady hcontrol
      · cases hno
    have hnew : Obeying (d'.remember s, inOrder.released l) :=
      h.released (hqueue.trans hidle) hframes
    exact inv_submitUnit hready hnew s o.feed now

theorem inv_submitSample {w : Watched Line} (h : Inv w) (s : VideoSample) (o : Outcome) (now : ℤ) :
    Inv (inOrder.submitSample w s o now) := by
  obtain ⟨d, l⟩ := w
  unfold Monitor.submitSample
  split
  case isTrue hready =>
    split
    · have hreset : Obeying (d.resetMft, inOrder.released l) := h.obeying.released rfl rfl
      exact inv_buildAndSubmit rfl hreset s o now
    · exact inv_submitUnit hready h.obeying s o.feed now
  case isFalse hready =>
    have hidle : d.captureTimes = [] := h.idle (Bool.eq_false_iff.2 hready)
    split
    · exact inv_buildAndSubmit hidle h.obeying s o now
    · obtain ⟨last, trace, hreq⟩ := requestKeyframe_eq d now
      dsimp only
      rw [hreq]
      exact ⟨fun _ => hidle, h.obeying.congr rfl rfl⟩

/-- **One submission.** -/
theorem inv_submit {w : Watched Line} (h : Inv w) (x : Submission) : Inv (inOrder.submit w x) := by
  have hcount : Inv ({ w.1 with samplesSubmitted := w.1.samplesSubmitted + 1 }, w.2) :=
    ⟨h.idle, h.obeying.congr rfl rfl⟩
  unfold Monitor.submit
  dsimp only
  split
  · exact hcount
  · exact inv_submitSample hcount x.sample x.outcome x.now

theorem inv_initial : Inv (initial, Line.fresh) where
  idle _ := rfl
  obeying _ := ⟨Nat.le_refl 0, rfl, Nat.zero_le 64, rfl, fun _ hp => by cases hp⟩

/-- **Decoded frames keep their own timestamps.**  For every run of submissions: as long as the
transforms emit their outputs in the order of the accepted units, none skipped, have at most 64 units
outstanding and hand out readable buffers, `captureTimes_` holds exactly the times of the units that
the current transform has accepted and not yet emitted, and each frame given to `onFrame` has the
times of the unit that it decodes. -/
theorem frames_keep_times (xs : List Submission) :
    let w := inOrder.run (initial, Line.fresh) xs
    w.1 = DecoderDiscipline.run initial xs ∧
      (w.2.obeys = true →
        w.1.captureTimes = (w.2.accepted.drop w.2.emitted).map (fun s => (s.captureMs, s.arrivalMs)) ∧
        w.2.decoded.map Prod.fst = w.1.frames ∧
        ∀ p ∈ w.2.decoded, p.1.captureMs = p.2.captureMs ∧ p.1.arrivalMs = p.2.arrivalMs) := by
  refine ⟨inOrder.fst_run (initial, Line.fresh) xs, fun hobeys => ?_⟩
  obtain ⟨-, hqueue, -, hframes, htimes⟩ := (Monitor.run_invariant inv_submit inv_initial xs).obeying hobeys
  exact ⟨hqueue, hframes, fun p hp => Prod.mk.inj (htimes p hp)⟩

/-- The transform holds a keyframe back until it has to make room for the next unit. -/
def heldBack : List Submission :=
  [⟨{ unit 1 true with captureMs := 10, arrivalMs := 12 }, answering .accepted, 600⟩,
    ⟨{ unit 2 false with captureMs := 20, arrivalMs := 22 },
      { answering .notAccepting with
        feed := { (answering .notAccepting).feed with
          retryDrain := ⟨[.frame ⟨true, some (2, 2), some [0, 0, 0, 0, 0, 0]⟩], .needMoreInput⟩ } },
      700⟩]

theorem frames_keep_times_heldBack :
    (inOrder.run (initial, Line.fresh) heldBack).1.captureTimes = [(20, 22)] ∧
      (inOrder.run (initial, Line.fresh) heldBack).1.frames.map (·.captureMs) = [10] := by
  have hobeys : (inOrder.run (initial, Line.fresh) heldBack).2.obeys = true := by decide
  obtain ⟨hqueue, hframes, -⟩ := (frames_keep_times heldBack).2 hobeys
  refine ⟨hqueue.trans (by decide), ?_⟩
  rw [← hframes]
  decide

end OpenDisplay.Video.DecoderTimes
