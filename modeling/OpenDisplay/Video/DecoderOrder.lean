import OpenDisplay.Video.DecoderTimes

/-!
# The order of decoded units

A transform may be given up with units that it has not emitted, and an output may show nothing; but the
units of the frames that are shown, followed by those that are still in the transform, are always some
of the samples submitted, in their order (`inLine_run`).
-/

namespace OpenDisplay.Video.DecoderOrder

open OpenDisplay.Net.Session OpenDisplay.Video.Decoder OpenDisplay.Video.DecoderMonitor
open OpenDisplay.Video.DecoderTimes
open OpenDisplay.Video.DecoderDiscipline (Submission)

/-- The units of the frames shown, oldest first, and then those in the transform. -/
def Line.units (l : Line) : List VideoSample := (l.decoded.map Prod.snd).reverse ++ l.outstanding

/-- The units are some of `samples`, in their order. -/
structure InLine (samples : List VideoSample) (w : Watched Line) : Prop where
  emitted : w.2.emitted ≤ w.2.accepted.length
  order : (Line.units w.2).Sublist samples

variable {samples : List VideoSample} {w : Watched Line} {s : VideoSample}

theorem InLine.congr {d d' : H264Decoder} {l : Line} (h : InLine samples (d, l)) : InLine samples (d', l) :=
  ⟨h.emitted, h.order⟩

theorem InLine.snoc (h : InLine samples w) (s : VideoSample) : InLine (samples ++ [s]) w :=
  ⟨h.emitted, h.order.trans (List.sublist_append_left _ _)⟩

theorem InLine.frame (h : InLine samples w) (out : Output) :
    InLine samples ({ w.1.publishNv12 out with
      framesDecoded := (w.1.publishNv12 out).framesDecoded + 1 }, inOrder.output w.1 out w.2) := by
  obtain ⟨d, l⟩ := w
  simp only [inOrder]
  cases hunit : l.accepted[l.emitted]? with
  | none => exact ⟨h.emitted, h.order⟩
  | some unit =>
    cases hbuffer : out.hasBuffer with
    | false => exact ⟨h.emitted, h.order⟩
    | true =>
      obtain ⟨hlt, hget⟩ := List.getElem?_eq_some_iff.1 hunit
      have hcons : l.outstanding = unit :: l.accepted.drop (l.emitted + 1) := by
        rw [Line.outstanding, List.drop_eq_getElem_cons hlt, hget]
      refine ⟨hlt, List.Sublist.trans ?_ h.order⟩
      unfold Line.units
      dsimp only
      rw [hcons, Line.outstanding]
      dsimp only
      rcases shown_cases d out with ⟨hshown, -⟩ | ⟨f, hshown, -⟩
      · rw [hshown]
        exact (List.sublist_cons_self _ _).append_left _
      · -- the unit moves from the transform to the frames
        rw [hshown]
        simp

theorem InLine.accept (h : InLine samples w) (s : VideoSample) :
    InLine (samples ++ [s]) (inOrder.accept w s) := by
  obtain ⟨d, l⟩ := w
  have houtstanding : (l.accepted ++ [s]).drop l.emitted = l.outstanding ++ [s] :=
    List.drop_append_of_le_length h.emitted
  refine ⟨?_, ?_⟩
  · change l.emitted ≤ (l.accepted ++ [s]).length
    rw [List.length_append]
    exact Nat.le_add_right_of_le h.emitted
  · change ((l.decoded.map Prod.snd).reverse ++ (l.accepted ++ [s]).drop l.emitted).Sublist _
    rw [houtstanding, ← List.append_assoc]
    exact h.order.append (List.Sublist.refl [s])

theorem InLine.released {d d' : H264Decoder} {l : Line} (h : InLine samples (d, l)) :
    InLine samples (d', inOrder.released l) := by
  refine ⟨Nat.le_refl 0, List.Sublist.trans ?_ h.order⟩
  change ((l.decoded.map Prod.snd).reverse ++ []).Sublist (Line.units l)
  exact (List.nil_sublist _).append_left _

/-! ## A submission

The sample is accepted once at most, so it is enough that the samples behind the submission include it. -/

theorem inLine_drainTurns (stop : Stop) : ∀ {w : Watched Line} (ts : List Turn), InLine samples w →
    InLine samples (inOrder.drainTurns w stop ts).1
  | _, [], h => h
  | _, .frame out :: ts, h => inLine_drainTurns stop ts (h.frame out)
  | w, .streamChange types sampleSize size :: ts, h => by
    rw [Monitor.drainTurns]
    split
    · exact inLine_drainTurns stop ts h.congr
    · exact h

theorem inLine_drainOutput (o : Drain) (h : InLine samples w) :
    InLine samples (inOrder.drainOutput w o).1 := inLine_drainTurns o.stop o.turns h

theorem inLine_processInput (o : FeedOutcome) (h : InLine samples w) :
    InLine samples (inOrder.processInput w o).1 := by
  have hdrain := inLine_drainOutput o.retryDrain h
  unfold Monitor.processInput
  split
  · rcases hd : inOrder.drainOutput w o.retryDrain with ⟨w', _ | _⟩
    · rw [hd] at hdrain
      exact hdrain
    · rw [hd] at hdrain
      exact hdrain
  · exact h

theorem inLine_feedAccessUnit (o : FeedOutcome) (h : InLine samples w) :
    InLine (samples ++ [s]) (inOrder.feedAccessUnit w s o).1 := by
  have hfed : InLine samples (w.1.record (.fed w.1.mft s), w.2) := h.congr
  have hinput := inLine_processInput o hfed
  unfold Monitor.feedAccessUnit
  split
  case isFalse => exact h.snoc s
  rcases hp : inOrder.processInput (w.1.record (.fed w.1.mft s), w.2) o with ⟨w', _ | r⟩
  · rw [hp] at hinput
    exact hinput.snoc s
  · rw [hp] at hinput
    have hleft : InLine (samples ++ [s]) ({ w'.1 with fedCount := w'.1.fedCount + 1 }, w'.2) :=
      (hinput.snoc s).congr
    cases r with
    | accepted => exact inLine_drainOutput o.drain (hinput.accept s)
    | notAccepting => exact hleft
    | failed => exact hleft

theorem inLine_submitUnit (o : FeedOutcome) (now : ℤ) (h : InLine samples w) :
    InLine (samples ++ [s]) (inOrder.submitUnit w s o now) := by
  have hset : InLine samples (w.1.setVisible s, w.2) := h.congr
  have hfeed := inLine_feedAccessUnit (s := s) o hset
  unfold Monitor.submitUnit
  rcases hres : inOrder.feedAccessUnit (w.1.setVisible s, w.2) s o with ⟨w', _ | _⟩
  · rw [hres] at hfeed
    exact hfeed.released
  · rw [hres] at hfeed
    exact hfeed

theorem inLine_buildAndSubmit (o : Outcome) (now : ℤ) (h : InLine samples w) :
    InLine (samples ++ [s]) (inOrder.buildAndSubmit w s o now) := by
  unfold Monitor.buildAndSubmit
  split
  · exact inLine_submitUnit o.feed now h.released
  · exact h.released.snoc s

theorem inLine_submit (x : Submission) (h : InLine samples w) :
    InLine (samples ++ [x.sample]) (inOrder.submit w x) := by
  have hcount : InLine samples ({ w.1 with samplesSubmitted := w.1.samplesSubmitted + 1 }, w.2) := h.congr
  unfold Monitor.submit
  dsimp only
  split
  case isTrue => exact hcount.snoc x.sample
  unfold Monitor.submitSample
  split
  · split
    · exact inLine_buildAndSubmit x.outcome x.now hcount.released
    · exact inLine_submitUnit x.outcome.feed x.now hcount
  · split
    · exact inLine_buildAndSubmit x.outcome x.now hcount
    · exact (hcount.snoc x.sample).congr

/-- **The units are in the order of submission**, whatever the transforms do. -/
theorem inLine_run (xs : List Submission) :
    InLine (xs.map (·.sample)) (inOrder.run (initial, Line.fresh) xs) := by
  induction xs using List.reverseRecOn with
  | nil => exact ⟨Nat.le_refl 0, List.nil_sublist _⟩
  | append_singleton xs x ih =>
    rw [Monitor.run, List.foldl_append, List.map_append]
    exact inLine_submit x ih

end OpenDisplay.Video.DecoderOrder
