import OpenDisplay.Video.DecoderMonitor

/-!
# The frames given to `onFrame`

`PublishNv12` gives away whole pictures only: both sides are positive, and the bytes are those of the
luma and the chroma plane of that size (`whole_of_run`).
-/

namespace OpenDisplay.Video.DecoderFrames

open OpenDisplay.Net.Session OpenDisplay.Video.Decoder OpenDisplay.Video.DecoderMonitor
open OpenDisplay.Protocol.Sps (int32)
open OpenDisplay.Video.DecoderDiscipline (Submission)

/-- The frame has a size, and the bytes of both planes. -/
structure Whole (f : DecodedFrame) : Prop where
  width_pos : 0 < f.width
  height_pos : 0 < f.height
  length : f.nv12.length = nv12Size f.width f.height

/-- The frames of the decoder are whole. -/
def AllWhole (d : H264Decoder) : Prop := ∀ f ∈ d.frames, Whole f

variable {d : H264Decoder}

/-- **What `PublishNv12` publishes.** -/
theorem allWhole_publishNv12 (h : AllWhole d) (out : Output) : AllWhole (d.publishNv12 out) := by
  unfold H264Decoder.publishNv12
  split
  case isFalse => exact h
  rcases d.popCaptureTime with ⟨time, rest⟩
  dsimp only
  split
  case h_1 w h' hsize =>
    dsimp only
    generalize int32 w = width, int32 h' = height
    split
    case isFalse => exact h
    case isTrue hpos =>
      split
      case h_1 => exact h
      case h_2 bytes hbytes =>
        split
        case isFalse => exact h
        case isTrue hlen =>
          intro f hf
          rcases List.mem_cons.1 hf with rfl | hf
          · exact ⟨hpos.1, hpos.2, List.length_take_of_le hlen⟩
          · exact h f hf
  case h_2 hsize =>
    rw [if_neg (by decide)]
    exact h

/-- A monitor that sees nothing. -/
def blind : Monitor Unit := ⟨fun _ _ => id, fun _ => id, id⟩

theorem kept_allWhole : blind.Kept fun w => AllWhole w.1 where
  frame out h := allWhole_publishNv12 h out
  change _ _ h := h
  fed _ h := h
  accept _ h := h
  count h := h

theorem allWhole_requestKeyframe (h : AllWhole d) (now : ℤ) : AllWhole (d.requestKeyframe now) := by
  obtain ⟨last, trace, heq⟩ := requestKeyframe_eq d now
  rw [heq]
  exact h

variable {w : Watched Unit} {s : VideoSample} {now : ℤ}

theorem allWhole_submitUnit (h : AllWhole w.1) (o : FeedOutcome) :
    AllWhole (blind.submitUnit w s o now).1 := by
  obtain ⟨vw, vh, hvisible⟩ := setVisible_eq w.1 s
  have hset : AllWhole (w.1.setVisible s) := by
    rw [hvisible]
    exact h
  have hfeed := kept_allWhole.feedAccessUnit (w := (w.1.setVisible s, w.2)) s o hset
  unfold Monitor.submitUnit
  split
  case h_1 w' he =>
    rw [he] at hfeed
    exact hfeed
  case h_2 w' he =>
    rw [he] at hfeed
    refine allWhole_requestKeyframe ?_ now
    exact hfeed

theorem allWhole_buildAndSubmit (h : AllWhole w.1) (o : Outcome) :
    AllWhole (blind.buildAndSubmit w s o now).1 := by
  obtain ⟨mft, nextMft, size, ready, hw, hsetup⟩ := setupMft_eq w.1 o
  have hset : AllWhole (w.1.setupMft o).1 := by
    rw [hsetup]
    exact h
  unfold Monitor.buildAndSubmit
  split
  case h_1 d he =>
    rw [he] at hset
    refine allWhole_submitUnit ?_ o.feed
    exact hset
  case h_2 d he =>
    rw [he] at hset
    refine allWhole_requestKeyframe ?_ now
    exact hset

theorem allWhole_submitSample (h : AllWhole w.1) (o : Outcome) :
    AllWhole (blind.submitSample w s o now).1 := by
  unfold Monitor.submitSample
  split
  · split
    · refine allWhole_buildAndSubmit ?_ o
      exact h
    · exact allWhole_submitUnit h o.feed
  · split
    · exact allWhole_buildAndSubmit h o
    · exact allWhole_requestKeyframe h now

theorem allWhole_submit (h : AllWhole w.1) (x : Submission) : AllWhole (blind.submit w x).1 := by
  unfold Monitor.submit
  dsimp only
  split
  · exact h
  · refine allWhole_submitSample ?_ x.outcome
    exact h

/-- **Every frame of every run is whole.** -/
theorem whole_of_run (xs : List Submission) {f : DecodedFrame}
    (hf : f ∈ (DecoderDiscipline.run initial xs).frames) : Whole f := by
  have h : AllWhole (blind.run (initial, ()) xs).1 :=
    Monitor.run_invariant (P := fun w : Watched Unit => AllWhole w.1) allWhole_submit
      (fun _ hm => by cases hm) xs
  rw [blind.fst_run] at h
  exact h f hf

end OpenDisplay.Video.DecoderFrames
