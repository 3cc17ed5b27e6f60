import Mathlib.Data.List.NodupEquivFin
import OpenDisplay.App.PresentOrder
import OpenDisplay.App.QueueHistory
import OpenDisplay.Video.DecoderOrder

/-!
# From the socket to the screen

The read threads push samples into the queue, the decode thread pops them and submits them to the
decoder, and the presentation loop shows the frames that come out.  The queue may drop samples, the
decoder may refuse them or lose them with a transform, and the loop may skip frames; what is left is in
the order of arrival (`presented_follow_pushes`).
-/

namespace OpenDisplay.App.ScreenOrder

open OpenDisplay.App.PresentLoop OpenDisplay.App.PresentOrder OpenDisplay.App.QueueHistory
open OpenDisplay.Lib.Transition OpenDisplay.Net.Session
open OpenDisplay.Render.Present (InitOutcome)
open OpenDisplay.Render.PresentRuns (onePicture)
open OpenDisplay.Video.DecoderMonitor OpenDisplay.Video.DecoderOrder OpenDisplay.Video.DecoderTimes
open OpenDisplay.Video.DecoderDiscipline (Submission)

/-- The frames of the decoder with the samples that they were decoded from, oldest first. -/
def decodedFrom (xs : List Submission) : List (Video.Decoder.DecodedFrame × VideoSample) :=
  (inOrder.run (Video.Decoder.initial, Line.fresh) xs).2.decoded.reverse

/-- The transforms of the run emit their outputs in the order in which they took the samples. -/
def Obeys (xs : List Submission) : Prop :=
  (inOrder.run (Video.Decoder.initial, Line.fresh) xs).2.obeys = true

instance (xs : List Submission) : Decidable (Obeys xs) := by
  unfold Obeys
  infer_instance

variable {xs : List Submission}

theorem matches_of_obeys (h : Obeys xs) :
    (decodedFrom xs).map Prod.fst = framesOf xs ∧
      ∀ p ∈ decodedFrom xs, p.1.captureMs = p.2.captureMs ∧ p.1.arrivalMs = p.2.arrivalMs := by
  have hobeying := (Monitor.run_invariant inv_submit inv_initial xs).obeying h
  refine ⟨?_, fun p hp => Prod.mk.inj (hobeying.times p (List.mem_reverse.1 hp))⟩
  unfold decodedFrom framesOf
  rw [List.map_reverse, hobeying.frames, inOrder.fst_run]

theorem decodedFrom_sublist (xs : List Submission) :
    ((decodedFrom xs).map Prod.snd).Sublist (xs.map (·.sample)) := by
  have horder := (inLine_run xs).order
  unfold decodedFrom
  rw [List.map_reverse]
  exact (List.sublist_append_left _ _).trans horder

theorem popped_sublist_pushed {α : Type*} (capacity : ℕ) (hc : 0 < capacity) (cs : List (Call α)) :
    (((History.start capacity hc).run cs).popped.map Prod.fst).Sublist
      ((History.start capacity hc).run cs).pushed := by
  have hinv := (inv_start capacity hc).run cs
  have hpopped := hinv.popped_sublist.trans (List.take_sublist _ _)
  have hmap := hpopped.map Prod.fst
  unfold History.numbered at hmap
  rwa [List.zipIdx_map_fst] at hmap

/-- **What is presented follows the order of arrival.** Whatever the queue drops, the decoder refuses and
the loop skips: the frames that are presented come from samples that were pushed, each frame from a later
sample than the frame before it, with the times of that sample. -/
theorem presented_follow_pushes {capacity : ℕ} {hc : 0 < capacity} {cs : List (Call VideoSample)}
    (hpops : xs.map (·.sample) <+: ((History.start capacity hc).run cs).popped.map Prod.fst)
    (hobeys : Obeys xs) {w hh : ℤ} {o : InitOutcome} {st : Loop}
    (h : Reaches step (Admits xs) (initial (Render.Present.initial.init w hh o)) st) :
    ∃ push : ℕ ↪o ℕ,
      (∀ c ∈ st.calls, ∀ v ∈ c.frame, ∃ s,
        ((History.start capacity hc).run cs).pushed[push v.number]? = some s ∧
          (v.frame, s) ∈ decodedFrom xs ∧ v.frame.captureMs = s.captureMs ∧
          v.frame.arrivalMs = s.arrivalMs) ∧
      InOrder st.calls ∧ (drawn st.renderer).Sublist (requested st.calls) := by
  obtain ⟨hframes, htimes⟩ := matches_of_obeys hobeys
  have hscreen := onScreen_of_reaches h
  have hsublist := ((decodedFrom_sublist xs).trans hpops.sublist).trans (popped_sublist_pushed capacity hc cs)
  obtain ⟨push, hpush⟩ := List.sublist_iff_exists_orderEmbedding_getElem?_eq.1 hsublist
  refine ⟨push, ?_, (ordered_of_reaches h).2.calls, hscreen.drawn⟩
  intro c hc' v hv
  have hframe := hscreen.framesOf hc' hv
  rw [← hframes, List.getElem?_map, Option.map_eq_some_iff] at hframe
  obtain ⟨p, hp, hfst⟩ := hframe
  obtain ⟨hcapture, harrival⟩ := htimes p (List.mem_of_getElem? hp)
  refine ⟨p.2, ?_, ?_, ?_, ?_⟩
  · rw [← hpush, List.getElem?_map, hp, Option.map_some]
  · rw [← hfst]
    exact List.mem_of_getElem? hp
  · rw [← hfst]
    exact hcapture
  · rw [← hfst]
    exact harrival

/-- The sample of `onePicture`. -/
def keyframe : VideoSample := Video.DecoderDiscipline.unit 1 true

/-- Four samples, the second of which the queue drops. -/
def oneDropped : List (Call VideoSample) :=
  [.push keyframe, .popWait, .push keyframe, .push keyframe, .push keyframe, .popWait, .popWait]

theorem presented_follow_pushes_oneDropped :
    ∃ (st : Loop) (push : ℕ ↪o ℕ), exec step (initial ready) threeFrames = some st ∧
      (∀ c ∈ st.calls, ∀ v ∈ c.frame, ∃ s,
        ((History.start 2 (by decide)).run oneDropped).pushed[push v.number]? = some s ∧
          (v.frame, s) ∈ decodedFrom (onePicture ++ onePicture ++ onePicture) ∧
          v.frame.captureMs = s.captureMs ∧ v.frame.arrivalMs = s.arrivalMs) ∧
      InOrder st.calls ∧ (drawn st.renderer).Sublist (requested st.calls) := by
  have hmeets : Meets step (Admits (onePicture ++ onePicture ++ onePicture)) (initial ready) threeFrames := by
    decide +kernel
  have hpops : (onePicture ++ onePicture ++ onePicture).map (·.sample) <+:
      ((History.start 2 (by decide)).run oneDropped).popped.map Prod.fst := ⟨[], rfl⟩
  obtain ⟨push, hpush⟩ := presented_follow_pushes hpops (by decide) (reaches_of_exec threeFrames hmeets rfl)
  exact ⟨_, push, rfl, hpush⟩

end OpenDisplay.App.ScreenOrder
