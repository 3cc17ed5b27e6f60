import OpenDisplay.Net.SessionCorrupt
import OpenDisplay.Net.SessionVideo
import OpenDisplay.Protocol.FramingArrival

/-! # The session: from the wire to the decoder

An access unit goes through `recv`, `FrameDecoder::Feed`, `ParseAnnexB` and the re-serialisation of the
read loop before `onVideo` hands it to the decoder. On its way it is changed in two places: `Feed` may
move the bytes of the next frame over it, or the read loop may drop it with an invalid `Feed`
(`Arrive`); and the sample has room for one SPS and one PPS, in front (`WireOrder`).

`handed_over_iff`: each access unit of a stream is handed over exactly once, with its NALUs in wire
order, exactly in the streams and splits in which neither happens to one of them. -/

namespace OpenDisplay.Net.SessionHandover

open OpenDisplay.Lib.Separator OpenDisplay.Protocol.AnnexB OpenDisplay.Protocol.AnnexBRoundTrip
open OpenDisplay.Protocol.Control (parseControlMessage)
open OpenDisplay.Protocol.Framing OpenDisplay.Protocol.FramingStream OpenDisplay.Protocol.FramingCorrupt
open OpenDisplay.Protocol.FramingRoundTrip OpenDisplay.Protocol.FramingArrival
open OpenDisplay.Net.Session OpenDisplay.Net.SessionLiveness OpenDisplay.Net.SessionCorrupt
open OpenDisplay.Net.SessionVideo

/-- A payload that is not control and has a media NALU. -/
def Media (payload : List UInt8) : Prop := isControlJson payload = false ∧ mediaNalus payload ≠ []

instance : DecidablePred Media := fun payload => by
  unfold Media
  infer_instance

/-- The payloads of the stream that was received. -/
def payloads (its : List Iteration) : List (List UInt8) := (parseStream (allReceived its).flatten).frames

/-- The loop goes once through the `i`-th frame, sees the payload `p` there, and calls `onVideo` with
the media NALUs of `p` in wire order, each behind a start code. -/
def HandedOver (events : List (ReadEvent Protocol.Control.ControlMessage)) (i : ℕ) (p : List UInt8) : Prop :=
  ∃ sample, (frames events)[i]? = some (p, some (.onVideo sample)) ∧
    sample.annexb = weave startCode (mediaNalus p)

variable {st : ReadState} {its : List Iteration}

/-- **Access units are handed over, exactly.**  For every stream and every split: the read loop calls
`onVideo` exactly once for each payload that is not control and has a media NALU, with its media NALUs
in wire order, if and only if these payloads arrive, and their media NALUs are at most one SPS, then at
most one PPS, then VCL NALUs, and not a lone PPS. -/
theorem handed_over_iff (hst : st.decoder = .fresh) (hrun : Delivers st.lastDataMs its) :
    (∀ i p, (payloads its)[i]? = some p → Media p →
        HandedOver (readLoop parseControlMessage st its).events i p) ↔
      Arrive Media [] (allReceived its) ∧ ∀ p ∈ payloads its, Media p → WireOrder (mediaNalus p) := by
  have hframes := (frames_readLoop parseControlMessage its st hrun).1
  have hretained : FrameDecoder.fresh.retained = [] := rfl
  have hheld : (parseStream FrameDecoder.fresh.retained).frames = [] := by
    rw [hretained, parseStream_short (by decide)]
  have hshows : Shows Media (payloads its) (delivered .fresh (allReceived its)).1 ↔
      Arrive Media [] (allReceived its) :=
    shows_iff_arrive (allReceived its) .fresh rfl (ne_nil_of_delivers its hrun) hheld
  rw [hst] at hframes
  rw [← hshows]
  -- one frame of the stream
  have hone : ∀ i p, Media p → (HandedOver (readLoop parseControlMessage st its).events i p ↔
      (delivered .fresh (allReceived its)).1[i]? = some p ∧ WireOrder (mediaNalus p)) := by
    rintro i p ⟨hjson, hne⟩
    unfold HandedOver
    rw [hframes, ← due_iff_wireOrder parseControlMessage hjson hne]
    simp only [List.getElem?_map, Option.map_eq_some_iff, Prod.mk.injEq]
    constructor
    · rintro ⟨sample, ⟨_, hshown, rfl, hdue⟩, hannexb⟩
      exact ⟨hshown, sample, hdue, hannexb⟩
    · rintro ⟨hshown, sample, hdue, hannexb⟩
      exact ⟨sample, ⟨_, hshown, rfl, hdue⟩, hannexb⟩
  constructor
  · intro h
    refine ⟨fun i p hp hm => ((hone i p hm).1 (h i p hp hm)).1, fun p hp hm => ?_⟩
    obtain ⟨i, hi⟩ := List.mem_iff_getElem?.1 hp
    exact ((hone i p hm).1 (h i p hi hm)).2
  · rintro ⟨hshown, hwire⟩ i p hp hm
    exact (hone i p hm).2 ⟨hshown i p hp hm, hwire p (List.mem_of_getElem? hp) hm⟩

/-! ## Access units in and out of order -/

/-- An SPS, a PPS and a slice. -/
def keyframe : List UInt8 := [0, 0, 0, 1, 0x67, 0xAA, 0, 0, 0, 1, 0x68, 0xCC, 0, 0, 0, 1, 0x65, 0x88]

/-- The keyframe and the ping of the sender, in two reads; the first one ends behind the length of the
ping. -/
def cleanRun : List Iteration :=
  [reads (encodeFrame keyframe ++ (encodeFrame senderPing).take 4) 10,
    reads ((encodeFrame senderPing).drop 4) 20]

theorem handed_over_iff_cleanRun :
    HandedOver (readLoop parseControlMessage started cleanRun).events 0 keyframe := by
  have hrun : Delivers started.lastDataMs cleanRun :=
    ⟨rfl, by decide, by decide +kernel, rfl, by decide, by decide +kernel, trivial⟩
  have hwire : ∀ p ∈ payloads cleanRun, Media p → WireOrder (mediaNalus p) := by
    have hpayloads : payloads cleanRun = [keyframe, senderPing] := by decide +kernel
    rw [hpayloads]
    intro p hp hm
    rcases List.mem_cons.1 hp with rfl | hp
    · exact ⟨[[0x67, 0xAA]], [[0x68, 0xCC]], [[0x65, 0x88]], by decide +kernel⟩
    · obtain rfl := List.mem_singleton.1 hp
      exact absurd hm (by decide +kernel)
  exact (handed_over_iff rfl hrun).2 ⟨by decide +kernel, hwire⟩ 0 keyframe (by decide +kernel)
    (by decide +kernel)

/-- An access unit delimiter, an SPS, two PPS and a slice. -/
def twoPps : List UInt8 :=
  [0, 0, 0, 1, 9, 16, 0, 0, 0, 1, 0x67, 0xAA, 0, 0, 0, 1, 0x68, 1, 0, 0, 0, 1, 0x68, 2, 0, 0, 0, 1, 0x65, 0x88]

/-- One read with the keyframe and a byte of the ping behind its length. -/
def disturbedRun : List Iteration :=
  [reads (encodeFrame keyframe ++ (encodeFrame senderPing).take 5) 10,
    reads ((encodeFrame senderPing).drop 5) 20]

/-- **Order and parameter sets are lost.**  The sample of an access unit delimiter, an SPS, two PPS and a
slice starts with the SPS, then the second PPS, and the delimiter follows; the first PPS is gone.  A
keyframe in the sample's order, whose first start code is overwritten with the first byte of the next
frame, is handed over without its SPS. -/
theorem handed_over_loses :
    (∃ its, Delivers started.lastDataMs its ∧ (allReceived its) = [encodeFrame twoPps] ∧
        mediaNalus twoPps = [[9, 16], [0x67, 0xAA], [0x68, 1], [0x68, 2], [0x65, 0x88]] ∧
        frames (readLoop parseControlMessage started its).events =
          [(twoPps, some (.onVideo ⟨weave startCode [[0x67, 0xAA], [0x68, 2], [9, 16], [0x65, 0x88]],
            [0x67, 0xAA], [0x68, 2], -1, -1, 0, true⟩))] ∧
        ¬HandedOver (readLoop parseControlMessage started its).events 0 twoPps) ∧
      Delivers started.lastDataMs disturbedRun ∧ WireOrder (mediaNalus keyframe) ∧
      (frames (readLoop parseControlMessage started disturbedRun).events)[0]? =
        some (123 :: keyframe.drop 1, some (.onVideo ⟨weave startCode [[0x68, 0xCC], [0x65, 0x88]],
          [], [0x68, 0xCC], -1, -1, 0, false⟩)) ∧
      ¬HandedOver (readLoop parseControlMessage started disturbedRun).events 0 keyframe := by
  have htwo : frames (readLoop parseControlMessage started [reads (encodeFrame twoPps) 10]).events =
      [(twoPps, some (.onVideo ⟨weave startCode [[0x67, 0xAA], [0x68, 2], [9, 16], [0x65, 0x88]],
        [0x67, 0xAA], [0x68, 2], -1, -1, 0, true⟩))] := by decide +kernel
  have hdisturbed : (frames (readLoop parseControlMessage started disturbedRun).events)[0]? =
      some (123 :: keyframe.drop 1, some (.onVideo ⟨weave startCode [[0x68, 0xCC], [0x65, 0x88]],
        [], [0x68, 0xCC], -1, -1, 0, false⟩)) := by decide +kernel
  refine ⟨⟨[reads (encodeFrame twoPps) 10], ⟨rfl, by decide, by decide +kernel, trivial⟩, rfl,
      by decide +kernel, htwo, ?_⟩,
    ⟨rfl, by decide, by decide +kernel, rfl, by decide, by decide +kernel, trivial⟩,
    ⟨[[0x67, 0xAA]], [[0x68, 0xCC]], [[0x65, 0x88]], by decide +kernel⟩, hdisturbed, ?_⟩
  · rintro ⟨sample, hframe, hannexb⟩
    rw [htwo] at hframe
    obtain rfl := Callback.onVideo.inj (Option.some.inj (Prod.mk.inj (Option.some.inj hframe)).2)
    exact absurd hannexb (by decide +kernel)
  · rintro ⟨sample, hframe, -⟩
    rw [hdisturbed] at hframe
    exact absurd (Prod.mk.inj (Option.some.inj hframe)).1 (by decide)

end OpenDisplay.Net.SessionHandover
