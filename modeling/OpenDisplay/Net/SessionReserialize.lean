import OpenDisplay.Net.SessionVideo

/-! # The session: the sample read again

The NALUs of a parsed frame are non-empty, of the type of their slot and free of start codes
(`Parsed`), so the bytes that the read loop writes from them are cut at the same places again: parsing
the sample gives back the frame, without its telemetry (`parse_annexbOf`). -/

namespace OpenDisplay.Net.SessionReserialize

open OpenDisplay.Lib.Separator OpenDisplay.Protocol.AnnexB OpenDisplay.Protocol.AnnexBRoundTrip
open OpenDisplay.Net.Session OpenDisplay.Net.SessionVideo

/-- The list of one parameter set, or no list where there is none. -/
def slot (nalu : List UInt8) : List (List UInt8) := if nalu = [] then [] else [nalu]

/-- **A frame as the parser makes them.** -/
structure Parsed (vf : VideoFrame) : Prop where
  sps : ∀ n ∈ slot vf.sps, naluType n = 7
  pps : ∀ n ∈ slot vf.pps, naluType n = 8
  vcl : ∀ n ∈ vf.vclNalus, IsVcl n
  nonEmpty : ∀ n ∈ sampleNalus vf, n ≠ []
  free : ∀ n ∈ sampleNalus vf, Free startCode n
  some : vf.isEmpty = false

theorem mediaNalus_ne_nil {payload : List UInt8} (h : (parseAnnexB payload).isEmpty = false) :
    mediaNalus payload ≠ [] := by
  intro hnil
  have hempty : (parseAnnexB payload).isEmpty = true := by
    rw [parseAnnexB_eq]
    split
    · rfl
    · rw [foldl_classify,
        filter_nonEmpty_eq (fun n hn => by omega : ∀ n, naluType n = 7 → naluType n ≠ 6),
        filter_nonEmpty_eq (fun n hn => hn.1 : ∀ n, IsVcl n → naluType n ≠ 6), hnil]
      rfl
  rw [hempty] at h
  cases h

theorem parsed_parseAnnexB {payload : List UInt8} (h : (parseAnnexB payload).isEmpty = false) :
    Parsed (parseAnnexB payload) := by
  have hne := mediaNalus_ne_nil h
  obtain ⟨hs, hp, hv⟩ := parseAnnexB_media hne
  have hmedia (n : List UInt8) (hn : n ∈ sampleNalus (parseAnnexB payload)) :=
    mem_mediaNalus (mem_media_of_mem_sample hne hn)
  refine ⟨?_, ?_, ?_, fun n hn => (hmedia n hn).1, fun n hn => (hmedia n hn).2.2, h⟩
  · rw [slot, hs]
    exact fun n hn => (mem_slot hn).2
  · rw [slot, hp]
    exact fun n hn => (mem_slot hn).2
  · rw [hv]
    exact fun n hn => by simpa using (List.mem_filter.1 hn).2

theorem getLastD_slot (nalu : List UInt8) : (slot nalu).getLastD [] = nalu := by
  unfold slot
  split
  case isTrue h => exact h.symm
  case isFalse h => rfl

theorem Parsed.sampleNalus_ne_nil {vf : VideoFrame} (h : Parsed vf) : sampleNalus vf ≠ [] := by
  intro hnil
  have hsome := h.some
  rw [sampleNalus, List.append_eq_nil_iff, List.append_eq_nil_iff] at hnil
  obtain ⟨⟨hsps, -⟩, hvcl⟩ := hnil
  have hsps : vf.sps = [] := by
    by_contra hne
    rw [if_neg hne] at hsps
    cases hsps
  rw [VideoFrame.isEmpty, hsps, hvcl] at hsome
  cases hsome

/-- **The sample of a frame is parsed as the frame**, without its telemetry. -/
theorem parse_annexbOf {vf : VideoFrame} (h : Parsed vf) :
    parseAnnexB (annexbOf vf) = ⟨[], vf.sps, vf.pps, vf.vclNalus, -1, -1⟩ := by
  have hkeep : nonEmpty (sampleNalus vf) = sampleNalus vf :=
    List.filter_eq_self.2 fun n hn => by simpa using h.nonEmpty n hn
  obtain ⟨h7, h8, hvcl⟩ := filter_parts h.sps h.pps h.vcl
  have hnalus : sampleNalus vf = slot vf.sps ++ slot vf.pps ++ vf.vclNalus := rfl
  have hparse := parseAnnexB_weave startCode_borderFree.free_nil h.free
  rw [List.nil_append, if_neg h.sampleNalus_ne_nil, hkeep, foldl_classify, hnalus, h7, h8,
    hvcl] at hparse
  rw [annexbOf_eq, hnalus, hparse]
  simp only [frameOf, getLastD_slot]
  rfl

/-- **Re-serialised access units are a fixed point of the parser.** -/
theorem reserialize_fixed {p : List UInt8} (h : (parseAnnexB p).isEmpty = false) :
    let q := annexbOf (parseAnnexB p)
    (parseAnnexB q).sps = (parseAnnexB p).sps ∧ (parseAnnexB q).pps = (parseAnnexB p).pps ∧
      (parseAnnexB q).vclNalus = (parseAnnexB p).vclNalus ∧
      (parseAnnexB q).isKeyframe = (parseAnnexB p).isKeyframe ∧
      (parseAnnexB q).telemetryPrefix = [] ∧ (parseAnnexB q).captureMs = -1 ∧
      (parseAnnexB q).sendMs = -1 ∧ annexbOf (parseAnnexB q) = q := by
  intro q
  have hq : parseAnnexB q = ⟨[], (parseAnnexB p).sps, (parseAnnexB p).pps,
      (parseAnnexB p).vclNalus, -1, -1⟩ := parse_annexbOf (parsed_parseAnnexB h)
  rw [hq]
  exact ⟨rfl, rfl, rfl, rfl, rfl, rfl, rfl, rfl⟩

/-- A keyframe behind its times, its NALUs out of order and with zeros at their ends. -/
theorem reserialize_fixed_keyframe :
    annexbOf (parseAnnexB (annexbOf (parseAnnexB
        [123, 125, 0, 0, 0, 1, 0x65, 0x88, 0, 0, 0, 0, 0, 1, 0x67, 0xAA, 0, 0, 0, 0, 1]))) =
      annexbOf (parseAnnexB
        [123, 125, 0, 0, 0, 1, 0x65, 0x88, 0, 0, 0, 0, 0, 1, 0x67, 0xAA, 0, 0, 0, 0, 1]) :=
  (reserialize_fixed (by decide +kernel)).2.2.2.2.2.2.2

end OpenDisplay.Net.SessionReserialize
