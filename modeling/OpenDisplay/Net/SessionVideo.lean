import OpenDisplay.Net.Session
import OpenDisplay.Protocol.AnnexBRoundTrip

/-! # The session: from the wire payload to the sample

The read loop parses a payload into one SPS, one PPS and a list of VCL NALUs, and writes a sample from
them. Against the NALUs of the payload that are worth decoding (`mediaNalus`: the non-empty ones that
are not SEI) this is the identity only when they come as one SPS, one PPS, then the rest: the parser
keeps the *last* parameter set of each kind, the sample puts both before everything else, and a
payload without SPS and VCL NALUs is dropped.

`due_iff_wireOrder`: the sample is the NALUs in wire order exactly then. -/

namespace OpenDisplay.Net.SessionVideo

open OpenDisplay.Lib.Separator OpenDisplay.Protocol.AnnexB OpenDisplay.Protocol.AnnexBRoundTrip
open OpenDisplay.Net.Session

/-- The NALUs of a payload, the maximal runs between consecutive start codes, that are not empty and
not SEI, in wire order. -/
def mediaNalus (payload : List UInt8) : List (List UInt8) :=
  (pieces startCode payload).2.filter fun n => n ≠ [] ∧ naluType n ≠ 6

/-- At most one SPS, then at most one PPS, then VCL NALUs; and not a lone PPS. -/
def WireOrder (ns : List (List UInt8)) : Prop :=
  ∃ spss ppss vcls : List (List UInt8), ns = spss ++ ppss ++ vcls ∧
    spss.length ≤ 1 ∧ ppss.length ≤ 1 ∧ (∀ n ∈ spss, naluType n = 7) ∧
    (∀ n ∈ ppss, naluType n = 8) ∧ (∀ n ∈ vcls, IsVcl n) ∧ (spss ≠ [] ∨ vcls ≠ [])

/-- The NALUs a sample is written from. -/
def sampleNalus (vf : VideoFrame) : List (List UInt8) :=
  (if vf.sps = [] then [] else [vf.sps]) ++ (if vf.pps = [] then [] else [vf.pps]) ++ vf.vclNalus

theorem annexbOf_eq (vf : VideoFrame) : annexbOf vf = weave startCode (sampleNalus vf) := by
  unfold annexbOf sampleNalus
  rw [weave_append, weave_append]
  congr 2 <;> split_ifs <;> simp

theorem mem_mediaNalus {payload n : List UInt8} (h : n ∈ mediaNalus payload) :
    n ≠ [] ∧ naluType n ≠ 6 ∧ Free startCode n := by
  simp only [mediaNalus, List.mem_filter, decide_eq_true_eq] at h
  exact ⟨h.2.1, h.2.2, (pieces_spec startCode_borderFree payload).2.2 n h.1⟩

theorem filter_nonEmpty_eq {p : List UInt8 → Prop} [DecidablePred p]
    (hp : ∀ n, p n → naluType n ≠ 6) (payload : List UInt8) :
    (nonEmpty (pieces startCode payload).2).filter (p ·) = (mediaNalus payload).filter (p ·) := by
  unfold nonEmpty mediaNalus
  rw [List.filter_filter, List.filter_filter]
  refine List.filter_congr fun n _ => ?_
  by_cases h : p n
  · simp [h, hp n h]
  · simp [h]

/-- **The parsed frame in terms of the media NALUs.** -/
theorem parseAnnexB_media {payload : List UInt8} (h : mediaNalus payload ≠ []) :
    (parseAnnexB payload).sps = ((mediaNalus payload).filter (naluType · = 7)).getLastD [] ∧
      (parseAnnexB payload).pps = ((mediaNalus payload).filter (naluType · = 8)).getLastD [] ∧
      (parseAnnexB payload).vclNalus = (mediaNalus payload).filter (IsVcl ·) := by
  have hne : (pieces startCode payload).2 ≠ [] := fun h0 => h (by unfold mediaNalus; rw [h0]; rfl)
  rw [parseAnnexB_eq, if_neg hne, foldl_classify,
    ← filter_nonEmpty_eq (fun n hn => by omega : ∀ n, naluType n = 7 → naluType n ≠ 6),
    ← filter_nonEmpty_eq (fun n hn => by omega : ∀ n, naluType n = 8 → naluType n ≠ 6),
    ← filter_nonEmpty_eq (fun n hn => hn.1 : ∀ n, IsVcl n → naluType n ≠ 6)]
  exact ⟨rfl, rfl, List.nil_append _⟩

theorem toList_getLastD {l : List (List UInt8)} (hne : ∀ n ∈ l, n ≠ []) :
    (if l.getLastD [] = [] then [] else [l.getLastD []]) = l ↔ l.length ≤ 1 := by
  match l with
  | [] => simp
  | [a] => simp [hne a (by simp)]
  | a :: b :: l =>
    constructor
    · intro h
      have hlen := congrArg List.length h
      split_ifs at hlen
      all_goals simp at hlen
    · intro h
      simp at h

/-- In wire order the three classes are the three parts. -/
theorem filter_parts {spss ppss vcls : List (List UInt8)} (h7 : ∀ n ∈ spss, naluType n = 7)
    (h8 : ∀ n ∈ ppss, naluType n = 8) (hv : ∀ n ∈ vcls, IsVcl n) :
    (spss ++ ppss ++ vcls).filter (naluType · = 7) = spss ∧
      (spss ++ ppss ++ vcls).filter (naluType · = 8) = ppss ∧
      (spss ++ ppss ++ vcls).filter (IsVcl ·) = vcls := by
  have keep : ∀ {p : List UInt8 → Prop} [DecidablePred p] {l : List (List UInt8)},
      (∀ n ∈ l, p n) → l.filter (p ·) = l := fun h =>
    List.filter_eq_self.mpr fun n hn => by simpa using h n hn
  have skip : ∀ {p : List UInt8 → Prop} [DecidablePred p] {l : List (List UInt8)},
      (∀ n ∈ l, ¬ p n) → l.filter (p ·) = [] := fun h =>
    List.filter_eq_nil_iff.mpr fun n hn => by simpa using h n hn
  refine ⟨?_, ?_, ?_⟩
  · rw [List.filter_append, List.filter_append, keep h7,
      skip (fun n hn => by rw [h8 n hn]; decide), skip (fun n hn => (hv n hn).2.1)]
    simp
  · rw [List.filter_append, List.filter_append, skip (fun n hn => by rw [h7 n hn]; decide),
      keep h8, skip (fun n hn => (hv n hn).2.2)]
    simp
  · rw [List.filter_append, List.filter_append, skip (fun n hn h => h.2.1 (h7 n hn)),
      skip (fun n hn h => h.2.2 (h8 n hn)), keep hv]
    simp

theorem mem_slot {p : List UInt8 → Prop} [DecidablePred p] {l : List (List UInt8)}
    {n : List UInt8} (h : n ∈ if (l.filter (p ·)).getLastD [] = [] then []
      else [(l.filter (p ·)).getLastD []]) : n ∈ l ∧ p n := by
  split_ifs at h with hnil
  · simp at h
  · rw [List.mem_singleton.mp h]
    have hmem : (l.filter (p ·)).getLastD [] ∈ l.filter (p ·) := by
      cases hl : l.filter (p ·) with
      | nil => rw [hl] at hnil; exact absurd rfl hnil
      | cons a t => rw [List.getLastD_cons]; exact List.getLastD_mem_cons
    simpa using List.mem_filter.mp hmem

theorem mem_media_of_mem_sample {payload n : List UInt8} (hne : mediaNalus payload ≠ [])
    (h : n ∈ sampleNalus (parseAnnexB payload)) : n ∈ mediaNalus payload := by
  obtain ⟨hs, hp, hv⟩ := parseAnnexB_media hne
  unfold sampleNalus at h
  rw [hs, hp, hv] at h
  rcases List.mem_append.mp h with h | h
  · rcases List.mem_append.mp h with h | h
    · exact (mem_slot h).1
    · exact (mem_slot h).1
  · exact (List.mem_filter.mp h).1

/-- **The sample repeats the NALUs exactly if they come in the sample's order.** -/
theorem sampleNalus_iff {payload : List UInt8} (hne : mediaNalus payload ≠ []) :
    ((parseAnnexB payload).isEmpty = false ∧
        sampleNalus (parseAnnexB payload) = mediaNalus payload) ↔
      WireOrder (mediaNalus payload) := by
  obtain ⟨hs, hp, hv⟩ := parseAnnexB_media hne
  have hempty : (parseAnnexB payload).isEmpty = false ↔
      (mediaNalus payload).filter (IsVcl ·) ≠ [] ∨
        ((mediaNalus payload).filter (naluType · = 7)).getLastD [] ≠ [] := by
    unfold VideoFrame.isEmpty
    rw [hv, hs, Bool.and_eq_false_iff, List.isEmpty_eq_false_iff, List.isEmpty_eq_false_iff]
  have hmem : ∀ {p : List UInt8 → Prop} [DecidablePred p],
      ∀ n ∈ (mediaNalus payload).filter (p ·), n ≠ [] := fun n hn =>
    (mem_mediaNalus (List.mem_filter.mp hn).1).1
  rw [hempty]
  unfold sampleNalus
  rw [hs, hp, hv]
  constructor
  · rintro ⟨hsome, heq⟩
    refine ⟨_, _, _, heq.symm, ?_, ?_, ?_, ?_, ?_, ?_⟩
    · split_ifs <;> simp
    · split_ifs <;> simp
    · exact fun n hn => (mem_slot hn).2
    · exact fun n hn => (mem_slot hn).2
    · intro n hn
      simpa using (List.mem_filter.mp hn).2
    · rcases hsome with h | h
      · exact Or.inr h
      · exact Or.inl (by rw [if_neg h]; exact List.cons_ne_nil _ _)
  · rintro ⟨spss, ppss, vcls, heq, hl7, hl8, h7, h8, hvcl, hsome⟩
    obtain ⟨f7, f8, fv⟩ := filter_parts h7 h8 hvcl
    rw [← heq] at f7 f8 fv
    rw [f7, f8, fv]
    have m7 : ∀ n ∈ spss, n ≠ [] := fun n hn => hmem (p := (naluType · = 7)) n (by rwa [f7])
    have m8 : ∀ n ∈ ppss, n ≠ [] := fun n hn => hmem (p := (naluType · = 8)) n (by rwa [f8])
    refine ⟨?_, ?_⟩
    · rcases hsome with h | h
      · refine Or.inr fun h0 => h ?_
        have := (toList_getLastD m7).mpr hl7
        rwa [if_pos h0, eq_comm] at this
      · exact Or.inl h
    · rw [(toList_getLastD m7).mpr hl7, (toList_getLastD m8).mpr hl8]
      exact heq.symm

/-- **From the payload to the sample, exactly.**  For a payload that is not control and has a media
NALU, the callback that is due is `onVideo` with the media NALUs in wire order, each behind a start
code, if and only if they are at most one SPS, then at most one PPS, then VCL NALUs, and not a lone
PPS. -/
theorem due_iff_wireOrder {μ : Type} (parseControl : List UInt8 → Option μ) {payload : List UInt8}
    (hjson : isControlJson payload = false)
    (hne : mediaNalus payload ≠ []) :
    (∃ sample, due parseControl payload = some (.onVideo sample) ∧
        sample.annexb = weave startCode (mediaNalus payload)) ↔
      WireOrder (mediaNalus payload) := by
  have hfree : ∀ n ∈ sampleNalus (parseAnnexB payload), Free startCode n := fun n hn =>
    (mem_mediaNalus (mem_media_of_mem_sample hne hn)).2.2
  rw [← sampleNalus_iff hne]
  unfold due
  rw [hjson, if_neg Bool.false_ne_true]
  by_cases hemp : (parseAnnexB payload).isEmpty = true
  · rw [if_pos hemp]
    simp [hemp]
  · rw [if_neg hemp]
    have hf : (parseAnnexB payload).isEmpty = false := by simpa using hemp
    constructor
    · rintro ⟨sample, hev, hb⟩
      have hsample : sampleOf (parseAnnexB payload) 0 = sample :=
        Callback.onVideo.inj (Option.some.inj hev)
      refine ⟨hf, ?_⟩
      rw [← hsample] at hb
      exact weave_injective startCode_borderFree hfree (fun n hn => (mem_mediaNalus hn).2.2)
        ((annexbOf_eq _).symm.trans hb)
    · rintro ⟨-, heq⟩
      refine ⟨_, rfl, ?_⟩
      show annexbOf (parseAnnexB payload) = _
      rw [annexbOf_eq, heq]

end OpenDisplay.Net.SessionVideo
