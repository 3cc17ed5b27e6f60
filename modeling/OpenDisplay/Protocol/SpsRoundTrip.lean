import OpenDisplay.Protocol.EmulationPrevention
import OpenDisplay.Protocol.SpsReader

/-! # Sequence parameter sets and their sizes

The parser reads every written `SeqParameterSet` element by element (`reads_sps`), and what follows it
does not matter. Emulation prevention is removed as it was put in, up to the final `03`. -/

namespace OpenDisplay.Protocol.SpsRoundTrip

open OpenDisplay.Lib.Bits OpenDisplay.Protocol.Sps OpenDisplay.Protocol.Sps.BitReader
open OpenDisplay.Protocol.EmulationPrevention OpenDisplay.Protocol.SpsReader
open OpenDisplay.Protocol.SpsSyntax

/-! ## The syntax elements -/

theorem lt_of_log2_le {n : ℕ} (h : Nat.log2 (n + 1) ≤ 30) : n < 2147483647 := by
  have hlt : n + 1 < 2 ^ 31 := (Nat.log2_lt (Nat.succ_ne_zero n)).1 (Nat.lt_succ_of_le h)
  omega

theorem reads_ueElement (v : Ue) : Reads ue (ueCode v.val) (v.val : ℤ) := reads_ue (lt_of_log2_le v.ok)

theorem reads_seElement (v : Se) : Reads se (seCode v.val) v.val := reads_se (lt_of_log2_le v.ok)

theorem reads_ue_fin {n : ℕ} (v : Fin n) (hn : n ≤ 65536) : Reads ue (ueCode v) ((v : ℕ) : ℤ) :=
  reads_ue (by omega)

theorem codeNum_deltaScale (delta : DeltaScale) : codeNum delta.val ≤ 256 := by
  have h := delta.ok
  rcases Int.lt_or_le 0 delta.val with hpos | hneg
  · have := codeNum_of_pos hpos
    omega
  · have := codeNum_of_nonpos hneg
    omega

theorem reads_deltaScale (delta : DeltaScale) : Reads se (seCode delta.val) delta.val :=
  reads_se (by have := codeNum_deltaScale delta; omega)

/-! ### Scaling lists -/

/-- The step of `SkipScalingList` is that of the syntax, without wrapping around. -/
theorem nextScale_eq {lastScale : ℤ} (hlast : 0 ≤ lastScale ∧ lastScale < 256)
    (delta : DeltaScale) :
    (int32 (int32 (lastScale + delta.val) + 256)).tmod 256 = (lastScale + delta.val + 256) % 256 := by
  have h := delta.ok
  have hsum : int32 (lastScale + delta.val) = lastScale + delta.val :=
    int32_of_range (by omega) (by omega)
  rw [hsum, int32_of_range (by omega) (by omega), Int.tmod_eq_emod_of_nonneg (by omega)]

theorem reads_skipScales (delta : ℕ → DeltaScale) : ∀ (n j : ℕ) (lastScale nextScale : ℤ),
    0 ≤ lastScale ∧ lastScale < 256 →
      Reads (skipScales n lastScale nextScale) (scalesBits delta n j lastScale nextScale) ()
  | 0, _, _, _, _ => Reads.pure ()
  | n + 1, j, lastScale, nextScale, hlast => by
    unfold skipScales scalesBits
    by_cases hnext : nextScale = 0
    · rw [if_neg (not_not_intro hnext), if_pos hnext, hnext]
      exact reads_skipScales delta n (j + 1) lastScale 0 hlast
    · rw [if_pos hnext, if_neg hnext]
      have hscale := (reads_deltaScale (delta j)).bind_pure fun d =>
        (int32 (int32 (lastScale + d) + 256)).tmod 256
      rw [nextScale_eq hlast] at hscale
      have ih := reads_skipScales delta n (j + 1)
        (if (lastScale + (delta j).val + 256) % 256 ≠ 0 then (lastScale + (delta j).val + 256) % 256
          else lastScale) ((lastScale + (delta j).val + 256) % 256) (by split <;> omega)
      simp only [ite_not] at ih
      have hread := hscale.bind (f := fun nextScale =>
        skipScales n (if nextScale ≠ 0 then nextScale else lastScale) nextScale)
        (by simpa only [ite_not] using ih)
      exact hread

theorem reads_skipScalingLists (lists : ℕ → Option (ℕ → DeltaScale)) : ∀ n i : ℕ,
    Reads (skipScalingLists n i) (scalingListsBits lists n i) ()
  | 0, _ => Reads.pure ()
  | n + 1, i => by
    have ih := reads_skipScalingLists lists n (i + 1)
    unfold skipScalingLists scalingListsBits
    cases lists i with
    | none => exact (reads_flag false).bind ih
    | some delta =>
      have hlist : Reads (skipScalingList (if i < 6 then 16 else 64))
          (scalesBits delta (if i < 6 then 16 else 64) 0 8 8) () :=
        reads_skipScales delta _ 0 8 8 (by decide)
      exact (reads_flag true).bind (hlist.bind ih)

/-! ### The other parts -/

theorem idc_eq_three (idc : Fin 4) : ((idc : ℕ) : ℤ) = 3 ↔ idc = 3 := by
  rw [Fin.ext_iff]
  exact Int.ofNat_inj

theorem reads_scalingMatrix (idc : Fin 4) (matrix : Option (ℕ → Option (ℕ → DeltaScale))) :
    Reads (u 1 >>= fun present =>
        if present = 1 then
          skipScalingLists (if ((idc : ℕ) : ℤ) ≠ 3 then 8 else 12) 0 >>= fun _ =>
            pure ((idc : ℕ) : ℤ)
        else pure ((idc : ℕ) : ℤ))
      (scalingMatrixBits idc matrix) ((idc : ℕ) : ℤ) := by
  cases matrix with
  | none => exact (reads_flag false).bind (Reads.pure _)
  | some lists =>
    have hlists := reads_skipScalingLists lists (if idc = 3 then 12 else 8) 0
    have hcount : (if ((idc : ℕ) : ℤ) ≠ 3 then 8 else 12) = if idc = 3 then 12 else 8 := by
      rw [ite_not, if_congr (idc_eq_three idc) rfl rfl]
    rw [hcount]
    exact (reads_flag true).bind (hlists.bind_pure fun _ => ((idc : ℕ) : ℤ))

theorem reads_chromaInfo (c : ChromaInfo) :
    Reads readChromaInfo c.bits ((c.chromaFormatIdc : ℕ) : ℤ) := by
  have hmatrix := reads_scalingMatrix c.chromaFormatIdc c.scalingMatrix
  rw [← List.append_nil (scalingMatrixBits _ _)] at hmatrix
  have hrest := (reads_ueElement c.bitDepthLumaMinus8).seq
    ((reads_ueElement c.bitDepthChromaMinus8).seq
      ((reads_flag c.qpprimeYZeroTransformBypassFlag).seq hmatrix))
  unfold readChromaInfo ChromaInfo.bits
  refine (reads_ue_fin c.chromaFormatIdc (by decide)).bind ?_
  by_cases h : c.chromaFormatIdc = 3
  · simp only [if_pos h, if_pos ((idc_eq_three _).2 h)]
    exact (reads_flag c.separateColourPlaneFlag).seq hrest
  · simp only [if_neg h, if_neg (mt (idc_eq_three _).1 h)]
    exact hrest

theorem reads_skipSe : ∀ offsets : List Se,
    Reads (skipSe offsets.length) (offsets.flatMap fun offset => seCode offset.val) ()
  | [] => Reads.pure ()
  | offset :: offsets => (reads_seElement offset).bind (reads_skipSe offsets)

theorem reads_picOrderCnt (p : PicOrderCnt) :
    Reads (ue >>= fun type => skipPicOrderCnt type) p.bits () := by
  cases p with
  | type0 lsb =>
    exact (reads_ue (by decide)).bind ((reads_ueElement lsb).bind_pure fun _ => ())
  | type1 alwaysZero nonRef topToBottom refs h =>
    have hrefs : Reads (skipSe refs.length)
        ((refs.flatMap fun offset => seCode offset.val) ++ []) () := by
      rw [List.append_nil]
      exact reads_skipSe refs
    exact (reads_ue (by decide)).bind ((reads_flag alwaysZero).bind ((reads_seElement nonRef).bind
      ((reads_seElement topToBottom).bind ((reads_ue (lt_of_log2_le h)).bind hrefs))))
  | type2 =>
    have h := (reads_ue (v := 2) (by decide)).bind (f := skipPicOrderCnt) (Reads.pure ())
    rwa [List.append_nil] at h

/-- What `readCrop` makes of the offsets. -/
def cropOffsets (crop : Option FrameCrop) : ℤ × ℤ × ℤ × ℤ :=
  crop.elim (0, 0, 0, 0) fun c => ((c.left : ℕ), (c.right : ℕ), (c.top : ℕ), (c.bottom : ℕ))

theorem reads_crop (crop : Option FrameCrop) :
    Reads readCrop (cropBits crop) (cropOffsets crop) := by
  cases crop with
  | none => exact (reads_flag false).bind (Reads.pure _)
  | some c =>
    exact (reads_flag true).bind ((reads_ue_fin c.left (by decide)).bind
      ((reads_ue_fin c.right (by decide)).bind ((reads_ue_fin c.top (by decide)).bind
        ((reads_ue_fin c.bottom (by decide)).bind (Reads.pure _)))))

theorem hasChromaInfo_eq : ∀ profileIdc : Fin 256,
    hasChromaInfo ((profileIdc : ℕ) : ℤ) = chromaProfiles.contains ↑profileIdc := by decide +kernel

variable (sps : SeqParameterSet)

theorem reads_chroma {α : Type} {f : ℤ → Read α} {bs : List Bool} {a : α}
    (hf : Reads (f ((sps.chromaFormatIdc : ℕ) : ℤ)) bs a) :
    Reads (if hasChromaInfo ((sps.profileIdc : ℕ) : ℤ) then readChromaInfo >>= f else pure 1 >>= f)
      ((if sps.hasChroma then sps.chroma.bits else []) ++ bs) a := by
  have hprofile : hasChromaInfo ((sps.profileIdc : ℕ) : ℤ) = sps.hasChroma := hasChromaInfo_eq sps.profileIdc
  unfold SeqParameterSet.chromaFormatIdc at hf
  rw [hprofile]
  by_cases h : sps.hasChroma = true
  · rw [if_pos h] at hf ⊢
    rw [if_pos h]
    exact (reads_chromaInfo sps.chroma).bind hf
  · rw [if_neg h] at hf ⊢
    rw [if_neg h]
    exact (Reads.pure 1).bind hf

/-- **The parser reads what the syntax writes.** -/
theorem reads_sps :
    Reads readSps sps.bits (dimensions ((sps.chromaFormatIdc : ℕ) : ℤ)
      ((sps.picWidthInMbsMinus1 : ℕ) : ℤ) ((sps.picHeightInMapUnitsMinus1 : ℕ) : ℤ)
      sps.frameMbsOnlyFlag.toNat (cropOffsets sps.frameCrop)) := by
  unfold readSps SeqParameterSet.bits
  refine (reads_u sps.profileIdc.isLt (by decide)).bind ?_
  refine (reads_u sps.constraintFlags.isLt (by decide)).seq ?_
  refine (reads_u sps.levelIdc.isLt (by decide)).seq ?_
  refine (reads_ueElement sps.seqParameterSetId).seq ?_
  refine reads_chroma sps ?_
  refine (reads_ueElement sps.log2MaxFrameNumMinus4).seq ?_
  refine (reads_picOrderCnt sps.picOrderCnt).bind_seq ?_
  refine (reads_ueElement sps.maxNumRefFrames).seq ?_
  refine (reads_flag sps.gapsInFrameNumValueAllowedFlag).seq ?_
  refine (reads_ue_fin sps.picWidthInMbsMinus1 (by decide)).bind ?_
  refine (reads_ue_fin sps.picHeightInMapUnitsMinus1 (by decide)).bind ?_
  refine (reads_flag sps.frameMbsOnlyFlag).bind ?_
  have hcrop := (reads_crop sps.frameCrop).bind_pure fun crop =>
    dimensions ((sps.chromaFormatIdc : ℕ) : ℤ) ((sps.picWidthInMbsMinus1 : ℕ) : ℤ)
      ((sps.picHeightInMapUnitsMinus1 : ℕ) : ℤ) sps.frameMbsOnlyFlag.toNat crop
  rw [← List.append_nil (cropBits _)] at hcrop
  have hrest := (reads_flag sps.direct8x8InferenceFlag).seq hcrop
  cases hf : sps.frameMbsOnlyFlag with
  | true =>
    rw [hf] at hrest
    exact hrest
  | false =>
    rw [hf] at hrest
    exact (reads_flag sps.mbAdaptiveFrameFieldFlag).seq hrest

/-! ## The size -/

/-- The parser's units are those of the cropping formulas: `ChromaArrayType` 0 has the units of
`chroma_format_idc` 3. -/
theorem cropUnits_eq :
    ((if ((sps.chromaFormatIdc : ℕ) : ℤ) = 0 then 1
        else if ((sps.chromaFormatIdc : ℕ) : ℤ) = 1 ∨ ((sps.chromaFormatIdc : ℕ) : ℤ) = 2 then 2
        else 1) = sps.cropUnitX) ∧
      ((if ((sps.chromaFormatIdc : ℕ) : ℤ) = 0 then 2 - (sps.frameMbsOnlyFlag.toNat : ℤ)
        else (if ((sps.chromaFormatIdc : ℕ) : ℤ) = 1 then 2 else 1) *
          (2 - (sps.frameMbsOnlyFlag.toNat : ℤ))) = sps.cropUnitY) := by
  unfold SeqParameterSet.cropUnitX SeqParameterSet.cropUnitY SeqParameterSet.chromaArrayType
    SeqParameterSet.subWidthC SeqParameterSet.subHeightC SeqParameterSet.fields
  generalize sps.chromaFormatIdc = idc
  generalize sps.chroma.separateColourPlaneFlag = separate
  generalize sps.frameMbsOnlyFlag = frameMbsOnly
  revert idc separate frameMbsOnly
  decide

theorem cropUnitX_range : sps.cropUnitX = 1 ∨ sps.cropUnitX = 2 := by
  unfold SeqParameterSet.cropUnitX SeqParameterSet.subWidthC
  split
  · exact .inl rfl
  · split
    · exact .inl rfl
    · exact .inr rfl

theorem fields_range : sps.fields = 1 ∨ sps.fields = 2 := by
  unfold SeqParameterSet.fields
  cases sps.frameMbsOnlyFlag
  · exact .inr rfl
  · exact .inl rfl

theorem cropUnitY_range : sps.cropUnitY = 1 ∨ sps.cropUnitY = 2 ∨ sps.cropUnitY = 4 := by
  have hf := fields_range sps
  unfold SeqParameterSet.cropUnitY SeqParameterSet.subHeightC
  split
  · omega
  · split <;> omega

theorem crop_range :
    (0 ≤ sps.cropX ∧ sps.cropX < 131072) ∧ 0 ≤ sps.cropY ∧ sps.cropY < 131072 := by
  unfold SeqParameterSet.cropX SeqParameterSet.cropY
  cases sps.frameCrop with
  | none => decide
  | some c =>
    simp only [Option.elim_some]
    omega

theorem width_fits {w x unit : ℤ} (hw : 0 ≤ w ∧ w < 65536) (hx : 0 ≤ x ∧ x < 131072)
    (hunit : unit = 1 ∨ unit = 2) :
    int32 (int32 (int32 (w + 1) * 16) - int32 (unit * int32 x)) = (w + 1) * 16 - unit * x := by
  have h1 : int32 (w + 1) = w + 1 := int32_of_range (by omega) (by omega)
  have h2 : int32 ((w + 1) * 16) = (w + 1) * 16 := int32_of_range (by omega) (by omega)
  have h3 : int32 x = x := int32_of_range (by omega) (by omega)
  rw [h1, h2, h3]
  rcases hunit with rfl | rfl
  · rw [int32_of_range (x := 1 * x) (by omega) (by omega), int32_of_range (by omega) (by omega)]
  · rw [int32_of_range (x := 2 * x) (by omega) (by omega), int32_of_range (by omega) (by omega)]

theorem height_fits {h y unit fields : ℤ} (hh : 0 ≤ h ∧ h < 65536) (hy : 0 ≤ y ∧ y < 131072)
    (hfields : fields = 1 ∨ fields = 2) (hunit : unit = 1 ∨ unit = 2 ∨ unit = 4) :
    int32 (int32 (int32 (fields * int32 (h + 1)) * 16) - int32 (unit * int32 y)) =
      fields * (h + 1) * 16 - unit * y := by
  have h1 : int32 (h + 1) = h + 1 := int32_of_range (by omega) (by omega)
  have hrows : 0 ≤ fields * (h + 1) ∧ fields * (h + 1) ≤ 131072 := by
    rcases hfields with rfl | rfl <;> omega
  have hlines : 0 ≤ unit * y ∧ unit * y < 524288 := by
    rcases hunit with rfl | rfl | rfl <;> omega
  have h2 : int32 (fields * (h + 1)) = fields * (h + 1) := int32_of_range (by omega) (by omega)
  have h3 : int32 (fields * (h + 1) * 16) = fields * (h + 1) * 16 :=
    int32_of_range (by omega) (by omega)
  have h4 : int32 y = y := int32_of_range (by omega) (by omega)
  have h5 : int32 (unit * y) = unit * y := int32_of_range (by omega) (by omega)
  rw [h1, h2, h3, h4, h5]
  exact int32_of_range (by omega) (by omega)

theorem exists_cropOffsets : ∃ l r t b, cropOffsets sps.frameCrop = (l, r, t, b) ∧
    sps.cropX = l + r ∧ sps.cropY = t + b := by
  unfold cropOffsets SeqParameterSet.cropX SeqParameterSet.cropY
  cases sps.frameCrop with
  | none => exact ⟨0, 0, 0, 0, rfl, rfl, rfl⟩
  | some c => exact ⟨_, _, _, _, rfl, rfl, rfl⟩

/-- **The computation of the size does not wrap around.** -/
theorem dimensions_eq (hwidth : 0 < sps.width) (hheight : 0 < sps.height) :
    dimensions ((sps.chromaFormatIdc : ℕ) : ℤ) ((sps.picWidthInMbsMinus1 : ℕ) : ℤ)
      ((sps.picHeightInMapUnitsMinus1 : ℕ) : ℤ) sps.frameMbsOnlyFlag.toNat
      (cropOffsets sps.frameCrop) = some ⟨sps.width, sps.height⟩ := by
  obtain ⟨l, r, t, b, hcrop, hx, hy⟩ := exists_cropOffsets sps
  obtain ⟨hxr, hyr⟩ := crop_range sps
  have hw := width_fits (w := ((sps.picWidthInMbsMinus1 : ℕ) : ℤ)) (by omega) hxr
    (cropUnitX_range sps)
  have hh := height_fits (h := ((sps.picHeightInMapUnitsMinus1 : ℕ) : ℤ)) (by omega) hyr
    (fields_range sps) (cropUnitY_range sps)
  obtain ⟨hux, huy⟩ := cropUnits_eq sps
  unfold SeqParameterSet.width at hwidth ⊢
  unfold SeqParameterSet.height at hheight ⊢
  unfold dimensions
  rw [hcrop]
  dsimp only
  rw [hux, huy, ← hx, ← hy]
  have hfields : 2 - (sps.frameMbsOnlyFlag.toNat : ℤ) = sps.fields := rfl
  rw [hfields, hw, hh, if_neg (not_or.2 ⟨Int.not_le.2 hwidth, Int.not_le.2 hheight⟩)]

/-! ## The bytes -/

theorem length_le_insert : ∀ (zeroRun : ℕ) (bs : List UInt8),
    bs.length ≤ (insertEmulationPrevention zeroRun bs).length
  | _, [] => Nat.le_refl _
  | zeroRun, b :: bs => by
    unfold insertEmulationPrevention
    split
    · have ih := length_le_insert (if b = 0 then 1 else 0) bs
      simp only [List.length_cons]
      omega
    · have ih := length_le_insert (if b = 0 then zeroRun + 1 else 0) bs
      simp only [List.length_cons]
      omega

theorem length_ofBytes (bytes : List UInt8) : (ofBytes bytes).length = 8 * bytes.length := by
  induction bytes with
  | nil => rfl
  | cons b bytes ih =>
    unfold ofBytes at ih ⊢
    rw [List.flatMap_cons, List.length_append, ih, length_ofNat, List.length_cons]
    omega

/-- **The size of every sequence parameter set is recovered.**  Whatever bits follow it in the
payload, the parser finds the cropped width and height in the NAL unit. -/
theorem parse_nalUnit (hwidth : 0 < sps.width) (hheight : 0 < sps.height) (header : UInt8)
    (rbsp : List UInt8) (trailing : List Bool) (hrbsp : ofBytes rbsp = sps.bits ++ trailing) :
    parseSpsDimensions (nalUnit header rbsp) = some ⟨sps.width, sps.height⟩ := by
  have hlen : 3 ≤ rbsp.length := by
    have h := congrArg List.length hrbsp
    rw [length_ofBytes, List.length_append] at h
    have hbits : 24 ≤ sps.bits.length := by
      simp only [SeqParameterSet.bits, List.flatten_cons, List.length_append, length_ofNat]
      omega
    omega
  have hins := length_le_insert 0 rbsp
  have hlong : ¬(nalUnit header rbsp).length < 4 := by
    simp only [nalUnit, List.length_cons, List.length_append]
    omega
  obtain ⟨rest, hdata⟩ : ∃ rest, stripEmulationPrevention (nalUnit header rbsp) = rbsp ++ rest :=
    ⟨_, strip_insert rbsp (if rbsp.getLast? = some 0 then [3] else [])⟩
  have hread := reads_sps sps (rbsp ++ rest) 0 (trailing ++ ofBytes rest) (by
    unfold ofBytes at hrbsp ⊢
    rw [List.drop_zero, List.flatMap_append, hrbsp, List.append_assoc])
  unfold parseSpsDimensions
  rw [if_neg hlong, hdata, hread]
  exact dimensions_eq sps hwidth hheight

/-- The first list stops at its second entry; the others are not present. -/
def shortList (i : ℕ) : Option (ℕ → DeltaScale) :=
  if i = 0 then some fun j => if j = 0 then ⟨4, by decide⟩ else ⟨-12, by decide⟩ else none

/-- An interlaced stream of 1920 by 1080 with a scaling list and a cycle of offsets. -/
def interlaced : SeqParameterSet :=
  { profileIdc := 100, constraintFlags := 0, levelIdc := 40, seqParameterSetId := ⟨0, by decide⟩,
    chroma :=
      { chromaFormatIdc := ⟨1, by decide⟩, separateColourPlaneFlag := false,
        bitDepthLumaMinus8 := ⟨0, by decide⟩, bitDepthChromaMinus8 := ⟨0, by decide⟩,
        qpprimeYZeroTransformBypassFlag := false, scalingMatrix := some shortList },
    log2MaxFrameNumMinus4 := ⟨0, by decide⟩,
    picOrderCnt := .type1 false ⟨-1, by decide⟩ ⟨2, by decide⟩ [⟨3, by decide⟩, ⟨-4, by decide⟩]
      (by decide),
    maxNumRefFrames := ⟨4, by decide⟩, gapsInFrameNumValueAllowedFlag := false,
    picWidthInMbsMinus1 := 119, picHeightInMapUnitsMinus1 := 33, frameMbsOnlyFlag := false,
    mbAdaptiveFrameFieldFlag := true, direct8x8InferenceFlag := true,
    frameCrop := some ⟨0, 0, 0, 2⟩ }

/-- Its bits, a one and zeros. -/
def interlacedRbsp : List UInt8 :=
  [100, 0, 40, 173, 136, 12, 128, 163, 35, 48, 146, 128, 240, 8, 159, 184, 0, 0, 0]

theorem parse_nalUnit_interlaced :
    nalUnit 0x67 interlacedRbsp = [0x67, 100, 0, 40, 173, 136, 12, 128, 163, 35, 48, 146, 128, 240,
      8, 159, 184, 0, 0, 3, 0, 3] ∧
    parseSpsDimensions (nalUnit 0x67 interlacedRbsp) = some ⟨1920, 1080⟩ :=
  ⟨by decide, parse_nalUnit interlaced (by decide) (by decide) 0x67
    interlacedRbsp ((ofBytes interlacedRbsp).drop 124) (by decide)⟩

end OpenDisplay.Protocol.SpsRoundTrip
