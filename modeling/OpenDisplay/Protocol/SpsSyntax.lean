import OpenDisplay.Lib.Bits

/-! # The syntax of a sequence parameter set

A `SeqParameterSet` is a record of the syntax elements of H.264 7.3.2.1.1 up to the frame cropping;
its fields carry the ranges, so every record can be written. `SeqParameterSet.bits` writes it,
`width` and `height` are the size after cropping (7-19 to 7-22), and `nalUnit` puts a header byte and
the emulation prevention bytes of 7.4.1 to the payload. Nothing here is taken from the parser. -/

namespace OpenDisplay.Protocol.SpsSyntax

open OpenDisplay.Lib.Bits

/-! ## The record -/

/-- A number whose code has at most 30 leading zeros. -/
structure Ue where
  val : ℕ
  ok : Nat.log2 (val + 1) ≤ 30

/-- An integer whose code has at most 30 leading zeros. -/
structure Se where
  val : ℤ
  ok : Nat.log2 (codeNum val + 1) ≤ 30

/-- `delta_scale`. -/
structure DeltaScale where
  val : ℤ
  ok : -128 ≤ val ∧ val ≤ 127

/-- `pic_order_cnt_type` and what depends on it. -/
inductive PicOrderCnt
  | type0 (log2MaxPicOrderCntLsbMinus4 : Ue)
  | type1 (deltaPicOrderAlwaysZeroFlag : Bool) (offsetForNonRefPic offsetForTopToBottomField : Se)
      (offsetForRefFrame : List Se) (h : Nat.log2 (offsetForRefFrame.length + 1) ≤ 30)
  | type2

/-- The elements that only the profiles with chroma information have. A scaling list is given by
its `delta_scale`s; those behind the place where the list stops are not written. -/
structure ChromaInfo where
  chromaFormatIdc : Fin 4
  separateColourPlaneFlag : Bool
  bitDepthLumaMinus8 : Ue
  bitDepthChromaMinus8 : Ue
  qpprimeYZeroTransformBypassFlag : Bool
  scalingMatrix : Option (ℕ → Option (ℕ → DeltaScale))

structure FrameCrop where
  left : Fin 65536
  right : Fin 65536
  top : Fin 65536
  bottom : Fin 65536

structure SeqParameterSet where
  profileIdc : Fin 256
  constraintFlags : Fin 256
  levelIdc : Fin 256
  seqParameterSetId : Ue
  chroma : ChromaInfo
  log2MaxFrameNumMinus4 : Ue
  picOrderCnt : PicOrderCnt
  maxNumRefFrames : Ue
  gapsInFrameNumValueAllowedFlag : Bool
  picWidthInMbsMinus1 : Fin 65536
  picHeightInMapUnitsMinus1 : Fin 65536
  frameMbsOnlyFlag : Bool
  mbAdaptiveFrameFieldFlag : Bool
  direct8x8InferenceFlag : Bool
  frameCrop : Option FrameCrop

/-! ## Its bits -/

/-- `scaling_list` from the entry `j` on, with `n` entries to go. -/
def scalesBits (delta : ℕ → DeltaScale) : ℕ → ℕ → ℤ → ℤ → List Bool
  | 0, _, _, _ => []
  | n + 1, j, lastScale, nextScale =>
    if nextScale = 0 then scalesBits delta n (j + 1) lastScale 0
    else
      let next := (lastScale + (delta j).val + 256) % 256
      seCode (delta j).val ++ scalesBits delta n (j + 1) (if next = 0 then lastScale else next) next

/-- The scaling lists from the `i`-th on, `n` of them. -/
def scalingListsBits (lists : ℕ → Option (ℕ → DeltaScale)) : ℕ → ℕ → List Bool
  | 0, _ => []
  | n + 1, i =>
    (match lists i with
      | none => [false]
      | some delta => true :: scalesBits delta (if i < 6 then 16 else 64) 0 8 8) ++
      scalingListsBits lists n (i + 1)

def scalingMatrixBits (chromaFormatIdc : Fin 4) :
    Option (ℕ → Option (ℕ → DeltaScale)) → List Bool
  | none => [false]
  | some lists => true :: scalingListsBits lists (if chromaFormatIdc = 3 then 12 else 8) 0

def ChromaInfo.bits (c : ChromaInfo) : List Bool :=
  [ueCode c.chromaFormatIdc,
    if c.chromaFormatIdc = 3 then [c.separateColourPlaneFlag] else [],
    ueCode c.bitDepthLumaMinus8.val,
    ueCode c.bitDepthChromaMinus8.val,
    [c.qpprimeYZeroTransformBypassFlag],
    scalingMatrixBits c.chromaFormatIdc c.scalingMatrix].flatten

def PicOrderCnt.bits : PicOrderCnt → List Bool
  | .type0 lsb => ueCode 0 ++ ueCode lsb.val
  | .type1 alwaysZero nonRef topToBottom refs _ =>
    [ueCode 1, [alwaysZero], seCode nonRef.val, seCode topToBottom.val, ueCode refs.length,
      refs.flatMap fun offset => seCode offset.val].flatten
  | .type2 => ueCode 2

def cropBits : Option FrameCrop → List Bool
  | none => [false]
  | some crop =>
    [[true], ueCode crop.left, ueCode crop.right, ueCode crop.top, ueCode crop.bottom].flatten

/-- The values of `profile_idc` with which 7.3.2.1.1 has the elements of `ChromaInfo`. -/
def chromaProfiles : List ℕ := [44, 83, 86, 100, 110, 118, 122, 128, 134, 135, 138, 139, 244]

def SeqParameterSet.hasChroma (sps : SeqParameterSet) : Bool := chromaProfiles.contains ↑sps.profileIdc

def SeqParameterSet.bits (sps : SeqParameterSet) : List Bool :=
  [ofNat 8 sps.profileIdc,
    ofNat 8 sps.constraintFlags,
    ofNat 8 sps.levelIdc,
    ueCode sps.seqParameterSetId.val,
    if sps.hasChroma then sps.chroma.bits else [],
    ueCode sps.log2MaxFrameNumMinus4.val,
    sps.picOrderCnt.bits,
    ueCode sps.maxNumRefFrames.val,
    [sps.gapsInFrameNumValueAllowedFlag],
    ueCode sps.picWidthInMbsMinus1,
    ueCode sps.picHeightInMapUnitsMinus1,
    [sps.frameMbsOnlyFlag],
    if sps.frameMbsOnlyFlag then [] else [sps.mbAdaptiveFrameFieldFlag],
    [sps.direct8x8InferenceFlag],
    cropBits sps.frameCrop].flatten

/-! ## The cropped size -/

/-- `chroma_format_idc`, 1 where it is not present. -/
def SeqParameterSet.chromaFormatIdc (sps : SeqParameterSet) : Fin 4 :=
  if sps.hasChroma then sps.chroma.chromaFormatIdc else 1

/-- `ChromaArrayType`. -/
def SeqParameterSet.chromaArrayType (sps : SeqParameterSet) : Fin 4 :=
  if sps.chromaFormatIdc = 3 ∧ sps.chroma.separateColourPlaneFlag = true then 0
  else sps.chromaFormatIdc

/-- `SubWidthC` (table 6-1). -/
def SeqParameterSet.subWidthC (sps : SeqParameterSet) : ℤ :=
  if sps.chromaFormatIdc = 3 then 1 else 2

/-- `SubHeightC` (table 6-1). -/
def SeqParameterSet.subHeightC (sps : SeqParameterSet) : ℤ :=
  if sps.chromaFormatIdc = 1 then 2 else 1

/-- `2 - frame_mbs_only_flag`. -/
def SeqParameterSet.fields (sps : SeqParameterSet) : ℤ := 2 - sps.frameMbsOnlyFlag.toNat

/-- `CropUnitX` (7-19, 7-21). -/
def SeqParameterSet.cropUnitX (sps : SeqParameterSet) : ℤ :=
  if sps.chromaArrayType = 0 then 1 else sps.subWidthC

/-- `CropUnitY` (7-20, 7-22). -/
def SeqParameterSet.cropUnitY (sps : SeqParameterSet) : ℤ :=
  if sps.chromaArrayType = 0 then sps.fields else sps.subHeightC * sps.fields

/-- The left and the right offset together. -/
def SeqParameterSet.cropX (sps : SeqParameterSet) : ℤ :=
  sps.frameCrop.elim 0 fun crop => (crop.left : ℕ) + (crop.right : ℕ)

/-- The top and the bottom offset together. -/
def SeqParameterSet.cropY (sps : SeqParameterSet) : ℤ :=
  sps.frameCrop.elim 0 fun crop => (crop.top : ℕ) + (crop.bottom : ℕ)

/-- The samples between the left and the right cropping offset. -/
def SeqParameterSet.width (sps : SeqParameterSet) : ℤ :=
  ((sps.picWidthInMbsMinus1 : ℕ) + 1) * 16 - sps.cropUnitX * sps.cropX

/-- The samples between the top and the bottom cropping offset. -/
def SeqParameterSet.height (sps : SeqParameterSet) : ℤ :=
  sps.fields * ((sps.picHeightInMapUnitsMinus1 : ℕ) + 1) * 16 - sps.cropUnitY * sps.cropY

/-! ## The NAL unit -/

/-- The bytes behind a run of `zeroRun` zeros, with a byte `03` before every one that is at most 3
and follows two zeros. -/
def insertEmulationPrevention : ℕ → List UInt8 → List UInt8
  | _, [] => []
  | zeroRun, b :: bs =>
    if 2 ≤ zeroRun ∧ b.toNat ≤ 3 then
      3 :: b :: insertEmulationPrevention (if b = 0 then 1 else 0) bs
    else b :: insertEmulationPrevention (if b = 0 then zeroRun + 1 else 0) bs

/-- A header byte, the payload with emulation prevention, and a final `03` behind a last byte 0. -/
def nalUnit (header : UInt8) (rbsp : List UInt8) : List UInt8 :=
  header :: (insertEmulationPrevention 0 rbsp ++ if rbsp.getLast? = some 0 then [3] else [])

end OpenDisplay.Protocol.SpsSyntax
