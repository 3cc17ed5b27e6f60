import OpenDisplay.Lib.Journal
import OpenDisplay.Protocol.Sps

/-! # The SPS parser with its arithmetic in a log

The parser of `Sps` once more, written so that it logs each integer it computes, as the operation
gives it, and then goes on with `wrap` of it. With `int32` for `wrap` it is the parser itself
(`erase_readSps`); with `id` it computes in unbounded integers, and decodes the syntax elements as they
are. The log also has each Exp-Golomb code that is read. -/

namespace OpenDisplay.Protocol.SpsTraced

open OpenDisplay.Lib.Journal
open OpenDisplay.Protocol.Sps (BitReader SpsDimensions int32 hasChromaInfo stripEmulationPrevention)
open OpenDisplay.Protocol.Sps.BitReader (bit leadingZeros)

inductive Event
  /-- An integer is computed. -/
  | int (x : ℤ)
  /-- A code with `zeros` leading zeros is read; behind its first one there are `rest` bits. -/
  | code (zeros rest : ℕ)

abbrev Traced := Logged Event BitReader

/-- The bits that are not read yet. -/
def bitsLeft (r : BitReader) : ℕ := 8 * r.data.length - r.pos

/-- A code begins with `zeros` zeros and a one. -/
def tellCode (zeros : ℕ) : Traced Unit := fun r => ([.code zeros (bitsLeft r)], some ((), r))

section parser

variable (wrap : ℤ → ℤ)

/-- The integer `x` is computed. -/
def int (x : ℤ) : Traced ℤ := do
  tell (.int x)
  return wrap x

/-- `n` turns of `value = (value << 1) | bit()`. -/
def bits : ℕ → ℤ → Traced ℤ
  | 0, value => return value
  | n + 1, value => do
    -- the operands of `|` have no order: at the end of the data no shift is counted
    let b ← lift bit
    let value ← int wrap (2 * value + b)
    bits n value

/-- `u(n)`. -/
def u (n : ℕ) : Traced ℤ := bits wrap n 0

/-- `ue()`. -/
def ue : Traced ℤ := do
  let zeros ← lift (leadingZeros 33)
  tellCode zeros
  let value ← bits wrap zeros 1
  int wrap (value - 1)

/-- `se()`. -/
def se : Traced ℤ := do
  let codeNum ← ue wrap
  if codeNum.tmod 2 = 0 then int wrap (-(codeNum.tdiv 2))
  else int wrap (codeNum + 1) >>= fun sum => return sum.tdiv 2

/-- The next scale of `SkipScalingList`. -/
def scale (lastScale nextScale : ℤ) : Traced ℤ :=
  if nextScale ≠ 0 then do
    let delta ← se wrap
    let sum ← int wrap (lastScale + delta)
    let sum ← int wrap (sum + 256)
    return sum.tmod 256
  else pure nextScale

/-- The loop of `SkipScalingList` with `n` entries to go. -/
def skipScales : ℕ → ℤ → ℤ → Traced Unit
  | 0, _, _ => return ()
  | n + 1, lastScale, nextScale => do
    let nextScale ← scale wrap lastScale nextScale
    skipScales n (if nextScale ≠ 0 then nextScale else lastScale) nextScale

/-- `SkipScalingList`. -/
def skipScalingList (size : ℕ) : Traced Unit := skipScales wrap size 8 8

/-- The scaling lists from the `i`-th on, `n` of them. -/
def skipScalingLists : ℕ → ℕ → Traced Unit
  | 0, _ => return ()
  | n + 1, i => do
    let present ← u wrap 1
    onlyIf (present = 1) (skipScalingList wrap (if i < 6 then 16 else 64))
    skipScalingLists n (i + 1)

/-- `n` calls of `se()`. -/
def skipSe : ℕ → Traced Unit
  | 0 => return ()
  | n + 1 => do
    let _ ← se wrap
    skipSe n

/-- The part that only the profiles with chroma information have. -/
def readChromaInfo : Traced ℤ := do
  let chromaFormatIdc ← ue wrap
  onlyIf (chromaFormatIdc = 3) (u wrap 1)
  let _ ← ue wrap
  let _ ← ue wrap
  let _ ← u wrap 1
  let present ← u wrap 1
  onlyIf (present = 1) (skipScalingLists wrap (if chromaFormatIdc ≠ 3 then 8 else 12) 0)
  return chromaFormatIdc

/-- `chroma_format_idc` of the profile. -/
def readChromaFormatIdc (profileIdc : ℤ) : Traced ℤ :=
  if hasChromaInfo profileIdc then readChromaInfo wrap else pure 1

/-- What follows `pic_order_cnt_type`. -/
def skipPicOrderCnt (picOrderCntType : ℤ) : Traced Unit := do
  if picOrderCntType = 0 then
    let _ ← ue wrap
  else if picOrderCntType = 1 then
    let _ ← u wrap 1
    let _ ← se wrap
    let _ ← se wrap
    skipSe wrap (← ue wrap).toNat

/-- `frame_cropping_flag` and the four offsets: left, right, top, bottom. -/
def readCrop : Traced (ℤ × ℤ × ℤ × ℤ) := do
  if (← u wrap 1) = 1 then
    let cropLeft ← ue wrap
    let cropRight ← ue wrap
    let cropTop ← ue wrap
    let cropBottom ← ue wrap
    return (cropLeft, cropRight, cropTop, cropBottom)
  else return (0, 0, 0, 0)

/-- The syntax elements that bear on the size. -/
structure Elements where
  chromaFormatIdc : ℤ
  picWidthInMbsMinus1 : ℤ
  picHeightInMapUnitsMinus1 : ℤ
  frameMbsOnlyFlag : ℤ
  cropLeft : ℤ
  cropRight : ℤ
  cropTop : ℤ
  cropBottom : ℤ

/-- The syntax elements in their order. -/
def readElements : Traced Elements := do
  let profileIdc ← u wrap 8
  let _ ← u wrap 8
  let _ ← u wrap 8
  let _ ← ue wrap
  let chromaFormatIdc ← readChromaFormatIdc wrap profileIdc
  let _ ← ue wrap
  skipPicOrderCnt wrap (← ue wrap)
  let _ ← ue wrap
  let _ ← u wrap 1
  let picWidthInMbsMinus1 ← ue wrap
  let picHeightInMapUnitsMinus1 ← ue wrap
  let frameMbsOnlyFlag ← u wrap 1
  onlyIf (frameMbsOnlyFlag = 0) (u wrap 1)
  let _ ← u wrap 1
  let crop ← readCrop wrap
  return ⟨chromaFormatIdc, picWidthInMbsMinus1, picHeightInMapUnitsMinus1, frameMbsOnlyFlag,
    crop.1, crop.2.1, crop.2.2.1, crop.2.2.2⟩

namespace Elements

variable (el : Elements)

/-- `cropUnitX`. -/
def cropUnitX : ℤ :=
  if el.chromaFormatIdc = 0 then 1
  else if el.chromaFormatIdc = 1 ∨ el.chromaFormatIdc = 2 then 2 else 1

/-- `cropUnitY`. -/
def cropUnitY : ℤ :=
  if el.chromaFormatIdc = 0 then 2 - el.frameMbsOnlyFlag
  else (if el.chromaFormatIdc = 1 then 2 else 1) * (2 - el.frameMbsOnlyFlag)

end Elements

/-- The size from the elements. -/
def size (el : Elements) : Traced (Option SpsDimensions) := do
  let mbs ← int wrap (el.picWidthInMbsMinus1 + 1)
  let coded ← int wrap (mbs * 16)
  let crop ← int wrap (el.cropLeft + el.cropRight)
  let crop ← int wrap (el.cropUnitX * crop)
  let width ← int wrap (coded - crop)
  let units ← int wrap (el.picHeightInMapUnitsMinus1 + 1)
  let mbs ← int wrap ((2 - el.frameMbsOnlyFlag) * units)
  let coded ← int wrap (mbs * 16)
  let crop ← int wrap (el.cropTop + el.cropBottom)
  let crop ← int wrap (el.cropUnitY * crop)
  let height ← int wrap (coded - crop)
  return if width ≤ 0 ∨ height ≤ 0 then none else some ⟨width, height⟩

def readSps : Traced (Option SpsDimensions) := readElements wrap >>= size wrap

end parser

/-! ## It is the parser -/

@[simp] theorem erase_tellCode (zeros : ℕ) : erase (tellCode zeros) = pure () := rfl

@[simp] theorem erase_int (wrap : ℤ → ℤ) (x : ℤ) : erase (int wrap x) = pure (wrap x) := rfl

@[simp] theorem erase_bits (n : ℕ) (value : ℤ) :
    erase (bits int32 n value) = BitReader.bits n value := by
  induction n generalizing value with
  | zero => rfl
  | succ n ih => simp [bits, BitReader.bits, ih]

@[simp] theorem erase_u (n : ℕ) : erase (u int32 n) = BitReader.u n := erase_bits n 0

@[simp] theorem erase_ue : erase (ue int32) = BitReader.ue := by simp [ue, BitReader.ue]

@[simp] theorem erase_se : erase (se int32) = BitReader.se := by simp [se, BitReader.se]

@[simp] theorem erase_skipScales (n : ℕ) (lastScale nextScale : ℤ) :
    erase (skipScales int32 n lastScale nextScale) = Sps.skipScales n lastScale nextScale := by
  induction n generalizing lastScale nextScale with
  | zero => rfl
  | succ n ih =>
    simp only [skipScales, scale, Sps.skipScales, erase_bind, erase_ite, erase_pure, erase_se,
      erase_int, pure_bind, bind_assoc, ite_bind, ih]

@[simp] theorem erase_skipScalingLists (n i : ℕ) :
    erase (skipScalingLists int32 n i) = Sps.skipScalingLists n i := by
  induction n generalizing i with
  | zero => rfl
  | succ n ih =>
    simp only [skipScalingLists, onlyIf, skipScalingList, Sps.skipScalingLists, Sps.skipScalingList,
      erase_bind, erase_ite, erase_pure, erase_u, erase_skipScales, pure_bind, bind_assoc, ite_bind, ih]

@[simp] theorem erase_skipSe (n : ℕ) : erase (skipSe int32 n) = Sps.skipSe n := by
  induction n with
  | zero => rfl
  | succ n ih => simp [skipSe, Sps.skipSe, ih]

@[simp] theorem erase_readChromaInfo : erase (readChromaInfo int32) = Sps.readChromaInfo := by
  simp only [readChromaInfo, onlyIf, Sps.readChromaInfo, erase_bind, erase_ite, erase_pure, erase_u,
    erase_ue, erase_skipScalingLists, pure_bind, bind_assoc, ite_bind]

@[simp] theorem erase_skipPicOrderCnt (picOrderCntType : ℤ) :
    erase (skipPicOrderCnt int32 picOrderCntType) = Sps.skipPicOrderCnt picOrderCntType := by
  simp [skipPicOrderCnt, Sps.skipPicOrderCnt]

@[simp] theorem erase_readCrop : erase (readCrop int32) = Sps.readCrop := by
  simp [readCrop, Sps.readCrop]

theorem erase_size (el : Elements) : erase (size int32 el) =
    pure (Sps.dimensions el.chromaFormatIdc el.picWidthInMbsMinus1 el.picHeightInMapUnitsMinus1
      el.frameMbsOnlyFlag (el.cropLeft, el.cropRight, el.cropTop, el.cropBottom)) := rfl

/-- **Without its log the traced parser is the parser.** -/
theorem erase_readSps : erase (readSps int32) = Sps.readSps := by
  simp only [readSps, readElements, readChromaFormatIdc, onlyIf, Sps.readSps, erase_bind, erase_size, erase_ite, erase_pure,
    erase_u, erase_ue, erase_readChromaInfo, erase_skipPicOrderCnt, erase_readCrop, bind_assoc,
    pure_bind, ite_bind]

end OpenDisplay.Protocol.SpsTraced
