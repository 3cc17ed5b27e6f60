import Mathlib.Data.Int.Notation
import Mathlib.Tactic.Common

/-! # The SPS parser

`parseSpsDimensions` reads a sequence parameter set bit by bit and returns the size of the displayed
picture. The reader is a state monad over `BitReader` that stops, with no result, where the source
throws.

The source computes in `int`. `int32` wraps an integer into the range of that type, and stands
wherever the source adds, subtracts, multiplies or shifts. -/

namespace OpenDisplay.Protocol.Sps

/-- The value that a 32-bit `int` keeps of `x`. -/
def int32 (x : ℤ) : ℤ := x.bmod 4294967296

/-- `kProfilesWithChromaInfo`. -/
def kProfilesWithChromaInfo : List ℤ :=
  [100, 110, 122, 244, 44, 83, 86, 118, 128, 138, 139, 134, 135]

/-- `HasChromaInfo`. -/
def hasChromaInfo (profileIdc : ℤ) : Bool := kProfilesWithChromaInfo.contains profileIdc

/-- The loop of `StripEmulationPrevention` after a run of `zeroRun` zeros: a byte `03` after two zeros
or more is left out. -/
def strip : ℕ → List UInt8 → List UInt8
  | _, [] => []
  | zeroRun, b :: bs =>
    if 2 ≤ zeroRun ∧ b = 3 then strip 0 bs
    else b :: strip (if b = 0 then zeroRun + 1 else 0) bs

/-- `StripEmulationPrevention`: the NALU without its header byte and without the emulation
prevention bytes. -/
def stripEmulationPrevention (nalu : List UInt8) : List UInt8 := strip 0 (nalu.drop 1)

/-- `BitReader`: the bytes and the position in bits. -/
structure BitReader where
  data : List UInt8
  pos : ℕ

/-- A read, which may throw. -/
abbrev Read := StateT BitReader Option

namespace BitReader

/-- `bit()`. -/
def bit : Read ℤ := do
  let r ← get
  match r.data[r.pos / 8]? with
  | none => failure
  | some b =>
    set { r with pos := r.pos + 1 }
    return ((b.toNat >>> (7 - r.pos % 8)) % 2 : ℕ)

theorem run_bit (r : BitReader) : bit.run r = r.data[r.pos / 8]?.map fun b =>
    ((((b.toNat >>> (7 - r.pos % 8)) % 2 : ℕ) : ℤ), { r with pos := r.pos + 1 }) := by
  unfold bit
  rw [StateT.run_bind, StateT.run_get, pure_bind]
  cases r.data[r.pos / 8]? <;> rfl

/-- `n` turns of `value = (value << 1) | bit()`. -/
def bits : ℕ → ℤ → Read ℤ
  | 0, value => return value
  | n + 1, value => do
    let b ← bit
    bits n (int32 (2 * value + b))

/-- `u(n)`. -/
def u (n : ℕ) : Read ℤ := bits n 0

/-- The zeros before the first one, of which `limit` may be read. -/
def leadingZeros : ℕ → Read ℕ
  | 0 => failure
  | limit + 1 => do
    let b ← bit
    if b = 0 then return (← leadingZeros limit) + 1 else return 0

/-- `ue()`: it throws at the 33rd zero. -/
def ue : Read ℤ := do
  let zeros ← leadingZeros 33
  let value ← bits zeros 1
  return int32 (value - 1)

/-- `se()`; division and remainder are those of C++, towards zero. -/
def se : Read ℤ := do
  let codeNum ← ue
  if codeNum.tmod 2 = 0 then return int32 (-(codeNum.tdiv 2))
  else return (int32 (codeNum + 1)).tdiv 2

end BitReader

open BitReader

/-- The loop of `SkipScalingList` with `n` entries to go. -/
def skipScales : ℕ → ℤ → ℤ → Read Unit
  | 0, _, _ => return ()
  | n + 1, lastScale, nextScale => do
    let nextScale ←
      if nextScale ≠ 0 then
        se >>= fun delta => pure ((int32 (int32 (lastScale + delta) + 256)).tmod 256)
      else pure nextScale
    skipScales n (if nextScale ≠ 0 then nextScale else lastScale) nextScale

/-- `SkipScalingList`. -/
def skipScalingList (size : ℕ) : Read Unit := skipScales size 8 8

/-- The scaling lists from the `i`-th on, `n` of them. -/
def skipScalingLists : ℕ → ℕ → Read Unit
  | 0, _ => return ()
  | n + 1, i => do
    if (← u 1) = 1 then skipScalingList (if i < 6 then 16 else 64)
    skipScalingLists n (i + 1)

/-- `n` calls of `se()`. -/
def skipSe : ℕ → Read Unit
  | 0 => return ()
  | n + 1 => do
    let _ ← se
    skipSe n

/-- The part that only the profiles with chroma information have; the result is
`chroma_format_idc`. -/
def readChromaInfo : Read ℤ := do
  let chromaFormatIdc ← ue
  if chromaFormatIdc = 3 then let _ ← u 1
  let _ ← ue
  let _ ← ue
  let _ ← u 1
  if (← u 1) = 1 then skipScalingLists (if chromaFormatIdc ≠ 3 then 8 else 12) 0
  return chromaFormatIdc

/-- What follows `pic_order_cnt_type`. -/
def skipPicOrderCnt (picOrderCntType : ℤ) : Read Unit := do
  if picOrderCntType = 0 then
    let _ ← ue
  else if picOrderCntType = 1 then
    let _ ← u 1
    let _ ← se
    let _ ← se
    skipSe (← ue).toNat

/-- `frame_cropping_flag` and the four offsets: left, right, top, bottom. -/
def readCrop : Read (ℤ × ℤ × ℤ × ℤ) := do
  if (← u 1) = 1 then
    let cropLeft ← ue
    let cropRight ← ue
    let cropTop ← ue
    let cropBottom ← ue
    return (cropLeft, cropRight, cropTop, cropBottom)
  else return (0, 0, 0, 0)

/-- `SpsDimensions`. -/
structure SpsDimensions where
  width : ℤ
  height : ℤ
  deriving DecidableEq

/-- The size of the picture from the syntax elements that bear on it. -/
def dimensions (chromaFormatIdc picWidthInMbsMinus1 picHeightInMapUnitsMinus1 frameMbsOnlyFlag : ℤ)
    (crop : ℤ × ℤ × ℤ × ℤ) : Option SpsDimensions :=
  let (cropLeft, cropRight, cropTop, cropBottom) := crop
  let subWidthC : ℤ := if chromaFormatIdc = 1 ∨ chromaFormatIdc = 2 then 2 else 1
  let subHeightC : ℤ := if chromaFormatIdc = 1 then 2 else 1
  let cropUnitX : ℤ := if chromaFormatIdc = 0 then 1 else subWidthC
  let cropUnitY : ℤ :=
    if chromaFormatIdc = 0 then 2 - frameMbsOnlyFlag else subHeightC * (2 - frameMbsOnlyFlag)
  let width := int32 (int32 (int32 (picWidthInMbsMinus1 + 1) * 16) -
    int32 (cropUnitX * int32 (cropLeft + cropRight)))
  let height := int32 (int32 (int32 ((2 - frameMbsOnlyFlag) *
      int32 (picHeightInMapUnitsMinus1 + 1)) * 16) -
    int32 (cropUnitY * int32 (cropTop + cropBottom)))
  if width ≤ 0 ∨ height ≤ 0 then none else some ⟨width, height⟩

/-- The syntax elements in their order. -/
def readSps : Read (Option SpsDimensions) := do
  let profileIdc ← u 8
  let _ ← u 8
  let _ ← u 8
  let _ ← ue
  let chromaFormatIdc ← if hasChromaInfo profileIdc then readChromaInfo else pure 1
  let _ ← ue
  skipPicOrderCnt (← ue)
  let _ ← ue
  let _ ← u 1
  let picWidthInMbsMinus1 ← ue
  let picHeightInMapUnitsMinus1 ← ue
  let frameMbsOnlyFlag ← u 1
  if frameMbsOnlyFlag = 0 then let _ ← u 1
  let _ ← u 1
  let crop ← readCrop
  return dimensions chromaFormatIdc picWidthInMbsMinus1 picHeightInMapUnitsMinus1
    frameMbsOnlyFlag crop

/-- `ParseSpsDimensions`. -/
def parseSpsDimensions (sps : List UInt8) : Option SpsDimensions :=
  if sps.length < 4 then none
  else match readSps.run ⟨stripEmulationPrevention sps, 0⟩ with
    | none => none
    | some (dims, _) => dims

/-- A High-profile SPS of a 640x480 stream. -/
example : parseSpsDimensions [0x67, 0x64, 0x00, 0x28, 0xAC, 0xCC, 0x60, 0x28, 0x0F, 0x64] =
    some ⟨640, 480⟩ := by decide +kernel

end OpenDisplay.Protocol.Sps
