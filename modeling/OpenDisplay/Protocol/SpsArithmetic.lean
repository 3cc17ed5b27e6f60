import Mathlib.Algebra.Order.Ring.Int
import Mathlib.Tactic.Positivity
import OpenDisplay.Protocol.SpsReader
import OpenDisplay.Protocol.SpsTraced

/-! # When the arithmetic of the SPS parser is safe

An `int` holds the Exp-Golomb codes with at most 30 leading zeros, while `ue()` admits 32. If all codes
have at most that many, each integer read fits, and so do those computed from it, up to the products of
the size. `safe_iff` says that these are the only two ways for an integer to leave the range. -/

namespace OpenDisplay.Protocol.SpsArithmetic

open OpenDisplay.Lib.Journal OpenDisplay.Protocol.SpsTraced
open OpenDisplay.Protocol.Sps (BitReader SpsDimensions int32 hasChromaInfo stripEmulationPrevention
  parseSpsDimensions)
open OpenDisplay.Protocol.Sps.BitReader (bit leadingZeros run_bit)
open OpenDisplay.Protocol.SpsReader (int32_of_range)

/-! ## The law -/

/-- An integer in the log fits into an `int`. -/
def InRange : Event → Prop
  | .int x => -2147483648 ≤ x ∧ x < 2147483648
  | .code _ _ => True

/-- A code in the log has at most 30 leading zeros, or the data end before its 31st bit behind the
one. -/
def Fits : Event → Prop
  | .int _ => True
  | .code zeros rest => zeros ≤ 30 ∨ rest < 31

def start (sps : List UInt8) : BitReader := ⟨stripEmulationPrevention sps, 0⟩

/-- What `ParseSpsDimensions` computes and reads. -/
def computed (sps : List UInt8) : List Event :=
  if sps.length < 4 then [] else (readSps int32 (start sps)).1

/-- The codes of the elements, read in unbounded integers. -/
def codes (sps : List UInt8) : List Event :=
  if sps.length < 4 then [] else (readElements id (start sps)).1

/-- The elements, read in unbounded integers. -/
def decode (sps : List UInt8) : Option Elements :=
  if sps.length < 4 then none else (readElements id (start sps)).2.map Prod.fst

/-- The width in unbounded integers. -/
def width (el : Elements) : ℤ :=
  (el.picWidthInMbsMinus1 + 1) * 16 - el.cropUnitX * (el.cropLeft + el.cropRight)

/-- The height in unbounded integers. -/
def height (el : Elements) : ℤ :=
  (2 - el.frameMbsOnlyFlag) * (el.picHeightInMapUnitsMinus1 + 1) * 16 -
    el.cropUnitY * (el.cropTop + el.cropBottom)

/-- No integer leaves the range of `int`, and a size that is returned is the one of the elements. -/
structure Safe (sps : List UInt8) : Prop where
  inRange : ∀ e ∈ computed sps, InRange e
  exact : ∀ d, parseSpsDimensions sps = some d → ∃ el ∈ decode sps,
    d.width = width el ∧ d.height = height el ∧
    0 < d.width ∧ d.width ≤ 16 * (el.picWidthInMbsMinus1 + 1) ∧
    0 < d.height ∧
      d.height ≤ 16 * (2 - el.frameMbsOnlyFlag) * (el.picHeightInMapUnitsMinus1 + 1)

/-- The coded size and the cropped samples fit into an `int`. -/
structure SizeFits (el : Elements) : Prop where
  codedWidth : (el.picWidthInMbsMinus1 + 1) * 16 ≤ 2147483647
  cropX : el.cropUnitX * (el.cropLeft + el.cropRight) ≤ 2147483647
  codedHeight : (2 - el.frameMbsOnlyFlag) * (el.picHeightInMapUnitsMinus1 + 1) * 16 ≤ 2147483647
  cropY : el.cropUnitY * (el.cropTop + el.cropBottom) ≤ 2147483647

/-! ## The bits of a code -/

variable {α β : Type} {Q Q' : α → Prop}

/-- The computation in `int` and the one in unbounded integers agree, and the result has `Q`. -/
abbrev Agrees (Q : α → Prop) (m m' : Traced α) : Prop := Agree InRange Fits Q m m'

theorem agree_int {x : ℤ} (hlo : -2147483648 ≤ x) (hhi : x < 2147483648) :
    Agrees (· = x) (int int32 x) (int id x) := by
  have htell : Agrees (fun _ => True) (tell (.int x)) (tell (.int x)) :=
    Agree.tell ⟨fun _ => trivial, fun _ => ⟨hlo, hhi⟩⟩
  refine htell.bind fun _ _ => ?_
  rw [int32_of_range hlo hhi]
  exact Agree.pure rfl

/-- A bit is read if one is left. -/
theorem bit_cases (r : BitReader) : (bitsLeft r = 0 ∧ bit r = none) ∨
    ∃ b r', (b = 0 ∨ b = 1) ∧ bit r = some (b, r') ∧ bitsLeft r = bitsLeft r' + 1 := by
  have hbit : bit r = _ := run_bit r
  unfold bitsLeft
  cases hbyte : r.data[r.pos / 8]? with
  | none =>
    left
    have hlen := List.getElem?_eq_none_iff.1 hbyte
    refine ⟨by omega, ?_⟩
    rw [hbit, hbyte]
    rfl
  | some b =>
    right
    obtain ⟨hlen, -⟩ := List.getElem?_eq_some_iff.1 hbyte
    refine ⟨((b.toNat >>> (7 - r.pos % 8)) % 2 : ℕ), { r with pos := r.pos + 1 }, by omega, ?_, ?_⟩
    · rw [hbit, hbyte]
      rfl
    · dsimp only
      omega

/-- Bits shifted into `v` stay in the range while there is room for those that are wanted or left. -/
theorem agreeAt_bits : ∀ (n k : ℕ) (v : ℤ) (r : BitReader), 0 ≤ v → v < 2 ^ k →
    k + n ≤ 31 ∨ bitsLeft r + k ≤ 31 →
      AgreeAt InRange Fits (fun a => v ≤ a ∧ a < 2147483648 ∧ a < 2 ^ (k + n))
        (bits int32 n v) (bits id n v) r
  | 0, k, v, r, _, hk, hroom => by
    have hpow : (2 : ℤ) ^ k ≤ 2 ^ 31 := by
      refine pow_le_pow_right₀ (by decide) ?_
      omega
    exact Agree.pure (Q := fun a => v ≤ a ∧ a < 2147483648 ∧ a < 2 ^ (k + 0))
      ⟨le_rfl, lt_of_lt_of_le hk hpow, hk⟩ r
  | n + 1, k, v, r, hv, hk, hroom => by
    have hlift : Agrees (fun _ => True) (lift bit) (lift bit) := Agree.lift fun _ _ _ => trivial
    refine (hlift r).bind fun x hx _ => ?_
    obtain ⟨-, hnone⟩ | ⟨b, r', hb, hsome, hleft⟩ := bit_cases r
    · rw [show (lift bit : Traced ℤ) r = ([], bit r) from rfl, hnone] at hx
      cases hx
    · rw [show (lift bit : Traced ℤ) r = ([], bit r) from rfl, hsome] at hx
      obtain rfl := Option.some.inj hx
      have hpow : (2 : ℤ) ^ (k + 1) ≤ 2 ^ 31 := by
        refine pow_le_pow_right₀ (by decide) ?_
        omega
      have hdouble : (2 : ℤ) ^ (k + 1) = 2 * 2 ^ k := by ring
      have hlt : 2 * v + b < 2 ^ (k + 1) := by omega
      have hint := agree_int (x := 2 * v + b) (by omega) (lt_of_lt_of_le hlt hpow)
      refine (hint r').bind ?_
      rintro ⟨y, r''⟩ hy rfl
      have hr : r'' = r' := by
        cases hy
        rfl
      subst hr
      have ih := agreeAt_bits n (k + 1) (2 * v + b) r'' (by omega) hlt (by omega)
      refine ⟨ih.events, ih.same, fun he z hz => ?_⟩
      obtain ⟨h1, h2, h3⟩ := ih.result he z hz
      rw [show k + 1 + n = k + (n + 1) by omega] at h3
      exact ⟨by omega, h2, h3⟩

theorem not_every_bits : ∀ (n k : ℕ) (v : ℤ) (r : BitReader), 2 ^ k ≤ v → k ≤ 30 → 30 < k + n →
    30 < bitsLeft r + k → ¬Every InRange (bits int32 n v) r
  | 0, k, v, r, _, hk, hn, _ => by omega
  | n + 1, k, v, r, hv, hk, hn, hleft => by
    intro he
    obtain ⟨hzero, -⟩ | ⟨b, r', hb, hsome, hrest⟩ := bit_cases r
    · omega
    · have hnext := (every_bind.1 he).2 (b, r') (by exact hsome)
      obtain ⟨hint, hbits⟩ := every_bind.1 hnext
      obtain ⟨-, hhi⟩ : InRange (.int (2 * v + b)) := hint _ (List.mem_singleton_self _)
      have hdouble : (2 : ℤ) ^ (k + 1) = 2 * 2 ^ k := by ring
      have hpos : (0 : ℤ) < 2 ^ k := by positivity
      have hpow : (2 : ℤ) ^ (k + 1) < 2 ^ 31 := by omega
      have hk' : k + 1 < 31 := (pow_lt_pow_iff_right₀ (by decide)).1 hpow
      have hwrap : int32 (2 * v + b) = 2 * v + b := int32_of_range (by omega) hhi
      have hbits' := hbits (int32 (2 * v + b), r') rfl
      rw [hwrap] at hbits'
      exact not_every_bits n (k + 1) (2 * v + b) r' (by omega) (by omega) (by omega) (by omega)
        hbits'

/-! ## The reads -/

theorem agree_u {n : ℕ} (hn : n ≤ 31) : Agrees (fun a => 0 ≤ a ∧ a < 2 ^ n) (u int32 n) (u id n) := by
  intro r
  have h := agreeAt_bits n 0 0 r le_rfl (by decide) (.inl (by omega))
  refine ⟨h.events, h.same, fun he x hx => ?_⟩
  obtain ⟨h1, -, h3⟩ := h.result he x hx
  rw [Nat.zero_add] at h3
  exact ⟨h1, h3⟩

theorem agree_flag : Agrees (fun a => a = 0 ∨ a = 1) (u int32 1) (u id 1) :=
  (agree_u (by decide)).weaken fun a ha => by omega

/-- A number that a code with at most 30 leading zeros gives. -/
def Code (a : ℤ) : Prop := 0 ≤ a ∧ a ≤ 2147483646

/-- **A code leaves the range exactly if it has more than 30 leading zeros** and enough bits behind
them. -/
theorem agree_ue : Agrees Code (ue int32) (ue id) := by
  have hzeros : Agrees (fun _ => True) (lift (leadingZeros 33)) (lift (leadingZeros 33)) :=
    Agree.lift fun _ _ _ => trivial
  refine hzeros.bind fun zeros _ r => ?_
  by_cases hfits : Fits (.code zeros (bitsLeft r))
  · have htell : AgreeAt InRange Fits (fun _ => True) (tellCode zeros) (tellCode zeros) r := by
      refine ⟨?_, fun _ => rfl, fun _ _ _ => trivial⟩
      simp [Every, tellCode, InRange, hfits]
    refine htell.bind fun x hx _ => ?_
    obtain rfl := Option.some.inj hx
    unfold Fits at hfits
    have hbits := agreeAt_bits zeros 1 1 r (by decide) (by decide) (by omega)
    refine hbits.bind fun y _ hy => ?_
    obtain ⟨hlo, hhi, -⟩ := hy
    have hint := agree_int (x := y.1 - 1) (by omega) (by omega)
    exact hint.weaken (fun a ha => ⟨by omega, by omega⟩) y.2
  · refine AgreeAt.of_not_every ?_ ?_
    · intro he
      have hbits := (every_bind.1 ((every_bind.1 he).2 ((), r) rfl)).1
      unfold Fits at hfits
      have hone : ¬Every InRange (bits int32 zeros 1) r :=
        not_every_bits zeros 0 1 r (by decide) (by decide) (by omega) (by omega)
      exact hone hbits
    · intro he
      exact hfits ((every_bind.1 he).1 _ (List.mem_singleton_self _))

theorem agree_se : Agrees (fun a => -1073741823 ≤ a ∧ a ≤ 1073741823) (se int32) (se id) := by
  refine agree_ue.bind fun codeNum hcode => ?_
  obtain ⟨hlo, hhi⟩ := hcode
  have hdiv : codeNum.tdiv 2 = codeNum / 2 := Int.tdiv_eq_ediv_of_nonneg hlo
  split
  · rw [hdiv]
    exact (agree_int (by omega) (by omega)).weaken fun a ha => by omega
  · refine (agree_int (by omega) (by omega)).bind ?_
    rintro sum rfl
    have hsum : (codeNum + 1).tdiv 2 = (codeNum + 1) / 2 := Int.tdiv_eq_ediv_of_nonneg (by omega)
    exact Agree.pure (by omega)

/-! ### Scaling lists -/

/-- A scale, which a hostile `delta_scale` may make negative. -/
def Scale (a : ℤ) : Prop := -256 < a ∧ a < 256

theorem agree_scale {lastScale nextScale : ℤ} (hlast : Scale lastScale) (hnext : Scale nextScale) :
    Agrees Scale (scale int32 lastScale nextScale) (scale id lastScale nextScale) := by
  obtain ⟨hlo, hhi⟩ := hlast
  refine Agree.ite (fun _ => ?_) fun _ => Agree.pure hnext
  refine agree_se.bind fun delta hdelta => ?_
  refine (agree_int (by omega) (by omega)).bind ?_
  rintro sum rfl
  refine (agree_int (by omega) (by omega)).bind ?_
  rintro sum rfl
  exact Agree.pure ⟨Int.lt_tmod_of_pos _ (by decide), Int.tmod_lt_of_pos _ (by decide)⟩

theorem agree_skipScales : ∀ (n : ℕ) (lastScale nextScale : ℤ), Scale lastScale → Scale nextScale →
    Agrees (fun _ => True) (skipScales int32 n lastScale nextScale)
      (skipScales id n lastScale nextScale)
  | 0, _, _, _, _ => Agree.pure trivial
  | n + 1, lastScale, nextScale, hlast, hnext =>
    (agree_scale hlast hnext).bind fun next hnext =>
      agree_skipScales n (if next ≠ 0 then next else lastScale) next (by split <;> assumption) hnext

theorem agree_skipScalingList (size : ℕ) :
    Agrees (fun _ => True) (skipScalingList int32 size) (skipScalingList id size) :=
  agree_skipScales size 8 8 (by unfold Scale; decide) (by unfold Scale; decide)

theorem agree_skipScalingLists : ∀ n i : ℕ,
    Agrees (fun _ => True) (skipScalingLists int32 n i) (skipScalingLists id n i)
  | 0, _ => Agree.pure trivial
  | n + 1, i =>
    agree_flag.bind fun _ _ => (agree_skipScalingList _).onlyIf.bind fun _ _ =>
      agree_skipScalingLists n (i + 1)

/-! ### The elements -/

theorem agree_skipSe : ∀ n : ℕ, Agrees (fun _ => True) (skipSe int32 n) (skipSe id n)
  | 0 => Agree.pure trivial
  | n + 1 => agree_se.bind fun _ _ => agree_skipSe n

theorem agree_readChromaInfo : Agrees (fun _ => True) (readChromaInfo int32) (readChromaInfo id) :=
  agree_ue.bind fun _ _ => agree_flag.onlyIf.bind fun _ _ => agree_ue.bind fun _ _ =>
    agree_ue.bind fun _ _ => agree_flag.bind fun _ _ => agree_flag.bind fun _ _ =>
      (agree_skipScalingLists _ 0).onlyIf.bind fun _ _ => Agree.pure trivial

theorem agree_readChromaFormatIdc (profileIdc : ℤ) : Agrees (fun _ => True)
    (readChromaFormatIdc int32 profileIdc) (readChromaFormatIdc id profileIdc) :=
  Agree.ite (fun _ => agree_readChromaInfo) fun _ => Agree.pure trivial

theorem agree_skipPicOrderCnt (picOrderCntType : ℤ) : Agrees (fun _ => True)
    (skipPicOrderCnt int32 picOrderCntType) (skipPicOrderCnt id picOrderCntType) := by
  refine Agree.ite (fun _ => agree_ue.bind fun _ _ => Agree.pure trivial) fun _ => ?_
  refine Agree.ite (fun _ => ?_) fun _ => Agree.pure trivial
  exact agree_flag.bind fun _ _ => agree_se.bind fun _ _ => agree_se.bind fun _ _ =>
    agree_ue.bind fun n _ => agree_skipSe n.toNat

theorem agree_readCrop : Agrees (fun crop => Code crop.1 ∧ Code crop.2.1 ∧ Code crop.2.2.1 ∧
    Code crop.2.2.2) (readCrop int32) (readCrop id) := by
  refine agree_flag.bind fun present _ => ?_
  split
  · exact agree_ue.bind fun left hleft => agree_ue.bind fun right hright =>
      agree_ue.bind fun top htop => agree_ue.bind fun bottom hbottom =>
        Agree.pure ⟨hleft, hright, htop, hbottom⟩
  · have hzero : Code 0 := ⟨le_rfl, by decide⟩
    exact Agree.pure ⟨hzero, hzero, hzero, hzero⟩

/-- The elements are numbers of codes and a flag. -/
structure Read (el : Elements) : Prop where
  picWidthInMbsMinus1 : Code el.picWidthInMbsMinus1
  picHeightInMapUnitsMinus1 : Code el.picHeightInMapUnitsMinus1
  frameMbsOnlyFlag : el.frameMbsOnlyFlag = 0 ∨ el.frameMbsOnlyFlag = 1
  cropLeft : Code el.cropLeft
  cropRight : Code el.cropRight
  cropTop : Code el.cropTop
  cropBottom : Code el.cropBottom

theorem agree_readElements : Agrees Read (readElements int32) (readElements id) := by
  refine (agree_u (by decide)).bind fun profileIdc _ => (agree_u (by decide)).bind fun _ _ =>
    (agree_u (by decide)).bind fun _ _ => agree_ue.bind fun _ _ =>
      (agree_readChromaFormatIdc profileIdc).bind fun chromaFormatIdc _ => agree_ue.bind fun _ _ =>
        agree_ue.bind fun picOrderCntType _ => (agree_skipPicOrderCnt picOrderCntType).bind fun _ _ =>
          agree_ue.bind fun _ _ => agree_flag.bind fun _ _ => ?_
  refine agree_ue.bind fun width hwidth => agree_ue.bind fun height hheight =>
    agree_flag.bind fun frameMbsOnlyFlag hframe => agree_flag.onlyIf.bind fun _ _ =>
      agree_flag.bind fun _ _ => agree_readCrop.bind fun crop hcrop => ?_
  obtain ⟨hleft, hright, htop, hbottom⟩ := hcrop
  exact Agree.pure ⟨hwidth, hheight, hframe, hleft, hright, htop, hbottom⟩

/-! ## The size -/

variable {el : Elements}

/-- `m` macroblocks and the cropping of `a` and `b` units: the integers fit if the products do. -/
theorem side_inRange {m u a b : ℤ} (hm : 1 ≤ m ∧ m ≤ 2147483647) (hu : 1 ≤ u ∧ u ≤ 4) (ha : Code a)
    (hb : Code b) :
    (InRange (.int (m * 16)) ∧ InRange (.int (a + b)) ∧ InRange (.int (u * int32 (a + b))) ∧
      InRange (.int (int32 (m * 16) - int32 (u * int32 (a + b))))) ↔
    m * 16 ≤ 2147483647 ∧ u * (a + b) ≤ 2147483647 := by
  obtain ⟨⟨ha0, -⟩, hb0, -⟩ := And.intro ha hb
  constructor
  · rintro ⟨⟨-, hcoded⟩, ⟨hlo, hsum⟩, ⟨-, hcrop⟩, -⟩
    rw [int32_of_range hlo hsum] at hcrop
    exact ⟨by omega, by omega⟩
  · rintro ⟨hcoded, hcrop⟩
    have hle : a + b ≤ u * (a + b) := le_mul_of_one_le_left (by omega) hu.1
    rw [int32_of_range (by omega) (by omega), int32_of_range (x := m * 16) (by omega) (by omega),
      int32_of_range (by omega) (by omega)]
    exact ⟨⟨by omega, by omega⟩, ⟨by omega, by omega⟩, ⟨by omega, by omega⟩, by omega, by omega⟩

/-- And they are not wrapped. -/
theorem side_eq {m u a b : ℤ} (hm : 1 ≤ m ∧ m ≤ 2147483647) (hu : 1 ≤ u ∧ u ≤ 4) (ha : Code a)
    (hb : Code b) (hcoded : m * 16 ≤ 2147483647) (hcrop : u * (a + b) ≤ 2147483647) :
    int32 (int32 (m * 16) - int32 (u * int32 (a + b))) = m * 16 - u * (a + b) := by
  obtain ⟨⟨ha0, -⟩, hb0, -⟩ := And.intro ha hb
  have hle : a + b ≤ u * (a + b) := le_mul_of_one_le_left (by omega) hu.1
  rw [int32_of_range (x := a + b) (by omega) (by omega),
    int32_of_range (x := m * 16) (by omega) (by omega),
    int32_of_range (x := u * (a + b)) (by omega) (by omega), int32_of_range (by omega) (by omega)]

theorem cropUnitX_range (el : Elements) : 1 ≤ el.cropUnitX ∧ el.cropUnitX ≤ 4 := by
  unfold Elements.cropUnitX
  split_ifs <;> decide

theorem cropUnitY_range (h : Read el) : 1 ≤ el.cropUnitY ∧ el.cropUnitY ≤ 4 := by
  have hframe := h.frameMbsOnlyFlag
  unfold Elements.cropUnitY
  split_ifs <;> omega

theorem mbs_eq {n : ℤ} (h : Code n) : int32 (n + 1) = n + 1 := by
  obtain ⟨hlo, hhi⟩ := h
  exact int32_of_range (by omega) (by omega)

theorem every_size (h : Read el) (r : BitReader) :
    Every InRange (size int32 el) r ↔ SizeFits el := by
  obtain ⟨hw0, hw1⟩ := h.picWidthInMbsMinus1
  obtain ⟨hh0, hh1⟩ := h.picHeightInMapUnitsMinus1
  have hlog : (size int32 el r).1 =
      [.int (el.picWidthInMbsMinus1 + 1), .int (int32 (el.picWidthInMbsMinus1 + 1) * 16),
        .int (el.cropLeft + el.cropRight), .int (el.cropUnitX * int32 (el.cropLeft + el.cropRight)),
        .int (int32 (int32 (el.picWidthInMbsMinus1 + 1) * 16) -
          int32 (el.cropUnitX * int32 (el.cropLeft + el.cropRight))),
        .int (el.picHeightInMapUnitsMinus1 + 1),
        .int ((2 - el.frameMbsOnlyFlag) * int32 (el.picHeightInMapUnitsMinus1 + 1)),
        .int (int32 ((2 - el.frameMbsOnlyFlag) * int32 (el.picHeightInMapUnitsMinus1 + 1)) * 16),
        .int (el.cropTop + el.cropBottom), .int (el.cropUnitY * int32 (el.cropTop + el.cropBottom)),
        .int (int32 (int32 ((2 - el.frameMbsOnlyFlag) *
            int32 (el.picHeightInMapUnitsMinus1 + 1)) * 16) -
          int32 (el.cropUnitY * int32 (el.cropTop + el.cropBottom)))] := rfl
  have hwidth := side_inRange (m := el.picWidthInMbsMinus1 + 1) ⟨by omega, by omega⟩
    (cropUnitX_range el) h.cropLeft h.cropRight
  rw [mbs_eq h.picWidthInMbsMinus1, mbs_eq h.picHeightInMapUnitsMinus1] at hlog
  have hmbs : 1 ≤ (2 - el.frameMbsOnlyFlag) * (el.picHeightInMapUnitsMinus1 + 1) := by
    obtain hframe | hframe := h.frameMbsOnlyFlag <;> rw [hframe] <;> omega
  unfold Every
  rw [hlog]
  simp only [List.forall_mem_cons, List.not_mem_nil, false_imp_iff, implies_true, and_true]
  constructor
  · rintro ⟨-, h1, h2, h3, h4, -, hunits, h5, h6, h7, h8⟩
    rw [int32_of_range hunits.1 hunits.2] at h5 h8
    have hheight := (side_inRange ⟨hmbs, by have := hunits.2; omega⟩ (cropUnitY_range h) h.cropTop
      h.cropBottom).1 ⟨h5, h6, h7, h8⟩
    obtain ⟨hcodedW, hcropX⟩ := hwidth.1 ⟨h1, h2, h3, h4⟩
    exact ⟨hcodedW, hcropX, hheight.1, hheight.2⟩
  · rintro ⟨hcodedW, hcropX, hcodedH, hcropY⟩
    have hunits : (2 - el.frameMbsOnlyFlag) * (el.picHeightInMapUnitsMinus1 + 1) ≤ 2147483647 := by
      omega
    obtain ⟨h1, h2, h3, h4⟩ := hwidth.2 ⟨hcodedW, hcropX⟩
    have hheight := (side_inRange ⟨hmbs, hunits⟩ (cropUnitY_range h) h.cropTop
      h.cropBottom).2 ⟨hcodedH, hcropY⟩
    rw [int32_of_range (x := (2 - el.frameMbsOnlyFlag) * (el.picHeightInMapUnitsMinus1 + 1))
      (by omega) (by omega)]
    exact ⟨⟨by omega, by omega⟩, h1, h2, h3, h4, ⟨by omega, by omega⟩, ⟨by omega, by omega⟩, hheight⟩

theorem size_eq (h : Read el) (hfits : SizeFits el) (r : BitReader) : (size int32 el r).2 =
    some (if width el ≤ 0 ∨ height el ≤ 0 then none else some ⟨width el, height el⟩, r) := by
  obtain ⟨hcodedW, hcropX, hcodedH, hcropY⟩ := hfits
  obtain ⟨hw0, hw1⟩ := h.picWidthInMbsMinus1
  obtain ⟨hh0, hh1⟩ := h.picHeightInMapUnitsMinus1
  have hmbs : 1 ≤ (2 - el.frameMbsOnlyFlag) * (el.picHeightInMapUnitsMinus1 + 1) := by
    obtain hframe | hframe := h.frameMbsOnlyFlag <;> rw [hframe] <;> omega
  have hwidth : int32 (int32 (int32 (el.picWidthInMbsMinus1 + 1) * 16) -
      int32 (el.cropUnitX * int32 (el.cropLeft + el.cropRight))) = width el := by
    rw [mbs_eq h.picWidthInMbsMinus1]
    exact side_eq ⟨by omega, by omega⟩ (cropUnitX_range el) h.cropLeft h.cropRight hcodedW hcropX
  have hheight : int32 (int32 (int32 ((2 - el.frameMbsOnlyFlag) *
      int32 (el.picHeightInMapUnitsMinus1 + 1)) * 16) -
      int32 (el.cropUnitY * int32 (el.cropTop + el.cropBottom))) = height el := by
    rw [mbs_eq h.picHeightInMapUnitsMinus1, int32_of_range
      (x := (2 - el.frameMbsOnlyFlag) * (el.picHeightInMapUnitsMinus1 + 1)) (by omega) (by omega)]
    exact side_eq ⟨hmbs, by omega⟩ (cropUnitY_range h) h.cropTop h.cropBottom hcodedH hcropY
  rw [← hwidth, ← hheight]
  rfl

theorem size_le (h : Read el) : width el ≤ 16 * (el.picWidthInMbsMinus1 + 1) ∧
    height el ≤ 16 * (2 - el.frameMbsOnlyFlag) * (el.picHeightInMapUnitsMinus1 + 1) := by
  obtain ⟨⟨hl, -⟩, ⟨hr, -⟩, ⟨ht, -⟩, hb, -⟩ :=
    And.intro h.cropLeft (And.intro h.cropRight (And.intro h.cropTop h.cropBottom))
  have hx : 0 ≤ el.cropUnitX * (el.cropLeft + el.cropRight) :=
    mul_nonneg (by have := (cropUnitX_range el).1; omega) (by omega)
  have hy : 0 ≤ el.cropUnitY * (el.cropTop + el.cropBottom) :=
    mul_nonneg (by have := (cropUnitY_range h).1; omega) (by omega)
  have hcoded : 16 * (2 - el.frameMbsOnlyFlag) * (el.picHeightInMapUnitsMinus1 + 1) =
      (2 - el.frameMbsOnlyFlag) * (el.picHeightInMapUnitsMinus1 + 1) * 16 := by ring
  unfold width height
  exact ⟨by omega, by omega⟩

/-! ## The condition -/

variable {sps : List UInt8}

theorem parse_eq (h : ¬sps.length < 4) :
    parseSpsDimensions sps = ((readSps int32 (start sps)).2.bind Prod.fst) := by
  have hrun : Sps.readSps.run (start sps) = (readSps int32 (start sps)).2 := by
    rw [← erase_readSps]
    rfl
  unfold parseSpsDimensions
  rw [if_neg h, show (⟨stripEmulationPrevention sps, 0⟩ : BitReader) = start sps from rfl, hrun]
  cases (readSps int32 (start sps)).2 <;> rfl

theorem size_of_parse (h : ¬sps.length < 4)
    (hel : ∀ r ∈ (readElements int32 (start sps)).2, Read r.1 ∧ SizeFits r.1) {d : SpsDimensions}
    (hd : d ∈ parseSpsDimensions sps) : ∃ r ∈ (readElements int32 (start sps)).2,
      d = ⟨width r.1, height r.1⟩ ∧ 0 < width r.1 ∧ 0 < height r.1 := by
  rw [parse_eq h] at hd
  obtain ⟨⟨dims, r'⟩, hrun, rfl⟩ := Option.bind_eq_some_iff.1 hd
  have hbind : readSps int32 (start sps) =
      andThen (size int32) (readElements int32 (start sps)) := rfl
  rw [hbind] at hrun
  cases hfirst : readElements int32 (start sps) with
  | mk log x =>
    cases x with
    | none => simp [hfirst, andThen] at hrun
    | some x =>
      obtain ⟨hread, hsize⟩ := hel x (by rw [hfirst]; rfl)
      rw [hfirst] at hrun
      simp only [andThen, size_eq hread hsize] at hrun
      split at hrun
      · simp at hrun
      · next hpos =>
        rw [not_or, not_le, not_le] at hpos
        exact ⟨x, rfl, (Option.some.inj (Prod.mk.inj (Option.some.inj hrun)).1).symm, hpos⟩

/-- **When the arithmetic of the parser is safe.** For every byte string. -/
theorem safe_iff (sps : List UInt8) :
    Safe sps ↔ (∀ e ∈ codes sps, Fits e) ∧ ∀ el ∈ decode sps, SizeFits el := by
  by_cases hshort : sps.length < 4
  · refine iff_of_true ⟨?_, ?_⟩ ⟨?_, ?_⟩
    · simp [computed, hshort]
    · simp [parseSpsDimensions, hshort]
    · simp [codes, hshort]
    · simp [decode, hshort]
  have hagree := agree_readElements (start sps)
  have hcomputed : computed sps = (readSps int32 (start sps)).1 := if_neg hshort
  have hcodes : codes sps = (readElements id (start sps)).1 := if_neg hshort
  have hdecode : decode sps = (readElements id (start sps)).2.map Prod.fst := if_neg hshort
  constructor
  · rintro ⟨hrange, -⟩
    rw [hcomputed] at hrange
    obtain ⟨hread, hsize⟩ := every_bind.1 hrange
    have hfits := hagree.events.1 hread
    refine ⟨by rwa [hcodes], fun el hel => ?_⟩
    rw [hdecode] at hel
    obtain ⟨r, hr, rfl⟩ := Option.mem_map.1 hel
    rw [hagree.same hfits] at hsize
    exact (every_size (hagree.result hfits r hr) r.2).1 (hsize r hr)
  · rintro ⟨hfits, hsizes⟩
    rw [hcodes] at hfits
    have hsame := hagree.same hfits
    have hel : ∀ r ∈ (readElements int32 (start sps)).2,
        r.1 ∈ decode sps ∧ Read r.1 ∧ SizeFits r.1 := by
      intro r hr
      rw [hsame] at hr
      have hmem : r.1 ∈ decode sps := by
        rw [hdecode]
        exact Option.mem_map_of_mem _ hr
      exact ⟨hmem, hagree.result hfits r hr, hsizes r.1 hmem⟩
    refine ⟨?_, fun d hd => ?_⟩
    · rw [hcomputed]
      refine every_bind.2 ⟨hagree.events.2 hfits, fun r hr => ?_⟩
      obtain ⟨-, hread, hsize⟩ := hel r hr
      exact (every_size hread r.2).2 hsize
    · obtain ⟨r, hr, rfl, hwpos, hhpos⟩ := size_of_parse hshort (fun r hr => (hel r hr).2) hd
      obtain ⟨hmem, hread, -⟩ := hel r hr
      obtain ⟨hw, hh⟩ := size_le hread
      exact ⟨r.1, hmem, rfl, rfl, hwpos, hw, hhpos, hh⟩

/-- A set of `2 ^ 28 + 120` macroblocks across and 68 down, without cropping. -/
def hostileSps : List UInt8 :=
  [0x67, 0x42, 0x00, 0x28, 0xDC, 0x00, 0x00, 0x03, 0x00, 0x10, 0x00, 0x00, 0x78, 0x02, 0x26, 0x80]

instance (e : Event) : Decidable (InRange e) := by
  cases e <;> (unfold InRange; infer_instance)

/-- **The width wraps around to that of a picture in full HD.** -/
theorem hostileSps_wraps : parseSpsDimensions hostileSps = some ⟨1920, 1088⟩ ∧
    (decode hostileSps).map width = some 4294969216 ∧ ¬Safe hostileSps := by
  have hrange : ¬∀ e ∈ computed hostileSps, InRange e := by decide +kernel
  exact ⟨by decide +kernel, by decide +kernel, fun h => hrange h.inRange⟩

end OpenDisplay.Protocol.SpsArithmetic
