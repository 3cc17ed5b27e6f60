import OpenDisplay.Lib.Bits
import OpenDisplay.Protocol.AnnexB
import OpenDisplay.Protocol.SpsSyntax

/-! # Slice headers and keyframes

A slice header begins, behind the NALU's header byte, with `first_mb_in_slice` and `slice_type`.
`SliceType` decodes the two codes as they should be (`sliceUe_code`, `code_of_sliceUe`), but from the
first bit of the NALU on, so the first code it reads begins in the header byte. What it finds instead
of an I slice is `LooksIntra` (`sliceType_eq_seven`). -/

namespace OpenDisplay.Protocol.SliceHeader

open OpenDisplay.Lib OpenDisplay.Lib.Bits OpenDisplay.Protocol.AnnexB
open OpenDisplay.Protocol.SpsSyntax (nalUnit)

variable {b : List UInt8} {bs rest : List Bool} {pos : ℕ}

/-! ## The reader -/

theorem drop_succ {x : Bool} (h : (ofBytes b).drop pos = x :: rest) :
    (ofBytes b).drop (pos + 1) = rest := by
  rw [← List.drop_drop, h]
  rfl

theorem sliceBit_cons {x : Bool} (h : (ofBytes b).drop pos = x :: rest) :
    sliceBit b pos = ((x.toNat : ℤ), pos + 1) := by
  have hbit : (ofBytes b)[pos]? = some x := by rw [← List.head?_drop, h, List.head?_cons]
  rw [getElem?_ofBytes] at hbit
  obtain ⟨byte, hbyte, rfl⟩ := Option.map_eq_some_iff.1 hbit
  obtain ⟨hlt, -⟩ := List.getElem?_eq_some_iff.1 hbyte
  have hget : b.getD (pos / 8) 0 = byte := by rw [List.getD_eq_getElem?_getD, hbyte, Option.getD_some]
  unfold sliceBit
  rw [if_neg (by omega), hget, Nat.toNat_testBit]

theorem sliceBit_nil (h : (ofBytes b).drop pos = []) : sliceBit b pos = (-1, pos) := by
  have hbit : (ofBytes b)[pos]? = none := by rw [← List.head?_drop, h, List.head?_nil]
  rw [getElem?_ofBytes, Option.map_eq_none_iff, List.getElem?_eq_none_iff] at hbit
  unfold sliceBit
  rw [if_pos hbit]

theorem sliceZeros_code : ∀ (k zeros pos : ℕ),
    (ofBytes b).drop pos = List.replicate k false ++ true :: rest → zeros + k ≤ 24 →
      sliceZeros b zeros pos = some (zeros + k, pos + k + 1)
  | 0, zeros, pos, h, _ => by
    rw [sliceZeros, sliceBit_cons h]
    rfl
  | k + 1, zeros, pos, h, hle => by
    rw [List.replicate_succ, List.cons_append] at h
    have ih := sliceZeros_code k (zeros + 1) (pos + 1) (drop_succ h) (by omega)
    have hzero : ((false.toNat : ℤ), pos + 1).1 = 0 := rfl
    rw [sliceZeros, sliceBit_cons h, if_pos hzero, if_neg (by omega), ih]
    congr 2
    · omega
    · omega

theorem sliceZeros_cases {zeros z p : ℕ} (h : sliceZeros b zeros pos = some (z, p)) :
    ∃ k, z = zeros + k ∧
      ((ofBytes b).drop pos = List.replicate k false ++ true :: (ofBytes b).drop p ∨
        (ofBytes b).drop p = []) := by
  fun_induction sliceZeros b zeros pos with
  | case1 zeros pos hzero hlimit => cases h
  | case2 zeros pos hzero hlimit ih =>
    obtain ⟨k, hz, hcases⟩ := ih h
    refine ⟨k + 1, by omega, ?_⟩
    cases hdrop : (ofBytes b).drop pos with
    | nil =>
      rw [sliceBit_nil hdrop] at hzero
      cases hzero
    | cons x l =>
      rw [sliceBit_cons hdrop] at hzero hcases
      obtain rfl : x = false := by cases x <;> simp_all
      refine hcases.imp_left fun hcode => ?_
      rw [drop_succ hdrop] at hcode
      rw [hcode, List.replicate_succ, List.cons_append]
  | case3 zeros pos hone =>
    obtain ⟨rfl, rfl⟩ := Prod.mk.inj (Option.some.inj h)
    refine ⟨0, rfl, ?_⟩
    cases hdrop : (ofBytes b).drop pos with
    | nil =>
      rw [sliceBit_nil hdrop]
      exact .inr hdrop
    | cons x l =>
      rw [sliceBit_cons hdrop] at hone ⊢
      obtain rfl : x = true := by cases x <;> simp_all
      rw [drop_succ hdrop]
      exact .inl rfl

theorem sliceSuffix_append : ∀ (bs : List Bool) (v pos : ℕ), (ofBytes b).drop pos = bs ++ rest →
    sliceSuffix b bs.length v pos = ((Bits.shiftIn v bs : ℤ), pos + bs.length)
  | [], _, _, _ => rfl
  | x :: bs, v, pos, h => by
    have ih := sliceSuffix_append bs (2 * v + x.toNat) (pos + 1) (drop_succ h)
    have hvalue : AnnexB.shiftIn v (x.toNat : ℤ) = ((2 * v + x.toNat : ℕ) : ℤ) := by
      unfold AnnexB.shiftIn
      rw [if_neg (by omega)]
      push_cast
      rfl
    rw [List.length_cons, sliceSuffix, sliceBit_cons h, hvalue, ih, Bits.shiftIn]
    congr 1
    omega

/-- A missing bit makes the number `-1`, and it stays so. -/
theorem sliceSuffix_short : ∀ (n : ℕ) (v : ℤ) (pos : ℕ), ((ofBytes b).drop pos).length < n →
    (sliceSuffix b n v pos).1 = -1
  | 0, _, _, h => absurd h (Nat.not_lt_zero _)
  | n + 1, v, pos, h => by
    rw [sliceSuffix]
    cases hdrop : (ofBytes b).drop pos with
    | nil =>
      rw [sliceBit_nil hdrop]
      cases n with
      | zero => rfl
      | succ n => exact sliceSuffix_short (n + 1) _ pos (by rw [hdrop]; exact Nat.succ_pos n)
    | cons x l =>
      rw [sliceBit_cons hdrop]
      refine sliceSuffix_short n _ (pos + 1) ?_
      rw [drop_succ hdrop]
      rw [hdrop, List.length_cons] at h
      omega

/-- **A code of at most 24 zeros is read as its number.** -/
theorem sliceUe_code {v : ℕ} (hv : Nat.log2 (v + 1) ≤ 24)
    (h : (ofBytes b).drop pos = ueCode v ++ rest) :
    sliceUe b pos = ((v : ℤ), pos + (ueCode v).length) := by
  rw [ueCode_eq, List.append_assoc, List.cons_append] at h
  have hzeros := sliceZeros_code _ 0 pos h (by omega)
  have hrest : (ofBytes b).drop (pos + Nat.log2 (v + 1) + 1) =
      ofNat (Nat.log2 (v + 1)) (v + 1) ++ rest := by
    rw [Nat.add_assoc, ← List.drop_drop, h]
    rw [List.drop_append, List.drop_of_length_le (by simp), List.length_replicate]
    simp
  have hsuffix := sliceSuffix_append _ 1 _ hrest
  rw [length_ofNat, shiftIn_ueCode, Nat.cast_one] at hsuffix
  unfold sliceUe
  rw [hzeros]
  dsimp only
  rw [Nat.zero_add, hsuffix, ueCode_eq]
  simp only [List.length_append, List.length_replicate, List.length_cons, length_ofNat]
  congr 1
  · omega
  · omega

/-- **A positive number that is read is the number of a code.** -/
theorem code_of_sliceUe {v : ℕ} (hv : 0 < v) (h : (sliceUe b pos).1 = v) :
    ueCode v <+: (ofBytes b).drop pos := by
  unfold sliceUe at h
  cases hzeros : sliceZeros b 0 pos with
  | none =>
    rw [hzeros] at h
    dsimp only at h
    omega
  | some r =>
    obtain ⟨z, p⟩ := r
    rw [hzeros] at h
    dsimp only at h
    obtain ⟨k, hz, hcases⟩ := sliceZeros_cases hzeros
    rw [Nat.zero_add] at hz
    subst hz
    by_cases hshort : ((ofBytes b).drop p).length < z
    · rw [sliceSuffix_short z 1 p hshort] at h
      omega
    · have hsplit := List.take_append_drop z ((ofBytes b).drop p)
      have hlen : (((ofBytes b).drop p).take z).length = z := by
        rw [List.length_take]
        omega
      have hsuffix := sliceSuffix_append _ 1 p hsplit.symm
      rw [hlen, Nat.cast_one] at hsuffix
      rw [hsuffix] at h
      have hvalue : v = Bits.shiftIn 1 (((ofBytes b).drop p).take z) - 1 := by
        dsimp only at h
        omega
      obtain hcode | hend := hcases
      · refine ⟨((ofBytes b).drop p).drop z, ?_⟩
        rw [hvalue, ueCode_shiftIn, hlen, hcode, List.append_assoc, List.cons_append, hsplit]
      · -- without a bit behind the zeros the number is 0
        rw [hend] at hvalue
        simp [Bits.shiftIn] at hvalue
        omega

/-! ## Slice NALUs -/

/-- The header byte of a NALU of type 1: `nal_ref_idc`, and the type. -/
def sliceHeader (nalRefIdc : Fin 4) : UInt8 := UInt8.ofNat (nalRefIdc * 32 + 1)

/-- What `SliceType` takes for an I slice: the bytes `01`, an even one and one from `20` to `23`. -/
def LooksIntra (nalu : List UInt8) : Prop :=
  ∃ second third rest, nalu = 1 :: second :: third :: rest ∧ second.toNat % 2 = 0 ∧
    third.toNat / 4 = 8

theorem ueCode_seven : ueCode 7 = [false, false, false, true, false, false, false] := by
  decide

/-- The type is that of the code behind the first code. -/
theorem sliceType_of_code {nalu : List UInt8} {v : ℕ} (hv : Nat.log2 (v + 1) ≤ 24)
    (h : ofBytes nalu = ueCode v ++ rest) : sliceType nalu = 7 ↔ ueCode 7 <+: rest := by
  have hfirst : sliceUe nalu 0 = ((v : ℤ), 0 + (ueCode v).length) := sliceUe_code hv h
  rw [Nat.zero_add] at hfirst
  have hrest : (ofBytes nalu).drop (ueCode v).length = rest := by rw [h, List.drop_left]
  unfold sliceType
  rw [hfirst]
  dsimp only
  rw [if_neg (by omega)]
  constructor
  · intro hseven
    rw [← hrest]
    refine code_of_sliceUe (v := 7) (by decide) ?_
    split at hseven
    · exact hseven
    · omega
  · rintro ⟨behind, hcode⟩
    have hsecond : sliceUe nalu (ueCode v).length = (((7 : ℕ) : ℤ), _) :=
      sliceUe_code (by decide) (hrest.trans hcode.symm)
    rw [hsecond]
    rfl

theorem ofBytes_cons (byte : UInt8) (bytes : List UInt8) :
    ofBytes (byte :: bytes) = ofNat 8 byte.toNat ++ ofBytes bytes := rfl

/-- With `nal_ref_idc` 0 the first code takes the header and seven bits of the next byte. -/
theorem sliceType_header_zero (second : UInt8) (tail : List UInt8) :
    sliceType (1 :: second :: tail) = 7 ↔
      ueCode 7 <+: second.toNat.testBit 0 :: ofBytes tail := by
  have hbits : ofBytes (1 :: second :: tail) =
      ueCode (Bits.shiftIn 1 (ofNat 7 (second.toNat / 2)) - 1) ++
        second.toNat.testBit 0 :: ofBytes tail := by
    have hshift : ∀ n : ℕ, ofNat 8 n = ofNat 7 (n / 2) ++ [n.testBit 0] := by
      intro n
      simp only [ofNat, Nat.testBit_div_two, List.cons_append, List.nil_append]
    rw [ueCode_shiftIn, length_ofNat, ofBytes_cons, ofBytes_cons, hshift second.toNat]
    simp only [List.append_assoc, List.cons_append, List.nil_append]
    rfl
  refine sliceType_of_code ?_ hbits
  have hlt := shiftIn_lt 1 (ofNat 7 (second.toNat / 2))
  rw [length_ofNat] at hlt
  exact Nat.lt_succ_iff.1 ((Nat.log2_lt (Nat.succ_ne_zero _)).2 (by omega))

theorem looksIntra_cons (second third : UInt8) (tail : List UInt8) :
    LooksIntra (1 :: second :: third :: tail) ↔ second.toNat % 2 = 0 ∧ third.toNat / 4 = 8 := by
  constructor
  · rintro ⟨_, _, _, heq, h⟩
    simp only [List.cons.injEq, true_and] at heq
    obtain ⟨rfl, rfl, -⟩ := heq
    exact h
  · exact fun h => ⟨second, third, tail, rfl, h⟩

/-- The code of 7 from the last bit of a byte on. -/
theorem seven_prefix_iff (second third : UInt8) (tail : List UInt8) :
    ueCode 7 <+: second.toNat.testBit 0 :: ofBytes (third :: tail) ↔
      second.toNat % 2 = 0 ∧ third.toNat / 4 = 8 := by
  have hthird : ∀ n < 256, ([false, false, true, false, false, false] <+: ofNat 8 n ↔ n / 4 = 8) := by
    decide +kernel
  rw [ueCode_seven, List.cons_prefix_cons, ofBytes_cons, ← hthird third.toNat third.toNat_lt]
  refine and_congr ?_ ?_
  · rw [Nat.testBit_zero]
    simp
  · refine ⟨fun h => ?_, fun h => h.trans (List.prefix_append _ _)⟩
    exact List.prefix_of_prefix_length_le h (List.prefix_append _ _) (by simp)

/-- **What `SliceType` takes for an I slice.** -/
theorem sliceType_eq_seven (nalRefIdc : Fin 4) (tail : List UInt8) :
    sliceType (sliceHeader nalRefIdc :: tail) = 7 ↔ LooksIntra (sliceHeader nalRefIdc :: tail) := by
  have hother : ∀ byte : UInt8, byte ≠ 1 → ¬LooksIntra (byte :: tail) := by
    rintro byte hbyte ⟨second, third, rest, heq, -⟩
    exact hbyte (List.cons.inj heq).1
  match nalRefIdc with
  | 0 =>
    change sliceType (1 :: tail) = 7 ↔ LooksIntra (1 :: tail)
    match tail with
    | [] => exact iff_of_false (by decide +kernel) fun ⟨_, _, _, heq, _⟩ => by simp at heq
    | [second] =>
      rw [sliceType_header_zero, ueCode_seven]
      exact iff_of_false (by simp [ofBytes]) fun ⟨_, _, _, heq, _⟩ => by simp at heq
    | second :: third :: tail =>
      rw [sliceType_header_zero, seven_prefix_iff, looksIntra_cons]
  | 1 =>
    -- the first code is 00100, the second one begins with 001
    have hcode : ofBytes (0x21 :: tail) = ueCode 3 ++ false :: false :: true :: ofBytes tail := rfl
    refine iff_of_false (mt (sliceType_of_code (by decide) hcode).1 ?_) (hother _ (by decide))
    simp [ueCode_seven]
  | 2 =>
    -- the first code is 010, the second one begins with 00001
    have hcode : ofBytes (0x41 :: tail) =
        ueCode 1 ++ false :: false :: false :: false :: true :: ofBytes tail := rfl
    refine iff_of_false (mt (sliceType_of_code (by decide) hcode).1 ?_) (hother _ (by decide))
    simp [ueCode_seven]
  | 3 =>
    -- the first code is 011, the second one begins with 00001
    have hcode : ofBytes (0x61 :: tail) =
        ueCode 2 ++ false :: false :: false :: false :: true :: ofBytes tail := rfl
    refine iff_of_false (mt (sliceType_of_code (by decide) hcode).1 ?_) (hother _ (by decide))
    simp [ueCode_seven]

/-! ## Keyframes -/

/-- A slice: `nal_ref_idc`, and the payload, which begins with `first_mb_in_slice` and `slice_type`. -/
structure Slice where
  nalRefIdc : Fin 4
  firstMbInSlice : Fin 65536
  sliceType : Fin 10
  further : List Bool
  rbsp : List UInt8
  ok : ofBytes rbsp = ueCode firstMbInSlice ++ ueCode sliceType ++ further

/-- Its NALU, with emulation prevention. -/
def Slice.nalu (s : Slice) : List UInt8 := nalUnit (sliceHeader s.nalRefIdc) s.rbsp

theorem Slice.nalu_sliceType (s : Slice) : AnnexB.sliceType s.nalu = 7 ↔ LooksIntra s.nalu :=
  sliceType_eq_seven s.nalRefIdc _

theorem isKeyframe_iff_looksIntra (f : VideoFrame) (slices : List Slice) (hsps : f.sps ≠ [])
    (hidr : ∀ n ∈ f.vclNalus, naluType n ≠ 5)
    (hslices : f.vclNalus.filter (fun n => naluType n = 1) = slices.map Slice.nalu) :
    f.isKeyframe = true ↔ ∃ s ∈ slices, LooksIntra s.nalu := by
  have hslice : (∃ n ∈ f.vclNalus, naluType n = 1 ∧ AnnexB.sliceType n = 7) ↔
      ∃ s ∈ slices, LooksIntra s.nalu := by
    have hmem : ∀ n, n ∈ f.vclNalus ∧ naluType n = 1 ↔ ∃ s ∈ slices, s.nalu = n := by
      intro n
      rw [← List.mem_map, ← hslices, List.mem_filter, decide_eq_true_iff]
    constructor
    · rintro ⟨n, hn, htype, hseven⟩
      obtain ⟨s, hs, rfl⟩ := (hmem n).1 ⟨hn, htype⟩
      exact ⟨s, hs, s.nalu_sliceType.1 hseven⟩
    · rintro ⟨s, hs, hlooks⟩
      obtain ⟨hn, htype⟩ := (hmem s.nalu).2 ⟨s, hs, rfl⟩
      exact ⟨s.nalu, hn, htype, s.nalu_sliceType.2 hlooks⟩
  rw [← hslice]
  unfold VideoFrame.isKeyframe
  cases hvcl : f.vclNalus with
  | nil => simp
  | cons n nalus =>
    have hempty : (f.sps.isEmpty || (n :: nalus).isEmpty) = false := by simpa using hsps
    rw [← hvcl] at hempty ⊢
    rw [hempty, if_neg (by decide), List.any_eq_true]
    refine exists_congr fun m => and_congr_right fun hm => ?_
    simp [hidr m hm]

/-- **When a frame of slices is a keyframe exactly if it has an I slice.** -/
theorem isKeyframe_iff (f : VideoFrame) (slices : List Slice) (hsps : f.sps ≠ [])
    (hidr : ∀ n ∈ f.vclNalus, naluType n ≠ 5)
    (hslices : f.vclNalus.filter (fun n => naluType n = 1) = slices.map Slice.nalu) :
    (f.isKeyframe = true ↔ ∃ s ∈ slices, s.sliceType = 7) ↔
      ((∃ s ∈ slices, s.sliceType = 7) ↔ ∃ s ∈ slices, LooksIntra s.nalu) := by
  rw [isKeyframe_iff_looksIntra f slices hsps hidr hslices]
  exact Iff.comm

/-- An I slice that is a reference: `first_mb_in_slice` 0, `slice_type` 7. -/
def intraSlice : Slice :=
  ⟨⟨3, by decide⟩, ⟨0, by decide⟩, ⟨7, by decide⟩, [], [0x88], by decide⟩

def intraFrame : VideoFrame := ⟨[], [0x67], [], [intraSlice.nalu], -1, -1⟩

/-- A P slice that is not a reference. -/
def interSlice : Slice :=
  ⟨⟨0, by decide⟩, ⟨0, by decide⟩, ⟨5, by decide⟩, [false, true], [0x99], by decide⟩

def interFrame : VideoFrame := ⟨[], [0x67], [], [interSlice.nalu], -1, -1⟩

theorem isKeyframe_iff_inter : interFrame.isKeyframe = true ↔ ∃ s ∈ [interSlice], s.sliceType = 7 := by
  refine (isKeyframe_iff interFrame [interSlice] (by decide) (by decide) (by decide)).2
    (iff_of_false (by decide) ?_)
  rintro ⟨s, hs, second, third, rest, heq, -⟩
  obtain rfl := List.mem_singleton.1 hs
  have hlen : interSlice.nalu.length = 2 := by decide
  rw [heq] at hlen
  simp at hlen

/-- **The frame of an I slice is not taken for a keyframe.** -/
theorem intraFrame_missed : intraFrame.isKeyframe = false ∧
    ¬(intraFrame.isKeyframe = true ↔ ∃ s ∈ [intraSlice], s.sliceType = 7) := by
  have hmissed : intraFrame.isKeyframe = false := by decide +kernel
  refine ⟨hmissed, fun h => ?_⟩
  have hkey := h.2 ⟨intraSlice, List.mem_singleton_self _, rfl⟩
  rw [hmissed] at hkey
  cases hkey

end OpenDisplay.Protocol.SliceHeader
