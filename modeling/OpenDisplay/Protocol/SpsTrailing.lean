import OpenDisplay.Lib.Persistence
import OpenDisplay.Protocol.EmulationPrevention

/-! # Bytes behind the SPS

Bytes behind a sequence parameter set do not change what is read of it. They only lengthen what
`StripEmulationPrevention` leaves (`stripEmulationPrevention_append`), and a read that returns has
found its bits, so it returns the same where there is more data. -/

namespace OpenDisplay.Protocol.SpsTrailing

open OpenDisplay.Lib.Persistence OpenDisplay.Protocol.EmulationPrevention
open OpenDisplay.Protocol.Sps OpenDisplay.Protocol.Sps.BitReader

/-- More data, read to the same position. -/
structure Extends (r q : BitReader) : Prop where
  data : r.data <+: q.data
  pos : q.pos = r.pos

theorem stripEmulationPrevention_append {s : List UInt8} (h : s ≠ []) (t : List UInt8) :
    stripEmulationPrevention s <+: stripEmulationPrevention (s ++ t) := by
  obtain ⟨b, s, rfl⟩ := List.exists_cons_of_ne_nil h
  exact ⟨strip (zeroRun 0 s) t, (strip_append 0 s t).symm⟩

/-! ### The reads -/

theorem bit_persists : Persists Extends bit := by
  intro r q b r' hrq h
  obtain ⟨ext, hext⟩ := hrq.data
  rw [run_bit] at h ⊢
  obtain ⟨byte, hbyte, hresult⟩ := Option.map_eq_some_iff.1 h
  obtain ⟨rfl, rfl⟩ := Prod.mk.inj hresult
  have hq : q.data[r.pos / 8]? = some byte := by
    rw [← hext, List.getElem?_append_left (List.getElem?_eq_some_iff.1 hbyte).1, hbyte]
  rw [hrq.pos, hq]
  exact ⟨_, rfl, hrq.data, rfl⟩

theorem bits_persists : ∀ (n : ℕ) (value : ℤ), Persists Extends (bits n value)
  | 0, _ => Persists.pure _
  | n + 1, value => bit_persists.bind fun b => bits_persists n (int32 (2 * value + b))

theorem u_persists (n : ℕ) : Persists Extends (u n) := bits_persists n 0

theorem leadingZeros_persists : ∀ limit : ℕ, Persists Extends (leadingZeros limit)
  | 0 => Persists.failure
  | limit + 1 => bit_persists.bind fun _ =>
    ((leadingZeros_persists limit).bind fun _ => Persists.pure _).ite (Persists.pure _)

theorem ue_persists : Persists Extends ue :=
  (leadingZeros_persists 33).bind fun zeros => (bits_persists zeros 1).bind fun _ => Persists.pure _

theorem se_persists : Persists Extends se :=
  ue_persists.bind fun _ => (Persists.pure _).ite (Persists.pure _)

theorem skipScales_persists : ∀ (n : ℕ) (lastScale nextScale : ℤ),
    Persists Extends (skipScales n lastScale nextScale)
  | 0, _, _ => Persists.pure _
  | n + 1, lastScale, nextScale => by
    have hrest (next : ℤ) :
        Persists Extends (skipScales n (if next ≠ 0 then next else lastScale) next) :=
      skipScales_persists n _ next
    rw [skipScales]
    exact ((se_persists.bind fun _ => Persists.pure _).bind hrest).ite
      ((Persists.pure nextScale).bind hrest)

theorem skipScalingLists_persists : ∀ n i : ℕ, Persists Extends (skipScalingLists n i)
  | 0, _ => Persists.pure _
  | n + 1, i => (u_persists 1).bind fun _ =>
    ((skipScales_persists _ 8 8).bind fun _ => skipScalingLists_persists n (i + 1)).ite
      (skipScalingLists_persists n (i + 1))

theorem skipSe_persists : ∀ n : ℕ, Persists Extends (skipSe n)
  | 0 => Persists.pure _
  | n + 1 => se_persists.bind fun _ => skipSe_persists n

theorem readChromaInfo_persists : Persists Extends readChromaInfo := by
  refine ue_persists.bind fun chromaFormatIdc => ?_
  have hmatrix (present : ℤ) : Persists Extends (if present = 1 then
        skipScalingLists (if chromaFormatIdc ≠ 3 then 8 else 12) 0 >>= fun _ => pure chromaFormatIdc
      else pure chromaFormatIdc : Read ℤ) :=
    ((skipScalingLists_persists _ 0).bind fun _ => Persists.pure _).ite (Persists.pure _)
  have hrest := ue_persists.bind fun _ => ue_persists.bind fun _ => (u_persists 1).bind fun _ =>
    (u_persists 1).bind hmatrix
  exact ((u_persists 1).bind fun _ => hrest).ite hrest

theorem skipPicOrderCnt_persists (picOrderCntType : ℤ) :
    Persists Extends (skipPicOrderCnt picOrderCntType) := by
  unfold skipPicOrderCnt
  refine (ue_persists.bind fun _ => Persists.pure _).ite (Persists.ite ?_ (Persists.pure _))
  exact (u_persists 1).bind fun _ => se_persists.bind fun _ => se_persists.bind fun _ =>
    ue_persists.bind fun n => skipSe_persists n.toNat

theorem readCrop_persists : Persists Extends readCrop := by
  unfold readCrop
  refine (u_persists 1).bind fun _ => Persists.ite ?_ (Persists.pure _)
  exact ue_persists.bind fun _ => ue_persists.bind fun _ => ue_persists.bind fun _ =>
    ue_persists.bind fun _ => Persists.pure _

theorem readSps_persists : Persists Extends readSps := by
  have hsize (chromaFormatIdc width height frameMbsOnlyFlag : ℤ) :=
    (u_persists 1).bind fun _ => readCrop_persists.bind fun crop =>
      Persists.pure (R := Extends) (dimensions chromaFormatIdc width height frameMbsOnlyFlag crop)
  have hrest (chromaFormatIdc : ℤ) :=
    ue_persists.bind fun _ => ue_persists.bind fun picOrderCntType =>
      (skipPicOrderCnt_persists picOrderCntType).bind fun _ => ue_persists.bind fun _ =>
        (u_persists 1).bind fun _ => ue_persists.bind fun width => ue_persists.bind fun height =>
          (u_persists 1).bind fun frameMbsOnlyFlag =>
            Persists.ite (c := frameMbsOnlyFlag = 0)
              ((u_persists 1).bind fun _ => hsize chromaFormatIdc width height frameMbsOnlyFlag)
              (hsize chromaFormatIdc width height frameMbsOnlyFlag)
  exact (u_persists 8).bind fun _ => (u_persists 8).bind fun _ => (u_persists 8).bind fun _ =>
    ue_persists.bind fun _ =>
      (readChromaInfo_persists.bind hrest).ite ((Persists.pure 1).bind hrest)

/-! ### The parser -/

theorem parseSpsDimensions_eq_some {sps : List UInt8} {d : SpsDimensions} :
    parseSpsDimensions sps = some d ↔
      4 ≤ sps.length ∧ ∃ r, readSps.run ⟨stripEmulationPrevention sps, 0⟩ = some (some d, r) := by
  rw [parseSpsDimensions]
  split
  case isTrue hshort => simp [Nat.not_le.2 hshort]
  case isFalse hlong =>
    have hlen : 4 ≤ sps.length := Nat.not_lt.1 hlong
    cases hread : readSps.run ⟨stripEmulationPrevention sps, 0⟩ with
    | none => simp
    | some result => simp [hlen, Prod.ext_iff]

/-- **Bytes behind an SPS do not change its dimensions.** -/
theorem parseSpsDimensions_append {s : List UInt8} {d : SpsDimensions}
    (h : parseSpsDimensions s = some d) (t : List UInt8) :
    parseSpsDimensions (s ++ t) = some d := by
  obtain ⟨hlen, r, hread⟩ := parseSpsDimensions_eq_some.1 h
  have hne : s ≠ [] := by rintro rfl; exact absurd hlen (by decide)
  have hext : Extends ⟨stripEmulationPrevention s, 0⟩ ⟨stripEmulationPrevention (s ++ t), 0⟩ :=
    ⟨stripEmulationPrevention_append hne t, rfl⟩
  obtain ⟨q, hq, -⟩ := readSps_persists _ _ _ _ hext hread
  refine parseSpsDimensions_eq_some.2 ⟨?_, q, hq⟩
  rw [List.length_append]
  omega

/-- **Trailing bytes never change a result, and a cut never makes another one.** -/
theorem parseSpsDimensions_trailing :
    (∀ s t d, parseSpsDimensions s = some d → parseSpsDimensions (s ++ t) = some d) ∧
      ∀ s n, parseSpsDimensions (s.take n) = none ∨
        parseSpsDimensions (s.take n) = parseSpsDimensions s := by
  refine ⟨fun s t d h => parseSpsDimensions_append h t, fun s n => ?_⟩
  cases hcut : parseSpsDimensions (s.take n) with
  | none => exact .inl rfl
  | some d =>
    have h := parseSpsDimensions_append hcut (s.drop n)
    rw [List.take_append_drop] at h
    exact .inr h.symm

/-- Zeros and a start code behind the SPS of a 640x480 stream. -/
theorem parseSpsDimensions_zeros :
    parseSpsDimensions ([0x67, 0x64, 0x00, 0x28, 0xAC, 0xCC, 0x60, 0x28, 0x0F, 0x64] ++
      [0, 0, 0, 1]) = some ⟨640, 480⟩ :=
  parseSpsDimensions_trailing.1 _ _ _ (by decide +kernel)

end OpenDisplay.Protocol.SpsTrailing
