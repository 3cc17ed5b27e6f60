import OpenDisplay.App.AdaptiveHello
import OpenDisplay.App.ConfigReference
import Mathlib.Order.Bounds.Defs

/-! # The size in the hello, from the configuration file

A size is one that the encoder takes (`Encodable`) if the parser accepted it or left the default, and
if it is the client area rounded down, so `HelloSize` announces no other. -/

namespace OpenDisplay.App.ConfigSize

open OpenDisplay.App.Config OpenDisplay.App.ConfigReference
open OpenDisplay.App.AdaptiveHello (Rect helloSize)

/-- **A size that the encoder takes.** -/
structure Encodable (size : DisplaySize) : Prop where
  width_even : Even size.width
  width_range : 320 ≤ size.width ∧ size.width ≤ 8192
  height_even : Even size.height
  height_range : 240 ≤ size.height ∧ size.height ≤ 8192

/-! ### The configuration -/

theorem holds_of_valid {α : Type} {s : Setting α} {ls : List (List UInt8)} {x : α} {P : α → Prop}
    (h : s.Holds ls x) (hvalid : ∀ text y, s.Valid text y → P y) (hdefault : P s.default) :
    P x := by
  rcases h with ⟨i, ⟨line, text, -, -, -, hx⟩, -⟩ | ⟨-, rfl⟩
  · exact hvalid text x hx
  · exact hdefault

/-- **The parser gives an encodable size.** -/
theorem parseConfig_encodable (input : List UInt8) (warnings : List (List UInt8)) :
    Encodable ⟨(parseConfig input warnings).1.width, (parseConfig input warnings).1.height⟩ := by
  have h := means_foldl warnings (lines input)
  have hwidth := holds_of_valid (P := fun n => Even n ∧ 320 ≤ n ∧ n ≤ 8192) h.width
    (fun _ _ hv => ⟨hv.2.2.2, hv.2.1, hv.2.2.1⟩) (by decide)
  have hheight := holds_of_valid (P := fun n => Even n ∧ 240 ≤ n ∧ n ≤ 8192) h.height
    (fun _ _ hv => ⟨hv.2.2.2, hv.2.1, hv.2.2.1⟩) (by decide)
  exact ⟨hwidth.1, hwidth.2, hheight.1, hheight.2⟩

/-! ### The client area -/

/-- **Rounding down** gives the largest even number. -/
theorem isGreatest_roundEven (x : ℤ) : IsGreatest {n : ℤ | Even n ∧ n ≤ x} (roundEven x) := by
  unfold roundEven
  refine ⟨⟨Int.even_iff.2 (by omega), by omega⟩, ?_⟩
  rintro n ⟨heven, hle⟩
  have := Int.even_iff.1 heven
  omega

theorem adaptiveDisplaySize_of_ge (config : ReceiverConfig) {width height : ℤ}
    (hwidth : 320 ≤ width) (hheight : 240 ≤ height) :
    adaptiveDisplaySize config width height =
      ⟨roundEven (min width 8192), roundEven (min height 8192)⟩ := by
  rw [adaptiveDisplaySize, if_neg (by omega)]

theorem roundEven_min {n : ℤ} (heven : Even n) (hle : n ≤ 8192) : roundEven (min n 8192) = n := by
  have := Int.even_iff.1 heven
  rw [min_eq_left hle, roundEven]
  omega

theorem roundEven_min_range {x : ℤ} (lo : ℤ) (hlo : Even lo) (hle : lo ≤ 8192) (h : lo ≤ x) :
    lo ≤ roundEven (min x 8192) ∧ roundEven (min x 8192) ≤ 8192 := by
  obtain ⟨⟨-, hbelow⟩, hgreatest⟩ := isGreatest_roundEven (min x 8192)
  exact ⟨hgreatest ⟨hlo, le_min h hle⟩, hbelow.trans (min_le_right _ _)⟩

theorem adaptiveDisplaySize_encodable {config : ReceiverConfig}
    (h : Encodable ⟨config.width, config.height⟩) (width height : ℤ) :
    Encodable (adaptiveDisplaySize config width height) := by
  by_cases hsmall : width < 320 ∨ height < 240
  · rw [adaptiveDisplaySize, if_pos hsmall]
    exact h
  · rw [adaptiveDisplaySize_of_ge config (by omega) (by omega)]
    exact ⟨(isGreatest_roundEven _).1.1, roundEven_min_range 320 (by decide) (by decide) (by omega),
      (isGreatest_roundEven _).1.1, roundEven_min_range 240 (by decide) (by decide) (by omega)⟩

theorem adaptiveDisplaySize_self (config : ReceiverConfig) {size : DisplaySize}
    (h : Encodable size) : adaptiveDisplaySize config size.width size.height = size := by
  rw [adaptiveDisplaySize_of_ge config h.width_range.1 h.height_range.1,
    roundEven_min h.width_even h.width_range.2, roundEven_min h.height_even h.height_range.2]

/-- **Every announced size is encodable.**  For every configuration file and every client rectangle, or
none; and in adaptive mode it is the client area, where that is large enough, each dimension the
largest even number in it up to 8192, and the adaptive size of an adaptive size is that size. -/
theorem helloSize_encodable (input : List UInt8) (warnings : List (List UInt8)) :
    (∀ client, Encodable (helloSize (parseConfig input warnings).1 client)) ∧
    (∀ client : Rect, (parseConfig input warnings).1.adaptiveResolution = true →
      320 ≤ client.right - client.left → 240 ≤ client.bottom - client.top →
        IsGreatest {n : ℤ | Even n ∧ n ≤ min (client.right - client.left) 8192}
            (helloSize (parseConfig input warnings).1 (some client)).width ∧
          IsGreatest {n : ℤ | Even n ∧ n ≤ min (client.bottom - client.top) 8192}
            (helloSize (parseConfig input warnings).1 (some client)).height) ∧
    ∀ width height, let size := adaptiveDisplaySize (parseConfig input warnings).1 width height
      adaptiveDisplaySize (parseConfig input warnings).1 size.width size.height = size := by
  generalize hconfig : (parseConfig input warnings).1 = config
  have hbase : Encodable ⟨config.width, config.height⟩ := hconfig ▸ parseConfig_encodable input warnings
  refine ⟨fun client => ?_, fun client hadaptive hwidth hheight => ?_, fun width height => ?_⟩
  · unfold helloSize
    split
    · split
      · exact hbase
      · exact adaptiveDisplaySize_encodable hbase _ _
    · exact hbase
  · rw [helloSize, if_pos hadaptive]
    rw [adaptiveDisplaySize_of_ge _ hwidth hheight]
    exact ⟨isGreatest_roundEven _, isGreatest_roundEven _⟩
  · exact adaptiveDisplaySize_self _ (adaptiveDisplaySize_encodable hbase width height)

/-- A window of 1477 by 834. -/
theorem helloSize_encodable_uneven :
    IsGreatest {n : ℤ | Even n ∧ n ≤ min (1487 - 10) 8192}
      (helloSize (parseConfig (Lib.Text.ascii "[display]\nadaptive_resolution=1") []).1
        (some ⟨10, 20, 1487, 854⟩)).width :=
  ((helloSize_encodable (Lib.Text.ascii "[display]\nadaptive_resolution=1") []).2.1
    ⟨10, 20, 1487, 854⟩ (by decide) (by decide) (by decide)).1

end OpenDisplay.App.ConfigSize
