import OpenDisplay.App.TouchCoordinates
import OpenDisplay.Lib.Checked

/-!
# The letterbox

The picture is scaled to the client area of the window with its aspect ratio kept, and centred.
`Present` draws into the rectangle `letterbox`, and `VideoRect` computes the same rectangle again and
truncates it to pixels.  Both calculate in `double`, so every operation rounds (`rounded`), and a
rectangle that should touch both edges may come out a hair too wide or too narrow.

`videoRect_inside` says what is left of that after the truncation, for all sizes of a 32-bit `int`:
the rectangle is inside the client area and centred, it reaches both edges in one direction to within
a pixel, and its aspect ratio is right to within a pixel on each side.
-/

namespace OpenDisplay.Render.Letterbox

open OpenDisplay.App.TouchCoordinates OpenDisplay.Lib.Checked OpenDisplay.Lib.Rounding

/-! ## The code -/

/-- A rectangle in window pixels. -/
structure Box where
  x : ℚ
  y : ℚ
  w : ℚ
  h : ℚ

/-- The scale of the picture. -/
def scale (clientW clientH videoW videoH : ℤ) : ℚ :=
  min (rounded (clientW / videoW)) (rounded (clientH / videoH))

/-- The letterboxed rectangle of a picture of `videoW` by `videoH`. -/
def letterbox (clientW clientH videoW videoH : ℤ) : Box :=
  let scale := scale clientW clientH videoW videoH
  let dw := rounded (videoW * scale)
  let dh := rounded (videoH * scale)
  { x := rounded (rounded (clientW - dw) / 2)
    y := rounded (rounded (clientH - dh) / 2)
    w := dw
    h := dh }

/-- `Renderer::VideoRect`. -/
def videoRect (clientW clientH lastVideoW lastVideoH : ℤ) : Option Rect :=
  if lastVideoW ≤ 0 ∨ lastVideoH ≤ 0 ∨ clientW ≤ 0 ∨ clientH ≤ 0 then none
  else
    let box := letterbox clientW clientH lastVideoW lastVideoH
    some ⟨truncate box.x, truncate box.y, truncate box.w, truncate box.h⟩

/-! ## One direction -/

variable {client video : ℤ} {s d q : ℚ}

/-- The numbers here are far from where the error of a rounding shows. -/
theorem rounded_close (h : |q| ≤ 2 ^ 33) : |rounded q - q| ≤ 1 / 2 ^ 19 := by
  have herror := rounded_error_le q
  norm_num at h herror ⊢
  linarith

theorem quotient_close (hclient : 0 < client) (hmax : client < 2 ^ 31) (hvideo : 0 < video)
    (hvmax : video < 2 ^ 31) : |video * rounded (client / video) - (client : ℚ)| ≤ 1 / 2 ^ 20 := by
  have hv : (0 : ℚ) < video := by exact_mod_cast hvideo
  have hv31 : (video : ℚ) ≤ 2 ^ 31 := by exact_mod_cast hvmax.le
  have hc : (0 : ℚ) < client := by exact_mod_cast hclient
  have hc31 : (client : ℚ) ≤ 2 ^ 31 := by exact_mod_cast hmax.le
  have hquot : (0 : ℚ) ≤ client / video := by positivity
  have herror := rounded_error_le (client / video : ℚ)
  rw [abs_of_nonneg hquot] at herror
  have hfactor : video * rounded (client / video) - (client : ℚ) =
      video * (rounded (client / video) - client / video) := by
    field_simp
  have hscaled : (video : ℚ) * (client / video / 2 ^ 53 + 1 / 2 ^ 64) = client / 2 ^ 53 + video / 2 ^ 64 := by
    field_simp
  rw [hfactor, abs_mul, abs_of_pos hv]
  refine (mul_le_mul_of_nonneg_left herror hv.le).trans ?_
  rw [hscaled]
  norm_num at hc31 hv31 ⊢
  linarith

/-- **The extent of the picture** is not negative, at most that of the client area but for a rounding,
and that of the scaled picture. -/
theorem extent_bounds (hclient : 0 < client) (hmax : client < 2 ^ 31) (hvideo : 0 < video)
    (hvmax : video < 2 ^ 31) (hs0 : 0 ≤ s) (hs : s ≤ rounded (client / video)) :
    0 ≤ rounded (video * s) ∧ rounded (video * s) ≤ client + 1 / 2 ^ 16 ∧
      |rounded (video * s) - video * s| ≤ 1 / 2 ^ 19 := by
  have hv : (0 : ℚ) < video := by exact_mod_cast hvideo
  have hc31 : (client : ℚ) ≤ 2 ^ 31 := by exact_mod_cast hmax.le
  have hnonneg : 0 ≤ (video : ℚ) * s := by positivity
  have hback := (abs_le.1 (quotient_close hclient hmax hvideo hvmax)).2
  have hle : (video : ℚ) * s ≤ client + 1 / 2 ^ 20 := by
    have := mul_le_mul_of_nonneg_left hs hv.le
    linarith
  have hsmall : |(video : ℚ) * s| ≤ 2 ^ 33 := by
    rw [abs_of_nonneg hnonneg]
    norm_num at hc31 hle ⊢
    linarith
  have hclose := rounded_close hsmall
  refine ⟨rounded_nonneg hnonneg, ?_, hclose⟩
  have := (abs_le.1 hclose).2
  norm_num at this hle ⊢
  linarith

/-- In the direction that the scale comes from, the picture fills the client area. -/
theorem extent_fills (hclient : 0 < client) (hmax : client < 2 ^ 31) (hvideo : 0 < video)
    (hvmax : video < 2 ^ 31) :
    (client : ℚ) - 1 / 2 ^ 16 ≤ rounded (video * rounded (client / video)) := by
  have hc : (0 : ℚ) < client := by exact_mod_cast hclient
  have hv : (0 : ℚ) < video := by exact_mod_cast hvideo
  have hquot : 0 ≤ rounded ((client : ℚ) / video) := rounded_nonneg (by positivity)
  have hclose := (abs_le.1 (extent_bounds hclient hmax hvideo hvmax hquot le_rfl).2.2).1
  have hback := (abs_le.1 (quotient_close hclient hmax hvideo hvmax)).1
  norm_num at hclose hback ⊢
  linarith

theorem offset_close (hclient : 0 < client) (hmax : client < 2 ^ 31) (h0 : 0 ≤ d)
    (hd : d ≤ client + 1 / 2 ^ 16) :
    |rounded (rounded (client - d) / 2) - (client - d) / 2| ≤ 1 / 2 ^ 17 := by
  have hc : (0 : ℚ) < client := by exact_mod_cast hclient
  have hc31 : (client : ℚ) ≤ 2 ^ 31 := by exact_mod_cast hmax.le
  have hdiff : |(client : ℚ) - d| ≤ 2 ^ 32 := by
    rw [abs_le]
    norm_num at hc31 hd ⊢
    constructor <;> linarith
  have hinner := rounded_close (hdiff.trans (by norm_num))
  rw [abs_le] at hdiff hinner
  have hhalf : |rounded ((client : ℚ) - d) / 2| ≤ 2 ^ 33 := by
    rw [abs_le]
    norm_num at hdiff hinner ⊢
    constructor <;> linarith
  have houter := abs_le.1 (rounded_close hhalf)
  rw [abs_le]
  norm_num at houter hinner ⊢
  constructor <;> linarith

/-- One direction of a rectangle in the client area: it is inside, and the two margins differ by at
most two pixels, so that its centre is within a pixel of that of the client area. -/
structure Centred (client offset size : ℤ) : Prop where
  offset_nonneg : 0 ≤ offset
  size_nonneg : 0 ≤ size
  margins : 0 ≤ client - size - 2 * offset ∧ client - size - 2 * offset ≤ 2

theorem truncate_bounds (h : -1 < q) :
    0 ≤ truncate q ∧ (truncate q : ℚ) < q + 1 ∧ q - 1 < truncate q := by
  rcases le_total 0 q with hq | hq
  · rw [truncate_of_nonneg hq]
    exact ⟨Int.floor_nonneg.2 hq, by linarith [Int.floor_le q], Int.sub_one_lt_floor q⟩
  · have hzero : truncate q = 0 := by
      have hlo : -1 < truncate q := (lt_truncate (by decide)).2 (by push_cast; exact h)
      have hhi : truncate q < 1 := (truncate_lt (by decide)).2 (by push_cast; linarith)
      omega
    rw [hzero]
    exact ⟨le_rfl, by push_cast; linarith, by push_cast; linarith⟩

/-- The margin lies between the halves of two integers that a picture of `d` leaves. -/
theorem offset_bounds {m : ℤ} (hm0 : 0 ≤ m) (hm : m ≤ 2 ^ 32) (hlo : (m : ℚ) - 1 ≤ client - d)
    (hhi : client - d ≤ m) :
    ((m - 1 : ℤ) : ℚ) / 2 ≤ rounded (rounded (client - d) / 2) ∧ rounded (rounded (client - d) / 2) ≤ m / 2 := by
  have hm0' : (0 : ℚ) ≤ m := by exact_mod_cast hm0
  have hm' : (m : ℚ) ≤ 2 ^ 32 := by exact_mod_cast hm
  norm_num at hm'
  have hsmall : |(client : ℚ) - d| < 2 ^ 52 := by
    rw [abs_lt]
    norm_num
    constructor <;> linarith
  have hinner : (m : ℚ) - 1 ≤ rounded (client - d) ∧ rounded (client - d) ≤ m := by
    have hlo' := half_le_rounded (k := 2 * (m - 1)) hsmall (by push_cast; linarith)
    have hhi' := rounded_le_half (k := 2 * m) hsmall (by push_cast; linarith)
    push_cast at hlo' hhi'
    constructor <;> linarith
  have hhalf : |rounded ((client : ℚ) - d) / 2| < 2 ^ 52 := by
    rw [abs_lt]
    norm_num
    constructor <;> linarith
  refine ⟨half_le_rounded hhalf ?_, rounded_le_half hhalf ?_⟩
  · push_cast
    linarith
  · linarith

/-- **One direction of `VideoRect`.** -/
theorem centred_truncate (hclient : 0 < client) (hmax : client < 2 ^ 31) (h0 : 0 ≤ d)
    (hd : d ≤ client + 1 / 2 ^ 16) :
    Centred client (truncate (rounded (rounded (client - d) / 2))) (truncate d) := by
  have hdle := Int.floor_le d
  have hdlt := Int.lt_floor_add_one d
  have hd0 : 0 ≤ ⌊d⌋ := Int.floor_nonneg.2 h0
  have hm0 : 0 ≤ client - ⌊d⌋ := by
    have hlt : (⌊d⌋ : ℚ) < (client + 1 : ℤ) := by
      push_cast
      norm_num at hd
      linarith
    have : ⌊d⌋ < client + 1 := by exact_mod_cast hlt
    omega
  obtain ⟨hlo, hhi⟩ : ((client - ⌊d⌋ - 1 : ℤ) : ℚ) / 2 ≤ rounded (rounded (client - d) / 2) ∧
      rounded (rounded (client - d) / 2) ≤ (client - ⌊d⌋ : ℤ) / 2 :=
    offset_bounds hm0 (by omega) (by push_cast; linarith) (by push_cast; linarith)
  generalize rounded (rounded ((client : ℚ) - d) / 2) = x at hlo hhi ⊢
  have hx : -1 < x := by
    have : (0 : ℚ) ≤ (client - ⌊d⌋ : ℤ) := by exact_mod_cast hm0
    push_cast at hlo this
    linarith
  obtain ⟨hx0, -, hxlo⟩ := truncate_bounds hx
  have hxle : (truncate x : ℚ) ≤ max x 0 := by
    rcases le_total 0 x with h | h
    · rw [truncate_of_nonneg h, max_eq_left h]
      exact Int.floor_le x
    · have hlt : truncate x < 1 := (truncate_lt (by decide)).2 (by push_cast; linarith)
      have : truncate x = 0 := by omega
      rw [this, max_eq_right h, Int.cast_zero]
  rw [truncate_of_nonneg h0]
  refine ⟨hx0, hd0, ?_, ?_⟩
  · have hle : ((2 * truncate x : ℤ) : ℚ) ≤ (client - ⌊d⌋ : ℤ) := by
      have : (0 : ℚ) ≤ (client - ⌊d⌋ : ℤ) := by exact_mod_cast hm0
      push_cast at hhi this ⊢
      rcases max_cases x 0 with ⟨hmax', -⟩ | ⟨hmax', -⟩ <;> rw [hmax'] at hxle <;> linarith
    have : 2 * truncate x ≤ client - ⌊d⌋ := by exact_mod_cast hle
    omega
  · have hlt : ((client - ⌊d⌋ - 1 : ℤ) : ℚ) < (2 * truncate x + 2 : ℤ) := by
      push_cast at hlo ⊢
      linarith
    have : client - ⌊d⌋ - 1 < 2 * truncate x + 2 := by exact_mod_cast hlt
    omega

/-! ## The rectangle -/

/-- The four sizes are positive and fit an `int`. -/
structure Sizes (clientW clientH videoW videoH : ℤ) : Prop where
  clientW : 0 < clientW ∧ clientW < 2 ^ 31
  clientH : 0 < clientH ∧ clientH < 2 ^ 31
  videoW : 0 < videoW ∧ videoW < 2 ^ 31
  videoH : 0 < videoH ∧ videoH < 2 ^ 31

variable {clientW clientH videoW videoH : ℤ}

theorem Sizes.scale_nonneg (h : Sizes clientW clientH videoW videoH) :
    0 ≤ scale clientW clientH videoW videoH := by
  have hcw : (0 : ℚ) < clientW := by exact_mod_cast h.clientW.1
  have hch : (0 : ℚ) < clientH := by exact_mod_cast h.clientH.1
  have hvw : (0 : ℚ) < videoW := by exact_mod_cast h.videoW.1
  have hvh : (0 : ℚ) < videoH := by exact_mod_cast h.videoH.1
  exact le_min (rounded_nonneg (by positivity)) (rounded_nonneg (by positivity))

/-- The two extents of the letterbox. -/
theorem Sizes.extents (h : Sizes clientW clientH videoW videoH) :
    (0 ≤ (letterbox clientW clientH videoW videoH).w ∧
      (letterbox clientW clientH videoW videoH).w ≤ clientW + 1 / 2 ^ 16 ∧
      |(letterbox clientW clientH videoW videoH).w -
        videoW * scale clientW clientH videoW videoH| ≤ 1 / 2 ^ 19) ∧
    0 ≤ (letterbox clientW clientH videoW videoH).h ∧
      (letterbox clientW clientH videoW videoH).h ≤ clientH + 1 / 2 ^ 16 ∧
      |(letterbox clientW clientH videoW videoH).h -
        videoH * scale clientW clientH videoW videoH| ≤ 1 / 2 ^ 19 :=
  ⟨extent_bounds h.clientW.1 h.clientW.2 h.videoW.1 h.videoW.2 h.scale_nonneg (min_le_left _ _),
    extent_bounds h.clientH.1 h.clientH.2 h.videoH.1 h.videoH.2 h.scale_nonneg (min_le_right _ _)⟩

theorem Sizes.fills (h : Sizes clientW clientH videoW videoH) :
    (clientW : ℚ) - 1 / 2 ^ 16 ≤ (letterbox clientW clientH videoW videoH).w ∨
      (clientH : ℚ) - 1 / 2 ^ 16 ≤ (letterbox clientW clientH videoW videoH).h := by
  unfold letterbox
  dsimp only
  unfold scale
  rcases min_choice (rounded ((clientW : ℚ) / videoW)) (rounded ((clientH : ℚ) / videoH)) with hs | hs
  · left
    rw [hs]
    exact extent_fills h.clientW.1 h.clientW.2 h.videoW.1 h.videoW.2
  · right
    rw [hs]
    exact extent_fills h.clientH.1 h.clientH.2 h.videoH.1 h.videoH.2

/-- Two extents of one scale, truncated, have the ratio of the picture but for the truncation. -/
theorem aspect_of_scale {s w h : ℚ} (hw : 0 < videoW) (hh : 0 < videoH) (hw0 : 0 ≤ w) (hh0 : 0 ≤ h)
    (hcw : |w - videoW * s| ≤ 1 / 2 ^ 19) (hch : |h - videoH * s| ≤ 1 / 2 ^ 19) :
    |truncate w * videoH - truncate h * videoW| ≤ 2 * max videoW videoH := by
  have hvw : (0 : ℚ) < videoW := by exact_mod_cast hw
  have hvh : (0 : ℚ) < videoH := by exact_mod_cast hh
  have hmaxw : (videoW : ℚ) ≤ (max videoW videoH : ℤ) := by exact_mod_cast le_max_left _ _
  have hmaxh : (videoH : ℚ) ≤ (max videoW videoH : ℤ) := by exact_mod_cast le_max_right _ _
  rw [truncate_of_nonneg hw0, truncate_of_nonneg hh0]
  have hwle := Int.floor_le w
  have hwlt := Int.lt_floor_add_one w
  have hhle := Int.floor_le h
  have hhlt := Int.lt_floor_add_one h
  rw [abs_le] at hcw hch
  norm_num at hcw hch
  -- what the truncations take off the scaled sizes
  obtain ⟨a, ha⟩ : ∃ a : ℚ, (⌊w⌋ : ℚ) = videoW * s + a := ⟨⌊w⌋ - videoW * s, by ring⟩
  obtain ⟨b, hb⟩ : ∃ b : ℚ, (⌊h⌋ : ℚ) = videoH * s + b := ⟨⌊h⌋ - videoH * s, by ring⟩
  have ha' : -(3 / 2) ≤ a ∧ a ≤ 1 / 2 := by constructor <;> linarith
  have hb' : -(3 / 2) ≤ b ∧ b ≤ 1 / 2 := by constructor <;> linarith
  have hcross : ((⌊w⌋ * videoH - ⌊h⌋ * videoW : ℤ) : ℚ) = a * videoH - b * videoW := by
    push_cast
    rw [ha, hb]
    ring
  have halo : -(3 / 2) * videoH ≤ a * videoH := mul_le_mul_of_nonneg_right ha'.1 hvh.le
  have hahi : a * videoH ≤ 1 / 2 * videoH := mul_le_mul_of_nonneg_right ha'.2 hvh.le
  have hblo : -(3 / 2) * videoW ≤ b * videoW := mul_le_mul_of_nonneg_right hb'.1 hvw.le
  have hbhi : b * videoW ≤ 1 / 2 * videoW := mul_le_mul_of_nonneg_right hb'.2 hvw.le
  have habs : |((⌊w⌋ * videoH - ⌊h⌋ * videoW : ℤ) : ℚ)| ≤ (2 * max videoW videoH : ℤ) := by
    rw [hcross, abs_le, Int.cast_mul]
    constructor <;> push_cast at hmaxw hmaxh ⊢ <;> linarith
  exact_mod_cast habs

/-- **The rectangle of the video** is inside the client area and centred, reaches both edges in one
direction to within a pixel, and keeps the aspect ratio of the picture to within the truncation. -/
theorem videoRect_inside (h : Sizes clientW clientH videoW videoH) :
    ∃ r, videoRect clientW clientH videoW videoH = some r ∧
      Centred clientW r.rx r.rw ∧ Centred clientH r.ry r.rh ∧
      (clientW - 1 ≤ r.rw ∨ clientH - 1 ≤ r.rh) ∧
      |r.rw * videoH - r.rh * videoW| ≤ 2 * max videoW videoH := by
  obtain ⟨⟨hw0, hwle, hwc⟩, hh0, hhle, hhc⟩ := h.extents
  have hpos : ¬(videoW ≤ 0 ∨ videoH ≤ 0 ∨ clientW ≤ 0 ∨ clientH ≤ 0) := by
    have := h.clientW.1
    have := h.clientH.1
    have := h.videoW.1
    have := h.videoH.1
    omega
  refine ⟨_, if_neg hpos, ?_, ?_, ?_, ?_⟩
  · exact centred_truncate h.clientW.1 h.clientW.2 hw0 hwle
  · exact centred_truncate h.clientH.1 h.clientH.2 hh0 hhle
  · dsimp only
    rw [truncate_of_nonneg hw0, truncate_of_nonneg hh0]
    refine h.fills.imp (fun hfill => ?_) fun hfill => ?_
    · refine Int.le_floor.2 ?_
      norm_num at hfill ⊢
      linarith
    · refine Int.le_floor.2 ?_
      norm_num at hfill ⊢
      linarith
  · exact aspect_of_scale h.videoW.1 h.videoH.1 hw0 hh0 hwc hhc

/-- A picture of 1920 by 1080 pixels in a window of 1024 by 768. -/
theorem videoRect_inside_window :
    ∃ r, videoRect 1024 768 1920 1080 = some r ∧ r = ⟨0, 96, 1024, 576⟩ ∧
      Centred 1024 r.rx r.rw ∧ Centred 768 r.ry r.rh ∧
      ((1024 : ℤ) - 1 ≤ r.rw ∨ (768 : ℤ) - 1 ≤ r.rh) ∧ |r.rw * 1080 - r.rh * 1920| ≤ 2 * max 1920 1080 := by
  obtain ⟨r, hr, hcentred⟩ :=
    @videoRect_inside 1024 768 1920 1080 ⟨by norm_num, by norm_num, by norm_num, by norm_num⟩
  have hrect : videoRect 1024 768 1920 1080 = some ⟨0, 96, 1024, 576⟩ := by decide +kernel
  rw [hrect] at hr
  exact ⟨r, hrect.trans hr, (Option.some.inj hr).symm, hcentred⟩

/-- The rounding costs a pixel: 49 times the quotient of 1 and 49 is less than 1. -/
example : (videoRect 1 49 49 1).map Rect.rw = some 0 := by decide +kernel

end OpenDisplay.Render.Letterbox
