import Mathlib.Tactic.LinearCombination
import OpenDisplay.Render.Present

/-!
# The point under the pointer

`Draw` paints one triangle, whose corners `VSMain` takes from the constants of the frame; the hardware
interpolates the texture coordinates between them.  `WindowToVideo` turns a pixel of the window back
into coordinates of the picture, with the rectangle that `VideoRect` computes once more.

The triangle covers the letterbox and half as much again to the right and below (`painted_iff`).  At
every painted point of a pixel of `VideoRect`, the coordinates that are reported for the pixel are
those of the texture there, to within two pixels and the rounding to floats (`pointer_close`).  The
arithmetic of the shader itself is taken as exact.
-/

namespace OpenDisplay.Render.InputMapping

open OpenDisplay.App.TouchCoordinates OpenDisplay.Lib.Binary64 OpenDisplay.Lib.Checked
open OpenDisplay.Lib.Rounding
open OpenDisplay.Render.Letterbox OpenDisplay.Render.Present OpenDisplay.Video.Decoder

/-! ## The triangle -/

/-- What the vertex shader puts out, without the depth. -/
structure VSOut where
  posX : ℚ
  posY : ℚ
  u : ℚ
  v : ℚ

/-- The corner `t` of the vertex. -/
def corner (id : ℕ) : ℚ × ℚ := if id = 1 then (2, 0) else if id = 2 then (0, 2) else (0, 0)

/-- `VSMain`. -/
def vsMain (c : PerFrame) (id : ℕ) : VSOut :=
  let t := corner id
  let winX := c.winRect.x + t.1 * c.winRect.w
  let winY := c.winRect.y + t.2 * c.winRect.h
  { posX := winX / c.windowW * 2 - 1
    posY := -(winY / c.windowH * 2 - 1)
    u := c.texRect.x + t.1 * c.texRect.w
    v := c.texRect.y + t.2 * c.texRect.h }

/-- Where the viewport, which has the size of the window, puts a vertex. -/
def viewport (c : PerFrame) (o : VSOut) : ℚ × ℚ :=
  ((o.posX + 1) / 2 * c.windowW, (1 - o.posY) / 2 * c.windowH)

/-- The triangle of `Draw` covers the point with those texture coordinates. -/
def Painted (c : PerFrame) (x y u v : ℚ) : Prop :=
  ∃ a b d : ℚ, (0 ≤ a ∧ 0 ≤ b ∧ 0 ≤ d ∧ a + b + d = 1) ∧
    x = a * (viewport c (vsMain c 0)).1 + b * (viewport c (vsMain c 1)).1 + d * (viewport c (vsMain c 2)).1 ∧
    y = a * (viewport c (vsMain c 0)).2 + b * (viewport c (vsMain c 1)).2 + d * (viewport c (vsMain c 2)).2 ∧
    u = a * (vsMain c 0).u + b * (vsMain c 1).u + d * (vsMain c 2).u ∧
    v = a * (vsMain c 0).v + b * (vsMain c 1).v + d * (vsMain c 2).v

/-- A vertex is where the window position of its corner is. -/
theorem viewport_vsMain {c : PerFrame} (hw : c.windowW ≠ 0) (hh : c.windowH ≠ 0) (id : ℕ) :
    viewport c (vsMain c id) =
      (c.winRect.x + (corner id).1 * c.winRect.w, c.winRect.y + (corner id).2 * c.winRect.h) := by
  unfold viewport vsMain
  dsimp only
  refine Prod.ext ?_ ?_
  · dsimp only
    field_simp
    ring
  · dsimp only
    field_simp
    ring

/-- **What the triangle covers**: the letterbox stretched to the corners, texture and all. -/
theorem painted_iff {c : PerFrame} (hw : c.windowW ≠ 0) (hh : c.windowH ≠ 0) {x y u v : ℚ} :
    Painted c x y u v ↔ ∃ tx ty : ℚ, (0 ≤ tx ∧ 0 ≤ ty ∧ tx + ty ≤ 2) ∧
      x = c.winRect.x + tx * c.winRect.w ∧ y = c.winRect.y + ty * c.winRect.h ∧
      u = c.texRect.x + tx * c.texRect.w ∧ v = c.texRect.y + ty * c.texRect.h := by
  have h0 : corner 0 = (0, 0) := rfl
  have h1 : corner 1 = (2, 0) := rfl
  have h2 : corner 2 = (0, 2) := rfl
  unfold Painted
  simp only [viewport_vsMain hw hh]
  unfold vsMain
  simp only [h0, h1, h2]
  constructor
  · rintro ⟨a, b, d, ⟨ha, hb, hd, hsum⟩, hx, hy, hu, hv⟩
    obtain rfl : a = 1 - b - d := by linarith
    refine ⟨2 * b, 2 * d, ⟨by linarith, by linarith, by linarith⟩, ?_, ?_, ?_, ?_⟩
    · rw [hx]
      ring
    · rw [hy]
      ring
    · rw [hu]
      ring
    · rw [hv]
      ring
  · rintro ⟨tx, ty, ⟨hx0, hy0, hsum⟩, hx, hy, hu, hv⟩
    refine ⟨1 - tx / 2 - ty / 2, tx / 2, ty / 2, ⟨by linarith, by linarith, by linarith, by ring⟩,
      ?_, ?_, ?_, ?_⟩
    · rw [hx]
      ring
    · rw [hy]
      ring
    · rw [hu]
      ring
    · rw [hv]
      ring

/-! ## One direction -/

variable {client video : ℤ} {d p : ℚ}

theorem clamp_quotient {k n : ℤ} (hk : 0 ≤ k) (hlt : k < n) :
    ∃ r, clamp (nearest ((k : ℚ) / n)) = .finite r ∧ |r - k / n| ≤ 1 / 2 ^ 52 := by
  have hn : (0 : ℚ) < n := by exact_mod_cast hk.trans_lt hlt
  have hk0 : (0 : ℚ) ≤ k := by exact_mod_cast hk
  have hkn : (k : ℚ) ≤ n := by exact_mod_cast hlt.le
  have hq0 : 0 ≤ (k : ℚ) / n := by positivity
  have hq1 : (k : ℚ) / n ≤ 1 := (div_le_one hn).2 hkn
  have habs : |(k : ℚ) / n| = k / n := abs_of_nonneg hq0
  have herror := rounded_error_le ((k : ℚ) / n)
  have hnearest : nearest ((k : ℚ) / n) = .finite (rounded (k / n)) := by
    refine nearest_rounded ?_
    rw [habs]
    exact hq1.trans (by norm_num)
  rw [habs] at herror
  have herror' : |rounded ((k : ℚ) / n) - k / n| ≤ 1 / 2 ^ 52 := by
    norm_num at herror ⊢
    linarith
  rw [hnearest, clamp]
  have hlo : ¬rounded ((k : ℚ) / n) < 0 := not_lt.2 (rounded_nonneg hq0)
  rw [if_neg hlo]
  split
  case isFalse => exact ⟨_, rfl, herror'⟩
  case isTrue hbig =>
    refine ⟨1, rfl, ?_⟩
    rw [abs_of_nonneg (by linarith)]
    have := (abs_le.1 herror').2
    linarith

theorem rounded32_bounds {q m : ℚ} (h : |q| ≤ m) : |rounded32 q - q| ≤ m / 2 ^ 24 + 1 / 2 ^ 64 := by
  refine (rounded32_error_le q).trans ?_
  gcongr

theorem part_bounds {q z lo hi : ℚ} (hq0 : 0 ≤ q) (hq1 : q ≤ 1) (hlo : lo ≤ z) (hhi : z ≤ hi)
    (hlo0 : lo ≤ 0) (hhi0 : 0 ≤ hi) : lo ≤ q * z ∧ q * z ≤ hi := by
  have hle : q * z ≤ q * hi := mul_le_mul_of_nonneg_left hhi hq0
  have hge : q * lo ≤ q * z := mul_le_mul_of_nonneg_left hlo hq0
  constructor
  · have : 1 * lo ≤ q * lo := mul_le_mul_of_nonpos_right hq1 hlo0
    linarith
  · have : q * hi ≤ 1 * hi := mul_le_mul_of_nonneg_right hq1 hhi0
    linarith

/-- **One direction.**  `rounded (rounded (client - d) / 2)` is the margin and `d` the extent of the
picture; `t` is where the point `p` of the pixel `px` is in the picture. -/
theorem direction_close (hclient : 0 < client) (hmax : client < 2 ^ 31) (h0 : 0 ≤ d)
    (hd : d ≤ client + 1 / 2 ^ 16) {x : ℚ} (hx : x = rounded (rounded (client - d) / 2)) {px : ℤ}
    (hin : truncate x ≤ px ∧ px < truncate x + truncate d) (hp : px ≤ p ∧ p ≤ px + 1) :
    ∃ n, clamp (nearest (((px - truncate x : ℤ) : ℚ) / truncate d)) = .finite n ∧
      ∀ t, p = rounded32 x + t * rounded32 d →
        |(n - t) * rounded32 d| ≤ 2 + client / 2 ^ 23 + 1 / 2 ^ 16 := by
  have hc : (0 : ℚ) < client := by exact_mod_cast hclient
  have hc31 : (client : ℚ) ≤ 2 ^ 31 := by exact_mod_cast hmax.le
  obtain ⟨n, hn, hnerror⟩ := clamp_quotient (k := px - truncate x) (n := truncate d) (by omega) (by omega)
  refine ⟨n, hn, ?_⟩
  intro t ht
  have hoffset := offset_close hclient hmax h0 hd
  rw [← hx, abs_le] at hoffset
  -- the margin as a float, and truncated
  have hxabs : |x| ≤ client / 2 + 1 := by
    rw [abs_le]
    norm_num at hoffset hd
    constructor <;> linarith
  have hx32 := abs_le.1 (rounded32_bounds hxabs)
  obtain ⟨-, hrxhi, hrxlo⟩ := truncate_bounds (q := x) (by norm_num at hoffset hd; linarith)
  have hrxle : (truncate x : ℚ) ≤ x + 1 / 2 ^ 15 := by
    rcases le_total 0 x with hxs | hxs
    · rw [truncate_of_nonneg hxs]
      have := Int.floor_le x
      norm_num
      linarith
    · have hlt : truncate x < 1 := (truncate_lt (by decide)).2 (by push_cast; linarith)
      have hle : (truncate x : ℚ) ≤ 0 := by exact_mod_cast (by omega : truncate x ≤ 0)
      norm_num at hoffset hd ⊢
      linarith
  -- the extent as a float, and truncated
  have hdabs : |d| ≤ client + 1 := by
    rw [abs_of_nonneg h0]
    norm_num at hd ⊢
    linarith
  have hw32 := abs_le.1 (rounded32_bounds hdabs)
  have hrw : truncate d = ⌊d⌋ := truncate_of_nonneg h0
  have hrwle := Int.floor_le d
  have hrwlt := Int.lt_floor_add_one d
  rw [← hrw] at hrwle hrwlt
  -- the pixel, from the edge of the rectangle
  obtain ⟨k, hk⟩ : ∃ k : ℤ, k = px - truncate x := ⟨_, rfl⟩
  have hpx : (px : ℚ) = k + truncate x := by
    rw [hk]
    push_cast
    ring
  rw [← hk] at hnerror
  have hk0 : (0 : ℚ) ≤ k := by exact_mod_cast (by omega : 0 ≤ k)
  have hkn : (k : ℚ) ≤ truncate d := by exact_mod_cast (by omega : k ≤ truncate d)
  have hn0 : (0 : ℚ) < truncate d := by exact_mod_cast (by omega : 0 < truncate d)
  rw [hpx] at hp
  generalize (truncate x : ℚ) = rx at *
  generalize (truncate d : ℚ) = size at *
  generalize rounded32 x = x32 at *
  generalize rounded32 d = w32 at *
  have hq0 : 0 ≤ (k : ℚ) / size := by positivity
  have hq1 : (k : ℚ) / size ≤ 1 := (div_le_one hn0).2 hkn
  have hqk : (k : ℚ) / size * size = k := by field_simp
  generalize (k : ℚ) / size = q at *
  -- the quotient, the two extents and the two margins each add an error
  have hsplit : (n - t) * w32 = (n - q) * w32 + q * (w32 - size) + (k - (p - x32)) := by
    linear_combination ht + hqk
  have hrounding : |(n - q) * w32| ≤ 1 / 2 ^ 20 := by
    have hw : |w32| ≤ 2 ^ 32 := by
      rw [abs_le]
      norm_num at hw32 hc31 hd ⊢
      constructor <;> linarith
    rw [abs_mul]
    calc |n - q| * |w32| ≤ 1 / 2 ^ 52 * 2 ^ 32 := by gcongr
      _ = 1 / 2 ^ 20 := by norm_num
  have hextent : -((client + 1) / 2 ^ 24 + 1 / 2 ^ 64) ≤ q * (w32 - size) ∧
      q * (w32 - size) ≤ 1 + ((client + 1) / 2 ^ 24 + 1 / 2 ^ 64) := by
    have hpos : (0 : ℚ) ≤ (client + 1) / 2 ^ 24 + 1 / 2 ^ 64 := by positivity
    exact part_bounds hq0 hq1 (by linarith) (by linarith) (by linarith) (by linarith)
  rw [hsplit, abs_le]
  rw [abs_le] at hrounding
  norm_num at hrounding hextent hx32 hrxle ⊢
  constructor <;> linarith

/-! ## The window -/

/-- The sizes that the letterbox is computed from. -/
def extents (r : Renderer) : ℤ × ℤ × ℤ × ℤ := (r.clientW, r.clientH, r.lastVideoW, r.lastVideoH)

variable {r : Renderer} {f : DecodedFrame} {o : PresentOutcome}

theorem extents_ensureUploadTexture (w h : ℤ) :
    extents (r.ensureUploadTexture w h o).1 = extents r := by
  unfold Renderer.ensureUploadTexture
  split_ifs
  · rfl
  · rfl
  · rfl
  · rfl
  · rfl

theorem extents_uploadNv12 (m : Option Mapping) : extents (r.uploadNv12 f m) = extents r := by
  unfold Renderer.uploadNv12
  split
  case h_1 =>
    split
    · rfl
    · rfl
  case h_2 => rfl

theorem extents_presentFrame :
    extents (r.presentFrame f o).1 =
        (r.clientW, r.clientH, visible f.width f.cropRight, visible f.height f.cropBottom) ∧
      ∀ p ∈ (r.presentFrame f o).2, p.constants = perFrame r.clientW r.clientH f := by
  unfold Renderer.presentFrame
  dsimp only
  generalize hr₀ : { r with
    lastVideoW := visible f.width f.cropRight
    lastVideoH := visible f.height f.cropBottom } = r₀
  have hext₀ : extents r₀ =
      (r.clientW, r.clientH, visible f.width f.cropRight, visible f.height f.cropBottom) := by
    subst hr₀
    rfl
  have hext₁ := extents_ensureUploadTexture (r := r₀) (o := o) f.width f.height
  generalize r₀.ensureUploadTexture f.width f.height o = ensured at hext₁ ⊢
  obtain ⟨r₁, up⟩ := ensured
  have hext : extents (if up then r₁.uploadNv12 f o.mapped else r₁) =
      (r.clientW, r.clientH, visible f.width f.cropRight, visible f.height f.cropBottom) := by
    rw [← hext₀, ← hext₁]
    split
    · exact extents_uploadNv12 o.mapped
    · rfl
  refine ⟨hext, ?_⟩
  intro p hp
  generalize (if up then r₁.uploadNv12 f o.mapped else r₁) = r₂ at hext hp
  obtain ⟨hw, hh, -⟩ : r₂.clientW = r.clientW ∧ r₂.clientH = r.clientH ∧ _ := by
    simpa [extents] using hext
  unfold Renderer.draw at hp
  split at hp
  case h_1 =>
    obtain rfl := Option.some.inj hp
    dsimp only
    rw [hw, hh]
  case h_2 => cases hp

/-- A picture on top of the screen is that of the frame. -/
theorem picture_of_present {e : Presented} {p : Picture}
    (hscreen : (r.present (some f) o).screen = e :: r.screen) (hpicture : e.picture = some p) :
    p ∈ (r.presentFrame f o).2 ∧ extents (r.present (some f) o) = extents (r.presentFrame f o).1 := by
  unfold Renderer.present at hscreen ⊢
  rcases hswap : r.swap with _ | back
  · rw [hswap] at hscreen
    exact absurd (congrArg List.length hscreen) (by simp)
  rcases hrtv : r.rtv with _ | target
  · rw [hswap, hrtv] at hscreen
    exact absurd (congrArg List.length hscreen) (by simp)
  rw [hswap, hrtv] at hscreen
  dsimp only at hscreen ⊢
  split at hscreen
  case isTrue hpixels =>
    rw [if_pos hpixels]
    obtain ⟨rfl, -⟩ := List.cons.inj hscreen
    exact ⟨hpicture, rfl⟩
  case isFalse =>
    obtain ⟨rfl, -⟩ := List.cons.inj hscreen
    cases hpicture

/-- The pixel is in the rectangle. -/
def Inside (v : Rect) (px py : ℤ) : Prop :=
  (v.rx ≤ px ∧ px < v.rx + v.rw) ∧ v.ry ≤ py ∧ py < v.ry + v.rh

theorem windowToVideo_of_inside {v : Rect} {px py : ℤ} (h : Inside v px py) :
    windowToVideo (some v) px py = some (clamp (nearest (((px - v.rx : ℤ) : ℚ) / v.rw)),
      clamp (nearest (((py - v.ry : ℤ) : ℚ) / v.rh))) := by
  obtain ⟨hx, hy⟩ := h
  unfold windowToVideo
  rw [Option.bind_some, if_neg (by omega)]

theorem videoRect_eq {clientW clientH videoW videoH : ℤ} (h : Sizes clientW clientH videoW videoH) :
    Letterbox.videoRect clientW clientH videoW videoH =
      some ⟨truncate (letterbox clientW clientH videoW videoH).x,
        truncate (letterbox clientW clientH videoW videoH).y,
        truncate (letterbox clientW clientH videoW videoH).w,
        truncate (letterbox clientW clientH videoW videoH).h⟩ := by
  obtain ⟨hcw, hch, hvw, hvh⟩ := h
  unfold Letterbox.videoRect
  rw [if_neg (by omega)]

theorem rounded32_ne_zero (h : 0 < client) : rounded32 client ≠ 0 := by
  have hc : (1 : ℚ) ≤ client := by exact_mod_cast h
  have herror := rounded32_error_le client
  rw [abs_of_nonneg (by linarith : (0 : ℚ) ≤ client)] at herror
  intro hzero
  rw [hzero, zero_sub, abs_neg, abs_of_nonneg (by linarith : (0 : ℚ) ≤ client)] at herror
  norm_num at herror
  linarith

/-- **The point under the pointer.**  After a frame has been presented, take a pixel of `VideoRect` and
any point of it that the triangle paints.  The coordinates that `WindowToVideo` gives for the pixel are,
in window pixels, at most two and a rounding away from the place in the picture that is shown there. -/
theorem pointer_close
    (hsizes : Sizes r.clientW r.clientH (visible f.width f.cropRight) (visible f.height f.cropBottom))
    {e : Presented} {p : Picture} (hscreen : (r.present (some f) o).screen = e :: r.screen)
    (hpicture : e.picture = some p) {v : Rect} (hv : (r.present (some f) o).videoRect = some v)
    {px py : ℤ} (hin : Inside v px py) {x y tu tv : ℚ} (hx : px ≤ x ∧ x ≤ px + 1)
    (hy : py ≤ y ∧ y ≤ py + 1) (hpainted : Painted p.constants x y tu tv) :
    ∃ n m tx ty : ℚ, windowToVideo (some v) px py = some (.finite n, .finite m) ∧
      tu = tx * p.constants.texRect.w ∧ tv = ty * p.constants.texRect.h ∧
      |(n - tx) * p.constants.winRect.w| ≤ 2 + r.clientW / 2 ^ 23 + 1 / 2 ^ 16 ∧
      |(m - ty) * p.constants.winRect.h| ≤ 2 + r.clientH / 2 ^ 23 + 1 / 2 ^ 16 := by
  obtain ⟨hdrawn, hsame⟩ := picture_of_present hscreen hpicture
  obtain ⟨hextents, hconstants⟩ := extents_presentFrame (r := r) (f := f) (o := o)
  rw [hextents] at hsame
  simp only [extents, Prod.mk.injEq] at hsame
  obtain ⟨hcw, hch, hvw, hvh⟩ := hsame
  unfold Renderer.videoRect at hv
  rw [hcw, hch, hvw, hvh] at hv
  have hrect := videoRect_eq hsizes
  rw [hrect] at hv
  obtain rfl := Option.some.inj hv
  rw [hconstants p hdrawn] at hpainted ⊢
  obtain ⟨tx, ty, -, hpx, hpy, hu, hw⟩ :=
    (painted_iff (rounded32_ne_zero hsizes.clientW.1) (rounded32_ne_zero hsizes.clientH.1)).1 hpainted
  obtain ⟨⟨hw0, hwle, -⟩, hh0, hhle, -⟩ := hsizes.extents
  obtain ⟨n, hn, hnclose⟩ := direction_close hsizes.clientW.1 hsizes.clientW.2 hw0 hwle rfl hin.1 hx
  obtain ⟨m, hm, hmclose⟩ := direction_close hsizes.clientH.1 hsizes.clientH.2 hh0 hhle rfl hin.2 hy
  refine ⟨n, m, tx, ty, ?_, ?_, ?_, hnclose tx hpx, hmclose ty hpy⟩
  · rw [← hn, ← hm]
    refine windowToVideo_of_inside hin
  · rw [hu]
    exact zero_add _
  · rw [hw]
    exact zero_add _

/-- A square picture in a window of 4 by 2 pixels. -/
def square : DecodedFrame := ⟨[1, 2, 3, 4, 5, 6], 2, 2, 0, 0, -1, 0⟩

def window : Renderer :=
  { Present.initial with
    clientW := 4
    clientH := 2
    swap := some ⟨0, 4, 2⟩
    rtv := some ⟨0, 4, 2⟩ }

/-- The picture, its texture still empty. -/
def drawn : Picture :=
  ⟨square, (⟨2, 2, none⟩, .luma), (⟨2, 2, none⟩, .chroma), perFrame 4 2 square, false⟩

theorem pointer_close_square :
    ∃ v, (window.present (some square) ⟨true, true, true, none⟩).videoRect = some v ∧ Inside v 1 0 ∧
      ∃ n m tx ty : ℚ, windowToVideo (some v) 1 0 = some (.finite n, .finite m) ∧
        1 / 4 * drawn.constants.texRect.w = tx * drawn.constants.texRect.w ∧
        1 / 4 * drawn.constants.texRect.h = ty * drawn.constants.texRect.h ∧
        |(n - tx) * drawn.constants.winRect.w| ≤ 2 + (4 : ℤ) / 2 ^ 23 + 1 / 2 ^ 16 ∧
        |(m - ty) * drawn.constants.winRect.h| ≤ 2 + (2 : ℤ) / 2 ^ 23 + 1 / 2 ^ 16 := by
  have hrect : (window.present (some square) ⟨true, true, true, none⟩).videoRect.map
      (fun v => (v.rx, v.ry, v.rw, v.rh)) = some (1, 0, 2, 2) := by decide +kernel
  obtain ⟨v, hv, hsides⟩ := Option.map_eq_some_iff.1 hrect
  simp only [Prod.mk.injEq] at hsides
  obtain ⟨hrx, hry, hrw, hrh⟩ := hsides
  have hin : Inside v 1 0 := by
    unfold Inside
    omega
  have hbox : drawn.constants.winRect.x = 1 ∧ drawn.constants.winRect.y = 0 ∧
      drawn.constants.winRect.w = 2 ∧ drawn.constants.winRect.h = 2 := by decide +kernel
  obtain ⟨hbx, hby, hbw, hbh⟩ := hbox
  have hpainted : Painted drawn.constants (3 / 2) (1 / 2) (1 / 4 * drawn.constants.texRect.w)
      (1 / 4 * drawn.constants.texRect.h) := by
    have hw : drawn.constants.windowW ≠ 0 := @rounded32_ne_zero 4 (by decide)
    have hh : drawn.constants.windowH ≠ 0 := @rounded32_ne_zero 2 (by decide)
    refine (painted_iff hw hh).2 ⟨1 / 4, 1 / 4, by norm_num, ?_, ?_, (zero_add _).symm, (zero_add _).symm⟩
    · rw [hbx, hbw]
      norm_num
    · rw [hby, hbh]
      norm_num
  have hsizes : Sizes window.clientW window.clientH (visible square.width square.cropRight)
      (visible square.height square.cropBottom) := ⟨by decide, by decide, by decide, by decide⟩
  have hscreen : (window.present (some square) ⟨true, true, true, none⟩).screen =
      ⟨⟨0, 4, 2⟩, 4, 2, some drawn⟩ :: window.screen := rfl
  exact ⟨v, hv, hin, pointer_close hsizes hscreen rfl hv hin (by norm_num) (by norm_num) hpainted⟩

end OpenDisplay.Render.InputMapping
