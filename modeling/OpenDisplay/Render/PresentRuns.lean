import OpenDisplay.Render.Present
import OpenDisplay.Video.DecoderFrames

/-!
# What is on the screen

`Inv` holds of the renderer after any calls, whatever Direct3D answers: the render target is the
current back buffer and has the size of the client area, and the two views are planes of the upload
texture, or at least the second one is gone.  So a picture is drawn from both planes of one texture of
the size of its frame, with the constants of the frame.  That texture holds the frame pixel by pixel if
`Map` succeeded, and else the frame that was uploaded last; but it may be a new one, of which nothing is
defined (`present_shows`).  The copy stays inside the frame and inside the mapped memory.
-/

namespace OpenDisplay.Render.PresentRuns

open OpenDisplay.Lib.Rows OpenDisplay.Lib.Transition OpenDisplay.Render.Present
open OpenDisplay.Video.Decoder OpenDisplay.Video.DecoderFrames
open OpenDisplay.Video.DecoderDiscipline (Submission answering unit)

/-! ## The copy -/

/-- A luma sample of a frame. -/
def frameLuma (f : DecodedFrame) (x y : ℕ) : Option UInt8 := f.nv12[y * f.width.toNat + x]?

/-- A byte of the chroma plane, which has half the rows. -/
def frameChroma (f : DecodedFrame) (x y : ℕ) : Option UInt8 :=
  f.nv12[f.width.toNat * f.height.toNat + y * f.width.toNat + x]?

/-- The luma sample that a view of the texture reads. -/
def lumaAt (m : Mapping) (x y : ℕ) : Option UInt8 := m.data[y * m.rowPitch + x]?

/-- The chroma plane starts behind the luma rows. -/
def chromaAt (m : Mapping) (height x y : ℕ) : Option UInt8 :=
  m.data[m.rowPitch * height + y * m.rowPitch + x]?

/-- The texture holds the frame. -/
def Shows (t : Texture) (f : DecodedFrame) : Prop :=
  ∃ m ∈ t.contents,
    (∀ y < f.height.toNat, ∀ x < f.width.toNat,
      lumaAt m x y = frameLuma f x y ∧ (frameLuma f x y).isSome) ∧
    ∀ y < f.height.toNat / 2, ∀ x < f.width.toNat,
      chromaAt m f.height.toNat x y = frameChroma f x y ∧ (frameChroma f x y).isSome

/-- What Direct3D promises of the memory that `Map` gives for an NV12 texture: rows that are wide
enough, and room for the rows of both planes. -/
def Fits (m : Mapping) (f : DecodedFrame) : Prop :=
  f.width.toNat ≤ m.rowPitch ∧ m.rowPitch * (f.height.toNat + f.height.toNat / 2) ≤ m.data.length

instance (m : Mapping) (f : DecodedFrame) : Decidable (Fits m f) := by
  unfold Fits
  infer_instance

variable {f : DecodedFrame} {m : Mapping}

theorem rows_le (hf : Whole f) :
    f.width.toNat * f.height.toNat + f.height.toNat / 2 * f.width.toNat ≤ f.nv12.length := by
  rw [hf.length, nv12Size]
  have hhalf : f.height.toNat / 2 * f.width.toNat ≤ f.width.toNat * f.height.toNat / 2 := by
    rw [Nat.le_div_iff_mul_le (by decide)]
    have h := Nat.mul_le_mul_left f.width.toNat (Nat.div_mul_le_self f.height.toNat 2)
    calc f.height.toNat / 2 * f.width.toNat * 2
        = f.width.toNat * (f.height.toNat / 2 * 2) := by ring
      _ ≤ f.width.toNat * f.height.toNat := h
  omega

theorem cell_lt {w n x y : ℕ} (hy : y < n) (hx : x < w) : y * w + x < n * w := by
  have h : (y + 1) * w ≤ n * w := Nat.mul_le_mul_right w hy
  rw [Nat.add_mul, Nat.one_mul] at h
  omega

theorem isSome_frameLuma (hf : Whole f) {x y : ℕ} (hy : y < f.height.toNat)
    (hx : x < f.width.toNat) : (frameLuma f x y).isSome := by
  have hrows := rows_le hf
  have hcell := cell_lt hy hx
  rw [Nat.mul_comm f.height.toNat] at hcell
  unfold frameLuma
  rw [List.getElem?_eq_getElem (by omega)]
  rfl

theorem isSome_frameChroma (hf : Whole f) {x y : ℕ} (hy : y < f.height.toNat / 2)
    (hx : x < f.width.toNat) : (frameChroma f x y).isSome := by
  have hrows := rows_le hf
  have hcell := cell_lt hy hx
  unfold frameChroma
  rw [List.getElem?_eq_getElem (by omega)]
  rfl

/-- **The upload** of a whole frame stays inside of both buffers and leaves the frame in the memory:
the chroma rows lie behind the luma rows, which they do not touch. -/
theorem copyNv12_spec (hf : Whole f) (hm : Fits m f) :
    ∃ m', copyNv12 f.nv12 f.width.toNat f.height.toNat m = some m' ∧
      ∀ t : Texture, t.contents = some m' → Shows t f := by
  obtain ⟨hpitch, hroom⟩ := hm
  have hrows := rows_le hf
  have hsplit : m.rowPitch * (f.height.toNat + f.height.toNat / 2) =
      f.height.toNat * m.rowPitch + f.height.toNat / 2 * m.rowPitch := by ring
  rw [hsplit] at hroom
  have hcomm : f.width.toNat * f.height.toNat = f.height.toNat * f.width.toNat := Nat.mul_comm _ _
  have hcomm' : m.rowPitch * f.height.toNat = f.height.toNat * m.rowPitch := Nat.mul_comm _ _
  have hluma : ∃ luma, copyRows f.nv12 0 f.width.toNat m.rowPitch 0 f.height.toNat m.data = some luma ∧
      Copied f.nv12 0 f.width.toNat m.rowPitch 0 f.height.toNat m.data luma :=
    copyRows_spec hpitch (by omega) (by omega)
  obtain ⟨luma, hluma, hcopied⟩ := hluma
  have hchroma : ∃ data, copyRows f.nv12 (f.width.toNat * f.height.toNat) f.width.toNat m.rowPitch
        (m.rowPitch * f.height.toNat) (f.height.toNat / 2) luma = some data ∧
      Copied f.nv12 (f.width.toNat * f.height.toNat) f.width.toNat m.rowPitch
        (m.rowPitch * f.height.toNat) (f.height.toNat / 2) luma data :=
    copyRows_spec hpitch (by rw [hcopied.length]; omega) (by omega)
  obtain ⟨data, hdata, hcopied'⟩ := hchroma
  refine ⟨{ m with data }, ?_, ?_⟩
  · unfold copyNv12
    rw [hluma, Option.bind_some, hdata, Option.map_some]
  · intro t ht
    refine ⟨_, ht, ?_, ?_⟩
    · intro y hy x hx
      refine ⟨?_, isSome_frameLuma hf hy hx⟩
      have hcell := cell_lt hy (Nat.lt_of_lt_of_le hx hpitch)
      have hrow := hcopied.row y hy x hx
      rw [Nat.zero_add, Nat.zero_add] at hrow
      unfold lumaAt frameLuma
      rw [← hrow]
      refine hcopied'.frame _ fun r hr => .inl ?_
      dsimp only
      omega
    · intro y hy x hx
      exact ⟨hcopied'.row y hy x hx, isSome_frameChroma hf hy hx⟩

/-! ## The views and the render target -/

/-- Both views are planes of the upload texture, or there is no upload texture and no second view. -/
def Bound (r : Renderer) : Prop :=
  (∃ t, r.uploadTex = some t ∧ r.srvY = some ⟨t, .luma⟩ ∧ r.srvUV = some ⟨t, .chroma⟩ ∧
    (r.textures t).width = r.uploadW ∧ (r.textures t).height = r.uploadH) ∨
  r.uploadTex = none ∧ r.srvUV = none

/-- The back buffer has the size of the client area, and a render target is a view of it. -/
structure Target (r : Renderer) : Prop where
  size : ∀ b ∈ r.swap, b.width = r.clientW ∧ b.height = r.clientH
  current : ∀ b ∈ r.rtv, r.swap = some b

/-- The frame of the newest picture whose upload succeeded. -/
def lastUploaded : List Presented → Option DecodedFrame
  | [] => none
  | e :: older =>
    match e.picture with
    | some p => if p.uploaded then some p.frame else lastUploaded older
    | none => lastUploaded older

/-- The texture holds the frame that was uploaded last, which has its size, or nothing was uploaded to
it yet. -/
def Holds (screen : List Presented) (t : Texture) : Prop :=
  t.contents = none ∨
    ∃ f ∈ lastUploaded screen, (t.width = f.width ∧ t.height = f.height) ∧ Shows t f

variable {F : DecodedFrame → Prop}

/-- **A picture that shows its frame**: both planes of one texture of the frame's size, which holds
the frame if it was uploaded, and never a mixture of frames. -/
structure Faithful (F : DecodedFrame → Prop) (older : List Presented) (p : Picture) : Prop where
  frame : F p.frame
  planes : p.luma.2 = .luma ∧ p.chroma = (p.luma.1, .chroma)
  size : p.luma.1.width = p.frame.width ∧ p.luma.1.height = p.frame.height
  uploaded : p.uploaded = true → Shows p.luma.1 p.frame
  kept : p.uploaded = false → Holds older p.luma.1

/-- What is handed to the swap chain fills its back buffer and shows a frame, if anything, in the
letterbox of that buffer and cropped as the frame is. -/
structure Right (F : DecodedFrame → Prop) (older : List Presented) (e : Presented) : Prop where
  viewport : e.viewportW = e.target.width ∧ e.viewportH = e.target.height
  picture : ∀ p ∈ e.picture, Faithful F older p
  constants : ∀ p ∈ e.picture, p.constants = perFrame e.target.width e.target.height p.frame

/-- All that was handed over, each with what came before it. -/
def AllRight (F : DecodedFrame → Prop) : List Presented → Prop
  | [] => True
  | e :: older => Right F older e ∧ AllRight F older

structure Inv (F : DecodedFrame → Prop) (r : Renderer) : Prop where
  bound : Bound r
  target : Target r
  upload : ∀ t, r.uploadTex = some t → Holds r.screen (r.textures t)
  screen : AllRight F r.screen
  fault : r.fault = false

variable {r : Renderer} {o : PresentOutcome}

theorem createRenderTarget_eq (r : Renderer) (o : TargetOutcome) :
    ∃ v, r.createRenderTarget o = { r with rtv := v } ∧ ∀ b ∈ v, b ∈ r.rtv ∨ r.swap = some b := by
  unfold Renderer.createRenderTarget
  split
  · refine ⟨_, rfl, fun b hb => .inr ?_⟩
    split at hb
    · exact hb
    · cases hb
  · exact ⟨r.rtv, rfl, fun b hb => .inl hb⟩

theorem target_createRenderTarget (h : Target r) (o : TargetOutcome) :
    Target (r.createRenderTarget o) := by
  obtain ⟨v, heq, hv⟩ := createRenderTarget_eq r o
  rw [heq]
  exact ⟨h.size, fun b hb => (hv b hb).elim (h.current b) id⟩

/-- The parts of the state that a change of the back buffers leaves alone. -/
theorem inv_of_target {r' : Renderer} (h : Inv F r) (ht : Target r')
    (heq : r' = { r with clientW := r'.clientW, clientH := r'.clientH, swap := r'.swap, rtv := r'.rtv }) :
    Inv F r' := by
  obtain ⟨hbound, -, hupload, hscreen, hfault⟩ := h
  rw [heq]
  exact ⟨hbound, heq ▸ ht, hupload, hscreen, hfault⟩

theorem inv_createRenderTarget (h : Inv F r) (o : TargetOutcome) : Inv F (r.createRenderTarget o) := by
  obtain ⟨v, heq, -⟩ := createRenderTarget_eq r o
  refine inv_of_target h (target_createRenderTarget h.target o) ?_
  rw [heq]

theorem inv_init (h : Inv F r) (hswap : r.swap = none) (w hh : ℤ) (o : InitOutcome) :
    Inv F (r.init w hh o) := by
  have hblank : Inv F { r with clientW := w, clientH := hh, rtv := none } := by
    refine inv_of_target h ⟨?_, ?_⟩ rfl
    · intro b hb
      have hsome : r.swap = some b := hb
      rw [hswap] at hsome
      cases hsome
    · intro b hb
      cases hb
  unfold Renderer.init
  dsimp only
  split
  · refine inv_createRenderTarget ?_ o.target
    refine inv_of_target hblank ⟨?_, ?_⟩ rfl
    · intro b hb
      obtain rfl := Option.some.inj hb
      exact ⟨rfl, rfl⟩
    · intro b hb
      cases hb
  · exact hblank

theorem inv_resize (h : Inv F r) (w hh : ℤ) (o : ResizeOutcome) : Inv F (r.resize w hh o) := by
  unfold Renderer.resize
  split
  case isTrue => exact h
  split
  case h_1 => exact h
  case h_2 back hback =>
    split
    case isTrue => exact h
    dsimp only
    split
    · refine inv_createRenderTarget ?_ o.target
      refine inv_of_target h ⟨?_, ?_⟩ rfl
      · intro b hb
        obtain rfl := Option.some.inj hb
        exact ⟨rfl, rfl⟩
      · intro b hb
        cases hb
    · refine inv_createRenderTarget ?_ o.target
      refine inv_of_target h ⟨h.target.size, ?_⟩ rfl
      intro b hb
      cases hb

/-! ## The upload texture -/

/-- What the upload leaves alone. -/
structure SameBuffers (r r' : Renderer) : Prop where
  client : r'.clientW = r.clientW ∧ r'.clientH = r.clientH
  swap : r'.swap = r.swap
  rtv : r'.rtv = r.rtv
  screen : r'.screen = r.screen
  fault : r'.fault = r.fault

/-- There is a texture of that size, and both views are planes of it. -/
def Ready (r : Renderer) (w h : ℤ) : Prop :=
  ∃ t, r.uploadTex = some t ∧ r.srvY = some ⟨t, .luma⟩ ∧ r.srvUV = some ⟨t, .chroma⟩ ∧
    (r.textures t).width = w ∧ (r.textures t).height = h ∧ r.uploadW = w ∧ r.uploadH = h

theorem Ready.bound {w h : ℤ} (hr : Ready r w h) : Bound r := by
  obtain ⟨t, htex, hy, huv, hw, hh, huw, huh⟩ := hr
  exact .inl ⟨t, htex, hy, huv, hw.trans huw.symm, hh.trans huh.symm⟩

/-- **`EnsureUploadTexture`** succeeds with a texture of the right size under both views; after a
failure there is no texture and no second view. -/
theorem ensureUploadTexture_spec (h : Bound r) (w hh : ℤ) (o : PresentOutcome) :
    SameBuffers r (r.ensureUploadTexture w hh o).1 ∧
      if (r.ensureUploadTexture w hh o).2 then Ready (r.ensureUploadTexture w hh o).1 w hh
      else (r.ensureUploadTexture w hh o).1.uploadTex = none ∧
        (r.ensureUploadTexture w hh o).1.srvUV = none := by
  unfold Renderer.ensureUploadTexture
  split
  case isTrue hsame =>
    refine ⟨⟨⟨rfl, rfl⟩, rfl, rfl, rfl, rfl⟩, ?_⟩
    rw [if_pos rfl]
    obtain ⟨hsome, huw, huh⟩ := hsame
    rcases h with ⟨t, htex, hy, huv, hw, hh'⟩ | ⟨hnone, -⟩
    · exact ⟨t, htex, hy, huv, hw.trans huw, hh'.trans huh, huw, huh⟩
    · rw [hnone] at hsome
      cases hsome
  case isFalse =>
    dsimp only
    split
    case isFalse => exact ⟨⟨⟨rfl, rfl⟩, rfl, rfl, rfl, rfl⟩, ⟨rfl, rfl⟩⟩
    split
    case isFalse => exact ⟨⟨⟨rfl, rfl⟩, rfl, rfl, rfl, rfl⟩, ⟨rfl, rfl⟩⟩
    split
    case isFalse => exact ⟨⟨⟨rfl, rfl⟩, rfl, rfl, rfl, rfl⟩, ⟨rfl, rfl⟩⟩
    refine ⟨⟨⟨rfl, rfl⟩, rfl, rfl, rfl, rfl⟩, ?_⟩
    rw [if_pos rfl]
    refine ⟨r.nextTexture, rfl, rfl, rfl, ?_, ?_, rfl, rfl⟩
    · change (Function.update r.textures r.nextTexture _ r.nextTexture).width = w
      rw [Function.update_self]
    · change (Function.update r.textures r.nextTexture _ r.nextTexture).height = hh
      rw [Function.update_self]

/-- Nothing has been uploaded to a new texture. -/
theorem holds_ensureUploadTexture {S : List Presented} (h : ∀ t, r.uploadTex = some t → Holds S (r.textures t))
    (w hh : ℤ) (o : PresentOutcome) (t : ℕ) (ht : (r.ensureUploadTexture w hh o).1.uploadTex = some t) :
    Holds S ((r.ensureUploadTexture w hh o).1.textures t) := by
  unfold Renderer.ensureUploadTexture at ht ⊢
  split at ht
  case isTrue hsame =>
    rw [if_pos hsame]
    exact h t ht
  case isFalse hsame =>
    rw [if_neg hsame]
    dsimp only at ht ⊢
    split_ifs at ht ⊢
    · obtain rfl := Option.some.inj ht
      refine .inl ?_
      dsimp only
      rw [Function.update_self]

/-- **`UploadNv12`** of a whole frame to a texture of its size. -/
theorem uploadNv12_spec {S : List Presented} (hready : Ready r f.width f.height) (hf : Whole f)
    (hmap : ∀ m ∈ o.mapped, Fits m f) (h : ∀ t, r.uploadTex = some t → Holds S (r.textures t)) :
    SameBuffers r (r.uploadNv12 f o.mapped) ∧ Ready (r.uploadNv12 f o.mapped) f.width f.height ∧
      ∀ t, (r.uploadNv12 f o.mapped).uploadTex = some t →
        if o.mapped.isSome then Shows ((r.uploadNv12 f o.mapped).textures t) f
        else Holds S ((r.uploadNv12 f o.mapped).textures t) := by
  obtain ⟨t, htex, hy, huv, hw, hh, huw, huh⟩ := hready
  unfold Renderer.uploadNv12
  rw [htex]
  rcases hm : o.mapped with _ | m
  · refine ⟨⟨⟨rfl, rfl⟩, rfl, rfl, rfl, rfl⟩, ⟨t, htex, hy, huv, hw, hh, huw, huh⟩, ?_⟩
    intro t' ht'
    rw [if_neg (by simp)]
    exact h t' ht'
  · obtain ⟨m', hcopy, hshows⟩ := copyNv12_spec hf (hmap m hm)
    have hshown : Shows { r.textures t with contents := some m' } f := hshows _ rfl
    dsimp only
    rw [hcopy]
    refine ⟨⟨⟨rfl, rfl⟩, rfl, rfl, rfl, rfl⟩, ⟨t, rfl, hy, huv, ?_, ?_, huw, huh⟩, ?_⟩
    · dsimp only
      rw [Function.update_self]
      exact hw
    · dsimp only
      rw [Function.update_self]
      exact hh
    · intro t' ht'
      obtain rfl := Option.some.inj ht'
      rw [if_pos (Option.isSome_some)]
      dsimp only
      rw [Function.update_self]
      exact hshown

theorem SameBuffers.trans {r' r'' : Renderer} (h : SameBuffers r r') (h' : SameBuffers r' r'') :
    SameBuffers r r'' where
  client := ⟨h'.client.1.trans h.client.1, h'.client.2.trans h.client.2⟩
  swap := h'.swap.trans h.swap
  rtv := h'.rtv.trans h.rtv
  screen := h'.screen.trans h.screen
  fault := h'.fault.trans h.fault

theorem draw_eq_none (h : r.srvUV = none) (f : DecodedFrame) (up : Bool) : r.draw f up = none := by
  unfold Renderer.draw
  rw [h]
  cases r.srvY <;> rfl

/-- What is drawn for a frame. -/
structure Drawn (F : DecodedFrame → Prop) (r : Renderer) (f : DecodedFrame) (p : Picture) : Prop where
  frame : p.frame = f
  faithful : Faithful F r.screen p
  constants : p.constants = perFrame r.clientW r.clientH f

theorem drawn_draw {r₀ : Renderer} (hsame : SameBuffers r₀ r) (hready : Ready r f.width f.height) (hF : F f)
    {up : Bool} (h : ∀ t, r.uploadTex = some t →
      if up then Shows (r.textures t) f else Holds r₀.screen (r.textures t)) :
    ∃ p, r.draw f up = some p ∧ Drawn F r₀ f p ∧
      ∀ t, r.uploadTex = some t → r.textures t = p.luma.1 := by
  obtain ⟨t, htex, hy, huv, hw, hh, -, -⟩ := hready
  have ht := h t htex
  have hdraw : r.draw f up = some ⟨f, (r.textures t, .luma), (r.textures t, .chroma),
      perFrame r.clientW r.clientH f, up⟩ := by
    unfold Renderer.draw
    rw [hy, huv]
  refine ⟨_, hdraw, ⟨rfl, ⟨hF, ⟨rfl, rfl⟩, ⟨hw, hh⟩, ?_, ?_⟩, ?_⟩, ?_⟩
  · rintro rfl
    exact ht
  · rintro rfl
    exact ht
  · rw [hsame.client.1, hsame.client.2]
  · intro t' ht'
    rw [htex] at ht'
    rw [Option.some.inj ht']

/-- **The part of `Present` for a frame with pixels.** -/
theorem presentFrame_spec (h : Inv F r) (hf : Whole f) (hF : F f) (hmap : ∀ m ∈ o.mapped, Fits m f) :
    SameBuffers r (r.presentFrame f o).1 ∧ Bound (r.presentFrame f o).1 ∧
      (∀ p ∈ (r.presentFrame f o).2, Drawn F r f p) ∧
      ∀ t, (r.presentFrame f o).1.uploadTex = some t →
        ∃ p ∈ (r.presentFrame f o).2, (r.presentFrame f o).1.textures t = p.luma.1 := by
  unfold Renderer.presentFrame
  dsimp only
  generalize hr₀ : { r with
    lastVideoW := visible f.width f.cropRight
    lastVideoH := visible f.height f.cropBottom } = r₀
  have hsame₀ : SameBuffers r r₀ := by
    subst hr₀
    exact ⟨⟨rfl, rfl⟩, rfl, rfl, rfl, rfl⟩
  have hbound₀ : Bound r₀ := by
    subst hr₀
    exact h.bound
  have hupload₀ : ∀ t, r₀.uploadTex = some t → Holds r.screen (r₀.textures t) := by
    subst hr₀
    exact h.upload
  obtain ⟨hsame, hcases⟩ := ensureUploadTexture_spec hbound₀ f.width f.height o
  have hupload := holds_ensureUploadTexture hupload₀ f.width f.height o
  generalize r₀.ensureUploadTexture f.width f.height o = ensured at hsame hcases hupload ⊢
  obtain ⟨r₁, up⟩ := ensured
  cases up
  case false =>
    obtain ⟨hnone, huv⟩ : r₁.uploadTex = none ∧ r₁.srvUV = none := hcases
    refine ⟨hsame₀.trans hsame, .inr ⟨hnone, huv⟩, ?_, ?_⟩
    · intro p hp
      have hdraw : r₁.draw f _ = some p := hp
      rw [draw_eq_none huv] at hdraw
      cases hdraw
    · intro t ht
      have htex : r₁.uploadTex = some t := ht
      rw [hnone] at htex
      cases htex
  case true =>
    have hready : Ready r₁ f.width f.height := hcases
    obtain ⟨hsame', hready', hheld⟩ := uploadNv12_spec hready hf hmap hupload
    have hbuffers : SameBuffers r (r₁.uploadNv12 f o.mapped) := (hsame₀.trans hsame).trans hsame'
    obtain ⟨p, hdraw, hdrawn, htexture⟩ := drawn_draw (F := F) hbuffers hready' hF hheld
    refine ⟨hbuffers, hready'.bound, ?_, ?_⟩
    · intro p' hp'
      have heq : (r₁.uploadNv12 f o.mapped).draw f o.mapped.isSome = some p' := hp'
      rw [hdraw] at heq
      obtain rfl := Option.some.inj heq
      exact hdrawn
    · intro t ht
      exact ⟨p, hdraw, htexture t ht⟩

/-! ## The screen -/

theorem holds_background {e : Presented} {S : List Presented} {t : Texture} (he : e.picture = none)
    (h : Holds S t) : Holds (e :: S) t := by
  unfold Holds lastUploaded
  rw [he]
  exact h

/-- Behind a picture its texture holds what was uploaded last. -/
theorem holds_picture {e : Presented} {S : List Presented} {p : Picture} (he : e.picture = some p)
    (h : Faithful F S p) : Holds (e :: S) p.luma.1 := by
  unfold Holds lastUploaded
  rw [he]
  dsimp only
  cases hup : p.uploaded with
  | true => exact .inr ⟨p.frame, rfl, h.size, h.uploaded hup⟩
  | false => exact h.kept hup

/-- **The presentation** of a picture, or of the background only. -/
theorem inv_push (h : Inv F r) {r' : Renderer} {b : BackBuffer} {picture : Option Picture}
    (hsame : SameBuffers r r') (hbound : Bound r') (hrtv : r.rtv = some b)
    (hpicture : ∀ p ∈ picture, Faithful F r.screen p ∧ p.constants = perFrame r.clientW r.clientH p.frame)
    (hupload : ∀ t, r'.uploadTex = some t →
      Holds (⟨b, r'.clientW, r'.clientH, picture⟩ :: r.screen) (r'.textures t)) :
    Inv F { r' with screen := ⟨b, r'.clientW, r'.clientH, picture⟩ :: r'.screen } := by
  obtain ⟨hw, hh⟩ := h.target.size b (h.target.current b hrtv)
  refine ⟨hbound, ⟨?_, ?_⟩, ?_, ?_, hsame.fault.trans h.fault⟩
  · intro b' hb'
    have hb : r'.swap = some b' := hb'
    rw [hsame.swap] at hb
    exact ⟨(h.target.size b' hb).1.trans hsame.client.1.symm,
      (h.target.size b' hb).2.trans hsame.client.2.symm⟩
  · intro b' hb'
    have hb : r'.rtv = some b' := hb'
    rw [hsame.rtv] at hb
    exact hsame.swap.trans (h.target.current b' hb)
  · dsimp only
    rw [hsame.screen]
    exact hupload
  · dsimp only
    rw [hsame.screen]
    refine ⟨⟨⟨hsame.client.1.trans hw.symm, hsame.client.2.trans hh.symm⟩, fun p hp => (hpicture p hp).1,
      fun p hp => ?_⟩, h.screen⟩
    dsimp only
    rw [hw, hh]
    exact (hpicture p hp).2

/-- **`Present`** keeps the invariant, and what it hands to the swap chain is right. -/
theorem inv_present (h : Inv F r) (frame : Option DecodedFrame)
    (hframe : ∀ f ∈ frame, Whole f ∧ F f ∧ ∀ m ∈ o.mapped, Fits m f) :
    Inv F (r.present frame o) := by
  have hbackground : ∀ b, r.rtv = some b →
      Inv F { r with screen := ⟨b, r.clientW, r.clientH, none⟩ :: r.screen } := fun b hrtv =>
    inv_push h ⟨⟨rfl, rfl⟩, rfl, rfl, rfl, rfl⟩ h.bound hrtv (fun p hp => by cases hp)
      fun t ht => holds_background rfl (h.upload t ht)
  unfold Renderer.present
  split
  case h_2 => exact h
  case h_1 back target _ hrtv =>
    cases frame with
    | none => exact hbackground target hrtv
    | some f =>
      obtain ⟨hf, hF, hmap⟩ := hframe f rfl
      dsimp only
      split
      case isTrue =>
        obtain ⟨hsame, hbound, hdrawn, hupload⟩ := presentFrame_spec h hf hF hmap
        refine inv_push h hsame hbound hrtv (fun p hp => ⟨(hdrawn p hp).faithful, ?_⟩) ?_
        · rw [(hdrawn p hp).constants, (hdrawn p hp).frame]
        · intro t ht
          obtain ⟨p, hp, htexture⟩ := hupload t ht
          rw [htexture]
          exact holds_picture hp (hdrawn p hp).faithful
      case isFalse => exact hbackground target hrtv

/-! ## Runs -/

/-- The frames that are presented come from the decoder, and Direct3D maps enough memory for them. -/
def Admits (xs : List Submission) (_ : Renderer) : Label → Prop
  | .present (some f) o => f ∈ (Video.DecoderDiscipline.run Video.Decoder.initial xs).frames ∧ ∀ m ∈ o.mapped, Fits m f
  | _ => True

theorem inv_initial : Inv F Present.initial where
  bound := .inr ⟨rfl, rfl⟩
  target := ⟨fun _ => by rintro ⟨⟩, fun _ => by rintro ⟨⟩⟩
  upload _ := by rintro ⟨⟩
  screen := trivial
  fault := rfl

/-- **What is on the screen**, after any calls and whatever Direct3D answers: no copy has left its
buffers, and everything presented fills the back buffer it was drawn to, with the crop and the letterbox
of the frame that was passed.  It shows that frame of the decoder if it could be uploaded, and else the
one that was uploaded last, or a texture to which nothing was uploaded. -/
theorem present_shows (xs : List Submission)
    (h : Reaches Present.step (Admits xs) Present.initial r) :
    r.fault = false ∧
      AllRight (· ∈ (Video.DecoderDiscipline.run Video.Decoder.initial xs).frames) r.screen := by
  have hinv : Inv (· ∈ (Video.DecoderDiscipline.run Video.Decoder.initial xs).frames) r := by
    refine h.invariant inv_initial ?_
    intro s l s' hs hok hstep
    cases l with
    | init w hh o =>
      obtain ⟨hswap, rfl⟩ := when_eq_some.1 hstep
      exact inv_init hs hswap w hh o
    | resize w hh o =>
      obtain rfl := Option.some.inj hstep
      exact inv_resize hs w hh o
    | present frame o =>
      obtain rfl := Option.some.inj hstep
      refine inv_present hs frame ?_
      rintro f rfl
      exact ⟨whole_of_run xs hok.1, hok.1, hok.2⟩
  exact ⟨hinv.fault, hinv.screen⟩

/-- One keyframe, which the transform decodes at once. -/
def onePicture : List Submission :=
  [⟨unit 1 true,
    { answering .accepted with
      feed := { (answering .accepted).feed with
        drain := ⟨[.frame ⟨true, some (2, 2), some [1, 2, 3, 4, 5, 6]⟩], .needMoreInput⟩ } }, 600⟩]

/-- The frame of `onePicture`. -/
def picture : DecodedFrame := ⟨[1, 2, 3, 4, 5, 6], 2, 2, 0, 0, -1, 0⟩

/-- A window that is resized between two presentations of the frame; the rows of the texture are
four bytes apart. -/
def showTwice : List Label :=
  let o : PresentOutcome := ⟨true, true, true, some ⟨4, List.replicate 12 0⟩⟩
  [.init 640 480 ⟨true, ⟨true, true⟩⟩, .present (some picture) o,
    .resize 800 600 ⟨true, ⟨true, true⟩⟩, .present (some picture) { o with mapped := none }]

theorem present_shows_twice : ∃ r, exec Present.step Present.initial showTwice = some r ∧
    r.screen.length = 2 ∧ r.fault = false ∧
    AllRight (· ∈ (Video.DecoderDiscipline.run Video.Decoder.initial onePicture).frames) r.screen := by
  obtain ⟨r, hr⟩ := Option.isSome_iff_exists.1
    (show (exec Present.step Present.initial showTwice).isSome by decide)
  have hlength : (exec Present.step Present.initial showTwice).map (·.screen.length) = some 2 := by
    decide
  rw [hr] at hlength
  have hframe : picture ∈ (Video.DecoderDiscipline.run Video.Decoder.initial onePicture).frames :=
    List.mem_singleton_self picture
  have hmeets : Meets Present.step (Admits onePicture) Present.initial showTwice := by
    refine ⟨trivial, fun _ _ => ⟨⟨hframe, ?_⟩, fun _ _ => ⟨trivial, fun _ _ =>
      ⟨⟨hframe, fun _ hm => by cases hm⟩, fun _ _ => trivial⟩⟩⟩⟩
    intro m hm
    obtain rfl := Option.some.inj hm
    decide
  exact ⟨r, hr, Option.some.inj hlength, present_shows onePicture (reaches_of_exec showTwice hmeets hr)⟩

end OpenDisplay.Render.PresentRuns
