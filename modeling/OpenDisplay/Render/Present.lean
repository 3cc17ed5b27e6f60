import OpenDisplay.Lib.Rows
import OpenDisplay.Lib.Transition
import OpenDisplay.Render.Letterbox
import OpenDisplay.Video.Decoder

/-!
# The renderer

`Renderer` presents the decoded frames in the window.  Direct3D is the environment: the results of its
calls are part of the labels, and so is the memory that `Map` hands out, whose old contents are
undefined.  Back buffers and textures are numbered in the order of their creation; a view names the
object it was made on.

`screen` lists, newest first, what `Present` handed to the swap chain: the render target, the viewport
and, if anything was drawn, the textures that the pixel shader read at that moment.  `fault` is set by
a copy that leaves the frame or the mapped memory.  Both are ghosts.
-/

namespace OpenDisplay.Render.Present

open OpenDisplay.Lib.Rounding OpenDisplay.Lib.Rows OpenDisplay.Lib.Transition
open OpenDisplay.Render.Letterbox OpenDisplay.Video.Decoder

/-! ## Direct3D -/

/-- `D3D11_MAPPED_SUBRESOURCE` of an NV12 texture: the luma rows, then the chroma rows. -/
structure Mapping where
  rowPitch : ℕ
  data : List UInt8

structure Texture where
  width : ℤ
  height : ℤ
  /-- The memory of the last `Unmap`, none before the first. -/
  contents : Option Mapping

inductive Plane
  | luma
  | chroma
  deriving DecidableEq

/-- A shader resource view. -/
structure View where
  texture : ℕ
  plane : Plane

/-- A buffer of the swap chain. -/
structure BackBuffer where
  number : ℕ
  width : ℤ
  height : ℤ
  deriving DecidableEq

/-- `GetBuffer` and `CreateRenderTargetView`. -/
structure TargetOutcome where
  gotBuffer : Bool
  viewCreated : Bool

/-- The calls of `Init` before the last ones of `CreateSwapChain`. -/
structure InitOutcome where
  swapCreated : Bool
  target : TargetOutcome

structure ResizeOutcome where
  resized : Bool
  target : TargetOutcome

/-- The calls of `Present`; `mapped` is none if `Map` fails. -/
structure PresentOutcome where
  textureCreated : Bool
  lumaViewCreated : Bool
  chromaViewCreated : Bool
  mapped : Option Mapping

/-! ## The state -/

/-- The constant buffer of the shaders. -/
structure PerFrame where
  winRect : Box
  texRect : Box
  windowW : ℚ
  windowH : ℚ

/-- A picture that was drawn: the frame, the textures behind the two views and the constants. -/
structure Picture where
  frame : DecodedFrame
  luma : Texture × Plane
  chroma : Texture × Plane
  constants : PerFrame
  /-- `Map` succeeded for this picture. -/
  uploaded : Bool

/-- What was handed to the swap chain. -/
structure Presented where
  target : BackBuffer
  viewportW : ℤ
  viewportH : ℤ
  picture : Option Picture

structure Renderer where
  clientW : ℤ
  clientH : ℤ
  /-- The current back buffer, if there is a swap chain. -/
  swap : Option BackBuffer
  rtv : Option BackBuffer
  textures : ℕ → Texture
  nextTexture : ℕ
  uploadTex : Option ℕ
  uploadW : ℤ
  uploadH : ℤ
  srvY : Option View
  srvUV : Option View
  lastVideoW : ℤ
  lastVideoH : ℤ
  screen : List Presented
  fault : Bool

def initial : Renderer where
  clientW := 0
  clientH := 0
  swap := none
  rtv := none
  textures := fun _ => ⟨0, 0, none⟩
  nextTexture := 0
  uploadTex := none
  uploadW := 0
  uploadH := 0
  srvY := none
  srvUV := none
  lastVideoW := 0
  lastVideoH := 0
  screen := []
  fault := false

/-! ## Copies and constants -/

/-- The two loops of `UploadNv12`; none if a `memcpy` leaves its buffers. -/
def copyNv12 (nv12 : List UInt8) (w h : ℕ) (m : Mapping) : Option Mapping :=
  (copyRows nv12 0 w m.rowPitch 0 h m.data).bind fun data =>
    (copyRows nv12 (w * h) w m.rowPitch (m.rowPitch * h) (h / 2) data).map fun data =>
      { m with data }

/-- The visible part of a frame, on one side. -/
def visible (size crop : ℤ) : ℤ := max 1 (size - crop)

/-- One direction of `TexRect`: the extent of the crop in the texture.  `cropLeft` and `cropTop`
stay 0. -/
def texExtent (size crop : ℤ) : ℚ :=
  rounded32 (rounded (max 1 (size - max 0 (min crop size)) / size))

/-- The constants for a frame. -/
def perFrame (clientW clientH : ℤ) (frame : DecodedFrame) : PerFrame :=
  let box := letterbox clientW clientH (visible frame.width frame.cropRight)
    (visible frame.height frame.cropBottom)
  { winRect := ⟨rounded32 box.x, rounded32 box.y, rounded32 box.w, rounded32 box.h⟩
    texRect := ⟨0, 0, texExtent frame.width frame.cropRight,
      texExtent frame.height frame.cropBottom⟩
    windowW := rounded32 clientW
    windowH := rounded32 clientH }

/-- The frame has pixels. -/
def HasPixels (frame : DecodedFrame) : Prop :=
  frame.nv12 ≠ [] ∧ 0 < frame.width ∧ 0 < frame.height

instance (frame : DecodedFrame) : Decidable (HasPixels frame) := by
  unfold HasPixels
  infer_instance

/-! ## The renderer -/

namespace Renderer

variable (r : Renderer)

/-! ### The render target -/

/-- `CreateRenderTarget`, on the current back buffer. -/
def createRenderTarget (o : TargetOutcome) : Renderer :=
  if o.gotBuffer then { r with rtv := if o.viewCreated then r.swap else none } else r

/-- `Init` with `CreateSwapChain`. -/
def init (w h : ℤ) (o : InitOutcome) : Renderer :=
  let r := { r with clientW := w, clientH := h, rtv := none }
  if o.swapCreated then { r with swap := some ⟨0, w, h⟩ }.createRenderTarget o.target else r

/-- `Resize`. -/
def resize (w h : ℤ) (o : ResizeOutcome) : Renderer :=
  if w ≤ 0 ∨ h ≤ 0 then r
  else
    match r.swap with
    | none => r
    | some back =>
      if w = r.clientW ∧ h = r.clientH ∧ r.rtv.isSome then r
      else
        let r := { r with rtv := none }
        if o.resized then
          { r with
            swap := some ⟨back.number + 1, w, h⟩
            clientW := w
            clientH := h }.createRenderTarget o.target
        else r.createRenderTarget o.target

/-! ### The upload -/

/-- `EnsureUploadTexture`. -/
def ensureUploadTexture (w h : ℤ) (o : PresentOutcome) : Renderer × Bool :=
  if r.uploadTex.isSome ∧ r.uploadW = w ∧ r.uploadH = h then (r, true)
  else
    let r := { r with srvY := none, srvUV := none, uploadTex := none }
    if o.textureCreated then
      let t := r.nextTexture
      let r := { r with
        textures := Function.update r.textures t ⟨w, h, none⟩
        nextTexture := t + 1
        uploadTex := some t
        uploadW := w
        uploadH := h }
      if o.lumaViewCreated then
        let r := { r with srvY := some ⟨t, .luma⟩ }
        if o.chromaViewCreated then ({ r with srvUV := some ⟨t, .chroma⟩ }, true)
        else ({ r with uploadTex := none, uploadW := 0, uploadH := 0 }, false)
      else ({ r with uploadTex := none, uploadW := 0, uploadH := 0 }, false)
    else (r, false)

/-- `UploadNv12`. -/
def uploadNv12 (frame : DecodedFrame) (mapped : Option Mapping) : Renderer :=
  match r.uploadTex, mapped with
  | some t, some m =>
    match copyNv12 frame.nv12 frame.width.toNat frame.height.toNat m with
    | some m =>
      { r with textures := Function.update r.textures t { r.textures t with contents := some m } }
    | none => { r with fault := true }
  | _, _ => r

/-! ### The picture -/

/-- The calls of the pipeline up to `Draw`. -/
def draw (frame : DecodedFrame) (uploaded : Bool) : Option Picture :=
  match r.srvY, r.srvUV with
  | some y, some uv =>
    some
      { frame
        luma := (r.textures y.texture, y.plane)
        chroma := (r.textures uv.texture, uv.plane)
        constants := perFrame r.clientW r.clientH frame
        uploaded }
  | _, _ => none

/-- The part of `Present` that is for a frame with pixels. -/
def presentFrame (frame : DecodedFrame) (o : PresentOutcome) : Renderer × Option Picture :=
  let r := { r with
    lastVideoW := visible frame.width frame.cropRight
    lastVideoH := visible frame.height frame.cropBottom }
  let (r, up) := r.ensureUploadTexture frame.width frame.height o
  let r := if up then r.uploadNv12 frame o.mapped else r
  (r, r.draw frame (up && o.mapped.isSome))

/-- `Present`. -/
def present (frame : Option DecodedFrame) (o : PresentOutcome) : Renderer :=
  match r.swap, r.rtv with
  | some _, some target =>
    let (r, picture) :=
      match frame with
      | some f => if HasPixels f then r.presentFrame f o else (r, none)
      | none => (r, none)
    { r with screen := ⟨target, r.clientW, r.clientH, picture⟩ :: r.screen }
  | _, _ => r

/-- `VideoRect`. -/
def videoRect : Option App.TouchCoordinates.Rect :=
  Letterbox.videoRect r.clientW r.clientH r.lastVideoW r.lastVideoH

end Renderer

/-! ## Runs -/

inductive Label
  | init (w h : ℤ) (o : InitOutcome)
  | resize (w h : ℤ) (o : ResizeOutcome)
  | present (frame : Option DecodedFrame) (o : PresentOutcome)

/-- `Setup` calls `Init` once. -/
def step (r : Renderer) : Label → Option Renderer
  | .init w h o => when (r.swap = none) (r.init w h o)
  | .resize w h o => some (r.resize w h o)
  | .present frame o => some (r.present frame o)

end OpenDisplay.Render.Present
