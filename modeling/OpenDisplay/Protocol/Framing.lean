import OpenDisplay.Lib.Buffer
import Mathlib.Data.Nat.Bitwise
import Mathlib.Tactic.NormNum

/-! # Wire framing: the encoder and the decoder

Every message is `[4-byte big-endian length][payload]`. `FrameDecoder` accumulates the bytes read off
the wire in `buffer`; `size` of them are valid and `cursor` of those are consumed. `feed` grows the
buffer, appends, extracts the complete frames (`extract`), moves the unconsumed bytes to the front
(`compact`) and returns one span per frame.

The spans are kept as the code builds them: with the offsets `extract` found *before* the move. What
a span shows is `FeedResult.contents`, read from the buffer *after* it.

The bounds `cursor ≤ size ≤ buffer.length` are fields of the decoder: every copy of `feed` stays
inside the buffer. -/

namespace OpenDisplay.Protocol.Framing

open OpenDisplay.Lib.Buffer

/-- `kFrameHeaderSize`. -/
def kFrameHeaderSize : ℕ := 4

/-- `kMaxFrameSize`: the cap on the declared length of a received frame. -/
def kMaxFrameSize : ℕ := 16 * 1024 * 1024

/-- `ReadInt32BE`: the first four bytes, big-endian. -/
def readInt32BE (p : List UInt8) : UInt32 :=
  ((p.getD 0 0).toUInt32 <<< 24) ||| ((p.getD 1 0).toUInt32 <<< 16) |||
    ((p.getD 2 0).toUInt32 <<< 8) ||| (p.getD 3 0).toUInt32

/-- `WriteInt32BE`. -/
def writeInt32BE (v : UInt32) : List UInt8 :=
  [(v >>> 24).toUInt8, (v >>> 16).toUInt8, (v >>> 8).toUInt8, v.toUInt8]

/-- `EncodeFrame`: the payload behind its length, which is narrowed to 32 bits. -/
def encodeFrame (payload : List UInt8) : List UInt8 :=
  writeInt32BE (UInt32.ofNat payload.length) ++ payload

/-! ### The length prefix -/

theorem mul_two_pow_or (hi lo k : ℕ) (h : lo < 2 ^ k) : hi * 2 ^ k ||| lo = hi * 2 ^ k + lo := by
  rw [← Nat.shiftLeft_eq, Nat.shiftLeft_add_eq_or_of_lt h]

theorem toNat_readInt32BE (a b c d : UInt8) (rest : List UInt8) :
    (readInt32BE (a :: b :: c :: d :: rest)).toNat =
      a.toNat * 2 ^ 24 + b.toNat * 2 ^ 16 + c.toNat * 2 ^ 8 + d.toNat := by
  have ha := a.toNat_lt
  have hb := b.toNat_lt
  have hc := c.toNat_lt
  have hd := d.toNat_lt
  have s24 : a.toNat <<< 24 % 2 ^ 32 = a.toNat * 2 ^ 24 := by rw [Nat.shiftLeft_eq]; omega
  have s16 : b.toNat <<< 16 % 2 ^ 32 = b.toNat * 2 ^ 16 := by rw [Nat.shiftLeft_eq]; omega
  have s8 : c.toNat <<< 8 % 2 ^ 32 = c.toNat * 2 ^ 8 := by rw [Nat.shiftLeft_eq]; omega
  have e1 := mul_two_pow_or a.toNat (b.toNat * 2 ^ 16) 24 (by omega)
  have e2 := mul_two_pow_or (a.toNat * 2 ^ 8 + b.toNat) (c.toNat * 2 ^ 8) 16 (by omega)
  have e3 := mul_two_pow_or (a.toNat * 2 ^ 16 + b.toNat * 2 ^ 8 + c.toNat) d.toNat 8 (by omega)
  rw [show (a.toNat * 2 ^ 8 + b.toNat) * 2 ^ 16 = a.toNat * 2 ^ 24 + b.toNat * 2 ^ 16 by ring] at e2
  rw [show (a.toNat * 2 ^ 16 + b.toNat * 2 ^ 8 + c.toNat) * 2 ^ 8 =
    a.toNat * 2 ^ 24 + b.toNat * 2 ^ 16 + c.toNat * 2 ^ 8 by ring] at e3
  rw [← e3, ← e2, ← e1, ← s24, ← s16, ← s8]
  rfl

theorem readInt32BE_writeInt32BE (v : UInt32) (rest : List UInt8) :
    readInt32BE (writeInt32BE v ++ rest) = v := by
  have hv := v.toNat_lt
  have h24 : ((v >>> 24).toUInt8).toNat = v.toNat / 2 ^ 24 % 256 := by
    rw [UInt32.toNat_toUInt8, UInt32.toNat_shiftRight, Nat.shiftRight_eq_div_pow]; rfl
  have h16 : ((v >>> 16).toUInt8).toNat = v.toNat / 2 ^ 16 % 256 := by
    rw [UInt32.toNat_toUInt8, UInt32.toNat_shiftRight, Nat.shiftRight_eq_div_pow]; rfl
  have h8 : ((v >>> 8).toUInt8).toNat = v.toNat / 2 ^ 8 % 256 := by
    rw [UInt32.toNat_toUInt8, UInt32.toNat_shiftRight, Nat.shiftRight_eq_div_pow]; rfl
  have h0 : (v.toUInt8).toNat = v.toNat % 256 := UInt32.toNat_toUInt8 v
  refine UInt32.toNat_inj.mp ?_
  simp only [writeInt32BE, List.cons_append, List.nil_append]
  rw [toNat_readInt32BE, h24, h16, h8, h0]
  omega

theorem readInt32BE_append {l : List UInt8} (h : kFrameHeaderSize ≤ l.length) (l' : List UInt8) :
    readInt32BE (l ++ l') = readInt32BE l := by
  match l, h with
  | a :: b :: c :: d :: l, _ => rfl

theorem length_encodeFrame (p : List UInt8) :
    (encodeFrame p).length = kFrameHeaderSize + p.length := by
  simp only [encodeFrame, List.length_append]; rfl

/-- The prefix of an encoded frame is its length, as long as the length fits 32 bits. -/
theorem readInt32BE_encodeFrame {p : List UInt8} (h : p.length ≤ kMaxFrameSize)
    (rest : List UInt8) : (readInt32BE (encodeFrame p ++ rest)).toNat = p.length := by
  unfold encodeFrame
  rw [List.append_assoc, readInt32BE_writeInt32BE, UInt32.toNat_ofNat']
  unfold kMaxFrameSize at h
  omega

theorem slice_encodeFrame (p rest : List UInt8) :
    slice (encodeFrame p ++ rest) kFrameHeaderSize p.length = p := by
  simp [slice, encodeFrame, writeInt32BE, kFrameHeaderSize]

/-! ## The decoder -/

/-- `FrameDecoder`: `size` valid bytes of `buffer`, the first `cursor` of them consumed. -/
structure FrameDecoder where
  buffer : List UInt8
  size : ℕ
  cursor : ℕ
  cursor_le : cursor ≤ size
  size_le : size ≤ buffer.length

/-- A span into the decoder's buffer. -/
structure Span where
  offset : ℕ
  length : ℕ
  deriving DecidableEq, Repr

/-- What the extraction loop leaves: the frames found, the new cursor, and whether every length
prefix it met was admissible. -/
structure Extracted where
  pending : List Span
  cursor : ℕ
  valid : Bool

/-- What one `Feed` returns, with the decoder it leaves behind. -/
structure FeedResult where
  decoder : FrameDecoder
  frames : List Span
  valid : Bool

/-- The loop of `Feed` that collects `(payload offset, length)` pairs. -/
def extract (buffer : List UInt8) (size cursor : ℕ) : Extracted :=
  if kFrameHeaderSize ≤ size - cursor then
    let frameLen := (readInt32BE (buffer.drop cursor)).toNat
    if kMaxFrameSize < frameLen then ⟨[], cursor, false⟩
    else
      let total := kFrameHeaderSize + frameLen
      if size - cursor < total then ⟨[], cursor, true⟩
      else
        let r := extract buffer size (cursor + total)
        { r with pending := ⟨cursor + kFrameHeaderSize, frameLen⟩ :: r.pending }
  else ⟨[], cursor, true⟩
termination_by size - cursor
decreasing_by unfold kFrameHeaderSize at *; omega

theorem extract_cursor_le {buffer : List UInt8} {size cursor : ℕ} (h : cursor ≤ size) :
    (extract buffer size cursor).cursor ≤ size := by
  fun_induction extract buffer size cursor with
  | case1 => exact h
  | case2 => exact h
  | case3 cursor _ _ _ total hfit r ih => exact ih (by omega)
  | case4 => exact h

namespace FrameDecoder

/-- A fresh decoder. -/
def fresh : FrameDecoder := ⟨[], 0, 0, le_rfl, le_rfl⟩

/-- `FrameDecoder::Reset`: the buffer keeps its stale bytes. -/
def reset (d : FrameDecoder) : FrameDecoder := ⟨d.buffer, 0, 0, le_rfl, Nat.zero_le _⟩

/-- `FrameDecoder::BufferedBytes`. -/
def bufferedBytes (d : FrameDecoder) : ℕ := d.size - d.cursor

/-- The retained bytes, `buffer_[cursor_, size_)`. -/
def retained (d : FrameDecoder) : List UInt8 := slice d.buffer d.cursor d.bufferedBytes

/-- The buffer with room for `len` more bytes: at least doubled when it has to grow. -/
def grow (d : FrameDecoder) (len : ℕ) : List UInt8 :=
  if d.buffer.length < d.size + len then
    resize d.buffer (max (d.buffer.length * 2) (d.size + len)) 0
  else d.buffer

theorem length_grow (d : FrameDecoder) (len : ℕ) :
    d.size + len ≤ (d.grow len).length ∧ d.buffer.length ≤ (d.grow len).length := by
  unfold grow
  split_ifs with h
  · rw [length_resize]; omega
  · omega

/-- The bytes of a `Feed` behind the valid ones. -/
def append (d : FrameDecoder) (data : List UInt8) : FrameDecoder where
  buffer := write (d.grow data.length) d.size data
  size := d.size + data.length
  cursor := d.cursor
  cursor_le := Nat.le_add_right_of_le d.cursor_le
  size_le := by
    have h := (d.length_grow data.length).1
    rwa [length_write h]

/-- The unconsumed bytes moved to the front of the buffer. -/
def compact (d : FrameDecoder) : FrameDecoder where
  buffer := write d.buffer 0 (slice d.buffer d.cursor (d.size - d.cursor))
  size := d.size - d.cursor
  cursor := 0
  cursor_le := Nat.zero_le _
  size_le := by
    have h1 := d.cursor_le
    have h2 := d.size_le
    have hlen : (slice d.buffer d.cursor (d.size - d.cursor)).length = d.size - d.cursor :=
      length_slice (by omega)
    rw [length_write (by omega)]
    omega

/-- `FrameDecoder::Feed`. -/
def feed (d : FrameDecoder) (data : List UInt8) : FeedResult :=
  if data.length = 0 then ⟨d, [], true⟩
  else
    let d₁ := d.append data
    let r := extract d₁.buffer d₁.size d₁.cursor
    let d₂ : FrameDecoder := { d₁ with
      cursor := r.cursor
      cursor_le := extract_cursor_le d₁.cursor_le }
    -- the offsets in `pending` are not adjusted to the move
    if r.pending = [] then ⟨d₂, [], r.valid⟩ else ⟨d₂.compact, r.pending, r.valid⟩

/-- The decoder after a list of chunks. -/
def after (d : FrameDecoder) : List (List UInt8) → FrameDecoder
  | [] => d
  | c :: cs => (d.feed c).decoder.after cs

theorem after_append : ∀ (cs cs' : List (List UInt8)) (d : FrameDecoder),
    d.after (cs ++ cs') = (d.after cs).after cs'
  | [], _, _ => rfl
  | c :: cs, cs', d => after_append cs cs' (d.feed c).decoder

/-- The results of feeding a list of chunks in order. -/
def feedAll (d : FrameDecoder) : List (List UInt8) → List FeedResult
  | [] => []
  | c :: cs => d.feed c :: (d.feed c).decoder.feedAll cs

/-- The decoders a program can hold. -/
inductive Reachable : FrameDecoder → Prop
  | fresh : Reachable fresh
  | feed {d : FrameDecoder} (h : Reachable d) (data : List UInt8) : Reachable (d.feed data).decoder
  | reset {d : FrameDecoder} (h : Reachable d) : Reachable d.reset

end FrameDecoder

namespace FeedResult

/-- The payload lengths reported by a `Feed`. -/
def lengths (r : FeedResult) : List ℕ := r.frames.map Span.length

/-- The bytes visible through the returned spans, read after the `Feed` returned. -/
def contents (r : FeedResult) : List (List UInt8) :=
  r.frames.map fun f => slice r.decoder.buffer f.offset f.length

end FeedResult

end OpenDisplay.Protocol.Framing
