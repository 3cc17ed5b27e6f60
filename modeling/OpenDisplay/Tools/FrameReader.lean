import OpenDisplay.Lib.Transition
import OpenDisplay.Protocol.FramingRoundTrip

/-!
# The frame reader of the simulator

`FrameReader` of `sim_sender.py` keeps the bytes behind the last frame in `buf`.  A call of
`poll_frame` first looks for a whole frame at the front, and only then reads from the socket, so each
byte that is received is appended when no whole frame is left.  A call that times out changes nothing.

`Follows` says that the reader has returned a part of the reference parse of the bytes received, and
that the rest of the parse is that of `buf`.
-/

namespace OpenDisplay.Tools.FrameReader

open OpenDisplay.Lib.Buffer OpenDisplay.Lib.Transition OpenDisplay.Protocol.Framing
open OpenDisplay.Protocol.FramingRoundTrip OpenDisplay.Protocol.FramingStream

/-! ## The reader -/

/-- `MAX_FRAME`. -/
def MAX_FRAME : ℕ := 16 * 1024 * 1024

/-- The most that one `recv` returns. -/
def recvSize : ℕ := 2 ^ 20

/-- What `poll_frame` raises. -/
inductive ConnectionError
  | corruptLength
  | peerClosed
  | bufferOverrun
  deriving DecidableEq

/-- What the front of the buffer is. -/
inductive Front
  | frame (payload rest : List UInt8)
  | corrupt
  | incomplete
  deriving DecidableEq

/-- The top of the loop of `poll_frame`. -/
def front (buf : List UInt8) : Front :=
  if 4 ≤ buf.length then
    let length := (readInt32BE buf).toNat
    if MAX_FRAME < length then .corrupt
    else if 4 + length ≤ buf.length then .frame (slice buf 4 length) (buf.drop (4 + length))
    else .incomplete
  else .incomplete

/-- `FrameReader`, with the frames that it has returned and the error that it has raised. -/
structure Reader where
  buf : List UInt8
  frames : List (List UInt8)
  error : Option ConnectionError

/-- `__init__`. -/
def Reader.init : Reader := ⟨[], [], none⟩

/-- `poll_frame` up to its `recv`: it returns a frame, or raises. -/
def Reader.poll (r : Reader) : Option Reader :=
  if r.error.isSome then none
  else
    match front r.buf with
    | .frame payload rest => some { r with buf := rest, frames := r.frames ++ [payload] }
    | .corrupt => some { r with error := some .corruptLength }
    | .incomplete => none

/-- Its `recv` returns a chunk, which is empty if the peer has closed. -/
def Reader.recv (r : Reader) (chunk : List UInt8) : Option Reader :=
  when (r.error = none ∧ front r.buf = .incomplete ∧ chunk.length ≤ recvSize)
    (if chunk = [] then { r with error := some .peerClosed }
    else if MAX_FRAME + 8 < (r.buf ++ chunk).length then
      { r with buf := r.buf ++ chunk, error := some .bufferOverrun }
    else { r with buf := r.buf ++ chunk })

/-! ## The front and the parse -/

variable {buf rest payload : List UInt8}

/-! The front is what the reference parse finds there. -/

theorem invalid_of_corrupt (h : front buf = .corrupt) : (parseStream buf).valid = false := by
  have hheader : kFrameHeaderSize = 4 := rfl
  have hmax : kMaxFrameSize = MAX_FRAME := rfl
  unfold front at h
  dsimp only at h
  split_ifs at h with hlen hbig hwhole
  rw [parseStream_oversize hlen hbig]

theorem parse_of_incomplete (h : front buf = .incomplete) : parseStream buf = ⟨[], true, buf⟩ := by
  have hheader : kFrameHeaderSize = 4 := rfl
  have hmax : kMaxFrameSize = MAX_FRAME := rfl
  unfold front at h
  dsimp only at h
  split_ifs at h with hlen hbig hwhole
  · exact parseStream_incomplete hlen (not_lt.1 hbig) (not_le.1 hwhole)
  · exact parseStream_short (not_le.1 hlen)

theorem parse_of_frame (h : front buf = .frame payload rest) :
    parseStream buf = { parseStream rest with frames := payload :: (parseStream rest).frames } := by
  have hheader : kFrameHeaderSize = 4 := rfl
  have hmax : kMaxFrameSize = MAX_FRAME := rfl
  unfold front at h
  dsimp only at h
  split_ifs at h with hlen hbig hwhole
  obtain ⟨rfl, rfl⟩ := Front.frame.inj h
  exact parseStream_frame (not_lt.1 hbig) hwhole

/-! ## The reader and the parse -/

/-- The reader has returned the first frames of the bytes `got`; the rest of their parse is still in
the buffer. -/
structure Follows (r : Reader) (got : List UInt8) : Prop where
  frames : (parseStream got).frames = r.frames ++ (parseStream r.buf).frames
  valid : (parseStream got).valid = (parseStream r.buf).valid
  rest : (parseStream got).rest = (parseStream r.buf).rest

variable {r r' : Reader} {got chunk : List UInt8}

theorem follows_init : Follows .init [] := ⟨rfl, rfl, rfl⟩

/-- **A frame is returned.** -/
theorem Follows.poll (h : Follows r got) (hvalid : (parseStream got).valid = true)
    (hs : r.poll = some r') : Follows r' got ∧ r'.error = r.error := by
  unfold Reader.poll at hs
  split at hs
  case isTrue => cases hs
  case isFalse herror =>
    cases hfront : front r.buf with
    | frame payload rest =>
      rw [hfront] at hs
      obtain rfl := Option.some.inj hs
      have hparse := parse_of_frame hfront
      refine ⟨⟨?_, ?_, ?_⟩, rfl⟩
      · rw [h.frames, hparse, List.append_assoc, List.singleton_append]
      · rw [h.valid, hparse]
      · rw [h.rest, hparse]
    | corrupt =>
      have hinvalid := invalid_of_corrupt hfront
      rw [← h.valid, hvalid] at hinvalid
      cases hinvalid
    | incomplete =>
      rw [hfront] at hs
      cases hs

/-- **A chunk is received**, on an unfinished frame of fewer than `bound` bytes. -/
theorem Follows.recv (h : Follows r got) (hbound : (parseStream got).rest.length ≤ 15 * 2 ^ 20)
    (hne : chunk ≠ []) (hs : r.recv chunk = some r') :
    Follows r' (got ++ chunk) ∧ r'.error = none := by
  simp only [Reader.recv, when_eq_some] at hs
  obtain ⟨⟨herror, hfront, hsize⟩, hr⟩ := hs
  have hbuf := parse_of_incomplete hfront
  have hrest : (parseStream got).rest = r.buf := by rw [h.rest, hbuf]
  have hframes : (parseStream got).frames = r.frames := by rw [h.frames, hbuf, List.append_nil]
  have hfits : ¬MAX_FRAME + 8 < (r.buf ++ chunk).length := by
    rw [hrest] at hbound
    rw [List.length_append]
    unfold MAX_FRAME
    unfold recvSize at hsize
    omega
  rw [if_neg hne, if_neg hfits] at hr
  obtain rfl := hr
  have happend := parseStream_append got chunk
  rw [hrest, hframes] at happend
  refine ⟨⟨?_, ?_, ?_⟩, herror⟩
  · rw [happend]
  · rw [happend]
  · rw [happend]

/-! ## Sent frames -/

theorem length_rest {bound : ℕ} : ∀ (ps : List (List UInt8)) (n : ℕ), (∀ p ∈ ps, p.length ≤ bound) →
    (((encodeAll ps).take n).drop (encodeAll (ps.take (completeIn ps n))).length).length ≤ 4 + bound
  | [], n, _ => by simp
  | p :: ps, n, hps => by
    have hp := hps p List.mem_cons_self
    have hlen := length_encodeFrame p
    have hheader : kFrameHeaderSize = 4 := rfl
    rw [completeIn]
    split_ifs with hle
    · have ih := length_rest ps (n - (kFrameHeaderSize + p.length)) fun q hq =>
        hps q (List.mem_cons_of_mem p hq)
      rw [List.take_succ_cons, encodeAll_cons, encodeAll_cons, List.length_append]
      rw [List.length_drop, List.length_take] at ih ⊢
      rw [List.length_append]
      omega
    · rw [List.take_zero, encodeAll_nil, List.length_nil, List.drop_zero, List.length_take]
      omega

theorem completeIn_lt : ∀ (ps : List (List UInt8)) (n : ℕ), n < (encodeAll ps).length →
    completeIn ps n < ps.length
  | [], n, h => by simp at h
  | p :: ps, n, h => by
    have hlen := length_encodeFrame p
    rw [encodeAll_cons, List.length_append] at h
    rw [completeIn, List.length_cons]
    split_ifs with hle
    · have ih := completeIn_lt ps (n - (kFrameHeaderSize + p.length)) (by omega)
      omega
    · omega

end OpenDisplay.Tools.FrameReader
