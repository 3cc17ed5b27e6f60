import OpenDisplay.Protocol.Framing

/-! # Wire framing: the decoder against a one-shot parse of the stream

`parseStream` reads a whole byte string: a 4-byte length, a payload of that length, and so on, until
fewer bytes remain than the next frame needs, or a length exceeds the cap. It says what the framing
is for; it knows no buffer.

* `parseStream_append`: parsing `a ++ b` is parsing `a`, then parsing its rest followed by `b`.
* `extract_eq`: the extraction loop finds the spans of `parseStream` on the unconsumed bytes.
* `feed_spec`: one `Feed` parses the retained bytes followed by the new ones.
* `feed_segmentation`: over any run of `Feed`s the decoder has parsed all the bytes fed so far. -/

namespace OpenDisplay.Protocol.FramingStream

open OpenDisplay.Lib.Buffer OpenDisplay.Protocol.Framing

/-- The outcome of parsing a byte string: the payloads of its complete frames, whether no length
exceeded the cap, and the bytes from the first incomplete or inadmissible frame on. -/
structure Parse where
  frames : List (List UInt8)
  valid : Bool
  rest : List UInt8
  deriving DecidableEq

/-- The payload lengths. -/
def Parse.lengths (p : Parse) : List ℕ := p.frames.map List.length

/-- **The reference parse** of a byte string. -/
def parseStream (bytes : List UInt8) : Parse :=
  if bytes.length < kFrameHeaderSize then ⟨[], true, bytes⟩
  else
    let len := (readInt32BE bytes).toNat
    if kMaxFrameSize < len then ⟨[], false, bytes⟩
    else if bytes.length < kFrameHeaderSize + len then ⟨[], true, bytes⟩
    else
      let p := parseStream (bytes.drop (kFrameHeaderSize + len))
      { p with frames := slice bytes kFrameHeaderSize len :: p.frames }
termination_by bytes.length
decreasing_by unfold kFrameHeaderSize at *; rw [List.length_drop]; omega

/-! ### The four cases -/

theorem parseStream_short {bytes : List UInt8} (h : bytes.length < kFrameHeaderSize) :
    parseStream bytes = ⟨[], true, bytes⟩ := by
  rw [parseStream, if_pos h]

theorem parseStream_oversize {bytes : List UInt8} (h : kFrameHeaderSize ≤ bytes.length)
    (hbig : kMaxFrameSize < (readInt32BE bytes).toNat) :
    parseStream bytes = ⟨[], false, bytes⟩ := by
  rw [parseStream, if_neg (by omega)]
  exact if_pos hbig

theorem parseStream_incomplete {bytes : List UInt8} (h : kFrameHeaderSize ≤ bytes.length)
    (hok : (readInt32BE bytes).toNat ≤ kMaxFrameSize)
    (hlt : bytes.length < kFrameHeaderSize + (readInt32BE bytes).toNat) :
    parseStream bytes = ⟨[], true, bytes⟩ := by
  rw [parseStream, if_neg (by omega)]
  simp only [if_neg (show ¬ kMaxFrameSize < (readInt32BE bytes).toNat by omega), if_pos hlt]

theorem parseStream_frame {bytes : List UInt8}
    (hok : (readInt32BE bytes).toNat ≤ kMaxFrameSize)
    (hle : kFrameHeaderSize + (readInt32BE bytes).toNat ≤ bytes.length) :
    parseStream bytes =
      { parseStream (bytes.drop (kFrameHeaderSize + (readInt32BE bytes).toNat)) with
        frames := slice bytes kFrameHeaderSize (readInt32BE bytes).toNat ::
          (parseStream (bytes.drop (kFrameHeaderSize + (readInt32BE bytes).toNat))).frames } := by
  rw [parseStream, if_neg (by omega)]
  simp only [if_neg (show ¬ kMaxFrameSize < (readInt32BE bytes).toNat by omega),
    if_neg (show ¬ bytes.length < kFrameHeaderSize + (readInt32BE bytes).toNat by omega)]

theorem parseStream_encodeFrame {p : List UInt8} (h : p.length ≤ kMaxFrameSize)
    (rest : List UInt8) :
    parseStream (encodeFrame p ++ rest) =
      { parseStream rest with frames := p :: (parseStream rest).frames } := by
  have hr := readInt32BE_encodeFrame h rest
  have hd : (encodeFrame p ++ rest).drop (kFrameHeaderSize + p.length) = rest := by
    rw [← length_encodeFrame, List.drop_left]
  rw [parseStream_frame (by rw [hr]; exact h)
    (by rw [hr, List.length_append, length_encodeFrame]; omega), hr, hd, slice_encodeFrame]

/-! ### Parsing in pieces -/

/-- Parsing what a parse left behind: no further frame, the same verdict, the same rest. -/
theorem parseStream_rest (bytes : List UInt8) :
    parseStream (parseStream bytes).rest =
      ⟨[], (parseStream bytes).valid, (parseStream bytes).rest⟩ := by
  fun_induction parseStream bytes with
  | case1 bytes h => exact parseStream_short h
  | case2 bytes h len hbig =>
    show parseStream bytes = _
    exact parseStream_oversize (by omega) hbig
  | case3 bytes h len hok hlt =>
    show parseStream bytes = _
    exact parseStream_incomplete (by omega) (by omega) hlt
  | case4 bytes h len hok hle p ih => exact ih

/-- **Parsing in pieces**: `b` continues where the parse of `a` stopped. -/
theorem parseStream_append (a b : List UInt8) :
    parseStream (a ++ b) =
      { parseStream ((parseStream a).rest ++ b) with
        frames := (parseStream a).frames ++ (parseStream ((parseStream a).rest ++ b)).frames } := by
  fun_induction parseStream a with
  | case1 => rfl
  | case2 => rfl
  | case3 => rfl
  | case4 a h len hok hle p ih =>
    have hr : (readInt32BE (a ++ b)).toNat = len := by rw [readInt32BE_append (by omega)]
    have hd : (a ++ b).drop (kFrameHeaderSize + len) = a.drop (kFrameHeaderSize + len) ++ b :=
      List.drop_append_of_le_length (by omega)
    rw [parseStream_frame (by rw [hr]; omega) (by rw [hr, List.length_append]; omega), hr, hd, ih,
      slice_append_left b (by omega)]
    rfl

theorem parseStream_append_invalid {a : List UInt8} (h : (parseStream a).valid = false)
    (b : List UInt8) :
    (parseStream ((parseStream a).rest ++ b)).frames = [] ∧
      (parseStream ((parseStream a).rest ++ b)).valid = false := by
  fun_induction parseStream a with
  | case1 => simp at h
  | case2 a hl len hbig =>
    have hr : (readInt32BE (a ++ b)).toNat = len := by rw [readInt32BE_append (by omega)]
    show (parseStream (a ++ b)).frames = [] ∧ (parseStream (a ++ b)).valid = false
    rw [parseStream_oversize (by rw [List.length_append]; omega) (by rw [hr]; exact hbig)]
    exact ⟨rfl, rfl⟩
  | case3 => simp at h
  | case4 a hl len hok hle p ih => exact ih h

/-! ## The decoder -/

/-- The spans of consecutive frames, the first frame's prefix being at `off`. -/
def spansAt (off : ℕ) : List (List UInt8) → List Span
  | [] => []
  | p :: ps => ⟨off + kFrameHeaderSize, p.length⟩ ::
      spansAt (off + (kFrameHeaderSize + p.length)) ps

theorem spansAt_lengths : ∀ (ps : List (List UInt8)) (off : ℕ),
    (spansAt off ps).map Span.length = ps.map List.length
  | [], _ => rfl
  | p :: ps, off => by simp [spansAt, spansAt_lengths ps]

theorem spansAt_eq_nil {ps : List (List UInt8)} {off : ℕ} : spansAt off ps = [] ↔ ps = [] := by
  cases ps <;> simp [spansAt]

/-- **The extraction loop** finds the spans of the parse of the unconsumed bytes, and its cursor
stops where that parse stops. -/
theorem extract_eq {buffer : List UInt8} {size cursor : ℕ} (hc : cursor ≤ size)
    (hs : size ≤ buffer.length) :
    let p := parseStream (slice buffer cursor (size - cursor))
    let r := extract buffer size cursor
    r.pending = spansAt cursor p.frames ∧ r.valid = p.valid ∧ cursor ≤ r.cursor ∧
      slice buffer r.cursor (size - r.cursor) = p.rest := by
  have read_eq : ∀ c, kFrameHeaderSize ≤ size - c →
      readInt32BE (slice buffer c (size - c)) = readInt32BE (buffer.drop c) := fun c h => by
    have hl : (slice buffer c (size - c)).length = size - c := by
      unfold kFrameHeaderSize at h
      exact length_slice (by omega)
    rw [← List.take_append_drop (size - c) (buffer.drop c)]
    exact (readInt32BE_append (by rw [← hl] at h; exact h) _).symm
  fun_induction extract buffer size cursor with
  | case1 c h len hbig =>
    have hl : (slice buffer c (size - c)).length = size - c := length_slice (by omega)
    rw [parseStream_oversize (by omega) (by rw [read_eq c h]; exact hbig)]
    exact ⟨rfl, rfl, le_rfl, rfl⟩
  | case2 c h len hok total hlt =>
    have hl : (slice buffer c (size - c)).length = size - c := length_slice (by omega)
    have hlen : (readInt32BE (slice buffer c (size - c))).toNat = len := by rw [read_eq c h]
    rw [parseStream_incomplete (by omega) (by omega) (by omega)]
    exact ⟨rfl, rfl, le_rfl, rfl⟩
  | case3 c h len hok total hfit r ih =>
    have hl : (slice buffer c (size - c)).length = size - c := length_slice (by omega)
    have hlen : (readInt32BE (slice buffer c (size - c))).toNat = len := by rw [read_eq c h]
    obtain ⟨h1, h2, h3, h4⟩ := ih (by omega)
    have hd : (slice buffer c (size - c)).drop (kFrameHeaderSize + len) =
        slice buffer (c + total) (size - (c + total)) := by
      rw [drop_slice]; congr 1; omega
    have hp : (slice (slice buffer c (size - c)) kFrameHeaderSize len).length = len := by
      rw [slice_slice _ (by omega), length_slice (by omega)]
    have hle : c ≤ r.cursor := (Nat.le_add_right c total).trans h3
    rw [parseStream_frame (by omega) (by omega), hlen, hd]
    refine ⟨?_, h2, hle, h4⟩
    simp only [spansAt, hp]
    exact congrArg _ h1
  | case4 c h =>
    have hl : (slice buffer c (size - c)).length = size - c := length_slice (by omega)
    rw [parseStream_short (by omega)]
    exact ⟨rfl, rfl, le_rfl, rfl⟩

theorem retained_append (d : FrameDecoder) (data : List UInt8) :
    (d.append data).retained = d.retained ++ data := by
  have h := d.length_grow data.length
  have hc := d.cursor_le
  have hs := d.size_le
  have hg : slice (d.grow data.length) d.cursor (d.size - d.cursor) =
      slice d.buffer d.cursor (d.size - d.cursor) := by
    unfold FrameDecoder.grow
    split_ifs with hlt
    · exact slice_resize 0 (by omega) (by omega)
    · rfl
  have hroom : d.size ≤ (d.grow data.length).length := by omega
  have hw : slice (write (d.grow data.length) d.size data) d.cursor
      (d.size - d.cursor + data.length) =
        slice (d.grow data.length) d.cursor (d.size - d.cursor) ++ data :=
    slice_write_append hc hroom
  simp only [FrameDecoder.retained, FrameDecoder.bufferedBytes, FrameDecoder.append]
  rw [show d.size + data.length - d.cursor = d.size - d.cursor + data.length by omega, hw, hg]

theorem retained_compact (d : FrameDecoder) : d.compact.retained = d.retained := by
  have hc := d.cursor_le
  have hs := d.size_le
  have hl : (slice d.buffer d.cursor (d.size - d.cursor)).length = d.size - d.cursor :=
    length_slice (by omega)
  have hw : slice d.compact.buffer 0 (slice d.buffer d.cursor (d.size - d.cursor)).length =
      slice d.buffer d.cursor (d.size - d.cursor) := slice_write_self (Nat.zero_le d.buffer.length)
  rw [hl] at hw
  exact hw

/-- **One `Feed`** parses the retained bytes followed by the new ones: it returns the spans of the
complete frames, their verdict, and retains the rest. -/
theorem feed_spec (d : FrameDecoder) {data : List UInt8} (hne : data ≠ []) :
    let p := parseStream (d.retained ++ data)
    let r := d.feed data
    r.frames = spansAt d.cursor p.frames ∧ r.valid = p.valid ∧ r.decoder.retained = p.rest := by
  have hlen : ¬ data.length = 0 := fun h => hne (List.eq_nil_of_length_eq_zero h)
  obtain ⟨h1, h2, -, h4⟩ := extract_eq (d.append data).cursor_le (d.append data).size_le
  have hret : slice (d.append data).buffer (d.append data).cursor
      ((d.append data).size - (d.append data).cursor) = d.retained ++ data := retained_append d data
  rw [hret] at h1 h2 h4
  unfold FrameDecoder.feed
  rw [if_neg hlen]
  by_cases hp : (extract (d.append data).buffer (d.append data).size
      (d.append data).cursor).pending = []
  · simp only [if_pos hp]
    exact ⟨hp.symm.trans h1, h2, h4⟩
  · simp only [if_neg hp]
    exact ⟨h1, h2, (retained_compact _).trans h4⟩

theorem feed_lengths (d : FrameDecoder) {data : List UInt8} (hne : data ≠ []) :
    (d.feed data).lengths = (parseStream (d.retained ++ data)).lengths := by
  unfold FeedResult.lengths Parse.lengths
  rw [(feed_spec d hne).1, spansAt_lengths]

/-! ### Runs of `Feed`s -/

theorem extract_cursor_of_nil {buffer : List UInt8} {size cursor : ℕ}
    (h : (extract buffer size cursor).pending = []) :
    (extract buffer size cursor).cursor = cursor := by
  unfold extract at h ⊢
  dsimp only at h ⊢
  split_ifs at h ⊢
  all_goals rfl

/-- Between two calls nothing is consumed but not compacted. -/
theorem cursor_feed {d : FrameDecoder} (h : d.cursor = 0) (data : List UInt8) :
    (d.feed data).decoder.cursor = 0 := by
  unfold FrameDecoder.feed
  split_ifs with h0
  · exact h
  · by_cases hp : (extract (d.append data).buffer (d.append data).size
        (d.append data).cursor).pending = []
    · simp only [if_pos hp]
      exact (extract_cursor_of_nil hp).trans h
    · simp only [if_neg hp]
      rfl

/-- The retained bytes after a run, from a decoder that holds no complete frame. -/
theorem after_retained : ∀ (cs : List (List UInt8)) (d : FrameDecoder), (∀ c ∈ cs, c ≠ []) →
    (parseStream d.retained).rest = d.retained →
      (d.after cs).retained = (parseStream (d.retained ++ cs.flatten)).rest
  | [], d, _, hd => by simp [FrameDecoder.after, hd]
  | c :: cs, d, hne, hd => by
    obtain ⟨-, -, h3⟩ := feed_spec d (hne c (by simp))
    have hrest : (parseStream (d.feed c).decoder.retained).rest = (d.feed c).decoder.retained := by
      rw [h3, parseStream_rest]
    have ih := after_retained cs (d.feed c).decoder (fun x hx => hne x (by simp [hx])) hrest
    rw [FrameDecoder.after, ih, h3, List.flatten_cons, ← List.append_assoc,
      parseStream_append (d.retained ++ c) cs.flatten]

theorem feedAll_lengths : ∀ (cs : List (List UInt8)) (d : FrameDecoder), (∀ c ∈ cs, c ≠ []) →
    parseStream d.retained = ⟨[], (parseStream d.retained).valid, d.retained⟩ →
      (d.feedAll cs).flatMap FeedResult.lengths = (parseStream (d.retained ++ cs.flatten)).lengths
  | [], d, _, hd => by
    rw [FrameDecoder.feedAll, List.flatMap_nil, List.flatten_nil, List.append_nil, hd]; rfl
  | c :: cs, d, hne, hd => by
    obtain ⟨-, -, h3⟩ := feed_spec d (hne c (by simp))
    have hrest : parseStream (d.feed c).decoder.retained =
        ⟨[], (parseStream (d.feed c).decoder.retained).valid, (d.feed c).decoder.retained⟩ := by
      rw [h3]; conv_lhs => rw [parseStream_rest]
      rw [parseStream_rest]
    have ih := feedAll_lengths cs (d.feed c).decoder (fun x hx => hne x (by simp [hx])) hrest
    rw [FrameDecoder.feedAll, List.flatMap_cons, ih, feed_lengths d (hne c (by simp)), h3,
      List.flatten_cons, ← List.append_assoc, parseStream_append (d.retained ++ c) cs.flatten]
    simp [Parse.lengths]

theorem feed_after_invalid {d : FrameDecoder} {data : List UInt8} (hne : data ≠ [])
    (h : (d.feed data).valid = false) (cs : List (List UInt8)) (c : List UInt8)
    (hcs : ∀ x ∈ cs ++ [c], x ≠ []) :
    (((d.feed data).decoder.after cs).feed c).valid = false ∧
      (((d.feed data).decoder.after cs).feed c).frames = [] := by
  obtain ⟨-, h2, h3⟩ := feed_spec d hne
  have hc : c ≠ [] := hcs c (by simp)
  have hrest : (parseStream (d.feed data).decoder.retained).rest =
      (d.feed data).decoder.retained := by rw [h3, parseStream_rest]
  have hret := after_retained cs (d.feed data).decoder (fun x hx => hcs x (by simp [hx])) hrest
  -- all that was read since the bad prefix is still unparsed behind it
  have hinv : (parseStream (d.retained ++ data)).valid = false := by rw [← h2, h]
  have hbad := parseStream_append_invalid hinv cs.flatten
  rw [← h3] at hbad
  obtain ⟨hf, hv, -⟩ := feed_spec ((d.feed data).decoder.after cs) hc
  have hall := parseStream_append_invalid hbad.2 c
  rw [← hret] at hall
  rw [hf, hv, hall.1, hall.2]
  exact ⟨rfl, rfl⟩

/-- **Segmentation independence.**  From a fresh or a reset decoder, for every byte string and every
split of it into non-empty chunks: after each `Feed` the payload lengths returned so far, its verdict
and the retained bytes are those of the reference parse of all the bytes fed so far; and once a
`Feed` has reported an inadmissible length, every later one does and returns no frame. -/
theorem feed_segmentation {d : FrameDecoder}
    (hd : d = FrameDecoder.fresh ∨ ∃ d₀, FrameDecoder.Reachable d₀ ∧ d = d₀.reset)
    (cs : List (List UInt8)) (c : List UInt8) (hne : ∀ x ∈ cs ++ [c], x ≠ []) :
    let p := parseStream (cs ++ [c]).flatten
    let r := (d.after cs).feed c
    ((d.feedAll (cs ++ [c])).flatMap FeedResult.lengths = p.lengths ∧ r.valid = p.valid ∧
      r.decoder.retained = p.rest) ∧
    (r.valid = false → ∀ (more : List (List UInt8)) (c' : List UInt8),
      (∀ x ∈ more ++ [c'], x ≠ []) →
        ((r.decoder.after more).feed c').valid = false ∧
          ((r.decoder.after more).feed c').frames = []) := by
  have hnil : d.retained = [] := by
    rcases hd with rfl | ⟨d₀, -, rfl⟩ <;> exact slice_zero _ _
  have hempty : parseStream d.retained = ⟨[], (parseStream d.retained).valid, d.retained⟩ := by
    rw [hnil, parseStream_short (by decide)]
  have hc : c ≠ [] := hne c (by simp)
  have hret := after_retained cs d (fun x hx => hne x (by simp [hx])) (by rw [hempty])
  have hlen := feedAll_lengths (cs ++ [c]) d hne hempty
  obtain ⟨-, hv, hr⟩ := feed_spec (d.after cs) hc
  have happ := parseStream_append cs.flatten c
  rw [hnil, List.nil_append] at hret hlen
  rw [hret] at hv hr
  have hflat : (cs ++ [c]).flatten = cs.flatten ++ c := by simp
  refine ⟨⟨hlen, ?_, ?_⟩, fun h more c' hmore => feed_after_invalid hc h more c' hmore⟩
  · rw [hflat, happ]; exact hv
  · rw [hflat, happ]; exact hr

/-- A length prefix split across two reads. -/
theorem feed_segmentation_splitPrefix :
    (FrameDecoder.fresh.feedAll [[0, 0, 0], [1, 7, 9]]).flatMap FeedResult.lengths = [1] ∧
      ((FrameDecoder.fresh.after [[0, 0, 0]]).feed [1, 7, 9]).valid = true ∧
      ((FrameDecoder.fresh.after [[0, 0, 0]]).feed [1, 7, 9]).decoder.retained = [9] := by
  have hp : parseStream [0, 0, 0, 1, 7, 9] = ⟨[[7]], true, [9]⟩ := by decide +kernel
  have h := (feed_segmentation (Or.inl rfl) [[0, 0, 0]] [1, 7, 9] (by decide)).1
  simp only [List.cons_append, List.nil_append, List.flatten_cons, List.flatten_nil, hp] at h
  exact h

end OpenDisplay.Protocol.FramingStream
