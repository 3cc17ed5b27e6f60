import OpenDisplay.Protocol.FramingStream

/-! # Wire framing: what the spans of a `Feed` show

`feed` builds the spans with the offsets the frames had before the unconsumed bytes were moved to
the front of the buffer. So a span shows its payload exactly where the move did not reach, or where it
happened to copy equal bytes.

* `Undisturbed done tail`: the frames `done`, completed by one chunk, survive the move of `tail`, the
  bytes of the unfinished frame behind them.
* `SplitClean`: every chunk of a split leaves its completed frames undisturbed. It is a condition on
  the payloads and the chunk lengths alone.
* `roundTrip_iff_splitClean`: the payloads read through the spans are the payloads sent exactly when
  the split is clean. A tail of at most four bytes disturbs nothing (`undisturbed_of_short`). -/

namespace OpenDisplay.Protocol.FramingRoundTrip

open OpenDisplay.Lib.Buffer OpenDisplay.Protocol.Framing OpenDisplay.Protocol.FramingStream

/-- The wire bytes of a list of payloads. -/
def encodeAll (ps : List (List UInt8)) : List UInt8 := ps.flatMap encodeFrame

/-- How many frames of `ps` are complete in the first `n` bytes of their encoding. -/
def completeIn : List (List UInt8) → ℕ → ℕ
  | [], _ => 0
  | p :: ps, n =>
    if kFrameHeaderSize + p.length ≤ n then
      completeIn ps (n - (kFrameHeaderSize + p.length)) + 1
    else 0

/-- The frames `done` at the front of the buffer survive the move of `tail` to index `0`: each of
their payload bytes below `tail.length` equals the byte of `tail` that lands on it. -/
def Undisturbed (done : List (List UInt8)) (tail : List UInt8) : Prop :=
  ∀ f ∈ spansAt 0 done, ∀ k < f.length, f.offset + k < tail.length →
    (encodeAll done)[f.offset + k]? = tail[f.offset + k]?

/-- Every chunk leaves the frames it completes undisturbed. `ps` are the payloads not yet delivered
and `held` the number of their bytes that arrived in earlier chunks. -/
def SplitClean : List (List UInt8) → ℕ → List ℕ → Prop
  | _, _, [] => True
  | ps, held, n :: ns =>
    let done := ps.take (completeIn ps (held + n))
    let used := (encodeAll done).length
    Undisturbed done (((encodeAll ps).take (held + n)).drop used) ∧
      SplitClean (ps.drop (completeIn ps (held + n))) (held + n - used) ns

instance (done : List (List UInt8)) (tail : List UInt8) : Decidable (Undisturbed done tail) := by
  unfold Undisturbed; infer_instance

instance decidableSplitClean : ∀ (ps : List (List UInt8)) (held : ℕ) (ns : List ℕ),
    Decidable (SplitClean ps held ns)
  | _, _, [] => .isTrue trivial
  | ps, held, n :: ns =>
    have := decidableSplitClean (ps.drop (completeIn ps (held + n)))
      (held + n - (encodeAll (ps.take (completeIn ps (held + n)))).length) ns
    inferInstanceAs (Decidable (Undisturbed _ _ ∧ SplitClean _ _ _))

@[simp] theorem encodeAll_nil : encodeAll [] = [] := rfl

@[simp] theorem encodeAll_cons (p : List UInt8) (ps : List (List UInt8)) :
    encodeAll (p :: ps) = encodeFrame p ++ encodeAll ps := rfl

theorem encodeAll_append (ps qs : List (List UInt8)) :
    encodeAll (ps ++ qs) = encodeAll ps ++ encodeAll qs := List.flatMap_append

theorem spansAt_offset_ge : ∀ {ps : List (List UInt8)} {off : ℕ} {f : Span},
    f ∈ spansAt off ps → off + kFrameHeaderSize ≤ f.offset
  | p :: ps, off, f, h => by
    rcases List.mem_cons.mp h with rfl | h
    · exact le_rfl
    · have := spansAt_offset_ge h; omega

/-- A tail that fits into one length prefix overwrites no payload byte. -/
theorem undisturbed_of_short (done : List (List UInt8)) {tail : List UInt8}
    (h : tail.length ≤ kFrameHeaderSize) : Undisturbed done tail := fun f hf k _ hlt => by
  have := spansAt_offset_ge hf
  omega

/-! ### Spans of an encoding -/

theorem spansAt_bound : ∀ {ps : List (List UInt8)} {off : ℕ} {f : Span},
    f ∈ spansAt off ps → f.offset + f.length ≤ off + (encodeAll ps).length
  | p :: ps, off, f, h => by
    rw [encodeAll_cons, List.length_append, length_encodeFrame]
    rcases List.mem_cons.mp h with rfl | h
    · show off + kFrameHeaderSize + p.length ≤ _
      omega
    · have := spansAt_bound h; omega

/-- The spans of an encoding show its payloads. -/
theorem map_slice_spansAt : ∀ (ps : List (List UInt8)) (pre : List UInt8),
    (spansAt pre.length ps).map (fun f => slice (pre ++ encodeAll ps) f.offset f.length) = ps
  | [], _ => rfl
  | p :: ps, pre => by
    have hlen : (pre ++ encodeFrame p).length = pre.length + (kFrameHeaderSize + p.length) := by
      rw [List.length_append, length_encodeFrame]
    have hhead : slice (pre ++ encodeAll (p :: ps)) (pre.length + kFrameHeaderSize) p.length = p := by
      rw [← slice_drop, List.drop_left, encodeAll_cons, slice_encodeFrame]
    have ih := map_slice_spansAt ps (pre ++ encodeFrame p)
    rw [hlen, List.append_assoc, ← encodeAll_cons] at ih
    rw [spansAt, List.map_cons, ih, hhead]

/-! ### The parse of a piece of an encoding -/

/-- **The first `n` bytes of an encoding** parse to its complete frames. -/
theorem parseStream_take_encodeAll : ∀ (ps : List (List UInt8)) (n : ℕ),
    (∀ p ∈ ps, p.length ≤ kMaxFrameSize) →
      parseStream ((encodeAll ps).take n) = ⟨ps.take (completeIn ps n), true,
        ((encodeAll ps).take n).drop (encodeAll (ps.take (completeIn ps n))).length⟩
  | [], n, _ => by
    rw [encodeAll_nil, List.take_nil, parseStream_short (by decide)]; rfl
  | p :: ps, n, hps => by
    have hp := hps p (by simp)
    have hlen := length_encodeFrame p
    rw [encodeAll_cons, completeIn]
    by_cases hle : kFrameHeaderSize + p.length ≤ n
    · have htake : (encodeFrame p ++ encodeAll ps).take n =
          encodeFrame p ++ (encodeAll ps).take (n - (kFrameHeaderSize + p.length)) := by
        rw [List.take_append, List.take_of_length_le (by omega), hlen]
      have ih := parseStream_take_encodeAll ps (n - (kFrameHeaderSize + p.length))
        (fun q hq => hps q (by simp [hq]))
      rw [if_pos hle, htake, parseStream_encodeFrame hp, ih, List.take_succ_cons, encodeAll_cons,
        List.length_append, ← List.drop_drop, List.drop_left]
    · rw [if_neg hle, List.take_zero, encodeAll_nil, List.length_nil, List.drop_zero]
      have htake : (encodeFrame p ++ encodeAll ps).take n = (encodeFrame p).take n :=
        List.take_append_of_le_length (by omega)
      have hn : ((encodeFrame p).take n).length = n := by rw [List.length_take]; omega
      rw [htake]
      by_cases hshort : n < kFrameHeaderSize
      · exact parseStream_short (by omega)
      · have hread : (readInt32BE ((encodeFrame p).take n)).toNat = p.length := by
          rw [← readInt32BE_append (by omega) ((encodeFrame p).drop n), List.take_append_drop,
            ← List.append_nil (encodeFrame p), readInt32BE_encodeFrame hp]
        exact parseStream_incomplete (by omega) (by omega) (by omega)

theorem completeIn_length : ∀ ps : List (List UInt8),
    completeIn ps (encodeAll ps).length = ps.length
  | [] => rfl
  | p :: ps => by
    have hlen := length_encodeFrame p
    rw [completeIn, encodeAll_cons, List.length_append, if_pos (by omega), hlen,
      Nat.add_sub_cancel_left, completeIn_length ps, List.length_cons]

theorem completeIn_le : ∀ (ps : List (List UInt8)) (n : ℕ), completeIn ps n ≤ ps.length
  | [], _ => le_rfl
  | p :: ps, n => by
    rw [completeIn]
    split_ifs
    · exact Nat.succ_le_succ (completeIn_le ps _)
    · exact Nat.zero_le _

theorem length_encodeAll_take_le : ∀ (ps : List (List UInt8)) (n : ℕ),
    (encodeAll (ps.take (completeIn ps n))).length ≤ n
  | [], n => by simp [encodeAll]
  | p :: ps, n => by
    rw [completeIn]
    split_ifs with h
    · have ih := length_encodeAll_take_le ps (n - (kFrameHeaderSize + p.length))
      rw [List.take_succ_cons, encodeAll_cons, List.length_append, length_encodeFrame]
      omega
    · exact Nat.zero_le n

/-- What remains behind the complete frames holds no complete frame. -/
theorem completeIn_drop : ∀ (ps : List (List UInt8)) (n : ℕ),
    completeIn (ps.drop (completeIn ps n))
      (n - (encodeAll (ps.take (completeIn ps n))).length) = 0
  | [], n => rfl
  | p :: ps, n => by
    rw [completeIn]
    split_ifs with h
    · have ih := completeIn_drop ps (n - (kFrameHeaderSize + p.length))
      rw [Nat.sub_sub] at ih
      rw [List.take_succ_cons, List.drop_succ_cons, encodeAll_cons, List.length_append,
        length_encodeFrame]
      exact ih
    · simp only [List.take_zero, List.drop_zero, encodeAll_nil, List.length_nil, Nat.sub_zero]
      rw [completeIn, if_neg h]

/-- Frames behind those on the way complete none in what has arrived. -/
theorem completeIn_append {ps : List (List UInt8)} {n : ℕ} (hle : n ≤ (encodeAll ps).length)
    (hnone : completeIn ps n = 0) (qs : List (List UInt8)) : completeIn (ps ++ qs) n = 0 := by
  cases ps with
  | nil =>
    obtain rfl : n = 0 := Nat.le_zero.1 hle
    cases qs with
    | nil => rfl
    | cons q qs => exact if_neg (by unfold kFrameHeaderSize; omega)
  | cons p ps =>
    rw [completeIn] at hnone
    split_ifs at hnone with hp
    rw [List.cons_append, completeIn, if_neg hp]

/-- The bytes read so far are the completed frames and a tail, and the tail with the bytes to come is
the rest of the stream. -/
theorem split_completed {ps : List (List UInt8)} {a b s : List UInt8}
    (h : a ++ b = encodeAll ps ++ s) :
    let done := ps.take (completeIn ps a.length)
    let tail := a.drop (encodeAll done).length
    a = encodeAll done ++ tail ∧
      tail ++ b = encodeAll (ps.drop (completeIn ps a.length)) ++ s := by
  intro done tail
  have hle : (encodeAll done).length ≤ a.length := length_encodeAll_take_le ps _
  have hps : encodeAll ps = encodeAll done ++ encodeAll (ps.drop (completeIn ps a.length)) := by
    rw [← encodeAll_append, List.take_append_drop]
  have hfront : a.take (encodeAll done).length = encodeAll done := by
    have htake : (a ++ b).take (encodeAll done).length = a.take (encodeAll done).length :=
      List.take_append_of_le_length hle
    rw [← htake, h, hps, List.append_assoc, List.take_left]
  have hsplit : a = encodeAll done ++ tail := by
    have hjoin := List.take_append_drop (encodeAll done).length a
    rw [hfront] at hjoin
    exact hjoin.symm
  refine ⟨hsplit, ?_⟩
  have hall : encodeAll done ++ (tail ++ b) =
      encodeAll done ++ (encodeAll (ps.drop (completeIn ps a.length)) ++ s) := by
    rw [← List.append_assoc, ← hsplit, h, hps, List.append_assoc]
  exact List.append_cancel_left hall

theorem append_eq_iff_take_drop {ps frames rest : List (List UInt8)} {k : ℕ}
    (h : frames.length = (ps.take k).length) :
    frames ++ rest = ps ↔ frames = ps.take k ∧ rest = ps.drop k := by
  have hjoin := List.take_append_drop k ps
  constructor
  · intro heq
    rw [← hjoin] at heq
    exact List.append_inj heq h
  · rintro ⟨hfront, hrest⟩
    rw [hfront, hrest, hjoin]

/-! ### One `Feed` -/

/-- The cells of a buffer that starts with `front ++ tail`, after `tail` has been moved to index
`0`. -/
theorem getElem?_move {buffer front tail : List UInt8} {size : ℕ} (hs : size ≤ buffer.length)
    (hlive : slice buffer 0 size = front ++ tail) {j : ℕ} (hj : j < front.length) :
    (write buffer 0 tail)[j]? = if j < tail.length then tail[j]? else front[j]? := by
  have hsize := congrArg List.length hlive
  rw [length_slice (by omega), List.length_append] at hsize
  have hold : buffer[j]? = front[j]? := by
    have h := congrArg (fun l => l[j]?) hlive
    simp only [getElem?_slice, Nat.zero_add, List.getElem?_append_left hj] at h
    rwa [if_pos (by omega)] at h
  rw [getElem?_write (Nat.zero_le _), if_neg (Nat.not_lt_zero j), Nat.zero_add, Nat.sub_zero, hold]

/-- A span shows what was sent after the move of `tail` exactly if no byte of it was overwritten with
another one. -/
theorem slice_move_iff {buffer tail : List UInt8} {done : List (List UInt8)} {size : ℕ}
    (hs : size ≤ buffer.length) (hlive : slice buffer 0 size = encodeAll done ++ tail) {f : Span}
    (hf : f ∈ spansAt 0 done) :
    slice (write buffer 0 tail) f.offset f.length = slice (encodeAll done) f.offset f.length ↔
      ∀ k < f.length, f.offset + k < tail.length →
        (encodeAll done)[f.offset + k]? = tail[f.offset + k]? := by
  have hb := spansAt_bound hf
  rw [List.ext_getElem?_iff]
  simp only [getElem?_slice]
  constructor
  · intro h k hk hlt
    have hk' := h k
    rw [if_pos hk, if_pos hk, getElem?_move hs hlive (by omega), if_pos hlt] at hk'
    exact hk'.symm
  · intro h k
    by_cases hk : k < f.length
    · rw [if_pos hk, if_pos hk, getElem?_move hs hlive (by omega)]
      split_ifs with hlt
      · exact (h k hk hlt).symm
      · rfl
    · rw [if_neg hk, if_neg hk]

theorem map_slice_encodeAll (done : List (List UInt8)) :
    (spansAt 0 done).map (fun f => slice (encodeAll done) f.offset f.length) = done := by
  have hsent := map_slice_spansAt done []
  rwa [List.length_nil, List.nil_append] at hsent

/-- The spans of `done` show `done` after the move of `tail` exactly if it leaves them
undisturbed. -/
theorem map_slice_move_iff {buffer tail : List UInt8} {done : List (List UInt8)} {size : ℕ}
    (hs : size ≤ buffer.length) (hlive : slice buffer 0 size = encodeAll done ++ tail) :
    (spansAt 0 done).map (fun f => slice (write buffer 0 tail) f.offset f.length) = done ↔
      Undisturbed done tail := by
  have hmap : (spansAt 0 done).map (fun f => slice (write buffer 0 tail) f.offset f.length) = done ↔
      ∀ f ∈ spansAt 0 done, slice (write buffer 0 tail) f.offset f.length =
        slice (encodeAll done) f.offset f.length := by
    conv_lhs => rhs; rw [← map_slice_encodeAll done]
    exact List.map_inj_left
  rw [hmap]
  exact forall₂_congr fun f hf => slice_move_iff hs hlive hf

/-- A `Feed` that returns frames moves the retained bytes to the front of the appended buffer. -/
theorem buffer_feed {d : FrameDecoder} {data : List UInt8} (h : (d.feed data).frames ≠ []) :
    (d.feed data).decoder.buffer =
      write (d.append data).buffer 0 (d.feed data).decoder.retained := by
  unfold FrameDecoder.feed at h ⊢
  by_cases hlen : data.length = 0
  · rw [if_pos hlen] at h; exact absurd rfl h
  · rw [if_neg hlen] at h ⊢
    by_cases hp : (extract (d.append data).buffer (d.append data).size
        (d.append data).cursor).pending = []
    · simp only [if_pos hp] at h; exact absurd rfl h
    · simp only [if_neg hp]
      rw [retained_compact]
      rfl

/-- The spans of a `Feed` look into the buffer to whose front `tail` was moved. -/
theorem contents_feed {d : FrameDecoder} (hcur : d.cursor = 0) {data : List UInt8}
    (hne : data ≠ []) {done : List (List UInt8)} {tail : List UInt8} {v : Bool}
    (hparse : parseStream (d.retained ++ data) = ⟨done, v, tail⟩)
    (hbytes : d.retained ++ data = encodeAll done ++ tail) :
    slice (d.append data).buffer 0 (d.append data).size = encodeAll done ++ tail ∧
      (d.feed data).contents =
        (spansAt 0 done).map fun f => slice (write (d.append data).buffer 0 tail) f.offset f.length := by
  obtain ⟨hframes, -, hret⟩ := feed_spec d hne
  simp only [hparse, hcur] at hframes hret
  have hlive : slice (d.append data).buffer 0 (d.append data).size = encodeAll done ++ tail := by
    have h := retained_append d data
    unfold FrameDecoder.retained FrameDecoder.bufferedBytes at h
    rw [show (d.append data).cursor = 0 from hcur, Nat.sub_zero] at h
    exact h.trans hbytes
  refine ⟨hlive, ?_⟩
  unfold FeedResult.contents
  rw [hframes]
  by_cases hdone : done = []
  · subst hdone
    rfl
  · have hsome : (d.feed data).frames ≠ [] := by rw [hframes]; exact mt spansAt_eq_nil.mp hdone
    rw [buffer_feed hsome, hret]

/-- **What one `Feed` shows.**  When the unconsumed bytes are the frames `done` followed by `tail`,
the spans show `done` exactly if the move of `tail` leaves them undisturbed. -/
theorem contents_feed_iff {d : FrameDecoder} (hcur : d.cursor = 0) {data : List UInt8}
    (hne : data ≠ []) {done : List (List UInt8)} {tail : List UInt8} {v : Bool}
    (hparse : parseStream (d.retained ++ data) = ⟨done, v, tail⟩)
    (hbytes : d.retained ++ data = encodeAll done ++ tail) :
    (d.feed data).contents = done ↔ Undisturbed done tail := by
  obtain ⟨hlive, hcontents⟩ := contents_feed hcur hne hparse hbytes
  rw [hcontents]
  exact map_slice_move_iff (d.append data).size_le hlive

theorem length_contents (r : FeedResult) : r.contents.length = r.frames.length := by
  simp [FeedResult.contents]

theorem length_contents_feed {d : FrameDecoder} {data : List UInt8} (hne : data ≠ [])
    {done : List (List UInt8)} {tail : List UInt8} {v : Bool}
    (hparse : parseStream (d.retained ++ data) = ⟨done, v, tail⟩) :
    (d.feed data).contents.length = done.length := by
  obtain ⟨hframes, -, -⟩ := feed_spec d hne
  simp only [hparse] at hframes
  rw [length_contents, hframes, ← List.length_map Span.length, spansAt_lengths, List.length_map]

/-- **One `Feed` in the middle of an encoding**, of which `rest` is still to come: the frames that it
completes are shown exactly if it leaves them undisturbed, and the rest of the encoding is retained or
still to come. -/
theorem feed_encoded {d : FrameDecoder} (hcur : d.cursor = 0) {ps : List (List UInt8)} {c rest : List UInt8}
    (hps : ∀ p ∈ ps, p.length ≤ kMaxFrameSize) (hc : c ≠ [])
    (hbytes : (d.retained ++ c) ++ rest = encodeAll ps) :
    let n := d.retained.length + c.length
    let done := ps.take (completeIn ps n)
    (d.feed c).valid = true ∧ (d.feed c).contents.length = done.length ∧
      ((d.feed c).contents = done ↔ Undisturbed done (((encodeAll ps).take n).drop (encodeAll done).length)) ∧
      (d.feed c).decoder.retained.length = n - (encodeAll done).length ∧
      (d.feed c).decoder.retained ++ rest = encodeAll (ps.drop (completeIn ps n)) := by
  intro n done
  have hlen : (d.retained ++ c).length = n := List.length_append
  have htake : (encodeAll ps).take n = d.retained ++ c := by rw [← hbytes, ← hlen, List.take_left]
  obtain ⟨hsplit, hrest⟩ := split_completed (hbytes.trans (List.append_nil _).symm)
  rw [hlen] at hsplit hrest
  rw [List.append_nil] at hrest
  have hparse := parseStream_take_encodeAll ps n hps
  rw [htake] at hparse
  obtain ⟨-, hv, hret⟩ := feed_spec d hc
  simp only [hparse] at hv hret
  refine ⟨hv, length_contents_feed hc hparse, ?_, ?_, ?_⟩
  · rw [htake]
    exact contents_feed_iff hcur hc hparse hsplit
  · rw [hret, List.length_drop, hlen]
  · rw [hret]
    exact hrest

/-! ### Runs of `Feed`s -/

/-- A run over the rest of an encoding: every `Feed` is valid, and the spans show the payloads
exactly if the split is clean. -/
theorem feedAll_contents_iff : ∀ (cs ps : List (List UInt8)) (d : FrameDecoder), d.cursor = 0 →
    (∀ p ∈ ps, p.length ≤ kMaxFrameSize) → (∀ c ∈ cs, c ≠ []) →
    completeIn ps d.retained.length = 0 → d.retained ++ cs.flatten = encodeAll ps →
      (∀ r ∈ d.feedAll cs, r.valid = true) ∧
        ((d.feedAll cs).flatMap FeedResult.contents = ps ↔
          SplitClean ps d.retained.length (cs.map List.length))
  | [], ps, d, _, _, _, hheld, hbytes => by
    rw [List.flatten_nil, List.append_nil] at hbytes
    rw [hbytes, completeIn_length] at hheld
    have hps := List.eq_nil_of_length_eq_zero hheld
    subst hps
    exact ⟨fun r hr => absurd hr (by simp [FrameDecoder.feedAll]), fun _ => trivial, fun _ => rfl⟩
  | c :: cs, ps, d, hcur, hps, hne, hheld, hbytes => by
    obtain ⟨hc, hne⟩ := List.forall_mem_cons.1 hne
    rw [List.flatten_cons, ← List.append_assoc] at hbytes
    obtain ⟨hv, hlength, hone, hret, hrest⟩ := feed_encoded hcur hps hc hbytes
    obtain ⟨ihv, ihc⟩ := feedAll_contents_iff cs (ps.drop (completeIn ps (d.retained.length + c.length)))
      (d.feed c).decoder (cursor_feed hcur c) (fun p hp => hps p (List.mem_of_mem_drop hp)) hne
      (by rw [hret]; exact completeIn_drop ps _) hrest
    rw [hret] at ihc
    constructor
    · exact List.forall_mem_cons.2 ⟨hv, ihv⟩
    · rw [FrameDecoder.feedAll, List.flatMap_cons, List.map_cons, SplitClean, ← hone, ← ihc]
      exact append_eq_iff_take_drop hlength

/-- **The round trip, exactly.**  For every list of admissible payloads and every split of their
encoding into non-empty chunks fed to a fresh decoder: every `Feed` is valid and the spans show, in
order, the payloads sent if and only if every chunk leaves the frames it completes undisturbed. -/
theorem roundTrip_iff_splitClean {ps cs : List (List UInt8)}
    (hps : ∀ p ∈ ps, p.length ≤ kMaxFrameSize) (hne : ∀ c ∈ cs, c ≠ [])
    (hsplit : cs.flatten = encodeAll ps) :
    ((∀ r ∈ FrameDecoder.fresh.feedAll cs, r.valid = true) ∧
        (FrameDecoder.fresh.feedAll cs).flatMap FeedResult.contents = ps) ↔
      SplitClean ps 0 (cs.map List.length) := by
  have hheld : ∀ ps : List (List UInt8), completeIn ps 0 = 0
    | [] => rfl
    | p :: ps => if_neg (by unfold kFrameHeaderSize; omega)
  obtain ⟨hv, hc⟩ := feedAll_contents_iff cs ps FrameDecoder.fresh rfl hps hne (hheld ps) hsplit
  exact ⟨fun h => hc.mp h.2, fun h => ⟨hv, hc.mpr h⟩⟩

/-- Two frames, the second cut after its first payload byte: a clean split, as the tail is one byte
longer than the prefix but that byte equals the one it lands on. -/
theorem roundTrip_equalByte :
    (∀ r ∈ FrameDecoder.fresh.feedAll [[0, 0, 0, 1, 7, 0, 0, 0, 2, 7], [8]], r.valid = true) ∧
      (FrameDecoder.fresh.feedAll [[0, 0, 0, 1, 7, 0, 0, 0, 2, 7], [8]]).flatMap
        FeedResult.contents = [[7], [7, 8]] :=
  (roundTrip_iff_splitClean (by decide) (by decide) (by decide)).mpr (by decide)

/-- **A payload byte is overwritten.**  Two frames of four bytes in one read up to the second one's
first payload byte: the span of the first shows that byte in place of its own. -/
theorem feed_overwrites_payload :
    [[0, 0, 0, 4, 97, 97, 97, 97, 0, 0, 0, 4, 99], [99, 99, 99]].flatten =
        encodeAll [[97, 97, 97, 97], [99, 99, 99, 99]] ∧
      (FrameDecoder.fresh.feedAll
          [[0, 0, 0, 4, 97, 97, 97, 97, 0, 0, 0, 4, 99], [99, 99, 99]]).flatMap
        FeedResult.contents = [[99, 97, 97, 97], [99, 99, 99, 99]] ∧
      [[99, 97, 97, 97], [99, 99, 99, 99]] ≠ ([[97, 97, 97, 97], [99, 99, 99, 99]] : List (List UInt8)) := by
  decide +kernel

end OpenDisplay.Protocol.FramingRoundTrip
