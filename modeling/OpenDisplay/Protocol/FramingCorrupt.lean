import OpenDisplay.Protocol.FramingRoundTrip

/-! # Wire framing: a corrupt length behind good frames

A `Feed` that meets a length above the cap still returns the frames it found before it. A reader
that drops the frames of such a `Feed` (`delivered`) loses the ones that arrived in the same chunk.

`delivered_iff_apart`: on the frames `ps` followed by a corrupt length, such a reader stops at the
corrupt length, and it has delivered `ps` exactly if no chunk holds both the end of a frame and the
end of the corrupt length, and every chunk before leaves its frames undisturbed. -/

namespace OpenDisplay.Protocol.FramingCorrupt

open OpenDisplay.Lib.Buffer OpenDisplay.Protocol.Framing OpenDisplay.Protocol.FramingStream
open OpenDisplay.Protocol.FramingRoundTrip

/-- What a reader delivers that drops the frames of an invalid `Feed` and stops there; true if it
stopped. -/
def delivered (d : FrameDecoder) : List (List UInt8) → List (List UInt8) × Bool
  | [] => ([], false)
  | c :: cs =>
    if (d.feed c).valid then
      let r := delivered (d.feed c).decoder cs
      ((d.feed c).contents ++ r.1, r.2)
    else ([], true)

/-- Every frame is complete before the chunk that completes the corrupt length, and the chunks up to
there leave their frames undisturbed. `ps` are the payloads not yet delivered and `held` the number
of bytes that arrived in earlier chunks. -/
def FramesApart : List (List UInt8) → ℕ → List ℕ → Prop
  | _, _, [] => True
  | ps, held, n :: ns =>
    if (encodeAll ps).length + kFrameHeaderSize ≤ held + n then ps = []
    else
      let done := ps.take (completeIn ps (held + n))
      let used := (encodeAll done).length
      Undisturbed done (((encodeAll ps).take (held + n)).drop used) ∧
        FramesApart (ps.drop (completeIn ps (held + n))) (held + n - used) ns

instance decidableFramesApart : ∀ (ps : List (List UInt8)) (held : ℕ) (ns : List ℕ),
    Decidable (FramesApart ps held ns)
  | _, _, [] => .isTrue trivial
  | ps, held, n :: ns =>
    have := decidableFramesApart (ps.drop (completeIn ps (held + n)))
      (held + n - (encodeAll (ps.take (completeIn ps (held + n)))).length) ns
    inferInstanceAs (Decidable (if (encodeAll ps).length + kFrameHeaderSize ≤ held + n then ps = []
      else Undisturbed _ _ ∧ FramesApart _ _ _))

/-! ### The parse of a piece of the stream -/

theorem completeIn_of_le : ∀ (ps : List (List UInt8)) {n : ℕ}, (encodeAll ps).length ≤ n →
    completeIn ps n = ps.length
  | [], _, _ => rfl
  | p :: ps, n, h => by
    rw [encodeAll_cons, List.length_append, length_encodeFrame] at h
    rw [completeIn, if_pos (by omega), completeIn_of_le ps (by omega), List.length_cons]

theorem completeIn_zero : ∀ ps : List (List UInt8), completeIn ps 0 = 0
  | [] => rfl
  | _ :: _ => if_neg (by unfold kFrameHeaderSize; omega)

/-- Frames, and then bytes that are no frame. -/
theorem parseStream_encodeAll : ∀ (ps : List (List UInt8)) (q : List UInt8),
    (∀ p ∈ ps, p.length ≤ kMaxFrameSize) →
      parseStream (encodeAll ps ++ q) =
        { parseStream q with frames := ps ++ (parseStream q).frames }
  | [], _, _ => rfl
  | p :: ps, q, hps => by
    have ih := parseStream_encodeAll ps q (fun x hx => hps x (by simp [hx]))
    rw [encodeAll_cons, List.append_assoc, parseStream_encodeFrame (hps p (by simp)), ih]
    rfl

variable {ps : List (List UInt8)} {bad rest : List UInt8}

/-- A piece that does not reach the end of the corrupt length. -/
theorem parseStream_take_short (hps : ∀ p ∈ ps, p.length ≤ kMaxFrameSize) (q : List UInt8) {n : ℕ}
    (hn : n < (encodeAll ps).length + kFrameHeaderSize) :
    parseStream ((encodeAll ps ++ q).take n) = ⟨ps.take (completeIn ps n), true,
      ((encodeAll ps ++ q).take n).drop (encodeAll (ps.take (completeIn ps n))).length⟩ := by
  by_cases hle : n ≤ (encodeAll ps).length
  · rw [List.take_append_of_le_length hle]
    exact parseStream_take_encodeAll ps n hps
  · have hall : completeIn ps n = ps.length := completeIn_of_le ps (by omega)
    have htake : (encodeAll ps ++ q).take n =
        encodeAll ps ++ q.take (n - (encodeAll ps).length) := by
      rw [List.take_append, List.take_of_length_le (by omega)]
    have hshort : (q.take (n - (encodeAll ps).length)).length < kFrameHeaderSize := by
      rw [List.length_take]
      omega
    rw [hall, List.take_length, htake, parseStream_encodeAll ps _ hps, parseStream_short hshort,
      List.drop_left, List.append_nil]

theorem parseStream_take_corrupt (hps : ∀ p ∈ ps, p.length ≤ kMaxFrameSize)
    (hlen : bad.length = kFrameHeaderSize) (hbad : kMaxFrameSize < (readInt32BE bad).toNat) {n : ℕ}
    (hn : (encodeAll ps).length + kFrameHeaderSize ≤ n) :
    (parseStream ((encodeAll ps ++ (bad ++ rest)).take n)).valid = false := by
  have htake : (encodeAll ps ++ (bad ++ rest)).take n =
      encodeAll ps ++ (bad ++ rest.take (n - (encodeAll ps).length - kFrameHeaderSize)) := by
    rw [List.take_append, List.take_of_length_le (by omega), List.take_append,
      List.take_of_length_le (by omega), hlen]
  have hread := readInt32BE_append (le_of_eq hlen.symm)
    (rest.take (n - (encodeAll ps).length - kFrameHeaderSize))
  rw [htake, parseStream_encodeAll ps _ hps, parseStream_oversize
    (by rw [List.length_append]; omega) (by rw [hread]; exact hbad)]

/-- The tail behind the completed frames disturbs them alike with and without the bytes of the
corrupt length. -/
theorem undisturbed_take_iff (ps : List (List UInt8)) (q : List UInt8) {n : ℕ}
    (hn : n < (encodeAll ps).length + kFrameHeaderSize) :
    let done := ps.take (completeIn ps n)
    Undisturbed done (((encodeAll ps ++ q).take n).drop (encodeAll done).length) ↔
      Undisturbed done (((encodeAll ps).take n).drop (encodeAll done).length) := by
  intro done
  by_cases hle : n ≤ (encodeAll ps).length
  · rw [List.take_append_of_le_length hle]
  · have hall : done = ps := by
      show ps.take (completeIn ps n) = ps
      rw [completeIn_of_le ps (by omega), List.take_length]
    have hleft : Undisturbed done (((encodeAll ps ++ q).take n).drop (encodeAll done).length) := by
      apply undisturbed_of_short
      rw [hall, List.length_drop, List.length_take]
      omega
    have hright : Undisturbed done (((encodeAll ps).take n).drop (encodeAll done).length) := by
      apply undisturbed_of_short
      rw [hall, List.length_drop, List.length_take]
      omega
    exact ⟨fun _ => hright, fun _ => hleft⟩

/-! ### A run -/

/-- **What a reader delivers that drops the frames of an invalid `Feed`.**  From a decoder that
holds no complete frame, on chunks that reach the corrupt length. -/
theorem delivered_iff_apart (hlen : bad.length = kFrameHeaderSize)
    (hbad : kMaxFrameSize < (readInt32BE bad).toNat) :
    ∀ (cs ps : List (List UInt8)) (d : FrameDecoder), d.cursor = 0 →
      (∀ p ∈ ps, p.length ≤ kMaxFrameSize) → (∀ c ∈ cs, c ≠ []) →
      completeIn ps d.retained.length = 0 →
      d.retained.length < (encodeAll ps).length + kFrameHeaderSize →
      d.retained ++ cs.flatten = encodeAll ps ++ (bad ++ rest) →
        (delivered d cs).2 = true ∧
          ((delivered d cs).1 = ps ↔ FramesApart ps d.retained.length (cs.map List.length))
  | [], ps, d, _, _, _, _, hheld, hbytes => by
    have h := congrArg List.length hbytes
    simp only [List.flatten_nil, List.append_nil, List.length_append] at h
    omega
  | c :: cs, ps, d, hcur, hps, hne, hzero, hheld, hbytes => by
    have hc : c ≠ [] := hne c (by simp)
    set n := d.retained.length + c.length with hn
    rw [List.flatten_cons, ← List.append_assoc] at hbytes
    have hlength : (d.retained ++ c).length = n := List.length_append
    have htake : (encodeAll ps ++ (bad ++ rest)).take n = d.retained ++ c := by
      rw [← hbytes, ← hlength, List.take_left]
    obtain ⟨-, hv, hret⟩ := feed_spec d hc
    rw [List.map_cons, FramesApart, ← hn, delivered]
    by_cases hreach : (encodeAll ps).length + kFrameHeaderSize ≤ n
    · -- the chunk completes the corrupt length
      rw [← htake, parseStream_take_corrupt hps hlen hbad hreach] at hv
      rw [if_pos hreach, if_neg (by rw [hv]; exact Bool.false_ne_true)]
      exact ⟨rfl, eq_comm⟩
    · have hshort : n < (encodeAll ps).length + kFrameHeaderSize := Nat.lt_of_not_le hreach
      have hparse := parseStream_take_short hps (bad ++ rest) hshort
      have hdist := undisturbed_take_iff ps (bad ++ rest) hshort
      obtain ⟨hsplit, hrest⟩ := split_completed hbytes
      rw [htake] at hparse hdist
      rw [hlength] at hsplit hrest
      set done := ps.take (completeIn ps n) with hdone
      set left := ps.drop (completeIn ps n) with hleft
      set tail := (d.retained ++ c).drop (encodeAll done).length with htail
      have htl : tail.length = n - (encodeAll done).length := by
        rw [htail, List.length_drop, hlength]
      have hlens : (encodeAll ps).length = (encodeAll done).length + (encodeAll left).length := by
        rw [← List.length_append, ← encodeAll_append, hdone, hleft, List.take_append_drop]
      have hused : (encodeAll done).length ≤ n := length_encodeAll_take_le ps n
      simp only [hparse] at hv hret
      have hone : (d.feed c).contents = done ↔ Undisturbed done tail :=
        contents_feed_iff hcur hc hparse hsplit
      obtain ⟨ihstop, ihapart⟩ := delivered_iff_apart hlen hbad cs left (d.feed c).decoder
        (cursor_feed hcur c) (fun p hp => hps p (List.mem_of_mem_drop hp))
        (fun x hx => hne x (by simp [hx])) (by rw [hret, htl]; exact completeIn_drop ps n)
        (by rw [hret, htl]; omega) (by rw [hret]; exact hrest)
      rw [hret, htl] at ihapart
      rw [if_neg hreach, if_pos hv]
      refine ⟨ihstop, ?_⟩
      rw [append_eq_iff_take_drop (length_contents_feed hc hparse), hone, ihapart]
      exact and_congr_left' hdist

end OpenDisplay.Protocol.FramingCorrupt
