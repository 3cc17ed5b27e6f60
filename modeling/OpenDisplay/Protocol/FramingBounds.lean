import OpenDisplay.Protocol.FramingStream

/-! # Wire framing: how much memory a stream can take

A `Feed` that reports no bad prefix leaves less than one frame unconsumed, and the buffer grows only
where it has to, to twice its length at most or to what it must hold. So whatever lengths the sender
declares, the buffer stays below twice the largest incomplete frame and one read (`Bounded`). -/

namespace OpenDisplay.Protocol.FramingBounds

open OpenDisplay.Lib.Buffer OpenDisplay.Protocol.Framing OpenDisplay.Protocol.FramingStream

/-- The length of the buffer that the session receives into, and with it of the largest chunk. -/
def kReadSize : ℕ := 64 * 1024

/-- **What a decoder holds** between two valid calls. -/
structure Bounded (d : FrameDecoder) : Prop where
  cursor : d.cursor = 0
  buffered : d.bufferedBytes ≤ kMaxFrameSize + 3
  buffer : d.buffer.length < 2 * (kMaxFrameSize + 3 + kReadSize)

theorem fresh_bounded : Bounded FrameDecoder.fresh := ⟨rfl, by decide, by decide⟩

/-! ### The extraction -/

theorem span_le_of_mem_extract {buffer : List UInt8} {size cursor : ℕ} {f : Span}
    (hf : f ∈ (extract buffer size cursor).pending) : f.offset + f.length ≤ size := by
  fun_induction extract buffer size cursor with
  | case1 => cases hf
  | case2 => cases hf
  | case3 cursor hheader len hok total hfit r ih =>
    rcases List.mem_cons.1 hf with rfl | hf
    · have hfits : kFrameHeaderSize + len ≤ size - cursor := Nat.not_lt.1 hfit
      unfold kFrameHeaderSize at *
      dsimp only
      omega
    · exact ih hf
  | case4 => cases hf

/-- Where no prefix is bad, the loop leaves less than a frame. -/
theorem left_lt_of_extract {buffer : List UInt8} {size cursor : ℕ}
    (hv : (extract buffer size cursor).valid = true) :
    size - (extract buffer size cursor).cursor < kFrameHeaderSize + kMaxFrameSize := by
  fun_induction extract buffer size cursor with
  | case1 => cases hv
  | case2 => dsimp only; omega
  | case3 cursor hheader len hok total hfit r ih => exact ih hv
  | case4 => dsimp only; omega

/-! ### One `Feed` -/

/-- **The measures of a `Feed`**: they are those of the loop on the appended bytes. -/
theorem feed_measures (d : FrameDecoder) {data : List UInt8} (hne : data ≠ []) :
    let d₁ := d.append data
    let r := extract d₁.buffer d₁.size d₁.cursor
    (d.feed data).frames = r.pending ∧ (d.feed data).valid = r.valid ∧
      (d.feed data).decoder.bufferedBytes = d₁.size - r.cursor ∧
      (d.feed data).decoder.buffer.length = (d.grow data.length).length := by
  have hlen : ¬ data.length = 0 := fun h => hne (List.eq_nil_of_length_eq_zero h)
  have happend : (d.append data).buffer.length = (d.grow data.length).length :=
    length_write (d.length_grow data.length).1
  intro d₁ r
  unfold FrameDecoder.feed
  rw [if_neg hlen]
  by_cases hp : r.pending = []
  · simp only [d₁, r] at hp
    simp only [if_pos hp]
    exact ⟨hp.symm, rfl, rfl, happend⟩
  · simp only [d₁, r] at hp
    simp only [if_neg hp]
    have hcursor : r.cursor ≤ (d.append data).size := extract_cursor_le (d.append data).cursor_le
    simp only [r, d₁] at hcursor
    have hsize := (d.append data).size_le
    refine ⟨rfl, rfl, Nat.sub_zero _, ?_⟩
    simp only [FrameDecoder.compact]
    rw [length_write (by rw [length_slice (by omega)]; omega), happend]

theorem length_grow_lt {d : FrameDecoder} {len bound : ℕ} (hbuffer : d.buffer.length < 2 * bound)
    (hneed : d.size + len ≤ bound) : (d.grow len).length < 2 * bound := by
  unfold FrameDecoder.grow
  split
  · rw [length_resize]
    omega
  · exact hbuffer

theorem span_le_of_mem_feed {d : FrameDecoder} {data : List UInt8} {f : Span}
    (hf : f ∈ (d.feed data).frames) : f.offset + f.length ≤ (d.feed data).decoder.buffer.length := by
  by_cases hne : data = []
  · subst hne
    cases hf
  · obtain ⟨hframes, -, -, hlength⟩ := feed_measures d hne
    rw [hframes] at hf
    rw [hlength]
    exact Nat.le_trans (span_le_of_mem_extract hf) (d.length_grow data.length).1

/-- **A valid `Feed` of one read keeps the bounds.** -/
theorem feed_bounded {d : FrameDecoder} (h : Bounded d) {data : List UInt8}
    (hdata : data.length ≤ kReadSize) (hv : (d.feed data).valid = true) :
    Bounded (d.feed data).decoder := by
  by_cases hne : data = []
  · subst hne
    exact h
  · obtain ⟨-, hvalid, hbuffered, hlength⟩ := feed_measures d hne
    have hleft := left_lt_of_extract (hvalid ▸ hv)
    have hsize : d.size ≤ kMaxFrameSize + 3 := by
      have := h.buffered
      rwa [FrameDecoder.bufferedBytes, h.cursor] at this
    refine ⟨cursor_feed h.cursor data, ?_, ?_⟩
    · rw [hbuffered]
      unfold kFrameHeaderSize at hleft
      omega
    · rw [hlength]
      exact length_grow_lt h.buffer (by omega)

/-! ### Runs -/

theorem after_bounded : ∀ (cs : List (List UInt8)) {d : FrameDecoder}, Bounded d →
    (∀ c ∈ cs, c.length ≤ kReadSize) → (∀ r ∈ d.feedAll cs, r.valid = true) → Bounded (d.after cs)
  | [], _, h, _, _ => h
  | c :: cs, _, h, hcs, hv =>
    after_bounded cs (feed_bounded h (hcs c (by simp)) (hv _ (by simp [FrameDecoder.feedAll])))
      (fun x hx => hcs x (by simp [hx])) fun r hr => hv r (by simp [FrameDecoder.feedAll, hr])

/-- **A length prefix cannot force large memory.**  From a fresh decoder, while every `Feed` before
was valid and no chunk is longer than a read: a valid `Feed` leaves the cursor at 0, the valid bytes
inside the buffer, at most `kMaxFrameSize + 3` bytes unconsumed and a buffer below twice that and a
read; and the spans of every `Feed` lie inside the buffer. -/
theorem feed_memory (cs : List (List UInt8)) (c : List UInt8)
    (hlen : ∀ x ∈ cs ++ [c], x.length ≤ 65536)
    (hvalid : ∀ r ∈ FrameDecoder.fresh.feedAll cs, r.valid = true) :
    let r := (FrameDecoder.fresh.after cs).feed c
    (r.valid = true → r.decoder.cursor = 0 ∧ r.decoder.size ≤ r.decoder.buffer.length ∧
      r.decoder.bufferedBytes ≤ kMaxFrameSize + 3 ∧
      r.decoder.buffer.length < 2 * (kMaxFrameSize + 3 + 65536)) ∧
    ∀ f ∈ r.frames, f.offset + f.length ≤ r.decoder.buffer.length := by
  have hbefore : Bounded (FrameDecoder.fresh.after cs) :=
    after_bounded cs fresh_bounded (fun x hx => hlen x (by simp [hx])) hvalid
  refine ⟨fun hv => ?_, fun f hf => span_le_of_mem_feed hf⟩
  obtain ⟨hcursor, hbuffered, hbuffer⟩ := feed_bounded hbefore (hlen c (by simp)) hv
  exact ⟨hcursor, FrameDecoder.size_le _, hbuffered, hbuffer⟩

/-- A frame in two reads. -/
theorem feed_memory_twoReads :
    ((FrameDecoder.fresh.after [[0, 0, 0, 2, 7]]).feed [8]).decoder.buffer.length <
      2 * (kMaxFrameSize + 3 + 65536) := by
  have hvalid : ∀ r ∈ FrameDecoder.fresh.feedAll [[0, 0, 0, 2, 7]], r.valid = true := by
    intro r hr
    rw [List.mem_singleton.1 hr, (feed_spec FrameDecoder.fresh (by decide)).2.1]
    decide +kernel
  have hv : ((FrameDecoder.fresh.after [[0, 0, 0, 2, 7]]).feed [8]).valid = true := by
    decide +kernel
  exact ((feed_memory [[0, 0, 0, 2, 7]] [8] (by decide) hvalid).1 hv).2.2.2

end OpenDisplay.Protocol.FramingBounds
