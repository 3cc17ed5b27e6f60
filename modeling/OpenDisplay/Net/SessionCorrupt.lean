import OpenDisplay.Net.SessionLiveness
import OpenDisplay.Protocol.FramingCorrupt

/-!
# The read loop at a corrupt length

When `Feed` reports a corrupt length, the read loop breaks before it looks at the frames that the
same `Feed` returned.  So whether a good frame is dispatched depends on where the stream was cut:
the frames that share a read with the end of the corrupt length are lost, although the decoder
delivers them.

`frames_dispatched_iff`: on good frames followed by a corrupt length, the loop ends with the corrupt
frame as its reason, and it has dispatched the frames exactly in the splits that `FramesApart`
describes.
-/

namespace OpenDisplay.Net.SessionCorrupt

open OpenDisplay.Lib.Text (ascii)
open OpenDisplay.Protocol.Control (ControlMessage parseControlMessage)
open OpenDisplay.Protocol.Framing OpenDisplay.Protocol.FramingRoundTrip
open OpenDisplay.Protocol.FramingCorrupt OpenDisplay.Net.Session OpenDisplay.Net.SessionLiveness

/-- Each `recv` returns bytes or times out, and nothing else ends the loop: the session is not
closed, and no pass is late. -/
def Delivers : ℤ → List Iteration → Prop
  | _, [] => True
  | last, it :: its =>
    it.closed = false ∧ it.now - last ≤ kLivenessTimeoutMs ∧
      match it.recv with
      | .data bytes => bytes ≠ [] ∧ Delivers it.dataNow its
      | .timedOut => Delivers last its
      | _ => False

variable {μ : Type} {st : ReadState} {it : Iteration} {its : List Iteration}

/-! ## One pass -/

theorem readIteration_data_spec {p : List UInt8 → Option μ} {bytes : List UInt8} (hc : it.closed = false) (hl : ¬Late st it)
    (hr : it.recv = .data bytes) :
    (readIteration p st it).ended =
        (if (st.decoder.feed bytes).valid then none else some .corruptFrame) ∧
      (readIteration p st it).state.decoder = (st.decoder.feed bytes).decoder ∧
      (readIteration p st it).state.lastDataMs = it.dataNow ∧
      frames (readIteration p st it).events =
        if (st.decoder.feed bytes).valid then
          (st.decoder.feed bytes).contents.map fun f => (f, due p f)
        else [] := by
  rw [readIteration_data hc hl hr]
  refine ⟨?_, ?_, ?_, ?_⟩
  · rw [ended_readData, decoder_pinged]
  · rw [decoder_readData, decoder_pinged]
  · rw [lastDataMs_readData]
  · rw [frames_append, frames_pings, frames_readData, decoder_pinged]
    rfl

/-! ## A run -/

/-- The loop is the reader that drops the frames of an invalid `Feed`, and each frame that is delivered
gets its callback. -/
theorem frames_readLoop (p : List UInt8 → Option μ) : ∀ (its : List Iteration) (st : ReadState), Delivers st.lastDataMs its →
    frames (readLoop p st its).events =
        (delivered st.decoder (allReceived its)).1.map (fun f => (f, due p f)) ∧
      (readLoop p st its).ended =
        if (delivered st.decoder (allReceived its)).2 then some .corruptFrame else none
  | [], _, _ => ⟨rfl, rfl⟩
  | it :: its, st, h => by
    obtain ⟨hc, hnow, hrecv⟩ := h
    have hl : ¬Late st it := Int.not_lt.2 hnow
    cases hr : it.recv with
    | data bytes =>
      rw [hr] at hrecv
      have hall : allReceived (it :: its) = bytes :: allReceived its :=
        List.filterMap_cons_some (received_data hc hr)
      obtain ⟨hend, hdec, hlast, hframes⟩ := readIteration_data_spec (p := p) hc hl hr
      rw [hall, delivered]
      by_cases hv : (st.decoder.feed bytes).valid = true
      · rw [if_pos hv] at hend hframes ⊢
        obtain ⟨ihf, ihe⟩ := frames_readLoop p its (readIteration p st it).state
          (by rw [hlast]; exact hrecv.2)
        rw [hdec] at ihf ihe
        rw [readLoop_goes hend]
        dsimp only
        rw [frames_append, hframes, ihf, List.map_append]
        exact ⟨rfl, ihe⟩
      · rw [if_neg hv] at hend hframes ⊢
        rw [readLoop_ends hend]
        dsimp only
        rw [frames_append, hframes]
        exact ⟨rfl, rfl⟩
    | timedOut =>
      rw [hr] at hrecv
      have hall : allReceived (it :: its) = allReceived its :=
        List.filterMap_cons_none (received_timedOut hr)
      have hpass : readIteration p st it = ⟨pinged st it, pings st it, none⟩ :=
        readIteration_timedOut hc hl hr
      have ih := frames_readLoop p its (pinged st it) (by rw [lastDataMs_pinged]; exact hrecv)
      rw [decoder_pinged] at ih
      rw [hall, readLoop_goes (by rw [hpass]), hpass]
      dsimp only
      rw [frames_append, frames_pings]
      exact ih
    | eof =>
      rw [hr] at hrecv
      exact hrecv.elim
    | failed =>
      rw [hr] at hrecv
      exact hrecv.elim

theorem ne_nil_of_delivers : ∀ (its : List Iteration) {last : ℤ}, Delivers last its →
    ∀ c ∈ allReceived its, c ≠ []
  | [], _, _, c, hc => by simp [allReceived] at hc
  | it :: its, last, h, c, hc => by
    obtain ⟨hopen, -, hrecv⟩ := h
    unfold allReceived at hc
    cases hr : it.recv with
    | data bytes =>
      rw [hr] at hrecv
      rw [List.filterMap_cons_some (received_data hopen hr)] at hc
      rcases List.mem_cons.1 hc with rfl | hc
      · exact hrecv.1
      · exact ne_nil_of_delivers its hrecv.2 c hc
    | timedOut =>
      rw [hr] at hrecv
      rw [List.filterMap_cons_none (received_timedOut hr)] at hc
      exact ne_nil_of_delivers its hrecv c hc
    | eof =>
      rw [hr] at hrecv
      exact hrecv.elim
    | failed =>
      rw [hr] at hrecv
      exact hrecv.elim

/-- **Frames before a corrupt length, exactly.**  A session receives admissible frames `ps` and then
a length above the cap, in any split.  The loop goes through the frames `ps`, calls for each of them
the callback that is due, and ends with the corrupt frame as its reason, if and only if every frame is
complete in a read before the one that completes the corrupt length, and no read disturbs the frames it
completes. -/
theorem frames_dispatched_iff {ps : List (List UInt8)} {bad rest : List UInt8}
    (hst : st.decoder = .fresh) (hps : ∀ p ∈ ps, p.length ≤ kMaxFrameSize)
    (hlen : bad.length = kFrameHeaderSize) (hbad : kMaxFrameSize < (readInt32BE bad).toNat)
    (hrun : Delivers st.lastDataMs its)
    (hbytes : (allReceived its).flatten = encodeAll ps ++ (bad ++ rest)) :
    (frames (readLoop parseControlMessage st its).events =
          ps.map (fun p => (p, due parseControlMessage p)) ∧
        (readLoop parseControlMessage st its).ended = some .corruptFrame) ↔
      FramesApart ps 0 ((allReceived its).map List.length) := by
  obtain ⟨hframes, hend⟩ := frames_readLoop parseControlMessage its st hrun
  have hne := ne_nil_of_delivers its hrun
  have hretained : FrameDecoder.fresh.retained = [] := rfl
  obtain ⟨hstop, hapart⟩ := delivered_iff_apart hlen hbad (allReceived its) ps .fresh rfl hps hne
    (completeIn_zero ps) (by rw [hretained, List.length_nil]; unfold kFrameHeaderSize; omega)
    (by rw [hretained]; exact hbytes)
  have hpair : Function.Injective fun p => (p, due parseControlMessage p) := fun p q h =>
    congrArg Prod.fst h
  rw [hretained, List.length_nil] at hapart
  rw [hframes, hend, hst, hstop, hpair.list_map.eq_iff, hapart]
  exact and_iff_left rfl

/-! ## A good frame and a corrupt length -/

/-- A control frame of a type that the app does not know. -/
def keyframeFrame : List UInt8 := ascii "\x7b\"type\":\"kf\"\x7d"

/-- The frame, and in the next read a length of 2^32 - 1. -/
def twoReads : List Iteration := [reads (encodeFrame keyframeFrame) 10, reads [255, 255, 255, 255] 20]

/-- The same bytes in one read. -/
def oneRead : List Iteration := [reads (encodeFrame keyframeFrame ++ [255, 255, 255, 255]) 10]

theorem frames_dispatched_twoReads :
    frames (readLoop parseControlMessage started twoReads).events =
        [keyframeFrame].map (fun p => (p, due parseControlMessage p)) ∧
      (readLoop parseControlMessage started twoReads).ended = some .corruptFrame :=
  have hbytes : (allReceived twoReads).flatten =
      encodeAll [keyframeFrame] ++ ([255, 255, 255, 255] ++ []) := by decide +kernel
  (frames_dispatched_iff rfl (by decide +kernel) (by decide) (by decide)
    (by simp [Delivers, twoReads, reads, started, kLivenessTimeoutMs, encodeFrame, writeInt32BE]) hbytes).2
    (by decide +kernel)

/-- **The split decides.**  In one read, the frame is not dispatched: the loop calls nothing but
`onClosed`. -/
theorem oneRead_loses :
    (allReceived oneRead).flatten = (allReceived twoReads).flatten ∧
      Delivers started.lastDataMs oneRead ∧
      (readLoop parseControlMessage started twoReads).events =
        [.feed (encodeFrame keyframeFrame),
          .frame keyframeFrame (some (.onControl { ControlMessage.empty with typeString := ascii "kf" })),
          .feed [255, 255, 255, 255], .onClosed false] ∧
      (readLoop parseControlMessage started oneRead).events =
        [.feed (encodeFrame keyframeFrame ++ [255, 255, 255, 255]), .onClosed false] ∧
      frames (readLoop parseControlMessage started oneRead).events ≠
        [keyframeFrame].map (fun p => (p, due parseControlMessage p)) :=
  ⟨by decide +kernel,
    by simp [Delivers, oneRead, reads, started, kLivenessTimeoutMs, encodeFrame, writeInt32BE],
    by decide +kernel, by decide +kernel, by decide +kernel⟩

end OpenDisplay.Net.SessionCorrupt
