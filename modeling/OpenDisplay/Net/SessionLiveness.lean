import OpenDisplay.Net.Session
import OpenDisplay.Protocol.Control

/-!
# The liveness timeout of the read loop

A pass of the read loop first calls `recv`, then compares the clock with `lastDataMs_`, and only
then looks at what `recv` returned.  So a pass that `recv` gave bytes can still end the loop with
"no data": when the passes before took more than 5 s (a callback or a ping that blocked), although
the sender was never silent.  The bytes of that pass are not fed to the decoder.

`silence_iff_prompt`: the loop keeps both promises exactly in the runs in which each `recv` that
returns bytes is followed by a clock reading within 5 s of the last handling of data.
-/

namespace OpenDisplay.Net.SessionLiveness

open OpenDisplay.Lib.Text (ascii)
open OpenDisplay.Protocol.Control (ControlMessage parseControlMessage)
open OpenDisplay.Protocol.Framing OpenDisplay.Net.Session

variable {μ : Type} (parseControl : List UInt8 → Option μ)

/-- The bytes that the `recv` of a pass returned. -/
def received (it : Iteration) : Option (List UInt8) :=
  match it.closed, it.recv with
  | false, .data bytes => some bytes
  | _, _ => none

/-- The loop makes all the passes `its`: each one but the last goes on. -/
def Makes : ReadState → List Iteration → Prop
  | _, [] => True
  | _, [_] => True
  | st, it :: it' :: its =>
    (readIteration parseControl st it).ended = none ∧
      Makes (readIteration parseControl st it).state (it' :: its)

/-- The chunks that `recv` returned in the passes `its`. -/
def allReceived (its : List Iteration) : List (List UInt8) := its.filterMap received

/-- The clock readings `now` and `dataNow` do not decrease, from `t` on. -/
def Clock : ℤ → List Iteration → Prop
  | _, [] => True
  | t, it :: its =>
    it.closed = true ∨ t ≤ it.now ∧
      match received it with
      | some _ => it.now ≤ it.dataNow ∧ Clock it.dataNow its
      | none => Clock it.now its

/-- Each `recv` that returns bytes is followed by a clock reading at most 5 s after data was last
handled, at `last`. -/
def Prompt : ℤ → List Iteration → Prop
  | _, [] => True
  | last, it :: its =>
    match received it with
    | some _ => it.now - last ≤ kLivenessTimeoutMs ∧ Prompt it.dataNow its
    | none => Prompt last its

/-- If the loop ends with the liveness timeout, no `recv` returned bytes in the 5 s before, by the
clock reading that follows the `recv`. -/
def OnlySilenceKills (st : ReadState) (its : List Iteration) : Prop :=
  (readLoop parseControl st its).ended = some .livenessTimeout →
    ∀ last ∈ its.getLast?, ∀ it ∈ its, (received it).isSome → kLivenessTimeoutMs < last.now - it.now

/-- Every byte that `recv` returned is passed to `Feed`, and has gone into the decoder. -/
def FeedsAll (st : ReadState) (its : List Iteration) : Prop :=
  feeds (readLoop parseControl st its).events = allReceived its ∧
    (readLoop parseControl st its).state.decoder = st.decoder.after (allReceived its)

/-! ## One pass -/

variable {parseControl} {st : ReadState} {it : Iteration} {its : List Iteration} {bytes : List UInt8}

theorem received_data (hc : it.closed = false) (hr : it.recv = .data bytes) :
    received it = some bytes := by
  simp [received, hc, hr]

theorem received_timedOut (hr : it.recv = .timedOut) : received it = none := by
  simp [received, hr]

theorem recv_of_received (h : received it = some bytes) :
    it.closed = false ∧ it.recv = .data bytes := by
  unfold received at h
  split at h
  · rename_i hc hr
    cases h
    exact ⟨hc, hr⟩
  · cases h

/-- A pass in time without bytes pings, and it may end the loop, but not for the liveness. -/
theorem readIteration_idle (parseControl : List UInt8 → Option μ) (hc : it.closed = false)
    (hl : ¬Late st it) (hn : received it = none) :
    ∃ ended, ended ≠ some .livenessTimeout ∧
      readIteration parseControl st it = ⟨pinged st it, pings st it, ended⟩ := by
  cases hr : it.recv with
  | data bytes =>
    rw [received_data hc hr] at hn
    cases hn
  | eof => exact ⟨some .peerClosed, by simp, readIteration_eof hc hl hr⟩
  | timedOut => exact ⟨none, by simp, readIteration_timedOut hc hl hr⟩
  | failed => exact ⟨some .recvFailed, by simp, readIteration_failed hc hl hr⟩

/-- The bytes that a pass hands to `Feed`. -/
def fed (st : ReadState) (it : Iteration) : Option (List UInt8) :=
  if Late st it then none else received it

/-- What a pass feeds is in its events and in its state. -/
theorem calls_readIteration (parseControl : List UInt8 → Option μ) (st : ReadState) (it : Iteration) :
    feeds (readIteration parseControl st it).events = (fed st it).toList ∧
      (readIteration parseControl st it).state.decoder = st.decoder.after (fed st it).toList ∧
      (readIteration parseControl st it).state.lastDataMs =
        (fed st it).elim st.lastDataMs fun _ => it.dataNow := by
  by_cases hc : it.closed = true
  · have hf : fed st it = none := by simp [fed, received, hc]
    rw [readIteration_closed hc, hf]
    exact ⟨rfl, rfl, rfl⟩
  have hopen : it.closed = false := by simpa using hc
  by_cases hl : Late st it
  · have hf : fed st it = none := if_pos hl
    rw [readIteration_late hopen hl, hf]
    exact ⟨rfl, rfl, rfl⟩
  have hf : fed st it = received it := if_neg hl
  rw [hf]
  cases hrec : received it with
  | some bytes =>
    rw [readIteration_data hopen hl (recv_of_received hrec).2]
    refine ⟨?_, ?_, ?_⟩
    · rw [feeds_append, feeds_pings, feeds_readData]
      rfl
    · rw [decoder_readData, decoder_pinged]
      rfl
    · rw [lastDataMs_readData]
      rfl
  | none =>
    obtain ⟨ended, -, hpass⟩ := readIteration_idle parseControl hopen hl hrec
    rw [hpass]
    exact ⟨feeds_pings, decoder_pinged, lastDataMs_pinged⟩

/-- The liveness exit does not look at what `recv` returned. -/
theorem livenessTimeout_iff :
    (readIteration parseControl st it).ended = some .livenessTimeout ↔
      it.closed = false ∧ Late st it := by
  constructor
  · intro h
    by_cases hc : it.closed = true
    · rw [readIteration_closed hc] at h
      cases h
    have hopen : it.closed = false := by simpa using hc
    refine ⟨hopen, ?_⟩
    by_contra hl
    cases hrec : received it with
    | some bytes =>
      rw [readIteration_data hopen hl (recv_of_received hrec).2] at h
      simp only [ended_readData] at h
      split at h <;> cases h
    | none =>
      obtain ⟨ended, hne, hpass⟩ := readIteration_idle parseControl hopen hl hrec
      rw [hpass] at h
      exact hne h
  · rintro ⟨hopen, hl⟩
    rw [readIteration_late hopen hl]

/-- A pass with bytes from `recv` goes wrong exactly if it is late. -/
theorem fed_eq_received_iff (st : ReadState) (h : received it = some bytes) :
    fed st it = received it ↔ it.now - st.lastDataMs ≤ kLivenessTimeoutMs := by
  have hlate : Late st it ↔ ¬it.now - st.lastDataMs ≤ kLivenessTimeoutMs := by
    unfold Late
    omega
  unfold fed
  rw [h]
  by_cases hp : it.now - st.lastDataMs ≤ kLivenessTimeoutMs
  · simp [hlate, hp]
  · simp [hlate, hp]

theorem fed_of_goes (h : (readIteration parseControl st it).ended = none) :
    fed st it = received it := by
  unfold fed
  split
  · rename_i hlate
    by_cases hc : it.closed = true
    · rw [readIteration_closed hc] at h
      cases h
    · have hopen : it.closed = false := by simpa using hc
      rw [livenessTimeout_iff.2 ⟨hopen, hlate⟩] at h
      cases h
  · rfl

/-! ## A run -/

theorem lastDataMs_of_goes (h : (readIteration parseControl st it).ended = none) :
    (readIteration parseControl st it).state.lastDataMs =
      (received it).elim st.lastDataMs fun _ => it.dataNow := by
  obtain ⟨-, -, hlast⟩ := calls_readIteration parseControl st it
  rwa [fed_of_goes h] at hlast

theorem calls_single (parseControl : List UInt8 → Option μ) (st : ReadState) (it : Iteration) :
    feeds (readLoop parseControl st [it]).events = (fed st it).toList ∧
      (readLoop parseControl st [it]).state.decoder = st.decoder.after (fed st it).toList ∧
      (readLoop parseControl st [it]).ended = (readIteration parseControl st it).ended := by
  obtain ⟨hfeeds, hdecoder, -⟩ := calls_readIteration parseControl st it
  cases h : (readIteration parseControl st it).ended with
  | none =>
    rw [readLoop_goes h]
    exact ⟨by rw [feeds_append, hfeeds]; exact List.append_nil _, hdecoder, rfl⟩
  | some reason =>
    rw [readLoop_ends h]
    exact ⟨by rw [feeds_append, hfeeds]; exact List.append_nil _, hdecoder, rfl⟩

theorem allReceived_cons (it : Iteration) (its : List Iteration) :
    allReceived (it :: its) = (received it).toList ++ allReceived its := by
  unfold allReceived
  rw [List.filterMap_cons]
  cases received it <;> rfl

theorem prompt_cons (last : ℤ) :
    Prompt last (it :: its) ↔ ((received it).isSome → it.now - last ≤ kLivenessTimeoutMs) ∧
      Prompt ((received it).elim last fun _ => it.dataNow) its := by
  simp only [Prompt]
  cases received it <;> simp

theorem fed_toList_iff (st : ReadState) (it : Iteration) :
    (fed st it).toList = (received it).toList ↔
      ((received it).isSome → it.now - st.lastDataMs ≤ kLivenessTimeoutMs) := by
  cases h : received it with
  | none =>
    have hf : fed st it = none := by simp [fed, h]
    simp [hf]
  | some bytes =>
    have hiff := fed_eq_received_iff st h
    rw [h] at hiff
    rw [← hiff]
    cases fed st it <;> simp

/-- The bytes of a run are all fed exactly if no pass with bytes is late. -/
theorem feedsAll_iff_prompt : ∀ (its : List Iteration) (st : ReadState), Makes parseControl st its →
    (FeedsAll parseControl st its ↔ Prompt st.lastDataMs its)
  | [], _, _ => iff_of_true ⟨rfl, rfl⟩ trivial
  | [it], st, _ => by
    obtain ⟨hfeeds, hdecoder, -⟩ := calls_single parseControl st it
    have hnil : Prompt ((received it).elim st.lastDataMs fun _ => it.dataNow) [] := trivial
    rw [prompt_cons, ← fed_toList_iff, and_iff_left hnil]
    unfold FeedsAll
    rw [hfeeds, hdecoder, allReceived_cons, show allReceived [] = [] from rfl, List.append_nil]
    exact ⟨fun h => h.1, fun h => ⟨h, by rw [h]⟩⟩
  | it :: it' :: its, st, hm => by
    obtain ⟨hgo, hm'⟩ := hm
    have ih := feedsAll_iff_prompt (it' :: its) _ hm'
    obtain ⟨hfeeds, hdecoder, -⟩ := calls_readIteration parseControl st it
    have hfed := fed_of_goes hgo
    rw [hfed] at hfeeds hdecoder
    rw [lastDataMs_of_goes hgo] at ih
    have hnow : (received it).isSome → it.now - st.lastDataMs ≤ kLivenessTimeoutMs :=
      (fed_toList_iff st it).1 (by rw [hfed])
    rw [prompt_cons, ← ih, and_iff_right hnow]
    unfold FeedsAll
    rw [readLoop_goes hgo, allReceived_cons, hdecoder, feeds_append, hfeeds, List.append_right_inj,
      FrameDecoder.after_append]

theorem Clock.earlier {t t' : ℤ} (hle : t' ≤ t) : Clock t its → Clock t' its := by
  intro h
  cases its with
  | nil => trivial
  | cons it its =>
    rcases h with h | ⟨ht, h⟩
    · exact .inl h
    · exact .inr ⟨hle.trans ht, h⟩

/-- When a prompt run ends with the liveness timeout, all data is more than 5 s old. -/
theorem old_of_livenessTimeout : ∀ (its : List Iteration) (st : ReadState),
    Makes parseControl st its → Clock st.lastDataMs its → Prompt st.lastDataMs its →
    (readLoop parseControl st its).ended = some .livenessTimeout → ∀ last ∈ its.getLast?,
      kLivenessTimeoutMs < last.now - st.lastDataMs ∧
        ∀ it ∈ its, (received it).isSome → kLivenessTimeoutMs < last.now - it.now
  | [], _, _, _, _, h => by simp [readLoop] at h
  | [it], st, _, _, hp, h => by
    intro last hlast
    obtain rfl : it = last := by simpa using hlast
    rw [(calls_single parseControl st it).2.2, livenessTimeout_iff] at h
    refine ⟨h.2, ?_⟩
    intro x hx hrec
    obtain rfl := List.mem_singleton.1 hx
    have hnow := ((prompt_cons _).1 hp).1 hrec
    have hlate : kLivenessTimeoutMs < x.now - st.lastDataMs := h.2
    omega
  | it :: it' :: its, st, hm, hc, hp, h => by
    intro last hlast
    obtain ⟨hgo, hm'⟩ := hm
    rw [readLoop_goes hgo] at h
    have hlast' : last ∈ (it' :: its).getLast? := by simpa using hlast
    have hopen : it.closed = false := by
      by_contra hclosed
      rw [readIteration_closed (by simpa using hclosed)] at hgo
      cases hgo
    have ih := old_of_livenessTimeout (it' :: its) _ hm'
    rw [lastDataMs_of_goes hgo] at ih
    have hp' := ((prompt_cons _).1 hp).2
    obtain ⟨hnow, hc⟩ : st.lastDataMs ≤ it.now ∧
        match received it with
        | some _ => it.now ≤ it.dataNow ∧ Clock it.dataNow (it' :: its)
        | none => Clock it.now (it' :: its) := by
      rcases hc with hclosed | hc
      · rw [hopen] at hclosed
        cases hclosed
      · exact hc
    cases hrec : received it with
    | none =>
      simp only [hrec, Option.elim_none] at ih hp' hc
      obtain ⟨hlast'', hall⟩ := ih (hc.earlier hnow) hp' h last hlast'
      refine ⟨hlast'', ?_⟩
      intro x hx hsome
      rcases List.mem_cons.1 hx with rfl | hx
      · rw [hrec] at hsome
        cases hsome
      · exact hall x hx hsome
    | some bytes =>
      simp only [hrec, Option.elim_some] at ih hp' hc
      obtain ⟨hlast'', hall⟩ := ih hc.2 hp' h last hlast'
      refine ⟨by omega, ?_⟩
      intro x hx hsome
      rcases List.mem_cons.1 hx with rfl | hx
      · omega
      · exact hall x hx hsome

/-- **Only silence kills a connection, in the prompt runs.**  A run whose clock does not go back
ends with the liveness timeout only after 5 s without bytes, and feeds every byte it receives, if
and only if each `recv` that returns bytes is followed by a clock reading at most 5 s after data
was last handled. -/
theorem silence_iff_prompt (hm : Makes parseControl st its) (hc : Clock st.lastDataMs its) :
    OnlySilenceKills parseControl st its ∧ FeedsAll parseControl st its ↔
      Prompt st.lastDataMs its := by
  constructor
  · rintro ⟨-, hfeeds⟩
    exact (feedsAll_iff_prompt its st hm).1 hfeeds
  · intro hp
    refine ⟨?_, (feedsAll_iff_prompt its st hm).2 hp⟩
    intro h last hlast
    exact (old_of_livenessTimeout its st hm hc hp h last hlast).2

/-! ## A ping that blocks -/

/-- A session right after `Start`, at the steady time 0. -/
def started : ReadState := ⟨.fresh, 0, 0, 0, 0⟩

/-- The ping of the sender. -/
def senderPing : List UInt8 := ascii "\x7b\"type\":\"ping\"\x7d"

/-- A pass at `now` in which `recv` returns `bytes`. -/
def reads (bytes : List UInt8) (now : ℤ) : Iteration := ⟨false, .data bytes, now, now, fun _ => now⟩

/-- A pass at `now` in which `recv` times out. -/
def waits (now : ℤ) : Iteration := ⟨false, .timedOut, now, now, fun _ => now⟩

/-- A frame at 1 s; at 2 s a ping is due, whose `send` takes 6 s, and the next frame is in the socket
behind it. -/
def busyRun : List Iteration :=
  [reads (encodeFrame senderPing) 1000, waits 1250, waits 1500, waits 1750, waits 2000,
    reads (encodeFrame senderPing) 8000]

/-- A frame every second, and then silence. -/
def quietRun : List Iteration :=
  [reads (encodeFrame senderPing) 1000, reads (encodeFrame senderPing) 2000, waits 7001]

theorem makes_quietRun : Makes parseControlMessage started quietRun :=
  ⟨by decide +kernel, by decide +kernel, trivial⟩

theorem silence_iff_prompt_quietRun :
    (readLoop parseControlMessage started quietRun).ended = some .livenessTimeout ∧
      OnlySilenceKills parseControlMessage started quietRun ∧
      FeedsAll parseControlMessage started quietRun :=
  ⟨by decide +kernel, (silence_iff_prompt makes_quietRun
    (by simp [Clock, quietRun, started, received, reads, waits])).2
    (by simp [Prompt, quietRun, started, received, reads, waits, kLivenessTimeoutMs])⟩

/-- **A sender that was not silent.**  The loop ends with the liveness timeout in a pass in which
`recv` returned a frame, and the frame is not fed. -/
theorem busyRun_killed :
    Makes parseControlMessage started busyRun ∧ Clock started.lastDataMs busyRun ∧
      (readLoop parseControlMessage started busyRun).ended = some .livenessTimeout ∧
      (readLoop parseControlMessage started busyRun).events =
        [.feed (encodeFrame senderPing),
          .frame senderPing (some (.onControl
            { ControlMessage.empty with type := .ping, typeString := ascii "ping" })),
          .ping, .onClosed false] ∧
      ¬OnlySilenceKills parseControlMessage started busyRun ∧
      ¬FeedsAll parseControlMessage started busyRun := by
  have hend : (readLoop parseControlMessage started busyRun).ended = some .livenessTimeout := by
    decide +kernel
  have hm : Makes parseControlMessage started busyRun :=
    ⟨by decide +kernel, by decide +kernel, by decide +kernel, by decide +kernel, by decide +kernel, trivial⟩
  have hlate : ¬Prompt started.lastDataMs busyRun := by
    simp [Prompt, busyRun, started, received, reads, waits, kLivenessTimeoutMs]
  refine ⟨hm, by simp [Clock, busyRun, started, received, reads, waits], hend, by decide +kernel, ?_,
    mt (feedsAll_iff_prompt busyRun started hm).1 hlate⟩
  intro honly
  have := honly hend (reads (encodeFrame senderPing) 8000) (by simp [busyRun])
    (reads (encodeFrame senderPing) 8000) (by simp [busyRun]) rfl
  simp [kLivenessTimeoutMs, reads] at this

end OpenDisplay.Net.SessionLiveness
