import OpenDisplay.App.VideoCallback
import OpenDisplay.Lib.Checked
import OpenDisplay.Lib.Transition
import OpenDisplay.Protocol.ControlUnknown
import OpenDisplay.Video.Decoder

/-! # The arithmetic on the sender's times

Three places of the app subtract times that the sender chose: the pong of `HandleControl`, the encode time
of `onVideo`, and the latency across the clocks in `Run`. The capture and send times are read by
`std::stoll` and fit into an `int64_t`, and `onVideo` compares them before it subtracts. The time of a pong
is a double of any size, and it is converted and subtracted before it is compared with anything:
`sender_times_safe_iff` says for which of them that is defined. `Run` subtracts half the round trip after
the capture time, which fails at the very start of the Unix clock only.

`none` is undefined behaviour. -/

namespace OpenDisplay.App.LatencyArithmetic

open OpenDisplay.Lib.Binary64 OpenDisplay.Lib.Checked OpenDisplay.Lib.FlatJson OpenDisplay.Lib.Text
open OpenDisplay.Lib.Transition
open OpenDisplay.App.VideoCallback (Receiver receive)
open OpenDisplay.Net.Session OpenDisplay.Protocol.AnnexB
open OpenDisplay.Protocol
open OpenDisplay.Protocol.Control (ControlMessage controlType parseControlMessage readFields)
open OpenDisplay.Protocol.ControlUnknown (type_readFields)
open OpenDisplay.Video.Decoder (DecodedFrame)

/-! ## The three places -/

/-- The fields of `App` that hold what the sender's times give. -/
structure Latencies where
  lastRttMs : ℤ
  lastSenderEncodeMs : ℤ
  lastE2eMs : ℤ
  deriving DecidableEq

def initial : Latencies := ⟨-1, -1, -1⟩

/-- The pong of `HandleControl`, at the Unix time `now`. -/
def handlePong (l : Latencies) (now : ℤ) (msg : ControlMessage) : Option Latencies :=
  if msg.hasT then do
    let t ← convert msg.t
    let rtt ← sub now t
    return if 0 ≤ rtt ∧ rtt < 5000 then { l with lastRttMs := rtt } else l
  else some l

/-- The sender's encode time in `onVideo`. -/
def senderEncode (l : Latencies) (v : VideoSample) : Option Latencies :=
  if 0 < v.captureMs ∧ v.captureMs ≤ v.sendMs then do
    let encode ← sub v.sendMs v.captureMs
    return { l with lastSenderEncodeMs := encode }
  else some l

/-- The latency across the clocks in `Run`, at the Unix time `now`. -/
def clockE2e (l : Latencies) (now : ℤ) (latest : DecodedFrame) : Option Latencies :=
  if 0 < latest.captureMs ∧ 0 ≤ l.lastRttMs then do
    let age ← sub now latest.captureMs
    let e2e ← sub age (l.lastRttMs.tdiv 2)
    return if 0 < e2e ∧ e2e < 60000 then { l with lastE2eMs := e2e } else l
  else some l

/-! ## The times that are sent -/

theorem inInt64_of_stoll {s : List UInt8} {x : ℤ} (h : stoll s = some x) : InInt64 x := by
  unfold stoll at h
  unfold InInt64
  split at h
  · dsimp only at h
    split_ifs at h with hnil hlt
    obtain rfl := Option.some_inj.1 h
    omega
  · dsimp only at h
    split_ifs at h with hnil hlt
    obtain rfl := Option.some_inj.1 h
    omega

theorem inInt64_findNumber (json key : List UInt8) : InInt64 (findNumber json key) := by
  have hdefault : InInt64 (-1) := by decide
  unfold findNumber
  dsimp only
  split
  · exact hdefault
  · split
    · exact hdefault
    · split_ifs
      · exact hdefault
      · cases h : stoll _ with
        | none => exact hdefault
        | some x => exact inInt64_of_stoll h

theorem inInt64_parseTelemetry (telemetry : List UInt8) :
    InInt64 (parseTelemetry telemetry).1 ∧ InInt64 (parseTelemetry telemetry).2 := by
  unfold parseTelemetry
  split_ifs
  · exact ⟨by decide, by decide⟩
  · exact ⟨inInt64_findNumber _ _, inInt64_findNumber _ _⟩

theorem times_collect (payload : List UInt8) : ∀ (starts : List ℕ) (f : VideoFrame),
    (collect payload f starts).captureMs = f.captureMs ∧ (collect payload f starts).sendMs = f.sendMs
  | [], _ => ⟨rfl, rfl⟩
  | start :: rest, f => by
    unfold collect
    dsimp only
    split_ifs
    · exact times_collect payload rest f
    · have hkept : ∀ n, (f.classify n).captureMs = f.captureMs ∧ (f.classify n).sendMs = f.sendMs := by
        intro n
        unfold VideoFrame.classify
        split_ifs <;> exact ⟨rfl, rfl⟩
      exact ⟨(times_collect payload rest _).1.trans (hkept _).1,
        (times_collect payload rest _).2.trans (hkept _).2⟩

/-- **The times of a video payload fit.** -/
theorem inInt64_parseAnnexB (payload : List UInt8) :
    InInt64 (parseAnnexB payload).captureMs ∧ InInt64 (parseAnnexB payload).sendMs := by
  have hdefault : InInt64 (-1) := by decide
  unfold parseAnnexB
  split
  · exact ⟨hdefault, hdefault⟩
  · dsimp only
    rw [(times_collect _ _ _).1, (times_collect _ _ _).2]
    split_ifs
    · exact inInt64_parseTelemetry _
    · exact ⟨hdefault, hdefault⟩

variable {pong : List UInt8} {msg : ControlMessage}

theorem findNumber_t (hparse : parseControlMessage pong = some msg) (hpong : msg.type = .pong)
    (hasT : msg.hasT = true) : Control.findNumber pong (ascii "t") = some msg.t := by
  unfold parseControlMessage at hparse
  split_ifs at hparse
  cases hstring : Control.findString pong (ascii "type") with
  | none =>
    rw [hstring] at hparse
    cases hparse
  | some type =>
    rw [hstring] at hparse
    obtain rfl := Option.some_inj.1 hparse
    have hkind : controlType type = .pong := (type_readFields _ _).symm.trans hpong
    unfold readFields at hasT ⊢
    simp only [hkind] at hasT ⊢
    obtain ⟨d, hd⟩ := Option.isSome_iff_exists.1 hasT
    rw [hd]
    rfl

/-! ## When the arithmetic is defined -/

variable {l : Latencies} {now : ℤ}

theorem isSome_handlePong (hnow : 0 ≤ now) (hnow' : now < 2 ^ 62) (hasT : msg.hasT = true) :
    (handlePong l now msg).isSome = true ↔
      ∃ q, msg.t = .finite q ∧ (now : ℚ) - 2 ^ 63 < q ∧ q < 2 ^ 63 := by
  have hclock : InInt64 now := ⟨by omega, by omega⟩
  unfold handlePong
  rw [if_pos hasT]
  cases ht : msg.t with
  | infinite negative => simp [convert]
  | nan => simp [convert]
  | finite q =>
    have hlow : now - 9223372036854775808 < truncate q ↔ (now : ℚ) - 2 ^ 63 < q := by
      have h := lt_truncate (c := now - 9223372036854775808) (q := q) (by omega)
      rw [Int.cast_sub, Int.cast_ofNat] at h
      rw [h]
      norm_num
    have hq : (∃ p, Double.finite q = .finite p ∧ (now : ℚ) - 2 ^ 63 < p ∧ p < 2 ^ 63) ↔
        now - 9223372036854775808 < truncate q ∧ q < 2 ^ 63 := by
      rw [hlow]
      simp
    rw [hq]
    by_cases hfits : InInt64 (truncate q)
    · have hhigh : q < 2 ^ 63 := by
        have h := (inInt64_truncate.1 hfits).2
        norm_num
        exact h
      rw [convert, checked_of_range hfits, Option.bind_eq_bind, Option.bind_some, isSome_bind_pure,
        isSome_sub_iff hnow hclock hfits]
      exact (and_iff_left hhigh).symm
    · have hnot : ¬(now - 9223372036854775808 < truncate q ∧ q < 2 ^ 63) := by
        rintro ⟨hlo, hhi⟩
        refine hfits ⟨by omega, (truncate_lt (by decide)).2 ?_⟩
        rw [Int.cast_ofNat]
        norm_num at hhi
        exact hhi
      rw [convert, checked, if_neg hfits]
      exact iff_of_false Bool.false_ne_true hnot

/-- What `onVideo` subtracts it has compared. -/
theorem senderEncode_eq (payload : List UInt8) (arrivalMs : ℤ) :
    let v := sampleOf (parseAnnexB payload) arrivalMs
    senderEncode l v = some
      { l with
        lastSenderEncodeMs :=
          if 0 < v.captureMs ∧ v.captureMs ≤ v.sendMs then v.sendMs - v.captureMs
          else l.lastSenderEncodeMs } := by
  intro v
  obtain ⟨hcapture, hsend⟩ : InInt64 v.captureMs ∧ InInt64 v.sendMs := inInt64_parseAnnexB payload
  unfold senderEncode
  split_ifs with h
  · rw [sub_of_nonneg (h.1.le.trans h.2) hsend h.1.le hcapture]
    rfl
  · rfl

theorem isSome_senderEncode (payload : List UInt8) (arrivalMs : ℤ) :
    (senderEncode l (sampleOf (parseAnnexB payload) arrivalMs)).isSome = true :=
  Option.isSome_of_mem (senderEncode_eq payload arrivalMs)

/-- The second subtraction of `Run` can fail right behind the start of the clock. -/
theorem isSome_clockE2e {latest : DecodedFrame} (hnow : 0 ≤ now) (hnow' : now < 2 ^ 62)
    (hcapture : InInt64 latest.captureMs) (hrtt : l.lastRttMs ≤ 4999) :
    (clockE2e l now latest).isSome = true ↔
      latest.captureMs ≤ 0 ∨ l.lastRttMs < 0 ∨ latest.captureMs + l.lastRttMs / 2 ≤ now + 2 ^ 63 := by
  unfold clockE2e
  split_ifs with h
  · have hhalf : l.lastRttMs.tdiv 2 = l.lastRttMs / 2 := Int.tdiv_eq_ediv_of_nonneg h.2
    have hfits := hcapture.2
    rw [sub_of_nonneg hnow ⟨by omega, by omega⟩ h.1.le hcapture, hhalf, Option.bind_eq_bind,
      Option.bind_some, isSome_bind_pure, sub, isSome_checked, InInt64]
    omega
  · exact iff_of_true rfl (by omega)

/-! ## Runs -/

/-- What reaches the three places, in any order: a control message and a frame with the Unix time, and a
video payload. -/
inductive Event
  | pong (now : ℤ) (msg : ControlMessage)
  | video (payload : List UInt8) (arrivalMs : ℤ)
  | present (now : ℤ) (latest : DecodedFrame)

def step (l : Latencies) : Event → Option Latencies
  | .pong now msg => handlePong l now msg
  | .video payload arrivalMs => senderEncode l (sampleOf (parseAnnexB payload) arrivalMs)
  | .present now latest => clockE2e l now latest

/-- The clock is within its bounds, and a frame has a time that fits. -/
def Event.Regular : Event → Prop
  | .pong now _ => 0 ≤ now ∧ now < 2 ^ 62
  | .video _ _ => True
  | .present now latest => (0 ≤ now ∧ now < 2 ^ 62) ∧ InInt64 latest.captureMs

/-- The sender's time is not too far from the clock. -/
def Event.Mild (l : Latencies) : Event → Prop
  | .pong now msg => msg.hasT = true → ∃ q, msg.t = .finite q ∧ (now : ℚ) - 2 ^ 63 < q ∧ q < 2 ^ 63
  | .video _ _ => True
  | .present now latest =>
    latest.captureMs ≤ 0 ∨ l.lastRttMs < 0 ∨ latest.captureMs + l.lastRttMs / 2 ≤ now + 2 ^ 63

/-- The round trips that are stored. -/
def Stored (l : Latencies) : Prop := -1 ≤ l.lastRttMs ∧ l.lastRttMs ≤ 4999

variable {l' : Latencies} {e : Event}

theorem rtt_handlePong (h : handlePong l now msg = some l') :
    l'.lastRttMs = l.lastRttMs ∨ 0 ≤ l'.lastRttMs ∧ l'.lastRttMs < 5000 := by
  unfold handlePong at h
  split_ifs at h
  · obtain ⟨t, -, h⟩ := Option.bind_eq_some_iff.1 h
    obtain ⟨rtt, -, h⟩ := Option.bind_eq_some_iff.1 h
    obtain rfl := Option.some_inj.1 h
    split_ifs with hrtt
    · exact .inr hrtt
    · exact .inl rfl
  · obtain rfl := Option.some_inj.1 h
    exact .inl rfl

theorem rtt_senderEncode {v : VideoSample} (h : senderEncode l v = some l') :
    l'.lastRttMs = l.lastRttMs := by
  unfold senderEncode at h
  split_ifs at h
  · obtain ⟨encode, -, h⟩ := Option.bind_eq_some_iff.1 h
    obtain rfl := Option.some_inj.1 h
    rfl
  · obtain rfl := Option.some_inj.1 h
    rfl

theorem rtt_clockE2e {latest : DecodedFrame} (h : clockE2e l now latest = some l') :
    l'.lastRttMs = l.lastRttMs := by
  unfold clockE2e at h
  split_ifs at h
  · obtain ⟨age, -, h⟩ := Option.bind_eq_some_iff.1 h
    obtain ⟨e2e, -, h⟩ := Option.bind_eq_some_iff.1 h
    obtain rfl := Option.some_inj.1 h
    split_ifs <;> rfl
  · obtain rfl := Option.some_inj.1 h
    rfl

theorem stored_step (h : Stored l) (hstep : step l e = some l') : Stored l' := by
  unfold Stored at *
  cases e with
  | pong now msg =>
    rcases rtt_handlePong hstep with hrtt | ⟨hlo, hhi⟩
    · rw [hrtt]
      exact h
    · omega
  | video payload arrivalMs =>
    rw [rtt_senderEncode hstep]
    exact h
  | present now latest =>
    rw [rtt_clockE2e hstep]
    exact h

/-- **Every round trip that a run stores is plausible.** -/
theorem stored_of_reaches (h : Reaches step (fun _ _ => True) initial l) : Stored l :=
  h.invariant ⟨by decide, by decide⟩ fun _ _ _ hl _ hs => stored_step hl hs

/-- What a step needs. -/
theorem isSome_step_iff (h : Stored l) (he : e.Regular) : (step l e).isSome = true ↔ e.Mild l := by
  cases e with
  | pong now msg =>
    by_cases hasT : msg.hasT = true
    · exact (isSome_handlePong he.1 he.2 hasT).trans ⟨fun hq _ => hq, fun hq => hq hasT⟩
    · have hkept : handlePong l now msg = some l := if_neg hasT
      exact iff_of_true (Option.isSome_of_mem hkept) fun hT => absurd hT hasT
  | video payload arrivalMs => exact iff_of_true (isSome_senderEncode payload arrivalMs) trivial
  | present now latest => exact isSome_clockE2e he.1.1 he.1.2 he.2 h.2

/-- **A run is defined** if the sender's times are mild at each of its steps, and only then. -/
theorem isSome_exec_iff : ∀ (es : List Event) {l : Latencies}, Stored l → (∀ e ∈ es, e.Regular) →
    ((exec step l es).isSome = true ↔ Meets step (fun l e => e.Mild l) l es)
  | [], _, _, _ => iff_of_true rfl trivial
  | e :: es, l, h, hes => by
    have hhead := isSome_step_iff h (hes e List.mem_cons_self)
    unfold exec Meets
    cases hstep : step l e with
    | none =>
      rw [hstep] at hhead
      exact iff_of_false Bool.false_ne_true fun hmild => Bool.false_ne_true (hhead.2 hmild.1)
    | some l' =>
      rw [hstep] at hhead
      have ih := isSome_exec_iff es (stored_step h hstep) fun e he => hes e (List.mem_cons_of_mem _ he)
      rw [Option.bind_some, ih]
      constructor
      · exact fun hrest => ⟨hhead.1 rfl, fun s hs => Option.some_inj.1 hs ▸ hrest⟩
      · exact fun hmeets => hmeets.2 l' rfl

/-! ## The sender's times -/

/-- The double that stands behind the key `t` in the text of a pong. -/
def sentTime (pong : List UInt8) : Option Double := (fieldText (ascii "t") pong).bind Control.readNumber

/-- The time of the pong is converted, and nothing overflows. -/
structure Safe (l : Latencies) (now now' : ℤ) (msg : ControlMessage) (v : VideoSample)
    (latest : DecodedFrame) : Prop where
  converts : ∃ q, msg.t = .finite q ∧ -2 ^ 63 ≤ q ∧ q < 2 ^ 63
  handleControl : (handlePong l now msg).isSome = true
  onVideo : (senderEncode l v).isSome = true
  run : (clockE2e l now' latest).isSome = true

/-- **Which times of a sender are harmless.** -/
theorem sender_times_safe_iff {pong video : List UInt8} {msg : ControlMessage} {l : Latencies}
    {now now' arrivalMs : ℤ} {latest : DecodedFrame} (hparse : parseControlMessage pong = some msg)
    (hpong : msg.type = .pong) (hasT : msg.hasT = true)
    (hlatest : latest.captureMs = (parseAnnexB video).captureMs) (hnow : 0 ≤ now ∧ now < 2 ^ 62)
    (hnow' : 0 ≤ now' ∧ now' < 2 ^ 62) (hrtt : -1 ≤ l.lastRttMs ∧ l.lastRttMs ≤ 4999) :
    Safe l now now' msg (sampleOf (parseAnnexB video) arrivalMs) latest ↔
      (∃ q, sentTime pong = some (.finite q) ∧ (now : ℚ) - 2 ^ 63 < q ∧ q < 2 ^ 63) ∧
        ((parseAnnexB video).captureMs ≤ 0 ∨ l.lastRttMs < 0 ∨
          (parseAnnexB video).captureMs + l.lastRttMs / 2 ≤ now' + 2 ^ 63) := by
  have ht : sentTime pong = some msg.t :=
    Control.findNumber_eq.symm.trans (findNumber_t hparse hpong hasT)
  have hcapture : InInt64 latest.captureMs := hlatest ▸ (inInt64_parseAnnexB video).1
  have hhandle := isSome_handlePong (l := l) hnow.1 hnow.2 hasT
  have hrun := isSome_clockE2e (l := l) hnow'.1 hnow'.2 hcapture hrtt.2
  rw [hlatest] at hrun
  rw [ht]
  simp only [Option.some_inj]
  constructor
  · exact fun h => ⟨hhandle.1 h.handleControl, hrun.1 h.run⟩
  · rintro ⟨hpong, hframe⟩
    refine ⟨?_, hhandle.2 hpong, isSome_senderEncode video arrivalMs, hrun.2 hframe⟩
    obtain ⟨q, hq, hlo, hhi⟩ := hpong
    have hclock : (0 : ℚ) ≤ now := Int.cast_nonneg hnow.1
    exact ⟨q, hq, by linarith, hhi⟩

/-- What a pong with the time `t` is parsed to. -/
def pongAt (t : ℚ) : ControlMessage :=
  { ControlMessage.empty with type := .pong, typeString := ascii "pong", t := .finite t, hasT := true }

theorem handlePong_pongAt (l : Latencies) (now : ℤ) (t : ℚ) :
    handlePong l now (pongAt t) = (convert (pongAt t).t).bind fun t => (sub now t).bind fun rtt =>
      some (if 0 ≤ rtt ∧ rtt < 5000 then { l with lastRttMs := rtt } else l) :=
  rfl

/-- A frame captured 20 ms before the clock shows 1760000000012. -/
def recentVideo : List UInt8 :=
  ascii "\x7b\"cap\":1759999999992,\"snd\":1759999999997\x7d" ++ [0, 0, 0, 1, 0x65, 0x88]

theorem parse_recentPong : parseControlMessage (ascii "\x7b\"type\":\"pong\",\"t\":1760000000000\x7d") =
    some (pongAt 1760000000000) := by
  decide +kernel

theorem sender_times_safe_recent :
    Safe ⟨12, -1, -1⟩ 1760000000012 1760000000012 (pongAt 1760000000000)
      (sampleOf (parseAnnexB recentVideo) 5000) ⟨[], 2, 2, 0, 0, 1759999999992, 5000⟩ :=
  (sender_times_safe_iff parse_recentPong rfl rfl (by decide +kernel) (by decide) (by decide)
    (by decide)).2 ⟨⟨1760000000000, by decide +kernel, by norm_num, by norm_num⟩, by decide +kernel⟩

/-- **Pongs from far away.**  `1e19` does not fit into an `int64_t`; the least integer that does is too
far from the clock. -/
theorem farPong_undefined :
    parseControlMessage (ascii "\x7b\"type\":\"pong\",\"t\":1e19\x7d") =
        some (pongAt 10000000000000000000) ∧
      parseControlMessage (ascii "\x7b\"type\":\"pong\",\"t\":-9223372036854775808\x7d") =
        some (pongAt (-9223372036854775808)) ∧
      ∀ l v latest, ¬Safe l 1760000000000 1760000000000 (pongAt 10000000000000000000) v latest ∧
        ¬Safe l 1760000000000 1760000000000 (pongAt (-9223372036854775808)) v latest := by
  refine ⟨by decide +kernel, by decide +kernel, fun l v latest => ⟨fun h => ?_, fun h => ?_⟩⟩
  · have hconvert : convert (pongAt 10000000000000000000).t = none := by decide
    have hnone : handlePong l 1760000000000 (pongAt 10000000000000000000) = none := by
      rw [handlePong_pongAt, hconvert]
      rfl
    exact Bool.false_ne_true ((congrArg Option.isSome hnone).symm.trans h.handleControl)
  · have hconvert : convert (pongAt (-9223372036854775808)).t = some (-9223372036854775808) := by
      decide
    have hsub : sub 1760000000000 (-9223372036854775808) = none := by decide
    have hnone : handlePong l 1760000000000 (pongAt (-9223372036854775808)) = none := by
      rw [handlePong_pongAt, hconvert, Option.bind_some, hsub]
      rfl
    exact Bool.false_ne_true ((congrArg Option.isSome hnone).symm.trans h.handleControl)

end OpenDisplay.App.LatencyArithmetic
