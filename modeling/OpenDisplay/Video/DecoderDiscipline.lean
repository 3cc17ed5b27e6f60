import OpenDisplay.Lib.Trace
import OpenDisplay.Video.Decoder

/-!
# The decoder waits for keyframes

`Allowed` says what may stand in the trace of a decoder: a sample is fed to a transform only if no
failure came after the keyframe that the transform was built from, the first sample fed to a
transform is a keyframe, and a keyframe that is fed does not change the parameter sets.  `Inv` is
the invariant that carries it over every `submit`, whatever the transform answers; its part `Up`
ties the flag `mftReady_` and the remembered parameter sets to the trace.
-/

namespace OpenDisplay.Video.DecoderDiscipline

open OpenDisplay.Lib.RateLimit OpenDisplay.Lib.Trace OpenDisplay.Net.Session
open OpenDisplay.Video.Decoder

/-! ## The part of the state that the discipline is about -/

/-- The fields that decide what is built, fed and requested. -/
structure Control where
  mft : Option ℕ
  nextMft : ℕ
  mftReady : Bool
  lastSps : List UInt8
  lastPps : List UInt8
  lastKfRequestMs : ℤ
  acceptedUnits : UInt64
  trace : List Event

def control (d : H264Decoder) : Control where
  mft := d.mft
  nextMft := d.nextMft
  mftReady := d.mftReady
  lastSps := d.lastSps
  lastPps := d.lastPps
  lastKfRequestMs := d.lastKfRequestMs
  acceptedUnits := d.acceptedUnits
  trace := d.trace

variable {d : H264Decoder} {s : VideoSample} {now : ℤ}

theorem control_publishNv12 (out : Output) : control (d.publishNv12 out) = control d := by
  unfold H264Decoder.publishNv12
  repeat' split
  all_goals rfl

theorem control_drainTurns (stop : Stop) : ∀ (d : H264Decoder) (ts : List Turn),
    control (d.drainTurns stop ts).1 = control d
  | _, [] => rfl
  | d, .frame out :: ts =>
    (control_drainTurns stop _ ts).trans (control_publishNv12 (d := d) out)
  | d, .streamChange types sampleSize size :: ts => by
    unfold H264Decoder.drainTurns
    split
    · exact control_drainTurns stop _ ts
    · rfl

theorem control_drainOutput (o : Drain) : control (d.drainOutput o).1 = control d :=
  control_drainTurns o.stop d o.turns

theorem control_setVisible : control (d.setVisible s) = control d := by
  unfold H264Decoder.setVisible
  repeat' split
  all_goals rfl

theorem control_processInput (o : FeedOutcome) : control (d.processInput o).1 = control d := by
  have hd := control_drainOutput (d := d) o.retryDrain
  unfold H264Decoder.processInput
  split
  · split <;> simp_all
  · rfl

/-- The sample has been passed to `ProcessInput`, and `n` samples have been accepted. -/
def Control.feed (c : Control) (s : VideoSample) (n : UInt64) : Control :=
  { c with acceptedUnits := n, trace := .fed c.mft s :: c.trace }

/-- The transform `m` is up for the sample. -/
def Control.build (c : Control) (s : VideoSample) (m : ℕ) : Control :=
  { c with
    mft := some m
    nextMft := m + 1
    mftReady := true
    lastSps := s.sps
    lastPps := s.pps
    trace := .built (some m) s :: c.trace }

/-- What `FeedAccessUnit` does: true means the sample was fed and accepted. -/
theorem control_feedAccessUnit (o : FeedOutcome) :
    ((d.feedAccessUnit s o).2 = true ∧
        control (d.feedAccessUnit s o).1 = (control d).feed s (d.acceptedUnits + 1)) ∨
      (d.feedAccessUnit s o).2 = false ∧
        (control (d.feedAccessUnit s o).1 = control d ∨
          ∃ n, control (d.feedAccessUnit s o).1 = (control d).feed s n) := by
  have hp := control_processInput (d := d.record (.fed d.mft s)) o
  unfold H264Decoder.feedAccessUnit
  split
  · split
    case h_1 d' he =>
      rw [he] at hp
      exact .inr ⟨rfl, .inr ⟨_, hp⟩⟩
    case h_2 d' he =>
      rw [he] at hp
      have hacc : control (d'.accept s) = (control d).feed s (d.acceptedUnits + 1) := by
        show { control d' with acceptedUnits := (control d').acceptedUnits + 1 } = _
        rw [hp]
        rfl
      have hdrain := (control_drainOutput (d := d'.accept s) o.drain).trans hacc
      cases hres : ((d'.accept s).drainOutput o.drain).2 with
      | true => exact .inl ⟨rfl, hdrain⟩
      | false => exact .inr ⟨rfl, .inr ⟨_, hdrain⟩⟩
    case h_3 d' r hne he =>
      rw [he] at hp
      exact .inr ⟨rfl, .inr ⟨_, hp⟩⟩
  · exact .inr ⟨rfl, .inl rfl⟩

theorem control_setupMft (o : Outcome) :
    ((d.setupMft o).2 = true ∧ ∃ m, d.nextMft ≤ m ∧ control (d.setupMft o).1 =
        { control d with mft := some m, nextMft := m + 1, mftReady := true }) ∨
      (d.setupMft o).2 = false ∧ ∃ mft n, d.nextMft ≤ n ∧ control (d.setupMft o).1 =
        { control d with mft := mft, nextMft := n } := by
  unfold H264Decoder.setupMft
  generalize [(true, o.hardware), (false, o.software)] = cs
  induction cs generalizing d with
  | nil => exact .inr ⟨rfl, d.mft, d.nextMft, le_refl _, rfl⟩
  | cons hc cs ih =>
    obtain ⟨isHw, c⟩ := hc
    unfold H264Decoder.tryCandidates
    by_cases hu : c.usable = true
    · have hcreated : c.created = true := by
        unfold Candidate.usable at hu
        simp_all
      rw [if_pos hu]
      refine .inl ⟨rfl, d.nextMft, le_refl _, ?_⟩
      simp [control, H264Decoder.create, hcreated]
    · rw [if_neg hu]
      have hle : d.nextMft ≤ (d.create c).nextMft := by
        unfold H264Decoder.create
        split <;> simp
      have hctl : ∃ mft n, control (d.create c) = { control d with mft := mft, nextMft := n } := by
        unfold H264Decoder.create
        split <;> exact ⟨_, _, rfl⟩
      obtain ⟨mft', n', hctl⟩ := hctl
      rcases ih (d := d.create c) with ⟨h2, m, hm, h1⟩ | ⟨h2, mft, n, hn, h1⟩
      · exact .inl ⟨h2, m, hle.trans hm, by rw [h1, hctl]⟩
      · exact .inr ⟨h2, mft, n, hle.trans hn, by rw [h1, hctl]⟩

/-! ## What may stand in a trace -/

/-- The event builds the transform `m` from a keyframe. -/
def Builds (m : ℕ) : Event → Prop
  | .built mft k => mft = some m ∧ k.isKeyframe = true
  | _ => False

/-- The event is a failure of `SetupMft` or of `FeedAccessUnit`. -/
def Fails : Event → Prop
  | .failed => True
  | _ => False

/-- The transform that is built or fed. -/
def eventMft : Event → Option ℕ
  | .built mft _ => mft
  | .fed mft _ => mft
  | _ => none

/-- The times of the requests, newest first. -/
def requests : List Event → List ℤ
  | [] => []
  | .requested t :: tr => t :: requests tr
  | _ :: tr => requests tr

/-- The parameter sets of `s`, if any, are `sps` and `pps`. -/
def Agrees (s : VideoSample) (sps pps : List UInt8) : Prop :=
  (s.sps ≠ [] → s.sps = sps) ∧ (s.pps ≠ [] → s.pps = pps)

/-- A sample may be fed to `m` after `past`. -/
structure MayFeed (m : ℕ) (s : VideoSample) (past : List Event) : Prop where
  first : (∀ s', .fed (some m) s' ∉ past) → s.isKeyframe = true
  agrees : s.isKeyframe = true → ∀ k, .built (some m) k ∈ past → Agrees s k.sps k.pps
  since : Since (Builds m) Fails past

/-- The event may follow `past`. -/
def Allowed : Event → List Event → Prop
  | .fed mft s, past => ∃ m, mft = some m ∧ MayFeed m s past
  | _, _ => True

/-! ## The invariant -/

/-- What holds at the steady time `now`, whether or not a transform is up. -/
structure Base (c : Control) (now : ℤ) : Prop where
  each : Each Allowed c.trace
  ids : ∀ e ∈ c.trace, ∀ m, eventMft e = some m → m < c.nextMft
  tracks : Tracks c.lastKfRequestMs (requests c.trace)
  last_le : c.lastKfRequestMs ≤ now

/-- The transform `m` is up, and the remembered parameter sets are those it was built with. -/
structure Up (c : Control) (m : ℕ) : Prop where
  mft : c.mft = some m
  since : Since (Builds m) Fails c.trace
  pair : ∀ k, .built (some m) k ∈ c.trace → k.sps = c.lastSps ∧ k.pps = c.lastPps

/-- The state between two submissions. -/
structure Inv (c : Control) (now : ℤ) : Prop extends Base c now where
  ready : c.mftReady = true → ∃ m, Up c m ∧ ∃ s, .fed (some m) s ∈ c.trace

theorem inv_initial : Inv (control initial) 0 := by
  refine ⟨⟨trivial, fun e he => ?_, tracks_nil, le_refl _⟩, fun h => ?_⟩
  · cases he
  · cases h

variable {c : Control} {m n : ℕ} {now' : ℤ}

theorem Inv.later (h : Inv c now) (hle : now ≤ now') : Inv c now' :=
  ⟨⟨h.each, h.ids, h.tracks, h.last_le.trans hle⟩, h.ready⟩

theorem lt_nextMft (h : Base c now) (hu : Up c m) : m < c.nextMft := by
  obtain ⟨e, he, hb⟩ := hu.since.exists_mem
  match e, hb with
  | .built mft k, ⟨hmft, _⟩ => exact h.ids _ he m hmft

theorem base_feed (h : Base c now) (hu : Up c m)
    (hfirst : s.isKeyframe = true ∨ ∃ s', .fed (some m) s' ∈ c.trace)
    (hagrees : s.isKeyframe = true → Agrees s c.lastSps c.lastPps) (n : UInt64) :
    Base (c.feed s n) now ∧ Up (c.feed s n) m := by
  have hmay : MayFeed m s c.trace := by
    refine ⟨?_, ?_, hu.since⟩
    · intro hno
      rcases hfirst with hk | ⟨s', hs'⟩
      · exact hk
      · exact absurd hs' (hno s')
    · intro hk k hb
      obtain ⟨hsps, hpps⟩ := hu.pair k hb
      rw [hsps, hpps]
      exact hagrees hk
  refine ⟨⟨⟨⟨m, hu.mft, hmay⟩, h.each⟩, fun e he m' hm' => ?_, h.tracks, h.last_le⟩,
    hu.mft, hu.since.keep id, fun k hk => ?_⟩
  · rcases List.mem_cons.1 he with rfl | he
    · have : m' = m := by simpa [eventMft, hu.mft, eq_comm] using hm'
      show m' < c.nextMft
      rw [this]
      exact lt_nextMft h hu
    · exact h.ids e he m' hm'
  · rcases List.mem_cons.1 hk with hk | hk
    · cases hk
    · exact hu.pair k hk

theorem up_build (h : Base c now) (hk : s.isKeyframe = true) (hm : c.nextMft ≤ m) :
    Base (c.build s m) now ∧ Up (c.build s m) m := by
  refine ⟨⟨⟨trivial, h.each⟩, fun e he m' hm' => ?_, h.tracks, h.last_le⟩,
    rfl, Since.start ⟨rfl, hk⟩, fun k hb => ?_⟩
  · show m' < m + 1
    rcases List.mem_cons.1 he with rfl | he
    · have : m = m' := by simpa [eventMft] using hm'
      omega
    · have := h.ids e he m' hm'
      omega
  · rcases List.mem_cons.1 hb with hb | hb
    · obtain ⟨-, rfl⟩ : some m = some m ∧ k = s := by simpa using hb
      exact ⟨rfl, rfl⟩
    · have := h.ids _ hb m rfl
      omega

/-! ## Requests -/

theorem mem_requests {t : ℤ} : ∀ {tr : List Event}, t ∈ requests tr → .requested t ∈ tr
  | .requested _ :: _, h => by
    rcases List.mem_cons.1 h with rfl | h
    · exact List.mem_cons_self
    · exact List.mem_cons_of_mem _ (mem_requests h)
  | .built _ _ :: _, h => List.mem_cons_of_mem _ (mem_requests h)
  | .fed _ _ :: _, h => List.mem_cons_of_mem _ (mem_requests h)
  | .failed :: _, h => List.mem_cons_of_mem _ (mem_requests h)

/-- A keyframe was requested at the time `t` or less than 500 ms before. -/
def Requested (tr : List Event) (t : ℤ) : Prop :=
  ∃ t', .requested t' ∈ tr ∧ t - kfIntervalMs < t' ∧ t' ≤ t

theorem inv_requestKeyframe (h : Base (control d) now) (hready : d.mftReady = false) :
    Inv (control (d.requestKeyframe now)) now ∧
      (kfIntervalMs ≤ now → Requested (d.requestKeyframe now).trace now) := by
  unfold H264Decoder.requestKeyframe
  split
  case isTrue hb =>
    refine ⟨⟨h, fun hr => ?_⟩, fun hnow => ?_⟩
    · rw [show d.mftReady = true from hr] at hready
      cases hready
    · obtain ⟨t, ht, hlt, hle⟩ := h.tracks.recent h.last_le hnow hb
      exact ⟨t, mem_requests ht, hlt, hle⟩
  case isFalse hb =>
    refine ⟨⟨⟨⟨trivial, h.each⟩, fun e he m hm => ?_, Tracks.accept, le_refl _⟩, fun hr => ?_⟩,
      fun _ => ⟨now, List.mem_cons_self, ?_, le_refl _⟩⟩
    · rcases List.mem_cons.1 he with rfl | he
      · cases hm
      · exact h.ids e he m hm
    · rw [show d.mftReady = true from hr] at hready
      cases hready
    · unfold kfIntervalMs
      omega

theorem base_failed (h : Base c now) : Base { c with trace := .failed :: c.trace } now := by
  refine ⟨⟨trivial, h.each⟩, fun e he m hm => ?_, h.tracks, h.last_le⟩
  rcases List.mem_cons.1 he with rfl | he
  · cases hm
  · exact h.ids e he m hm

/-! ## The submission -/

/-- The sample was accepted, or a keyframe was requested for it. -/
def Answered (d d' : H264Decoder) (now : ℤ) : Prop :=
  d'.acceptedUnits = d.acceptedUnits → kfIntervalMs ≤ now → Requested d'.trace now

theorem inv_submitUnit (h : Base (control d) now) (hu : Up (control d) m)
    (hfirst : s.isKeyframe = true ∨ ∃ s', .fed (some m) s' ∈ d.trace)
    (hagrees : s.isKeyframe = true → Agrees s d.lastSps d.lastPps) (o : FeedOutcome) :
    Inv (control (d.submitUnit s o now)) now ∧ Answered d (d.submitUnit s o now) now := by
  have hfeed := base_feed h hu hfirst hagrees
  have hvis := control_setVisible (d := d) (s := s)
  have hcases := control_feedAccessUnit (d := d.setVisible s) (s := s) o
  unfold H264Decoder.submitUnit
  split
  case h_1 d' he =>
    rw [he] at hcases
    rcases hcases with ⟨-, hctl⟩ | ⟨hf, -⟩
    · have hctl' : control d' = (control d).feed s ((d.setVisible s).acceptedUnits + 1) := by
        rw [← hvis]
        exact hctl
      obtain ⟨hb, hup⟩ := hfeed ((d.setVisible s).acceptedUnits + 1)
      rw [hctl']
      refine ⟨⟨hb, fun _ => ⟨m, hup, s, ?_⟩⟩, fun hacc => ?_⟩
      · show Event.fed (some m) s ∈ Event.fed d.mft s :: d.trace
        rw [show d.mft = some m from hu.mft]
        exact List.mem_cons_self
      · have h1 : d'.acceptedUnits = (d.setVisible s).acceptedUnits + 1 :=
          congrArg Control.acceptedUnits hctl
        have h2 : (d.setVisible s).acceptedUnits = d.acceptedUnits :=
          congrArg Control.acceptedUnits hvis
        rw [hacc, h2] at h1
        simp at h1
    · cases hf
  case h_2 d' he =>
    rw [he] at hcases
    have hbase : Base (control d') now := by
      rcases hcases with ⟨hf, -⟩ | ⟨-, hctl | ⟨n, hctl⟩⟩
      · cases hf
      · rw [hctl, hvis]
        exact h
      · rw [hctl, hvis]
        exact (hfeed n).1
    obtain ⟨hf1, hf2, hf3, hf4⟩ := base_failed hbase
    have hreset : Base (control (({ d' with decoderErrors := d'.decoderErrors + 1 }.record
        .failed).resetMft)) now := ⟨hf1, hf2, hf3, hf4⟩
    obtain ⟨hinv, hreq⟩ := inv_requestKeyframe hreset rfl
    exact ⟨hinv, fun _ => hreq⟩

theorem inv_buildAndSubmit (h : Base (control d) now) (hready : d.mftReady = false)
    (hk : s.isKeyframe = true) (o : Outcome) :
    Inv (control (d.buildAndSubmit s o now)) now ∧
      Answered d (d.buildAndSubmit s o now) now := by
  have hcases := control_setupMft (d := d) o
  unfold H264Decoder.buildAndSubmit
  split
  case h_1 d' he =>
    rw [he] at hcases
    rcases hcases with ⟨-, m, hm, hctl⟩ | ⟨hf, -⟩
    · have hmft : d'.mft = some m := congrArg Control.mft hctl
      have hacc : d'.acceptedUnits = d.acceptedUnits := congrArg Control.acceptedUnits hctl
      have hctl' : control (d'.remember s) = (control d).build s m := by
        unfold H264Decoder.remember
        rw [hmft]
        simp only [control, Control.mk.injEq] at hctl
        simp [control, Control.build, hctl]
      obtain ⟨hb, hup⟩ := up_build h hk hm
      have := inv_submitUnit (d := d'.remember s) (s := s) (m := m) (by rw [hctl']; exact hb)
        (by rw [hctl']; exact hup) (.inl hk) (fun _ => ⟨fun _ => rfl, fun _ => rfl⟩) o.feed
      refine ⟨this.1, fun ha => this.2 (ha.trans hacc.symm)⟩
    · cases hf
  case h_2 d' he =>
    rw [he] at hcases
    rcases hcases with ⟨hf, -⟩ | ⟨-, mft, n, hn, hctl⟩
    · cases hf
    · have hbase : Base (control (d'.record .failed)) now := by
        show Base { control d' with trace := .failed :: (control d').trace } now
        rw [hctl]
        refine base_failed (c := { control d with mft := mft, nextMft := n }) ?_
        exact ⟨h.each, fun e he m hm => (h.ids e he m hm).trans_le hn, h.tracks, h.last_le⟩
      have hr : (d'.record .failed).mftReady = false :=
        (congrArg Control.mftReady hctl).trans hready
      obtain ⟨hinv, hreq⟩ := inv_requestKeyframe hbase hr
      exact ⟨hinv, fun _ => hreq⟩

theorem inv_submitSample (h : Inv (control d) now) (o : Outcome) :
    Inv (control (d.submitSample s o now)) now ∧ Answered d (d.submitSample s o now) now := by
  unfold H264Decoder.submitSample
  cases hr : d.mftReady with
  | true =>
    obtain ⟨m, hup, hfed⟩ := h.ready hr
    rw [if_pos rfl]
    by_cases hc : d.Changed s ∧ s.isKeyframe = true
    · rw [if_pos hc]
      have hreset : Base (control d.resetMft) now := ⟨h.each, h.ids, h.tracks, h.last_le⟩
      exact inv_buildAndSubmit (d := d.resetMft) hreset rfl hc.2 o
    · rw [if_neg hc]
      -- the parameter sets of a keyframe are the remembered ones
      refine inv_submitUnit h.toBase hup (.inr hfed) (fun hk => ?_) o.feed
      have hno : ¬d.Changed s := fun hch => hc ⟨hch, hk⟩
      unfold H264Decoder.Changed at hno
      push Not at hno
      exact hno
  | false =>
    rw [if_neg Bool.false_ne_true]
    by_cases hk : s.isKeyframe = true
    · rw [if_pos hk]
      exact inv_buildAndSubmit h.toBase hr hk o
    · rw [if_neg hk]
      obtain ⟨hinv, hreq⟩ := inv_requestKeyframe h.toBase hr
      exact ⟨hinv, fun _ => hreq⟩

/-- **One submission** keeps the invariant and is answered, whatever the transform does. -/
theorem inv_submit (h : Inv (control d) now) (o : Outcome) :
    Inv (control (d.submit s o now)) now ∧
      (s.annexb ≠ [] → Answered d (d.submit s o now) now) := by
  unfold H264Decoder.submit
  by_cases hempty : s.annexb = []
  · rw [if_pos hempty]
    exact ⟨h, fun hne => absurd hempty hne⟩
  · rw [if_neg hempty]
    have := inv_submitSample (d := { d with samplesSubmitted := d.samplesSubmitted + 1 }) (s := s) h o
    exact ⟨this.1, fun _ => this.2⟩

/-! ## The law -/

/-- One call of `Submit`. -/
structure Submission where
  sample : VideoSample
  outcome : Outcome
  now : ℤ

def run (d : H264Decoder) (xs : List Submission) : H264Decoder :=
  xs.foldl (fun d x => d.submit x.sample x.outcome x.now) d

/-- The clock does not go back, from `t` on. -/
def Steady : ℤ → List Submission → Prop
  | _, [] => True
  | t, x :: xs => t ≤ x.now ∧ Steady x.now xs

theorem inv_before {x : Submission} {post : List Submission} : ∀ {d : H264Decoder} {t : ℤ}
    (pre : List Submission), Inv (control d) t → Steady t (pre ++ x :: post) →
    Inv (control (run d pre)) x.now
  | _, _, [], h, hs => h.later hs.1
  | _, _, y :: pre, h, hs =>
    inv_before pre (inv_submit (h.later hs.1) (s := y.sample) y.outcome).1 hs.2

theorem inv_run : ∀ {d : H264Decoder} {t : ℤ} (xs : List Submission), Inv (control d) t →
    Steady t xs → ∃ t', Inv (control (run d xs)) t'
  | _, t, [], h, _ => ⟨t, h⟩
  | _, _, x :: xs, h, hs =>
    inv_run xs (inv_submit (h.later hs.1) (s := x.sample) x.outcome).1 hs.2

theorem run_append_singleton (d : H264Decoder) (pre : List Submission) (x : Submission) :
    run d (pre ++ [x]) = (run d pre).submit x.sample x.outcome x.now := by
  simp [run]

/-- **The decoder awaits keyframes.**  In every run of `Submit`, for every behaviour of the
transforms:
a sample is only fed to a transform that was built from a keyframe, the first one fed to it is a
keyframe, and a keyframe fed to it does not change its parameter sets;
after a failure nothing is fed before a transform is built from a later keyframe;
a sample that is not accepted has a request at its time or less than 500 ms before. -/
theorem awaits_keyframe (xs : List Submission) (hs : Steady 0 xs) :
    (∀ later earlier mft s, (run initial xs).trace = later ++ .fed mft s :: earlier →
      ∃ m, mft = some m ∧ (∃ k, .built (some m) k ∈ earlier ∧ k.isKeyframe = true) ∧
        ((∀ s', .fed (some m) s' ∉ earlier) → s.isKeyframe = true) ∧
        (s.isKeyframe = true → ∀ k, .built (some m) k ∈ earlier → Agrees s k.sps k.pps)) ∧
    (∀ later mid earlier m s,
      (run initial xs).trace = later ++ .fed (some m) s :: (mid ++ .failed :: earlier) →
        ∃ k, .built (some m) k ∈ mid ∧ k.isKeyframe = true) ∧
    (∀ pre x post, xs = pre ++ x :: post → x.sample.annexb ≠ [] →
      (run initial (pre ++ [x])).acceptedUnits = (run initial pre).acceptedUnits →
      500 ≤ x.now → ∃ t, .requested t ∈ (run initial (pre ++ [x])).trace ∧
        x.now - 500 < t ∧ t ≤ x.now) := by
  obtain ⟨t, hinv⟩ := inv_run xs inv_initial hs
  refine ⟨?_, ?_, ?_⟩
  · intro later earlier mft s htr
    obtain ⟨m, rfl, hmay⟩ := hinv.each.at later htr
    obtain ⟨e, he, hb⟩ := hmay.since.exists_mem
    match e, hb with
    | .built mft k, ⟨hmft, hk⟩ =>
      exact ⟨m, rfl, ⟨k, hmft ▸ he, hk⟩, hmay.first, hmay.agrees⟩
  · intro later mid earlier m s htr
    obtain ⟨m', hm', hmay⟩ := hinv.each.at later htr
    obtain rfl : m = m' := Option.some.inj hm'
    have hfail : Fails .failed := trivial
    obtain ⟨e, he, hb⟩ := hmay.since.after mid hfail id rfl
    match e, hb with
    | .built mft k, ⟨hmft, hk⟩ => exact ⟨k, hmft ▸ he, hk⟩
  · intro pre x post hxs hne hacc hnow
    have hbefore := inv_before pre inv_initial (hxs ▸ hs)
    rw [run_append_singleton] at hacc ⊢
    exact (inv_submit hbefore x.outcome).2 hne hacc hnow

/-- A candidate that works. -/
def workingCandidate : Candidate := ⟨true, true, true, [⟨true, true⟩]⟩

/-- The transform answers the sample with `input`. -/
def answering (input : InputResult) : Outcome where
  hardware := { workingCandidate with created := false }
  software := workingCandidate
  feed := ⟨true, true, true, input, ⟨[], .needMoreInput⟩, .accepted, ⟨[], .needMoreInput⟩⟩

/-- An access unit of one slice; the header byte is that of an IDR slice in a keyframe. -/
def unit (n : UInt8) (isKeyframe : Bool) : VideoSample :=
  ⟨[0, 0, 0, 1, if isKeyframe then 0x65 else 0x41, n], [], [], -1, -1, 0, isKeyframe⟩

/-- A keyframe is decoded, the next sample fails, another is discarded and a keyframe recovers. -/
def recoveryRun : List Submission :=
  [⟨unit 1 true, answering .accepted, 1000⟩, ⟨unit 2 false, answering .failed, 1100⟩,
    ⟨unit 3 false, answering .accepted, 1200⟩, ⟨unit 4 true, answering .accepted, 1300⟩]

theorem awaits_keyframe_recoveryRun :
    ∃ t, .requested t ∈ (run initial (recoveryRun.take 3)).trace ∧ (1200 : ℤ) - 500 < t ∧
      t ≤ 1200 :=
  (awaits_keyframe recoveryRun (by simp [Steady, recoveryRun])).2.2 (recoveryRun.take 2)
    ⟨unit 3 false, answering .accepted, 1200⟩ _ rfl (by decide) (by decide) (by decide)

end OpenDisplay.Video.DecoderDiscipline
