import OpenDisplay.App.Queue
import OpenDisplay.Lib.Trace
import OpenDisplay.Lib.Transition
import OpenDisplay.Video.DecoderDiscipline

/-!
# From the read threads to the decoder

The read threads push samples into the one queue of the app, and the decode thread pops them and
submits them to the one decoder.  `OnAccept` installs a new session and touches neither: what the
earlier connection left in the queue, in the hand of the decode thread and in the decoder stays
there, and its read thread can push until it exits.

Connections are numbered from 1 in the order in which they are installed; `feeds` records, newest
first, the samples that `Submit` passed to a transform, each with the connection it was received on
and the connection installed at that time.  `Feeds` says from the state before it whether `Submit`
passes a sample on.  `Untainted` excludes the submissions of an old sample to a transform, and of a
first sample that is no keyframe to a transform that is left over; `Flushed` excludes what leads to
them.
-/

namespace OpenDisplay.App.Pipeline

open OpenDisplay.App.Queue OpenDisplay.Lib.Trace OpenDisplay.Lib.Transition
open OpenDisplay.Net.Session OpenDisplay.Video.Decoder OpenDisplay.Video.DecoderDiscipline

/-! ## What a submission feeds -/

section Feeds

variable {d : H264Decoder} {s : VideoSample} {now : ℤ}

/-- The number of samples passed to `ProcessInput`. -/
def feedCount : List Event → ℕ
  | [] => 0
  | .fed _ _ :: tr => feedCount tr + 1
  | _ :: tr => feedCount tr

/-- `Submit` passes the sample to a transform: to the one that is up, or to one that it builds for
a keyframe. -/
def Feeds (d : H264Decoder) (s : VideoSample) (o : Outcome) : Prop :=
  s.annexb ≠ [] ∧ o.feed.prepared = true ∧
    (d.mftReady = true ∧ ¬(d.Changed s ∧ s.isKeyframe = true) ∨
      s.isKeyframe = true ∧ (o.hardware.usable || o.software.usable) = true)

instance (d : H264Decoder) (s : VideoSample) (o : Outcome) : Decidable (Feeds d s o) := by
  unfold Feeds
  infer_instance

theorem trace_feedAccessUnit (o : FeedOutcome) :
    (d.feedAccessUnit s o).1.trace =
      if o.prepared then .fed d.mft s :: d.trace else d.trace := by
  have hp := congrArg Control.trace
    (control_processInput (d := d.record (.fed d.mft s)) o)
  unfold H264Decoder.feedAccessUnit
  split
  · split
    case h_1 d' he => rwa [he] at hp
    case h_2 d' he =>
      rw [he] at hp
      exact (congrArg Control.trace (control_drainOutput (d := d'.accept s) o.drain)).trans hp
    case h_3 d' r hne he => rwa [he] at hp
  · rfl

theorem feedCount_requestKeyframe :
    feedCount (d.requestKeyframe now).trace = feedCount d.trace := by
  unfold H264Decoder.requestKeyframe
  split <;> rfl

theorem mftReady_requestKeyframe : (d.requestKeyframe now).mftReady = d.mftReady := by
  unfold H264Decoder.requestKeyframe
  split <;> rfl

theorem feedCount_submitUnit (o : FeedOutcome) :
    feedCount (d.submitUnit s o now).trace =
      feedCount d.trace + if o.prepared then 1 else 0 := by
  have hvis := congrArg Control.trace (control_setVisible (d := d) (s := s))
  have hfeed := trace_feedAccessUnit (d := d.setVisible s) (s := s) o
  have htr : feedCount ((d.setVisible s).feedAccessUnit s o).1.trace =
      feedCount d.trace + if o.prepared then 1 else 0 := by
    rw [hfeed]
    split
    · exact congrArg (feedCount · + 1) hvis
    · exact congrArg feedCount hvis
  unfold H264Decoder.submitUnit
  split
  case h_1 d' he => rwa [he] at htr
  case h_2 d' he =>
    rw [he] at htr
    rw [feedCount_requestKeyframe]
    exact htr

theorem setupMft_eq (o : Outcome) :
    (d.setupMft o).2 = (o.hardware.usable || o.software.usable) ∧
      (d.setupMft o).1.trace = d.trace := by
  refine ⟨?_, ?_⟩
  · unfold H264Decoder.setupMft
    cases hh : o.hardware.usable <;> cases hs : o.software.usable <;>
      simp [H264Decoder.tryCandidates, hh, hs]
  · rcases control_setupMft (d := d) o with ⟨-, m, -, h⟩ | ⟨-, mft, n, -, h⟩
    · exact congrArg Control.trace h
    · exact congrArg Control.trace h

theorem feedCount_buildAndSubmit (o : Outcome) :
    feedCount (d.buildAndSubmit s o now).trace = feedCount d.trace +
      if o.feed.prepared = true ∧ (o.hardware.usable || o.software.usable) = true then 1 else 0 := by
  have hset := setupMft_eq (d := d) o
  unfold H264Decoder.buildAndSubmit
  split
  case h_1 d' he =>
    rw [he] at hset
    rw [feedCount_submitUnit, ← hset.1]
    have htr : feedCount d'.trace = feedCount d.trace := congrArg feedCount hset.2
    rw [show feedCount (d'.remember s).trace = feedCount d'.trace from rfl, htr]
    simp
  case h_2 d' he =>
    rw [he] at hset
    rw [feedCount_requestKeyframe, ← hset.1]
    have htr : feedCount d'.trace = feedCount d.trace := congrArg feedCount hset.2
    rw [show feedCount (d'.record .failed).trace = feedCount d'.trace from rfl, htr]
    simp

theorem feedCount_submitSample (hne : s.annexb ≠ []) (o : Outcome) :
    feedCount (d.submitSample s o now).trace =
      feedCount d.trace + if Feeds d s o then 1 else 0 := by
  unfold H264Decoder.submitSample
  cases hr : d.mftReady with
  | true =>
    rw [if_pos rfl]
    by_cases hc : d.Changed s ∧ s.isKeyframe = true
    · rw [if_pos hc, feedCount_buildAndSubmit]
      congr 1
      simp [Feeds, hne, hc]
    · rw [if_neg hc, feedCount_submitUnit]
      congr 1
      simp only [Feeds, hne, hr, hc, ne_eq, not_false_eq_true, true_and, true_or, and_true]
  | false =>
    rw [if_neg Bool.false_ne_true]
    by_cases hk : s.isKeyframe = true
    · rw [if_pos hk, feedCount_buildAndSubmit]
      congr 1
      simp [Feeds, hne, hr, hk]
    · rw [if_neg hk, feedCount_requestKeyframe]
      simp [Feeds, hr, hk]

/-- **What `Submit` feeds.** -/
theorem feedCount_submit (o : Outcome) :
    feedCount (d.submit s o now).trace = feedCount d.trace + if Feeds d s o then 1 else 0 := by
  unfold H264Decoder.submit
  by_cases hempty : s.annexb = []
  · simp [Feeds, hempty]
  · rw [if_neg hempty, feedCount_submitSample hempty]
    rfl

theorem prepared_of_mftReady (o : FeedOutcome) (h : (d.submitUnit s o now).mftReady = true) :
    o.prepared = true := by
  unfold H264Decoder.submitUnit at h
  split at h
  case h_1 d' he =>
    unfold H264Decoder.feedAccessUnit at he
    split at he
    · assumption
    · simp at he
  case h_2 d' he =>
    rw [mftReady_requestKeyframe] at h
    cases h

theorem mftReady_submit (o : Outcome) (h : (d.submit s o now).mftReady = true) :
    d.mftReady = true ∨ Feeds d s o := by
  cases hr : d.mftReady with
  | true => exact .inl rfl
  | false =>
    right
    unfold H264Decoder.submit at h
    by_cases hempty : s.annexb = []
    · rw [if_pos hempty] at h
      simp [hr] at h
    · rw [if_neg hempty] at h
      unfold H264Decoder.submitSample at h
      rw [if_neg (by simp [hr])] at h
      by_cases hk : s.isKeyframe = true
      · rw [if_pos hk] at h
        have hset := control_setupMft
          (d := { d with samplesSubmitted := d.samplesSubmitted + 1 }) o
        have hset2 := (setupMft_eq
          (d := { d with samplesSubmitted := d.samplesSubmitted + 1 }) o).1
        unfold H264Decoder.buildAndSubmit at h
        split at h
        case h_1 d' he =>
          rw [he] at hset2
          exact ⟨hempty, prepared_of_mftReady o.feed h, .inr ⟨hk, hset2.symm⟩⟩
        case h_2 d' he =>
          rw [he] at hset
          rcases hset with ⟨hf, -⟩ | ⟨-, mft, n, -, hctl⟩
          · cases hf
          · rw [mftReady_requestKeyframe] at h
            have : d'.mftReady = d.mftReady := congrArg Control.mftReady hctl
            rw [hr] at this
            rw [show (d'.record .failed).mftReady = d'.mftReady from rfl, this] at h
            cases h
      · rw [if_neg hk, mftReady_requestKeyframe] at h
        simp [hr] at h

end Feeds

/-! ## The pipeline -/

/-- A sample passed to a transform, with the connection it was received on and the connection that
was installed then. -/
structure Feed where
  connection : ℕ
  installed : ℕ
  sample : VideoSample

structure State where
  queue : VideoQueue (ℕ × VideoSample)
  /-- What `PopWait` returned and `Submit` has not yet been given. -/
  inHand : Option (ℕ × VideoSample)
  decoder : H264Decoder
  /-- The number of the connection whose session is `App::session`. -/
  installed : ℕ
  /-- The connections whose read threads run. -/
  reading : List ℕ
  feeds : List Feed

/-- Before the first connection. -/
def initial : State where
  queue := .empty
  inHand := none
  decoder := Video.Decoder.initial
  installed := 0
  reading := []
  feeds := []

inductive Label
  /-- `OnAccept` installs the next session and starts its read thread. -/
  | accept
  /-- `onVideo` on the read thread of the connection. -/
  | push (connection : ℕ) (v : VideoSample)
  /-- The read thread of the connection ends. -/
  | exit (connection : ℕ)
  | popWait
  /-- `Submit` of the sample in hand, with what the media calls and the clock return. -/
  | submit (o : Outcome) (now : ℤ)

/-- `Submit` of a sample in hand. -/
def submitInHand (st : State) (o : Outcome) (now : ℤ) (connection : ℕ) (v : VideoSample) : State :=
  let decoder := st.decoder.submit v o now
  { st with
    inHand := none
    decoder
    feeds :=
      if feedCount st.decoder.trace < feedCount decoder.trace then
        ⟨connection, st.installed, v⟩ :: st.feeds
      else st.feeds }

def step (st : State) : Label → Option State
  | .accept =>
    some { st with
      installed := st.installed + 1
      reading := (st.installed + 1) :: st.reading }
  | .push c v => when (c ∈ st.reading) { st with queue := (st.queue.push (c, v)).1 }
  | .exit c => when (c ∈ st.reading) { st with reading := st.reading.erase c }
  | .popWait =>
    when (st.inHand = none) { st with
      inHand := st.queue.popWait.1
      queue := st.queue.popWait.2 }
  | .submit o now =>
    match st.inHand with
    | none => none
    | some (c, v) => some (submitInHand st o now c v)

variable {st st' : State} {l : Label}

/-- The sample was received on the installed connection, and is a keyframe if it is the first one
of its connection. -/
def CleanFeed (f : Feed) (past : List Feed) : Prop :=
  f.connection = f.installed ∧
    ((∀ g ∈ past, g.connection ≠ f.connection) → f.sample.isKeyframe = true)

/-- A sample of an earlier connection comes to `Submit` only while no transform is up, and is no
keyframe; nor does a first sample of a connection meet a transform that is up, unless it is a
keyframe. -/
def Untainted (st : State) : Label → Prop
  | .submit _ _ => ∀ cv ∈ st.inHand, cv.2.annexb ≠ [] →
      (cv.1 ≠ st.installed → st.decoder.mftReady = false ∧ cv.2.isKeyframe = false) ∧
      ((∀ g ∈ st.feeds, g.connection ≠ cv.1) → cv.2.isKeyframe = false →
        st.decoder.mftReady = false)
  | _ => True

instance (st : State) (l : Label) : Decidable (Untainted st l) := by
  unfold Untainted
  split <;> infer_instance

/-! ## Runs -/

/-- What is fed by one submission. -/
theorem feeds_submitInHand (o : Outcome) (now : ℤ) (c : ℕ) (v : VideoSample) :
    (submitInHand st o now c v).feeds =
      if Feeds st.decoder v o then ⟨c, st.installed, v⟩ :: st.feeds else st.feeds := by
  unfold submitInHand
  dsimp only
  rw [feedCount_submit]
  by_cases hf : Feeds st.decoder v o
  · rw [if_pos hf, if_pos hf, if_pos (Nat.lt_succ_self _)]
  · rw [if_neg hf, if_neg hf, if_neg (by omega)]

theorem feeds_step (hs : step st l = some st') :
    st'.feeds = st.feeds ∨ ∃ o now c v, l = .submit o now ∧ st.inHand = some (c, v) ∧
      Feeds st.decoder v o ∧ st'.feeds = ⟨c, st.installed, v⟩ :: st.feeds := by
  cases l with
  | accept =>
    simp only [step, Option.some.injEq] at hs
    exact .inl (by rw [← hs])
  | push c v =>
    simp only [step, when_eq_some] at hs
    exact .inl (by rw [← hs.2])
  | exit c =>
    simp only [step, when_eq_some] at hs
    exact .inl (by rw [← hs.2])
  | popWait =>
    simp only [step, when_eq_some] at hs
    exact .inl (by rw [← hs.2])
  | submit o now =>
    simp only [step] at hs
    split at hs
    · cases hs
    · rename_i c v hin
      obtain rfl := Option.some.inj hs
      rw [feeds_submitInHand]
      by_cases hf : Feeds st.decoder v o
      · exact .inr ⟨o, now, c, v, rfl, hin, hf, by rw [if_pos hf]⟩
      · exact .inl (by rw [if_neg hf])

/-- A sample that is fed has bytes, and is a keyframe or meets a transform that is up. -/
theorem Feeds.cases {d : H264Decoder} {s : VideoSample} {o : Outcome} (h : Feeds d s o) :
    s.annexb ≠ [] ∧ (d.mftReady = true ∨ s.isKeyframe = true) := by
  obtain ⟨hne, -, ⟨hr, -⟩ | ⟨hk, -⟩⟩ := h
  · exact ⟨hne, .inl hr⟩
  · exact ⟨hne, .inr hk⟩

theorem clean_initial : Each CleanFeed initial.feeds := trivial

theorem clean_step (h : Each CleanFeed st.feeds) (hl : Untainted st l)
    (hs : step st l = some st') : Each CleanFeed st'.feeds := by
  rcases feeds_step hs with hfe | ⟨o, now, c, v, rfl, hin, hf, hfe⟩
  · rw [hfe]
    exact h
  · rw [hfe]
    obtain ⟨hne, hcases⟩ := hf.cases
    obtain ⟨hold, hfirst⟩ := hl (c, v) hin hne
    refine ⟨⟨?_, fun hno => ?_⟩, h⟩
    · by_contra hc
      obtain ⟨hr, hk⟩ := hold hc
      rcases hcases with h | h <;> simp_all
    · by_contra hk
      have hk' : v.isKeyframe = false := by simpa using hk
      have hr := hfirst hno hk'
      rcases hcases with h | h <;> simp_all

/-- A tainted submission whose media calls succeed feeds a sample that must not be fed. -/
theorem not_clean_of_tainted {o : Outcome} {now : ℤ} (hs : step st (.submit o now) = some st')
    (hl : ¬Untainted st (.submit o now)) (hprep : o.feed.prepared = true)
    (husable : (o.hardware.usable || o.software.usable) = true) :
    ¬Each CleanFeed st'.feeds := by
  simp only [step] at hs
  split at hs
  · cases hs
  · rename_i c v hin
    obtain rfl := Option.some.inj hs
    rw [feeds_submitInHand]
    simp only [Untainted, hin, Option.mem_def, Option.some.injEq, forall_eq'] at hl
    push Not at hl
    obtain ⟨hne, hl⟩ := hl
    have hfeeds : (st.decoder.mftReady = true ∨ v.isKeyframe = true) → Feeds st.decoder v o := by
      intro hor
      refine ⟨hne, hprep, ?_⟩
      cases hk : v.isKeyframe with
      | true => exact .inr ⟨rfl, husable⟩
      | false => exact .inl ⟨by simpa [hk] using hor, by simp⟩
    by_cases hold : c ≠ st.installed → st.decoder.mftReady = false ∧ v.isKeyframe = false
    · obtain ⟨hno, hk, hr⟩ := hl hold
      rw [if_pos (hfeeds (.inl (by simpa using hr)))]
      intro h
      have := h.1.2 hno
      simp_all
    · push Not at hold
      obtain ⟨hc, hor⟩ := hold
      have hf : st.decoder.mftReady = true ∨ v.isKeyframe = true := by
        cases hr : st.decoder.mftReady with
        | true => exact .inl rfl
        | false => exact .inr (by simpa using hor hr)
      rw [if_pos (hfeeds hf)]
      intro h
      exact hc h.1.1

/-! ## A pipeline that is flushed -/

/-- A session is installed only over an empty pipeline, and only the installed connection pushes. -/
def Flushed (st : State) : Label → Prop
  | .accept => st.queue.queue = [] ∧ st.inHand = none ∧ st.decoder.mftReady = false
  | .push c _ => c = st.installed
  | _ => True

/-- Everything in the pipeline belongs to the installed connection. -/
structure Own (st : State) : Prop where
  queue : ∀ cv ∈ st.queue.queue, cv.1 = st.installed
  inHand : ∀ cv ∈ st.inHand, cv.1 = st.installed
  decoder : st.decoder.mftReady = true → ∃ g ∈ st.feeds, g.connection = st.installed

theorem own_initial : Own initial := by
  refine ⟨?_, ?_, ?_⟩
  · intro cv h
    simp [initial, VideoQueue.empty] at h
  · intro cv h
    simp [initial] at h
  · intro h
    simp [initial, Video.Decoder.initial] at h

theorem untainted_of_own (h : Own st) : Untainted st l := by
  cases l with
  | submit o now =>
    intro cv hcv _
    have hc := h.inHand cv hcv
    constructor
    · intro hne
      exact absurd hc hne
    · intro hno _
      by_contra hr
      obtain ⟨g, hg, hgc⟩ := h.decoder (by simpa using hr)
      exact hno g hg (hgc.trans hc.symm)
  | _ => trivial

theorem own_step (h : Own st) (hl : Flushed st l) (hs : step st l = some st') : Own st' := by
  cases l with
  | accept =>
    obtain ⟨hq, hh, hr⟩ := hl
    simp only [step, Option.some.injEq] at hs
    subst hs
    refine ⟨?_, ?_, ?_⟩
    · intro cv hcv
      rw [hq] at hcv
      cases hcv
    · intro cv hcv
      rw [hh] at hcv
      cases hcv
    · intro hr'
      rw [hr] at hr'
      cases hr'
  | push c v =>
    simp only [step, when_eq_some] at hs
    obtain ⟨-, rfl⟩ := hs
    refine ⟨?_, h.inHand, h.decoder⟩
    intro cv hcv
    rcases VideoQueue.mem_push hcv with hcv | rfl
    · exact h.queue cv hcv
    · exact hl
  | exit c =>
    simp only [step, when_eq_some] at hs
    obtain ⟨-, rfl⟩ := hs
    exact ⟨h.queue, h.inHand, h.decoder⟩
  | popWait =>
    simp only [step, when_eq_some] at hs
    obtain ⟨-, rfl⟩ := hs
    cases hq : st.queue.queue with
    | nil =>
      rw [VideoQueue.popWait_nil hq]
      exact ⟨h.queue, fun cv hcv => absurd hcv (by simp), h.decoder⟩
    | cons x xs =>
      obtain ⟨h1, h2⟩ := VideoQueue.popWait_cons hq
      refine ⟨?_, ?_, h.decoder⟩
      · intro cv hcv
        rw [show (st.queue.popWait.2).queue = xs from h2] at hcv
        have hmem : cv ∈ st.queue.queue := by
          rw [hq]
          exact List.mem_cons_of_mem _ hcv
        exact h.queue cv hmem
      · intro cv hcv
        rw [Option.mem_def, h1, Option.some.injEq] at hcv
        have hmem : cv ∈ st.queue.queue := by
          rw [hq, ← hcv]
          exact List.mem_cons_self
        exact h.queue cv hmem
  | submit o now =>
    rcases hin : st.inHand with _ | ⟨c, v⟩
    · simp [step, hin] at hs
    · simp only [step, hin, Option.some.injEq] at hs
      subst hs
      refine ⟨h.queue, fun cv hcv => absurd hcv (by simp [submitInHand]), fun hr => ?_⟩
      have hc : c = st.installed := h.inHand (c, v) hin
      rw [feeds_submitInHand]
      by_cases hf : Feeds st.decoder v o
      · rw [if_pos hf]
        exact ⟨_, List.mem_cons_self, hc⟩
      · rw [if_neg hf]
        rcases mftReady_submit o hr with hr | hf'
        · exact h.decoder hr
        · exact absurd hf' hf

/-- **A flushed pipeline feeds cleanly.**  If each session is installed over an empty queue, an
idle decode thread and a decoder without a transform, and earlier read threads push nothing more,
then each connection is fed its own samples only, from a keyframe on. -/
theorem clean_of_flushed (h : Reaches step Flushed initial st) : Each CleanFeed st.feeds := by
  have hown : ∀ st, Reaches step Flushed initial st → Own st := fun _ h =>
    h.invariant own_initial fun _ _ _ ho hl hs => own_step ho hl hs
  exact h.invariant_of (I := fun st => Each CleanFeed st.feeds) hown clean_initial
    fun _ _ _ ho hc _ hs => clean_step hc (untainted_of_own ho) hs

/-! ## The law -/

/-- **What each connection starts from.**  In a run of untainted submissions, every sample fed to
a transform was received on the connection installed at that time, and the first one of each
connection is a keyframe.  A submission that is not untainted breaks this as soon as its media
calls succeed. -/
theorem feeds_clean (h : Reaches step Untainted initial st) :
    Each CleanFeed st.feeds ∧
      ∀ o now st', step st (.submit o now) = some st' → ¬Untainted st (.submit o now) →
        o.feed.prepared = true → (o.hardware.usable || o.software.usable) = true →
        ¬Each CleanFeed st'.feeds :=
  ⟨h.invariant (I := fun st => Each CleanFeed st.feeds) clean_initial
      fun _ _ _ hc hl hs => clean_step hc hl hs,
    fun _ _ _ hs hl hprep husable => not_clean_of_tainted hs hl hprep husable⟩

/-- The media calls all succeed. -/
def working : Outcome := answering .accepted

/-- A connection with a keyframe and another sample, and a second one that starts with a
keyframe. -/
def orderlyRun : List Label :=
  [.accept, .push 1 (unit 1 true), .popWait, .submit working 1000, .push 1 (unit 2 false), .popWait,
    .submit working 1010, .exit 1, .accept, .push 2 (unit 3 true), .popWait,
    .submit working 2000]

/-- A sample of the first connection waits in the queue when the second is installed, and the
second starts with a sample that is no keyframe. -/
def mixedRun : List Label :=
  [.accept, .push 1 (unit 1 true), .popWait, .submit working 1000, .push 1 (unit 2 false), .accept,
    .popWait, .submit working 2000, .push 2 (unit 3 false), .popWait, .submit working 2010]

theorem exec_orderlyRun : (exec step initial orderlyRun).isSome = true := by decide

theorem feeds_clean_orderlyRun :
    ∃ st, exec step initial orderlyRun = some st ∧
      st.feeds.map (fun f => (f.connection, f.sample.isKeyframe)) =
        [(2, true), (1, false), (1, true)] ∧ Each CleanFeed st.feeds := by
  have hst := (Option.some_get exec_orderlyRun).symm
  exact ⟨_, hst, by decide,
    (feeds_clean (reaches_of_exec orderlyRun (by decide) hst)).1⟩

theorem feeds_mixed_mixedRun :
    (exec step initial mixedRun).map
        (fun st => st.feeds.map fun f => (f.connection, f.installed, f.sample.isKeyframe)) =
      some [(2, 2, false), (1, 2, false), (1, 1, true)] := by
  decide

end OpenDisplay.App.Pipeline
