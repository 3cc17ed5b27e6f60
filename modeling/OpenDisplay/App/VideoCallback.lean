import OpenDisplay.App.Queue
import OpenDisplay.Lib.RateLimit
import OpenDisplay.Net.Session

/-!
# The `onVideo` callback: drops and keyframe requests

`onVideo` pushes a received sample into the queue of the app.  If the push drops the oldest sample,
`MaybeRequestKeyframe` asks the sender for a keyframe, at most once in 500 ms.  The state keeps, as
ghosts, the samples dropped and the requests sent, each with its time and newest first.  A session
is live throughout, so a request that passes the limiter is sent.

The sample that a request brings can itself be dropped while the limiter still holds, and no
further request follows (`swallowedRun`).  What the limiter does give is that every drop has a
request at it or less than 500 ms before it.
-/

namespace OpenDisplay.App.VideoCallback

open OpenDisplay.Lib.RateLimit OpenDisplay.Net.Session OpenDisplay.App.Queue

/-- The fields of `App` that `onVideo` touches. -/
structure Receiver where
  queue : VideoQueue VideoSample
  receivedVideo : UInt64
  lastVideoArrivalMs : ℤ
  lastSenderEncodeMs : ℤ
  lastKfSendMs : ℤ
  drops : List (VideoSample × ℤ)
  requests : List ℤ

def initial : Receiver where
  queue := .empty
  receivedVideo := 0
  lastVideoArrivalMs := 0
  lastSenderEncodeMs := -1
  lastKfSendMs := 0
  drops := []
  requests := []

/-- The interval that `onVideo` passes to `MaybeRequestKeyframe`. -/
def minIntervalMs : ℤ := 500

/-- `MaybeRequestKeyframe` at the steady time `now`. -/
def maybeRequestKeyframe (r : Receiver) (minIntervalMs now : ℤ) : Receiver :=
  if Blocked minIntervalMs r.lastKfSendMs now then r
  else { r with lastKfSendMs := now, requests := now :: r.requests }

/-- The counters of `onVideo`, and the push. -/
def receive (r : Receiver) (v : VideoSample) (now : ℤ) : Receiver :=
  { r with
    receivedVideo := r.receivedVideo + 1
    lastVideoArrivalMs := v.arrivalMs
    lastSenderEncodeMs :=
      if 0 < v.captureMs ∧ v.captureMs ≤ v.sendMs then v.sendMs - v.captureMs
      else r.lastSenderEncodeMs
    queue := (r.queue.push v).1
    drops := (r.queue.victim.map (·, now)).toList ++ r.drops }

/-- `onVideo` at the steady time `now`. -/
def onVideo (r : Receiver) (v : VideoSample) (now : ℤ) : Receiver :=
  if (r.queue.push v).2 then maybeRequestKeyframe (receive r v now) minIntervalMs now
  else receive r v now

/-- `PopWait` on the decode thread. -/
def popWait (r : Receiver) : Receiver := { r with queue := r.queue.popWait.2 }

/-- What the two threads do to the queue. -/
inductive Call
  | onVideo (v : VideoSample) (now : ℤ)
  | popWait

def call (r : Receiver) : Call → Receiver
  | .onVideo v now => onVideo r v now
  | .popWait => popWait r

def run (r : Receiver) (cs : List Call) : Receiver := cs.foldl call r

/-- The clock does not go back, from `t` on. -/
def Steady : ℤ → List Call → Prop
  | _, [] => True
  | t, .onVideo _ now :: cs => t ≤ now ∧ Steady now cs
  | t, .popWait :: cs => Steady t cs

instance decidableSteady : ∀ (t : ℤ) (cs : List Call), Decidable (Steady t cs)
  | _, [] => inferInstanceAs (Decidable True)
  | t, .onVideo _ now :: cs =>
    have := decidableSteady now cs
    inferInstanceAs (Decidable (t ≤ now ∧ Steady now cs))
  | t, .popWait :: cs => decidableSteady t cs

/-! ## The invariant -/

/-- A request was sent at `t` or less than 500 ms before. -/
def Requested (r : Receiver) (t : ℤ) : Prop :=
  ∃ t' ∈ r.requests, t - minIntervalMs < t' ∧ t' ≤ t

/-- The state at the steady time `now`. -/
structure Inv (r : Receiver) (now : ℤ) : Prop where
  tracks : Tracks r.lastKfSendMs r.requests
  last_le : r.lastKfSendMs ≤ now
  requested : ∀ d ∈ r.drops, minIntervalMs ≤ d.2 → Requested r d.2

theorem inv_initial : Inv initial 0 :=
  ⟨tracks_nil, le_refl _, fun _ h => absurd h (List.not_mem_nil)⟩

variable {r : Receiver} {v : VideoSample} {t now : ℤ}

theorem Inv.later (h : Inv r t) (hle : t ≤ now) : Inv r now :=
  ⟨h.tracks, h.last_le.trans hle, h.requested⟩

theorem inv_popWait (h : Inv r now) : Inv (popWait r) now := ⟨h.tracks, h.last_le, h.requested⟩

theorem Requested.mono {r' : Receiver} (hsub : ∀ t' ∈ r.requests, t' ∈ r'.requests) :
    Requested r t → Requested r' t := by
  rintro ⟨t', ht', hlt⟩
  exact ⟨t', hsub t' ht', hlt⟩

theorem requested_maybeRequestKeyframe (h : Tracks r.lastKfSendMs r.requests)
    (hle : r.lastKfSendMs ≤ now) (hnow : minIntervalMs ≤ now) :
    Requested (maybeRequestKeyframe r minIntervalMs now) now := by
  by_cases hb : Blocked minIntervalMs r.lastKfSendMs now
  · rw [maybeRequestKeyframe, if_pos hb]
    exact h.recent hle hnow hb
  · rw [maybeRequestKeyframe, if_neg hb]
    refine ⟨now, List.mem_cons_self, ?_, le_refl _⟩
    unfold minIntervalMs
    omega

theorem mem_requests_maybeRequestKeyframe {t' : ℤ} (ht : t' ∈ r.requests) :
    t' ∈ (maybeRequestKeyframe r minIntervalMs now).requests := by
  unfold maybeRequestKeyframe
  split
  · exact ht
  · exact List.mem_cons_of_mem _ ht

theorem drops_maybeRequestKeyframe :
    (maybeRequestKeyframe r minIntervalMs now).drops = r.drops := by
  unfold maybeRequestKeyframe
  split <;> rfl

theorem tracks_maybeRequestKeyframe (h : Tracks r.lastKfSendMs r.requests)
    (hle : r.lastKfSendMs ≤ now) :
    Tracks (maybeRequestKeyframe r minIntervalMs now).lastKfSendMs
        (maybeRequestKeyframe r minIntervalMs now).requests ∧
      (maybeRequestKeyframe r minIntervalMs now).lastKfSendMs ≤ now := by
  unfold maybeRequestKeyframe
  split
  · exact ⟨h, hle⟩
  · exact ⟨Tracks.accept, le_refl _⟩

theorem inv_onVideo (h : Inv r now) : Inv (onVideo r v now) now := by
  by_cases hf : r.queue.Full
  · obtain ⟨x, hx⟩ := VideoQueue.exists_victim hf
    have hpush : (r.queue.push v).2 = true := decide_eq_true hf
    rw [onVideo, if_pos hpush]
    obtain ⟨htr, hle⟩ := tracks_maybeRequestKeyframe (r := receive r v now) h.tracks h.last_le
    refine ⟨htr, hle, fun d hd hmin => ?_⟩
    rw [drops_maybeRequestKeyframe] at hd
    have hcases : d = (x, now) ∨ d ∈ r.drops := by simpa [receive, hx] using hd
    rcases hcases with rfl | hd
    · exact requested_maybeRequestKeyframe (r := receive r v now) h.tracks h.last_le hmin
    · exact (h.requested d hd hmin).mono fun _ => mem_requests_maybeRequestKeyframe
  · have hpush : ¬(r.queue.push v).2 = true := by
      rw [VideoQueue.push, decide_eq_true_eq]
      exact hf
    rw [onVideo, if_neg hpush]
    refine ⟨h.tracks, h.last_le, fun d hd => h.requested d ?_⟩
    simpa [receive, VideoQueue.victim, hf] using hd

theorem inv_run : ∀ {r : Receiver} {t : ℤ} (cs : List Call), Inv r t → Steady t cs →
    ∃ t', Inv (run r cs) t'
  | _, t, [], h, _ => ⟨t, h⟩
  | _, _, .onVideo _ _ :: cs, h, hs => inv_run cs (inv_onVideo (h.later hs.1)) hs.2
  | _, _, .popWait :: cs, h, hs => inv_run cs (inv_popWait h) hs

/-! ## The law -/

/-- **Every drop is answered within the limiter's interval.**  After any run of `onVideo` and
`PopWait` calls with a steady clock, a keyframe request was sent at the moment of each drop, or
less than 500 ms before it. -/
theorem requested_of_dropped (cs : List Call) (hs : Steady 0 cs) :
    ∀ d ∈ (run initial cs).drops, 500 ≤ d.2 →
      ∃ t ∈ (run initial cs).requests, d.2 - 500 < t ∧ t ≤ d.2 := by
  obtain ⟨_, h⟩ := inv_run cs inv_initial hs
  exact fun d hd hmin => h.requested d hd hmin

/-- An access unit of one slice; the header byte is that of an IDR slice in a keyframe. -/
def sample (n : UInt8) (isKeyframe : Bool) : VideoSample :=
  ⟨[0, 0, 0, 1, if isKeyframe then 0x65 else 0x41, n], [], [], -1, -1, 0, isKeyframe⟩

/-- The decode thread keeps up with all but one sample. -/
def answeredRun : List Call :=
  [.onVideo (sample 1 false) 1000, .onVideo (sample 2 false) 1010, .onVideo (sample 3 false) 1020,
    .popWait, .onVideo (sample 4 true) 1100]

/-- The keyframe that the first drop asked for is itself dropped 200 ms after the request. -/
def swallowedRun : List Call :=
  [.onVideo (sample 1 false) 1000, .onVideo (sample 2 false) 1000, .onVideo (sample 3 false) 1000,
    .onVideo (sample 4 true) 1100, .onVideo (sample 5 false) 1150, .onVideo (sample 6 false) 1200]

theorem requested_of_dropped_answeredRun :
    (sample 1 false, 1020) ∈ (run initial answeredRun).drops ∧
      ∃ t ∈ (run initial answeredRun).requests, (1020 : ℤ) - 500 < t ∧ t ≤ 1020 :=
  ⟨by decide, requested_of_dropped answeredRun (by decide) (sample 1 false, 1020)
    (by decide) (by decide)⟩

theorem request_swallowed :
    Steady 0 swallowedRun ∧ (sample 4 true, 1200) ∈ (run initial swallowedRun).drops ∧
      (∀ t ∈ (run initial swallowedRun).requests, t < 1200) ∧
      ∀ c ∈ swallowedRun.drop 4, ∀ v now, c = .onVideo v now → v.isKeyframe = false := by
  refine ⟨by decide, by decide, by decide, ?_⟩
  simp [swallowedRun, sample]

end OpenDisplay.App.VideoCallback
