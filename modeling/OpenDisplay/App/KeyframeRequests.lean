import OpenDisplay.App.VideoCallback
import OpenDisplay.Lib.Transition
import OpenDisplay.Video.DecoderRequests

/-!
# The keyframe requests of one connection

Two places ask the sender for a keyframe: `MaybeRequestKeyframe` on the read thread, when the queue
drops a sample, and `RequestKeyframe` on the decode thread, when `Submit` fails or has no transform.
Each has its own limiter of 500 ms, and both send on the current session.  The state is that of one
live session: `sent` lists the times of its `kf` messages, and `byQueue` and `byDecoder` the last of
each kind, all ghosts.

A run spaces its messages by 500 ms exactly if each trigger that passes its own limiter finds the
other one open too, where that one has been used in this session (`spaced_iff_open`).
-/

namespace OpenDisplay.App.KeyframeRequests

open OpenDisplay.Lib.RateLimit OpenDisplay.Lib.Transition OpenDisplay.Net.Session
open OpenDisplay.App.Queue OpenDisplay.App.VideoCallback
open OpenDisplay.Video.Decoder OpenDisplay.Video.DecoderDiscipline OpenDisplay.Video.DecoderRequests

structure State where
  receiver : Receiver
  decoder : H264Decoder
  /-- What `PopWait` returned to the decode thread. -/
  held : Option VideoSample
  clock : ℤ
  sent : List ℤ
  byQueue : Option ℤ
  byDecoder : Option ℤ

/-- A session starts; earlier ones have left `r` and `d` as they are. -/
def start (r : Receiver) (d : H264Decoder) (clock : ℤ) : State where
  receiver := r
  decoder := d
  held := none
  clock := clock
  sent := []
  byQueue := none
  byDecoder := none

inductive Label
  | onVideo (v : VideoSample) (now : ℤ)
  | popWait
  | submit (o : Outcome) (now : ℤ)

/-- The requests that a call added to a list of requests. -/
def added (before after : List ℤ) : List ℤ := after.take (after.length - before.length)

def step (st : State) : Label → Option State
  | .onVideo v now =>
    let r := onVideo st.receiver v now
    let new := added st.receiver.requests r.requests
    when (st.clock ≤ now)
      { st with
        receiver := r
        clock := now
        sent := new ++ st.sent
        byQueue := new.head?.or st.byQueue }
  | .popWait =>
    let p := st.receiver.queue.popWait
    when (st.held = none)
      { st with receiver := { st.receiver with queue := p.2 }, held := p.1 }
  | .submit o now =>
    match st.held with
    | none => none
    | some s =>
      let d := st.decoder.submit s o now
      let new := added (requests st.decoder.trace) (requests d.trace)
      when (st.clock ≤ now)
        { st with
          decoder := d
          held := none
          clock := now
          sent := new ++ st.sent
          byDecoder := new.head?.or st.byDecoder }

/-- A trigger that passes its own limiter finds the other limiter open too, unless that one has not
let a request through in this session. -/
def Open (st : State) : Label → Prop
  | .onVideo _ now =>
    st.receiver.queue.Full ∧ ¬Blocked minIntervalMs st.receiver.lastKfSendMs now →
      st.byDecoder = none ∨ ¬Blocked minIntervalMs st.decoder.lastKfRequestMs now
  | .popWait => True
  | .submit o now =>
    match st.held with
    | none => True
    | some s =>
      Asks st.decoder s o ∧ ¬Blocked kfIntervalMs st.decoder.lastKfRequestMs now →
        st.byQueue = none ∨ ¬Blocked kfIntervalMs st.receiver.lastKfSendMs now

instance (st : State) : ∀ l, Decidable (Open st l)
  | .onVideo _ now =>
    inferInstanceAs (Decidable (st.receiver.queue.Full ∧
      ¬Blocked minIntervalMs st.receiver.lastKfSendMs now →
        st.byDecoder = none ∨ ¬Blocked minIntervalMs st.decoder.lastKfRequestMs now))
  | .popWait => isTrue trivial
  | .submit o now =>
    match h : st.held with
    | none => isTrue (by simp [Open, h])
    | some s =>
      decidable_of_iff (Asks st.decoder s o ∧ ¬Blocked kfIntervalMs st.decoder.lastKfRequestMs now →
        st.byQueue = none ∨ ¬Blocked kfIntervalMs st.receiver.lastKfSendMs now)
        (by simp only [Open, h])

/-! ## One step -/

variable {st st' : State} {l : Label}

theorem added_self (l : List ℤ) : added l l = [] := by simp [added]

theorem added_cons (t : ℤ) (l : List ℤ) : added l (t :: l) = [t] := by simp [added]

theorem onVideo_requests (r : Receiver) (v : VideoSample) (now : ℤ) :
    ((r.queue.Full ∧ ¬Blocked minIntervalMs r.lastKfSendMs now) ∧
        (onVideo r v now).lastKfSendMs = now ∧ (onVideo r v now).requests = now :: r.requests) ∨
      ¬(r.queue.Full ∧ ¬Blocked minIntervalMs r.lastKfSendMs now) ∧
        (onVideo r v now).lastKfSendMs = r.lastKfSendMs ∧
        (onVideo r v now).requests = r.requests := by
  have hlast : (receive r v now).lastKfSendMs = r.lastKfSendMs := rfl
  by_cases hf : r.queue.Full
  · have hpush : (r.queue.push v).2 = true := decide_eq_true hf
    rw [onVideo, if_pos hpush]
    unfold maybeRequestKeyframe
    rw [hlast]
    by_cases hb : Blocked minIntervalMs r.lastKfSendMs now
    · rw [if_pos hb]
      exact .inr ⟨fun h => h.2 hb, rfl, rfl⟩
    · rw [if_neg hb]
      exact .inl ⟨⟨hf, hb⟩, rfl, rfl⟩
  · have hpush : ¬(r.queue.push v).2 = true := by
      rw [VideoQueue.push, decide_eq_true_eq]
      exact hf
    rw [onVideo, if_neg hpush]
    exact .inr ⟨fun h => hf h.1, rfl, rfl⟩

theorem submit_requests (d : H264Decoder) (s : VideoSample) (o : Outcome) (now : ℤ) :
    ((Asks d s o ∧ ¬Blocked kfIntervalMs d.lastKfRequestMs now) ∧
        (d.submit s o now).lastKfRequestMs = now ∧
        requests (d.submit s o now).trace = now :: requests d.trace) ∨
      ¬(Asks d s o ∧ ¬Blocked kfIntervalMs d.lastKfRequestMs now) ∧
        (d.submit s o now).lastKfRequestMs = d.lastKfRequestMs ∧
        requests (d.submit s o now).trace = requests d.trace := by
  have hkf := kf_submit d s o now
  by_cases hasks : Asks d s o
  · rw [if_pos hasks] at hkf
    by_cases hb : Blocked kfIntervalMs d.lastKfRequestMs now
    · rw [attempt_blocked hb] at hkf
      exact .inr ⟨fun h => h.2 hb, congrArg Prod.fst hkf, congrArg Prod.snd hkf⟩
    · rw [attempt_open hb] at hkf
      exact .inl ⟨⟨hasks, hb⟩, congrArg Prod.fst hkf, congrArg Prod.snd hkf⟩
  · rw [if_neg hasks] at hkf
    exact .inr ⟨fun h => hasks h.1, congrArg Prod.fst hkf, congrArg Prod.snd hkf⟩

/-- The ghosts agree with the limiters. -/
structure Inv (st : State) : Prop where
  covers : Covers st.byQueue st.byDecoder st.sent
  queue : ∀ x ∈ st.byQueue, x = st.receiver.lastKfSendMs
  decoder : ∀ x ∈ st.byDecoder, x = st.decoder.lastKfRequestMs
  le : ∀ t ∈ st.sent, t ≤ st.clock

theorem inv_start (r : Receiver) (d : H264Decoder) (clock : ℤ) : Inv (start r d clock) where
  covers := covers_nil
  queue := by simp [start]
  decoder := by simp [start]
  le := by simp [start]

theorem open_iff {by' : Option ℤ} {stamp interval now : ℤ} (h : ∀ x ∈ by', x = stamp) :
    (∀ x ∈ by', interval ≤ now - x) ↔ by' = none ∨ ¬Blocked interval stamp now := by
  unfold Blocked
  cases by' with
  | none => simp
  | some x =>
    have hx : x = stamp := h x rfl
    simp [hx]

theorem Inv.le_cons {now : ℤ} (hi : Inv st) (hclock : st.clock ≤ now) :
    ∀ t ∈ now :: st.sent, t ≤ now := by
  intro t ht
  rcases List.mem_cons.1 ht with rfl | ht
  · exact le_refl t
  · exact (hi.le t ht).trans hclock

theorem step_onVideo (hi : Inv st) {v : VideoSample} {now : ℤ}
    (hs : step st (.onVideo v now) = some st') :
    Inv st' ∧ (Spaced minIntervalMs st.sent →
      (Spaced minIntervalMs st'.sent ↔ Open st (.onVideo v now))) := by
  obtain ⟨hclock, rfl⟩ := when_eq_some.1 hs
  rcases onVideo_requests st.receiver v now with ⟨hpass, hlast, hreq⟩ | ⟨hpass, hlast, hreq⟩
  · have hnew : added st.receiver.requests (onVideo st.receiver v now).requests = [now] := by
      rw [hreq, added_cons]
    have hown : ∀ x ∈ st.byQueue, minIntervalMs ≤ now - x := (open_iff hi.queue).2 (.inr hpass.2)
    have hle : ∀ x ∈ st.byQueue, x ≤ now := fun x hx =>
      Int.le_trans (hi.le x (hi.covers.left x hx)) hclock
    simp only [hnew]
    refine ⟨⟨hi.covers.accept hle, ?_, hi.decoder, ?_⟩, ?_⟩
    · rintro x ⟨⟩
      exact hlast.symm
    · exact hi.le_cons hclock
    · intro hp
      have hiff := (hi.covers.spaced_iff hp hown).trans (open_iff hi.decoder)
      exact hiff.trans (imp_iff_right hpass).symm
  · have hnew : added st.receiver.requests (onVideo st.receiver v now).requests = [] := by
      rw [hreq, added_self]
    simp only [hnew]
    refine ⟨⟨hi.covers, ?_, hi.decoder, ?_⟩, ?_⟩
    · intro x hx
      exact (hi.queue x hx).trans hlast.symm
    · intro t ht
      exact (hi.le t ht).trans hclock
    · intro hp
      exact ⟨fun _ h => absurd h hpass, fun _ => hp⟩

theorem step_submit (hi : Inv st) {o : Outcome} {now : ℤ}
    (hs : step st (.submit o now) = some st') :
    Inv st' ∧ (Spaced minIntervalMs st.sent →
      (Spaced minIntervalMs st'.sent ↔ Open st (.submit o now))) := by
  simp only [step] at hs
  split at hs
  · cases hs
  rename_i s hheld
  obtain ⟨hclock, rfl⟩ := when_eq_some.1 hs
  have hopen : Open st (.submit o now) ↔
      (Asks st.decoder s o ∧ ¬Blocked kfIntervalMs st.decoder.lastKfRequestMs now →
        st.byQueue = none ∨ ¬Blocked kfIntervalMs st.receiver.lastKfSendMs now) := by
    simp only [Open, hheld]
  rw [hopen]
  rcases submit_requests st.decoder s o now with ⟨hpass, hlast, hreq⟩ | ⟨hpass, hlast, hreq⟩
  · have hnew : added (requests st.decoder.trace) (requests (st.decoder.submit s o now).trace) =
        [now] := by
      rw [hreq, added_cons]
    have hown : ∀ x ∈ st.byDecoder, minIntervalMs ≤ now - x :=
      (open_iff hi.decoder).2 (.inr hpass.2)
    have hle : ∀ x ∈ st.byDecoder, x ≤ now := fun x hx =>
      Int.le_trans (hi.le x (hi.covers.right x hx)) hclock
    simp only [hnew]
    refine ⟨⟨(hi.covers.symm.accept hle).symm, hi.queue, ?_, ?_⟩, ?_⟩
    · rintro x ⟨⟩
      exact hlast.symm
    · exact hi.le_cons hclock
    · intro hp
      have hiff := (hi.covers.symm.spaced_iff hp hown).trans (open_iff hi.queue)
      rw [imp_iff_right hpass]
      exact hiff
  · have hnew : added (requests st.decoder.trace) (requests (st.decoder.submit s o now).trace) =
        [] := by
      rw [hreq, added_self]
    simp only [hnew]
    refine ⟨⟨hi.covers, hi.queue, ?_, ?_⟩, ?_⟩
    · intro x hx
      exact (hi.decoder x hx).trans hlast.symm
    · intro t ht
      exact (hi.le t ht).trans hclock
    · intro hp
      exact ⟨fun _ h => absurd h hpass, fun _ => hp⟩

/-- Messages that were sent too close to each other stay in the list. -/
theorem spaced_of_step (hs : step st l = some st') (hp : Spaced minIntervalMs st'.sent) :
    Spaced minIntervalMs st.sent := by
  cases l with
  | onVideo v now =>
    obtain ⟨-, rfl⟩ := when_eq_some.1 hs
    exact (List.pairwise_append.1 hp).2.1
  | popWait =>
    obtain ⟨-, rfl⟩ := when_eq_some.1 hs
    exact hp
  | submit o now =>
    simp only [step] at hs
    split at hs
    · cases hs
    · obtain ⟨-, rfl⟩ := when_eq_some.1 hs
      exact (List.pairwise_append.1 hp).2.1

/-- A step keeps the messages spaced exactly if it meets the condition. -/
theorem step_spaced (hi : Inv st) (hs : step st l = some st') :
    Inv st' ∧ (Spaced minIntervalMs st'.sent → Spaced minIntervalMs st.sent) ∧
      (Spaced minIntervalMs st.sent → (Spaced minIntervalMs st'.sent ↔ Open st l)) := by
  have hback := spaced_of_step hs
  cases l with
  | onVideo v now =>
    obtain ⟨hi', hiff⟩ := step_onVideo hi hs
    exact ⟨hi', hback, hiff⟩
  | popWait =>
    obtain ⟨-, rfl⟩ := when_eq_some.1 hs
    refine ⟨⟨hi.covers, hi.queue, hi.decoder, hi.le⟩, hback, ?_⟩
    intro hp
    exact ⟨fun _ => trivial, fun _ => hp⟩
  | submit o now =>
    obtain ⟨hi', hiff⟩ := step_submit hi hs
    exact ⟨hi', hback, hiff⟩

/-! ## The law -/

/-- **Keyframe requests are 500 ms apart exactly while the two limiters do not cross.**  In every
run on one live session, any two `kf` messages are at least 500 ms apart if and only if each trigger
that passes its own limiter also finds the other limiter open, once that one has let a request
through in this session. -/
theorem spaced_iff_open (r : Receiver) (d : H264Decoder) (clock : ℤ) (ls : List Label)
    (h : exec step (start r d clock) ls = some st) :
    Spaced 500 st.sent ↔ Meets step Open (start r d clock) ls :=
  holds_iff_meets (fun _ _ _ => step_spaced) ls (inv_start r d clock) List.Pairwise.nil h

/-- The queue drops a sample, and the next one reaches a decoder without a transform `wait` ms
later. -/
def dropAndUnready (wait : ℤ) : List Label :=
  [.onVideo (sample 1 false) 1000, .onVideo (sample 2 false) 1000, .onVideo (sample 3 false) 1000,
    .popWait, .submit (answering .accepted) (1000 + wait)]

theorem spaced_iff_open_dropAndUnready :
    ∃ st, exec step (start VideoCallback.initial Video.Decoder.initial 0) (dropAndUnready 600) = some st ∧
      st.sent = [1600, 1000] ∧
      (Spaced 500 st.sent ↔
        Meets step Open (start VideoCallback.initial Video.Decoder.initial 0) (dropAndUnready 600)) :=
  ⟨_, (Option.some_get (by decide)).symm, by decide,
    spaced_iff_open _ _ _ _ (Option.some_get (by decide)).symm⟩

/-- **Two requests 1 ms apart.**  The read thread asks for a keyframe at 1000 ms and
the decode thread at 1001 ms. -/
theorem dropAndUnready_bursts :
    ∃ st, exec step (start VideoCallback.initial Video.Decoder.initial 0) (dropAndUnready 1) = some st ∧
      st.sent = [1001, 1000] ∧ ¬Spaced 500 st.sent := by
  have hsent : ((exec step (start VideoCallback.initial Video.Decoder.initial 0)
      (dropAndUnready 1)).get (by decide)).sent = [1001, 1000] := by
    decide
  refine ⟨_, (Option.some_get (by decide)).symm, hsent, ?_⟩
  rw [hsent]
  simp [Spaced]

end OpenDisplay.App.KeyframeRequests
