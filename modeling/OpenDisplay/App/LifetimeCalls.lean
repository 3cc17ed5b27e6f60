import OpenDisplay.App.LifetimeProgress

/-! # The calls that take time

In `App.Lifetime` a call into the system is one move of its thread. Here it begins and ends, and the
other threads move in between. `SendControl` waits for `sendMutex_` of the session and has it until
`::send` has taken the whole frame or has failed; where the frame is for `App::session`, the thread has
`sessionMutex` all that time. `mdns.Start` waits in `recvfrom` for its own announcement, and `mdns.Stop`
for the worker. That these calls return is assumed: the end of a call is a move like any other.

The runs are those of `App.Lifetime` with the moves of other threads between the beginning and the end
of a call (`life_of_reaches`, `reaches_of_life`). -/

namespace OpenDisplay.App.LifetimeCalls

open OpenDisplay.Lib.Store OpenDisplay.Lib.Transition OpenDisplay.Net
open OpenDisplay.App.LifetimeProgress (Party Alive)

/-- The calls. -/
inductive Call
  /-- `SendHello` in `OnAccept`. -/
  | acceptHello
  /-- `SendHello` in `MaybeSendResizeHello`. -/
  | resizeHello
  /-- A send to `App::session`, under `sessionMutex`. -/
  | sendCurrent (t : Sessions.Thread) (m : Sessions.Message)
  /-- `SendPing` in `ReadLoop`. -/
  | readPing (i : ℕ)
  /-- `SendControl` in `HandleControl`. -/
  | readStats (i : ℕ)
  /-- `mdns.Start` in `Setup`. -/
  | advertise
  /-- `mdns.Stop` in `TearDown`. -/
  | stopMdns
  /-- `mdns.Stop` in `~MdnsAdvertiser`. -/
  | destroy
  deriving DecidableEq

/-- The call that ends with a move. -/
def ends : Lifetime.Label → Option Call
  | .net (.app (.acceptHello _)) => some .acceptHello
  | .net (.app (.resizeHello _)) => some .resizeHello
  | .net (.app (.sendCurrent t m _)) => some (.sendCurrent t m)
  | .net (.app (.readPing i _)) => some (.readPing i)
  | .net (.app (.readStats i _)) => some (.readStats i)
  | .advertise _ _ => some .advertise
  | .stopMdns => some .stopMdns
  | .destroy => some .destroy
  | _ => none

namespace Call

/-- A move with which the call ends. -/
def label : Call → Lifetime.Label
  | .acceptHello => .net (.app (.acceptHello true))
  | .resizeHello => .net (.app (.resizeHello true))
  | .sendCurrent t m => .net (.app (.sendCurrent t m true))
  | .readPing i => .net (.app (.readPing i true))
  | .readStats i => .net (.app (.readStats i true))
  | .advertise => .advertise ⟨[], [], 3, 9000⟩ ⟨[], [], none, false, false⟩
  | .stopMdns => .stopMdns
  | .destroy => .destroy

def mover (c : Call) : Party := LifetimeProgress.mover c.label

/-- The call is made under `sessionMutex`. -/
def locks : Call → Bool
  | .sendCurrent .. => true
  | _ => false

/-- The session whose `sendMutex_` the call takes. -/
def session (app : Sessions.State) : Call → Option ℕ
  | .acceptHello => app.s
  | .resizeHello => app.mainLocal
  | .sendCurrent .. => app.session
  | .readPing i | .readStats i => some i
  | .advertise | .stopMdns | .destroy => none

end Call

/-- The move takes `sessionMutex`. -/
def locks : Lifetime.Label → Bool
  | .net (.app a) => SessionProgress.locks a
  | _ => false

/-- How far a thread is with a call. -/
inductive Stage
  /-- It has `sessionMutex`, and not yet `sendMutex_`. -/
  | locked (c : Call)
  /-- The call has begun; it has `sendMutex_` of the session `v`. -/
  | begun (c : Call) (v : Option ℕ)
  deriving DecidableEq

def Stage.call : Stage → Call
  | .locked c | .begun c _ => c

structure State where
  life : Lifetime.State
  /-- The calls under way. -/
  calls : Party → Option Stage
  /-- The thread that has `sessionMutex` for a call. -/
  sender : Option Party
  /-- The owner of `sendMutex_` of each session. -/
  sendMutex_ : ℕ → Option Party

/-- A state of the app outside of all calls. -/
def atRest (life : Lifetime.State) : State := ⟨life, fun _ => none, none, fun _ => none⟩

inductive Label
  /-- `sessionMutex` is taken for the call. -/
  | lock (c : Call)
  /-- The call begins, with `sendMutex_` of its session. -/
  | begin (c : Call)
  /-- A move of `App.Lifetime`, which ends the call of the thread if it is the end of one. -/
  | move (l : Lifetime.Label)

namespace State

variable (st : State)

/-- The thread of the call stands in front of it, with `sessionMutex` if the call is made under it. -/
def Before (c : Call) : Prop :=
  if c.locks then st.calls c.mover = some (.locked c)
  else st.calls c.mover = none ∧ (Lifetime.step st.life c.label).isSome = true

instance (c : Call) : Decidable (st.Before c) := by
  unfold Before
  infer_instance

/-- `sendMutex_` of the session of the call is free. -/
def SendFree (c : Call) : Prop := ∀ i ∈ c.session st.life.net.app, st.sendMutex_ i = none

instance (c : Call) : Decidable (st.SendFree c) := by
  unfold SendFree
  infer_instance

/-- `sessionMutex` is taken for the call. -/
def lockCall (c : Call) : State :=
  { st with
    calls := Function.update st.calls c.mover (some (.locked c))
    sender := some c.mover }

/-- The call begins. -/
def beginCall (c : Call) : State :=
  { st with
    calls := Function.update st.calls c.mover (some (.begun c (c.session st.life.net.app)))
    sendMutex_ := modifyAt st.sendMutex_ (c.session st.life.net.app) fun _ => some c.mover }

/-- The call returns, and its mutexes are given back. -/
def endCall (c : Call) (v : Option ℕ) (life : Lifetime.State) : State where
  life := life
  calls := Function.update st.calls c.mover none
  sender := if c.locks then none else st.sender
  sendMutex_ := modifyAt st.sendMutex_ v fun _ => none

end State

/-- One move of one thread; `none` if the thread does not stand there or has to wait. -/
def step (st : State) : Label → Option State
  | .lock c =>
    when (c.locks = true ∧ st.calls c.mover = none ∧ st.sender = none ∧
        (Lifetime.step st.life c.label).isSome = true)
      (st.lockCall c)
  | .begin c => when (st.Before c ∧ st.SendFree c) (st.beginCall c)
  | .move l =>
    match ends l with
    | none =>
      if st.calls (LifetimeProgress.mover l) = none ∧ (locks l = true → st.sender = none) then
        (Lifetime.step st.life l).map fun life => { st with life := life }
      else none
    | some c =>
      match st.calls c.mover with
      | some (.begun c' v) =>
        if c' = c then (Lifetime.step st.life l).map (st.endCall c v) else none
      | _ => none

/-- The app before `Setup`. -/
def initial : State := atRest Lifetime.initial

variable {st st' : State} {l : Label} {c : Call} {life life' : Lifetime.State}

/-! ## The moves -/

/-- `ends` as a relation. -/
inductive Ends : Lifetime.Label → Call → Prop
  | acceptHello (ok : Bool) : Ends (.net (.app (.acceptHello ok))) .acceptHello
  | resizeHello (ok : Bool) : Ends (.net (.app (.resizeHello ok))) .resizeHello
  | sendCurrent (t : Sessions.Thread) (m : Sessions.Message) (ok : Bool) :
    Ends (.net (.app (.sendCurrent t m ok))) (.sendCurrent t m)
  | readPing (i : ℕ) (ok : Bool) : Ends (.net (.app (.readPing i ok))) (.readPing i)
  | readStats (i : ℕ) (ok : Bool) : Ends (.net (.app (.readStats i ok))) (.readStats i)
  | advertise (cfg : MdnsAdvertise.Config) (o : MdnsAdvertise.Outcome) : Ends (.advertise cfg o) .advertise
  | stopMdns : Ends .stopMdns .stopMdns
  | destroy : Ends .destroy .destroy

theorem ends_cases {a : Lifetime.Label} (h : ends a = some c) : Ends a c := by
  unfold ends at h
  split at h <;> cases h <;> constructor

theorem ends_label (c : Call) : ends c.label = some c := by
  cases c <;> rfl

section Ends

variable {a : Lifetime.Label}

theorem mover_of_ends (h : ends a = some c) : LifetimeProgress.mover a = c.mover := by
  cases ends_cases h <;> rfl

theorem locks_of_ends (h : ends a = some c) : locks a = c.locks := by
  cases ends_cases h <;> rfl

theorem admits_sendCurrent (t : Sessions.Thread) (m : Sessions.Message) (ok : Bool) :
    Lifetime.Admits life (.app (.sendCurrent t m ok)) ↔
      Lifetime.Admits life (.app (.sendCurrent t m true)) := by
  cases t <;> rfl

theorem alive_of_isSome (h : (Lifetime.step life a).isSome = true) : Alive life := by
  rw [LifetimeProgress.isSome_step] at h
  unfold Lifetime.move at h
  split at h
  · cases h
  · simp_all only [not_or]
    exact ⟨Bool.eq_false_iff.2 ‹_ ∧ _›.1, ‹_ ∧ _›.2⟩

/-- Whether a call may end does not depend on how it ends. -/
theorem isSome_of_ends (h : ends a = some c) :
    (Lifetime.step life a).isSome = (Lifetime.step life c.label).isSome := by
  by_cases ha : Alive life
  · rw [Bool.eq_iff_iff]
    cases ends_cases h
    case advertise => simp [LifetimeProgress.isSome_step, Lifetime.move, Call.label, when, apply_ite]
    case stopMdns | destroy => rfl
    case sendCurrent t m ok =>
      rw [Call.label, LifetimeProgress.isSome_app ha, LifetimeProgress.isSome_app ha,
        admits_sendCurrent t m ok]
      simp [Sessions.step, ha.app, when, apply_ite]
    all_goals
      rw [Call.label, LifetimeProgress.isSome_app ha, LifetimeProgress.isSome_app ha]
      simp [Lifetime.Admits, Sessions.step, ha.app, when, apply_ite]
  · rw [Bool.eq_false_iff.2 fun hs => ha (alive_of_isSome hs),
      Bool.eq_false_iff.2 fun hs => ha (alive_of_isSome hs)]

theorem stands_of_ends (h : ends a = some c) :
    LifetimeProgress.Stands life a ↔ LifetimeProgress.Stands life c.label := by
  have hsome : (Lifetime.step life a).isSome = (Lifetime.step life c.label).isSome := isSome_of_ends h
  cases ends_cases h
  case advertise =>
    simp only [LifetimeProgress.Stands, Call.label] at hsome ⊢
    rw [hsome]
  case stopMdns | destroy => rfl
  case sendCurrent t m ok =>
    simp [LifetimeProgress.Stands, Call.label, admits_sendCurrent t m ok, SessionProgress.Stands,
      SessionProgress.AtPoint, SessionProgress.mover]
  all_goals
    simp [LifetimeProgress.Stands, Call.label, Lifetime.Admits, SessionProgress.Stands,
      SessionProgress.AtPoint, SessionProgress.mover]

end Ends

/-- The moves as a relation. -/
inductive Moves (st : State) : Label → State → Prop
  | lock {c : Call} (hl : c.locks = true) (hc : st.calls c.mover = none) (hf : st.sender = none)
    (hs : (Lifetime.step st.life c.label).isSome = true) : Moves st (.lock c) (st.lockCall c)
  | begin {c : Call} (hb : st.Before c) (hf : st.SendFree c) : Moves st (.begin c) (st.beginCall c)
  | move {a : Lifetime.Label} {life : Lifetime.State} (he : ends a = none)
    (hc : st.calls (LifetimeProgress.mover a) = none) (hf : locks a = true → st.sender = none)
    (hs : Lifetime.step st.life a = some life) : Moves st (.move a) { st with life := life }
  | ends {a : Lifetime.Label} {life : Lifetime.State} {c : Call} {v : Option ℕ}
    (he : ends a = some c) (hc : st.calls c.mover = some (.begun c v))
    (hs : Lifetime.step st.life a = some life) : Moves st (.move a) (st.endCall c v life)

theorem step_iff : step st l = some st' ↔ Moves st l st' := by
  constructor
  · intro hs
    cases l with
    | lock c =>
      simp only [step, when_eq_some] at hs
      obtain ⟨⟨hl, hc, hf, hs⟩, rfl⟩ := hs
      exact .lock hl hc hf hs
    | begin c =>
      simp only [step, when_eq_some] at hs
      obtain ⟨⟨hb, hf⟩, rfl⟩ := hs
      exact .begin hb hf
    | move a =>
      simp only [step] at hs
      split at hs
      · simp only [Option.ite_none_right_eq_some, Option.map_eq_some_iff] at hs
        obtain ⟨⟨hc, hf⟩, life, hs, rfl⟩ := hs
        exact .move ‹_› hc hf hs
      · split at hs
        · simp only [Option.ite_none_right_eq_some, Option.map_eq_some_iff] at hs
          obtain ⟨rfl, life, hs, rfl⟩ := hs
          exact .ends ‹_› ‹_› hs
        · cases hs
  · intro hs
    cases hs
    case lock hl hc hf hs => simp [step, hl, hc, hf, hs]
    case begin hb hf => simp [step, hb, hf]
    case move he hc hf hs =>
      simp only [step, he]
      rw [if_pos ⟨hc, hf⟩, hs]
      rfl
    case ends he hc hs => simp [step, he, hc, hs]

/-! ## The runs -/

/-- The app moves as in `App.Lifetime`, or does not move. -/
theorem life_step (hs : step st l = some st') :
    st'.life = st.life ∨ ∃ a, Lifetime.step st.life a = some st'.life := by
  cases step_iff.1 hs
  case lock | begin => exact .inl rfl
  case move a life _ _ _ ha => exact .inr ⟨a, ha⟩
  case ends a life c v _ _ ha => exact .inr ⟨a, ha⟩

/-- **The runs are runs of the app.** -/
theorem life_of_reaches {ok : State → Label → Prop} (h : Reaches step ok initial st) :
    Reaches Lifetime.step (fun _ _ => True) Lifetime.initial st.life :=
  h.map State.life fun _ _ _ hs => life_step hs

theorem calls_beginCall (st : State) (c : Call) :
    (st.beginCall c).calls c.mover = some (.begun c (c.session st.life.net.app)) :=
  Function.update_self ..

theorem calls_beginCall_of_ne (st : State) {t : Party} (ht : t ≠ c.mover) :
    (st.beginCall c).calls t = st.calls t :=
  Function.update_of_ne ht ..

theorem sendMutex_beginCall (st : State) (c : Call) :
    (st.beginCall c).sendMutex_ =
      modifyAt st.sendMutex_ (c.session st.life.net.app) fun _ => some c.mover := rfl

theorem ends_beginCall (st : State) {a : Lifetime.Label} (he : ends a = some c)
    (hs : Lifetime.step st.life a = some life') :
    step (st.beginCall c) (.move a) =
      some ((st.beginCall c).endCall c (c.session st.life.net.app) life') :=
  step_iff.2 (Moves.ends he (calls_beginCall st c) hs)

/-- A call that begins and ends at once. -/
theorem endCall_beginCall (st : State) (hc : ∀ t, t ≠ c.mover → st.calls t = none)
    (hs : c.locks = false → st.sender = none) (hf : st.sendMutex_ = fun _ => none) :
    (st.beginCall c).endCall c (c.session st.life.net.app) life' = atRest life' := by
  unfold State.endCall State.beginCall atRest
  congr 1
  · funext t
    by_cases ht : t = c.mover
    · simp [ht]
    · simp [Function.update_of_ne ht, hc t ht]
  · cases hl : c.locks <;> simp_all
  · rw [modifyAt_modifyAt, hf]
    funext i
    unfold modifyAt
    split <;> rfl

/-- A move, with the call that it ends. -/
def whole (a : Lifetime.Label) : List Label :=
  match ends a with
  | none => [.move a]
  | some c => (if c.locks then [.lock c] else []) ++ [.begin c, .move a]

theorem exec_whole {a : Lifetime.Label} (hs : Lifetime.step life a = some life') :
    exec step (atRest life) (whole a) = some (atRest life') := by
  unfold whole
  split
  case h_1 he =>
    have hmove : step (atRest life) (.move a) = some (atRest life') :=
      step_iff.2 (Moves.move he rfl (fun _ => rfl) hs)
    simp [exec, hmove]
  case h_2 c he =>
    have hsome : (Lifetime.step life c.label).isSome = true := by
      rw [← isSome_of_ends he, hs]
      rfl
    cases hl : c.locks with
    | true =>
      have hlock : step (atRest life) (.lock c) = some ((atRest life).lockCall c) :=
        step_iff.2 (.lock hl rfl rfl hsome)
      have hbefore : ((atRest life).lockCall c).Before c := by
        simp [State.Before, State.lockCall, hl]
      have hbegin := step_iff.2 (Moves.begin hbefore fun _ _ => rfl)
      have hend := ends_beginCall ((atRest life).lockCall c) he hs
      rw [endCall_beginCall _ (fun t ht => Function.update_of_ne ht _ _) (by simp [hl]) rfl] at hend
      simp [exec, hlock, hbegin, hend]
    | false =>
      have hbefore : (atRest life).Before c := by simp [State.Before, atRest, hl, hsome]
      have hbegin := step_iff.2 (Moves.begin hbefore fun _ _ => rfl)
      have hend := ends_beginCall (atRest life) he hs
      rw [endCall_beginCall _ (fun _ _ => rfl) (fun _ => rfl) rfl] at hend
      simp [exec, hbegin, hend]

/-- **Every run of the app is a run**, in which each call ends before the next one begins. -/
theorem reaches_of_life
    (h : Reaches Lifetime.step (fun _ _ => True) Lifetime.initial life) :
    Reaches step (fun _ _ => True) initial (atRest life) := by
  induction h with
  | start => exact .start
  | @move life life' a _ _ hs ih =>
    exact ih.trans (reaches_of_exec (whole a) (meets_of_forall (fun _ _ _ => trivial) _) (exec_whole hs))

end OpenDisplay.App.LifetimeCalls
