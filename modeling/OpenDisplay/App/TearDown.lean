import OpenDisplay.App.SessionJoins
import OpenDisplay.App.SessionOwnership
import OpenDisplay.Net.TcpListener

/-!
# What TearDown leaves behind

The app and its listener together.  The accept loop calls `OnAccept`, whose first move is the copy
of `App::session`, and waits for it to return; `TearDown` takes the session out of the app, destroys
it and calls `TcpListener::Stop` when it is done with that.  The decode thread, which `TearDown`
joins in between, and the rest of what it releases have no part in the sessions.  A `Setup` that
fails before it has a listener thread calls `TearDown` on its own; then there is nothing to tear
down, for `main` as well.

Between the two ends of `TearDown` connections are still accepted.  `Orderly` says of a move that it
does not install one of these as the current session, and that it leaves an owner to a session whose
callback runs; `leavesNone_iff_orderly` says that it comes to this and to nothing else.
-/

namespace OpenDisplay.App.TearDown

open OpenDisplay.Lib.Store OpenDisplay.Lib.Transition OpenDisplay.Net
open OpenDisplay.App.SessionMoves OpenDisplay.App.SessionCount OpenDisplay.App.SessionJoins
open OpenDisplay.App.SessionOwnership

/-! ## The system -/

structure State where
  app : Sessions.State
  /-- `App::listener`. -/
  listener : TcpListener.State

def initial : State := ⟨Sessions.initial, TcpListener.initial⟩

inductive Label
  | app (l : Sessions.Label)
  | listener (l : TcpListener.Label)
  deriving DecidableEq, Repr

/-- Where the threads of the app stand when the listener makes a move: `Setup` calls `Start`,
`OnAccept` returns, `TearDown` calls `Stop` when `s.reset()` is done.  `call` is a move of both. -/
def Stands (app : Sessions.State) : TcpListener.Label → Prop
  | .start => app.main = .idle
  | .call => False
  | .handled => app.listener = .idle ∧ app.Free .listener
  | .stop => app.main = .stopped ∧ app.Free .main
  | _ => True

instance (app : Sessions.State) (l : TcpListener.Label) : Decidable (Stands app l) := by
  unfold Stands
  split <;> infer_instance

def step (st : State) : Label → Option State
  | .app l => (Sessions.step st.app l).bind fun app =>
    if l = .acceptCopy then (TcpListener.step st.listener .call).map (State.mk app)
    else some ⟨app, st.listener⟩
  | .listener l =>
    if st.app.terminated then none
    else if Stands st.app l then (TcpListener.step st.listener l).map (State.mk st.app)
    else none

/-- The promise of `TearDown`: the app has no session, and no read thread is running. -/
def LeavesNone (app : Sessions.State) : Prop :=
  app.session = none ∧ ∀ i, live (app.sessions i).reader = false

/-- `TearDown` has taken the session out of the app. -/
def Taken (app : Sessions.State) : Prop :=
  app.main = .tearing ∨ app.main = .tornDown ∨ app.main = .stopped

instance (app : Sessions.State) : Decidable (Taken app) := by
  unfold Taken
  infer_instance

/-- The move does not install a session that `TearDown` will not take any more, and does not leave
a session to a callback that runs on its read thread. -/
def Orderly (st : State) : Label → Prop
  | .app l => (l = .acceptAssign → ¬Taken st.app) ∧ LeavesOwner st.app l
  | .listener _ => True

instance (st : State) (l : Label) : Decidable (Orderly st l) := by
  unfold Orderly
  split <;> infer_instance

variable {st st' : State} {l : Label}

/-- The app moves, with the listener where `OnAccept` is entered, or the listener moves alone. -/
theorem step_cases (hs : step st l = some st') :
    (∃ a, l = .app a ∧ Sessions.step st.app a = some st'.app ∧
      (a = .acceptCopy ∧ TcpListener.step st.listener .call = some st'.listener ∨
        a ≠ .acceptCopy ∧ st'.listener = st.listener)) ∨
    ∃ n, l = .listener n ∧ Stands st.app n ∧ st'.app = st.app ∧
      TcpListener.step st.listener n = some st'.listener := by
  cases l with
  | app a =>
    simp only [step, Option.bind_eq_some_iff] at hs
    obtain ⟨app, ha, hs⟩ := hs
    refine .inl ⟨a, rfl, ?_⟩
    split at hs
    · obtain ⟨n, hn, rfl⟩ := Option.map_eq_some_iff.1 hs
      exact ⟨ha, .inl ⟨‹_›, hn⟩⟩
    · obtain rfl := Option.some.inj hs
      exact ⟨ha, .inr ⟨‹_›, rfl⟩⟩
  | listener n =>
    simp only [step, Option.ite_none_left_eq_some] at hs
    obtain ⟨-, hs⟩ := hs
    split at hs
    · obtain ⟨n', hn, rfl⟩ := Option.map_eq_some_iff.1 hs
      exact .inr ⟨n, rfl, ‹_›, rfl, hn⟩
    · cases hs

/-- The app of a run is the app of a run of its own. -/
theorem reaches_app {ok : State → Label → Prop} (h : Reaches step ok initial st) :
    Reaches Sessions.step (fun _ _ => True) Sessions.initial st.app :=
  h.map State.app fun s l s' hs => by
    rcases step_cases hs with ⟨a, -, ha, -⟩ | ⟨-, -, -, ha, -⟩
    · exact .inr ⟨a, ha⟩
    · exact .inl ha

theorem reaches_listener {ok : State → Label → Prop} (h : Reaches step ok initial st) :
    Reaches TcpListener.step (fun _ _ => True) TcpListener.initial st.listener :=
  h.map State.listener fun s l s' hs => by
    rcases step_cases hs with ⟨-, -, -, ⟨-, hn⟩ | ⟨-, hn⟩⟩ | ⟨n, -, -, -, hn⟩
    · exact .inr ⟨_, hn⟩
    · exact .inl hn
    · exact .inr ⟨n, hn⟩

/-! ## The moves of the app -/

section App

variable {app app' : Sessions.State} {a : Sessions.Label} {k : ℕ}

theorem outside_step (hs : Sessions.step app a = some app') (ha : a ≠ .acceptCopy)
    (h : app.listener = .idle ∧ app.Free .listener) :
    app'.listener = .idle ∧ app'.Free .listener := by
  obtain ⟨hl, hf⟩ := h
  have hidle : app'.listener = .idle ∧ releaser a ≠ some .listener := by
    cases a <;>
      simp only [Sessions.step, Option.ite_none_left_eq_some, when_eq_some,
        Sessions.State.modify, Sessions.State.release] at hs <;>
      obtain ⟨-, hE, rfl⟩ := hs
    case reapTake => split <;> simp_all [releaser]
    all_goals simp_all [releaser]
  exact ⟨hidle.1, free_step hs hidle.2 hf⟩

theorem stopped_step (hs : Sessions.step app a = some app')
    (h : app.main = .stopped ∧ app.Free .main) : app'.main = .stopped ∧ app'.Free .main := by
  obtain ⟨hm, hf⟩ := h
  have hstopped : app'.main = .stopped ∧ releaser a ≠ some .main := by
    cases a <;>
      simp only [Sessions.step, Option.ite_none_left_eq_some, when_eq_some,
        Sessions.State.modify, Sessions.State.release] at hs <;>
      obtain ⟨-, hE, rfl⟩ := hs
    all_goals simp_all [releaser]
  exact ⟨hstopped.1, free_step hs hstopped.2 hf⟩

/-- After `TearDown` took the session, the assignment of `OnAccept` is what brings one back. -/
theorem taken_step (hs : Sessions.step app a = some app') :
    (a = .acceptAssign ∧ app.listener = .made ∧ app'.session = app.s ∧
      (Taken app' ↔ Taken app)) ∨
    (a ≠ .acceptAssign ∧ Taken app ∧ Taken app' ∧ app'.session = app.session) ∨
    a ≠ .acceptAssign ∧ ¬Taken app ∧ (Taken app' → app'.session = none) := by
  unfold Taken
  cases a <;>
    simp only [Sessions.step, Option.ite_none_left_eq_some, when_eq_some,
      Sessions.State.modify, Sessions.State.release] at hs <;>
    obtain ⟨-, hE, rfl⟩ := hs
  case acceptAssign => exact .inl ⟨rfl, hE.1, rfl, Iff.rfl⟩
  case mainDrop => rcases hE with hE | hE | hE <;> simp [hE, Sessions.MainPc.afterDrop]
  case reapTake => split <;> simp_all
  case tearTake => simp_all
  case resizeCopy =>
    refine .inr (.inr ⟨by simp, by simp [hE], fun ht => ?_⟩)
    dsimp only at ht
    split at ht <;> simp at ht
  all_goals
    refine .inr ?_
    by_cases ht : app.main = .tearing ∨ app.main = .tornDown ∨ app.main = .stopped
    · simp_all
    · simp_all

theorem live_of_terminated (hs : Sessions.step app a = some app') (h : app'.terminated = true) :
    ∃ i, live (app'.sessions i).reader = true := by
  have ha := alive_of_step hs
  cases a <;>
    simp only [Sessions.step, Option.ite_none_left_eq_some, when_eq_some,
      Sessions.State.modify, Sessions.State.release] at hs <;>
    obtain ⟨-, hE, rfl⟩ := hs
  case readControlDone i | closedDrop i => exact ⟨i, by simp [live]⟩
  case reapTake => split at h <;> simp_all
  all_goals simp_all [Option.any_eq_true]

theorem live_of_ended {ok : Sessions.State → Sessions.Label → Prop}
    (h : Reaches Sessions.step ok Sessions.initial app) :
    app.terminated = true → ∃ i, live (app.sessions i).reader = true :=
  h.invariant (I := fun app =>
    app.terminated = true → ∃ i, live (app.sessions i).reader = true)
    (fun h0 => by cases h0) fun _ _ _ _ _ hs => live_of_terminated hs

/-! ## The law that no move repairs -/

/-- No callback has the only reference to its session, the process goes on, and the app is without a
session once `TearDown` has taken it. -/
structure Sound (app : Sessions.State) : Prop where
  shared : ∀ i, (app.sessions i).reader.holds = true → 1 < (app.sessions i).refs
  alive : app.terminated = false
  vacant : Taken app → app.session = none

theorem sound_initial : Sound Sessions.initial := by
  refine ⟨fun i hi => ?_, rfl, fun _ => rfl⟩
  simp [Sessions.initial, Sessions.Session.blank, Sessions.ReaderPc.holds] at hi

theorem unshared_step (hI : SessionCount.Inv app) (hs : Sessions.step app a = some app')
    (hh : (app.sessions k).reader.holds = true) (hle : (app.sessions k).refs ≤ 1) :
    app'.terminated = true ∨
      (app'.sessions k).reader.holds = true ∧ (app'.sessions k).refs ≤ 1 := by
  have hc := hI.counted k
  rw [owners, hh, Bool.toNat_true] at hc
  have hv : references app k = 0 := by omega
  by_cases ht : target app a = some k
  · cases a
    case readControlDone | closedDrop =>
      cases ht
      exact .inl (terminated_of_releaser hs rfl ⟨k, rfl, by omega⟩)
    case readStats =>
      right
      rw [sessions_step_of_eq hs ht]
      simpa [effect] using ⟨hh, hle⟩
    case closedRecord =>
      right
      rw [sessions_step_of_eq hs ht]
      simpa [effect, Sessions.ReaderPc.holds] using hle
    case readPing | readControl | readEnd | closedLock | closedResolve | closedUnlock =>
      cases ht
      rw [reader_of_step hs rfl] at hh
      cases hh
    case acceptMake =>
      obtain rfl := Option.some.inj ht
      rw [(hI.fresh _ (Nat.le_refl _)).2] at hh
      cases hh
    case joined =>
      simp only [Sessions.step, Option.ite_none_left_eq_some, when_eq_some] at hs
      obtain ⟨-, ⟨i, hi, hr⟩, -⟩ := hs
      obtain rfl : i = k := Option.some.inj (hi.symm.trans ht)
      have := live_of_holds hh
      rw [live_eq_false.2 hr] at this
      cases this
    case acceptUnlock | reapTake | tearTake => cases ht
    -- the other targets are variables, and none of them refers to `k`
    all_goals
      have h1 := owns_eq_one ht
      rw [references] at hv
      simp only [target] at h1
      omega
  · rw [sessions_step_of_ne hs ht]
    exact .inr ⟨hh, hle⟩

theorem not_sound_of_late (hI : SessionCount.Inv app)
    (hs : Sessions.step app .acceptAssign = some app') (ht : Taken app) : ¬Sound app' := by
  intro h
  rcases taken_step hs with ⟨-, hm, hse, ht'⟩ | ⟨hn, -⟩ | ⟨hn, -⟩
  · obtain ⟨i, hi, -⟩ := hI.unstarted (.inl hm)
    have := h.vacant (ht'.2 ht)
    rw [hse, Option.mem_def.1 hi] at this
    cases this
  · exact hn rfl
  · exact hn rfl

theorem sound_of_step (hI : SessionCount.Inv app) (hs : Sessions.step app a = some app')
    (h : Sound app') : Sound app := by
  refine ⟨fun i hi => ?_, alive_of_step hs, fun ht => ?_⟩
  · by_contra hle
    rcases unshared_step hI hs hi (by omega) with ht | ⟨hi', hle'⟩
    · simp [h.alive] at ht
    · have := h.shared i hi'
      omega
  · rcases taken_step hs with ⟨rfl, -⟩ | ⟨-, -, ht', hse⟩ | ⟨-, hn, -⟩
    · exact absurd h (not_sound_of_late hI hs ht)
    · rw [← hse]
      exact h.vacant ht'
    · exact absurd ht hn

theorem sound_step (hI : SessionCount.Inv app) (h : Sound app)
    (ha : a = .acceptAssign → ¬Taken app) (hl : LeavesOwner app a)
    (hs : Sessions.step app a = some app') : Sound app' := by
  refine ⟨fun i => shared_step hI (h.shared i) hl hs, ?_, fun ht => ?_⟩
  · by_contra hterm
    rcases terminated_step hs (by simpa using hterm) with ht | ⟨i, hi, h1⟩
    · simp [h.alive] at ht
    · have := h.shared i hi
      omega
  · rcases taken_step hs with ⟨he, -, -, ht'⟩ | ⟨-, ht0, -, hse⟩ | ⟨-, -, hn⟩
    · exact absurd (ht'.1 ht) (ha he)
    · rw [hse]
      exact h.vacant ht0
    · exact hn ht

/-- **A move keeps the law if and only if it is orderly.** -/
theorem sound_step_iff (hI : SessionCount.Inv app) (h : Sound app)
    (hs : Sessions.step app a = some app') :
    Sound app' ↔ (a = .acceptAssign → ¬Taken app) ∧ LeavesOwner app a := by
  refine ⟨fun h' => ⟨?_, ?_⟩, fun ⟨ha, hl⟩ => sound_step hI h ha hl hs⟩
  · rintro rfl ht
    exact not_sound_of_late hI hs ht h'
  · by_contra hl
    obtain ⟨i, hi, h1, -⟩ := last_of_not_leavesOwner hI hl hs
    have := h'.shared i hi
    omega

/-- The law at the end of a run, in terms of its moves. -/
theorem sound_iff_meets {ls : List Label} (h : exec step initial ls = some st) :
    Sound st.app ↔ Meets step Orderly initial ls := by
  refine holds_iff_meets (I := Reaches step (fun _ _ => True) initial) (P := fun st => Sound st.app)
    ?_ ls .start sound_initial h
  intro s l s' hr hs
  have hI := inv_of_reaches (reaches_app hr)
  refine ⟨hr.move l trivial hs, ?_⟩
  rcases step_cases hs with ⟨a, rfl, ha, -⟩ | ⟨n, rfl, -, ha, -⟩
  · exact ⟨sound_of_step hI ha, fun hP => sound_step_iff hI hP ha⟩
  · rw [ha]
    exact ⟨id, fun hP => iff_of_true hP trivial⟩

end App

/-! ## The end of TearDown -/

theorem outside_move (hs : step st l = some st')
    (h : st.listener.thread_ ≠ .handling → st.app.listener = .idle ∧ st.app.Free .listener) :
    st'.listener.thread_ ≠ .handling → st'.app.listener = .idle ∧ st'.app.Free .listener := by
  intro ht
  rcases step_cases hs with ⟨a, -, ha, ⟨-, hn⟩ | ⟨hne, hn⟩⟩ | ⟨n, -, hst, ha, hn⟩
  · exact absurd (TcpListener.call_step hn) ht
  · exact outside_step ha hne (h (hn ▸ ht))
  · rw [ha]
    by_cases hh : n = .handled
    · rw [hh] at hst
      exact hst
    · exact h (TcpListener.handling_step hn hh ht)

/-- While the accept loop is not in `OnAccept`, its thread holds nothing and waits for nothing. -/
theorem outside_of_reaches {ok : State → Label → Prop} (h : Reaches step ok initial st) :
    st.listener.thread_ ≠ .handling → st.app.listener = .idle ∧ st.app.Free .listener :=
  h.invariant (I := fun st =>
    st.listener.thread_ ≠ .handling → st.app.listener = .idle ∧ st.app.Free .listener)
    (fun _ => ⟨rfl, rfl⟩) fun _ _ _ hi _ hs => outside_move hs hi

theorem stopped_of_reaches {ok : State → Label → Prop} (h : Reaches step ok initial st) :
    st.listener.stop ≠ .notCalled → st.app.main = .stopped ∧ st.app.Free .main := by
  refine h.invariant (I := fun st =>
    st.listener.stop ≠ .notCalled → st.app.main = .stopped ∧ st.app.Free .main)
    (fun hn => absurd rfl hn) fun s l s' hi _ hs ht => ?_
  rcases step_cases hs with ⟨a, -, ha, ⟨-, hn⟩ | ⟨-, hn⟩⟩ | ⟨n, -, hst, ha, hn⟩
  · exact stopped_step ha (hi (TcpListener.stop_step hn (by simp) ht))
  · exact stopped_step ha (hi (hn ▸ ht))
  · rw [ha]
    by_cases hh : n = .stop
    · rw [hh] at hst
      exact hst
    · exact hi (TcpListener.stop_step hn hh ht)

/-- **What TearDown leaves, in a state.** -/
theorem leavesNone_iff_sound {ok : State → Label → Prop} (h : Reaches step ok initial st)
    (hr : st.listener.stop = .returned) : LeavesNone st.app ↔ Sound st.app := by
  have happ := reaches_app h
  obtain ⟨hmain, hfm⟩ := stopped_of_reaches h (by simp [hr])
  constructor
  · rintro ⟨hnone, hdead⟩
    refine ⟨fun i hi => ?_, ?_, fun _ => hnone⟩
    · have := live_of_holds hi
      simp [hdead i] at this
    · by_contra ht
      obtain ⟨i, hi⟩ := live_of_ended happ (by simpa using ht)
      simp [hdead i] at hi
  · intro hs
    have hnone := hs.vacant (.inr (.inr hmain))
    refine ⟨hnone, fun i => ?_⟩
    have hI := inv_of_reaches happ
    have hW := waits_of_reaches happ
    obtain ⟨hidle, hfl⟩ := outside_of_reaches h (by
      rcases TcpListener.stopped_of_reaches (reaches_listener h) hr with ht | ht <;> simp [ht])
    -- all variables are null, and a callback alone may not own the session
    have href : references st.app i = 0 := by
      simp [references, hnone, hI.old (by simp [hidle]), hI.replaced hidle, hI.s (.inl hidle),
        hI.mainLocal (.inr hmain)]
    have hrefs : (st.app.sessions i).refs = 0 := by
      have hc := hI.counted i
      have hsh := hs.shared i
      cases hh : (st.app.sessions i).reader.holds with
      | false => simpa [owners, href, hh] using hc
      | true =>
        rw [owners, href, hh, Bool.toNat_true] at hc
        have := hsh hh
        omega
    rcases joined_of_reaches happ i hrefs with hd | ⟨t, ht⟩
    · exact hd
    · -- nobody is left who could be waiting for a read thread
      cases t with
      | listener => cases hfl.symm.trans ht
      | main => cases hfm.symm.trans ht
      | decode => cases hW.decode.symm.trans ht
      | reader j => cases hs.alive.symm.trans (hW.reader j (by simp [ht]))

/-- **What TearDown leaves.**  In every run, when `TearDown` returns the app has no session and no
read thread is running, if and only if every move of the run was orderly: `OnAccept` installed no
session after `TearDown` had taken the one that was there, and no release left a session to the
callback on its own read thread. -/
theorem leavesNone_iff_orderly {ls : List Label} (h : exec step initial ls = some st)
    (hr : st.listener.stop = .returned) :
    LeavesNone st.app ↔ Meets step Orderly initial ls := by
  have hreach : Reaches step (fun _ _ => True) initial st :=
    reaches_of_exec ls (meets_of_forall (fun _ _ _ => trivial) initial) h
  rw [leavesNone_iff_sound hreach hr]
  exact sound_iff_meets h

/-- The accept loop from its test to the call of `OnAccept`. -/
def acceptCall : List Label := [.listener .test, .listener (.accept true), .listener .check]

/-- A connection with a control message, and `TearDown` while the loop waits for the next one. -/
def quietRun : List Label :=
  .listener .start :: acceptCall ++ (Sessions.acceptRun 0 false).map Label.app ++
    ([.listener .handled, .listener .test, .app (.readControl 0), .app (.readControlDone 0),
      .app .tearTake, .app .tearClose, .app .mainDrop, .app (.readEnd 0), .app (.closedLock 0),
      .app (.closedResolve 0), .app (.closedUnlock 0), .app (.joined .main), .listener .stop,
      .listener .close, .listener (.accept false), .listener .check, .listener .join] : List Label)

/-- A connection that is accepted just before `TearDown` and installed after it. -/
def lateRun : List Label :=
  .listener .start :: acceptCall ++ ([.app .tearTake, .listener .stop] : List Label) ++
    (Sessions.acceptRun 0 false).map Label.app ++
    ([.listener .handled, .listener .test, .listener .close, .listener .join] : List Label)

theorem exec_quietRun : (exec step initial quietRun).isSome = true := by decide

theorem leavesNone_iff_orderly_quietRun :
    ∃ st, exec step initial quietRun = some st ∧ st.listener.stop = .returned ∧
      LeavesNone st.app := by
  refine ⟨_, (Option.some_get exec_quietRun).symm, by decide, ?_⟩
  exact (leavesNone_iff_orderly (Option.some_get exec_quietRun).symm (by decide)).2
    (by decide)

theorem exec_lateRun : (exec step initial lateRun).isSome = true := by decide

theorem leaves_session_lateRun :
    ∃ st, exec step initial lateRun = some st ∧ st.listener.stop = .returned ∧
      st.app.session = some 0 ∧ (st.app.sessions 0).reader = .running ∧ ¬LeavesNone st.app := by
  have hsession : ((exec step initial lateRun).get exec_lateRun).app.session = some 0 := by
    decide
  refine ⟨_, (Option.some_get exec_lateRun).symm, by decide, hsession, by decide,
    fun h => ?_⟩
  rw [h.1] at hsession
  cases hsession

end OpenDisplay.App.TearDown
