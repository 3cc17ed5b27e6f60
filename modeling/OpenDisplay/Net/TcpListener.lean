import Mathlib.Tactic.Common
import OpenDisplay.Lib.Transition

/-!
# The accept loop

`TcpListener::Start` leaves a thread that accepts connections and hands each to `onAccept`, one
after the other on the same thread.  `Stop` lowers `running_`, closes the socket, which ends the
`accept` that may be waiting on it, and joins the thread.  What `onAccept` does belongs to the app;
here it is the time between `call` and `handled`.

`stopped_of_reaches` is what a caller of `Stop` gets: when it returns, no `onAccept` is running and
none will be called.
-/

namespace OpenDisplay.Net.TcpListener

open OpenDisplay.Lib.Transition

/-- Where the listener thread stands. -/
inductive LoopPc
  /-- There is no thread: `Start` was not called, or it failed. -/
  | notStarted
  /-- Before the test of `while (running_)`. -/
  | testing
  /-- In `accept`. -/
  | accepting
  /-- `accept` has returned, with a client or with `INVALID_SOCKET`. -/
  | returned (client : Bool)
  /-- Before `onAccept(client, peerName)`. -/
  | calling
  | handling
  | exited
  deriving DecidableEq, Repr

/-- Where the thread that calls `Stop` stands. -/
inductive StopPc
  | notCalled
  /-- Before `closesocket`. -/
  | flagged
  /-- Before `thread_.join()`. -/
  | joining
  | returned
  deriving DecidableEq, Repr

structure State where
  /-- `listenSock_` is not `INVALID_SOCKET`. -/
  listenSock_ : Bool
  running_ : Bool
  thread_ : LoopPc
  stop : StopPc
  deriving DecidableEq, Repr

def initial : State := ⟨false, false, .notStarted, .notCalled⟩

inductive Label
  /-- `Start` succeeds.  A failing one leaves everything as it was. -/
  | start
  | test
  | accept (client : Bool)
  /-- The two tests after `accept`. -/
  | check
  | call
  | handled
  /-- `Stop` up to `running_ = false`. -/
  | stop
  | close
  | join
  deriving DecidableEq, Repr

/-- One move of the listener thread or of the thread that owns the listener, which calls `Start`
and `Stop` once each. -/
def step (st : State) : Label → Option State
  | .start =>
    when (st.thread_ = .notStarted ∧ st.stop = .notCalled)
      { st with listenSock_ := true, running_ := true, thread_ := .testing }
  | .test =>
    when (st.thread_ = .testing)
      { st with thread_ := if st.running_ then .accepting else .exited }
  | .accept client =>
    when (st.thread_ = .accepting ∧ (client = true → st.listenSock_ = true))
      { st with thread_ := .returned client }
  | .check =>
    match st.thread_ with
    | .returned client =>
      some { st with
        thread_ := if st.running_ then (if client then .calling else .testing) else .exited }
    | _ => none
  | .call => when (st.thread_ = .calling) { st with thread_ := .handling }
  | .handled => when (st.thread_ = .handling) { st with thread_ := .testing }
  | .stop =>
    when (st.stop = .notCalled)
      (if st.running_ = false ∧ st.listenSock_ = false then { st with stop := .returned }
      else { st with running_ := false, stop := .flagged })
  | .close => when (st.stop = .flagged) { st with listenSock_ := false, stop := .joining }
  | .join =>
    -- a thread that was never started is not joinable
    when (st.stop = .joining ∧ (st.thread_ = .notStarted ∨ st.thread_ = .exited))
      { st with stop := .returned }

variable {st st' : State} {l : Label}

/-- Until `Stop` the flag tells whether there is a thread, and `Stop` waits for it. -/
structure Inv (st : State) : Prop where
  started : st.stop = .notCalled → (st.running_ = false ↔ st.thread_ = .notStarted)
  stopped : st.stop = .returned → st.thread_ = .notStarted ∨ st.thread_ = .exited

theorem inv_initial : Inv initial := by
  constructor <;> simp [initial]

/-- The flag and the place of `Stop` change in `Start` and `Stop` only, and no other move makes or
revives a thread. -/
theorem step_cases (hs : step st l = some st') :
    (l = .start ∧ st.stop = .notCalled ∧ st'.stop = .notCalled ∧ st'.running_ = true ∧
      st'.thread_ = .testing) ∨
    (l = .stop ∧ st.stop = .notCalled ∧ st'.thread_ = st.thread_ ∧
      (st'.stop = .returned ∧ st.running_ = false ∨ st'.stop = .flagged)) ∨
    (l = .close ∧ st.stop = .flagged ∧ st'.stop = .joining) ∨
    (l = .join ∧ st.stop = .joining ∧ st'.stop = .returned ∧ st'.thread_ = st.thread_ ∧
      (st.thread_ = .notStarted ∨ st.thread_ = .exited)) ∨
    (st'.stop = st.stop ∧ st'.running_ = st.running_ ∧ st.thread_ ≠ .notStarted ∧
      st.thread_ ≠ .exited ∧ st'.thread_ ≠ .notStarted) := by
  cases l <;> simp only [step, when_eq_some] at hs
  case start =>
    obtain ⟨⟨-, hc⟩, rfl⟩ := hs
    exact .inl ⟨rfl, hc, hc, rfl, rfl⟩
  case stop =>
    obtain ⟨hc, rfl⟩ := hs
    refine .inr (.inl ⟨rfl, hc, ?_, ?_⟩) <;> split <;> simp_all
  case close =>
    obtain ⟨hc, rfl⟩ := hs
    exact .inr (.inr (.inl ⟨rfl, hc, rfl⟩))
  case join =>
    obtain ⟨⟨hc, ht⟩, rfl⟩ := hs
    exact .inr (.inr (.inr (.inl ⟨rfl, hc, rfl, rfl, ht⟩)))
  case check =>
    split at hs
    · obtain rfl := Option.some.inj hs
      refine .inr (.inr (.inr (.inr ⟨rfl, rfl, by simp_all, by simp_all, ?_⟩)))
      dsimp only
      split <;> [split; skip] <;> simp
    · cases hs
  case test =>
    obtain ⟨ht, rfl⟩ := hs
    refine .inr (.inr (.inr (.inr ⟨rfl, rfl, by simp [ht], by simp [ht], ?_⟩)))
    dsimp only
    split <;> simp
  case accept =>
    obtain ⟨⟨ht, -⟩, rfl⟩ := hs
    simp [ht]
  case call | handled =>
    obtain ⟨ht, rfl⟩ := hs
    simp [ht]

theorem stop_step (hs : step st l = some st') (hl : l ≠ .stop) (hst : st'.stop ≠ .notCalled) :
    st.stop ≠ .notCalled := by
  rcases step_cases hs with ⟨-, -, hc, -⟩ | ⟨rfl, -⟩ | ⟨-, hc, -⟩ | ⟨-, hc, -⟩ | ⟨hc, -⟩
  · exact absurd hc hst
  · exact absurd rfl hl
  · simp [hc]
  · simp [hc]
  · rwa [← hc]

theorem handling_step (hs : step st l = some st') (hl : l ≠ .handled)
    (ht : st'.thread_ ≠ .handling) : st.thread_ ≠ .handling := by
  intro hh
  cases l <;> simp only [step, hh, when_eq_some, reduceCtorEq, false_and] at hs
  case handled => exact hl rfl
  case stop =>
    obtain ⟨-, rfl⟩ := hs
    split at ht <;> exact ht rfl
  case close =>
    obtain ⟨-, rfl⟩ := hs
    exact ht rfl
  case join => simp at hs

theorem call_step (hs : step st .call = some st') : st'.thread_ = .handling := by
  simp only [step, when_eq_some] at hs
  obtain ⟨-, rfl⟩ := hs
  rfl

theorem inv_step (h : Inv st) (hs : step st l = some st') : Inv st' := by
  rcases step_cases hs with ⟨-, -, hc, hr, ht⟩ | ⟨-, hc, ht, hst⟩ | ⟨-, -, hst⟩ |
    ⟨-, -, hst, ht, hend⟩ | ⟨hst, hr, hn, he, hn'⟩
  · exact ⟨fun _ => by simp [hr, ht], fun h' => by simp [hc] at h'⟩
  · refine ⟨fun h' => by simp [h'] at hst, fun h' => ?_⟩
    have hf : st.running_ = false := by simpa [h'] using hst
    exact .inl (ht.trans ((h.started hc).1 hf))
  · constructor <;> simp [hst]
  · exact ⟨fun h' => by simp [hst] at h', fun _ => by rwa [ht]⟩
  · constructor
    · intro h'
      rw [hst] at h'
      rw [hr, h.started h']
      exact ⟨fun h0 => absurd h0 hn, fun h0 => absurd h0 hn'⟩
    · intro h'
      rcases h.stopped (hst ▸ h') with h0 | h0
      · exact absurd h0 hn
      · exact absurd h0 he

/-- **`Stop` waits for the handler.**  When it returns, the loop is left for good, or was never
entered. -/
theorem stopped_of_reaches {ok : State → Label → Prop} (h : Reaches step ok initial st)
    (hr : st.stop = .returned) : st.thread_ = .notStarted ∨ st.thread_ = .exited :=
  (h.invariant inv_initial fun _ _ _ hi _ hs => inv_step hi hs).stopped hr

end OpenDisplay.Net.TcpListener
