import OpenDisplay.App.Lifetime

/-! # Where the threads stand over the life of the app

`TearDown` may run any number of times, on whatever the last run left. `Inv` says what the listener, the
sessions and the members of the app look like at each place of the main thread: `Stop` has run when the
advertiser is stopped, and stays run; the listener thread is then gone for good, and with it `OnAccept`;
what `~App` finds is what the last `TearDown` left. -/

namespace OpenDisplay.App.Lifetime

open OpenDisplay.Lib.Ledger OpenDisplay.Lib.Transition OpenDisplay.Net OpenDisplay.Net.MdnsAdvertise
open OpenDisplay.App.SessionJoins OpenDisplay.App.SessionMoves OpenDisplay.App.SessionCount

/-! ## The sessions and the listener, again and again -/

/-- What the sessions and the listener keep through every `TearDown`. -/
structure NetInv (net : TearDown.State) : Prop where
  counted : SessionCount.Inv net.app
  outside : net.listener.thread_ ≠ .handling →
    net.app.listener = .idle ∧ net.app.Free .listener
  closed : net.listener.stop = .joining ∨ net.listener.stop = .returned →
    net.listener.listenSock_ = false
  gone : net.listener.stop = .returned ∨
      net.listener.stop = .notCalled ∧ net.listener.running_ = false →
    net.listener.thread_ = .notStarted ∨ net.listener.thread_ = .exited

theorem netInv_initial : NetInv TearDown.initial :=
  ⟨inv_initial, fun _ => ⟨rfl, rfl⟩, fun _ => rfl, fun _ => .inl rfl⟩

section Net

variable {net net' : TearDown.State} {l : TearDown.Label}

theorem closed_listener {n n' : TcpListener.State} {a : TcpListener.Label}
    (hs : TcpListener.step n a = some n')
    (h : n.stop = .joining ∨ n.stop = .returned → n.listenSock_ = false) :
    n'.stop = .joining ∨ n'.stop = .returned → n'.listenSock_ = false := by
  cases a <;> simp only [TcpListener.step, when_eq_some] at hs
  case check =>
    split at hs
    · obtain rfl := Option.some.inj hs
      exact h
    · cases hs
  case stop =>
    obtain ⟨hc, rfl⟩ := hs
    split <;> simp_all
  all_goals
    obtain ⟨hc, rfl⟩ := hs
    simp_all

/-- A thread that is gone does not come back but by `Start`. -/
theorem gone_listener {n n' : TcpListener.State} {a : TcpListener.Label}
    (hs : TcpListener.step n a = some n')
    (h : n.stop = .returned ∨ n.stop = .notCalled ∧ n.running_ = false →
      n.thread_ = .notStarted ∨ n.thread_ = .exited) :
    n'.stop = .returned ∨ n'.stop = .notCalled ∧ n'.running_ = false →
      n'.thread_ = .notStarted ∨ n'.thread_ = .exited := by
  rcases TcpListener.step_cases hs with ⟨-, -, hc, hr, -⟩ | ⟨-, hc, ht, hst⟩ | ⟨-, -, hst⟩ |
    ⟨-, -, -, ht, hend⟩ | ⟨hst, hr, hn, he, -⟩
  · simp [hc, hr]
  · rintro (h' | ⟨h', -⟩)
    · rw [ht]
      refine h (.inr ⟨hc, ?_⟩)
      simpa [h'] using hst
    · simp [h'] at hst
  · simp [hst]
  · intro _
    rwa [ht]
  · intro h'
    rw [hst, hr] at h'
    rcases h h' with h0 | h0
    · exact absurd h0 hn
    · exact absurd h0 he

theorem netInv_step (h : NetInv net) (hs : TearDown.step net l = some net') : NetInv net' := by
  refine ⟨?_, TearDown.outside_move hs h.outside, ?_, ?_⟩
  · rcases TearDown.step_cases hs with ⟨a, -, ha, -⟩ | ⟨n, -, -, ha, -⟩
    · exact inv_step h.counted ha
    · rw [ha]
      exact h.counted
  · rcases TearDown.step_cases hs with ⟨a, -, -, ⟨-, hn⟩ | ⟨-, hn⟩⟩ | ⟨n, -, -, -, hn⟩
    · exact closed_listener hn h.closed
    · rw [hn]
      exact h.closed
    · exact closed_listener hn h.closed
  · rcases TearDown.step_cases hs with ⟨a, -, -, ⟨-, hn⟩ | ⟨-, hn⟩⟩ | ⟨n, -, -, -, hn⟩
    · exact gone_listener hn h.gone
    · rw [hn]
      exact h.gone
    · exact gone_listener hn h.gone

/-- Another `TearDown` may begin when none is going on. -/
theorem netInv_again (h : NetInv net) (hm : net.app.main = .idle ∨ net.app.main = .stopped)
    (hst : net.listener.stop = .notCalled ∨ net.listener.stop = .returned) : NetInv (again net) := by
  refine ⟨?_, h.outside, ?_, ?_⟩
  · exact
      { replaced := h.counted.replaced
        s := h.counted.s
        old := h.counted.old
        mainLocal := fun _ => h.counted.mainLocal hm
        counted := h.counted.counted
        fresh := h.counted.fresh
        unstarted := h.counted.unstarted }
  · simp [again]
  · rintro (h' | ⟨-, h'⟩)
    · cases h'
    · exact h.gone (hst.elim (fun hst => .inr ⟨hst, h'⟩) .inl)

/-- `~App` drops its reference to the session. -/
theorem inv_destroy {app : Sessions.State} (h : SessionCount.Inv app) :
    SessionCount.Inv { app.release .main app.session with session := none } := by
  refine
    { replaced := h.replaced
      s := h.s
      old := h.old
      mainLocal := h.mainLocal
      counted := fun i => ?_
      fresh := fun i hi => ?_
      unstarted := fun hb => ?_ }
  · have hi := h.counted i
    simp only [owners, references] at hi ⊢
    simp only [Sessions.State.release, Sessions.State.modify, refs_release, reader_release,
      Lib.Store.owns_none]
    omega
  · have hi' := h.fresh i hi
    simp only [Sessions.State.release, Sessions.State.modify, refs_release, reader_release]
    exact ⟨by omega, hi'.2⟩
  · obtain ⟨i, hi, hr⟩ := h.unstarted hb
    refine ⟨i, hi, ?_⟩
    simp only [Sessions.State.release, Sessions.State.modify, reader_release]
    exact hr

theorem netInv_destroy (h : NetInv net) :
    NetInv { net with
      app := { net.app.release .main net.app.session with session := none } } := by
  refine ⟨inv_destroy h.counted, fun ht => ?_, h.closed, h.gone⟩
  obtain ⟨hl, hf⟩ := h.outside ht
  refine ⟨hl, ?_⟩
  simp only [Sessions.State.Free, Sessions.State.release] at hf ⊢
  split
  · rw [Function.update_of_ne (by simp)]
    exact hf
  · exact hf

theorem app_main_step {app app' : Sessions.State} {a : Sessions.Label}
    (hs : Sessions.step app a = some app') :
    app'.main = app.main ∨ a = .reapTake ∨ a = .tearTake ∨ a = .tearClose ∨ a = .resizeCopy ∨
      (∃ ok, a = .resizeHello ok) ∨ a = .mainDrop := by
  cases a <;>
    simp only [Sessions.step, Option.ite_none_left_eq_some, when_eq_some,
      Sessions.State.modify, Sessions.State.release] at hs <;>
    obtain ⟨-, -, rfl⟩ := hs
  all_goals simp

theorem stop_step (hs : TearDown.step net l = some net') :
    net'.listener.stop = net.listener.stop ∨ l = .listener .start ∨ l = .listener .stop ∨
      l = .listener .close ∨ l = .listener .join := by
  rcases TearDown.step_cases hs with ⟨a, -, -, ⟨-, hn⟩ | ⟨-, hn⟩⟩ | ⟨n, rfl, -, -, hn⟩
  · rcases TcpListener.step_cases hn with ⟨hl, -⟩ | ⟨hl, -⟩ | ⟨hl, -⟩ | ⟨hl, -⟩ | ⟨hst, -⟩
    · cases hl
    · cases hl
    · cases hl
    · cases hl
    · exact .inl hst
  · exact .inl (by rw [hn])
  · rcases TcpListener.step_cases hn with ⟨rfl, -⟩ | ⟨rfl, -⟩ | ⟨rfl, -⟩ | ⟨rfl, -⟩ | ⟨hst, -⟩
    · exact .inr (.inl rfl)
    · exact .inr (.inr (.inl rfl))
    · exact .inr (.inr (.inr (.inl rfl)))
    · exact .inr (.inr (.inr (.inr rfl)))
    · exact .inl hst

theorem start_step (hs : TearDown.step net (.listener .start) = some net') :
    net'.app = net.app ∧ net'.listener = ⟨true, true, .testing, .notCalled⟩ := by
  rcases TearDown.step_cases hs with ⟨a, ha, -⟩ | ⟨n, hn, -, happ, hl⟩
  · cases ha
  · cases hn
    simp only [TcpListener.step, when_eq_some] at hl
    obtain ⟨⟨-, hst⟩, hl⟩ := hl
    exact ⟨happ, by rw [← hl, hst]⟩

end Net

/-! ## The places of the main thread -/

/-- How far `Stop` is. -/
def StopAt : MainPc → TcpListener.StopPc → Prop
  | .tearing .listener, _ => True
  | .tearing .event, pc | .tornDown, pc | .destroying, pc | .ended, pc => pc = .returned
  | .returned, pc => pc = .notCalled ∨ pc = .returned
  | _, pc => pc = .notCalled

/-- Where the main thread is among the sessions. -/
def AppAt : MainPc → Sessions.MainPc → Prop
  | .running, _ | .tearing .session, _ => True
  | .setup _, pc | .returned, pc => pc = .idle ∨ pc = .stopped
  | _, pc => pc = .stopped

/-- `TearDown` has joined the decode thread. -/
def DecodeJoined : MainPc → Prop
  | .tearing .decoder | .tearing .listener | .tearing .event | .tornDown | .destroying
  | .ended => True
  | _ => False

/-- How often `TearDown` was called. -/
def CallsAt : MainPc → ℕ → Prop
  | .setup _, n | .running, n => n = 0
  | .returned, _ => True
  | _, n => n ≠ 0

structure Inv (st : State) : Prop where
  net : NetInv st.net
  stop : StopAt st.main st.net.listener.stop
  app : AppAt st.main st.net.app.main
  joined : DecodeJoined st.main → st.decodeThread = .none
  destroyed : st.main = .destroying ∨ st.main = .ended →
    st.net.app.session = none ∧ st.mdns.sock = false
  empty : st.main = .ended → st.decoder = none
  calls : CallsAt st.main st.calls

theorem inv_initial : Inv initial :=
  ⟨netInv_initial, rfl, .inl rfl, fun h => h.elim, fun h => by simp [initial] at h,
    fun h => by simp [initial] at h, rfl⟩

variable {st st' : State} {l : Label}

/-- The moves as a relation: where each is made, and what it leaves. -/
inductive Moves (st : State) : Label → State → Prop
  | setupFails (hm : st.main = .setup .window) : Moves st .setupFails { st with main := .returned }
  | makeWindow (hm : st.main = .setup .window) :
    Moves st .makeWindow { st with main := .setup .event }
  | createEvent {ok : Bool} (hm : st.main = .setup .event) :
    Moves st (.createEvent ok) { st with frameEvent := ok, main := .setup .decoder }
  | makeDecoder (hm : st.main = .setup .decoder) :
    Moves st .makeDecoder { st with decoder := some ⟨none⟩, main := .setup .decodeThread }
  | startDecode (hm : st.main = .setup .decodeThread) :
    Moves st .startDecode
      { st with decodeRunning := true, decodeThread := .running, main := .setup .listener }
  | listenFails {made : Bool} (hm : st.main = .setup .listener) :
    Moves st (.listenFails made) (st.enterTearDown true)
  | listen {net : TearDown.State} (hm : st.main = .setup .listener)
    (hn : TearDown.step st.net (.listener .start) = some net) :
    Moves st .listen { st with net := net, main := .setup .advertiser }
  | advertise {cfg : Config} {o : Outcome} (hm : st.main = .setup .advertiser) :
    Moves st (.advertise cfg o) { st with mdns := (st.mdns.start cfg o).1, main := .running }
  | quit (hm : st.main = .running) (hi : st.net.app.main = .idle) (hf : st.net.app.Free .main) :
    Moves st .quit { st with main := .returned }
  | tearDown (hm : st.main = .returned ∨ st.main = .tornDown) :
    Moves st .tearDown (st.enterTearDown false)
  | stopDecode (hm : st.main = .tearing .session) (hi : st.net.app.main = .stopped)
    (hf : st.net.app.Free .main) :
    Moves st .stopDecode { st with decodeRunning := false, main := .tearing .decodeThread }
  | joinDecode (hm : st.main = .tearing .decodeThread) (hd : st.decodeThread ≠ .running) :
    Moves st .joinDecode { st with decodeThread := .none, main := .tearing .decoder }
  | shutdownDecoder (hm : st.main = .tearing .decoder) :
    Moves st .shutdownDecoder { st.resetTransform with main := .tearing .listener }
  | stopMdns (hm : st.main = .tearing .listener) (hi : st.net.listener.stop = .returned) :
    Moves st .stopMdns { st with mdns := st.mdns.stop, main := .tearing .event }
  | closeEvent (hm : st.main = .tearing .event) :
    Moves st .closeEvent { st with main := if st.inSetup then .returned else .tornDown }
  | net {a : TearDown.Label} {net : TearDown.State} (ha : Admits st a)
    (hn : TearDown.step st.net a = some net) : Moves st (.net a) { st with net := net }
  | exitDecode (hd : st.decodeThread = .running) (hr : st.decodeRunning = false) :
    Moves st .exitDecode { st with decodeThread := .finished }
  | resetTransform (hd : st.decodeThread = .running) : Moves st .resetTransform st.resetTransform
  | attachTransform (hd : st.decodeThread = .running) (hi : st.decoder = some ⟨none⟩) :
    Moves st .attachTransform
      { st with decoder := some ⟨some st.transforms⟩, transforms := st.transforms + 1 }
  | selectFails (ht : st.mdns.thread = .running) (hr : st.mdns.canReceive = true) :
    Moves st .selectFails { st with mdns := { st.mdns with thread := .finished } }
  | destroy (hm : st.main = .tornDown) :
    Moves st .destroy
      { st with
        mdns := st.mdns.stop
        net := { st.net with
          app := { st.net.app.release .main st.net.app.session with session := none } }
        main := .destroying }
  | finish (hm : st.main = .destroying) (hf : st.net.app.Free .main) :
    Moves st .finish { st with decoder := none, main := .ended }

theorem move_cases (hs : move st l = some st') : st.main ≠ .ended ∧ Moves st l st' := by
  cases l
  all_goals
    simp only [move, Option.ite_none_left_eq_some, Option.ite_none_right_eq_some,
      Option.map_eq_some_iff, when_eq_some, not_or] at hs
    obtain ⟨⟨-, hne⟩, hs⟩ := hs
    refine ⟨hne, ?_⟩
  case net => obtain ⟨ha, net, hn, rfl⟩ := hs; exact .net ha hn
  case listen => obtain ⟨hm, net, hn, rfl⟩ := hs; exact .listen hm hn
  case quit | stopDecode => obtain ⟨⟨hm, hi, hf⟩, rfl⟩ := hs; constructor <;> assumption
  case stopMdns | attachTransform | joinDecode | exitDecode | selectFails | finish =>
    obtain ⟨⟨hm, hi⟩, rfl⟩ := hs
    constructor <;> assumption
  all_goals
    obtain ⟨hm, rfl⟩ := hs
    constructor
    assumption

theorem netInv_move (h : Inv st) (hs : Moves st l st') : NetInv st'.net := by
  have hstop := h.stop
  have happ := h.app
  cases hs
  case net a net ha hn => exact netInv_step h.net hn
  case listen net hm hn => exact netInv_step h.net hn
  case listenFails made hm =>
    rw [hm] at hstop happ
    exact netInv_again h.net happ (.inl hstop)
  case tearDown hm =>
    rcases hm with hm | hm <;> rw [hm] at hstop happ
    · exact netInv_again h.net happ hstop
    · exact netInv_again h.net (.inr happ) (.inr hstop)
  case destroy => exact netInv_destroy h.net
  all_goals exact h.net

theorem stopAt_move (h : StopAt st.main st.net.listener.stop) (hs : Moves st l st') :
    StopAt st'.main st'.net.listener.stop := by
  cases hs
  case net a net ha hn =>
    rcases stop_step hn with he | rfl | rfl | rfl | rfl
    · rwa [he]
    · cases ha
    all_goals
      have hm : st.main = .tearing .listener := ha
      simp [hm, StopAt]
  case listen net hm hn => simp [(start_step hn).2, StopAt]
  case tearDown | listenFails => rfl
  case closeEvent hm =>
    rw [hm] at h
    dsimp only
    split
    · exact .inr h
    · exact h
  all_goals simp_all [StopAt, State.resetTransform]

theorem appAt_move (h : AppAt st.main st.net.app.main) (hs : Moves st l st') :
    AppAt st'.main st'.net.app.main := by
  cases hs
  case net a net ha hn =>
    rcases TearDown.step_cases hn with ⟨a, rfl, happ, -⟩ | ⟨n, rfl, -, happ, -⟩
    · rcases app_main_step happ with he | rfl | rfl | rfl | rfl | ⟨ok, rfl⟩ | rfl
      · rwa [he]
      case inr.inr.inr.inr.inr.inr => rcases ha with hm | hm <;> simp [hm, AppAt]
      all_goals
        simp only [Admits] at ha
        simp [ha, AppAt]
    · dsimp only
      rwa [happ]
  case listen net hm hn =>
    rw [hm] at h
    rw [(start_step hn).1]
    exact h
  case tearDown | listenFails => trivial
  case closeEvent hm =>
    rw [hm] at h
    dsimp only
    split
    · exact .inr h
    · exact h
  all_goals simp_all [AppAt, State.resetTransform, Sessions.State.release, Sessions.State.modify]

theorem joined_move (h : DecodeJoined st.main → st.decodeThread = .none) (hs : Moves st l st') :
    DecodeJoined st'.main → st'.decodeThread = .none := by
  cases hs
  case net => exact h
  all_goals simp_all [DecodeJoined, State.resetTransform, State.enterTearDown]

theorem calls_move (h : CallsAt st.main st.calls) (hs : Moves st l st') :
    CallsAt st'.main st'.calls := by
  cases hs
  case net => exact h
  case closeEvent hm =>
    rw [hm] at h
    dsimp only
    split
    · trivial
    · exact h
  all_goals simp_all [CallsAt, State.resetTransform, State.enterTearDown]

theorem vacant_step {net net' : TearDown.State} {a : TearDown.Label}
    (hs : TearDown.step net a = some net') (hidle : net.app.listener = .idle)
    (hm : net.app.main = .stopped) (h : net.app.session = none) : net'.app.session = none := by
  rcases TearDown.step_cases hs with ⟨a, -, happ, -⟩ | ⟨n, -, -, happ, -⟩
  · rcases TearDown.taken_step happ with ⟨-, hmade, -⟩ | ⟨-, -, -, he⟩ | ⟨-, ht, -⟩
    · simp [hidle] at hmade
    · rw [he, h]
    · exact absurd (.inr (.inr hm)) ht
  · rw [happ, h]

theorem destroyed_move (hI : Inv st) (hne : st.main ≠ .ended) (hs : Moves st l st') :
    st'.main = .destroying ∨ st'.main = .ended →
      st'.net.app.session = none ∧ st'.mdns.sock = false := by
  have hstop := hI.stop
  have happ := hI.app
  have h := hI.destroyed
  cases hs
  case net a net ha hn =>
    intro hm
    have hret : st.net.listener.stop = .returned := by
      rcases hm with hm | hm <;> dsimp only at hm <;> rw [hm] at hstop <;> exact hstop
    have hgone := hI.net.gone (.inl hret)
    have hidle := (hI.net.outside (by rcases hgone with hg | hg <;> simp [hg])).1
    refine ⟨vacant_step hn hidle ?_ (h hm).1, (h hm).2⟩
    rcases hm with hm | hm <;> dsimp only at hm <;> rw [hm] at happ <;> exact happ
  case destroy =>
    intro _
    refine ⟨rfl, ?_⟩
    unfold MdnsAdvertiser.stop
    split <;> rfl
  case closeEvent =>
    dsimp only
    split <;> simp
  all_goals simp_all [State.resetTransform, State.enterTearDown]

theorem empty_move (hne : st.main ≠ .ended) (hs : Moves st l st') :
    st'.main = .ended → st'.decoder = none := by
  cases hs
  case net => exact fun hm => absurd hm hne
  case closeEvent =>
    dsimp only
    split <;> simp
  all_goals simp_all [State.resetTransform, State.enterTearDown]

/-- **Every move keeps the invariant.** -/
theorem inv_move (h : Inv st) (hs : move st l = some st') : Inv st' := by
  obtain ⟨hne, hm⟩ := move_cases hs
  exact ⟨netInv_move h hm, stopAt_move h.stop hm, appAt_move h.app hm, joined_move h.joined hm,
    destroyed_move h hne hm, empty_move hne hm, calls_move h.calls hm⟩

end OpenDisplay.App.Lifetime
