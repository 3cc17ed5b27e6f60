import OpenDisplay.App.LifetimeOnce
import OpenDisplay.App.SessionProgress

/-! # For whom the threads of the app wait

Over the life of the app its threads wait for each other in four places: for `sessionMutex`, for the
read thread of a session in `~Session`, and in `TearDown` for the decode thread and for the listener
thread. The mutexes of the queue, of the newest frame and of the log are left out; they are held over no
other wait. `Stands` says in front of which moves a thread may stand, and `Awaits` for whom it waits there.

In every state of every run each thread that has not ended stands somewhere (`stands_of_unfinished`). The
waits go from the main thread to the others, from those that join to those that do not, and end at the
owner of the mutex (`goes_down`). Who is joined has been told to stop (`told_of_stands`). A call into the
system is one move here; `App.LifetimeCalls` gives it a beginning and an end. -/

namespace OpenDisplay.App.LifetimeProgress

open OpenDisplay.Lib.Transition OpenDisplay.Net OpenDisplay.App.Lifetime
open OpenDisplay.App.SessionCount OpenDisplay.App.SessionJoins OpenDisplay.App.SessionMoves
open OpenDisplay.App.SessionProgress

/-! ## The laws of the sessions over a life -/

/-- What the waits of the sessions rest on. -/
structure AppLaws (app : Sessions.State) : Prop where
  waits : Waits app
  owned : Owned app
  replacing : Replacing app
  spared : Spared app
  closed : JoinsClosed app

theorem appLaws_initial : AppLaws Sessions.initial :=
  ⟨waits_initial, owned_initial, replacing_initial, fun _ => rfl, fun _ _ hi => by cases hi⟩

section App

variable {app app' : Sessions.State} {a : Sessions.Label}

theorem appLaws_step (hI : SessionCount.Inv app) (h : AppLaws app)
    (hs : Sessions.step app a = some app') : AppLaws app' :=
  ⟨waits_step h.waits hs, owned_step hI h.owned hs, replacing_step h.replacing hs,
    spared_step hI h.replacing h.waits h.spared hs, joinsClosed_step hI h.closed hs⟩

theorem appLaws_again (h : AppLaws app) : AppLaws { app with main := .idle } where
  waits := ⟨h.waits.listener, fun _ => .inl rfl, h.waits.decode, h.waits.reader⟩
  owned := h.owned
  replacing := ⟨h.replacing.before, h.replacing.inside⟩
  spared := h.spared
  closed := h.closed

theorem joinsClosed_release (hI : SessionCount.Inv app) (h : JoinsClosed app) (t : Sessions.Thread)
    (v : Option ℕ) : JoinsClosed (app.release t v) := by
  have hkeep : ∀ u, ∀ i ∈ app.joins u,
      i < app.created ∧ ((app.release t v).sessions i).closed = true := by
    intro u i hi
    obtain ⟨hlt, hc⟩ := h u i hi
    refine ⟨hlt, ?_⟩
    simp only [Sessions.State.release, Sessions.State.modify]
    unfold Lib.Store.modifyAt
    split
    · exact Sessions.Session.closed_release _ _ hc
    · exact hc
  intro u i hi
  simp only [Sessions.State.release] at hi
  split at hi
  case isFalse => exact hkeep u i hi
  case isTrue hlast =>
    by_cases hu : u = t
    · rw [hu, Function.update_self] at hi
      obtain ⟨j, hj, h1⟩ := hlast
      obtain rfl : j = i := Option.some.inj (hj.symm.trans hi)
      refine ⟨?_, ?_⟩
      · have hlt : j < app.created := by
          refine lt_created hI ?_
          rw [← hI.counted j]
          omega
        exact hlt
      · simp only [Sessions.State.release, Sessions.State.modify]
        rw [hi, Lib.Store.modifyAt_self]
        exact closed_of_last h1 t
    · rw [Function.update_of_ne hu] at hi
      exact hkeep u i hi

theorem appLaws_destroy (hI : SessionCount.Inv app) (hm : app.main = .stopped) (h : AppLaws app) :
    AppLaws { app.release .main app.session with session := none } := by
  have hother : ∀ t, t ≠ .main → (app.release .main app.session).joins t = app.joins t := by
    intro t ht
    simp only [Sessions.State.release]
    split
    · rw [Function.update_of_ne ht]
    · rfl
  have hreader : ∀ i, ((app.release .main app.session).sessions i).reader = (app.sessions i).reader := by
    intro i
    simp only [Sessions.State.release, Sessions.State.modify, reader_release]
  refine ⟨⟨?_, fun _ => .inr hm, ?_, ?_⟩, ?_, ⟨?_, h.replacing.inside⟩, ?_, ?_⟩
  · intro hj
    exact h.waits.listener (hother .listener (by decide) ▸ hj)
  · exact (hother .decode (by decide)).trans h.waits.decode
  · intro i hj
    have hterm : app.terminated = true := by
      refine h.waits.reader i ?_
      rw [← hother (.reader i) (by simp)]
      exact hj
    simp [Sessions.State.release, hterm]
  · intro t ht
    rcases h.owned t ht with hl | ⟨i, rfl, hi⟩
    · exact .inl hl
    · refine .inr ⟨i, rfl, ?_⟩
      dsimp only
      rw [hreader]
      exact hi
  · rintro - i ⟨⟩
  · intro hl
    exact (hother .listener (by decide)).trans (h.spared hl)
  · exact joinsClosed_release hI h.closed .main app.session

end App

/-! ## The main thread -/

/-- Where the main thread may be among the sessions. -/
def PlaceAt : MainPc → Sessions.MainPc → Prop
  | .setup _, pc => pc = .idle
  | .running, pc => pc = .idle ∨ pc = .reaping ∨ pc = .resizing ∨ pc = .resized
  | .tearing .session, pc => pc = .idle ∨ pc = .tearing ∨ pc = .tornDown ∨ pc = .stopped
  | _, _ => True

/-- `TearDown` goes on when `s.reset()` is done. -/
def FreeAt : MainPc → Prop
  | .tearing .decodeThread | .tearing .decoder | .tearing .listener | .tearing .event | .tornDown => True
  | _ => False

/-- `Stop` lowers the flag before anything else. -/
def Lowered (n : TcpListener.State) : Prop :=
  n.stop = .flagged ∨ n.stop = .joining → n.running_ = false

structure Steady (st : State) : Prop where
  inv : Inv st
  laws : AppLaws st.net.app
  place : PlaceAt st.main st.net.app.main
  free : FreeAt st.main → st.net.app.Free .main
  told : st.main = .tearing .decodeThread → st.decodeRunning = false
  lowered : Lowered st.net.listener

theorem steady_initial : Steady initial :=
  ⟨inv_initial, appLaws_initial, rfl, fun h => h.elim, fun h => (by cases h), fun _ => rfl⟩

variable {st st' : State} {l : Label}

theorem appLaws_net {net net' : TearDown.State} {a : TearDown.Label} (hI : SessionCount.Inv net.app)
    (h : AppLaws net.app) (hs : TearDown.step net a = some net') : AppLaws net'.app := by
  rcases TearDown.step_cases hs with ⟨a, -, ha, -⟩ | ⟨n, -, -, ha, -⟩
  · exact appLaws_step hI h ha
  · rw [ha]
    exact h

theorem appLaws_move (h : Steady st) (hs : Moves st l st') : AppLaws st'.net.app := by
  have happ := h.inv.app
  cases hs
  case net a net ha hn => exact appLaws_net h.inv.net.counted h.laws hn
  case listen net hm hn => exact appLaws_net h.inv.net.counted h.laws hn
  case listenFails => exact appLaws_again h.laws
  case tearDown => exact appLaws_again h.laws
  case destroy hm =>
    rw [hm] at happ
    exact appLaws_destroy h.inv.net.counted happ h.laws
  all_goals exact h.laws

/-- Where a release leaves the main thread. -/
theorem main_of_drop {app app' : Sessions.State} (hs : Sessions.step app .mainDrop = some app') :
    app'.main = app.main.afterDrop := by
  simp only [Sessions.step, Option.ite_none_left_eq_some, when_eq_some] at hs
  obtain ⟨-, -, rfl⟩ := hs
  rfl

theorem placeAt_net {a : TearDown.Label} {net : TearDown.State}
    (h : PlaceAt st.main st.net.app.main) (ha : Admits st a) (hn : TearDown.step st.net a = some net) :
    PlaceAt st.main net.app.main := by
  rcases TearDown.step_cases hn with ⟨a, rfl, happ, -⟩ | ⟨n, rfl, -, happ, -⟩
  · rcases app_main_step happ with he | rfl | rfl | rfl | rfl | ⟨ok, rfl⟩ | rfl
    · rwa [he]
    · have hm : st.main = .running := ha
      simp only [Sessions.step, Option.ite_none_left_eq_some, when_eq_some] at happ
      obtain ⟨-, hE, happ⟩ := happ
      rw [hm, ← happ]
      split
      · simp [PlaceAt]
      · simp [PlaceAt, hE.1]
    · have hm : st.main = .tearing .session := ha
      simp only [Sessions.step, Option.ite_none_left_eq_some, when_eq_some] at happ
      obtain ⟨-, -, happ⟩ := happ
      rw [hm, ← happ]
      dsimp only
      split
      · simp [PlaceAt]
      · simp [PlaceAt]
    · have hm : st.main = .tearing .session := ha
      simp only [Sessions.step, Option.ite_none_left_eq_some, when_eq_some] at happ
      obtain ⟨-, -, happ⟩ := happ
      rw [hm, ← happ]
      simp [PlaceAt]
    · have hm : st.main = .running := ha
      simp only [Sessions.step, Option.ite_none_left_eq_some, when_eq_some] at happ
      obtain ⟨-, -, happ⟩ := happ
      rw [hm, ← happ]
      dsimp only
      split
      · simp [PlaceAt]
      · simp [PlaceAt]
    · have hm : st.main = .running := ha
      simp only [Sessions.step, Option.ite_none_left_eq_some, when_eq_some] at happ
      obtain ⟨-, -, happ⟩ := happ
      rw [hm, ← happ]
      simp [PlaceAt]
    · rw [main_of_drop happ]
      rcases ha with hm | hm <;> rw [hm] at h ⊢
      · rcases h with h | h | h | h <;> simp [PlaceAt, h, Sessions.MainPc.afterDrop]
      · rcases h with h | h | h | h <;> simp [PlaceAt, h, Sessions.MainPc.afterDrop]
  · rwa [happ]

theorem placeAt_move (h : PlaceAt st.main st.net.app.main) (hs : Moves st l st') :
    PlaceAt st'.main st'.net.app.main := by
  cases hs
  case net a net ha hn =>
    have hplace := placeAt_net h ha hn
    exact hplace
  case listen net hm hn =>
    rw [hm] at h
    rw [(start_step hn).1]
    exact h
  case advertise hm =>
    rw [hm] at h
    exact .inl h
  case tearDown | listenFails => exact .inl rfl
  case closeEvent =>
    dsimp only
    split <;> trivial
  all_goals simp_all [PlaceAt, State.resetTransform]

theorem freeAt_move (h : FreeAt st.main → st.net.app.Free .main) (hs : Moves st l st') :
    FreeAt st'.main → st'.net.app.Free .main := by
  cases hs
  case net a net ha hn =>
    intro hm
    rcases TearDown.step_cases hn with ⟨a, rfl, happ, -⟩ | ⟨n, rfl, -, happ, -⟩
    · refine free_step happ ?_ (h hm)
      intro hr
      cases a <;> simp only [releaser, reduceCtorEq, Option.some.injEq] at hr
      rcases ha with hm' | hm' <;> dsimp only at hm <;> rw [hm'] at hm <;> exact hm
    · dsimp only
      rw [happ]
      exact h hm
  case closeEvent hm =>
    intro hm'
    exact h (by rw [hm]; trivial)
  all_goals simp_all [FreeAt, State.resetTransform, State.enterTearDown]

theorem told_move (h : st.main = .tearing .decodeThread → st.decodeRunning = false)
    (hs : Moves st l st') : st'.main = .tearing .decodeThread → st'.decodeRunning = false := by
  cases hs
  case net => exact h
  case closeEvent =>
    dsimp only
    split <;> simp
  all_goals simp_all [State.resetTransform, State.enterTearDown]

theorem lowered_listener {n n' : TcpListener.State} {a : TcpListener.Label} (h : Lowered n)
    (hs : TcpListener.step n a = some n') : Lowered n' := by
  rcases TcpListener.step_cases hs with ⟨-, -, hst, -⟩ | ⟨rfl, hst, -⟩ | ⟨rfl, hst, -⟩ |
    ⟨-, -, hst, -⟩ | ⟨hst, hr, -⟩
  · intro h'
    simp [hst] at h'
  · simp only [TcpListener.step, when_eq_some] at hs
    obtain ⟨-, rfl⟩ := hs
    split
    · exact fun _ => by simp_all
    · exact fun _ => rfl
  · have hflag := h (.inl hst)
    simp only [TcpListener.step, when_eq_some] at hs
    obtain ⟨-, rfl⟩ := hs
    exact fun _ => hflag
  · intro h'
    simp [hst] at h'
  · unfold Lowered
    rw [hst, hr]
    exact h

theorem lowered_net {net net' : TearDown.State} {a : TearDown.Label} (h : Lowered net.listener)
    (hs : TearDown.step net a = some net') : Lowered net'.listener := by
  rcases TearDown.step_cases hs with ⟨a, -, -, ⟨-, hn⟩ | ⟨-, hn⟩⟩ | ⟨n, -, -, -, hn⟩
  · exact lowered_listener h hn
  · rw [hn]
    exact h
  · exact lowered_listener h hn

theorem lowered_move (h : Lowered st.net.listener) (hs : Moves st l st') : Lowered st'.net.listener := by
  cases hs
  case net a net ha hn => exact lowered_net h hn
  case listen net hm hn => exact lowered_net h hn
  case listenFails | tearDown =>
    intro h'
    simp [State.enterTearDown, again] at h'
  all_goals exact h

theorem steady_step (h : Steady st) (hs : step st l = some st') : Steady st' := by
  have hI := Lifetime.inv_step h.inv hs
  obtain ⟨st₁, hm, rfl⟩ := step_eq_some hs
  obtain ⟨-, hmoves⟩ := move_cases hm
  have hlaws := appLaws_move h hmoves
  have hplace := placeAt_move h.place hmoves
  have hfree := freeAt_move h.free hmoves
  have htold := told_move h.told hmoves
  have hlowered := lowered_move h.lowered hmoves
  exact ⟨hI, hlaws, hplace, hfree, htold, hlowered⟩

/-! ## Where the threads stand -/

/-- The threads of the app. -/
inductive Party
  | app (t : Sessions.Thread)
  /-- The worker of the advertiser. -/
  | advertiser
  deriving DecidableEq

/-- The thread that makes a move. -/
def mover : Label → Party
  | .net (.app a) => .app (SessionProgress.mover a)
  | .net (.listener .test) | .net (.listener (.accept _)) | .net (.listener .check)
  | .net (.listener .call) | .net (.listener .handled) => .app .listener
  | .exitDecode | .resetTransform | .attachTransform => .app .decode
  | .selectFails => .advertiser
  | _ => .app .main

/-- The thread of the move stands in front of it. Where it never waits, that is to say that it can
make it. -/
def Stands (st : State) : Label → Prop
  | .joinDecode => st.main = .tearing .decodeThread
  | .net (.app a) =>
    Admits st (.app a) ∧ SessionProgress.Stands st.net.app a ∧
      (a = .acceptCopy → st.net.listener.thread_ = .calling)
  | .net (.listener .join) => st.main = .tearing .listener ∧ st.net.listener.stop = .joining
  | l => (step st l).isSome

/-- The listener thread is running. -/
def Listening (st : State) : Prop :=
  st.net.listener.thread_ ≠ .notStarted ∧ st.net.listener.thread_ ≠ .exited

/-- For whom the thread waits in front of the move. -/
def Awaits (st : State) : Label → Party → Prop
  | .joinDecode, t => st.decodeThread = .running ∧ t = .app .decode
  | .net (.app a), t => ∃ u, SessionProgress.Awaits st.net.app a u ∧ t = .app u
  | .net (.listener .join), t => Listening st ∧ t = .app .listener
  | _, _ => False

/-- The threads that have not ended. -/
def Unfinished (st : State) : Party → Prop
  | .app .main => st.main ≠ .ended
  | .app .listener => Listening st
  | .app .decode => st.decodeThread = .running
  | .app (.reader i) => live (st.net.app.sessions i).reader = true
  | .advertiser => st.mdns.thread = .running ∧ st.mdns.canReceive = true

/-- Neither `std::terminate` nor the end of `main`. -/
structure Alive (st : State) : Prop where
  app : st.net.app.terminated = false
  main : st.main ≠ .ended

theorem isSome_step : (step st l).isSome = (move st l).isSome := by
  unfold step
  rw [Option.isSome_map]

theorem isSome_app (h : Alive st) {a : Sessions.Label} :
    (step st (.net (.app a))).isSome ↔ Admits st (.app a) ∧ (Sessions.step st.net.app a).isSome ∧
      (a = .acceptCopy → st.net.listener.thread_ = .calling) := by
  rw [isSome_step]
  simp only [move, h.app, h.main, Bool.false_eq_true, or_false, if_false]
  by_cases ha : Admits st (.app a)
  · rw [if_pos ha, Option.isSome_map]
    cases hs : Sessions.step st.net.app a with
    | none => simp [TearDown.step, hs]
    | some app =>
      by_cases hc : a = .acceptCopy
      · subst hc
        by_cases ht : st.net.listener.thread_ = .calling
        · simp [TearDown.step, hs, ht, TcpListener.step, when, ha]
        · simp [TearDown.step, hs, ht, TcpListener.step, when]
      · simp [TearDown.step, hs, hc, ha]
  · simp [ha]

theorem calm_of_steady (h : Steady st) (ha : Alive st) : Calm st.net.app :=
  ⟨h.laws.waits, h.laws.owned, h.laws.spared, ha.app⟩

theorem stands_joined {t : Sessions.Thread} (hj : ¬st.net.app.Free t) (ha : Admits st (.app (.joined t))) :
    Stands st (.net (.app (.joined t))) := by
  refine ⟨ha, ⟨hj, fun hn => absurd rfl (hn t)⟩, ?_⟩
  intro h
  cases h

theorem stands_at {a : Sessions.Label} (hp : AtPoint st.net.app a) (ha : Admits st (.app a))
    (hf : st.net.app.Free (SessionProgress.mover a)) (hc : a ≠ .acceptCopy) :
    Stands st (.net (.app a)) :=
  ⟨ha, ⟨hp, fun _ => hf⟩, fun h => absurd h hc⟩

theorem exists_available (app : Sessions.State) : ∃ a, app.Available a := by
  have hbound : ∀ n : ℕ, ∃ a, ∀ j < n, (app.sessions j).addr < a := by
    intro n
    induction n with
    | zero => exact ⟨0, fun j hj => absurd hj (Nat.not_lt_zero j)⟩
    | succ n ih =>
      obtain ⟨a, ha⟩ := ih
      refine ⟨a + (app.sessions n).addr + 1, fun j hj => ?_⟩
      rcases Nat.lt_succ_iff_lt_or_eq.1 hj with hlt | rfl
      · have := ha j hlt
        omega
      · omega
  obtain ⟨a, ha⟩ := hbound app.created
  exact ⟨a, fun j hj he => absurd he (ha j hj).ne⟩

theorem listener_stands (h : Steady st) (ha : Alive st) (hl : Listening st) :
    ∃ l, mover l = .app .listener ∧ Stands st l := by
  obtain ⟨hn, he⟩ := hl
  have hstep : ∀ l, TearDown.step st.net (.listener l) ≠ none → Admits st (.listener l) →
      (step st (.net (.listener l))).isSome := by
    intro l hs hadmits
    rw [isSome_step]
    simp only [move, ha.app, ha.main, Bool.false_eq_true, or_false, if_false]
    rw [if_pos hadmits, Option.isSome_map]
    exact Option.isSome_iff_ne_none.2 hs
  by_cases hfree : st.net.app.Free .listener
  case neg => exact ⟨_, rfl, stands_joined hfree trivial⟩
  cases ht : st.net.listener.thread_ with
  | notStarted => exact absurd ht hn
  | exited => exact absurd ht he
  | testing =>
    refine ⟨.net (.listener .test), rfl, hstep _ ?_ trivial⟩
    simp [TearDown.step, ha.app, TearDown.Stands, TcpListener.step, when, ht]
  | accepting =>
    refine ⟨.net (.listener (.accept false)), rfl, hstep _ ?_ trivial⟩
    simp [TearDown.step, ha.app, TearDown.Stands, TcpListener.step, when, ht]
  | returned client =>
    refine ⟨.net (.listener .check), rfl, hstep _ ?_ trivial⟩
    simp [TearDown.step, ha.app, TearDown.Stands, TcpListener.step, ht]
  | calling =>
    obtain ⟨hidle, -⟩ := h.inv.net.outside (by simp [ht])
    exact ⟨.net (.app .acceptCopy), rfl, trivial, ⟨hidle, fun _ => hfree⟩, fun _ => ht⟩
  | handling =>
    have hat : ∀ a, SessionProgress.mover a = .listener → AtPoint st.net.app a → Admits st (.app a) →
        a ≠ .acceptCopy → ∃ l, mover l = .app .listener ∧ Stands st l := by
      intro a hm hp hadmits hc
      exact ⟨.net (.app a), congrArg Party.app hm, stands_at hp hadmits (hm ▸ hfree) hc⟩
    cases hpc : st.net.app.listener with
    | idle =>
      refine ⟨.net (.listener .handled), rfl, hstep _ ?_ trivial⟩
      simp [TearDown.step, ha.app, TearDown.Stands, TcpListener.step, when, ht, hpc, hfree]
    | closing => exact hat .acceptClose rfl hpc trivial (by decide)
    | making =>
      obtain ⟨a, hfresh⟩ := exists_available st.net.app
      exact hat (.acceptMake a) rfl ⟨hpc, hfresh⟩ trivial (by simp)
    | made => exact hat .acceptAssign rfl hpc trivial (by decide)
    | assigned => exact hat .acceptDropOld rfl hpc trivial (by decide)
    | unlocking => exact hat .acceptUnlock rfl hpc trivial (by decide)
    | installed => exact hat .acceptStart rfl hpc trivial (by decide)
    | started => exact hat (.acceptHello true) rfl hpc trivial (by simp)
    | greeted => exact hat .acceptDropSession rfl hpc trivial (by decide)
    | leaving => exact hat .acceptDropReplaced rfl hpc trivial (by decide)

theorem main_stands (h : Steady st) (ha : Alive st) : ∃ l, mover l = .app .main ∧ Stands st l := by
  have hstop := h.inv.stop
  have happ := h.inv.app
  have hplace := h.place
  have hfree := h.free
  have hmoves : ∀ l, mover l = .app .main → (move st l).isSome → (Stands st l ↔ (step st l).isSome) →
      ∃ l, mover l = .app .main ∧ Stands st l := by
    intro l hl hm hiff
    exact ⟨l, hl, hiff.2 (isSome_step ▸ hm)⟩
  have hat : ∀ a, SessionProgress.mover a = .main → st.net.app.Free .main → AtPoint st.net.app a →
      Admits st (.app a) → a ≠ .acceptCopy → ∃ l, mover l = .app .main ∧ Stands st l := by
    intro a hm hf hp hadmits hc
    exact ⟨.net (.app a), congrArg Party.app hm, stands_at hp hadmits (hm ▸ hf) hc⟩
  cases hm : st.main with
  | setup pc =>
    cases pc with
    | window => exact hmoves .makeWindow rfl (by simp [move, ha.app, hm, when]) Iff.rfl
    | event => exact hmoves (.createEvent true) rfl (by simp [move, ha.app, hm, when]) Iff.rfl
    | decoder => exact hmoves .makeDecoder rfl (by simp [move, ha.app, hm, when]) Iff.rfl
    | decodeThread => exact hmoves .startDecode rfl (by simp [move, ha.app, hm, when]) Iff.rfl
    | listener => exact hmoves (.listenFails true) rfl (by simp [move, ha.app, hm, when]) Iff.rfl
    | advertiser =>
      exact hmoves (.advertise ⟨[], [], 3, 9000⟩ ⟨[], [], none, false, false⟩) rfl
        (by simp [move, ha.app, hm, when]) Iff.rfl
  | running =>
    rw [hm] at hplace
    by_cases hf : st.net.app.Free .main
    case neg => exact ⟨_, rfl, stands_joined hf (.inl hm)⟩
    rcases hplace with hpc | hpc | hpc | hpc
    · exact hmoves .quit rfl (by simp [move, ha.app, hm, when, hpc, hf]) Iff.rfl
    · exact hat .mainDrop rfl hf (.inl hpc) (.inl hm) (by decide)
    · exact hat (.resizeHello true) rfl hf hpc hm (by simp)
    · exact hat .mainDrop rfl hf (.inr (.inl hpc)) (.inl hm) (by decide)
  | tearing pc =>
    cases pc with
    | session =>
      rw [hm] at hplace
      by_cases hf : st.net.app.Free .main
      case neg => exact ⟨_, rfl, stands_joined hf (.inr (.inl hm))⟩
      rcases hplace with hpc | hpc | hpc | hpc
      · exact hat .tearTake rfl hf hpc hm (by decide)
      · exact hat .tearClose rfl hf hpc hm (by decide)
      · exact hat .mainDrop rfl hf (.inr (.inr hpc)) (.inr hm) (by decide)
      · exact hmoves .stopDecode rfl (by simp [move, ha.app, hm, when, hpc, hf]) Iff.rfl
    | decodeThread => exact ⟨.joinDecode, rfl, hm⟩
    | decoder => exact hmoves .shutdownDecoder rfl (by simp [move, ha.app, hm, when]) Iff.rfl
    | listener =>
      rw [hm] at happ hfree
      have hstopped : st.net.app.main = .stopped := happ
      have hf := hfree trivial
      cases hst : st.net.listener.stop with
      | notCalled =>
        refine hmoves (.net (.listener .stop)) rfl ?_ Iff.rfl
        simp [move, ha.app, hm, Admits, TearDown.step, TearDown.Stands, hstopped, hf, TcpListener.step,
          when, hst]
      | flagged =>
        refine hmoves (.net (.listener .close)) rfl ?_ Iff.rfl
        simp [move, ha.app, hm, Admits, TearDown.step, TearDown.Stands, TcpListener.step, when, hst]
      | joining => exact ⟨.net (.listener .join), rfl, hm, hst⟩
      | returned => exact hmoves .stopMdns rfl (by simp [move, ha.app, hm, when, hst]) Iff.rfl
    | event => exact hmoves .closeEvent rfl (by simp [move, ha.app, hm, when]) Iff.rfl
  | returned => exact hmoves .tearDown rfl (by simp [move, ha.app, hm, when]) Iff.rfl
  | tornDown => exact hmoves .destroy rfl (by simp [move, ha.app, hm, when]) Iff.rfl
  | destroying =>
    by_cases hf : st.net.app.Free .main
    case neg => exact ⟨_, rfl, stands_joined hf (.inr (.inr hm))⟩
    exact hmoves .finish rfl (by simp [move, ha.app, hm, when, hf]) Iff.rfl
  | ended => exact absurd hm ha.main

theorem stands_of_unfinished (h : Steady st) (ha : Alive st) {t : Party} (ht : Unfinished st t) :
    ∃ l, mover l = t ∧ Stands st l := by
  have hdirect : ∀ l, (move st l).isSome → (Stands st l ↔ (step st l).isSome) → Stands st l :=
    fun l hm hiff => hiff.2 (isSome_step ▸ hm)
  cases t with
  | advertiser =>
    exact ⟨.selectFails, rfl, hdirect _ (by simp [move, ha.app, ha.main, when, ht.1, ht.2]) Iff.rfl⟩
  | app t =>
    cases t with
    | main => exact main_stands h ha
    | listener => exact listener_stands h ha ht
    | decode =>
      have hd : st.decodeThread = .running := ht
      exact ⟨.resetTransform, rfl, hdirect _ (by simp [move, ha.app, ha.main, when, hd]) Iff.rfl⟩
    | reader i =>
      obtain ⟨a, hmover, hstands⟩ := (calm_of_steady h ha).reader_stands ht
      refine ⟨.net (.app a), congrArg Party.app hmover, ?_, hstands, ?_⟩
      · cases a <;> simp only [SessionProgress.mover, reduceCtorEq, Sessions.Thread.reader.injEq] at hmover
        case joined t =>
          subst hmover
          trivial
        case sendCurrent t m ok =>
          subst hmover
          trivial
        all_goals trivial
      · rintro rfl
        cases hmover

/-! ## The waits -/

/-- The main thread is above those that join, and the worker of the advertiser waits for nobody. -/
def rank (st : State) : Party → ℕ
  | .advertiser => 0
  | .app .main => 3
  | .app t => SessionProgress.rank st.net.app t

theorem rank_le (app : Sessions.State) (t : Sessions.Thread) : SessionProgress.rank app t ≤ 2 := by
  unfold SessionProgress.rank
  split
  · decide
  · split
    · decide
    · decide

theorem unfinished_of_awaits (h : Steady st) {a : Sessions.Label} {t : Sessions.Thread}
    (hw : SessionProgress.Awaits st.net.app a t) : t ≠ .main ∧ Unfinished st (.app t) := by
  rcases hw with ⟨-, hm⟩ | ⟨u, i, -, -, hlive, rfl⟩
  · rcases h.laws.owned t hm with ⟨rfl, hl⟩ | ⟨i, rfl, hi⟩
    · have hhandling : st.net.listener.thread_ = .handling := by
        by_contra hne
        have hidle := (h.inv.net.outside hne).1
        rw [hidle] at hl
        simp at hl
      exact ⟨by decide, by simp [Unfinished, Listening, hhandling]⟩
    · exact ⟨by simp, live_of_locks hi⟩
  · exact ⟨by simp, hlive⟩

/-- **Every wait of the app goes down.** -/
theorem goes_down (h : Steady st) (ha : Alive st) (hl : Stands st l) :
    (step st l).isSome ∨ ∃ t, Awaits st l t ∧ rank st t < rank st (mover l) ∧ Unfinished st t := by
  by_cases hs : (step st l).isSome
  · exact .inl hs
  right
  cases l
  case joinDecode =>
    have hm : st.main = .tearing .decodeThread := hl
    have hd : st.decodeThread = .running := by
      by_contra hne
      refine hs ?_
      rw [isSome_step]
      simp [move, ha.app, hm, when, hne]
    refine ⟨.app .decode, ⟨hd, rfl⟩, ?_, hd⟩
    exact Nat.lt_succ_of_le (rank_le _ _)
  case net l =>
    cases l with
    | app a =>
      obtain ⟨hadmits, hstands, hcall⟩ := hl
      rcases (calm_of_steady h ha).goes_down hstands with hs' | ⟨t, hw, hlt, -⟩
      · exact absurd ((isSome_app ha).2 ⟨hadmits, hs', hcall⟩) hs
      · obtain ⟨hne, hunfinished⟩ := unfinished_of_awaits h hw
        refine ⟨.app t, ⟨t, hw, rfl⟩, ?_, hunfinished⟩
        have hrank : rank st (.app t) = SessionProgress.rank st.net.app t := by
          cases t
          case main => exact absurd rfl hne
          all_goals rfl
        rw [hrank]
        change _ < rank st (.app (SessionProgress.mover a))
        cases hmover : SessionProgress.mover a
        case main => exact Nat.lt_succ_of_le (rank_le _ _)
        all_goals
          rw [hmover] at hlt
          exact hlt
    | listener n =>
      cases n
      case join =>
        obtain ⟨hm, hst⟩ := hl
        have hlistening : Listening st := by
          by_contra hne
          refine hs ?_
          have hend : st.net.listener.thread_ = .notStarted ∨ st.net.listener.thread_ = .exited := by
            unfold Listening at hne
            by_contra hboth
            exact hne (not_or.1 hboth)
          rw [isSome_step]
          rcases hend with hend | hend <;>
            simp [move, ha.app, hm, Admits, TearDown.step, TearDown.Stands, TcpListener.step, when, hst,
              hend]
        refine ⟨.app .listener, ⟨hlistening, rfl⟩, ?_, hlistening⟩
        exact Nat.lt_succ_of_le (rank_le _ _)
      all_goals exact absurd hl hs
  all_goals exact absurd hl hs

/-- The thread that is joined has been told to stop. -/
def Told (st : State) : Label → Prop
  | .joinDecode => st.decodeRunning = false
  | .net (.listener .join) => st.net.listener.running_ = false ∧ st.net.listener.listenSock_ = false
  | .net (.app (.joined t)) => ∀ i ∈ st.net.app.joins t, (st.net.app.sessions i).closed = true
  | _ => True

theorem told_of_stands (h : Steady st) (hl : Stands st l) : Told st l := by
  cases l
  case joinDecode => exact h.told hl
  case net l =>
    cases l with
    | app a =>
      cases a
      case joined t => exact fun i hi => (h.laws.closed t i hi).2
      all_goals trivial
    | listener n =>
      cases n
      case join => exact ⟨h.lowered (.inr hl.2), h.inv.net.closed (.inl hl.2)⟩
      all_goals trivial
  all_goals trivial

theorem stands_of_step (h : Steady st) (ha : Alive st) (hs : (step st l).isSome) : Stands st l := by
  cases l
  case joinDecode =>
    obtain ⟨st', hs'⟩ := Option.isSome_iff_exists.1 hs
    obtain ⟨st₁, hm, -⟩ := step_eq_some hs'
    obtain ⟨-, hmoves⟩ := move_cases hm
    cases hmoves
    assumption
  case net l =>
    cases l with
    | app a =>
      obtain ⟨hadmits, hs', hcall⟩ := (isSome_app ha).1 hs
      exact ⟨hadmits, ((enabled_iff h.laws.waits ha.app).1 hs').1, hcall⟩
    | listener n =>
      cases n
      case join =>
        obtain ⟨st', hs'⟩ := Option.isSome_iff_exists.1 hs
        obtain ⟨st₁, hm, -⟩ := step_eq_some hs'
        obtain ⟨-, hmoves⟩ := move_cases hm
        cases hmoves
        case net net hadmits hn =>
          rcases TearDown.step_cases hn with ⟨a, ha', -⟩ | ⟨n, hn', -, -, hl⟩
          · cases ha'
          · cases hn'
            simp only [TcpListener.step, when_eq_some] at hl
            exact ⟨hadmits, hl.1.1⟩
      all_goals exact hs
  all_goals exact hs

end OpenDisplay.App.LifetimeProgress
