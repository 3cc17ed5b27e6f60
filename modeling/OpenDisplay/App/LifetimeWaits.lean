import OpenDisplay.App.LifetimeCalls

/-! # The app does not hang

A thread in a call stays where it is while the others move, so it may end the call at any time
(`stands_of_other`). `Orderly` says what the calls under way have to do with the mutexes: who has begun a
send to a session is the owner of its `sendMutex_`, and who has `sessionMutex` for a call is in it.

So who has begun a call waits for nobody, who has `sessionMutex` for one waits for nobody but a thread
that has begun one, and everybody else waits as in `App.LifetimeProgress`, or for one of these two. No
cycle of waits can form (`never_deadlocked`). -/

namespace OpenDisplay.App.LifetimeWaits

open OpenDisplay.Lib.Store OpenDisplay.Lib.Transition OpenDisplay.Lib.Waiting
open OpenDisplay.App.SessionJoins OpenDisplay.App.SessionMoves OpenDisplay.App.LifetimeCalls
open OpenDisplay.App.LifetimeProgress (Party Steady Alive Unfinished)

variable {st st' : State} {l : Label} {c : Call} {t : Party} {life life' : Lifetime.State}

/-! ## What the other threads leave -/

section Sessions

variable {app app' : Sessions.State} {a : Sessions.Label}

theorem mover_of_releaser {t : Sessions.Thread} (h : releaser a = some t) :
    SessionProgress.mover a = t := by
  cases a <;> simp only [releaser, reduceCtorEq, Option.some.injEq] at h <;> exact h

theorem listener_of_other (hs : Sessions.step app a = some app')
    (hm : SessionProgress.mover a ≠ .listener) : app'.listener = app.listener := by
  cases a <;>
    simp only [Sessions.step, Option.ite_none_left_eq_some, when_eq_some,
      Sessions.State.modify, Sessions.State.release] at hs <;>
    obtain ⟨-, -, rfl⟩ := hs
  case reapTake => split <;> rfl
  all_goals first | rfl | exact absurd rfl hm

/-- A read thread stays where it is while the others move. -/
theorem reader_of_other {i : ℕ} (hI : SessionCount.Inv app) (hs : Sessions.step app a = some app')
    (hm : SessionProgress.mover a ≠ .reader i) (hi : live (app.sessions i).reader = true) :
    (app'.sessions i).reader = (app.sessions i).reader := by
  by_cases ht : target app a = some i
  · rw [sessions_step_of_eq hs ht]
    cases a
    case acceptMake =>
      obtain rfl := Option.some.inj ht
      rw [(hI.fresh _ (Nat.le_refl _)).2] at hi
      cases hi
    case acceptStart =>
      simp only [Sessions.step, Option.ite_none_left_eq_some, when_eq_some] at hs
      obtain ⟨-, hE, -⟩ := hs
      obtain ⟨j, hj, hr⟩ := hI.unstarted (by simp [SessionCount.ListenerPc.BeforeStart, hE])
      obtain rfl : j = i := Option.some.inj (hj.symm.trans ht)
      rw [hr] at hi
      cases hi
    case readPing | readControl | readStats | readControlDone | readEnd | closedLock |
        closedResolve | closedRecord | closedDrop | closedUnlock =>
      cases ht
      exact absurd rfl hm
    all_goals simp [effect]
  · rw [sessions_step_of_ne hs ht]

end Sessions

section Others

variable {a : Lifetime.Label}

theorem free_of_other {t : Sessions.Thread} (hs : Lifetime.Moves life a life')
    (hm : LifetimeProgress.mover a ≠ .app t) (hf : life.net.app.Free t) : life'.net.app.Free t := by
  cases hs
  case net a net ha hn =>
    rcases TearDown.step_cases hn with ⟨a, rfl, happ, -⟩ | ⟨n, rfl, -, happ, -⟩
    · exact free_step happ (fun hr => hm (congrArg Party.app (mover_of_releaser hr))) hf
    · dsimp only
      rwa [happ]
  case listen net hl hn =>
    dsimp only
    rwa [(Lifetime.start_step hn).1]
  case destroy =>
    have ht : t ≠ .main := fun h => hm (congrArg Party.app h.symm)
    simp only [Sessions.State.Free, Sessions.State.release] at hf ⊢
    split
    · rwa [Function.update_of_ne ht]
    · exact hf
  all_goals exact hf

theorem main_of_other (hs : Lifetime.Moves life a life')
    (hm : LifetimeProgress.mover a ≠ .app .main) :
    life'.main = life.main ∧ life'.net.app.main = life.net.app.main ∧
      life'.net.listener.stop = life.net.listener.stop := by
  cases hs
  case net a net ha hn =>
    have hstop : net.listener.stop = life.net.listener.stop := by
      rcases Lifetime.stop_step hn with he | rfl | rfl | rfl | rfl
      · exact he
      all_goals exact absurd rfl hm
    refine ⟨rfl, ?_, hstop⟩
    rcases TearDown.step_cases hn with ⟨a, rfl, happ, -⟩ | ⟨n, rfl, -, happ, -⟩
    · rcases Lifetime.app_main_step happ with he | rfl | rfl | rfl | rfl | ⟨ok, rfl⟩ | rfl
      · exact he
      all_goals exact absurd rfl hm
    · dsimp only
      rw [happ]
  case exitDecode | resetTransform | attachTransform | selectFails => exact ⟨rfl, rfl, rfl⟩
  all_goals exact absurd rfl hm

theorem decode_of_other (hs : Lifetime.Moves life a life')
    (hm : LifetimeProgress.mover a ≠ .app .decode) (hd : life.decodeThread = .running) :
    life'.decodeThread = .running := by
  cases hs
  case joinDecode hne => exact absurd hd hne
  case exitDecode => exact absurd rfl hm
  case startDecode => rfl
  all_goals exact hd

/-- The sessions move as in `App.Sessions`, or keep the listener thread, the read threads and the mutex. -/
theorem app_of_move (hs : Lifetime.Moves life a life') :
    (∃ b, a = .net (.app b) ∧ Sessions.step life.net.app b = some life'.net.app) ∨
      life'.net.app.listener = life.net.app.listener ∧
        life'.net.app.sessionMutex = life.net.app.sessionMutex ∧
        ∀ i, (life'.net.app.sessions i).reader = (life.net.app.sessions i).reader := by
  cases hs
  case net a net ha hn =>
    rcases TearDown.step_cases hn with ⟨b, rfl, happ, -⟩ | ⟨n, rfl, -, happ, -⟩
    · exact .inl ⟨b, rfl, happ⟩
    · right
      dsimp only
      rw [happ]
      exact ⟨rfl, rfl, fun _ => rfl⟩
  case listen net hl hn =>
    right
    dsimp only
    rw [(Lifetime.start_step hn).1]
    exact ⟨rfl, rfl, fun _ => rfl⟩
  case destroy =>
    right
    refine ⟨rfl, rfl, fun i => ?_⟩
    simp [Sessions.State.release, Sessions.State.modify]
  all_goals exact .inr ⟨rfl, rfl, fun _ => rfl⟩

theorem sessionMutex_of_move (hs : Lifetime.Moves life a life') (hl : locks a = false)
    (hn : life.net.app.sessionMutex = none) : life'.net.app.sessionMutex = none := by
  rcases app_of_move hs with ⟨b, rfl, happ⟩ | ⟨-, he, -⟩
  · rcases SessionReap.sessionMutex_step happ with ⟨rfl, -⟩ | ⟨-, -, h⟩ | ⟨i, rfl, -⟩ | ⟨i, -, -, h⟩ | h
    · cases hl
    · exact h
    · cases hl
    · exact h
    · exact h.trans hn
  · exact he.trans hn

theorem stands_advertise (ha : Alive life) :
    LifetimeProgress.Stands life (Call.label .advertise) ↔ life.main = .setup .advertiser := by
  simp [LifetimeProgress.Stands, Call.label, LifetimeProgress.isSome_step, Lifetime.move, ha.app,
    ha.main, when, apply_ite]

theorem stands_stopMdns (ha : Alive life) :
    LifetimeProgress.Stands life (Call.label .stopMdns) ↔
      life.main = .tearing .listener ∧ life.net.listener.stop = .returned := by
  simp [LifetimeProgress.Stands, Call.label, LifetimeProgress.isSome_step, Lifetime.move, ha.app,
    ha.main, when, apply_ite]

theorem stands_destroy (ha : Alive life) :
    LifetimeProgress.Stands life (Call.label .destroy) ↔ life.main = .tornDown := by
  simp [LifetimeProgress.Stands, Call.label, LifetimeProgress.isSome_step, Lifetime.move, ha.app,
    ha.main, when, apply_ite]

/-- **A thread in front of the end of its call stays there while the others move.** -/
theorem stands_of_other (h : Steady life) (ha : Alive life) (ha' : Alive life')
    (hs : Lifetime.step life a = some life') (hm : LifetimeProgress.mover a ≠ c.mover)
    (hc : LifetimeProgress.Stands life c.label) : LifetimeProgress.Stands life' c.label := by
  obtain ⟨life₁, hmove, rfl⟩ := Lifetime.step_eq_some hs
  obtain ⟨-, hmoves⟩ := Lifetime.move_cases hmove
  have hreader : ∀ i, LifetimeProgress.mover a ≠ .app (.reader i) →
      live (life.net.app.sessions i).reader = true →
      (life₁.net.app.sessions i).reader = (life.net.app.sessions i).reader := by
    intro i hi hlive
    rcases app_of_move hmoves with ⟨b, rfl, happ⟩ | ⟨-, -, he⟩
    · exact reader_of_other h.inv.net.counted happ (fun hb => hi (congrArg Party.app hb)) hlive
    · exact he i
  cases c
  case acceptHello =>
    obtain ⟨-, ⟨hp, hf⟩, -⟩ := hc
    have hfree := free_of_other hmoves hm (hf (by simp))
    refine LifetimeProgress.stands_at ?_ trivial hfree (by simp)
    rcases app_of_move hmoves with ⟨b, rfl, happ⟩ | ⟨he, -, -⟩
    · exact (listener_of_other happ fun hb => hm (congrArg Party.app hb)).trans hp
    · exact he.trans hp
  case resizeHello =>
    obtain ⟨hadmits, ⟨hp, hf⟩, -⟩ := hc
    have hfree := free_of_other hmoves hm (hf (by simp))
    obtain ⟨hmain, hpc, -⟩ := main_of_other hmoves hm
    exact LifetimeProgress.stands_at (hpc.trans hp) (hmain.trans hadmits) hfree (by simp)
  case sendCurrent t m =>
    obtain ⟨hadmits, ⟨hp, hf⟩, -⟩ := hc
    have hfree := free_of_other hmoves hm (hf (by simp))
    cases t
    case listener => exact hp.elim
    case main =>
      obtain ⟨hmain, hpc, -⟩ := main_of_other hmoves hm
      refine LifetimeProgress.stands_at ?_ (hmain.trans hadmits) hfree (by simp)
      cases m <;> first | exact hp.elim | exact ⟨hpc.trans hp.1, hfree⟩
    case decode =>
      have hdecode := decode_of_other hmoves hm hadmits
      refine LifetimeProgress.stands_at ?_ hdecode hfree (by simp)
      cases m <;> first | exact hp.elim | trivial
    case reader i =>
      refine LifetimeProgress.stands_at ?_ trivial hfree (by simp)
      cases m
      case keyframe =>
        have hp' : (life.net.app.sessions i).reader = .running := hp
        exact (hreader i hm (by simp [hp', live])).trans hp'
      all_goals exact hp.elim
  case readPing i | readStats i =>
    obtain ⟨-, ⟨hp, hf⟩, -⟩ := hc
    have hfree := free_of_other hmoves hm (hf (by simp))
    refine LifetimeProgress.stands_at ?_ trivial hfree (by simp)
    have hlive : live (life.net.app.sessions i).reader = true := by
      rw [show (life.net.app.sessions i).reader = _ from hp]
      rfl
    exact (hreader i hm hlive).trans hp
  case advertise =>
    obtain ⟨hmain, -⟩ := main_of_other hmoves hm
    exact (stands_advertise ha').2 (hmain.trans ((stands_advertise ha).1 hc))
  case stopMdns =>
    obtain ⟨hmain, -, hstop⟩ := main_of_other hmoves hm
    obtain ⟨htearing, hreturned⟩ := (stands_stopMdns ha).1 hc
    exact (stands_stopMdns ha').2 ⟨hmain.trans htearing, hstop.trans hreturned⟩
  case destroy =>
    obtain ⟨hmain, -⟩ := main_of_other hmoves hm
    exact (stands_destroy ha').2 (hmain.trans ((stands_destroy ha).1 hc))

end Others

/-! ## The law -/

/-- Where a thread is that has got so far with a call. -/
structure Placed (life : Lifetime.State) (t : Party) (s : Stage) : Prop where
  mover : s.call.mover = t
  stands : Alive life → LifetimeProgress.Stands life s.call.label
  locks : ∀ c, s = .locked c → c.locks = true

/-- What the calls under way and the mutexes have to do with each other. -/
structure Orderly (st : State) : Prop where
  steady : Steady st.life
  placed : ∀ t s, st.calls t = some s → Placed st.life t s
  sender : ∀ t, st.sender = some t ↔ ∃ s, st.calls t = some s ∧ s.call.locks = true
  free : st.sender ≠ none → st.life.net.app.sessionMutex = none
  owner : ∀ i t, st.sendMutex_ i = some t ↔ ∃ c, st.calls t = some (.begun c (some i))

theorem orderly_initial : Orderly initial where
  steady := LifetimeProgress.steady_initial
  placed := fun _ _ h => by cases h
  sender := fun _ => ⟨fun h => (by cases h), fun ⟨_, h, _⟩ => (by cases h)⟩
  free := fun _ => rfl
  owner := fun _ _ => ⟨fun h => (by cases h), fun ⟨_, h⟩ => (by cases h)⟩

theorem placed_update {f : Party → Option Stage} {o : Option Stage}
    (h : ∀ u, u ≠ t → ∀ s, f u = some s → Placed life u s) (ho : ∀ s, o = some s → Placed life t s) :
    ∀ u s, Function.update f t o u = some s → Placed life u s := by
  intro u s hs
  by_cases hu : u = t
  · subst hu
    rw [Function.update_self] at hs
    exact ho s hs
  · rw [Function.update_of_ne hu] at hs
    exact h u hu s hs

/-- The mutex is free in front of a call that is made under it. -/
theorem free_of_isSome (h : Steady life) (hl : c.locks = true)
    (hs : (Lifetime.step life c.label).isSome = true) : life.net.app.sessionMutex = none := by
  have ha := alive_of_isSome hs
  cases c <;> simp only [Call.locks, Bool.false_eq_true] at hl
  obtain ⟨-, hs', -⟩ := (LifetimeProgress.isSome_app ha).1 hs
  exact ((SessionProgress.enabled_iff h.laws.waits ha.app).1 hs').2.1 rfl

theorem orderly_lock (h : Orderly st) (hl : c.locks = true) (hc : st.calls c.mover = none)
    (hf : st.sender = none) (hs : (Lifetime.step st.life c.label).isSome = true) :
    Orderly (st.lockCall c) where
  steady := h.steady
  placed := by
    refine placed_update (fun u _ s hu => h.placed u s hu) ?_
    rintro _ ⟨⟩
    refine ⟨rfl, fun ha => LifetimeProgress.stands_of_step h.steady ha hs, ?_⟩
    rintro _ ⟨⟩
    exact hl
  sender t := by
    by_cases ht : t = c.mover
    · subst ht
      simp [State.lockCall, Stage.call, hl]
    · have hnone := h.sender t
      rw [hf] at hnone
      unfold State.lockCall
      dsimp only
      rw [Function.update_of_ne ht, ← hnone]
      simp [Ne.symm ht]
  free _ := free_of_isSome h.steady hl hs
  owner i t := by
    refine (h.owner i t).trans ?_
    unfold State.lockCall
    dsimp only
    by_cases ht : t = c.mover
    · subst ht
      simp [hc]
    · rw [Function.update_of_ne ht]

/-- The stage in front of a call. -/
theorem calls_of_before (hb : st.Before c) :
    c.locks = true ∧ st.calls c.mover = some (.locked c) ∨
      c.locks = false ∧ st.calls c.mover = none ∧ (Lifetime.step st.life c.label).isSome = true := by
  unfold State.Before at hb
  split at hb
  · exact .inl ⟨‹_›, hb⟩
  · exact .inr ⟨Bool.eq_false_iff.2 ‹_›, hb⟩

theorem orderly_begin (h : Orderly st) (hb : st.Before c) (hf : st.SendFree c) :
    Orderly (st.beginCall c) where
  steady := h.steady
  placed := by
    refine placed_update (fun u _ s hu => h.placed u s hu) ?_
    rintro _ ⟨⟩
    refine ⟨rfl, fun ha => ?_, fun _ hc => by cases hc⟩
    rcases calls_of_before hb with ⟨-, hc⟩ | ⟨-, -, hs⟩
    · exact (h.placed _ _ hc).stands ha
    · exact LifetimeProgress.stands_of_step h.steady ha hs
  sender t := by
    refine (h.sender t).trans ?_
    by_cases ht : t = c.mover
    · subst ht
      rw [calls_beginCall]
      rcases calls_of_before hb with ⟨hl, hc⟩ | ⟨hl, hc, -⟩ <;> simp [hc, Stage.call, hl]
    · rw [calls_beginCall_of_ne st ht]
  free := h.free
  owner i t := by
    rw [sendMutex_beginCall]
    by_cases ht : t = c.mover
    · subst ht
      rw [calls_beginCall]
      have hnot : ¬∃ c', st.calls c.mover = some (.begun c' (some i)) := by
        rintro ⟨c', hc'⟩
        rcases calls_of_before hb with ⟨-, hc⟩ | ⟨-, hc, -⟩ <;> rw [hc] at hc' <;> cases hc'
      by_cases hv : c.session st.life.net.app = some i
      · simp [hv]
      · rw [modifyAt_of_ne _ hv, h.owner]
        simp [hnot, hv]
    · rw [calls_beginCall_of_ne st ht, ← h.owner]
      by_cases hv : c.session st.life.net.app = some i
      · rw [modifyAt_of_eq _ hv, hf i hv]
        simp [Ne.symm ht]
      · rw [modifyAt_of_ne _ hv]

/-- A call under way stays under way while another thread moves. -/
theorem Placed.of_other {a : Lifetime.Label} {s : Stage} (h : Placed life t s) (hsteady : Steady life)
    (hs : Lifetime.step life a = some life') (hm : LifetimeProgress.mover a ≠ t) : Placed life' t s where
  mover := h.mover
  stands ha' := by
    have ha := alive_of_isSome (Option.isSome_iff_exists.2 ⟨_, hs⟩)
    exact stands_of_other hsteady ha ha' hs (h.mover ▸ hm) (h.stands ha)
  locks := h.locks

theorem free_of_step {a : Lifetime.Label} (hs : Lifetime.step life a = some life')
    (hl : ¬locks a = true) (hn : life.net.app.sessionMutex = none) :
    life'.net.app.sessionMutex = none := by
  obtain ⟨life₁, hmove, rfl⟩ := Lifetime.step_eq_some hs
  obtain ⟨-, hmoves⟩ := Lifetime.move_cases hmove
  have hkeep := sessionMutex_of_move hmoves (Bool.eq_false_iff.2 hl) hn
  exact hkeep

theorem orderly_move {a : Lifetime.Label} (h : Orderly st)
    (hc : st.calls (LifetimeProgress.mover a) = none) (hf : locks a = true → st.sender = none)
    (hs : Lifetime.step st.life a = some life') : Orderly { st with life := life' } where
  steady := LifetimeProgress.steady_step h.steady hs
  placed t s ht := by
    refine (h.placed t s ht).of_other h.steady hs ?_
    rintro rfl
    rw [hc] at ht
    cases ht
  sender := h.sender
  free hsender := free_of_step hs (fun hl => hsender (hf hl)) (h.free hsender)
  owner := h.owner

theorem orderly_end {a : Lifetime.Label} {v : Option ℕ} (h : Orderly st) (he : ends a = some c)
    (hc : st.calls c.mover = some (.begun c v)) (hs : Lifetime.step st.life a = some life') :
    Orderly (st.endCall c v life') where
  steady := LifetimeProgress.steady_step h.steady hs
  placed := by
    refine placed_update (fun u hu s hs' => ?_) fun _ hn => by cases hn
    refine (h.placed u s hs').of_other h.steady hs ?_
    rw [mover_of_ends he]
    exact hu.symm
  sender t := by
    have hsender := h.sender t
    have hmover := h.sender c.mover
    rw [hc] at hmover
    simp only [State.endCall]
    by_cases ht : t = c.mover
    · subst ht
      rw [Function.update_self]
      cases hl : c.locks <;> simp_all [Stage.call]
    · rw [Function.update_of_ne ht, ← hsender]
      cases hl : c.locks with
      | false => simp
      | true =>
        have hs' : st.sender = some c.mover := hmover.2 ⟨_, rfl, hl⟩
        simp [hs', Ne.symm ht]
  free hsender := by
    simp only [State.endCall] at hsender ⊢
    cases hl : c.locks with
    | true => simp [hl] at hsender
    | false =>
      rw [hl] at hsender
      refine free_of_step hs (fun hlock => ?_) (h.free (by simpa using hsender))
      rw [locks_of_ends he, hl] at hlock
      cases hlock
  owner i t := by
    have hmover := h.owner i c.mover
    rw [hc] at hmover
    simp only [State.endCall]
    by_cases ht : t = c.mover
    · subst ht
      rw [Function.update_self]
      by_cases hv : v = some i
      · simp [modifyAt_of_eq _ hv]
      · rw [modifyAt_of_ne _ hv, hmover]
        simp [hv]
    · rw [Function.update_of_ne ht, ← h.owner]
      by_cases hv : v = some i
      · have hi : st.sendMutex_ i = some c.mover := hmover.2 ⟨c, by rw [hv]⟩
        rw [modifyAt_of_eq _ hv, hi]
        simp [Ne.symm ht]
      · rw [modifyAt_of_ne _ hv]

theorem orderly_step (h : Orderly st) (hs : step st l = some st') : Orderly st' := by
  cases step_iff.1 hs with
  | lock hl hc hf hsome => exact orderly_lock h hl hc hf hsome
  | begin hb hf => exact orderly_begin h hb hf
  | move he hc hf hlife => exact orderly_move h hc hf hlife
  | ends he hc hlife => exact orderly_end h he hc hlife

theorem orderly_of_reaches {ok : State → Label → Prop} (h : Reaches step ok initial st) : Orderly st :=
  h.invariant orderly_initial fun _ _ _ hi _ hs => orderly_step hi hs

/-! ## Where the threads stand -/

/-- The thread that makes a move. -/
def mover : Label → Party
  | .lock c | .begin c => c.mover
  | .move a => LifetimeProgress.mover a

/-- The thread of the move stands in front of it: of a call, of its end, or of another move. -/
def Stands (st : State) : Label → Prop
  | .lock c => c.locks = true ∧ st.calls c.mover = none ∧ LifetimeProgress.Stands st.life c.label
  | .begin c =>
    if c.locks then st.calls c.mover = some (.locked c)
    else st.calls c.mover = none ∧ LifetimeProgress.Stands st.life c.label
  | .move a =>
    match ends a with
    | some c => ∃ v, st.calls c.mover = some (.begun c v)
    | none => st.calls (LifetimeProgress.mover a) = none ∧ LifetimeProgress.Stands st.life a

/-- For whom the thread waits in front of the move. -/
def Awaits (st : State) : Label → Party → Prop
  | .lock c, t => LifetimeProgress.Awaits st.life c.label t ∨ st.sender = some t
  | .begin c, t => ∃ i ∈ c.session st.life.net.app, st.sendMutex_ i = some t
  | .move a, t =>
    ends a = none ∧ (LifetimeProgress.Awaits st.life a t ∨ locks a = true ∧ st.sender = some t)

/-- A state as a scene of threads that wait for each other. -/
def scene (st : State) : Scene Party Label := ⟨mover, Stands st, fun l => (step st l).isSome, Awaits st⟩

/-- Who is joined in front of the move has been told to stop. -/
def Told (st : State) : Label → Prop
  | .move a => LifetimeProgress.Told st.life a
  | _ => True

theorem stands_of_call {s : Stage} (h : Orderly st) (hs : st.calls t = some s) :
    ∃ l, mover l = t ∧ Stands st l := by
  have hp := h.placed t s hs
  obtain rfl := hp.mover
  cases s with
  | locked c =>
    refine ⟨.begin c, rfl, ?_⟩
    rw [Stands, if_pos (hp.locks c rfl)]
    exact hs
  | begun c v =>
    refine ⟨.move c.label, rfl, ?_⟩
    rw [Stands, ends_label]
    exact ⟨v, hs⟩

theorem stands_of_life {a : Lifetime.Label} (hc : st.calls (LifetimeProgress.mover a) = none)
    (hs : LifetimeProgress.Stands st.life a) :
    ∃ l, mover l = LifetimeProgress.mover a ∧ Stands st l := by
  cases he : ends a with
  | none =>
    refine ⟨.move a, rfl, ?_⟩
    rw [Stands, he]
    exact ⟨hc, hs⟩
  | some c =>
    rw [mover_of_ends he] at hc ⊢
    have hs' := (stands_of_ends he).1 hs
    cases hl : c.locks with
    | true => exact ⟨.lock c, rfl, hl, hc, hs'⟩
    | false =>
      refine ⟨.begin c, rfl, ?_⟩
      rw [Stands, if_neg (by simp [hl])]
      exact ⟨hc, hs'⟩

theorem stands_of_unfinished (h : Orderly st) (ha : Alive st.life) (ht : Unfinished st.life t) :
    ∃ l, mover l = t ∧ Stands st l := by
  cases hc : st.calls t with
  | some s => exact stands_of_call h hc
  | none =>
    obtain ⟨a, rfl, hs⟩ := LifetimeProgress.stands_of_unfinished h.steady ha ht
    exact stands_of_life hc hs

theorem told_of_stands (h : Orderly st) (hl : Stands st l) : Told st l := by
  cases l with
  | lock | begin => trivial
  | move a =>
    cases he : ends a with
    | none =>
      rw [Stands, he] at hl
      exact LifetimeProgress.told_of_stands h.steady hl.2
    | some c => cases ends_cases he <;> trivial

theorem stands_of_step (h : Orderly st) (ha : Alive st.life) (hs : step st l = some st') :
    Stands st l := by
  cases step_iff.1 hs with
  | lock hl hc hf hsome => exact ⟨hl, hc, LifetimeProgress.stands_of_step h.steady ha hsome⟩
  | begin hb hf =>
    rcases calls_of_before hb with ⟨hl, hc⟩ | ⟨hl, hc, hsome⟩
    · rw [Stands, if_pos hl]
      exact hc
    · rw [Stands, if_neg (by simp [hl])]
      exact ⟨hc, LifetimeProgress.stands_of_step h.steady ha hsome⟩
  | move he hc hf hlife =>
    rw [Stands, he]
    exact ⟨hc, LifetimeProgress.stands_of_step h.steady ha (by rw [hlife]; rfl)⟩
  | ends he hc hlife =>
    rw [Stands, he]
    exact ⟨_, hc⟩

/-! ## The waits -/

/-- Who has begun a call waits for nobody, and who has the mutex for one waits for such a thread. The
others are ordered as in `App.LifetimeProgress`. -/
def rank (st : State) (t : Party) : ℕ :=
  match st.calls t with
  | some (.begun _ _) => 0
  | some (.locked _) => 1
  | none => LifetimeProgress.rank st.life t + 1

theorem rank_le_one {s : Stage} (hs : st.calls t = some s) : rank st t ≤ 1 := by
  unfold rank
  rw [hs]
  cases s <;> simp

theorem rank_of_calls (hc : st.calls t = none) : rank st t = LifetimeProgress.rank st.life t + 1 := by
  unfold rank
  rw [hc]

/-- The owner of the mutex stands in front of nothing that takes it. -/
theorem rank_pos {a : Lifetime.Label} (h : Steady life) (ha : Alive life)
    (hs : LifetimeProgress.Stands life a) (hl : locks a = true) :
    0 < LifetimeProgress.rank life (LifetimeProgress.mover a) := by
  unfold locks at hl
  split at hl
  case h_2 => cases hl
  case h_1 a =>
    have hne := (LifetimeProgress.calm_of_steady h ha).not_owner hs.2.1 hl
    change 0 < LifetimeProgress.rank life (.app (SessionProgress.mover a))
    cases hm : SessionProgress.mover a with
    | main => exact Nat.succ_pos _
    | listener | decode | reader i =>
      rw [hm] at hne
      simp only [LifetimeProgress.rank, SessionProgress.rank, if_neg hne]
      split
      · exact Nat.one_pos
      · exact Nat.two_pos

/-- A thread in front of the end of its call may go there. -/
theorem isSome_of_stands (h : Steady life) (ha : Alive life)
    (hf : c.locks = true → life.net.app.sessionMutex = none)
    (hs : LifetimeProgress.Stands life c.label) : (Lifetime.step life c.label).isSome = true := by
  cases c
  case advertise | stopMdns | destroy => exact hs
  all_goals
    obtain ⟨hadmits, hstands, hcall⟩ := hs
    refine (LifetimeProgress.isSome_app ha).2 ⟨hadmits, ?_, hcall⟩
    refine (SessionProgress.enabled_iff h.laws.waits ha.app).2 ⟨hstands, ?_, fun t ht => by cases ht⟩
    first
      | exact fun _ => hf rfl
      | exact fun hl => by cases hl

/-- A thread below, which stands somewhere. -/
def Below (st : State) (u t : Party) : Prop := rank st t < rank st u ∧ ∃ l, mover l = t ∧ Stands st l

/-- The waits of a thread that is in no call. -/
theorem down_of_life {a : Lifetime.Label} (h : Orderly st) (ha : Alive st.life)
    (hc : st.calls (LifetimeProgress.mover a) = none) (hl : LifetimeProgress.Stands st.life a) :
    (Lifetime.step st.life a).isSome = true ∨
      ∃ t, LifetimeProgress.Awaits st.life a t ∧ Below st (LifetimeProgress.mover a) t := by
  rcases LifetimeProgress.goes_down h.steady ha hl with hs | ⟨t, hw, hlt, hunfinished⟩
  · exact .inl hs
  · refine .inr ⟨t, hw, ?_, stands_of_unfinished h ha hunfinished⟩
    rw [rank_of_calls hc]
    cases ht : st.calls t with
    | none =>
      rw [rank_of_calls ht]
      omega
    | some s =>
      have := rank_le_one ht
      omega

/-- The wait for a thread that has `sessionMutex` for a call. -/
theorem below_sender {a : Lifetime.Label} (h : Orderly st) (ha : Alive st.life)
    (hc : st.calls (LifetimeProgress.mover a) = none) (hl : LifetimeProgress.Stands st.life a)
    (hlock : locks a = true) (ht : st.sender = some t) : Below st (LifetimeProgress.mover a) t := by
  obtain ⟨s, hs, -⟩ := (h.sender t).1 ht
  refine ⟨?_, stands_of_call h hs⟩
  have hle := rank_le_one hs
  have hpos := rank_pos h.steady ha hl hlock
  rw [rank_of_calls hc]
  omega

theorem down_of_lock (h : Orderly st) (ha : Alive st.life) (hl : Stands st (.lock c)) :
    (step st (.lock c)).isSome = true ∨ ∃ t, Awaits st (.lock c) t ∧ Below st c.mover t := by
  obtain ⟨hlock, hc, hstands⟩ := hl
  cases hs : st.sender with
  | some t =>
    have hlocks : locks c.label = true := (locks_of_ends (ends_label c)).trans hlock
    exact .inr ⟨t, .inr hs, below_sender h ha hc hstands hlocks hs⟩
  | none =>
    rcases down_of_life h ha hc hstands with hsome | ⟨t, hw, hbelow⟩
    · left
      rw [step_iff.2 (.lock hlock hc hs hsome)]
      rfl
    · exact .inr ⟨t, .inl hw, hbelow⟩

/-- The only wait in front of a call is for the `sendMutex_` of its session. -/
theorem before_of_stands (h : Orderly st) (ha : Alive st.life) (hl : Stands st (.begin c)) :
    st.Before c := by
  unfold State.Before
  rw [Stands] at hl
  split at hl
  case isTrue hlock =>
    rw [if_pos hlock]
    exact hl
  case isFalse hlock =>
    rw [if_neg hlock]
    exact ⟨hl.1, isSome_of_stands h.steady ha (fun hlock' => absurd hlock' hlock) hl.2⟩

theorem down_of_begin (h : Orderly st) (ha : Alive st.life) (hl : Stands st (.begin c)) :
    (step st (.begin c)).isSome = true ∨ ∃ t, Awaits st (.begin c) t ∧ Below st c.mover t := by
  have hb := before_of_stands h ha hl
  by_cases hf : st.SendFree c
  · left
    rw [step_iff.2 (.begin hb hf)]
    rfl
  · right
    unfold State.SendFree at hf
    push Not at hf
    obtain ⟨i, hi, hne⟩ := hf
    obtain ⟨t, ht⟩ := Option.ne_none_iff_exists'.1 hne
    obtain ⟨c', hc'⟩ := (h.owner i t).1 ht
    refine ⟨t, ⟨i, hi, ht⟩, ?_, stands_of_call h hc'⟩
    have hzero : rank st t = 0 := by rw [rank, hc']
    rw [hzero]
    rcases calls_of_before hb with ⟨-, hc⟩ | ⟨-, hc, -⟩
    · rw [rank, hc]
      exact Nat.one_pos
    · rw [rank_of_calls hc]
      exact Nat.succ_pos _

theorem down_of_move {a : Lifetime.Label} (h : Orderly st) (ha : Alive st.life)
    (hl : Stands st (.move a)) :
    (step st (.move a)).isSome = true ∨
      ∃ t, Awaits st (.move a) t ∧ Below st (LifetimeProgress.mover a) t := by
  cases he : ends a with
  | none =>
    rw [Stands, he] at hl
    obtain ⟨hc, hstands⟩ := hl
    by_cases hf : locks a = true → st.sender = none
    · rcases down_of_life h ha hc hstands with hsome | ⟨t, hw, hbelow⟩
      · left
        obtain ⟨life, hlife⟩ := Option.isSome_iff_exists.1 hsome
        rw [step_iff.2 (.move he hc hf hlife)]
        rfl
      · exact .inr ⟨t, ⟨he, .inl hw⟩, hbelow⟩
    · push Not at hf
      obtain ⟨hlock, hne⟩ := hf
      obtain ⟨t, ht⟩ := Option.ne_none_iff_exists'.1 hne
      exact .inr ⟨t, ⟨he, .inr ⟨hlock, ht⟩⟩, below_sender h ha hc hstands hlock ht⟩
  | some c =>
    -- the end of a call
    left
    rw [Stands, he] at hl
    obtain ⟨v, hc⟩ := hl
    have hfree : c.locks = true → st.life.net.app.sessionMutex = none := by
      intro hlock
      refine h.free ?_
      rw [(h.sender c.mover).2 ⟨_, hc, hlock⟩]
      simp
    have hsome := isSome_of_stands h.steady ha hfree ((h.placed _ _ hc).stands ha)
    rw [← isSome_of_ends he] at hsome
    obtain ⟨life, hlife⟩ := Option.isSome_iff_exists.1 hsome
    rw [step_iff.2 (.ends he hc hlife)]
    rfl

/-- **Every wait goes down.** -/
theorem goes_down (h : Orderly st) (ha : Alive st.life) (hl : Stands st l) :
    (step st l).isSome = true ∨ ∃ t, Awaits st l t ∧ Below st (mover l) t := by
  cases l with
  | lock c => exact down_of_lock h ha hl
  | begin c => exact down_of_begin h ha hl
  | move a => exact down_of_move h ha hl

/-- **The app never deadlocks.** In every state of every run in which the process has neither been
terminated nor ended: each thread that has not ended stands somewhere; wherever it stands it gets on, in
that no cycle of waits can form; a thread that makes a move stood there; whoever is joined has been
told to stop. -/
theorem never_deadlocked {ok : State → Label → Prop} (h : Reaches step ok initial st)
    (ha : Alive st.life) :
    (∀ t, Unfinished st.life t → ∃ l, mover l = t ∧ Stands st l) ∧
      (∀ l, Stands st l → Progresses (scene st) l ∧ Told st l) ∧
      ∀ l, (step st l).isSome = true → Stands st l := by
  have horderly := orderly_of_reaches h
  refine ⟨fun t ht => stands_of_unfinished horderly ha ht,
    fun l hl => ⟨?_, told_of_stands horderly hl⟩, fun l hs => ?_⟩
  · exact progresses_of_rank (c := scene st) (rank st) (fun _ hl => goes_down horderly ha hl) hl
  · obtain ⟨st', hs'⟩ := Option.isSome_iff_exists.1 hs
    exact stands_of_step horderly ha hs'

/-- The main thread has `sessionMutex` for a touch, while the read thread is in `::send` with a ping. -/
def touchLife : List Label :=
  (Lifetime.quietLife.take 20).flatMap whole ++
    ([.begin (.readPing 0), .lock (.sendCurrent .main .touch)] : List Label)

theorem exec_touchLife : (exec step initial touchLife).isSome = true := by decide

theorem never_deadlocked_touchLife :
    ∃ st, exec step initial touchLife = some st ∧
      st.sender = some (.app .main) ∧ st.sendMutex_ 0 = some (.app (.reader 0)) ∧
      step st (.begin (.sendCurrent .main .touch)) = none ∧
      Progresses (scene st) (.begin (.sendCurrent .main .touch)) := by
  have hst := (Option.some_get exec_touchLife).symm
  have hmeets : Meets step (fun _ _ => True) initial touchLife :=
    meets_of_forall (fun _ _ _ => trivial) initial
  have hreach := reaches_of_exec touchLife hmeets hst
  have hsender : ((exec step initial touchLife).get exec_touchLife).sender = some (.app .main) := by
    decide
  have howner : ((exec step initial touchLife).get exec_touchLife).sendMutex_ 0 =
      some (.app (.reader 0)) := by decide
  have hblocked : (step ((exec step initial touchLife).get exec_touchLife)
      (.begin (.sendCurrent .main .touch))).isNone = true := by decide
  have halive : Alive ((exec step initial touchLife).get exec_touchLife).life :=
    ⟨by decide, by decide⟩
  have hcalls : ((exec step initial touchLife).get exec_touchLife).calls (.app .main) =
      some (.locked (.sendCurrent .main .touch)) := by decide
  obtain ⟨-, hstands, -⟩ := never_deadlocked hreach halive
  exact ⟨_, hst, hsender, howner, Option.isNone_iff_eq_none.1 hblocked,
    (hstands (.begin (.sendCurrent .main .touch)) hcalls).1⟩

end OpenDisplay.App.LifetimeWaits
