import OpenDisplay.App.SessionCount

/-!
# Which sessions the main loop reaps

`onClosed` leaves the address of its session in `endedSession` when the session is the current
one, and `ReapEndedSession` removes the current session when its address is the one recorded.  The
record is an address and outlives the session it names: a replacement between `onClosed` and the
next pass of the main loop leaves it in place, and the object it names is freed.  `FreshAddress`
says of a move that it does not install a session at that address.  In runs of such moves a pass
removes the current session exactly when its `onClosed` has run.
-/

namespace OpenDisplay.App.SessionReap

open OpenDisplay.Lib.Store OpenDisplay.Lib.Transition OpenDisplay.App.Sessions
open OpenDisplay.App.SessionMoves OpenDisplay.App.SessionCount

variable {st st' : State} {l : Label} {i k : ℕ}

/-! ## The owner of the mutex -/

/-- A read thread is in the critical section of `onClosed` only if it was there or enters it. -/
theorem locks_step (hs : step st l = some st') (hk : (st'.sessions k).reader.locks = true) :
    l ≠ .closedUnlock k ∧ ((st.sessions k).reader.locks = true ∨ l = .closedLock k) := by
  by_cases ht : target st l = some k
  · rw [sessions_step_of_eq hs ht] at hk
    cases l
    case acceptMake | acceptStart | readControlDone | readEnd | closedUnlock => cases hk
    case readControl =>
      rw [effect, Session.reader_lock] at hk
      split at hk <;> cases hk
    case closedLock =>
      cases ht
      exact ⟨by simp, .inr rfl⟩
    case closedResolve | closedRecord | closedDrop =>
      cases ht
      refine ⟨by simp, .inl ?_⟩
      rw [reader_of_step hs rfl]
      rfl
    all_goals
      simp only [effect, Session.reader_retain, Session.reader_close, Session.reader_release,
        Session.reader_sendControl, Session.reader_free, id_eq] at hk
      exact ⟨by simp, .inl hk⟩
  · rw [sessions_step_of_ne hs ht] at hk
    refine ⟨?_, .inl hk⟩
    rintro rfl
    exact ht rfl

/-- `sessionMutex` belongs to the thread that is inside a critical section of several steps. -/
structure Exclusive (st : State) : Prop where
  reader : ∀ i, (st.sessions i).reader.locks = true → st.sessionMutex = some (.reader i)
  listener : st.listener = .assigned ∨ st.listener = .unlocking →
    st.sessionMutex = some .listener

theorem exclusive_initial : Exclusive initial := by
  constructor <;> simp [initial, Session.blank, ReaderPc.locks]

/-- The mutex changes hands in four places. -/
theorem sessionMutex_step (hs : step st l = some st') :
    (l = .acceptAssign ∧ st.sessionMutex = none ∧ st'.sessionMutex = some .listener) ∨
    (l = .acceptUnlock ∧ st.listener = .unlocking ∧ st'.sessionMutex = none) ∨
    (∃ i, l = .closedLock i ∧ st.sessionMutex = none ∧ st'.sessionMutex = some (.reader i)) ∨
    (∃ i, l = .closedUnlock i ∧ (st.sessions i).reader = .unlocking ∧ st'.sessionMutex = none) ∨
    st'.sessionMutex = st.sessionMutex := by
  cases l <;>
    simp only [step, Option.ite_none_left_eq_some, when_eq_some, State.modify,
      State.release] at hs <;>
    obtain ⟨-, hE, rfl⟩ := hs
  case acceptAssign => exact .inl ⟨rfl, hE.2, rfl⟩
  case acceptUnlock => exact .inr (.inl ⟨rfl, hE.1, rfl⟩)
  case closedLock i => exact .inr (.inr (.inl ⟨i, rfl, hE.2, rfl⟩))
  case closedUnlock i => exact .inr (.inr (.inr (.inl ⟨i, rfl, hE, rfl⟩)))
  case reapTake => split <;> simp
  all_goals simp

theorem listener_locks_step (hs : step st l = some st')
    (hl : st'.listener = .assigned ∨ st'.listener = .unlocking) :
    st.listener = .assigned ∨ st.listener = .unlocking ∨ l = .acceptAssign := by
  cases l <;>
    simp only [step, Option.ite_none_left_eq_some, when_eq_some, State.modify,
      State.release] at hs <;>
    obtain ⟨-, hE, rfl⟩ := hs <;> try dsimp only at hl
  case acceptCopy => split at hl <;> simp at hl
  case reapTake => split at hl <;> simpa [or_assoc] using hl
  all_goals simp_all

theorem exclusive_step (h : Exclusive st) (hs : step st l = some st') : Exclusive st' := by
  have hr := fun k => locks_step (k := k) hs
  have hl := listener_locks_step hs
  rcases sessionMutex_step hs with ⟨rfl, hm, hm'⟩ | ⟨rfl, hu, hm'⟩ | ⟨i, rfl, hm, hm'⟩ |
    ⟨i, rfl, hu, hm'⟩ | hm'
  · -- `acceptAssign`: no read thread is in the section, as the mutex was free
    constructor
    · intro k hk
      have := h.reader k (by simpa using (hr k hk).2)
      simp [hm] at this
    · intro _
      exact hm'
  · -- `acceptUnlock`: the listener thread had the mutex
    have hm := h.listener (.inr hu)
    constructor
    · intro k hk
      have := h.reader k (by simpa using (hr k hk).2)
      simp [hm] at this
    · intro hk
      simp only [step, Option.ite_none_left_eq_some, when_eq_some] at hs
      obtain ⟨-, -, rfl⟩ := hs
      simp at hk
  · -- `closedLock i`: the mutex was free
    constructor
    · intro k hk
      rcases (hr k hk).2 with hk | hk
      · have := h.reader k hk
        simp [hm] at this
      · rw [hm', Label.closedLock.inj hk]
    · intro hk
      have := h.listener (by simpa using hl hk)
      simp [hm] at this
  · -- `closedUnlock i`: the read thread `i` had the mutex
    have hm := h.reader i (by rw [hu]; rfl)
    constructor
    · intro k hk
      have hk' := h.reader k (by simpa using (hr k hk).2)
      obtain rfl : k = i := by simpa [hm, eq_comm] using hk'
      simpa using (hr k hk).1
    · intro hk
      have := h.listener (by simpa using hl hk)
      simp [hm] at this
  · constructor
    · intro k hk
      rcases (hr k hk).2 with hk | rfl
      · exact hm'.trans (h.reader k hk)
      · simp only [step, Option.ite_none_left_eq_some, when_eq_some] at hs
        obtain ⟨-, -, rfl⟩ := hs
        rfl
    · intro hk
      rcases hl hk with hl | hl | rfl
      · exact hm'.trans (h.listener (.inl hl))
      · exact hm'.trans (h.listener (.inr hl))
      · simp only [step, Option.ite_none_left_eq_some, when_eq_some] at hs
        obtain ⟨-, -, rfl⟩ := hs
        rfl

theorem exclusive_of_reaches {ok : State → Label → Prop} (h : Reaches step ok initial st) :
    Exclusive st :=
  h.invariant exclusive_initial fun _ _ _ he _ hs => exclusive_step he hs

/-! ## The recorded address -/

/-- The installed session does not have the address that `endedSession` holds. -/
def FreshAddress (st : State) (l : Label) : Prop :=
  l = .acceptAssign → ∀ i ∈ st.s, st.endedSession ≠ some (st.sessions i).addr

instance (st : State) (l : Label) : Decidable (FreshAddress st l) := by
  unfold FreshAddress
  infer_instance

/-- `onClosed` has compared `App::session` with its own session, or had none to compare. -/
def marked : ReaderPc → Bool
  | .recorded | .unlocking | .exited => true
  | _ => false

theorem marked_step (hI : Inv st) (hs : step st l = some st') (hk : st.session = some k)
    (hl : l ≠ .closedRecord k) :
    marked (st'.sessions k).reader = marked (st.sessions k).reader := by
  have hpos : 0 < owners st k := by
    rw [owners, references, owns_eq_one hk]
    omega
  have hrefs : (st.sessions k).refs ≠ 0 := by
    rw [hI.counted k]
    omega
  by_cases ht : target st l = some k
  · rw [sessions_step_of_eq hs ht]
    cases l
    case acceptMake =>
      have hc := lt_created hI hpos
      rw [target, Option.some.injEq] at ht
      omega
    case acceptStart =>
      simp only [step, Option.ite_none_left_eq_some, when_eq_some] at hs
      obtain ⟨-, hE, -⟩ := hs
      obtain ⟨i, hsi, hi⟩ := hI.unstarted (by simp [ListenerPc.BeforeStart, hE])
      obtain rfl : i = k := Option.some.inj (hsi.symm.trans ht)
      rw [hi]
      rfl
    case closedRecord =>
      cases ht
      exact absurd rfl hl
    case readControl | closedResolve =>
      cases ht
      rw [effect, Session.reader_lock, if_neg hrefs, reader_of_step hs rfl]
      rfl
    case readControlDone | readEnd | closedLock | closedDrop | closedUnlock =>
      cases ht
      rw [reader_of_step hs rfl]
      rfl
    all_goals simp [effect]
  · rw [sessions_step_of_ne hs ht]

/-- What a move does to the two fields that `sessionMutex` guards. -/
theorem session_step (hs : step st l = some st') :
    (l = .acceptAssign ∧ st.listener = .made ∧ st'.session = st.s ∧
      st'.endedSession = st.endedSession ∧ ∀ k, st'.sessions k = modifyAt st.sessions st.s .retain k) ∨
    (∃ i, l = .closedRecord i ∧ st'.session = st.session ∧
      (st'.sessions i).reader = .recorded ∧ st'.endedSession =
        if st.session = some i then some (st.sessions i).addr else st.endedSession) ∨
    st'.session = none ∨
    (l ≠ .acceptAssign ∧ (∀ i, l ≠ .closedRecord i) ∧ st'.session = st.session ∧
      st'.endedSession = st.endedSession) := by
  cases l <;>
    simp only [step, Option.ite_none_left_eq_some, when_eq_some, State.modify,
      State.release] at hs <;>
    obtain ⟨-, hE, rfl⟩ := hs
  case acceptAssign => exact .inl ⟨rfl, hE.1, rfl, rfl, fun _ => rfl⟩
  case closedRecord i => exact .inr (.inl ⟨i, rfl, rfl, by simp, rfl⟩)
  case reapTake => split <;> simp
  all_goals simp

/-- `endedSession` names the current session exactly when its `onClosed` is marked. -/
def Agrees (st : State) : Prop :=
  ∀ i ∈ st.session, st.endedSession = some (st.sessions i).addr ↔
    marked (st.sessions i).reader = true

theorem agrees_initial : Agrees initial := by
  simp [Agrees, initial]

theorem agrees_step (hI : Inv st) (h : Agrees st) (hl : FreshAddress st l)
    (hs : step st l = some st') : Agrees st' := by
  intro k hk
  rw [Option.mem_def] at hk
  have hcreated : st.session = some k → k < st.created := fun hk =>
    lt_created hI (by rw [owners, references, owns_eq_one hk]; omega)
  rcases session_step hs with ⟨rfl, hm, hse, he, hss⟩ | ⟨i, rfl, hse, hr, he⟩ | hse |
    ⟨-, hne, hse, he⟩
  · obtain ⟨j, hsj, hj⟩ := hI.unstarted (.inl hm)
    rw [Option.mem_def] at hsj
    obtain rfl : j = k := by simpa [hse, hsj] using hk
    rw [he, hss j, hsj, modifyAt_self, Session.addr_retain, Session.reader_retain, hj]
    simpa [marked] using hl rfl j hsj
  · rw [hse] at hk
    by_cases hik : i = k
    · subst hik
      rw [he, if_pos hk, hr, addr_step hs (hcreated hk)]
      simp [marked]
    · have hsi : st.session ≠ some i := fun hi => hik (Option.some.inj (hi.symm.trans hk))
      rw [he, if_neg hsi, addr_step hs (hcreated hk), marked_step hI hs hk (by simpa using hik)]
      exact h k hk
  · rw [hse] at hk
    cases hk
  · rw [hse] at hk
    rw [he, addr_step hs (hcreated hk), marked_step hI hs hk (hne k)]
    exact h k hk

theorem agrees_of_reaches (h : Reaches step FreshAddress initial st) : Agrees st :=
  h.invariant_of (fun _ => inv_of_reaches) agrees_initial
    fun _ _ _ hI ha hl hs => agrees_step hI ha hl hs

/-! ## The law -/

/-- **What a pass of the main loop removes.**  In a run that never installs a session at the
address left in `endedSession`, `ReapEndedSession` removes the current session if and only if the
`onClosed` of that very session has run. -/
theorem reap_iff_exited (h : Reaches step FreshAddress initial st)
    (hs : step st .reapTake = some st') (hi : st.session = some i) :
    (st'.session = none ∧ st'.mainLocal = some i ∧ st'.main = .reaping ↔
        (st.sessions i).reader = .exited) ∧
      ((st.sessions i).reader ≠ .exited → st' = st) := by
  have hex := exclusive_of_reaches h
  have hag := agrees_of_reaches h i hi
  simp only [step, Option.ite_none_left_eq_some, when_eq_some] at hs
  obtain ⟨-, ⟨hm, -, hmutex⟩, rfl⟩ := hs
  have hlocks : (st.sessions i).reader.locks = false := by
    by_contra hl
    have := hex.reader i (by simpa using hl)
    simp [hmutex] at this
  have hended : st.Ended ↔ (st.sessions i).reader = .exited := by
    have : st.Ended ↔ st.endedSession = some (st.sessions i).addr := by
      simp [State.Ended, hi]
    rw [this, hag]
    cases hr : (st.sessions i).reader <;> simp_all [marked, ReaderPc.locks]
  by_cases he : st.Ended
  · simp [if_pos he, hended.1 he, hi]
  · simp [if_neg he, mt hended.2 he, hi]

/-- `onClosed` of the session `i`, from the end of its read loop on. -/
def closedRun (i : ℕ) : List Label :=
  [.readEnd i, .closedLock i, .closedResolve i, .closedRecord i, .closedDrop i, .closedUnlock i]

/-- A connection is accepted and closed by the peer. -/
def endedRun : List Label := acceptRun 0 false ++ closedRun 0

/-- The first session ends and is replaced before the next pass of the main loop; the third gets
its address. -/
def staleRun : List Label :=
  acceptRun 0 false ++ closedRun 0 ++ acceptRun 1 true ++ [.joined .listener] ++ acceptRun 0 true

theorem exec_endedRun : (exec step initial endedRun).isSome = true := by decide

theorem reap_iff_exited_endedRun :
    ∃ st st', exec step initial endedRun = some st ∧ step st .reapTake = some st' ∧
      (st'.session = none ∧ st'.mainLocal = some 0 ∧ st'.main = .reaping ↔
        (st.sessions 0).reader = .exited) := by
  have hst := (Option.some_get exec_endedRun).symm
  have hs : (step ((exec step initial endedRun).get exec_endedRun) .reapTake).isSome = true := by
    decide
  refine ⟨_, _, hst, (Option.some_get hs).symm, ?_⟩
  exact (reap_iff_exited (reaches_of_exec endedRun (by decide) hst)
    (Option.some_get hs).symm (by decide)).1

theorem reap_removes_live_session :
    (exec step initial staleRun).map (fun st => (st.session, (st.sessions 2).reader,
      (step st .reapTake).map fun st' => (st'.session, st'.mainLocal))) =
      some (some 2, .running, some (none, some 2)) := by
  decide

end OpenDisplay.App.SessionReap
