import OpenDisplay.App.SessionJoins
import OpenDisplay.App.SessionReap
import OpenDisplay.Lib.Waiting

/-!
# For whom the threads of the sessions wait

A thread waits for the owner of `sessionMutex`, or in `~Session` for the read thread of the session.
The owner of the mutex never waits: `onClosed` joins nobody in a process that goes on, and
`OnAccept` releases the old value of `App::session` while `replaced` still holds the same session, so
that release is never the last one (`spared`).  The session whose read thread somebody joins has been
closed (`closed_of_join`), so its `recv` returns.

`Stands` gives the moves in front of which a thread may stand, and `enabled_iff` what else it takes
to make them.
-/

namespace OpenDisplay.App.SessionProgress

open OpenDisplay.Lib.Store OpenDisplay.Lib.Transition OpenDisplay.App.Sessions
open OpenDisplay.App.SessionMoves OpenDisplay.App.SessionCount OpenDisplay.App.SessionJoins
open OpenDisplay.App.SessionReap

variable {st st' : State} {l : Label} {i k : ℕ} {t : Thread}

/-! ## Where the threads stand -/

/-- The thread that makes a move. -/
def mover : Label → Thread
  | .acceptCopy | .acceptClose | .acceptMake _ | .acceptAssign | .acceptDropOld | .acceptUnlock
  | .acceptStart | .acceptHello _ | .acceptDropSession | .acceptDropReplaced => .listener
  | .reapTake | .tearTake | .tearClose | .resizeCopy | .resizeHello _ | .mainDrop => .main
  | .joined t | .sendCurrent t _ _ => t
  | .readPing i _ | .readControl i | .readStats i _ | .readControlDone i | .readEnd i
  | .closedLock i | .closedResolve i | .closedRecord i | .closedDrop i | .closedUnlock i => .reader i

/-- The place in the program in front of a move. -/
def AtPoint (st : State) : Label → Prop
  | .acceptCopy => st.listener = .idle
  | .acceptClose => st.listener = .closing
  | .acceptMake a => st.listener = .making ∧ st.Available a
  | .acceptAssign => st.listener = .made
  | .acceptDropOld => st.listener = .assigned
  | .acceptUnlock => st.listener = .unlocking
  | .acceptStart => st.listener = .installed
  | .acceptHello _ => st.listener = .started
  | .acceptDropSession => st.listener = .greeted
  | .acceptDropReplaced => st.listener = .leaving
  | .reapTake | .tearTake | .resizeCopy => st.main = .idle
  | .tearClose => st.main = .tearing
  | .resizeHello _ => st.main = .resizing
  | .mainDrop => st.main = .reaping ∨ st.main = .resized ∨ st.main = .tornDown
  | .joined t => st.joins t ≠ none
  | .sendCurrent t m _ => MaySend st t m
  | .readPing i _ | .readControl i | .readEnd i => (st.sessions i).reader = .running
  | .readStats i _ | .readControlDone i => (st.sessions i).reader = .control
  | .closedLock i => (st.sessions i).reader = .closing
  | .closedResolve i => (st.sessions i).reader = .locked
  | .closedRecord i => (st.sessions i).reader = .held
  | .closedDrop i => (st.sessions i).reader = .recorded
  | .closedUnlock i => (st.sessions i).reader = .unlocking

/-- The thread of the move stands in front of it: in `~Session` in front of the join, and outside of
it where the program is. -/
def Stands (st : State) (l : Label) : Prop :=
  AtPoint st l ∧ ((∀ t, l ≠ .joined t) → st.Free (mover l))

/-- The move takes `sessionMutex`. -/
def locks : Label → Bool
  | .acceptCopy | .acceptAssign | .reapTake | .tearTake | .resizeCopy | .sendCurrent .. | .closedLock _ =>
    true
  | _ => false

/-- The read thread that the move joins is done. -/
def JoinReady (st : State) (l : Label) : Prop :=
  ∀ t, l = .joined t → ∀ i ∈ st.joins t, live (st.sessions i).reader = false

/-- **What it takes to make a move**: to stand in front of it, and neither the mutex nor a read thread
in the way. -/
theorem enabled_iff (hW : Waits st) (ha : st.terminated = false) :
    (step st l).isSome ↔
      Stands st l ∧ (locks l = true → st.sessionMutex = none) ∧ JoinReady st l := by
  have hreader : ∀ i, st.joins (.reader i) = none := by
    intro i
    by_contra hj
    rw [hW.reader i hj] at ha
    cases ha
  have hlistener : st.listener ≠ .unlocking → st.listener ≠ .leaving → st.listener ≠ .idle →
      st.joins .listener = none := by
    intro h1 h2 h3
    by_contra hj
    rcases hW.listener hj with h | h | h
    · exact h1 h
    · exact h2 h
    · exact h3 h
  have hmain : st.main ≠ .idle → st.main ≠ .stopped → st.joins .main = none := by
    intro h1 h2
    by_contra hj
    rcases hW.main hj with h | h
    · exact h1 h
    · exact h2 h
  unfold Stands JoinReady step
  rw [ha]
  cases l
  case joined t =>
    cases hj : st.joins t with
    | none => simp [AtPoint, locks, when, hj]
    | some i => simp [AtPoint, locks, when, hj, live_eq_false]
  case sendCurrent t m ok =>
    have hfree : MaySend st t m → st.joins t = none := by
      intro hm
      unfold MaySend at hm
      split at hm
      · exact hm.2
      · exact hm.2
      · exact hm.2
      · exact hW.decode
      · exact hreader _
      · exact hm.elim
    simp only [AtPoint, locks, when, mover, State.Free]
    grind
  all_goals
    simp only [AtPoint, locks, when, mover, State.Free, hreader]
    grind

/-! ## The owner of the mutex -/

/-- `sessionMutex` is held inside of the two critical sections of several steps, and nowhere else. -/
def Owned (st : State) : Prop :=
  ∀ t ∈ st.sessionMutex,
    t = .listener ∧ (st.listener = .assigned ∨ st.listener = .unlocking) ∨
      ∃ i, t = .reader i ∧ (st.sessions i).reader.locks = true

theorem owned_initial : Owned initial := fun _ h => by cases h

theorem locks_keeps (hI : Inv st) (hs : step st l = some st') (hk : (st.sessions k).reader.locks = true) :
    (st'.sessions k).reader.locks = true ∨ l = .closedUnlock k := by
  by_cases ht : target st l = some k
  · rw [sessions_step_of_eq hs ht]
    cases l
    case acceptMake =>
      obtain rfl := Option.some.inj ht
      rw [(hI.fresh _ (Nat.le_refl _)).2] at hk
      cases hk
    case acceptStart =>
      simp only [step, Option.ite_none_left_eq_some, when_eq_some] at hs
      obtain ⟨-, hE, -⟩ := hs
      obtain ⟨i, hsi, hi⟩ := hI.unstarted (by simp [ListenerPc.BeforeStart, hE])
      obtain rfl : i = k := Option.some.inj (hsi.symm.trans ht)
      rw [hi] at hk
      cases hk
    case closedUnlock =>
      cases ht
      exact .inr rfl
    case closedResolve =>
      left
      rw [effect, Session.reader_lock]
      split <;> rfl
    case closedRecord | closedDrop => exact .inl rfl
    case readControl | readControlDone | readEnd | closedLock =>
      cases ht
      rw [reader_of_step hs rfl] at hk
      cases hk
    all_goals
      left
      simpa [effect] using hk
  · rw [sessions_step_of_ne hs ht]
    exact .inl hk

theorem section_keeps (hs : step st l = some st') (hl : st.listener = .assigned ∨ st.listener = .unlocking) :
    st'.listener = .assigned ∨ st'.listener = .unlocking ∨ l = .acceptUnlock := by
  cases l <;>
    simp only [step, Option.ite_none_left_eq_some, when_eq_some, State.modify,
      State.release] at hs <;>
    obtain ⟨-, hE, rfl⟩ := hs
  case reapTake => split <;> simp_all
  all_goals simp_all

theorem owned_step (hI : Inv st) (h : Owned st) (hs : step st l = some st') :
    Owned st' := by
  intro t ht
  rcases sessionMutex_step hs with ⟨rfl, -, hm⟩ | ⟨-, -, hm⟩ | ⟨i, rfl, -, hm⟩ | ⟨i, -, -, hm⟩ | hm
  · rw [hm, Option.mem_some_iff] at ht
    simp only [step, Option.ite_none_left_eq_some, when_eq_some] at hs
    obtain ⟨-, -, rfl⟩ := hs
    exact .inl ⟨ht.symm, .inl rfl⟩
  · rw [hm] at ht
    cases ht
  · rw [hm, Option.mem_some_iff] at ht
    refine .inr ⟨i, ht.symm, ?_⟩
    rw [sessions_step_of_eq hs rfl]
    rfl
  · rw [hm] at ht
    cases ht
  · rw [hm] at ht
    rcases h t ht with ⟨rfl, hl⟩ | ⟨i, rfl, hi⟩
    · rcases section_keeps hs hl with hl' | hl' | rfl
      · exact .inl ⟨rfl, .inl hl'⟩
      · exact .inl ⟨rfl, .inr hl'⟩
      · simp only [step, Option.ite_none_left_eq_some, when_eq_some] at hs
        obtain ⟨-, -, rfl⟩ := hs
        exact absurd (ht ▸ hm : (none : Option Thread) = some .listener) (by simp)
    · rcases locks_keeps hI hs hi with hi' | rfl
      · exact .inr ⟨i, rfl, hi'⟩
      · simp only [step, Option.ite_none_left_eq_some, when_eq_some] at hs
        obtain ⟨-, -, rfl⟩ := hs
        exact absurd (ht ▸ hm : (none : Option Thread) = some (.reader i)) (by simp)

/-- While `OnAccept` has `replaced`, no other session comes into `App::session` but its own. -/
structure Replacing (st : State) : Prop where
  before : st.listener = .closing ∨ st.listener = .making ∨ st.listener = .made →
    ∀ i ∈ st.session, st.replaced = some i
  inside : st.listener = .assigned → ∀ i ∈ st.old, st.replaced = some i

theorem replacing_initial : Replacing initial := by
  constructor <;> simp [initial]

theorem replacing_step (h : Replacing st) (hs : step st l = some st') : Replacing st' := by
  obtain ⟨hbefore, hinside⟩ := h
  cases l <;>
    simp only [step, Option.ite_none_left_eq_some, when_eq_some, State.modify,
      State.release] at hs <;>
    obtain ⟨-, hE, rfl⟩ := hs
  case acceptCopy =>
    constructor
    · intro _ i hi
      exact hi
    · intro hl
      dsimp only at hl
      split at hl <;> cases hl
  case acceptAssign =>
    constructor
    · intro hl
      simp at hl
    · intro _ i hi
      exact hbefore (.inr (.inr hE.1)) i hi
  case reapTake =>
    split
    · refine ⟨?_, hinside⟩
      rintro - i ⟨⟩
    · exact ⟨hbefore, hinside⟩
  case tearTake =>
    refine ⟨?_, hinside⟩
    rintro - i ⟨⟩
  all_goals constructor <;> simp_all

/-- **The release inside the section is not the last one.** -/
theorem not_last_old (hI : Inv st) (hR : Replacing st) (hl : st.listener = .assigned) :
    ¬st.IsLast st.old := by
  rintro ⟨i, hi, h1⟩
  have hrep := hR.inside hl i hi
  have hc := hI.counted i
  rw [owners, references, owns_eq_one hi, owns_eq_one hrep] at hc
  omega

/-- The listener thread does not wait inside of its section. -/
def Spared (st : State) : Prop :=
  st.listener = .assigned ∨ st.listener = .unlocking → st.joins .listener = none

theorem spared_step (hI : Inv st) (hR : Replacing st) (hW : Waits st) (h : Spared st)
    (hs : step st l = some st') : Spared st' := by
  intro hl
  by_contra hj
  rcases waiting_step hs hj with ⟨hr, hlast⟩ | hj'
  · -- the release that began the wait
    have hdrop : l = .acceptDropOld := by
      cases l <;> simp only [releaser, reduceCtorEq, Option.some.injEq] at hr
      case acceptDropOld => rfl
      all_goals
        simp only [step, Option.ite_none_left_eq_some, when_eq_some] at hs
        obtain ⟨-, -, rfl⟩ := hs
        simp at hl
    subst hdrop
    have hassigned : st.listener = .assigned := by
      simp only [step, Option.ite_none_left_eq_some, when_eq_some] at hs
      exact hs.2.1
    exact not_last_old hI hR hassigned hlast
  · -- it waited before the section
    have hin := listener_locks_step hs hl
    rcases hin with hin | hin | rfl
    · exact hj' (h (.inl hin))
    · exact hj' (h (.inr hin))
    · have hmade : st.listener = .made := by
        simp only [step, Option.ite_none_left_eq_some, when_eq_some] at hs
        exact hs.2.1.1
      rcases hW.listener hj' with hw | hw | hw <;> rw [hmade] at hw <;> cases hw

/-! ## The joined sessions -/

/-- A session whose read thread somebody waits for is closed. -/
def JoinsClosed (st : State) : Prop :=
  ∀ t, ∀ i ∈ st.joins t, i < st.created ∧ (st.sessions i).closed = true

theorem closed_of_last {o : Session} (h : o.refs = 1) (t : Thread) : (o.release t).closed = true := by
  rw [Session.release, if_pos h]
  rfl

theorem joinsClosed_step (hI : Inv st) (h : JoinsClosed st) (hs : step st l = some st') :
    JoinsClosed st' := by
  have hmono : st.created ≤ st'.created := by
    rcases created_step hs with hc | ⟨-, hc⟩ <;> omega
  have hkeep : ∀ t, ∀ i ∈ st.joins t, i < st'.created ∧ (st'.sessions i).closed = true := by
    intro t i hi
    obtain ⟨hlt, hc⟩ := h t i hi
    exact ⟨by omega, closed_step hs hlt hc⟩
  intro t i hi
  rcases joins_step hs with ⟨u, hu, he⟩ | ⟨u, -, he⟩ | ⟨-, -, he⟩
  · rw [he] at hi
    split at hi
    case isFalse => exact hkeep t i hi
    case isTrue hlast =>
      by_cases htu : t = u
      · rw [htu, Function.update_self] at hi
        obtain ⟨j, hj, h1⟩ := hlast
        obtain rfl : j = i := Option.some.inj (hj.symm.trans hi)
        have hlt : j < st.created := by
          refine lt_created hI ?_
          rw [← hI.counted j]
          omega
        refine ⟨by omega, ?_⟩
        rw [sessions_step_of_eq hs hi]
        cases l <;> simp only [releaser, reduceCtorEq] at hu
        case readControlDone | closedDrop =>
          rw [effect, Session.closed_readerTo]
          exact closed_of_last h1 _
        all_goals exact closed_of_last h1 _
      · rw [Function.update_of_ne htu] at hi
        exact hkeep t i hi
  · rw [he] at hi
    by_cases htu : t = u
    · rw [htu, Function.update_self] at hi
      cases hi
    · rw [Function.update_of_ne htu] at hi
      exact hkeep t i hi
  · rw [he] at hi
    exact hkeep t i hi

/-! ## The waits -/

/-- For whom a thread waits in front of a move. -/
def Awaits (st : State) (l : Label) (t : Thread) : Prop :=
  (locks l = true ∧ st.sessionMutex = some t) ∨
    ∃ u i, l = .joined u ∧ st.joins u = some i ∧ live (st.sessions i).reader = true ∧ t = .reader i

/-- The owner of the mutex is below all, and below those who join are those who do not. -/
def rank (st : State) (t : Thread) : ℕ :=
  if st.sessionMutex = some t then 0 else if st.joins t = none then 1 else 2

/-- The laws that the waits rest on. -/
structure Calm (st : State) : Prop where
  waits : Waits st
  owned : Owned st
  spared : Spared st
  alive : st.terminated = false

theorem Calm.free_reader (h : Calm st) (i : ℕ) : st.Free (.reader i) := by
  by_contra hj
  have := h.waits.reader i hj
  rw [h.alive] at this
  cases this

theorem Calm.reader_stands (h : Calm st) (hi : live (st.sessions i).reader = true) :
    ∃ l, mover l = .reader i ∧ Stands st l := by
  have hfree : ∀ l : Label, (∀ t, l ≠ .joined t) → st.Free (.reader i) := fun _ _ => h.free_reader i
  cases hr : (st.sessions i).reader with
  | notStarted => simp [hr, live] at hi
  | running => exact ⟨.readEnd i, rfl, hr, hfree _⟩
  | control => exact ⟨.readControlDone i, rfl, hr, hfree _⟩
  | closing => exact ⟨.closedLock i, rfl, hr, hfree _⟩
  | locked => exact ⟨.closedResolve i, rfl, hr, hfree _⟩
  | held => exact ⟨.closedRecord i, rfl, hr, hfree _⟩
  | recorded => exact ⟨.closedDrop i, rfl, hr, hfree _⟩
  | unlocking => exact ⟨.closedUnlock i, rfl, hr, hfree _⟩
  | exited => simp [hr, live] at hi

theorem live_of_locks {pc : ReaderPc} (h : pc.locks = true) : live pc = true := by
  cases pc <;> simp_all [live, ReaderPc.locks]

theorem Calm.owner (h : Calm st) (ht : st.sessionMutex = some t) :
    st.Free t ∧ ∃ l, mover l = t ∧ Stands st l := by
  rcases h.owned t ht with ⟨rfl, hl⟩ | ⟨i, rfl, hi⟩
  · have hfree : st.Free .listener := h.spared hl
    refine ⟨hfree, ?_⟩
    rcases hl with hl | hl
    · exact ⟨.acceptDropOld, rfl, hl, fun _ => hfree⟩
    · exact ⟨.acceptUnlock, rfl, hl, fun _ => hfree⟩
  · exact ⟨h.free_reader i, h.reader_stands (live_of_locks hi)⟩

theorem Calm.not_owner (h : Calm st) (hl : Stands st l) (hlock : locks l = true) :
    st.sessionMutex ≠ some (mover l) := by
  intro hm
  rcases h.owned _ hm with ⟨hmover, hin⟩ | ⟨i, hmover, hi⟩
  · cases l <;> simp only [mover, reduceCtorEq] at hmover <;> simp only [locks, reduceCtorEq] at hlock
    case acceptCopy =>
      rw [show st.listener = .idle from hl.1] at hin
      simp at hin
    case acceptAssign =>
      rw [show st.listener = .made from hl.1] at hin
      simp at hin
    case sendCurrent t m ok =>
      have hsend : MaySend st t m := hl.1
      rw [hmover] at hsend
      exact hsend
  · cases l <;> simp only [mover, reduceCtorEq, Thread.reader.injEq] at hmover <;>
      simp only [locks, reduceCtorEq] at hlock
    case sendCurrent t m ok =>
      have hsend : MaySend st t m := hl.1
      rw [hmover] at hsend
      unfold MaySend at hsend
      split at hsend <;> simp_all [ReaderPc.locks]
    case closedLock j =>
      subst hmover
      rw [show (st.sessions j).reader = .closing from hl.1] at hi
      cases hi

/-- **Every wait goes down.**  A thread that stands in front of a move makes it, or waits for a thread
that is further down and stands somewhere. -/
theorem Calm.goes_down (h : Calm st) (hl : Stands st l) :
    (step st l).isSome ∨ ∃ t, Awaits st l t ∧ rank st t < rank st (mover l) ∧
      ∃ l', mover l' = t ∧ Stands st l' := by
  by_cases henabled : (step st l).isSome
  · exact .inl henabled
  right
  rw [enabled_iff h.waits h.alive] at henabled
  by_cases hmutex : locks l = true → st.sessionMutex = none
  · -- a join
    have hready : ¬JoinReady st l := fun hj => henabled ⟨hl, hmutex, hj⟩
    unfold JoinReady at hready
    push Not at hready
    obtain ⟨u, rfl, i, hi, hlive⟩ := hready
    have hlive' : live (st.sessions i).reader = true := by simpa using hlive
    refine ⟨.reader i, .inr ⟨u, i, rfl, hi, hlive', rfl⟩, ?_, h.reader_stands hlive'⟩
    have hne : st.joins u ≠ none := hl.1
    have hown : st.sessionMutex ≠ some u := fun hm => hne (h.owner hm).1
    have hfree : st.joins (.reader i) = none := h.free_reader i
    unfold rank mover
    rw [if_neg hown, if_neg hne, if_pos hfree]
    split
    · decide
    · decide
  · -- the mutex
    push Not at hmutex
    obtain ⟨hlock, hsome⟩ := hmutex
    obtain ⟨t, ht⟩ := Option.ne_none_iff_exists'.1 hsome
    refine ⟨t, .inl ⟨hlock, ht⟩, ?_, (h.owner ht).2⟩
    unfold rank
    rw [if_pos ht, if_neg (h.not_owner hl hlock)]
    split
    · decide
    · decide

end OpenDisplay.App.SessionProgress
