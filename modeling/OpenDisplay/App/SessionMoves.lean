import Mathlib.Tactic.Common
import OpenDisplay.App.Sessions

/-!
# What a move does to the sessions

A move touches at most one session.  `target` is the variable that refers to it and `effect` what
happens to it; `sessions_step` says that this is all.  So a law of a single session is checked on
`effect`, one label after the other, and `keeps_step` lifts it to the move.  `standsAt` is the
place where the read thread must stand that makes the move.
-/

namespace OpenDisplay.App.SessionMoves

open OpenDisplay.Lib.Store OpenDisplay.Lib.Transition OpenDisplay.App.Sessions

/-- The variable whose session a move touches. -/
def target (st : State) : Label → Option ℕ
  | .acceptCopy | .resizeCopy | .sendCurrent .. => st.session
  | .acceptMake _ => some st.created
  | .acceptAssign | .acceptStart | .acceptHello _ | .acceptDropSession => st.s
  | .acceptDropOld => st.old
  | .acceptClose | .acceptDropReplaced => st.replaced
  | .tearClose | .resizeHello _ | .mainDrop => st.mainLocal
  | .joined t => st.joins t
  | .readPing i _ | .readControl i | .readStats i _ | .readControlDone i | .readEnd i
  | .closedLock i | .closedResolve i | .closedRecord i | .closedDrop i | .closedUnlock i => some i
  | .acceptUnlock | .reapTake | .tearTake => none

/-- What a move does to the session it touches. -/
def effect : Label → Session → Session
  | .acceptCopy | .acceptAssign | .resizeCopy => .retain
  | .acceptClose | .tearClose => .close
  | .acceptMake a => fun _ => .made a
  | .acceptStart => .readerTo .running
  | .acceptHello ok | .resizeHello ok => .sendControl .hello ok
  | .acceptDropOld | .acceptDropSession | .acceptDropReplaced => .release .listener
  | .mainDrop => .release .main
  | .joined _ => .free
  | .sendCurrent _ m ok => .sendControl m ok
  | .readPing _ ok => .sendControl .ping ok
  | .readControl _ => .lock .control .running
  | .readStats _ ok => .sendControl .stats ok
  | .readControlDone i => fun o => (o.release (.reader i)).readerTo .running
  | .readEnd _ => .readerTo .closing
  | .closedLock _ => .readerTo .locked
  | .closedResolve _ => .lock .held .unlocking
  | .closedRecord _ => .readerTo .recorded
  | .closedDrop i => fun o => (o.release (.reader i)).readerTo .unlocking
  | .closedUnlock _ => .readerTo .exited
  | .acceptUnlock | .reapTake | .tearTake => id

/-- The read thread that makes a move, and where it stands. -/
def standsAt : Label → Option (ℕ × ReaderPc)
  | .readPing i _ | .readControl i | .readEnd i => some (i, .running)
  | .readStats i _ | .readControlDone i => some (i, .control)
  | .closedLock i => some (i, .closing)
  | .closedResolve i => some (i, .locked)
  | .closedRecord i => some (i, .held)
  | .closedDrop i => some (i, .recorded)
  | .closedUnlock i => some (i, .unlocking)
  | _ => none

variable {st st' : State} {l : Label} {i k : ℕ}

/-- **A move touches its target, and nothing else.** -/
theorem sessions_step (hs : step st l = some st') :
    st'.sessions = modifyAt st.sessions (target st l) (effect l) := by
  cases l <;>
    simp only [step, Option.ite_none_left_eq_some, when_eq_some, State.modify,
      State.release] at hs <;>
    obtain ⟨-, -, rfl⟩ := hs
  case readControlDone | closedDrop => exact modifyAt_modifyAt _ _ _ _
  case reapTake => split <;> exact (modifyAt_none _ _).symm
  case acceptUnlock | tearTake => exact (modifyAt_none _ _).symm
  all_goals rfl

theorem sessions_step_of_eq (hs : step st l = some st') (ht : target st l = some k) :
    st'.sessions k = effect l (st.sessions k) := by
  rw [sessions_step hs, modifyAt_of_eq _ ht]

theorem sessions_step_of_ne (hs : step st l = some st') (ht : target st l ≠ some k) :
    st'.sessions k = st.sessions k := by
  rw [sessions_step hs, modifyAt_of_ne _ ht]

theorem reader_of_step {pc : ReaderPc} (hs : step st l = some st')
    (h : standsAt l = some (i, pc)) : (st.sessions i).reader = pc := by
  cases l <;> simp only [standsAt, reduceCtorEq, Option.some.injEq, Prod.mk.injEq] at h
  all_goals
    obtain ⟨rfl, rfl⟩ := h
    simp only [step, Option.ite_none_left_eq_some, when_eq_some] at hs
    simp [hs]

/-- What the moves do not undo stays true of a session from its creation on. -/
theorem keeps_step {P : Session → Prop} (hs : step st l = some st') (hk : k < st.created)
    (hP : (∀ a, l ≠ .acceptMake a) → ∀ o, P o → P (effect l o)) (h : P (st.sessions k)) :
    P (st'.sessions k) := by
  by_cases ht : target st l = some k
  · rw [sessions_step_of_eq hs ht]
    refine hP ?_ _ h
    rintro a rfl
    rw [target, Option.some.injEq] at ht
    omega
  · rwa [sessions_step_of_ne hs ht]

theorem addr_step (hs : step st l = some st') (hk : k < st.created) :
    (st'.sessions k).addr = (st.sessions k).addr := by
  refine keeps_step (P := fun o => o.addr = (st.sessions k).addr) hs hk (fun hl o h => ?_) rfl
  cases l <;> simp_all [effect]

theorem closed_step (hs : step st l = some st') (hk : k < st.created)
    (hc : (st.sessions k).closed = true) : (st'.sessions k).closed = true := by
  refine keeps_step (P := fun o => o.closed = true) hs hk (fun hl o h => ?_) hc
  cases l <;> simp_all [effect]

end OpenDisplay.App.SessionMoves
