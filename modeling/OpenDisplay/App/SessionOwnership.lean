import OpenDisplay.App.SessionCount

/-!
# Which thread destroys a session

`~Session` joins the read thread of the session, so the last reference must not be released by
that thread.  `onControl` and `onClosed` do hold a reference on the read thread, for as long as
they run; another thread that releases the only other one meanwhile leaves the read thread with
the last.  `LeavesOwner` says of a move that it does not do that.  In runs of such moves no read
thread ever destroys its own session, and any move that is not of this kind lets the read thread
do it with its own next moves.
-/

namespace OpenDisplay.App.SessionOwnership

open OpenDisplay.Lib.Store OpenDisplay.Lib.Transition OpenDisplay.App.Sessions
open OpenDisplay.App.SessionMoves OpenDisplay.App.SessionCount

variable {st st' : State} {l : Label} {i k : ℕ}

/-- The session to which the listener thread or the main thread releases a reference. -/
def dropped (st : State) : Label → Option ℕ
  | .acceptDropOld => st.old
  | .acceptDropSession => st.s
  | .acceptDropReplaced => st.replaced
  | .mainDrop => st.mainLocal
  | _ => none

/-- The move does not release the last variable that refers to a session whose read thread is
inside a callback with a locked reference. -/
def LeavesOwner (st : State) (l : Label) : Prop :=
  ∀ i ∈ dropped st l, (st.sessions i).reader.holds = true → 1 < references st i

instance (st : State) (l : Label) : Decidable (LeavesOwner st l) := by
  unfold LeavesOwner
  infer_instance

/-- A read thread with a locked reference is not the only owner, and no read thread has destroyed
its session. -/
structure Guarded (st : State) : Prop where
  shared : ∀ i, (st.sessions i).reader.holds = true → 1 < (st.sessions i).refs
  spared : ∀ i, (st.sessions i).destroyedBy ≠ some (.reader i)
  alive : st.terminated = false

theorem guarded_initial : Guarded initial := by
  refine ⟨?_, ?_, rfl⟩
  · intro i h
    simp [initial, Session.blank, ReaderPc.holds] at h
  · intro i h
    simp [initial, Session.blank] at h

theorem destroyedBy_effect {o : Session}
    (h : (effect l o).destroyedBy = some (.reader k)) :
    o.destroyedBy = some (.reader k) ∨
      (l = .readControlDone k ∨ l = .closedDrop k) ∧ o.refs = 1 := by
  cases l
  case acceptMake => cases h
  case acceptDropOld | acceptDropSession | acceptDropReplaced | mainDrop =>
    rw [effect, Session.destroyedBy_release] at h
    split at h
    · cases h
    · exact .inl h
  case readControlDone i | closedDrop i =>
    rw [effect, Session.destroyedBy_readerTo, Session.destroyedBy_release] at h
    split at h
    · obtain rfl : i = k := by simpa using h
      exact .inr ⟨by simp, ‹_›⟩
    · exact .inl h
  all_goals
    left
    simpa [effect] using h

theorem destroyedBy_step (hs : step st l = some st')
    (h : (st'.sessions k).destroyedBy = some (.reader k)) :
    (st.sessions k).destroyedBy = some (.reader k) ∨
      (st.sessions k).reader.holds = true ∧ (st.sessions k).refs = 1 := by
  by_cases ht : target st l = some k
  · rw [sessions_step_of_eq hs ht] at h
    rcases destroyedBy_effect h with h | ⟨hl, h1⟩
    · exact .inl h
    · refine .inr ⟨?_, h1⟩
      rcases hl with rfl | rfl <;> rw [reader_of_step hs rfl] <;> rfl
  · rw [sessions_step_of_ne hs ht] at h
    exact .inl h

theorem terminated_step (hs : step st l = some st') (h : st'.terminated = true) :
    st.terminated = true ∨
      ∃ i, (st.sessions i).reader.holds = true ∧ (st.sessions i).refs = 1 := by
  cases l <;>
    simp only [step, Option.ite_none_left_eq_some, when_eq_some, State.modify,
      State.release] at hs <;>
    obtain ⟨-, hE, rfl⟩ := hs <;> try dsimp only at h
  case reapTake =>
    split at h <;> exact .inl h
  case acceptDropOld | acceptDropSession | acceptDropReplaced | mainDrop =>
    left
    simpa [Option.any_eq_true] using h
  case readControlDone i | closedDrop i =>
    rcases Bool.or_eq_true_iff.1 h with h | h
    · exact .inl h
    · refine .inr ⟨i, by rw [hE]; rfl, ?_⟩
      simpa [State.IsLast] using h
  all_goals exact .inl h

/-- A release that leaves a variable leaves the read thread a second owner. -/
theorem refs_of_leavesOwner (hI : Inv st) (hv : 1 < references st k)
    (hk : (st.sessions k).reader.holds = true) : 1 < (st.sessions k).refs - 1 := by
  have hc := hI.counted k
  rw [owners, hk, Bool.toNat_true] at hc
  omega

theorem shared_step (hI : Inv st)
    (hsh : (st.sessions k).reader.holds = true → 1 < (st.sessions k).refs)
    (hl : LeavesOwner st l) (hs : step st l = some st')
    (hk : (st'.sessions k).reader.holds = true) : 1 < (st'.sessions k).refs := by
  by_cases ht : target st l = some k
  · rw [sessions_step_of_eq hs ht] at hk ⊢
    cases l
    case acceptMake | acceptStart | readControlDone | readEnd | closedLock | closedDrop |
        closedUnlock =>
      cases hk
    case acceptCopy | acceptAssign | resizeCopy => exact Nat.lt_add_right 1 (hsh hk)
    case acceptDropOld | acceptDropSession | acceptDropReplaced | mainDrop =>
      simp only [effect, Session.reader_release] at hk
      rw [effect, Session.refs_release]
      exact refs_of_leavesOwner hI (hl k ht hk) hk
    case readControl | closedResolve =>
      rw [effect, Session.reader_lock] at hk
      rw [effect, Session.refs_lock]
      split at hk
      · cases hk
      · rw [if_neg ‹_›]
        omega
    case closedRecord =>
      cases ht
      refine hsh ?_
      rw [reader_of_step hs rfl]
      rfl
    all_goals
      simp only [effect, Session.reader_close, Session.reader_sendControl, Session.reader_free,
        id_eq] at hk
      simpa [effect] using hsh hk
  · rw [sessions_step_of_ne hs ht] at hk ⊢
    exact hsh hk

theorem guarded_step (hI : Inv st) (h : Guarded st) (hl : LeavesOwner st l)
    (hs : step st l = some st') : Guarded st' := by
  refine ⟨fun k => shared_step hI (h.shared k) hl hs, ?_, ?_⟩
  · intro k hk
    rcases destroyedBy_step hs hk with hk | ⟨hr, h1⟩
    · exact h.spared k hk
    · have := h.shared k hr
      omega
  · by_contra ht
    rcases terminated_step hs (by simpa using ht) with ht | ⟨i, hr, h1⟩
    · rw [h.alive] at ht
      cases ht
    · have := h.shared i hr
      omega

theorem guarded_of_reaches (h : Reaches step LeavesOwner initial st) : Guarded st :=
  h.invariant_of (fun _ => inv_of_reaches) guarded_initial
    fun _ _ _ hI hg hl hs => guarded_step hI hg hl hs

/-! ## The moves that the condition excludes -/

theorem destroyedBy_last (h1 : (st.sessions i).refs = 1) (pc : ReaderPc) :
    ((((st.release (.reader i) (some i)).modify (some i) (.readerTo pc)).sessions i).destroyedBy) =
      some (.reader i) := by
  simp [State.modify, State.release, Session.destroyedBy_release, h1]

theorem destroys_of_recorded (ha : st.terminated = false)
    (hr : (st.sessions i).reader = .recorded) (h1 : (st.sessions i).refs = 1) :
    ∃ st', step st (.closedDrop i) = some st' ∧
      (st'.sessions i).destroyedBy = some (.reader i) := by
  refine ⟨_, ?_, destroyedBy_last h1 .unlocking⟩
  simp [step, ha, hr, when]

theorem destroys_of_last (ha : st.terminated = false)
    (hh : (st.sessions i).reader.holds = true) (h1 : (st.sessions i).refs = 1) :
    ∃ ls st', exec step st ls = some st' ∧ (st'.sessions i).destroyedBy = some (.reader i) := by
  cases hr : (st.sessions i).reader with
  | control =>
    refine ⟨[.readControlDone i], _, ?_, destroyedBy_last h1 .running⟩
    simp [exec, step, ha, hr, when]
  | held =>
    have hs : ∃ t, step st (.closedRecord i) = some t ∧ t.terminated = false ∧
        (t.sessions i).reader = .recorded ∧ (t.sessions i).refs = 1 := by
      simp [step, ha, hr, h1, State.modify]
    obtain ⟨t, hs, ht, htr, ht1⟩ := hs
    obtain ⟨st', hst', hd⟩ := destroys_of_recorded ht htr ht1
    exact ⟨[.closedRecord i, .closedDrop i], st', by simp [exec, hs, hst'], hd⟩
  | recorded =>
    obtain ⟨st', hst', hd⟩ := destroys_of_recorded ha hr h1
    exact ⟨[.closedDrop i], st', by simp [exec, hst'], hd⟩
  | _ => simp [hr, ReaderPc.holds] at hh

theorem dropped_step (hs : step st l = some st') (hi : i ∈ dropped st l) :
    (st'.sessions i).refs = (st.sessions i).refs - 1 ∧
      (st'.sessions i).reader = (st.sessions i).reader ∧ st'.terminated = st.terminated ∧
      0 < references st i := by
  cases l <;> simp only [dropped, Option.mem_def, reduceCtorEq] at hi
  all_goals
    simp only [step, Option.ite_none_left_eq_some, when_eq_some, State.modify,
      State.release] at hs
    obtain ⟨-, hE, rfl⟩ := hs
    refine ⟨?_, ?_, ?_, ?_⟩
    · rw [hi, refs_release, owns_self]
    · rw [reader_release]
    · simp [hi]
    · simp only [references, hi, owns_self]
      omega

theorem last_of_not_leavesOwner (hI : Inv st) (hl : ¬LeavesOwner st l) (hs : step st l = some st') :
    ∃ i, (st'.sessions i).reader.holds = true ∧ (st'.sessions i).refs = 1 ∧
      st'.terminated = st.terminated := by
  unfold LeavesOwner at hl
  push Not at hl
  obtain ⟨i, hi, hh, hle⟩ := hl
  obtain ⟨hrefs, hreader, hterm, hpos⟩ := dropped_step hs hi
  have hc := hI.counted i
  rw [owners, hh, Bool.toNat_true] at hc
  exact ⟨i, by rw [hreader]; exact hh, by omega, hterm⟩

theorem destroys_of_not_leavesOwner (hI : Inv st) (ha : st.terminated = false)
    (hl : ¬LeavesOwner st l) (hs : step st l = some st') :
    ∃ i ls st'', exec step st' ls = some st'' ∧
      (st''.sessions i).destroyedBy = some (.reader i) := by
  obtain ⟨i, hh, h1, hterm⟩ := last_of_not_leavesOwner hI hl hs
  exact ⟨i, destroys_of_last (hterm.trans ha) hh h1⟩

/-! ## The law -/

/-- **Who destroys a session.**  In a run whose moves all leave a second owner to a session whose
read thread is inside a callback, no read thread destroys its own session, so `~Session` never
joins the thread it runs on.  A move that does not leave one lets that read thread do so. -/
theorem readThread_never_destroys (h : Reaches step LeavesOwner initial st) :
    (∀ i, (st.sessions i).destroyedBy ≠ some (.reader i)) ∧ st.terminated = false ∧
      ∀ l st', step st l = some st' → ¬LeavesOwner st l →
        ∃ i ls st'', exec step st' ls = some st'' ∧
          (st''.sessions i).destroyedBy = some (.reader i) := by
  have hg := guarded_of_reaches h
  exact ⟨hg.spared, hg.alive,
    fun l st' hs hl => destroys_of_not_leavesOwner (inv_of_reaches h) hg.alive hl hs⟩

/-- A second connection while the first session handles a control message that ends in time. -/
def quietRun : List Label :=
  acceptRun 0 false ++ [.readControl 0, .readStats 0 true, .readControlDone 0] ++ acceptRun 1 true

/-- The same, with the control message still being handled when `OnAccept` returns. -/
def racingRun : List Label :=
  acceptRun 0 false ++ [.readControl 0] ++ acceptRun 1 true ++ [.readControlDone 0]

theorem exec_quietRun : (exec step initial quietRun).isSome = true := by decide

theorem readThread_never_destroys_quietRun :
    ∃ st, exec step initial quietRun = some st ∧ st.session = some 1 ∧
      (∀ i, (st.sessions i).destroyedBy ≠ some (.reader i)) := by
  refine ⟨_, (Option.some_get exec_quietRun).symm, by decide, ?_⟩
  exact (readThread_never_destroys
    (reaches_of_exec quietRun (by decide) (Option.some_get exec_quietRun).symm)).1

theorem readThread_destroys_racingRun :
    (exec step initial racingRun).map (fun st => ((st.sessions 0).destroyedBy, st.terminated)) =
      some (some (.reader 0), true) := by
  decide

end OpenDisplay.App.SessionOwnership
