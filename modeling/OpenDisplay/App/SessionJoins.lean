import OpenDisplay.App.SessionCount

/-!
# The joins of the destructors

The thread that releases the last reference to a session waits in `~Session` until the read thread
of the session is done.  `joins_step` says which moves begin and end such a wait, `Waits` that a
thread waits for one session at a time, and `joined_of_reaches` what the counting and the joins give
together: a session without owners has no read thread, or some thread is waiting for its end.
-/

namespace OpenDisplay.App.SessionJoins

open OpenDisplay.Lib.Store OpenDisplay.Lib.Transition OpenDisplay.App.Sessions
open OpenDisplay.App.SessionMoves OpenDisplay.App.SessionCount

variable {st st' : State} {l : Label} {k : ℕ} {t : Thread}

/-- There is a read thread: `Start` has made it and it has not returned. -/
def live : ReaderPc → Bool
  | .notStarted | .exited => false
  | _ => true

theorem live_eq_false {pc : ReaderPc} : live pc = false ↔ pc = .exited ∨ pc = .notStarted := by
  cases pc <;> simp [live]

theorem live_of_holds {pc : ReaderPc} (h : pc.holds = true) : live pc = true := by
  cases pc <;> simp_all [live, ReaderPc.holds]

/-- The thread that releases a reference in this move. -/
def releaser : Label → Option Thread
  | .acceptDropOld | .acceptDropSession | .acceptDropReplaced => some .listener
  | .mainDrop => some .main
  | .readControlDone i | .closedDrop i => some (.reader i)
  | _ => none

/-- A wait begins with the release of a last reference and ends with the join. -/
theorem joins_step (hs : step st l = some st') :
    (∃ t, releaser l = some t ∧ st'.joins =
      if st.IsLast (target st l) then Function.update st.joins t (target st l) else st.joins) ∨
    (∃ t, l = .joined t ∧ st'.joins = Function.update st.joins t none) ∨
    releaser l = none ∧ (∀ t, l ≠ .joined t) ∧ st'.joins = st.joins := by
  cases l <;>
    simp only [step, Option.ite_none_left_eq_some, when_eq_some, State.modify,
      State.release] at hs <;>
    obtain ⟨-, -, rfl⟩ := hs
  case acceptDropOld | acceptDropSession | acceptDropReplaced | mainDrop | readControlDone |
      closedDrop =>
    exact .inl ⟨_, rfl, rfl⟩
  case joined t => exact .inr (.inl ⟨t, rfl, rfl⟩)
  case reapTake => exact .inr (.inr ⟨rfl, by simp, by split <;> rfl⟩)
  all_goals exact .inr (.inr ⟨rfl, by simp, rfl⟩)

/-! ## Who waits -/

theorem alive_of_step (hs : step st l = some st') : st.terminated = false := by
  by_contra ha
  simp [step, ha] at hs

theorem waiting_step (hs : step st l = some st') (hj : st'.joins t ≠ none) :
    releaser l = some t ∧ st.IsLast (target st l) ∨ st.joins t ≠ none := by
  rcases joins_step hs with ⟨u, hu, he⟩ | ⟨u, rfl, he⟩ | ⟨-, -, he⟩ <;> rw [he] at hj
  · split at hj
    · by_cases htu : t = u
      · exact .inl ⟨htu ▸ hu, ‹_›⟩
      · exact .inr (by rwa [Function.update_of_ne htu] at hj)
    · exact .inr hj
  · by_cases htu : t = u
    · simp [htu] at hj
    · exact .inr (by rwa [Function.update_of_ne htu] at hj)
  · exact .inr hj

theorem free_step (hs : step st l = some st') (hr : releaser l ≠ some t) (hf : st.Free t) :
    st'.Free t := by
  by_contra hj
  rcases waiting_step hs hj with ⟨ht, -⟩ | hj'
  · exact hr ht
  · exact hj' hf

/-- A thread that waits in a destructor stands behind the release that began it; a read thread
never waits in a process that goes on. -/
structure Waits (st : State) : Prop where
  listener : st.joins .listener ≠ none →
    st.listener = .unlocking ∨ st.listener = .leaving ∨ st.listener = .idle
  main : st.joins .main ≠ none → st.main = .idle ∨ st.main = .stopped
  decode : st.joins .decode = none
  reader : ∀ i, st.joins (.reader i) ≠ none → st.terminated = true

theorem waits_initial : Waits initial := by
  constructor <;> simp [initial]

theorem listener_waits_step (h : Waits st) (hs : step st l = some st')
    (hj : st'.joins .listener ≠ none) :
    st'.listener = .unlocking ∨ st'.listener = .leaving ∨ st'.listener = .idle := by
  have hw : releaser l = some .listener ∨ st.joins .listener ≠ none ∧
      (st.listener = .unlocking ∨ st.listener = .leaving ∨ st.listener = .idle) :=
    (waiting_step hs hj).imp And.left fun hj => ⟨hj, h.listener hj⟩
  cases l <;>
    simp only [step, Option.ite_none_left_eq_some, when_eq_some, State.modify,
      State.release] at hs <;>
    obtain ⟨-, hE, rfl⟩ := hs
  case reapTake => split <;> simp_all [releaser]
  all_goals simp_all [releaser, State.Free]

theorem main_waits_step (h : Waits st) (hs : step st l = some st')
    (hj : st'.joins .main ≠ none) : st'.main = .idle ∨ st'.main = .stopped := by
  have hw : releaser l = some .main ∨ st.joins .main ≠ none ∧
      (st.main = .idle ∨ st.main = .stopped) :=
    (waiting_step hs hj).imp And.left fun hj => ⟨hj, h.main hj⟩
  cases l <;>
    simp only [step, Option.ite_none_left_eq_some, when_eq_some, State.modify,
      State.release] at hs <;>
    obtain ⟨-, hE, rfl⟩ := hs
  case mainDrop => rcases hE with hE | hE | hE <;> simp [hE, MainPc.afterDrop]
  case reapTake => split <;> simp_all [releaser, State.Free]
  all_goals simp_all [releaser, State.Free]

theorem terminated_of_releaser {i : ℕ} (hs : step st l = some st')
    (ht : releaser l = some (.reader i)) (hl : st.IsLast (target st l)) :
    st'.terminated = true := by
  cases l <;> simp only [releaser, reduceCtorEq, Option.some.injEq, Thread.reader.injEq] at ht
  all_goals
    simp only [step, Option.ite_none_left_eq_some, when_eq_some, State.modify,
      State.release] at hs
    obtain ⟨-, -, rfl⟩ := hs
    rw [target] at hl
    simp [hl]

theorem waits_step (h : Waits st) (hs : step st l = some st') : Waits st' := by
  refine ⟨listener_waits_step h hs, main_waits_step h hs, ?_, fun i hj => ?_⟩
  · exact free_step hs (by cases l <;> simp [releaser]) h.decode
  · rcases waiting_step hs hj with ⟨ht, hl⟩ | hj
    · exact terminated_of_releaser hs ht hl
    · exact absurd (h.reader i hj) (by simp [alive_of_step hs])

/-- A thread that releases a reference is not waiting. -/
theorem free_of_releaser (h : Waits st) (hs : step st l = some st') (ht : releaser l = some t) :
    st.joins t = none := by
  by_contra hj
  cases l <;> simp only [releaser, reduceCtorEq, Option.some.injEq] at ht <;> subst ht <;>
    simp only [step, Option.ite_none_left_eq_some, when_eq_some] at hs <;>
    obtain ⟨ha, hE, -⟩ := hs
  case acceptDropOld | acceptDropSession => simpa [hE] using h.listener hj
  case acceptDropReplaced => exact hj hE.2
  case mainDrop =>
    have := h.main hj
    rcases hE with hE | hE | hE <;> simp [hE] at this
  case readControlDone i | closedDrop i => exact ha (h.reader i hj)

/-! ## What the waits are for -/

/-- A session without owners has no read thread, or some thread is waiting for its end. -/
def Joined (st : State) : Prop :=
  ∀ i, (st.sessions i).refs = 0 → live (st.sessions i).reader = false ∨ ∃ t, st.joins t = some i

theorem joined_initial : Joined initial := fun _ _ => .inl rfl

theorem waiting_keeps (h : Waits st) (hs : step st l = some st') (hj : st.joins t = some k) :
    st'.joins t = some k ∨ l = .joined t ∧ live (st.sessions k).reader = false := by
  rcases joins_step hs with ⟨u, hu, he⟩ | ⟨u, rfl, he⟩ | ⟨-, -, he⟩
  · have hne : t ≠ u := by
      rintro rfl
      rw [free_of_releaser h hs hu] at hj
      cases hj
    left
    rw [he]
    split
    · rwa [Function.update_of_ne hne]
    · exact hj
  · by_cases htu : t = u
    · subst htu
      simp only [step, Option.ite_none_left_eq_some, when_eq_some] at hs
      obtain ⟨-, ⟨i, hi, hr⟩, -⟩ := hs
      obtain rfl : i = k := Option.some.inj (hi.symm.trans hj)
      exact .inr ⟨rfl, live_eq_false.2 hr⟩
    · left
      rwa [he, Function.update_of_ne htu]
  · exact .inl (he ▸ hj)

theorem not_live_step (hs : step st l = some st') (hl : l = .acceptStart → st.s ≠ some k)
    (hd : live (st.sessions k).reader = false) : live (st'.sessions k).reader = false := by
  by_cases ht : target st l = some k
  · rw [sessions_step_of_eq hs ht]
    cases l
    case acceptMake => rfl
    case acceptStart => exact absurd ht (hl rfl)
    case readPing | readControl | readStats | readControlDone | readEnd | closedLock |
        closedResolve | closedRecord | closedDrop | closedUnlock =>
      cases ht
      rw [reader_of_step hs rfl] at hd
      cases hd
    all_goals simpa [effect] using hd
  · rwa [sessions_step_of_ne hs ht]

theorem released_step (hs : step st l = some st') (h0 : (st.sessions k).refs ≠ 0)
    (h0' : (st'.sessions k).refs = 0) :
    ∃ t, releaser l = some t ∧ target st l = some k ∧ (st.sessions k).refs = 1 := by
  by_cases ht : target st l = some k
  · rw [sessions_step_of_eq hs ht] at h0'
    cases l
    case acceptMake => cases h0'
    case acceptDropOld | acceptDropSession | acceptDropReplaced | mainDrop | readControlDone |
        closedDrop =>
      refine ⟨_, rfl, ht, ?_⟩
      simp only [effect, Session.refs_release, Session.refs_readerTo] at h0'
      omega
    case readControl | closedResolve =>
      rw [effect, Session.refs_lock, if_neg h0] at h0'
      omega
    all_goals simp [effect, h0] at h0'
  · rw [sessions_step_of_ne hs ht] at h0'
    exact absurd h0' h0

theorem joined_step (hI : Inv st) (hW : Waits st) (h : Joined st) (hs : step st l = some st') :
    Joined st' := by
  intro k h0'
  by_cases h0 : (st.sessions k).refs = 0
  · -- without owners there is nobody left to call `Start`
    have hstart : l = .acceptStart → st.s ≠ some k := by
      rintro - hk
      have := hI.counted k
      rw [h0, owners, references, owns_eq_one hk] at this
      omega
    rcases h k h0 with hd | ⟨t, ht⟩
    · exact .inl (not_live_step hs hstart hd)
    · rcases waiting_keeps hW hs ht with ht' | ⟨-, hd⟩
      · exact .inr ⟨t, ht'⟩
      · exact .inl (not_live_step hs hstart hd)
  · obtain ⟨t, hr, ht, h1⟩ := released_step hs h0 h0'
    right
    rcases joins_step hs with ⟨u, -, he⟩ | ⟨u, rfl, -⟩ | ⟨hn, -, -⟩
    · have hlast : st.IsLast (target st l) := ⟨k, ht, h1⟩
      refine ⟨u, ?_⟩
      rw [he, if_pos hlast, Function.update_self, ht]
    · cases hr
    · rw [hn] at hr
      cases hr

theorem waits_of_reaches {ok : State → Label → Prop} (h : Reaches step ok initial st) :
    Waits st :=
  h.invariant waits_initial fun _ _ _ hw _ hs => waits_step hw hs

/-- **No read thread is left without a reason to end.** -/
theorem joined_of_reaches {ok : State → Label → Prop} (h : Reaches step ok initial st) :
    Joined st :=
  h.invariant_of (fun _ hr => And.intro (inv_of_reaches hr) (waits_of_reaches hr)) joined_initial
    fun _ _ _ hJ hj _ hs => joined_step hJ.1 hJ.2 hj hs

end OpenDisplay.App.SessionJoins
