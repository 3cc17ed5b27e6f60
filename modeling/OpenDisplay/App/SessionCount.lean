import Mathlib.Tactic.Common
import OpenDisplay.App.SessionMoves

/-!
# The strong count of a session is the number of its owners

`Inv` is the invariant of the reference counting: every strong count is the number of variables
that refer to the session plus one if its read thread is inside a callback with a locked
`weak_ptr`; numbers not created yet have no owner; and a local variable is null while its thread
is outside the function that declares it.  `inv_step` carries it over every move of every thread,
and `inv_of_reaches` over every run.
-/

namespace OpenDisplay.App.SessionCount

open OpenDisplay.Lib.Store OpenDisplay.Lib.Transition OpenDisplay.App.Sessions
open OpenDisplay.App.SessionMoves

/-! ## What a move does to a count -/

section Modify

variable (s : ℕ → Session) (v : Option ℕ) (i : ℕ) (t : Thread) (m : Message) (ok : Bool)
  (pc null : ReaderPc)

theorem refs_retain : (modifyAt s v .retain i).refs = (s i).refs + owns v i := by
  unfold modifyAt owns
  split <;> rfl

theorem refs_release : (modifyAt s v (.release t) i).refs = (s i).refs - owns v i := by
  unfold modifyAt owns
  split <;> simp

@[simp] theorem refs_close : (modifyAt s v .close i).refs = (s i).refs :=
  field_modifyAt _ (fun o => o.refs_close) s v i

@[simp] theorem refs_sendControl : (modifyAt s v (.sendControl m ok) i).refs = (s i).refs :=
  field_modifyAt _ (fun o => o.refs_sendControl m ok) s v i

@[simp] theorem refs_readerTo : (modifyAt s v (.readerTo pc) i).refs = (s i).refs :=
  field_modifyAt _ (fun o => o.refs_readerTo pc) s v i

@[simp] theorem refs_free : (modifyAt s v .free i).refs = (s i).refs :=
  field_modifyAt _ (fun o => o.refs_free) s v i

@[simp] theorem reader_retain : (modifyAt s v .retain i).reader = (s i).reader :=
  field_modifyAt _ (fun o => o.reader_retain) s v i

@[simp] theorem reader_release : (modifyAt s v (.release t) i).reader = (s i).reader :=
  field_modifyAt _ (fun o => o.reader_release t) s v i

@[simp] theorem reader_close : (modifyAt s v .close i).reader = (s i).reader :=
  field_modifyAt _ (fun o => o.reader_close) s v i

@[simp] theorem reader_sendControl : (modifyAt s v (.sendControl m ok) i).reader = (s i).reader :=
  field_modifyAt _ (fun o => o.reader_sendControl m ok) s v i

@[simp] theorem reader_free : (modifyAt s v .free i).reader = (s i).reader :=
  field_modifyAt _ (fun o => o.reader_free) s v i

end Modify

theorem refs_lock {o : Session} {pc null : ReaderPc} (hpc : pc.holds = true)
    (hnull : null.holds = false) :
    (o.lock pc null).refs = o.refs + (o.lock pc null).reader.holds.toNat := by
  rw [o.refs_lock, o.reader_lock]
  split
  · simp_all
  · simp [hpc]

/-! ## The invariant -/

variable {st st' : State} {l : Label} {k : ℕ}

/-- The number of variables that refer to the session `i`. -/
def references (st : State) (i : ℕ) : ℕ :=
  owns st.session i + owns st.old i + owns st.replaced i + owns st.s i + owns st.mainLocal i

/-- The number of owners of the session `i`: the variables, and the callback on its read thread. -/
def owners (st : State) (i : ℕ) : ℕ :=
  references st i + (st.sessions i).reader.holds.toNat

/-- The locals of a function are null outside of it. -/
structure Locals (st : State) : Prop where
  replaced : st.listener = .idle → st.replaced = none
  s : st.listener = .idle ∨ st.listener = .closing ∨ st.listener = .making ∨
    st.listener = .leaving → st.s = none
  old : st.listener ≠ .assigned → st.old = none
  mainLocal : st.main = .idle ∨ st.main = .stopped → st.mainLocal = none

/-- `s` has been made and its `Start()` is still ahead. -/
def ListenerPc.BeforeStart (pc : ListenerPc) : Prop :=
  pc = .made ∨ pc = .assigned ∨ pc = .unlocking ∨ pc = .installed

/-- The invariant of the reference counting. -/
structure Inv (st : State) : Prop extends Locals st where
  counted : ∀ i, (st.sessions i).refs = owners st i
  fresh : ∀ i, st.created ≤ i → (st.sessions i).refs = 0 ∧ (st.sessions i).reader = .notStarted
  unstarted : ListenerPc.BeforeStart st.listener →
    ∃ i ∈ st.s, (st.sessions i).reader = .notStarted

theorem inv_initial : Inv initial := by
  refine ⟨⟨fun _ => rfl, fun _ => rfl, fun _ => rfl, fun _ => rfl⟩, fun i => ?_,
    fun i _ => ⟨rfl, rfl⟩, ?_⟩
  · simp [owners, references, initial, Session.blank, ReaderPc.holds]
  · simp [initial, ListenerPc.BeforeStart]

theorem counted_step (h : Inv st) (hs : step st l = some st') (k : ℕ) :
    (st'.sessions k).refs = owners st' k := by
  have hk := h.counted k
  have hpc : ∀ i pc, standsAt l = some (i, pc) → (st.sessions i).reader = pc :=
    fun i pc => reader_of_step hs
  simp only [owners, references] at hk ⊢
  cases l <;>
    simp only [step, Option.ite_none_left_eq_some, when_eq_some, State.modify,
      State.release] at hs <;>
    obtain ⟨-, hE, rfl⟩ := hs <;> try dsimp only
  case acceptCopy =>
    rw [h.replaced hE.1, owns_none] at hk
    rw [refs_retain, reader_retain]
    omega
  case acceptMake =>
    rw [h.s (by simp [hE.1]), owns_none] at hk
    by_cases hc : st.created = k
    · have hf := h.fresh k (by omega)
      rw [hf.1, hf.2] at hk
      rw [hc, modifyAt_self, owns_self]
      simp only [Session.made]
      omega
    · have hc' : some st.created ≠ some k := by simpa using hc
      rw [modifyAt_of_ne _ hc', owns_eq_zero hc']
      omega
  case acceptAssign =>
    rw [h.old (by simp [hE.1]), owns_none] at hk
    rw [refs_retain, reader_retain]
    omega
  case acceptStart =>
    rw [refs_readerTo]
    obtain ⟨i, hsi, hi⟩ := h.unstarted (by simp [ListenerPc.BeforeStart, hE])
    rw [hsi] at hk ⊢
    by_cases hik : i = k
    · subst hik
      rw [hi] at hk
      rw [modifyAt_self]
      exact hk
    · rw [modifyAt_of_ne _ (by simpa using hik)]
      exact hk
  case acceptDropOld | acceptDropSession | acceptDropReplaced | mainDrop =>
    rw [refs_release, reader_release, owns_none]
    omega
  case reapTake =>
    rw [h.mainLocal (by simp [hE.1]), owns_none] at hk
    split
    · dsimp only
      rw [owns_none]
      omega
    · rw [h.mainLocal (by simp [hE.1]), owns_none]
      omega
  case tearTake =>
    rw [h.mainLocal (by simp [hE.1]), owns_none] at hk
    rw [owns_none]
    omega
  case resizeCopy =>
    rw [h.mainLocal (by simp [hE.1]), owns_none] at hk
    rw [refs_retain, reader_retain]
    omega
  case readControl i | closedResolve i =>
    by_cases hi : i = k
    · subst hi
      have h0 : (st.sessions i).reader.holds.toNat = 0 := by rw [hE]; rfl
      rw [modifyAt_self, refs_lock rfl rfl]
      omega
    · rw [modifyAt_of_ne _ (by simpa using hi)]
      exact hk
  case readControlDone i | closedDrop i =>
    rw [refs_readerTo, refs_release]
    by_cases hi : i = k
    · subst hi
      rw [hE] at hk
      rw [modifyAt_self, owns_self, hk]
      rfl
    · have hi' : some i ≠ some k := by simpa using hi
      rw [modifyAt_of_ne _ hi', reader_release, owns_eq_zero hi']
      exact hk
  case readEnd i | closedLock i | closedRecord i | closedUnlock i =>
    rw [refs_readerTo]
    by_cases hi : i = k
    · subst hi
      rw [hpc i _ rfl] at hk
      rwa [modifyAt_self]
    · rwa [modifyAt_of_ne _ (by simpa using hi)]
  all_goals simpa using hk

/-- A session that a variable or a callback refers to has been created. -/
theorem lt_created (h : Inv st) (hk : 0 < owners st k) : k < st.created := by
  by_contra hc
  have := (h.fresh k (by omega)).1
  rw [h.counted k] at this
  omega

theorem lt_created_of_reader (h : Inv st) (hk : (st.sessions k).reader ≠ .notStarted) :
    k < st.created := by
  by_contra hc
  exact hk (h.fresh k (by omega)).2

/-- The session that a move touches has been created, but for the creation itself and for the end
of a destructor. -/
theorem lt_created_of_target (h : Inv st) (hs : step st l = some st')
    (ht : target st l = some k) :
    k < st.created ∨ (∃ a, l = .acceptMake a) ∨ ∃ t, l = .joined t := by
  cases l
  case acceptMake a => exact .inr (.inl ⟨a, rfl⟩)
  case joined t => exact .inr (.inr ⟨t, rfl⟩)
  case acceptUnlock | reapTake | tearTake => cases ht
  case readPing | readControl | readStats | readControlDone | readEnd | closedLock |
      closedResolve | closedRecord | closedDrop | closedUnlock =>
    cases ht
    refine .inl (lt_created_of_reader h ?_)
    rw [reader_of_step hs rfl]
    decide
  all_goals
    refine .inl (lt_created h ?_)
    rw [target] at ht
    rw [owners, references, owns_eq_one ht]
    omega

theorem created_step (hs : step st l = some st') :
    st'.created = st.created ∨ (∃ a, l = .acceptMake a) ∧ st'.created = st.created + 1 := by
  cases l <;>
    simp only [step, Option.ite_none_left_eq_some, when_eq_some, State.modify,
      State.release] at hs <;>
    obtain ⟨-, -, rfl⟩ := hs
  case acceptMake a => exact .inr ⟨⟨a, rfl⟩, rfl⟩
  case reapTake => exact .inl (by split <;> rfl)
  all_goals exact .inl rfl

theorem fresh_step (h : Inv st) (hs : step st l = some st') (k : ℕ) (hk : st'.created ≤ k) :
    (st'.sessions k).refs = 0 ∧ (st'.sessions k).reader = .notStarted := by
  have hle : st.created ≤ k := by
    rcases created_step hs with hc | ⟨-, hc⟩ <;> omega
  have hf := h.fresh k hle
  by_cases ht : target st l = some k
  · rw [sessions_step_of_eq hs ht]
    rcases lt_created_of_target h hs ht with hlt | ⟨a, rfl⟩ | ⟨t, rfl⟩
    · omega
    · -- the new session has the number `st.created`, below the new bound
      have hc : st'.created = st.created + 1 := by
        simp only [step, Option.ite_none_left_eq_some, when_eq_some] at hs
        obtain ⟨-, -, rfl⟩ := hs
        rfl
      rw [target, Option.some.injEq] at ht
      omega
    · exact hf
  · rwa [sessions_step_of_ne hs ht]

theorem notStarted_step (hs : step st l = some st') (hl : l ≠ .acceptStart)
    (hk : (st.sessions k).reader = .notStarted) : (st'.sessions k).reader = .notStarted := by
  by_cases ht : target st l = some k
  · rw [sessions_step_of_eq hs ht]
    cases l
    case acceptStart => exact absurd rfl hl
    case acceptMake => rfl
    case readControl | readControlDone | readEnd | closedLock | closedResolve | closedRecord |
        closedDrop | closedUnlock =>
      cases ht
      rw [reader_of_step hs rfl] at hk
      cases hk
    all_goals simpa [effect] using hk
  · rwa [sessions_step_of_ne hs ht]

theorem beforeStart_step (hs : step st l = some st')
    (hb : ListenerPc.BeforeStart st'.listener) :
    (∃ a, l = .acceptMake a) ∨
      l ≠ .acceptStart ∧ ListenerPc.BeforeStart st.listener ∧ st'.s = st.s := by
  unfold ListenerPc.BeforeStart at *
  cases l <;>
    simp only [step, Option.ite_none_left_eq_some, when_eq_some, State.modify,
      State.release] at hs <;>
    obtain ⟨-, hE, rfl⟩ := hs <;> try dsimp only at hb
  case acceptCopy => split at hb <;> simp at hb
  case reapTake =>
    split at hb
    · exact .inr ⟨by simp, hb, by rw [if_pos ‹_›]⟩
    · exact .inr ⟨by simp, hb, by rw [if_neg ‹_›]⟩
  all_goals simp_all

theorem unstarted_step (h : Inv st) (hs : step st l = some st')
    (hb : ListenerPc.BeforeStart st'.listener) :
    ∃ i ∈ st'.s, (st'.sessions i).reader = .notStarted := by
  rcases beforeStart_step hs hb with ⟨a, rfl⟩ | ⟨hl, hb, hs'⟩
  · refine ⟨st.created, ?_, ?_⟩
    · simp only [step, Option.ite_none_left_eq_some, when_eq_some] at hs
      obtain ⟨-, -, rfl⟩ := hs
      rfl
    · rw [sessions_step_of_eq hs rfl]
      rfl
  · obtain ⟨i, hi, hr⟩ := h.unstarted hb
    exact ⟨i, by rwa [hs'], notStarted_step hs hl hr⟩

theorem locals_step (h : Locals st) (hs : step st l = some st') : Locals st' := by
  obtain ⟨h1, h2, h3, h4⟩ := h
  cases l <;>
    simp only [step, Option.ite_none_left_eq_some, when_eq_some, State.modify,
      State.release] at hs <;>
    obtain ⟨-, hE, rfl⟩ := hs
  case acceptCopy =>
    refine ⟨fun hl => ?_, fun _ => h2 (.inl hE.1), fun _ => h3 (by simp [hE.1]), h4⟩
    dsimp only at hl
    split at hl <;> simp at hl
  case reapTake => split <;> constructor <;> simp_all
  case tearTake | resizeCopy =>
    refine ⟨h1, h2, h3, fun hm => ?_⟩
    by_contra hn
    simp [hn] at hm
  -- the read threads and the sends have no part in these variables
  case joined | sendCurrent | readPing | readControl | readStats | readControlDone | readEnd |
      closedLock | closedResolve | closedRecord | closedDrop | closedUnlock =>
    exact ⟨h1, h2, h3, h4⟩
  all_goals constructor <;> simp_all

/-- **The counting is exact** after every move of every thread. -/
theorem inv_step (h : Inv st) (hs : step st l = some st') : Inv st' :=
  ⟨locals_step h.toLocals hs, counted_step h hs, fresh_step h hs, unstarted_step h hs⟩

theorem inv_of_reaches {ok : State → Label → Prop} (h : Reaches step ok initial st) : Inv st :=
  h.invariant inv_initial fun _ _ _ hi _ hs => inv_step hi hs

end OpenDisplay.App.SessionCount
