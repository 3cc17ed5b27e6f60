import OpenDisplay.App.Queue
import OpenDisplay.Lib.Census
import OpenDisplay.Lib.Transition

/-!
# Waiting for samples

`PopWait` waits on a condition variable: a thread that finds the queue empty goes to sleep, `Push` wakes
one sleeper, `Shutdown` wakes all of them after it has let go of the mutex, and a sleeper may also wake
up by itself or by its timeout.  A thread that was woken looks at the queue again when it has the mutex.

While a thread sleeps, at least as many threads are on their way to the queue as there are samples in it,
and behind a `Shutdown`, of which there may be several, no thread sleeps any more (`no_sleeper_left`).
-/

namespace OpenDisplay.App.QueueWaiting

open OpenDisplay.App.Queue OpenDisplay.Lib.Census OpenDisplay.Lib.Transition

variable {τ α : Type*}

/-! ## The code -/

/-- Where a thread stands in `PopWait`. -/
inductive Phase
  | outside
  | asleep
  /-- It waits for the mutex; the wait is over for good if `timedOut`. -/
  | woken (timedOut : Bool)
  deriving DecidableEq

def Phase.Woken : Phase → Prop
  | .woken _ => True
  | _ => False

instance : DecidablePred Phase.Woken := fun p => by
  unfold Phase.Woken
  split <;> infer_instance

structure State (τ α : Type*) where
  queue : VideoQueue α
  phase : τ → Phase
  /-- The calls of `Shutdown` that have set the flag; their `notify_all` is still to come. -/
  closing : ℕ
  /-- A `notify_all` is done. -/
  notified : Bool
  /-- What the calls of `PopWait` returned, newest first. -/
  returned : List (τ × Option α)

def initial (capacity : ℕ) (hc : 0 < capacity) : State τ α :=
  ⟨.ofCapacity capacity hc, fun _ => .outside, 0, false, []⟩

inductive Label (τ α : Type*)
  /-- `Push`; `notify_one` wakes the thread. -/
  | push (x : α) (woken : Option τ)
  /-- `PopWait` is called and has the mutex. -/
  | popWait (i : τ)
  /-- A sleeper wakes up by itself. -/
  | wake (i : τ) (timedOut : Bool)
  /-- A woken thread has the mutex again. -/
  | recheck (i : τ)
  /-- A call of `Shutdown` sets the flag. -/
  | shutdown
  | notifyAll

/-- The predicate of the wait. -/
def Ready (q : VideoQueue α) : Prop := q.queue ≠ [] ∨ q.shuttingDown = true

instance (q : VideoQueue α) : Decidable (Ready q) := by
  unfold Ready
  infer_instance

variable [DecidableEq τ]

/-- The call returns what the queue has. -/
def State.leave (st : State τ α) (i : τ) : State τ α :=
  { st with
    queue := st.queue.popWait.2
    phase := Function.update st.phase i .outside
    returned := (i, st.queue.popWait.1) :: st.returned }

/-- `notify_one`: some sleeper, if there is one. -/
def Notifies (phase : τ → Phase) : Option τ → Prop
  | some i => phase i = .asleep
  | none => ∀ i, phase i ≠ .asleep

instance [Fintype τ] (phase : τ → Phase) (woken : Option τ) : Decidable (Notifies phase woken) := by
  unfold Notifies
  split <;> infer_instance

def wakeUp (phase : τ → Phase) : Option τ → τ → Phase
  | some i => Function.update phase i (.woken false)
  | none => phase

def step [Fintype τ] (st : State τ α) : Label τ α → Option (State τ α)
  | .push x woken =>
    when (Notifies st.phase woken)
      { st with queue := (st.queue.push x).1, phase := wakeUp st.phase woken }
  | .popWait i =>
    when (st.phase i = .outside)
      (if Ready st.queue then st.leave i
      else { st with phase := Function.update st.phase i .asleep })
  | .wake i timedOut =>
    when (st.phase i = .asleep) { st with phase := Function.update st.phase i (.woken timedOut) }
  | .recheck i =>
    when (st.phase i).Woken
      -- a wait that has timed out returns what the predicate says
      (if Ready st.queue ∨ st.phase i = .woken true then st.leave i
      else { st with phase := Function.update st.phase i .asleep })
  | .shutdown => some { st with queue := st.queue.shutdown, closing := st.closing + 1 }
  | .notifyAll =>
    when (0 < st.closing)
      { st with
        phase := fun i => if st.phase i = .asleep then .woken false else st.phase i
        closing := st.closing - 1
        notified := true }

/-! ## No sleeper is left -/

variable [Fintype τ] {st st' : State τ α} {l : Label τ α}

/-- The threads on their way to the queue. -/
def coming (phase : τ → Phase) : ℕ := census phase Phase.Woken

structure Inv (st : State τ α) : Prop where
  /-- Nobody sleeps, or each sample has a thread that comes for it. -/
  awake : (∀ i, st.phase i ≠ .asleep) ∨ st.queue.queue.length ≤ coming st.phase
  flagged : 0 < st.closing ∨ st.notified = true → st.queue.shuttingDown = true
  notified : st.notified = true → ∀ i, st.phase i ≠ .asleep

omit [DecidableEq τ] in
theorem inv_initial (capacity : ℕ) (hc : 0 < capacity) : Inv (initial capacity hc : State τ α) where
  awake := .inl fun _ => Phase.noConfusion
  flagged := by simp [initial]
  notified := by rintro ⟨⟩

omit [DecidableEq τ] [Fintype τ] in
theorem queue_of_not_ready (h : ¬Ready st.queue) : st.queue.queue = [] ∧ st.queue.shuttingDown = false := by
  unfold Ready at h
  rw [not_or, not_not, Bool.not_eq_true] at h
  exact h

theorem length_push_le (q : VideoQueue α) (x : α) : (q.push x).1.queue.length ≤ q.queue.length + 1 := by
  unfold VideoQueue.push
  dsimp only
  rw [List.length_append, List.length_singleton]
  unfold VideoQueue.kept
  split
  · rw [List.length_tail]
    omega
  · exact Nat.le_refl _

theorem length_popWait (q : VideoQueue α) : q.popWait.2.queue.length = q.queue.length - 1 := by
  rcases hq : q.queue with _ | ⟨x, xs⟩
  · rw [VideoQueue.popWait_nil hq, hq]
    rfl
  · rw [(VideoQueue.popWait_cons hq).2]
    rfl

theorem shuttingDown_popWait (q : VideoQueue α) : q.popWait.2.shuttingDown = q.shuttingDown := by
  unfold VideoQueue.popWait
  split
  · rfl
  · rfl

theorem coming_wake {phase : τ → Phase} {i : τ} (h : phase i = .asleep) (timedOut : Bool) :
    coming (Function.update phase i (.woken timedOut)) = coming phase + 1 := by
  have hcensus := census_update phase Phase.Woken i (.woken timedOut)
  rw [if_neg (by rw [h]; exact id), if_pos (show (Phase.woken timedOut).Woken from trivial)] at hcensus
  exact hcensus

theorem Inv.leave (h : Inv st) (i : τ) : Inv (st.leave i) := by
  refine ⟨?_, ?_, ?_⟩
  · rcases h.awake with hnone | hle
    · refine .inl fun j => ?_
      change Function.update st.phase i .outside j ≠ .asleep
      by_cases hj : j = i
      · rw [hj, Function.update_self]
        exact Phase.noConfusion
      · rw [Function.update_of_ne hj]
        exact hnone j
    · right
      have hcensus := census_update st.phase Phase.Woken i .outside
      rw [if_neg (show ¬Phase.outside.Woken from id)] at hcensus
      change st.queue.popWait.2.queue.length ≤ census (Function.update st.phase i .outside) Phase.Woken
      rw [length_popWait]
      unfold coming at hle
      split at hcensus
      · omega
      · omega
  · intro hclosing
    exact (shuttingDown_popWait st.queue).trans (h.flagged hclosing)
  · intro hnotified j
    change Function.update st.phase i .outside j ≠ .asleep
    by_cases hj : j = i
    · rw [hj, Function.update_self]
      exact Phase.noConfusion
    · rw [Function.update_of_ne hj]
      exact h.notified hnotified j

theorem Inv.sleep (h : Inv st) (i : τ) (hready : ¬Ready st.queue) :
    Inv { st with phase := Function.update st.phase i .asleep } := by
  obtain ⟨hempty, hopen⟩ := queue_of_not_ready hready
  refine ⟨.inr ?_, h.flagged, ?_⟩
  · dsimp only
    rw [hempty]
    exact Nat.zero_le _
  · intro hnotified
    rw [h.flagged (.inr hnotified)] at hopen
    cases hopen

theorem inv_step (h : Inv st) (hs : step st l = some st') : Inv st' := by
  cases l
  case shutdown =>
    obtain rfl := Option.some.inj hs
    exact ⟨h.awake, fun _ => rfl, h.notified⟩
  all_goals simp only [step, when_eq_some] at hs; obtain ⟨hg, rfl⟩ := hs
  case push x woken =>
    have hlength := length_push_le st.queue x
    refine ⟨?_, ?_, ?_⟩
    · cases woken with
      | none => exact .inl hg
      | some i =>
        right
        have hle : st.queue.queue.length ≤ coming st.phase :=
          h.awake.resolve_left fun hnone => hnone i hg
        dsimp only [wakeUp]
        rw [coming_wake hg]
        omega
    · exact h.flagged
    · intro hnotified
      cases woken with
      | none => exact hg
      | some i => exact absurd hg (h.notified hnotified i)
  case popWait i =>
    split
    · exact h.leave i
    · next hready => exact h.sleep i hready
  case wake i timedOut =>
    have hle : st.queue.queue.length ≤ coming st.phase :=
      h.awake.resolve_left fun hnone => hnone i hg
    refine ⟨.inr ?_, h.flagged, fun hnotified => absurd hg (h.notified hnotified i)⟩
    dsimp only
    rw [coming_wake hg]
    omega
  case recheck i =>
    split
    · exact h.leave i
    · next hready => exact h.sleep i (mt .inl hready)
  case notifyAll =>
    have hnone : ∀ i, (if st.phase i = .asleep then .woken false else st.phase i) ≠ Phase.asleep := by
      intro i
      split
      · exact Phase.noConfusion
      · assumption
    exact ⟨.inl hnone, fun _ => h.flagged (.inl hg), fun _ => hnone⟩

/-- **No sleeper is left behind**, in any number of threads and however they are woken: while a thread
sleeps, each sample in the queue has a thread that comes for it, and one that comes gets a sample; and
behind a `Shutdown` nobody sleeps. -/
theorem no_sleeper_left {capacity : ℕ} {hc : 0 < capacity}
    (h : Reaches step (fun _ _ => True) (initial capacity hc) st) :
    (∀ i, st.phase i = .asleep → st.queue.queue.length ≤ coming st.phase ∧
      (st.queue.queue ≠ [] → ∃ j x st', step st (.recheck j) = some st' ∧
        st'.returned = (j, some x) :: st.returned)) ∧
      (st.notified = true → ∀ i, st.phase i ≠ .asleep) := by
  have hinv : Inv st := h.invariant (inv_initial capacity hc) fun _ _ _ hi _ hs => inv_step hi hs
  refine ⟨fun i hi => ?_, hinv.notified⟩
  have hle : st.queue.queue.length ≤ coming st.phase := hinv.awake.resolve_left fun hnone => hnone i hi
  refine ⟨hle, fun hne => ?_⟩
  obtain ⟨x, xs, hq⟩ := List.exists_cons_of_ne_nil hne
  obtain ⟨j, hj⟩ : ∃ j, (st.phase j).Woken := exists_of_census_pos (p := Phase.Woken) (by
    rw [hq, List.length_cons] at hle
    exact Nat.lt_of_lt_of_le (Nat.succ_pos _) hle)
  refine ⟨j, x, st.leave j, when_eq_some.2 ⟨hj, if_pos (.inl (.inl hne))⟩, ?_⟩
  unfold State.leave
  dsimp only
  rw [(VideoQueue.popWait_cons hq).1]

/-- Two consumers, one of which is woken for a sample while the other sleeps on. -/
theorem no_sleeper_left_two :
    ∃ st : State Bool ℕ, st.phase false = .asleep ∧ st.queue.queue = [7] ∧
      (∀ i, st.phase i = .asleep → st.queue.queue.length ≤ coming st.phase ∧
        (st.queue.queue ≠ [] → ∃ j x st', step st (.recheck j) = some st' ∧
          st'.returned = (j, some x) :: st.returned)) ∧
      (st.notified = true → ∀ i, st.phase i ≠ .asleep) := by
  have hrun : Reaches step (fun _ _ => True) (initial 2 (by decide) : State Bool ℕ) _ :=
    ((Reaches.start.move (.popWait true) trivial rfl).move (.popWait false) trivial rfl).move
      (.push 7 (some true)) trivial rfl
  exact ⟨_, rfl, rfl, no_sleeper_left hrun⟩

end OpenDisplay.App.QueueWaiting
