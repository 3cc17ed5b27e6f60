import Mathlib.Data.Nat.Notation
import Mathlib.Tactic.Common

/-!
# The queue between the read thread and the decode thread

`VideoQueue` holds at most `capacity` samples; a push into a full queue drops the oldest one.  The
bound is a field of the queue, so that no operation can leave it.  Each operation runs under the
mutex of the queue and is one step here; `popWait` is the outcome of the wait (the front sample, or
none when the queue stayed empty).
-/

namespace OpenDisplay.App.Queue

variable {α : Type*}

/-- `kCapacity`. -/
def kCapacity : ℕ := 2

structure VideoQueue (α : Type*) where
  capacity : ℕ
  queue : List α
  dropped : UInt64
  shuttingDown : Bool
  capacity_pos : 0 < capacity
  length_le : queue.length ≤ capacity

/-- The constructor `VideoQueue(capacity)`. -/
def VideoQueue.ofCapacity (capacity : ℕ) (capacity_pos : 0 < capacity) : VideoQueue α where
  capacity := capacity
  queue := []
  dropped := 0
  shuttingDown := false
  capacity_pos := capacity_pos
  length_le := Nat.zero_le _

/-- The queue of the app. -/
def VideoQueue.empty : VideoQueue α where
  capacity := kCapacity
  queue := []
  dropped := 0
  shuttingDown := false
  capacity_pos := by decide
  length_le := Nat.zero_le _

namespace VideoQueue

/-- The next push drops a sample. -/
def Full (q : VideoQueue α) : Prop := q.capacity ≤ q.queue.length

instance (q : VideoQueue α) : Decidable q.Full := by
  unfold Full
  infer_instance

/-- What a push leaves of the queue: `pop_front` if it is full. -/
def kept (q : VideoQueue α) : List α := if q.Full then q.queue.tail else q.queue

theorem length_kept_lt (q : VideoQueue α) : q.kept.length < q.capacity := by
  have hp := q.capacity_pos
  have hl := q.length_le
  by_cases hf : q.Full
  · rw [kept, if_pos hf, List.length_tail]
    omega
  · rw [kept, if_neg hf]
    exact Nat.lt_of_not_le hf

/-- `Push`; true if a sample was dropped. -/
def push (q : VideoQueue α) (x : α) : VideoQueue α × Bool :=
  ({ q with
      queue := q.kept ++ [x]
      dropped := if q.Full then q.dropped + 1 else q.dropped
      length_le := by
        have := q.length_kept_lt
        rw [List.length_append, List.length_singleton]
        omega },
    decide q.Full)

/-- The sample that the next push drops. -/
def victim (q : VideoQueue α) : Option α := if q.Full then q.queue.head? else none

/-- `PopWait`. -/
def popWait (q : VideoQueue α) : Option α × VideoQueue α :=
  match h : q.queue with
  | [] => (none, q)
  | x :: xs =>
    (some x, { q with
      queue := xs
      length_le := by
        have := q.length_le
        rw [h, List.length_cons] at this
        omega })

/-- `Shutdown`. -/
def shutdown (q : VideoQueue α) : VideoQueue α := { q with shuttingDown := true }

theorem exists_victim {q : VideoQueue α} (hf : q.Full) : ∃ x, q.victim = some x := by
  have hp := q.capacity_pos
  have hl : q.capacity ≤ q.queue.length := hf
  obtain ⟨a, as, hq⟩ := List.exists_cons_of_length_pos (by omega : 0 < q.queue.length)
  exact ⟨a, by rw [victim, if_pos hf, hq]; rfl⟩

theorem mem_push {q : VideoQueue α} {x y : α} (h : y ∈ (q.push x).1.queue) :
    y ∈ q.queue ∨ y = x := by
  rcases List.mem_append.1 h with h | h
  · left
    unfold kept at h
    split at h
    · exact List.mem_of_mem_tail h
    · exact h
  · exact .inr (by simpa using h)

theorem popWait_nil {q : VideoQueue α} (h : q.queue = []) : q.popWait = (none, q) := by
  unfold popWait
  split
  · rfl
  · simp_all

theorem popWait_cons {q : VideoQueue α} {x : α} {xs : List α} (h : q.queue = x :: xs) :
    q.popWait.1 = some x ∧ q.popWait.2.queue = xs := by
  unfold popWait
  split <;> simp_all

end VideoQueue

end OpenDisplay.App.Queue
