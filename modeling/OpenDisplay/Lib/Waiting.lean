import Mathlib.Data.Nat.Notation
import Mathlib.Tactic.Common

/-!
# Threads that wait for each other

At one moment of a system of threads, a thread stands at one or more moves: the next ones of its
program, where the program does not say which of them it will be.  Such a move is enabled, or the
thread has to wait in front of it for another thread, the owner of a lock or one that it joins.

`Progresses` says of a move that its thread gets there: the move is enabled, or the thread that it
waits for stands somewhere, and wherever it stands it gets on.  No cycle of waits progresses.
`progresses_of_rank` is the rule: it is enough that each wait is for a thread of a lower rank.
-/

namespace OpenDisplay.Lib.Waiting

variable {θ ι : Type*}

/-- The threads `θ` in front of their moves `ι`. -/
structure Scene (θ ι : Type*) where
  mover : ι → θ
  stands : ι → Prop
  enabled : ι → Prop
  awaits : ι → θ → Prop

inductive Progresses (c : Scene θ ι) : ι → Prop
  | moves {l : ι} : c.enabled l → Progresses c l
  | waits {l : ι} {t : θ} : c.awaits l t → (∃ l', c.mover l' = t ∧ c.stands l') →
      (∀ l', c.mover l' = t → c.stands l' → Progresses c l') → Progresses c l

variable {c : Scene θ ι} {l : ι}

/-- **The rule of ranks.** -/
theorem progresses_of_rank (rank : θ → ℕ)
    (h : ∀ l, c.stands l → c.enabled l ∨ ∃ t, c.awaits l t ∧ rank t < rank (c.mover l) ∧
      ∃ l', c.mover l' = t ∧ c.stands l') (hl : c.stands l) : Progresses c l := by
  generalize hn : rank (c.mover l) = n
  induction n using Nat.strongRecOn generalizing l with
  | ind n ih =>
    rcases h l hl with henabled | ⟨t, hwait, hlt, hsome⟩
    · exact .moves henabled
    · refine .waits hwait hsome fun l' hmover hstands => ?_
      exact ih (rank t) (hn ▸ hlt) hstands (by rw [hmover])

end OpenDisplay.Lib.Waiting
