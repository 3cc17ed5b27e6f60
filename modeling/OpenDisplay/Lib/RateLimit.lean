import Mathlib.Data.Int.Notation
import Mathlib.Data.List.Basic
import Mathlib.Tactic.Common

/-!
# A rate limiter with one time stamp

The limiter lets an attempt at `now` through if at least `interval` has passed since `last`, and
then stores `now` in `last`.  `last` starts at 0, which is no attempt.  `Tracks last sent` relates
it to the times of the attempts that were let through, newest first; the two rules are
`Tracks.accept`, for an attempt that is let through, and `Tracks.recent`, which finds the attempt
that stands in the way of one that is not.

Two limiters with the same interval may let attempts through to one receiver.  `Covers a b sent`
relates the last attempt of each to the times of all; an attempt that its own limiter lets through
keeps the interval to all earlier ones exactly if the other limiter's last one does
(`Covers.spaced_iff`).
-/

namespace OpenDisplay.Lib.RateLimit

/-- An attempt at `now` is turned away. -/
def Blocked (interval last now : ℤ) : Prop := now - last < interval

instance (interval last now : ℤ) : Decidable (Blocked interval last now) := by
  unfold Blocked
  infer_instance

/-- `last` is the newest time in `sent`, or 0 before the first. -/
def Tracks (last : ℤ) : List ℤ → Prop
  | [] => last = 0
  | t :: _ => last = t

variable {interval last now : ℤ} {sent : List ℤ}

theorem tracks_nil : Tracks 0 [] := rfl

theorem Tracks.accept : Tracks now (now :: sent) := rfl

/-- What turned an attempt away is one that was let through less than `interval` earlier. -/
theorem Tracks.recent (h : Tracks last sent) (hlast : last ≤ now) (hnow : interval ≤ now)
    (hb : Blocked interval last now) : ∃ t ∈ sent, now - interval < t ∧ t ≤ now := by
  unfold Blocked at hb
  match sent, h with
  | [], h =>
    have h0 : last = 0 := h
    omega
  | t :: _, h =>
    have ht : last = t := h
    exact ⟨t, by simp, by omega, by omega⟩

/-! ## Two limiters -/

/-- Any two attempts are at least `interval` apart; newest first. -/
def Spaced (interval : ℤ) (sent : List ℤ) : Prop :=
  sent.Pairwise fun later earlier => interval ≤ later - earlier

/-- `a` and `b` are the last attempts that two limiters let through, `sent` all of them. -/
structure Covers (a b : Option ℤ) (sent : List ℤ) : Prop where
  le : ∀ t ∈ sent, (∃ x ∈ a, t ≤ x) ∨ ∃ x ∈ b, t ≤ x
  left : ∀ x ∈ a, x ∈ sent
  right : ∀ x ∈ b, x ∈ sent

variable {a b : Option ℤ}

theorem covers_nil : Covers none none [] where
  le := by simp
  left := by simp
  right := by simp

theorem Covers.symm (h : Covers a b sent) : Covers b a sent where
  le := fun t ht => (h.le t ht).symm
  left := h.right
  right := h.left

/-- The first limiter lets an attempt through. -/
theorem Covers.accept (h : Covers a b sent) (hnow : ∀ x ∈ a, x ≤ now) :
    Covers (some now) b (now :: sent) where
  le := by
    intro t ht
    rcases List.mem_cons.1 ht with rfl | ht
    · exact .inl ⟨t, rfl, Int.le_refl t⟩
    · rcases h.le t ht with ⟨x, hx, hle⟩ | hb
      · exact .inl ⟨now, rfl, Int.le_trans hle (hnow x hx)⟩
      · exact .inr hb
  left := by
    intro x hx
    cases hx
    exact List.mem_cons_self
  right := by
    intro x hx
    exact List.mem_cons_of_mem _ (h.right x hx)

/-- What is left to check for an attempt that the first limiter lets through. -/
theorem Covers.spaced_iff (h : Covers a b sent) (hsent : Spaced interval sent)
    (hown : ∀ x ∈ a, interval ≤ now - x) :
    Spaced interval (now :: sent) ↔ ∀ x ∈ b, interval ≤ now - x := by
  unfold Spaced
  rw [List.pairwise_cons]
  constructor
  · rintro ⟨hall, -⟩ x hx
    exact hall x (h.right x hx)
  · intro hother
    refine ⟨?_, hsent⟩
    intro t ht
    rcases h.le t ht with ⟨x, hx, hle⟩ | ⟨x, hx, hle⟩
    · have := hown x hx
      omega
    · have := hother x hx
      omega

end OpenDisplay.Lib.RateLimit
