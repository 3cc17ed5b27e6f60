import Mathlib.Data.Nat.Notation
import Mathlib.Data.Option.Basic

/-!
# A store of objects and the references that own them

A store maps names to objects.  A variable holds at most one reference, `v : Option ι`;
`modifyAt s v f` updates the object that `v` names, and does nothing when `v` is null.  A field of
the objects that `f` does not touch is the same in the whole store (`field_modifyAt`).

`owns v i` counts the references to `i` in the variable `v`: 1 or 0.  The strong count of a shared
object is the sum of `owns` over the variables, and the two rules of a copy and of a release are
`owns_eq_one` and `owns_none`.
-/

namespace OpenDisplay.Lib.Store

variable {ι α β : Type*} [DecidableEq ι]

/-- The update of the object that `v` names. -/
def modifyAt (s : ι → α) (v : Option ι) (f : α → α) : ι → α :=
  fun i => if v = some i then f (s i) else s i

@[simp] theorem modifyAt_none (s : ι → α) (f : α → α) : modifyAt s none f = s := by
  funext i
  simp [modifyAt]

@[simp] theorem modifyAt_self (s : ι → α) (i : ι) (f : α → α) :
    modifyAt s (some i) f i = f (s i) := by
  simp [modifyAt]

theorem modifyAt_of_eq {s : ι → α} {v : Option ι} {i : ι} (f : α → α) (h : v = some i) :
    modifyAt s v f i = f (s i) := by
  simp [modifyAt, h]

theorem modifyAt_of_ne {s : ι → α} {v : Option ι} {i : ι} (f : α → α) (h : v ≠ some i) :
    modifyAt s v f i = s i := by
  simp [modifyAt, h]

/-- Two updates of one object are one update. -/
theorem modifyAt_modifyAt (s : ι → α) (v : Option ι) (f g : α → α) :
    modifyAt (modifyAt s v f) v g = modifyAt s v (fun a => g (f a)) := by
  funext i
  unfold modifyAt
  split <;> rfl

theorem field_modifyAt (π : α → β) {f : α → α} (hf : ∀ a, π (f a) = π a) (s : ι → α)
    (v : Option ι) (i : ι) : π (modifyAt s v f i) = π (s i) := by
  unfold modifyAt
  split
  · exact hf _
  · rfl

/-- The number of references to `i` that the variable `v` holds. -/
def owns (v : Option ι) (i : ι) : ℕ := if v = some i then 1 else 0

@[simp] theorem owns_none (i : ι) : owns (none : Option ι) i = 0 := by
  simp [owns]

theorem owns_self (i : ι) : owns (some i) i = 1 := by
  simp [owns]

theorem owns_eq_one {v : Option ι} {i : ι} (h : v = some i) : owns v i = 1 := by
  simp [owns, h]

theorem owns_eq_zero {v : Option ι} {i : ι} (h : v ≠ some i) : owns v i = 0 := by
  simp [owns, h]

end OpenDisplay.Lib.Store
