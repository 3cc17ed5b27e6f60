import Mathlib.Algebra.Order.BigOperators.Group.Finset
import Mathlib.Data.Fintype.Basic

/-!
# Counting over finitely many places

`census f p` is the number of places `i` at which `f i` meets `p`.  The rule of the module is
`census_update`: what changes when one place gets a new value.
-/

namespace OpenDisplay.Lib.Census

variable {ι β : Type*} [Fintype ι]

def census (f : ι → β) (p : β → Prop) [DecidablePred p] : ℕ := ∑ i, if p (f i) then 1 else 0

variable {f : ι → β} {p : β → Prop} [DecidablePred p] {i : ι}

/-- **One place changes.** -/
theorem census_update [DecidableEq ι] (f : ι → β) (p : β → Prop) [DecidablePred p] (i : ι) (b : β) :
    census (Function.update f i b) p + (if p (f i) then 1 else 0) =
      census f p + if p b then 1 else 0 := by
  have hrest : ∑ j ∈ Finset.univ.erase i, (if p (Function.update f i b j) then 1 else 0) =
      ∑ j ∈ Finset.univ.erase i, if p (f j) then 1 else 0 := by
    refine Finset.sum_congr rfl fun j hj => ?_
    rw [Function.update_of_ne (Finset.ne_of_mem_erase hj)]
  unfold census
  rw [← Finset.add_sum_erase Finset.univ _ (Finset.mem_univ i), hrest, Function.update_self,
    ← Finset.add_sum_erase Finset.univ (fun j => if p (f j) then 1 else 0) (Finset.mem_univ i)]
  omega

theorem census_pos (h : p (f i)) : 0 < census f p := by
  refine Finset.sum_pos' (fun _ _ => Nat.zero_le _) ⟨i, Finset.mem_univ i, ?_⟩
  rw [if_pos h]
  exact Nat.one_pos

theorem census_eq_zero (h : ∀ i, ¬p (f i)) : census f p = 0 :=
  Finset.sum_eq_zero fun i _ => if_neg (h i)

theorem exists_of_census_pos (h : 0 < census f p) : ∃ i, p (f i) := by
  by_contra hnone
  rw [census_eq_zero fun i hi => hnone ⟨i, hi⟩] at h
  exact absurd h (Nat.lt_irrefl 0)

end OpenDisplay.Lib.Census
