import Mathlib.Data.List.Count
import Mathlib.Tactic.Common

/-! # The ledger of a program's resources

A program that acquires resources and gives them back writes each of the two into a ledger, in the order
in which it does them. `Settled L r held` is the law of a resource that is handled right: it was acquired
once at most, and was released once unless it is still `held`, or never acquired. A step that writes down
what it does keeps the law (`Settled.append`). -/

namespace OpenDisplay.Lib.Ledger

variable {ρ : Type*} [DecidableEq ρ]

inductive Entry (ρ : Type*)
  | acquire (r : ρ)
  | release (r : ρ)
  deriving DecidableEq, Repr

/-- How often `r` was acquired. -/
def acquired (L : List (Entry ρ)) (r : ρ) : ℕ := L.count (.acquire r)

/-- How often `r` was released. -/
def released (L : List (Entry ρ)) (r : ρ) : ℕ := L.count (.release r)

section Counts

variable (L es : List (Entry ρ)) (r s : ρ)

@[simp] theorem acquired_nil : acquired ([] : List (Entry ρ)) r = 0 := rfl

@[simp] theorem released_nil : released ([] : List (Entry ρ)) r = 0 := rfl

@[simp] theorem acquired_append : acquired (L ++ es) r = acquired L r + acquired es r :=
  List.count_append

@[simp] theorem released_append : released (L ++ es) r = released L r + released es r :=
  List.count_append

@[simp] theorem acquired_cons_acquire :
    acquired (.acquire s :: L) r = acquired L r + if s = r then 1 else 0 := by
  simp [acquired, List.count_cons]

@[simp] theorem acquired_cons_release : acquired (.release s :: L) r = acquired L r := by
  simp [acquired]

@[simp] theorem released_cons_release :
    released (.release s :: L) r = released L r + if s = r then 1 else 0 := by
  simp [released, List.count_cons]

@[simp] theorem released_cons_acquire : released (.acquire s :: L) r = released L r := by
  simp [released]

@[simp] theorem acquired_ite (c : Prop) [Decidable c] :
    acquired (if c then L else es) r = if c then acquired L r else acquired es r :=
  apply_ite (acquired · r) c L es

@[simp] theorem released_ite (c : Prop) [Decidable c] :
    released (if c then L else es) r = if c then released L r else released es r :=
  apply_ite (released · r) c L es

theorem mem_acquire_iff : .acquire r ∈ L ↔ acquired L r ≠ 0 := by
  rw [acquired, ← List.count_pos_iff, Nat.pos_iff_ne_zero]

end Counts

/-- **The law of a resource.** -/
structure Settled (L : List (Entry ρ)) (r : ρ) (held : Bool) : Prop where
  once : acquired L r ≤ 1
  balance : released L r + held.toNat = acquired L r

variable {L es : List (Entry ρ)} {r : ρ} {held : Bool}

theorem Settled.nil (r : ρ) : Settled [] r false := ⟨by simp, by simp⟩

theorem Settled.not_held (h : Settled L r held) (h0 : acquired L r = 0) : held = false := by
  have := h.balance
  cases held with
  | false => rfl
  | true => simp [h0] at this

/-- **The law is kept** by entries that say what happens to the resource, if they do not acquire it a
second time. -/
theorem Settled.append {held' : Bool} (h : Settled L r held)
    (hes : released es r + held'.toNat = acquired es r + held.toNat)
    (hnew : acquired es r = 0 ∨ acquired L r = 0 ∧ acquired es r ≤ 1) :
    Settled (L ++ es) r held' := by
  have hb := h.balance
  have ho := h.once
  constructor
  · rw [acquired_append]
    omega
  · rw [acquired_append, released_append]
    omega

/-- **Nothing is released twice.** -/
theorem Settled.released_le_one (h : Settled L r held) : released L r ≤ 1 :=
  Nat.le_trans (Nat.le.intro h.balance) h.once

/-- **What is not held any more was released exactly once.** -/
theorem Settled.released_eq_one (h : Settled L r held) (ha : .acquire r ∈ L) :
    released L r = 1 ↔ held = false := by
  have hb := h.balance
  have ho := h.once
  have h0 := (mem_acquire_iff L r).1 ha
  cases held with
  | false =>
    rw [Bool.toNat_false] at hb
    exact iff_of_true (by omega) rfl
  | true =>
    rw [Bool.toNat_true] at hb
    exact iff_of_false (by omega) (by simp)

end OpenDisplay.Lib.Ledger
