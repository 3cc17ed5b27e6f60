import OpenDisplay.Lib.Binary64

/-! # Checked 64-bit integers

`int64_t` on the mathematical integers, with `none` where the standard leaves the behaviour undefined: the
subtraction that overflows (`sub`) and the conversion of a double whose truncation does not fit
(`convert`). -/

namespace OpenDisplay.Lib.Checked

open OpenDisplay.Lib.Binary64

/-- The range of `int64_t`. -/
def InInt64 (x : ℤ) : Prop := -9223372036854775808 ≤ x ∧ x < 9223372036854775808

instance : DecidablePred InInt64 := fun x => by
  unfold InInt64
  infer_instance

/-- The integer, if it fits. -/
def checked (x : ℤ) : Option ℤ := if InInt64 x then some x else none

/-- `a - b`. -/
def sub (a b : ℤ) : Option ℤ := checked (a - b)

/-- A number without its fraction. -/
def truncate (q : ℚ) : ℤ := q.num.tdiv q.den

/-- `static_cast<int64_t>` of a double. -/
def convert : Double → Option ℤ
  | .finite q => checked (truncate q)
  | .infinite _ => none
  | .nan => none

variable {a b c x : ℤ} {q : ℚ}

@[simp]
theorem isSome_checked : (checked x).isSome = true ↔ InInt64 x := by
  unfold checked
  split <;> simp_all

theorem checked_of_range (h : InInt64 x) : checked x = some x := if_pos h

theorem isSome_bind_pure {α β : Type*} (o : Option α) (f : α → β) :
    (o.bind fun a => pure (f a)).isSome = o.isSome := by
  cases o <;> rfl

/-! ### Subtractions -/

/-- Of two integers that are not negative and fit, the difference fits. -/
theorem sub_of_nonneg (ha : 0 ≤ a) (ha' : InInt64 a) (hb : 0 ≤ b) (hb' : InInt64 b) :
    sub a b = some (a - b) := by
  unfold InInt64 at ha' hb'
  exact checked_of_range ⟨by omega, by omega⟩

/-- From an integer that is not negative one subtracts all that are not too far below zero. -/
theorem isSome_sub_iff (ha : 0 ≤ a) (ha' : InInt64 a) (hb : InInt64 b) :
    (sub a b).isSome = true ↔ a - 9223372036854775808 < b := by
  unfold sub InInt64 at *
  rw [isSome_checked, InInt64]
  omega

/-! ### Truncation -/

theorem truncate_neg (q : ℚ) : truncate (-q) = -truncate q := by
  unfold truncate
  rw [Rat.num_neg_eq_neg_num, Rat.den_neg_eq_den, Int.neg_tdiv]

theorem truncate_of_nonneg (h : 0 ≤ q) : truncate q = ⌊q⌋ := by
  unfold truncate
  rw [Int.tdiv_eq_ediv_of_nonneg (Rat.num_nonneg.2 h), Rat.floor_def']

theorem truncate_lt (hc : 0 < c) : truncate q < c ↔ q < c := by
  rcases le_total 0 q with hq | hq
  · rw [truncate_of_nonneg hq, Int.floor_lt]
  · have hfloor : 0 ≤ ⌊-q⌋ := Int.floor_nonneg.2 (neg_nonneg.2 hq)
    have htrunc : truncate q = -⌊-q⌋ := by
      rw [← truncate_of_nonneg (neg_nonneg.2 hq), truncate_neg, neg_neg]
    have hpos : (0 : ℚ) < c := Int.cast_pos.2 hc
    exact iff_of_true (by omega) (hq.trans_lt hpos)

theorem lt_truncate (hc : c < 0) : c < truncate q ↔ (c : ℚ) < q := by
  have h := truncate_lt (q := -q) (neg_pos.2 hc)
  rw [truncate_neg, neg_lt_neg_iff, Int.cast_neg, neg_lt_neg_iff] at h
  exact h

theorem inInt64_truncate :
    InInt64 (truncate q) ↔ -9223372036854775809 < q ∧ q < 9223372036854775808 := by
  have hlo : -9223372036854775809 < truncate q ↔ ((-9223372036854775809 : ℤ) : ℚ) < q :=
    lt_truncate (by decide)
  have hhi : truncate q < 9223372036854775808 ↔ q < ((9223372036854775808 : ℤ) : ℚ) :=
    truncate_lt (by decide)
  rw [Int.cast_neg, Int.cast_ofNat] at hlo
  rw [Int.cast_ofNat] at hhi
  rw [← hlo, ← hhi, InInt64]
  omega

end OpenDisplay.Lib.Checked
