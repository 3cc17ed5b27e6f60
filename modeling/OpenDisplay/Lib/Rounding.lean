import Mathlib.Algebra.Order.Field.Power
import Mathlib.Tactic.FieldSimp
import Mathlib.Tactic.Linarith
import Mathlib.Tactic.NormNum
import Mathlib.Tactic.Positivity
import OpenDisplay.Lib.Binary64

/-! # Rounding errors

`roundHalfEven` is off by at most a half. In the range of the normal numbers `round` is off by at most
one part in `2 ^ 53` (`round_eq`), and it leaves the integers up to `2 ^ 53` as they are (`round_int`).

For numbers that stay below the overflow `rounded` is the rounding to a double and `rounded32` that to a
float, as functions on the rationals; their errors are bounded for every argument (`rounded_error`,
`rounded32_error`), the underflow included. -/

namespace OpenDisplay.Lib.Rounding

open OpenDisplay.Lib.Binary64

variable {q : ℚ}

theorem roundHalfEven_error (q : ℚ) : |(roundHalfEven q : ℚ) - q| ≤ 1 / 2 := by
  have hlo := q.floor_le
  have hhi := q.lt_floor_add_one
  push_cast at hhi
  rw [abs_le]
  unfold roundHalfEven
  dsimp only
  split_ifs
  · constructor <;> linarith
  · push_cast
    constructor <;> linarith
  · constructor <;> linarith
  · push_cast
    constructor <;> linarith

theorem last_place (hlo : (2 : ℚ) ^ (-1022 : ℤ) ≤ |q|) :
    (2 : ℚ) ^ lastPlace q / 2 ≤ |q| / 2 ^ 53 := by
  have hpos : 0 < |q| := lt_of_lt_of_le (by positivity) hlo
  have hlog : -1022 ≤ Int.log 2 |q| := (Int.zpow_le_iff_le_log (by decide) hpos).1 (by exact_mod_cast hlo)
  have hle := Int.zpow_log_le_self (b := 2) (by decide) hpos
  have hplace : lastPlace q = Int.log 2 |q| - 52 := by
    unfold lastPlace
    omega
  have htwo : (2 : ℚ) ≠ 0 := by norm_num
  rw [hplace, zpow_sub₀ htwo]
  push_cast at hle
  have hpow : (2 : ℚ) ^ (52 : ℤ) = 2 ^ 52 := by norm_cast
  rw [hpow, div_div, ← pow_succ]
  gcongr

/-- **The relative error** of a rounding to a normal number. -/
theorem round_eq (hlo : (2 : ℚ) ^ (-1022 : ℤ) ≤ |q|) (hhi : |q| ≤ 2 ^ 1023) :
    ∃ r, Binary64.round q = some r ∧ |r - q| ≤ |q| / 2 ^ 53 := by
  have hpos : 0 < |q| := lt_of_lt_of_le (by positivity) hlo
  have hulp : (0 : ℚ) < 2 ^ lastPlace q := by positivity
  have herror : |(roundHalfEven (q / 2 ^ lastPlace q) : ℚ) * 2 ^ lastPlace q - q| ≤ |q| / 2 ^ 53 := by
    have hhalf := roundHalfEven_error (q / 2 ^ lastPlace q)
    have heq : (roundHalfEven (q / 2 ^ lastPlace q) : ℚ) * 2 ^ lastPlace q - q =
        ((roundHalfEven (q / 2 ^ lastPlace q) : ℚ) - q / 2 ^ lastPlace q) * 2 ^ lastPlace q := by
      field_simp
    rw [heq, abs_mul, abs_of_pos hulp]
    refine le_trans (mul_le_mul_of_nonneg_right hhalf hulp.le) ?_
    have := last_place hlo
    linarith
  refine ⟨_, ?_, herror⟩
  have hsmall : |q| / 2 ^ 53 ≤ |q| / 2 := by gcongr; norm_num
  have htriangle := abs_sub_abs_le_abs_sub
    ((roundHalfEven (q / 2 ^ lastPlace q) : ℚ) * 2 ^ lastPlace q) q
  unfold Binary64.round
  dsimp only
  rw [if_neg]
  rintro (hbig | ⟨hzero, -⟩)
  · have hdouble : (2 : ℚ) ^ 1024 = 2 * 2 ^ 1023 := pow_succ' 2 1023
    have hpow : (0 : ℚ) < 2 ^ 1023 := by positivity
    rw [hdouble] at hbig
    generalize (2 : ℚ) ^ 1023 = p at hbig hhi hpow
    linarith
  · rw [hzero, zero_sub, abs_neg] at herror
    linarith

/-! ### Integers -/

theorem roundHalfEven_intCast (k : ℤ) : roundHalfEven (k : ℚ) = k := by
  unfold roundHalfEven
  simp

/-- A multiple of the last place is a double. -/
theorem round_multiple {k : ℤ} (hk : q / 2 ^ lastPlace q = k) (hbig : |q| < 2 ^ 1024) :
    Binary64.round q = some q := by
  have hulp : (2 : ℚ) ^ lastPlace q ≠ 0 := by positivity
  have hq : (k : ℚ) * 2 ^ lastPlace q = q := by
    rw [← hk]
    field_simp
  unfold Binary64.round
  dsimp only
  rw [hk, roundHalfEven_intCast, hq, if_neg]
  rintro (hle | ⟨h0, hne⟩)
  · exact absurd hbig (not_lt.2 hle)
  · exact hne h0

theorem lastPlace_int {z : ℤ} (hz : |z| ≤ 2 ^ 53) :
    lastPlace z ≤ 0 ∨ lastPlace z = 1 ∧ |z| = 2 ^ 53 := by
  by_cases h0 : z = 0
  · left
    subst h0
    decide +kernel
  · have hpos : (0 : ℚ) < |(z : ℚ)| := by positivity
    unfold lastPlace
    by_cases hlt : |z| < 2 ^ 53
    · have hlog : Int.log 2 |(z : ℚ)| < 53 := by
        rw [← Int.lt_zpow_iff_log_lt (by decide) hpos]
        exact_mod_cast hlt
      left
      omega
    · have heq : |z| = 2 ^ 53 := le_antisymm hz (not_lt.1 hlt)
      have hlog : Int.log 2 |(z : ℚ)| = 53 := by
        have hcast : |(z : ℚ)| = ((2 : ℕ) : ℚ) ^ (53 : ℤ) := by
          rw [← Int.cast_abs, heq]
          norm_num
        rw [hcast, Int.log_zpow (by decide)]
      exact .inr ⟨by omega, heq⟩

/-- **The integers up to `2 ^ 53` are doubles.** -/
theorem round_int {z : ℤ} (hz : |z| ≤ 2 ^ 53) : Binary64.round z = some (z : ℚ) := by
  have hbig : |(z : ℚ)| < 2 ^ 1024 := by
    have hle : |(z : ℚ)| ≤ 2 ^ 53 := by exact_mod_cast hz
    exact lt_of_le_of_lt hle (pow_lt_pow_right₀ (by norm_num) (by norm_num))
  rcases lastPlace_int hz with hplace | ⟨hplace, heq⟩
  · obtain ⟨j, hj⟩ := Int.exists_eq_neg_ofNat hplace
    refine round_multiple (k := z * 2 ^ j) ?_ hbig
    rw [hj, zpow_neg, zpow_natCast]
    push_cast
    field_simp
  · have heven : ∃ k : ℤ, z = 2 * k := by
      rcases abs_eq (by norm_num : (0 : ℤ) ≤ 2 ^ 53) |>.1 heq with h | h
      · exact ⟨2 ^ 52, by rw [h]; norm_num⟩
      · exact ⟨-2 ^ 52, by rw [h]; norm_num⟩
    obtain ⟨k, hk⟩ := heven
    refine round_multiple (k := k) ?_ hbig
    rw [hplace, hk]
    push_cast
    field_simp

/-- The double nearest to `q`: 0 or an infinity where `round` has none. -/
def nearest (q : ℚ) : Double :=
  match Binary64.round q with
  | some r => .finite r
  | none => if |q| < 1 then .finite 0 else .infinite (decide (q < 0))

theorem nearest_eq (hlo : (2 : ℚ) ^ (-1022 : ℤ) ≤ |q|) (hhi : |q| ≤ 2 ^ 1023) :
    ∃ r, nearest q = .finite r ∧ |r - q| ≤ |q| / 2 ^ 53 := by
  obtain ⟨r, hr, herror⟩ := round_eq hlo hhi
  refine ⟨r, ?_, herror⟩
  unfold nearest
  rw [hr]

/-- A quotient of no extreme size. -/
theorem nearest_moderate (hlo : 1 / 8192 ≤ q) (hhi : q ≤ 2 ^ 32) :
    ∃ r, nearest q = .finite r ∧ |r - q| ≤ q / 2 ^ 53 := by
  have habs : |q| = q := abs_of_nonneg (by linarith)
  have hsmall : (2 : ℚ) ^ (-1022 : ℤ) ≤ 2 ^ (-13 : ℤ) := zpow_le_zpow_right₀ (by norm_num) (by norm_num)
  have hthirteen : (2 : ℚ) ^ (-13 : ℤ) = 1 / 8192 := by norm_num
  have hlarge : (2 : ℚ) ^ 32 ≤ 2 ^ 1023 := pow_le_pow_right₀ (by norm_num) (by norm_num)
  have hnormal : (2 : ℚ) ^ (-1022 : ℤ) ≤ |q| := by
    rw [hthirteen] at hsmall
    rw [habs]
    exact hsmall.trans hlo
  have hfinite : |q| ≤ 2 ^ 1023 := by
    rw [habs]
    exact hhi.trans hlarge
  have h := nearest_eq hnormal hfinite
  rwa [habs] at h

/-! ### Rounding without overflow -/

/-- The nearest multiple of `2 ^ place`. -/
def roundAt (place : ℤ) (q : ℚ) : ℚ := roundHalfEven (q / 2 ^ place) * 2 ^ place

/-- The nearest double, for numbers below the overflow. -/
def rounded (q : ℚ) : ℚ := roundAt (lastPlace q) q

/-- The nearest float, for numbers below the overflow. -/
def rounded32 (q : ℚ) : ℚ := roundAt (max (Int.log 2 |q| - 23) (-149)) q

theorem roundAt_error (place : ℤ) (q : ℚ) : |roundAt place q - q| ≤ 2 ^ place / 2 := by
  have hulp : (0 : ℚ) < 2 ^ place := by positivity
  have heq : roundAt place q - q =
      ((roundHalfEven (q / 2 ^ place) : ℚ) - q / 2 ^ place) * 2 ^ place := by
    unfold roundAt
    field_simp
  have hhalf := mul_le_mul_of_nonneg_right (roundHalfEven_error (q / 2 ^ place)) hulp.le
  rw [heq, abs_mul, abs_of_pos hulp]
  linarith

/-- **The error of a rounding** to a last place that is `p` places behind the first one, or `m`. -/
theorem roundAt_error_le (q : ℚ) (p : ℕ) (m : ℤ) :
    |roundAt (max (Int.log 2 |q| - p) m) q - q| ≤ |q| / 2 ^ (p + 1) + 2 ^ m / 2 := by
  have hm : (0 : ℚ) < 2 ^ m := by positivity
  rcases eq_or_ne q 0 with rfl | hq
  · have hzero : roundHalfEven ((0 : ℤ) : ℚ) = 0 := roundHalfEven_intCast 0
    have hround : ∀ place, roundAt place 0 = 0 := by
      intro place
      rw [Int.cast_zero] at hzero
      rw [roundAt, zero_div, hzero, Int.cast_zero, zero_mul]
    rw [hround, sub_zero, abs_zero, zero_div, zero_add]
    positivity
  · refine (roundAt_error _ q).trans ?_
    have hpos : 0 < |q| := abs_pos.2 hq
    rcases max_choice (Int.log 2 |q| - (p : ℤ)) m with hplace | hplace
    · have hlog : (2 : ℚ) ^ Int.log 2 |q| ≤ |q| := by
        exact_mod_cast Int.zpow_log_le_self (b := 2) (by decide) hpos
      have hfirst : (2 : ℚ) ^ (Int.log 2 |q| - (p : ℤ)) / 2 ≤ |q| / 2 ^ (p + 1) := by
        rw [zpow_sub₀ (by norm_num), zpow_natCast, div_div, ← pow_succ]
        gcongr
      rw [hplace]
      linarith
    · have : 0 ≤ |q| / 2 ^ (p + 1) := by positivity
      rw [hplace]
      linarith

theorem rounded_error (q : ℚ) : |rounded q - q| ≤ |q| / 2 ^ 53 + 2 ^ (-1074 : ℤ) / 2 := by
  have h := roundAt_error_le q 52 (-1074)
  exact h

theorem rounded32_error (q : ℚ) : |rounded32 q - q| ≤ |q| / 2 ^ 24 + 2 ^ (-149 : ℤ) / 2 := by
  have h := roundAt_error_le q 23 (-149)
  exact h

theorem rounded_nonneg (h : 0 ≤ q) : 0 ≤ rounded q := by
  have hquot : 0 ≤ q / 2 ^ lastPlace q := by positivity
  have hfloor : 0 ≤ (q / 2 ^ lastPlace q).floor := Int.floor_nonneg.2 hquot
  have hround : 0 ≤ roundHalfEven (q / 2 ^ lastPlace q) := by
    unfold roundHalfEven
    dsimp only
    split_ifs <;> omega
  have hcast : (0 : ℚ) ≤ roundHalfEven (q / 2 ^ lastPlace q) := by exact_mod_cast hround
  unfold rounded roundAt
  positivity

/-! ### Numbers on a coarser grid -/

theorem le_roundHalfEven {k : ℤ} (h : k ≤ q) : k ≤ roundHalfEven q := by
  have herror := (abs_le.1 (roundHalfEven_error q)).1
  have hlt : ((k - 1 : ℤ) : ℚ) < roundHalfEven q := by
    push_cast
    linarith
  have : k - 1 < roundHalfEven q := by exact_mod_cast hlt
  omega

theorem roundHalfEven_le {k : ℤ} (h : q ≤ k) : roundHalfEven q ≤ k := by
  have herror := (abs_le.1 (roundHalfEven_error q)).2
  have hlt : (roundHalfEven q : ℚ) < (k + 1 : ℤ) := by
    push_cast
    linarith
  have : roundHalfEven q < k + 1 := by exact_mod_cast hlt
  omega

/-- A multiple of a power of two is one of each lower power. -/
theorem grid_eq {place m : ℤ} (hm : place ≤ m) (k : ℤ) :
    (k : ℚ) * 2 ^ m = (k * 2 ^ (m - place).toNat : ℤ) * 2 ^ place := by
  have hsplit : m = (m - place).toNat + place := by omega
  push_cast
  rw [mul_assoc, ← zpow_natCast, ← zpow_add₀ (by norm_num), ← hsplit]

/-- **Rounding does not pass a number on a coarser grid.** -/
theorem le_roundAt {place m k : ℤ} (hm : place ≤ m) (h : k * 2 ^ m ≤ q) : k * 2 ^ m ≤ roundAt place q := by
  have hulp : (0 : ℚ) < 2 ^ place := by positivity
  rw [grid_eq hm] at h ⊢
  unfold roundAt
  gcongr
  exact le_roundHalfEven ((le_div_iff₀ hulp).2 h)

theorem roundAt_le {place m k : ℤ} (hm : place ≤ m) (h : q ≤ k * 2 ^ m) : roundAt place q ≤ k * 2 ^ m := by
  have hulp : (0 : ℚ) < 2 ^ place := by positivity
  rw [grid_eq hm] at h ⊢
  unfold roundAt
  gcongr
  exact roundHalfEven_le ((div_le_iff₀ hulp).2 h)

/-- Below `2 ^ 52` the last place is behind the point. -/
theorem lastPlace_neg (h : |q| < 2 ^ 52) : lastPlace q ≤ -1 := by
  unfold lastPlace
  rcases eq_or_ne q 0 with rfl | hq
  · rw [abs_zero, Int.log_zero_right]
    omega
  · have hlog : Int.log 2 |q| < 52 := by
      rw [← Int.lt_zpow_iff_log_lt (by decide) (abs_pos.2 hq)]
      exact_mod_cast h
    omega

theorem half_le_rounded {k : ℤ} (hsmall : |q| < 2 ^ 52) (h : (k : ℚ) / 2 ≤ q) : (k : ℚ) / 2 ≤ rounded q := by
  have hhalf : (k : ℚ) / 2 = k * 2 ^ (-1 : ℤ) := by norm_num [div_eq_mul_inv]
  rw [hhalf] at h ⊢
  exact le_roundAt (lastPlace_neg hsmall) h

theorem rounded_le_half {k : ℤ} (hsmall : |q| < 2 ^ 52) (h : q ≤ (k : ℚ) / 2) : rounded q ≤ (k : ℚ) / 2 := by
  have hhalf : (k : ℚ) / 2 = k * 2 ^ (-1 : ℤ) := by norm_num [div_eq_mul_inv]
  rw [hhalf] at h ⊢
  exact roundAt_le (lastPlace_neg hsmall) h

/-! ### Simpler bounds -/

/-- The error, with a bound for the underflow that is easier to handle. -/
theorem rounded_error_le (q : ℚ) : |rounded q - q| ≤ |q| / 2 ^ 53 + 1 / 2 ^ 64 := by
  have hunder : (2 : ℚ) ^ (-1074 : ℤ) ≤ 2 ^ (-64 : ℤ) := zpow_le_zpow_right₀ (by norm_num) (by norm_num)
  have hpow : (2 : ℚ) ^ (-64 : ℤ) = 1 / 2 ^ 64 := by norm_num
  have hnonneg : (0 : ℚ) ≤ 2 ^ (-1074 : ℤ) := by positivity
  refine (rounded_error q).trans ?_
  rw [hpow] at hunder
  generalize (2 : ℚ) ^ (-1074 : ℤ) = tiny at hunder hnonneg
  linarith

theorem rounded32_error_le (q : ℚ) : |rounded32 q - q| ≤ |q| / 2 ^ 24 + 1 / 2 ^ 64 := by
  have hunder : (2 : ℚ) ^ (-149 : ℤ) ≤ 2 ^ (-64 : ℤ) := zpow_le_zpow_right₀ (by norm_num) (by norm_num)
  have hpow : (2 : ℚ) ^ (-64 : ℤ) = 1 / 2 ^ 64 := by norm_num
  have hnonneg : (0 : ℚ) ≤ 2 ^ (-149 : ℤ) := by positivity
  refine (rounded32_error q).trans ?_
  rw [hpow] at hunder
  generalize (2 : ℚ) ^ (-149 : ℤ) = tiny at hunder hnonneg
  linarith

/-- **It is the double that `nearest` gives** for every number of no extreme size. -/
theorem nearest_rounded (h : |q| ≤ 2 ^ 32) : nearest q = .finite (rounded q) := by
  have herror := rounded_error_le q
  have htriangle := abs_sub_abs_le_abs_sub (rounded q) q
  have hbig : |rounded q| < 2 ^ 1024 := by
    have hpow : (2 : ℚ) ^ 33 ≤ 2 ^ 1024 := pow_le_pow_right₀ (by norm_num) (by norm_num)
    refine lt_of_lt_of_le ?_ hpow
    norm_num at h herror ⊢
    linarith
  unfold nearest Binary64.round
  dsimp only
  change (match if 2 ^ 1024 ≤ |rounded q| ∨ rounded q = 0 ∧ q ≠ 0 then none else some (rounded q) with
    | some r => Double.finite r
    | none => if |q| < 1 then Double.finite 0 else Double.infinite (decide (q < 0))) = _
  by_cases hzero : rounded q = 0 ∧ q ≠ 0
  · have hsmall : |q| < 1 := by
      rw [hzero.1, zero_sub, abs_neg] at herror
      norm_num at herror
      linarith
    rw [if_pos (.inr hzero)]
    dsimp only
    rw [if_pos hsmall, hzero.1]
  · rw [if_neg (not_or.2 ⟨not_le.2 hbig, hzero⟩)]

end OpenDisplay.Lib.Rounding
