import OpenDisplay.Lib.Buffer

/-!
# Copies of rows between buffers

`memcpy` copies a window of one buffer over another and is `none` where either window leaves its
buffer, which is undefined behaviour.  `copyRows` copies `n` rows of `w` cells that lie one behind
the other to rows that start `pitch` cells apart.

`copyRows_spec` is the rule: where the rows fit, the copy goes through, each row is where it belongs,
and every cell outside the rows is unchanged.
-/

namespace OpenDisplay.Lib.Rows

open OpenDisplay.Lib.Buffer

variable {α : Type*}

/-- `len` cells of `src` from `srcOff` on are copied over `dst` at `dstOff`. -/
def memcpy (dst : List α) (dstOff : ℕ) (src : List α) (srcOff len : ℕ) : Option (List α) :=
  if dstOff + len ≤ dst.length ∧ srcOff + len ≤ src.length then
    some (write dst dstOff (slice src srcOff len))
  else none

/-- The rows `0` to `n - 1`, in this order. -/
def copyRows (src : List α) (srcOff w pitch dstOff : ℕ) : ℕ → List α → Option (List α)
  | 0, dst => some dst
  | n + 1, dst =>
    (copyRows src srcOff w pitch dstOff n dst).bind fun dst =>
      memcpy dst (dstOff + n * pitch) src (srcOff + n * w) w

variable {src dst dst' : List α} {srcOff w pitch dstOff n : ℕ}

theorem memcpy_spec {off len : ℕ} (hdst : dstOff + len ≤ dst.length)
    (hsrc : off + len ≤ src.length) :
    ∃ dst', memcpy dst dstOff src off len = some dst' ∧ dst'.length = dst.length ∧
      ∀ k, dst'[k]? =
        if dstOff ≤ k ∧ k < dstOff + len then src[off + (k - dstOff)]? else dst[k]? := by
  have hlen := length_slice hsrc
  refine ⟨write dst dstOff (slice src off len), if_pos ⟨hdst, hsrc⟩, ?_, ?_⟩
  · exact length_write (by omega)
  · intro k
    rw [getElem?_write (by omega), hlen]
    by_cases hlo : k < dstOff
    · rw [if_pos hlo, if_neg (by omega)]
    · rw [if_neg hlo]
      by_cases hhi : k < dstOff + len
      · rw [if_pos hhi, if_pos ⟨by omega, hhi⟩, getElem?_slice, if_pos (by omega)]
      · rw [if_neg hhi, if_neg (by omega)]

/-- The first `n` rows of `src` are in `dst'`, and nothing else has changed. -/
structure Copied (src : List α) (srcOff w pitch dstOff n : ℕ) (dst dst' : List α) : Prop where
  length : dst'.length = dst.length
  row : ∀ r < n, ∀ c < w, dst'[dstOff + r * pitch + c]? = src[srcOff + r * w + c]?
  frame : ∀ k, (∀ r < n, k < dstOff + r * pitch ∨ dstOff + r * pitch + w ≤ k) → dst'[k]? = dst[k]?

/-- Rows that start `pitch` apart do not meet. -/
theorem row_disjoint {r r' c : ℕ} (hw : w ≤ pitch) (hr : r < r') (hc : c < w) :
    dstOff + r * pitch + c < dstOff + r' * pitch := by
  have hstep : (r + 1) * pitch ≤ r' * pitch := Nat.mul_le_mul_right pitch hr
  rw [Nat.add_mul, Nat.one_mul] at hstep
  omega

theorem Copied.succ (hw : w ≤ pitch) (h : Copied src srcOff w pitch dstOff n dst dst')
    (hdst : dstOff + n * pitch + w ≤ dst.length) (hsrc : srcOff + n * w + w ≤ src.length) :
    ∃ dst'', memcpy dst' (dstOff + n * pitch) src (srcOff + n * w) w = some dst'' ∧
      Copied src srcOff w pitch dstOff (n + 1) dst dst'' := by
  have hfits : dstOff + n * pitch + w ≤ dst'.length := by
    rw [h.length]
    exact hdst
  obtain ⟨dst'', hcopy, hlen, hcell⟩ := memcpy_spec hfits hsrc
  refine ⟨dst'', hcopy, hlen.trans h.length, ?_, ?_⟩
  · intro r hr c hc
    rw [hcell]
    rcases Nat.lt_succ_iff_lt_or_eq.1 hr with hlt | rfl
    · have : dstOff + r * pitch + c < dstOff + n * pitch := row_disjoint hw hlt hc
      rw [if_neg (by omega), h.row r hlt c hc]
    · rw [if_pos ⟨by omega, by omega⟩]
      congr 1
      omega
  · intro k hk
    have hlast := hk n (Nat.lt_succ_self n)
    rw [hcell, if_neg (by omega)]
    exact h.frame k fun r hr => hk r (Nat.lt_succ_of_lt hr)

/-- **The copy of rows that fit.** -/
theorem copyRows_spec (hw : w ≤ pitch) (hdst : dstOff + n * pitch ≤ dst.length)
    (hsrc : srcOff + n * w ≤ src.length) :
    ∃ dst', copyRows src srcOff w pitch dstOff n dst = some dst' ∧
      Copied src srcOff w pitch dstOff n dst dst' := by
  induction n with
  | zero => exact ⟨dst, rfl, rfl, by simp, fun k _ => rfl⟩
  | succ n ih =>
    rw [Nat.add_mul, Nat.one_mul] at hdst hsrc
    obtain ⟨mid, hmid, hcopied⟩ := ih (by omega) (by omega)
    obtain ⟨dst', hcopy, hnext⟩ := hcopied.succ hw (by omega) (by omega)
    refine ⟨dst', ?_, hnext⟩
    unfold copyRows
    rw [hmid]
    exact hcopy

end OpenDisplay.Lib.Rows
