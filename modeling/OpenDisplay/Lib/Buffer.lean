import Mathlib.Data.List.Basic
import Mathlib.Tactic.Ring

/-! # Buffers: slices and writes

A buffer is a list of cells. `slice l off len` is the window of `len` cells from `off` on, and
`write l off xs` is the buffer after `xs` has been copied over it at `off`, the cells outside the
window unchanged. A move inside one buffer is a write of one of its own slices, so overlapping moves
need no special case: the cells are read before they are written.

The rules say what a window shows after a write: the written cells (`slice_write_self`), the old
cells followed by the written ones (`slice_write_append`), or, cell by cell, a mixture of the two
(`getElem?_write`). -/

namespace OpenDisplay.Lib.Buffer

variable {α : Type*}

/-- The `len` cells from the index `off` on. -/
def slice (l : List α) (off len : ℕ) : List α := (l.drop off).take len

/-- The buffer after `xs` has been copied over it at the index `off`. -/
def write (l : List α) (off : ℕ) (xs : List α) : List α :=
  l.take off ++ xs ++ l.drop (off + xs.length)

/-- The buffer brought to the length `n`, new cells holding `d`. -/
def resize (l : List α) (n : ℕ) (d : α) : List α := l.take n ++ List.replicate (n - l.length) d

/-! ### Slices -/

theorem length_slice {l : List α} {off len : ℕ} (h : off + len ≤ l.length) :
    (slice l off len).length = len := by
  simp only [slice, List.length_take, List.length_drop]
  omega

theorem getElem?_slice (l : List α) (off len k : ℕ) :
    (slice l off len)[k]? = if k < len then l[off + k]? else none := by
  simp [slice, List.getElem?_take]

@[simp] theorem slice_zero (l : List α) (off : ℕ) : slice l off 0 = [] := by simp [slice]

theorem slice_append_left {l : List α} (l' : List α) {off len : ℕ} (h : off + len ≤ l.length) :
    slice (l ++ l') off len = slice l off len := by
  unfold slice
  rw [List.drop_append_of_le_length (by omega), List.take_append_of_le_length (by simp; omega)]

theorem slice_slice (l : List α) {off len a b : ℕ} (h : a + b ≤ len) :
    slice (slice l off len) a b = slice l (off + a) b := by
  unfold slice
  rw [List.drop_take, List.drop_drop, List.take_take, min_eq_left (by omega)]

theorem slice_drop (l : List α) (a off len : ℕ) :
    slice (l.drop a) off len = slice l (a + off) len := by
  unfold slice; rw [List.drop_drop]

theorem drop_slice (l : List α) (off len a : ℕ) :
    (slice l off len).drop a = slice l (off + a) (len - a) := by
  unfold slice; rw [List.drop_take, List.drop_drop]

/-! ### Writes -/

theorem length_write {l xs : List α} {off : ℕ} (h : off + xs.length ≤ l.length) :
    (write l off xs).length = l.length := by
  simp only [write, List.length_append, List.length_take, List.length_drop]
  omega

theorem getElem?_write {l xs : List α} {off : ℕ} (h : off ≤ l.length) (k : ℕ) :
    (write l off xs)[k]? =
      if k < off then l[k]? else if k < off + xs.length then xs[k - off]? else l[k]? := by
  have hlen : (l.take off).length = off := by rw [List.length_take]; omega
  unfold write
  by_cases h1 : k < off
  · rw [if_pos h1, List.append_assoc, List.getElem?_append_left (by omega),
      List.getElem?_take, if_pos h1]
  · rw [if_neg h1]
    by_cases h2 : k < off + xs.length
    · rw [if_pos h2, List.getElem?_append_left (by rw [List.length_append]; omega),
        List.getElem?_append_right (by omega), hlen]
    · rw [if_neg h2, List.getElem?_append_right (by rw [List.length_append]; omega),
        List.length_append, hlen, List.getElem?_drop]
      congr 1
      omega

theorem slice_write_self {l xs : List α} {off : ℕ} (h : off ≤ l.length) :
    slice (write l off xs) off xs.length = xs := by
  have hlen : (l.take off).length = off := by rw [List.length_take]; omega
  unfold slice write
  rw [List.append_assoc, List.drop_append, hlen, List.drop_of_length_le (by omega), Nat.sub_self,
    List.drop_zero, List.nil_append, List.take_left]

/-- A window that ends where the write starts, together with the written cells. -/
theorem slice_write_append {l xs : List α} {a off : ℕ} (ha : a ≤ off) (h : off ≤ l.length) :
    slice (write l off xs) a (off - a + xs.length) = slice l a (off - a) ++ xs := by
  have hlen : (l.take off).length = off := by rw [List.length_take]; omega
  unfold slice write
  rw [List.append_assoc, List.drop_append_of_le_length (by omega), ← List.append_assoc,
    List.take_append_of_le_length (by simp; omega), List.take_of_length_le (by simp; omega),
    List.drop_take]

/-! ### Resizing -/

@[simp] theorem length_resize (l : List α) (n : ℕ) (d : α) : (resize l n d).length = n := by
  simp only [resize, List.length_append, List.length_take, List.length_replicate]
  omega

theorem slice_resize {l : List α} {n off len : ℕ} (d : α) (hn : l.length ≤ n)
    (h : off + len ≤ l.length) : slice (resize l n d) off len = slice l off len := by
  unfold resize
  rw [List.take_of_length_le hn, slice_append_left _ h]

end OpenDisplay.Lib.Buffer
