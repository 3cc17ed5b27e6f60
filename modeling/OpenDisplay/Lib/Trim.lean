import OpenDisplay.Lib.Text
import Mathlib.Data.List.DropRight

/-! # Trimming

`trim p l` is `l` without the cells at its ends that have `p`. Cells with `p` at the ends of a list do
not change how it is trimmed, and a cell without `p` keeps the two ends apart (`trim_append_cons`). -/

namespace OpenDisplay.Lib.Trim

open OpenDisplay.Lib.Text

variable {α : Type*} {p : α → Bool}

def trim (p : α → Bool) (l : List α) : List α := (l.dropWhile p).rdropWhile p

theorem dropWhile_eq_nil_of_forall {l : List α} (h : ∀ x ∈ l, p x = true) : l.dropWhile p = [] :=
  List.dropWhile_eq_nil_iff.2 h

theorem rdropWhile_eq_nil_of_forall {l : List α} (h : ∀ x ∈ l, p x = true) : l.rdropWhile p = [] :=
  List.rdropWhile_eq_nil_iff.2 h

theorem rdropWhile_append_of_forall {l b : List α} (hb : ∀ x ∈ b, p x = true) :
    (l ++ b).rdropWhile p = l.rdropWhile p := by
  have hrev : ∀ x ∈ b.reverse, p x = true := fun x hx => hb x (List.mem_reverse.1 hx)
  rw [List.rdropWhile, List.reverse_append, List.dropWhile_append_of_pos hrev, List.rdropWhile]

/-- **Cells to trim, in front.** -/
theorem trim_append_left {a : List α} (ha : ∀ x ∈ a, p x = true) (l : List α) :
    trim p (a ++ l) = trim p l := by
  rw [trim, List.dropWhile_append_of_pos ha, trim]

/-- **Cells to trim, behind.** -/
theorem trim_append_right (l : List α) {b : List α} (hb : ∀ x ∈ b, p x = true) :
    trim p (l ++ b) = trim p l := by
  rw [trim, List.dropWhile_append, trim]
  split
  case isTrue hl =>
    rw [dropWhile_eq_nil_of_forall hb, List.isEmpty_iff.1 hl]
  case isFalse => exact rdropWhile_append_of_forall hb

theorem trim_dropWhile (l : List α) : trim p (l.dropWhile p) = trim p l := by
  conv_rhs => rw [← List.takeWhile_append_dropWhile (p := p) (l := l)]
  exact (trim_append_left (fun x hx => List.mem_takeWhile_imp hx) _).symm

theorem trim_rdropWhile (l : List α) : trim p (l.rdropWhile p) = trim p l := by
  have hsplit : l = l.rdropWhile p ++ (l.reverse.takeWhile p).reverse := by
    rw [List.rdropWhile, ← List.reverse_append, List.takeWhile_append_dropWhile,
      List.reverse_reverse]
  conv_rhs => rw [hsplit]
  exact (trim_append_right _ fun x hx => List.mem_takeWhile_imp (List.mem_reverse.1 hx)).symm

theorem dropWhile_append_cons {c : α} (hc : p c = false) (x y : List α) :
    (x ++ c :: y).dropWhile p = x.dropWhile p ++ c :: y :=
  dropWhile_append_of_head x (by simpa using hc)

theorem rdropWhile_append_cons {c : α} (hc : p c = false) (x y : List α) :
    (x ++ c :: y).rdropWhile p = x ++ c :: y.rdropWhile p := by
  have hrev : (x ++ c :: y).reverse = y.reverse ++ c :: x.reverse := by simp
  rw [List.rdropWhile, hrev, dropWhile_append_cons hc, List.rdropWhile]
  simp

/-- **A cell that stays keeps the ends apart.** -/
theorem trim_append_cons {c : α} (hc : p c = false) (x y : List α) :
    trim p (x ++ c :: y) = x.dropWhile p ++ c :: y.rdropWhile p := by
  rw [trim, dropWhile_append_cons hc, rdropWhile_append_cons hc]

end OpenDisplay.Lib.Trim
