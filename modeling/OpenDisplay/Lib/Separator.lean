import Mathlib.Data.List.Infix
import Mathlib.Tactic.Ring

/-! # Lists cut at a separator

For a separator `sep`, `pieces sep l` cuts the list `l` at the occurrences of `sep`: the cells before
the first one, and the runs behind each of them. `weave sep ps` writes the runs back, `sep` before
each.

A separator is *border free* if no proper end of it is also a start of it: then two occurrences never
overlap, and an occurrence in `weave sep ps` never straddles a seam. So cutting undoes weaving
(`pieces_weave`), every list is the weave of its pieces (`pieces_join`), and there is only one way to
write a list so (`weave_injective`). -/

namespace OpenDisplay.Lib.Separator

variable {α : Type*}

/-- No proper end of `sep` is a start of it. -/
def BorderFree (sep : List α) : Prop :=
  sep ≠ [] ∧ ∀ k < sep.length, 0 < k → ¬ sep.drop k <+: sep

/-- `sep` does not occur in `l`. -/
def Free (sep l : List α) : Prop := ¬ sep <:+: l

/-- The runs `ps`, each behind a separator. -/
def weave (sep : List α) (ps : List (List α)) : List α := ps.flatMap (sep ++ ·)

@[simp] theorem weave_nil (sep : List α) : weave sep [] = [] := rfl

@[simp] theorem weave_cons (sep p : List α) (ps : List (List α)) :
    weave sep (p :: ps) = sep ++ p ++ weave sep ps := rfl

theorem weave_append (sep : List α) (ps qs : List (List α)) :
    weave sep (ps ++ qs) = weave sep ps ++ weave sep qs := List.flatMap_append

theorem Free.tail {sep : List α} {x : α} {l : List α} (h : Free sep (x :: l)) : Free sep l :=
  fun hi => h (hi.trans (List.suffix_cons x l).isInfix)

/-! ### Seams -/

section seams

variable {sep : List α} (hs : BorderFree sep)
include hs

theorem BorderFree.free_nil : Free sep ([] : List α) := fun h => hs.1 (List.infix_nil.mp h)

/-- **No occurrence at a seam.**  A separator cannot start inside a run and end in the separator
behind it. -/
theorem not_prefix_append_sep {p : List α} (hp : Free sep p) (hne : p ≠ []) (l : List α) :
    ¬ sep <+: p ++ (sep ++ l) := by
  intro h
  rcases Nat.lt_or_ge p.length sep.length with hlt | hge
  · -- the end of `sep` behind `p` would be a start of the next separator
    obtain ⟨t, ht⟩ : p <+: sep :=
      List.prefix_of_prefix_length_le (List.prefix_append p (sep ++ l)) h hlt.le
    have hd : sep.drop p.length = t := by rw [← ht, List.drop_left]
    have h' : t <+: sep ++ l := by
      rw [← ht, List.prefix_append_right_inj] at h
      rwa [ht] at h
    have hpos : 0 < p.length := List.length_pos_of_ne_nil hne
    refine hs.2 p.length hlt hpos ?_
    rw [hd]
    refine List.prefix_of_prefix_length_le h' (List.prefix_append sep l) ?_
    rw [← hd, List.length_drop]
    omega
  · exact hp (List.prefix_of_prefix_length_le h (List.prefix_append p (sep ++ l)) hge).isInfix

/-- A run followed by a weave: the separator is not at its start. -/
theorem not_prefix_append_weave {x : α} {p : List α} (hp : Free sep (x :: p))
    (ps : List (List α)) : ¬ sep <+: (x :: p) ++ weave sep ps := by
  cases ps with
  | nil =>
    rw [weave_nil, List.append_nil]
    exact fun h => hp h.isInfix
  | cons q ps =>
    rw [weave_cons, List.append_assoc]
    exact not_prefix_append_sep hs hp (List.cons_ne_nil x p) _

end seams

/-! ### Cutting -/

section cutting

variable [DecidableEq α]

instance (sep : List α) : Decidable (BorderFree sep) := by unfold BorderFree; infer_instance

instance (sep l : List α) : Decidable (Free sep l) := by unfold Free; infer_instance

/-- The cells before the first separator, and the runs behind each separator. -/
def pieces (sep : List α) : List α → List α × List (List α)
  | [] => ([], [])
  | x :: l =>
    if sep.isPrefixOf (x :: l) then
      let r := pieces sep (l.drop (sep.length - 1))
      ([], r.1 :: r.2)
    else
      let r := pieces sep l
      (x :: r.1, r.2)
termination_by l => l.length
decreasing_by all_goals simp; try omega

variable {sep : List α} (hs : BorderFree sep)
include hs

/-- **Cutting undoes weaving.** -/
theorem pieces_weave : ∀ (ps : List (List α)) (pre : List α), Free sep pre →
    (∀ p ∈ ps, Free sep p) → pieces sep (pre ++ weave sep ps) = (pre, ps)
  | [], [], _, _ => by rw [weave_nil, List.append_nil, pieces]
  | p :: ps, [], _, hps => by
    obtain ⟨y, s, hy⟩ := List.exists_cons_of_ne_nil hs.1
    have ih := pieces_weave ps p (hps p (by simp)) (fun q hq => hps q (by simp [hq]))
    have hcons : [] ++ weave sep (p :: ps) = y :: (s ++ (p ++ weave sep ps)) := by
      rw [weave_cons, hy]; simp
    have hpre : sep.isPrefixOf (y :: (s ++ (p ++ weave sep ps))) = true := by
      rw [List.isPrefixOf_iff_prefix, hy, ← List.cons_append]
      exact List.prefix_append _ _
    have hdrop : (s ++ (p ++ weave sep ps)).drop (sep.length - 1) = p ++ weave sep ps := by
      rw [hy, List.length_cons, Nat.add_sub_cancel, List.drop_left]
    rw [hcons, pieces, if_pos hpre]
    simp only [hdrop, ih]
  | ps, x :: pre, hpre, hps => by
    have ih := pieces_weave ps pre hpre.tail hps
    have hno : ¬ sep.isPrefixOf (x :: (pre ++ weave sep ps)) = true := by
      rw [List.isPrefixOf_iff_prefix, ← List.cons_append]
      exact not_prefix_append_weave hs hpre ps
    rw [List.cons_append, pieces, if_neg hno]
    simp only [ih]
termination_by ps pre => (ps.length, pre.length)

/-- **There is one way to write a list as a weave.** -/
theorem weave_injective {ps qs : List (List α)} (hps : ∀ p ∈ ps, Free sep p)
    (hqs : ∀ q ∈ qs, Free sep q) (h : weave sep ps = weave sep qs) : ps = qs := by
  have h1 := pieces_weave hs ps [] hs.free_nil hps
  have h2 := pieces_weave hs qs [] hs.free_nil hqs
  rw [List.nil_append] at h1 h2
  rw [h, h2] at h1
  exact (Prod.mk.inj h1).2.symm

/-- **Every list is the weave of its pieces**, and none of them contains the separator. -/
theorem pieces_spec (l : List α) :
    l = (pieces sep l).1 ++ weave sep (pieces sep l).2 ∧ Free sep (pieces sep l).1 ∧
      ∀ p ∈ (pieces sep l).2, Free sep p := by
  fun_induction pieces sep l with
  | case1 => exact ⟨rfl, hs.free_nil, by simp⟩
  | case2 x l hpre r ih =>
    obtain ⟨h1, h2, h3⟩ := ih
    obtain ⟨t, ht⟩ := List.isPrefixOf_iff_prefix.mp hpre
    obtain ⟨y, s, hy⟩ := List.exists_cons_of_ne_nil hs.1
    have hl : l.drop (sep.length - 1) = t := by
      rw [hy, List.cons_append] at ht
      rw [← (List.cons.inj ht).2, hy, List.length_cons, Nat.add_sub_cancel, List.drop_left]
    refine ⟨?_, hs.free_nil, ?_⟩
    · rw [List.nil_append, weave_cons, List.append_assoc, ← ht]
      exact congrArg (sep ++ ·) (hl.symm.trans h1)
    · intro p hp
      rcases List.mem_cons.mp hp with rfl | hp
      · exact h2
      · exact h3 p hp
  | case3 x l hpre r ih =>
    obtain ⟨h1, h2, h3⟩ := ih
    refine ⟨congrArg (x :: ·) h1, ?_, h3⟩
    intro hocc
    rcases List.infix_cons_iff.mp hocc with h | h
    · refine hpre (List.isPrefixOf_iff_prefix.mpr (h.trans ?_))
      rw [h1]
      exact List.prefix_append (x :: r.1) (weave sep r.2)
    · exact h2 h

end cutting

end OpenDisplay.Lib.Separator
