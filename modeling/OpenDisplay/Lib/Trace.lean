import Mathlib.Data.List.Basic
import Mathlib.Tactic.Common

/-!
# Traces of events

A trace lists the events of a run with the newest first, so that the tail of a trace is its past.
`Each P tr` says that every event of `tr` stands in the relation `P` to its own past; it is kept by
a program that checks `P` once for each event it adds.  `Since P Q tr` says that some event of `tr`
satisfies `P` and that no newer one satisfies `Q`.
-/

namespace OpenDisplay.Lib.Trace

variable {ε : Type*} {P : ε → List ε → Prop} {e : ε} {tr : List ε}

/-- Every event stands in the relation `P` to its past. -/
def Each (P : ε → List ε → Prop) : List ε → Prop
  | [] => True
  | e :: past => P e past ∧ Each P past

theorem Each.at : ∀ {tr : List ε} (later : List ε) {past : List ε}, Each P tr →
    tr = later ++ e :: past → P e past
  | _, [], _, h, rfl => h.1
  | _, _ :: later, _, h, rfl => Each.at later h.2 rfl

/-- An event with `P` is in the trace and no newer one has `Q`. -/
def Since (P Q : ε → Prop) : List ε → Prop
  | [] => False
  | e :: past => P e ∨ ¬Q e ∧ Since P Q past

variable {P Q : ε → Prop}

theorem Since.start (h : P e) : Since P Q (e :: tr) := .inl h

theorem Since.keep (hq : ¬Q e) (h : Since P Q tr) : Since P Q (e :: tr) := .inr ⟨hq, h⟩

theorem Since.exists_mem : ∀ {tr : List ε}, Since P Q tr → ∃ e ∈ tr, P e
  | e :: _, h => by
    rcases h with h | ⟨-, h⟩
    · exact ⟨e, by simp, h⟩
    · obtain ⟨x, hx, hpx⟩ := Since.exists_mem h
      exact ⟨x, List.mem_cons_of_mem _ hx, hpx⟩

theorem Since.after : ∀ {tr : List ε} (mid : List ε) {past : List ε}, Since P Q tr → Q e → ¬P e →
    tr = mid ++ e :: past → ∃ e' ∈ mid, P e'
  | _, [], _, h, hq, hp, rfl => by
    rcases h with h | ⟨h, -⟩
    · exact absurd h hp
    · exact absurd hq h
  | _, e' :: mid, _, h, hq, hp, rfl => by
    rcases h with h | ⟨-, h⟩
    · exact ⟨e', by simp, h⟩
    · obtain ⟨x, hx, hpx⟩ := Since.after mid h hq hp rfl
      exact ⟨x, List.mem_cons_of_mem _ hx, hpx⟩

end OpenDisplay.Lib.Trace
