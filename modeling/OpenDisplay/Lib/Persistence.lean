import Mathlib.Tactic.Common

/-! # Failing computations on related states

`Persists R m` says that where `m` returns from a state, it returns the same from each state that `R`
puts above that one, and ends in states so related. It is proved along the program. -/

namespace OpenDisplay.Lib.Persistence

variable {σ α β : Type} {R : σ → σ → Prop}

/-- **What `m` returns, it returns from every state above.** -/
def Persists (R : σ → σ → Prop) (m : StateT σ Option α) : Prop :=
  ∀ s t a s', R s t → m.run s = some (a, s') → ∃ t', m.run t = some (a, t') ∧ R s' t'

theorem Persists.pure (a : α) : Persists R (Pure.pure a : StateT σ Option α) := by
  intro s t b s' hst h
  obtain ⟨rfl, rfl⟩ := Prod.mk.inj (Option.some.inj h)
  exact ⟨t, rfl, hst⟩

theorem Persists.failure : Persists R (failure : StateT σ Option α) := by
  intro s t b s' hst h
  cases h

theorem Persists.bind {m : StateT σ Option α} {f : α → StateT σ Option β} (hm : Persists R m)
    (hf : ∀ a, Persists R (f a)) : Persists R (m >>= f) := by
  intro s t b s' hst h
  rw [StateT.run_bind] at h
  obtain ⟨⟨a, s₁⟩, hs, hrest⟩ := Option.bind_eq_some_iff.1 h
  obtain ⟨t₁, ht, hst₁⟩ := hm s t a s₁ hst hs
  obtain ⟨t', ht', hst'⟩ := hf a s₁ t₁ b s' hst₁ hrest
  refine ⟨t', ?_, hst'⟩
  rw [StateT.run_bind]
  exact Option.bind_eq_some_iff.2 ⟨(a, t₁), ht, ht'⟩

theorem Persists.ite {c : Prop} [Decidable c] {m n : StateT σ Option α} (hm : Persists R m)
    (hn : Persists R n) : Persists R (if c then m else n) := by
  split
  · exact hm
  · exact hn

end OpenDisplay.Lib.Persistence
