import Mathlib.Data.Option.Basic

/-!
# Labelled transition systems and their runs

A program of several threads is a partial function `step : σ → ι → Option σ`: the label names the
thread and the program point that moves, and `none` says that it cannot move there.  `exec` runs a
list of labels.  `Reaches step ok s₀` is the set of states that runs from `s₀` visit when each of
their steps meets `ok` in the state before it; `ok` carries the side conditions under which a law
of the system is claimed, and is `fun _ _ => True` for the whole system.

The rule of the module is `Reaches.invariant`: what holds at the start and is kept by each step
that meets the condition holds in every state reached.  `Reaches.map` hands the laws of a component
to the system it is part of.  `holds_iff_meets` is the rule for a law `P` that no later step
repairs: where a step keeps `P` exactly if it meets the condition, a run keeps it exactly if all its
steps do.
-/

namespace OpenDisplay.Lib.Transition

variable {σ ι : Type*}

/-- A guarded move: to `s` if `c` holds, blocked otherwise. -/
def when (c : Prop) [Decidable c] (s : σ) : Option σ :=
  if c then some s else none

@[simp] theorem when_eq_some {c : Prop} [Decidable c] {s s' : σ} :
    when c s = some s' ↔ c ∧ s = s' := by
  simp [when]

/-- The run with the labels `ls`, if every step of it is enabled. -/
def exec (step : σ → ι → Option σ) : σ → List ι → Option σ
  | s, [] => some s
  | s, l :: ls => (step s l).bind fun s' => exec step s' ls

/-- Each step of the run `ls` from `s` meets `ok`. -/
def Meets (step : σ → ι → Option σ) (ok : σ → ι → Prop) : σ → List ι → Prop
  | _, [] => True
  | s, l :: ls => ok s l ∧ ∀ s' ∈ step s l, Meets step ok s' ls

/-- The states that runs from `s₀` visit while every step meets `ok`. -/
inductive Reaches (step : σ → ι → Option σ) (ok : σ → ι → Prop) (s₀ : σ) : σ → Prop
  | start : Reaches step ok s₀ s₀
  | move {s s' : σ} (l : ι) : Reaches step ok s₀ s → ok s l → step s l = some s' →
      Reaches step ok s₀ s'

variable {step : σ → ι → Option σ} {ok : σ → ι → Prop} {s₀ s s' : σ}

/-- **The invariant rule.** -/
theorem Reaches.invariant {I : σ → Prop} (h0 : I s₀)
    (hstep : ∀ s l s', I s → ok s l → step s l = some s' → I s') :
    Reaches step ok s₀ s → I s := by
  intro h
  induction h with
  | start => exact h0
  | move l _ hok hs ih => exact hstep _ l _ ih hok hs

/-- The invariant rule relative to a law `J` that is known of every reached state. -/
theorem Reaches.invariant_of {I J : σ → Prop} (hJ : ∀ s, Reaches step ok s₀ s → J s) (h0 : I s₀)
    (hstep : ∀ s l s', J s → I s → ok s l → step s l = some s' → I s') :
    Reaches step ok s₀ s → I s := by
  intro h
  induction h with
  | start => exact h0
  | move l hr hok hs ih => exact hstep _ l _ (hJ _ hr) ih hok hs

theorem Reaches.mono {ok' : σ → ι → Prop} (hok : ∀ s l, ok s l → ok' s l) :
    Reaches step ok s₀ s → Reaches step ok' s₀ s := by
  intro h
  induction h with
  | start => exact .start
  | move l _ hl hs ih => exact .move l ih (hok _ l hl) hs

theorem Reaches.trans (h : Reaches step ok s₀ s) :
    Reaches step ok s s' → Reaches step ok s₀ s' := by
  intro h'
  induction h' with
  | start => exact h
  | move l _ hok hs ih => exact .move l ih hok hs

/-- A component that moves by its own steps, or not at all, visits states of its own runs. -/
theorem Reaches.map {τ κ : Type*} {step' : τ → κ → Option τ} (π : σ → τ)
    (hstep : ∀ s l s', step s l = some s' → π s' = π s ∨ ∃ k, step' (π s) k = some (π s')) :
    Reaches step ok s₀ s → Reaches step' (fun _ _ => True) (π s₀) (π s) := by
  intro h
  induction h with
  | start => exact .start
  | move l _ _ hs ih =>
    rcases hstep _ l _ hs with he | ⟨k, hk⟩
    · rwa [he]
    · exact .move k ih trivial hk

theorem reaches_of_exec : ∀ {s : σ} (ls : List ι), Meets step ok s ls → exec step s ls = some s' →
    Reaches step ok s s'
  | _, [], _, h => by
    simp only [exec, Option.some.injEq] at h
    exact h ▸ .start
  | s, l :: ls, hm, h => by
    simp only [exec, Option.bind_eq_some_iff] at h
    obtain ⟨t, hst, ht⟩ := h
    exact (Reaches.start.move l hm.1 hst).trans (reaches_of_exec ls (hm.2 t hst) ht)

theorem meets_of_forall : ∀ {ls : List ι}, (∀ l ∈ ls, ∀ s, ok s l) → ∀ s : σ, Meets step ok s ls
  | [], _, _ => trivial
  | l :: _, hok, s => by
    refine ⟨hok l List.mem_cons_self s, fun s' _ => ?_⟩
    exact meets_of_forall (fun l' hl' => hok l' (List.mem_cons_of_mem _ hl')) s'

/-- A law that no step repairs held all along if it holds at the end. -/
theorem holds_of_exec {I P : σ → Prop}
    (hstep : ∀ s l s', I s → step s l = some s' → I s' ∧ (P s' → P s)) :
    ∀ {s : σ} (ls : List ι), I s → exec step s ls = some s' → P s' → P s
  | _, [], _, h, hp => by
    simp only [exec, Option.some.injEq] at h
    exact h ▸ hp
  | s, l :: ls, hi, h, hp => by
    simp only [exec, Option.bind_eq_some_iff] at h
    obtain ⟨t, hst, ht⟩ := h
    obtain ⟨hit, hback⟩ := hstep s l t hi hst
    exact hback (holds_of_exec hstep ls hit ht hp)

/-- **The rule of exact conditions.** -/
theorem holds_iff_meets {I P : σ → Prop}
    (hstep : ∀ s l s', I s → step s l = some s' →
      I s' ∧ (P s' → P s) ∧ (P s → (P s' ↔ ok s l))) :
    ∀ {s : σ} (ls : List ι), I s → P s → exec step s ls = some s' → (P s' ↔ Meets step ok s ls)
  | _, [], _, hp, h => by
    simp only [exec, Option.some.injEq] at h
    simp [Meets, ← h, hp]
  | s, l :: ls, hi, hp, h => by
    simp only [exec, Option.bind_eq_some_iff] at h
    obtain ⟨t, hst, ht⟩ := h
    obtain ⟨hit, -, hiff⟩ := hstep s l t hi hst
    constructor
    · intro hp'
      have hpt : P t := holds_of_exec
        (fun s l s' hi hs => ⟨(hstep s l s' hi hs).1, (hstep s l s' hi hs).2.1⟩) ls hit ht hp'
      refine ⟨(hiff hp).1 hpt, ?_⟩
      intro u hu
      obtain rfl : t = u := Option.some.inj (hst.symm.trans hu)
      exact (holds_iff_meets hstep ls hit hpt ht).1 hp'
    · rintro ⟨hok, hm⟩
      exact (holds_iff_meets hstep ls hit ((hiff hp).2 hok) ht).2 (hm t hst)

/-- Two conditions that agree wherever `I` holds are met by the same runs, if `I` is kept while the
first one is met. -/
theorem meets_congr {ok' : σ → ι → Prop} {I : σ → Prop} (hiff : ∀ s l, I s → (ok s l ↔ ok' s l))
    (hkeep : ∀ s l s', I s → ok s l → step s l = some s' → I s') :
    ∀ {s : σ} (ls : List ι), I s → (Meets step ok s ls ↔ Meets step ok' s ls)
  | _, [], _ => Iff.rfl
  | s, l :: ls, hi => by
    unfold Meets
    rw [← hiff s l hi]
    refine and_congr_right fun hok => forall₂_congr fun s' hs => ?_
    exact meets_congr hiff hkeep ls (hkeep s l s' hi hok hs)

instance decidableMeets [∀ s l, Decidable (ok s l)] :
    ∀ (s : σ) (ls : List ι), Decidable (Meets step ok s ls)
  | _, [] => inferInstanceAs (Decidable True)
  | s, l :: ls =>
    match h : step s l with
    | none => decidable_of_iff (ok s l) (by simp [Meets, h])
    | some s' =>
      have := decidableMeets s' ls
      decidable_of_iff (ok s l ∧ Meets step ok s' ls) (by simp [Meets, h])

end OpenDisplay.Lib.Transition
