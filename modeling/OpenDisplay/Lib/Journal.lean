import Mathlib.Data.Option.Basic
import Mathlib.Tactic.Common

/-! # Computations that keep a log

A `Logged ε σ α` works on a state, may fail, and keeps a log of events, which survives a failure.
`erase` forgets the log. `Agree P P' Q m m'` compares two computations: the events of `m` all have `P`
exactly if those of `m'` all have `P'`, and then the two do the same and their result has `Q`. It is
proved along the program, with `Agree.bind`. -/

namespace OpenDisplay.Lib.Journal

variable {ε σ α β : Type}

def Logged (ε σ α : Type) := σ → List ε × Option (α × σ)

/-- What follows a computation that may have failed. -/
def andThen (f : α → Logged ε σ β) : List ε × Option (α × σ) → List ε × Option (β × σ)
  | (log, none) => (log, none)
  | (log, some (a, s)) => (log ++ (f a s).1, (f a s).2)

instance : Monad (Logged ε σ) where
  pure a := fun s => ([], some (a, s))
  bind m f := fun s => andThen f (m s)

/-- An event for the log. -/
def tell (e : ε) : Logged ε σ Unit := fun s => ([e], some ((), s))

/-- A computation that logs nothing. -/
def lift (m : StateT σ Option α) : Logged ε σ α := fun s => ([], m s)

/-- The computation, for its effect, where `c` holds. -/
def onlyIf (c : Prop) [Decidable c] (m : Logged ε σ α) : Logged ε σ Unit :=
  if c then m >>= fun _ => pure () else pure ()

/-- The computation without its log. -/
def erase (m : Logged ε σ α) : StateT σ Option α := fun s => (m s).2

@[simp] theorem erase_pure (a : α) : erase (pure a : Logged ε σ α) = pure a := rfl

@[simp] theorem erase_tell (e : ε) : erase (tell e : Logged ε σ Unit) = pure () := rfl

@[simp] theorem erase_lift (m : StateT σ Option α) : erase (lift m : Logged ε σ α) = m := rfl

@[simp] theorem erase_bind (m : Logged ε σ α) (f : α → Logged ε σ β) :
    erase (m >>= f) = erase m >>= fun a => erase (f a) := by
  funext s
  have hbind : erase (m >>= f) s = (andThen f (m s)).2 := rfl
  have herase : (erase m >>= fun a => erase (f a)) s = (m s).2.bind fun r => (f r.1 r.2).2 := rfl
  rw [hbind, herase]
  cases hm : m s with
  | mk log r => cases r <;> rfl

@[simp] theorem erase_ite (c : Prop) [Decidable c] (m n : Logged ε σ α) :
    erase (if c then m else n) = if c then erase m else erase n := by
  split <;> rfl

theorem ite_bind {m : Type → Type} [Monad m] (c : Prop) [Decidable c] (x y : m α) (f : α → m β) :
    (if c then x else y) >>= f = if c then x >>= f else y >>= f := by
  split <;> rfl

/-! ### Comparing two computations -/

variable {P P' : ε → Prop} {Q : α → Prop} {R : β → Prop}

/-- All events of the run from `s` have `P`. -/
def Every (P : ε → Prop) (m : Logged ε σ α) (s : σ) : Prop := ∀ e ∈ (m s).1, P e

/-- **The events of `m` have `P` exactly if those of `m'` have `P'`**, and then `m` does what `m'` does
and the result has `Q`. -/
structure AgreeAt (P P' : ε → Prop) (Q : α → Prop) (m m' : Logged ε σ α) (s : σ) : Prop where
  events : Every P m s ↔ Every P' m' s
  same : Every P' m' s → m s = m' s
  result : Every P' m' s → ∀ r ∈ (m' s).2, Q r.1

def Agree (P P' : ε → Prop) (Q : α → Prop) (m m' : Logged ε σ α) : Prop :=
  ∀ s, AgreeAt P P' Q m m' s

theorem Agree.pure {a : α} (h : Q a) :
    Agree P P' Q (Pure.pure a : Logged ε σ α) (Pure.pure a) := by
  intro s
  refine ⟨by simp [Every, Pure.pure], fun _ => rfl, fun _ r hr => ?_⟩
  obtain rfl := Option.some.inj hr
  exact h

theorem Agree.lift {m : StateT σ Option α} (h : ∀ s, ∀ r ∈ m s, Q r.1) :
    Agree P P' Q (Journal.lift m : Logged ε σ α) (Journal.lift m) :=
  fun s => ⟨by simp [Every, Journal.lift], fun _ => rfl, fun _ r hr => h s r hr⟩

theorem Agree.tell {e : ε} (h : P e ↔ P' e) :
    Agree P P' (fun _ => True) (Journal.tell e : Logged ε σ Unit) (Journal.tell e) :=
  fun _ => ⟨by simpa [Every, Journal.tell] using h, fun _ => rfl, fun _ _ _ => trivial⟩

theorem Agree.weaken {m m' : Logged ε σ α} {Q' : α → Prop} (h : Agree P P' Q m m')
    (hq : ∀ a, Q a → Q' a) : Agree P P' Q' m m' :=
  fun s => ⟨(h s).events, (h s).same, fun he r hr => hq r.1 ((h s).result he r hr)⟩

theorem Agree.ite {c : Prop} [Decidable c] {m m' n n' : Logged ε σ α}
    (hm : c → Agree P P' Q m m') (hn : ¬c → Agree P P' Q n n') :
    Agree P P' Q (if c then m else n) (if c then m' else n') := by
  split
  · next h => exact hm h
  · next h => exact hn h

/-- Where both logs break their law there is nothing more to compare. -/
theorem AgreeAt.of_not_every {m m' : Logged ε σ α} {s : σ} (h : ¬Every P m s) (h' : ¬Every P' m' s) :
    AgreeAt P P' Q m m' s :=
  ⟨iff_of_false h h', fun he => absurd he h', fun he => absurd he h'⟩

theorem every_bind {m : Logged ε σ α} {f : α → Logged ε σ β} {s : σ} :
    Every P (m >>= f) s ↔ Every P m s ∧ ∀ r ∈ (m s).2, Every P (f r.1) r.2 := by
  have hbind : (m >>= f) s = andThen f (m s) := rfl
  unfold Every
  rw [hbind]
  cases hm : m s with
  | mk log r =>
    cases r with
    | none => simp [andThen]
    | some r => simp [andThen, or_imp, forall_and]

/-- **The rule for two computations one after the other.** -/
theorem AgreeAt.bind {m m' : Logged ε σ α} {f f' : α → Logged ε σ β} {s : σ}
    (h : AgreeAt P P' Q m m' s)
    (hf : ∀ r ∈ (m' s).2, Q r.1 → AgreeAt P P' R (f r.1) (f' r.1) r.2) :
    AgreeAt P P' R (m >>= f) (m' >>= f') s := by
  have hbind : (m >>= f) s = andThen f (m s) := rfl
  have hbind' : (m' >>= f') s = andThen f' (m' s) := rfl
  have hnext : Every P' m' s → ∀ r ∈ (m' s).2, AgreeAt P P' R (f r.1) (f' r.1) r.2 :=
    fun he r hr => hf r hr (h.result he r hr)
  refine ⟨?_, ?_, ?_⟩
  · rw [every_bind, every_bind, h.events]
    refine and_congr_right fun he => ?_
    rw [h.same he]
    exact forall₂_congr fun r hr => (hnext he r hr).events
  · intro he
    obtain ⟨hm, hrest⟩ := every_bind.1 he
    rw [hbind, hbind', h.same hm]
    cases hr : m' s with
    | mk log r =>
      cases r with
      | none => rfl
      | some r =>
        have hmem : r ∈ (m' s).2 := by simp [hr]
        have hsame := (hnext hm r hmem).same (hrest r hmem)
        simp only [andThen, hsame]
  · intro he r hr
    obtain ⟨hm, hrest⟩ := every_bind.1 he
    rw [hbind'] at hr
    cases hm' : m' s with
    | mk log x =>
      cases x with
      | none => simp [hm', andThen] at hr
      | some x =>
        have hmem : x ∈ (m' s).2 := by simp [hm']
        rw [hm'] at hr
        exact (hnext hm x hmem).result (hrest x hmem) r hr

theorem Agree.bind {m m' : Logged ε σ α} {f f' : α → Logged ε σ β} (h : Agree P P' Q m m')
    (hf : ∀ a, Q a → Agree P P' R (f a) (f' a)) : Agree P P' R (m >>= f) (m' >>= f') :=
  fun s => (h s).bind fun r _ hq => hf r.1 hq r.2

theorem Agree.onlyIf {c : Prop} [Decidable c] {m m' : Logged ε σ α} (h : Agree P P' Q m m') :
    Agree P P' (fun _ => True) (Journal.onlyIf c m) (Journal.onlyIf c m') :=
  Agree.ite (fun _ => h.bind fun _ _ => Agree.pure trivial) fun _ => Agree.pure trivial

end OpenDisplay.Lib.Journal
