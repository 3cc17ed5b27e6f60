import OpenDisplay.App.PresentLoop

/-!
# The order of presentation

Frames are presented in the order in which they were published and each of them as a new one once
(`presented_in_order`), and none stays behind while the loop sleeps (`no_frame_lost`).
-/

namespace OpenDisplay.App.PresentOrder

open OpenDisplay.App.PresentLoop OpenDisplay.Lib.SharedPtr OpenDisplay.Lib.Transition
open OpenDisplay.Render.Present (Renderer ResizeOutcome PresentOutcome InitOutcome)
open OpenDisplay.Render.PresentRuns
open OpenDisplay.Video.Decoder (DecodedFrame)
open OpenDisplay.Video.DecoderFrames (Whole whole_of_run)
open OpenDisplay.Video.DecoderDiscipline (Submission)

variable {st st' : Loop} {l : Label} {r : Renderer}

/-! ## The order of the frames -/

/-- Later frames are greater, and no frame is least. -/
def order (p : Option Published) : ℕ := p.elim 0 (·.number + 1)

/-- What was presented last. -/
def shown (calls : List PresentCall) : Option Published := calls.head?.bind PresentCall.frame

/-- A call with a new frame is later than all before it, and another call repeats the last frame. -/
def InOrder : List PresentCall → Prop
  | [] => True
  | c :: calls =>
    (if c.newFrame then order (shown calls) < order c.frame else c.frame = shown calls) ∧ InOrder calls

theorem content_get (h : Memory st) {k : Var} {v : Published} (hk : st.pool.get k = some v) :
    st.published[v.number]? = some v.frame := by
  unfold Pool.get at hk
  obtain ⟨a, -, hcell⟩ := Option.bind_eq_some_iff.1 hk
  obtain ⟨c, hc, rfl⟩ := Option.map_eq_some_iff.1 hcell
  exact h.content a c hc

theorem get_eq_of_order (h : Memory st) {j k : Var}
    (heq : order (st.pool.get j) = order (st.pool.get k)) : st.pool.get j = st.pool.get k := by
  unfold order at heq
  cases hj : st.pool.get j with
  | none =>
    cases hk : st.pool.get k with
    | none => rfl
    | some w => simp [hj, hk] at heq
  | some v =>
    cases hk : st.pool.get k with
    | none => simp [hj, hk] at heq
    | some w =>
      have hnumber : v.number = w.number := by simpa [hj, hk] using heq
      have hv := content_get h hj
      have hw := content_get h hk
      obtain ⟨n, f⟩ := v
      obtain ⟨n', f'⟩ := w
      obtain rfl : n = n' := hnumber
      obtain rfl : f = f' := Option.some.inj (hv.symm.trans hw)
      rfl

/-- `latestFrame` is the last frame that was stored. -/
structure Stored (st : Loop) : Prop where
  called : st.decode = .called → order (st.pool.get .f) = st.published.length
  latestFrame : order (st.pool.get .latestFrame) + (if st.decode = .called then 1 else 0) =
    st.published.length

/-- What the loop holds is not later than `latestFrame`, and its calls are in order. -/
structure Shown (st : Loop) : Prop where
  latest : order (st.pool.get .latest) ≤ order (st.pool.get .latestFrame)
  presented : order (st.pool.get .lastPresentedFrame) ≤ order (st.pool.get .latestFrame)
  held : st.main = .testing ∨ st.main = .presenting ∨ st.main = .presented →
    order (st.pool.get .lastPresentedFrame) ≤ order (st.pool.get .latest)
  tested : st.main = .presenting →
    (st.newFrame = true ↔ st.pool.get .latest ≠ st.pool.get .lastPresentedFrame)
  ending : st.main = .ending → st.pool.get .lastPresentedFrame = st.pool.get .latest
  last : shown st.calls =
    if st.main = .presented then st.pool.get .latest else st.pool.get .lastPresentedFrame
  calls : InOrder st.calls

theorem get_publish (h : Memory st) {a : ℕ} (hfree : st.pool.heap a = none) (v : Published) (i : Var) :
    ((st.pool.make .frame a v).assign .f .frame).get i =
      if i = .f ∨ i = .frame then some v else st.pool.get i := by
  rw [get_assign (h.sound.make hfree .frame v), get_make h.sound hfree, get_make h.sound hfree]
  cases i <;> simp

theorem get_store (h : Memory st) (i : Var) :
    (st.pool.take .latestFrame .f).get i =
      if i = .latestFrame then st.pool.get .f else if i = .f then none else st.pool.get i :=
  get_take h.sound (by decide) i

theorem gets_readLatest (h : Memory st) :
    (st.pool.assign .latest .latestFrame).get .latest = st.pool.get .latestFrame ∧
      (st.pool.assign .latest .latestFrame).get .latestFrame = st.pool.get .latestFrame ∧
      (st.pool.assign .latest .latestFrame).get .lastPresentedFrame = st.pool.get .lastPresentedFrame :=
  ⟨get_assign h.sound .., get_assign h.sound .., get_assign h.sound ..⟩

theorem gets_remember (h : Memory st) :
    (st.pool.assign .lastPresentedFrame .latest).get .latest = st.pool.get .latest ∧
      (st.pool.assign .lastPresentedFrame .latest).get .latestFrame = st.pool.get .latestFrame ∧
      (st.pool.assign .lastPresentedFrame .latest).get .lastPresentedFrame = st.pool.get .latest :=
  ⟨get_assign h.sound .., get_assign h.sound .., get_assign h.sound ..⟩

theorem gets_turn (h : Memory st) :
    (st.pool.reset .latest).get .latest = none ∧
      (st.pool.reset .latest).get .latestFrame = st.pool.get .latestFrame ∧
      (st.pool.reset .latest).get .lastPresentedFrame = st.pool.get .lastPresentedFrame :=
  ⟨get_reset h.sound .., get_reset h.sound .., get_reset h.sound ..⟩

theorem stored_step (hm : Memory st) (h : Stored st) (hs : step st l = some st') : Stored st' := by
  have hcongr : ∀ {s : Loop}, s.pool.get .f = st.pool.get .f →
      s.pool.get .latestFrame = st.pool.get .latestFrame → s.decode = st.decode →
      s.published = st.published → Stored s := fun hf hlf hd hp =>
    ⟨by rw [hf, hd, hp]; exact h.called, by rw [hlf, hd, hp]; exact h.latestFrame⟩
  cases l <;> simp only [step, when_eq_some] at hs <;> obtain ⟨hg, rfl⟩ := hs
  case publish a frame =>
    obtain ⟨hdecode, hfree⟩ := hg
    have hget := get_publish hm (Option.isNone_iff_eq_none.1 hfree) ⟨st.published.length, frame⟩
    have hlatest := h.latestFrame
    rw [if_neg (by rw [hdecode]; decide)] at hlatest
    refine ⟨fun _ => ?_, ?_⟩
    · dsimp only
      rw [hget, if_pos (.inl rfl), List.length_append]
      rfl
    · dsimp only
      rw [hget, if_neg (by decide), List.length_append, if_pos rfl]
      exact congrArg (· + 1) hlatest
  case store =>
    refine ⟨by rintro ⟨⟩, ?_⟩
    dsimp only
    rw [get_store hm, if_pos rfl, h.called hg, if_neg (by decide)]
    rfl
  case setEvent =>
    refine ⟨by rintro ⟨⟩, ?_⟩
    have hlatest := h.latestFrame
    rw [hg] at hlatest
    exact hlatest
  case publishReturns =>
    refine ⟨by rintro ⟨⟩, ?_⟩
    have hlatest := h.latestFrame
    rw [hg] at hlatest
    dsimp only
    rw [get_reset hm.sound, if_neg (by decide)]
    exact hlatest
  case readLatest =>
    exact hcongr ((get_assign hm.sound ..).trans (if_neg (by decide)))
      ((get_assign hm.sound ..).trans (if_neg (by decide))) rfl rfl
  case remember =>
    exact hcongr ((get_assign hm.sound ..).trans (if_neg (by decide)))
      ((get_assign hm.sound ..).trans (if_neg (by decide))) rfl rfl
  case turn =>
    exact hcongr ((get_reset hm.sound ..).trans (if_neg (by decide)))
      ((get_reset hm.sound ..).trans (if_neg (by decide))) rfl rfl
  all_goals exact hcongr rfl rfl rfl rfl

/-- The frames of the loop stay, and `latestFrame` does not get earlier. -/
theorem Shown.mono (h : Shown st)
    (hle : order (st.pool.get .latestFrame) ≤ order (st'.pool.get .latestFrame))
    (hlatest : st'.pool.get .latest = st.pool.get .latest)
    (hpresented : st'.pool.get .lastPresentedFrame = st.pool.get .lastPresentedFrame)
    (hmain : st'.main = st.main) (hnew : st'.newFrame = st.newFrame) (hcalls : st'.calls = st.calls) :
    Shown st' := by
  refine ⟨?_, ?_, ?_, ?_, ?_, ?_, hcalls ▸ h.calls⟩
  · rw [hlatest]
    exact h.latest.trans hle
  · rw [hpresented]
    exact h.presented.trans hle
  · rw [hmain, hlatest, hpresented]
    exact h.held
  · rw [hmain, hnew, hlatest, hpresented]
    exact h.tested
  · rw [hmain, hlatest, hpresented]
    exact h.ending
  · rw [hmain, hcalls, hlatest, hpresented]
    exact h.last

/-- Outside of its body behind the lock the loop only keeps `lastPresentedFrame`. -/
theorem Shown.pass (h : Shown st) (hpool : st'.pool = st.pool) (hcalls : st'.calls = st.calls)
    (hmain : st.main ≠ .presented)
    (hmain' : st'.main = .waiting ∨ st'.main = .dispatching ∨ st'.main = .reading ∨ st'.main = .left) :
    Shown st' := by
  have hlast := h.last
  rw [if_neg hmain] at hlast
  refine ⟨?_, ?_, ?_, ?_, ?_, ?_, hcalls ▸ h.calls⟩
  · rw [hpool]
    exact h.latest
  · rw [hpool]
    exact h.presented
  · rcases hmain' with h' | h' | h' | h' <;> simp [h']
  · rcases hmain' with h' | h' | h' | h' <;> simp [h']
  · rcases hmain' with h' | h' | h' | h' <;> simp [h']
  · rw [hpool, hcalls, hlast]
    rcases hmain' with h' | h' | h' | h' <;> simp [h']

/-- **The order of the frames is kept by every step.** -/
theorem shown_step (hm : Memory st) (hstored : Stored st) (h : Shown st) (hs : step st l = some st') :
    Shown st' := by
  cases l <;> simp only [step, when_eq_some] at hs <;> obtain ⟨hg, rfl⟩ := hs
  case publish a frame =>
    have hget := get_publish hm (Option.isNone_iff_eq_none.1 hg.2) ⟨st.published.length, frame⟩
    exact h.mono (hget .latestFrame ▸ Nat.le_refl _) (hget .latest) (hget .lastPresentedFrame) rfl rfl rfl
  case store =>
    have hget := get_store hm
    refine h.mono ?_ (hget .latest) (hget .lastPresentedFrame) rfl rfl rfl
    have hlatest := hstored.latestFrame
    dsimp only
    rw [hget, if_pos rfl, hstored.called hg]
    omega
  case setEvent => exact h.mono (Nat.le_refl _) rfl rfl rfl rfl rfl
  case publishReturns =>
    have hget := get_reset hm.sound Var.frame
    exact h.mono (hget .latestFrame ▸ Nat.le_refl _) (hget .latest) (hget .lastPresentedFrame) rfl rfl rfl
  case wake signalled => exact h.pass rfl rfl (by rw [hg.1]; decide) (.inr (.inl rfl))
  case size w hh o => exact h.pass rfl rfl (by rw [hg.1]; decide) (.inr (.inl hg.1))
  case paint | close => exact h.pass rfl rfl (by rw [hg]; decide) (.inr (.inl hg))
  case dispatched =>
    refine h.pass rfl rfl (by rw [hg]; decide) ?_
    dsimp only
    split
    · exact .inr (.inr (.inl rfl))
    · exact .inr (.inr (.inr rfl))
  case readLatest =>
    obtain ⟨hl, hlf, hp⟩ := gets_readLatest hm
    have hlast := h.last
    rw [if_neg (by rw [hg]; decide)] at hlast
    refine ⟨?_, ?_, fun _ => ?_, by rintro ⟨⟩, by rintro ⟨⟩, ?_, h.calls⟩
    · dsimp only
      rw [hl, hlf]
    · dsimp only
      rw [hp, hlf]
      exact h.presented
    · dsimp only
      rw [hp, hl]
      exact h.presented
    · dsimp only
      rw [if_neg (by decide), hp]
      exact hlast
  case test =>
    have hlast := h.last
    rw [if_neg (by rw [hg]; decide)] at hlast
    have hiff := vars_eq_iff hm.sound hm.distinct Var.latest .lastPresentedFrame
    refine ⟨h.latest, h.presented, fun _ => h.held (.inl hg), fun _ => ?_, ?_, ?_, h.calls⟩
    · dsimp only
      rw [decide_eq_true_eq, Ne, hiff]
    · intro hending
      dsimp only at hending ⊢
      split at hending
      case isTrue hidle => exact (hiff.1 hidle.2).symm
      case isFalse => cases hending
    · dsimp only
      rw [hlast]
      split
      · exact (if_neg (by decide)).symm
      · exact (if_neg (by decide)).symm
  case present o =>
    have hlast := h.last
    rw [if_neg (by rw [hg]; decide)] at hlast
    have hheld := h.held (.inr (.inl hg))
    have htested := h.tested hg
    refine ⟨h.latest, h.presented, fun _ => hheld, by rintro ⟨⟩, by rintro ⟨⟩, rfl, ?_, h.calls⟩
    rw [hlast]
    split
    case isTrue hnew =>
      refine Nat.lt_of_le_of_ne hheld fun heq => ?_
      exact htested.1 hnew (get_eq_of_order hm heq).symm
    case isFalse hold =>
      by_contra hne
      exact hold (htested.2 hne)
  case remember =>
    obtain ⟨hl, hlf, hp⟩ := gets_remember hm
    have hlast := h.last
    rw [if_pos hg] at hlast
    refine ⟨?_, ?_, ?_, by rintro ⟨⟩, fun _ => hp.trans hl.symm, ?_, h.calls⟩
    · dsimp only
      rw [hl, hlf]
      exact h.latest
    · dsimp only
      rw [hp, hlf]
      exact h.latest
    · rintro (h' | h' | h') <;> cases h'
    · dsimp only
      rw [if_neg (by decide), hp]
      exact hlast
  case turn =>
    obtain ⟨hl, hlf, hp⟩ := gets_turn hm
    have hlast := h.last
    rw [if_neg (by rw [hg]; decide)] at hlast
    refine ⟨?_, ?_, ?_, by rintro ⟨⟩, by rintro ⟨⟩, ?_, h.calls⟩
    · dsimp only
      rw [hl]
      exact Nat.zero_le _
    · dsimp only
      rw [hp, hlf]
      exact h.presented
    · rintro (h' | h' | h') <;> cases h'
    · dsimp only
      rw [if_neg (by decide), hp]
      exact hlast

theorem ordered_of_reaches {ok : Loop → Label → Prop} (h : Reaches step ok (initial r) st) :
    Stored st ∧ Shown st := by
  have hstored : ∀ s, Reaches step ok (initial r) s → Stored s := fun s hs =>
    hs.invariant_of (fun _ => memory_of_reaches) ⟨by rintro ⟨⟩, rfl⟩
      fun _ _ _ hm hi _ hs => stored_step hm hi hs
  refine ⟨hstored st h, ?_⟩
  refine h.invariant_of (J := fun s => Memory s ∧ Stored s)
    (fun s hs => ⟨memory_of_reaches hs, hstored s hs⟩) ?_
    fun _ _ _ hj hi _ hs => shown_step hj.1 hj.2 hi hs
  refine ⟨Nat.le_refl _, Nat.le_refl _, ?_, by rintro ⟨⟩, by rintro ⟨⟩, rfl, trivial⟩
  rintro (h' | h' | h') <;> cases h'

/-! ## No frame stays behind -/

/-- The decode thread has woken the loop, or is about to. -/
def Roused (st : Loop) : Prop := st.event = true ∨ st.decode = .stored

/-- A loop that is past its look at `latestFrame` is roused for what came later. -/
structure Awake (st : Loop) : Prop where
  behind : st.main = .waiting ∨ st.main = .ending →
    order (st.pool.get .lastPresentedFrame) < order (st.pool.get .latestFrame) → Roused st
  busy : st.main = .testing ∨ st.main = .presenting ∨ st.main = .presented →
    order (st.pool.get .latest) < order (st.pool.get .latestFrame) → Roused st
  redrawn : st.main = .presenting ∨ st.main = .presented ∨ st.main = .ending ∨
    (st.main = .waiting ∧ 0 < st.turns) → st.redrawNeeded = false

/-- A step of the decode thread leaves what the loop has, or rouses it. -/
theorem Awake.mono (h : Awake st) (hmain : st'.main = st.main)
    (hredraw : st'.redrawNeeded = st.redrawNeeded) (hturns : st'.turns = st.turns)
    (hroused : Roused st' ∨ ((∀ i, i = .latestFrame ∨ i = .latest ∨ i = .lastPresentedFrame →
      st'.pool.get i = st.pool.get i) ∧ (Roused st → Roused st'))) : Awake st' := by
  refine ⟨?_, ?_, ?_⟩
  · intro hm hlt
    rcases hroused with hr | ⟨hget, hr⟩
    · exact hr
    · rw [hget .latestFrame (.inl rfl), hget .lastPresentedFrame (.inr (.inr rfl))] at hlt
      exact hr (h.behind (hmain ▸ hm) hlt)
  · intro hm hlt
    rcases hroused with hr | ⟨hget, hr⟩
    · exact hr
    · rw [hget .latestFrame (.inl rfl), hget .latest (.inr (.inl rfl))] at hlt
      exact hr (h.busy (hmain ▸ hm) hlt)
  · rw [hmain, hturns, hredraw]
    exact h.redrawn

/-- Nothing is claimed while the loop is before its look at `latestFrame`. -/
theorem awake_of_main (h : st.main = .dispatching ∨ st.main = .reading ∨ st.main = .left) : Awake st := by
  refine ⟨?_, ?_, ?_⟩
  · rcases h with h | h | h <;> simp [h]
  · rcases h with h | h | h <;> simp [h]
  · rcases h with h | h | h <;> simp [h]

theorem awake_step (hm : Memory st) (h : Awake st) (hs : step st l = some st') : Awake st' := by
  cases l <;> simp only [step, when_eq_some] at hs <;> obtain ⟨hg, rfl⟩ := hs
  case publish a frame =>
    have hget := get_publish hm (Option.isNone_iff_eq_none.1 hg.2) ⟨st.published.length, frame⟩
    refine h.mono rfl rfl rfl (.inr ⟨?_, ?_⟩)
    · rintro i (rfl | rfl | rfl)
      · exact hget .latestFrame
      · exact hget .latest
      · exact hget .lastPresentedFrame
    · rintro (hevent | hstored)
      · exact .inl hevent
      · rw [hg.1] at hstored
        cases hstored
  case store => exact h.mono rfl rfl rfl (.inl (.inr rfl))
  case setEvent => exact h.mono rfl rfl rfl (.inl (.inl rfl))
  case publishReturns =>
    have hget := get_reset hm.sound Var.frame
    refine h.mono rfl rfl rfl (.inr ⟨?_, ?_⟩)
    · rintro i (rfl | rfl | rfl)
      · exact hget .latestFrame
      · exact hget .latest
      · exact hget .lastPresentedFrame
    · rintro (hevent | hstored)
      · exact .inl hevent
      · rw [hg] at hstored
        cases hstored
  case wake signalled => exact awake_of_main (.inl rfl)
  case size w hh o => exact awake_of_main (.inl hg.1)
  case paint | close => exact awake_of_main (.inl hg)
  case dispatched =>
    refine awake_of_main (.inr ?_)
    dsimp only
    split
    · exact .inl rfl
    · exact .inr rfl
  case readLatest =>
    obtain ⟨hl, hlf, hp⟩ := gets_readLatest hm
    refine ⟨?_, fun _ hlt => ?_, ?_⟩
    · rintro (h' | h') <;> cases h'
    · dsimp only at hlt
      rw [hl, hlf] at hlt
      exact absurd hlt (Nat.lt_irrefl _)
    · rintro (h' | h' | h' | ⟨h', -⟩) <;> cases h'
  case test =>
    have hbusy := h.busy (.inl hg)
    refine ⟨fun hmain hlt => ?_, fun _ => hbusy, fun _ => rfl⟩
    dsimp only at hmain hlt
    have hidle : st.Idle := by
      by_contra hbusy
      rw [if_neg hbusy] at hmain
      rcases hmain with h' | h' <;> cases h'
    have heq := (vars_eq_iff hm.sound hm.distinct Var.latest .lastPresentedFrame).1 hidle.2
    exact hbusy (heq ▸ hlt)
  case present o =>
    refine ⟨?_, fun _ => h.busy (.inr (.inl hg)), fun _ => h.redrawn (.inl hg)⟩
    rintro (h' | h') <;> cases h'
  case remember =>
    obtain ⟨hl, hlf, hp⟩ := gets_remember hm
    refine ⟨fun _ hlt => ?_, ?_, fun _ => h.redrawn (.inr (.inl hg))⟩
    · dsimp only at hlt
      rw [hp, hlf] at hlt
      exact h.busy (.inr (.inr hg)) hlt
    · rintro (h' | h' | h') <;> cases h'
  case turn =>
    obtain ⟨hl, hlf, hp⟩ := gets_turn hm
    refine ⟨fun _ hlt => ?_, ?_, fun _ => h.redrawn (.inr (.inr (.inl hg)))⟩
    · dsimp only at hlt
      rw [hp, hlf] at hlt
      exact h.behind (.inr hg) hlt
    · rintro (h' | h' | h') <;> cases h'

theorem awake_of_reaches {ok : Loop → Label → Prop} (h : Reaches step ok (initial r) st) : Awake st := by
  refine h.invariant_of (fun _ => memory_of_reaches) ?_ fun _ _ _ hm hi _ hs => awake_step hm hi hs
  refine ⟨fun _ hlt => absurd hlt (Nat.lt_irrefl _), ?_, ?_⟩
  · rintro (h' | h' | h') <;> cases h'
  · rintro (h' | h' | h' | ⟨-, h'⟩) <;> cases h'

/-- A loop that has passed its body twice since `T` has looked at `latestFrame` since then. -/
structure CaughtUp (n T : ℕ) (st : Loop) : Prop where
  turns : T ≤ st.turns
  latestFrame : n ≤ order (st.pool.get .latestFrame)
  busy : T < st.turns → st.main = .testing ∨ st.main = .presenting ∨ st.main = .presented →
    n ≤ order (st.pool.get .latest)
  ending : T < st.turns → st.main = .ending → n ≤ order (st.pool.get .lastPresentedFrame)
  later : T + 1 < st.turns → n ≤ order (st.pool.get .lastPresentedFrame)

/-- The frames of the loop stay, and `latestFrame` does not get earlier. -/
theorem CaughtUp.mono {n T : ℕ} (h : CaughtUp n T st)
    (hle : order (st.pool.get .latestFrame) ≤ order (st'.pool.get .latestFrame))
    (hlatest : st'.pool.get .latest = st.pool.get .latest)
    (hpresented : st'.pool.get .lastPresentedFrame = st.pool.get .lastPresentedFrame)
    (hmain : st'.main = st.main) (hturns : st'.turns = st.turns) : CaughtUp n T st' := by
  refine ⟨hturns ▸ h.turns, h.latestFrame.trans hle, ?_, ?_, ?_⟩
  · rw [hturns, hmain, hlatest]
    exact h.busy
  · rw [hturns, hmain, hpresented]
    exact h.ending
  · rw [hturns, hpresented]
    exact h.later

theorem CaughtUp.pass {n T : ℕ} (h : CaughtUp n T st) (hpool : st'.pool = st.pool)
    (hturns : st'.turns = st.turns)
    (hmain : st'.main = .dispatching ∨ st'.main = .reading ∨ st'.main = .left) : CaughtUp n T st' := by
  refine ⟨hturns ▸ h.turns, hpool ▸ h.latestFrame, ?_, ?_, ?_⟩
  · rcases hmain with h' | h' | h' <;> simp [h']
  · rcases hmain with h' | h' | h' <;> simp [h']
  · rw [hturns, hpool]
    exact h.later

theorem caughtUp_step {n T : ℕ} (hm : Memory st) (hstored : Stored st) (hshown : Shown st)
    (h : CaughtUp n T st) (hs : step st l = some st') : CaughtUp n T st' := by
  cases l <;> simp only [step, when_eq_some] at hs <;> obtain ⟨hg, rfl⟩ := hs
  case publish a frame =>
    have hget := get_publish hm (Option.isNone_iff_eq_none.1 hg.2) ⟨st.published.length, frame⟩
    exact h.mono (hget .latestFrame ▸ Nat.le_refl _) (hget .latest) (hget .lastPresentedFrame) rfl rfl
  case store =>
    have hget := get_store hm
    refine h.mono ?_ (hget .latest) (hget .lastPresentedFrame) rfl rfl
    have hlatest := hstored.latestFrame
    dsimp only
    rw [hget, if_pos rfl, hstored.called hg]
    omega
  case setEvent => exact h.mono (Nat.le_refl _) rfl rfl rfl rfl
  case publishReturns =>
    have hget := get_reset hm.sound Var.frame
    exact h.mono (hget .latestFrame ▸ Nat.le_refl _) (hget .latest) (hget .lastPresentedFrame) rfl rfl
  case wake signalled => exact h.pass rfl rfl (.inl rfl)
  case size w hh o => exact h.pass rfl rfl (.inl hg.1)
  case paint | close => exact h.pass rfl rfl (.inl hg)
  case dispatched =>
    refine h.pass rfl rfl (.inr ?_)
    dsimp only
    split
    · exact .inl rfl
    · exact .inr rfl
  case readLatest =>
    obtain ⟨hl, hlf, hp⟩ := gets_readLatest hm
    refine ⟨h.turns, hlf ▸ h.latestFrame, fun _ _ => hl ▸ h.latestFrame, ?_, fun hT => hp ▸ h.later hT⟩
    intro _ h'
    cases h'
  case test =>
    refine ⟨h.turns, h.latestFrame, fun hT _ => h.busy hT (.inl hg), fun hT hending => ?_, h.later⟩
    dsimp only at hending hT ⊢
    have hidle : st.Idle := by
      by_contra hbusy
      rw [if_neg hbusy] at hending
      cases hending
    have heq := (vars_eq_iff hm.sound hm.distinct Var.latest .lastPresentedFrame).1 hidle.2
    exact heq ▸ h.busy hT (.inl hg)
  case present o =>
    refine ⟨h.turns, h.latestFrame, fun hT _ => h.busy hT (.inr (.inl hg)), ?_, h.later⟩
    intro _ h'
    cases h'
  case remember =>
    obtain ⟨hl, hlf, hp⟩ := gets_remember hm
    refine ⟨h.turns, hlf ▸ h.latestFrame, ?_, fun hT _ => hp ▸ h.busy hT (.inr (.inr hg)), fun hT => ?_⟩
    · rintro _ (h' | h' | h') <;> cases h'
    · exact hp ▸ (h.later hT).trans (hshown.held (.inr (.inr hg)))
  case turn =>
    obtain ⟨hl, hlf, hp⟩ := gets_turn hm
    refine ⟨Nat.le_succ_of_le h.turns, hlf ▸ h.latestFrame, ?_, ?_, fun hT => ?_⟩
    · rintro _ (h' | h' | h') <;> cases h'
    · intro _ h'
      cases h'
    · exact hp ▸ h.ending (Nat.lt_of_succ_lt_succ hT) hg

/-- **No frame stays behind.** While the loop sleeps with a frame that it has not presented, the event
is set, or the decode thread is about to set it; no redraw is outstanding then; and once the loop has
passed its body twice, it has presented the frame that was in `latestFrame`, or a later one. -/
theorem no_frame_lost {ok : Loop → Label → Prop} (h : Reaches step ok (initial r) st) :
    (st.main = .waiting → st.pool.get .lastPresentedFrame ≠ st.pool.get .latestFrame → Roused st) ∧
      (st.main = .waiting → 0 < st.turns → st.redrawNeeded = false) ∧
      ∀ st', Reaches step ok st st' → st.turns + 2 ≤ st'.turns →
        order (st.pool.get .latestFrame) ≤ order (st'.pool.get .lastPresentedFrame) := by
  have hm := memory_of_reaches h
  have hawake := awake_of_reaches h
  refine ⟨fun hmain hne => ?_, fun hmain hturns => hawake.redrawn (.inr (.inr (.inr ⟨hmain, hturns⟩))), ?_⟩
  · refine hawake.behind (.inl hmain) (Nat.lt_of_le_of_ne (ordered_of_reaches h).2.presented fun heq => ?_)
    exact hne (get_eq_of_order hm heq)
  · intro st' hfrom hturns
    have hcaught : CaughtUp (order (st.pool.get .latestFrame)) st.turns st' := by
      refine hfrom.invariant_of (J := fun s => Memory s ∧ Stored s ∧ Shown s) (fun s hs => ?_) ?_
        fun _ _ _ hj hi _ hs => caughtUp_step hj.1 hj.2.1 hj.2.2 hi hs
      · exact ⟨memory_of_reaches (h.trans hs), ordered_of_reaches (h.trans hs)⟩
      · exact ⟨Nat.le_refl _, Nat.le_refl _, fun hlt => absurd hlt (Nat.lt_irrefl _),
          fun hlt => absurd hlt (Nat.lt_irrefl _), fun hlt => absurd hlt (by omega)⟩
    exact hcaught.later hturns

theorem no_frame_lost_asleep :
    ∃ st st', exec step (initial ready) (publishing 0) = some st ∧
      exec step st (presenting ++ publishing 1 ++ presenting) = some st' ∧ Roused st ∧
      order (st.pool.get .latestFrame) ≤ order (st'.pool.get .lastPresentedFrame) := by
  have hmeets : ∀ s ls, Meets step (fun _ _ => True) s ls := fun s _ => meets_of_forall (fun _ _ _ => trivial) s
  have hst : Reaches step (fun _ _ => True) (initial ready) _ :=
    reaches_of_exec (publishing 0) (hmeets _ _) rfl
  have hst' : Reaches step (fun _ _ => True) ((exec step (initial ready) (publishing 0)).get rfl) _ :=
    reaches_of_exec (presenting ++ publishing 1 ++ presenting) (hmeets _ _) rfl
  obtain ⟨hroused, -, hcaught⟩ := no_frame_lost hst
  exact ⟨_, _, rfl, rfl, hroused rfl (by rintro ⟨⟩), hcaught _ hst' (by decide)⟩

/-! ## What is presented -/

/-- The frames for which a picture was drawn, newest first. -/
def drawn (r : Renderer) : List DecodedFrame := r.screen.filterMap fun e => e.picture.map (·.frame)

/-- The frames that `Present` was called with, newest first. -/
def requested (calls : List PresentCall) : List DecodedFrame :=
  calls.filterMap fun c => c.frame.map Published.frame

theorem frame_draw {f : DecodedFrame} {up : Bool} {p : Render.Present.Picture}
    (h : r.draw f up = some p) : p.frame = f := by
  unfold Renderer.draw at h
  split at h
  · obtain rfl := Option.some.inj h
    rfl
  · cases h

theorem drawn_present {F : DecodedFrame → Prop} (h : Inv F r) (frame : Option DecodedFrame)
    (o : PresentOutcome) (hframe : ∀ f ∈ frame, Whole f ∧ F f ∧ ∀ m ∈ o.mapped, Fits m f) :
    drawn (r.present frame o) = drawn r ∨ ∃ f ∈ frame, drawn (r.present frame o) = f :: drawn r := by
  unfold Renderer.present
  split
  case h_2 => exact .inl rfl
  case h_1 =>
    cases frame with
    | none => exact .inl rfl
    | some f =>
      obtain ⟨hf, hF, hmap⟩ := hframe f rfl
      dsimp only
      split
      case isFalse => exact .inl rfl
      case isTrue =>
        obtain ⟨hsame, -⟩ := presentFrame_spec h hf hF hmap
        have hpicture : ∀ p ∈ (r.presentFrame f o).2, p.frame = f := fun p hp => frame_draw hp
        unfold drawn
        dsimp only
        rw [hsame.screen]
        cases hp : (r.presentFrame f o).2 with
        | none => exact .inl rfl
        | some p => exact .inr ⟨f, rfl, by simp [hpicture p hp]⟩

/-- The frames of the decoder, oldest first. -/
def framesOf (xs : List Submission) : List DecodedFrame :=
  (Video.DecoderDiscipline.run Video.Decoder.initial xs).frames.reverse

deriving instance DecidableEq for DecodedFrame

/-- The frames that are published are those of the decoder, and Direct3D maps enough memory for them. -/
def Admits (xs : List Submission) (st : Loop) : Label → Prop
  | .publish _ frame => (framesOf xs)[st.published.length]? = some frame
  | .present o => ∀ v ∈ st.pool.get .latest, ∀ m ∈ o.mapped, Fits m v.frame
  | _ => True

instance (xs : List Submission) (st : Loop) (l : Label) : Decidable (Admits xs st l) := by
  unfold Admits
  split <;> infer_instance

/-- What was presented: frames of the decoder as they were published, drawn in the order of the calls. -/
structure OnScreen (xs : List Submission) (st : Loop) : Prop where
  renderer : Inv (· ∈ framesOf xs) st.renderer
  published : st.published <+: framesOf xs
  calls : ∀ c ∈ st.calls, ∀ v ∈ c.frame, st.published[v.number]? = some v.frame
  drawn : (drawn st.renderer).Sublist (requested st.calls)

theorem drawn_resize (r : Renderer) (w h : ℤ) (o : ResizeOutcome) : drawn (r.resize w h o) = drawn r := by
  have htarget : ∀ (r : Renderer) o, drawn (r.createRenderTarget o) = drawn r := by
    intro r o
    unfold Renderer.createRenderTarget
    split
    · rfl
    · rfl
  unfold Renderer.resize
  split
  case isTrue => rfl
  split
  case h_1 => rfl
  case h_2 =>
    split
    case isTrue => rfl
    dsimp only
    split
    · exact htarget ..
    · exact htarget ..

theorem onScreen_step {xs : List Submission} (hm : Memory st)
    (h : OnScreen xs st) (hok : Admits xs st l) (hs : step st l = some st') : OnScreen xs st' := by
  cases l <;> simp only [step, when_eq_some] at hs <;> obtain ⟨hg, rfl⟩ := hs
  case publish a frame =>
    refine ⟨h.renderer, ?_, ?_, h.drawn⟩
    · have hnext : (framesOf xs)[st.published.length]? = some frame := hok
      dsimp only
      rw [List.prefix_iff_eq_take, List.length_append, List.length_singleton, List.take_add_one, hnext,
        ← List.prefix_iff_eq_take.1 h.published]
      rfl
    · intro c hc v hv
      have hold := h.calls c hc v hv
      obtain ⟨hlt, -⟩ := List.getElem?_eq_some_iff.1 hold
      exact (List.getElem?_append_left hlt).trans hold
  case size w hh o =>
    refine ⟨inv_resize h.renderer w hh o, h.published, h.calls, ?_⟩
    dsimp only
    rw [drawn_resize]
    exact h.drawn
  case present o =>
    have hframe : ∀ f ∈ (st.pool.get .latest).map Published.frame, Whole f ∧
        f ∈ framesOf xs ∧ ∀ m ∈ o.mapped, Fits m f := by
      intro f hf
      obtain ⟨v, hv, rfl⟩ := Option.map_eq_some_iff.1 hf
      have hmem : v.frame ∈ framesOf xs :=
        h.published.subset (List.mem_of_getElem? (content_get hm hv))
      exact ⟨whole_of_run xs (List.mem_reverse.1 hmem), hmem, hok v hv⟩
    refine ⟨inv_present h.renderer _ hframe, h.published, ?_, ?_⟩
    · intro c hc v hv
      rcases List.mem_cons.1 hc with rfl | hc
      · exact content_get hm hv
      · exact h.calls c hc v hv
    · dsimp only
      unfold requested
      rw [List.filterMap_cons]
      rcases drawn_present h.renderer _ o hframe with heq | ⟨f, hf, heq⟩
      · rw [heq]
        split
        · exact h.drawn
        · exact h.drawn.trans (List.sublist_cons_self _ _)
      · rw [heq]
        dsimp only
        rw [hf]
        exact h.drawn.cons_cons f
  all_goals exact ⟨h.renderer, h.published, h.calls, h.drawn⟩

theorem order_le_shown : ∀ {calls : List PresentCall}, InOrder calls →
    ∀ c ∈ calls, order c.frame ≤ order (shown calls)
  | [], _, c, hc => by cases hc
  | c' :: calls, h, c, hc => by
    rcases List.mem_cons.1 hc with rfl | hc
    · exact Nat.le_refl _
    · refine (order_le_shown h.2 c hc).trans ?_
      have hhead := h.1
      split at hhead
      · exact Nat.le_of_lt hhead
      · change order (shown calls) ≤ order c'.frame
        rw [hhead]

theorem pairwise_newFrame : ∀ {calls : List PresentCall}, InOrder calls →
    (calls.filter (·.newFrame)).Pairwise fun c c' => order c'.frame < order c.frame
  | [], _ => .nil
  | c :: calls, h => by
    rw [List.filter_cons]
    split
    case isFalse => exact pairwise_newFrame h.2
    case isTrue hnew =>
      have hhead := h.1
      rw [if_pos hnew] at hhead
      refine .cons (fun c' hc' => ?_) (pairwise_newFrame h.2)
      exact Nat.lt_of_le_of_lt (order_le_shown h.2 c' (List.mem_of_mem_filter hc')) hhead

theorem drawn_init (w h : ℤ) (o : InitOutcome) : drawn (Render.Present.initial.init w h o) = [] := by
  unfold Renderer.init Renderer.createRenderTarget
  dsimp only
  split
  · split
    · rfl
    · rfl
  · rfl

theorem onScreen_of_reaches {xs : List Submission} {w hh : ℤ} {o : InitOutcome}
    (h : Reaches step (Admits xs) (initial (Render.Present.initial.init w hh o)) st) : OnScreen xs st := by
  refine h.invariant_of (fun _ => memory_of_reaches) ⟨?_, List.nil_prefix, ?_, ?_⟩
    fun _ _ _ hm hi hok hs => onScreen_step hm hi hok hs
  · exact inv_init inv_initial rfl w hh o
  · intro c hc
    cases hc
  · change (drawn (Render.Present.initial.init w hh o)).Sublist []
    rw [drawn_init]

theorem OnScreen.framesOf {xs : List Submission} (h : OnScreen xs st) {c : PresentCall} (hc : c ∈ st.calls)
    {v : Published} (hv : v ∈ c.frame) : (framesOf xs)[v.number]? = some v.frame := by
  obtain ⟨hlt, hframe⟩ := List.getElem?_eq_some_iff.1 (h.calls c hc v hv)
  rw [← hframe]
  exact List.prefix_iff_getElem?.1 h.published v.number hlt

/-- **Frames are presented in order.** Each call with a new frame has a later frame of the decoder than
all calls before it, and any other call repeats the one before; pictures are drawn for some of these
frames, in this order, and show what `AllRight` says. -/
theorem presented_in_order (xs : List Submission) (w hh : ℤ) (o : InitOutcome)
    (h : Reaches step (Admits xs) (initial (Render.Present.initial.init w hh o)) st) :
    (InOrder st.calls ∧
      (st.calls.filter (·.newFrame)).Pairwise fun c c' => order c'.frame < order c.frame) ∧
      (∀ c ∈ st.calls, ∀ v ∈ c.frame, (framesOf xs)[v.number]? = some v.frame) ∧
      (drawn st.renderer).Sublist (requested st.calls) ∧ st.renderer.fault = false ∧
      AllRight (· ∈ framesOf xs) st.renderer.screen := by
  have hcalls := (ordered_of_reaches h).2.calls
  have hscreen := onScreen_of_reaches h
  exact ⟨⟨hcalls, pairwise_newFrame hcalls⟩, fun c hc v hv => hscreen.framesOf hc hv, hscreen.drawn,
    hscreen.renderer.fault, hscreen.renderer.screen⟩

theorem presented_in_order_threeFrames :
    ∃ st, exec step (initial ready) threeFrames = some st ∧ (drawn st.renderer).length = 3 ∧
      (InOrder st.calls ∧
        (st.calls.filter (·.newFrame)).Pairwise fun c c' => order c'.frame < order c.frame) ∧
      (∀ c ∈ st.calls, ∀ v ∈ c.frame,
        (framesOf (onePicture ++ onePicture ++ onePicture))[v.number]? = some v.frame) ∧
      (drawn st.renderer).Sublist (requested st.calls) ∧ st.renderer.fault = false ∧
      AllRight (· ∈ framesOf (onePicture ++ onePicture ++ onePicture)) st.renderer.screen := by
  have hmeets : Meets step (Admits (onePicture ++ onePicture ++ onePicture)) (initial ready) threeFrames := by
    decide +kernel
  exact ⟨_, rfl, rfl, presented_in_order _ 640 480 _ (reaches_of_exec threeFrames hmeets rfl)⟩

end OpenDisplay.App.PresentOrder
