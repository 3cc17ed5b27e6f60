import OpenDisplay.App.SessionCount

/-!
# The first message on a connection

`OnAccept` publishes the new session before it starts its read thread and before it sends the
hello.  In between every thread can send on it: the main thread and the decode thread through
`App::session`, its own read thread directly.  `InOrder` says of a move that it does not complete
such a send before a hello is on the wire.  In runs of such moves the first frame on every
connection is a hello, and any other move puts another frame there.  `OutsideWindow` says it by the
place of `OnAccept` alone.
-/

namespace OpenDisplay.App.SessionHello

open OpenDisplay.Lib.Store OpenDisplay.Lib.Transition OpenDisplay.App.Sessions
open OpenDisplay.App.SessionMoves OpenDisplay.App.SessionCount

variable {st st' : State} {l : Label} {i k : ℕ}

/-- `s` has been made and its hello is still ahead. -/
def BeforeHello (pc : ListenerPc) : Prop :=
  ListenerPc.BeforeStart pc ∨ pc = .started

instance (pc : ListenerPc) : Decidable (BeforeHello pc) := by
  unfold BeforeHello ListenerPc.BeforeStart
  infer_instance

/-- `OnAccept` has not reached `SendHello` on the session, which is open and has had no hello. -/
def Awaits (st : State) (i : ℕ) : Prop :=
  st.s = some i ∧ BeforeHello st.listener ∧ (st.sessions i).closed = false ∧
    .hello ∉ (st.sessions i).wire

instance (st : State) (i : ℕ) : Decidable (Awaits st i) := by
  unfold Awaits
  infer_instance

/-- The session on which a move completes a send, and the message. -/
def sends (st : State) : Label → Option (ℕ × Message)
  | .acceptHello true => st.s.map (·, .hello)
  | .resizeHello true => st.mainLocal.map (·, .hello)
  | .sendCurrent _ m true => st.session.map (·, m)
  | .readPing i true => some (i, .ping)
  | .readStats i true => some (i, .stats)
  | _ => none

/-- The move does not complete the send of another message on a session that awaits its hello. -/
def InOrder (st : State) (l : Label) : Prop :=
  ∀ im ∈ sends st l, im.2 ≠ .hello → ¬Awaits st im.1

instance (st : State) (l : Label) : Decidable (InOrder st l) := by
  unfold InOrder
  infer_instance

/-! ## What a move does to the wires -/

theorem wire_effect (o : Session) (hl : ∀ a, l ≠ .acceptMake a) :
    (effect l o).wire = o.wire ∨
      ∃ m, (∀ st, sends st l = (target st l).map (·, m)) ∧ o.closed = false ∧
        (effect l o).wire = o.wire ++ [m] := by
  cases l
  case acceptMake a => exact absurd rfl (hl a)
  case acceptHello ok | resizeHello ok | sendCurrent t m ok | readPing i ok | readStats i ok =>
    simp only [effect]
    rcases o.sendControl_cases _ ok with ⟨-, h⟩ | ⟨hc, rfl, h⟩ | ⟨-, -, h⟩
    · exact .inl (by rw [h])
    · exact .inr ⟨_, fun _ => rfl, hc, by rw [h]⟩
    · exact .inl (by rw [h]; rfl)
  all_goals
    left
    simp [effect]

theorem wire_step (hs : step st l = some st') (hk : k < st.created) :
    (st'.sessions k).wire = (st.sessions k).wire ∨
      ∃ m, sends st l = some (k, m) ∧ (st.sessions k).closed = false ∧
        (st'.sessions k).wire = (st.sessions k).wire ++ [m] := by
  by_cases ht : target st l = some k
  · have hl : ∀ a, l ≠ .acceptMake a := by
      rintro a rfl
      rw [target, Option.some.injEq] at ht
      omega
    rw [sessions_step_of_eq hs ht]
    rcases wire_effect (st.sessions k) hl with hw | ⟨m, hm, hc, hw⟩
    · exact .inl hw
    · exact .inr ⟨m, by rw [hm, ht, Option.map_some], hc, hw⟩
  · rw [sessions_step_of_ne hs ht]
    exact .inl rfl

theorem effect_of_sends {m : Message} (hm : sends st l = some (k, m)) :
    target st l = some k ∧ effect l = .sendControl m true := by
  unfold sends at hm
  split at hm
  case h_1 | h_2 | h_3 =>
    obtain ⟨i, hi, him⟩ := Option.map_eq_some_iff.mp hm
    cases him
    exact ⟨hi, rfl⟩
  case h_4 | h_5 =>
    cases hm
    exact ⟨rfl, rfl⟩
  case h_6 => cases hm

theorem sends_step {m : Message} (hs : step st l = some st') (hm : sends st l = some (k, m))
    (hc : (st.sessions k).closed = false) :
    (st'.sessions k).wire = (st.sessions k).wire ++ [m] := by
  obtain ⟨ht, he⟩ := effect_of_sends hm
  rw [sessions_step_of_eq hs ht, he, Session.sendControl, if_neg (by simp [hc]), if_pos rfl]

/-- A session that awaited its hello still does, or `SendHello` has run on it. -/
theorem beforeHello_step (hs : step st l = some st') (hk : st.s = some k)
    (hb : BeforeHello st.listener) :
    st'.s = some k ∧ BeforeHello st'.listener ∨
      (st'.sessions k).closed = true ∨ (st'.sessions k).wire ≠ [] := by
  unfold BeforeHello ListenerPc.BeforeStart at *
  cases l <;>
    simp only [step, Option.ite_none_left_eq_some, when_eq_some, State.modify,
      State.release] at hs <;>
    obtain ⟨-, hE, rfl⟩ := hs <;> try dsimp only
  case acceptHello ok =>
    right
    rw [hk, modifyAt_self]
    rcases (st.sessions k).sendControl_cases .hello ok with ⟨hc, h⟩ | ⟨-, -, h⟩ | ⟨-, -, h⟩
    · exact .inl (by rw [h, hc])
    · exact .inr (by rw [h]; simp)
    · exact .inl (by rw [h]; rfl)
  case reapTake => exact .inl (by split <;> exact ⟨hk, hb⟩)
  all_goals simp_all

/-- The one move that creates a session. -/
theorem lt_created_step (hs : step st l = some st') (hk : k < st'.created) :
    k < st.created ∨
      (st'.sessions k).wire = [] ∧ st'.s = some k ∧ st'.listener = .made := by
  rcases created_step hs with hc | ⟨⟨a, rfl⟩, hc⟩
  · exact .inl (by omega)
  · by_cases hlt : k < st.created
    · exact .inl hlt
    · obtain rfl : k = st.created := by omega
      simp only [step, Option.ite_none_left_eq_some, when_eq_some] at hs
      obtain ⟨-, -, rfl⟩ := hs
      exact .inr ⟨by simp [State.modify, Session.made], rfl, rfl⟩

/-! ## The law -/

/-- The frames of a connection begin with a hello. -/
def HelloFirst (wire : List Message) : Prop := ∀ m ∈ wire.head?, m = .hello

/-- Every connection begins with a hello, and one on which nothing was sent is closed or still
has its hello ahead. -/
structure Greeted (st : State) : Prop where
  first : ∀ i < st.created, HelloFirst (st.sessions i).wire
  ahead : ∀ i < st.created, (st.sessions i).wire = [] →
    (st.sessions i).closed = true ∨ st.s = some i ∧ BeforeHello st.listener

theorem greeted_initial : Greeted initial :=
  ⟨fun _ h => absurd h (Nat.not_lt_zero _), fun _ h => absurd h (Nat.not_lt_zero _)⟩

theorem greeted_step (h : Greeted st) (hl : InOrder st l) (hs : step st l = some st') :
    Greeted st' := by
  constructor
  · intro k hk
    rcases lt_created_step hs hk with hk | ⟨hw, -, -⟩
    · rcases wire_step hs hk with hw | ⟨m, hm, hc, hw⟩
      · rw [hw]
        exact h.first k hk
      · rw [hw]
        by_cases hn : (st.sessions k).wire = []
        · -- the first frame: the session is open, so its hello is ahead and `m` is one
          rcases h.ahead k hk hn with hc' | ⟨hsk, hb⟩
          · simp [hc] at hc'
          · have hawaits : Awaits st k := ⟨hsk, hb, hc, by simp [hn]⟩
            have hm' : m = .hello := by
              by_contra hne
              exact hl (k, m) hm hne hawaits
            simpa [HelloFirst, hn] using hm'
        · have := h.first k hk
          obtain ⟨a, w, hw⟩ := List.exists_cons_of_ne_nil hn
          simpa [HelloFirst, hw] using this
    · simp [HelloFirst, hw]
  · intro k hk hw
    rcases lt_created_step hs hk with hk | ⟨-, hsk, hlk⟩
    · have hw' : (st.sessions k).wire = [] := by
        rcases wire_step hs hk with h | ⟨m, -, -, h⟩ <;> simp_all
      rcases h.ahead k hk hw' with hc | ⟨hsk, hb⟩
      · exact .inl (closed_step hs hk hc)
      · rcases beforeHello_step hs hsk hb with hb | hc | hne
        · exact .inr hb
        · exact .inl hc
        · exact absurd hw hne
    · exact .inr ⟨hsk, by simp [BeforeHello, ListenerPc.BeforeStart, hlk]⟩

theorem greeted_of_reaches (h : Reaches step InOrder initial st) : Greeted st :=
  h.invariant greeted_initial fun _ _ _ hg hl hs => greeted_step hg hl hs

/-- A move that is out of order puts another frame first. -/
theorem not_helloFirst (hg : Greeted st) (hI : Inv st) (hs : step st l = some st')
    (hl : ¬InOrder st l) : ∃ i, ¬HelloFirst (st'.sessions i).wire := by
  unfold InOrder at hl
  push Not at hl
  obtain ⟨⟨i, m⟩, him, hne, hsi, -, hc, hw⟩ := hl
  have hi : i < st.created := lt_created hI (by rw [owners, references, owns_eq_one hsi]; omega)
  have hnil : (st.sessions i).wire = [] := by
    by_contra hn
    obtain ⟨a, w, hcons⟩ := List.exists_cons_of_ne_nil hn
    have ha : a = .hello := hg.first i hi a (by rw [hcons]; rfl)
    simp [hcons, ha] at hw
  refine ⟨i, fun hf => hne (hf m ?_)⟩
  rw [sends_step hs him hc, hnil]
  rfl

/-- **hello is first.**  In a run in which no thread completes the send of another message on a
session that still awaits its hello, the first frame on every connection is a hello.  A move that
completes such a send makes another frame the first one. -/
theorem hello_first (h : Reaches step InOrder initial st) :
    (∀ i < st.created, HelloFirst (st.sessions i).wire) ∧
      ∀ l st', step st l = some st' → ¬InOrder st l →
        ∃ i, ¬HelloFirst (st'.sessions i).wire :=
  ⟨(greeted_of_reaches h).first, fun _ _ hs hl =>
    not_helloFirst (greeted_of_reaches h) (inv_of_reaches h) hs hl⟩

/-- The move does not complete the send of another message on the session whose `OnAccept` has not come
to `SendHello`. -/
def OutsideWindow (st : State) (l : Label) : Prop :=
  ∀ im ∈ sends st l, im.2 ≠ .hello → ¬(st.s = some im.1 ∧ BeforeHello st.listener)

theorem InOrder.of_outsideWindow (h : OutsideWindow st l) : InOrder st l :=
  fun im him hne hawaits => h im him hne ⟨hawaits.1, hawaits.2.1⟩

/-- It is enough that nothing else is sent in the window between `make_shared` and `SendHello`. -/
theorem helloFirst_of_outsideWindow (h : Reaches step OutsideWindow initial st) :
    ∀ i < st.created, HelloFirst (st.sessions i).wire :=
  (greeted_of_reaches (h.mono fun _ _ => InOrder.of_outsideWindow)).first

/-- A connection with a touch before and after its hello is sent; only the second touch finds the
session in `App::session`. -/
def politeRun : List Label :=
  [.acceptCopy, .sendCurrent .main .touch true, .acceptMake 0, .acceptAssign, .acceptDropOld,
    .acceptUnlock, .acceptStart, .acceptHello true, .sendCurrent .main .touch true]

/-- The mouse is pressed between `session = s` and `SendHello`. -/
def hastyRun : List Label :=
  [.acceptCopy, .acceptMake 0, .acceptAssign, .acceptDropOld, .acceptUnlock,
    .sendCurrent .main .touch true, .acceptStart, .acceptHello true]

theorem exec_politeRun : (exec step initial politeRun).isSome = true := by decide

theorem hello_first_politeRun :
    ∃ st, exec step initial politeRun = some st ∧
      (st.sessions 0).wire = [.hello, .touch] ∧
      ∀ i < st.created, HelloFirst (st.sessions i).wire := by
  have hst := (Option.some_get exec_politeRun).symm
  exact ⟨_, hst, by decide,
    (hello_first (reaches_of_exec politeRun (by decide) hst)).1⟩

theorem touch_first_hastyRun :
    (exec step initial hastyRun).map (fun st => (st.sessions 0).wire) = some [.touch, .hello] := by
  decide

end OpenDisplay.App.SessionHello
