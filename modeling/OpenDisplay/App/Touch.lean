import Mathlib.Data.Int.Notation
import OpenDisplay.App.Gestures
import OpenDisplay.Lib.Store
import OpenDisplay.Lib.Transition

/-!
# Touch messages

The window procedure turns mouse messages into touch messages on the current session.  It sends
`began` only if the press hits the video rectangle, but `moved`, `ended` and `cancelled` whenever the
button is down, and always on the session that is current at that moment.

Each connection keeps the touches sent on it.  `pressedOn` is a ghost: the session that was current
at the last press, if the press had a video rectangle.  A run keeps the touches of every connection
well formed exactly if each later phase of a touch goes out on that session
(`wellFormed_iff_paired`).  `α` stands for the video coordinates that `WindowToVideo` computes; the
label of a mouse message carries its result, the clock, and whether the send succeeds.
-/

namespace OpenDisplay.App.Touch

open OpenDisplay.App.Gestures OpenDisplay.Lib.Store OpenDisplay.Lib.Transition

variable {α : Type*}

/-- The sending side of a session. -/
structure Connection (α : Type*) where
  closed : Bool
  touches : List (Phase × α)

namespace Connection

/-- A new connection. -/
def made : Connection α := ⟨false, []⟩

def phases (c : Connection α) : List Phase := c.touches.map Prod.fst

/-- `Close`. -/
def close (c : Connection α) : Connection α := { c with closed := true }

/-- `SendControl` of a touch; a send that fails closes the session. -/
def send (t : Phase × α) (ok : Bool) (c : Connection α) : Connection α :=
  if c.closed then c
  else if ok then { c with touches := c.touches ++ [t] }
  else c.close

end Connection

structure State (α : Type*) where
  mouseDown : Bool
  lastTouch : α
  lastTouchSentMs : ℤ
  session : Option ℕ
  created : ℕ
  connections : ℕ → Connection α
  pressedOn : Option ℕ

/-- The app before the first connection. -/
def start (origin : α) : State α where
  mouseDown := false
  lastTouch := origin
  lastTouchSentMs := 0
  session := none
  created := 0
  connections := fun _ => .made
  pressedOn := none

/-- `SendTouch`. -/
def sendTouch (st : State α) (phase : Phase) (point : α) (now : ℤ) (ok : Bool) : State α :=
  { st with
    lastTouchSentMs := now
    connections := modifyAt st.connections st.session (.send (phase, point) ok) }

/-- `WM_LBUTTONDOWN`. -/
def leftDown (st : State α) (video : Option α) (now : ℤ) (ok : Bool) : State α :=
  if st.mouseDown then st
  else
    match video with
    | some p =>
      sendTouch { st with mouseDown := true, lastTouch := p, pressedOn := st.session } .began p now ok
    | none => { st with mouseDown := true, pressedOn := none }

/-- `WM_LBUTTONUP`; the `WM_CAPTURECHANGED` that `ReleaseCapture` sends finds `mouseDown` false. -/
def leftUp (st : State α) (video : Option α) (now : ℤ) (ok : Bool) : State α :=
  if st.mouseDown then
    let point := video.getD st.lastTouch
    sendTouch { st with mouseDown := false, lastTouch := point } .ended point now ok
  else st

/-- `WM_MOUSEMOVE`. -/
def mouseMove (st : State α) (video : Option α) (now : ℤ) (ok : Bool) : State α :=
  video.elim st fun p =>
    if st.mouseDown = true ∧ 8 ≤ now - st.lastTouchSentMs then
      sendTouch { st with lastTouch := p } .moved p now ok
    else { st with lastTouch := p }

/-- `WM_CAPTURECHANGED`. -/
def captureChanged (st : State α) (now : ℤ) (ok : Bool) : State α :=
  if st.mouseDown then sendTouch { st with mouseDown := false } .cancelled st.lastTouch now ok
  else st

inductive Label (α : Type*)
  | leftDown (video : Option α) (now : ℤ) (ok : Bool)
  | leftUp (video : Option α) (now : ℤ) (ok : Bool)
  | mouseMove (video : Option α) (now : ℤ) (ok : Bool)
  | captureChanged (now : ℤ) (ok : Bool)
  /-- `OnAccept` makes a new session the current one. -/
  | accept
  /-- A session is closed, by any thread. -/
  | close (i : ℕ)
  /-- The main thread drops the current session. -/
  | reap

def step (st : State α) : Label α → Option (State α)
  | .leftDown video now ok => some (leftDown st video now ok)
  | .leftUp video now ok => some (leftUp st video now ok)
  | .mouseMove video now ok => some (mouseMove st video now ok)
  | .captureChanged now ok => some (captureChanged st now ok)
  | .accept =>
    some
      { st with
        session := some st.created
        created := st.created + 1
        connections := modifyAt st.connections (some st.created) fun _ => .made }
  | .close i => some { st with connections := modifyAt st.connections (some i) .close }
  | .reap => some { st with session := none }

/-- The step sends a phase other than `began`. -/
def Continues (st : State α) : Label α → Prop
  | .leftUp _ _ ok => ok = true ∧ st.mouseDown = true
  | .mouseMove video now ok =>
    ok = true ∧ video.isSome = true ∧ st.mouseDown = true ∧ 8 ≤ now - st.lastTouchSentMs
  | .captureChanged _ ok => ok = true ∧ st.mouseDown = true
  | _ => False

/-- The current session is closed, or it is the one that the touch began on. -/
def SameSession (st : State α) : Prop :=
  match st.session with
  | none => True
  | some i => (st.connections i).closed = true ∨ st.pressedOn = some i

/-- A phase other than `began` goes out on the session that the touch began on. -/
def Paired (st : State α) (l : Label α) : Prop := Continues st l → SameSession st

/-! ## The invariant -/

/-- The touches of every connection are well formed. -/
def AllWellFormed (st : State α) : Prop := ∀ i, WellFormed (st.connections i).phases

/-- On the open current session, a touch is down exactly if the button is and it began there. -/
structure Inv (st : State α) : Prop where
  session_lt : ∀ i ∈ st.session, i < st.created
  pressed_lt : ∀ i ∈ st.pressedOn, i < st.created
  unused : ∀ i, st.created ≤ i → (st.connections i).phases = []
  current : ∀ i ∈ st.session, (st.connections i).closed = false →
    ∀ down, track false (st.connections i).phases = some down →
      down = (st.mouseDown && decide (st.pressedOn = some i))

theorem inv_start (origin : α) : Inv (start origin) where
  session_lt := by simp [start]
  pressed_lt := by simp [start]
  unused := fun _ _ => rfl
  current := by simp [start]

variable {st st' : State α} {l : Label α}

theorem phases_send (c : Connection α) (t : Phase × α) (ok : Bool) :
    (c.send t ok).phases = if c.closed = false ∧ ok = true then c.phases ++ [t.1] else c.phases := by
  unfold Connection.send
  cases hc : c.closed <;> cases ok <;> simp [Connection.phases, Connection.close]

theorem closed_send (c : Connection α) (t : Phase × α) (ok : Bool) :
    (c.send t ok).closed = true ∨ (c.send t ok).closed = false ∧ c.closed = false ∧ ok = true := by
  unfold Connection.send
  cases hc : c.closed <;> cases ok <;> simp [hc, Connection.close]

theorem connections_sendTouch (st : State α) (phase : Phase) (p : α) (now : ℤ) (ok : Bool) :
    (sendTouch st phase p now ok).connections =
      modifyAt st.connections st.session (.send (phase, p) ok) :=
  rfl

theorem phases_sendTouch (st : State α) (phase : Phase) (p : α) (now : ℤ) (ok : Bool) (i : ℕ) :
    ((sendTouch st phase p now ok).connections i).phases =
      if st.session = some i ∧ (st.connections i).closed = false ∧ ok = true then
        (st.connections i).phases ++ [phase]
      else (st.connections i).phases := by
  rw [connections_sendTouch]
  by_cases hi : st.session = some i
  · rw [modifyAt_of_eq _ hi, phases_send]
    simp [hi]
  · rw [modifyAt_of_ne _ hi]
    simp [hi]

theorem closed_sendTouch {st : State α} {phase : Phase} {p : α} {now : ℤ} {ok : Bool} {i : ℕ}
    (h : ((sendTouch st phase p now ok).connections i).closed = false)
    (hi : st.session = some i) : (st.connections i).closed = false ∧ ok = true := by
  rw [connections_sendTouch, modifyAt_of_eq _ hi] at h
  rcases closed_send (st.connections i) (phase, p) ok with hc | hc
  · rw [hc] at h
    cases h
  · exact hc.2

theorem allWellFormed_of_sendTouch {phase : Phase} {p : α} {now : ℤ} {ok : Bool}
    (h : AllWellFormed (sendTouch st phase p now ok)) : AllWellFormed st := by
  intro i
  have hi := h i
  rw [phases_sendTouch] at hi
  split at hi
  · exact wellFormed_of_grows hi (List.prefix_append _ _)
  · exact hi

/-- **A message on the current session.**  The touch is `down` before the message, as far as the
button and the press say, and `down'` after it. -/
theorem sendTouch_spec (hi : Inv st) (st₁ : State α) (phase : Phase) (p : α) (now : ℤ) (ok : Bool)
    (hsession : st₁.session = st.session) (hcreated : st₁.created = st.created)
    (hconn : st₁.connections = st.connections) (hpressed : ∀ i ∈ st₁.pressedOn, i < st.created)
    (hafter : ∀ i, st.session = some i →
      after (st.mouseDown && decide (st.pressedOn = some i)) phase = none ∨
        after (st.mouseDown && decide (st.pressedOn = some i)) phase =
          some (st₁.mouseDown && decide (st₁.pressedOn = some i))) :
    Inv (sendTouch st₁ phase p now ok) ∧
      (AllWellFormed st → (AllWellFormed (sendTouch st₁ phase p now ok) ↔
        (ok = true → ∀ i, st.session = some i → (st.connections i).closed = false →
          after (st.mouseDown && decide (st.pressedOn = some i)) phase ≠ none))) := by
  refine ⟨⟨?_, ?_, ?_, ?_⟩, ?_⟩
  · intro i hs
    have hlt := hi.session_lt i (hsession ▸ hs)
    exact hcreated ▸ hlt
  · intro i hp
    have hlt := hpressed i hp
    exact hcreated ▸ hlt
  · intro i hle
    have hle' : st.created ≤ i := hcreated ▸ hle
    have hne : ¬(st₁.session = some i ∧ (st₁.connections i).closed = false ∧ ok = true) := by
      rintro ⟨hs, -⟩
      have hlt := hi.session_lt i (hsession ▸ hs)
      omega
    rw [phases_sendTouch, if_neg hne, hconn]
    exact hi.unused i hle'
  · intro i hs hopen down hdown
    obtain ⟨hopen', hok⟩ := closed_sendTouch hopen hs
    rw [phases_sendTouch, if_pos ⟨hs, hopen', hok⟩, track_snoc, Option.bind_eq_some_iff] at hdown
    obtain ⟨before, hbefore, hdown⟩ := hdown
    rw [hconn] at hopen' hbefore
    have hs' : st.session = some i := hsession ▸ hs
    rw [hi.current i hs' hopen' before hbefore] at hdown
    rcases hafter i hs' with hnone | hsome
    · rw [hnone] at hdown
      cases hdown
    · rw [hsome] at hdown
      exact (Option.some.inj hdown).symm
  · intro hp
    constructor
    · intro hall hok i hs hopen hnone
      have hwf := (track_isSome_iff _).2 (hall i)
      rw [phases_sendTouch, hsession, hconn, if_pos ⟨hs, hopen, hok⟩, track_snoc] at hwf
      obtain ⟨before, hbefore⟩ := Option.isSome_iff_exists.1 ((track_isSome_iff _).2 (hp i))
      rw [hbefore, Option.bind_some, hi.current i hs hopen before hbefore, hnone] at hwf
      cases hwf
    · intro hok i
      rw [phases_sendTouch, hsession, hconn]
      split
      · rename_i hsend
        obtain ⟨hs, hopen, htrue⟩ := hsend
        rw [← track_isSome_iff, track_snoc]
        obtain ⟨before, hbefore⟩ := Option.isSome_iff_exists.1 ((track_isSome_iff _).2 (hp i))
        rw [hbefore, Option.bind_some, hi.current i hs hopen before hbefore, Option.isSome_iff_ne_none]
        exact hok htrue i hs hopen
      · exact hp i

/-! ## The window messages -/

theorem quiet (hi : Inv st) (st₁ : State α) (hsession : st₁.session = st.session)
    (hcreated : st₁.created = st.created) (hconn : st₁.connections = st.connections)
    (hdown : st₁.mouseDown = st.mouseDown) (hpressed : st₁.pressedOn = st.pressedOn) :
    Inv st₁ ∧ (AllWellFormed st₁ ↔ AllWellFormed st) := by
  refine ⟨⟨?_, ?_, ?_, ?_⟩, ?_⟩
  · rw [hsession, hcreated]
    exact hi.session_lt
  · rw [hpressed, hcreated]
    exact hi.pressed_lt
  · rw [hcreated, hconn]
    exact hi.unused
  · rw [hsession, hconn, hdown, hpressed]
    exact hi.current
  · unfold AllWellFormed
    rw [hconn]

/-- **A phase other than `began`**, sent while the button is down. -/
theorem continue_spec (hi : Inv st) (st₁ : State α) (phase : Phase) (p : α) (now : ℤ) (ok : Bool)
    (hsession : st₁.session = st.session) (hcreated : st₁.created = st.created)
    (hconn : st₁.connections = st.connections) (hpressed : st₁.pressedOn = st.pressedOn)
    (hdown : st.mouseDown = true) (hphase : after false phase = none)
    (hphase' : after true phase = some st₁.mouseDown) :
    Inv (sendTouch st₁ phase p now ok) ∧
      (AllWellFormed (sendTouch st₁ phase p now ok) → AllWellFormed st) ∧
      (AllWellFormed st →
        (AllWellFormed (sendTouch st₁ phase p now ok) ↔ (ok = true → SameSession st))) := by
  have hspec := sendTouch_spec hi st₁ phase p now ok hsession hcreated hconn (hpressed ▸ hi.pressed_lt) (by
      intro i hs
      by_cases hp : st.pressedOn = some i
      · right
        simp [hdown, hpressed, hp, hphase']
      · left
        simp [hdown, hp, hphase])
  refine ⟨hspec.1, ?_, ?_⟩
  · intro hall i
    have hwf := allWellFormed_of_sendTouch hall i
    rwa [hconn] at hwf
  · intro hp
    rw [hspec.2 hp]
    unfold SameSession
    rw [hdown]
    cases hs : st.session with
    | none => simp
    | some i =>
      by_cases hpi : st.pressedOn = some i
      · simp [hpi, hphase']
      · simp [hpi, hphase]

theorem step_leftDown (hi : Inv st) (video : Option α) (now : ℤ) (ok : Bool) :
    Inv (leftDown st video now ok) ∧
      (AllWellFormed (leftDown st video now ok) → AllWellFormed st) ∧
      (AllWellFormed st → AllWellFormed (leftDown st video now ok)) := by
  unfold leftDown
  by_cases hdown : st.mouseDown = true
  · rw [if_pos hdown]
    exact ⟨hi, id, id⟩
  have hup : st.mouseDown = false := by simpa using hdown
  rw [if_neg hdown]
  cases video with
  | none =>
    refine ⟨⟨hi.session_lt, by simp, hi.unused, ?_⟩, id, id⟩
    intro i hs hopen down htrack
    have hold := hi.current i hs hopen down htrack
    simpa [hup] using hold
  | some p =>
    have hspec := sendTouch_spec hi
      { st with mouseDown := true, lastTouch := p, pressedOn := st.session } .began p now ok
      rfl rfl rfl hi.session_lt (by
        intro i hs
        right
        simp [hup, hs, after])
    have hback : AllWellFormed (sendTouch { st with
        mouseDown := true, lastTouch := p, pressedOn := st.session } .began p now ok) →
        AllWellFormed st :=
      allWellFormed_of_sendTouch
    refine ⟨hspec.1, hback, ?_⟩
    intro hp
    refine (hspec.2 hp).2 ?_
    intro _ i _ _
    simp [hup, after]

theorem step_leftUp (hi : Inv st) {video : Option α} {now : ℤ} {ok : Bool} :
    Inv (leftUp st video now ok) ∧ (AllWellFormed (leftUp st video now ok) → AllWellFormed st) ∧
      (AllWellFormed st →
        (AllWellFormed (leftUp st video now ok) ↔ Paired st (.leftUp video now ok))) := by
  unfold leftUp
  by_cases hdown : st.mouseDown = true
  · have hpaired : Paired st (.leftUp video now ok) ↔ (ok = true → SameSession st) := by
      simp [Paired, Continues, hdown]
    rw [if_pos hdown, hpaired]
    exact continue_spec hi _ .ended _ now ok rfl rfl rfl rfl hdown rfl rfl
  · rw [if_neg hdown]
    refine ⟨hi, id, ?_⟩
    intro hp
    exact ⟨fun _ h => absurd h.2 hdown, fun _ => hp⟩

theorem step_mouseMove (hi : Inv st) {video : Option α} {now : ℤ} {ok : Bool} :
    Inv (mouseMove st video now ok) ∧
      (AllWellFormed (mouseMove st video now ok) → AllWellFormed st) ∧
      (AllWellFormed st →
        (AllWellFormed (mouseMove st video now ok) ↔ Paired st (.mouseMove video now ok))) := by
  cases video with
  | none =>
    refine ⟨hi, id, ?_⟩
    intro hp
    exact ⟨fun _ h => absurd h.2.1 Bool.false_ne_true, fun _ => hp⟩
  | some p =>
    by_cases hsend : st.mouseDown = true ∧ 8 ≤ now - st.lastTouchSentMs
    · have hmove : mouseMove st (some p) now ok =
          sendTouch { st with lastTouch := p } .moved p now ok := if_pos hsend
      have hpaired : Paired st (.mouseMove (some p) now ok) ↔ (ok = true → SameSession st) := by
        simp [Paired, Continues, hsend]
      rw [hmove, hpaired]
      exact continue_spec hi _ .moved p now ok rfl rfl rfl rfl hsend.1 rfl
        (congrArg some hsend.1.symm)
    · have hmove : mouseMove st (some p) now ok = { st with lastTouch := p } := if_neg hsend
      rw [hmove]
      obtain ⟨hi', hiff⟩ := quiet hi { st with lastTouch := p } rfl rfl rfl rfl rfl
      refine ⟨hi', hiff.1, ?_⟩
      intro hp
      exact ⟨fun _ h => absurd h.2.2 hsend, fun _ => hiff.2 hp⟩

theorem step_captureChanged (hi : Inv st) {now : ℤ} {ok : Bool} :
    Inv (captureChanged st now ok) ∧
      (AllWellFormed (captureChanged st now ok) → AllWellFormed st) ∧
      (AllWellFormed st →
        (AllWellFormed (captureChanged st now ok) ↔ Paired st (.captureChanged now ok))) := by
  unfold captureChanged
  by_cases hdown : st.mouseDown = true
  · have hpaired : Paired st (.captureChanged now ok) ↔ (ok = true → SameSession st) := by
      simp [Paired, Continues, hdown]
    rw [if_pos hdown, hpaired]
    exact continue_spec hi _ .cancelled _ now ok rfl rfl rfl rfl hdown rfl rfl
  · rw [if_neg hdown]
    refine ⟨hi, id, ?_⟩
    intro hp
    exact ⟨fun _ h => absurd h.2 hdown, fun _ => hp⟩

/-! ## The sessions -/

theorem step_accept (hi : Inv st) (hs : step st .accept = some st') :
    Inv st' ∧ (AllWellFormed st' ↔ AllWellFormed st) := by
  cases hs
  have hphases : ∀ i, (modifyAt st.connections (some st.created) (fun _ => .made) i).phases =
      (st.connections i).phases := by
    intro i
    by_cases he : st.created = i
    · subst he
      rw [modifyAt_self, hi.unused _ (Nat.le_refl _)]
      rfl
    · rw [modifyAt_of_ne _ (by simpa using he)]
  refine ⟨⟨?_, ?_, ?_, ?_⟩, ?_⟩
  · intro i h
    cases h
    exact Nat.lt_succ_self _
  · intro i h
    exact Nat.lt_succ_of_lt (hi.pressed_lt i h)
  · intro i h
    show (modifyAt st.connections (some st.created) (fun _ => .made) i).phases = []
    rw [hphases]
    exact hi.unused i (Nat.le_of_succ_le h)
  · intro i h _ down hdown
    cases h
    have hne : st.pressedOn ≠ some st.created := by
      intro hp
      exact absurd (hi.pressed_lt _ hp) (Nat.lt_irrefl _)
    simp only [modifyAt_self] at hdown
    obtain rfl : false = down := Option.some.inj hdown
    simp [hne]
  · constructor
    · intro h i
      rw [← hphases]
      exact h i
    · intro h i
      show WellFormed (modifyAt st.connections (some st.created) (fun _ => .made) i).phases
      rw [hphases]
      exact h i

theorem step_close (hi : Inv st) {j : ℕ} (hs : step st (.close j) = some st') :
    Inv st' ∧ (AllWellFormed st' ↔ AllWellFormed st) := by
  cases hs
  have hphases : ∀ i, (modifyAt st.connections (some j) .close i).phases =
      (st.connections i).phases :=
    field_modifyAt Connection.phases (f := .close) (fun _ => rfl) st.connections (some j)
  refine ⟨⟨hi.session_lt, hi.pressed_lt, ?_, ?_⟩, ?_⟩
  · intro i h
    exact (hphases i).trans (hi.unused i h)
  · intro i h hopen down hdown
    have hne : (some j : Option ℕ) ≠ some i := by
      rintro ⟨⟩
      simp [modifyAt_self, Connection.close] at hopen
    have hsame : modifyAt st.connections (some j) .close i = st.connections i :=
      modifyAt_of_ne _ hne
    have hopen' : (modifyAt st.connections (some j) .close i).closed = false := hopen
    have hdown' : track false (modifyAt st.connections (some j) .close i).phases = some down := hdown
    rw [hsame] at hopen' hdown'
    exact hi.current i h hopen' down hdown'
  · constructor
    · intro h i
      rw [← hphases]
      exact h i
    · intro h i
      exact (hphases i).symm ▸ h i

theorem step_spec (hi : Inv st) (hs : step st l = some st') :
    Inv st' ∧ (AllWellFormed st' → AllWellFormed st) ∧
      (AllWellFormed st → (AllWellFormed st' ↔ Paired st l)) := by
  cases l with
  | leftDown video now ok =>
    cases hs
    obtain ⟨hi', hback, hkeep⟩ := step_leftDown hi video now ok
    exact ⟨hi', hback, fun hp => ⟨fun _ h => h.elim, fun _ => hkeep hp⟩⟩
  | leftUp video now ok =>
    cases hs
    exact step_leftUp hi
  | mouseMove video now ok =>
    cases hs
    exact step_mouseMove hi
  | captureChanged now ok =>
    cases hs
    exact step_captureChanged hi
  | accept =>
    obtain ⟨hi', hiff⟩ := step_accept hi hs
    exact ⟨hi', hiff.1, fun hp => ⟨fun _ h => h.elim, fun _ => hiff.2 hp⟩⟩
  | close j =>
    obtain ⟨hi', hiff⟩ := step_close hi hs
    exact ⟨hi', hiff.1, fun hp => ⟨fun _ h => h.elim, fun _ => hiff.2 hp⟩⟩
  | reap =>
    cases hs
    refine ⟨⟨by simp, hi.pressed_lt, hi.unused, by simp⟩, id, ?_⟩
    intro hp
    exact ⟨fun _ h => h.elim, fun _ => hp⟩

/-- **Touches are well formed exactly while they stay on one session.**  In every run of window
messages and of sessions that come, close and go, the touch phases sent on each connection are a
prefix of a word of `(began moved* (ended | cancelled))*` if and only if each phase other than
`began` that goes out on an open session goes out on the session that was current at the press, the
press having had a video rectangle. -/
theorem wellFormed_iff_paired (origin : α) (ls : List (Label α))
    (h : exec step (start origin) ls = some st) :
    (∀ i, WellFormed (st.connections i).phases) ↔ Meets step Paired (start origin) ls := by
  have hstart : AllWellFormed (start origin) := fun _ => ⟨[], by simp, List.prefix_rfl⟩
  exact holds_iff_meets (fun _ _ _ => step_spec) ls (inv_start origin) hstart h

/-- A drag on the first session, and a click on the second. -/
def dragAndClick : List (Label (ℕ × ℕ)) :=
  [.accept, .leftDown (some (1, 1)) 100 true, .mouseMove (some (2, 1)) 110 true,
    .mouseMove none 120 true, .leftUp none 130 true, .close 0, .accept,
    .leftDown (some (5, 5)) 200 true, .leftUp (some (5, 5)) 210 true]

theorem wellFormed_iff_paired_dragAndClick :
    ∃ st, exec step (start (0, 0)) dragAndClick = some st ∧
      (st.connections 0).phases = [.began, .moved, .ended] ∧
      (st.connections 1).phases = [.began, .ended] ∧
      ((∀ i, WellFormed (st.connections i).phases) ↔
        Meets step Paired (start (0, 0)) dragAndClick) :=
  ⟨_, rfl, rfl, rfl, wellFormed_iff_paired (0, 0) dragAndClick rfl⟩

/-- A press before the first frame has a rectangle, released after the connection has one. -/
def earlyPress : List (Label (ℕ × ℕ)) :=
  [.accept, .leftDown none 100 true, .leftUp (some (1, 1)) 200 true]

/-- **A stray `ended`.**  The connection gets the end of a touch that never began. -/
theorem earlyPress_strays :
    ∃ st, exec step (start (0, 0)) earlyPress = some st ∧ (st.connections 0).phases = [.ended] ∧
      ¬∀ i, WellFormed (st.connections i).phases := by
  refine ⟨_, rfl, rfl, ?_⟩
  intro h
  have htrack := (track_isSome_iff [Phase.ended]).2 (h 0)
  cases htrack

end OpenDisplay.App.Touch
