import OpenDisplay.App.Config
import OpenDisplay.Lib.Transition

/-!
# The display size in the hello

With `adaptive_resolution` on, a hello announces the size of the client area.  `OnAccept` sends one
on a new session, on the listener thread; `MaybeSendResizeHello`, a tick of the main loop, sends one
when `WM_SIZE` has left `resizeAtMs` set and the window has been still for 500 ms.  Both compute the
size, send it and then store it in `lastHelloWidth` and `lastHelloHeight`, each in separate steps.
The main thread also handles `WM_SIZE`, so the window does not change during a tick.

The state is that of one session from before it is published on; `hellos` lists the sizes sent on
it, newest first.  The session lives and its sends succeed.  A tick can overtake an `OnAccept` that
computed an older size; then the older size is announced last and nothing is pending to correct it.
-/

namespace OpenDisplay.App.AdaptiveHello

open OpenDisplay.Lib.Transition OpenDisplay.App.Config

/-- `RECT`. -/
structure Rect where
  left : ℤ
  top : ℤ
  right : ℤ
  bottom : ℤ

/-- `HelloSize`; `client` is the client rectangle, if there is a window and `GetClientRect` succeeds. -/
def helloSize (config : ReceiverConfig) (client : Option Rect) : DisplaySize :=
  if config.adaptiveResolution then
    match client with
    | none => ⟨config.width, config.height⟩
    | some client => adaptiveDisplaySize config (client.right - client.left)
        (client.bottom - client.top)
  else ⟨config.width, config.height⟩

/-- Where `OnAccept` stands; from `sized` on with the size that it computed. -/
inductive ListenerPc
  /-- Before `session = s`. -/
  | connecting
  /-- Before `HelloSize`. -/
  | published
  /-- Before `SendHello`. -/
  | sized (a : DisplaySize)
  /-- Before `lastHelloWidth.store`. -/
  | sent (a : DisplaySize)
  /-- Before `lastHelloHeight.store`. -/
  | storedWidth (a : DisplaySize)
  | returned
  deriving DecidableEq

/-- Where `MaybeSendResizeHello` stands; `now` and `b` are its clock reading and its size. -/
inductive MainPc
  | idle
  /-- Before `lastHelloWidth.load`. -/
  | sized (now : ℤ) (b : DisplaySize)
  /-- The width is the last one; before `lastHelloHeight.load`. -/
  | sameWidth (now : ℤ) (b : DisplaySize)
  /-- The size is not the last one; before the limiter. -/
  | differs (now : ℤ) (b : DisplaySize)
  /-- `resizeAtMs` is cleared; before `active = session`. -/
  | cleared (now : ℤ) (b : DisplaySize)
  /-- Before `active->SendHello`; `this` if `active` is the session of the state. -/
  | holding (now : ℤ) (b : DisplaySize) (this : Bool)
  /-- Before the stores. -/
  | sent (now : ℤ) (b : DisplaySize)
  | storedWidth (b : DisplaySize)
  deriving DecidableEq

structure State where
  clientWidth : ℕ
  clientHeight : ℕ
  clock : ℤ
  resizeAtMs : ℤ
  lastAdaptiveHelloAtMs : ℤ
  lastHelloWidth : ℤ
  lastHelloHeight : ℤ
  /-- `App::session`: true for the session of the state, false for an older one. -/
  session : Option Bool
  listener : ListenerPc
  main : MainPc
  hellos : List DisplaySize

/-- Any state of the app before the session is published, between two ticks. -/
structure Start (st : State) : Prop where
  session : st.session ≠ some true
  listener : st.listener = .connecting
  main : st.main = .idle
  hellos : st.hellos = []

inductive Label
  | publish
  | helloSize
  | sendHello
  | storeWidth
  | storeHeight
  /-- The client area changes, and `WM_SIZE` tells it. -/
  | wmSize (clientWidth clientHeight : ℕ) (now : ℤ)
  /-- A tick starts: the clock, the debounce and `HelloSize`. -/
  | tick (now : ℤ)
  | tickWidth
  | tickHeight
  | tickLimit
  | tickSession
  | tickSend
  | tickStoreWidth
  | tickStoreHeight

variable (config : ReceiverConfig)

/-- The client rectangle, whose corner is the origin. -/
def State.client (st : State) : Rect := ⟨0, 0, st.clientWidth, st.clientHeight⟩

/-- `resizeAtMs` after a `WM_SIZE` whose `lParam` carries the low 16 bits of each side. -/
def resizeStamp (st : State) (clientWidth clientHeight : ℕ) (now : ℤ) : ℤ :=
  if 0 < clientWidth % 65536 ∧ 0 < clientHeight % 65536 ∧ config.adaptiveResolution = true then now
  else st.resizeAtMs

def step (st : State) : Label → Option State
  | .publish =>
    when (st.listener = .connecting) { st with listener := .published, session := some true }
  | .helloSize =>
    when (st.listener = .published) { st with listener := .sized (helloSize config (some st.client)) }
  | .sendHello =>
    match st.listener with
    | .sized a => some { st with listener := .sent a, hellos := a :: st.hellos }
    | _ => none
  | .storeWidth =>
    match st.listener with
    | .sent a => some { st with listener := .storedWidth a, lastHelloWidth := a.width }
    | _ => none
  | .storeHeight =>
    match st.listener with
    | .storedWidth a => some { st with listener := .returned, lastHelloHeight := a.height }
    | _ => none
  | .wmSize clientWidth clientHeight now =>
    when (st.main = .idle ∧ st.clock ≤ now)
      { st with
        clientWidth
        clientHeight
        clock := now
        resizeAtMs := resizeStamp config st clientWidth clientHeight now }
  | .tick now =>
    when (st.main = .idle ∧ st.clock ≤ now)
      (if config.adaptiveResolution = false ∨ st.resizeAtMs = 0 ∨ now - st.resizeAtMs < 500 then
        { st with clock := now }
      else { st with clock := now, main := .sized now (helloSize config (some st.client)) })
  | .tickWidth =>
    match st.main with
    | .sized now b =>
      some (if b.width = st.lastHelloWidth then { st with main := .sameWidth now b }
        else { st with main := .differs now b })
    | _ => none
  | .tickHeight =>
    match st.main with
    | .sameWidth now b =>
      some (if b.height = st.lastHelloHeight then { st with main := .idle, resizeAtMs := 0 }
        else { st with main := .differs now b })
    | _ => none
  | .tickLimit =>
    match st.main with
    | .differs now b =>
      some (if st.lastAdaptiveHelloAtMs ≠ 0 ∧ now - st.lastAdaptiveHelloAtMs < 20000 then
        { st with main := .idle }
      else { st with main := .cleared now b, resizeAtMs := 0 })
    | _ => none
  | .tickSession =>
    match st.main with
    | .cleared now b =>
      match st.session with
      | some this => some { st with main := .holding now b this }
      | none => some { st with main := .idle }
    | _ => none
  | .tickSend =>
    match st.main with
    | .holding now b this =>
      some { st with main := .sent now b, hellos := if this then b :: st.hellos else st.hellos }
    | _ => none
  | .tickStoreWidth =>
    match st.main with
    | .sent now b =>
      some { st with
        main := .storedWidth b, lastAdaptiveHelloAtMs := now, lastHelloWidth := b.width }
    | _ => none
  | .tickStoreHeight =>
    match st.main with
    | .storedWidth b => some { st with main := .idle, lastHelloHeight := b.height }
    | _ => none

/-- The size that `OnAccept` has computed and not yet sent. -/
@[simp] def ListenerPc.unsent : ListenerPc → Option DisplaySize
  | .sized a => some a
  | _ => none

/-- The size whose width `OnAccept` has sent and not yet stored. -/
@[simp] def ListenerPc.widthDue : ListenerPc → Option DisplaySize
  | .sent a => some a
  | _ => none

/-- The size whose height `OnAccept` has sent and not yet stored. -/
@[simp] def ListenerPc.heightDue : ListenerPc → Option DisplaySize
  | .sent a => some a
  | .storedWidth a => some a
  | _ => none

/-- The size that `OnAccept` holds between `HelloSize` and its last store. -/
@[simp] def ListenerPc.held : ListenerPc → Option DisplaySize
  | .sized a => some a
  | .sent a => some a
  | .storedWidth a => some a
  | _ => none

/-- The tick does not overtake an `OnAccept` that holds another size, and a `WM_SIZE` behind its
`HelloSize` that leaves no request pending found none and does not change the size. -/
def InOrder (st : State) : Label → Prop
  | .wmSize clientWidth clientHeight now =>
    st.listener = .connecting ∨ st.listener = .published ∨
      resizeStamp config st clientWidth clientHeight now ≠ 0 ∨
      st.resizeAtMs = 0 ∧ adaptiveDisplaySize config clientWidth clientHeight =
        adaptiveDisplaySize config st.clientWidth st.clientHeight
  | .tickHeight =>
    match st.main with
    | .sameWidth _ b =>
      b.height = st.lastHelloHeight → (∀ a ∈ st.listener.held, a = b) ∧
        (st.listener = .returned → b.width = st.lastHelloWidth)
    | _ => True
  | .tickSend =>
    match st.main with
    | .holding _ b true => ∀ a ∈ st.listener.unsent, a = b
    | _ => True
  | .tickStoreWidth =>
    match st.main with
    | .sent _ b => ∀ a ∈ st.listener.widthDue, a = b
    | _ => True
  | .tickStoreHeight =>
    match st.main with
    | .storedWidth b => ∀ a ∈ st.listener.heightDue, a = b
    | _ => True
  | _ => True

instance (st : State) (l : Label) : Decidable (InOrder config st l) := by
  unfold InOrder
  split <;> first | infer_instance | (split <;> infer_instance)

/-! ## The invariant -/

/-- The size of the running tick. -/
@[simp] def MainPc.size : MainPc → Option DisplaySize
  | .idle => none
  | .sized _ b => some b
  | .sameWidth _ b => some b
  | .differs _ b => some b
  | .cleared _ b => some b
  | .holding _ b _ => some b
  | .sent _ b => some b
  | .storedWidth b => some b

/-- The tick has not decided yet whether to send. -/
@[simp] def MainPc.deciding : MainPc → Bool
  | .sized _ _ => true
  | .sameWidth _ _ => true
  | .differs _ _ => true
  | _ => false

/-- The tick still has to send on the session of the state. -/
@[simp] def MainPc.owes : MainPc → Bool
  | .cleared _ _ => true
  | .holding _ _ this => this
  | _ => false

/-- The tick has sent and not yet stored. -/
@[simp] def MainPc.storing : MainPc → Bool
  | .sent _ _ => true
  | .storedWidth _ => true
  | _ => false

/-- The size that the Mac has from `OnAccept` on, or is about to get from it. -/
def announced (st : State) : Option DisplaySize :=
  match st.listener with
  | .connecting => none
  | .published => none
  | .sized a => some a
  | _ => st.hellos.head?

/-- The size to announce. -/
@[simp] def target (st : State) : DisplaySize :=
  adaptiveDisplaySize config st.clientWidth st.clientHeight

/-- `OnAccept` is behind `HelloSize`. -/
@[simp] def ListenerPc.pastSize : ListenerPc → Bool
  | .connecting => false
  | .published => false
  | _ => true

structure Inv (st : State) : Prop where
  /-- The window does not change during a tick. -/
  size : ∀ b ∈ st.main.size, b = target config st
  deciding : st.main.deciding = true → st.resizeAtMs ≠ 0
  acting : st.main.size ≠ none → st.main.deciding = false → st.resizeAtMs = 0
  session : st.listener ≠ .connecting → st.session = some true
  covered : st.listener.pastSize = true →
    st.resizeAtMs ≠ 0 ∨ st.main.owes = true ∨ announced st = some (target config st)
  last : st.main.storing = false → ∀ a ∈ st.listener.heightDue, st.hellos.head? = some a
  width : st.main.storing = false → ∀ a, st.listener = .storedWidth a → st.lastHelloWidth = a.width
  stored : st.main.storing = false → st.listener = .returned →
    st.hellos.head? = some ⟨st.lastHelloWidth, st.lastHelloHeight⟩
  tickWidth : ∀ b, st.main = .storedWidth b →
    st.lastHelloWidth = b.width ∧ ∀ a ∈ st.listener.widthDue, a = b

variable {config : ReceiverConfig} {st st' : State}

theorem helloSize_client (hadaptive : config.adaptiveResolution = true) :
    helloSize config (some st.client) = target config st := by
  simp [helloSize, hadaptive, State.client]

theorem inv_start (h : Start st) : Inv config st := by
  obtain ⟨-, hl, hm, -⟩ := h
  constructor <;> simp [hl, hm, MainPc.size, MainPc.deciding, ListenerPc.pastSize,
    ListenerPc.heightDue]

/-- The tick neither decides nor owes, so what is announced is the size to announce. -/
theorem Inv.announced_eq (h : Inv config st) (hp : st.listener.pastSize = true)
    (hsize : st.main.size ≠ none) (hd : st.main.deciding = false) (ho : st.main.owes = false) :
    announced st = some (target config st) := by
  have hzero : st.resizeAtMs = 0 := h.acting hsize hd
  rcases h.covered hp with hne | howes | ha
  · exact absurd hzero hne
  · exact absurd (ho.symm.trans howes) Bool.false_ne_true
  · exact ha

theorem ListenerPc.returned_or_held {l : ListenerPc} (hp : l.pastSize = true) :
    l = .returned ∨ ∃ a, a ∈ l.held := by
  cases l with
  | connecting => simp at hp
  | published => simp at hp
  | sized a => exact .inr ⟨a, rfl⟩
  | sent a => exact .inr ⟨a, rfl⟩
  | storedWidth a => exact .inr ⟨a, rfl⟩
  | returned => exact .inl rfl

theorem ListenerPc.ne_connecting {l : ListenerPc} (hp : l.pastSize = true) : l ≠ .connecting := by
  rintro rfl
  simp at hp

theorem ListenerPc.of_heightDue {l : ListenerPc} {a : DisplaySize} (ha : a ∈ l.heightDue) :
    l.pastSize = true ∧ l.unsent = none := by
  cases l <;> simp at ha ⊢

theorem announced_eq_head (hp : st.listener.pastSize = true) (hu : st.listener.unsent = none) :
    announced st = st.hellos.head? := by
  unfold announced
  cases hl : st.listener <;> simp [hl] at hp hu ⊢

theorem announced_unsent {a : DisplaySize} (hu : st.listener.unsent = some a) :
    announced st = some a := by
  unfold announced
  cases hl : st.listener <;> simp_all

/-- While no tick is storing, the Mac has or gets the size that `OnAccept` holds. -/
theorem Inv.announced_held {a : DisplaySize} (h : Inv config st) (hm : st.main.storing = false)
    (ha : a ∈ st.listener.held) : announced st = some a := by
  have hlast := h.last hm a
  unfold announced
  cases hl : st.listener <;> simp_all

theorem Inv.announced_returned (h : Inv config st) (hm : st.main.storing = false)
    (hret : st.listener = .returned) :
    announced st = some ⟨st.lastHelloWidth, st.lastHelloHeight⟩ := by
  rw [announced_eq_head (by simp [hret]) (by simp [hret])]
  exact h.stored hm hret

/-! ### The steps of `OnAccept` -/

theorem Inv.publish (h : Inv config st) :
    Inv config { st with listener := .published, session := some true } where
  size := h.size
  deciding := h.deciding
  acting := h.acting
  session := by simp
  covered := by simp
  last := by simp
  width := by simp
  stored := by simp
  tickWidth b hb := ⟨(h.tickWidth b hb).1, by simp⟩

theorem Inv.helloSize (hadaptive : config.adaptiveResolution = true) (h : Inv config st)
    (hl : st.listener = .published) :
    Inv config { st with listener := .sized (helloSize config (some st.client)) } where
  size := h.size
  deciding := h.deciding
  acting := h.acting
  session _ := h.session (by simp [hl])
  covered _ := by
    right; right
    simp [announced, helloSize_client hadaptive]
  last := by simp
  width := by simp
  stored := by simp
  tickWidth b hb := ⟨(h.tickWidth b hb).1, by simp⟩

theorem Inv.sendHello {a : DisplaySize} (h : Inv config st) (hl : st.listener = .sized a) :
    Inv config { st with listener := .sent a, hellos := a :: st.hellos } where
  size := h.size
  deciding := h.deciding
  acting := h.acting
  session _ := h.session (by simp [hl])
  covered _ := by
    refine (h.covered (by simp [hl])).imp_right (.imp_right fun ha => ?_)
    simpa [announced, hl] using ha
  last := by simp
  width := by simp
  stored := by simp
  tickWidth b hb := by
    change st.main = .storedWidth b at hb
    have ha : announced st = some (target config st) :=
      h.announced_eq (by simp [hl]) (by simp [hb]) (by simp [hb]) (by simp [hb])
    have hsize : b = target config st := h.size b (by simp [hb])
    refine ⟨(h.tickWidth b hb).1, ?_⟩
    simpa [announced, hl, hsize] using ha

theorem Inv.storeWidth {a : DisplaySize} (h : Inv config st) (hl : st.listener = .sent a) :
    Inv config { st with listener := .storedWidth a, lastHelloWidth := a.width } where
  size := h.size
  deciding := h.deciding
  acting := h.acting
  session _ := h.session (by simp [hl])
  covered _ := by
    refine (h.covered (by simp [hl])).imp_right (.imp_right fun ha => ?_)
    simpa [announced, hl] using ha
  last hm := by simpa [hl] using h.last hm
  width := by simp
  stored := by simp
  tickWidth b hb := by
    have hab : a = b := (h.tickWidth b hb).2 a (by simp [hl])
    simp [hab]

theorem Inv.storeHeight {a : DisplaySize} (h : Inv config st) (hl : st.listener = .storedWidth a) :
    Inv config { st with listener := .returned, lastHelloHeight := a.height } where
  size := h.size
  deciding := h.deciding
  acting := h.acting
  session _ := h.session (by simp [hl])
  covered _ := by
    refine (h.covered (by simp [hl])).imp_right (.imp_right fun ha => ?_)
    simpa [announced, hl] using ha
  last := by simp
  width := by simp
  stored hm _ := by
    have hhead : st.hellos.head? = some a := h.last hm a (by simp [hl])
    have hwidth : st.lastHelloWidth = a.width := h.width hm a hl
    simp [hhead, hwidth]
  tickWidth b hb := ⟨(h.tickWidth b hb).1, by simp⟩

/-! ### The steps of the main thread -/

theorem Inv.wmSize {clientWidth clientHeight : ℕ} {now : ℤ} (h : Inv config st)
    (hm : st.main = .idle) (hok : InOrder config st (.wmSize clientWidth clientHeight now)) :
    Inv config { st with
      clientWidth
      clientHeight
      clock := now
      resizeAtMs := resizeStamp config st clientWidth clientHeight now } where
  size := by simp [hm]
  deciding := by simp [hm]
  acting := by simp [hm]
  session := h.session
  covered hp := by
    rcases hok with hl | hl | hne | ⟨hzero, hsame⟩
    · simp [hl] at hp
    · simp [hl] at hp
    · exact .inl hne
    · rcases h.covered hp with hne | howes | ha
      · exact absurd hzero hne
      · simp [hm] at howes
      · right; right
        rw [target, hsame]
        exact ha
  last := h.last
  width := h.width
  stored := h.stored
  tickWidth := h.tickWidth

/-- The tick goes over to `m` without sending or storing. -/
theorem Inv.goTo (m : MainPc) (h : Inv config st) (hsize : ∀ b ∈ m.size, b = target config st)
    (hdeciding : m.deciding = true → st.resizeAtMs ≠ 0)
    (hacting : m.size ≠ none → m.deciding = false → st.resizeAtMs = 0)
    (howes : st.listener.pastSize = true → st.main.owes = true → m.owes = true)
    (hold : st.main.storing = false) (hnew : m.storing = false) :
    Inv config { st with main := m } where
  size := hsize
  deciding := hdeciding
  acting := hacting
  session := h.session
  covered hp := (h.covered hp).imp_right (.imp_left (howes hp))
  last _ := h.last hold
  width _ := h.width hold
  stored _ := h.stored hold
  tickWidth b hb := by
    change m = _ at hb
    simp [hb] at hnew

theorem Inv.goIdle (h : Inv config st) (ho : st.listener.pastSize = true → st.main.owes = false)
    (hold : st.main.storing = false) : Inv config { st with main := .idle } := by
  refine h.goTo .idle (by simp) (by simp) (by simp) ?_ hold rfl
  intro hp howes
  exact absurd ((ho hp).symm.trans howes) Bool.false_ne_true

theorem Inv.goDeciding {m : MainPc} (h : Inv config st) (hpend : st.resizeAtMs ≠ 0)
    (hsize : m.size = some (target config st)) (hm : m.deciding = true)
    (ho : st.main.owes = false) (hold : st.main.storing = false) :
    Inv config { st with main := m } := by
  refine h.goTo m ?_ (fun _ => hpend) ?_ ?_ hold ?_
  · intro b hb
    rw [hsize] at hb
    exact (Option.mem_some_iff.1 hb).symm
  · intro _ hd
    exact absurd (hd.symm.trans hm) Bool.false_ne_true
  · intro _ howes
    exact absurd (ho.symm.trans howes) Bool.false_ne_true
  · cases m <;> simp at hm ⊢

theorem Inv.passTime (h : Inv config st) (clock : ℤ) : Inv config { st with clock } :=
  ⟨h.size, h.deciding, h.acting, h.session, h.covered, h.last, h.width, h.stored, h.tickWidth⟩

theorem Inv.tick {now : ℤ} (hadaptive : config.adaptiveResolution = true) (h : Inv config st)
    (hm : st.main = .idle) (hpend : st.resizeAtMs ≠ 0) :
    Inv config
      { st with clock := now, main := .sized now (AdaptiveHello.helloSize config (some st.client)) } := by
  refine (h.passTime now).goDeciding hpend ?_ rfl (by simp [hm]) (by simp [hm])
  simp [helloSize_client hadaptive]

theorem Inv.tickWidthLoad {now : ℤ} {b : DisplaySize} (h : Inv config st)
    (hm : st.main = .sized now b) :
    Inv config { st with main := .sameWidth now b } ∧
      Inv config { st with main := .differs now b } := by
  have hpend : st.resizeAtMs ≠ 0 := h.deciding (by simp [hm])
  have hsize : b = target config st := h.size b (by simp [hm])
  constructor
  · exact h.goDeciding hpend (congrArg some hsize) rfl (by simp [hm]) (by simp [hm])
  · exact h.goDeciding hpend (congrArg some hsize) rfl (by simp [hm]) (by simp [hm])

theorem Inv.tickHeightLoad {now : ℤ} {b : DisplaySize} (h : Inv config st)
    (hm : st.main = .sameWidth now b) : Inv config { st with main := .differs now b } := by
  have hpend : st.resizeAtMs ≠ 0 := h.deciding (by simp [hm])
  have hsize : b = target config st := h.size b (by simp [hm])
  exact h.goDeciding hpend (congrArg some hsize) rfl (by simp [hm]) (by simp [hm])

/-- Whatever session the tick gets, it is the one of the state if `OnAccept` computed a size. -/
theorem Inv.tickSession {now : ℤ} {b : DisplaySize} {this : Bool} (h : Inv config st)
    (hm : st.main = .cleared now b) (hs : st.session = some this) :
    Inv config { st with main := .holding now b this } := by
  have hzero : st.resizeAtMs = 0 := h.acting (by simp [hm]) (by simp [hm])
  have hsize : b = target config st := h.size b (by simp [hm])
  refine h.goTo _ ?_ (by simp) (fun _ _ => hzero) ?_ (by simp [hm]) rfl
  · rintro c ⟨⟩
    exact hsize
  · intro hp _
    have hthis : st.session = some true := h.session (ListenerPc.ne_connecting hp)
    exact Option.some.inj (hs.symm.trans hthis)

theorem Inv.tickNoSession {now : ℤ} {b : DisplaySize} (h : Inv config st)
    (hm : st.main = .cleared now b) (hs : st.session = none) :
    Inv config { st with main := .idle } := by
  refine h.goIdle ?_ (by simp [hm])
  intro hp
  have hthis : st.session = some true := h.session (ListenerPc.ne_connecting hp)
  simp [hs] at hthis

theorem Inv.announced_unchanged {now : ℤ} {b : DisplaySize} (h : Inv config st)
    (hm : st.main = .sameWidth now b) (hheight : b.height = st.lastHelloHeight)
    (hok : InOrder config st .tickHeight) (hp : st.listener.pastSize = true) :
    announced st = some b := by
  have hstoring : st.main.storing = false := by simp [hm]
  rw [InOrder, hm] at hok
  obtain ⟨hheld, hwidth⟩ := hok hheight
  rcases ListenerPc.returned_or_held hp with hret | ⟨a, ha⟩
  · rw [h.announced_returned hstoring hret, ← hwidth hret, ← hheight]
  · rw [← hheld a ha]
    exact h.announced_held hstoring ha

theorem Inv.unchanged {now : ℤ} {b : DisplaySize} (h : Inv config st)
    (hm : st.main = .sameWidth now b) (hheight : b.height = st.lastHelloHeight)
    (hok : InOrder config st .tickHeight) :
    Inv config { st with main := .idle, resizeAtMs := 0 } where
  size := by simp
  deciding := by simp
  acting := by simp
  session := h.session
  covered hp := by
    right; right
    have hsize : b = target config st := h.size b (by simp [hm])
    exact hsize ▸ h.announced_unchanged hm hheight hok hp
  last _ := h.last (by simp [hm])
  width _ := h.width (by simp [hm])
  stored _ := h.stored (by simp [hm])
  tickWidth := by simp

theorem Inv.clear {now : ℤ} {b : DisplaySize} (h : Inv config st) (hm : st.main = .differs now b) :
    Inv config { st with main := .cleared now b, resizeAtMs := 0 } where
  size := by simpa [hm] using h.size
  deciding := by simp
  acting := by simp
  session := h.session
  covered _ := by
    right; left
    simp
  last _ := h.last (by simp [hm])
  width _ := h.width (by simp [hm])
  stored _ := h.stored (by simp [hm])
  tickWidth := by simp

theorem Inv.tickSend {now : ℤ} {b : DisplaySize} {this : Bool} (h : Inv config st)
    (hm : st.main = .holding now b this) (hok : InOrder config st .tickSend) :
    Inv config { st with
      main := .sent now b, hellos := if this then b :: st.hellos else st.hellos } where
  size := by simpa [hm] using h.size
  deciding := by simp
  acting _ _ := h.acting (by simp [hm]) (by simp [hm])
  session := h.session
  covered := by
    intro (hp : st.listener.pastSize = true)
    right; right
    cases this with
    | false => exact h.announced_eq hp (by simp [hm]) (by simp [hm]) (by simp [hm])
    | true =>
      have hsize : b = target config st := h.size b (by simp [hm])
      rw [InOrder, hm] at hok
      refine Eq.trans ?_ (congrArg some hsize)
      -- the tick sends behind `OnAccept`, or `OnAccept` sends the same size behind the tick
      cases hu : st.listener.unsent with
      | none => exact announced_eq_head hp hu
      | some a =>
        rw [← hok a hu]
        exact announced_unsent hu
  last := by simp
  width := by simp
  stored := by simp
  tickWidth := by simp

theorem Inv.tickStoreWidth {now : ℤ} {b : DisplaySize} (h : Inv config st)
    (hm : st.main = .sent now b) (hok : InOrder config st .tickStoreWidth) :
    Inv config { st with
      main := .storedWidth b, lastAdaptiveHelloAtMs := now, lastHelloWidth := b.width } where
  size := by simpa [hm] using h.size
  deciding := by simp
  acting _ _ := h.acting (by simp [hm]) (by simp [hm])
  session := h.session
  covered hp := by
    right; right
    exact h.announced_eq hp (by simp [hm]) (by simp [hm]) (by simp [hm])
  last := by simp
  width := by simp
  stored := by simp
  tickWidth := by
    rw [InOrder, hm] at hok
    rintro c ⟨⟩
    exact ⟨rfl, hok⟩

theorem Inv.announced_storedWidth {b : DisplaySize} (h : Inv config st)
    (hm : st.main = .storedWidth b) (hp : st.listener.pastSize = true) :
    announced st = some b := by
  rw [h.size b (by simp [hm])]
  exact h.announced_eq hp (by simp [hm]) (by simp [hm]) (by simp [hm])

theorem Inv.tickStoreHeight {b : DisplaySize} (h : Inv config st)
    (hm : st.main = .storedWidth b) (hok : InOrder config st .tickStoreHeight) :
    Inv config { st with main := .idle, lastHelloHeight := b.height } where
  size := by simp
  deciding := by simp
  acting := by simp
  session := h.session
  covered hp := by
    right; right
    exact h.announced_eq hp (by simp [hm]) (by simp [hm]) (by simp [hm])
  last := by
    intro _ a (ha : a ∈ st.listener.heightDue)
    obtain ⟨hp, hu⟩ := ListenerPc.of_heightDue ha
    rw [InOrder, hm] at hok
    rw [hok a ha, ← h.announced_storedWidth hm hp]
    exact (announced_eq_head hp hu).symm
  width := by
    intro _ a (hl : st.listener = .storedWidth a)
    rw [InOrder, hm] at hok
    rw [hok a (by simp [hl])]
    exact (h.tickWidth b hm).1
  stored := by
    intro _ (hret : st.listener = .returned)
    have hp : st.listener.pastSize = true := by simp [hret]
    have hhead : st.hellos.head? = some b :=
      (announced_eq_head hp (by simp [hret])).symm.trans (h.announced_storedWidth hm hp)
    simp [hhead, (h.tickWidth b hm).1]
  tickWidth := by simp

/-! ## The run -/

theorem inv_step (hadaptive : config.adaptiveResolution = true) (st : State) (l : Label)
    (st' : State) (h : Inv config st) (hok : InOrder config st l)
    (hs : step config st l = some st') : Inv config st' := by
  cases l with
  | publish =>
    obtain ⟨-, rfl⟩ := when_eq_some.1 hs
    exact h.publish
  | helloSize =>
    obtain ⟨hl, rfl⟩ := when_eq_some.1 hs
    exact h.helloSize hadaptive hl
  | sendHello =>
    simp only [step] at hs
    split at hs <;> cases hs
    next a hl => exact h.sendHello hl
  | storeWidth =>
    simp only [step] at hs
    split at hs <;> cases hs
    next a hl => exact h.storeWidth hl
  | storeHeight =>
    simp only [step] at hs
    split at hs <;> cases hs
    next a hl => exact h.storeHeight hl
  | wmSize clientWidth clientHeight now =>
    obtain ⟨⟨hm, -⟩, rfl⟩ := when_eq_some.1 hs
    exact h.wmSize hm hok
  | tick now =>
    obtain ⟨⟨hm, -⟩, rfl⟩ := when_eq_some.1 hs
    split
    · exact h.passTime now
    · next hgo =>
      refine h.tick hadaptive hm ?_
      intro hzero
      exact hgo (.inr (.inl hzero))
  | tickWidth =>
    simp only [step] at hs
    split at hs <;> cases hs
    next now b hm =>
      split
      · exact (h.tickWidthLoad hm).1
      · exact (h.tickWidthLoad hm).2
  | tickHeight =>
    simp only [step] at hs
    split at hs <;> cases hs
    next now b hm =>
      split
      · next hheight => exact h.unchanged hm hheight hok
      · exact h.tickHeightLoad hm
  | tickLimit =>
    simp only [step] at hs
    split at hs <;> cases hs
    next now b hm =>
      split
      · exact h.goIdle (by simp [hm]) (by simp [hm])
      · exact h.clear hm
  | tickSession =>
    simp only [step] at hs
    split at hs
    · next now b hm =>
      split at hs <;> cases hs
      · next this hsession => exact h.tickSession hm hsession
      · next hsession => exact h.tickNoSession hm hsession
    · cases hs
  | tickSend =>
    simp only [step] at hs
    split at hs <;> cases hs
    next now b this hm => exact h.tickSend hm hok
  | tickStoreWidth =>
    simp only [step] at hs
    split at hs <;> cases hs
    next now b hm => exact h.tickStoreWidth hm hok
  | tickStoreHeight =>
    simp only [step] at hs
    split at hs <;> cases hs
    next b hm => exact h.tickStoreHeight hm hok

variable {st₀ : State}

/-- **The announced size converges to the window on the runs in order.** -/
theorem announced_size_converges (hadaptive : config.adaptiveResolution = true) (hstart : Start st₀)
    (hreach : Reaches (step config) (InOrder config) st₀ st)
    (hreturned : st.listener = .returned) (hidle : st.main = .idle) (hzero : st.resizeAtMs = 0) :
    st.hellos.head? = some (adaptiveDisplaySize config st.clientWidth st.clientHeight) := by
  have hinv : Inv config st := hreach.invariant (inv_start hstart) (inv_step hadaptive)
  have hp : st.listener.pastSize = true := by simp [hreturned]
  rcases hinv.covered hp with hne | howes | ha
  · exact absurd hzero hne
  · simp [hidle] at howes
  · rw [← announced_eq_head hp (by simp [hreturned])]
    exact ha

/-! ## Two runs -/

def adaptive : ReceiverConfig := { width := 1920, height := 1080, adaptiveResolution := true }

/-- The app with a client area of 1000 by 800, before its first session. -/
def fresh : State :=
  { clientWidth := 1000, clientHeight := 800, clock := 0, resizeAtMs := 0,
    lastAdaptiveHelloAtMs := 0, lastHelloWidth := 0, lastHelloHeight := 0, session := none,
    listener := .connecting, main := .idle, hellos := [] }

theorem start_fresh : Start fresh := ⟨by simp [fresh], rfl, rfl, rfl⟩

/-- `OnAccept` up to its `HelloSize`, and the rest of it. -/
def acceptSize : List Label := [.publish, .helloSize]

def acceptSend : List Label := [.sendHello, .storeWidth, .storeHeight]

/-- The window is resized, and 500 ms later a tick announces it. -/
def resize : List Label :=
  [.wmSize 1201 900 1000, .tick 1500, .tickWidth, .tickLimit, .tickSession, .tickSend,
    .tickStoreWidth, .tickStoreHeight]

/-- A session whose window is resized once it is greeted. -/
def resizedRun : List Label := acceptSize ++ acceptSend ++ resize

/-- The window is resized after `HelloSize`, and the tick comes before `SendHello`. -/
def overtakenRun : List Label := acceptSize ++ resize ++ acceptSend

theorem exec_resizedRun : (exec (step adaptive) fresh resizedRun).isSome = true := by
  decide

theorem announced_size_converges_resizedRun :
    ∃ st, exec (step adaptive) fresh resizedRun = some st ∧
      st.hellos = [⟨1200, 900⟩, ⟨1000, 800⟩] ∧
      st.hellos.head? = some (adaptiveDisplaySize adaptive st.clientWidth st.clientHeight) := by
  have hst := (Option.some_get exec_resizedRun).symm
  refine ⟨_, hst, by decide, ?_⟩
  exact announced_size_converges rfl start_fresh
    (reaches_of_exec resizedRun (by decide) hst)
    (by decide) (by decide) (by decide)

theorem exec_overtakenRun : (exec (step adaptive) fresh overtakenRun).isSome = true := by
  decide

/-- **A tick overtakes `OnAccept`.**  Nothing is pending behind the older size, announced last. -/
theorem overtakenRun_announces_stale :
    ∃ st, Reaches (step adaptive) (fun _ _ => True) fresh st ∧ st.listener = .returned ∧
      st.main = .idle ∧ st.resizeAtMs = 0 ∧
      st.hellos.head? ≠ some (adaptiveDisplaySize adaptive st.clientWidth st.clientHeight) := by
  have hst := (Option.some_get exec_overtakenRun).symm
  exact ⟨_, reaches_of_exec overtakenRun (by decide) hst, by decide⟩

end OpenDisplay.App.AdaptiveHello
