import OpenDisplay.Lib.SharedPtr
import OpenDisplay.Render.PresentRuns

/-!
# The presentation loop

The decode thread publishes a frame in `latestFrame` and sets an event; `App::Run` waits for the event
or for a message, takes a copy of `latestFrame` and presents it if the pointer differs from the one
presented last.  The frames are shared pointers, and the address of a frame that was freed may be used
again for a newer one.

The pointers can be read as the frames themselves (`pointer_test_exact`): the loop tells frames apart
by their addresses, and is right to do so.
-/

namespace OpenDisplay.App.PresentLoop

open OpenDisplay.Lib.SharedPtr OpenDisplay.Lib.Transition
open OpenDisplay.Render.Present (Renderer ResizeOutcome PresentOutcome InitOutcome)
open OpenDisplay.Render.PresentRuns
open OpenDisplay.Video.Decoder (DecodedFrame)
open OpenDisplay.Video.DecoderFrames (Whole whole_of_run)
open OpenDisplay.Video.DecoderDiscipline (Submission)

/-! ## The code -/

/-- The shared pointers to frames: `frame` of `PublishNv12`, `f` of `onFrame`, the two members, and
`latest` of `Run`. -/
inductive Var
  | frame
  | f
  | latestFrame
  | latest
  | lastPresentedFrame
  deriving DecidableEq

instance : Fintype Var where
  elems := {.frame, .f, .latestFrame, .latest, .lastPresentedFrame}
  complete k := by cases k <;> decide

/-- A frame with the number of frames that were published before it. -/
structure Published where
  number : ℕ
  frame : DecodedFrame

/-- Where the decode thread stands. -/
inductive DecodePc
  | decoding
  /-- In `onFrame`. -/
  | called
  | stored
  | signalled
  deriving DecidableEq

/-- Where `Run` stands. -/
inductive MainPc
  | waiting
  | dispatching
  | reading
  | testing
  | presenting
  | presented
  /-- At the end of the body of the loop. -/
  | ending
  | left
  deriving DecidableEq

/-- A call of `Renderer::Present`. -/
structure PresentCall where
  frame : Option Published
  newFrame : Bool

structure Loop where
  pool : Pool Var Published
  decode : DecodePc
  /-- `frameEvent` is set. -/
  event : Bool
  main : MainPc
  running : Bool
  redrawNeeded : Bool
  newFrame : Bool
  renderer : Renderer
  /-- What was published, oldest first. -/
  published : List DecodedFrame
  /-- The calls of `Present`, newest first. -/
  calls : List PresentCall
  /-- How often the body of the loop was passed. -/
  turns : ℕ

/-- `Run` is entered; `Setup` has left the renderer like this. -/
def initial (r : Renderer) : Loop where
  pool := Pool.empty
  decode := .decoding
  event := false
  main := .waiting
  running := true
  redrawNeeded := true
  newFrame := false
  renderer := r
  published := []
  calls := []
  turns := 0

inductive Label
  /-- `PublishNv12` has made and filled a frame at a free address, and calls `onFrame`. -/
  | publish (a : ℕ) (frame : DecodedFrame)
  | store
  | setEvent
  | publishReturns
  /-- `MsgWaitForMultipleObjectsEx` returns, for the event or for something else. -/
  | wake (signalled : Bool)
  /-- `WM_SIZE`, not minimized. -/
  | size (w h : ℤ) (o : ResizeOutcome)
  | paint
  | close
  /-- No message is left. -/
  | dispatched
  | readLatest
  | test
  | present (o : PresentOutcome)
  | remember
  | turn

/-- Nothing new is to be drawn. -/
def Loop.Idle (st : Loop) : Prop :=
  st.redrawNeeded = false ∧ st.pool.vars .latest = st.pool.vars .lastPresentedFrame

instance (st : Loop) : Decidable st.Idle := by
  unfold Loop.Idle
  infer_instance

def step (st : Loop) : Label → Option Loop
  | .publish a frame =>
    when (st.decode = .decoding ∧ (st.pool.heap a).isNone)
      { st with
        pool := (st.pool.make .frame a ⟨st.published.length, frame⟩).assign .f .frame
        decode := .called
        published := st.published ++ [frame] }
  | .store =>
    when (st.decode = .called) { st with pool := st.pool.take .latestFrame .f, decode := .stored }
  | .setEvent => when (st.decode = .stored) { st with event := true, decode := .signalled }
  | .publishReturns =>
    when (st.decode = .signalled) { st with pool := st.pool.reset .frame, decode := .decoding }
  | .wake signalled =>
    when (st.main = .waiting ∧ (signalled = true → st.event = true))
      -- the event resets itself when it ends a wait
      { st with main := .dispatching, event := if signalled then false else st.event }
  | .size w h o =>
    when (st.main = .dispatching ∧ 0 < w ∧ 0 < h)
      { st with renderer := st.renderer.resize w h o, redrawNeeded := true }
  | .paint => when (st.main = .dispatching) { st with redrawNeeded := true }
  | .close => when (st.main = .dispatching) { st with running := false }
  | .dispatched =>
    when (st.main = .dispatching) { st with main := if st.running then .reading else .left }
  | .readLatest =>
    when (st.main = .reading) { st with pool := st.pool.assign .latest .latestFrame, main := .testing }
  | .test =>
    when (st.main = .testing)
      { st with
        newFrame := decide (st.pool.vars .latest ≠ st.pool.vars .lastPresentedFrame)
        main := if st.Idle then .ending else .presenting
        redrawNeeded := false }
  | .present o =>
    when (st.main = .presenting)
      { st with
        renderer := st.renderer.present ((st.pool.get .latest).map Published.frame) o
        calls := ⟨st.pool.get .latest, st.newFrame⟩ :: st.calls
        main := .presented }
  | .remember =>
    when (st.main = .presented)
      { st with pool := st.pool.assign .lastPresentedFrame .latest, main := .ending }
  | .turn =>
    when (st.main = .ending)
      { st with pool := st.pool.reset .latest, main := .waiting, turns := st.turns + 1 }

/-! ## Memory -/

/-- What the pointers rest on: sound counts, and cells that hold what was published, each frame once. -/
structure Memory (st : Loop) : Prop where
  sound : Sound st.pool
  content : ∀ a, ∀ c ∈ st.pool.heap a, st.published[c.value.number]? = some c.value.frame
  distinct : Distinct st.pool.heap

variable {st st' : Loop} {l : Label} {r : Renderer}

theorem memory_initial : Memory (initial r) where
  sound := sound_empty
  content a c hc := by cases hc
  distinct a b c d hc := by cases hc

/-- The heap only loses cells. -/
theorem Memory.of_keeps {P : Pool Var Published} (h : Memory st) (hsound : Sound P)
    (hkeeps : Keeps st.pool.heap P.heap) : Memory { st with pool := P } where
  sound := hsound
  content a c hc := by
    obtain ⟨c', hc', hv⟩ := hkeeps a c hc
    exact hv ▸ h.content a c' hc'
  distinct := h.distinct.of_keeps hkeeps

theorem Memory.assign (h : Memory st) (k j : Var) : Memory { st with pool := st.pool.assign k j } :=
  h.of_keeps (h.sound.assign k j) (keeps_retain.trans keeps_release)

theorem Memory.reset (h : Memory st) (k : Var) : Memory { st with pool := st.pool.reset k } :=
  h.of_keeps (h.sound.reset k) keeps_release

theorem Memory.take (h : Memory st) {k j : Var} (hne : j ≠ k) : Memory { st with pool := st.pool.take k j } :=
  h.of_keeps (h.sound.take hne) keeps_release

theorem Memory.make (h : Memory st) {a : ℕ} (hfree : st.pool.heap a = none) (k : Var)
    (frame : DecodedFrame) :
    Memory { st with
      pool := st.pool.make k a ⟨st.published.length, frame⟩
      published := st.published ++ [frame] } where
  sound := h.sound.make hfree k _
  content b c hc := by
    rcases heap_make st.pool k b hc with ⟨-, hv⟩ | ⟨c', hc', hv⟩
    · rw [hv]
      exact List.getElem?_concat_length
    · have hold := h.content b c' hc'
      rw [hv] at hold
      obtain ⟨hlt, -⟩ := List.getElem?_eq_some_iff.1 hold
      exact (List.getElem?_append_left hlt).trans hold
  distinct := by
    refine h.distinct.make ?_ k
    intro b c hc heq
    obtain ⟨hlt, -⟩ := List.getElem?_eq_some_iff.1 (h.content b c hc)
    rw [heq] at hlt
    exact Nat.lt_irrefl _ hlt

theorem Memory.congr (h : Memory st) (hpool : st'.pool = st.pool) (hpub : st'.published = st.published) :
    Memory st' :=
  ⟨hpool ▸ h.sound, by rw [hpool, hpub]; exact h.content, hpool ▸ h.distinct⟩

theorem memory_step (h : Memory st) (hs : step st l = some st') : Memory st' := by
  cases l <;> simp only [step, when_eq_some] at hs <;> obtain ⟨hg, rfl⟩ := hs
  case publish a frame =>
    have hmake := h.make (Option.isNone_iff_eq_none.1 hg.2) .frame frame
    exact (hmake.assign .f .frame).congr rfl rfl
  case store => exact (h.take (by decide)).congr rfl rfl
  case publishReturns => exact (h.reset .frame).congr rfl rfl
  case readLatest => exact (h.assign .latest .latestFrame).congr rfl rfl
  case remember => exact (h.assign .lastPresentedFrame .latest).congr rfl rfl
  case turn => exact (h.reset .latest).congr rfl rfl
  all_goals exact h.congr rfl rfl

theorem memory_of_reaches {ok : Loop → Label → Prop} (h : Reaches step ok (initial r) st) : Memory st :=
  h.invariant memory_initial fun _ _ _ hm _ hs => memory_step hm hs

/-- **The test of the pointers is exact** in every reached state: two of the pointers are equal exactly
if they point to the same publication, none of them dangles, each points to the frame as it was
published, and a frame that no pointer holds is gone. -/
theorem pointer_test_exact {ok : Loop → Label → Prop} (h : Reaches step ok (initial r) st) :
    (∀ j k, st.pool.vars j = st.pool.vars k ↔ st.pool.get j = st.pool.get k) ∧
      (∀ k a, st.pool.vars k = some a → ∃ c, st.pool.heap a = some c ∧
        st.published[c.value.number]? = some c.value.frame) ∧
      ∀ a, (st.pool.heap a).isSome → ∃ k, st.pool.vars k = some a := by
  have hm := memory_of_reaches h
  refine ⟨vars_eq_iff hm.sound hm.distinct, ?_, ?_⟩
  · intro k a hk
    obtain ⟨c, hc⟩ := Option.isSome_iff_exists.1 (hm.sound.alive hk)
    exact ⟨c, hc, hm.content a c hc⟩
  · intro a ha
    exact hm.sound.owned ha

/-- The decode thread publishes a frame at the address. -/
def publishing (a : ℕ) : List Label := [.publish a picture, .store, .setEvent, .publishReturns]

/-- The loop wakes up for the event and presents. -/
def presenting : List Label :=
  [.wake true, .dispatched, .readLatest, .test,
    .present ⟨true, true, true, some ⟨4, List.replicate 12 0⟩⟩, .remember, .turn]

/-- Three frames, the last one at the address of the first. -/
def threeFrames : List Label :=
  publishing 0 ++ presenting ++ publishing 1 ++ presenting ++ publishing 0 ++ presenting

/-- A renderer with its swap chain. -/
def ready : Renderer := Render.Present.initial.init 640 480 ⟨true, ⟨true, true⟩⟩

theorem pointer_test_exact_reused :
    ∃ st, exec step (initial ready) (publishing 0 ++ presenting ++ publishing 1 ++ presenting ++
        publishing 0) = some st ∧ st.pool.vars .latestFrame = some 0 ∧
      ((∀ j k, st.pool.vars j = st.pool.vars k ↔ st.pool.get j = st.pool.get k) ∧
        (∀ k a, st.pool.vars k = some a → ∃ c, st.pool.heap a = some c ∧
          st.published[c.value.number]? = some c.value.frame) ∧
        ∀ a, (st.pool.heap a).isSome → ∃ k, st.pool.vars k = some a) := by
  have hmeets : Meets step (fun _ _ => True) (initial ready)
      (publishing 0 ++ presenting ++ publishing 1 ++ presenting ++ publishing 0) :=
    meets_of_forall (fun _ _ _ => trivial) _
  refine ⟨_, rfl, rfl, pointer_test_exact (reaches_of_exec _ hmeets rfl)⟩

end OpenDisplay.App.PresentLoop
