import Mathlib.Data.Nat.Notation
import Mathlib.Logic.Function.Basic
import OpenDisplay.Lib.Store
import OpenDisplay.Lib.Transition

/-!
# The sessions of the app and the threads that share them

The part of `App` that owns connections, as a transition system.  Five kinds of threads take part:
the listener thread (`App::OnAccept`), the main thread (`ReapEndedSession`, `MaybeSendResizeHello`,
`TearDown` and the sends of the window procedure), the decode thread (`onRequestKeyframe`) and the
read thread of every session (`Session::ReadLoop` with the callbacks that `OnAccept` gave it).

A `net::Session` is kept alive by strong references.  The variables that hold one are `App::session`,
the locals `replaced` and `s` of `OnAccept`, the old value that the assignment `session = s` is about
to drop, the one local of the main thread (`toDestroy`, `active` or the `s` of `TearDown`) and the
`shared_ptr` that a callback of the session obtained from its `weak_ptr`.  Each acquire and each
release is one step, and so is every critical section of `sessionMutex` that does nothing between
the lock and the unlock but read, write and send.  The sections in which a reference is released
(the assignment in `OnAccept` and `onClosed`) are kept apart step by step and own the mutex.

Sessions are numbered in the order of their creation; the number is a ghost, the address of the
object is the field `addr` and may be the address of an earlier object that was freed.
-/

namespace OpenDisplay.App.Sessions

open OpenDisplay.Lib.Store OpenDisplay.Lib.Transition

/-- The threads; a read thread is named by the number of its session. -/
inductive Thread
  | listener
  | main
  | decode
  | reader (i : ℕ)
  deriving DecidableEq, Repr

/-- The control messages the receiver sends, by the builder that makes their text. -/
inductive Message
  | hello
  | touch
  | scroll
  | closing
  | keyframe
  | ping
  | stats
  deriving DecidableEq, Repr

/-- Where the read thread of a session stands. -/
inductive ReaderPc
  /-- `Start` has not run. -/
  | notStarted
  /-- In the loop of `ReadLoop`, outside `onControl`. -/
  | running
  /-- In `HandleControl`, with the `shared_ptr` of `onControl`. -/
  | control
  /-- The loop is left, `onClosed` not yet entered. -/
  | closing
  /-- In `onClosed` with `sessionMutex`, before `self->lock()`. -/
  | locked
  /-- In `onClosed` with the mutex and `sp`. -/
  | held
  /-- The comparison of `session` with `sp` is done. -/
  | recorded
  /-- In `onClosed` with the mutex, without `sp`. -/
  | unlocking
  | exited
  deriving DecidableEq, Repr

/-- The callback on the read thread has a strong reference to its own session. -/
def ReaderPc.holds : ReaderPc → Bool
  | control | held | recorded => true
  | _ => false

/-- The read thread is inside the critical section of `onClosed`. -/
def ReaderPc.locks : ReaderPc → Bool
  | locked | held | recorded | unlocking => true
  | _ => false

/-- A `net::Session`: its address, its strong count and what of its state the threads touch. -/
structure Session where
  addr : ℕ
  refs : ℕ
  closed : Bool
  reader : ReaderPc
  /-- The control frames written to the socket in full. -/
  wire : List Message
  /-- The thread whose release ran `~Session`. -/
  destroyedBy : Option Thread
  /-- `~Session` has returned. -/
  freed : Bool

/-- A number that no `make_shared` has used yet. -/
def Session.blank : Session := ⟨0, 0, false, .notStarted, [], none, false⟩

/-- What `make_shared` leaves at the address `a`. -/
def Session.made (a : ℕ) : Session := ⟨a, 1, false, .notStarted, [], none, false⟩

namespace Session

/-- `Session::Close`. -/
def close (o : Session) : Session := { o with closed := true }

/-- `Session::SendControl`; `ok` says whether the socket takes the whole frame.  A failed send
closes the session. -/
def sendControl (m : Message) (ok : Bool) (o : Session) : Session :=
  if o.closed then o else if ok then { o with wire := o.wire ++ [m] } else o.close

/-- A `shared_ptr` to the session is copied. -/
def retain (o : Session) : Session := { o with refs := o.refs + 1 }

/-- A `shared_ptr` to the session is destroyed by `t`; the last one runs `~Session`, which starts
with `Close()`. -/
def release (t : Thread) (o : Session) : Session :=
  if o.refs = 1 then { o.close with refs := 0, destroyedBy := some t }
  else { o with refs := o.refs - 1 }

/-- The read thread moves to `pc`. -/
def readerTo (pc : ReaderPc) (o : Session) : Session := { o with reader := pc }

/-- `self->lock()` on the read thread, which goes on at `pc` with a reference and at `null`
without one. -/
def lock (pc null : ReaderPc) (o : Session) : Session :=
  if o.refs = 0 then o.readerTo null else o.retain.readerTo pc

/-- `~Session` returns and the memory is given back. -/
def free (o : Session) : Session := { o with freed := true }

section Fields

variable (o : Session) (t : Thread) (m : Message) (ok : Bool) (pc null : ReaderPc)

@[simp] theorem refs_close : o.close.refs = o.refs := rfl
@[simp] theorem refs_retain : o.retain.refs = o.refs + 1 := rfl
@[simp] theorem refs_readerTo : (o.readerTo pc).refs = o.refs := rfl
@[simp] theorem refs_free : o.free.refs = o.refs := rfl
@[simp] theorem reader_close : o.close.reader = o.reader := rfl
@[simp] theorem reader_retain : o.retain.reader = o.reader := rfl
@[simp] theorem reader_readerTo : (o.readerTo pc).reader = pc := rfl
@[simp] theorem reader_free : o.free.reader = o.reader := rfl

@[simp] theorem refs_release : (o.release t).refs = o.refs - 1 := by
  unfold release
  split <;> simp_all

@[simp] theorem reader_release : (o.release t).reader = o.reader := by
  unfold release
  split <;> rfl

@[simp] theorem refs_sendControl : (o.sendControl m ok).refs = o.refs := by
  unfold sendControl
  split
  · rfl
  · split <;> rfl

@[simp] theorem reader_sendControl : (o.sendControl m ok).reader = o.reader := by
  unfold sendControl
  split
  · rfl
  · split <;> rfl

@[simp] theorem destroyedBy_close : o.close.destroyedBy = o.destroyedBy := rfl
@[simp] theorem destroyedBy_retain : o.retain.destroyedBy = o.destroyedBy := rfl
@[simp] theorem destroyedBy_readerTo : (o.readerTo pc).destroyedBy = o.destroyedBy := rfl
@[simp] theorem destroyedBy_free : o.free.destroyedBy = o.destroyedBy := rfl

@[simp] theorem destroyedBy_sendControl :
    (o.sendControl m ok).destroyedBy = o.destroyedBy := by
  unfold sendControl
  split
  · rfl
  · split <;> rfl

@[simp] theorem destroyedBy_lock : (o.lock pc null).destroyedBy = o.destroyedBy := by
  unfold lock
  split <;> rfl

theorem destroyedBy_release :
    (o.release t).destroyedBy = if o.refs = 1 then some t else o.destroyedBy := by
  unfold release
  split <;> rfl

@[simp] theorem addr_close : o.close.addr = o.addr := rfl
@[simp] theorem addr_retain : o.retain.addr = o.addr := rfl
@[simp] theorem addr_readerTo : (o.readerTo pc).addr = o.addr := rfl
@[simp] theorem addr_free : o.free.addr = o.addr := rfl

@[simp] theorem addr_release : (o.release t).addr = o.addr := by
  unfold release
  split <;> rfl

@[simp] theorem addr_sendControl : (o.sendControl m ok).addr = o.addr := by
  unfold sendControl
  split
  · rfl
  · split <;> rfl

@[simp] theorem addr_lock : (o.lock pc null).addr = o.addr := by
  unfold lock
  split <;> rfl

theorem sendControl_cases :
    o.closed = true ∧ o.sendControl m ok = o ∨
      o.closed = false ∧ ok = true ∧ o.sendControl m ok = { o with wire := o.wire ++ [m] } ∨
      o.closed = false ∧ ok = false ∧ o.sendControl m ok = o.close := by
  unfold sendControl
  cases o.closed <;> cases ok <;> simp

@[simp] theorem wire_close : o.close.wire = o.wire := rfl
@[simp] theorem wire_retain : o.retain.wire = o.wire := rfl
@[simp] theorem wire_readerTo : (o.readerTo pc).wire = o.wire := rfl
@[simp] theorem wire_free : o.free.wire = o.wire := rfl

@[simp] theorem wire_release : (o.release t).wire = o.wire := by
  unfold release
  split <;> rfl

@[simp] theorem wire_lock : (o.lock pc null).wire = o.wire := by
  unfold lock
  split <;> rfl

@[simp] theorem closed_close : o.close.closed = true := rfl
@[simp] theorem closed_retain : o.retain.closed = o.closed := rfl
@[simp] theorem closed_readerTo : (o.readerTo pc).closed = o.closed := rfl
@[simp] theorem closed_free : o.free.closed = o.closed := rfl

@[simp] theorem closed_release (h : o.closed = true) : (o.release t).closed = true := by
  unfold release
  split
  · rfl
  · exact h

@[simp] theorem closed_sendControl (h : o.closed = true) : (o.sendControl m ok).closed = true := by
  rw [sendControl, if_pos h]
  exact h

@[simp] theorem closed_lock : (o.lock pc null).closed = o.closed := by
  unfold lock
  split <;> rfl

theorem refs_lock : (o.lock pc null).refs = if o.refs = 0 then 0 else o.refs + 1 := by
  unfold lock
  split <;> simp_all

theorem reader_lock : (o.lock pc null).reader = if o.refs = 0 then null else pc := by
  unfold lock
  split <;> rfl

end Fields

end Session

/-- Where the listener thread stands in `OnAccept`. -/
inductive ListenerPc
  | idle
  /-- `replaced` is set and not null. -/
  | closing
  /-- Before `make_shared`. -/
  | making
  /-- Before the critical section that publishes `s`. -/
  | made
  /-- In that section: `session = s` is stored, the old value not yet released. -/
  | assigned
  /-- In that section, the old value released. -/
  | unlocking
  /-- Before `s->Start()`. -/
  | installed
  /-- Before `s->SendHello(..)`. -/
  | started
  /-- Before the locals go out of scope: first `s`, then `replaced`. -/
  | greeted
  | leaving
  deriving DecidableEq, Repr

/-- Where the main thread stands. -/
inductive MainPc
  | idle
  /-- In `ReapEndedSession`, before `toDestroy.reset()`. -/
  | reaping
  /-- In `MaybeSendResizeHello`, before `active->SendHello(..)`. -/
  | resizing
  /-- In `MaybeSendResizeHello`, before `active` goes out of scope. -/
  | resized
  /-- In `TearDown`, before `s->Close()`. -/
  | tearing
  /-- In `TearDown`, before `s.reset()`. -/
  | tornDown
  | stopped
  deriving DecidableEq, Repr

/-- The state that the threads share, with their locals. -/
structure State where
  sessions : ℕ → Session
  created : ℕ
  /-- `App::session`. -/
  session : Option ℕ
  /-- `App::endedSession`, a plain address. -/
  endedSession : Option ℕ
  /-- The owner of `sessionMutex`. -/
  sessionMutex : Option Thread
  listener : ListenerPc
  /-- `OnAccept`'s `replaced`. -/
  replaced : Option ℕ
  /-- `OnAccept`'s `s`. -/
  s : Option ℕ
  /-- The old value of `App::session` inside the assignment `session = s`. -/
  old : Option ℕ
  main : MainPc
  /-- `toDestroy`, `active` or the `s` of `TearDown`, whichever function the main thread is in. -/
  mainLocal : Option ℕ
  /-- The session whose read thread a thread is joining in `~Session`. -/
  joins : Thread → Option ℕ
  /-- A read thread joined itself: `std::thread::join` throws out of a destructor. -/
  terminated : Bool

/-- The app after `Setup`, before the first connection. -/
def initial : State where
  sessions := fun _ => .blank
  created := 0
  session := none
  endedSession := none
  sessionMutex := none
  listener := .idle
  replaced := none
  s := none
  old := none
  main := .idle
  mainLocal := none
  joins := fun _ => none
  terminated := false

namespace State

/-- The update of the session that `v` refers to, if it is not null. -/
def modify (st : State) (v : Option ℕ) (f : Session → Session) : State :=
  { st with sessions := modifyAt st.sessions v f }

/-- The reference `v` is not null and the only one to its session. -/
def IsLast (st : State) (v : Option ℕ) : Prop := ∃ i ∈ v, (st.sessions i).refs = 1

instance (st : State) (v : Option ℕ) : Decidable (st.IsLast v) := by
  unfold IsLast
  infer_instance

/-- The destruction of the `shared_ptr` `v` by the thread `t`.  If it was the last, `t` is in
`~Session` and joins the read thread from here on. -/
def release (st : State) (t : Thread) (v : Option ℕ) : State :=
  { st.modify v (.release t) with
    joins := if st.IsLast v then Function.update st.joins t v else st.joins
    terminated := st.terminated || (decide (st.IsLast v) && v.any fun i => t == .reader i) }

/-- The thread `t` is not waiting in `~Session`. -/
def Free (st : State) (t : Thread) : Prop := st.joins t = none

instance (st : State) (t : Thread) : Decidable (st.Free t) := by
  unfold Free
  infer_instance

/-- The allocator may give out the address `a`: no object that is still there has it. -/
def Available (st : State) (a : ℕ) : Prop :=
  ∀ j < st.created, (st.sessions j).addr = a → (st.sessions j).freed = true

instance (st : State) (a : ℕ) : Decidable (st.Available a) := by
  unfold Available
  infer_instance

/-- The test of `ReapEndedSession`: the current session is the one at the recorded address. -/
def Ended (st : State) : Prop :=
  ∃ i ∈ st.session, st.endedSession = some (st.sessions i).addr

instance (st : State) : Decidable st.Ended := by
  unfold Ended
  infer_instance

end State

/-- The moves. -/
inductive Label
  /-- `replaced = session`. -/
  | acceptCopy
  /-- `replaced->Close()`. -/
  | acceptClose
  /-- `make_shared`, at the address that the allocator chose. -/
  | acceptMake (a : ℕ)
  /-- `sessionMutex` is taken and `s` stored in `App::session`. -/
  | acceptAssign
  | acceptDropOld
  | acceptUnlock
  | acceptStart
  | acceptHello (ok : Bool)
  | acceptDropSession
  | acceptDropReplaced
  /-- The critical section of `ReapEndedSession`. -/
  | reapTake
  /-- The critical section of `TearDown`. -/
  | tearTake
  | tearClose
  /-- The critical section of `MaybeSendResizeHello`. -/
  | resizeCopy
  | resizeHello (ok : Bool)
  /-- `toDestroy.reset()`, `s.reset()` or the end of the scope of `active`. -/
  | mainDrop
  /-- The join in `~Session` returns to `t`, and the object is freed. -/
  | joined (t : Thread)
  /-- `if (session) session->SendControl(..)` under the mutex. -/
  | sendCurrent (t : Thread) (m : Message) (ok : Bool)
  | readPing (i : ℕ) (ok : Bool)
  /-- `onControl` is called. -/
  | readControl (i : ℕ)
  /-- `SendStats` inside `HandleControl`. -/
  | readStats (i : ℕ) (ok : Bool)
  | readControlDone (i : ℕ)
  /-- The loop of `ReadLoop` is left, for any of its reasons. -/
  | readEnd (i : ℕ)
  | closedLock (i : ℕ)
  | closedResolve (i : ℕ)
  | closedRecord (i : ℕ)
  | closedDrop (i : ℕ)
  | closedUnlock (i : ℕ)
  deriving DecidableEq, Repr

/-- Which thread sends which message through `App::session`, and where it may stand: `SendTouch`,
the wheel and `WM_CLOSE` on the main thread, `onRequestKeyframe` on the decode thread and
`MaybeRequestKeyframe` in the `onVideo` of a read thread. -/
def MaySend (st : State) : Thread → Message → Prop
  | .main, .touch | .main, .scroll | .main, .closing => st.main = .idle ∧ st.Free .main
  | .decode, .keyframe => True
  | .reader i, .keyframe => (st.sessions i).reader = .running
  | _, _ => False

instance (st : State) (t : Thread) (m : Message) : Decidable (MaySend st t m) := by
  unfold MaySend
  split <;> infer_instance

/-- The main thread after it released its local. -/
def MainPc.afterDrop : MainPc → MainPc
  | tornDown => .stopped
  | _ => .idle

/-- One move of one thread; `none` if the thread does not stand there or has to wait. -/
def step (st : State) (l : Label) : Option State :=
  if st.terminated then none else
  match l with
  | .acceptCopy =>
    when (st.listener = .idle ∧ st.Free .listener ∧ st.sessionMutex = none)
      { st.modify st.session .retain with
        replaced := st.session
        listener := if st.session = none then .making else .closing }
  | .acceptClose =>
    when (st.listener = .closing)
      { st.modify st.replaced .close with listener := .making }
  | .acceptMake a =>
    when (st.listener = .making ∧ st.Available a)
      { st.modify (some st.created) fun _ => .made a with
        created := st.created + 1
        s := some st.created
        listener := .made }
  | .acceptAssign =>
    when (st.listener = .made ∧ st.sessionMutex = none)
      { st.modify st.s .retain with
        sessionMutex := some .listener
        old := st.session
        session := st.s
        listener := .assigned }
  | .acceptDropOld =>
    when (st.listener = .assigned)
      { st.release .listener st.old with old := none, listener := .unlocking }
  | .acceptUnlock =>
    when (st.listener = .unlocking ∧ st.Free .listener)
      { st with sessionMutex := none, listener := .installed }
  | .acceptStart =>
    when (st.listener = .installed)
      { st.modify st.s (.readerTo .running) with listener := .started }
  | .acceptHello ok =>
    when (st.listener = .started)
      { st.modify st.s (.sendControl .hello ok) with listener := .greeted }
  | .acceptDropSession =>
    when (st.listener = .greeted)
      { st.release .listener st.s with s := none, listener := .leaving }
  | .acceptDropReplaced =>
    when (st.listener = .leaving ∧ st.Free .listener)
      { st.release .listener st.replaced with replaced := none, listener := .idle }
  | .reapTake =>
    when (st.main = .idle ∧ st.Free .main ∧ st.sessionMutex = none)
      (if st.Ended then
        { st with session := none, endedSession := none, mainLocal := st.session, main := .reaping }
      else st)
  | .tearTake =>
    when (st.main = .idle ∧ st.Free .main ∧ st.sessionMutex = none)
      { st with
        session := none
        mainLocal := st.session
        main := if st.session = none then .stopped else .tearing }
  | .tearClose =>
    when (st.main = .tearing)
      { st.modify st.mainLocal .close with main := .tornDown }
  | .resizeCopy =>
    when (st.main = .idle ∧ st.Free .main ∧ st.sessionMutex = none)
      { st.modify st.session .retain with
        mainLocal := st.session
        main := if st.session = none then .idle else .resizing }
  | .resizeHello ok =>
    when (st.main = .resizing)
      { st.modify st.mainLocal (.sendControl .hello ok) with main := .resized }
  | .mainDrop =>
    when (st.main = .reaping ∨ st.main = .resized ∨ st.main = .tornDown)
      { st.release .main st.mainLocal with mainLocal := none, main := st.main.afterDrop }
  | .joined t =>
    when (∃ i ∈ st.joins t,
        (st.sessions i).reader = .exited ∨ (st.sessions i).reader = .notStarted)
      { st.modify (st.joins t) .free with joins := Function.update st.joins t none }
  | .sendCurrent t m ok =>
    when (MaySend st t m ∧ st.sessionMutex = none) (st.modify st.session (.sendControl m ok))
  | .readPing i ok =>
    when ((st.sessions i).reader = .running) (st.modify (some i) (.sendControl .ping ok))
  | .readControl i =>
    when ((st.sessions i).reader = .running) (st.modify (some i) (.lock .control .running))
  | .readStats i ok =>
    when ((st.sessions i).reader = .control) (st.modify (some i) (.sendControl .stats ok))
  | .readControlDone i =>
    when ((st.sessions i).reader = .control)
      ((st.release (.reader i) (some i)).modify (some i) (.readerTo .running))
  | .readEnd i =>
    when ((st.sessions i).reader = .running) (st.modify (some i) (.readerTo .closing))
  | .closedLock i =>
    when ((st.sessions i).reader = .closing ∧ st.sessionMutex = none)
      { st.modify (some i) (.readerTo .locked) with sessionMutex := some (.reader i) }
  | .closedResolve i =>
    when ((st.sessions i).reader = .locked) (st.modify (some i) (.lock .held .unlocking))
  | .closedRecord i =>
    when ((st.sessions i).reader = .held)
      { st.modify (some i) (.readerTo .recorded) with
        endedSession :=
          if st.session = some i then some (st.sessions i).addr else st.endedSession }
  | .closedDrop i =>
    when ((st.sessions i).reader = .recorded)
      ((st.release (.reader i) (some i)).modify (some i) (.readerTo .unlocking))
  | .closedUnlock i =>
    when ((st.sessions i).reader = .unlocking)
      { st.modify (some i) (.readerTo .exited) with sessionMutex := none }

/-- `OnAccept` from the copy of `replaced` to the end of its scope, with a session made at `a`. -/
def acceptRun (a : ℕ) (hasReplaced : Bool) : List Label :=
  .acceptCopy :: (if hasReplaced then [.acceptClose] else []) ++
    [.acceptMake a, .acceptAssign, .acceptDropOld, .acceptUnlock, .acceptStart, .acceptHello true,
      .acceptDropSession, .acceptDropReplaced]

end OpenDisplay.App.Sessions
