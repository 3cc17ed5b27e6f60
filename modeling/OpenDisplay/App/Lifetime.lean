import OpenDisplay.App.TearDown
import OpenDisplay.Lib.Ledger
import OpenDisplay.Net.MdnsAdvertise

/-! # The life of the app

`main` constructs an `App`, calls `Setup`, calls `Run` if that succeeded, calls `TearDown` and destroys
the app. `Setup` may fail at each of its steps, and calls `TearDown` itself when the listener does not
start. Here a further `TearDown` may follow before the app is destroyed.

The sessions and the listener are those of `App.TearDown`, with all their threads; around them stand the
main thread, the decode thread and the advertiser. A `TearDown` that is called again finds the listener
and the sessions as the last one left them, and goes through the same steps (`again`). What the app
acquires and releases is written into a ledger, at the statement that does it, under the guard that the
statement has. -/

namespace OpenDisplay.App.Lifetime

open OpenDisplay.Lib.Ledger OpenDisplay.Lib.Transition OpenDisplay.Net OpenDisplay.Net.MdnsAdvertise
open OpenDisplay.App.SessionJoins OpenDisplay.App.SessionMoves

/-- What is acquired and has to be released. -/
inductive Resource
  | session (i : ℕ)
  | decodeThread
  /-- The `H264Decoder`. -/
  | decoder
  /-- A transform that `decoder_` owns. -/
  | transform (n : ℕ)
  | listenSock
  | mdnsSock
  | frameEvent
  deriving DecidableEq, Repr

/-- Where `Setup` stands: before the statement that makes this. -/
inductive SetupPc
  /-- The device and the window; nothing of it is in the ledger. -/
  | window
  | event
  | decoder
  | decodeThread
  | listener
  | advertiser
  deriving DecidableEq, Repr

/-- Where `TearDown` stands: before the release of this. -/
inductive TearPc
  | session
  | decodeThread
  | decoder
  | listener
  | event
  deriving DecidableEq, Repr

/-- Where the main thread stands. -/
inductive MainPc
  | setup (pc : SetupPc)
  | running
  | tearing (pc : TearPc)
  /-- `Setup` has failed, or `Run` has returned. -/
  | returned
  /-- `main`'s `TearDown` has returned. -/
  | tornDown
  /-- In `~App`. -/
  | destroying
  | ended
  deriving DecidableEq, Repr

/-- `video::H264Decoder`, as far as it owns something. -/
structure H264Decoder where
  /-- The transform, or a null pointer. -/
  decoder_ : Option ℕ
  deriving DecidableEq, Repr

structure State where
  main : MainPc
  /-- The sessions and the listener. -/
  net : TearDown.State
  mdns : MdnsAdvertiser
  decodeThread : Worker
  decodeRunning : Bool
  decoder : Option H264Decoder
  /-- The number of transforms made so far. -/
  transforms : ℕ
  /-- `frameEvent` is not null. -/
  frameEvent : Bool
  /-- The last `TearDown` was called by `Setup`. -/
  inSetup : Bool
  /-- The number of calls of `TearDown` so far. -/
  calls : ℕ
  ledger : List (Entry Resource)

/-- `thread.joinable()`. -/
def joinable : Worker → Bool
  | .none => false
  | _ => true

/-- A constructed app. -/
def initial : State where
  main := .setup .window
  net := TearDown.initial
  mdns := fresh
  decodeThread := .none
  decodeRunning := false
  decoder := none
  transforms := 0
  frameEvent := false
  inSetup := false
  calls := 0
  ledger := []

inductive Label
  /-- A step of `Setup` before `CreateEvent` fails. -/
  | setupFails
  | makeWindow
  | createEvent (ok : Bool)
  | makeDecoder
  | startDecode
  /-- `listener.Start` fails, and has closed the socket if it had made one; `Setup` calls `TearDown`. -/
  | listenFails (made : Bool)
  | listen
  | advertise (cfg : Config) (o : Outcome)
  /-- `Run` returns. -/
  | quit
  /-- `main` calls `TearDown`. -/
  | tearDown
  /-- `queue.Shutdown(); decodeRunning = false`. -/
  | stopDecode
  /-- `if (decodeThread.joinable()) decodeThread.join()`. -/
  | joinDecode
  /-- `if (decoder) decoder->Shutdown()`. -/
  | shutdownDecoder
  /-- `mdns.Stop()`. -/
  | stopMdns
  /-- `if (frameEvent) CloseHandle(frameEvent)`, to the end of `TearDown`. -/
  | closeEvent
  /-- A move of the sessions or of the listener. -/
  | net (l : TearDown.Label)
  /-- The decode thread leaves its loop. -/
  | exitDecode
  /-- `decoder_.Reset()` on the decode thread. -/
  | resetTransform
  /-- `decoder_.Attach(mft)` on the decode thread. -/
  | attachTransform
  /-- `select` fails in the worker of the advertiser. -/
  | selectFails
  /-- `~App` destroys `mdns` and `session`. -/
  | destroy
  /-- `~App` destroys `decoder`. -/
  | finish

/-- The main thread may make this move of the sessions or of the listener where it stands, and so may
the decode thread. The other threads go their own way. -/
def Admits (st : State) : TearDown.Label → Prop
  | .app (.reapTake) | .app (.resizeCopy) | .app (.resizeHello _) | .app (.sendCurrent .main _ _) =>
    st.main = .running
  | .app .tearTake | .app .tearClose => st.main = .tearing .session
  | .app .mainDrop => st.main = .running ∨ st.main = .tearing .session
  | .app (.joined .main) =>
    st.main = .running ∨ st.main = .tearing .session ∨ st.main = .destroying
  | .app (.sendCurrent .decode _ _) => st.decodeThread = .running
  | .listener .start => False
  | .listener .stop | .listener .close | .listener .join => st.main = .tearing .listener
  | _ => True

instance (st : State) (l : TearDown.Label) : Decidable (Admits st l) := by
  unfold Admits
  split <;> infer_instance

/-- The main thread and the listener, before the steps of another `TearDown`. -/
def again (net : TearDown.State) : TearDown.State where
  app := { net.app with main := .idle }
  listener := { net.listener with stop := .notCalled }

namespace State

variable (st : State)

/-- `TearDown` is called. -/
def enterTearDown (inSetup : Bool) : State :=
  { st with
    main := .tearing .session
    net := again st.net
    inSetup := inSetup
    calls := st.calls + 1 }

/-- The transform that `decoder_` owns. -/
def transform : Option ℕ := st.decoder.bind (·.decoder_)

/-- `decoder_.Reset()`. -/
def resetTransform : State := { st with decoder := st.decoder.map fun _ => ⟨none⟩ }

end State

/-- One move of one thread; `none` if the thread does not stand there or has to wait. -/
def move (st : State) (l : Label) : Option State :=
  if st.net.app.terminated = true ∨ st.main = .ended then none else
  match l with
  | .setupFails => when (st.main = .setup .window) { st with main := .returned }
  | .makeWindow => when (st.main = .setup .window) { st with main := .setup .event }
  | .createEvent ok =>
    when (st.main = .setup .event) { st with frameEvent := ok, main := .setup .decoder }
  | .makeDecoder =>
    when (st.main = .setup .decoder) { st with decoder := some ⟨none⟩, main := .setup .decodeThread }
  | .startDecode =>
    when (st.main = .setup .decodeThread)
      { st with decodeRunning := true, decodeThread := .running, main := .setup .listener }
  | .listenFails _ => when (st.main = .setup .listener) (st.enterTearDown true)
  | .listen =>
    if st.main = .setup .listener then
      (TearDown.step st.net (.listener .start)).map fun net =>
        { st with net := net, main := .setup .advertiser }
    else none
  | .advertise cfg o =>
    -- a failed `Start` is only warned about
    when (st.main = .setup .advertiser) { st with mdns := (st.mdns.start cfg o).1, main := .running }
  | .quit =>
    when (st.main = .running ∧ st.net.app.main = .idle ∧ st.net.app.Free .main)
      { st with main := .returned }
  | .tearDown => when (st.main = .returned ∨ st.main = .tornDown) (st.enterTearDown false)
  | .stopDecode =>
    when (st.main = .tearing .session ∧ st.net.app.main = .stopped ∧ st.net.app.Free .main)
      { st with decodeRunning := false, main := .tearing .decodeThread }
  | .joinDecode =>
    when (st.main = .tearing .decodeThread ∧ st.decodeThread ≠ .running)
      { st with decodeThread := .none, main := .tearing .decoder }
  | .shutdownDecoder =>
    when (st.main = .tearing .decoder) { st.resetTransform with main := .tearing .listener }
  | .stopMdns =>
    when (st.main = .tearing .listener ∧ st.net.listener.stop = .returned)
      { st with mdns := st.mdns.stop, main := .tearing .event }
  | .closeEvent =>
    -- the handle stays where it is
    when (st.main = .tearing .event)
      { st with main := if st.inSetup then .returned else .tornDown }
  | .net l =>
    if Admits st l then (TearDown.step st.net l).map fun net => { st with net := net } else none
  | .exitDecode =>
    when (st.decodeThread = .running ∧ st.decodeRunning = false)
      { st with decodeThread := .finished }
  | .resetTransform => when (st.decodeThread = .running) st.resetTransform
  | .attachTransform =>
    when (st.decodeThread = .running ∧ st.decoder = some ⟨none⟩)
      { st with decoder := some ⟨some st.transforms⟩, transforms := st.transforms + 1 }
  | .selectFails =>
    when (st.mdns.thread = .running ∧ st.mdns.canReceive = true)
      { st with mdns := { st.mdns with thread := .finished } }
  | .destroy =>
    when (st.main = .tornDown)
      { st with
        mdns := st.mdns.stop
        net := { st.net with
          app := { st.net.app.release .main st.net.app.session with session := none } }
        main := .destroying }
  | .finish =>
    when (st.main = .destroying ∧ st.net.app.Free .main) { st with decoder := none, main := .ended }

/-! ## What a move acquires and releases -/

/-- The release of the session of `v`, if `v` is the last reference to it. -/
def lastEntries (app : Sessions.State) (v : Option ℕ) : List (Entry Resource) :=
  if app.IsLast v then v.toList.map fun i => .release (.session i) else []

/-- The moves of the sessions and of the listener. -/
def netEntries (net : TearDown.State) : TearDown.Label → List (Entry Resource)
  | .app (.acceptMake _) => [.acquire (.session net.app.created)]
  | .app l => if (releaser l).isSome then lastEntries net.app (target net.app l) else []
  | .listener .close => if net.listener.listenSock_ then [.release .listenSock] else []
  | .listener _ => []

/-- `closesocket(sock_)` in `MdnsAdvertiser::Stop`. -/
def mdnsEntries (st : State) : List (Entry Resource) :=
  if st.mdns.sock then [.release .mdnsSock] else []

/-- `decoder_.Reset()`, in `Shutdown` as well. -/
def transformEntries (st : State) : List (Entry Resource) :=
  st.transform.toList.map fun n => .release (.transform n)

/-- What a move acquires and releases, under the guards that the source has. -/
def entries (st : State) : Label → List (Entry Resource)
  | .createEvent ok => if ok then [.acquire .frameEvent] else []
  | .makeDecoder => [.acquire .decoder]
  | .startDecode => [.acquire .decodeThread]
  | .listenFails made => if made then [.acquire .listenSock, .release .listenSock] else []
  | .listen => [.acquire .listenSock]
  | .advertise cfg o =>
    -- `Start` returns true where it was called before, and where it has made its socket
    if st.mdns.running = false ∧ (st.mdns.start cfg o).2 = true then [.acquire .mdnsSock] else []
  | .joinDecode => if joinable st.decodeThread then [.release .decodeThread] else []
  | .shutdownDecoder | .resetTransform => transformEntries st
  | .stopMdns => mdnsEntries st
  | .closeEvent => if st.frameEvent then [.release .frameEvent] else []
  | .net l => netEntries st.net l
  | .attachTransform => [.acquire (.transform st.transforms)]
  | .destroy => mdnsEntries st ++ lastEntries st.net.app st.net.app.session
  | .finish => transformEntries st ++ if st.decoder.isSome then [.release .decoder] else []
  | _ => []

/-- A move, with its entries in the ledger. -/
def step (st : State) (l : Label) : Option State :=
  (move st l).map fun st' => { st' with ledger := st.ledger ++ entries st l }

end OpenDisplay.App.Lifetime
