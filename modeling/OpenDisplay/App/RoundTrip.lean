import OpenDisplay.App.LatencyArithmetic
import OpenDisplay.Net.SessionCorrupt
import OpenDisplay.Tools.SimFrames

/-!
# Pings and pongs

The app and the simulator talk over two channels.  The app's messages are read in the order in which they
were sent (`ControlChannel`).  The frames of the simulator are a stream of bytes, from which `recv` takes
any number at a time; the `FrameDecoder` and the read loop of the app make frames of them again.  A
`Label` is one move: a message is sent, a pass of the simulator's loop, or a pass of the app's read loop,
with what its clocks show.  The clocks need not agree, and may be set in the meantime.

Nothing numbers the pings.  A pong repeats the time of its ping, and `round_trip_exact` says that the
`k`-th pong is for the `k`-th ping and that the round trip that is stored is the time between the two, if
each read leaves the frames that it completes undisturbed.
-/

namespace OpenDisplay.App.RoundTrip

open OpenDisplay.App.LatencyArithmetic OpenDisplay.App.Messages
open OpenDisplay.Lib.Checked OpenDisplay.Lib.Transition
open OpenDisplay.Net.Session OpenDisplay.Net.SessionCorrupt OpenDisplay.Protocol.AnnexB
open OpenDisplay.Net.SessionLiveness (started)
open OpenDisplay.Protocol.Control (ControlMessage parseControlMessage)
open OpenDisplay.Protocol.Framing OpenDisplay.Protocol.FramingStream OpenDisplay.Protocol.FramingRoundTrip
open OpenDisplay.Protocol.FramingCorrupt (completeIn_zero)
open OpenDisplay.Tools.SimFrames
open OpenDisplay.Tools.SimSession (SimSender Item Turn)
open OpenDisplay.Tools

/-! ## The two parties -/

/-- What the callbacks of the read loop leave. -/
structure Heard where
  /-- `none` behind undefined behaviour. -/
  latencies : Option Latencies
  /-- The clock of the app at each pong. -/
  pongs : List ℤ

structure State where
  /-- What the app sent, the oldest message first. -/
  sent : List Message
  /-- The number of messages that the simulator read. -/
  read : ℕ
  sim : SimSession.State
  conn : ReadState
  /-- The number of bytes that `recv` has returned. -/
  arrived : ℕ
  /-- The number of frames that the read loop went through. -/
  dispatched : ℕ
  heard : Heard

def start : State where
  sent := []
  read := 0
  sim := SimSession.start
  conn := started
  arrived := 0
  dispatched := 0
  heard := ⟨some LatencyArithmetic.initial, []⟩

inductive Label
  /-- `SendControl` on any thread. -/
  | send (m : Message)
  /-- A pass of the simulator, which reads the next message if `reads`. -/
  | pass (reads : Bool) (turn : Turn)
  /-- A pass of the read loop, in which `recv` returns up to `n` bytes, or times out if there are none;
  `unix` is the Unix clock at each frame. -/
  | recv (n : ℕ) (now dataNow : ℤ) (arrival unix : ℕ → ℤ)

/-- What was sent, the oldest frame first. -/
def items : List SimSession.Event → List Item
  | [] => []
  | .asked :: past => items past
  | .sent item :: past => items past ++ [item]

/-- The frames that the simulator sent. -/
def sentFrames (s : SimSender) (args : Args) (sim : SimSession.State) : List (List UInt8) :=
  (items sim.history).map (frame s args)

/-- `HandleControl` and `onVideo`. -/
def Heard.handle (now : ℤ) (h : Heard) : Callback ControlMessage → Heard
  | .onControl msg =>
    if msg.type = .pong then ⟨h.latencies.bind (handlePong · now msg), h.pongs ++ [now]⟩ else h
  | .onVideo v => { h with latencies := h.latencies.bind (senderEncode · v) }

/-- The callbacks of a pass; `k` counts the frames before. -/
def Heard.handleAll (unix : ℕ → ℤ) : ℕ → Heard → List (ReadEvent ControlMessage) → Heard
  | _, h, [] => h
  | k, h, .frame _ callback :: events => handleAll unix (k + 1) (callback.elim h (h.handle (unix k))) events
  | k, h, .ping :: events => handleAll unix k h events
  | k, h, .feed _ :: events => handleAll unix k h events
  | k, h, .onClosed _ :: events => handleAll unix k h events

/-- The bytes that `recv` returns. -/
def chunk (s : SimSender) (args : Args) (st : State) (n : ℕ) : List UInt8 :=
  ((encodeAll (sentFrames s args st.sim)).drop st.arrived).take n

def step (s : SimSender) (args : Args) (st : State) : Label → Option State
  | .send m => some { st with sent := st.sent ++ [m] }
  | .pass reads turn =>
    let message := if reads then st.sent[st.read]? else none
    if reads = true ∧ message.isNone = true then none
    else
      (SimSession.step s st.sim { turn with read := message.elim .timedOut .message }).map fun sim =>
        { st with sim := sim, read := if reads then st.read + 1 else st.read }
  | .recv n now dataNow arrival unix =>
    let bytes := chunk s args st n
    let r := readIteration parseControlMessage st.conn
      ⟨false, if bytes = [] then .timedOut else .data bytes, now, dataNow, arrival⟩
    if r.ended.isSome = true then none
    else
      some { st with
        conn := r.state
        arrived := st.arrived + bytes.length
        dispatched := st.dispatched + (frames r.events).length
        heard := st.heard.handleAll unix 0 r.events }

/-- A clock shows a time that a double holds. -/
def Clock (t : ℤ) : Prop := 0 ≤ t ∧ t ≤ 2 ^ 53

/-- The clocks show such times, and a read leaves the frames apart, none of which is too long. -/
def Orderly (s : SimSender) (args : Args) (st : State) : Label → Prop
  | .send (.ping t) => Clock t.toInt
  | .send _ => True
  | .pass _ turn => Clock turn.mt ∧ turn.times.1 < 2 ^ 63 ∧ turn.times.2 < 2 ^ 63
  | .recv n _ _ _ unix =>
    (∀ k, Clock (unix k)) ∧ (∀ f ∈ sentFrames s args st.sim, f.length ≤ kMaxFrameSize) ∧
      SplitClean ((sentFrames s args st.sim).drop st.dispatched) st.conn.decoder.retained.length
        [(chunk s args st n).length]

/-! ## The round trips -/

/-- The times of the pings. -/
def pings (sent : List Message) : List ℤ :=
  sent.filterMap fun
    | .ping t => some t.toInt
    | .hello .. | .touch .. | .scroll _ | .keyframeRequest | .closing | .stats .. => none

/-- The times that the pongs repeat. -/
def echoes (items : List Item) : List ℤ :=
  items.filterMap fun
    | .pong t _ => some t
    | .welcome | .streamConfig | .ping | .video _ _ => none

/-- One round trip, from the time of a ping to that of its pong; one that is not plausible is skipped. -/
def roundTrip (rtt : ℤ) (trip : ℤ × ℤ) : ℤ :=
  if 0 ≤ trip.2 - trip.1 ∧ trip.2 - trip.1 < 5000 then trip.2 - trip.1 else rtt

/-- The last plausible round trip. -/
def lastRtt (trips : List (ℤ × ℤ)) : ℤ := trips.foldl roundTrip (-1)

theorem pings_append (a b : List Message) : pings (a ++ b) = pings a ++ pings b := List.filterMap_append

theorem echoes_append (a b : List Item) : echoes (a ++ b) = echoes a ++ echoes b := List.filterMap_append

/-! ## What the simulator sends -/

variable {s : SimSender} {args : Args} {sim sim' : SimSession.State} {turn : Turn}

/-- A frame of a pass. -/
def Made (turn : Turn) : Item → Prop
  | .pong t mt => (∃ ping : Int64, turn.message = some (.ping ping) ∧ t = ping.toInt) ∧ mt = turn.mt
  | .video _ times => times = turn.times
  | .welcome | .streamConfig | .ping => True

/-- `sim'` has sent frames of the pass beyond those of `sim`, with the echoes `ts`. -/
def Adds (turn : Turn) (sim sim' : SimSession.State) (ts : List ℤ) : Prop :=
  ∃ new, items sim'.history = items sim.history ++ new ∧ echoes new = ts ∧ ∀ item ∈ new, Made turn item

theorem Adds.refl (h : items sim'.history = items sim.history) : Adds turn sim sim' [] :=
  ⟨[], by rw [h, List.append_nil], rfl, by simp⟩

theorem Adds.trans {sim'' : SimSession.State} {ts ts' : List ℤ} (h : Adds turn sim sim' ts)
    (h' : Adds turn sim' sim'' ts') : Adds turn sim sim'' (ts ++ ts') := by
  obtain ⟨new, hitems, hechoes, hmade⟩ := h
  obtain ⟨new', hitems', hechoes', hmade'⟩ := h'
  refine ⟨new ++ new', ?_, ?_, ?_⟩
  · rw [hitems', hitems, List.append_assoc]
  · rw [echoes_append, hechoes, hechoes']
  · exact List.forall_mem_append.2 ⟨hmade, hmade'⟩

theorem adds_answer {m : Message} (hm : turn.message = some m) :
    Adds turn sim (SimSession.answer sim turn m) (pings [m]) := by
  cases m with
  | hello =>
    refine ⟨[.welcome, .streamConfig], ?_, rfl, by simp [Made]⟩
    show items sim.history ++ [_] ++ [_] = _
    rw [List.append_assoc]
    rfl
  | ping t => exact ⟨[.pong t.toInt turn.mt], rfl, rfl, List.forall_mem_singleton.2 ⟨⟨t, hm, rfl⟩, rfl⟩⟩
  | keyframeRequest => exact .refl rfl
  | closing => exact .refl rfl
  | touch => exact .refl rfl
  | scroll => exact .refl rfl
  | stats => exact .refl rfl

theorem adds_beat : Adds turn sim (SimSession.beat sim turn) [] := by
  unfold SimSession.beat
  split_ifs
  · exact ⟨[.ping], rfl, rfl, by simp [Made]⟩
  · exact .refl rfl

theorem history_advance (i : ℕ) : (SimSession.advance s sim i).history = sim.history := by
  unfold SimSession.advance
  split_ifs <;> rfl

theorem adds_sendUnit : Adds turn sim (SimSession.sendUnit s sim turn.times) [] := by
  unfold SimSession.sendUnit
  split
  · exact .refl rfl
  · rename_i i _
    have hmade : ∀ item ∈ [Item.video i turn.times], Made turn item := List.forall_mem_singleton.2 rfl
    split_ifs
    · exact ⟨[.video i turn.times], by rw [history_advance]; rfl, rfl, hmade⟩
    · exact ⟨[.video i turn.times], by rw [history_advance]; rfl, rfl, hmade⟩
    · exact .refl rfl

theorem adds_video : Adds turn sim (SimSession.video s sim turn) [] := by
  unfold SimSession.video
  split_ifs
  · exact .refl rfl
  · exact adds_sendUnit
  · exact adds_sendUnit
  · exact .refl rfl

/-- **One pass**: the pong of the ping that was read, and no other one. -/
theorem adds_step (hs : SimSession.step s sim turn = some sim') :
    Adds turn sim sim' (pings turn.message.toList) := by
  have hanswered : Adds turn sim (SimSession.answered sim turn) (pings turn.message.toList) := by
    unfold SimSession.answered
    cases hm : turn.message with
    | none => exact .refl rfl
    | some m => exact adds_answer hm
  rcases SimSession.step_cases hs with ⟨rfl, hnone⟩ | rfl | rfl
  · rw [hnone]
    exact .refl rfl
  · exact hanswered
  · have hvideo : Adds turn (SimSession.beat (SimSession.answered sim turn) turn) _ [] := adds_video (s := s)
    have hall := hanswered.trans (adds_beat.trans hvideo)
    rwa [List.append_nil, List.append_nil] at hall

/-! ## What the app does with them -/

variable {now arrivalMs t mt : ℤ}

theorem handlePong_pongMessage (mt : ℤ) (ht : Clock t) (hnow : Clock now) (l : Latencies) :
    (handlePong l now (pongMessage t mt)).map (·.lastRttMs) = some (roundTrip l.lastRttMs (t, now)) := by
  have hfits : ∀ x : ℤ, Clock x → InInt64 x := by
    intro x hx
    unfold Clock at hx
    exact ⟨by omega, by omega⟩
  have htrunc : truncate (t : ℚ) = t := by
    rw [truncate_of_nonneg (Int.cast_nonneg ht.1), Int.floor_intCast]
  have hconvert : convert (pongMessage t mt).t = some t := by
    show checked (truncate (t : ℚ)) = some t
    rw [htrunc, checked_of_range (hfits t ht)]
  have hsub : sub now t = some (now - t) := sub_of_nonneg hnow.1 (hfits now hnow) ht.1 (hfits t ht)
  have hhandle : handlePong l now (pongMessage t mt) =
      some (if 0 ≤ now - t ∧ now - t < 5000 then { l with lastRttMs := now - t } else l) := by
    have hasT : (pongMessage t mt).hasT = true := rfl
    unfold handlePong
    rw [if_pos hasT, hconvert, Option.bind_eq_bind, Option.bind_some, hsub]
    rfl
  rw [hhandle, Option.map_some, roundTrip]
  split_ifs <;> rfl

theorem handle_other {framesReceived : UInt64} {bytes : List UInt8} (l : Latencies) (pongs : List ℤ) (now : ℤ)
    (hno : ∀ msg, (dispatchFrame parseControlMessage framesReceived arrivalMs bytes).2 =
      some (.onControl msg) → msg.type ≠ .pong) :
    ∃ l', (dispatchFrame parseControlMessage framesReceived arrivalMs bytes).2.elim ⟨some l, pongs⟩
        (Heard.handle now ⟨some l, pongs⟩) = ⟨some l', pongs⟩ ∧ l'.lastRttMs = l.lastRttMs := by
  cases hcallback : (dispatchFrame parseControlMessage framesReceived arrivalMs bytes).2 with
  | none => exact ⟨l, rfl, rfl⟩
  | some callback =>
    cases callback with
    | onControl msg => exact ⟨l, if_neg (hno msg hcallback), rfl⟩
    | onVideo v =>
      obtain rfl := sample_of_onVideo hcallback
      exact ⟨_, congrArg (Heard.mk · pongs) (senderEncode_eq bytes arrivalMs), rfl⟩

/-- The times of a frame are those of a clock. -/
def Fine : Item → Prop
  | .pong t mt => Clock t ∧ Clock mt
  | .video _ times => times.1 < 2 ^ 63 ∧ times.2 < 2 ^ 63
  | .welcome | .streamConfig | .ping => True

theorem Made.fine {item : Item} (h : Made turn item) (hmt : Clock turn.mt)
    (htimes : turn.times.1 < 2 ^ 63 ∧ turn.times.2 < 2 ^ 63)
    (hping : ∀ t, turn.message = some (.ping t) → Clock t.toInt) : Fine item := by
  cases item with
  | welcome | streamConfig | ping => trivial
  | pong t mt =>
    obtain ⟨⟨ping, hmessage, rfl⟩, rfl⟩ := h
    exact ⟨hping ping hmessage, hmt⟩
  | video i times =>
    obtain rfl : times = turn.times := h
    exact htimes

theorem abs_le_of_clock {x : ℤ} (hx : Clock x) : |x| ≤ 2 ^ 53 := by
  rw [abs_of_nonneg hx.1]
  exact hx.2

/-- **One frame**: the app makes one round trip of each echo in it. -/
theorem handle_frame (args : Args) {item : Item} (hfine : Fine item) (hnow : Clock now) (l : Latencies)
    (pongs : List ℤ) (framesReceived : UInt64) (arrivalMs : ℤ)
    (hvideo : ∀ i times, item = .video i times → AccessUnits.Received s.data (s.aus.getD i []) times) :
    ∃ l', (dispatchFrame parseControlMessage framesReceived arrivalMs (frame s args item)).2.elim
          ⟨some l, pongs⟩ (Heard.handle now ⟨some l, pongs⟩) =
        ⟨some l', pongs ++ (echoes [item]).map fun _ => now⟩ ∧
      l'.lastRttMs = ((echoes [item]).map (·, now)).foldl roundTrip l.lastRttMs := by
  cases hpong : item.isPong with
  | false =>
    have hechoes : echoes [item] = [] := by
      cases item with
      | pong => cases hpong
      | welcome | streamConfig | ping | video => rfl
    rw [hechoes, List.map_nil, List.append_nil]
    exact handle_other l pongs now fun msg hmsg => type_ne_pong hpong hvideo hmsg
  | true =>
    cases item with
    | welcome | streamConfig | ping | video => cases hpong
    | pong t mt =>
      obtain ⟨ht, hmt⟩ : Clock t ∧ Clock mt := hfine
      have hcallback : dispatchFrame parseControlMessage framesReceived arrivalMs (frame s args (.pong t mt)) =
          (framesReceived, some (.onControl (pongMessage t mt))) :=
        dispatch_pong (abs_le_of_clock ht) (abs_le_of_clock hmt) framesReceived arrivalMs
      obtain ⟨l', hl', hrtt⟩ := Option.map_eq_some_iff.1 (handlePong_pongMessage mt ht hnow l)
      rw [hcallback]
      exact ⟨l', congrArg (Heard.mk · (pongs ++ [now])) hl', hrtt⟩

/-- **The frames of a pass.** -/
theorem handle_frames (args : Args) (arrival : ℕ → ℤ) {unix : ℕ → ℤ} (hunix : ∀ k, Clock (unix k)) :
    ∀ (its : List Item), (∀ item ∈ its, Fine item ∧
        ∀ i times, item = .video i times → AccessUnits.Received s.data (s.aus.getD i []) times) →
      ∀ (k j : ℕ) (n : UInt64) (l : Latencies) (pongs : List ℤ), ∃ new : List ℤ,
        new.length = (echoes its).length ∧
        (Heard.handleAll unix k ⟨some l, pongs⟩
            (dispatchFrames parseControlMessage arrival j n (its.map (frame s args))).2).pongs =
          pongs ++ new ∧
        (Heard.handleAll unix k ⟨some l, pongs⟩
            (dispatchFrames parseControlMessage arrival j n (its.map (frame s args))).2).latencies.map
          (·.lastRttMs) = some (((echoes its).zip new).foldl roundTrip l.lastRttMs)
  | [], _, k, j, n, l, pongs => ⟨[], rfl, (List.append_nil _).symm, rfl⟩
  | item :: its, h, k, j, n, l, pongs => by
    obtain ⟨hitem, hits⟩ := List.forall_mem_cons.1 h
    obtain ⟨l', hheard, hrtt⟩ := handle_frame args hitem.1 (hunix k) l pongs n (arrival j) hitem.2
    obtain ⟨new, hlength, hpongs, hlatencies⟩ := handle_frames args arrival hunix its hits (k + 1) (j + 1)
      (dispatchFrame parseControlMessage n (arrival j) (frame s args item)).1 l'
      (pongs ++ (echoes [item]).map fun _ => unix k)
    have hcons : echoes (item :: its) = echoes [item] ++ echoes its := echoes_append [item] its
    rw [List.map_cons, dispatchFrames, Heard.handleAll, hheard]
    refine ⟨((echoes [item]).map fun _ => unix k) ++ new, ?_, ?_, ?_⟩
    · rw [hcons, List.length_append, List.length_append, List.length_map, hlength]
    · rw [hpongs, List.append_assoc]
    · rw [hlatencies, hrtt, hcons, List.zip_append (List.length_map _).symm, ← List.map_prod_left_eq_zip,
        List.foldl_append]

/-! ## The read loop -/

variable {μ : Type} {rs : ReadState} {it : Iteration}

theorem handleAll_pings (unix : ℕ → ℤ) (h : Heard) (events : List (ReadEvent ControlMessage)) :
    h.handleAll unix 0 (Net.Session.pings rs it ++ events) = h.handleAll unix 0 events := by
  unfold Net.Session.pings
  split_ifs <;> rfl

theorem pass_of_goes {p : List UInt8 → Option μ} (hc : it.closed = false)
    (hgoes : (readIteration p rs it).ended = none) : ¬Late rs it := by
  intro hl
  rw [readIteration_late hc hl] at hgoes
  cases hgoes

theorem readIteration_valid {p : List UInt8 → Option μ} {bytes : List UInt8} (hc : it.closed = false)
    (hl : ¬Late rs it) (hr : it.recv = .data bytes) (hv : (rs.decoder.feed bytes).valid = true) :
    (readIteration p rs it).events = Net.Session.pings rs it ++ .feed bytes ::
        (dispatchFrames p it.arrival 0 rs.framesReceived (rs.decoder.feed bytes).contents).2 ∧
      (readIteration p rs it).state.decoder = (rs.decoder.feed bytes).decoder := by
  refine ⟨?_, (readIteration_data_spec hc hl hr).2.1⟩
  rw [readIteration_data hc hl hr]
  dsimp only
  unfold readData
  dsimp only
  rw [decoder_pinged, framesReceived_pinged, if_pos hv]

/-! ## The invariant -/

structure Inv (s : SimSender) (args : Args) (st : State) : Prop where
  sim : SimSession.Inv s st.sim
  sent : ∀ t, .ping t ∈ st.sent → Clock t.toInt
  fine : ∀ item ∈ items st.sim.history, Fine item
  read : st.read ≤ st.sent.length
  /-- Each ping that was read has its pong. -/
  echoes : echoes (items st.sim.history) = pings (st.sent.take st.read)
  arrived : st.arrived ≤ (encodeAll (sentFrames s args st.sim)).length
  dispatched : st.dispatched ≤ (sentFrames s args st.sim).length
  cursor : st.conn.decoder.cursor = 0
  waiting : completeIn ((sentFrames s args st.sim).drop st.dispatched) st.conn.decoder.retained.length = 0
  /-- The bytes in the decoder and on the way are the frames that were not dispatched. -/
  stream : st.conn.decoder.retained ++ (encodeAll (sentFrames s args st.sim)).drop st.arrived =
    encodeAll ((sentFrames s args st.sim).drop st.dispatched)
  pongs : st.heard.pongs.length =
    (RoundTrip.echoes ((items st.sim.history).take st.dispatched)).length
  rtt : st.heard.latencies.map (·.lastRttMs) =
    some (lastRtt ((RoundTrip.echoes ((items st.sim.history).take st.dispatched)).zip st.heard.pongs))

variable {st st' : State}

theorem inv_start (s : SimSender) (args : Args) : Inv s args start where
  sim := SimSession.inv_start s
  sent := nofun
  fine := nofun
  read := le_rfl
  echoes := rfl
  arrived := le_rfl
  dispatched := le_rfl
  cursor := rfl
  waiting := rfl
  stream := rfl
  pongs := rfl
  rtt := rfl

theorem Inv.send (h : Inv s args st) {m : Message} (hm : ∀ t, m = .ping t → Clock t.toInt) :
    Inv s args { st with sent := st.sent ++ [m] } where
  sim := h.sim
  sent := by
    intro t ht
    rcases List.mem_append.1 ht with ht | ht
    · exact h.sent t ht
    · exact hm t (List.mem_singleton.1 ht).symm
  fine := h.fine
  read := by
    rw [List.length_append]
    exact h.read.trans (Nat.le_add_right _ _)
  echoes := by rw [List.take_append_of_le_length h.read, h.echoes]
  arrived := h.arrived
  dispatched := h.dispatched
  cursor := h.cursor
  waiting := h.waiting
  stream := h.stream
  pongs := h.pongs
  rtt := h.rtt

/-- The bytes in the decoder belong to the frames that were not dispatched. -/
theorem Inv.retained_le (h : Inv s args st) :
    st.conn.decoder.retained.length ≤ (encodeAll ((sentFrames s args st.sim).drop st.dispatched)).length := by
  rw [← h.stream, List.length_append]
  exact Nat.le_add_right _ _

theorem Inv.pass (h : Inv s args st) {reads : Bool} {message : Option Message}
    (hmessage : message = if reads then st.sent[st.read]? else none)
    (hreads : reads = true → message.isSome = true) (hmt : Clock turn.mt)
    (htimes : turn.times.1 < 2 ^ 63 ∧ turn.times.2 < 2 ^ 63)
    (hs : SimSession.step s st.sim { turn with read := message.elim .timedOut .message } = some sim') :
    Inv s args { st with sim := sim', read := if reads then st.read + 1 else st.read } := by
  have hread : Turn.message { turn with read := message.elim .timedOut .message } = message := by
    cases message <;> rfl
  have hping : ∀ t, message = some (.ping t) → Clock t.toInt := by
    intro t ht
    rw [hmessage] at ht
    split_ifs at ht
    exact h.sent t (List.mem_of_getElem? ht)
  obtain ⟨new, hitems, hechoes, hmade⟩ := adds_step hs
  have hfine : ∀ item ∈ new, Fine item := fun item hitem =>
    (hmade item hitem).fine hmt htimes (by rwa [hread])
  have hframes : sentFrames s args sim' = sentFrames s args st.sim ++ new.map (frame s args) := by
    rw [sentFrames, hitems, List.map_append]
    rfl
  have hlength : (sentFrames s args st.sim).length = (items st.sim.history).length := List.length_map _
  have htake : (items sim'.history).take st.dispatched = (items st.sim.history).take st.dispatched := by
    rw [hitems, List.take_append_of_le_length (hlength ▸ h.dispatched)]
  have hdrop : (sentFrames s args sim').drop st.dispatched =
      (sentFrames s args st.sim).drop st.dispatched ++ new.map (frame s args) := by
    rw [hframes, List.drop_append_of_le_length h.dispatched]
  refine ⟨SimSession.inv_step h.sim hs, h.sent, ?_, ?_, ?_, ?_, ?_, h.cursor, ?_, ?_, ?_, ?_⟩
  · rw [hitems]
    exact List.forall_mem_append.2 ⟨h.fine, hfine⟩
  · dsimp only
    split_ifs with hr
    · have hsome := hreads hr
      rw [hmessage, if_pos hr] at hsome
      obtain ⟨m, hm⟩ := Option.isSome_iff_exists.1 hsome
      exact (List.getElem?_eq_some_iff.1 hm).1
    · exact h.read
  · show RoundTrip.echoes (items sim'.history) = _
    rw [hitems, echoes_append, h.echoes, hechoes, ← pings_append]
    congr 1
    rw [hread]
    dsimp only
    rw [hmessage]
    split_ifs
    · rw [List.take_add_one]
    · rw [Option.toList_none, List.append_nil]
  · dsimp only
    rw [hframes, encodeAll_append, List.length_append]
    exact h.arrived.trans (Nat.le_add_right _ _)
  · dsimp only
    rw [hframes, List.length_append]
    exact h.dispatched.trans (Nat.le_add_right _ _)
  · dsimp only
    rw [hdrop]
    exact completeIn_append h.retained_le h.waiting _
  · dsimp only
    rw [hdrop, encodeAll_append, ← h.stream, hframes, encodeAll_append,
      List.drop_append_of_le_length h.arrived, List.append_assoc]
  · dsimp only
    rw [htake]
    exact h.pongs
  · dsimp only
    rw [htake]
    exact h.rtt

theorem sent_of_mem_items {item : Item} : ∀ {history : List SimSession.Event}, item ∈ items history →
    .sent item ∈ history
  | .asked :: past, h => List.mem_cons_of_mem _ (sent_of_mem_items (show item ∈ items past from h))
  | .sent item' :: past, h => by
    rcases List.mem_append.1 h with h | h
    · exact List.mem_cons_of_mem _ (sent_of_mem_items h)
    · rw [List.mem_singleton.1 h]
      exact List.mem_cons_self

/-- A unit that is sent is one of the file. -/
theorem Inv.received (h : Inv s args st) {i : ℕ} {times : ℕ × ℕ}
    (hmem : .video i times ∈ items st.sim.history) :
    AccessUnits.Received s.data (s.aus.getD i []) times := by
  obtain ⟨later, past, hhistory⟩ := List.append_of_mem (sent_of_mem_items hmem)
  obtain ⟨-, hlt⟩ := h.sim.order.at later hhistory i times rfl
  have hau : s.aus.getD i [] ∈ AccessUnits.buildAccessUnits s.data := by
    rw [List.getD_eq_getElem _ _ hlt]
    exact List.getElem_mem hlt
  exact AccessUnits.received_unit hau (h.fine _ hmem)

theorem chunk_append (n : ℕ) :
    chunk s args st n ++
        (encodeAll (sentFrames s args st.sim)).drop (st.arrived + (chunk s args st n).length) =
      (encodeAll (sentFrames s args st.sim)).drop st.arrived := by
  have htake : chunk s args st n =
      ((encodeAll (sentFrames s args st.sim)).drop st.arrived).take (chunk s args st n).length := by
    rw [chunk, List.length_take, ← List.take_take, List.take_length]
  rw [← List.drop_drop]
  conv_lhs => lhs; rw [htake]
  exact List.take_append_drop _ _

/-- A read with bytes completes the next `m` frames, and leaves them undisturbed. -/
theorem Inv.feed (h : Inv s args st) {n : ℕ} (hsizes : ∀ f ∈ sentFrames s args st.sim, f.length ≤ kMaxFrameSize)
    (hclean : SplitClean ((sentFrames s args st.sim).drop st.dispatched) st.conn.decoder.retained.length
      [(chunk s args st n).length])
    (hne : chunk s args st n ≠ []) :
    ∃ m, st.dispatched + m ≤ (sentFrames s args st.sim).length ∧
      (st.conn.decoder.feed (chunk s args st n)).valid = true ∧
      (st.conn.decoder.feed (chunk s args st n)).contents =
        (((items st.sim.history).drop st.dispatched).take m).map (frame s args) ∧
      completeIn ((sentFrames s args st.sim).drop (st.dispatched + m))
        (st.conn.decoder.feed (chunk s args st n)).decoder.retained.length = 0 ∧
      (st.conn.decoder.feed (chunk s args st n)).decoder.retained ++
          (encodeAll (sentFrames s args st.sim)).drop (st.arrived + (chunk s args st n).length) =
        encodeAll ((sentFrames s args st.sim).drop (st.dispatched + m)) := by
  have hbytes : (st.conn.decoder.retained ++ chunk s args st n) ++
      (encodeAll (sentFrames s args st.sim)).drop (st.arrived + (chunk s args st n).length) =
        encodeAll ((sentFrames s args st.sim).drop st.dispatched) := by
    rw [List.append_assoc, chunk_append, h.stream]
  obtain ⟨hv, -, hshown, hretained, hstream⟩ := feed_encoded h.cursor
    (fun p hp => hsizes p (List.mem_of_mem_drop hp)) hne hbytes
  refine ⟨completeIn ((sentFrames s args st.sim).drop st.dispatched)
    (st.conn.decoder.retained.length + (chunk s args st n).length), ?_, hv, ?_, ?_, ?_⟩
  · have hle := completeIn_le ((sentFrames s args st.sim).drop st.dispatched)
      (st.conn.decoder.retained.length + (chunk s args st n).length)
    have hdispatched := h.dispatched
    rw [List.length_drop] at hle
    omega
  · rw [hshown.2 hclean.1, sentFrames, ← List.map_drop, ← List.map_take]
  · rw [hretained, ← List.drop_drop]
    exact completeIn_drop _ _
  · rw [hstream, List.drop_drop]

/-- What is heard of the next `m` frames. -/
theorem Inv.hear (h : Inv s args st) {unix : ℕ → ℤ} (hunix : ∀ k, Clock (unix k)) (arrival : ℕ → ℤ)
    (received : UInt64) (m : ℕ) {heard : Heard}
    (hheard : heard = st.heard.handleAll unix 0
      (dispatchFrames parseControlMessage arrival 0 received
        ((((items st.sim.history).drop st.dispatched).take m).map (frame s args))).2) :
    heard.pongs.length = (RoundTrip.echoes ((items st.sim.history).take (st.dispatched + m))).length ∧
      heard.latencies.map (·.lastRttMs) =
        some (lastRtt ((RoundTrip.echoes ((items st.sim.history).take (st.dispatched + m))).zip heard.pongs)) := by
  have hmem : ∀ item ∈ ((items st.sim.history).drop st.dispatched).take m, item ∈ items st.sim.history :=
    fun item hitem => List.mem_of_mem_drop (List.mem_of_mem_take hitem)
  obtain ⟨l, hl, hrtt⟩ := Option.map_eq_some_iff.1 h.rtt
  obtain ⟨new, hnew, hpongs, hlatencies⟩ := handle_frames (s := s) args arrival hunix
    (((items st.sim.history).drop st.dispatched).take m)
    (fun item hitem => ⟨h.fine item (hmem item hitem), fun i times hvideo =>
      h.received (hvideo ▸ hmem item hitem)⟩)
    0 0 received l st.heard.pongs
  have hstart : st.heard = ⟨some l, st.heard.pongs⟩ := by rw [← hl]
  rw [hstart] at hheard
  subst hheard
  rw [List.take_add, echoes_append, hpongs, hlatencies]
  constructor
  · rw [List.length_append, List.length_append, hnew, h.pongs]
  · rw [hrtt, lastRtt, lastRtt, List.zip_append h.pongs.symm, List.foldl_append]

/-- A read with bytes: the frames that it completes are dispatched. -/
theorem Inv.data (h : Inv s args st) {n : ℕ} {unix : ℕ → ℤ} (hit : it.closed = false)
    (hrecv : it.recv = .data (chunk s args st n)) (hunix : ∀ k, Clock (unix k))
    (hsizes : ∀ f ∈ sentFrames s args st.sim, f.length ≤ kMaxFrameSize)
    (hclean : SplitClean ((sentFrames s args st.sim).drop st.dispatched) st.conn.decoder.retained.length
      [(chunk s args st n).length])
    (hne : chunk s args st n ≠ []) (hl : ¬Late st.conn it) :
    Inv s args { st with
      conn := (readIteration parseControlMessage st.conn it).state
      arrived := st.arrived + (chunk s args st n).length
      dispatched := st.dispatched + (frames (readIteration parseControlMessage st.conn it).events).length
      heard := st.heard.handleAll unix 0 (readIteration parseControlMessage st.conn it).events } := by
  obtain ⟨m, hm, hv, hcontents, hwaiting, hstream⟩ := h.feed hsizes hclean hne
  obtain ⟨hevents, hdecoder⟩ := readIteration_valid (p := parseControlMessage) hit hl hrecv hv
  have hcount : (frames (readIteration parseControlMessage st.conn it).events).length = m := by
    have hlength : (sentFrames s args st.sim).length = (items st.sim.history).length := List.length_map _
    rw [(readIteration_data_spec hit hl hrecv).2.2.2, if_pos hv, List.length_map, hcontents, List.length_map,
      List.length_take, List.length_drop]
    omega
  have hheard : st.heard.handleAll unix 0 (readIteration parseControlMessage st.conn it).events =
      st.heard.handleAll unix 0 (dispatchFrames parseControlMessage it.arrival 0 st.conn.framesReceived
        ((((items st.sim.history).drop st.dispatched).take m).map (frame s args))).2 := by
    rw [hevents, handleAll_pings, hcontents]
    rfl
  obtain ⟨hpongs, hlatencies⟩ := h.hear hunix it.arrival st.conn.framesReceived m hheard
  refine ⟨h.sim, h.sent, h.fine, h.read, h.echoes, ?_, ?_, ?_, ?_, ?_, ?_, ?_⟩
  · have hbytes : chunk s args st n ++ _ = _ := chunk_append n
    have hlen := congrArg List.length hbytes
    rw [List.length_append, List.length_drop, List.length_drop] at hlen
    have harrived := h.arrived
    dsimp only
    omega
  · dsimp only
    rwa [hcount]
  · dsimp only
    rw [hdecoder]
    exact cursor_feed h.cursor _
  · dsimp only
    rwa [hdecoder, hcount]
  · dsimp only
    rwa [hdecoder, hcount]
  · dsimp only
    rwa [hcount]
  · dsimp only
    rwa [hcount]

theorem Inv.timedOut (h : Inv s args st) {unix : ℕ → ℤ} (hit : it.closed = false) (hrecv : it.recv = .timedOut)
    (hl : ¬Late st.conn it) :
    Inv s args { st with
      conn := (readIteration parseControlMessage st.conn it).state
      heard := st.heard.handleAll unix 0 (readIteration parseControlMessage st.conn it).events } := by
  have hheard : st.heard.handleAll unix 0 (Net.Session.pings st.conn it) = st.heard := by
    rw [← List.append_nil (Net.Session.pings st.conn it), handleAll_pings]
    rfl
  rw [readIteration_timedOut hit hl hrecv]
  dsimp only
  rw [hheard]
  refine ⟨h.sim, h.sent, h.fine, h.read, h.echoes, h.arrived, h.dispatched, ?_, ?_, ?_, h.pongs, h.rtt⟩
  · dsimp only
    rw [decoder_pinged]
    exact h.cursor
  · dsimp only
    rw [decoder_pinged]
    exact h.waiting
  · dsimp only
    rw [decoder_pinged]
    exact h.stream

theorem Inv.step {label : Label} (h : Inv s args st) (horderly : Orderly s args st label)
    (hs : step s args st label = some st') : Inv s args st' := by
  cases label with
  | send m =>
    obtain rfl := Option.some.inj hs
    exact h.send fun t hm => by
      rw [hm] at horderly
      exact horderly
  | pass reads turn =>
    obtain ⟨hmt, htimes⟩ := horderly
    unfold RoundTrip.step at hs
    dsimp only at hs
    generalize hmessage : (if reads = true then st.sent[st.read]? else none) = message at hs
    by_cases hnone : reads = true ∧ message.isNone = true
    · rw [if_pos hnone] at hs
      cases hs
    rw [if_neg hnone] at hs
    obtain ⟨sim', hsim, rfl⟩ := Option.map_eq_some_iff.1 hs
    refine h.pass hmessage.symm (fun hr => ?_) hmt htimes hsim
    rw [← Option.not_isNone, Bool.not_eq_true', ← Bool.not_eq_true]
    exact fun hisNone => hnone ⟨hr, hisNone⟩
  | recv n now dataNow arrival unix =>
    obtain ⟨hunix, hsizes, hclean⟩ := horderly
    unfold RoundTrip.step at hs
    dsimp only at hs
    by_cases hnil : chunk s args st n = []
    · rw [if_pos hnil, hnil] at hs
      split_ifs at hs with hended
      obtain rfl := Option.some.inj hs
      rw [Option.not_isSome_iff_eq_none] at hended
      have hl := pass_of_goes rfl hended
      have hframes : frames (readIteration parseControlMessage st.conn ⟨false, .timedOut, now, dataNow, arrival⟩).events =
          [] := by
        rw [readIteration_timedOut rfl hl rfl]
        exact frames_pings
      rw [hframes]
      exact h.timedOut rfl rfl hl
    · rw [if_neg hnil] at hs
      split_ifs at hs with hended
      obtain rfl := Option.some.inj hs
      rw [Option.not_isSome_iff_eq_none] at hended
      exact h.data rfl rfl hunix hsizes hclean hnil (pass_of_goes rfl hended)

/-! ## The law -/

/-- **The round trip is exact.** In every run, in which the app sends any messages on any threads and
the bytes of the simulator arrive in any reads that leave the frames apart, no pong is undefined
behaviour; the `k`-th pong is for the `k`-th ping, and the round trip that is stored is the time from a
ping to its pong, that of the last pair for which it is plausible.  There are no more pongs than pings
that were read, and as many once all bytes have arrived. -/
theorem round_trip_exact (h : Reaches (step s args) (Orderly s args) start st) :
    st.heard.latencies.map (·.lastRttMs) = some (lastRtt ((pings st.sent).zip st.heard.pongs)) ∧
      st.heard.pongs.length ≤ (pings (st.sent.take st.read)).length ∧
      (st.arrived = (encodeAll (sentFrames s args st.sim)).length →
        st.heard.pongs.length = (pings (st.sent.take st.read)).length) := by
  have hi : Inv s args st := h.invariant (inv_start s args) fun _ _ _ hi hok hs => hi.step hok hs
  -- the pongs that were dispatched repeat the first pings
  have hbegins : echoes ((items st.sim.history).take st.dispatched) <+: pings (st.sent.take st.read) := by
    rw [← hi.echoes]
    exact (List.take_prefix _ _).filterMap _
  have hsent : pings (st.sent.take st.read) <+: pings st.sent := (List.take_prefix _ _).filterMap _
  obtain ⟨more, hmore⟩ := hbegins.trans hsent
  refine ⟨?_, ?_, ?_⟩
  · have hzip : (echoes ((items st.sim.history).take st.dispatched) ++ more).zip (st.heard.pongs ++ []) =
        (echoes ((items st.sim.history).take st.dispatched)).zip st.heard.pongs ++ more.zip [] :=
      List.zip_append hi.pongs.symm
    rw [List.append_nil, List.zip_nil_right, List.append_nil] at hzip
    rw [hi.rtt, ← hmore, hzip]
  · rw [hi.pongs]
    exact hbegins.length_le
  · intro hall
    -- no frame is left, as those that are would be complete
    have hwaiting := hi.waiting
    have hstream := hi.stream
    rw [hall, List.drop_length, List.append_nil] at hstream
    rw [hstream, completeIn_length, List.length_drop, Nat.sub_eq_zero_iff_le, sentFrames, List.length_map]
      at hwaiting
    rw [hi.pongs, List.take_of_length_le hwaiting, hi.echoes]

/-- `--fps 25.0`. -/
def clipArgs : Args := ⟨640, 480, ⟨false, 25, some ⟨⟨0, Nat.succ_pos _⟩, []⟩, none⟩⟩

/-- A hello and a ping, and the passes in which the simulator reads them. -/
def onePing : List Label :=
  [.send (.hello 1920 1080 96 SimSession.clipIdentity 8000), .send (.ping 1760000000000),
    .pass true (SimSession.clipTurn none), .pass true (SimSession.clipTurn none)]

/-- The first read ends in the length of the second frame. -/
def firstRecv : Label := .recv 45 5 6 (fun _ => 6) fun _ => 1760000000006

/-- The second one takes the rest, 12 ms after the ping. -/
def secondRecv : Label := .recv 65536 11 12 (fun _ => 12) fun _ => 1760000000012

theorem isSome_onePing : (exec (step SimSession.clipSender clipArgs) start onePing).isSome = true := by
  decide +kernel

theorem isSome_firstRecv : (step SimSession.clipSender clipArgs
    ((exec (step SimSession.clipSender clipArgs) start onePing).get isSome_onePing) firstRecv).isSome = true := by
  decide +kernel

theorem isSome_secondRecv : (step SimSession.clipSender clipArgs ((step SimSession.clipSender clipArgs
    ((exec (step SimSession.clipSender clipArgs) start onePing).get isSome_onePing) firstRecv).get
      isSome_firstRecv) secondRecv).isSome = true := by
  decide +kernel

theorem round_trip_exact_onePing :
    ∃ st₁ st₂ st, exec (step SimSession.clipSender clipArgs) start onePing = some st₁ ∧
      step SimSession.clipSender clipArgs st₁ firstRecv = some st₂ ∧
      step SimSession.clipSender clipArgs st₂ secondRecv = some st ∧
      st₂.dispatched = 1 ∧ st.dispatched = 5 ∧
      pings st.sent = [1760000000000] ∧ st.heard.pongs = [1760000000012] ∧
      st.heard.latencies.map (·.lastRttMs) = some 12 ∧
      st.heard.pongs.length = (pings (st.sent.take st.read)).length := by
  have hrun : exec (step SimSession.clipSender clipArgs) start onePing =
      some ((exec (step SimSession.clipSender clipArgs) start onePing).get isSome_onePing) :=
    (Option.some_get isSome_onePing).symm
  have hmeets : Meets (step SimSession.clipSender clipArgs) (Orderly SimSession.clipSender clipArgs) start onePing :=
    meets_of_forall (by simp [onePing, Orderly, Clock, SimSession.clipTurn, Tools.AccessUnits.clipTimes]) _
  have hclock : Clock 6 ∧ Clock 1760000000006 ∧ Clock 1760000000012 := by
    unfold Clock
    decide
  have hreached := ((reaches_of_exec onePing hmeets hrun).move firstRecv
    ⟨fun _ => hclock.2.1, by decide +kernel, by decide +kernel⟩ (Option.some_get isSome_firstRecv).symm).move
      secondRecv ⟨fun _ => hclock.2.2, by decide +kernel, by decide +kernel⟩ (Option.some_get isSome_secondRecv).symm
  obtain ⟨hrtt, -, hall⟩ := round_trip_exact hreached
  refine ⟨_, _, _, hrun, (Option.some_get isSome_firstRecv).symm, (Option.some_get isSome_secondRecv).symm,
    by decide +kernel, by decide +kernel, by decide +kernel, by decide +kernel, hrtt.trans (by decide +kernel),
    hall (by decide +kernel)⟩

end OpenDisplay.App.RoundTrip
