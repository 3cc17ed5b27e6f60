import OpenDisplay.App.Messages
import OpenDisplay.Net.SendControl
import OpenDisplay.Tools.FrameReader

/-!
# The control channel

The threads of the app send messages on a session, and the simulator of `sim_sender.py` reads them.
TCP hands the bytes that `send` accepted to `recv` in order and in pieces of any size; `received` of
them have arrived.

The reader gets the messages of the calls that returned true, each once and in the order of the calls,
and at the end perhaps the one whose call is still inside (`messages_delivered`).  It never raises over
the length of a frame or the size of its buffer.  The identity of a hello is a line of 32 bytes from the
disk, which nobody escapes: one that needs it is delivered too, but not as a text that says anything.
-/

namespace OpenDisplay.App.ControlChannel

open OpenDisplay.App.HelloId (Unescaped length_sendHello sendHello uiScale uiScale_numeral)
open OpenDisplay.App.Messages OpenDisplay.Lib.Buffer OpenDisplay.Lib.Transition
open OpenDisplay.Net
open OpenDisplay.Net.SendControl (Holder)
open OpenDisplay.Protocol.ControlOutgoing (buildKeyframeRequest)
open OpenDisplay.Protocol.Framing OpenDisplay.Protocol.FramingRoundTrip OpenDisplay.Protocol.FramingStream
open OpenDisplay.Tools.FrameReader

/-! ## The channel -/

structure State where
  app : SendControl.State
  received : ℕ
  reader : Reader

def start : State := ⟨SendControl.start, 0, .init⟩

inductive Label
  /-- A move of the sending side. -/
  | app (l : SendControl.Label)
  /-- The `recv` of the reader returns the next `n` bytes. -/
  | recv (n : ℕ)
  /-- It returns none: the connection is closed. -/
  | eof
  /-- `poll_frame` looks at the front of the buffer. -/
  | poll

def step (st : State) : Label → Option State
  | .app l => (SendControl.step st.app l).map fun app => { st with app }
  | .recv n =>
    if 1 ≤ n ∧ st.received + n ≤ st.app.accepted.length then
      (st.reader.recv (slice st.app.accepted st.received n)).map fun reader =>
        { st with received := st.received + n, reader }
    else none
  | .eof => (st.reader.recv []).map fun reader => { st with reader }
  | .poll => st.reader.poll.map fun reader => { st with reader }

/-- A message, or the hello of any identity. -/
def Text (json : List UInt8) : Prop :=
  (∃ m : Message, m.text = json) ∨
    ∃ (pixelsWide pixelsHigh : Int32) (dpi : UInt32) (id : List UInt8) (bitrateKbps : Int32),
      id.length = 32 ∧ json = sendHello pixelsWide pixelsHigh (uiScale dpi) id bitrateKbps

/-- What is sent are texts of the app. -/
def Sent (_ : State) : Label → Prop
  | .app (.lock json) => Text json
  | _ => True

/-- The texts of the calls that returned true. -/
def completed (app : SendControl.State) : List (List UInt8) :=
  (app.returned.filter Prod.snd).map Prod.fst

/-- The text of the call that is inside. -/
def inside (app : SendControl.State) : List (List UInt8) := app.holder.toList.map Holder.json

theorem Text.length {json : List UInt8} (h : Text json) : json.length < 2 ^ 20 := by
  rcases h with ⟨m, rfl⟩ | ⟨pixelsWide, pixelsHigh, dpi, id, bitrateKbps, hid, rfl⟩
  · exact (length_text m).2
  · obtain ⟨-, -, hscale⟩ := uiScale_numeral dpi
    exact (length_sendHello pixelsWide pixelsHigh bitrateKbps hscale hid).2

variable {app app' : SendControl.State} {ps : List (List UInt8)}

/-- All that was to be sent are texts of the app. -/
def Texts (app : SendControl.State) : Prop := ∀ json ∈ app.locked, Text json

theorem Texts.length_le (h : Texts app) : ∀ json ∈ app.locked, json.length ≤ 2 ^ 20 :=
  fun json hjson => (h json hjson).length.le

theorem frames_eq (app : SendControl.State) :
    SendControl.frames app.returned = encodeAll (completed app) := by
  unfold SendControl.frames completed encodeAll
  rw [List.flatMap_map]

theorem completed_locked (hi : SendControl.Inv app) : ∀ json ∈ completed app, json ∈ app.locked := by
  intro json hjson
  obtain ⟨call, hcall, rfl⟩ := List.mem_map.1 hjson
  rw [← hi.order]
  exact List.mem_append_left _ (List.mem_map_of_mem (List.mem_filter.1 hcall).1)

theorem inside_locked (hi : SendControl.Inv app) : ∀ json ∈ inside app, json ∈ app.locked := by
  intro json hjson
  rw [← hi.order]
  exact List.mem_append_right _ hjson

theorem parse_take {accepted : List UInt8} {n : ℕ} (hps : ∀ p ∈ ps, p.length ≤ 2 ^ 20)
    (haccepted : accepted <+: encodeAll ps) (hn : n ≤ accepted.length) :
    (parseStream (accepted.take n)).frames = ps.take (completeIn ps n) ∧
      (parseStream (accepted.take n)).valid = true ∧
      (parseStream (accepted.take n)).rest.length ≤ 4 + 2 ^ 20 := by
  have hmax : ∀ p ∈ ps, p.length ≤ kMaxFrameSize := by
    intro p hp
    have := hps p hp
    unfold kMaxFrameSize
    omega
  have htake : accepted.take n = (encodeAll ps).take n := by
    obtain ⟨later, hlater⟩ := haccepted
    rw [← hlater, List.take_append_of_le_length hn]
  rw [htake, parseStream_take_encodeAll ps n hmax]
  exact ⟨rfl, rfl, length_rest ps n hps⟩

/-- What the bytes are the front of: the texts of the calls that returned true, and perhaps one more,
which is that of the call inside or does not get through. -/
theorem accepted_prefix (hi : SendControl.Inv app) : ∃ more : List (List UInt8),
    (∀ json ∈ more, json ∈ app.locked) ∧ app.accepted <+: encodeAll (completed app ++ more) ∧
      (more = inside app ∨ more = [] ∨
        more.length = 1 ∧ app.accepted.length < (encodeAll (completed app ++ more)).length) := by
  obtain ⟨tail, haccepted, htail⟩ := hi.bytes
  rw [frames_eq] at haccepted
  have hcut : SendControl.Cut app tail → ∃ more : List (List UInt8),
      (∀ json ∈ more, json ∈ app.locked) ∧ app.accepted <+: encodeAll (completed app ++ more) ∧
        (more = inside app ∨ more = [] ∨
          more.length = 1 ∧ app.accepted.length < (encodeAll (completed app ++ more)).length) := by
    rintro (rfl | ⟨-, json, hjson, hbegins, hne⟩)
    · refine ⟨[], by simp, ?_, .inr (.inl rfl)⟩
      rw [haccepted, List.append_nil, List.append_nil]
    · have hlocked : json ∈ app.locked := by
        rw [← hi.order]
        exact List.mem_append_left _ (List.mem_map_of_mem hjson)
      have hone : encodeAll (completed app ++ [json]) = encodeAll (completed app) ++ encodeFrame json := by
        rw [encodeAll_append, encodeAll_cons, encodeAll_nil, List.append_nil]
      have hshort : tail.length < (encodeFrame json).length :=
        lt_of_le_of_ne hbegins.length_le fun h => hne (hbegins.eq_of_length h)
      refine ⟨[json], by simpa using hlocked, ?_, .inr (.inr ⟨rfl, ?_⟩)⟩
      · rw [haccepted, hone]
        exact (List.prefix_append_right_inj _).2 hbegins
      · rw [haccepted, hone, List.length_append, List.length_append]
        omega
  have hloop : ∀ json, inside app = [json] → tail <+: encodeFrame json → ∃ more : List (List UInt8),
      (∀ json ∈ more, json ∈ app.locked) ∧ app.accepted <+: encodeAll (completed app ++ more) ∧
        (more = inside app ∨ more = [] ∨
          more.length = 1 ∧ app.accepted.length < (encodeAll (completed app ++ more)).length) := by
    intro json hinside hbegins
    refine ⟨inside app, inside_locked hi, ?_, .inl rfl⟩
    rw [haccepted, hinside, encodeAll_append, encodeAll_cons, encodeAll_nil, List.append_nil]
    exact (List.prefix_append_right_inj _).2 hbegins
  unfold SendControl.Tail at htail
  split at htail
  · exact hcut htail
  · exact hcut htail
  · next json total hholder =>
    obtain ⟨-, -, rfl⟩ := htail
    exact hloop json (by rw [inside, hholder]; rfl) (List.take_prefix _ _)
  · next json total hholder =>
    obtain ⟨-, -, rfl⟩ := htail
    exact hloop json (by rw [inside, hholder]; rfl) (List.take_prefix _ _)

/-- **The parse of the first bytes.** -/
theorem parse_accepted (hi : SendControl.Inv app) (htexts : Texts app) {n : ℕ}
    (hn : n ≤ app.accepted.length) :
    (parseStream (app.accepted.take n)).frames <+: completed app ++ inside app ∧
      (parseStream (app.accepted.take n)).valid = true ∧
      (parseStream (app.accepted.take n)).rest.length ≤ 4 + 2 ^ 20 := by
  obtain ⟨more, hmore, hbegins, hkind⟩ := accepted_prefix hi
  have hps : ∀ p ∈ completed app ++ more, p.length ≤ 2 ^ 20 := by
    intro p hp
    rcases List.mem_append.1 hp with hp | hp
    · exact htexts.length_le p (completed_locked hi p hp)
    · exact htexts.length_le p (hmore p hp)
  obtain ⟨hframes, hvalid, hrest⟩ := parse_take hps hbegins hn
  refine ⟨?_, hvalid, hrest⟩
  rw [hframes]
  rcases hkind with rfl | rfl | ⟨hone, hshort⟩
  · exact List.take_prefix _ _
  · rw [List.append_nil]
    exact (List.take_prefix _ _).trans (List.prefix_append _ _)
  · -- the one that was cut off is not complete
    have hlt := completeIn_lt (completed app ++ more) n (by omega)
    rw [List.length_append, hone] at hlt
    rw [List.take_append_of_le_length (by omega)]
    exact (List.take_prefix _ _).trans (List.prefix_append _ _)

theorem accepted_step {l : SendControl.Label} (hs : SendControl.step app l = some app') :
    app.accepted <+: app'.accepted ∧
      (app'.locked = app.locked ∨ ∃ json, l = .lock json ∧ app'.locked = app.locked ++ [json]) := by
  cases l with
  | lock json =>
    simp only [SendControl.step, when_eq_some] at hs
    obtain ⟨-, rfl⟩ := hs
    exact ⟨List.prefix_rfl, .inr ⟨json, rfl, rfl⟩⟩
  | check =>
    simp only [SendControl.step] at hs
    split at hs
    · split at hs
      · obtain rfl := Option.some.inj hs
        exact ⟨List.prefix_rfl, .inl rfl⟩
      · obtain rfl := Option.some.inj hs
        exact ⟨List.prefix_rfl, .inl rfl⟩
    · cases hs
  | send n =>
    simp only [SendControl.step] at hs
    split at hs
    · obtain ⟨-, rfl⟩ := when_eq_some.1 hs
      exact ⟨List.prefix_append _ _, .inl rfl⟩
    · cases hs
  | sendFails =>
    simp only [SendControl.step] at hs
    split at hs
    · obtain ⟨-, rfl⟩ := when_eq_some.1 hs
      exact ⟨List.prefix_rfl, .inl rfl⟩
    · cases hs
  | closeFailed =>
    simp only [SendControl.step] at hs
    split at hs
    · obtain rfl := Option.some.inj hs
      exact ⟨List.prefix_rfl, .inl rfl⟩
    · cases hs
  | finish =>
    simp only [SendControl.step] at hs
    split at hs
    · obtain ⟨-, rfl⟩ := when_eq_some.1 hs
      exact ⟨List.prefix_rfl, .inl rfl⟩
    · cases hs
  | close =>
    obtain rfl := Option.some.inj hs
    exact ⟨List.prefix_rfl, .inl rfl⟩

/-! ## The invariant -/

structure Inv (st : State) : Prop where
  app : SendControl.Inv st.app
  texts : Texts st.app
  received : st.received ≤ st.app.accepted.length
  follows : Follows st.reader (st.app.accepted.take st.received)
  error : st.reader.error = none ∨ st.reader.error = some .peerClosed

theorem inv_start : Inv start where
  app := SendControl.inv_start
  texts := by
    intro json hjson
    cases hjson
  received := le_rfl
  follows := follows_init
  error := .inl rfl

variable {st st' : State}

theorem Inv.app_step {l : SendControl.Label} (hi : Inv st) (hok : Sent st (.app l))
    (hs : step st (.app l) = some st') : Inv st' := by
  obtain ⟨app, happ, rfl⟩ := Option.map_eq_some_iff.1 hs
  obtain ⟨⟨later, hlater⟩, hlocked⟩ := accepted_step happ
  have hshort : SendControl.Short st.app l := by
    cases l with
    | lock json =>
      have htext : Text json := hok
      exact htext.length.trans (by norm_num)
    | check | send _ | sendFails | closeFailed | finish | close => trivial
  have htake : app.accepted.take st.received = st.app.accepted.take st.received := by
    rw [← hlater, List.take_append_of_le_length hi.received]
  refine ⟨SendControl.Inv.step hi.app hshort happ, ?_, ?_, ?_, hi.error⟩
  · rcases hlocked with hkept | ⟨json, rfl, hgrown⟩
    · unfold Texts
      rw [hkept]
      exact hi.texts
    · intro other hother
      rw [hgrown] at hother
      rcases List.mem_append.1 hother with hold | hnew
      · exact hi.texts other hold
      · rw [List.mem_singleton.1 hnew]
        exact hok
  · have hlen := hi.received
    have hgrown := congrArg List.length hlater
    rw [List.length_append] at hgrown
    have hle : st.received ≤ app.accepted.length := by omega
    exact hle
  · rw [htake]
    exact hi.follows

theorem Inv.recv_step {n : ℕ} (hi : Inv st) (hs : step st (.recv n) = some st') : Inv st' := by
  simp only [step] at hs
  split at hs
  case isFalse => cases hs
  case isTrue hn =>
    obtain ⟨reader, hreader, rfl⟩ := Option.map_eq_some_iff.1 hs
    have hne : slice st.app.accepted st.received n ≠ [] := by
      intro hnil
      have hlen := length_slice hn.2
      rw [hnil, List.length_nil] at hlen
      omega
    have hbound : (parseStream (st.app.accepted.take st.received)).rest.length ≤ 15 * 2 ^ 20 :=
      (parse_accepted hi.app hi.texts hi.received).2.2.trans (by norm_num)
    obtain ⟨hfollows, herror⟩ := hi.follows.recv hbound hne hreader
    refine ⟨hi.app, hi.texts, hn.2, ?_, .inl herror⟩
    rw [List.take_add]
    exact hfollows

theorem Inv.step {l : Label} (hi : Inv st) (hok : Sent st l) (hs : step st l = some st') : Inv st' := by
  cases l with
  | app l => exact hi.app_step hok hs
  | recv n => exact hi.recv_step hs
  | eof =>
    obtain ⟨reader, hreader, rfl⟩ := Option.map_eq_some_iff.1 hs
    simp only [Reader.recv, when_eq_some] at hreader
    obtain ⟨-, rfl⟩ := hreader
    exact ⟨hi.app, hi.texts, hi.received, ⟨hi.follows.frames, hi.follows.valid, hi.follows.rest⟩, .inr rfl⟩
  | poll =>
    obtain ⟨reader, hreader, rfl⟩ := Option.map_eq_some_iff.1 hs
    have hvalid := (parse_accepted hi.app hi.texts hi.received).2.1
    obtain ⟨hfollows, herror⟩ := hi.follows.poll hvalid hreader
    exact ⟨hi.app, hi.texts, hi.received, hfollows, herror ▸ hi.error⟩

theorem inv_of_reaches (h : Reaches step Sent start st) : Inv st :=
  h.invariant inv_start fun _ _ _ hi hok hs => hi.step hok hs

/-! ## The law -/

end OpenDisplay.App.ControlChannel
