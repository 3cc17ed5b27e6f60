import OpenDisplay.Lib.Machine
import OpenDisplay.Lib.Transition
import OpenDisplay.Protocol.Framing

/-!
# The sending side of a session

Any thread may call `SendControl`, and any thread may call `Close`.  A call builds its frame, waits
for `sendMutex_` and then runs the `send` loop under it, so at most one call is inside.  The labels
are the moves of that call and the `Close` calls of other threads; the result of each `send` is part
of the label.

The ghosts are the bytes that the socket accepted, the calls in the order in which they took the
mutex, and the calls that returned with their results.
-/

namespace OpenDisplay.Net.SendControl

open OpenDisplay.Lib.Machine OpenDisplay.Lib.Transition OpenDisplay.Protocol.Framing

/-- Where the call that holds `sendMutex_` stands. -/
inductive Place
  /-- Before the test of `closed_`. -/
  | entered
  /-- In the loop, with `total` bytes sent. -/
  | sending (total : ℤ)
  /-- A `send` failed; before `Close()`. -/
  | failed (total : ℤ)

/-- The call that holds `sendMutex_`. -/
structure Holder where
  json : List UInt8
  place : Place

structure State where
  closed : Bool
  holder : Option Holder
  accepted : List UInt8
  locked : List (List UInt8)
  returned : List (List UInt8 × Bool)

def start : State where
  closed := false
  holder := none
  accepted := []
  locked := []
  returned := []

/-- `static_cast<int>(wire.size())`. -/
def wireSize (json : List UInt8) : ℤ := castInt (encodeFrame json).length

inductive Label
  /-- A call of `SendControl` takes the mutex. -/
  | lock (json : List UInt8)
  /-- It reads `closed_`. -/
  | check
  /-- `send` accepts `n` bytes. -/
  | send (n : ℕ)
  /-- `send` returns 0 or less. -/
  | sendFails
  /-- The `Close()` of the failed call; it returns false. -/
  | closeFailed
  /-- The loop ends; the call returns true. -/
  | finish
  /-- `Close()` on any thread. -/
  | close

/-- The holder of the mutex returns `ok`. -/
def ret (st : State) (json : List UInt8) (ok : Bool) : State :=
  { st with holder := none, returned := st.returned ++ [(json, ok)] }

/-- The holder of the mutex goes to `place`. -/
def go (st : State) (json : List UInt8) (place : Place) : State :=
  { st with holder := some ⟨json, place⟩ }

def step (st : State) : Label → Option State
  | .lock json =>
    when (st.holder.isNone) { go st json .entered with locked := st.locked ++ [json] }
  | .check =>
    match st.holder with
    | some ⟨json, .entered⟩ =>
      if st.closed then some (ret st json false) else some (go st json (.sending 0))
    | _ => none
  | .send n =>
    match st.holder with
    | some ⟨json, .sending total⟩ =>
      -- `n` of the `wire.size() - total` bytes offered
      when (total < wireSize json ∧ 1 ≤ n ∧ n ≤ wireSize json - total)
        { go st json (.sending (total + n)) with
          accepted := st.accepted ++ ((encodeFrame json).drop total.toNat).take n }
    | _ => none
  | .sendFails =>
    match st.holder with
    | some ⟨json, .sending total⟩ => when (total < wireSize json) (go st json (.failed total))
    | _ => none
  | .closeFailed =>
    match st.holder with
    | some ⟨json, .failed _⟩ => some { ret st json false with closed := true }
    | _ => none
  | .finish =>
    match st.holder with
    | some ⟨json, .sending total⟩ => when (wireSize json ≤ total) (ret st json true)
    | _ => none
  | .close => some { st with closed := true }

/-- The texts are shorter than 2^31 - 4 bytes. -/
def Short (_ : State) : Label → Prop
  | .lock json => json.length < 2147483644
  | _ => True

instance (st : State) : ∀ l, Decidable (Short st l)
  | .lock json => inferInstanceAs (Decidable (json.length < 2147483644))
  | .check | .send _ | .sendFails | .closeFailed | .finish | .close => isTrue trivial

/-! ## The invariant -/

/-- The frames of the calls that returned true. -/
def frames (returned : List (List UInt8 × Bool)) : List UInt8 :=
  (returned.filter Prod.snd).flatMap fun c => encodeFrame c.1

theorem wireSize_eq {json : List UInt8} (h : json.length < 2147483644) :
    wireSize json = (encodeFrame json).length := by
  have hlen := length_encodeFrame json
  unfold kFrameHeaderSize at hlen
  exact castInt_of_range (by omega) (by omega)

theorem frames_true (returned : List (List UInt8 × Bool)) (json : List UInt8) :
    frames (returned ++ [(json, true)]) = frames returned ++ encodeFrame json := by
  simp [frames]

theorem frames_false (returned : List (List UInt8 × Bool)) (json : List UInt8) :
    frames (returned ++ [(json, false)]) = frames returned := by
  simp [frames]

/-- The bytes behind the whole frames when no call is in its loop: none, or the start of the frame
of a call that failed, on a closed session. -/
def Cut (st : State) (cut : List UInt8) : Prop :=
  cut = [] ∨ st.closed = true ∧
    ∃ json, (json, false) ∈ st.returned ∧ cut <+: encodeFrame json ∧ cut ≠ encodeFrame json

/-- The bytes behind the whole frames. -/
def Tail (st : State) (tail : List UInt8) : Prop :=
  match st.holder with
  | none => Cut st tail
  | some ⟨_, .entered⟩ => Cut st tail
  | some ⟨json, .sending total⟩ =>
    0 ≤ total ∧ total ≤ (encodeFrame json).length ∧ tail = (encodeFrame json).take total.toNat
  | some ⟨json, .failed total⟩ =>
    0 ≤ total ∧ total < (encodeFrame json).length ∧ tail = (encodeFrame json).take total.toNat

structure Inv (st : State) : Prop where
  order : st.returned.map Prod.fst ++ st.holder.toList.map Holder.json = st.locked
  short : ∀ h ∈ st.holder, h.json.length < 2147483644
  bytes : ∃ tail, st.accepted = frames st.returned ++ tail ∧ Tail st tail

theorem inv_start : Inv start where
  order := rfl
  short := by
    intro h hh
    cases hh
  bytes := ⟨[], rfl, .inl rfl⟩

variable {st st' : State} {json cut tail : List UInt8}

theorem Cut.ret (h : Cut st cut) (ok : Bool) : Cut (ret st json ok) cut := by
  rcases h with h | ⟨hc, j, hj, hpre, hne⟩
  · exact .inl h
  · exact .inr ⟨hc, j, List.mem_append_left _ hj, hpre, hne⟩

theorem Cut.closed (h : Cut st cut) : Cut { st with closed := true } cut := by
  rcases h with h | ⟨-, hj⟩
  · exact .inl h
  · exact .inr ⟨rfl, hj⟩

theorem Inv.lock (hi : Inv st) (hshort : json.length < 2147483644)
    (hs : step st (.lock json) = some st') : Inv st' := by
  simp only [step, when_eq_some, Option.isNone_iff_eq_none] at hs
  obtain ⟨hnone, rfl⟩ := hs
  obtain ⟨tail, hacc, htail⟩ := hi.bytes
  constructor
  · have horder := hi.order
    rw [hnone] at horder
    simpa [go] using horder
  · intro h hh
    cases hh
    exact hshort
  · refine ⟨tail, hacc, ?_⟩
    simp only [Tail, hnone] at htail
    exact htail

/-- The call that is inside goes to another place, and only the bytes change. -/
theorem Inv.goes {old place : Place} {accepted : List UInt8} (hi : Inv st)
    (hh : st.holder = some ⟨json, old⟩) (hacc : accepted = frames st.returned ++ tail)
    (htail : Tail { go st json place with accepted } tail) :
    Inv { go st json place with accepted } where
  order := by
    have horder := hi.order
    rw [hh] at horder
    simpa [go] using horder
  short := by
    intro h hh'
    cases hh'
    exact hi.short ⟨json, old⟩ hh
  bytes := ⟨tail, hacc, htail⟩

theorem Inv.returns {old : Place} {ok closed : Bool} (hi : Inv st)
    (hh : st.holder = some ⟨json, old⟩)
    (hacc : st.accepted = frames (st.returned ++ [(json, ok)]) ++ cut)
    (hcut : Cut { ret st json ok with closed } cut) : Inv { ret st json ok with closed } where
  order := by
    have horder := hi.order
    rw [hh] at horder
    simpa [ret] using horder
  short := by
    intro h hh'
    cases hh'
  bytes := ⟨cut, hacc, hcut⟩

/-- A call that finds `closed_` set returns; on an open session nothing is cut off. -/
theorem Inv.check (hi : Inv st) (hs : step st .check = some st') : Inv st' := by
  simp only [step] at hs
  split at hs
  case h_2 => cases hs
  case h_1 json hh =>
    obtain ⟨tail, hacc, htail⟩ := hi.bytes
    simp only [Tail, hh] at htail
    split at hs
    · cases hs
      rw [← frames_false st.returned json] at hacc
      exact hi.returns hh hacc (htail.ret false)
    · rename_i hopen
      cases hs
      have hnil : tail = [] := by
        rcases htail with h | ⟨hc, -⟩
        · exact h
        · exact absurd hc hopen
      exact hi.goes hh hacc ⟨by simp, by simp, by simpa using hnil⟩

theorem Inv.send (hi : Inv st) (n : ℕ) (hs : step st (.send n) = some st') : Inv st' := by
  simp only [step] at hs
  split at hs
  case h_2 => cases hs
  case h_1 json total hh =>
    obtain ⟨⟨hlt, hn, hle⟩, rfl⟩ := when_eq_some.1 hs
    obtain ⟨tail, hacc, htail⟩ := hi.bytes
    simp only [Tail, hh] at htail
    obtain ⟨h0, hmax, rfl⟩ := htail
    have hshort : json.length < 2147483644 := hi.short _ hh
    rw [wireSize_eq hshort] at hlt hle
    have hsent : Tail (go st json (.sending (total + n)))
        ((encodeFrame json).take (total + n).toNat) := ⟨by omega, by omega, rfl⟩
    refine hi.goes hh ?_ hsent
    have hnat : (total + n).toNat = total.toNat + n := by omega
    rw [hnat, List.take_add, ← List.append_assoc]
    exact congrArg (· ++ ((encodeFrame json).drop total.toNat).take n) hacc

theorem Inv.sendFails (hi : Inv st) (hs : step st .sendFails = some st') : Inv st' := by
  simp only [step] at hs
  split at hs
  case h_2 => cases hs
  case h_1 json total hh =>
    obtain ⟨hlt, rfl⟩ := when_eq_some.1 hs
    obtain ⟨tail, hacc, htail⟩ := hi.bytes
    simp only [Tail, hh] at htail
    obtain ⟨h0, -, rfl⟩ := htail
    have hshort : json.length < 2147483644 := hi.short _ hh
    rw [wireSize_eq hshort] at hlt
    exact hi.goes hh hacc ⟨h0, hlt, rfl⟩

theorem Inv.closeFailed (hi : Inv st) (hs : step st .closeFailed = some st') : Inv st' := by
  simp only [step] at hs
  split at hs
  case h_2 => cases hs
  case h_1 json total hh =>
    cases hs
    obtain ⟨tail, hacc, htail⟩ := hi.bytes
    simp only [Tail, hh] at htail
    obtain ⟨h0, hlt, rfl⟩ := htail
    rw [← frames_false st.returned json] at hacc
    refine hi.returns hh hacc (.inr ⟨rfl, json, by simp [ret], List.take_prefix _ _, ?_⟩)
    intro heq
    have := congrArg List.length heq
    rw [List.length_take] at this
    omega

theorem Inv.finish (hi : Inv st) (hs : step st .finish = some st') : Inv st' := by
  simp only [step] at hs
  split at hs
  case h_2 => cases hs
  case h_1 json total hh =>
    obtain ⟨hge, rfl⟩ := when_eq_some.1 hs
    obtain ⟨tail, hacc, htail⟩ := hi.bytes
    simp only [Tail, hh] at htail
    obtain ⟨h0, hle, rfl⟩ := htail
    have hshort : json.length < 2147483644 := hi.short _ hh
    rw [wireSize_eq hshort] at hge
    have hnat : (encodeFrame json).length ≤ total.toNat := by omega
    have hall : (encodeFrame json).take total.toNat = encodeFrame json :=
      List.take_of_length_le hnat
    rw [hall, ← frames_true st.returned json, ← List.append_nil (frames _)] at hacc
    exact hi.returns hh hacc (.inl rfl)

theorem Inv.close (hi : Inv st) (hs : step st .close = some st') : Inv st' := by
  cases hs
  obtain ⟨tail, hacc, htail⟩ := hi.bytes
  refine ⟨hi.order, hi.short, tail, hacc, ?_⟩
  simp only [Tail] at htail ⊢
  split at htail
  · exact htail.closed
  · exact htail.closed
  · exact htail
  · exact htail

theorem Inv.step {l : Label} (hi : Inv st) (hok : Short st l) (hs : step st l = some st') :
    Inv st' := by
  cases l with
  | lock json => exact hi.lock hok hs
  | check => exact hi.check hs
  | send n => exact hi.send n hs
  | sendFails => exact hi.sendFails hs
  | closeFailed => exact hi.closeFailed hs
  | finish => exact hi.finish hs
  | close => exact hi.close hs

theorem inv_of_reaches (h : Reaches step Short start st) : Inv st :=
  h.invariant inv_start fun _ _ _ => Inv.step

/-! ## After a failure -/

/-- The session is closed and no call is in its loop. -/
def Stopped (st : State) : Prop := st.closed = true ∧ ∀ h ∈ st.holder, h.place = .entered

theorem stopped_step {l : Label} (h : Stopped st) (hs : step st l = some st') :
    Stopped st' ∧ st'.accepted = st.accepted := by
  obtain ⟨hc, hplace⟩ := h
  cases l with
  | lock json =>
    simp only [step, when_eq_some] at hs
    obtain ⟨-, rfl⟩ := hs
    exact ⟨⟨hc, by rintro h ⟨⟩; rfl⟩, rfl⟩
  | check =>
    simp only [step, hc, if_true] at hs
    split at hs
    · cases hs
      exact ⟨⟨hc, by rintro h ⟨⟩⟩, rfl⟩
    · cases hs
  | close =>
    cases hs
    exact ⟨⟨rfl, hplace⟩, rfl⟩
  -- only a call in its loop takes one of these steps
  | send _ | sendFails | closeFailed | finish =>
    simp only [step] at hs
    split at hs
    · rename_i hh
      cases hplace _ hh
    · cases hs

theorem Stopped.accepted_eq (h : Stopped st) (hr : Reaches step Short st st') :
    st'.accepted = st.accepted := by
  have hinv : Stopped st' ∧ st'.accepted = st.accepted :=
    hr.invariant (I := fun s => Stopped s ∧ s.accepted = st.accepted) ⟨h, rfl⟩ (by
      intro s l s' hs _ hstep
      obtain ⟨hstop, hacc⟩ := stopped_step hs.1 hstep
      exact ⟨hstop, hacc.trans hs.2⟩)
  exact hinv.2

/-! ## The stream -/

/-- `tail` is what the call that is inside has sent so far. -/
def InProgress (st : State) (tail : List UInt8) : Prop := ∃ h ∈ st.holder, tail <+: encodeFrame h.json

/-- `tail` is a proper prefix of the frame of a call that returned false, and nothing follows. -/
def CutOff (st : State) (tail : List UInt8) : Prop :=
  (∃ json, (json, false) ∈ st.returned ∧ tail <+: encodeFrame json ∧ tail ≠ encodeFrame json) ∧
    ∀ later, Reaches step Short st later → later.accepted = st.accepted

/-- Outside the loop, a cut ends the stream. -/
theorem Cut.cutOff (h : Cut st cut) (hplace : ∀ h ∈ st.holder, h.place = .entered) :
    cut = [] ∨ CutOff st cut := by
  rcases h with h | ⟨hc, hj⟩
  · exact .inl h
  · refine .inr ⟨hj, ?_⟩
    intro later hr
    exact Stopped.accepted_eq ⟨hc, hplace⟩ hr

/-- **The outgoing byte stream is whole frames.**  In every state the calls returned in lock order,
and the socket has accepted the frames of the calls that returned true and, behind them, nothing,
what the call inside has sent, or a part of the frame of a failed call, after which no byte is
sent. -/
theorem sendControl_whole_frames (h : Reaches step Short start st) :
    st.returned.map Prod.fst ++ st.holder.toList.map Holder.json = st.locked ∧
      ∃ tail, st.accepted = frames st.returned ++ tail ∧
        (tail = [] ∨ InProgress st tail ∨ CutOff st tail) := by
  have hi := inv_of_reaches h
  refine ⟨hi.order, ?_⟩
  obtain ⟨tail, hacc, htail⟩ := hi.bytes
  refine ⟨tail, hacc, ?_⟩
  simp only [Tail] at htail
  split at htail
  · rename_i hnone
    rcases htail.cutOff (by simp [hnone]) with hcut | hcut
    · exact .inl hcut
    · exact .inr (.inr hcut)
  · rename_i json hh
    rcases htail.cutOff (by simp [hh]) with hcut | hcut
    · exact .inl hcut
    · exact .inr (.inr hcut)
  · rename_i json total hh
    obtain ⟨-, -, rfl⟩ := htail
    exact .inr (.inl ⟨⟨json, .sending total⟩, hh, List.take_prefix _ _⟩)
  · rename_i json total hh
    obtain ⟨-, -, rfl⟩ := htail
    exact .inr (.inl ⟨⟨json, .failed total⟩, hh, List.take_prefix _ _⟩)

/-- A call whose frame goes out in two parts, and one cut off after a byte. -/
def twoCalls : List Label :=
  [.lock [123, 125], .check, .send 4, .send 2, .finish, .lock [123, 125], .check, .send 1, .close,
    .sendFails, .closeFailed]

theorem sendControl_whole_frames_twoCalls :
    ∃ st, exec step start twoCalls = some st ∧ st.accepted = encodeFrame [123, 125] ++ [0] ∧
      st.returned = [([123, 125], true), ([123, 125], false)] ∧
      ∃ tail, st.accepted = frames st.returned ++ tail ∧
        (tail = [] ∨ InProgress st tail ∨ CutOff st tail) := by
  have hr : Reaches step Short start ((exec step start twoCalls).get (by decide)) :=
    reaches_of_exec twoCalls (by decide) (by simp)
  exact ⟨_, by simp, by decide, by decide, (sendControl_whole_frames hr).2⟩

end OpenDisplay.Net.SendControl
