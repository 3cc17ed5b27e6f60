import Mathlib.Data.Int.Notation
import OpenDisplay.App.Messages
import OpenDisplay.Lib.Trace
import OpenDisplay.Lib.Transition
import OpenDisplay.Tools.AccessUnits

/-!
# The session of the simulator

`SimSender.session` is one loop: it reads a message of the app or times out, answers it, sends a ping
now and then, and sends the next access unit when it is due.  A `Turn` is one pass through the loop,
with what was read and with what its clock decides.  The messages are those of the app, which
`json.loads` reads (`Messages.says_text`); what it does not read is skipped.

A `history` tells what the session was asked for and what it sent, the newest event first.  `expect`
reads off it which access unit comes next: the first keyframe of the file at the start and after every
request, else the one behind the last one, and the first keyframe again at the end of the file.
-/

namespace OpenDisplay.Tools.SimSession

open OpenDisplay.App.Messages OpenDisplay.Lib.JsonString OpenDisplay.Lib.Trace
open OpenDisplay.Lib.Transition OpenDisplay.Protocol.AnnexB OpenDisplay.Tools.AccessUnits

/-! ## The sender -/

/-- `idr_indexes` of a file. -/
def idrIndexes (data : List UInt8) : List ℕ :=
  (List.range (buildAccessUnits data).length).filter fun i =>
    naluIsIdr data ((buildAccessUnits data).getD i [])

/-- `SimSender`; a file without IDR frames ends the program. -/
structure SimSender where
  data : List UInt8
  loop : Bool
  playable : idrIndexes data ≠ []

/-- `self.aus`. -/
def SimSender.aus (s : SimSender) : List (List (ℕ × ℕ)) := buildAccessUnits s.data

/-- `self.idr_indexes[0]`. -/
def SimSender.firstIdr (s : SimSender) : ℕ := (idrIndexes s.data).headD 0

/-- What the session sends. -/
inductive Item
  | welcome
  | streamConfig
  | pong (t mt : ℤ)
  | ping
  /-- The access unit `i`, with its times. -/
  | video (i : ℕ) (times : ℕ × ℕ)
  deriving DecidableEq

inductive Event
  /-- A message that asks for a keyframe was read. -/
  | asked
  | sent (item : Item)
  deriving DecidableEq

inductive Ending
  /-- The session returns. -/
  | returned
  /-- An index is `None` or out of range. -/
  | crashed
  deriving DecidableEq

structure State where
  sentWelcome : Bool
  needIdr : Bool
  auIndex : Option ℕ
  history : List Event
  ending : Option Ending

/-- `__init__` and the lines in front of the loop. -/
def start : State where
  sentWelcome := false
  needIdr := true
  auIndex := none
  history := []
  ending := none

/-- What `poll_frame` returns in a pass. -/
inductive Read
  | timedOut
  /-- `json.loads` reads it. -/
  | message (m : Message)
  /-- It begins with a brace, and `json.loads` raises. -/
  | undecodable
  /-- It does not begin with a brace. -/
  | unexpected

structure Turn where
  read : Read
  /-- `now_ms()` for a pong. -/
  mt : ℤ
  /-- Two seconds have passed since the last ping. -/
  pingDue : Bool
  /-- `next_frame_at` has come. -/
  frameDue : Bool
  times : ℕ × ℕ

/-- The message of the pass. -/
def Turn.message (turn : Turn) : Option Message :=
  match turn.read with
  | .message m => some m
  | .timedOut | .undecodable | .unexpected => none

def State.log (st : State) (e : Event) : State := { st with history := e :: st.history }

def State.send (st : State) (item : Item) : State := st.log (.sent item)

/-- The branches over the type of the message. -/
def answer (st : State) (turn : Turn) : Message → State
  | .hello .. =>
    { (((st.log .asked).send .welcome).send .streamConfig) with sentWelcome := true, needIdr := true }
  | .ping tMs => st.send (.pong tMs.toInt turn.mt)
  | .keyframeRequest => { st.log .asked with needIdr := true }
  | .closing => { st with ending := some .returned }
  | .touch .. | .scroll _ | .stats .. => st

/-- The ping of the sender. -/
def beat (st : State) (turn : Turn) : State :=
  if st.sentWelcome = true ∧ turn.pingDue = true then st.send .ping else st

/-- The index behind the one that was sent. -/
def advance (s : SimSender) (st : State) (i : ℕ) : State :=
  if s.loop then
    if s.aus.length ≤ i + 1 then { st with auIndex := some s.firstIdr, needIdr := false }
    else { st with auIndex := some (i + 1) }
  else if s.aus.length ≤ i + 1 then { st with auIndex := none, needIdr := true }
  else { st with auIndex := some (i + 1) }

/-- An access unit is sent. -/
def sendUnit (s : SimSender) (st : State) (times : ℕ × ℕ) : State :=
  match st.auIndex with
  | none => { st with ending := some .crashed }
  | some i =>
    if i < s.aus.length then
      let st := if naluIsIdr s.data (s.aus.getD i []) then { st with needIdr := false } else st
      advance s (st.send (.video i times)) i
    else { st with ending := some .crashed }

/-- The video part of the loop. -/
def video (s : SimSender) (st : State) (turn : Turn) : State :=
  if st.sentWelcome = false then st
  else if st.needIdr then
    -- `next_frame_at` is set to the time that was read
    sendUnit s { st with auIndex := some s.firstIdr, needIdr := false } turn.times
  else if turn.frameDue then sendUnit s st turn.times
  else st

/-- One pass through the loop. -/
def step (s : SimSender) (st : State) (turn : Turn) : Option State :=
  if st.ending.isSome then none
  else
    match turn.read with
    | .undecodable => some st
    | .message m =>
      let answered := answer st turn m
      if answered.ending.isSome then some answered else some (video s (beat answered turn) turn)
    | .timedOut | .unexpected => some (video s (beat st turn) turn)

/-! ## What was sent -/

/-- Which access unit is due. -/
inductive Expect
  | restart
  | behind (i : ℕ)
  deriving DecidableEq

def expect : List Event → Expect
  | [] => .restart
  | .asked :: _ => .restart
  | .sent (.video i _) :: _ => .behind i
  | .sent _ :: past => expect past

/-- The unit `i` is due. -/
def Due (s : SimSender) (i : ℕ) : Expect → Prop
  | .restart => i = s.firstIdr
  | .behind j => i = j + 1 ∨ s.aus.length = j + 1 ∧ i = s.firstIdr

/-- A unit was due when it was sent, and is one of the file. -/
def InTurn (s : SimSender) (e : Event) (past : List Event) : Prop :=
  ∀ i times, e = .sent (.video i times) → Due s i (expect past) ∧ i < s.aus.length

def Item.isPong : Item → Bool
  | .pong _ _ => true
  | .welcome | .streamConfig | .ping | .video _ _ => false

/-- Nothing but pongs was sent. -/
def Quiet (history : List Event) : Prop := ∀ item, Event.sent item ∈ history → item.isPong = true

/-- The greeting came first, but for pongs. -/
def Greeted (history : List Event) : Prop :=
  ∃ later past, Quiet past ∧ history = later ++ .sent .streamConfig :: .sent .welcome :: past

/-! ## The invariant -/

structure Inv (s : SimSender) (st : State) : Prop where
  ending : st.ending ≠ some .crashed
  order : Each (InTurn s) st.history
  quiet : st.sentWelcome = false → Quiet st.history
  greeted : st.sentWelcome = true → Greeted st.history
  /-- Where no keyframe is needed the index is the unit that is due. -/
  index : st.needIdr = false → ∃ i, st.auIndex = some i ∧ i < s.aus.length ∧ Due s i (expect st.history)
  /-- Where one is needed it is due. -/
  restart : st.needIdr = true → Due s s.firstIdr (expect st.history)

variable {s : SimSender} {st st' : State} {turn : Turn}

theorem firstIdr_mem (s : SimSender) : s.firstIdr ∈ idrIndexes s.data := by
  obtain ⟨i, rest, hi⟩ := List.exists_cons_of_ne_nil s.playable
  unfold SimSender.firstIdr
  rw [hi]
  exact List.mem_cons_self

theorem firstIdr_lt (s : SimSender) : s.firstIdr < s.aus.length :=
  List.mem_range.1 (List.mem_filter.1 (firstIdr_mem s)).1

theorem inv_start (s : SimSender) : Inv s start where
  ending := nofun
  order := trivial
  quiet := fun _ _ h => nomatch h
  greeted := nofun
  index := nofun
  restart := fun _ => rfl

/-! ## One pass -/

theorem inTurn_of_ne {e : Event} {past : List Event} (h : ∀ i times, e ≠ .sent (.video i times)) :
    InTurn s e past :=
  fun i times he => absurd he (h i times)

theorem Greeted.cons {history : List Event} (h : Greeted history) (e : Event) :
    Greeted (e :: history) := by
  obtain ⟨later, past, hquiet, rfl⟩ := h
  exact ⟨e :: later, past, hquiet, rfl⟩

theorem Quiet.cons {history : List Event} (h : Quiet history) {e : Event}
    (he : ∀ item, e = .sent item → item.isPong = true) : Quiet (e :: history) := by
  intro item hitem
  rcases List.mem_cons.1 hitem with heq | hin
  · exact he item heq.symm
  · exact h item hin

/-- A pong, which may be sent at any time. -/
theorem Inv.pong (h : Inv s st) (t mt : ℤ) : Inv s (st.send (.pong t mt)) where
  ending := h.ending
  order := ⟨inTurn_of_ne nofun, h.order⟩
  quiet := fun hw => (h.quiet hw).cons fun item hitem => by
    cases hitem
    rfl
  greeted := fun hw => (h.greeted hw).cons _
  index := h.index
  restart := h.restart

theorem Inv.ping (h : Inv s st) (hw : st.sentWelcome = true) : Inv s (st.send .ping) where
  ending := h.ending
  order := ⟨inTurn_of_ne nofun, h.order⟩
  quiet := fun hw' => absurd (hw.symm.trans hw') nofun
  greeted := fun hw => (h.greeted hw).cons _
  index := h.index
  restart := h.restart

/-- A request for a keyframe. -/
theorem Inv.asked (h : Inv s st) : Inv s { st.log .asked with needIdr := true } where
  ending := h.ending
  order := ⟨inTurn_of_ne nofun, h.order⟩
  quiet := fun hw => (h.quiet hw).cons nofun
  greeted := fun hw => (h.greeted hw).cons _
  index := nofun
  restart := fun _ => rfl

/-- A hello, the first one or a later one. -/
theorem Inv.hello (h : Inv s st) :
    Inv s { (((st.log .asked).send .welcome).send .streamConfig) with
      sentWelcome := true, needIdr := true } where
  ending := h.ending
  order := ⟨inTurn_of_ne nofun, inTurn_of_ne nofun, inTurn_of_ne nofun, h.order⟩
  quiet := nofun
  greeted := by
    intro _
    cases hw : st.sentWelcome with
    | true => exact (((h.greeted hw).cons _).cons _).cons _
    | false => exact ⟨[], .asked :: st.history, (h.quiet hw).cons nofun, rfl⟩
  index := nofun
  restart := fun _ => rfl

theorem Inv.answer (h : Inv s st) (turn : Turn) (m : Message) : Inv s (answer st turn m) := by
  cases m with
  | hello => exact h.hello
  | ping tMs => exact h.pong _ _
  | keyframeRequest => exact h.asked
  | closing => exact ⟨nofun, h.order, h.quiet, h.greeted, h.index, h.restart⟩
  | touch => exact h
  | scroll => exact h
  | stats => exact h

theorem Inv.beat (h : Inv s st) (turn : Turn) : Inv s (beat st turn) := by
  unfold SimSession.beat
  split_ifs with hdue
  · exact h.ping hdue.1
  · exact h

theorem Inv.sendUnit (h : Inv s st) (hw : st.sentWelcome = true) (hneed : st.needIdr = false)
    (times : ℕ × ℕ) : Inv s (sendUnit s st times) := by
  obtain ⟨i, hi, hlt, hdue⟩ := h.index hneed
  -- whatever the end of the pass makes of the index
  have hlog : ∀ (needIdr : Bool) (auIndex : Option ℕ),
      (needIdr = false → ∃ j, auIndex = some j ∧ j < s.aus.length ∧ Due s j (.behind i)) →
      (needIdr = true → Due s s.firstIdr (.behind i)) →
      Inv s { st.send (.video i times) with needIdr := needIdr, auIndex := auIndex } := by
    intro needIdr auIndex hindex hrestart
    refine ⟨h.ending, ⟨?_, h.order⟩, fun hw' => absurd (hw.symm.trans hw') nofun,
      fun hw => (h.greeted hw).cons _, hindex, hrestart⟩
    intro j times' hj
    cases hj
    exact ⟨hdue, hlt⟩
  have hkeep : (if naluIsIdr s.data (s.aus.getD i []) then { st with needIdr := false } else st) = st := by
    rw [← hneed]
    exact ite_self st
  rw [hi] at hkeep
  have hend : s.aus.length ≤ i + 1 → Due s s.firstIdr (.behind i) := fun hle =>
    .inr ⟨by omega, rfl⟩
  have hnext : ¬s.aus.length ≤ i + 1 → ∃ j, some (i + 1) = some j ∧ j < s.aus.length ∧
      Due s j (.behind i) := fun hle => ⟨i + 1, rfl, by omega, .inl rfl⟩
  unfold SimSession.sendUnit
  rw [hi]
  dsimp only
  rw [if_pos hlt, hkeep]
  unfold advance
  split_ifs with hloop hle hle
  · exact hlog false _ (fun _ => ⟨s.firstIdr, rfl, firstIdr_lt s, hend hle⟩) nofun
  · exact hlog st.needIdr _ (fun _ => hnext hle) fun hn => absurd (hneed.symm.trans hn) nofun
  · exact hlog true _ nofun fun _ => hend hle
  · exact hlog st.needIdr _ (fun _ => hnext hle) fun hn => absurd (hneed.symm.trans hn) nofun

theorem Inv.video (h : Inv s st) (turn : Turn) : Inv s (video s st turn) := by
  unfold SimSession.video
  split_ifs with hw hneed hframe
  · exact h
  · have hw : st.sentWelcome = true := Bool.eq_true_of_not_eq_false hw
    have hset : Inv s { st with auIndex := some s.firstIdr, needIdr := false } :=
      ⟨h.ending, h.order, h.quiet, h.greeted, fun _ => ⟨_, rfl, firstIdr_lt s, h.restart hneed⟩, nofun⟩
    exact hset.sendUnit hw rfl _
  · exact h.sendUnit (Bool.eq_true_of_not_eq_false hw) (Bool.eq_false_of_not_eq_true hneed) _
  · exact h

/-- What a pass makes of its message. -/
def answered (st : State) (turn : Turn) : State := turn.message.elim st (answer st turn)

/-- A pass is skipped, or the session ends with the message, or it goes on to the video. -/
theorem step_cases (hs : step s st turn = some st') :
    st' = st ∧ turn.message = none ∨ st' = answered st turn ∨ st' = video s (beat (answered st turn) turn) turn := by
  unfold step at hs
  split_ifs at hs
  cases hread : turn.read with
  | undecodable =>
    rw [hread] at hs
    exact .inl ⟨(Option.some.inj hs).symm, by rw [Turn.message, hread]⟩
  | message m =>
    have hanswered : answered st turn = answer st turn m := by rw [answered, Turn.message, hread]; rfl
    rw [hread] at hs
    dsimp only at hs
    rw [hanswered]
    split_ifs at hs
    · exact .inr (.inl (Option.some.inj hs).symm)
    · exact .inr (.inr (Option.some.inj hs).symm)
  | timedOut | unexpected =>
    have hanswered : answered st turn = st := by rw [answered, Turn.message, hread]; rfl
    rw [hread] at hs
    rw [hanswered]
    exact .inr (.inr (Option.some.inj hs).symm)

theorem Inv.answered (h : Inv s st) (turn : Turn) : Inv s (answered st turn) := by
  unfold SimSession.answered
  cases turn.message with
  | none => exact h
  | some m => exact h.answer turn m

theorem inv_step (h : Inv s st) (hs : step s st turn = some st') : Inv s st' := by
  rcases step_cases hs with ⟨rfl, -⟩ | rfl | rfl
  · exact h
  · exact h.answered turn
  · exact ((h.answered turn).beat turn).video turn

/-! ## The law -/

/-- The clip of two units, played around and around. -/
def clipSender : SimSender where
  data := clip
  loop := true
  playable := by decide +kernel

def clipTurn (message : Option Message) : Turn where
  read := message.elim .timedOut .message
  mt := 1760000000130
  pingDue := false
  frameDue := true
  times := clipTimes

def clipIdentity : Identity where
  chars := List.replicate 32 'a'
  length := by
    rw [utf8_eq_map (by simp), List.length_map, List.length_replicate]
  plain := by
    intro c hc
    rw [(List.mem_replicate.1 hc).2]
    decide

/-- A hello, two frames, and a request for a keyframe in front of the second one. -/
def clipTurns : List Turn :=
  [clipTurn (some (.hello 1920 1080 96 clipIdentity 8000)), clipTurn (some .keyframeRequest),
    clipTurn none, clipTurn none]

theorem isSome_clipTurns : (exec (step clipSender) start clipTurns).isSome = true := by decide +kernel

end OpenDisplay.Tools.SimSession
