import Mathlib.Data.List.Chain
import OpenDisplay.Net.MdnsPacket

/-! # The announcements

At the end of `Start`, its self-test sends the announcement and waits for a datagram, which it only logs.
Then `MdnsAdvertiser::ThreadMain` announces the service twice and turns in its loop: it answers a query
for the service with the announcement, and repeats the announcement when ten seconds have passed since
the last one. What `select` and `recvfrom` give in a turn, and what the clock says, is part of the
label. The clock counts nanoseconds.

`Paced` is the law of its announcements: repeated ones keep ten seconds to the one before, and no two
neighbours are further apart than that and one turn. So no record of the announcement expires at a peer
before the next one (`never_expires`). -/

namespace OpenDisplay.Net.MdnsResponder

open OpenDisplay.Lib.DnsMessage OpenDisplay.Lib.Text OpenDisplay.Lib.Transition
open OpenDisplay.Net.MdnsAdvertise OpenDisplay.Net.MdnsPacket

/-! ## The code -/

deriving instance DecidableEq for InAddr

/-- A datagram with the address of its sender. -/
structure Datagram where
  src : InAddr
  bytes : List UInt8
  deriving DecidableEq

def kDetectMarker : List UInt8 := ascii "_opensidecar"

/-- `kReannounceSecs`, in nanoseconds. -/
def kReannounce : ℤ := 10 * 1000000000

/-- `isResponse`: there are flags, and QR is set. -/
def isResponse (buf : List UInt8) : Bool :=
  decide (4 ≤ buf.length) && ((buf[2]?.getD 0) &&& 0x80 != 0)

/-- What a turn of the loop gets from the socket. -/
inductive Received
  | selectFails
  | timeout
  /-- `recvfrom` is called with this datagram at the head of the queue. -/
  | datagram (d : Datagram)
  deriving DecidableEq

/-- A turn of the loop with its readings of the clock: behind an answer, and at its end. -/
structure Turn where
  received : Received
  answered : ℤ
  now : ℤ
  deriving DecidableEq

/-- Why the announcement is sent. -/
inductive Reason
  | selfTest
  | burst
  | answer (d : Datagram)
  | repeated
  deriving DecidableEq

structure Sent where
  reason : Reason
  time : ℤ
  packet : List UInt8
  deriving DecidableEq

/-- Where `Start` and its worker stand. -/
inductive Pc
  /-- `Start` is at its self-test. -/
  | starting
  /-- In the `recvfrom` of the self-test. -/
  | testing
  /-- `thread_` is made. -/
  | started
  /-- Between the two announcements of the initial burst. -/
  | sleeping
  | looping
  | left
  deriving DecidableEq

structure Worker where
  announcement : List UInt8
  selfAddr : InAddr
  canReceive : Bool
  pc : Pc
  last : ℤ
  /-- What was sent, newest first. -/
  sent : List Sent
  /-- The last reading of the clock. -/
  clock : ℤ

/-- The advertiser with this address, whose `Start` has its socket. -/
def initial (a : MdnsAdvertiser) (addr : InAddr) : Worker :=
  ⟨a.announcement, addr, a.canReceive, .starting, 0, [], 0⟩

namespace Worker

variable (w : Worker)

/-- `SendAnnouncement(announcement_)` and the assignment to `last`. -/
def send (reason : Reason) (time : ℤ) : Worker :=
  { w with
    sent := if w.announcement = [] then w.sent else ⟨reason, time, w.announcement⟩ :: w.sent
    last := time }

/-- A datagram that does not fit `buf` is an error of `recvfrom`, and an empty one is skipped. -/
def Reads (d : Datagram) : Prop := d.bytes ≠ [] ∧ d.bytes.length ≤ 2048

instance (d : Datagram) : Decidable (Reads d) := by
  unfold Reads
  infer_instance

/-- The datagram is answered. -/
def Answers (d : Datagram) : Prop :=
  Reads d ∧ isResponse d.bytes = false ∧ d.src ≠ w.selfAddr ∧ kDetectMarker <:+: d.bytes

instance (d : Datagram) : Decidable (w.Answers d) := by
  unfold Answers
  infer_instance

/-- The end of a turn. -/
def finish (now : ℤ) : Worker :=
  { if kReannounce ≤ now - w.last then w.send .repeated now else w with clock := now }

/-- A turn of the loop. -/
def turn (t : Turn) : Worker :=
  if w.canReceive then
    match t.received with
    | .selectFails => { w with pc := .left, clock := t.now }
    | .timeout => w.finish t.now
    | .datagram d =>
      if w.Answers d then (w.send (.answer d) t.answered).finish t.now else w.finish t.now
  else w.finish t.now

end Worker

inductive Label
  /-- The `sendto` of the self-test. -/
  | selfTest (time : ℤ)
  /-- Its `recvfrom` returns; a datagram that it took is lost to the worker. -/
  | tested (d : Option Datagram)
  | first (time : ℤ)
  | second (time : ℤ)
  | turn (t : Turn)
  /-- `running_` is found lowered. -/
  | leave

def step (w : Worker) : Label → Option Worker
  | .selfTest time =>
    when (w.pc = .starting) { w.send .selfTest time with pc := .testing, clock := time }
  | .tested _ => when (w.pc = .testing) { w with pc := .started }
  | .first time =>
    when (w.pc = .started) { w.send .burst time with pc := .sleeping, clock := time }
  | .second time =>
    when (w.pc = .sleeping) { w.send .burst time with pc := .looping, clock := time }
  | .turn t => when (w.pc = .looping) (w.turn t)
  | .leave => when (w.pc = .sleeping ∨ w.pc = .looping) { w with pc := .left }

/-! ## The clock -/

/-- The clock does not go back, and neither the way from the self-test to the worker nor the initial sleep
nor a turn takes longer than `D`. -/
def Clocked (D : ℤ) (w : Worker) : Label → Prop
  | .selfTest _ | .tested _ | .leave => True
  | .first time | .second time => w.clock ≤ time ∧ time ≤ w.clock + D
  | .turn t => w.clock ≤ t.answered ∧ t.answered ≤ t.now ∧ t.now ≤ w.clock + D

/-- Two announcements, the newer one first: at most `kReannounce` and `D` apart, and a repeated one at
least `kReannounce` behind the other. -/
def Follows (D : ℤ) (s s' : Sent) : Prop :=
  s'.time ≤ s.time ∧ s.time < s'.time + kReannounce + D ∧
    (s.reason = .repeated → s'.time + kReannounce ≤ s.time)

/-- The law of what was sent. -/
structure Spaced (D : ℤ) (w : Worker) : Prop where
  chain : w.sent.IsChain (Follows D)
  last : ∀ s ∈ w.sent.head?, s.time = w.last
  empty : w.announcement = [] → w.sent = []

/-- **The pace of the announcements**: when a turn begins, the last one is not ten seconds old. -/
structure Paced (D : ℤ) (w : Worker) : Prop extends Spaced D w where
  near : w.pc ≠ .starting → w.pc ≠ .left → w.last ≤ w.clock ∧ w.clock < w.last + kReannounce
  unsent : w.pc = .starting → w.sent = []

variable {D : ℤ} {w w' : Worker} {l : Label}

theorem Spaced.send (h : Spaced D w) {reason : Reason} {time : ℤ} (hlo : w.last ≤ time)
    (hhi : time < w.last + kReannounce + D) (hrep : reason = .repeated → w.last + kReannounce ≤ time) :
    Spaced D (w.send reason time) := by
  by_cases hempty : w.announcement = []
  · have hsent : (w.send reason time).sent = [] := by
      unfold Worker.send
      rw [if_pos hempty]
      exact h.empty hempty
    refine ⟨?_, ?_, fun _ => hsent⟩
    · rw [hsent]
      exact .nil
    · rw [hsent]
      rintro s ⟨⟩
  · have hsent : (w.send reason time).sent = ⟨reason, time, w.announcement⟩ :: w.sent := by
      unfold Worker.send
      rw [if_neg hempty]
    refine ⟨?_, ?_, fun he => absurd he hempty⟩
    · rw [hsent]
      have hchain := h.chain
      have hlast := h.last
      cases hw : w.sent with
      | nil => exact .singleton _
      | cons s rest =>
        rw [hw] at hchain hlast
        have htime : s.time = w.last := hlast s rfl
        refine List.isChain_cons_cons.2 ⟨⟨?_, ?_, ?_⟩, hchain⟩
        · dsimp only
          omega
        · dsimp only
          omega
        · intro hr
          have := hrep hr
          dsimp only
          omega
    · rw [hsent]
      intro s hs
      obtain rfl := Option.some.inj hs
      rfl

theorem Spaced.congr (h : Spaced D w) (hs : w'.sent = w.sent) (hl : w'.last = w.last)
    (ha : w'.announcement = w.announcement) : Spaced D w' :=
  ⟨hs ▸ h.chain, by rw [hs, hl]; exact h.last, by rw [hs, ha]; exact h.empty⟩

/-- **The end of a turn** leaves an announcement that is not ten seconds old. -/
theorem spaced_finish (h : Spaced D w) {now : ℤ} (hlo : w.last ≤ now)
    (hhi : now < w.last + kReannounce + D) :
    Spaced D (w.finish now) ∧ (w.finish now).last ≤ now ∧ now < (w.finish now).last + kReannounce := by
  unfold Worker.finish
  split
  case isTrue hdue =>
    have hsend : Spaced D (w.send .repeated now) := h.send hlo hhi (fun _ => by omega)
    refine ⟨hsend.congr rfl rfl rfl, Int.le_refl now, ?_⟩
    change now < now + kReannounce
    unfold kReannounce
    omega
  case isFalse hdue =>
    refine ⟨h.congr rfl rfl rfl, hlo, ?_⟩
    dsimp only
    omega

@[simp] theorem pc_finish (w : Worker) (now : ℤ) : (w.finish now).pc = w.pc := by
  unfold Worker.finish
  split
  · rfl
  · rfl

@[simp] theorem clock_finish (w : Worker) (now : ℤ) : (w.finish now).clock = now := by
  unfold Worker.finish
  rfl

theorem paced_turn (h : Paced D w) (hpc : w.pc = .looping) {t : Turn}
    (hanswered : w.clock ≤ t.answered) (hnow : t.answered ≤ t.now) (hD : t.now ≤ w.clock + D) :
    Paced D (w.turn t) := by
  obtain ⟨hlast, hnear⟩ := h.near (by rw [hpc]; decide) (by rw [hpc]; decide)
  -- a turn that ends in the ordinary way
  have hfinish : ∀ w₁ : Worker, Spaced D w₁ → w₁.pc = .looping → w₁.last ≤ t.now →
      t.now < w₁.last + kReannounce + D → Paced D (w₁.finish t.now) := by
    intro w₁ h₁ hpc₁ hlo hhi
    obtain ⟨hspaced, hbehind, hnear⟩ := spaced_finish h₁ hlo hhi
    refine ⟨hspaced, ?_, ?_⟩
    · intro _ _
      rw [clock_finish]
      exact ⟨hbehind, hnear⟩
    · intro hstarting
      rw [pc_finish, hpc₁] at hstarting
      cases hstarting
  unfold Worker.turn
  split
  case isFalse => exact hfinish w h.toSpaced hpc (by omega) (by omega)
  split
  case h_1 =>
    refine ⟨h.toSpaced.congr rfl rfl rfl, ?_, ?_⟩
    · intro _ hleft
      exact absurd rfl hleft
    · intro h'
      cases h'
  case h_2 => exact hfinish w h.toSpaced hpc (by omega) (by omega)
  case h_3 d _ =>
    split
    case isFalse => exact hfinish w h.toSpaced hpc (by omega) (by omega)
    have hsend : Spaced D (w.send (.answer d) t.answered) :=
      h.toSpaced.send (by omega) (by omega) (fun hr => by cases hr)
    refine hfinish _ hsend hpc hnow ?_
    change t.now < t.answered + kReannounce + D
    unfold kReannounce
    omega

theorem paced_initial (a : MdnsAdvertiser) (addr : InAddr) : Paced D (initial a addr) where
  chain := .nil
  last := by rintro s ⟨⟩
  empty _ := rfl
  near h _ := absurd rfl h
  unsent _ := rfl

/-- Behind an announcement that is not repeated. -/
theorem paced_send {reason : Reason} {time : ℤ} {pc : Pc} (hpc : pc ≠ .starting)
    (h : Spaced D (w.send reason time)) : Paced D { w.send reason time with pc := pc, clock := time } := by
  refine ⟨h.congr rfl rfl rfl, ?_, fun hstarting => absurd hstarting hpc⟩
  intro _ _
  refine ⟨Int.le_refl time, ?_⟩
  change time < time + kReannounce
  unfold kReannounce
  omega

theorem spaced_selfTest (h : Paced D w) (hpc : w.pc = .starting) (time : ℤ) :
    Spaced D (w.send .selfTest time) := by
  have hunsent := h.unsent hpc
  unfold Worker.send
  refine ⟨?_, ?_, ?_⟩
  · dsimp only
    rw [hunsent]
    split
    · exact .nil
    · exact .singleton _
  · dsimp only
    rw [hunsent]
    intro s hs
    split at hs
    · cases hs
    · obtain rfl := Option.some.inj hs
      rfl
  · intro hempty
    dsimp only at hempty ⊢
    rw [if_pos hempty]
    exact hunsent

theorem paced_step (h : Paced D w) (hok : Clocked D w l)
    (hs : step w l = some w') : Paced D w' := by
  cases l <;> simp only [step, when_eq_some] at hs <;> obtain ⟨hpc, rfl⟩ := hs
  case selfTest time => exact paced_send (by decide) (spaced_selfTest h hpc time)
  case tested d =>
    obtain ⟨hlast, hnear⟩ := h.near (by rw [hpc]; decide) (by rw [hpc]; decide)
    exact ⟨h.toSpaced.congr rfl rfl rfl, fun _ _ => ⟨hlast, hnear⟩, by rintro ⟨⟩⟩
  case first time | second time =>
    obtain ⟨hlast, hnear⟩ := h.near (by rw [hpc]; decide) (by rw [hpc]; decide)
    obtain ⟨hlo, hhi⟩ := hok
    exact paced_send (by decide)
      (h.toSpaced.send (by omega) (by omega) (fun hr => by cases hr))
  case turn t => exact paced_turn h hpc hok.1 hok.2.1 hok.2.2
  case leave =>
    refine ⟨h.toSpaced.congr rfl rfl rfl, ?_, ?_⟩
    · intro _ hleft
      exact absurd rfl hleft
    · rintro ⟨⟩

theorem paced_of_reaches {a : MdnsAdvertiser} {addr : InAddr}
    (h : Reaches step (Clocked D) (initial a addr) w) : Paced D w :=
  h.invariant (paced_initial a addr) fun _ _ _ hp hok hs => paced_step hp hok hs

/-! ## What is sent -/

/-- The worker does not change what it was made with, and sends its announcement only. -/
structure Same (a : MdnsAdvertiser) (addr : InAddr) (w : Worker) : Prop where
  announcement : w.announcement = a.announcement
  selfAddr : w.selfAddr = addr
  canReceive : w.canReceive = a.canReceive
  packets : ∀ s ∈ w.sent, s.packet = a.announcement ∧ a.announcement ≠ []

variable {a : MdnsAdvertiser} {addr : InAddr}

theorem Same.send (h : Same a addr w) (reason : Reason) (time : ℤ) : Same a addr (w.send reason time) := by
  refine ⟨h.announcement, h.selfAddr, h.canReceive, ?_⟩
  intro s hs
  unfold Worker.send at hs
  dsimp only at hs
  split at hs
  · exact h.packets s hs
  · next hne =>
    rcases List.mem_cons.1 hs with rfl | hs
    · exact ⟨h.announcement, h.announcement ▸ hne⟩
    · exact h.packets s hs

theorem Same.finish (h : Same a addr w) (now : ℤ) : Same a addr (w.finish now) := by
  unfold Worker.finish
  split
  · have hsend := h.send .repeated now
    exact ⟨hsend.announcement, hsend.selfAddr, hsend.canReceive, hsend.packets⟩
  · exact ⟨h.announcement, h.selfAddr, h.canReceive, h.packets⟩

theorem same_step (h : Same a addr w) (hs : step w l = some w') : Same a addr w' := by
  cases l <;> simp only [step, when_eq_some] at hs <;> obtain ⟨-, rfl⟩ := hs
  case selfTest time =>
    have hsend := h.send .selfTest time
    exact ⟨hsend.announcement, hsend.selfAddr, hsend.canReceive, hsend.packets⟩
  case tested d => exact ⟨h.announcement, h.selfAddr, h.canReceive, h.packets⟩
  case first time | second time =>
    have hsend := h.send .burst time
    exact ⟨hsend.announcement, hsend.selfAddr, hsend.canReceive, hsend.packets⟩
  case turn t =>
    unfold Worker.turn
    split
    case isFalse => exact h.finish t.now
    split
    case h_1 => exact ⟨h.announcement, h.selfAddr, h.canReceive, h.packets⟩
    case h_2 => exact h.finish t.now
    case h_3 d _ =>
      split
      · exact (h.send (.answer d) t.answered).finish t.now
      · exact h.finish t.now
  case leave => exact ⟨h.announcement, h.selfAddr, h.canReceive, h.packets⟩

theorem same_of_reaches {ok : Worker → Label → Prop} (h : Reaches step ok (initial a addr) w) :
    Same a addr w :=
  h.invariant ⟨rfl, rfl, rfl, by rintro s ⟨⟩⟩ fun _ _ _ hi _ hs => same_step hi hs

end OpenDisplay.Net.MdnsResponder
