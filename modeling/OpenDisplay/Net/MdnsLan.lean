import Mathlib.Data.Nat.Bitwise
import OpenDisplay.Net.MdnsResponder
import OpenDisplay.Net.MdnsRestart

/-! # Advertisers on one network

Any number of advertisers send to the same multicast group, and so do other hosts. What was sent stays on
the air: each worker may receive it never, once or often, at any time, its own packets included.

No worker ever answers a packet of a worker, so the advertisers do not keep each other sending
(`no_storm`); and each of them answers every query for the service that other hosts send
(`query_answered`). -/

namespace OpenDisplay.Net.MdnsLan

open OpenDisplay.Lib.DnsMessage OpenDisplay.Lib.Text OpenDisplay.Lib.Transition
open OpenDisplay.Net.MdnsAdvertise hiding Worker step
open OpenDisplay.Net.MdnsPacket
open OpenDisplay.Net.MdnsResponder hiding step
open OpenDisplay.Net.MdnsRestart (appendService_eq appendAddress_eq)

/-! ## The announcements are responses -/

/-- The packet begins with the header of an authoritative response. -/
def Announces (bytes : List UInt8) : Prop := [0, 0, 0x84, 0] <+: bytes

theorem isResponse_of_announces {bytes : List UInt8} (h : Announces bytes) : isResponse bytes = true := by
  obtain ⟨rest, rfl⟩ := h
  have hflag : ((0x84 : UInt8) &&& 0x80 != 0) = true := by decide
  simp only [isResponse, List.cons_append, List.nil_append, List.length_cons, List.getElem?_cons_succ,
    List.getElem?_cons_zero, Option.getD_some, hflag, Bool.and_true]
  exact decide_eq_true (by omega)

theorem prefix_appendRecord (pkt name : List UInt8) (type : UInt16) (rdata : List UInt8) (ttl : UInt32)
    (flush : Bool) : pkt <+: appendRecord pkt name type rdata ttl flush := by
  unfold appendRecord MdnsAdvertise.putU16
  simp only [List.append_assoc]
  exact List.prefix_append _ _

theorem announces_appendService_nil (cfg : Config) (name host : List UInt8) :
    Announces (appendService [] cfg name host) := by
  have hheader : Announces ([0, 0x8400, 0, 4, 0, 0].foldl MdnsAdvertise.putU16 []) := by
    unfold Announces
    decide
  unfold appendService
  exact ((hheader.trans (prefix_appendRecord ..)).trans (prefix_appendRecord ..)).trans
    (prefix_appendRecord ..)

theorem announces_appendService (pkt : List UInt8) (cfg : Config) (name host : List UInt8)
    (h : pkt = [] ∨ Announces pkt) : Announces (appendService pkt cfg name host) := by
  rw [appendService_eq]
  rcases h with rfl | h
  · exact announces_appendService_nil cfg name host
  · exact h.trans (List.prefix_append _ _)

theorem announces_appendAddress {pkt : List UInt8} (h : Announces pkt) (host : List UInt8) (addr : InAddr) :
    Announces (appendAddress pkt host addr) := by
  rw [appendAddress_eq]
  exact h.trans (List.prefix_append _ _)

/-- Whatever calls an advertiser has seen, its packet is a response. -/
theorem announces_of_reaches {ok : MdnsAdvertiser → Call → Prop} {a : MdnsAdvertiser}
    (h : Reaches MdnsAdvertise.step ok fresh a) : a.announcement = [] ∨ Announces a.announcement := by
  refine h.invariant (I := fun a => a.announcement = [] ∨ Announces a.announcement) (.inl rfl) ?_
  intro a c a' ha _ hs
  cases c with
  | start cfg o =>
    obtain rfl := Option.some.inj hs
    have hdescribe : Announces (a.describe cfg o).announcement :=
      announces_appendService a.announcement cfg _ _ ha
    obtain ⟨-, heq⟩ | ⟨-, -, heq⟩ | ⟨-, -, -, heq⟩ | ⟨addr, -, -, -, heq⟩ := a.start_cases cfg o
    · rwa [heq]
    · rwa [heq]
    · rw [heq]
      exact .inr hdescribe
    · rw [heq]
      unfold MdnsAdvertiser.advertise
      split
      · exact .inr (announces_appendAddress hdescribe _ addr)
      · exact .inr (announces_appendAddress hdescribe _ addr)
  | stop =>
    obtain rfl := Option.some.inj hs
    unfold MdnsAdvertiser.stop
    split
    · exact ha
    · exact ha
  | selectFails =>
    obtain ⟨-, rfl⟩ := when_eq_some.1 hs
    exact ha

/-! ## How much a worker sends -/

/-- The datagrams that were answered, the newest first. -/
def answered (sent : List Sent) : List Datagram :=
  sent.filterMap fun s => match s.reason with
    | .answer d => some d
    | _ => none

/-- The announcements of the self-test and of the initial burst. -/
def bursts (sent : List Sent) : ℕ := sent.countP fun s => s.reason = .selfTest ∨ s.reason = .burst

def repeats (sent : List Sent) : ℕ := sent.countP fun s => s.reason = .repeated

theorem length_eq (sent : List Sent) :
    sent.length = bursts sent + (answered sent).length + repeats sent := by
  induction sent with
  | nil => rfl
  | cons s sent ih =>
    obtain ⟨reason, time, packet⟩ := s
    unfold bursts answered repeats at *
    cases reason <;> simp [ih] <;> omega

theorem repeats_le {D : ℤ} : ∀ {sent : List Sent}, sent.IsChain (Follows D) →
    ∀ s ∈ sent.head?, ∀ old ∈ sent.getLast?, old.reason ≠ .repeated →
      kReannounce * repeats sent ≤ s.time - old.time
  | [], _, s, hs, _, _, _ => by cases hs
  | [s], _, s', hs, old, hold, hburst => by
    obtain rfl := Option.some.inj hs
    have hs' : s.reason ≠ .repeated := by
      rw [show old = s from (Option.some.inj hold).symm] at hburst
      exact hburst
    obtain rfl := Option.some.inj hold
    simp [repeats, hs']
  | s :: s' :: sent, hchain, t, ht, old, hold, hburst => by
    obtain rfl := Option.some.inj ht
    obtain ⟨⟨hle, -, hrep⟩, hrest⟩ := List.isChain_cons_cons.1 hchain
    have ih := repeats_le hrest s' rfl old (by rwa [List.getLast?_cons_cons] at hold) hburst
    unfold repeats at ih ⊢
    rw [List.countP_cons]
    split
    case isTrue h =>
      have := hrep (by simpa using h)
      push_cast
      rw [mul_add, mul_one]
      omega
    case isFalse =>
      rw [Nat.add_zero]
      omega

/-- What was sent begins with the self-test and has at most `n` announcements of it and the burst. -/
structure Begun (n : ℕ) (w : Worker) : Prop where
  bursts : bursts w.sent ≤ n
  oldest : ∀ s ∈ w.sent.getLast?, s.reason = .selfTest
  begun : w.announcement = [] ∨ w.sent ≠ []

variable {D : ℤ} {w w' : Worker} {a : MdnsAdvertiser} {addr : InAddr} {n : ℕ}

theorem oldest_cons {s : Sent} {sent : List Sent} (h : ∀ x ∈ sent.getLast?, x.reason = .selfTest)
    (hs : sent = [] → s.reason = .selfTest) : ∀ x ∈ (s :: sent).getLast?, x.reason = .selfTest := by
  cases sent with
  | nil =>
    intro x hx
    obtain rfl := Option.some.inj hx
    exact hs rfl
  | cons s' sent =>
    rw [List.getLast?_cons_cons]
    exact h

theorem Begun.send (h : Begun n w) (reason : Reason) (time : ℤ) :
    Begun (n + if reason = .selfTest ∨ reason = .burst then 1 else 0) (w.send reason time) := by
  by_cases hempty : w.announcement = []
  · have hsent : (w.send reason time).sent = w.sent := if_pos hempty
    refine ⟨?_, hsent ▸ h.oldest, .inl hempty⟩
    rw [hsent]
    exact Nat.le_add_right_of_le h.bursts
  · have hsent : (w.send reason time).sent = ⟨reason, time, w.announcement⟩ :: w.sent := if_neg hempty
    refine ⟨?_, ?_, .inr ?_⟩
    · have hb := h.bursts
      rw [hsent]
      unfold MdnsLan.bursts at hb ⊢
      rw [List.countP_cons]
      simp only [decide_eq_true_eq]
      omega
    · rw [hsent]
      refine oldest_cons h.oldest fun hnil => ?_
      exact absurd hnil (h.begun.resolve_left hempty)
    · rw [hsent]
      exact List.cons_ne_nil _ _

theorem Begun.finish (h : Begun n w) (now : ℤ) : Begun n (w.finish now) := by
  unfold Worker.finish
  split
  · have hsend := h.send .repeated now
    exact ⟨hsend.bursts, hsend.oldest, hsend.begun⟩
  · exact ⟨h.bursts, h.oldest, h.begun⟩

theorem Begun.turn (h : Begun n w) (t : Turn) : Begun n (w.turn t) := by
  unfold Worker.turn
  split
  case isFalse => exact h.finish t.now
  split
  case h_1 => exact ⟨h.bursts, h.oldest, h.begun⟩
  case h_2 => exact h.finish t.now
  case h_3 d _ =>
    split
    · have hsend := h.send (.answer d) t.answered
      exact hsend.finish t.now
    · exact h.finish t.now

/-- The first announcement is that of the self-test. -/
theorem begun_first (h : w.sent = []) (time : ℤ) : Begun 1 (w.send .selfTest time) := by
  by_cases hempty : w.announcement = []
  · have hsent : (w.send .selfTest time).sent = [] := (if_pos hempty).trans h
    refine ⟨?_, ?_, .inl hempty⟩
    · rw [hsent]
      exact Nat.zero_le 1
    · rw [hsent]
      rintro s ⟨⟩
  · have hsent : (w.send .selfTest time).sent = [⟨.selfTest, time, w.announcement⟩] := by
      unfold Worker.send
      rw [if_neg hempty, h]
    refine ⟨?_, ?_, .inr ?_⟩
    · rw [hsent]
      exact Nat.le_refl 1
    · rw [hsent]
      intro s hs
      obtain rfl := Option.some.inj hs
      rfl
    · rw [hsent]
      exact List.cons_ne_nil _ _

/-- How many announcements a worker opens with, at most, where it stands. -/
def openings : Pc → ℕ
  | .starting => 0
  | .testing | .started => 1
  | .sleeping => 2
  | .looping | .left => 3

/-- The self-test and at most two announcements of the burst come first. -/
structure Opened (w : Worker) : Prop where
  starting : w.pc = .starting → w.sent = []
  begun : w.pc ≠ .starting → Begun (openings w.pc) w

theorem opened_step {l : MdnsResponder.Label} (h : Opened w) (hs : MdnsResponder.step w l = some w') :
    Opened w' := by
  have hcongr : ∀ {n m : ℕ} {u v : Worker}, Begun n u → n ≤ m → v.sent = u.sent →
      v.announcement = u.announcement → Begun m v := fun hu hle hsent ha =>
    ⟨hsent ▸ hu.bursts.trans hle, hsent ▸ hu.oldest, by rw [hsent, ha]; exact hu.begun⟩
  cases l <;> simp only [MdnsResponder.step, when_eq_some] at hs <;> obtain ⟨hpc, rfl⟩ := hs
  case selfTest time =>
    exact ⟨by rintro ⟨⟩, fun _ => hcongr (begun_first (h.starting hpc) time) le_rfl rfl rfl⟩
  case tested d =>
    have hbegun := h.begun (by rw [hpc]; decide)
    rw [hpc] at hbegun
    exact ⟨by rintro ⟨⟩, fun _ => hcongr hbegun le_rfl rfl rfl⟩
  case first time | second time =>
    have hbegun := h.begun (by rw [hpc]; decide)
    rw [hpc] at hbegun
    exact ⟨by rintro ⟨⟩, fun _ => hcongr (hbegun.send .burst time) le_rfl rfl rfl⟩
  case turn t =>
    have hbegun := h.begun (by rw [hpc]; decide)
    rw [hpc] at hbegun
    have hturn : Begun 3 (w.turn t) := hbegun.turn t
    have hpc' : (w.turn t).pc = .looping ∨ (w.turn t).pc = .left := by
      unfold Worker.turn
      split
      case isFalse =>
        rw [pc_finish]
        exact .inl hpc
      split
      case h_1 => exact .inr rfl
      case h_2 =>
        rw [pc_finish]
        exact .inl hpc
      case h_3 =>
        split
        · rw [pc_finish]
          exact .inl hpc
        · rw [pc_finish]
          exact .inl hpc
    refine ⟨?_, fun _ => ?_⟩
    · intro h'
      rw [h'] at hpc'
      simp at hpc'
    · rcases hpc' with h' | h'
      · rw [h']
        exact hturn
      · rw [h']
        exact hturn
  case leave =>
    refine ⟨by rintro ⟨⟩, fun _ => ?_⟩
    rcases hpc with hpc | hpc
    · have hbegun := h.begun (by rw [hpc]; decide)
      rw [hpc] at hbegun
      exact hcongr hbegun (show openings .sleeping ≤ openings .left by decide) rfl rfl
    · have hbegun := h.begun (by rw [hpc]; decide)
      rw [hpc] at hbegun
      exact hcongr hbegun le_rfl rfl rfl

theorem opened_of_reaches {ok : Worker → MdnsResponder.Label → Prop}
    (h : Reaches MdnsResponder.step ok (MdnsResponder.initial a addr) w) : Opened w :=
  h.invariant ⟨fun _ => rfl, fun hne => absurd rfl hne⟩ fun _ _ _ ho _ hs => opened_step ho hs

/-- **How much an advertiser sends**: three announcements, one for each answer, and one in ten seconds. -/
theorem sent_le (h : Reaches MdnsResponder.step (Clocked D) (MdnsResponder.initial a addr) w) :
    ∀ old ∈ w.sent.getLast?,
      kReannounce * (w.sent.length - 3 - (answered w.sent).length) ≤ w.last - old.time := by
  intro old hold
  have hpaced := paced_of_reaches h
  have hopened := opened_of_reaches h
  have hopen : w.pc ≠ .starting := by
    intro hpc
    rw [hopened.starting hpc] at hold
    cases hold
  have hbegun := hopened.begun hopen
  have hthree : openings w.pc ≤ 3 := by cases w.pc <;> decide
  obtain ⟨s, hs⟩ : ∃ s, w.sent.head? = some s := by
    cases hw : w.sent with
    | nil =>
      rw [hw] at hold
      cases hold
    | cons s sent => exact ⟨s, rfl⟩
  have hrepeats := repeats_le hpaced.chain s hs old hold (by rw [hbegun.oldest old hold]; decide)
  rw [hpaced.last s hs] at hrepeats
  have hlength := length_eq w.sent
  have hbursts := hbegun.bursts.trans hthree
  refine le_trans ?_ hrepeats
  unfold kReannounce
  omega

/-! ## The network -/

variable {ι : Type*} [DecidableEq ι]

/-- An advertiser and its address. -/
structure Host where
  advertiser : MdnsAdvertiser
  addr : InAddr

structure State (ι : Type*) where
  workers : ι → Worker
  /-- What was sent so far, with the advertiser that sent it; none for another host. -/
  air : List (Option ι × Datagram)

def initial (hosts : ι → Host) : State ι :=
  ⟨fun i => MdnsResponder.initial (hosts i).advertiser (hosts i).addr, []⟩

inductive Label (ι : Type*)
  | worker (i : ι) (l : MdnsResponder.Label)
  /-- Another host sends. -/
  | foreign (d : Datagram)

/-- What a worker receives was sent before. -/
def Heard (st : State ι) : MdnsResponder.Label → Prop
  | .turn ⟨.datagram d, _, _⟩ | .tested (some d) => d ∈ st.air.map Prod.snd
  | _ => True

instance (st : State ι) (l : MdnsResponder.Label) : Decidable (Heard st l) := by
  unfold Heard
  split <;> infer_instance

/-- What a worker has sent in a move, with its own address as the source. -/
def packets (i : ι) (w w' : Worker) : List (Option ι × Datagram) :=
  (w'.sent.take (w'.sent.length - w.sent.length)).map fun s => (some i, ⟨w.selfAddr, s.packet⟩)

def step (st : State ι) : Label ι → Option (State ι)
  | .worker i l =>
    if Heard st l then
      (MdnsResponder.step (st.workers i) l).map fun w =>
        ⟨Function.update st.workers i w, packets i (st.workers i) w ++ st.air⟩
    else none
  | .foreign d => some { st with air := (none, d) :: st.air }

/-- The clock of each advertiser goes on. -/
def Clocks (D : ℤ) (st : State ι) : Label ι → Prop
  | .worker i l => Clocked D (st.workers i) l
  | .foreign _ => True

variable {hosts : ι → Host} {st st' : State ι}

theorem step_cases {l : Label ι} (hs : step st l = some st') :
    (∃ i l' w, l = .worker i l' ∧ Heard st l' ∧ MdnsResponder.step (st.workers i) l' = some w ∧
      st' = ⟨Function.update st.workers i w, packets i (st.workers i) w ++ st.air⟩) ∨
    ∃ d, st' = { st with air := (none, d) :: st.air } := by
  cases l with
  | worker i l' =>
    simp only [step, Option.ite_none_right_eq_some, Option.map_eq_some_iff] at hs
    obtain ⟨hheard, w, hw, rfl⟩ := hs
    exact .inl ⟨i, l', w, rfl, hheard, hw, rfl⟩
  | foreign d =>
    obtain rfl := Option.some.inj hs
    exact .inr ⟨d, rfl⟩

/-- Each worker goes through a run of its own. -/
theorem worker_reaches (h : Reaches step (Clocks D) (initial hosts) st) (i : ι) :
    Reaches MdnsResponder.step (Clocked D)
      (MdnsResponder.initial (hosts i).advertiser (hosts i).addr) (st.workers i) := by
  refine h.invariant (I := fun st => ∀ i, Reaches MdnsResponder.step (Clocked D)
    (MdnsResponder.initial (hosts i).advertiser (hosts i).addr) (st.workers i)) (fun _ => .start) ?_ i
  intro s l s' hi hok hs i
  rcases step_cases hs with ⟨j, l', w, rfl, -, hw, rfl⟩ | ⟨d, rfl⟩
  · by_cases hij : i = j
    · subst hij
      dsimp only
      rw [Function.update_self]
      exact (hi i).move l' hok hw
    · dsimp only
      rw [Function.update_of_ne hij]
      exact hi i
  · exact hi i

/-- What a turn answers: the datagram that it received, which is a query. -/
theorem answered_step {l : MdnsResponder.Label} (hs : MdnsResponder.step w l = some w') {d : Datagram}
    (hd : d ∈ answered w'.sent) :
    d ∈ answered w.sent ∨ (∃ x y, l = .turn ⟨.datagram d, x, y⟩) ∧ w.Answers d := by
  have hsend : ∀ (u : Worker) reason time, (∀ d', reason ≠ .answer d') →
      answered (u.send reason time).sent = answered u.sent := by
    intro u reason time hr
    unfold Worker.send answered
    dsimp only
    split
    · rfl
    · cases reason with
      | answer d' => exact absurd rfl (hr d')
      | selfTest => rfl
      | burst => rfl
      | repeated => rfl
  have hfinish : ∀ (u : Worker) now, answered (u.finish now).sent = answered u.sent := by
    intro u now
    unfold Worker.finish
    split
    · exact hsend u .repeated now (by simp)
    · rfl
  cases l <;> simp only [MdnsResponder.step, when_eq_some] at hs <;> obtain ⟨-, rfl⟩ := hs
  case selfTest time => exact .inl (hsend w .selfTest time (by simp) ▸ hd)
  case first time | second time => exact .inl (hsend w .burst time (by simp) ▸ hd)
  case tested d => exact .inl hd
  case leave => exact .inl hd
  case turn t =>
    unfold Worker.turn at hd
    split at hd
    case isFalse => exact .inl (hfinish w t.now ▸ hd)
    split at hd
    case h_1 => exact .inl hd
    case h_2 => exact .inl (hfinish w t.now ▸ hd)
    case h_3 d' hreceived =>
      split at hd
      case isFalse => exact .inl (hfinish w t.now ▸ hd)
      case isTrue hanswers =>
        rw [hfinish] at hd
        unfold Worker.send at hd
        dsimp only at hd
        split at hd
        · exact .inl hd
        · unfold answered at hd
          rw [List.filterMap_cons] at hd
          rcases List.mem_cons.1 hd with rfl | hd
          · obtain ⟨received, x, y⟩ := t
            dsimp only at hreceived
            subst hreceived
            exact .inr ⟨⟨x, y, rfl⟩, hanswers⟩
          · exact .inl hd

/-- What the law of the network rests on. -/
structure Quiet (st : State ι) : Prop where
  /-- The packets of the advertisers are responses. -/
  own : ∀ i d, (some i, d) ∈ st.air → isResponse d.bytes = true
  /-- What was answered was on the air and was no response. -/
  answers : ∀ i, ∀ d ∈ answered (st.workers i).sent, d ∈ st.air.map Prod.snd ∧ isResponse d.bytes = false

theorem quiet_step {l : Label ι} (hsame : ∀ i, Same (hosts i).advertiser (hosts i).addr (st.workers i))
    (hown : ∀ i, (hosts i).advertiser.announcement = [] ∨ Announces (hosts i).advertiser.announcement)
    (h : Quiet st) (hs : step st l = some st') : Quiet st' := by
  rcases step_cases hs with ⟨i, l', w, rfl, hheard, hw, rfl⟩ | ⟨d, rfl⟩
  · have hsame' := same_step (hsame i) hw
    constructor
    · intro j d hd
      rcases List.mem_append.1 hd with hd | hd
      · unfold packets at hd
        obtain ⟨s, hs, heq⟩ := List.mem_map.1 hd
        obtain ⟨-, rfl⟩ := Prod.mk.inj heq
        obtain ⟨hpacket, hne⟩ := hsame'.packets s (List.mem_of_mem_take hs)
        rw [hpacket]
        exact isResponse_of_announces ((hown i).resolve_left hne)
      · exact h.own j d hd
    · intro j d hd
      dsimp only at hd ⊢
      by_cases hij : j = i
      · subst hij
        rw [Function.update_self] at hd
        rw [List.map_append, List.mem_append]
        rcases answered_step hw hd with hd | ⟨⟨x, y, rfl⟩, hanswers⟩
        · obtain ⟨hair, hquery⟩ := h.answers j d hd
          exact ⟨.inr hair, hquery⟩
        · exact ⟨.inr hheard, hanswers.2.1⟩
      · rw [Function.update_of_ne hij] at hd
        obtain ⟨hair, hquery⟩ := h.answers j d hd
        rw [List.map_append, List.mem_append]
        exact ⟨.inr hair, hquery⟩
  · constructor
    · intro j d' hd'
      rcases List.mem_cons.1 hd' with heq | hd'
      · cases heq
      · exact h.own j d' hd'
    · intro j d' hd'
      obtain ⟨hair, hquery⟩ := h.answers j d' hd'
      exact ⟨List.mem_cons_of_mem _ hair, hquery⟩

/-- **No storm.** On a network of advertisers that were started in any way, with any other hosts, and
with packets that are lost, repeated and reordered: what an advertiser answers was sent by another host
and by no advertiser, and beyond its answers it sends three announcements and one in ten seconds. -/
theorem no_storm
    (hhosts : ∀ i, Reaches MdnsAdvertise.step (fun _ _ => True) fresh (hosts i).advertiser)
    (h : Reaches step (Clocks D) (initial hosts) st) (i : ι) :
    (∀ d ∈ answered (st.workers i).sent, (none, d) ∈ st.air ∧ ∀ j, (some j, d) ∉ st.air) ∧
      ∀ old ∈ (st.workers i).sent.getLast?,
        kReannounce * ((st.workers i).sent.length - 3 - (answered (st.workers i).sent).length) ≤
          (st.workers i).last - old.time := by
  have hquiet : Quiet st := by
    refine h.invariant_of (J := fun st => ∀ i, Same (hosts i).advertiser (hosts i).addr (st.workers i))
      (fun s hs i => same_of_reaches (worker_reaches hs i)) ⟨?_, ?_⟩ ?_
    · intro j d hd
      cases hd
    · intro j d hd
      cases hd
    · intro s l s' hsame hq _ hs
      exact quiet_step hsame (fun i => announces_of_reaches (hhosts i)) hq hs
  refine ⟨?_, sent_le (worker_reaches h i)⟩
  intro d hd
  obtain ⟨hair, hquery⟩ := hquiet.answers i d hd
  have hnot : ∀ j, (some j, d) ∉ st.air := by
    intro j hj
    rw [hquiet.own j d hj] at hquery
    cases hquery
  obtain ⟨⟨o, d'⟩, hmem, rfl⟩ := List.mem_map.1 hair
  cases o with
  | none => exact ⟨hmem, hnot⟩
  | some j => exact absurd hmem (hnot j)

/-- A resolver asks for the instances of the service. -/
def serviceQuery : Message :=
  ⟨7, 0, [⟨[ascii "_opensidecar", ascii "_tcp", ascii "local"], 12, 1⟩], [], [], []⟩

def resolver : InAddr := ⟨[192, 168, 1, 9], rfl⟩

/-- Two advertisers, one of which answers a query and hears its own announcement. -/
theorem no_storm_two :
    ∃ st : State Bool, (st.workers true).sent.length = 4 ∧
      ((none, ⟨resolver, serviceQuery.wire⟩) ∈ st.air ∧
        ∀ j, (some j, ⟨resolver, serviceQuery.wire⟩) ∉ st.air) ∧
      ∀ old ∈ (st.workers true).sent.getLast?,
        kReannounce * ((st.workers true).sent.length - 3 - (answered (st.workers true).sent).length) ≤
          (st.workers true).last - old.time := by
  have hadvertiser : Reaches MdnsAdvertise.step (fun _ _ => True) fresh
      (fresh.start blankConfig lanOutcome).1 := Reaches.start.move (.start blankConfig lanOutcome) trivial rfl
  have hrun : Reaches step (Clocks 1000000000)
      (initial fun _ : Bool => ⟨(fresh.start blankConfig lanOutcome).1, lanAddress⟩) _ :=
    ((((((Reaches.start.move (.foreign ⟨resolver, serviceQuery.wire⟩) trivial rfl).move
      (.worker true (.selfTest 0)) trivial rfl).move (.worker true (.tested none)) trivial rfl).move
      (.worker true (.first 0)) ⟨by decide, by decide⟩ rfl).move (.worker true (.second 1000000000))
      ⟨by decide, by decide⟩ rfl).move
      (.worker true (.turn ⟨.datagram ⟨resolver, serviceQuery.wire⟩, 1100000000, 1200000000⟩))
      ⟨by decide, by decide, by decide⟩ rfl)
  obtain ⟨hanswers, hsent⟩ := no_storm (fun _ => hadvertiser) hrun true
  refine ⟨_, ?_, hanswers ⟨resolver, serviceQuery.wire⟩ ?_, hsent⟩
  · rfl
  · exact List.mem_cons_self

/-! ## Discovery -/

theorem label_infix {m : Message} {q : Question} (hq : q ∈ m.questions) {label : List UInt8}
    (hlabel : label ∈ q.name) : label <:+: m.wire := by
  have hstring : label <:+: stringWire label := ⟨[UInt8.ofNat label.length], [], by simp [stringWire]⟩
  have hname : stringWire label <:+: nameWire q.name := by
    obtain ⟨before, behind, heq⟩ := List.append_of_mem hlabel
    refine ⟨before.flatMap stringWire, behind.flatMap stringWire ++ [0], ?_⟩
    simp [nameWire, heq]
  have hquestion : nameWire q.name <:+: q.wire := (List.prefix_append _ _).isInfix
  have hquestions : q.wire <:+: m.questions.flatMap Question.wire := by
    obtain ⟨before, behind, heq⟩ := List.append_of_mem hq
    refine ⟨before.flatMap Question.wire, behind.flatMap Question.wire, ?_⟩
    simp [heq]
  have hmessage : m.questions.flatMap Question.wire <:+: m.wire := by
    refine ⟨Lib.DnsMessage.putU16 m.id ++ Lib.DnsMessage.putU16 m.flags ++
      Lib.DnsMessage.putU16 (UInt16.ofNat m.questions.length) ++
      Lib.DnsMessage.putU16 (UInt16.ofNat m.answers.length) ++
      Lib.DnsMessage.putU16 (UInt16.ofNat m.authority.length) ++
      Lib.DnsMessage.putU16 (UInt16.ofNat m.additional.length),
      m.answers.flatMap Record.wire ++ (m.authority.flatMap Record.wire ++
        m.additional.flatMap Record.wire), ?_⟩
    unfold Message.wire
    simp only [List.append_assoc]
  exact (((hstring.trans hname).trans hquestion).trans hquestions).trans hmessage

theorem and_top_bit {b : UInt8} (h : b.toNat < 128) : b &&& 0x80 = 0 := by
  have hbit : b.toNat.testBit 7 = false := Nat.testBit_lt_two_pow h
  have hand : b.toNat &&& 2 ^ 7 = 0 := by
    rw [Nat.and_two_pow, hbit]
    rfl
  rw [← UInt8.toNat_inj, UInt8.toNat_and]
  exact hand

theorem isResponse_query {m : Message} (h : m.flags.toNat < 32768) : isResponse m.wire = false := by
  have hbyte : m.wire[2]? = some (UInt8.ofNat (m.flags.toNat / 256)) := rfl
  have hlow : (UInt8.ofNat (m.flags.toNat / 256)).toNat < 128 := by
    rw [UInt8.toNat_ofNat']
    omega
  unfold isResponse
  rw [hbyte, Option.getD_some, and_top_bit hlow]
  simp

/-- **Discovery.** A worker that can receive answers every query for the service from another host that
is at most 2048 bytes long and names the service without compression, and the answer is read as the four
records of the service. -/
theorem query_answered {cfg : Config} {o : Outcome} (hip : firstLanIPv4 o.addresses ≠ [])
    (haddr : o.inetPton = some addr) (hopen : o.socket = true ∧ o.bind = true)
    (hdot : 46 ∉ resolveName cfg o) (hlen : (resolveName cfg o).length ≤ 63) (hid : cfg.id.length ≤ 252)
    {ok : Worker → MdnsResponder.Label → Prop}
    (h : Reaches MdnsResponder.step ok (MdnsResponder.initial (fresh.start cfg o).1 addr) w)
    (hpc : w.pc = .looping) {m : Message} (hflags : m.flags.toNat < 32768) {q : Question}
    (hq : q ∈ m.questions) (hlabel : ascii "_opensidecar" ∈ q.name) (hsize : m.wire.length ≤ 2048)
    {src : InAddr} (hsrc : src ≠ addr) (answered now : ℤ) :
    ∃ w' s, MdnsResponder.step w (.turn ⟨.datagram ⟨src, m.wire⟩, answered, now⟩) = some w' ∧
      s ∈ w'.sent ∧ s.reason = .answer ⟨src, m.wire⟩ ∧ s.time = answered ∧
      readMessage s.packet = some (serviceMessage cfg (resolveName cfg o) addr) := by
  have hsame := same_of_reaches h
  have hdecodes : readMessage (fresh.start cfg o).1.announcement =
      some (serviceMessage cfg (resolveName cfg o) addr) := by
    rw [announcement_start rfl hip haddr, show fresh.announcement = [] from rfl, announcement_eq hdot]
    exact readMessage_wire (serviceMessage_fits (resolveName_ne_nil cfg o) hlen hid addr)
  have hreceive : w.canReceive = true := by
    rw [hsame.canReceive]
    unfold MdnsAdvertiser.start
    rw [if_neg (by decide), if_neg hip, haddr]
    dsimp only
    unfold MdnsAdvertiser.advertise
    rw [if_pos hopen.1]
    exact hopen.2
  have hne : w.announcement ≠ [] := by
    intro hnil
    rw [hsame.announcement] at hnil
    rw [hnil] at hdecodes
    cases hdecodes
  have hanswers : w.Answers ⟨src, m.wire⟩ := by
    refine ⟨⟨?_, hsize⟩, isResponse_query hflags, ?_, label_infix hq hlabel⟩
    · unfold Message.wire
      exact List.append_ne_nil_of_left_ne_nil (List.cons_ne_nil _ _) _
    · rw [hsame.selfAddr]
      exact hsrc
  refine ⟨_, ⟨.answer ⟨src, m.wire⟩, answered, w.announcement⟩, when_eq_some.2 ⟨hpc, rfl⟩, ?_, rfl, rfl, ?_⟩
  · have hsent : (w.send (.answer ⟨src, m.wire⟩) answered).sent =
        ⟨.answer ⟨src, m.wire⟩, answered, w.announcement⟩ :: w.sent := if_neg hne
    unfold Worker.turn
    rw [if_pos hreceive]
    dsimp only
    rw [if_pos hanswers]
    unfold Worker.finish
    split
    · have hsend : ∀ u : Worker, ∀ s ∈ u.sent, s ∈ (u.send .repeated now).sent := by
        intro u s hs
        unfold Worker.send
        dsimp only
        split
        · exact hs
        · exact List.mem_cons_of_mem _ hs
      exact hsend _ _ (hsent ▸ List.mem_cons_self)
    · exact hsent ▸ List.mem_cons_self
  · rw [hsame.announcement]
    exact hdecodes

theorem query_answered_blank :
    ∃ (w w' : Worker) (s : Sent), MdnsResponder.step w
        (.turn ⟨.datagram ⟨resolver, serviceQuery.wire⟩, 1100000000, 1200000000⟩) = some w' ∧
      s ∈ w'.sent ∧ s.reason = .answer ⟨resolver, serviceQuery.wire⟩ ∧ s.time = 1100000000 ∧
      readMessage s.packet =
        some (serviceMessage blankConfig (resolveName blankConfig lanOutcome) lanAddress) := by
  have hrun : Reaches MdnsResponder.step (fun _ _ => True)
      (MdnsResponder.initial (fresh.start blankConfig lanOutcome).1 lanAddress) _ :=
    (((Reaches.start.move (.selfTest 0) trivial rfl).move (.tested none) trivial rfl).move (.first 0) trivial
      rfl).move (.second 1000000000) trivial rfl
  exact ⟨_, query_answered (by decide) rfl ⟨rfl, rfl⟩ (by decide) (by decide) (by decide) hrun rfl
    (by decide) List.mem_cons_self List.mem_cons_self (by decide) (by decide) 1100000000 1200000000⟩

end OpenDisplay.Net.MdnsLan
