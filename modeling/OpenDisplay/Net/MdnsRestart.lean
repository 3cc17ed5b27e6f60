import OpenDisplay.Net.MdnsPacket

/-! # Starting an advertiser again

`Start` appends to the announcement of the start before. So a packet is the one that a new advertiser
would build exactly if no earlier start built one (`restart_equivalent_iff`). And `Start` takes
`running_` before its first step that can fail, the address lookup, whose exit does not give it back: a
failed start can be tried again exactly if the lookups succeed (`retry_iff`). -/

namespace OpenDisplay.Net.MdnsRestart

open OpenDisplay.Lib.Text OpenDisplay.Lib.Transition OpenDisplay.Net.MdnsAdvertise OpenDisplay.Net.MdnsPacket

variable {a a' : MdnsAdvertiser} {cfg : Config} {o : Outcome} {c : Call} {cs : List Call}

/-! ## The packet of a later start -/

/-- A start that starts the worker leaves the packet that a new advertiser would build. -/
def Equivalent (a : MdnsAdvertiser) : Call → Prop
  | .start cfg o => a.running = false ∧ (a.start cfg o).2 = true →
      (a.start cfg o).1.announcement = (fresh.start cfg o).1.announcement
  | _ => True

/-- The call is a start that gets past its address lookup, and so builds a packet. -/
def Builds (a : MdnsAdvertiser) : Call → Prop
  | .start _ o => a.running = false ∧ firstLanIPv4 o.addresses ≠ []
  | _ => False

/-- Nothing in the start fails. -/
def Starts (a : MdnsAdvertiser) : Call → Prop
  | .start _ o => a.running = false ∧ firstLanIPv4 o.addresses ≠ [] ∧ o.inetPton ≠ none ∧
      o.socket = true
  | _ => False

/-- Behind the first call that builds a packet, none starts the worker. -/
def BuildsOnce : MdnsAdvertiser → List Call → Prop
  | _, [] => True
  | a, c :: cs => ∀ a' ∈ step a c,
      (Builds a c → Meets step (fun a c => ¬Starts a c) a' cs) ∧ (¬Builds a c → BuildsOnce a' cs)

/-- The calls that start the worker are those in which nothing fails. -/
theorem started_iff : a.running = false ∧ (a.start cfg o).2 = true ↔ Starts a (.start cfg o) := by
  dsimp only [Starts]
  obtain ⟨hrunning, -⟩ | ⟨-, hip, heq⟩ | ⟨-, -, haddr, heq⟩ | ⟨addr, -, hip, haddr, heq⟩ :=
    a.start_cases cfg o
  · simp [hrunning]
  · simp [hip, heq]
  · simp [haddr, heq]
  · rw [heq]
    unfold MdnsAdvertiser.advertise
    cases o.socket <;> simp [hip, haddr]

theorem appendService_eq (pkt : List UInt8) (cfg : Config) (name host : List UInt8) :
    appendService pkt cfg name host = pkt ++ appendService [] cfg name host := by
  simp [appendService, appendRecord, putU16]

theorem appendAddress_eq (pkt host : List UInt8) (addr : InAddr) :
    appendAddress pkt host addr = pkt ++ appendAddress [] host addr := by
  simp [appendAddress, appendRecord, putU16]

theorem announcement_eq_fresh (h : Starts a (.start cfg o)) :
    (a.start cfg o).1.announcement = a.announcement ++ (fresh.start cfg o).1.announcement := by
  obtain ⟨hstopped, hip, haddr, -⟩ := h
  obtain ⟨addr, haddr⟩ := Option.ne_none_iff_exists'.1 haddr
  rw [announcement_start hstopped hip haddr, announcement_start rfl hip haddr,
    show fresh.announcement = [] from rfl, appendAddress_eq, appendService_eq,
    appendAddress_eq (appendService [] ..), List.append_assoc]

theorem equivalent_iff : Equivalent a c ↔ (Starts a c → a.announcement = []) := by
  cases c with
  | start cfg o =>
    dsimp only [Equivalent]
    rw [started_iff]
    refine imp_congr_right fun hstarts => ?_
    rw [announcement_eq_fresh hstarts]
    exact List.append_left_eq_self
  | stop => simp [Equivalent, Starts]
  | selectFails => simp [Equivalent, Starts]

theorem announcement_step (h : step a c = some a') :
    (Builds a c → a'.announcement ≠ []) ∧ (¬Builds a c → a'.announcement = a.announcement) ∧
      (a.announcement ≠ [] → a'.announcement ≠ []) := by
  cases c with
  | start cfg o =>
    obtain rfl := Option.some.inj h
    dsimp only [Builds]
    have hservice : ∀ name host, appendService a.announcement cfg name host ≠ [] := by
      simp [appendService, appendRecord, putU16]
    obtain ⟨hrunning, heq⟩ | ⟨-, hip, heq⟩ | ⟨hstopped, hip, -, heq⟩ |
      ⟨addr, hstopped, hip, -, heq⟩ := a.start_cases cfg o
    · simp [hrunning, heq]
    · simp [hip, heq]
    · simp [hstopped, hip, heq, MdnsAdvertiser.describe, hservice]
    · have haddress : ∀ pkt host, appendAddress pkt host addr ≠ [] := by
        simp [appendAddress, appendRecord, putU16]
      rw [heq]
      unfold MdnsAdvertiser.advertise
      cases o.socket <;> simp [hstopped, hip, haddress]
  | stop =>
    obtain rfl := Option.some.inj h
    dsimp only [Builds]
    unfold MdnsAdvertiser.stop
    split <;> simp
  | selectFails =>
    obtain ⟨-, rfl⟩ := when_eq_some.1 h
    simp [Builds]

theorem equivalent_iff_never (h : a.announcement ≠ []) :
    Meets step Equivalent a cs ↔ Meets step (fun a c => ¬Starts a c) a cs := by
  refine meets_congr (I := fun a => a.announcement ≠ []) ?_ ?_ cs h
  · intro a c hne
    rw [equivalent_iff]
    exact ⟨fun h hs => hne (h hs), fun h hs => absurd hs h⟩
  · intro a c a' hne _ hstep
    exact (announcement_step hstep).2.2 hne

/-- **When a later start announces what a new advertiser would.** In every history of calls. -/
theorem restart_equivalent_iff (cs : List Call) :
    Meets step Equivalent fresh cs ↔ BuildsOnce fresh cs := by
  -- by induction on the calls, as long as the packet is empty
  suffices h : ∀ a : MdnsAdvertiser, a.announcement = [] →
      (Meets step Equivalent a cs ↔ BuildsOnce a cs) from h fresh rfl
  induction cs with
  | nil => exact fun _ _ => Iff.rfl
  | cons c cs ih =>
    intro a hempty
    unfold Meets BuildsOnce
    rw [and_iff_right (equivalent_iff.2 fun _ => hempty)]
    refine forall₂_congr fun a' hstep => ?_
    obtain ⟨hbuilt, hkept, -⟩ := announcement_step hstep
    by_cases hbuilds : Builds a c
    · rw [equivalent_iff_never (hbuilt hbuilds)]
      simp [hbuilds]
    · rw [ih a' ((hkept hbuilds).trans hempty)]
      simp [hbuilds]

instance (a : MdnsAdvertiser) (c : Call) : Decidable (Equivalent a c) := by
  cases c <;> (dsimp only [Equivalent]; infer_instance)

/-- **A restart sends two messages in one packet.** -/
theorem restart_appends : ¬Meets step Equivalent fresh
    [.start blankConfig lanOutcome, .stop, .start blankConfig lanOutcome] := by
  decide +kernel

/-! ## Starting again after a failure -/

/-- A start that fails leaves nothing behind, and one that succeeds has a worker. -/
def Retry (a : MdnsAdvertiser) : Call → Prop
  | .start cfg o =>
    ((a.start cfg o).2 = false → (a.start cfg o).1.running = false ∧
      (a.start cfg o).1.thread = .none ∧ (a.start cfg o).1.sock = false) ∧
    ((a.start cfg o).2 = true → (a.start cfg o).1.thread = .running)
  | _ => True

/-- A start of a stopped advertiser finds an address, and the worker of a started one is in its loop. -/
def Found (a : MdnsAdvertiser) : Call → Prop
  | .start _ o =>
    (a.running = false → firstLanIPv4 o.addresses ≠ []) ∧ (a.running = true → a.thread ≠ .finished)
  | _ => True

/-- Stopped without a worker and a socket, or started with a worker. -/
structure Settled (a : MdnsAdvertiser) : Prop where
  stopped : a.running = false → a.thread = .none ∧ a.sock = false
  started : a.running = true → a.thread ≠ .none

theorem retry_iff_found (h : Settled a) : Retry a c ↔ Found a c := by
  cases c with
  | start cfg o =>
    dsimp only [Retry, Found]
    obtain ⟨hrunning, heq⟩ | ⟨hstopped, hip, heq⟩ | ⟨hstopped, hip, -, heq⟩ |
      ⟨addr, hstopped, hip, -, heq⟩ := a.start_cases cfg o
    · have hworker := h.started hrunning
      rw [heq]
      cases hthread : a.thread <;> simp_all
    · simp [heq, hstopped, hip]
    · obtain ⟨hthread, hsock⟩ := h.stopped hstopped
      simp [heq, hstopped, hip, MdnsAdvertiser.describe, hthread, hsock]
    · obtain ⟨hthread, -⟩ := h.stopped hstopped
      rw [heq]
      unfold MdnsAdvertiser.advertise
      cases o.socket <;> simp [hstopped, hip, MdnsAdvertiser.describe, hthread]
  | stop => exact Iff.rfl
  | selectFails => exact Iff.rfl

theorem settled_step (h : Settled a) (hfound : Found a c) (hstep : step a c = some a') :
    Settled a' := by
  cases c with
  | start cfg o =>
    obtain rfl := Option.some.inj hstep
    obtain ⟨hlan, hworker⟩ := hfound
    obtain ⟨-, heq⟩ | ⟨hstopped, hip, -⟩ | ⟨hstopped, -, -, heq⟩ | ⟨addr, hstopped, -, -, heq⟩ :=
      a.start_cases cfg o
    · rwa [heq]
    · exact absurd hip (hlan hstopped)
    · rw [heq]
      exact ⟨fun _ => h.stopped hstopped, fun hrunning => by simp at hrunning⟩
    · have hthread := (h.stopped hstopped).1
      rw [heq]
      unfold MdnsAdvertiser.advertise
      split
      · exact ⟨fun hrunning => by simp [MdnsAdvertiser.describe] at hrunning, fun _ => by simp⟩
      · exact ⟨fun _ => ⟨hthread, rfl⟩, fun hrunning => by simp at hrunning⟩
  | stop =>
    obtain rfl := Option.some.inj hstep
    unfold MdnsAdvertiser.stop
    split
    · exact ⟨fun _ => ⟨rfl, rfl⟩, fun hrunning => by simp at hrunning⟩
    · next hstopped =>
      have hthread := (h.stopped (by simpa using hstopped)).1
      exact ⟨fun _ => ⟨hthread, rfl⟩, fun hrunning => absurd hrunning hstopped⟩
  | selectFails =>
    obtain ⟨⟨hthread, -⟩, rfl⟩ := when_eq_some.1 hstep
    refine ⟨fun hstopped => ?_, fun _ => by simp⟩
    have hnone := (h.stopped hstopped).1
    rw [hthread] at hnone
    cases hnone

theorem settled_fresh : Settled fresh := ⟨fun _ => ⟨rfl, rfl⟩, fun h => by simp [fresh] at h⟩

/-- **When a failed start can be tried again.** In every history of calls. -/
theorem retry_iff (cs : List Call) : Meets step Retry fresh cs ↔ Meets step Found fresh cs :=
  meets_congr (fun _ _ => retry_iff_found)
    (fun _ _ _ h hretry hstep => settled_step h ((retry_iff_found h).1 hretry) hstep) cs settled_fresh

instance (a : MdnsAdvertiser) (c : Call) : Decidable (Retry a c) := by
  cases c <;> (dsimp only [Retry]; infer_instance)

/-- No adapter is up. -/
def offlineOutcome : Outcome := ⟨[], [ascii "MYPC"], none, true, true⟩

/-- **After a start without an address every start succeeds, without a worker.** -/
theorem offline_start_sticks : ¬Meets step Retry fresh [.start blankConfig offlineOutcome] ∧
    ((fresh.start blankConfig offlineOutcome).1.start blankConfig lanOutcome).2 = true ∧
    ((fresh.start blankConfig offlineOutcome).1.start blankConfig lanOutcome).1.thread = .none := by
  decide

end OpenDisplay.Net.MdnsRestart
