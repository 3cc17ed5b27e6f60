import OpenDisplay.Lib.Machine
import OpenDisplay.Lib.Store
import OpenDisplay.Lib.Transition

/-!
# The periodic statistics

`SendStats` reports the frames decoded and the bits received since the call before it.  The bytes
come from the counter of the session, which starts at 0 with each connection; what is subtracted is
`lastBytesAtStats_`, which belongs to the app and is not reset when a session is accepted.

The ghosts are numbers of bytes that nothing reduces: what each session has received so far, what it
had received at its previous `SendStats`, and what the session that was counted last had received then,
whichever it was.  Every call leaves a `Report`.  The reports are sound in the runs in which, at each
call, the last of these numbers lies between the other two (`reports_sound`); when the session has
received less, the subtraction underflows (`not_sound_sendStats`).
-/

namespace OpenDisplay.App.Stats

open OpenDisplay.Lib.Machine OpenDisplay.Lib.Store OpenDisplay.Lib.Transition

structure Session where
  bytesReceived : ℕ
  /-- What it has received so far. -/
  total : ℕ
  /-- What it had received at its previous `SendStats`, 0 if there was none. -/
  before : ℕ

/-- A session after `make_shared`. -/
def Session.made : Session := ⟨0, 0, 0⟩

/-- `bytesReceived_.fetch_add(n)`, in 64 bits. -/
def Session.receive (n : ℕ) (s : Session) : Session where
  bytesReceived := (s.bytesReceived + n) % 18446744073709551616
  total := s.total + n
  before := s.before

/-- A `SendStats` on the session. -/
def Session.reported (s : Session) : Session := { s with before := s.total }

/-- The arguments of `BuildStats`. -/
structure StatsMessage where
  fps : ℤ
  mbps : ℤ
  rttMs : ℤ
  e2eP50Ms : ℤ
  e2eP95Ms : ℤ
  deriving DecidableEq, Repr

/-- What a call of `SendStats` sent, and the values it read. -/
structure Report where
  stats : StatsMessage
  dt : ℤ
  bytes : ℕ
  lastBytes : ℕ
  /-- What the session has received since its previous report. -/
  since : ℕ

structure State where
  sessions : ℕ → Session
  created : ℕ
  /-- `OnAccept` has published a session and not yet set `lastStatsAtMs`. -/
  accepting : Bool
  framesDecoded : ℕ
  lastDecodedForFps : ℕ
  lastBytesAtStats : ℕ
  lastStatsAtMs : ℤ
  lastRttMs : ℤ
  lastE2eMs : ℤ
  /-- What the session of the last call that counted had received then, 0 if there was none. -/
  counted : ℕ
  /-- Newest first. -/
  reports : List Report

def initial : State where
  sessions := fun _ => .made
  created := 0
  accepting := false
  framesDecoded := 0
  lastDecodedForFps := 0
  lastBytesAtStats := 0
  lastStatsAtMs := 0
  lastRttMs := -1
  lastE2eMs := -1
  counted := 0
  reports := []

/-- `static_cast<int>((total - last) * scale / dt)` in `uint64_t`. -/
def perDt (total last scale : ℕ) (dt : ℤ) : ℕ :=
  subUInt64 total last * scale % 18446744073709551616 / dt.toNat

/-- The statistics that `SendStats` sends for session `s` at `now`. -/
def statsOf (st : State) (s : Session) (now : ℤ) : StatsMessage where
  fps :=
    if 100 < now - st.lastStatsAtMs then
      castInt (perDt st.framesDecoded st.lastDecodedForFps 1000 (now - st.lastStatsAtMs))
    else 0
  mbps :=
    if 100 < now - st.lastStatsAtMs then
      castInt (perDt s.bytesReceived st.lastBytesAtStats 8 (now - st.lastStatsAtMs) / 1000 : ℕ)
    else 0
  rttMs := if 0 ≤ st.lastRttMs ∧ st.lastRttMs < 5000 then st.lastRttMs else -1
  e2eP50Ms := st.lastE2eMs
  e2eP95Ms := st.lastE2eMs

/-- `SendStats` on session `i`. -/
def sendStats (st : State) (i : ℕ) (now : ℤ) : State :=
  let s := st.sessions i
  { st with
    sessions := modifyAt st.sessions (some i) .reported
    lastBytesAtStats :=
      if 100 < now - st.lastStatsAtMs then s.bytesReceived else st.lastBytesAtStats
    lastStatsAtMs := now
    lastDecodedForFps := st.framesDecoded
    counted := if 100 < now - st.lastStatsAtMs then s.total else st.counted
    reports :=
      ⟨statsOf st s now, now - st.lastStatsAtMs, s.bytesReceived, st.lastBytesAtStats,
        s.total - s.before⟩ :: st.reports }

inductive Label
  /-- `OnAccept` creates and starts a session. -/
  | accept
  /-- The last line of `OnAccept`. -/
  | accepted (now : ℤ)
  /-- `recv` returns `n` bytes on session `i`, current or replaced. -/
  | receive (i n : ℕ)
  /-- The decoder finishes a frame. -/
  | decoded
  /-- A pong, or a frame shown, is measured. -/
  | measured (rttMs e2eMs : ℤ)
  /-- `SendStats` on session `i`. -/
  | sendStats (i : ℕ) (now : ℤ)

def step (st : State) : Label → Option State
  | .accept =>
    when (st.accepting = false)
      { st with
        sessions := modifyAt st.sessions (some st.created) fun _ => .made
        created := st.created + 1
        accepting := true }
  | .accepted now =>
    when (st.accepting = true) { st with accepting := false, lastStatsAtMs := now }
  | .receive i n =>
    when (i < st.created) { st with sessions := modifyAt st.sessions (some i) (.receive n) }
  | .decoded => some { st with framesDecoded := (st.framesDecoded + 1) % 18446744073709551616 }
  | .measured rttMs e2eMs => some { st with lastRttMs := rttMs, lastE2eMs := e2eMs }
  | .sendStats i now => when (i < st.created) (sendStats st i now)

/-- A report that counted bytes subtracted no more than it had, and its rate is that of the bytes
received since the session's previous report. -/
def Sound (r : Report) : Prop :=
  100 < r.dt → r.lastBytes ≤ r.bytes ∧ r.stats.mbps ≤ (8 * r.since / r.dt.toNat / 1000 : ℕ)

instance (r : Report) : Decidable (Sound r) := by
  unfold Sound
  infer_instance

/-- When a session is counted, it has received at least as much as the one that was counted last had
then, with no wrap of the counter in between, and had received at most as much at its previous report. -/
def Counted (st : State) : Label → Prop
  | .sendStats i now =>
    100 < now - st.lastStatsAtMs →
      (st.sessions i).before ≤ st.counted ∧ st.counted ≤ (st.sessions i).total ∧
        st.counted / 18446744073709551616 = (st.sessions i).total / 18446744073709551616
  | _ => True

instance (st : State) : ∀ l, Decidable (Counted st l)
  | .sendStats i now =>
    inferInstanceAs (Decidable (100 < now - st.lastStatsAtMs →
      (st.sessions i).before ≤ st.counted ∧ st.counted ≤ (st.sessions i).total ∧
        st.counted / 18446744073709551616 = (st.sessions i).total / 18446744073709551616))
  | .accept | .accepted _ | .receive .. | .decoded | .measured .. => isTrue trivial

/-! ## The counter of a session -/

/-- The counter is what was received, in 64 bits. -/
def Session.Consistent (s : Session) : Prop := s.bytesReceived = s.total % 18446744073709551616

theorem consistent_made : Session.made.Consistent := rfl

variable {s : Session} {st st' : State} {l : Label}

theorem Session.Consistent.receive (h : s.Consistent) (n : ℕ) : (s.receive n).Consistent := by
  simp only [Session.Consistent, Session.receive] at h ⊢
  omega

theorem Session.Consistent.reported (h : s.Consistent) : s.reported.Consistent := h

theorem Session.Consistent.lt (h : s.Consistent) : s.bytesReceived < 18446744073709551616 := by
  unfold Session.Consistent at h
  omega

theorem Session.Consistent.sub_le (h : s.Consistent) {n : ℕ} (hlo : s.before ≤ n) (hhi : n ≤ s.total)
    (hwrap : n / 18446744073709551616 = s.total / 18446744073709551616) :
    n % 18446744073709551616 ≤ s.bytesReceived ∧
      subUInt64 s.bytesReceived (n % 18446744073709551616) ≤ s.total - s.before := by
  have hle : n % 18446744073709551616 ≤ s.bytesReceived := by
    unfold Session.Consistent at h
    omega
  refine ⟨hle, ?_⟩
  rw [subUInt64_of_le hle h.lt]
  unfold Session.Consistent at h
  omega

theorem sound_statsOf (hs : s.Consistent) (hlast : st.lastBytesAtStats = st.counted % 18446744073709551616)
    {now : ℤ}
    (hc : 100 < now - st.lastStatsAtMs → s.before ≤ st.counted ∧ st.counted ≤ s.total ∧
      st.counted / 18446744073709551616 = s.total / 18446744073709551616) :
    Sound ⟨statsOf st s now, now - st.lastStatsAtMs, s.bytesReceived, st.lastBytesAtStats,
      s.total - s.before⟩ := by
  intro hdt
  obtain ⟨hlo, hhi, hwrap⟩ := hc hdt
  obtain ⟨hle, hsub⟩ := hs.sub_le hlo hhi hwrap
  rw [← hlast] at hle hsub
  refine ⟨hle, ?_⟩
  have hbits : perDt s.bytesReceived st.lastBytesAtStats 8 (now - st.lastStatsAtMs) ≤
      8 * (s.total - s.before) / (now - st.lastStatsAtMs).toNat := by
    apply Nat.div_le_div_right
    have hmod := Nat.mod_le (subUInt64 s.bytesReceived st.lastBytesAtStats * 8) 18446744073709551616
    omega
  have hrate : (statsOf st s now).mbps =
      castInt (perDt s.bytesReceived st.lastBytesAtStats 8 (now - st.lastStatsAtMs) / 1000 : ℕ) :=
    if_pos hdt
  rw [hrate]
  exact Int.le_trans (castInt_natCast_le _) (Int.ofNat_le.2 (Nat.div_le_div_right hbits))

/-! ## A run -/

structure Inv (st : State) : Prop where
  consistent : ∀ i, (st.sessions i).Consistent
  last : st.lastBytesAtStats = st.counted % 18446744073709551616
  sound : ∀ r ∈ st.reports, Sound r

theorem inv_initial : Inv initial where
  consistent := fun _ => consistent_made
  last := rfl
  sound := by
    intro r hr
    cases hr

theorem Inv.modify (hi : Inv st) (v : Option ℕ) {f : Session → Session}
    (hf : ∀ s : Session, s.Consistent → (f s).Consistent) (i : ℕ) :
    (modifyAt st.sessions v f i).Consistent := by
  unfold modifyAt
  split
  · exact hf _ (hi.consistent i)
  · exact hi.consistent i

theorem Inv.step (hi : Inv st) (hok : Counted st l) (hs : step st l = some st') : Inv st' := by
  cases l with
  | accept =>
    obtain ⟨-, rfl⟩ := when_eq_some.1 hs
    exact ⟨hi.modify _ fun _ _ => consistent_made, hi.last, hi.sound⟩
  | accepted now =>
    obtain ⟨-, rfl⟩ := when_eq_some.1 hs
    exact ⟨hi.consistent, hi.last, hi.sound⟩
  | receive i n =>
    obtain ⟨-, rfl⟩ := when_eq_some.1 hs
    exact ⟨hi.modify _ fun _ h => h.receive n, hi.last, hi.sound⟩
  | decoded =>
    cases hs
    exact ⟨hi.consistent, hi.last, hi.sound⟩
  | measured rttMs e2eMs =>
    cases hs
    exact ⟨hi.consistent, hi.last, hi.sound⟩
  | sendStats i now =>
    obtain ⟨-, rfl⟩ := when_eq_some.1 hs
    refine ⟨hi.modify _ fun _ h => h.reported, ?_, ?_⟩
    · unfold sendStats
      dsimp only
      split
      · exact hi.consistent i
      · exact hi.last
    · intro r hr
      rcases List.mem_cons.1 hr with rfl | hr
      · exact sound_statsOf (hi.consistent i) hi.last hok
      · exact hi.sound r hr

/-- **The bandwidth in the reports is real.**  In every run in which, at each `SendStats` more than
100 ms after the one before, the session has received no less than the one that was counted last had
then, and had received no more at its previous report, no report underflows, and each rate is at most
that of the bytes received on the session since its previous report. -/
theorem reports_sound (h : Reaches step Counted initial st) : ∀ r ∈ st.reports, Sound r :=
  (h.invariant inv_initial fun _ _ _ => Inv.step).sound

/-- A session that has received less than the one that was counted last underflows. -/
theorem not_sound_sendStats (hi : Inv st) {i : ℕ} {now : ℤ} (hdt : 100 < now - st.lastStatsAtMs)
    (hlt : (st.sessions i).total < st.counted) (hcounted : st.counted < 18446744073709551616) :
    ∃ r ∈ (sendStats st i now).reports, ¬Sound r := by
  refine ⟨_, List.mem_cons_self, ?_⟩
  intro hsound
  have hle := (hsound hdt).1
  have hbytes : (st.sessions i).bytesReceived = (st.sessions i).total % 18446744073709551616 :=
    hi.consistent i
  have hlast := hi.last
  dsimp only at hle
  omega

/-- One session, with 2 MB in the first 5 s and 3 MB in the next. -/
def oneSession : List Label :=
  [.accept, .accepted 1000, .receive 0 2000000, .sendStats 0 6000, .receive 0 3000000,
    .sendStats 0 11000]

/-- The same app takes a second connection after the first report. -/
def reconnect : List Label :=
  [.accept, .accepted 1000, .receive 0 2000000, .sendStats 0 6000, .accept, .accepted 7000,
    .receive 1 500, .sendStats 1 12000]

theorem reports_sound_oneSession :
    Meets step Counted initial oneSession ∧
      ∃ st, exec step initial oneSession = some st ∧ st.reports.map (·.stats.mbps) = [4, 3] ∧
        ∀ r ∈ st.reports, Sound r := by
  have hm : Meets step Counted initial oneSession := by decide
  have hr : Reaches step Counted initial ((exec step initial oneSession).get (by decide)) :=
    reaches_of_exec oneSession hm (by simp)
  exact ⟨hm, _, by simp, by decide, reports_sound hr⟩

/-- **A reconnect underflows.**  The counter of the second session starts again at 0, and the 500
bytes minus the two million of the first one wrap around, and are reported as a rate. -/
theorem reconnect_underflows :
    ∃ st, exec step initial reconnect = some st ∧
      st.reports.map (fun r => (r.bytes, r.lastBytes, r.since, r.stats.mbps)) =
        [(500, 2000000, 500, -28092526), (2000000, 0, 2000000, 3)] ∧
      ¬∀ r ∈ st.reports, Sound r :=
  ⟨(exec step initial reconnect).get (by decide), by simp, by decide,
    by decide⟩

end OpenDisplay.App.Stats
