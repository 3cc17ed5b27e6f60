import OpenDisplay.App.LifetimeStands

/-! # What is released once

A member of the app that owns a resource is set while the resource is held, and the moves write exactly
the changes of that into the ledger (`writes_move`): what releases a resource also clears its member. So
every resource is settled, but for the event handle, whose member stays set: it is released once by each
`TearDown` that finds it.

`Orderly` says of a move that it does not close a handle that an earlier `TearDown` closed, and that `~App`
does not end while a callback on a read thread still owns its session. -/

namespace OpenDisplay.App.Lifetime

open OpenDisplay.Lib.Ledger OpenDisplay.Lib.Transition OpenDisplay.Lib.Text OpenDisplay.Net
open OpenDisplay.Net.MdnsAdvertise
open OpenDisplay.App.SessionJoins OpenDisplay.App.SessionMoves OpenDisplay.App.SessionCount

/-! ## The sessions -/

section Sessions

variable {app app' : Sessions.State} {net net' : TearDown.State} {k : ℕ}

theorem released_lastEntries (app : Sessions.State) (v : Option ℕ) (k : ℕ) :
    released (lastEntries app v) (.session k) =
      if v = some k ∧ (app.sessions k).refs = 1 then 1 else 0 := by
  cases v with
  | none => simp [lastEntries, Sessions.State.IsLast]
  | some i =>
    by_cases hi : i = k
    · subst hi
      by_cases h1 : (app.sessions i).refs = 1 <;> simp [lastEntries, Sessions.State.IsLast, h1]
    · by_cases h1 : (app.sessions i).refs = 1 <;> simp [lastEntries, Sessions.State.IsLast, h1, hi]

theorem lastEntries_other (app : Sessions.State) (v : Option ℕ) {r : Resource}
    (hr : ∀ k, r ≠ .session k) : released (lastEntries app v) r = 0 := by
  unfold lastEntries
  split
  · cases v with
    | none => rfl
    | some i => simp [(hr i).symm]
  · rfl

theorem acquired_lastEntries (app : Sessions.State) (v : Option ℕ) (r : Resource) :
    acquired (lastEntries app v) r = 0 := by
  unfold lastEntries
  split
  · cases v <;> simp
  · rfl

theorem born_step {a : Sessions.Label} (hI : SessionCount.Inv app)
    (hs : Sessions.step app a = some app') (h0 : (app.sessions k).refs = 0)
    (h0' : (app'.sessions k).refs ≠ 0) : ∃ addr, a = .acceptMake addr := by
  by_cases ht : target app a = some k
  · rw [sessions_step_of_eq hs ht] at h0'
    have hv : references app k = 0 := by
      have := hI.counted k
      rw [h0, owners] at this
      omega
    cases a
    case acceptMake addr => exact ⟨addr, rfl⟩
    case acceptCopy | acceptAssign | resizeCopy =>
      simp only [target] at ht
      rw [references, ht, Lib.Store.owns_self] at hv
      omega
    all_goals simp [effect, h0, Sessions.Session.refs_lock] at h0'
  · rw [sessions_step_of_ne hs ht] at h0'
    exact absurd h0 h0'

/-- The last release takes the count to zero. -/
theorem unborn_of_release {a : Sessions.Label} (hs : Sessions.step app a = some app')
    (hr : (releaser a).isSome = true) (ht : target app a = some k)
    (h1 : (app.sessions k).refs = 1) : (app'.sessions k).refs = 0 := by
  rw [sessions_step_of_eq hs ht]
  cases a <;> simp only [releaser, Option.isSome_none, Bool.false_eq_true] at hr
  all_goals simp [effect, h1]

theorem netEntries_app {a : Sessions.Label} (ha : ∀ addr, a ≠ .acceptMake addr) :
    netEntries net (.app a) =
      if (releaser a).isSome then lastEntries net.app (target net.app a) else [] := by
  cases a
  case acceptMake addr => exact absurd rfl (ha addr)
  all_goals rfl

theorem released_netEntries_app {a : Sessions.Label} (ha : ∀ addr, a ≠ .acceptMake addr) (k : ℕ) :
    released (netEntries net (.app a)) (.session k) =
      if (releaser a).isSome = true ∧ target net.app a = some k ∧ (net.app.sessions k).refs = 1 then 1
      else 0 := by
  rw [netEntries_app ha]
  split
  · rw [released_lastEntries]
    simp [*]
  · simp [*]

theorem acquired_netEntries_app {a : Sessions.Label} (ha : ∀ addr, a ≠ .acceptMake addr)
    (r : Resource) : acquired (netEntries net (.app a)) r = 0 := by
  rw [netEntries_app ha]
  split
  · exact acquired_lastEntries _ _ _
  · rfl

theorem listener_other {n : TcpListener.Label} {r : Resource} (hr : r ≠ .listenSock) :
    released (netEntries net (.listener n)) r = 0 ∧
      acquired (netEntries net (.listener n)) r = 0 := by
  cases n <;> simp [netEntries, hr.symm]

/-- **The ledger follows the counts of the sessions.** -/
theorem writes_session (hI : SessionCount.Inv net.app) {l : TearDown.Label}
    (hs : TearDown.step net l = some net') (k : ℕ) :
    released (netEntries net l) (.session k) + ((net'.app.sessions k).refs != 0).toNat =
      acquired (netEntries net l) (.session k) + ((net.app.sessions k).refs != 0).toNat := by
  rcases TearDown.step_cases hs with ⟨a, rfl, ha, -⟩ | ⟨n, rfl, -, ha, -⟩
  · by_cases hmake : ∃ addr, a = .acceptMake addr
    · obtain ⟨addr, rfl⟩ := hmake
      by_cases hk : net.app.created = k
      · have h0 := (hI.fresh k (by omega)).1
        have h1 : (net'.app.sessions k).refs = 1 := by
          rw [sessions_step_of_eq ha (congrArg some hk)]
          rfl
        simp [netEntries, h0, h1, hk]
      · rw [sessions_step_of_ne ha (by simpa [target] using hk)]
        simp [netEntries, hk]
    · have hmake' : ∀ addr, a ≠ .acceptMake addr := fun addr he => hmake ⟨addr, he⟩
      rw [released_netEntries_app hmake', acquired_netEntries_app hmake']
      by_cases h0 : (net.app.sessions k).refs = 0
      · have h0' : (net'.app.sessions k).refs = 0 := by
          by_contra h0'
          exact hmake (born_step hI ha h0 h0')
        simp [h0, h0']
      · by_cases h0' : (net'.app.sessions k).refs = 0
        · obtain ⟨t, hr, ht, h1⟩ := released_step ha h0 h0'
          simp [hr, ht, h1, h0']
        · have hnot : ¬((releaser a).isSome = true ∧ target net.app a = some k ∧
              (net.app.sessions k).refs = 1) := by
            rintro ⟨hr, ht, h1⟩
            exact h0' (unborn_of_release ha hr ht h1)
          rw [if_neg hnot, bne_iff_ne.2 h0, bne_iff_ne.2 h0']
  · have hne : Resource.session k ≠ .listenSock := by simp
    rw [ha, (listener_other hne).1, (listener_other hne).2]

/-- The moves of the sessions have no other resources than these. -/
theorem app_other {a : Sessions.Label} {r : Resource} (hr : ∀ k, r ≠ .session k) :
    released (netEntries net (.app a)) r = 0 ∧ acquired (netEntries net (.app a)) r = 0 := by
  by_cases hmake : ∃ addr, a = .acceptMake addr
  · obtain ⟨addr, rfl⟩ := hmake
    simp [netEntries, (hr _).symm]
  · have hmake' : ∀ addr, a ≠ .acceptMake addr := fun addr he => hmake ⟨addr, he⟩
    refine ⟨?_, acquired_netEntries_app hmake' r⟩
    rw [netEntries_app hmake']
    simp [lastEntries_other _ _ hr]

theorem netEntries_other {l : TearDown.Label} {r : Resource} (hr : ∀ k, r ≠ .session k)
    (hl : r ≠ .listenSock) :
    released (netEntries net l) r = 0 ∧ acquired (netEntries net l) r = 0 := by
  cases l with
  | app a => exact app_other hr
  | listener n => exact listener_other hl

/-- The socket is made by `Start` and closed by `Stop`. -/
theorem listenSock_step {n n' : TcpListener.State} {a : TcpListener.Label}
    (hs : TcpListener.step n a = some n') (hne : a ≠ .start) :
    n'.listenSock_ = if a = .close then false else n.listenSock_ := by
  cases a <;> simp only [TcpListener.step, when_eq_some] at hs
  case start => exact absurd rfl hne
  case check =>
    split at hs
    · obtain rfl := Option.some.inj hs
      rfl
    · cases hs
  case stop =>
    obtain ⟨-, rfl⟩ := hs
    split <;> rfl
  all_goals
    obtain ⟨-, rfl⟩ := hs
    rfl

/-- **The ledger follows the socket of the listener.** -/
theorem writes_close {l : TearDown.Label} (hs : TearDown.step net l = some net')
    (hl : l ≠ .listener .start) :
    released (netEntries net l) .listenSock + net'.listener.listenSock_.toNat =
      acquired (netEntries net l) .listenSock + net.listener.listenSock_.toNat := by
  rcases TearDown.step_cases hs with ⟨a, rfl, -, hn⟩ | ⟨n, rfl, -, -, hn⟩
  · rw [(app_other (by simp)).1, (app_other (by simp)).2]
    rcases hn with ⟨-, hn⟩ | ⟨-, hn⟩
    · rw [listenSock_step hn (by simp)]
      simp
    · rw [hn]
  · rw [listenSock_step hn (by simpa using hl)]
    by_cases hc : n = .close
    · subst hc
      cases hsock : net.listener.listenSock_ <;> simp [netEntries, hsock]
    · cases n <;> simp_all [netEntries]

end Sessions

/-! ## The members of the app -/

/-- The member that owns the resource is set. -/
def Held (st : State) : Resource → Bool
  | .session k => (st.net.app.sessions k).refs != 0
  | .decodeThread => joinable st.decodeThread
  | .decoder => st.decoder.isSome
  | .transform n => st.transform == some n
  | .listenSock => st.net.listener.listenSock_
  | .mdnsSock => st.mdns.sock
  | .frameEvent => st.frameEvent

/-- The resource is not made yet. -/
def Unborn (st : State) : Resource → Prop
  | .session k => st.net.app.created ≤ k
  | .transform n => st.transforms ≤ n
  | .frameEvent => st.main = .setup .window ∨ st.main = .setup .event
  | .decoder => st.main = .setup .window ∨ st.main = .setup .event ∨ st.main = .setup .decoder
  | .decodeThread => ∃ pc, st.main = .setup pc ∧ pc ≠ .listener ∧ pc ≠ .advertiser
  | .listenSock => ∃ pc, st.main = .setup pc ∧ pc ≠ .advertiser
  | .mdnsSock => ∃ pc, st.main = .setup pc

variable {st st' : State} {l : Label}

/-- What a move writes about a resource is what it does to its member. -/
def Writes (st : State) (l : Label) (st' : State) (r : Resource) : Prop :=
  released (entries st l) r + (Held st' r).toNat = acquired (entries st l) r + (Held st r).toNat

section Entries

variable {r : Resource}

@[simp] theorem acquired_transformEntries : acquired (transformEntries st) r = 0 := by
  unfold transformEntries
  cases st.transform <;> simp

@[simp] theorem released_transformEntries (n : ℕ) :
    released (transformEntries st) (.transform n) = (st.transform == some n).toNat := by
  unfold transformEntries
  cases st.transform with
  | none => rfl
  | some m =>
    by_cases hm : m = n
    · simp [hm]
    · simp [hm, beq_eq_false_iff_ne.2 hm]

@[simp] theorem transformEntries_other (hr : ∀ n, r ≠ .transform n) :
    released (transformEntries st) r = 0 := by
  unfold transformEntries
  cases st.transform with
  | none => rfl
  | some m => simp [(hr m).symm]

@[simp] theorem acquired_mdnsEntries : acquired (mdnsEntries st) r = 0 := by
  unfold mdnsEntries
  split <;> simp

@[simp] theorem released_mdnsEntries : released (mdnsEntries st) .mdnsSock = st.mdns.sock.toNat := by
  unfold mdnsEntries
  cases st.mdns.sock <;> simp

@[simp] theorem mdnsEntries_other (hr : r ≠ .mdnsSock) : released (mdnsEntries st) r = 0 := by
  unfold mdnsEntries
  split <;> simp [hr.symm]

end Entries

/-- The moves that may write about a resource or touch its member. -/
def concerns : Label → Resource → Bool
  | .createEvent _, .frameEvent | .closeEvent, .frameEvent => true
  | .makeDecoder, .decoder | .finish, .decoder => true
  | .startDecode, .decodeThread | .joinDecode, .decodeThread | .exitDecode, .decodeThread => true
  | .makeDecoder, .transform _ | .shutdownDecoder, .transform _ | .resetTransform, .transform _
  | .attachTransform, .transform _ | .finish, .transform _ => true
  | .listenFails _, .listenSock | .listen, .listenSock | .net _, .listenSock => true
  | .advertise .., .mdnsSock | .stopMdns, .mdnsSock | .destroy, .mdnsSock => true
  | .net _, .session _ | .destroy, .session _ => true
  | _, _ => false

-- What a move writes and what is held is read off move by move.
attribute [local simp] entries concerns Held Unborn

theorem elsewhere {r : Resource} (hs : Moves st l st') (hc : concerns l r = false) :
    released (entries st l) r = 0 ∧ acquired (entries st l) r = 0 ∧ Held st' r = Held st r := by
  cases hs
  case net a net ha hn =>
    cases r <;> simp only [concerns, reduceCtorEq] at hc
    all_goals simp [netEntries_other, State.transform]
  case listen net hm hn =>
    cases r <;> simp only [concerns, reduceCtorEq] at hc
    all_goals simp [State.transform, (start_step hn).1]
  all_goals
    cases r <;> simp only [concerns, reduceCtorEq] at hc
  case attachTransform.decoder hd hi => simp [hi]
  all_goals
    simp [State.transform, State.enterTearDown, again, State.resetTransform, lastEntries_other, acquired_lastEntries]

theorem writes_decodeThread (hs : Moves st l st')
    (hfree : Unborn st .decodeThread → Held st .decodeThread = false)
    (hc : concerns l .decodeThread = true) : Writes st l st' .decodeThread := by
  unfold Writes
  cases hs <;> simp only [concerns, Bool.false_eq_true] at hc
  case startDecode hm =>
    rw [hfree ⟨_, hm, by simp, by simp⟩]
    simp [joinable]
  case joinDecode => cases hd : st.decodeThread <;> simp [joinable, hd]
  case exitDecode hd hr => simp [joinable, hd]

theorem writes_decoder (hs : Moves st l st')
    (hfree : Unborn st .decoder → Held st .decoder = false)
    (hc : concerns l .decoder = true) : Writes st l st' .decoder := by
  unfold Writes
  cases hs <;> simp only [concerns, Bool.false_eq_true] at hc
  case makeDecoder hm =>
    rw [hfree (.inr (.inr hm))]
    simp
  case finish => cases hd : st.decoder <;> simp [hd]

theorem writes_transform {n : ℕ} (hs : Moves st l st')
    (hfree : Unborn st .decoder → Held st .decoder = false)
    (hc : concerns l (.transform n) = true) : Writes st l st' (.transform n) := by
  unfold Writes
  cases hs <;> simp only [concerns, Bool.false_eq_true] at hc
  case makeDecoder hm =>
    have hnone : st.decoder = none := by simpa [Held] using hfree (.inr (.inr hm))
    simp [State.transform, hnone]
  case attachTransform hd hi =>
    by_cases hn : st.transforms = n
    · simp [State.transform, hi, hn]
    · simp [State.transform, hi, hn, beq_eq_false_iff_ne.2 hn]
  case finish => simp [State.transform]
  all_goals
    cases hd : st.decoder <;> simp [State.resetTransform, State.transform, hd]

/-- `Start` makes its socket where it returns true for the first time. -/
theorem sock_start (a : MdnsAdvertiser) (cfg : Config) (o : Outcome) (h : a.sock = false) :
    (a.start cfg o).1.sock = decide (a.running = false ∧ (a.start cfg o).2 = true) := by
  rcases a.start_cases cfg o with ⟨hr, he⟩ | ⟨-, -, he⟩ | ⟨-, -, -, he⟩ | ⟨addr, hr, -, -, he⟩ <;> rw [he]
  · simp [h, hr]
  · simp [h]
  · simp [MdnsAdvertiser.describe, h]
  · unfold MdnsAdvertiser.advertise
    split <;> simp [hr]

theorem sock_stop (a : MdnsAdvertiser) : a.stop.sock = false := by
  unfold MdnsAdvertiser.stop
  split <;> rfl

theorem writes_mdnsSock (hs : Moves st l st')
    (hfree : Unborn st .mdnsSock → Held st .mdnsSock = false)
    (hc : concerns l .mdnsSock = true) : Writes st l st' .mdnsSock := by
  unfold Writes
  cases hs <;> simp only [concerns, Bool.false_eq_true] at hc
  case advertise cfg o hm =>
    have hfree : st.mdns.sock = false := hfree ⟨_, hm⟩
    simp only [entries, Held, sock_start _ _ _ hfree, hfree]
    split <;> simp [*]
  case stopMdns => simp [sock_stop]
  case destroy => simp [sock_stop, lastEntries_other, acquired_lastEntries]

theorem writes_listenSock (hs : Moves st l st')
    (hfree : Unborn st .listenSock → Held st .listenSock = false)
    (hc : concerns l .listenSock = true) : Writes st l st' .listenSock := by
  unfold Writes
  cases hs <;> simp only [concerns, Bool.false_eq_true] at hc
  case net a net ha hn =>
    refine writes_close hn ?_
    rintro rfl
    cases ha
  case listen net hm hn =>
    rw [hfree ⟨_, hm, by simp⟩]
    simp [(start_step hn).2]
  case listenFails => simp [State.enterTearDown, again]

theorem writes_sessions (hI : Inv st) {k : ℕ} (hs : Moves st l st')
    (hc : concerns l (.session k) = true) : Writes st l st' (.session k) := by
  unfold Writes
  cases hs <;> simp only [concerns, Bool.false_eq_true] at hc
  case net a net ha hn => exact writes_session hI.net.counted hn k
  case destroy =>
    simp only [entries, released_append, acquired_append, acquired_lastEntries, acquired_mdnsEntries,
      mdnsEntries_other (show Resource.session k ≠ .mdnsSock by simp), released_lastEntries, Held,
      Sessions.State.release, Sessions.State.modify, refs_release]
    by_cases hv : st.net.app.session = some k
    · rw [hv, Lib.Store.owns_self]
      have hpos : (st.net.app.sessions k).refs ≠ 0 := by
        rw [hI.net.counted.counted k, owners, references, hv, Lib.Store.owns_self]
        omega
      by_cases h1 : (st.net.app.sessions k).refs = 1
      · simp [h1]
      · have h2 : (st.net.app.sessions k).refs - 1 ≠ 0 := by omega
        simp only [h1, and_false, if_false, bne_iff_ne.2 hpos, bne_iff_ne.2 h2]
    · simp [hv, Lib.Store.owns_eq_zero hv]

/-- **What a move does to a resource is in the ledger.** -/
theorem writes_move (hI : Inv st) (hfree : ∀ r, Unborn st r → Held st r = false)
    (hs : Moves st l st') {r : Resource} (hr : r ≠ .frameEvent) : Writes st l st' r := by
  cases hc : concerns l r with
  | false =>
    obtain ⟨hrel, hacq, hheld⟩ := elsewhere hs hc
    rw [Writes, hrel, hacq, hheld]
  | true =>
    cases r with
    | session k => exact writes_sessions hI hs hc
    | decodeThread => exact writes_decodeThread hs (hfree _) hc
    | decoder => exact writes_decoder hs (hfree _) hc
    | transform n => exact writes_transform hs (hfree _) hc
    | listenSock => exact writes_listenSock hs (hfree _) hc
    | mdnsSock => exact writes_mdnsSock hs (hfree _) hc
    | frameEvent => exact absurd rfl hr

/-! ## What is made once -/

/-- What a move may acquire. -/
def makes (st : State) : Label → Option Resource
  | .createEvent _ => some .frameEvent
  | .makeDecoder => some .decoder
  | .startDecode => some .decodeThread
  | .listenFails _ | .listen => some .listenSock
  | .advertise .. => some .mdnsSock
  | .net (.app (.acceptMake _)) => some (.session st.net.app.created)
  | .attachTransform => some (.transform st.transforms)
  | _ => none

theorem acquired_le (st : State) (l : Label) (r : Resource) :
    acquired (entries st l) r ≤ if makes st l = some r then 1 else 0 := by
  cases l
  case net a =>
    cases a with
    | listener n => cases n <;> simp [netEntries]
    | app a =>
      by_cases hmake : ∃ addr, a = .acceptMake addr
      · obtain ⟨addr, rfl⟩ := hmake
        simp [netEntries, makes]
      · have hmake' : ∀ addr, a ≠ .acceptMake addr := fun addr he => hmake ⟨addr, he⟩
        simp [acquired_netEntries_app hmake']
  case createEvent ok | listenFails ok => cases ok <;> simp [makes]
  case advertise =>
    simp only [entries, makes, acquired_ite]
    split <;> simp
  all_goals simp [makes, acquired_lastEntries]

theorem created_make {app app' : Sessions.State} {addr : ℕ}
    (hs : Sessions.step app (.acceptMake addr) = some app') : app'.created = app.created + 1 := by
  simp only [Sessions.step, Option.ite_none_left_eq_some, when_eq_some] at hs
  obtain ⟨-, -, rfl⟩ := hs
  rfl

theorem unborn_of_makes (hs : Moves st l st') {r : Resource} (hr : makes st l = some r) :
    Unborn st r ∧ ¬Unborn st' r := by
  cases hs
  case net a net ha hn =>
    rcases TearDown.step_cases hn with ⟨a, rfl, ha, -⟩ | ⟨n, rfl, -⟩
    · cases a <;> simp only [makes, reduceCtorEq, Option.some.injEq] at hr
      subst hr
      have hc := created_make ha
      simp only [Unborn]
      omega
    · cases hr
  all_goals
    simp only [makes, reduceCtorEq, Option.some.injEq] at hr
  case attachTransform =>
    subst hr
    simp
  all_goals
    subst hr
    simp [State.enterTearDown, *]

theorem unborn_move (hs : Moves st l st') {r : Resource} (hr : Unborn st' r) : Unborn st r := by
  cases hs
  case net a net ha hn =>
    cases r <;> simp only [Unborn] at hr ⊢
    case session k =>
      rcases TearDown.step_cases hn with ⟨a, -, ha, -⟩ | ⟨n, -, -, ha, -⟩
      · have := created_step ha
        omega
      · rwa [ha] at hr
    all_goals exact hr
  case listen net hm hn => cases r <;> simp_all [start_step hn]
  case closeEvent => cases r <;> split at hr <;> simp_all
  case attachTransform =>
    cases r
    case transform n => exact Nat.le_of_succ_le hr
    all_goals exact hr
  all_goals
    cases r <;>
      simp_all [State.enterTearDown, State.resetTransform, again, Sessions.State.release, Sessions.State.modify]

/-! ## The ledger of a run -/

/-- How often `TearDown` has come to its end. -/
def closings (st : State) : ℕ :=
  match st.main with
  | .tearing _ => st.calls - 1
  | _ => st.calls

/-- The ledger of a state: all is settled but for the event handle, which every `TearDown` closes. -/
structure Booked (st : State) : Prop where
  settled : ∀ r, r ≠ .frameEvent → Settled st.ledger r (Held st r)
  unborn : ∀ r, Unborn st r → acquired st.ledger r = 0
  made : acquired st.ledger .frameEvent = st.frameEvent.toNat
  closed : released st.ledger .frameEvent = if st.frameEvent then closings st else 0

theorem booked_initial : Booked initial := by
  refine ⟨fun r _ => ?_, fun r _ => rfl, rfl, rfl⟩
  have hheld : Held initial r = false := by cases r <;> rfl
  rw [hheld]
  exact Settled.nil r

theorem Booked.free (h : Booked st) {r : Resource} (hr : Unborn st r) : Held st r = false := by
  have h0 := h.unborn r hr
  by_cases hf : r = .frameEvent
  · subst hf
    rw [h.made] at h0
    simpa [Held] using h0
  · exact (h.settled r hf).not_held h0

theorem step_eq_some (hs : step st l = some st') :
    ∃ st₁, move st l = some st₁ ∧ st' = { st₁ with ledger := st.ledger ++ entries st l } := by
  obtain ⟨st₁, hm, rfl⟩ := Option.map_eq_some_iff.1 hs
  exact ⟨st₁, hm, rfl⟩

theorem inv_step (h : Inv st) (hs : step st l = some st') : Inv st' := by
  obtain ⟨st₁, hm, rfl⟩ := step_eq_some hs
  have h₁ := inv_move h hm
  exact ⟨h₁.net, h₁.stop, h₁.app, h₁.joined, h₁.destroyed, h₁.empty, h₁.calls⟩

theorem event_move (hI : Inv st) (hs : Moves st l st') :
    (l = .closeEvent ∧ st'.frameEvent = st.frameEvent ∧ closings st' = closings st + 1 ∧
      closings st = st.calls - 1) ∨
    (∃ ok, l = .createEvent ok ∧ Unborn st .frameEvent ∧ st'.frameEvent = ok ∧ closings st' = 0) ∨
    (l ≠ .closeEvent ∧ (∀ ok, l ≠ .createEvent ok) ∧ st'.frameEvent = st.frameEvent ∧
      closings st' = closings st) := by
  have hcalls := hI.calls
  cases hs
  case net => exact .inr (.inr ⟨by simp, by simp, rfl, rfl⟩)
  case closeEvent hm =>
    rw [hm] at hcalls
    have hpos : 0 < st.calls := Nat.pos_of_ne_zero hcalls
    refine .inl ⟨rfl, rfl, ?_, by simp [closings, hm]⟩
    simp only [closings, hm]
    split
    · next hmain => split at hmain <;> cases hmain
    · omega
  case createEvent ok hm =>
    rw [hm] at hcalls
    exact .inr (.inl ⟨ok, rfl, .inr hm, rfl, hcalls⟩)
  case tearDown hm =>
    refine .inr (.inr ⟨by simp, by simp, rfl, ?_⟩)
    rcases hm with hm | hm <;> simp [closings, State.enterTearDown, hm]
  all_goals
    refine .inr (.inr ⟨by simp, by simp, rfl, ?_⟩)
    simp_all [closings, State.enterTearDown, State.resetTransform]

theorem entries_event (hl : l ≠ .closeEvent) (hl' : ∀ ok, l ≠ .createEvent ok) :
    concerns l .frameEvent = false := by
  cases l
  case closeEvent => exact absurd rfl hl
  case createEvent ok => exact absurd rfl (hl' ok)
  all_goals rfl

theorem acquired_new (h : Booked st) (hm : Moves st l st') (r : Resource) :
    acquired (entries st l) r = 0 ∨ acquired st.ledger r = 0 ∧ acquired (entries st l) r ≤ 1 := by
  have hle := acquired_le st l r
  by_cases hmake : makes st l = some r
  · rw [if_pos hmake] at hle
    exact .inr ⟨h.unborn r (unborn_of_makes hm hmake).1, hle⟩
  · rw [if_neg hmake] at hle
    exact .inl (Nat.le_zero.1 hle)

theorem event_entries (hI : Inv st) (h : Booked st) (hm : Moves st l st') :
    st.frameEvent.toNat + acquired (entries st l) .frameEvent = st'.frameEvent.toNat ∧
      (if st.frameEvent then closings st else 0) + released (entries st l) .frameEvent =
        if st'.frameEvent then closings st' else 0 := by
  rcases event_move hI hm with ⟨rfl, he, hc, -⟩ | ⟨ok, rfl, hu, he, hc⟩ | ⟨hl, hl', he, hc⟩
  · rw [he, hc]
    cases hf : st.frameEvent <;> simp [hf]
  · have hnull : st.frameEvent = false := h.free hu
    rw [he, hc, hnull]
    cases ok <;> simp
  · obtain ⟨hrel, hacq, -⟩ := elsewhere hm (entries_event hl hl')
    rw [hrel, hacq, he, hc]
    exact ⟨rfl, rfl⟩

theorem booked_step (hI : Inv st) (h : Booked st) (hs : step st l = some st') : Booked st' := by
  obtain ⟨st₁, hmove, rfl⟩ := step_eq_some hs
  have hm := (move_cases hmove).2
  obtain ⟨hacq, hrel⟩ := event_entries hI h hm
  refine ⟨fun r hr => ?_, fun r hr => ?_, ?_, ?_⟩
  · exact (h.settled r hr).append (writes_move hI (fun r => h.free) hm hr) (acquired_new h hm r)
  · have hr₁ : Unborn st₁ r := hr
    have hle := acquired_le st l r
    have hmake : makes st l ≠ some r := fun hmake => (unborn_of_makes hm hmake).2 hr₁
    rw [if_neg hmake] at hle
    rw [acquired_append, h.unborn r (unborn_move hm hr₁), Nat.le_zero.1 hle]
  · rw [acquired_append, h.made]
    exact hacq
  · rw [released_append, h.closed]
    exact hrel

/-! ## Exactly once -/

/-- **Nothing is released a second time**, and at the end of the life all that was acquired has been
released. -/
structure Once (st : State) : Prop where
  atMost : ∀ r, released st.ledger r ≤ 1
  atEnd : st.main = .ended → ∀ r, .acquire r ∈ st.ledger → released st.ledger r = 1

/-- The move does not close an event handle that an earlier `TearDown` closed, and does not end the life
while a callback on a read thread owns its session. -/
def Orderly (st : State) : Label → Prop
  | .closeEvent => st.frameEvent = false ∨ st.calls ≤ 1
  | .finish => ∀ i < st.net.app.created, (st.net.app.sessions i).reader.holds = false
  | _ => True

instance (st : State) (l : Label) : Decidable (Orderly st l) := by
  unfold Orderly
  split <;> infer_instance

/-- At the end of the life the callbacks own what is left of the sessions. -/
theorem refs_of_destroyed (h : Inv st) (hm : st.main = .destroying ∨ st.main = .ended) (i : ℕ) :
    (st.net.app.sessions i).refs = (st.net.app.sessions i).reader.holds.toNat := by
  have hstop := h.stop
  have happ := h.app
  have hret : st.net.listener.stop = .returned := by
    rcases hm with hm | hm <;> rw [hm] at hstop <;> exact hstop
  have hmain : st.net.app.main = .stopped := by
    rcases hm with hm | hm <;> rw [hm] at happ <;> exact happ
  have hgone := h.net.gone (.inl hret)
  have hidle := (h.net.outside (by rcases hgone with hg | hg <;> simp [hg])).1
  have hc := h.net.counted
  rw [hc.counted i, owners, references, (h.destroyed hm).1, hc.old (by simp [hidle]),
    hc.replaced hidle, hc.s (.inl hidle), hc.mainLocal (.inr hmain)]
  simp

/-- At the end of the life no member is set but that of the event handle. -/
theorem held_of_ended (h : Inv st) (hm : st.main = .ended) {r : Resource} (hr : r ≠ .frameEvent)
    (hread : ∀ i, (st.net.app.sessions i).reader.holds = false) : Held st r = false := by
  have hstop := h.stop
  rw [hm] at hstop
  cases r with
  | session i => simp [refs_of_destroyed h (.inr hm), hread i]
  | decodeThread => simp [Held, joinable, h.joined (by rw [hm]; trivial)]
  | decoder => simp [h.empty hm]
  | transform n => simp [State.transform, h.empty hm]
  | listenSock => exact h.net.closed (.inr hstop)
  | mdnsSock => exact (h.destroyed (.inr hm)).2
  | frameEvent => exact absurd rfl hr

theorem once_iff (hI : Inv st) (hB : Booked st) :
    Once st ↔ (st.frameEvent = true → closings st ≤ 1) ∧
      (st.main = .ended → ∀ i, (st.net.app.sessions i).reader.holds = false) := by
  constructor
  · intro h
    refine ⟨fun hf => ?_, fun hm i => ?_⟩
    · have := h.atMost .frameEvent
      rwa [hB.closed, if_pos hf] at this
    · by_contra hread
      have hheld : Held st (.session i) = true := by
        simp [refs_of_destroyed hI (.inr hm), Bool.of_not_eq_false hread]
      have hset := hB.settled (.session i) (by simp)
      have hacq : .acquire (.session i) ∈ st.ledger := by
        rw [mem_acquire_iff, ← hset.balance, hheld]
        simp
      have := (hset.released_eq_one hacq).1 (h.atEnd hm _ hacq)
      rw [hheld] at this
      cases this
  · rintro ⟨hf, hread⟩
    refine ⟨fun r => ?_, fun hm r hacq => ?_⟩
    · by_cases hr : r = .frameEvent
      · rw [hr, hB.closed]
        split
        · exact hf ‹_›
        · exact Nat.zero_le 1
      · exact (hB.settled r hr).released_le_one
    · by_cases hr : r = .frameEvent
      · subst hr
        rw [mem_acquire_iff, hB.made] at hacq
        have hset : st.frameEvent = true := by simpa using hacq
        have hcalls := hI.calls
        have hle := hf hset
        rw [hm] at hcalls
        simp only [closings, hm] at hle
        rw [hB.closed, if_pos hset]
        simp only [closings, hm]
        exact Nat.le_antisymm hle (Nat.pos_of_ne_zero hcalls)
      · exact ((hB.settled r hr).released_eq_one hacq).2 (held_of_ended hI hm hr (hread hm))

theorem ended_move (hne : st.main ≠ .ended) (hs : Moves st l st') :
    st'.main = .ended ↔ l = .finish := by
  cases hs
  case net => exact iff_of_false hne (by simp)
  case closeEvent =>
    dsimp only
    split <;> simp
  all_goals simp_all [State.enterTearDown, State.resetTransform]

theorem finish_move (hs : Moves st .finish st') : st'.net = st.net := by
  cases hs
  rfl

/-- A session that is not made has no callback. -/
theorem orderly_finish_iff (h : Inv st) :
    (∀ i, (st.net.app.sessions i).reader.holds = false) ↔ Orderly st .finish := by
  refine ⟨fun hall i _ => hall i, fun hall i => ?_⟩
  by_cases hi : i < st.net.app.created
  · exact hall i hi
  · rw [(h.net.counted.fresh i (by omega)).2]
    rfl

/-- **A move keeps the law if and only if it is orderly**, and no move brings it back. -/
theorem once_step_iff (hI : Inv st) (hB : Booked st) (hs : step st l = some st') :
    (Once st' → Once st) ∧ (Once st → (Once st' ↔ Orderly st l)) := by
  have hiff' := once_iff (inv_step hI hs) (booked_step hI hB hs)
  obtain ⟨st₁, hmove, rfl⟩ := step_eq_some hs
  obtain ⟨hne, hm⟩ := move_cases hmove
  have hend := ended_move hne hm
  have hiff : Once st ↔ (st.frameEvent = true → closings st ≤ 1) := by
    rw [once_iff hI hB]
    exact and_iff_left fun hm => absurd hm hne
  have hclosings : closings { st₁ with ledger := st.ledger ++ entries st l } = closings st₁ := rfl
  rw [hclosings] at hiff'
  dsimp only at hiff'
  rw [hiff, hiff', hend]
  rcases event_move hI hm with ⟨rfl, he, hc, hcalls⟩ | ⟨ok, rfl, hu, he, hc⟩ | ⟨hl, hl', he, hc⟩
  · simp only [he, hc, Orderly, reduceCtorEq, false_implies, and_true]
    cases st.frameEvent with
    | false => simp
    | true =>
      simp only [true_implies, Bool.true_eq_false, false_or]
      omega
  · have hnull : st.frameEvent = false := hB.free hu
    simp [hc, hnull, Orderly]
  · rw [he, hc]
    by_cases hf : l = .finish
    · subst hf
      have hall := orderly_finish_iff hI
      rw [← finish_move hm] at hall
      simp only [true_implies, ← hall]
      exact ⟨fun h => h.1, fun h => and_iff_right h⟩
    · have hok : Orderly st l := by
        cases l
        case closeEvent => exact absurd rfl hl
        case finish => exact absurd rfl hf
        all_goals trivial
      simp [hf, hok]

/-- **What the life of the app releases.**  In every run, nothing was released twice and what was
acquired has been released when the life ends, if and only if every move of the run was orderly: no
`TearDown` after the first found an event handle, and `~App` left no session to a callback. -/
theorem once_iff_orderly {ls : List Label} (h : exec step initial ls = some st) :
    Once st ↔ Meets step Orderly initial ls := by
  refine holds_iff_meets (I := fun st => Inv st ∧ Booked st) (P := Once) ?_ ls
    ⟨inv_initial, booked_initial⟩ ?_ h
  · rintro s l s' ⟨hI, hB⟩ hs
    obtain ⟨hback, hiff⟩ := once_step_iff hI hB hs
    exact ⟨⟨inv_step hI hs, booked_step hI hB hs⟩, hback, hiff⟩
  · exact ⟨fun r => Nat.zero_le 1, fun hm => by cases hm⟩

/-- `Setup` up to the start of the listener. -/
def setupRun : List Label := [.makeWindow, .createEvent true, .makeDecoder, .startDecode]

/-- `TearDown` of an app without a session, whose listener has no thread. -/
def tearRun (decoding : Bool) : List Label :=
  ([.net (.app .tearTake), .stopDecode] : List Label) ++
    (if decoding then ([.exitDecode] : List Label) else []) ++
    ([.joinDecode, .shutdownDecoder, .net (.listener .stop), .stopMdns, .closeEvent] : List Label)

def netMoves (ls : List TearDown.Label) : List Label := ls.map .net

/-- A life with a connection that is still up when the window is closed. -/
def quietLife : List Label :=
  setupRun ++
    ([.listen, .advertise ⟨[], [], 3, 9000⟩ ⟨[], [], none, false, false⟩] : List Label) ++
    netMoves (TearDown.acceptCall ++ (Sessions.acceptRun 0 false).map .app ++
      ([.listener .handled, .listener .test] : List TearDown.Label)) ++
    ([.attachTransform, .quit, .tearDown] : List Label) ++
    netMoves [.app .tearTake, .app .tearClose, .app .mainDrop, .app (.readEnd 0),
      .app (.closedLock 0), .app (.closedResolve 0), .app (.closedUnlock 0), .app (.joined .main)] ++
    ([.stopDecode, .exitDecode, .joinDecode, .shutdownDecoder] : List Label) ++
    netMoves [.listener .stop, .listener .close, .listener (.accept false), .listener .check,
      .listener .join] ++
    ([.stopMdns, .closeEvent, .destroy, .finish] : List Label)

/-- A life in which another receiver has the port. -/
def portTakenLife : List Label :=
  setupRun ++ [.listenFails true] ++ tearRun true ++ [.tearDown] ++ tearRun false

theorem exec_quietLife : (exec step initial quietLife).isSome = true := by decide

theorem once_iff_orderly_quietLife :
    ∃ st, exec step initial quietLife = some st ∧ st.main = .ended ∧
      .acquire (.session 0) ∈ st.ledger ∧ Once st := by
  refine ⟨_, (Option.some_get exec_quietLife).symm, by decide, by decide, ?_⟩
  exact (once_iff_orderly (Option.some_get exec_quietLife).symm).2 (by decide)

theorem exec_portTakenLife : (exec step initial portTakenLife).isSome = true := by decide

theorem closes_twice_portTakenLife :
    ∃ st, exec step initial portTakenLife = some st ∧ released st.ledger .frameEvent = 2 ∧
      ¬Once st := by
  have hclosed : released ((exec step initial portTakenLife).get exec_portTakenLife).ledger
      .frameEvent = 2 := by decide
  refine ⟨_, (Option.some_get exec_portTakenLife).symm, hclosed, fun h => ?_⟩
  have := h.atMost .frameEvent
  rw [hclosed] at this
  omega

end OpenDisplay.App.Lifetime
