import OpenDisplay.App.RoundTrip
import OpenDisplay.Net.SessionCorrupt
import OpenDisplay.Protocol.FramingRoundTrip

/-!
# The stream of the simulator

The frames of a session go through TCP in chunks, through the `FrameDecoder` and the dispatch of
`Session::ReadLoop`, and come out as the samples that `onVideo` is called with.  `stream_received` says
that these are the access units that were sent, one sample for each, in order, for every split of the
stream that leaves the frames apart in the decoder's buffer (`SplitClean`).  `Sampled` says what is in a
sample; `arrivalMs`, which the receiver's clock gives, is not part of it.
-/

namespace OpenDisplay.App.SimStream

open OpenDisplay.App.RoundTrip (items echoes Made adds_step sent_of_mem_items)
open OpenDisplay.Lib.Transition
open OpenDisplay.Net.Session OpenDisplay.Net.SessionCorrupt
open OpenDisplay.Net.SessionLiveness (allReceived reads started)
open OpenDisplay.Protocol.AnnexB OpenDisplay.Protocol.AnnexBRoundTrip
open OpenDisplay.Protocol.Control (ControlMessage parseControlMessage)
open OpenDisplay.Protocol.Framing OpenDisplay.Protocol.FramingCorrupt OpenDisplay.Protocol.FramingRoundTrip
open OpenDisplay.Tools OpenDisplay.Tools.AccessUnits OpenDisplay.Tools.SimFrames
open OpenDisplay.Tools.SimSession (SimSender Item Turn)

/-! ## Units and samples -/

/-- The access units among the frames, each with its times. -/
def units (items : List Item) : List (ℕ × (ℕ × ℕ)) :=
  items.filterMap fun
    | .video i times => some (i, times)
    | .welcome | .streamConfig | .pong _ _ | .ping => none

/-- The sample of a call of `onVideo`. -/
def videoOf : Option (Callback ControlMessage) → Option VideoSample
  | some (.onVideo v) => some v
  | some (.onControl _) => none
  | none => none

/-- The samples that `onVideo` was called with. -/
def videos (events : List (ReadEvent ControlMessage)) : List VideoSample :=
  events.filterMap fun
    | .frame _ callback => videoOf callback
    | .ping | .feed _ | .onClosed _ => none

/-- The sample without the clock of the receiver. -/
def timeless (v : VideoSample) : VideoSample := { v with arrivalMs := 0 }

/-- What is sent for a unit, read back. -/
def sample (s : SimSender) (u : ℕ × (ℕ × ℕ)) : VideoSample :=
  sampleOf (parseAnnexB (payload s.data (s.aus.getD u.1 []) u.2)) 0

/-- What is in the sample of a unit. -/
structure Sampled (s : SimSender) (u : ℕ × (ℕ × ℕ)) (v : VideoSample) : Prop where
  captureMs : v.captureMs = u.2.1
  sendMs : v.sendMs = u.2.2
  sps : v.sps = ((nalus s.data (s.aus.getD u.1 [])).filter (naluType · = 7)).getLastD []
  pps : v.pps = ((nalus s.data (s.aus.getD u.1 [])).filter (naluType · = 8)).getLastD []
  annexb : v.annexb = (if v.sps = [] then [] else startCode ++ v.sps) ++
    (if v.pps = [] then [] else startCode ++ v.pps) ++
      Lib.Separator.weave startCode ((nalus s.data (s.aus.getD u.1 [])).filter (IsVcl ·))
  keyframe : naluIsIdr s.data (s.aus.getD u.1 []) = true → v.sps ≠ [] → v.isKeyframe = true

/-! ## The dispatch -/

/-- The sample that is due for a frame. -/
def videoDue (frame : List UInt8) : Option VideoSample := videoOf (due parseControlMessage frame)

variable {st : ReadState} {its : List Iteration}

theorem videoOf_timeless (callback : Option (Callback ControlMessage)) :
    videoOf (callback.map .timeless) = (videoOf callback).map timeless := by
  cases callback with
  | none => rfl
  | some callback => cases callback <;> rfl

/-- The samples are those of the frames that the loop went through. -/
theorem videos_frames (events : List (ReadEvent ControlMessage)) :
    (videos events).map timeless = (frames events).filterMap fun f => videoOf f.2 := by
  unfold videos frames
  rw [List.map_filterMap, List.filterMap_filterMap]
  refine List.filterMap_congr fun event _ => ?_
  cases event with
  | frame bytes callback => exact (videoOf_timeless callback).symm
  | ping | feed | onClosed => rfl

/-- **The samples of a run** are those that are due for the frames that it goes through. -/
theorem videos_readLoop (hrun : Delivers st.lastDataMs its) :
    (videos (readLoop parseControlMessage st its).events).map timeless =
      (delivered st.decoder (allReceived its)).1.filterMap videoDue := by
  rw [videos_frames, (frames_readLoop parseControlMessage its st hrun).1, List.filterMap_map]
  rfl

/-- A reader whose `Feed`s are valid delivers what they show. -/
theorem delivered_of_valid : ∀ (cs : List (List UInt8)) (d : FrameDecoder),
    (∀ r ∈ d.feedAll cs, r.valid = true) →
      delivered d cs = ((d.feedAll cs).flatMap FeedResult.contents, false)
  | [], _, _ => rfl
  | c :: cs, d, h => by
    have hc : (d.feed c).valid = true := h _ List.mem_cons_self
    have ih := delivered_of_valid cs (d.feed c).decoder fun r hr => h r (List.mem_cons_of_mem _ hr)
    rw [delivered, if_pos hc, ih]
    rfl

/-! ## The samples of the frames -/

variable {s : SimSender} {args : Args}

theorem videoDue_dumps (ms : List Lib.FlatJson.Member) : videoDue (dumps ms) = none := by
  unfold videoDue due
  split_ifs with hjson hempty
  · cases parseControlMessage (dumps ms) <;> rfl
  · rfl
  · rw [parseAnnexB_of_ne_zero (ne_zero_dumps ms)] at hempty
    exact absurd rfl hempty

/-- A unit that is sent is one of the file, with times that fit. -/
def Sound (s : SimSender) (u : ℕ × (ℕ × ℕ)) : Prop :=
  u.1 < s.aus.length ∧ u.2.1 < 2 ^ 63 ∧ u.2.2 < 2 ^ 63

theorem getD_mem {i : ℕ} (h : i < s.aus.length) : s.aus.getD i [] ∈ buildAccessUnits s.data := by
  rw [List.getD_eq_getElem _ _ h]
  exact List.getElem_mem h

theorem videoDue_unit {u : ℕ × (ℕ × ℕ)} (h : Sound s u) :
    videoDue (payload s.data (s.aus.getD u.1 []) u.2) = some (sample s u) := by
  have hau := getD_mem h.1
  have hreceived := received_unit hau h.2
  have hfull : (parseAnnexB (payload s.data (s.aus.getD u.1 []) u.2)).isEmpty = false := by
    unfold VideoFrame.isEmpty
    rw [hreceived.vcl, List.isEmpty_eq_false_iff.2 (vcl_unit hau), Bool.false_and]
  unfold videoDue due
  rw [hreceived.video, if_neg Bool.false_ne_true, hfull, if_neg Bool.false_ne_true]
  rfl

theorem videoDue_frame {item : Item} (h : ∀ u ∈ units [item], Sound s u) :
    (videoDue (frame s args item)).toList = (units [item]).map (sample s) := by
  cases item with
  | welcome => exact congrArg Option.toList (videoDue_dumps _)
  | streamConfig => exact congrArg Option.toList (videoDue_dumps _)
  | pong t mt => exact congrArg Option.toList (videoDue_dumps _)
  | ping => exact congrArg Option.toList (videoDue_dumps _)
  | video i times =>
    have hunits : units [.video i times] = [(i, times)] := rfl
    have hsound : Sound s (i, times) := h (i, times) (by rw [hunits]; exact List.mem_cons_self)
    have hvideo := videoDue_unit hsound
    rw [hunits, List.map_singleton, frame, hvideo]
    rfl

theorem units_cons (item : Item) (items : List Item) : units (item :: items) = units [item] ++ units items := by
  unfold units
  rw [← List.filterMap_append]
  rfl

theorem videoDue_frames : ∀ {items : List Item}, (∀ u ∈ units items, Sound s u) →
    (items.map (frame s args)).filterMap videoDue = (units items).map (sample s)
  | [], _ => rfl
  | item :: items, h => by
    rw [units_cons] at h ⊢
    obtain ⟨hitem, hitems⟩ := List.forall_mem_append.1 h
    have hcons : ∀ (f : List UInt8) (fs : List (List UInt8)),
        (f :: fs).filterMap videoDue = (videoDue f).toList ++ fs.filterMap videoDue := by
      intro f fs
      rw [List.filterMap_cons]
      cases videoDue f <;> rfl
    rw [List.map_cons, hcons, videoDue_frame hitem, videoDue_frames hitems, List.map_append]

theorem sampled {u : ℕ × (ℕ × ℕ)} (h : Sound s u) : Sampled s u (sample s u) := by
  have hau := getD_mem h.1
  obtain ⟨-, hcapture, hsend, hsps, hpps, hvcl⟩ := received_unit hau h.2
  unfold sample
  generalize parseAnnexB (payload s.data (s.aus.getD u.1 []) u.2) = vf at hcapture hsend hsps hpps hvcl ⊢
  refine ⟨hcapture, hsend, hsps, hpps, ?_, ?_⟩
  · show annexbOf vf = _
    unfold annexbOf
    rw [hvcl]
    rfl
  · intro hidr hne
    obtain ⟨n, hn, htype⟩ := exists_idr hau hidr
    have hslice : IsVcl n := by
      unfold IsVcl
      omega
    have hmem : n ∈ vf.vclNalus := by
      rw [hvcl]
      exact List.mem_filter.2 ⟨hn, by simpa using hslice⟩
    have hshort : ¬(vf.sps.isEmpty || vf.vclNalus.isEmpty) = true := by
      rw [Bool.or_eq_true, not_or, List.isEmpty_iff, List.isEmpty_iff]
      exact ⟨hne, List.ne_nil_of_mem hmem⟩
    show vf.isKeyframe = true
    unfold VideoFrame.isKeyframe
    rw [if_neg hshort, List.any_eq_true]
    exact ⟨n, hmem, by simp [htype]⟩

/-! ## What the simulator has sent -/

variable {sim sim' : SimSession.State} {turn : Turn}

/-- The clock of the simulator fits into 63 bits. -/
def Timed (_ : SimSession.State) (turn : Turn) : Prop := turn.times.1 < 2 ^ 63 ∧ turn.times.2 < 2 ^ 63

theorem mem_units {u : ℕ × (ℕ × ℕ)} {items : List Item} (h : u ∈ units items) : .video u.1 u.2 ∈ items := by
  obtain ⟨item, hitem, hu⟩ := List.mem_filterMap.1 h
  cases item with
  | welcome | streamConfig | pong | ping => cases hu
  | video i times =>
    obtain rfl := Option.some.inj hu
    exact hitem

structure Inv (s : SimSender) (sim : SimSession.State) : Prop where
  session : SimSession.Inv s sim
  timed : ∀ i times, .video i times ∈ items sim.history → times.1 < 2 ^ 63 ∧ times.2 < 2 ^ 63

theorem inv_step (h : Inv s sim) (hok : Timed sim turn) (hs : SimSession.step s sim turn = some sim') :
    Inv s sim' := by
  obtain ⟨new, hitems, -, hmade⟩ := adds_step hs
  refine ⟨SimSession.inv_step h.session hs, fun i times hin => ?_⟩
  rw [hitems] at hin
  rcases List.mem_append.1 hin with hold | hnew
  · exact h.timed i times hold
  · obtain rfl : times = turn.times := hmade _ hnew
    exact hok

theorem Inv.sound (h : Inv s sim) : ∀ u ∈ units (items sim.history), Sound s u := by
  intro u hu
  have hin := mem_units hu
  obtain ⟨later, past, hhistory⟩ := List.append_of_mem (sent_of_mem_items hin)
  obtain ⟨-, hlt⟩ := h.session.order.at later hhistory u.1 u.2 rfl
  exact ⟨hlt, h.timed u.1 u.2 hin⟩

/-! ## The law -/

/-- **The stream is received.** When all that the simulator has sent has arrived, in chunks that leave
the frames apart, the loop goes on, and `onVideo` was called once for each access unit that was sent, in
this order, with a sample of its NALUs and its times. -/
theorem stream_received (hsim : Reaches (SimSession.step s) Timed SimSession.start sim)
    (hst : st.decoder = .fresh) (hrun : Delivers st.lastDataMs its)
    (hsizes : ∀ item ∈ items sim.history, (frame s args item).length ≤ kMaxFrameSize)
    (hbytes : (allReceived its).flatten = encodeAll ((items sim.history).map (frame s args)))
    (hclean : SplitClean ((items sim.history).map (frame s args)) 0 ((allReceived its).map List.length)) :
    (readLoop parseControlMessage st its).ended = none ∧
      (videos (readLoop parseControlMessage st its).events).map timeless =
        (units (items sim.history)).map (sample s) ∧
      ∀ u ∈ units (items sim.history), Sampled s u (sample s u) := by
  have hi : Inv s sim := hsim.invariant ⟨SimSession.inv_start s, nofun⟩ fun _ _ _ hi hok hs => inv_step hi hok hs
  have hframes : ∀ p ∈ (items sim.history).map (frame s args), p.length ≤ kMaxFrameSize :=
    List.forall_mem_map.2 hsizes
  obtain ⟨hvalid, hcontents⟩ := feedAll_contents_iff (allReceived its) _ FrameDecoder.fresh rfl hframes
    (ne_nil_of_delivers its hrun) (completeIn_zero _) hbytes
  have hended := (frames_readLoop parseControlMessage its st hrun).2
  rw [hst, delivered_of_valid _ _ hvalid] at hended
  refine ⟨by rw [hended]; rfl, ?_, fun u hu => sampled (hi.sound u hu)⟩
  rw [videos_readLoop hrun, hst, delivered_of_valid _ _ hvalid, hcontents.2 hclean, videoDue_frames hi.sound]

/-- What the simulator sends in `clipTurns`. -/
def clipItems : List Item :=
  [.welcome, .streamConfig, .video 0 clipTimes, .video 0 clipTimes, .video 1 clipTimes, .video 0 clipTimes]

def clipBytes : List UInt8 := encodeAll (clipItems.map (frame SimSession.clipSender RoundTrip.clipArgs))

/-- Two reads, the first of which ends inside of a frame. -/
def clipReads : List Iteration := [reads (clipBytes.take 10) 10, reads (clipBytes.drop 10) 20]

theorem stream_received_clip :
    ∃ sim, exec (SimSession.step SimSession.clipSender) SimSession.start SimSession.clipTurns = some sim ∧
      items sim.history = clipItems ∧ (readLoop parseControlMessage started clipReads).ended = none ∧
      (videos (readLoop parseControlMessage started clipReads).events).map timeless =
        [(0, clipTimes), (0, clipTimes), (1, clipTimes), (0, clipTimes)].map (sample SimSession.clipSender) ∧
      Sampled SimSession.clipSender (1, clipTimes) (sample SimSession.clipSender (1, clipTimes)) := by
  obtain ⟨sim, hrun, hitems⟩ : ∃ sim,
      exec (SimSession.step SimSession.clipSender) SimSession.start SimSession.clipTurns = some sim ∧
        items sim.history = clipItems :=
    ⟨_, (Option.some_get SimSession.isSome_clipTurns).symm, by decide +kernel⟩
  have hmeets : Meets (SimSession.step SimSession.clipSender) Timed SimSession.start SimSession.clipTurns :=
    meets_of_forall (by simp [SimSession.clipTurns, SimSession.clipTurn, Timed, clipTimes]) _
  have hdelivers : Delivers started.lastDataMs clipReads :=
    ⟨rfl, by decide, by decide +kernel, rfl, by decide, by decide +kernel, trivial⟩
  have hsizes : ∀ item ∈ items sim.history,
      (frame SimSession.clipSender RoundTrip.clipArgs item).length ≤ kMaxFrameSize := by
    rw [hitems]
    decide +kernel
  have hbytes : (allReceived clipReads).flatten =
      encodeAll ((items sim.history).map (frame SimSession.clipSender RoundTrip.clipArgs)) := by
    rw [hitems]
    decide +kernel
  have hclean : SplitClean ((items sim.history).map (frame SimSession.clipSender RoundTrip.clipArgs)) 0
      ((allReceived clipReads).map List.length) := by
    rw [hitems]
    decide +kernel
  obtain ⟨hended, hvideos, hsampled⟩ :=
    stream_received (reaches_of_exec SimSession.clipTurns hmeets hrun) rfl hdelivers hsizes hbytes hclean
  rw [hitems] at hvideos hsampled
  exact ⟨sim, hrun, hitems, hended, hvideos, hsampled (1, clipTimes) (by decide)⟩

end OpenDisplay.App.SimStream
