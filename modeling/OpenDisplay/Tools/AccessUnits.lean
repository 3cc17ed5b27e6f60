import OpenDisplay.Protocol.AnnexBRoundTrip

/-! # The access units of the simulator

`sim_sender.py` finds the NALUs of an Annex-B file by the scan of `ParseAnnexB`, collects them into
access units that end with a coded slice, and sends of each unit the bytes from its first start code to
the end of its slice, behind the times.

A unit is a stretch of the runs between the start codes (`IsStretch`), so its bytes are the weave of that
stretch, and the parser finds its NALUs again. Over one pass through the file the receiver gets the VCL
NALUs of the whole file in order, up to those behind the last slice (`file_played`). -/

namespace OpenDisplay.Tools.AccessUnits

open OpenDisplay.Lib.Buffer OpenDisplay.Lib.Separator
open OpenDisplay.Protocol.AnnexB OpenDisplay.Protocol.AnnexBRoundTrip

/-! ## The sender -/

/-- The second loop of `split_nalus`: the offsets of the NALUs that are not empty. -/
def naluSpans (data : List UInt8) : List ℕ → List (ℕ × ℕ)
  | [] => []
  | s :: rest =>
    if s < naluEnd data rest then (s, naluEnd data rest) :: naluSpans data rest else naluSpans data rest

/-- `split_nalus`; its first loop is the scan of `ParseAnnexB`. -/
def splitNalus (data : List UInt8) : List (ℕ × ℕ) := naluSpans data (startCodes data 0)

/-- `nalu_type`. -/
def naluTypeAt (data : List UInt8) (start : ℕ) : ℕ := (data.getD start 0 &&& 0x1F).toNat

/-- `VCL_TYPES`. -/
def vclTypes : List ℕ := [1, 4, 5, 19, 20]

/-- The loop of `build_access_units`. -/
def collectUnits (data : List UInt8) : List (ℕ × ℕ) → List (ℕ × ℕ) → List (List (ℕ × ℕ))
  | _, [] => []
  | pending, nalu :: rest =>
    if naluTypeAt data nalu.1 ∈ vclTypes ∧ naluTypeAt data nalu.1 ∉ [6] then
      (pending ++ [nalu]) :: collectUnits data [] rest
    else collectUnits data (pending ++ [nalu]) rest

/-- `build_access_units`. -/
def buildAccessUnits (data : List UInt8) : List (List (ℕ × ℕ)) := collectUnits data [] (splitNalus data)

/-- `nalu_is_idr`. -/
def naluIsIdr (data : List UInt8) (au : List (ℕ × ℕ)) : Bool :=
  au.any fun nalu => decide (naluTypeAt data nalu.1 = 5)

/-- `data[a:b]`. -/
def cut (data : List UInt8) (nalu : ℕ × ℕ) : List UInt8 := slice data nalu.1 (nalu.2 - nalu.1)

/-- The payload of `send_video` with the times that it reads. -/
def payload (data : List UInt8) (au : List (ℕ × ℕ)) (times : ℕ × ℕ) : List UInt8 :=
  telemetryText (some times) ++ cut data ((au.headD (0, 0)).1 - 4, (au.getLastD (0, 0)).2)

/-- The NALUs of an access unit. -/
def nalus (data : List UInt8) (au : List (ℕ × ℕ)) : List (List UInt8) := au.map (cut data)

/-- A NALU that ends an access unit. -/
def IsSlice (nalu : List UInt8) : Prop := naluType nalu ∈ [1, 4, 5, 19, 20]

instance (nalu : List UInt8) : Decidable (IsSlice nalu) := by unfold IsSlice; infer_instance

/-! ## Stretches of the runs -/

/-- The offsets of the non-empty runs of a weave that begins at `off`. -/
def spansAt (off : ℕ) : List (List UInt8) → List (ℕ × ℕ)
  | [] => []
  | p :: ps =>
    (if p = [] then [] else [(off + 4, off + 4 + p.length)]) ++ spansAt (off + 4 + p.length) ps

theorem length_weave_cons (p : List UInt8) (ps : List (List UInt8)) :
    (weave startCode (p :: ps)).length = 4 + p.length + (weave startCode ps).length := by
  rw [weave_cons, List.length_append, List.length_append]
  rfl

theorem spansAt_append : ∀ (a b : List (List UInt8)) (off : ℕ),
    spansAt off (a ++ b) = spansAt off a ++ spansAt (off + (weave startCode a).length) b
  | [], _, _ => rfl
  | p :: a, b, off => by
    have hoff : off + (weave startCode (p :: a)).length =
        off + 4 + p.length + (weave startCode a).length := by
      rw [length_weave_cons]
      omega
    rw [List.cons_append, spansAt, spansAt_append a b, spansAt, List.append_assoc, hoff]

variable {data front : List UInt8} {ps : List (List UInt8)}

/-- The scan and the loop behind it find the non-empty runs. -/
theorem naluSpans_eq : ∀ (ps : List (List UInt8)) (front : List UInt8),
    data = front ++ weave startCode ps →
      naluSpans data (offsetsAt front.length ps) = spansAt front.length ps
  | [], _, _ => rfl
  | p :: ps, front, h => by
    have h' : data = (front ++ startCode ++ p) ++ weave startCode ps := by
      rw [h, weave_cons]
      simp
    have hlen : (front ++ startCode ++ p).length = front.length + kStartCodeLen + p.length := by
      rw [List.length_append, List.length_append, length_startCode]
    have hend := naluEnd_offsetsAt h'
    have ih := naluSpans_eq ps (front ++ startCode ++ p) h'
    have hcode : kStartCodeLen = 4 := rfl
    rw [hlen] at hend ih
    rw [offsetsAt, naluSpans, hend, ih, spansAt, hcode]
    by_cases hp : p = []
    · rw [if_pos hp, if_neg (by simp [hp]), List.nil_append]
    · have hpos := List.length_pos_of_ne_nil hp
      rw [if_neg hp, if_pos (by omega), List.singleton_append]

theorem splitNalus_eq (hfront : Free startCode front) (hps : ∀ p ∈ ps, Free startCode p)
    (h : data = front ++ weave startCode ps) : splitNalus data = spansAt front.length ps := by
  have hdrop : data.drop 0 = front ++ weave startCode ps := h
  have hscan := startCodes_eq ps front 0 hfront hps hdrop
  rw [Nat.zero_add] at hscan
  rw [splitNalus, hscan, naluSpans_eq ps front h]

/-- What stands at the offsets is the runs. -/
theorem map_cut_spansAt : ∀ (ps : List (List UInt8)) (front more : List UInt8),
    data = front ++ weave startCode ps ++ more →
      (spansAt front.length ps).map (cut data) = nonEmpty ps
  | [], _, _, _ => rfl
  | p :: ps, front, more, h => by
    have h' : data = (front ++ startCode ++ p) ++ weave startCode ps ++ more := by
      rw [h, weave_cons]
      simp
    have hlen : (front ++ startCode ++ p).length = front.length + 4 + p.length := by
      rw [List.length_append, List.length_append, length_startCode]
      rfl
    have ih := map_cut_spansAt ps (front ++ startCode ++ p) more h'
    rw [hlen] at ih
    rw [spansAt, List.map_append, ih, nonEmpty, nonEmpty]
    by_cases hp : p = []
    · rw [if_pos hp, List.filter_cons_of_neg (by simpa using hp)]
      rfl
    · have hcut : cut data (front.length + 4, front.length + 4 + p.length) = p := by
        have hrun : data = (front ++ startCode) ++ (p ++ (weave startCode ps ++ more)) := by
          rw [h']
          simp
        have hoff : (front ++ startCode).length = front.length + 4 := by
          rw [List.length_append, length_startCode]
          rfl
        unfold cut slice
        dsimp only
        rw [Nat.add_sub_cancel_left, hrun, ← hoff, List.drop_left, List.take_left]
      rw [if_neg hp, List.filter_cons_of_pos (by simpa using hp), List.map_singleton, hcut,
        List.singleton_append]

theorem spansAt_split : ∀ (ps : List (List UInt8)) (off : ℕ) (a b : List (ℕ × ℕ)) (x : ℕ × ℕ),
    spansAt off ps = a ++ x :: b → ∃ as p bs, ps = as ++ p :: bs ∧ p ≠ [] ∧ a = spansAt off as ∧
      x = (off + (weave startCode as).length + 4, off + (weave startCode as).length + 4 + p.length) ∧
      b = spansAt (off + (weave startCode as).length + 4 + p.length) bs
  | [], off, a, b, x, h => by
    have hlen := congrArg List.length h
    simp [spansAt] at hlen
  | p :: ps, off, a, b, x, h => by
    have hlater : ∀ a', spansAt (off + 4 + p.length) ps = a' ++ x :: b →
        ∃ as q bs, p :: ps = p :: as ++ q :: bs ∧ q ≠ [] ∧ a' = spansAt (off + 4 + p.length) as ∧
          x = (off + (weave startCode (p :: as)).length + 4,
            off + (weave startCode (p :: as)).length + 4 + q.length) ∧
          b = spansAt (off + (weave startCode (p :: as)).length + 4 + q.length) bs := by
      intro a' h'
      obtain ⟨as, q, bs, rfl, hq, ha, hx, hb⟩ := spansAt_split ps _ a' b x h'
      have hoff : off + (weave startCode (p :: as)).length =
          off + 4 + p.length + (weave startCode as).length := by
        rw [length_weave_cons]
        omega
      refine ⟨as, q, bs, rfl, hq, ha, ?_, ?_⟩
      · rw [hoff]
        exact hx
      · rw [hoff]
        exact hb
    rw [spansAt] at h
    by_cases hp : p = []
    · rw [if_pos hp, List.nil_append] at h
      obtain ⟨as, q, bs, hps, hq, ha, hx, hb⟩ := hlater a h
      refine ⟨p :: as, q, bs, hps, hq, ?_, hx, hb⟩
      rw [ha, spansAt, if_pos hp, List.nil_append]
    · rw [if_neg hp, List.singleton_append] at h
      cases a with
      | nil =>
        obtain ⟨rfl, rfl⟩ := List.cons.inj h
        exact ⟨[], p, ps, rfl, hp, rfl, rfl, rfl⟩
      | cons y a =>
        obtain ⟨rfl, htail⟩ := List.cons.inj h
        obtain ⟨as, q, bs, hps, hq, ha, hx, hb⟩ := hlater a htail
        refine ⟨p :: as, q, bs, hps, hq, ?_, hx, hb⟩
        rw [ha, spansAt, if_neg hp, List.singleton_append]

theorem naluType_cut {nalu : ℕ × ℕ} (h : nalu.1 < nalu.2) (hdata : nalu.1 < data.length) :
    naluType (cut data nalu) = naluTypeAt data nalu.1 := by
  obtain ⟨n, hn⟩ : ∃ n, nalu.2 - nalu.1 = n + 1 := ⟨nalu.2 - nalu.1 - 1, by omega⟩
  have hcut : cut data nalu = data[nalu.1] :: (data.drop (nalu.1 + 1)).take n := by
    rw [cut, slice, hn, List.drop_eq_getElem_cons hdata, List.take_succ_cons]
  rw [hcut, naluType, naluTypeAt, List.getD_eq_getElem _ _ hdata]

/-! ## The units -/

/-- The sender takes the NALU for a coded slice. -/
def Ends (data : List UInt8) (nalu : ℕ × ℕ) : Prop := naluTypeAt data nalu.1 ∈ vclTypes

/-- **The loop over the NALUs** loses none of them: they are in the units, but for those behind the last
slice. -/
theorem collectUnits_spec (data : List UInt8) : ∀ (rest pending : List (ℕ × ℕ)),
    (∀ x ∈ pending, ¬Ends data x) →
      (∀ au ∈ collectUnits data pending rest, ∃ init last, au = init ++ [last] ∧ Ends data last ∧
        ∀ x ∈ init, ¬Ends data x) ∧
      ∃ tail, pending ++ rest = (collectUnits data pending rest).flatten ++ tail ∧
        ∀ x ∈ tail, ¬Ends data x
  | [], pending, h => by
    refine ⟨by simp [collectUnits], pending, ?_, h⟩
    rw [collectUnits, List.flatten_nil, List.nil_append, List.append_nil]
  | x :: rest, pending, h => by
    by_cases hx : Ends data x
    · have hvcl : naluTypeAt data x.1 ∈ vclTypes ∧ naluTypeAt data x.1 ∉ [6] := by
        refine ⟨hx, fun h6 => ?_⟩
        have hsix : (6 : ℕ) ∈ vclTypes := List.mem_singleton.1 h6 ▸ hx
        exact absurd hsix (by decide)
      obtain ⟨hunits, tail, hrest, htail⟩ := collectUnits_spec data rest [] (by simp)
      rw [collectUnits, if_pos hvcl]
      refine ⟨?_, tail, ?_, htail⟩
      · intro au hau
        rcases List.mem_cons.1 hau with rfl | hau
        · exact ⟨pending, x, rfl, hx, h⟩
        · exact hunits au hau
      · rw [List.flatten_cons, List.append_assoc, ← hrest]
        simp
    · have hvcl : ¬(naluTypeAt data x.1 ∈ vclTypes ∧ naluTypeAt data x.1 ∉ [6]) := fun hin => hx hin.1
      have hpending : ∀ y ∈ pending ++ [x], ¬Ends data y := by
        intro y hy
        rcases List.mem_append.1 hy with hy | hy
        · exact h y hy
        · rw [List.mem_singleton.1 hy]
          exact hx
      obtain ⟨hunits, tail, hrest, htail⟩ := collectUnits_spec data rest (pending ++ [x]) hpending
      rw [collectUnits, if_neg hvcl]
      refine ⟨hunits, tail, ?_, htail⟩
      rw [← hrest]
      simp

/-- The runs of a unit, from its first offset to its last one. -/
theorem cut_unit {au a b : List (ℕ × ℕ)} (hne : au ≠ []) (h : data = front ++ weave startCode ps)
    (hspans : spansAt front.length ps = a ++ au ++ b) : ∃ as qs bs, ps = as ++ qs ++ bs ∧ qs ≠ [] ∧
      nonEmpty qs = nalus data au ∧
      cut data ((au.headD (0, 0)).1 - 4, (au.getLastD (0, 0)).2) = weave startCode qs := by
  -- the bytes of a stretch between two offsets
  have hstretch : ∀ as qs bs, ps = as ++ qs ++ bs →
      cut data ((front ++ weave startCode as).length,
        (front ++ weave startCode as).length + (weave startCode qs).length) = weave startCode qs := by
    rintro as qs bs rfl
    have hdata : data = (front ++ weave startCode as) ++ (weave startCode qs ++ weave startCode bs) := by
      rw [h, weave_append, weave_append]
      simp
    unfold cut slice
    dsimp only
    rw [Nat.add_sub_cancel_left, hdata, List.drop_left, List.take_left]
  have hnalus : ∀ as qs bs, ps = as ++ qs ++ bs →
      nalus data (spansAt (front ++ weave startCode as).length qs) = nonEmpty qs := by
    rintro as qs bs rfl
    refine map_cut_spansAt qs (front ++ weave startCode as) (weave startCode bs) ?_
    rw [h, weave_append, weave_append]
    simp
  obtain ⟨x, au, rfl⟩ := List.exists_cons_of_ne_nil hne
  rw [List.append_assoc, List.cons_append] at hspans
  obtain ⟨as, p, rest, rfl, hp, ha, hx, hrest⟩ := spansAt_split ps front.length a (au ++ b) x hspans
  have hfront : (front ++ weave startCode as).length = front.length + (weave startCode as).length :=
    List.length_append
  rw [← hfront] at hx hrest
  have hfirst : x.1 - 4 = (front ++ weave startCode as).length := by
    rw [hx]
    exact Nat.add_sub_cancel ..
  rcases List.eq_nil_or_concat au with rfl | ⟨mid, y, rfl⟩
  · -- one run
    refine ⟨as, [p], rest, by simp, by simp, ?_, ?_⟩
    · have hspan : spansAt (front ++ weave startCode as).length [p] = [x] := by
        rw [spansAt, if_neg hp, hx]
        rfl
      rw [← hnalus as [p] rest (by simp), hspan]
    · have hlast : x.2 = (front ++ weave startCode as).length + (weave startCode [p]).length := by
        rw [hx, length_weave_cons, weave_nil, List.length_nil]
        omega
      have hcut := hstretch as [p] rest (by simp)
      rw [← hlast, ← hfirst] at hcut
      exact hcut
  · -- the runs up to the last one
    rw [List.concat_eq_append] at hrest ⊢
    rw [List.append_assoc, List.singleton_append] at hrest
    obtain ⟨mids, q, bs, rfl, hq, hmid, hy, hb⟩ := spansAt_split rest _ mid b y hrest.symm
    have hsplit : as ++ p :: (mids ++ q :: bs) = as ++ (p :: (mids ++ [q])) ++ bs := by simp
    refine ⟨as, p :: (mids ++ [q]), bs, hsplit, by simp, ?_, ?_⟩
    · have hspan : spansAt (front ++ weave startCode as).length (p :: (mids ++ [q])) =
          x :: (mid ++ [y]) := by
        rw [spansAt, if_neg hp, spansAt_append, ← hmid, spansAt, if_neg hq, hx, hy]
        rfl
      rw [← hnalus as _ bs hsplit, hspan]
    · have hlast : y.2 = (front ++ weave startCode as).length +
          (weave startCode (p :: (mids ++ [q]))).length := by
        have hmids : (weave startCode (mids ++ [q])).length =
            (weave startCode mids).length + (4 + q.length) := by
          rw [weave_append, List.length_append, length_weave_cons, weave_nil, List.length_nil, Nat.add_zero]
        rw [hy, length_weave_cons, hmids]
        omega
      have hcut := hstretch as (p :: (mids ++ [q])) bs hsplit
      have hend : (x :: (mid ++ [y])).getLastD (0, 0) = y := by
        rw [List.getLastD_cons, List.getLastD_concat]
      rw [← hlast, ← hfirst] at hcut
      rw [hend]
      exact hcut

/-! ## What is received -/

/-- What the receiver makes of a unit. -/
structure Received (data : List UInt8) (au : List (ℕ × ℕ)) (times : ℕ × ℕ) : Prop where
  video : isControlJson (payload data au times) = false
  captureMs : (parseAnnexB (payload data au times)).captureMs = times.1
  sendMs : (parseAnnexB (payload data au times)).sendMs = times.2
  sps : (parseAnnexB (payload data au times)).sps =
    ((nalus data au).filter (naluType · = 7)).getLastD []
  pps : (parseAnnexB (payload data au times)).pps =
    ((nalus data au).filter (naluType · = 8)).getLastD []
  vcl : (parseAnnexB (payload data au times)).vclNalus = (nalus data au).filter (IsVcl ·)

/-- **A stretch of runs behind the times** is received. -/
theorem received {au a b : List (ℕ × ℕ)} {times : ℕ × ℕ} (hne : au ≠ [])
    (hps : ∀ p ∈ ps, Free startCode p) (h : data = front ++ weave startCode ps)
    (hspans : spansAt front.length ps = a ++ au ++ b) (htimes : times.1 < 2 ^ 63 ∧ times.2 < 2 ^ 63) :
    Received data au times := by
  obtain ⟨as, qs, bs, rfl, hqs, hnalus, hcut⟩ := cut_unit hne h hspans
  have hpayload : payload data au times = telemetryText (some times) ++ weave startCode qs := by
    rw [payload, hcut]
  have hfree : Free startCode (telemetryText (some times)) :=
    free_of_ne_zero fun b hb => ne_zero_of_mem_telemetryText hb
  have hruns : ∀ q ∈ qs, Free startCode q := by
    intro q hq
    exact hps q (List.mem_append_left _ (List.mem_append_right _ hq))
  have hparse := parseAnnexB_weave hfree hruns
  rw [if_neg hqs, hnalus, foldl_classify, ← hpayload] at hparse
  have htelemetry : parseTelemetry (telemetryText (some times)) = ((times.1 : ℤ), (times.2 : ℤ)) :=
    parseTelemetry_text htimes.1 htimes.2
  have hzero : (0 : UInt8) ∈ payload data au times := by
    obtain ⟨q, qs, rfl⟩ := List.exists_cons_of_ne_nil hqs
    rw [hpayload]
    simp [startCode]
  refine ⟨isControlJson_eq_false hzero, ?_, ?_, ?_, ?_, ?_⟩
  · rw [hparse]
    unfold frameOf
    rw [htelemetry]
  · rw [hparse]
    unfold frameOf
    rw [htelemetry]
  · rw [hparse]
    rfl
  · rw [hparse]
    rfl
  · rw [hparse]
    rfl

theorem mem_spansAt : ∀ (ps : List (List UInt8)) (off : ℕ), ∀ x ∈ spansAt off ps,
    x.1 < x.2 ∧ x.2 ≤ off + (weave startCode ps).length
  | [], _, _, h => by simp [spansAt] at h
  | p :: ps, off, x, h => by
    have hlen := length_weave_cons p ps
    rw [spansAt] at h
    rcases List.mem_append.1 h with h | h
    · by_cases hp : p = []
      · rw [if_pos hp] at h
        cases h
      · have hpos := List.length_pos_of_ne_nil hp
        rw [if_neg hp, List.mem_singleton] at h
        rw [h]
        dsimp only
        omega
    · obtain ⟨hlt, hle⟩ := mem_spansAt ps _ x h
      omega

/-- The sender and the receiver agree on the types. -/
theorem naluType_span (h : data = front ++ weave startCode ps) {x : ℕ × ℕ}
    (hx : x ∈ spansAt front.length ps) : naluType (cut data x) = naluTypeAt data x.1 := by
  obtain ⟨hlt, hle⟩ := mem_spansAt ps front.length x hx
  have hlen := congrArg List.length h
  rw [List.length_append] at hlen
  exact naluType_cut hlt (by omega : x.1 < data.length)

theorem isSlice_cut (h : data = front ++ weave startCode ps) {x : ℕ × ℕ}
    (hx : x ∈ spansAt front.length ps) : IsSlice (cut data x) ↔ Ends data x := by
  unfold IsSlice Ends vclTypes
  rw [naluType_span h hx]
  simp only [List.mem_cons, List.not_mem_nil, or_false]
  omega

/-! ## The units of a file -/

theorem unit_spans {au : List (ℕ × ℕ)} (hau : au ∈ buildAccessUnits data) :
    au ≠ [] ∧ ∃ a b, spansAt (pieces startCode data).1.length (pieces startCode data).2 = a ++ au ++ b := by
  obtain ⟨hdata, hfront, hps⟩ := pieces_spec startCode_borderFree data
  obtain ⟨hunits, tail, hall, -⟩ := collectUnits_spec data (splitNalus data) [] (by simp)
  obtain ⟨init, last, hlast, -, -⟩ := hunits au hau
  obtain ⟨before, behind, hsplit⟩ := List.append_of_mem hau
  refine ⟨?_, before.flatten, behind.flatten ++ tail, ?_⟩
  · rw [hlast]
    exact List.append_ne_nil_of_right_ne_nil _ (List.cons_ne_nil _ _)
  · rw [← splitNalus_eq hfront hps hdata]
    rw [List.nil_append] at hall
    unfold buildAccessUnits at hsplit
    rw [hall, hsplit]
    simp

theorem received_unit {au : List (ℕ × ℕ)} {times : ℕ × ℕ} (hau : au ∈ buildAccessUnits data)
    (htimes : times.1 < 2 ^ 63 ∧ times.2 < 2 ^ 63) : Received data au times := by
  obtain ⟨hdata, -, hps⟩ := pieces_spec startCode_borderFree data
  obtain ⟨hne, a, b, hspans⟩ := unit_spans hau
  exact received hne hps hdata hspans htimes

theorem unit_slices {au : List (ℕ × ℕ)} (hau : au ∈ buildAccessUnits data) :
    ∃ init last, nalus data au = init ++ [last] ∧ IsSlice last ∧ ∀ n ∈ init, ¬IsSlice n := by
  obtain ⟨hdata, -, -⟩ := pieces_spec startCode_borderFree data
  obtain ⟨hunits, -⟩ := collectUnits_spec data (splitNalus data) [] (by simp)
  obtain ⟨-, a, b, hspans⟩ := unit_spans hau
  obtain ⟨init, last, rfl, hlast, hinit⟩ := hunits au hau
  have hmem : ∀ x ∈ init ++ [last],
      x ∈ spansAt (pieces startCode data).1.length (pieces startCode data).2 := by
    intro x hx
    rw [hspans]
    exact List.mem_append_left _ (List.mem_append_right _ hx)
  refine ⟨init.map (cut data), cut data last, List.map_append, ?_, ?_⟩
  · exact (isSlice_cut hdata (hmem last (by simp))).2 hlast
  · intro n hn
    obtain ⟨x, hx, rfl⟩ := List.mem_map.1 hn
    exact fun h => hinit x hx ((isSlice_cut hdata (hmem x (List.mem_append_left _ hx))).1 h)

theorem vcl_unit {au : List (ℕ × ℕ)} (hau : au ∈ buildAccessUnits data) :
    (nalus data au).filter (IsVcl ·) ≠ [] := by
  obtain ⟨init, last, hnalus, hlast, -⟩ := unit_slices hau
  have hvcl : IsVcl last := by
    unfold IsSlice at hlast
    unfold IsVcl
    simp only [List.mem_cons, List.not_mem_nil, or_false] at hlast
    omega
  have hmem : last ∈ (init ++ [last]).filter (IsVcl ·) :=
    List.mem_filter.2 ⟨by simp, by simpa using hvcl⟩
  rw [hnalus]
  exact List.ne_nil_of_mem hmem

/-- What the sender takes for a keyframe has an IDR slice. -/
theorem exists_idr {au : List (ℕ × ℕ)} (hau : au ∈ buildAccessUnits data) (h : naluIsIdr data au = true) :
    ∃ n ∈ nalus data au, naluType n = 5 := by
  obtain ⟨hdata, -, -⟩ := pieces_spec startCode_borderFree data
  obtain ⟨-, a, b, hspans⟩ := unit_spans hau
  obtain ⟨x, hx, hidr⟩ := List.any_eq_true.1 h
  have hmem : x ∈ spansAt (pieces startCode data).1.length (pieces startCode data).2 := by
    rw [hspans]
    exact List.mem_append_left _ (List.mem_append_right _ hx)
  refine ⟨cut data x, List.mem_map_of_mem hx, ?_⟩
  rw [naluType_span hdata hmem, of_decide_eq_true hidr]
  rfl

/-- What is sent in one pass through the file, with the times of each unit. -/
def pass (data : List UInt8) (times : ℕ → ℕ × ℕ) : List (List UInt8) :=
  (buildAccessUnits data).mapIdx fun i au => payload data au (times i)

theorem flatMap_mapIdx {α β γ : Type*} {g : β → List γ} {k : α → List γ} :
    ∀ (l : List α) (f : ℕ → α → β), (∀ i, ∀ a ∈ l, g (f i a) = k a) →
      (l.mapIdx f).flatMap g = l.flatMap k
  | [], _, _ => rfl
  | a :: l, f, h => by
    have ih := flatMap_mapIdx l (fun i => f (i + 1)) fun i b hb => h (i + 1) b (List.mem_cons_of_mem a hb)
    rw [List.mapIdx_cons, List.flatMap_cons, List.flatMap_cons, ih, h 0 a List.mem_cons_self]

/-- **A file is played without loss.** Every unit is taken for video, with its times and its NALUs, and
has one slice, at its end. The VCL NALUs of one pass are those of the file in order, but for those behind
the last slice. -/
theorem file_played (data : List UInt8) {times : ℕ → ℕ × ℕ}
    (htimes : ∀ i, (times i).1 < 2 ^ 63 ∧ (times i).2 < 2 ^ 63) :
    (∀ au ∈ buildAccessUnits data, (∀ i, Received data au (times i)) ∧
        ∃ init last, nalus data au = init ++ [last] ∧ IsSlice last ∧ ∀ n ∈ init, ¬IsSlice n) ∧
      ∃ tail : List (List UInt8), (∀ n ∈ tail, ¬IsSlice n) ∧
        ((pass data times).flatMap fun p => (parseAnnexB p).vclNalus) ++ tail.filter (IsVcl ·) =
          (parseAnnexB data).vclNalus := by
  obtain ⟨hdata, hfront, hps⟩ := pieces_spec startCode_borderFree data
  have hspans := splitNalus_eq hfront hps hdata
  obtain ⟨-, tail, hall, htail⟩ := collectUnits_spec data (splitNalus data) [] (by simp)
  rw [List.nil_append, hspans] at hall
  have hslice : ∀ x ∈ spansAt (pieces startCode data).1.length (pieces startCode data).2,
      (IsSlice (cut data x) ↔ Ends data x) := fun x hx => isSlice_cut hdata hx
  refine ⟨fun au hau => ⟨fun i => received_unit hau (htimes i), unit_slices hau⟩, tail.map (cut data), ?_, ?_⟩
  · intro n hn
    obtain ⟨x, hx, rfl⟩ := List.mem_map.1 hn
    have hmem : x ∈ spansAt (pieces startCode data).1.length (pieces startCode data).2 := by
      rw [hall]
      exact List.mem_append_right _ hx
    exact fun h => htail x hx ((hslice x hmem).1 h)
  · have hwhole : data = (pieces startCode data).1 ++ weave startCode (pieces startCode data).2 ++ [] := by
      rw [List.append_nil]
      exact hdata
    have hruns : (spansAt (pieces startCode data).1.length (pieces startCode data).2).map (cut data) =
        nonEmpty (pieces startCode data).2 :=
      map_cut_spansAt _ _ [] hwhole
    have hvcl : (parseAnnexB data).vclNalus =
        (nonEmpty (pieces startCode data).2).filter (IsVcl ·) := by
      rw [parseAnnexB_eq]
      split_ifs with hnil
      · rw [hnil]
        rfl
      · rw [foldl_classify]
        rfl
    have hpass : (pass data times).flatMap (fun p => (parseAnnexB p).vclNalus) =
        (buildAccessUnits data).flatMap fun au => (nalus data au).filter (IsVcl ·) :=
      flatMap_mapIdx _ _ fun i au hau => (received_unit hau (htimes i)).vcl
    have hunitRuns : ((buildAccessUnits data).flatMap fun au => (nalus data au).filter (IsVcl ·)) =
        ((buildAccessUnits data).flatten.map (cut data)).filter (IsVcl ·) := by
      rw [List.map_flatten, List.filter_flatten, List.map_map, List.flatMap]
      rfl
    rw [hvcl, ← hruns, hall, hpass, hunitRuns, ← List.filter_append, ← List.map_append, ← hspans]
    rfl

/-- A keyframe with its parameter sets, an empty NALU, another slice, and an SEI behind it. -/
def clip : List UInt8 :=
  weave startCode [[0x67, 0xAA], [0x68, 0xCC], [0x65, 0x88], [], [0x41, 0x9A], [0x06, 0x05]]

def clipTimes : ℕ × ℕ := (1760000000123, 1760000000124)

theorem file_played_clip :
    buildAccessUnits clip = [[(4, 6), (10, 12), (16, 18)], [(26, 28)]] ∧
      Received clip [(4, 6), (10, 12), (16, 18)] clipTimes ∧
      ∃ tail : List (List UInt8), (∀ n ∈ tail, ¬IsSlice n) ∧
        ((pass clip fun _ => clipTimes).flatMap fun p => (parseAnnexB p).vclNalus) ++
          tail.filter (IsVcl ·) = (parseAnnexB clip).vclNalus := by
  have hunits : buildAccessUnits clip = [[(4, 6), (10, 12), (16, 18)], [(26, 28)]] := by decide +kernel
  have htimes : clipTimes.1 < 2 ^ 63 ∧ clipTimes.2 < 2 ^ 63 := by decide
  obtain ⟨hreceived, hall⟩ := file_played clip fun _ => htimes
  exact ⟨hunits, (hreceived _ (by rw [hunits]; exact List.mem_cons_self)).1 0, hall⟩

end OpenDisplay.Tools.AccessUnits
