import OpenDisplay.Protocol.AnnexB
import Mathlib.Data.List.GetD
import Mathlib.Data.List.TakeWhile

/-! # Wire payloads: the parser recovers what was sent

The start code has no border, so a payload is cut at its start codes in one way only
(`Lib.Separator`). `startCodes_eq` says that the scan finds exactly these seams, `collect_eq` that the
loop behind it classifies exactly the non-empty runs, and `parseAnnexB_weave` puts the two together:

    parseAnnexB (pre ++ weave startCode ns) = (non-empty ns).foldl classify (the frame of pre)

From this follow the fields of the frame (`sps_foldl` and its siblings) and, with the telemetry
scanner (`findNumber_eq`), that the parser recovers every frame a sender can write, and that no
control message is a frame (`videoWire_decodes`). -/

namespace OpenDisplay.Protocol.AnnexBRoundTrip

open OpenDisplay.Lib.Buffer OpenDisplay.Lib.Separator OpenDisplay.Lib.Text
open OpenDisplay.Protocol.AnnexB

/-! ## Start codes -/

theorem startCode_borderFree : BorderFree startCode := by decide

theorem free_of_ne_zero {l : List UInt8} (h : ∀ b ∈ l, b ≠ 0) : Free startCode l := fun hi =>
  h 0 (hi.subset (by decide)) rfl

/-- The four comparisons of the scan are the test for a start code. -/
theorem startCode_prefix_drop {payload : List UInt8} {i : ℕ}
    (hi : i + kStartCodeLen ≤ payload.length) :
    startCode <+: payload.drop i ↔ payload.getD i 0 = 0 ∧ payload.getD (i + 1) 0 = 0 ∧
      payload.getD (i + 2) 0 = 0 ∧ payload.getD (i + 3) 0 = 1 := by
  unfold kStartCodeLen at hi
  rw [List.drop_eq_getElem_cons (by omega), List.drop_eq_getElem_cons (by omega),
    List.drop_eq_getElem_cons (by omega), List.drop_eq_getElem_cons (by omega),
    List.getD_eq_getElem _ _ (by omega), List.getD_eq_getElem _ _ (by omega),
    List.getD_eq_getElem _ _ (by omega), List.getD_eq_getElem _ _ (by omega)]
  simp only [startCode, List.cons_prefix_cons, List.nil_prefix, and_true]
  exact and_congr eq_comm (and_congr eq_comm (and_congr eq_comm eq_comm))

/-- The offsets behind the start codes of a weave that begins at `off`. -/
def offsetsAt (off : ℕ) : List (List UInt8) → List ℕ
  | [] => []
  | p :: ps => (off + kStartCodeLen) :: offsetsAt (off + kStartCodeLen + p.length) ps

theorem length_startCode : startCode.length = kStartCodeLen := rfl

/-- **The scan finds the seams.** -/
theorem startCodes_eq {payload : List UInt8} : ∀ (ps : List (List UInt8)) (pre : List UInt8) (i : ℕ),
    Free startCode pre → (∀ p ∈ ps, Free startCode p) →
      payload.drop i = pre ++ weave startCode ps →
        startCodes payload i = offsetsAt (i + pre.length) ps
  | [], [], i, _, _, h => by
    have hlen := congrArg List.length h
    simp only [List.length_drop, weave_nil, List.append_nil, List.length_nil] at hlen
    rw [startCodes, if_neg (by unfold kStartCodeLen; omega)]
    rfl
  | p :: ps, [], i, _, hps, h => by
    have hlen := congrArg List.length h
    simp only [List.length_drop, List.nil_append, weave_cons, List.length_append,
      length_startCode] at hlen
    have hi : i + kStartCodeLen ≤ payload.length := by unfold kStartCodeLen at *; omega
    have hd : payload.drop (i + kStartCodeLen) = p ++ weave startCode ps := by
      rw [← List.drop_drop, h, List.nil_append, weave_cons, List.append_assoc, ← length_startCode,
        List.drop_left]
    have hat : startCode <+: payload.drop i := by
      rw [h, List.nil_append, weave_cons, List.append_assoc]
      exact List.prefix_append _ _
    have ih := startCodes_eq ps p (i + kStartCodeLen) (hps p (by simp))
      (fun q hq => hps q (by simp [hq])) hd
    rw [startCodes, if_pos hi, if_pos ((startCode_prefix_drop hi).mp hat), ih, List.length_nil,
      Nat.add_zero, offsetsAt]
  | ps, x :: pre, i, hpre, hps, h => by
    have hno : ¬ startCode <+: payload.drop i := by
      rw [h]; exact not_prefix_append_weave startCode_borderFree hpre ps
    have hd : payload.drop (i + 1) = pre ++ weave startCode ps := by
      rw [← List.drop_drop, h]; rfl
    have ih := startCodes_eq ps pre (i + 1) hpre.tail hps hd
    have hoff : i + (x :: pre).length = i + 1 + pre.length := by rw [List.length_cons]; omega
    rw [hoff, ← ih]
    by_cases hi : i + kStartCodeLen ≤ payload.length
    · rw [startCodes, if_pos hi, if_neg (fun hc => hno ((startCode_prefix_drop hi).mpr hc))]
    · rw [startCodes, if_neg hi, startCodes, if_neg (by omega)]
termination_by ps pre => (ps.length, pre.length)

/-! ## The frame -/

/-- The non-empty runs. -/
def nonEmpty (ps : List (List UInt8)) : List (List UInt8) := ps.filter (· ≠ [])

theorem naluEnd_offsetsAt {payload front : List UInt8} {ps : List (List UInt8)}
    (h : payload = front ++ weave startCode ps) :
    naluEnd payload (offsetsAt front.length ps) = front.length := by
  cases ps with
  | nil => rw [h, weave_nil, List.append_nil]; rfl
  | cons p ps => simp [offsetsAt, naluEnd]

/-- **The loop over the seams** classifies the non-empty runs in order. -/
theorem collect_eq {payload : List UInt8} : ∀ (ps : List (List UInt8)) (front : List UInt8)
    (f : VideoFrame), payload = front ++ weave startCode ps →
      collect payload f (offsetsAt front.length ps) = (nonEmpty ps).foldl VideoFrame.classify f
  | [], _, _, _ => rfl
  | p :: ps, front, f, h => by
    have h' : payload = (front ++ startCode ++ p) ++ weave startCode ps := by
      rw [h, weave_cons]; simp
    have hlen : (front ++ startCode ++ p).length = front.length + kStartCodeLen + p.length := by
      rw [List.length_append, List.length_append, length_startCode]
    have hend := naluEnd_offsetsAt h'
    rw [hlen] at hend
    have hrun : slice payload (front.length + kStartCodeLen) p.length = p := by
      rw [h', slice_append_left _ (by rw [hlen]), slice, ← length_startCode, ← List.length_append,
        List.drop_left, List.take_length]
    have ih := fun f' => collect_eq ps (front ++ startCode ++ p) f' h'
    rw [hlen] at ih
    rw [offsetsAt, collect]
    simp only [hend]
    by_cases hp : p = []
    · subst hp
      rw [List.length_nil, Nat.add_zero] at ih ⊢
      rw [if_pos le_rfl, ih]
      rfl
    · have hpos := List.length_pos_of_ne_nil hp
      rw [if_neg (by omega), Nat.add_sub_cancel_left, hrun, ih]
      unfold nonEmpty
      rw [List.filter_cons_of_pos (by simpa using hp), List.foldl_cons]

/-- The frame before the first NALU: the telemetry prefix and its times. -/
def frameOf (pre : List UInt8) : VideoFrame :=
  ⟨pre, [], [], [], (parseTelemetry pre).1, (parseTelemetry pre).2⟩

/-- **The parser on a cut payload.** -/
theorem parseAnnexB_weave {pre : List UInt8} {ps : List (List UInt8)} (hpre : Free startCode pre)
    (hps : ∀ p ∈ ps, Free startCode p) :
    parseAnnexB (pre ++ weave startCode ps) =
      if ps = [] then VideoFrame.empty
      else (nonEmpty ps).foldl VideoFrame.classify (frameOf pre) := by
  have hs := startCodes_eq ps pre 0 hpre hps (List.drop_zero)
  rw [Nat.zero_add] at hs
  unfold parseAnnexB
  rw [hs]
  cases ps with
  | nil => rfl
  | cons p ps =>
    rw [if_neg (List.cons_ne_nil p ps), ← collect_eq (p :: ps) pre (frameOf pre) rfl]
    simp only [offsetsAt]
    congr 1
    have htel : slice (pre ++ weave startCode (p :: ps)) 0 pre.length = pre := by
      rw [slice_append_left _ (by omega), slice, List.drop_zero, List.take_length]
    rw [Nat.add_sub_cancel, htel]
    cases pre with
    | nil => rfl
    | cons x pre => rw [if_pos (by rw [List.length_cons]; omega)]; rfl

/-- The parser on any payload, in terms of its pieces. -/
theorem parseAnnexB_eq (payload : List UInt8) :
    parseAnnexB payload =
      if (pieces startCode payload).2 = [] then VideoFrame.empty
      else (nonEmpty (pieces startCode payload).2).foldl VideoFrame.classify
        (frameOf (pieces startCode payload).1) := by
  obtain ⟨h1, h2, h3⟩ := pieces_spec startCode_borderFree payload
  conv_lhs => rw [h1]
  exact parseAnnexB_weave h2 h3

/-- A NALU that is neither SEI nor a parameter set. -/
def IsVcl (n : List UInt8) : Prop := naluType n ≠ 6 ∧ naluType n ≠ 7 ∧ naluType n ≠ 8

instance (n : List UInt8) : Decidable (IsVcl n) := by unfold IsVcl; infer_instance

/-- **The fields of a classified frame**: the last SPS, the last PPS, the VCL NALUs in order. -/
theorem foldl_classify : ∀ (ns : List (List UInt8)) (f : VideoFrame),
    ns.foldl VideoFrame.classify f =
      { f with
        sps := (ns.filter (naluType · = 7)).getLastD f.sps
        pps := (ns.filter (naluType · = 8)).getLastD f.pps
        vclNalus := f.vclNalus ++ ns.filter (IsVcl ·) }
  | [], f => by simp
  | n :: ns, f => by
    have keep : ∀ {q : List UInt8 → Prop} [DecidablePred q], q n →
        (n :: ns).filter (q ·) = n :: ns.filter (q ·) := fun hq =>
      List.filter_cons_of_pos (by simpa using hq)
    have skip : ∀ {q : List UInt8 → Prop} [DecidablePred q], ¬ q n →
        (n :: ns).filter (q ·) = ns.filter (q ·) := fun hq =>
      List.filter_cons_of_neg (by simpa using hq)
    rw [List.foldl_cons, foldl_classify ns]
    unfold VideoFrame.classify
    by_cases h7 : naluType n = 7
    · rw [if_pos h7, keep h7, skip (by omega : ¬ naluType n = 8),
        skip (fun h : IsVcl n => h.2.1 h7), List.getLastD_cons]
    · by_cases h8 : naluType n = 8
      · rw [if_neg h7, if_pos h8, skip h7, keep h8, skip (fun h : IsVcl n => h.2.2 h8),
          List.getLastD_cons]
      · by_cases h6 : naluType n = 6
        · rw [if_neg h7, if_neg h8, if_pos h6, skip h7, skip h8, skip (fun h : IsVcl n => h.1 h6)]
        · rw [if_neg h7, if_neg h8, if_neg h6, skip h7, skip h8,
            keep (show IsVcl n from ⟨h6, h7, h8⟩), List.append_assoc, List.singleton_append]

/-! ## The telemetry prefix -/

theorem not_isBlank_of_isDigit {b : UInt8} (h : IsDigit b) : isBlank b = false := by
  unfold IsDigit at h
  simp only [isBlank, Bool.or_eq_false_iff, beq_eq_false_iff_ne, ne_eq]
  refine ⟨⟨⟨?_, ?_⟩, ?_⟩, ?_⟩ <;> rintro rfl <;> simp at h

theorem isNumberChar_of_isDigit {b : UInt8} (h : IsDigit b) : isNumberChar b = true := by
  simp [isNumberChar, h]

theorem stoll_decimal {n : ℕ} (h : n < 2 ^ 63) : stoll (decimal n) = some (n : ℤ) := by
  have hd := isDigit_of_mem_decimal n
  have htake : (decimal n).takeWhile (fun b => decide (IsDigit b)) = decimal n :=
    List.takeWhile_eq_self_iff.mpr (fun b hb => by simpa using hd b hb)
  unfold stoll
  split
  · next rest heq =>
    have := hd 45 (by rw [heq]; simp)
    exact absurd this (by decide)
  · simp only [htake, if_neg (decimal_ne_nil n), value_decimal,
      if_neg (show ¬ 2 ^ 63 ≤ n by omega)]

/-- **The scanner on a field**: the first occurrence of the needle is followed by a colon and a
numeral. -/
theorem findNumber_eq (pre rest : List UInt8) {json key : List UInt8} {n : ℕ}
    (hjson : json = pre ++ ((34 :: key ++ [34]) ++ 58 :: (decimal n ++ rest)))
    (hfind : find (34 :: key ++ [34]) json = some pre.length)
    (hrest : ∀ b ∈ rest.head?, isNumberChar b = false) (hn : n < 2 ^ 63) :
    findNumber json key = n := by
  have hd := isDigit_of_mem_decimal n
  obtain ⟨y, ds, hy⟩ := List.exists_cons_of_ne_nil (decimal_ne_nil n)
  have hlen : (pre ++ (34 :: key ++ [34])).length = pre.length + (34 :: key ++ [34]).length :=
    List.length_append
  have hdrop : json.drop (pre.length + (34 :: key ++ [34]).length) = 58 :: (decimal n ++ rest) := by
    rw [hjson, ← List.append_assoc, ← hlen, List.drop_left]
  have hcolon : find [58] (58 :: (decimal n ++ rest)) = some 0 := find_of_prefix (by simp)
  have hblank : (decimal n ++ rest).dropWhile isBlank = decimal n ++ rest := by
    rw [hy, List.cons_append, List.dropWhile_cons_of_neg]
    simpa using not_isBlank_of_isDigit (hd y (by rw [hy]; simp))
  have hnum : (decimal n ++ rest).takeWhile isNumberChar = decimal n := by
    rw [List.takeWhile_append_of_pos (fun b hb => isNumberChar_of_isDigit (hd b hb))]
    cases rest with
    | nil => simp
    | cons b rest => rw [List.takeWhile_cons_of_neg (by simpa using hrest b rfl), List.append_nil]
  unfold findNumber findFrom
  simp only [List.drop_zero, hfind, Option.map_some, Nat.add_zero, hdrop, hcolon, Nat.zero_add]
  rw [← List.drop_drop, hdrop, List.drop_one, List.tail_cons, hblank, hnum,
    if_neg (decimal_ne_nil n), stoll_decimal hn]
  rfl

/-- The telemetry prefix a sender writes: nothing, or `{"cap":c,"snd":s}`. -/
def telemetryText : Option (ℕ × ℕ) → List UInt8
  | none => []
  | some (c, s) =>
    ascii "\x7b\"cap\":" ++ decimal c ++ (ascii ",\"snd\":" ++ decimal s ++ ascii "\x7d")

theorem telemetryText_some (c s : ℕ) :
    telemetryText (some (c, s)) = 123 :: 34 :: 99 :: 97 :: 112 :: 34 :: 58 ::
      (decimal c ++ 44 :: 34 :: 115 :: 110 :: 100 :: 34 :: 58 :: (decimal s ++ [125])) := rfl

theorem ne_quote_of_isDigit {b : UInt8} (h : IsDigit b) : b ≠ 34 := by
  rintro rfl
  exact absurd h (by decide)

theorem find_snd (c : ℕ) (rest : List UInt8) :
    find [34, 115, 110, 100, 34] (123 :: 34 :: 99 :: 97 :: 112 :: 34 :: 58 ::
      (decimal c ++ 44 :: 34 :: 115 :: 110 :: 100 :: 34 :: rest)) =
      some ((decimal c).length + 8) := by
  have hhead : ∀ l : List UInt8,
      find [34, 115, 110, 100, 34] (123 :: 34 :: 99 :: 97 :: 112 :: 34 :: 58 :: l) =
        (find [34, 115, 110, 100, 34] l).map (· + 7) := fun l => by
    simp [find, Function.comp_def]
  have hskip : ∀ b ∈ decimal c ++ [44], b ≠ 34 := fun b hb => by
    rcases List.mem_append.mp hb with hb | hb
    · exact ne_quote_of_isDigit (isDigit_of_mem_decimal c b hb)
    · rw [List.mem_singleton.mp hb]; decide
  have hsplit : decimal c ++ 44 :: 34 :: 115 :: 110 :: 100 :: 34 :: rest =
      (decimal c ++ [44]) ++ ([34, 115, 110, 100, 34] ++ rest) := by simp
  rw [hhead, hsplit, find_append_of_forall_ne _ _ _ hskip,
    find_of_prefix (List.prefix_append _ rest)]
  simp

/-- **The scanner on the telemetry prefix.** -/
theorem parseTelemetry_text {c s : ℕ} (hc : c < 2 ^ 63) (hs : s < 2 ^ 63) :
    parseTelemetry (telemetryText (some (c, s))) = ((c : ℤ), (s : ℤ)) := by
  have hcap : findNumber (telemetryText (some (c, s))) (ascii "cap") = c :=
    findNumber_eq [123] _ (telemetryText_some c s) rfl (by simp; decide) hc
  have hsnd : findNumber (telemetryText (some (c, s))) (ascii "snd") = s := by
    refine findNumber_eq (123 :: 34 :: 99 :: 97 :: 112 :: 34 :: 58 :: (decimal c ++ [44])) [125]
      ?_ ?_ (by simp; decide) hs
    · rw [telemetryText_some, show ascii "snd" = [115, 110, 100] from rfl]
      simp
    · have h := find_snd c (58 :: (decimal s ++ [125]))
      rw [telemetryText_some, show ascii "snd" = [115, 110, 100] from rfl]
      refine h.trans ?_
      simp
  rw [parseTelemetry, if_neg (by rw [telemetryText_some]; exact List.cons_ne_nil _ _), hcap, hsnd]

theorem ne_zero_of_mem_telemetryText : ∀ {t : Option (ℕ × ℕ)} {b : UInt8},
    b ∈ telemetryText t → b ≠ 0
  | some (c, s), b, hb => by
    rw [telemetryText_some] at hb
    rintro rfl
    have hdigit : ∀ n, (0 : UInt8) ∉ decimal n := fun n h =>
      absurd (isDigit_of_mem_decimal n 0 h) (by decide)
    simp [hdigit] at hb

/-! ## The demux -/

theorem isControlJson_iff {payload : List UInt8} :
    isControlJson payload = true ↔ payload.length < kJsonSniffMaxSize ∧
      payload.head? = some 123 ∧ ∀ b ∈ payload, b ≠ 0 := by
  unfold isControlJson
  split_ifs with h1 h2
  · simp only [Bool.or_eq_true, List.isEmpty_iff, decide_eq_true_eq] at h1
    refine ⟨nofun, fun ⟨hlen, hhead, _⟩ => ?_⟩
    rcases h1 with rfl | h1
    · cases hhead
    · omega
  · exact ⟨nofun, fun h => absurd h.2.1 (by simpa using h2)⟩
  · simp only [Bool.or_eq_true, decide_eq_true_eq, not_or, not_le] at h1
    have hhead : payload.head? = some 123 := by simpa using h2
    rw [List.all_eq_true]
    exact ⟨fun h => ⟨h1.2, hhead, fun b hb => by simpa using h b hb⟩,
      fun h b hb => by simpa using h.2.2 b hb⟩

theorem isControlJson_eq_false {payload : List UInt8} (h : (0 : UInt8) ∈ payload) :
    isControlJson payload = false := by
  rw [Bool.eq_false_iff, ne_eq, isControlJson_iff]
  exact fun hc => hc.2.2 0 h rfl

theorem parseAnnexB_of_ne_zero {payload : List UInt8} (h : ∀ b ∈ payload, b ≠ 0) :
    parseAnnexB payload = VideoFrame.empty := by
  have hnone : ∀ p ∈ ([] : List (List UInt8)), Free startCode p := by simp
  have hp := parseAnnexB_weave (free_of_ne_zero h) hnone
  rwa [weave_nil, List.append_nil, if_pos rfl] at hp

/-! ## The round trip -/

/-- **The video wire format.**  Whatever a sender writes (an optional telemetry prefix with times in
the 64-bit range, then non-empty NALUs free of start codes) is not taken for control, and the parser
recovers the times, the last SPS and PPS and the VCL NALUs in order.  Conversely nothing that is taken
for control parses to a frame. -/
theorem videoWire_decodes :
    (∀ (t : Option (ℕ × ℕ)) (ns : List (List UInt8)),
      (∀ cs ∈ t, cs.1 < 2 ^ 63 ∧ cs.2 < 2 ^ 63) → ns ≠ [] →
      (∀ n ∈ ns, n ≠ [] ∧ Free startCode n) →
        let p := telemetryText t ++ weave startCode ns
        isControlJson p = false ∧
          (parseAnnexB p).captureMs = t.elim (-1) (fun cs => (cs.1 : ℤ)) ∧
          (parseAnnexB p).sendMs = t.elim (-1) (fun cs => (cs.2 : ℤ)) ∧
          (parseAnnexB p).sps = (ns.filter (naluType · = 7)).getLastD [] ∧
          (parseAnnexB p).pps = (ns.filter (naluType · = 8)).getLastD [] ∧
          (parseAnnexB p).vclNalus =
            ns.filter (fun n => naluType n ≠ 6 ∧ naluType n ≠ 7 ∧ naluType n ≠ 8)) ∧
    (∀ p : List UInt8, isControlJson p = true →
      (parseAnnexB p).isEmpty = true ∧ (parseAnnexB p).vclNalus = [] ∧ (parseAnnexB p).sps = [] ∧
        (parseAnnexB p).pps = []) := by
  constructor
  · intro t ns ht hne hns
    have hfree : Free startCode (telemetryText t) :=
      free_of_ne_zero fun b hb => ne_zero_of_mem_telemetryText hb
    have hall : nonEmpty ns = ns := List.filter_eq_self.mpr fun n hn => by simpa using (hns n hn).1
    have hparse := parseAnnexB_weave hfree (fun n hn => (hns n hn).2)
    rw [if_neg hne, hall, foldl_classify] at hparse
    have htimes : parseTelemetry (telemetryText t) =
        (t.elim (-1) (fun cs => (cs.1 : ℤ)), t.elim (-1) (fun cs => (cs.2 : ℤ))) := by
      cases t with
      | none => rfl
      | some cs => exact parseTelemetry_text (ht cs rfl).1 (ht cs rfl).2
    have hzero : (0 : UInt8) ∈ telemetryText t ++ weave startCode ns := by
      obtain ⟨n, ns, rfl⟩ := List.exists_cons_of_ne_nil hne
      simp [startCode]
    refine ⟨isControlJson_eq_false hzero, ?_⟩
    rw [hparse]
    unfold frameOf
    rw [htimes]
    exact ⟨rfl, rfl, rfl, rfl, rfl⟩
  · intro p hp
    rw [parseAnnexB_of_ne_zero (isControlJson_iff.mp hp).2.2]
    exact ⟨rfl, rfl, rfl, rfl⟩

/-- A keyframe with a trailing SEI behind a telemetry prefix, and a control message. -/
theorem videoWire_decodes_keyframe :
    ((parseAnnexB (telemetryText (some (1760000000123, 1760000000124)) ++
          weave startCode [[0x67, 0xAA], [0x68, 0xCC], [0x65, 0x88], [0x06, 0x05]])).captureMs =
        1760000000123 ∧
      (parseAnnexB (telemetryText (some (1760000000123, 1760000000124)) ++
          weave startCode [[0x67, 0xAA], [0x68, 0xCC], [0x65, 0x88], [0x06, 0x05]])).vclNalus =
        [[0x65, 0x88]]) ∧
      (parseAnnexB [123, 125]).isEmpty = true := by
  obtain ⟨hwire, hcontrol⟩ := videoWire_decodes
  obtain ⟨-, hcap, -, -, -, hvcl⟩ := hwire (some (1760000000123, 1760000000124))
    [[0x67, 0xAA], [0x68, 0xCC], [0x65, 0x88], [0x06, 0x05]] (by simp) (by simp) (by decide)
  exact ⟨⟨hcap, hvcl⟩, (hcontrol [123, 125] (by decide)).1⟩

end OpenDisplay.Protocol.AnnexBRoundTrip
