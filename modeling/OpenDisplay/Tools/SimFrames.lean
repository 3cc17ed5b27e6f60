import OpenDisplay.Net.Session
import OpenDisplay.Protocol.AnnexBRoundTrip
import OpenDisplay.Protocol.ControlNumbers
import OpenDisplay.Tools.SimSession

/-!
# The frames of the simulator

The control frames of `SimSender.session` are dictionaries that `json.dumps` writes with a blank behind
each comma and colon.  A pong is parsed by the app as the two times that stand in it (`dispatch_pong`),
and no other frame is taken for a pong (`type_ne_pong`), whatever the arguments of the simulator are.
-/

namespace OpenDisplay.Tools.SimFrames

open OpenDisplay.Lib.FlatJson OpenDisplay.Lib.Text
open OpenDisplay.Net.Session OpenDisplay.Protocol OpenDisplay.Protocol.AnnexB
open OpenDisplay.Protocol.AnnexBRoundTrip (isControlJson_iff)
open OpenDisplay.Protocol.Control (ControlMessage controlType parseControlMessage)
open OpenDisplay.Protocol.ControlNumbers OpenDisplay.Protocol.ControlOutgoing
open OpenDisplay.Protocol.ControlUnknown
open OpenDisplay.Tools.AccessUnits (payload Received)
open OpenDisplay.Tools.SimSession

/-! ## The frames -/

/-- The arguments that stand in frames; `fps` is the numeral that is written for it. -/
structure Args where
  width : ℤ
  height : ℤ
  fps : Number

def space : Blank := ⟨[32], by simp⟩

/-- The blanks of `json.dumps`. -/
def spaced : List Member → List Member
  | [] => []
  | m :: ms =>
    { m with beforeValue := space } :: ms.map fun m => { m with lead := space, beforeValue := space }

/-- `json.dumps`. -/
def dumps (ms : List Member) : List UInt8 := object noBlank (spaced ms)

/-- A key with a number. -/
def numberMember (key : List UInt8) (h : ∀ b ∈ key, b ≠ 34 ∧ b ≠ 92 ∧ 32 ≤ b.toNat) (n : Number) : Member :=
  member (word key h) (.number n)

theorem plain_ping : ∀ b ∈ ascii "ping", b ≠ 34 ∧ b ≠ 92 ∧ 32 ≤ b.toNat := by decide

theorem plain_pending : ∀ b ∈ ascii "pending", b ≠ 34 ∧ b ≠ 92 ∧ 32 ≤ b.toNat := by decide

/-- What is sent. -/
def frame (s : SimSender) (args : Args) : Item → List UInt8
  | .welcome =>
    dumps [typeMember (ascii "welcome") (by decide), numberMember (ascii "pv") (by decide) (intNumeral 3),
      numberMember (ascii "min") (by decide) (intNumeral 1)]
  | .streamConfig =>
    dumps [typeMember (ascii "streamConfig") (by decide),
      member (word (ascii "codec") (by decide)) (.string (word (ascii "h264") (by decide))),
      numberMember (ascii "width") (by decide) (intNumeral args.width),
      numberMember (ascii "height") (by decide) (intNumeral args.height),
      numberMember (ascii "framesPerSecond") (by decide) args.fps]
  | .pong t mt => dumps (pongMembers t mt)
  | .ping =>
    dumps [typeMember (ascii "ping") plain_ping, numberMember (ascii "drops") (by decide) (intNumeral 0),
      numberMember (ascii "pending") plain_pending (intNumeral 0),
      numberMember (ascii "capFps") (by decide) args.fps]
  | .video i times => payload s.data (s.aus.getD i []) times

example : dumps (pongMembers 5 (-7)) = ascii "\x7b\"type\": \"pong\", \"t\": 5, \"mt\": -7\x7d" := by
  decide +kernel

/-! ## The blanks do not matter -/

variable {type q : List UInt8} {ms ms' : List Member}

/-- A member without its blanks. -/
def bone (m : Member) : List Piece × Value := (m.key, m.value)

theorem bone_spaced (ms : List Member) : (spaced ms).map bone = ms.map bone := by
  cases ms with
  | nil => rfl
  | cons m ms =>
    rw [spaced, List.map_cons, List.map_map, List.map_cons]
    rfl

theorem exists_bone (h : ms'.map bone = ms.map bone) {m' : Member} (hm' : m' ∈ ms') :
    ∃ m ∈ ms, m.key = m'.key ∧ m.value = m'.value := by
  have hmem : bone m' ∈ ms.map bone := h ▸ List.mem_map_of_mem hm'
  obtain ⟨m, hm, hbone⟩ := List.mem_map.1 hmem
  exact ⟨m, hm, (Prod.mk.inj hbone).1, (Prod.mk.inj hbone).2⟩

theorem given_eq_bone (ms : List Member) (q : List UInt8) :
    given ms q = ((ms.map bone).find? fun p => decide (raw p.1 = q)).bind fun p =>
      match p.2 with
      | .number n => some (Lib.Numeral.numberValue n)
      | _ => none := by
  unfold given
  rw [List.find?_map, Option.bind_map]
  rfl

theorem given_congr (h : ms'.map bone = ms.map bone) : given ms' = given ms := by
  funext q
  rw [given_eq_bone, h, ← given_eq_bone]

theorem flat_congr (h : ms'.map bone = ms.map bone) (hflat : Flat type ms) : Flat type ms' := by
  have hkeys : (ms'.map fun m => raw m.key) = ms.map fun m => raw m.key := by
    have := congrArg (List.map fun p : List Piece × Value => raw p.1) h
    rwa [List.map_map, List.map_map] at this
  refine ⟨fun m' hm' => ?_, hkeys ▸ hflat.distinct, ?_, hflat.bareType, fun m' hm' hne => ?_⟩
  · obtain ⟨m, hm, hkey, -⟩ := exists_bone h hm'
    exact hkey ▸ hflat.bare m hm
  · obtain ⟨m, hm, htype, hstring⟩ := hflat.typed
    obtain ⟨m', hm', hkey, hvalue⟩ := exists_bone h.symm hm
    exact ⟨m', hm', hkey ▸ htype, hvalue ▸ hstring⟩
  · obtain ⟨m, hm, hkey, hvalue⟩ := exists_bone h hm'
    exact hvalue ▸ hflat.numbers m hm (hkey ▸ hne)

theorem integers_congr (h : ms'.map bone = ms.map bone) (hint : Integers ms) : Integers ms' := by
  have hgiven := given_congr h
  exact ⟨fun q hq v hv => hint.double q hq v (hgiven ▸ hv), fun q hq v hv => hint.int q hq v (hgiven ▸ hv)⟩

/-- A flat message is parsed alike with the blanks and without them. -/
theorem parse_dumps (hflat : Flat type ms) (hint : Integers ms) :
    parseControlMessage (dumps ms) = parseControlMessage (object noBlank ms) := by
  have hbones := bone_spaced ms
  rw [dumps, parse_flat (flat_congr hbones hflat) (integers_congr hbones hint), given_congr hbones,
    parse_flat hflat hint]

/-! ## No NUL bytes -/

theorem ne_zero_of_le {b : UInt8} (h : 32 ≤ b.toNat) : b ≠ 0 := by
  rintro rfl
  exact absurd h (by decide)

theorem ne_zero_blank (w : Blank) : ∀ b ∈ w.text, b ≠ 0 := w.forall (by decide)

theorem ne_zero_raw (s : List Piece) : ∀ b ∈ raw s, b ≠ 0 := by
  intro b hb
  obtain ⟨piece, -, hpiece⟩ := List.mem_flatMap.1 hb
  cases piece with
  | char c h =>
    rw [List.mem_singleton.1 hpiece]
    exact ne_zero_of_le h.2.2
  | escape c h =>
    have hall : ∀ c ∈ ([34, 92, 47, 98, 102, 110, 114, 116] : List UInt8), c ≠ 0 := by decide
    rcases List.mem_cons.1 hpiece with rfl | hc
    · decide
    · rw [List.mem_singleton.1 hc]
      exact hall c h
  | unicode ds h =>
    rcases List.mem_cons.1 hpiece with rfl | hpiece
    · decide
    rcases List.mem_cons.1 hpiece with rfl | hpiece
    · decide
    · have hdigit := h.2 b hpiece
      unfold IsHexDigit IsDigit at hdigit
      exact ne_zero_of_le (by omega)

theorem ne_zero_quoted (s : List Piece) : ∀ b ∈ quoted s, b ≠ 0 := by
  intro b hb
  rcases List.mem_append.1 hb with hb | hb
  · rcases List.mem_cons.1 hb with rfl | hb
    · decide
    · exact ne_zero_raw s b hb
  · rw [List.mem_singleton.1 hb]
    decide

theorem ne_zero_value (v : Value) : ∀ b ∈ v.text, b ≠ 0 := by
  intro b hb
  cases v with
  | string s => exact ne_zero_quoted s b hb
  | number n => exact IsNumeralChar.ne (isNumeralChar_of_mem_number b hb) (by decide)
  | literal l =>
    have hall : ∀ l : Literal, ∀ b ∈ l.text, b ≠ 0 := by
      intro l
      cases l <;> decide
    exact hall l b hb

theorem ne_zero_textBefore (m : Member) {rest : List UInt8} (h : ∀ b ∈ rest, b ≠ 0) :
    ∀ b ∈ m.textBefore rest, b ≠ 0 := by
  intro b hb
  simp only [Member.textBefore, Member.behindColon, List.mem_append, List.mem_cons] at hb
  rcases hb with hb | hb | hb | rfl | hb | hb | hb | hb
  · exact ne_zero_blank _ b hb
  · exact ne_zero_quoted _ b hb
  · exact ne_zero_blank _ b hb
  · decide
  · exact ne_zero_blank _ b hb
  · exact ne_zero_value _ b hb
  · exact ne_zero_blank _ b hb
  · exact h b hb

theorem ne_zero_closing : ∀ ms : List Member, ∀ b ∈ closing ms, b ≠ 0
  | [], b, hb => by
    rw [List.mem_singleton.1 hb]
    decide
  | m :: ms, b, hb => by
    rcases List.mem_cons.1 hb with rfl | hb
    · decide
    · exact ne_zero_textBefore m (ne_zero_closing ms) b hb

/-- **What `json.dumps` writes has no NUL byte.** -/
theorem ne_zero_dumps (ms : List Member) : ∀ b ∈ dumps ms, b ≠ 0 := by
  unfold dumps
  cases spaced ms with
  | nil => decide
  | cons m ms =>
    intro b hb
    rcases List.mem_cons.1 hb with rfl | hb
    · decide
    rcases List.mem_append.1 hb with hb | hb
    · exact ne_zero_blank _ b hb
    · exact ne_zero_textBefore m (ne_zero_closing ms) b hb

/-! ## Pongs -/

variable {t mt : ℤ}

/-- The message of a pong. -/
def pongMessage (t mt : ℤ) : ControlMessage :=
  { ControlMessage.empty with
    type := .pong
    typeString := ascii "pong"
    t := .finite t
    hasT := true
    mt := .finite mt
    hasMt := true }

theorem toInt_ofInt {x : ℤ} (hx : |x| ≤ 2 ^ 53) : (Int64.ofInt x).toInt = x := by
  obtain ⟨hlo, hhi⟩ := abs_le.1 hx
  exact Int64.toInt_ofInt_of_le (by omega) (by omega)

theorem parse_pong (ht : |t| ≤ 2 ^ 53) (hmt : |mt| ≤ 2 ^ 53) :
    parseControlMessage (dumps (pongMembers t mt)) = some (pongMessage t mt) := by
  have hflat : Flat (ascii "pong") (pongMembers t mt) := flat_typeMember _ (.refl _)
  have hint : Integers (pongMembers t mt) := integers_typeMember _ (.refl _) ht hmt
  have ht' := toInt_ofInt ht
  have hmt' := toInt_ofInt hmt
  have hbuild : parseControlMessage (buildPong (Int64.ofInt t) (Int64.ofInt mt)) = _ :=
    parse_buildPong (by rwa [ht']) (by rwa [hmt'])
  rw [buildPong_eq, ht', hmt'] at hbuild
  rw [parse_dumps hflat hint, hbuild]
  rfl

theorem dumps_pong (t mt : ℤ) : dumps (pongMembers t mt) =
    ascii "\x7b\"type\": \"pong\", \"t\": " ++ (decimalInt t ++ (ascii ", \"mt\": " ++
      (decimalInt mt ++ ascii "\x7d"))) := by
  have hopen : ascii "\x7b\"type\": \"pong\", \"t\": " =
      123 :: 34 :: (ascii "type" ++ 34 :: 58 :: 32 :: 34 :: (ascii "pong" ++ 34 :: 44 :: 32 :: 34 ::
        (ascii "t" ++ [34, 58, 32]))) := by
    decide
  have hcomma : ascii ", \"mt\": " = 44 :: 32 :: 34 :: (ascii "mt" ++ [34, 58, 32]) := by decide
  have hclose : ascii "\x7d" = [125] := by decide
  rw [decimalInt_eq, decimalInt_eq, hopen, hcomma, hclose]
  simp only [dumps, spaced, pongMembers, typeMember, tMember, mtMember, member, space, object, closing,
    Member.textBefore, Member.behindColon, Value.text, quoted, raw_word, noBlank, List.map_cons,
    List.map_nil, List.nil_append, List.cons_append, List.append_assoc]

theorem length_decimalInt {x : ℤ} (hx : |x| ≤ 2 ^ 53) : (decimalInt x).length ≤ 20 := by
  obtain ⟨hlo, hhi⟩ := abs_le.1 hx
  have hlen : (decimal x.natAbs).length ≤ 18 + 1 := length_decimal_le (by omega)
  unfold decimalInt
  split
  · rw [List.length_cons]
    omega
  · omega

theorem isControlJson_pong (ht : |t| ≤ 2 ^ 53) (hmt : |mt| ≤ 2 ^ 53) :
    isControlJson (dumps (pongMembers t mt)) = true := by
  have hlen := length_decimalInt ht
  have hlen' := length_decimalInt hmt
  have hopen : (ascii "\x7b\"type\": \"pong\", \"t\": ").length = 22 := by decide
  have hcomma : (ascii ", \"mt\": ").length = 8 := by decide
  have hclose : (ascii "\x7d").length = 1 := by decide
  refine isControlJson_iff.2 ⟨?_, head?_object _ _, ne_zero_dumps _⟩
  rw [dumps_pong]
  simp only [List.length_append, hopen, hcomma, hclose]
  unfold kJsonSniffMaxSize
  omega

/-- **A pong arrives** with its times. -/
theorem dispatch_pong (ht : |t| ≤ 2 ^ 53) (hmt : |mt| ≤ 2 ^ 53) (framesReceived : UInt64) (arrivalMs : ℤ) :
    dispatchFrame parseControlMessage framesReceived arrivalMs (dumps (pongMembers t mt)) =
      (framesReceived, some (.onControl (pongMessage t mt))) := by
  unfold dispatchFrame
  rw [isControlJson_pong ht hmt, if_pos rfl, parse_pong ht hmt]
  rfl

/-! ## The other frames -/

theorem findString_type (h : ∀ b ∈ type, b ≠ 34 ∧ b ≠ 92 ∧ 32 ≤ b.toNat) (ms : List Member) :
    Control.findString (dumps (typeMember type h :: ms)) (ascii "type") = some type := by
  have hkey : raw (typeMember type h).key = ascii "type" := raw_word _ _
  have hshows : Shows (ascii "type") (typeMember type h).key := by
    rw [shows_bare (by rw [hkey]; decide)]
    exact hkey
  have hbare : 92 ∉ raw (word type h) := by
    rw [raw_word]
    exact fun hmem => (h 92 hmem).2.1 rfl
  rw [Control.findString_eq, dumps, fieldText_object, spaced, fieldClosing_cons (by decide), if_pos hshows,
    Option.bind_some, readString_bare rfl hbare, raw_word]

theorem type_of_parse {json : List UInt8} {msg : ControlMessage} (hparse : parseControlMessage json = some msg)
    (htype : Control.findString json (ascii "type") = some type) : msg.type = controlType type := by
  unfold parseControlMessage at hparse
  split_ifs at hparse
  rw [htype] at hparse
  obtain rfl := Option.some.inj hparse
  rw [type_readFields]

/-- **No other frame is a pong.** -/
theorem type_ne_pong {s : SimSender} {args : Args} {item : Item} (hpong : item.isPong = false)
    (hvideo : ∀ i times, item = .video i times → Received s.data (s.aus.getD i []) times)
    {framesReceived : UInt64} {arrivalMs : ℤ} {msg : ControlMessage}
    (h : (dispatchFrame parseControlMessage framesReceived arrivalMs (frame s args item)).2 =
      some (.onControl msg)) :
    msg.type ≠ .pong := by
  obtain ⟨hjson, hparse⟩ := parse_of_onControl h
  cases item with
  | welcome =>
    rw [type_of_parse hparse (findString_type _ _)]
    decide
  | streamConfig =>
    rw [type_of_parse hparse (findString_type _ _)]
    decide
  | pong t mt => cases hpong
  | ping =>
    rw [type_of_parse hparse (findString_type _ _)]
    decide
  | video i times =>
    have hno := (hvideo i times rfl).video
    rw [frame, hno] at hjson
    cases hjson

end OpenDisplay.Tools.SimFrames
