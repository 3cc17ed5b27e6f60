import OpenDisplay.Protocol.ControlOutgoing
import OpenDisplay.Protocol.ControlUnknown

/-! # The numbers of a control message

A flat message has one string, its type, and numbers; its keys and its type are written without escapes.
A search for a key that is not the type finds nothing but that key: every quote of the text belongs to a
key or to the type, so that what stands between two quotes is one of these or goes on with a colon or a
comma. The number behind the next colon is read whole, whatever follows it.

`parse_flat` says what is parsed for every order of the members and every spacing; the pings and pongs
that are sent are flat messages. -/

namespace OpenDisplay.Protocol.ControlNumbers

open OpenDisplay.Lib.Binary64 OpenDisplay.Lib.FlatJson OpenDisplay.Lib.Numeral OpenDisplay.Lib.Text
open OpenDisplay.Protocol.Control OpenDisplay.Protocol.ControlOutgoing
open OpenDisplay.Protocol.ControlUnknown

/-! ## Flat messages -/

/-- The number that the object gives for a key. -/
def given (ms : List Member) (q : List UInt8) : Option ℚ :=
  (ms.find? fun m => decide (raw m.key = q)).bind fun m =>
    match m.value with
    | .number n => some (numberValue n)
    | _ => none

/-- The members of a flat message of this type. -/
structure Flat (type : List UInt8) (ms : List Member) : Prop where
  /-- The keys have no escapes, and so no quotes. -/
  bare : ∀ m ∈ ms, 92 ∉ raw m.key
  distinct : (ms.map fun m => raw m.key).Nodup
  typed : ∃ m ∈ ms, raw m.key = ascii "type" ∧ ∃ s, m.value = .string s ∧ raw s = type
  bareType : 92 ∉ type
  numbers : ∀ m ∈ ms, raw m.key ≠ ascii "type" → ∃ n, m.value = .number n

/-- The keys whose numbers are read as doubles. -/
def doubleKeys : List (List UInt8) := [ascii "t", ascii "mt", ascii "capFps"]

/-- The keys whose numbers are read as integers. -/
def intKeys : List (List UInt8) :=
  [ascii "drops", ascii "pending", ascii "pv", ascii "min", ascii "width", ascii "height",
    ascii "framesPerSecond"]

/-- The numbers that the parser reads are integers of the sizes that it reads exactly. -/
structure Integers (ms : List Member) : Prop where
  double : ∀ q ∈ doubleKeys, ∀ v ∈ given ms q, ∃ z : ℤ, v = z ∧ |z| ≤ 2 ^ 53
  int : ∀ q ∈ intKeys, ∀ v ∈ given ms q, ∃ z : ℤ, v = z ∧ |z| < 1000000000

/-- The message of a type with the numbers `v`. -/
def message (type : List UInt8) (v : List UInt8 → Option ℚ) : ControlMessage :=
  let msg := { ControlMessage.empty with type := controlType type, typeString := type }
  match controlType type with
  | .pong =>
    { msg with
      t := .finite ((v (ascii "t")).getD 0)
      hasT := (v (ascii "t")).isSome
      mt := .finite ((v (ascii "mt")).getD 0)
      hasMt := (v (ascii "mt")).isSome }
  | .ping =>
    { msg with
      drops := ((v (ascii "drops")).map Rat.num).getD 0
      hasDrops := (v (ascii "drops")).isSome
      pending := ((v (ascii "pending")).map Rat.num).getD 0
      hasPending := (v (ascii "pending")).isSome
      capFps := .finite ((v (ascii "capFps")).getD 0)
      hasCapFps := (v (ascii "capFps")).isSome }
  | .welcome =>
    { msg with
      welcomePv := ((v (ascii "pv")).map Rat.num).getD 1
      welcomeMin := ((v (ascii "min")).map Rat.num).getD 1 }
  | .streamConfig =>
    { msg with
      codec := ascii "h264"
      width := ((v (ascii "width")).map Rat.num).getD 0
      height := ((v (ascii "height")).map Rat.num).getD 0
      fps := ((v (ascii "framesPerSecond")).map Rat.num).getD 0 }
  | _ => msg

/-! ## Where a key is found -/

variable {q type : List UInt8} {ms : List Member}

theorem quote_notMem_raw : ∀ s : List Piece, 92 ∉ raw s → 34 ∉ raw s
  | [], _ => by simp [raw]
  | .char b h :: s, hs => by
    have hraw : raw (.char b h :: s) = b :: raw s := rfl
    rw [hraw, List.mem_cons, not_or] at hs ⊢
    exact ⟨h.1.symm, quote_notMem_raw s hs.2⟩
  | .escape b h :: s, hs => absurd (by simp [raw, Piece.text]) hs
  | .unicode ds h :: s, hs => absurd (by simp [raw, Piece.text]) hs

theorem shows_bare {s : List Piece} (hs : 92 ∉ raw s) : Shows q s ↔ raw s = q := by
  unfold Shows
  rw [List.suffix_cons_iff, List.cons.injEq]
  constructor
  · rintro (⟨-, h⟩ | h)
    · exact h.symm
    · exact absurd (h.subset (by simp)) (quote_notMem_raw s hs)
  · exact fun h => .inl ⟨rfl, h.symm⟩

/-- **A search finds the member with the key**, or nothing. -/
theorem fieldClosing_find (hq : ∀ b ∈ q, IsLetter b) : ∀ ms : List Member,
    (∀ m ∈ ms, 92 ∉ raw m.key) → (∀ m ∈ ms, m.value.Shows q → raw m.key = q) →
      (ms.find? (fun m => decide (raw m.key = q)) = none ∧ fieldClosing q ms = none) ∨
        ∃ m rest, ms.find? (fun m => decide (raw m.key = q)) = some m ∧
          fieldClosing q ms = some (m.behindColon (closing rest))
  | [], _, _ => .inl ⟨rfl, by rw [fieldClosing_nil]; rfl⟩
  | m :: ms, hbare, hvalues => by
    have ih := fieldClosing_find hq ms (fun n hn => hbare n (List.mem_cons_of_mem _ hn))
      fun n hn => hvalues n (List.mem_cons_of_mem _ hn)
    rw [fieldClosing_cons hq, if_congr (shows_bare (hbare m (by simp))) rfl rfl]
    by_cases hm : raw m.key = q
    · rw [if_pos hm, List.find?_cons_of_pos (by simpa using hm)]
      exact .inr ⟨m, ms, rfl, rfl⟩
    · have hvalue : ¬m.value.Shows q := fun h => hm (hvalues m (by simp) h)
      rw [if_neg hm, if_neg hvalue, List.find?_cons_of_neg (by simpa using hm)]
      exact ih

/-- The one member with the key `type` has the type. -/
theorem Flat.value_of_type (h : Flat type ms) {m : Member} (hm : m ∈ ms)
    (hkey : raw m.key = ascii "type") : ∃ s, m.value = .string s ∧ raw s = type := by
  obtain ⟨t, ht, htkey, s, hs, hraw⟩ := h.typed
  obtain rfl : m = t := List.inj_on_of_nodup_map h.distinct hm ht (hkey.trans htkey.symm)
  exact ⟨s, hs, hraw⟩

theorem Flat.find_fieldText (h : Flat type ms) (hq : ∀ b ∈ q, IsLetter b)
    (hne : q = ascii "type" ∨ q ≠ type) (inner : Blank) :
    (ms.find? (fun m => decide (raw m.key = q)) = none ∧ fieldText q (object inner ms) = none) ∨
      ∃ m rest, ms.find? (fun m => decide (raw m.key = q)) = some m ∧
        fieldText q (object inner ms) = some (m.behindColon (closing rest)) := by
  rw [fieldText_object]
  refine fieldClosing_find hq ms h.bare fun m hm hshows => ?_
  by_cases hkey : raw m.key = ascii "type"
  · obtain ⟨s, hs, hraw⟩ := h.value_of_type hm hkey
    rw [hs] at hshows
    have hself : raw s = q := (shows_bare (hraw ▸ h.bareType)).1 hshows
    rcases hne with hq | hq
    · exact hkey.trans hq.symm
    · exact absurd (hself.symm.trans hraw) hq
  · obtain ⟨n, hn⟩ := h.numbers m hm hkey
    rw [hn] at hshows
    exact hshows.elim

/-! ## What is read there -/

theorem readNumber_behindColon {m : Member} {n : Number} (hm : m.value = .number n) (rest : List Member) :
    readNumber (m.behindColon (closing rest)) = fromChars n.text := by
  have hscalar := Value.scalar (v := .number n) rfl
  have hstop : Stops (m.trail.text ++ closing rest) := stops_blank (stops_closing rest)
  unfold readNumber Member.behindColon
  rw [hm, dropWhile_scalar _ (isSpace_blank m.beforeValue) hscalar not_isSpace_of_isNumeralChar,
    if_neg (by simp [hscalar.1]), fromChars_append hstop]
  rfl

theorem readString_number {m : Member} {n : Number} (hm : m.value = .number n) (rest : List UInt8) :
    readString (m.behindColon rest) = none := by
  have hscalar := Value.scalar (v := .number n) rfl
  unfold readString Member.behindColon
  rw [hm, dropWhile_scalar _ (isSpace_blank m.beforeValue) hscalar not_isSpace_of_isNumeralChar]
  obtain ⟨c, l, hl⟩ := List.exists_cons_of_ne_nil hscalar.1
  have hc : c ≠ 34 := IsNumeralChar.ne (hscalar.2 c (by simp [hl])) (by decide)
  rw [hl, List.cons_append, stepOver, if_neg hc]
  rfl

theorem readString_bare {m : Member} {s : List Piece} (hm : m.value = .string s) (hs : 92 ∉ raw s)
    (rest : List UInt8) : readString (m.behindColon rest) = some (raw s) := by
  have htext : m.behindColon rest =
      m.beforeValue.text ++ 34 :: (raw s ++ 34 :: (m.trail.text ++ rest)) := by
    simp [Member.behindColon, hm, Value.text, quoted]
  have hspace : ¬isSpace 34 = true := by decide
  have hall : ∀ b ∈ raw s, decide (b ≠ 34) = true := by
    intro b hb
    have : b ≠ 34 := fun h34 => quote_notMem_raw s hs (h34 ▸ hb)
    simpa using this
  unfold readString
  rw [htext, List.dropWhile_append_of_pos (isSpace_blank m.beforeValue),
    List.dropWhile_cons_of_neg hspace, stepOver, if_pos rfl, Option.bind_some, take_find_quote,
    List.takeWhile_eq_self_iff.2 hall]

/-! ## The lookups -/

theorem Flat.findString_type (h : Flat type ms) (inner : Blank) :
    findString (object inner ms) (ascii "type") = some type := by
  rw [findString_eq]
  rcases h.find_fieldText (by decide) (.inl rfl) inner with ⟨hfind, -⟩ | ⟨m, rest, hfind, htext⟩
  · obtain ⟨t, ht, hkey, -⟩ := h.typed
    have := List.find?_eq_none.1 hfind t ht
    exact absurd hkey (by simpa using this)
  · have hkey : raw m.key = ascii "type" := by simpa using List.find?_some hfind
    obtain ⟨s, hs, hraw⟩ := h.value_of_type (List.mem_of_find?_eq_some hfind) hkey
    rw [htext, Option.bind_some, readString_bare hs (hraw ▸ h.bareType), hraw]

/-- The lookup of a key that is not the type, and not equal to it. -/
theorem Flat.lookup (h : Flat type ms) (hq : ∀ b ∈ q, IsLetter b) (hkey : q ≠ ascii "type")
    (hne : q ≠ type) (inner : Blank) :
    given ms q = none ∧ fieldText q (object inner ms) = none ∨
      ∃ (m : Member) (n : Number) (rest : List Member),
        m.value = .number n ∧ given ms q = some (numberValue n) ∧ fieldText q (object inner ms) = some (m.behindColon (closing rest)) := by
  rcases h.find_fieldText hq (.inr hne) inner with ⟨hfind, htext⟩ | ⟨m, rest, hfind, htext⟩
  · exact .inl ⟨by rw [given, hfind]; rfl, htext⟩
  · have hm : raw m.key = q := by simpa using List.find?_some hfind
    obtain ⟨n, hn⟩ := h.numbers m (List.mem_of_find?_eq_some hfind) (hm ▸ hkey)
    refine .inr ⟨m, n, rest, hn, ?_, htext⟩
    rw [given, hfind, Option.bind_some, hn]

theorem Flat.findString_none (h : Flat type ms) (hq : ∀ b ∈ q, IsLetter b) (hkey : q ≠ ascii "type")
    (hne : q ≠ type) (inner : Blank) : findString (object inner ms) q = none := by
  rw [findString_eq]
  rcases h.lookup hq hkey hne inner with ⟨-, htext⟩ | ⟨m, n, rest, hn, -, htext⟩
  · rw [htext]
    rfl
  · rw [htext, Option.bind_some, readString_number hn]

/-- **A number is read as the integer that is given.** -/
theorem Flat.findNumber_eq (h : Flat type ms) (hq : ∀ b ∈ q, IsLetter b) (hkey : q ≠ ascii "type")
    (hne : q ≠ type) (hint : ∀ v ∈ given ms q, ∃ z : ℤ, v = z ∧ |z| ≤ 2 ^ 53) (inner : Blank) :
    findNumber (object inner ms) q = (given ms q).map .finite := by
  rw [Control.findNumber_eq]
  rcases h.lookup hq hkey hne inner with ⟨hgiven, htext⟩ | ⟨m, n, rest, hn, hgiven, htext⟩
  · rw [htext, hgiven]
    rfl
  · obtain ⟨z, hz, hle⟩ := hint _ hgiven
    rw [htext, hgiven, Option.bind_some, readNumber_behindColon hn, fromChars_integer hz hle, hz]
    rfl

theorem Flat.findInt_eq (h : Flat type ms) (hq : ∀ b ∈ q, IsLetter b) (hkey : q ≠ ascii "type")
    (hne : q ≠ type) (hint : ∀ v ∈ given ms q, ∃ z : ℤ, v = z ∧ |z| < 1000000000) (inner : Blank) :
    findInt (object inner ms) q = (given ms q).map Rat.num := by
  have hnumber := h.findNumber_eq hq hkey hne (fun v hv => by
    obtain ⟨z, hz, hlt⟩ := hint v hv
    exact ⟨z, hz, hlt.le.trans (by norm_num)⟩) inner
  unfold findInt
  rw [hnumber]
  cases hgiven : given ms q with
  | none => rfl
  | some v =>
    obtain ⟨z, rfl, hlt⟩ := hint v hgiven
    have habs : |(z : ℚ)| < 1000000000 := by exact_mod_cast hlt
    simp [habs]

/-! ## The message -/

/-- No key that is looked up for a kind of message is the type of that kind. -/
theorem queried_ne : ∀ k, ∀ q ∈ queried k, q ≠ ascii "type" ∧ controlType q ≠ k := by
  intro k
  cases k <;> decide

theorem getD_finite (v : Option ℚ) : (v.map Double.finite).getD (.finite 0) = .finite (v.getD 0) := by
  cases v <;> rfl

/-- **The fields of a flat message** are the numbers that it gives, and the defaults otherwise. -/
theorem readFields_flat (h : Flat type ms) (hint : Integers ms) (inner : Blank) :
    readFields (object inner ms)
        { ControlMessage.empty with type := controlType type, typeString := type } =
      message type (given ms) := by
  have hkeys : ∀ q ∈ queried (controlType type), (∀ b ∈ q, IsLetter b) ∧ q ≠ ascii "type" ∧ q ≠ type := by
    intro q hq
    obtain ⟨hkey, hkind⟩ := queried_ne _ q hq
    exact ⟨isLetter_queried _ q hq, hkey, fun hne => hkind (by rw [hne])⟩
  have hstring : ∀ q ∈ queried (controlType type), findString (object inner ms) q = none :=
    fun q hq => h.findString_none (hkeys q hq).1 (hkeys q hq).2.1 (hkeys q hq).2.2 inner
  have hnumber : ∀ q ∈ queried (controlType type), q ∈ doubleKeys →
      findNumber (object inner ms) q = (given ms q).map .finite :=
    fun q hq hd => h.findNumber_eq (hkeys q hq).1 (hkeys q hq).2.1 (hkeys q hq).2.2 (hint.double q hd) inner
  have hinteger : ∀ q ∈ queried (controlType type), q ∈ intKeys →
      findInt (object inner ms) q = (given ms q).map Rat.num :=
    fun q hq hi => h.findInt_eq (hkeys q hq).1 (hkeys q hq).2.1 (hkeys q hq).2.2 (hint.int q hi) inner
  unfold readFields message
  cases hkind : controlType type with
  | pong =>
    rw [hkind] at hnumber
    simp only [hnumber (ascii "t") (by simp [queried]) (by simp [doubleKeys]),
      hnumber (ascii "mt") (by simp [queried]) (by simp [doubleKeys])]
    simp only [getD_finite, Option.isSome_map]
  | ping =>
    rw [hkind] at hnumber hinteger
    simp only [hinteger (ascii "drops") (by simp [queried]) (by simp [intKeys]),
      hinteger (ascii "pending") (by simp [queried]) (by simp [intKeys]),
      hnumber (ascii "capFps") (by simp [queried]) (by simp [doubleKeys])]
    simp only [getD_finite, Option.isSome_map]
  | welcome =>
    rw [hkind] at hinteger
    simp only [hinteger (ascii "pv") (by simp [queried]) (by simp [intKeys]),
      hinteger (ascii "min") (by simp [queried]) (by simp [intKeys])]
  | updateRequired =>
    rw [hkind] at hstring
    simp only [hstring (ascii "target") (by simp [queried]), hstring (ascii "store") (by simp [queried]),
      hstring (ascii "message") (by simp [queried])]
    rfl
  | streamConfig =>
    rw [hkind] at hstring hinteger
    simp only [hstring (ascii "codec") (by simp [queried]),
      hinteger (ascii "width") (by simp [queried]) (by simp [intKeys]),
      hinteger (ascii "height") (by simp [queried]) (by simp [intKeys]),
      hinteger (ascii "framesPerSecond") (by simp [queried]) (by simp [intKeys])]
    rfl
  | cursor | cursorImg | unknown => rfl

theorem parse_flat (h : Flat type ms) (hint : Integers ms) (inner : Blank) :
    parseControlMessage (object inner ms) = some (message type (given ms)) := by
  unfold parseControlMessage
  rw [if_neg (by rw [head?_object, getLast?_object]; decide), h.findString_type inner]
  exact congrArg some (readFields_flat h hint inner)

/-! ## The pings and pongs that are sent -/

theorem raw_word : ∀ (l : List UInt8) (h : ∀ b ∈ l, b ≠ 34 ∧ b ≠ 92 ∧ 32 ≤ b.toNat), raw (word l h) = l
  | [], _ => rfl
  | b :: l, h => congrArg (b :: ·) (raw_word l fun b hb => h b (List.mem_cons_of_mem _ hb))

theorem plain_type : ∀ b ∈ ascii "type", b ≠ 34 ∧ b ≠ 92 ∧ 32 ≤ b.toNat := by decide

/-- The member that names the type. -/
def typeMember (type : List UInt8) (h : ∀ b ∈ type, b ≠ 34 ∧ b ≠ 92 ∧ 32 ≤ b.toNat) : Member :=
  member (word (ascii "type") plain_type) (.string (word type h))

/-- `"t":t`. -/
def tMember (t : ℤ) : Member := member (word (ascii "t") (by decide)) (.number (intNumeral t))

/-- `"mt":mt`. -/
def mtMember (mt : ℤ) : Member := member (word (ascii "mt") (by decide)) (.number (intNumeral mt))

/-- The members of `buildPong`. -/
def pongMembers (t mt : ℤ) : List Member :=
  [typeMember (ascii "pong") (by decide), tMember t, mtMember mt]

theorem buildPong_eq (t mt : Int64) :
    buildPong t mt = object noBlank (pongMembers t.toInt mt.toInt) := by
  have hopen : ascii "\x7b\"type\":\"pong\",\"t\":" =
      123 :: 34 :: (ascii "type" ++ 34 :: 58 :: 34 :: (ascii "pong" ++ 34 :: 44 :: 34 ::
        (ascii "t" ++ [34, 58]))) := by
    decide
  have hcomma : ascii ",\"mt\":" = 44 :: 34 :: (ascii "mt" ++ [34, 58]) := by decide
  have hclose : ascii "\x7d" = [125] := by decide
  unfold buildPong msText
  rw [decimalInt_eq, decimalInt_eq, hopen, hcomma, hclose]
  simp only [pongMembers, typeMember, tMember, mtMember, member, object, closing, Member.textBefore,
    Member.behindColon, Value.text, quoted, raw_word, noBlank, List.nil_append, List.cons_append,
    List.append_assoc]

variable {t mt : ℤ} {times : List Member}

theorem flat_typeMember (h : ∀ b ∈ type, b ≠ 34 ∧ b ≠ 92 ∧ 32 ≤ b.toNat)
    (hsub : times.Sublist [tMember t, mtMember mt]) : Flat type (typeMember type h :: times) := by
  have hall : ([tMember t, mtMember mt].map fun m => raw m.key) = [ascii "t", ascii "mt"] := by
    simp only [tMember, mtMember, member, List.map_cons, List.map_nil, raw_word]
  have hkeys : (times.map fun m => raw m.key).Sublist [ascii "t", ascii "mt"] :=
    hall ▸ hsub.map fun m => raw m.key
  have hclean : ∀ l ∈ [ascii "t", ascii "mt"], 92 ∉ l := by decide
  have htype : raw (typeMember type h).key = ascii "type" := raw_word _ _
  refine ⟨List.forall_mem_cons.2 ⟨by rw [htype]; decide, fun m hm => ?_⟩, ?_,
    ⟨_, List.mem_cons_self, htype, _, rfl, raw_word _ _⟩, fun h92 => (h 92 h92).2.1 rfl,
    List.forall_mem_cons.2 ⟨fun hkey => absurd htype hkey, fun m hm _ => ?_⟩⟩
  · exact hclean _ (hkeys.subset (List.mem_map_of_mem hm))
  · rw [List.map_cons, htype]
    exact (hkeys.cons_cons (ascii "type")).nodup (by decide)
  · have hm := hsub.subset hm
    simp only [List.mem_cons, List.not_mem_nil, or_false] at hm
    obtain rfl | rfl := hm
    · exact ⟨_, rfl⟩
    · exact ⟨_, rfl⟩

theorem exists_of_given {v : ℚ} (hv : v ∈ given ms q) :
    ∃ m ∈ ms, raw m.key = q ∧ ∃ n, m.value = .number n ∧ numberValue n = v := by
  unfold given at hv
  obtain ⟨m, hfind, hm⟩ := Option.bind_eq_some_iff.1 hv
  refine ⟨m, List.mem_of_find?_eq_some hfind, by simpa using List.find?_some hfind, ?_⟩
  cases hvalue : m.value with
  | number n =>
    rw [hvalue] at hm
    exact ⟨n, rfl, Option.some_inj.1 hm⟩
  | string s | literal l =>
    rw [hvalue] at hm
    cases hm

theorem mem_given_times (h : ∀ b ∈ type, b ≠ 34 ∧ b ≠ 92 ∧ 32 ≤ b.toNat)
    (hsub : times.Sublist [tMember t, mtMember mt]) {v : ℚ}
    (hv : v ∈ given (typeMember type h :: times) q) :
    q = ascii "t" ∧ v = t ∨ q = ascii "mt" ∧ v = mt := by
  obtain ⟨m, hm, hkey, n, hn, hnv⟩ := exists_of_given hv
  rcases List.mem_cons.1 hm with rfl | hm
  · cases hn
  · have hm := hsub.subset hm
    simp only [List.mem_cons, List.not_mem_nil, or_false] at hm
    obtain rfl | rfl := hm
    · obtain rfl : intNumeral t = n := Value.number.inj hn
      exact .inl ⟨hkey.symm.trans (raw_word _ _), hnv.symm.trans (numberValue_intNumeral t)⟩
    · obtain rfl : intNumeral mt = n := Value.number.inj hn
      exact .inr ⟨hkey.symm.trans (raw_word _ _), hnv.symm.trans (numberValue_intNumeral mt)⟩

theorem integers_typeMember (h : ∀ b ∈ type, b ≠ 34 ∧ b ≠ 92 ∧ 32 ≤ b.toNat)
    (hsub : times.Sublist [tMember t, mtMember mt]) (ht : |t| ≤ 2 ^ 53) (hmt : |mt| ≤ 2 ^ 53) :
    Integers (typeMember type h :: times) := by
  refine ⟨fun q _ v hv => ?_, fun q hq v hv => ?_⟩
  · rcases mem_given_times h hsub hv with ⟨-, rfl⟩ | ⟨-, rfl⟩
    · exact ⟨t, rfl, ht⟩
    · exact ⟨mt, rfl, hmt⟩
  · have hnot : ascii "t" ∉ intKeys ∧ ascii "mt" ∉ intKeys := by decide
    rcases mem_given_times h hsub hv with ⟨rfl, -⟩ | ⟨rfl, -⟩
    · exact absurd hq hnot.1
    · exact absurd hq hnot.2

theorem parse_buildPong {t mt : Int64} (ht : |t.toInt| ≤ 2 ^ 53) (hmt : |mt.toInt| ≤ 2 ^ 53) :
    parseControlMessage (buildPong t mt) = some
      { ControlMessage.empty with
        type := .pong
        typeString := ascii "pong"
        t := .finite t.toInt
        hasT := true
        mt := .finite mt.toInt
        hasMt := true } := by
  have hkind : controlType (ascii "pong") = .pong := by decide
  have htype : ascii "type" ≠ ascii "t" ∧ ascii "type" ≠ ascii "mt" := by decide
  have hne : ascii "t" ≠ ascii "mt" := by decide
  have hgt : given (pongMembers t.toInt mt.toInt) (ascii "t") = some (t.toInt : ℚ) := by
    simp [given, pongMembers, typeMember, tMember, member, raw_word, htype, numberValue_intNumeral]
  have hgmt : given (pongMembers t.toInt mt.toInt) (ascii "mt") = some (mt.toInt : ℚ) := by
    simp [given, pongMembers, typeMember, tMember, mtMember, member, raw_word, htype, hne,
      numberValue_intNumeral]
  have hflat : Flat (ascii "pong") (pongMembers t.toInt mt.toInt) := flat_typeMember _ (.refl _)
  have hint : Integers (pongMembers t.toInt mt.toInt) := integers_typeMember _ (.refl _) ht hmt
  rw [buildPong_eq, parse_flat hflat hint]
  unfold message
  simp only [hkind, hgt, hgmt, Option.getD_some, Option.isSome_some]

/-- **Control numbers are read exactly.** -/
theorem control_numbers_exact :
    (∀ (type : List UInt8) (inner : Blank) (ms : List Member), Flat type ms → Integers ms →
      parseControlMessage (object inner ms) = some (message type (given ms))) ∧
    ∀ t mt : Int64, |t.toInt| ≤ 2 ^ 53 → |mt.toInt| ≤ 2 ^ 53 →
      parseControlMessage (buildPong t mt) = some
        { ControlMessage.empty with
          type := .pong
          typeString := ascii "pong"
          t := .finite t.toInt
          hasT := true
          mt := .finite mt.toInt
          hasMt := true } := by
  exact ⟨fun type inner ms h hint => parse_flat h hint inner, fun t mt => parse_buildPong⟩

/-- A tab and a space. -/
def gap : Blank := ⟨[9, 32], by simp⟩

/-- `"load":0.5` and, with gaps, `"pending":30e-1` and `"type":"ping"`. -/
def gappedPing : List Member :=
  [member (word (ascii "load") (by decide)) (.number ⟨false, 0, some ⟨5, []⟩, none⟩),
    ⟨gap, word (ascii "pending") (by decide), gap, gap,
      .number ⟨false, 30, none, some ⟨false, some true, ⟨1, []⟩⟩⟩, gap⟩,
    ⟨gap, word (ascii "type") plain_type, gap, gap,
      .string (word (ascii "ping") (by decide)), gap⟩]

theorem flat_gappedPing : Flat (ascii "ping") gappedPing := by
  refine ⟨by decide, by decide, ⟨_, List.mem_cons_of_mem _ (List.mem_cons_of_mem _
    List.mem_cons_self), raw_word _ _, _, rfl, raw_word _ _⟩, by decide, fun m hm hkey => ?_⟩
  simp only [gappedPing, List.mem_cons, List.not_mem_nil, or_false] at hm
  obtain rfl | rfl | rfl := hm
  · exact ⟨_, rfl⟩
  · exact ⟨_, rfl⟩
  · exact absurd (raw_word _ _) hkey

theorem integers_gappedPing : Integers gappedPing := by
  constructor
  · have hnone : ∀ q ∈ doubleKeys, given gappedPing q = none := by decide
    intro q hq v hv
    rw [hnone q hq] at hv
    cases hv
  · have hthree : ∀ q ∈ intKeys, given gappedPing q = none ∨ given gappedPing q = some 3 := by
      decide +kernel
    intro q hq v hv
    rcases hthree q hq with h | h
    · rw [h] at hv
      cases hv
    · exact ⟨3, (Option.some_inj.1 (h.symm.trans hv)).symm, by norm_num⟩

theorem control_numbers_exact_gappedPing :
    parseControlMessage (object gap gappedPing) = some (message (ascii "ping") (given gappedPing)) ∧
      (message (ascii "ping") (given gappedPing)).pending = 3 ∧
      (parseControlMessage (buildPong 7 (-9007199254740992))).isSome = true :=
  ⟨control_numbers_exact.1 _ gap gappedPing flat_gappedPing integers_gappedPing, by decide +kernel, by
    rw [control_numbers_exact.2 7 (-9007199254740992) (by decide) (by decide)]
    rfl⟩

end OpenDisplay.Protocol.ControlNumbers
