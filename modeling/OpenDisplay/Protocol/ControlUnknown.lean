import OpenDisplay.Protocol.AnnexB
import OpenDisplay.Protocol.Control

/-! # Unknown fields

Unknown fields are ignored where the searches for the queried keys do not get into the inserted
member, which is what `Clear` says. They do if the member shows a queried key that no member in front
of it shows: a string value that is equal to a queried key is enough, unless the member with that key
comes next. -/

namespace OpenDisplay.Protocol.ControlUnknown

open OpenDisplay.Lib.Binary64 OpenDisplay.Lib.FlatJson OpenDisplay.Lib.Text
open OpenDisplay.Protocol.AnnexB (isBlank isNumberChar stoll parseTelemetry)
open OpenDisplay.Protocol.Control

/-! ## Texts that the readers cannot tell apart -/

/-- The telemetry's `FindNumber` from the text behind the colon. -/
def readTelemetry (s : List UInt8) : ℤ :=
  let num := (s.dropWhile isBlank).takeWhile isNumberChar
  if num = [] then -1 else (stoll num).getD (-1)

variable {json json' key : List UInt8} {s s' : List UInt8}

theorem findTelemetry_eq :
    AnnexB.findNumber json key = ((fieldText key json).map readTelemetry).getD (-1) := by
  rw [fieldText_eq]
  unfold AnnexB.findNumber colonEnd needle
  dsimp only
  cases findFrom (34 :: key ++ [34]) json 0 with
  | none => rfl
  | some pos =>
    dsimp only [Option.bind_some]
    cases findFrom [58] json (pos + (34 :: key ++ [34]).length) with
    | none => rfl
    | some pos => rfl

theorem dropWhile_scalar {p : UInt8 → Bool} {w : Blank} {t : List UInt8} (x : List UInt8)
    (hblank : ∀ b ∈ w.text, p b = true) (ht : t ≠ [] ∧ ∀ b ∈ t, IsNumeralChar b)
    (hp : ∀ b, IsNumeralChar b → p b = false) : (w.text ++ (t ++ x)).dropWhile p = t ++ x := by
  obtain ⟨c, l, rfl⟩ := List.exists_cons_of_ne_nil ht.1
  rw [List.dropWhile_append_of_pos hblank, List.cons_append,
    List.dropWhile_cons_of_neg (by simp [hp c (ht.2 c (by simp))])]

theorem isSpace_blank (w : Blank) : ∀ b ∈ w.text, isSpace b = true := w.forall (by decide)

theorem isBlank_blank (w : Blank) : ∀ b ∈ w.text, isBlank b = true := w.forall (by decide)

theorem not_isSpace_of_isNumeralChar (b : UInt8) (h : IsNumeralChar b) : isSpace b = false := by
  have hb := h.lt_toNat
  rw [Bool.eq_false_iff]
  intro hspace
  simp only [isSpace, Bool.or_eq_true, beq_iff_eq, decide_eq_true_eq] at hspace
  rcases hspace with rfl | hspace
  · exact absurd hb (by decide)
  · omega

theorem not_isBlank_of_isNumeralChar (b : UInt8) (h : IsNumeralChar b) : isBlank b = false := by
  have hb := h.lt_toNat
  rw [Bool.eq_false_iff]
  intro hblank
  simp only [isBlank, Bool.or_eq_true, beq_iff_eq] at hblank
  rcases hblank with ((rfl | rfl) | rfl) | rfl <;> exact absurd hb (by decide)

theorem not_isNumberChar_of_stops (h : Stops s) : ∀ b ∈ s.head?, isNumberChar b = false := by
  intro b hb
  rw [Bool.eq_false_iff]
  intro hnumber
  simp only [isNumberChar, Bool.or_eq_true, beq_iff_eq, decide_eq_true_eq] at hnumber
  rcases hnumber with rfl | hdigit
  · exact h 45 hb (by decide)
  · exact h b hb (isNumeralChar_of_isDigit hdigit)

/-- A string ends at its first quote. -/
theorem take_find_quote (x : List UInt8) : ∀ u : List UInt8,
    (find [34] (u ++ 34 :: x)).map (fun i => (u ++ 34 :: x).take i) =
      some (u.takeWhile fun b => decide (b ≠ 34))
  | [] => by
    rw [List.nil_append, find_of_prefix (List.cons_prefix_cons.2 ⟨rfl, List.nil_prefix⟩)]
    rfl
  | c :: u => by
    have ih := take_find_quote x u
    by_cases hc : c = 34
    · subst hc
      rw [List.cons_append, find_of_prefix (List.cons_prefix_cons.2 ⟨rfl, List.nil_prefix⟩)]
      simp
    · obtain ⟨i, hi, htake⟩ := Option.map_eq_some_iff.1 ih
      have hfind := find_append_of_forall_ne (y := (34 : UInt8)) [] [c] (u ++ 34 :: x)
        (by simpa using hc)
      rw [List.singleton_append, hi] at hfind
      rw [List.cons_append, hfind]
      simpa [hc] using htake

theorem stops_quote (x : List UInt8) : Stops (34 :: x) := by
  rintro b ⟨⟩
  decide

theorem readString_congr (h : Agree s s') : readString s = readString s' := by
  unfold readString
  cases h with
  | refl => rfl
  | scalar w ht hx hy =>
    rw [dropWhile_scalar _ (isSpace_blank w) ht not_isSpace_of_isNumeralChar,
      dropWhile_scalar _ (isSpace_blank w) ht not_isSpace_of_isNumeralChar]
    obtain ⟨c, l, rfl⟩ := List.exists_cons_of_ne_nil ht.1
    have hc : c ≠ 34 := IsNumeralChar.ne (ht.2 c (by simp)) (by decide)
    rw [List.cons_append, List.cons_append, stepOver, stepOver, if_neg hc, if_neg hc]
  | quotes a b x y =>
    rw [dropWhile_append_of_head a (by rintro b ⟨⟩; decide),
      dropWhile_append_of_head a (by rintro b ⟨⟩; decide)]
    -- the string starts at the first of the two quotes, or in front of it
    cases a.dropWhile isSpace with
    | nil =>
      rw [List.nil_append, List.nil_append, stepOver, stepOver, if_pos rfl, if_pos rfl,
        Option.bind_some, Option.bind_some, take_find_quote, take_find_quote]
    | cons c u =>
      rw [List.cons_append, List.cons_append, stepOver, stepOver]
      split
      · rw [Option.bind_some, Option.bind_some, take_find_quote, take_find_quote]
      · rfl

theorem readNumber_congr (h : Agree s s') : readNumber s = readNumber s' := by
  unfold readNumber
  cases h with
  | refl => rfl
  | scalar w ht hx hy =>
    rw [dropWhile_scalar _ (isSpace_blank w) ht not_isSpace_of_isNumeralChar,
      dropWhile_scalar _ (isSpace_blank w) ht not_isSpace_of_isNumeralChar,
      if_neg (by simp [ht.1]), if_neg (by simp [ht.1]), fromChars_append hx, fromChars_append hy]
  | quotes a b x y =>
    rw [dropWhile_append_of_head a (by rintro b ⟨⟩; decide),
      dropWhile_append_of_head a (by rintro b ⟨⟩; decide), if_neg (by simp), if_neg (by simp),
      fromChars_append (stops_quote _), fromChars_append (stops_quote _)]

theorem readTelemetry_congr (h : Agree s s') : readTelemetry s = readTelemetry s' := by
  unfold readTelemetry
  cases h with
  | refl => rfl
  | scalar w ht hx hy =>
    rw [dropWhile_scalar _ (isBlank_blank w) ht not_isBlank_of_isNumeralChar,
      dropWhile_scalar _ (isBlank_blank w) ht not_isBlank_of_isNumeralChar,
      takeWhile_append_of_head _ (not_isNumberChar_of_stops hx),
      takeWhile_append_of_head _ (not_isNumberChar_of_stops hy)]
  | quotes a b x y =>
    rw [dropWhile_append_of_head a (by rintro b ⟨⟩; decide),
      dropWhile_append_of_head a (by rintro b ⟨⟩; decide),
      takeWhile_append_of_head _ (not_isNumberChar_of_stops (stops_quote _)),
      takeWhile_append_of_head _ (not_isNumberChar_of_stops (stops_quote _))]

/-! ## The lookups of a message -/

/-- The same values for the key, whichever kind is asked for. -/
def SameLookups (json json' key : List UInt8) : Prop :=
  findString json key = findString json' key ∧ findNumber json key = findNumber json' key

theorem SameLookups.findInt (h : SameLookups json json' key) :
    findInt json key = findInt json' key := by
  rw [findInt_eq, findInt_eq, h.2]

theorem bind_congr_of_rel {α : Type} {o o' : Option (List UInt8)} (h : Option.Rel Agree o o')
    {read : List UInt8 → Option α} (hread : ∀ s s', Agree s s' → read s = read s') :
    o.bind read = o'.bind read := by
  cases h with
  | some h => exact hread _ _ h
  | none => rfl

theorem sameLookups_of_rel (h : Option.Rel Agree (fieldText key json) (fieldText key json')) :
    SameLookups json json' key := by
  constructor
  · rw [findString_eq, findString_eq]
    exact bind_congr_of_rel h fun _ _ => readString_congr
  · rw [findNumber_eq, findNumber_eq]
    exact bind_congr_of_rel h fun _ _ => readNumber_congr

theorem findTelemetry_congr (h : Option.Rel Agree (fieldText key json) (fieldText key json')) :
    AnnexB.findNumber json key = AnnexB.findNumber json' key := by
  rw [findTelemetry_eq, findTelemetry_eq]
  generalize fieldText key json = o at h ⊢
  generalize fieldText key json' = o' at h ⊢
  cases h with
  | some h => exact readTelemetry_congr h
  | none => rfl

/-- The keys that are looked up for a kind of message. -/
def queried : ControlType → List (List UInt8)
  | .pong => [ascii "t", ascii "mt"]
  | .ping => [ascii "drops", ascii "pending", ascii "capFps"]
  | .welcome => [ascii "pv", ascii "min"]
  | .updateRequired => [ascii "target", ascii "store", ascii "message"]
  | .streamConfig => [ascii "codec", ascii "width", ascii "height", ascii "framesPerSecond"]
  | .cursor => []
  | .cursorImg => []
  | .unknown => []

theorem isLetter_queried : ∀ type, ∀ q ∈ queried type, ∀ b ∈ q, IsLetter b := by
  intro type
  cases type <;> decide

/-- `readFields` depends on the text through the lookups of the queried keys. -/
theorem readFields_congr {msg : ControlMessage}
    (h : ∀ q ∈ queried msg.type, SameLookups json json' q) :
    readFields json msg = readFields json' msg := by
  unfold readFields
  cases htype : msg.type with
  | pong =>
    simp only [htype, queried, List.forall_mem_cons] at h
    obtain ⟨ht, hmt, -⟩ := h
    simp only [ht.2, hmt.2]
  | ping =>
    simp only [htype, queried, List.forall_mem_cons] at h
    obtain ⟨hdrops, hpending, hcap, -⟩ := h
    simp only [hdrops.findInt, hpending.findInt, hcap.2]
  | welcome =>
    simp only [htype, queried, List.forall_mem_cons] at h
    obtain ⟨hpv, hmin, -⟩ := h
    simp only [hpv.findInt, hmin.findInt]
  | updateRequired =>
    simp only [htype, queried, List.forall_mem_cons] at h
    obtain ⟨htarget, hstore, hmessage, -⟩ := h
    simp only [htarget.1, hstore.1, hmessage.1]
  | streamConfig =>
    simp only [htype, queried, List.forall_mem_cons] at h
    obtain ⟨hcodec, hwidth, hheight, hfps, -⟩ := h
    simp only [hcodec.1, hwidth.findInt, hheight.findInt, hfps.findInt]
  | cursor => rfl
  | cursorImg => rfl
  | unknown => rfl

theorem type_readFields (json : List UInt8) (msg : ControlMessage) :
    (readFields json msg).type = msg.type := by
  unfold readFields
  cases htype : msg.type <;> simp [htype]

/-! ## The law -/

theorem head?_object (inner : Blank) (ms : List Member) : (object inner ms).head? = some 123 := by
  cases ms <;> rfl

theorem textBefore_eq (m : Member) : ∃ l, ∀ rest, m.textBefore rest = l ++ rest := by
  refine ⟨m.lead.text ++ (quoted m.key ++ (m.afterKey.text ++ 58 ::
    (m.beforeValue.text ++ (m.value.text ++ m.trail.text)))), fun rest => ?_⟩
  simp [Member.textBefore, Member.behindColon]

theorem getLast?_closing : ∀ ms : List Member, (closing ms).getLast? = some 125
  | [] => rfl
  | m :: ms => by
    obtain ⟨l, hl⟩ := textBefore_eq m
    rw [closing, hl, ← List.cons_append, List.getLast?_append, getLast?_closing ms]
    rfl

theorem getLast?_object (inner : Blank) (ms : List Member) :
    (object inner ms).getLast? = some 125 := by
  cases ms with
  | nil =>
    rw [object, ← List.cons_append, List.getLast?_append]
    rfl
  | cons m ms =>
    obtain ⟨l, hl⟩ := textBefore_eq m
    rw [object, hl, ← List.append_assoc, ← List.cons_append, List.getLast?_append,
      getLast?_closing ms]
    rfl

theorem parseControlMessage_congr {msg : ControlMessage} (hhead : json'.head? = some 123)
    (hlast : json'.getLast? = some 125) (hmsg : parseControlMessage json = some msg)
    (h : ∀ q ∈ ascii "type" :: queried msg.type, SameLookups json json' q) :
    parseControlMessage json' = some msg := by
  unfold parseControlMessage at hmsg ⊢
  rw [if_neg (by simp [hhead, hlast])]
  split at hmsg
  · simp at hmsg
  · have htype : findString json (ascii "type") = findString json' (ascii "type") :=
      (h _ (by simp)).1
    rw [← htype]
    cases hfind : findString json (ascii "type") with
    | none => simp [hfind] at hmsg
    | some type =>
      rw [hfind] at hmsg
      obtain rfl := Option.some.inj hmsg
      rw [type_readFields] at h
      refine congrArg some (readFields_congr fun q hq => ?_).symm
      exact h q (List.mem_cons_of_mem _ hq)

/-- **Unknown fields are ignored where the lookups are clear of them.** -/
theorem unknown_fields_ignored (inner : Blank) (pre post : List Member) (m : Member) :
    (∀ msg, parseControlMessage (object inner (pre ++ post)) = some msg →
      (∀ q ∈ ascii "type" :: queried msg.type, Clear q m post pre) →
      parseControlMessage (object inner (pre ++ m :: post)) = some msg) ∧
    ((∀ q ∈ [ascii "cap", ascii "snd"], Clear q m post pre) →
      parseTelemetry (object inner (pre ++ m :: post)) =
        parseTelemetry (object inner (pre ++ post))) := by
  constructor
  · intro msg hmsg hclear
    refine parseControlMessage_congr (head?_object _ _) (getLast?_object _ _) hmsg ?_
    intro q hq
    have hletters : ∀ b ∈ q, IsLetter b := by
      rcases List.mem_cons.1 hq with rfl | hq
      · decide
      · exact isLetter_queried msg.type q hq
    exact sameLookups_of_rel (agree_fieldText_insert hletters inner (hclear q hq))
  · intro hclear
    have hne : ∀ ms, object inner ms ≠ [] := by
      intro ms h
      simpa [h] using head?_object inner ms
    have hcap : Clear (ascii "cap") m post pre := hclear _ (by simp)
    have hsnd : Clear (ascii "snd") m post pre := hclear _ (by simp)
    unfold parseTelemetry
    rw [if_neg (hne _), if_neg (hne _),
      findTelemetry_congr (agree_fieldText_insert (by decide) inner hcap),
      findTelemetry_congr (agree_fieldText_insert (by decide) inner hsnd)]

/-! ## Two insertions -/

/-- A string without escapes. -/
def word (l : List UInt8) (h : ∀ b ∈ l, b ≠ 34 ∧ b ≠ 92 ∧ 32 ≤ b.toNat) : List Piece :=
  l.pmap Piece.char h

def noBlank : Blank := ⟨[], by simp⟩

/-- A member without blanks. -/
def member (key : List Piece) (value : Value) : Member :=
  ⟨noBlank, key, noBlank, noBlank, value, noBlank⟩

/-- `"type":"updateRequired"`. -/
def updateType : Member :=
  member (word (ascii "type") (by decide))
    (.string (word (ascii "updateRequired") (by decide)))

/-- `"target":"1"`. -/
def updateTarget : Member :=
  member (word (ascii "target") (by decide))
    (.string (word (ascii "1") (by decide)))

/-- `"x":"target"`. -/
def xTarget : Member :=
  member (word (ascii "x") (by decide))
    (.string (word (ascii "target") (by decide)))

/-- `"cap":5`. -/
def capFive : Member :=
  member (word (ascii "cap") (by decide)) (.number ⟨false, 5, none, none⟩)

def updateMessage : ControlMessage :=
  { ControlMessage.empty with
    type := .updateRequired, typeString := ascii "updateRequired", target := ascii "1" }

theorem parse_updateMessage :
    parseControlMessage (object noBlank [updateType, updateTarget]) = some updateMessage := by
  decide

/-- Behind the target, a value that is equal to its key is not met. -/
theorem unknown_fields_ignored_behindTarget :
    parseControlMessage (object noBlank [updateType, updateTarget, xTarget]) =
        some updateMessage ∧
      parseTelemetry (object noBlank [xTarget, capFive]) =
        parseTelemetry (object noBlank [capFive]) :=
  ⟨(unknown_fields_ignored noBlank [updateType, updateTarget] [] xTarget).1 updateMessage
      parse_updateMessage (by decide),
    (unknown_fields_ignored noBlank [] [capFive] xTarget).2 (by decide)⟩

/-- **A value that is equal to a queried key.**  In front of the type it is taken for the key, and
the target becomes the value of the next member. -/
theorem xTarget_changes_target :
    parseControlMessage (object noBlank [updateType, updateTarget]) = some updateMessage ∧
      raw xTarget.key ∉ ascii "type" :: queried updateMessage.type ∧
      parseControlMessage (object noBlank [xTarget, updateType, updateTarget]) =
        some { updateMessage with target := ascii "updateRequired" } := by
  decide

end OpenDisplay.Protocol.ControlUnknown
