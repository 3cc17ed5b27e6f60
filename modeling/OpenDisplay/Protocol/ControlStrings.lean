import Mathlib.Data.List.Nodup
import OpenDisplay.Lib.JsonString
import OpenDisplay.Protocol.ControlUnknown

/-! # The strings of `updateRequired`

`FindString` returns a string as it is written, up to its first quote, and the search for a name may
stop at a value. So the strings of an `updateRequired` arrive as they were meant where each search comes
to a name whose value has no escapes, or to its string by chance (`survives_iff`). In the displayed
order, with names without escapes, they arrive where no string has an escape (`survives_iff_bare`). -/

namespace OpenDisplay.Protocol.ControlStrings

open OpenDisplay.Lib.Binary64 (stepOver)
open OpenDisplay.Lib.FlatJson OpenDisplay.Lib.Text
open OpenDisplay.Lib.JsonString hiding readString
open OpenDisplay.Protocol.Control
open OpenDisplay.Protocol.ControlUnknown (noBlank member head?_object getLast?_object take_find_quote type_readFields)

/-! ## The text of an object of strings -/

/-- A name and a value, each with the way it is written. -/
abbrev Entry := List Code × List Code

def Entry.chars (m : Entry) : List Char :=
  '"' :: (source m.1 ++ '"' :: ':' :: '"' :: (source m.2 ++ ['"']))

/-- The entries behind the first one, and the brace. -/
def closingSource : List Entry → List Char
  | [] => ['\x7d']
  | m :: ms => ',' :: (m.chars ++ closingSource ms)

/-- An object without whitespace outside its strings. -/
def objectSource : List Entry → List Char
  | [] => ['\x7b', '\x7d']
  | m :: ms => '\x7b' :: (m.chars ++ closingSource ms)

/-- The members of an `updateRequired`. -/
def updateFields (target store message : List Char) : List (List Char × List Char) :=
  [("type".toList, "updateRequired".toList), ("target".toList, target), ("store".toList, store),
    ("message".toList, message)]

/-- A legal encoding of an `updateRequired` with its three strings: the four members in any order,
their names and values written with any codes. -/
structure UpdateRequired where
  target : List Char
  store : List Char
  message : List Char
  entries : List Entry
  ok : (entries.map fun m => (text m.1, text m.2)).Perm (updateFields target store message)

/-- The bytes of its text. -/
def UpdateRequired.json (u : UpdateRequired) : List UInt8 := utf8 (objectSource u.entries)

/-- The strings that `ParseControlMessage` returns are the UTF-8 of those that were encoded. -/
def Survives (u : UpdateRequired) : Prop :=
  ∃ msg, parseControlMessage u.json = some msg ∧ msg.type = .updateRequired ∧
    msg.target = utf8 u.target ∧ msg.store = utf8 u.store ∧ msg.message = utf8 u.message

/-! ## What the searches come to -/

/-- The bytes of a string as it is written. -/
def written (codes : List Code) : List UInt8 := utf8 (source codes)

/-- The string is written as `q`, or it ends in an escaped quote and `q`. -/
def Displays (q : List Char) (codes : List Code) : Prop := '"' :: q <:+ '"' :: source codes

instance (q : List Char) (codes : List Code) : Decidable (Displays q codes) := by
  unfold Displays
  infer_instance

/-- A search that stopped at a value goes on to the next value, and reads it up to its first quote. -/
def ByChance (s : List Char) : List Entry → Prop
  | [] => s = []
  | n :: _ => upToQuote n.2 = s

/-- The first string that displays `q` is a name and its value has no escapes, or it is a value and `s`
is what is read by chance. Where nothing displays `q`, `s` is empty. -/
def Comes (q s : List Char) : List Entry → Prop
  | [] => s = []
  | m :: ms =>
    if Displays q m.1 then Bare m.2
    else if Displays q m.2 then ByChance s ms
    else Comes q s ms

/-- The search for each name comes to its string. -/
def Legible (u : UpdateRequired) : Prop :=
  ∀ field ∈ updateFields u.target u.store u.message, Comes field.1 field.2 u.entries

/-! ## Codes as pieces -/

variable {q : List Char} {c : Char} {ds : List Char}

theorem plain_bytes (h : c ≠ '"' ∧ c ≠ '\\' ∧ 32 ≤ c.toNat) :
    ∀ b ∈ String.utf8EncodeChar c, b ≠ 34 ∧ b ≠ 92 ∧ 32 ≤ b.toNat := by
  have hquote : ('"' : Char).toNat < 128 := by decide
  have hslash : ('\\' : Char).toNat < 128 := by decide
  intro b hb
  refine ⟨ne_byte_of_mem hquote h.1 b hb, ne_byte_of_mem hslash h.2.1 b hb, ?_⟩
  rcases Nat.lt_or_ge c.toNat 128 with hlt | hge
  · rw [utf8EncodeChar_ascii hlt, List.mem_singleton] at hb
    obtain rfl : b = byte c := hb
    rw [toNat_byte hlt]
    exact h.2.2
  · have := le_of_mem_utf8EncodeChar hge b hb
    omega

theorem escape_byte {x : Char} (h : shortEscape x = some c) :
    byte x ∈ ([34, 92, 47, 98, 102, 110, 114, 116] : List UInt8) ∧ x.toNat < 128 := by
  unfold shortEscape at h
  split at h
  all_goals first | decide | cases h

theorem hexDigit_byte {n : ℕ} (h : hexDigit c = some n) : IsHexDigit (byte c) ∧ c.toNat < 128 := by
  have hlt : c.toNat < 128 := by
    unfold hexDigit at h
    split_ifs at h <;> omega
  refine ⟨?_, hlt⟩
  unfold IsHexDigit IsDigit
  rw [toNat_byte hlt]
  unfold hexDigit at h
  split_ifs at h <;> omega

theorem hex4_bytes {n : ℕ} (h : hex4 ds = some n) :
    ((ds.map byte).length = 4 ∧ ∀ b ∈ ds.map byte, IsHexDigit b) ∧ utf8 ds = ds.map byte := by
  unfold hex4 at h
  split at h
  · next a b c d =>
    simp only [Option.bind_eq_bind, Option.bind_eq_some_iff] at h
    obtain ⟨m, ha, n, hb, o, hc, p, hd, -⟩ := h
    have ha := hexDigit_byte ha
    have hb := hexDigit_byte hb
    have hc := hexDigit_byte hc
    have hd := hexDigit_byte hd
    refine ⟨⟨rfl, ?_⟩, ?_⟩
    · simp only [List.map_cons, List.map_nil, List.forall_mem_cons, List.not_mem_nil, false_imp_iff,
        implies_true, and_true]
      exact ⟨ha.1, hb.1, hc.1, hd.1⟩
    · rw [utf8_cons_ascii ha.2, utf8_cons_ascii hb.2, utf8_cons_ascii hc.2, utf8_cons_ascii hd.2]
      rfl
  · cases h

/-- A code in bytes. -/
def pieces : Code → List Piece
  | .plain c h => (String.utf8EncodeChar c).pmap Piece.char (plain_bytes h)
  | .short x _ h => [.escape (byte x) (escape_byte h).1]
  | .unit _ ds h => [.unicode (ds.map byte) (hex4_bytes h).1]
  | .pair _ hi lo h =>
    [.unicode (hi.map byte) (hex4_bytes h.choose_spec.2.choose_spec.2.1).1,
      .unicode (lo.map byte) (hex4_bytes h.choose_spec.2.choose_spec.2.2.1).1]

theorem raw_char (l : List UInt8) (h : ∀ b ∈ l, b ≠ 34 ∧ b ≠ 92 ∧ 32 ≤ b.toNat) :
    raw (l.pmap Piece.char h) = l := by
  induction l with
  | nil => rfl
  | cons b l ih =>
    have hrest := ih fun c hc => h c (List.mem_cons_of_mem _ hc)
    unfold raw at hrest ⊢
    rw [List.pmap_cons, List.flatMap_cons, hrest]
    rfl

theorem utf8_escape (cs : List Char) : utf8 ('\\' :: cs) = 92 :: utf8 cs :=
  utf8_cons_ascii (by decide) cs

theorem utf8_unicode (hds : utf8 ds = ds.map byte) (cs : List Char) :
    utf8 ('\\' :: 'u' :: (ds ++ cs)) = 92 :: 117 :: (ds.map byte ++ utf8 cs) := by
  rw [utf8_escape, utf8_cons_ascii (by decide), utf8_append, hds]
  rfl

theorem raw_pieces (code : Code) : raw (pieces code) = utf8 code.source := by
  cases code with
  | plain c h =>
    rw [pieces, raw_char]
    simp [utf8, Code.source]
  | short x c h =>
    rw [Code.source, utf8_escape, utf8_cons_ascii (escape_byte h).2]
    rfl
  | unit c ds h =>
    have hread := utf8_unicode (hex4_bytes h).2 []
    rw [List.append_nil] at hread
    rw [Code.source, hread]
    simp [pieces, raw, Piece.text, utf8]
  | pair c hi lo h =>
    have hlo := utf8_unicode (hex4_bytes h.choose_spec.2.choose_spec.2.2.1).2 []
    rw [List.append_nil] at hlo
    rw [Code.source, utf8_unicode (hex4_bytes h.choose_spec.2.choose_spec.2.1).2, hlo]
    simp [pieces, raw, Piece.text, utf8]

/-- A string in bytes. -/
def stringPieces (codes : List Code) : List Piece := codes.flatMap pieces

theorem raw_stringPieces (codes : List Code) : raw (stringPieces codes) = written codes := by
  unfold stringPieces written source
  induction codes with
  | nil => rfl
  | cons code codes ih =>
    have hraw : ∀ s t : List Piece, raw (s ++ t) = raw s ++ raw t := fun _ _ => List.flatMap_append
    rw [List.flatMap_cons, List.flatMap_cons, hraw, ih, utf8_append, raw_pieces]

/-! ## The text as a flat object -/

/-- An entry as a member without blanks. -/
def Entry.toMember (m : Entry) : Member :=
  member (stringPieces m.1) (.string (stringPieces m.2))

theorem utf8_quote (cs : List Char) : utf8 ('"' :: cs) = 34 :: utf8 cs :=
  utf8_cons_ascii (by decide) cs

theorem utf8_chars (m : Entry) (cs : List Char) :
    utf8 (m.chars ++ cs) = m.toMember.textBefore (utf8 cs) := by
  have hcolon : ∀ ds : List Char, utf8 (':' :: ds) = 58 :: utf8 ds := utf8_cons_ascii (by decide)
  have hkey : raw (stringPieces m.1) = utf8 (source m.1) := raw_stringPieces m.1
  have hvalue : raw (stringPieces m.2) = utf8 (source m.2) := raw_stringPieces m.2
  simp [Entry.chars, utf8_quote, utf8_append, hcolon, Entry.toMember, member, noBlank,
    Member.textBefore, Member.behindColon, quoted, Value.text, hkey, hvalue]

theorem utf8_closingSource (ms : List Entry) :
    utf8 (closingSource ms) = closing (ms.map Entry.toMember) := by
  induction ms with
  | nil => rfl
  | cons m ms ih =>
    have hcomma : ∀ ds : List Char, utf8 (',' :: ds) = 44 :: utf8 ds := utf8_cons_ascii (by decide)
    rw [closingSource, hcomma, utf8_chars, ih]
    rfl

theorem utf8_objectSource (ms : List Entry) :
    utf8 (objectSource ms) = object noBlank (ms.map Entry.toMember) := by
  cases ms with
  | nil => rfl
  | cons m ms =>
    have hbrace : ∀ ds : List Char, utf8 ('\x7b' :: ds) = 123 :: utf8 ds :=
      utf8_cons_ascii (by decide)
    rw [objectSource, hbrace, utf8_chars, utf8_closingSource]
    rfl

/-! ## The searches -/

theorem shows_iff {codes : List Code} : Shows (utf8 q) (stringPieces codes) ↔ Displays q codes := by
  unfold Shows Displays
  have hquote : ('"' : Char).toNat < 128 := by decide
  rw [raw_stringPieces, written, ← utf8_quote (source codes)]
  exact suffix_utf8_iff hquote q _

theorem readString_toMember (m : Entry) (rest : List UInt8) :
    readString (m.toMember.behindColon rest) = some (utf8 (upToQuote m.2)) := by
  have htext : m.toMember.behindColon rest = 34 :: (written m.2 ++ 34 :: rest) := by
    simp [Entry.toMember, member, noBlank, Member.behindColon, quoted, Value.text, raw_stringPieces]
  have hspace : ¬isSpace 34 = true := by decide
  unfold readString
  rw [htext, List.dropWhile_cons_of_neg hspace, stepOver, if_pos rfl, Option.bind_some,
    take_find_quote]
  have hquote : ('"' : Char).toNat < 128 := by decide
  exact congrArg some (takeWhile_utf8 hquote _)

/-- What a search for `q` comes to. -/
def sought (q : List Char) : List Entry → Option (List Char)
  | [] => none
  | m :: ms =>
    if Displays q m.1 then some (upToQuote m.2)
    else if Displays q m.2 then ms.head?.map fun n => upToQuote n.2
    else sought q ms

theorem colon_notMem_key {m : Entry} (h : ':' ∉ text m.1) : 58 ∉ raw m.toMember.key := by
  have hraw : raw m.toMember.key = utf8 (source m.1) := raw_stringPieces m.1
  have hcolon : (':' : Char).toNat < 128 := by decide
  rw [hraw]
  exact fun hmem => h (colon_mem_text ((mem_utf8_iff hcolon).1 hmem))

theorem fieldClosing_entries (hq : ∀ b ∈ utf8 q, IsLetter b) : ∀ ms : List Entry,
    (∀ m ∈ ms, ':' ∉ text m.1) →
      (fieldClosing (utf8 q) (ms.map Entry.toMember)).bind readString = (sought q ms).map utf8
  | [], _ => by
    rw [List.map_nil, fieldClosing_nil]
    rfl
  | m :: ms, hnames => by
    have ih := fieldClosing_entries hq ms fun n hn => hnames n (List.mem_cons_of_mem _ hn)
    have hkey : Shows (utf8 q) m.toMember.key ↔ Displays q m.1 := shows_iff
    have hvalue : m.toMember.value.Shows (utf8 q) ↔ Displays q m.2 := shows_iff
    rw [List.map_cons, fieldClosing_cons hq, if_congr hkey rfl (if_congr hvalue rfl rfl), sought]
    split
    · exact readString_toMember m _
    · split
      · cases ms with
        | nil => rfl
        | cons n ms =>
          have hn := colon_notMem_key (hnames n (by simp))
          rw [List.map_cons, behind_colon_closing_of_notMem hn]
          exact readString_toMember n _
      · exact ih

theorem findString_entries (hq : ∀ b ∈ utf8 q, IsLetter b) {ms : List Entry}
    (hnames : ∀ m ∈ ms, ':' ∉ text m.1) :
    findString (utf8 (objectSource ms)) (utf8 q) = (sought q ms).map utf8 := by
  rw [findString_eq, utf8_objectSource, fieldText_object]
  exact fieldClosing_entries hq ms hnames

/-! ## The law -/

theorem text_name {codes : List Code} (hq : '\\' ∉ q) (hquote : '"' ∉ text codes)
    (h : Displays q codes) : text codes = q := by
  unfold Displays at h
  rw [List.suffix_cons_iff, List.cons.injEq] at h
  rcases h with ⟨-, rfl⟩ | h
  · exact (bare_iff.1 (bare_of_slash_notMem hq)).symm
  · exact absurd (quote_mem_text (h.subset (by simp))) hquote

theorem comes_iff {s : List Char} (hq : '\\' ∉ q) : ∀ ms : List Entry,
    (∀ m ∈ ms, '"' ∉ text m.1 ∧ (text m.1 = q → text m.2 = s)) →
      ((sought q ms).getD [] = s ↔ Comes q s ms)
  | [], _ => eq_comm
  | m :: ms, h => by
    have ih := comes_iff hq ms fun n hn => h n (List.mem_cons_of_mem _ hn)
    obtain ⟨hquote, hvalue⟩ := h m (by simp)
    rw [sought, Comes]
    split
    · next hname =>
      rw [← hvalue (text_name hq hquote hname)]
      exact upToQuote_eq_text
    · split
      · cases ms with
        | nil => exact eq_comm
        | cons n ms => exact Iff.rfl
      · exact ih

section fields

variable {target store message : List Char} {f g : List Char × List Char}

/-- The names of the members. -/
def updateNames : List (List Char) :=
  ["type".toList, "target".toList, "store".toList, "message".toList]

theorem map_fst_updateFields : (updateFields target store message).map Prod.fst = updateNames := rfl

theorem value_of_name (hf : f ∈ updateFields target store message)
    (hg : g ∈ updateFields target store message) (h : f.1 = g.1) : f.2 = g.2 := by
  have hnodup : ((updateFields target store message).map Prod.fst).Nodup := by
    rw [map_fst_updateFields]
    decide
  exact congrArg Prod.snd (List.inj_on_of_nodup_map hnodup hf hg h)

theorem name_letters (hf : f ∈ updateFields target store message) :
    (∀ b ∈ utf8 f.1, IsLetter b) ∧ '"' ∉ f.1 ∧ '\\' ∉ f.1 ∧ ':' ∉ f.1 := by
  have hname : f.1 ∈ updateNames := by
    rw [← map_fst_updateFields]
    exact List.mem_map_of_mem hf
  have hnames : ∀ name ∈ updateNames,
      (∀ b ∈ utf8 name, IsLetter b) ∧ '"' ∉ name ∧ '\\' ∉ name ∧ ':' ∉ name := by
    decide
  exact hnames f.1 hname

end fields

theorem UpdateRequired.mem_fields (u : UpdateRequired) {m : Entry} (hm : m ∈ u.entries) :
    (text m.1, text m.2) ∈ updateFields u.target u.store u.message :=
  u.ok.mem_iff.1 (List.mem_map.2 ⟨m, hm, rfl⟩)

theorem findString_iff (u : UpdateRequired) {field : List Char × List Char}
    (hfield : field ∈ updateFields u.target u.store u.message) :
    (findString u.json (utf8 field.1)).getD [] = utf8 field.2 ↔
      Comes field.1 field.2 u.entries := by
  obtain ⟨hletters, -, hslash, -⟩ := name_letters hfield
  have hnames : ∀ m ∈ u.entries, '"' ∉ text m.1 ∧ (text m.1 = field.1 → text m.2 = field.2) := by
    intro m hm
    have hmem := u.mem_fields hm
    exact ⟨(name_letters hmem).2.1, value_of_name hmem hfield⟩
  have hcolon : ∀ m ∈ u.entries, ':' ∉ text m.1 :=
    fun m hm => (name_letters (u.mem_fields hm)).2.2.2
  have hfind := findString_entries hletters hcolon
  rw [UpdateRequired.json, hfind, ← comes_iff hslash _ hnames]
  cases sought field.1 u.entries with
  | none => exact ⟨fun h => utf8_inj h, congrArg utf8⟩
  | some found => exact ⟨fun h => utf8_inj h, congrArg utf8⟩

theorem controlType_updateRequired {type : List UInt8} :
    controlType type = .updateRequired ↔ type = ascii "updateRequired" := by
  constructor
  · intro h
    unfold controlType at h
    split_ifs at h
    assumption
  · rintro rfl
    decide

theorem survives_iff_findString (u : UpdateRequired) :
    Survives u ↔ ∀ field ∈ updateFields u.target u.store u.message,
      (findString u.json (utf8 field.1)).getD [] = utf8 field.2 := by
  have hends : ¬(u.json.head? ≠ some 123 ∨ u.json.getLast? ≠ some 125) := by
    unfold UpdateRequired.json
    rw [utf8_objectSource, head?_object, getLast?_object]
    decide
  have hparse : parseControlMessage u.json = (findString u.json (ascii "type")).map fun type =>
      readFields u.json { ControlMessage.empty with type := controlType type, typeString := type } := by
    unfold parseControlMessage
    rw [if_neg hends]
    cases findString u.json (ascii "type") <;> rfl
  have hname : utf8 "updateRequired".toList = ascii "updateRequired" := by decide
  simp only [updateFields, List.forall_mem_cons, List.not_mem_nil, false_imp_iff, implies_true,
    and_true]
  rw [hname]
  constructor
  · rintro ⟨msg, hmsg, htype, hfields⟩
    rw [hparse] at hmsg
    obtain ⟨type, hfind, rfl⟩ := Option.map_eq_some_iff.1 hmsg
    rw [type_readFields] at htype
    dsimp only at htype
    simp only [readFields, htype] at hfields
    refine ⟨?_, hfields⟩
    have hfind' : findString u.json (utf8 "type".toList) = some type := hfind
    rw [hfind']
    exact controlType_updateRequired.1 htype
  · rintro ⟨htype, hfields⟩
    have hfind : findString u.json (ascii "type") = some (ascii "updateRequired") := by
      have htype : (findString u.json (ascii "type")).getD [] = ascii "updateRequired" := htype
      cases hfind : findString u.json (ascii "type") with
      | none =>
        rw [hfind] at htype
        exact absurd htype (by decide)
      | some type =>
        rw [hfind] at htype
        exact congrArg some htype
    have hcontrol := controlType_updateRequired.2 rfl
    rw [hfind] at hparse
    refine ⟨_, hparse, ?_, ?_⟩
    · rw [type_readFields]
      exact hcontrol
    · simp only [readFields, hcontrol]
      exact hfields

/-- **What survives.** -/
theorem survives_iff (u : UpdateRequired) : Survives u ↔ Legible u := by
  rw [survives_iff_findString]
  exact forall₂_congr fun field hfield => findString_iff u hfield

/-! ## Names without escapes -/

theorem displays_bare {codes : List Code} (h : Bare codes) : Displays q codes ↔ text codes = q := by
  have hquote : ¬ '"' :: q <:+ source codes := fun hmem => h.quote_notMem (hmem.subset (by simp))
  unfold Displays
  rw [List.suffix_cons_iff, or_iff_left hquote, List.cons.injEq, bare_iff.1 h]
  exact (and_iff_right rfl).trans eq_comm

/-- **The displayed order.**  Where the names have no escapes, the strings survive if they have none
either; the message alone may have some, where the target is its name and the store is equal to it. -/
theorem survives_iff_bare (u : UpdateRequired) {t a s m : Entry} (hentries : u.entries = [t, a, s, m])
    (hnames : u.entries.map (fun e => text e.1) = updateNames) (hbare : ∀ e ∈ u.entries, Bare e.1) :
    Survives u ↔ Bare t.2 ∧ Bare a.2 ∧ Bare s.2 ∧
      (if u.target = "message".toList then u.store = u.message else Bare m.2) := by
  have hmem : ∀ e ∈ [t, a, s, m], (text e.1, text e.2) ∈ updateFields u.target u.store u.message :=
    fun e he => u.mem_fields (hentries ▸ he)
  rw [hentries] at hnames hbare
  simp only [List.map_cons, List.map_nil, updateNames, List.cons.injEq, and_true] at hnames
  obtain ⟨ht, ha, hs, hm⟩ := hnames
  simp only [List.forall_mem_cons, List.not_mem_nil, false_imp_iff, implies_true, and_true] at hbare
  obtain ⟨hbt, hba, hbs, hbm⟩ := hbare
  have hvalue : ∀ e ∈ [t, a, s, m], ∀ field ∈ updateFields u.target u.store u.message,
      text e.1 = field.1 → text e.2 = field.2 :=
    fun e he field hfield => value_of_name (hmem e he) hfield
  have htv : text t.2 = "updateRequired".toList := hvalue t (by simp) (_, _) (.head _) ht
  have hav : text a.2 = u.target := hvalue a (by simp) (_, _) (.tail _ (.head _)) ha
  have hsv : text s.2 = u.store := hvalue s (by simp) (_, _) (.tail _ (.tail _ (.head _))) hs
  have hmv : text m.2 = u.message := hvalue m (by simp) (_, _) (.tail _ (.tail _ (.tail _ (.head _)))) hm
  have hother : ∀ {codes : List Code} {p q : List Char}, Bare codes → text codes = p → p ≠ q →
      ¬Displays q codes := fun h hp hpq hq => hpq (hp.symm.trans ((displays_bare h).1 hq))
  rw [survives_iff]
  unfold Legible
  simp only [updateFields, hentries, List.forall_mem_cons, List.not_mem_nil, false_imp_iff,
    implies_true, and_true]
  -- the names before a name are others, and so is the type
  have htype : Comes "type".toList "updateRequired".toList [t, a, s, m] ↔ Bare t.2 := by
    rw [Comes, if_pos ((displays_bare hbt).2 ht)]
  rw [htype]
  refine and_congr_right fun hbtv => ?_
  have htarget : Comes "target".toList u.target [t, a, s, m] ↔ Bare a.2 := by
    rw [Comes, if_neg (hother hbt ht (by decide)), if_neg (hother hbtv htv (by decide)), Comes,
      if_pos ((displays_bare hba).2 ha)]
  rw [htarget]
  refine and_congr_right fun hbav => ?_
  have hstore : Comes "store".toList u.store [t, a, s, m] ↔ Bare s.2 := by
    rw [Comes, if_neg (hother hbt ht (by decide)), if_neg (hother hbtv htv (by decide)), Comes,
      if_neg (hother hba ha (by decide)), Comes, if_pos ((displays_bare hbs).2 hs), ByChance, ← hsv,
      upToQuote_eq_text, ite_self]
  rw [hstore]
  refine and_congr_right fun hbsv => ?_
  rw [Comes, if_neg (hother hbt ht (by decide)), if_neg (hother hbtv htv (by decide)), Comes,
    if_neg (hother hba ha (by decide)), if_congr (displays_bare hbav) rfl rfl, hav]
  by_cases hmessage : u.target = "message".toList
  · rw [if_pos hmessage, if_pos hmessage, ByChance, upToQuote_eq_text.2 hbsv, hsv]
  · rw [if_neg hmessage, if_neg hmessage, Comes, if_neg (hother hbs hs (by decide)), Comes,
      if_pos ((displays_bare hbm).2 hm), ByChance, ← hmv, upToQuote_eq_text, ite_self]

/-! ## A slash with an escape -/

/-- `{"type":"updateRequired","target":"1","store":"a\/b","message":"m"}`. -/
def slashStore : UpdateRequired where
  target := ['1']
  store := ['a', '/', 'b']
  message := ['m']
  entries :=
    [(bare "type".toList, bare "updateRequired".toList), (bare "target".toList, bare ['1']),
      (bare "store".toList, bare ['a'] ++ .short '/' '/' rfl :: bare ['b']),
      (bare "message".toList, bare ['m'])]
  ok := .of_eq rfl

/-- **An escape arrives as it is written.** -/
theorem slashStore_escaped :
    parseControlMessage slashStore.json = some
        { ControlMessage.empty with
          type := .updateRequired, typeString := ascii "updateRequired", target := ascii "1",
          store := ascii "a\\/b", message := ascii "m" } ∧
      utf8 slashStore.store = ascii "a/b" ∧ ¬Survives slashStore := by
  have hparse : parseControlMessage slashStore.json = some
      { ControlMessage.empty with
        type := .updateRequired, typeString := ascii "updateRequired", target := ascii "1",
        store := ascii "a\\/b", message := ascii "m" } := by
    decide
  refine ⟨hparse, by decide, ?_⟩
  rintro ⟨msg, hmsg, -, -, hstore, -⟩
  obtain rfl := Option.some.inj (hparse.symm.trans hmsg)
  exact absurd hstore (by decide)

end OpenDisplay.Protocol.ControlStrings
