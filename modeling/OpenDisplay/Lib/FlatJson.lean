import OpenDisplay.Lib.Binary64

/-! # Flat JSON objects and scanners that search their text

A flat object is a list of members with the blanks between their parts; its strings are kept as the
characters and escapes that they are written with. `object` is its text.

A scanner that knows no JSON looks up a key by searching the text for the key in quotes and going on
behind the next colon: `fieldText`. A string shows a key (`Shows`) if its text has the key in quotes:
it is the key, or it ends in an escaped quote and the key. `fieldText` is decided by the first string
that shows the key, be it a key or a value (`fieldClosing_cons`).

`Clear q m post pre` is a condition on a member `m` inserted between the members `pre` and `post`
under which it does not change the lookup of `q`: then the lookups before and after the insertion
find texts that a scanner cannot tell apart (`agree_fieldText_insert`). -/

namespace OpenDisplay.Lib.FlatJson

open OpenDisplay.Lib.Binary64 OpenDisplay.Lib.Text

/-! ### The texts -/

/-- Spaces, tabs and ends of lines. -/
structure Blank where
  text : List UInt8
  ok : ∀ b ∈ text, b = 32 ∨ b = 9 ∨ b = 10 ∨ b = 13

theorem Blank.forall (w : Blank) {p : UInt8 → Prop} (hp : p 32 ∧ p 9 ∧ p 10 ∧ p 13) :
    ∀ b ∈ w.text, p b := by
  intro b hb
  rcases w.ok b hb with rfl | rfl | rfl | rfl
  · exact hp.1
  · exact hp.2.1
  · exact hp.2.2.1
  · exact hp.2.2.2

/-- A hexadecimal digit. -/
def IsHexDigit (b : UInt8) : Prop :=
  IsDigit b ∨ 65 ≤ b.toNat ∧ b.toNat ≤ 70 ∨ 97 ≤ b.toNat ∧ b.toNat ≤ 102

/-- What a string is written with: bytes as they are, short escapes, and code units. -/
inductive Piece
  | char (b : UInt8) (h : b ≠ 34 ∧ b ≠ 92 ∧ 32 ≤ b.toNat)
  | escape (b : UInt8) (h : b ∈ ([34, 92, 47, 98, 102, 110, 114, 116] : List UInt8))
  | unicode (ds : List UInt8) (h : ds.length = 4 ∧ ∀ b ∈ ds, IsHexDigit b)

def Piece.text : Piece → List UInt8
  | .char b _ => [b]
  | .escape b _ => [92, b]
  | .unicode ds _ => 92 :: 117 :: ds

/-- The text of a string between its quotes. -/
def raw (s : List Piece) : List UInt8 := s.flatMap Piece.text

def quoted (s : List Piece) : List UInt8 := 34 :: raw s ++ [34]

/-- At least one digit. -/
structure Digits where
  first : Fin 10
  rest : List (Fin 10)

def Digits.text (ds : Digits) : List UInt8 := (ds.first :: ds.rest).map fun d : Fin 10 => digit d

structure Exponent where
  capital : Bool
  /-- The sign, if there is one: true for a minus. -/
  sign : Option Bool
  digits : Digits

def signText : Option Bool → List UInt8
  | none => []
  | some false => [43]
  | some true => [45]

def Exponent.text (e : Exponent) : List UInt8 :=
  (if e.capital then 69 else 101) :: signText e.sign ++ e.digits.text

structure Number where
  negative : Bool
  int : ℕ
  frac : Option Digits
  exponent : Option Exponent

def fracText : Option Digits → List UInt8
  | none => []
  | some ds => 46 :: ds.text

def exponentText : Option Exponent → List UInt8
  | none => []
  | some e => e.text

def Number.text (n : Number) : List UInt8 :=
  (if n.negative then [45] else []) ++ decimal n.int ++ fracText n.frac ++ exponentText n.exponent

inductive Literal
  | true
  | false
  | null

def Literal.text : Literal → List UInt8
  | .true => ascii "true"
  | .false => ascii "false"
  | .null => ascii "null"

inductive Value
  | string (s : List Piece)
  | number (n : Number)
  | literal (l : Literal)

def Value.text : Value → List UInt8
  | .string s => quoted s
  | .number n => n.text
  | .literal l => l.text

def Value.isString : Value → Bool
  | .string _ => true
  | _ => false

structure Member where
  lead : Blank
  key : List Piece
  afterKey : Blank
  beforeValue : Blank
  value : Value
  trail : Blank

/-- The text behind the colon of a member in front of `rest`. -/
def Member.behindColon (m : Member) (rest : List UInt8) : List UInt8 :=
  m.beforeValue.text ++ (m.value.text ++ (m.trail.text ++ rest))

/-- The text of a member in front of `rest`. -/
def Member.textBefore (m : Member) (rest : List UInt8) : List UInt8 :=
  m.lead.text ++ (quoted m.key ++ (m.afterKey.text ++ 58 :: m.behindColon rest))

/-- The members that follow another one, and the brace. -/
def closing : List Member → List UInt8
  | [] => [125]
  | m :: ms => 44 :: m.textBefore (closing ms)

/-- The text of an object; `inner` is the blank behind its first brace. -/
def object (inner : Blank) : List Member → List UInt8
  | [] => 123 :: (inner.text ++ [125])
  | m :: ms => 123 :: (inner.text ++ m.textBefore (closing ms))

/-! ### The scanner -/

/-- The key in quotes. -/
def needle (q : List UInt8) : List UInt8 := 34 :: q ++ [34]

/-- The text that a scanner takes for the value of the key `q`: behind the first colon behind the
first `"q"`. -/
def fieldText (q json : List UInt8) : Option (List UInt8) :=
  (behind (needle q) json).bind (behind [58])

def IsLetter (b : UInt8) : Prop := 65 ≤ b.toNat ∧ b.toNat ≤ 90 ∨ 97 ≤ b.toNat ∧ b.toNat ≤ 122

instance (b : UInt8) : Decidable (IsLetter b) := by unfold IsLetter; infer_instance

/-- The text of the string has `"q"` in it, with one of its own quotes or both. -/
def Shows (q : List UInt8) (s : List Piece) : Prop := 34 :: q <:+ 34 :: raw s

instance (q : List UInt8) (s : List Piece) : Decidable (Shows q s) := by
  unfold Shows
  infer_instance

def Value.Shows (q : List UInt8) : Value → Prop
  | .string s => FlatJson.Shows q s
  | _ => False

instance (q : List UInt8) : (v : Value) → Decidable (v.Shows q)
  | .string s => inferInstanceAs (Decidable (FlatJson.Shows q s))
  | .number _ => inferInstanceAs (Decidable False)
  | .literal _ => inferInstanceAs (Decidable False)

variable {q rest : List UInt8}

theorem ne_of_mem_blank {w : Blank} {c : UInt8} (hc : c ≠ 32 ∧ c ≠ 9 ∧ c ≠ 10 ∧ c ≠ 13) :
    ∀ b ∈ w.text, b ≠ c :=
  w.forall ⟨hc.1.symm, hc.2.1.symm, hc.2.2.1.symm, hc.2.2.2.symm⟩

/-! #### One string -/

theorem IsLetter.ne_quote {b : UInt8} (h : IsLetter b) : b ≠ 34 := by
  rintro rfl
  revert h
  decide

theorem IsLetter.ne_backslash {b : UInt8} (h : IsLetter b) : b ≠ 92 := by
  rintro rfl
  revert h
  decide

/-- The key and a quote are at the front of the rest of a string only if that rest is the key. -/
theorem key_prefix_raw (rest : List UInt8) : ∀ (s : List Piece) (q : List UInt8),
    (∀ b ∈ q, IsLetter b) → (q ++ [34] <+: raw s ++ 34 :: rest ↔ raw s = q)
  | [], [], _ => by simp [raw]
  | [], c :: q, hq => by
    have hc : c ≠ 34 := (hq c (by simp)).ne_quote
    simp [raw, hc]
  | .char b h :: s, [], _ => by simp [raw, Piece.text, h.1.symm]
  | .char b h :: s, c :: q, hq => by
    have ih := key_prefix_raw rest s q fun b hb => hq b (List.mem_cons_of_mem _ hb)
    unfold raw at ih ⊢
    simp only [List.flatMap_cons, Piece.text, List.cons_append, List.nil_append,
      List.cons_prefix_cons, List.cons.injEq, ih, eq_comm]
  | .escape b h :: s, [], _ => by simp [raw, Piece.text]
  | .escape b h :: s, c :: q, hq => by
    have hc : c ≠ 92 := (hq c (by simp)).ne_backslash
    simp [raw, Piece.text, hc, hc.symm]
  | .unicode ds h :: s, [], _ => by simp [raw, Piece.text]
  | .unicode ds h :: s, c :: q, hq => by
    have hc : c ≠ 92 := (hq c (by simp)).ne_backslash
    simp [raw, Piece.text, hc, hc.symm]

/-- The text does not go on with a letter or a quote. -/
def Separated (rest : List UInt8) : Prop := ∀ b ∈ rest.head?, b ≠ 34 ∧ ¬IsLetter b

theorem Separated.not_needle (h : Separated rest) (hq : ∀ b ∈ q, IsLetter b) :
    ¬needle q <+: 34 :: rest := by
  unfold needle
  rw [List.cons_append, List.prefix_cons_inj]
  cases q with
  | nil =>
    rintro ⟨t, rfl⟩
    exact (h 34 rfl).1 rfl
  | cons c q =>
    rintro ⟨t, rfl⟩
    exact (h c rfl).2 (hq c (by simp))

/-- Behind a quote that opens the string or is escaped in it. -/
theorem behind_quote (hq : ∀ b ∈ q, IsLetter b) {s : List Piece}
    (ih : behind (needle q) (raw s ++ 34 :: rest) =
      if 34 :: q <:+ raw s then some rest else behind (needle q) rest) :
    behind (needle q) (34 :: (raw s ++ 34 :: rest)) =
      if 34 :: q <:+ 34 :: raw s then some rest else behind (needle q) rest := by
  have hkey := key_prefix_raw rest s q hq
  by_cases hs : raw s = q
  · have hfront : needle q <+: 34 :: (raw s ++ 34 :: rest) := by
      unfold needle
      rw [List.cons_append, List.prefix_cons_inj]
      exact hkey.2 hs
    rw [behind_front hfront, hs, if_pos (List.suffix_refl _)]
    simp [needle]
  · have hfront : ¬needle q <+: 34 :: (raw s ++ 34 :: rest) := by
      unfold needle
      rw [List.cons_append, List.prefix_cons_inj]
      exact mt hkey.1 hs
    have hiff : 34 :: q <:+ 34 :: raw s ↔ 34 :: q <:+ raw s := by
      rw [List.suffix_cons_iff, List.cons.injEq]
      exact or_iff_right fun h => hs h.2.symm
    rw [behind_cons_skip hfront, ih, if_congr hiff rfl rfl]

theorem suffix_cons_iff_of_ne {c : UInt8} {l : List UInt8} (hc : c ≠ 34) :
    34 :: q <:+ c :: l ↔ 34 :: q <:+ l := by
  rw [List.suffix_cons_iff, List.cons.injEq]
  exact or_iff_right fun h => hc h.1.symm

theorem suffix_append_iff_of_forall_ne : ∀ (ds : List UInt8) {l : List UInt8},
    (∀ b ∈ ds, b ≠ 34) → (34 :: q <:+ ds ++ l ↔ 34 :: q <:+ l)
  | [], _, _ => Iff.rfl
  | d :: ds, l, h => by
    rw [List.cons_append, suffix_cons_iff_of_ne (h d (by simp))]
    exact suffix_append_iff_of_forall_ne ds fun b hb => h b (List.mem_cons_of_mem _ hb)

theorem IsHexDigit.ne_quote {b : UInt8} (h : IsHexDigit b) : b ≠ 34 := by
  rintro rfl
  simp [IsHexDigit, IsDigit] at h

theorem Piece.text_unicode_ne_quote {ds : List UInt8} (h : ds.length = 4 ∧ ∀ b ∈ ds, IsHexDigit b) :
    ∀ b ∈ (Piece.unicode ds h).text, b ≠ 34 := by
  intro b hb
  simp only [Piece.text, List.mem_cons] at hb
  rcases hb with rfl | rfl | hb
  · decide
  · decide
  · exact (h.2 b hb).ne_quote

/-- From a place between two pieces on, the key in quotes is found at the end of the string or
behind it. -/
theorem behind_raw (hq : ∀ b ∈ q, IsLetter b) (hrest : Separated rest) : ∀ s : List Piece,
    behind (needle q) (raw s ++ 34 :: rest) =
      if 34 :: q <:+ raw s then some rest else behind (needle q) rest
  | [] => by
    rw [if_neg (by simp [raw])]
    exact behind_cons_skip (hrest.not_needle hq)
  | .char b h :: s => by
    have hraw : raw (.char b h :: s) = b :: raw s := rfl
    rw [hraw, if_congr (suffix_cons_iff_of_ne h.1) rfl rfl, List.cons_append, needle,
      List.cons_append, behind_cons_of_ne h.1]
    exact behind_raw hq hrest s
  | .escape b h :: s => by
    have hraw : raw (.escape b h :: s) = 92 :: b :: raw s := rfl
    have hslash : (92 : UInt8) ≠ 34 := by decide
    rw [hraw, if_congr (suffix_cons_iff_of_ne hslash) rfl rfl, List.cons_append, needle,
      List.cons_append, behind_cons_of_ne hslash]
    by_cases hb : b = 34
    · subst hb
      exact behind_quote hq (behind_raw hq hrest s)
    · rw [if_congr (suffix_cons_iff_of_ne hb) rfl rfl, List.cons_append, behind_cons_of_ne hb]
      exact behind_raw hq hrest s
  | .unicode ds h :: s => by
    have hraw : raw (.unicode ds h :: s) = (Piece.unicode ds h).text ++ raw s := rfl
    have hne := Piece.text_unicode_ne_quote h
    rw [hraw, if_congr (suffix_append_iff_of_forall_ne _ hne) rfl rfl, List.append_assoc, needle,
      List.cons_append, behind_append_of_forall_ne hne]
    exact behind_raw hq hrest s

theorem behind_quoted (hq : ∀ b ∈ q, IsLetter b) (s : List Piece) (hrest : Separated rest) :
    behind (needle q) (quoted s ++ rest) =
      if Shows q s then some rest else behind (needle q) rest := by
  have h := behind_quote hq (behind_raw hq hrest s)
  unfold quoted
  rw [List.append_assoc, List.cons_append]
  exact h

/-! #### One member -/

theorem IsNumeralChar.ne {b c : UInt8} (h : IsNumeralChar b) (hc : ¬IsNumeralChar c) : b ≠ c := by
  rintro rfl
  exact hc h

theorem isNumeralChar_of_mem_digits {ds : Digits} : ∀ b ∈ ds.text, IsNumeralChar b := by
  intro b hb
  obtain ⟨d, -, rfl⟩ := List.mem_map.1 hb
  exact isNumeralChar_of_isDigit (isDigit_digit d.isLt)

theorem isNumeralChar_of_mem_number {n : Number} : ∀ b ∈ n.text, IsNumeralChar b := by
  intro b hb
  simp only [Number.text, List.mem_append] at hb
  rcases hb with ((hb | hb) | hb) | hb
  · split at hb
    · obtain rfl : b = 45 := by simpa using hb
      decide
    · simp at hb
  · exact isNumeralChar_of_isDigit (isDigit_of_mem_decimal n.int b hb)
  · cases hf : n.frac with
    | none => simp [hf, fracText] at hb
    | some ds =>
      simp only [hf, fracText, List.mem_cons] at hb
      rcases hb with rfl | hb
      · decide
      · exact isNumeralChar_of_mem_digits b hb
  · cases he : n.exponent with
    | none => simp [he, exponentText] at hb
    | some e =>
      simp only [he, exponentText, Exponent.text, List.cons_append, List.mem_cons,
        List.mem_append] at hb
      rcases hb with rfl | hb | hb
      · split <;> decide
      · cases hs : e.sign with
        | none => simp [hs, signText] at hb
        | some minus => cases minus <;> simp [hs, signText] at hb <;> subst hb <;> decide
      · exact isNumeralChar_of_mem_digits b hb

/-- A value that is no string is a run of numeral characters. -/
theorem Value.scalar {v : Value} (h : v.isString = false) :
    v.text ≠ [] ∧ ∀ b ∈ v.text, IsNumeralChar b := by
  cases v with
  | string s => simp [Value.isString] at h
  | number n =>
    refine ⟨?_, isNumeralChar_of_mem_number⟩
    simp [Value.text, Number.text, decimal_ne_nil]
  | literal l => cases l <;> exact ⟨by decide, by decide⟩

theorem Blank.head {w : Blank} {p : UInt8 → Prop} (hp : p 32 ∧ p 9 ∧ p 10 ∧ p 13)
    (h : ∀ b ∈ rest.head?, p b) : ∀ b ∈ (w.text ++ rest).head?, p b := by
  cases hw : w.text with
  | nil => exact h
  | cons c l =>
    rintro b ⟨⟩
    exact w.forall hp c (by simp [hw])

theorem separated_blank {w : Blank} (h : Separated rest) : Separated (w.text ++ rest) :=
  w.head (by decide) h

theorem separated_closing (ms : List Member) : Separated (closing ms) := by
  cases ms <;> rintro b ⟨⟩ <;> decide

theorem separated_colon : Separated (58 :: rest) := by
  rintro b ⟨⟩
  decide

theorem behind_blank {w : Blank} : behind (needle q) (w.text ++ rest) = behind (needle q) rest :=
  behind_append_of_forall_ne (ne_of_mem_blank (by decide))

theorem behind_value (hq : ∀ b ∈ q, IsLetter b) (v : Value) (hrest : Separated rest) :
    behind (needle q) (v.text ++ rest) =
      if v.Shows q then some rest else behind (needle q) rest := by
  by_cases hv : v.isString = true
  · cases v with
    | string s => exact behind_quoted hq s hrest
    | number n => simp [Value.isString] at hv
    | literal l => simp [Value.isString] at hv
  · rw [Bool.not_eq_true] at hv
    have hno : ¬v.Shows q := by cases v <;> simp [Value.isString, Value.Shows] at hv ⊢
    rw [if_neg hno]
    exact behind_append_of_forall_ne fun b hb =>
      IsNumeralChar.ne ((Value.scalar hv).2 b hb) (by decide)

theorem behind_member (hq : ∀ b ∈ q, IsLetter b) (m : Member) (hrest : Separated rest) :
    behind (needle q) (m.textBefore rest) =
      if Shows q m.key then some (m.afterKey.text ++ 58 :: m.behindColon rest)
      else if m.value.Shows q then some (m.trail.text ++ rest)
      else behind (needle q) rest := by
  have hcolon : (58 : UInt8) ≠ 34 := by decide
  unfold Member.textBefore
  rw [behind_blank, behind_quoted hq m.key (separated_blank separated_colon), behind_blank]
  have hvalue : behind (needle q) (58 :: m.behindColon rest) =
      if m.value.Shows q then some (m.trail.text ++ rest) else behind (needle q) rest := by
    unfold Member.behindColon
    rw [needle, List.cons_append, behind_cons_of_ne hcolon, ← List.cons_append, ← needle,
      behind_blank, behind_value hq m.value (separated_blank hrest), behind_blank]
  rw [hvalue]

/-! #### The members -/

/-- What a scanner finds from the end of a member on. -/
def fieldClosing (q : List UInt8) (ms : List Member) : Option (List UInt8) :=
  fieldText q (closing ms)

theorem fieldText_object (inner : Blank) (ms : List Member) :
    fieldText q (object inner ms) = fieldClosing q ms := by
  have hbrace : (123 : UInt8) ≠ 34 := by decide
  have hcomma : (44 : UInt8) ≠ 34 := by decide
  unfold fieldClosing fieldText
  cases ms with
  | nil =>
    unfold object
    rw [needle, List.cons_append, behind_cons_of_ne hbrace, ← List.cons_append, ← needle,
      behind_blank]
    rfl
  | cons m ms =>
    rw [object, closing, needle, List.cons_append, behind_cons_of_ne hbrace, behind_cons_of_ne hcomma,
      ← List.cons_append, ← needle, behind_blank]

theorem behind_colon_key (m : Member) (rest : List UInt8) :
    behind [58] (m.afterKey.text ++ 58 :: m.behindColon rest) = some (m.behindColon rest) := by
  rw [behind_append_of_forall_ne (ne_of_mem_blank (by decide)),
    behind_front (List.cons_prefix_cons.2 ⟨rfl, List.nil_prefix⟩)]
  rfl

/-- **The lookup, member by member.** -/
theorem fieldClosing_cons (hq : ∀ b ∈ q, IsLetter b) (m : Member) (ms : List Member) :
    fieldClosing q (m :: ms) =
      if Shows q m.key then some (m.behindColon (closing ms))
      else if m.value.Shows q then behind [58] (closing ms)
      else fieldClosing q ms := by
  have hcomma : (44 : UInt8) ≠ 34 := by decide
  unfold fieldClosing fieldText
  rw [closing, needle, List.cons_append, behind_cons_of_ne hcomma, ← List.cons_append, ← needle,
    behind_member hq m (separated_closing ms)]
  split
  · exact behind_colon_key m (closing ms)
  · split
    · exact behind_append_of_forall_ne (ne_of_mem_blank (c := 58) (by decide))
    · rfl

/-! ### Inserting a member -/

/-- Two texts that a scanner cannot tell apart: it needs no more than a run of numeral characters to
its end, or two quotes. -/
inductive Agree : List UInt8 → List UInt8 → Prop
  | refl (s : List UInt8) : Agree s s
  | scalar (w : Blank) {t x y : List UInt8} (ht : t ≠ [] ∧ ∀ b ∈ t, IsNumeralChar b)
      (hx : Stops x) (hy : Stops y) : Agree (w.text ++ (t ++ x)) (w.text ++ (t ++ y))
  | quotes (a b x y : List UInt8) : Agree (a ++ 34 :: (b ++ 34 :: x)) (a ++ 34 :: (b ++ 34 :: y))

/-- The members bound a lookup that went past a string value in front of them. -/
def Shut : List Member → Prop
  | [] => False
  | n :: pre => 58 ∉ raw n.key ∨ n.value.isString = true ∨ pre ≠ []

/-- No member follows, or the one with the key itself. -/
def Leads (q : List UInt8) : List Member → Prop
  | [] => True
  | n :: _ => Shows q n.key ∧ 58 ∉ raw n.key

/-- The lookup of `q` does not read the member `m` between the members `pre` and `post`. -/
def Clear (q : List UInt8) (m : Member) (post : List Member) : List Member → Prop
  | [] => ¬Shows q m.key ∧ (m.value.Shows q → Leads q post)
  | n :: pre =>
    if Shows q n.key then True else if n.value.Shows q then Shut pre else Clear q m post pre

instance : (pre : List Member) → Decidable (Shut pre)
  | [] => inferInstanceAs (Decidable False)
  | n :: pre =>
    inferInstanceAs (Decidable (58 ∉ raw n.key ∨ n.value.isString = true ∨ pre ≠ []))

instance : (post : List Member) → Decidable (Leads q post)
  | [] => inferInstanceAs (Decidable True)
  | n :: _ => inferInstanceAs (Decidable (Shows q n.key ∧ 58 ∉ raw n.key))

instance decidableClear (m : Member) (post : List Member) :
    (pre : List Member) → Decidable (Clear q m post pre)
  | [] => inferInstanceAs (Decidable (¬Shows q m.key ∧ (m.value.Shows q → Leads q post)))
  | n :: pre =>
    have := decidableClear m post pre
    inferInstanceAs (Decidable (if Shows q n.key then True
      else if n.value.Shows q then Shut pre else Clear q m post pre))

theorem stops_blank {w : Blank} {x : List UInt8} (h : Stops x) : Stops (w.text ++ x) :=
  w.head (by decide) h

theorem stops_closing (ms : List Member) : Stops (closing ms) := by
  cases ms <;> rintro b ⟨⟩ <;> decide

/-- The value of a member reads the same whatever members follow it. -/
theorem agree_behindColon (n : Member) (ms ms' : List Member) :
    Agree (n.behindColon (closing ms)) (n.behindColon (closing ms')) := by
  unfold Member.behindColon
  cases hv : n.value with
  | string s =>
    have hquoted : ∀ x : List UInt8, (Value.string s).text ++ x = 34 :: (raw s ++ 34 :: x) := by
      intro x
      simp [Value.text, quoted]
    rw [hquoted, hquoted]
    exact .quotes _ _ _ _
  | number k =>
    exact .scalar _ (Value.scalar rfl) (stops_blank (stops_closing ms))
      (stops_blank (stops_closing ms'))
  | literal l =>
    exact .scalar _ (Value.scalar rfl) (stops_blank (stops_closing ms))
      (stops_blank (stops_closing ms'))

theorem relAgree_refl (o : Option (List UInt8)) : Option.Rel Agree o o := by
  cases o with
  | none => exact .none
  | some s => exact .some (.refl s)

theorem behind_colon_closing_of_notMem {n : Member} (hn : 58 ∉ raw n.key) (ms : List Member) :
    behind [58] (closing (n :: ms)) = some (n.behindColon (closing ms)) := by
  have hkey : ∀ b ∈ 44 :: (n.lead.text ++ quoted n.key), b ≠ 58 := by
    intro b hb
    simp only [quoted, List.mem_cons, List.mem_append, List.not_mem_nil, or_false] at hb
    rcases hb with rfl | hb | (rfl | hb) | rfl
    · decide
    · exact ne_of_mem_blank (c := 58) (by decide) b hb
    · decide
    · rintro rfl
      exact hn hb
    · decide
  have htext : closing (n :: ms) = (44 :: (n.lead.text ++ quoted n.key)) ++
      (n.afterKey.text ++ 58 :: n.behindColon (closing ms)) := by
    simp [closing, Member.textBefore]
  rw [htext, behind_append_of_forall_ne hkey]
  exact behind_colon_key n (closing ms)

/-- A colon in the key: the scanner goes on behind the first one, at `k`. -/
theorem behind_colon_closing_of_mem {n : Member} (hn : 58 ∈ raw n.key) : ∃ k, ∀ ms,
    behind [58] (closing (n :: ms)) =
      some (k ++ 34 :: (n.afterKey.text ++ 58 :: n.behindColon (closing ms))) := by
  obtain ⟨j, k, hjk, hj⟩ := List.eq_append_cons_of_mem hn
  refine ⟨k, fun ms => ?_⟩
  have hskip : ∀ b ∈ 44 :: (n.lead.text ++ 34 :: j), b ≠ 58 := by
    intro b hb
    simp only [List.mem_cons, List.mem_append] at hb
    rcases hb with rfl | hb | rfl | hb
    · decide
    · exact ne_of_mem_blank (c := 58) (by decide) b hb
    · decide
    · rintro rfl
      exact hj hb
  have htext : closing (n :: ms) = (44 :: (n.lead.text ++ 34 :: j)) ++
      58 :: (k ++ 34 :: (n.afterKey.text ++ 58 :: n.behindColon (closing ms))) := by
    simp [closing, Member.textBefore, quoted, hjk]
  rw [htext, behind_append_of_forall_ne hskip,
    behind_front (List.cons_prefix_cons.2 ⟨rfl, List.nil_prefix⟩)]
  rfl

/-- The lookup that goes on in the key of `n` stops in the value or in the next key. -/
theorem agree_in_key (n : Member) (k : List UInt8) (m : Member) (post : List Member) :
    ∀ pre : List Member, n.value.isString = true ∨ pre ≠ [] →
      Agree (k ++ 34 :: (n.afterKey.text ++ 58 :: n.behindColon (closing (pre ++ post))))
        (k ++ 34 :: (n.afterKey.text ++ 58 :: n.behindColon (closing (pre ++ m :: post))))
  | pre, .inl hv => by
    cases hs : n.value with
    | number c => simp [hs, Value.isString] at hv
    | literal c => simp [hs, Value.isString] at hv
    | string s =>
      have htext : ∀ rest, n.afterKey.text ++ 58 :: n.behindColon rest =
          (n.afterKey.text ++ 58 :: n.beforeValue.text) ++
            34 :: (raw s ++ 34 :: (n.trail.text ++ rest)) := by
        intro rest
        simp [Member.behindColon, hs, Value.text, quoted]
      rw [htext, htext]
      exact .quotes _ _ _ _
  | [], .inr hne => absurd rfl hne
  | p :: pre, .inr _ => by
    have htext : ∀ ms, n.afterKey.text ++ 58 :: n.behindColon (closing (p :: ms)) =
        (n.afterKey.text ++ 58 :: n.behindColon (44 :: p.lead.text)) ++ 34 ::
          (raw p.key ++ 34 :: (p.afterKey.text ++ 58 :: p.behindColon (closing ms))) := by
      intro ms
      simp [Member.behindColon, closing, Member.textBefore, quoted]
    rw [List.cons_append, List.cons_append, htext, htext]
    exact .quotes _ _ _ _

theorem agree_shut (m : Member) (post : List Member) : ∀ pre : List Member, Shut pre →
    Option.Rel Agree (behind [58] (closing (pre ++ post)))
      (behind [58] (closing (pre ++ m :: post)))
  | [], h => h.elim
  | n :: pre, h => by
    rw [List.cons_append, List.cons_append]
    by_cases hn : 58 ∈ raw n.key
    · obtain ⟨k, hk⟩ := behind_colon_closing_of_mem hn
      rw [hk, hk]
      exact .some (agree_in_key n k m post pre (h.resolve_left (not_not_intro hn)))
    · rw [behind_colon_closing_of_notMem hn, behind_colon_closing_of_notMem hn]
      exact .some (agree_behindColon n _ _)

theorem fieldClosing_nil : fieldClosing q [] = behind [58] (closing []) := by
  have hnone : behind (needle q) (closing []) = none :=
    behind_eq_none_of_forall_ne (by decide)
  unfold fieldClosing fieldText
  rw [hnone]
  exact (behind_eq_none_of_forall_ne (by decide)).symm

/-- The scanner gets to the key itself, with a string value in front of it that shows the key or
without. -/
theorem fieldClosing_of_leads (hq : ∀ b ∈ q, IsLetter b) : ∀ {post : List Member}, Leads q post →
    fieldClosing q post = behind [58] (closing post)
  | [], _ => fieldClosing_nil
  | n :: post, ⟨hkey, hcolon⟩ => by
    rw [fieldClosing_cons hq, if_pos hkey, behind_colon_closing_of_notMem hcolon]

theorem agree_fieldClosing_insert (hq : ∀ b ∈ q, IsLetter b) (m : Member) (post : List Member) :
    ∀ pre : List Member, Clear q m post pre →
      Option.Rel Agree (fieldClosing q (pre ++ post)) (fieldClosing q (pre ++ m :: post))
  | [], ⟨hkey, hvalue⟩ => by
    rw [List.nil_append, List.nil_append, fieldClosing_cons hq, if_neg hkey]
    split
    · next hshows =>
      rw [fieldClosing_of_leads hq (hvalue hshows)]
      exact relAgree_refl _
    · exact relAgree_refl _
  | n :: pre, h => by
    rw [List.cons_append, List.cons_append, fieldClosing_cons hq, fieldClosing_cons hq]
    unfold Clear at h
    by_cases hkey : Shows q n.key
    · rw [if_pos hkey, if_pos hkey]
      exact .some (agree_behindColon n _ _)
    rw [if_neg hkey] at h ⊢
    rw [if_neg hkey]
    by_cases hvalue : n.value.Shows q
    · rw [if_pos hvalue] at h ⊢
      rw [if_pos hvalue]
      exact agree_shut m post pre h
    · rw [if_neg hvalue] at h ⊢
      rw [if_neg hvalue]
      exact agree_fieldClosing_insert hq m post pre h

/-- **A clear lookup does not see the insertion.** -/
theorem agree_fieldText_insert (hq : ∀ b ∈ q, IsLetter b) (inner : Blank) {m : Member}
    {pre post : List Member} (h : Clear q m post pre) :
    Option.Rel Agree (fieldText q (object inner (pre ++ post)))
      (fieldText q (object inner (pre ++ m :: post))) := by
  rw [fieldText_object, fieldText_object]
  exact agree_fieldClosing_insert hq m post pre h

end OpenDisplay.Lib.FlatJson
