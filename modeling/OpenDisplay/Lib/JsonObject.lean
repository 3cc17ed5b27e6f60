import OpenDisplay.Lib.FlatJson
import OpenDisplay.Lib.JsonString

/-! # A strict parser of flat JSON objects

`readObject` accepts an object whose values are strings, numbers and literals, with the numbers of
RFC 8259, 6: no sign but a minus, no leading zeros, digits on both sides of a point. It reads the fields
that are written without whitespace one by one (`readObject_before`). -/

namespace OpenDisplay.Lib.JsonObject

open OpenDisplay.Lib.FlatJson (Number Literal Digits Exponent fracText exponentText signText
  isNumeralChar_of_mem_number)
open OpenDisplay.Lib.JsonString OpenDisplay.Lib.Text

/-! ### The parser -/

def isBlank (c : Char) : Bool := c == ' ' || c == '\t' || c == '\n' || c == '\r'

/-- What follows the whitespace at the front. -/
def skip (s : List Char) : List Char := s.dropWhile isBlank

/-- What follows the character `c`, if it is at the front. -/
def accept (c : Char) : List Char → Option (List Char)
  | [] => none
  | d :: s => if d = c then some s else none

/-- What follows the word, if it is at the front. -/
def acceptWord : List Char → List Char → Option (List Char)
  | [], s => some s
  | c :: word, s => (accept c s).bind (acceptWord word)

def isDigit (c : Char) : Bool := decide (48 ≤ c.toNat ∧ c.toNat ≤ 57)

/-- At least one digit. -/
def readDigits (s : List Char) : Option (List Char × List Char) :=
  if s.takeWhile isDigit = [] then none else some (s.takeWhile isDigit, s.dropWhile isDigit)

/-- A zero, or digits of which the first is none. -/
def readInt (s : List Char) : Option (List Char × List Char) :=
  match accept '0' s with
  | some s => some (['0'], s)
  | none => readDigits s

def readFrac (s : List Char) : Option (List Char × List Char) :=
  match accept '.' s with
  | some s => (readDigits s).map fun r => ('.' :: r.1, r.2)
  | none => some ([], s)

/-- The character at the front, if it is one of `cs`. -/
def readOne (cs : List Char) : List Char → List Char × List Char
  | [] => ([], [])
  | c :: s => if c ∈ cs then ([c], s) else ([], c :: s)

/-- What is behind the `e` of an exponent: a sign or none, and digits. -/
def readPower (s : List Char) : Option (List Char × List Char) :=
  (readDigits (readOne ['+', '-'] s).2).map fun r => ((readOne ['+', '-'] s).1 ++ r.1, r.2)

def readExponent (s : List Char) : Option (List Char × List Char) :=
  if (readOne ['e', 'E'] s).1 = [] then some ([], s)
  else (readPower (readOne ['e', 'E'] s).2).map fun r => ((readOne ['e', 'E'] s).1 ++ r.1, r.2)

/-- The numeral at the front. -/
def readNumber (s : List Char) : Option (List Char × List Char) := do
  let int ← readInt (readOne ['-'] s).2
  let frac ← readFrac int.2
  let exponent ← readExponent frac.2
  return ((readOne ['-'] s).1 ++ int.1 ++ frac.1 ++ exponent.1, exponent.2)

/-- A value; a number is kept as its numeral. -/
inductive Value
  | string (s : List Char)
  | number (numeral : List Char)
  | literal (l : Literal)

def readLiteral (s : List Char) : Option (Literal × List Char) :=
  ((acceptWord "true".toList s).map fun s => (.true, s)).or
    (((acceptWord "false".toList s).map fun s => (.false, s)).or
      ((acceptWord "null".toList s).map fun s => (.null, s)))

def readValue (s : List Char) : Option (Value × List Char) :=
  ((readString s).map fun r => (.string r.1, r.2)).or
    (((readLiteral s).map fun r => (.literal r.1, r.2)).or
      ((readNumber s).map fun r => (.number r.1, r.2)))

def readMember (s : List Char) : Option ((List Char × Value) × List Char) := do
  let name ← readString (skip s)
  let s ← accept ':' (skip name.2)
  let value ← readValue (skip s)
  return ((name.1, value.1), value.2)

/-- The members up to the brace, fewer than `fuel`. -/
def readMembers : ℕ → List Char → Option (List (List Char × Value) × List Char)
  | 0, _ => none
  | fuel + 1, s => do
    let member ← readMember s
    match accept ',' (skip member.2) with
    | some s => (readMembers fuel s).map fun r => (member.1 :: r.1, r.2)
    | none => (accept '\x7d' (skip member.2)).map fun s => ([member.1], s)

/-- The members of the object, with nothing but whitespace around it. -/
def readObject (s : List Char) : Option (List (List Char × Value)) := do
  let s ← accept '\x7b' (skip s)
  match accept '\x7d' (skip s) with
  | some s => if skip s = [] then some [] else none
  | none =>
    let members ← readMembers (s.length + 1) s
    if skip members.2 = [] then some members.1 else none

/-! ### ASCII texts -/

/-- The characters of ASCII bytes. -/
def chars (bytes : List UInt8) : List Char := bytes.map fun b => Char.ofNat b.toNat

theorem chars_append (a b : List UInt8) : chars (a ++ b) = chars a ++ chars b := List.map_append

theorem toNat_char (b : UInt8) : (Char.ofNat b.toNat).toNat = b.toNat := by
  have hb := b.toNat_lt
  exact toNat_ofNat (by omega)

theorem byte_char (b : UInt8) : byte (Char.ofNat b.toNat) = b := by
  unfold byte
  rw [toNat_char, UInt8.ofNat_toNat]

theorem map_byte_chars (bytes : List UInt8) : (chars bytes).map byte = bytes := by
  unfold chars
  rw [List.map_map]
  exact (List.map_congr_left fun b _ => byte_char b).trans (List.map_id' bytes)

theorem utf8_chars {bytes : List UInt8} (h : ∀ b ∈ bytes, b.toNat < 128) : utf8 (chars bytes) = bytes := by
  rw [utf8_eq_map, map_byte_chars]
  refine List.all_eq_true.2 fun c hc => ?_
  obtain ⟨b, hb, rfl⟩ := List.mem_map.1 hc
  rw [toNat_char]
  exact decide_eq_true (h b hb)

theorem utf8_ascii (s : String) (h : (s.toList.all fun c => decide (c.toNat < 128)) = true) :
    utf8 s.toList = ascii s :=
  utf8_eq_map h

theorem isDigit_char (b : UInt8) : isDigit (Char.ofNat b.toNat) = decide (IsDigit b) := by
  unfold isDigit IsDigit
  rw [toNat_char]

theorem utf8_numeral (n : Number) : utf8 (chars n.text) = n.text :=
  utf8_chars fun b hb => (isNumeralChar_of_mem_number b hb).toNat_lt

/-! ### Reading numerals -/

variable {s : List Char}

theorem accept_cons (c : Char) (s : List Char) : accept c (c :: s) = some s := if_pos rfl

theorem accept_of_ne {c : Char} (h : ∀ d ∈ s.head?, d ≠ c) : accept c s = none := by
  cases s with
  | nil => rfl
  | cons d s => exact if_neg (h d rfl)

theorem readOne_of_notMem {cs : List Char} (h : ∀ d ∈ s.head?, d ∉ cs) : readOne cs s = ([], s) := by
  cases s with
  | nil => rfl
  | cons d s => exact if_neg (h d rfl)

theorem readOne_of_mem {cs : List Char} {c : Char} (h : c ∈ cs) : readOne cs (c :: s) = ([c], s) :=
  if_pos h

/-- The text does not go on with a digit, a point or an exponent. -/
def Ends (s : List Char) : Prop := ∀ c ∈ s.head?, isDigit c = false ∧ c ∉ ['.', 'e', 'E']

theorem readDigits_chars {ds : List UInt8} (hne : ds ≠ []) (hds : ∀ b ∈ ds, IsDigit b)
    (hs : ∀ c ∈ s.head?, isDigit c = false) : readDigits (chars ds ++ s) = some (chars ds, s) := by
  have hall : ∀ c ∈ chars ds, isDigit c = true := by
    intro c hc
    obtain ⟨b, hb, rfl⟩ := List.mem_map.1 hc
    rw [isDigit_char]
    exact decide_eq_true (hds b hb)
  have htake : (chars ds).takeWhile isDigit = chars ds := List.takeWhile_eq_self_iff.2 hall
  have hdrop : (chars ds).dropWhile isDigit = [] := List.dropWhile_eq_nil_iff.2 hall
  have hchars : chars ds ≠ [] := by simpa [chars] using hne
  unfold readDigits
  rw [takeWhile_append_of_head _ hs, dropWhile_append_of_head _ hs, htake, hdrop, if_neg hchars]
  rfl

theorem decimal_head : ∀ n : ℕ, 0 < n → ∃ b l, decimal n = b :: l ∧ b ≠ 48 := by
  intro n
  fun_induction decimal n with
  | case1 n hn =>
    intro hpos
    refine ⟨digit n, [], rfl, fun h => ?_⟩
    have := toNat_digit hn
    rw [h] at this
    have hzero : (48 : UInt8).toNat = 48 := rfl
    omega
  | case2 n hn ih =>
    intro _
    obtain ⟨b, l, hl, hb⟩ := ih (by omega)
    exact ⟨b, l ++ [digit (n % 10)], by rw [hl]; rfl, hb⟩

theorem char_ne {b c : UInt8} (h : b ≠ c) : Char.ofNat b.toNat ≠ Char.ofNat c.toNat := by
  intro heq
  have := congrArg Char.toNat heq
  rw [toNat_char, toNat_char] at this
  exact h (UInt8.toNat_inj.1 this)

theorem readInt_chars (n : ℕ) (hs : ∀ c ∈ s.head?, isDigit c = false) :
    readInt (chars (decimal n) ++ s) = some (chars (decimal n), s) := by
  unfold readInt
  rcases Nat.eq_zero_or_pos n with rfl | hpos
  · have hzero : chars (decimal 0) = ['0'] := by
      rw [decimal]
      rfl
    rw [hzero, List.singleton_append, accept_cons]
  · obtain ⟨b, l, hl, hb⟩ := decimal_head n hpos
    have hfront : accept '0' (chars (decimal n) ++ s) = none := by
      refine accept_of_ne ?_
      rw [hl]
      rintro d ⟨⟩
      exact char_ne hb
    rw [hfront]
    exact readDigits_chars (decimal_ne_nil n) (isDigit_of_mem_decimal n) hs

theorem isDigit_of_mem_digits {ds : Digits} : ∀ b ∈ ds.text, IsDigit b := by
  intro b hb
  obtain ⟨d, -, rfl⟩ := List.mem_map.1 hb
  exact isDigit_digit d.isLt

theorem readFrac_chars (frac : Option Digits) (hs : ∀ c ∈ s.head?, isDigit c = false ∧ c ≠ '.') :
    readFrac (chars (fracText frac) ++ s) = some (chars (fracText frac), s) := by
  unfold readFrac
  cases frac with
  | none =>
    have hnil : chars (fracText none) = [] := rfl
    rw [hnil, List.nil_append, accept_of_ne fun c hc => (hs c hc).2]
  | some ds =>
    have hpoint : chars (fracText (some ds)) = '.' :: chars ds.text := rfl
    have hne : ds.text ≠ [] := by simp [Digits.text]
    have hread := readDigits_chars hne isDigit_of_mem_digits fun c hc => (hs c hc).1
    rw [hpoint, List.cons_append, accept_cons]
    dsimp only
    rw [hread]
    rfl

theorem sign_notMem_head {ds : List UInt8} (hne : ds ≠ []) (hds : ∀ b ∈ ds, IsDigit b) :
    ∀ c ∈ (chars ds ++ s).head?, c ∉ ['+', '-'] := by
  obtain ⟨b, l, rfl⟩ := List.exists_cons_of_ne_nil hne
  rintro c ⟨⟩ hmem
  have hdigit := isDigit_char b
  rw [decide_eq_true (hds b (by simp))] at hdigit
  simp only [List.mem_cons, List.not_mem_nil, or_false] at hmem
  rcases hmem with hc | hc <;> (rw [hc] at hdigit; exact absurd hdigit (by decide))

theorem readPower_chars (sign : Option Bool) (ds : Digits) (hs : ∀ c ∈ s.head?, isDigit c = false) :
    readPower (chars (signText sign ++ ds.text) ++ s) = some (chars (signText sign ++ ds.text), s) := by
  have hne : ds.text ≠ [] := by simp [Digits.text]
  have hread := readDigits_chars hne isDigit_of_mem_digits hs
  unfold readPower
  cases sign with
  | none =>
    have hnone : chars (signText none ++ ds.text) = chars ds.text := rfl
    rw [hnone, readOne_of_notMem (sign_notMem_head hne isDigit_of_mem_digits)]
    dsimp only
    rw [hread]
    rfl
  | some minus =>
    have hsign : ∃ c ∈ ['+', '-'], chars (signText (some minus) ++ ds.text) = c :: chars ds.text := by
      cases minus
      · exact ⟨'+', by simp, rfl⟩
      · exact ⟨'-', by simp, rfl⟩
    obtain ⟨c, hc, htext⟩ := hsign
    rw [htext, List.cons_append, readOne_of_mem hc]
    dsimp only
    rw [hread]
    rfl

theorem readExponent_chars (e : Option Exponent) (hs : Ends s) :
    readExponent (chars (exponentText e) ++ s) = some (chars (exponentText e), s) := by
  unfold readExponent
  cases e with
  | none =>
    have hnil : chars (exponentText none) = [] := rfl
    have hfront : ∀ c ∈ s.head?, c ∉ ['e', 'E'] :=
      fun c hc hmem => (hs c hc).2 (List.mem_cons_of_mem _ hmem)
    rw [hnil, List.nil_append, readOne_of_notMem hfront, if_pos rfl]
  | some e =>
    have hfront : ∃ c ∈ ['e', 'E'],
        chars (exponentText (some e)) = c :: chars (signText e.sign ++ e.digits.text) := by
      obtain ⟨capital, sign, ds⟩ := e
      cases capital
      · exact ⟨'e', by simp, rfl⟩
      · exact ⟨'E', by simp, rfl⟩
    obtain ⟨c, hc, htext⟩ := hfront
    have hread := readPower_chars e.sign e.digits fun c hc => (hs c hc).1
    rw [htext, List.cons_append, readOne_of_mem hc, if_neg (by simp)]
    dsimp only
    rw [hread]
    rfl

/-- The text behind the integer part does not go on with a digit, that behind the fraction not with a
point either. -/
theorem head_exponent (e : Option Exponent) (hs : Ends s) :
    ∀ c ∈ (chars (exponentText e) ++ s).head?, isDigit c = false ∧ c ≠ '.' := by
  cases e with
  | none => exact fun c hc => ⟨(hs c hc).1, fun h => (hs c hc).2 (by simp [h])⟩
  | some e =>
    obtain ⟨capital, sign, ds⟩ := e
    cases capital
    · rintro c ⟨⟩
      exact ⟨rfl, show 'e' ≠ '.' by decide⟩
    · rintro c ⟨⟩
      exact ⟨rfl, show 'E' ≠ '.' by decide⟩

theorem head_frac (frac : Option Digits) {s : List Char}
    (hs : ∀ c ∈ s.head?, isDigit c = false ∧ c ≠ '.') :
    ∀ c ∈ (chars (fracText frac) ++ s).head?, isDigit c = false := by
  cases frac with
  | none => exact fun c hc => (hs c hc).1
  | some ds =>
    rintro c ⟨⟩
    rfl

/-- **A numeral is read whole.** -/
theorem readNumber_chars (n : Number) (hs : Ends s) :
    readNumber (chars n.text ++ s) = some (chars n.text, s) := by
  have hexp := readExponent_chars n.exponent hs
  have hfrac := readFrac_chars n.frac (head_exponent n.exponent hs)
  have hint := readInt_chars n.int (head_frac n.frac (head_exponent n.exponent hs))
  have hminus : ∀ r, readOne ['-'] (chars (if n.negative then [45] else []) ++
      (chars (decimal n.int) ++ r)) =
        (chars (if n.negative then [45] else []), chars (decimal n.int) ++ r) := by
    intro r
    cases n.negative with
    | true => exact readOne_of_mem (by simp)
    | false =>
      refine readOne_of_notMem fun c hc hmem => ?_
      exact sign_notMem_head (decimal_ne_nil n.int) (isDigit_of_mem_decimal n.int) c hc
        (List.mem_cons_of_mem _ hmem)
  have htext : chars n.text ++ s = chars (if n.negative then [45] else []) ++ (chars (decimal n.int) ++
      (chars (fracText n.frac) ++ (chars (exponentText n.exponent) ++ s))) := by
    simp [Number.text, chars_append]
  unfold readNumber
  rw [htext, hminus]
  dsimp only
  rw [hint]
  simp only [Option.bind_eq_bind, Option.bind_some]
  rw [hfrac]
  simp only [Option.bind_some]
  rw [hexp]
  simp [Number.text, chars_append]

/-! ### Reading fields -/

/-- A way to write a value. -/
inductive Written
  | string (codes : List Code)
  | number (n : Number)
  | literal (l : Literal)

def Written.value : Written → Value
  | .string codes => .string (text codes)
  | .number n => .number (chars n.text)
  | .literal l => .literal l

def Written.source : Written → List Char
  | .string codes => '"' :: (JsonString.source codes ++ ['"'])
  | .number n => chars n.text
  | .literal l => chars l.text

/-- A field as it is written. -/
structure Field where
  name : List Code
  value : Written

/-- What the parser makes of it. -/
def Field.member (f : Field) : List Char × Value := (text f.name, f.value.value)

/-- Its text up to the value. -/
def nameSource (name : List Code) : List Char := '"' :: (source name ++ ['"', ':'])

/-- Fields in front of another one. -/
def before (fields : List Field) (s : List Char) : List Char :=
  fields.foldr (fun f s => nameSource f.name ++ (f.value.source ++ ',' :: s)) s

theorem before_append (fields : List Field) (a b : List Char) :
    before fields (a ++ b) = before fields a ++ b := by
  unfold before
  induction fields with
  | nil => rfl
  | cons f fields ih => simp [ih]

/-- What follows a value in an object without whitespace. -/
def Closes (s : List Char) : Prop := ∃ c r, s = c :: r ∧ c ∈ [',', '\x7d']

theorem skip_cons {c : Char} (h : isBlank c = false) (s : List Char) : skip (c :: s) = c :: s := by
  unfold skip
  exact List.dropWhile_cons_of_neg (by simp [h])

theorem Closes.ends (h : Closes s) : Ends s := by
  obtain ⟨c, r, rfl, hc⟩ := h
  rintro d ⟨⟩
  simp only [List.mem_cons, List.not_mem_nil, or_false] at hc
  rcases hc with rfl | rfl <;> decide

theorem readString_of_ne {c : Char} (h : c ≠ '"') (s : List Char) : readString (c :: s) = none := if_neg h

/-- No literal starts with a character of a numeral. -/
theorem readLiteral_of_notMem {c : Char} (h : c ∉ ['t', 'f', 'n']) (s : List Char) :
    readLiteral (c :: s) = none := by
  simp only [List.mem_cons, List.not_mem_nil, or_false, not_or] at h
  obtain ⟨ht, hf, hn⟩ := h
  have haccept : ∀ (d : Char) (word : List Char), c ≠ d → acceptWord (d :: word) (c :: s) = none := by
    intro d word hd
    rw [acceptWord, accept, if_neg hd]
    rfl
  have htrue : acceptWord "true".toList (c :: s) = none := haccept 't' _ ht
  have hfalse : acceptWord "false".toList (c :: s) = none := haccept 'f' _ hf
  have hnull : acceptWord "null".toList (c :: s) = none := haccept 'n' _ hn
  unfold readLiteral
  rw [htrue, hfalse, hnull]
  rfl

theorem numeral_head (n : Number) : ∃ c r, chars n.text = c :: r ∧ (c = '-' ∨ isDigit c = true) := by
  obtain ⟨b, l, hl⟩ := List.exists_cons_of_ne_nil (decimal_ne_nil n.int)
  have hb : isDigit (Char.ofNat b.toNat) = true := by
    rw [isDigit_char]
    exact decide_eq_true (isDigit_of_mem_decimal n.int b (by rw [hl]; exact List.mem_cons_self ..))
  unfold Number.text
  rw [hl]
  cases n.negative with
  | true => exact ⟨_, _, rfl, .inl rfl⟩
  | false => exact ⟨_, _, rfl, .inr hb⟩

theorem readValue_source (v : Written) (hs : Closes s) : readValue (v.source ++ s) = some (v.value, s) := by
  cases v with
  | string codes =>
    have hread := readString_codes codes s
    have htext : (Written.string codes).source ++ s = '"' :: (source codes ++ '"' :: s) := by
      simp [Written.source]
    unfold readValue
    rw [htext, hread]
    rfl
  | number n =>
    have hread := readNumber_chars n hs.ends
    obtain ⟨c, r, hc, hhead⟩ := numeral_head n
    have hquote : c ≠ '"' := by
      rcases hhead with rfl | h
      · decide
      · rintro rfl
        exact absurd h (by decide)
    have hletter : c ∉ ['t', 'f', 'n'] := by
      rcases hhead with rfl | h
      · decide
      · intro hmem
        simp only [List.mem_cons, List.not_mem_nil, or_false] at hmem
        rcases hmem with rfl | rfl | rfl <;> exact absurd h (by decide)
    rw [Written.source, readValue, hread, hc, List.cons_append, readString_of_ne hquote,
      readLiteral_of_notMem hletter, ← hc]
    rfl
  | literal l => cases l <;> rfl

theorem skip_source (v : Written) (s : List Char) : skip (v.source ++ s) = v.source ++ s := by
  cases v with
  | string codes => exact skip_cons (by decide) _
  | number n =>
    obtain ⟨c, r, hc, hhead⟩ := numeral_head n
    have hblank : isBlank c = false := by
      rcases hhead with rfl | h
      · decide
      · rw [Bool.eq_false_iff]
        intro hblank
        simp only [isBlank, Bool.or_eq_true, beq_iff_eq] at hblank
        rcases hblank with ((rfl | rfl) | rfl) | rfl <;> exact absurd h (by decide)
    rw [Written.source, hc]
    exact skip_cons hblank _
  | literal l => cases l <;> rfl

/-- The name of a field and its colon. -/
theorem readMember_name (name : List Code) (s : List Char) : readMember (nameSource name ++ s) =
    (readValue (skip s)).map fun value => ((text name, value.1), value.2) := by
  have htext : nameSource name ++ s = '"' :: (source name ++ '"' :: (':' :: s)) := by
    simp [nameSource]
  unfold readMember
  rw [htext, skip_cons (by decide), readString_codes]
  simp only [Option.bind_eq_bind, Option.bind_some]
  rw [skip_cons (by decide), accept_cons, Option.bind_some]
  cases readValue (skip s) <;> rfl

theorem readMember_field (f : Field) (hs : Closes s) :
    readMember (nameSource f.name ++ (f.value.source ++ s)) = some (f.member, s) := by
  rw [readMember_name, skip_source, readValue_source f.value hs]
  rfl

theorem readValue_quote (s : List Char) :
    readValue ('"' :: s) = (readString ('"' :: s)).map fun r => (.string r.1, r.2) := by
  have hliteral : readLiteral ('"' :: s) = none := readLiteral_of_notMem (by decide) s
  have hnumber : readNumber ('"' :: s) = none := rfl
  unfold readValue
  rw [hliteral, hnumber]
  cases readString ('"' :: s) <;> rfl

/-- What is read from a name and a quote on starts with a member that is a string, and a comma or a
brace behind it. -/
theorem string_of_readMembers {fuel : ℕ} {name : List Code} {r : List (List Char × Value) × List Char}
    (h : readMembers fuel (nameSource name ++ '"' :: s) = some r) : ∃ codes rest members,
      s = source codes ++ '"' :: rest ∧ r.1 = (text name, .string (text codes)) :: members ∧
        Closes (skip rest) := by
  cases fuel with
  | zero => cases h
  | succ fuel =>
    rw [readMembers, readMember_name, skip_cons (by decide), readValue_quote, Option.map_map] at h
    simp only [Option.bind_eq_bind, Option.bind_eq_some_iff, Option.map_eq_some_iff] at h
    obtain ⟨member, ⟨⟨t, rest⟩, hread, rfl⟩, h⟩ := h
    have hchars : readChars (s.length + 1) s = some (t, rest) := hread
    obtain ⟨codes, rfl, rfl⟩ := codes_of_readChars _ hchars
    have haccept : ∀ {c : Char} {x y : List Char}, accept c x = some y → x = c :: y := by
      intro c x y hxy
      cases x with
      | nil => cases hxy
      | cons d x =>
        rw [accept, Option.ite_none_right_eq_some] at hxy
        obtain ⟨rfl, hxy⟩ := hxy
        rw [Option.some.inj hxy]
    dsimp only [Function.comp_apply] at h
    cases hcomma : accept ',' (skip rest) with
    | some y =>
      rw [hcomma] at h
      obtain ⟨ms, -, rfl⟩ := Option.map_eq_some_iff.1 h
      exact ⟨codes, rest, ms.1, rfl, rfl, ',', y, haccept hcomma, by simp⟩
    | none =>
      rw [hcomma] at h
      obtain ⟨y, hbrace, rfl⟩ := Option.map_eq_some_iff.1 h
      exact ⟨codes, rest, [], rfl, rfl, '\x7d', y, haccept hbrace, by simp⟩

/-- **The fields in front** are read one by one. -/
theorem readMembers_before (fuel : ℕ) (s : List Char) : ∀ fields : List Field,
    readMembers (fields.length + fuel) (before fields s) =
      (readMembers fuel s).map fun r => (fields.map Field.member ++ r.1, r.2)
  | [] => by
    rw [List.length_nil, Nat.zero_add]
    cases h : readMembers fuel s <;> simp [before, h]
  | f :: fields => by
    have ih := readMembers_before fuel s fields
    have hbefore : before (f :: fields) s =
        nameSource f.name ++ (f.value.source ++ ',' :: before fields s) := rfl
    have hfuel : (f :: fields).length + fuel = fields.length + fuel + 1 := by
      rw [List.length_cons]
      omega
    rw [hbefore, hfuel, readMembers, readMember_field f ⟨',', _, rfl, by simp⟩]
    simp only [Option.bind_eq_bind, Option.bind_some]
    rw [skip_cons (by decide), accept_cons]
    dsimp only
    rw [ih, Option.map_map]
    rfl

theorem readMembers_last (fuel : ℕ) (f : Field) (s : List Char) :
    readMembers (fuel + 1) (nameSource f.name ++ (f.value.source ++ '\x7d' :: s)) =
      some ([f.member], s) := by
  have hcomma : accept ',' ('\x7d' :: s) = none := rfl
  rw [readMembers, readMember_field f ⟨'\x7d', _, rfl, by simp⟩]
  simp only [Option.bind_eq_bind, Option.bind_some]
  rw [skip_cons (by decide), hcomma]
  dsimp only
  rw [accept_cons]
  rfl

theorem length_before (fields : List Field) (s : List Char) :
    fields.length + s.length ≤ (before fields s).length := by
  induction fields with
  | nil => simp [before]
  | cons f fields ih =>
    have hbefore : before (f :: fields) s =
        nameSource f.name ++ (f.value.source ++ ',' :: before fields s) := rfl
    rw [hbefore, List.length_append, List.length_append, List.length_cons, List.length_cons]
    omega

/-- **An object that starts with some fields.** -/
theorem readObject_before {fields : List Field} (hne : fields ≠ []) (s : List Char) :
    ∃ fuel, s.length < fuel ∧ readObject ('\x7b' :: before fields s) =
      (readMembers fuel s).bind fun r =>
        if skip r.2 = [] then some (fields.map Field.member ++ r.1) else none := by
  have hlen := length_before fields s
  obtain ⟨f, rest, rfl⟩ := List.exists_cons_of_ne_nil hne
  have hfront : ∃ r, before (f :: rest) s = '"' :: r := ⟨_, rfl⟩
  obtain ⟨r, hr⟩ := hfront
  have hbrace : accept '\x7d' (skip (before (f :: rest) s)) = none := by
    rw [hr, skip_cons (by decide)]
    rfl
  refine ⟨(before (f :: rest) s).length + 1 - (f :: rest).length, by omega, ?_⟩
  have hfuel : (before (f :: rest) s).length + 1 =
      (f :: rest).length + ((before (f :: rest) s).length + 1 - (f :: rest).length) := by
    omega
  unfold readObject
  rw [skip_cons (by decide), accept_cons]
  simp only [Option.bind_eq_bind, Option.bind_some]
  rw [hbrace]
  dsimp only
  rw [hfuel, readMembers_before, ← hfuel]
  cases readMembers ((before (f :: rest) s).length + 1 - (f :: rest).length) s <;> rfl

/-- The text of an object without whitespace. -/
def objectSource (fields : List Field) (last : Field) : List Char :=
  '\x7b' :: before fields (nameSource last.name ++ (last.value.source ++ ['\x7d']))

/-- **An object is read as its fields.** -/
theorem readObject_objectSource {fields : List Field} (hne : fields ≠ []) (last : Field) :
    readObject (objectSource fields last) = some (fields.map Field.member ++ [last.member]) := by
  obtain ⟨fuel, hfuel, hread⟩ :=
    readObject_before hne (nameSource last.name ++ (last.value.source ++ ['\x7d']))
  obtain ⟨k, rfl⟩ : ∃ k, fuel = k + 1 := ⟨fuel - 1, by omega⟩
  rw [objectSource, hread, readMembers_last]
  rfl

end OpenDisplay.Lib.JsonObject
