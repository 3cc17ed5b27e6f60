import OpenDisplay.App.ConfigReference
import Mathlib.Data.List.Forall2
import Mathlib.Logic.Relation

/-! # White space in the configuration file

White space at the ends of a line, inside the brackets of a header and around the equals sign of a
setting (`Spaced`) is trimmed away, so it changes neither the configuration nor the warnings; nor does
a carriage return in front of a line feed. -/

namespace OpenDisplay.App.ConfigSpacing

open OpenDisplay.Lib.Buffer OpenDisplay.Lib.Text OpenDisplay.Lib.Trim OpenDisplay.App.Config OpenDisplay.App.ConfigReference

/-- White space only. -/
def Blank (a : List UInt8) : Prop := ∀ b ∈ a, isSpace b = true

/-- **The second line is the first with more white space.** -/
inductive Spaced : List UInt8 → List UInt8 → Prop
  /-- Around the line: a header, the front of a key, the end of a value. -/
  | line {a b : List UInt8} (ha : Blank a) (l : List UInt8) (hb : Blank b) : Spaced l (a ++ l ++ b)
  /-- Around the name in a header. -/
  | name {pre a b post : List UInt8} (hpre : Blank pre) (ha : Blank a) (name : List UInt8)
      (hb : Blank b) (hpost : Blank post) :
      Spaced (pre ++ 91 :: (name ++ 93 :: post)) (pre ++ 91 :: (a ++ name ++ b ++ 93 :: post))
  /-- Around the first equals sign of a line that is not a header. -/
  | equals {key a b value : List UInt8} (hkey : 61 ∉ key)
      (hheader : ∀ name, kind (key ++ 61 :: value) ≠ .header name) (ha : Blank a) (hb : Blank b) :
      Spaced (key ++ 61 :: value) (key ++ a ++ 61 :: (b ++ value))

/-- The second text is the first with more white space in its lines. -/
def Respaced (input input' : List UInt8) : Prop :=
  List.Forall₂ (Relation.ReflTransGen Spaced) (lines input) (lines input')

/-- The text with each line feed replaced by a carriage return and a line feed. -/
def crlf (input : List UInt8) : List UInt8 := input.flatMap fun b => if b = 10 then [13, 10] else [b]

/-! ### A line -/

theorem head?_dropWhile_append {a : List UInt8} (ha : Blank a) (key y y' : List UInt8) :
    ((key ++ a).dropWhile isSpace ++ 61 :: y').head? = (key.dropWhile isSpace ++ 61 :: y).head? := by
  rw [List.dropWhile_append]
  split
  case isTrue hkey =>
    rw [dropWhile_eq_nil_of_forall ha, List.isEmpty_iff.1 hkey]
    rfl
  case isFalse hkey =>
    obtain ⟨c, rest, hc⟩ := List.exists_cons_of_ne_nil (mt List.isEmpty_iff.2 hkey)
    rw [hc]
    rfl

theorem getLast?_append_rdropWhile {b : List UInt8} (hb : Blank b) (value x x' : List UInt8) :
    (x' ++ 61 :: (b ++ value).rdropWhile isSpace).getLast? =
      (x ++ 61 :: value.rdropWhile isSpace).getLast? := by
  have hrev : Blank b.reverse := fun c hc => hb c (List.mem_reverse.1 hc)
  have h := head?_dropWhile_append hrev value.reverse x.reverse x'.reverse
  rw [← List.reverse_append] at h
  simpa [List.getLast?_eq_head?_reverse, List.rdropWhile] using h

/-- What the loop does with a text that has an equals sign and is no header. -/
theorem text_equals (st : Parse) {x y : List UInt8} (hx : 61 ∉ x)
    (hheader : ¬ ((x ++ 61 :: y).head? = some 91 ∧ (x ++ 61 :: y).getLast? = some 93)) :
    st.text (x ++ 61 :: y) =
      if (x ++ 61 :: y).head? = some 59 ∨ (x ++ 61 :: y).head? = some 35 then st
      else st.setting (trim isSpace x) (trim isSpace y) := by
  have hne : ¬ x ++ 61 :: y = [] := by simp
  rw [Parse.text, (cut_equals hx y).1]
  simp only [hne, false_or, if_neg hheader]
  rw [List.take_left, ← List.drop_drop, List.drop_left, List.drop_one, List.tail_cons]

theorem text_header (st : Parse) (name : List UInt8) :
    st.text (91 :: (name ++ [93])) = { st with sectionName := trim isSpace name } := by
  have hslice : slice (91 :: (name ++ [93])) 1 ((91 :: (name ++ [93])).length - 2) = name := by
    simp [slice]
  have hlast : (91 :: (name ++ [93])).getLast? = some 93 := by
    rw [← List.cons_append, List.getLast?_concat]
  unfold Parse.text
  rw [if_neg (by simp), if_pos ⟨rfl, hlast⟩, hslice]

theorem not_header_of_kind {line text : List UInt8} (htext : trim isSpace line = text)
    (h : ∀ name, kind line ≠ .header name) :
    ¬ (text.head? = some 91 ∧ text.getLast? = some 93) := by
  rintro ⟨hhead, hlast⟩
  obtain ⟨rest, rfl⟩ := List.head?_eq_some_iff.1 hhead
  refine h (trim isSpace rest.dropLast) ?_
  unfold kind
  rw [htext]
  dsimp only
  rw [if_neg (by decide), if_pos (getLast?_cons_iff.1 ⟨rfl, hlast⟩)]

/-- **White space does not change what the loop does with a line.** -/
theorem line_spaced {l l' : List UInt8} (h : Spaced l l') (st : Parse) : st.line l' = st.line l := by
  unfold Parse.line
  cases h with
  | line ha _ hb => rw [trim_append_right _ hb, trim_append_left ha]
  | @name pre a b post hpre ha name hb hpost =>
    have hopen (inner : List UInt8) :
        trim isSpace (pre ++ 91 :: (inner ++ 93 :: post)) = 91 :: (inner ++ [93]) := by
      rw [trim_append_left hpre, ← List.nil_append (91 :: _), trim_append_cons (by decide),
        rdropWhile_append_cons (by decide), rdropWhile_eq_nil_of_forall hpost]
      rfl
    rw [hopen, hopen, text_header, text_header, trim_append_right _ hb, trim_append_left ha]
  | @equals key a b value hkey hheader ha hb =>
    have hspace : isSpace 61 = false := by decide
    have hkeep : trim isSpace (key ++ 61 :: value) =
        key.dropWhile isSpace ++ 61 :: value.rdropWhile isSpace := trim_append_cons hspace key value
    have hx : 61 ∉ key.dropWhile isSpace := fun hmem => hkey ((List.dropWhile_sublist _).mem hmem)
    have hx' : 61 ∉ (key ++ a).dropWhile isSpace := by
      intro hmem
      rcases List.mem_append.1 ((List.dropWhile_sublist _).mem hmem) with hmem | hmem
      · exact hkey hmem
      · exact absurd (ha 61 hmem) (by decide)
    have hno := not_header_of_kind hkeep hheader
    have hhead := head?_dropWhile_append ha key (value.rdropWhile isSpace)
      ((b ++ value).rdropWhile isSpace)
    have hlast := getLast?_append_rdropWhile hb value (key.dropWhile isSpace)
      ((key ++ a).dropWhile isSpace)
    rw [trim_append_cons hspace, hkeep, text_equals _ hx hno,
      text_equals _ hx' (by rw [hhead, hlast]; exact hno), hhead, trim_dropWhile, trim_dropWhile,
      trim_rdropWhile, trim_rdropWhile, trim_append_right _ ha, trim_append_left hb]

/-! ### A text -/

theorem foldl_respaced {ls ls' : List (List UInt8)}
    (h : List.Forall₂ (Relation.ReflTransGen Spaced) ls ls') (st : Parse) :
    ls'.foldl Parse.line st = ls.foldl Parse.line st := by
  induction h generalizing st with
  | nil => rfl
  | cons hline _ ih =>
    have hsame : ∀ {l l'}, Relation.ReflTransGen Spaced l l' → st.line l' = st.line l := by
      intro l l' hl
      induction hl with
      | refl => rfl
      | tail _ hlast ih => exact (line_spaced hlast st).trans ih
    rw [List.foldl_cons, List.foldl_cons, hsame hline]
    exact ih _

theorem parseConfig_respaced {input input' : List UInt8} (h : Respaced input input')
    (warnings : List (List UInt8)) : parseConfig input' warnings = parseConfig input warnings := by
  rw [parseConfig, foldl_respaced h, parseConfig]

/-- Carriage returns in front of the line feeds end up at the ends of the lines. -/
theorem lines_crlf (input : List UInt8) :
    List.Forall₂ (fun l l' => l' = l ∨ l' = l ++ [13]) (lines input) (lines (crlf input)) := by
  induction input with
  | nil => exact .nil
  | cons b text ih =>
    by_cases hb : b = 10
    · subst hb
      have hcrlf : lines (crlf (10 :: text)) = [13] :: lines (crlf text) := rfl
      rw [hcrlf]
      exact .cons (.inr rfl) ih
    · have hcrlf : crlf (b :: text) = b :: crlf text := by
        rw [crlf, List.flatMap_cons, if_neg hb]
        rfl
      rw [hcrlf, lines, lines, if_neg hb, if_neg hb]
      generalize lines text = ls, lines (crlf text) = ls' at ih
      cases ih with
      | nil => exact .cons (.inl rfl) .nil
      | cons hline hrest =>
        rcases hline with rfl | rfl
        · exact .cons (.inl rfl) hrest
        · exact .cons (.inr rfl) hrest

theorem crlf_respaced (input : List UInt8) : Respaced input (crlf input) := by
  refine (lines_crlf input).imp fun l l' h => ?_
  rcases h with rfl | rfl
  · exact .refl
  · exact .single (Spaced.line (a := []) (b := [13]) (List.forall_mem_nil _) l
      (List.forall_mem_singleton.2 rfl))

/-- **The configuration file means what its lines mean.**  For every text, each setting has the value
of the last line under its section that has its key and a valid value, or its default; a warning is
added for each line that is neither blank nor a comment, no header and no valid setting, in the order
of the lines; and neither changes when line feeds become carriage returns with line feeds, or when
white space is added around headers, section names, keys and values. -/
theorem parseConfig_meets (input : List UInt8) (warnings : List (List UInt8)) :
    (widthSetting.Holds (lines input) (parseConfig input warnings).1.width ∧
      heightSetting.Holds (lines input) (parseConfig input warnings).1.height ∧
      bitrateKbpsSetting.Holds (lines input) (parseConfig input warnings).1.bitrateKbps ∧
      fullscreenSetting.Holds (lines input) (parseConfig input warnings).1.fullscreen ∧
      adaptiveResolutionSetting.Holds (lines input)
        (parseConfig input warnings).1.adaptiveResolution) ∧
    (parseConfig input warnings).2 = warnings ++ warningsOf (lines input) ∧
    parseConfig (crlf input) warnings = parseConfig input warnings ∧
    ∀ input', Respaced input input' → parseConfig input' warnings = parseConfig input warnings := by
  have h := means_foldl warnings (lines input)
  exact ⟨⟨h.width, h.height, h.bitrateKbps, h.fullscreen, h.adaptiveResolution⟩, h.warnings,
    parseConfig_respaced (crlf_respaced input) warnings,
    fun _ hspaced => parseConfig_respaced hspaced warnings⟩

/-- Tabs around a value. -/
theorem parseConfig_meets_tabs :
    parseConfig (ascii "[display]\nwidth=\t1920\t") [] =
      parseConfig (ascii "[display]\nwidth=1920") [] := by
  have hvalue : Spaced (ascii "width" ++ 61 :: ascii "1920")
      (ascii "width" ++ [] ++ 61 :: ([9] ++ ascii "1920")) :=
    .equals (by decide) (fun _ h => Kind.noConfusion h) (List.forall_mem_nil _)
      (List.forall_mem_singleton.2 rfl)
  have hend : Spaced (ascii "width=\t1920") ([] ++ ascii "width=\t1920" ++ [9]) :=
    .line (List.forall_mem_nil _) _ (List.forall_mem_singleton.2 rfl)
  exact (parseConfig_meets (ascii "[display]\nwidth=1920") []).2.2.2 _
    (.cons .refl (.cons (.tail (.single hvalue) hend) .nil))

end OpenDisplay.App.ConfigSpacing
