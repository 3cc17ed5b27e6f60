import OpenDisplay.App.Config

/-! # What the configuration file means

The meaning of a text is given by its lines: `kind` says what a line is, `sectionAt` which section is
in force at it, and `Setting.Holds` that a setting has the value of the last line that gives it a valid
one, or its default. `Bad` are the lines that are warned of.

The loop is related to this line by line: `line_spec` says what one line does, and `run_spec` that
after any number of lines the loop holds what they mean. -/

namespace OpenDisplay.App.ConfigReference

open OpenDisplay.Lib.Text OpenDisplay.App.Config
open OpenDisplay.Lib.Trim (trim)

/-! ### The meaning of a text -/

/-- What a line is. -/
inductive Kind
  /-- It is blank or a comment. -/
  | ignored
  /-- The header of a section. -/
  | header (name : List UInt8)
  | setting (key value : List UInt8)
  /-- None of these. -/
  | other

/-- What a line is, by its text without white space at the ends. -/
def kind (line : List UInt8) : Kind :=
  match trim isSpace line with
  | [] => .ignored
  | c :: rest =>
    if c = 59 ∨ c = 35 then .ignored
    else if c = 91 ∧ rest.getLast? = some 93 then .header (trim isSpace rest.dropLast)
    else if 61 ∈ c :: rest then
      .setting (trim isSpace ((c :: rest).takeWhile (· ≠ 61)))
        (trim isSpace (((c :: rest).dropWhile (· ≠ 61)).drop 1))
    else .other

/-- The name in a header. -/
def Kind.name? : Kind → Option (List UInt8)
  | .header name => some name
  | _ => none

/-- The section in force at the line `i`: the one of the last header before it. -/
def sectionAt (ls : List (List UInt8)) (i : ℕ) : List UInt8 :=
  ((ls.take i).filterMap fun line => (kind line).name?).getLastD []

/-- An integer in full: digits, with a minus sign or not. -/
def IsInteger (text : List UInt8) (n : ℤ) : Prop :=
  ∃ ds, ds ≠ [] ∧ (∀ b ∈ ds, IsDigit b) ∧
    (text = ds ∧ n = value ds ∨ text = 45 :: ds ∧ n = -(value ds : ℤ))

/-- A boolean: `true` or `1`, `false` or `0`. -/
def IsBoolean (text : List UInt8) (b : Bool) : Prop :=
  b = true ∧ (text = ascii "true" ∨ text = ascii "1") ∨
    b = false ∧ (text = ascii "false" ∨ text = ascii "0")

/-- A setting: its section and key, the values that are valid for it, and its default. -/
structure Setting (α : Type) where
  sectionName : List UInt8
  key : List UInt8
  Valid : List UInt8 → α → Prop
  default : α

def widthSetting : Setting ℤ where
  sectionName := ascii "display"
  key := ascii "width"
  Valid text n := IsInteger text n ∧ 320 ≤ n ∧ n ≤ 8192 ∧ Even n
  default := 1280

def heightSetting : Setting ℤ where
  sectionName := ascii "display"
  key := ascii "height"
  Valid text n := IsInteger text n ∧ 240 ≤ n ∧ n ≤ 8192 ∧ Even n
  default := 720

def fullscreenSetting : Setting Bool where
  sectionName := ascii "display"
  key := ascii "fullscreen"
  Valid := IsBoolean
  default := false

def adaptiveResolutionSetting : Setting Bool where
  sectionName := ascii "display"
  key := ascii "adaptive_resolution"
  Valid := IsBoolean
  default := false

def bitrateKbpsSetting : Setting ℤ where
  sectionName := ascii "video"
  key := ascii "bitrate_kbps"
  Valid text n := IsInteger text n ∧ 1000 ≤ n ∧ n ≤ 100000
  default := 18000

variable {α : Type}

/-- The line `i` gives the setting the valid value `x`. -/
def Setting.Gives (s : Setting α) (ls : List (List UInt8)) (i : ℕ) (x : α) : Prop :=
  ∃ line text, ls[i]? = some line ∧ sectionAt ls i = s.sectionName ∧
    kind line = .setting s.key text ∧ s.Valid text x

/-- **The value of a setting**: that of the last line that gives one, or else the default. -/
def Setting.Holds (s : Setting α) (ls : List (List UInt8)) (x : α) : Prop :=
  (∃ i, s.Gives ls i x ∧ ∀ j y, i < j → ¬ s.Gives ls j y) ∨
    (∀ i y, ¬ s.Gives ls i y) ∧ x = s.default

/-- The line `i` is a valid setting. -/
def ValidSetting (ls : List (List UInt8)) (i : ℕ) : Prop :=
  (∃ x, widthSetting.Gives ls i x) ∨ (∃ x, heightSetting.Gives ls i x) ∨
    (∃ x, fullscreenSetting.Gives ls i x) ∨ (∃ x, adaptiveResolutionSetting.Gives ls i x) ∨
    ∃ x, bitrateKbpsSetting.Gives ls i x

/-- **The line `i` is warned of**: it is neither blank nor a comment, no header and no valid
setting. -/
def Bad (ls : List (List UInt8)) (i : ℕ) : Prop :=
  ∃ line, ls[i]? = some line ∧ kind line ≠ .ignored ∧ (∀ name, kind line ≠ .header name) ∧
    ¬ ValidSetting ls i

/-- What is wrong with a setting of the section `sectionName`. -/
def settingReason (sectionName key : List UInt8) : String :=
  if sectionName = ascii "display" ∧ (key = ascii "width" ∨ key = ascii "height" ∨
      key = ascii "fullscreen" ∨ key = ascii "adaptive_resolution") ∨
      sectionName = ascii "video" ∧ key = ascii "bitrate_kbps" then ": invalid value"
  else ": unknown setting"

/-- What is wrong with a line that is warned of. -/
def Kind.reason (sectionName : List UInt8) : Kind → String
  | .setting key _ => settingReason sectionName key
  | _ => ": expected key=value"

/-- The warning about the line `i`; lines are counted from 1. -/
def warning (ls : List (List UInt8)) (i : ℕ) : List UInt8 :=
  ascii "line " ++ decimal (i + 1) ++ ascii ((kind (ls.getD i [])).reason (sectionAt ls i))

open Classical in
/-- The warnings, in the order of the lines. -/
noncomputable def warningsOf (ls : List (List UInt8)) : List (List UInt8) :=
  ((List.range ls.length).filter (Bad ls ·)).map (warning ls)

/-! ### Values -/

/-- Digits, all there are, and nothing behind them. -/
theorem readDigits {ds : List UInt8} (bound : ℕ → Prop) [DecidablePred bound] (f : ℕ → ℤ) {n : ℤ} :
    (if ds.takeWhile (fun b => decide (IsDigit b)) = [] ∨
          bound (value (ds.takeWhile fun b => decide (IsDigit b))) then none
      else some (f (value (ds.takeWhile fun b => decide (IsDigit b))),
        ds.drop (ds.takeWhile fun b => decide (IsDigit b)).length)) = some (n, []) ↔
      ds ≠ [] ∧ (∀ b ∈ ds, IsDigit b) ∧ ¬ bound (value ds) ∧ n = f (value ds) := by
  rw [drop_length_takeWhile]
  constructor
  · intro h
    split at h
    case isTrue => cases h
    case isFalse hsome =>
      obtain ⟨hn, hrest⟩ := Prod.mk.inj (Option.some.inj h)
      have hall : ∀ b ∈ ds, IsDigit b := by simpa [List.dropWhile_eq_nil_iff] using hrest
      have htake : ds.takeWhile (fun b => decide (IsDigit b)) = ds :=
        List.takeWhile_eq_self_iff.2 (by simpa using hall)
      rw [htake] at hsome hn
      exact ⟨fun hnil => hsome (.inl hnil), hall, fun hb => hsome (.inr hb), hn.symm⟩
  · rintro ⟨hne, hall, hbound, rfl⟩
    have htake : ds.takeWhile (fun b => decide (IsDigit b)) = ds :=
      List.takeWhile_eq_self_iff.2 (by simpa using hall)
    have hdrop : ds.dropWhile (fun b => decide (IsDigit b)) = [] :=
      List.dropWhile_eq_nil_iff.2 (by simpa using hall)
    rw [htake, hdrop, if_neg (not_or.2 ⟨hne, hbound⟩)]

theorem readInt_eq_some_iff_fromChars {text : List UInt8} {n : ℤ} :
    readInt text = some n ↔ fromChars text = some (n, []) := by
  unfold readInt
  split
  case h_1 number heq => simp [heq]
  case h_2 hne =>
    constructor
    · intro h
      cases h
    · intro h
      exact absurd h (hne n)

/-- **An integer is read in full, where it fits an `int`.** -/
theorem readInt_eq_some {text : List UInt8} {n : ℤ} :
    readInt text = some n ↔ IsInteger text n ∧ -2147483648 ≤ n ∧ n ≤ 2147483647 := by
  rw [readInt_eq_some_iff_fromChars]
  unfold fromChars
  split
  case h_1 rest =>
    rw [readDigits (2 ^ 31 < ·) fun v => -(v : ℤ)]
    constructor
    · rintro ⟨hne, hall, hbound, rfl⟩
      exact ⟨⟨rest, hne, hall, .inr ⟨rfl, rfl⟩⟩, by omega, by omega⟩
    · rintro ⟨⟨ds, hne, hall, h⟩, hlo, hhi⟩
      rcases h with ⟨rfl, -⟩ | ⟨h, rfl⟩
      · exact absurd (hall 45 (by simp)) (by decide)
      · obtain rfl := (List.cons.inj h).2
        exact ⟨hne, hall, by omega, rfl⟩
  case h_2 hminus =>
    rw [readDigits (2 ^ 31 ≤ ·) fun v => (v : ℤ)]
    constructor
    · rintro ⟨hne, hall, hbound, rfl⟩
      exact ⟨⟨text, hne, hall, .inl ⟨rfl, rfl⟩⟩, by omega, by omega⟩
    · rintro ⟨⟨ds, hne, hall, h⟩, hlo, hhi⟩
      rcases h with ⟨rfl, rfl⟩ | ⟨rfl, -⟩
      · exact ⟨hne, hall, by omega, rfl⟩
      · exact absurd rfl (hminus ds)

theorem filter_readInt_eq_some {valid : ℤ → Prop} [DecidablePred valid] {text : List UInt8} {n : ℤ}
    (hfit : ∀ n, valid n → -2147483648 ≤ n ∧ n ≤ 2147483647) :
    (readInt text).filter (fun n => valid n) = some n ↔ IsInteger text n ∧ valid n := by
  rw [Option.filter_eq_some_iff, readInt_eq_some, decide_eq_true_iff]
  constructor
  · rintro ⟨⟨hint, -⟩, hvalid⟩
    exact ⟨hint, hvalid⟩
  · rintro ⟨hint, hvalid⟩
    exact ⟨⟨hint, hfit n hvalid⟩, hvalid⟩

theorem tmod_two_iff {n : ℤ} : n.tmod 2 = 0 ↔ Even n := by
  rw [Int.even_iff, ← Int.dvd_iff_tmod_eq_zero, Int.dvd_iff_emod_eq_zero]

theorem readWidth_eq_some {text : List UInt8} {n : ℤ} :
    readWidth text = some n ↔ widthSetting.Valid text n := by
  rw [readWidth, filter_readInt_eq_some (by omega), tmod_two_iff]
  rfl

theorem readHeight_eq_some {text : List UInt8} {n : ℤ} :
    readHeight text = some n ↔ heightSetting.Valid text n := by
  rw [readHeight, filter_readInt_eq_some (by omega), tmod_two_iff]
  rfl

theorem readBitrateKbps_eq_some {text : List UInt8} {n : ℤ} :
    readBitrateKbps text = some n ↔ bitrateKbpsSetting.Valid text n := by
  rw [readBitrateKbps, filter_readInt_eq_some (by omega)]
  rfl

theorem readBool_eq_some {text : List UInt8} {b : Bool} :
    readBool text = some b ↔ IsBoolean text b := by
  unfold readBool IsBoolean
  split
  case isTrue htrue =>
    have hfalse : ¬ (text = ascii "false" ∨ text = ascii "0") := by
      rcases htrue with rfl | rfl <;> decide
    simp [htrue, hfalse, eq_comm]
  case isFalse htrue =>
    split
    case isTrue hfalse => simp [htrue, hfalse, eq_comm]
    case isFalse hfalse => simp [htrue, hfalse]

/-! ### One line -/

/-- What the loop does with a line of each kind. -/
def take (st : Parse) : Kind → Parse
  | .ignored => st
  | .header name => { st with sectionName := name }
  | .setting key text => st.setting key text
  | .other => st.warn ": expected key=value"

/-- The first equals sign cuts the text in two. -/
theorem cut_equals {x : List UInt8} (hx : 61 ∉ x) (y : List UInt8) :
    find [61] (x ++ 61 :: y) = some x.length ∧ (x ++ 61 :: y).takeWhile (· ≠ 61) = x ∧
      (x ++ 61 :: y).dropWhile (· ≠ 61) = 61 :: y := by
  have hne : ∀ b ∈ x, b ≠ 61 := by rintro b hb rfl; exact hx hb
  refine ⟨?_, ?_, ?_⟩
  · rw [find_append_of_forall_ne [] x _ hne, find_of_prefix (by simp), Option.map_some,
      Nat.zero_add]
  · rw [List.takeWhile_append_of_pos (by simpa using hne), List.takeWhile_cons_of_neg (by simp),
      List.append_nil]
  · rw [List.dropWhile_append_of_pos (by simpa using hne), List.dropWhile_cons_of_neg (by simp)]

theorem find_of_not_mem {l : List UInt8} (h : 61 ∉ l) : find [61] l = none := by
  have hne : ∀ b ∈ l, b ≠ 61 := by rintro b hb rfl; exact h hb
  have hfind := find_append_of_forall_ne [] l [] hne
  rw [List.append_nil] at hfind
  rw [hfind]
  rfl

theorem getLast?_cons_iff {c : UInt8} {rest : List UInt8} :
    c = 91 ∧ (c :: rest).getLast? = some 93 ↔ c = 91 ∧ rest.getLast? = some 93 := by
  rw [List.getLast?_cons]
  cases rest.getLast? with
  | none =>
    rw [Option.getD_none]
    constructor
    · rintro ⟨rfl, h⟩
      exact absurd h (by decide)
    · rintro ⟨-, h⟩
      cases h
  | some b => rfl

/-- **The loop goes by the kind of the line.** -/
theorem text_eq_take (st : Parse) (line : List UInt8) :
    st.text (trim isSpace line) = take st (kind line) := by
  unfold kind Parse.text
  cases trim isSpace line with
  | nil => rfl
  | cons c rest =>
    simp only [List.head?_cons, Option.some.injEq, reduceCtorEq, false_or]
    by_cases hcomment : c = 59 ∨ c = 35
    · rw [if_pos hcomment, if_pos hcomment]
      rfl
    rw [if_neg hcomment, if_neg hcomment]
    by_cases hheader : c = 91 ∧ rest.getLast? = some 93
    · rw [if_pos (getLast?_cons_iff.2 hheader), if_pos hheader, take]
      simp [Lib.Buffer.slice, List.dropLast_eq_take]
    rw [if_neg (mt getLast?_cons_iff.1 hheader), if_neg hheader]
    by_cases hmem : 61 ∈ c :: rest
    · obtain ⟨x, y, hcut, hx⟩ := List.eq_append_cons_of_mem hmem
      obtain ⟨hfind, hkey, hvalue⟩ := cut_equals hx y
      rw [if_pos hmem, hcut, hfind, hkey, hvalue]
      simp only [take, List.take_left, List.drop_one, List.tail_cons]
      rw [← List.drop_drop, List.drop_left, List.drop_one, List.tail_cons]
    · rw [if_neg hmem, find_of_not_mem hmem]
      rfl

/-- The value that a line of a kind gives to a setting, read by `read`. -/
def Setting.given (s : Setting α) (read : List UInt8 → Option α) (sectionName : List UInt8) :
    Kind → Option α
  | .setting key text => if sectionName = s.sectionName ∧ key = s.key then read text else none
  | _ => none

/-- A line of the kind gives no setting a value. -/
def GivesNone (sectionName : List UInt8) (k : Kind) : Prop :=
  widthSetting.given readWidth sectionName k = none ∧
    heightSetting.given readHeight sectionName k = none ∧
    fullscreenSetting.given readBool sectionName k = none ∧
    adaptiveResolutionSetting.given readBool sectionName k = none ∧
    bitrateKbpsSetting.given readBitrateKbps sectionName k = none

/-- A line of the kind is warned of in the section. -/
def Kind.Warned (sectionName : List UInt8) (k : Kind) : Prop :=
  k ≠ .ignored ∧ (∀ name, k ≠ .header name) ∧ GivesNone sectionName k

/-- **What a line does**: it sets what it gives, and is reported where it gives nothing. -/
structure Effect (st : Parse) (k : Kind) (st' : Parse) : Prop where
  width : st'.config.width =
    (widthSetting.given readWidth st.sectionName k).getD st.config.width
  height : st'.config.height =
    (heightSetting.given readHeight st.sectionName k).getD st.config.height
  fullscreen : st'.config.fullscreen =
    (fullscreenSetting.given readBool st.sectionName k).getD st.config.fullscreen
  adaptiveResolution : st'.config.adaptiveResolution =
    (adaptiveResolutionSetting.given readBool st.sectionName k).getD st.config.adaptiveResolution
  bitrateKbps : st'.config.bitrateKbps =
    (bitrateKbpsSetting.given readBitrateKbps st.sectionName k).getD st.config.bitrateKbps
  sectionName : st'.sectionName = k.name?.getD st.sectionName
  lineNumber : st'.lineNumber = st.lineNumber
  silent : ¬ k.Warned st.sectionName → st'.warnings = st.warnings
  warned : k.Warned st.sectionName → st'.warnings = st.warnings ++
    [ascii "line " ++ decimal st.lineNumber ++ ascii (k.reason st.sectionName)]

theorem given_eq (sectionName key text : List UInt8) :
    widthSetting.given readWidth sectionName (.setting key text) =
        (if sectionName = ascii "display" ∧ key = ascii "width" then readWidth text else none) ∧
      heightSetting.given readHeight sectionName (.setting key text) =
        (if sectionName = ascii "display" ∧ key = ascii "height" then readHeight text else none) ∧
      fullscreenSetting.given readBool sectionName (.setting key text) =
        (if sectionName = ascii "display" ∧ key = ascii "fullscreen" then readBool text else none) ∧
      adaptiveResolutionSetting.given readBool sectionName (.setting key text) =
        (if sectionName = ascii "display" ∧ key = ascii "adaptive_resolution" then readBool text
          else none) ∧
      bitrateKbpsSetting.given readBitrateKbps sectionName (.setting key text) =
        (if sectionName = ascii "video" ∧ key = ascii "bitrate_kbps" then readBitrateKbps text
          else none) :=
  ⟨rfl, rfl, rfl, rfl, rfl⟩

theorem warned_setting {sectionName key text : List UInt8} :
    (Kind.setting key text).Warned sectionName ↔ GivesNone sectionName (.setting key text) :=
  ⟨fun h => h.2.2, fun h => ⟨Kind.noConfusion, fun _ => Kind.noConfusion, h⟩⟩

/-- A setting is set where its value is valid, and reported otherwise. -/
theorem setting_effect (st : Parse) (key text : List UInt8) :
    Effect st (.setting key text) (st.setting key text) := by
  unfold Parse.setting
  split_ifs with hw hh hf ha hb
  · obtain ⟨hs, rfl⟩ := hw
    cases hr : readWidth text <;> constructor <;>
      simp +decide [Parse.assign, Parse.warn, warned_setting, GivesNone, given_eq, Kind.reason,
        settingReason, Kind.name?, hs, hr]
  · obtain ⟨hs, rfl⟩ := hh
    cases hr : readHeight text <;> constructor <;>
      simp +decide [Parse.assign, Parse.warn, warned_setting, GivesNone, given_eq, Kind.reason,
        settingReason, Kind.name?, hs, hr]
  · obtain ⟨hs, rfl⟩ := hf
    cases hr : readBool text <;> constructor <;>
      simp +decide [Parse.assign, Parse.warn, warned_setting, GivesNone, given_eq, Kind.reason,
        settingReason, Kind.name?, hs, hr]
  · obtain ⟨hs, rfl⟩ := ha
    cases hr : readBool text <;> constructor <;>
      simp +decide [Parse.assign, Parse.warn, warned_setting, GivesNone, given_eq, Kind.reason,
        settingReason, Kind.name?, hs, hr]
  · obtain ⟨hs, rfl⟩ := hb
    cases hr : readBitrateKbps text <;> constructor <;>
      simp +decide [Parse.assign, Parse.warn, warned_setting, GivesNone, given_eq, Kind.reason,
        settingReason, Kind.name?, hs, hr]
  · have hunknown : settingReason st.sectionName key = ": unknown setting" := by
      refine if_neg ?_
      rintro (⟨hs, hk | hk | hk | hk⟩ | h)
      · exact hw ⟨hs, hk⟩
      · exact hh ⟨hs, hk⟩
      · exact hf ⟨hs, hk⟩
      · exact ha ⟨hs, hk⟩
      · exact hb h
    constructor <;>
      simp [Parse.warn, warned_setting, GivesNone, given_eq, Kind.reason, Kind.name?, hw, hh, hf,
        ha, hb, hunknown]

theorem take_effect (st : Parse) (k : Kind) : Effect st k (take st k) := by
  cases k with
  | ignored => constructor <;> simp [take, Setting.given, Kind.name?, Kind.Warned]
  | header name => constructor <;> simp [take, Setting.given, Kind.name?, Kind.Warned]
  | setting key text => exact setting_effect st key text
  | other =>
    constructor <;>
      simp [take, Parse.warn, Setting.given, Kind.name?, Kind.Warned, GivesNone, Kind.reason]

/-- **One line of the loop**, at its number. -/
theorem line_effect (st : Parse) (line : List UInt8) :
    Effect { st with lineNumber := st.lineNumber + 1 } (kind line) (st.line line) := by
  rw [Parse.line, text_eq_take]
  exact take_effect _ _

/-! ### One line more -/

section snoc

variable {ls : List (List UInt8)} {line : List UInt8} {i : ℕ}

theorem sectionAt_snoc (h : i ≤ ls.length) : sectionAt (ls ++ [line]) i = sectionAt ls i := by
  rw [sectionAt, List.take_append_of_le_length h, sectionAt]

theorem sectionAt_end :
    sectionAt (ls ++ [line]) (ls ++ [line]).length =
      (kind line).name?.getD (sectionAt ls ls.length) := by
  rw [sectionAt, sectionAt, List.take_length, List.take_length, List.filterMap_append]
  cases h : (kind line).name? with
  | none => simp [h]
  | some name => simp [h]

theorem Setting.gives_snoc_of_lt {s : Setting α} {x : α} (h : i < ls.length) :
    s.Gives (ls ++ [line]) i x ↔ s.Gives ls i x := by
  rw [Setting.Gives, sectionAt_snoc h.le, List.getElem?_append_left h, Setting.Gives]

/-- What the line itself gives is what is read of it. -/
theorem Setting.gives_snoc_length {s : Setting α} {read : List UInt8 → Option α} {x : α}
    (hread : ∀ text x, read text = some x ↔ s.Valid text x) :
    s.Gives (ls ++ [line]) ls.length x ↔
      s.given read (sectionAt ls ls.length) (kind line) = some x := by
  have hline : (ls ++ [line])[ls.length]? = some line := by simp
  rw [Setting.Gives, sectionAt_snoc (Nat.le_refl _), hline]
  cases hk : kind line with
  | setting key text =>
    rw [Setting.given]
    constructor
    · rintro ⟨l, t, hl, hsect, hkind, hvalid⟩
      obtain rfl := Option.some.inj hl
      obtain ⟨rfl, rfl⟩ := Kind.setting.inj (hk.symm.trans hkind)
      rw [if_pos ⟨hsect, rfl⟩]
      exact (hread _ _).2 hvalid
    · intro h
      split at h
      case isTrue hmatch =>
        exact ⟨line, text, rfl, hmatch.1, by rw [hk, hmatch.2], (hread _ _).1 h⟩
      case isFalse => cases h
  | _ =>
    constructor
    · rintro ⟨l, t, hl, -, hkind, -⟩
      obtain rfl := Option.some.inj hl
      rw [hk] at hkind
      cases hkind
    · intro h
      cases h

theorem Setting.Gives.lt_length {s : Setting α} {x : α} (h : s.Gives ls i x) : i < ls.length := by
  obtain ⟨line, text, hline, -⟩ := h
  exact (List.getElem?_eq_some_iff.1 hline).1

/-- **A line more, for one setting.** -/
theorem Setting.holds_snoc {s : Setting α} {read : List UInt8 → Option α} {x : α}
    (hread : ∀ text x, read text = some x ↔ s.Valid text x) (h : s.Holds ls x) :
    s.Holds (ls ++ [line])
      ((s.given read (sectionAt ls ls.length) (kind line)).getD x) := by
  have hlast (j : ℕ) (y : α) (hj : ls.length < j) : ¬ s.Gives (ls ++ [line]) j y := fun hg => by
    have := Setting.Gives.lt_length hg
    rw [List.length_append, List.length_singleton] at this
    omega
  cases hgiven : s.given read (sectionAt ls ls.length) (kind line) with
  | some y =>
    exact .inl ⟨ls.length, (gives_snoc_length hread).2 hgiven, hlast⟩
  | none =>
    have hnone (y : α) : ¬ s.Gives (ls ++ [line]) ls.length y := fun hg => by
      rw [gives_snoc_length hread, hgiven] at hg
      cases hg
    have hold (j : ℕ) (y : α) (hg : s.Gives (ls ++ [line]) j y) : s.Gives ls j y := by
      rcases Nat.lt_trichotomy j ls.length with hj | rfl | hj
      · exact (gives_snoc_of_lt hj).1 hg
      · exact absurd hg (hnone y)
      · exact absurd hg (hlast j y hj)
    rcases h with ⟨i, hgives, hafter⟩ | ⟨hnever, rfl⟩
    · exact .inl ⟨i, (gives_snoc_of_lt (Setting.Gives.lt_length hgives)).2 hgives,
        fun j y hj hg => hafter j y hj (hold j y hg)⟩
    · exact .inr ⟨fun j y hg => hnever j y (hold j y hg), rfl⟩

end snoc

/-! ### The warnings -/

section warnings

variable {ls : List (List UInt8)} {line : List UInt8} {i : ℕ}

theorem Setting.exists_gives_snoc {s : Setting α} {read : List UInt8 → Option α}
    (hread : ∀ text x, read text = some x ↔ s.Valid text x) :
    (∃ x, s.Gives (ls ++ [line]) ls.length x) ↔
      s.given read (sectionAt ls ls.length) (kind line) ≠ none := by
  rw [Option.ne_none_iff_exists']
  exact exists_congr fun x => gives_snoc_length hread

/-- A line is a valid setting if and only if it gives something. -/
theorem validSetting_snoc :
    ValidSetting (ls ++ [line]) ls.length ↔
      ¬ GivesNone (sectionAt ls ls.length) (kind line) := by
  rw [ValidSetting, Setting.exists_gives_snoc fun _ _ => readWidth_eq_some,
    Setting.exists_gives_snoc fun _ _ => readHeight_eq_some,
    Setting.exists_gives_snoc (s := fullscreenSetting) fun _ _ => readBool_eq_some,
    Setting.exists_gives_snoc (s := adaptiveResolutionSetting) fun _ _ => readBool_eq_some,
    Setting.exists_gives_snoc fun _ _ => readBitrateKbps_eq_some, GivesNone]
  simp only [not_and_or, ne_eq]

theorem bad_snoc_of_lt (h : i < ls.length) :
    Bad (ls ++ [line]) i ↔ Bad ls i := by
  unfold Bad ValidSetting
  simp only [Setting.gives_snoc_of_lt h, List.getElem?_append_left h]

theorem bad_snoc_length :
    Bad (ls ++ [line]) ls.length ↔ (kind line).Warned (sectionAt ls ls.length) := by
  have hline : (ls ++ [line])[ls.length]? = some line := by simp
  rw [Bad, hline, validSetting_snoc, not_not, Kind.Warned]
  constructor
  · rintro ⟨l, hl, h⟩
    obtain rfl := Option.some.inj hl
    exact h
  · exact fun h => ⟨line, rfl, h⟩

theorem warning_snoc_of_lt (h : i < ls.length) : warning (ls ++ [line]) i = warning ls i := by
  rw [warning, sectionAt_snoc h.le, List.getD_eq_getElem?_getD, List.getElem?_append_left h,
    ← List.getD_eq_getElem?_getD, warning]

open Classical in
/-- **A line more, for the warnings.** -/
theorem warningsOf_snoc :
    warningsOf (ls ++ [line]) = warningsOf ls ++
      ([ls.length].filter (Bad (ls ++ [line]) ·)).map (warning (ls ++ [line])) := by
  have hfilter : (List.range ls.length).filter (Bad (ls ++ [line]) ·) =
      (List.range ls.length).filter (Bad ls ·) :=
    List.filter_congr fun i hi => by simp only [bad_snoc_of_lt (List.mem_range.1 hi)]
  rw [warningsOf, List.length_append, List.length_singleton, List.range_succ, List.filter_append,
    List.map_append, hfilter, warningsOf]
  congr 1
  refine List.map_congr_left fun i hi => warning_snoc_of_lt ?_
  exact List.mem_range.1 (List.mem_filter.1 hi).1

end warnings

/-! ### The loop -/

/-- **The loop holds what the lines read so far mean.** -/
structure Means (warnings : List (List UInt8)) (ls : List (List UInt8)) (st : Parse) : Prop where
  width : widthSetting.Holds ls st.config.width
  height : heightSetting.Holds ls st.config.height
  fullscreen : fullscreenSetting.Holds ls st.config.fullscreen
  adaptiveResolution : adaptiveResolutionSetting.Holds ls st.config.adaptiveResolution
  bitrateKbps : bitrateKbpsSetting.Holds ls st.config.bitrateKbps
  sectionName : st.sectionName = sectionAt ls ls.length
  lineNumber : st.lineNumber = ls.length
  warnings : st.warnings = warnings ++ warningsOf ls

theorem Setting.holds_nil (s : Setting α) : s.Holds [] s.default :=
  .inr ⟨fun _ _ h => absurd (Setting.Gives.lt_length h) (Nat.not_lt_zero _), rfl⟩

theorem means_nil (warnings : List (List UInt8)) : Means warnings [] ⟨{}, [], warnings, 0⟩ where
  width := widthSetting.holds_nil
  height := heightSetting.holds_nil
  fullscreen := fullscreenSetting.holds_nil
  adaptiveResolution := adaptiveResolutionSetting.holds_nil
  bitrateKbps := bitrateKbpsSetting.holds_nil
  sectionName := rfl
  lineNumber := rfl
  warnings := (List.append_nil _).symm

/-- **One line keeps it so.** -/
theorem Means.line {warnings ls : List (List UInt8)} {st : Parse} (h : Means warnings ls st)
    (line : List UInt8) : Means warnings (ls ++ [line]) (st.line line) := by
  have heffect := line_effect st line
  have hnumber : (st.line line).lineNumber = (ls ++ [line]).length := by
    rw [heffect.lineNumber, List.length_append, List.length_singleton, h.lineNumber]
  constructor
  · rw [heffect.width, h.sectionName]
    exact Setting.holds_snoc (fun _ _ => readWidth_eq_some) h.width
  · rw [heffect.height, h.sectionName]
    exact Setting.holds_snoc (fun _ _ => readHeight_eq_some) h.height
  · rw [heffect.fullscreen, h.sectionName]
    exact Setting.holds_snoc (s := fullscreenSetting) (fun _ _ => readBool_eq_some) h.fullscreen
  · rw [heffect.adaptiveResolution, h.sectionName]
    exact Setting.holds_snoc (s := adaptiveResolutionSetting) (fun _ _ => readBool_eq_some)
      h.adaptiveResolution
  · rw [heffect.bitrateKbps, h.sectionName]
    exact Setting.holds_snoc (fun _ _ => readBitrateKbps_eq_some) h.bitrateKbps
  · rw [heffect.sectionName, h.sectionName, sectionAt_end]
  · exact hnumber
  · rw [warningsOf_snoc]
    by_cases hwarned : (kind line).Warned (sectionAt ls ls.length)
    · rw [heffect.warned (by rw [h.sectionName]; exact hwarned), h.warnings, h.sectionName,
        List.filter_cons_of_pos (by simpa using bad_snoc_length.2 hwarned), List.append_assoc]
      simp only [h.lineNumber, List.filter_nil, List.map_cons, List.map_nil, warning,
        sectionAt_snoc (Nat.le_refl _)]
      simp
    · rw [heffect.silent (by rw [h.sectionName]; exact hwarned), h.warnings,
        List.filter_cons_of_neg (by simpa using mt bad_snoc_length.1 hwarned)]
      simp

/-- **After any lines.** -/
theorem means_foldl (warnings ls : List (List UInt8)) :
    Means warnings ls (ls.foldl Parse.line ⟨{}, [], warnings, 0⟩) := by
  induction ls using List.reverseRecOn with
  | nil => exact means_nil warnings
  | append_singleton ls line ih =>
    rw [List.foldl_append]
    exact ih.line line

end OpenDisplay.App.ConfigReference
