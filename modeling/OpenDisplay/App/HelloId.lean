import OpenDisplay.Lib.JsonObject
import OpenDisplay.Net.MdnsPacket
import OpenDisplay.Protocol.ControlOutgoing
import OpenDisplay.Protocol.Framing

/-! # The identity in the hello

`MakeStableHelloId` takes any line of 32 bytes for the identity of the receiver, and `BuildHello` puts
it between two quotes as it is. The hello is a flat JSON object with the identity that mDNS advertises
where the identity is UTF-8 and needs no escape (`announces_iff`). -/

namespace OpenDisplay.App.HelloId

open OpenDisplay.Lib.Binary64 (Double)
open OpenDisplay.Lib.DnsMessage (readStrings readStrings_wire length_le_wire stringWire)
open OpenDisplay.Lib.FlatJson (Number isNumeralChar_of_mem_number)
open OpenDisplay.Lib.JsonObject OpenDisplay.Lib.JsonString OpenDisplay.Lib.Rounding OpenDisplay.Lib.Text
open OpenDisplay.Net.MdnsAdvertise (Config txtData)
open OpenDisplay.Net.MdnsPacket (txtStrings txtData_eq txtStrings_short)
open OpenDisplay.Protocol.ControlOutgoing OpenDisplay.Protocol.Framing

/-! ## The identity -/

/-- What `MakeStableHelloId` finds: the directory of the program, and the texts of the file in it and
of the one that older versions wrote, if they can be opened. -/
structure Disk where
  exeDir : List UInt8
  file : Option (List UInt8)
  oldFile : Option (List UInt8)

/-- `std::getline`. -/
def getline (s : List UInt8) : List UInt8 := s.takeWhile fun b => decide (b ≠ 10)

/-- `existing` behind a stream that may be open. -/
def readLine (existing : List UInt8) : Option (List UInt8) → List UInt8
  | some s => getline s
  | none => existing

/-- The digits of `hex`. -/
def hexChar (r : Fin 16) : UInt8 := (ascii "0123456789abcdef").getD r 0

/-- `MakeStableHelloId` with its random numbers: the identity, and what it writes to the file. -/
def makeStableHelloId (disk : Disk) (rng : Fin 32 → Fin 16) : List UInt8 × Option (List UInt8) :=
  let existing := readLine [] disk.file
  if existing.length = 32 then (existing, none)
  else
    let older := readLine existing disk.oldFile
    if disk.exeDir ≠ [] ∧ older.length = 32 then (older, some (older ++ [10]))
    else
      (List.ofFn fun i => hexChar (rng i), some ((List.ofFn fun i => hexChar (rng i)) ++ [10]))

theorem notMem_getline (s : List UInt8) : 10 ∉ getline s := by
  intro h
  simpa using List.mem_takeWhile_imp h

theorem notMem_readLine {existing : List UInt8} (h : 10 ∉ existing) (file : Option (List UInt8)) :
    10 ∉ readLine existing file := by
  cases file with
  | none => exact h
  | some s => exact notMem_getline s

theorem hexChar_ne (r : Fin 16) : hexChar r ≠ 10 := by
  revert r
  decide

theorem makeStableHelloId_line (disk : Disk) (rng : Fin 32 → Fin 16) :
    (makeStableHelloId disk rng).1.length = 32 ∧ 10 ∉ (makeStableHelloId disk rng).1 := by
  have hfile : 10 ∉ readLine [] disk.file := notMem_readLine (by simp) _
  unfold makeStableHelloId
  dsimp only
  split
  · next hlen => exact ⟨hlen, hfile⟩
  · split
    · next hlen => exact ⟨hlen.2, notMem_readLine hfile _⟩
    · refine ⟨List.length_ofFn, fun h => ?_⟩
      obtain ⟨i, hi⟩ := List.mem_ofFn.1 h
      exact hexChar_ne _ hi

theorem makeStableHelloId_file {line : List UInt8} (hlen : line.length = 32) (hline : 10 ∉ line)
    (rest exeDir : List UInt8) (oldFile : Option (List UInt8)) (rng : Fin 32 → Fin 16) :
    makeStableHelloId ⟨exeDir, some (line ++ 10 :: rest), oldFile⟩ rng = (line, none) := by
  have hget : readLine [] (some (line ++ 10 :: rest)) = line := by
    have hall : ∀ b ∈ line, decide (b ≠ 10) = true := by
      rintro b hb
      refine decide_eq_true ?_
      rintro rfl
      exact hline hb
    rw [readLine, getline, List.takeWhile_append_of_pos hall]
    simp
  unfold makeStableHelloId
  dsimp only
  rw [hget, if_pos hlen]

/-- **The identity is stable**: what is written is read as the same identity. -/
theorem makeStableHelloId_stable {disk : Disk} {rng : Fin 32 → Fin 16} {file : List UInt8}
    (h : (makeStableHelloId disk rng).2 = some file) (oldFile : Option (List UInt8))
    (rng' : Fin 32 → Fin 16) :
    makeStableHelloId ⟨disk.exeDir, some file, oldFile⟩ rng' = ((makeStableHelloId disk rng).1, none) := by
  obtain ⟨hlen, hline⟩ := makeStableHelloId_line disk rng
  have hfile : file = (makeStableHelloId disk rng).1 ++ [10] := by
    unfold makeStableHelloId at h ⊢
    dsimp only at h ⊢
    split at h
    · cases h
    · next hlen =>
      rw [if_neg hlen]
      split at h
      · next hold =>
        rw [if_pos hold]
        exact (Option.some.inj h).symm
      · next hold =>
        rw [if_neg hold]
        exact (Option.some.inj h).symm
  rw [hfile]
  exact makeStableHelloId_file hlen hline _ _ _ _

/-! ## The hello -/

/-- `Session::SendHello` up to `SendControl`. -/
def sendHello (pixelsWide pixelsHigh : Int32) (scale : Double) (id : List UInt8) (bitrateKbps : Int32) :
    List UInt8 :=
  buildHello
    { HelloInfo.empty with
      pixelsWide := pixelsWide, pixelsHigh := pixelsHigh, scale := scale, id := id,
      bitrateKbps := some bitrateKbps }

/-- `uiScale` for a display of `dpi`. -/
def uiScale (dpi : UInt32) : Double := nearest (dpi.toNat / 96)

/-- The configuration that `App::Start` hands to mDNS. -/
def mdnsConfig (mdnsName helloId : List UInt8) (port : UInt16) : Config := ⟨mdnsName, helloId, 3, port⟩

/-! ## What it announces -/

def helloNames : List (List Char) :=
  ["type".toList, "pixelsWide".toList, "pixelsHigh".toList, "scale".toList, "device".toList,
    "id".toList, "pv".toList, "bitrateKbps".toList]

/-- A strict parser reads the hello as one flat object with its members, in which `id` is the 32 bytes
of the TXT record, and the frame has a legal length. -/
def Announces (hello : List UInt8) (cfg : Config) : Prop :=
  (∃ s members text strings, decodeUtf8 hello = some s ∧ readObject s = some members ∧
    (members.map Prod.fst).Perm helloNames ∧ ("id".toList, .string text) ∈ members ∧
    (utf8 text).length = 32 ∧ readStrings (txtData cfg).length (txtData cfg) = some strings ∧
    ascii "id=" ++ utf8 text ∈ strings) ∧
  1 ≤ (readInt32BE (encodeFrame hello)).toNat ∧ (readInt32BE (encodeFrame hello)).toNat < 2 ^ 20

/-- The bytes are a text that is written in a string as it is. -/
def Unescaped (id : List UInt8) : Prop :=
  ∃ s, utf8 s = id ∧ ∀ c ∈ s, c ≠ '"' ∧ c ≠ '\\' ∧ 32 ≤ c.toNat

/-! ## The parts of the hello -/

/-- The fields in front of the identity. -/
def helloFields (pixelsWide pixelsHigh : Int32) (scale : Number) : List Field :=
  [⟨bare "type".toList, .string (bare "hello".toList)⟩,
    ⟨bare "pixelsWide".toList, .number (intNumeral pixelsWide.toInt)⟩,
    ⟨bare "pixelsHigh".toList, .number (intNumeral pixelsHigh.toInt)⟩,
    ⟨bare "scale".toList, .number scale⟩,
    ⟨bare "device".toList, .string (bare "Windows".toList)⟩]

def pvField : Field := ⟨bare "pv".toList, .number (intNumeral 3)⟩

def bitrateField (bitrateKbps : Int32) : Field :=
  ⟨bare "bitrateKbps".toList, .number (intNumeral bitrateKbps.toInt)⟩

/-- The text from the quote behind the identity on. -/
def behindId (bitrateKbps : Int32) : List Char :=
  '"' :: ',' :: before [pvField] (nameSource (bitrateField bitrateKbps).name ++
    ((bitrateField bitrateKbps).value.source ++ ['\x7d']))

/-- The text up to the quote in front of it. -/
def beforeId (pixelsWide pixelsHigh : Int32) (scale : Number) : List Char :=
  '\x7b' :: before (helloFields pixelsWide pixelsHigh scale) (nameSource (bare "id".toList) ++ ['"'])

variable {pixelsWide pixelsHigh bitrateKbps : Int32} {scale : Double} {n : Number} {id : List UInt8}

theorem beforeId_eq : beforeId pixelsWide pixelsHigh n =
    "\x7b\"type\":\"hello\",\"pixelsWide\":".toList ++ (chars (intNumeral pixelsWide.toInt).text ++
      (",\"pixelsHigh\":".toList ++ (chars (intNumeral pixelsHigh.toInt).text ++
        (",\"scale\":".toList ++ (chars n.text ++ ",\"device\":\"Windows\",\"id\":\"".toList))))) := by
  have htype : nameSource (bare "type".toList) = "\"type\":".toList := rfl
  have hwide : nameSource (bare "pixelsWide".toList) = "\"pixelsWide\":".toList := rfl
  have hhigh : nameSource (bare "pixelsHigh".toList) = "\"pixelsHigh\":".toList := rfl
  have hscale : nameSource (bare "scale".toList) = "\"scale\":".toList := rfl
  have hdevice : nameSource (bare "device".toList) = "\"device\":".toList := rfl
  have hid : nameSource (bare "id".toList) = "\"id\":".toList := rfl
  unfold beforeId before helloFields
  simp only [List.foldr_cons, List.foldr_nil, htype, hwide, hhigh, hscale, hdevice, hid, Written.source]
  rfl

theorem behindId_eq : behindId bitrateKbps = "\",\"pv\":3,\"bitrateKbps\":".toList ++
    (chars (intNumeral bitrateKbps.toInt).text ++ "\x7d".toList) := by
  have hpv : chars (intNumeral 3).text = ['3'] := by decide +kernel
  have hcodes : behindId bitrateKbps = "\",\"pv\":".toList ++ (chars (intNumeral 3).text ++
      (",\"bitrateKbps\":".toList ++ (chars (intNumeral bitrateKbps.toInt).text ++ "\x7d".toList))) :=
    rfl
  rw [hcodes, hpv]
  rfl

theorem sendHello_eq (hscale : formatNumber scale = n.text) (hid : id ≠ []) :
    sendHello pixelsWide pixelsHigh scale id bitrateKbps =
      utf8 (beforeId pixelsWide pixelsHigh n) ++ id ++ utf8 (behindId bitrateKbps) := by
  have htype : utf8 "\x7b\"type\":\"hello\",\"pixelsWide\":".toList =
      ascii "\x7b\"type\":\"hello\"" ++ ascii ",\"pixelsWide\":" := by decide
  have hhigh : utf8 ",\"pixelsHigh\":".toList = ascii ",\"pixelsHigh\":" := utf8_ascii _ rfl
  have hscaleName : utf8 ",\"scale\":".toList = ascii ",\"scale\":" := utf8_ascii _ rfl
  have hdevice : utf8 ",\"device\":\"Windows\",\"id\":\"".toList =
      ascii ",\"device\":\"" ++ ascii "Windows" ++ ascii "\"" ++ ascii ",\"id\":\"" := by
    decide
  have hpv : utf8 "\",\"pv\":3,\"bitrateKbps\":".toList =
      ascii "\"" ++ ascii ",\"pv\":" ++ toText 3 ++ ascii ",\"bitrateKbps\":" := by decide +kernel
  have hbrace : utf8 "\x7d".toList = ascii "\x7d" := utf8_ascii _ rfl
  rw [beforeId_eq, behindId_eq]
  simp only [utf8_append, utf8_numeral, htype, hhigh, hscaleName, hdevice, hpv, hbrace]
  simp only [← decimalInt_eq, ← hscale]
  unfold sendHello buildHello
  dsimp only [HelloInfo.empty, maxEncode]
  rw [if_neg hid]
  simp only [toText, List.append_assoc, List.nil_append]

/-! ## The numbers of the hello -/

theorem uiScale_numeral (dpi : UInt32) :
    ∃ n : Number, formatNumber (uiScale dpi) = n.text ∧ (formatNumber (uiScale dpi)).length ≤ 31 := by
  have hlt : (dpi.toNat : ℚ) < 2 ^ 32 := by exact_mod_cast dpi.toNat_lt
  have hfinite : ∃ q, uiScale dpi = .finite q ∧ |q| < 1000000000000000 := by
    rcases Nat.eq_zero_or_pos dpi.toNat with hzero | hpos
    · refine ⟨0, ?_, by norm_num⟩
      unfold uiScale
      rw [hzero]
      decide +kernel
    · have hone : (1 : ℚ) ≤ dpi.toNat := by exact_mod_cast hpos
      obtain ⟨q, hq, herror⟩ := nearest_moderate (q := dpi.toNat / 96) (by linarith) (by linarith)
      refine ⟨q, hq, ?_⟩
      have hnonneg : (0 : ℚ) ≤ dpi.toNat / 96 := by linarith
      have htriangle := abs_sub_abs_le_abs_sub q (dpi.toNat / 96)
      rw [abs_of_nonneg hnonneg] at htriangle
      linarith
  obtain ⟨q, hq, hsize⟩ := hfinite
  rw [hq]
  exact formatNumber_numeral hsize

theorem length_sendHello (pixelsWide pixelsHigh bitrateKbps : Int32)
    (hscale : (formatNumber scale).length ≤ 31) (hid : id.length = 32) :
    1 ≤ (sendHello pixelsWide pixelsHigh scale id bitrateKbps).length ∧
      (sendHello pixelsWide pixelsHigh scale id bitrateKbps).length < 2 ^ 20 := by
  have hwide := length_decimalInt_le pixelsWide
  have hhigh := length_decimalInt_le pixelsHigh
  have hpv : (decimalInt 3).length ≤ 11 := length_decimalInt_le 3
  have hbitrate := length_decimalInt_le bitrateKbps
  have hne : id ≠ [] := by
    rintro rfl
    cases hid
  unfold sendHello buildHello
  dsimp only [HelloInfo.empty, maxEncode]
  rw [if_neg hne]
  simp only [List.length_append, toText, hid]
  simp [ascii]
  omega

/-! ## The law -/

theorem readStrings_txtData {cfg : Config} (hid : cfg.id.length = 32) :
    readStrings (txtData cfg).length (txtData cfg) = some (txtStrings cfg) := by
  have hwire : txtData cfg = (txtStrings cfg).flatMap stringWire := txtData_eq cfg
  have hlen := length_le_wire (txtStrings cfg)
  rw [← hwire] at hlen
  have hread := readStrings_wire (txtStrings cfg) _ (txtStrings_short (by omega)) hlen
  rw [← hwire] at hread
  exact hread

theorem mem_txtStrings {mdnsName bytes : List UInt8} {port : UInt16} :
    ascii "id=" ++ bytes ∈ txtStrings (mdnsConfig mdnsName id port) ↔ bytes = id := by
  have hpv : ascii "id=" ++ bytes ≠ ascii "pv=" ++ decimalInt (3 : Int32).toInt := by
    intro h
    have hhead := congrArg List.head? h
    simp [ascii] at hhead
  have hcfg : txtStrings (mdnsConfig mdnsName id port) =
      [ascii "id=" ++ id, ascii "pv=" ++ decimalInt (3 : Int32).toInt] := rfl
  rw [hcfg, List.mem_cons, List.mem_singleton, or_iff_left hpv, List.append_cancel_left_eq]

theorem beforeId_ascii : ∀ c ∈ beforeId pixelsWide pixelsHigh n, c.toNat < 128 := by
  have hnumeral : ∀ m : Number, ∀ c ∈ chars m.text, c.toNat < 128 := by
    intro m c hc
    obtain ⟨b, hb, rfl⟩ := List.mem_map.1 hc
    rw [toNat_char]
    exact (isNumeralChar_of_mem_number b hb).toNat_lt
  have hliteral : ∀ l : List Char, (l.all fun c => decide (c.toNat < 128)) = true →
      ∀ c ∈ l, c.toNat < 128 :=
    fun l hl c hc => of_decide_eq_true (List.all_eq_true.1 hl c hc)
  rw [beforeId_eq]
  simp only [List.forall_mem_append]
  exact ⟨hliteral _ rfl, hnumeral _, hliteral _ rfl, hnumeral _, hliteral _ rfl, hnumeral _,
    hliteral _ rfl⟩

theorem id_of_decodeUtf8 {s : List Char} (hscale : formatNumber scale = n.text) (hid : id ≠ [])
    (h : decodeUtf8 (sendHello pixelsWide pixelsHigh scale id bitrateKbps) = some s) :
    ∃ ids, utf8 ids = id ∧ s = beforeId pixelsWide pixelsHigh n ++ (ids ++ behindId bitrateKbps) := by
  rw [decodeUtf8_eq_some, sendHello_eq hscale hid, List.append_assoc] at h
  obtain ⟨ys, rfl, hys⟩ := utf8_front _ beforeId_ascii h
  have hquote : ('"' : Char).toNat < 128 := by decide
  obtain ⟨ids, zs, rfl, hids, hzs⟩ := utf8_split hquote ys hys
  obtain rfl := utf8_inj hzs
  exact ⟨ids, hids, rfl⟩

/-- The text with a quote behind each part. -/
theorem hello_source (rest : List Char) : beforeId pixelsWide pixelsHigh n ++ rest =
    '\x7b' :: before (helloFields pixelsWide pixelsHigh n)
      (nameSource (bare "id".toList) ++ '"' :: rest) := by
  have hrest : nameSource (bare "id".toList) ++ '"' :: rest =
      (nameSource (bare "id".toList) ++ ['"']) ++ rest := by
    simp
  rw [hrest, before_append]
  rfl

/-- The fields up to the last one, with an identity that is written with codes. -/
def identityFields (pixelsWide pixelsHigh : Int32) (scale : Number) (codes : List Code) : List Field :=
  helloFields pixelsWide pixelsHigh scale ++ [⟨bare "id".toList, .string codes⟩, pvField]

/-- The members that a parser finds in the hello of an identity without escapes. -/
def helloMembers (pixelsWide pixelsHigh : Int32) (scale : Number) (id : List Char) (bitrateKbps : Int32) :
    List (List Char × Value) :=
  [("type".toList, .string "hello".toList),
    ("pixelsWide".toList, .number (chars (intNumeral pixelsWide.toInt).text)),
    ("pixelsHigh".toList, .number (chars (intNumeral pixelsHigh.toInt).text)),
    ("scale".toList, .number (chars scale.text)), ("device".toList, .string "Windows".toList),
    ("id".toList, .string id), ("pv".toList, .number (chars (intNumeral 3).text)),
    ("bitrateKbps".toList, .number (chars (intNumeral bitrateKbps.toInt).text))]

/-- **The hello is read as its members.** -/
theorem readObject_hello {ids : List Char} (hplain : ∀ c ∈ ids, c ≠ '"' ∧ c ≠ '\\' ∧ 32 ≤ c.toNat) :
    readObject (beforeId pixelsWide pixelsHigh n ++ (ids ++ behindId bitrateKbps)) =
      some (helloMembers pixelsWide pixelsHigh n ids bitrateKbps) := by
  have hcodes : source (ids.pmap Code.plain hplain) = ids := source_pmap hplain
  have htext : text (ids.pmap Code.plain hplain) = ids := text_pmap hplain
  have hsource : beforeId pixelsWide pixelsHigh n ++ (ids ++ behindId bitrateKbps) =
      objectSource (identityFields pixelsWide pixelsHigh n (ids.pmap Code.plain hplain))
        (bitrateField bitrateKbps) := by
    rw [hello_source]
    unfold objectSource identityFields before
    rw [List.foldr_append]
    simp [Written.source, hcodes, behindId, before]
  have hne : identityFields pixelsWide pixelsHigh n (ids.pmap Code.plain hplain) ≠ [] :=
    List.cons_ne_nil _ _
  rw [hsource, readObject_objectSource hne]
  have hmembers : (identityFields pixelsWide pixelsHigh n (ids.pmap Code.plain hplain)).map Field.member ++
      [(bitrateField bitrateKbps).member] = helloMembers pixelsWide pixelsHigh n
        (text (ids.pmap Code.plain hplain)) bitrateKbps := rfl
  rw [hmembers, htext]

theorem announces_of_unescaped {mdnsName : List UInt8} {port : UInt16}
    (hscale : formatNumber scale = n.text) (hsize : (formatNumber scale).length ≤ 31)
    (hid : id.length = 32) (h : Unescaped id) :
    Announces (sendHello pixelsWide pixelsHigh scale id bitrateKbps) (mdnsConfig mdnsName id port) := by
  obtain ⟨ids, rfl, hplain⟩ := h
  have hne : utf8 ids ≠ [] := by
    intro h
    rw [h] at hid
    cases hid
  have hdecode : decodeUtf8 (sendHello pixelsWide pixelsHigh scale (utf8 ids) bitrateKbps) =
      some (beforeId pixelsWide pixelsHigh n ++ (ids ++ behindId bitrateKbps)) := by
    rw [decodeUtf8_eq_some, sendHello_eq hscale hne, utf8_append, utf8_append, List.append_assoc]
  have hread : readObject (beforeId pixelsWide pixelsHigh n ++ (ids ++ behindId bitrateKbps)) =
      some (helloMembers pixelsWide pixelsHigh n ids bitrateKbps) := readObject_hello hplain
  have hnames : (helloMembers pixelsWide pixelsHigh n ids bitrateKbps).map Prod.fst = helloNames := rfl
  have hmem : ("id".toList, Value.string ids) ∈
      helloMembers pixelsWide pixelsHigh n ids bitrateKbps := by
    unfold helloMembers
    simp
  obtain ⟨hpos, hlt⟩ := length_sendHello pixelsWide pixelsHigh bitrateKbps hsize hid
  have hframe := readInt32BE_encodeFrame (p := sendHello pixelsWide pixelsHigh scale (utf8 ids) bitrateKbps)
    (by unfold kMaxFrameSize; omega) []
  rw [List.append_nil] at hframe
  refine ⟨⟨_, _, ids, _, hdecode, hread, .of_eq hnames, hmem, hid, readStrings_txtData hid,
    mem_txtStrings.2 rfl⟩, ?_⟩
  rw [hframe]
  exact ⟨hpos, hlt⟩

theorem unescaped_of_announces {mdnsName : List UInt8} {port : UInt16}
    (hscale : formatNumber scale = n.text) (hid : id.length = 32)
    (h : Announces (sendHello pixelsWide pixelsHigh scale id bitrateKbps) (mdnsConfig mdnsName id port)) :
    Unescaped id := by
  obtain ⟨⟨s, members, idText, strings, hdecode, hread, hnames, hmem, -, hstrings, htxt⟩, -⟩ := h
  have hne : id ≠ [] := by
    rintro rfl
    cases hid
  have htextId : utf8 idText = id := by
    rw [readStrings_txtData hid] at hstrings
    obtain rfl := Option.some.inj hstrings
    exact mem_txtStrings.1 htxt
  obtain ⟨ids, hids, rfl⟩ := id_of_decodeUtf8 hscale hne hdecode
  obtain rfl : idText = ids := utf8_inj (htextId.trans hids.symm)
  have hfields : helloFields pixelsWide pixelsHigh n ≠ [] := List.cons_ne_nil _ _
  obtain ⟨fuel, -, hobject⟩ := readObject_before hfields
    (nameSource (bare "id".toList) ++ '"' :: (idText ++ behindId bitrateKbps))
  rw [hello_source, hobject] at hread
  obtain ⟨r, hmembers, hr⟩ := Option.bind_eq_some_iff.1 hread
  obtain ⟨codes, rest, rs, hsplit, hrs, c, y, hskip, hclose⟩ := string_of_readMembers hmembers
  split at hr
  case isFalse => cases hr
  obtain rfl := Option.some.inj hr
  -- the identity is what is read from the quote on
  have hcodes : text codes = idText := by
    have hnodup : ((((helloFields pixelsWide pixelsHigh n).map Field.member) ++ r.1).map Prod.fst).Nodup :=
      hnames.nodup_iff.2 (by decide)
    have hmem' : ("id".toList, Value.string (text codes)) ∈
        (helloFields pixelsWide pixelsHigh n).map Field.member ++ r.1 := by
      rw [hrs]
      exact List.mem_append_right _ (.head _)
    have heq := List.inj_on_of_nodup_map hnodup hmem hmem' rfl
    exact (Value.string.inj (Prod.mk.inj heq).2).symm
  have htail : ∃ t, behindId bitrateKbps = '"' :: ',' :: '"' :: 'p' :: t := ⟨_, rfl⟩
  obtain ⟨t, ht⟩ := htail
  rw [ht] at hsplit
  rcases bare_of_spliced hcodes hsplit with hbare | rfl
  · exact ⟨idText, htextId, hcodes ▸ hbare.plain⟩
  · rw [skip_cons (by decide)] at hskip
    obtain ⟨rfl, -⟩ := List.cons.inj hskip
    exact absurd hclose (by decide)

/-- **Which identities are announced.** -/
theorem announces_iff (disk : Disk) (rng : Fin 32 → Fin 16) (dpi : UInt32)
    (pixelsWide pixelsHigh bitrateKbps : Int32) (mdnsName : List UInt8) (port : UInt16) :
    Announces
        (sendHello pixelsWide pixelsHigh (uiScale dpi) (makeStableHelloId disk rng).1 bitrateKbps)
        (mdnsConfig mdnsName (makeStableHelloId disk rng).1 port) ↔
      Unescaped (makeStableHelloId disk rng).1 := by
  obtain ⟨hlen, -⟩ := makeStableHelloId_line disk rng
  obtain ⟨n, hscale, hsize⟩ := uiScale_numeral dpi
  exact ⟨unescaped_of_announces hscale hlen, announces_of_unescaped hscale hsize hlen⟩

/-- The identities that are made on the first run need no escape. -/
theorem unescaped_generated (rng : Fin 32 → Fin 16) :
    Unescaped (List.ofFn fun i => hexChar (rng i)) := by
  have hhex : ∀ r : Fin 16, (hexChar r).toNat < 128 ∧ Char.ofNat (hexChar r).toNat ≠ '"' ∧
      Char.ofNat (hexChar r).toNat ≠ '\\' ∧ 32 ≤ (Char.ofNat (hexChar r).toNat).toNat := by
    decide
  refine ⟨chars (List.ofFn fun i => hexChar (rng i)), utf8_chars fun b hb => ?_, fun c hc => ?_⟩
  · obtain ⟨i, rfl⟩ := List.mem_ofFn.1 hb
    exact (hhex _).1
  · obtain ⟨b, hb, rfl⟩ := List.mem_map.1 hc
    obtain ⟨i, rfl⟩ := List.mem_ofFn.1 hb
    exact (hhex _).2

/-- A line with a quote in it. -/
def quotedLine : List UInt8 := ascii "0123456789abcdef\"123456789abcdef"

/-- **A quote in the line** is accepted, and ends the identity. -/
theorem quotedLine_not_announced :
    (makeStableHelloId ⟨[], some (quotedLine ++ [10]), none⟩ fun _ => 0).1 = quotedLine ∧
      ¬Announces (sendHello 1920 1080 (uiScale 96) quotedLine 6000) (mdnsConfig [] quotedLine 9000) := by
  have hlen : quotedLine.length = 32 := rfl
  have hline : 10 ∉ quotedLine := by decide
  have hid := makeStableHelloId_file hlen hline [] [] none fun _ => 0
  refine ⟨congrArg Prod.fst hid, fun h => ?_⟩
  obtain ⟨n, hscale, -⟩ := uiScale_numeral 96
  obtain ⟨s, hs, hplain⟩ := unescaped_of_announces hscale hlen h
  have hquote : ('"' : Char).toNat < 128 := by decide
  have hmem : byte '"' ∈ utf8 s := by
    rw [hs]
    decide
  exact (hplain _ ((mem_utf8_iff hquote).1 hmem)).1 rfl

end OpenDisplay.App.HelloId
