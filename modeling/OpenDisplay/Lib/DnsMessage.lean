import Mathlib.Data.Nat.Notation
import Mathlib.Tactic.Common

/-! # DNS messages and their parser

The message format of RFC 1035, 4.1, with the record types of DNS service discovery. `readMessage` is
the parser: names may be compressed, a pointer goes to an earlier place, a name has at most 255 octets,
the data of a record fill its `RDLENGTH`, and no byte is left over.

`Message.wire` writes a message without compression. The parser reads it back
(`readMessage_wire`) if its names, strings and counts fit their length fields. -/

namespace OpenDisplay.Lib.DnsMessage

/-- The labels of a name, without the root. -/
abbrev Name := List (List UInt8)

/-- The data of a record: types `A`, `PTR`, `SRV` and `TXT`, and the bytes of any other type. -/
inductive RData
  | a (address : List UInt8)
  | ptr (name : Name)
  | srv (priority weight port : UInt16) (target : Name)
  | txt (strings : List (List UInt8))
  | other (bytes : List UInt8)
  deriving DecidableEq

structure Record where
  name : Name
  type : UInt16
  cls : UInt16
  ttl : UInt32
  rdata : RData
  deriving DecidableEq

structure Question where
  name : Name
  type : UInt16
  cls : UInt16
  deriving DecidableEq

structure Message where
  id : UInt16
  flags : UInt16
  questions : List Question
  answers : List Record
  authority : List Record
  additional : List Record
  deriving DecidableEq

/-! ## The parser -/

/-- A parser of a part of a message: the value read and the bytes behind it. -/
abbrev Parser (α : Type) := List UInt8 → Option (α × List UInt8)

def readU16 : Parser UInt16
  | a :: b :: s => some (UInt16.ofNat (a.toNat * 256 + b.toNat), s)
  | _ => none

def readU32 : Parser UInt32
  | a :: b :: c :: d :: s =>
    some (UInt32.ofNat (((a.toNat * 256 + b.toNat) * 256 + c.toNat) * 256 + d.toNat), s)
  | _ => none

def readBytes (n : ℕ) : Parser (List UInt8) := fun s =>
  if s.length < n then none else some (s.take n, s.drop n)

/-- The place that a pointer with the first byte `n` goes to. -/
def readPointer (n : UInt8) : Parser ℕ
  | m :: s => some ((n.toNat - 192) * 256 + m.toNat, s)
  | [] => none

/-- The labels of a name in the message `msg`, of which `fuel` may be read. -/
def readLabels (msg : List UInt8) : ℕ → Parser Name
  | 0, _ => none
  | _ + 1, [] => none
  | fuel + 1, n :: s =>
    if n.toNat = 0 then some ([], s)
    else if n.toNat < 64 then do
      let (label, s) ← readBytes n.toNat s
      let (labels, s) ← readLabels msg fuel s
      return (label :: labels, s)
    else if n.toNat < 192 then none
    else do
      let (target, rest) ← readPointer n s
      -- the place of the pointer is `msg.length - (rest.length + 2)`
      if target + (rest.length + 2) < msg.length then
        (readLabels msg fuel (msg.drop target)).map fun r => (r.1, rest)
      else none

/-- The octets of a name with its length bytes and the root. -/
def octets : Name → ℕ
  | [] => 1
  | label :: name => label.length + 1 + octets name

def readName (msg : List UInt8) : Parser Name := fun s => do
  let (name, s) ← readLabels msg 256 s
  if 255 < octets name then none else return (name, s)

/-- The strings that the bytes consist of. -/
def readStrings : ℕ → List UInt8 → Option (List (List UInt8))
  | _, [] => some []
  | 0, _ => none
  | fuel + 1, n :: s => do
    let (string, s) ← readBytes n.toNat s
    let strings ← readStrings fuel s
    return string :: strings

def typeA : UInt16 := 1

def typePtr : UInt16 := 12

def typeTxt : UInt16 := 16

def typeSrv : UInt16 := 33

/-- The data of a record of the type `type` in `len` bytes. -/
def readRData (msg : List UInt8) (type : UInt16) (len : ℕ) : Parser RData := fun s => do
  let (bytes, rest) ← readBytes len s
  if type = typeA then
    if len = 4 then return (.a bytes, rest) else none
  else if type = typePtr then
    let (name, behind) ← readName msg s
    if behind = rest then return (.ptr name, rest) else none
  else if type = typeSrv then
    let (priority, s) ← readU16 s
    let (weight, s) ← readU16 s
    let (port, s) ← readU16 s
    let (target, behind) ← readName msg s
    if behind = rest then return (.srv priority weight port target, rest) else none
  else if type = typeTxt then
    let strings ← readStrings len bytes
    return (.txt strings, rest)
  else return (.other bytes, rest)

def readRecord (msg : List UInt8) : Parser Record := fun s => do
  let (name, s) ← readName msg s
  let (type, s) ← readU16 s
  let (cls, s) ← readU16 s
  let (ttl, s) ← readU32 s
  let (len, s) ← readU16 s
  let (rdata, s) ← readRData msg type len.toNat s
  return (⟨name, type, cls, ttl, rdata⟩, s)

def readQuestion (msg : List UInt8) : Parser Question := fun s => do
  let (name, s) ← readName msg s
  let (type, s) ← readU16 s
  let (cls, s) ← readU16 s
  return (⟨name, type, cls⟩, s)

/-- The parser `p`, `n` times. -/
def readMany {α : Type} (p : Parser α) : ℕ → Parser (List α)
  | 0, s => some ([], s)
  | n + 1, s => do
    let (x, s) ← p s
    let (xs, s) ← readMany p n s
    return (x :: xs, s)

/-- The header and the sections. -/
def readSections (msg : List UInt8) : Parser Message := fun s => do
  let (id, s) ← readU16 s
  let (flags, s) ← readU16 s
  let (qdcount, s) ← readU16 s
  let (ancount, s) ← readU16 s
  let (nscount, s) ← readU16 s
  let (arcount, s) ← readU16 s
  let (questions, s) ← readMany (readQuestion msg) qdcount.toNat s
  let (answers, s) ← readMany (readRecord msg) ancount.toNat s
  let (authority, s) ← readMany (readRecord msg) nscount.toNat s
  let (additional, s) ← readMany (readRecord msg) arcount.toNat s
  return (⟨id, flags, questions, answers, authority, additional⟩, s)

def readMessage (msg : List UInt8) : Option Message := do
  let (m, s) ← readSections msg msg
  if s = [] then return m else none

/-! ## The bytes of a message -/

def putU16 (v : UInt16) : List UInt8 := [UInt8.ofNat (v.toNat / 256), UInt8.ofNat v.toNat]

def putU32 (v : UInt32) : List UInt8 :=
  [UInt8.ofNat (v.toNat / 16777216), UInt8.ofNat (v.toNat / 65536), UInt8.ofNat (v.toNat / 256),
    UInt8.ofNat v.toNat]

/-- A string behind its length. -/
def stringWire (s : List UInt8) : List UInt8 := UInt8.ofNat s.length :: s

def nameWire (name : Name) : List UInt8 := name.flatMap stringWire ++ [0]

def RData.wire : RData → List UInt8
  | .a address => address
  | .ptr name => nameWire name
  | .srv priority weight port target =>
    putU16 priority ++ (putU16 weight ++ (putU16 port ++ nameWire target))
  | .txt strings => strings.flatMap stringWire
  | .other bytes => bytes

def Record.wire (r : Record) : List UInt8 :=
  nameWire r.name ++ (putU16 r.type ++ (putU16 r.cls ++ (putU32 r.ttl ++
    (putU16 (UInt16.ofNat r.rdata.wire.length) ++ r.rdata.wire))))

def Question.wire (q : Question) : List UInt8 :=
  nameWire q.name ++ (putU16 q.type ++ putU16 q.cls)

def Message.wire (m : Message) : List UInt8 :=
  putU16 m.id ++ (putU16 m.flags ++ (putU16 (UInt16.ofNat m.questions.length) ++
    (putU16 (UInt16.ofNat m.answers.length) ++ (putU16 (UInt16.ofNat m.authority.length) ++
      (putU16 (UInt16.ofNat m.additional.length) ++ (m.questions.flatMap Question.wire ++
        (m.answers.flatMap Record.wire ++ (m.authority.flatMap Record.wire ++
          m.additional.flatMap Record.wire))))))))

/-! ## What fits -/

/-- Labels of 1 to 63 bytes and at most 255 octets. -/
structure NameFits (name : Name) : Prop where
  labels : ∀ label ∈ name, 1 ≤ label.length ∧ label.length ≤ 63
  octets : octets name ≤ 255

/-- The data belong to the type, and they fit. -/
def RData.Fits (type : UInt16) : RData → Prop
  | .a address => type = typeA ∧ address.length = 4
  | .ptr name => type = typePtr ∧ NameFits name
  | .srv _ _ _ target => type = typeSrv ∧ NameFits target
  | .txt strings => type = typeTxt ∧ ∀ s ∈ strings, s.length < 256
  | .other _ => type ≠ typeA ∧ type ≠ typePtr ∧ type ≠ typeSrv ∧ type ≠ typeTxt

structure Record.Fits (r : Record) : Prop where
  name : NameFits r.name
  rdata : r.rdata.Fits r.type
  length : r.rdata.wire.length < 65536

structure Message.Fits (m : Message) : Prop where
  questions : m.questions.length < 65536 ∧ ∀ q ∈ m.questions, NameFits q.name
  answers : m.answers.length < 65536 ∧ ∀ r ∈ m.answers, r.Fits
  authority : m.authority.length < 65536 ∧ ∀ r ∈ m.authority, r.Fits
  additional : m.additional.length < 65536 ∧ ∀ r ∈ m.additional, r.Fits

/-! ## Reading back -/

variable {msg s : List UInt8}

theorem readU16_putU16 (v : UInt16) (s : List UInt8) : readU16 (putU16 v ++ s) = some (v, s) := by
  have hv := v.toNat_lt
  have hvalue : v.toNat / 256 % 256 * 256 + v.toNat % 256 = v.toNat := by omega
  simp only [putU16, List.cons_append, List.nil_append, readU16, UInt8.toNat_ofNat']
  rw [show 2 ^ 8 = 256 from rfl, hvalue, UInt16.ofNat_toNat]

theorem readU32_putU32 (v : UInt32) (s : List UInt8) : readU32 (putU32 v ++ s) = some (v, s) := by
  have hv := v.toNat_lt
  have hvalue : ((v.toNat / 16777216 % 256 * 256 + v.toNat / 65536 % 256) * 256 +
      v.toNat / 256 % 256) * 256 + v.toNat % 256 = v.toNat := by omega
  simp only [putU32, List.cons_append, List.nil_append, readU32, UInt8.toNat_ofNat']
  rw [show 2 ^ 8 = 256 from rfl, hvalue, UInt32.ofNat_toNat]

theorem readBytes_append (bytes s : List UInt8) :
    readBytes bytes.length (bytes ++ s) = some (bytes, s) := by
  simp [readBytes]

theorem toNat_length {label : List UInt8} (h : label.length < 256) :
    (UInt8.ofNat label.length).toNat = label.length := by
  rw [UInt8.toNat_ofNat']
  omega

theorem readLabels_nameWire (msg s : List UInt8) : ∀ (name : Name) (fuel : ℕ),
    (∀ label ∈ name, 1 ≤ label.length ∧ label.length ≤ 63) → name.length < fuel →
      readLabels msg fuel (nameWire name ++ s) = some (name, s)
  | _, 0, _, h => absurd h (Nat.not_lt_zero _)
  | [], fuel + 1, _, _ => rfl
  | label :: name, fuel + 1, hlabels, hfuel => by
    obtain ⟨hpos, hle⟩ := hlabels label (by simp)
    have ih := readLabels_nameWire msg s name fuel (fun l hl => hlabels l (List.mem_cons_of_mem _ hl))
      (by simpa using hfuel)
    have hlen : (UInt8.ofNat label.length).toNat = label.length := toNat_length (by omega)
    have hwire : nameWire (label :: name) ++ s =
        UInt8.ofNat label.length :: (label ++ (nameWire name ++ s)) := by
      simp [nameWire, stringWire]
    rw [hwire, readLabels, hlen, if_neg (by omega), if_pos (by omega), readBytes_append]
    simp [ih]

theorem length_lt_octets (name : Name) : name.length < octets name := by
  induction name with
  | nil => exact Nat.one_pos
  | cons label name ih =>
    rw [octets, List.length_cons]
    omega

theorem length_nameWire (name : Name) : (nameWire name).length = octets name := by
  induction name with
  | nil => rfl
  | cons label name ih =>
    simp only [nameWire, List.flatMap_cons, stringWire, List.cons_append, List.length_cons,
      List.append_assoc, List.length_append, octets] at ih ⊢
    omega

theorem readName_nameWire {name : Name} (h : NameFits name) (s : List UInt8) :
    readName msg (nameWire name ++ s) = some (name, s) := by
  have hlen := length_lt_octets name
  have hoctets := h.octets
  unfold readName
  rw [readLabels_nameWire msg s name 256 h.labels (by omega)]
  simp [Nat.not_lt.2 hoctets]

/-- What is read from the bytes of labels are these labels. -/
theorem eq_of_readLabels {r : Name} {t : List UInt8} : ∀ (name : Name) (fuel : ℕ),
    (∀ label ∈ name, 1 ≤ label.length ∧ label.length ≤ 63) →
      readLabels msg fuel (nameWire name ++ s) = some (r, t) → r = name
  | _, 0, _, h => by simp [readLabels] at h
  | [], fuel + 1, _, h => by
    simp [nameWire, readLabels] at h
    exact h.1
  | label :: name, fuel + 1, hlabels, h => by
    obtain ⟨hpos, hle⟩ := hlabels label (by simp)
    have hlen : (UInt8.ofNat label.length).toNat = label.length := toNat_length (by omega)
    have hwire : nameWire (label :: name) ++ s =
        UInt8.ofNat label.length :: (label ++ (nameWire name ++ s)) := by
      simp [nameWire, stringWire]
    rw [hwire, readLabels, hlen, if_neg (by omega), if_pos (by omega), readBytes_append] at h
    simp only [Option.bind_eq_bind, Option.bind_some, Option.bind_eq_some_iff] at h
    obtain ⟨⟨labels, u⟩, hrest, hpure⟩ := h
    have ih := eq_of_readLabels name fuel (fun l hl => hlabels l (List.mem_cons_of_mem _ hl)) hrest
    cases hpure
    rw [ih]

theorem eq_of_readName {name r : Name} {t : List UInt8}
    (hlabels : ∀ label ∈ name, 1 ≤ label.length ∧ label.length ≤ 63)
    (h : readName msg (nameWire name ++ s) = some (r, t)) : r = name := by
  simp only [readName, Option.bind_eq_bind, Option.bind_eq_some_iff] at h
  obtain ⟨⟨labels, u⟩, hread, hcheck⟩ := h
  split at hcheck
  · cases hcheck
  · cases hcheck
    exact eq_of_readLabels name 256 hlabels hread

theorem readStrings_wire : ∀ (strings : List (List UInt8)) (fuel : ℕ),
    (∀ s ∈ strings, s.length < 256) → strings.length ≤ fuel →
      readStrings fuel (strings.flatMap stringWire) = some strings
  | [], fuel, _, _ => by cases fuel <;> rfl
  | string :: strings, 0, _, h => absurd h (by simp)
  | string :: strings, fuel + 1, hshort, hfuel => by
    have ih := readStrings_wire strings fuel (fun s hs => hshort s (List.mem_cons_of_mem _ hs))
      (by simpa using hfuel)
    have hlen := toNat_length (hshort string (by simp))
    rw [List.flatMap_cons, stringWire, List.cons_append, readStrings, hlen, readBytes_append]
    simp [ih]

theorem length_le_wire (strings : List (List UInt8)) :
    strings.length ≤ (strings.flatMap stringWire).length := by
  induction strings with
  | nil => simp
  | cons string strings ih =>
    simp only [List.flatMap_cons, stringWire, List.length_append, List.length_cons]
    omega

theorem readRData_wire {type : UInt16} {rdata : RData} (h : rdata.Fits type) (s : List UInt8) :
    readRData msg type rdata.wire.length (rdata.wire ++ s) = some (rdata, s) := by
  unfold readRData
  rw [readBytes_append]
  cases rdata with
  | a address =>
    obtain ⟨rfl, hlen⟩ := h
    simp [RData.wire, hlen]
  | ptr name =>
    obtain ⟨rfl, hname⟩ := h
    simp [RData.wire, typePtr, typeA, readName_nameWire hname]
  | srv priority weight port target =>
    obtain ⟨rfl, hname⟩ := h
    simp only [RData.wire, List.append_assoc]
    simp [typeSrv, typePtr, typeA, readU16_putU16, readName_nameWire hname]
  | txt strings =>
    obtain ⟨rfl, hshort⟩ := h
    have hread := readStrings_wire strings _ hshort (length_le_wire strings)
    simp [RData.wire, typeTxt, typeSrv, typePtr, typeA, hread, -List.length_flatMap]
  | other bytes =>
    obtain ⟨ha, hptr, hsrv, htxt⟩ := h
    simp [RData.wire, ha, hptr, hsrv, htxt]

theorem toNat_ofNat_length {n : ℕ} (h : n < 65536) : (UInt16.ofNat n).toNat = n := by
  rw [UInt16.toNat_ofNat']
  omega

theorem readRecord_wire {r : Record} (h : r.Fits) (s : List UInt8) :
    readRecord msg (r.wire ++ s) = some (r, s) := by
  unfold readRecord Record.wire
  simp only [List.append_assoc]
  simp [readName_nameWire h.name, readU16_putU16, readU32_putU32, toNat_ofNat_length h.length,
    readRData_wire h.rdata]

/-- What is read from the record of a PTR, if it is read, has its target. -/
theorem rdata_of_readRecord_ptr {owner target : Name} {cls : UInt16} {ttl : UInt32} {r : Record}
    {t : List UInt8} (howner : NameFits owner)
    (htarget : ∀ label ∈ target, 1 ≤ label.length ∧ label.length ≤ 63)
    (h : readRecord msg (Record.wire ⟨owner, typePtr, cls, ttl, .ptr target⟩ ++ s) = some (r, t)) :
    r.rdata = .ptr target := by
  unfold readRecord Record.wire at h
  simp only [RData.wire, List.append_assoc, readName_nameWire howner, readU16_putU16, readU32_putU32,
    Option.bind_eq_bind, Option.bind_some, Option.bind_eq_some_iff] at h
  obtain ⟨⟨rdata, u⟩, hread, hrecord⟩ := h
  cases hrecord
  have hptr : ¬typePtr = typeA := by decide
  unfold readRData at hread
  simp only [if_neg hptr, if_true, Option.bind_eq_bind, Option.bind_eq_some_iff] at hread
  obtain ⟨⟨bytes, rest⟩, -, ⟨name, behind⟩, hname, hbehind⟩ := hread
  obtain rfl := eq_of_readName htarget hname
  split_ifs at hbehind
  cases hbehind
  rfl

theorem readQuestion_wire {q : Question} (h : NameFits q.name) (s : List UInt8) :
    readQuestion msg (q.wire ++ s) = some (q, s) := by
  unfold readQuestion Question.wire
  simp only [List.append_assoc]
  simp [readName_nameWire h, readU16_putU16]

theorem readMany_flatMap {α : Type} {p : Parser α} {wire : α → List UInt8} (s : List UInt8) :
    ∀ xs : List α, (∀ x ∈ xs, ∀ s, p (wire x ++ s) = some (x, s)) →
      readMany p xs.length (xs.flatMap wire ++ s) = some (xs, s)
  | [], _ => rfl
  | x :: xs, h => by
    have ih := readMany_flatMap s xs fun y hy => h y (List.mem_cons_of_mem _ hy)
    have hx := h x (by simp) (xs.flatMap wire ++ s)
    rw [List.flatMap_cons, List.append_assoc, List.length_cons, readMany, hx]
    simp [ih]

theorem readRecords_wire {rs : List Record} (h : ∀ r ∈ rs, r.Fits) (s : List UInt8) :
    readMany (readRecord msg) rs.length (rs.flatMap Record.wire ++ s) = some (rs, s) :=
  readMany_flatMap s rs fun r hr s => readRecord_wire (h r hr) s

theorem readSections_wire {m : Message} (h : m.Fits) (s : List UInt8) :
    readSections msg (m.wire ++ s) = some (m, s) := by
  obtain ⟨⟨hq, hqs⟩, ⟨han, hans⟩, ⟨hns, hnss⟩, har, hars⟩ := h
  have hquestions : ∀ s, readMany (readQuestion msg) m.questions.length
      (m.questions.flatMap Question.wire ++ s) = some (m.questions, s) := fun s =>
    readMany_flatMap s m.questions fun q hq s => readQuestion_wire (hqs q hq) s
  unfold readSections Message.wire
  simp only [List.append_assoc]
  simp [readU16_putU16, toNat_ofNat_length hq, toNat_ofNat_length han, toNat_ofNat_length hns,
    toNat_ofNat_length har, hquestions, readRecords_wire hans, readRecords_wire hnss,
    readRecords_wire hars]

/-- **A message is read back.** -/
theorem readMessage_wire {m : Message} (h : m.Fits) : readMessage m.wire = some m := by
  have hread : readSections m.wire (m.wire ++ []) = some (m, []) := readSections_wire h []
  rw [List.append_nil] at hread
  unfold readMessage
  rw [hread]
  rfl

end OpenDisplay.Lib.DnsMessage
