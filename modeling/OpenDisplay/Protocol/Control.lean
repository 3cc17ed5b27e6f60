import Mathlib.Data.List.GetD
import OpenDisplay.Lib.FlatJson

/-! # Control messages

A control message is a flat JSON object. Its fields are found by searching the text for the key in
quotes and then for a colon; nothing tells a key from a string value, or the colon behind a key from
one inside a string. `parseControlMessage` checks the braces, reads `type` and looks up the fields of
that kind of message. -/

namespace OpenDisplay.Protocol.Control

open OpenDisplay.Lib.Binary64 OpenDisplay.Lib.FlatJson OpenDisplay.Lib.Text

/-! ## The field scanner -/

/-- `std::isspace`. -/
def isSpace (b : UInt8) : Bool := b == 32 || decide (9 ≤ b.toNat ∧ b.toNat ≤ 13)

/-- `FindValueStart`. -/
def findValueStart (json key : List UInt8) : Option ℕ :=
  let needle := 34 :: key ++ [34]
  match findFrom needle json 0 with
  | none => none
  | some pos =>
    match findFrom [58] json (pos + needle.length) with
    | none => none
    | some pos => some (pos + 1 + ((json.drop (pos + 1)).takeWhile isSpace).length)

/-- `FindString`. -/
def findString (json key : List UInt8) : Option (List UInt8) :=
  match findValueStart json key with
  | none => none
  | some start =>
    if json.length ≤ start ∨ json.getD start 0 ≠ 34 then none
    else
      match findFrom [34] json (start + 1) with
      | none => none
      | some stop => some ((json.drop (start + 1)).take (stop - start - 1))

/-- `FindNumber`. -/
def findNumber (json key : List UInt8) : Option Double :=
  match findValueStart json key with
  | none => none
  | some start => if json.length ≤ start then none else fromChars (json.drop start)

/-- `FindInt`. -/
def findInt (json key : List UInt8) : Option ℤ :=
  match findNumber json key with
  | some (.finite q) => if |q| < 1000000000 then some (q.num.tdiv q.den) else none
  | _ => none

/-! ## The message -/

inductive ControlType
  | pong | ping | welcome | updateRequired | streamConfig | cursor | cursorImg | unknown
  deriving DecidableEq

structure ControlMessage where
  type : ControlType
  typeString : List UInt8
  t : Double
  mt : Double
  hasT : Bool
  hasMt : Bool
  welcomePv : ℤ
  welcomeMin : ℤ
  target : List UInt8
  store : List UInt8
  message : List UInt8
  codec : List UInt8
  width : ℤ
  height : ℤ
  fps : ℤ
  drops : ℤ
  pending : ℤ
  hasDrops : Bool
  hasPending : Bool
  capFps : Double
  hasCapFps : Bool
  deriving DecidableEq

/-- A default-constructed message. -/
def ControlMessage.empty : ControlMessage :=
  { type := .unknown, typeString := [], t := .finite 0, mt := .finite 0, hasT := false,
    hasMt := false, welcomePv := 1, welcomeMin := 1, target := [], store := [], message := [],
    codec := [], width := 0, height := 0, fps := 0, drops := 0, pending := 0, hasDrops := false,
    hasPending := false, capFps := .finite 0, hasCapFps := false }

/-- The chain over the type string that sets `msg.type`. -/
def controlType (type : List UInt8) : ControlType :=
  if type = ascii "pong" then .pong
  else if type = ascii "ping" then .ping
  else if type = ascii "welcome" then .welcome
  else if type = ascii "updateRequired" then .updateRequired
  else if type = ascii "streamConfig" then .streamConfig
  else if type = ascii "cursor" then .cursor
  else if type = ascii "cursorImg" then .cursorImg
  else .unknown

/-- The fields that `ParseControlMessage` looks up for each kind of message. -/
def readFields (json : List UInt8) (msg : ControlMessage) : ControlMessage :=
  match msg.type with
  | .pong =>
    { msg with
      t := (findNumber json (ascii "t")).getD (.finite 0)
      hasT := (findNumber json (ascii "t")).isSome
      mt := (findNumber json (ascii "mt")).getD (.finite 0)
      hasMt := (findNumber json (ascii "mt")).isSome }
  | .ping =>
    { msg with
      drops := (findInt json (ascii "drops")).getD 0
      hasDrops := (findInt json (ascii "drops")).isSome
      pending := (findInt json (ascii "pending")).getD 0
      hasPending := (findInt json (ascii "pending")).isSome
      capFps := (findNumber json (ascii "capFps")).getD (.finite 0)
      hasCapFps := (findNumber json (ascii "capFps")).isSome }
  | .welcome =>
    { msg with
      welcomePv := (findInt json (ascii "pv")).getD 1
      welcomeMin := (findInt json (ascii "min")).getD 1 }
  | .updateRequired =>
    { msg with
      target := (findString json (ascii "target")).getD []
      store := (findString json (ascii "store")).getD []
      message := (findString json (ascii "message")).getD [] }
  | .streamConfig =>
    { msg with
      codec := (findString json (ascii "codec")).getD (ascii "h264")
      width := (findInt json (ascii "width")).getD 0
      height := (findInt json (ascii "height")).getD 0
      fps := (findInt json (ascii "framesPerSecond")).getD 0 }
  | .cursor => msg
  | .cursorImg => msg
  | .unknown => msg

/-- `ParseControlMessage`. -/
def parseControlMessage (payload : List UInt8) : Option ControlMessage :=
  if payload.head? ≠ some 123 ∨ payload.getLast? ≠ some 125 then none
  else
    match findString payload (ascii "type") with
    | none => none
    | some type =>
      some (readFields payload
        { ControlMessage.empty with type := controlType type, typeString := type })

/-! ## The scanner from the text behind the colon on -/

/-- `FindString` from the text behind the colon. -/
def readString (s : List UInt8) : Option (List UInt8) :=
  (stepOver 34 (s.dropWhile isSpace)).bind fun l => (find [34] l).map fun i => l.take i

/-- `FindNumber` from the text behind the colon. -/
def readNumber (s : List UInt8) : Option Double :=
  if s.dropWhile isSpace = [] then none else fromChars (s.dropWhile isSpace)

variable {json key : List UInt8}

/-- Where the text behind the colon starts. -/
def colonEnd (json key : List UInt8) : Option ℕ :=
  (findFrom (needle key) json 0).bind fun pos =>
    (findFrom [58] json (pos + (needle key).length)).map fun pos => pos + 1

theorem fieldText_eq (json key : List UInt8) :
    fieldText key json = (colonEnd json key).map fun pos => json.drop pos := by
  have hneedle := drop_findFrom (needle key) json 0
  rw [List.drop_zero] at hneedle
  unfold fieldText colonEnd
  rw [← hneedle]
  cases findFrom (needle key) json 0 with
  | none => rfl
  | some pos =>
    have hcolon := drop_findFrom [58] json (pos + (needle key).length)
    rw [Option.map_some, Option.bind_some, Option.bind_some, ← hcolon, Option.map_map]
    rfl

theorem findValueStart_eq (json key : List UInt8) :
    findValueStart json key = (colonEnd json key).map fun pos =>
      pos + ((json.drop pos).takeWhile isSpace).length := by
  unfold findValueStart colonEnd needle
  dsimp only
  cases findFrom (34 :: key ++ [34]) json 0 with
  | none => rfl
  | some pos =>
    dsimp only [Option.bind_some]
    cases findFrom [58] json (pos + (34 :: key ++ [34]).length) with
    | none => rfl
    | some pos => rfl

/-- The text at the start of the value. -/
theorem drop_findValueStart (json key : List UInt8) :
    (findValueStart json key).map (fun start => json.drop start) =
      (fieldText key json).map fun s => s.dropWhile isSpace := by
  rw [fieldText_eq, findValueStart_eq, Option.map_map, Option.map_map]
  congr 1
  funext pos
  rw [Function.comp_apply, Function.comp_apply, ← List.drop_drop, drop_length_takeWhile]

theorem findValueStart_cases (json key : List UInt8) :
    (findValueStart json key = none ∧ fieldText key json = none) ∨
      ∃ start s, findValueStart json key = some start ∧ fieldText key json = some s ∧
        json.drop start = s.dropWhile isSpace := by
  have h := drop_findValueStart json key
  cases hs : findValueStart json key with
  | none =>
    rw [hs] at h
    exact .inl ⟨rfl, Option.map_eq_none_iff.1 h.symm⟩
  | some start =>
    rw [hs] at h
    obtain ⟨s, hf, hdrop⟩ := Option.map_eq_some_iff.1 h.symm
    exact .inr ⟨start, s, rfl, hf, hdrop.symm⟩

theorem findNumber_eq : findNumber json key = (fieldText key json).bind readNumber := by
  unfold findNumber readNumber
  rcases findValueStart_cases json key with ⟨hs, hf⟩ | ⟨start, s, hs, hf, hdrop⟩
  · rw [hs, hf]
    rfl
  · rw [hs, hf, Option.bind_some, ← hdrop]
    exact if_congr List.drop_eq_nil_iff.symm rfl rfl

theorem stringAt_eq (json : List UInt8) (start : ℕ) :
    (if json.length ≤ start ∨ json.getD start 0 ≠ 34 then none
      else
        match findFrom [34] json (start + 1) with
        | none => none
        | some stop => some ((json.drop (start + 1)).take (stop - start - 1))) =
      (stepOver 34 (json.drop start)).bind fun l => (find [34] l).map fun i => l.take i := by
  rcases Nat.lt_or_ge start json.length with hlt | hge
  · have hdrop : json.drop start = json.getD start 0 :: json.drop (start + 1) := by
      rw [List.drop_eq_getElem_cons hlt, List.getD_eq_getElem _ _ hlt]
    rw [hdrop]
    by_cases hquote : json.getD start 0 = 34
    · rw [if_neg (not_or.2 ⟨Nat.not_le.2 hlt, not_not_intro hquote⟩), stepOver, if_pos hquote,
        Option.bind_some]
      unfold findFrom
      cases find [34] (json.drop (start + 1)) with
      | none => rfl
      | some i =>
        have hi : i + (start + 1) - start - 1 = i := by omega
        simp [hi]
    · rw [if_pos (.inr hquote), stepOver, if_neg hquote]
      rfl
  · rw [if_pos (.inl hge), List.drop_eq_nil_of_le hge]
    rfl

theorem findString_eq : findString json key = (fieldText key json).bind readString := by
  unfold findString readString
  rcases findValueStart_cases json key with ⟨hs, hf⟩ | ⟨start, s, hs, hf, hdrop⟩
  · rw [hs, hf]
    rfl
  · rw [hs, hf, Option.bind_some, ← hdrop]
    exact stringAt_eq json start

theorem findInt_eq :
    findInt json key = (findNumber json key).bind fun v =>
      match v with
      | .finite q => if |q| < 1000000000 then some (q.num.tdiv q.den) else none
      | _ => none := by
  unfold findInt
  cases findNumber json key with
  | none => rfl
  | some v => cases v <;> rfl

end OpenDisplay.Protocol.Control
