import GhcpConsole.Lib.Double
import GhcpConsole.Lib.OrderedMap

/-!
# JSON texts

`JSON.parse` and `JSON.stringify` on texts of code units.
-/

namespace GhcpConsole

inductive JsonValue
  | null
  | bool (value : Bool)
  | num (value : Double)
  | str (text : JsString)
  | arr (items : List JsonValue)
  | obj (members : List (JsString × JsonValue))

namespace JsonValue

/-- A key that counts as an index comes before all others. -/
def arrayIndex? (key : JsString) : Option Nat :=
  if key = utf16 "0" then some 0
  else if key ≠ [] ∧ key.head? ≠ some (codeUnit '0') ∧ key.all Double.isDigit
      ∧ Double.readDigits key < 2 ^ 32 - 1 then
    some (Double.readDigits key)
  else none

/-- `object[key] = value`. -/
def setMember (members : OrderedMap JsString JsonValue) (key : JsString) (value : JsonValue) :
    OrderedMap JsString JsonValue :=
  match arrayIndex? key with
  | none => members.set key value
  | some i =>
      if members.any (·.1 = key) then members.set key value
      else
        let before := fun member : JsString × JsonValue => (arrayIndex? member.1).any (· < i)
        members.takeWhile before ++ (key, value) :: members.dropWhile before

/-- The members of an object in the order of their keys; the last one of a key counts. -/
def ofMembers (members : List (JsString × JsonValue)) : JsonValue :=
  .obj (members.foldl (fun object member => setMember object member.1 member.2) [])

/-- `typeof value === 'object' && value !== null && !Array.isArray(value)`. -/
def members? : JsonValue → Option (OrderedMap JsString JsonValue)
  | obj members => some members
  | _ => none

section Reading

def isSpace (u : CodeUnit) : Bool := u = 0x20 || u = 0x9 || u = 0xA || u = 0xD

def skipSpace (text : JsString) : JsString := text.dropWhile isSpace

def hexDigit? (u : CodeUnit) : Option Nat :=
  if codeUnit '0' ≤ u ∧ u ≤ codeUnit '9' then some (u.toNat - 0x30)
  else if codeUnit 'a' ≤ u ∧ u ≤ codeUnit 'f' then some (u.toNat - 0x57)
  else if codeUnit 'A' ≤ u ∧ u ≤ codeUnit 'F' then some (u.toNat - 0x37)
  else none

/-- The code unit that four hexadecimal digits stand for. -/
def hexUnit? (a b c d : CodeUnit) : Option CodeUnit := do
  let a ← hexDigit? a
  let b ← hexDigit? b
  let c ← hexDigit? c
  let d ← hexDigit? d
  some (UInt16.ofNat (a * 0x1000 + b * 0x100 + c * 0x10 + d))

/-- What a reverse solidus in front of one of these characters stands for. -/
def escapes : List (CodeUnit × CodeUnit) :=
  [(codeUnit '"', codeUnit '"'), (codeUnit '\\', codeUnit '\\'), (codeUnit '/', codeUnit '/'),
    (codeUnit 'b', 0x8), (codeUnit 'f', 0xC), (codeUnit 'n', 0xA), (codeUnit 'r', 0xD),
    (codeUnit 't', 0x9)]

/-- A string after its first quotation mark, and what comes after the last one. -/
def readString : JsString → Option (JsString × JsString)
  | [] => none
  | u :: text =>
      if u = codeUnit '"' then some ([], text)
      else if u = codeUnit '\\' then
        match text with
        | [] => none
        | e :: text =>
            if e = codeUnit 'u' then
              match text with
              | a :: b :: c :: d :: text =>
                  (hexUnit? a b c d).bind fun unit => (readString text).map (·.map (unit :: ·) id)
              | _ => none
            else
              (OrderedMap.get escapes e).bind fun unit => (readString text).map (·.map (unit :: ·) id)
      else if u < 0x20 then none
      else (readString text).map (·.map (u :: ·) id)

/-- One of the digits at the front, or all of them. -/
def readWhole (text : JsString) : Option (JsString × JsString) :=
  match text with
  | u :: rest =>
      if u = codeUnit '0' then some ([u], rest)
      else if Double.isDigit u then some (text.takeWhile Double.isDigit, text.dropWhile Double.isDigit)
      else none
  | [] => none

def readDigits (text : JsString) : Option (JsString × JsString) :=
  match text.takeWhile Double.isDigit with
  | [] => none
  | digits => some (digits, text.dropWhile Double.isDigit)

def readFraction (text : JsString) : Option (JsString × JsString) :=
  match text with
  | u :: rest => if u = codeUnit '.' then readDigits rest else some ([], text)
  | [] => some ([], text)

def readExponent (text : JsString) : Option (Int × JsString) :=
  match text with
  | e :: rest =>
      if e = codeUnit 'e' ∨ e = codeUnit 'E' then
        match rest with
        | sign :: digits =>
            if sign = codeUnit '-' then
              (readDigits digits).map (·.map (fun ds => -(Double.readDigits ds : Int)) id)
            else
              (readDigits (if sign = codeUnit '+' then digits else rest)).map
                (·.map (fun ds => (Double.readDigits ds : Int)) id)
        | [] => none
      else some (0, text)
  | [] => some (0, text)

def readNumber (text : JsString) : Option (JsonValue × JsString) := do
  let negative := text.head? = some (codeUnit '-')
  let (whole, text) ← readWhole (if negative then text.drop 1 else text)
  let (fraction, text) ← readFraction text
  let (exponent, text) ← readExponent text
  some (.num (Double.ofDecimal negative (Double.readDigits (whole ++ fraction))
    (exponent - fraction.length)), text)

/-- The value whose name a text begins with. -/
def readName (name : String) (value : JsonValue) (text : JsString) : Option (JsonValue × JsString) :=
  if utf16 name <+: text then some (value, text.drop (utf16 name).length) else none

/-! Every value uses up a code unit, so that a text of `n` code units has a value of depth `n` at most. -/

mutual

def readValue : Nat → JsString → Option (JsonValue × JsString)
  | 0, _ => none
  | fuel + 1, text =>
      match skipSpace text with
      | [] => none
      | u :: rest =>
          if u = codeUnit '\x7b' then
            if (skipSpace rest).head? = some (codeUnit '\x7d') then
              some (ofMembers [], (skipSpace rest).drop 1)
            else (readMembers fuel rest).map (·.map ofMembers id)
          else if u = codeUnit '[' then
            if (skipSpace rest).head? = some (codeUnit ']') then some (.arr [], (skipSpace rest).drop 1)
            else (readItems fuel rest).map (·.map .arr id)
          else if u = codeUnit '"' then (readString rest).map (·.map .str id)
          else if u = codeUnit 't' then readName "true" (.bool true) (u :: rest)
          else if u = codeUnit 'f' then readName "false" (.bool false) (u :: rest)
          else if u = codeUnit 'n' then readName "null" .null (u :: rest)
          else readNumber (u :: rest)

/-- The items of an array and what comes after its bracket. -/
def readItems : Nat → JsString → Option (List JsonValue × JsString)
  | 0, _ => none
  | fuel + 1, text => do
      let (item, text) ← readValue fuel text
      match skipSpace text with
      | u :: rest =>
          if u = codeUnit ',' then (readItems fuel rest).map (·.map (item :: ·) id)
          else if u = codeUnit ']' then some ([item], rest)
          else none
      | [] => none

/-- The members of an object and what comes after its brace. -/
def readMembers : Nat → JsString → Option (List (JsString × JsonValue) × JsString)
  | 0, _ => none
  | fuel + 1, text =>
      match skipSpace text with
      | quotation :: text =>
          if quotation = codeUnit '"' then do
            let (key, text) ← readString text
            match skipSpace text with
            | colon :: text =>
                if colon = codeUnit ':' then do
                  let (value, text) ← readValue fuel text
                  match skipSpace text with
                  | u :: rest =>
                      if u = codeUnit ',' then (readMembers fuel rest).map (·.map ((key, value) :: ·) id)
                      else if u = codeUnit '\x7d' then some ([(key, value)], rest)
                      else none
                  | [] => none
                else none
            | [] => none
          else none
      | [] => none

end

/-- `JSON.parse(text)`; a text that is not JSON has no value. -/
def parse (text : JsString) : Option JsonValue :=
  (readValue (text.length + 1) text).bind fun found =>
    if skipSpace found.2 = [] then some found.1 else none

end Reading

section Writing

def hexText (u : CodeUnit) : JsString :=
  [u.toNat / 0x1000, u.toNat / 0x100 % 0x10, u.toNat / 0x10 % 0x10, u.toNat % 0x10].map fun d =>
    UInt16.ofNat (if d < 10 then 0x30 + d else 0x57 + d)

/-- The solidus is written as it is. -/
def escapedUnit (u : CodeUnit) : JsString :=
  match escapes.find? (fun e => e.2 = u ∧ u ≠ codeUnit '/') with
  | some e => [codeUnit '\\', e.1]
  | none =>
      if u < 0x20 ∨ isHighSurrogate u ∨ isLowSurrogate u then utf16 "\\u" ++ hexText u else [u]

/-- Two surrogates that belong together are a character. -/
def escaped : JsString → JsString
  | high :: low :: text =>
      if isHighSurrogate high ∧ isLowSurrogate low then high :: low :: escaped text
      else escapedUnit high ++ escaped (low :: text)
  | [u] => escapedUnit u
  | [] => []

def quote (text : JsString) : JsString := codeUnit '"' :: escaped text ++ [codeUnit '"']

/-- The parts of an array or an object between its brackets. -/
def bracketed (gap indent : JsString) (first last : Char) (parts : List JsString) : JsString :=
  if parts = [] then [codeUnit first, codeUnit last]
  else if gap = [] then codeUnit first :: (utf16 ",").intercalate parts ++ [codeUnit last]
  else
    codeUnit first :: utf16 "\n" ++ indent ++ gap
      ++ (utf16 ",\n" ++ indent ++ gap).intercalate parts ++ utf16 "\n" ++ indent ++ [codeUnit last]

mutual

def serialize (gap indent : JsString) : JsonValue → JsString
  | null => utf16 "null"
  | bool value => utf16 (if value then "true" else "false")
  | num (.infinite _) => utf16 "null"
  | num value => value.toText
  | str text => quote text
  | arr items => bracketed gap indent '[' ']' (serializeItems gap (indent ++ gap) items)
  | obj members => bracketed gap indent '\x7b' '\x7d' (serializeMembers gap (indent ++ gap) members)

def serializeItems (gap indent : JsString) : List JsonValue → List JsString
  | [] => []
  | item :: items => serialize gap indent item :: serializeItems gap indent items

def serializeMembers (gap indent : JsString) : List (JsString × JsonValue) → List JsString
  | [] => []
  | (key, value) :: members =>
      (quote key ++ utf16 (if gap = [] then ":" else ": ") ++ serialize gap indent value)
        :: serializeMembers gap indent members

end

/-- `JSON.stringify(value)`. -/
def stringify (value : JsonValue) : JsString := serialize [] [] value

/-- `JSON.stringify(value, undefined, spaces)`. -/
def pretty (spaces : Nat) (value : JsonValue) : JsString :=
  serialize (List.replicate spaces (codeUnit ' ')) [] value

example : (parse (utf16 "\x7b\"a\": [1.5e1, \"\\u00e9\\n\"], \"2\": true, \"1\": null\x7d")).map stringify
    = some (utf16 "\x7b\"1\":null,\"2\":true,\"a\":[15,\"é\\n\"]\x7d") := by decide +kernel

end Writing

end JsonValue

end GhcpConsole
