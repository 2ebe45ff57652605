import BlockStudio.Json.Basic
import BlockStudio.Number.Reading

/-!
# Reading JSON

`Json.parse` reads one value with blanks around it. Beside the standard's values it knows `NaN`,
`Infinity` and `-Infinity`. A text that is not JSON gives the reason and the place of the first
fault, counted in characters from zero.
-/

namespace BlockStudio

/-- Why a text is not JSON. -/
inductive JsonReason where
  | value
  | extra
  /-- A quoted field name was expected. -/
  | name
  | colon
  | comma
  | openText
  /-- A quoted text holds a control character. -/
  | control
  /-- A backslash is followed by an unknown letter. -/
  | escape
  /-- A numeric escape lacks its four digits. -/
  | hexEscape
  /-- The text begins with a byte order mark. -/
  | byteOrderMark
  deriving DecidableEq, Repr

def JsonReason.message : JsonReason → String
  | value => "Expecting value"
  | extra => "Extra data"
  | name => "Expecting property name enclosed in double quotes"
  | colon => "Expecting ':' delimiter"
  | comma => "Expecting ',' delimiter"
  | openText => "Unterminated string starting at"
  | control => "Invalid control character at"
  | escape => "Invalid \\escape"
  | hexEscape => "Invalid \\uXXXX escape"
  | byteOrderMark => "Unexpected UTF-8 BOM (decode using utf-8-sig)"

/-- A fault in a JSON text: the reason, and how many characters are left from its place on. -/
structure JsonError where
  reason : JsonReason
  /-- The number of characters from the fault to the end of the text. -/
  left : Nat
  deriving DecidableEq, Repr

namespace JsonError

/-- The place of the fault in `text`, from zero. -/
def position (e : JsonError) (text : String) : Nat :=
  text.length - e.left

/-- The wording of a fault, with line, column and place. -/
def message (e : JsonError) (text : String) : String :=
  let before := text.toList.take (e.position text)
  let line := before.count '\n' + 1
  let column := (before.reverse.takeWhile (· ≠ '\n')).length + 1
  e.reason.message ++ ": line " ++ Nat.repr line ++ " column " ++ Nat.repr column ++
    " (char " ++ Nat.repr (e.position text) ++ ")"

end JsonError

namespace Json

/-- A blank between JSON tokens. -/
def isBlank (c : Char) : Bool :=
  c = ' ' || c = '\t' || c = '\n' || c = '\r'

def skipBlanks (cs : List Char) : List Char :=
  cs.dropWhile isBlank

/-- A fault at the first of the remaining characters. -/
def fault {α : Type} (reason : JsonReason) (rest : List Char) : Except JsonError α :=
  .error ⟨reason, rest.length⟩

def hexValue? (c : Char) : Option Nat :=
  if '0' ≤ c && c ≤ '9' then some (c.toNat - 48)
  else if 'a' ≤ c && c ≤ 'f' then some (c.toNat - 87)
  else if 'A' ≤ c && c ≤ 'F' then some (c.toNat - 55)
  else none

/-- Four hexadecimal digits and what follows them; something has to follow. -/
def hexFour? : List Char → Option (Nat × List Char)
  | a :: b :: c :: d :: e :: rest => do
    let n := (← hexValue? a) * 4096 + (← hexValue? b) * 256 + (← hexValue? c) * 16 + (← hexValue? d)
    return (n, e :: rest)
  | _ => none

/-- The low half of a surrogate pair written as an escape, and what follows it. -/
def lowHalf? : List Char → Option (Nat × List Char)
  | '\\' :: 'u' :: rest => do
    let (n, rest) ← hexFour? rest
    if 0xdc00 ≤ n && n < 0xe000 then some (n, rest) else none
  | _ => none

/-- The character of a numeric escape: two halves of a pair make one character. -/
def escapedChar (n : Nat) (rest : List Char) : Char × List Char :=
  if 0xd800 ≤ n && n < 0xdc00 then
    match lowHalf? rest with
    | some (m, after) => (Char.ofNat (0x10000 + (n - 0xd800) * 0x400 + (m - 0xdc00)), after)
    | none => ('\ufffd', rest)
  else if 0xdc00 ≤ n && n < 0xe000 then ('\ufffd', rest)
  else (Char.ofNat n, rest)

/-- The character that a letter after a backslash stands for. -/
def simpleEscape? (c : Char) : Option Char :=
  if c = '"' || c = '\\' || c = '/' then some c
  else if c = 'b' then some '\x08'
  else if c = 'f' then some '\x0c'
  else if c = 'n' then some '\n'
  else if c = 'r' then some '\r'
  else if c = 't' then some '\t'
  else none

/-- The rest of a quoted text, its opening quote `start` characters before the end of the input.
The characters come out in reverse in `done`. -/
def readText (start : Nat) :
    Nat → List Char → List Char → Except JsonError (String × List Char)
  | 0, _, _ => .error ⟨.openText, start⟩
  | fuel + 1, done, cs =>
    match cs with
    | [] => .error ⟨.openText, start⟩
    | '"' :: rest => .ok (String.ofList done.reverse, rest)
    | '\\' :: [] => .error ⟨.openText, start⟩
    | '\\' :: 'u' :: rest =>
      match hexFour? rest with
      | none => fault .hexEscape ('u' :: rest)
      | some (n, rest) =>
        let (c, rest) := escapedChar n rest
        readText start fuel (c :: done) rest
    | '\\' :: c :: rest =>
      match simpleEscape? c with
      | some d => readText start fuel (d :: done) rest
      | none => fault .escape ('\\' :: c :: rest)
    | c :: rest =>
      if c.toNat < 0x20 then fault .control (c :: rest) else readText start fuel (c :: done) rest

/-- A quoted text; the opening quote is the first character of `cs`. -/
def quotedText (cs : List Char) : Except JsonError (String × List Char) :=
  readText cs.length cs.length [] (cs.drop 1)

/-- The exponent of a number: its digits with their sign, when there are any. -/
def takeExponent (cs : List Char) : Option (Int × List Char) :=
  match cs with
  | c :: rest =>
    if c = 'e' || c = 'E' then
      let (negative, rest) := takeSign rest
      let digits := rest.takeWhile isAsciiDigit
      if digits.isEmpty then none
      else
        let n : Int := natOfDigits digits
        some (if negative then -n else n, rest.dropWhile isAsciiDigit)
    else none
  | [] => none

/-- The places after the point of a number, when there are any. -/
def takePlaces : List Char → Option (List Char × List Char)
  | '.' :: rest =>
    let digits := rest.takeWhile isAsciiDigit
    if digits.isEmpty then none else some (digits, rest.dropWhile isAsciiDigit)
  | _ => none

/-- The whole digits of a number: a lone zero, or digits that begin with another one. -/
def takeWhole : List Char → Option (List Char × List Char)
  | '0' :: rest => some (['0'], rest)
  | cs =>
    let digits := cs.takeWhile isAsciiDigit
    if digits.isEmpty then none else some (digits, cs.dropWhile isAsciiDigit)

def number? (cs : List Char) : Option (Json × List Char) := do
  let (negative, body) := if cs.head? = some '-' then (true, cs.drop 1) else (false, cs)
  let (whole, rest) ← takeWhole body
  let places := takePlaces rest
  let rest := (places.map Prod.snd).getD rest
  let exponent := takeExponent rest
  let rest := (exponent.map Prod.snd).getD rest
  if places.isNone && exponent.isNone then
    let n : Int := natOfDigits whole
    return (.int (if negative then -n else n), rest)
  else
    let digits := (places.map Prod.fst).getD []
    let e := (exponent.map Prod.fst).getD 0
    return (.float (floatOfDecimal negative (natOfDigits (whole ++ digits)) (e - digits.length)),
      rest)

def words : List (String × Json) :=
  [("null", .null), ("true", .bool true), ("false", .bool false), ("NaN", .float notANumber),
    ("Infinity", .float (infinity false)), ("-Infinity", .float (infinity true))]

/-- A value that is one word, and what follows it. -/
def word? (cs : List Char) : Option (Json × List Char) :=
  words.findSome? fun (w, j) =>
    if w.toList.isPrefixOf cs then some (j, cs.drop w.length) else none

mutual

/-- A value, with no blanks before it. -/
def readValue : Nat → List Char → Except JsonError (Json × List Char)
  | 0, cs => fault .value cs
  | fuel + 1, cs =>
    match cs with
    | '"' :: _ => do
      let (s, rest) ← quotedText cs
      return (.text s, rest)
    | '[' :: rest =>
      match skipBlanks rest with
      | ']' :: after => .ok (.array [], after)
      | rest => readItems fuel [] rest
    | '\x7b' :: rest =>
      match skipBlanks rest with
      | '\x7d' :: after => .ok (.object [], after)
      | rest => readFields fuel [] rest
    | _ =>
      match word? cs with
      | some r => .ok r
      | none =>
        match number? cs with
        | some r => .ok r
        | none => fault .value cs

/-- The items of an array from the first one on; those already read are in reverse in `done`. -/
def readItems : Nat → List Json → List Char → Except JsonError (Json × List Char)
  | 0, _, cs => fault .value cs
  | fuel + 1, done, cs => do
    let (item, rest) ← readValue fuel cs
    match skipBlanks rest with
    | ']' :: after => .ok (.array (item :: done).reverse, after)
    | ',' :: rest => readItems fuel (item :: done) (skipBlanks rest)
    | rest => fault .comma rest

/-- The fields of an object from the first one on, after those already read. -/
def readFields : Nat → List (String × Json) → List Char → Except JsonError (Json × List Char)
  | 0, _, cs => fault .value cs
  | fuel + 1, done, cs => do
    match cs with
    | '"' :: _ =>
      let (name, rest) ← quotedText cs
      match skipBlanks rest with
      | ':' :: rest =>
        let (value, rest) ← readValue fuel (skipBlanks rest)
        let done := putField name value done
        match skipBlanks rest with
        | '\x7d' :: after => .ok (.object done, after)
        | ',' :: rest => readFields fuel done (skipBlanks rest)
        | rest => fault .comma rest
      | rest => fault .colon rest
    | rest => fault .name rest

end

def parse (text : String) : Except JsonError Json := do
  let cs := text.toList
  if cs.head? = some '\ufeff' then fault .byteOrderMark cs
  else
    let (value, rest) ← readValue (cs.length + 1) (skipBlanks cs)
    match skipBlanks rest with
    | [] => .ok value
    | rest => fault .extra rest

end Json

end BlockStudio
