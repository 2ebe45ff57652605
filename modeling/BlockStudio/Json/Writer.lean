import BlockStudio.Json.Basic
import BlockStudio.Number.Decimal
import BlockStudio.Text.Quoted

/-!
# Writing JSON

One line of ASCII: a comma and a blank between items, a colon and a blank after a name, and a
numeric escape for every character beyond ASCII.
-/

namespace BlockStudio

namespace Json

/-- The numeric escape of a sixteen-bit unit. -/
def unitEscape (n : Nat) : List Char :=
  '\\' :: 'u' :: hexText 4 n

/-- One character of a quoted text; beyond sixteen bits it is written as a pair of escapes. -/
def writeChar (c : Char) : List Char :=
  let n := c.toNat
  if c = '"' || c = '\\' then ['\\', c]
  else if 0x20 ≤ n && n < 0x7f then [c]
  else if c = '\n' then ['\\', 'n']
  else if c = '\r' then ['\\', 'r']
  else if c = '\t' then ['\\', 't']
  else if n = 0x08 then ['\\', 'b']
  else if n = 0x0c then ['\\', 'f']
  else if n < 0x10000 then unitEscape n
  else unitEscape (0xd800 + (n - 0x10000) / 0x400) ++ unitEscape (0xdc00 + (n - 0x10000) % 0x400)

def writeText (s : String) : String :=
  "\"" ++ String.ofList (s.toList.flatMap writeChar) ++ "\""

/-- A double; infinities and NaN have names. -/
def writeFloat (x : Float) : String :=
  if x.isNaN then "NaN"
  else if x.isInf then (if signBit x then "-Infinity" else "Infinity")
  else floatText x

mutual

def write : Json → String
  | null => "null"
  | bool b => if b then "true" else "false"
  | int n => Int.repr n
  | float x => writeFloat x
  | text s => writeText s
  | array items => "[" ++ writeItems items ++ "]"
  | object fields => "\x7b" ++ writeFields fields ++ "\x7d"

def writeItems : List Json → String
  | [] => ""
  | [item] => write item
  | item :: rest => write item ++ ", " ++ writeItems rest

def writeFields : List (String × Json) → String
  | [] => ""
  | [(name, value)] => writeText name ++ ": " ++ write value
  | (name, value) :: rest => writeText name ++ ": " ++ write value ++ ", " ++ writeFields rest

end

end Json

end BlockStudio
