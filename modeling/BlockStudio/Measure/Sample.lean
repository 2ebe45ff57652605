import BlockStudio.Json.Basic
import BlockStudio.Number.Num
import BlockStudio.Number.Reading

/-!
# Samples

What a benchmark gives back, as far as it can be compared: plain values, texts and bytes, rows,
sets and dictionaries to any depth. A row is written as a list, and all else that JSON does not have
as an object with one field that names its kind.
-/

namespace BlockStudio

/-- A value that a benchmark gives back. -/
inductive Sample where
  | none
  | bool (b : Bool)
  | int (n : Int)
  | float (x : Float)
  | complex (re im : Float)
  | text (s : String)
  /-- Bytes; `kind` is the name of their kind. -/
  | bytes (kind : String) (data : List UInt8)
  /-- A row of values; `kind` is the name of its kind. -/
  | row (kind : String) (items : List Sample)
  /-- Values without an order; `kind` is the name of their kind. -/
  | bag (kind : String) (items : List Sample)
  | dictionary (items : List (Sample × Sample))
  /-- A value that is known by its text only; `kind` is the name of its kind. -/
  | shown (kind text : String)
  deriving Inhabited

namespace Sample

def kindName : Sample → String
  | none => "NoneType"
  | bool _ => "bool"
  | int _ => "int"
  | float _ => "float"
  | complex .. => "complex"
  | text _ => "str"
  | bytes kind _ | row kind _ | bag kind _ | shown kind _ => kind
  | dictionary _ => "dict"

/-- A JSON value as it stands: an object is a dictionary. -/
def ofJson : Json → Sample
  | .null => none
  | .bool b => bool b
  | .int n => int n
  | .float x => float x
  | .text s => text s
  | .array items => row "list" (ofItems items)
  | .object fields => dictionary (ofFields fields)
where
  ofItems : List Json → List Sample
    | [] => []
    | j :: rest => ofJson j :: ofItems rest
  ofFields : List (String × Json) → List (Sample × Sample)
    | [] => []
    | (k, j) :: rest => (text k, ofJson j) :: ofFields rest

/-! ### Written values -/

def hexValue (c : Char) : Nat :=
  if c.isDigit then c.toNat - 48 else if c.isLower then c.toNat - 87 else c.toNat - 55

/-- The bytes of a run of hexadecimal digits. -/
def hexBytes : List Char → List UInt8
  | a :: b :: rest => (hexValue a * 16 + hexValue b).toUInt8 :: hexBytes rest
  | _ => []

def readInt (s : String) : Int :=
  match s.toList with
  | '-' :: cs => -(natOfDigits cs : Int)
  | cs => natOfDigits cs

def readFloat (s : String) : Float :=
  (readNumber? s).getD 0

/-- A span of days and seconds as text; parts that are zero are left out. -/
def spanText (days seconds : Int) : String :=
  let parts := (if days = 0 then [] else ["days=" ++ Int.repr days]) ++
    (if seconds = 0 then [] else ["seconds=" ++ Int.repr seconds])
  if parts.isEmpty then "0" else ", ".intercalate parts

def fractionText (n d : Int) : String :=
  let g : Int := Int.gcd n d
  let g := if d < 0 then -g else g
  Int.repr (n / g) ++ ", " ++ Int.repr (d / g)

/-- A path without empty and `.` parts. -/
def pathText (s : String) : String :=
  let parts := (s.splitOn "/").filter fun p => p != "" && p != "."
  let body := "/".intercalate parts
  if s.startsWith "/" then "/" ++ body else if body.isEmpty then "." else body

/-- The digits of an identifier in its five groups. -/
def groupsText (s : String) : String :=
  let cs := s.toList.filter (· != '-')
  "-".intercalate ([(0, 8), (8, 4), (12, 4), (16, 4), (20, 12)].map fun (start, count) =>
    String.ofList ((cs.drop start).take count))

/-- A value of a named kind whose parts are read by `read`. -/
def readKind (read : Json → Sample) (kind : String) (v : Json) : Sample :=
  match kind, v with
  | "int", .text s => int (readInt s)
  | "float", .text s => float (readFloat s)
  | "complex", .array [.text re, .text im] => complex (readFloat re) (readFloat im)
  | "list", .array items => row "list" (items.map read)
  | "tuple", .array items => row "tuple" (items.map read)
  | "set", .array items => bag "set" (items.map read)
  | "frozenset", .array items => bag "frozenset" (items.map read)
  | "range", .int n => row "list" ((List.range n.toNat).map fun (i : Nat) => int i)
  | "dict", .array items => dictionary (items.filterMap fun
      | .array [k, w] => some (read k, read w)
      | _ => Option.none)
  | "bytes", .text s => bytes "bytes" (hexBytes s.toList)
  | "bytearray", .text s => bytes "bytearray" (hexBytes s.toList)
  | "memoryview", .text s => bytes "memoryview" (hexBytes s.toList)
  | "date", .array [.int y, .int m, .int d] =>
    shown "date" ("datetime.date(" ++ ", ".intercalate ([y, m, d].map Int.repr) ++ ")")
  | "timedelta", .array [.int days, .int seconds] =>
    shown "timedelta" ("datetime.timedelta(" ++ spanText days seconds ++ ")")
  | "decimal", .text s => shown "Decimal" ("Decimal('" ++ s ++ "')")
  | "fraction", .array [.int n, .int d] => shown "Fraction" ("Fraction(" ++ fractionText n d ++ ")")
  | "path", .text s => shown "PurePosixPath" ("PurePosixPath('" ++ pathText s ++ "')")
  | "uuid", .text s => shown "UUID" ("UUID('" ++ groupsText s ++ "')")
  | "array", .object fields =>
    match fields.lookup "data" with
    | some (.array items) => row "ndarray" (items.map read)
    | _ => row "ndarray" []
  | "dataclass", .array items => dictionary (items.filterMap fun
      | .array [k, w] => some (read k, read w)
      | _ => Option.none)
  | "other", .text s => shown s ("builtins." ++ s)
  | _, v => ofJson v

/-- Read a written value, nested to a depth of `fuel`. -/
def readTo : Nat → Json → Sample
  | 0, j => ofJson j
  | fuel + 1, .array items => row "list" (items.map (readTo fuel))
  | fuel + 1, .object [(kind, v)] => readKind (readTo fuel) kind v
  | _ + 1, j => ofJson j

end Sample

namespace Json

def height : Json → Nat
  | array items => 1 + heightItems items
  | object fields => 1 + heightFields fields
  | _ => 0
where
  heightItems : List Json → Nat
    | [] => 0
    | v :: rest => max (height v) (heightItems rest)
  heightFields : List (String × Json) → Nat
    | [] => 0
    | (_, v) :: rest => max (height v) (heightFields rest)

end Json

def Sample.read (j : Json) : Sample :=
  Sample.readTo (j.height + 1) j

end BlockStudio
