import BlockStudio.Hash.Sha256
import BlockStudio.Measure.Sample

/-!
# Fingerprints

The fingerprint of a value is the digest of a stream of bytes. Plain values stand in the stream with
their text, doubles to six significant digits; a text begins with `s`, a complex number with `c`. A
row is `L`, its length and its items; a dictionary is `D`, its size and its keys and values, ordered
by the fingerprints of the keys; values without an order come after `S` in the order of their
fingerprints. Of a long row the first two thousand items count, and what is nested too deep does not.
-/

namespace BlockStudio

/-- The number of decimal digits in front of the point of a double, less one. -/
def leadOf (b : Binary) : Int :=
  leadingExponent b.num b.den

/-- A double to six significant digits; zero loses its sign. -/
def sixDigits (x : Float) : Float :=
  match Binary.ofFloat? x with
  | none => x
  | some b => if b.num = 0 then 0 else roundPlaces (5 - leadOf b) x

namespace Fingerprint

def utf8 (s : String) : List UInt8 :=
  s.toUTF8.data.toList

def floatBytes (x : Float) : List UInt8 :=
  utf8 (floatText (sixDigits x))

def header (tag : String) (count : Nat) : List UInt8 :=
  utf8 (tag ++ Nat.repr count)

/-- How many items of a row count. -/
def longest : Nat := 2000

/-- How deep a value may be nested. -/
def deepest : Nat := 8

/-- Put an item into its place by key; items with equal keys keep their order. -/
def insertByKey {α : Type} (key : String) (item : α) : List (String × α) → List (String × α)
  | [] => [(key, item)]
  | (k, a) :: rest =>
    if key < k then (key, item) :: (k, a) :: rest else (k, a) :: insertByKey key item rest

/-- Items in the order of their keys; items with equal keys keep their order. -/
def sortByKey {α : Type} (items : List (String × α)) : List α :=
  (items.foldl (fun sorted (k, a) => insertByKey k a sorted) []).map (·.2)

/-- The stream of a value, nested to a depth of `fuel`. -/
def streamTo : Nat → Sample → List UInt8
  | 0, _ => []
  | fuel + 1, v =>
    match v with
    | .none => utf8 "None"
    | .bool b => utf8 (if b then "True" else "False")
    | .int n => utf8 (Int.repr n)
    | .float x => floatBytes x
    | .complex re im => utf8 "c" ++ floatBytes re ++ floatBytes im
    | .text s => utf8 "s" ++ utf8 s
    | .bytes _ data => utf8 "s" ++ data
    | .row _ items => header "L" items.length ++ (items.take longest).flatMap (streamTo fuel)
    | .bag _ items =>
      header "S" items.length ++
        (sortByKey (items.map fun i => (Sha256.hex (streamTo fuel i), streamTo fuel i))).flatten
    | .dictionary items =>
      header "D" items.length ++
        (sortByKey (items.map fun (k, w) =>
          (Sha256.hex (streamTo fuel k), streamTo fuel k ++ streamTo fuel w))).flatten
    | .shown _ text => utf8 text

end Fingerprint

namespace Sample

def stream (v : Sample) : List UInt8 :=
  Fingerprint.streamTo (Fingerprint.deepest + 1) v

def streamText (v : Sample) : String :=
  String.ofList (v.stream.flatMap fun b => hexText 2 b.toNat)

def fingerprint (v : Sample) : String :=
  Sha256.hex v.stream

end Sample

end BlockStudio
