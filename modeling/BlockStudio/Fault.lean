import BlockStudio.Text.Quoted

/-!
# Faults

Everything that can go wrong in a program or in the editor, as causes. `Fault.message` gives the
wording of each cause; whether a cause is one of reading a number (`Fault.isMisread`) decides what
the number test and the increment blocks forgive.
-/

namespace BlockStudio

/-- What an index can fall outside of. -/
inductive Indexed where
  | list
  /-- A fixed row of values that is read. -/
  | tuple
  | text
  /-- A list that is written. -/
  | assignment
  | taking
  /-- A list from which an item is taken although it has none. -/
  | takingEmpty
  deriving DecidableEq, Repr

inductive Fault where
  | notNumeric (text : String)
  | notReal (kind : String)
  /-- An integer lies beyond the largest double. -/
  | beyondFloat
  /-- Nothing is stored under a key, which is shown. -/
  | unknownKey (shown : String)
  /-- A value of this kind cannot be a key. -/
  | unhashable (kind : String)
  /-- A value of this kind cannot be walked through. -/
  | notIterable (kind : String)
  | notIterator (kind : String)
  /-- A value of this kind lacks an attribute. -/
  | noAttribute (kind name : String)
  | notSubscriptable (kind : String)
  | textByName
  | listByName
  | outOfRange (what : Indexed)
  /-- An index does not fit a machine word. -/
  | indexTooWide
  | divisionByZero
  | floatDivisionByZero
  | remainderByZero
  | zeroToNegative
  /-- A power lies beyond the largest double. -/
  | powerRange
  /-- A complex power lies beyond the largest double. -/
  | complexRange
  | nanToInteger
  | infinityToInteger
  | mathDomain
  /-- There is no integer from `low` to `high`. -/
  | emptyRange (low high : Int)
  | notInteger
  | cannotJoin
  /-- A number cannot be taken from a text. -/
  | cannotSubtract
  /-- Values of these kinds have no such operation. -/
  | badOperands
  /-- A label without text cannot be shown. -/
  | labelWithoutText (index : Nat) (kind : String)
  /-- A value is not one of the members of an enumeration. -/
  | notMember (shown enumeration : String)
  | missingFile (path : String)
  | isDirectory (path : String)
  | nullPath
  | undecodable
  /-- A value of this kind cannot be saved. -/
  | notStorable (kind : String)
  /-- A text is not JSON, for the given reason. -/
  | badJson (reason : String)
  | notCompressed
  /-- A block without components has no size. -/
  | emptyLayout
  /-- An easing is asked outside the unit interval. -/
  | easeRange
  /-- A value was asked of a block that gives none. -/
  | ended
  /-- A value was asked, inside a running program, of a block that gives none. -/
  | exhausted
  deriving DecidableEq, Repr

namespace Fault

/-- Whether the fault is a misread value, which the number test takes as "no". -/
def isMisread : Fault → Bool
  | notNumeric _ | nanToInteger | mathDomain | emptyRange .. | notMember .. | nullPath
  | undecodable | badJson _ | emptyLayout | easeRange => true
  | _ => false

def message : Fault → String
  | notNumeric s => "could not convert string to float: " ++ quoted s
  | notReal kind => "float() argument must be a string or a real number, not '" ++ kind ++ "'"
  | beyondFloat => "int too large to convert to float"
  | unknownKey shown => shown
  | unhashable kind => "unhashable type: '" ++ kind ++ "'"
  | notIterable kind => "'" ++ kind ++ "' object is not iterable"
  | notIterator kind => "'" ++ kind ++ "' object is not an iterator"
  | noAttribute kind name => "'" ++ kind ++ "' object has no attribute '" ++ name ++ "'"
  | notSubscriptable kind => "'" ++ kind ++ "' object is not subscriptable"
  | textByName => "string indices must be integers, not 'str'"
  | listByName => "list indices must be integers or slices, not str"
  | outOfRange .list => "list index out of range"
  | outOfRange .tuple => "tuple index out of range"
  | outOfRange .text => "string index out of range"
  | outOfRange .assignment => "list assignment index out of range"
  | outOfRange .taking => "pop index out of range"
  | outOfRange .takingEmpty => "pop from empty list"
  | indexTooWide => "cannot fit 'int' into an index-sized integer"
  | divisionByZero => "division by zero"
  | floatDivisionByZero => "float division by zero"
  | remainderByZero => "float modulo"
  | zeroToNegative => "0.0 cannot be raised to a negative power"
  | powerRange => "(34, 'Numerical result out of range')"
  | complexRange => "complex exponentiation"
  | nanToInteger => "cannot convert float NaN to integer"
  | infinityToInteger => "cannot convert float infinity to integer"
  | mathDomain => "math domain error"
  | emptyRange low high =>
    "empty range for randrange() (" ++ Int.repr low ++ ", " ++ Int.repr (high + 1) ++ ", " ++
      Int.repr (high + 1 - low) ++ ")"
  | notInteger => "'float' object cannot be interpreted as an integer"
  | cannotJoin => "can only concatenate str (not \"float\") to str"
  | cannotSubtract => "unsupported operand type(s) for -=: 'str' and 'float'"
  | badOperands => "unsupported operand type(s)"
  | labelWithoutText index kind =>
    "sequence item " ++ Nat.repr index ++ ": expected str instance, " ++ kind ++ " found"
  | notMember shown enumeration => shown ++ " is not a valid " ++ enumeration
  | missingFile path => "[Errno 2] No such file or directory: " ++ quoted path
  | isDirectory path => "[Errno 21] Is a directory: " ++ quoted path
  | nullPath => "embedded null byte"
  | undecodable => "'utf-8' codec can't decode byte 0x8b in position 1: invalid start byte"
  | notStorable kind => "Object of type " ++ kind ++ " is not JSON serializable"
  | badJson reason => reason
  | notCompressed => "not a gzipped file"
  | emptyLayout => "max() arg is an empty sequence"
  | easeRange => "Argument must be between 0.0 and 1.0."
  | ended => ""
  | exhausted => "generator raised StopIteration"

end Fault

end BlockStudio
