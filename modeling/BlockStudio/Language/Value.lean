import BlockStudio.Number.Num

/-!
# Values of the language

A slot of a block and a variable of a program hold a value. Blocks and stacks are known by their
identity, because the same block can be reached in several ways and a change shows in all of them;
what they hold is kept in the store.
-/

namespace BlockStudio

structure BlockId where
  index : Nat
  deriving DecidableEq, Repr, Inhabited

structure StackId where
  index : Nat
  deriving DecidableEq, Repr, Inhabited

structure RowId where
  index : Nat
  deriving DecidableEq, Repr, Inhabited

inductive Value where
  /-- No value; an unfilled slot. -/
  | none
  | bool (b : Bool)
  | num (n : Num)
  /-- A complex number; powers of negative numbers can be complex. -/
  | complex (re im : Float)
  | text (s : String)
  | list (items : List Value)
  | block (id : BlockId)
  | stack (id : StackId)
  deriving Inhabited

namespace Value

abbrev int (n : Int) : Value := num (.int n)

abbrev float (x : Float) : Value := num (.float x)

/-- The name of a value's kind, as fault messages give it. -/
def kindName : Value → String
  | none => "NoneType"
  | bool _ => "bool"
  | num (.int _) => "int"
  | num (.float _) => "float"
  | complex .. => "complex"
  | text _ => "str"
  | list _ => "list"
  | block _ => "Block"
  | stack _ => "Stack"

/-- Whether a value counts as true: numbers other than zero, texts and lists that are not empty,
and every block and stack. -/
def truth : Value → Bool
  | none => false
  | bool b => b
  | num n => !n.isZero
  | complex re im => !(re == 0 && im == 0)
  | text s => !s.isEmpty
  | list items => !items.isEmpty
  | block _ => true
  | stack _ => true

/-- A number or a truth value as a number: true is one and false is zero. -/
def num? : Value → Option Num
  | num n => some n
  | bool b => some (.int (if b then 1 else 0))
  | _ => Option.none

end Value

end BlockStudio
