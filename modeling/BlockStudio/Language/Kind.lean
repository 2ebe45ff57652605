/-!
# Kinds of blocks, slots and data

The three closed vocabularies of the language. Each has a written name and a number, and a saved
definition refers to a member by either.
-/

namespace BlockStudio

/-- Where a block can stand. -/
inductive BlockType where
  /-- A block that begins a stack. -/
  | hat
  /-- A block that ends a stack. -/
  | cap
  /-- A block that stands anywhere in a stack. -/
  | statement
  /-- A block that gives a value and stands in a slot. -/
  | reporter
  deriving DecidableEq, Repr, Inhabited

/-- What a component of a block is: a label, or a slot for some kind of input. -/
inductive SlotKind where
  | label
  | text
  | number
  | boolean
  | varName
  | block
  | statement
  | any
  deriving DecidableEq, Repr, Inhabited

/-- What a block gives. -/
inductive DataType where
  | text
  | number
  | boolean
  | any
  | nil
  deriving DecidableEq, Repr, Inhabited

namespace BlockType

/-- All members, in the order of their numbers. -/
def all : List BlockType := [hat, cap, statement, reporter]

def name : BlockType → String
  | hat => "HAT"
  | cap => "CAP"
  | statement => "STATEMENT"
  | reporter => "REPORTER"

def index : BlockType → Int
  | hat => 1
  | cap => 2
  | statement => 3
  | reporter => 4

/-- The member with a written name. -/
def ofName? (s : String) : Option BlockType :=
  all.find? (·.name = s)

/-- The member with a number. -/
def ofNumber? (n : Int) : Option BlockType :=
  all.find? (·.index = n)

@[simp] theorem ofName?_name (t : BlockType) : ofName? t.name = some t := by
  cases t <;> rfl

@[simp] theorem ofNumber?_index (t : BlockType) : ofNumber? t.index = some t := by
  cases t <;> rfl

end BlockType

namespace SlotKind

def all : List SlotKind := [label, text, number, boolean, varName, block, statement, any]

def name : SlotKind → String
  | label => "LABEL"
  | text => "TEXT_INPUT"
  | number => "NUMBER_INPUT"
  | boolean => "BOOLEAN_INPUT"
  | varName => "VARIABLE_INPUT"
  | block => "BLOCK_INPUT"
  | statement => "STATEMENT_INPUT"
  | any => "INPUT"

def index : SlotKind → Int
  | label => 1
  | text => 2
  | number => 3
  | boolean => 4
  | varName => 5
  | block => 6
  | statement => 7
  | any => 8

def ofName? (s : String) : Option SlotKind :=
  all.find? (·.name = s)

def ofNumber? (n : Int) : Option SlotKind :=
  all.find? (·.index = n)

@[simp] theorem ofName?_name (k : SlotKind) : ofName? k.name = some k := by
  cases k <;> rfl

@[simp] theorem ofNumber?_index (k : SlotKind) : ofNumber? k.index = some k := by
  cases k <;> rfl

/-- Whether a block that gives `t` may be put into the slot. A block that gives some value fits
every component but bodies, blocks and variables. -/
def fits (k : SlotKind) (t : DataType) : Bool :=
  match t with
  | .any => !(k == statement || k == block || k == varName)
  | t =>
    match k with
    | number => t == .number
    | text => t == .text
    | boolean => t == .boolean
    | any => true
    | _ => false

end SlotKind

namespace DataType

def all : List DataType := [text, number, boolean, any, nil]

def name : DataType → String
  | text => "TEXT"
  | number => "NUMBER"
  | boolean => "BOOLEAN"
  | any => "ANY"
  | nil => "NIL"

def index : DataType → Int
  | text => 1
  | number => 2
  | boolean => 3
  | any => 4
  | nil => 5

def ofName? (s : String) : Option DataType :=
  all.find? (·.name = s)

def ofNumber? (n : Int) : Option DataType :=
  all.find? (·.index = n)

@[simp] theorem ofName?_name (t : DataType) : ofName? t.name = some t := by
  cases t <;> rfl

@[simp] theorem ofNumber?_index (t : DataType) : ofNumber? t.index = some t := by
  cases t <;> rfl

end DataType

end BlockStudio
