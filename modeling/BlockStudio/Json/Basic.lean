/-!
# JSON values

Numbers keep the kind they are written with: without point and exponent an integer of any size,
otherwise a double. The fields of an object keep their order, and each name occurs once.
-/

namespace BlockStudio

inductive Json where
  | null
  | bool (b : Bool)
  | int (n : Int)
  | float (x : Float)
  | text (s : String)
  | array (items : List Json)
  | object (fields : List (String × Json))
  deriving Inhabited

namespace Json

/-- The field of an object with a given name; other values have none. -/
def field? (name : String) : Json → Option Json
  | object fields => fields.lookup name
  | _ => none

/-- The items of a list; other values have none. -/
def items : Json → List Json
  | array xs => xs
  | _ => []

/-- The fields of an object; other values have none. -/
def fields : Json → List (String × Json)
  | object fs => fs
  | _ => []

/-- Put a field into an object's fields: a name that is there keeps its place and takes the new
value. -/
def putField (name : String) (value : Json) : List (String × Json) → List (String × Json)
  | [] => [(name, value)]
  | (n, v) :: rest =>
    if n = name then (n, value) :: rest else (n, v) :: putField name value rest

@[simp] theorem putField_nil (name : String) (value : Json) :
    putField name value [] = [(name, value)] := rfl

end Json

end BlockStudio
