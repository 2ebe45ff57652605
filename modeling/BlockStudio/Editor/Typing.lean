import BlockStudio.Editor.View

/-!
# Typing into slots

Keys change the value of the edited slot. An unfilled slot begins with the text of its default. A
slot for numbers takes digits, signs and points only.
-/

namespace BlockStudio

def numberKeys : String := "-.0123456789,"

/-- A value with a typed text at its end; only texts and lists can be lengthened. -/
def Value.lengthen (typed : String) : Value → Except Fault Value
  | .text s => .ok (.text (s ++ typed))
  | .list items => .ok (.list (items ++ typed.toList.map fun c => .text (String.singleton c)))
  | _ => .error .badOperands

/-- The value of a slot of a kind after a key. -/
def Value.typed (store : Store) (kind : SlotKind) (code : Int) (text : String) (v : Value) :
    Except Fault Value :=
  if code = Key.backspace.code then .ok (.text (Dialog.dropLast (store.plain v)))
  else
    match kind with
    | .text | .any => v.lengthen text
    | .number =>
      if occursIn text.toList numberKeys.toList then .ok (.text (store.plain v ++ text)) else .ok v
    | _ => .ok v

namespace Edit

def typeKey (spot : Spot) (code : Int) (text : String) : Edit Unit := do
  let v ← slotValue spot.block spot.slot
  let c ← slotComponent spot.block spot.slot
  let s ← store
  let v : Value := match v with
    | .none => .text (s.plain c.default)
    | v => v
  assign spot.block spot.slot (← ofExcept (v.typed s c.kind code text))
  redraw spot.stackIndex

end Edit

end BlockStudio
