import BlockStudio.Json.Shown
import BlockStudio.Project.Saved

/-!
# Saved definitions

Writing names the members of the three vocabularies, reading finds them by number. A component is
read with its `text` as the value of the unfilled slot and without a text of its own, and the kind
of data is read into the place of the colour.
-/

namespace BlockStudio

def Component.saved (c : Component) : Json :=
  .object [("type", .text c.kind.name), ("text", (c.text.map Json.text).getD .null)]

def Definition.saved (d : Definition) : Json :=
  .object [("id", .text d.id), ("blockType", .text d.blockType.name),
    ("components", .array (d.components.map Component.saved)),
    ("outputType", .text d.outputType.name)]

namespace Json

/-- The whole number that a value equals, truth values counting as one and zero. -/
def wholeNumber? : Json → Option Int
  | int n => some n
  | bool b => some (if b then 1 else 0)
  | float x => (Binary.ofFloat? x).bind fun b => if b.isWhole then some b.trunc else none
  | _ => none

end Json

namespace Saved

/-- Find the member of a vocabulary by number. -/
def member {α : Type} (ofNumber? : Int → Option α) (vocabulary : String) (json : Json) :
    Except Fault α :=
  match json.wholeNumber?.bind ofNumber? with
  | some a => .ok a
  | none => .error (.notMember json.shown vocabulary)

def component (json : Json) : Except Fault Component := do
  let kind ← member SlotKind.ofNumber? "CompT" (← json.item "type")
  let default ← json.item "text"
  return Component.make kind default.plainValue none

/-- Read a saved definition and give it an identity. -/
def definition (origin : Origin) (json : Json) : Except Fault Definition := do
  let id ← json.item "id"
  let blockType ← member BlockType.ofNumber? "BlockType" (← json.item "blockType")
  let components ← (← (← json.item "components").walk).mapM component
  let kind ← member DataType.ofNumber? "DataType" (← json.item "outputType")
  let name := match id with
    | .text s => s
    | other => other.shown
  return {
    origin, id := name, blockType, components, color := .kind kind, outputType := .nil
    action := .inert }

end Saved

end BlockStudio
