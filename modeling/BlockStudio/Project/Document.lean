import BlockStudio.Json.Reader
import BlockStudio.Json.Writer
import BlockStudio.Project.Saved

/-!
# Project files

A project is saved as the text of an object with the stacks and the declared variables.
-/

namespace BlockStudio

def projectText (store : Store) (workspace : List StackId) (globals : List Value) :
    Except Fault String := do
  let saved ← workspace.mapM store.savedStack
  let names ← globals.mapM
    (Store.savedWith (fun id => store.savedBlock id) (fun id => store.savedStack id))
  return (Json.object [("stacks", .array saved), ("globals", .array names)]).write

/-- The object that the text of a project holds. -/
def projectJson (text : String) : Except Fault Json :=
  match Json.parse text with
  | .ok json => .ok json
  | .error e => .error (.badJson (e.message text))

namespace Json

/-- The value of a name in a project file; lists and objects name nothing. -/
def nameValue : Json → Except Fault Value
  | array _ => .error (.unhashable "list")
  | object _ => .error (.unhashable "dict")
  | v => .ok v.plainValue

end Json

end BlockStudio
