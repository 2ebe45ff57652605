import BlockStudio.Fault
import BlockStudio.Text.Search

/-!
# The working folder

The files that programs and the editor see: texts, compressed texts and directories by name.
Reading a text turns line ends of every style into plain ones; writing keeps a text as it is.
-/

namespace BlockStudio

/-- What a name in the folder stands for. -/
inductive Entry where
  | text (s : String)
  /-- A file with a compressed text. -/
  | packed (s : String)
  | directory
  deriving DecidableEq, Repr, Inhabited

structure Folder where
  /-- The entries in the order of their making. -/
  entries : List (String × Entry)
  deriving Inhabited

namespace Folder

def empty : Folder := ⟨[]⟩

def find? (f : Folder) (path : String) : Option Entry :=
  f.entries.lookup path

def put (f : Folder) (path : String) (entry : Entry) : Folder :=
  if (f.find? path).isSome then
    ⟨f.entries.map fun e => if e.1 = path then (path, entry) else e⟩
  else ⟨f.entries ++ [(path, entry)]⟩

/-- The directory part of a path, if it has one. -/
def parent? (path : String) : Option String :=
  let back := path.toList.reverse
  if back.contains '/' then some (String.ofList ((back.dropWhile (· ≠ '/')).drop 1).reverse)
  else none

def open? (f : Folder) (path : String) : Except Fault Entry :=
  if path.toList.contains '\x00' then .error .nullPath
  else
    match f.find? path with
    | some .directory => .error (.isDirectory path)
    | some entry => .ok entry
    | none => .error (.missingFile path)

/-- The text of the file at a path, with plain line ends. -/
def readText (f : Folder) (path : String) : Except Fault String := do
  match ← f.open? path with
  | .text s => return String.ofList (plainLineEnds s.toList)
  | .packed _ => throw .undecodable
  | .directory => throw (.isDirectory path)

/-- The text of the compressed file at a path. -/
def readPacked (f : Folder) (path : String) : Except Fault String := do
  match ← f.open? path with
  | .packed s => return s
  | .text s => if s.isEmpty then return "" else throw .notCompressed
  | .directory => throw (.isDirectory path)

/-- Write the file at a path, whose directory has to exist. -/
def write (f : Folder) (path : String) (entry : Entry) : Except Fault Folder :=
  if path.toList.contains '\x00' then .error .nullPath
  else if path.isEmpty then .error (.missingFile path)
  else
    match f.find? path, parent? path with
    | some .directory, _ => .error (.isDirectory path)
    | some _, _ => .ok (f.put path entry)
    | none, none => .ok (f.put path entry)
    | none, some dir =>
      if f.find? dir = some .directory then .ok (f.put path entry)
      else .error (.missingFile path)

end Folder

end BlockStudio
