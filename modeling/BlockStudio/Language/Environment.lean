import BlockStudio.Language.Compare
import BlockStudio.Project.Folder

/-!
# The environment of a running program

Variables in the order of their first assignment, the sleep timer, the lines said so far, the last
question asked, and what the user typed. Any value that has a digest can name a variable; a
variable keeps the name under which it was first stored.
-/

namespace BlockStudio

/-- Why a program or a part of it stops early. -/
inductive Exit where
  | fault (f : Fault)
  /-- The innermost loop ends. -/
  | breakLoop
  /-- The innermost loop goes on with its next round. -/
  | continueLoop
  | quit
  /-- The bound on the number of moves is used up. -/
  | outOfFuel
  deriving DecidableEq, Repr

/-- Whether an attempt goes on with its other branch after this exit: everything but the end of
the program, which also comes when a value is asked of a block that gives none. -/
def Exit.isCaught : Exit → Bool
  | fault .exhausted | quit | outOfFuel => false
  | fault _ | breakLoop | continueLoop => true

/-- The exit as seen from outside the running block. -/
def Exit.fromInside : Exit → Exit
  | fault .ended => fault .exhausted
  | e => e

/-- The state that a program reads and changes, files apart. -/
structure Environment where
  /-- The variables with their values, in the order of their first assignment. -/
  globals : List (Value × Value) := []
  /-- The time that a sleeping program still waits, in seconds. -/
  timer : Num := 0
  output : Array String := #[]
  inputLine : Option String := none
  stdin : String := ""
  dice : Nat := 1
  deriving Inhabited

namespace Environment

def get (env : Environment) (store : Store) (name : Value) : Except Fault Value := do
  let _ ← store.digest name
  match env.globals.find? fun g => store.sameKey g.1 name with
  | some (_, v) => return v
  | none => throw (.unknownKey (store.shown name))

/-- Store a value among variables: a variable that is there keeps its place and its name. -/
def putGlobal (store : Store) (name value : Value) : List (Value × Value) → List (Value × Value)
  | [] => [(name, value)]
  | (n, v) :: rest =>
    if store.sameKey n name then (n, value) :: rest
    else (n, v) :: putGlobal store name value rest

def set (env : Environment) (store : Store) (name value : Value) : Except Fault Environment := do
  let _ ← store.digest name
  return { env with globals := putGlobal store name value env.globals }

def say (env : Environment) (line : String) : Environment :=
  { env with output := env.output.push line }

/-- The next random number below `n`, which is positive, by a linear congruence. -/
def roll (env : Environment) (n : Nat) : Nat × Environment :=
  let dice := (env.dice * 6364136223846793005 + 1442695040888963407) % twoTo 64
  (dice / twoTo 11 % n, { env with dice })

end Environment

structure Scene where
  env : Environment := {}
  folder : Folder := .empty
  deriving Inhabited

/-- Steps of a running program: they change the scene and can stop early. -/
abbrev Act := EStateM Exit Scene

namespace Act

def ofExcept {α : Type} : Except Fault α → Act α
  | .ok a => pure a
  | .error e => throw (.fault e)

def fail {α : Type} (f : Fault) : Act α :=
  throw (.fault f)

end Act

end BlockStudio
