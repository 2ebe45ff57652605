import BlockStudio.Project.Saved

/-!
# Scenarios

Fixed uses of the library that benchmarks repeat. The scenario of definitions makes blueprints of
every mixture of kinds and shows each of them.
-/

namespace BlockStudio

/-- A new block of a definition from the catalogue. -/
def Building.make (id : String) (values : List Value) : Building BlockId :=
  match Catalogue.find? Catalogue.blocks id with
  | some d => Building.addBlock d values
  | none => throw (.unknownKey (quoted id))

namespace Scenario

/-- An item of a list that goes round. -/
def cycle {α : Type} [Inhabited α] (items : List α) (i : Nat) : α :=
  items.getD (i % items.length) default

/-- The kinds that the definition with number `i` is made of. -/
structure Mixture where
  blockType : BlockType
  first : SlotKind
  second : SlotKind
  outputType : DataType

def mixture (i : Nat) : Mixture where
  blockType := cycle BlockType.all i
  first := cycle SlotKind.all i
  second := cycle SlotKind.all (i + 3)
  outputType := cycle DataType.all i

/-- The definition with number `i`: a numbered label and two more components. -/
def definition (i : Nat) : Definition :=
  let m := mixture i
  { origin := .catalogue i
    id := Nat.repr i
    blockType := m.blockType
    components := [Component.label ("L" ++ Nat.repr i), Component.make m.first .none (some "c"),
      Component.make m.second .none (some "d")]
    color := .clear
    outputType := m.outputType
    action := .inert }

/-- What is noted of a definition: how it is shown, the names of its kinds, and the number of values
that it is run with, one for each component after the label. -/
def notes (i : Nat) : Except Fault (List Value) := do
  let d := definition i
  let m := mixture i
  let names := m.blockType.name ++ m.first.name ++ m.outputType.name
  return [.text (← d.shown), .text names, .int (d.components.length - 1 : Nat)]

def definitions (count : Nat) : Except Fault (List Value) :=
  (List.range count).foldlM (fun done i => (notes i).map (done ++ ·)) []

end Scenario

end BlockStudio
