import BlockStudio.Project.SavedDefinition

/-!
# Definitions that were saved

No definition can be read back: its vocabularies were written by name, and reading finds the members by
number.  Written by number a definition is read, but its texts become defaults of slots, and the kind of data
that it gives becomes its colour.
-/

namespace BlockStudio

/-! ## The form that is understood -/

def Component.numbered (c : Component) : Json :=
  .object [("type", .int c.kind.index), ("text", (c.text.map Json.text).getD .null)]

/-- What saving writes, with numbers in place of the names. -/
def Definition.numbered (d : Definition) : Json :=
  .object [("id", .text d.id), ("blockType", .int d.blockType.index),
    ("components", .array (d.components.map Component.numbered)), ("outputType", .int d.outputType.index)]

/-- A component as it is read: the text stands in for the default. -/
def Component.reread (c : Component) : Component :=
  .make c.kind ((c.text.map Value.text).getD .none) none

namespace Saved

theorem component_numbered (c : Component) : component c.numbered = .ok c.reread := by
  obtain ⟨kind, default, text⟩ := c
  cases kind <;> cases text <;> rfl

theorem definition_numbered (origin : Origin) (d : Definition) : definition origin d.numbered =
    .ok ⟨origin, d.id, d.blockType, d.components.map .reread, .kind d.outputType, .nil, .inert⟩ := by
  have hc : (d.components.map Component.numbered).mapM component = .ok (d.components.map .reread) := by
    induction d.components with
    | nil => rfl
    | cons c cs ih => rw [List.map_cons, List.mapM_cons, component_numbered, ih]; rfl
  have ht : member BlockType.ofNumber? "BlockType" (.int d.blockType.index) = .ok d.blockType := by
    cases d.blockType <;> rfl
  have hk : member DataType.ofNumber? "DataType" (.int d.outputType.index) = .ok d.outputType := by
    cases d.outputType <;> rfl
  show (member BlockType.ofNumber? "BlockType" (.int d.blockType.index) >>= fun blockType =>
    (d.components.map Component.numbered).mapM component >>= fun components =>
    member DataType.ofNumber? "DataType" (.int d.outputType.index) >>= fun kind => _) = _
  rw [ht, hc, hk]
  rfl

/-- A definition as it was saved cannot be read, nor can any of its components.  With numbers for names it can,
and then it has its name, its type and the kinds of its slots, but no texts, and it gives nothing. -/
theorem definition_saved (origin : Origin) (d : Definition) (c : Component) :
    definition origin d.saved = .error (.notMember (quoted d.blockType.name) "BlockType") ∧
    component c.saved = .error (.notMember (quoted c.kind.name) "CompT") ∧
    ∃ e, definition origin d.numbered = .ok e ∧ e.id = d.id ∧ e.blockType = d.blockType ∧
      e.components.map Component.kind = d.components.map Component.kind ∧ e.countInputs = d.countInputs ∧
      e.components.map Component.text = d.components.map (fun _ => none) ∧ e.outputType = .nil := by
  refine ⟨rfl, rfl, _, definition_numbered origin d, rfl, rfl, ?_, ?_, ?_, rfl⟩
  · rw [List.map_map]
    rfl
  · rw [Definition.countInputs, Definition.inputs, List.filter_map, List.length_map]
    rfl
  · rw [List.map_map]
    rfl

/-- Even the smallest definition fails. -/
theorem definition_saved_empty : definition (.catalogue 0)
    (Definition.saved ⟨.catalogue 0, "x", .statement, [], .clear, .nil, .inert⟩) =
      .error (.notMember (quoted "STATEMENT") "BlockType") :=
  rfl

end Saved

end BlockStudio
