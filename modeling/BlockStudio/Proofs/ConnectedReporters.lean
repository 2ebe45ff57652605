import BlockStudio.Proofs.Nesting
import BlockStudio.Proofs.Reachable

/-!
# Connected reporters fit their slots

A block gets into a slot when it is dropped there, when the block around it is copied, and when a
project is opened.  The slot was compared with the dragged block in the update before the drop, and
the drop trusts that comparison.  It may, because nothing comes between the two that could change
either of them.  So in every state of the editor the block in a slot is a reporter, and what it gives is
something that the slot takes; and every block has one value for each slot of its definition.
-/

namespace BlockStudio

open Forest

/-! ## Stores that a run can build -/

namespace Store

variable {s : Store} {tops : List StackId} {b : BlockId}

/-- A block has a value for each slot, and the blocks among them are reporters that fit. -/
structure WellFilled (s : Store) (b : BlockId) : Prop where
  /-- One value for each slot. -/
  length_values : (s.block b).values.length = (s.definitionOf b).countInputs
  /-- A block in a slot is a reporter, and the slot takes what it gives. -/
  reporter {i : Nat} {c : BlockId} : s.slot? b i = some (.block c) →
    (s.definitionOf c).blockType = .reporter ∧ ∃ slot, (s.definitionOf b).input? i = some slot ∧
        slot.kind.fits (s.definitionOf c).outputType = true

theorem Sound.wellFilled (hs : s.Sound) (h : Reached s tops (.block b)) : s.WellFilled b where
  length_values := hs.length_values b (h.block_lt hs)
  reporter {i c} hc := by
    obtain ⟨slot, hsl, -, hr, hf⟩ := hs.fits_slot? hc
    exact ⟨hr, slot, (Run.input?_natCast _ i).trans hsl, hf⟩

end Store

/-! ## States that a run can reach -/

variable {phase : Phase} {e : Editor}

/-- In every run, whatever events it takes and whichever saved projects it opens, every block of the
workspace and of the dragged stack, at any depth, has one value for each of its slots, and where that
value is a block, it is a reporter that gives what the slot takes. -/
theorem connected_reporters_fit
    (h : Reachable (Written fun _ _ => True) (fun _ _ => True) phase e) {b : BlockId}
    (hb : Reached e.store (e.workspace ++ e.cursor.toList) (.block b)) : e.store.WellFilled b := by
  have hs : e.forest.store.Sound := (h.steady fun _ => Written.saves).1.forest.store
  have hfilled := hs.wellFilled hb.bare
  have hvalues : (e.forest.store.block b).values = (e.store.block b).values := by
    simp [Editor.forest]
  constructor
  · rw [← hvalues, ← definitionOf_forest]
    exact hfilled.length_values
  · intro i c hc
    rw [← definitionOf_forest, ← definitionOf_forest]
    exact hfilled.reporter ((slot?_forest e b i).trans hc)

/-- Drag a wait to the workspace, a sum into its slot and a difference into the first slot of the
sum. -/
def nestsReporters : List (Devices × Event) :=
  [(⟨⟨80, 130⟩, []⟩, .down 1), (⟨⟨600, 400⟩, []⟩, .up 1), (⟨⟨30, 252⟩, []⟩, .down 1),
    (⟨⟨80, 60⟩, []⟩, .down 1), (⟨⟨700, 420⟩, []⟩, .motion ⟨0, 0⟩), (⟨⟨700, 420⟩, []⟩, .up 1),
    (⟨⟨80, 115⟩, []⟩, .down 1), (⟨⟨710, 420⟩, []⟩, .motion ⟨0, 0⟩), (⟨⟨710, 420⟩, []⟩, .up 1)]

/-- The difference in the sum in the wait. -/
def Editor.nested (e : Editor) : Bool :=
  match e.workspace, e.store.slot? ⟨0⟩ 0, e.store.slot? ⟨2⟩ 0 with
  | [t], some (.block b), some (.block c) =>
    e.store.blocksOf t == [⟨0⟩] && b == ⟨2⟩ && (e.store.definitionOf c).id == "-"
  | _, _, _ => false

theorem connected_reporters_fit_nested :
    ∃ e, Reachable (Written fun _ _ => True) (fun _ _ => True) .waiting e ∧
      ∃ c, Reached e.store (e.workspace ++ e.cursor.toList) (.block ⟨2⟩) ∧
        e.store.slot? ⟨2⟩ 0 = some (.block c) ∧ (e.store.definitionOf c).id = "-" ∧
        e.store.WellFilled ⟨2⟩ := by
  have hcheck : ∀ (e : Editor) ev, (e.opens ev).isNone = true → True ∧ e.opens ev = none :=
    fun e ev hpass => ⟨trivial, Option.isNone_iff_eq_none.1 hpass⟩
  obtain ⟨e, he, hend⟩ := exists_reachable_of_play hcheck nestsReporters Editor.nested
    (by decide +kernel)
  unfold Editor.nested at hend
  split at hend
  case h_2 => cases hend
  case h_1 t b c hworkspace hb hc =>
    simp only [Bool.and_eq_true, beq_iff_eq] at hend
    obtain ⟨⟨hrow, rfl⟩, hid⟩ := hend
    have htop : Reached e.store (e.workspace ++ e.cursor.toList) (.stack t) :=
      .top (by simp [hworkspace])
    have hreached : Reached e.store (e.workspace ++ e.cursor.toList) (.block ⟨2⟩) :=
      .slot (.row htop (by simp [hrow])) hb
    exact ⟨e, he, c, hreached, hc, hid, connected_reporters_fit he hreached⟩

end BlockStudio
