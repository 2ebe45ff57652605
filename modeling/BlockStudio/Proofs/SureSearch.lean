import BlockStudio.Proofs.Calm
import BlockStudio.Proofs.Searching

/-!
# The search for a place to join does not fail

While a stack is dragged, the search looks at the first and the last block of the dragged stack, at its
surface, at the places of the stacks on its way and at the rectangles of the slots of their blocks.  In
a calm editor whose blocks were all drawn, and whose dragged stack was measured, all of this is there.
-/

namespace BlockStudio

open Forest

variable {e e' : Editor}

/-- The search changes the store and the candidate only, and what is in order stays so. -/
def Roams (e e' : Editor) : Prop := Abides e e' ∧ e'.apart = e.apart

instance : IsPreorder Editor Roams where
  refl e := ⟨refl e, rfl⟩
  trans _ _ _ h h' := ⟨trans_of Abides h.1 h'.1, h'.2.trans h.2⟩

theorem roams_withStore {s : Store} (h : e.store.Lasts s) : Roams e (e.withStore s) :=
  ⟨⟨h, rfl, fun _ => .inl⟩, rfl⟩

theorem roams_search : KeptBySearch Roams where
  propose _ _ := ⟨.of_parts rfl rfl rfl, rfl⟩
  tell _ t p := roams_withStore (Store.lasts_setPosition _ t p)
  openBody e b i p _ _ _ _ _ _ := roams_withStore (Store.lasts_withBody e.store b i p)

/-- No project is opened. -/
abbrev NoFile : Forest → Prop := fun _ => False

/-- A stack that is reached has a place. -/
theorem Editor.Calm.located_of_reached (h : e.Calm) {t : StackId}
    (ht : e.forest.Reaches (.stack t)) : e.store.Located t :=
  BlockStudio.located_of_reached h.sound h.housed h.located ht

/-- A dragged stack has a block. -/
theorem Editor.Calm.exists_row (h : e.Calm) (hc : ∃ u, e.cursor = some u) :
    ∃ u b bs, e.cursor = some u ∧ e.store.blocksOf u = b :: bs := by
  obtain ⟨u, hu⟩ := hc
  have hr := h.filled u (mem_roots.2 (.inr hu))
  rw [blocksOf_forest] at hr
  obtain ⟨b, bs, hbs⟩ := List.exists_cons_of_ne_nil hr
  exact ⟨u, b, bs, hu, hbs⟩

/-- A block that is reached has a value and a component for each slot that was drawn. -/
theorem Editor.Calm.exists_slot (h : e.Calm) (hd : e.Drawn) {b : BlockId}
    (hb : e.forest.Reaches (.block b)) {i : Nat} (hi : i < (e.store.block b).slotRects.length) :
    ∃ v c, e.store.slot? b i = some v ∧ (e.store.definitionOf b).inputs[i]? = some c := by
  rw [Block.slotRects, List.length_map, hd b hb] at hi
  have hl := length_values_of_reached h.sound hb
  exact ⟨_, _, List.getElem?_eq_getElem (hl ▸ hi), List.getElem?_eq_getElem hi⟩

/-- The search does not fail. -/
theorem sure_findCandidate (hc : e.Calm) (hd : e.Drawn)
    (hm : ∀ u, e.cursor = some u → ∃ size, e.cursorSize = some size) :
    Sure Edit.findCandidate e := by
  have hf : Seeks NoFile _ _ ∧ (True → Sure Edit.findCandidate e) :=
    quest_findCandidate hc.steady fun _ u hu =>
      ⟨hc.housed, hc.located, hc.eased, hd, hc.exists_row ⟨u, hu⟩, hm u hu⟩
  exact hf.2 trivial

end BlockStudio
