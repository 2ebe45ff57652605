import BlockStudio.Language.Store

/-!
# Stores without places

Drawing remembers in the store where blocks and slots are, and dragging moves stacks about.  None of
this says how blocks are put together: that is what is left of a store when all places are dropped.
Every change of a store is a change of the bare store, and reading what stands in a slot or in a row
gives the same from both.
-/

namespace BlockStudio

open Array

/-- A block without the places where it was drawn. -/
def Block.bare (b : Block) : Block := { b with rect := default, slots := [] }

/-- A stack without its place. -/
def Stack.bare (t : Stack) : Stack := { t with position := none }

namespace Store

/-- A store without places. -/
def bare (s : Store) : Store :=
  { s with blocks := s.blocks.map Block.bare, allStacks := s.allStacks.map Stack.bare }

/-- A store without the places where blocks were drawn; stacks keep theirs. -/
def undrawn (s : Store) : Store := { s with blocks := s.blocks.map Block.bare }

variable (s : Store)

/-! ## Reading -/

theorem block_bare (id : BlockId) : s.bare.block id = (s.block id).bare := by
  simp only [block, bare, getD_eq_getD_getElem?, getElem?_map]
  cases s.blocks[id.index]? <;> rfl

theorem stack_bare (id : StackId) : s.bare.stack id = (s.stack id).bare := by
  simp only [stack, bare, getD_eq_getD_getElem?, getElem?_map]
  cases s.allStacks[id.index]? <;> rfl

theorem position_bare (s : Store) (id : StackId) : (s.bare.stack id).position = none := by
  rw [stack_bare]
  rfl

@[simp] theorem values_bare (id : BlockId) : (s.bare.block id).values = (s.block id).values := by
  rw [block_bare]
  rfl

@[simp] theorem definition_bare (id : BlockId) :
    (s.bare.block id).definition = (s.block id).definition := by
  rw [block_bare]
  rfl

@[simp] theorem row_bare (r : RowId) : s.bare.row r = s.row r := rfl

@[simp] theorem stack_row_bare (id : StackId) : (s.bare.stack id).row = (s.stack id).row := by
  rw [stack_bare]
  rfl

@[simp] theorem blocksOf_bare (id : StackId) : s.bare.blocksOf id = s.blocksOf id := by
  simp [blocksOf]

@[simp] theorem definitionOf_bare (id : BlockId) : s.bare.definitionOf id = s.definitionOf id := by
  simp [definitionOf]

@[simp] theorem size_blocks_bare : s.bare.blocks.size = s.blocks.size := by simp [bare]

@[simp] theorem size_allStacks_bare : s.bare.allStacks.size = s.allStacks.size := by simp [bare]

@[simp] theorem rows_bare : s.bare.rows = s.rows := rfl

@[simp] theorem depth_bare : s.bare.depth = s.depth := by simp [depth]

@[simp] theorem bare_bare : s.bare.bare = s.bare := by
  simp [bare, Function.comp_def, Block.bare, Stack.bare]

@[simp] theorem bare_undrawn : s.undrawn.bare = s.bare := by
  simp [bare, undrawn, Function.comp_def, Block.bare]

@[simp] theorem undrawn_undrawn : s.undrawn.undrawn = s.undrawn := by
  simp [undrawn, Function.comp_def, Block.bare]

theorem bare_empty : empty.bare = empty := by simp [bare, empty, Stack.bare]

/-! ## Changing -/

/-- Changing nothing but places of a block does not show where these are dropped. -/
theorem undrawn_modifyBlock (id : BlockId) {f : Block → Block} (hf : ∀ b, (f b).bare = b.bare) :
    (s.modifyBlock id f).undrawn = s.undrawn := by
  simp only [undrawn, modifyBlock, mk.injEq, and_true]
  apply ext
  · simp
  · intro i _ _
    simp only [getElem_map, getElem_modify]
    split
    · exact hf _
    · rfl

theorem bare_modifyBlock (id : BlockId) {f : Block → Block} (hf : ∀ b, (f b).bare = b.bare) :
    (s.modifyBlock id f).bare = s.bare := by
  rw [← bare_undrawn, undrawn_modifyBlock s id hf, bare_undrawn]

@[simp] theorem bare_setPosition (id : StackId) (position : Option (List Value)) :
    (s.setPosition id position).bare = s.bare := by
  simp only [bare, setPosition, modifyStack, mk.injEq, and_true, true_and]
  apply ext
  · simp
  · intro i _ _
    simp only [getElem_map, getElem_modify]
    split <;> rfl

@[simp] theorem bare_addBlock (d : Definition) (values : List Value) :
    (s.addBlock d values).2.bare = (s.bare.addBlock d values).2 := by
  simp [bare, addBlock, Block.bare]
  rfl

@[simp] theorem bare_addStack (blocks : List BlockId) (position : Option (List Value)) :
    (s.addStack blocks position).2.bare = (s.bare.addStack blocks none).2 := by
  simp [bare, addStack, Stack.bare]

@[simp] theorem bare_setValue (id : BlockId) (i : Nat) (v : Value) :
    (s.setValue id i v).bare = s.bare.setValue id i v := by
  simp only [bare, setValue, modifyBlock, mk.injEq, and_true]
  apply ext
  · simp
  · intro i _ _
    simp only [getElem_map, getElem_modify]
    split <;> rfl

@[simp] theorem bare_editRow (id : StackId) (f : List BlockId → List BlockId) :
    (s.editRow id f).bare = s.bare.editRow id f := by
  simp only [editRow, stack_row_bare]
  rfl

@[simp] theorem bare_replaceRow (id : StackId) (blocks : List BlockId) :
    (s.replaceRow id blocks).bare = s.bare.replaceRow id blocks := by
  simp only [bare, replaceRow, modifyStack, mk.injEq, and_true, true_and]
  apply ext
  · simp
  · intro i _ _
    simp only [getElem_map, getElem_modify]
    split <;> rfl

/-! ## Copying -/

@[simp] theorem bare_copyStack (id : StackId) : (s.copyStack id).2.bare = (s.bare.copyStack id).2 := by
  simp [copyStack, stack_bare, Stack.bare]

theorem copyStack_bare_fst (id : StackId) : (s.bare.copyStack id).1 = (s.copyStack id).1 := by
  simp [copyStack, addStack]

theorem copyValues_bare {copyBlock : Store → BlockId → BlockId × Store}
    (hc : ∀ s id, (copyBlock s.bare id) = ((copyBlock s id).1, (copyBlock s id).2.bare))
    (values : List Value) :
    copyValues copyBlock s.bare values =
      ((copyValues copyBlock s values).1, (copyValues copyBlock s values).2.bare) := by
  induction values generalizing s with
  | nil => rfl
  | cons v rest ih =>
    cases v with
    | block id => simp only [copyValues, hc, ih]
    | stack id => simp only [copyValues, copyStack_bare_fst, ← bare_copyStack, ih]
    | _ => simp only [copyValues, ih]

theorem copyBlockTo_bare (fuel : Nat) (id : BlockId) :
    copyBlockTo fuel s.bare id = ((copyBlockTo fuel s id).1, (copyBlockTo fuel s id).2.bare) := by
  induction fuel generalizing s id with
  | zero => rfl
  | succ fuel ih =>
    simp only [copyBlockTo, values_bare, definition_bare, copyValues_bare s ih, bare_addBlock]
    simp [addBlock]

theorem copyBlock_bare (id : BlockId) :
    s.bare.copyBlock id = ((s.copyBlock id).1, (s.copyBlock id).2.bare) := by
  rw [copyBlock, depth_bare, copyBlockTo_bare]
  rfl

end Store

end BlockStudio
