import BlockStudio.Language.Store
import Mathlib.Data.Nat.Basic
import Mathlib.Order.Basic

/-!
# Sound stores

What every store of the editor has in common, however blocks were moved about: blocks are of the
catalogue and have a value for each of their slots, a slot holds what its kind admits, no two stacks
show the same row, and blocks in slots are nested to a finite depth.  A change of the store is said
by what a slot holds and what a stack shows after it; soundness then follows slot by slot.
-/

namespace BlockStudio

open Array

variable {b c : BlockId} {i n : Nat} {t u : StackId} {r : RowId} {v w : Value} {d : Definition}
  {vs : List Value} {bs : List BlockId}

theorem BlockId.eq_mk (h : b.index = n) : b = ⟨n⟩ := by
  cases b
  cases h
  rfl

theorem StackId.eq_mk (h : t.index = n) : t = ⟨n⟩ := by
  cases t
  cases h
  rfl

/-- A value that can be typed or chosen: no number, no list, no block and no stack. -/
def Value.Literal : Value → Prop
  | .none | .bool _ | .text _ => True
  | _ => False

/-- A block of the catalogue that was not drawn yet. -/
def Block.named (id : String) (values : List Value) : Block where
  definition := (Catalogue.find? Catalogue.blocks id).getD default
  values := values

namespace Store

variable {s s' : Store}

/-- What the slot of a block with a number holds. -/
def slot? (s : Store) (b : BlockId) (i : Nat) : Option Value := (s.block b).values[i]?

/-- A slot for the name of a variable. -/
def IsName (s : Store) (b : BlockId) (i : Nat) : Prop :=
  ∃ c, (s.definitionOf b).inputs[i]? = some c ∧ c.kind = .varName

/-! ## What blocks and stacks are after a change -/

section Reading

theorem getD_push_of_lt {α : Type} (xs : Array α) (x d : α) (h : i < xs.size) :
    (xs.push x).getD i d = xs.getD i d := by
  simp only [getD_eq_getD_getElem?, getElem?_push]
  rw [if_neg (Nat.ne_of_lt h)]

variable (s)

theorem block_of_size_le (h : s.blocks.size ≤ b.index) : s.block b = default := by
  simp [block, getD_eq_getD_getElem?, getElem?_eq_none h]

theorem block_addBlock_self (d : Definition) (vs : List Value) :
    (s.addBlock d vs).2.block ⟨s.blocks.size⟩ = { definition := d, values := vs } := by
  simp [block, addBlock, getD_eq_getD_getElem?]

theorem block_addBlock_of_lt (d : Definition) (vs : List Value) (h : b.index < s.blocks.size) :
    (s.addBlock d vs).2.block b = s.block b :=
  getD_push_of_lt _ _ _ h

@[simp] theorem size_blocks_addBlock (d : Definition) (vs : List Value) :
    (s.addBlock d vs).2.blocks.size = s.blocks.size + 1 := by
  simp [addBlock]

section

variable (bs : List BlockId) (p : Option (List Value))

@[simp] theorem block_addStack (b : BlockId) : (s.addStack bs p).2.block b = s.block b := rfl

@[simp] theorem size_blocks_addStack : (s.addStack bs p).2.blocks.size = s.blocks.size := rfl

@[simp] theorem size_allStacks_addStack :
    (s.addStack bs p).2.allStacks.size = s.allStacks.size + 1 := by
  simp [addStack]

@[simp] theorem size_rows_addStack : (s.addStack bs p).2.rows.size = s.rows.size + 1 := by
  simp [addStack]

theorem stack_addStack_self :
    (s.addStack bs p).2.stack ⟨s.allStacks.size⟩ = ⟨⟨s.rows.size⟩, p⟩ := by
  simp [stack, addStack, getD_eq_getD_getElem?]

theorem stack_addStack_of_lt
    (h : t.index < s.allStacks.size) : (s.addStack bs p).2.stack t = s.stack t :=
  getD_push_of_lt _ _ _ h

theorem row_addStack_self : (s.addStack bs p).2.row ⟨s.rows.size⟩ = bs := by
  simp [row, addStack, getD_eq_getD_getElem?]

theorem row_addStack_of_lt (h : r.index < s.rows.size) : (s.addStack bs p).2.row r = s.row r :=
  getD_push_of_lt _ _ _ h

theorem blocksOf_addStack_self : (s.addStack bs p).2.blocksOf ⟨s.allStacks.size⟩ = bs := by
  rw [blocksOf, stack_addStack_self, row_addStack_self]

end

theorem block_modifyBlock_self (hb : b.index < s.blocks.size) (f : Block → Block) :
    (s.modifyBlock b f).block b = f (s.block b) := by
  simp only [modifyBlock, block, getD_eq_getD_getElem?, getElem?_modify, if_true,
    getElem?_eq_getElem hb]
  rfl

theorem block_modifyBlock_of_ne (f : Block → Block) (h : c ≠ b) :
    (s.modifyBlock b f).block c = s.block c := by
  have hne : b.index ≠ c.index := fun hi => h (BlockId.eq_mk hi.symm)
  simp [block, modifyBlock, getD_eq_getD_getElem?, getElem?_modify, hne]

theorem block_setValue_of_ne (i : Nat) (v : Value) (h : c ≠ b) :
    (s.setValue b i v).block c = s.block c :=
  block_modifyBlock_of_ne s _ h

theorem values_setValue_of_ne (i : Nat) (v : Value) (h : c ≠ b) :
    ((s.setValue b i v).block c).values = (s.block c).values := by
  rw [s.block_setValue_of_ne i v h]

section

variable (b : BlockId) (i : Nat) (v : Value)

theorem block_setValue_self :
    (s.setValue b i v).block b = { s.block b with values := (s.block b).values.set i v } := by
  simp only [block, setValue, modifyBlock, getD_eq_getD_getElem?, getElem?_modify, if_true]
  cases s.blocks[b.index]? <;> rfl

@[simp] theorem definition_setValue (c : BlockId) :
    ((s.setValue b i v).block c).definition = (s.block c).definition := by
  by_cases h : c = b
  · rw [h, block_setValue_self]
  · rw [s.block_setValue_of_ne i v h]

@[simp] theorem definitionOf_setValue (c : BlockId) :
    (s.setValue b i v).definitionOf c = s.definitionOf c :=
  s.definition_setValue b i v c

theorem values_setValue_self :
    ((s.setValue b i v).block b).values = (s.block b).values.set i v := by
  rw [block_setValue_self]

@[simp] theorem size_blocks_setValue : (s.setValue b i v).blocks.size = s.blocks.size := by
  simp [setValue, modifyBlock]

@[simp] theorem blocksOf_setValue (t : StackId) :
    (s.setValue b i v).blocksOf t = s.blocksOf t := rfl

end

@[simp] theorem stack_editRow (t : StackId) (f : List BlockId → List BlockId) (u : StackId) :
    (s.editRow t f).stack u = s.stack u := rfl

theorem row_editRow (t : StackId) (f : List BlockId → List BlockId) (r : RowId) :
    (s.editRow t f).row r =
      if r = (s.stack t).row ∧ r.index < s.rows.size then f (s.row r) else s.row r := by
  obtain ⟨k⟩ := r
  obtain ⟨k', hk'⟩ : ∃ k', (s.stack t).row = ⟨k'⟩ := ⟨(s.stack t).row.index, rfl⟩
  simp only [row, editRow, hk', getD_eq_getD_getElem?, getElem?_modify, RowId.mk.injEq]
  by_cases hlt : k < s.rows.size
  · by_cases he : k' = k
    · simp [he, hlt]
    · simp [he, Ne.symm he]
  · by_cases he : k' = k <;> simp [he, hlt]

/-- A row is edited by what the edit makes of this row only. -/
theorem editRow_congr {f g : List BlockId → List BlockId} (h : f (s.blocksOf t) = g (s.blocksOf t)) :
    s.editRow t f = s.editRow t g := by
  have hr : s.rows.modify (s.stack t).row.index f = s.rows.modify (s.stack t).row.index g := by
    apply ext
    · simp
    · intro j hj hj'
      rw [getElem_modify, getElem_modify]
      split
      case isTrue hro =>
        have hlt : j < s.rows.size := by simpa using hj
        have hg : s.blocksOf t = s.rows[j] := by
          simp [blocksOf, row, getD_eq_getD_getElem?, hro, hlt]
        rw [← hg, h]
      case isFalse => rfl
  unfold editRow
  rw [hr]

theorem row_replaceRow_self (t : StackId) (bs : List BlockId) :
    (s.replaceRow t bs).row ⟨s.rows.size⟩ = bs := by
  simp [row, replaceRow, modifyStack, getD_eq_getD_getElem?]

theorem row_replaceRow_of_lt (t : StackId) (bs : List BlockId) (h : r.index < s.rows.size) :
    (s.replaceRow t bs).row r = s.row r :=
  getD_push_of_lt _ _ _ h

theorem stack_replaceRow_self (bs : List BlockId) (h : t.index < s.allStacks.size) :
    ((s.replaceRow t bs).stack t).row = ⟨s.rows.size⟩ := by
  simp only [stack, replaceRow, modifyStack, getD_eq_getD_getElem?, getElem?_modify]
  rw [if_pos trivial, getElem?_eq_getElem h]
  rfl

theorem stack_replaceRow_of_ne (bs : List BlockId) (h : u ≠ t) :
    (s.replaceRow t bs).stack u = s.stack u := by
  have hne : t.index ≠ u.index := fun hi => h (StackId.eq_mk hi.symm)
  simp [stack, replaceRow, modifyStack, getD_eq_getD_getElem?, getElem?_modify, hne]

@[simp] theorem size_allStacks_replaceRow (t : StackId) (bs : List BlockId) :
    (s.replaceRow t bs).allStacks.size = s.allStacks.size := by
  simp [replaceRow, modifyStack]

@[simp] theorem size_rows_replaceRow (t : StackId) (bs : List BlockId) :
    (s.replaceRow t bs).rows.size = s.rows.size + 1 := by
  simp [replaceRow, modifyStack]

end Reading

theorem lt_of_slot? (h : s.slot? b i = some v) : b.index < s.blocks.size := by
  by_contra hlt
  rw [slot?, block_of_size_le s (Nat.le_of_not_lt hlt)] at h
  cases h

/-- What has slots is in the store. -/
theorem lt_of_inputs {c : Component} (h : (s.definitionOf b).inputs[i]? = some c) :
    b.index < s.blocks.size := by
  by_contra hlt
  rw [definitionOf, s.block_of_size_le (Nat.le_of_not_lt hlt)] at h
  cases h

theorem slot?_setValue_of_ne {j : Nat} (v : Value) (h : ¬(c = b ∧ j = i)) :
    (s.setValue b i v).slot? c j = s.slot? c j := by
  unfold slot?
  by_cases hc : c = b
  · have hj : i ≠ j := fun hj => h ⟨hc, hj.symm⟩
    rw [hc, values_setValue_self, List.getElem?_set_ne hj]
  · rw [values_setValue_of_ne s i v hc]

/-- What a slot holds after one slot was filled. -/
theorem slot?_setValue {j : Nat} (h : (s.setValue b i v).slot? c j = some w) :
    (c = b ∧ j = i ∧ w = v) ∨ (¬(c = b ∧ j = i) ∧ s.slot? c j = some w) := by
  by_cases hcj : c = b ∧ j = i
  · obtain ⟨rfl, rfl⟩ := hcj
    rw [slot?, values_setValue_self] at h
    have hlt : j < (s.block c).values.length := by
      by_contra hlt
      rw [List.getElem?_eq_none (by simpa using hlt)] at h
      cases h
    rw [List.getElem?_set_self hlt] at h
    exact .inl ⟨rfl, rfl, (Option.some.inj h).symm⟩
  · rw [slot?_setValue_of_ne v hcj] at h
    exact .inr ⟨hcj, h⟩

theorem slot?_setValue_self (h : s.slot? b i = some w) : (s.setValue b i v).slot? b i = some v := by
  have hi := (List.getElem?_eq_some_iff.1 h).1
  rw [slot?, values_setValue_self, List.getElem?_set_self hi]

theorem slot?_addBlock (h : (s.addBlock d vs).2.slot? b i = some v) :
    (b = ⟨s.blocks.size⟩ ∧ vs[i]? = some v) ∨ s.slot? b i = some v := by
  have hlt := lt_of_slot? h
  rw [size_blocks_addBlock] at hlt
  unfold slot? at h
  by_cases hb : b.index = s.blocks.size
  · obtain rfl := BlockId.eq_mk hb
    rw [block_addBlock_self] at h
    exact .inl ⟨rfl, h⟩
  · rw [block_addBlock_of_lt s d vs (by omega)] at h
    exact .inr h

/-! ## Soundness -/

/-- A value may stand in a slot. -/
def Fits (s : Store) (c : Component) : Value → Prop
  | .block b => b.index < s.blocks.size ∧ (s.definitionOf b).blockType = .reporter ∧
      c.kind.fits (s.definitionOf b).outputType = true
  | .stack t => t.index < s.allStacks.size ∧ c.kind = .statement
  | v => v.Literal

/-- Reporters stand neither for bodies nor for variables. -/
theorem kind_of_fits {kind : SlotKind} {output : DataType} (h : kind.fits output = true) :
    kind ≠ .statement ∧ kind ≠ .varName := by
  constructor <;> rintro rfl <;> cases output <;> cases h

/-- A store as the editor builds it. -/
structure Sound (s : Store) : Prop where
  /-- A stack shows a row of the store. -/
  row_lt : ∀ t : StackId, t.index < s.allStacks.size → (s.stack t).row.index < s.rows.size
  /-- No two stacks show the same row. -/
  row_inj : ∀ t u : StackId, t.index < s.allStacks.size → u.index < s.allStacks.size →
    (s.stack t).row = (s.stack u).row → t = u
  /-- What is in a row is in the store. -/
  mem_row : ∀ r b, b ∈ s.row r → b.index < s.blocks.size
  /-- Blocks are of the catalogue. -/
  known : ∀ b : BlockId, b.index < s.blocks.size → s.definitionOf b ∈ Catalogue.blocks
  /-- A block has a value for each slot. -/
  length_values : ∀ b : BlockId, b.index < s.blocks.size →
    (s.block b).values.length = (s.definitionOf b).countInputs
  /-- A slot holds what its kind admits. -/
  fits : ∀ b i c v, (s.definitionOf b).inputs[i]? = some c → s.slot? b i = some v → s.Fits c v
  /-- Blocks in slots are nested to a depth below the number of blocks. -/
  ranked : ∃ rank : BlockId → Nat, (∀ b, b.index < s.blocks.size → rank b < s.blocks.size) ∧
    ∀ b i c, s.slot? b i = some (.block c) → rank c < rank b

/-- Each stack shows a row of its own. -/
structure Rowed (s : Store) : Prop where
  row_lt : ∀ t : StackId, t.index < s.allStacks.size → (s.stack t).row.index < s.rows.size
  row_inj : ∀ t u : StackId, t.index < s.allStacks.size → u.index < s.allStacks.size →
    (s.stack t).row = (s.stack u).row → t = u

theorem Sound.rowed (hs : s.Sound) : s.Rowed := ⟨hs.row_lt, hs.row_inj⟩

theorem slot?_empty (b : BlockId) (i : Nat) : Store.empty.slot? b i = none := by
  simp [slot?, block, empty, default, instInhabitedBlock.default]

theorem sound_empty : Store.empty.Sound where
  row_lt t ht := by
    obtain ⟨t⟩ := t
    obtain rfl : t = 0 := Nat.lt_one_iff.1 ht
    exact Nat.one_pos
  row_inj t u ht hu _ := by
    obtain ⟨t⟩ := t
    obtain ⟨u⟩ := u
    exact congrArg StackId.mk ((Nat.lt_one_iff.1 ht).trans (Nat.lt_one_iff.1 hu).symm)
  mem_row r b hb := by obtain ⟨_ | n⟩ := r <;> simp [row, empty] at hb
  known _ h := absurd h (Nat.not_lt_zero _)
  length_values _ h := absurd h (Nat.not_lt_zero _)
  fits b i _ _ _ hv := by simp [slot?_empty] at hv
  ranked := ⟨fun _ => 0, fun _ h => absurd h (Nat.not_lt_zero _), by simp [slot?_empty]⟩

theorem mem_blocksOf_addStack (hs : s.Rowed) {p : Option (List Value)}
    (ht : t.index < (s.addStack bs p).2.allStacks.size) (h : b ∈ (s.addStack bs p).2.blocksOf t) :
    t.index < s.allStacks.size ∧ b ∈ s.blocksOf t ∨ b ∈ bs := by
  by_cases hlt : t.index < s.allStacks.size
  · rw [blocksOf, stack_addStack_of_lt s bs p hlt, row_addStack_of_lt s bs p (hs.row_lt t hlt)] at h
    exact .inl ⟨hlt, h⟩
  · rw [size_allStacks_addStack] at ht
    rw [StackId.eq_mk (show t.index = s.allStacks.size by omega), blocksOf_addStack_self] at h
    exact .inr h

theorem Sound.mem_blocksOf (hs : s.Sound) (h : b ∈ s.blocksOf t) : b.index < s.blocks.size :=
  hs.mem_row _ b h

/-- A filled slot is a slot of the definition, and what it holds fits. -/
theorem Sound.exists_value (hs : s.Sound) {c : Component} (hc : (s.definitionOf b).inputs[i]? = some c) :
    ∃ v, s.slot? b i = some v := by
  have hi : i < (s.block b).values.length := by
    rw [hs.length_values b (lt_of_inputs hc)]
    exact (List.getElem?_eq_some_iff.1 hc).1
  exact ⟨_, List.getElem?_eq_getElem hi⟩

theorem Sound.fits_slot? (hs : s.Sound) (h : s.slot? b i = some v) :
    ∃ c, (s.definitionOf b).inputs[i]? = some c ∧ s.Fits c v := by
  have hi : i < (s.block b).values.length := by
    by_contra hlt
    rw [slot?, List.getElem?_eq_none (Nat.le_of_not_lt hlt)] at h
    cases h
  rw [hs.length_values b (lt_of_slot? h)] at hi
  refine ⟨_, List.getElem?_eq_getElem hi, ?_⟩
  exact hs.fits b i _ v (List.getElem?_eq_getElem hi) h

theorem Sound.block_lt (hs : s.Sound) (h : s.slot? b i = some (.block c)) :
    c.index < s.blocks.size := by
  obtain ⟨_, _, hc⟩ := hs.fits_slot? h
  exact hc.1

theorem Sound.stack_lt (hs : s.Sound) (h : s.slot? b i = some (.stack t)) :
    t.index < s.allStacks.size := by
  obtain ⟨_, _, hc⟩ := hs.fits_slot? h
  exact hc.1

theorem mk_ne_of_lt (h : t.index < n) : t ≠ ⟨n⟩ := by
  rintro rfl
  exact Nat.lt_irrefl _ h

/-! ## Growing -/

/-- All blocks stay, with their definitions. -/
structure Stays (s s' : Store) : Prop where
  blocks_le : s.blocks.size ≤ s'.blocks.size
  definition_eq : ∀ b : BlockId, b.index < s.blocks.size → s'.definitionOf b = s.definitionOf b

theorem Stays.refl (s : Store) : Stays s s := ⟨le_rfl, fun _ _ => rfl⟩

theorem Stays.trans {s'' : Store} (h : Stays s s') (h' : Stays s' s'') : Stays s s'' :=
  ⟨h.blocks_le.trans h'.blocks_le, fun b hb =>
    (h'.definition_eq b (hb.trans_le h.blocks_le)).trans (h.definition_eq b hb)⟩

/-- The stacks and rows stay as well. -/
structure Spans (s s' : Store) : Prop extends Stays s s' where
  stacks_le : s.allStacks.size ≤ s'.allStacks.size
  rows_le : s.rows.size ≤ s'.rows.size
  stack_eq : ∀ t : StackId, t.index < s.allStacks.size → (s'.stack t).row = (s.stack t).row
  row_eq : ∀ r : RowId, r.index < s.rows.size → s'.row r = s.row r

theorem Spans.trans {s'' : Store} (h : Spans s s') (h' : Spans s' s'') : Spans s s'' where
  toStays := h.toStays.trans h'.toStays
  stacks_le := h.stacks_le.trans h'.stacks_le
  rows_le := h.rows_le.trans h'.rows_le
  stack_eq t ht := (h'.stack_eq t (ht.trans_le h.stacks_le)).trans (h.stack_eq t ht)
  row_eq r hr := (h'.row_eq r (hr.trans_le h.rows_le)).trans (h.row_eq r hr)

/-- A store with more blocks, stacks and rows, in which nothing else changed. -/
structure Grown (s s' : Store) : Prop extends Spans s s' where
  values_eq : ∀ b : BlockId, b.index < s.blocks.size → (s'.block b).values = (s.block b).values

theorem Grown.refl (s : Store) : Grown s s :=
  ⟨⟨.refl s, le_rfl, le_rfl, fun _ _ => rfl, fun _ _ => rfl⟩, fun _ _ => rfl⟩

theorem Grown.trans {s'' : Store} (h : Grown s s') (h' : Grown s' s'') : Grown s s'' :=
  ⟨h.toSpans.trans h'.toSpans, fun b hb =>
    (h'.values_eq b (hb.trans_le h.blocks_le)).trans (h.values_eq b hb)⟩

theorem stays_setValue (s : Store) (b : BlockId) (i : Nat) (v : Value) :
    Stays s (s.setValue b i v) :=
  ⟨by simp, by simp⟩

theorem grown_addBlock (s : Store) (d : Definition) (vs : List Value) :
    Grown s (s.addBlock d vs).2 where
  blocks_le := by simp
  stacks_le := le_rfl
  rows_le := le_rfl
  values_eq b hb := by rw [block_addBlock_of_lt s d vs hb]
  definition_eq b hb := by rw [definitionOf, block_addBlock_of_lt s d vs hb]; rfl
  stack_eq _ _ := rfl
  row_eq _ _ := rfl

theorem grown_addStack (s : Store) (bs : List BlockId) (p : Option (List Value)) :
    Grown s (s.addStack bs p).2 where
  blocks_le := le_rfl
  stacks_le := by simp
  rows_le := by simp
  values_eq _ _ := rfl
  definition_eq _ _ := rfl
  stack_eq t ht := by rw [stack_addStack_of_lt s bs p ht]
  row_eq r hr := row_addStack_of_lt s bs p hr

theorem Grown.slot?_eq (h : Grown s s') (hb : b.index < s.blocks.size) (i : Nat) :
    s'.slot? b i = s.slot? b i := by
  rw [slot?, h.values_eq b hb, slot?]

theorem Grown.slot? (h : Grown s s') (hv : s.slot? b i = some v) : s'.slot? b i = some v := by
  rw [h.slot?_eq (lt_of_slot? hv), hv]

theorem Grown.blocksOf_eq (h : Grown s s') (hs : s.Sound) (ht : t.index < s.allStacks.size) :
    s'.blocksOf t = s.blocksOf t := by
  rw [blocksOf, h.stack_eq t ht, h.row_eq _ (hs.row_lt t ht), blocksOf]

theorem Grown.fits (h : Grown s s') {c : Component} (hv : s.Fits c v) : s'.Fits c v := by
  cases v with
  | block b =>
    obtain ⟨hb, hr, hk⟩ := hv
    rw [Fits, h.definition_eq b hb]
    exact ⟨hb.trans_le h.blocks_le, hr, hk⟩
  | stack t => exact ⟨hv.1.trans_le h.stacks_le, hv.2⟩
  | _ => exact hv

/-! ## Changes that keep a store sound -/

/-- One stack shows a new row, and the others show the rows that they showed. -/
theorem Rowed.of_new (hs : s.Rowed) (hsi : s'.rows.size = s.rows.size + 1)
    (hn : (s'.stack t).row = ⟨s.rows.size⟩)
    (hold : ∀ u : StackId, u.index < s'.allStacks.size → u ≠ t →
      u.index < s.allStacks.size ∧ (s'.stack u).row = (s.stack u).row) : s'.Rowed := by
  have hlt : ∀ u : StackId, u.index < s'.allStacks.size → u ≠ t →
      (s'.stack u).row.index < s.rows.size := by
    intro u hu hne
    obtain ⟨hlt, hro⟩ := hold u hu hne
    exact hro ▸ hs.row_lt u hlt
  refine ⟨fun u hu => ?_, fun u w hu hw hro => ?_⟩
  · rw [hsi]
    by_cases hut : u = t
    · rw [hut, hn]
      exact Nat.lt_succ_self _
    · exact (hlt u hu hut).trans (Nat.lt_succ_self _)
  · by_cases hut : u = t <;> by_cases hwt : w = t
    · rw [hut, hwt]
    · have := hlt w hw hwt
      rw [← hro, hut, hn] at this
      exact absurd this (Nat.lt_irrefl _)
    · have := hlt u hu hut
      rw [hro, hwt, hn] at this
      exact absurd this (Nat.lt_irrefl _)
    · obtain ⟨hu, hr⟩ := hold u hu hut
      obtain ⟨hw, hr'⟩ := hold w hw hwt
      exact hs.row_inj u w hu hw (hr.symm.trans (hro.trans hr'))

theorem Rowed.addStack (hs : s.Rowed) (bs : List BlockId) (p : Option (List Value)) :
    (s.addStack bs p).2.Rowed := by
  refine hs.of_new (size_rows_addStack ..) (by rw [stack_addStack_self]) fun u hu hne => ?_
  have hlt : u.index < s.allStacks.size := by
    have : u.index ≠ s.allStacks.size := fun h => hne (StackId.eq_mk h)
    rw [size_allStacks_addStack] at hu
    omega
  exact ⟨hlt, (grown_addStack s bs p).stack_eq u hlt⟩

theorem mem_row_of_push (hr : s'.rows = s.rows.push bs) (h : b ∈ s'.row r) : b ∈ s.row r ∨ b ∈ bs := by
  rw [row, hr, getD_eq_getD_getElem?, getElem?_push] at h
  split at h
  · exact .inr h
  · exact .inl (by rwa [row, getD_eq_getD_getElem?])

theorem Sound.addStack (hs : s.Sound) (p : Option (List Value))
    (hbs : ∀ b ∈ bs, b.index < s.blocks.size) : (s.addStack bs p).2.Sound := by
  have hg := grown_addStack s bs p
  have hr := hs.rowed.addStack bs p
  exact ⟨hr.row_lt, hr.row_inj,
    fun r b hb => (mem_row_of_push rfl hb).elim (hs.mem_row r b) (hbs b), hs.known, hs.length_values,
    fun b i c v hc hv => hg.fits (hs.fits b i c v hc hv), hs.ranked⟩

theorem Sound.addBlock (hs : s.Sound) (hd : d ∈ Catalogue.blocks) (hl : vs.length = d.countInputs)
    (hf : ∀ (i : Nat) c v, d.inputs[i]? = some c → vs[i]? = some v → s.Fits c v) :
    (s.addBlock d vs).2.Sound := by
  have hg := grown_addBlock s d vs
  have hde : (s.addBlock d vs).2.definitionOf ⟨s.blocks.size⟩ = d := by
    rw [definitionOf, block_addBlock_self]
  have hbl : ∀ b : BlockId, b.index < (s.addBlock d vs).2.blocks.size →
      b.index < s.blocks.size ∨ b = ⟨s.blocks.size⟩ := by
    intro b hb
    rw [size_blocks_addBlock] at hb
    by_cases hlt : b.index < s.blocks.size
    · exact .inl hlt
    · exact .inr (BlockId.eq_mk (by omega))
  refine ⟨hs.row_lt, hs.row_inj, fun r b hb => (hs.mem_row r b hb).trans_le hg.blocks_le,
    fun b hb => ?_, fun b hb => ?_, fun b i c v hc hv => ?_, ?_⟩
  · rcases hbl b hb with hlt | rfl
    · rw [hg.definition_eq b hlt]
      exact hs.known b hlt
    · rwa [hde]
  · rcases hbl b hb with hlt | rfl
    · rw [hg.definition_eq b hlt, hg.values_eq b hlt]
      exact hs.length_values b hlt
    · rw [hde, block_addBlock_self]
      exact hl
  · rcases slot?_addBlock hv with ⟨rfl, hvs⟩ | hv
    · rw [hde] at hc
      exact hg.fits (hf i c v hc hvs)
    · rw [hg.definition_eq b (lt_of_slot? hv)] at hc
      exact hg.fits (hs.fits b i c v hc hv)
  · -- the new block stands above all others
    obtain ⟨rank, hr, hdo⟩ := hs.ranked
    refine ⟨fun b => if b.index < s.blocks.size then rank b else s.blocks.size, fun b hb => ?_,
      fun b i c hv => ?_⟩
    · rw [size_blocks_addBlock]
      dsimp only
      split
      · exact (hr b ‹_›).trans (Nat.lt_succ_self _)
      · exact Nat.lt_succ_self _
    · rcases slot?_addBlock hv with ⟨rfl, hvs⟩ | hv
      · have hi : i < d.inputs.length := by
          rw [← Definition.countInputs, ← hl]
          exact (List.getElem?_eq_some_iff.1 hvs).1
        have hc := (hf i _ _ (List.getElem?_eq_getElem hi) hvs).1
        simp [hc, hr c hc]
      · simp [lt_of_slot? hv, hs.block_lt hv, hdo b i c hv]

theorem fits_setValue {c : Component} (h : s.Fits c w) : (s.setValue b i v).Fits c w := by
  cases w with
  | block x => simpa [Fits] using h
  | _ => exact h

theorem Sound.setValue_of_ranked (hs : s.Sound)
    (hv : ∀ c, (s.definitionOf b).inputs[i]? = some c → s.Fits c v)
    (hr : ∃ rank : BlockId → Nat, (∀ x, x.index < s.blocks.size → rank x < s.blocks.size) ∧
      ∀ x j c, (s.setValue b i v).slot? x j = some (.block c) → rank c < rank x) :
    (s.setValue b i v).Sound := by
  refine ⟨hs.row_lt, hs.row_inj, fun r x hx => ?_, fun x hx => ?_, fun x hx => ?_,
    fun x j c w hc hw => ?_, by simpa using hr⟩
  · simpa using hs.mem_row r x hx
  · simpa using hs.known x (by simpa using hx)
  · have hl := hs.length_values x (by simpa using hx)
    rw [definitionOf_setValue, ← hl]
    by_cases hxb : x = b
    · rw [hxb, values_setValue_self, List.length_set]
    · rw [values_setValue_of_ne s i v hxb]
  · rw [definitionOf_setValue] at hc
    rcases slot?_setValue hw with ⟨rfl, rfl, rfl⟩ | ⟨-, hw⟩
    · exact fits_setValue (hv c hc)
    · exact fits_setValue (hs.fits x j c w hc hw)

/-- A slot may be filled with anything but a block that fits. -/
theorem Sound.setValue (hs : s.Sound) (hv : ∀ c, (s.definitionOf b).inputs[i]? = some c → s.Fits c v)
    (hb : ∀ c, v ≠ .block c) : (s.setValue b i v).Sound := by
  refine hs.setValue_of_ranked hv ?_
  obtain ⟨rank, hr, hd⟩ := hs.ranked
  refine ⟨rank, hr, fun x j c hx => ?_⟩
  rcases slot?_setValue hx with ⟨-, -, h⟩ | ⟨-, hx⟩
  · exact absurd h.symm (hb c)
  · exact hd x j c hx

theorem fits_of_literal (h : v.Literal) (c : Component) : s.Fits c v := by
  cases v <;> first | exact h | cases h

theorem Sound.setValue_literal (hs : s.Sound) (b : BlockId) (i : Nat) (hv : v.Literal) :
    (s.setValue b i v).Sound :=
  hs.setValue (fun c _ => fits_of_literal hv c) fun c hc => by
    subst hc
    exact hv

/-! ## Rows of a sound store -/

theorem blocksOf_addStack_of_lt (hs : s.Sound) (bs : List BlockId) (p : Option (List Value))
    (ht : t.index < s.allStacks.size) : (s.addStack bs p).2.blocksOf t = s.blocksOf t :=
  (grown_addStack s bs p).blocksOf_eq hs ht

theorem Rowed.blocksOf_editRow_self (hs : s.Rowed) (ht : t.index < s.allStacks.size)
    (f : List BlockId → List BlockId) : (s.editRow t f).blocksOf t = f (s.blocksOf t) := by
  rw [blocksOf, stack_editRow, row_editRow, if_pos ⟨rfl, hs.row_lt t ht⟩, blocksOf]

theorem Rowed.blocksOf_editRow_of_ne (hs : s.Rowed) (ht : t.index < s.allStacks.size)
    (hu : u.index < s.allStacks.size) (hne : u ≠ t) (f : List BlockId → List BlockId) :
    (s.editRow t f).blocksOf u = s.blocksOf u := by
  rw [blocksOf, stack_editRow, row_editRow, if_neg, blocksOf]
  rintro ⟨hr, -⟩
  exact hne (hs.row_inj u t hu ht hr)

theorem Rowed.editRow (hs : s.Rowed) (t : StackId) (f : List BlockId → List BlockId) :
    (s.editRow t f).Rowed := by
  refine ⟨fun u hu => ?_, hs.row_inj⟩
  show (s.stack u).row.index < (s.rows.modify _ f).size
  rw [size_modify]
  exact hs.row_lt u hu

theorem Sound.editRow (hs : s.Sound) {f : List BlockId → List BlockId}
    (hf : ∀ b ∈ f (s.blocksOf t), b.index < s.blocks.size) : (s.editRow t f).Sound := by
  refine ⟨(hs.rowed.editRow t f).row_lt, hs.row_inj, fun r b hb => ?_, hs.known,
    hs.length_values, hs.fits, hs.ranked⟩
  rw [row_editRow] at hb
  split at hb
  case isTrue h =>
    rw [h.1] at hb
    exact hf b hb
  case isFalse => exact hs.mem_row r b hb

theorem blocksOf_replaceRow_self (ht : t.index < s.allStacks.size) (bs : List BlockId) :
    (s.replaceRow t bs).blocksOf t = bs := by
  rw [blocksOf, stack_replaceRow_self s bs ht, row_replaceRow_self]

theorem Rowed.blocksOf_replaceRow_of_ne (hs : s.Rowed) (hu : u.index < s.allStacks.size) (hne : u ≠ t)
    (bs : List BlockId) : (s.replaceRow t bs).blocksOf u = s.blocksOf u := by
  rw [blocksOf, stack_replaceRow_of_ne s bs hne, row_replaceRow_of_lt s t bs (hs.row_lt u hu),
    blocksOf]

theorem Rowed.replaceRow (hs : s.Rowed) (ht : t.index < s.allStacks.size) (bs : List BlockId) :
    (s.replaceRow t bs).Rowed :=
  hs.of_new (size_rows_replaceRow ..) (stack_replaceRow_self s bs ht) fun u hu hne =>
    ⟨by simpa using hu, by rw [stack_replaceRow_of_ne s bs hne]⟩

theorem Sound.replaceRow (hs : s.Sound) (ht : t.index < s.allStacks.size)
    (hbs : ∀ b ∈ bs, b.index < s.blocks.size) : (s.replaceRow t bs).Sound := by
  have hr := hs.rowed.replaceRow ht bs
  refine ⟨hr.row_lt, hr.row_inj,
    fun r b hb => (mem_row_of_push rfl hb).elim (hs.mem_row r b) (hbs b), hs.known, hs.length_values,
    fun b i c v hc hv => ?_, hs.ranked⟩
  have hf := hs.fits b i c v hc hv
  cases v with
  | stack u => simpa [Fits] using hf
  | _ => exact hf

end Store

end BlockStudio
