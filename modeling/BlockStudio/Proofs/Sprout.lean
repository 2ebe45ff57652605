import BlockStudio.Proofs.SoundStore

/-!
# New blocks in a store

Copying a block and reading a saved stack put new blocks and stacks into the store.  `Sprouts` says
what such a step builds: the old part stays, the new part hangs together by itself, and the values
`vs` are its loose ends, which the next step takes up.  A body among the new blocks has blocks of the
same types as a body of the store `src` that was copied or saved.

`Fresh` says besides that nothing new stands in two places and that no new row shows an old block.
A copy of a block with a filled body is not fresh: the body's blocks are then shown twice.
-/

namespace BlockStudio

open List

variable {t : StackId} {bs : List BlockId} {h hold : Holder} {c : BlockId}

/-- A place where a block can stand. -/
inductive Holder where
  /-- The slot of a block with a number. -/
  | slot (b : BlockId) (i : Nat)
  /-- A place in the row of a stack. -/
  | place (t : StackId) (i : Nat)

/-- A value is a block or a stack. -/
def Value.IsNode : Value → Prop
  | .block _ | .stack _ => True
  | _ => False

theorem Value.Literal.not_isNode {v : Value} (h : v.Literal) : ¬v.IsNode := by
  cases v <;> first | exact id | cases h

namespace Store

variable {src s s1 s2 s' s'' : Store} {vs ws : List Value} {named live : Value → Prop} {b : BlockId} {i : Nat}
  {v : Value} {d : Definition} {root : StackId → Prop}

/-- A stack is the body of some block. -/
def Held (s : Store) (t : StackId) : Prop := ∃ b i, s.slot? b i = some (.stack t)

/-- A block stands in a slot, or in the row of a body or of a stack that is a root. -/
def Holds (s : Store) (root : StackId → Prop) : Holder → BlockId → Prop
  | .slot b i, c => s.slot? b i = some (.block c)
  | .place t i, c => (root t ∨ s.Held t) ∧ (s.blocksOf t)[i]? = some c

/-- The types of the blocks that a stack shows. -/
def types (s : Store) (t : StackId) : List BlockType :=
  (s.blocksOf t).map fun b => (s.definitionOf b).blockType

/-- A stack shows blocks of the same types as some body of another store. -/
def LikeBody (src s : Store) (t : StackId) : Prop := ∃ u, src.Held u ∧ s.types t = src.types u

theorem Grown.types_eq (h : Grown s s1) (hs : s.Sound) (ht : t.index < s.allStacks.size) :
    s1.types t = s.types t := by
  unfold types
  rw [h.blocksOf_eq hs ht]
  apply map_congr_left
  intro b hb
  rw [h.definition_eq b (hs.mem_blocksOf hb)]

theorem Grown.likeBody (h : Grown s s1) (hs : s.Sound) (ht : t.index < s.allStacks.size)
    (hb : LikeBody src s t) : LikeBody src s1 t := by
  obtain ⟨u, hu, hty⟩ := hb
  exact ⟨u, hu, (h.types_eq hs ht).trans hty⟩

/-! ## Sprouting -/

/-- The store grew by blocks and stacks whose loose ends are `vs`. -/
structure Sprouts (src s s1 : Store) (vs : List Value) : Prop where
  grown : Grown s s1
  sound : s1.Sound
  /-- New blocks hold new blocks only, and those were made before them. -/
  block_new : ∀ b i c, s.blocks.size ≤ b.index → s1.slot? b i = some (.block c) →
    s.blocks.size ≤ c.index ∧ c.index < b.index
  /-- New blocks hold new stacks only. -/
  stack_new : ∀ b i t, s.blocks.size ≤ b.index → s1.slot? b i = some (.stack t) →
    s.allStacks.size ≤ t.index
  /-- The bodies of new blocks are like bodies of `src`. -/
  body : ∀ b i t, s.blocks.size ≤ b.index → s1.slot? b i = some (.stack t) → LikeBody src s1 t
  /-- The loose ends are new blocks and stacks, and literals. -/
  loose_block : ∀ c, .block c ∈ vs → s.blocks.size ≤ c.index ∧ c.index < s1.blocks.size
  loose_stack : ∀ t, .stack t ∈ vs → s.allStacks.size ≤ t.index ∧ t.index < s1.allStacks.size

theorem Sprouts.of_literals (hs : s.Sound) (h : ∀ v ∈ vs, v.Literal) : Sprouts src s s vs where
  grown := .refl s
  sound := hs
  block_new _ _ _ hb hc := absurd (lt_of_slot? hc) (Nat.not_lt_of_le hb)
  stack_new _ _ _ hb ht := absurd (lt_of_slot? ht) (Nat.not_lt_of_le hb)
  body _ _ _ hb ht := absurd (lt_of_slot? ht) (Nat.not_lt_of_le hb)
  loose_block _ hc := (h _ hc).elim
  loose_stack _ ht := (h _ ht).elim

theorem Sprouts.self (src : Store) (hs : s.Sound) : Sprouts src s s [] := .of_literals hs nofun

theorem Sprouts.append (h : Sprouts src s s1 vs) (h' : Sprouts src s1 s2 ws) :
    Sprouts src s s2 (vs ++ ws) where
  grown := h.grown.trans h'.grown
  sound := h'.sound
  block_new b i c hb hc := by
    by_cases hlt : b.index < s1.blocks.size
    · rw [h'.grown.slot?_eq hlt] at hc
      exact h.block_new b i c hb hc
    · obtain ⟨hle, hlt⟩ := h'.block_new b i c (Nat.le_of_not_lt hlt) hc
      exact ⟨h.grown.blocks_le.trans hle, hlt⟩
  stack_new b i t hb ht := by
    by_cases hlt : b.index < s1.blocks.size
    · rw [h'.grown.slot?_eq hlt] at ht
      exact h.stack_new b i t hb ht
    · exact h.grown.stacks_le.trans (h'.stack_new b i t (Nat.le_of_not_lt hlt) ht)
  body b i t hb ht := by
    by_cases hlt : b.index < s1.blocks.size
    · rw [h'.grown.slot?_eq hlt] at ht
      exact h'.grown.likeBody h.sound (h.sound.stack_lt ht) (h.body b i t hb ht)
    · exact h'.body b i t (Nat.le_of_not_lt hlt) ht
  loose_block c hc := by
    rcases mem_append.1 hc with hc | hc
    · obtain ⟨hle, hlt⟩ := h.loose_block c hc
      exact ⟨hle, hlt.trans_le h'.grown.blocks_le⟩
    · obtain ⟨hle, hlt⟩ := h'.loose_block c hc
      exact ⟨h.grown.blocks_le.trans hle, hlt⟩
  loose_stack t ht := by
    rcases mem_append.1 ht with ht | ht
    · obtain ⟨hle, hlt⟩ := h.loose_stack t ht
      exact ⟨hle, hlt.trans_le h'.grown.stacks_le⟩
    · obtain ⟨hle, hlt⟩ := h'.loose_stack t ht
      exact ⟨h.grown.stacks_le.trans hle, hlt⟩

/-- Stacks that were there are the bodies of blocks that were there. -/
theorem Sprouts.slot_of_lt (h : Sprouts src s s1 vs) (ht : t.index < s.allStacks.size)
    (hb : s1.slot? b i = some (.stack t)) : s.slot? b i = some (.stack t) := by
  by_cases hlt : b.index < s.blocks.size
  · rwa [h.grown.slot?_eq hlt] at hb
  · exact absurd ht (Nat.not_lt_of_le (h.stack_new b i t (Nat.le_of_not_lt hlt) hb))

/-- The loose ends become the values of a new block. -/
theorem Sprouts.addBlock (h : Sprouts src s s1 vs) (hd : d ∈ Catalogue.blocks)
    (hl : vs.length = d.countInputs)
    (hf : ∀ (i : Nat) c v, d.inputs[i]? = some c → vs[i]? = some v → s1.Fits c v)
    (hbo : ∀ t, .stack t ∈ vs → LikeBody src s1 t) :
    Sprouts src s (s1.addBlock d vs).2 [.block ⟨s1.blocks.size⟩] where
  grown := h.grown.trans (grown_addBlock s1 d vs)
  sound := h.sound.addBlock hd hl hf
  block_new b i c hb hc := by
    rcases slot?_addBlock hc with ⟨rfl, hvs⟩ | hc
    · exact h.loose_block c (mem_of_getElem? hvs)
    · exact h.block_new b i c hb hc
  stack_new b i t hb ht := by
    rcases slot?_addBlock ht with ⟨rfl, hvs⟩ | ht
    · exact (h.loose_stack t (mem_of_getElem? hvs)).1
    · exact h.stack_new b i t hb ht
  body b i t hb ht := by
    rcases slot?_addBlock ht with ⟨rfl, hvs⟩ | ht
    · exact (grown_addBlock s1 d vs).likeBody h.sound
        (h.loose_stack t (mem_of_getElem? hvs)).2 (hbo t (mem_of_getElem? hvs))
    · exact (grown_addBlock s1 d vs).likeBody h.sound (h.sound.stack_lt ht) (h.body b i t hb ht)
  loose_block c hc := by
    obtain rfl : c = ⟨s1.blocks.size⟩ := by simpa using hc
    exact ⟨h.grown.blocks_le, by simp⟩
  loose_stack t ht := by simp at ht

/-- A new stack shows blocks of the store. -/
theorem Sprouts.addStack (h : Sprouts src s s1 vs) (p : Option (List Value))
    (hbs : ∀ b ∈ bs, b.index < s1.blocks.size) :
    Sprouts src s (s1.addStack bs p).2 [.stack ⟨s1.allStacks.size⟩] where
  grown := h.grown.trans (grown_addStack s1 bs p)
  sound := h.sound.addStack p hbs
  block_new := h.block_new
  stack_new := h.stack_new
  body b i t hb ht :=
    (grown_addStack s1 bs p).likeBody h.sound (h.sound.stack_lt ht) (h.body b i t hb ht)
  loose_block c hc := by simp at hc
  loose_stack t ht := by
    obtain rfl : t = ⟨s1.allStacks.size⟩ := by simpa using ht
    exact ⟨h.grown.stacks_le, by simp⟩

/-! ## Nothing new stands in two places -/

/-- The new part of a store is not shared with the old one nor within itself. -/
structure Fresh (s s1 : Store) (vs : List Value) : Prop where
  /-- New rows show new blocks only. -/
  row_new : ∀ t c, s.allStacks.size ≤ t.index → t.index < s1.allStacks.size → c ∈ s1.blocksOf t →
    s.blocks.size ≤ c.index
  /-- A new block stands in one place. -/
  block_once : ∀ h h' c, s.blocks.size ≤ c.index → s1.Holds (.stack · ∈ vs) h c →
    s1.Holds (.stack · ∈ vs) h' c → h = h'
  /-- A new stack is the body of one block. -/
  stack_once : ∀ b i b' i' t, s.allStacks.size ≤ t.index → s1.slot? b i = some (.stack t) →
    s1.slot? b' i' = some (.stack t) → b = b' ∧ i = i'
  /-- Loose ends stand nowhere yet. -/
  block_loose : ∀ h c, .block c ∈ vs → ¬s1.Holds (.stack · ∈ vs) h c
  stack_loose : ∀ t, .stack t ∈ vs → ¬s1.Held t
  /-- Loose ends are all different. -/
  distinct : ∀ (i j : Nat) v, vs[i]? = some v → vs[j]? = some v → v.IsNode → i = j

theorem Sound.not_holds (hs : s.Sound) (hc : s.blocks.size ≤ c.index) : ¬s.Holds root h c := by
  intro hold
  cases h with
  | slot b i => exact absurd (hs.block_lt hold) (Nat.not_lt_of_le hc)
  | place t i => exact absurd (hs.mem_blocksOf (mem_of_getElem? hold.2)) (Nat.not_lt_of_le hc)

theorem Fresh.of_literals (hs : s.Sound) (h : ∀ v ∈ vs, v.Literal) : Fresh s s vs where
  row_new _ _ hle hlt _ := absurd hlt (Nat.not_lt_of_le hle)
  block_once _ _ _ hc hold := absurd hold (hs.not_holds hc)
  stack_once _ _ _ _ _ ht hold := absurd (hs.stack_lt hold) (Nat.not_lt_of_le ht)
  block_loose _ _ hc := (h _ hc).elim
  stack_loose _ ht := (h _ ht).elim
  distinct _ _ v hi _ hv := absurd hv (h v (mem_of_getElem? hi)).not_isNode

/-- A block of the first part that stands somewhere in the end stood there after the first part. -/
theorem holds_of_lt (h : Sprouts src s1 s2 ws) (hs : s1.Sound) (hf : Fresh s1 s2 ws)
    (hc : c.index < s1.blocks.size) (hro : ∀ t, root t → t.index < s2.allStacks.size)
    (hc2 : s2.Holds (fun t => root t ∨ .stack t ∈ ws) hold c) : s1.Holds root hold c := by
  cases hold with
  | slot b i =>
    by_cases hlt : b.index < s1.blocks.size
    · exact (h.grown.slot?_eq hlt i).symm.trans hc2
    · exact absurd hc (Nat.not_lt_of_le (h.block_new b i c (Nat.le_of_not_lt hlt) hc2).1)
  | place t i =>
    obtain ⟨hsh, hg⟩ := hc2
    have hr : t.index < s2.allStacks.size := by
      rcases hsh with (ht | ht) | ⟨b, j, ht⟩
      · exact hro t ht
      · exact (h.loose_stack t ht).2
      · exact h.sound.stack_lt ht
    have hlt : t.index < s1.allStacks.size := by
      by_contra hle
      have := hf.row_new t c (Nat.le_of_not_lt hle) hr (mem_of_getElem? hg)
      exact absurd hc (Nat.not_lt_of_le this)
    rw [h.grown.blocksOf_eq hs hlt] at hg
    refine ⟨?_, hg⟩
    rcases hsh with (ht | ht) | ⟨b, j, ht⟩
    · exact .inl ht
    · exact absurd hlt (Nat.not_lt_of_le (h.loose_stack t ht).1)
    · exact .inr ⟨b, j, h.slot_of_lt hlt ht⟩

/-- A block of the second part stands only where the second part put it. -/
theorem holds_of_le (h : Sprouts src s1 s2 ws) (hs : s1.Sound) (hc : s1.blocks.size ≤ c.index)
    (hr : ∀ t, root t → t.index < s1.allStacks.size)
    (hc2 : s2.Holds (fun t => root t ∨ .stack t ∈ ws) hold c) : s2.Holds (.stack · ∈ ws) hold c := by
  cases hold with
  | slot b i => exact hc2
  | place t i =>
    obtain ⟨(ht | ht) | ht, hg⟩ := hc2
    · rw [h.grown.blocksOf_eq hs (hr t ht)] at hg
      exact absurd (hs.mem_blocksOf (mem_of_getElem? hg)) (Nat.not_lt_of_le hc)
    · exact ⟨.inl ht, hg⟩
    · exact ⟨.inr ht, hg⟩

theorem holds_congr {root' : StackId → Prop} (hr : ∀ t, root t → root' t) (hc : s.Holds root h c) :
    s.Holds root' h c := by
  cases h with
  | slot b i => exact hc
  | place t i => exact ⟨hc.1.imp_left (hr t), hc.2⟩

theorem Fresh.append (h : Sprouts src s s1 vs) (hf : Fresh s s1 vs)
    (h' : Sprouts src s1 s2 ws) (hf' : Fresh s1 s2 ws) : Fresh s s2 (vs ++ ws) := by
  have hs : ∀ hold c, s2.Holds (.stack · ∈ vs ++ ws) hold c →
      s2.Holds (fun t => .stack t ∈ vs ∨ .stack t ∈ ws) hold c := fun hold c =>
    holds_congr fun t => mem_append.1
  have hlt : ∀ hold c, c.index < s1.blocks.size → s2.Holds (.stack · ∈ vs ++ ws) hold c →
      s1.Holds (.stack · ∈ vs) hold c := fun hold c hc hc2 =>
    holds_of_lt h' h.sound hf' hc
      (fun t ht => (h.loose_stack t ht).2.trans_le h'.grown.stacks_le) (hs hold c hc2)
  have hle : ∀ hold c, s1.blocks.size ≤ c.index → s2.Holds (.stack · ∈ vs ++ ws) hold c →
      s2.Holds (.stack · ∈ ws) hold c := fun hold c hc hc2 =>
    holds_of_le h' h.sound hc (fun t ht => (h.loose_stack t ht).2) (hs hold c hc2)
  refine ⟨fun t c ht hr hc => ?_, fun k k' c hc hk hk' => ?_, fun b i b' i' t ht hb hb' => ?_,
    fun k c hc hk => ?_, fun t ht => ?_, fun i j v hi hj hv => ?_⟩
  · by_cases hlt : t.index < s1.allStacks.size
    · rw [h'.grown.blocksOf_eq h.sound hlt] at hc
      exact hf.row_new t c ht hlt hc
    · exact h.grown.blocks_le.trans (hf'.row_new t c (Nat.le_of_not_lt hlt) hr hc)
  · by_cases hc1 : c.index < s1.blocks.size
    · exact hf.block_once k k' c hc (hlt k c hc1 hk) (hlt k' c hc1 hk')
    · have hc1 := Nat.le_of_not_lt hc1
      exact hf'.block_once k k' c hc1 (hle k c hc1 hk) (hle k' c hc1 hk')
  · by_cases ht1 : t.index < s1.allStacks.size
    · exact hf.stack_once b i b' i' t ht (h'.slot_of_lt ht1 hb) (h'.slot_of_lt ht1 hb')
    · exact hf'.stack_once b i b' i' t (Nat.le_of_not_lt ht1) hb hb'
  · rcases mem_append.1 hc with hc | hc
    · exact hf.block_loose k c hc (hlt k c (h.loose_block c hc).2 hk)
    · exact hf'.block_loose k c hc (hle k c (h'.loose_block c hc).1 hk)
  · rcases mem_append.1 ht with ht | ht
    · rintro ⟨b, i, hb⟩
      exact hf.stack_loose t ht ⟨b, i, h'.slot_of_lt (h.loose_stack t ht).2 hb⟩
    · exact hf'.stack_loose t ht
  · -- loose ends of the two parts differ, since those of the second are new to the first
    have hcr : ∀ v, v ∈ vs → v ∈ ws → v.IsNode → False := by
      intro v hv hw hn
      cases v with
      | block c => exact absurd (h.loose_block c hv).2 (Nat.not_lt_of_le (h'.loose_block c hw).1)
      | stack t => exact absurd (h.loose_stack t hv).2 (Nat.not_lt_of_le (h'.loose_stack t hw).1)
      | _ => exact hn
    rw [getElem?_append] at hi hj
    split at hi <;> split at hj
    · exact hf.distinct i j v hi hj hv
    · exact (hcr v (mem_of_getElem? hi) (mem_of_getElem? hj) hv).elim
    · exact (hcr v (mem_of_getElem? hj) (mem_of_getElem? hi) hv).elim
    · have := hf'.distinct _ _ v hi hj hv
      omega

theorem eq_of_getElem?_singleton {i j : Nat} {v w : Value} (hi : [w][i]? = some v)
    (hj : [w][j]? = some v) : i = j := by
  have hi := (List.getElem?_eq_some_iff.1 hi).1
  have hj := (List.getElem?_eq_some_iff.1 hj).1
  simp only [length_singleton] at hi hj
  omega

/-- The loose ends find their places in the slots of a new block. -/
theorem Fresh.addBlock (h : Sprouts src s s1 vs) (hf : Fresh s s1 vs) (d : Definition) :
    Fresh s (s1.addBlock d vs).2 [.block ⟨s1.blocks.size⟩] := by
  have hhe : ∀ t, (s1.addBlock d vs).2.Held t → .stack t ∈ vs ∨ s1.Held t := by
    rintro t ⟨b, i, hb⟩
    rcases slot?_addBlock hb with ⟨-, hvs⟩ | hb
    · exact .inl (mem_of_getElem? hvs)
    · exact .inr ⟨b, i, hb⟩
  have hh : ∀ k c, (s1.addBlock d vs).2.Holds (.stack · ∈ [Value.block ⟨s1.blocks.size⟩]) k c →
      (∃ i, k = .slot ⟨s1.blocks.size⟩ i ∧ vs[i]? = some (.block c)) ∨
        s1.Holds (.stack · ∈ vs) k c := by
    intro k c hk
    cases k with
    | slot b i =>
      rcases slot?_addBlock hk with ⟨rfl, hvs⟩ | hk
      · exact .inl ⟨i, rfl, hvs⟩
      · exact .inr hk
    | place t i =>
      obtain ⟨hr | hk, hg⟩ := hk
      · simp at hr
      · exact .inr ⟨hhe t hk, hg⟩
  refine ⟨hf.row_new, fun k k' c hc hk hk' => ?_, fun b i b' i' t ht hb hb' => ?_,
    fun k c hc hk => ?_, by simp, fun i j v hi hj _ => ?_⟩
  · rcases hh k c hk with ⟨i, rfl, hi⟩ | hk <;> rcases hh k' c hk' with ⟨j, rfl, hj⟩ | hk'
    · rw [hf.distinct i j _ hi hj trivial]
    · exact (hf.block_loose k' c (mem_of_getElem? hi) hk').elim
    · exact (hf.block_loose k c (mem_of_getElem? hj) hk).elim
    · exact hf.block_once k k' c hc hk hk'
  · rcases slot?_addBlock hb with ⟨rfl, hi⟩ | hb <;> rcases slot?_addBlock hb' with ⟨rfl, hj⟩ | hb'
    · exact ⟨rfl, hf.distinct i i' _ hi hj trivial⟩
    · exact (hf.stack_loose t (mem_of_getElem? hi) ⟨b', i', hb'⟩).elim
    · exact (hf.stack_loose t (mem_of_getElem? hj) ⟨b, i, hb⟩).elim
    · exact hf.stack_once b i b' i' t ht hb hb'
  · obtain rfl : c = ⟨s1.blocks.size⟩ := by simpa using hc
    rcases hh k _ hk with ⟨i, -, hi⟩ | hk
    · exact absurd (h.loose_block _ (mem_of_getElem? hi)).2 (Nat.lt_irrefl _)
    · exact h.sound.not_holds (Nat.le_refl s1.blocks.size) hk
  · exact eq_of_getElem?_singleton hi hj

/-- Loose blocks find their places in the row of a new stack. -/
theorem Fresh.addStack (h : Sprouts src s s1 (bs.map .block)) (hf : Fresh s s1 (bs.map .block))
    (p : Option (List Value)) : Fresh s (s1.addStack bs p).2 [.stack ⟨s1.allStacks.size⟩] := by
  have hl : ∀ c, c ∈ bs → .block c ∈ bs.map Value.block := fun c hc => mem_map.2 ⟨c, hc, rfl⟩
  have hhe : ∀ t, s1.Held t → t ≠ ⟨s1.allStacks.size⟩ := by
    rintro t ⟨b, i, hb⟩
    exact mk_ne_of_lt (h.sound.stack_lt hb)
  have hh : ∀ k c,
      (s1.addStack bs p).2.Holds (.stack · ∈ [Value.stack ⟨s1.allStacks.size⟩]) k c →
      (∃ i, k = .place ⟨s1.allStacks.size⟩ i ∧ bs[i]? = some c) ∨
        s1.Holds (.stack · ∈ bs.map Value.block) k c := by
    intro k c hk
    cases k with
    | slot b i => exact .inr hk
    | place t i =>
      obtain ⟨ht | ⟨b, j, ht⟩, hg⟩ := hk
      · obtain rfl : t = ⟨s1.allStacks.size⟩ := by simpa using ht
        rw [blocksOf_addStack_self] at hg
        exact .inl ⟨i, rfl, hg⟩
      · rw [blocksOf_addStack_of_lt h.sound bs p (h.sound.stack_lt ht)] at hg
        exact .inr ⟨.inr ⟨b, j, ht⟩, hg⟩
  refine ⟨fun t c ht hr hc => ?_, fun k k' c hc hk hk' => ?_, hf.stack_once, by simp,
    fun t ht hb => ?_, fun i j v hi hj _ => ?_⟩
  · rcases mem_blocksOf_addStack h.sound.rowed hr hc with ⟨hlt, hc⟩ | hc
    · exact hf.row_new t c ht hlt hc
    · exact (h.loose_block c (hl c hc)).1
  · rcases hh k c hk with ⟨i, rfl, hi⟩ | hk <;> rcases hh k' c hk' with ⟨j, rfl, hj⟩ | hk'
    · rw [hf.distinct i j (.block c) (by simp [hi]) (by simp [hj]) trivial]
    · exact (hf.block_loose k' c (hl c (mem_of_getElem? hi)) hk').elim
    · exact (hf.block_loose k c (hl c (mem_of_getElem? hj)) hk).elim
    · exact hf.block_once k k' c hc hk hk'
  · exact hhe t hb (by simpa using ht)
  · exact eq_of_getElem?_singleton hi hj

/-! ## Names -/

/-- The live blocks and stacks are in the store and hold together, and their slots for variables hold
nothing or a name. -/
structure Tidy (s : Store) (named live : Value → Prop) : Prop where
  stack_lt : ∀ t, live (.stack t) → t.index < s.allStacks.size
  block_lt : ∀ b, live (.block b) → b.index < s.blocks.size
  row : ∀ t b, live (.stack t) → b ∈ s.blocksOf t → live (.block b)
  slot : ∀ b i v, live (.block b) → s.slot? b i = some v → v.IsNode → live v
  name : ∀ b i v, live (.block b) → s.IsName b i → s.slot? b i = some v → v = .none ∨ named v

/-- A slot for a variable holds neither a block nor a stack. -/
theorem Sound.literal_of_isName (hs : s.Sound) (hn : s.IsName b i) (hv : s.slot? b i = some v) :
    v.Literal := by
  obtain ⟨c, hc, hk⟩ := hn
  have hf := hs.fits b i c v hc hv
  cases v with
  | block x => exact absurd hk (kind_of_fits hf.2.2).2
  | stack t => cases hk.symm.trans hf.2
  | _ => exact hf

/-- A block or a stack of a store that grew, which was not there before. -/
def NewIn (s s' : Store) : Value → Prop
  | .block b => s.blocks.size ≤ b.index ∧ b.index < s'.blocks.size
  | .stack t => s.allStacks.size ≤ t.index ∧ t.index < s'.allStacks.size
  | _ => False

/-- A block or a stack of a store. -/
def Has (s : Store) : Value → Prop
  | .block b => b.index < s.blocks.size
  | .stack t => t.index < s.allStacks.size
  | _ => False

theorem Sound.tidy (hs : s.Sound) : s.Tidy (fun _ => True) s.Has where
  stack_lt _ := id
  block_lt _ := id
  row _ _ _ := hs.mem_blocksOf
  slot b i v _ hv hn := by
    cases v with
    | block c => exact hs.block_lt hv
    | stack t => exact hs.stack_lt hv
    | _ => exact hn
  name _ _ _ _ _ _ := .inr trivial

/-- The slots for variables of new blocks hold nothing or a name, and new rows show live and new blocks
only. -/
structure Brings (named live : Value → Prop) (s s' : Store) : Prop where
  name : ∀ b i v, s.blocks.size ≤ b.index → s'.IsName b i → s'.slot? b i = some v →
    v = .none ∨ named v
  row : ∀ t b, s.allStacks.size ≤ t.index → t.index < s'.allStacks.size → b ∈ s'.blocksOf t →
    live (.block b) ∨ s.blocks.size ≤ b.index

theorem Brings.refl (s : Store) : Brings named live s s where
  name _ _ _ hb _ hv := absurd (lt_of_slot? hv) (Nat.not_lt_of_le hb)
  row _ _ ht hlt := absurd hlt (Nat.not_lt_of_le ht)

theorem Brings.trans (h : Brings named live s s') (hg : Grown s s') (hs' : s'.Sound)
    (h' : Brings named live s' s'') (hg' : Grown s' s'') : Brings named live s s'' where
  name b i v hb hn hv := by
    by_cases hlt : b.index < s'.blocks.size
    · rw [IsName, hg'.definition_eq b hlt] at hn
      exact h.name b i v hb hn ((hg'.slot?_eq hlt i).symm.trans hv)
    · exact h'.name b i v (Nat.le_of_not_lt hlt) hn hv
  row t b ht hlt hb := by
    by_cases hold : t.index < s'.allStacks.size
    · rw [hg'.blocksOf_eq hs' hold] at hb
      exact h.row t b ht hold hb
    · exact (h'.row t b (Nat.le_of_not_lt hold) hlt hb).imp_right hg.blocks_le.trans

theorem Brings.addBlock (h : Brings named live s s')
    (hvs : ∀ (i : Nat) c v, d.inputs[i]? = some c → c.kind = .varName → vs[i]? = some v →
      v = .none ∨ named v) : Brings named live s (s'.addBlock d vs).2 where
  name b i v hb hn hv := by
    rcases slot?_addBlock hv with ⟨rfl, hi⟩ | hv
    · obtain ⟨c, hc, hk⟩ := hn
      rw [definitionOf, block_addBlock_self] at hc
      exact hvs i c v hc hk hi
    · rw [IsName, (grown_addBlock s' d vs).definition_eq b (lt_of_slot? hv)] at hn
      exact h.name b i v hb hn hv
  row := h.row

theorem Brings.addStack (h : Brings named live s s') (hs' : s'.Sound) {bs : List BlockId}
    (hbs : ∀ b ∈ bs, live (.block b) ∨ s.blocks.size ≤ b.index) (p : Option (List Value)) :
    Brings named live s (s'.addStack bs p).2 where
  name := h.name
  row t b ht hlt hb := by
    rcases mem_blocksOf_addStack hs'.rowed hlt hb with ⟨hold, hb⟩ | hb
    · exact h.row t b ht hold hb
    · exact hbs b hb

end Store

end BlockStudio
