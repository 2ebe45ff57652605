import BlockStudio.Proofs.SoundStore

/-!
# Places of stacks

Three things that the editor relies on are never lost, once they hold.  A stack that has a place goes
on having one.  A block whose slots were drawn has a rectangle for each slot.  And a slot for a body
holds nothing or a stack that has a place, though other slots can hold other values.
`Store.Lasts` says this of two stores.
-/

namespace BlockStudio

namespace Store

variable {s s' s'' : Store} {t : StackId} {d : Definition} {vs : List Value}

/-- A stack has a place: two numbers. -/
def Located (s : Store) (t : StackId) : Prop := ∃ x y, (s.stack t).position = some [.num x, .num y]

theorem located_of_position_eq {t' : StackId} (h : s.Located t)
    (heq : (s'.stack t').position = (s.stack t).position) : s'.Located t' := by
  obtain ⟨x, y, hxy⟩ := h
  exact ⟨x, y, heq.trans hxy⟩

/-- Each slot of a block has a rectangle. -/
def Sketched (s : Store) (b : BlockId) : Prop :=
  (s.block b).slots.length = (s.definitionOf b).countInputs

/-- What may stand in a slot for a body: nothing, or a stack that has a place. -/
def Houses (s : Store) (v : Value) : Prop := v = .none ∨ ∃ t, v = .stack t ∧ s.Located t

/-- Slots for bodies hold nothing or stacks that have places. -/
def Housed (s : Store) : Prop :=
  ∀ b i c v, (s.definitionOf b).inputs[i]? = some c → c.kind = .statement → s.slot? b i = some v →
    s.Houses v

/-- The stack of a body has a place. -/
theorem Housed.located (h : s.Housed) (hs : s.Sound) {b : BlockId} {i : Nat}
    (hsl : s.slot? b i = some (.stack t)) : s.Located t := by
  obtain ⟨c, hc, -, hk⟩ := hs.fits_slot? hsl
  obtain hn | ⟨u, hu, hl⟩ := h b i c _ hc hk hsl
  · cases hn
  · cases hu
    exact hl

/-- Places, rectangles of slots and the order of bodies last. -/
structure Lasts (s s' : Store) : Prop extends Stays s s' where
  located : ∀ t, s.Located t → s'.Located t
  sketched : ∀ b : BlockId, b.index < s.blocks.size → s.Sketched b → s'.Sketched b
  housed : s.Housed → s'.Housed

theorem Lasts.refl (s : Store) : Lasts s s := ⟨.refl s, fun _ => id, fun _ _ => id, id⟩

theorem Lasts.trans (h : Lasts s s') (h' : Lasts s' s'') : Lasts s s'' where
  toStays := h.toStays.trans h'.toStays
  located t ht := h'.located t (h.located t ht)
  sketched b hb hsk := h'.sketched b (hb.trans_le h.blocks_le) (h.sketched b hb hsk)
  housed hs := h'.housed (h.housed hs)

theorem Houses.mono (h : Lasts s s') {v : Value} (hv : s.Houses v) : s'.Houses v := by
  rcases hv with rfl | ⟨t, rfl, ht⟩
  · exact .inl rfl
  · exact .inr ⟨t, rfl, h.located t ht⟩

/-- A stack that has a place is in the store. -/
theorem Located.lt (h : s.Located t) : t.index < s.allStacks.size := by
  by_contra hlt
  have hd : s.stack t = default := by
    rw [stack, Array.getD_eq_getD_getElem?, Array.getElem?_eq_none (Nat.le_of_not_lt hlt)]
    rfl
  obtain ⟨x, y, hxy⟩ := h
  rw [hd] at hxy
  cases hxy

/-- A step that leaves old blocks as they are and old stacks where they are. -/
theorem lasts_of_parts (hst : s.Stays s')
    (hsl : ∀ b : BlockId, b.index < s.blocks.size → (s'.block b).slots = (s.block b).slots)
    (hl : ∀ t, s.Located t → s'.Located t)
    (hso : s.Housed → ∀ b i c v, (s'.definitionOf b).inputs[i]? = some c → c.kind = .statement →
      s'.slot? b i = some v → s.slot? b i = some v ∨ s'.Houses v) : Lasts s s' where
  toStays := hst
  located := hl
  sketched b hb hsk := by
    rw [Sketched, hsl b hb, hst.definition_eq b hb]
    exact hsk
  housed hs b i c v hc hk hv := by
    rcases hso hs b i c v hc hk hv with hold | hh
    · rw [hst.definition_eq b (lt_of_slot? hold)] at hc
      rcases hs b i c v hc hk hold with rfl | ⟨t, rfl, ht⟩
      · exact .inl rfl
      · exact .inr ⟨t, rfl, hl t ht⟩
    · exact hh

theorem located_addStack (bs : List BlockId) (p : Option (List Value)) (h : s.Located t) :
    (s.addStack bs p).2.Located t := by
  rw [Located, stack_addStack_of_lt s bs p h.lt]
  exact h

theorem lasts_addStack (s : Store) (bs : List BlockId) (p : Option (List Value)) :
    Lasts s (s.addStack bs p).2 :=
  lasts_of_parts (grown_addStack s bs p).toStays (fun _ _ => rfl) (fun _ => located_addStack bs p)
    fun _ _ _ _ _ _ _ hv => .inl hv

/-- A new block whose values may stand in its slots for bodies. -/
theorem Lasts.addBlock (h : Lasts s s')
    (hvs : s.Housed → ∀ (i : Nat) c v, d.inputs[i]? = some c → c.kind = .statement →
      vs[i]? = some v → s'.Houses v) : Lasts s (s'.addBlock d vs).2 := by
  have hg := grown_addBlock s' d vs
  have ha : ∀ b : BlockId, b.index < s'.blocks.size → (s'.addBlock d vs).2.block b = s'.block b :=
    fun b hb => block_addBlock_of_lt s' d vs hb
  refine ⟨h.toStays.trans hg.toStays, h.located, fun b hb hsk => ?_,
    fun hs b i c v hc hk hv => ?_⟩
  · rw [Sketched, definitionOf, ha b (hb.trans_le h.blocks_le)]
    exact h.sketched b hb hsk
  · rcases slot?_addBlock hv with ⟨rfl, hi⟩ | hold
    · rw [definitionOf, block_addBlock_self] at hc
      exact hvs hs i c v hc hk hi
    · rw [hg.definition_eq b (lt_of_slot? hold)] at hc
      exact h.housed hs b i c v hc hk hold

end Store

end BlockStudio
