import BlockStudio.Proofs.Glance
import BlockStudio.Proofs.Reckoning

/-!
# What lasts in the store

Almost every step of the editor takes the store only to one in which places, rectangles of slots and the
order of bodies last: each change of a row, a slot or a place does, and so do copying and drawing.
-/

namespace BlockStudio

open Layout Store List

variable {t u : StackId} {b : BlockId} {d : Definition} {vs : List Value} {layers : List Layer}
  {c c' : Canvas} {nested : BlockId → Sketch Size} {body : Option StackId → Sketch Size}
  {color : Paint}

namespace Store

variable {s s' s'' : Store}

instance : IsPreorder Canvas fun c c' => c.store.Lasts c'.store where
  refl c := .refl c.store
  trans _ _ _ := .trans

theorem lasts_editRow (s : Store) (t : StackId) (f : List BlockId → List BlockId) :
    Lasts s (s.editRow t f) :=
  lasts_of_parts ⟨le_rfl, fun _ _ => rfl⟩ (fun _ _ => rfl) (fun _ => id) fun _ _ _ _ _ _ _ hv => .inl hv

theorem position_replaceRow (t u : StackId) (bs : List BlockId) :
    ((s.replaceRow t bs).stack u).position = (s.stack u).position := by
  simp only [replaceRow, modifyStack, stack, Array.getD_eq_getD_getElem?, Array.getElem?_modify]
  split
  · cases s.allStacks[u.index]? <;> rfl
  · rfl

theorem lasts_replaceRow (s : Store) (t : StackId) (bs : List BlockId) : Lasts s (s.replaceRow t bs) :=
  lasts_of_parts ⟨le_rfl, fun _ _ => rfl⟩ (fun _ _ => rfl)
    (fun u hu => located_of_position_eq hu (position_replaceRow t u bs)) fun _ _ _ _ _ _ _ hv => .inl hv

theorem position_setPosition_self (ht : t.index < s.allStacks.size) (p : Option (List Value)) :
    ((s.setPosition t p).stack t).position = p := by
  simp only [setPosition, modifyStack, stack, Array.getD_eq_getD_getElem?, Array.getElem?_modify,
    if_true, Array.getElem?_eq_getElem ht]
  rfl

theorem stack_setPosition_of_ne (h : u ≠ t) (p : Option (List Value)) :
    (s.setPosition t p).stack u = s.stack u := by
  have hne : t.index ≠ u.index := fun heq => h (StackId.eq_mk heq.symm)
  simp [setPosition, modifyStack, stack, Array.getD_eq_getD_getElem?, Array.getElem?_modify, hne]

/-- A stack that is put at a point has a place. -/
theorem located_setPosition_self (ht : t.index < s.allStacks.size) (p : Point) :
    (s.setPosition t p.asPosition).Located t :=
  ⟨p.x, p.y, position_setPosition_self ht _⟩

theorem located_setPosition (p : Point) (h : s.Located u) :
    (s.setPosition t p.asPosition).Located u := by
  by_cases hu : u = t
  · subst hu
    exact located_setPosition_self h.lt p
  · rw [Located, stack_setPosition_of_ne hu]
    exact h

theorem lasts_setPosition (s : Store) (t : StackId) (p : Point) :
    Lasts s (s.setPosition t p.asPosition) :=
  lasts_of_parts ⟨le_rfl, fun _ _ => rfl⟩ (fun _ _ => rfl) (fun _ => located_setPosition p)
    fun _ _ _ _ _ _ _ hv => .inl hv

theorem slots_setValue (s : Store) (b c : BlockId) (i : Nat) (v : Value) :
    ((s.setValue b i v).block c).slots = (s.block c).slots := by
  by_cases hc : c = b
  · rw [hc, block_setValue_self]
  · rw [block_setValue_of_ne s i v hc]

/-- A value is put into a slot that is not for bodies, or one that may stand there. -/
theorem lasts_setValue {i : Nat} {v : Value}
    (hv : s.Housed → ∀ c, (s.definitionOf b).inputs[i]? = some c → c.kind = .statement → s.Houses v) :
    Lasts s (s.setValue b i v) := by
  refine lasts_of_parts (stays_setValue ..) (fun x _ => slots_setValue s b x i v)
    (fun _ => id) fun hs x j c w hc hk hw => ?_
  rcases slot?_setValue hw with ⟨rfl, rfl, rfl⟩ | ⟨-, hold⟩
  · rw [definitionOf_setValue] at hc
    exact .inr (hv hs c hc hk)
  · exact .inl hold

/-- An unfilled block is made. -/
theorem lasts_addUnfilled (s : Store) (d : Definition) (n : Nat) :
    Lasts s (s.addBlock d (List.replicate n .none)).2 := by
  refine (Lasts.refl s).addBlock fun _ i c v _ _ hv => .inl ?_
  exact (mem_replicate.1 (mem_of_getElem? hv)).2

/-- What the copy of a value holds for a slot for a body. -/
def CopiesHouse (s s' : Store) (v w : Value) : Prop := s.Houses v → s'.Houses w

theorem copiesHouse_stack (s : Store) (t : StackId) :
    CopiesHouse s (s.copyStack t).2 (.stack t) (.stack (s.copyStack t).1) := by
  rintro (h | ⟨u, hu, hl⟩)
  · cases h
  · cases hu
    refine .inr ⟨_, rfl, located_of_position_eq hl ?_⟩
    exact (congrArg Stack.position (stack_addStack_self s (s.blocksOf t) (s.stack t).position) :)

/-- Copies of values can stand where the values stood. -/
theorem lasts_copyValues {copy : Store → BlockId → BlockId × Store}
    (hc : ∀ s b, Lasts s (copy s b).2) (vs : List Value) (s : Store) :
    Lasts s (copyValues copy s vs).2 ∧
      List.Forall₂ (CopiesHouse s (copyValues copy s vs).2) vs (copyValues copy s vs).1 := by
  induction vs generalizing s with
  | nil => exact ⟨.refl s, .nil⟩
  | cons v vs ih =>
    have hr : ∀ {s1 : Store}, Lasts s s1 →
        List.Forall₂ (CopiesHouse s (copyValues copy s1 vs).2) vs (copyValues copy s1 vs).1 :=
      fun hl => (ih _).2.imp fun _ _ h hv => h (hv.mono hl)
    cases v with
    | block b =>
      have hb := hc s b
      refine ⟨hb.trans (ih _).1, .cons ?_ (hr hb)⟩
      rintro (h | ⟨t, h, -⟩) <;> cases h
    | stack t =>
      have ht : Lasts s (s.copyStack t).2 := lasts_addStack ..
      exact ⟨ht.trans (ih _).1, .cons (fun h => (copiesHouse_stack s t h).mono (ih _).1) (hr ht)⟩
    | _ => exact ⟨(ih s).1, .cons (fun h => h.mono (ih s).1) (ih s).2⟩

theorem lasts_copyBlock (s : Store) (b : BlockId) : Lasts s (s.copyBlock b).2 := by
  have hto : ∀ (n : Nat) (s : Store) (b : BlockId), Lasts s (copyBlockTo n s b).2 := by
    intro n
    induction n with
    | zero => exact fun s _ => .refl s
    | succ n ih =>
      intro s b
      obtain ⟨hl, hva⟩ := lasts_copyValues ih (s.block b).values s
      -- the values that stand in slots for bodies may stand there in the copy
      refine hl.addBlock fun hs i c v hc hk hv => ?_
      obtain ⟨hi, rfl⟩ := List.getElem?_eq_some_iff.1 hv
      have hi' : i < (s.block b).values.length := by rwa [hva.length_eq]
      exact hva.get hi' hi (hs b i c _ hc hk (getElem?_eq_getElem hi'))
  exact hto s.depth s b

end Store

/-! ## Drawing -/

namespace Layout

/-- How many slots there are among layers. -/
def countSlots (layers : List Layer) : Nat := layers.flatten.countP (·.isInput)

theorem map_part_placeLayer (y : Rat) (height : Nat) (x : Rat) (l : Layer) :
    (placeLayer y height x l).map Placed.part = l := by
  induction l generalizing x with
  | nil => rfl
  | cons p l ih => rw [placeLayer, map_cons, ih]

theorem map_part_placeLayers (left y : Rat) (layers : List Layer) :
    (placeLayers left y layers).map Placed.part = layers.flatten := by
  induction layers generalizing y with
  | nil => rfl
  | cons l layers ih => rw [placeLayers, map_append, map_part_placeLayer, ih, flatten_cons]

theorem length_slotRects (d : Definition) (height : Nat) (left y : Rat) (layers : List Layer) :
    (slotRects d height (placeLayers left y layers)).length = countSlots layers := by
  rw [slotRects, length_map, ← countP_eq_length_filter, countSlots,
    ← map_part_placeLayers left y, countP_map]
  rfl

theorem countSlots_flush (current : Layer) :
    countSlots (flush current) = current.countP (·.isInput) := by
  unfold flush
  split
  case isTrue h => rw [isEmpty_iff.1 h]; rfl
  case isFalse => simp [countSlots]

/-- Each component that is no label becomes a slot. -/
theorem countSlots_drawLayers {cs : List Component} {current : Layer}
    (h : drawLayers nested body color cs vs current c = .ok layers c') :
    countSlots layers = current.countP (·.isInput) +
      (cs.filter fun c => decide (c.kind ≠ .label)).length := by
  induction cs generalizing vs current layers c c' with
  | nil =>
    obtain ⟨rfl, -⟩ := pure_eq_ok.1 h
    exact countSlots_flush current
  | cons comp cs ih =>
    have hs : comp.kind ≠ .label → ∀ {m : Sketch Size} {vs : List Value}, (do
          let s ← m
          drawLayers nested body color cs vs (current ++ [⟨s, true⟩]) : Sketch (List Layer)) c =
          .ok layers c' →
        countSlots layers = current.countP (·.isInput) +
          ((comp :: cs).filter fun c => decide (c.kind ≠ .label)).length := by
      intro hl m vs h
      obtain ⟨s, c1, -, h⟩ := bind_eq_ok.1 h
      rw [ih h, filter_cons_of_pos (by simpa using hl), countP_append]
      simp only [countP_singleton, length_cons, if_true]
      omega
    unfold drawLayers at h
    by_cases hl : comp.kind = .label
    · simp only [hl] at h
      obtain ⟨s, c1, -, h⟩ := bind_eq_ok.1 h
      rw [ih h, filter_cons_of_neg (by simpa using hl), countP_append]
      rfl
    cases vs with
    | nil => cases hk : comp.kind <;> simp only [hk] at h <;> contradiction
    | cons v vs =>
      by_cases hb : comp.kind = .statement
      · simp only [hb] at h
        obtain ⟨_, c1, -, h⟩ := bind_eq_ok.1 h
        obtain ⟨_, c2, -, h⟩ := bind_eq_ok.1 h
        obtain ⟨_, c3, -, h⟩ := bind_eq_ok.1 h
        obtain ⟨s, c4, -, h⟩ := bind_eq_ok.1 h
        obtain ⟨below, c5, hbe, h⟩ := bind_eq_ok.1 h
        obtain ⟨rfl, -⟩ := pure_eq_ok.1 h
        have hr := ih hbe
        have hf := countSlots_flush current
        rw [filter_cons_of_pos (by simp [hb])]
        simp only [countSlots, flatten_append, flatten_cons, countP_append,
          countP_nil, countP_cons, length_cons] at hr hf ⊢
        simp only [hr, hf, if_true]
        omega
      · cases hk : comp.kind <;> simp only [hk] at h <;>
          first | contradiction | exact hs hl h

end Layout

/-- A drawn block has a rectangle for each slot. -/
theorem length_slotRects_of_drawn
    (h : drawLayers nested body color d.components vs [] c = .ok layers c') (height : Nat)
    (left y : Rat) : (slotRects d height (placeLayers left y layers)).length = d.countInputs := by
  rw [length_slotRects, countSlots_drawLayers h]
  simp [Definition.countInputs, Definition.inputs]

section Drawing

/-- A step that draws takes the store only to one in which things last. -/
abbrev Preserves {α : Type} (m : Sketch α) : Prop :=
  Keeps (fun c c' : Canvas => c.store.Lasts c'.store) m

theorem Strokes.preserves {α : Type} {m : Sketch α} (h : Strokes m) : Preserves m :=
  h.mono fun c _ h => h.1 ▸ .refl c.store

variable {f : Block → Block}

/-- Places of blocks and slots are remembered, with a rectangle for each slot. -/
theorem Store.lasts_modifyBlock {s : Store} (hf : ∀ x, (f x).bare = x.bare)
    (hsl : (f (s.block b)).slots.length = (s.definitionOf b).countInputs ∨
      (f (s.block b)).slots = (s.block b).slots) : s.Lasts (s.modifyBlock b f) := by
  have hb : (s.modifyBlock b f).bare = s.bare := s.bare_modifyBlock b hf
  have hg := grown_of_bare_eq (s := s) hb
  refine ⟨hg.toStays, fun _ => id, fun x hx hsk => ?_, fun hs x i c v hc hk hv => ?_⟩
  · by_cases hxb : x = b
    · subst hxb
      rw [Sketched, hg.definition_eq x hx, block_modifyBlock_self s hx]
      rcases hsl with hl | hsa
      · exact hl
      · rw [hsa]
        exact hsk
    · rw [Sketched, definitionOf, block_modifyBlock_of_ne s f hxb]
      exact hsk
  · have hlt : x.index < s.blocks.size := by
      have := lt_of_slot? hv
      simpa [modifyBlock] using this
    rw [hg.definition_eq x hlt] at hc
    rw [hg.slot?_eq hlt] at hv
    exact hs x i c v hc hk hv

/-- Things last, for a store in which a block has a given definition. -/
def LastsIn (b : BlockId) (d : Definition) (c c' : Canvas) : Prop :=
  c.store.definitionOf b = d → c'.store.definitionOf b = d ∧ c.store.Lasts c'.store

instance (b : BlockId) (d : Definition) : IsPreorder Canvas (LastsIn b d) where
  refl c h := ⟨h, .refl c.store⟩
  trans _ _ _ h h' hd := ⟨(h' (h hd).1).1, (h hd).2.trans (h' (h hd).1).2⟩

theorem lastsIn_of_same (h : c.Adds c') : LastsIn b d c c' := by
  intro hd
  rw [h.1]
  exact ⟨hd, .refl _⟩

theorem lastsIn_modifyBlock (hf : ∀ x, (f x).bare = x.bare)
    (hs : ∀ x, (f x).slots.length = d.countInputs ∨ (f x).slots = x.slots) :
    Keeps (LastsIn b d) (Sketch.modifyStore (·.modifyBlock b f)) := by
  refine .modify fun c hd => ⟨?_, lasts_modifyBlock hf ?_⟩
  · have hb := c.store.bare_modifyBlock b hf
    rw [← hd, ← definitionOf_bare, hb, definitionOf_bare]
  · rw [hd]
    exact hs _

theorem lasts_of_same (h : c.Adds c') : c.store.Lasts c'.store := h.1 ▸ .refl c.store

/-- Drawing a block or a stack, to any depth. -/
theorem preserves_drawTo (fuel : Nat) : DrawsTo (fun c c' => c.store.Lasts c'.store) fuel := by
  refine drawsTo (fun _ _ => lasts_of_same) (fun b rect => .modify fun c => ?_) ?_ fuel
  · exact lasts_modifyBlock (fun _ => rfl) (.inr rfl)
  intro fuel b ih
  refine ⟨fun c => ?_⟩
  unfold drawBlockTo
  rw [get_bind]
  refine run_bind (R := fun c c' : Canvas => c.store.Lasts c'.store)
    (ih.layers.run c) fun layers c1 hdr _ => ?_
  have hd : c1.store.definitionOf b = (c.store.block b).definition := by
    have hde : c1.store.undrawn = c.store.undrawn := (depicts_drawTo fuel).layers.ok hdr
    rw [← definitionOf_bare, ← bare_undrawn, hde, bare_undrawn, definitionOf_bare, definitionOf]
  have hr : Keeps (LastsIn b (c.store.block b).definition) (do
      let s ← assemble (c.store.block b).definition layers fun slots =>
        Sketch.modifyStore (·.modifyBlock b fun x => { x with slots })
      Sketch.modifyStore (·.modifyBlock b fun x => { x with rect := ⟨0, 0, s.w, s.h⟩ })
      return s) := by
    refine .bind (keeps_assemble (fun _ _ => lastsIn_of_same) _ _ ?_) fun s => ?_
    · exact lastsIn_modifyBlock (fun _ => rfl) fun _ => .inl (length_slotRects_of_drawn hdr ..)
    · exact .bind (lastsIn_modifyBlock (fun _ => rfl) fun _ => .inr rfl) fun _ => .pure _
  exact (hr.run c1 hd).2

theorem preserves_stack (t : StackId) : Preserves (Sketch.stack t) :=
  .bind .get fun _ => (preserves_drawTo _).stack t

end Drawing

end BlockStudio
