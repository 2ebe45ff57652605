import BlockStudio.Proofs.Sprout

/-!
# Copies of blocks

A copy of a block sprouts from the store with the definition of the original.  The blocks in its
slots are copied to any depth; its bodies are new stacks that show the very blocks of the original's
bodies.  So the copy is fresh exactly when the original's bodies are empty.
-/

namespace BlockStudio

open List

variable {c : Component} {b : BlockId} {v v' : Value} {vs vs' : List Value} {t : StackId}

/-- Reporters have no bodies. -/
theorem kind_ne_statement_of_reporter {d : Definition} (hd : d ∈ Catalogue.blocks)
    (hr : d.blockType = .reporter) (hc : c ∈ d.inputs) : c.kind ≠ .statement := by
  have h : ∀ d ∈ Catalogue.blocks, d.blockType = .reporter →
      d.inputs.all (fun c => decide (c.kind ≠ .statement)) = true := by
    decide +kernel
  exact of_decide_eq_true (all_eq_true.1 (h d hd hr) c hc)

namespace Store

variable {src s s1 : Store} {named live : Value → Prop}

/-! ## Depth -/

/-- Blocks in the slots of a block are nested to less than a depth. -/
def NestedWithin (s : Store) : Nat → BlockId → Prop
  | 0, _ => False
  | n + 1, b => ∀ i c, s.slot? b i = some (.block c) → s.NestedWithin n c

theorem nestedWithin_of_rank {rank : BlockId → Nat}
    (hr : ∀ b i c, s.slot? b i = some (.block c) → rank c < rank b) {n : Nat} (hb : rank b < n) :
    s.NestedWithin n b := by
  induction n generalizing b with
  | zero => exact absurd hb (Nat.not_lt_zero _)
  | succ n ih => exact fun i c hc => ih ((hr b i c hc).trans_le (Nat.le_of_lt_succ hb))

theorem Sound.nestedWithin (hs : s.Sound) (hb : b.index < s.blocks.size) :
    s.NestedWithin s.depth b := by
  obtain ⟨rank, hlt, hd⟩ := hs.ranked
  refine nestedWithin_of_rank hd ((hlt b hb).trans_le ?_)
  unfold depth
  omega

/-! ## Copies -/

/-- A block has a body that is not empty. -/
def HasBody (s : Store) (b : BlockId) : Prop :=
  ∃ i t, s.slot? b i = some (.stack t) ∧ s.blocksOf t ≠ []

theorem Sound.not_hasBody (hs : s.Sound) (hr : (s.definitionOf b).blockType = .reporter) :
    ¬s.HasBody b := by
  rintro ⟨i, t, ht, -⟩
  obtain ⟨c, hc, -, hk⟩ := hs.fits_slot? ht
  exact kind_ne_statement_of_reporter (hs.known b (lt_of_slot? ht)) hr (mem_of_getElem? hc) hk

/-! ## Blocks that are made again -/

/-- What reading the saved form of a value can give. -/
def ReadAs (src s : Store) : Value → Value → Prop
  | .block b, v => v = .none ∨ ∃ b', v = .block b' ∧ s.definitionOf b' = src.definitionOf b
  | .stack t, v => v = .none ∨ ∃ t', v = .stack t' ∧ s.types t' = src.types t
  | u, v => v = u

theorem ReadAs.fits (hs : Sprouts src s s1 vs) (hv' : v' ∈ vs) (h : ReadAs src s1 v v')
    (hf : src.Fits c v) : s1.Fits c v' := by
  cases v with
  | block b =>
    obtain rfl | ⟨b', rfl, hb'⟩ := h
    · exact fits_of_literal (v := .none) trivial c
    · rw [Fits, hb']
      exact ⟨(hs.loose_block b' hv').2, hf.2⟩
  | stack t =>
    obtain rfl | ⟨t', rfl, -⟩ := h
    · exact fits_of_literal (v := .none) trivial c
    · exact ⟨(hs.loose_stack t' hv').2, hf.2⟩
  | _ =>
    obtain rfl := h
    exact hf

theorem ReadAs.likeBody (h : ReadAs src s1 v (.stack t)) {i : Nat} (hv : src.slot? b i = some v) :
    LikeBody src s1 t := by
  cases v with
  | stack u =>
    obtain h | ⟨_, ht, hty⟩ := h
    · cases h
    · cases ht
      exact ⟨u, ⟨b, i, hv⟩, hty⟩
  | block c =>
    obtain h | ⟨_, ht, _⟩ := h
    · cases h
    · cases ht
  | _ => cases h

theorem ReadAs.eq_of_literal (h : ReadAs src s1 v v') (hv : v.Literal) : v' = v := by
  cases v <;> first | exact h | exact hv.elim

/-- Values that were made again for the slots of a block make a block. -/
theorem Sprouts.remake {brought : Value → Prop} (hs : src.Sound) (hti : src.Tidy named live)
    (hb : live (.block b)) (h : Sprouts src s s1 vs) (hbr : Brings named brought s s1)
    (hl : vs.length = (src.block b).values.length)
    (hba : ∀ (i : Nat) v', vs[i]? = some v' → ∃ v, src.slot? b i = some v ∧ ReadAs src s1 v v') :
    Sprouts src s (s1.addBlock (src.definitionOf b) vs).2 [.block ⟨s1.blocks.size⟩] ∧
      Brings named brought s (s1.addBlock (src.definitionOf b) vs).2 := by
  have hlt := hti.block_lt b hb
  refine ⟨h.addBlock (hs.known b hlt) ?_ (fun i c v' hc hv' => ?_) fun t ht => ?_,
    hbr.addBlock fun i c v' hc hk hv' => ?_⟩
  · rw [hl, hs.length_values b hlt]
  · obtain ⟨v, hv, hr⟩ := hba i v' hv'
    exact hr.fits h (mem_of_getElem? hv') (hs.fits b i c v hc hv)
  · obtain ⟨i, hi⟩ := getElem?_of_mem ht
    obtain ⟨v, hv, hr⟩ := hba i _ hi
    exact hr.likeBody hv
  · -- a slot for a variable holds a literal, which stays as it is
    obtain ⟨v, hv, hr⟩ := hba i v' hv'
    rw [hr.eq_of_literal (hs.literal_of_isName ⟨c, hc, hk⟩ hv)]
    exact hti.name b i v hb ⟨c, hc, hk⟩ hv

/-! ## What copying does -/

/-- `v'` is in the store `s` what copying makes of `v` in the store `src`. -/
def CopyOf (src s : Store) : Value → Value → Prop
  | .block b, v' => ∃ b', v' = .block b' ∧ s.definitionOf b' = src.definitionOf b
  | .stack t, v' => ∃ t', v' = .stack t' ∧ s.blocksOf t' = src.blocksOf t
  | v, v' => v' = v

/-- What copying a block does. -/
structure CopiesBlock (src s s1 : Store) (b b' : BlockId) : Prop where
  sprouts : Sprouts src s s1 [.block b']
  definition_eq : s1.definitionOf b' = src.definitionOf b
  slots : ∀ i v, src.slot? b i = some v → ∃ v', s1.slot? b' i = some v' ∧ CopyOf src s1 v v'
  fresh : ¬src.HasBody b → Fresh s s1 [.block b']

/-- What copying live values does. -/
structure CopiesValues (named live : Value → Prop) (src s s1 : Store) (vs vs' : List Value) : Prop where
  sprouts : Sprouts src s s1 vs'
  brings : Brings named live s s1
  length_eq : vs'.length = vs.length
  copy : ∀ (i : Nat) v, vs[i]? = some v → ∃ v', vs'[i]? = some v' ∧ CopyOf src s1 v v'
  fresh : (∀ t, .stack t ∈ vs → src.blocksOf t = []) → Fresh s s1 vs'

theorem CopyOf.grown {s2 : Store} (h : Grown s1 s2) (hs : s1.Sound)
    (hb : ∀ c, v' = .block c → c.index < s1.blocks.size)
    (hst : ∀ t, v' = .stack t → t.index < s1.allStacks.size) (hv : CopyOf src s1 v v') :
    CopyOf src s2 v v' := by
  cases v with
  | block b =>
    obtain ⟨b', rfl, hb'⟩ := hv
    exact ⟨b', rfl, (h.definition_eq b' (hb b' rfl)).trans hb'⟩
  | stack t =>
    obtain ⟨t', rfl, ht'⟩ := hv
    exact ⟨t', rfl, (h.blocksOf_eq hs (hst t' rfl)).trans ht'⟩
  | _ => exact hv

theorem CopyOf.readAs (hs : src.Sound) (hg : Grown src s) (h : CopyOf src s v v') :
    ReadAs src s v v' := by
  cases v with
  | block b => exact .inr h
  | stack t =>
    obtain ⟨t', rfl, hr⟩ := h
    refine .inr ⟨t', rfl, ?_⟩
    rw [types, hr, types]
    apply map_congr_left
    intro c hc
    rw [hg.definition_eq c (hs.mem_blocksOf hc)]
  | _ => exact h

theorem CopiesValues.cons {s2 : Store} (hv : Sprouts src s s1 [v']) (hb : Brings named live s s1)
    (hco : CopyOf src s1 v v') (hfr : (∀ t, v = .stack t → src.blocksOf t = []) → Fresh s s1 [v'])
    (h : CopiesValues named live src s1 s2 vs vs') :
    CopiesValues named live src s s2 (v :: vs) (v' :: vs') where
  sprouts := hv.append h.sprouts
  brings := hb.trans hv.grown hv.sound h.brings h.sprouts.grown
  length_eq := by simp [h.length_eq]
  copy i w hw := by
    cases i with
    | zero =>
      obtain rfl : v = w := by simpa using hw
      refine ⟨v', rfl, hco.grown h.sprouts.grown hv.sound (fun c hc => ?_) fun t ht => ?_⟩
      · exact (hv.loose_block c (by simp [hc])).2
      · exact (hv.loose_stack t (by simp [ht])).2
    | succ i => exact h.copy i w hw
  fresh he := by
    have hr := h.fresh fun t ht => he t (mem_cons_of_mem _ ht)
    have hf := hfr fun t ht => he t (by simp [ht])
    exact hf.append hv h.sprouts hr

/-- A new stack of the blocks of a body. -/
theorem copiesStack (hs : s.Sound) (hsr : src.Sound) (hg : Grown src s)
    (ht : t.index < src.allStacks.size) :
    Sprouts src s (s.copyStack t).2 [.stack (s.copyStack t).1] ∧
      CopyOf src (s.copyStack t).2 (.stack t) (.stack (s.copyStack t).1) ∧
      (src.blocksOf t = [] → Fresh s (s.copyStack t).2 [.stack (s.copyStack t).1]) := by
  have hr : s.blocksOf t = src.blocksOf t := hg.blocksOf_eq hsr ht
  have hn : Sprouts src s s [] := .self src hs
  refine ⟨hn.addStack _ fun b hb => hs.mem_blocksOf hb, ⟨_, rfl, ?_⟩, fun he => ?_⟩
  · rw [← hr]
    exact blocksOf_addStack_self s _ _
  · unfold copyStack
    rw [hr, he]
    have hn' : Sprouts src s s (([] : List BlockId).map .block) := hn
    exact Fresh.addStack hn' (.of_literals hs (by simp)) _

theorem brings_copyStack (hsr : src.Sound) (hti : src.Tidy named live) (ht : live (.stack t))
    (hs : s.Sound) (hg : Grown src s) : Brings named live s (s.copyStack t).2 := by
  refine (Brings.refl s).addStack hs (fun b hb => .inl (hti.row t b ht ?_)) _
  rwa [hg.blocksOf_eq hsr (hti.stack_lt t ht)] at hb

theorem copiesValues_of_copiesBlock {copy : Store → BlockId → BlockId × Store} (hsr : src.Sound)
    (hti : src.Tidy named live) (hli : ∀ v ∈ vs, v.IsNode → live v)
    (hbl : ∀ b, .block b ∈ vs → ¬src.HasBody b) (hlt : ∀ v ∈ vs, v.IsNode ∨ v.Literal)
    (hc : ∀ s b, s.Sound → Grown src s → .block b ∈ vs →
      CopiesBlock src s (copy s b).2 b (copy s b).1 ∧ Brings named live s (copy s b).2)
    (s : Store) (hs : s.Sound) (hgr : Grown src s) :
    CopiesValues named live src s (copyValues copy s vs).2 vs (copyValues copy s vs).1 := by
  induction vs generalizing s with
  | nil => exact ⟨.of_literals hs (by simp [copyValues]), .refl s, rfl, by simp, fun _ =>
      .of_literals hs (by simp [copyValues])⟩
  | cons v vs ih =>
    have ih := ih (fun w hw => hli w (mem_cons_of_mem _ hw))
      (fun b hb => hbl b (mem_cons_of_mem _ hb))
      (fun w hw => hlt w (mem_cons_of_mem _ hw))
      (fun s b hs hg hb => hc s b hs hg (mem_cons_of_mem _ hb))
    have hl : v.Literal → CopyOf src s v v →
        CopiesValues named live src s (copyValues copy s vs).2 (v :: vs)
          (v :: (copyValues copy s vs).1) := by
      intro hv hc
      have ha : ∀ w ∈ [v], w.Literal := by simpa using hv
      exact .cons (.of_literals hs ha) (.refl s) hc (fun _ => .of_literals hs ha)
        (ih s hs hgr)
    cases v with
    | block b =>
      obtain ⟨h, hbr⟩ := hc s b hs hgr mem_cons_self
      exact .cons h.sprouts hbr ⟨_, rfl, h.definition_eq⟩
        (fun _ => h.fresh (hbl b mem_cons_self))
        (ih _ h.sprouts.sound (hgr.trans h.sprouts.grown))
    | stack t =>
      have ht : live (.stack t) := hli _ mem_cons_self trivial
      obtain ⟨hsp, hc, hf⟩ := copiesStack hs hsr hgr (hti.stack_lt t ht)
      exact .cons hsp (brings_copyStack hsr hti ht hs hgr) hc
        (fun he => hf (he t rfl)) (ih _ hsp.sound (hgr.trans hsp.grown))
    | none | bool _ | text _ => exact hl trivial rfl
    | num _ | complex _ _ | list _ => exact ((hlt _ mem_cons_self).elim id id).elim

theorem Fits.isNode_or_literal (h : s.Fits c v) : v.IsNode ∨ v.Literal := by
  cases v <;> first | exact .inl trivial | exact .inr h

/-- Copies of the values of a block make a copy of the block. -/
theorem CopiesValues.block (hsr : src.Sound) (hti : src.Tidy named live) (hg : Grown src s)
    (hb : live (.block b)) (h : CopiesValues named live src s s1 (src.block b).values vs') :
    CopiesBlock src s (s1.addBlock (src.definitionOf b) vs').2 b ⟨s1.blocks.size⟩ ∧
      Brings named live s (s1.addBlock (src.definitionOf b) vs').2 := by
  have hba : ∀ (i : Nat) v', vs'[i]? = some v' →
      ∃ v, src.slot? b i = some v ∧ ReadAs src s1 v v' := by
    intro i v' hv'
    have hi : i < (src.block b).values.length := by
      rw [← h.length_eq]
      exact (List.getElem?_eq_some_iff.1 hv').1
    obtain ⟨w, hw, hc⟩ := h.copy i _ (getElem?_eq_getElem hi)
    obtain rfl : w = v' := Option.some.inj (hw.symm.trans hv')
    exact ⟨_, getElem?_eq_getElem hi, hc.readAs hsr (hg.trans h.sprouts.grown)⟩
  obtain ⟨hs, hbr⟩ := h.sprouts.remake hsr hti hb h.brings h.length_eq hba
  refine ⟨⟨hs, ?_, fun i v hv => ?_, fun hbo => ?_⟩, hbr⟩
  · rw [definitionOf, block_addBlock_self]
  · obtain ⟨v', hv', hc⟩ := h.copy i v hv
    have hm := mem_of_getElem? hv'
    refine ⟨v', ?_, hc.grown (grown_addBlock ..) h.sprouts.sound ?_ ?_⟩
    · rw [slot?, block_addBlock_self]
      exact hv'
    · rintro c rfl
      exact (h.sprouts.loose_block c hm).2
    · rintro t rfl
      exact (h.sprouts.loose_stack t hm).2
  · refine Fresh.addBlock h.sprouts (h.fresh fun t ht => ?_) _
    obtain ⟨i, hi⟩ := getElem?_of_mem ht
    by_contra hne
    exact hbo ⟨i, t, hi, hne⟩

theorem copiesBlock_copyBlockTo (hsr : src.Sound) (ht : src.Tidy named live) {n : Nat}
    (hb : live (.block b)) (hn : src.NestedWithin n b) (hs : s.Sound) (hgr : Grown src s) :
    CopiesBlock src s (copyBlockTo n s b).2 b (copyBlockTo n s b).1 ∧
      Brings named live s (copyBlockTo n s b).2 := by
  induction n generalizing b s with
  | zero => exact hn.elim
  | succ n ih =>
    have hsl : ∀ v ∈ (src.block b).values, ∃ i, src.slot? b i = some v := fun v hv =>
      getElem?_of_mem hv
    have hva : CopiesValues named live src s (copyValues (copyBlockTo n) s (src.block b).values).2
        (src.block b).values (copyValues (copyBlockTo n) s (src.block b).values).1 := by
      apply copiesValues_of_copiesBlock hsr ht
      · intro v hv
        obtain ⟨i, hi⟩ := hsl _ hv
        exact ht.slot b i v hb hi
      · intro c hc
        obtain ⟨i, hi⟩ := hsl _ hc
        obtain ⟨_, _, _, hr, _⟩ := hsr.fits_slot? hi
        exact hsr.not_hasBody hr
      · intro v hv
        obtain ⟨i, hi⟩ := hsl _ hv
        obtain ⟨_, _, hf⟩ := hsr.fits_slot? hi
        exact hf.isNode_or_literal
      · intro s c hs hg hc
        obtain ⟨i, hi⟩ := hsl _ hc
        exact ih (ht.slot b i _ hb hi trivial) (hn i c hi) hs hg
      · exact hs
      · exact hgr
    have hlt := ht.block_lt b hb
    have hbl := hva.block hsr ht hgr hb
    rwa [← hgr.values_eq b hlt, ← hgr.definition_eq b hlt] at hbl

/-- What copying a block of a sound store does. -/
theorem Sound.copyBlock (hs : s.Sound) (hb : b.index < s.blocks.size) :
    CopiesBlock s s (s.copyBlock b).2 b (s.copyBlock b).1 :=
  (copiesBlock_copyBlockTo hs hs.tidy hb (hs.nestedWithin hb) hs (.refl s)).1

/-- A copy of a live block brings names. -/
theorem brings_copyBlock (hs : s.Sound) (ht : s.Tidy named live) (hb : live (.block b)) :
    Brings named live s (s.copyBlock b).2 :=
  (copiesBlock_copyBlockTo hs ht hb (hs.nestedWithin (ht.block_lt b hb)) hs (.refl s)).2

end Store

end BlockStudio
