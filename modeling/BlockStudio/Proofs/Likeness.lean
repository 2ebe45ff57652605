import BlockStudio.Proofs.Glance
import BlockStudio.Proofs.Measuring

/-!
# Pictures of the same size

In a sound store all trees are made of blocks of the catalogue, and blocks and stacks stand only where
they fit.  When a store is recalled by a later one, what a block or a stack showed can be told from
what it shows now: unfilled bodies were opened, and that makes no picture larger.
-/

namespace BlockStudio

open List

variable {c : Component} {t t' : Tree} {v : Value} {b : BlockId}

namespace Store

variable {s s' : Store}

/-! ## Trees of sound stores -/

/-- What stands in a slot of a sound store is made for it. -/
theorem Fits.fitsSlot (h : s.Fits c v) (hv : s.Shows t v) : t.FitsSlot c := by
  cases t with
  | block d ts =>
    obtain ⟨b, rfl, -⟩ := shows_block.1 hv
    exact (kind_of_fits h.2.2).2
  | stack p ts =>
    obtain ⟨r, rfl, -⟩ := shows_stack.1 hv
    exact h.2
  | _ => trivial

/-- Trees of a sound store are made of blocks of the catalogue that fit. -/
theorem Sound.known_fitted (hs : s.Sound) (h : s.Shows t v) : t.Known ∧ t.Fitted := by
  induction t generalizing v with
  | nothing | truth _ | number _ | text _ => exact ⟨trivial, trivial⟩
  | block d ts ih =>
    obtain ⟨b, rfl, hb, rfl, hts⟩ := shows_block.1 h
    have hl : ts.length = (s.definitionOf b).countInputs :=
      hts.length_eq.trans (hs.length_values b hb)
    have ha : ∀ t ∈ ts, t.Known ∧ t.Fitted := by
      intro t ht
      obtain ⟨v, -, hv⟩ := exists_of_forall₂_left hts ht
      exact ih t ht hv
    refine ⟨⟨hs.known b hb, hl, Tree.allKnown_iff.2 fun t ht => (ha t ht).1⟩, ?_,
      Tree.allFitted_iff.2 fun t ht => (ha t ht).2⟩
    refine forall₂_iff_get.2 ⟨hl.symm, fun i hi hi' => ?_⟩
    have hii : i < (s.block b).values.length := hts.length_eq ▸ hi'
    exact (hs.fits b i _ _ (getElem?_eq_getElem hi) (getElem?_eq_getElem hii)).fitsSlot
      (hts.get hi' hii)
  | stack p ts ih =>
    obtain ⟨r, rfl, -, -, hts⟩ := shows_stack.1 h
    have ha : ∀ t ∈ ts, ∃ b, s.Shows t (.block b) := fun t ht =>
      (exists_of_forall₂_left hts ht).imp fun _ => And.right
    refine ⟨⟨fun t ht => ?_, Tree.allKnown_iff.2 fun t ht => ?_⟩,
      Tree.allFitted_iff.2 fun t ht => ?_⟩ <;> obtain ⟨b, hb⟩ := ha t ht
    · obtain ⟨us, rfl, -⟩ := hb.exists_block
      trivial
    · exact (ih t ht hb).1
    · exact (ih t ht hb).2

end Store

/-! ## Trees that look the same -/

namespace Tree

/-- Two trees are drawn on surfaces of one size, wherever they stand. -/
structure Alike (t t' : Tree) : Prop where
  measure_eq : t'.measure = t.measure
  head : match t, t' with
    | block d _, block d' _ => d' = d
    | stack _ ts, stack _ ts' => ts'.length = ts.length
    | t, t' => t' = t

theorem Alike.refl (t : Tree) : Alike t t := ⟨rfl, by cases t <;> rfl⟩

theorem Alike.blockType_eq (h : Alike t t') : t'.blockType = t.blockType := by
  have hh := h.head
  cases t <;> cases t' <;> simp_all [blockType]

theorem Alike.slotSize_eq (h : Alike t t') (c : Component) :
    slotSize c (t', t'.measure) = slotSize c (t, t.measure) := by
  have hh := h.head
  rw [h.measure_eq]
  cases t <;> cases t' <;> simp_all [slotSize, leafValue]

theorem Alike.bodySize_eq (h : Alike t t') : bodySize (t', t'.measure) = bodySize (t, t.measure) := by
  have hh := h.head
  rw [h.measure_eq]
  cases t with
  | stack p ts =>
    cases t' with
    | stack p' ts' => cases ts <;> cases ts' <;> simp_all [bodySize]
    | _ => simp_all
  | _ => cases t' <;> simp_all [bodySize]

/-- Two trees look the same in a slot: an unfilled body looks like an empty one. -/
def AlikeIn (c : Component) (t t' : Tree) : Prop :=
  Alike t t' ∨ c.kind = .statement ∧ t = nothing ∧ ∃ p, t' = stack p []

theorem layers_congr {cs : List Component} {ts ts' : List Tree} (current : Layer)
    (hle : ts'.length = ts.length)
    (h : ∀ (i : Nat) c t t', (cs.filter fun c => decide (c.kind ≠ .label))[i]? = some c →
      ts[i]? = some t → ts'[i]? = some t' → AlikeIn c t t') :
    layers cs (ts'.map fun t => (t, t.measure)) current =
      layers cs (ts.map fun t => (t, t.measure)) current := by
  induction cs generalizing ts ts' current with
  | nil => rfl
  | cons c cs ih =>
    by_cases hl : c.kind = .label
    · rw [filter_cons_of_neg (by simpa using hl)] at h
      rw [layers_label hl, layers_label hl]
      exact ih _ hle h
    · rw [filter_cons_of_pos (by simpa using hl)] at h
      cases ts with
      | nil =>
        obtain rfl := length_eq_zero_iff.1 hle
        rfl
      | cons t ts =>
        obtain ⟨t', ts', rfl⟩ := exists_cons_of_length_eq_add_one hle
        have hr : ∀ current, layers cs (ts'.map fun t => (t, t.measure)) current =
            layers cs (ts.map fun t => (t, t.measure)) current := fun current =>
          ih current (Nat.succ.inj hle) fun i => h (i + 1)
        have hh : AlikeIn c t t' := h 0 c t t' rfl rfl rfl
        simp only [map_cons]
        by_cases hb : c.kind = .statement
        · have hs : bodySize (t', t'.measure) = bodySize (t, t.measure) := by
            rcases hh with hh | ⟨-, rfl, p, rfl⟩
            · exact hh.bodySize_eq
            · rfl
          rw [layers_body hb, layers_body hb, hs, hr]
        · have hh := hh.resolve_right fun h => hb h.1
          rw [layers_slot hl hb, layers_slot hl hb, hh.slotSize_eq, hr]

end Tree

/-! ## What was shown before -/

namespace Store

variable {s s' : Store}

/-- Values that show trees with a property, one by one. -/
theorem exists_trees (vs : List Value) (ts' : List Tree) {P : Nat → Tree → Tree → Prop}
    (hl : ts'.length = vs.length)
    (h : ∀ (i : Nat) v t', vs[i]? = some v → ts'[i]? = some t' → ∃ t, s.Shows t v ∧ P i t t') :
    ∃ ts, List.Forall₂ s.Shows ts vs ∧
      ∀ (i : Nat) t t', ts[i]? = some t → ts'[i]? = some t' → P i t t' := by
  induction vs generalizing ts' P with
  | nil => exact ⟨[], .nil, fun i t t' hi => by simp at hi⟩
  | cons v vs ih =>
    obtain ⟨t', ts', rfl⟩ := exists_cons_of_length_eq_add_one hl
    obtain ⟨t, hv, hP⟩ := h 0 v t' rfl rfl
    obtain ⟨ts, hvs, hPs⟩ := ih ts' (P := fun i => P (i + 1)) (Nat.succ.inj hl) fun i => h (i + 1)
    refine ⟨t :: ts, .cons hv hvs, fun i u u' hu hu' => ?_⟩
    cases i with
    | zero =>
      cases hu
      cases hu'
      exact hP
    | succ i => exact hPs i u u' hu hu'

/-- A block or a stack of the store, or a leaf. -/
def Inside (s : Store) : Value → Prop
  | .block b => b.index < s.blocks.size
  | .stack t => t.index < s.allStacks.size
  | _ => True

theorem Sound.inside_slot (hs : s.Sound) {i : Nat} (h : s.slot? b i = some v) : s.Inside v := by
  cases v with
  | block c => exact hs.block_lt h
  | stack t => exact hs.stack_lt h
  | _ => trivial

/-- What a slot showed before, given what was shown by all that stood in it. -/
theorem Recalls.exists_slot (h : Recalls s s') (hs : s.Sound) (hb : b.index < s.blocks.size) {i : Nat}
    {v' : Value} (hc : (s.definitionOf b).inputs[i]? = some c) (hv : s.slot? b i = some v)
    (hv' : s'.slot? b i = some v') (ht' : s'.Shows t' v')
    (hsa : s'.Shows t' v → s.Inside v → ∃ t, s.Shows t v ∧ (t.Bodied → t'.Bodied ∧ Tree.Alike t t')) :
    ∃ t, s.Shows t v ∧ (t.Bodied → (c.kind = .statement → t.IsBody) →
      t'.Bodied ∧ (c.kind = .statement → t'.IsBody) ∧ Tree.AlikeIn c t t') := by
  rcases h.slot b i hb with heq | ⟨⟨c', hc', hk⟩, ⟨w, hw, hne⟩, r, hr, hst, he⟩
  · obtain rfl : v' = v := Option.some.inj (hv'.symm.trans (heq.trans hv))
    obtain ⟨t, ht, ha⟩ := hsa ht' (hs.inside_slot hv)
    refine ⟨t, ht, fun hbd hbo => ?_⟩
    obtain ⟨hb', ha⟩ := ha hbd
    refine ⟨hb', fun hk => ?_, .inl ha⟩
    have hh := ha.head
    have := hbo hk
    cases t <;> cases t' <;> simp_all [Tree.IsBody]
  · cases hc.symm.trans hc'
    cases hv.symm.trans hw
    cases hv'.symm.trans hr
    obtain ⟨p, ts, rfl, -, -, hts⟩ := ht'.exists_stack
    rw [he, forall₂_nil_right_iff] at hts
    subst hts
    -- what stood in the slot was a leaf, and as a body only an unfilled one can be drawn
    have hf := hs.fits b i c v hc hv
    cases v with
    | block x => exact absurd hk (kind_of_fits hf.2.2).1
    | stack t => exact absurd rfl (hne t)
    | none =>
      exact ⟨.nothing, rfl, fun _ _ => ⟨trivial, fun _ => trivial, .inr ⟨hk, rfl, p, rfl⟩⟩⟩
    | bool x => exact ⟨.truth x, rfl, fun _ hbo => (hbo hk).elim⟩
    | text x => exact ⟨.text x, rfl, fun _ hbo => (hbo hk).elim⟩
    | _ => exact hf.elim

/-- A block has as many slots as before. -/
theorem Recalls.length_values_eq (h : Recalls s s') (hb : b.index < s.blocks.size) :
    (s'.block b).values.length = (s.block b).values.length := by
  have hn : ∀ i, s'.slot? b i = none ↔ s.slot? b i = none := by
    intro i
    rcases h.slot b i hb with heq | ⟨-, ⟨v, hv, -⟩, r, hr, -⟩
    · rw [heq]
    · simp [hv, hr]
  simp only [slot?, getElem?_eq_none_iff] at hn
  exact Nat.le_antisymm ((hn _).2 le_rfl) ((hn _).1 le_rfl)

section Trees

variable {t' : Tree} {ts' : List Tree}

/-- What a block showed before, given what was shown by all that stood in it. -/
theorem Recalls.exists_block (h : Recalls s s') (hs : s.Sound) (hb : b.index < s.blocks.size)
    (hT : List.Forall₂ s'.Shows ts' (s'.block b).values)
    (ih : ∀ t' ∈ ts', ∀ v, s.Inside v → s'.Shows t' v →
      ∃ t, s.Shows t v ∧ (t.Bodied → t'.Bodied ∧ Tree.Alike t t')) :
    ∃ t, s.Shows t (.block b) ∧ (t.Bodied → (Tree.block (s'.definitionOf b) ts').Bodied ∧
        Tree.Alike t (.block (s'.definitionOf b) ts')) := by
  have hip : (s.block b).values.length = (s.definitionOf b).inputs.length :=
    hs.length_values b hb
  have hl : ts'.length = (s.block b).values.length := hT.length_eq.trans (h.length_values_eq hb)
  obtain ⟨ts, hts, hsl⟩ := exists_trees (s := s) (s.block b).values ts'
    (P := fun i t t' => ∀ c, (s.definitionOf b).inputs[i]? = some c → t.Bodied →
      (c.kind = .statement → t.IsBody) →
      t'.Bodied ∧ (c.kind = .statement → t'.IsBody) ∧ Tree.AlikeIn c t t') hl
    fun i v t' hv ht' => by
      obtain ⟨hi, rfl⟩ := List.getElem?_eq_some_iff.1 hv
      obtain ⟨hi', rfl⟩ := List.getElem?_eq_some_iff.1 ht'
      have hii : i < (s'.block b).values.length := hT.length_eq ▸ hi'
      have hc := getElem?_eq_getElem (hip ▸ hi : i < (s.definitionOf b).inputs.length)
      obtain ⟨t, ht, hli⟩ := h.exists_slot hs hb hc hv (getElem?_eq_getElem hii)
        (hT.get hi' hii) fun hsa hin => ih _ (getElem_mem hi') _ hin hsa
      refine ⟨t, ht, fun c' hc' => ?_⟩
      cases hc'.symm.trans hc
      exact hli
  refine ⟨.block (s.definitionOf b) ts, shows_block.2 ⟨b, rfl, hb, rfl, hts⟩, fun hbo => ?_⟩
  rw [h.definition_eq b hb]
  have hl' : ts'.length = ts.length := hl.trans hts.length_eq.symm
  have ha : ∀ (i : Nat) c t t', (s.definitionOf b).inputs[i]? = some c → ts[i]? = some t →
      ts'[i]? = some t' →
      t'.Bodied ∧ (c.kind = .statement → t'.IsBody) ∧ Tree.AlikeIn c t t' := by
    intro i c t t' hc ht ht'
    refine hsl i t t' ht ht' c hc (Tree.allBodied_iff.1 hbo.2 t (mem_of_getElem? ht)) ?_
    obtain ⟨hi, rfl⟩ := List.getElem?_eq_some_iff.1 hc
    obtain ⟨hi', rfl⟩ := List.getElem?_eq_some_iff.1 ht
    exact hbo.1.get hi hi'
  have hid : ∀ i, i < ts'.length →
      i < (s.definitionOf b).inputs.length ∧ i < ts.length := fun i hi => by omega
  refine ⟨⟨forall₂_iff_get.2 ⟨by omega, fun i hi hi' => ?_⟩, Tree.allBodied_iff.2 ?_⟩, ?_, rfl⟩
  · exact (ha i _ _ _ (getElem?_eq_getElem hi)
      (getElem?_eq_getElem (hid i hi').2) (getElem?_eq_getElem hi')).2.1
  · intro t' ht'
    obtain ⟨i, hi, rfl⟩ := getElem_of_mem ht'
    exact (ha i _ _ _ (getElem?_eq_getElem (hid i hi).1)
      (getElem?_eq_getElem (hid i hi).2) (getElem?_eq_getElem hi)).1
  · rw [Tree.measure, Tree.measure, Tree.measures_eq_map, Tree.measures_eq_map,
      Tree.layers_congr [] hl' fun i c t t' hc ht ht' => (ha i c t t' hc ht ht').2.2]

/-- What a stack showed before, given what was shown by its blocks. -/
theorem Recalls.exists_stack (h : Recalls s s') (hs : s.Sound) {r : StackId}
    (hr : r.index < s.allStacks.size) (hp : (s.stack r).position = none)
    {p : Option (List Num)} (hT : List.Forall₂ (fun t b => s'.Shows t (.block b)) ts' (s'.blocksOf r))
    (ih : ∀ t' ∈ ts', ∀ v, s.Inside v → s'.Shows t' v →
      ∃ t, s.Shows t v ∧ (t.Bodied → t'.Bodied ∧ Tree.Alike t t')) :
    ∃ t, s.Shows t (.stack r) ∧
      (t.Bodied → (Tree.stack p ts').Bodied ∧ Tree.Alike t (.stack p ts')) := by
  have hst : s.HasStack r := ⟨hr, hs.row_lt r hr⟩
  rw [h.blocksOf_eq hst] at hT
  obtain ⟨ts, hts, hbl⟩ := exists_trees (s := s) ((s.blocksOf r).map .block) ts'
    (P := fun _ t t' => t.Bodied → t'.Bodied ∧ Tree.Alike t t')
    (by rw [hT.length_eq, length_map]) fun i v t' hv ht' => by
      rw [getElem?_map, Option.map_eq_some_iff] at hv
      obtain ⟨b, hb, rfl⟩ := hv
      obtain ⟨hi, rfl⟩ := List.getElem?_eq_some_iff.1 hb
      obtain ⟨hi', rfl⟩ := List.getElem?_eq_some_iff.1 ht'
      exact ih _ (getElem_mem hi') _ (hs.mem_blocksOf (getElem_mem hi)) (hT.get hi' hi)
  rw [forall₂_map_right_iff] at hts
  refine ⟨.stack none ts, shows_stack.2 ⟨r, rfl, hst, by rw [hp]; rfl, hts⟩, fun hbo => ?_⟩
  have hl : ts'.length = ts.length := hT.length_eq.trans hts.length_eq.symm
  have hal : ∀ (i : Nat) t t', ts[i]? = some t → ts'[i]? = some t' → t'.Bodied ∧ Tree.Alike t t' :=
    fun i t t' ht ht' => hbl i t t' ht ht' (Tree.allBodied_iff.1 hbo t (mem_of_getElem? ht))
  refine ⟨Tree.allBodied_iff.2 fun t' ht' => ?_, ?_, hl⟩
  · obtain ⟨i, hi, rfl⟩ := getElem_of_mem ht'
    exact (hal i _ _ (getElem?_eq_getElem (hl ▸ hi)) (getElem?_eq_getElem hi)).1
  · rw [Tree.measure, Tree.measure, Tree.measures_eq_map, Tree.measures_eq_map, map_map, map_map]
    congr 1
    refine ext_getElem (by simpa using hl) fun i hi hi' => ?_
    simp only [getElem_map, Function.comp_apply]
    rw [length_map] at hi hi'
    obtain ⟨-, ha⟩ := hal i _ _ (getElem?_eq_getElem hi') (getElem?_eq_getElem hi)
    rw [ha.blockType_eq, ha.measure_eq]

/-- What is shown now was shown before, up to opened bodies. -/
theorem Recalls.exists_tree (h : Recalls s s') (hs : s.Sound)
    (hp : ∀ t, (s.stack t).position = none) (hv : s.Inside v) (ht' : s'.Shows t' v) :
    ∃ t, s.Shows t v ∧ (t.Bodied → t'.Bodied ∧ Tree.Alike t t') := by
  induction t' generalizing v with
  | nothing | truth _ | number _ | text _ =>
    refine ⟨_, ?_, fun hb => ⟨hb, .refl _⟩⟩
    exact ht'
  | block d ts' ih =>
    obtain ⟨b, rfl, -, rfl, ht⟩ := shows_block.1 ht'
    exact h.exists_block hs hv ht fun t' ht' v => ih t' ht'
  | stack p ts' ih =>
    obtain ⟨r, rfl, -, -, ht⟩ := shows_stack.1 ht'
    exact h.exists_stack hs hv (hp r) ht fun t' ht' v => ih t' ht'

end Trees

end Store

end BlockStudio
