import BlockStudio.Proofs.Lasting
import BlockStudio.Proofs.Measuring

/-!
# What drawing a stack reaches

Drawing a stack draws every block in it, however deep, so afterwards each of them has a rectangle for
each of its slots.  The depth to which the editor draws is enough for that, as the stack shows a tree.
-/

namespace BlockStudio

open Relation Layout Store List

variable {comp : Component} {v : Value} {size : Size} {layers : List Layer} {b : BlockId} {t : StackId}
  {tree : Tree}

namespace Store

variable {s : Store} {c c' : Canvas} {b : BlockId} {t : StackId} {v : Value}

/-- A value stands in a slot of a block, or a block in the row of a stack. -/
inductive Contains (s : Store) : Value → Value → Prop where
  | slot {b : BlockId} {i : Nat} {v : Value} (h : s.slot? b i = some v) : Contains s (.block b) v
  | row {t : StackId} {b : BlockId} (h : b ∈ s.blocksOf t) : Contains s (.stack t) (.block b)

/-- What is reached is in one of the stacks at the top. -/
theorem exists_path_of_reached {tops : List StackId} (h : Forest.Reached s tops v) :
    ∃ t ∈ tops, ReflTransGen s.Contains (.stack t) v := by
  induction h with
  | top ht => exact ⟨_, ht, .refl⟩
  | row _ hb ih =>
    obtain ⟨t, ht, hp⟩ := ih
    exact ⟨t, ht, hp.tail (.row hb)⟩
  | slot _ hv ih =>
    obtain ⟨t, ht, hp⟩ := ih
    exact ⟨t, ht, hp.tail (.slot hv)⟩

end Store

/-! ## Where a run leads -/

section Leads

variable {ε σ α β γ : Type} {p q : σ → Prop} {m : EStateM ε σ α} {f : α → EStateM ε σ β}

theorem Leads.bind {r : α → σ → Prop} {q : β → σ → Prop} (hm : Leads p m r)
    (hf : ∀ a, Leads (r a) (f a) q) : Leads p (m >>= f) q := by
  intro s b s' hs h
  obtain ⟨a, s1, h1, h2⟩ := bind_eq_ok.1 h
  exact hf a s1 b s' (hm s a s1 hs h1) h2

variable {R : σ → σ → Prop}

theorem Keeps.leads (h : Keeps R m) (hR : ∀ s s', R s s' → p s → q s') : Leads p m fun _ => q :=
  fun _ _ _ hs hm => hR _ _ (h.ok hm) hs

variable [IsPreorder σ R] (hp : ∀ s s', R s s' → p s → p s') (hq : ∀ s s', R s s' → q s → q s')
  {x : γ} {l : List γ} (hx : x ∈ l)
include hp hq hx

/-- One step of many leads there, and the others do not lead away. -/
theorem leads_mapM {g : γ → EStateM ε σ α} (hg : ∀ y, Keeps R (g y)) (h : Leads p (g x) fun _ => q) :
    Leads p (l.mapM g) fun _ => q := by
  induction l with
  | nil => cases hx
  | cons y l ih =>
    rw [mapM_cons]
    rcases mem_cons.1 hx with rfl | hx
    · exact h.bind fun _ => (Keeps.bind (R := R) (.mapM l fun y _ => hg y) fun _ => .pure _).leads hq
    · exact ((hg y).leads hp).bind fun _ => (ih hx).bind fun _ => (Keeps.pure (R := R) _).leads hq

theorem leads_forIn {g : γ → PUnit → EStateM ε σ (ForInStep PUnit)} (hg : ∀ y, Keeps R (g y ⟨⟩))
    (hy : ∀ y s a s', g y ⟨⟩ s = .ok a s' → a = .yield ⟨⟩) (h : Leads p (g x ⟨⟩) fun _ => q) :
    Leads p (forIn l PUnit.unit g) fun _ => q := by
  induction l with
  | nil => cases hx
  | cons y l ih =>
    intro s u s' hs hl
    rw [forIn_cons] at hl
    obtain ⟨a, s1, h1, hl⟩ := bind_eq_ok.1 hl
    obtain rfl := hy y s a s1 h1
    have hr : R s1 s' := (Keeps.forIn l _ fun z _ _ => hg z).ok hl
    rcases mem_cons.1 hx with rfl | hx
    · exact hq _ _ hr (h s _ s1 hs h1)
    · exact ih hx s1 u s' (hp s s1 ((hg y).ok h1) hs) hl

end Leads

/-! ## Blocks -/

section Draw

variable {s : Store} {c c' : Canvas} {fuel : Nat} {α : Type} {a : α} {color : Paint} {x : BlockId}

theorem Depicts.bare_eq {m : Sketch α} (h : Depicts m) (hm : m c = .ok a c') :
    c'.store.bare = c.store.bare := by
  have hu : c'.store.undrawn = c.store.undrawn := h.ok hm
  rw [← bare_undrawn, hu, bare_undrawn]

/-- Where the slots in the layers of a block are remembered. -/
def Definition.slotsOf (d : Definition) (layers : List Layer) : List (Rect Rat) :=
  slotRects d (contentHeight layers) (placeLayers (if d.blockType = .reporter then 0 else 16) 4 layers)

/-- Drawing the shape of a block remembers its slots and changes nothing else in the store. -/
theorem assemble_eq_ok {d : Definition} {remember : List (Rect Rat) → Sketch Unit}
    (h : assemble d layers remember c = .ok size c') :
    ∃ c1 c2, c1.store = c.store ∧ remember (d.slotsOf layers) c1 = .ok () c2 ∧ c'.store = c2.store := by
  unfold assemble at h
  split at h
  · obtain ⟨_, _, ht, -⟩ := bind_eq_ok.1 h
    exact absurd ht throw_ne_ok
  obtain ⟨_, c1, hd, h⟩ := bind_eq_ok.1 h
  obtain ⟨_, c2, hr, h⟩ := bind_eq_ok.1 h
  obtain ⟨_, c3, hp, hw⟩ := bind_eq_ok.1 h
  have ha : c2.Adds c3 := Keeps.ok (Keeps.forIn _ _ fun _ _ _ =>
    Keeps.bind (Strokes.draw _) fun _ => Keeps.pure _) hp
  exact ⟨c1, c2, ((Strokes.draw _).ok hd).1, hr, ((Strokes.wrap ..).ok hw).1.trans ha.1⟩

theorem modifyBlock_modifyBlock (s : Store) (b : BlockId) (f g : Block → Block) :
    (s.modifyBlock b f).modifyBlock b g = s.modifyBlock b (g ∘ f) := by
  simp only [modifyBlock]
  congr 1
  refine Array.ext_getElem? fun i => ?_
  simp only [Array.getElem?_modify]
  split <;> simp [Function.comp_def]

/-- What drawing a block remembers: the slots in its layers, and its own size. -/
theorem drawBlockTo_eq_ok (h : drawBlockTo (fuel + 1) b c = .ok size c') :
    ∃ layers c1, layersTo fuel (c.store.definitionOf b).color (c.store.definitionOf b).components
        (c.store.block b).values [] c = .ok layers c1 ∧
      c'.store = c1.store.modifyBlock b fun x => { x with
        slots := (c.store.definitionOf b).slotsOf layers, rect := ⟨0, 0, size.w, size.h⟩ } := by
  unfold drawBlockTo at h
  rw [get_bind] at h
  obtain ⟨layers, c1, hl, h⟩ := bind_eq_ok.1 h
  obtain ⟨_, c2, ha, h⟩ := bind_eq_ok.1 h
  obtain ⟨_, c3, hre, h⟩ := bind_eq_ok.1 h
  obtain ⟨rfl, rfl⟩ := pure_eq_ok.1 h
  obtain ⟨c4, c5, hc4, hr, hc5⟩ := assemble_eq_ok ha
  cases hr
  cases hre
  refine ⟨layers, c1, hl, ?_⟩
  show c2.store.modifyBlock b _ = _
  rw [hc5, ← hc4]
  exact modifyBlock_modifyBlock ..

/-- Blocks were drawn: what the store holds is the same, and what was drawn stays drawn. -/
def Canvas.Redrawn (c c' : Canvas) : Prop := c'.store.undrawn = c.store.undrawn ∧ c.store.Lasts c'.store

instance : IsPreorder Canvas Canvas.Redrawn where
  refl _ := ⟨rfl, .refl _⟩
  trans _ _ _ h h' := ⟨h'.1.trans h.1, h.2.trans h'.2⟩

theorem redrawn_of_adds (c c' : Canvas) (h : c.Adds c') : c.Redrawn c' :=
  ⟨same_undrawn h, lasts_of_same h⟩

theorem redraws_drawTo (fuel : Nat) : DrawsTo Canvas.Redrawn fuel where
  adds := redrawn_of_adds
  block b := ⟨fun c => ⟨((depicts_drawTo fuel).block b).run c, ((preserves_drawTo fuel).block b).run c⟩⟩
  stack t := ⟨fun c => ⟨((depicts_drawTo fuel).stack t).run c, ((preserves_drawTo fuel).stack t).run c⟩⟩

/-- The canvas holds the blocks of a store. -/
def Canvas.Holds (s : Store) (c : Canvas) : Prop := c.store.bare = s

/-- Besides, a block of the store was drawn. -/
def Canvas.Marks (s : Store) (x : BlockId) (c : Canvas) : Prop :=
  c.Holds s ∧ x.index < s.blocks.size ∧ c.store.Sketched x

theorem Canvas.Redrawn.holds (h : c.Redrawn c') (hc : c.Holds s) : c'.Holds s := by
  rw [Holds, ← bare_undrawn, h.1, bare_undrawn, hc]

theorem Canvas.Redrawn.marks (h : c.Redrawn c') (hc : c.Marks s x) : c'.Marks s x := by
  refine ⟨h.holds hc.1, hc.2.1, h.2.sketched x ?_ hc.2.2⟩
  rw [← size_blocks_bare, hc.1]
  exact hc.2.1

/-- Drawing leads to where a block was drawn. -/
abbrev Draws (s : Store) (x : BlockId) (m : Sketch α) : Prop := 
  Leads (Canvas.Holds s) m fun _ => Canvas.Marks s x

/-- So does drawing a value to a depth. -/
def DrawsIn (s : Store) (x : BlockId) (fuel : Nat) : Value → Prop
  | .block b => Draws s x (drawBlockTo fuel b)
  | .stack t => s.blocksOf t ≠ [] ∧ Draws s x (drawStackTo fuel t)
  | _ => False

section

variable {β : Type} {m : Sketch α} {f : α → Sketch β}

theorem Draws.before (h : Draws s x m) (hf : ∀ a, Keeps Canvas.Redrawn (f a)) : Draws s x (m >>= f) :=
  h.bind fun a => (hf a).leads fun _ _ => Canvas.Redrawn.marks

theorem Draws.after (hm : Keeps Canvas.Redrawn m) (hf : ∀ a, Draws s x (f a)) : Draws s x (m >>= f) :=
  (hm.leads fun _ _ => Canvas.Redrawn.holds).bind hf

end

theorem redraws_drawBody (color : Paint) (size : Size) : Keeps Canvas.Redrawn (drawBody color size) :=
  .mono (.bind (Strokes.draw _) fun _ => .bind (Strokes.draw _) fun _ => .pure _) redrawn_of_adds

/-- Drawing the layers of a block draws what stands in its slots. -/
theorem draws_layers {cs : List Component} {vs : List Value} {current : Layer}
    (hf : List.Forall₂ s.Fits (cs.filter fun c => decide (c.kind ≠ .label)) vs) (hv : v ∈ vs)
    (hd : DrawsIn s x fuel v) : Draws s x (layersTo fuel color cs vs current) := by
  have hre := redraws_drawTo fuel
  induction cs generalizing vs current with
  | nil =>
    rw [filter_nil, forall₂_nil_left_iff] at hf
    exact absurd (hf ▸ hv) not_mem_nil
  | cons comp cs ih =>
    unfold layersTo drawLayers
    by_cases hl : comp.kind = .label
    · simp only [hl]
      rw [filter_cons_of_neg (by simpa using hl)] at hf
      exact .after ((Strokes.write ..).mono redrawn_of_adds) fun _ => ih hf hv
    rw [filter_cons_of_pos (by simpa using hl)] at hf
    obtain ⟨w, vs, hw, hf', rfl⟩ := forall₂_cons_left_iff.1 hf
    by_cases hbo : comp.kind = .statement
    · simp only [hbo]
      rcases mem_cons.1 hv with rfl | hv
      · cases v with
        | block b => exact absurd hbo (kind_of_fits hw.2.2).1
        | stack t =>
          intro c a c' hc h
          have hb : bodyOf c.store (.stack t) = .ok (some t) := by
            rw [bodyOf, ← blocksOf_bare, hc, if_neg (by simpa using hd.1)]
          rw [get_bind, hb] at h
          refine Draws.before (m := drawStackTo fuel t) hd.2 (fun inner => ?_) c a c' hc h
          exact .bind (redraws_drawBody ..) fun _ => .bind hre.layers fun _ => .pure _
        | _ => exact hd.elim
      · refine .after .get fun _ => .after ((Strokes.ofExcept _).mono redrawn_of_adds) fun stack => ?_
        refine .after ?_ fun inner => .after (redraws_drawBody ..) fun _ => .before (ih hf' hv) fun _ => .pure _
        cases stack with
        | none => exact strokes_drawEllipsis.mono redrawn_of_adds
        | some body => exact hre.stack body
    · rcases mem_cons.1 hv with rfl | hv
      · cases v with
        | block b =>
          have hn := (kind_of_fits hw.2.2).2
          cases hk : comp.kind <;> first
            | contradiction
            | exact .before (.after .get fun _ => hd) fun _ => hre.layers
        | stack t => exact absurd hw.2 hbo
        | _ => exact hd.elim
      · have hi {kind : SlotKind} {w : Value} :
            Keeps Canvas.Redrawn (drawInput (drawBlockTo fuel) kind color w) :=
          Strokes.drawInput redrawn_of_adds (fun id _ => hre.block id) ..
        cases hk : comp.kind <;> first
          | contradiction
          | exact .after hi fun _ => ih hf' hv

theorem draws_block (hs : s.Sound) (hb : b.index < s.blocks.size)
    (h : b = x ∨ ∃ v ∈ (s.block b).values, DrawsIn s x fuel v) : Draws s x (drawBlockTo (fuel + 1) b) := by
  intro c size c' hc hdr
  have hc' := (((redraws_drawTo (fuel + 1)).block b).ok hdr).holds hc
  have hd : c.store.definitionOf b = s.definitionOf b := by rw [← hc, definitionOf_bare]
  have hva : (c.store.block b).values = (s.block b).values := by rw [← hc, values_bare]
  obtain ⟨layers, c1, hl, hst⟩ := drawBlockTo_eq_ok hdr
  have hc1 := ((redraws_drawTo fuel).layers.ok hl).holds hc
  have hl1 : b.index < c1.store.blocks.size := by rwa [← size_blocks_bare, hc1]
  have hle : ((c.store.definitionOf b).slotsOf layers).length = (c1.store.definitionOf b).countInputs := by
    rw [← definitionOf_bare c1.store, hc1, ← hd]
    exact length_slotRects_of_drawn hl ..
  have hla : c1.store.Lasts c'.store := by
    rw [hst]
    exact lasts_modifyBlock (fun _ => rfl) (.inl hle)
  rcases h with rfl | ⟨v, hv, hdv⟩
  · refine ⟨hc', hb, ?_⟩
    rw [Sketched, hla.definition_eq b hl1, ← hle, hst, block_modifyBlock_self _ hl1]
  · have hf : List.Forall₂ s.Fits (c.store.definitionOf b).inputs (c.store.block b).values := by
      rw [hd, hva]
      refine forall₂_iff_get.2 ⟨(hs.length_values b hb).symm, fun i hi hi' => ?_⟩
      exact hs.fits b i _ _ (getElem?_eq_getElem hi) (getElem?_eq_getElem hi')
    obtain ⟨-, hx, hsk⟩ := draws_layers hf (hva ▸ hv) hdv c layers c1 hc hl
    refine ⟨hc', hx, hla.sketched x ?_ hsk⟩
    rwa [← size_blocks_bare, hc1]

/-! ## Stacks -/

theorem draws_stack (hb : b ∈ s.blocksOf t) (hd : Draws s x (drawBlockTo fuel b)) :
    Draws s x (drawStackTo (fuel + 1) t) := by
  have hp (b : BlockId) := (redraws_drawTo fuel).block b
  intro c size c' hc h
  unfold drawStackTo at h
  rw [get_bind, ← blocksOf_bare, hc] at h
  refine Draws.before (leads_mapM (R := Canvas.Redrawn) (fun _ _ h => h.holds) (fun _ _ h => h.marks) hb
    (fun b => .bind (hp b) fun _ => .bind .get fun _ => .pure _)
    (Draws.before hd fun _ => .bind .get fun _ => .pure _)) (fun parts => ?_) c size c' hc h
  refine keeps_assembleStack redrawn_of_adds _ fun b rect => .modify fun c => ⟨?_, ?_⟩
  · exact c.store.undrawn_modifyBlock b fun _ => rfl
  · exact lasts_modifyBlock (fun _ => rfl) (.inr rfl)

/-- Drawing what shows a tree draws every block in it. -/
theorem drawsIn_of_path (hs : s.Sound) (hx : ReflTransGen s.Contains v (.block x))
    (h : s.Shows tree v) (hh : tree.height ≤ fuel) : DrawsIn s x fuel v := by
  induction hx using ReflTransGen.head_induction_on generalizing tree fuel with
  | refl =>
    obtain ⟨ts, rfl, hb, -⟩ := h.exists_block
    obtain ⟨n, rfl⟩ := Nat.exists_eq_add_of_le' hh
    exact draws_block hs hb (.inl rfl)
  | head hc _ ih =>
    cases hc with
    | slot hv =>
      obtain ⟨ts, rfl, hb, hts⟩ := h.exists_block
      obtain ⟨n, rfl⟩ := Nat.exists_eq_add_of_le' hh
      obtain ⟨u, hu, huv⟩ := exists_of_forall₂_left hts.flip (mem_of_getElem? hv)
      have hle := (Tree.height_le_heights hu).trans (Nat.le_add_left _ n)
      exact draws_block hs hb (.inr ⟨_, mem_of_getElem? hv, ih huv hle⟩)
    | row hb =>
      obtain ⟨p, ts, rfl, -, -, hts⟩ := h.exists_stack
      obtain ⟨n, rfl⟩ := Nat.exists_eq_add_of_le' hh
      obtain ⟨u, hu, hub⟩ := exists_of_forall₂_left hts.flip hb
      have hle := (Tree.height_le_heights hu).trans (Nat.le_add_left _ n)
      exact ⟨ne_nil_of_mem hb, draws_stack hb (ih hub hle)⟩

/-- Drawing a stack draws every block in it, so that it has a rectangle for each of its slots. -/
theorem draws_of_path (hs : s.Sound) (ht : s.Shows tree (.stack t))
    (hx : ReflTransGen s.Contains (.stack t) (.block x)) : Draws s x (Sketch.stack t) := by
  intro c size c' hc h
  have hh : tree.height ≤ c.store.depth := by
    rw [← depth_bare, hc]
    exact ht.height_lt_depth.le
  exact (drawsIn_of_path hs hx ht hh).2 c size c' hc h

end Draw

/-! ## What is reached -/

section Trees

variable {s : Store} {tree : Tree}

theorem exists_tree_of_slot {b : BlockId} {i : Nat} (h : s.Shows tree (.block b))
    (hv : s.slot? b i = some v) : ∃ u, s.Shows u v ∧ u.height < tree.height := by
  obtain ⟨ts, rfl, -, hts⟩ := h.exists_block
  obtain ⟨u, hu, hs⟩ := exists_of_forall₂_left hts.flip (mem_of_getElem? hv)
  exact ⟨u, hs, Nat.lt_succ_of_le (Tree.height_le_heights hu)⟩

/-- What is reached from a stack shows a tree that is not higher. -/
theorem exists_tree_of_reached (h : s.Shows tree (.stack t)) (hv : Forest.Reached s [t] v) :
    ∃ u, s.Shows u v ∧ u.height ≤ tree.height := by
  induction hv with
  | top ht =>
    cases mem_singleton.1 ht
    exact ⟨tree, h, le_rfl⟩
  | row _ hb ih =>
    obtain ⟨u, hu, hle⟩ := ih
    obtain ⟨p, ts, rfl, -, -, hts⟩ := hu.exists_stack
    obtain ⟨w, hw, hs⟩ := exists_of_forall₂_left hts.flip hb
    exact ⟨w, hs, (Tree.height_le_heights hw).trans ((Nat.le_succ _).trans hle)⟩
  | slot _ hv ih =>
    obtain ⟨u, hu, hle⟩ := ih
    obtain ⟨w, hw, hlt⟩ := exists_tree_of_slot hu hv
    exact ⟨w, hw, hlt.le.trans hle⟩

end Trees

end BlockStudio
