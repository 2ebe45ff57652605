import BlockStudio.Proofs.LoopControl
import BlockStudio.Proofs.Sketching
import Mathlib.Tactic.Linarith
import Mathlib.Tactic.Positivity
import Mathlib.Tactic.Ring

/-!
# The slots of a drawn block

The parts of a block stand side by side in layers, the layers below one another, with a gap between
neighbours.  So the slots of a block are apart from one another.  They are remembered at paddings that
depend on the kind of the block; whatever it is, they lie inside the block.
-/

namespace BlockStudio

open Layout Shape Store List Sketch

variable {α : Type} {l : Layer} {ls : List Layer} {p : Part} {x y right : Rat} {height : Nat}
  {d : Definition} {size : Size} {b : BlockId} {color : Paint} {comp : Component} {v : Value} {t : Tree}
  {ts : List Tree} {c c' : Canvas}

/-! ## Sizes of layers -/

theorem le_foldl_max (f : α → Nat) (l : List α) (n : Nat) :
    n ≤ l.foldl (fun n a => max n (f a)) n ∧ ∀ a ∈ l, f a ≤ l.foldl (fun n a => max n (f a)) n := by
  induction l generalizing n with
  | nil => simp
  | cons a l ih =>
    obtain ⟨hle, ha⟩ := ih (max n (f a))
    rw [foldl_cons]
    exact ⟨(Nat.le_max_left ..).trans hle,
      forall_mem_cons.2 ⟨(Nat.le_max_right ..).trans hle, ha⟩⟩

theorem foldl_add (f : α → Nat) (l : List α) (n : Nat) :
    l.foldl (fun n a => n + f a) n = n + (l.map f).sum := by
  induction l generalizing n with
  | nil => rfl
  | cons a l ih => rw [foldl_cons, ih, map_cons, sum_cons, Nat.add_assoc]

theorem width_cons (p : Part) (l : Layer) :
    Layer.width (p :: l) = if l = [] then p.size.w else p.size.w + (padding + l.width) := by
  cases l with
  | nil => simp [Layer.width]
  | cons q l =>
    simp only [Layer.width, foldl_add, map_cons, sum_cons, length_cons, reduceCtorEq, if_false]
    simp only [padding]
    omega

theorem contentHeight_cons (l : Layer) (ls : List Layer) :
    contentHeight (l :: ls) = l.height + (padding + contentHeight ls) := by
  simp only [contentHeight, foldl_add, map_cons, sum_cons, length_cons, padding]
  omega

theorem padding_le_contentHeight (h : ls ≠ []) : padding ≤ contentHeight ls := by
  obtain ⟨l, ls, rfl⟩ := exists_cons_of_ne_nil h
  rw [contentHeight_cons]
  omega

/-! ## Placed parts -/

/-- A part lies inside a frame, at a whole pixel from the left and at half a pixel from the top. -/
structure Placed.Inside (p : Placed) (x y right bottom : Rat) : Prop where
  left : x ≤ p.x
  right : p.x + p.part.size.w ≤ right
  top : y ≤ p.y
  bottom : p.y + p.part.size.h ≤ bottom
  whole_x : ∃ n : Int, p.x = n
  half_y : ∃ n : Int, p.y * 2 = n

/-- A part ends where another one begins, or before. -/
def Placed.Precedes (p q : Placed) : Prop := p.x + p.part.size.w ≤ q.x ∨ p.y + p.part.size.h ≤ q.y

/-- Parts stand side by side in the height of their layer. -/
theorem placeLayer_inside (hx : ∃ n : Int, x = n) (hy : ∃ n : Int, y = n)
    (hh : ∀ p ∈ l, p.size.h ≤ height) :
    (∀ q ∈ placeLayer y height x l, q.Inside x y (x + l.width) (y + height)) ∧
      (placeLayer y height x l).Pairwise Placed.Precedes := by
  induction l generalizing x with
  | nil => exact ⟨fun _ hq => absurd hq not_mem_nil, .nil⟩
  | cons p l ih =>
    obtain ⟨hp, hl⟩ := forall_mem_cons.1 hh
    obtain ⟨nx, rfl⟩ := hx
    obtain ⟨ny, rfl⟩ := hy
    have hn : ∃ n : Int, (nx : Rat) + p.size.w + padding = n :=
      ⟨nx + p.size.w + padding, by push_cast; rfl⟩
    obtain ⟨ha, hpa⟩ := ih hn hl
    have hp : (p.size.h : Rat) ≤ height := by exact_mod_cast hp
    have hw : (p.size.w : Rat) ≤ Layer.width (p :: l) := by
      rw [width_cons]
      exact_mod_cast (by split <;> omega :
        p.size.w ≤ if l = [] then p.size.w else p.size.w + (padding + Layer.width l))
    rw [placeLayer]
    refine ⟨forall_mem_cons.2 ⟨⟨le_rfl, ?_, ?_, ?_, ⟨nx, rfl⟩, ?_⟩, fun q hq => ?_⟩,
      pairwise_cons.2 ⟨fun q hq => .inl ?_, hpa⟩⟩
    · exact add_le_add_right hw _
    · dsimp only
      linarith
    · dsimp only
      linarith
    · refine ⟨2 * ny + height - p.size.h, ?_⟩
      push_cast
      ring
    · have hne : l ≠ [] := by
        rintro rfl
        exact absurd hq not_mem_nil
      have h := ha q hq
      refine ⟨?_, h.right.trans ?_, h.top, h.bottom, h.whole_x, h.half_y⟩
      · have := h.left
        have : (0 : Rat) ≤ p.size.w + padding := by positivity
        linarith
      · rw [width_cons, if_neg hne]
        push_cast
        linarith
    · have := (ha q hq).left
      have : (0 : Rat) ≤ padding := by positivity
      dsimp only
      linarith

/-- Layers stand below one another. -/
theorem placeLayers_inside (hx : ∃ n : Int, x = n) (hy : ∃ n : Int, y = n)
    (hr : ∀ l ∈ ls, x + l.width ≤ right) :
    (∀ q ∈ placeLayers x y ls, q.Inside x y right (y + contentHeight ls - padding)) ∧
      (placeLayers x y ls).Pairwise Placed.Precedes := by
  induction ls generalizing y with
  | nil => exact ⟨fun _ hq => absurd hq not_mem_nil, .nil⟩
  | cons l ls ih =>
    obtain ⟨hl, hls⟩ := forall_mem_cons.1 hr
    obtain ⟨ny, rfl⟩ := hy
    have hn : ∃ n : Int, (ny : Rat) + l.height + padding = n :=
      ⟨ny + l.height + padding, by push_cast; rfl⟩
    obtain ⟨ha, hpa⟩ := ih hn hls
    obtain ⟨hfi, hf⟩ := placeLayer_inside (y := (ny : Rat)) hx ⟨ny, rfl⟩
      (le_foldl_max (fun p : Part => p.size.h) l 0).2
    have hh : (contentHeight (l :: ls) : Rat) = l.height + (padding + contentHeight ls) := by
      rw [contentHeight_cons]
      push_cast
      rfl
    have hno : (0 : Rat) ≤ contentHeight ls ∧ (0 : Rat) ≤ l.height ∧ (0 : Rat) ≤ padding :=
      ⟨by positivity, by positivity, by positivity⟩
    rw [placeLayers]
    refine ⟨fun q hq => ?_, pairwise_append.2 ⟨hf, hpa, fun p hp q hq => .inr ?_⟩⟩
    · rcases mem_append.1 hq with hq | hq
      · have h := hfi q hq
        refine ⟨h.left, h.right.trans hl, h.top, h.bottom.trans ?_, h.whole_x, h.half_y⟩
        rw [hh]
        show (ny : Rat) + l.height ≤ _
        linarith
      · have h := ha q hq
        refine ⟨h.left, h.right, ?_, h.bottom.trans ?_, h.whole_x, h.half_y⟩
        · linarith [h.top]
        · rw [hh]
          linarith
    · have h1 : p.y + p.part.size.h ≤ (ny : Rat) + l.height := (hfi p hp).bottom
      linarith [(ha q hq).top]

/-! ## Slots inside the block -/

/-- A rectangle lies inside a surface, with corners at halves of pixels. -/
structure Rect.Inside (r : Rect Rat) (s : Size) : Prop where
  left : 0 ≤ r.x
  right : r.x + r.w ≤ s.w
  top : 0 ≤ r.y
  bottom : r.y + r.h ≤ s.h
  half_x : ∃ n : Int, r.x * 2 = n
  half_y : ∃ n : Int, r.y * 2 = n

/-- Rectangles that have no point in common. -/
def Rect.Apart (r s : Rect Rat) : Prop :=
  r.x + r.w ≤ s.x ∨ s.x + s.w ≤ r.x ∨ r.y + r.h ≤ s.y ∨ s.y + s.h ≤ r.y

/-- The left of the contents of a block on their surface. -/
abbrev Definition.margin (d : Definition) : Rat := if d.blockType = .reporter then 0 else 16

theorem Definition.margin_nonneg (d : Definition) : 0 ≤ d.margin := by
  unfold margin
  split <;> decide

theorem leftPadding_nonneg (d : Definition) (height : Nat) : 0 ≤ leftPadding d height := by
  unfold leftPadding
  split <;> first | exact Int.fdiv_nonneg (Int.natCast_nonneg _) (by decide) | decide

theorem le_wholeSide (n : Int) : n ≤ wholeSide n := by
  unfold wholeSide
  split <;> omega

/-- The shape of a block leaves room for its contents at the left padding. -/
theorem leftPadding_fits (d : Definition) (ls : List Layer) :
    d.margin + contentWidth ls + leftPadding d (contentHeight ls) ≤ ((blockSize d ls).w : Rat) := by
  generalize hw : contentWidth ls = w
  generalize hh : contentHeight ls = h
  simp only [blockSize, hw, hh, Definition.margin]
  by_cases ht : d.blockType = .reporter
  · rw [if_pos ht, if_pos ht, zero_add]
    -- Shapes of reporters are as wide as their contents and twice the padding, and wider.
    suffices hf : (w : Int) + leftPadding d h ≤ (wrapSize d ⟨w + 0, h⟩).w by exact_mod_cast hf
    cases ho : d.outputType with
    | text =>
      simp only [leftPadding, wrapSize, textSize, ht, ho, Int.fdiv_eq_ediv_of_nonneg _ (by decide : (0 : Int) ≤ 4)]
      refine le_trans ?_ (le_wholeSide _)
      rw [Rat.le_floor_iff]
      have hq : (((h : Int) / 4 : Int) : Rat) * 4 ≤ h := by
        exact_mod_cast (by omega : (h : Int) / 4 * 4 ≤ h)
      have : (0 : Rat) ≤ h := by positivity
      push_cast
      linarith
    | _ =>
      simp only [leftPadding, wrapSize, endsSize, anySize, ht, ho,
        Int.fdiv_eq_ediv_of_nonneg _ (by decide : (0 : Int) ≤ 2)]
      push_cast
      omega
  · have hp : leftPadding d h = 0 := by cases ht' : d.blockType <;> simp_all [leftPadding]
    have hwi : (wrapSize d ⟨w + 32, h⟩).w = w + 32 := by
      cases ht' : d.blockType <;> simp_all [wrapSize]
    rw [if_neg ht, if_neg ht, hp, hwi]
    push_cast
    linarith

/-- The shape of a block leaves room for its contents at the top padding; at least half a gap is left
over below. -/
theorem topPadding_fits (d : Definition) (ls : List Layer) :
    contentHeight ls + topPadding d.blockType ≤ (blockSize d ls).h + 4 := by
  generalize hw : contentWidth ls = w
  simp only [blockSize, hw]
  cases ht : d.blockType <;> cases ho : d.outputType <;>
    simp [topPadding, wrapSize, textSize, endsSize, anySize, ht, ho]

/-- The slots of a block lie inside it, apart from one another. -/
theorem slotsOf_inside (d : Definition) (ls : List Layer) :
    (∀ r ∈ d.slotsOf ls, r.Inside (blockSize d ls)) ∧ (d.slotsOf ls).Pairwise Rect.Apart := by
  have hm : ∃ n : Int, d.margin = n := by
    unfold Definition.margin
    split
    · exact ⟨0, rfl⟩
    · exact ⟨16, rfl⟩
  have hri (l : Layer) (hl : l ∈ ls) : d.margin + l.width ≤ d.margin + contentWidth ls := by
    have := (le_foldl_max Layer.width ls leastWidth).2 l hl
    exact add_le_add_right (by exact_mod_cast this) _
  obtain ⟨ha, hp⟩ := placeLayers_inside (y := 4) hm ⟨4, rfl⟩ hri
  constructor
  · intro r hr
    obtain ⟨q, hq, rfl⟩ := mem_map.1 hr
    have h := ha q (mem_filter.1 hq).1
    have hle : (0 : Rat) ≤ leftPadding d (contentHeight ls) := by
      exact_mod_cast leftPadding_nonneg d _
    have ht : (contentHeight ls : Rat) + topPadding d.blockType ≤ (blockSize d ls).h + 4 := by
      exact_mod_cast topPadding_fits d ls
    obtain ⟨nx, hx⟩ := h.whole_x
    obtain ⟨ny, hy⟩ := h.half_y
    have hm := d.margin_nonneg
    refine ⟨?_, ?_, ?_, ?_, ⟨nx * 2 + leftPadding d (contentHeight ls) * 2, ?_⟩,
      ⟨ny + topPadding d.blockType * 2, ?_⟩⟩ <;> simp only [slotRect]
    · linarith [h.left]
    · linarith [h.right, leftPadding_fits d ls]
    · have : (0 : Rat) ≤ topPadding d.blockType := by positivity
      linarith [h.top]
    · have hb := h.bottom
      simp only [padding] at hb
      push_cast at hb
      linarith
    · rw [hx]
      push_cast
      ring
    · rw [add_mul, hy]
      push_cast
      ring
  · refine List.Pairwise.map _ (fun p q h => ?_) (hp.filter _)
    rcases h with h | h
    · exact .inl (by simp only [slotRect]; linarith)
    · exact .inr (.inr (.inl (by simp only [slotRect]; linarith)))

/-! ## Slots as large as what stands in them -/

/-- The size of a slot, given what stands in it and the size of that. -/
def Tree.inputSize (comp : Component) (slot : Tree × Size) : Size :=
  if comp.kind = .statement then bodySize slot else slotSize comp slot

theorem flatten_flush (l : Layer) : (flush l).flatten = l := by
  cases l with
  | nil => rfl
  | cons p l => exact append_nil _

/-- The slots of a block in its layers, in their order. -/
theorem inputs_layers {cs : List Component} {slots : List (Tree × Size)} {current : Layer}
    (h : (cs.filter fun comp => decide (comp.kind ≠ .label)).length = slots.length) :
    ((Tree.layers cs slots current).flatten.filter (·.isInput)).map (·.size) =
      (current.filter (·.isInput)).map (·.size) ++
        List.zipWith Tree.inputSize (cs.filter fun comp => decide (comp.kind ≠ .label)) slots := by
  induction cs generalizing slots current with
  | nil => rw [Tree.layers, flatten_flush, filter_nil, zipWith_nil_left, append_nil]
  | cons comp cs ih =>
    by_cases hl : comp.kind = .label
    · rw [filter_cons_of_neg (by simpa using hl)] at h ⊢
      rw [Tree.layers_label hl, ih h]
      simp
    rw [filter_cons_of_pos (by simpa using hl)] at h ⊢
    obtain ⟨slot, slots, rfl⟩ := exists_cons_of_length_eq_add_one h.symm
    have hr := Nat.succ.inj h
    by_cases hb : comp.kind = .statement
    · rw [Tree.layers_body hb, flatten_append, flatten_flush, flatten_cons,
        filter_append, map_append, filter_append, map_append, ih hr]
      simp [Tree.inputSize, hb]
    · rw [Tree.layers_slot hl hb, ih hr]
      simp [Tree.inputSize, hb]

theorem size_slotsOf (d : Definition) (ls : List Layer) : (d.slotsOf ls).map (fun r => (r.w, r.h)) =
      ((ls.flatten.filter (·.isInput)).map (·.size)).map fun s => ((s.w : Rat), (s.h : Rat)) := by
  rw [← map_part_placeLayers d.margin 4, filter_map]
  simp only [Definition.slotsOf, slotRects, map_map]
  rfl

/-- Draw what stands in a slot of a block by itself. -/
def Sketch.input (color : Paint) (comp : Component) (v : Value) : Sketch Size := do
  match comp.kind with
  | .statement =>
    let body ← ofExcept (bodyOf (← get).store v)
    drawBody color (← match body with
      | none => drawEllipsis
      | some body => stack body)
  | .varName => drawInput block .varName color v
  | kind => drawInput block kind color (comp.filled v)

/-- What stands in a slot is drawn as large as its slot. -/
theorem exists_sketch_input (hc : color.HasOutline) (hl : comp.kind ≠ .label)
    (hd : comp.kind ≠ .statement → comp.default.IsLeaf) (ht : t.Drawable) (hf : t.Fitted)
    (hb : t.Bodied) (hfi : t.FitsSlot comp) (hbo : comp.kind = .statement → t.IsBody)
    (hv : c.store.Shows t v) :
    ∃ c', input color comp v c = .ok (Tree.inputSize comp (t, t.measure)) c' := by
  have hg : c.store.Grown c.store := .refl _
  have hh := hv.height_lt_depth.le
  have hp : Paints False c.store.Grown (input color comp v)
      (· = Tree.inputSize comp (t, t.measure)) := by
    unfold Tree.inputSize
    by_cases hs : comp.kind = .statement
    · rw [if_pos hs]
      simp only [input, hs]
      refine .bind .get fun c1 hc1 => ?_
      rcases Paints.bodyOf_eq hc1 hv with ⟨hof, -, -, hsi⟩ | ⟨r, rfl, hof, -, hsi⟩ | ⟨hnt, -⟩
      · refine Completes.bind (Paints.ofExcept hof) fun body hno => ?_
        rw [hno, hsi]
        refine Completes.bind Paints.drawEllipsis fun inner hi => ?_
        rw [← hi]
        exact Paints.drawBody color inner
      · refine Completes.bind (Paints.ofExcept hof) fun body hso => ?_
        rw [hso, hsi]
        refine Completes.bind ((Paints.sketch False c.store).2 t r ht (.inr hb) hv)
          fun inner hi => ?_
        rw [← (hi hf hh).1]
        exact Paints.drawBody color inner
      · exact absurd (hbo hs) hnt
    rw [if_neg hs]
    by_cases hn : comp.kind = .varName
    · simp only [input, hn]
      exact (Paints.nameSlot hc _ hn hv).mono fun size hsi => (hsi hfi).1
    · have hsl := Paints.valueSlot hc (Paints.sketch False c.store).1 hn hs
        (hd hs) ht (.inr hb) hv
      cases hk : comp.kind <;> simp only [input, hk] <;> first | contradiction | skip
      all_goals
        rw [hk] at hsl
        exact hsl.mono fun size hsi => (hsi hfi hf hh).1
  obtain ⟨size, c', hr, -, rfl⟩ := hp.run hg
  exact ⟨c', hr⟩

/-! ## Drawing a block -/

theorem exists_getElem?_of_forall₂ {β : Type} {R : α → β → Prop} {xs : List α} {ys : List β}
    (h : List.Forall₂ R xs ys) {k : Nat} {a : α} (ha : xs[k]? = some a) :
    ∃ b, ys[k]? = some b ∧ R a b := by
  obtain ⟨hk, rfl⟩ := List.getElem?_eq_some_iff.1 ha
  have hk' : k < ys.length := by rwa [← h.length_eq]
  exact ⟨ys[k], getElem?_eq_getElem hk', h.get hk hk'⟩

/-- A block on a canvas, as it is remembered on another one where it was drawn. -/
structure Canvas.LaysOut (c c' : Canvas) (b : BlockId) (size : Size) : Prop where
  /-- The block has the size of its surface. -/
  rect : (c'.store.block b).rect = ⟨0, 0, size.w, size.h⟩
  /-- There is a rectangle for each slot. -/
  length_slots : (c'.store.block b).slots.length = (c.store.definitionOf b).countInputs
  /-- It is as large as what stands in the slot is drawn. -/
  size_slot : ∀ k comp v r, (c.store.definitionOf b).inputs[k]? = some comp → c.store.slot? b k = some v →
    (c'.store.block b).slots[k]? = some r → ∃ s c'',
      input (c.store.definitionOf b).color comp v c = .ok s c'' ∧ r.w = s.w ∧ r.h = s.h
  /-- Slots are apart from one another. -/
  apart : (c'.store.block b).slots.Pairwise Rect.Apart
  /-- They lie inside the block. -/
  inside : ∀ r ∈ (c'.store.block b).slots, r.Inside size

/-- A block of a drawable tree is drawn, and whatever was remembered before, it is laid out. -/
theorem block_layout_sound (hb : c.store.Shows t (.block b)) (ht : t.Drawable) (hfitted : t.Fitted)
    (hbodied : t.Bodied) : ∃ size c', Sketch.block b c = .ok size c' ∧ c.LaysOut c' b size := by
  obtain ⟨size, c', hrun, -, hsize⟩ :=
    ((Paints.sketch False c.store).1 t b ht (.inr hbodied) hb).run (.refl _)
  obtain ⟨hmeasure, -⟩ := hsize hfitted hb.height_lt_depth.le
  obtain ⟨ts, rfl, hlt, hts⟩ := hb.exists_block
  obtain ⟨n, hn⟩ : ∃ n, c.store.depth = n + 1 := ⟨_, rfl⟩
  have hdraw := hrun
  rw [Sketch.block, get_bind, hn] at hdraw
  obtain ⟨layers, c1, hlayers, hstore⟩ := drawBlockTo_eq_ok hdraw
  have hlt1 : b.index < c1.store.blocks.size := by
    rwa [← size_blocks_bare, Depicts.bare_eq (depicts_drawTo n).layers hlayers, size_blocks_bare]
  have hblock := congrArg (·.block b) hstore
  rw [block_modifyBlock_self _ hlt1] at hblock
  have hslots : (c'.store.block b).slots = (c.store.definitionOf b).slotsOf layers := congrArg _ hblock
  have hrect : (c'.store.block b).rect = ⟨0, 0, size.w, size.h⟩ := congrArg _ hblock
  have hchildren (u : Tree) (hu : u ∈ ts) : u.Drawable ∧ u.Fitted ∧ u.Bodied :=
    ⟨Tree.allDrawable_iff.1 ht.2.2 u hu, Tree.allFitted_iff.1 hfitted.2 u hu,
      Tree.allBodied_iff.1 hbodied.2 u hu⟩
  have hlayered := ((Paints.blockLayers (Paints.drawTo False c.store _).1
    (Paints.drawTo False c.store _).2 ht (.inr hbodied) hts).ok (.refl _) hlayers).2
  have hheight (u : Tree) (hu : u ∈ ts) : u.height ≤ n := by
    have := (Nat.lt_succ_of_le (Tree.height_le_heights hu)).trans hb.height_lt_depth
    omega
  obtain ⟨heq, -⟩ := hlayered.eq_layers hfitted.1 fun u hu => ⟨(hchildren u hu).2.1, hheight u hu⟩
  have hmeasured : size = blockSize (c.store.definitionOf b) layers := by
    rw [hmeasure, Tree.measure, Tree.measures_eq_map, heq]
  have hinputs : (layers.flatten.filter (·.isInput)).map (·.size) = zipWith Tree.inputSize
      (c.store.definitionOf b).inputs (ts.map fun u => (u, u.measure)) := by
    rw [heq, inputs_layers (by rw [length_map]; exact ht.2.1.symm)]
    rfl
  have hsizes := size_slotsOf (c.store.definitionOf b) layers
  rw [hinputs, ← hslots] at hsizes
  refine ⟨size, c', hrun, hrect, ?_, fun k comp v r hcomp hv hr => ?_, ?_, ?_⟩
  · have := congrArg length hsizes
    simpa [ht.2.1, Definition.countInputs] using this
  · obtain ⟨u, hu, hshows⟩ := exists_getElem?_of_forall₂ hts.flip hv
    have hk := congrArg (·[k]?) hsizes
    simp only [getElem?_map, hr, getElem?_zipWith, hcomp, hu, Option.map_some,
      Option.some.injEq, Prod.mk.injEq] at hk
    obtain ⟨hdrawable, hfits, hbodies⟩ := hchildren u (mem_of_getElem? hu)
    have hmem := mem_filter.1 (mem_of_getElem? hcomp)
    obtain ⟨_, hu', hfit⟩ := exists_getElem?_of_forall₂ hfitted.1 hcomp
    cases hu.symm.trans hu'
    obtain ⟨_, hu', hbody⟩ := exists_getElem?_of_forall₂ hbodied.1 hcomp
    cases hu.symm.trans hu'
    obtain ⟨c'', hinput⟩ := exists_sketch_input (c := c) ht.1.outline (by simpa using hmem.2)
      (ht.1.default_leaf comp hmem.1) hdrawable hfits hbodies hfit hbody hshows
    exact ⟨_, c'', hinput, hk⟩
  · rw [hslots]
    exact (slotsOf_inside ..).2
  · rw [hslots, hmeasured]
    exact (slotsOf_inside ..).1

/-- Say a greeting as many times as a sum says, when the program starts. -/
def repeatedGreeting : Store :=
  let s := (empty.addBlock (Run.named "print") [.text "hi"]).2
  let s := (s.addBlock (Run.named "+") [.int 1, .int 2]).2
  let s := (s.addStack [⟨0⟩] none).2
  let s := (s.addBlock (Run.named "repeat") [.block ⟨1⟩, .stack ⟨1⟩]).2
  let s := (s.addBlock (Run.named "start") []).2
  (s.addStack [⟨3⟩, ⟨2⟩] (some [.int 5, .int 7])).2

/-- What the loop of the greeting shows. -/
def greetingTree : Tree :=
  .block (Run.named "repeat") [.block (Run.named "+") [.number 1, .number 2],
    .stack none [.block (Run.named "print") [.text "hi"]]]

theorem repeatedGreeting_shows : repeatedGreeting.Shows greetingTree (.block ⟨2⟩) :=
  ⟨⟨2⟩, rfl, by decide, rfl, _, _, rfl,
    ⟨⟨1⟩, rfl, by decide, rfl, _, _, rfl, rfl, _, _, rfl, rfl, rfl⟩, _, _, rfl,
    ⟨⟨1⟩, rfl, ⟨by decide, by decide⟩, rfl, _, _, rfl,
      ⟨⟨0⟩, rfl, by decide, rfl, _, _, rfl, rfl, rfl⟩, rfl⟩, rfl⟩

theorem greetingTree_drawable : greetingTree.Drawable ∧ greetingTree.Fitted ∧ greetingTree.Bodied := by
  refine ⟨Tree.Known.drawable ?_, ?_, ?_⟩
  · exact ⟨Run.named_mem "repeat" rfl, rfl, ⟨Run.named_mem "+" rfl, rfl, trivial, trivial, trivial⟩,
      ⟨by simp [Tree.IsBlock], ⟨Run.named_mem "print" rfl, rfl, trivial, trivial⟩, trivial⟩, trivial⟩
  · refine ⟨.cons nofun (.cons rfl .nil), ⟨?_, trivial, trivial, trivial⟩, ⟨?_, trivial⟩, trivial⟩
    · exact .cons trivial (.cons trivial .nil)
    · exact ⟨.cons trivial .nil, trivial, trivial⟩
  · refine ⟨.cons nofun (.cons (fun _ => trivial) .nil), ⟨?_, trivial, trivial, trivial⟩, ⟨?_, trivial⟩,
      trivial⟩
    · exact .cons nofun (.cons nofun .nil)
    · exact ⟨.cons nofun .nil, trivial, trivial⟩

theorem block_layout_sound_of_greeting : ∃ size c',
    Sketch.block ⟨2⟩ { store := repeatedGreeting } = .ok size c' ∧
      Canvas.LaysOut { store := repeatedGreeting } c' ⟨2⟩ size :=
  block_layout_sound repeatedGreeting_shows greetingTree_drawable.1 greetingTree_drawable.2.1
    greetingTree_drawable.2.2

end BlockStudio
