import BlockStudio.Proofs.BlockLayout
import BlockStudio.Proofs.Pointing

/-!
# The blocks of a drawn stack

The blocks of a stack stand below one another without a gap.  The peg of a block reaches into the next
one, and since every block is higher than two pegs, only neighbours overlap.  A point of the workspace
is therefore in one block or in the overlap of two, and the upper one of these is found there.
-/

namespace BlockStudio

open Layout Shape Store List

variable {parts : List (BlockType × Size)} {part : BlockType × Size} {y : Int} {j k : Nat} {t : Tree}
  {ts : List Tree} {c c' : Canvas} {r : StackId} {size : Size}

/-! ## Places one below the other -/

namespace Layout

/-- The top of a block in a stack of blocks of the given types and sizes. -/
def topOf : List (BlockType × Size) → Nat → Int
  | part :: parts, k + 1 => part.2.h - overlap part.1 + topOf parts k
  | _, _ => 0

/-- A block that is higher than its peg and that of the block above it. -/
def IsHigh (part : BlockType × Size) : Prop := overlap part.1 + 8 ≤ part.2.h

/-- Where blocks of the given types and sizes are remembered in a stack. -/
def places (parts : List (BlockType × Size)) : List (Rect Int) :=
  (parts.zip (tops 0 parts)).map fun part => ⟨0, part.2, part.1.2.w, part.1.2.h⟩

theorem tops_getElem? (h : k < parts.length) : (tops y parts)[k]? = some (y + topOf parts k) := by
  induction parts generalizing y k with
  | nil => exact absurd h (Nat.not_lt_zero k)
  | cons part parts ih =>
    cases k with
    | zero => simp [tops, topOf]
    | succ k =>
      rw [tops, getElem?_cons_succ, ih (Nat.lt_of_succ_lt_succ h), topOf]
      congr 1
      omega

theorem topOf_succ (h : parts[k]? = some part) :
    topOf parts (k + 1) = topOf parts k + part.2.h - overlap part.1 := by
  induction parts generalizing k with
  | nil => cases h
  | cons first parts ih =>
    cases k with
    | zero =>
      cases h
      simp [topOf]
    | succ k =>
      rw [topOf, ih h, topOf]
      omega

theorem bottom_eq (h : parts[k]? = some part) (hk : k + 1 = parts.length) :
    bottom y parts = y + topOf parts k + part.2.h := by
  induction parts generalizing y k with
  | nil => cases h
  | cons first parts ih =>
    cases parts with
    | nil =>
      obtain rfl : k = 0 := Nat.succ.inj hk
      cases h
      simp [bottom, topOf]
    | cons second parts =>
      obtain ⟨k, rfl⟩ : ∃ m, k = m + 1 := ⟨k - 1, by simp at hk; omega⟩
      rw [bottom, ih h (Nat.succ.inj hk), topOf]
      · omega
      · simp

/-- Each block moves the next one down by more than a peg. -/
theorem topOf_add_le (hh : ∀ part ∈ parts, IsHigh part) (hjk : j ≤ k) (hk : k ≤ parts.length) :
    topOf parts j + 8 * (k - j : Nat) ≤ topOf parts k := by
  induction k, hjk using Nat.le_induction with
  | base => simp
  | succ k hjk ih =>
    have h := getElem?_eq_getElem hk
    have hs : IsHigh parts[k] := hh _ (getElem_mem _)
    have := ih (Nat.le_of_succ_le hk)
    rw [topOf_succ h]
    unfold IsHigh at hs
    omega

theorem length_tops (y : Int) (parts : List (BlockType × Size)) : (tops y parts).length = parts.length := by
  induction parts generalizing y with
  | nil => rfl
  | cons part parts ih => rw [tops, length_cons, ih, length_cons]

theorem length_places (parts : List (BlockType × Size)) : (places parts).length = parts.length := by
  simp [places, length_tops]

theorem places_getElem? {q : Rect Int} (h : (places parts)[k]? = some q) :
    ∃ part, parts[k]? = some part ∧ q = ⟨0, topOf parts k, part.2.w, part.2.h⟩ := by
  obtain ⟨hk, -⟩ := List.getElem?_eq_some_iff.1 h
  rw [length_places] at hk
  simp only [places, zip, getElem?_map, getElem?_zipWith, getElem?_eq_getElem hk,
    tops_getElem? hk, Option.map_some, Option.some.injEq, Int.zero_add] at h
  exact ⟨parts[k], getElem?_eq_getElem hk, h.symm⟩

/-- How the blocks of a stack lie on its surface. -/
structure Tiled (parts : List (BlockType × Size)) (rects : List (Rect Int)) (size : Size) : Prop where
  length_rects : rects.length = parts.length
  /-- Every block stands at the left and has the size of its own drawing. -/
  rect : ∀ (k : Nat) (part : BlockType × Size) (q : Rect Int), parts[k]? = some part → rects[k]? = some q →
    q.x = 0 ∧ q.w = part.2.w ∧ q.h = part.2.h
  /-- The first one stands at the top. -/
  first : ∀ q : Rect Int, rects[0]? = some q → q.y = 0
  /-- The next one begins where a block ends, or reaches into it. -/
  next : ∀ (k : Nat) (part : BlockType × Size) (q q' : Rect Int), parts[k]? = some part → rects[k]? = some q →
    rects[k + 1]? = some q' → q'.y = q.y + q.h - overlap part.1
  /-- The surface is as wide as the widest block. -/
  width : (parts.map (·.2.w)).max? = some size.w
  /-- The surface ends with the last block. -/
  height : ∀ q : Rect Int, rects[rects.length - 1]? = some q → q.y + q.h = size.h
  /-- Every block lies inside the surface. -/
  inside : ∀ q : Rect Int, q ∈ rects → 0 ≤ q.y ∧ q.y + q.h ≤ size.h ∧ q.w ≤ size.w
  /-- Only neighbours overlap. -/
  apart : ∀ (j k : Nat) (q q' : Rect Int), j + 1 < k → rects[j]? = some q → rects[k]? = some q' →
    q.y + q.h ≤ q'.y

theorem max?_foldl (f : BlockType × Size → Nat) (hp : parts ≠ []) :
    (parts.map f).max? = some (parts.foldl (fun n part => max n (f part)) 0) := by
  obtain ⟨part, parts, rfl⟩ := exists_cons_of_ne_nil hp
  rw [map_cons, max?_cons', foldl_cons, Nat.zero_max, foldl_map]

theorem wholeSide_of_pos {n : Int} (h : 0 < n) : (wholeSide n : Int) = n := by
  rw [wholeSide, if_pos h, Int.toNat_of_nonneg h.le]

theorem overlap_le (type : BlockType) : overlap type ≤ 8 := by cases type <;> decide

/-- Blocks that are high enough tile their stack. -/
theorem tiled_places (hpa : parts ≠ []) (hhi : ∀ part ∈ parts, IsHigh part)
    (hwi : ∀ part ∈ parts, 0 < part.2.w) : Tiled parts (places parts) (stackSize parts) := by
  obtain ⟨last, hl⟩ : ∃ last, parts[parts.length - 1]? = some last :=
    ⟨_, getElem?_eq_getElem (Nat.sub_lt (length_pos_of_ne_nil hpa) Nat.one_pos)⟩
  have hle : parts.length - 1 + 1 = parts.length :=
    Nat.sub_add_cancel (length_pos_of_ne_nil hpa)
  have hh : IsHigh last := hhi last (mem_of_getElem? hl)
  have hm := le_foldl_max (fun part : BlockType × Size => part.2.w) parts 0
  have ht (k : Nat) (hk : k ≤ parts.length) : 0 ≤ topOf parts k := by
    have := topOf_add_le hhi (Nat.zero_le k) hk
    have hz : topOf parts 0 = 0 := by cases parts <;> rfl
    omega
  have hhe : ((stackSize parts).h : Int) = topOf parts (parts.length - 1) + last.2.h := by
    have hb := bottom_eq (y := 0) hl hle
    have := ht _ (Nat.sub_le parts.length 1)
    unfold IsHigh at hh
    rw [stackSize, Size.whole, wholeSide_of_pos (by omega), hb]
    omega
  have hw : (stackSize parts).w = parts.foldl (fun n part => max n part.2.w) 0 := by
    have hpo := (hwi last (mem_of_getElem? hl)).trans_le (hm.2 last (mem_of_getElem? hl))
    have := wholeSide_of_pos (Int.natCast_pos.2 hpo)
    exact_mod_cast this
  -- A block that does not end the stack ends above the peg of the next one.
  have hbe {j k : Nat} {part : BlockType × Size} (hj : parts[j]? = some part) (hjk : j + 1 < k)
      (hk : k ≤ parts.length) : topOf parts j + part.2.h ≤ topOf parts k := by
    have := topOf_succ hj
    have := topOf_add_le hhi hjk.le hk
    have := overlap_le part.1
    omega
  refine ⟨length_places parts, ?_, ?_, ?_, ?_, ?_, ?_, ?_⟩
  · intro k part q hp hq
    obtain ⟨part', hp', rfl⟩ := places_getElem? hq
    cases hp.symm.trans hp'
    exact ⟨rfl, rfl, rfl⟩
  · intro q hq
    obtain ⟨_, -, rfl⟩ := places_getElem? hq
    cases parts <;> rfl
  · intro k part q q' hp hq hq'
    obtain ⟨part', hp', rfl⟩ := places_getElem? hq
    cases hp.symm.trans hp'
    obtain ⟨_, -, rfl⟩ := places_getElem? hq'
    exact topOf_succ hp
  · rw [hw]
    exact max?_foldl (fun part => part.2.w) hpa
  · intro q hq
    rw [length_places] at hq
    obtain ⟨part, hp, rfl⟩ := places_getElem? hq
    cases hl.symm.trans hp
    exact hhe.symm
  · intro q hq
    obtain ⟨k, hq⟩ := getElem?_of_mem hq
    obtain ⟨part, hp, rfl⟩ := places_getElem? hq
    obtain ⟨hk, -⟩ := List.getElem?_eq_some_iff.1 hp
    refine ⟨ht k hk.le, ?_, ?_⟩
    · rcases Nat.lt_or_ge (k + 1) parts.length with hn | he
      · have := topOf_succ hp
        have := topOf_add_le hhi (Nat.le_sub_one_of_lt hn) (Nat.sub_le parts.length 1)
        have := overlap_le part.1
        unfold IsHigh at hh
        dsimp only
        omega
      · obtain rfl : k = parts.length - 1 := by omega
        cases hl.symm.trans hp
        exact hhe.ge
    · rw [hw]
      exact Int.ofNat_le.2 (hm.2 part (mem_of_getElem? hp))
  · intro j k q q' hjk hq hq'
    obtain ⟨part, hp, rfl⟩ := places_getElem? hq
    obtain ⟨part', hp', rfl⟩ := places_getElem? hq'
    exact hbe hp hjk (List.getElem?_eq_some_iff.1 hp').1.le

theorem layers_ne_nil {cs : List Component} {slots : List (Tree × Size)} {current : Layer}
    (h : (cs.filter fun comp => decide (comp.kind ≠ .label)).length = slots.length)
    (hne : cs ≠ [] ∨ current ≠ []) : Tree.layers cs slots current ≠ [] := by
  induction cs generalizing slots current with
  | nil => cases current <;> simp_all [Tree.layers, flush]
  | cons comp cs ih =>
    by_cases hl : comp.kind = .label
    · rw [filter_cons_of_neg (by simpa using hl)] at h
      rw [Tree.layers_label hl]
      exact ih h (.inr (by simp))
    rw [filter_cons_of_pos (by simpa using hl)] at h
    obtain ⟨slot, slots, rfl⟩ := exists_cons_of_length_eq_add_one h.symm
    by_cases hb : comp.kind = .statement
    · rw [Tree.layers_body hb]
      simp
    · rw [Tree.layers_slot hl hb]
      exact ih (Nat.succ.inj h) (.inr (by simp))

/-- Whatever stands in it, a block is higher than two pegs. -/
theorem isHigh_block {d : Definition} (ht : (Tree.block d ts).Drawable) :
    IsHigh (d.blockType, (Tree.block d ts).measure) ∧ 0 < (Tree.block d ts).measure.w := by
  rw [Tree.measure, Tree.measures_eq_map]
  have hl : Tree.layers d.components (ts.map fun u => (u, u.measure)) [] ≠ [] :=
    layers_ne_nil (by rw [length_map]; exact ht.2.1.symm) (.inl ht.1.components_ne_nil)
  generalize Tree.layers d.components _ [] = ls at hl
  constructor
  · have := padding_le_contentHeight hl
    unfold IsHigh blockSize
    generalize contentWidth ls = w
    cases hty : d.blockType <;> cases ho : d.outputType <;>
      simp_all [overlap, wrapSize, textSize, endsSize, anySize, padding]
  · have hle : (leastWidth : Rat) ≤ contentWidth ls := by
      exact_mod_cast (le_foldl_max Layer.width ls leastWidth).1
    have hlf : (0 : Rat) ≤ leftPadding d (contentHeight ls) := by
      exact_mod_cast leftPadding_nonneg d _
    have hp : (0 : Rat) < leastWidth := by decide
    have : (0 : Rat) < (blockSize d ls).w := by linarith [leftPadding_fits d ls, d.margin_nonneg]
    exact_mod_cast this

end Layout

/-! ## Drawing a stack -/

/-- Blocks that are put onto the surface of a stack are remembered there. -/
theorem rects_of_forIn (items : List ((BlockId × BlockType × Size) × Int)) {u : PUnit} {s : Size}
    (hn : (items.map (·.1.1)).Nodup) (hlt : ∀ i ∈ items, i.1.1.index < c.store.blocks.size)
    (h : (forIn items PUnit.unit fun i _ => do
      Sketch.modifyStore (·.modifyBlock i.1.1 fun b =>
        { b with rect := ⟨0, i.2, i.1.2.2.w, i.1.2.2.h⟩ })
      Shape.blit s i.1.2.2 0 i.2
      return ForInStep.yield PUnit.unit : Sketch PUnit) c = .ok u c') :
    (∀ i ∈ items, (c'.store.block i.1.1).rect = ⟨0, i.2, i.1.2.2.w, i.1.2.2.h⟩) ∧
      ∀ b, b ∉ items.map (·.1.1) → c'.store.block b = c.store.block b := by
  induction items generalizing c with
  | nil =>
    obtain ⟨-, rfl⟩ := pure_eq_ok.1 h
    exact ⟨fun _ hi => absurd hi not_mem_nil, fun _ _ => rfl⟩
  | cons i items ih =>
    rw [forIn_cons] at h
    obtain ⟨step, c1, hs, h⟩ := bind_eq_ok.1 h
    obtain ⟨_, c2, hp, hs⟩ := bind_eq_ok.1 hs
    obtain ⟨_, c3, hbl, hs⟩ := bind_eq_ok.1 hs
    obtain ⟨rfl, rfl⟩ := pure_eq_ok.1 hs
    cases hp
    cases hbl
    obtain ⟨hi, hit⟩ := forall_mem_cons.1 hlt
    rw [map_cons, nodup_cons] at hn
    obtain ⟨ha, ho⟩ := ih hn.2 (fun j hj => by simpa [modifyBlock] using hit j hj) h
    refine ⟨forall_mem_cons.2 ⟨?_, ha⟩, fun b hb => ?_⟩
    · rw [ho _ hn.1]
      exact congrArg Block.rect (block_modifyBlock_self _ hi _)
    · rw [map_cons, mem_cons, not_or] at hb
      rw [ho b hb.2]
      exact block_modifyBlock_of_ne _ _ hb.1

theorem rects_of_assembleStack {items : List (BlockId × BlockType × Size)}
    (hn : (items.map (·.1)).Nodup) (hlt : ∀ i ∈ items, i.1.index < c.store.blocks.size)
    (h : assembleStack items (fun b rect =>
      Sketch.modifyStore (·.modifyBlock b fun b => { b with rect })) c = .ok size c') :
    size = stackSize (items.map (·.2)) ∧
      items.map (fun i => (c'.store.block i.1).rect) = places (items.map (·.2)) := by
  obtain ⟨_, c1, hl, h⟩ := bind_eq_ok.1 h
  obtain ⟨rfl, rfl⟩ := pure_eq_ok.1 h
  have hf : (items.zip (tops 0 (items.map (·.2)))).map Prod.fst = items :=
    map_fst_zip (by rw [length_tops, length_map])
  have hb := congrArg (map Prod.fst) hf
  rw [map_map] at hb
  obtain ⟨ha, -⟩ := rects_of_forIn (items.zip (tops 0 (items.map (·.2))))
    (hb ▸ hn) (fun i hi => hlt _ (hf ▸ mem_map_of_mem hi)) hl
  refine ⟨rfl, ?_⟩
  calc items.map (fun i => (c1.store.block i.1).rect)
      = (items.zip (tops 0 (items.map (·.2)))).map fun i => (c1.store.block i.1.1).rect := by
        conv_lhs => rw [← hf, map_map]
        rfl
    _ = (items.zip (tops 0 (items.map (·.2)))).map fun i => ⟨0, i.2, i.1.2.2.w, i.1.2.2.h⟩ :=
        map_congr_left ha
    _ = places (items.map (·.2)) := by
        rw [places, zip_map_left, map_map]
        rfl

/-- The block under a point is the first one whose rectangle contains it. -/
def Store.FindsBlocks (s : Store) (r : StackId) (rects : List (Rect Num)) : Prop :=
  ∀ p : Point, (∃ i, s.blockAt r p = .ok (some i) ∧ FirstAt rects p.x p.y i) ∨
    s.blockAt r p = .ok none ∧ ∀ q ∈ rects, q.contains p.x p.y = false

theorem findsBlocks {s : Store} {place : Point} (hp : (s.stack r).place = .ok place)
    (hne : s.blocksOf r ≠ []) :
    s.FindsBlocks r ((s.blocksOf r).map fun b => ((s.block b).rect.map Num.int).shift place.x place.y) := by
  intro p
  have hat : s.blockAt r p = .ok ((firstHit ((s.blocksOf r).map fun b =>
      ((s.block b).rect.map Num.int).shift place.x place.y) p.x p.y).map (·.1)) := by
    unfold blockAt
    simp only [List.isEmpty_iff, hne, if_false, hp]
    rfl
  rw [hat]
  rcases hf : firstHit _ p.x p.y with _ | ⟨i, q⟩
  · exact .inr ⟨rfl, firstHit_eq_none hf⟩
  · exact .inl ⟨i, rfl, (firstHit_eq_some hf).2⟩

/-- A stack of different blocks with a drawable tree is drawn, and its blocks tile it: each has the
size of its own drawing.  At any place of the stack the block under a point is found, the upper one
where two overlap. -/
theorem stack_layout_tiles (hr : c.store.Shows t (.stack r)) (ht : t.Drawable) (hfitted : t.Fitted)
    (hbodied : t.Bodied) (hne : c.store.blocksOf r ≠ []) (hnodup : (c.store.blocksOf r).Nodup) :
    ∃ size c' parts, Sketch.stack r c = .ok size c' ∧
      List.Forall₂ (fun b part => part.1 = (c.store.definitionOf b).blockType ∧
        ∃ c'', Sketch.block b c = .ok part.2 c'') (c.store.blocksOf r) parts ∧
      Tiled parts ((c.store.blocksOf r).map fun b => (c'.store.block b).rect) size ∧
      ∀ place, (c.store.stack r).place = .ok place → c'.store.FindsBlocks r
        ((c.store.blocksOf r).map fun b => ((c'.store.block b).rect.map Num.int).shift place.x place.y) := by
  obtain ⟨size, c', hrun, -, -⟩ :=
    ((Paints.sketch False c.store).2 t r ht (.inr hbodied) hr).run (.refl _)
  have hheight := hr.height_lt_depth
  obtain ⟨p, ts, rfl, hstack, -, hts⟩ := hr.exists_stack
  obtain ⟨n, hn⟩ : ∃ n, c.store.depth = n + 1 := ⟨_, rfl⟩
  have hdraw := hrun
  rw [Sketch.stack, get_bind, hn, drawStackTo, get_bind] at hdraw
  obtain ⟨items, c1, hitems, hassemble⟩ := bind_eq_ok.1 hdraw
  have hchildren (u : Tree) (hu : u ∈ ts) : u.Drawable ∧ u.Fitted ∧ u.Bodied :=
    ⟨Tree.allDrawable_iff.1 ht u hu, Tree.allFitted_iff.1 hfitted u hu,
      Tree.allBodied_iff.1 hbodied u hu⟩
  obtain ⟨hgrown, hparts⟩ := (Paints.stackParts (Paints.drawTo False c.store _).1
    (fun u hu => ⟨(hchildren u hu).1, .inr (hchildren u hu).2.2⟩) hts).ok (.refl _) hitems
  have hrow : c.store.blocksOf r = items.map (·.1) := by
    rw [← forall₂_eq_eq_eq, forall₂_map_right_iff]
    exact hparts.imp fun _ _ h => h.1.symm
  -- Each block shows a tree of the stack and is drawn as large as that.
  have hpart {b : BlockId} {i : BlockId × BlockType × Size} (hb : b ∈ c.store.blocksOf r)
      (hi : Paints.PartOf c.store n b i) :
      (i.2.1 = (c.store.definitionOf b).blockType ∧ ∃ c'', Sketch.block b c = .ok i.2.2 c'') ∧
        IsHigh i.2 ∧ 0 < i.2.2.w ∧ i.1.index < c.store.blocks.size := by
    obtain ⟨rfl, htype, hsize⟩ := hi
    obtain ⟨u, hu, hshows⟩ := exists_of_forall₂_left hts.flip hb
    obtain ⟨hdrawable, hfits, hbodies⟩ := hchildren u hu
    have huheight := Tree.height_le_heights hu
    obtain ⟨hmeasure, -⟩ := hsize u hshows hfits (by simp only [Tree.height] at hheight; omega)
    obtain ⟨_, c'', hblock, -, hdrawn⟩ :=
      ((Paints.sketch False c.store).1 u i.1 hdrawable (.inr hbodies) hshows).run (.refl _)
    rw [(hdrawn hfits hshows.height_lt_depth.le).1, ← hmeasure] at hblock
    obtain ⟨us, rfl, hlt, -⟩ := hshows.exists_block
    obtain ⟨hhigh, hwide⟩ := isHigh_block hdrawable
    rw [← hmeasure] at hhigh hwide
    rw [← htype] at hhigh
    exact ⟨⟨htype, c'', hblock⟩, hhigh, hwide, hlt⟩
  have hmem {i : BlockId × BlockType × Size} (hi : i ∈ items) :
      IsHigh i.2 ∧ 0 < i.2.2.w ∧ i.1.index < c.store.blocks.size := by
    obtain ⟨b, hb, hbi⟩ := exists_of_forall₂_left hparts.flip hi
    exact (hpart hb hbi).2
  obtain ⟨hsize, hrects⟩ := rects_of_assembleStack (hrow ▸ hnodup)
    (fun i hi => (hmem hi).2.2.trans_le hgrown.blocks_le) hassemble
  have hstacks : c'.store.undrawn = c.store.undrawn := (depicts_stack r).ok hrun
  have hsame : c'.store.stack r = c.store.stack r ∧ c'.store.blocksOf r = c.store.blocksOf r := by
    obtain ⟨-, hall, hrows, -⟩ := Store.mk.inj hstacks
    simp only [blocksOf, Store.stack, row, hrows, hall, and_self]
  refine ⟨size, c', items.map (·.2), hrun, ?_, ?_, fun place hplace => ?_⟩
  · rw [forall₂_map_right_iff]
    exact forall₂_of_mem hparts fun b i hb _ hi => (hpart hb hi).1
  · rw [hrow, map_map, Function.comp_def, hrects, hsize]
    refine tiled_places ?_ ?_ ?_
    · rw [hrow] at hne
      simpa using hne
    · exact forall_mem_map.2 fun i hi => (hmem hi).1
    · exact forall_mem_map.2 fun i hi => (hmem hi).2.1
  · rw [← hsame.1] at hplace
    rw [← hsame.2] at hne ⊢
    exact findsBlocks hplace hne

/-- The start and the loop of the greeting tile their stack. -/
theorem stack_layout_tiles_of_greeting : ∃ size c' parts,
    Sketch.stack ⟨2⟩ { store := repeatedGreeting } = .ok size c' ∧
      List.Forall₂ (fun b part => part.1 = (repeatedGreeting.definitionOf b).blockType ∧
        ∃ c'', Sketch.block b { store := repeatedGreeting } = .ok part.2 c'') [⟨3⟩, ⟨2⟩] parts ∧
      Tiled parts ([⟨3⟩, ⟨2⟩].map fun b => (c'.store.block b).rect) size ∧
      ∀ place, (repeatedGreeting.stack ⟨2⟩).place = .ok place → c'.store.FindsBlocks ⟨2⟩
        ([⟨3⟩, ⟨2⟩].map fun b => ((c'.store.block b).rect.map Num.int).shift place.x place.y) := by
  have hshows : repeatedGreeting.Shows (.stack (some [5, 7]) [.block (Run.named "start") [], greetingTree])
      (.stack ⟨2⟩) :=
    ⟨⟨2⟩, rfl, ⟨by decide, by decide⟩, rfl, _, _, rfl, ⟨⟨3⟩, rfl, by decide, rfl, rfl⟩, _, _, rfl,
      repeatedGreeting_shows, rfl⟩
  have hstart : (Tree.block (Run.named "start") []).Known := ⟨Run.named_mem "start" rfl, rfl, trivial⟩
  obtain ⟨hdrawable, hfitted, hbodied⟩ := greetingTree_drawable
  exact stack_layout_tiles hshows ⟨hstart.drawable, hdrawable, trivial⟩
    ⟨⟨.nil, trivial⟩, hfitted, trivial⟩ ⟨⟨.nil, trivial⟩, hbodied, trivial⟩ (cons_ne_nil _ _)
    (by decide)

end BlockStudio
