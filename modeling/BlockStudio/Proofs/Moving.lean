import BlockStudio.Proofs.Forest
import Mathlib.Data.List.InsertIdx

/-!
# Moving blocks about in a forest

Each manner in which the editor takes blocks from one place to another, as a change of the forest,
with what it keeps.  Where blocks move between rows, every place of the new forest is matched with
the place of the old one that its block came from; as no two places have the same origin, what stood
in one place only still does.
-/

namespace BlockStudio

open Store List

namespace Forest

variable {F : Forest} {s : Store} {b c : BlockId} {i : Nat} {t u : StackId}

/-! ## A new occupant of a slot -/

theorem Unshared.setValue_block {workspace : List StackId} {cursor : Option StackId}
    (hU : (Forest.mk s workspace cursor).Unshared) (hc : ∀ k, ¬(Forest.mk s workspace cursor).Holds k c) :
    (Forest.mk (s.setValue b i (.block c)) workspace cursor).Unshared := by
  have hs : ∀ x j t, (s.setValue b i (.block c)).slot? x j = some (.stack t) →
      s.slot? x j = some (.stack t) := by
    intro x j t h
    rcases slot?_setValue h with ⟨-, -, h⟩ | ⟨-, h⟩
    · cases h
    · exact h
  have hold : ∀ k x, (Forest.mk (s.setValue b i (.block c)) workspace cursor).Holds k x →
      (k = .slot b i ∧ x = c) ∨ (Forest.mk s workspace cursor).Holds k x := by
    intro k x hk
    cases k with
    | slot y j =>
      rcases slot?_setValue hk with ⟨rfl, rfl, h⟩ | ⟨-, h⟩
      · cases h
        exact .inl ⟨rfl, rfl⟩
      · exact .inr h
    | place t j => exact .inr ⟨hk.1.imp_right fun ⟨y, l, h⟩ => ⟨y, l, hs y l t h⟩, hk.2⟩
  refine ⟨fun k k' x hk hk' => ?_, fun x j x' j' t h h' =>
    hU.stack_once x j x' j' t (hs x j t h) (hs x' j' t h')⟩
  rcases hold k x hk with ⟨rfl, rfl⟩ | hk <;> rcases hold k' x hk' with ⟨rfl, hx⟩ | hk'
  · rfl
  · exact (hc k' hk').elim
  · rw [hx] at hk
    exact (hc k hk).elim
  · exact hU.block_once k k' x hk hk'

section Plug

variable {src : Store} {comp : Component}

/-- Old blocks stand above all new ones, so an old block may take up a new one. -/
theorem ranked_plug (hF : F.store.Sound) (h : Sprouts src F.store s [.block c])
    (hb : b.index < F.store.blocks.size) :
    ∃ rank : BlockId → Nat, (∀ x, x.index < s.blocks.size → rank x < s.blocks.size) ∧
      ∀ x j y, (s.setValue b i (.block c)).slot? x j = some (.block y) → rank y < rank x := by
  obtain ⟨rank, hr, hd⟩ := hF.ranked
  have hle := h.grown.blocks_le
  obtain ⟨hc, hcl⟩ := h.loose_block c (by simp)
  let n := F.store.blocks.size
  let rank' : BlockId → Nat := fun x =>
    if x.index < n then rank x + (s.blocks.size - n) else x.index - n
  have hold : ∀ x, x.index < n → rank' x = rank x + (s.blocks.size - n) := fun x hx => if_pos hx
  have hn : ∀ x, n ≤ x.index → rank' x = x.index - n := fun x hx => if_neg (Nat.not_lt_of_le hx)
  refine ⟨rank', fun x hx => ?_, fun x j y hy => ?_⟩
  · by_cases hlt : x.index < n
    · have := hr x hlt
      rw [hold x hlt]
      omega
    · rw [hn x (Nat.le_of_not_lt hlt)]
      omega
  · rcases slot?_setValue hy with ⟨rfl, -, hyc⟩ | ⟨-, hy⟩
    · cases hyc
      rw [hn _ hc, hold x hb]
      omega
    · by_cases hlt : x.index < n
      · rw [h.grown.slot?_eq hlt] at hy
        have := hd x j y hy
        rw [hold x hlt, hold y (hF.block_lt hy)]
        omega
      · have hx := Nat.le_of_not_lt hlt
        obtain ⟨hyn, hyx⟩ := h.block_new x j y hx hy
        rw [hn x hx, hn y hyn]
        omega

theorem Sound.plug (hF : F.Sound) (h : Sprouts src F.store s [.block c])
    (hb : b.index < F.store.blocks.size)
    (hc : (F.store.definitionOf b).inputs[i]? = some comp) (hf : s.Fits comp (.block c)) :
    (Forest.mk (s.setValue b i (.block c)) F.workspace none).Sound := by
  have hs : (Forest.mk s F.workspace none).Sound :=
    hF.sprout h (hF.nodup.sublist roots_discard) fun _ ht => .inl (roots_discard.subset ht)
  refine ⟨hs.store.setValue_of_ranked ?_ (ranked_plug hF.store h hb), hs.nodup, hs.root_lt,
    fun t ht => hs.apart t (held_setValue (by nofun) ht)⟩
  intro comp' hc'
  rw [h.grown.definition_eq b hb, hc] at hc'
  cases hc'
  exact hf

theorem Unshared.plug (hU : F.Unshared) (hF : F.Sound)
    (h : Sprouts src F.store s [.block c]) (hf : Fresh F.store s [.block c]) :
    (Forest.mk (s.setValue b i (.block c)) F.workspace none).Unshared := by
  have hr : ∀ t ∈ (Forest.mk s F.workspace none).roots, t ∈ F.roots ∨ .stack t ∈ [Value.block c] :=
    fun _ ht => .inl (roots_discard.subset ht)
  refine (hU.sprout hF h hf hr).setValue_block fun k hk => ?_
  refine hf.block_loose k c (by simp) ?_
  exact holds_of_le h hF.store (h.loose_block c (by simp)).1 hF.root_lt (holds_congr hr hk)

theorem Grammatical.plug (hG : F.Grammatical) (hF : F.Sound) (h : Sprouts F.store F.store s [.block c]) :
    (Forest.mk (s.setValue b i (.block c)) F.workspace none).Grammatical := by
  have hs : (Forest.mk s F.workspace none).Grammatical :=
    hG.sprout hF h hG.body fun _ ht => .inl (roots_discard.subset ht)
  exact hs.of_types (fun t ht => .inl ⟨ht, types_setValue t⟩) fun t ht =>
    .inl ⟨held_setValue (by nofun) ht, types_setValue t⟩

end Plug

section OpenBody

/-- The store after an unfilled slot for a body got an empty one. -/
def withBody (s : Store) (b : BlockId) (i : Nat) : Store :=
  (s.addStack [] none).2.setValue b i (.stack ⟨s.allStacks.size⟩)

theorem slot?_withBody {x : BlockId} {j : Nat} {v : Value} (h : (withBody s b i).slot? x j = some v) :
    (x = b ∧ j = i ∧ v = .stack ⟨s.allStacks.size⟩) ∨ s.slot? x j = some v := by
  rcases slot?_setValue h with h | ⟨-, h⟩
  · exact .inl h
  · exact .inr h

theorem held_withBody (h : (withBody s b i).Held t) : t = ⟨s.allStacks.size⟩ ∨ s.Held t := by
  obtain ⟨x, j, h⟩ := h
  rcases slot?_withBody h with ⟨-, -, h⟩ | h
  · cases h
    exact .inl rfl
  · exact .inr ⟨x, j, h⟩

theorem blocksOf_withBody_self : (withBody s b i).blocksOf ⟨s.allStacks.size⟩ = [] :=
  s.blocksOf_addStack_self [] none

theorem blocksOf_withBody_of_lt (hs : s.Sound) (ht : t.index < s.allStacks.size) :
    (withBody s b i).blocksOf t = s.blocksOf t :=
  blocksOf_addStack_of_lt hs [] none ht

theorem types_withBody_of_lt (hs : s.Sound) (ht : t.index < s.allStacks.size) :
    (withBody s b i).types t = s.types t := by
  simp only [types, blocksOf_withBody_of_lt hs ht]
  simp [withBody, definitionOf]

theorem Sound.openBody (hF : F.Sound) {comp : Component}
    (hc : (F.store.definitionOf b).inputs[i]? = some comp) (hk : comp.kind = .statement) :
    (Forest.mk (withBody F.store b i) F.workspace F.cursor).Sound := by
  have hs : (F.store.addStack [] none).2.Sound := hF.store.addStack none (by simp)
  refine ⟨hs.setValue (fun comp' hc' => ?_) (by simp), hF.nodup, fun t ht => ?_,
    fun t ht hr => ?_⟩
  · cases hc.symm.trans hc'
    exact ⟨by simp, hk⟩
  · have := hF.root_lt t ht
    simp only [withBody, setValue, modifyBlock, size_allStacks_addStack]
    omega
  · rcases held_withBody ht with rfl | ht
    · exact absurd (hF.root_lt _ hr) (Nat.lt_irrefl _)
    · exact hF.apart t ht hr

theorem Unshared.openBody (hU : F.Unshared) (hF : F.Sound) :
    (Forest.mk (withBody F.store b i) F.workspace F.cursor).Unshared := by
  have hold : ∀ k c, (Forest.mk (withBody F.store b i) F.workspace F.cursor).Holds k c →
      F.Holds k c := by
    intro k c hk
    cases k with
    | slot x j =>
      rcases slot?_withBody hk with ⟨-, -, h⟩ | h
      · cases h
      · exact h
    | place t j =>
      obtain ⟨hs, hg⟩ := hk
      by_cases ht : t = ⟨F.store.allStacks.size⟩
      · rw [ht, blocksOf_withBody_self] at hg
        cases hg
      · have hs : t ∈ F.roots ∨ F.store.Held t :=
          hs.imp_right fun h => (held_withBody h).resolve_left ht
        rw [blocksOf_withBody_of_lt hF.store (hF.shown_lt hs)] at hg
        exact ⟨hs, hg⟩
  refine ⟨fun k k' c hk hk' => hU.block_once k k' c (hold k c hk) (hold k' c hk'),
    fun x j x' j' t h h' => ?_⟩
  rcases slot?_withBody h with ⟨hx, hj, ht⟩ | hold <;>
    rcases slot?_withBody h' with ⟨hx', hj', ht'⟩ | ho'
  · exact ⟨hx.trans hx'.symm, hj.trans hj'.symm⟩
  · cases ht
    exact absurd (hF.store.stack_lt ho') (Nat.lt_irrefl _)
  · cases ht'
    exact absurd (hF.store.stack_lt hold) (Nat.lt_irrefl _)
  · exact hU.stack_once x j x' j' t hold ho'

theorem Grammatical.openBody (hG : F.Grammatical) (hF : F.Sound) :
    (Forest.mk (withBody F.store b i) F.workspace F.cursor).Grammatical := by
  refine hG.of_types (fun t ht => ?_) fun t ht => ?_
  · exact .inl ⟨ht, types_withBody_of_lt hF.store (hF.root_lt t ht)⟩
  · rcases held_withBody ht with rfl | ht
    · right
      simp [types, blocksOf_withBody_self, IsBody]
    · exact .inl ⟨ht, types_withBody_of_lt hF.store (hF.held_lt ht)⟩

end OpenBody

/-! ## Blocks that change rows -/

/-- A new stack shows the blocks of another one from a place on, where that stack ends. -/
theorem Unshared.of_tail {F' : Forest} (hU : F.Unshared)
    (hs : ∀ b i v, v.IsNode → F'.store.slot? b i = some v → F.store.slot? b i = some v)
    (hp : ∀ w j c, F'.Holds (.place w j) c → (w = u ∧ F.Holds (.place t (i + j)) c) ∨
      w ≠ u ∧ (w = t → j < i) ∧ F.Holds (.place w j) c) : F'.Unshared := by
  refine hU.of_places (fun w j => if w = u then (t, i + j) else (w, j)) hs
    (fun w j c hk => ?_) fun w j w' j' c hk hk' h => ?_
  · rcases hp w j c hk with ⟨rfl, h⟩ | ⟨hw, -, h⟩
    · simpa using h
    · simpa [hw] using h
  · rcases hp w j c hk with ⟨rfl, -⟩ | ⟨hw, hwt, -⟩ <;>
      rcases hp w' j' c hk' with ⟨rfl, -⟩ | ⟨hw', hW, -⟩
    · simpa using h
    · simp only [if_true, hw', if_false, Prod.mk.injEq] at h
      have := hW h.1.symm
      omega
    · simp only [if_true, hw, if_false, Prod.mk.injEq] at h
      have := hwt h.1
      omega
    · simpa [hw, hw'] using h

section Lift

variable {src : Store} {vs : List Value} {bs : List BlockId} {workspace : List StackId}
  {p : Option (List Value)}

/-- A new stack is dragged, and stacks may leave the workspace. -/
theorem Sound.addRoot (hF : F.Sound) (h : Sprouts src F.store s vs)
    (hbs : ∀ b ∈ bs, b.index < s.blocks.size) (hs : workspace.Sublist F.workspace) :
    (Forest.mk (s.addStack bs p).2 workspace (some ⟨s.allStacks.size⟩)).Sound := by
  refine hF.sprout (h.addStack p hbs) ?_ fun u hu => ?_
  · refine nodup_append.2 ⟨hF.nodup_workspace.sublist hs, by simp, fun u hu w hw => ?_⟩
    obtain rfl : w = ⟨s.allStacks.size⟩ := by simpa using hw
    have hlt := hF.root_lt u (workspace_subset_roots (hs.subset hu))
    exact mk_ne_of_lt (hlt.trans_le h.grown.stacks_le)
  · rcases mem_roots_some hu with hu | rfl
    · exact .inl (workspace_subset_roots (hs.subset hu))
    · refine .inr ⟨h.grown.stacks_le, by simp, ?_⟩
      rintro ⟨x, j, hx⟩
      exact absurd (h.sound.stack_lt hx) (Nat.lt_irrefl _)

theorem Grammatical.addRoot (hG : F.Grammatical) (hF : F.Sound) (h : Sprouts F.store F.store s vs)
    (hbs : ∀ b ∈ bs, b.index < s.blocks.size) (hs : workspace.Sublist F.workspace)
    (ht : IsTop (bs.map fun b => (s.definitionOf b).blockType)) :
    (Forest.mk (s.addStack bs p).2 workspace (some ⟨s.allStacks.size⟩)).Grammatical := by
  refine hG.sprout hF (h.addStack p hbs) hG.body fun u hu => ?_
  rcases mem_roots_some hu with hu | rfl
  · exact .inl (workspace_subset_roots (hs.subset hu))
  · rw [types, blocksOf_addStack_self]
    exact .inr ht

/-- The copy of a stack is dragged. -/
theorem Sound.copyRoot (hF : F.Sound) (hs : workspace.Sublist F.workspace) :
    (Forest.mk (F.store.copyStack t).2 workspace (some ⟨F.store.allStacks.size⟩)).Sound :=
  hF.addRoot (.self F.store hF.store) (fun _ => hF.store.mem_blocksOf) hs

theorem Grammatical.copyRoot (hG : F.Grammatical) (hF : F.Sound) (ht : IsTop (F.store.types t))
    (hs : workspace.Sublist F.workspace) :
    (Forest.mk (F.store.copyStack t).2 workspace (some ⟨F.store.allStacks.size⟩)).Grammatical :=
  hG.addRoot hF (.self F.store hF.store) (fun _ => hF.store.mem_blocksOf) hs ht

/-- A stack that is nowhere any more lives on as the dragged stack. -/
theorem Unshared.lift (hU : F.Unshared) (hF : F.Sound) {s' : Store}
    (hs : ∀ b i v, v.IsNode → s'.slot? b i = some v → F.store.slot? b i = some v)
    (hr : ∀ u, s'.blocksOf u = (F.store.copyStack t).2.blocksOf u)
    (hsh : t ∈ F.roots ∨ F.store.Held t) (hgo : t ∉ workspace ∧ ¬s'.Held t)
    (hsu : workspace.Sublist F.workspace) :
    (Forest.mk s' workspace (some ⟨F.store.allStacks.size⟩)).Unshared := by
  refine hU.of_tail (t := t) (u := ⟨F.store.allStacks.size⟩) (i := 0) hs ?_
  rintro u j c ⟨hu, hg⟩
  rw [hr] at hg
  by_cases hn : u = ⟨F.store.allStacks.size⟩
  · rw [hn, copyStack, blocksOf_addStack_self] at hg
    exact .inl ⟨hn, hsh, (Nat.zero_add j).symm ▸ hg⟩
  · have hu : u ∈ workspace ∨ s'.Held u := hu.imp_left fun h => (mem_roots_some h).resolve_right hn
    have hu' : u ∈ F.roots ∨ F.store.Held u :=
      hu.imp (fun h => workspace_subset_roots (hsu.subset h))
        fun ⟨x, l, h⟩ => ⟨x, l, hs x l _ trivial h⟩
    rw [copyStack, blocksOf_addStack_of_lt hF.store _ _ (hF.shown_lt hu')] at hg
    refine .inr ⟨hn, ?_, hu', hg⟩
    rintro rfl
    exact (hu.elim hgo.1 hgo.2).elim

end Lift

section Split

/-- The store after a stack was cut above the block with a number. -/
def cut (s : Store) (t : StackId) (i : Nat) : Store :=
  (s.addStack ((s.blocksOf t).drop i) none).2.replaceRow t ((s.blocksOf t).take i)

theorem size_allStacks_cut : (cut s t i).allStacks.size = s.allStacks.size + 1 := by simp [cut]

theorem sound_addStack_drop (hs : s.Sound) : (s.addStack ((s.blocksOf t).drop i) none).2.Sound :=
  hs.addStack none fun _ hb => hs.mem_blocksOf (mem_of_mem_drop hb)

theorem blocksOf_cut_self (ht : t.index < s.allStacks.size) :
    (cut s t i).blocksOf t = (s.blocksOf t).take i := by
  refine blocksOf_replaceRow_self ?_ _
  rw [size_allStacks_addStack]
  omega

theorem blocksOf_cut_new (hs : s.Sound) (ht : t.index < s.allStacks.size) :
    (cut s t i).blocksOf ⟨s.allStacks.size⟩ = (s.blocksOf t).drop i := by
  rw [cut, (sound_addStack_drop hs).rowed.blocksOf_replaceRow_of_ne (by simp)
    (mk_ne_of_lt ht).symm, blocksOf_addStack_self]

theorem blocksOf_cut_of_ne (hs : s.Sound) (hu : u.index < s.allStacks.size) (hne : u ≠ t) :
    (cut s t i).blocksOf u = s.blocksOf u := by
  rw [cut, (sound_addStack_drop hs).rowed.blocksOf_replaceRow_of_ne (by simp; omega) hne,
    blocksOf_addStack_of_lt hs _ _ hu]

theorem types_cut : (cut s t i).types u =
    ((cut s t i).blocksOf u).map fun b => (s.definitionOf b).blockType := rfl

theorem Sound.split (hF : F.Sound) (ht : t.index < F.store.allStacks.size) :
    (Forest.mk (cut F.store t i) F.workspace (some ⟨F.store.allStacks.size⟩)).Sound := by
  have hs := hF.addRoot (p := none) (.self F.store hF.store)
    (fun b hb => hF.store.mem_blocksOf (mem_of_mem_drop (i := i) (l := F.store.blocksOf t) hb))
    (.refl _)
  refine ⟨hs.store.replaceRow (by simp; omega) fun c hc => ?_, hs.nodup, fun u hu => ?_, hs.apart⟩
  · exact hF.store.mem_blocksOf (mem_of_mem_take hc)
  · simpa [cut] using hs.root_lt u hu

theorem Grammatical.split (hG : F.Grammatical) (hF : F.Sound) (ht : t ∈ F.workspace ∨ F.store.Held t)
    (h0 : i ≠ 0) (hi : i < (F.store.blocksOf t).length) :
    (Forest.mk (cut F.store t i) F.workspace (some ⟨F.store.allStacks.size⟩)).Grammatical := by
  have htl := hF.shown_lt (ht.imp_left fun h => workspace_subset_roots h)
  have hty : (F.store.types t).length = (F.store.blocksOf t).length := by simp [types]
  have hs : (cut F.store t i).types t = (F.store.types t).take i := by
    rw [types_cut, blocksOf_cut_self htl, types, map_take]
  have hn : (cut F.store t i).types ⟨F.store.allStacks.size⟩ = (F.store.types t).drop i := by
    rw [types_cut, blocksOf_cut_new hF.store htl, types, map_drop]
  have ho : ∀ u : StackId, u.index < F.store.allStacks.size → u ≠ t →
      (cut F.store t i).types u = F.store.types u := by
    intro u hu hne
    rw [types_cut, blocksOf_cut_of_ne hF.store hu hne, types]
  refine hG.of_types (fun u hu => ?_) fun u hu => ?_
  · rcases mem_roots_some hu with hu | rfl
    · have hr : u ∈ F.roots := workspace_subset_roots hu
      by_cases hut : u = t
      · subst hut
        exact .inr (hs ▸ (hG.top u hr).take h0)
      · exact .inl ⟨hr, ho u (hF.root_lt u hr) hut⟩
    · right
      rw [hn]
      rcases ht with ht | ht
      · exact (hG.top t (workspace_subset_roots ht)).drop h0 (hty ▸ hi)
      · refine ((hG.body t ht).drop i).isTop fun he => ?_
        have := congrArg length he
        simp only [length_drop, length_nil, hty] at this
        omega
  · by_cases hut : u = t
    · subst hut
      exact .inr (hs ▸ (hG.body u hu).take i)
    · exact .inl ⟨hu, ho u (hF.held_lt hu) hut⟩

theorem Unshared.split (hU : F.Unshared) (hF : F.Sound)
    (ht : t ∈ F.workspace ∨ F.store.Held t) (hi : i ≤ (F.store.blocksOf t).length) :
    (Forest.mk (cut F.store t i) F.workspace (some ⟨F.store.allStacks.size⟩)).Unshared := by
  have hs : t ∈ F.roots ∨ F.store.Held t := ht.imp_left fun h => workspace_subset_roots h
  have htl := hF.shown_lt hs
  refine hU.of_tail (t := t) (u := ⟨F.store.allStacks.size⟩) (i := i) (fun _ _ _ _ h => h) ?_
  rintro u j c ⟨hu, hg⟩
  by_cases hn : u = ⟨F.store.allStacks.size⟩
  · rw [hn, blocksOf_cut_new hF.store htl, getElem?_drop] at hg
    exact .inl ⟨hn, hs, hg⟩
  · have hu : u ∈ F.roots ∨ F.store.Held u :=
      hu.imp_left fun h => workspace_subset_roots ((mem_roots_some h).resolve_right hn)
    by_cases hut : u = t
    · rw [hut, blocksOf_cut_self htl] at hg
      have hj := (List.getElem?_eq_some_iff.1 hg).1
      rw [length_take] at hj
      rw [getElem?_take_of_lt (by omega), ← hut] at hg
      exact .inr ⟨hn, fun _ => by omega, hu, hg⟩
    · rw [blocksOf_cut_of_ne hF.store (hF.shown_lt hu) hut] at hg
      exact .inr ⟨hn, fun h => absurd h hut, hu, hg⟩

end Split

section Edit

variable {f : List BlockId → List BlockId}

theorem types_editRow_self (hs : s.Sound) (ht : t.index < s.allStacks.size) :
    (s.editRow t f).types t = (f (s.blocksOf t)).map fun b => (s.definitionOf b).blockType := by
  rw [types, hs.rowed.blocksOf_editRow_self ht]
  rfl

theorem Sound.editRow (hF : F.Sound) (hf : ∀ b ∈ f (F.store.blocksOf t), b.index < F.store.blocks.size) :
    (Forest.mk (F.store.editRow t f) F.workspace F.cursor).Sound :=
  ⟨hF.store.editRow hf, hF.nodup, hF.root_lt, hF.apart⟩

theorem Grammatical.editRow (hG : F.Grammatical) (hF : F.Sound) (ht : t.index < F.store.allStacks.size)
    (hto : t ∈ F.roots → IsTop ((F.store.editRow t f).types t))
    (hb : F.store.Held t → IsBody ((F.store.editRow t f).types t)) :
    (Forest.mk (F.store.editRow t f) F.workspace F.cursor).Grammatical := by
  have ho : ∀ u : StackId, u.index < F.store.allStacks.size → u ≠ t →
      (F.store.editRow t f).types u = F.store.types u := by
    intro u hu hne
    rw [types, hF.store.rowed.blocksOf_editRow_of_ne ht hu hne]
    rfl
  refine hG.of_types (fun u hu => ?_) fun u hu => ?_ <;> by_cases hut : u = t
  · subst hut
    exact .inr (hto hu)
  · exact .inl ⟨hu, ho u (hF.root_lt u hu) hut⟩
  · subst hut
    exact .inr (hb hu)
  · exact .inl ⟨hu, ho u (hF.held_lt hu) hut⟩

theorem Sound.removeBlock (hF : F.Sound) :
    (Forest.mk (F.store.editRow t (·.eraseIdx i)) F.workspace F.cursor).Sound :=
  hF.editRow fun _ hb => hF.store.mem_blocksOf (mem_of_mem_eraseIdx hb)

theorem Grammatical.removeBlock (hG : F.Grammatical) (hF : F.Sound)
    (ht : t.index < F.store.allStacks.size) (hi : t ∈ F.roots → i ≠ 0) :
    (Forest.mk (F.store.editRow t (·.eraseIdx i)) F.workspace F.cursor).Grammatical := by
  have hty : (F.store.editRow t (·.eraseIdx i)).types t = (F.store.types t).eraseIdx i := by
    rw [types_editRow_self hF.store ht, types, eraseIdx_map]
  refine hG.editRow hF ht (fun hr => ?_) fun hh => ?_
  · rw [hty]
    exact (hG.top t hr).eraseIdx (hi hr)
  · rw [hty]
    exact (hG.body t hh).eraseIdx i

theorem Unshared.removeBlock (hU : F.Unshared) (hF : F.Sound) (ht : t.index < F.store.allStacks.size) :
    (Forest.mk (F.store.editRow t (·.eraseIdx i)) F.workspace F.cursor).Unshared := by
  refine hU.of_places (fun u j => if u = t then (t, if j < i then j else j + 1) else (u, j))
    (fun _ _ _ _ h => h) (fun u j c hk => ?_) fun u j u' j' c hk hk' h => ?_
  · obtain ⟨hu, hg⟩ := hk
    by_cases hut : u = t
    · rw [hut, hF.store.rowed.blocksOf_editRow_self ht, getElem?_eraseIdx] at hg
      rw [hut] at hu
      simp only [hut, if_true]
      split at hg
      case isTrue hj => exact ⟨hu, by simpa [hj] using hg⟩
      case isFalse hj => exact ⟨hu, by simpa [hj] using hg⟩
    · rw [hF.store.rowed.blocksOf_editRow_of_ne ht (hF.shown_lt hu) hut] at hg
      simp only [hut, if_false]
      exact ⟨hu, hg⟩
  · by_cases hut : u = t <;> by_cases hu' : u' = t <;>
      simp only [hut, hu', if_true, if_false, Prod.mk.injEq, true_and] at h
    · refine ⟨hut.trans hu'.symm, ?_⟩
      split at h <;> split at h <;> omega
    · exact absurd h.1.symm hu'
    · exact h.1.elim
    · exact h

end Edit

section Insert

/-- The store after a stack was joined to another with `i` blocks above it. -/
def spliced (s : Store) (t u : StackId) (i : Nat) : Store :=
  s.editRow t fun row => row.take i ++ s.blocksOf u ++ row.drop i

theorem types_spliced (hs : s.Sound) (ht : t.index < s.allStacks.size) :
    (spliced s t u i).types t = (s.types t).take i ++ s.types u ++ (s.types t).drop i := by
  rw [spliced, types_editRow_self hs ht]
  simp [types, map_take, map_drop]

theorem Sound.insert (hF : F.Sound) : (Forest.mk (spliced F.store t u i) F.workspace none).Sound := by
  have hs : (Forest.mk (spliced F.store t u i) F.workspace F.cursor).Sound := by
    refine hF.editRow fun b hb => ?_
    simp only [mem_append] at hb
    rcases hb with (hb | hb) | hb
    · exact hF.store.mem_blocksOf (mem_of_mem_take hb)
    · exact hF.store.mem_blocksOf hb
    · exact hF.store.mem_blocksOf (mem_of_mem_drop hb)
  exact hs.roots roots_discard

theorem Grammatical.insert (hG : F.Grammatical) (hF : F.Sound) (hu : F.cursor = some u)
    (ht : t ∈ F.workspace ∨ F.store.Held t) (hj : Joins (F.store.types t) (F.store.types u) i)
    (hha : (F.store.types u).head? = some .hat → t ∈ F.workspace) :
    (Forest.mk (spliced F.store t u i) F.workspace none).Grammatical := by
  have htl := hF.shown_lt (ht.imp_left fun h => workspace_subset_roots h)
  have hut : IsTop (F.store.types u) := hG.top u (mem_roots.2 (.inr hu))
  have hs : (Forest.mk (spliced F.store t u i) F.workspace F.cursor).Grammatical := by
    refine hG.editRow hF htl (fun hr => ?_) fun hh => ?_
    · rw [← spliced, types_spliced hF.store htl]
      exact hj.isTop (hG.top t hr) hut
    · rw [← spliced, types_spliced hF.store htl]
      refine hj.isBody (hG.body t hh) hut fun h => ?_
      exact hF.apart t hh (workspace_subset_roots (hha h))
  exact hs.roots roots_discard

/-- Where a block of a spliced row comes from. -/
theorem getElem?_spliced {l m : List BlockId} {j : Nat} (hi : i ≤ l.length)
    (h : (l.take i ++ m ++ l.drop i)[j]? = some c) :
    (j < i ∧ l[j]? = some c) ∨ (i ≤ j ∧ j < i + m.length ∧ m[j - i]? = some c) ∨
      (i + m.length ≤ j ∧ l[j - m.length]? = some c) := by
  have ht : (l.take i).length = i := by simp [hi]
  rw [append_assoc, getElem?_append, ht] at h
  split at h
  case isTrue hj =>
    rw [getElem?_take_of_lt hj] at h
    exact .inl ⟨hj, h⟩
  case isFalse hj =>
    rw [getElem?_append] at h
    split at h
    case isTrue hjm => exact .inr (.inl ⟨by omega, by omega, h⟩)
    case isFalse hjm =>
      rw [getElem?_drop] at h
      refine .inr (.inr ⟨by omega, ?_⟩)
      rwa [show i + (j - i - m.length) = j - m.length by omega] at h

theorem Unshared.insert (hU : F.Unshared) (hF : F.Sound) (hu : F.cursor = some u)
    (ht : t ∈ F.workspace ∨ F.store.Held t) (hi : i ≤ (F.store.blocksOf t).length) :
    (Forest.mk (spliced F.store t u i) F.workspace none).Unshared := by
  have hs : t ∈ F.roots ∨ F.store.Held t := ht.imp_left fun h => workspace_subset_roots h
  have htl := hF.shown_lt hs
  have hur : u ∈ F.roots := mem_roots.2 (.inr hu)
  -- the dragged stack is nowhere else
  have hgo : ∀ w, w ∈ F.workspace ∨ F.store.Held w → w ≠ u := by
    rintro w (hw | hw) rfl
    · exact not_mem_workspace hF.nodup hu hw
    · exact hF.apart w hw hur
  have hm : ∀ w, w ∈ (Forest.mk (spliced F.store t u i) F.workspace none).roots ∨
      (spliced F.store t u i).Held w → w ∈ F.workspace ∨ F.store.Held w := fun w hw =>
    hw.imp_left fun h => by simpa using h
  let n := (F.store.blocksOf u).length
  refine hU.of_places (fun w j => if w = t then
      (if j < i then (t, j) else if j < i + n then (u, j - i) else (t, j - n)) else (w, j))
    (fun _ _ _ _ h => h) (fun w j c hk => ?_) fun w j w' j' c hk hk' h => ?_
  · obtain ⟨hw, hg⟩ := hk
    have hw := hm w hw
    have hw' : w ∈ F.roots ∨ F.store.Held w := hw.imp_left fun h => workspace_subset_roots h
    by_cases hwt : w = t
    · rw [hwt, spliced, hF.store.rowed.blocksOf_editRow_self htl] at hg
      simp only [hwt, if_true]
      rcases getElem?_spliced hi hg with ⟨hj, hg⟩ | ⟨hj, hjn, hg⟩ | ⟨hj, hg⟩
      · simp only [hj, if_true]
        exact ⟨hs, hg⟩
      · simp only [Nat.not_lt_of_le hj, if_false, show j < i + n from hjn, if_true]
        exact ⟨.inl hur, hg⟩
      · simp only [show ¬j < i from fun h => by omega, if_false,
          show ¬j < i + n from Nat.not_lt_of_le hj]
        exact ⟨hs, hg⟩
    · rw [spliced, hF.store.rowed.blocksOf_editRow_of_ne htl (hF.shown_lt hw') hwt] at hg
      simp only [hwt, if_false]
      exact ⟨hw', hg⟩
  · have hwu := hgo w (hm w hk.1)
    have hwu' := hgo w' (hm w' hk'.1)
    have htu := hgo t ht
    by_cases hwt : w = t <;> by_cases hW : w' = t <;>
      simp only [hwt, hW, if_true, if_false] at h
    · refine ⟨hwt.trans hW.symm, ?_⟩
      split at h <;> split at h <;> (try split at h) <;> (try split at h) <;>
        simp only [Prod.mk.injEq, htu, htu.symm, false_and, true_and] at h <;> omega
    · split at h <;> (try split at h) <;> simp only [Prod.mk.injEq] at h
      · exact absurd h.1.symm hW
      · exact absurd h.1.symm hwu'
      · exact absurd h.1.symm hW
    · split at h <;> (try split at h) <;> simp only [Prod.mk.injEq] at h
      · exact absurd h.1 hwt
      · exact absurd h.1 hwu
      · exact absurd h.1 hwt
    · exact Prod.mk.inj h

end Insert

end Forest

end BlockStudio
