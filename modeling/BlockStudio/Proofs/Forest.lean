import BlockStudio.Proofs.Copying
import BlockStudio.Proofs.StackShape

/-!
# The forest of a project

The stacks of the workspace and the dragged stack are the roots of a forest: a stack has the blocks
of its row below it, and a block what stands in its slots.  Three properties of a forest are followed
through every change.  It is `Sound` when its store is and its roots are no bodies; it is `Unshared`
when no block stands in two places and no stack is the body of two blocks; it is `Grammatical` when
roots and bodies have the shapes of `IsTop` and `IsBody`.

They are stated for the whole store and not only for what can be reached from the roots: what was
deleted can then be forgotten without a search.
-/

namespace BlockStudio

open Store

variable {t : StackId} {s : Store} {tops : List StackId}

/-- A value that is no stack. -/
def Value.Stackless (v : Value) : Prop := ∀ t, v ≠ .stack t

theorem Value.Literal.stackless {v : Value} (h : v.Literal) : v.Stackless := by
  rintro t rfl
  exact h

/-- A store with the stacks of a workspace and a dragged stack. -/
structure Forest where
  /-- The blocks and stacks. -/
  store : Store
  /-- The stacks of the workspace. -/
  workspace : List StackId
  /-- The dragged stack. -/
  cursor : Option StackId

namespace Forest

variable {F F' : Forest}

/-- The stacks of the workspace and the dragged stack. -/
def roots (F : Forest) : List StackId := F.workspace ++ F.cursor.toList

theorem mem_roots : t ∈ F.roots ↔ t ∈ F.workspace ∨ F.cursor = some t := by simp [roots]

@[simp] theorem roots_mk_none (s : Store) (workspace : List StackId) :
    (Forest.mk s workspace none).roots = workspace :=
  List.append_nil workspace

theorem mem_roots_some {u : StackId} (h : t ∈ (Forest.mk s tops (some u)).roots) : t ∈ tops ∨ t = u :=
  (mem_roots.1 h).imp_right fun h => (Option.some.inj h).symm

theorem workspace_subset_roots : F.workspace ⊆ F.roots := List.subset_append_left _ _

theorem roots_discard : (Forest.mk s F.workspace none).roots.Sublist F.roots :=
  (List.nil_sublist _).append_left _

theorem roots_place (ht : F.cursor = some t) :
    (Forest.mk s (F.workspace ++ [t]) none).roots.Sublist F.roots := by
  simp [roots, ht]

/-- A block stands at a place of the forest, or of what is left over of earlier forests. -/
def Holds (F : Forest) (h : Holder) (c : BlockId) : Prop := F.store.Holds (· ∈ F.roots) h c

/-- The store is sound, and the roots are stacks of their own. -/
structure Sound (F : Forest) : Prop where
  store : F.store.Sound
  nodup : F.roots.Nodup
  root_lt : ∀ t ∈ F.roots, t.index < F.store.allStacks.size
  apart : ∀ t, F.store.Held t → t ∉ F.roots

/-- No block stands in two places, and no stack is the body of two blocks. -/
structure Unshared (F : Forest) : Prop where
  block_once : ∀ h h' c, F.Holds h c → F.Holds h' c → h = h'
  stack_once : ∀ b i b' i' t, F.store.slot? b i = some (.stack t) →
    F.store.slot? b' i' = some (.stack t) → b = b' ∧ i = i'

/-- Roots have the shape of stacks of their own, and bodies that of bodies. -/
structure Grammatical (F : Forest) : Prop where
  top : ∀ t ∈ F.roots, IsTop (F.store.types t)
  body : ∀ t, F.store.Held t → IsBody (F.store.types t)

theorem Sound.nodup_workspace (hF : F.Sound) : F.workspace.Nodup := (List.nodup_append.1 hF.nodup).1

theorem not_mem_workspace (hn : F.roots.Nodup) (ht : F.cursor = some t) : t ∉ F.workspace := by
  rw [Forest.roots, ht] at hn
  intro hm
  exact (List.nodup_append.1 hn).2.2 t hm t (by simp) rfl

theorem Sound.held_lt (hF : F.Sound) (h : F.store.Held t) : t.index < F.store.allStacks.size := by
  obtain ⟨b, i, h⟩ := h
  exact hF.store.stack_lt h

/-- A place that shows a block is in the row of a stack of the store. -/
theorem Sound.shown_lt (hF : F.Sound) (h : t ∈ F.roots ∨ F.store.Held t) :
    t.index < F.store.allStacks.size :=
  h.elim (hF.root_lt t) hF.held_lt

/-- Stacks have the types that they had, or they have the right shapes. -/
theorem Grammatical.of_types (hG : F.Grammatical)
    (hto : ∀ t ∈ F'.roots, t ∈ F.roots ∧ F'.store.types t = F.store.types t ∨ IsTop (F'.store.types t))
    (hb : ∀ t, F'.store.Held t → F.store.Held t ∧ F'.store.types t = F.store.types t ∨
      IsBody (F'.store.types t)) : F'.Grammatical where
  top t ht := (hto t ht).elim (fun ⟨hr, hty⟩ => hty ▸ hG.top t hr) id
  body t ht := (hb t ht).elim (fun ⟨hh, hty⟩ => hty ▸ hG.body t hh) id

/-- Slots hold what they held, and every block in a row comes from a place of its own. -/
theorem Unshared.of_places (hU : F.Unshared) (origin : StackId → Nat → StackId × Nat)
    (hs : ∀ b i v, v.IsNode → F'.store.slot? b i = some v → F.store.slot? b i = some v)
    (hp : ∀ u j c, F'.Holds (.place u j) c → F.Holds (.place (origin u j).1 (origin u j).2) c)
    (hi : ∀ u j u' j' c, F'.Holds (.place u j) c → F'.Holds (.place u' j') c →
      origin u j = origin u' j' → u = u' ∧ j = j') : F'.Unshared := by
  refine ⟨fun k k' c hk hk' => ?_, fun b i b' i' t h h' =>
    hU.stack_once b i b' i' t (hs b i _ trivial h) (hs b' i' _ trivial h')⟩
  cases k with
  | slot b i =>
    have hk := hs b i (.block c) trivial hk
    cases k' with
    | slot b' i' => exact hU.block_once _ _ c hk (hs b' i' (.block c) trivial hk')
    | place u' j' => cases hU.block_once (.slot b i) _ c hk (hp u' j' c hk')
  | place u j =>
    cases k' with
    | slot b' i' =>
      cases hU.block_once _ (.slot b' i') c (hp u j c hk) (hs b' i' (.block c) trivial hk')
    | place u' j' =>
      have h := hU.block_once _ _ c (hp u j c hk) (hp u' j' c hk')
      rw [Holder.place.injEq] at h
      obtain ⟨rfl, rfl⟩ := hi u j u' j' c hk hk' (Prod.ext h.1 h.2)
      rfl

/-! ## Fewer roots -/

section Roots

variable {workspace : List StackId} {cursor : Option StackId}
  (h : (Forest.mk F.store workspace cursor).roots.Sublist F.roots)
include h

theorem Sound.roots (hF : F.Sound) : (Forest.mk F.store workspace cursor).Sound :=
  ⟨hF.store, hF.nodup.sublist h, fun t ht => hF.root_lt t (h.subset ht), fun t ht hm =>
    hF.apart t ht (h.subset hm)⟩

theorem Unshared.roots (hF : F.Unshared) : (Forest.mk F.store workspace cursor).Unshared :=
  ⟨fun k k' c hk hk' => hF.block_once k k' c (holds_congr (fun _ ht => h.subset ht) hk)
    (holds_congr (fun _ ht => h.subset ht) hk'), hF.stack_once⟩

theorem Grammatical.roots (hF : F.Grammatical) : (Forest.mk F.store workspace cursor).Grammatical :=
  ⟨fun t ht => hF.top t (h.subset ht), hF.body⟩

end Roots

/-! ## New blocks and stacks -/

section Growth

variable {src s : Store} {vs : List Value} {workspace : List StackId} {cursor : Option StackId}

theorem held_of_sprouts (h : Sprouts src F.store s vs) (ht : s.Held t) :
    F.store.Held t ∨ (F.store.allStacks.size ≤ t.index ∧ LikeBody src s t) := by
  obtain ⟨b, i, hb⟩ := ht
  by_cases hlt : b.index < F.store.blocks.size
  · exact .inl ⟨b, i, (h.grown.slot?_eq hlt i).symm.trans hb⟩
  · have hle := Nat.le_of_not_lt hlt
    exact .inr ⟨h.stack_new b i t hle hb, h.body b i t hle hb⟩

theorem Sound.sprout (hF : F.Sound) (h : Sprouts src F.store s vs)
    (hn : (Forest.mk s workspace cursor).roots.Nodup)
    (hr : ∀ t ∈ (Forest.mk s workspace cursor).roots, t ∈ F.roots ∨
      (F.store.allStacks.size ≤ t.index ∧ t.index < s.allStacks.size ∧ ¬s.Held t)) :
    (Forest.mk s workspace cursor).Sound := by
  refine ⟨h.sound, hn, fun t ht => ?_, fun t hh ht => ?_⟩
  · rcases hr t ht with ht | ⟨-, ht, -⟩
    · exact (hF.root_lt t ht).trans_le h.grown.stacks_le
    · exact ht
  · rcases hr t ht with ht | ⟨-, -, ht⟩
    · rcases held_of_sprouts h hh with hh | ⟨hle, -⟩
      · exact hF.apart t hh ht
      · exact absurd (hF.root_lt t ht) (Nat.not_lt_of_le hle)
    · exact ht hh

theorem Unshared.sprout (hU : F.Unshared) (hF : F.Sound) (h : Sprouts src F.store s vs)
    (hf : Fresh F.store s vs)
    (hr : ∀ t ∈ (Forest.mk s workspace cursor).roots, t ∈ F.roots ∨ .stack t ∈ vs) :
    (Forest.mk s workspace cursor).Unshared := by
  have hold : ∀ k c, (Forest.mk s workspace cursor).Holds k c →
      s.Holds (fun t => t ∈ F.roots ∨ .stack t ∈ vs) k c := fun k c => holds_congr hr
  refine ⟨fun k k' c hk hk' => ?_, fun b i b' i' t hb hb' => ?_⟩
  · by_cases hc : c.index < F.store.blocks.size
    · have hba : ∀ k, (Forest.mk s workspace cursor).Holds k c → F.Holds k c := fun k hk =>
        holds_of_lt h hF.store hf hc
          (fun t ht => (hF.root_lt t ht).trans_le h.grown.stacks_le) (hold k c hk)
      exact hU.block_once k k' c (hba k hk) (hba k' hk')
    · have hc := Nat.le_of_not_lt hc
      exact hf.block_once k k' c hc (holds_of_le h hF.store hc hF.root_lt (hold k c hk))
        (holds_of_le h hF.store hc hF.root_lt (hold k' c hk'))
  · by_cases ht : t.index < F.store.allStacks.size
    · exact hU.stack_once b i b' i' t (h.slot_of_lt ht hb) (h.slot_of_lt ht hb')
    · exact hf.stack_once b i b' i' t (Nat.le_of_not_lt ht) hb hb'

theorem Grammatical.sprout (hG : F.Grammatical) (hF : F.Sound)
    (h : Sprouts src F.store s vs) (hs : ∀ u, src.Held u → IsBody (src.types u))
    (hr : ∀ t ∈ (Forest.mk s workspace cursor).roots, t ∈ F.roots ∨ IsTop (s.types t)) :
    (Forest.mk s workspace cursor).Grammatical := by
  refine hG.of_types (fun t ht => (hr t ht).imp_left fun ht => ?_) fun t ht => ?_
  · exact ⟨ht, h.grown.types_eq hF.store (hF.root_lt t ht)⟩
  · rcases held_of_sprouts h ht with ht | ⟨-, u, hu, hty⟩
    · exact .inl ⟨ht, h.grown.types_eq hF.store (hF.held_lt ht)⟩
    · exact .inr (hty ▸ hs u hu)

end Growth

/-! ## Filled slots -/

section Slots

variable {b : BlockId} {i : Nat} {v : Value}

theorem held_setValue (hv : v.Stackless) (h : (s.setValue b i v).Held t) : s.Held t := by
  obtain ⟨c, j, hc⟩ := h
  rcases slot?_setValue hc with ⟨-, -, h⟩ | ⟨-, hc⟩
  · exact absurd h.symm (hv t)
  · exact ⟨c, j, hc⟩

theorem types_setValue (t : StackId) : (s.setValue b i v).types t = s.types t := by simp [types]

theorem Sound.fill (hF : F.Sound) (hv : v.Literal) :
    (Forest.mk (F.store.setValue b i v) F.workspace F.cursor).Sound :=
  ⟨hF.store.setValue_literal b i hv, hF.nodup, hF.root_lt, fun t ht =>
    hF.apart t (held_setValue hv.stackless ht)⟩

theorem Unshared.fill (hU : F.Unshared) (hv : v.Literal) :
    (Forest.mk (F.store.setValue b i v) F.workspace F.cursor).Unshared := by
  refine hU.of_places Prod.mk (fun c j w hw h => ?_) (fun u j c hk => ?_) fun _ _ _ _ _ _ _ => Prod.mk.inj
  · rcases slot?_setValue h with ⟨-, -, rfl⟩ | ⟨-, h⟩
    · exact absurd hw hv.not_isNode
    · exact h
  · exact ⟨hk.1.imp_right (held_setValue hv.stackless), hk.2⟩

theorem Grammatical.fill (hG : F.Grammatical) (hv : v.Literal) :
    (Forest.mk (F.store.setValue b i v) F.workspace F.cursor).Grammatical :=
  hG.of_types (fun t ht => .inl ⟨ht, types_setValue t⟩) fun t ht =>
    .inl ⟨held_setValue hv.stackless ht, types_setValue t⟩

end Slots

/-! ## What can be reached -/

/-- A block or a stack can be reached from some stacks through rows and slots. -/
inductive Reached (s : Store) (tops : List StackId) : Value → Prop where
  | top {t : StackId} (ht : t ∈ tops) : Reached s tops (.stack t)
  | row {t : StackId} {b : BlockId} (h : Reached s tops (.stack t)) (hb : b ∈ s.blocksOf t) :
    Reached s tops (.block b)
  | slot {b : BlockId} {i : Nat} {v : Value} (h : Reached s tops (.block b))
    (hv : s.slot? b i = some v) : Reached s tops v

/-- A block or a stack can be reached from the workspace. -/
abbrev Reaches (F : Forest) (v : Value) : Prop := Reached F.store F.workspace v

theorem Reached.mem_or_held (h : Reached s tops (.stack t)) : t ∈ tops ∨ s.Held t := by
  cases h with
  | top ht => exact .inl ht
  | slot _ hv => exact .inr ⟨_, _, hv⟩

theorem Reached.block_lt (hs : s.Sound) {b : BlockId} (h : Reached s tops (.block b)) :
    b.index < s.blocks.size := by
  cases h with
  | row _ hb => exact hs.mem_blocksOf hb
  | slot _ hv => exact hs.block_lt hv

theorem Sound.reached_lt (hF : F.Sound) (h : F.Reaches (.stack t)) : t.index < F.store.allStacks.size :=
  hF.shown_lt (h.mem_or_held.imp_left fun ht => workspace_subset_roots ht)

end Forest

end BlockStudio
