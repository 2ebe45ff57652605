import BlockStudio.Proofs.EditorSteps
import BlockStudio.Proofs.Tree

/-!
# What leaves the picture alone

Between two drawings of the workspace the store grows, bodies are told where they are, and unfilled
bodies get empty stacks, which look the same.  `Store.Recalls` says that nothing else happened to what
was in the store.  `Glances` says this of the editor: the workspace, the renderings and the places of
the stacks in the workspace are as they were.  Most steps of the editor that draw nothing are such
glances, however they end.
-/

namespace BlockStudio

/-! ## Stores -/

namespace Store

variable {s s' s'' : Store}

/-- A slot for a body that held no stack got an empty one. -/
structure Opened (s s' : Store) (b : BlockId) (i : Nat) : Prop where
  kind : ∃ c, (s.definitionOf b).inputs[i]? = some c ∧ c.kind = .statement
  unfilled : ∃ v, s.slot? b i = some v ∧ ∀ t, v ≠ .stack t
  filled : ∃ t, s'.slot? b i = some (.stack t) ∧ s'.HasStack t ∧ s'.blocksOf t = []

/-- What was in a store is there still, up to places and opened bodies. -/
structure Recalls (s s' : Store) : Prop extends Spans s s' where
  slot : ∀ (b : BlockId) (i : Nat), b.index < s.blocks.size →
    s'.slot? b i = s.slot? b i ∨ Opened s s' b i

theorem Grown.recalls (h : Grown s s') : Recalls s s' :=
  { h with slot := fun _ i hb => .inl (h.slot?_eq hb i) }

theorem Recalls.trans (h : Recalls s s') (h' : Recalls s' s'') : Recalls s s'' where
  toSpans := h.toSpans.trans h'.toSpans
  slot b i hb := by
    rcases h.slot b i hb with heq | ⟨hk, hu, t, ht, hs, he⟩ <;>
      rcases h'.slot b i (hb.trans_le h.blocks_le) with he' | ⟨hk', hu', hf'⟩
    · exact .inl (he'.trans heq)
    · rw [h.definition_eq b hb] at hk'
      rw [heq] at hu'
      exact .inr ⟨hk', hu', hf'⟩
    · refine .inr ⟨hk, hu, t, he'.trans ht, h'.hasStack hs, ?_⟩
      rw [h'.blocksOf_eq hs, he]
    · obtain ⟨v, hv, hne⟩ := hu'
      exact absurd (Option.some.inj (hv.symm.trans ht)) (hne t)

/-- Opening a body. -/
theorem recalls_withBody {b : BlockId} {i : Nat} {c : Component}
    (hc : (s.definitionOf b).inputs[i]? = some c) (hk : c.kind = .statement) {v : Value}
    (hv : s.slot? b i = some v) (hne : ∀ t, v ≠ .stack t) : Recalls s (Forest.withBody s b i) := by
  have hg := grown_addStack s [] none
  refine { hg with blocks_le := ?_, definition_eq := ?_, slot := ?_ }
  · simp [Forest.withBody]
  · intro x hx
    simp [Forest.withBody, definitionOf]
  · intro x j hx
    by_cases hs : x = b ∧ j = i
    · obtain ⟨rfl, rfl⟩ := hs
      refine .inr ⟨⟨c, hc, hk⟩, ⟨v, hv, hne⟩, ⟨s.allStacks.size⟩, ?_, ⟨?_, ?_⟩, ?_⟩
      · exact slot?_setValue_self (s := (s.addStack [] none).2) hv
      · simp [Forest.withBody, setValue, modifyBlock]
      · show (((s.addStack [] none).2).stack ⟨s.allStacks.size⟩).row.index <
          ((s.addStack [] none).2).rows.size
        rw [stack_addStack_self, size_rows_addStack]
        exact Nat.lt_succ_self _
      · exact Forest.blocksOf_withBody_self
    · exact .inl (slot?_setValue_of_ne (s := (s.addStack [] none).2) _ hs)

end Store

/-! ## The editor -/

/-- Nothing happened that the workspace would show. -/
structure Glances (e e' : Editor) : Prop where
  workspace_eq : e'.workspace = e.workspace
  renderings_eq : e'.renderings = e.renderings
  width_eq : e'.width = e.width
  height_eq : e'.height = e.height
  recalls : e.store.Recalls e'.store
  position_eq : ∀ t ∈ e.workspace, t.index < e.store.allStacks.size →
    (e'.store.stack t).position = (e.store.stack t).position

instance : IsPreorder Editor Glances where
  refl e := ⟨rfl, rfl, rfl, rfl, (Store.Grown.refl e.store).recalls, fun _ _ _ => rfl⟩
  trans _ _ _ h h' := {
    workspace_eq := h'.workspace_eq.trans h.workspace_eq
    renderings_eq := h'.renderings_eq.trans h.renderings_eq
    width_eq := h'.width_eq.trans h.width_eq
    height_eq := h'.height_eq.trans h.height_eq
    recalls := h.recalls.trans h'.recalls
    position_eq := fun t ht hlt =>
      (h'.position_eq t (h.workspace_eq ▸ ht) (hlt.trans_le h.recalls.stacks_le)).trans
        (h.position_eq t ht hlt) }

variable {α : Type} {e e' : Editor} {t : StackId}

/-- The parts of the editor that the workspace shows. -/
theorem Glances.of_stage (hs : e'.store.undrawn = e.store.undrawn)
    (hw : e'.workspace = e.workspace) (hr : e'.renderings = e.renderings)
    (hwi : e'.width = e.width) (hh : e'.height = e.height) : Glances e e' where
  workspace_eq := hw
  renderings_eq := hr
  width_eq := hwi
  height_eq := hh
  recalls := (Store.retains_of_undrawn_eq hs).recalls
  position_eq t _ := (Store.retains_of_undrawn_eq hs).position_eq t

theorem Aside.glances {m : Edit α} (h : Aside m) : Keeps Glances m :=
  h.mono fun e e' hs => by
    have hs : e'.stage = e.stage := hs
    have hc : e'.core = e.core := congrArg Prod.fst hs
    exact .of_stage (congrArg (fun u => u.2.1) hs)
      (congrArg (fun c : Core => c.forest.workspace) hc) (congrArg Core.renderings hc)
      (congrArg (fun u => u.2.2.1) hs) (congrArg (fun u => u.2.2.2) hs)

theorem Offers.glances (h : Offers e e') : Glances e e' :=
  .of_stage (congrArg (·.store.undrawn) h.1 :) (congrArg Editor.workspace h.1 :)
    (congrArg Editor.renderings h.1 :) (congrArg Editor.width h.1 :) (congrArg Editor.height h.1 :)

/-- The store grew. -/
theorem glances_withStore {s : Store} (h : e.store.Retains s) : Glances e (e.withStore s) :=
  ⟨rfl, rfl, rfl, rfl, h.recalls, fun t _ ht => h.position_eq t ht⟩

/-- A stack that is not in the workspace is moved. -/
theorem glances_setPosition (ht : t ∉ e.workspace) (p : Option (List Value)) :
    Glances e (e.withStore (e.store.setPosition t p)) := by
  refine ⟨rfl, rfl, rfl, rfl, (Store.grown_of_bare_eq (Store.bare_setPosition ..)).recalls, fun u hu _ => ?_⟩
  have hne : t.index ≠ u.index := fun h => ht (by rwa [StackId.eq_mk h])
  show ((e.store.setPosition t p).stack u).position = _
  simp [Store.setPosition, Store.modifyStack, Store.stack, Array.getD_eq_getD_getElem?,
    Array.getElem?_modify, hne]

end BlockStudio
