import BlockStudio.Proofs.Moving
import Mathlib.Logic.Relation

/-!
# Changes of a project

Everything that an event can do to the forest of a project is a sequence of the changes listed here,
with two exceptions that are listed apart.  `Share` is duplicating a whole stack or a block with a
filled body: the copy shows blocks of the original.  `Crown` is joining a stack with a hat to a body.
Changes keep a forest sound, unshared and grammatical; a `Share` may cost it the second property and
a `Crown` the third.
-/

namespace BlockStudio

open Forest Store List

variable {t u : StackId}

/-- A change of a project.  The files that are opened hold projects with the property `saved`. -/
inductive Change (saved : Forest → Prop) : Forest → Forest → Prop where
  /-- A literal is put into a slot. -/
  | fill {F : Forest} (b : BlockId) (i : Nat) {v : Value} (hv : v.Literal) :
    Change saved F ⟨F.store.setValue b i v, F.workspace, F.cursor⟩
  /-- An unfilled body gets an empty stack. -/
  | openBody {F : Forest} {b : BlockId} {i : Nat} {comp : Component}
    (hcomp : (F.store.definitionOf b).inputs[i]? = some comp) (hkind : comp.kind = .statement) :
    Change saved F ⟨withBody F.store b i, F.workspace, F.cursor⟩
  /-- A stack of the workspace is picked up. -/
  | liftStack {F : Forest} {k : Nat} {t : StackId} (ht : F.workspace[k]? = some t) : Change saved F
      ⟨(F.store.copyStack t).2, F.workspace.eraseIdx k, some ⟨F.store.allStacks.size⟩⟩
  /-- A body is picked up. -/
  | liftBody {F : Forest} {b : BlockId} {i : Nat} {t : StackId}
    (ht : F.store.slot? b i = some (.stack t)) (hne : F.store.blocksOf t ≠ []) :
    Change saved F
      ⟨(F.store.copyStack t).2.setValue b i .none, F.workspace, some ⟨F.store.allStacks.size⟩⟩
  /-- The lower part of a stack is picked up. -/
  | split {F : Forest} {t : StackId} {i : Nat} (ht : t ∈ F.workspace ∨ F.store.Held t) (h0 : i ≠ 0)
    (hi : i < (F.store.blocksOf t).length) :
    Change saved F ⟨cut F.store t i, F.workspace, some ⟨F.store.allStacks.size⟩⟩
  /-- A new block is picked up. -/
  | hold {F : Forest} {s : Store} {b : BlockId} (h : Sprouts F.store F.store s [.block b])
    (hfresh : Fresh F.store s [.block b]) :
    Change saved F ⟨(s.addStack [b] none).2, F.workspace, some ⟨s.allStacks.size⟩⟩
  /-- The dragged stack is laid down. -/
  | place {F : Forest} {t : StackId} (ht : F.cursor = some t) :
    Change saved F ⟨F.store, F.workspace ++ [t], none⟩
  /-- The dragged stack is joined to another. -/
  | insert {F : Forest} {t u : StackId} {i : Nat} (hu : F.cursor = some u)
    (ht : t ∈ F.workspace ∨ F.store.Held t) (hjoin : Joins (F.store.types t) (F.store.types u) i)
    (hhat : (F.store.types u).head? = some .hat → t ∈ F.workspace) :
    Change saved F ⟨spliced F.store t u i, F.workspace, none⟩
  /-- A new reporter is put into a slot, and nothing is dragged any more. -/
  | plug {F : Forest} {s : Store} {b c : BlockId} {i : Nat} {comp : Component}
    (h : Sprouts F.store F.store s [.block c])
    (hfresh : Fresh F.store s [.block c]) (hb : b.index < F.store.blocks.size)
    (hcomp : (F.store.definitionOf b).inputs[i]? = some comp) (hfits : s.Fits comp (.block c)) :
    Change saved F ⟨s.setValue b i (.block c), F.workspace, none⟩
  /-- The dragged stack is dropped. -/
  | discard {F : Forest} : Change saved F ⟨F.store, F.workspace, none⟩
  /-- A stack is deleted. -/
  | removeStack {F : Forest} (k : Nat) : Change saved F ⟨F.store, F.workspace.eraseIdx k, F.cursor⟩
  /-- A block is deleted out of a stack. -/
  | removeBlock {F : Forest} {t : StackId} {i : Nat} (ht : t.index < F.store.allStacks.size)
    (hi : t ∈ F.roots → i ≠ 0) :
    Change saved F ⟨F.store.editRow t (·.eraseIdx i), F.workspace, F.cursor⟩
  /-- The workspace is cleared. -/
  | clear {F : Forest} : Change saved F ⟨F.store, [], F.cursor⟩
  /-- A saved stack comes into the workspace. -/
  | load {F F0 : Forest} {s : Store} {t t0 : StackId} (h₀ : saved F0) (ht0 : t0 ∈ F0.workspace)
    (h : Sprouts F0.store F.store s [.stack t])
    (hfresh : Fresh F.store s [.stack t]) (htypes : s.types t = F0.store.types t0) :
    Change saved F ⟨s, F.workspace ++ [t], F.cursor⟩
  /-- A saved stack is read in part. -/
  | grow {F F0 : Forest} {s : Store} {vs : List Value} (h₀ : saved F0)
    (h : Sprouts F0.store F.store s vs) (hfresh : Fresh F.store s vs) :
    Change saved F ⟨s, F.workspace, F.cursor⟩

/-- A copy that shows blocks of the original is picked up. -/
inductive Share : Forest → Forest → Prop where
  /-- A stack of the workspace is duplicated. -/
  | stack {F : Forest} {t : StackId} (ht : t ∈ F.workspace) :
    Share F ⟨(F.store.copyStack t).2, F.workspace, some ⟨F.store.allStacks.size⟩⟩
  /-- A block with a filled body is duplicated. -/
  | block {F : Forest} {s : Store} {b b' : BlockId}
    (h : CopiesBlock F.store F.store s b b') (hbody : F.store.HasBody b) :
    Share F ⟨(s.addStack [b'] none).2, F.workspace, some ⟨s.allStacks.size⟩⟩

/-- The dragged stack begins with a hat and is joined to a body. -/
inductive Crown : Forest → Forest → Prop where
  | mk {F : Forest} {t u : StackId} {i : Nat} (hu : F.cursor = some u)
    (hreached : F.Reaches (.stack t)) (hbody : t ∉ F.workspace)
    (hjoin : Joins (F.store.types t) (F.store.types u) i)
    (hhat : (F.store.types u).head? = some .hat) :
    Crown F ⟨spliced F.store t u i, F.workspace, none⟩

/-- Any number of changes. -/
abbrev Changes (saved : Forest → Prop) : Forest → Forest → Prop :=
  Relation.ReflTransGen (Change saved)

namespace Forest

variable {F F' : Forest} {saved : Forest → Prop}

/-! ## Soundness -/

section Hold

variable {src s : Store} {b : BlockId}

theorem sprouts_hold (h : Sprouts src F.store s [.block b]) :
    Sprouts src F.store (s.addStack [b] none).2 [.stack ⟨s.allStacks.size⟩] :=
  h.addStack none (forall_mem_singleton.2 (h.loose_block b (by simp)).2)

theorem Sound.hold (hF : F.Sound) (h : Sprouts src F.store s [.block b]) :
    (Forest.mk (s.addStack [b] none).2 F.workspace (some ⟨s.allStacks.size⟩)).Sound :=
  hF.addRoot h (forall_mem_singleton.2 (h.loose_block b (by simp)).2) (.refl _)

theorem Grammatical.hold (hG : F.Grammatical) (hF : F.Sound) (h : Sprouts F.store F.store s [.block b]) :
    (Forest.mk (s.addStack [b] none).2 F.workspace (some ⟨s.allStacks.size⟩)).Grammatical :=
  hG.addRoot hF h (forall_mem_singleton.2 (h.loose_block b (by simp)).2) (.refl _) (isTop_singleton _)

end Hold

theorem mem_roots_load {s : Store} (hu : u ∈ (Forest.mk s (F.workspace ++ [t]) F.cursor).roots) :
    u ∈ F.roots ∨ u = t := by
  rw [mem_roots, mem_append, mem_singleton] at hu
  rw [mem_roots]
  tauto

theorem Sound.load (hF : F.Sound) {src s : Store} (h : Sprouts src F.store s [.stack t])
    (hf : Fresh F.store s [.stack t]) : (Forest.mk s (F.workspace ++ [t]) F.cursor).Sound := by
  obtain ⟨hle, hlt⟩ := h.loose_stack t (by simp)
  have hn : ∀ u ∈ F.roots, u ≠ t := by
    rintro u hu rfl
    exact absurd (hF.root_lt u hu) (Nat.not_lt_of_le hle)
  refine hF.sprout h ?_ fun u hu => ?_
  · have hp : (Forest.mk s (F.workspace ++ [t]) F.cursor).roots.Perm (t :: F.roots) := by
      show (F.workspace ++ [t] ++ F.cursor.toList).Perm (t :: (F.workspace ++ F.cursor.toList))
      rw [append_assoc]
      exact perm_middle
    exact hp.nodup_iff.2 (nodup_cons.2 ⟨fun ht => hn t ht rfl, hF.nodup⟩)
  · rcases mem_roots_load hu with hu | rfl
    · exact .inl hu
    · exact .inr ⟨hle, hlt, hf.stack_loose u (by simp)⟩

/-- A change keeps a forest sound. -/
theorem Sound.change (hF : F.Sound) (h : Change saved F F') : F'.Sound := by
  cases h with
  | fill b i hv => exact hF.fill hv
  | openBody hc hk => exact hF.openBody hc hk
  | liftStack ht => exact hF.copyRoot (eraseIdx_sublist ..)
  | liftBody ht hne => exact (hF.copyRoot (.refl _)).fill trivial
  | split ht h0 hi => exact hF.split (hF.shown_lt (ht.imp_left fun h => workspace_subset_roots h))
  | hold h hf => exact hF.hold h
  | place ht => exact hF.roots (roots_place ht)
  | insert hu ht hj hh => exact hF.insert
  | plug h hf hb hc hfi => exact hF.plug h hb hc hfi
  | discard => exact hF.roots roots_discard
  | removeStack k => exact hF.roots ((eraseIdx_sublist ..).append_right _)
  | removeBlock ht hi => exact hF.removeBlock
  | clear => exact hF.roots ((nil_sublist _).append_right _)
  | load h₀ ht0 h hf hty => exact hF.load h hf
  | grow h₀ h hf => exact hF.sprout h hF.nodup fun u hu => .inl hu

theorem Sound.share (hF : F.Sound) (h : Share F F') : F'.Sound := by
  cases h with
  | stack ht => exact hF.copyRoot (.refl _)
  | block h hb => exact hF.hold h.sprouts

theorem Sound.crown (hF : F.Sound) (h : Crown F F') : F'.Sound := by
  cases h
  exact hF.insert

theorem Sound.changes (hF : F.Sound) (h : Changes saved F F') : F'.Sound := by
  induction h with
  | refl => exact hF
  | tail _ h ih => exact ih.change h

/-! ## No sharing -/

/-- A change makes nothing stand in two places. -/
theorem Unshared.change (hU : F.Unshared) (hF : F.Sound) (h : Change saved F F') : F'.Unshared := by
  cases h with
  | fill b i hv => exact hU.fill hv
  | openBody hc hki => exact hU.openBody hF
  | @liftStack k t ht =>
    have hm : t ∈ F.workspace := mem_of_getElem? ht
    refine hU.lift hF (fun _ _ _ _ h => h) (fun _ => rfl) (.inl (workspace_subset_roots hm))
      ⟨?_, fun hh => hF.apart t hh (workspace_subset_roots hm)⟩ (eraseIdx_sublist ..)
    intro hm
    obtain ⟨j, hne, hj⟩ := mem_eraseIdx_iff_getElem?.1 hm
    obtain ⟨hj, hg⟩ := List.getElem?_eq_some_iff.1 hj
    obtain ⟨hk, hg'⟩ := List.getElem?_eq_some_iff.1 ht
    exact hne ((getElem_inj hF.nodup_workspace).1 (hg.trans hg'.symm))
  | @liftBody b i t ht hne =>
    have hh : F.store.Held t := ⟨b, i, ht⟩
    have hba : ∀ x j v, v.IsNode →
        ((F.store.copyStack t).2.setValue b i .none).slot? x j = some v →
        ¬(x = b ∧ j = i) ∧ F.store.slot? x j = some v := by
      intro x j v hv h
      rcases slot?_setValue h with ⟨-, -, rfl⟩ | h
      · exact hv.elim
      · exact h
    refine hU.lift hF (fun x j v hv h => (hba x j v hv h).2) (fun _ => rfl) (.inr hh)
      ⟨fun hm => hF.apart t hh (workspace_subset_roots hm), ?_⟩ (.refl _)
    rintro ⟨x, j, h⟩
    obtain ⟨hne, h⟩ := hba x j (.stack t) trivial h
    exact hne (hU.stack_once x j b i t h ht)
  | split ht h0 hi => exact hU.split hF ht hi.le
  | hold h hf =>
    refine hU.sprout hF (sprouts_hold h)
      (Fresh.addStack (show Sprouts _ F.store _ ([_].map .block) from h) hf none) fun u hu => ?_
    exact (mem_roots_some hu).imp (fun h => workspace_subset_roots h) (by simp)
  | place ht => exact hU.roots (roots_place ht)
  | insert hu ht hjo hha =>
    refine hU.insert hF hu ht ?_
    simpa [types] using hjo.le_length
  | plug h hf hb hc hfi => exact hU.plug hF h hf
  | discard => exact hU.roots roots_discard
  | removeStack k => exact hU.roots ((eraseIdx_sublist ..).append_right _)
  | removeBlock ht hi => exact hU.removeBlock hF ht
  | clear => exact hU.roots ((nil_sublist _).append_right _)
  | load h₀ ht0 h hf hty =>
    exact hU.sprout hF h hf fun u hu => (mem_roots_load hu).imp_right fun h => by simp [h]
  | grow h₀ h hf => exact hU.sprout hF h hf fun u hu => .inl hu

theorem Unshared.crown (hU : F.Unshared) (hF : F.Sound) (h : Crown F F') : F'.Unshared := by
  cases h with
  | mk hu hr hb hj hh =>
    refine hU.insert hF hu hr.mem_or_held ?_
    simpa [types] using hj.le_length

theorem Unshared.changes (hU : F.Unshared) (hF : F.Sound) (h : Changes saved F F') : F'.Unshared := by
  induction h with
  | refl => exact hU
  | tail h' h ih => exact ih.change (hF.changes h') h

/-! ## Grammar -/

/-- A change keeps the shapes of stacks, when the projects that are opened have them. -/
theorem Grammatical.change (hG : F.Grammatical) (hF : F.Sound)
    (hs : ∀ F0, saved F0 → F0.Grammatical) (h : Change saved F F') : F'.Grammatical := by
  cases h with
  | fill b i hv => exact hG.fill hv
  | openBody hc hk => exact hG.openBody hF
  | liftStack ht =>
    exact hG.copyRoot hF (hG.top _ (workspace_subset_roots (mem_of_getElem? ht)))
      (eraseIdx_sublist ..)
  | liftBody ht hne =>
    have hto := (hG.body _ ⟨_, _, ht⟩).isTop (by simpa [types] using hne)
    exact (hG.copyRoot hF hto (.refl _)).fill trivial
  | split ht h0 hi => exact hG.split hF ht h0 hi
  | hold h hf => exact hG.hold hF h
  | place ht => exact hG.roots (roots_place ht)
  | insert hu ht hj hh => exact hG.insert hF hu ht hj hh
  | plug h hf hb hc hfi => exact hG.plug hF h
  | discard => exact hG.roots roots_discard
  | removeStack k => exact hG.roots ((eraseIdx_sublist ..).append_right _)
  | removeBlock ht hi => exact hG.removeBlock hF ht hi
  | clear => exact hG.roots ((nil_sublist _).append_right _)
  | load h₀ ht0 h hf hty =>
    have hF0 := hs _ h₀
    refine hG.sprout hF h hF0.body fun u hu => ?_
    rcases mem_roots_load hu with hu | rfl
    · exact .inl hu
    · rw [hty]
      exact .inr (hF0.top _ (workspace_subset_roots ht0))
  | grow h₀ h hf => exact hG.sprout hF h (hs _ h₀).body fun u hu => .inl hu

theorem Grammatical.share (hG : F.Grammatical) (hF : F.Sound) (h : Share F F') : F'.Grammatical := by
  cases h with
  | stack ht => exact hG.copyRoot hF (hG.top _ (workspace_subset_roots ht)) (.refl _)
  | block h hb => exact hG.hold hF h.sprouts

theorem Grammatical.changes (hG : F.Grammatical) (hF : F.Sound)
    (hs : ∀ F0, saved F0 → F0.Grammatical) (h : Changes saved F F') : F'.Grammatical := by
  induction h with
  | refl => exact hG
  | tail h' h ih => exact ih.change (hF.changes h') hs h

end Forest

end BlockStudio
