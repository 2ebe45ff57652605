import BlockStudio.Proofs.Calm

/-!
# Roots that are never empty

A few facts about the forest of a project do not depend on which blocks fit where: each stack shows a
row of its own, the stacks of the workspace and the dragged stack are different from each other and
from all bodies, and none of them is empty.  `Forest.Rooted` collects them.

Most changes take stacks out of the workspace or leave it as it is.  `Forest.Sheds` says so, and that the
stacks which stay begin with the blocks they began with.
-/

namespace BlockStudio

open List Store

variable {t : StackId}

namespace Store

variable {s : Store}

theorem Rowed.hasStack (hs : s.Rowed) (ht : t.index < s.allStacks.size) : s.HasStack t :=
  ⟨ht, hs.row_lt t ht⟩

theorem Rowed.setValue (hs : s.Rowed) (b : BlockId) (i : Nat) (v : Value) : (s.setValue b i v).Rowed :=
  ⟨hs.row_lt, hs.row_inj⟩

end Store

namespace Forest

variable {F F' F'' : Forest}

/-! ## Rooted forests -/

/-- Each stack shows a row of its own, and the roots are different stacks with blocks that are the
bodies of no block. -/
structure Rooted (F : Forest) : Prop where
  rowed : F.store.Rowed
  nodup : F.roots.Nodup
  root_lt : ∀ t ∈ F.roots, t.index < F.store.allStacks.size
  held_lt : ∀ t, F.store.Held t → t.index < F.store.allStacks.size
  apart : ∀ t, F.store.Held t → t ∉ F.roots
  filled : F.Filled

theorem Sound.rooted (hF : F.Sound) (hf : F.Filled) : F.Rooted :=
  ⟨hF.store.rowed, hF.nodup, hF.root_lt, fun _ => hF.held_lt, hF.apart, hf⟩

theorem Rooted.nodup_workspace (hF : F.Rooted) : F.workspace.Nodup :=
  (nodup_append.1 hF.nodup).1

theorem Rooted.shown_lt (hF : F.Rooted) (h : t ∈ F.workspace ∨ F.store.Held t) :
    t.index < F.store.allStacks.size :=
  h.elim (fun ht => hF.root_lt t (workspace_subset_roots ht)) (hF.held_lt t)

/-- A stack is in the second forest only. -/
def New (F F' : Forest) (t : StackId) : Prop :=
  F.store.allStacks.size ≤ t.index ∧ t.index < F'.store.allStacks.size

/-- Stacks may leave the workspace and none comes in, the dragged stack may be a new one, and the
roots that stay begin with the blocks that they began with. -/
structure Sheds (F F' : Forest) : Prop extends F.store.Stays F'.store where
  stacks_le : F.store.allStacks.size ≤ F'.store.allStacks.size
  held : ∀ t, F'.store.Held t → F.store.Held t ∨ New F F' t
  workspace : F'.workspace.Sublist F.workspace
  cursor : ∀ t, F'.cursor = some t →
    F.cursor = some t ∨ New F F' t ∧ ¬F'.store.Held t ∧ F'.store.blocksOf t ≠ []
  head_eq : ∀ t ∈ F'.roots, t.index < F.store.allStacks.size →
    (F'.store.blocksOf t).head? = (F.store.blocksOf t).head?

/-- A root is not new, or it is the dragged stack. -/
theorem Sheds.mem_roots (h : F.Sheds F') (ht : t ∈ F'.roots) :
    t ∈ F.roots ∨ New F F' t ∧ ¬F'.store.Held t ∧ F'.store.blocksOf t ≠ [] := by
  rcases Forest.mem_roots.1 ht with ht | ht
  · exact .inl (workspace_subset_roots (h.workspace.subset ht))
  · exact (h.cursor t ht).imp_left fun ht => Forest.mem_roots.2 (.inr ht)

theorem Rooted.sheds (hF : F.Rooted) (h : F.Sheds F') (hro : F'.store.Rowed) : F'.Rooted where
  rowed := hro
  nodup := by
    refine nodup_append.2 ⟨hF.nodup_workspace.sublist h.workspace, by
      cases F'.cursor <;> simp, fun t ht u hu => ?_⟩
    have ht := h.workspace.subset ht
    rintro rfl
    rcases h.cursor t (by simpa using hu) with hc | ⟨hn, -⟩
    · exact not_mem_workspace hF.nodup hc ht
    · exact absurd (hF.root_lt t (workspace_subset_roots ht)) (Nat.not_lt_of_le hn.1)
  root_lt t ht := by
    rcases h.mem_roots ht with ht | ⟨hn, -⟩
    · exact (hF.root_lt t ht).trans_le h.stacks_le
    · exact hn.2
  held_lt t ht := (h.held t ht).elim (fun ht => (hF.held_lt t ht).trans_le h.stacks_le) fun hn => hn.2
  apart t hh ht := by
    rcases h.mem_roots ht with hr | ⟨-, hl, -⟩
    · rcases h.held t hh with hh | hn
      · exact hF.apart t hh hr
      · exact absurd (hF.root_lt t hr) (Nat.not_lt_of_le hn.1)
    · exact hl hh
  filled t ht := by
    rcases h.mem_roots ht with hr | ⟨-, -, hne⟩
    · have hhe := h.head_eq t ht (hF.root_lt t hr)
      intro hni
      rw [hni] at hhe
      exact hF.filled t hr (head?_eq_none_iff.1 hhe.symm)
    · exact hne

/-- From a rooted forest to a rooted one, with stacks that leave the workspace. -/
def Prunes (F F' : Forest) : Prop :=
  F.Rooted → F'.Rooted ∧ F.Sheds F'

theorem Sheds.refl (F : Forest) : F.Sheds F :=
  ⟨.refl _, le_rfl, fun _ => .inl, .refl _, fun _ => .inl, fun _ _ _ => rfl⟩

theorem Sheds.trans (h : F.Sheds F') (h' : F'.Sheds F'') : F.Sheds F'' where
  toStays := h.toStays.trans h'.toStays
  stacks_le := h.stacks_le.trans h'.stacks_le
  held t ht := by
    rcases h'.held t ht with ht | hn
    · exact (h.held t ht).imp_right fun hn => ⟨hn.1, hn.2.trans_le h'.stacks_le⟩
    · exact .inr ⟨h.stacks_le.trans hn.1, hn.2⟩
  workspace := h'.workspace.trans h.workspace
  cursor t ht := by
    rcases h'.cursor t ht with ht' | ⟨hn, hl⟩
    · refine (h.cursor t ht').imp_right fun ⟨hn, hl, hne⟩ => ?_
      refine ⟨⟨hn.1, hn.2.trans_le h'.stacks_le⟩, fun hh => ?_, fun hni => ?_⟩
      · rcases h'.held t hh with hh | hn'
        · exact hl hh
        · exact absurd hn.2 (Nat.not_lt_of_le hn'.1)
      · have hhe := h'.head_eq t (Forest.mem_roots.2 (.inr ht)) hn.2
        rw [hni] at hhe
        exact hne (head?_eq_none_iff.1 hhe.symm)
    · exact .inr ⟨⟨h.stacks_le.trans hn.1, hn.2⟩, hl⟩
  head_eq t ht hlt := by
    have hl' := hlt.trans_le h.stacks_le
    have hr : t ∈ F'.roots := (h'.mem_roots ht).elim id fun ⟨hn, _⟩ =>
      absurd hl' (Nat.not_lt_of_le hn.1)
    exact (h'.head_eq t ht hl').trans (h.head_eq t hr hlt)

instance : IsPreorder Forest Prunes where
  refl F hF := ⟨hF, .refl F⟩
  trans _ _ _ h h' hF := by
    obtain ⟨hF', hsheds⟩ := h hF
    obtain ⟨hF'', hsheds'⟩ := h' hF'
    exact ⟨hF'', hsheds.trans hsheds'⟩

/-! ### Changes of a rooted forest -/

section Changes

variable {s : Store} {b : BlockId} {i : Nat} {v : Value} {t : StackId} {bs : List BlockId}

theorem prunes_roots {workspace : List StackId} (cursor : Option StackId)
    (hw : workspace.Sublist F.workspace) (hc : ∀ t, cursor = some t → F.cursor = some t) :
    F.Prunes ⟨F.store, workspace, cursor⟩ := fun hF => by
  have hs : F.Sheds ⟨F.store, workspace, cursor⟩ :=
    { Sheds.refl F with
      workspace := hw
      cursor := fun t ht => .inl (hc t ht)
      head_eq := fun _ _ _ => rfl }
  exact ⟨hF.sheds hs hF.rowed, hs⟩

/-- The store grows, and the dragged stack may be one of the new stacks. -/
theorem prunes_adds (cursor : Option StackId) (h : F.store.Adds s)
    (hc : F.Rooted → ∀ t, cursor = some t → F.cursor = some t ∨
      New F ⟨s, F.workspace, cursor⟩ t ∧ ¬s.Held t ∧ s.blocksOf t ≠ []) :
    F.Prunes ⟨s, F.workspace, cursor⟩ := fun hF => by
  have hs : F.Sheds ⟨s, F.workspace, cursor⟩ :=
    { toStays := h.toStays
      stacks_le := h.stacks_le
      held := h.held
      workspace := .refl _
      cursor := hc hF
      head_eq := fun t _ hlt => by rw [h.toSpans.blocksOf_eq (hF.rowed.hasStack hlt)] }
  exact ⟨hF.sheds hs (h.rowed hF.rowed), hs⟩

/-- A new stack with blocks is dragged. -/
theorem prunes_hold (h : F.store.Adds s) (hbs : bs ≠ []) (p : Option (List Value)) :
    F.Prunes ⟨(s.addStack bs p).2, F.workspace, some ⟨s.allStacks.size⟩⟩ := by
  refine prunes_adds _ (trans_of Adds h (adds_addStack ..)) fun hF t ht => .inr ?_
  cases ht
  refine ⟨⟨h.stacks_le, by simp⟩, fun hh => ?_, ?_⟩
  · rcases h.held _ hh with hh | ⟨-, hlt⟩
    · exact absurd (hF.held_lt _ hh) (Nat.not_lt_of_le h.stacks_le)
    · exact absurd hlt (Nat.lt_irrefl _)
  · rwa [blocksOf_addStack_self]

/-- The store changes, and the roots begin as before. -/
theorem prunes_store (hr : F.store.Rowed → s.Rowed) (hsa : F.store.Stays s)
    (hst : F.store.allStacks.size ≤ s.allStacks.size)
    (hhe : ∀ t, s.Held t → F.store.Held t ∨
      F.store.allStacks.size ≤ t.index ∧ t.index < s.allStacks.size)
    (hh : F.Rooted → ∀ t ∈ F.roots, t.index < F.store.allStacks.size →
      (s.blocksOf t).head? = (F.store.blocksOf t).head?) :
    F.Prunes ⟨s, F.workspace, F.cursor⟩ := fun hF => by
  have hs : F.Sheds ⟨s, F.workspace, F.cursor⟩ :=
    ⟨hsa, hst, hhe, .refl _, fun _ => .inl, hh hF⟩
  exact ⟨hF.sheds hs (hr hF.rowed), hs⟩

theorem prunes_setValue (b : BlockId) (i : Nat) (hv : v.Stackless) :
    F.Prunes ⟨F.store.setValue b i v, F.workspace, F.cursor⟩ :=
  prunes_store (·.setValue ..) (stays_setValue ..) le_rfl
    (fun _ ht => .inl (held_setValue hv ht)) fun _ _ _ _ => rfl

/-- A stack gets another row; as a root it begins as before. -/
theorem prunes_replaceRow (ht : t.index < F.store.allStacks.size)
    (hbs : t ∈ F.roots → bs.head? = (F.store.blocksOf t).head?) :
    F.Prunes ⟨F.store.replaceRow t bs, F.workspace, F.cursor⟩ := by
  refine prunes_store (·.replaceRow ht bs) ⟨le_rfl, fun _ _ => rfl⟩ (by simp) (fun _ => .inl)
    fun hF u hu hlt => ?_
  by_cases hut : u = t
  · subst hut
    rw [blocksOf_replaceRow_self ht]
    exact hbs hu
  · rw [hF.rowed.blocksOf_replaceRow_of_ne hlt hut]

/-- The row of a stack is edited; as a root it begins as before. -/
theorem prunes_editRow {f : List BlockId → List BlockId} (ht : t.index < F.store.allStacks.size)
    (hf : t ∈ F.roots → (f (F.store.blocksOf t)).head? = (F.store.blocksOf t).head?) :
    F.Prunes ⟨F.store.editRow t f, F.workspace, F.cursor⟩ := by
  refine prunes_store (·.editRow t f) ⟨le_rfl, fun _ _ => rfl⟩ le_rfl (fun _ => .inl)
    fun hF u hu hlt => ?_
  by_cases hut : u = t
  · subst hut
    rw [hF.rowed.blocksOf_editRow_self ht]
    exact hf hu
  · rw [hF.rowed.blocksOf_editRow_of_ne ht hlt hut]

/-- An unfilled slot for a body gets an empty one. -/
theorem prunes_openBody (b : BlockId) (i : Nat) :
    F.Prunes ⟨withBody F.store b i, F.workspace, F.cursor⟩ := by
  have ha := adds_addStack F.store [] none
  refine prunes_store (fun hs => (ha.rowed hs).setValue ..)
    (ha.toStays.trans (stays_setValue ..)) ha.stacks_le (fun t ht => ?_) fun hF t _ hlt => ?_
  · rcases held_withBody ht with rfl | ht
    · exact .inr ⟨le_rfl, by simp [withBody, setValue, modifyBlock]⟩
    · exact .inl ht
  · show ((F.store.addStack [] none).2.blocksOf t).head? = _
    rw [ha.toSpans.blocksOf_eq (hF.rowed.hasStack hlt)]

end Changes

/-! ### Stacks that come into the workspace -/

/-- The dragged stack is laid down. -/
theorem Rooted.lay (hF : F.Rooted) (ht : F.cursor = some t) :
    Rooted ⟨F.store, F.workspace ++ [t], none⟩ := by
  have hr : Forest.roots ⟨F.store, F.workspace ++ [t], none⟩ = F.roots := by simp [roots, ht]
  refine ⟨hF.rowed, ?_, ?_, hF.held_lt, ?_, ?_⟩
  · rw [hr]
    exact hF.nodup
  · rw [hr]
    exact hF.root_lt
  · rw [hr]
    exact hF.apart
  · intro u hu
    exact hF.filled u (hr ▸ hu)

/-- A row is spliced into another one, wherever that is. -/
theorem Rooted.splice (hF : F.Rooted) (t u : StackId) (k : Nat) :
    Rooted ⟨spliced F.store t u k, F.workspace, F.cursor⟩ := by
  refine ⟨hF.rowed.editRow t _, hF.nodup, hF.root_lt, hF.held_lt, hF.apart, fun v hv => ?_⟩
  have hne : (F.store.row (F.store.stack v).row) ≠ [] := hF.filled v hv
  show (spliced F.store t u k).row (F.store.stack v).row ≠ []
  rw [spliced, row_editRow]
  split
  · intro hn
    obtain ⟨⟨ht, -⟩, hd⟩ := by simpa only [append_eq_nil_iff] using hn
    rw [← take_append_drop k (F.store.row _), ht, hd] at hne
    exact hne rfl
  · exact hne

/-- A new stack comes into the workspace. -/
theorem Rooted.take (hF : F.Rooted) {s : Store} (h : F.store.Adds s) {bs : List BlockId} (hbs : bs ≠ [])
    (p : Option (List Value)) :
    Rooted ⟨(s.addStack bs p).2, F.workspace ++ [⟨s.allStacks.size⟩], F.cursor⟩ := by
  obtain ⟨hr, hs⟩ := prunes_adds F.cursor
    (trans_of Adds h (adds_addStack s bs p)) (fun _ _ => .inl) hF
  have hn : ∀ t ∈ F.roots, t ≠ ⟨s.allStacks.size⟩ := by
    rintro t ht rfl
    exact absurd (hF.root_lt _ ht) (Nat.not_lt_of_le h.stacks_le)
  -- the new stack stands before the dragged one, which does not matter here
  have hp : List.Perm (F.roots ++ [⟨s.allStacks.size⟩])
      (Forest.roots ⟨(s.addStack bs p).2, F.workspace ++ [⟨s.allStacks.size⟩], F.cursor⟩) := by
    simp only [roots, append_assoc]
    exact perm_append_comm.append_left _
  have hm : ∀ t, t ∈ Forest.roots ⟨(s.addStack bs p).2, F.workspace ++ [⟨s.allStacks.size⟩], F.cursor⟩ →
      t ∈ F.roots ∨ t = ⟨s.allStacks.size⟩ := fun t ht => by
    simpa using hp.mem_iff.2 ht
  refine ⟨hr.rowed, ?_, fun t ht => ?_, hr.held_lt, fun t hh ht => ?_, fun t ht => ?_⟩
  · refine hp.nodup_iff.1 (nodup_append.2 ⟨hF.nodup, nodup_singleton _, fun t ht u hu => ?_⟩)
    rw [mem_singleton.1 hu]
    exact hn t ht
  · rcases hm t ht with ht | rfl
    · exact hr.root_lt t ht
    · simp
  · rcases hm t ht with ht | rfl
    · exact hr.apart t hh ht
    -- the bodies were there before the new stack
    · rcases h.held _ hh with hh | ⟨-, hlt⟩
      · exact absurd (hF.held_lt _ hh) (Nat.not_lt_of_le h.stacks_le)
      · exact absurd hlt (Nat.lt_irrefl _)
  · rcases hm t ht with ht | rfl
    · exact hr.filled t ht
    · show (s.addStack bs p).2.blocksOf _ ≠ []
      rwa [blocksOf_addStack_self]

end Forest

end BlockStudio
