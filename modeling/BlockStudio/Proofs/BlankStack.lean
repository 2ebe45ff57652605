import BlockStudio.Proofs.Reachable

/-!
# The blank stack

An unfilled body stands for the blank stack.  Nobody ever gets hold of it: it is neither a root of the
forest nor the body of a block, whatever is copied, dragged, shared or read.  So its row stays empty.
-/

namespace BlockStudio

open Forest

variable {t : StackId} {workspace : List StackId} {cursor : Option StackId} {b : BlockId}

namespace Forest

variable {saved : Forest → Prop} {F F' : Forest}

/-- The blank stack is in the store, nothing shows it, and its row is empty. -/
structure Blank (F : Forest) : Prop where
  lt : blankStack.index < F.store.allStacks.size
  loose : ∀ t, t ∈ F.roots ∨ F.store.Held t → t ≠ blankStack
  row : F.store.blocksOf blankStack = []

section

variable (h : F.Blank)
include h

/-- What is shown was shown before or is new. -/
theorem Blank.step (hs : F.store.allStacks.size ≤ F'.store.allStacks.size)
    (hr : ∀ t ∈ F'.roots, t ∈ F.roots ∨ F.store.allStacks.size ≤ t.index)
    (hh : ∀ t, F'.store.Held t → F.store.Held t ∨ F.store.allStacks.size ≤ t.index)
    (hro : F'.store.blocksOf blankStack = F.store.blocksOf blankStack) : F'.Blank where
  lt := h.lt.trans_le hs
  loose t ht := by
    have hn : F.store.allStacks.size ≤ t.index → t ≠ blankStack := by
      rintro hle rfl
      exact absurd h.lt (Nat.not_lt_of_le hle)
    rcases ht with ht | ht
    · exact (hr t ht).elim (fun ht => h.loose t (.inl ht)) hn
    · exact (hh t ht).elim (fun ht => h.loose t (.inr ht)) hn
  row := hro.trans h.row

/-- The store sprouts, and what sprouts may become a root. -/
theorem Blank.sprout (hF : F.Sound) {src s : Store} {vs : List Value}
    (hs : Store.Sprouts src F.store s vs) (hr : ∀ t ∈ (Forest.mk s workspace cursor).roots,
      t ∈ F.roots ∨ F.store.allStacks.size ≤ t.index) : (Forest.mk s workspace cursor).Blank :=
  h.step hs.grown.stacks_le hr (fun _ ht => (held_of_sprouts hs ht).imp_right And.left)
    (hs.grown.blocksOf_eq hF.store h.lt)

/-- A new stack is dragged, and stacks may leave the workspace. -/
theorem Blank.addRoot (hF : F.Sound) {src s : Store} {vs : List Value}
    (hs : Store.Sprouts src F.store s vs) {bs : List BlockId} (hbs : ∀ b ∈ bs, b.index < s.blocks.size)
    (hsu : workspace.Sublist F.workspace) {p : Option (List Value)} :
    (Forest.mk (s.addStack bs p).2 workspace (some ⟨s.allStacks.size⟩)).Blank := by
  refine h.sprout hF (hs.addStack p hbs) fun u hu => ?_
  rcases mem_roots_some hu with hu | rfl
  · exact .inl (workspace_subset_roots (hsu.subset hu))
  · exact .inr hs.grown.stacks_le

theorem Blank.copyStack (hF : F.Sound) (hs : workspace.Sublist F.workspace) :
    (Forest.mk (F.store.copyStack t).2 workspace (some ⟨F.store.allStacks.size⟩)).Blank :=
  h.addRoot hF (.self F.store hF.store) (fun _ => hF.store.mem_blocksOf) hs

theorem Blank.hold (hF : F.Sound) {src s : Store} (hs : Store.Sprouts src F.store s [.block b]) :
    (Forest.mk (s.addStack [b] none).2 F.workspace (some ⟨s.allStacks.size⟩)).Blank :=
  h.addRoot hF hs (List.forall_mem_singleton.2 (hs.loose_block b (by simp)).2) (.refl _)

/-- Literals are put into slots. -/
theorem Blank.fill {i : Nat} {v : Value} (hv : v.Literal) :
    (Forest.mk (F.store.setValue b i v) F.workspace F.cursor).Blank :=
  h.step le_rfl (fun _ => .inl) (fun _ ht => .inl (held_setValue hv.stackless ht)) rfl

/-- A row that something shows is changed; it is not that of the blank stack. -/
theorem Blank.editRow (hF : F.Sound) (ht : t ∈ F.workspace ∨ F.store.Held t)
    (f : List BlockId → List BlockId) :
    (Forest.mk (F.store.editRow t f) F.workspace none).Blank := by
  have hs := ht.imp_left fun h => workspace_subset_roots h
  refine h.step le_rfl (fun _ hu => .inl (roots_discard.subset hu)) (fun _ hu => .inl hu) ?_
  exact hF.store.rowed.blocksOf_editRow_of_ne (hF.shown_lt hs) h.lt (h.loose t hs).symm f

theorem Blank.roots (hr : (Forest.mk F.store workspace cursor).roots.Sublist F.roots) :
    (Forest.mk F.store workspace cursor).Blank :=
  h.step le_rfl (fun _ ht => .inl (hr.subset ht)) (fun _ => .inl) rfl

theorem Blank.change (hF : F.Sound) (hc : Change saved F F') : F'.Blank := by
  cases hc with
  | fill b i hv => exact h.fill hv
  | openBody hco hk =>
    refine h.step ?_ (fun _ => .inl) (fun t ht => ?_) (blocksOf_withBody_of_lt hF.store h.lt)
    · simp [withBody, Store.setValue, Store.modifyBlock]
    · rcases held_withBody ht with rfl | ht
      · exact .inr le_rfl
      · exact .inl ht
  | liftStack ht => exact h.copyStack hF (List.eraseIdx_sublist ..)
  | liftBody ht hne => exact (h.copyStack hF (.refl _)).fill trivial
  | @split t i ht h0 hi =>
    have hsh := ht.imp_left fun h => workspace_subset_roots h
    refine h.step ?_ (fun u hu => ?_) (fun _ hu => .inl hu)
      (blocksOf_cut_of_ne hF.store h.lt (h.loose t hsh).symm)
    · simp [cut, Store.replaceRow, Store.modifyStack]
    · rcases mem_roots_some hu with hu | rfl
      · exact .inl (workspace_subset_roots hu)
      · exact .inr le_rfl
  | hold hs hf => exact h.hold hF hs
  | place ht => exact h.roots (roots_place ht)
  | insert hu ht hj hh => exact h.editRow hF ht _
  | plug hs hf hb hco hfi =>
    have hsp : (Forest.mk _ F.workspace none).Blank :=
      h.sprout hF hs fun _ hu => .inl (roots_discard.subset hu)
    exact hsp.step le_rfl (fun _ => .inl) (fun _ ht => .inl (held_setValue (fun _ h => by cases h) ht)) rfl
  | discard => exact h.roots roots_discard
  | removeStack k => exact h.roots ((List.eraseIdx_sublist ..).append_right _)
  | @removeBlock t i ht hi =>
    refine h.step le_rfl (fun _ => .inl) (fun _ => .inl) ?_
    -- of the blank stack nothing can be taken away
    by_cases hbl : blankStack = t
    · rw [← hbl, hF.store.rowed.blocksOf_editRow_self h.lt, h.row, List.eraseIdx_nil]
    · exact hF.store.rowed.blocksOf_editRow_of_ne ht h.lt hbl _
  | clear => exact h.roots ((List.nil_sublist _).append_right _)
  | load h₀ ht0 hs hf hty =>
    refine h.sprout hF hs fun u hu => ?_
    rcases mem_roots_load hu with hu | rfl
    · exact .inl hu
    · exact .inr (hs.loose_stack _ (by simp)).1
  | grow h₀ hs hf => exact h.sprout hF hs fun _ => .inl

theorem Blank.changes (hF : F.Sound) (hc : Changes saved F F') : F'.Blank := by
  induction hc with
  | refl => exact h
  | tail h' hch ih => exact ih.change (hF.changes h') hch

theorem Blank.share (hF : F.Sound) (hs : Share F F') : F'.Blank := by
  cases hs with
  | stack ht => exact h.copyStack hF (.refl _)
  | block hc hb => exact h.hold hF hc.sprouts

theorem Blank.crown (hF : F.Sound) (hc : Crown F F') : F'.Blank := by
  cases hc with
  | mk hu hr hb hj hh => exact h.editRow hF hr.mem_or_held _

end

theorem blank_empty : (Forest.mk .empty [] none).Blank where
  lt := Nat.one_pos
  loose t ht := by
    rcases ht with ht | ⟨b, i, hs⟩
    · simp at ht
    · simp [Store.slot?_empty] at hs
  row := rfl

end Forest

/-- The blank stack is blank in every reachable state. -/
theorem Reachable.blank {files : String → Prop} {considered : Editor → Event → Prop} {phase : Phase}
    {e : Editor} (h : Reachable files considered phase e)
    (hf : ∀ text, files text → Saves (fun _ => True) text) : e.forest.Blank :=
  h.forest hf blank_empty (fun _ _ hF hc hb => hb.changes hF hc)
    (fun _ _ _ _ _ hF hs hb => hb.share hF hs)
    fun _ _ _ _ _ hF hcr hb => hb.crown hF hcr

end BlockStudio
