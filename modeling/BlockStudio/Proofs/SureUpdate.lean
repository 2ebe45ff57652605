import BlockStudio.Proofs.Refreshing
import BlockStudio.Proofs.SureSearch

/-!
# Time passes without fail

As time passes the camera moves, the palette and the stacks follow it, the dragged stack is measured,
a place to join it is looked for, and the line of the menu under the mouse is marked.  None of this
fails in a calm editor whose stacks were drawn, and the editor stays so.  Afterwards the dragged stack
is measured, a place to join was found only if a stack is dragged, and the marked line is one of the
lines of the menu.
-/

namespace BlockStudio

open Forest Editor Edit

variable {α : Type} {e e' : Editor} {u : Unit} {dt : Num}

theorem ease_advance (w : Tween Num) (dt : Num) : (w.advance dt).ease = w.ease := by
  unfold Tween.advance
  split
  · rfl
  · dsimp only
    split <;> rfl

theorem eases_moved (e : Editor) (dt : Num) : (e.moved dt).eases = e.eases := by
  simp only [eases, moved, Camera.advance, ease_advance]

/-- What is shown of the workspace after a while was there before, or is an empty body. -/
structure Lingers (e e' : Editor) : Prop where
  moves : Moves NoFile e e'
  abides : Abides e e'
  workspace_eq : e'.workspace = e.workspace
  recalls : e.core.Steady → e.store.Recalls e'.store

instance : IsPreorder Editor Lingers where
  refl e := ⟨refl e, refl e, rfl, fun _ => (Store.Grown.refl _).recalls⟩
  trans _ _ _ h h' := ⟨h.moves.trans h'.moves, trans_of Abides h.abides h'.abides,
    h'.workspace_eq.trans h.workspace_eq, fun hs => (h.recalls hs).trans (h'.recalls (h.moves hs).1)⟩

theorem lingers_of_parts (hm : Moves NoFile e e') (ha : Abides e e')
    (hw : e'.workspace = e.workspace) (hb : e'.store.bare = e.store.bare) : Lingers e e' :=
  ⟨hm, ha, hw, fun _ => (Store.grown_of_bare_eq hb).recalls⟩

theorem lingers_repaints (h : Repaints e e') (ha : Abides e e') : Lingers e e' :=
  lingers_of_parts h.moves ha h.workspace_eq (bare_of_unseen h.1)

theorem lingers_offers (h : Offers e e') : Lingers e e' :=
  lingers_of_parts h.moves h.abides (congrArg Forest.workspace h.forest_eq :)
    (congrArg Forest.store h.forest_eq :)

theorem Measures.lingers (h : Measures e e') : Lingers e e' := by
  cases h with
  | nothing => exact refl e
  | @stack t size e1 _ hs =>
    have hp := (depicts_stack t).pictures.ok hs
    have hu := unseen_of_bare hp
    have hd : Lingers e e1 := lingers_of_parts ((depicts_stack t).pictures.aside.moves.ok hs)
      ((abides_sketch (preserves_stack t)).ok hs) (congrArg Editor.workspace hu :)
      (bare_of_unseen hu)
    refine trans_of Lingers hd ?_
    exact lingers_of_parts (.of_core rfl) (.of_parts rfl rfl rfl) rfl rfl

theorem lingers_findCandidate (h : findCandidate e = .ok u e') : Lingers e e' := by
  have hr := roams_search.findCandidate.ok h
  refine ⟨moves_findCandidate.ok h, hr.1, (congrArg Editor.workspace hr.2 :), fun hs => ?_⟩
  have hse : Seeks NoFile { e with candidate := none } (endState (findCandidate e)) :=
    seeks_findCandidate hs
  rw [h] at hse
  exact (hse.glances hs).recalls

section Passes

variable {dt : Num} {e1 e2 e3 e4 : Editor}

theorem Passes.measured (h : Passes dt e e1 e2 e3 e4 e') : Lingers e e3 := by
  have hm : Lingers e (e.moved dt) :=
    lingers_of_parts (.of_core rfl) (.of_parts rfl rfl (eases_moved e dt)) rfl rfl
  have hp := lingers_offers h.offers
  have hs := lingers_repaints h.repaints
    (h.scaled.elim (fun heq => heq ▸ refl _) (Rescales.of_keeps abides_rescaleAll))
  exact trans_of Lingers hm (trans_of Lingers hp
    (trans_of Lingers hs h.measures.lingers))

theorem Passes.lingers (h : Passes dt e e1 e2 e3 e4 e') : Lingers e e' := by
  have hs : Lingers e4 e' := by
    obtain ⟨n, rfl, -⟩ := selectOption_eq_ok h.selects
    exact lingers_of_parts (.of_core rfl) (.of_parts rfl rfl rfl) rfl rfl
  exact trans_of Lingers h.measured (trans_of Lingers (lingers_findCandidate h.finds) hs)

end Passes

theorem lingers_update (h : update dt e = .ok u e') : Lingers e e' := by
  by_cases hd : e.dialog = none
  · obtain ⟨e1, e2, e3, e4, hp⟩ := update_cases hd h
    exact hp.lingers
  · exact update_asking hd h ▸ refl _

theorem Lingers.calm (h : Lingers e e') (he : e.Calm) : e'.Calm :=
  Carries.calm ⟨h.moves, h.abides⟩ (fun _ => False.elim) he

theorem Lingers.drawn (h : Lingers e e') (he : e.Calm) (hd : e.Drawn) : e'.Drawn :=
  hd.recalls he.sound h.workspace_eq (h.recalls he.steady) h.abides.lasts

/-! ## No step fails -/

theorem Editor.Shown.congr (h : e.Shown) (hw : e'.workspace = e.workspace)
    (hr : e'.renderings = e.renderings) : e'.Shown := by
  unfold Shown
  rw [hw, hr]
  exact h

theorem Editor.Shown.rescaleAll (h : e.Shown) {i : Int} (hru : rescaleAll i e = .ok u e') :
    e'.Shown := by
  by_cases hi : i < e.workspace.length
  · intro k t hk
    rw [((repaints_rescaleAll i).ok hru).workspace_eq] at hk
    obtain ⟨r, _, _, -, -, -, hr⟩ := refreshAll_eq_ok keeps_rescale hru hi hk
    exact ⟨r, hr⟩
  · unfold Edit.rescaleAll Edit.refreshAll at hru
    rw [get_bind, if_neg hi] at hru
    obtain ⟨-, rfl⟩ := pure_eq_ok.1 hru
    exact h

theorem sure_advance_bind {w : Tween Num} (hw : w.Eased) {f : Tween Num → Edit α}
    (hf : Sure (f (w.advance dt)) e) : Sure (advance w dt >>= f) e := by
  have he : (w.advance dt).Eased := by
    rw [Tween.Eased, ease_advance]
    exact hw
  refine .bind (.ofExcept_bind he.value fun _ _ => .pure _) fun w' e1 h => ?_
  obtain ⟨_, -, h⟩ := ofExcept_bind_eq_ok.1 h
  obtain ⟨rfl, rfl⟩ := pure_eq_ok.1 h
  exact hf

/-- The dragged stack is measured, a place for it is looked for, and a line of the menu is marked. -/
theorem sure_aim (h : e.Calm) (hd : e.Drawn) : Sure aim e := by
  refine .step rfl ?_
  rcases hc : e.cursor with _ | t
  · refine (sure_findCandidate h hd fun u hu => ?_).bind fun _ _ _ => .modify _
    cases hc.symm.trans hu
  · obtain ⟨k, hk⟩ := List.getElem?_of_mem (mem_roots.2 (.inr hc) : t ∈ e.forest.roots)
    obtain ⟨tree, ht⟩ := h.exists_tree (.root hk)
    refine (failsOnly_stack h.sound.store h.housed ht).bind fun size e1 hs => ?_
    refine .step rfl ?_
    have hl := (Measures.stack hc hs).lingers
    refine (sure_findCandidate (hl.calm h) (hl.drawn h hd) fun _ _ =>
      ⟨size, rfl⟩).bind fun _ _ _ => .modify _

/-- Time passes without fail. -/
theorem sure_update (h : e.Calm) (hd : e.Drawn) (hs : e.Shown) (dt : Num) :
    Sure (update dt) e := by
  have hz : ∀ {e1 : Editor} (zoom : Tween Num), e1.Calm → e1.Drawn → e1.Shown →
      Sure (follow zoom) e1 := by
    intro e1 zoom h1 hd1 hs1
    refine .ite (fun _ => .step rfl ?_) fun _ => sure_aim h1 hd1
    have hro : ∀ i : Int, Keeps Lingers (rescaleAll i) := fun i =>
      ⟨fun e => lingers_repaints ((repaints_rescaleAll i).run e) ((abides_rescaleAll i).run e)⟩
    refine .bind (.forIn (I := fun e => e.Calm ∧ e.Drawn ∧ e.Shown) _ _
      ⟨h1, hd1, hs1⟩ (fun i _ _ e2 h2 => ?_) fun i _ _ e2 r e3 h2 hru => ?_) fun _ e2 h2 => ?_
    · exact (h2.1.ready.sure_rescaleAll h2.2.2 _).bind fun _ _ _ => .pure _
    · obtain ⟨_, e4, hr, hru⟩ := bind_eq_ok.1 hru
      obtain ⟨-, rfl⟩ := pure_eq_ok.1 hru
      have hl := (hro i).ok hr
      exact ⟨hl.calm h2.1, hl.drawn h2.1 h2.2.1, h2.2.2.rescaleAll hr⟩
    · have hl : Lingers e1 e2 := (Keeps.forIn (R := Lingers) _ _ fun i _ _ =>
        .bind (hro _) fun _ => .pure _).ok h2
      exact sure_aim (hl.calm h1) (hl.drawn h1 hd1)
  unfold update
  refine .step rfl (.ite (fun _ => .pure _) fun _ => ?_)
  refine .step rfl (sure_advance_bind h.eased.x (.step rfl ?_))
  refine .step rfl (sure_advance_bind h.eased.y (.step rfl ?_))
  refine .step rfl (sure_advance_bind h.eased.zoom (.step rfl ?_))
  refine .step rfl (sure_advance_bind h.eased.scroll (.step rfl ?_))
  have hm : (e.moved dt).Calm := h.congr rfl rfl (eases_moved e dt)
  refine .ite (fun _ => ?_) fun _ => hz _ hm hd hs
  refine hm.sure_drawPalette.bind fun _ e1 h1 => ?_
  have ho := offers_drawPalette.ok h1
  have hl := lingers_offers ho
  refine hz _ (hl.calm hm) (hl.drawn hm hd) ?_
  exact hs.congr hl.workspace_eq (congrArg renderings ho.1 :)

/-! ## What is ready afterwards -/

/-- The dragged stack was measured, and a place to join is there only for a dragged stack. -/
structure Editor.Poised (e : Editor) : Prop where
  measured : ∀ t, e.cursor = some t → ∃ size, e.cursorSize = some size
  aimed : ∀ c, e.candidate = some c → ∃ t, e.cursor = some t

/-- The marked line is a line of the open menu. -/
def Editor.Marked (e : Editor) : Prop :=
  e.menu.isSome → e.selected = -1 ∨ ∃ k : Nat, e.selected = k ∧ k < e.optionRects.length

theorem Aimed.exists_cursor {F : Forest} {c : Candidate} (h : Aimed F c) : ∃ t, F.cursor = some t := by
  cases h with
  | ends _ hu => exact ⟨_, hu⟩
  | slot _ hu => exact ⟨_, hu⟩

theorem poised_update (hs : e.core.Steady) (hd : e.dialog = none) (h : update dt e = .ok u e') :
    e'.Poised ∧ e'.Marked := by
  obtain ⟨e1, e2, e3, e4, hp⟩ := update_cases hd h
  obtain ⟨n, rfl, hn⟩ := selectOption_eq_ok hp.selects
  have ha := (roams_search.findCandidate.ok hp.finds).2
  have hcu : e4.cursor = e3.cursor := (congrArg Editor.cursor ha :)
  have hsi : e4.cursorSize = e3.cursorSize := (congrArg cursorSize ha :)
  have hs3 := (hp.measured.moves hs).1
  have hai := aiming_findCandidate e3 _ e4 hs3 hp.finds
  refine ⟨⟨fun t ht => ?_, fun c hc => ?_⟩, hn⟩
  · rw [show _ = e3.cursor from hcu] at ht
    rw [show _ = e3.cursorSize from hsi]
    rcases hp.measures with hno | ⟨-, -⟩
    · cases hno.symm.trans ht
    · exact ⟨_, rfl⟩
  · exact (hai c hc).2.exists_cursor

end BlockStudio
