import BlockStudio.Proofs.Seeking

/-!
# Letting go of the dragged stack

Letting go joins the dragged stack where the candidate says, lays it down, or drops it.  Given an
aimed candidate this is a change of the forest, except when a stack with a hat is joined to a body.
-/

namespace BlockStudio

open Forest Editor Edit Store

variable {α : Type} {saved : Forest → Prop} {c : Candidate} {e e1 e2 e' : Editor} {cursor : StackId}
  {u : Unit} {s : Store} {k button : Int}

/-! ## Joining -/

/-- A row is spliced into a stack, which may be moved up for it. -/
def Spliced (s : Store) (t u : StackId) (i : Nat) (s' : Store) : Prop :=
  s' = spliced s t u i ∨ ∃ p : Point, s' = (spliced s t u i).setPosition t p.asPosition

theorem bare_spliced (s : Store) (t u : StackId) (i : Nat) :
    (spliced s t u i).bare = spliced s.bare t u i := by
  simp [spliced]

theorem Spliced.bare {s' : Store} {t u : StackId} {i : Nat} (h : Spliced s t u i s') :
    s'.bare = spliced s.bare t u i := by
  rcases h with rfl | ⟨p, rfl⟩
  · exact bare_spliced ..
  · rw [bare_setPosition, bare_spliced]

/-- What joining does to the store: the dragged row is spliced in where the candidate says, which is
the end of the row when it names no block, or a copy of the dragged block goes to a slot. -/
inductive Attaches (cursor : StackId) (c : Candidate) (s : Store) : Store → Prop where
  | ends {k : Nat} {s' : Store} (hjoint : c.joint ≠ .value)
    (hk : k = c.above ∨ c.blockIndex = none ∧ k = (s.blocksOf c.stack).length)
    (hs' : Spliced s c.stack cursor k s') : Attaches cursor c s s'
  | slot {first b : BlockId} {rest : List BlockId} {i : Nat} (hjoint : c.joint = .value)
    (hb : c.block = some b) (hi : c.slot = some i) (hrow : s.blocksOf cursor = first :: rest) :
    Attaches cursor c s ((s.copyBlock first).2.setValue b i (.block (s.copyBlock first).1))

/-- Joining, up to the drawing that follows. -/
theorem join_cases (h : join cursor c e = .ok u e') :
    ∃ s, Attaches cursor c e.store s ∧ redraw c.stackIndex (e.withStore s) = .ok u e' := by
  unfold join at h
  rw [store_bind] at h
  rcases hj : c.joint with _ | _ | _ <;> simp only [hj] at h
  · have hjo : c.joint ≠ .value := by simp [hj]
    rw [modifyStore_bind] at h
    have ha : c.blockIndex.getD 0 = c.above := by
      rw [Candidate.above, hj]
      cases c.blockIndex <;> rfl
    rw [ha] at h
    rw [get_bind] at h
    split at h
    · obtain ⟨s, hs, h⟩ := reads_store.bind_eq_ok h
      obtain ⟨place, -, h⟩ := ofExcept_bind_eq_ok.1 h
      obtain ⟨size, -, h⟩ := reads_heldSize.bind_eq_ok h
      rw [modifyStore_bind] at h
      exact ⟨_, .ends hjo (.inl rfl) (.inr ⟨_, rfl⟩), h⟩
    · exact ⟨_, .ends hjo (.inl rfl) (.inl rfl), h⟩
  · have hjo : c.joint ≠ .value := by simp [hj]
    rcases hb : c.blockIndex with _ | k <;> simp only [hb] at h <;> rw [modifyStore_bind] at h
    · refine ⟨_, .ends hjo (.inr ⟨hb, rfl⟩) (.inl ?_), h⟩
      apply editRow_congr
      simp
    · exact ⟨_, .ends hjo (.inl (by rw [Candidate.above, hj, hb])) (.inl rfl), h⟩
  · rcases hb : c.block with _ | b <;> rcases hi : c.slot with _ | i <;>
      rcases hr : e.store.blocksOf cursor with _ | ⟨first, rest⟩ <;> simp only [hb, hi, hr] at h
    case some.some.cons =>
      rw [copyBlock_bind] at h
      obtain ⟨_, e2, h2, h⟩ := bind_eq_ok.1 h
      obtain ⟨-, rfl⟩ := assign_eq_ok.1 h2
      exact ⟨_, .slot hj hb hi hr, h⟩
    all_goals
      obtain ⟨_, _, ht, -⟩ := bind_eq_ok.1 h
      exact absurd ht throw_ne_ok

/-! ## Letting go -/

/-- The editor when nothing is dragged any more. -/
def Editor.released (e : Editor) : Editor := { e with cursor := none }

/-- The core after what was joined has been drawn and let go. -/
theorem core_released (h : Repaints e1 e2) : e2.released.core = { e1.core with
        forest := ⟨e1.store.bare, e1.workspace, none⟩, renderings := e2.renderings } := by
  have hc := congrArg (fun u : Editor =>
    ({ ({ u with cursor := none } : Editor).core with renderings := e2.renderings } : Core)) h.1
  simpa [Editor.released, Editor.core, Editor.forest, Editor.unseen, Editor.bare, Editor.store] using hc

/-- The dragged stack begins with a hat and would be joined to a body. -/
def Editor.CrownsBody (e : Editor) : Prop :=
  ∃ c u, e.candidate = some c ∧ c.joint ≠ .value ∧ c.stack ∉ e.workspace ∧ e.cursor = some u ∧
    (e.forest.store.types u).head? = some .hat

/-- Joining at an end is a change of the forest, unless a hat is put on a body. -/
theorem Aimed.crown_or_change {F : Forest} (h : Aimed F c) (hj : c.joint ≠ .value)
    (hc : F.cursor = some cursor) :
    ((F.store.types cursor).head? = some .hat ∧ c.stack ∉ F.workspace) ∧
        Crown F ⟨spliced F.store c.stack cursor c.above, F.workspace, none⟩ ∨
      Change saved F ⟨spliced F.store c.stack cursor c.above, F.workspace, none⟩ := by
  cases h with
  | slot hv => exact absurd hv hj
  | @ends w _ hw hr ha _ =>
    cases hc.symm.trans hw
    by_cases hh : (F.store.types cursor).head? = some .hat ∧ c.stack ∉ F.workspace
    · exact .inl ⟨hh, .mk hw hr hh.2 ha hh.1⟩
    · refine .inr (.insert hw hr.mem_or_held ha fun h => ?_)
      by_contra ho
      exact hh ⟨h, ho⟩

theorem drop_ends (hs : e.core.Steady) (hc : e.candidate = some c) (ha : Aimed e.forest c)
    (hj : c.joint ≠ .value) (hcu : e.cursor = some cursor)
    (hba : s.bare = spliced e.forest.store c.stack cursor c.above)
    (hre : redraw k (e.withStore s) = .ok u e2) : Moves saved e e2.released ∨
      e.CrownsBody ∧ e2.released.core.Steady ∧ Crown e.forest e2.released.forest := by
  have hr : Repaints (e.withStore s) e2 := (repaints_redraw k).ok hre
  have hco := core_released hr
  have hf : (⟨(e.withStore s).store.bare, (e.withStore s).workspace, none⟩ : Forest) =
      ⟨spliced e.forest.store c.stack cursor c.above, e.workspace, none⟩ := by
    rw [← hba]
    rfl
  rw [hf] at hco
  have hpi : Pictured e.workspace e2.renderings := by
    have hp := hr.2 hs.pictured
    rwa [hr.workspace_eq] at hp
  have hme : ∀ m, e.menu = some m →
      m.Fits ⟨spliced e.forest.store c.stack cursor c.above, e.workspace, none⟩ := fun m hm =>
    (hs.menu m hm).mono (by simp [spliced, editRow, Editor.core])
      (by simp [spliced, editRow, Editor.core]) (by simp) rfl
  obtain ⟨hh, hcr⟩ | (hch : Change saved _ _) := ha.crown_or_change hj hcu
  · refine .inr ⟨⟨c, cursor, hc, hj, hh.2, hcu, hh.1⟩, ?_, ?_⟩
    · rw [hco]
      exact hs.withForest (hs.forest.crown hcr) hpi hme
    · have hF : e2.released.forest = _ := congrArg Core.forest hco
      rw [hF]
      exact hcr
  · exact .inl (moves_forest hco (fun _ => .single hch) (fun _ => hpi) fun _ => hme)

section Plug

variable {cursor : StackId} {first b : BlockId} {i : Nat} {comp : Component}
  (hfirst : (e.forest.store.blocksOf cursor).head? = some first)
  (hreporter : (e.forest.store.definitionOf first).blockType = .reporter)
  (hb : b.index < e.forest.store.blocks.size)
  (hcomp : (e.forest.store.definitionOf b).inputs[i]? = some comp)
  (hfits : comp.kind.fits (e.forest.store.definitionOf first).outputType = true)

include hfirst hreporter hb hcomp hfits

/-- Joining in a slot is a change of the forest. -/
theorem change_plug (hF : e.forest.Sound) :
    Change saved e.forest ⟨((e.store.copyBlock first).2.setValue b i
      (.block (e.store.copyBlock first).1)).bare, e.workspace, none⟩ := by
  have hc := hF.store.copyBlock (hF.store.mem_blocksOf (List.mem_of_head? hfirst))
  have hco : e.forest.store.copyBlock first =
      ((e.store.copyBlock first).1, (e.store.copyBlock first).2.bare) := copyBlock_bare _ _
  rw [hco] at hc
  rw [bare_setValue]
  refine .plug hc.sprouts (hc.fresh (hF.store.not_hasBody hreporter)) hb hcomp
    ⟨(hc.sprouts.loose_block _ (by simp)).2, ?_, ?_⟩
  · rw [hc.definition_eq]
    exact hreporter
  · rw [hc.definition_eq]
    exact hfits

theorem drop_slot (hre : redraw k (e.withStore ((e.store.copyBlock first).2.setValue b i
      (.block (e.store.copyBlock first).1))) = .ok u e2) : Moves saved e e2.released := by
  intro hs
  have hr := (repaints_redraw k).ok hre
  have hc := core_released hr
  refine moves_forest hc
    (fun hs => .single (change_plug hfirst hreporter hb hcomp hfits hs.forest)) (fun hs => ?_)
    (fun hs m hm => ?_) hs
  · have hp := hr.2 hs.pictured
    rwa [hr.workspace_eq] at hp
  · have hg := (retains_copyBlock e.store first).toGrown
    refine (hs.menu m hm).mono ?_ ?_ (by simp) rfl
    · simpa [Editor.core, Editor.forest, Editor.withStore, Editor.store] using hg.blocks_le
    · simpa [Editor.core, Editor.forest, Editor.withStore, Editor.store, Store.setValue,
        modifyBlock] using hg.stacks_le

end Plug

theorem drop_nowhere {p : Option (List Value)} (hcu : e.cursor = some cursor)
    (hre : redraw (-1) { e.withStore (e.store.setPosition cursor p) with
      workspace := e.workspace ++ [cursor], renderings := e.renderings ++ [none] } = .ok u e2) :
    Moves saved e e2.released := by
  intro hs
  have hr := (repaints_redraw _).ok hre
  have hc := core_released hr
  have hf : (⟨(e.store.setPosition cursor p).bare, e.workspace ++ [cursor], none⟩ : Forest) =
      ⟨e.forest.store, e.forest.workspace ++ [cursor], none⟩ := by
    rw [bare_setPosition]
    rfl
  replace hc : e2.released.core = { e.core with
      forest := ⟨(e.store.setPosition cursor p).bare, e.workspace ++ [cursor], none⟩
      renderings := e2.renderings } := hc
  rw [hf] at hc
  refine moves_forest hc (fun _ => .single (.place hcu)) (fun hs => ?_) (fun hs m hm => ?_) hs
  · have hp := hr.2 (hs.pictured.append cursor)
    rwa [hr.workspace_eq] at hp
  · have hfits := hs.menu m hm
    refine hfits.append le_rfl le_rfl (by simp) rfl fun hst => hfits.not_dragged ?_
    rw [hst]
    exact hcu

/-- Letting go of the dragged stack over the workspace joins it where the candidate says, or lays it
down; a drawing follows. -/
theorem letGo_cases (h : dropCursor cursor e = .ok u e2) :
    (∃ p : Point, redraw (-1) { e.withStore (e.store.setPosition cursor p.asPosition) with
        workspace := e.workspace ++ [cursor], renderings := e.renderings ++ [none] } = .ok u e2) ∨
      ∃ c s, e.candidate = some c ∧ redraw c.stackIndex (e.withStore s) = .ok u e2 ∧
        Attaches cursor c e.store s := by
  unfold dropCursor at h
  rw [get_bind] at h
  rcases hc : e.candidate with _ | c <;> simp only [hc] at h
  · obtain ⟨place, -, h⟩ := reads_heldPlace.bind_eq_ok h
    rw [modifyStore_bind, modify_bind] at h
    exact .inl ⟨_, h⟩
  · obtain ⟨s, ha, hr⟩ := join_cases h
    exact .inr ⟨c, s, rfl, hr, ha⟩

/-- The same for an aimed candidate, which says where the dragged stack fits. -/
theorem dropCursor_cases (ha : e.Aiming) (hcu : e.cursor = some cursor)
    (h : dropCursor cursor e = .ok u e2) :
    (∃ p : Point, redraw (-1) { e.withStore (e.store.setPosition cursor p.asPosition) with
        workspace := e.workspace ++ [cursor], renderings := e.renderings ++ [none] } = .ok u e2) ∨
      ∃ c s, e.candidate = some c ∧ redraw c.stackIndex (e.withStore s) = .ok u e2 ∧
        (c.joint ≠ .value ∧ Spliced e.store c.stack cursor c.above s ∨
          ∃ first b i comp, (e.forest.store.blocksOf cursor).head? = some first ∧
            (e.forest.store.definitionOf first).blockType = .reporter ∧
            b.index < e.forest.store.blocks.size ∧
            (e.forest.store.definitionOf b).inputs[i]? = some comp ∧
            comp.kind.fits (e.forest.store.definitionOf first).outputType = true ∧
            s = (e.store.copyBlock first).2.setValue b i (.block (e.store.copyBlock first).1)) := by
  refine (letGo_cases h).imp_right fun ⟨c, s, hc, hr, haa⟩ => ⟨c, s, hc, hr, ?_⟩
  have hai := (ha c hc).2
  cases haa with
  | ends hj hk hs' =>
    cases hai with
    | slot hv => exact absurd hv hj
    | ends _ _ _ _ he =>
      -- only an empty body is joined without naming a block
      refine .inl ⟨hj, ?_⟩
      rcases hk with rfl | ⟨hn, rfl⟩
      · exact hs'
      · have hab : c.above = (e.store.blocksOf c.stack).length := by
          rw [← blocksOf_forest, he hn, Candidate.above, hn]
          cases c.joint <;> rfl
        exact hab ▸ hs'
  | slot hj hb hi hro =>
    cases hai with
    | ends hne => exact absurd hj hne
    | @slot w first' b' i' comp _ hw hfirst hreporter hb' hi' hlt hcomp hfits =>
      cases hcu.symm.trans hw
      cases hb.symm.trans hb'
      cases hi.symm.trans hi'
      have hf' := hfirst
      rw [blocksOf_forest, hro] at hf'
      cases hf'
      exact .inr ⟨_, _, _, comp, hfirst, hreporter, hlt, hcomp, hfits, rfl⟩

theorem dropCursor_eq_ok (hs : e.core.Steady) (ha : e.Aiming) (hcu : e.cursor = some cursor)
    (h : dropCursor cursor e = .ok u e2) :
    Moves saved e e2.released ∨
      e.CrownsBody ∧ e2.released.core.Steady ∧ Crown e.forest e2.released.forest := by
  rcases dropCursor_cases ha hcu h with ⟨p, hr⟩ | ⟨c, s, hc, hr, he | hsl⟩
  · exact .inl (drop_nowhere hcu hr)
  · exact drop_ends hs hc (ha c hc).2 he.1 hcu he.2.bare hr
  · obtain ⟨first, b, i, comp, hfirst, hreporter, hlt, hcomp, hfits, rfl⟩ := hsl
    exact .inl (drop_slot hfirst hreporter hlt hcomp hfits hr)

/-- A mouse button goes up: it is passed over, the camera or the dragged stack is let go, or the
dragged stack is let go over the workspace. -/
theorem handleUp_cases (h : handleUp button e = .ok u e') : ∃ e1, drawPalette e = .ok () e1 ∧
      (e' = { e1 with excuseUp := false } ∨ e' = { e1 with panning := false } ∨ e' = e1 ∨
        e' = e1.released ∨
        ∃ cursor e2, (button = 1 ∧ e1.excuseUp = false ∧ e1.mouseInWorkspace = true) ∧
          e1.cursor = some cursor ∧ dropCursor cursor e1 = .ok () e2 ∧ e' = e2.released) := by
  unfold handleUp at h
  obtain ⟨_, e1, h1, h⟩ := bind_eq_ok.1 h
  refine ⟨e1, h1, ?_⟩
  rw [get_bind] at h
  split at h
  case isTrue => exact .inl (set_eq_ok.1 h).symm
  case isFalse hup =>
  by_cases hbu : button = 2
  · rw [if_pos hbu, modify_bind, if_neg (by omega)] at h
    exact .inr (.inl (pure_eq_ok.1 h).2.symm)
  rw [if_neg hbu] at h
  split at h
  case isFalse => exact .inr (.inr (.inl (pure_eq_ok.1 h).2.symm))
  case isTrue ho =>
  rcases hc : e1.cursor with _ | cursor <;> simp only [hc] at h
  · exact .inr (.inr (.inl (pure_eq_ok.1 h).2.symm))
  · split at h
    case isFalse => exact .inr (.inr (.inr (.inl (modify_eq_ok.1 h).symm)))
    case isTrue hin =>
      obtain ⟨_, e2, h2, h⟩ := bind_eq_ok.1 h
      exact .inr (.inr (.inr (.inr ⟨cursor, e2, ⟨ho, by simpa using hup, hin⟩, rfl, h2,
        (modify_eq_ok.1 h).symm⟩)))

theorem Editor.Aiming.offers (h : e.Aiming) (ho : Offers e e') : e'.Aiming := by
  have hF := ho.forest_eq
  have hw : e'.workspace = e.workspace := congrArg Forest.workspace hF
  have hca : e'.candidate = e.candidate := (congrArg candidate ho.1 :)
  intro c hc
  rw [hF, hw]
  exact h c (hca ▸ hc)

theorem handleUp_eq_ok (hs : e.core.Steady) (ha : e.Aiming) (h : handleUp button e = .ok u e') :
    Moves saved e e' ∨
      (button = 1 ∧ e.excuseUp = false ∧ e.mouseInWorkspace = true ∧ e.CrownsBody) ∧
        e'.core.Steady ∧ Crown e.forest e'.forest := by
  obtain ⟨e1, hp, hcs⟩ := handleUp_cases h
  have ho := offers_drawPalette.ok hp
  have hmo : Moves saved e e1 := ho.moves
  have hst : Moves saved e1 e' → Moves saved e e' := hmo.trans
  rcases hcs with rfl | rfl | rfl | rfl | ⟨cursor, e2, ⟨hon, hup, hin⟩, hcu, hd, rfl⟩
  · exact .inl (hst (.of_core rfl))
  · exact .inl (hst (.of_core rfl))
  · exact .inl hmo
  · refine .inl (hst (moves_forest (F := ⟨e1.forest.store, e1.workspace, none⟩) rfl
      (fun _ => .single .discard) (fun hs => hs.pictured) fun hs m hm => ?_))
    exact (hs.menu m hm).mono le_rfl le_rfl (by simp) rfl
  · have hF := ho.forest_eq
    have hw : e1.workspace = e.workspace := congrArg Forest.workspace hF
    have hca : e1.candidate = e.candidate := (congrArg candidate ho.1 :)
    obtain (hdr : Moves saved e1 e2.released) | ⟨hcr, hse, hco⟩ :=
      dropCursor_eq_ok (hmo hs).1 (ha.offers ho) hcu hd
    · exact .inl (hst hdr)
    · have he : e1.excuseUp = e.excuseUp := (congrArg excuseUp ho.1 :)
      have hmu : e1.mouseInWorkspace = e.mouseInWorkspace :=
        (congrArg mouseInWorkspace ho.1 :)
      refine .inr ⟨⟨hon, he ▸ hup, hmu ▸ hin, ?_⟩, hse, hF ▸ hco⟩
      obtain ⟨c, w, hc, hj, hou, hcu, hh⟩ := hcr
      have hc1 : e1.cursor = e.cursor := congrArg Forest.cursor hF
      exact ⟨c, w, hca ▸ hc, hj, hw ▸ hou, hc1 ▸ hcu, hF ▸ hh⟩

end BlockStudio
