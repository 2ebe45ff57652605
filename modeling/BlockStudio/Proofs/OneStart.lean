import BlockStudio.Proofs.Pruning
import BlockStudio.Proofs.Runner

/-!
# One start

The keys that run a program run the first stack of the workspace that begins with a start, so there should
be at most one.  The palette does not offer a start while a stack begins with one.  But the palette is
drawn before the dragged stack is laid down and not again after it, so it goes on offering the start that
was just taken out, and a second one can be laid beside the first.

Letting go of a stack that begins with a start over a workspace with such a stack is the only way to a
second one: no other event and no update adds a start to the workspace, and an opened file brings in what
was saved.

The block that starts a program is the only hat, so `Forest.Single` looks at the types of blocks only.
-/

namespace BlockStudio

open Forest List Editor

variable {e e' : Editor} {u : Unit} {t : StackId}

namespace Forest

variable {F F' : Forest} {t : StackId}

/-- At most one stack of the workspace begins with a hat. -/
def Single (F : Forest) : Prop :=
  (F.workspace.map F.store.types).Pairwise fun a b => ¬(a.head? = some .hat ∧ b.head? = some .hat)

theorem head?_types (s : Store) (t : StackId) :
    (s.types t).head? = (s.blocksOf t).head?.map fun b => (s.definitionOf b).blockType :=
  head?_map

theorem Sheds.head?_types (h : F.Sheds F') (hF : F.Sound) (ht : t ∈ F'.workspace) :
    (F'.store.types t).head? = (F.store.types t).head? := by
  have hlt := hF.root_lt t (workspace_subset_roots (h.workspace.subset ht))
  rw [Forest.head?_types, Forest.head?_types, h.head_eq t (workspace_subset_roots ht) hlt]
  rcases hh : (F.store.blocksOf t).head? with _ | b
  · rfl
  · have hb := hF.store.mem_blocksOf (mem_of_head? hh)
    rw [Option.map_some, Option.map_some, h.definition_eq b hb]

theorem Single.sheds (h : F.Single) (hF : F.Sound) (hs : F.Sheds F') : F'.Single := by
  have hsu := (pairwise_map.1 h).sublist hs.workspace
  refine pairwise_map.2 (hsu.imp_of_mem fun {t u} ht hu hn hb => hn ?_)
  rwa [hs.head?_types hF ht, hs.head?_types hF hu] at hb

/-- The dragged stack is laid down. -/
theorem Single.lay (h : F.Single)
    (ht : (F.store.types t).head? = some .hat → ∀ u ∈ F.workspace, (F.store.types u).head? ≠ some .hat) :
    Single ⟨F.store, F.workspace ++ [t], none⟩ := by
  unfold Single
  rw [map_append, pairwise_append]
  refine ⟨h, pairwise_singleton .., fun a ha b hb hbo => ?_⟩
  obtain ⟨v, hv, rfl⟩ := mem_map.1 ha
  obtain rfl : b = F.store.types t := mem_singleton.1 hb
  exact ht hbo.2 v hv hbo.1

theorem head?_insert {α : Type} (l l' : List α) (k : Nat) :
    (l.take k ++ l' ++ l.drop k).head? = l.head? ∨ (l.take k ++ l' ++ l.drop k).head? = l'.head? := by
  cases k <;> cases l <;> cases l' <;> simp

/-- With a row spliced in, a stack begins as before, or it shows the row that was changed and begins like
the dragged stack. -/
theorem head?_types_spliced (s : Store) (t u v : StackId) (k : Nat) :
    ((spliced s t u k).types v).head? = (s.types v).head? ∨
      (s.stack v).row = (s.stack t).row ∧ ((spliced s t u k).types v).head? = (s.types u).head? := by
  have hr : (spliced s t u k).blocksOf v = _ := Store.row_editRow s t _ (s.stack v).row
  rw [head?_types, head?_types, head?_types, hr]
  split
  case isTrue h =>
    rcases head?_insert (s.row (s.stack v).row) (s.blocksOf u) k with hh | hh
    · rw [hh]
      exact .inl rfl
    · rw [hh]
      exact .inr ⟨h.1, rfl⟩
  case isFalse => exact .inl rfl

/-- The dragged row is spliced into a stack. -/
theorem Single.splice (h : F.Single) (hF : F.Sound) {c : StackId} {k : Nat}
    (ht : (F.store.types t).head? = some .hat → ∀ u ∈ F.workspace, (F.store.types u).head? ≠ some .hat) :
    Single ⟨spliced F.store c t k, F.workspace, none⟩ := by
  have hp := (pairwise_map.1 h).and hF.nodup_workspace
  refine pairwise_map.2 (hp.imp_of_mem ?_)
  rintro v w hv hw ⟨hn, hne⟩ ⟨hv', hw'⟩
  rcases head?_types_spliced F.store c t v k with hs | ⟨hr, hl⟩ <;>
    rcases head?_types_spliced F.store c t w k with hs' | ⟨hr', hl'⟩
  · exact hn ⟨hs.symm.trans hv', hs'.symm.trans hw'⟩
  · exact ht (hl'.symm.trans hw') v hv (hs.symm.trans hv')
  · exact ht (hl.symm.trans hv') w hw (hs'.symm.trans hw')
  -- both show the changed row, so they are the same stack
  · have hlt := fun x hx => hF.root_lt x (workspace_subset_roots hx)
    exact hne (hF.store.row_inj v w (hlt v hv) (hlt w hw) (hr.trans hr'.symm))

end Forest

/-! ## Starts and hats -/

theorem Catalogue.start_iff_hat : ∀ d ∈ Catalogue.blocks, d.id = "start" ↔ d.blockType = .hat := by
  decide +kernel

theorem startsProgram_iff (hF : e.forest.Sound) :
    e.startsProgram t = true ↔ (e.forest.store.types t).head? = some .hat := by
  rw [head?_types, blocksOf_forest, startsProgram]
  rcases hr : e.store.blocksOf t with _ | ⟨b, rest⟩
  · simp
  · have hb : b ∈ e.forest.store.blocksOf t := by
      rw [blocksOf_forest, hr]
      exact mem_cons_self
    have hk := hF.store.known b (hF.store.mem_blocksOf hb)
    rw [definitionOf_forest] at hk
    simp [definitionOf_forest, Catalogue.start_iff_hat _ hk]

/-- The dragged stack begins with a start, and an event lets it go over a workspace in which a stack
begins with one. -/
def Editor.dropsSecondStart (e : Editor) (ev : Event) : Bool :=
  (match ev with
    | .up button => button == 1
    | _ => false) &&
    e.dialog.isNone && !e.excuseUp && e.mouseInWorkspace && e.cursor.any e.startsProgram &&
    e.workspace.any e.startsProgram

/-- No second start is let go over the workspace. -/
def Editor.SparesStart (e : Editor) (ev : Event) : Prop := e.dropsSecondStart ev = false

/-- Where a start is let go in such a run, no stack of the workspace begins with one. -/
theorem Editor.SparesStart.forall_ne (h : e.SparesStart (.up 1)) (hF : e.forest.Sound)
    (hd : e.dialog = none) (he : e.excuseUp = false) (hi : e.mouseInWorkspace = true)
    (hc : e.cursor = some t) (ht : (e.forest.store.types t).head? = some .hat) :
    ∀ v ∈ e.forest.workspace, (e.forest.store.types v).head? ≠ some .hat := by
  intro v hv hh
  have hdr : e.dropsSecondStart (.up 1) = true := by
    have ha : e.workspace.any e.startsProgram = true :=
      any_eq_true.2 ⟨v, hv, (startsProgram_iff hF).2 hh⟩
    simp [dropsSecondStart, hd, he, hi, hc, (startsProgram_iff hF).2 ht, ha]
  cases h.symm.trans hdr

/-! ## Letting go -/

theorem single_letsGo {ev : Event} (hr : e.core.Rooted) (hF : e.forest.Sound) (h : e.forest.Single)
    (hsp : e.SparesStart ev) (hgo : LetsGo e ev e') : e'.forest.Single := by
  obtain @⟨t, e1, e2, hdi, he, hi, ho, hc, hdo⟩ := hgo
  have hf := ho.forest_eq
  have hc' : e.cursor = some t := (congrArg Forest.cursor hf).symm.trans hc
  have ht := hsp.forall_ne hF hdi he hi hc'
  rw [← hf] at hF h ht
  have hre : ∀ {i : Int} {e0 : Editor}, Edit.redraw i e0 = .ok () e2 →
      e2.released.forest = ⟨e0.store.bare, e0.workspace, none⟩ := fun hd =>
    congrArg Core.forest (core_released ((repaints_redraw _).ok hd))
  rcases letGo_cases hdo with ⟨p, hd⟩ | ⟨c, s, -, hd, ha⟩
  · rw [hre hd]
    have hl := h.lay ht
    rwa [show e1.forest.store = (e1.store.setPosition t p.asPosition).bare from
      (Store.bare_setPosition ..).symm] at hl
  · cases ha with
    | @ends k _ _ _ hs =>
      have hj := h.splice hF (c := c.stack) (k := k) ht
      rw [show e1.forest.store = e1.store.bare from rfl, ← hs.bare] at hj
      rw [hre hd]
      exact hj
    | @slot first b _ i =>
      have hp : Secures e1 _ := .plug first b i
      have hdr := Secures.trans hp (.trans ((secures_redraw _).ok hd) (.released e2))
      have hr1 := (ho.secures hr).1
      exact h.sheds hF (hdr hr1).2.1

/-! ## Opening files -/

/-- The types of the blocks of all stacks of the workspace. -/
def Editor.kinds (e : Editor) : List (List BlockType) := e.workspace.map e.forest.store.types

theorem kinds_grown (hF : e.forest.Sound) {s : Store} (h : Store.Grown e.store.bare s.bare) :
    e.workspace.map s.bare.types = e.kinds := by
  refine map_congr_left fun t ht => ?_
  exact h.types_eq hF.store (hF.root_lt t (workspace_subset_roots ht))

section Load

variable {e0 : Editor} {n : Nat}

/-- A saved stack comes into the workspace with blocks of the same types, unless it cannot be read. -/
theorem kinds_takeStack (hs : e.core.Steady) (hs0 : e0.core.Steady) {r : StackId} (hr : r ∈ e0.workspace)
    {json : Json} (hj : e0.store.IsSaved n (.stack r) json) (i : Nat) :
    ∃ rows, rows.Sublist [e0.forest.store.types r] ∧
      (endState (Edit.takeStack json i e)).kinds = e.kinds ++ rows := by
  cases retakes_steady hs0 hr hj hs i with
  | part hsp _ _ hru =>
    rw [hru]
    exact ⟨[], nil_sublist _, (kinds_grown hs.forest hsp.grown).trans (append_nil _).symm⟩
  | @whole t s hsp _ _ ht _ _ hru =>
    rw [hru]
    refine ⟨_, .refl _, ?_⟩
    have hd := ((repaints_redraw i).run (e.withStack s t)).forest_eq
    refine (congrArg (fun F : Forest => F.workspace.map F.store.types) hd).trans ?_
    show (e.workspace ++ [t]).map s.bare.types = _
    rw [map_append, kinds_grown hs.forest hsp.grown, map_singleton, ht]
    rfl

theorem kinds_takeStacks (hs0 : e0.core.Steady) {rs : List StackId} {jsons : List Json}
    (h : List.Forall₂ (fun r => e0.store.IsSaved n (.stack r)) rs jsons)
    (hrs : ∀ r ∈ rs, r ∈ e0.workspace) (hs : e.core.Steady) (i : Nat) :
    ∃ rows, rows.Sublist (rs.map e0.forest.store.types) ∧
      (endState (Edit.takeStacks i jsons e)).kinds = e.kinds ++ rows := by
  induction h generalizing e i with
  | nil => exact ⟨[], .refl _, (append_nil _).symm⟩
  | @cons r json rs jsons hj _ ih =>
    obtain ⟨hr, hrs⟩ := forall_mem_cons.1 hrs
    obtain ⟨first, hf, hk⟩ := kinds_takeStack hs hs0 hr hj i
    have hm : Moves (fun _ => True) e _ := (moves_takeStack trivial hs0 hr hj i).run e
    unfold Edit.takeStacks
    rw [bind_run]
    cases hru : Edit.takeStack json i e with
    | error f e1 =>
      rw [hru] at hk
      exact ⟨first, hf.trans (sublist_append_left [_] _), hk⟩
    | ok _ e1 =>
      rw [hru] at hk hm
      obtain ⟨rest, hre, hk'⟩ := ih hrs (hm hs).1 (i + 1)
      refine ⟨first ++ rest, hf.append hre, ?_⟩
      rw [← append_assoc, ← hk]
      exact hk'

/-- An opened file brings at most one stack that begins with a hat, if it was saved so. -/
theorem single_loadProject (path : String) (hs : e.core.Steady) (h : e.forest.Single)
    (hf : ∀ text, e.scene.folder.readPacked path = .ok text → Saves Single text) :
    (endState (Edit.loadProject path e)).forest.Single := by
  cases hte : e.scene.folder.readPacked path with
  | error f =>
    rw [loadProject_unreadable (projectIn_error hte)]
    exact h
  | ok text =>
    obtain ⟨e0, hs0, hsi, hw⟩ := hf text hte
    obtain ⟨jsons, hst, hru⟩ := loadProject_saved hs0 hw hte
    have hc : Moves (fun _ => True) e e.cleared := .clear
    obtain ⟨rows, hr, hk⟩ := kinds_takeStacks hs0 hst (fun _ => id) (hc hs).1 0
    have ht : (endState (Edit.takeStacks 0 jsons e.cleared)).forest.Single := by
      show List.Pairwise _ (endState (Edit.takeStacks 0 jsons e.cleared)).kinds
      rw [hk]
      exact hsi.sublist hr
    rw [hru, bind_run]
    cases hta : Edit.takeStacks 0 jsons e.cleared <;> rw [hta] at ht <;> exact ht

end Load

/-! ## Runs -/

/-- Every run that spares the start, and opens projects of such runs. -/
theorem Reachable.single {files : String → Prop} {phase : Phase}
    (h : Reachable files SparesStart phase e)
    (hf : ∀ text, files text → Saves (fun F => F.Filled ∧ F.Single) text) : e.forest.Single := by
  have hsa : ∀ text, files text → Saves Filled text := fun text ht =>
    (hf text ht).imp fun _ ⟨hs, hsv, hw⟩ => ⟨hs, hsv.1, hw⟩
  induction h with
  | start hru =>
    rw [(offers_setUp.ok hru).forest_eq]
    exact List.Pairwise.nil
  | devices d _ ih => exact ih
  | @handle e e' ev u hre hsp hfi hru ih =>
    have hs := (hre.steady hsa).1
    have hr := hs.rooted (hre.filled hsa)
    rcases handle_secures hru with hse | hgo | ⟨path, hpa, ho⟩
    · exact ih.sheds hs.forest (hse hr).2.1
    · exact single_letsGo hr hs.forest ih hsp hgo
    · have hl := single_loadProject path (e := e.dismissed) hs ih
        fun text ht => (hf text (hfi path text hpa ht)).imp
          fun _ ⟨hs, hsv, hw⟩ => ⟨hs, hsv.2, hw⟩
      rcases ho with hlo | ⟨f, e1, hlo, hp⟩ <;> rw [hlo] at hl
      · exact hl
      · rwa [hp.part Editor.forest fun _ _ => rfl]
  | update hre hru ih =>
    have hs := (hre.steady hsa).1
    have hse := (secures_update _).ok hru (hs.rooted (hre.filled hsa))
    exact ih.sheds hs.forest hse.2.1

theorem Written.savesSingle {text : String} (h : Written SparesStart text) :
    Saves (fun F => F.Filled ∧ F.Single) text := by
  refine h.closed fun _ e _ he ht => ⟨e, (he.steady fun _ => id).1, ⟨?_, he.single fun _ => id⟩, ht⟩
  exact he.filled fun _ ⟨e0, hs, hsa, hw⟩ => ⟨e0, hs, hsa.1, hw⟩

/-- In every run in which no stack that begins with a start is let go over a workspace with such a stack,
at most one stack of the workspace begins with a start. -/
theorem at_most_one_start {phase : Phase}
    (h : Reachable (Written Editor.SparesStart) Editor.SparesStart phase e) :
    ∃ starts, e.startStacks = .ok starts ∧ starts.length ≤ 1 := by
  have hs := (h.steady fun _ => Written.saves).1
  obtain ⟨starts, hstarts⟩ := exists_startStacks (h.filled fun _ => Written.savesFilled)
  refine ⟨starts, hstarts, ?_⟩
  have hsingle := (pairwise_map.1 (h.single fun _ => Written.savesSingle)).filter e.startsProgram
  rw [startStacks_eq_ok hstarts]
  rcases hfound : e.workspace.filter e.startsProgram with _ | ⟨t, _ | ⟨v, rest⟩⟩
  · exact Nat.zero_le 1
  · exact le_rfl
  · have hhat : ∀ w ∈ t :: v :: rest, (e.forest.store.types w).head? = some .hat := fun w hw =>
      (startsProgram_iff hs.forest).1 (mem_filter.1 (hfound ▸ hw)).2
    have hfound' : e.forest.workspace.filter e.startsProgram = t :: v :: rest := hfound
    rw [hfound'] at hsingle
    exact absurd ⟨hhat t (by simp), hhat v (by simp)⟩ ((pairwise_cons.1 hsingle).1 v (by simp))

/-- A second start is taken from the palette, but let go over the palette again. -/
theorem at_most_one_start_of_second_thought :
    ∃ e, Reachable (Written Editor.SparesStart) Editor.SparesStart .waiting e ∧
      e.workspace.any e.startsProgram = true ∧
      ∃ starts, e.startStacks = .ok starts ∧ starts.length ≤ 1 := by
  have hcheck : ∀ (e : Editor) ev, (!e.dropsSecondStart ev && (e.opens ev).isNone) = true →
      e.SparesStart ev ∧ e.opens ev = none := fun e ev hpass => by
    simpa [Editor.SparesStart] using hpass
  obtain ⟨e, h, hany⟩ := exists_reachable_of_play hcheck
    [(⟨⟨80, 60⟩, []⟩, .down 1), (⟨⟨600, 300⟩, []⟩, .up 1), (⟨⟨80, 60⟩, []⟩, .down 1),
      (⟨⟨80, 500⟩, []⟩, .up 1)]
    (fun e => e.workspace.any e.startsProgram) (by decide +kernel)
  exact ⟨e, h, hany, at_most_one_start h⟩

/-- After a start was laid down the palette offers another one, and that can be laid down too. -/
theorem palette_offers_second_start :
    ∃ e, Reachable (Written fun _ _ => True) (fun _ _ => True) .waiting e ∧
      ∃ starts, e.startStacks = .ok starts ∧ starts.length = 2 := by
  have hcheck : ∀ (e : Editor) ev, (e.opens ev).isNone = true → True ∧ e.opens ev = none :=
    fun e ev hpass => ⟨trivial, Option.isNone_iff_eq_none.1 hpass⟩
  obtain ⟨e, h, hstarts⟩ := exists_reachable_of_play hcheck
    [(⟨⟨80, 60⟩, []⟩, .down 1), (⟨⟨600, 300⟩, []⟩, .up 1), (⟨⟨80, 60⟩, []⟩, .down 1),
      (⟨⟨600, 500⟩, []⟩, .up 1)]
    (fun e => match e.startStacks with
      | .ok starts => starts.length == 2
      | .error _ => false) (by decide +kernel)
  refine ⟨e, h, ?_⟩
  cases hfound : e.startStacks with
  | error f => simp [hfound] at hstarts
  | ok starts => exact ⟨starts, rfl, by simpa [hfound] using hstarts⟩

end BlockStudio
