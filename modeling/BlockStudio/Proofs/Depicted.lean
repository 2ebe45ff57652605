import BlockStudio.Proofs.Likeness

/-!
# Renderings that match the workspace

The editor remembers where each stack of the workspace is in the window, and clicks go by that.
`Editor.Depicted` says that the renderings are right for a camera: they are what drawing the stacks
under that camera gives.  Drawing all stacks makes them right for the present camera, and so does
scaling them if they were right for some camera before.  A glance at the editor leaves them right for
the camera that they were right for.
-/

namespace BlockStudio

open Editor Store

variable {e e' : Editor} {camera : Camera} {t : StackId} {r : Rendering} {u : Unit} {i : Int}

/-! ## Places in the window -/

/-- Where a stack is in the window depends on its place, the camera and the window. -/
theorem rendering_congr (hc : e'.camera = e.camera) (hw : e'.width = e.width)
    (hh : e'.height = e.height)
    (hp : (e'.store.stack t).position = (e.store.stack t).position) (full : Size) :
    e'.rendering t full = e.rendering t full := by
  have hpl : (e'.store.stack t).place = (e.store.stack t).place := by
    rw [Stack.place, hp, Stack.place]
  have hv : ∀ p, e'.toView p = e.toView p := by
    intro p
    rw [toView, hc, hw, hh, toView]
  unfold rendering
  rw [hc, hpl]
  simp only [hv]

theorem rendering_of_unseen (h : e'.unseen = e.unseen) (t : StackId) (full : Size) :
    e'.rendering t full = e.rendering t full := by
  have hst : e'.store.undrawn = e.store.undrawn := (congrArg store h :)
  have hs : e'.store.allStacks = e.store.allStacks := (congrArg allStacks hst :)
  have hp : (e'.store.stack t).position = (e.store.stack t).position := by
    rw [stack, hs, stack]
  exact rendering_congr (congrArg camera h :) (congrArg width h :)
    (congrArg height h :) hp full

theorem bare_of_unseen (h : e'.unseen = e.unseen) : e'.store.bare = e.store.bare := by
  have hs : e'.store.undrawn = e.store.undrawn := (congrArg store h :)
  rw [← bare_undrawn, hs, bare_undrawn]

theorem full_rendering {full : Size} (h : e.rendering t full = .ok r) : r.full = full := by
  unfold rendering at h
  obtain ⟨zoom, -, h⟩ := except_bind_eq_ok.1 h
  obtain ⟨size, -, h⟩ := except_bind_eq_ok.1 h
  obtain ⟨place, -, h⟩ := except_bind_eq_ok.1 h
  obtain ⟨p, -, h⟩ := except_bind_eq_ok.1 h
  cases h
  rfl

/-- Drawing a stack gives its place in the window for the size of what it shows. -/
theorem render_eq_ok {e1 e2 : Editor} (hs : e.store.bare.Sound) (hu : e1.unseen = e.unseen)
    (h : Edit.render t e1 = .ok r e2) {tree : Tree} (ht : e.store.bare.Shows tree (.stack t)) :
    tree.Bodied ∧ e.rendering t tree.measure = .ok r := by
  obtain ⟨full, e3, hsk, h⟩ := bind_eq_ok.1 h
  rw [get_bind] at h
  obtain ⟨hr, -⟩ := ofExcept_eq_ok.1 h
  have hu3 : e3.unseen = e.unseen :=
    ((depicts_stack t).pictures.displays.ok hsk : e3.unseen = e1.unseen).trans hu
  have hg : e.store.bare.Grown e1.store :=
    grown_of_bare_eq (by rw [bare_bare, bare_of_unseen hu])
  obtain ⟨c, hst, -⟩ := sketch_eq_ok.1 hsk
  obtain ⟨hk, hf⟩ := hs.known_fitted ht
  obtain ⟨rfl, hb⟩ := measure_of_sketch_stack hg hst hk hf ht
  exact ⟨hb, (rendering_of_unseen hu3 t _).symm.trans hr⟩

/-! ## Finding the places of all stacks -/

section Refresh

variable {again : Nat → StackId → Edit Rendering}

theorem renderings_of_bare (h : e'.bare = e.bare) : e'.renderings = e.renderings :=
  (congrArg renderings h :)

theorem unseen_of_bare (h : e'.bare = e.bare) : e'.unseen = e.unseen := by rw [unseen, h, unseen]

theorem setRendering_eq_ok {k : Nat} (h : Edit.setRendering k r e = .ok u e') :
    k < e.renderings.length ∧ e' = { e with renderings := e.renderings.set k (some r) } := by
  unfold Edit.setRendering at h
  rw [get_bind] at h
  split at h
  case isTrue hk => exact ⟨hk, (modify_eq_ok.1 h).symm⟩
  case isFalse => exact absurd h throw_ne_ok

/-- Going along stacks with numbers from `n` on: each is found once, and stacks with other numbers are
left alone. -/
theorem refresh_eq_ok (hp : ∀ i stack, Pictures (again i stack)) {ts : List StackId} {n : Nat}
    {u : PUnit}
    (h : (forIn (ts.zipIdx n) PUnit.unit fun p _ => do
      Edit.setRendering p.2 (← again p.2 p.1)
      return ForInStep.yield PUnit.unit : Edit PUnit) e = .ok u e') :
    (∀ k < n, e'.renderings[k]? = e.renderings[k]?) ∧
      ∀ k t, ts[k]? = some t → ∃ r e1 e2, again (n + k) t e1 = .ok r e2 ∧
        e1.unseen = e.unseen ∧ e1.renderings[n + k]? = e.renderings[n + k]? ∧
        e'.renderings[n + k]? = some (some r) := by
  induction ts generalizing n e with
  | nil =>
    obtain ⟨-, rfl⟩ := pure_eq_ok.1 h
    exact ⟨fun _ _ => rfl, fun k t hk => by simp at hk⟩
  | cons t ts ih =>
    rw [List.zipIdx_cons, List.forIn_cons] at h
    obtain ⟨step, e2, hs, h⟩ := bind_eq_ok.1 h
    obtain ⟨r, e1, ha, hs⟩ := bind_eq_ok.1 hs
    obtain ⟨_, e2, hse, hs⟩ := bind_eq_ok.1 hs
    obtain ⟨rfl, rfl⟩ := pure_eq_ok.1 hs
    obtain ⟨hn, rfl⟩ := setRendering_eq_ok hse
    have hba : e1.bare = e.bare := (hp n t).ok ha
    have hr := renderings_of_bare hba
    have hu := unseen_of_bare hba
    obtain ⟨hb, hab⟩ := ih h
    have ho : ∀ k, k ≠ n → (e1.renderings.set n (some r))[k]? = e.renderings[k]? := by
      intro k hk
      rw [List.getElem?_set_ne hk.symm, hr]
    refine ⟨fun k hk => (hb k (by omega)).trans (ho k (by omega)), fun k t' hk => ?_⟩
    cases k with
    | zero =>
      cases hk
      refine ⟨r, e, e1, ha, rfl, rfl, ?_⟩
      rw [Nat.add_zero, hb n (Nat.lt_succ_self n), List.getElem?_set_self hn]
    | succ k =>
      obtain ⟨r', e3, e4, ha', hu', hsa, hs'⟩ := hab k t' hk
      rw [show n + (k + 1) = n + 1 + k by omega]
      exact ⟨r', e3, e4, ha', hu'.trans hu, hsa.trans (ho _ (by omega)), hs'⟩

theorem refreshAll_eq_ok (hp : ∀ i stack, Pictures (again i stack))
    (h : Edit.refreshAll again i e = .ok u e') (hi : i < e.workspace.length) {k : Nat}
    (hk : e.workspace[k]? = some t) :
    ∃ r e1 e2, again k t e1 = .ok r e2 ∧ e1.unseen = e.unseen ∧
      e1.renderings[k]? = e.renderings[k]? ∧ e'.renderings[k]? = some (some r) := by
  unfold Edit.refreshAll at h
  rw [get_bind, if_pos hi] at h
  obtain ⟨_, e1, hl, h⟩ := bind_eq_ok.1 h
  obtain ⟨-, rfl⟩ := pure_eq_ok.1 h
  have hf := (refresh_eq_ok hp hl).2 k t hk
  rwa [Nat.zero_add] at hf

end Refresh

/-! ## Right renderings -/

/-- The editor with another camera. -/
def Editor.withCamera (e : Editor) (camera : Camera) : Editor := { e with camera }

/-- The renderings are what drawing the stacks of the workspace under a camera gives, as far as the
stacks show trees. -/
def Editor.Depicted (e : Editor) (camera : Camera) : Prop :=
  ∀ (i : Nat) t tree, e.workspace[i]? = some t → e.store.bare.Shows tree (.stack t) →
    tree.Bodied ∧ ∃ r, e.renderings[i]? = some (some r) ∧
      (e.withCamera camera).rendering t tree.measure = .ok r

theorem depicted_of_nil (h : e.workspace = []) (camera : Camera) : e.Depicted camera := by
  intro i t tree hi
  simp [h] at hi

/-- Drawing all stacks makes the renderings right. -/
theorem depicted_redraw (hs : e'.store.bare.Sound) (h : Edit.redraw i e = .ok u e')
    (hi : i < e.workspace.length) : e'.Depicted e'.camera := by
  have hu : e'.unseen = e.unseen := (displays_redraw i).ok h
  have hw : e'.workspace = e.workspace := (congrArg workspace hu :)
  intro k t tree hk ht
  rw [hw] at hk
  obtain ⟨r, e1, e2, hre, hu1, -, hse⟩ :=
    refreshAll_eq_ok (fun _ => pictures_render) h hi hk
  obtain ⟨hb, hr⟩ := render_eq_ok hs (hu1.trans hu.symm) hre ht
  exact ⟨hb, r, hse, hr⟩

/-- Scaling all stacks makes the renderings right if they were right for some camera. -/
theorem Editor.Depicted.rescaleAll (hd : e.Depicted camera) (h : Edit.rescaleAll i e = .ok u e')
    (hi : i < e.workspace.length) : e'.Depicted e'.camera := by
  have hu : e'.unseen = e.unseen := (displays_rescaleAll i).ok h
  have hw : e'.workspace = e.workspace := (congrArg workspace hu :)
  intro k t tree hk ht
  rw [hw] at hk
  rw [bare_of_unseen hu] at ht
  obtain ⟨hb, r0, hr0, hre⟩ := hd k t tree hk ht
  obtain ⟨r, e1, e2, hr, hu1, hs, hse⟩ := refreshAll_eq_ok keeps_rescale h hi hk
  refine ⟨hb, r, hse, ?_⟩
  unfold Edit.rescale at hr
  rw [get_bind] at hr
  simp only [hs, hr0] at hr
  rw [get_bind, full_rendering hre] at hr
  exact (rendering_of_unseen (hu.trans hu1.symm) t _).trans (ofExcept_eq_ok.1 hr).1

/-- A glance leaves the renderings right for the camera that they were right for. -/
theorem Editor.Depicted.glances (hd : e.Depicted camera) (hs : e.forest.Sound) (h : Glances e e') :
    e'.Depicted camera := by
  intro i t tree hi htr
  rw [h.workspace_eq] at hi
  have ht := List.mem_of_getElem? hi
  have hlt : t.index < e.store.bare.allStacks.size :=
    hs.root_lt t (Forest.workspace_subset_roots ht)
  have hrc : e.store.bare.Recalls e'.store.bare :=
    ((grown_of_bare_eq (by simp)).recalls.trans h.recalls).trans
      (grown_of_bare_eq (by simp)).recalls
  obtain ⟨tree0, ht0, ha⟩ := hrc.exists_tree hs.store
    (position_bare e.store) (v := .stack t) hlt htr
  obtain ⟨hb0, r, hr, hre⟩ := hd i t tree0 hi ht0
  obtain ⟨hb, ha⟩ := ha hb0
  refine ⟨hb, r, by rw [h.renderings_eq, hr], ?_⟩
  rw [size_allStacks_bare] at hlt
  have hc : (e'.withCamera camera).camera = (e.withCamera camera).camera := rfl
  rw [ha.measure_eq, ← hre]
  exact rendering_congr hc h.width_eq h.height_eq (h.position_eq t ht hlt) _

end BlockStudio
