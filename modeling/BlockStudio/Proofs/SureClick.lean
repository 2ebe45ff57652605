import BlockStudio.Proofs.Composed

/-!
# Clicks without fail

A click on the workspace goes to the front most stack that it hits.  It picks something up, opens a
menu, begins to edit a slot, or goes on to the stack in the body of a block.  A body that was never
filled has no stack, and there a click breaks off: `Editor.Hollow` says that a click comes to such a
body.  All other clicks in a calm editor whose stacks were drawn are done, except for faults of
reckoning.
-/

namespace BlockStudio

open Forest Edit Store Editor List

variable {α : Type} {s0 : Store} {e e' : Editor} {β : Type} {b id : BlockId} {i : Nat} {v : Value}
  {c : Component} {t : StackId} {r : Rendering} {spot : Spot} {stackIndex : Int}

/-! ## Steps that are always done -/

section FailsOnly

variable {p : Fault → Prop}

theorem FailsOnly.mapM {ε σ γ : Type} {p : ε → Prop} {g : γ → EStateM ε σ β} {s : σ} (l : List γ)
    (hg : ∀ c ∈ l, ∀ s, FailsOnly p (g c) s) : FailsOnly p (l.mapM g) s := by
  induction l generalizing s with
  | nil => exact .pure _
  | cons c l ih =>
    rw [mapM_cons]
    obtain ⟨hc, hl⟩ := forall_mem_cons.1 hg
    exact (hc s).bind fun _ _ _ => (ih hl).bind fun _ _ _ => .pure _

protected theorem FailsOnly.assign {w : Value} (h : e.store.slot? b i = some w) : FailsOnly p (assign b i v) e :=
  .of_ok (a := ()) (assign_eq_ok.2 ⟨(List.getElem?_eq_some_iff.1 h).1, rfl⟩)

protected theorem FailsOnly.takeOut {items : List α} (h : i < items.length) : FailsOnly p (takeOut items i) e :=
  .of_ok (takeOut_eq_ok.2 ⟨h, rfl, rfl⟩)

theorem FailsOnly.slotValue_bind {f : Value → Edit β} (h : e.store.slot? b i = some v)
    (hf : FailsOnly p (f v) e) : FailsOnly p (slotValue b i >>= f) e :=
  .step (slotValue_eq_ok.2 ⟨h, rfl⟩) hf

theorem FailsOnly.slotComponent_bind {f : Component → Edit β}
    (h : (e.store.definitionOf b).inputs[i]? = some c) (hf : FailsOnly p (f c) e) :
    FailsOnly p (slotComponent b i >>= f) e :=
  .step (slotComponent_eq_ok.2 ⟨h, rfl⟩) hf

theorem failsOnly_openMenu (m : Menu) : FailsOnly p (openMenu m) e := by
  unfold openMenu
  refine .step rfl (.step rfl (.bind ?_ fun _ _ _ => .modify _))
  exact .mapM _ fun o _ e => .sketch ((Paints.write (p := fun _ => True) ..).failsOnly trivial)

end FailsOnly

/-- What a drawing of the workspace goes by. -/
def Editor.site (e : Editor) := (e.store, e.workspace, e.renderings, e.eases)

theorem Editor.Ready.congr (h : e.Ready) (hsi : e'.site = e.site) : e'.Ready := by
  simp only [site, Prod.mk.injEq] at hsi
  obtain ⟨hs, hw, hr, he⟩ := hsi
  refine ⟨hs ▸ h.sound, ?_, ?_, hs ▸ h.housed, ?_, h.eased.congr he⟩
  · rw [hs, hw]
    exact h.trees
  · rw [hw, hr]
    exact h.pictured
  · rw [hs, hw]
    exact h.located

/-- What a composed editor became from a calm one is calm. -/
theorem Editor.Composed.calm (h : e'.Composed s0) (hm : Moves NoFile e e') (he : e.Calm) :
    e'.Calm := by
  obtain ⟨hs, hc⟩ := hm he.steady
  exact ⟨hs, he.unshared.changes he.sound hc,
    he.filled.changes he.sound (fun _ => False.elim) hc, h.housed, h.located, h.eased⟩

theorem Editor.Calm.works (h : e.Calm) (hm : Moves NoFile e e') (hw : Works e e') : e'.Calm :=
  Carries.calm ⟨hm, hw.abides⟩ (fun _ => False.elim) h

/-! ## What is hit -/

theorem lt_of_firstHit {rects : List (Rect Num)} {x y : Num} {r : Rect Num}
    (h : firstHit rects x y = some (i, r)) : i < rects.length := by
  obtain ⟨q, hq, heq⟩ := Option.map_eq_some_iff.1 h
  cases heq
  exact (mem_zipIdx' (mem_of_find?_eq_some hq)).1

theorem reaches_row (ht : e.forest.Reaches (.stack t)) (hid : id ∈ e.store.blocksOf t) :
    e.forest.Reaches (.block id) :=
  ht.row ((blocksOf_forest e t).symm ▸ hid)

section Hit

variable (h : e.Calm) (hdrawn : e.Drawn)

include h hdrawn

/-- What is under a point of a block that is reached can be found out, and a slot there belongs to a block
that is reached. -/
theorem exists_atTo (stackIndex : Int) (p : Point) (fuel : Nat) (hid : e.forest.Reaches (.block id))
    (dx dy : Num) : (∃ path, e.store.pathAtTo p fuel id dx dy = .ok path) ∧
    ∃ found, e.store.spotAtTo stackIndex p fuel id dx dy = .ok found ∧
      ∀ spot ∈ found, e.forest.Reaches (.block spot.block) ∧ ∃ v c,
        e.store.slot? spot.block spot.slot = some v ∧
          (e.store.definitionOf spot.block).inputs[spot.slot]? = some c := by
  induction fuel generalizing id dx dy with
  | zero => exact ⟨⟨[], rfl⟩, none, rfl, nofun⟩
  | succ fuel ih =>
    unfold pathAtTo spotAtTo
    rcases hh : firstHit (e.store.block id).slotRects (p.x - dx) (p.y - dy) with _ | ⟨i, r⟩
    · exact ⟨⟨[], rfl⟩, none, rfl, nofun⟩
    · obtain ⟨v, c, hv, hc⟩ := h.exists_slot hdrawn hid (lt_of_firstHit hh)
      have hva : (e.store.block id).values[i]? = some v := hv
      simp only [hva]
      cases v with
      | block inner =>
        obtain ⟨⟨path, hp⟩, hs⟩ := ih (hid.slot ((slot?_forest ..).trans hv)) (dx + r.x)
          (dy + r.y - halfGap)
        exact ⟨⟨i :: path, except_bind_eq_ok.2 ⟨path, hp, rfl⟩⟩, hs⟩
      | _ =>
        refine ⟨⟨[], rfl⟩, _, rfl, fun spot hs => ?_⟩
        cases hs
        exact ⟨hid, _, c, hv, hc⟩

/-- What the mouse hits in a stack that is reached can be found out. -/
theorem sure_hitIn (hr : e.forest.Reaches (.stack r.stack)) (stackIndex : Int) :
    Sure (hitIn r stackIndex) e := by
  have hp := (h.located_of_reached hr).place
  unfold hitIn
  refine .step rfl (.ite (fun _ => .pure _) fun _ => ?_)
  refine .ofExcept_bind (h.eased.toWorld _) fun p _ => ?_
  refine .ofExcept_bind ?_ fun found _ => ?_
  · unfold blockAt
    dsimp only
    split
    · exact Reckons.ok _
    · exact hp.bind fun _ _ => .ok _
  rcases found with _ | i
  · exact .pure _
  dsimp only
  rcases hid : (e.store.blocksOf r.stack)[i]? with _ | id
  · exact .pure _
  dsimp only
  have hre := reaches_row hr (mem_of_getElem? hid)
  refine .ofExcept_bind hp fun place _ => ?_
  obtain ⟨⟨path, hpa⟩, spot, hs, -⟩ := exists_atTo h hdrawn stackIndex p e.store.depth hre
    place.x (place.y + (e.store.block id).rect.y)
  rw [spotAt, hs, pathAt, hpa]
  refine .ofExcept_bind (Reckons.ok _) fun spot _ => ?_
  rcases spot with _ | spot
  · refine .ofExcept_bind (Reckons.ok _) fun path _ => ?_
    rcases path with _ | ⟨slot, path⟩ <;> exact .pure _
  · exact .pure _

/-- A slot that is hit belongs to a block that is reached. -/
theorem reaches_of_hitIn (hr : e.forest.Reaches (.stack r.stack))
    (hh : hitIn r stackIndex e = .ok (some (.spot id spot)) e') :
    e.forest.Reaches (.block spot.block) ∧ ∃ v c, e.store.slot? spot.block spot.slot = some v ∧
      (e.store.definitionOf spot.block).inputs[spot.slot]? = some c := by
  obtain ⟨hid, p, dx, dy, hsp⟩ := within_of_hitIn hh
  obtain ⟨-, found, hf, hs⟩ := exists_atTo h hdrawn stackIndex p e.store.depth
    (reaches_row hr hid) dx dy
  cases hsp.symm.trans hf
  exact hs spot rfl

end Hit

/-- The stack of a body that is reached can be drawn. -/
theorem sure_renderBody (h : e.Calm) (hb : e.forest.Reaches (.block spot.block))
    (hs : e.store.slot? spot.block spot.slot = some (.stack t)) : Sure (renderBody spot) e := by
  unfold renderBody
  refine .slotValue_bind hs ?_
  have ht : e.forest.Reaches (.stack t) := hb.slot ((slot?_forest ..).trans hs)
  obtain ⟨_, hp⟩ := exists_occurs_of_reached ht
  obtain ⟨tree, htr⟩ := h.exists_tree hp
  exact sure_render h.sound.store h.housed h.eased htr (h.located_of_reached ht)

theorem renderBody_after (h : e.Calm) (hdrawn : e.Drawn) (hb : e.forest.Reaches (.block spot.block))
    (hbo : renderBody spot e = .ok r e') :
    e'.Calm ∧ e'.Drawn ∧ e'.forest.Reaches (.stack r.stack) := by
  obtain ⟨hs, hco⟩ := renderBody_eq_ok hbo
  have ha := ((works_renderBody spot).ok hbo).abides
  have hF : e'.forest = e.forest := congrArg Core.forest hco
  have hw : e'.workspace = e.workspace := congrArg Forest.workspace hF
  have hba : e'.store.bare = e.store.bare := congrArg Forest.store hF
  have hc : Carries NoFile e e' := ⟨.of_core hco, ha⟩
  refine ⟨hc.calm (fun _ => False.elim) h,
    hdrawn.recalls h.sound hw (grown_of_bare_eq hba).recalls ha.lasts, ?_⟩
  rw [← hF] at hb
  exact hb.slot hs

/-! ## Bodies without a stack -/

/-- A click on a stack comes to a slot for a body that holds no stack, right away or in the stacks of
other bodies on the way. -/
inductive Editor.Hollow (stackIndex : Int) : Editor → Rendering → Prop where
  | here {e : Editor} {r : Rendering} {id : BlockId} {spot : Spot} {c : Component}
    (hhit : hitIn r stackIndex e = .ok (some (.spot id spot)) e)
    (hcomp : (e.store.definitionOf spot.block).inputs[spot.slot]? = some c)
    (hkind : c.kind = .statement)
    (hslot : e.store.slot? spot.block spot.slot = some .none) : Hollow stackIndex e r
  | inside {e e1 : Editor} {r b : Rendering} {id : BlockId} {spot : Spot} {c : Component}
    (hhit : hitIn r stackIndex e = .ok (some (.spot id spot)) e)
    (hcomp : (e.store.definitionOf spot.block).inputs[spot.slot]? = some c)
    (hkind : c.kind = .statement)
    (hbody : renderBody spot e = .ok b e1) (hb : Hollow stackIndex e1 b) : Hollow stackIndex e r

theorem Editor.Hollow.exists_hit (h : Hollow stackIndex e r) :
    ∃ hit, hitIn r stackIndex e = .ok (some hit) e := by
  cases h with
  | here hh => exact ⟨_, hh⟩
  | inside hh => exact ⟨_, hh⟩

/-- A body that a click comes to holds a stack, unless it is hollow. -/
theorem exists_body (h : e.Calm) {i : Int} (hh : ¬e.Hollow i r)
    (hhi : hitIn r i e = .ok (some (.spot id spot)) e)
    (hc : (e.store.definitionOf spot.block).inputs[spot.slot]? = some c)
    (hk : c.kind = .statement) (hv : e.store.slot? spot.block spot.slot = some v) :
    ∃ t, e.store.slot? spot.block spot.slot = some (.stack t) := by
  rcases h.housed _ _ c v hc hk hv with rfl | ⟨t, rfl, -⟩
  · exact absurd (.here hhi hc hk hv) hh
  · exact ⟨t, hv⟩

/-! ## Picking up -/

theorem sure_removeStack {k : Nat} (hk : k < e.workspace.length)
    (hp : Pictured e.workspace e.renderings)
    (h : Ready { e with workspace := e.workspace.eraseIdx k, renderings := e.renderings.eraseIdx k }) :
    Sure (removeStack k) e := by
  unfold removeStack
  refine .step rfl (.bind (.takeOut hk) fun workspace e1 h1 => ?_)
  obtain ⟨-, rfl, rfl⟩ := takeOut_eq_ok.1 h1
  refine .step rfl (.step rfl ?_)
  refine .bind (.takeOut (hp.length_eq ▸ hk)) fun renderings e2 h2 => ?_
  obtain ⟨-, rfl, rfl⟩ := takeOut_eq_ok.1 h2
  exact .step rfl (h.sure_redraw (-1))

section Pick

variable {r : Rendering} {detach : Edit Unit} {fuel : Nat}

/-- Taking a stack away from its place, once it was copied. -/
theorem sure_detach (h : e.Calm) (hm : e.menu = none) (hg : Grasp e.forest t detach) :
    Sure detach (e.withCursor (e.store.copyStack t).2 (e.store.copyStack t).1) := by
  cases hg with
  | @top k hk =>
    have hlt : k < e.workspace.length := (List.getElem?_eq_some_iff.1 hk).1
    refine sure_removeStack hlt h.steady.pictured (Calm.ready ?_)
    refine Carries.calm ⟨.liftStack hm hk, ?_⟩ (fun _ => False.elim) h
    exact ⟨lasts_addStack e.store _ _, rfl, fun t ht => .inl (mem_of_mem_eraseIdx ht)⟩
  | @body b i hb => exact .assign ((slot?_forest ..).symm.trans hb)

theorem sure_pickBlocks (h : e.Calm) (hm : e.menu = none) (hg : Grasp e.forest r.stack detach)
    (i : Nat) (id : BlockId) : Sure (pickBlocks r detach i id) e := by
  unfold pickBlocks
  refine .ite (fun _ => ?_) fun _ => ?_
  · refine .step rfl (.step rfl ?_)
    exact (sure_detach h hm hg).bind fun _ _ _ => .pure _
  · refine .step rfl (.step rfl (.step rfl ?_))
    exact .step rfl (.bind (.modifyStore _) fun _ _ _ => .pure _)

theorem sure_pickReporter {chosen : BlockId} {slot : Nat} {path : List Nat}
    (hs : e.store.slot? (e.store.holderAlong id slot path).1 (e.store.holderAlong id slot path).2 =
      some (.block chosen)) : Sure (pickReporter r id slot path) e := by
  unfold pickReporter
  refine .step rfl ?_
  generalize e.store.holderAlong id slot path = found at hs
  obtain ⟨ho, last⟩ := found
  refine .slotValue_bind hs (.step rfl (.step rfl ?_))
  refine .step rfl (.bind ?_ fun _ _ _ => .pure _)
  -- the copy leaves the slot as it was
  have hg : e.store.Grown ((e.store.copyBlock chosen).2.addStack
      [(e.store.copyBlock chosen).1] none).2 :=
    (retains_copyBlock e.store chosen).toGrown.trans (grown_addStack ..)
  exact .assign (hg.slot? hs)

theorem sure_takeGrip (h : e.Calm) (i : Int) (origin : Point) : Sure (takeGrip i origin) e := by
  unfold takeGrip
  refine .step rfl ((h.ready.sure_redraw i).bind fun _ e1 hd => .step rfl ?_)
  have he := h.eased.congr ((abides_redraw i).ok hd).eases_eq
  exact .ofExcept_bind (he.gripAt _ _) fun _ _ => .modify _

/-! ## Clicks on a stack -/

/-- A click on a stack that is reached, unless it comes to a body without a stack. -/
theorem sure_clickTo (h : e.Calm) (hdrawn : e.Drawn) (hcm : e.Composed s0) (hfr : e.Free)
    (hg : Grasp e.forest r.stack detach) (hci : Clicked e.forest r.stack i)
    (hr : e.forest.Reaches (.stack r.stack)) (hh : ¬e.Hollow i r) :
    Sure (clickTo fuel r i detach) e := by
  induction fuel generalizing e r detach with
  | zero => exact .pure _
  | succ fuel ih =>
    unfold clickTo
    refine (sure_hitIn h hdrawn hr i).read (reads_hitIn r i) fun found hf => ?_
    rcases found with _ | ⟨k, id⟩ | ⟨id, slot, path⟩ | ⟨id, spot⟩
    · exact .pure _
    · refine (sure_pickBlocks h hfr.1 hg k id).bind fun p e1 hp => ?_
      have h1 := h.works (.pickBlocks hfr.1 hg (within_of_hitIn hf) hp)
        (works_pickBlocks hg.works hp)
      exact (sure_takeGrip h1 i p).bind fun _ _ _ => .pure _
    · obtain ⟨chosen, hs⟩ := exists_block_of_hitIn hf
      refine (sure_pickReporter hs).bind fun p e1 hp => ?_
      have h1 := h.works (.pickReporter hfr.1 hp) (works_pickReporter hp)
      exact (sure_takeGrip h1 i p).bind fun _ _ _ => .pure _
    · obtain ⟨hb, v, c, hv, hco⟩ := reaches_of_hitIn h hdrawn hr hf
      refine .slotComponent_bind hco ?_
      have hre : ∀ {e1 : Editor}, e1.Ready → Sure (do
          redraw i
          return true : Edit Bool) e1 := fun h1 => (h1.sure_redraw i).bind fun _ _ _ => .pure _
      cases hk : c.kind with
      | boolean =>
        refine .slotValue_bind hv (.bind (.assign hv) fun _ e1 ha => ?_)
        refine hre (h.works ((moves_assign _ _ (v := .bool _) trivial).ok ha) ?_).ready
        refine works_assign (fun c' hc' => ?_) ha
        cases hco.symm.trans hc'
        simp [hk]
      | statement =>
        obtain ⟨t, ht⟩ := exists_body h hh hf hco hk hv
        refine (sure_renderBody h hb ht).bind fun b e1 hbo => ?_
        obtain ⟨h1, hd1, hr1⟩ := renderBody_after h hdrawn hb hbo
        obtain ⟨hs, hcr⟩ := renderBody_eq_ok hbo
        have hw := (works_renderBody spot).ok hbo
        have hc1 : e1.Composed s0 := hcm.works hw (.inl hfr.1)
        have hf1 := hw.free hfr
        have hl1 := hc1.located_body h1.steady hs
        have hg1 : Grasp e1.forest b.stack _ := .body hs
        have hc : Clicked e1.forest b.stack i := .body h1.sound.apart hs i
        refine (ih h1 hd1 hc1 hf1 hg1 hc hr1 fun hb =>
          hh (.inside hf hco hk hbo hb)).bind fun hit e2 hcl => hre ?_
        have hm : Moves NoFile e1 e2 := .clickTo h1.steady hf1.1 hg1 hc hcl
        exact ((hc1.clickTo h1.steady hf1 hg1 hl1 hcl).calm hm h1).ready
      | varName =>
        exact (failsOnly_openMenu _).bind fun _ e1 ho =>
          hre (h.ready.congr (openMenu_part ho site fun _ _ _ _ _ => rfl))
      | _ => exact .step rfl (hre (h.ready.congr rfl))

theorem sure_rightClickTo (h : e.Calm) (hdrawn : e.Drawn) {i : Int}
    (hr : e.forest.Reaches (.stack r.stack)) (hh : ¬e.Hollow i r) :
    Sure (rightClickTo fuel r i) e := by
  induction fuel generalizing e r with
  | zero => exact .pure _
  | succ fuel ih =>
    unfold rightClickTo
    refine (sure_hitIn h hdrawn hr i).read (reads_hitIn r i) fun found hf => ?_
    rcases found with _ | ⟨k, id⟩ | ⟨id, slot, path⟩ | ⟨id, spot⟩
    · exact .pure _
    · exact (failsOnly_openMenu _).bind fun _ _ _ => .pure _
    · refine .step rfl ?_
      exact (failsOnly_openMenu _).bind fun _ _ _ => .pure _
    · obtain ⟨hb, v, c, hv, hc⟩ := reaches_of_hitIn h hdrawn hr hf
      refine .slotComponent_bind hc (.ite (fun hk => ?_) fun _ => .pure _)
      obtain ⟨t, ht⟩ := exists_body h hh hf hc hk hv
      refine (sure_renderBody h hb ht).bind fun b e1 hbo => ?_
      obtain ⟨h1, hd1, hr1⟩ := renderBody_after h hdrawn hb hbo
      exact (ih h1 hd1 hr1 fun hb => hh (.inside hf hc hk hbo hb)).bind
        fun _ _ _ => .pure _

end Pick

/-! ## Clicks on the workspace -/

namespace Editor

/-- A stack of the workspace, if the mouse hits it. -/
def strike (e : Editor) : Option Rendering × Nat → Option (Rendering × Nat)
  | (some r, i) =>
    match hitIn r i e with
    | .ok (some _) _ => some (r, i)
    | _ => none
  | (none, _) => none

/-- The front most stack that the mouse hits. -/
def struck (e : Editor) : Option (Rendering × Nat) := e.renderings.zipIdx.reverse.findSome? e.strike

/-- A click comes to a body without a stack. -/
def StrikesHollow (e : Editor) : Prop := ∃ r, ∃ i : Nat, e.struck = some (r, i) ∧ e.Hollow i r

end Editor

/-- Trying the stacks from front to back, when each click that does not come to a body without a stack
is done. -/
theorem sure_tryStacks (h : e.Ready) {click : Rendering → Nat → Edit Bool}
    {l : List (Option Rendering × Nat)} (hs : ∀ i, (none, i) ∉ l)
    (hm : ∀ r i e', click r i e = .ok false e' → e' = e ∧ hitIn r i e = .ok none e)
    (hc : ∀ r i, (some r, i) ∈ l → ¬e.Hollow i r → Sure (click r i) e)
    (hh : ∀ r i, l.findSome? e.strike = some (r, i) → ¬e.Hollow i r) :
    Sure (tryStacks click l) e := by
  induction l with
  | nil => exact h.sure_redraw (-1)
  | cons q rest ih =>
    obtain ⟨_ | r, i⟩ := q
    · exact absurd mem_cons_self (hs i)
    have hf : ¬e.Hollow i r := fun hr => by
      obtain ⟨hit, hhi⟩ := hr.exists_hit
      refine hh r i ?_ hr
      simp only [findSome?_cons, strike, hhi]
    unfold tryStacks
    refine (hc r i mem_cons_self hf).bind fun hit e1 hru => ?_
    cases hit with
    | true => exact .pure _
    | false =>
      obtain ⟨rfl, hn⟩ := hm r i e1 hru
      refine ih (fun j hj => hs j (mem_cons_of_mem _ hj))
        (fun r j hj => hc r j (mem_cons_of_mem _ hj)) fun r' j hj => hh r' j ?_
      simpa only [findSome?_cons, strike, hn] using hj

theorem Editor.Shown.not_mem_reverse (hs : e.Shown) (hp : Pictured e.workspace e.renderings)
    (i : Nat) : (none, i) ∉ e.renderings.zipIdx.reverse := by
  intro hm
  have hi := mk_mem_zipIdx_iff_getElem?.1 (mem_reverse.1 hm)
  have hlt : i < e.workspace.length := hp.length_eq ▸ (List.getElem?_eq_some_iff.1 hi).1
  obtain ⟨r, hr⟩ := hs i _ (getElem?_eq_getElem hlt)
  cases hi.symm.trans hr

/-- A click with the left button on the workspace. -/
theorem sure_clickWorkspace (h : e.Calm) (hdrawn : e.Drawn) (hsh : e.Shown)
    (hc : e.Composed s0) (hf : e.Free) (hh : ¬e.StrikesHollow) :
    Sure clickWorkspace e := by
  refine .step rfl (sure_tryStacks h.ready (hsh.not_mem_reverse h.steady.pictured)
    (fun r i e1 hru => ?_) (fun r i hm hr => ?_) fun r i hs hr => hh ⟨r, i, hs, hr⟩)
  · cases clickTo_eq_ok hru with
    | miss hhi => exact ⟨rfl, hhi⟩
  · have hi := h.steady.pictured.stack_eq i r (getElem?_of_mem_reverse hm)
    exact sure_clickTo h hdrawn hc hf (.top hi) (.top hi) (.top (mem_of_getElem? hi)) hr

/-- A click with the right button on the workspace. -/
theorem sure_rightClickWorkspace (h : e.Calm) (hdrawn : e.Drawn) (hsh : e.Shown)
    (hh : ¬e.StrikesHollow) : Sure rightClickWorkspace e := by
  refine .step rfl (sure_tryStacks h.ready (hsh.not_mem_reverse h.steady.pictured)
    (fun r i e1 hru => ?_) (fun r i hm hr => ?_) fun r i hs hr => hh ⟨r, i, hs, hr⟩)
  · cases rightClickTo_eq_ok hru with
    | miss hhi => exact ⟨rfl, hhi⟩
  · have hi := h.steady.pictured.stack_eq i r (getElem?_of_mem_reverse hm)
    exact sure_rightClickTo h hdrawn (.top (mem_of_getElem? hi)) hr

/-! ## The palette -/

theorem sure_takeFromPalette : Sure takeFromPalette e := by
  unfold takeFromPalette
  refine .step rfl ?_
  dsimp only
  split
  · exact .pure _
  · exact .step rfl (.step rfl (.step rfl (.modify _)))

theorem sure_clickPalette (h : e.Calm) : Sure clickPalette e := by
  unfold clickPalette
  refine .step rfl (.ite (fun _ => ?_) fun _ =>
    .ite (fun _ => sure_takeFromPalette) fun _ => .pure _)
  split
  · refine .step rfl (Calm.sure_drawPalette ?_)
    exact h.congr rfl rfl rfl
  · exact .pure _

end BlockStudio
