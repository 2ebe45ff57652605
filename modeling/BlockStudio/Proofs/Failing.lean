import BlockStudio.Proofs.SureAnswer

/-!
# Steps that fail

The other side of clicks, keys and answers without fail: a click that comes to a body without a stack
fails, a key into a slot that holds something else than a text fails, and so does a yes to the question
whether to take back a name that is not declared.

A click goes into bodies only to the depth that its fuel allows.  That it comes to the body without a
stack before the fuel is spent follows from the height of the tree that a stack shows.
-/

namespace BlockStudio

open Forest Edit

variable {α β : Type} {e e' : Editor} {name v : Value} {id : BlockId} {spot : Spot} {r : Rendering}
  {stackIndex code : Int} {ev : Event}

/-- From a state, a step fails. -/
def Fails (m : Edit α) (e : Editor) : Prop := ∃ f e', m e = .error f e'

section Fails

variable {x : Edit α} {f : α → Edit β}

theorem fails_throw (f : Fault) : Fails (throw f : Edit α) e := ⟨f, e, rfl⟩

theorem fails_ofExcept {r : Except Fault α} {f : Fault} (h : r = .error f) : Fails (Edit.ofExcept r) e :=
  ⟨f, e, ofExcept_eq_error.2 ⟨h, rfl⟩⟩

/-- What fails first fails as a whole. -/
theorem Fails.bind (h : Fails x e) : Fails (x >>= f) e := by
  obtain ⟨g, e1, hx⟩ := h
  exact ⟨g, e1, bind_eq_error.2 (.inl hx)⟩

/-- A step that is done, and what fails after it. -/
theorem Fails.step {a : α} (hx : x e = .ok a e') (h : Fails (f a) e') : Fails (x >>= f) e := by
  obtain ⟨g, e1, hf⟩ := h
  exact ⟨g, e1, bind_eq_error.2 (.inr ⟨a, e', hx, hf⟩)⟩

end Fails

/-! ## Trees below a stack -/

section Trees

variable {s : Store} {t : StackId} {tree : Tree} {fuel : Nat}

theorem exists_succ_of_shows (h : s.Shows tree (.stack t)) (hf : tree.height ≤ fuel) :
    ∃ n, fuel = n + 1 := by
  obtain ⟨p, ts, rfl, -⟩ := h.exists_stack
  exact Nat.exists_eq_succ_of_ne_zero ((Nat.succ_pos _).trans_le hf).ne'

end Trees

/-- The body of a slot that is hit in a stack shows a lower tree than the stack. -/
theorem exists_tree_of_body {b : Rendering} {tree : Tree}
    (ht : e.store.bare.Shows tree (.stack r.stack))
    (hh : hitIn r stackIndex e = .ok (some (.spot id spot)) e)
    (hbo : renderBody spot e = .ok b e') :
    ∃ u, e'.store.bare.Shows u (.stack b.stack) ∧ u.height < tree.height := by
  obtain ⟨hid, p, dx, dy, hsp⟩ := within_of_hitIn hh
  have hro : id ∈ e.store.bare.blocksOf r.stack := (blocksOf_forest e r.stack).symm ▸ hid
  have hr := (along_spotAtTo (q := fun b => Reached e.store.bare [r.stack] (.block b))
    (fun _ _ _ hb hs => hb.slot ((slot?_forest ..).trans hs))
    (.row (.top (List.mem_singleton_self _)) hro) hsp).1
  obtain ⟨w, hw, hle⟩ := exists_tree_of_reached ht hr
  obtain ⟨hs, hc⟩ := renderBody_eq_ok hbo
  have hb : e'.store.bare = e.store.bare := congrArg (·.forest.store) hc
  obtain ⟨u, hu, hlt⟩ := exists_tree_of_slot (hb ▸ hw) hs
  exact ⟨u, hu, hlt.trans_le hle⟩

/-! ## Clicks into bodies without a stack -/

theorem fails_renderBody (h : e.store.slot? spot.block spot.slot = some .none) :
    Fails (renderBody spot) e := by
  refine .step (slotValue_eq_ok.2 ⟨h, rfl⟩) ?_
  exact fails_throw _

/-- Clicks with the left button and the right one that come to a body without a stack. -/
theorem Editor.Hollow.fails_clickTo {stackIndex : Int} {tree : Tree} {fuel : Nat}
    (h : e.Hollow stackIndex r) (ht : e.store.bare.Shows tree (.stack r.stack))
    (hf : tree.height ≤ fuel) (detach : Edit Unit) :
    Fails (clickTo fuel r stackIndex detach) e ∧ Fails (rightClickTo fuel r stackIndex) e := by
  induction h generalizing tree fuel detach with
  | here hh hc hk hs =>
    obtain ⟨fuel, rfl⟩ := exists_succ_of_shows ht hf
    have hb := fails_renderBody hs
    unfold clickTo rightClickTo
    constructor <;> refine Fails.step hh (.step (slotComponent_eq_ok.2 ⟨hc, rfl⟩) ?_)
    · simp only [hk]
      exact hb.bind
    · rw [if_pos hk]
      exact hb.bind
  | inside hh hc hk hb _ ih =>
    obtain ⟨fuel, rfl⟩ := exists_succ_of_shows ht hf
    obtain ⟨u, hu, hlt⟩ := exists_tree_of_body ht hh hb
    have hi := ih hu (Nat.le_of_lt_succ (hlt.trans_le hf))
    unfold clickTo rightClickTo
    constructor <;> refine Fails.step hh (.step (slotComponent_eq_ok.2 ⟨hc, rfl⟩) ?_)
    · simp only [hk]
      exact .step hb (hi _).1.bind
    · rw [if_pos hk]
      exact .step hb (hi detach).2.bind

/-- Trying the stacks from front to back fails when the click on the first one that is hit does. -/
theorem fails_tryStacks {click : Rendering → Nat → Edit Bool} {l : List (Option Rendering × Nat)}
    {i : Nat} (hs : l.findSome? e.strike = some (r, i)) (hc : Fails (click r i) e)
    (hm : ∀ r (i : Nat), hitIn r i e = .ok none e → click r i e = .ok false e)
    (hf : ∀ r (i : Nat), Fails (hitIn r i) e → Fails (click r i) e) :
    Fails (tryStacks click l) e := by
  induction l with
  | nil => cases hs
  | cons q rest ih =>
    obtain ⟨_ | r', j⟩ := q
    · exact fails_throw _
    unfold tryStacks
    rw [List.findSome?_cons] at hs
    rcases hh : hitIn r' j e with ⟨_ | hit, e1⟩ | ⟨f, e1⟩
    · obtain rfl := (reads_hitIn r' j).ok hh
      simp only [Editor.strike, hh] at hs
      exact .step (hm r' j hh) (ih hs)
    · simp only [Editor.strike, hh, Option.some.injEq, Prod.mk.injEq] at hs
      obtain ⟨rfl, rfl⟩ := hs
      exact hc.bind
    · exact (hf r' j ⟨f, e1, hh⟩).bind

section Workspace

variable (h : e.Ready) (hstrikes : e.StrikesHollow)

include h hstrikes

theorem exists_struck : ∃ r, ∃ i : Nat, e.struck = some (r, i) ∧ e.Hollow i r ∧
    ∃ tree, e.store.bare.Shows tree (.stack r.stack) ∧ tree.height ≤ e.store.depth := by
  obtain ⟨r, i, hst, hh⟩ := hstrikes
  obtain ⟨⟨_ | r', j⟩, hm, hs⟩ := List.exists_of_findSome?_eq_some hst
  · cases hs
  obtain ⟨rfl, rfl⟩ : r' = r ∧ j = i := by
    simp only [Editor.strike] at hs
    split at hs <;> cases hs
    exact ⟨rfl, rfl⟩
  have hi := h.pictured.stack_eq j r' (getElem?_of_mem_reverse hm)
  obtain ⟨tree, ht⟩ := h.trees _ (List.mem_of_getElem? hi)
  exact ⟨r', j, hst, hh, tree, ht, Store.depth_bare (s := e.store) ▸ ht.height_lt_depth.le⟩

theorem fails_clickWorkspace : Fails clickWorkspace e ∧ Fails rightClickWorkspace e := by
  obtain ⟨r, i, hs, hho, tree, ht, hh⟩ := exists_struck h hstrikes
  have hf := hho.fails_clickTo ht hh
  refine ⟨.step rfl (fails_tryStacks hs (hf _).1 ?_ ?_),
    .step rfl (fails_tryStacks hs (hf (pure ())).2 ?_ ?_)⟩
  all_goals
    obtain ⟨fuel, hfu⟩ := exists_succ_of_shows ht hh
    rw [hfu]
    intro r i hhi
  · exact bind_eq_ok.2 ⟨none, e, hhi, rfl⟩
  · exact hhi.bind
  · exact bind_eq_ok.2 ⟨none, e, hhi, rfl⟩
  · exact hhi.bind

end Workspace

theorem fails_handleDown (h : e.Calm) {button : Int} (hp : e.PressesHollow button) :
    Fails (handleDown button) e := by
  obtain ⟨he, hc, hm, hb, hstrikes⟩ := hp
  have hr : e.shut.Ready := h.ready.congr rfl
  unfold Fails
  rw [handleDown_press he hc]
  refine Fails.step rfl ?_
  rw [if_pos hm]
  rcases hb with rfl | rfl
  · exact (fails_clickWorkspace hr hstrikes).1
  · exact (fails_clickWorkspace hr hstrikes).2

/-! ## Keys -/

theorem typed_eq_error {s : Store} {kind : SlotKind} (hk : kind = .text ∨ kind = .any)
    (hc : code ≠ Key.backspace.code) (hv : v.IsNode ∨ v.Literal) (ht : ∀ text, v ≠ .text text)
    (text : String) : v.typed s kind code text = .error .badOperands := by
  have hl : v.lengthen text = .error .badOperands := by
    cases v with
    | text t => exact absurd rfl (ht t)
    | list items => exact (hv.elim id id).elim
    | _ => rfl
  unfold Value.typed
  rw [if_neg hc]
  rcases hk with rfl | rfl <;> exact hl

theorem fails_handleKey (h : e.Calm) (hcl : e.Clogged code) (text : String) :
    Fails (handleKey code text) e := by
  obtain ⟨hco, spot, c, v, ⟨he, hed⟩, hc, hk, hv, hno, hte⟩ := hcl
  unfold handleKey
  refine .step rfl ?_
  rw [he, hed]
  refine .step (slotValue_eq_ok.2 ⟨hv, rfl⟩) (.step (slotComponent_eq_ok.2 ⟨hc, rfl⟩) ?_)
  have ht := typed_eq_error (s := e.store) hk hco (h.steady.isNode_or_literal hv) hte text
  refine Fails.step rfl ?_
  cases v with
  | none => exact absurd rfl hno
  | _ => exact (fails_ofExcept ht).bind

/-! ## Answers -/

theorem fails_forgetName (h : hasName e.globals name = false) : Fails (forgetName name) e := by
  unfold forgetName
  cases hn : name.nameable with
  | error f => exact (fails_ofExcept rfl).bind
  | ok u =>
    refine .step (ofExcept_eq_ok.2 ⟨rfl, rfl⟩) (.step rfl ?_)
    rw [if_neg (by simp [h])]
    exact fails_throw _

theorem fails_answerRename (h : hasName e.globals name = false) (new : Option String) :
    Fails (answerRename .yes name new) e := by
  refine Fails.step rfl ?_
  rw [if_pos rfl]
  exact Fails.bind (fails_forgetName h)

theorem exists_dialog_of_withdraws (h : e.withdraws ev = some name) :
    ∃ d d' purpose, e.dialog = some (d, purpose) ∧
      (purpose = .renameVariable name ∨ purpose = .deleteVariable name) ∧
      d.handle e.devices.mouse ev = (d', some .yes) := by
  unfold Editor.withdraws at h
  split at h
  case h_3 => cases h
  all_goals
    rename_i d old hd
    obtain ⟨hy, hn⟩ := Option.ite_none_right_eq_some.1 h
    cases hn
  · exact ⟨d, _, _, hd, .inl rfl, Prod.ext rfl hy⟩
  · exact ⟨d, _, _, hd, .inr rfl, Prod.ext rfl hy⟩

/-- A variable that is not declared cannot go. -/
theorem fails_of_withdraws (h : e.withdraws ev = some name) (hn : hasName e.globals name = false) :
    Fails (handle ev) e := by
  obtain ⟨d, d', purpose, hd, hp, hh⟩ := exists_dialog_of_withdraws h
  unfold handle
  refine .step rfl ?_
  rw [hd]
  unfold handleDialog
  refine .step rfl ?_
  rw [hh]
  refine Fails.step rfl ?_
  rcases hp with rfl | rfl
  · exact fails_answerRename hn (some _)
  · exact fails_answerRename hn none

end BlockStudio
