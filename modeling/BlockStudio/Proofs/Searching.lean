import BlockStudio.Proofs.Seeking

/-!
# What the search for a place to join keeps

The search goes through stacks and blocks in many small steps, but only three of them change the
editor: a place is proposed, a body is told where it is, and an unfilled slot for a body gets an empty
stack.  `KeptBySearch` asks a relation for these three, and every part of the search keeps it then,
however it ends.  No step changes the definition of a block, so a slot that was one for bodies when the
search came to its block still is when the search comes to the slot.
-/

namespace BlockStudio

open Forest Store Edit

variable {α : Type} {e e' : Editor}

/-- A relation that holds between the editors before and after each change that the search makes. -/
structure KeptBySearch (R : Editor → Editor → Prop) : Prop where
  propose : ∀ (e : Editor) candidate, R e { e with candidate }
  tell : ∀ (e : Editor) t (p : Point), R e (e.withStore (e.store.setPosition t p.asPosition))
  openBody : ∀ (e : Editor) b i (p : Point) comp v,
    (e.store.definitionOf b).inputs[i]? = some comp → comp.kind = .statement →
    e.store.slot? b i = some v → (∀ t, v ≠ .stack t) →
    R e (e.withStore ((withBody e.store b i).setPosition ⟨e.store.allStacks.size⟩ p.asPosition))

variable {R : Editor → Editor → Prop} [IsPreorder Editor R]

/-- A relation between editors whose blocks have the same definitions. -/
def Defining (R : Editor → Editor → Prop) (e e' : Editor) : Prop :=
  R e e' ∧ e'.store.definitionOf = e.store.definitionOf

instance : IsPreorder Editor (Defining R) where
  refl e := ⟨refl e, rfl⟩
  trans _ _ _ h h' := ⟨trans_of R h.1 h'.1, h'.2.trans h.2⟩

namespace KeptBySearch

variable (h : KeptBySearch R)
include h

theorem checkEmpty (stack : StackId) (stackIndex : Nat) :
    Keeps R (checkEmpty stack stackIndex) := by
  unfold Edit.checkEmpty
  refine .bind reads_heldPlace.keeps fun _ => .bind reads_store.keeps fun _ => ?_
  refine .bind (.ofExcept _) fun _ => .ite (fun _ => ?_) fun _ => .pure _
  refine .bind reads_heldFirst.keeps fun _ => .ite (fun _ => ?_) fun _ => .pure _
  exact .bind (reads_joinLine _ _).keeps fun _ => .modify fun e => h.propose e _

theorem checkBelow (stack : StackId) (stackIndex i count : Nat) (id : BlockId)
    (held place : Point) : Keeps R (checkBelow stack stackIndex i count id held place) := by
  unfold Edit.checkBelow
  refine .bind reads_store.keeps fun _ => .ite (fun _ => ?_) fun _ => .pure _
  refine .bind reads_heldFirst.keeps fun _ => .ite (fun _ => ?_) fun _ => .pure _
  refine .bind reads_heldLast.keeps fun _ => .ite (fun _ => .pure _) fun _ => ?_
  exact .bind (reads_joinLine _ _).keeps fun _ =>
    .bind (.modify fun e => h.propose e _) fun _ => .pure _

theorem checkAbove (stack : StackId) (stackIndex i : Nat) (id : BlockId) (top : BlockType)
    (held place : Point) : Keeps R (checkAbove stack stackIndex i id top held place) := by
  unfold Edit.checkAbove
  refine .bind reads_store.keeps fun _ => .bind reads_heldSize.keeps fun _ => ?_
  refine .ite (fun _ => .bind reads_heldFirst.keeps fun _ => ?_) fun _ => .pure _
  refine .bind reads_heldLast.keeps fun _ => .ite (fun _ => ?_) fun _ => .pure _
  exact .bind (reads_joinLine _ _).keeps fun _ =>
    .bind (.modify fun e => h.propose e _) fun _ => .pure _

theorem placeBody {body : StackId → Edit α} {b : BlockId} {i : Nat} {comp : Component}
    (hc : (e.store.definitionOf b).inputs[i]? = some comp) (hk : comp.kind = .statement)
    (hb : ∀ t e', R e e' → R e' (endState (body t e'))) (p : Point) : R e (endState ((do
      let inner ← bodyIn b i
      modifyStore (·.setPosition inner p.asPosition)
      body inner) e)) := by
  rw [bind_run]
  rcases bodyIn_cases b i e with ⟨-, f, hr⟩ | ⟨t, -, hr⟩ | ⟨v, hv, hne, hr⟩ <;> rw [hr]
  · exact refl e
  · have ht := h.tell e t p
    exact trans_of R ht (hb t _ ht)
  · have ho := h.openBody e b i p comp v hc hk hv hne
    exact trans_of R ho (hb ⟨e.store.allStacks.size⟩ _ ho)

variable {nested : BlockId → Num → Num → Edit Unit} {body : StackId → Edit Unit}
  {slots : BlockId → Rect Num → Num → Num → Edit Unit} {stackIndex : Nat}

theorem checkEachSlot (hn : ∀ b dx dy, Keeps R (nested b dx dy)) (hbo : ∀ t, Keeps R (body t))
    (stack : StackId) (id : BlockId) (held : Rect Num) (dx dy : Num) (l : List (Rect Num × Nat)) :
    Keeps R (checkEachSlot nested body stack stackIndex id held dx dy l) := by
  induction l with
  | nil => exact .pure _
  | cons p l ih =>
    obtain ⟨slot, i⟩ := p
    unfold Edit.checkEachSlot
    refine .ite (fun _ => .bind (reads_slotValue id i).keeps fun v => ?_) fun _ => ih
    have ho : ∀ below : Edit PUnit, Keeps R below → Keeps R (do
        let c ← slotComponent id i
        if c.kind.fits (← heldFirst).definition.outputType then
          Edit.propose {
            stack, stackIndex, blockIndex := some 0, block := some id, joint := .value
            slot := some i, outline := slot.shift dx dy }
        else
          below
          Edit.checkEachSlot nested body stack stackIndex id held dx dy l) := fun below hb =>
      .bind (reads_slotComponent id i).keeps fun _ => .bind reads_heldFirst.keeps fun _ =>
        .ite (fun _ => .modify fun e => h.propose e _) fun _ => .bind hb fun _ => ih
    cases v with
    | block inner => exact hn inner _ _
    | stack t => exact ho (body t) (hbo t)
    | _ => exact ho (pure ()) (.pure _)

omit h in
theorem checkBodies {e : Editor} (h : KeptBySearch (Defining R)) (hb : ∀ t, Keeps (Defining R) (body t))
    (id : BlockId) (place : Point) {l : List (Component × Nat)}
    (hl : ∀ p ∈ l, (e.store.definitionOf id).inputs[p.2]? = some p.1) :
    Defining R e (endState (checkBodies body id place l e)) := by
  induction l generalizing e with
  | nil => exact refl e
  | cons p l ih =>
    obtain ⟨c, i⟩ := p
    obtain ⟨hc, hl⟩ := List.forall_mem_cons.1 hl
    have hr : ∀ e', Defining R e e' → Defining R e' (endState (Edit.checkBodies body id place l e')) :=
      fun e' he => ih fun p hp => (congrArg (·.inputs[p.2]?) (congrFun he.2 id)).trans (hl p hp)
    unfold Edit.checkBodies
    refine run_ite (p := Defining R e) (fun hk => ?_) fun _ => hr e (refl e)
    rw [store_bind]
    rcases (e.store.block id).slotRects[i]? with _ | slot
    · exact refl e
    · refine h.placeBody hc hk (fun t e' he => ?_) _
      exact run_bind ((hb t).run e') fun _ e2 _ he2 => hr e2 (trans_of (Defining R) he he2)

omit h in
theorem checkBlocks (h : KeptBySearch (Defining R))
    (hs : ∀ b held dx dy, Keeps (Defining R) (slots b held dx dy))
    (hb : ∀ t, Keeps (Defining R) (body t)) (stack : StackId) (count : Nat) (top : BlockType)
    (l : List (BlockId × Nat)) :
    Keeps (Defining R) (checkBlocks slots body stack stackIndex count top l) := by
  induction l with
  | nil => exact .pure _
  | cons p l ih =>
    obtain ⟨id, i⟩ := p
    unfold Edit.checkBlocks
    refine .bind reads_heldFirst.keeps fun _ => .bind reads_heldPlace.keeps fun held => ?_
    refine .bind reads_store.keeps fun _ => .bind (.ofExcept _) fun place => ⟨fun e => ?_⟩
    rw [store_bind]
    refine run_ite (p := Defining R e) (fun _ => ?_) fun _ => ?_
    · exact (Keeps.bind reads_heldSize.keeps fun _ => Keeps.bind (hs ..) fun _ => ih).run e
    refine run_bind ((h.checkBelow ..).run e) fun below e1 _ h1 => ?_
    refine run_ite (p := Defining R e1) (fun _ => refl e1) fun _ => ?_
    refine run_bind ((h.checkAbove ..).run e1) fun above e2 _ h2 => ?_
    refine run_ite (p := Defining R e2) (fun _ => refl e2) fun _ => ?_
    refine run_bind (h.checkBodies hb id place fun p hp => ?_) fun _ e3 _ _ => ih.run e3
    have hd := congrFun (h2.2.trans h1.2) id
    exact (congrArg (·.inputs[p.2]?) hd).trans (List.mem_zipIdx_iff_getElem?.1 hp)

omit h in
theorem checkTo (h : KeptBySearch (Defining R)) (stackIndex fuel : Nat) :
    (∀ stack held id dx dy, Keeps (Defining R) (checkSlots stackIndex fuel stack held id dx dy)) ∧
      ∀ stack, Keeps (Defining R) (checkStack stackIndex fuel stack) := by
  induction fuel with
  | zero =>
    constructor
    · intro stack held id dx dy
      rw [checkSlots]
      exact .pure _
    · intro stack
      rw [checkStack]
      exact .pure _
  | succ fuel ih =>
    obtain ⟨ihslots, ihstack⟩ := ih
    constructor
    · intro stack held id dx dy
      rw [checkSlots]
      exact .bind reads_store.keeps fun _ =>
        h.checkEachSlot (ihslots stack held) ihstack stack id held dx dy _
    · intro stack
      rw [checkStack]
      refine .bind reads_store.keeps fun s => ?_
      split
      · exact h.checkEmpty ..
      · exact h.checkBlocks (fun id held => ihslots stack held id) ihstack stack _ _ _

omit [IsPreorder Editor R] in
theorem defining : KeptBySearch (Defining R) where
  propose e c := ⟨h.propose e c, rfl⟩
  tell e t p := ⟨h.tell e t p, rfl⟩
  openBody e b i p comp v hc hk hv hne := by
    refine ⟨h.openBody e b i p comp v hc hk hv hne, funext fun c => ?_⟩
    exact definitionOf_setValue ..

/-- The whole search. -/
theorem findCandidate : Keeps R findCandidate := by
  refine .bind (.modify fun e => h.propose e none) fun _ => ?_
  refine .bind .get fun e => .ite (fun _ => ?_) fun _ => .pure _
  refine .bind (.forIn _ _ fun p _ _ => ?_) fun _ => .pure _
  refine .bind reads_store.keeps fun _ => .bind ?_ fun _ => .pure _
  exact ((h.defining.checkTo ..).2 _).mono fun _ _ hd => hd.1

end KeptBySearch

end BlockStudio
