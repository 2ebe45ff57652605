import BlockStudio.Proofs.RenamingWalk

/-!
# The slots that renaming changes

Renaming in a block is to change exactly the slots for names below it that hold the old one:
`Store.Renames`.  The walk asks `Store.asked` what a slot is, which behind a filled body is the last block
of that body.  Where the answers do no harm, `Store.Guides`, the walk returns and renames exactly,
`Edit.renaming_reaches_every_name`.  Where the block that is asked has no such slot the walk fails,
`Edit.renaming_fails_behind_filled_body`.
-/

namespace BlockStudio

variable {n : Nat}

instance : DecidablePred Value.IsNode
  | .block _ | .stack _ => isTrue trivial
  | .none | .bool _ | .num _ | .complex _ _ | .text _ | .list _ => isFalse id

instance decidableEqText (x : String) : ∀ v : Value, Decidable (v = .text x)
  | .text y => decidable_of_iff (y = x) (by simp)
  | .none | .bool _ | .num _ | .complex _ _ | .list _ | .block _ | .stack _ => isFalse nofun

namespace Store

variable {s s' : Store} {x : String} {new : Value} {b c d : BlockId} {i : Nat}

instance (s : Store) (b : BlockId) (i : Nat) : Decidable (s.IsName b i) :=
  decidable_of_iff ((s.definitionOf b).inputs[i]?.map Component.kind = some .varName) <| by
    simp [IsName, Option.map_eq_some_iff]

/-- A block is another one or lies below it. -/
def Below (s : Store) (b d : BlockId) : Prop := ∃ n, s.Under n b d

theorem below_iff : s.Below b d ↔ d = b ∨ ∃ i c, s.InSlot b i c ∧ s.Below c d := by
  constructor
  · rintro ⟨n, h⟩
    cases n with
    | zero => exact h.elim
    | succ n => exact h.imp_right fun ⟨i, c, hc, h⟩ => ⟨i, c, hc, n, h⟩
  · rintro (rfl | ⟨i, c, hc, n, h⟩)
    · exact ⟨1, .inl rfl⟩
    · exact ⟨n + 1, .inr ⟨i, c, hc, h⟩⟩

/-- What stands in the slots of a block that comes to an end comes to an end one level earlier. -/
theorem Within.inSlot (h : s.Within (n + 1) (.block b)) (hc : s.InSlot b i c) :
    s.Within n (.block c) := by
  rcases hc with hc | ⟨t, ht, hc⟩
  · exact h.2 _ (List.mem_of_getElem? hc)
  · have ht := h.2 _ (List.mem_of_getElem? ht)
    cases n with
    | zero => exact ht.elim
    | succ n => exact (ht.2 c hc).succ

theorem Within.below_lt (h : s.Within n (.block b)) (hd : s.Below b d) : d.index < s.blocks.size := by
  induction n generalizing b with
  | zero => exact h.elim
  | succ n ih =>
    obtain rfl | ⟨i, c, hc, hd⟩ := below_iff.1 hd
    · exact h.1
    · exact ih (h.inSlot hc) hd

theorem Within.under (h : s.Within n (.block b)) (hd : s.Below b d) : s.Under n b d := by
  induction n generalizing b with
  | zero => exact h.elim
  | succ n ih =>
    obtain rfl | ⟨i, c, hc, hd⟩ := below_iff.1 hd
    · exact .inl rfl
    · exact .inr ⟨i, c, hc, ih (h.inSlot hc) hd⟩

/-! ## Exact renaming -/

/-- The variable `x` was renamed in those of the slots `done` that are for names and held it, and nothing
else changed. -/
structure Renames (x : String) (new : Value) (done : BlockId → Nat → Prop) (s s' : Store) : Prop
    extends Rewords new s s' where
  renamed : ∀ d i, done d i → s.IsName d i → s.slot? d i = some (.text x) → s'.slot? d i = some new
  kept : ∀ d i, ¬(done d i ∧ s.IsName d i ∧ s.slot? d i = some (.text x)) →
    s'.slot? d i = s.slot? d i

instance (s : Store) (x : String) (b : BlockId) : Decidable (s.Guides x b) :=
  inferInstanceAs (Decidable (∀ p ∈ (s.block b).values.zipIdx, _ ∧ _))

end Store

namespace Edit

open Store

/-- Renaming in a block changes only slots for names, to the new one, however it ends.  Where the blocks
that are asked guide the walk it returns, and the slots for names below the block that held the old one
hold the new one, and no others changed. -/
theorem renaming_reaches_every_name (x : String) (name : Option String) (b : BlockId) (e : Editor) :
    let new := name.elim Value.none Value.text
    Rewords new e.store (endState (renameInBlock (.text x) new b e)).store ∧
    ∀ n, e.store.Within n (.block b) → (∀ d, e.store.Below b d → e.store.Guides x d) →
      ∃ s', renameInBlock (.text x) new b e = .ok () (e.withStore s') ∧
        Renames x new (fun d _ => e.store.Below b d) e.store s' := by
  intro new
  refine ⟨(keeps_renameInBlock (R := Rewording new) _ (fun _ _ _ => rewording_assign) b).run e,
    fun n hb hguides => ?_⟩
  have hnew : new.Literal := by cases name <;> trivial
  let R : Renaming := ⟨e.store, x, new, True, e.store.Below b⟩
  have hwalk := Renaming.sweeps_renameInBlock (R := R) (.inl trivial) hnew
    (fun d hd => Renaming.leads_of_guides ⟨_, hd⟩ (hguides d ⟨_, hd⟩)) e (.refl _)
  obtain ⟨_, e', hrun⟩ := hwalk.2 trivial
  obtain ⟨hturns, hrenamed⟩ := hwalk.1 _ e' hrun
  have hassign : ∀ b i, Keeps (Same (·.withStore .empty)) (assign b i new) := fun b i =>
    Keeps.bind reads_store.keeps fun s => Keeps.ite (fun _ => ⟨fun e => rfl⟩) fun _ => Keeps.throw _
  have hrest : e'.withStore .empty = e.withStore .empty :=
    (keeps_renameInBlock _ (fun b i e _ => (hassign b i).run e) b).ok hrun
  have hframe : e' = e.withStore e'.store := congrArg (·.withStore e'.store) hrest
  refine ⟨e'.store, hframe ▸ hrun, hturns.toRewords, fun d i hd => hrenamed d (hb.depth.under hd) i,
    fun d i hnot => ?_⟩
  rcases hturns.slot d i with heq | ⟨hname, -⟩
  · exact heq
  · exact (hturns.kept trivial d i).resolve_right fun ⟨hd, hx⟩ => hnot ⟨hd, hname, hx⟩

/-- A fork with a variable in both branches.  The first branch ends with a fork, which has a slot for each
slot of the outer one. -/
def nestedForks : Store where
  blocks := #[.named "if-else" [.none, .stack ⟨1⟩, .stack ⟨2⟩], .named "set" [.text "x", .text "x"],
    .named "if-else" [.none, .none, .none], .named "set" [.text "x", .block ⟨4⟩],
    .named "get-var" [.text "x"]]
  allStacks := #[⟨⟨0⟩, none⟩, ⟨⟨1⟩, none⟩, ⟨⟨2⟩, none⟩]
  rows := #[[], [⟨1⟩, ⟨2⟩], [⟨3⟩]]
  retired := 0

theorem renaming_reaches_nested_forks :
    let e : Editor := .blank 1200 900 Catalogue.blocks nestedForks [] .empty
    nestedForks.Within 5 (.block ⟨0⟩) ∧ (∀ d, nestedForks.Below ⟨0⟩ d → nestedForks.Guides "x" d) ∧
      ∃ s', renameInBlock (.text "x") (.text "y") ⟨0⟩ e = .ok () (e.withStore s') ∧
        Renames "x" (.text "y") (fun d _ => nestedForks.Below ⟨0⟩ d) nestedForks s' := by
  intro e
  have hwithin : nestedForks.Within 5 (.block ⟨0⟩) := by decide +kernel
  have hall : ∀ k < 5, nestedForks.Guides "x" ⟨k⟩ := by decide +kernel
  have hguides : ∀ d, nestedForks.Below ⟨0⟩ d → nestedForks.Guides "x" d := fun d hd =>
    hall d.index (hwithin.below_lt hd)
  exact ⟨hwithin, hguides, (renaming_reaches_every_name "x" (some "y") ⟨0⟩ e).2 5 hwithin hguides⟩

/-- An attempt that stops a loop, with a variable in the branch for errors. -/
def attemptToStop : Store where
  blocks := #[.named "try" [.stack ⟨1⟩, .stack ⟨2⟩], .named "break" [],
    .named "set" [.text "x", .none]]
  allStacks := #[⟨⟨0⟩, none⟩, ⟨⟨1⟩, none⟩, ⟨⟨2⟩, none⟩]
  rows := #[[], [⟨1⟩], [⟨2⟩]]
  retired := 0

/-- What the branch for errors is, is asked of the block that ends the first branch, which has no slots: the
walk fails, and the variable in that branch is not renamed. -/
theorem renaming_fails_behind_filled_body :
    let e : Editor := .blank 1200 900 Catalogue.blocks attemptToStop [] .empty
    attemptToStop.Within 5 (.block ⟨0⟩) ∧ attemptToStop.Below ⟨0⟩ ⟨2⟩ ∧ attemptToStop.IsName ⟨2⟩ 0 ∧
      ∃ e', renameInBlock (.text "x") (.text "y") ⟨0⟩ e = .error (.outOfRange .list) e' ∧
        e'.store.slot? ⟨2⟩ 0 = some (.text "x") := by
  intro e
  have hbelow : attemptToStop.Below ⟨0⟩ ⟨2⟩ :=
    below_iff.2 (.inr ⟨1, ⟨2⟩, .inr ⟨⟨2⟩, rfl, List.mem_cons_self⟩, below_iff.2 (.inl rfl)⟩)
  exact ⟨by decide +kernel, hbelow, by decide +kernel, e, rfl, rfl⟩

end Edit

end BlockStudio
