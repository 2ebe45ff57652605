import BlockStudio.Proofs.Reachable

/-!
# The shapes of stacks

A stack of the workspace, like the dragged one, is a single reporter, or a hat, statements and a cap in
this order; a body is made of statements and a cap.  Every event keeps these shapes but one: dropping a
stack that begins with a hat onto a body.
-/

namespace BlockStudio

variable {files : String → Prop} {considered : Editor → Event → Prop} {phase : Phase} {e : Editor}

theorem Forest.grammatical_empty : (Forest.mk .empty [] none).Grammatical := by
  refine ⟨by simp, ?_⟩
  rintro t ⟨b, i, ht⟩
  simp [Store.slot?_empty] at ht

theorem Reachable.grammatical (h : Reachable files considered phase e)
    (hf : ∀ text, files text → Saves Forest.Grammatical text)
    (hc : ∀ e ev, considered e ev → ¬e.CrownsOn ev) : e.forest.Grammatical :=
  h.forest hf Forest.grammatical_empty
    (fun _ _ hF hch hG => hG.changes hF (fun _ => id) hch)
    (fun _ _ _ _ _ hF hs hG => hG.share hF hs)
    fun e ev _ hev hon => absurd hon (hc e ev hev)

theorem Written.grammatical {text : String} (h : Written (fun e ev => ¬e.CrownsOn ev) text) :
    Saves Forest.Grammatical text :=
  h.closed fun _ e _ he ht =>
    ⟨e, (he.steady fun _ => id).1, he.grammatical (fun _ => id) fun _ _ => id, ht⟩

/-- In every run that drops no stack with a hat onto a body, and that opens only files saved in such
runs, the stacks of the workspace and the dragged stack are a reporter each, or a hat, statements and
a cap; and whatever slot holds a stack, it is made of statements and a cap. -/
theorem stack_shapes_without_crowning
    (h : Reachable (Written fun e ev => ¬e.CrownsOn ev) (fun e ev => ¬e.CrownsOn ev) phase e) :
    (∀ t ∈ e.workspace, IsTop (e.store.types t)) ∧
      (∀ t, e.cursor = some t → IsTop (e.store.types t)) ∧
      ∀ b i t, e.store.slot? b i = some (.stack t) → IsBody (e.store.types t) := by
  have hG := h.grammatical (fun _ => Written.grammatical) fun _ _ => id
  have htypes : ∀ t, e.forest.store.types t = e.store.types t := by
    simp [Editor.forest, Store.types]
  refine ⟨fun t ht => ?_, fun t ht => ?_, fun b i t ht => ?_⟩
  · exact htypes t ▸ hG.top t (Forest.mem_roots.2 (.inl ht))
  · exact htypes t ▸ hG.top t (Forest.mem_roots.2 (.inr ht))
  · exact htypes t ▸ hG.body t ⟨b, i, by simpa [Editor.forest, Store.slot?] using ht⟩

/-! ## Two runs -/

/-- The dragged stack has no hat, or would be laid down. -/
def Editor.dropsNoHat (e : Editor) : Bool :=
  e.candidate.isNone || e.cursor.all fun u => (e.store.types u).head? != some .hat

theorem Editor.not_crownsOn_of_dropsNoHat {ev : Event} (h : e.dropsNoHat = true) : ¬e.CrownsOn ev := by
  rintro ⟨-, -, -, -, c, u, hc, -, -, hu, hh⟩
  have ht : e.forest.store.types u = e.store.types u := by simp [Editor.forest, Store.types]
  simp [Editor.dropsNoHat, hc, hu, ht ▸ hh] at h

/-- Drag a start to the workspace, a counted loop below it and a wait into the body of the loop. -/
def buildsProgram : List (Devices × Event) :=
  [(⟨⟨80, 60⟩, []⟩, .down 1), (⟨⟨600, 300⟩, []⟩, .up 1), (⟨⟨80, 200⟩, []⟩, .down 1),
    (⟨⟨600, 375⟩, []⟩, .motion ⟨0, 0⟩), (⟨⟨600, 375⟩, []⟩, .up 1), (⟨⟨80, 130⟩, []⟩, .down 1),
    (⟨⟨625, 400⟩, []⟩, .motion ⟨0, 0⟩), (⟨⟨625, 400⟩, []⟩, .up 1)]

/-- The workspace is a start above a loop whose body is a statement. -/
def Editor.holdsProgram (e : Editor) : Bool :=
  match e.workspace, e.store.slot? ⟨1⟩ 1 with
  | [t], some (.stack u) => e.store.types t == [.hat, .statement] && e.store.types u == [.statement]
  | _, _ => false

/-- The program of three blocks has the shapes that stacks and bodies should have. -/
theorem stack_shapes_of_program :
    ∃ e, Reachable (Written fun e ev => ¬e.CrownsOn ev) (fun e ev => ¬e.CrownsOn ev) .waiting e ∧
      (∃ t u, e.workspace = [t] ∧ e.store.types t = [.hat, .statement] ∧
        e.store.slot? ⟨1⟩ 1 = some (.stack u) ∧ e.store.types u = [.statement] ∧
        IsTop (e.store.types t) ∧ IsBody (e.store.types u)) := by
  have hcheck : ∀ (e : Editor) ev, (e.dropsNoHat && (e.opens ev).isNone) = true →
      ¬e.CrownsOn ev ∧ e.opens ev = none := by
    intro e ev hpass
    simp only [Bool.and_eq_true, Option.isNone_iff_eq_none] at hpass
    exact ⟨Editor.not_crownsOn_of_dropsNoHat hpass.1, hpass.2⟩
  obtain ⟨e, he, hend⟩ := exists_reachable_of_play hcheck buildsProgram
    Editor.holdsProgram (by decide +kernel)
  unfold Editor.holdsProgram at hend
  split at hend
  case h_2 => cases hend
  case h_1 t u hworkspace hslot =>
    simp only [Bool.and_eq_true, beq_iff_eq] at hend
    obtain ⟨htop, -, hbody⟩ := stack_shapes_without_crowning he
    exact ⟨e, he, t, u, hworkspace, hend.1, hslot, hend.2, htop t (by simp [hworkspace]),
      hbody _ _ _ hslot⟩

/-- Drag a counted loop to the workspace, a wait into its body and a start above the wait. -/
def crownsBody : List (Devices × Event) :=
  [(⟨⟨80, 200⟩, []⟩, .down 1), (⟨⟨600, 400⟩, []⟩, .up 1), (⟨⟨80, 130⟩, []⟩, .down 1),
    (⟨⟨625, 430⟩, []⟩, .motion ⟨0, 0⟩), (⟨⟨625, 430⟩, []⟩, .up 1), (⟨⟨80, 60⟩, []⟩, .down 1),
    (⟨⟨630, 380⟩, []⟩, .motion ⟨0, 0⟩), (⟨⟨630, 380⟩, []⟩, .up 1)]

/-- The body of the first block begins with a hat. -/
def Editor.crownedFirst (e : Editor) : Bool :=
  match e.store.slot? ⟨0⟩ 1 with
  | some (.stack t) => e.store.types t == [.hat, .statement]
  | _ => false

/-- After the drop, the body of the loop begins with a hat. -/
theorem crowned_body_begins_with_hat :
    ∃ e, Reachable (Written fun _ _ => True) (fun _ _ => True) .waiting e ∧
      ∃ t, e.store.slot? ⟨0⟩ 1 = some (.stack t) ∧ e.store.types t = [.hat, .statement] ∧
        ¬IsBody (e.store.types t) := by
  have hcheck : ∀ (e : Editor) ev, (e.opens ev).isNone = true → True ∧ e.opens ev = none :=
    fun e ev hpass => ⟨trivial, Option.isNone_iff_eq_none.1 hpass⟩
  obtain ⟨e, he, hend⟩ := exists_reachable_of_play hcheck crownsBody
    Editor.crownedFirst (by decide +kernel)
  unfold Editor.crownedFirst at hend
  split at hend
  case h_2 => cases hend
  case h_1 t hslot =>
    have htypes := beq_iff_eq.1 hend
    exact ⟨e, he, t, hslot, htypes, by simp [htypes, IsBody]⟩

end BlockStudio
