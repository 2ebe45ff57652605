import BlockStudio.Editor.Picture
import BlockStudio.Proofs.Adding
import BlockStudio.Proofs.Steady

/-!
# Opening a project that cannot be read

Opening a file empties the workspace as soon as the file is known to hold JSON, and takes the stacks
one after the other.  So a fault found before that point leaves the project as it was, and a fault
found after it leaves nothing of the old workspace; the declared variables are only replaced at the
very end and survive every fault.
-/

namespace BlockStudio

open Edit

variable {e e' : Editor} {f : Fault} {path : String} {json : Json}

namespace Editor

/-- What a file holds, once it is unpacked and parsed. -/
def projectIn (e : Editor) (path : String) : Except Fault Json :=
  e.scene.folder.readPacked path >>= projectJson

/-- A project whose first stack can be read. -/
def TakesStack (e : Editor) (json : Json) : Prop :=
  ∃ j rest id store, (json.item "stacks" >>= Json.walk) = .ok (j :: rest) ∧
    Saved.stack e.definitions j e.store = .ok id store

end Editor

/-! ## Taking stacks into the workspace -/

/-- The workspace got new stacks at its end; variables and dialog are the same. -/
structure TakesMore (e e' : Editor) : Prop where
  /-- The stacks that were there stay in front, and the others are new. -/
  workspace : ∃ new, e'.workspace = e.workspace ++ new ∧
    ∀ id ∈ new, e.store.allStacks.size ≤ id.index
  /-- No stack is taken away. -/
  more : e.store.allStacks.size ≤ e'.store.allStacks.size
  /-- The declared variables are the same. -/
  globals : e'.globals = e.globals
  /-- The dialog is the same. -/
  dialog : e'.dialog = e.dialog

instance : IsPreorder Editor TakesMore where
  refl e := ⟨⟨[], by simp⟩, le_rfl, rfl, rfl⟩
  trans e1 e2 e3 h k := by
    obtain ⟨new, hw, hnew⟩ := h.workspace
    obtain ⟨newer, kw, knew⟩ := k.workspace
    refine ⟨⟨new ++ newer, by simp [hw, kw], fun id hid => ?_⟩, h.more.trans k.more,
      k.globals.trans h.globals, k.dialog.trans h.dialog⟩
    rcases List.mem_append.1 hid with hid | hid
    · exact hnew id hid
    · exact Nat.le_trans h.more (knew id hid)

theorem takesMore_of_unseen (h : Same Editor.unseen e e') : TakesMore e e' := by
  have h : e'.unseen = e.unseen := h
  have hst : e'.store.undrawn = e.store.undrawn := congrArg (fun e : Editor => e.store) h
  have hw : e'.workspace = e.workspace := (congrArg Editor.workspace h :)
  refine ⟨⟨[], by simp [hw]⟩, ?_, (congrArg Editor.globals h :),
    (congrArg Editor.dialog h :)⟩
  have hs : e'.store.allStacks = e.store.allStacks := (congrArg Store.allStacks hst :)
  exact Nat.le_of_eq (by rw [hs])

/-- The editor with another store and one more stack in the workspace, not yet drawn. -/
def Editor.withStack (e : Editor) (s : Store) (t : StackId) : Editor :=
  { e.withStore s with workspace := e.workspace ++ [t], renderings := e.renderings ++ [none] }

theorem takeStack_run (json : Json) (i : Nat) (e : Editor) :
    takeStack json i e = match Saved.stack e.definitions json e.store with
      | .ok t s => redraw i (e.withStack s t)
      | .error f s => .error f (e.withStore s) := by
  unfold takeStack
  rw [bind_run, readStack]
  cases Saved.stack e.definitions json e.store <;> rfl

theorem keeps_takeStacks {R : Editor → Editor → Prop} [IsPreorder Editor R] {jsons : List Json}
    (h : ∀ json ∈ jsons, ∀ i, Keeps R (takeStack json i)) (i : Nat) :
    Keeps R (takeStacks i jsons) := by
  induction jsons generalizing i with
  | nil => exact .pure _
  | cons json rest ih =>
    obtain ⟨hj, hr⟩ := List.forall_mem_cons.1 h
    exact .bind (hj i) fun _ => ih hr (i + 1)

theorem takesMore_redraw (i : Int) : Keeps TakesMore (redraw i) :=
  (displays_redraw i).mono fun _ _ => takesMore_of_unseen

theorem takesMore_takeStack (j : Json) (i : Nat) : Keeps TakesMore (takeStack j i) := by
  constructor
  intro e
  have hr := Store.supplies_stack e.definitions j
  rw [takeStack_run]
  cases h : Saved.stack e.definitions j e.store with
  | error f store => exact ⟨⟨[], by simp [endState, Editor.withStore]⟩, (hr.adds.error h).stacks_le, rfl, rfl⟩
  | ok id store =>
    obtain ⟨ha, hb⟩ := hr.ok h
    have hn : ∀ id' ∈ [id], e.store.allStacks.size ≤ id'.index := by
      simpa using (hb id (by simp)).1
    refine trans_of TakesMore ?_ ((takesMore_redraw i).run _)
    exact ⟨⟨[id], rfl, hn⟩, ha.stacks_le, rfl, rfl⟩

theorem takesMore_takeStacks (i : Nat) (saved : List Json) : Keeps TakesMore (takeStacks i saved) :=
  keeps_takeStacks (fun json _ => takesMore_takeStack json) i

/-! ## Loading -/

namespace Editor

/-- The editor with an empty workspace. -/
def cleared (e : Editor) : Editor := { e with workspace := [], renderings := [] }

end Editor

theorem projectIn_error (h : e.scene.folder.readPacked path = .error f) : e.projectIn path = .error f := by
  rw [Editor.projectIn, h]
  rfl

theorem loadProject_unreadable (h : e.projectIn path = .error f) :
    loadProject path e = .error f e := by
  unfold loadProject
  unfold Editor.projectIn at h
  rw [get_bind, h]
  rfl

theorem loadProject_readable (h : e.projectIn path = .ok json) : loadProject path e = (do
      let saved ← ofExcept (json.item "stacks" >>= Json.walk)
      takeStacks 0 saved
      let names ← Edit.ofExcept (json.item "globals" >>= Json.walk)
      let names ← Edit.ofExcept (names.mapM Json.nameValue)
      modify fun e : Editor => { e with globals := names.foldl (fun ns n => insertName n ns) [] })
      e.cleared := by
  unfold loadProject
  unfold Editor.projectIn at h
  rw [get_bind, h]
  rfl

/-- What opening a project as a whole does. -/
theorem loadProject_eq_ok {u : Unit} (h : loadProject path e = .ok u e') :
    ∃ json jsons names values e1, e.projectIn path = .ok json ∧
      (json.item "stacks" >>= Json.walk) = .ok jsons ∧ takeStacks 0 jsons e.cleared = .ok () e1 ∧
      (json.item "globals" >>= Json.walk) = .ok names ∧ names.mapM Json.nameValue = .ok values ∧
      { e1 with globals := values.foldl (fun ns n => insertName n ns) [] } = e' := by
  unfold loadProject at h
  rw [get_bind] at h
  obtain ⟨json, hjs, h⟩ := ofExcept_bind_eq_ok.1 h
  rw [modify_bind] at h
  obtain ⟨jsons, hj, h⟩ := ofExcept_bind_eq_ok.1 h
  obtain ⟨_, e1, ht, h⟩ := bind_eq_ok.1 h
  obtain ⟨names, hn, h⟩ := ofExcept_bind_eq_ok.1 h
  obtain ⟨values, hv, h⟩ := ofExcept_bind_eq_ok.1 h
  exact ⟨json, jsons, names, values, e1, hjs, hj, ht, hn, hv, modify_eq_ok.1 h⟩

theorem keeps_loadProject {R : Editor → Editor → Prop} [IsPreorder Editor R]
    (hc : ∀ e : Editor, R e e.cleared) (ht : ∀ json i, Keeps R (takeStack json i))
    (hg : ∀ (e : Editor) globals, R e { e with globals }) (path : String) :
    Keeps R (loadProject path) := by
  unfold loadProject
  refine .bind .get fun _ => .bind (.ofExcept _) fun _ => ?_
  refine .bind (.modify hc) fun _ => .bind (.ofExcept _) fun saved => ?_
  refine .bind (keeps_takeStacks (fun json _ => ht json) 0) fun _ => .bind (.ofExcept _) fun _ => ?_
  exact .bind (.ofExcept _) fun _ => .modify fun _ => hg _ _

/-- When reading goes wrong after the file was parsed, all that was done is that the stacks of the
file were taken, up to the fault. -/
theorem loadProject_error (hj : e.projectIn path = .ok json) (h : loadProject path e = .error f e') :
    ((∃ g, (json.item "stacks" >>= Json.walk) = .error g) ∧ e' = e.cleared) ∨
      ∃ saved, (json.item "stacks" >>= Json.walk) = .ok saved ∧
        e' = endState (takeStacks 0 saved e.cleared) := by
  rw [loadProject_readable hj] at h
  obtain h | ⟨saved, e1, h1, h⟩ := bind_eq_error.1 h
  · obtain ⟨hs, rfl⟩ := ofExcept_eq_error.1 h
    exact .inl ⟨⟨f, hs⟩, rfl⟩
  obtain ⟨hs, rfl⟩ := ofExcept_eq_ok.1 h1
  refine .inr ⟨saved, hs, ?_⟩
  obtain h | ⟨_, e2, h2, h⟩ := bind_eq_error.1 h
  · exact (congrArg endState h).symm
  -- The names are read without a change, so the editor is the one that the stacks left.
  have h2 := (congrArg endState h2).symm
  obtain h | ⟨names, e3, h3, h⟩ := bind_eq_error.1 h
  · obtain ⟨-, rfl⟩ := ofExcept_eq_error.1 h
    exact h2
  obtain ⟨-, rfl⟩ := ofExcept_eq_ok.1 h3
  obtain h | ⟨names, e4, h4, h⟩ := bind_eq_error.1 h
  · obtain ⟨-, rfl⟩ := ofExcept_eq_error.1 h
    exact h2
  · cases h

/-- Whether the first of some stacks can be read decides whether a cleared editor takes any. -/
theorem takeStacks_cleared (e : Editor) (i : Nat) (saved : List Json) :
    let e' := endState (takeStacks i saved e.cleared)
    ((∃ j rest id store, saved = j :: rest ∧ Saved.stack e.definitions j e.store = .ok id store) →
        e'.workspace ≠ []) ∧
      ((¬∃ j rest id store, saved = j :: rest ∧
          Saved.stack e.definitions j e.store = .ok id store) →
        e'.workspace = [] ∧ e'.renderings = []) := by
  intro e'
  constructor
  · rintro ⟨j, rest, id, store, rfl, h⟩
    have ht : takeStack j i e.cleared = redraw i (e.cleared.withStack store id) := by
      rw [takeStack_run, show Saved.stack e.cleared.definitions j e.cleared.store = _ from h]
    have hr := bind_run_congr ht fun _ => takeStacks (i + 1) rest
    have hm : Keeps TakesMore (redraw i >>= fun _ => takeStacks (i + 1) rest) :=
      .bind (takesMore_redraw i) fun _ => takesMore_takeStacks ..
    obtain ⟨new, hn, -⟩ := (hm.run _).workspace
    have : e'.workspace = [id] ++ new := by
      rw [← hr] at hn
      exact hn
    simp [this]
  · intro hno
    cases saved with
    | nil => exact ⟨rfl, rfl⟩
    | cons j rest =>
      cases h : Saved.stack e.definitions j e.store with
      | ok id store => exact absurd ⟨j, rest, id, store, rfl, h⟩ hno
      | error f store =>
        have ht : takeStack j i e.cleared = .error f (e.cleared.withStore store) := by
          rw [takeStack_run, show Saved.stack e.cleared.definitions j e.cleared.store = _ from h]
        have : e' = e.cleared.withStore store := congrArg endState (bind_eq_error.2 (.inl ht))
        simp [this, Editor.cleared, Editor.withStore]

/-- A fault after parsing leaves a workspace with stacks of the file only, and none when the first
one cannot be read. -/
theorem workspace_of_loadProject_error (hj : e.projectIn path = .ok json)
    (h : loadProject path e = .error f e') :
    TakesMore e.cleared e' ∧ (e.TakesStack json → e'.workspace ≠ []) ∧
      (¬e.TakesStack json → e'.workspace = [] ∧ e'.renderings = []) := by
  obtain ⟨⟨g, hs⟩, rfl⟩ | ⟨saved, hs, rfl⟩ := loadProject_error hj h
  · refine ⟨refl_of TakesMore _, ?_, fun _ => ⟨rfl, rfl⟩⟩
    rintro ⟨j, rest, id, store, hr, -⟩
    rw [hs] at hr
    cases hr
  · have ht : e.TakesStack json ↔ ∃ j rest id store, saved = j :: rest ∧
        Saved.stack e.definitions j e.store = .ok id store := by
      simp [Editor.TakesStack, hs]
    rw [ht]
    exact ⟨(takesMore_takeStacks 0 saved).run _, takeStacks_cleared e 0 saved⟩

theorem loadProject_dialog (path : String) : Keeps (Same Editor.dialog) (loadProject path) := by
  refine keeps_loadProject (R := Same Editor.dialog) (fun _ => rfl) (fun json i => ?_) (fun _ _ => rfl) path
  exact (takesMore_takeStack json i).mono fun _ _ h => h.dialog

theorem showFileTrouble_keeps (part : Nat) :
    Keeps (Same fun e : Editor => (e.workspace, e.renderings, e.globals))
      (showFileTrouble part) := by
  refine .bind .get fun _ => .bind ?_ fun _ => .modify fun _ => rfl
  exact (Strokes.dialog ..).pictures.part
    (fun e : Editor => (e.workspace, e.renderings, e.globals)) fun _ => rfl

/-- An opening that ends with a dialog failed to load, and the dialog changed nothing more. -/
theorem load_failed_of_dialog (h : answerOpen .confirm path e = .ok () e') (hd : e'.dialog.isSome) :
    ∃ f e1, loadProject path { e with dialog := none } = .error f e1 ∧
      e'.workspace = e1.workspace ∧ e'.renderings = e1.renderings ∧ e'.globals = e1.globals := by
  have h : tryCatch (loadProject path) (fun _ => showFileTrouble 3)
      { e with dialog := none } = .ok () e' := h
  obtain h | ⟨f, e1, hl, h⟩ := tryCatch_eq_ok.1 h
  · have : e'.dialog = none := (loadProject_dialog path).ok h
    simp [this] at hd
  · have hk := (showFileTrouble_keeps 3).ok h
    simp only [Same, Prod.mk.injEq] at hk
    exact ⟨f, e1, hl, hk⟩

/-- After an opening that ends with a dialog the declared variables are as before.  The workspace and
what is seen of it are as before exactly when the file holds no JSON, or when there was nothing to
lose and not even the first stack of the file can be read.  A workspace that is not kept holds no
stack that was there before. -/
theorem failed_opening {e e' : Editor} {path : String}
    (hstacks : ∀ id ∈ e.workspace, id.index < e.store.allStacks.size)
    (h : Edit.answerOpen .confirm path e = .ok () e') (hd : e'.dialog.isSome) :
    e'.globals = e.globals ∧ ((e'.workspace = e.workspace ∧ e'.renderings = e.renderings) ↔
        (∀ json, e.projectIn path ≠ .ok json) ∨ e.workspace = [] ∧ e.renderings = [] ∧
            ∀ json, e.projectIn path = .ok json → ¬e.TakesStack json) ∧
      ∀ json, e.projectIn path = .ok json →
        ∀ id ∈ e'.workspace, e.store.allStacks.size ≤ id.index := by
  obtain ⟨f, e₁, hload, hw, hr, hg⟩ := load_failed_of_dialog h hd
  rw [hw, hr, hg]
  cases hj : e.projectIn path with
  | error g =>
    -- The file is not even parsed, and nothing was touched.
    rw [loadProject_unreadable (e := { e with dialog := none }) hj] at hload
    cases hload
    simp
  | ok json =>
    obtain ⟨hmore, htakes, hnone⟩ :=
      workspace_of_loadProject_error (e := { e with dialog := none }) hj hload
    obtain ⟨new, hnew, hfresh⟩ := hmore.workspace
    have hfresh : ∀ id ∈ e₁.workspace, e.store.allStacks.size ≤ id.index := by
      rw [hnew]
      exact hfresh
    refine ⟨hmore.globals, ?_, fun _ _ => hfresh⟩
    constructor
    · rintro ⟨hkept, hseen⟩
      -- A stack that is both old and new does not exist, so the workspace was empty before.
      have hempty : e₁.workspace = [] := by
        apply List.eq_nil_iff_forall_not_mem.2
        intro id hid
        have hold := hstacks id (hkept ▸ hid)
        exact Nat.not_lt.2 (hfresh id hid) hold
      have hno : ¬e.TakesStack json := fun ht => htakes ht hempty
      refine .inr ⟨hkept ▸ hempty, hseen ▸ (hnone hno).2, ?_⟩
      rintro _ ⟨⟩
      exact hno
    · rintro (hbad | ⟨hw₀, hr₀, hno⟩)
      · exact absurd rfl (hbad json)
      · rw [hw₀, hr₀]
        exact hnone (hno json rfl)

/-- An editor with one block in its workspace, and a file that holds an object without stacks. -/
def beforeHollowFile : Editor :=
  let (block, store) := Store.empty.addBlock (Catalogue.blocks.headD default) []
  let (stack, store) := store.addStack [block] (some [.int 0, .int 0])
  .blank 1200 900 Catalogue.blocks store [stack] ⟨[("hollow", .packed "\x7b\x7d")]⟩

theorem beforeHollowFile_fails :
    ∃ e', answerOpen .confirm "hollow" beforeHollowFile = .ok () e' ∧ e'.dialog.isSome ∧
      e'.workspace = [] := by
  have h : endsIn (answerOpen .confirm "hollow") beforeHollowFile
      (fun e' => e'.dialog.isSome && e'.workspace == []) = true := by decide +kernel
  obtain ⟨_, e', hr, he⟩ := exists_of_endsIn h
  simp only [Bool.and_eq_true, beq_iff_eq] at he
  exact ⟨e', hr, he⟩

theorem failed_opening_of_hollow_file :
    ∃ e', Edit.answerOpen .confirm "hollow" beforeHollowFile = .ok () e' ∧ e'.dialog.isSome ∧
      (∀ id ∈ beforeHollowFile.workspace, id.index < beforeHollowFile.store.allStacks.size) ∧
      e'.globals = beforeHollowFile.globals ∧
      ¬(e'.workspace = beforeHollowFile.workspace ∧
        e'.renderings = beforeHollowFile.renderings) := by
  obtain ⟨e', hrun, hd, -⟩ := beforeHollowFile_fails
  have hstacks : ∀ id ∈ beforeHollowFile.workspace,
      id.index < beforeHollowFile.store.allStacks.size := by decide +kernel
  have hjson : beforeHollowFile.projectIn "hollow" = .ok (.object []) := by rfl
  obtain ⟨hglobals, hkept, -⟩ := failed_opening hstacks hrun hd
  refine ⟨e', hrun, hd, hstacks, hglobals, ?_⟩
  rw [hkept]
  rintro (hbad | ⟨hempty, -⟩)
  · exact hbad _ hjson
  · exact absurd hempty (by decide +kernel)

/-- Opening that file shows the dialog, and the block is gone from the workspace. -/
theorem failed_opening_loses_stack :
    ∃ e', Edit.answerOpen .confirm "hollow" beforeHollowFile = .ok () e' ∧ e'.dialog.isSome ∧
      beforeHollowFile.workspace = [⟨1⟩] ∧ e'.workspace = [] := by
  obtain ⟨e', hrun, hd, hempty⟩ := beforeHollowFile_fails
  exact ⟨e', hrun, hd, by decide +kernel, hempty⟩

end BlockStudio
