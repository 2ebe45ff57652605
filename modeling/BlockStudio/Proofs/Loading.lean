import BlockStudio.Proofs.EditorSteps
import BlockStudio.Proofs.Opening
import BlockStudio.Proofs.Tree

/-!
# Opening saved projects

Opening a file that was written by saving is a sequence of changes: the workspace is cleared and the
saved stacks come in one after the other.  Where opening fails on the way, what came in by then
stays, and the state is steady all the same.
-/

namespace BlockStudio

open Store

/-- A text was written for a project whose forest has the property `saved`. -/
def Saves (saved : Forest → Prop) (text : String) : Prop :=
  ∃ e0 : Editor, e0.core.Steady ∧ saved e0.forest ∧
    projectText e0.store e0.workspace e0.globals = .ok text

variable {saved : Forest → Prop} {e e' : Editor} {r : StackId} {jsons : List Json} {names : List Value}
  {src : Store} {vs : List Value} {n : Nat} {json : Json} {e0 : Editor} {path text : String}

/-- Taking a saved stack into the workspace: it is read in part, or it is read and drawn. -/
inductive Retakes (named : Value → Prop) (src : Store) (r : StackId) (json : Json) (i : Nat) (e : Editor) :
    Prop where
  | part {f : Fault} {s : Store} {vs : List Value}
    (hsprouts : Sprouts src.bare e.store.bare s.bare vs) (hfresh : Fresh e.store.bare s.bare vs)
    (hlasts : src.Housed → e.store.Lasts s) (hrun : Edit.takeStack json i e = .error f (e.withStore s))
  | whole {t : StackId} {s : Store} (hsprouts : Sprouts src.bare e.store.bare s.bare [.stack t])
    (hfresh : Fresh e.store.bare s.bare [.stack t])
    (hbrings : Brings named (fun _ => False) e.store.bare s.bare)
    (htypes : s.bare.types t = src.bare.types r) (hlasts : src.Housed → e.store.Lasts s)
    (hlocated : src.Housed → src.Located r → s.Located t)
    (hrun : Edit.takeStack json i e = Edit.redraw i (e.withStack s t))

theorem Store.types_bare (s : Store) (t : StackId) : s.bare.types t = s.types t := by simp [types]

theorem Store.Sprouts.of_bare {s s' : Store} (h : Sprouts src s s' vs) :
    Sprouts src.bare s s' vs := by
  refine { h with body := fun b i t hb ht => ?_ }
  obtain ⟨u, ⟨c, j, hu⟩, hty⟩ := h.body b i t hb ht
  exact ⟨u, ⟨c, j, (slot?_bare ..).trans hu⟩, hty.trans (types_bare src u).symm⟩

theorem retakes_saved {named live : Value → Prop} (hsr : src.Sound) (hti : src.Tidy named live)
    (hr : live (.stack r)) (hj : src.IsSaved n (.stack r) json) (hs : e.store.bare.Sound)
    (hd : e.definitions = Catalogue.blocks) (i : Nat) : Retakes named src r json i e := by
  have hre := rereads_savedStack hsr hti hr hj e.store hs
  have hru := takeStack_run json i e
  rw [hd] at hru
  cases h : Saved.stack Catalogue.blocks json e.store with
  | error f s =>
    rw [h] at hre hru
    obtain ⟨⟨vs, hsp, hf⟩, hla⟩ := hre
    exact .part hsp.of_bare hf hla hru
  | ok t s =>
    rw [h] at hre hru
    obtain ⟨hsp, hf, hb, hla, hre | ⟨_, ht, hty⟩, hho⟩ := hre
    · cases hre
    cases ht
    rw [← types_bare src] at hty
    refine .whole hsp.of_bare hf hb hty hla (fun hh hl => ?_) hru
    obtain h | ⟨_, h, hl⟩ := hho hh (.inr ⟨r, rfl, hl⟩) <;> cases h
    exact hl

section TakeStack

variable {e0 : Editor} {F0 : Forest} {s : Store}

theorem retakes_steady (hs0 : e0.core.Steady) (hr : r ∈ e0.workspace)
    (hj : e0.store.IsSaved n (.stack r) json) (hs : e.core.Steady) (i : Nat) :
    Retakes (fun _ => True) e0.store r json i e := by
  have hsr := Sound.of_bare hs0.forest.store
  refine retakes_saved hsr hsr.tidy ?_ hj hs.forest.store hs.definitions i
  simpa [Has, Editor.core, Editor.forest] using hs0.forest.root_lt r (Forest.workspace_subset_roots hr)

/-- A stack that was read comes into the workspace. -/
theorem Moves.withStack (h0 : saved F0) {t : StackId} (hr : r ∈ F0.workspace)
    (h : Sprouts F0.store e.store.bare s.bare [.stack t])
    (hfr : Fresh e.store.bare s.bare [.stack t]) (ht : s.bare.types t = F0.store.types r) :
    Moves saved e (e.withStack s t) := by
  have hle : e.store.bare.allStacks.size ≤ t.index := (h.loose_stack t (by simp)).1
  refine moves_forest (F := ⟨s.bare, e.workspace ++ [t], e.cursor⟩) rfl (fun _ => ?_)
    (fun hs => hs.pictured.append t) fun hs m hm => ?_
  · exact .single (.load (F := e.forest) h0 hr h hfr ht)
  · have hf := hs.menu m hm
    refine hf.append h.grown.blocks_le h.grown.stacks_le hf.not_dragged rfl ?_
    rintro rfl
    exact absurd hf.stack_lt (Nat.not_lt_of_le hle)

/-- A stack that was read in part leaves blocks in the store. -/
theorem Moves.readPart (h0 : saved F0) (h : Sprouts F0.store e.store.bare s.bare vs)
    (hf : Fresh e.store.bare s.bare vs) : Moves saved e (e.withStore s) := by
  have hb := h.grown.blocks_le
  have hs := h.grown.stacks_le
  simp only [size_blocks_bare, size_allStacks_bare] at hb hs
  exact .withStore hb hs fun _ => .single (.grow (F := e.forest) h0 h hf)

/-- A saved stack comes into the workspace, or is read in part. -/
theorem moves_takeStack (h0 : saved e0.forest) (hs0 : e0.core.Steady) (hr : r ∈ e0.workspace)
    (hj : e0.store.IsSaved n (.stack r) json) (i : Nat) :
    Keeps (Moves saved) (Edit.takeStack json i) := by
  constructor
  intro e hs
  cases retakes_steady hs0 hr hj hs i with
  | part hsp hf _ hru =>
    rw [hru]
    exact Moves.readPart h0 hsp hf hs
  | @whole t s hsp hf _ ht _ _ hru =>
    rw [hru]
    exact Moves.trans (.withStack h0 hr hsp hf ht)
      ((moves_redraw i).run (e.withStack s t)) hs

end TakeStack

/-! ## Whole projects -/

theorem Moves.clear : Moves saved e e.cleared := by
  refine moves_forest (F := ⟨e.store.bare, [], e.cursor⟩) rfl (fun _ => ?_)
    (fun _ => ⟨rfl, by simp [Editor.cleared]⟩) fun hs m hm => ?_
  · exact .single (.clear (F := e.forest))
  · have hf := hs.menu m hm
    exact { hf with index := fun h => absurd h List.not_mem_nil }

/-- The names of variables are read back as they were. -/
theorem mapM_nameValue (h : List.Forall₂ (src.IsSaved 0) names jsons)
    (hn : ∀ v ∈ names, v.Literal) : jsons.mapM Json.nameValue = .ok names := by
  refine mapM_eq_ok.2 (List.Forall₂.flip (((List.forall₂_and_left _ _).2 ⟨hn, h⟩).imp ?_))
  rintro v j ⟨hv, hj⟩
  cases v with
  | none | bool _ | text _ =>
    obtain rfl : j = _ := hj
    rfl
  | _ => exact hv.elim

theorem mem_foldl_insertName {start : List Value} {v : Value}
    (h : v ∈ names.foldl (fun ns n => insertName n ns) start) : v ∈ names ∨ v ∈ start := by
  induction names generalizing start with
  | nil => exact .inr h
  | cons n names ih =>
    rcases ih h with h | h
    · exact .inl (List.mem_cons_of_mem _ h)
    · rcases mem_insertName h with rfl | h
      · exact .inl List.mem_cons_self
      · exact .inr h

/-- Opening a file that holds a saved project. -/
theorem loadProject_saved (hs0 : e0.core.Steady)
    (hp : projectText e0.store e0.workspace e0.globals = .ok text)
    (ht : e.scene.folder.readPacked path = .ok text) :
    ∃ jsons, List.Forall₂ (fun r => e0.store.IsSaved e0.store.depth (.stack r)) e0.workspace jsons ∧
      Edit.loadProject path e = (do
        Edit.takeStacks 0 jsons
        modify fun e : Editor => {
          e with globals := e0.globals.foldl (fun ns n => insertName n ns) [] }) e.cleared := by
  obtain ⟨jsons, names, hj, hs, hn⟩ :=
    projectJson_projectText (.of_bare hs0.forest.store) hs0.globals hp
  have hr : e.projectIn path = projectJson text := by
    rw [Editor.projectIn, ht]
    rfl
  refine ⟨jsons, hs, (loadProject_readable (hr.trans hj)).trans ?_⟩
  exact congrArg (fun names => (do
    Edit.takeStacks 0 jsons
    let names ← Edit.ofExcept names
    modify fun e : Editor => { e with globals := names.foldl (fun ns n => insertName n ns) [] }) e.cleared)
    (mapM_nameValue hn hs0.globals)

/-- What the steps of opening a saved project keep, the whole keeps. -/
theorem keeps_loadProject_saved {R : Editor → Editor → Prop} [IsPreorder Editor R]
    (hs0 : e0.core.Steady) (hp : projectText e0.store e0.workspace e0.globals = .ok text)
    (hte : e.scene.folder.readPacked path = .ok text) (hc : R e e.cleared)
    (ht : ∀ r json i, r ∈ e0.workspace → e0.store.IsSaved e0.store.depth (.stack r) json →
      Keeps R (Edit.takeStack json i))
    (hg : ∀ (e : Editor) globals, (∀ v ∈ globals, v.Literal) → R e { e with globals }) :
    R e (endState (Edit.loadProject path e)) := by
  obtain ⟨jsons, hs, hru⟩ := loadProject_saved hs0 hp hte
  rw [hru]
  refine trans_of R hc (Keeps.run (.bind (keeps_takeStacks (fun json hj i => ?_) 0) fun _ =>
    .modify fun e => hg e _ fun v hv => ?_) _)
  · obtain ⟨r, hr, hsa⟩ := exists_of_forall₂_left hs.flip hj
    exact ht r json i hr hsa
  · exact hs0.globals v ((mem_foldl_insertName hv).resolve_right List.not_mem_nil)

theorem Moves.loadProject (h : ∀ text, e.scene.folder.readPacked path = .ok text → Saves saved text) :
    Moves saved e (endState (Edit.loadProject path e)) := by
  cases ht : e.scene.folder.readPacked path with
  | error f =>
    rw [loadProject_unreadable (projectIn_error ht)]
    exact refl e
  | ok text =>
    obtain ⟨e0, hs0, h0, hp⟩ := h text ht
    exact keeps_loadProject_saved hs0 hp ht .clear
      (fun _ _ i hr hj => moves_takeStack h0 hs0 hr hj i) fun _ _ hv => .globals fun _ => hv

end BlockStudio
