import BlockStudio.Proofs.Loading
import BlockStudio.Proofs.Measuring
import BlockStudio.Proofs.NormalForm

/-!
# Saving a project and opening it again

A project whose stacks show storable trees is saved without trouble, and opening the file gives stacks
that show the same trees in the same order, and the same variables.  Opening draws the stacks one
after the other; this cannot fail because storable trees can be drawn and have a place.
-/

namespace BlockStudio

open Edit Store List Tree

variable {r : StackId} {workspace : List StackId} {names : List String} {path text : String}
  {e : Editor} {t : Tree} {s : Store} {ts trees : List Tree} {v : Value} {w h : Int}

/-! ## The folder -/

namespace Folder

variable {f g : Folder} {path : String} {entry : Entry}

/-- A file can be written under a name. -/
def Writable (f : Folder) (path : String) : Prop := ∃ g, f.write path (.packed "") = .ok g

theorem lookup_replace {entries : List (String × Entry)} (h : (entries.lookup path).isSome)
    (entry : Entry) :
    (entries.map fun e => if e.1 = path then (path, entry) else e).lookup path = some entry := by
  induction entries with
  | nil => cases h
  | cons e entries ih =>
    obtain ⟨name, old⟩ := e
    by_cases hn : name = path
    · simp [hn]
    · have hb : (path == name) = false := by simpa using Ne.symm hn
      rw [lookup_cons, hb] at h
      rw [map_cons, if_neg hn, lookup_cons, hb]
      exact ih h

theorem find?_put (f : Folder) (path : String) (entry : Entry) :
    (f.put path entry).find? path = some entry := by
  unfold put
  split
  · next h => exact lookup_replace h entry
  · next h =>
    have hn : f.entries.lookup path = none := Option.not_isSome_iff_eq_none.1 h
    simp [find?, lookup_append, hn]

/-- What is written can be read. -/
theorem Writable.exists_write (h : f.Writable path) (text : String) :
    ∃ g, f.write path (.packed text) = .ok g ∧ g.readPacked path = .ok text := by
  obtain ⟨g, hg⟩ := h
  have hp : f.write path (.packed text) = .ok (f.put path (.packed text)) := by
    unfold write at hg ⊢
    split at hg
    · cases hg
    · split at hg
      · cases hg
      · split at hg
        · cases hg
        · simp_all
        · simp_all
        · split at hg
          · simp_all
          · cases hg
  have hz : path.toList.contains '\x00' = false := by
    by_contra hz
    rw [write, if_pos (by simpa using hz)] at hg
    cases hg
  refine ⟨_, hp, ?_⟩
  rw [readPacked, open?, hz, find?_put]
  rfl

end Folder

/-! ## Trees and their saved forms -/

namespace Tree

/-- What the saved form of a tree stands for. -/
def role : Tree → Json.Role
  | block .. => .block
  | stack .. => .stack
  | _ => .value

theorem placeJson_eq (p : Option (List Num)) : placeJson p = .ofPlace (p.map (·.map numberJson)) := by
  cases p <;> rfl

theorem isLiteral_place (p : Option (List Num)) :
    ∀ items ∈ p.map (·.map numberJson), ∀ j ∈ items, j.isLiteral = true := by
  rintro _ hp j hj
  obtain ⟨ns, -, rfl⟩ := Option.map_eq_some_iff.1 hp
  obtain ⟨n, -, rfl⟩ := mem_map.1 hj
  cases n <;> rfl

/-- The saved form of a tree of blocks of the catalogue is well formed, and its own normal form. -/
theorem Known.valid (h : t.Known) :
    Json.Valid Catalogue.blocks t.role t.json ∧ t.json.normal Catalogue.blocks = t.json := by
  have hm {ts : List Tree} (ih : ∀ t ∈ ts, t.json.normal Catalogue.blocks = t.json) :
      (ts.map json).map (Json.normal Catalogue.blocks) = ts.map json := by
    rw [map_map]
    exact map_congr_left ih
  induction t with
  | nothing | truth _ | text _ => exact ⟨.literal rfl, rfl⟩
  | number n => cases n <;> exact ⟨.literal rfl, rfl⟩
  | block d ts ih =>
    have hts := fun t ht => ih t ht (h.of_mem_block ht)
    rw [json, jsons_eq_map]
    refine ⟨.known (.refl _) (find?_id h.1) (forall_mem_map.2 fun t ht => (hts t ht).1.value), ?_⟩
    rw [Json.normal_known (.refl _) (find?_id h.1), hm fun t ht => (hts t ht).2]
  | stack p ts ih =>
    have hts := fun t ht => ih t ht (h.of_mem_stack ht)
    have hb : ∀ t ∈ ts, Json.Valid Catalogue.blocks .block t.json := fun t ht => by
      have hv := (hts t ht).1
      have hbl := h.1 t ht
      cases t with
      | block => exact hv
      | _ => exact hbl.elim
    rw [json, jsons_eq_map, placeJson_eq]
    refine ⟨.stack (.refl _) (forall_mem_map.2 hb) (isLiteral_place p), ?_⟩
    rw [Json.normal_stack (.refl _) (isLiteral_place p), hm fun t ht => (hts t ht).2]

end Tree

theorem forall₂_spells_iff {α : Type} {f : α → Value} {l : List α}
    (h : ∀ t ∈ ts, ∀ v, s.Spells Catalogue.blocks t.json v ↔ s.Shows t v) :
    List.Forall₂ (fun j x => s.Spells Catalogue.blocks j (f x)) (ts.map json) l ↔
      List.Forall₂ (fun t x => s.Shows t (f x)) ts l := by
  rw [forall₂_map_left_iff]
  exact ⟨fun hts => forall₂_of_mem hts fun t x ht _ => (h t ht _).1,
    fun hts => forall₂_of_mem hts fun t x ht _ => (h t ht _).2⟩

/-- What is saved as a tree of blocks of the catalogue shows it. -/
theorem spells_json_iff (h : t.Known) : s.Spells Catalogue.blocks t.json v ↔ s.Shows t v := by
  have hli {j : Json} (hj : j.isLiteral = true) {v : Value} :
      s.Spells Catalogue.blocks j v ↔ v = j.plainValue :=
    ⟨fun h => h.eq_plainValue hj, fun h => h ▸ .literal hj⟩
  induction t generalizing v with
  | nothing | truth _ | text _ => exact hli rfl
  | number n => cases n <;> exact hli rfl
  | block d ts ih =>
    have ha {vs : List Value} := forall₂_spells_iff (f := fun v => v) (l := vs) fun t ht v =>
      ih t ht (h.of_mem_block ht)
    rw [json, jsons_eq_map, shows_block]
    constructor
    · intro hs
      obtain ⟨b, rfl, hb, hd, hv⟩ := hs.exists_block (ids_ne_deprecated d h.1)
      exact ⟨b, rfl, hb, Option.some.inj (hd.symm.trans (find?_id h.1)), ha.1 hv⟩
    · rintro ⟨b, rfl, hb, rfl, hv⟩
      obtain ⟨hl, hz⟩ := forall₂_iff_zip.1 (ha.2 hv)
      exact .block hb rfl (find?_id h.1) hl fun j v => hz
  | stack p ts ih =>
    have ha {bs : List BlockId} := forall₂_spells_iff (f := Value.block) (l := bs) fun t ht v =>
      ih t ht (h.of_mem_stack ht)
    have hpl : (p.map (·.map numberJson)).map (·.map Json.plainValue) =
        p.map (·.map Value.num) := by
      rw [Option.map_map]
      refine congrArg (Option.map · p) (funext fun ns => ?_)
      rw [Function.comp, map_map]
      exact map_congr_left fun n _ => by cases n <;> rfl
    rw [json, jsons_eq_map, placeJson_eq, shows_stack, ← hpl]
    constructor
    · intro hs
      obtain ⟨r, rfl, hr, hp, hbl⟩ := hs.exists_stack
      exact ⟨r, rfl, hr, hp, ha.1 hbl⟩
    · rintro ⟨r, rfl, hr, hp, hbl⟩
      obtain ⟨hl, hz⟩ := forall₂_iff_zip.1 (ha.2 hbl)
      exact .stack hr (isLiteral_place p) hp hl fun j b => hz

/-- Reading the saved form of a stack of blocks of the catalogue into any store puts blocks and stacks
there that show the same tree. -/
theorem exists_readTree {p : Option (List Num)} (h : (stack p ts).Known) (s : Store) :
    ∃ r s', Saved.stack Catalogue.blocks (stack p ts).json s = .ok r s' ∧ Retains s s' ∧
      s'.Shows (.stack p ts) (.stack r) := by
  obtain ⟨r, s', hre, hr, hs⟩ := writes_of_valid h.valid.1 s
  rw [h.valid.2, spells_json_iff h] at hs
  exact ⟨r, s', hre, hr, hs⟩

/-! ## Storable trees -/

/-- A number that can be a coordinate: a double, or an integer in the reach of doubles. -/
def Num.InReach : Num → Prop
  | int n => (floatOfInt n).isInf = false
  | float _ => True

theorem Num.InReach.coordinate {n : Num} (h : n.InReach) : (Value.num n).coordinate = .ok n := by
  cases n with
  | int n =>
    have h : (floatOfInt n).isInf = false := h
    rw [Value.coordinate, h]
    rfl
  | float x => rfl

namespace Tree

/-- A tree that a project file can hold: a stack of blocks of the catalogue, with stacks or nothing in
slots for bodies, lossless numbers and a place. -/
structure Storable (t : Tree) : Prop where
  known : t.Known
  bodied : t.Bodied
  lossless : t.Lossless
  placed : ∃ x y ts, t = stack (some [x, y]) ts ∧ x.InReach ∧ y.InReach

/-- All pictures of a tree can be scaled by a factor. -/
def ScalesBy (zoom : Num) (t : Tree) : Prop :=
  ∀ (c : Canvas) (r : StackId) (full : Size) (c' : Canvas), c.store.Shows t (.stack r) →
    Sketch.stack r c = .ok full c' → ∃ scaled, full.scaleBy zoom = .ok scaled

/-- Every picture can be scaled by an integer. -/
theorem scalesBy_int (z : Int) (t : Tree) : t.ScalesBy (.int z) := fun _ _ _ _ _ _ => ⟨_, rfl⟩

end Tree

/-- Trees can be shown in the window: the camera has values, and pictures can be scaled by its
zoom. -/
structure Camera.CanShow (camera : Camera) (trees : List Tree) : Prop where
  x : ∃ x, camera.x.value = .ok x
  y : ∃ y, camera.y.value = .ok y
  zoom : ∃ zoom, camera.zoom.value = .ok zoom ∧ ∀ t ∈ trees, t.ScalesBy zoom

/-! ## Opening -/

/-- Some of the stacks of a project were taken: they show trees, and nothing else but the pictures
and the store has changed. -/
structure Loaded (e0 : Editor) (trees : List Tree) (e : Editor) : Prop where
  definitions : e.definitions = e0.definitions
  camera : e.camera = e0.camera
  dialog : e.dialog = e0.dialog
  shows : List.Forall₂ (fun t r => e.store.Shows t (.stack r)) trees e.workspace
  length : e.renderings.length = e.workspace.length

section Opening

variable {e0 e : Editor} {trees : List Tree}

theorem Loaded.retains {c : Canvas} (h : Loaded e0 trees e) (hc : e.store.Retains c.store) :
    Loaded e0 trees { e with canvas := c } :=
  { h with shows := h.shows.imp fun _ _ hr => hr.retains hc }

/-- Where a stack with a storable tree is in the window. -/
theorem exists_rendering (ht : t.Storable) (hr : e.store.Shows t (.stack r)) {full : Size}
    {zoom : Num} (hz : e.camera.zoom.value = .ok zoom) (hx : ∃ x, e.camera.x.value = .ok x)
    (hy : ∃ y, e.camera.y.value = .ok y) (hf : ∃ scaled, full.scaleBy zoom = .ok scaled) :
    ∃ rendering, e.rendering r full = .ok rendering := by
  obtain ⟨x, hx⟩ := hx
  obtain ⟨y, hy⟩ := hy
  obtain ⟨scaled, hs⟩ := hf
  obtain ⟨px, py, ts, rfl, hpx, hpy⟩ := ht.placed
  obtain ⟨_, _, heq, -, hpo, -⟩ := hr.exists_stack
  cases heq
  have hpl : (e.store.stack r).place = .ok ⟨px, py⟩ := by
    rw [Stack.place, hpo]
    exact except_bind_eq_ok.2 ⟨px, hpx.coordinate, except_bind_eq_ok.2 ⟨py, hpy.coordinate, rfl⟩⟩
  have hv : ∃ p, e.toView ⟨px, py⟩ = .ok p :=
    ⟨_, except_bind_eq_ok.2 ⟨zoom, hz,
      except_bind_eq_ok.2 ⟨x, hx, except_bind_eq_ok.2 ⟨y, hy, rfl⟩⟩⟩⟩
  obtain ⟨p, hp⟩ := hv
  exact ⟨_, except_bind_eq_ok.2 ⟨zoom, hz, except_bind_eq_ok.2 ⟨scaled, hs,
    except_bind_eq_ok.2 ⟨_, hpl, except_bind_eq_ok.2 ⟨p, hp, rfl⟩⟩⟩⟩⟩

section

variable (htrees : ∀ t ∈ trees, t.Storable)
include htrees

/-- Drawing a stack of the project that is being opened. -/
theorem completes_render (hca : e0.camera.CanShow trees) (hr : r ∈ workspace) :
    Completes False (fun e => Loaded e0 trees e ∧ e.workspace = workspace) (render r)
      fun _ => True := by
  obtain ⟨zoom, hz, hs⟩ := hca.zoom
  refine .of_run ?_
  rintro e ⟨he, rfl⟩
  obtain ⟨t, ht, hrt⟩ := exists_of_forall₂_left he.shows.flip hr
  obtain ⟨full, c, hd, -⟩ :=
    exists_sketch_stack (.refl _) (htrees t ht).known (htrees t ht).bodied hrt
  have hc := retains_of_undrawn_eq ((depicts_stack r).ok hd)
  have he' := he.retains hc
  have hsk : sketch (Sketch.stack r) e = .ok full { e with canvas := c } := by
    rw [sketch, hd]
  have hz' : e.camera.zoom.value = .ok zoom := he.camera ▸ hz
  obtain ⟨rendering, hre⟩ := exists_rendering (e := { e with canvas := c }) (htrees t ht)
    (hrt.retains hc) hz' (he.camera ▸ hca.x) (he.camera ▸ hca.y)
    (hs t ht e.canvas r full c hrt hd)
  refine ⟨rendering, _, bind_eq_ok.2 ⟨full, _, hsk, ?_⟩, ⟨he', rfl⟩, trivial⟩
  exact ofExcept_eq_ok.2 ⟨hre, rfl⟩

/-- Drawing the stack with a number and remembering where it is. -/
theorem completes_round (hc : e0.camera.CanShow trees) {p : StackId × Nat}
    (hp : p ∈ workspace.zipIdx) :
    Completes False (fun e => Loaded e0 trees e ∧ e.workspace = workspace) (do
      setRendering p.2 (← render p.1)
      return ForInStep.yield PUnit.unit) (· = .yield ⟨⟩) := by
  obtain ⟨hlt, hg⟩ := List.getElem?_eq_some_iff.1 (List.mk_mem_zipIdx_iff_getElem?.1 hp)
  have hs : ∀ r, Completes False (fun e => Loaded e0 trees e ∧ e.workspace = workspace)
      (setRendering p.2 r) fun _ => True := by
    intro r
    refine .of_run ?_
    rintro e ⟨he, rfl⟩
    rw [← he.length] at hlt
    refine ⟨⟨⟩, { e with renderings := e.renderings.set p.2 (some r) }, ?_, ⟨?_, rfl⟩, trivial⟩
    · show (if p.2 < e.renderings.length then _ else _ : Edit Unit) e = _
      rw [if_pos hlt]
      rfl
    · exact { he with length := by rw [length_set, he.length] }
  refine .andThen (completes_render htrees hc ?_) fun r => ?_
  · exact hg ▸ getElem_mem hlt
  · exact .andThen (hs r) fun _ => .pure rfl

/-- Drawing all stacks that were taken so far. -/
theorem completes_redraw (hc : e0.camera.CanShow trees) (i : Int) :
    Completes False (Loaded e0 trees) (redraw i) fun _ => True := by
  refine .of_run fun e he => ?_
  have hl : Completes False (fun e' => Loaded e0 trees e' ∧ e'.workspace = e.workspace)
      (forIn e.workspace.zipIdx PUnit.unit fun p _ => do
        setRendering p.2 (← render p.1)
        return ForInStep.yield PUnit.unit) fun _ => True :=
    .forIn _ fun p hp => completes_round htrees hc hp
  obtain ⟨_, e', hr, ⟨he', -⟩, -⟩ := hl.run ⟨he, rfl⟩
  by_cases hi : i < e.workspace.length
  · refine ⟨⟨⟩, e', ?_, he', trivial⟩
    show (if i < e.workspace.length then _ else _ : Edit Unit) e = _
    rw [if_pos hi]
    exact bind_eq_ok.2 ⟨_, _, hr, rfl⟩
  · refine ⟨⟨⟩, e, ?_, he, trivial⟩
    show (if i < e.workspace.length then _ else _ : Edit Unit) e = _
    rw [if_neg hi]
    rfl

end

/-- Taking the next stack of a project. -/
theorem exists_takeStack (htrees : ∀ u ∈ trees ++ [t], u.Storable)
    (hca : e0.camera.CanShow (trees ++ [t])) (hc : e0.definitions = Catalogue.blocks)
    (i : Nat) (he : Loaded e0 trees e) :
    ∃ e', takeStack t.json i e = .ok () e' ∧ Loaded e0 (trees ++ [t]) e' := by
  have ht := htrees t (by simp)
  obtain ⟨x, y, ts, rfl, -, -⟩ := ht.placed
  obtain ⟨r, store, hra, hre, hs⟩ := exists_readTree ht.known e.store
  have hl : Loaded e0 (trees ++ [.stack (some [x, y]) ts])
      { e with canvas := { e.canvas with store }, workspace := e.workspace ++ [r],
               renderings := e.renderings ++ [none] } :=
    { he with
      shows := rel_append (he.shows.imp fun _ _ hr => hr.retains hre) (.cons hs .nil)
      length := by simp [he.length] }
  obtain ⟨_, e', hrd, he', -⟩ := (completes_redraw htrees hca i).run hl
  refine ⟨e', bind_eq_ok.2 ⟨r, { e with canvas := { e.canvas with store } }, ?_, ?_⟩, he'⟩
  · rw [readStack, he.definitions, hc, hra]
  · exact hrd

theorem Camera.CanShow.mono {camera : Camera} {trees' : List Tree} (h : camera.CanShow trees)
    (hsu : ∀ t ∈ trees', t ∈ trees) : camera.CanShow trees' where
  x := h.x
  y := h.y
  zoom := by
    obtain ⟨zoom, hz, hs⟩ := h.zoom
    exact ⟨zoom, hz, fun t ht => hs t (hsu t ht)⟩

/-- Taking the stacks of a project one after the other. -/
theorem exists_takeStacks {rest : List Tree} (htrees : ∀ t ∈ trees ++ rest, t.Storable)
    (hc : e0.camera.CanShow (trees ++ rest)) (hca : e0.definitions = Catalogue.blocks)
    (i : Nat) (he : Loaded e0 trees e) :
    ∃ e', takeStacks i (rest.map json) e = .ok () e' ∧ Loaded e0 (trees ++ rest) e' := by
  induction rest generalizing trees i e with
  | nil => exact ⟨e, rfl, by rwa [append_nil]⟩
  | cons t rest ih =>
    rw [append_cons] at htrees hc ⊢
    have hs : ∀ u ∈ trees ++ [t], u ∈ trees ++ [t] ++ rest := fun u => mem_append_left rest
    obtain ⟨e1, h1, he1⟩ := exists_takeStack (fun u hu => htrees u (hs u hu))
      (hc.mono hs) hca i he
    obtain ⟨e2, h2, he2⟩ := ih htrees hc (i + 1) he1
    exact ⟨e2, bind_eq_ok.2 ⟨(), e1, h1, h2⟩, he2⟩

/-! ### Variables -/

theorem mem_insertName_self (name : String) {names : List Value}
    (h : ∀ v ∈ names, ∃ n, v = .text n) : .text name ∈ insertName (.text name) names := by
  induction names with
  | nil => exact mem_cons_self
  | cons v names ih =>
    obtain ⟨n, rfl⟩ := h v mem_cons_self
    unfold insertName
    split
    · next hs =>
      have hn : n = name := by simpa [Value.sameName, Value.identical, Value.equalPlain,
        Value.parts?] using hs
      rw [hn]
      exact mem_cons_self
    · split
      · exact mem_cons_self
      · exact mem_cons_of_mem _ (ih fun v hv => h v (mem_cons_of_mem _ hv))

theorem mem_insertName_of_mem (name : Value) {names : List Value} (h : v ∈ names) :
    v ∈ insertName name names := by
  induction names with
  | nil => cases h
  | cons n names ih =>
    unfold insertName
    split
    · exact h
    · split
      · exact mem_cons_of_mem _ h
      · rcases mem_cons.1 h with rfl | h
        · exact mem_cons_self
        · exact mem_cons_of_mem _ (ih h)

/-- Texts that are put among names one after the other are all there. -/
theorem mem_foldl_insertName_of_mem {start : List Value} (hs : ∀ v ∈ start, ∃ n, v = .text n)
    (h : v ∈ names.map Value.text ∨ v ∈ start) :
    v ∈ (names.map Value.text).foldl (fun ns n => insertName n ns) start := by
  induction names generalizing start with
  | nil => exact h.resolve_left not_mem_nil
  | cons n names ih =>
    refine ih (fun v hv => ?_) ?_
    · rcases mem_insertName hv with rfl | hv
      · exact ⟨n, rfl⟩
      · exact hs v hv
    · rcases h with h | h
      · rcases mem_cons.1 h with rfl | h
        · exact .inr (mem_insertName_self n hs)
        · exact .inl h
      · exact .inr (mem_insertName_of_mem _ h)

/-- Opening a project file. -/
theorem exists_loadProject (htrees : ∀ t ∈ trees, t.Storable) (hca : e.camera.CanShow trees)
    (hc : e.definitions = Catalogue.blocks) (hr : e.scene.folder.readPacked path = .ok text)
    (hj : projectJson text = .ok (projectForm trees names)) :
    ∃ e', loadProject path e = .ok () e' ∧ e'.dialog = e.dialog ∧
      List.Forall₂ (fun t r => e'.store.Shows t (.stack r)) trees e'.workspace ∧
      ∀ v, v ∈ e'.globals ↔ v ∈ names.map Value.text := by
  have hs : Loaded e [] { e with workspace := [], renderings := [] } :=
    ⟨rfl, rfl, rfl, .nil, rfl⟩
  obtain ⟨e1, ht, he1⟩ := exists_takeStacks htrees hca hc 0 hs
  have hn : (names.map Json.text).mapM Json.nameValue = .ok (names.map Value.text) := by
    refine mapM_eq_ok.2 (forall₂_map_left_iff.2 (forall₂_map_right_iff.2 ?_))
    exact forall₂_same.2 fun _ _ => rfl
  refine ⟨{ e1 with globals := (names.map Value.text).foldl (fun ns n => insertName n ns) [] },
    ?_, he1.dialog, he1.shows, fun v => ⟨fun hv => ?_, fun hv => ?_⟩⟩
  · unfold loadProject
    rw [get_bind]
    refine ofExcept_bind_eq_ok.2 ⟨projectForm trees names, ?_, ?_⟩
    · rw [hr]
      exact hj
    · rw [modify_bind]
      refine ofExcept_bind_eq_ok.2 ⟨trees.map json, rfl, ?_⟩
      refine bind_eq_ok.2 ⟨(), e1, ht, ?_⟩
      exact ofExcept_bind_eq_ok.2 ⟨names.map Json.text, rfl,
        ofExcept_bind_eq_ok.2 ⟨names.map Value.text, hn, rfl⟩⟩
  · exact (mem_foldl_insertName hv).resolve_right not_mem_nil
  · exact mem_foldl_insertName_of_mem (fun v hv => absurd hv not_mem_nil) (.inl hv)

end Opening

/-! ## Saving -/

theorem Paints.dialog {bad : Prop} {p : Store → Prop} {size window : Point} {box whole : Size}
    (hw : Size.make window.x window.y = .ok whole) (hs : Size.make size.x size.y = .ok box)
    (title message : String) (buttons : List Button) :
    Paints bad p (Dialog.make size window title message buttons) fun _ => True := by
  unfold Dialog.make
  refine .bind (ofExcept hw) fun _ _ => ?_
  refine .andThen (draw _) fun _ => ?_
  refine .bind (ofExcept hs) fun _ _ => ?_
  refine .andThen (draw _) fun _ => .bind (write ..) fun _ _ => ?_
  refine .andThen (draw _) fun _ => .andThen (draw _) fun _ => ?_
  refine .bind (write ..) fun _ _ => .andThen (draw _) fun _ => ?_
  refine .andThen (.forIn _ fun p _ => ?_) fun _ => ?_
  · refine .andThen (.bind (write ..) fun _ _ => ?_) fun _ => .pure rfl
    refine .andThen (draw _) fun _ => .andThen (draw _) fun _ => ?_
    exact .andThen (draw _) fun _ => draw _
  · exact .andThen (draw _) fun _ => .pure trivial

/-- A dialog can be shown in a window of whole size. -/
theorem exists_showDialog (hw : e.width = .int w) (hh : e.height = .int h) (part : Nat)
    (title message : String) (buttons : List Button) (purpose : Purpose) :
    ∃ e', showDialog part title message buttons purpose e = .ok () e' ∧ e'.scene = e.scene := by
  have hs : ∀ a b : Int, Size.make (.int a) (.int b) = .ok (.whole a b) := fun _ _ => rfl
  have hm : Paints False (fun _ => True) (Dialog.make ⟨e.width.floorDiv part, e.height.floorDiv 2⟩
      ⟨e.width, e.height⟩ title message buttons) fun _ => True := by
    rw [hw, hh]
    exact .dialog (hs w h) (hs (w.fdiv part) (h.fdiv 2)) ..
  obtain ⟨d, c, hd, -⟩ := hm.run (s := e.canvas) trivial
  refine ⟨{ e with canvas := c, dialog := some (d, purpose) }, ?_, rfl⟩
  refine bind_eq_ok.2 ⟨e, e, rfl, bind_eq_ok.2 ⟨d, { e with canvas := c }, ?_, rfl⟩⟩
  rw [sketch, hd]

/-- An event confirms the open dialog, with a text in its field. -/
def Editor.Confirms (e : Editor) (ev : Event) (purpose : Purpose) (text : String) : Prop :=
  ∃ d d', e.dialog = some (d, purpose) ∧ d.handle e.devices.mouse ev = (d', some .confirm) ∧
    d'.value = text

/-- Confirming a dialog answers it. -/
theorem Editor.Confirms.handle_eq {ev : Event} {purpose : Purpose} (h : e.Confirms ev purpose text) :
    ∃ d d', d'.value = text ∧ handle ev e =
        answerDialog d' purpose .confirm { e with dialog := some (d, purpose) } := by
  obtain ⟨d, d', hd, hp, ht⟩ := h
  refine ⟨d', d', ht, ?_⟩
  unfold handle
  rw [get_bind]
  simp only [hd]
  unfold handleDialog
  rw [get_bind, hp]
  rfl

/-- Confirming to save a project whose stacks show storable trees. -/
theorem exists_save {saving : Event} (hsa : e.Confirms saving .save path)
    (htrees : List.Forall₂ (fun t r => e.store.Shows t (.stack r)) trees e.workspace)
    (hs : ∀ t ∈ trees, t.Storable) (hn : e.globals = names.map .text)
    (hp : e.scene.folder.Writable path) (hw : e.width = .int w) (hh : e.height = .int h) :
    ∃ e' text, handle saving e = .ok () e' ∧ e'.scene.folder.readPacked path = .ok text ∧
      projectJson text = .ok (projectForm trees names) := by
  have hsv : List.Forall₂ (fun t r => e.store.savedStack r = .ok t.json) trees e.workspace :=
    forall₂_of_mem htrees fun t r ht _ hr => ((spells_json_iff (hs t ht).known).2 hr).savedStack_eq
  obtain ⟨text, hte, hj⟩ :=
    exists_projectText names hsv fun t ht => (hs t ht).lossless
  obtain ⟨folder, hwr, hre⟩ := hp.exists_write text
  obtain ⟨d, d', hv, hha⟩ := hsa.handle_eq
  obtain ⟨e', hsh, hsc⟩ := exists_showDialog
    (e := { e with dialog := none, scene := { e.scene with folder } }) hw hh 2 "Saved!"
    ("The project is saved to\n" ++ path) [.ok] .close
  refine ⟨e', text, ?_, by rw [hsc]; exact hre, hj⟩
  rw [hha]
  show answerSave .confirm d'.value _ = _
  rw [hv]
  unfold answerSave
  rw [modify_bind, if_pos rfl, get_bind]
  refine ofExcept_bind_eq_ok.2 ⟨text, ?_, ?_⟩
  · rw [← hte, ← hn]
    rfl
  · simp only [hwr]
    exact hsh

/-- Saving a project and opening the file gives the same project: stacks that show the same trees in
the same order, and the same variables.  The project can be opened in every editor that knows the
catalogue, has the file in its folder and a camera that can show the trees. -/
theorem reopened_project_is_same (e : Editor) (saving : Event) (path : String) (trees : List Tree)
    (names : List String) (hsaving : e.Confirms saving .save path)
    (htrees : List.Forall₂ (fun t r => e.store.Shows t (.stack r)) trees e.workspace)
    (hstorable : ∀ t ∈ trees, t.Storable) (hnames : e.globals = names.map .text)
    (hpath : e.scene.folder.Writable path) {w h : Int} (hw : e.width = .int w)
    (hh : e.height = .int h) :
    ∃ e', Edit.handle saving e = .ok () e' ∧
      ∀ (f : Editor) (opening : Event), f.Confirms opening .load path →
        f.scene.folder = e'.scene.folder → f.definitions = Catalogue.blocks →
        f.camera.CanShow trees →
        ∃ f', Edit.handle opening f = .ok () f' ∧ f'.dialog = none ∧
          List.Forall₂ (fun t r => f'.store.Shows t (.stack r)) trees f'.workspace ∧
          ∀ v, v ∈ f'.globals ↔ v ∈ e.globals := by
  obtain ⟨e', text, hsave, hread, hjson⟩ := exists_save hsaving htrees hstorable hnames hpath hw hh
  refine ⟨e', hsave, fun f opening hopening hfolder hcatalogue hcamera => ?_⟩
  obtain ⟨d, d', hvalue, hhandle⟩ := hopening.handle_eq
  obtain ⟨f', hload, hdialog, hshows, hglobals⟩ := exists_loadProject
    (e := { f with dialog := none }) hstorable hcamera hcatalogue (hfolder ▸ hread) hjson
  refine ⟨f', ?_, hdialog, hshows, by rwa [hnames]⟩
  rw [hhandle]
  show Edit.answerOpen .confirm d'.value _ = _
  rw [hvalue]
  unfold Edit.answerOpen
  rw [modify_bind, if_pos rfl]
  exact tryCatch_eq_ok.2 (.inl hload)

/-- A loop of three rounds whose body leaves it at once. -/
def loopTree : Tree :=
  .stack (some [.int 10, .int 20]) [.block (Catalogue.blocks.getD 2 default)
    [.number (.int 3), .stack none [.block (Catalogue.blocks.getD 8 default) []]]]

/-- A question for a file, with a name typed in. -/
def filePrompt : Dialog where
  size := ⟨600, 450⟩
  window := ⟨1200, 900⟩
  title := ""
  message := ""
  buttons := [.confirm, .cancel]
  rects := []
  field := some ⟨⟨0, 0, 0, 0⟩, "loop.blocks"⟩

/-- An editor with the loop in its workspace and the variable `x`, about to be saved. -/
def loopEditor : Editor :=
  { Editor.blank 1200 900 Catalogue.blocks
      { blocks := #[{ definition := Catalogue.blocks.getD 8 default, values := [] },
          { definition := Catalogue.blocks.getD 2 default, values := [.num (.int 3), .stack ⟨1⟩] }]
        allStacks := #[⟨⟨0⟩, none⟩, ⟨⟨1⟩, none⟩, ⟨⟨2⟩, some [.num (.int 10), .num (.int 20)]⟩]
        rows := #[[], [⟨0⟩], [⟨1⟩]]
        retired := 0 } [⟨2⟩] .empty with
    dialog := some (filePrompt, .save)
    globals := [.text "x"] }

theorem shows_loopTree : loopEditor.store.Shows loopTree (.stack ⟨2⟩) := by
  refine shows_stack.2 ⟨⟨2⟩, rfl, ⟨by decide, by decide⟩, rfl, ?_⟩
  refine .cons (shows_block.2 ⟨⟨1⟩, rfl, by decide, rfl, .cons rfl (.cons ?_ .nil)⟩) .nil
  refine shows_stack.2 ⟨⟨1⟩, rfl, ⟨by decide, by decide⟩, rfl, ?_⟩
  exact .cons (shows_block.2 ⟨⟨0⟩, rfl, by decide, rfl, .nil⟩) .nil

theorem storable_loopTree : loopTree.Storable where
  known := by
    have hm : ∀ i, i < Catalogue.blocks.length →
        Catalogue.blocks.getD i default ∈ Catalogue.blocks := by
      intro i hi
      rw [getD_eq_getElem?_getD, getElem?_eq_getElem hi]
      exact getElem_mem hi
    refine ⟨?_, ⟨hm 2 (by decide), rfl, trivial, ⟨?_, ⟨hm 8 (by decide), rfl, trivial⟩,
      trivial⟩, trivial⟩, trivial⟩
    · simp [IsBlock]
    · simp [IsBlock]
  bodied := by
    refine ⟨⟨?_, trivial, ⟨⟨.nil, trivial⟩, trivial⟩, trivial⟩, trivial⟩
    exact .cons (fun h => absurd h (by decide)) (.cons (fun _ => trivial) .nil)
  lossless := by simp [loopTree, Lossless, Lossless.allLossless, Num.Lossless]
  placed := by
    refine ⟨_, _, _, rfl, ?_, ?_⟩
    · show (floatOfInt 10).isInf = false
      decide +kernel
    · show (floatOfInt 20).isInf = false
      decide +kernel

theorem reopened_loop_is_same : ∃ e', Edit.handle (.key 13 "") loopEditor = .ok () e' ∧
    ∃ f', Edit.handle (.key 13 "")
        { loopEditor with scene := e'.scene, dialog := some (filePrompt, .load) } = .ok () f' ∧
      f'.dialog = none ∧
      List.Forall₂ (fun t r => f'.store.Shows t (.stack r)) [loopTree] f'.workspace ∧
      ∀ v, v ∈ f'.globals ↔ v ∈ loopEditor.globals := by
  have hstorable : ∀ t ∈ [loopTree], t.Storable := by simpa using storable_loopTree
  obtain ⟨e', hsave, hopen⟩ := reopened_project_is_same loopEditor (.key 13 "") "loop.blocks"
    [loopTree] ["x"] ⟨filePrompt, filePrompt, rfl, rfl, rfl⟩ (.cons shows_loopTree .nil) hstorable
    rfl ⟨_, rfl⟩ rfl rfl
  refine ⟨e', hsave, hopen _ (.key 13 "") ⟨filePrompt, filePrompt, rfl, rfl, rfl⟩ rfl rfl ?_⟩
  exact ⟨⟨_, rfl⟩, ⟨_, rfl⟩, ⟨_, rfl, fun t _ => Tree.scalesBy_int 1 t⟩⟩

end BlockStudio
