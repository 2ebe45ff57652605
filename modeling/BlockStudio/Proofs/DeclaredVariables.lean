import BlockStudio.Proofs.Declaring
import BlockStudio.Proofs.RenamingWalk
import BlockStudio.Proofs.RoundTrip

/-!
# Every variable is declared

In every run each slot for a variable that can be reached from the workspace holds nothing or a declared
name, as long as the run is careful in three respects: `Editor.Careful`.  It chooses no name that counts
as false; it renames and deletes variables only while nothing is dragged and no block makes the renaming
pass over a body; and it opens projects as a whole, while nothing is dragged and no menu is open.  Without
the first, a variable whose name is the empty text puts the words of an unfilled slot into the slot.
-/

namespace BlockStudio

open Forest Editor Edit Store List

variable {α : Type} {live live' : Value → Prop} {e e' : Editor} {name text x : String} {u : Unit}
  {i : Nat} {tops : List StackId} {v : Value} {s : Store} {ev : Event}

/-! ## Names -/

theorem eq_text_of_sameName (h : (Value.text x).sameName v = true) : v = .text x := by
  cases v with
  | text y =>
    have heq : x = y := by
      simpa [Value.sameName, Value.identical, Value.equalPlain, Value.parts?] using h
    rw [heq]
  | _ => simp [Value.sameName, Value.identical, Value.equalPlain, Value.parts?] at h

theorem sameName_text (x : String) : (Value.text x).sameName (.text x) = true := by
  simp [Value.sameName, Value.identical, Value.equalPlain, Value.parts?]

/-- Withdrawing a declaration, where all names are texts. -/
theorem exists_forgotten (ht : ∀ v ∈ e.globals, ∃ x, v = .text x) {name : Value}
    (h : forgetName name e = .ok u e') : ∃ x names, name = .text x ∧
      e' = { e with globals := names } ∧ ∀ v, v ∈ names ↔ v ∈ e.globals ∧ v ≠ .text x := by
  obtain ⟨hn, rfl⟩ := forgetName_eq_ok h
  obtain ⟨v, hv, hs⟩ := any_eq_true.1 hn
  obtain ⟨x, rfl⟩ := ht v hv
  obtain rfl := eq_text_of_sameName hs
  refine ⟨x, _, rfl, rfl, fun v => ?_⟩
  rw [mem_filter]
  refine and_congr_right fun hv => ?_
  obtain ⟨y, rfl⟩ := ht v hv
  constructor
  · rintro hne heq
    rw [heq, sameName_text] at hne
    cases hne
  · intro hne
    cases hs : (Value.text y).sameName (.text x) with
    | false => rfl
    | true => exact absurd (eq_text_of_sameName hs).symm hne

/-- One more variable is declared. -/
theorem Editor.Declares.declare (h : e.Declares live) (name : String) :
    ({ e with globals := insertName (.text name) e.globals } : Editor).Declares live := by
  have hmo : ∀ v ∈ e.globals, v ∈ insertName (.text name) e.globals := fun v =>
    mem_insertName_of_mem _
  refine { h with tidy := h.tidy.names hmo, texts := fun v hv => ?_, menu := fun m hm => ?_ }
  · rcases mem_insertName hv with rfl | hv
    · exact ⟨name, rfl⟩
    · exact h.texts v hv
  · obtain ⟨hs, hb, ho⟩ := h.menu m hm
    exact ⟨hs, hb, fun v hv => hmo v (ho v hv)⟩

/-! ## Answers -/

/-- A variable is created for a slot, which comes to the same as declaring it first. -/
theorem Editor.Declares.create (h : e.Declares live) {b : BlockId} {k : Int} {e1 e2 : Editor}
    (ha : Edit.assign b i (.text name) e = .ok () e1) (hdr : Edit.redraw k e1 = .ok () e2) :
    ({ e2 with globals := insertName (.text name) e2.globals } : Editor).Declares live := by
  obtain ⟨-, rfl⟩ := assign_eq_ok.1 ha
  have hf := (h.declare name).fill (b := b) (i := i) (v := .text name) trivial
    fun _ => .inr (mem_insertName_self name h.texts)
  obtain ⟨hF, hg, hm, ho, he, hd⟩ := board_eq.1 (board_redraw hdr)
  refine hf.congr (board_eq.2 ⟨hF, ?_, hm, ho, he, hd⟩)
  exact congrArg (insertName (.text name)) hg

/-- What renaming leaves as it is. -/
def Editor.margin (e : Editor) : (List StackId × Option StackId) ×
    (List Value × Option Menu × List MenuOption) × Option Spot × Option (Dialog × Purpose) :=
  ((e.workspace, e.cursor), e.desk, e.edited, e.dialog)

theorem margin_renameEverywhere (old new : Value) : Keeps (Same margin) (renameEverywhere old new) := by
  refine keeps_renameEverywhere old (fun b i e _ => Keeps.run ?_ e) fun i =>
    (displays_redraw i).mono fun e e' h => ?_
  · refine Keeps.bind reads_store.keeps fun s => Keeps.ite (fun _ => ?_) fun _ => Keeps.throw _
    exact ⟨fun e => rfl⟩
  · exact (congrArg margin h :)

/-- Reached blocks and stacks are a live set of their own. -/
theorem Store.Tidy.onlyReached {named : Value → Prop} (h : s.Tidy named live)
    (hto : ∀ t ∈ tops, live (.stack t)) : s.Tidy named fun v => v.IsNode ∧ Reached s tops v where
  stack_lt t ht := h.stack_lt t (h.reached hto ht.1 ht.2)
  block_lt b hb := h.block_lt b (h.reached hto hb.1 hb.2)
  row _ _ ht hb := ⟨trivial, .row ht.2 hb⟩
  slot _ _ _ hb hv hn := ⟨hn, .slot hb.2 hv⟩
  name b i v hb := h.name b i v (h.reached hto hb.1 hb.2)

/-- A variable is renamed or deleted while nothing is dragged and no body is passed over: the new names
are declared, and what can be reached has no others. -/
theorem Editor.Declares.renameEverywhere (h : e.Declares live) (hs : e.core.Steady)
    (hcu : e.cursor = none) (hme : e.menu = none) (hdi : e.dialog = none)
    (hsk : ∀ b, e.forest.Reaches (.block b) → ¬e.forest.store.Skips b) {new : Value}
    {names : List Value} (hnw : new.Literal) (hte : ∀ v ∈ names, ∃ y, v = .text y)
    (hno : new = .none ∨ new ∈ names) (hnm : ∀ v ∈ e.globals, v ≠ .text x → v ∈ names)
    (hru : renameEverywhere (.text x) new { e with globals := names } = .ok u e') : e'.Declared := by
  have hba : Rewords new e.forest.store e.store := rewords_of_bare (bare_bare _).symm
  obtain ⟨hr0, hc⟩ := renameEverywhere_clears
    (e := { e with globals := names }) hs.forest.store hnw hsk hba hru
  have hr : Rewords new e.forest.store e'.forest.store := hr0.trans (rewords_of_bare (bare_bare _))
  have hm : e'.margin = margin { e with globals := names } :=
    (margin_renameEverywhere _ _).ok hru
  simp only [margin, desk, Prod.mk.injEq] at hm
  obtain ⟨⟨hw', hc'⟩, ⟨hg', hm', ho'⟩, he', hd'⟩ := hm
  have htidy := h.tidy.onlyReached fun t (ht : t ∈ e.workspace) => h.roots t (mem_roots.2 (.inl ht))
  refine ⟨fun v => v.IsNode ∧ e.forest.Reaches v, ?_, ?_, fun t ht => ?_, ?_, fun spot hsp => ?_, ?_⟩
  · refine htidy.rewords hr hnw fun b i v hb hna hv => ?_
    rw [hg']
    have hcl : v = new ∨ v ≠ .text x :=
      hc b i v hb.2 hna ((slot?_forest ..).symm.trans hv)
    rcases hcl with rfl | hne
    · exact hno
    · rcases hr.slot b i with heq | ⟨-, hsl⟩
      · exact (htidy.name b i v hb hna (heq ▸ hv)).imp_right fun hv => hnm v hv hne
      · obtain rfl : v = new := Option.some.inj (hv.symm.trans hsl)
        exact hno
  · rw [hg']
    exact hte
  · have hmm : t ∈ e.workspace := by
      rcases mem_roots.1 ht with ht | ht
      · exact hw' ▸ ht
      · cases hcu.symm.trans (hc'.symm.trans ht)
    exact ⟨trivial, .top hmm⟩
  · simp [hm', hme]
  · obtain ⟨hlt, hna⟩ := h.edited spot (he' ▸ hsp)
    exact ⟨hr.blocks_eq ▸ hlt, fun hn => hna (hr.isName.1 hn)⟩
  · rw [hd', hdi]
    exact fun _ _ hd => by cases hd

/-! ## Opening projects -/

/-- Stacks that were read have only these names in them. -/
def Editor.Recovered (e : Editor) (names : List Value) : Prop :=
  ∃ live, e.forest.store.Tidy (· ∈ names) live ∧ ∀ t ∈ e.workspace, live (.stack t)

/-- What taking stacks into the workspace leaves as it is. -/
structure Editor.Takes (e e' : Editor) : Prop where
  sound : e'.forest.store.Sound
  stays : e.forest.store.Stays e'.forest.store
  rest_eq : (e'.definitions, e'.cursor, e'.menu, e'.options, e'.edited, e'.dialog) =
    (e.definitions, e.cursor, e.menu, e.options, e.edited, e.dialog)

theorem Editor.Takes.trans {e'' : Editor} (h : e.Takes e') (h' : e'.Takes e'') : e.Takes e'' :=
  ⟨h'.sound, h.stays.trans h'.stays, h'.rest_eq.trans h.rest_eq⟩

section Take

variable {src : Store} {names : List Value} (hsrc : src.Sound) (htidy : src.Tidy (· ∈ names) live)
include hsrc htidy

/-- A saved stack comes into the workspace. -/
theorem takeStack_eq_ok (hs : e.forest.store.Sound) (hd : e.definitions = Catalogue.blocks)
    (hre : e.Recovered names) {n : Nat} {r : StackId} (hr : live (.stack r)) {json : Json}
    (hj : src.IsSaved n (.stack r) json) (ht : takeStack json i e = .ok u e') :
    e.Takes e' ∧ e'.Recovered names := by
  cases retakes_saved hsrc htidy hr hj hs hd i with
  | part _ _ _ hru =>
    rw [hru] at ht
    cases ht
  | @whole t s hsp _ hb _ _ _ hru =>
    rw [hru] at ht
    have hu : e'.unseen = (e.withStack s t).unseen := (displays_redraw _).ok ht
    have hbo := board_of_unseen hu
    obtain ⟨hF, -, hm, ho, he, hdi⟩ := board_eq.1 hbo
    have hd' : e'.definitions = e.definitions := (congrArg definitions hu :)
    have hc : e'.cursor = e.cursor := congrArg Forest.cursor hF
    have hst : e'.forest.store = s.bare := congrArg Forest.store hF
    have hw : e'.workspace = e.workspace ++ [t] := congrArg Forest.workspace hF
    obtain ⟨live1, ht1, hl1⟩ := hre
    have hn : NewIn e.forest.store s.bare (.stack t) := hsp.loose_stack t (by simp)
    refine ⟨⟨hst ▸ hsp.sound, hst ▸ hsp.grown.toStays, ?_⟩, _,
      hst ▸ ht1.sprout hs hsp (hb.mono fun _ => False.elim), ?_⟩
    · rw [hd', hc, hm, ho, he, hdi]
      rfl
    · rw [hw]
      intro t' ht'
      rcases mem_append.1 ht' with ht' | ht'
      · exact .inl (hl1 t' ht')
      · rw [mem_singleton.1 ht']
        exact .inr (hst ▸ hn)

/-- Saved stacks come into the workspace one after the other. -/
theorem takeStacks_eq_ok {n : Nat} {rs : List StackId} {jsons : List Json}
    (hjs : List.Forall₂ (fun r => src.IsSaved n (.stack r)) rs jsons) (hrs : ∀ r ∈ rs, live (.stack r))
    (hs : e.forest.store.Sound) (hd : e.definitions = Catalogue.blocks)
    (hre : e.Recovered names) (ht : takeStacks i jsons e = .ok u e') :
    e.Takes e' ∧ e'.Recovered names := by
  induction hjs generalizing i e with
  | nil =>
    obtain ⟨-, rfl⟩ := pure_eq_ok.1 ht
    exact ⟨⟨hs, .refl _, rfl⟩, hre⟩
  | cons hj _ ih =>
    obtain ⟨hr, hrs⟩ := forall_mem_cons.1 hrs
    unfold takeStacks at ht
    obtain ⟨_, e1, h1, ht⟩ := bind_eq_ok.1 ht
    obtain ⟨hta, hr1⟩ := takeStack_eq_ok hsrc htidy hs hd hre hr hj h1
    have hd1 : e1.definitions = Catalogue.blocks :=
      (congrArg Prod.fst hta.rest_eq).trans hd
    obtain ⟨ht', hr'⟩ := ih hrs hta.sound hd1 hr1 ht
    exact ⟨hta.trans ht', hr'⟩

end Take

/-- A text that was written for a project with declared variables. -/
def SavesDeclared (text : String) : Prop :=
  ∃ e0 : Editor, e0.core.Steady ∧ e0.Declared ∧
    projectText e0.store e0.workspace e0.globals = .ok text

/-- Opening a project with declared variables as a whole, while nothing is dragged and no menu is
open. -/
theorem Editor.Declares.loadProject (h : e.Declares live) (hs : e.core.Steady)
    (hcu : e.cursor = none) (hme : e.menu = none) {path : String}
    (hf : ∀ text, e.scene.folder.readPacked path = .ok text → SavesDeclared text)
    (hl : Edit.loadProject path e = .ok u e') : e'.Declared := by
  obtain ⟨json, -, -, -, -, hp, -⟩ := loadProject_eq_ok hl
  obtain ⟨text, hte, -⟩ := except_bind_eq_ok.1 hp
  obtain ⟨e0, hs0, ⟨live0, h0⟩, hw⟩ := hf text hte
  obtain ⟨jsons, hst, hru⟩ := loadProject_saved hs0 hw hte
  rw [hru] at hl
  obtain ⟨_, e1, htk, hl⟩ := bind_eq_ok.1 hl
  have he : e.cleared.Recovered e0.globals :=
    ⟨fun _ => False, ⟨nofun, nofun, nofun, nofun, nofun⟩, nofun⟩
  obtain ⟨hta, live1, ht1, hl1⟩ := takeStacks_eq_ok
    (e := e.cleared) (.of_bare hs0.forest.store) (tidy_bare.1 h0.tidy) hst
    (fun r hr => h0.roots r (mem_roots.2 (.inl hr))) hs.forest.store hs.definitions he htk
  have hmm : ∀ v, v ∈ e0.globals.foldl (fun ns n => insertName n ns) [] ↔ v ∈ e0.globals := by
    obtain ⟨texts, htx⟩ : e0.globals ∈ Set.range (map Value.text) := by
      rw [Set.range_list_map]
      exact fun v hv => (h0.texts v hv).imp fun _ => Eq.symm
    rw [← htx]
    exact fun v => ⟨fun hv => (mem_foldl_insertName hv).resolve_right not_mem_nil,
      fun hv => mem_foldl_insertName_of_mem (fun _ h => absurd h not_mem_nil) (.inl hv)⟩
  have hre := hta.rest_eq
  simp only [Prod.mk.injEq] at hre
  obtain ⟨-, hc1, hm1, -, he1, -⟩ := hre
  rw [← modify_eq_ok.1 hl]
  refine ⟨live1, ht1.names fun v => (hmm v).2, fun v hv => h0.texts v ((hmm v).1 hv),
    fun t ht => ?_, fun m hm => ?_, fun spot hsp => ?_, fun _ _ _ _ => hm1.trans hme⟩
  · rcases mem_roots.1 ht with ht | ht
    · exact hl1 t ht
    · cases hcu.symm.trans (hc1.symm.trans ht)
  · cases hme.symm.trans (hm1.symm.trans hm)
  · obtain ⟨hlt, hn⟩ := h.edited spot (he1.symm.trans hsp)
    have hd : e1.forest.store.definitionOf spot.block = e.forest.store.definitionOf spot.block :=
      hta.stays.definition_eq _ hlt
    exact ⟨hlt.trans_le hta.stays.blocks_le, fun ⟨c, hc, hk⟩ => hn ⟨c, hd ▸ hc, hk⟩⟩

/-! ## Events -/

/-- An event with which no variable can get lost: it chooses no name that counts as false, answers
whether to rename or to delete a variable with yes only while nothing is dragged and no body is passed
over, and opens projects only as a whole, while nothing is dragged and no menu is open. -/
structure Editor.Careful (e : Editor) (ev : Event) : Prop where
  choice : ∀ button v, e.dialog = none → ev = .down button → e.excuseDown = false → e.menu ≠ none →
    e.selected ≠ -1 → itemAt? e.options e.selected = some (.varName v) → v.truth = true
  removal : ∀ d purpose, e.dialog = some (d, purpose) → purpose.Removes →
    (d.handle e.devices.mouse ev).2 = some .yes →
      e.cursor = none ∧ ∀ b, e.forest.Reaches (.block b) → ¬e.forest.store.Skips b
  file : ∀ path json, e.opens ev = some path → e.projectIn path = .ok json →
    e.cursor = none ∧ e.menu = none ∧
      ∃ e1, Edit.loadProject path { e with dialog := none } = .ok () e1

/-- Answering a dialog carefully. -/
theorem Editor.Declares.answers (h : e.Declares live) (hs : e.core.Steady) {button : Button}
    {purpose : Purpose} (hm : purpose.Removes → e.menu = none)
    (hre : purpose.Removes → button = .yes →
      e.cursor = none ∧ ∀ b, e.forest.Reaches (.block b) → ¬e.forest.store.Skips b)
    (ho : purpose = .load → button = .confirm → ∀ json, e.projectIn text = .ok json →
      e.cursor = none ∧ e.menu = none ∧
      ∃ e1, Edit.loadProject text e.dismissed = .ok () e1)
    (hfi : purpose = .load → button = .confirm → ∀ packed,
      e.scene.folder.readPacked text = .ok packed → SavesDeclared packed)
    (ha : Answers button text e purpose e') : e'.Declared := by
  have hc : e.dismissed.Declares live :=
    h.turn e.menu none rfl (.inr rfl) fun _ _ hd => nomatch hd
  cases ha with
  | nothing => exact ⟨live, hc⟩
  | create has hdr => exact ⟨live, hc.create has hdr⟩
  | rename hy hf hd hr =>
    obtain ⟨hcu, hsk⟩ := hre trivial hy
    obtain ⟨x, names, rfl, rfl, hn⟩ := exists_forgotten hc.texts hf
    obtain rfl := declareName_eq_ok hd
    have ht : ∀ v ∈ names, ∃ y, v = .text y := fun v hv => h.texts v ((hn v).1 hv).1
    have hl : (Value.text text).Literal := trivial
    refine hc.renameEverywhere hs hcu (hm trivial) rfl hsk hl (fun v hv => ?_)
      (.inr (mem_insertName_self text ht))
      (fun v hv hne => mem_insertName_of_mem _ ((hn v).2 ⟨hv, hne⟩)) hr
    rcases mem_insertName hv with rfl | hv
    · exact ⟨text, rfl⟩
    · exact ht v hv
  | delete hy hf hr =>
    obtain ⟨hcu, hsk⟩ := hre trivial hy
    obtain ⟨x, names, rfl, rfl, hn⟩ := exists_forgotten hc.texts hf
    have hl : Value.none.Literal := trivial
    exact hc.renameEverywhere hs hcu (hm trivial) rfl hsk hl
      (fun v hv => h.texts v ((hn v).1 hv).1) (.inl rfl) (fun v hv hne => (hn v).2 ⟨hv, hne⟩)
      hr
  | @save folder _ hpo =>
    have hsa : Declares
        { e with dialog := none, scene := { e.scene with folder } } live := hc.congr rfl
    exact ⟨live, hsa.poses hpo False.elim⟩
  | load hco hlo =>
    cases hp : e.projectIn text with
    | error f =>
      rw [loadProject_unreadable (e := e.dismissed) hp] at hlo
      cases hlo
    | ok json =>
      obtain ⟨hcu, hm, -⟩ := ho rfl hco json hp
      exact hc.loadProject hs hcu hm (hfi rfl hco) hlo
  | failed hco hlo hpo =>
    cases hp : e.projectIn text with
    | error f =>
      rw [loadProject_unreadable (e := e.dismissed) hp] at hlo
      cases hlo
      exact ⟨live, hc.poses hpo False.elim⟩
    | ok json =>
      obtain ⟨-, -, e1, hw⟩ := ho rfl hco json hp
      cases hw.symm.trans hlo

/-- A careful event keeps the variables declared. -/
theorem Editor.Declared.handle (h : e.Declared) (hs : e.core.Steady)
    (hai : e.dialog = none → e.Aiming) (hca : e.Careful ev)
    (hf : ∀ path text, e.opens ev = some path → e.scene.folder.readPacked path = .ok text →
      SavesDeclared text) (hru : handle ev e = .ok u e') : e'.Declared := by
  obtain ⟨live, h⟩ := h
  cases handle_cases hru with
  | @dialog d d' purpose _ hdi =>
    refine ⟨live, h.turn e.menu (some (d', purpose)) rfl (.inr rfl) fun _ _ hd hr => ?_⟩
    cases hd
    exact h.asked d purpose hdi hr
  | @answer d d' purpose _ button _ hdi hh ha =>
    have hm := h.asked d purpose hdi
    have h' : Declares { e with dialog := some (d', purpose) } live := by
      refine h.turn e.menu (some (d', purpose)) rfl (.inr rfl) fun _ _ hd hr => ?_
      cases hd
      exact hm hr
    have ho : purpose = .load → button = .confirm → e.opens ev = some d'.value := by
      rintro rfl rfl
      simp [opens, hdi, hh]
    refine h'.answers hs hm (fun hr hy => ?_)
      (fun hl hc json => hca.file d'.value json (ho hl hc))
      (fun hl hc packed => hf d'.value packed (ho hl hc)) ha
    exact hca.removal d purpose hdi hr (by rw [hh, hy])
  | drift _ hdr => exact ⟨live, h.drifts hdr⟩
  | down hdi hdo =>
    exact h.handleDown hs hdi (fun he hm hse v =>
      hca.choice _ v hdi rfl he hm hse) hdo
  | up hdi hup => exact h.handleUp hs (hai hdi) hup
  | key _ hk => exact ⟨live, h.keys hs hk⟩

/-! ## Time -/

/-- The variables stay declared in a steady editor. -/
structure Upholds (e e' : Editor) : Prop where
  moves : Moves (fun _ => True) e e'
  declared : e.core.Steady → e.Declared → e'.Declared

instance : IsPreorder Editor Upholds where
  refl e := ⟨refl e, fun _ => id⟩
  trans _ _ _ h h' := ⟨h.moves.trans h'.moves, fun hs hd =>
    h'.declared (h.moves hs).1 (h.declared hs hd)⟩

theorem upholds_of_board {m : Edit α} (hm : Keeps (Moves fun _ => True) m)
    (hb : Keeps (Same board) m) : Keeps Upholds m :=
  ⟨fun e => ⟨hm.run e, fun _ h => h.congr (hb.run e)⟩⟩

/-- The search for a candidate opens bodies of what is reached, which are empty. -/
theorem upholds_findCandidate : Keeps Upholds findCandidate := by
  refine ⟨fun e => ⟨moves_findCandidate.run e, fun hs ⟨live, h⟩ => ?_⟩⟩
  have hse : Seeks (fun _ => True) { e with candidate := none }
      (endState (findCandidate e)) := seeks_findCandidate hs
  generalize endState (findCandidate e) = e' at hse
  have hu := hse.unfolds hs
  have hr : e.store.Recalls e'.store := (hse.glances hs).recalls
  have htidy := (tidy_bare.1 h.tidy).recalls hs.forest.store hr
  refine ⟨_, h.change (F := e'.forest) ?_ (tidy_bare.2 htidy) (fun _ => .inl)
    ⟨hu.blocks_eq.ge, fun b _ => hu.definition_eq b⟩ fun t ht => .inl (h.roots t ?_)⟩
  · have hd : e'.desk = e.desk := (congrArg desk hse.apart_eq :)
    have hf : e'.focus = e.focus := hse.focus_eq
    simp only [focus, Prod.mk.injEq] at hf
    rw [board, hd, hf.2.1, hf.2.2]
  · have hw : e'.forest.workspace = e.forest.workspace := hu.workspace_eq
    have hc : e'.forest.cursor = e.forest.cursor := hu.cursor_eq
    rwa [mem_roots, hw, hc, ← mem_roots] at ht

theorem upholds_update (dt : Num) : Keeps Upholds (update dt) := by
  have hs : ∀ {e e' : Editor}, e'.core = e.core → e'.board = e.board → Upholds e e' :=
    fun hc hb => ⟨.of_core hc, fun _ h => h.congr hb⟩
  refine keeps_update (fun _ _ _ => hs rfl rfl) ?_ (fun i => ?_) (fun t => ?_)
    (fun _ _ => hs rfl rfl) upholds_findCandidate (fun _ _ => hs rfl rfl) dt
  · exact upholds_of_board moves_drawPalette (offers_drawPalette.mono fun _ _ => Offers.board_eq)
  · exact upholds_of_board (moves_rescaleAll i) ((displays_rescaleAll i).mono fun _ _ => board_of_unseen)
  · exact upholds_of_board (depicts_stack t).pictures.aside.moves (depicts_stack t).pictures.board

/-! ## Runs -/

theorem declared_blank (width height : Num) (folder : Folder) :
    (blank width height Catalogue.blocks .empty [] folder).Declared := by
  refine ⟨fun _ => False, ?_, ?_, ?_, ?_, ?_, ?_⟩
  · exact ⟨fun _ h => h.elim, fun _ h => h.elim, fun _ _ h => h.elim, fun _ _ _ h => h.elim,
      fun _ _ _ h => h.elim⟩
  all_goals simp [Forest.roots, forest, blank]

/-- Careful events keep the variables declared all along. -/
theorem Reachable.declared {files : String → Prop} {phase : Phase} (h : Reachable files Careful phase e)
    (hf : ∀ text, files text → SavesDeclared text) : e.Declared := by
  have hsa : ∀ text, files text → Saves (fun _ => True) text := fun text ht =>
    (hf text ht).imp fun _ h => ⟨h.1, trivial, h.2.2⟩
  induction h with
  | start hr => exact (declared_blank ..).congr (offers_setUp.ok hr).board_eq
  | devices d _ ih => exact ih.congr rfl
  | handle h hc hfi hr ih =>
    obtain ⟨hs, ha⟩ := h.steady hsa
    exact ih.handle hs (ha rfl) hc
      (fun path text hp ht => hf text (hfi path text hp ht)) hr
  | update h hr ih => exact ((upholds_update _).ok hr).declared (h.steady hsa).1 ih

/-- What saving writes after careful events was written for declared variables. -/
theorem Written.savesDeclared (h : Written Careful text) : SavesDeclared text := by
  refine h.closed fun phase e text h ht => ?_
  have hsa : ∀ text, SavesDeclared text → Saves (fun _ => True) text := fun text h =>
    h.imp fun _ h => ⟨h.1, trivial, h.2.2⟩
  have hs : e.core.Steady := (h.steady hsa).1
  exact ⟨e, hs, h.declared fun _ => id, ht⟩

/-- After any careful events, every slot for a variable holds nothing or a declared name, at any depth
of the workspace and of what is dragged. -/
theorem slot_mem_globals {phase : Phase} (h : Reachable (Written Editor.Careful) Editor.Careful phase e)
    {b : BlockId} {i : Nat} {v : Value} (hb : Reached e.forest.store e.forest.roots (.block b))
    (hname : e.forest.store.IsName b i) (hv : e.forest.store.slot? b i = some v) :
    v = .none ∨ v ∈ e.globals := by
  obtain ⟨live, hd⟩ := h.declared fun _ => Written.savesDeclared
  have hlive : live (.block b) := hd.tidy.reached hd.roots trivial hb
  exact hd.tidy.name b i v hlive hname hv

theorem Forest.Reached.mono {tops' : List StackId} (h : Reached s tops v)
    (hto : ∀ t ∈ tops, t ∈ tops') : Reached s tops' v := by
  induction h with
  | top ht => exact .top (hto _ ht)
  | row _ hb ih => exact .row ih hb
  | slot _ hv ih => exact .slot ih hv

/-! ## Two runs -/

/-- It can be seen that an event is careful: it opens no file, no question about a name is open, and all
names on the menu count as true. -/
def Editor.harmless (e : Editor) (ev : Event) : Bool :=
  (e.opens ev).isNone && (match e.dialog with
      | some (_, .renameVariable _) | some (_, .deleteVariable _) => false
      | _ => true) &&
    e.options.all fun
      | .varName v => v.truth
      | _ => true

theorem Editor.careful_of_harmless (h : e.harmless ev = true) : e.Careful ev ∧ e.opens ev = none := by
  simp only [harmless, Bool.and_eq_true, Option.isNone_iff_eq_none, all_eq_true] at h
  obtain ⟨⟨ho, hdi⟩, hn⟩ := h
  refine ⟨⟨fun button v _ _ _ _ _ hv => ?_, fun d purpose hd hr => ?_, fun path json hp => ?_⟩,
    ho⟩
  · exact hn _ (mem_of_itemAt? hv)
  · rw [hd] at hdi
    cases purpose with
    | renameVariable | deleteVariable => cases hdi
    | _ => exact hr.elim
  · cases ho.symm.trans hp

/-- The only stack of the workspace is a block whose first slot holds a name of a variable. -/
def Editor.namesFirst (e : Editor) (name : String) : Bool :=
  match e.workspace, (e.store.definitionOf ⟨0⟩).inputs[0]?, e.store.slot? ⟨0⟩ 0 with
  | [t], some c, some (.text x) => e.store.blocksOf t == [⟨0⟩] && c.kind == .varName && x == name
  | _, _, _ => false

theorem Editor.slot_of_namesFirst (h : e.namesFirst name = true) :
    e.forest.Reaches (.block ⟨0⟩) ∧ e.forest.store.IsName ⟨0⟩ 0 ∧
      e.forest.store.slot? ⟨0⟩ 0 = some (.text name) := by
  unfold namesFirst at h
  split at h
  case h_2 => cases h
  case h_1 t c x hw hi hs =>
    simp only [Bool.and_eq_true, beq_iff_eq] at h
    obtain ⟨⟨hr, hk⟩, rfl⟩ := h
    refine ⟨.row (t := t) (.top ?_) ?_, ⟨c, ?_, hk⟩, ?_⟩
    · simp [forest, hw]
    · simp [forest, hr]
    · rwa [definitionOf_forest]
    · rwa [slot?_forest]

/-- Drag a loop over a list to the workspace and create a variable for its first slot. -/
def createsVariable (typed : List (Devices × Event)) : List (Devices × Event) :=
  [(⟨⟨80, 310⟩, []⟩, .down 1), (⟨⟨600, 400⟩, []⟩, .up 1), (⟨⟨700, 410⟩, []⟩, .down 1),
    (⟨⟨700, 410⟩, []⟩, .down 1)] ++ typed ++ [(⟨⟨800, 610⟩, []⟩, .up 1)]

/-- A variable that was created for a slot is declared. -/
theorem slot_mem_globals_of_created :
    ∃ e, Reachable (Written Editor.Careful) Editor.Careful .waiting e ∧
      e.forest.store.IsName ⟨0⟩ 0 ∧ e.forest.store.slot? ⟨0⟩ 0 = some (.text "i") ∧
      .text "i" ∈ e.globals := by
  obtain ⟨e, he, hend⟩ := exists_reachable_of_play (fun _ _ => Editor.careful_of_harmless)
    (createsVariable [(⟨⟨700, 410⟩, []⟩, .key 105 "i")]) (Editor.namesFirst · "i")
    (by decide +kernel)
  obtain ⟨hreaches, hname, hslot⟩ := Editor.slot_of_namesFirst hend
  have hroots : Reached e.forest.store e.forest.roots (.block ⟨0⟩) :=
    hreaches.mono fun t ht => mem_roots.2 (.inl ht)
  exact ⟨e, he, hname, hslot, (slot_mem_globals he hroots hname hslot).resolve_left nofun⟩

/-- Create a variable without a name and choose its line from the menu. -/
def choosesUnnamed : List (Devices × Event) :=
  createsVariable [] ++ [(⟨⟨700, 410⟩, []⟩, .down 1), (⟨⟨710, 500⟩, []⟩, .motion ⟨0, 0⟩),
    (⟨⟨710, 500⟩, []⟩, .down 1)]

/-- A name without characters. -/
def isUnnamed : Value → Bool
  | .text x => x == ""
  | _ => false

/-- The line of a variable without a name stands for no declared variable. -/
theorem unnamed_variable_fills_undeclared_name :
    ∃ e, Reachable (Written fun _ _ => True) (fun _ _ => True) .waiting e ∧
      e.forest.Reaches (.block ⟨0⟩) ∧ e.forest.store.IsName ⟨0⟩ 0 ∧
      e.forest.store.slot? ⟨0⟩ 0 = some (.text "variable...") ∧ .text "variable..." ∉ e.globals := by
  have hcheck : ∀ (e : Editor) ev, (e.opens ev).isNone = true → True ∧ e.opens ev = none :=
    fun e ev hpass => ⟨trivial, Option.isNone_iff_eq_none.1 hpass⟩
  obtain ⟨e, he, hend⟩ := exists_reachable_of_play hcheck choosesUnnamed
    (fun e => e.namesFirst "variable..." && e.globals.all isUnnamed) (by decide +kernel)
  simp only [Bool.and_eq_true, all_eq_true] at hend
  obtain ⟨hreaches, hname, hslot⟩ := Editor.slot_of_namesFirst hend.1
  exact ⟨e, he, hreaches, hname, hslot, fun hmem => by cases hend.2 _ hmem⟩

end BlockStudio
