import BlockStudio.Proofs.RenamingWalk
import BlockStudio.Proofs.SureChoice

/-!
# Answering dialogs without fail

The walk that renames asks the last block of a body what the slots behind that body are.  It strays
where that block has no such slot, `Store.Strays`, and nowhere else: `sure_renameEverywhere`.  A project
that is calm can be written, and what goes wrong when one is opened is told in a dialog.  So a dialog can
be answered unless a variable that is not declared is to go, or the walk would stray:
`sure_handleDialog`.
-/

namespace BlockStudio

open Forest Edit

variable {s0 : Store} {old new : Value} {e e' : Editor} {v : Value} {b reading : BlockId} {i : Nat}

/-! ## The walk that renames -/

namespace Store

variable {s s' : Store}

/-- Values without blocks and lists can be compared. -/
theorem exists_equal (s : Store) {w : Value} (hv : v.Literal ∨ ∃ t, v = .stack t) (hw : w.Literal) :
    ∃ same, s.equal v w = .ok same := by
  have hto : ∀ n, ∃ same, s.equalTo n v w = .ok same := by
    intro n
    cases n with
    | zero => exact ⟨false, rfl⟩
    | succ n =>
      refine ⟨v.equalPlain w, ?_⟩
      obtain hv | ⟨t, rfl⟩ := hv
      · cases v <;> first | exact hv.elim | (cases w <;> first | exact hw.elim | rfl)
      · cases w <;> first | exact hw.elim | rfl
  exact hto _

/-- A slot behind a body is asked of a block that has no such slot: the last one of that body. -/
def Strays (s : Store) (b : BlockId) : Prop :=
  ∃ j k t last v, j < k ∧ s.slot? b j = some (.stack t) ∧ (s.blocksOf t).getLast? = some last ∧
    s.slot? b k = some v ∧ (s.definitionOf last).inputs.length ≤ k

/-- The block that is asked has the slot, unless the walk strays. -/
theorem ReadBy.exists_component (h : s.ReadBy b i reading) (hs : s.Sound) (hst : ¬s.Strays b)
    (hv : s.slot? b i = some v) : ∃ c, (s.definitionOf reading).inputs[i]? = some c := by
  rcases h with rfl | ⟨j, hj, t, ht, hl⟩
  · obtain ⟨c, hc, -⟩ := hs.fits_slot? hv
    exact ⟨c, hc⟩
  · have hi : i < (s.definitionOf reading).inputs.length :=
      Nat.lt_of_not_le fun hle => hst ⟨j, i, t, reading, v, hj, ht, hl, hv, hle⟩
    exact ⟨_, List.getElem?_eq_getElem hi⟩

theorem Rewords.exists_slot (h : Rewords new s s') (hv : s.slot? b i = some v) :
    ∃ w, s'.slot? b i = some w := by
  rcases h.slot b i with heq | ⟨-, hn⟩
  · exact ⟨v, heq.trans hv⟩
  · exact ⟨new, hn⟩

/-- A value that is met is the one from before, or the new name. -/
theorem Rewords.of_slot (h : Rewords new s s') (hs : s.Sound) (hv : s'.slot? b i = some v) :
    ∃ w, s.slot? b i = some w ∧ (v = w ∨ v = new) := by
  rcases h.slot b i with heq | ⟨⟨c, hc, -⟩, hn⟩
  · exact ⟨v, heq ▸ hv, .inl rfl⟩
  · obtain ⟨w, hw⟩ := hs.exists_value hc
    exact ⟨w, hw, .inr (Option.some.inj (hv.symm.trans hn))⟩

end Store

theorem FailsOnly.forM {γ : Type} {p : Fault → Prop} {I : Editor → Prop} {g : γ → Edit Unit}
    (l : List γ) (he : I e) (hg : ∀ x ∈ l, ∀ e, I e → FailsOnly p (g x) e)
    (hI : ∀ x ∈ l, ∀ e u e', I e → g x e = .ok u e' → I e') : FailsOnly p (l.forM g) e := by
  induction l generalizing e with
  | nil => exact .pure _
  | cons x l ih =>
    refine (hg x List.mem_cons_self e he).bind fun u e1 h1 => ?_
    exact ih (hI x List.mem_cons_self e u e1 he h1) (fun y hy => hg y (List.mem_cons_of_mem _ hy))
      fun y hy => hI y (List.mem_cons_of_mem _ hy)

section Walk

open Store Edit

variable {src : Store}

/-- Walking through the slots of a block from `i` on, with the values that they held before. -/
theorem sure_renameValues (hs : src.Sound) (hold : old.Literal) (hne : new.Literal)
    {nested : BlockId → Edit Unit} (hwo : ∀ c, Keeps (Rewording new) (nested c))
    (hst : ¬src.Strays b)
    (hn : ∀ i c, src.InSlot b i c → ∀ e : Editor, Rewords new src e.store → Sure (nested c) e)
    {values : List Value} {before : Store} (hb : Rewords new src before)
    (hv : ∀ k, values[k]? = before.slot? b (i + k)) (hre : src.ReadBy b i reading)
    (hr : Rewords new src e.store) : Sure (renameValues nested old new reading i values) e := by
  induction values generalizing i reading e with
  | nil => exact .pure _
  | cons v rest ih =>
    have hsl : before.slot? b i = some v := (hv 0).symm
    have hv' : ∀ k, rest[k]? = before.slot? b (i + 1 + k) := fun k => by
      have hk := hv (k + 1)
      rwa [List.getElem?_cons_succ, ← Nat.add_assoc, Nat.add_right_comm] at hk
    obtain ⟨w, hw, hvw⟩ := hb.of_slot hs hsl
    obtain ⟨c, hc⟩ := hre.exists_component hs hst hw
    unfold renameValues
    refine .slotComponent_bind (c := c) ((hr.definition reading).symm ▸ hc) ?_
    refine .ite (fun hki => ?_) fun _ => ?_
    · have hp : v.Literal ∨ ∃ t, v = .stack t := by
        rcases hvw with rfl | rfl
        · exact hre.plain hs ⟨c, hc, hki⟩ hw
        · exact .inl hne
      obtain ⟨same, hsa⟩ := e.store.exists_equal hp hold
      refine .step rfl ?_
      rw [hsa]
      refine .ite (fun _ => ?_) fun _ => ih hv' hre.succ hr
      obtain ⟨x, hx⟩ := hs.exists_value hc
      obtain ⟨y, hy⟩ := hr.exists_slot hx
      refine .bind (.assign hy) fun _ e1 h1 => ih hv' hre.succ (hr.trans ?_)
      obtain ⟨hlt, rfl⟩ := assign_eq_ok.1 h1
      exact rewords_setValue (hr.isName.2 ⟨c, hc, hki⟩) hlt
    · cases v with
      | stack t =>
        have ht := (hb.slot_node hs hne (v := .stack t) trivial).1 hsl
        refine .step rfl ?_
        rw [hr.row]
        have hf : Sure ((src.blocksOf t).forM nested) e :=
          .forM (I := fun e => Rewords new src e.store) _ hr
            (fun d hd => hn i d (.inr ⟨t, ht, hd⟩))
            fun d _ e1 u e2 h1 h2 => h1.trans ((hwo d).ok h2)
        refine hf.bind fun _ e1 h1 => ih hv' ?_ (hr.trans ?_)
        · cases hl : (src.blocksOf t).getLast? with
          | none => exact hre.succ
          | some last => exact .inr ⟨i, Nat.lt_succ_self i, t, ht, hl⟩
        · exact (Keeps.forM _ fun d _ => hwo d).ok h1
      | block d =>
        have hd := (hb.slot_node hs hne (v := .block d) trivial).1 hsl
        refine (hn i d (.inl hd) e hr).bind fun _ e1 h1 => ih hv' hre.succ ?_
        exact hr.trans ((hwo d).ok h1)
      | _ => exact ih hv' hre.succ hr

/-- Renaming in a block, where the walk strays from none below it. -/
theorem sure_renameInBlock (hsr : src.Sound) (hold : old.Literal) (hn : new.Literal)
    (hs : ∀ n d, src.Under n b d → ¬src.Strays d) (hr : Rewords new src e.store) :
    Sure (renameInBlock old new b) e := by
  have hto : ∀ n b, (∀ d, src.Under n b d → ¬src.Strays d) → ∀ e : Editor, Rewords new src e.store →
      Sure (renameInBlockTo old new n b) e := by
    intro n
    induction n with
    | zero => exact fun _ _ _ _ => .pure _
    | succ n ih =>
      intro b hs e hr
      refine .step rfl ?_
      refine sure_renameValues hsr hold hn (fun c => ?_) (hs b (.inl rfl)) (fun i c hc e hr => ?_)
        hr (fun k => by rw [Nat.zero_add, slot?]) (.inl rfl) hr
      · exact keeps_renameInBlockTo old (fun _ _ _ => rewording_assign) n c
      · exact ih c (fun d hd => hs d (.inr ⟨i, c, hc, hd⟩)) e hr
  exact .step rfl (hto _ b (hs _) e hr)

/-- A step of renaming that a calm editor can take. -/
def Reworks (new : Value) (e e' : Editor) : Prop := Carries NoFile e e' ∧ Rewording new e e'

instance (new : Value) : IsPreorder Editor (Reworks new) where
  refl e := ⟨refl_of (Carries NoFile) e, refl_of (Rewording new) e⟩
  trans _ _ _ h h' := ⟨trans_of (Carries NoFile) h.1 h'.1, trans_of (Rewording new) h.2 h'.2⟩

theorem reworks_renameInBlock (old : Value) (hne : new.Literal) (id : BlockId) :
    Keeps (Reworks new) (renameInBlock old new id) :=
  keeps_renameInBlock old (fun b i e hn =>
    ⟨⟨(moves_assign b i hne).run e, (Works.assign_name hn).abides⟩, rewording_assign hn⟩) id

theorem reworks_redraw (i : Int) : Keeps (Reworks new) (redraw i) :=
  ⟨fun e => ⟨⟨(moves_redraw i).run e, (abides_redraw i).run e⟩,
    rewords_of_bare (bare_of_unseen ((displays_redraw i).run e))⟩⟩

/-- Renaming in all stacks, where the walk strays from no block that can be reached. -/
theorem sure_renameEverywhere (h : e.Calm) (hold : old.Literal) (hn : new.Literal)
    (hs : ∀ d, Reached e.store e.workspace (.block d) → ¬e.store.Strays d) :
    Sure (renameEverywhere old new) e := by
  have hsr : e.store.Sound := Sound.of_bare h.sound.store
  have hbl := reworks_renameInBlock old hn
  have hr := fun bs => Keeps.forM (R := Reworks new) bs fun b _ => hbl b
  unfold Sure FailsOnly
  rw [renameEverywhere_eq]
  -- between two blocks only names were changed since the start
  refine FailsOnly.forM (I := Reworks new e) _ (refl_of (Reworks new) e) (fun p hp e1 h1 => ?_)
    fun p _ e1 _ e2 h1 h2 => trans_of (Reworks new) h1 (Keeps.ok ?_ h2)
  · refine .step rfl ?_
    rw [h1.2.row]
    refine .bind (.forM (I := Reworks new e) _ h1 (fun b hb e2 h2 => ?_)
      fun b _ e2 _ e3 h2 h3 => trans_of (Reworks new) h2 ((hbl b).ok h3)) fun _ e2 h2 => ?_
    · refine sure_renameInBlock hsr hold hn (fun n d hd => hs d ?_) h2.2
      exact reached_of_under hd (.row (.top (List.fst_mem_of_mem_zipIdx hp)) hb)
    · have hc := (trans_of (Reworks new) h1 ((hr _).ok h2)).1.calm (fun _ => False.elim) h
      exact hc.ready.sure_redraw _
  · exact .bind reads_store.keeps fun s => .bind (hr _) fun _ => reworks_redraw _

end Walk

/-! ## Variables -/

/-- A change of the declared variables. -/
theorem Editor.Calm.declares (h : e.Calm) {globals : List Value} (hg : ∀ v ∈ globals, v.Literal) :
    ({ e with globals } : Editor).Calm := by
  have hc : Carries NoFile e { e with globals } :=
    ⟨.globals fun _ => hg, .of_parts rfl rfl rfl⟩
  exact hc.calm (fun _ => False.elim) h

theorem Editor.Calm.asks (h : e.Calm) (dialog : Option (Dialog × Purpose)) :
    ({ e with dialog } : Editor).Calm :=
  h.congr rfl rfl rfl

theorem nameable_of_literal (hv : v.Literal) : v.nameable = .ok () := by
  cases v <;> first | rfl | exact hv.elim

theorem sure_forgetName {name : Value} (hn : name.Literal) (hk : hasName e.globals name = true) :
    Sure (forgetName name) e := by
  unfold forgetName
  rw [nameable_of_literal hn]
  refine .read (reads_ofExcept _) (.ofExcept nofun) fun _ _ => .step rfl ?_
  rw [if_pos hk]
  exact .set _

theorem sure_declareName (name : String) : Sure (declareName (.text name)) e :=
  .read (reads_ofExcept _) (.ofExcept nofun) fun _ _ => .modify _

/-- The answer to a question whether to rename or to delete a variable. -/
theorem sure_answerRename (h : e.Calm) (hold : old.Literal) {button : Button}
    (hk : button = .yes → hasName e.globals old = true)
    (hs : button = .yes → ∀ d, Reached e.store e.workspace (.block d) → ¬e.store.Strays d)
    (new : Option String) : Sure (answerRename button old new) e := by
  unfold answerRename
  refine .step rfl (.ite (fun hy => ?_) fun _ => .pure _)
  refine .bind (sure_forgetName hold ?_) fun _ e1 h1 => ?_
  · exact hk hy
  obtain ⟨-, rfl⟩ := forgetName_eq_ok h1
  have hl : ∀ v ∈ e.globals.filter fun n => !n.sameName old, v.Literal := fun v hv =>
    h.steady.globals v (List.mem_of_mem_filter hv)
  have hf := (h.asks none).declares hl
  cases new with
  | none => exact sure_renameEverywhere hf hold trivial (hs hy)
  | some name =>
    refine (sure_declareName name).bind fun _ e2 h2 => ?_
    obtain rfl := declareName_eq_ok h2
    refine sure_renameEverywhere (hf.declares fun v hv => ?_) hold trivial (hs hy)
    rcases mem_insertName hv with rfl | hv
    · trivial
    · exact hl v hv

/-- The answer to the question for the name of a new variable. -/
theorem sure_answerCreate (h : e.Calm) {spot : Spot} (hn : e.store.IsName spot.block spot.slot)
    (button : Button) (name : String) (i : Int) : Sure (answerCreate button name spot i) e := by
  obtain ⟨c, hc, hk⟩ := hn
  obtain ⟨v, hv⟩ := h.exists_value hc
  unfold answerCreate
  refine .step rfl (.ite (fun _ => .step rfl ?_) fun _ => .pure _)
  refine .ite (fun _ => ?_) fun _ => .pure _
  refine .bind (.assign hv) fun _ e1 h1 => ?_
  have hf := (h.asks none).assign hc (by simp [hk]) (v := .text name) trivial h1
  exact (hf.ready.sure_redraw i).bind fun _ _ _ => sure_declareName name

/-! ## Files -/

/-- Blocks can be saved, and stacks that have places. -/
theorem exists_savedTo {s : Store} (hs : s.Sound) (hh : s.Housed) (n : Nat) :
    (∀ b, ∃ j, s.savedBlockTo n b = .ok j) ∧ ∀ t, s.Located t → ∃ j, s.savedStackTo n t = .ok j := by
  induction n with
  | zero => exact ⟨fun _ => ⟨_, rfl⟩, fun _ _ => ⟨_, rfl⟩⟩
  | succ n ih =>
    refine ⟨fun b => ?_, fun t ⟨x, y, hp⟩ => ?_⟩
    · have hva : ∀ v ∈ (s.block b).values, ∃ j,
          Store.savedWith (s.savedBlockTo n) (s.savedStackTo n) v = .ok j := by
        intro v hv
        obtain ⟨i, hi⟩ := List.getElem?_of_mem hv
        obtain ⟨c, hc, hf⟩ := hs.fits_slot? hi
        cases v with
        | block b' => exact ih.1 b'
        | stack t => exact ih.2 t (hh.located hs hi)
        | none | bool _ | text _ => exact ⟨_, rfl⟩
        | _ => exact hf.elim
      obtain ⟨js, hjs⟩ := exists_forall₂ hva
      exact ⟨_, Store.savedBlockTo_succ_eq_ok.2 ⟨js, hjs.flip, rfl⟩⟩
    · obtain ⟨js, hjs⟩ := exists_forall₂ fun b (_ : b ∈ s.blocksOf t) => ih.1 b
      have hn : [Value.num x, .num y].mapM
          (Store.savedWith (s.savedBlockTo n) (s.savedStackTo n)) =
          .ok [Tree.numberJson x, Tree.numberJson y] := Store.mapM_savedWith_num [x, y]
      refine ⟨.object [("blocks", .array js), ("pos", .array [Tree.numberJson x, Tree.numberJson y])], ?_⟩
      rw [Store.savedStackTo, mapM_eq_ok.2 hjs.flip, hp]
      simp only [hn]
      rfl

/-- A calm editor can write its project. -/
theorem Editor.Calm.exists_projectText (h : e.Calm) :
    ∃ text, projectText e.store e.workspace e.globals = .ok text := by
  obtain ⟨-, hs⟩ := exists_savedTo (Store.Sound.of_bare h.sound.store) h.housed e.store.depth
  obtain ⟨js, hjs⟩ := exists_forall₂ fun t (ht : t ∈ e.workspace) => hs t (h.located t ht)
  obtain ⟨names, hn⟩ := exists_forall₂ (l := e.globals) (R := fun j v =>
    Store.savedWith (fun id => e.store.savedBlock id) (fun id => e.store.savedStack id) v = .ok j)
    fun v hv => by
      have hl := h.steady.globals v hv
      cases v with
      | none | bool _ | text _ => exact ⟨_, rfl⟩
      | _ => exact hl.elim
  exact ⟨_, except_bind_eq_ok.2 ⟨js, mapM_eq_ok.2 hjs.flip,
    except_bind_eq_ok.2 ⟨names, mapM_eq_ok.2 hn.flip, rfl⟩⟩⟩

/-- A step that is told of the faults of another one. -/
theorem FailsOnly.tryCatch {α : Type} {p : Fault → Prop} {x : Edit α} {f : Fault → Edit α}
    (hf : ∀ g e1, x e = .error g e1 → FailsOnly p (f g) e1) : FailsOnly p (tryCatch x f) e := by
  intro g e2 h
  change EStateM.tryCatch x f e = _ at h
  delta EStateM.tryCatch at h
  cases hx : x e with
  | ok a e1 => simp [hx] at h
  | error g1 e1 =>
    simp only [hx] at h
    exact hf g1 e1 hx g e2 h

theorem sure_showFileTrouble (part : Nat) : Sure (showFileTrouble part) e :=
  sure_showDialog _ _ _ _ _

theorem sure_answerSave (h : e.Calm) (button : Button) (path : String) :
    Sure (answerSave button path) e := by
  obtain ⟨text, ht⟩ := h.exists_projectText
  unfold answerSave
  refine .step rfl (.ite (fun _ => .step rfl ?_) fun _ => .pure _)
  refine .ofExcept_bind (fun f hf => ?_) fun text' _ => ?_
  · cases ht.symm.trans hf
  dsimp only
  split
  · exact .step rfl (sure_showDialog _ _ _ _ _)
  · exact sure_showFileTrouble 2

/-- Whatever goes wrong when a project is opened is told. -/
theorem sure_answerOpen (button : Button) (path : String) : Sure (answerOpen button path) e := by
  unfold answerOpen
  refine .step rfl (.ite (fun _ => ?_) fun _ => .pure _)
  exact .tryCatch fun _ _ _ => sure_showFileTrouble 3

/-! ## Dialogs -/

/-- The name that a variable is to lose by an event: the answer to an open question is yes. -/
def Editor.withdraws (e : Editor) (ev : Event) : Option Value :=
  match e.dialog with
  | some (d, .renameVariable name) | some (d, .deleteVariable name) =>
    if (d.handle e.devices.mouse ev).2 = some .yes then some name else none
  | _ => none

/-- Every answer to a dialog is followed, when it is not to take back a name that is not declared or
that the walk through all blocks would stray from. -/
theorem sure_handleDialog (h : e.Calm) (hc : e.Composed s0) {d : Dialog} {purpose : Purpose}
    {ev : Event} (hd : e.dialog = some (d, purpose))
    (hk : ∀ name, e.withdraws ev = some name → hasName e.globals name = true)
    (hs : ∀ name, e.withdraws ev = some name →
      ∀ b, Reached e.store e.workspace (.block b) → ¬e.store.Strays b) :
    Sure (handleDialog d purpose ev) e := by
  have haw := hc.aware.asked d purpose hd
  unfold handleDialog
  refine .step rfl ?_
  rcases hh : d.handle e.devices.mouse ev with ⟨d', pressed⟩
  refine .step rfl ?_
  have has := h.asks (some (d', purpose))
  cases pressed with
  | none => exact .pure _
  | some button =>
    have ha : ∀ name, purpose = .renameVariable name ∨ purpose = .deleteVariable name →
        button = .yes → e.withdraws ev = some name := by
      rintro name (rfl | rfl) hy <;> simp [Editor.withdraws, hd, hh, hy]
    cases purpose with
    | createVariable spot i => exact sure_answerCreate has haw.1 button d'.value i
    | renameVariable name =>
      exact sure_answerRename has haw.1 (fun hy => hk name (ha name (.inl rfl) hy))
        (fun hy => hs name (ha name (.inl rfl) hy)) (some d'.value)
    | deleteVariable name =>
      exact sure_answerRename has haw.1 (fun hy => hk name (ha name (.inr rfl) hy))
        (fun hy => hs name (ha name (.inr rfl) hy)) none
    | save => exact sure_answerSave has button d'.value
    | load => exact sure_answerOpen button d'.value
    | close => exact .modify _

end BlockStudio
