import BlockStudio.Proofs.DeclaredVariables
import BlockStudio.Proofs.SureClick

/-!
# The prompt for a new name

The line of a menu that renames a variable opens a prompt with the buttons `confirm` and `cancel`, and
the enter key confirms it too.  Its answer counts only as a `yes`, which the prompt does not have: so
whatever is typed, every answer closes the prompt and renames nothing.
-/

namespace BlockStudio

open Edit Editor

variable {e e' : Editor} {x : Value} {n : String} {message title : String} {d : Dialog}
  {pressed : Button}

/-- A prompt shows its buttons from right to left and an empty field. -/
theorem Dialog.makePrompt_eq_ok {size window : Point} {buttons : List Button} {c c' : Canvas}
    (h : Dialog.makePrompt size window title message buttons c = .ok d c') :
    d.buttons = buttons.reverse ∧ d.field.map Field.value = some "" := by
  unfold Dialog.makePrompt at h
  obtain ⟨d0, c0, hm, h⟩ := bind_eq_ok.1 h
  repeat obtain ⟨_, _, -, h⟩ := bind_eq_ok.1 h
  obtain ⟨rfl, -⟩ := pure_eq_ok.1 h
  refine ⟨?_, rfl⟩
  unfold Dialog.make at hm
  repeat obtain ⟨_, _, -, hm⟩ := bind_eq_ok.1 hm
  obtain ⟨rfl, -⟩ := pure_eq_ok.1 hm
  rfl

/-- A press is a press of one of the buttons, or the enter key. -/
theorem Dialog.mem_of_handle {mouse : Point} {ev : Event} (h : (d.handle mouse ev).2 = some pressed) :
    pressed = .confirm ∨ pressed ∈ d.buttons := by
  cases ev with
  | up button =>
    obtain ⟨⟨b, r⟩, hf, rfl⟩ := Option.map_eq_some_iff.1 h
    exact .inr (List.of_mem_zip (List.mem_of_find?_eq_some hf)).1
  | key code text =>
    simp only [Dialog.handle] at h
    split_ifs at h
    exact .inl (Option.some.inj h).symm
  | _ => cases h

/-- A key that types into a prompt: any but the enter key, which confirms it. -/
def Event.Types : Event → Prop
  | .key code _ => code ≠ Key.enter.code
  | _ => False

/-- A text after a key was typed: backspace takes the last character away. -/
def Event.typeInto (text : String) : Event → String
  | .key code more => if code = Key.backspace.code then Dialog.dropLast text else text ++ more
  | _ => text

/-- The editor asks for a new name of `x`, `n` was typed by now, and all else is as in `e`. -/
def Editor.AsksName (x : Value) (n : String) (e e' : Editor) : Prop :=
  ∃ d, e'.dialog = some (d, .renameVariable x) ∧ d.buttons = [.confirm, .cancel] ∧
    d.field.map Field.value = some n ∧
    clearStrokes { e' with dialog := none } = clearStrokes { e with devices := e'.devices }

/-- What the variable is that a click asks to rename: what the slot holds that an open menu was opened
for, when its line for this is marked. -/
def Editor.renamed? (e : Editor) : Option Value :=
  match e.dialog, e.excuseDown, e.menu, itemAt? e.options e.selected with
  | none, false, some m, some .renameVariable =>
    match m.target with
    | .varSlot spot => if e.selected = -1 then none else e.store.slot? spot.block spot.slot
    | _ => none
  | _, _, _, _ => none

/-- The prompt for a new name is shown and the menu closes. -/
def Edit.askName (x : Value) : Edit Unit := do
  showPrompt "Rename Variable" "Enter new variable name:" (.renameVariable x)
  modify shut

/-- A click that asks for a new name shows the prompt and closes the menu. -/
theorem handle_down_of_renamed? (h : e.renamed? = some x) (button : Int) :
    e.dialog = none ∧ handle (.down button) e = askName x e := by
  unfold renamed? at h
  split at h
  case h_2 => cases h
  rename_i m hd he hme ho
  split at h
  case h_2 => cases h
  rename_i spot ht
  split_ifs at h with hm
  have hs : slotValue spot.block spot.slot e = .ok x e := slotValue_eq_ok.2 ⟨h, rfl⟩
  have hc : chooseOption m e =
      showPrompt "Rename Variable" "Enter new variable name:" (.renameVariable x) e := by
    unfold chooseOption
    rw [get_bind]
    simp only [ho, menuSpot, ht, pure_bind]
    rw [bind_run, hs]
  refine ⟨hd, ?_⟩
  unfold handle
  rw [get_bind]
  simp only [hd]
  rw [handleDown_choose he hme hm, bind_run, hc, ← bind_run]
  rfl

theorem asksName_of_askName (hdi : e.dialog = none) (h : askName x e = .ok () e') :
    AsksName x "" e.shut e' := by
  obtain ⟨_, e1, hs, h⟩ := bind_eq_ok.1 h
  obtain rfl := modify_eq_ok.1 h
  unfold showPrompt at hs
  rw [get_bind] at hs
  obtain ⟨d, e2, hsk, hs⟩ := bind_eq_ok.1 hs
  obtain rfl := modify_eq_ok.1 hs
  have hi : e2.clearStrokes = e.clearStrokes := (strokes_prompt ..).inks.ok hsk
  obtain ⟨c, hm, -⟩ := sketch_eq_ok.1 hsk
  obtain ⟨hb, hf⟩ := Dialog.makePrompt_eq_ok hm
  refine ⟨d, rfl, hb, hf, ?_⟩
  have hd : e2.devices = e.devices := (congrArg devices hi :)
  have hr := congrArg (fun u : Editor => { u with menu := none, editing := false, dialog := none }) hi
  simpa only [clearStrokes, hdi, hd] using hr

namespace Editor.AsksName

variable {v : Devices} {ev : Event}

/-- A typed key goes into the field. -/
theorem type (h : AsksName x n e e') (hev : ev.Types) :
    ∃ e1, handle ev { e' with devices := v } = .ok () e1 ∧ AsksName x (ev.typeInto n) e e1 := by
  obtain ⟨d, hd, hb, hf, hr⟩ := h
  obtain ⟨field, hs, rfl⟩ := Option.map_eq_some_iff.1 hf
  cases ev with
  | key code text =>
    have hc : code ≠ Key.enter.code := hev
    have hh : d.handle v.mouse (.key code text) =
        (d.retype fun was => (Event.key code text).typeInto was, none) := by
      by_cases hba : code = Key.backspace.code <;>
        simp [Dialog.handle, Event.typeInto, hs, hc, hba]
    refine ⟨{ e' with
      devices := v
      dialog := some (d.retype fun was => (Event.key code text).typeInto was, .renameVariable x) }, ?_,
      _, rfl, hb, by simp [Dialog.retype, hs], ?_⟩
    · unfold handle
      rw [get_bind]
      simp only [hd]
      unfold handleDialog
      rw [get_bind]
      simp only [hh]
      rfl
    · exact congrArg (fun u : Editor => { u with devices := v }) hr
  | _ => exact hev.elim

/-- Time stands still. -/
theorem update (h : AsksName x n e e') (dt : Num) : update dt e' = .ok () e' := by
  obtain ⟨d, hd, -⟩ := h
  unfold Edit.update
  rw [get_bind]
  simp only [hd, Option.isSome_some, if_true]
  rfl

/-- Keys are typed one after the other. -/
theorem play (h : AsksName x n e e') {typed : List (Devices × Event)}
    (ht : ∀ round ∈ typed, round.2.Types) :
    ∃ e1, play (fun _ _ => true) typed e' = .ok () e1 ∧
      AsksName x (typed.foldl (fun text round => round.2.typeInto text) n) e e1 := by
  induction typed generalizing e' n with
  | nil => exact ⟨e', rfl, h⟩
  | cons round rest ih =>
    obtain ⟨e1, hh, h1⟩ := h.type (v := round.1) (ht round List.mem_cons_self)
    obtain ⟨e2, hp, h2⟩ := ih h1 fun r hr => ht r (List.mem_cons_of_mem _ hr)
    refine ⟨e2, ?_, h2⟩
    unfold play
    rw [modify_bind, get_bind, if_pos rfl, bind_run, hh]
    dsimp only
    rw [bind_run, h1.update]
    exact hp

/-- An answer closes the prompt and changes nothing else. -/
theorem answer (h : AsksName x n e e') (hd : e'.dialog = some (d, .renameVariable x))
    (hp : (d.handle v.mouse ev).2 = some pressed) :
    (pressed = .confirm ∨ pressed = .cancel) ∧
      ∃ e1, handle ev { e' with devices := v } = .ok () e1 ∧
        e1.clearStrokes = clearStrokes { e with devices := v, dialog := none } := by
  obtain ⟨d', hdi, hb, hf, hr⟩ := h
  cases hd.symm.trans hdi
  have ha : pressed = .confirm ∨ pressed = .cancel := by
    simpa [hb] using Dialog.mem_of_handle hp
  have hy : pressed ≠ .yes := by
    rintro rfl
    simp at ha
  refine ⟨ha, { e' with devices := v, dialog := none }, ?_, ?_⟩
  · unfold handle
    rw [get_bind]
    simp only [hd]
    unfold handleDialog
    rw [get_bind]
    dsimp only
    rw [modify_bind, hp]
    simp only [answerDialog, answerRename, if_neg hy]
    rfl
  · exact congrArg (fun u : Editor => { u with devices := v, dialog := none }) hr

end Editor.AsksName

/-- A click that asks for a new name of a variable shows a prompt, which takes what is typed.  Then the
enter key confirms it, and whatever button is pressed, the prompt closes and all else stays as it was
before the click, without the menu. -/
theorem rename_prompt_only_closes (h : e.renamed? = some x) (button : Int) :
    Sure (Edit.handle (.down button)) e ∧ ∀ e₁, Edit.handle (.down button) e = .ok () e₁ →
        ∀ typed : List (Devices × Event), (∀ round ∈ typed, round.2.Types) →
          ∃ e₂ d, Edit.play (fun _ _ => true) typed e₁ = .ok () e₂ ∧
            e₂.dialog = some (d, .renameVariable x) ∧
            d.value = typed.foldl (fun text round => round.2.typeInto text) "" ∧
            (∀ mouse text, (d.handle mouse (.key Key.enter.code text)).2 = some .confirm) ∧
            ∀ v ev pressed, (d.handle v.mouse ev).2 = some pressed →
              (pressed = .confirm ∨ pressed = .cancel) ∧
              ∃ e₃, Edit.handle ev { e₂ with devices := v } = .ok () e₃ ∧
                e₃.clearStrokes = Editor.clearStrokes
                  { e with menu := none, editing := false, devices := v, dialog := none } := by
  obtain ⟨hdialog, hdown⟩ := handle_down_of_renamed? h button
  refine ⟨?_, fun e₁ h₁ typed htyped => ?_⟩
  · intro f e' hfails
    have hsure : Sure (askName x) e := (sure_showPrompt _ _ _).bind fun _ _ _ => .modify _
    exact hsure f e' (hdown.symm.trans hfails)
  have hasks := asksName_of_askName hdialog (hdown.symm.trans h₁)
  obtain ⟨e₂, hplay, hasks⟩ := hasks.play htyped
  obtain ⟨d, hd, hbuttons, hfield, hrest⟩ := id hasks
  refine ⟨e₂, d, hplay, hd, by simp [Dialog.value, hfield], fun mouse text => ?_, fun v ev pressed => ?_⟩
  · obtain ⟨field, hsome, -⟩ := Option.map_eq_some_iff.1 hfield
    simp [Dialog.handle, hsome, Key.code]
  · exact hasks.answer hd

/-- Create a variable and mark the line of the menu that renames it. -/
def marksRename : List (Devices × Event) :=
  createsVariable [(⟨⟨700, 410⟩, []⟩, .key 105 "i")] ++
    [(⟨⟨700, 410⟩, []⟩, .down 1), (⟨⟨710, 440⟩, []⟩, .motion ⟨0, 0⟩)]

/-- A click asks for a new name of a variable and shows the prompt. -/
def Editor.asksFor (e : Editor) (name : String) : Bool :=
  match e.renamed? with
  | some (.text x) => x == name && endsIn (handle (.down 1)) e fun _ => true
  | _ => false

/-- A new name that is typed and confirmed is passed over. -/
theorem rename_prompt_only_closes_of_typed :
    ∃ e e₁ e₂ e₃ : Editor, e.renamed? = some (.text "i") ∧ Edit.handle (.down 1) e = .ok () e₁ ∧
      Edit.play (fun _ _ => true) [(⟨⟨710, 440⟩, []⟩, .key 110 "n")] e₁ = .ok () e₂ ∧
      Edit.handle (.key Key.enter.code "") { e₂ with devices := ⟨⟨710, 440⟩, []⟩ } = .ok () e₃ ∧
      e₃.dialog = none ∧ e₃.globals = e.globals ∧ e₃.store = e.store := by
  obtain ⟨_, e, -, hend⟩ := exists_of_endsIn (m := do Edit.setUp; Edit.play (fun _ _ => true) marksRename)
    (s := .blank 1200 900 Catalogue.blocks .empty [] .empty) (p := (Editor.asksFor · "i"))
    (by decide +kernel)
  unfold Editor.asksFor at hend
  split at hend
  case h_2 => cases hend
  rename_i name hrenamed
  simp only [Bool.and_eq_true, beq_iff_eq] at hend
  obtain ⟨rfl, hends⟩ := hend
  obtain ⟨_, e₁, h₁, -⟩ := exists_of_endsIn hends
  obtain ⟨e₂, d, hplay, -, -, henter, hanswer⟩ := (rename_prompt_only_closes hrenamed 1).2 e₁ h₁
    [(⟨⟨710, 440⟩, []⟩, .key 110 "n")] (by simp [Event.Types, Key.code])
  obtain ⟨-, e₃, h₃, hrest⟩ := hanswer ⟨⟨710, 440⟩, []⟩ _ _ (henter _ "")
  exact ⟨e, e₁, e₂, e₃, hrenamed, h₁, hplay, h₃, (congrArg Editor.dialog hrest :),
    (congrArg Editor.globals hrest :), (congrArg Editor.store hrest :)⟩

/-- Renaming a variable and confirming it leaves the old name declared and in its slot. -/
theorem confirmed_prompt_keeps_name : endsIn (do
      Edit.setUp
      Edit.play (fun _ _ => true) (marksRename ++ [(⟨⟨710, 440⟩, []⟩, .down 1),
        (⟨⟨710, 440⟩, []⟩, .key 110 "n"), (⟨⟨710, 440⟩, []⟩, .key Key.enter.code "")]))
      (.blank 1200 900 Catalogue.blocks .empty [] .empty) (fun e =>
        e.dialog.isNone && e.namesFirst "i" && hasName e.globals (.text "i") &&
          !hasName e.globals (.text "n")) = true := by
  decide +kernel

end BlockStudio
