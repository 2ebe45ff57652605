import BlockStudio.Proofs.Failing
import BlockStudio.Proofs.Standing

/-!
# What the editor fails on

In a heedful run time passes and the window is drawn without fail.  The editor fails on mishaps: a click
comes to a body that no stack was put into, a key goes into a slot that holds something else than a text,
or a variable is to go that is not declared.  All other events are handled without fail, as long as the
walk that takes a name out of the blocks does not go astray.  Only the numbers of a picture can still be
beyond reckoning.
-/

namespace BlockStudio

open Forest Editor

variable {e : Editor}

/-- An event that the editor fails on. -/
inductive Editor.Mishap (e : Editor) : Event → Prop where
  /-- A click comes to a body that no stack was put into. -/
  | hollow {button : Int} (hdialog : e.dialog = none) (h : e.PressesHollow button) :
    Mishap e (.down button)
  /-- A key goes into a slot that holds something else than a text. -/
  | clogged {code : Int} {text : String} (hdialog : e.dialog = none) (h : e.Clogged code) :
    Mishap e (.key code text)
  /-- A variable is to go that is not declared. -/
  | undeclared {ev : Event} {name : Value} (h : e.withdraws ev = some name)
    (hname : hasName e.globals name = false) : Mishap e ev

/-- A variable is to go, and behind a body the walk through the blocks asks one of them for a slot that it
does not have. -/
def Editor.GoesAstray (e : Editor) (ev : Event) : Prop :=
  ∃ name b, e.withdraws ev = some name ∧ Reached e.store e.workspace (.block b) ∧ e.store.Strays b

/-- Mishaps make the editor fail. -/
theorem Editor.Mishap.fails (h : e.Calm) {ev : Event} (hm : e.Mishap ev) :
    Fails (Edit.handle ev) e := by
  cases hm with
  | hollow hd hp =>
    refine .step rfl ?_
    rw [hd]
    exact fails_handleDown h hp
  | clogged hd hc =>
    refine .step rfl ?_
    rw [hd]
    exact fails_handleKey h hc _
  | undeclared hw hn => exact fails_of_withdraws hw hn

/-- Other events are handled, unless the walk through the blocks goes astray. -/
theorem Attained.sure_handle {files : String → Prop} (hf : ∀ text, files text → SavesInOrder text)
    (h : Attained files Heedful .waiting e) {ev : Event} (hev : e.Heedful ev)
    (hm : ¬e.Mishap ev) (ha : ¬e.GoesAstray ev) : Sure (Edit.handle ev) e := by
  have hc := h.calm hf
  have ho := h.inOrder hf
  unfold Edit.handle
  refine .step rfl ?_
  rcases hd : e.dialog with _ | ⟨d, purpose⟩
  case some =>
    refine sure_handleDialog hc ho.composed hd (fun name hn => ?_)
      fun name hn b hb hs => ha ⟨name, b, hn, hb, hs⟩
    by_contra hu
    exact hm (.undeclared hn (by simpa using hu))
  cases ev with
  | tick =>
    rcases e.program with _ | tasks
    · exact .pure _
    · exact sure_stepProgram tasks
  | down button =>
    exact sure_handleDown hc (h.drawn hf) (h.attentive_shown hf).2 ho.composed hd
      (h.marked hf rfl hd) (fun m => hev.1.menu m button hd rfl)
      fun hh => hm (.hollow hd hh)
  | up button => exact sure_handleUp hc (ho.aiming rfl hd) (h.poised hf (.inl rfl)) button
  | motion d => exact sure_handleMotion hc.eased d
  | wheel y => exact sure_handleWheel hc.eased y
  | key code text =>
    exact sure_handleKey hc ho.composed (fun hcl => hm (.clogged hd hcl)) text
  | quit => exact .pure _

/-- In every heedful run from an empty project that opens only projects that were saved, time passes
without fail and the window is drawn without fail.  Mishaps fail, and every other event is handled without
fail unless the walk through the blocks goes astray.  Faults of numbers that cannot be reckoned with are
left aside. -/
theorem fails_only_on_mishaps {phase : Phase}
    (h : Attained (Kept fun _ _ => True) Editor.Heedful phase e) :
    (∀ dt, Sure (Edit.update dt) e) ∧ (phase = .waiting → Sure Edit.drawWindow e) ∧
      ∀ ev, (e.Mishap ev → Fails (Edit.handle ev) e) ∧
        (phase = .waiting → e.Heedful ev → ¬e.Mishap ev → ¬e.GoesAstray ev → Sure (Edit.handle ev) e) := by
  have hfiles : ∀ text, Kept (fun _ _ => True) text → SavesInOrder text := fun _ => Kept.savesInOrder
  have hcalm := h.calm hfiles
  have hshown := (h.attentive_shown hfiles).2
  refine ⟨sure_update hcalm (h.drawn hfiles) hshown, fun hphase => ?_, fun ev => ⟨fun hmishap => ?_, ?_⟩⟩
  · exact sure_drawWindow hcalm hshown (h.poised hfiles (.inl hphase))
  · exact hmishap.fails hcalm
  · rintro rfl hev hmishap hastray
    exact h.sure_handle hfiles hev hmishap hastray

/-! ## Two runs -/

/-- Nothing asks for an answer, and something hangs on the mouse. -/
def Editor.dragsFreely (e : Editor) : Bool := (e.menu.isNone && e.dialog.isNone) && e.cursor.isSome

/-- A wait that is dragged over the body of a loop is let go without fail. -/
theorem wait_is_dropped_into_body :
    ∃ e, Attained (Kept fun _ _ => True) Editor.Heedful .waiting e ∧ e.cursor.isSome ∧
      e.Heedful (.up 1) ∧ ¬e.Mishap (.up 1) ∧ ¬e.GoesAstray (.up 1) ∧
      Sure (Edit.handle (.up 1)) e ∧ Sure Edit.drawWindow e ∧ Sure (Edit.update 0) e := by
  obtain ⟨e, he, hend⟩ := exists_reachable_of_play (fun _ _ => orderly_of_no_menu) (fillsBody.take 4)
    Editor.dragsFreely (by decide +kernel)
  obtain ⟨⟨hmenu, hdialog⟩, hcursor⟩ := by
    simpa only [Editor.dragsFreely, Bool.and_eq_true, Option.isNone_iff_eq_none] using hend
  have hev : e.Heedful (.up 1) := (orderly_of_no_menu (by simp [hmenu, Editor.opens, hdialog])).1
  have hwithdraws : e.withdraws (.up 1) = none := by simp [Editor.withdraws, hdialog]
  have hmishap : ¬e.Mishap (.up 1) := by
    rintro (_ | _ | h)
    cases hwithdraws.symm.trans h
  have hastray : ¬e.GoesAstray (.up 1) := by
    rintro ⟨name, b, h, -⟩
    cases hwithdraws.symm.trans h
  obtain ⟨hupdate, hdraw, hhandle⟩ := fails_only_on_mishaps he.attained
  exact ⟨e, he.attained, hcursor, hev, hmishap, hastray, (hhandle _).2 rfl hev hmishap hastray,
    hdraw rfl, hupdate 0⟩

/-- Whether a click into the body of the loop fails for want of a stack. -/
def Editor.chokesOnBody (e : Editor) : Bool :=
  (e.menu.isNone && e.dialog.isNone) &&
    match Edit.handle (.down 1) { e with devices := ⟨⟨620, 455⟩, []⟩ } with
    | .error (.noAttribute _ _) _ => true
    | _ => false

/-- A click into the body of a loop that was just put down fails. -/
theorem click_into_unfilled_body_fails :
    ∃ e, Attained (Kept fun _ _ => True) Editor.Heedful .waiting e ∧ e.Heedful (.down 1) ∧
      ∃ f e', Edit.handle (.down 1) e = .error f e' ∧ ¬f.Numeric := by
  obtain ⟨e, he, hend⟩ := exists_reachable_of_play (fun _ _ => orderly_of_no_menu) (fillsBody.take 2)
    Editor.chokesOnBody (by decide +kernel)
  obtain ⟨⟨hmenu, hdialog⟩, hend⟩ := by
    simpa only [Editor.chokesOnBody, Bool.and_eq_true, Option.isNone_iff_eq_none] using hend
  have hev : ({ e with devices := ⟨⟨620, 455⟩, []⟩ } : Editor).Heedful (.down 1) :=
    (orderly_of_no_menu (by simp [hmenu, Editor.opens, hdialog])).1
  refine ⟨_, he.attained.devices ⟨⟨620, 455⟩, []⟩, hev, ?_⟩
  split at hend
  case h_1 kind name e' hrun => exact ⟨_, e', hrun, id⟩
  case h_2 => cases hend

end BlockStudio
