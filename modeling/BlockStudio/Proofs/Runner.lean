import BlockStudio.Proofs.BlankStack
import BlockStudio.Proofs.Composed
import BlockStudio.Proofs.Grammar
import BlockStudio.Proofs.Quitting
import BlockStudio.Proofs.OpenedBodies

/-!
# The editor runs programs step by step

A program that was started in the editor takes one step at each tick.  Between the ticks the mouse moves,
the wheel is turned, time passes and the window is drawn.  A stack may be dragged meanwhile, and then the
search for a place to join it opens bodies in the program that is running.  The program notices none of
this: after any such happenings its environment is that of a plain run of as many steps, and when the run
has ended, its end was told once.

`Attends` is what the happenings between ticks keep, `Tracks` says how far the program in the editor has
come, and `watches_foldl` carries both along a list of happenings.
-/

namespace BlockStudio

open Forest Edit Run Editor Store

variable {e e₁ e' : Editor}

/-! ## The first stack that starts a program -/

/-- Whether a stack begins with the block that starts a program. -/
def Editor.startsProgram (e : Editor) (t : StackId) : Bool :=
  match e.store.blocksOf t with
  | [] => false
  | b :: _ => (e.store.definitionOf b).id = "start"

theorem startStacks_eq_ok {ts : List StackId} (h : e.startStacks = .ok ts) :
    ts = e.workspace.filter e.startsProgram := by
  obtain ⟨named, hna, h⟩ := except_bind_eq_ok.1 h
  cases h
  have hnm := mapM_eq_ok.1 hna
  clear h hna
  generalize e.workspace = workspace at hnm
  induction hnm with
  | nil => rfl
  | @cons t p _ _ hp _ ih =>
    obtain ⟨name, hn, hp⟩ := except_bind_eq_ok.1 hp
    cases hp
    have hs : decide (name = "start") = e.startsProgram t := by
      rcases hr : e.store.blocksOf t with _ | ⟨b, row⟩ <;> simp only [firstName, hr] at hn
      · cases hn
      · cases hn
        simp only [startsProgram, hr]
    rw [List.filter_cons, List.filter_cons, ← ih, ← hs]
    split <;> simp

/-! ## How an end is told -/

/-- The program came to its end by itself: it quits, or asks for a value where no block gives one. -/
def Exit.isEnd : Exit → Bool
  | .quit | .fault .ended | .fault .exhausted => true
  | _ => false

/-- What there is to say about an exit. -/
def Exit.text : Exit → String
  | .fault f => f.message
  | _ => ""

/-- The lines that tell how a run ended; none while it goes on. -/
def Run.Ending.closing : Ending → List String
  | .running => []
  | .finished => ["", "Program finished."]
  | .stopped exit =>
    if exit.isEnd then ["", "Program finished."] else ["", "Program encountered an error.", exit.text]

theorem closing_stopped (exit : Exit) : (Run.Ending.stopped exit).closing = exit.report := by
  cases exit with
  | fault f => cases f <;> rfl
  | _ => rfl

/-- A scene in which lines were said. -/
def Scene.sayAll (c : Scene) (lines : List String) : Scene := { c with env := c.env.sayAll lines }

/-! ## What happens around a program -/

/-- What can happen to the editor while a program runs. -/
inductive Happening where
  /-- A tick, at which the program takes a step. -/
  | tick
  /-- The mouse moves by a distance. -/
  | motion (d : Point)
  /-- The wheel is turned. -/
  | wheel (y : Num)
  /-- Time passes. -/
  | update (dt : Num)
  /-- The window is drawn. -/
  | draw
  /-- The mouse is elsewhere, and other keys are held. -/
  | devices (d : Devices)

namespace Happening

/-- Whether something is a tick. -/
def isTick : Happening → Bool
  | tick => true
  | _ => false

/-- What the editor does when something happens. -/
def act : Happening → Edit Unit
  | tick => handle .tick
  | motion d => handle (.motion d)
  | wheel y => handle (.wheel y)
  | update dt => Edit.update dt
  | draw => drawWindow
  | devices d => modify fun e => { e with devices := d }

/-- The editor after something happened, also if it failed on the way. -/
def after (e : Editor) (x : Happening) : Editor := endState (x.act e)

end Happening

/-- What the program depends on besides the store. -/
def Editor.course (e : Editor) : Option (Dialog × Purpose) × Scene × Option (List Task) :=
  (e.dialog, e.scene, e.program)

/-- The program is left alone, and all that changes in the store is that bodies are opened. -/
structure Attends (e e' : Editor) : Prop where
  moves : Moves NoFile e e'
  recalls : e.core.Steady → e.store.Recalls e'.store
  course_eq : e'.course = e.course

instance : IsPreorder Editor Attends where
  refl e := ⟨refl e, fun _ => (Grown.refl _).recalls, rfl⟩
  trans _ _ _ h h' := ⟨h.moves.trans h'.moves,
    fun hs => (h.recalls hs).trans (h'.recalls (h.moves hs).1), h'.course_eq.trans h.course_eq⟩

theorem attends_of_bare (hm : Moves NoFile e e') (hb : e'.store.bare = e.store.bare)
    (hc : e'.course = e.course) : Attends e e' :=
  ⟨hm, fun _ => (grown_of_bare_eq hb).recalls, hc⟩

theorem attends_of_core (hco : e'.core = e.core) (hc : e'.course = e.course) : Attends e e' :=
  attends_of_bare (.of_core hco) (congrArg (fun c => c.forest.store) hco) hc

theorem attends_findCandidate : Keeps Attends findCandidate := by
  refine ⟨fun e => ⟨moves_findCandidate.run e, fun hs => ?_, ?_⟩⟩
  · have hse : Seeks NoFile { e with candidate := none } (endState (findCandidate e)) :=
      seeks_findCandidate hs
    exact (hse.glances hs).recalls
  · exact (congrArg course (roams_search.findCandidate.run e).2 :)

theorem attends_update (dt : Num) : Keeps Attends (Edit.update dt) := by
  refine keeps_update (fun _ _ _ => attends_of_core rfl rfl) ⟨fun e => ?_⟩ (fun i => ⟨fun e => ?_⟩)
    (fun t => ⟨fun e => ?_⟩) (fun _ _ => attends_of_core rfl rfl) attends_findCandidate
    (fun _ _ => attends_of_core rfl rfl) dt
  · have ho := offers_drawPalette.run e
    exact attends_of_bare ho.moves (congrArg Forest.store ho.forest_eq :)
      (congrArg course ho.1 :)
  · have hr := (repaints_rescaleAll i).run e
    exact attends_of_bare hr.moves (bare_of_unseen hr.1)
      (congrArg course hr.1 :)
  · have hp := (depicts_stack t).pictures.run e
    exact attends_of_bare ((depicts_stack t).pictures.aside.moves.run e)
      (bare_of_unseen (unseen_of_bare hp)) (congrArg course hp :)

theorem Pans.attends (h : Pans e e') : Attends e e' := by
  obtain ⟨camera, scroll, rfl, -⟩ := h
  exact attends_of_core rfl rfl

theorem handle_of_no_dialog (hd : e.dialog = none) :
    (∀ d, handle (.motion d) e = handleMotion d e) ∧
      ∀ y, handle (.wheel y) e = handleWheel y e := by
  refine ⟨fun d => ?_, fun y => ?_⟩ <;> (rw [handle, get_bind]; simp only [hd])

/-- Whatever happens between ticks leaves the program alone. -/
theorem Happening.attends {x : Happening} (hx : x.isTick = false) (hd : e.dialog = none) :
    Attends e (x.after e) := by
  cases x with
  | tick => cases hx
  | motion d =>
    rw [after, act, (handle_of_no_dialog hd).1 d]
    exact ((pans_handleMotion d).run e).attends
  | wheel y =>
    rw [after, act, (handle_of_no_dialog hd).2 y]
    exact ((pans_handleWheel y).run e).attends
  | update dt => exact (attends_update dt).run e
  | draw =>
    have hi := inks_drawWindow.run e
    exact attends_of_core (congrArg core hi :) (congrArg course hi :)
  | devices d => exact attends_of_core rfl rfl

/-! ## Ticks -/

namespace Run

variable {s : Store} {limits : Limits} {ts : List Task} {c : Scene}

/-- How a run of one more step ends. -/
theorem follow_succ (n : Nat) : (follow s limits (n + 1) ts c).2 =
    match step s limits ts c with
    | .ok none after => (.finished, after)
    | .ok (some (_, rest)) after => (follow s limits n rest after).2
    | .error exit after => (.stopped exit, after) := by
  rw [follow]
  rcases step s limits ts c with ⟨_ | ⟨v, rest⟩, after⟩ | ⟨exit, after⟩ <;> rfl

end Run

/-- How far the program in the editor has come after some steps of a plain run from a start: the run goes
on with tasks that belong together, or it has ended and its end was told. -/
inductive Tracks (s : Store) (start : List Task) (c0 : Scene) (k : Nat) (e : Editor) : Prop where
  | running {ts us : List Task} (hprogram : e.program = some us)
    (htasks : (s.opening e.store).Twins ts us) (hplain : e.scene.Plain)
    (hrun : ∀ n, (Run.follow s .generous (k + n) start c0).2 =
      (Run.follow s .generous n ts e.scene).2)
  | ended (ending : Run.Ending) (c : Scene) (hprogram : e.program = none)
    (hending : ending ≠ .running) (hscene : e.scene = c.sayAll ending.closing)
    (hrun : ∀ n, (Run.follow s .generous (k + n) start c0).2 = (ending, c))

section Tracks

variable {s : Store} {start : List Task} {c0 : Scene} {k : Nat}

theorem Tracks.attends (h : Tracks s start c0 k e) (hs : e.core.Steady) (ha : Attends e e') :
    Tracks s start c0 k e' := by
  have hc := ha.course_eq
  simp only [course, Prod.mk.injEq] at hc
  obtain ⟨-, hs', hp'⟩ := hc
  cases h with
  | running hp ht hpl hr =>
    refine .running (hp'.trans hp) (twins_recalls (ha.recalls hs) ht) ?_ ?_
    · rwa [hs']
    · rwa [hs']
  | ended ending c hp he hsc hr =>
    exact .ended ending c (hp'.trans hp) he (hs'.trans hsc) hr

theorem handle_tick_of_program (hd : e.dialog = none) {us : List Task}
    (hp : e.program = some us) : handle .tick e = stepProgram us e := by
  rw [handle, get_bind]
  simp only [hd, hp]

theorem handle_tick_of_no_program (hd : e.dialog = none) (hp : e.program = none) :
    handle .tick e = .ok () e := by
  rw [handle, get_bind]
  simp only [hd, hp]
  rfl

/-- A tick is one more step of the program, or nothing after its end. -/
theorem Tracks.tick (h : Tracks s start c0 k e) (ho : s.Openable) (hr : s.Recalls e.store)
    (hd : e.dialog = none) :
    ∃ e', handle .tick e = .ok () e' ∧ (∃ scene program, e' = { e with scene, program }) ∧
      Tracks s start c0 (k + 1) e' ∧ (e.program = none → e' = e) := by
  have hn : ∀ n, k + 1 + n = k + (n + 1) := fun n => by omega
  cases h with
  | ended ending c hp hen hse hru =>
    refine ⟨e, handle_tick_of_no_program hd hp, ⟨_, _, rfl⟩, ?_, fun _ => rfl⟩
    exact .ended ending c hp hen hse fun n => by rw [hn, hru]
  | @running ts us hp ht hpl hru =>
    have hno : e.program ≠ none := by simp [hp]
    have he := step_opening ho hr .generous ht hpl
    rw [handle_tick_of_program hd hp, stepProgram, get_bind]
    generalize hs : step s .generous ts e.scene = r at he
    generalize step e.store .generous us e.scene = r' at he
    -- both steps give and leave the same, with tasks that belong together
    rcases r with ⟨a, c⟩ | ⟨exit, c⟩ <;> rcases r' with ⟨b, c'⟩ | ⟨exit', c'⟩ <;> try exact he.elim
    · obtain ⟨ha, hsc⟩ := he
      obtain ⟨rfl, hc⟩ := scenes_opening.1 hsc
      rcases a with _ | ⟨v, ts'⟩ <;> rcases b with _ | ⟨w, us'⟩ <;> try exact ha.elim
      · refine ⟨_, rfl, ⟨_, _, rfl⟩, .ended .finished c' rfl (by simp) rfl fun n => ?_,
          fun h => absurd h hno⟩
        rw [hn, hru, follow_succ, hs]
      · refine ⟨_, rfl, ⟨_, _, rfl⟩, .running rfl ha.2 hc fun n => ?_, fun h => absurd h hno⟩
        rw [hn, hru, follow_succ, hs]
    · obtain rfl := exits_opening he.1
      obtain ⟨rfl, hc⟩ := scenes_opening.1 he.2
      refine ⟨_, rfl, ⟨_, _, rfl⟩, .ended (.stopped exit') c' rfl (by simp) ?_ fun n => ?_,
        fun h => absurd h hno⟩
      · rw [closing_stopped]
        rfl
      · rw [hn, hru, follow_succ, hs]

/-- What a program that has come as far as a plain run shows of it. -/
theorem Tracks.shown (h : Tracks s start c0 k e) :
    e.scene = (Run.follow s .generous k start c0).2.2.sayAll
        (Run.follow s .generous k start c0).2.1.closing ∧
      (e.program = none ↔ (Run.follow s .generous k start c0).2.1 ≠ .running) := by
  cases h with
  | running hp _ _ hr =>
    have hr : (Run.follow s .generous k start c0).2 = (.running, e.scene) := hr 0
    rw [hr, hp]
    exact ⟨rfl, by simp⟩
  | ended ending c hp he hs hr =>
    have hr : (Run.follow s .generous k start c0).2 = (ending, c) := hr 0
    rw [hr, hp]
    exact ⟨hs, by simpa using he⟩

/-! ## Runs of happenings -/

/-- A steady editor without a dialog, in which a program has come as far as a plain run. -/
structure Watches (s : Store) (start : List Task) (c0 : Scene) (k : Nat) (e : Editor) : Prop where
  steady : e.core.Steady
  recalls : s.Recalls e.store
  dialog : e.dialog = none
  tracks : Tracks s start c0 k e

theorem Watches.attends (h : Watches s start c0 k e) (ha : Attends e e') :
    Watches s start c0 k e' where
  steady := (ha.moves h.steady).1
  recalls := h.recalls.trans (ha.recalls h.steady)
  dialog := (congrArg Prod.fst ha.course_eq).trans h.dialog
  tracks := h.tracks.attends h.steady ha

theorem Watches.tick (h : Watches s start c0 k e) (ho : s.Openable) :
    ∃ e', handle .tick e = .ok () e' ∧ Watches s start c0 (k + 1) e' ∧
      (e.program = none → e' = e) := by
  obtain ⟨e', hr, ⟨scene, program, rfl⟩, ht, he⟩ :=
    h.tracks.tick ho h.recalls h.dialog
  exact ⟨_, hr, ⟨h.steady, h.recalls, h.dialog, ht⟩, he⟩

/-- After any happenings, the program has come as far as a plain run of as many steps as there were
ticks. -/
theorem watches_foldl (h : Watches s start c0 k e) (ho : s.Openable)
    (ha : List Happening) :
    Watches s start c0 (k + ha.countP (·.isTick)) (ha.foldl Happening.after e) := by
  induction ha generalizing e k with
  | nil => exact h
  | cons x rest ih =>
    rw [List.foldl_cons, List.countP_cons]
    by_cases hx : x.isTick = true
    · obtain rfl : x = .tick := by cases x <;> first | rfl | cases hx
      obtain ⟨e', hr, hw, -⟩ := h.tick ho
      have haf : Happening.after e .tick = e' := by
        rw [Happening.after, Happening.act, hr]
        rfl
      have hc : k + (rest.countP (·.isTick) + 1) = k + 1 + rest.countP (·.isTick) := by omega
      rw [if_pos hx, haf, hc]
      exact ih hw
    · rw [if_neg hx]
      exact ih (h.attends (Happening.attends (by simpa using hx) h.dialog))

end Tracks

/-! ## From the start -/

section Start

variable {considered : Editor → Event → Prop} {phase : Phase}

/-- In a reachable editor a program does not notice that a body is opened. -/
theorem Reachable.openable (h : Reachable (Written considered) considered phase e) :
    e.store.Openable := by
  have hs : e.core.Steady := (h.steady fun _ => Written.saves).1
  have hso : e.store.Sound := Sound.of_bare hs.forest.store
  have hb := h.blank fun _ => Written.saves
  have hlt : blankStack.index < e.store.allStacks.size := by simpa [Editor.forest] using hb.lt
  refine ⟨hso, ⟨⟨hlt, hso.row_lt _ hlt⟩, ?_⟩, fun b i c v hc hk hv => ?_⟩
  · rw [← blocksOf_forest]
    exact hb.row
  · exact ((h.composed fun _ => Written.savesComposed).housed b i c v hc hk hv).imp_right
      fun h => h.imp fun _ => And.left

/-- Pressing the keys for it starts the first stack that can be started. -/
theorem handle_start (hf : e.forest.Filled) (hd : e.dialog = none)
    (hfr : e.editing = true → e.edited = none) (hco : e.devices.control = true)
    (hi : e.program = none) {stack : StackId} (hst : e.workspace.find? e.startsProgram = some stack)
    (text : String) : handle (.key Key.enter.code text) e =
      .ok () { e with scene := { e.scene with env := {} }, program := some (Run.program stack) } := by
  obtain ⟨starts, hs⟩ := exists_startStacks hf
  have hfi : starts.head? = some stack := by rw [startStacks_eq_ok hs, List.head?_filter, hst]
  obtain ⟨rest, rfl⟩ := List.head?_eq_some_iff.1 hfi
  have hc : handle (.key Key.enter.code text) e = handleCommand Key.enter.code e := by
    rw [handle, get_bind]
    simp only [hd]
    rw [handleKey, get_bind]
    rcases he : e.editing with _ | _ <;> rcases hed : e.edited with _ | spot <;>
      simp only [hco, if_true]
    cases (hfr he).symm.trans hed
  have ht : handleCommand Key.enter.code = toggleProgram := rfl
  rw [hc, ht, toggleProgram, get_bind, hi, hs]
  rfl

/-- In every reachable editor without a dialog, a slot that is typed into or a running program, the keys
for it start the first stack of the workspace that begins with the block for it.  After any ticks,
motions of the mouse, turns of the wheel, updates and drawings, in any order, the scene is that of a
plain run of the stack by as many steps as there were ticks, in a fresh environment; if these steps reach
the end of the run, the lines that tell it were said once behind them.  From then on no program is
running, and a tick changes nothing. -/
theorem program_runs_as_interpreted (h : Reachable (Written considered) considered phase e)
    (hdialog : e.dialog = none) (hfree : e.editing = true → e.edited = none)
    (hcontrol : e.devices.control = true) (hidle : e.program = none) {stack : StackId}
    (hstack : e.workspace.find? e.startsProgram = some stack) (text : String) :
    ∃ e₁, Edit.handle (.key Key.enter.code text) e = .ok () e₁ ∧ ∀ happenings : List Happening,
        let e' := happenings.foldl Happening.after e₁
        let run := Run.follow e.store .generous (happenings.countP (·.isTick)) (Run.program stack)
          { e.scene with env := {} }
        e'.scene = run.2.2.sayAll run.2.1.closing ∧ (e'.program = none ↔ run.2.1 ≠ .running) ∧
          ∃ e'', Edit.handle .tick e' = .ok () e'' ∧ (e'.program = none → e'' = e') := by
  have hs : e.core.Steady := (h.steady fun _ => Written.saves).1
  have hopenable := h.openable
  have hfilled := h.filled fun _ => Written.savesFilled
  refine ⟨_, handle_start hfilled hdialog hfree hcontrol hidle hstack text, fun happenings => ?_⟩
  have hlt : stack.index < e.store.allStacks.size := by
    have hroot := hs.forest.root_lt stack (workspace_subset_roots (List.mem_of_find?_eq_some hstack))
    simpa [Editor.core, Editor.forest] using hroot
  have hstart : Watches e.store (Run.program stack) { e.scene with env := {} } 0
      { e with scene := { e.scene with env := {} }, program := some (Run.program stack) } := by
    have htasks : (e.store.opening e.store).Twins (Run.program stack) (Run.program stack) :=
      .cons (.stack ⟨⟨hlt, hopenable.sound.row_lt _ hlt⟩, rfl⟩) .nil
    refine ⟨hs, (Store.Grown.refl _).recalls, hdialog, .running rfl htasks (by simp [Scene.Plain])
      fun n => ?_⟩
    rw [Nat.zero_add]
  have hwatches := watches_foldl hstart hopenable happenings
  rw [Nat.zero_add] at hwatches
  obtain ⟨e'', htick, -, hended⟩ := hwatches.tick hopenable
  obtain ⟨hscene, hprogram⟩ := hwatches.tracks.shown
  exact ⟨hscene, hprogram, e'', htick, hended⟩

/-- A block is dragged, and a program that can be started says nothing and ends within three steps. -/
def Editor.dragsBesideProgram (e : Editor) : Bool :=
  e.cursor.isSome && e.dialog.isNone && !e.editing && e.devices.control && e.program.isNone &&
    match e.workspace.find? e.startsProgram with
    | none => false
    | some stack =>
      match (Run.follow e.store .generous 3 (Run.program stack) { e.scene with env := {} }).2 with
      | (.finished, c) => c.env.output.isEmpty
      | _ => false

/-- A start and a counted loop with an unfilled body are run while a block is dragged over the body: the
program finishes, and what is said is that it did. -/
theorem program_runs_beside_dragging :
    ∃ e stack e₁, Reachable (Written fun _ _ => True) (fun _ _ => True) .waiting e ∧
      e.cursor.isSome = true ∧ e.dialog = none ∧ e.editing = false ∧ e.devices.control = true ∧
      e.program = none ∧ e.workspace.find? e.startsProgram = some stack ∧
      Edit.handle (.key Key.enter.code "") e = .ok () e₁ ∧
      let e' := [.tick, .devices ⟨⟨625, 400⟩, []⟩, .update 0, .draw, .tick, .motion ⟨0, 0⟩,
        .tick].foldl Happening.after e₁
      e'.program = none ∧ e'.scene.env.output = #["", "Program finished."] := by
  have hcheck : ∀ (e : Editor) ev, (e.opens ev).isNone = true → True ∧ e.opens ev = none :=
    fun e ev hpass => ⟨trivial, Option.isNone_iff_eq_none.1 hpass⟩
  obtain ⟨e, he, hend⟩ := exists_reachable_of_play hcheck
    (buildsProgram.take 6 ++ [(⟨⟨900, 800⟩, [306]⟩, .motion ⟨0, 0⟩)]) Editor.dragsBesideProgram
    (by decide +kernel)
  simp only [Editor.dragsBesideProgram, Bool.and_eq_true, Option.isNone_iff_eq_none,
    Bool.not_eq_true'] at hend
  obtain ⟨⟨⟨⟨⟨hcursor, hdialog⟩, hediting⟩, hcontrol⟩, hidle⟩, hend⟩ := hend
  split at hend
  case h_1 => cases hend
  case h_2 stack hstack =>
    obtain ⟨e₁, hkey, hruns⟩ := program_runs_as_interpreted he hdialog (by simp [hediting]) hcontrol
      hidle hstack ""
    obtain ⟨hscene, hprogram, -⟩ := hruns [.tick, .devices ⟨⟨625, 400⟩, []⟩, .update 0, .draw, .tick,
      .motion ⟨0, 0⟩, .tick]
    refine ⟨e, stack, e₁, he, hcursor, hdialog, hediting, hcontrol, hidle, hstack, hkey, ?_⟩
    split at hend
    case h_2 => cases hend
    case h_1 c hrun =>
      have hcount : [Happening.tick, .devices ⟨⟨625, 400⟩, []⟩, .update 0, .draw, .tick, .motion ⟨0, 0⟩,
        .tick].countP (·.isTick) = 3 := rfl
      rw [hcount, hrun] at hscene hprogram
      refine ⟨hprogram.2 nofun, ?_⟩
      rw [hscene]
      simp [Scene.sayAll, Run.Ending.closing, Environment.sayAll_eq, Array.isEmpty_iff.1 hend]

end Start

end BlockStudio
