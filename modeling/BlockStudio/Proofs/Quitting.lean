import BlockStudio.Editor.Handle
import BlockStudio.Proofs.LoopControl
import BlockStudio.Proofs.StepTermination

/-!
# Quitting ends the program

The block that ends the program leaves by an exit that no loop and no attempt catches.  So from
wherever a step comes to such a block, through bodies, branches, loops, attempts, what attempts do
about failures, and blocks in slots, the step ends there: the exit goes back through all that waits,
and nothing runs and nothing changes on the way.  The editor takes this for the end of the program.
-/

namespace BlockStudio

variable {tasks : List Task} {m : Nat}

theorem Environment.sayAll_eq (env : Environment) (lines : List String) :
    env.sayAll lines = { env with output := env.output ++ lines.toArray } := by
  induction lines generalizing env with
  | nil => simp [sayAll]
  | cons line lines ih =>
    show (env.say line).sayAll lines = _
    rw [ih]
    simp [say]

namespace Run

variable {store : Store} {s s' : Scene} {c c' : Work × Scene}

/-- The next block of the innermost row ends the program. -/
def AtQuit (store : Store) (tasks : List Task) : Prop :=
  ∃ row next rest id, tasks = .row row next :: rest ∧ (store.row row)[next]? = some id ∧
    (store.definitionOf id).action = .quit ∧ (store.block id).values = []

theorem AtQuit.advance (h : AtQuit store tasks) : ∃ t rest, tasks = t :: rest ∧
      ∀ (d : BlockId → Act Value) s, advance store d t s = .error .quit s := by
  obtain ⟨row, next, rest, id, rfl, hid, ha, hv⟩ := h
  refine ⟨_, rest, rfl, fun d s => ?_⟩
  have ha : (store.block id).definition.action = .quit := ha
  have hb : begin store d id s = .error .quit s := by
    simp only [begin, hv, inputs, pure_bind, ha]
    rfl
  simp only [Run.advance, hid, bind, EStateM.bind, hb]

/-! ## The way back -/

/-- No loop and no attempt catches the end of the program. -/
theorem unwind_quit (tasks : List Task) : unwind .quit tasks = none := by
  induction tasks with
  | nil => rfl
  | cons t rest ih => cases t <;> simp [unwind, ih, Exit.isCaught]

/-- Work that ends the program, and leaves this scene, within some bounds. -/
def QuitsIn (store : Store) (s' : Scene) : Work × Scene → Prop
  | (.tasks ts, s) => ∃ limits, step store limits ts s = .error .quit s'
  | (.block id, s) => ∃ limits, ask store limits id s = .error .quit s'

theorem not_ranOut_quit {α : Type} : ¬RanOut (.error .quit s : EStateM.Result Exit Scene α) :=
  mt ranOut_error.1 (by simp)

/-- A move that ends the program ends the step. -/
theorem quitsIn_of_advance (limits : Limits) {t : Task} {rest : List Task}
    (h : advance store (ask store limits) t s = .error .quit s') :
    QuitsIn store s' (.tasks (t :: rest), s) := by
  refine ⟨oneMore limits limits, ?_⟩
  rw [step_oneMore (by rw [h]; exact not_ranOut_quit), h]
  simp only [Exit.fromInside, unwind_quit]

/-- A block in a slot that ends the program ends it for the block that has the slot. -/
theorem begin_quit {b id : BlockId} {t : Scene} (has : SlotAsks store b s id t)
    (h : QuitsIn store s' (.block id, t)) :
    ∃ limits, begin store (ask store limits) b s = .error .quit s' := by
  obtain ⟨l1, before, after, params, hv, hb⟩ := has
  obtain ⟨l2, ha⟩ := h
  refine ⟨widest l1 l2, bind_eq_error.2 (.inl ?_)⟩
  have hb : inputs store (ask store (widest l1 l2)) (store.block b) 0 before s = .ok params t :=
    (extends_inputs store (.ask store (within_widest_left l1 l2)) ..).answer hb not_ranOut_ok
  have ha : ask store (widest l1 l2) id t = .error .quit s' :=
    (Extends.ask store (within_widest_right l1 l2) id).answer ha not_ranOut_quit
  rw [hv, inputs_append]
  exact bind_eq_error.2 (.inr ⟨params, t, hb, bind_eq_error.2 (.inl (bind_eq_error.2 (.inl ha)))⟩)

/-- One move back: what leads to the end of the program ends it. -/
theorem QuitsIn.of_leads (hl : Leads store m c c') (h : QuitsIn store s' c') :
    QuitsIn store s' c := by
  cases hl with
  | @go l1 t ts rest s t' ha =>
    obtain ⟨l2, h⟩ := h
    refine ⟨oneMore l1 l2, ?_⟩
    rw [step_oneMore (by rw [ha]; exact not_ranOut_ok), ha]
    exact resume_oneMore h not_ranOut_quit l1
  | @caught l1 t ts rest e s t' ha hts =>
    obtain ⟨l2, h⟩ := h
    refine ⟨oneMore l1 l2, ?_⟩
    rw [step_oneMore (by rw [ha]; exact not_ranOut_of_caught hts), ha]
    simp only [hts]
    exact resume_oneMore h not_ranOut_quit l1
  | asks has =>
    cases has with
    | row hb hs =>
      obtain ⟨limits, hbe⟩ := begin_quit hs h
      refine quitsIn_of_advance limits ?_
      simp only [advance, hb]
      exact bind_eq_error.2 (.inl hbe)
    | condition hv =>
      obtain ⟨limits, h⟩ := h
      refine quitsIn_of_advance limits (bind_eq_error.2 (.inl ?_))
      have hv : itemAt? _ 0 = some _ := (itemAt?_natCast _ 0).trans hv
      simp only [getValue, hv]
      exact h
  | slot hs =>
    obtain ⟨limits, hbe⟩ := begin_quit hs h
    exact ⟨⟨limits.depth + 1, limits.moves⟩, bind_eq_error.2 (.inl hbe)⟩
  | @begun l1 b ts s t' hbe =>
    obtain ⟨l2, h⟩ := h
    let wide := widest l1 l2
    have hbe : begin store (ask store wide) b s = .ok (.tasks ts) t' :=
      (Extends.begin store (.ask store (within_widest_left l1 l2)) b).answer hbe not_ranOut_ok
    have hr : resume store (ask store wide) wide.moves ts t' = .error .quit s' :=
      (Extends.resume store (.ask store (within_widest_right l1 l2))
        (within_widest_right l1 l2).2 ts).answer h not_ranOut_quit
    exact ⟨⟨wide.depth + 1, wide.moves⟩,
      bind_eq_error.2 (.inr ⟨_, t', hbe, bind_eq_error.2 (.inl hr)⟩)⟩

/-- The whole way back, by induction on the moves of the step. -/
theorem QuitsIn.of_passes (hp : Passes store m c c') (h : QuitsIn store s' c') :
    QuitsIn store s' c := by
  induction hp with
  | here c => exact h
  | move hl _ ih => exact (ih h).of_leads hl

theorem AtQuit.quitsIn (h : AtQuit store tasks) : QuitsIn store s (.tasks tasks, s) := by
  obtain ⟨t, rest, rfl, ha⟩ := h.advance
  exact quitsIn_of_advance ⟨0, 0⟩ (ha _ s)

/-- Nothing runs after the end of the program. -/
theorem AtQuit.not_leads (h : AtQuit store tasks) : ¬Leads store m (.tasks tasks, s) c := by
  intro hl
  have hq := h
  obtain ⟨t, rest, rfl, ha⟩ := h.advance
  cases hl with
  | go h => rw [ha] at h; cases h
  | caught h hts =>
    rw [ha] at h
    cases h
    rw [show Exit.quit.fromInside = .quit from rfl, unwind_quit] at hts
    cases hts
  | asks has =>
    obtain ⟨row, next, rest, id, heq, hid, -, hv⟩ := hq
    cases heq
    cases has with
    | row hb hsl =>
      obtain ⟨_, before, after, _, hs, -⟩ := hsl
      rw [hid] at hb
      cases hb
      simp [hv] at hs

/-- A step of a program comes to a block that ends the program, whatever it passes through on the
way.  Then the step ends the program, in every bounds that it does not use up, and leaves the scene
as it was when the block was reached; nothing runs after that block.  An editor that takes the step
says that the program finished, and has no program any more. -/
theorem quit_ends_program {m : Nat} {tasks tasks' : List Task}
    (hpasses : Passes store m (.tasks tasks, s) (.tasks tasks', s')) (hquit : AtQuit store tasks') :
    (∃ limits, step store limits tasks s = .error .quit s') ∧
      (∀ limits, ¬RanOut (step store limits tasks s) →
        step store limits tasks s = .error .quit s') ∧
      (∀ n c, ¬Leads store n (.tasks tasks', s') c) ∧
      ∀ e : Editor, e.store = store → e.scene = s → e.program = some tasks → e.dialog = none →
        ¬RanOut (step store .generous tasks s) →
        Edit.handle .tick e = .ok () { e with
          program := none
          scene := { s' with env := { s'.env with
            output := s'.env.output ++ #["", "Program finished."] } } } := by
  have hstep : ∃ limits, step store limits tasks s = .error .quit s' :=
    hquit.quitsIn.of_passes hpasses
  have hunique (limits : Limits) (h : ¬RanOut (step store limits tasks s)) :
      step store limits tasks s = .error .quit s' := by
    obtain ⟨l, hl⟩ := hstep
    exact answer_unique (f := fun limits => step store limits tasks)
      (fun _ _ h => .step store h tasks) hl not_ranOut_quit h
  refine ⟨hstep, hunique, fun n c => hquit.not_leads, ?_⟩
  rintro e rfl rfl hprogram hdialog h
  have hgenerous := hunique .generous h
  rw [Edit.handle, get_bind]
  simp only [hdialog, hprogram]
  rw [Edit.stepProgram, get_bind]
  simp only [hgenerous, Edit.sayAll, set_bind, Environment.sayAll_eq]
  rw [← hdialog]
  rfl

/-- While a condition holds: attempt to quit if another condition holds, and say that the attempt
failed otherwise. -/
def quitsInAttempt : Store :=
  let s := (Store.empty.addBlock (named "quit") []).2
  let s := (s.addStack [⟨0⟩] none).2
  let s := (s.addBlock (named "if") [.bool true, .stack ⟨1⟩]).2
  let s := (s.addStack [⟨1⟩] none).2
  let s := (s.addBlock (named "print") [.text "failed"]).2
  let s := (s.addStack [⟨2⟩] none).2
  let s := (s.addBlock (named "try") [.stack ⟨2⟩, .stack ⟨3⟩]).2
  let s := (s.addStack [⟨3⟩] none).2
  let s := (s.addBlock (named "while") [.bool true, .stack ⟨4⟩]).2
  (s.addStack [⟨4⟩] none).2

/-- The program quits in its first step, out of the branch, the attempt and the loop. -/
theorem quit_out_of_attempt : ∃ tasks, AtQuit quitsInAttempt tasks ∧
      (∃ m, Passes quitsInAttempt m (.tasks (program ⟨5⟩), {}) (.tasks tasks, {})) ∧
      step quitsInAttempt .generous (program ⟨5⟩) {} = .error .quit {} := by
  let branch : List Value := [.bool true, .stack ⟨1⟩]
  let attempt : List Value := [.stack ⟨2⟩, .stack ⟨3⟩]
  let loop : List Value := [.bool true, .stack ⟨4⟩]
  -- What waits inside the loop, inside the attempt, and at the block that quits.
  let looping : List Task := [.conditional ⟨4⟩ loop, .row ⟨5⟩ 1]
  let trying : List Task := .guarded attempt :: .row ⟨4⟩ 1 :: looping
  let quitting : List Task := .row ⟨1⟩ 0 :: .row ⟨2⟩ 1 :: trying
  have hbranch : Passes quitsInAttempt _ (.tasks (.stack ⟨2⟩ :: trying), {}) (.tasks quitting, {}) :=
    .move (leads_go (.stack ⟨2⟩) [.row ⟨2⟩ 0] trying rfl) <|
    .move (leads_go (.row ⟨2⟩ 0) [.fresh ⟨1⟩ .ifThen branch, .row ⟨2⟩ 1] trying rfl) <|
    .move (leads_go (.fresh ⟨1⟩ .ifThen branch) [.body branch 1] (.row ⟨2⟩ 1 :: trying) rfl) <|
    .move (leads_go (.body branch 1) [.stack ⟨1⟩] (.row ⟨2⟩ 1 :: trying) rfl) <|
    .move (leads_go (.stack ⟨1⟩) [.row ⟨1⟩ 0] (.row ⟨2⟩ 1 :: trying) rfl) <| .here _
  have hattempt : Passes quitsInAttempt _ (.tasks (.stack ⟨4⟩ :: looping), {})
      (.tasks quitting, {}) :=
    .move (leads_go (.stack ⟨4⟩) [.row ⟨4⟩ 0] looping rfl) <|
    .move (leads_go (.row ⟨4⟩ 0) [.fresh ⟨3⟩ .attempt attempt, .row ⟨4⟩ 1] looping rfl) <|
    .move (leads_go (.fresh ⟨3⟩ .attempt attempt) [.body attempt 0, .guarded attempt]
      (.row ⟨4⟩ 1 :: looping) rfl) <|
    .move (leads_go (.body attempt 0) [.stack ⟨2⟩] trying rfl) hbranch
  have hloop : Passes quitsInAttempt _ (.tasks (program ⟨5⟩), {}) (.tasks quitting, {}) :=
    .move (leads_go (.stack ⟨5⟩) [.row ⟨5⟩ 0] [] rfl) <|
    .move (leads_go (.row ⟨5⟩ 0) [.fresh ⟨4⟩ .whileTrue loop, .row ⟨5⟩ 1] [] rfl) <|
    .move (leads_go (.fresh ⟨4⟩ .whileTrue loop) [.conditional ⟨4⟩ loop] [.row ⟨5⟩ 1] rfl) <|
    .move (leads_go (.conditional ⟨4⟩ loop) [.body loop 1, .conditional ⟨4⟩ loop]
      [.row ⟨5⟩ 1] rfl) <|
    .move (leads_go (.body loop 1) [.stack ⟨4⟩] looping rfl) hattempt
  have hquit : AtQuit quitsInAttempt quitting := ⟨⟨1⟩, 0, _, ⟨0⟩, rfl, rfl, rfl, rfl⟩
  have hwithin : Within ⟨0, 20⟩ .generous := ⟨by decide, by decide⟩
  have hgenerous : ¬RanOut (step quitsInAttempt .generous (program ⟨5⟩) {}) := by
    have hstep : step quitsInAttempt ⟨0, 20⟩ (program ⟨5⟩) {} = .error .quit {} := rfl
    rw [(Extends.step _ hwithin _).answer hstep not_ranOut_quit]
    exact not_ranOut_quit
  exact ⟨quitting, hquit, ⟨_, hloop⟩, (quit_ends_program hloop hquit).2.1 _ hgenerous⟩

end Run

end BlockStudio
