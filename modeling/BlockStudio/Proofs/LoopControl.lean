import BlockStudio.Proofs.Fuel

/-!
# Where leaving a loop leads

Leaving a loop and going on to its next round are exits that look for the nearest loop among the
waiting tasks.  The rests of rows that wait for the branches of conditionals let them pass.  An attempt
does not: it takes them for something that went wrong and does what it has for that case, and the loop
goes on as if nothing had been said.
-/

namespace BlockStudio

/-- A task that waits for a round of a loop. -/
def Task.isLoop : Task → Bool
  | .counted .. | .listed .. | .conditional .. => true
  | _ => false

/-- A task that waits for what an attempt tries. -/
def Task.isAttempt : Task → Bool
  | .guarded _ => true
  | _ => false

namespace Run

/-- The exits that are meant for a loop, as the actions of the blocks that take them. -/
inductive LoopControl : Action → Exit → Prop where
  | breakLoop : LoopControl .breakLoop .breakLoop
  | continueLoop : LoopControl .continueLoop .continueLoop

variable {store : Store} {demand : BlockId → Act Value} {row : RowId} {next fuel : Nat}
  {id : BlockId} {action : Action} {e : Exit} {round : Task} {inner rest after : List Task}
  {scene : Scene}

/-! ## Unwinding -/

/-- Loop control passes what is neither a loop nor an attempt. -/
theorem unwind_append (he : LoopControl action e) (hlo : ∀ t ∈ inner, t.isLoop = false)
    (hae : ∀ t ∈ inner, t.isAttempt = false) : unwind e (inner ++ rest) = unwind e rest := by
  induction inner with
  | nil => rfl
  | cons t inner ih =>
    obtain ⟨hl, hlo⟩ := List.forall_mem_cons.1 hlo
    obtain ⟨ha, hae⟩ := List.forall_mem_cons.1 hae
    have hp : unwind e (t :: (inner ++ rest)) = unwind e (inner ++ rest) := by
      cases he <;> cases t <;> simp [unwind, Task.isLoop, Task.isAttempt] at hl ha ⊢
    exact hp.trans (ih hlo hae)

/-- Leaving a loop goes on behind it, and going on with it goes on at it. -/
theorem unwind_loop (hr : round.isLoop = true) :
    unwind .breakLoop (round :: after) = some after ∧
      unwind .continueLoop (round :: after) = some (round :: after) := by
  cases round <;> first | exact ⟨rfl, rfl⟩ | cases hr

/-- An attempt catches loop control. -/
theorem unwind_attempt (he : LoopControl action e) (params : List Value) :
    unwind e (.guarded params :: rest) = some (.body params 1 :: rest) := by
  cases he <;> rfl

/-! ## Executing the blocks of loop control -/

/-- A block of loop control in a row exits at once and changes nothing. -/
theorem advance_loopControl (he : LoopControl action e) (hid : (store.row row)[next]? = some id)
    (ha : (store.definitionOf id).action = action) (hv : (store.block id).values = []) :
    advance store demand (.row row next) scene = .error e scene := by
  have hb : begin store demand id scene = .error e scene := by
    have ha : (store.block id).definition.action = action := ha
    cases he <;> simp only [begin, hv, inputs, pure_bind, ha] <;> rfl
  simp only [advance, hid, bind, EStateM.bind, hb]

/-- Executing a block of loop control is going on where its exit leads. -/
theorem resume_loopControl (he : LoopControl action e) (hid : (store.row row)[next]? = some id)
    (ha : (store.definitionOf id).action = action) (hv : (store.block id).values = [])
    {tasks : List Task} (ht : unwind e rest = some tasks) :
    resume store demand (fuel + 1) (.row row next :: rest) scene =
      resume store demand fuel tasks scene := by
  have hi : e.fromInside = e := by cases he <;> rfl
  rw [resume_cons, advance_loopControl he hid ha hv]
  simp only [hi, ht]

/-- A block that leaves a loop or goes on to its next round is executed in the body of a loop, at any
depth of conditionals and attempts but inside no inner loop: `inner` waits between the block and its
loop.  If no attempt waits there, what runs next is what comes after the loop, or its next round, and
nothing has changed.  Otherwise the nearest attempt does what it has for failures. -/
theorem loop_control_reaches_loop_or_attempt (inner : List Task) (round : Task) (after : List Task)
    (hid : (store.row row)[next]? = some id) (hvalues : (store.block id).values = [])
    (hround : round.isLoop = true) (hinner : ∀ t ∈ inner, t.isLoop = false) :
    ((store.definitionOf id).action = .breakLoop → (∀ t ∈ inner, t.isAttempt = false) →
      resume store demand (fuel + 1) (.row row next :: (inner ++ round :: after)) scene =
        resume store demand fuel after scene) ∧
    ((store.definitionOf id).action = .continueLoop → (∀ t ∈ inner, t.isAttempt = false) →
      resume store demand (fuel + 1) (.row row next :: (inner ++ round :: after)) scene =
        resume store demand fuel (round :: after) scene) ∧
    ∀ e passed params outer, LoopControl (store.definitionOf id).action e →
      inner = passed ++ .guarded params :: outer → (∀ t ∈ passed, t.isAttempt = false) →
      resume store demand (fuel + 1) (.row row next :: (inner ++ round :: after)) scene =
        resume store demand fuel (.body params 1 :: (outer ++ round :: after)) scene := by
  refine ⟨fun haction hattempt => ?_, fun haction hattempt => ?_, ?_⟩
  · refine resume_loopControl .breakLoop hid haction hvalues ?_
    rw [unwind_append .breakLoop hinner hattempt, (unwind_loop hround).1]
  · refine resume_loopControl .continueLoop hid haction hvalues ?_
    rw [unwind_append .continueLoop hinner hattempt, (unwind_loop hround).2]
  · rintro e passed params outer he rfl hattempt
    refine resume_loopControl he hid rfl hvalues ?_
    have hpassed : ∀ t ∈ passed, t.isLoop = false := fun t ht =>
      hinner t (List.mem_append_left _ ht)
    rw [List.append_assoc, unwind_append he hpassed hattempt]
    exact unwind_attempt he params

/-! ## Two programs -/

/-- The block of the catalogue with a name. -/
def named (name : String) : Definition := (Catalogue.find? Catalogue.blocks name).getD default

theorem named_mem (name : String) (h : (Catalogue.find? Catalogue.blocks name).isSome = true) :
    named name ∈ Catalogue.blocks := by
  obtain ⟨d, hd⟩ := Option.isSome_iff_exists.1 h
  rw [named, hd]
  exact List.mem_of_find?_eq_some hd

/-- Twice: if a condition holds, leave the loop, and say something.  Then say something else. -/
def leavesFromBranch : Store :=
  let s := (Store.empty.addBlock (named "break") []).2
  let s := (s.addStack [⟨0⟩] none).2
  let s := (s.addBlock (named "if") [.bool true, .stack ⟨1⟩]).2
  let s := (s.addBlock (named "print") [.text "inside"]).2
  let s := (s.addStack [⟨1⟩, ⟨2⟩] none).2
  let s := (s.addBlock (named "repeat") [.int 2, .stack ⟨2⟩]).2
  let s := (s.addBlock (named "print") [.text "behind"]).2
  (s.addStack [⟨3⟩, ⟨4⟩] none).2

/-- When the loop is left out of the branch, what follows it runs next. -/
theorem loop_control_out_of_branch : (leavesFromBranch.row ⟨1⟩)[0]? = some ⟨0⟩ ∧
      (leavesFromBranch.definitionOf ⟨0⟩).action = .breakLoop ∧
      ∀ demand fuel scene params, resume leavesFromBranch demand (fuel + 1)
            [.row ⟨1⟩ 0, .row ⟨2⟩ 1, .counted 1 params, .row ⟨3⟩ 1] scene =
          resume leavesFromBranch demand fuel [.row ⟨3⟩ 1] scene := by
  refine ⟨rfl, rfl, fun demand fuel scene params => ?_⟩
  exact (loop_control_reaches_loop_or_attempt [.row ⟨2⟩ 1] (.counted 1 params) [.row ⟨3⟩ 1]
    rfl rfl rfl (by simp [Task.isLoop])).1 rfl (by simp [Task.isAttempt])

/-- Twice: attempt to leave the loop, and say something if that fails. -/
def leavesFromAttempt : Store :=
  let s := (Store.empty.addBlock (named "break") []).2
  let s := (s.addStack [⟨0⟩] none).2
  let s := (s.addBlock (named "print") [.text "failed"]).2
  let s := (s.addStack [⟨1⟩] none).2
  let s := (s.addBlock (named "try") [.stack ⟨1⟩, .stack ⟨2⟩]).2
  let s := (s.addStack [⟨2⟩] none).2
  let s := (s.addBlock (named "repeat") [.int 2, .stack ⟨3⟩]).2
  (s.addStack [⟨3⟩] none).2

/-- The attempt catches the exit both times: the loop is not left, and its failure is told twice. -/
theorem loop_control_caught_by_attempt :
    (follow leavesFromAttempt .generous 10 (program ⟨4⟩) {}).2.2.env.output = #["failed", "failed"] := by
  decide +kernel

end Run

end BlockStudio
