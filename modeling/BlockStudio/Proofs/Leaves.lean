import BlockStudio.Proofs.Numerals
import BlockStudio.Proofs.Reporters

/-!
# Statements without bodies

A statement without a body evaluates its slots and does its work in one move.  The slots only look.
What the move does can take two steps, a conversion of a variable before its change or the emptying of a
file before it is written; but then nothing can go wrong between them.  So a statement that fails leaves
variables, output, timer and files as they were.
-/

namespace BlockStudio

/-- What blocks do that evaluate their slots and then wait to be run. -/
def Action.waits : Action → Bool
  | .inert | .breakLoop | .continueLoop | .quit | .ask => false
  | _ => true

namespace Environment

variable {store : Store} {env : Environment} {name v : Value}

end Environment

namespace Run

variable {α : Type} {store : Store} {limits : Limits} {id : BlockId} {s s' t : Scene} {e : Exit} {b : Block}
  {d : BlockId → Act Value} {params values : List Value} {name v : Value} {n : Num}

/-- The move of a statement without a body gives a value, or ends, or fails and leaves the scene as it was. -/
def Clean (s : Scene) : EStateM.Result Exit Scene Move → Prop
  | .ok (.give ..) _ => True
  | .ok (.go ts) _ => ts = []
  | .error _ s' => s' = s

theorem Clean.ofExcept {x : Except Fault α} {f : α → Act Move} (h : ∀ a, x = .ok a → Clean s (f a s)) :
    Clean s ((Act.ofExcept x >>= f) s) := by
  cases x with
  | ok a => exact h a rfl
  | error f => rfl

theorem begin_of_waits (hw : (store.definitionOf id).action.waits = true) (d : BlockId → Act Value) :
    begin store d id = (inputs store d (store.block id) 0 (store.block id).values >>= fun params =>
      pure (.tasks [.fresh id (store.definitionOf id).action params])) := by
  unfold begin
  refine bind_congr fun params => ?_
  unfold Store.definitionOf at hw ⊢
  split
  case h_6 => rfl
  all_goals
    rename_i ha
    rw [ha] at hw
    cases hw

end Run

end BlockStudio
