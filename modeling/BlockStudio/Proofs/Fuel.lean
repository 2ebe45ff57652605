import BlockStudio.Proofs.Outcome

/-!
# Wider bounds keep every answer

A step runs within bounds on its moves and on the depth to which slots are evaluated, and using up a
bound is an exit of its own that nothing catches.  So an answer that was reached within some bounds is
the answer within all wider ones, and two answers of the same step agree whatever bounds they were
reached in.
-/

namespace BlockStudio

variable {s : Scene} {store : Store} {fuel : Nat} {limits l1 l2 wider : Limits}

namespace Run

variable {α β : Type} {a : α} {e : Exit} {x : Act α} {f : α → Act β} {t : Task}
  {r : EStateM.Result Exit Scene α} {d : BlockId → Act Value} {fuel' : Nat}

/-- A run that stopped because a bound was used up. -/
def RanOut : EStateM.Result Exit Scene α → Prop
  | .error .outOfFuel _ => True
  | _ => False

@[simp] theorem not_ranOut_ok : ¬RanOut (.ok a s : EStateM.Result Exit Scene α) := id

theorem ranOut_error : RanOut (.error e s : EStateM.Result Exit Scene α) ↔ e = .outOfFuel := by
  cases e <;> simp [RanOut]

theorem not_ranOut_of_bind (h : ¬RanOut ((x >>= f) s)) : ¬RanOut (x s) := by
  rw [bind_run] at h
  cases hx : x s with
  | ok a t => exact not_ranOut_ok
  | error e t =>
    rw [hx] at h
    exact mt ranOut_error.1 (mt ranOut_error.2 h)

theorem not_ranOut_next {t : Scene} (hx : x s = .ok a t) (h : ¬RanOut ((x >>= f) s)) :
    ¬RanOut (f a t) := by
  rwa [bind_run, hx] at h

theorem not_ranOut_bind (hx : ¬RanOut (x s)) (hf : ∀ a t, x s = .ok a t → ¬RanOut (f a t)) :
    ¬RanOut ((x >>= f) s) := by
  rw [bind_run]
  cases hxs : x s with
  | ok a t => exact hf a t hxs
  | error e t =>
    rw [hxs, ranOut_error] at hx
    exact mt ranOut_error.1 hx

/-- A step that never runs out of bounds. -/
structure Never (x : Act α) : Prop where
  /-- It answers from every scene. -/
  run (s : Scene) : ¬RanOut (x s)

namespace Never

protected theorem pure (a : α) : Never (pure a : Act α) := ⟨fun _ => not_ranOut_ok⟩

protected theorem throw (h : e ≠ .outOfFuel) : Never (throw e : Act α) :=
  ⟨fun _ => mt ranOut_error.1 h⟩

protected theorem fail (f : Fault) : Never (Act.fail f : Act α) := .throw (by simp)

protected theorem ofExcept (x : Except Fault α) : Never (Act.ofExcept x) := by
  cases x with
  | ok a => exact .pure a
  | error f => exact .fail f

protected theorem get : Never (get : Act Scene) := ⟨fun _ => not_ranOut_ok⟩

protected theorem set (s : Scene) : Never (set s : Act PUnit) := ⟨fun _ => not_ranOut_ok⟩

protected theorem modify (f : Scene → Scene) : Never (modify f : Act PUnit) :=
  ⟨fun _ => not_ranOut_ok⟩

protected theorem bind (hx : Never x) (hf : ∀ a, Never (f a)) : Never (x >>= f) :=
  ⟨fun s => not_ranOut_bind (hx.run s) fun a t _ => (hf a).run t⟩

end Never

/-- The second step answers as the first, wherever the first does not run out of bounds. -/
structure Extends (x y : Act α) : Prop where
  /-- The answers are the same. -/
  run (s : Scene) : ¬RanOut (x s) → y s = x s

namespace Extends

protected theorem refl (x : Act α) : Extends x x := ⟨fun _ _ => rfl⟩

/-- What a step answers, the steps that extend it answer. -/
theorem answer {y : Act α} (h : Extends x y) (hx : x s = r) (hr : ¬RanOut r) : y s = r := by
  subst hx
  exact h.run s hr

protected theorem bind {y : Act α} {g : α → Act β} (hx : Extends x y) (hf : ∀ a, Extends (f a) (g a)) :
    Extends (x >>= f) (y >>= g) := by
  constructor
  intro s h
  rw [bind_run] at h ⊢
  rw [bind_run]
  cases hxs : x s with
  | ok a t =>
    rw [hxs] at h
    rw [hx.run s (by simp [hxs]), hxs]
    exact (hf a).run t h
  | error e t =>
    rw [hxs] at h
    have hx' : ¬RanOut (x s) := by
      rw [hxs, ranOut_error]
      exact mt ranOut_error.2 h
    rw [hx.run s hx', hxs]

end Extends

/-! ## Moves without slots -/

theorem never_getVariable (store : Store) (name : Value) : Never (getVariable store name) :=
  .bind .get fun _ => .ofExcept _

theorem never_setVariable (store : Store) (name value : Value) : Never (setVariable store name value) :=
  .bind .get fun _ => .bind (.ofExcept _) fun _ => .set _

theorem never_sleepOn : Never sleepOn := by
  refine .bind .get fun s => ?_
  split
  · exact .bind (.set _) fun _ => .pure _
  · exact .pure _

theorem never_changeBy (store : Store) (params : List Value) (onText : Fault)
    (f : Float → Float → Float) : Never (changeBy store params onText f) := by
  refine .bind (.ofExcept _) fun name => ?_
  have hn : Never (makeNumeric store name) := by
    refine .bind (never_getVariable store name) fun v => ?_
    split
    · exact never_setVariable ..
    · split
      · exact .pure _
      · exact .fail _
  refine .bind hn fun _ => .bind (never_getVariable store name) fun v => ?_
  refine .bind (.ofExcept _) fun amount => ?_
  split
  · exact .bind (never_setVariable ..) fun _ => .pure _
  · exact .fail _

theorem never_random (params : List Value) : Never (random params) := by
  refine .bind (.ofExcept _) fun low => .bind (.ofExcept _) fun high => ?_
  split
  · exact .fail _
  · exact .bind .get fun s => .bind (.set _) fun _ => .pure _

theorem never_first (store : Store) (id : BlockId) (action : Action) (params : List Value) :
    Never (first store id action params) := by
  cases action with
  | sleep => exact .bind (.ofExcept _) fun _ => .bind (.modify _) fun _ => never_sleepOn
  | forEach =>
    exact .bind (.ofExcept _) fun _ => .bind (never_getVariable ..) fun _ =>
      .bind (.ofExcept _) fun _ => .pure _
  | readFile =>
    exact .bind (.ofExcept _) fun _ => .bind .get fun _ => .bind (.ofExcept _) fun _ => .pure _
  | say => exact .bind (.ofExcept _) fun _ => .bind (.modify _) fun _ => .pure _
  | writeFile =>
    exact .bind (.ofExcept _) fun _ => .bind .get fun _ =>
      .bind (.ofExcept _) fun _ => .bind (.set _) fun _ =>
        .bind (.ofExcept _) fun _ => .bind (.set _) fun _ => .pure _
  | random => exact never_random params
  | equal => exact .ofExcept _
  | unequal => exact .ofExcept _
  | getVariable =>
    exact .bind (.ofExcept _) fun _ => .bind (never_getVariable ..) fun _ => .pure _
  | setVariable =>
    exact .bind (.ofExcept _) fun _ => .bind (.ofExcept _) fun _ =>
      .bind (never_setVariable ..) fun _ => .pure _
  | increment => exact never_changeBy ..
  | decrement => exact never_changeBy ..
  | start | whileTrue | attempt => exact .pure _
  | _ => exact .bind (.ofExcept _) fun _ => .pure _

/-! ## Evaluating slots -/

section

variable (store : Store) {d d' : BlockId → Act Value} (hd : ∀ id, Extends (d id) (d' id))
include hd

theorem extends_slotValue (b : Block) (i : Int) (v : Value) :
    Extends (slotValue d b i v) (slotValue d' b i v) := by
  cases v with
  | block id => exact hd id
  | _ => exact .refl _

theorem extends_inputs (b : Block) (i : Nat) (values : List Value) :
    Extends (inputs store d b i values) (inputs store d' b i values) := by
  induction values generalizing i with
  | nil => exact .refl _
  | cons v rest ih =>
    refine .bind (extends_slotValue hd b i v) fun v => ?_
    split
    · exact .refl _
    · exact .bind (.refl _) fun _ => .bind (ih _) fun _ => .refl _

protected theorem Extends.begin (id : BlockId) : Extends (begin store d id) (begin store d' id) :=
  .bind (extends_inputs store hd ..) fun _ => .refl _

theorem extends_getValue (id : BlockId) (i : Int) :
    Extends (getValue store d id i) (getValue store d' id i) := by
  unfold getValue
  dsimp only
  split
  · exact .refl _
  · exact extends_slotValue hd ..

theorem extends_bodyTasks (params : List Value) (slot : Nat) :
    Extends (bodyTasks store d params slot) (bodyTasks store d' params slot) := by
  refine .bind (.refl _) fun v => ?_
  cases v with
  | block id => exact .bind (.begin store hd id) fun _ => .refl _
  | _ => exact .refl _

theorem extends_advance (t : Task) : Extends (advance store d t) (advance store d' t) := by
  cases t with
  | body params slot => exact .bind (extends_bodyTasks store hd params slot) fun _ => .refl _
  | row row next =>
    unfold advance
    dsimp only
    split
    · exact .refl _
    · exact .bind (.begin store hd _) fun _ => .refl _
  | conditional id params => exact .bind (extends_getValue store hd id 0) fun _ => .refl _
  | counted left params => cases left <;> exact .refl _
  | listed items params => cases items <;> exact .refl _
  | letters cs => cases cs <;> exact .refl _
  | _ => exact .refl _

end

/-! ## Steps -/

/-- Nothing catches the end of the bounds. -/
theorem unwind_outOfFuel (tasks : List Task) : unwind .outOfFuel tasks = none := by
  induction tasks with
  | nil => rfl
  | cons t rest ih => cases t <;> simp [unwind, ih, Exit.isCaught]

theorem resume_cons (store : Store) (d : BlockId → Act Value) (fuel : Nat) (t : Task)
    (rest : List Task) (s : Scene) :
    resume store d (fuel + 1) (t :: rest) s =
      match advance store d t s with
      | .ok (.give v ts) s' => .ok (some (v, ts ++ rest)) s'
      | .ok (.go ts) s' => resume store d fuel (ts ++ rest) s'
      | .error e s' =>
        match unwind e.fromInside rest with
        | some ts => resume store d fuel ts s'
        | none => .error e.fromInside s' := rfl

/-- A step that does not run out makes no move that does. -/
theorem not_ranOut_advance {rest : List Task} (h : ¬RanOut (resume store d (fuel + 1) (t :: rest) s)) :
    ¬RanOut (advance store d t s) := by
  intro ho
  cases hr : advance store d t s with
  | ok m s' => simp [hr] at ho
  | error e s' =>
    rw [hr, ranOut_error] at ho
    simp [resume_cons, hr, ho, Exit.fromInside, unwind_outOfFuel, RanOut] at h

/-- More moves and a wider evaluation of slots answer the same. -/
protected theorem Extends.resume (store : Store) {d' : BlockId → Act Value} (hd : ∀ id, Extends (d id) (d' id))
    (hle : fuel ≤ fuel') (tasks : List Task) :
    Extends (resume store d fuel tasks) (resume store d' fuel' tasks) := by
  constructor
  intro s h
  induction fuel generalizing fuel' tasks s with
  | zero => exact absurd trivial h
  | succ fuel ih =>
    obtain ⟨fuel', rfl⟩ : ∃ n, fuel' = n + 1 := ⟨fuel' - 1, by omega⟩
    have hle : fuel ≤ fuel' := by omega
    cases tasks with
    | nil => rfl
    | cons t rest =>
      have ha := (extends_advance store hd t).run s (not_ranOut_advance h)
      rw [resume_cons] at h ⊢
      rw [resume_cons, ha]
      cases hr : advance store d t s with
      | ok m s' =>
        rw [hr] at h
        cases m with
        | give v ts => rfl
        | go ts => exact ih hle _ _ h
      | error e s' =>
        simp only [hr] at h ⊢
        cases hts : unwind e.fromInside rest with
        | some ts =>
          simp only [hts] at h
          exact ih hle _ _ h
        | none => rfl

theorem extends_demand (store : Store) {moves moves' : Nat} (hm : moves ≤ moves')
    (hf : fuel ≤ fuel') (id : BlockId) :
    Extends (demand store moves fuel id) (demand store moves' fuel' id) := by
  induction fuel generalizing fuel' id with
  | zero => exact ⟨fun s h => absurd trivial h⟩
  | succ fuel ih =>
    obtain ⟨fuel', rfl⟩ : ∃ n, fuel' = n + 1 := ⟨fuel' - 1, by omega⟩
    have hd := fun id => ih (by omega : fuel ≤ fuel') id
    refine .bind (.begin store hd id) fun begun => ?_
    cases begun with
    | nothing => exact .refl _
    | line s => exact .refl _
    | tasks ts =>
      refine .bind (.resume store hd hm ts) fun answer => ?_
      split
      · exact .refl _
      · exact hd _
      · exact .refl _

/-- One pair of bounds is within another. -/
def Within (limits wider : Limits) : Prop := limits.depth ≤ wider.depth ∧ limits.moves ≤ wider.moves

/-- Bounds as wide as both of two pairs. -/
def widest (l1 l2 : Limits) : Limits := ⟨max l1.depth l2.depth, max l1.moves l2.moves⟩

theorem within_widest_left (l1 l2 : Limits) : Within l1 (widest l1 l2) :=
  ⟨Nat.le_max_left .., Nat.le_max_left ..⟩

theorem within_widest_right (l1 l2 : Limits) : Within l2 (widest l1 l2) :=
  ⟨Nat.le_max_right .., Nat.le_max_right ..⟩

/-- The first value of a block, within bounds. -/
def ask (store : Store) (limits : Limits) (id : BlockId) : Act Value :=
  demand store limits.moves limits.depth id

protected theorem Extends.ask (store : Store) (h : Within limits wider) (id : BlockId) :
    Extends (ask store limits id) (ask store wider id) :=
  extends_demand store h.2 h.1 id

protected theorem Extends.step (store : Store) (h : Within limits wider) (tasks : List Task) :
    Extends (step store limits tasks) (step store wider tasks) :=
  .resume store (.ask store h) h.2 tasks

/-- An answer within some bounds is the answer within all bounds that suffice for one. -/
theorem answer_unique {f : Limits → Act α}
    (hf : ∀ limits wider, Within limits wider → Extends (f limits) (f wider)) (h1 : f l1 s = r)
    (hr : ¬RanOut r) (h2 : ¬RanOut (f l2 s)) : f l2 s = r := by
  subst h1
  exact ((hf _ _ (within_widest_right l1 l2)).run s h2).symm.trans
    ((hf _ _ (within_widest_left l1 l2)).run s hr)

theorem advance_unique {r : EStateM.Result Exit Scene Move}
    (h1 : advance store (ask store l1) t s = r) (hr : ¬RanOut r)
    (h2 : ¬RanOut (advance store (ask store l2) t s)) : advance store (ask store l2) t s = r :=
  answer_unique (f := fun limits => advance store (ask store limits) t)
    (fun _ _ h => extends_advance store (.ask store h) t) h1 hr h2

theorem begin_unique {id : BlockId} {r : EStateM.Result Exit Scene Begun}
    (h1 : begin store (ask store l1) id s = r) (hr : ¬RanOut r)
    (h2 : ¬RanOut (begin store (ask store l2) id s)) : begin store (ask store l2) id s = r :=
  answer_unique (f := fun limits => begin store (ask store limits) id)
    (fun _ _ h => .begin store (.ask store h) id) h1 hr h2

theorem inputs_unique {b : Block} {i : Nat} {values : List Value}
    {r : EStateM.Result Exit Scene (List Value)} (h1 : inputs store (ask store l1) b i values s = r)
    (hr : ¬RanOut r) (h2 : ¬RanOut (inputs store (ask store l2) b i values s)) :
    inputs store (ask store l2) b i values s = r :=
  answer_unique (f := fun limits => inputs store (ask store limits) b i values)
    (fun _ _ h => extends_inputs store (.ask store h) ..) h1 hr h2

end Run

end BlockStudio
