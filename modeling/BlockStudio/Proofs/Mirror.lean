import BlockStudio.Proofs.Nesting
import Mathlib.Data.List.Forall2

/-!
# Programs that mirror one another

Two stores hold the same program up to the names of its variables and to the stacks that show its bodies.
A running program takes a name from a slot for one and looks it up, and of a stack it takes the blocks;
nothing else it does depends on either.  So if looking up and assigning agree on both sides, and so do the
blocks of stacks that belong together, the two programs run alike, step by step, whatever they do: the
scenes they leave differ only in their variables.

What looking up and assigning have to do with one another on the two sides is left open here, and so is
which values the variables hold.  The main result, `Mirror.follow`, is about whole runs; it comes from
one lemma per kind of task by induction on the moves, on the depth of slots and on the steps.
-/

namespace BlockStudio

open Run Operator List Act

variable {a : Action} {i : Nat} {c : Component} {ps vs ws : List Value} {e f : Exit} {v w : Value}
  {b : BlockId} {tasks tasks' : List Task}

/-! ## The slots of an action -/

namespace Action

/-- The slots that take the name of a variable. -/
def names : Action → List Nat
  | forEach => [0, 1]
  | getVariable | setVariable | increment | decrement => [0]
  | _ => []

/-- The slots that take a body. -/
def bodies : Action → List Nat
  | repeatTimes | whileTrue | ifThen => [1]
  | ifElse => [1, 2]
  | attempt => [0, 1]
  | forEach => [2]
  | _ => []

/-- The slots that take the name of a variable to assign. -/
def assigned : Action → List Nat
  | forEach | setVariable | increment | decrement => [0]
  | _ => []

theorem not_mem_names (h : i ∈ a.bodies) : i ∉ a.names := by cases a <;> simp_all [bodies, names]

end Action

/-- Names and bodies stand where the action takes them. -/
theorem known_slots {d : Definition} (hd : d.Known) (hc : d.inputs[i]? = some c) :
    (c.kind = .varName ↔ i ∈ d.action.names) ∧ (c.kind = .statement ↔ i ∈ d.action.bodies) := by
  have hca : ∀ d ∈ Catalogue.blocks, ∀ p ∈ d.inputs.zipIdx,
      (p.1.kind = .varName ↔ p.2 ∈ d.action.names) ∧
        (p.1.kind = .statement ↔ p.2 ∈ d.action.bodies) := by
    decide +kernel
  obtain hd | ⟨-, hd⟩ := hd
  · exact hca d hd (c, i) (mem_zipIdx_iff_getElem?.2 hc)
  · simp [hd] at hc

/-! ## Two lists of slots -/

/-- A relation holds slot by slot, from a place on. -/
def Along (P : Nat → Value → Value → Prop) : Nat → List Value → List Value → Prop
  | _, [], [] => True
  | i, v :: vs, w :: ws => P i v w ∧ Along P (i + 1) vs ws
  | _, _, _ => False

namespace Along

variable {P : Nat → Value → Value → Prop}

theorem get (h : Along P i vs ws) (j : Nat) : vs[j]? = none ∧ ws[j]? = none ∨
      ∃ v w, vs[j]? = some v ∧ ws[j]? = some w ∧ P (i + j) v w := by
  induction vs generalizing i ws j with
  | nil =>
    cases ws with
    | nil => exact .inl ⟨rfl, rfl⟩
    | cons w ws => exact h.elim
  | cons v vs ih =>
    cases ws with
    | nil => exact h.elim
    | cons w ws =>
      cases j with
      | zero => exact .inr ⟨v, w, rfl, rfl, h.1⟩
      | succ j =>
        rw [show i + (j + 1) = i + 1 + j by omega]
        exact ih h.2 j

theorem of_getElem? (hl : vs.length = ws.length)
    (h : ∀ j v w, vs[j]? = some v → ws[j]? = some w → P (i + j) v w) : Along P i vs ws := by
  induction vs generalizing i ws with
  | nil =>
    cases ws with
    | nil => trivial
    | cons w ws => cases hl
  | cons v vs ih =>
    cases ws with
    | nil => cases hl
    | cons w ws =>
      refine ⟨h 0 v w rfl rfl, ih (by simpa using hl) fun j v w hv hw => ?_⟩
      rw [show i + 1 + j = i + (j + 1) by omega]
      exact h (j + 1) v w hv hw

theorem imp {Q : Nat → Value → Value → Prop} (hPQ : ∀ i v w, P i v w → Q i v w) (h : Along P i vs ws) :
    Along Q i vs ws := by
  induction vs generalizing i ws with
  | nil => cases ws <;> exact h
  | cons v vs ih =>
    cases ws with
    | nil => exact h
    | cons w ws => exact ⟨hPQ _ _ _ h.1, ih h.2⟩

/-- Slots that are the same on both sides. -/
theorem eq_of_forall {Q : Value → Prop} (h : Along P i vs ws) (hP : ∀ j v w, P j v w → w = v ∧ Q v) :
    ws = vs ∧ ∀ v ∈ vs, Q v := by
  induction vs generalizing i ws with
  | nil =>
    cases ws with
    | nil => exact ⟨rfl, by simp⟩
    | cons w ws => exact h.elim
  | cons v vs ih =>
    cases ws with
    | nil => exact h.elim
    | cons w ws =>
      obtain ⟨rfl, hv⟩ := hP _ _ _ h.1
      obtain ⟨rfl, hvs⟩ := ih h.2
      exact ⟨rfl, forall_mem_cons.2 ⟨hv, hvs⟩⟩

end Along

/-! ## Mirrors -/

/-- A value that stands for itself: neither nothing nor a block. -/
def Value.given : Value → Bool
  | .none | .block _ => false
  | _ => true

/-- The scene with other variables. -/
def Scene.withGlobals (s : Scene) (globals : List (Value × Value)) : Scene :=
  { s with env := { s.env with globals } }

/-- A program in two stores, and how the variables of its two runs belong together. -/
structure Mirror where
  /-- The store of the one run. -/
  left : Store
  /-- The store of the other run. -/
  right : Store
  /-- The blocks of the program. -/
  program : BlockId → Prop
  /-- The values that variables and slots hold; they are the same in both runs. -/
  good : Value → Prop
  /-- The stacks on the left and on the right that belong together. -/
  bodies : StackId → StackId → Prop
  /-- The rows on the left and on the right that belong together. -/
  rows : RowId → RowId → Prop
  /-- What names a variable on the left and on the right. -/
  name : Value → Value → Prop
  /-- What names a variable to assign on the left and on the right. -/
  target : Value → Value → Prop
  /-- The variables on the left and those on the right. -/
  globals : List (Value × Value) → List (Value × Value) → Prop

namespace Mirror

variable (M : Mirror)

/-- The name of a variable in a slot on both sides. -/
def Name (a : Action) (i : Nat) (v w : Value) : Prop := M.name v w ∧ (i ∈ a.assigned → M.target v w)

/-- What an evaluated slot gives: a name, a value, or the stack of a body. -/
def Arg (a : Action) (i : Nat) (v w : Value) : Prop :=
  if i ∈ a.names then M.Name a i v w
  else w = v ∧ M.good v ∨ ∃ t u, v = .stack t ∧ w = .stack u ∧ i ∈ a.bodies ∧ M.bodies t u

/-- What stands in a slot of a block: a block, a value, nothing on both sides, or a stack where nothing
is on the left.  Blocks and nothing stand in a slot for a name only if every good value is one. -/
inductive Slot (d : Definition) (i : Nat) : Value → Value → Prop
  | block {b : BlockId} (hb : M.program b)
    (hname : i ∈ d.action.names → ∀ v, M.good v → M.Name d.action i v v) : Slot d i (.block b) (.block b)
  | value {v w : Value} (hv : v.given = true) (hw : w.given = true) (h : M.Arg d.action i v w) : Slot d i v w
  | unfilled (hname : i ∈ d.action.names → ∀ v, M.good v → M.Name d.action i v v) : Slot d i .none .none
  | opened {c : Component} {u : StackId} (hc : d.inputs[i]? = some c)
    (h : M.Arg d.action i c.default (.stack u)) : Slot d i .none (.stack u)

/-- What evaluated slots give. -/
abbrev Args (a : Action) (ps qs : List Value) : Prop := Along (M.Arg a) 0 ps qs

/-- Two scenes that differ only in their variables. -/
def Scenes (s t : Scene) : Prop := ∃ gs, M.globals s.env.globals gs ∧ t = s.withGlobals gs

/-- Two exits that differ only in the name of a variable that is not there. -/
def Exits (e f : Exit) : Prop :=
  f = e ∨ ∃ v w, M.name v w ∧ e = .fault (.unknownKey (M.left.shown v)) ∧
    f = .fault (.unknownKey (M.right.shown w))

/-- What makes the two programs run alike. -/
structure Lawful : Prop where
  row {r q : RowId} : M.rows r q → M.right.row q = M.left.row r ∧ ∀ b ∈ M.left.row r, M.program b
  body {t u : StackId} : M.bodies t u → M.rows (M.left.stack t).row (M.right.stack u).row
  definition {b : BlockId} : M.program b → M.right.definitionOf b = M.left.definitionOf b
  known {b : BlockId} : M.program b → (M.left.definitionOf b).Known
  values {b : BlockId} : M.program b →
    Along (M.Slot (M.left.definitionOf b)) 0 (M.left.block b).values (M.right.block b).values
  blank : M.bodies blankStack blankStack
  good_of_plain {v : Value} : v.plain = true → M.good v
  good_of_mem {items : List Value} {v : Value} : M.good (.list items) → v ∈ items → M.good v
  program_of_good {b : BlockId} : M.good (.block b) → M.program b
  bodies_of_good {t : StackId} : M.good (.stack t) → M.bodies t t
  plain_eq {v : Value} : M.good v → M.right.plain v = M.left.plain v
  digest {v w : Value} : M.name v w ∨ M.target v w →
    (fun _ => ()) <$> M.right.digest w = (fun _ => ()) <$> M.left.digest v
  lookup {v w : Value} {gs hs : List (Value × Value)} : M.name v w → M.globals gs hs →
    (gs.find? fun g => M.left.sameKey g.1 v) = none ∧ (hs.find? fun g => M.right.sameKey g.1 w) = none ∨
      ∃ n m x, (gs.find? fun g => M.left.sameKey g.1 v) = some (n, x) ∧
        (hs.find? fun g => M.right.sameKey g.1 w) = some (m, x) ∧ M.good x
  assign {v w x : Value} {gs hs : List (Value × Value)} : M.target v w → M.good x → M.globals gs hs →
    M.globals (Environment.putGlobal M.left v x gs) (Environment.putGlobal M.right w x hs)

variable {M} {α β : Type}

/-! ## Two steps that end alike -/

/-- The two ends of a step. -/
def Ends (M : Mirror) (Q : α → α → Prop) :
    EStateM.Result Exit Scene α → EStateM.Result Exit Scene α → Prop
  | .ok a s, .ok b t => Q a b ∧ M.Scenes s t
  | .error e s, .error f t => M.Exits e f ∧ M.Scenes s t
  | _, _ => False

/-- From scenes that belong together two steps end alike, and in such scenes. -/
structure Match (M : Mirror) (Q : α → α → Prop) (x y : Act α) : Prop where
  /-- The two ends. -/
  run {s t : Scene} : M.Scenes s t → M.Ends Q (x s) (y t)

namespace Match

variable {Q : α → α → Prop} {P : β → β → Prop}

protected theorem pure {a b : α} (h : Q a b) : M.Match Q (pure a) (pure b) := ⟨fun hs => ⟨h, hs⟩⟩

protected theorem throw (h : M.Exits e f) : M.Match Q (throw e) (throw f) := ⟨fun hs => ⟨h, hs⟩⟩

protected theorem fail (f : Fault) : M.Match Q (fail f) (fail f) := .throw (.inl rfl)

protected theorem bind {x y : Act β} {f g : β → Act α} (hx : M.Match P x y)
    (hf : ∀ a b, P a b → M.Match Q (f a) (g b)) : M.Match Q (x >>= f) (y >>= g) := by
  constructor
  intro s t hs
  have he := hx.run hs
  change M.Ends Q (EStateM.bind x f s) (EStateM.bind y g t)
  unfold EStateM.bind
  cases hxs : x s <;> cases hyt : y t <;> rw [hxs, hyt] at he
  · exact (hf _ _ he.1).run he.2
  · exact he.elim
  · exact he.elim
  · exact he

protected theorem get_bind {f g : Scene → Act α}
    (h : ∀ s gs, M.globals s.env.globals gs → M.Match Q (f s) (g (s.withGlobals gs))) :
    M.Match Q (get >>= f) (get >>= g) := by
  constructor
  rintro s _ ⟨gs, hgs, rfl⟩
  exact (h s gs hgs).run ⟨gs, hgs, rfl⟩

protected theorem set {s t : Scene} (h : M.Scenes s t) :
    M.Match (fun _ _ => True) (set s : Act PUnit) (set t) :=
  ⟨fun _ => ⟨trivial, h⟩⟩

protected theorem modify {f g : Scene → Scene}
    (h : ∀ s gs, M.globals s.env.globals gs → M.Scenes (f s) (g (s.withGlobals gs))) :
    M.Match (fun _ _ => True) (modify f : Act PUnit) (modify g) := by
  constructor
  rintro s _ ⟨gs, hgs, rfl⟩
  exact ⟨trivial, h s gs hgs⟩

protected theorem ofExcept {P : α → Prop} {x : Except Fault α} (h : ∀ a, x = .ok a → P a) :
    M.Match (fun a b => b = a ∧ P a) (ofExcept x) (ofExcept x) := by
  cases x with
  | ok a => exact .pure ⟨rfl, h a rfl⟩
  | error f => exact .fail f

protected theorem weaken {R : α → α → Prop} {x y : Act α} (h : M.Match Q x y)
    (hQR : ∀ a b, Q a b → R a b) : M.Match R x y := by
  constructor
  intro s t hs
  have he := h.run hs
  cases hx : x s <;> cases hy : y t <;> rw [hx, hy] at he
  · exact ⟨hQR _ _ he.1, he.2⟩
  · exact he.elim
  · exact he.elim
  · exact he

/-- The same computation on both sides. -/
theorem same_bind {x : Except Fault β} {f g : β → Act α} (hf : ∀ a, x = .ok a → M.Match Q (f a) (g a)) :
    M.Match Q (ofExcept x >>= f) (ofExcept x >>= g) := by
  refine .bind (.ofExcept fun _ h => h) ?_
  rintro _ a ⟨rfl, ha⟩
  exact hf a ha

end Match

/-! ## Tasks -/

/-- The tasks of the two runs. -/
inductive Twin (M : Mirror) : Task → Task → Prop
  | fresh {id : BlockId} {ps qs : List Value} (hid : M.program id)
    (h : M.Args (M.left.definitionOf id).action ps qs) :
    Twin M (.fresh id (M.left.definitionOf id).action ps)
      (.fresh id (M.left.definitionOf id).action qs)
  | body {a : Action} {ps qs : List Value} {slot : Nat} (h : M.Args a ps qs)
    (hslot : slot ∉ a.names) : Twin M (.body ps slot) (.body qs slot)
  | stack {t u : StackId} (h : M.bodies t u) : Twin M (.stack t) (.stack u)
  | row {r q : RowId} {next : Nat} (h : M.rows r q) : Twin M (.row r next) (.row q next)
  | counted {left : Nat} {ps qs : List Value} (h : M.Args .repeatTimes ps qs) :
    Twin M (.counted left ps) (.counted left qs)
  | listed {items ps qs : List Value} (hitems : ∀ v ∈ items, M.good v)
    (h : M.Args .forEach ps qs) : Twin M (.listed items ps) (.listed items qs)
  | conditional {id : BlockId} {ps qs : List Value} (hid : M.program id)
    (ha : (M.left.definitionOf id).action = .whileTrue) (h : M.Args .whileTrue ps qs) :
    Twin M (.conditional id ps) (.conditional id qs)
  | guarded {ps qs : List Value} (h : M.Args .attempt ps qs) : Twin M (.guarded ps) (.guarded qs)
  | sleeping : Twin M .sleeping .sleeping
  | retelling {negated : Bool} {ps : List Value} (h : ∀ v ∈ ps, M.good v) :
    Twin M (.retelling negated ps) (.retelling negated ps)
  | letters {cs : List Char} : Twin M (.letters cs) (.letters cs)

/-- The tasks of the two runs, one by one. -/
abbrev Twins (M : Mirror) : List Task → List Task → Prop := List.Forall₂ M.Twin

/-- What became of a task in the two runs. -/
def Moves (M : Mirror) : Move → Move → Prop
  | .give v ts, .give w us => (w = v ∧ M.good v) ∧ M.Twins ts us
  | .go ts, .go us => M.Twins ts us
  | _, _ => False

/-- What a block hands over in the two runs. -/
def Starts (M : Mirror) : Begun → Begun → Prop
  | .tasks ts, .tasks us => M.Twins ts us
  | .line s, .line t => t = s
  | .nothing, .nothing => True
  | _, _ => False

/-! ## Values of slots -/

section

variable {a : Action} {i : Nat} {ps qs : List Value}

theorem match_arg (h : M.Args a ps qs) (i : Nat) :
    M.Match (M.Arg a i) (ofExcept (arg ps i)) (ofExcept (arg qs i)) := by
  unfold arg
  obtain ⟨hps, hqs⟩ | ⟨v, w, hps, hqs, ha⟩ := h.get i
  · simp only [hps, hqs]
    exact .fail _
  · rw [Nat.zero_add] at ha
    simp only [hps, hqs]
    exact .pure ha

/-- A slot for a name gives what names a variable on both sides. -/
theorem match_name (h : M.Args a ps qs) (hi : i ∈ a.names) :
    M.Match (M.Name a i) (ofExcept (arg ps i)) (ofExcept (arg qs i)) :=
  (match_arg h i).weaken fun v w ha => by rwa [Arg, if_pos hi] at ha

theorem Arg.same (h : M.Arg a i v w) (hi : i ∉ a.names) (hbo : i ∉ a.bodies) : w = v ∧ M.good v := by
  rw [Arg, if_neg hi] at h
  exact h.resolve_right fun ⟨_, _, _, _, hb, _⟩ => hbo hb

/-- A slot for a value gives the same good value on both sides. -/
theorem arg_good (h : M.Args a ps qs) (hi : i ∉ a.names) (hb : i ∉ a.bodies) :
    arg qs i = arg ps i ∧ Gives M.good (arg ps i) := by
  unfold arg
  obtain ⟨hps, hqs⟩ | ⟨v, w, hps, hqs, ha⟩ := h.get i
  · simp only [hps, hqs]
    exact ⟨trivial, .error trivial⟩
  · obtain ⟨rfl, hg⟩ := (Nat.zero_add i ▸ ha).same hi hb
    simp only [hps, hqs]
    exact ⟨trivial, .ok hg⟩

/-- Without slots for names and bodies all slots give the same good values. -/
theorem args_good (h : M.Args a ps qs) (hn : a.names = []) (hb : a.bodies = []) :
    qs = ps ∧ ∀ v ∈ ps, M.good v := by
  exact h.eq_of_forall fun j v w ha => ha.same (by simp [hn]) (by simp [hb])

end

/-! ## Values and variables -/

theorem bind_eq_of_ok {x : Except Fault β} {f g : β → Except Fault α}
    (h : ∀ b, x = .ok b → f b = g b) : (x >>= f) = (x >>= g) := by
  cases x with
  | error e => rfl
  | ok b => exact h b rfl

section

variable (hM : M.Lawful)
include hM

theorem brief_eq (hv : M.good v) : M.right.brief v = M.left.brief v := by
  unfold Store.brief
  rw [hM.plain_eq hv]

theorem brief_arg_eq (h : ∀ v ∈ ps, M.good v) (i : Nat) :
    (arg ps i >>= M.right.brief) = (arg ps i >>= M.left.brief) :=
  bind_eq_of_ok fun _ hv => brief_eq hM (h _ (mem_of_getElem? (arg_mem hv)))

theorem equalTexts_eq (h : ∀ v ∈ ps, M.good v) : equalTexts M.right ps = equalTexts M.left ps := by
  simp only [equalTexts, ← bind_assoc, brief_arg_eq hM h]

/-- An operator reads the store only to print the values of its slots. -/
theorem value_eq (a : Action) (h : ∀ v ∈ ps, M.good v) : value M.right a ps = value M.left a ps := by
  cases a with
  | join | toText => simp only [value, ← bind_assoc, brief_arg_eq hM h]
  | _ => rfl

theorem match_getVariable (h : M.name v w) :
    M.Match (fun v w => w = v ∧ M.good v) (getVariable M.left v) (getVariable M.right w) := by
  refine .get_bind fun s gs hgs => ?_
  have hdi := hM.digest (.inl h)
  simp only [Environment.get, Scene.withGlobals]
  cases hl : M.left.digest v <;> cases hr : M.right.digest w <;> rw [hl, hr] at hdi <;>
    cases hdi
  · exact .fail _
  · obtain ⟨hl, hr⟩ | ⟨n, m, x, hl, hr, hx⟩ := hM.lookup h hgs
    · simp only [hl, hr]
      exact .throw (.inr ⟨v, w, h, rfl, rfl⟩)
    · simp only [hl, hr]
      exact .pure ⟨rfl, hx⟩

theorem match_setVariable {value : Value} (h : M.target v w) (hv : M.good value) :
    M.Match (fun _ _ => True) (setVariable M.left v value) (setVariable M.right w value) := by
  refine .get_bind fun s gs hgs => ?_
  have hdi := hM.digest (.inr h)
  simp only [Environment.set, Scene.withGlobals]
  cases hl : M.left.digest v <;> cases hr : M.right.digest w <;> rw [hl, hr] at hdi <;>
    cases hdi
  · exact .bind (P := fun _ _ => False) (.fail _) fun _ _ => False.elim
  · exact .set ⟨_, hM.assign h hv hgs, rfl⟩

end

/-! ## First moves -/

section

variable {a : Action} {i : Nat} {ps qs : List Value}

theorem number_eq (h : M.Args a ps qs) (hi : i ∉ a.names) (hb : i ∉ a.bodies) :
    number qs i = number ps i := by
  unfold number
  rw [(arg_good h hi hb).1]

theorem Match.give (hv : M.good v) : M.Match M.Moves (pure (.give v [])) (pure (.give v [])) :=
  .pure ⟨⟨rfl, hv⟩, .nil⟩

theorem Match.go {ts us : List Task} (h : M.Twins ts us) :
    M.Match M.Moves (pure (.go ts)) (pure (.go us)) :=
  .pure h

variable (hM : M.Lawful)
include hM

theorem match_sleepOn : M.Match M.Moves sleepOn sleepOn := by
  refine .get_bind fun s gs hgs => ?_
  change M.Match M.Moves (if Num.lt 0 s.env.timer then _ else _)
    (if Num.lt 0 s.env.timer then _ else _)
  split
  · refine .bind (.set ⟨gs, hgs, rfl⟩) fun _ _ _ => .pure ?_
    exact ⟨⟨rfl, hM.good_of_plain rfl⟩, .cons .sleeping .nil⟩
  · exact .go .nil

theorem match_makeNumeric (h : M.Name a i v w) (hi : i ∈ a.assigned) :
    M.Match (fun _ _ => True) (makeNumeric M.left v) (makeNumeric M.right w) := by
  refine .bind (match_getVariable hM h.1) ?_
  rintro _ value ⟨rfl, -⟩
  split
  · exact match_setVariable hM (h.2 hi) (hM.good_of_plain rfl)
  · split
    · exact .pure trivial
    · exact .fail _

theorem match_changeBy (h : M.Args a ps qs) (hn : 0 ∈ a.names) (ha : 0 ∈ a.assigned)
    (ho : 1 ∉ a.names ∧ 1 ∉ a.bodies) (onText : Fault) (f : Float → Float → Float) :
    M.Match M.Moves (changeBy M.left ps onText f) (changeBy M.right qs onText f) := by
  refine .bind (match_name h hn) fun v w hvw => ?_
  refine .bind (match_makeNumeric hM hvw ha) fun _ _ _ => ?_
  refine .bind (match_getVariable hM hvw.1) ?_
  rintro _ value ⟨rfl, -⟩
  rw [number_eq h ho.1 ho.2]
  refine .same_bind fun amount _ => ?_
  split
  · refine .bind (match_setVariable hM (hvw.2 ha) (hM.good_of_plain rfl)) fun _ _ _ => ?_
    exact .give (hM.good_of_plain rfl)
  · exact .fail _

theorem match_random (ps : List Value) : M.Match M.Moves (random ps) (random ps) := by
  refine .same_bind fun low _ => .same_bind fun high _ => ?_
  split
  · exact .fail _
  · refine .get_bind fun s gs hgs => ?_
    generalize (high - low + 1).toNat = n
    have hr : (s.withGlobals gs).env.roll n =
        ((s.env.roll n).1, { (s.env.roll n).2 with globals := gs }) := by
      obtain ⟨⟨⟩⟩ := s
      rfl
    obtain ⟨dice, hd⟩ := roll_dice s.env n
    rw [hr]
    generalize s.env.roll n = roll at hd ⊢
    refine .bind (.set ⟨gs, ?_, rfl⟩) fun _ _ _ => .give (hM.good_of_plain rfl)
    rwa [hd]

theorem match_writeFile (h : ∀ v ∈ ps, M.good v) :
    M.Match M.Moves (writeFile M.left ps) (writeFile M.right ps) := by
  refine .same_bind fun path _ => .get_bind fun s gs hgs => ?_
  refine .same_bind fun folder _ => ?_
  refine .bind (.set ⟨gs, hgs, rfl⟩) fun _ _ _ => ?_
  rw [brief_arg_eq hM h]
  refine .same_bind fun contents _ => ?_
  exact .bind (.set ⟨gs, hgs, rfl⟩) fun _ _ _ => .give (hM.good_of_plain rfl)

theorem match_compareValues (negated : Bool) (h : ∀ v ∈ ps, M.good v) :
    M.Match M.Moves (ofExcept (compareValues M.left negated ps))
      (ofExcept (compareValues M.right negated ps)) := by
  have hs : compareValues M.right negated ps = compareValues M.left negated ps := by
    simp only [compareValues, equalTexts_eq hM h]
  have hmo : Gives (fun m => M.Moves m m) (compareValues M.left negated ps) :=
    gives_compareValues (fun _ => ⟨⟨rfl, hM.good_of_plain rfl⟩, .cons (.retelling h) .nil⟩)
      fun _ => ⟨⟨rfl, hM.good_of_plain rfl⟩, .nil⟩
  rw [hs]
  refine (Match.ofExcept fun _ => hmo.answer).weaken ?_
  rintro _ m ⟨rfl, hm⟩
  exact hm

/-- A block whose slots take neither names nor bodies computes a value. -/
theorem match_value {a : Action} (h : ∀ v ∈ ps, M.good v) : M.Match M.Moves
      (ofExcept (value M.left a ps) >>= fun v => pure (.give v []))
      (ofExcept (value M.right a ps) >>= fun v => pure (.give v [])) := by
  rw [value_eq hM a h]
  exact .same_bind fun v hv => .give ((gives_value (fun _ => hM.good_of_plain) M.left a ps fun _ => h).answer hv)

theorem match_first {id : BlockId} (hid : M.program id) (ha : (M.left.definitionOf id).action = a)
    (h : M.Args a ps qs) : M.Match M.Moves (first M.left id a ps) (first M.right id a qs) := by
  cases a with
  | repeatTimes =>
    simp only [first]
    rw [number_eq h (by decide) (by decide)]
    exact .same_bind fun n _ => .go (.cons (.counted h) .nil)
  | forEach =>
    refine .bind (match_name h (by decide)) fun v w hvw => ?_
    refine .bind (match_getVariable hM hvw.1) ?_
    rintro _ value ⟨rfl, hv⟩
    refine .same_bind fun items hi => .go (.cons (.listed ?_ h) .nil)
    exact (gives_walk (fun _ => hM.good_of_plain) (fun _ h v => hM.good_of_mem h) hv).answer hi
  | whileTrue => exact .go (.cons (.conditional hid ha h) .nil)
  | ifThen =>
    simp only [first]
    rw [(arg_good h (by decide) (by decide)).1]
    refine .same_bind fun condition _ => .go ?_
    split
    · exact .cons (.body h (by decide)) .nil
    · exact .nil
  | ifElse =>
    simp only [first]
    rw [(arg_good h (by decide) (by decide)).1]
    exact .same_bind fun condition _ => .go (.cons (.body h (by simp [Action.names])) .nil)
  | attempt => exact .go (.cons (.body h (by decide)) (.cons (.guarded h) .nil))
  | getVariable =>
    refine .bind (match_name h (by decide)) fun v w hvw => ?_
    refine .bind (match_getVariable hM hvw.1) ?_
    rintro _ value ⟨rfl, hv⟩
    exact .give hv
  | setVariable =>
    obtain ⟨heq, hg⟩ := arg_good h (i := 1) (by decide) (by decide)
    simp only [first]
    rw [heq]
    refine .same_bind fun value hv => ?_
    refine .bind (match_name h (by decide)) fun v w hvw => ?_
    refine .bind (match_setVariable hM (hvw.2 (by decide)) (hg.answer hv)) fun _ _ _ => ?_
    exact .give (hM.good_of_plain rfl)
  | increment => exact match_changeBy hM h (by decide) (by decide) (by decide) _ _
  | decrement => exact match_changeBy hM h (by decide) (by decide) (by decide) _ _
  | start => exact .give (hM.good_of_plain rfl)
  | sleep =>
    simp only [first]
    rw [number_eq h (by decide) (by decide)]
    refine .same_bind fun time _ => ?_
    refine .bind (.modify fun s gs hgs => ⟨gs, hgs, rfl⟩) fun _ _ _ => ?_
    exact match_sleepOn hM
  | readFile =>
    obtain ⟨rfl, hg⟩ := args_good h rfl rfl
    refine .same_bind fun path _ => .get_bind fun s gs hgs => ?_
    exact .same_bind fun text _ => .give (hM.good_of_plain rfl)
  | say =>
    obtain ⟨rfl, hg⟩ := args_good h rfl rfl
    simp only [first]
    rw [brief_arg_eq hM hg]
    refine .same_bind fun line _ => ?_
    refine .bind (.modify fun s gs hgs => ⟨gs, hgs, rfl⟩) fun _ _ _ => ?_
    exact .give (hM.good_of_plain rfl)
  | writeFile =>
    obtain ⟨rfl, hg⟩ := args_good h rfl rfl
    exact match_writeFile hM hg
  | random =>
    obtain ⟨rfl, -⟩ := args_good h rfl rfl
    exact match_random hM _
  | equal =>
    obtain ⟨rfl, hg⟩ := args_good h rfl rfl
    exact match_compareValues hM false hg
  | unequal =>
    obtain ⟨rfl, hg⟩ := args_good h rfl rfl
    exact match_compareValues hM true hg
  | _ =>
    obtain ⟨rfl, hg⟩ := args_good h rfl rfl
    exact match_value hM hg

end

/-! ## Evaluating slots -/

theorem slotValue_given {d : BlockId → Act Value} {b : Block} {i : Int} (h : v.given = true) :
    slotValue d b i v = pure v := by
  cases v with
  | none => cases h
  | block b => cases h
  | _ => rfl

section

variable {d e : BlockId → Act Value} (hM : M.Lawful)
  (hd : ∀ b, M.program b → M.Match (fun v w => w = v ∧ M.good v) (d b) (e b))
include hM hd

omit hd in
/-- An unfilled slot stands for the same on both sides. -/
theorem arg_default (hb : M.program b) (hc : (M.left.definitionOf b).inputs[i]? = some c)
    (hn : i ∈ (M.left.definitionOf b).action.names → ∀ v, M.good v →
      M.Name (M.left.definitionOf b).action i v v) :
    M.Arg (M.left.definitionOf b).action i c.default c.default := by
  have hbo := (known_slots (hM.known hb) hc).2
  unfold Arg
  obtain hp | ⟨hk, hde⟩ := known_default (hM.known hb) (mem_of_getElem? hc)
  · split
    · exact hn ‹_› _ (hM.good_of_plain hp)
    · exact .inl ⟨rfl, hM.good_of_plain hp⟩
  · rw [if_neg (Action.not_mem_names (hbo.1 hk))]
    exact .inr ⟨_, _, hde, hde, hbo.1 hk, hM.blank⟩

theorem match_slotValue (hb : M.program b) (h : M.Slot (M.left.definitionOf b) i v w) :
    M.Match (M.Arg (M.left.definitionOf b).action i) (slotValue d (M.left.block b) i v)
      (slotValue e (M.right.block b) i w) := by
  have hde : (M.right.block b).definition = M.left.definitionOf b := hM.definition hb
  have hl : (M.left.block b).definition = M.left.definitionOf b := rfl
  cases h with
  | @block b' hb' hn =>
    refine (hd b' hb').weaken ?_
    rintro v _ ⟨rfl, hv⟩
    unfold Arg
    split
    · exact hn ‹_› _ hv
    · exact .inl ⟨rfl, hv⟩
  | value hv hw h =>
    rw [slotValue_given hv, slotValue_given hw]
    exact .pure h
  | unfilled hn =>
    simp only [slotValue, defaultOf, hde, hl, input?_natCast]
    split
    · rename_i c hc
      exact .pure (arg_default hM hb hc hn)
    · exact .fail _
  | opened hc h =>
    simp only [slotValue, defaultOf, hl, input?_natCast, hc]
    exact .pure h

omit hd in
/-- Names and bodies are left as they are, and other values are converted alike. -/
theorem match_convert (hb : M.program b) (hc : (M.left.definitionOf b).inputs[i]? = some c)
    (h : M.Arg (M.left.definitionOf b).action i v w) :
    M.Match (M.Arg (M.left.definitionOf b).action i) (ofExcept (convert M.left c.kind v))
      (ofExcept (convert M.right c.kind w)) := by
  obtain ⟨hna, hbo⟩ := known_slots (hM.known hb) hc
  have hv (hk : c.kind = .number ∨ c.kind = .text) : w = v ∧ M.good v ∧
      i ∉ (M.left.definitionOf b).action.names := by
    have hn : i ∉ (M.left.definitionOf b).action.names := fun hi => by
      rw [hna.2 hi] at hk
      simp at hk
    have hbd : i ∉ (M.left.definitionOf b).action.bodies := fun hi => by
      rw [hbo.2 hi] at hk
      simp at hk
    exact ⟨(h.same hn hbd).1, (h.same hn hbd).2, hn⟩
  unfold convert
  split
  · rename_i hk
    obtain ⟨rfl, -, hn⟩ := hv (.inl hk)
    refine (Match.ofExcept fun _ => (Gives.map (P := (·.plain = true)) (fun _ => rfl) _).answer).weaken ?_
    rintro _ x ⟨rfl, hx⟩
    rw [Arg, if_neg hn]
    exact .inl ⟨rfl, hM.good_of_plain hx⟩
  · rename_i hk
    obtain ⟨rfl, hg, hn⟩ := hv (.inr hk)
    rw [hM.plain_eq hg]
    refine Match.pure ?_
    rw [Arg, if_neg hn]
    exact .inl ⟨rfl, hM.good_of_plain rfl⟩
  · exact .pure h

theorem match_inputs (hb : M.program b) (i : Nat) (h : Along (M.Slot (M.left.definitionOf b)) i vs ws) :
    M.Match (Along (M.Arg (M.left.definitionOf b).action) i)
      (inputs M.left d (M.left.block b) i vs) (inputs M.right e (M.right.block b) i ws) := by
  have hde : (M.right.block b).definition = (M.left.block b).definition := hM.definition hb
  induction vs generalizing i ws with
  | nil =>
    cases ws with
    | nil => exact .pure trivial
    | cons w ws => exact h.elim
  | cons v vs ih =>
    cases ws with
    | nil => exact h.elim
    | cons w ws =>
      refine .bind (match_slotValue hM hd hb h.1) fun v w hvw => ?_
      simp only [hde, input?_natCast]
      split
      · exact .fail _
      · rename_i c hc
        refine .bind (match_convert hM hb hc hvw) fun v w hvw => ?_
        exact .bind (ih (i + 1) h.2) fun ps qs hpq => .pure ⟨hvw, hpq⟩

theorem match_begin (hb : M.program b) : M.Match M.Starts (begin M.left d b) (begin M.right e b) := by
  have hde : (M.right.block b).definition = (M.left.block b).definition := hM.definition hb
  refine .bind (match_inputs hM hd hb 0 (hM.values hb)) fun ps qs ha => ?_
  rw [hde]
  split
  · exact .pure trivial
  · exact .throw (.inl rfl)
  · exact .throw (.inl rfl)
  · exact .throw (.inl rfl)
  · rename_i has
    rw [Store.definitionOf, has] at ha
    obtain ⟨rfl, hg⟩ := args_good ha rfl rfl
    rw [brief_arg_eq hM hg]
    refine .same_bind fun question _ => ?_
    refine .bind (.modify fun s gs hgs => ⟨gs, hgs, rfl⟩) fun _ _ _ => ?_
    exact .get_bind fun s gs hgs => .pure rfl
  · exact .pure (.cons (.fresh hb ha) .nil)

/-- The tasks of a block that stands in a row. -/
theorem match_enter (hb : M.program b) :
    M.Match M.Twins (begin M.left d b >>= fun begun => ofExcept (enter begun))
      (begin M.right e b >>= fun begun => ofExcept (enter begun)) := by
  refine .bind (match_begin hM hd hb) fun begun begun' h => ?_
  cases begun <;> cases begun' <;> try exact h.elim
  · exact .pure h
  · cases h
    exact .pure (.cons .letters .nil)
  · exact .fail _

/-! ## Moves -/

theorem match_bodyTasks {qs : List Value} {slot : Nat} (h : M.Args a ps qs) (hs : slot ∉ a.names) :
    M.Match M.Twins (bodyTasks M.left d ps slot) (bodyTasks M.right e qs slot) := by
  refine .bind (match_arg h slot) fun v w hvw => ?_
  rw [Arg, if_neg hs] at hvw
  obtain ⟨rfl, hg⟩ | ⟨t, u, rfl, rfl, -, ht⟩ := hvw
  · cases w with
    | stack t => exact .pure (.cons (.stack (hM.bodies_of_good hg)) .nil)
    | block b => exact match_enter hM hd (hM.program_of_good hg)
    | _ => exact .fail _
  · exact .pure (.cons (.stack ht) .nil)

theorem match_conditional (hb : M.program b) (ha : (M.left.definitionOf b).action = .whileTrue) :
    M.Match (fun v w => w = v) (getValue M.left d b 0) (getValue M.right e b 0) := by
  unfold getValue
  have hi (items : List Value) : itemAt? items 0 = items[0]? := itemAt?_natCast items 0
  simp only [hi]
  obtain ⟨hl, hr⟩ | ⟨v, w, hl, hr, hs⟩ := (hM.values hb).get 0
  · simp only [hl, hr]
    exact .fail _
  · simp only [hl, hr]
    refine (match_slotValue hM hd hb hs).weaken fun v w har => ?_
    rw [ha] at har
    exact (har.same (by decide) (by decide)).1

theorem match_advance {t u : Task} (h : M.Twin t u) :
    M.Match M.Moves (advance M.left d t) (advance M.right e u) := by
  cases h with
  | fresh hid h => exact match_first hM hid rfl h
  | body h hs => exact .bind (match_bodyTasks hM hd h hs) fun _ _ => .go
  | stack h => exact .go (.cons (.row (hM.body h)) .nil)
  | @row r q next h =>
    simp only [advance, (hM.row h).1]
    split
    · exact .go .nil
    · rename_i b hb
      have hb : M.program b := (hM.row h).2 b (mem_of_getElem? hb)
      rw [← bind_assoc, ← bind_assoc]
      refine .bind (match_enter hM hd hb) fun ts us hts => .go ?_
      exact rel_append hts (.cons (.row h) .nil)
  | @counted left ps qs h =>
    cases left with
    | zero => exact .go .nil
    | succ left => exact .go (.cons (.body h (by decide)) (.cons (.counted h) .nil))
  | @listed items ps qs hi h =>
    cases items with
    | nil => exact .go .nil
    | cons item items =>
      obtain ⟨hit, hi⟩ := forall_mem_cons.1 hi
      refine .bind (match_name h (by decide)) fun v w hvw => ?_
      refine .bind (match_setVariable hM (hvw.2 (by decide)) hit) fun _ _ _ => ?_
      exact .go (.cons (.body h (by decide)) (.cons (.listed hi h) .nil))
  | conditional hid ha h =>
    refine .bind (match_conditional hM hd hid ha) ?_
    rintro _ condition rfl
    split
    · exact .go (.cons (.body h (by decide)) (.cons (.conditional hid ha h) .nil))
    · exact .go .nil
  | guarded h => exact .go .nil
  | sleeping => exact match_sleepOn hM
  | retelling h =>
    simp only [advance]
    rw [equalTexts_eq hM h]
    exact .same_bind fun equal _ => .give (hM.good_of_plain rfl)
  | @letters cs =>
    cases cs with
    | nil => exact .go .nil
    | cons c cs => exact .pure ⟨⟨rfl, hM.good_of_plain rfl⟩, .cons .letters .nil⟩

end

/-! ## Steps -/

/-- Exits that differ only in a name are caught by the same tasks. -/
theorem Exits.unwind_eq (h : M.Exits e f) (tasks : List Task) : unwind f tasks = unwind e tasks := by
  obtain rfl | ⟨v, w, -, rfl, rfl⟩ := h
  · rfl
  · induction tasks with
    | nil => rfl
    | cons t rest ih => cases t <;> simp [unwind, ih, Exit.isCaught]

theorem Exits.fromInside (h : M.Exits e f) : M.Exits e.fromInside f.fromInside := by
  obtain rfl | ⟨v, w, h, rfl, rfl⟩ := h
  · exact .inl rfl
  · exact .inr ⟨v, w, h, rfl, rfl⟩

/-- What goes on where an exit is caught. -/
theorem twins_unwind (e : Exit) (h : M.Twins tasks tasks') :
    Option.Rel M.Twins (unwind e tasks) (unwind e tasks') := by
  induction h with
  | nil => exact .none
  | @cons t u rest rest' ht hr ih =>
    cases ht with
    | counted h =>
      cases e with
      | breakLoop => exact .some hr
      | continueLoop => exact .some (.cons (.counted h) hr)
      | _ => exact ih
    | listed hi h =>
      cases e with
      | breakLoop => exact .some hr
      | continueLoop => exact .some (.cons (.listed hi h) hr)
      | _ => exact ih
    | conditional hid ha h =>
      cases e with
      | breakLoop => exact .some hr
      | continueLoop => exact .some (.cons (.conditional hid ha h) hr)
      | _ => exact ih
    | guarded h =>
      simp only [unwind]
      split
      · exact .some (.cons (.body h (by decide)) hr)
      · exact ih
    | _ => simpa only [unwind] using ih

/-- What a step gave in the two runs, and what is left. -/
def Answers (M : Mirror) : Option (Value × List Task) → Option (Value × List Task) → Prop
  | none, none => True
  | some (v, ts), some (w, us) => (w = v ∧ M.good v) ∧ M.Twins ts us
  | _, _ => False

section

variable {d e : BlockId → Act Value} (hM : M.Lawful)
include hM

theorem match_resume (hd : ∀ b, M.program b → M.Match (fun v w => w = v ∧ M.good v) (d b) (e b))
    (fuel : Nat) (h : M.Twins tasks tasks') :
    M.Match M.Answers (resume M.left d fuel tasks) (resume M.right e fuel tasks') := by
  induction fuel generalizing tasks tasks' with
  | zero => exact .throw (.inl rfl)
  | succ fuel ih =>
    cases h with
    | nil => exact .pure trivial
    | @cons t u rest rest' htu hre =>
      constructor
      intro s s' hs
      have hen := (match_advance hM hd htu).run hs
      rw [resume_cons, resume_cons]
      cases ht : advance M.left d t s <;> cases hu : advance M.right e u s' <;> rw [ht, hu] at hen
      · rename_i m s1 m' s1'
        obtain ⟨hm, hs1⟩ := hen
        cases m <;> cases m' <;> try exact hm.elim
        · exact ⟨⟨hm.1, rel_append hm.2 hre⟩, hs1⟩
        · exact (ih (rel_append hm hre)).run hs1
      · exact hen.elim
      · exact hen.elim
      · rename_i e1 s1 e1' s1'
        obtain ⟨he, hs1⟩ := hen
        have he := he.fromInside
        have hun := twins_unwind e1.fromInside hre
        dsimp only
        rw [he.unwind_eq]
        cases hl : unwind e1.fromInside rest <;> cases hr : unwind e1.fromInside rest' <;>
          rw [hl, hr] at hun <;> cases hun
        · exact ⟨he, hs1⟩
        · exact (ih ‹_›).run hs1

theorem match_demand (moves fuel : Nat) (hb : M.program b) :
    M.Match (fun v w => w = v ∧ M.good v) (demand M.left moves fuel b)
      (demand M.right moves fuel b) := by
  induction fuel generalizing b with
  | zero => exact .throw (.inl rfl)
  | succ fuel ih =>
    refine .bind (match_begin hM (fun b => ih) hb) fun begun begun' h => ?_
    cases begun <;> cases begun' <;> try exact h.elim
    · refine .bind (match_resume hM (fun b => ih) moves h) fun answer answer' ha => ?_
      rcases answer with _ | ⟨v, ts⟩ <;> rcases answer' with _ | ⟨w, us⟩ <;> try exact ha.elim
      · exact .fail _
      · obtain ⟨⟨rfl, hg⟩, -⟩ := ha
        cases w with
        | block b => exact ih (hM.program_of_good hg)
        | _ => exact .pure ⟨rfl, hg⟩
    · exact .fail _
    · exact .fail _

/-- One step of the two programs. -/
theorem match_step (limits : Limits) (h : M.Twins tasks tasks') :
    M.Match M.Answers (step M.left limits tasks) (step M.right limits tasks') :=
  match_resume hM (fun _ => match_demand hM limits.moves limits.depth) limits.moves h

/-! ## Runs -/

omit hM in
/-- How the two runs ended. -/
def Endings (M : Mirror) : Run.Ending → Run.Ending → Prop
  | .finished, .finished | .running, .running => True
  | .stopped e, .stopped f => M.Exits e f
  | _, _ => False

/-- The two runs give the same steps, end alike, and leave scenes that belong together. -/
theorem follow (limits : Limits) (count : Nat) (h : M.Twins tasks tasks') {s s' : Scene}
    (hs : M.Scenes s s') :
    (follow M.right limits count tasks' s').1 = (follow M.left limits count tasks s).1 ∧
      M.Endings (follow M.left limits count tasks s).2.1
        (follow M.right limits count tasks' s').2.1 ∧
      M.Scenes (follow M.left limits count tasks s).2.2
        (follow M.right limits count tasks' s').2.2 := by
  induction count generalizing tasks tasks' s s' with
  | zero => exact ⟨rfl, trivial, hs⟩
  | succ count ih =>
    have he := (match_step hM limits h).run hs
    unfold follow
    cases hl : step M.left limits tasks s <;> cases hr : step M.right limits tasks' s' <;>
      rw [hl, hr] at he
    · rename_i answer s1 answer' s1'
      obtain ⟨ha, hs1⟩ := he
      rcases answer with _ | ⟨v, ts⟩ <;> rcases answer' with _ | ⟨w, us⟩ <;> try exact ha.elim
      · exact ⟨rfl, trivial, hs1⟩
      · obtain ⟨⟨rfl, -⟩, hts⟩ := ha
        obtain ⟨hst, hre⟩ := ih hts hs1
        refine ⟨?_, hre⟩
        obtain ⟨gs, -, rfl⟩ := hs
        obtain ⟨gs1, -, rfl⟩ := hs1
        exact congrArg (cons _) hst
    · exact he.elim
    · exact he.elim
    · exact ⟨rfl, he⟩

end

end Mirror

end BlockStudio
