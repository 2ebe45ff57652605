import BlockStudio.Proofs.LoopControl
import BlockStudio.Proofs.StepTermination

/-!
# Reporters only look

A tree of reporters is evaluated in a slot from its leaves on, and every reporter gives its first
value in its first move.  None of them assigns a variable, says a line, sets the timer or writes a
file, so evaluation leaves the scene alone, whether it gives a value or stops on the way.  Two things
may differ afterwards: the question that was asked last, and the dice.

`Observes` is the form in which this is proved: it speaks about one run and compares the scene it
ends in with the one that a whole evaluation began in, so the parts of an evaluation are put together
without a word about the scenes in between.
-/

namespace BlockStudio

open List

variable {v : Value} {id : BlockId} {action : Action} {params : List Value} {n : Nat}

/-- The second scene differs from the first at most in the question asked last and in the dice. -/
structure Scene.Untouched (s t : Scene) : Prop where
  /-- The variables have their values and their order. -/
  globals : t.env.globals = s.env.globals
  /-- The timer stands where it stood. -/
  timer : t.env.timer = s.env.timer
  /-- Nothing was said. -/
  output : t.env.output = s.env.output
  /-- What the user typed is still there. -/
  stdin : t.env.stdin = s.env.stdin
  /-- All files are as they were. -/
  folder : t.folder = s.folder

theorem Scene.Untouched.refl (s : Scene) : s.Untouched s := ⟨rfl, rfl, rfl, rfl, rfl⟩

/-- Values that are not blocks themselves. -/
def Value.isBlock : Value → Bool
  | .block _ => true
  | _ => false

theorem Value.isBlock_of_plain (h : v.plain = true) : v.isBlock = false := by
  cases v with
  | block id => cases h
  | _ => rfl

/-- No variable holds a block. -/
def Scene.WithoutBlocks (s : Scene) : Prop := ∀ g ∈ s.env.globals, g.2.isBlock = false

theorem Scene.Untouched.withoutBlocks {s t : Scene} (h : s.Untouched t) (hs : s.WithoutBlocks) :
    t.WithoutBlocks := by
  rwa [WithoutBlocks, h.globals]

/-- What the blocks do that give a value in a slot. -/
def Action.reports : Action → Bool
  | .start | .sleep | .repeatTimes | .forEach | .whileTrue | .ifThen | .ifElse | .attempt
  | .breakLoop | .continueLoop | .quit | .say | .writeFile | .setVariable | .increment
  | .decrement => false
  | _ => true

theorem reports_of_reporter {d : Definition} (hd : d ∈ Catalogue.blocks)
    (hr : d.blockType = .reporter) : d.action.reports = true := by
  have ha : ∀ d ∈ Catalogue.blocks, d.blockType = .reporter → d.action.reports = true := by
    decide +kernel
  exact ha d hd hr

/-- A tree of reporters of the catalogue, nested to a depth below `n`.  Slots that hold no block may
be unfilled or hold anything else. -/
def Store.ReporterWithin (s : Store) : Nat → BlockId → Prop
  | 0, _ => False
  | n + 1, id =>
    s.definitionOf id ∈ Catalogue.blocks ∧ (s.definitionOf id).blockType = .reporter ∧
      ∀ b, .block b ∈ (s.block id).values → s.ReporterWithin n b

namespace Run

variable {α β : Type} {store : Store} {s t : Scene} {d : BlockId → Act Value} {b : Block}
  {P : Value → Prop} {E : Exit → Prop} {moves : Nat}

/-! ## Runs that leave the scene alone -/

/-- A run that leaves a scene alone.  It gives an answer with the property `P` or an exit with the
property `E`. -/
structure Observes (s : Scene) (P : α → Prop) (E : Exit → Prop) (r : EStateM.Result Exit Scene α) :
    Prop where
  /-- The scene at its end. -/
  untouched : s.Untouched (endState r)
  /-- The property of an answer. -/
  answer {a : α} {t : Scene} : r = .ok a t → P a
  /-- The property of an exit. -/
  exit {e : Exit} {t : Scene} : r = .error e t → E e

namespace Observes

variable {P : α → Prop} {Q : β → Prop} {E : Exit → Prop}

protected theorem pure {a : α} (ht : s.Untouched t) (ha : P a) :
    Observes s P E ((pure a : Act α) t) where
  untouched := ht
  answer := by
    rintro _ _ ⟨⟩
    exact ha
  exit := by rintro _ _ ⟨⟩

protected theorem throw {e : Exit} (ht : s.Untouched t) (he : E e) :
    Observes s P E ((throw e : Act α) t) where
  untouched := ht
  answer := by rintro _ _ ⟨⟩
  exit := by
    rintro _ _ ⟨⟩
    exact he

protected theorem ofExcept {x : Except Fault α} (ht : s.Untouched t) (hok : ∀ a, x = .ok a → P a)
    (he : ∀ f, x = .error f → E (.fault f)) : Observes s P E (Act.ofExcept x t) := by
  cases x with
  | ok a => exact .pure ht (hok a rfl)
  | error f => exact .throw ht (he f rfl)

/-- The second part of a run begins where the first one ended. -/
protected theorem bind {x : Act α} {f : α → Act β} (hx : Observes s P E (x t))
    (hf : ∀ a u, x t = .ok a u → P a → s.Untouched u → Observes s Q E (f a u)) :
    Observes s Q E ((x >>= f) t) := by
  have hu := hx.untouched
  rw [bind_run]
  cases h : x t <;> rw [h] at hu
  · exact hf _ _ h (hx.answer h) hu
  · exact .throw hu (hx.exit h)

protected theorem weaken {P' : α → Prop} {E' : Exit → Prop} {r : EStateM.Result Exit Scene α}
    (h : Observes s P E r) (hP : ∀ a, P a → P' a) (hE : ∀ e, E e → E' e) : Observes s P' E' r :=
  ⟨h.untouched, fun hr => hP _ (h.answer hr), fun hr => hE _ (h.exit hr)⟩

end Observes

/-! ## Evaluating the slots of a block -/

theorem ofExcept_run_eq_ok {x : Except Fault α} {a : α} :
    Act.ofExcept x s = .ok a t ↔ x = .ok a ∧ s = t := by
  cases x with
  | ok b => exact pure_eq_ok.trans (by simp)
  | error f => simp [Act.ofExcept, throw_ne_ok]

theorem inputs_cons_eq_ok {i : Nat} {values : List Value} :
    inputs store d b i (v :: values) s = .ok params t ↔ ∃ w u c x ps, slotValue d b i v s = .ok w u ∧
      b.definition.inputs[i]? = some c ∧ convert store c.kind w = .ok x ∧
      inputs store d b (i + 1) values u = .ok ps t ∧ params = x :: ps := by
  rw [inputs, bind_eq_ok, input?_natCast]
  cases b.definition.inputs[i]? with
  | none => simp [Act.fail, throw_ne_ok]
  | some c => simp [bind_eq_ok, ofExcept_run_eq_ok, map_eq_ok, and_assoc, eq_comm (a := params)]

/-- The slots of a block are evaluated one by one, each in the scene that those before it left. -/
theorem observes_inputs {P : Nat → Value → Prop} (hs : s.Untouched t)
    (hsl : ∀ before v after params u, b.values = before ++ v :: after →
      inputs store d b 0 before t = .ok params u → s.Untouched u →
      Observes s (fun ps => ∃ w, ps = [w] ∧ P before.length w) E
        (inputs store d b before.length [v] u)) :
    Observes s (fun ps => ps.length = b.values.length ∧ ∀ i w, ps[i]? = some w → P i w) E
      (inputs store d b 0 b.values t) := by
  -- By induction on the number of slots that are evaluated so far.
  suffices hpr : ∀ k, k ≤ b.values.length →
      Observes s (fun ps => ps.length = k ∧ ∀ i w, ps[i]? = some w → P i w) E
        (inputs store d b 0 (b.values.take k) t) by
    have := hpr _ (Nat.le_refl _)
    rwa [take_length] at this
  intro k hk
  induction k with
  | zero => exact .pure hs ⟨rfl, by simp⟩
  | succ k ih =>
    have hlt : k < b.values.length := hk
    have hsp : b.values = b.values.take k ++ b.values[k] :: b.values.drop (k + 1) := by
      rw [← drop_eq_getElem_cons hlt, take_append_drop]
    have hl : (b.values.take k).length = k := by
      rw [length_take]
      omega
    rw [take_add_one, getElem?_eq_getElem hlt, Option.toList_some, inputs_append]
    refine .bind (ih (Nat.le_of_lt hlt)) fun params u hr hp hu => ?_
    rw [Nat.zero_add]
    refine .bind (hsl _ _ _ params u hsp hr hu) fun ps u' _ hps hu' => ?_
    obtain ⟨w, rfl, hw⟩ := hps
    rw [hl] at hw
    refine .pure hu' ⟨by simp [hp.1], fun i w' hi => ?_⟩
    obtain hlt | rfl | hgt : i < k ∨ i = k ∨ k < i := by omega
    · rw [getElem?_append_left (by omega)] at hi
      exact hp.2 i w' hi
    · rw [getElem?_append_right (by omega), hp.1, Nat.sub_self] at hi
      cases hi
      exact hw
    · rw [getElem?_eq_none (by simp; omega)] at hi
      cases hi

/-! ## Asking for the value of a reporter -/

/-- The move gives a value with a property. -/
def GivesValue (P : Value → Prop) (m : Move) : Prop := ∃ v ts, m = .give v ts ∧ P v

/-- A task that gives a value in its first move. -/
theorem observes_resume {task : Task} (ht : s.Untouched t) (hmo : moves = 0 → E .outOfFuel)
    (hi : ∀ e, E e → E e.fromInside)
    (ha : Observes s (GivesValue P) E (advance store d task t)) :
    Observes s (fun r => ∃ v ts, r = some (v, ts) ∧ P v) E (resume store d moves [task] t) := by
  cases moves with
  | zero => exact .throw ht (hmo rfl)
  | succ moves =>
    have hu := ha.untouched
    rw [resume_cons]
    cases hm : advance store d task t with
    | error e u =>
      rw [hm] at hu
      exact .throw hu (hi e (ha.exit hm))
    | ok m u =>
      rw [hm] at hu
      obtain ⟨v, ts, rfl, hv⟩ := ha.answer hm
      exact .pure hu ⟨v, ts ++ [], rfl, hv⟩

/-- A reporter is asked for its value: its slots are evaluated, and then its first move gives the
value.  The two blocks that have nothing to run have an exit of their own. -/
theorem observes_demand {fuel : Nat} {Q : List Value → Prop}
    (hre : (store.definitionOf id).action.reports = true) (hin : Observes s Q E
      (inputs store (demand store moves fuel) (store.block id) 0 (store.block id).values t))
    (hva : ∀ v, P v → v.isBlock = false) (his : ∀ e, E e → E e.fromInside)
    (hm : moves = 0 → E .outOfFuel)
    (hi : (store.definitionOf id).action = .inert → E (.fault (.notIterator "NoneType")))
    (hl : (store.definitionOf id).action = .ask → E (.fault (.notIterator "str")) ∧
      ∀ params, Q params → ∀ f, Operator.arg params 0 >>= store.brief = .error f → E (.fault f))
    (hf : ∀ params u, inputs store (demand store moves fuel) (store.block id) 0
      (store.block id).values t = .ok params u → Q params → s.Untouched u →
      (store.definitionOf id).action ≠ .inert → (store.definitionOf id).action ≠ .ask →
      Observes s (GivesValue P) E (first store id (store.definitionOf id).action params u)) :
    Observes s P E (demand store moves (fuel + 1) id t) := by
  unfold demand
  rw [begin, bind_assoc]
  refine .bind hin fun params u hru hp hu => ?_
  have hf := hf params u hru hp hu
  unfold Store.definitionOf at hre hi hl hf
  split
  · exact .throw hu (hi ‹_›)
  case h_2 ha | h_3 ha | h_4 ha =>
    rw [ha] at hre
    cases hre
  case h_5 ha =>
    rw [bind_assoc]
    refine .bind (P := fun _ => True)
      (.ofExcept hu (fun _ _ => trivial) ((hl ha).2 params hp))
      fun question v _ _ hv => ?_
    exact .throw ⟨hv.globals, hv.timer, hv.output, hv.stdin, hv.folder⟩ (hl ha).1
  case h_6 hi' _ _ _ has =>
    have hf := hf hi' has
    rw [pure_bind]
    -- One move is enough: it gives a value that is not a block.
    refine .bind (observes_resume hu hm his hf) fun r u' _ hr hu' => ?_
    obtain ⟨v, ts, rfl, hv⟩ := hr
    have hb := hva v hv
    cases v with
    | block b => cases hb
    | _ => exact .pure hu' hv

/-! ## The first move of a reporter -/

theorem untouched_roll (h : s.Untouched t) (n : Nat) :
    s.Untouched { t with env := (t.env.roll n).2 } := by
  obtain ⟨dice, hd⟩ := roll_dice t.env n
  rw [hd]
  exact ⟨h.globals, h.timer, h.output, h.stdin, h.folder⟩

/-- The first move of a reporter gives a value that is not a block, or fails. -/
theorem observes_first (hre : action.reports = true) (hp : ∀ v ∈ params, v.isBlock = false)
    (ht : t.WithoutBlocks) (hu : s.Untouched t) (hE : ∀ f, E (.fault f)) :
    Observes s (GivesValue fun v => v.isBlock = false) E (first store id action params t) := by
  have hg {v : Value} {u : Scene} (hu : s.Untouched u) (hv : v.isBlock = false) :
      Observes s (GivesValue fun v => v.isBlock = false) E ((pure (.give v []) : Act Move) u) :=
    Observes.pure hu ⟨v, [], rfl, hv⟩
  have hr {α : Type} {x : Except Fault α} {u : Scene} (hu : s.Untouched u) :
      Observes s (fun a => x = .ok a) E (Act.ofExcept x u) :=
    Observes.ofExcept hu (fun _ h => h) fun f _ => hE f
  have hva : Gives (fun v => v.isBlock = false) (Operator.value store action params) :=
    gives_value (fun _ => Value.isBlock_of_plain) store action params fun _ => hp
  have hc (negated : Bool) : Observes s (GivesValue fun v => v.isBlock = false) E
      (Act.ofExcept (compareValues store negated params) t) :=
    .ofExcept hu (fun _ => Meets.answer
      (gives_compareValues (fun _ => ⟨_, _, rfl, rfl⟩) fun _ => ⟨_, _, rfl, rfl⟩)) fun f _ => hE f
  cases action with
  | readFile =>
    refine Observes.bind (hr hu) fun path u _ _ hu => ?_
    rw [get_bind]
    exact Observes.bind (hr hu) fun text u _ _ hu => hg hu rfl
  | random =>
    refine .bind (hr hu) fun low u _ _ hu => ?_
    refine .bind (hr hu) fun high u _ _ hu => ?_
    split
    · exact .throw hu (hE _)
    · exact hg (untouched_roll hu (high - low + 1).toNat) rfl
  | equal => exact hc false
  | unequal => exact hc true
  | getVariable =>
    refine .bind (hr hu) fun name u hru _ hu' => ?_
    obtain rfl : t = u := by
      cases ha : Operator.arg params 0 with
      | ok v =>
        rw [ha] at hru
        exact (pure_eq_ok.1 hru).2
      | error f =>
        rw [ha] at hru
        cases hru
    refine .bind (x := getVariable store name) (hr hu') fun v u _ hv hu => ?_
    exact hg hu ((gives_get (P := (·.isBlock = false)) ht store name).answer hv)
  | start | sleep | repeatTimes | forEach | whileTrue | ifThen | ifElse | attempt | breakLoop
  | continueLoop | quit | say | writeFile | setVariable | increment | decrement => cases hre
  | _ => exact .bind (hr hu) fun v u _ hv hu => hg hu (hva.answer hv)

/-! ## Trees of reporters -/

/-- The exits of an evaluation: running out of bounds is one of them only when the bounds are too
narrow for the tree. -/
def NarrowExit (n : Nat) (limits : Limits) (e : Exit) : Prop :=
  e = .outOfFuel → limits.depth < n ∨ limits.moves = 0

/-- A slot that holds a tree of reporters, or no block. -/
theorem observes_slot (hk : b.definition.Known)
    (hd : ∀ c, store.ReporterWithin n c → ∀ u, s.Untouched u →
      Observes s (fun v => v.isBlock = false) E (d c u)) (hE : ∀ f, E (.fault f))
    (hv : ∀ c, v = .block c → store.ReporterWithin n c) (i : Nat) (ht : s.Untouched t) :
    Observes s (fun ps => ∃ w, ps = [w] ∧ w.isBlock = false) E (inputs store d b i [v] t) := by
  have hsl : Observes s (fun v => v.isBlock = false) E (slotValue d b i v t) := by
    cases v with
    | block c => exact hd c (hv c rfl) t ht
    | none =>
      refine .ofExcept ht (fun w hw => ?_) fun f _ => hE f
      unfold defaultOf at hw
      split at hw
      · rename_i c hc
        cases hw
        rw [input?_natCast] at hc
        obtain hp | ⟨-, hs⟩ := known_default hk (mem_of_getElem? hc)
        · exact Value.isBlock_of_plain hp
        · rw [hs]
          rfl
      · cases hw
    | _ => exact .pure ht rfl
  refine .bind hsl fun w u _ hw hu => ?_
  cases hc : b.definition.input? i with
  | none => exact .throw hu (hE _)
  | some c =>
    have hco : Gives (fun w => w.isBlock = false) (convert store c.kind w) := by
      unfold convert
      split
      · exact .map (P := fun w : Value => w.isBlock = false) (fun _ => rfl) _
      · exact .ok rfl
      · exact .ok hw
    refine .bind (.ofExcept hu (fun _ => hco.answer) fun f _ => hE f) fun w u _ hw hu => ?_
    exact .bind (.pure (P := fun ps => ps = []) hu rfl) fun ps u _ hps hu =>
      .pure hu ⟨w, by rw [hps], hw⟩

theorem observes_slots (hk : b.definition.Known)
    (hd : ∀ c, store.ReporterWithin n c → ∀ u, s.Untouched u →
      Observes s (fun v => v.isBlock = false) E (d c u)) (hE : ∀ f, E (.fault f))
    (hs : ∀ c, .block c ∈ b.values → store.ReporterWithin n c) (ht : s.Untouched t) :
    Observes s (fun ps => ∀ v ∈ ps, v.isBlock = false) E (inputs store d b 0 b.values t) := by
  refine (observes_inputs (P := fun _ v => v.isBlock = false) ht ?_).weaken ?_ fun _ h => h
  · intro before v after params u hva _ hu
    refine observes_slot hk hd hE (fun c hc => hs c ?_) _ hu
    simp [hva, hc]
  · intro ps hps v hv
    obtain ⟨i, hi⟩ := mem_iff_getElem?.1 hv
    exact hps.2 i v hi

/-- By induction on the depth of evaluation: the reporters in the slots only look, and so does what
is done with their values. -/
theorem observes_ask (hs : s.WithoutBlocks) (moves fuel : Nat) (hid : store.ReporterWithin n id)
    (ht : s.Untouched t) :
    Observes s (fun v => v.isBlock = false) (NarrowExit n ⟨fuel, moves⟩)
      (demand store moves fuel id t) := by
  induction fuel generalizing n id t with
  | zero =>
    cases n with
    | zero => exact hid.elim
    | succ n => exact .throw ht fun _ => .inl (Nat.zero_lt_succ n)
  | succ fuel ih =>
    cases n with
    | zero => exact hid.elim
    | succ n =>
      obtain ⟨hd, hre, hsl⟩ := hid
      have hr := reports_of_reporter hd hre
      have hE (f : Fault) : NarrowExit (n + 1) ⟨fuel + 1, moves⟩ (.fault f) := nofun
      have hi (c : BlockId) (hc : store.ReporterWithin n c) (u : Scene) (hu : s.Untouched u) :
          Observes s (fun v => v.isBlock = false) (NarrowExit (n + 1) ⟨fuel + 1, moves⟩)
            (demand store moves fuel c u) :=
        (ih hc hu).weaken (fun _ h => h) fun e he ho =>
          (he ho).imp_left fun h => Nat.succ_lt_succ h
      refine observes_demand (Q := fun ps => ∀ v ∈ ps, v.isBlock = false) hr ?_
        (fun _ h => h) ?_ (fun h _ => .inr h) (fun _ => hE _)
        (fun _ => ⟨hE _, fun _ _ f _ => hE f⟩) ?_
      · exact observes_slots (.inl hd) hi hE hsl ht
      · intro e he ho
        exact he (fromInside_eq_outOfFuel.1 ho)
      · intro params u _ hp hu _ _
        exact observes_first hr hp (hu.withoutBlocks hs) hu hE

/-- Evaluation within bounds leaves a scene alone, and within bounds wide enough for nesting below
`n` it comes to an end. -/
def OnlyLooks (n : Nat) (x : Limits → Act α) (s : Scene) : Prop :=
  ∀ limits, s.Untouched (endState (x limits s)) ∧
    (n ≤ limits.depth → 0 < limits.moves → ¬RanOut (x limits s))

theorem onlyLooks_ask (hid : store.ReporterWithin n id) (hs : s.WithoutBlocks) :
    OnlyLooks n (fun limits => ask store limits id) s := by
  intro limits
  have h := observes_ask hs limits.moves limits.depth hid (.refl s)
  refine ⟨h.untouched, fun hd hm ho => ?_⟩
  change RanOut (ask store limits id s) at ho
  cases hr : ask store limits id s with
  | ok v u =>
    rw [hr] at ho
    exact ho
  | error e u =>
    rw [hr, ranOut_error] at ho
    have := h.exit hr ho
    dsimp only at this
    omega

/-- A tree of reporters, however deep and whatever stands in its other slots, is evaluated in a slot
of any block, in its turn among all slots or by itself.  As long as no variable holds a block, the
evaluation ends, and variables, output, timer, what was typed and files are as they were, whether it
gave a value or failed. -/
theorem reporters_only_look {n : Nat} {id : BlockId} (hid : store.ReporterWithin n id)
    (hs : s.WithoutBlocks) {host : BlockId} {i : Int}
    (hslot : itemAt? (store.block host).values i = some (.block id)) :
    OnlyLooks n (fun limits => slotValue (ask store limits) (store.block host) i (.block id)) s ∧
      OnlyLooks n (fun limits => getValue store (ask store limits) host i) s := by
  refine ⟨onlyLooks_ask hid hs, fun limits => ?_⟩
  have hvalue : getValue store (ask store limits) host i = ask store limits id := by
    unfold getValue
    simp only [hslot]
    rfl
  dsimp only
  rw [hvalue]
  exact onlyLooks_ask hid hs limits

/-- Say the name of a user joined with a throw of dice, where the name is asked for. -/
def greeting : Store :=
  let s := (Store.empty.addBlock (named "rand") [.none, .int 6]).2
  let s := (s.addBlock (named "parse-text") [.block ⟨0⟩]).2
  let s := (s.addBlock (named "input") [.text "Who?"]).2
  let s := (s.addBlock (named "join") [.block ⟨1⟩, .block ⟨2⟩]).2
  (s.addBlock (named "print") [.block ⟨3⟩]).2

/-- The dice are thrown, the question is asked, and the evaluation fails there. -/
theorem greeting_only_looks : greeting.ReporterWithin 3 ⟨3⟩ ∧
      OnlyLooks 3 (fun limits => getValue greeting (ask greeting limits) ⟨4⟩ 0) {} := by
  have htree : greeting.ReporterWithin 3 ⟨3⟩ := by
    refine ⟨named_mem "join" rfl, rfl, fun b hb => ?_⟩
    obtain rfl | rfl : b = ⟨1⟩ ∨ b = ⟨2⟩ := by
      simpa using (show Value.block b ∈ [.block ⟨1⟩, .block ⟨2⟩] from hb)
    · refine ⟨named_mem "parse-text" rfl, rfl, fun b hb => ?_⟩
      obtain rfl : b = ⟨0⟩ := by simpa using (show Value.block b ∈ [.block ⟨0⟩] from hb)
      refine ⟨named_mem "rand" rfl, rfl, fun b hb => ?_⟩
      have hb : Value.block b ∈ [.none, .int 6] := hb
      simp at hb
    · refine ⟨named_mem "input" rfl, rfl, fun b hb => ?_⟩
      have hb : Value.block b ∈ [.text "Who?"] := hb
      simp at hb
  exact ⟨htree, (reporters_only_look htree (by simp [Scene.WithoutBlocks]) rfl).2⟩

end Run

end BlockStudio
