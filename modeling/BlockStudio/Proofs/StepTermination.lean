import BlockStudio.Proofs.Nesting
import Mathlib.Data.List.Induction

/-!
# When a step of a program returns

One step of a running program makes silent moves until a value is given.  Of all the moves only a
new round of a loop with a condition can be repeated without bound: bodies are nested to a finite
depth, counted loops and walks through lists have their rounds counted beforehand, and blocks in
slots are nested too.  So a step returns exactly when there is a bound on the rounds of such loops
that it passes through, and a loop whose condition stays true and whose body gives no value makes
the step go on forever.
-/

namespace BlockStudio

open Catalogue List

variable {k n : Nat} {limits l1 l2 : Limits} {b id : BlockId} {s s' : Scene} {t : Task} {e : Exit}
  {rest ts : List Task} {params : List Value}

/-- The tasks that a move leaves. -/
def Move.left : Move → List Task
  | .give _ ts | .go ts => ts

namespace Run

/-! ## Passing through a step -/

/-- What a step is working on: tasks, or a block in a slot. -/
inductive Work where
  /-- Tasks, the innermost first. -/
  | tasks (ts : List Task)
  /-- A block whose first value is asked for. -/
  | block (id : BlockId)

variable (store : Store)

/-- Evaluating the slots of a block comes to a block in one of them. -/
def SlotAsks (b : BlockId) (s : Scene) (id : BlockId) (s' : Scene) : Prop :=
  ∃ limits before after params, (store.block b).values = before ++ .block id :: after ∧
    inputs store (ask store limits) (store.block b) 0 before s = .ok params s'

/-- The move of a task comes to a block in a slot. -/
inductive TaskAsks : Task → Scene → BlockId → Scene → Prop
  /-- A block in a row has its slots evaluated. -/
  | row {row : RowId} {next : Nat} {b id : BlockId} {s s' : Scene}
    (hb : (store.row row)[next]? = some b) (h : SlotAsks store b s id s') :
    TaskAsks (.row row next) s id s'
  /-- A loop asks its condition. -/
  | condition {b id : BlockId} {params : List Value} {s : Scene}
    (h : (store.block b).values[0]? = some (.block id)) : TaskAsks (.conditional b params) s id s

/-- One for a new round of a loop with a condition, and zero for every other move. -/
def roundOf : Task → List Task → Nat
  | .conditional .., _ :: _ => 1
  | _, _ => 0

/-- One move within a step, with the number of rounds that it begins. -/
inductive Leads : Nat → Work × Scene → Work × Scene → Prop
  /-- A task makes way for others. -/
  | go {limits : Limits} {t : Task} {ts rest : List Task} {s s' : Scene}
    (h : advance store (ask store limits) t s = .ok (.go ts) s') :
    Leads (roundOf t ts) (.tasks (t :: rest), s) (.tasks (ts ++ rest), s')
  /-- An exit is caught. -/
  | caught {limits : Limits} {t : Task} {ts rest : List Task} {e : Exit} {s s' : Scene}
    (h : advance store (ask store limits) t s = .error e s')
    (hts : unwind e.fromInside rest = some ts) :
    Leads 0 (.tasks (t :: rest), s) (.tasks ts, s')
  /-- A task asks for the value of a block in a slot. -/
  | asks {t : Task} {rest : List Task} {id : BlockId} {s s' : Scene} (h : TaskAsks store t s id s') :
    Leads 0 (.tasks (t :: rest), s) (.block id, s')
  /-- A block in a slot asks for the value of one in its own slots. -/
  | slot {b id : BlockId} {s s' : Scene} (h : SlotAsks store b s id s') :
    Leads 0 (.block b, s) (.block id, s')
  /-- The slots of a block are evaluated and it begins. -/
  | begun {limits : Limits} {b : BlockId} {ts : List Task} {s s' : Scene}
    (h : begin store (ask store limits) b s = .ok (.tasks ts) s') :
    Leads 0 (.block b, s) (.tasks ts, s')

/-- What a step passes through, with the number of rounds on the way. -/
inductive Passes : Nat → Work × Scene → Work × Scene → Prop
  | here (c : Work × Scene) : Passes 0 c c
  | move {m n : Nat} {c1 c2 c3 : Work × Scene} (h : Leads store m c1 c2)
    (rest : Passes n c2 c3) : Passes (m + n) c1 c3

/-- At most this many rounds are passed through. -/
def RoundsWithin (n : Nat) (c : Work × Scene) : Prop := ∀ m c', Passes store m c c' → m ≤ n

/-- The step that works on something returns. -/
def Returns : Work × Scene → Prop
  | (.tasks ts, s) => ∃ limits, ¬RanOut (step store limits ts s)
  | (.block id, s) => ∃ limits, ¬RanOut (ask store limits id s)

variable {store} {m : Nat} {c c' : Work × Scene} {d : BlockId → Act Value} {v : Value}

theorem RoundsWithin.move (h : RoundsWithin store n c) (hm : Leads store m c c') :
    m ≤ n ∧ RoundsWithin store (n - m) c' := by
  refine ⟨by simpa using h _ _ (.move hm (.here c')), fun k c'' hk => ?_⟩
  have := h _ _ (.move hm hk)
  omega

theorem RoundsWithin.silent (h : RoundsWithin store n c) (hm : Leads store 0 c c') :
    RoundsWithin store n c' := by
  simpa using (h.move hm).2

/-! ## A step that returns passes through boundedly many rounds -/

/-- Slots are evaluated from the first to the last. -/
theorem inputs_append (d : BlockId → Act Value) (b : Block) (i : Nat) (before after : List Value) :
    inputs store d b i (before ++ after) = do
      let ps ← inputs store d b i before
      let qs ← inputs store d b (i + before.length) after
      return ps ++ qs := by
  induction before generalizing i with
  | nil => simp [inputs]
  | cons v before ih =>
    simp only [cons_append, inputs, bind_assoc, length_cons]
    congr 1
    funext w
    split
    · rfl
    · simp [ih, Nat.add_right_comm, Nat.add_assoc]

/-- Where the slots of a block are evaluated, the blocks in them are. -/
theorem not_ranOut_of_slotAsks (h : ¬RanOut (begin store (ask store limits) b s))
    (ha : SlotAsks store b s id s') : ¬RanOut (ask store limits id s') := by
  obtain ⟨limits', before, after, params, hv, hb⟩ := ha
  have h : ¬RanOut (inputs store (ask store limits) (store.block b) 0 (store.block b).values s) :=
    not_ranOut_of_bind h
  rw [hv, inputs_append] at h
  have hp := inputs_unique hb not_ranOut_ok (not_ranOut_of_bind h)
  have h := not_ranOut_next hp h
  have h := not_ranOut_of_bind h
  exact not_ranOut_of_bind h

theorem not_ranOut_of_taskAsks (h : ¬RanOut (advance store (ask store limits) t s))
    (ha : TaskAsks store t s id s') : ¬RanOut (ask store limits id s') := by
  cases ha with
  | row hb hs =>
    unfold advance at h
    simp only [hb] at h
    exact not_ranOut_of_slotAsks (not_ranOut_of_bind h) hs
  | condition hv =>
    have h : ¬RanOut (getValue store (ask store limits) _ 0 s) := not_ranOut_of_bind h
    unfold getValue at h
    have hv : itemAt? _ 0 = some _ := (itemAt?_natCast _ 0).trans hv
    simp only [hv] at h
    exact h

theorem not_ranOut_of_caught {α : Type} (hts : unwind e.fromInside rest = some ts) :
    ¬RanOut (.error e s : EStateM.Result Exit Scene α) := by
  rw [ranOut_error]
  rintro rfl
  rw [show Exit.outOfFuel.fromInside = .outOfFuel from rfl, unwind_outOfFuel] at hts
  cases hts

theorem roundOf_le_one (t : Task) (ts : List Task) : roundOf t ts ≤ 1 := by
  unfold roundOf
  split <;> omega

/-- The most rounds that work within bounds passes through: one for each move, on each level of the
blocks that are evaluated in slots. -/
def mostRounds (moves depth fuel : Nat) : Work → Nat
  | .tasks _ => fuel + depth * moves
  | .block _ => depth * moves

/-- Work that does not run out of its bounds. -/
def Suffices (store : Store) (moves depth fuel : Nat) : Work × Scene → Prop
  | (.tasks ts, s) => ¬RanOut (resume store (ask store ⟨depth, moves⟩) fuel ts s)
  | (.block id, s) => ¬RanOut (ask store ⟨depth, moves⟩ id s)

theorem rounds_le {moves : Nat} (h : Passes store m c c') :
    ∀ depth fuel, Suffices store moves depth fuel c → m ≤ mostRounds moves depth fuel c.1 := by
  induction h with
  | here c => exact fun _ _ _ => Nat.zero_le _
  | move hm hrest ih =>
    intro depth fuel h
    cases hm with
    | go ha =>
      cases fuel with
      | zero => exact absurd trivial h
      | succ fuel =>
        have ha := advance_unique ha not_ranOut_ok (not_ranOut_advance h)
        rw [Suffices, resume_cons, ha] at h
        calc _ ≤ 1 + (fuel + depth * moves) := Nat.add_le_add (roundOf_le_one ..) (ih depth fuel h)
          _ = fuel + 1 + depth * moves := by omega
    | caught ha hts =>
      cases fuel with
      | zero => exact absurd trivial h
      | succ fuel =>
        have ha := advance_unique ha (not_ranOut_of_caught hts) (not_ranOut_advance h)
        rw [Suffices, resume_cons, ha] at h
        simp only [hts] at h
        calc _ ≤ 0 + (fuel + depth * moves) := Nat.add_le_add_left (ih depth fuel h) 0
          _ ≤ fuel + 1 + depth * moves := by omega
    | asks has =>
      cases fuel with
      | zero => exact absurd trivial h
      | succ fuel =>
        have hasked := not_ranOut_of_taskAsks (not_ranOut_advance h) has
        calc _ ≤ 0 + depth * moves := Nat.add_le_add_left (ih depth fuel hasked) 0
          _ ≤ fuel + 1 + depth * moves := by omega
    | slot hs =>
      cases depth with
      | zero => exact absurd trivial h
      | succ depth =>
        have hasked : ¬RanOut (ask store ⟨depth, moves⟩ _ _) :=
          not_ranOut_of_slotAsks (not_ranOut_of_bind h) hs
        calc _ ≤ 0 + depth * moves := Nat.add_le_add_left (ih depth fuel hasked) 0
          _ ≤ (depth + 1) * moves := by rw [Nat.succ_mul]; omega
    | begun hb =>
      cases depth with
      | zero => exact absurd trivial h
      | succ depth =>
        have hb : begin store (ask store ⟨depth, moves⟩) _ _ = _ :=
          begin_unique hb not_ranOut_ok (not_ranOut_of_bind h)
        have h := not_ranOut_next hb h
        calc _ ≤ 0 + (moves + depth * moves) :=
              Nat.add_le_add_left (ih depth moves (not_ranOut_of_bind h)) 0
          _ = (depth + 1) * moves := by rw [Nat.succ_mul]; omega

theorem roundsWithin_of_returns (h : Returns store (.tasks ts, s)) :
    ∃ n, RoundsWithin store n (.tasks ts, s) := by
  obtain ⟨⟨depth, moves⟩, h⟩ := h
  exact ⟨moves + depth * moves, fun m c' hm => rounds_le hm depth moves h⟩

/-! ## Putting returning parts together -/

theorem ask_of_within (h : Within l1 l2) (ha : ¬RanOut (ask store l1 id s)) :
    ¬RanOut (ask store l2 id s) := by
  rwa [(Extends.ask store h id).run s ha]

theorem fromInside_eq_outOfFuel : e.fromInside = .outOfFuel ↔ e = .outOfFuel := by
  cases e with
  | fault f => cases f <;> simp [Exit.fromInside]
  | _ => simp [Exit.fromInside]

/-- Bounds for one move more than either of two pairs allows. -/
def oneMore (l1 l2 : Limits) : Limits := ⟨max l1.depth l2.depth, max l1.moves l2.moves + 1⟩

theorem within_oneMore_left (l1 l2 : Limits) : Within l1 (oneMore l1 l2) :=
  ⟨Nat.le_max_left .., Nat.le_trans (Nat.le_max_left ..) (Nat.le_succ _)⟩

theorem within_oneMore_right (l1 l2 : Limits) : Within l2 (oneMore l1 l2) :=
  ⟨Nat.le_max_right .., Nat.le_trans (Nat.le_max_right ..) (Nat.le_succ _)⟩

/-- After a first move within some bounds, a step goes on within others. -/
theorem step_oneMore (ha : ¬RanOut (advance store (ask store l1) t s)) (l2 : Limits)
    (rest : List Task) :
    step store (oneMore l1 l2) (t :: rest) s =
      match advance store (ask store l1) t s with
      | .ok (.give v ts) s' => .ok (some (v, ts ++ rest)) s'
      | .ok (.go ts) s' =>
        resume store (ask store (oneMore l1 l2)) (max l1.moves l2.moves) (ts ++ rest) s'
      | .error e s' =>
        match unwind e.fromInside rest with
        | some ts => resume store (ask store (oneMore l1 l2)) (max l1.moves l2.moves) ts s'
        | none => .error e.fromInside s' := by
  rw [← (extends_advance store (Extends.ask store (within_oneMore_left l1 l2)) t).run s ha]
  rfl

/-- What a step answers after its first move within other bounds. -/
theorem resume_oneMore {r : EStateM.Result Exit Scene (Option (Value × List Task))}
    (h : step store l2 ts s = r) (hr : ¬RanOut r) (l1 : Limits) :
    resume store (ask store (oneMore l1 l2)) (max l1.moves l2.moves) ts s = r :=
  (Extends.resume store (.ask store (within_oneMore_right l1 l2))
    (Nat.le_max_right l1.moves l2.moves) ts).answer h hr

/-- A list of tasks whose first one makes its move and goes on to tasks that return, returns. -/
theorem returns_cons (ha : ∃ limits, ¬RanOut (advance store (ask store limits) t s))
    (hgo : ∀ limits ts s', advance store (ask store limits) t s = .ok (.go ts) s' →
      Returns store (.tasks (ts ++ rest), s'))
    (hc : ∀ limits e ts s', advance store (ask store limits) t s = .error e s' →
      unwind e.fromInside rest = some ts → Returns store (.tasks ts, s')) :
    Returns store (.tasks (t :: rest), s) := by
  obtain ⟨l1, ha⟩ := ha
  have hs := step_oneMore ha
  cases hr : advance store (ask store l1) t s with
  | ok m s' =>
    rw [hr] at hs
    cases m with
    | give v ts =>
      refine ⟨oneMore l1 l1, ?_⟩
      rw [hs]
      exact not_ranOut_ok
    | go ts =>
      obtain ⟨l2, h⟩ := hgo l1 ts s' hr
      refine ⟨oneMore l1 l2, ?_⟩
      rw [hs]
      dsimp only
      rwa [resume_oneMore rfl h]
  | error e s' =>
    rw [hr] at hs
    cases hts : unwind e.fromInside rest with
    | none =>
      refine ⟨oneMore l1 l1, ?_⟩
      rw [hr, ranOut_error] at ha
      rw [hs]
      simp only [hts]
      rwa [ranOut_error, fromInside_eq_outOfFuel]
    | some ts =>
      obtain ⟨l2, h⟩ := hc l1 e ts s' hr hts
      refine ⟨oneMore l1 l2, ?_⟩
      rw [hs]
      simp only [hts]
      rwa [resume_oneMore rfl h]

theorem not_ranOut_slotValue (b : Block) (i : Int) (h : ∀ id, v = .block id → ¬RanOut (d id s)) :
    ¬RanOut (slotValue d b i v s) := by
  cases v with
  | block id => exact h id rfl
  | none => exact (Never.ofExcept _).run s
  | _ => exact not_ranOut_ok

theorem not_ranOut_inputs_singleton (b : Block) (i : Nat) (h : ∀ id, v = .block id → ¬RanOut (d id s)) :
    ¬RanOut (inputs store d b i [v] s) := by
  refine not_ranOut_bind (not_ranOut_slotValue b i h) fun w t _ => Never.run ?_ t
  split
  · exact Never.fail _
  · exact Never.bind (Never.ofExcept _) fun _ => Never.bind (Never.pure _) fun _ => Never.pure _

/-- Bounds that are wide enough for each of some things are found where there is at most one. -/
theorem exists_limits {α : Type} {p : α → Prop} {q : Limits → α → Prop}
    (hu : ∀ a a', p a → p a' → a = a') (h : ∀ a, p a → ∃ l, q l a) : ∃ l, ∀ a, p a → q l a := by
  by_cases hp : ∃ a, p a
  · obtain ⟨a, ha⟩ := hp
    obtain ⟨l, hl⟩ := h a ha
    exact ⟨l, fun a' ha' => hu a a' ha ha' ▸ hl⟩
  · exact ⟨⟨0, 0⟩, fun a ha => absurd ⟨a, ha⟩ hp⟩

section

variable (hasked : ∀ id s', SlotAsks store b s id s' → Returns store (.block id, s'))
include hasked

/-- The slots of a block are evaluated when all blocks that this comes to return. -/
theorem inputs_return {before after : List Value} (hv : (store.block b).values = before ++ after) :
    ∃ limits, ¬RanOut (inputs store (ask store limits) (store.block b) 0 before s) := by
  induction before using reverseRecOn generalizing after with
  | nil => exact ⟨⟨0, 0⟩, not_ranOut_ok⟩
  | append_singleton before v ih =>
    rw [append_assoc, singleton_append] at hv
    obtain ⟨l1, h1⟩ := ih hv
    cases hr : inputs store (ask store l1) (store.block b) 0 before s with
    | error e t =>
      refine ⟨l1, ?_⟩
      rw [inputs_append]
      refine not_ranOut_bind h1 fun params s' hok => ?_
      rw [hr] at hok
      cases hok
    | ok params s' =>
      -- The next slot is evaluated in the scene that the slots before it left.
      obtain ⟨l2, h2⟩ : ∃ l, ∀ id, v = .block id → ¬RanOut (ask store l id s') := by
        refine exists_limits (by rintro _ _ rfl ⟨⟩; rfl) fun id hid => ?_
        exact hasked id s' ⟨l1, _, _, params, hid ▸ hv, hr⟩
      have hw := (extends_inputs store (.ask store (within_widest_left l1 l2))
        (store.block b) 0 _).run s h1
      refine ⟨widest l1 l2, ?_⟩
      rw [inputs_append]
      refine not_ranOut_bind (by rwa [hw]) fun params' t hok => ?_
      rw [hw, hr] at hok
      cases hok
      refine not_ranOut_bind (not_ranOut_inputs_singleton _ _ fun id h => ?_) fun _ _ _ => not_ranOut_ok
      exact ask_of_within (within_widest_right l1 l2) (h2 id h)

theorem begin_returns : ∃ limits, ¬RanOut (begin store (ask store limits) b s) := by
  obtain ⟨limits, h⟩ := inputs_return hasked (append_nil _).symm
  refine ⟨limits, not_ranOut_bind h fun params t _ => Never.run ?_ t⟩
  split
  · exact Never.pure _
  · exact Never.throw (by simp)
  · exact Never.throw (by simp)
  · exact Never.throw (by simp)
  · exact Never.bind (Never.ofExcept _) fun _ => Never.bind (Never.modify _) fun _ =>
      Never.bind Never.get fun _ => Never.pure _
  · exact Never.pure _

end

/-- A task makes its move when the blocks that this comes to return. -/
theorem advance_returns (ht : TaskWithin store n t)
    (hasked : ∀ id s', TaskAsks store t s id s' → Returns store (.block id, s')) :
    ∃ limits, ¬RanOut (advance store (ask store limits) t s) := by
  have hn (h : ∀ d, Never (advance store d t)) :
      ∃ limits, ¬RanOut (advance store (ask store limits) t s) :=
    ⟨⟨0, 0⟩, (h _).run s⟩
  cases t with
  | fresh id action params => exact hn fun _ => never_first store id action params
  | body params slot =>
    refine hn fun d => .bind ?_ fun _ => .pure _
    unfold bodyTasks
    cases hv : Operator.arg params slot with
    | error f => exact (.fail f : Never (Act.fail f : Act (List Task)))
    | ok v =>
      obtain hp | ⟨body, rfl, -⟩ := ht v (mem_of_getElem? (arg_mem hv))
      · cases v with
        | block id => cases hp
        | stack id => cases hp
        | _ => exact .fail _
      · exact .pure _
  | stack id => exact hn fun _ => .pure _
  | row row next =>
    cases hb : (store.row row)[next]? with
    | none =>
      refine hn fun d => ?_
      unfold advance
      simp only [hb]
      exact .pure _
    | some b =>
      obtain ⟨limits, h⟩ := begin_returns fun id s' h => hasked id s' (.row hb h)
      refine ⟨limits, ?_⟩
      unfold advance
      simp only [hb]
      exact not_ranOut_bind h fun begun t _ =>
        (Never.bind (Never.ofExcept _) fun _ => Never.pure _).run t
  | counted left params => cases left <;> exact hn fun _ => .pure _
  | listed items params =>
    cases items with
    | nil => exact hn fun _ => .pure _
    | cons item items =>
      exact hn fun _ => .bind (.ofExcept _) fun _ =>
        .bind (never_setVariable ..) fun _ => .pure _
  | conditional id params =>
    obtain ⟨limits, h⟩ : ∃ l, ∀ b, (store.block id).values[0]? = some (.block b) →
        ¬RanOut (ask store l b s) := by
      refine exists_limits (fun b b' hb hb' => ?_) fun b hb => hasked b s (.condition hb)
      cases hb.symm.trans hb'
      rfl
    refine ⟨limits, not_ranOut_bind ?_ fun _ t _ => not_ranOut_ok⟩
    unfold getValue
    have hi : itemAt? (store.block id).values 0 = (store.block id).values[0]? :=
      itemAt?_natCast _ 0
    cases hv : (store.block id).values[0]? with
    | none =>
      rw [hi, hv]
      exact (Never.fail _).run s
    | some v =>
      rw [hi, hv]
      exact not_ranOut_slotValue _ _ fun b hb => h b (by rw [hv, hb])
  | guarded params => exact hn fun _ => .pure _
  | sleeping => exact hn fun _ => never_sleepOn
  | retelling negated params => exact hn fun _ => .bind (.ofExcept _) fun _ => .pure _
  | letters cs => cases cs <;> exact hn fun _ => .pure _

/-! ## Tasks in front of what waits -/

/-- An exit leaves a loop, begins its next round, takes the other branch of an attempt, or is passed
on to the tasks behind. -/
theorem unwind_cons_cases (h : unwind e (t :: rest) = some ts) :
    ts = rest ∨ ts = t :: rest ∨ (∃ params, t = .guarded params ∧ ts = .body params 1 :: rest) ∨
      unwind e rest = some ts := by
  unfold unwind at h
  split at h
  iterate 3
    · cases h
      exact .inl rfl
  iterate 3
    · cases h
      exact .inr (.inl rfl)
  · split at h
    · cases h
      exact .inr (.inr (.inl ⟨_, rfl, rfl⟩))
    · exact .inr (.inr (.inr h))
  · exact .inr (.inr (.inr h))

/-- The body in a slot is a stack. -/
theorem bodyTasks_eq_ok (hparams : ∀ v ∈ params, ArgWithin store k v) {slot : Nat}
    (h : bodyTasks store d params slot s = .ok ts s') :
    ∃ t, ts = [.stack t] ∧ .stack t ∈ params ∧ store.StackWithin k t := by
  unfold bodyTasks at h
  cases hv : Operator.arg params slot with
  | error f =>
    rw [hv] at h
    cases h
  | ok v =>
    rw [hv] at h
    have hm : v ∈ params := mem_of_getElem? (arg_mem hv)
    obtain hp | ⟨t, rfl, ht⟩ := hparams v hm
    · cases v with
      | block id => cases hp
      | stack id => cases hp
      | _ => cases h
    · cases h
      exact ⟨t, rfl, hm, ht⟩

/-- Waiting tasks of finite nesting that come to an end, whether they are reached or an exit is caught
among them; what an end is, is left open. -/
structure Closes (store : Store) (P : Work × Scene → Prop) (rest : List Task) : Prop where
  /-- The tasks are of finite nesting. -/
  formed : ∀ t ∈ rest, Formed store t
  /-- The tasks end. -/
  ends : ∀ s : Scene, s.Plain → P (.tasks rest, s)
  /-- What an exit goes on with ends. -/
  caught : ∀ e ts, unwind e rest = some ts → ∀ s : Scene, s.Plain → P (.tasks ts, s)

/-- A stack closes in front of whatever closes. -/
def StackCloses (store : Store) (P : Work × Scene → Prop) (t : StackId) : Prop :=
  ∀ rest, Closes store P rest → Closes store P (.stack t :: rest)

/-- Parts of the program that are nested to a depth below `k` end in a slot. -/
def PartsEnd (store : Store) (part : BlockId → Prop) (P : Work × Scene → Prop) (k : Nat) : Prop :=
  ∀ b, store.BlockWithin k b → part b → ∀ s : Scene, s.Plain → P (.block b, s)

/-- Stacks of such parts close. -/
def PartsClose (store : Store) (part : BlockId → Prop) (P : Work × Scene → Prop) (k : Nat) : Prop :=
  ∀ t, store.StackWithin k t → (∀ b ∈ store.blocksOf t, part b) → StackCloses store P t

/-- Work ends when all that its next move can lead to ends.  Loops with a condition and sleep are the
exceptions, where going on from the next move would not come to an end. -/
structure Descends (store : Store) (part : BlockId → Prop) (P : Work × Scene → Prop) : Prop where
  /-- There is nothing left to do. -/
  done (s : Scene) : P (.tasks [], s)
  /-- A task makes its move. -/
  move {k : Nat} {t : Task} {rest : List Task} {s : Scene} (ht : TaskWithin store k t) (hs : s.Plain)
    (hround : ∀ ts, roundOf t ts = 0)
    (hasked : ∀ id s', TaskAsks store t s id s' → P (.block id, s'))
    (hnext : ∀ limits m s', advance store (ask store limits) t s = .ok m s' →
      P (.tasks (m.left ++ rest), s'))
    (hcaught : ∀ limits e ts s', advance store (ask store limits) t s = .error e s' →
      unwind e.fromInside rest = some ts → P (.tasks ts, s')) : P (.tasks (t :: rest), s)
  /-- A block in a slot has its own slots evaluated and begins. -/
  block {k : Nat} {id : BlockId} {s : Scene} (hid : store.BlockWithin (k + 1) id) (hs : s.Plain)
    (hslots : ∀ b s', SlotAsks store id s b s' → P (.block b, s'))
    (hbegun : ∀ limits ts s', begin store (ask store limits) id s = .ok (.tasks ts) s' →
      P (.tasks ts, s')) : P (.block id, s)
  /-- A part of the program loops on a condition. -/
  loops {k : Nat} {id : BlockId} {params : List Value} {rest : List Task} (hid : part id)
    (ha : (store.definitionOf id).action = .whileTrue) (ht : TaskWithin store k (.conditional id params))
    (hblocks : PartsEnd store part P k) (hrest : Closes store P rest) :
    Closes store P (.conditional id params :: rest)
  /-- A part of the program sleeps. -/
  sleeps {id : BlockId} {rest : List Task} (hid : part id) (ha : (store.definitionOf id).action = .sleep)
    (hrest : Closes store P rest) : Closes store P (.sleeping :: rest)
  /-- A block in a slot of a part is a part. -/
  slot {b c : BlockId} : part b → .block c ∈ (store.block b).values → part c
  /-- A block of a body of a part is a part. -/
  body {b c : BlockId} {t : StackId} : part b → .stack t ∈ (store.block b).values →
    c ∈ store.blocksOf t → part c

section

variable (hblank : store.blocksOf blankStack = [])
include hblank

theorem Ensures.advance_ask (ht : TaskWithin store k t) (limits : Limits) :
    Ensures (MoveFormed store) (advance store (ask store limits) t) :=
  ensures_advance hblank (fun k id => .demand hblank _ _ k id) ht

/-- The blocks that evaluating slots comes to are nested less deep. -/
theorem within_of_slotAsks (hb : store.BlockWithin (k + 1) b) (hs : s.Plain)
    (h : SlotAsks store b s id s') : store.BlockWithin k id ∧ s'.Plain := by
  obtain ⟨limits, before, after, params, hva, hbe⟩ := h
  constructor
  · exact hb.2 before.length (.block id) (by simp [hva])
  · have ha := fun k id => Ensures.demand hblank limits.moves limits.depth k id
    refine ((ensures_inputs hblank ha hb 0 before fun j v hv => ?_).ok hs hbe).2
    rw [hva, Nat.zero_add, getElem?_append_left (by grind), hv]

/-- A block in a slot returns when those in its own slots and the tasks that it begins do. -/
theorem block_returns_of_parts (hid : store.BlockWithin (k + 1) id) (hs : s.Plain)
    (hsl : ∀ b s', SlotAsks store id s b s' → Returns store (.block b, s'))
    (hbe : ∀ limits ts s', begin store (ask store limits) id s = .ok (.tasks ts) s' →
      Returns store (.tasks ts, s')) : Returns store (.block id, s) := by
  obtain ⟨l1, hb⟩ := begin_returns hsl
  -- The tasks that the block hands over return, within bounds that may be wider.
  obtain ⟨l2, hta⟩ : ∃ l, ∀ c : List Task × Scene,
      begin store (ask store l1) id s = .ok (.tasks c.1) c.2 → ¬RanOut (step store l c.1 c.2) := by
    refine exists_limits ?_ fun c => hbe l1 c.1 c.2
    rintro ⟨_, _⟩ ⟨_, _⟩ h h'
    cases h.symm.trans h'
    rfl
  let wide := widest l1 l2
  have hwi := (Extends.begin store (.ask store (within_widest_left l1 l2)) id).run s hb
  have has := fun k id => Ensures.demand hblank wide.moves wide.depth k id
  refine ⟨⟨wide.depth + 1, wide.moves⟩, ?_⟩
  refine not_ranOut_bind (x := begin store (ask store wide) id) (by rwa [hwi]) fun begun s' h => ?_
  obtain ⟨hw, hs'⟩ := (ensures_begin hblank has hid).ok hs h
  rw [hwi] at h
  cases begun with
  | nothing => exact (Never.fail _).run s'
  | line text => exact (Never.fail _).run s'
  | tasks ts =>
    have hf : ∀ t ∈ ts, Formed store t := by
      obtain ⟨action, params, rfl, ht, -⟩ := hw
      intro t ht'
      rw [mem_singleton.1 ht']
      exact ⟨k, ht⟩
    have hst := hta (ts, s') h
    have hr := (Extends.resume store (.ask store (within_widest_right l1 l2))
      (within_widest_right l1 l2).2 ts).run s' hst
    refine not_ranOut_bind (x := resume store (ask store wide) wide.moves ts)
      (by rw [hr]; exact hst) fun answer s'' h => ?_
    have ha := ((ensures_resume hblank has wide.moves hf).ok hs' h).1
    obtain _ | ⟨v, ts'⟩ := answer
    · exact (Never.fail _).run s''
    · cases v with
      | block b => cases ha.1
      | _ => exact not_ranOut_ok

end

section

variable {part : BlockId → Prop} {P : Work × Scene → Prop} {row : RowId} {next : Nat}

/-- A task that ends in front of waiting tasks that close: an exit goes on with what waits, or with the
task itself, or with the other branch of an attempt. -/
theorem Closes.of_ends (hrest : Closes store P rest) (ht : TaskWithin store k t)
    (he : ∀ s : Scene, s.Plain → P (.tasks (t :: rest), s))
    (hg : ∀ params, t = .guarded params → Closes store P (.body params 1 :: rest)) :
    Closes store P (t :: rest) := by
  refine ⟨forall_mem_cons.2 ⟨⟨k, ht⟩, hrest.formed⟩, he, fun e ts h => ?_⟩
  obtain rfl | rfl | ⟨params, hparams, rfl⟩ | h := unwind_cons_cases h
  · exact hrest.ends
  · exact he
  · exact (hg params hparams).ends
  · exact hrest.caught e ts h

variable (hP : Descends store part P) (hblank : store.blocksOf blankStack = [])
include hP

theorem Closes.nil : Closes store P [] where
  formed := by simp
  ends s _ := hP.done s
  caught _ _ h := by cases h

include hblank

/-- A task in front of waiting tasks that close: what it asks for has to end, and what it leaves has to
close in front of them. -/
theorem closes_cons (hrest : Closes store P rest) (ht : TaskWithin store k t)
    (hr : ∀ ts, roundOf t ts = 0)
    (hasked : ∀ id s s', s.Plain → TaskAsks store t s id s' → P (.block id, s'))
    (hn : ∀ limits s m s', s.Plain → advance store (ask store limits) t s = .ok m s' →
      Closes store P (m.left ++ rest))
    (hg : ∀ params, t = .guarded params → Closes store P (.body params 1 :: rest)) :
    Closes store P (t :: rest) := by
  refine .of_ends hrest ht (fun s hs => hP.move ht hs hr ?_ ?_ ?_) hg
  · exact fun id s' h => hasked id s s' hs h
  · intro limits m s' h
    exact (hn limits s m s' hs h).ends s' ((Ensures.advance_ask hblank ht limits).ok hs h).2
  · intro limits e ts s' h hts
    exact hrest.caught _ _ hts s' ((Ensures.advance_ask hblank ht limits).error hs h)

/-- A task that asks for no block. -/
theorem Closes.cons_of_next (hrest : Closes store P rest) (ht : TaskWithin store k t)
    (hn : ∀ limits s m s', s.Plain → advance store (ask store limits) t s = .ok m s' →
      Closes store P (m.left ++ rest)) (hr : ∀ ts, roundOf t ts = 0 := by exact fun _ => rfl)
    (ha : ∀ id s s', ¬TaskAsks store t s id s' := by exact fun _ _ _ h => nomatch h)
    (hg : ∀ params, t ≠ .guarded params := by nofun) : Closes store P (t :: rest) :=
  closes_cons hP hblank hrest ht hr (fun id s s' _ h => absurd h (ha id s s')) hn
    fun params h => absurd h (hg params)

section

variable {k : Nat} {rest : List Task} {params : List Value}
  (hparams : ∀ v ∈ params, ArgWithin store k v) (hrest : Closes store P rest)
  (hbodies : ∀ t, .stack t ∈ params → StackCloses store P t)
include hparams hrest hbodies

protected theorem Closes.body (slot : Nat) : Closes store P (.body params slot :: rest) := by
  refine .cons_of_next hP hblank hrest (k := k) hparams ?_
  intro limits s m s' _ h
  obtain ⟨ts, s1, hb, hp⟩ := bind_eq_ok.1 h
  cases hp
  obtain ⟨t, rfl, hm, -⟩ := bodyTasks_eq_ok hparams hb
  exact hbodies t hm rest hrest

theorem closes_counted (left : Nat) : Closes store P (.counted left params :: rest) := by
  induction left with
  | zero =>
    refine .cons_of_next hP hblank hrest (k := k) hparams ?_
    rintro limits s m s' _ ⟨⟩
    exact hrest
  | succ left ih =>
    refine .cons_of_next hP hblank hrest (k := k) hparams ?_
    rintro limits s m s' _ ⟨⟩
    exact .body hP hblank hparams ih hbodies 1

theorem closes_listed {items : List Value} (hi : ∀ v ∈ items, v.plain = true) :
    Closes store P (.listed items params :: rest) := by
  induction items with
  | nil =>
    refine .cons_of_next hP hblank hrest (k := k) ⟨hi, hparams⟩ ?_
    rintro limits s m s' _ ⟨⟩
    exact hrest
  | cons item items ih =>
    refine .cons_of_next hP hblank hrest (k := k) ⟨hi, hparams⟩ ?_
    intro limits s m s' _ h
    obtain ⟨name, s1, -, h⟩ := bind_eq_ok.1 h
    obtain ⟨-, s2, -, h⟩ := bind_eq_ok.1 h
    cases h
    exact .body hP hblank hparams (ih (forall_mem_cons.1 hi).2) hbodies 2

theorem closes_guarded : Closes store P (.guarded params :: rest) := by
  refine closes_cons hP hblank hrest (k := k) hparams (fun _ => rfl) (fun _ _ _ _ h => nomatch h) ?_ ?_
  · rintro limits s m s' _ ⟨⟩
    exact hrest
  · rintro _ ⟨⟩
    exact .body hP hblank hparams hrest hbodies 1

omit hbodies in
theorem closes_retelling (negated : Bool) : Closes store P (.retelling negated params :: rest) := by
  refine .cons_of_next hP hblank hrest (k := k) hparams ?_
  intro limits s m s' _ h
  obtain ⟨equal, s1, -, h⟩ := bind_eq_ok.1 h
  cases h
  exact hrest

end

theorem closes_letters (hrest : Closes store P rest) (cs : List Char) :
    Closes store P (.letters cs :: rest) := by
  induction cs with
  | nil =>
    refine .cons_of_next hP hblank hrest (k := 0) trivial ?_
    rintro limits s m s' _ ⟨⟩
    exact hrest
  | cons c cs ih =>
    refine .cons_of_next hP hblank hrest (k := 0) trivial ?_
    rintro limits s m s' _ ⟨⟩
    exact ih

theorem closes_fresh {action : Action} (hp : part id)
    (ht : TaskWithin store k (.fresh id action params)) (hrest : Closes store P rest)
    (hb : PartsEnd store part P k) (hbodies : ∀ t, .stack t ∈ params → StackCloses store P t) :
    Closes store P (.fresh id action params :: rest) := by
  have hparams := ht.2.2.1
  refine .cons_of_next hP hblank hrest ht ?_
  intro limits s m s' hs h
  have hf : FirstMove id action params m := ((ensures_first ht).ok hs h).1
  cases m with
  | give v ts =>
    cases hf.2 with
    | nothing => exact hrest
    | comparison negated => exact closes_retelling hP hblank hparams hrest negated
    | sleep ha => exact hP.sleeps hp (ht.1.symm.trans ha) hrest
  | go ts =>
    cases hf with
    | done => exact hrest
    | counted left => exact closes_counted hP hblank hparams hrest hbodies left
    | listed hi => exact closes_listed hP hblank hparams hrest hbodies hi
    | conditional ha => exact hP.loops hp (ht.1.symm.trans ha) ⟨ht.2.1, hparams⟩ hb hrest
    | body slot => exact .body hP hblank hparams hrest hbodies slot
    | attempt =>
      exact .body hP hblank hparams (closes_guarded hP hblank hparams hrest hbodies) hbodies 0

/-! ### Blocks, rows and stacks -/

/-- The bodies of a block close when stacks that are nested less deep do. -/
theorem bodies_close (hpa : part b) (hs : PartsClose store part P k)
    (hparams : ∀ v ∈ params, ArgWithin store k v)
    (hst : ∀ v ∈ params, ∀ t, v = .stack t → StandsIn store b t) (t : StackId)
    (ht : .stack t ∈ params) : StackCloses store P t := by
  have hw : store.StackWithin k t := by
    obtain hp | ⟨_, ⟨⟩, hw⟩ := hparams _ ht
    · cases hp
    · exact hw
  refine hs t hw fun c hc => ?_
  obtain hsl | rfl := hst _ ht t rfl
  · exact hP.body hpa hsl hc
  · rw [hblank] at hc
    cases hc

theorem closes_begun (hb : store.BlockWithin (k + 1) b) (hp : part b)
    (hbl : PartsEnd store part P k) (hst : PartsClose store part P k)
    (hrest : Closes store P rest) (hs : s.Plain)
    (h : begin store (ask store limits) b s = .ok (.tasks ts) s') :
    s'.Plain ∧ Closes store P (ts ++ rest) := by
  obtain ⟨⟨action, params, rfl, ht, hsa⟩, hs'⟩ := (ensures_begin hblank
    (fun k id => .demand hblank limits.moves limits.depth k id) hb).ok hs h
  refine ⟨hs', closes_fresh hP hblank hp ht hrest hbl ?_⟩
  exact bodies_close hP hblank hp hst ht.2.2.1 hsa

omit hblank in
theorem part_of_slotAsks {c : BlockId} (hp : part b) (h : SlotAsks store b s c s') : part c := by
  obtain ⟨limits, before, after, params, hv, -⟩ := h
  exact hP.slot hp (by simp [hv])

/-- A block in a slot ends when those in its own slots do and bodies close. -/
theorem part_ends (hbl : PartsEnd store part P k) (hst : PartsClose store part P k)
    (hb : store.BlockWithin (k + 1) b) (hp : part b) (hs : s.Plain) : P (.block b, s) := by
  refine hP.block hb hs (fun c s' h => ?_) fun limits ts s' h => ?_
  · obtain ⟨hc, hs'⟩ := within_of_slotAsks hblank hb hs h
    exact hbl c hc (part_of_slotAsks hP hp h) s' hs'
  · obtain ⟨hs', hcl⟩ := closes_begun hP hblank hb hp hbl hst (Closes.nil hP) hs h
    rw [append_nil] at hcl
    exact hcl.ends s' hs'

/-- A row at its end. -/
theorem Closes.row_end (hrest : Closes store P rest) (hr : TaskWithin store k (.row row next))
    (hn : (store.row row)[next]? = none) : Closes store P (.row row next :: rest) := by
  refine .cons_of_next hP hblank hrest hr ?_ (fun _ => rfl) ?_
  · intro limits s m s' _ h
    unfold advance at h
    simp only [hn] at h
    cases h
    exact hrest
  · rintro id s s' ⟨⟩
    simp_all

/-- A row of blocks, from the last one to the first. -/
theorem closes_row (hrest : Closes store P rest) (hbl : PartsEnd store part P k)
    (hst : PartsClose store part P k) (hpa : ∀ b ∈ store.row row, part b)
    (hr : TaskWithin store (k + 1) (.row row next)) : Closes store P (.row row next :: rest) := by
  obtain ⟨left, hl⟩ : ∃ left, left = (store.row row).length - next := ⟨_, rfl⟩
  induction left generalizing next with
  | zero => exact .row_end hP hblank hrest hr (getElem?_eq_none (by omega))
  | succ left ih =>
    have hlt : next < (store.row row).length := by omega
    have hso := getElem?_eq_getElem hlt
    generalize (store.row row)[next] = b at hso
    have hd : (store.row row).drop next = b :: (store.row row).drop (next + 1) :=
      drop_eq_getElem?_toList_append.trans (by rw [hso]; rfl)
    have hal := hr
    simp only [TaskWithin, hd, forall_mem_cons] at hal
    obtain ⟨hb, ha⟩ := hal
    have hp : part b := hpa b (mem_of_getElem? hso)
    have hn : Closes store P (.row row (next + 1) :: rest) := ih ha (by omega)
    refine closes_cons hP hblank hrest hr (fun _ => rfl) ?_ ?_ (fun _ h => by cases h)
    · rintro c s s' hs has
      cases has with
      | row hb' hsl =>
        rw [hso] at hb'
        cases hb'
        obtain ⟨hc, hs'⟩ := within_of_slotAsks hblank hb hs hsl
        exact hbl c hc (part_of_slotAsks hP hp hsl) s' hs'
    · intro limits s m s' hs h
      unfold advance at h
      simp only [hso] at h
      obtain ⟨begun, s1, hbe, h⟩ := bind_eq_ok.1 h
      obtain ⟨entered, s2, he, h⟩ := bind_eq_ok.1 h
      cases h
      rw [Move.left, append_assoc]
      cases begun with
      | tasks ts =>
        cases he
        exact (closes_begun hP hblank hb hp hbl hst hn hs hbe).2
      | line text =>
        cases he
        exact closes_letters hP hblank hn _
      | nothing => cases he

/-- By induction on the depth of nesting: blocks end in slots, and stacks close. -/
theorem parts_end_and_close (k : Nat) : PartsEnd store part P k ∧ PartsClose store part P k := by
  induction k with
  | zero =>
    refine ⟨fun b hb => hb.elim, fun t ht _ rest hrest => ?_⟩
    refine .cons_of_next hP hblank hrest ht ?_
    rintro limits s m s' _ ⟨⟩
    have he : store.blocksOf t = [] := eq_nil_iff_forall_not_mem.2 fun b hb => ht b hb
    refine .row_end hP hblank hrest (k := 0) (fun b hb => ht b (mem_of_mem_drop hb)) ?_
    show (store.blocksOf t)[0]? = none
    rw [he]
    rfl
  | succ k ih =>
    obtain ⟨hbl, hst⟩ := ih
    refine ⟨fun b hb hpa s hs => part_ends hP hblank hbl hst hb hpa hs, ?_⟩
    intro t ht hp rest hrest
    refine .cons_of_next hP hblank hrest ht ?_
    rintro limits s m s' _ ⟨⟩
    exact closes_row hP hblank hrest hbl hst hp ht

end

/-! ## Boundedly many rounds make a step return -/

/-- Work that returns when at most `n` rounds are passed through. -/
def Settles (store : Store) (n : Nat) (c : Work × Scene) : Prop :=
  RoundsWithin store n c → Returns store c

section

variable (hblank : store.blocksOf blankStack = []) {n : Nat}
  (hfewer : ∀ m < n, ∀ ts (s : Scene), (∀ t ∈ ts, Formed store t) → s.Plain →
    RoundsWithin store m (.tasks ts, s) → Returns store (.tasks ts, s))
include hblank

include hfewer in
/-- A loop with a condition: its next round is one of those that are counted. -/
theorem settles_conditional (ht : TaskWithin store k (.conditional id params))
    (hbl : PartsEnd store (fun _ => True) (Settles store n) k)
    (hrest : Closes store (Settles store n) rest) :
    Closes store (Settles store n) (.conditional id params :: rest) := by
  refine .of_ends hrest ht (fun s hs hn => ?_) (fun _ h => nomatch h)
  refine returns_cons (advance_returns ht fun b s' ha => ?_) (fun limits ts s' h => ?_)
    fun limits e ts s' h hts => hrest.caught _ _ hts s'
      ((Ensures.advance_ask hblank ht limits).error hs h) (hn.silent (.caught h hts))
  · cases ha with
    | condition hb =>
      exact hbl b (ht.1.2 0 _ hb) trivial s hs (hn.silent (.asks (.condition hb)))
  · obtain ⟨hf, hs'⟩ := (Ensures.advance_ask hblank ht limits).ok hs h
    have hl : Leads store (roundOf (.conditional id params) ts)
        (.tasks (.conditional id params :: rest), s) (.tasks (ts ++ rest), s') := .go h
    cases ts with
    | nil => exact hrest.ends s' hs' (hn.silent hl)
    | cons t ts =>
      obtain ⟨hle, hn'⟩ := hn.move hl
      refine hfewer (n - 1) (by simp only [roundOf] at hle; omega) _ s' ?_ hs' hn'
      intro t' ht'
      exact (mem_append.1 ht').elim (hf t') (hrest.formed t')

theorem settles_sleeping (hrest : Closes store (Settles store n) rest) :
    Closes store (Settles store n) (.sleeping :: rest) := by
  have ht : TaskWithin store 0 .sleeping := trivial
  refine .of_ends hrest ht (fun s hs hn => ?_) (fun _ h => nomatch h)
  refine returns_cons ⟨⟨0, 0⟩, never_sleepOn.run s⟩ (fun limits ts s' h => ?_)
    fun limits e ts s' h hts => hrest.caught _ _ hts s'
      ((Ensures.advance_ask hblank ht limits).error hs h) (hn.silent (.caught h hts))
  obtain ⟨he, hs'⟩ : PlainMove .sleep [] (.go ts) ∧ s'.Plain := (ensures_sleepOn []).ok hs h
  obtain rfl : ts = [] := he
  exact hrest.ends s' hs' (hn.silent (.go h))

include hfewer

theorem descends_settles : Descends store (fun _ => True) (Settles store n) where
  done _ _ := ⟨⟨0, 1⟩, not_ranOut_ok⟩
  move {k t rest s} ht hs hr hasked hne hc := fun hn => by
    refine returns_cons (advance_returns ht fun id s' h => hasked id s' h (hn.silent (.asks h)))
      (fun limits ts s' h => hne limits (.go ts) s' h (hn.silent ?_))
      fun limits e ts s' h hts => hc limits e ts s' h hts (hn.silent (.caught h hts))
    rw [← hr ts]
    exact .go h
  block hid hs hsl hbe := fun hn =>
    block_returns_of_parts hblank hid hs (fun b s' h => hsl b s' h (hn.silent (.slot h)))
      fun limits ts s' h => hbe limits ts s' h (hn.silent (.begun h))
  loops _ _ ht hb hrest := settles_conditional hblank hfewer ht hb hrest
  sleeps _ _ hrest := settles_sleeping hblank hrest
  slot _ _ := trivial
  body _ _ _ := trivial

/-- Every task of finite nesting closes in front of what closes. -/
theorem settles_task (ht : TaskWithin store k t) (hrest : Closes store (Settles store n) rest) :
    Closes store (Settles store n) (t :: rest) := by
  have hP := descends_settles hblank hfewer
  obtain ⟨hbl, hs⟩ := parts_end_and_close hP hblank k
  have hbodies {params : List Value} (hparams : ∀ v ∈ params, ArgWithin store k v) (t : StackId)
      (ht : .stack t ∈ params) : StackCloses store (Settles store n) t := by
    obtain hp | ⟨_, ⟨⟩, hw⟩ := hparams _ ht
    · cases hp
    · exact hs t hw fun _ _ => trivial
  cases t with
  | fresh id action params =>
    exact closes_fresh hP hblank trivial ht hrest hbl (hbodies ht.2.2.1)
  | body params slot => exact .body hP hblank ht hrest (hbodies ht) slot
  | stack t => exact hs t ht (fun _ _ => trivial) rest hrest
  | row row next =>
    cases k with
    | zero =>
      have he : (store.row row).drop next = [] :=
        eq_nil_iff_forall_not_mem.2 fun b hb => ht b hb
      exact .row_end hP hblank hrest ht (getElem?_eq_none (drop_eq_nil_iff.1 he))
    | succ k =>
      obtain ⟨hbl, hs⟩ := parts_end_and_close hP hblank k
      exact closes_row hP hblank hrest hbl hs (fun _ _ => trivial) ht
  | counted left params => exact closes_counted hP hblank ht hrest (hbodies ht) left
  | listed items params => exact closes_listed hP hblank ht.2 hrest (hbodies ht.2) ht.1
  | conditional id params => exact settles_conditional hblank hfewer ht hbl hrest
  | guarded params => exact closes_guarded hP hblank ht hrest (hbodies ht)
  | sleeping => exact settles_sleeping hblank hrest
  | retelling negated params => exact closes_retelling hP hblank ht hrest negated
  | letters cs => exact closes_letters hP hblank hrest cs

omit hfewer in
theorem returns_of_roundsWithin (hts : ∀ t ∈ ts, Formed store t) (hs : s.Plain)
    (hn : RoundsWithin store n (.tasks ts, s)) : Returns store (.tasks ts, s) := by
  induction n using Nat.strongRecOn generalizing ts s with
  | ind n hfewer =>
    have hfewer : ∀ m < n, ∀ ts (s : Scene), (∀ t ∈ ts, Formed store t) → s.Plain →
        RoundsWithin store m (.tasks ts, s) → Returns store (.tasks ts, s) :=
      fun m hm ts s => hfewer m hm
    have hc : Closes store (Settles store n) ts := by
      clear hn
      induction ts with
      | nil => exact .nil (descends_settles hblank hfewer)
      | cons t ts ih =>
        obtain ⟨⟨k, ht⟩, hts⟩ := forall_mem_cons.1 hts
        exact settles_task hblank hfewer ht (ih hts)
    exact hc.ends s hs hn

end

/-! ## The steps of a program -/

/-- The tasks and the scene that some steps of a program leave. -/
inductive After (store : Store) : Nat → List Task × Scene → List Task × Scene → Prop
  | start (c : List Task × Scene) : After store 0 c c
  | step {k : Nat} {limits : Limits} {c : List Task × Scene} {ts ts' : List Task} {s s' : Scene}
    {v : Value} (before : After store k c (ts, s))
    (h : step store limits ts s = .ok (some (v, ts')) s') : After store (k + 1) c (ts', s')

/-- What the steps of a program leave is of finite nesting, and its variables hold plain values. -/
theorem formed_after (hblank : store.blocksOf blankStack = []) {c c' : List Task × Scene}
    (h : After store k c c') (hts : ∀ t ∈ c.1, Formed store t) (hs : c.2.Plain) :
    (∀ t ∈ c'.1, Formed store t) ∧ c'.2.Plain := by
  induction h with
  | start c => exact ⟨hts, hs⟩
  | step before h ih =>
    obtain ⟨hts, hs⟩ := ih hts hs
    obtain ⟨⟨-, ht'⟩, hs'⟩ := (ensures_resume hblank
      (fun k id => .demand hblank _ _ k id) _ hts).ok hs h
    exact ⟨ht', hs'⟩

/-- A step of a program of the catalogue, after any number of steps, returns exactly when there is a
bound on the rounds of loops with a condition that it passes through. -/
theorem step_returns_iff (hblank : store.blocksOf blankStack = []) {root : StackId} {depth : Nat}
    (hprogram : store.StackWithin depth root) {start : Scene} (hstart : start.Plain) {k : Nat}
    {tasks : List Task} {s : Scene} (hafter : After store k (program root, start) (tasks, s)) :
    Returns store (.tasks tasks, s) ↔ ∃ n, RoundsWithin store n (.tasks tasks, s) := by
  have hroot : ∀ t ∈ program root, Formed store t := by
    intro t ht
    rw [mem_singleton.1 ht]
    exact ⟨depth, hprogram⟩
  obtain ⟨htasks, hs⟩ := formed_after hblank hafter hroot hstart
  refine ⟨roundsWithin_of_returns, ?_⟩
  rintro ⟨n, hn⟩
  exact returns_of_roundsWithin hblank htasks hs hn

/-! ### Programs of one block -/

/-- The store with one stack that holds one block of the catalogue with unfilled slots. -/
def loneBlock (d : Definition) : Store :=
  let (id, store) := Store.empty.addBlock d (List.replicate d.countInputs .none)
  (store.addStack [id] none).2

theorem loneBlock_within {d : Definition} (hd : d ∈ blocks) : (loneBlock d).StackWithin 1 ⟨1⟩ := by
  intro b hb
  rw [mem_singleton.1 (show b ∈ [⟨0⟩] from hb)]
  refine ⟨.inl hd, fun i v hv => ?_⟩
  have hv : v ∈ replicate d.countInputs Value.none := mem_of_getElem? hv
  rw [(mem_replicate.1 hv).2]
  rfl

/-- The loop with a condition. -/
def loop : Definition := (find? blocks "while").getD default

/-- The counted loop. -/
def countedLoop : Definition := (find? blocks "repeat").getD default

theorem loop_mem : loop ∈ blocks :=
  mem_of_find?_eq_some (show find? blocks "while" = some loop from rfl)

theorem countedLoop_mem : countedLoop ∈ blocks :=
  mem_of_find?_eq_some (show find? blocks "repeat" = some countedLoop from rfl)

/-- What the bare loop waits as: its condition is true, and its body is the blank stack. -/
def bareLoop : List Task := [.conditional ⟨0⟩ [.bool true, .stack blankStack], .row ⟨1⟩ 1]

theorem leads_go (t : Task) (ts rest : List Task)
    (h : advance store (ask store ⟨0, 0⟩) t s = .ok (.go ts) s') :
    Leads store (roundOf t ts) (.tasks (t :: rest), s) (.tasks (ts ++ rest), s') :=
  .go h

theorem bareLoop_passes (m : Nat) (s : Scene) :
    Passes (loneBlock loop) m (.tasks bareLoop, s) (.tasks bareLoop, s) := by
  induction m with
  | zero => exact .here _
  | succ m ih =>
    -- A round is four moves: the condition, the body, its stack, and the end of its empty row.
    let params : List Value := [.bool true, .stack blankStack]
    have hc : Leads (loneBlock loop) 1 (.tasks bareLoop, s)
        (.tasks (.body params 1 :: bareLoop), s) :=
      leads_go (.conditional ⟨0⟩ params) [.body params 1, .conditional ⟨0⟩ params] [.row ⟨1⟩ 1] rfl
    have hb : Leads (loneBlock loop) 0 (.tasks (.body params 1 :: bareLoop), s)
        (.tasks (.stack blankStack :: bareLoop), s) := leads_go (.body params 1) [.stack blankStack] _ rfl
    have hs : Leads (loneBlock loop) 0 (.tasks (.stack blankStack :: bareLoop), s)
        (.tasks (.row ⟨0⟩ 0 :: bareLoop), s) := leads_go (.stack blankStack) [.row ⟨0⟩ 0] _ rfl
    have hro : Leads (loneBlock loop) 0 (.tasks (.row ⟨0⟩ 0 :: bareLoop), s)
        (.tasks bareLoop, s) := leads_go (.row ⟨0⟩ 0) [] _ rfl
    have hr := Passes.move hc (.move hb (.move hs (.move hro ih)))
    rwa [show 1 + (0 + (0 + (0 + m))) = m + 1 by omega] at hr

theorem bareLoop_never_returns (s : Scene) : ¬Returns (loneBlock loop) (.tasks (program ⟨1⟩), s) := by
  intro h
  obtain ⟨n, hn⟩ := roundsWithin_of_returns h
  have hs : Leads (loneBlock loop) 0 (.tasks (program ⟨1⟩), s) (.tasks [.row ⟨1⟩ 0], s) :=
    leads_go (.stack ⟨1⟩) [.row ⟨1⟩ 0] [] rfl
  let fresh : Task := .fresh ⟨0⟩ .whileTrue [.bool true, .stack blankStack]
  have hr : Leads (loneBlock loop) 0 (.tasks [.row ⟨1⟩ 0], s) (.tasks [fresh, .row ⟨1⟩ 1], s) :=
    leads_go (.row ⟨1⟩ 0) [fresh, .row ⟨1⟩ 1] [] rfl
  have hf : Leads (loneBlock loop) 0 (.tasks [fresh, .row ⟨1⟩ 1], s) (.tasks bareLoop, s) :=
    leads_go fresh [.conditional ⟨0⟩ [.bool true, .stack blankStack]] [.row ⟨1⟩ 1] rfl
  have hp := Passes.move hs (.move hr (.move hf (bareLoop_passes (n + 1) s)))
  have := hn _ _ hp
  omega

theorem step_returns_iff_of_counted_loop : (loneBlock countedLoop).blocksOf blankStack = [] ∧
      (loneBlock countedLoop).StackWithin 1 ⟨1⟩ ∧ ({} : Scene).Plain ∧
      ∃ n, RoundsWithin (loneBlock countedLoop) n (.tasks (program ⟨1⟩), {}) := by
  have hplain : ({} : Scene).Plain := by simp [Scene.Plain]
  have hreturns : Returns (loneBlock countedLoop) (.tasks (program ⟨1⟩), {}) := by
    have h : endsIn (step (loneBlock countedLoop) ⟨1, 100⟩ (program ⟨1⟩)) {} (fun _ => true) = true := by
      decide +kernel
    obtain ⟨answer, s', hstep, -⟩ := exists_of_endsIn h
    refine ⟨⟨1, 100⟩, ?_⟩
    rw [hstep]
    exact not_ranOut_ok
  refine ⟨rfl, loneBlock_within countedLoop_mem, hplain, ?_⟩
  exact (step_returns_iff rfl (loneBlock_within countedLoop_mem) hplain (.start _)).1 hreturns

/-- The loop with unfilled slots is a program of the catalogue, and its first step never returns. -/
theorem first_step_of_bare_loop_never_returns :
    (loneBlock loop).blocksOf blankStack = [] ∧ (loneBlock loop).StackWithin 1 ⟨1⟩ ∧
      ({} : Scene).Plain ∧
      ∀ limits, RanOut (step (loneBlock loop) limits (program ⟨1⟩) {}) := by
  refine ⟨rfl, loneBlock_within loop_mem, by simp [Scene.Plain], fun limits => ?_⟩
  exact Classical.byContradiction fun h => bareLoop_never_returns {} ⟨limits, h⟩

end Run

end BlockStudio
