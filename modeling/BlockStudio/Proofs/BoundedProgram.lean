import BlockStudio.Proofs.Forest
import BlockStudio.Proofs.StepTermination
import BlockStudio.Proofs.Unassigned

/-!
# Programs without conditional loops come to an end

A program in which no block loops on a condition and none sleeps ends after finitely many steps.
Counted loops and loops over items have their rounds fixed when they begin, whatever the body does to
the variables they came from.  An attempt goes over to its other branch once, and leaving a loop or
beginning its next round leads back to tasks that were waiting already.

The induction on the nesting of the program is that of `Descends`.  Here it is about moves: `Ends` says
that all that a list of tasks can lead to, move by move, is finite.  `Finishes` counts the steps.
-/

namespace BlockStudio

variable {ts : List Task} {s : Scene} {root : StackId}

namespace Run

open Forest

variable {store : Store}

/-! ## Runs that end -/

/-- Every way on from these tasks is finite: each move is made, and what it leaves ends. -/
inductive Ends (store : Store) : List Task → Scene → Prop
  /-- There is nothing left to do. -/
  | done (s : Scene) : Ends store [] s
  /-- The first task makes its move. -/
  | move {t : Task} {rest : List Task} {s : Scene}
    (hadv : ∃ limits, ¬RanOut (advance store (ask store limits) t s))
    (hnext : ∀ limits m s', advance store (ask store limits) t s = .ok m s' →
      Ends store (m.left ++ rest) s')
    (hcaught : ∀ limits e ts s', advance store (ask store limits) t s = .error e s' →
      unwind e.fromInside rest = some ts → Ends store ts s') : Ends store (t :: rest) s

/-- A run that ends after this many steps, each of which returns. -/
inductive Finishes (store : Store) : Nat → List Task → Scene → Prop
  /-- All tasks have ended. -/
  | finished {limits : Limits} {ts : List Task} {s s' : Scene}
    (h : step store limits ts s = .ok none s') : Finishes store 0 ts s
  /-- The program stops early. -/
  | stopped {limits : Limits} {ts : List Task} {s s' : Scene} {e : Exit}
    (h : step store limits ts s = .error e s') (he : e ≠ .outOfFuel) : Finishes store 0 ts s
  /-- A step gives a value. -/
  | step {limits : Limits} {n : Nat} {ts ts' : List Task} {s s' : Scene} {v : Value}
    (h : step store limits ts s = .ok (some (v, ts')) s') (hrest : Finishes store n ts' s') :
    Finishes store (n + 1) ts s

theorem Ends.returns (h : Ends store ts s) : Returns store (.tasks ts, s) := by
  induction h with
  | done s => exact ⟨⟨0, 1⟩, not_ranOut_ok⟩
  | move ha _ _ hn hc =>
    exact returns_cons ha (fun limits ts s' h => hn limits (.go ts) s' h) hc

/-- Tasks whose steps answer as those of a run that finishes. -/
theorem Finishes.of_answers {n : Nat} {ts' : List Task} {s' : Scene}
    (hs : ∀ l r, Run.step store l ts' s' = r → ¬RanOut r → ∃ l', Run.step store l' ts s = r)
    (h : Finishes store n ts' s') : Finishes store n ts s := by
  cases h with
  | finished h =>
    obtain ⟨l, h⟩ := hs _ _ h not_ranOut_ok
    exact .finished h
  | stopped h he =>
    obtain ⟨l, h⟩ := hs _ _ h (mt ranOut_error.1 he)
    exact .stopped h he
  | step h hr =>
    obtain ⟨l, h⟩ := hs _ _ h not_ranOut_ok
    exact .step h hr

/-- Moves make up steps: one that gives a value ends a step, and every other goes on with it. -/
theorem Ends.finishes (h : Ends store ts s) : ∃ n, Finishes store n ts s := by
  induction h with
  | done s => exact ⟨0, .finished (show step store ⟨0, 1⟩ [] s = .ok none s from rfl)⟩
  | @move t rest s ha _ _ hne hc =>
    obtain ⟨l1, ha⟩ := ha
    have hs := step_oneMore ha
    cases hr : advance store (ask store l1) t s with
    | ok m s' =>
      rw [hr] at hs
      obtain ⟨n, hn⟩ := hne l1 m s' hr
      cases m with
      | give v ts => exact ⟨n + 1, .step (hs l1 rest) hn⟩
      | go ts =>
        refine ⟨n, hn.of_answers fun l2 r h ho => ⟨oneMore l1 l2, ?_⟩⟩
        rw [hs]
        exact resume_oneMore h ho l1
    | error e s' =>
      rw [hr, ranOut_error] at ha
      rw [hr] at hs
      cases hts : unwind e.fromInside rest with
      | none =>
        have hst : step store (oneMore l1 l1) (t :: rest) s = .error e.fromInside s' := by
          rw [hs]
          simp only [hts]
        exact ⟨0, .stopped hst (mt fromInside_eq_outOfFuel.1 ha)⟩
      | some ts =>
        obtain ⟨n, hn⟩ := hc l1 e ts s' hr hts
        refine ⟨n, hn.of_answers fun l2 r h ho => ⟨oneMore l1 l2, ?_⟩⟩
        rw [hs]
        simp only [hts]
        exact resume_oneMore h ho l1

/-- A run is over: it has finished, or stopped for another reason than its bounds. -/
def Ending.IsOver : Ending → Prop
  | .finished => True
  | .running => False
  | .stopped e => e ≠ .outOfFuel

/-- A run that finishes is followed to its end within all bounds that are wide enough. -/
theorem Finishes.follow {n : Nat} (h : Finishes store n ts s) :
    ∃ limits steps ending last, Ending.IsOver ending ∧ ∀ wider, Within limits wider →
      ∀ count, n < count → Run.follow store wider count ts s = (steps, ending, last) := by
  induction h with
  | @finished limits ts s s' h =>
    refine ⟨limits, [], .finished, s', trivial, fun wider hw count hc => ?_⟩
    obtain ⟨count, rfl⟩ : ∃ c, count = c + 1 := ⟨count - 1, by omega⟩
    rw [Run.follow, (Extends.step store hw ts).answer h not_ranOut_ok]
  | @stopped limits ts s s' e h he =>
    refine ⟨limits, [], .stopped e, s', he, fun wider hw count hc => ?_⟩
    obtain ⟨count, rfl⟩ : ∃ c, count = c + 1 := ⟨count - 1, by omega⟩
    rw [Run.follow, (Extends.step store hw ts).answer h (mt ranOut_error.1 he)]
  | @step l1 n ts ts' s s' v h _ ih =>
    obtain ⟨l2, steps, ending, last, ho, hre⟩ := ih
    let said := (s'.env.output.extract s.env.output.size s'.env.output.size).toList
    refine ⟨widest l1 l2, ⟨v, said⟩ :: steps, ending, last, ho, fun wider hw count hc => ?_⟩
    obtain ⟨count, rfl⟩ : ∃ c, count = c + 1 := ⟨count - 1, by omega⟩
    have hl : Within l1 wider :=
      ⟨Nat.le_trans (within_widest_left l1 l2).1 hw.1,
        Nat.le_trans (within_widest_left l1 l2).2 hw.2⟩
    have hr : Within l2 wider :=
      ⟨Nat.le_trans (within_widest_right l1 l2).1 hw.1,
        Nat.le_trans (within_widest_right l1 l2).2 hw.2⟩
    rw [Run.follow, (Extends.step store hl ts).answer h not_ranOut_ok]
    simp only [hre wider hr count (by omega), said]

/-! ## Programs that neither loop on a condition nor sleep -/

/-- Work that comes to an end: tasks from which every way on is finite, and blocks that return. -/
def ComesToEnd (store : Store) : Work × Scene → Prop
  | (.tasks ts, s) => Ends store ts s
  | (.block id, s) => Returns store (.block id, s)

theorem ComesToEnd.returns {c : Work × Scene} (h : ComesToEnd store c) : Returns store c := by
  obtain ⟨ts | id, s⟩ := c
  · exact Ends.returns h
  · exact h

theorem descends_comesToEnd (hbl : store.blocksOf blankStack = [])
    (hl : ∀ b, Reached store [root] (.block b) → (store.definitionOf b).action ≠ .whileTrue)
    (hsl : ∀ b, Reached store [root] (.block b) → (store.definitionOf b).action ≠ .sleep) :
    Descends store (fun b => Reached store [root] (.block b)) (ComesToEnd store) where
  done s := .done s
  move ht _ _ has hn hca := .move (advance_returns ht has) hn hca
  block hid hs hso hbe :=
    block_returns_of_parts hbl hid hs hso fun limits ts s' h => (hbe limits ts s' h).returns
  loops hid ha _ _ _ := absurd ha (hl _ hid)
  sleeps hid ha _ := absurd ha (hsl _ hid)
  slot hb hc := by
    obtain ⟨i, hi⟩ := List.mem_iff_getElem?.1 hc
    exact .slot hb hi
  body hb ht hc := by
    obtain ⟨i, hi⟩ := List.mem_iff_getElem?.1 ht
    exact .row (.slot hb hi) hc

/-! ## Whole programs -/

/-- Only one block of the catalogue loops on a condition, and only one sleeps. -/
theorem known_unbounded {d : Definition} (hd : d.Known) :
    (d.action = .whileTrue → d.id = "while") ∧ (d.action = .sleep → d.id = "sleep") := by
  have hc : ∀ d ∈ Catalogue.blocks,
      (d.action = .whileTrue → d.id = "while") ∧ (d.action = .sleep → d.id = "sleep") := by
    decide +kernel
  obtain hd | ⟨hi, -⟩ := hd
  · exact hc d hd
  · simp [hi]

/-- What can be reached from a stack of finite nesting is of finite nesting. -/
theorem within_of_reached {depth : Nat} (hp : store.StackWithin depth root) {v : Value}
    (h : Reached store [root] v) :
    (∀ b, v = .block b → ∃ n, store.BlockWithin n b) ∧
      ∀ t, v = .stack t → ∃ n, store.StackWithin n t := by
  induction h with
  | top ht =>
    rw [List.mem_singleton.1 ht]
    refine ⟨by simp, ?_⟩
    rintro _ ⟨⟩
    exact ⟨depth, hp⟩
  | row _ hb ih =>
    obtain ⟨n, hn⟩ := ih.2 _ rfl
    refine ⟨?_, by simp⟩
    rintro _ ⟨⟩
    exact ⟨n, hn _ hb⟩
  | slot _ hv ih =>
    obtain ⟨n, hn⟩ := ih.1 _ rfl
    cases n with
    | zero => exact hn.elim
    | succ n =>
      have hs := hn.2 _ _ hv
      constructor
      · rintro c rfl
        exact ⟨n, hs⟩
      · rintro t rfl
        exact ⟨n, hs.2⟩

/-- A program of the catalogue in which no block loops on a condition and none sleeps ends after
finitely many steps, each of which returns: from some number of steps and some bounds on, following it
gives one and the same run, which has finished or stopped. -/
theorem bounded_program_ends (hblank : store.blocksOf blankStack = []) {root : StackId} {depth : Nat}
    (hprogram : store.StackWithin depth root)
    (hbounded : ∀ b, Reached store [root] (.block b) →
      (store.definitionOf b).id ≠ "while" ∧ (store.definitionOf b).id ≠ "sleep")
    {start : Scene} (hstart : start.Plain) :
    ∃ count limits steps ending last, Ending.IsOver ending ∧
      ∀ more, count ≤ more → ∀ wider, Within limits wider →
        follow store wider more (program root) start = (steps, ending, last) := by
  have hknown (b : BlockId) (hb : Reached store [root] (.block b)) :
      (store.definitionOf b).Known := by
    obtain ⟨_ | n, hn⟩ := (within_of_reached hprogram hb).1 b rfl
    · exact hn.elim
    · exact hn.1
  have hloop (b : BlockId) (hb : Reached store [root] (.block b)) :
      (store.definitionOf b).action ≠ .whileTrue :=
    mt (known_unbounded (hknown b hb)).1 (hbounded b hb).1
  have hsleep (b : BlockId) (hb : Reached store [root] (.block b)) :
      (store.definitionOf b).action ≠ .sleep :=
    mt (known_unbounded (hknown b hb)).2 (hbounded b hb).2
  have hdescends := descends_comesToEnd hblank hloop hsleep
  have hcloses : Closes store (ComesToEnd store) (program root) := by
    refine (parts_end_and_close hdescends hblank depth).2 root hprogram ?_ [] (.nil hdescends)
    exact fun b hb => .row (.top List.mem_cons_self) hb
  have hends : Ends store (program root) start := hcloses.ends start hstart
  obtain ⟨n, hn⟩ := hends.finishes
  obtain ⟨limits, steps, ending, last, hover, hfollow⟩ := hn.follow
  exact ⟨n + 1, limits, steps, ending, last, hover, fun more hmore wider hwider =>
    hfollow wider hwider more hmore⟩

/-- Twice: attempt to go through the items of a list, clearing the list and leaving the loop in the
first round, and then to say an unknown variable; when this fails, say so and begin the next round.
Then quit. -/
def triesTwice : Store :=
  let s := (Store.empty.addBlock (named "set") [.text "items", .text ""]).2
  let s := (s.addBlock (named "break") []).2
  let s := (s.addStack [⟨0⟩, ⟨1⟩] none).2
  let s := (s.addBlock (named "for") [.text "item", .text "items", .stack ⟨1⟩]).2
  let s := (s.addBlock (named "get-var") [.text "missing"]).2
  let s := (s.addBlock (named "print") [.block ⟨3⟩]).2
  let s := (s.addStack [⟨2⟩, ⟨4⟩] none).2
  let s := (s.addBlock (named "print") [.text "failed"]).2
  let s := (s.addBlock (named "continue") []).2
  let s := (s.addStack [⟨5⟩, ⟨6⟩] none).2
  let s := (s.addBlock (named "try") [.stack ⟨2⟩, .stack ⟨3⟩]).2
  let s := (s.addStack [⟨7⟩] none).2
  let s := (s.addBlock (named "repeat") [.int 2, .stack ⟨4⟩]).2
  let s := (s.addBlock (named "quit") []).2
  (s.addStack [⟨8⟩, ⟨9⟩] none).2

theorem triesTwice_within : triesTwice.StackWithin 4 ⟨5⟩ := by
  -- From the innermost blocks outwards.
  have hs : triesTwice.BlockWithin 1 ⟨0⟩ := by
    refine ⟨.inl (named_mem "set" (by decide +kernel)), ?_⟩
    rintro (_ | _ | i) v ⟨⟩ <;> rfl
  have hb : triesTwice.BlockWithin 1 ⟨1⟩ := by
    refine ⟨.inl (named_mem "break" (by decide +kernel)), ?_⟩
    rintro i v ⟨⟩
  have hfo : triesTwice.BlockWithin 2 ⟨2⟩ := by
    refine ⟨.inl (named_mem "for" (by decide +kernel)), ?_⟩
    rintro (_ | _ | _ | i) v ⟨⟩
    · rfl
    · rfl
    · refine ⟨by rintro c ⟨⟩; rfl, show ∀ b ∈ [⟨0⟩, ⟨1⟩], triesTwice.BlockWithin 1 b from ?_⟩
      simpa using ⟨hs, hb⟩
  have hg : triesTwice.BlockWithin 1 ⟨3⟩ := by
    refine ⟨.inl (named_mem "get-var" (by decide +kernel)), ?_⟩
    rintro (_ | i) v ⟨⟩
    rfl
  have hp : triesTwice.BlockWithin 2 ⟨4⟩ := by
    refine ⟨.inl (named_mem "print" (by decide +kernel)), ?_⟩
    rintro (_ | i) v ⟨⟩
    exact hg
  have hf : triesTwice.BlockWithin 2 ⟨5⟩ := by
    refine ⟨.inl (named_mem "print" (by decide +kernel)), ?_⟩
    rintro (_ | i) v ⟨⟩
    rfl
  have hc : triesTwice.BlockWithin 2 ⟨6⟩ := by
    refine ⟨.inl (named_mem "continue" (by decide +kernel)), ?_⟩
    rintro i v ⟨⟩
  have ht : triesTwice.BlockWithin 3 ⟨7⟩ := by
    refine ⟨.inl (named_mem "try" (by decide +kernel)), ?_⟩
    rintro (_ | _ | i) v ⟨⟩
    · refine ⟨by rintro c ⟨⟩; rfl, show ∀ b ∈ [⟨2⟩, ⟨4⟩], triesTwice.BlockWithin 2 b from ?_⟩
      simpa using ⟨hfo, hp⟩
    · refine ⟨by rintro c ⟨⟩; rfl, show ∀ b ∈ [⟨5⟩, ⟨6⟩], triesTwice.BlockWithin 2 b from ?_⟩
      simpa using ⟨hf, hc⟩
  have hr : triesTwice.BlockWithin 4 ⟨8⟩ := by
    refine ⟨.inl (named_mem "repeat" (by decide +kernel)), ?_⟩
    rintro (_ | _ | i) v ⟨⟩
    · rfl
    · refine ⟨by rintro c ⟨⟩; rfl, show ∀ b ∈ [⟨7⟩], triesTwice.BlockWithin 3 b from ?_⟩
      simpa using ht
  have hq : triesTwice.BlockWithin 4 ⟨9⟩ := by
    refine ⟨.inl (named_mem "quit" (by decide +kernel)), ?_⟩
    rintro i v ⟨⟩
  exact show ∀ b ∈ [⟨8⟩, ⟨9⟩], triesTwice.BlockWithin 4 b by simpa using ⟨hr, hq⟩

/-- No block of the program loops on a condition or sleeps. -/
theorem triesTwice_bounded (b : BlockId) :
    (triesTwice.definitionOf b).id ≠ "while" ∧ (triesTwice.definitionOf b).id ≠ "sleep" := by
  have ha := Store.block_of_all (s := triesTwice)
    (p := fun b => b.definition.id != "while" && b.definition.id != "sleep")
    (by decide +kernel) (by decide +kernel) b
  simpa [Store.definitionOf] using ha

/-- A list to go through. -/
def twoItems : Scene := { env := { globals := [(.text "items", .list [.int 1, .int 2])] } }

-- In the second round the list is an empty text, and going through it takes no round at all.
example : (follow triesTwice .generous 20 (program ⟨5⟩) twoItems).2.2.env.output =
    #["failed", "failed"] := by
  decide +kernel

/-- The attempt fails twice, and then the program quits. -/
theorem triesTwice_ends : triesTwice.blocksOf blankStack = [] ∧ triesTwice.StackWithin 4 ⟨5⟩ ∧
      (∀ b, Reached triesTwice [⟨5⟩] (.block b) →
        (triesTwice.definitionOf b).id ≠ "while" ∧ (triesTwice.definitionOf b).id ≠ "sleep") ∧
      twoItems.Plain ∧
      ∃ count limits steps ending last, Ending.IsOver ending ∧
        ∀ more, count ≤ more → ∀ wider, Within limits wider →
          follow triesTwice wider more (program ⟨5⟩) twoItems = (steps, ending, last) := by
  have hbounded (b : BlockId) (_ : Reached triesTwice [⟨5⟩] (.block b)) := triesTwice_bounded b
  have hplain : twoItems.Plain := by
    have hall : twoItems.env.globals.all (·.2.plain) = true := by decide +kernel
    exact fun g hg => List.all_eq_true.1 hall g hg
  exact ⟨rfl, triesTwice_within, hbounded, hplain,
    bounded_program_ends rfl triesTwice_within hbounded hplain⟩

end Run

end BlockStudio
