import BlockStudio.Proofs.BoundedProgram
import BlockStudio.Proofs.Reporters

/-!
# Counted loops unrolled

A run takes a turn with each move of its first task, and `Runs` follows the turns through any number of
steps without a bound on the moves.  What the tasks at the front of a list do does not depend on what
waits behind them, as long as no loop control escapes from them.  A counted loop therefore runs as its
body written out as often as it goes round.
-/

namespace BlockStudio

namespace Run

/-! ## Turns and runs -/

/-- What becomes of a run by the move of its first task. -/
inductive Turn where
  /-- No task is left. -/
  | done (s : Scene)
  /-- The run goes on with tasks. -/
  | on (ts : List Task) (s : Scene)
  /-- A step gives a value and leaves tasks. -/
  | gave (v : Value) (ts : List Task) (s : Scene)
  /-- The program stops early. -/
  | stopped (e : Exit) (s : Scene)

namespace Turn

/-- The turn when other tasks wait behind. -/
def before (rest : List Task) : Turn → Turn
  | .done s => .on rest s
  | .on ts s => .on (ts ++ rest) s
  | .gave v ts s => .gave v (ts ++ rest) s
  | .stopped e s =>
    match unwind e rest with
    | some ts => .on ts s
    | none => .stopped e s

/-- The turn of a move with nothing behind it. -/
def ofMove : EStateM.Result Exit Scene Move → Turn
  | .ok (.go ts) s => .on ts s
  | .ok (.give v ts) s => .gave v ts s
  | .error e s => .stopped e.fromInside s

end Turn

/-- The turn that a run takes. -/
def turn (store : Store) (d : BlockId → Act Value) : List Task → Scene → Turn
  | [], s => .done s
  | t :: rest, s => (Turn.ofMove (advance store d t s)).before rest

/-- What so many steps of a run give, how they end and the scene they leave.  The first of them is under
way since so many lines were out. -/
inductive Runs (store : Store) (d : BlockId → Act Value) :
    Nat → Nat → List Task → Scene → List Step × Ending × Scene → Prop
  | rest {said ts s} : Runs store d 0 said ts s ([], .running, s)
  | done {n said ts s s'} (h : turn store d ts s = .done s') :
    Runs store d (n + 1) said ts s ([], .finished, s')
  | on {n said ts us s s' out} (h : turn store d ts s = .on us s')
    (hrest : Runs store d (n + 1) said us s' out) : Runs store d (n + 1) said ts s out
  | gave {n said v ts us s s' steps x} (h : turn store d ts s = .gave v us s')
    (hrest : Runs store d n s'.env.output.size us s' (steps, x)) : Runs store d (n + 1) said ts s
      (⟨v, (s'.env.output.extract said s'.env.output.size).toList⟩ :: steps, x)
  | stopped {n said e ts s s'} (h : turn store d ts s = .stopped e s') :
    Runs store d (n + 1) said ts s ([], .stopped e, s')

/-- Tasks end so, and leave this scene, after some number of steps. -/
def Stops (store : Store) (d : BlockId → Act Value) (ts : List Task) (s : Scene) (x : Ending × Scene) : Prop :=
  ∃ n, ∀ said, ∃ steps, Runs store d (n + 1) said ts s (steps, x)

/-- Tasks that begin with a row run some blocks of it and go on with the last tasks. -/
inductive Ahead (store : Store) : List BlockId → List Task → List Task → Prop
  | nil {ts} : Ahead store [] ts ts
  | cons {q m b bs rest ts} (hb : (store.row q)[m]? = some b)
    (h : Ahead store bs (.row q (m + 1) :: rest) ts) : Ahead store (b :: bs) (.row q m :: rest) ts

/-- The turns of two runs agree, and the tasks that they leave belong together. -/
inductive Turn.Agree (B : List Task → List Task → Scene → Prop) : Turn → Turn → Prop
  | on {ts us s} (h : B ts us s) : Agree B (.on ts s) (.on us s)
  | gave {v ts us s} (h : B ts us s) : Agree B (.gave v ts s) (.gave v us s)
  | stopped {e s} : Agree B (.stopped e s) (.stopped e s)

/-- Tasks in front of blocks with others behind these, once on the left, once on the right and once in a
row of their own, from which nothing else can come than has the property. -/
inductive Beside (store : Store) (d : BlockId → Act Value) (left right alone : List Task)
    (P : Ending × Scene → Prop) : List Task → List Task → Scene → Prop
  | intro (front : List Task) {bs us us' ws s} (hus : Ahead store bs us left)
    (hus' : Ahead store bs us' right) (hws : Ahead store bs ws alone)
    (hP : ∀ x, Stops store d (front ++ ws) s x → P x) :
    Beside store d left right alone P (front ++ us) (front ++ us') s

variable {store : Store} {d : BlockId → Act Value} {limits wider : Limits} {ts us rest left right : List Task}
  {s s' : Scene} {n said fuel k m j : Nat} {out : List Step × Ending × Scene} {q u : RowId}

/-! ## Within wider bounds -/

theorem Turn.before_append (front rest : List Task) (x : Turn) :
    x.before (front ++ rest) = (x.before front).before rest := by
  have hu (e : Exit) : unwind e (front ++ rest) =
      match unwind e front with
      | some ts => some (ts ++ rest)
      | none => unwind e rest := by
    induction front with
    | nil => rfl
    | cons t front ih =>
      cases t <;> cases e <;> simp only [List.cons_append, unwind, ih] <;> split <;> simp_all
  cases x with
  | done s => rfl
  | on ts s => exact congrArg (Turn.on · s) (List.append_assoc ..).symm
  | gave v ts s => exact congrArg (Turn.gave v · s) (List.append_assoc ..).symm
  | stopped e s =>
    simp only [Turn.before, hu]
    cases unwind e front <;> rfl

theorem resume_turn (store : Store) (d : BlockId → Act Value) (fuel : Nat) (ts : List Task) (s : Scene) :
    resume store d (fuel + 1) ts s = match turn store d ts s with
      | .done s => .ok none s
      | .on ts s => resume store d fuel ts s
      | .gave v ts s => .ok (some (v, ts)) s
      | .stopped e s => .error e s := by
  cases ts with
  | nil => rfl
  | cons t rest =>
    rw [resume_cons, turn]
    rcases advance store d t s with ⟨_ | _, s'⟩ | ⟨e, s'⟩
    · rfl
    · rfl
    · simp only [Turn.ofMove, Turn.before]
      cases unwind e.fromInside rest <;> rfl

/-- A turn within some bounds is the turn within wider ones. -/
theorem turn_wider {x : Turn} (hw : Within limits wider) (h : turn store (ask store limits) ts s = x)
    (hx : ∀ s', x ≠ .stopped .outOfFuel s') : turn store (ask store wider) ts s = x := by
  subst h
  cases ts with
  | nil => rfl
  | cons t rest =>
    have ha : ¬RanOut (advance store (ask store limits) t s) := by
      intro ho
      cases hr : advance store (ask store limits) t s with
      | ok m s' => simp [hr] at ho
      | error e s' =>
        rw [hr, ranOut_error] at ho
        simp [turn, hr, ho, Turn.ofMove, Turn.before, Exit.fromInside, unwind_outOfFuel] at hx
    rw [turn, (extends_advance store (Extends.ask store hw) t).run s ha]
    rfl

/-- Following a program of which the first step is under way and has so many moves left. -/
def followOn (store : Store) (limits : Limits) (fuel : Nat) :
    Nat → Nat → List Task → Scene → List Step × Ending × Scene
  | 0, _, _, s => ([], .running, s)
  | n + 1, said, ts, s =>
    match resume store (ask store limits) fuel ts s with
    | .ok none s' => ([], .finished, s')
    | .ok (some (v, us)) s' =>
      let out := follow store limits n us s'
      (⟨v, (s'.env.output.extract said s'.env.output.size).toList⟩ :: out.1, out.2)
    | .error e s' => ([], .stopped e, s')

theorem follow_eq (store : Store) (limits : Limits) (n : Nat) (ts : List Task) (s : Scene) :
    follow store limits n ts s =
      followOn store limits limits.moves n s.env.output.size ts s := by
  cases n <;> rfl

theorem runs_followOn (h : (followOn store limits fuel n said ts s).2.1 ≠ .stopped .outOfFuel) :
    Runs store (ask store limits) n said ts s (followOn store limits fuel n said ts s) := by
  induction n generalizing fuel said ts s with
  | zero => exact .rest
  | succ n ihn =>
    induction fuel generalizing ts s with
    | zero => exact absurd rfl h
    | succ fuel ih =>
      cases ht : turn store (ask store limits) ts s with
      | done s' =>
        simp only [followOn, resume_turn, ht]
        exact .done ht
      | on us s' =>
        have heq : followOn store limits (fuel + 1) (n + 1) said ts s =
            followOn store limits fuel (n + 1) said us s' := by
          simp only [followOn, resume_turn, ht]
        rw [heq] at h ⊢
        exact .on ht (ih h)
      | gave v us s' =>
        simp only [followOn, resume_turn, ht] at h ⊢
        rw [follow_eq] at h ⊢
        exact .gave ht (ihn h)
      | stopped e s' =>
        simp only [followOn, resume_turn, ht]
        exact .stopped ht

theorem Runs.exists_followOn (h : Runs store (ask store limits) n said ts s out)
    (ho : out.2.1 ≠ .stopped .outOfFuel) : ∃ enough, ∀ wider fuel, Within limits wider →
      enough ≤ wider.moves → enough ≤ fuel → followOn store wider fuel n said ts s = out := by
  induction h with
  | rest => exact ⟨0, fun _ _ _ _ _ => rfl⟩
  | done h =>
    refine ⟨1, fun wider fuel hw _ hf => ?_⟩
    obtain ⟨fuel, rfl⟩ := Nat.exists_eq_add_of_le' hf
    simp only [followOn, resume_turn, turn_wider hw h nofun]
  | on h _ ih =>
    obtain ⟨enough, ih⟩ := ih ho
    refine ⟨enough + 1, fun wider fuel hw hm hf => ?_⟩
    obtain ⟨fuel, rfl⟩ := Nat.exists_eq_add_of_le' hf
    rw [← ih wider (fuel + enough) hw (by omega) (by omega)]
    simp only [followOn, ← Nat.add_assoc, resume_turn, turn_wider hw h nofun]
  | gave h _ ih =>
    obtain ⟨enough, ih⟩ := ih ho
    refine ⟨enough + 1, fun wider fuel hw hm hf => ?_⟩
    obtain ⟨fuel, rfl⟩ := Nat.exists_eq_add_of_le' hf
    have hm : enough ≤ wider.moves := by omega
    have hr := ih wider wider.moves hw hm hm
    rw [← follow_eq] at hr
    simp only [followOn, ← Nat.add_assoc, resume_turn, turn_wider hw h nofun, hr]
  | @stopped n said e ts s s' h =>
    refine ⟨1, fun wider fuel hw _ hf => ?_⟩
    obtain ⟨fuel, rfl⟩ := Nat.exists_eq_add_of_le' hf
    have hou (s1 : Scene) : Turn.stopped e s' ≠ .stopped .outOfFuel s1 := by
      rintro ⟨⟩
      exact ho rfl
    simp only [followOn, resume_turn, turn_wider hw h hou]

/-- What is followed to some point is followed to it within all bounds that are wide enough. -/
theorem exists_follow (h : Runs store (ask store limits) n s.env.output.size ts s out)
    (ho : out.2.1 ≠ .stopped .outOfFuel) :
    ∃ enough, Within limits enough ∧ ∀ wider, Within enough wider → follow store wider n ts s = out := by
  obtain ⟨moves, h⟩ := h.exists_followOn ho
  refine ⟨⟨limits.depth, max limits.moves moves⟩, ⟨Nat.le_refl _, Nat.le_max_left ..⟩, ?_⟩
  rintro wider ⟨hd, hm⟩
  obtain ⟨hl, hm⟩ := Nat.max_le.1 hm
  rw [follow_eq]
  exact h wider _ ⟨hd, hl⟩ hm hm

theorem runs_follow (h : (follow store limits n ts s).2.1 ≠ .stopped .outOfFuel) :
    Runs store (ask store limits) n s.env.output.size ts s (follow store limits n ts s) := by
  rw [follow_eq] at h ⊢
  exact runs_followOn h

/-- A silent turn changes nothing. -/
theorem runs_on (h : turn store d ts s = .on us s') (hs : n = 0 → s' = s) :
    Runs store d n said ts s out ↔ Runs store d n said us s' out := by
  cases n with
  | zero =>
    rw [hs rfl]
    exact ⟨fun h => by cases h; exact .rest, fun h => by cases h; exact .rest⟩
  | succ n =>
    refine ⟨fun ho => ?_, .on h⟩
    cases ho with
    | on h' hr =>
      cases h.symm.trans h'
      exact hr
    | done h' | gave h' | stopped h' => cases h.symm.trans h'

/-! ## Tasks in front of others -/

/-- Loop control is all that these tasks catch. -/
def Passing (ts : List Task) : Prop :=
  ∀ e, (∀ action, ¬LoopControl action e) → unwind e ts = none

/-- The turn with which a block that stands in a row enters. -/
def entering (store : Store) (d : BlockId → Act Value) (b : BlockId) (s : Scene) : Turn :=
  match (begin store d b >>= fun begun => Act.ofExcept (enter begun)) s with
  | .ok ts s => .on ts s
  | .error e s => .stopped e.fromInside s

theorem turn_row {b : BlockId} (hb : (store.row q)[m]? = some b) (rest : List Task) (s : Scene) :
    turn store d (.row q m :: rest) s = (entering store d b s).before (.row q (m + 1) :: rest) := by
  simp only [turn, advance, hb, entering]
  rw [← bind_assoc, bind_run]
  cases (begin store d b >>= fun begun => Act.ofExcept (enter begun)) s with
  | ok ts s' => exact congrArg (Turn.on · s') (List.append_assoc ts [_] rest)
  | error e s' => rfl

theorem turn_row_end (h : (store.row q)[m]? = none) (rest : List Task) (s : Scene) :
    turn store d (.row q m :: rest) s = .on rest s := by
  simp only [turn, advance, h]
  rfl

theorem turn_stack (id : StackId) (rest : List Task) (s : Scene) :
    turn store d (.stack id :: rest) s = .on (.row (store.stack id).row 0 :: rest) s := rfl

theorem ahead_of_drop {bs after : List BlockId} (h : (store.row q).drop m = bs ++ after) (rest : List Task) :
    Ahead store bs (.row q m :: rest) (.row q (m + bs.length) :: rest) := by
  induction bs generalizing m with
  | nil => exact .nil
  | cons b bs ih =>
    have hb : (store.row q)[m]? = some b := by rw [← List.head?_drop, h]; rfl
    have ht : (store.row q).drop (m + 1) = bs ++ after := by rw [← List.tail_drop, h]; rfl
    have hr := ih ht
    rw [Nat.add_right_comm] at hr
    exact .cons hb hr

theorem Ahead.unwind_eq {bs : List BlockId} (h : Ahead store bs us ts) (e : Exit) :
    unwind e us = unwind e ts := by
  induction h with
  | nil => rfl
  | cons _ _ ih => exact ih

/-- The tasks in front of others take their turns, and then the others do. -/
theorem Ahead.exists_turn {b : BlockId} {bs : List BlockId} (h : Ahead store (b :: bs) us ts)
    (d : BlockId → Act Value) (s : Scene) :
    ∃ us', Ahead store bs us' ts ∧ turn store d us s = (entering store d b s).before us' := by
  cases h with
  | cons hb h => exact ⟨_, h, turn_row hb _ s⟩

theorem Stops.on {x : Ending × Scene} (h : turn store d ts s = .on us s') (hx : Stops store d us s' x) :
    Stops store d ts s x := by
  obtain ⟨n, hx⟩ := hx
  exact ⟨n, fun said => (hx said).imp fun _ => .on h⟩

theorem Stops.gave {x : Ending × Scene} {v : Value} (h : turn store d ts s = .gave v us s')
    (hx : Stops store d us s' x) : Stops store d ts s x := by
  obtain ⟨n, hx⟩ := hx
  refine ⟨n + 1, fun said => ?_⟩
  obtain ⟨steps, hx⟩ := hx s'.env.output.size
  exact ⟨_, .gave h hx⟩

/-- Tasks run alike when their turns agree until they are known to run alike. -/
theorem Runs.of_agree {B : List Task → List Task → Scene → Prop}
    (hB : ∀ {ts us s}, B ts us s →
      (∀ {n said out}, Runs store d n said ts s out → Runs store d n said us s out) ∨
        ∃ x, turn store d us s = x ∧ Turn.Agree B (turn store d ts s) x)
    (h : Runs store d n said ts s out) (hb : B ts us s) : Runs store d n said us s out := by
  induction h generalizing us with
  | rest => exact .rest
  | done h =>
    rcases hB hb with hal | ⟨x, hus, ha⟩
    · exact hal (.done h)
    · rw [h] at ha
      cases ha
  | on h hr ih =>
    rcases hB hb with hal | ⟨x, hus, ha⟩
    · exact hal (.on h hr)
    · rw [h] at ha
      cases ha with
      | on hb => exact .on hus (ih hb)
  | gave h hr ih =>
    rcases hB hb with hal | ⟨x, hus, ha⟩
    · exact hal (.gave h hr)
    · rw [h] at ha
      cases ha with
      | gave hb => exact .gave hus (ih hb)
  | stopped h =>
    rcases hB hb with hal | ⟨x, hus, ha⟩
    · exact hal (.stopped h)
    · rw [h] at ha
      cases ha with
      | stopped => exact .stopped hus

section Beside

variable {w : RowId} {P : Ending × Scene → Prop} {us' ws ws' : List Task} {bs : List BlockId}

/-- The turn of the same tasks or blocks in the three places. -/
theorem Beside.agree (hs : ∀ action e s', LoopControl action e → ¬P (.stopped e, s'))
    (hl : Passing left) (hr : Passing right) {x : Turn} (hus : Ahead store bs us left)
    (hu' : Ahead store bs us' right) (hws : Ahead store bs ws [.row w k])
    (ht : turn store d ws' s = x.before ws) (hP : ∀ x, Stops store d ws' s x → P x) :
    Turn.Agree (Beside store d left right [.row w k] P) (x.before us) (x.before us') := by
  cases x with
  | done s => exact .on (.intro [] hus hu' hws fun y hy => hP y (hy.on ht))
  | on ts s => exact .on (.intro ts hus hu' hws fun y hy => hP y (hy.on ht))
  | gave v ts s => exact .gave (.intro ts hus hu' hws fun y hy => hP y (hy.gave ht))
  | stopped e s =>
    have ha : unwind e ws = none := hws.unwind_eq e
    simp only [Turn.before, ha] at ht
    have he (action : Action) : ¬LoopControl action e := fun he =>
      hs action e s he (hP _ ⟨0, fun _ => ⟨[], .stopped ht⟩⟩)
    simp only [Turn.before, hus.unwind_eq, hu'.unwind_eq, hl e he, hr e he]
    exact .stopped

/-- Runs with the same blocks ahead are alike when what follows these is, unless loop control escapes. -/
theorem Runs.beside (he : (store.row w)[k]? = none)
    (hs : ∀ action e s', LoopControl action e → ¬P (.stopped e, s')) (hl : Passing left)
    (hr : Passing right) (hre : ∀ {n said s' out}, P (.finished, s') →
      Runs store d n said left s' out → Runs store d n said right s' out)
    (h : Runs store d n said ts s out) (hb : Beside store d left right [.row w k] P ts us s) :
    Runs store d n said us s out := by
  refine h.of_agree (fun {ts us s} hb => ?_) hb
  cases hb with
  | @intro front bs us us' ws s hus hu' hws hP =>
    rcases front with _ | ⟨t, front⟩
    · cases bs with
      | nil =>
        cases hus
        cases hu'
        cases hws
        exact .inl (hre (hP _ ⟨0, fun _ => ⟨[], .on (turn_row_end he [] s) (.done rfl)⟩⟩))
      | cons b bs =>
        obtain ⟨us, hus, htu⟩ := hus.exists_turn d s
        obtain ⟨us', hu', ht'⟩ := hu'.exists_turn d s
        obtain ⟨ws, hws, ht⟩ := hws.exists_turn d s
        refine .inr ⟨_, ht', ?_⟩
        rw [List.nil_append, htu]
        exact Beside.agree hs hl hr hus hu' hws ht hP
    · refine .inr ⟨_, Turn.before_append front us' _, ?_⟩
      simp only [List.cons_append, turn, Turn.before_append]
      refine Beside.agree hs hl hr hus hu' hws ?_ hP
      exact Turn.before_append front ws _

end Beside

/-! ## Rounds -/

/-- No loop control escapes from a stack that runs so many times, one after the other. -/
def ConfinedFor (store : Store) (d : BlockId → Act Value) (id : StackId) : Nat → Scene → Prop
  | 0, _ => True
  | n + 1, s => ∀ x, Stops store d [.stack id] s x →
    (∀ action e, LoopControl action e → x.1 ≠ .stopped e) ∧
      (x.1 = .finished → ConfinedFor store d id n x.2)

theorem passing_counted (k : Nat) (params : List Value) (h : Passing rest) :
    Passing (.counted k params :: rest) := by
  intro e he
  cases e with
  | breakLoop => exact absurd .breakLoop (he _)
  | continueLoop => exact absurd .continueLoop (he _)
  | _ => exact h _ he

/-- The rounds of a counted loop run like its body written out so many times. -/
theorem runs_rounds {body : StackId} {params : List Value} (hpa : params[1]? = some (.stack body))
    (hen : (store.row q)[m]? = none) (hc : ConfinedFor store d body k s)
    (hu : (store.row u).drop j = (List.replicate k (store.blocksOf body)).flatten) :
    Runs store d n said [.counted k params, .row q m] s out ↔ Runs store d n said [.row u j] s out := by
  have hp (q : RowId) (m : Nat) : Passing [.row q m] := fun _ _ => rfl
  induction k generalizing j n said s out with
  | zero =>
    have hr : turn store d [.counted 0 params, .row q m] s = .on [.row q m] s := rfl
    have hue : (store.row u)[j]? = none := by rw [← List.head?_drop, hu]; rfl
    rw [runs_on hr fun _ => rfl, runs_on (turn_row_end hen [] s) fun _ => rfl,
      runs_on (turn_row_end hue [] s) fun _ => rfl]
  | succ k ih =>
    let row := (store.stack body).row
    let last := 0 + (store.blocksOf body).length
    let behind : List Task := [.counted k params, .row q m]
    have hr : turn store d [.counted (k + 1) params, .row q m] s = .on (.body params 1 :: behind) s := rfl
    have hbo : turn store d (.body params 1 :: behind) s = .on (.stack body :: behind) s := by
      simp only [turn, advance, bodyTasks, Operator.arg, hpa]
      rfl
    rw [runs_on hr fun _ => rfl, runs_on hbo fun _ => rfl,
      runs_on (turn_stack body behind s) fun _ => rfl]
    rw [List.replicate_succ, List.flatten_cons] at hu
    have hro : (store.row row).drop 0 = store.blocksOf body ++ [] := (List.append_nil _).symm
    have hl : (store.row row)[last]? = none := List.getElem?_eq_none (Nat.le_of_eq (Nat.zero_add _).symm)
    have hb : Passing (.row row last :: behind) := passing_counted k params (hp q m)
    -- After the body, its row is at the end and the other row at the next copy.
    have hn {n said s' out} (h : ConfinedFor store d body k s') :
        Runs store d n said (.row row last :: behind) s' out ↔
          Runs store d n said [.row u (j + (store.blocksOf body).length)] s' out := by
      rw [runs_on (turn_row_end hl behind s') fun _ => rfl]
      refine ih h ?_
      rw [← List.drop_drop, hu, List.drop_left]
    have hP (x : Ending × Scene) (hx : Stops store d [.row row 0] s x) :
        (∀ action e, LoopControl action e → x.1 ≠ .stopped e) ∧
          (x.1 = .finished → ConfinedFor store d body k x.2) :=
      hc x (hx.on (turn_stack body [] s))
    have hle := ahead_of_drop hro behind
    have hri := ahead_of_drop hu []
    have ha := ahead_of_drop hro []
    constructor
    · intro h
      exact h.beside hl (fun _ _ _ he h => h.1 _ _ he rfl) hb (hp u _)
        (fun h => (hn (h.2 rfl)).1) (.intro [] hle hri ha hP)
    · intro h
      exact h.beside hl (fun _ _ _ he h => h.1 _ _ he rfl) (hp u _) hb
        (fun h => (hn (h.2 rfl)).2) (.intro [] hri hle ha hP)

/-! ## Following runs that are alike -/

/-- What the first run does in any number of steps the second does too, within bounds that are wide
enough: the same values and lines step by step, the same end, and the same scene. -/
def FollowsAs (store : Store) (ts : List Task) (s : Scene) (us : List Task) (s' : Scene) : Prop :=
  ∀ limits count, (follow store limits (count + 1) ts s).2.1 ≠ .stopped .outOfFuel →
    ∃ enough, ∀ wider, Within enough wider →
      follow store wider (count + 1) us s' = follow store limits (count + 1) ts s

theorem followsAs_of_runs (h : ∀ wider, Within limits wider → ∀ n out,
      Runs store (ask store wider) (n + 1) s.env.output.size ts s out →
        Runs store (ask store wider) (n + 1) s'.env.output.size us s' out) :
    FollowsAs store ts s us s' := by
  intro l count ho
  obtain ⟨l1, -, h1⟩ := exists_follow (runs_follow ho) ho
  have hs := h1 (widest limits l1) (within_widest_right limits l1)
  rw [← hs] at ho ⊢
  obtain ⟨enough, -, h2⟩ := exists_follow (h _ (within_widest_left limits l1) _ _ (runs_follow ho)) ho
  exact ⟨enough, h2⟩

/-- What stands in a slot of reporters is found by looking only. -/
theorem untouched_slotValue {limits : Limits} {b : Block} {i : Int} {v w : Value} (hs : s.WithoutBlocks)
    (hv : ∀ id, v = .block id → ∃ depth, store.ReporterWithin depth id)
    (h : slotValue (ask store limits) b i v s = .ok w s') : s.Untouched s' := by
  by_cases hb : ∃ id, v = .block id
  · obtain ⟨id, rfl⟩ := hb
    obtain ⟨depth, hid⟩ := hv id rfl
    have hl : s.Untouched (endState (ask store limits id s)) := (onlyLooks_ask hid hs limits).1
    rwa [show ask store limits id s = _ from h] at hl
  · have hsa : s' = s := by
      unfold slotValue at h
      split at h
      · exact absurd ⟨_, rfl⟩ hb
      · cases hd : defaultOf b i with
        | ok a =>
          rw [hd] at h
          exact (pure_eq_ok.1 h).2.symm
        | error f =>
          rw [hd] at h
          cases h
      · exact (pure_eq_ok.1 h).2.symm
    rw [hsa]
    exact .refl s

/-- A counted loop runs, step by step, as its body written out as often as its count says. -/
theorem repeat_unrolls {repeated unrolled body : StackId} {id : BlockId} {count v : Value} {x : Float}
    {rounds : Int} (hs : s.WithoutBlocks)
    (hr : store.blocksOf repeated = [id]) (hid : store.definitionOf id = countedLoop)
    (hva : (store.block id).values = [count, .stack body])
    (hc : ∀ b, count = .block b → ∃ depth, store.ReporterWithin depth b)
    (hv : slotValue (ask store limits) (store.block id) 0 count s = .ok v s') (hx : v.toFloat = .ok x)
    (hro : wholeBy Binary.trunc x = .ok rounds)
    (hb : ∀ limits, ConfinedFor store (ask store limits) body rounds.toNat s')
    (hun : store.blocksOf unrolled =
      (List.replicate rounds.toNat (store.blocksOf body)).flatten) :
    s.Untouched s' ∧ FollowsAs store (program repeated) s (program unrolled) s' ∧
      FollowsAs store (program unrolled) s' (program repeated) s := by
  have hu := untouched_slotValue hs hc hv
  have hru (wider : Limits) (hw : Within limits wider) (n : Nat) (out : List Step × Ending × Scene) :
      Runs store (ask store wider) (n + 1) s.env.output.size (program repeated) s out ↔
        Runs store (ask store wider) (n + 1) s'.env.output.size (program unrolled) s' out := by
    let params : List Value := [.float x, .stack body]
    let row := (store.stack repeated).row
    have hrw : store.row row = [id] := hr
    have hd : (store.block id).definition = countedLoop := hid
    have hv := (extends_slotValue (.ask store hw) (store.block id) 0 count).answer hv not_ranOut_ok
    have hi : inputs store (ask store wider) (store.block id) 0 (store.block id).values s =
        .ok params s' := by
      rw [hva, inputs, bind_run]
      simp only [Int.ofNat_zero, hv, hd, convert, hx]
      simp only [inputs, slotValue, hd]
      rfl
    have he : turn store (ask store wider) [.row row 0] s =
        .on [.fresh id .repeatTimes params, .row row (0 + 1)] s' := by
      rw [turn_row (by rw [hrw]; rfl), entering, begin, bind_assoc, bind_run, hi]
      simp only [hd]
      rfl
    have hf : turn store (ask store wider) [.fresh id .repeatTimes params, .row row (0 + 1)] s' =
        .on [.counted rounds.toNat params, .row row (0 + 1)] s' := by
      have hn : Operator.number params 0 = .ok x := rfl
      simp only [turn, advance, first, hn]
      rw [show (Except.ok x >>= wholeBy Binary.trunc) = .ok rounds from hro]
      rfl
    rw [show program repeated = [.stack repeated] from rfl, show program unrolled = [.stack unrolled] from rfl,
      runs_on (turn_stack repeated [] s) (by simp), runs_on he (by simp),
      runs_on hf (by simp), runs_on (turn_stack unrolled [] s') (by simp), hu.output]
    exact runs_rounds rfl (by rw [hrw]; rfl) (hb wider) hun
  exact ⟨hu, followsAs_of_runs fun wider hw n out => (hru wider hw n out).1,
    followsAs_of_runs fun wider hw n out => (hru wider hw n out).2⟩

/-! ### A loop that is left inside a round -/

theorem Runs.unique {n' said' : Nat} {out' : List Step × Ending × Scene}
    (h : Runs store d n said ts s out) (h' : Runs store d n' said' ts s out') (ho : out.2.1 ≠ .running)
    (ho' : out'.2.1 ≠ .running) : out'.2 = out.2 := by
  induction h generalizing n' said' out' with
  | rest => exact absurd rfl ho
  | done h | stopped h =>
    cases h' with
    | rest => exact absurd rfl ho'
    | done h' | on h' | gave h' | stopped h' => cases h.symm.trans h' <;> rfl
  | on h _ ih =>
    cases h' with
    | rest => exact absurd rfl ho'
    | on h' hr =>
      cases h.symm.trans h'
      exact ih hr ho ho'
    | done h' | gave h' | stopped h' => cases h.symm.trans h'
  | gave h _ ih =>
    cases h' with
    | rest => exact absurd rfl ho'
    | gave h' hr =>
      cases h.symm.trans h'
      have hs := ih hr ho ho'
      exact hs
    | done h' | on h' | stopped h' => cases h.symm.trans h'

/-- A round that ends is confined. -/
theorem confinedFor_succ {id : StackId} (h : Stops store d [.stack id] s (.finished, s'))
    (hre : ConfinedFor store d id k s') : ConfinedFor store d id (k + 1) s := by
  rintro ⟨ending, last⟩ ⟨n, hx⟩
  by_cases hr : ending = .running
  · subst hr
    exact ⟨fun _ _ _ => nofun, nofun⟩
  obtain ⟨n', h⟩ := h
  obtain ⟨steps, h⟩ := h 0
  obtain ⟨steps', hx⟩ := hx 0
  cases h.unique hx nofun hr
  exact ⟨fun _ _ _ => nofun, fun _ => hre⟩

/-- One and one times: say a word, and leave a loop in its first round.  The last stack is this written
out. -/
def tickTwice : Store :=
  let s := (Store.empty.addBlock (named "break") []).2
  let s := (s.addStack [⟨0⟩] none).2
  let s := (s.addBlock (named "repeat") [.int 3, .stack ⟨1⟩]).2
  let s := (s.addBlock (named "print") [.text "tick"]).2
  let s := (s.addStack [⟨2⟩, ⟨1⟩] none).2
  let s := (s.addBlock (named "+") [.int 1, .int 1]).2
  let s := (s.addBlock (named "repeat") [.block ⟨3⟩, .stack ⟨2⟩]).2
  let s := (s.addStack [⟨4⟩] none).2
  (s.addStack [⟨2⟩, ⟨1⟩, ⟨2⟩, ⟨1⟩] none).2

theorem tickTwice_round (d : BlockId → Act Value) (s : Scene) : Stops tickTwice d [.stack ⟨2⟩] s
    (.finished, { s with env := s.env.say "tick" }) := by
  repeat first | refine .on rfl ?_ | refine .gave rfl ?_
  exact ⟨0, fun _ => ⟨[], .done rfl⟩⟩

/-- The count is a sum. -/
theorem tickTwice_unrolls :
    ({} : Scene).Untouched {} ∧ FollowsAs tickTwice (program ⟨3⟩) {} (program ⟨4⟩) {} ∧
      FollowsAs tickTwice (program ⟨4⟩) {} (program ⟨3⟩) {} := by
  have hc (b : BlockId) (hb : Value.block ⟨3⟩ = .block b) :
      ∃ depth, tickTwice.ReporterWithin depth b := by
    cases hb
    refine ⟨1, named_mem "+" rfl, rfl, fun b hb => ?_⟩
    have hb : Value.block b ∈ [.int 1, .int 1] := hb
    simp at hb
  have hv : slotValue (ask tickTwice .generous) (tickTwice.block ⟨4⟩) 0 (.block ⟨3⟩) {} =
      .ok (.float 2) {} := by
    rfl
  exact repeat_unrolls (by simp [Scene.WithoutBlocks]) rfl rfl rfl hc hv rfl rfl
    (fun _ => confinedFor_succ (tickTwice_round ..) (confinedFor_succ (tickTwice_round ..) trivial)) rfl

end Run

end BlockStudio
