import BlockStudio.Proofs.Unrolling

/-!
# Conditional loops unfolded

A loop asks for its condition once when its slots are evaluated and once more before each round, and a
conditional asks for it once.  Where no dice are thrown, a condition that is found leaves the scene
exactly as it was, so asking again makes no difference.  A loop therefore runs as the conditional whose
branch is the body with the loop behind it.
-/

namespace BlockStudio

/-- A tree of reporters of the catalogue in which no dice are thrown, nested to a depth below `n`. -/
def Store.DicelessWithin (s : Store) : Nat → BlockId → Prop
  | 0, _ => False
  | n + 1, id =>
    (s.definitionOf id ∈ Catalogue.blocks ∧ (s.definitionOf id).blockType = .reporter ∧
      (s.definitionOf id).action ≠ .random) ∧ ∀ b, .block b ∈ (s.block id).values → s.DicelessWithin n b

namespace Run

variable {store : Store} {d : BlockId → Act Value} {limits : Limits} {ts us rest left right : List Task}
  {s s' : Scene} {n said k m : Nat} {out : List Step × Ending × Scene} {id w f : BlockId} {b : Block}
  {c v : Value} {values params : List Value} {action : Action} {body longer : StackId}

theorem reporterWithin_of_diceless (h : store.DicelessWithin n id) : store.ReporterWithin n id := by
  induction n generalizing id with
  | zero => exact h
  | succ n ih => exact ⟨h.1.1, h.1.2.1, fun b hb => ih (h.2 b hb)⟩

/-! ## Asking again -/

theorem reads_ofExcept {α : Type} (x : Except Fault α) : Reads (Act.ofExcept x) := by
  cases x with
  | ok a => exact .pure a
  | error f => exact .throw _

/-- The first move of a reporter other than the dice does not touch the scene. -/
theorem reads_first (hr : action.reports = true) (hd : action ≠ .random) :
    Reads (first store id action params) := by
  have hg {α : Type} (x : Except Fault α) (g : α → Value) :
      Reads (do return .give (g (← Act.ofExcept x)) [] : Act Move) :=
    .bind (reads_ofExcept x) fun _ => .pure _
  cases action with
  | random => exact absurd rfl hd
  | readFile => exact .bind (reads_ofExcept _) fun _ => .bind .get fun _ => hg _ .text
  | equal | unequal => exact reads_ofExcept _
  | getVariable =>
    exact .bind (reads_ofExcept _) fun _ => .bind (.bind .get fun _ => reads_ofExcept _) fun _ => .pure _
  | start | sleep | repeatTimes | forEach | whileTrue | ifThen | ifElse | attempt | breakLoop
  | continueLoop | quit | say | writeFile | setVariable | increment | decrement => cases hr
  | _ => exact hg _ fun v => v

/-- Slots whose blocks leave the scene as it was leave it so. -/
theorem eq_of_inputs (hd : ∀ c, .block c ∈ values → ∀ v t, d c s = .ok v t → t = s) {i : Nat}
    (h : inputs store d b i values s = .ok params s') : s' = s := by
  induction values generalizing i params s with
  | nil => exact (pure_eq_ok.1 h).2.symm
  | cons v values ih =>
    obtain ⟨w, s1, c, x, ps, hs, -, -, hr, -⟩ := inputs_cons_eq_ok.1 h
    have hs1 : s1 = s := by
      unfold slotValue at hs
      split at hs
      · exact hd _ List.mem_cons_self _ _ hs
      · exact (reads_ofExcept _).ok hs
      · exact (pure_eq_ok.1 hs).2.symm
    rw [hs1] at hr
    exact ih (fun c hc => hd c (List.mem_cons_of_mem _ hc)) hr

/-- A reporter that gives a value leaves the scene exactly as it was, unless dice are thrown. -/
theorem eq_of_demand {moves fuel : Nat} (hid : store.DicelessWithin n id) (hs : s.WithoutBlocks)
    (h : demand store moves fuel id s = .ok v s') : s' = s := by
  induction fuel generalizing n id s v s' with
  | zero => cases h
  | succ fuel ih =>
    cases n with
    | zero => exact hid.elim
    | succ n =>
      obtain ⟨⟨hde, hrp, hd⟩, hsl⟩ := hid
      have hr := reports_of_reporter hde hrp
      have hl := observes_slots (b := store.block id) (E := fun _ => True) (.inl hde)
        (fun c hc u hu => (observes_ask hs moves fuel hc hu).weaken (fun _ h => h) fun _ _ => trivial)
        (fun _ => trivial) (fun c hc => reporterWithin_of_diceless (hsl c hc)) (.refl s)
      rw [demand, begin, bind_assoc] at h
      obtain ⟨params, s1, hi, h⟩ := bind_eq_ok.1 h
      have hp := hl.answer hi
      rw [eq_of_inputs (fun c hc v t => ih (hsl c hc) hs) hi] at h
      have hf := @observes_first id _ params store s s (fun _ => True) hr hp hs (.refl s)
        fun _ => trivial
      unfold Store.definitionOf at hr hd hf
      split at h
      · cases h
      case h_2 ha | h_3 ha | h_4 ha =>
        rw [ha] at hr
        cases hr
      · rw [bind_assoc] at h
        obtain ⟨question, -, h⟩ := (reads_ofExcept _).bind_eq_ok h
        cases h
      · rw [pure_bind] at h
        obtain ⟨r, s2, hre, h⟩ := bind_eq_ok.1 h
        cases moves with
        | zero => cases hre
        | succ moves =>
          rw [resume_cons, advance] at hre
          cases hm : first store id (store.block id).definition.action params s with
          | error e u =>
            rw [hm] at hre
            cases hre
          | ok m u =>
            obtain rfl : u = s := (reads_first hr hd).ok hm
            obtain ⟨w, ts, rfl, hw⟩ := hf.answer hm
            rw [hm] at hre
            cases hre
            cases w with
            | block b => cases hw
            | _ => exact (pure_eq_ok.1 h).2.symm

theorem eq_of_slotValue {i : Int} (hs : s.WithoutBlocks) (hc : ∀ id, c = .block id → store.DicelessWithin n id)
    (h : slotValue (ask store limits) b i c s = .ok v s') : s' = s := by
  unfold slotValue at h
  split at h
  · exact eq_of_demand (hc _ rfl) hs h
  · exact (reads_ofExcept _).ok h
  · exact (pure_eq_ok.1 h).2.symm

/-! ## Runs in plain scenes -/

/-- A turn that leaves tasks of finite nesting, if any, and a plain scene. -/
def Turn.Plain (store : Store) : Turn → Prop
  | .done s | .stopped _ s => s.Plain
  | .on ts s | .gave _ ts s => (∀ t ∈ ts, Formed store t) ∧ s.Plain

theorem plain_turn (limits : Limits) (hb : store.blocksOf blankStack = [])
    (hts : ∀ t ∈ ts, Formed store t) (hs : s.Plain) : (turn store (ask store limits) ts s).Plain store := by
  cases ts with
  | nil => exact hs
  | cons t rest =>
    obtain ⟨⟨depth, ht⟩, hr⟩ := List.forall_mem_cons.1 hts
    have ha := ensures_advance hb (.demand hb limits.moves limits.depth) ht
    have hap {ts : List Task} (hts : ∀ t ∈ ts, Formed store t) (t : Task) (ht : t ∈ ts ++ rest) :
        Formed store t :=
      (List.mem_append.1 ht).elim (hts t) (hr t)
    rw [turn]
    rcases hm : advance store (ask store limits) t s with ⟨⟨v, ts⟩ | ts, s1⟩ | ⟨e, s1⟩
    · obtain ⟨⟨-, hts⟩, hs1⟩ := ha.ok hs hm
      exact ⟨hap hts, hs1⟩
    · obtain ⟨hts, hs1⟩ := ha.ok hs hm
      exact ⟨hap hts, hs1⟩
    · have hs1 := ha.error hs hm
      simp only [Turn.ofMove, Turn.before]
      cases hu : unwind e.fromInside rest with
      | some ts => exact ⟨formed_unwind hr hu, hs1⟩
      | none => exact hs1

theorem Runs.plain (h : Runs store (ask store limits) n said ts s out) (hb : store.blocksOf blankStack = [])
    (hts : ∀ t ∈ ts, Formed store t) (hs : s.Plain) : out.2.2.Plain := by
  induction h with
  | rest => exact hs
  | done h | stopped h =>
    have := plain_turn limits hb hts hs
    rwa [h] at this
  | on h _ ih | gave h _ ih =>
    have := plain_turn limits hb hts hs
    rw [h] at this
    exact ih this.1 this.2

/-! ## Rounds -/

/-- Runs that take the same turn are alike. -/
theorem runs_congr (h : turn store d ts s = turn store d us s) :
    Runs store d n said ts s out ↔ Runs store d n said us s out := by
  constructor <;> intro hru
  · cases hru with
    | rest => exact .rest
    | done ht => exact .done (h ▸ ht)
    | on ht hr => exact .on (h ▸ ht) hr
    | gave ht hr => exact .gave (h ▸ ht) hr
    | stopped ht => exact .stopped (h ▸ ht)
  · cases hru with
    | rest => exact .rest
    | done ht => exact .done (h ▸ ht)
    | on ht hr => exact .on (h ▸ ht) hr
    | gave ht hr => exact .gave (h ▸ ht) hr
    | stopped ht => exact .stopped (h ▸ ht)

/-- Rows of which no block is left. -/
def Ended (store : Store) (ts : List Task) : Prop :=
  ∀ t ∈ ts, ∃ q m, t = .row q m ∧ (store.row q)[m]? = none

theorem runs_ended (h : Ended store ts) :
    Runs store d n said ts s out ↔ Runs store d n said [] s out := by
  induction ts with
  | nil => exact .rfl
  | cons t ts ih =>
    obtain ⟨⟨q, m, rfl, he⟩, hts⟩ := List.forall_mem_cons.1 h
    rw [runs_on (turn_row_end he ts s) fun _ => rfl, ih hts]

theorem unwind_ended (h : Ended store ts) (e : Exit) : unwind e ts = none := by
  induction ts with
  | nil => rfl
  | cons t ts ih =>
    obtain ⟨⟨q, m, rfl, -⟩, hts⟩ := List.forall_mem_cons.1 h
    exact ih hts

/-- The same loop with the same tasks in front of it, where different rows wait for its end. -/
inductive Loops (store : Store) (w : BlockId) (body : StackId) : List Task → List Task → Scene → Prop
  | round (front : List Task) {p p' r r' s} (hp : p[1]? = some (.stack body)) (hp' : p'[1]? = some (.stack body))
    (hr : Ended store r) (hr' : Ended store r') :
    Loops store w body (front ++ .conditional w p :: r) (front ++ .conditional w p' :: r') s
  | body {p p' r r' s} (hp : p[1]? = some (.stack body)) (hp' : p'[1]? = some (.stack body))
    (hr : Ended store r) (hr' : Ended store r') :
    Loops store w body (.body p 1 :: .conditional w p :: r) (.body p' 1 :: .conditional w p' :: r') s
  | ended {r r' s} (hr : Ended store r) (hr' : Ended store r') : Loops store w body r r' s

theorem turn_body {p : List Value} (hp : p[1]? = some (.stack body)) (rest : List Task) (s : Scene) :
    turn store d (.body p 1 :: rest) s = .on (.stack body :: rest) s := by
  simp only [turn, advance, bodyTasks, Operator.arg, hp]
  rfl

theorem turn_conditional (p : List Value) {r : List Task} (hr : Ended store r) (s : Scene) :
    turn store d (.conditional w p :: r) s = match getValue store d w 0 s with
      | .ok v s => .on (if v.truth then .body p 1 :: .conditional w p :: r else r) s
      | .error e s => .stopped e.fromInside s := by
  simp only [turn, advance]
  rw [bind_run]
  cases getValue store d w 0 s with
  | ok v s =>
    dsimp only
    split <;> rfl
  | error e s => simp only [Turn.ofMove, Turn.before, unwind_ended hr]

/-- The turn of the same tasks in front of the same loop. -/
theorem agree_loops {p p' : List Value} {r r' : List Task} (hp : p[1]? = some (.stack body))
    (hp' : p'[1]? = some (.stack body)) (hr : Ended store r) (hr' : Ended store r') (x : Turn) :
    Turn.Agree (Loops store w body) (x.before (.conditional w p :: r)) (x.before (.conditional w p' :: r')) := by
  cases x with
  | done s => exact .on (.round [] hp hp' hr hr')
  | on ts s => exact .on (.round ts hp hp' hr hr')
  | gave v ts s => exact .gave (.round ts hp hp' hr hr')
  | stopped e s =>
    cases e with
    | breakLoop => exact .on (.ended hr hr')
    | continueLoop => exact .on (.round [] hp hp' hr hr')
    | _ =>
      simp only [Turn.before, unwind, unwind_ended hr, unwind_ended hr']
      exact .stopped

/-- A loop runs alike whatever its condition was when it began, and whichever rows wait for its end. -/
theorem runs_loops {p p' : List Value} {r r' : List Task} (hp : p[1]? = some (.stack body))
    (hp' : p'[1]? = some (.stack body)) (hr : Ended store r) (hr' : Ended store r')
    (h : Runs store d n said (.conditional w p :: r) s out) :
    Runs store d n said (.conditional w p' :: r') s out := by
  refine h.of_agree (B := Loops store w body) (fun {ts us s} hl => ?_) (.round [] hp hp' hr hr')
  cases hl with
  | ended hr hr' => exact .inl ((runs_ended hr').2 ∘ (runs_ended hr).1)
  | body hp hp' hr hr' =>
    refine .inr ⟨_, turn_body hp' _ s, ?_⟩
    rw [turn_body hp]
    exact .on (.round [_] hp hp' hr hr')
  | round front hp hp' hr hr' =>
    refine .inr ⟨_, rfl, ?_⟩
    cases front with
    | cons t front =>
      simp only [List.cons_append, turn, Turn.before_append]
      exact agree_loops hp hp' hr hr' _
    | nil =>
      rw [List.nil_append, List.nil_append, turn_conditional _ hr, turn_conditional _ hr']
      cases getValue store d w 0 s with
      | error e s => exact .stopped
      | ok v s =>
        dsimp only
        split
        · exact .on (.body hp hp' hr hr')
        · exact .on (.ended hr hr')

/-! ## Conditions -/

/-- A loop and a conditional take up their condition and their body. -/
theorem entering_condition {b : BlockId} {t : StackId}
    (hb : store.definitionOf b = named "while" ∨ store.definitionOf b = named "if")
    (hvalues : (store.block b).values = [c, .stack t]) (s : Scene) :
    entering store d b s = match slotValue d (store.block b) 0 c s with
      | .ok v s => .on [.fresh b (store.definitionOf b).action [v, .stack t]] s
      | .error e s => .stopped e.fromInside s := by
  unfold Store.definitionOf at hb ⊢
  obtain ⟨c0, c1, hc0, hc1, hk0, hk1⟩ : ∃ c0 c1 : Component, (store.block b).definition.inputs[0]? = some c0 ∧
      (store.block b).definition.inputs[1]? = some c1 ∧ c0.kind = .boolean ∧ c1.kind = .statement := by
    rcases hb with hb | hb <;> rw [hb] <;> exact ⟨_, _, rfl, rfl, rfl, rfl⟩
  rw [entering, begin, bind_assoc, bind_run, hvalues]
  cases hs : slotValue d (store.block b) 0 c s with
  | error e s1 => rw [inputs, bind_run, Int.natCast_zero, hs]
  | ok v s1 =>
    have hbo : inputs store d (store.block b) 1 [.stack t] s1 = .ok [.stack t] s1 :=
      inputs_cons_eq_ok.2 ⟨_, _, c1, _, [], rfl, hc1, by rw [hk1]; rfl, rfl, rfl⟩
    have hi : inputs store d (store.block b) 0 [c, .stack t] s = .ok [v, .stack t] s1 :=
      inputs_cons_eq_ok.2 ⟨v, s1, c0, v, [.stack t], hs, hc0, by rw [hk0]; rfl, hbo, rfl⟩
    rw [hi]
    rcases hb with hb | hb <;> rw [hb] <;> rfl

theorem passing_conditional (p : List Value) {r : List Task} (hr : Ended store r) :
    Passing (.conditional w p :: r) := by
  intro e he
  cases e with
  | breakLoop => exact absurd .breakLoop (he _)
  | continueLoop => exact absurd .continueLoop (he _)
  | _ => exact unwind_ended hr _

section Condition

variable (hw : store.definitionOf w = named "while") (hvalues : (store.block w).values = [c, .stack body])
  (hc : ∀ id, c = .block id → store.DicelessWithin k id)
include hw hvalues hc

/-- Where a loop stands in a row, it is about to ask for its condition. -/
theorem runs_loop_in_row {q : RowId} {p : List Value} {r r' : List Task} (hs : s.Plain)
    (hq : (store.row q)[m]? = some w) (he : (store.row q)[m + 1]? = none) (hp : p[1]? = some (.stack body))
    (hr : Ended store r) (hr' : Ended store r') :
    Runs store (ask store limits) n said (.conditional w p :: r) s out ↔
      Runs store (ask store limits) n said (.row q m :: r') s out := by
  have hgv : getValue store (ask store limits) w 0 s = slotValue (ask store limits) (store.block w) 0 c s := by
    simp only [getValue, hvalues]
    rfl
  have hro := turn_row (d := ask store limits) hq r' s
  rw [entering_condition (.inl hw) hvalues] at hro
  have hwa : Ended store (.row q (m + 1) :: r') := List.forall_mem_cons.2 ⟨⟨q, m + 1, rfl, he⟩, hr'⟩
  cases hsl : slotValue (ask store limits) (store.block w) 0 c s with
  | error e s1 =>
    refine runs_congr ?_
    rw [turn_conditional p hr, hgv, hsl, hro, hsl]
    simp only [Turn.before, unwind_ended hwa]
  | ok v s1 =>
    have hs1 : s1 = s := eq_of_slotValue (fun g hg => Value.isBlock_of_plain (hs g hg)) hc hsl
    rw [hsl, hs1] at hro
    have hf : turn store (ask store limits) (.fresh w (store.definitionOf w).action [v, .stack body] ::
        .row q (m + 1) :: r') s = .on (.conditional w [v, .stack body] :: .row q (m + 1) :: r') s := by
      rw [hw]
      rfl
    rw [runs_on hro fun _ => rfl, List.singleton_append, runs_on hf fun _ => rfl]
    exact ⟨runs_loops hp rfl hr hwa, runs_loops rfl hp hwa hr⟩

/-- The first round, with the loop that waits for it or stands behind it. -/
theorem runs_first_round {depth : Nat} {p : List Value} {r : List Task} (hb : store.blocksOf blankStack = [])
    (hs : s.Plain) (hbo : store.StackWithin depth body)
    (hco : ∀ x, Stops store (ask store limits) [.stack body] s x →
      ∀ action e, LoopControl action e → x.1 ≠ .stopped e)
    (hl : store.blocksOf longer = store.blocksOf body ++ [w]) (hp : p[1]? = some (.stack body))
    (hr : Ended store r) :
    Runs store (ask store limits) n said [.stack body, .conditional w p] s out ↔
      Runs store (ask store limits) n said (.stack longer :: r) s out := by
  let row := (store.stack body).row
  let next := (store.stack longer).row
  let last := 0 + (store.blocksOf body).length
  have hn : Ended store [] := nofun
  have hro : (store.row row).drop 0 = store.blocksOf body ++ [] := (List.append_nil _).symm
  have hne : (store.row next).drop 0 = store.blocksOf body ++ [w] := hl
  have hla : (store.row row)[last]? = none := List.getElem?_eq_none (Nat.le_of_eq (Nat.zero_add _).symm)
  have hlo : (store.row next)[last]? = some w := by
    rw [show store.row next = _ from hl, List.getElem?_append_right (by omega)]
    simp [last]
  have hen : (store.row next)[last + 1]? = none := by
    rw [show store.row next = _ from hl, List.getElem?_eq_none (by simp [last])]
  have hri : Passing (.row next last :: r) := fun e _ => unwind_ended hr e
  have hle : Passing [.row row last, .conditional w p] := passing_conditional p hn
  have hre {n said s' out} (hs' : s'.Plain) :
      Runs store (ask store limits) n said [.row row last, .conditional w p] s' out ↔
        Runs store (ask store limits) n said (.row next last :: r) s' out := by
    rw [runs_on (turn_row_end hla _ s') fun _ => rfl]
    exact runs_loop_in_row hw hvalues hc hs' hlo hen hp hn hr
  have hP (x : Ending × Scene) (hx : Stops store (ask store limits) [.row row 0] s x) :
      (∀ action e, LoopControl action e → x.1 ≠ .stopped e) ∧ x.2.Plain := by
    have hst := hx.on (turn_stack body [] s)
    obtain ⟨n, hru⟩ := hst
    obtain ⟨steps, hru⟩ := hru 0
    exact ⟨hco x (hx.on (turn_stack body [] s)), hru.plain hb (by simpa using ⟨depth, hbo⟩) hs⟩
  have ha := ahead_of_drop hro [.conditional w p]
  have ha' := ahead_of_drop hne r
  have hal := ahead_of_drop hro []
  rw [runs_on (turn_stack body _ s) fun _ => rfl, runs_on (turn_stack longer r s) fun _ => rfl]
  constructor
  · intro h
    exact h.beside hla (fun _ _ _ he h => h.1 _ _ he rfl) hle hri (fun h => (hre h.2).1)
      (.intro [] ha ha' hal hP)
  · intro h
    exact h.beside hla (fun _ _ _ he h => h.1 _ _ he rfl) hri hle (fun h => (hre h.2).2)
      (.intro [] ha' ha hal hP)

end Condition

/-- A loop runs, step by step, as the conditional with the same condition whose branch is the body with the
loop behind it. -/
theorem while_unfolds {looping unfolded : StackId} {depth : Nat} (hb : store.blocksOf blankStack = [])
    (hs : s.Plain) (hl : store.blocksOf looping = [w]) (hw : store.definitionOf w = named "while")
    (hwv : (store.block w).values = [c, .stack body]) (hu : store.blocksOf unfolded = [f])
    (hf : store.definitionOf f = named "if") (hfv : (store.block f).values = [c, .stack longer])
    (hlo : store.blocksOf longer = store.blocksOf body ++ [w]) (hfi : c ≠ .none)
    (hc : ∀ id, c = .block id → store.DicelessWithin depth id) (hbo : store.StackWithin depth body)
    (hco : ∀ limits x, Stops store (ask store limits) [.stack body] s x →
      ∀ action e, LoopControl action e → x.1 ≠ .stopped e) :
    FollowsAs store (program looping) s (program unfolded) s ∧
      FollowsAs store (program unfolded) s (program looping) s := by
  have hru (limits : Limits) (n : Nat) (out : List Step × Ending × Scene) :
      Runs store (ask store limits) n s.env.output.size (program looping) s out ↔
        Runs store (ask store limits) n s.env.output.size (program unfolded) s out := by
    let d := ask store limits
    let q := (store.stack looping).row
    let q' := (store.stack unfolded).row
    let p : List Value := [c, .stack body]
    have hn : Ended store [] := nofun
    have hq : store.row q = [w] := hl
    have hq' : store.row q' = [f] := hu
    have hen : Ended store [.row q' 1] := by simp [Ended, hq']
    have hso : slotValue d (store.block f) 0 c s = slotValue d (store.block w) 0 c s := by
      cases c <;> first | rfl | exact absurd rfl hfi
    have hgv : getValue store d w 0 s = slotValue d (store.block w) 0 c s := by
      simp only [getValue, hwv]
      rfl
    have he := turn_row (d := d) (show (store.row q')[0]? = some f by rw [hq']; rfl) [] s
    rw [entering_condition (.inr hf) hfv, hso] at he
    rw [show program looping = [.stack looping] from rfl, show program unfolded = [.stack unfolded] from rfl,
      runs_on (turn_stack looping [] s) fun _ => rfl, runs_on (turn_stack unfolded [] s) fun _ => rfl,
      ← runs_loop_in_row (p := p) hw hwv hc hs (by rw [hq]; rfl) (by rw [hq]; rfl) rfl hn hn]
    have hr := turn_conditional (w := w) (d := d) p hn s
    rw [hgv] at hr
    cases hsl : slotValue d (store.block w) 0 c s with
    | error e s1 =>
      rw [hsl] at he hr
      refine runs_congr (hr.trans ?_)
      rw [he]
      simp only [Turn.before, unwind_ended hen]
    | ok v s1 =>
      have hs1 : s1 = s := eq_of_slotValue (fun g hg => Value.isBlock_of_plain (hs g hg)) hc hsl
      rw [hsl, hs1] at he hr
      have hfr : turn store d (.fresh f (store.definitionOf f).action [v, .stack longer] :: [.row q' 1]) s =
          .on ((if v.truth then [.body [v, .stack longer] 1] else []) ++ [.row q' 1]) s := by
        rw [hf]
        rfl
      rw [runs_on hr fun _ => rfl, runs_on he fun _ => rfl, List.singleton_append, runs_on hfr fun _ => rfl]
      cases hv : v.truth with
      | false => exact (runs_ended hen).symm
      | true =>
        simp only [if_true, List.singleton_append]
        rw [runs_on (turn_body rfl _ s) fun _ => rfl, runs_on (turn_body rfl _ s) fun _ => rfl]
        exact runs_first_round hw hwv hc hb hs hbo (hco limits) hlo rfl hen
  exact ⟨followsAs_of_runs fun wider (_ : Within .generous wider) n out => (hru wider _ out).1,
    followsAs_of_runs fun wider (_ : Within .generous wider) n out => (hru wider _ out).2⟩

/-! ### A loop that counts -/

/-- While a variable is below two, say a word and increment the variable.  The last stack is this unfolded. -/
def countsToTwo : Store :=
  let s := (Store.empty.addBlock (named "get-var") [.text "n"]).2
  let s := (s.addBlock (named "<") [.block ⟨0⟩, .int 2]).2
  let s := (s.addBlock (named "print") [.text "tick"]).2
  let s := (s.addBlock (named "increment") [.text "n", .int 1]).2
  let s := (s.addStack [⟨2⟩, ⟨3⟩] none).2
  let s := (s.addBlock (named "while") [.block ⟨1⟩, .stack ⟨1⟩]).2
  let s := (s.addStack [⟨4⟩] none).2
  let s := (s.addStack [⟨2⟩, ⟨3⟩, ⟨4⟩] none).2
  let s := (s.addBlock (named "if") [.block ⟨1⟩, .stack ⟨3⟩]).2
  (s.addStack [⟨5⟩] none).2

/-- The variable is zero. -/
def fromZero : Scene :=
  { env := { globals := [(.text "n", .int 0)] } }

theorem countsToTwo_round (d : BlockId → Act Value) :
    Stops countsToTwo d [.stack ⟨1⟩] fromZero
      (.finished, { env := { globals := [(.text "n", .float 1)], output := #["tick"] } }) := by
  repeat first | refine .on rfl ?_ | refine .gave rfl ?_
  exact ⟨0, fun _ => ⟨[], .done rfl⟩⟩

theorem countsToTwo_unfolds :
    FollowsAs countsToTwo (program ⟨2⟩) fromZero (program ⟨4⟩) fromZero ∧
      FollowsAs countsToTwo (program ⟨4⟩) fromZero (program ⟨2⟩) fromZero := by
  have hco (id : BlockId) (hid : Value.block ⟨1⟩ = .block id) : countsToTwo.DicelessWithin 2 id := by
    cases hid
    refine ⟨⟨named_mem "<" rfl, rfl, by decide⟩, fun b hb => ?_⟩
    obtain rfl : b = ⟨0⟩ := by simpa using (show Value.block b ∈ [.block ⟨0⟩, .int 2] from hb)
    refine ⟨⟨named_mem "get-var" rfl, rfl, by decide⟩, fun b hb => ?_⟩
    have hb : Value.block b ∈ [.text "n"] := hb
    simp at hb
  have hbo : countsToTwo.StackWithin 2 ⟨1⟩ := by
    change ∀ b ∈ [⟨2⟩, ⟨3⟩], countsToTwo.BlockWithin 2 b
    simp only [List.forall_mem_cons]
    refine ⟨⟨.inl (named_mem "print" rfl), ?_⟩, ⟨.inl (named_mem "increment" rfl), ?_⟩, nofun⟩
    · rintro (_ | i) v ⟨⟩
      rfl
    · rintro (_ | _ | i) v ⟨⟩ <;> rfl
  refine while_unfolds rfl ?_ rfl rfl rfl rfl rfl rfl rfl nofun hco hbo fun limits x hx => ?_
  · simp [Scene.Plain, fromZero, Value.plain]
  · exact (confinedFor_succ (k := 0) (countsToTwo_round _) trivial x hx).1

end Run

end BlockStudio
