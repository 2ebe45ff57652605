import BlockStudio.Proofs.Fuel
import BlockStudio.Proofs.PlainScene

/-!
# Programs of finite nesting

A program of the catalogue is nested to some finite depth: blocks stand in the slots of blocks, and
bodies stand in the slots that are made for them.  What a running program of this kind works on is
again made of such parts, and as long as its variables hold plain values they go on doing so.
-/

namespace BlockStudio

open List

variable {v : Value} {d : Definition} {c : Component} {n : Nat} {id : BlockId} {tasks ts : List Task}
  {action : Action} {params : List Value}

/-- A definition of the catalogue, or a stand-in without slots. -/
def Definition.Known (d : Definition) : Prop :=
  d ∈ Catalogue.blocks ∨ d.action = .inert ∧ d.inputs = []

namespace Store

variable (s : Store)

/-- A block of the catalogue that is nested to a depth below `n`.  Only slots for bodies hold
stacks. -/
def BlockWithin : Nat → BlockId → Prop
  | 0, _ => False
  | n + 1, id =>
    (s.definitionOf id).Known ∧ ∀ (i : Nat) (v : Value), (s.block id).values[i]? = some v →
        match v with
        | .block b => BlockWithin n b
        | .stack t =>
          (∀ c, (s.definitionOf id).inputs[i]? = some c → c.kind = .statement) ∧
            ∀ b ∈ s.blocksOf t, BlockWithin n b
        | v => v.plain = true

/-- A stack of blocks that are nested to a depth below `n`. -/
def StackWithin (n : Nat) (t : StackId) : Prop := ∀ b ∈ s.blocksOf t, s.BlockWithin n b

end Store

/-! ## The slots of the catalogue -/

/-- The empty stack that an unfilled body stands for. -/
def Value.isBlank : Value → Bool
  | .stack t => t == blankStack
  | _ => false

theorem Value.eq_of_isBlank (h : v.isBlank = true) : v = .stack blankStack := by
  cases v <;> simp_all [Value.isBlank]

theorem known_default (hd : d.Known) (hc : c ∈ d.inputs) :
    c.default.plain = true ∨ c.kind = .statement ∧ c.default = .stack blankStack := by
  have hca : ∀ d ∈ Catalogue.blocks, ∀ c ∈ d.inputs,
      c.default.plain = true ∨ c.kind = .statement ∧ c.default.isBlank = true := by
    decide +kernel
  obtain hd | ⟨-, hd⟩ := hd
  · exact (hca d hd c hc).imp_right fun h => ⟨h.1, Value.eq_of_isBlank h.2⟩
  · simp [hd] at hc

/-- The blocks that hand on what stands in their slots have no slot for a body. -/
theorem known_no_body (hd : d.Known) (ha : d.action = .setVariable ∨ d.action = .and ∨ d.action = .or)
    (hc : c ∈ d.inputs) : c.kind ≠ .statement := by
  have hca : ∀ d ∈ Catalogue.blocks, (d.action = .setVariable ∨ d.action = .and ∨ d.action = .or) →
        ∀ c ∈ d.inputs, c.kind ≠ .statement := by
    decide +kernel
  obtain hd | ⟨-, hd⟩ := hd
  · exact hca d hd ha c hc
  · simp [hd] at hc

namespace Run

/-! ## Tasks of finite nesting -/

/-- An evaluated slot: a plain value, or the stack of a body. -/
def ArgWithin (store : Store) (n : Nat) (v : Value) : Prop :=
  v.plain = true ∨ ∃ t, v = .stack t ∧ store.StackWithin n t

/-- A task that works on parts nested to a depth below `n`. -/
def TaskWithin (store : Store) (n : Nat) : Task → Prop
  | .fresh id action params =>
    action = (store.definitionOf id).action ∧ store.BlockWithin (n + 1) id ∧
      (∀ v ∈ params, ArgWithin store n v) ∧
      (action = .setVariable ∨ action = .and ∨ action = .or → ∀ v ∈ params, v.plain = true)
  | .body params _ | .counted _ params | .guarded params | .retelling _ params =>
    ∀ v ∈ params, ArgWithin store n v
  | .listed items params => (∀ v ∈ items, v.plain = true) ∧ ∀ v ∈ params, ArgWithin store n v
  | .conditional id params => store.BlockWithin (n + 1) id ∧ ∀ v ∈ params, ArgWithin store n v
  | .stack t => store.StackWithin n t
  | .row row next => ∀ b ∈ (store.row row).drop next, store.BlockWithin n b
  | .sleeping | .letters _ => True

/-- A task of finite nesting. -/
def Formed (store : Store) (t : Task) : Prop := ∃ n, TaskWithin store n t

/-- A move to tasks of finite nesting, and to a plain value if it gives one. -/
def MoveFormed (store : Store) : Move → Prop
  | .give v ts => v.plain = true ∧ ∀ t ∈ ts, Formed store t
  | .go ts => ∀ t ∈ ts, Formed store t

variable {store : Store} {α : Type}

theorem itemAt?_natCast (items : List α) (i : Nat) : itemAt? items i = items[i]? := by
  unfold itemAt?
  by_cases h : i < items.length
  · simp [placeIn_natCast h]
  · have : placeIn items.length i = none := by
      unfold placeIn
      grind
    rw [this, getElem?_eq_none (by omega)]
    rfl

theorem input?_natCast (d : Definition) (i : Nat) : d.input? i = d.inputs[i]? :=
  itemAt?_natCast d.inputs i

/-! ## Evaluating slots -/

section

variable {d : BlockId → Act Value} (hblank : store.blocksOf blankStack = [])
  (hd : ∀ n id, store.BlockWithin n id → Ensures (fun v => v.plain = true) (d id))
include hblank hd

/-- A stack that stands in a slot of a block, or the blank one. -/
def StandsIn (store : Store) (id : BlockId) (t : StackId) : Prop :=
  .stack t ∈ (store.block id).values ∨ t = blankStack

/-- A slot gives a plain value, or a stack when it is a slot for a body. -/
theorem ensures_slotValue (hb : store.BlockWithin (n + 1) id) {i : Nat}
    (hv : (store.block id).values[i]? = some v) :
    Ensures (fun v => v.plain = true ∨
        (∀ c, (store.definitionOf id).inputs[i]? = some c → c.kind = .statement) ∧
          ∃ t, v = .stack t ∧ store.StackWithin n t ∧ StandsIn store id t)
      (slotValue d (store.block id) i v) := by
  have hva := hb.2 i v hv
  cases v with
  | block b => exact (hd n b hva).weaken fun _ h => .inl h
  | stack t => exact .pure (.inr ⟨hva.1, t, rfl, hva.2, .inl (mem_of_getElem? hv)⟩)
  | none =>
    refine .ofExcept fun w hw => ?_
    unfold defaultOf at hw
    rw [input?_natCast] at hw
    split at hw
    · rename_i c hc
      cases hw
      refine (known_default hb.1 (mem_of_getElem? hc)).imp_right fun h => ?_
      refine ⟨fun c' hc' => ?_, blankStack, h.2, ?_, .inr rfl⟩
      · rw [Store.definitionOf, hc] at hc'
        cases hc'
        exact h.1
      · simp [Store.StackWithin, hblank]
    · cases hw
  | _ => exact .pure (.inl hva)

/-- The evaluated slots of a block: stacks are only among them when it has a slot for a body, and they
are those of its slots. -/
def ParamsWithin (store : Store) (n : Nat) (id : BlockId) (params : List Value) : Prop :=
  (∀ v ∈ params, ArgWithin store n v) ∧
    ((∀ c ∈ (store.definitionOf id).inputs, c.kind ≠ .statement) → ∀ v ∈ params, v.plain = true) ∧
    ∀ v ∈ params, ∀ t, v = .stack t → StandsIn store id t

theorem ensures_inputs (hb : store.BlockWithin (n + 1) id) (i : Nat) (values : List Value)
    (hv : ∀ j v, values[j]? = some v → (store.block id).values[i + j]? = some v) :
    Ensures (ParamsWithin store n id) (inputs store d (store.block id) i values) := by
  induction values generalizing i with
  | nil => exact .pure ⟨by simp, by simp, by simp⟩
  | cons v rest ih =>
    refine .bind (ensures_slotValue hblank hd hb (hv 0 v rfl)) fun w hw => ?_
    rw [input?_natCast]
    split
    · exact .fail _
    · rename_i c hc
      have hco : Gives (fun w => w.plain = true ∨
          c.kind = .statement ∧ ∃ t, w = .stack t ∧ store.StackWithin n t ∧ StandsIn store id t)
          (convert store c.kind w) := by
        unfold convert
        split
        · exact .map (fun _ => .inl rfl) _
        · exact .ok (.inl rfl)
        · exact .ok (hw.imp_right fun h => ⟨h.1 c hc, h.2⟩)
      refine .bind (.ofExcept fun _ => hco.answer) fun x hx => ?_
      refine .bind (ih (i + 1) fun j u hu => ?_) fun params hp => .pure ⟨?_, ?_, ?_⟩
      · rw [Nat.add_right_comm, Nat.add_assoc]
        exact hv (j + 1) u hu
      · exact forall_mem_cons.2
          ⟨hx.imp_right fun ⟨_, t, ht, hwi, _⟩ => ⟨t, ht, hwi⟩, hp.1⟩
      · intro hno
        have hpl : x.plain = true := hx.resolve_right fun h => hno c (mem_of_getElem? hc) h.1
        exact forall_mem_cons.2 ⟨hpl, hp.2.1 hno⟩
      · refine forall_mem_cons.2 ⟨?_, hp.2.2⟩
        rintro t rfl
        obtain hpl | ⟨-, _, ⟨⟩, -, hs⟩ := hx
        · cases hpl
        · exact hs

/-- What a block hands over when its slots are evaluated: itself, with the stacks of its slots. -/
def BegunWithin (store : Store) (n : Nat) (id : BlockId) : Begun → Prop
  | .tasks ts => ∃ action params, ts = [.fresh id action params] ∧
      TaskWithin store n (.fresh id action params) ∧ ∀ v ∈ params, ∀ t, v = .stack t → StandsIn store id t
  | _ => True

theorem ensures_begin (hb : store.BlockWithin (n + 1) id) :
    Ensures (BegunWithin store n id) (begin store d id) := by
  refine .bind (ensures_inputs hblank hd hb 0 _ fun j v hv => by simpa using hv)
    fun params hp => ?_
  have hf (action : Action) (ha : (store.block id).definition.action = action) :
      BegunWithin store n id (.tasks [.fresh id action params]) :=
    ⟨action, params, rfl, ⟨ha.symm, hb, hp.1,
      fun h => hp.2.1 fun c hc => known_no_body hb.1 (by rwa [← ha] at h) hc⟩, hp.2.2⟩
  split
  · exact .pure trivial
  · exact .throw _
  · exact .throw _
  · exact .throw _
  · refine .bind (.ofExcept fun _ _ => trivial) fun question _ => ?_
    refine .bind (.modify fun s hs => hs) fun _ _ => ?_
    exact .bind .get fun _ _ => .pure trivial
  · exact .pure (hf _ rfl)

end

/-! ## Moves -/

theorem moveFormed_go_of_within (h : ∀ t ∈ ts, TaskWithin store n t) : MoveFormed store (.go ts) :=
  fun t ht => ⟨n, h t ht⟩

/-- The tasks that wait behind a value that a block gives. -/
inductive Leaves (action : Action) (params : List Value) : List Task → Prop
  | nothing : Leaves action params []
  | comparison (negated : Bool) : Leaves action params [.retelling negated params]
  | sleep (h : action = .sleep) : Leaves action params [.sleeping]

theorem Leaves.formed (h : Leaves action params ts) (hp : ∀ v ∈ params, ArgWithin store n v) :
    ∀ t ∈ ts, Formed store t := by
  cases h with
  | nothing => simp
  | comparison => simpa using ⟨n, hp⟩
  | sleep => simpa using ⟨0, trivial⟩

/-- A move that gives a plain value, or ends. -/
def PlainMove (action : Action) (params : List Value) : Move → Prop
  | .give v ts => v.plain = true ∧ Leaves action params ts
  | .go ts => ts = []

/-- The tasks that a block makes way for when it begins. -/
inductive Opens (id : BlockId) (action : Action) (params : List Value) : List Task → Prop
  | done : Opens id action params []
  | counted (left : Nat) : Opens id action params [.counted left params]
  | listed {items : List Value} (h : ∀ v ∈ items, v.plain = true) :
    Opens id action params [.listed items params]
  | conditional (h : action = .whileTrue) : Opens id action params [.conditional id params]
  | body (slot : Nat) : Opens id action params [.body params slot]
  | attempt : Opens id action params [.body params 0, .guarded params]

/-- The first move of a block: a plain value, or tasks to make way for. -/
def FirstMove (id : BlockId) (action : Action) (params : List Value) : Move → Prop
  | .give v ts => v.plain = true ∧ Leaves action params ts
  | .go ts => Opens id action params ts

section

variable {action : Action} {params : List Value} {m : Move}

theorem plainMove_give (h : v.plain = true) : PlainMove action params (.give v []) := ⟨h, .nothing⟩

theorem PlainMove.first (h : PlainMove action params m) : FirstMove id action params m := by
  cases m with
  | give v ts => exact h
  | go ts =>
    rw [show ts = [] from h]
    exact .done

theorem FirstMove.formed (hid : store.BlockWithin (n + 1) id)
    (hp : ∀ v ∈ params, ArgWithin store n v) (h : FirstMove id action params m) :
    MoveFormed store m := by
  cases m with
  | give v ts => exact ⟨h.1, h.2.formed hp⟩
  | go ts =>
    refine moveFormed_go_of_within (n := n) ?_
    cases h with
    | done => simp
    | listed hi => simpa [TaskWithin] using ⟨hi, hp⟩
    | conditional => simpa [TaskWithin] using ⟨hid, hp⟩
    | _ => simpa [TaskWithin] using hp

end

protected theorem Ensures.arg (params : List Value) (i : Nat) :
    Ensures (fun v => v ∈ params) (Act.ofExcept (Operator.arg params i)) :=
  .ofExcept fun _ h => mem_of_getElem? (arg_mem h)

theorem Ensures.ofExcept_true (x : Except Fault α) : Ensures (fun _ => True) (Act.ofExcept x) :=
  .ofExcept fun _ _ => trivial

theorem ensures_sleepOn (params : List Value) : Ensures (PlainMove .sleep params) sleepOn := by
  refine .bind .get fun s hs => ?_
  split
  · exact .bind (.set hs) fun _ _ => .pure ⟨rfl, .sleep rfl⟩
  · exact .pure rfl

theorem ensures_changeBy (action : Action) (params : List Value) (onText : Fault) (f : Float → Float → Float) :
    Ensures (PlainMove action params) (changeBy store params onText f) := by
  refine .bind (.arg params 0) fun name _ => ?_
  have hn : Ensures (fun _ => True) (makeNumeric store name) := by
    refine .bind (ensures_getVariable store name) fun v _ => ?_
    split
    · exact ensures_setVariable store name rfl
    · split
      · exact .pure trivial
      · exact .fail _
  refine .bind hn fun _ _ => ?_
  refine .bind (ensures_getVariable store name) fun v _ => ?_
  refine .bind (.ofExcept_true _) fun amount _ => ?_
  split
  · exact .bind (ensures_setVariable store name rfl) fun _ _ => .pure (plainMove_give rfl)
  · exact .fail _

/-- Throwing dice changes nothing but the dice. -/
theorem roll_dice (env : Environment) (n : Nat) : ∃ dice, (env.roll n).2 = { env with dice } := by
  -- Taken apart first, so that no throw is ever computed.
  cases env
  exact ⟨_, rfl⟩

theorem ensures_random (action : Action) (params : List Value) :
    Ensures (PlainMove action params) (random params) := by
  refine .bind (.ofExcept_true _) fun low _ => ?_
  refine .bind (.ofExcept_true _) fun high _ => ?_
  split
  · exact .fail _
  · refine .bind .get fun s hs => ?_
    obtain ⟨dice, hd⟩ := roll_dice s.env (high - low + 1).toNat
    generalize s.env.roll (high - low + 1).toNat = roll at hd ⊢
    refine .bind (.set ?_) fun _ _ => .pure (plainMove_give rfl)
    rw [hd]
    exact hs

theorem ensures_writeFile (action : Action) (params : List Value) :
    Ensures (PlainMove action params) (writeFile store params) := by
  refine .bind (.ofExcept_true _) fun path _ => ?_
  refine .bind .get fun s hs => ?_
  refine Ensures.bind (.ofExcept_true _) fun folder _ => ?_
  refine Ensures.bind (Ensures.set hs) fun _ _ => ?_
  refine Ensures.bind (.ofExcept_true _) fun contents _ => ?_
  exact Ensures.bind (Ensures.set hs) fun _ _ => Ensures.pure (plainMove_give rfl)

theorem ensures_compareValues (action : Action) (negated : Bool) (params : List Value) :
    Ensures (PlainMove action params) (Act.ofExcept (compareValues store negated params)) := by
  exact .ofExcept fun _ => Meets.answer
    (gives_compareValues (fun _ => ⟨rfl, .comparison negated⟩) fun _ => plainMove_give rfl)

theorem ensures_first (ht : TaskWithin store n (.fresh id action params)) :
    Ensures (FirstMove id action params) (first store id action params) := by
  obtain ⟨-, -, -, hp⟩ := ht
  have hg {v : Value} (hv : v.plain = true) :
      Ensures (FirstMove id action params) (pure (.give v []) : Act Move) :=
    .pure (plainMove_give hv).first
  have hgo {ts : List Task} (hts : Opens id action params ts) :
      Ensures (FirstMove id action params) (pure (.go ts) : Act Move) :=
    .pure hts
  cases action with
  | start => exact hg rfl
  | sleep =>
    refine .bind (.ofExcept_true _) fun time _ => ?_
    refine .bind (.modify fun s hs => hs) fun _ _ => ?_
    exact (ensures_sleepOn params).weaken fun _ => PlainMove.first
  | repeatTimes => exact .bind (.ofExcept_true _) fun k _ => hgo (.counted _)
  | forEach =>
    refine .bind (.arg params 1) fun name _ => ?_
    refine .bind (ensures_getVariable store name) fun v hv => ?_
    refine .bind (.ofExcept fun _ => (gives_walk (fun _ h => h) (fun _ => Value.plainAll_iff.1) hv).answer) fun items hi => ?_
    exact hgo (.listed hi)
  | whileTrue => exact hgo (.conditional rfl)
  | ifThen =>
    refine .bind (.arg params 0) fun c _ => hgo ?_
    split
    · exact .body 1
    · exact .done
  | ifElse => exact .bind (.arg params 0) fun c _ => hgo (.body _)
  | attempt => exact hgo .attempt
  | readFile =>
    refine .bind (.ofExcept_true _) fun path _ => ?_
    refine .bind .get fun s _ => ?_
    exact .bind (.ofExcept_true _) fun _ _ => hg rfl
  | say =>
    refine .bind (.ofExcept_true _) fun line _ => ?_
    exact .bind (.modify fun s hs => hs) fun _ _ => hg rfl
  | writeFile => exact (ensures_writeFile _ params).weaken fun _ => PlainMove.first
  | random => exact (ensures_random _ params).weaken fun _ => PlainMove.first
  | equal => exact (ensures_compareValues _ false params).weaken fun _ => PlainMove.first
  | unequal => exact (ensures_compareValues _ true params).weaken fun _ => PlainMove.first
  | getVariable =>
    refine .bind (.arg params 0) fun name _ => ?_
    exact .bind (ensures_getVariable store name) fun v hv => hg hv
  | setVariable =>
    refine .bind (.arg params 1) fun v hv => ?_
    refine .bind (.arg params 0) fun name _ => ?_
    exact .bind (ensures_setVariable store name (hp (.inl rfl) v hv)) fun _ _ => hg rfl
  | increment => exact (ensures_changeBy _ params _ _).weaken fun _ => PlainMove.first
  | decrement => exact (ensures_changeBy _ params _ _).weaken fun _ => PlainMove.first
  | _ =>
    exact .bind (.ofExcept fun _ =>
      (gives_value (fun _ h => h) store _ params fun h => hp (.inr h)).answer) fun v hv => hg hv

section

variable {d : BlockId → Act Value} (hblank : store.blocksOf blankStack = [])
  (hd : ∀ n id, store.BlockWithin n id → Ensures (fun v => v.plain = true) (d id))
include hblank hd

/-- The tasks of a block that stands in a row: a block about to run, or letters. -/
theorem ensures_enter (hb : store.BlockWithin (n + 1) id) :
    Ensures (fun ts => ∀ t ∈ ts, TaskWithin store n t)
      (begin store d id >>= fun begun => Act.ofExcept (enter begun)) := by
  refine .bind (ensures_begin hblank hd hb) fun begun hbe => .ofExcept ?_
  intro ts hts
  cases begun with
  | tasks ts' =>
    obtain ⟨action, params, rfl, ht, -⟩ := hbe
    cases hts
    simpa using ht
  | line s =>
    cases hts
    simp [TaskWithin]
  | nothing => cases hts

theorem ensures_advance {t : Task} (ht : TaskWithin store n t) :
    Ensures (MoveFormed store) (advance store d t) := by
  have hgo (ts : List Task) (hts : ∀ t ∈ ts, TaskWithin store n t) :
      Ensures (MoveFormed store) (pure (.go ts) : Act Move) :=
    .pure (moveFormed_go_of_within hts)
  have he : Ensures (MoveFormed store) (pure (.go []) : Act Move) := hgo [] (by simp)
  cases t with
  | fresh id action params => exact (ensures_first ht).weaken fun _ => FirstMove.formed ht.2.1 ht.2.2.1
  | body params slot =>
    refine .bind (P := fun ts => ∀ t ∈ ts, TaskWithin store n t)
      (.bind (.arg params slot) fun v hv => ?_) fun ts hts => hgo ts hts
    obtain hpl | ⟨body, rfl, hbo⟩ := ht v hv
    · cases v with
      | block id => cases hpl
      | stack id => cases hpl
      | _ => exact .fail _
    · exact .pure (by simpa [TaskWithin] using hbo)
  | stack id =>
    refine hgo _ fun t ht' => ?_
    rw [mem_singleton.1 ht']
    exact ht
  | row row next =>
    unfold advance
    dsimp only
    split
    · exact he
    · rename_i id hid
      have hdr : (store.row row).drop next = id :: (store.row row).drop (next + 1) :=
        drop_eq_getElem?_toList_append.trans (by rw [hid]; rfl)
      simp only [TaskWithin, hdr, forall_mem_cons] at ht
      obtain ⟨hb, hr⟩ := ht
      cases n with
      | zero => exact hb.elim
      | succ n =>
        rw [← bind_assoc]
        refine .bind (ensures_enter hblank hd hb) fun ts hts => .pure ?_
        intro t ht
        rcases mem_append.1 ht with ht | ht
        · exact ⟨n, hts t ht⟩
        · rw [mem_singleton.1 ht]
          exact ⟨n + 1, hr⟩
  | counted left params =>
    cases left with
    | zero => exact he
    | succ left => exact hgo _ (by simpa [TaskWithin] using ht)
  | listed items params =>
    cases items with
    | nil => exact he
    | cons item items =>
      obtain ⟨hi, hp⟩ := ht
      simp only [forall_mem_cons] at hi
      refine .bind (.arg params 0) fun name _ => ?_
      refine .bind (ensures_setVariable store name hi.1) fun _ _ => hgo _ ?_
      simpa [TaskWithin] using ⟨hp, hi.2, hp⟩
  | conditional id params =>
    obtain ⟨hid, hp⟩ := ht
    have hva : Ensures (fun _ => True) (getValue store d id 0) := by
      unfold getValue
      dsimp only
      split
      · exact .fail _
      · rename_i v hv
        have hv : (store.block id).values[0]? = some v := by
          rw [← itemAt?_natCast]
          exact hv
        exact (ensures_slotValue hblank hd hid hv).weaken fun _ _ => trivial
    refine .bind hva fun c _ => hgo _ ?_
    split
    · simpa [TaskWithin] using ⟨hp, hid, hp⟩
    · simp
  | guarded params => exact he
  | sleeping =>
    refine (ensures_sleepOn []).weaken fun m hm => ?_
    cases m with
    | give v ts => exact ⟨hm.1, hm.2.formed (n := 0) (by simp)⟩
    | go ts =>
      rw [show ts = [] from hm]
      simp [MoveFormed]
  | retelling negated params => exact .bind (.ofExcept_true _) fun _ _ => .pure ⟨rfl, by simp⟩
  | letters cs =>
    cases cs with
    | nil => exact he
    | cons c cs => exact .pure ⟨rfl, by simp [Formed, TaskWithin]⟩

omit hblank hd in
/-- What an exit goes on with is made of waiting tasks, and of the other branch of an attempt. -/
theorem formed_unwind {e : Exit} (hta : ∀ t ∈ tasks, Formed store t) (h : unwind e tasks = some ts) :
    ∀ t ∈ ts, Formed store t := by
  induction tasks with
  | nil => cases h
  | cons t rest ih =>
    obtain ⟨ht, hr⟩ := forall_mem_cons.1 hta
    unfold unwind at h
    split at h
    iterate 3
      · cases h
        exact hr
    iterate 3
      · cases h
        exact hta
    · split at h
      · cases h
        exact forall_mem_cons.2 ⟨ht, hr⟩
      · exact ih hr h
    · exact ih hr h

/-- A step of a formed program leaves a formed program, and gives a plain value. -/
def AnswerFormed (store : Store) : Option (Value × List Task) → Prop
  | none => True
  | some (v, ts) => v.plain = true ∧ ∀ t ∈ ts, Formed store t

theorem ensures_resume (fuel : Nat) (hta : ∀ t ∈ tasks, Formed store t) :
    Ensures (AnswerFormed store) (resume store d fuel tasks) := by
  induction fuel generalizing tasks with
  | zero => exact .throw _
  | succ fuel ih =>
    cases tasks with
    | nil => exact .pure trivial
    | cons t rest =>
      obtain ⟨⟨n, ht⟩, hr⟩ := forall_mem_cons.1 hta
      have ha := ensures_advance hblank hd ht
      have hap (ts : List Task) (hts : ∀ t ∈ ts, Formed store t) :
          ∀ t ∈ ts ++ rest, Formed store t := by
        intro t ht
        exact (mem_append.1 ht).elim (hts t) (hr t)
      constructor
      · intro s s' answer hs h
        rw [resume_cons] at h
        split at h
        · rename_i v ts s1 had
          cases h
          obtain ⟨⟨hv, hts⟩, hs1⟩ := ha.ok hs had
          exact ⟨⟨hv, hap ts hts⟩, hs1⟩
        · rename_i ts s1 had
          obtain ⟨hts, hs1⟩ := ha.ok hs had
          exact (ih (hap ts hts)).ok hs1 h
        · rename_i e s1 had
          split at h
          · rename_i ts hts
            exact (ih (formed_unwind hr hts)).ok (ha.error hs had) h
          · cases h
      · intro s s' e hs h
        rw [resume_cons] at h
        split at h
        · cases h
        · rename_i ts s1 had
          obtain ⟨hts, hs1⟩ := ha.ok hs had
          exact (ih (hap ts hts)).error hs1 h
        · rename_i e s1 had
          split at h
          · rename_i ts hts
            exact (ih (formed_unwind hr hts)).error (ha.error hs had) h
          · cases h
            exact ha.error hs had

omit hd in
protected theorem Ensures.demand (moves fuel n : Nat) (id : BlockId) (hid : store.BlockWithin n id) :
    Ensures (fun v => v.plain = true) (demand store moves fuel id) := by
  induction fuel generalizing n id with
  | zero => exact .throw _
  | succ fuel ih =>
    cases n with
    | zero => exact hid.elim
    | succ n =>
      refine .bind (ensures_begin hblank ih hid) fun begun hb => ?_
      cases begun with
      | nothing => exact .fail _
      | line s => exact .fail _
      | tasks ts =>
        obtain ⟨action, params, rfl, ht, -⟩ := hb
        refine .bind (ensures_resume hblank ih moves (by simpa using ⟨n, ht⟩))
          fun answer ha => ?_
        split
        · exact .fail _
        · cases ha.1
        · exact .pure ha.1

end

end Run

end BlockStudio
