import BlockStudio.Proofs.Outcome

/-!
# Plain values and plain scenes

A plain value holds no block and no stack, at any depth of lists.  A scene is plain when all its
variables hold plain values.  What operators compute is plain, and so is what a variable of a plain
scene gives; that is why a running program never comes upon a block other than those that stand in
its slots and rows.
-/

namespace BlockStudio

open Operator

/-- A value without blocks and stacks. -/
def Value.plain : Value → Bool
  | .list items => plainAll items
  | .block _ | .stack _ => false
  | _ => true
where
  /-- Values without blocks and stacks. -/
  plainAll : List Value → Bool
    | [] => true
    | v :: rest => v.plain && plainAll rest

theorem Value.plainAll_iff {items : List Value} :
    Value.plain.plainAll items = true ↔ ∀ v ∈ items, v.plain = true := by
  induction items with
  | nil => simp [Value.plain.plainAll]
  | cons v rest ih => simp [Value.plain.plainAll, ih]

/-- Values are shown alike where the blocks and stacks in them are. -/
theorem Store.shownWith_eq {P : Value → Prop} {block block' : BlockId → String}
    {stack stack' : StackId → String} {v : Value} (hl : ∀ items, P (.list items) → ∀ v ∈ items, P v)
    (hb : ∀ b, P (.block b) → block' b = block b) (hs : ∀ t, P (.stack t) → stack' t = stack t)
    (hv : P v) : shownWith block' stack' v = shownWith block stack v := by
  induction v using Value.rec (motive_2 := fun items => (∀ v ∈ items, P v) →
    shownWith.shownItems block' stack' items = shownWith.shownItems block stack items) with
  | list items ih =>
    simp only [shownWith]
    rw [ih (hl items hv)]
  | block b => exact hb b hv
  | stack t => exact hs t hv
  | nil => rfl
  | cons v items ihv ihitems =>
    obtain ⟨hv, hi⟩ := List.forall_mem_cons.1 ‹_›
    simp only [shownWith.shownItems]
    rw [ihv hv, ihitems hi]
  | _ => rfl

/-- All variables hold plain values. -/
def Scene.Plain (s : Scene) : Prop := ∀ g ∈ s.env.globals, g.2.plain = true

namespace Run

variable {α β : Type} {a : α} {P : α → Prop} {v value : Value}

/-- Started in a plain scene, a step leaves a plain scene, and what it answers has a property. -/
structure Ensures (Q : α → Prop) (x : Act α) : Prop where
  /-- A step that ends well. -/
  ok {s s' : Scene} {a : α} : s.Plain → x s = .ok a s' → Q a ∧ s'.Plain
  /-- A step that stops early. -/
  error {s s' : Scene} {e : Exit} : s.Plain → x s = .error e s' → s'.Plain

namespace Ensures

variable {Q : α → Prop} {P : β → Prop}

protected theorem pure (h : Q a) : Ensures Q (pure a : Act α) where
  ok hs := by
    rintro ⟨⟩
    exact ⟨h, hs⟩
  error _ := by rintro ⟨⟩

protected theorem throw (e : Exit) : Ensures Q (throw e : Act α) where
  ok _ := by rintro ⟨⟩
  error hs := by
    rintro ⟨⟩
    exact hs

protected theorem fail (f : Fault) : Ensures Q (Act.fail f) := .throw _

protected theorem ofExcept {x : Except Fault α} (h : ∀ a, x = .ok a → Q a) :
    Ensures Q (Act.ofExcept x) := by
  cases x with
  | ok a => exact .pure (h a rfl)
  | error f => exact .throw _

protected theorem bind {x : Act β} {f : β → Act α} (hx : Ensures P x)
    (hf : ∀ b, P b → Ensures Q (f b)) : Ensures Q (x >>= f) where
  ok hs h := by
    obtain ⟨b, t, hxs, h⟩ := bind_eq_ok.1 h
    obtain ⟨hb, ht⟩ := hx.ok hs hxs
    exact (hf b hb).ok ht h
  error hs h := by
    rcases bind_eq_error.1 h with h | ⟨b, t, hxs, h⟩
    · exact hx.error hs h
    · obtain ⟨hb, ht⟩ := hx.ok hs hxs
      exact (hf b hb).error ht h

protected theorem get : Ensures Scene.Plain (get : Act Scene) where
  ok hs := by
    rintro ⟨⟩
    exact ⟨hs, hs⟩
  error _ := by rintro ⟨⟩

protected theorem set {t : Scene} (ht : t.Plain) : Ensures (fun _ => True) (set t : Act PUnit) where
  ok _ := by
    rintro ⟨⟩
    exact ⟨trivial, ht⟩
  error _ := by rintro ⟨⟩

protected theorem modify {f : Scene → Scene} (hf : ∀ s : Scene, s.Plain → (f s).Plain) :
    Ensures (fun _ => True) (modify f : Act PUnit) where
  ok hs := by
    rintro ⟨⟩
    exact ⟨trivial, hf _ hs⟩
  error _ := by rintro ⟨⟩

protected theorem weaken {R : α → Prop} {x : Act α} (h : Ensures Q x) (hQR : ∀ a, Q a → R a) :
    Ensures R x :=
  ⟨fun hs hx => (h.ok hs hx).imp_left (hQR _), h.error⟩

end Ensures

/-! ## What operators give -/

/-- Every answer has the property `P`, and every fault the property `F`. -/
structure Meets (P : α → Prop) (F : Fault → Prop) (x : Except Fault α) : Prop where
  /-- The property of an answer. -/
  answer {a : α} : x = .ok a → P a
  /-- The property of a fault. -/
  fault {f : Fault} : x = .error f → F f

namespace Meets

variable {P : α → Prop} {Q : β → Prop} {F : Fault → Prop} {x : Except Fault α} {f : Fault}

protected theorem ok {a : α} (h : P a) : Meets P F (.ok a) where
  answer := by
    rintro _ ⟨⟩
    exact h
  fault := by rintro _ ⟨⟩

protected theorem error (h : F f) : Meets P F (.error f) where
  answer := by rintro _ ⟨⟩
  fault := by
    rintro _ ⟨⟩
    exact h

protected theorem bind {f : α → Except Fault β} (hx : Meets P F x) (hf : ∀ a, P a → Meets Q F (f a)) :
    Meets Q F (x >>= f) := by
  cases hxa : x with
  | ok a => exact hf a (hx.answer hxa)
  | error e => exact .error (hx.fault hxa)

protected theorem map {f : α → β} (hx : Meets P F x) (hf : ∀ a, P a → Q (f a)) :
    Meets Q F (f <$> x) := by
  cases hxa : x with
  | ok a => exact .ok (hf a (hx.answer hxa))
  | error e => exact .error (hx.fault hxa)

protected theorem weaken {P' : α → Prop} {F' : Fault → Prop} (hx : Meets P F x) (hP : ∀ a, P a → P' a)
    (hF : ∀ f, F f → F' f) : Meets P' F' x :=
  ⟨fun h => hP _ (hx.answer h), fun h => hF _ (hx.fault h)⟩

end Meets

/-- Every answer has a property. -/
abbrev Gives (P : α → Prop) (x : Except Fault α) : Prop := Meets P (fun _ => True) x

theorem Gives.bind {x : Except Fault β} {f : β → Except Fault α} (h : ∀ b, x = .ok b → Gives P (f b)) :
    Gives P (x >>= f) :=
  Meets.bind ⟨id, fun _ => trivial⟩ h

theorem Gives.map {f : β → α} (h : ∀ b, P (f b)) (x : Except Fault β) : Gives P (f <$> x) :=
  Meets.map ⟨id, fun _ => trivial⟩ fun b _ => h b

theorem arg_mem {params : List Value} {i : Nat} (h : arg params i = .ok v) :
    params[i]? = some v := by
  unfold arg at h
  split at h
  · cases h
    assumption
  · cases h

theorem gives_compareValues {P : Move → Prop} {store : Store} {negated : Bool} {params : List Value}
    (hn : ∀ b, P (.give (.bool b) [.retelling negated params])) (ht : ∀ b, P (.give (.bool b) [])) :
    Gives P (compareValues store negated params) := by
  refine .bind fun both _ => ?_
  split
  · exact .bind fun equal _ => .ok (hn _)
  · exact .bind fun equal _ => .ok (ht _)

section

variable {P : Value → Prop} (hP : ∀ v : Value, v.plain = true → P v)
include hP

theorem gives_powerValue (x y : Float) : Gives P (powerValue x y) := by
  refine .bind fun p _ => ?_
  cases p <;> exact .ok (hP _ rfl)

theorem gives_charAt (cs : List Char) (i : Int) : Gives P (charAt cs i) := by
  unfold charAt
  split
  · exact .error trivial
  · dsimp only
    split
    · exact .ok (hP _ rfl)
    · exact .error trivial

/-- The two connectives hand on what stands in their slots; all other operators compute a value. -/
theorem gives_value (store : Store) (action : Action) (params : List Value)
    (h : action = .and ∨ action = .or → ∀ v ∈ params, P v) :
    Gives P (Operator.value store action params) := by
  have har (i : Nat) (ha : action = .and ∨ action = .or) : Gives P (Operator.arg params i) :=
    ⟨fun hv => h ha _ (List.mem_of_getElem? (arg_mem hv)), fun _ => trivial⟩
  cases action with
  | and =>
    refine .bind fun a ha => ?_
    split
    · exact har 1 (.inl rfl)
    · exact .ok ((har 0 (.inl rfl)).answer ha)
  | or =>
    refine .bind fun a ha => ?_
    split
    · exact .ok ((har 0 (.inr rfl)).answer ha)
    · exact har 1 (.inr rfl)
  | power => exact .bind fun _ _ => .bind fun _ _ => gives_powerValue hP ..
  | root => exact .bind fun _ _ => .bind fun _ _ => .bind fun _ _ => gives_powerValue hP ..
  | charAt => exact .bind fun _ _ => .bind fun _ _ => .bind fun _ _ => gives_charAt hP ..
  | remainder =>
    refine .bind fun _ _ => .bind fun _ _ => ?_
    dsimp only
    split
    · exact .error trivial
    · exact .ok (hP _ rfl)
  | divide => exact .bind fun _ _ => .bind fun _ _ => .map (fun _ => hP _ rfl) _
  | round | floor | ceiling => exact .bind fun _ _ => .map (fun _ => hP _ rfl) _
  | _ =>
    repeat' first
      | exact .ok (hP _ rfl)
      | exact .error trivial
      | refine .bind fun _ _ => ?_

/-- The values that a loop walks through. -/
theorem gives_walk (hl : ∀ items, P (.list items) → ∀ v ∈ items, P v) (hv : P v) :
    Gives (fun items => ∀ v ∈ items, P v) (walk v) := by
  cases v with
  | list items => exact .ok (hl items hv)
  | text s =>
    refine .ok fun v hv => ?_
    obtain ⟨c, -, rfl⟩ := List.mem_map.1 hv
    exact hP _ rfl
  | _ => exact .error trivial

end

/-! ## Variables -/

/-- What all variables hold and the assigned value is, all variables hold afterwards. -/
theorem forall_putGlobal {P : Value → Prop} (store : Store) (name : Value) (hv : P value)
    {globals : List (Value × Value)} (h : ∀ g ∈ globals, P g.2) :
    ∀ g ∈ Environment.putGlobal store name value globals, P g.2 := by
  induction globals with
  | nil => simpa [Environment.putGlobal] using hv
  | cons g rest ih =>
    obtain ⟨n, v⟩ := g
    simp only [List.forall_mem_cons] at h
    unfold Environment.putGlobal
    split
    · exact List.forall_mem_cons.2 ⟨hv, h.2⟩
    · exact List.forall_mem_cons.2 ⟨h.1, ih h.2⟩

theorem ensures_setVariable (store : Store) (name : Value) (hv : value.plain = true) :
    Ensures (fun _ => True) (setVariable store name value) := by
  refine .bind .get fun s hs => ?_
  have hse : Gives (fun env : Environment => ∀ g ∈ env.globals, g.2.plain = true)
      (s.env.set store name value) :=
    .bind fun _ _ => .ok (forall_putGlobal (P := fun v => v.plain = true) store name hv hs)
  exact .bind (.ofExcept fun _ => hse.answer) fun _ he => .set he

/-- What all variables hold, looking one up gives. -/
theorem gives_get {P : Value → Prop} {env : Environment} (h : ∀ g ∈ env.globals, P g.2) (store : Store)
    (name : Value) : Gives P (env.get store name) := by
  refine .bind fun _ _ => ?_
  split
  · rename_i n v hf
    exact .ok (h _ (List.mem_of_find?_eq_some hf))
  · exact .error trivial

theorem ensures_getVariable (store : Store) (name : Value) :
    Ensures (fun v => v.plain = true) (getVariable store name) :=
  .bind .get fun _ hs => .ofExcept fun _ => (gives_get (P := (·.plain = true)) hs store name).answer

end Run

end BlockStudio
