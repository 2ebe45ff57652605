import BlockStudio.Proofs.Reporters

/-!
# What well-fitted reporters give

A tree of reporters is well fitted when every block in a slot gives a type that fits the slot and all
other slots hold literals of their kind.  Evaluating such a tree gives a value of the declared type,
or fails because an operation is not defined on its operands, with exceptions that come from single
blocks of the catalogue:

* `Action.flaw` lists the reporters that always fail: they read a slot that they do not have, need an
  integer where a double stands, or have nothing to run;
* a power or a root can be complex, and a complex number is no operand for arithmetic;
* a connective hands on what a variable in its slots holds, whatever its type.

`Store.MayGive` and `Store.Accounts` say which values and which faults this leaves.
-/

namespace BlockStudio

open Operator

variable {n : Nat} {c id : BlockId} {f : Fault} {v : Value} {k : SlotKind} {action : Action}
  {params : List Value} {s t : Scene}

/-! ## The types of the catalogue -/

/-- The values that a type stands for. -/
def DataType.admits : DataType → Value → Bool
  | .number, .num _ | .text, .text _ | .boolean, .bool _ => true
  | .any, .num _ | .any, .text _ | .any, .bool _ => true
  | _, _ => false

/-- The literals of a slot. -/
def SlotKind.takes : SlotKind → Value → Bool
  | .number, v => DataType.number.admits v
  | .text, v | .varName, v => DataType.text.admits v
  | .boolean, v => DataType.boolean.admits v
  | .any, v => DataType.any.admits v
  | _, _ => false

/-- The kinds of the slots of a reporter. -/
def Action.slotKinds : Action → List SlotKind
  | .add | .subtract | .multiply | .divide | .power | .remainder | .random | .root | .logarithm
  | .greater | .greaterEqual | .less | .lessEqual => [.number, .number]
  | .round | .floor | .ceiling | .absolute | .negate => [.number]
  | .ask | .readFile | .parseNumber | .textLength => [.text]
  | .join | .textContains | .startsWith | .endsWith | .removeAll => [.text, .text]
  | .convertBase => [.text, .number]
  | .charAt => [.number, .text]
  | .inert => [.text, .text, .text]
  | .truth | .not => [.boolean]
  | .and | .or | .xor => [.boolean, .boolean]
  | .equal | .unequal => [.any, .any]
  | .truthOf | .toText => [.any]
  | .getVariable => [.varName]
  | _ => []

/-- The type that a reporter is declared to give. -/
def Action.resultType : Action → DataType
  | .ask | .readFile | .join | .toText | .charAt | .removeAll | .inert => .text
  | .equal | .unequal | .greater | .greaterEqual | .less | .lessEqual | .truth | .not | .and | .or
  | .xor | .truthOf | .textContains | .startsWith | .endsWith => .boolean
  | .getVariable => .any
  | _ => .number

theorem signature_of_reporter {d : Definition} (hd : d ∈ Catalogue.blocks)
    (hr : d.blockType = .reporter) :
    d.inputs.map (·.kind) = d.action.slotKinds ∧ d.outputType = d.action.resultType := by
  have ha : ∀ d ∈ Catalogue.blocks, d.blockType = .reporter →
      d.inputs.map (·.kind) = d.action.slotKinds ∧ d.outputType = d.action.resultType := by
    decide +kernel
  exact ha d hd hr

/-- The fault with which some reporters always end. -/
def Action.flaw : Action → Option Fault
  | .not | .endsWith => some (.outOfRange .list)
  | .convertBase => some .notInteger
  | .ask => some (.notIterator "str")
  | .inert => some (.notIterator "NoneType")
  | _ => none

/-- The reporters that can give a complex number. -/
def Action.isPower : Action → Bool
  | .power | .root => true
  | _ => false

/-- The reporters that hand on what stands in a slot. -/
def Action.isConnective : Action → Bool
  | .and | .or => true
  | _ => false

/-- The faults of operations that are not defined on their operands. -/
def Fault.undefinedOperation : Fault → Bool
  | .floatDivisionByZero | .remainderByZero | .zeroToNegative | .powerRange | .complexRange
  | .mathDomain | .nanToInteger | .infinityToInteger | .beyondFloat | .emptyRange ..
  | .notNumeric _ | .outOfRange .text | .indexTooWide => true
  | _ => false

namespace Store

variable (s : Store)

/-- A well-fitted tree of reporters of the catalogue, nested to a depth below `n`. -/
def FittedWithin : Nat → BlockId → Prop
  | 0, _ => False
  | n + 1, id =>
    s.definitionOf id ∈ Catalogue.blocks ∧ (s.definitionOf id).blockType = .reporter ∧
      (s.block id).values.length = (s.definitionOf id).countInputs ∧
      ∀ (i : Nat) (c : Component) (v : Value), (s.definitionOf id).inputs[i]? = some c →
        (s.block id).values[i]? = some v →
        match v with
        | .block b => c.kind.fits (s.definitionOf b).outputType = true ∧ FittedWithin n b
        | v => c.kind.takes v = true

/-- The blocks of a tree: its root, and those of the trees in the slots. -/
inductive InTree : BlockId → BlockId → Prop
  | root (id : BlockId) : InTree id id
  | slot {id c b : BlockId} (hc : .block c ∈ (s.block id).values) (hb : InTree c b) : InTree id b

/-- What a block of a well-fitted tree can give. -/
inductive MayGive : BlockId → Value → Prop
  /-- A value of the declared type. -/
  | typed {id : BlockId} {v : Value} (h : (s.definitionOf id).outputType.admits v = true) :
    MayGive id v
  /-- A complex power. -/
  | complex {id : BlockId} {re im : Float} (h : (s.definitionOf id).action.isPower = true) :
    MayGive id (.complex re im)
  /-- What a block in a slot of a connective gives. -/
  | handed {id c : BlockId} {v : Value} (h : (s.definitionOf id).action.isConnective = true)
    (hc : .block c ∈ (s.block id).values) (hv : MayGive c v) : MayGive id v

/-- The faults with which a well-fitted tree can end: an operation is not defined on its operands, a
reporter of the tree always ends so, or a power is complex where it should not. -/
def Accounts (id : BlockId) (f : Fault) : Prop :=
  f.undefinedOperation = true ∨ ∃ b, s.InTree id b ∧ ((s.definitionOf b).action.flaw = some f ∨
      (s.definitionOf b).action.isPower = true ∧ f = .notReal "complex")

/-- A number, a text, a truth value, or a complex power of the tree. -/
def Ordinary (id : BlockId) (v : Value) : Prop :=
  DataType.any.admits v = true ∨
    (∃ re im, v = .complex re im) ∧ ∃ b, s.InTree id b ∧ (s.definitionOf b).action.isPower = true

variable {s}

theorem FittedWithin.slot (hid : s.FittedWithin (n + 1) id) (hc : .block c ∈ (s.block id).values) :
    s.FittedWithin n c := by
  obtain ⟨-, -, hl, hs⟩ := hid
  obtain ⟨i, hi⟩ := List.mem_iff_getElem?.1 hc
  have hlt := (List.getElem?_eq_some_iff.1 hi).1
  rw [hl] at hlt
  exact (hs i _ _ (List.getElem?_eq_getElem hlt) hi).2

/-- Connectives are declared to give truth values. -/
theorem FittedWithin.connective (hid : s.FittedWithin n id)
    (h : (s.definitionOf id).action.isConnective = true) :
    (s.definitionOf id).outputType = .boolean := by
  cases n with
  | zero => exact hid.elim
  | succ n =>
    rw [(signature_of_reporter hid.1 hid.2.1).2]
    revert h
    cases (s.definitionOf id).action <;> simp [Action.isConnective, Action.resultType]

theorem Accounts.slot (hc : .block c ∈ (s.block id).values) (h : s.Accounts c f) : s.Accounts id f :=
  h.imp_right fun ⟨b, hb, hf⟩ => ⟨b, .slot hc hb, hf⟩

theorem Accounts.ne_ended (h : s.Accounts id f) : f ≠ .ended := by
  rintro rfl
  obtain h | ⟨b, -, h | ⟨-, h⟩⟩ := h
  · cases h
  · revert h
    cases (s.definitionOf b).action <;> simp [Action.flaw]
  · cases h

theorem Ordinary.slot (hc : .block c ∈ (s.block id).values) (h : s.Ordinary c v) : s.Ordinary id v :=
  h.imp_right fun ⟨hv, b, hb, hp⟩ => ⟨hv, b, .slot hc hb, hp⟩

theorem MayGive.ordinary (h : s.MayGive id v) : s.Ordinary id v := by
  induction h with
  | @typed id v h =>
    left
    generalize (s.definitionOf id).outputType = type at h
    cases type <;> cases v <;> first | rfl | cases h
  | @complex id re im h => exact .inr ⟨⟨re, im, rfl⟩, id, .root id, h⟩
  | handed _ hc _ ih => exact ih.slot hc

theorem Ordinary.isBlock (h : s.Ordinary id v) : v.isBlock = false := by
  obtain h | ⟨⟨re, im, rfl⟩, -⟩ := h
  · cases v <;> first | rfl | cases h
  · rfl

/-- A tree without the blocks that are exceptions: none that always fails, no power or root, and no
connective with a block in its slots that gives anything but a truth value. -/
def Sturdy (s : Store) (id : BlockId) : Prop :=
  ∀ b, s.InTree id b → (s.definitionOf b).action.flaw = none ∧
    (s.definitionOf b).action.isPower = false ∧
    ((s.definitionOf b).action.isConnective = true →
      ∀ c, .block c ∈ (s.block b).values → (s.definitionOf c).outputType = .boolean)

theorem MayGive.admits (h : s.MayGive id v) (hs : s.Sturdy id) (hid : s.FittedWithin n id) :
    (s.definitionOf id).outputType.admits v = true := by
  induction h generalizing n with
  | typed h => exact h
  | @complex id re im h =>
    rw [(hs id (.root id)).2.1] at h
    cases h
  | @handed id c v h hc hv ih =>
    cases n with
    | zero => exact hid.elim
    | succ n =>
      have hg := ih (fun b hb => hs b (.slot hc hb)) (hid.slot hc)
      rwa [(hs id (.root id)).2.2 h c hc, ← hid.connective h] at hg

theorem Accounts.undefined (h : s.Accounts id f) (hs : s.Sturdy id) :
    f.undefinedOperation = true := by
  obtain h | ⟨b, hb, h | ⟨h, -⟩⟩ := h
  · exact h
  · rw [(hs b hb).1] at h
    cases h
  · rw [(hs b hb).2.1] at h
    cases h

end Store

namespace Run

variable {α β : Type} {store : Store} {id : BlockId} {x : Except Fault α}

/-! ## Computations that give typed answers -/

/-- A computation that fails only on operands for which its operation is not defined. -/
abbrev Defined (x : Except Fault α) : Prop :=
  Meets (fun _ => True) (fun f => f.undefinedOperation = true) x

theorem defined_divide (x y : Float) : Defined (divide x y) := by
  unfold divide
  split
  · exact .error rfl
  · exact .ok trivial

theorem defined_naturalLog (x : Float) : Defined (naturalLog x) := by
  unfold naturalLog
  split
  · exact .ok trivial
  · split
    · exact .ok trivial
    · exact .error rfl

theorem defined_logBase (base x : Float) : Defined (logBase base x) :=
  .bind (defined_naturalLog x) fun _ _ => .bind (defined_naturalLog base) fun _ _ =>
    defined_divide _ _

theorem defined_wholeBy (f : Binary → Int) (x : Float) : Defined (wholeBy f x) := by
  unfold wholeBy
  split
  · exact .ok trivial
  · refine .error ?_
    split <;> rfl

theorem defined_complexPower (x y : Float) : Defined (complexPower x y) := by
  unfold complexPower
  dsimp only
  split
  · exact .error rfl
  · exact .ok trivial

theorem defined_finitePower (x y : Float) : Defined (finitePower x y) := by
  unfold finitePower
  split
  · exact defined_complexPower x y
  · dsimp only
    generalize (if x.abs == 1 then (1 : Float) else Float.pow x.abs y) = magnitude
    split
    · exact .error rfl
    · exact .ok trivial

theorem defined_power (x y : Float) : Defined (power x y) := by
  unfold power
  repeat' split
  all_goals first | exact .ok trivial | exact .error rfl | exact defined_finitePower x y

theorem defined_charAt (cs : List Char) (i : Int) :
    Meets (fun v => DataType.text.admits v = true) (fun f => f.undefinedOperation = true)
      (charAt cs i) := by
  unfold charAt
  split
  · exact .error rfl
  · dsimp only
    split
    · exact .ok rfl
    · exact .error rfl

/-! ## Reading values as numbers and as texts -/

protected theorem Meets.toFloat (hv : store.Ordinary id v) :
    Meets (fun _ => True) (store.Accounts id) v.toFloat := by
  obtain hv | ⟨⟨re, im, rfl⟩, b, hb, hp⟩ := hv
  · cases v with
    | num n =>
      cases n with
      | int n =>
        unfold Value.toFloat
        dsimp only
        split
        · exact .error (.inl rfl)
        · exact .ok trivial
      | float x => exact .ok trivial
    | bool b => exact .ok trivial
    | text x =>
      simp only [Value.toFloat]
      split
      · exact .ok trivial
      · exact .error (.inl rfl)
    | _ => cases hv
  · exact .error (.inr ⟨b, hb, .inr ⟨hp, rfl⟩⟩)

theorem meets_isNumeric (hv : store.Ordinary id v) :
    Meets (fun _ => True) (store.Accounts id) v.isNumeric := by
  have ht := Meets.toFloat hv
  unfold Value.isNumeric
  split
  · exact .ok trivial
  · exact .ok trivial
  · split
    · exact .ok trivial
    · rename_i f hf
      split
      · exact .ok trivial
      · exact .error (ht.fault hf)

theorem meets_brief (hv : store.Ordinary id v) :
    Meets (fun _ => True) (store.Accounts id) (store.brief v) := by
  refine .bind (meets_isNumeric hv) fun numeric _ => ?_
  split
  · exact .bind (.toFloat hv) fun _ _ => .ok trivial
  · exact .ok trivial

/-! ## What slots hand over -/

/-- What an evaluated slot of a kind hands over to its block. -/
def Handed (store : Store) (id : BlockId) : SlotKind → Value → Prop
  | .number, v => ∃ x, v = .float x
  | .text, v => ∃ x, v = .text x
  | .varName, v => ∃ x, v = .text x ∧ .text x ∈ (store.block id).values
  | .boolean, v => DataType.boolean.admits v = true ∨
      ∃ c, .block c ∈ (store.block id).values ∧ store.MayGive c v
  | .any, v => store.Ordinary id v
  | _, _ => True

theorem meets_convert_literal (hv : k.takes v = true) (hm : v ∈ (store.block id).values) :
    Meets (Handed store id k) (store.Accounts id) (convert store k v) := by
  cases k with
  | number =>
    have ha : DataType.any.admits v = true := by cases v <;> first | rfl | cases hv
    exact .map (.toFloat (.inl ha)) fun x _ => ⟨x, rfl⟩
  | text => exact .ok ⟨_, rfl⟩
  | varName =>
    cases v with
    | text x => exact .ok ⟨x, rfl, hm⟩
    | _ => cases hv
  | boolean => exact .ok (.inl hv)
  | any => exact .ok (.inl hv)
  | _ => cases hv

theorem meets_convert_given (hc : .block c ∈ (store.block id).values)
    (hf : k.fits (store.definitionOf c).outputType = true) (hv : store.MayGive c v) :
    Meets (Handed store id k) (store.Accounts id) (convert store k v) := by
  cases k with
  | number => exact .map (.toFloat (hv.ordinary.slot hc)) fun x _ => ⟨x, rfl⟩
  | text => exact .ok ⟨_, rfl⟩
  | varName =>
    -- No block fits a slot for the name of a variable.
    revert hf
    cases (store.definitionOf c).outputType <;> simp [SlotKind.fits]
  | boolean => exact .ok (.inr ⟨c, hc, hv⟩)
  | any => exact .ok (hv.ordinary.slot hc)
  | _ => exact .ok trivial

/-- The evaluated slots of a reporter, in number and kind. -/
structure Supplies (store : Store) (id : BlockId) (action : Action) (params : List Value) : Prop where
  /-- There are as many as slots. -/
  length : params.length = action.slotKinds.length
  /-- Each is what its slot hands over. -/
  slot (i : Nat) (k : SlotKind) : action.slotKinds[i]? = some k →
    ∃ w, arg params i = .ok w ∧ Handed store id k w

section

variable {action : Action} {params : List Value} {F : Fault → Prop} {i : Nat}
  (hparams : Supplies store id action params)
include hparams

protected theorem Meets.arg (hk : action.slotKinds[i]? = some k) :
    Meets (Handed store id k) F (arg params i) := by
  obtain ⟨w, ha, hw⟩ := hparams.slot i k hk
  rw [ha]
  exact .ok hw

protected theorem Meets.number (hk : action.slotKinds[i]? = some .number) :
    Meets (fun _ => True) F (number params i) := by
  refine .bind (.arg hparams hk) fun w hw => ?_
  obtain ⟨x, rfl⟩ := hw
  exact .ok trivial

theorem meets_chars (hk : action.slotKinds[i]? = some .text) :
    Meets (fun _ => True) F (chars params i) := by
  refine .bind (.arg hparams hk) fun w hw => ?_
  obtain ⟨x, rfl⟩ := hw
  exact .ok trivial

/-- A slot that the block does not have. -/
theorem meets_arg_beyond (hi : action.slotKinds.length ≤ i) (hF : F (.outOfRange .list)) :
    Meets (fun _ => False) F (arg params i) := by
  unfold arg
  rw [List.getElem?_eq_none (by rw [hparams.length]; exact hi)]
  exact .error hF

end

/-! ## The first move of a well-fitted reporter -/

theorem meets_powerValue (hp : (store.definitionOf id).action.isPower = true)
    (ho : (store.definitionOf id).outputType = .number) (x y : Float) :
    Meets (store.MayGive id) (store.Accounts id) (powerValue x y) := by
  refine .bind ((defined_power x y).weaken (fun _ h => h) fun _ => .inl) fun p _ => ?_
  cases p with
  | real z => exact .ok (.typed (by rw [ho]; rfl))
  | complex re im => exact .ok (.complex hp)

/-- What the operators give for the slots of a well-fitted reporter, one by one. -/
theorem meets_value (hac : (store.definitionOf id).action = action)
    (ho : (store.definitionOf id).outputType = action.resultType)
    (hparams : Supplies store id action params) (hva : action.reports = true)
    (hm : action ∉ [.inert, .ask, .readFile, .random, .equal, .unequal, .getVariable]) :
    Meets (fun v => store.MayGive id v ∧ action.flaw = none) (store.Accounts id)
      (value store action params) := by
  have ht {v : Value} (hv : action.resultType.admits v = true) : store.MayGive id v :=
    .typed (by rw [ho]; exact hv)
  have hfl {f : Fault} (hf : action.flaw = some f) : store.Accounts id f :=
    .inr ⟨id, .root id, .inl (by rw [hac, hf])⟩
  have hd {α : Type} {x : Except Fault α} (hx : Defined x) :
      Meets (fun _ => True) (store.Accounts id) x := hx.weaken (fun _ h => h) fun _ => .inl
  have hp (h : action.isPower = true) (hn : action.resultType = .number)
      (hfl : action.flaw = none) (x y : Float) : Meets
        (fun v => store.MayGive id v ∧ action.flaw = none) (store.Accounts id)
        (powerValue x y) :=
    (meets_powerValue (by rw [hac, h]) (by rw [ho, hn]) x y).weaken
      (fun _ h => ⟨h, hfl⟩) fun _ h => h
  have hh {v : Value} (h : action.isConnective = true) (hbo : action.resultType = .boolean)
      (hfl : action.flaw = none) (hv : Handed store id .boolean v) :
      store.MayGive id v ∧ action.flaw = none := by
    obtain hv | ⟨c, hc, hv⟩ := hv
    · exact ⟨ht (by rw [hbo]; exact hv), hfl⟩
    · exact ⟨.handed (by rw [hac, h]) hc hv, hfl⟩
  cases action with
  | add | subtract | multiply | greater | greaterEqual | less | lessEqual =>
    refine .bind (.number hparams rfl) fun x _ => ?_
    exact .bind (.number hparams rfl) fun y _ => .ok ⟨ht rfl, rfl⟩
  | divide =>
    refine .bind (.number hparams rfl) fun x _ => ?_
    refine .bind (.number hparams rfl) fun y _ => ?_
    exact .map (hd (defined_divide x y)) fun z _ => ⟨ht rfl, rfl⟩
  | power =>
    refine .bind (.number hparams rfl) fun x _ => ?_
    exact .bind (.number hparams rfl) fun y _ => hp rfl rfl rfl x y
  | remainder =>
    refine .bind (.number hparams rfl) fun x _ => ?_
    refine .bind (.number hparams rfl) fun y _ => ?_
    dsimp only
    split
    · exact .error (.inl rfl)
    · exact .ok ⟨ht rfl, rfl⟩
  | round | floor | ceiling =>
    refine .bind (.number hparams rfl) fun x _ => ?_
    exact .map (hd (defined_wholeBy _ x)) fun z _ => ⟨ht rfl, rfl⟩
  | absolute | negate => exact .bind (.number hparams rfl) fun x _ => .ok ⟨ht rfl, rfl⟩
  | root =>
    refine .bind (.number hparams rfl) fun x _ => ?_
    refine .bind (.number hparams rfl) fun n _ => ?_
    exact .bind (hd (defined_divide 1 n)) fun y _ => hp rfl rfl rfl x y
  | logarithm =>
    refine .bind (.number hparams rfl) fun x _ => ?_
    refine .bind (.number hparams rfl) fun base _ => ?_
    exact .bind (hd (defined_logBase base x)) fun z _ => .ok ⟨ht rfl, rfl⟩
  | parseNumber =>
    refine .bind (.arg hparams rfl) fun v hv => ?_
    obtain ⟨x, rfl⟩ := hv
    exact .bind (.toFloat (.inl rfl)) fun z _ => .ok ⟨ht rfl, rfl⟩
  | convertBase =>
    refine .bind (.arg hparams rfl) fun v _ => ?_
    exact .bind (.arg hparams rfl) fun w _ => .error (hfl rfl)
  | truth | truthOf => exact .bind (.arg hparams rfl) fun v _ => .ok ⟨ht rfl, rfl⟩
  | not => exact .bind (meets_arg_beyond hparams (Nat.le_refl _) (hfl rfl)) fun _ h => h.elim
  | and =>
    refine .bind (.arg hparams rfl) fun a ha => ?_
    split
    · exact (Meets.arg hparams rfl).weaken (fun _ => hh rfl rfl rfl) fun _ h => h
    · exact .ok (hh rfl rfl rfl ha)
  | or =>
    refine .bind (.arg hparams rfl) fun a ha => ?_
    split
    · exact .ok (hh rfl rfl rfl ha)
    · exact (Meets.arg hparams rfl).weaken (fun _ => hh rfl rfl rfl) fun _ h => h
  | xor =>
    refine .bind (.arg hparams rfl) fun a _ => ?_
    exact .bind (.arg hparams rfl) fun b _ => .ok ⟨ht rfl, rfl⟩
  | join =>
    refine .bind (.arg hparams rfl) fun a ha => ?_
    obtain ⟨x, rfl⟩ := ha
    refine .bind (meets_brief (.inl rfl)) fun _ _ => ?_
    refine .bind (.arg hparams rfl) fun b hb => ?_
    obtain ⟨y, rfl⟩ := hb
    exact .bind (meets_brief (.inl rfl)) fun _ _ => .ok ⟨ht rfl, rfl⟩
  | toText =>
    refine .bind (.arg hparams rfl) fun v hv => ?_
    exact .bind (meets_brief hv) fun _ _ => .ok ⟨ht rfl, rfl⟩
  | charAt =>
    refine .bind (meets_chars hparams rfl) fun cs _ => ?_
    refine .bind (.number hparams rfl) fun x _ => ?_
    refine .bind (hd (defined_wholeBy _ _)) fun i _ => ?_
    exact (defined_charAt cs i).weaken (fun _ h => ⟨ht h, rfl⟩) fun _ => .inl
  | textLength => exact .bind (meets_chars hparams rfl) fun cs _ => .ok ⟨ht rfl, rfl⟩
  | textContains | startsWith | removeAll =>
    refine .bind (meets_chars hparams rfl) fun cs _ => ?_
    exact .bind (meets_chars hparams rfl) fun ds _ => .ok ⟨ht rfl, rfl⟩
  | endsWith =>
    have hbe := meets_arg_beyond hparams (Nat.le_refl _) (hfl rfl)
    have hch : Meets (fun _ => False) (store.Accounts id) (chars params 2) :=
      .bind hbe fun _ h => h.elim
    exact .bind hch fun _ h => h.elim
  | inert | ask | readFile | random | equal | unequal | getVariable => simp at hm
  | _ => cases hva

/-- The exits with which a well-fitted tree can end. -/
def Accounted (store : Store) (id : BlockId) (e : Exit) : Prop :=
  ∃ f, e = .fault f ∧ store.Accounts id f

theorem Observes.ofMeets {P : α → Prop} (ht : s.Untouched t) (hx : Meets P (store.Accounts id) x) :
    Observes s P (Accounted store id) (Act.ofExcept x t) :=
  .ofExcept ht (fun _ => hx.answer) fun f hf => ⟨f, rfl, hx.fault hf⟩

theorem meets_equalTexts (hparams : Supplies store id action params)
    (hk : action.slotKinds = [.any, .any]) :
    Meets (fun _ => True) (store.Accounts id) (equalTexts store params) := by
  refine .bind (.arg hparams (by rw [hk]; rfl)) fun v hv => ?_
  refine .bind (meets_brief hv) fun x _ => ?_
  refine .bind (.arg hparams (by rw [hk]; rfl)) fun w hw => ?_
  exact .bind (meets_brief hw) fun y _ => .ok trivial

theorem meets_compareValues (hparams : Supplies store id action params)
    (hk : action.slotKinds = [.any, .any]) (negated : Bool) :
    Meets (GivesValue fun v => DataType.boolean.admits v = true) (store.Accounts id)
      (compareValues store negated params) := by
  have hf : action.slotKinds[0]? = some .any := by rw [hk]; rfl
  have hs : action.slotKinds[1]? = some .any := by rw [hk]; rfl
  have hb : Meets (fun _ => True) (store.Accounts id) (bothNumeric params) := by
    refine .bind (.arg hparams hf) fun v hv => ?_
    refine .bind (meets_isNumeric hv) fun numeric _ => ?_
    split
    · exact .bind (.arg hparams hs) fun w hw => meets_isNumeric hw
    · exact .ok trivial
  refine .bind hb fun both _ => ?_
  split
  · have he : Meets (fun _ => True) (store.Accounts id) (equalNumbers params) := by
      refine .bind (.arg hparams hf) fun v hv => ?_
      refine .bind (.toFloat hv) fun x _ => ?_
      refine .bind (.arg hparams hs) fun w hw => ?_
      exact .bind (.toFloat hw) fun y _ => .ok trivial
    exact .bind he fun equal _ => .ok ⟨_, _, rfl, rfl⟩
  · exact .bind (meets_equalTexts hparams hk) fun equal _ => .ok ⟨_, _, rfl, rfl⟩

/-- The first move of a reporter whose slots are well fitted: the operators, and the reporters that
look at the scene. -/
theorem observes_fitted_first (ha : (store.definitionOf id).action = action)
    (ho : (store.definitionOf id).outputType = action.resultType)
    (hparams : Supplies store id action params) (hr : action.reports = true)
    (hi : action ≠ .inert) (has : action ≠ .ask) (ht : s.Untouched t)
    (hva : action = .getVariable → ∀ x, .text x ∈ (store.block id).values →
      ∃ v, t.env.get store (.text x) = .ok v ∧ DataType.any.admits v = true)
    (hf : action = .readFile → ∀ x, params = [.text x] → ∃ text, t.folder.readText x = .ok text) :
    Observes s (GivesValue fun v => store.MayGive id v ∧ action.flaw = none) (Accounted store id)
      (first store id action params t) := by
  have hty {v : Value} (hv : action.resultType.admits v = true) : store.MayGive id v :=
    .typed (by rw [ho]; exact hv)
  have hd {α : Type} {x : Except Fault α} (hx : Defined x) :
      Meets (fun _ => True) (store.Accounts id) x := hx.weaken (fun _ h => h) fun _ => .inl
  have hc (hki : action.slotKinds = [.any, .any]) (hbo : action.resultType = .boolean)
      (hfl : action.flaw = none) (negated : Bool) :
      Observes s (GivesValue fun v => store.MayGive id v ∧ action.flaw = none)
        (Accounted store id) (Act.ofExcept (compareValues store negated params) t) := by
    refine .ofMeets ht ((meets_compareValues hparams hki negated).weaken ?_ fun _ h => h)
    rintro m ⟨v, ts, rfl, hv⟩
    exact ⟨v, ts, rfl, hty (by rw [hbo]; exact hv), hfl⟩
  have hco (hm : action ∉
      [.inert, .ask, .readFile, .random, .equal, .unequal, .getVariable]) :
      Observes s (GivesValue fun v => store.MayGive id v ∧ action.flaw = none)
        (Accounted store id) ((Act.ofExcept (value store action params) >>= fun v =>
          pure (.give v [])) t) := by
    have hvl := meets_value ha ho hparams hr hm
    exact .bind (.ofMeets ht hvl) fun v u _ hv hu => .pure hu ⟨v, [], rfl, hv⟩
  cases action with
  | readFile =>
    obtain ⟨w, har, x, rfl⟩ := hparams.slot 0 .text rfl
    have hs : params = [.text x] := by
      have hl : params.length = 1 := hparams.length
      obtain ⟨v, rfl⟩ := List.length_eq_one_iff.1 hl
      cases har
      rfl
    obtain ⟨text, hte⟩ := hf rfl x hs
    have hch : chars params 0 = .ok x.toList := by
      unfold chars
      rw [har]
      rfl
    have hru : first store id .readFile params t = .ok (.give (.text text) []) t := by
      unfold first
      simp only [hch]
      show (Act.ofExcept (t.folder.readText (String.ofList x.toList)) >>= fun text =>
        pure (Move.give (.text text) [])) t = _
      rw [String.ofList_toList, hte]
      rfl
    rw [hru]
    exact .pure ht ⟨_, [], rfl, hty rfl, rfl⟩
  | random =>
    have hb (i : Nat) (hk : Action.random.slotKinds[i]? = some .number) :
        Meets (fun _ => True) (store.Accounts id) (number params i >>= wholeBy Binary.trunc) :=
      .bind (.number hparams hk) fun x _ => hd (defined_wholeBy _ x)
    refine .bind (.ofMeets ht (hb 0 rfl)) fun low u _ _ hu => ?_
    refine .bind (.ofMeets hu (hb 1 rfl)) fun high u _ _ hu => ?_
    split
    · exact .throw hu ⟨_, rfl, .inl rfl⟩
    · exact .pure (untouched_roll hu (high - low + 1).toNat) ⟨_, [], rfl, hty rfl, rfl⟩
  | getVariable =>
    obtain ⟨w, har, x, rfl, hx⟩ := hparams.slot 0 .varName rfl
    obtain ⟨v, hg, hv⟩ := hva rfl x hx
    have hru : first store id .getVariable params t = .ok (.give v []) t := by
      unfold first
      simp only [har]
      show (Act.ofExcept (t.env.get store (.text x)) >>= fun v => pure (Move.give v [])) t = _
      rw [hg]
      rfl
    rw [hru]
    exact .pure ht ⟨v, [], rfl, hty hv, rfl⟩
  | equal => exact hc rfl rfl rfl false
  | unequal => exact hc rfl rfl rfl true
  | inert => exact absurd rfl hi
  | ask => exact absurd rfl has
  | start | sleep | repeatTimes | forEach | whileTrue | ifThen | ifElse | attempt | breakLoop
  | continueLoop | quit | say | writeFile | setVariable | increment | decrement => cases hr
  | _ => exact hco (by simp)

/-! ## Well-fitted trees -/

/-- Evaluating a block in a scene comes to a block in another scene, through the slots. -/
inductive Comes (store : Store) : BlockId × Scene → BlockId × Scene → Prop
  | here (c : BlockId × Scene) : Comes store c c
  | slot {b id : BlockId} {s u : Scene} {c : BlockId × Scene} (h : SlotAsks store b s id u)
    (hc : Comes store (id, u) c) : Comes store (b, s) c

theorem Comes.inTree {c c' : BlockId × Scene} (h : Comes store c c') : store.InTree c.1 c'.1 := by
  induction h with
  | here c => exact .root c.1
  | slot ha _ ih =>
    obtain ⟨_, before, after, _, hv, -⟩ := ha
    exact .slot (by simp [hv]) ih

/-- The variables that a tree reads are there and hold numbers, texts or truth values. -/
def VariablesServe (store : Store) (id : BlockId) (s : Scene) : Prop :=
  ∀ b, store.InTree id b → (store.definitionOf b).action = .getVariable →
    ∀ x, .text x ∈ (store.block b).values →
      ∃ v, s.env.get store (.text x) = .ok v ∧ DataType.any.admits v = true

/-- The files that the evaluation of a tree comes to read are in a folder. -/
def FilesServe (store : Store) (folder : Folder) (id : BlockId) (s : Scene) : Prop :=
  ∀ b u, Comes store (id, s) (b, u) → (store.definitionOf b).action = .readFile →
    ∀ limits path u', inputs store (ask store limits) (store.block b) 0 (store.block b).values u =
      .ok [.text path] u' → ∃ text, folder.readText path = .ok text

/-- A slot of a well-fitted block hands over what its kind asks for. -/
theorem observes_fitted_slot {d : BlockId → Act Value} {i : Nat} {c : Component}
    (hc : (store.definitionOf id).inputs[i]? = some c) (hm : v ∈ (store.block id).values)
    (ht : s.Untouched t) (hl : v.isBlock = false → c.kind.takes v = true)
    (hb : ∀ b, v = .block b → c.kind.fits (store.definitionOf b).outputType = true ∧
      Observes s (store.MayGive b) (Accounted store b) (d b t)) :
    Observes s (fun ps => ∃ w, ps = [w] ∧ Handed store id c.kind w) (Accounted store id)
      (inputs store d (store.block id) i [v] t) := by
  have hs : Observes s
      (fun w => Meets (Handed store id c.kind) (store.Accounts id) (convert store c.kind w))
      (Accounted store id) (slotValue d (store.block id) i v t) := by
    cases v with
    | block b =>
      obtain ⟨hfi, hg⟩ := hb b rfl
      refine hg.weaken (fun w hw => meets_convert_given hm hfi hw) ?_
      rintro e ⟨f, rfl, hf⟩
      exact ⟨f, rfl, hf.slot hm⟩
    | none =>
      have hn := hl rfl
      revert hn
      cases c.kind <;> simp [SlotKind.takes, DataType.admits]
    | _ => exact .pure ht (meets_convert_literal (hl rfl) hm)
  refine .bind hs fun w u _ hw hu => ?_
  have hi : (store.block id).definition.input? i = some c := (input?_natCast _ _).trans hc
  simp only [hi]
  refine .bind (.ofMeets hu hw) fun w u _ hw hu => ?_
  exact .bind (.pure (P := fun ps => ps = []) hu rfl) fun ps u _ hps hu =>
    .pure hu ⟨w, by rw [hps], hw⟩

/-- The slots of a well-fitted block hand over what its action needs. -/
theorem supplies_of_slots (hd : store.definitionOf id ∈ Catalogue.blocks)
    (hr : (store.definitionOf id).blockType = .reporter)
    (hl : params.length = (store.definitionOf id).countInputs)
    (hs : ∀ (i : Nat) (w : Value), params[i]? = some w →
      ∀ c : Component, (store.definitionOf id).inputs[i]? = some c → Handed store id c.kind w) :
    Supplies store id (store.definitionOf id).action params := by
  have hki := (signature_of_reporter hd hr).1
  constructor
  · rw [hl, ← hki, List.length_map]
    rfl
  · intro i k hk
    rw [← hki, List.getElem?_map, Option.map_eq_some_iff] at hk
    obtain ⟨c, hc, rfl⟩ := hk
    have hi : i < params.length := by
      rw [hl]
      exact (List.getElem?_eq_some_iff.1 hc).1
    have hw := List.getElem?_eq_getElem hi
    exact ⟨params[i], by simp [arg, hw], hs i _ hw c hc⟩

/-- The slots of a well-fitted block, when the blocks in them give what they may. -/
theorem observes_fitted_inputs (moves fuel : Nat) (hid : store.FittedWithin (n + 1) id)
    (ht : s.Untouched t)
    (hi : ∀ b u, .block b ∈ (store.block id).values → SlotAsks store id t b u →
      s.Untouched u → store.FittedWithin n b →
      Observes s (store.MayGive b) (Accounted store b) (demand store moves fuel b u)) :
    Observes s (Supplies store id (store.definitionOf id).action) (Accounted store id)
      (inputs store (demand store moves fuel) (store.block id) 0 (store.block id).values t) := by
  obtain ⟨hd, hr, hl, hs⟩ := hid
  refine (observes_inputs (P := fun i w => ∀ c : Component,
    (store.definitionOf id).inputs[i]? = some c → Handed store id c.kind w) ht ?_).weaken
    (fun ps hps => supplies_of_slots hd hr (hps.1.trans hl) hps.2) fun _ h => h
  intro before v after params u hva hru hu
  have hv : (store.block id).values[before.length]? = some v := by simp [hva]
  have hm : v ∈ (store.block id).values := by simp [hva]
  obtain ⟨c, hc⟩ : ∃ c, (store.definitionOf id).inputs[before.length]? = some c := by
    refine ⟨_, List.getElem?_eq_getElem ?_⟩
    have hlt := (List.getElem?_eq_some_iff.1 hv).1
    rwa [hl] at hlt
  have hf := hs before.length c v hc hv
  refine (observes_fitted_slot hc hm hu (fun hv => ?_) fun b hb => ?_).weaken ?_ fun _ h => h
  · cases v with
    | block b => cases hv
    | _ => exact hf
  · subst hb
    have ha : SlotAsks store id t b u := ⟨⟨fuel, moves⟩, before, after, params, hva, hru⟩
    exact ⟨hf.1, hi b u hm ha hu hf.2⟩
  · rintro ps ⟨w, rfl, hw⟩
    refine ⟨w, rfl, fun c' hc' => ?_⟩
    rw [hc] at hc'
    cases hc'
    exact hw

/-- By induction on the nesting of a well-fitted tree. -/
theorem observes_fitted {moves fuel : Nat} (hmo : 0 < moves) (hid : store.FittedWithin n id)
    (hfu : n ≤ fuel) (ht : s.Untouched t) (hva : VariablesServe store id s)
    (hfi : FilesServe store s.folder id t) :
    Observes s (fun v => store.MayGive id v ∧ (store.definitionOf id).action.flaw = none)
      (Accounted store id) (demand store moves fuel id t) := by
  induction n generalizing fuel id t with
  | zero => exact hid.elim
  | succ n ih =>
    obtain ⟨fuel, rfl⟩ : ∃ k, fuel = k + 1 := ⟨fuel - 1, by omega⟩
    have hs := observes_fitted_inputs moves fuel hid ht
      fun b u hm ha hu hb => (ih hb (by omega) hu
        (fun b' hb' => hva b' (.slot hm hb'))
        fun b' u' hc => hfi b' u' (.slot ha hc)).weaken (fun _ h => h.1) fun _ h => h
    obtain ⟨hd, hr, -, -⟩ := hid
    have hre := reports_of_reporter hd hr
    have ho := (signature_of_reporter hd hr).2
    have hfl {f : Fault} (hf : (store.definitionOf id).action.flaw = some f) :
        Accounted store id (.fault f) := ⟨f, rfl, .inr ⟨id, .root id, .inl hf⟩⟩
    refine observes_demand hre hs (fun v hv => hv.1.ordinary.isBlock) ?_
      (fun h => by omega) (fun h => hfl (by rw [h]; rfl))
      (fun h => ⟨hfl (by rw [h]; rfl), fun params hparams f hf => ⟨f, rfl, ?_⟩⟩) ?_
    · rintro e ⟨f, rfl, hf⟩
      refine ⟨f, ?_, hf⟩
      cases f <;> first | rfl | exact absurd rfl hf.ne_ended
    · have hq : Meets (fun _ => True) (store.Accounts id)
          (arg params 0 >>= store.brief) := by
        refine .bind (.arg hparams (by rw [h]; rfl)) fun w hw => ?_
        obtain ⟨x, rfl⟩ := hw
        exact meets_brief (.inl rfl)
      exact hq.fault hf
    · intro params u hru hparams hu hi has
      refine observes_fitted_first rfl ho hparams hre hi has hu (fun h x hx => ?_)
        fun h x hx => ?_
      · obtain ⟨v, hg, hv⟩ := hva id (.root id) h x hx
        exact ⟨v, by rwa [Environment.get, hu.globals], hv⟩
      · subst hx
        rw [hu.folder]
        exact hfi id t (.here _) h ⟨fuel, moves⟩ x u hru

/-! ## Soundness -/

/-- A well-fitted tree of reporters is evaluated where the variables and files that it reads are
there, within bounds that are wide enough for it.  It gives a value that it may give, or fails with a
fault that is accounted for; a root that always fails gives no value.  If the blocks that are
exceptions do not occur in the tree, the value is of the declared type, and a failure means that an
operation is not defined on its operands. -/
theorem fitted_reporters_sound {s : Scene} {n : Nat} {limits : Limits}
    (hid : store.FittedWithin n id) (hvariables : VariablesServe store id s)
    (hfiles : FilesServe store s.folder id s) (hdepth : n ≤ limits.depth) (hmoves : 0 < limits.moves) :
    ((∃ v t, ask store limits id s = .ok v t ∧ store.MayGive id v ∧
        (store.definitionOf id).action.flaw = none) ∨
      ∃ f t, ask store limits id s = .error (.fault f) t ∧ store.Accounts id f) ∧
    (store.Sturdy id → (∃ v t, ask store limits id s = .ok v t ∧
        (store.definitionOf id).outputType.admits v = true) ∨
      ∃ f t, ask store limits id s = .error (.fault f) t ∧ f.undefinedOperation = true) := by
  have h := observes_fitted hmoves hid hdepth (.refl s) hvariables hfiles
  cases hr : ask store limits id s with
  | ok v t =>
    have hv := h.answer hr
    exact ⟨.inl ⟨v, t, rfl, hv⟩, fun hsturdy => .inl ⟨v, t, rfl, hv.1.admits hsturdy hid⟩⟩
  | error e t =>
    obtain ⟨f, rfl, hf⟩ := h.exit hr
    exact ⟨.inr ⟨f, t, rfl, hf⟩, fun hsturdy => .inr ⟨f, t, rfl, hf.undefined hsturdy⟩⟩

/-- What a file says, joined with the text of a variable. -/
def report : Store :=
  let s := (Store.empty.addBlock (named "read-file") [.text "notes.txt"]).2
  let s := (s.addBlock (named "get-var") [.text "x"]).2
  let s := (s.addBlock (named "parse-text") [.block ⟨1⟩]).2
  (s.addBlock (named "join") [.block ⟨0⟩, .block ⟨2⟩]).2

/-- The file is there, and the variable holds a truth value. -/
def reportScene : Scene where
  env := { globals := [(.text "x", .bool true)] }
  folder := Folder.empty.put "notes.txt" (.text "x: ")

theorem report_fitted : report.FittedWithin 3 ⟨3⟩ := by
  have hf : report.FittedWithin 2 ⟨0⟩ := by
    refine ⟨named_mem "read-file" rfl, rfl, rfl, fun i c v hc hv => ?_⟩
    match i with
    | 0 => cases hc; cases hv; rfl
    | i + 1 => cases hv
  have hva : report.FittedWithin 1 ⟨1⟩ := by
    refine ⟨named_mem "get-var" rfl, rfl, rfl, fun i c v hc hv => ?_⟩
    match i with
    | 0 => cases hc; cases hv; rfl
    | i + 1 => cases hv
  have ht : report.FittedWithin 2 ⟨2⟩ := by
    refine ⟨named_mem "parse-text" rfl, rfl, rfl, fun i c v hc hv => ?_⟩
    match i with
    | 0 => cases hc; cases hv; exact ⟨rfl, hva⟩
    | i + 1 => cases hv
  refine ⟨named_mem "join" rfl, rfl, rfl, fun i c v hc hv => ?_⟩
  match i with
  | 0 => cases hc; cases hv; exact ⟨rfl, hf⟩
  | 1 => cases hc; cases hv; exact ⟨rfl, ht⟩
  | i + 2 => cases hv

theorem report_inTree {b : BlockId} (h : report.InTree ⟨3⟩ b) :
    b = ⟨0⟩ ∨ b = ⟨1⟩ ∨ b = ⟨2⟩ ∨ b = ⟨3⟩ := by
  have hl {c : BlockId} {x : String} (hc : (report.block c).values = [.text x])
      (h : report.InTree c b) : b = c := by
    cases h with
    | root => rfl
    | slot hm _ => simp [hc] at hm
  cases h with
  | root => exact .inr (.inr (.inr rfl))
  | @slot _ c _ hc h =>
    obtain rfl | rfl : c = ⟨0⟩ ∨ c = ⟨2⟩ := by
      simpa using (show Value.block c ∈ [.block ⟨0⟩, .block ⟨2⟩] from hc)
    · exact .inl (hl rfl h)
    · cases h with
      | root => exact .inr (.inr (.inl rfl))
      | @slot _ c _ hc h =>
        obtain rfl : c = ⟨1⟩ := by simpa using (show Value.block c ∈ [.block ⟨1⟩] from hc)
        exact .inr (.inl (hl rfl h))

/-- The tree is well fitted and sturdy, its variable and its file are there, and so it gives a
text. -/
theorem report_sound :
    report.FittedWithin 3 ⟨3⟩ ∧ report.Sturdy ⟨3⟩ ∧ VariablesServe report ⟨3⟩ reportScene ∧
      FilesServe report reportScene.folder ⟨3⟩ reportScene ∧
      ((∃ v t, ask report ⟨3, 1⟩ ⟨3⟩ reportScene = .ok v t ∧ DataType.text.admits v = true) ∨
        ∃ f t, ask report ⟨3, 1⟩ ⟨3⟩ reportScene = .error (.fault f) t ∧
          f.undefinedOperation = true) := by
  have hsturdy : report.Sturdy ⟨3⟩ := by
    intro b hb
    obtain rfl | rfl | rfl | rfl := report_inTree hb <;> exact ⟨rfl, rfl, nofun⟩
  have hvariables : VariablesServe report ⟨3⟩ reportScene := by
    intro b hb haction x hx
    obtain rfl | rfl | rfl | rfl := report_inTree hb <;> try cases haction
    obtain rfl : x = "x" := by simpa using (show Value.text x ∈ [.text "x"] from hx)
    exact ⟨.bool true, rfl, rfl⟩
  have hfiles : FilesServe report reportScene.folder ⟨3⟩ reportScene := by
    intro b u hcomes haction limits path u' hrun
    obtain rfl | rfl | rfl | rfl := report_inTree hcomes.inTree <;> try cases haction
    cases hrun
    exact ⟨_, rfl⟩
  exact ⟨report_fitted, hsturdy, hvariables, hfiles,
    (fitted_reporters_sound report_fitted hvariables hfiles (Nat.le_refl _) Nat.zero_lt_one).2 hsturdy⟩

/-- The denial of a truth value. -/
def denial : Store := (Store.empty.addBlock (named "not") [.bool true]).2

/-- The denial is well fitted and reads neither variables nor files, and it always fails, because it
reads a slot that it does not have. -/
theorem denial_always_fails :
    denial.FittedWithin 1 ⟨0⟩ ∧ VariablesServe denial ⟨0⟩ {} ∧ FilesServe denial .empty ⟨0⟩ {} ∧
      ∀ depth moves, ask denial ⟨depth + 1, moves + 1⟩ ⟨0⟩ {} =
        .error (.fault (.outOfRange .list)) {} := by
  have hvalues (b : BlockId) : Value.block b ∉ (denial.block ⟨0⟩).values := by
    have : (denial.block ⟨0⟩).values = [.bool true] := rfl
    simp [this]
  refine ⟨⟨?_, rfl, rfl, ?_⟩, ?_, ?_, fun _ _ => rfl⟩
  · exact named_mem "not" rfl
  · intro i c v hc hv
    match i with
    | 0 =>
      cases hc
      cases hv
      rfl
    | i + 1 => cases hv
  · rintro b (_ | ⟨hc, _⟩) haction
    · cases haction
    · exact absurd hc (hvalues _)
  · rintro b u hcomes haction
    cases hcomes.inTree with
    | root => cases haction
    | slot hc _ => exact absurd hc (hvalues _)

end Run

end BlockStudio
