import BlockStudio.Proofs.LoopControl
import BlockStudio.Proofs.SavedTree
import BlockStudio.Proofs.StepTermination
import Mathlib.Data.List.Permutation
import Mathlib.Data.List.Sort

/-!
# The normal form of saved stacks

A saved stack is an object with its blocks and its place, a saved block an object with the name of its
definition and the values of its slots, and values are blocks, stacks or literals, to any depth.  Reading
a saved stack and saving it again gives its normal form: the same, except that each block whose name
matches no definition is replaced by a stand-in, whatever else it holds.  A normal form is read as it
is, and a stack whose blocks use the first definitions of their names comes back from its saved form.

The order of the two fields of an object does not count.  Saving writes them in the order of their names.
-/

namespace BlockStudio

open Saved Catalogue

variable {items js : List Json} {j x y : Json} {fields : List (String × Json)} {a b id : String}
  {d : Definition} {v : Value} {α : Type} {place : Option (List Json)}

namespace Json

/-! ## Literals -/

/-- A value without objects. -/
def isLiteral : Json → Bool
  | object _ => false
  | array items => literals items
  | _ => true
where
  /-- Values without objects. -/
  literals : List Json → Bool
    | [] => true
    | j :: rest => j.isLiteral && literals rest

theorem literals_iff : isLiteral.literals items = true ↔ ∀ j ∈ items, j.isLiteral = true := by
  induction items with
  | nil => simp [isLiteral.literals]
  | cons j rest ih => simp [isLiteral.literals, ih]

/-- Induction over a value and the values right below it. -/
theorem inductionOn {motive : Json → Prop} (null : motive null) (bool : ∀ b, motive (bool b))
    (int : ∀ n, motive (int n)) (float : ∀ x, motive (float x)) (text : ∀ s, motive (text s))
    (array : ∀ items, (∀ j ∈ items, motive j) → motive (array items))
    (object : ∀ fields, (∀ f ∈ fields, motive f.2) → motive (object fields)) (j : Json) : motive j := by
  refine Json.rec (motive_1 := motive) (motive_2 := fun items => ∀ j ∈ items, motive j)
    (motive_3 := fun fields => ∀ f ∈ fields, motive f.2) (motive_4 := fun f => motive f.2)
    null bool int float text array object ?_ ?_ ?_ ?_ ?_ j
  · simp
  · exact fun j rest hj hr => List.forall_mem_cons.2 ⟨hj, hr⟩
  · simp
  · exact fun f rest hf hr => List.forall_mem_cons.2 ⟨hf, hr⟩
  · exact fun _ _ h => h

/-! ## Normal forms -/

/-- The saved form of a stand-in. -/
def retired : Json := object [("definition", text "deprecated"), ("values", array [])]

/-- The fields of a block whose name matches no definition. -/
def isUnknown (definitions : List Definition) (fields : List (String × Json)) : Bool :=
  match fields.lookup "definition" with
  | some (text id) => (find? definitions id).isNone
  | some _ => true
  | none => false

/-- Replace the blocks whose name matches no definition. -/
def settle (definitions : List Definition) : Json → Json
  | array items => array (settleItems items)
  | object fields => if isUnknown definitions fields then retired else object (settleFields fields)
  | j => j
where
  /-- Replace such blocks among items. -/
  settleItems : List Json → List Json
    | [] => []
    | j :: rest => settle definitions j :: settleItems rest
  /-- Replace such blocks in fields. -/
  settleFields : List (String × Json) → List (String × Json)
    | [] => []
    | (name, j) :: rest => (name, settle definitions j) :: settleFields rest

/-- The fields of all objects in the order of their names. -/
def sorted : Json → Json
  | array items => array (sortedItems items)
  | object fields => object ((sortedFields fields).insertionSort fun f g => f.1 ≤ g.1)
  | j => j
where
  /-- Items with sorted fields. -/
  sortedItems : List Json → List Json
    | [] => []
    | j :: rest => sorted j :: sortedItems rest
  /-- Fields with sorted fields. -/
  sortedFields : List (String × Json) → List (String × Json)
    | [] => []
    | (name, j) :: rest => (name, sorted j) :: sortedFields rest

/-- The normal form. -/
def normal (definitions : List Definition) (j : Json) : Json := (j.settle definitions).sorted

section

variable {definitions : List Definition}

theorem settleItems_eq_map (items : List Json) :
    settle.settleItems definitions items = items.map (settle definitions) := by
  induction items with
  | nil => rfl
  | cons j rest ih => rw [settle.settleItems, ih, List.map_cons]

theorem sortedItems_eq_map (items : List Json) : sorted.sortedItems items = items.map sorted := by
  induction items with
  | nil => rfl
  | cons j rest ih => rw [sorted.sortedItems, ih, List.map_cons]

theorem normal_array (items : List Json) :
    (array items).normal definitions = array (items.map (normal definitions)) := by
  rw [normal, settle, settleItems_eq_map, sorted, sortedItems_eq_map, List.map_map]
  rfl

theorem normal_literal (h : j.isLiteral = true) : j.normal definitions = j := by
  induction j using Json.inductionOn with
  | array items ih =>
    have hi := literals_iff.1 h
    rw [normal_array]
    congr 1
    exact (List.map_congr_left fun j hj => ih j hj (hi j hj)).trans (List.map_id _)
  | object fields => cases h
  | _ => rfl

/-- The two fields of an object in either order, sorted. -/
theorem sorted_pair (hab : a ≤ b) (hba : ¬b ≤ a) (h : fields.Perm [(a, x), (b, y)]) :
    (object fields).sorted = object [(a, x.sorted), (b, y.sorted)] := by
  obtain rfl | rfl := List.perm_pair.1 h <;>
    simp [sorted, sorted.sortedFields, List.insertionSort, List.orderedInsert, hab, hba]

theorem normal_pair (hab : a ≤ b) (hba : ¬b ≤ a) (h : fields.Perm [(a, x), (b, y)])
    (hk : isUnknown definitions fields = false) :
    (object fields).normal definitions =
      object [(a, x.normal definitions), (b, y.normal definitions)] := by
  rw [normal, settle, hk]
  refine sorted_pair hab hba ?_
  obtain rfl | rfl := List.perm_pair.1 h
  · exact .refl _
  · exact .swap _ _ _

theorem normal_unknown (h : isUnknown definitions fields = true) :
    (object fields).normal definitions = retired := by
  rw [normal, settle, if_pos h, retired, sorted_pair (by decide) (by decide) (.refl _)]
  rfl

/-! ## Well-formed saved stacks -/

/-- What a saved value stands for. -/
inductive Role where
  /-- What stands in a slot. -/
  | value
  /-- A block. -/
  | block
  /-- A stack. -/
  | stack

/-- The saved form of a place. -/
def ofPlace : Option (List Json) → Json
  | none => null
  | some items => array items

/-- Well-formed saved values.  What a block holds whose name matches no definition does not count. -/
inductive Valid (definitions : List Definition) : Role → Json → Prop
  | literal {j : Json} (h : j.isLiteral = true) : Valid definitions .value j
  | known {fields : List (String × Json)} {id : String} {d : Definition} {values : List Json}
    (hfields : fields.Perm [("definition", text id), ("values", array values)])
    (hd : find? definitions id = some d)
    (hvalues : ∀ j ∈ values, Valid definitions .value j) : Valid definitions .block (object fields)
  | unknown {fields : List (String × Json)} (h : isUnknown definitions fields = true) :
    Valid definitions .block (object fields)
  | stack {fields : List (String × Json)} {blocks : List Json} {place : Option (List Json)}
    (hfields : fields.Perm [("blocks", array blocks), ("pos", ofPlace place)])
    (hblocks : ∀ j ∈ blocks, Valid definitions .block j)
    (hplace : ∀ items ∈ place, ∀ j ∈ items, j.isLiteral = true) :
    Valid definitions .stack (object fields)
  | ofBlock {j : Json} (h : Valid definitions .block j) : Valid definitions .value j
  | ofStack {j : Json} (h : Valid definitions .stack j) : Valid definitions .value j

theorem Valid.value {role : Role} (h : Valid definitions role j) : Valid definitions .value j := by
  cases role with
  | value => exact h
  | block => exact .ofBlock h
  | stack => exact .ofStack h

section

variable {fields : List (String × Json)} {id : String} {values blocks : List Json} {place : Json}

theorem lookup_definition (h : fields.Perm [("definition", text id), ("values", array values)]) :
    fields.lookup "definition" = some (text id) := by
  obtain rfl | rfl := List.perm_pair.1 h <;> rfl

theorem isUnknown_known (h : fields.Perm [("definition", text id), ("values", array values)])
    (hd : find? definitions id = some d) : isUnknown definitions fields = false := by
  simp [isUnknown, lookup_definition h, hd]

theorem lookup_definition_stack (h : fields.Perm [("blocks", array blocks), ("pos", place)]) :
    fields.lookup "definition" = none := by
  obtain rfl | rfl := List.perm_pair.1 h <;> rfl

theorem isUnknown_stack (h : fields.Perm [("blocks", array blocks), ("pos", place)]) :
    isUnknown definitions fields = false := by
  simp [isUnknown, lookup_definition_stack h]

theorem normal_known (h : fields.Perm [("definition", text id), ("values", array values)])
    (hd : find? definitions id = some d) :
    (object fields).normal definitions =
      object [("definition", text id), ("values", array (values.map (normal definitions)))] := by
  rw [normal_pair (by decide) (by decide) h (isUnknown_known h hd), normal_array]
  rfl

theorem normal_place {place : Option (List Json)} (h : ∀ items ∈ place, ∀ j ∈ items, j.isLiteral = true) :
    (ofPlace place).normal definitions = ofPlace place := by
  cases place with
  | none => rfl
  | some items => exact normal_literal (literals_iff.2 (h items rfl))

theorem normal_stack {place : Option (List Json)}
    (h : fields.Perm [("blocks", array blocks), ("pos", ofPlace place)])
    (hp : ∀ items ∈ place, ∀ j ∈ items, j.isLiteral = true) :
    (object fields).normal definitions =
      object [("blocks", array (blocks.map (normal definitions))), ("pos", ofPlace place)] := by
  rw [normal_pair (by decide) (by decide) h (isUnknown_stack h), normal_array, normal_place hp]

end

theorem isUnknown_retired (h : ∀ d ∈ definitions, d.id ≠ "deprecated") :
    isUnknown definitions [("definition", text "deprecated"), ("values", array [])] = true := by
  have hf : find? definitions "deprecated" = none := by
    rw [find?, List.find?_eq_none]
    simpa using h
  simp [isUnknown, hf]

/-- A normal form is well formed, and its own normal form. -/
theorem Valid.normal (hde : ∀ d ∈ definitions, d.id ≠ "deprecated") {role : Role}
    (h : Valid definitions role j) :
    Valid definitions role (j.normal definitions) ∧
      (j.normal definitions).normal definitions = j.normal definitions := by
  have hm {role : Role} {items : List Json} (ih : ∀ j ∈ items,
      Valid definitions role (j.normal definitions) ∧
        (j.normal definitions).normal definitions = j.normal definitions) :
      (∀ j ∈ items.map (Json.normal definitions), Valid definitions role j) ∧
        (items.map (Json.normal definitions)).map (Json.normal definitions) =
          items.map (Json.normal definitions) := by
    refine ⟨?_, ?_⟩
    · simpa using fun j hj => (ih j hj).1
    · rw [List.map_map]
      exact List.map_congr_left fun j hj => (ih j hj).2
  induction h with
  | literal h =>
    rw [normal_literal h]
    exact ⟨.literal h, normal_literal h⟩
  | known hf hd _ ih =>
    obtain ⟨hv, heq⟩ := hm ih
    rw [normal_known hf hd]
    refine ⟨.known (.refl _) hd hv, ?_⟩
    rw [normal_known (.refl _) hd, heq]
  | unknown h =>
    rw [normal_unknown h]
    exact ⟨.unknown (isUnknown_retired hde), normal_unknown (isUnknown_retired hde)⟩
  | stack hf _ hp ih =>
    obtain ⟨hv, heq⟩ := hm ih
    rw [normal_stack hf hp]
    refine ⟨.stack (.refl _) hv hp, ?_⟩
    rw [normal_stack (.refl _) hp, heq]
  | ofBlock _ ih => exact ⟨.ofBlock ih.1, ih.2⟩
  | ofStack _ ih => exact ⟨.ofStack ih.1, ih.2⟩

end

end Json

/-- A value that can be saved and holds neither blocks nor stacks. -/
def Value.storable : Value → Bool
  | .list items => storableAll items
  | .complex .. | .block _ | .stack _ => false
  | _ => true
where
  /-- Such values. -/
  storableAll : List Value → Bool
    | [] => true
    | v :: rest => v.storable && storableAll rest

/-- A storable value is the value of a literal. -/
theorem Value.exists_literal (h : v.storable = true) :
    ∃ j : Json, j.isLiteral = true ∧ j.plainValue = v := by
  induction v using Value.rec (motive_2 := fun items => Value.storable.storableAll items = true →
    ∃ js, Json.isLiteral.literals js = true ∧ Json.plainValue.plainValues js = items) with
  | none => exact ⟨.null, rfl, rfl⟩
  | bool b => exact ⟨.bool b, rfl, rfl⟩
  | num n =>
    cases n with
    | int n => exact ⟨.int n, rfl, rfl⟩
    | float x => exact ⟨.float x, rfl, rfl⟩
  | text t => exact ⟨.text t, rfl, rfl⟩
  | list items ih =>
    obtain ⟨js, hjs, rfl⟩ := ih h
    exact ⟨.array js, hjs, rfl⟩
  | complex | block | stack => cases h
  | nil => exact ⟨[], rfl, rfl⟩
  | cons v rest ihv ihrest =>
    rename_i ha
    obtain ⟨hv, hr⟩ := Bool.and_eq_true_iff.1 ha
    obtain ⟨j, hj, rfl⟩ := ihv hv
    obtain ⟨js, hjs, rfl⟩ := ihrest hr
    exact ⟨j :: js, Bool.and_eq_true_iff.2 ⟨hj, hjs⟩, rfl⟩

namespace Store

variable {s s' : Store} {definitions : List Definition} {role : Json.Role} {f : α → Value}
  {xs : List α} {block : BlockId → Except Fault Json} {stack : StackId → Except Fault Json}

/-! ## What a value is saved as -/

/-- A value of the store has a saved form. -/
inductive Spells (s : Store) (definitions : List Definition) : Json → Value → Prop
  | literal {j : Json} (h : j.isLiteral = true) : Spells s definitions j j.plainValue
  | block {b : BlockId} {id : String} {js : List Json} (hb : b.index < s.blocks.size)
    (hid : (s.definitionOf b).id = id)
    (hd : find? definitions id = some (s.definitionOf b))
    (hlength : js.length = (s.block b).values.length)
    (hvalues : ∀ j v, (j, v) ∈ js.zip (s.block b).values → Spells s definitions j v) :
    Spells s definitions (.object [("definition", .text id), ("values", .array js)]) (.block b)
  | retired {b : BlockId} {n : Nat} (hb : b.index < s.blocks.size)
    (hd : s.definitionOf b = Catalogue.retired n) (hvalues : (s.block b).values = []) :
    Spells s definitions Json.retired (.block b)
  | stack {t : StackId} {js : List Json} {place : Option (List Json)} (ht : s.HasStack t)
    (hplace : ∀ items ∈ place, ∀ j ∈ items, j.isLiteral = true)
    (hposition : (s.stack t).position = place.map (·.map Json.plainValue))
    (hlength : js.length = (s.blocksOf t).length)
    (hblocks : ∀ j b, (j, b) ∈ js.zip (s.blocksOf t) → Spells s definitions j (.block b)) :
    Spells s definitions (.object [("blocks", .array js), ("pos", .ofPlace place)]) (.stack t)

theorem Spells.retains (h : s.Spells definitions j v) (hs : Retains s s') :
    s'.Spells definitions j v := by
  induction h with
  | literal h => exact .literal h
  | @block b id js hb hid hd hl _ ih =>
    have hv := hs.values_eq b hb
    have hde := hs.definition_eq b hb
    refine .block (hb.trans_le hs.blocks_le) (by rw [hde, hid]) (by rw [hde, hd]) ?_ ?_
    · rw [hv, hl]
    · rw [hv]
      exact ih
  | @retired b n hb hd hv =>
    exact .retired (hb.trans_le hs.blocks_le) ((hs.definition_eq b hb).trans hd)
      ((hs.values_eq b hb).trans hv)
  | @stack t js place ht hpl hp hl _ ih =>
    have hbl := hs.toSpans.blocksOf_eq ht
    refine .stack (hs.hasStack ht) hpl ((hs.position_eq t ht.1).trans hp) ?_ ?_
    · rw [hbl, hl]
    · rw [hbl]
      exact ih

/-- Values that come to an end do so together. -/
theorem exists_within_zip (hl : js.length = xs.length)
    (h : ∀ j x, (j, x) ∈ js.zip xs → ∃ n, s.Within n (f x)) : ∃ n, ∀ x ∈ xs, s.Within n (f x) := by
  replace h := List.forall₂_iff_zip.2 ⟨hl, fun {j x} => h j x⟩
  clear hl
  induction h with
  | nil => exact ⟨0, by simp⟩
  | cons hx _ ih =>
    obtain ⟨m, hm⟩ := hx
    obtain ⟨n, hn⟩ := ih
    exact ⟨max m n, List.forall_mem_cons.2
      ⟨hm.mono (le_max_left m n), fun x hx => (hn x hx).mono (le_max_right m n)⟩⟩

theorem within_plainValue (n : Nat) (j : Json) : s.Within n j.plainValue := by
  cases j <;> cases n <;> trivial

/-- What has a saved form comes to an end. -/
theorem Spells.exists_within (h : s.Spells definitions j v) : ∃ n, s.Within n v := by
  induction h with
  | literal h => exact ⟨0, within_plainValue 0 _⟩
  | @block b id js hb hid hd hl _ ih =>
    obtain ⟨n, hn⟩ := exists_within_zip (f := fun v => v) hl ih
    exact ⟨n + 1, hb, hn⟩
  | retired hb hd hva => exact ⟨1, hb, by simp [hva]⟩
  | @stack t js place ht hpl hp hl _ ih =>
    obtain ⟨n, hn⟩ := exists_within_zip (f := Value.block) hl ih
    exact ⟨n + 1, ht.1, hn⟩

/-! ## Saving -/

theorem savedWith_plainValue (h : j.isLiteral = true) :
    savedWith block stack j.plainValue = .ok j := by
  induction j using Json.inductionOn with
  | array items ih =>
    have hi : savedWith.savedItems block stack (Json.plainValue.plainValues items) =
        .ok items := by
      have ha := Json.literals_iff.1 h
      clear h
      induction items with
      | nil => rfl
      | cons j rest ihrest =>
        obtain ⟨hj, hr⟩ := List.forall_mem_cons.1 ha
        obtain ⟨ihj, ihitems⟩ := List.forall_mem_cons.1 ih
        simp only [Json.plainValue.plainValues, savedWith.savedItems, ihj hj, ihrest ihitems hr]
        rfl
    simp only [Json.plainValue, savedWith, hi]
    rfl
  | object fields => cases h
  | _ => rfl

theorem mapM_savedWith_plainValue (h : ∀ j ∈ items, j.isLiteral = true) :
    (items.map Json.plainValue).mapM (savedWith block stack) = .ok items := by
  refine mapM_eq_ok.2 (List.forall₂_map_left_iff.2 (List.forall₂_same.2 fun j hj => ?_))
  exact savedWith_plainValue (h j hj)

/-- A value is saved in the form that it spells, when it is followed deep enough. -/
theorem Spells.savedWith_eq (h : s.Spells definitions j v) {n : Nat} (hn : s.Within n v) :
    savedWith (s.savedBlockTo n) (s.savedStackTo n) v = .ok j := by
  induction h generalizing n with
  | literal h => exact savedWith_plainValue h
  | @block b id js hb hid hd hl _ ih =>
    cases n with
    | zero => exact hn.elim
    | succ n =>
      refine savedBlockTo_succ_eq_ok.2 ⟨js, ?_, by rw [hid]⟩
      refine List.Forall₂.flip (List.forall₂_iff_zip.2 ⟨hl, fun {j v} hjv => ?_⟩)
      exact ih j v hjv (hn.2 v (List.of_mem_zip hjv).2)
  | @retired b m hb hd hv =>
    cases n with
    | zero => exact hn.elim
    | succ n =>
      refine savedBlockTo_succ_eq_ok.2 ⟨[], ?_, by rw [hd]; rfl⟩
      rw [hv]
      exact .nil
  | @stack t js place ht hpl hp hl _ ih =>
    cases n with
    | zero => exact hn.elim
    | succ n =>
      have hbl : (s.blocksOf t).mapM (s.savedBlockTo n) = .ok js := by
        refine mapM_eq_ok.2 (List.Forall₂.flip (List.forall₂_iff_zip.2 ⟨hl, fun {j b} hjb => ?_⟩))
        exact ih j b hjb (hn.2 b (List.of_mem_zip hjb).2)
      show s.savedStackTo (n + 1) t = _
      rw [savedStackTo, hbl, hp]
      cases place with
      | none => rfl
      | some items =>
        simp only [Option.map_some, mapM_savedWith_plainValue (hpl items rfl)]
        rfl

/-- A stack is saved in the form that it spells. -/
theorem Spells.savedStack_eq {t : StackId} (h : s.Spells definitions j (.stack t)) :
    s.savedStack t = .ok j := by
  obtain ⟨n, hn⟩ := h.exists_within
  exact h.savedWith_eq hn.depth

/-! ## Reading -/

/-- A step of building adds something to the store that spells a saved form. -/
def Writes {α : Type} (definitions : List Definition) (j : Json) (toValue : α → Value)
    (m : Building α) : Prop :=
  ∀ s, ∃ a s', m s = .ok a s' ∧ Retains s s' ∧ s'.Spells definitions j (toValue a)

theorem Writes.map {m : Building α} (h : Writes definitions j f m) :
    Writes definitions j (fun v => v) (f <$> m) := by
  intro s
  obtain ⟨a, s', hm, hs, ha⟩ := h s
  exact ⟨f a, s', map_eq_ok.2 ⟨a, hm, rfl⟩, hs, ha⟩

/-- Reading saved forms, one after the other. -/
theorem writes_mapM {toValue : α → Value} {f : Json → Building α}
    (h : ∀ j ∈ js, Writes definitions (j.normal definitions) toValue (f j)) (s : Store) :
    ∃ as s', js.mapM f s = .ok as s' ∧ Retains s s' ∧
      List.Forall₂ (fun j a => s'.Spells definitions j (toValue a))
        (js.map (Json.normal definitions)) as := by
  induction js generalizing s with
  | nil => exact ⟨[], s, rfl, .refl s, .nil⟩
  | cons j js ih =>
    obtain ⟨hj, hjs⟩ := List.forall_mem_cons.1 h
    obtain ⟨a, s1, h1, hs1, ha⟩ := hj s
    obtain ⟨as, s2, h2, hs2, has⟩ := ih hjs s1
    refine ⟨a :: as, s2, ?_, hs1.trans hs2, .cons (ha.retains hs2) has⟩
    rw [List.mapM_cons]
    exact bind_eq_ok.2 ⟨a, s1, h1, bind_eq_ok.2 ⟨as, s2, h2, rfl⟩⟩

/-- Counting stand-ins changes nothing else. -/
theorem retains_retired (s : Store) (n : Nat) : Retains s { s with retired := n } where
  blocks_le := le_rfl
  stacks_le := le_rfl
  rows_le := le_rfl
  values_eq _ _ := rfl
  definition_eq _ _ := rfl
  stack_eq _ _ := rfl
  row_eq _ _ := rfl
  position_eq _ _ := rfl

theorem writes_retired : Writes definitions Json.retired Value.block
    (modifyGet fun s => s.addRetired) := by
  intro s
  have hs := block_addBlock_self { s with retired := s.retired + 1 } (Catalogue.retired s.retired) []
  refine ⟨⟨s.blocks.size⟩, s.addRetired.2, rfl, (retains_retired s _).trans (retains_addBlock _ _ _),
    .retired (n := s.retired) (by simp [addRetired]) ?_ ?_⟩
  · exact congrArg Block.definition hs
  · exact congrArg Block.values hs

section

variable {fields : List (String × Json)} {fuel : Nat}

theorem writes_unknown (h : Json.isUnknown definitions fields = true) :
    Writes definitions Json.retired Value.block (readBlock definitions fuel (.object fields)) := by
  cases fuel with
  | zero => exact writes_retired
  | succ fuel =>
    have hd : definition? definitions (.object fields) = .ok none := by
      unfold Json.isUnknown at h
      simp only [definition?, Json.item]
      split at h
      · rename_i id hid
        rw [hid]
        exact congrArg Except.ok (Option.isNone_iff_eq_none.1 h)
      · rename_i j hne hj
        rw [hj]
        cases j with
        | text id => exact absurd rfl (hne id)
        | _ => rfl
      · cases h
    rw [readBlock, hd]
    exact writes_retired

theorem writes_known (hf : fields.Perm [("definition", .text id), ("values", .array js)])
    (hd : find? definitions id = some d)
    (hjs : ∀ j ∈ js, Writes definitions (j.normal definitions) (fun v => v)
      (readValue definitions fuel j)) :
    Writes definitions ((Json.object fields).normal definitions) Value.block
      (readBlock definitions (fuel + 1) (.object fields)) := by
  intro s
  obtain ⟨vs, s', hvs, hs, hsp⟩ := writes_mapM hjs s
  have hde : definition? definitions (.object fields) = .ok (some d) := by
    simp only [definition?, Json.item, Json.lookup_definition hf]
    exact congrArg Except.ok hd
  have hv : ((Json.object fields).item "values" >>= Json.walk) = .ok js := by
    obtain rfl | rfl := List.perm_pair.1 hf <;> rfl
  have hn := retains_addBlock s' d vs
  have hse := block_addBlock_self s' d vs
  refine ⟨⟨s'.blocks.size⟩, (s'.addBlock d vs).2, ?_, hs.trans hn, ?_⟩
  · rw [readBlock, hde, hv]
    show (_ >>= fun vs => Building.addBlock d vs) s = _
    exact bind_eq_ok.2 ⟨vs, s', hvs, rfl⟩
  · have hid : d.id = id := by simpa using List.find?_some hd
    obtain ⟨hl, hz⟩ := List.forall₂_iff_zip.1 hsp
    rw [Json.normal_known hf hd]
    refine .block (by simp) ?_ ?_ ?_ ?_
    · rw [definitionOf, hse, hid]
    · rw [definitionOf, hse, hd]
    · rw [hse, hl]
    · rw [hse]
      exact fun j v hjv => (hz hjv).retains hn

theorem writes_stack (hf : fields.Perm [("blocks", .array js), ("pos", .ofPlace place)])
    (hpl : ∀ items ∈ place, ∀ j ∈ items, j.isLiteral = true)
    (hjs : ∀ j ∈ js, Writes definitions (j.normal definitions) Value.block
      (readBlock definitions fuel j)) :
    Writes definitions ((Json.object fields).normal definitions) Value.stack
      (readStack definitions (fuel + 1) (.object fields)) := by
  intro s
  obtain ⟨bs, s', hbs, hs, hsp⟩ := writes_mapM hjs s
  have hb : ((Json.object fields).item "blocks" >>= Json.walk) = .ok js := by
    obtain rfl | rfl := List.perm_pair.1 hf <;> rfl
  have hp : ((Json.object fields).item "pos" >>= position) =
      .ok (place.map (·.map Json.plainValue)) := by
    have hi : (Json.object fields).item "pos" = .ok (.ofPlace place) := by
      obtain rfl | rfl := List.perm_pair.1 hf <;> rfl
    rw [hi]
    cases place <;> rfl
  have hn := retains_addStack s' bs (place.map (·.map Json.plainValue))
  have hse := stack_addStack_self s' bs (place.map (·.map Json.plainValue))
  have hr := blocksOf_addStack_self s' bs (place.map (·.map Json.plainValue))
  refine ⟨⟨s'.allStacks.size⟩, (s'.addStack bs (place.map (·.map Json.plainValue))).2, ?_,
    hs.trans hn, ?_⟩
  · rw [readStack, hb, hp]
    show (_ >>= fun bs => Building.ofExcept (.ok _) >>= fun p => Building.addStack bs p) s = _
    exact bind_eq_ok.2 ⟨bs, s', hbs, rfl⟩
  · obtain ⟨hl, hz⟩ := List.forall₂_iff_zip.1 hsp
    rw [Json.normal_stack hf hpl]
    refine .stack ⟨by simp, by rw [hse]; simp⟩ hpl (by rw [hse]) (by rw [hr, hl]) ?_
    rw [hr]
    exact fun j b hjb => (hz hjb).retains hn

end

/-- Reading a well-formed value, with as much fuel as it is nested. -/
def Readable (definitions : List Definition) (j : Json) : Json.Role → Prop
  | .value => ∀ fuel, nesting j ≤ fuel →
    Writes definitions (j.normal definitions) (fun v => v) (readValue definitions fuel j)
  | .block => ∀ fuel, nesting j ≤ fuel + 1 →
    Writes definitions (j.normal definitions) Value.block (readBlock definitions fuel j)
  | .stack => ∀ fuel, nesting j ≤ fuel + 1 →
    Writes definitions (j.normal definitions) Value.stack (readStack definitions fuel j)

/-- An object with a list in one of two fields is nested deeper than what the list holds. -/
theorem nestingItems_add_two_le (h : fields.Perm [(a, x), (b, y)])
    (hi : x = .array items ∨ y = .array items) :
    nesting.nestingItems items + 2 ≤ nesting (.object fields) := by
  obtain rfl | rfl := List.perm_pair.1 h <;> obtain rfl | rfl := hi <;>
    simp only [nesting, nesting.nestingFields] <;> omega

/-- A value in a slot is read as a block when it names a definition, and as a stack otherwise. -/
theorem readable_object
    (hb : fields.lookup "definition" ≠ none → Readable definitions (.object fields) .block)
    (hs : fields.lookup "definition" = none → Readable definitions (.object fields) .stack) :
    Readable definitions (.object fields) .value := by
  intro fuel hf
  obtain ⟨fuel, rfl⟩ : ∃ k, fuel = k + 1 := ⟨fuel - 1, by simp only [nesting] at hf; omega⟩
  rw [readValue]
  cases hl : fields.lookup "definition" with
  | none => exact (hs hl fuel hf).map
  | some name => exact (hb (by simp [hl]) fuel hf).map

theorem readable (h : Json.Valid definitions role j) : Readable definitions j role := by
  induction h with
  | @literal j h =>
    intro fuel _ s
    refine ⟨j.plainValue, s, ?_, .refl s, ?_⟩
    · cases fuel with
      | zero => rfl
      | succ fuel =>
        cases j with
        | object fields => cases h
        | _ => rfl
    · rw [Json.normal_literal h]
      exact .literal h
  | known hf hd _ ih =>
    intro fuel hfu
    have hne := nestingItems_add_two_le hf (.inr rfl)
    obtain ⟨fuel, rfl⟩ : ∃ k, fuel = k + 1 := ⟨fuel - 1, by omega⟩
    refine writes_known hf hd fun j hj => ih j hj fuel ?_
    have := nesting_le_of_mem hj
    omega
  | unknown h =>
    intro fuel _
    rw [Json.normal_unknown h]
    exact writes_unknown h
  | stack hf _ hp ih =>
    intro fuel hfu
    have hne := nestingItems_add_two_le hf (.inl rfl)
    obtain ⟨fuel, rfl⟩ : ∃ k, fuel = k + 1 := ⟨fuel - 1, by omega⟩
    refine writes_stack hf hp fun j hj => ih j hj fuel ?_
    have := nesting_le_of_mem hj
    omega
  | ofBlock h ih =>
    cases h with
    | known hf _ _ =>
      refine readable_object (fun _ => ih) fun hn => ?_
      rw [Json.lookup_definition hf] at hn
      cases hn
    | unknown hu =>
      refine readable_object (fun _ => ih) fun hn => ?_
      rw [Json.isUnknown, hn] at hu
      cases hu
  | ofStack h ih =>
    cases h with
    | stack hf _ _ =>
      refine readable_object (fun hs => ?_) fun _ => ih
      exact absurd (Json.lookup_definition_stack hf) hs

/-- Reading a well-formed stack gives one that spells the normal form. -/
theorem writes_of_valid (h : Json.Valid definitions .stack j) :
    Writes definitions (j.normal definitions) Value.stack (Saved.stack definitions j) :=
  readable h _ (by omega)

/-! ## Coming back -/

/-- Blocks that use the first definitions of their names, at any depth, with storable values besides,
and stacks of such blocks. -/
inductive Settled (s : Store) (definitions : List Definition) : Value → Prop
  | literal {v : Value} (h : v.storable = true) : Settled s definitions v
  | block {b : BlockId} (hb : b.index < s.blocks.size)
    (hd : find? definitions (s.definitionOf b).id = some (s.definitionOf b))
    (hvalues : ∀ v ∈ (s.block b).values, Settled s definitions v) : Settled s definitions (.block b)
  | stack {t : StackId} (ht : s.HasStack t)
    (hposition : ∀ p ∈ (s.stack t).position, ∀ v ∈ p, v.storable = true)
    (hblocks : ∀ b ∈ s.blocksOf t, Settled s definitions (.block b)) : Settled s definitions (.stack t)

/-- Two values of two stores are the same up to identities: literals are equal, blocks have the same
definition and stacks the same place, and what they hold is the same. -/
inductive Matches (s s' : Store) : Value → Value → Prop
  | literal {v : Value} (h : v.storable = true) : Matches s s' v v
  | block {b b' : BlockId} (hd : s'.definitionOf b' = s.definitionOf b)
    (hlength : (s.block b).values.length = (s'.block b').values.length)
    (hvalues : ∀ v v', (v, v') ∈ (s.block b).values.zip (s'.block b').values → Matches s s' v v') :
    Matches s s' (.block b) (.block b')
  | stack {t t' : StackId} (hposition : (s'.stack t').position = (s.stack t).position)
    (hlength : (s.blocksOf t).length = (s'.blocksOf t').length)
    (hblocks : ∀ b b', (b, b') ∈ (s.blocksOf t).zip (s'.blocksOf t') →
      Matches s s' (.block b) (.block b')) : Matches s s' (.stack t) (.stack t')

/-- The saved form of a settled value, and what is read from it anywhere. -/
def Returns (s : Store) (definitions : List Definition) (role : Json.Role) (v : Value) (j : Json) :
    Prop :=
  s.Spells definitions j v ∧ Json.Valid definitions role j ∧
    ∀ s' v', s'.Spells definitions (j.normal definitions) v' → s.Matches s' v v'

theorem Spells.exists_block
    (h : s.Spells definitions (.object [("definition", .text id), ("values", .array js)]) v)
    (hid : id ≠ "deprecated") :
    ∃ b, v = .block b ∧ b.index < s.blocks.size ∧ find? definitions id = some (s.definitionOf b) ∧
      List.Forall₂ (s.Spells definitions) js (s.block b).values := by
  generalize hj : Json.object [("definition", .text id), ("values", .array js)] = j at h
  cases h with
  | literal h =>
    rw [← hj] at h
    cases h
  | @block b _ _ hb _ hd hl hv =>
    simp only [Json.object.injEq, List.cons.injEq, Prod.mk.injEq, Json.text.injEq, Json.array.injEq,
      true_and, and_true] at hj
    obtain ⟨rfl, rfl⟩ := hj
    exact ⟨b, rfl, hb, hd, List.forall₂_iff_zip.2 ⟨hl, fun {j v} => hv j v⟩⟩
  | retired =>
    simp only [Json.retired, Json.object.injEq, List.cons.injEq, Prod.mk.injEq, Json.text.injEq,
      true_and] at hj
    exact absurd hj.1 hid
  | stack => simp at hj

theorem Spells.exists_stack
    (h : s.Spells definitions (.object [("blocks", .array js), ("pos", .ofPlace place)]) v) :
    ∃ t, v = .stack t ∧ s.HasStack t ∧ (s.stack t).position = place.map (·.map Json.plainValue) ∧
      List.Forall₂ (fun j b => s.Spells definitions j (.block b)) js (s.blocksOf t) := by
  generalize hj : Json.object [("blocks", .array js), ("pos", .ofPlace place)] = j at h
  cases h with
  | literal h =>
    rw [← hj] at h
    cases h
  | block => simp at hj
  | retired => simp [Json.retired] at hj
  | @stack t _ place' ht _ hp hl hb =>
    simp only [Json.object.injEq, List.cons.injEq, Prod.mk.injEq, Json.array.injEq, true_and,
      and_true] at hj
    obtain ⟨rfl, hpl⟩ := hj
    have hpl : place = place' := by cases place <;> cases place' <;> simp_all [Json.ofPlace]
    subst hpl
    exact ⟨t, rfl, ht, hp, List.forall₂_iff_zip.2 ⟨hl, fun {j b} => hb j b⟩⟩

/-- What a settled value is saved as. -/
def roleOf : Value → Json.Role
  | .block _ => .block
  | .stack _ => .stack
  | _ => .value

theorem Returns.toValue (h : s.Returns definitions role v j) : s.Returns definitions .value v j :=
  ⟨h.1, h.2.1.value, h.2.2⟩

/-- Values read one by one from the saved forms of values match them. -/
theorem matches_of_returns {β : Type} {g : β → Value} {ys : List β}
    (hjs : List.Forall₂ (fun j x => s.Returns definitions role (f x) j) js xs)
    (hys : List.Forall₂ (fun j y => s'.Spells definitions j (g y))
      (js.map (Json.normal definitions)) ys) :
    List.Forall₂ (fun x y => s.Matches s' (f x) (g y)) xs ys := by
  induction hjs generalizing ys with
  | nil =>
    cases hys
    exact .nil
  | cons hj _ ih =>
    cases hys with
    | cons hy hys => exact .cons (hj.2.2 _ _ hy) (ih hys)

theorem Spells.eq_plainValue (h : s.Spells definitions j v) (hj : j.isLiteral = true) :
    v = j.plainValue := by
  cases h with
  | literal => rfl
  | _ => cases hj

/-- A place with storable coordinates is read from a saved place. -/
theorem exists_place {position : Option (List Value)} (h : ∀ p ∈ position, ∀ v ∈ p, v.storable = true) :
    ∃ place : Option (List Json), (∀ items ∈ place, ∀ j ∈ items, j.isLiteral = true) ∧
      position = place.map (·.map Json.plainValue) := by
  cases position with
  | none => exact ⟨none, by simp, rfl⟩
  | some p =>
    obtain ⟨items, hi⟩ := exists_forall₂ fun v hv => Value.exists_literal (h p rfl v hv)
    refine ⟨some items, ?_, ?_⟩
    · rintro _ ⟨⟩ j hj
      obtain ⟨v, -, hv⟩ := exists_of_forall₂_left hi hj
      exact hv.1
    · have hp : items.map Json.plainValue = p := by
        rw [← List.forall₂_eq_eq_eq, List.forall₂_map_left_iff]
        exact hi.imp fun _ _ hv => hv.2
      rw [Option.map_some, hp]

/-- A settled value spells a well-formed form, from which it comes back. -/
theorem Settled.exists_returns (hde : ∀ d ∈ definitions, d.id ≠ "deprecated")
    (h : s.Settled definitions v) : ∃ j, s.Returns definitions (roleOf v) v j := by
  have hva {α : Type} {f : α → Value} {role : Json.Role} {js : List Json} {xs : List α}
      (hjs : List.Forall₂ (fun j x => s.Returns definitions role (f x) j) js xs) :
      ∀ j ∈ js, Json.Valid definitions role j := fun j hj => by
    obtain ⟨x, -, hx⟩ := exists_of_forall₂_left hjs hj
    exact hx.2.1
  induction h with
  | @literal v h =>
    obtain ⟨j, hj, rfl⟩ := Value.exists_literal h
    have hr : roleOf j.plainValue = .value := by cases j <;> rfl
    refine ⟨j, .literal hj, hr ▸ .literal hj, fun s' v' hv' => ?_⟩
    rw [Json.normal_literal hj] at hv'
    rw [hv'.eq_plainValue hj]
    exact .literal h
  | @block b hb hd _ ih =>
    obtain ⟨js, hjs⟩ := exists_forall₂ fun v hv => (ih v hv).imp fun _ => Returns.toValue
    obtain ⟨hl, hz⟩ := List.forall₂_iff_zip.1 hjs
    have hid := hde _ (List.mem_of_find?_eq_some hd)
    refine ⟨_, .block hb rfl hd hl fun j v hjv => (hz hjv).1, .known (.refl _) hd (hva hjs),
      fun s' v' hv' => ?_⟩
    rw [Json.normal_known (.refl _) hd] at hv'
    obtain ⟨b', rfl, -, hd', hvl⟩ := hv'.exists_block hid
    obtain ⟨hl', hz'⟩ := List.forall₂_iff_zip.1 (matches_of_returns hjs hvl)
    exact .block (Option.some.inj (hd'.symm.trans hd)) hl' fun v v' => hz'
  | @stack t ht hpo _ ih =>
    obtain ⟨place, hp, heq⟩ := exists_place hpo
    obtain ⟨js, hjs⟩ := exists_forall₂ ih
    obtain ⟨hl, hz⟩ := List.forall₂_iff_zip.1 hjs
    refine ⟨_, .stack ht hp heq hl fun j b hjb => (hz hjb).1,
      .stack (.refl _) (hva hjs) hp, fun s' v' hv' => ?_⟩
    rw [Json.normal_stack (.refl _) hp] at hv'
    obtain ⟨t', rfl, -, hp', hbl⟩ := hv'.exists_stack
    obtain ⟨hl', hz'⟩ := List.forall₂_iff_zip.1 (matches_of_returns hjs hbl)
    exact .stack (hp'.trans heq.symm) hl' fun b b' => hz'

/-- For any definitions, none of which has the name of the stand-in: every well-formed saved stack is
read and saved again in its normal form, and a normal form is read and saved again as it is; and every
stack whose blocks use the first definitions of their names is saved, and reading what was saved gives
back the same stack. -/
theorem saved_normal_form (hdefinitions : ∀ d ∈ definitions, d.id ≠ "deprecated") :
    (∀ j, Json.Valid definitions .stack j → ∀ s r : Store, ∃ t s' u r',
      Saved.stack definitions j s = .ok t s' ∧ s'.savedStack t = .ok (j.normal definitions) ∧
        Saved.stack definitions (j.normal definitions) r = .ok u r' ∧
        r'.savedStack u = .ok (j.normal definitions)) ∧
    ∀ (s : Store) (t : StackId), s.Settled definitions (.stack t) →
      ∃ j, s.savedStack t = .ok j ∧ ∀ r, ∃ u r', Saved.stack definitions j r = .ok u r' ∧
        s.Matches r' (.stack t) (.stack u) := by
  refine ⟨fun j hj s r => ?_, fun s t ht => ?_⟩
  · obtain ⟨t, s', hread, -, hspells⟩ := writes_of_valid hj s
    obtain ⟨hvalid, hnormal⟩ := hj.normal hdefinitions
    obtain ⟨u, r', hread', -, hspells'⟩ := writes_of_valid hvalid r
    rw [hnormal] at hspells'
    exact ⟨t, s', u, r', hread, hspells.savedStack_eq, hread', hspells'.savedStack_eq⟩
  · obtain ⟨j, hspells, hvalid, hmatches⟩ := ht.exists_returns hdefinitions
    refine ⟨j, hspells.savedStack_eq, fun r => ?_⟩
    obtain ⟨u, r', hread, -, hspells'⟩ := writes_of_valid hvalid r
    exact ⟨u, r', hread, hmatches r' _ hspells'⟩

/-- A loop whose body is a block that nobody knows, with its fields in another order. -/
def strangeBody : Json :=
  .object [("pos", .array [.int 40, .float 2.5]), ("blocks", .array [.object
      [("values", .array [.null, .object
        [("blocks", .array [.object [("definition", .int 7), ("values", .text "?")]]),
          ("pos", .null)]]),
        ("definition", .text "repeat")]])]

theorem valid_strangeBody : Json.Valid Catalogue.blocks .stack strangeBody := by
  have hp : ∀ items ∈ some [Json.int 40, .float 2.5], ∀ j ∈ items, j.isLiteral = true := by
    simp [Json.isLiteral]
  refine .stack (.swap _ _ _) ?_ hp
  simp only [List.forall_mem_singleton]
  refine .known (d := Run.named "repeat") (.swap _ _ _) rfl ?_
  simp only [List.forall_mem_cons, List.not_mem_nil, false_implies, implies_true, and_true]
  have hn : ∀ items ∈ (none : Option (List Json)), ∀ j ∈ items, j.isLiteral = true := by simp
  refine ⟨.literal rfl, .ofStack (.stack (.refl _) ?_ hn)⟩
  simp only [List.forall_mem_singleton]
  exact .unknown rfl

theorem settled_loneBlock (hd : d ∈ Catalogue.blocks) :
    (Run.loneBlock d).Settled Catalogue.blocks (.stack ⟨1⟩) := by
  refine .stack ⟨Nat.one_lt_two, Nat.one_lt_two⟩ (by rintro _ ⟨⟩) fun b hb => ?_
  rw [List.mem_singleton.1 (show b ∈ [⟨0⟩] from hb)]
  refine .block Nat.zero_lt_one (find?_id hd) fun v hv => ?_
  have hv : v ∈ List.replicate d.countInputs Value.none := hv
  rw [(List.mem_replicate.1 hv).2]
  exact .literal rfl

theorem ids_ne_deprecated : ∀ d ∈ Catalogue.blocks, d.id ≠ "deprecated" := by decide +kernel

/-- The unknown block inside the loop is replaced and nothing else, and a loop comes back. -/
theorem saved_normal_form_strangeBody :
    (∃ t s', Saved.stack Catalogue.blocks strangeBody Store.empty = .ok t s' ∧
      s'.savedStack t = .ok (.object [("blocks", .array [.object
          [("definition", .text "repeat"), ("values", .array [.null, .object
            [("blocks", .array [Json.retired]), ("pos", .null)]])]]),
          ("pos", .array [.int 40, .float 2.5])])) ∧
    ∃ j u r', (Run.loneBlock Run.countedLoop).savedStack ⟨1⟩ = .ok j ∧
      Saved.stack Catalogue.blocks j Store.empty = .ok u r' ∧
      (Run.loneBlock Run.countedLoop).Matches r' (.stack ⟨1⟩) (.stack u) := by
  obtain ⟨hread, hback⟩ := saved_normal_form ids_ne_deprecated
  constructor
  · obtain ⟨t, s', -, -, hstack, hsaved, -⟩ := hread _ valid_strangeBody Store.empty Store.empty
    exact ⟨t, s', hstack, hsaved⟩
  · obtain ⟨j, hj, hr⟩ := hback _ _ (settled_loneBlock Run.countedLoop_mem)
    obtain ⟨u, r', hu⟩ := hr Store.empty
    exact ⟨j, u, r', hj, hu⟩

end Store

end BlockStudio
