import BlockStudio.Proofs.Completing
import BlockStudio.Proofs.Drawing
import BlockStudio.Proofs.SavedTree

/-!
# How large a tree is drawn

Drawing a block or a stack of drawable definitions ends well exactly when slots for bodies hold stacks or
nothing.  When blocks and stacks stand only in slots that are made for them, the surface depends on
nothing but the tree: its size is `Tree.measure`.  An unfilled slot for a body is as large as one that
holds an empty stack.
-/

namespace BlockStudio

open Layout Shape Store List Tree

variable {v : Value} {ts : List Tree} {d : Definition} {t : Tree} {c : Component} {n : Nat}
  {m : Sketch Size}

/-- A value without parts. -/
def Value.IsLeaf : Value → Prop
  | .none | .bool _ | .num _ | .text _ => True
  | _ => False

/-! ## Sizes of shapes -/

namespace Shape

/-- The size of rounded corners around a surface. -/
def textSize (inner : Size) : Size :=
  ⟨wholeSide ((inner.w : Rat) + (inner.h : Rat) / 4 * 2).floor, inner.h⟩

/-- The size of round or pointed ends around a surface. -/
def endsSize (inner : Size) : Size := ⟨inner.w + inner.h, inner.h⟩

/-- The size of brackets around a surface. -/
def anySize (inner : Size) : Size := ⟨inner.w + 32, inner.h⟩

/-- The size of a field with a text. -/
def fieldSize (shown : String) (least : Nat) : Size :=
  ⟨max (Typeface.regular.measure shown).w least, (Typeface.regular.measure shown).h + 8⟩

/-- The size of a field with a text and a triangle. -/
def nameSize (shown : String) : Size :=
  ⟨(Typeface.regular.measure shown).w + 32, (Typeface.regular.measure shown).h + 8⟩

end Shape

namespace Layout

/-- The size of the shape of a block around its contents. -/
def wrapSize (d : Definition) (inner : Size) : Size :=
  match d.blockType, d.outputType with
  | .reporter, .text => textSize inner
  | .reporter, .number | .reporter, .boolean => endsSize inner
  | .reporter, .any => anySize inner
  | .reporter, .nil => inner
  | .cap, _ => ⟨inner.w, inner.h + 8⟩
  | .hat, _ => ⟨inner.w, inner.h + 40⟩
  | .statement, _ => ⟨inner.w, inner.h + 16⟩

/-- The size of a block with the given layers. -/
def blockSize (d : Definition) (layers : List Layer) : Size :=
  wrapSize d ⟨contentWidth layers + if d.blockType = .reporter then 0 else 32, contentHeight layers⟩

/-- The text of a value that is neither a block nor a stack. -/
def leafText (v : Value) : String := empty.plain v

theorem plain_eq_leafText (s : Store) (h : v.IsLeaf) : s.plain v = leafText v := by
  cases v <;> first
    | exact h.elim
    | simp only [leafText, plain, shown, shownWith]

/-- The text in a slot for the name of a variable. -/
def nameText : Value → String
  | .none => "variable..."
  | v => leafText v

/-- The size of a slot with a value that is neither a block nor a stack. -/
def leafSize (kind : SlotKind) (v : Value) : Size :=
  match kind with
  | .varName => textSize (nameSize (nameText v))
  | .number => endsSize (Shape.fieldSize (leafText v) 0)
  | .any => anySize (Shape.fieldSize (leafText v) 24)
  | .text => textSize (Shape.fieldSize (leafText v) 24)
  | .boolean => endsSize (Shape.fieldSize (upperText (leafText v)) 0)
  | _ => ⟨1, 1⟩

/-- The size of the stack that stands in an empty body. -/
def ellipsisSize : Size :=
  stackSize [(.statement, blockSize Catalogue.ellipsis [[⟨Typeface.regular.measure "...", false⟩]])]

end Layout

/-! ## Sizes of trees -/

namespace Tree

open Layout

/-- The value of a leaf. -/
def leafValue : Tree → Value
  | truth b => .bool b
  | number n => .num n
  | text s => .text s
  | _ => .none

/-- The size of a slot that is not for a body, given the size of what stands in it. -/
def slotSize (c : Component) (slot : Tree × Size) : Size :=
  if c.kind = .varName then leafSize .varName slot.1.leafValue
  else
    match slot.1 with
    | block .. => slot.2
    | nothing => leafSize c.kind c.default
    | t => leafSize c.kind t.leafValue

/-- The size of a slot for a body. -/
def bodySize : Tree × Size → Size
  | (stack _ (_ :: _), m) => ⟨m.w + 16, m.h + 8⟩
  | _ => ⟨ellipsisSize.w + 16, ellipsisSize.h + 8⟩

/-- The layers of components whose slots hold the given trees. -/
def layers : List Component → List (Tree × Size) → Layer → List Layer
  | [], _, current => flush current
  | c :: rest, slots, current =>
    match c.kind, slots with
    | .label, _ =>
      layers rest slots (current ++ [⟨Typeface.regular.measure (c.text.getD "None"), false⟩])
    | _, [] => []
    | .statement, slot :: slots => flush current ++ [⟨bodySize slot, true⟩] :: layers rest slots []
    | _, slot :: slots => layers rest slots (current ++ [⟨slotSize c slot, true⟩])

section Layers

variable {c : Component} {cs : List Component} {slot : Tree × Size} {slots : List (Tree × Size)}
  {current : Layer}

theorem layers_label (h : c.kind = .label) : layers (c :: cs) slots current =
    layers cs slots (current ++ [⟨Typeface.regular.measure (c.text.getD "None"), false⟩]) := by
  simp only [layers, h]

theorem layers_body (h : c.kind = .statement) : layers (c :: cs) (slot :: slots) current =
    flush current ++ [⟨bodySize slot, true⟩] :: layers cs slots [] := by
  simp only [layers, h]

theorem layers_slot (hl : c.kind ≠ .label) (hb : c.kind ≠ .statement) :
    layers (c :: cs) (slot :: slots) current =
      layers cs slots (current ++ [⟨slotSize c slot, true⟩]) := by
  cases hk : c.kind <;> first | contradiction | simp only [layers, hk]

end Layers

/-- The type of a block. -/
def blockType : Tree → BlockType
  | block d _ => d.blockType
  | _ => .statement

/-- The size of the surface that a tree is drawn on. -/
def measure : Tree → Size
  | block d ts => blockSize d (layers d.components (measures ts) [])
  | stack _ ts => stackSize ((measures ts).map fun p => (p.1.blockType, p.2))
  | _ => ⟨1, 1⟩
where
  /-- Trees with their sizes. -/
  measures : List Tree → List (Tree × Size)
    | [] => []
    | t :: ts => (t, measure t) :: measures ts

theorem measures_eq_map (ts : List Tree) : measure.measures ts = ts.map fun t => (t, t.measure) := by
  induction ts with
  | nil => rfl
  | cons t ts ih => rw [measure.measures, ih, map_cons]

/-- A tree is a leaf, or stands in a slot that is made for it. -/
def FitsSlot (c : Component) : Tree → Prop
  | block .. => c.kind ≠ .varName
  | stack .. => c.kind = .statement
  | _ => True

/-- Blocks and stacks stand only in slots that are made for them. -/
def Fitted : Tree → Prop
  | block d ts => List.Forall₂ FitsSlot d.inputs ts ∧ allFitted ts
  | stack _ ts => allFitted ts
  | _ => True
where
  /-- Fitted trees. -/
  allFitted : List Tree → Prop
    | [] => True
    | t :: ts => Fitted t ∧ allFitted ts

theorem allFitted_iff : Fitted.allFitted ts ↔ ∀ t ∈ ts, t.Fitted := by
  induction ts with
  | nil => simp [Fitted.allFitted]
  | cons t ts ih => simp [Fitted.allFitted, ih]

/-- A tree that can stand in a slot for a body. -/
def IsBody : Tree → Prop
  | nothing | stack .. => True
  | _ => False

/-- Slots for bodies hold stacks or nothing. -/
def Bodied : Tree → Prop
  | block d ts =>
    List.Forall₂ (fun c t => c.kind = .statement → IsBody t) d.inputs ts ∧ allBodied ts
  | stack _ ts => allBodied ts
  | _ => True
where
  /-- Trees whose slots for bodies hold stacks or nothing. -/
  allBodied : List Tree → Prop
    | [] => True
    | t :: ts => Bodied t ∧ allBodied ts

theorem allBodied_iff : Bodied.allBodied ts ↔ ∀ t ∈ ts, t.Bodied := by
  induction ts with
  | nil => simp [Bodied.allBodied]
  | cons t ts ih => simp [Bodied.allBodied, ih]

end Tree

/-! ## Strokes end well -/

/-- A colour whose outline has a colour. -/
def Paint.HasOutline (color : Paint) : Prop := ∃ dark, color.outline = .ok dark

/-- A sketch that ends well on every canvas whose store has a property, unless there is something
`bad`. -/
abbrev Paints {α : Type} (bad : Prop) (p : Store → Prop) (m : Sketch α) (Q : α → Prop) : Prop :=
  Completes bad (fun c : Canvas => p c.store) m Q

namespace Paints

variable {α : Type} {bad : Prop} {p : Store → Prop} {color : Paint}

theorem draw (s : Stroke) : Paints bad p (Sketch.draw s) fun _ => True := .modify fun _ h => h

theorem ofExcept {x : Except Fault α} {a : α} (h : x = .ok a) :
    Paints bad p (Sketch.ofExcept x) (· = a) := by
  rw [h]
  exact .pure rfl

theorem write (f : Typeface) (text : String) (color : Paint) :
    Paints bad p (f.write text color) (· = f.measure text) :=
  .bind (draw _) fun _ _ => .pure rfl

section

variable (h : color.HasOutline)
include h

theorem edge (on : Size) (x1 y1 x2 y2 : Rat) :
    Paints bad p (edge on color x1 y1 x2 y2) fun _ => True := by
  obtain ⟨dark, hd⟩ := h
  exact .bind (ofExcept hd) fun _ _ => draw _

/-- The shapes around a surface have their sizes. -/
theorem shapes (inner : Size) : Paints bad p (boolean inner color) (· = endsSize inner) ∧
    Paints bad p (number inner color) (· = endsSize inner) ∧
    Paints bad p (any inner color) (· = anySize inner) ∧
    Paints bad p (text inner color) (· = textSize inner) := by
  obtain ⟨dark, hd⟩ := h
  refine ⟨?_, ?_, ?_, ?_⟩
  all_goals
    repeat' first
      | exact edge ⟨dark, hd⟩ ..
      | exact draw _
      | exact .pure rfl
      | refine .bind (ofExcept hd) fun _ _ => ?_
      | refine .andThen ?_ fun _ => ?_

end

theorem wrap (h : d.color.HasOutline) (inner : Size) :
    Paints bad p (Layout.wrap d inner) (· = Layout.wrapSize d inner) := by
  unfold Layout.wrap Layout.wrapSize
  split <;> simp only [*]
  · exact (shapes h _).2.2.2
  · exact (shapes h _).2.1
  · exact (shapes h _).2.2.1
  · exact (shapes h _).1
  all_goals
    repeat' first
      | exact edge h ..
      | exact draw _
      | exact .pure rfl
      | refine .andThen ?_ fun _ => ?_

theorem fieldOf (shown : String) (least : Nat) (color : Paint) :
    Paints bad p (Shape.fieldOf shown least color) (· = Shape.fieldSize shown least) := by
  refine .bind (write ..) fun _ h => ?_
  rw [h]
  exact .andThen (draw _) fun _ => .andThen (draw _) fun _ => .pure rfl

theorem variableInput (h : color.HasOutline) (store : Store) (v : Value) :
    Paints bad p (Shape.variableInput store v color)
      fun s => v.IsLeaf → s = leafSize .varName v := by
  obtain ⟨dark, hd⟩ := h
  have hsh : v.IsLeaf → (match v with
      | .none => "variable..."
      | v => store.plain v) = nameText v := by
    intro hv
    cases v with
    | none => rfl
    | _ => exact plain_eq_leafText _ hv
  unfold Shape.variableInput
  refine .bind (write ..) fun _ h => ?_
  rw [h]
  refine .andThen (draw _) fun _ => .andThen (draw _) fun _ => ?_
  refine .bind (ofExcept hd) fun _ _ => .andThen (draw _) fun _ => ?_
  refine (shapes ⟨_, rfl⟩ _).2.2.2.mono fun s hs hv => ?_
  rw [hs]
  exact congrArg (fun shown => textSize (nameSize shown)) (hsh hv)

/-- A field with a text and a shape around it. -/
theorem field {m : Size → Sketch Size} {size : Size → Size}
    (hm : ∀ inner, Paints bad p (m inner) (· = size inner)) (shown : String) (least : Nat)
    (color : Paint) :
    Paints bad p (Shape.fieldOf shown least color >>= m) (· = size (Shape.fieldSize shown least)) := by
  refine .bind (fieldOf ..) fun _ h => ?_
  rw [h]
  exact hm _

/-- A slot without a block. -/
theorem leafInput (h : color.HasOutline) (nested : BlockId → Sketch Size) {kind : SlotKind}
    (hv : kind = .varName ∨ ∀ b, v ≠ .block b) :
    Paints bad p (drawInput nested kind color v) fun s => v.IsLeaf → s = leafSize kind v := by
  unfold drawInput
  refine .bind .get fun c _ => ?_
  split
  · exact variableInput h ..
  · next b hk => exact absurd rfl ((hv.resolve_left hk) b)
  · refine (field (fun _ => (shapes ⟨_, rfl⟩ _).2.1) ..).mono fun s hs hv => ?_
    simp only [hs, plain_eq_leafText _ hv, leafSize]
  · refine (field (fun _ => (shapes ⟨_, rfl⟩ _).2.2.1) ..).mono fun s hs hv => ?_
    simp only [hs, plain_eq_leafText _ hv, leafSize]
  · refine (field (fun _ => (shapes ⟨_, rfl⟩ _).2.2.2) ..).mono fun s hs hv => ?_
    simp only [hs, plain_eq_leafText _ hv, leafSize]
  · refine (field (fun _ => (shapes ?_ _).1) ..).mono fun s hs hv => ?_
    · split <;> exact ⟨_, rfl⟩
    · simp only [hs, plain_eq_leafText _ hv, leafSize]
  · refine .pure fun _ => ?_
    cases kind <;> first | contradiction | rfl

end Paints

/-! ## Blocks and stacks are drawn -/

/-- What makes a definition drawable: its colour has an outline, there is something to draw, and its
unfilled slots, apart from those for bodies, show leaves. -/
structure Definition.Drawable (d : Definition) : Prop where
  outline : d.color.HasOutline
  components_ne_nil : d.components ≠ []
  default_leaf : ∀ c ∈ d.components, c.kind ≠ .statement → c.default.IsLeaf

theorem drawable_of_mem (hd : d ∈ Catalogue.blocks) : d.Drawable := by
  have ha : Catalogue.blocks.all (fun d => d.color.outline.isOk && !d.components.isEmpty &&
      d.components.all fun c => match c.kind, c.default with
        | .statement, _ | _, .none | _, .bool _ | _, .num _ | _, .text _ => true
        | _, _ => false) = true := by decide +kernel
  have h := all_eq_true.1 ha d hd
  simp only [Bool.and_eq_true, all_eq_true, Bool.not_eq_true', isEmpty_eq_false_iff] at h
  refine ⟨?_, h.1.2, fun c hc hk => ?_⟩
  · cases hco : d.color.outline with
    | ok dark => exact ⟨dark, hco⟩
    | error f => simp [hco, Except.isOk, Except.toBool] at h
  · have hde := h.2 c hc
    split at hde <;> simp_all [Value.IsLeaf]

namespace Tree

/-- A tree of blocks of drawable definitions with one value for each slot. -/
def Drawable : Tree → Prop
  | block d ts => d.Drawable ∧ ts.length = d.countInputs ∧ allDrawable ts
  | stack _ ts => allDrawable ts
  | _ => True
where
  /-- Trees of blocks of drawable definitions. -/
  allDrawable : List Tree → Prop
    | [] => True
    | t :: ts => Drawable t ∧ allDrawable ts

theorem allDrawable_iff : Drawable.allDrawable ts ↔ ∀ t ∈ ts, t.Drawable := by
  induction ts with
  | nil => simp [Drawable.allDrawable]
  | cons t ts ih => simp [Drawable.allDrawable, ih]

theorem Known.drawable (h : t.Known) : t.Drawable := by
  induction t with
  | block d ts ih =>
    exact ⟨drawable_of_mem h.1, h.2.1, allDrawable_iff.2 fun t ht => ih t ht (h.of_mem_block ht)⟩
  | stack p ts ih => exact allDrawable_iff.2 fun t ht => ih t ht (h.of_mem_stack ht)
  | _ => trivial

end Tree

/-- What a slot with a value shows. -/
def Component.filled (c : Component) : Value → Value
  | .none => c.default
  | v => v

namespace Paints

variable {bad : Prop} {s : Store} {color : Paint} {nested : BlockId → Sketch Size} {s' : Store}
  {body : Option StackId → Sketch Size} {p : Store → Prop} {bs : List BlockId}

/-- What is drawn for a value that shows a tree. -/
def Draws (bad : Prop) (s : Store) (n : Nat) (t : Tree) (m : Sketch Size) : Prop :=
  Paints bad s.Grown m fun size => t.Fitted → t.height ≤ n → size = t.measure ∧ t.Bodied

/-- Blocks that show trees are drawn. -/
def DrawsBlocks (bad : Prop) (s : Store) (n : Nat) (nested : BlockId → Sketch Size) : Prop :=
  ∀ t b, t.Drawable → bad ∨ t.Bodied → s.Shows t (.block b) → Draws bad s n t (nested b)

/-- Stacks that show trees are drawn. -/
def DrawsStacks (bad : Prop) (s : Store) (n : Nat) (body : StackId → Sketch Size) : Prop :=
  ∀ t r, t.Drawable → bad ∨ t.Bodied → s.Shows t (.stack r) → Draws bad s n t (body r)

/-- A slot for the name of a variable. -/
theorem nameSlot (h : color.HasOutline) (nested : BlockId → Sketch Size) (hk : c.kind = .varName)
    (hv : s.Shows t v) :
    Paints bad s.Grown (drawInput nested .varName color v) fun size =>
      t.FitsSlot c → size = slotSize c (t, t.measure) ∧ t.Bodied := by
  refine (leafInput h nested (.inl rfl)).mono fun size hs hf => ?_
  cases t with
  | block d ts => exact absurd hk hf
  | stack p ts => exact absurd (hk.symm.trans hf) (by decide)
  | _ =>
    obtain rfl : v = _ := hv
    rw [hs trivial, slotSize, if_pos hk]
    exact ⟨rfl, trivial⟩

/-- A slot for a value: an unfilled one shows its default. -/
theorem valueSlot (h : color.HasOutline) (hne : DrawsBlocks bad s n nested)
    (hn : c.kind ≠ .varName) (hbd : c.kind ≠ .statement) (hd : c.default.IsLeaf)
    (ht : t.Drawable) (hbo : bad ∨ t.Bodied) (hv : s.Shows t v) :
    Paints bad s.Grown (drawInput nested c.kind color (c.filled v)) fun size =>
      t.FitsSlot c → t.Fitted → t.height ≤ n → size = slotSize c (t, t.measure) ∧ t.Bodied := by
  cases t with
  | block d ts =>
    obtain ⟨b, rfl, -⟩ := shows_block.1 hv
    have hdr : drawInput nested c.kind color (.block b) = (get >>= fun _ => nested b) := by
      unfold drawInput
      cases hk : c.kind <;> first | exact absurd hk hn | rfl
    show Paints _ _ (drawInput nested c.kind color (.block b)) _
    rw [hdr]
    refine .bind .get fun _ _ => ?_
    refine (hne _ b ht hbo hv).mono fun size hs _ hf hh => ?_
    rw [slotSize, if_neg hn]
    exact hs hf hh
  | nothing =>
    obtain rfl : v = .none := hv
    refine (leafInput h nested (.inr fun b hb => ?_)).mono fun size hs _ _ _ => ⟨?_, trivial⟩
    · rw [show c.default = .block b from hb] at hd
      exact hd
    · rw [hs hd, slotSize, if_neg hn, Component.filled]
  | stack p ts =>
    obtain ⟨r, rfl, -⟩ := shows_stack.1 hv
    exact (leafInput h nested (.inr fun b hb => by cases hb)).mono fun size hs hfi =>
      absurd hfi hbd
  | truth b | number m | text u =>
    obtain rfl : v = _ := hv
    refine (leafInput h nested (.inr fun b hb => by cases hb)).mono fun size hs _ _ _ =>
      ⟨?_, trivial⟩
    rw [hs trivial, slotSize, if_neg hn]
    rfl

/-- The stack that is drawn for a slot for a body. -/
theorem bodyOf_eq (hs : s.Grown s') (hv : s.Shows t v) :
    (bodyOf s' v = .ok none ∧ t.IsBody ∧ t.Bodied ∧ ∀ m, bodySize (t, m) =
        ⟨Layout.ellipsisSize.w + 16, Layout.ellipsisSize.h + 8⟩) ∨
      (∃ r, v = .stack r ∧ bodyOf s' v = .ok (some r) ∧ t.IsBody ∧
        ∀ m, bodySize (t, m) = ⟨m.w + 16, m.h + 8⟩) ∨
      ¬t.IsBody ∧ ∃ f, bodyOf s' v = .error f := by
  cases t with
  | nothing =>
    obtain rfl : v = .none := hv
    exact .inl ⟨rfl, trivial, trivial, fun m => rfl⟩
  | stack p ts =>
    obtain ⟨r, rfl, hr, -, hts⟩ := shows_stack.1 hv
    rw [bodyOf, hs.toSpans.blocksOf_eq hr]
    generalize s.blocksOf r = bs at hts ⊢
    cases hts with
    | nil => exact .inl ⟨rfl, trivial, trivial, fun m => rfl⟩
    | cons => exact .inr (.inl ⟨r, rfl, rfl, trivial, fun m => rfl⟩)
  | block d ts =>
    obtain ⟨b, rfl, -⟩ := shows_block.1 hv
    exact .inr (.inr ⟨id, _, rfl⟩)
  | truth b | number m | text u =>
    obtain rfl : v = _ := hv
    exact .inr (.inr ⟨id, _, rfl⟩)

/-- The layers that are drawn for components whose slots hold trees. -/
structure Layered (n : Nat) (cs : List Component) (ts : List Tree) (current : Layer)
    (layers : List Layer) : Prop where
  ne_nil : cs ≠ [] ∨ current ≠ [] → layers ≠ []
  eq_layers : List.Forall₂ Tree.FitsSlot (cs.filter fun c => decide (c.kind ≠ .label)) ts →
    (∀ t ∈ ts, t.Fitted ∧ t.height ≤ n) →
      layers = Tree.layers cs (ts.map fun t => (t, t.measure)) current ∧
      List.Forall₂ (fun c t => c.kind = .statement → t.IsBody)
        (cs.filter fun c => decide (c.kind ≠ .label)) ts ∧ ∀ t ∈ ts, t.Bodied

section Layers

variable {n : Nat} {c : Component} {cs : List Component} {t : Tree} {ts : List Tree}
  {current : Layer} {rest : Layer → Sketch (List Layer)}

theorem layered_label (hc : c.kind = .label)
    (hr : ∀ current, Paints bad s.Grown (rest current) (Layered n cs ts current)) :
    Paints bad s.Grown (do
      let size ← Typeface.regular.write (c.text.getD "None") black
      rest (current ++ [⟨size, false⟩])) (Layered n (c :: cs) ts current) := by
  refine .bind (write ..) fun size hs => ?_
  rw [hs]
  refine (hr _).mono fun layers hl => ⟨fun _ => hl.ne_nil (.inr (by simp)), ?_⟩
  rw [filter_cons_of_neg (by simpa using hc), layers_label hc]
  exact hl.eq_layers

theorem layered_slot (hla : c.kind ≠ .label) (hbd : c.kind ≠ .statement)
    (hm : Paints bad s.Grown m fun size => t.FitsSlot c → t.Fitted → t.height ≤ n →
      size = slotSize c (t, t.measure) ∧ t.Bodied)
    (hr : ∀ current, Paints bad s.Grown (rest current) (Layered n cs ts current)) :
    Paints bad s.Grown (do
      let size ← m
      rest (current ++ [⟨size, true⟩])) (Layered n (c :: cs) (t :: ts) current) := by
  refine .bind hm fun size hs => ?_
  refine (hr _).mono fun layers hl => ⟨fun _ => hl.ne_nil (.inr (by simp)), ?_⟩
  rw [filter_cons_of_pos (by simpa using hla), map_cons, layers_slot hla hbd]
  intro hf ha
  obtain ⟨hft, hf⟩ := forall₂_cons.1 hf
  obtain ⟨hfi, hh⟩ := ha t mem_cons_self
  obtain ⟨hs, hb⟩ := hs hft hfi hh
  obtain ⟨heq, hbo, ha⟩ := hl.eq_layers hf fun u hu => ha u (mem_cons_of_mem _ hu)
  rw [← hs]
  exact ⟨heq, .cons (fun h => absurd h hbd) hbo, forall_mem_cons.2 ⟨hb, ha⟩⟩

theorem drawBody (color : Paint) (size : Size) :
    Paints bad s.Grown (Layout.drawBody color size) (· = ⟨size.w + 16, size.h + 8⟩) :=
  .andThen (draw _) fun _ => .andThen (draw _) fun _ => .pure rfl

/-- A body that is drawn, on its field. -/
theorem layered_framed (hc : c.kind = .statement)
    (hm : Paints bad s.Grown m fun size => t.IsBody ∧ (t.Fitted → t.height ≤ n →
      bodySize (t, t.measure) = ⟨size.w + 16, size.h + 8⟩ ∧ t.Bodied))
    (hr : Paints bad s.Grown (rest []) (Layered n cs ts [])) :
    Paints bad s.Grown (do
      let size ← Layout.drawBody color (← m)
      let below ← rest []
      return flush current ++ [⟨size, true⟩] :: below)
      (Layered n (c :: cs) (t :: ts) current) := by
  refine .bind hm fun size hs => ?_
  refine .bind (drawBody color size) fun framed hfr => ?_
  refine .bind hr fun layers hl => .pure ⟨fun _ => by simp, ?_⟩
  rw [filter_cons_of_pos (by simp [hc]), map_cons, layers_body hc]
  intro hf ha
  obtain ⟨-, hf⟩ := forall₂_cons.1 hf
  obtain ⟨hfi, hh⟩ := ha t mem_cons_self
  obtain ⟨hb, hbo⟩ := hs.2 hfi hh
  obtain ⟨heq, hbd, ha⟩ := hl.eq_layers hf fun u hu => ha u (mem_cons_of_mem _ hu)
  rw [hfr, hb, heq]
  exact ⟨rfl, .cons (fun _ => hs.1) hbd, forall_mem_cons.2 ⟨hbo, ha⟩⟩

theorem layered_body (hc : c.kind = .statement)
    (hn : Paints bad s.Grown (body none) (· = Layout.ellipsisSize))
    (hso : DrawsStacks bad s n fun r => body (some r)) (ht : t.Drawable)
    (hbd : bad ∨ t.IsBody ∧ t.Bodied) (hv : s.Shows t v)
    (hr : Paints bad s.Grown (rest []) (Layered n cs ts [])) : Paints bad s.Grown (do
      let stack ← Sketch.ofExcept (bodyOf (← get).store v)
      let size ← Layout.drawBody color (← body stack)
      let below ← rest []
      return flush current ++ [⟨size, true⟩] :: below)
      (Layered n (c :: cs) (t :: ts) current) := by
  refine .bind .get fun c' hc' => ?_
  rcases bodyOf_eq hc' hv with ⟨hof, hbo, hb, hsi⟩ | ⟨r, rfl, hof, hbo, hsi⟩ |
    ⟨hbo, f, hof⟩
  · refine .bind (ofExcept hof) fun stack hs => ?_
    rw [hs]
    refine layered_framed hc (hn.mono fun size h => ⟨hbo, fun _ _ => ⟨?_, hb⟩⟩) hr
    rw [hsi, h]
  · refine .bind (ofExcept hof) fun stack hs => ?_
    rw [hs]
    refine layered_framed hc ((hso t r ht (hbd.imp_right And.right) hv).mono ?_) hr
    refine fun size h => ⟨hbo, fun hf hh => ?_⟩
    obtain ⟨hm, hb⟩ := h hf hh
    exact ⟨by rw [hsi, hm], hb⟩
  · have hba : bad := hbd.resolve_right fun h => hbo h.1
    rw [hof]
    exact .bind (.throw (Q := fun _ => False) f hba) fun _ h => h.elim

end Layers

/-- The layers of a block. -/
theorem drawLayers (h : color.HasOutline) (hns : DrawsBlocks bad s n nested)
    (hno : Paints bad s.Grown (body none) (· = Layout.ellipsisSize))
    (hso : DrawsStacks bad s n fun r => body (some r)) {cs : List Component}
    (hd : ∀ c ∈ cs, c.kind ≠ .statement → c.default.IsLeaf) {vs : List Value}
    (hts : ∀ t ∈ ts, t.Drawable ∧ (bad ∨ t.Bodied))
    (hb : List.Forall₂ (fun c t => bad ∨ (c.kind = .statement → t.IsBody))
      (cs.filter fun c => decide (c.kind ≠ .label)) ts) (hvs : List.Forall₂ s.Shows ts vs)
    (current : Layer) : Paints bad s.Grown (Layout.drawLayers nested body color cs vs current)
      (Layered n cs ts current) := by
  induction cs generalizing ts vs current with
  | nil =>
    rw [filter_nil, forall₂_nil_left_iff] at hb
    rw [hb]
    refine .pure ⟨fun hne => ?_, fun _ _ => ⟨rfl, .nil, by simp⟩⟩
    cases current with
    | nil => exact absurd rfl (hne.resolve_left (fun h => h rfl))
    | cons p ps => exact cons_ne_nil _ _
  | cons c cs ih =>
    have hr := fun c hc => hd c (mem_cons_of_mem _ hc)
    by_cases hl : c.kind = .label
    · rw [filter_cons_of_neg (by simpa using hl)] at hb
      unfold Layout.drawLayers
      simp only [hl]
      exact layered_label hl fun current => ih hr hts hb hvs current
    · rw [filter_cons_of_pos (by simpa using hl)] at hb
      obtain ⟨t, ts, htb, hb', rfl⟩ := forall₂_cons_left_iff.1 hb
      obtain ⟨v, vs, hv, hv', rfl⟩ := forall₂_cons_left_iff.1 hvs
      obtain ⟨ht, hbd⟩ := hts t mem_cons_self
      have hbe := ih hr (fun t ht => hts t (mem_cons_of_mem _ ht)) hb' hv'
      unfold Layout.drawLayers
      by_cases hbo : c.kind = .statement
      · simp only [hbo]
        refine layered_body hbo hno hso ht ?_ hv (hbe [])
        exact or_and_left.2 ⟨htb.imp_right fun h => h hbo, hbd⟩
      · by_cases hn : c.kind = .varName
        · simp only [hn]
          refine layered_slot hl hbo ((nameSlot h nested hn hv).mono ?_) hbe
          exact fun size hsi hf _ _ => hsi hf
        · have hs := valueSlot h hns hn hbo (hd c mem_cons_self hbo) ht
            hbd hv
          cases hk : c.kind <;> first | contradiction | skip
          all_goals
            rw [hk] at hs
            exact layered_slot hl hbo hs hbe

/-- The shape around the layers of a block. -/
theorem assemble (h : d.color.HasOutline) {layers : List Layer} (hl : layers ≠ [])
    {remember : List (Rect Rat) → Sketch Unit}
    (hr : ∀ rects, Paints bad p (remember rects) fun _ => True) :
    Paints bad p (Layout.assemble d layers remember) (· = blockSize d layers) := by
  unfold Layout.assemble
  rw [if_neg (by simpa using hl)]
  refine .andThen (draw _) fun _ => .andThen (hr _) fun _ => ?_
  refine .andThen (.forIn _ fun _ _ => ?_) fun _ => wrap h _
  exact .andThen (draw _) fun _ => .pure rfl

/-- The surface of a stack. -/
theorem assembleStack {α : Type} (parts : List (α × BlockType × Size))
    {remember : α → Rect Int → Sketch Unit}
    (hr : ∀ a rect, Paints bad p (remember a rect) fun _ => True) :
    Paints bad p (Layout.assembleStack parts remember) (· = stackSize (parts.map (·.2))) := by
  unfold Layout.assembleStack
  refine .andThen (.forIn _ fun part _ => ?_) fun _ => .pure rfl
  obtain ⟨⟨a, type, size⟩, y⟩ := part
  exact .andThen (hr _ _) fun _ => .andThen (draw _) fun _ => .pure rfl

theorem drawEllipsis : Paints bad s.Grown Layout.drawEllipsis (· = Layout.ellipsisSize) := by
  have hl : Paints bad s.Grown (Layout.drawLayers (fun _ => return ⟨1, 1⟩)
      (fun _ => return ⟨1, 1⟩) Catalogue.ellipsis.color Catalogue.ellipsis.components [] [])
      (· = [[⟨Typeface.regular.measure "...", false⟩]]) := by
    refine .bind (write ..) fun size hs => ?_
    rw [hs]
    exact .pure rfl
  unfold Layout.drawEllipsis
  refine .bind hl fun layers h => ?_
  rw [h]
  refine .bind (assemble ⟨_, rfl⟩ (cons_ne_nil _ _) fun _ => .pure trivial) fun size hs => ?_
  rw [hs]
  exact assembleStack _ fun _ _ => .pure trivial

theorem places (id : BlockId) {f : Block → Block} (hf : ∀ b, (f b).bare = b.bare) :
    Paints bad s.Grown (Sketch.modifyStore (·.modifyBlock id f)) fun _ => True :=
  .modify fun c hc => hc.trans (grown_of_bare_eq (c.store.bare_modifyBlock id hf))

/-- The layers of a block, given how what stands in it is drawn. -/
theorem blockLayers (hbl : DrawsBlocks bad s n (Layout.drawBlockTo n))
    (hs : DrawsStacks bad s n (Layout.drawStackTo n)) {b : BlockId}
    (ht : (block (s.definitionOf b) ts).Drawable)
    (hb : bad ∨ (block (s.definitionOf b) ts).Bodied)
    (hts : List.Forall₂ s.Shows ts (s.block b).values) :
    Paints bad s.Grown (Layout.drawLayers (Layout.drawBlockTo n)
      (fun | none => Layout.drawEllipsis | some body => Layout.drawStackTo n body)
      (s.definitionOf b).color (s.definitionOf b).components (s.block b).values [])
      (Layered n (s.definitionOf b).components ts []) := by
  have hbo : List.Forall₂ (fun c t => bad ∨ (c.kind = .statement → t.IsBody))
      (s.definitionOf b).inputs ts := by
    rcases hb with hba | hb
    · exact forall₂_iff_get.2 ⟨ht.2.1.symm, fun _ _ _ => .inl hba⟩
    · exact hb.1.imp fun _ _ => .inr
  refine drawLayers ht.1.outline hbl drawEllipsis hs ht.1.default_leaf ?_ hbo hts []
  exact fun t htm => ⟨allDrawable_iff.1 ht.2.2 t htm,
    hb.imp_right fun h => allBodied_iff.1 h.2 t htm⟩

/-- Drawing a block, given how what stands in it is drawn. -/
theorem drawBlockTo (hbl : DrawsBlocks bad s n (Layout.drawBlockTo n))
    (hs : DrawsStacks bad s n (Layout.drawStackTo n)) :
    DrawsBlocks bad s (n + 1) (Layout.drawBlockTo (n + 1)) := by
  intro t b ht hbo hb
  obtain ⟨ts, rfl, hlt, hts⟩ := hb.exists_block
  have hd := ht.1
  refine .bind .get fun c hc => ?_
  have hde : (c.store.block b).definition = s.definitionOf b := hc.definition_eq b hlt
  simp only [hde, hc.values_eq b hlt]
  refine .bind (blockLayers hbl hs ht hbo hts) fun layers hl => ?_
  refine .bind (assemble hd.outline (hl.ne_nil (.inl hd.components_ne_nil))
    fun slots => places b fun _ => rfl) fun size hsi => ?_
  refine .andThen (places b fun _ => rfl) fun _ => .pure ?_
  intro hf hh
  obtain ⟨heq, hbd, ha⟩ := hl.eq_layers hf.1 fun t ht =>
    ⟨Tree.allFitted_iff.1 hf.2 t ht,
      (Tree.height_le_heights ht).trans (Nat.le_of_succ_le_succ hh)⟩
  rw [hsi, Tree.measure, Tree.measures_eq_map, heq]
  exact ⟨rfl, hbd, Tree.allBodied_iff.2 ha⟩

/-- A block of a stack as it was drawn. -/
def PartOf (s : Store) (n : Nat) (b : BlockId) (part : BlockId × BlockType × Size) : Prop :=
  part.1 = b ∧ part.2.1 = (s.definitionOf b).blockType ∧
    ∀ t, s.Shows t (.block b) → t.Fitted → t.height ≤ n → part.2.2 = t.measure ∧ t.Bodied

theorem parts_eq {parts : List (BlockId × BlockType × Size)}
    (hts : List.Forall₂ (fun t b => s.Shows t (.block b)) ts bs)
    (hp : List.Forall₂ (PartOf s n) bs parts) (ha : ∀ t ∈ ts, t.Fitted ∧ t.height ≤ n) :
    parts.map (·.2) =
        (ts.map fun t => (t, t.measure)).map (fun slot => (slot.1.blockType, slot.2)) ∧
      ∀ t ∈ ts, t.Bodied := by
  induction hts generalizing parts with
  | nil =>
    cases hp with
    | nil => exact ⟨rfl, by simp⟩
  | @cons t b ts bs ht _ ih =>
    cases hp with
    | @cons _ part _ parts hpa hp =>
      obtain ⟨hf, hh⟩ := ha t mem_cons_self
      obtain ⟨hs, hb⟩ := hpa.2.2 t ht hf hh
      obtain ⟨heq, ha⟩ := ih hp fun u hu => ha u (mem_cons_of_mem _ hu)
      have hty : t.blockType = part.2.1 := by
        obtain ⟨us, rfl, -⟩ := ht.exists_block
        exact hpa.2.1.symm
      refine ⟨?_, forall_mem_cons.2 ⟨hb, ha⟩⟩
      rw [map_cons, map_cons, map_cons, heq, hty, ← hs]

/-- The blocks of a stack, given how they are drawn. -/
theorem stackParts (hbl : DrawsBlocks bad s n (Layout.drawBlockTo n))
    (hch : ∀ t ∈ ts, t.Drawable ∧ (bad ∨ t.Bodied))
    (hts : List.Forall₂ (fun t b => s.Shows t (.block b)) ts bs) :
    Paints bad s.Grown (bs.mapM fun b => do
      let size ← Layout.drawBlockTo n b
      return (b, ((← get).store.definitionOf b).blockType, size)) (List.Forall₂ (PartOf s n) bs) := by
  refine .mapM _ fun b hb => ?_
  obtain ⟨t, htm, hbt⟩ := exists_of_forall₂_left hts.flip hb
  obtain ⟨ht, hbo⟩ := hch t htm
  refine .bind (hbl t b ht hbo hbt) fun size hs => ?_
  refine .bind .get fun c hc => .pure ⟨rfl, ?_, fun u hu => ?_⟩
  · obtain ⟨-, -, hlt, -⟩ := hbt.exists_block
    rw [hc.definition_eq b hlt]
  · rw [hu.unique hbt]
    exact hs

/-- Drawing a stack, given how its blocks are drawn. -/
theorem drawStackTo (hb : DrawsBlocks bad s n (Layout.drawBlockTo n)) :
    DrawsStacks bad s (n + 1) (Layout.drawStackTo (n + 1)) := by
  intro t r ht hbo hr
  obtain ⟨p, ts, rfl, hs, -, hts⟩ := hr.exists_stack
  refine .bind .get fun c hc => ?_
  rw [hc.toSpans.blocksOf_eq hs]
  have hp := stackParts hb (fun t htm => ⟨Tree.allDrawable_iff.1 ht t htm,
    hbo.imp_right fun h => Tree.allBodied_iff.1 h t htm⟩) hts
  refine .bind hp fun parts hp => ?_
  refine .mono (assembleStack parts fun b rect => ?_) ?_
  · exact places b fun _ => rfl
  · intro size hsi hf hh
    obtain ⟨heq, ha⟩ := parts_eq hts hp fun t ht =>
      ⟨Tree.allFitted_iff.1 hf t ht,
        (Tree.height_le_heights ht).trans (Nat.le_of_succ_le_succ hh)⟩
    rw [hsi, Tree.measure, Tree.measures_eq_map, heq]
    exact ⟨rfl, Tree.allBodied_iff.2 ha⟩

/-- Drawing a block or a stack, to any depth. -/
theorem drawTo (bad : Prop) (s : Store) (n : Nat) :
    DrawsBlocks bad s n (Layout.drawBlockTo n) ∧ DrawsStacks bad s n (Layout.drawStackTo n) := by
  induction n with
  | zero =>
    refine ⟨fun t b _ _ hb => .pure fun _ hh => ?_, fun t r _ _ hr =>
      .pure fun _ hh => ?_⟩
    · obtain ⟨ts, rfl, -⟩ := hb.exists_block
      exact absurd hh (Nat.not_succ_le_zero _)
    · obtain ⟨p, ts, rfl, -⟩ := hr.exists_stack
      exact absurd hh (Nat.not_succ_le_zero _)
  | succ n ih => exact ⟨drawBlockTo ih.1 ih.2, drawStackTo ih.1⟩

theorem depth_le_of_grown (h : s.Grown s') : s.depth ≤ s'.depth :=
  Nat.succ_le_succ (Nat.add_le_add h.blocks_le h.stacks_le)

/-- Drawing a block or a stack down to its leaves. -/
theorem sketch (bad : Prop) (s : Store) :
    DrawsBlocks bad s s.depth Sketch.block ∧ DrawsStacks bad s s.depth Sketch.stack := by
  refine ⟨fun t b ht hbo hb => .bind .get fun c hc => ?_,
    fun t r ht hbo hr => .bind .get fun c hc => ?_⟩
  · exact ((drawTo bad s _).1 t b ht hbo hb).mono fun size h hf hh =>
      h hf (hh.trans (depth_le_of_grown hc))
  · exact ((drawTo bad s _).2 t r ht hbo hr).mono fun size h hf hh =>
      h hf (hh.trans (depth_le_of_grown hc))

end Paints

section Stacks

variable {s : Store} {t : Tree} {r : StackId} {c : Canvas}

/-- Drawing a stack whose slots for bodies hold stacks or nothing ends well; the surface has the size
of the tree. -/
theorem exists_sketch_stack (hs : s.Grown c.store) (ht : t.Known) (hb : t.Bodied)
    (hr : s.Shows t (.stack r)) :
    ∃ size c', Sketch.stack r c = .ok size c' ∧ (t.Fitted → size = t.measure) := by
  obtain ⟨size, c', hru, -, hsi⟩ :=
    ((Paints.sketch False s).2 t r ht.drawable (.inr hb) hr).run hs
  exact ⟨size, c', hru, fun hf => (hsi hf hr.height_lt_depth.le).1⟩

/-- What can be drawn has the size of its tree. -/
theorem measure_of_sketch_stack {size : Size} {c' : Canvas} (hs : s.Grown c.store)
    (h : Sketch.stack r c = .ok size c') (ht : t.Known) (hf : t.Fitted)
    (hr : s.Shows t (.stack r)) : size = t.measure ∧ t.Bodied :=
  (((Paints.sketch True s).2 t r ht.drawable (.inl trivial) hr).ok hs h).2 hf
    hr.height_lt_depth.le

end Stacks

end BlockStudio
