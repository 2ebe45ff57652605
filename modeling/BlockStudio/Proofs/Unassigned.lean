import BlockStudio.Proofs.LoopControl
import BlockStudio.Proofs.Mirror
import BlockStudio.Proofs.SoundStore

/-!
# Variables that a program does not assign

A program assigns variables only through the slots that are made for it: the first slots of blocks that
set, increment and decrement, and of loops over the items of a list.  Whatever the program does, for
however long and even if it fails, every other variable keeps its value, or stays unknown, and no
variable goes away.

The program is mirrored by itself, and its variables are compared with those at the start.
-/

namespace BlockStudio

open List

variable {v : Value} {i : Nat} {b : BlockId}

/-! ## The blocks of a program -/

namespace Store

/-- A value bears a block: it is the block, or a list with an item that does, or a stack that shows it
or has it in its place. -/
inductive Bears (s : Store) (b : BlockId) : Value → Prop
  | block : Bears s b (.block b)
  | list {items : List Value} {v : Value} (hv : v ∈ items) (h : Bears s b v) :
    Bears s b (.list items)
  | row {t : StackId} (h : b ∈ s.blocksOf t) : Bears s b (.stack t)
  | position {t : StackId} {p : List Value} {v : Value} (hp : (s.stack t).position = some p)
    (hv : v ∈ p) (h : Bears s b v) : Bears s b (.stack t)

/-- A block of the program that a stack is: in its row, in the blank stack that unfilled bodies stand
for, or in a slot of such a block. -/
inductive Part (s : Store) (t : StackId) : BlockId → Prop
  | row {b : BlockId} (h : b ∈ s.blocksOf t) : Part s t b
  | blank {b : BlockId} (h : b ∈ s.blocksOf blankStack) : Part s t b
  | slot {b c : BlockId} {v : Value} (hc : Part s t c) (hv : v ∈ (s.block c).values)
    (hb : s.Bears b v) : Part s t b

/-- A program of the catalogue whose slots for variables hold texts. -/
structure Program (s : Store) (t : StackId) : Prop where
  known {b : BlockId} : s.Part t b → (s.definitionOf b).Known
  names {b : BlockId} {i : Nat} {v : Value} : s.Part t b → s.IsName b i →
    (s.block b).values[i]? = some v → ∃ x, v = .text x

/-- The program has a slot that takes this name in order to assign the variable. -/
def Assigns (s : Store) (t : StackId) (x : String) : Prop :=
  ∃ b i, s.Part t b ∧ i ∈ (s.definitionOf b).action.assigned ∧
    (s.block b).values[i]? = some (.text x)

/-- A value without blocks. -/
def Blockless (s : Store) (v : Value) : Prop := ∀ b, ¬s.Bears b v

theorem blockless_of_plain (s : Store) (h : v.plain = true) : s.Blockless v := by
  intro b hb
  induction hb with
  | block => cases h
  | list hv _ ih => exact ih (Value.plainAll_iff.1 h _ hv)
  | row _ => cases h
  | position => cases h

end Store

/-- The action takes names only in slots for them. -/
theorem known_names {d : Definition} (hd : d.Known) (hi : i ∈ d.action.names) :
    ∃ c, d.inputs[i]? = some c ∧ c.kind = .varName := by
  have hc : ∀ d ∈ Catalogue.blocks, ∀ i ∈ d.action.names,
      (d.inputs[i]?).map (·.kind) = some .varName := by
    decide +kernel
  obtain hd | ⟨ha, -⟩ := hd
  · simpa using hc d hd i hi
  · simp [ha, Action.names] at hi

/-! ## Variables named by texts -/

namespace Environment

variable {s : Store} {x : String} {k v : Value} {gs : List (Value × Value)}

theorem sameKey_text : s.sameKey k (.text x) = true ↔ k = .text x := by
  cases k <;> simp [Store.sameKey, Value.identical, Value.equalPlain, Value.parts?]

theorem text_sameKey : s.sameKey (.text x) k = true ↔ k = .text x := by
  cases k with
  | text y =>
    simp only [Store.sameKey, Value.identical, Value.equalPlain, Value.parts?, Value.text.injEq]
    simpa using eq_comm
  | _ => simp [Store.sameKey, Value.identical, Value.equalPlain, Value.parts?]

/-- Assigning a variable leaves the others alone. -/
theorem find?_putGlobal_of_ne (hk : k ≠ .text x) :
    ((putGlobal s (.text x) v gs).find? fun g => s.sameKey g.1 k) =
      gs.find? fun g => s.sameKey g.1 k := by
  have hx : s.sameKey (.text x) k = false := by simpa using mt text_sameKey.1 hk
  induction gs with
  | nil => simp [putGlobal, hx]
  | cons g rest ih =>
    obtain ⟨n, w⟩ := g
    unfold putGlobal
    split
    · rename_i hn
      rw [sameKey_text.1 hn]
      simp [hx]
    · simp only [find?_cons, ih]

/-- Assigning a variable keeps all names, and in their order. -/
theorem keys_prefix_putGlobal : gs.map Prod.fst <+: (putGlobal s k v gs).map Prod.fst := by
  induction gs with
  | nil => exact nil_prefix
  | cons g rest ih =>
    obtain ⟨n, w⟩ := g
    unfold putGlobal
    split
    · exact prefix_rfl
    · simpa using ih

end Environment

/-! ## What a run leaves alone -/

namespace Store

variable {s : Store} {t : StackId}

/-- Variables after some steps, compared with those at the start. -/
structure Frame (s : Store) (t : StackId) (start gs : List (Value × Value)) : Prop where
  keys : start.map Prod.fst <+: gs.map Prod.fst
  find {k : Value} : (∀ x, k = .text x → ¬s.Assigns t x) →
    (gs.find? fun g => s.sameKey g.1 k) = start.find? fun g => s.sameKey g.1 k
  values : ∀ g ∈ gs, ∀ b, s.Bears b g.2 → s.Part t b

/-- The program beside itself.  Variables hold no blocks but those of the program. -/
def framed (s : Store) (t : StackId) (start : List (Value × Value)) : Mirror where
  left := s
  right := s
  program := s.Part t
  good v := ∀ b, s.Bears b v → s.Part t b
  bodies u u' := u' = u ∧ ∀ b ∈ s.blocksOf u, s.Part t b
  rows r r' := r' = r ∧ ∀ b ∈ s.row r, s.Part t b
  name v w := w = v ∧ ∃ x, v = .text x
  target v w := w = v ∧ ∃ x, v = .text x ∧ s.Assigns t x
  globals gs hs := hs = gs ∧ s.Frame t start gs

theorem slot_framed (hs : s.Program t) (start : List (Value × Value)) (hb : s.Part t b)
    (hv : (s.block b).values[i]? = some v) : (s.framed t start).Slot (s.definitionOf b) i v v := by
  by_cases hn : i ∈ (s.definitionOf b).action.names
  · obtain ⟨x, rfl⟩ := hs.names hb (known_names (hs.known hb) hn) hv
    refine .value rfl rfl ?_
    rw [Mirror.Arg, if_pos hn]
    exact ⟨⟨rfl, x, rfl⟩, fun hi => ⟨rfl, x, rfl, b, i, hb, hi, hv⟩⟩
  · have hg : ∀ b', s.Bears b' v → s.Part t b' := fun _ => .slot hb (mem_of_getElem? hv)
    have ha : (s.framed t start).Arg (s.definitionOf b).action i v v := by
      rw [Mirror.Arg, if_neg hn]
      exact .inl ⟨rfl, hg⟩
    cases v with
    | block b' => exact .block (hg b' .block) fun h => absurd h hn
    | none => exact .unfilled fun h => absurd h hn
    | _ => exact .value rfl rfl ha

theorem lawful_framed (hs : s.Program t) (start : List (Value × Value)) :
    (s.framed t start).Lawful where
  row := by
    rintro r _ ⟨rfl, hr⟩
    exact ⟨rfl, hr⟩
  body := by
    rintro u _ ⟨rfl, hr⟩
    exact ⟨rfl, hr⟩
  definition _ := rfl
  known := hs.known
  values {b} hb := by
    refine Along.of_getElem? rfl fun j v w hv hw => ?_
    cases hv.symm.trans hw
    rw [Nat.zero_add]
    exact slot_framed hs start hb hv
  blank := ⟨rfl, fun _ => .blank⟩
  good_of_plain h b hb := (s.blockless_of_plain h b hb).elim
  good_of_mem h hv b hb := h b (.list hv hb)
  program_of_good h := h _ .block
  bodies_of_good h := ⟨rfl, fun b hb => h b (.row hb)⟩
  plain_eq _ := rfl
  digest := by rintro v _ (⟨rfl, -⟩ | ⟨rfl, -⟩) <;> rfl
  lookup {v w gs hs} hn h := by
    obtain ⟨rfl, -⟩ := hn
    obtain ⟨rfl, hf⟩ := h
    cases hfi : hs.find? fun g => s.sameKey g.1 w with
    | none => exact .inl ⟨hfi, hfi⟩
    | some g =>
      exact .inr ⟨g.1, g.1, g.2, hfi, hfi, hf.values g (mem_of_find?_eq_some hfi)⟩
  assign {v w value gs hs} ht hv h := by
    obtain ⟨rfl, x, rfl, hx⟩ := ht
    obtain ⟨rfl, hf⟩ := h
    refine ⟨rfl, hf.keys.trans Environment.keys_prefix_putGlobal, fun hk => ?_,
      Run.forall_putGlobal s _ hv hf.values⟩
    rw [← hf.find hk]
    exact Environment.find?_putGlobal_of_ne fun hkx => hk x hkx hx

end Store

/-- A program whose slots for variables hold texts runs for any number of steps, the last of which may
fail, in a scene whose variables hold no blocks.  Every name that no slot of the program assigns then
stands for the same value as at the start, or is unknown as at the start, and the names that were there
are still there, in the same order. -/
theorem Run.follow_unassigned {s : Store} {t : StackId} (hs : s.Program t) {scene : Scene}
    (hscene : ∀ g ∈ scene.env.globals, s.Blockless g.2) (limits : Limits) (count : Nat) :
    (∀ k, (∀ x, k = .text x → ¬s.Assigns t x) →
      (Run.follow s limits count (Run.program t) scene).2.2.env.get s k = scene.env.get s k) ∧
    scene.env.globals.map Prod.fst <+:
      (Run.follow s limits count (Run.program t) scene).2.2.env.globals.map Prod.fst := by
  have hstart : s.Frame t scene.env.globals scene.env.globals :=
    ⟨prefix_rfl, fun _ => rfl, fun g hg b hb => (hscene g hg b hb).elim⟩
  have hprogram : (s.framed t scene.env.globals).Twins (Run.program t) (Run.program t) :=
    .cons (.stack ⟨rfl, fun _ => .row⟩) .nil
  have hscenes : (s.framed t scene.env.globals).Scenes scene scene := ⟨_, ⟨rfl, hstart⟩, rfl⟩
  obtain ⟨-, -, gs, ⟨-, hframe⟩, -⟩ := Mirror.follow
    (Store.lawful_framed hs scene.env.globals) limits count hprogram hscenes
  change s.Frame t scene.env.globals
    (Run.follow s limits count (Run.program t) scene).2.2.env.globals at hframe
  refine ⟨fun k hk => ?_, hframe.keys⟩
  simp only [Environment.get]
  rw [hframe.find hk]

/-! ## A program that fails in the end -/

/-- Whether slots for variables hold texts. -/
def Block.namesTexts (b : Block) : Bool :=
  b.values.zipIdx.all fun (v, i) =>
    match b.definition.inputs[i]?, v with
    | some _, .text _ => true
    | some c, _ => c.kind != .varName
    | none, _ => true

/-- What a check says of all blocks of a store, it says of every identity. -/
theorem Store.block_of_all {s : Store} {p : Block → Bool} (hs : s.blocks.toList.all p = true)
    (hd : p default = true) (b : BlockId) : p (s.block b) = true := by
  unfold Store.block
  by_cases hi : b.index < s.blocks.size
  · rw [Array.getD_eq_getD_getElem?, Array.getElem?_eq_getElem hi]
    exact all_eq_true.1 hs _ (by simp)
  · rw [Array.getD_eq_getD_getElem?, Array.getElem?_eq_none (by omega)]
    exact hd

theorem Store.exists_text {s : Store} (hs : s.blocks.toList.all Block.namesTexts = true)
    (hn : s.IsName b i) (hv : (s.block b).values[i]? = some v) : ∃ x, v = .text x := by
  obtain ⟨c, hc, hk⟩ := hn
  have hsl := all_eq_true.1 (Store.block_of_all hs rfl b) (v, i) (mem_zipIdx_iff_getElem?.2 hv)
  rw [Store.definitionOf] at hc
  cases v <;> simp_all

namespace Run

/-- For each item of a list, increment a total.  Then say the value of a variable. -/
def tallies : Store :=
  let s := (Store.empty.addBlock (named "increment") [.text "total", .int 2]).2
  let s := (s.addStack [⟨0⟩] none).2
  let s := (s.addBlock (named "for") [.text "item", .text "items", .stack ⟨1⟩]).2
  let s := (s.addBlock (named "get-var") [.text "missing"]).2
  let s := (s.addBlock (named "print") [.block ⟨2⟩]).2
  (s.addStack [⟨1⟩, ⟨3⟩] none).2

theorem program_tallies : tallies.Program ⟨2⟩ where
  known {b} _ := by
    obtain ⟨_ | _ | _ | _ | n⟩ := b
    · exact .inl (named_mem "increment" (by decide +kernel))
    · exact .inl (named_mem "for" (by decide +kernel))
    · exact .inl (named_mem "get-var" (by decide +kernel))
    · exact .inl (named_mem "print" (by decide +kernel))
    · exact .inr ⟨rfl, rfl⟩
  names _ hn hv := Store.exists_text (by decide +kernel) hn hv

/-- The list, the total that it is added to, and another variable. -/
def tallied : Scene :=
  { env := { globals := [(.text "items", .list [.int 1, .int 2]), (.text "total", .int 0),
      (.text "title", .text "Sum")] } }

theorem blockless_tallied : ∀ g ∈ tallied.env.globals, tallies.Blockless g.2 := by
  have hp : tallied.env.globals.all (·.2.plain) = true := by decide +kernel
  exact fun g hg => tallies.blockless_of_plain (all_eq_true.1 hp g hg)

theorem not_assigns_title : ¬tallies.Assigns ⟨2⟩ "title" := by
  rintro ⟨⟨_ | _ | _ | _ | n⟩, i, -, hi, hv⟩
  · cases mem_singleton.1 (show i ∈ [0] from hi)
    simpa using (show some (Value.text "total") = some (.text "title") from hv)
  · cases mem_singleton.1 (show i ∈ [0] from hi)
    simpa using (show some (Value.text "item") = some (.text "title") from hv)
  · cases hi
  · cases hi
  · cases hi

/-- Whatever the loop and the failing block behind it do, the other variable stays as it is. -/
theorem follow_unassigned_tallied :
    tallies.Program ⟨2⟩ ∧ (∀ g ∈ tallied.env.globals, tallies.Blockless g.2) ∧
      ¬tallies.Assigns ⟨2⟩ "title" ∧ ∀ limits count,
        (follow tallies limits count (program ⟨2⟩) tallied).2.2.env.get tallies (.text "title") =
          .ok (.text "Sum") := by
  refine ⟨program_tallies, blockless_tallied, not_assigns_title, fun limits count => ?_⟩
  refine ((follow_unassigned program_tallies blockless_tallied limits count).1
    (.text "title") ?_).trans rfl
  rintro x ⟨⟩
  exact not_assigns_title

end Run

end BlockStudio
