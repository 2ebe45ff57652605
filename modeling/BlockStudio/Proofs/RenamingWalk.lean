import BlockStudio.Proofs.Depicted
import BlockStudio.Proofs.Tidy

/-!
# Renaming through all blocks

Renaming walks through the slots of a block, into the blocks that stand there and into bodies.  After a
body the walk takes the kind of the next slot from the last block of that body, `Store.asked`.  So a slot
for a name can hide a later body of the block: `Store.Skips`.  Where no block does, every slot for a name
below the block that held the old one holds the new one, `Renaming.sweeps_renameInBlock`, and so it is in
all that can be reached from the workspace, `Edit.renameEverywhere_clears`.  The walk goes as deep as the
store is large, and no block lies deeper: `Store.Under.depth`.
-/

namespace BlockStudio

open List

variable {b c d reading : BlockId} {i n : Nat} {tops : List StackId} {bs : List BlockId} {k : Nat}
  {e : Editor} {α : Type}

/-- Behind a body a block has only bodies. -/
theorem statement_of_statement {d : Definition} (hd : d ∈ Catalogue.blocks) {j : Nat} (hjk : j < k)
    {b c : Component} (hb : d.inputs[j]? = some b) (hki : b.kind = .statement)
    (hc : d.inputs[k]? = some c) : c.kind = .statement := by
  have ha : ∀ d ∈ Catalogue.blocks,
      d.inputs.Pairwise fun b c => b.kind = .statement → c.kind = .statement := by
    decide +kernel
  obtain ⟨hj, rfl⟩ := List.getElem?_eq_some_iff.1 hb
  obtain ⟨hk, rfl⟩ := List.getElem?_eq_some_iff.1 hc
  exact pairwise_iff_getElem.1 (ha d hd) j k hj hk hjk hki

namespace Store

variable {s s' s'' : Store} {old new : Value} {v : Value}

/-! ## Slots that are given a new name -/

/-- Some slots for variables were given the new name, and nothing else changed. -/
structure Rewords (new : Value) (s s' : Store) : Prop where
  blocks_eq : s'.blocks.size = s.blocks.size
  stacks_eq : s'.allStacks.size = s.allStacks.size
  row : ∀ t, s'.blocksOf t = s.blocksOf t
  definition : ∀ b, s'.definitionOf b = s.definitionOf b
  slot : ∀ b i, s'.slot? b i = s.slot? b i ∨ s.IsName b i ∧ s'.slot? b i = some new

theorem Rewords.isName (h : Rewords new s s') : s'.IsName b i ↔ s.IsName b i := by
  rw [IsName, h.definition, IsName]

theorem rewords_of_bare (h : s'.bare = s.bare) : Rewords new s s' where
  blocks_eq := by rw [← size_blocks_bare, h, size_blocks_bare]
  stacks_eq := by rw [← size_allStacks_bare, h, size_allStacks_bare]
  row t := by rw [← blocksOf_bare, h, blocksOf_bare]
  definition b := by rw [← definitionOf_bare, h, definitionOf_bare]
  slot b i := by
    left
    rw [slot?, slot?, ← values_bare, h, values_bare]

theorem Rewords.refl (s : Store) : Rewords new s s := rewords_of_bare rfl

theorem Rewords.trans (h : Rewords new s s') (h' : Rewords new s' s'') : Rewords new s s'' where
  blocks_eq := h'.blocks_eq.trans h.blocks_eq
  stacks_eq := h'.stacks_eq.trans h.stacks_eq
  row t := (h'.row t).trans (h.row t)
  definition b := (h'.definition b).trans (h.definition b)
  slot b i := by
    rcases h'.slot b i with heq | ⟨hn, hne⟩
    · exact (h.slot b i).imp heq.trans fun ⟨hn, hne⟩ => ⟨hn, heq.trans hne⟩
    · exact .inr ⟨h.isName.1 hn, hne⟩

theorem rewords_setValue (hn : s.IsName b i) (hi : i < (s.block b).values.length) :
    Rewords new s (s.setValue b i new) where
  blocks_eq := by simp
  stacks_eq := rfl
  row t := by simp
  definition c := by simp
  slot c j := by
    by_cases hcj : c = b ∧ j = i
    · obtain ⟨rfl, rfl⟩ := hcj
      exact .inr ⟨hn, slot?_setValue_self (getElem?_eq_getElem hi)⟩
    · exact .inl (slot?_setValue_of_ne new hcj)

/-- Blocks and stacks stay in their slots. -/
theorem Rewords.slot_node (h : Rewords new s s') (hs : s.Sound) (hne : new.Literal) (hv : v.IsNode) :
    s'.slot? b i = some v ↔ s.slot? b i = some v := by
  rcases h.slot b i with heq | ⟨hn, hsl⟩
  · rw [heq]
  · constructor
    · intro hv'
      obtain rfl : new = v := Option.some.inj (hsl.symm.trans hv')
      exact absurd hv hne.not_isNode
    · exact fun hv' => absurd hv (hs.literal_of_isName hn hv').not_isNode

/-- A live set stays one, with the names that its slots hold now. -/
theorem Tidy.rewords {named named' live : Value → Prop} (h : s.Tidy named live) (hr : Rewords new s s')
    (hne : new.Literal)
    (hna : ∀ b i v, live (.block b) → s.IsName b i → s'.slot? b i = some v → v = .none ∨ named' v) :
    s'.Tidy named' live where
  stack_lt t ht := hr.stacks_eq ▸ h.stack_lt t ht
  block_lt b hb := hr.blocks_eq ▸ h.block_lt b hb
  row t b ht hb := h.row t b ht (hr.row t ▸ hb)
  slot b i v hb hv hn := by
    rcases hr.slot b i with heq | ⟨-, hs⟩
    · exact h.slot b i v hb (heq ▸ hv) hn
    · obtain rfl : new = v := Option.some.inj (hs.symm.trans hv)
      exact absurd hn hne.not_isNode
  name b i v hb hi := hna b i v hb (hr.isName.1 hi)

theorem tidy_bare {named live : Value → Prop} : s.bare.Tidy named live ↔ s.Tidy named live := by
  have hr : Rewords .none s.bare s := rewords_of_bare (bare_bare s).symm
  have hr' : Rewords .none s s.bare := rewords_of_bare (bare_bare s)
  exact ⟨fun h => h.rewords hr trivial fun b i v hb hn hv => h.name b i v hb hn (slot?_bare s .. ▸ hv),
    fun h => h.rewords hr' trivial fun b i v hb hn hv => h.name b i v hb hn (slot?_bare s .. ▸ hv)⟩

/-! ## Blocks below a block -/

/-- A block stands in a slot or in the body there. -/
def InSlot (s : Store) (b : BlockId) (i : Nat) (c : BlockId) : Prop :=
  s.slot? b i = some (.block c) ∨ ∃ t, s.slot? b i = some (.stack t) ∧ c ∈ s.blocksOf t

/-- A block lies below another one, at fewer than `n` levels. -/
def Under (s : Store) : Nat → BlockId → BlockId → Prop
  | 0, _, _ => False
  | n + 1, b, d => d = b ∨ ∃ i c, s.InSlot b i c ∧ s.Under n c d

theorem Under.step (h : s.Under n b c) (hd : s.InSlot c i d) : s.Under (n + 1) b d := by
  induction n generalizing b with
  | zero => exact h.elim
  | succ n ih =>
    obtain rfl | ⟨j, c', hc', h⟩ := h
    · exact .inr ⟨i, d, hd, .inl rfl⟩
    · exact .inr ⟨j, c', hc', ih h⟩

theorem Under.eq_or_step (h : s.Under (n + 1) b d) : d = b ∨ ∃ c i, s.Under n b c ∧ s.InSlot c i d := by
  induction n generalizing b with
  | zero =>
    obtain rfl | ⟨_, _, _, h⟩ := h
    · exact .inl rfl
    · exact h.elim
  | succ n ih =>
    obtain rfl | ⟨i, c, hc, h⟩ := h
    · exact .inl rfl
    · obtain rfl | ⟨c', j, hc', hd⟩ := ih h
      · exact .inr ⟨b, i, .inl rfl, hc⟩
      · exact .inr ⟨c', j, .inr ⟨i, c, hc, hc'⟩, hd⟩

theorem Under.succ (h : s.Under n b d) : s.Under (n + 1) b d := by
  induction n generalizing b with
  | zero => exact h.elim
  | succ n ih => exact h.imp_right fun ⟨i, c, hc, h⟩ => ⟨i, c, hc, ih h⟩

theorem Under.mono {m : Nat} (h : s.Under m b d) (hmn : m ≤ n) : s.Under n b d := by
  induction n, hmn using Nat.le_induction with
  | base => exact h
  | succ n _ ih => exact ih.succ

theorem Sound.inSlot_lt (hs : s.Sound) (h : s.InSlot b i c) : c.index < s.blocks.size := by
  rcases h with h | ⟨t, -, h⟩
  · exact hs.block_lt h
  · exact hs.mem_blocksOf h

theorem Sound.under_lt (hs : s.Sound) (hb : b.index < s.blocks.size) (h : s.Under n b d) :
    d.index < s.blocks.size := by
  cases n with
  | zero => exact h.elim
  | succ n =>
    obtain rfl | ⟨c, i, -, hd⟩ := h.eq_or_step
    · exact hb
    · exact hs.inSlot_lt hd

open Classical in
/-- The numbers of the blocks below a block, at fewer than `n` levels. -/
noncomputable def numbersUnder (s : Store) (b : BlockId) (n : Nat) : Finset Nat :=
  (Finset.range s.blocks.size).filter fun k => s.Under n b ⟨k⟩

theorem mem_numbersUnder : k ∈ s.numbersUnder b n ↔ k < s.blocks.size ∧ s.Under n b ⟨k⟩ := by
  simp [numbersUnder]

/-- No block lies deeper than the store is large. -/
theorem Under.depth (hs : s.Sound) (hb : b.index < s.blocks.size) (h : s.Under n b d) :
    s.Under s.depth b d := by
  have hg : ∀ n, s.numbersUnder b n ⊆ s.numbersUnder b (n + 1) := fun n k hk =>
    mem_numbersUnder.2 ((mem_numbersUnder.1 hk).imp_right Under.succ)
  have hst : ∀ n, s.numbersUnder b n = s.numbersUnder b (n + 1) →
      s.numbersUnder b (n + 1) = s.numbersUnder b (n + 2) := by
    refine fun n hn => (hg _).antisymm fun k hk => ?_
    obtain ⟨hk, hu⟩ := mem_numbersUnder.1 hk
    refine mem_numbersUnder.2 ⟨hk, ?_⟩
    obtain rfl | ⟨c, i, hc, hd⟩ := hu.eq_or_step
    · exact .inl rfl
    · have hm : c.index ∈ s.numbersUnder b n := by
        rw [hn]
        exact mem_numbersUnder.2 ⟨hs.under_lt hb hc, hc⟩
      exact (mem_numbersUnder.1 hm).2.step hd
  have hbo : ∀ n, s.numbersUnder b n ⊆ Finset.range s.blocks.size := fun n k hk =>
    Finset.mem_range.2 (mem_numbersUnder.1 hk).1
  have ha := subset_of_stays hg hst hbo n
  have hm := ha (mem_numbersUnder.2 ⟨hs.under_lt hb h, h⟩)
  refine (mem_numbersUnder.1 hm).2.mono ?_
  rw [Store.depth]
  omega

/-- What can be reached from some stacks lies below a block of their rows. -/
theorem exists_under_of_reached (h : Forest.Reached s tops (.block d)) :
    ∃ t ∈ tops, ∃ b ∈ s.blocksOf t, ∃ n, s.Under n b d := by
  -- a stack is one of the tops, or the body of a block that lies below
  suffices ha : ∀ v, Forest.Reached s tops v →
      (∀ d, v = .block d → ∃ t ∈ tops, ∃ b ∈ s.blocksOf t, ∃ n, s.Under n b d) ∧
      ∀ u, v = .stack u → u ∈ tops ∨
        ∃ t ∈ tops, ∃ b ∈ s.blocksOf t, ∃ n c i, s.Under n b c ∧ s.slot? c i = some (.stack u) from
    (ha _ h).1 d rfl
  intro v hv
  induction hv with
  | top ht => exact ⟨nofun, fun u hu => .inl (Value.stack.inj hu ▸ ht)⟩
  | row _ hb ih =>
    refine ⟨fun d hd => ?_, nofun⟩
    cases hd
    obtain ht | ⟨t, ht, b, hbt, n, c, i, hc, hs⟩ := ih.2 _ rfl
    · exact ⟨_, ht, _, hb, 1, .inl rfl⟩
    · exact ⟨t, ht, b, hbt, n + 1, hc.step (.inr ⟨_, hs, hb⟩)⟩
  | slot _ hs ih =>
    obtain ⟨t, ht, b, hb, n, hc⟩ := ih.1 _ rfl
    refine ⟨fun d hd => ⟨t, ht, b, hb, n + 1, hc.step (.inl (hd ▸ hs))⟩, fun u hu => ?_⟩
    exact .inr ⟨t, ht, b, hb, n, _, _, hc, hu ▸ hs⟩

theorem reached_of_under (h : s.Under n b d) (hb : Forest.Reached s tops (.block b)) :
    Forest.Reached s tops (.block d) := by
  induction n generalizing b with
  | zero => exact h.elim
  | succ n ih =>
    obtain rfl | ⟨i, c, hc | ⟨t, ht, hc⟩, h⟩ := h
    · exact hb
    · exact ih h (.slot hb hc)
    · exact ih h (.row (.slot hb ht) hc)

/-! ## The blocks that are asked -/

/-- A body is passed over, since the last block of an earlier body has a slot for a variable with its
number. -/
def Skips (s : Store) (b : BlockId) : Prop :=
  ∃ j k t last u, j < k ∧ s.slot? b j = some (.stack t) ∧ (s.blocksOf t).getLast? = some last ∧
    s.IsName last k ∧ s.slot? b k = some (.stack u)

/-- The block that tells what the value of slot `i` is: the block itself, or the last one of an earlier
body. -/
def ReadBy (s : Store) (b : BlockId) (i : Nat) (reading : BlockId) : Prop :=
  reading = b ∨ ∃ j < i, ∃ t, s.slot? b j = some (.stack t) ∧ (s.blocksOf t).getLast? = some reading

theorem ReadBy.succ (h : s.ReadBy b i reading) : s.ReadBy b (i + 1) reading :=
  h.imp_right fun ⟨j, hj, ht⟩ => ⟨j, hj.trans (Nat.lt_succ_self i), ht⟩

/-- Behind a body no slot is for a variable. -/
theorem ReadBy.eq_of_isName (h : s.ReadBy b i reading) (hs : s.Sound) (hn : s.IsName b i) :
    reading = b := by
  refine h.resolve_right ?_
  rintro ⟨j, hj, t, ht, -⟩
  obtain ⟨c, hc, hk⟩ := hn
  obtain ⟨c', hc', -, hk'⟩ := hs.fits_slot? ht
  cases hk.symm.trans (statement_of_statement (hs.known b (lt_of_slot? ht)) hj hc' hk' hc)

/-- No block stands in a slot that is taken for one for a variable. -/
theorem ReadBy.plain (h : s.ReadBy b i reading) (hs : s.Sound) (hn : s.IsName reading i)
    (hv : s.slot? b i = some v) : v.Literal ∨ ∃ t, v = .stack t := by
  rcases h with rfl | ⟨j, hj, t, ht, -⟩
  · exact .inl (hs.literal_of_isName hn hv)
  · -- behind a body there are only bodies
    obtain ⟨c, hc, -, hk⟩ := hs.fits_slot? ht
    obtain ⟨c', hc', hf⟩ := hs.fits_slot? hv
    have hk' := statement_of_statement (hs.known b (lt_of_slot? ht)) hj hc hk hc'
    cases v with
    | block d => exact absurd hk' (kind_of_fits hf.2.2).1
    | stack u => exact .inr ⟨u, rfl⟩
    | _ => exact .inl hf

/-- Nothing is nested in a slot that is taken for one for a variable, unless a body is passed over. -/
theorem ReadBy.not_isNode (h : s.ReadBy b i reading) (hs : s.Sound) (hsk : ¬s.Skips b)
    (hn : s.IsName reading i) (hv : s.slot? b i = some v) : ¬v.IsNode := by
  rcases h.plain hs hn hv with hl | ⟨u, rfl⟩
  · exact hl.not_isNode
  rcases h with rfl | ⟨j, hj, t, ht, hla⟩
  · exact (hs.literal_of_isName hn hv).not_isNode
  · exact absurd ⟨j, i, t, reading, u, hj, ht, hla, hn, hv⟩ hsk

/-- The block that is asked what slot `i` of a block is: the last one of the nearest filled body before the
slot, or the block itself. -/
def asked (s : Store) (b : BlockId) : Nat → BlockId
  | 0 => b
  | i + 1 =>
    match s.slot? b i with
    | some (.stack t) => (s.blocksOf t).getLast?.getD (s.asked b i)
    | _ => s.asked b i

theorem readBy_asked (s : Store) (b : BlockId) (i : Nat) : s.ReadBy b i (s.asked b i) := by
  induction i with
  | zero => exact .inl rfl
  | succ i ih =>
    unfold asked
    split
    case h_1 t ht =>
      cases hl : (s.blocksOf t).getLast? with
      | none => exact ih.succ
      | some last => exact .inr ⟨i, Nat.lt_succ_self i, t, ht, hl⟩
    case h_2 => exact ih.succ

/-- The blocks that are asked what the slots of a block are have these slots.  What they take for a slot for
a name holds no block and no body, and where the old name stands the block itself is asked. -/
def Guides (s : Store) (x : String) (b : BlockId) : Prop :=
  ∀ p ∈ (s.block b).values.zipIdx, p.2 < (s.definitionOf (s.asked b p.2)).inputs.length ∧
    (s.IsName (s.asked b p.2) p.2 → ¬p.1.IsNode) ∧
    (p.1 = .text x → s.IsName b p.2 ∨ s.IsName (s.asked b p.2) p.2 → s.asked b p.2 = b)

/-- A value that is no block can be compared with a name. -/
theorem exists_equal_text (s : Store) (hv : ¬v.IsNode) (x : String) :
    ∃ same, s.equal v (.text x) = .ok same ∧ (same = true ↔ v = .text x) := by
  have hto : ∀ n, n ≠ 0 → ∃ same, s.equalTo n v (.text x) = .ok same ∧ (same = true ↔ v = .text x) := by
    intro n hn
    obtain ⟨n, rfl⟩ := Nat.exists_eq_succ_of_ne_zero hn
    cases v with
    | block b => exact absurd trivial hv
    | stack t => exact absurd trivial hv
    | _ => simp [equalTo, Value.equalPlain, Value.parts?]
  exact hto _ (by simp [depth])

end Store

/-! ## The walk -/

/-- Some slots for variables were given the new name. -/
def Rewording (new : Value) (e e' : Editor) : Prop := Store.Rewords new e.store e'.store

instance (new : Value) : IsPreorder Editor (Rewording new) where
  refl e := Store.Rewords.refl e.store
  trans _ _ _ := Store.Rewords.trans

theorem rewording_assign {new : Value} (hn : e.store.IsName b i) :
    Rewording new e (endState (Edit.assign b i new e)) := by
  unfold Edit.assign
  rw [store_bind]
  exact run_ite (p := Rewording new e) (fun hi => Store.rewords_setValue hn hi)
    fun _ => refl_of (Rewording new) e

/-- What a walk comes to: a state with a property, and where it is guided it does not fail. -/
def Ends {α : Type} (guided : Prop) (p : Editor → Prop) (r : EStateM.Result Fault Editor α) : Prop :=
  (∀ a e', r = .ok a e' → p e') ∧ (guided → ∃ a e', r = .ok a e')

theorem Ends.bind {β : Type} {guided : Prop} {p q : Editor → Prop} {m : Edit α} {f : α → Edit β}
    (hm : Ends guided p (m e)) (hf : ∀ a e', m e = .ok a e' → p e' → Ends guided q (f a e')) :
    Ends guided q ((m >>= f) e) := by
  refine ⟨fun b e' h => ?_, fun hg => ?_⟩
  · obtain ⟨a, e1, hr, h⟩ := bind_eq_ok.1 h
    exact (hf a e1 hr (hm.1 a e1 hr)).1 b e' h
  · obtain ⟨a, e1, hr⟩ := hm.2 hg
    obtain ⟨b, e', h⟩ := (hf a e1 hr (hm.1 a e1 hr)).2 hg
    exact ⟨b, e', bind_eq_ok.2 ⟨a, e1, hr, h⟩⟩

/-- A variable to be renamed in a store. -/
structure Renaming where
  /-- The store before the walk. -/
  src : Store
  /-- The old name. -/
  x : String
  /-- The new name, or nothing. -/
  new : Value
  /-- The blocks that are asked guide the walk. -/
  guided : Prop
  /-- The blocks that the walk is to come to. -/
  region : BlockId → Prop

namespace Renaming

open Store Edit

variable {R : Renaming} {s s' s'' : Store} {e : Editor} {v : Value}

/-- Some slots for variables were given the new name.  Where the walk is guided they held the old one. -/
structure Turns (R : Renaming) (s s' : Store) : Prop extends Rewords R.new s s' where
  kept : R.guided → ∀ d i, s'.slot? d i = s.slot? d i ∨ R.region d ∧ s.slot? d i = some (.text R.x)

theorem Turns.refl (s : Store) : R.Turns s s := ⟨.refl s, fun _ _ _ => .inl rfl⟩

theorem Turns.trans (h : R.Turns s s') (h' : R.Turns s' s'') : R.Turns s s'' := by
  refine ⟨h.toRewords.trans h'.toRewords, fun hg d i => ?_⟩
  rcases h'.kept hg d i with heq | ⟨hd, hx⟩
  · exact (h.kept hg d i).imp_left heq.trans
  · exact (h.kept hg d i).elim (fun heq => .inr ⟨hd, heq ▸ hx⟩) .inr

/-- Blocks and stacks stay in their slots. -/
theorem Turns.slot_node (h : R.Turns s s') (hs : R.guided ∨ s.Sound) (hn : R.new.Literal)
    (hv : v.IsNode) : s'.slot? b i = some v ↔ s.slot? b i = some v := by
  obtain hg | hs := hs
  · rcases h.kept hg b i with heq | ⟨-, hx⟩
    · rw [heq]
    · rcases h.slot b i with heq | ⟨-, hsl⟩
      · rw [heq]
      · rw [hsl, hx]
        refine iff_of_false ?_ ?_
        · rintro ⟨⟩
          exact hn.not_isNode hv
        · rintro ⟨⟩
          exact hv
  · exact h.toRewords.slot_node hs hn hv

/-- Where the old name stood in a slot for one, the new name stands. -/
def Renamed (R : Renaming) (s : Store) (b : BlockId) (i : Nat) : Prop :=
  R.src.IsName b i → R.src.slot? b i = some (.text R.x) → s.slot? b i = some R.new

theorem Renamed.rewords (h : R.Renamed s b i) (hr : Rewords R.new s s') : R.Renamed s' b i := by
  intro hn hx
  rcases hr.slot b i with heq | ⟨-, hs⟩
  · exact heq.trans (h hn hx)
  · exact hs

/-- A step clears some blocks. -/
def Sweeps (R : Renaming) (f : Edit Unit) (clear : BlockId → Prop) : Prop :=
  ∀ e, R.Turns R.src e.store →
    Ends R.guided (fun e' => R.Turns e.store e'.store ∧ ∀ d, clear d → ∀ i, R.Renamed e'.store d i) (f e)

theorem Sweeps.forM {f : α → Edit Unit} {clear : α → BlockId → Prop} {l : List α}
    (hf : ∀ a ∈ l, R.Sweeps (f a) (clear a)) : R.Sweeps (l.forM f) fun d => ∃ a ∈ l, clear a d := by
  induction l with
  | nil =>
    refine fun e _ => ⟨fun u e' h => ?_, fun _ => ⟨_, _, rfl⟩⟩
    obtain ⟨-, rfl⟩ := pure_eq_ok.1 h
    exact ⟨.refl _, nofun⟩
  | cons a l ih =>
    refine fun e hr => (hf a mem_cons_self e hr).bind fun _ e1 _ ⟨hr1, hcl⟩ => ?_
    have hre := ih (fun a ha => hf a (mem_cons_of_mem _ ha)) e1 (hr.trans hr1)
    refine ⟨fun u e' h => ?_, hre.2⟩
    obtain ⟨hr2, hre⟩ := hre.1 u e' h
    refine ⟨hr1.trans hr2, ?_⟩
    rintro d ⟨c, hc, hd⟩
    rcases mem_cons.1 hc with rfl | hc
    · exact fun i => (hcl d hd i).rewords hr2.toRewords
    · exact hre d ⟨c, hc, hd⟩

/-- The walk through a block is not led astray. -/
structure Leads (R : Renaming) (b : BlockId) : Prop where
  plain : ∀ i v, R.src.slot? b i = some v → R.src.IsName (R.src.asked b i) i → ¬v.IsNode
  own : ∀ i, R.src.IsName b i → R.src.slot? b i = some (.text R.x) → R.src.asked b i = b
  guides : R.guided → R.region b ∧ R.src.Guides R.x b

theorem leads_of_guides (hr : R.region b) (h : R.src.Guides R.x b) : R.Leads b where
  plain i v hv := (h (v, i) (mem_zipIdx_iff_getElem?.2 hv)).2.1
  own i hn hx := (h (.text R.x, i) (mem_zipIdx_iff_getElem?.2 hx)).2.2 rfl (.inl hn)
  guides _ := ⟨hr, h⟩

theorem leads_of_not_skips (hgu : ¬R.guided) (hs : R.src.Sound) (h : ¬R.src.Skips b) : R.Leads b where
  plain i _ hv hn := (readBy_asked _ b i).not_isNode hs h hn hv
  own i hn _ := (readBy_asked _ b i).eq_of_isName hs hn
  guides hg := absurd hg hgu

/-- What walking through slot `i` of a block achieves. -/
structure Swept (R : Renaming) (n : Nat) (b : BlockId) (s : Store) (i : Nat) : Prop where
  own : R.Renamed s b i
  nested : ∀ c d, R.src.InSlot b i c → R.src.Under n c d → ∀ j, R.Renamed s d j

theorem Swept.rewords (h : R.Swept n b s i) (hr : Rewords R.new s s') : R.Swept n b s' i where
  own := h.own.rewords hr
  nested c d hc hd j := (h.nested c d hc hd j).rewords hr

/-- Walking through the slots of a block from `i` on, with the values that they held before. -/
theorem renameValues_swept (hsr : R.guided ∨ R.src.Sound) (hnw : R.new.Literal)
    {nested : BlockId → Edit Unit} (hl : R.Leads b)
    (hns : ∀ i c, R.src.InSlot b i c → R.Sweeps (nested c) (R.src.Under n c)) {values : List Value}
    {before : Store} (hb : R.Turns R.src before)
    (hva : ∀ k, values[k]? = before.slot? b (i + k)) (hr : R.Turns before e.store) :
    Ends R.guided (fun e' => R.Turns e.store e'.store ∧ ∀ k, i ≤ k → R.Swept n b e'.store k)
      (renameValues nested (.text R.x) R.new (R.src.asked b i) i values e) := by
  induction values generalizing i e with
  | nil =>
    refine ⟨fun u e' h => ?_, fun _ => ⟨_, _, rfl⟩⟩
    obtain ⟨-, rfl⟩ := pure_eq_ok.1 h
    refine ⟨.refl _, fun k hk => ?_⟩
    have hno : before.slot? b k = none := by
      rw [← Nat.add_sub_cancel' hk, ← hva, getElem?_nil]
    have he : ∀ {v : Value}, R.src.slot? b k = some v → ¬v.IsNode := fun hs hv => by
      rw [← hb.slot_node hsr hnw hv, hno] at hs
      cases hs
    refine ⟨fun _ hx => ?_, ?_⟩
    · rcases hb.slot b k with heq | ⟨-, hs⟩
      · cases hno.symm.trans (heq.trans hx)
      · cases hno.symm.trans hs
    · rintro c d (hc | ⟨t, ht, -⟩) -
      · exact (he hc trivial).elim
      · exact (he ht trivial).elim
  | cons v rest ih =>
    have hs : before.slot? b i = some v := (hva 0).symm
    have hn : ∀ {w : Value}, R.src.slot? b i = some w → w.IsNode → v = w := fun hs' hw =>
      Option.some.inj (hs.symm.trans ((hb.slot_node hsr hnw hw).2 hs'))
    have hh := hb.trans hr
    -- where the walk is guided the old name stood in the slot, or what is met stands there still
    have hgu : R.guided → ∃ w, R.src.slot? b i = some w ∧ (v = .text R.x → w = .text R.x) ∧
        i < (R.src.definitionOf (R.src.asked b i)).inputs.length ∧
        (w = .text R.x → R.src.IsName (R.src.asked b i) i → R.src.asked b i = b) := by
      intro hg
      obtain ⟨w, hw, hvw⟩ : ∃ w, R.src.slot? b i = some w ∧ (v = .text R.x → w = .text R.x) := by
        rcases hb.kept hg b i with heq | ⟨-, hx⟩
        · exact ⟨v, heq ▸ hs, id⟩
        · exact ⟨_, hx, fun _ => rfl⟩
      obtain ⟨hlt, -, ha⟩ := (hl.guides hg).2 (w, i) (mem_zipIdx_iff_getElem?.2 hw)
      exact ⟨w, hw, hvw, hlt, fun hx hna => ha hx (.inr hna)⟩
    -- what is left to do once slot `i` is swept, with the block that is asked about the next one
    have hre : ∀ {e1 : Editor} {next : BlockId}, R.Turns e.store e1.store →
        R.Swept n b e1.store i → next = R.src.asked b (i + 1) →
        Ends R.guided (fun e' => R.Turns e.store e'.store ∧ ∀ k, i ≤ k → R.Swept n b e'.store k)
          (renameValues nested (.text R.x) R.new next (i + 1) rest e1) := by
      rintro e1 _ hr1 hsw rfl
      have hv' : ∀ k, rest[k]? = before.slot? b (i + 1 + k) := fun k => by
        have hk := hva (k + 1)
        rwa [getElem?_cons_succ, ← Nat.add_assoc, Nat.add_right_comm] at hk
      have hih := ih hv' (hr.trans hr1)
      refine ⟨fun u e' h => ?_, hih.2⟩
      obtain ⟨hr2, hs2⟩ := hih.1 u e' h
      refine ⟨hr1.trans hr2, fun k hk => ?_⟩
      rcases Nat.eq_or_lt_of_le hk with rfl | hk
      · exact hsw.rewords hr2.toRewords
      · exact hs2 k hk
    have hco : Ends R.guided (fun e' => e' = e) (slotComponent (R.src.asked b i) i e) := by
      refine ⟨fun c e' h => (slotComponent_eq_ok.1 h).2, fun hg => ?_⟩
      obtain ⟨w, -, -, hlt, -⟩ := hgu hg
      rw [← hh.definition] at hlt
      exact ⟨_, e, slotComponent_eq_ok.2 ⟨getElem?_eq_getElem hlt, rfl⟩⟩
    unfold renameValues
    refine hco.bind fun c e0 hc he0 => ?_
    subst he0
    replace hc := (slotComponent_eq_ok.1 hc).1
    rw [hh.definition] at hc
    by_cases hki : c.kind = .varName
    · -- a slot for a variable, or one that is taken for it and holds no body
      have hp : ∀ {w : Value}, R.src.slot? b i = some w → ¬w.IsNode := fun hw =>
        hl.plain i _ hw ⟨c, hc, hki⟩
      have hin : ∀ c', ¬R.src.InSlot b i c' := by
        rintro c' (hc' | ⟨t, ht, -⟩)
        · exact hp hc' trivial
        · exact hp ht trivial
      have hnx : R.src.asked b i = R.src.asked b (i + 1) := by
        rw [asked]
        split
        case h_1 ht => exact absurd trivial (hp ht)
        case h_2 => rfl
      have hv : ¬v.IsNode := fun hv => hp ((hb.slot_node hsr hnw hv).1 hs) hv
      obtain ⟨same, hsa, hif⟩ := e0.store.exists_equal_text hv R.x
      simp only [if_pos hki, store_bind, hsa]
      cases same with
      | true =>
        have hse : R.guided → R.src.asked b i = b := fun hg => by
          obtain ⟨w, -, hvw, -, ha⟩ := hgu hg
          exact ha (hvw (hif.1 rfl)) ⟨c, hc, hki⟩
        have has : Ends R.guided (fun e1 => R.Turns e0.store e1.store ∧ R.Swept n b e1.store i)
            (assign (R.src.asked b i) i R.new e0) := by
          refine ⟨fun u e1 h => ?_, fun hg => ?_⟩
          · obtain ⟨hlt, rfl⟩ := assign_eq_ok.1 h
            have hwr := slot?_setValue_self (v := R.new) (getElem?_eq_getElem hlt)
            refine ⟨⟨rewords_setValue (hh.isName.2 ⟨c, hc, hki⟩) hlt, fun hg d j => ?_⟩,
              fun hna hx => ?_, fun c' d hc' => absurd hc' (hin c')⟩
            · by_cases hdj : d = R.src.asked b i ∧ j = i
              · obtain ⟨rfl, rfl⟩ := hdj
                rw [hse hg] at hwr ⊢
                rcases hr.slot b j with heq | ⟨-, hs'⟩
                · exact .inr ⟨(hl.guides hg).1, heq.trans (hif.1 rfl ▸ hs)⟩
                · exact .inl (hwr.trans hs'.symm)
              · exact .inl (slot?_setValue_of_ne _ hdj)
            · rw [hl.own i hna hx] at hwr ⊢
              exact hwr
          · have hi : ∃ y, e0.store.slot? b i = some y := by
              rcases hr.slot b i with heq | ⟨-, hs'⟩
              · exact ⟨_, heq.trans hs⟩
              · exact ⟨_, hs'⟩
            rw [hse hg]
            exact ⟨(), _, assign_eq_ok.2 ⟨(List.getElem?_eq_some_iff.1 hi.choose_spec).1, rfl⟩⟩
        exact has.bind fun _ e1 _ ⟨hr1, hsw⟩ => hre hr1 hsw hnx
      | false =>
        refine hre (.refl _) ⟨fun _ hx => ?_, fun c' d hc' => absurd hc' (hin c')⟩ hnx
        -- the old name is gone from the slot since the walk began
        have hne : v ≠ .text R.x := fun hv => Bool.false_ne_true (hif.2 hv)
        rcases hb.slot b i with heq | ⟨-, hs'⟩
        · exact absurd (Option.some.inj (hs.symm.trans (heq.trans hx))) hne
        · exact (hr.slot b i).elim (·.trans hs') And.right
    · simp only [if_neg hki]
      have ho : ∀ s, R.Renamed s b i := by
        intro s hna hx
        obtain ⟨c', hc', hk'⟩ := id hna
        rw [hl.own i hna hx, hc'] at hc
        exact absurd (Option.some.inj hc ▸ hk') hki
      cases v with
      | stack t =>
        have ht := (hb.slot_node hsr hnw (v := .stack t) trivial).1 hs
        dsimp only
        rw [store_bind, hh.row]
        refine (Sweeps.forM (fun c hc => hns i c (.inr ⟨t, ht, hc⟩)) _ hh).bind
          fun _ e1 _ ⟨hr1, hcl⟩ => hre hr1 ⟨ho _, ?_⟩ (by rw [asked, ht])
        rintro c' d (hc' | ⟨t', ht', hc'⟩) hd
        · cases hn hc' trivial
        · cases hn ht' trivial
          exact hcl d ⟨c', hc', hd⟩
      | block c' =>
        have hc' := (hb.slot_node hsr hnw (v := .block c') trivial).1 hs
        refine (hns i c' (.inl hc') _ hh).bind
          fun _ e1 _ ⟨hr1, hcl⟩ => hre hr1 ⟨ho _, ?_⟩ (by rw [asked, hc'])
        rintro d' d (hd' | ⟨t', ht', -⟩) hd
        · cases hn hd' trivial
          exact hcl d hd
        · cases hn ht' trivial
      | _ =>
        refine hre (.refl _) ⟨ho _, ?_⟩ ?_
        · rintro d' d (hd' | ⟨t', ht', -⟩) -
          · cases hn hd' trivial
          · cases hn ht' trivial
        · rw [asked]
          split
          case h_1 ht => cases hn ht trivial
          case h_2 => rfl

theorem sweeps_renameInBlockTo (hsr : R.guided ∨ R.src.Sound) (hn : R.new.Literal)
    (hl : ∀ d, R.src.Under n b d → R.Leads d) :
    R.Sweeps (renameInBlockTo (.text R.x) R.new n b) (R.src.Under n b) := by
  induction n generalizing b with
  | zero =>
    refine fun e _ => ⟨fun u e' h => ?_, fun _ => ⟨_, _, rfl⟩⟩
    obtain ⟨-, rfl⟩ := pure_eq_ok.1 h
    exact ⟨.refl _, fun d hd => hd.elim⟩
  | succ n ih =>
    intro e hr
    unfold renameInBlockTo
    rw [store_bind]
    have hw := renameValues_swept hsr hn (hl b (.inl rfl))
      (fun i c hc => ih fun d hd => hl d (.inr ⟨i, c, hc, hd⟩)) hr
      (fun k => by rw [Nat.zero_add, slot?]) (.refl _)
    refine ⟨fun u e' h => ?_, hw.2⟩
    obtain ⟨hr', hs⟩ := hw.1 u e' h
    refine ⟨hr', fun d hd i => ?_⟩
    obtain rfl | ⟨j, c, hc, hd⟩ := hd
    · exact (hs i (Nat.zero_le i)).own
    · exact (hs j (Nat.zero_le j)).nested c d hc hd i

/-- Renaming in a block, to the depth of the store. -/
theorem sweeps_renameInBlock (hs : R.guided ∨ R.src.Sound) (hn : R.new.Literal)
    (hl : ∀ d, R.src.Under R.src.depth b d → R.Leads d) :
    R.Sweeps (renameInBlock (.text R.x) R.new b) (R.src.Under R.src.depth b) := by
  intro e hr
  have hd : e.store.depth = R.src.depth := by
    rw [Store.depth, hr.blocks_eq, hr.stacks_eq, Store.depth]
  unfold renameInBlock
  rw [store_bind, hd]
  exact sweeps_renameInBlockTo hs hn hl e hr

end Renaming

namespace Edit

open Store

variable {src : Store} {x : String} {new : Value} {e e' : Editor} {u : Unit}

/-- Renaming in all stacks: in the blocks that can be reached from the workspace only new names and names
other than the old one are left.  Drawing changes nothing that renaming reads. -/
theorem renameEverywhere_clears (hs : src.Sound) (hne : new.Literal)
    (hsk : ∀ d, Forest.Reached src e.workspace (.block d) → ¬src.Skips d)
    (hr : Rewords new src e.store) (h : renameEverywhere (.text x) new e = .ok u e') :
    Rewords new src e'.store ∧ ∀ d i v, Forest.Reached src e.workspace (.block d) → src.IsName d i →
      e'.store.slot? d i = some v → v = new ∨ v ≠ .text x := by
  let R : Renaming := ⟨src, x, new, False, fun _ => False⟩
  have htu : ∀ {s s' : Store}, Rewords new s s' → R.Turns s s' := fun h => ⟨h, False.elim⟩
  have hst : ∀ p ∈ e.workspace.zipIdx, R.Sweeps (do
      ((← store).blocksOf p.1).forM (renameInBlock (.text x) new)
      redraw p.2) fun d => ∃ b ∈ src.blocksOf p.1, src.Under src.depth b d := by
    intro p hp e1 hr1
    rw [store_bind, hr1.row]
    refine (Renaming.Sweeps.forM (fun b hb => Renaming.sweeps_renameInBlock (.inr hs) hne fun d hd =>
      Renaming.leads_of_not_skips id hs (hsk d (reached_of_under hd
        (.row (.top (fst_mem_of_mem_zipIdx hp)) hb)))) e1 hr1).bind fun _ e2 _ ⟨hr2, hre⟩ => ?_
    refine ⟨fun _ e3 h3 => ?_, False.elim⟩
    have hdr : Rewords new e2.store e3.store :=
      rewords_of_bare (bare_of_unseen ((displays_redraw _).ok h3))
    exact ⟨hr2.trans (htu hdr), fun d hd i => (hre d hd i).rewords hdr⟩
  rw [renameEverywhere_eq] at h
  obtain ⟨hr', hre⟩ := (Renaming.Sweeps.forM hst e (htu hr)).1 u e' h
  have ha := hr.trans hr'.toRewords
  refine ⟨ha, fun d i v hd hn hv => ?_⟩
  obtain ⟨t, ht, b, hb, n, hd⟩ := exists_under_of_reached hd
  obtain ⟨k, hk⟩ := getElem?_of_mem ht
  have hre := hre d ⟨(t, k), mem_zipIdx_iff_getElem?.2 hk, b, hb,
    hd.depth hs (hs.mem_blocksOf hb)⟩ i hn
  rcases ha.slot d i with heq | ⟨-, hsl⟩
  · refine or_iff_not_imp_right.2 fun hx => ?_
    rw [not_not] at hx
    exact Option.some.inj (hv.symm.trans (hre (hx ▸ heq ▸ hv)))
  · exact .inl (Option.some.inj (hv.symm.trans hsl))

end Edit

end BlockStudio
