import BlockStudio.Proofs.Levels
import BlockStudio.Proofs.Reading

/-!
# What a store shows

Blocks and stacks refer to one another by identity.  What a reader of the workspace sees is a tree:
the definition of a block and the trees in its slots, the place of a stack and the trees of its
blocks.  `Store.Shows` says that a value of a store shows a tree.  A value shows at most one tree, so
no block stands below itself in what it shows, and the height of the tree is bounded by the size of
the store.  Everything that goes through a store down to `Store.depth` therefore reaches the leaves.
-/

namespace BlockStudio

open List

theorem exists_of_forall₂_left {α β : Type} {R : α → β → Prop} {xs : List α} {ys : List β}
    (h : List.Forall₂ R xs ys) {x : α} (hx : x ∈ xs) : ∃ y ∈ ys, R x y := by
  obtain ⟨i, hi, rfl⟩ := getElem_of_mem hx
  have hi' : i < ys.length := by rwa [← h.length_eq]
  exact ⟨ys[i], getElem_mem hi', h.get hi hi'⟩

theorem exists_forall₂ {α β : Type} {R : α → β → Prop} {l : List β} (h : ∀ y ∈ l, ∃ x, R x y) :
    ∃ xs, List.Forall₂ R xs l := by
  induction l with
  | nil => exact ⟨[], .nil⟩
  | cons y l ih =>
    obtain ⟨⟨x, hx⟩, hl⟩ := forall_mem_cons.1 h
    obtain ⟨xs, hxs⟩ := ih hl
    exact ⟨x :: xs, .cons hx hxs⟩

/-- What a value shows, without the identities of blocks and stacks. -/
inductive Tree where
  /-- An unfilled slot. -/
  | nothing
  /-- A truth value. -/
  | truth (b : Bool)
  /-- A number. -/
  | number (n : Num)
  /-- A text. -/
  | text (s : String)
  /-- A block with the trees in its slots. -/
  | block (d : Definition) (values : List Tree)
  /-- A stack with its place and the trees of its blocks. -/
  | stack (place : Option (List Num)) (blocks : List Tree)

variable {α β : Type} {t : Tree} {ts : List Tree} {v : Value} {p : Option (List Num)} {r : StackId}

namespace Tree

/-- Induction over a tree and the trees right below it. -/
@[induction_eliminator]
theorem inductionOn {motive : Tree → Prop} (nothing : motive nothing)
    (truth : ∀ b, motive (truth b)) (number : ∀ n, motive (number n)) (text : ∀ s, motive (text s))
    (block : ∀ d ts, (∀ t ∈ ts, motive t) → motive (block d ts))
    (stack : ∀ p ts, (∀ t ∈ ts, motive t) → motive (stack p ts)) (t : Tree) : motive t := by
  refine Tree.rec (motive_1 := motive) (motive_2 := fun ts => ∀ t ∈ ts, motive t) nothing truth
    number text block stack ?_ (fun t ts ht hts => ?_) t
  · exact fun t ht => absurd ht not_mem_nil
  · exact fun u hu => (mem_cons.1 hu).elim (fun h => h ▸ ht) (hts u)

/-- How deep blocks and stacks are nested. -/
def height : Tree → Nat
  | block _ ts | stack _ ts => heights ts + 1
  | _ => 0
where
  /-- The greatest height among trees. -/
  heights : List Tree → Nat
    | [] => 0
    | t :: ts => max (height t) (heights ts)

theorem height_le_heights (h : t ∈ ts) : t.height ≤ height.heights ts := by
  induction ts with
  | nil => cases h
  | cons u ts ih =>
    rw [height.heights]
    rcases mem_cons.1 h with rfl | h
    · exact Nat.le_max_left _ _
    · exact (ih h).trans (Nat.le_max_right _ _)

theorem heights_le {n : Nat} (h : ∀ t ∈ ts, t.height ≤ n) : height.heights ts ≤ n := by
  induction ts with
  | nil => exact Nat.zero_le n
  | cons t ts ih =>
    obtain ⟨ht, hts⟩ := forall_mem_cons.1 h
    exact Nat.max_le.2 ⟨ht, ih hts⟩

end Tree

namespace Store

variable {s s' : Store}

/-- A stack of the store whose row is one of the store. -/
def HasStack (s : Store) (t : StackId) : Prop :=
  t.index < s.allStacks.size ∧ (s.stack t).row.index < s.rows.size

/-- A value shows a tree. -/
def Shows (s : Store) : Tree → Value → Prop
  | .nothing, v => v = .none
  | .truth b, v => v = .bool b
  | .number n, v => v = .num n
  | .text t, v => v = .text t
  | .block d ts, v => ∃ b, v = .block b ∧ b.index < s.blocks.size ∧ s.definitionOf b = d ∧
    showsAll ts (s.block b).values
  | .stack p ts, v => ∃ t, v = .stack t ∧ s.HasStack t ∧
    (s.stack t).position = p.map (·.map .num) ∧ showsAll ts ((s.blocksOf t).map .block)
where
  /-- Values show trees, one by one. -/
  showsAll : List Tree → List Value → Prop
    | [], vs => vs = []
    | t :: ts, vs => ∃ v rest, vs = v :: rest ∧ Shows s t v ∧ showsAll ts rest

theorem showsAll_iff {vs : List Value} : Shows.showsAll s ts vs ↔ List.Forall₂ s.Shows ts vs := by
  induction ts generalizing vs with
  | nil => rw [Shows.showsAll, forall₂_nil_left_iff]
  | cons t ts ih =>
    rw [Shows.showsAll, forall₂_cons_left_iff]
    constructor
    · rintro ⟨v, rest, rfl, hv, hr⟩
      exact ⟨v, rest, hv, ih.1 hr, rfl⟩
    · rintro ⟨v, rest, hv, hr, rfl⟩
      exact ⟨v, rest, rfl, hv, ih.2 hr⟩

theorem shows_block {d : Definition} :
    s.Shows (.block d ts) v ↔ ∃ b, v = .block b ∧ b.index < s.blocks.size ∧
      s.definitionOf b = d ∧ List.Forall₂ s.Shows ts (s.block b).values := by
  simp only [Shows, showsAll_iff]

theorem shows_stack : s.Shows (.stack p ts) v ↔ ∃ t, v = .stack t ∧ s.HasStack t ∧
      (s.stack t).position = p.map (·.map .num) ∧
      List.Forall₂ (fun u b => s.Shows u (.block b)) ts (s.blocksOf t) := by
  simp only [Shows, showsAll_iff, forall₂_map_right_iff]

/-- A value that is a block shows a tree of a block. -/
theorem Shows.exists_block {b : BlockId} (h : s.Shows t (.block b)) :
    ∃ ts, t = .block (s.definitionOf b) ts ∧ b.index < s.blocks.size ∧
      List.Forall₂ s.Shows ts (s.block b).values := by
  cases t with
  | block d ts =>
    obtain ⟨b', hb, hlt, rfl, hts⟩ := shows_block.1 h
    cases hb
    exact ⟨ts, rfl, hlt, hts⟩
  | stack p ts =>
    obtain ⟨_, hb, -⟩ := h
    cases hb
  | _ => cases h

/-- A value that is a stack shows a tree of a stack. -/
theorem Shows.exists_stack (h : s.Shows t (.stack r)) :
    ∃ p ts, t = .stack p ts ∧ s.HasStack r ∧ (s.stack r).position = p.map (·.map .num) ∧
      List.Forall₂ (fun u b => s.Shows u (.block b)) ts (s.blocksOf r) := by
  cases t with
  | stack p ts =>
    obtain ⟨r', hr, hs⟩ := shows_stack.1 h
    cases hr
    exact ⟨p, ts, rfl, hs⟩
  | block d ts =>
    obtain ⟨_, hr, -⟩ := h
    cases hr
  | _ => cases h

/-! ## At most one tree -/

theorem map_num_injective {q : Option (List Num)} (h : p.map (·.map Value.num) = q.map (·.map .num)) :
    p = q :=
  Option.map_injective (map_injective_iff.2 fun _ _ h => Value.num.inj h) h

theorem forall₂_unique {R : α → β → Prop} {xs ys : List α} {zs : List β} (hx : List.Forall₂ R xs zs)
    (hy : List.Forall₂ R ys zs) (h : ∀ x ∈ xs, ∀ y z, R x z → R y z → x = y) : xs = ys := by
  induction hx generalizing ys with
  | nil => exact (forall₂_nil_right_iff.1 hy).symm
  | @cons x z xs zs hxz _ ih =>
    obtain ⟨y, ys', hyz, hys, rfl⟩ := forall₂_cons_right_iff.1 hy
    rw [h x mem_cons_self y z hxz hyz, ih hys fun x hx => h x (mem_cons_of_mem _ hx)]

/-- A value shows at most one tree. -/
theorem Shows.unique {u : Tree} (ht : s.Shows t v) (hu : s.Shows u v) : t = u := by
  induction t generalizing u v with
  | nothing | truth _ | number _ | text _ =>
    obtain rfl : v = _ := ht
    cases u <;> simp_all [Shows]
  | block d ts ih =>
    obtain ⟨b, rfl, -, rfl, hts⟩ := shows_block.1 ht
    obtain ⟨us, rfl, -, hus⟩ := hu.exists_block
    rw [forall₂_unique hts hus fun x hx y z => ih x hx]
  | stack p ts ih =>
    obtain ⟨r, rfl, -, hp, hts⟩ := shows_stack.1 ht
    obtain ⟨q, us, rfl, -, hq, hus⟩ := hu.exists_stack
    rw [map_num_injective (hp.symm.trans hq), forall₂_unique hts hus fun x hx y z => ih x hx]

/-! ## Height -/

theorem Shows.within (h : s.Shows t v) : s.Within t.height v := by
  induction t generalizing v with
  | nothing | truth _ | number _ | text _ =>
    obtain rfl : v = _ := h
    trivial
  | block d ts ih =>
    obtain ⟨b, rfl, hb, -, hts⟩ := shows_block.1 h
    refine ⟨hb, fun v hv => ?_⟩
    obtain ⟨u, hu, hv⟩ := exists_of_forall₂_left hts.flip hv
    exact (ih u hu hv).mono (Tree.height_le_heights hu)
  | stack p ts ih =>
    obtain ⟨r, rfl, hr, -, hts⟩ := shows_stack.1 h
    refine ⟨hr.1, fun b hb => ?_⟩
    obtain ⟨u, hu, hb⟩ := exists_of_forall₂_left hts.flip hb
    exact (ih u hu hb).mono (Tree.height_le_heights hu)

theorem Within.height_le {n : Nat} (h : s.Within n v) (ht : s.Shows t v) : t.height ≤ n := by
  induction t generalizing n v with
  | nothing | truth _ | number _ | text _ => exact Nat.zero_le n
  | block d ts ih =>
    obtain ⟨b, rfl, -, -, hts⟩ := shows_block.1 ht
    cases n with
    | zero => exact h.elim
    | succ n =>
      refine Nat.succ_le_succ (Tree.heights_le fun u hu => ?_)
      obtain ⟨w, hw, huw⟩ := exists_of_forall₂_left hts hu
      exact ih u hu (h.2 w hw) huw
  | stack p ts ih =>
    obtain ⟨r, rfl, -, -, hts⟩ := shows_stack.1 ht
    cases n with
    | zero => exact h.elim
    | succ n =>
      refine Nat.succ_le_succ (Tree.heights_le fun u hu => ?_)
      obtain ⟨b, hb, hub⟩ := exists_of_forall₂_left hts hu
      exact ih u hu (h.2 b hb) hub

/-- What a value shows is not higher than the store is large. -/
theorem Shows.height_lt_depth (h : s.Shows t v) : t.height < s.depth :=
  Nat.lt_succ_of_le (h.within.nodes.height_le h)

/-! ## Growing stores -/

/-- A store that grew, or whose blocks were drawn: what was there before is there now. -/
structure Retains (s s' : Store) : Prop extends Grown s s' where
  position_eq : ∀ t : StackId, t.index < s.allStacks.size →
    (s'.stack t).position = (s.stack t).position

theorem Retains.refl (s : Store) : Retains s s := ⟨.refl s, fun _ _ => rfl⟩

theorem Retains.trans {s'' : Store} (h : Retains s s') (h' : Retains s' s'') : Retains s s'' :=
  ⟨h.toGrown.trans h'.toGrown, fun t ht =>
    (h'.position_eq t (ht.trans_le h.stacks_le)).trans (h.position_eq t ht)⟩

theorem retains_addBlock (s : Store) (d : Definition) (vs : List Value) :
    Retains s (s.addBlock d vs).2 :=
  ⟨grown_addBlock s d vs, fun _ _ => rfl⟩

theorem retains_addStack (s : Store) (bs : List BlockId) (p : Option (List Value)) :
    Retains s (s.addStack bs p).2 :=
  ⟨grown_addStack s bs p, fun t ht => by rw [stack_addStack_of_lt s bs p ht]⟩

theorem retains_copyValues {copyBlock : Store → BlockId → BlockId × Store}
    (hc : ∀ s b, Retains s (copyBlock s b).2) (vs : List Value) (s : Store) :
    Retains s (copyValues copyBlock s vs).2 := by
  induction vs generalizing s with
  | nil => exact .refl s
  | cons v vs ih =>
    cases v with
    | block c => exact (hc s c).trans (ih _)
    | stack t => exact (retains_addStack s _ _).trans (ih _)
    | _ => exact ih s

theorem retains_copyBlockTo (n : Nat) (s : Store) (b : BlockId) : Retains s (copyBlockTo n s b).2 := by
  induction n generalizing s b with
  | zero => exact .refl s
  | succ n ih => exact (retains_copyValues ih _ s).trans (retains_addBlock _ _ _)

/-- A copy of a block is added to the store. -/
theorem retains_copyBlock (s : Store) (b : BlockId) : Retains s (s.copyBlock b).2 :=
  retains_copyBlockTo s.depth s b

theorem Spans.blocksOf_eq (h : Spans s s') (hr : s.HasStack r) : s'.blocksOf r = s.blocksOf r := by
  rw [blocksOf, h.stack_eq r hr.1, h.row_eq _ hr.2, blocksOf]

theorem Spans.hasStack (h : Spans s s') (hr : s.HasStack r) : s'.HasStack r := by
  refine ⟨hr.1.trans_le h.stacks_le, ?_⟩
  rw [h.stack_eq r hr.1]
  exact hr.2.trans_le h.rows_le

/-- Places do not count. -/
theorem grown_of_bare_eq (h : s'.bare = s.bare) : Grown s s' where
  blocks_le := by rw [← size_blocks_bare s, ← h, size_blocks_bare]
  stacks_le := by rw [← size_allStacks_bare s, ← h, size_allStacks_bare]
  rows_le := by rw [← rows_bare s, ← h, rows_bare]
  values_eq b _ := by rw [← values_bare s', h, values_bare]
  definition_eq b _ := by rw [← definitionOf_bare s', h, definitionOf_bare]
  stack_eq t _ := by rw [← stack_row_bare s', h, stack_row_bare]
  row_eq r _ := by rw [← row_bare s', h, row_bare]

/-- Places of blocks do not count. -/
theorem retains_of_undrawn_eq (h : s'.undrawn = s.undrawn) : Retains s s' where
  toGrown := grown_of_bare_eq (by rw [← bare_undrawn, h, bare_undrawn])
  position_eq t _ := by
    have hs : s'.allStacks = s.allStacks := (congrArg Store.allStacks h :)
    rw [stack, stack, hs]

/-- What a value shows stays as it is when the store grows. -/
theorem Shows.retains (h : s.Shows t v) (hs : Retains s s') : s'.Shows t v := by
  induction t generalizing v with
  | nothing | truth _ | number _ | text _ => exact h
  | block d ts ih =>
    obtain ⟨b, rfl, hb, rfl, hts⟩ := shows_block.1 h
    refine shows_block.2 ⟨b, rfl, hb.trans_le hs.blocks_le, hs.definition_eq b hb, ?_⟩
    rw [hs.values_eq b hb]
    exact forall₂_of_mem hts fun u v hu _ hv => ih u hu hv
  | stack p ts ih =>
    obtain ⟨r, rfl, hr, hp, hts⟩ := shows_stack.1 h
    refine shows_stack.2 ⟨r, rfl, hs.hasStack hr, ?_, ?_⟩
    · rw [hs.position_eq r hr.1, hp]
    · rw [hs.toSpans.blocksOf_eq hr]
      exact forall₂_of_mem hts fun u b hu _ hb => ih u hu hb

end Store

end BlockStudio
