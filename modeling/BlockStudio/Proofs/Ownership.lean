import BlockStudio.Proofs.Reachable

/-!
# Every block has one place

A place in the forest of a project is given by the way to it: a root, then steps into rows and slots.
As long as nothing is duplicated in a way that shares blocks, no block and no stack is found at two
places.  So the forest has no cycles, and what is done to a block at one place is not seen at another.
-/

namespace BlockStudio

open List Editor

variable {e : Editor}

/-- A place in a forest: the way to it from a root. -/
inductive Occurrence where
  /-- The root with a number. -/
  | root (k : Nat)
  /-- A place in the row of a stack. -/
  | row (p : Occurrence) (i : Nat)
  /-- A slot of a block. -/
  | slot (p : Occurrence) (i : Nat)

namespace Occurrence

/-- The way to a place leads through `p`. -/
def Below (p : Occurrence) : Occurrence → Prop
  | .root _ => False
  | .row q _ | .slot q _ => q = p ∨ Below p q

/-- The number of steps from the root. -/
def depth : Occurrence → Nat
  | .root _ => 0
  | .row p _ | .slot p _ => p.depth + 1

theorem Below.depth_lt {p q : Occurrence} (h : Below p q) : p.depth < q.depth := by
  induction q with
  | root k => exact h.elim
  | row q i ih | slot q i ih =>
    rcases h with rfl | h
    · exact Nat.lt_succ_self _
    · exact (ih h).trans (Nat.lt_succ_self _)

end Occurrence

namespace Forest

variable {F : Forest} {p q : Occurrence} {v : Value}

/-- A value stands at a place of the forest. -/
inductive Occurs (F : Forest) : Occurrence → Value → Prop where
  | root {k : Nat} {t : StackId} (ht : F.roots[k]? = some t) : Occurs F (.root k) (.stack t)
  | row {p : Occurrence} {t : StackId} {i : Nat} {b : BlockId} (h : Occurs F p (.stack t))
    (hb : (F.store.blocksOf t)[i]? = some b) : Occurs F (.row p i) (.block b)
  | slot {p : Occurrence} {b : BlockId} {i : Nat} {v : Value} (h : Occurs F p (.block b))
    (hv : F.store.slot? b i = some v) : Occurs F (.slot p i) v

/-- A stack that stands somewhere is a root or a body. -/
theorem Occurs.root_or_held {t : StackId} (h : F.Occurs p (.stack t)) :
    t ∈ F.roots ∨ F.store.Held t := by
  cases h with
  | root ht => exact .inl (mem_of_getElem? ht)
  | slot _ hv => exact .inr ⟨_, _, hv⟩

/-- In a sound forest without sharing the ways to a block or a stack are the same. -/
theorem Occurs.unique (hF : F.Sound) (hU : F.Unshared) (hv : v.IsNode) (hp : F.Occurs p v)
    (hq : F.Occurs q v) : p = q := by
  induction hp generalizing q with
  | root ht =>
    cases hq with
    | root ht' => exact congrArg _ (getElem?_inj
        (List.getElem?_eq_some_iff.1 ht).1 hF.nodup |>.1 (ht.trans ht'.symm))
    | slot _ hv' => exact absurd (mem_of_getElem? ht) (hF.apart _ ⟨_, _, hv'⟩)
  | @row p t i b hp hb ih =>
    have hpl : F.Holds (.place t i) b := ⟨hp.root_or_held, hb⟩
    cases hq with
    | row hq hb' =>
      cases hU.block_once _ (.place _ _) b hpl ⟨hq.root_or_held, hb'⟩
      rw [ih trivial hq]
    | slot _ hv' => cases hU.block_once _ (.slot _ _) b hpl hv'
  | @slot p b i v hp hs ih =>
    cases v with
    | block c =>
      cases hq with
      | row hq hb' => cases hU.block_once (.slot b i) (.place _ _) c hs ⟨hq.root_or_held, hb'⟩
      | slot hq hv' =>
        cases hU.block_once (.slot b i) (.slot _ _) c hs hv'
        rw [ih trivial hq]
    | stack t =>
      cases hq with
      | root ht' => exact absurd (mem_of_getElem? ht') (hF.apart _ ⟨_, _, hs⟩)
      | slot hq hv' =>
        obtain ⟨rfl, rfl⟩ := hU.stack_once b i _ _ t hs hv'
        rw [ih trivial hq]
    | _ => exact hv.elim

/-- The way to a place leads through different blocks, at every other step at least. -/
theorem Occurs.exists_trail (hF : F.Sound) (hU : F.Unshared) (h : F.Occurs p v) :
    ∃ bs : List BlockId, bs.Nodup ∧ (∀ b ∈ bs, b.index < F.store.blocks.size ∧
        ∃ q, F.Occurs q (.block b) ∧ (q = p ∨ q.Below p)) ∧
      p.depth ≤ 2 * bs.length + 1 ∧ ∀ b, v = .block b → p.depth ≤ 2 * bs.length := by
  have hs : ∀ {q r : Occurrence} {b : BlockId} {bs : List BlockId}, F.Occurs r (.block b) →
      (∀ o, o = q ∨ o.Below q → o.Below r) → bs.Nodup →
      (∀ c ∈ bs, c.index < F.store.blocks.size ∧ ∃ o, F.Occurs o (.block c) ∧ (o = q ∨ o.Below q)) →
      b.index < F.store.blocks.size →
      (b :: bs).Nodup ∧ ∀ c ∈ b :: bs, c.index < F.store.blocks.size ∧
        ∃ o, F.Occurs o (.block c) ∧ (o = r ∨ o.Below r) := by
    intro q r b bs hr hbe hn hbs hlt
    refine ⟨nodup_cons.2 ⟨fun hm => ?_, hn⟩, fun c hc => ?_⟩
    · obtain ⟨-, o, ho, hoq⟩ := hbs b hm
      have hd := (hbe o hoq).depth_lt
      rw [Occurs.unique hF hU (v := .block b) trivial ho hr] at hd
      exact Nat.lt_irrefl _ hd
    · rcases mem_cons.1 hc with rfl | hc
      · exact ⟨hlt, r, hr, .inl rfl⟩
      · obtain ⟨hl', o, ho, hoq⟩ := hbs c hc
        exact ⟨hl', o, ho, .inr (hbe o hoq)⟩
  induction h with
  | root ht => exact ⟨[], .nil, by simp, Nat.zero_le _, fun _ _ => Nat.zero_le _⟩
  | @row q t i b hq hb ih =>
    obtain ⟨bs, hn, hbs, hd, -⟩ := ih
    obtain ⟨hn', hb'⟩ := hs (hq.row hb) (fun o ho => ho.imp_left Eq.symm) hn hbs
      (hF.store.mem_blocksOf (mem_of_getElem? hb))
    have hle : (Occurrence.row q i).depth ≤ 2 * (b :: bs).length := by
      simp only [Occurrence.depth, length_cons]
      omega
    exact ⟨b :: bs, hn', hb', hle.trans (Nat.le_succ _), fun _ _ => hle⟩
  | @slot q b i v hq hv ih =>
    obtain ⟨bs, hn, hbs, -, hd⟩ := ih
    replace hd : q.depth ≤ 2 * bs.length := hd b rfl
    have hw : ∀ c ∈ bs, c.index < F.store.blocks.size ∧
        ∃ o, F.Occurs o (.block c) ∧ (o = .slot q i ∨ o.Below (.slot q i)) := by
      intro c hc
      obtain ⟨hlt, o, ho, hoq⟩ := hbs c hc
      exact ⟨hlt, o, ho, .inr (hoq.imp_left Eq.symm)⟩
    cases v with
    | block c =>
      obtain ⟨hn', hb'⟩ := hs (hq.slot hv) (fun o ho => ho.imp_left Eq.symm) hn hbs
        (hF.store.block_lt hv)
      have hle : (Occurrence.slot q i).depth ≤ 2 * (c :: bs).length := by
        simp only [Occurrence.depth, length_cons]
        omega
      exact ⟨c :: bs, hn', hb', hle.trans (Nat.le_succ _), fun _ _ => hle⟩
    | _ => exact ⟨bs, hn, hw, Nat.add_le_add_right hd 1, nofun⟩

/-- No way is longer than the store is large. -/
theorem Occurs.depth_le (hF : F.Sound) (hU : F.Unshared) (h : F.Occurs p v) :
    p.depth ≤ 2 * F.store.blocks.size + 1 := by
  obtain ⟨bs, hno, hbs, hd, -⟩ := h.exists_trail hF hU
  have hnu : (bs.map BlockId.index).Nodup := hno.map fun b c hbc => BlockId.eq_mk hbc
  have hs : bs.map BlockId.index ⊆ range F.store.blocks.size := by
    intro n hn
    obtain ⟨b, hb, rfl⟩ := mem_map.1 hn
    exact mem_range.2 (hbs b hb).1
  have hle := (hnu.subperm hs).length_le
  rw [length_map, length_range] at hle
  omega

/-- What stands somewhere in a forest without sharing shows a tree. -/
theorem Occurs.exists_tree (hF : F.Sound) (hU : F.Unshared)
    (hp : ∀ t, (F.store.stack t).position = none) (h : F.Occurs p v) : ∃ t, F.store.Shows t v := by
  -- downward from the longest ways, which lead to leaves
  obtain ⟨n, hn⟩ : ∃ n, 2 * F.store.blocks.size + 2 ≤ p.depth + n := ⟨_, Nat.le_add_left _ _⟩
  induction n generalizing p v with
  | zero => exact absurd (h.depth_le hF hU) (by omega)
  | succ n ih =>
    have hbe : ∀ {q w}, F.Occurs q w → q.depth = p.depth + 1 → ∃ t, F.store.Shows t w :=
      fun hq hd => ih hq (by omega)
    cases v with
    | block b =>
      have hb : b.index < F.store.blocks.size := by
        cases h with
        | row _ hb => exact hF.store.mem_blocksOf (mem_of_getElem? hb)
        | slot _ hv => exact hF.store.block_lt hv
      obtain ⟨ts, hts⟩ := exists_forall₂ (R := F.store.Shows) (l := (F.store.block b).values)
        fun w hw => by
          obtain ⟨i, hi⟩ := mem_iff_getElem?.1 hw
          exact hbe (h.slot hi) rfl
      exact ⟨.block _ ts, Store.shows_block.2 ⟨b, rfl, hb, rfl, hts⟩⟩
    | stack t =>
      have ht : t.index < F.store.allStacks.size := hF.shown_lt h.root_or_held
      obtain ⟨ts, hts⟩ := exists_forall₂ (R := fun u b => F.store.Shows u (.block b))
        (l := F.store.blocksOf t) fun b hb => by
          obtain ⟨i, hi⟩ := mem_iff_getElem?.1 hb
          exact hbe (h.row hi) rfl
      exact ⟨.stack none ts, Store.shows_stack.2
        ⟨t, rfl, ⟨ht, hF.store.row_lt t ht⟩, hp t, hts⟩⟩
    | none => exact ⟨.nothing, rfl⟩
    | bool b => exact ⟨.truth b, rfl⟩
    | num n => exact ⟨.number n, rfl⟩
    | text s => exact ⟨.text s, rfl⟩
    | list _ | complex _ _ =>
      cases h with
      | slot _ hv =>
        obtain ⟨c, -, hf⟩ := hF.store.fits_slot? hv
        exact (hf.isNode_or_literal.elim id id).elim

theorem unshared_empty : (Forest.mk .empty [] none).Unshared := by
  have hh : ∀ t, ¬Store.empty.Held t := by
    rintro t ⟨b, i, ht⟩
    simp [Store.slot?_empty] at ht
  refine ⟨fun k _ c hk _ => ?_, fun b i _ _ t ht _ => absurd ⟨b, i, ht⟩ (hh t)⟩
  cases k with
  | slot b i => simp [Forest.Holds, Store.Holds, Store.slot?_empty] at hk
  | place t i => exact hk.1.elim (by simp) fun ht => absurd ht (hh t)

end Forest

theorem Reachable.unshared {files : String → Prop} {considered : Editor → Event → Prop} {phase : Phase}
    (h : Reachable files considered phase e) (hf : ∀ text, files text → Saves (fun _ => True) text)
    (hc : ∀ e ev, considered e ev → ¬e.SharesOn ev) : e.forest.Unshared :=
  h.forest hf Forest.unshared_empty (fun _ _ hF hch hU => hU.changes hF hch)
    (fun e ev _ hev hon => absurd hon (hc e ev hev))
    fun _ _ _ _ _ hF hcr hU => hU.crown hF hcr

/-- In every run that duplicates no whole stack and no block with a filled body, each block and each
stack of the project stands at one place only: the forest has no cycles, and filling a slot of a block
changes no block at another place. -/
theorem occurs_once_without_sharing {phase : Phase} {e : Editor}
    (h : Reachable (Written fun _ _ => True) (fun e ev => ¬e.SharesOn ev) phase e) :
    (∀ p q v, v.IsNode → e.forest.Occurs p v → e.forest.Occurs q v → p = q) ∧
      (∀ p q v, v.IsNode → e.forest.Occurs p v → e.forest.Occurs q v → ¬p.Below q) ∧
      ∀ p q b c i v, e.forest.Occurs p (.block b) → e.forest.Occurs q (.block c) → p ≠ q →
        (e.store.setValue b i v).block c = e.store.block c := by
  have hfiles : ∀ text, Written (fun _ _ => True) text → Saves (fun _ => True) text :=
    fun _ => Written.saves
  have hF := (h.steady hfiles).1.forest
  have hU := h.unshared hfiles fun _ _ => id
  have honce : ∀ p q v, v.IsNode → e.forest.Occurs p v → e.forest.Occurs q v → p = q :=
    fun p q v hv hp hq => hp.unique hF hU hv hq
  refine ⟨honce, fun p q v hv hp hq hbelow => ?_, fun p q b c i v hp hq hne => ?_⟩
  · cases honce p q v hv hp hq
    exact absurd hbelow.depth_lt (Nat.lt_irrefl _)
  · refine e.store.block_setValue_of_ne i v fun hbc => hne ?_
    subst hbc
    exact honce p q (.block c) trivial hp hq

/-! ## Two runs -/

/-- Drag a counted loop to the workspace and a wait into its body. -/
def fillsBody : List (Devices × Event) :=
  [(⟨⟨80, 200⟩, []⟩, .down 1), (⟨⟨600, 400⟩, []⟩, .up 1), (⟨⟨80, 130⟩, []⟩, .down 1),
    (⟨⟨625, 430⟩, []⟩, .motion ⟨0, 0⟩), (⟨⟨625, 430⟩, []⟩, .up 1)]

/-- The only stack of the workspace is the first block, and its second slot is a body with the second
block. -/
def Editor.holdsBody (e : Editor) : Bool :=
  match e.workspace, e.cursor, e.store.slot? ⟨0⟩ 1 with
  | [t], none, some (.stack u) => e.store.blocksOf t == [⟨0⟩] && e.store.blocksOf u == [⟨1⟩]
  | _, _, _ => false

theorem Editor.occurs_of_holdsBody (h : e.holdsBody = true) :
    e.forest.Occurs (.row (.root 0) 0) (.block ⟨0⟩) ∧
      e.forest.Occurs (.row (.slot (.row (.root 0) 0) 1) 0) (.block ⟨1⟩) := by
  unfold holdsBody at h
  split at h
  case h_2 => cases h
  case h_1 t u hw hc hs =>
    simp only [Bool.and_eq_true, beq_iff_eq] at h
    have hl : e.forest.Occurs (.row (.root 0) 0) (.block ⟨0⟩) := by
      refine .row (t := t) (.root ?_) ?_
      · simp [Forest.roots, forest, hw]
      · simp [forest, h.1]
    refine ⟨hl, .row (t := u) (.slot hl ?_) ?_⟩
    · simpa [forest, Store.slot?] using hs
    · simp [forest, h.2]

theorem shares_nothing (e : Editor) (ev : Event) (h : (e.menu.isNone && (e.opens ev).isNone) = true) :
    ¬e.SharesOn ev ∧ e.opens ev = none := by
  simp only [Bool.and_eq_true, Option.isNone_iff_eq_none] at h
  refine ⟨?_, h.2⟩
  rintro ⟨-, -, -, m, hm, -⟩
  cases h.1.symm.trans hm

/-- In the run that fills a body, the wait is found in the body of the loop and nowhere else. -/
theorem occurs_once_in_filled_body :
    ∃ e, Reachable (Written fun _ _ => True) (fun e ev => ¬e.SharesOn ev) .waiting e ∧
      e.forest.Occurs (.row (.slot (.row (.root 0) 0) 1) 0) (.block ⟨1⟩) ∧
      (∀ p, e.forest.Occurs p (.block ⟨1⟩) → p = .row (.slot (.row (.root 0) 0) 1) 0) ∧
      ∀ i v, (e.store.setValue ⟨1⟩ i v).block ⟨0⟩ = e.store.block ⟨0⟩ := by
  obtain ⟨e, he, hend⟩ := exists_reachable_of_play shares_nothing fillsBody Editor.holdsBody
    (by decide +kernel)
  obtain ⟨hloop, hwait⟩ := Editor.occurs_of_holdsBody hend
  obtain ⟨honce, -, hfill⟩ := occurs_once_without_sharing he
  exact ⟨e, he, hwait, fun p hp => honce p _ (.block ⟨1⟩) trivial hp hwait, fun i v =>
    hfill _ _ _ _ i v hwait hloop nofun⟩

/-- Drag a wait to the workspace and duplicate it. -/
def duplicatesStack : List (Devices × Event) :=
  [(⟨⟨80, 130⟩, []⟩, .down 1), (⟨⟨600, 400⟩, []⟩, .up 1), (⟨⟨605, 405⟩, []⟩, .down 3),
    (⟨⟨610, 430⟩, []⟩, .motion ⟨0, 0⟩), (⟨⟨610, 430⟩, []⟩, .down 1)]

/-- The stack of the workspace and the dragged one both hold the first block. -/
def Editor.doublesFirst (e : Editor) : Bool :=
  match e.workspace, e.cursor with
  | [t], some u => e.store.blocksOf t == [⟨0⟩] && e.store.blocksOf u == [⟨0⟩]
  | _, _ => false

/-- After a whole stack was duplicated, its block stands in the workspace and in the dragged stack. -/
theorem duplicated_stack_shares_block :
    ∃ e, Reachable (Written fun _ _ => True) (fun _ _ => True) .waiting e ∧
      e.forest.Occurs (.row (.root 0) 0) (.block ⟨0⟩) ∧
      e.forest.Occurs (.row (.root 1) 0) (.block ⟨0⟩) := by
  have hcheck : ∀ (e : Editor) ev, (e.opens ev).isNone = true → True ∧ e.opens ev = none :=
    fun e ev hpass => ⟨trivial, Option.isNone_iff_eq_none.1 hpass⟩
  obtain ⟨e, he, hend⟩ := exists_reachable_of_play hcheck duplicatesStack
    Editor.doublesFirst (by decide +kernel)
  refine ⟨e, he, ?_⟩
  unfold Editor.doublesFirst at hend
  split at hend
  case h_2 => cases hend
  case h_1 t u hworkspace hcursor =>
    simp only [Bool.and_eq_true, beq_iff_eq] at hend
    refine ⟨.row (t := t) (.root ?_) ?_, .row (t := u) (.root ?_) ?_⟩
    · simp [Forest.roots, Editor.forest, hworkspace]
    · simp [Editor.forest, hend.1]
    · simp [Forest.roots, Editor.forest, hworkspace, hcursor]
    · simp [Editor.forest, hend.2]

end BlockStudio
