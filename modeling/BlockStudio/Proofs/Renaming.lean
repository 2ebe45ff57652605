import BlockStudio.Proofs.Unassigned

/-!
# Renaming a variable

A variable is renamed by putting a new name for it into every slot for a variable and among the names of
the scene.  If the new name was used nowhere, the program runs as before: it gives the same values and
says the same lines in every step, it ends in the same way, and after every step the variables are the
same up to the name.  Only the fault that a variable is unknown tells the name.

A program can show blocks, names included, so the renamed run is the same only as long as no block gets
into a variable.  The slots of the program see to that: they hold plain values and blocks to evaluate,
and only slots for bodies hold stacks.
-/

namespace BlockStudio

open Environment Store List

variable {v : Value} {gs : List (Value × Value)}

/-! ## Renaming -/

/-- A new name for a variable. -/
def renameTo (x y name : String) : String := if name = x then y else name

/-- A value as a name, renamed. -/
def Value.renamed (x y : String) : Value → Value
  | .text name => .text (renameTo x y name)
  | v => v

/-- A block with a variable renamed in its slots for variables. -/
def Block.renamed (x y : String) (b : Block) : Block :=
  { b with
    values := b.values.mapIdx fun i v =>
      match b.definition.inputs[i]? with
      | some c => if c.kind = .varName then v.renamed x y else v
      | none => v }

/-- A store with a variable renamed in all blocks. -/
def Store.renamed (x y : String) (s : Store) : Store :=
  { s with blocks := s.blocks.map (Block.renamed x y) }

/-- Variables with one of them renamed. -/
def renamedGlobals (x y : String) (globals : List (Value × Value)) : List (Value × Value) :=
  globals.map fun g => (g.1.renamed x y, g.2)

/-- A scene with a variable renamed. -/
def Scene.renamed (x y : String) (s : Scene) : Scene :=
  s.withGlobals (renamedGlobals x y s.env.globals)

/-- Two ways to end that differ at most in the name of a variable that is not there. -/
def Run.Ending.SameBut (x y : String) : Run.Ending → Run.Ending → Prop
  | .finished, .finished | .running, .running => True
  | .stopped e, .stopped f =>
    f = e ∨ e = .fault (.unknownKey (quoted x)) ∧ f = .fault (.unknownKey (quoted y))
  | _, _ => False

/-- A slot for a variable holds this name. -/
def Store.Names (s : Store) (t : StackId) (x : String) : Prop :=
  ∃ b i, s.Part t b ∧ s.IsName b i ∧ (s.block b).values[i]? = some (.text x)

/-- Slots hold plain values and blocks, and slots for bodies hold stacks. -/
def Store.Slotted (s : Store) (t : StackId) : Prop :=
  ∀ b, s.Part t b → ∀ (i : Nat) (v : Value), (s.block b).values[i]? = some v →
    v.plain = true ∨ (∃ b', v = .block b') ∨
      ∃ r, v = .stack r ∧ ∃ c, (s.definitionOf b).inputs[i]? = some c ∧ c.kind = .statement

namespace Store

variable {x y : String} {s : Store} {t : StackId}

theorem block_renamed (b : BlockId) : (s.renamed x y).block b = (s.block b).renamed x y := by
  unfold block renamed
  simp only [Array.getD_eq_getD_getElem?, Array.getElem?_map]
  cases s.blocks[b.index]? <;> rfl

theorem definitionOf_renamed (b : BlockId) : (s.renamed x y).definitionOf b = s.definitionOf b := by
  rw [definitionOf, block_renamed]
  rfl

theorem depth_renamed : (s.renamed x y).depth = s.depth := by simp [depth, renamed]

/-! ## Showing values without blocks -/

theorem shownWith_blockless {block block' : BlockId → String} {stack stack' : StackId → String}
    (hs : ∀ t, s.Blockless (.stack t) → stack' t = stack t) (hv : s.Blockless v) :
    shownWith block' stack' v = shownWith block stack v :=
  shownWith_eq (P := s.Blockless) (fun _ h v hm b hb => h b (.list hm hb))
    (fun b h => (h b .block).elim) hs hv

/-- A stack without blocks shows only its place. -/
theorem stackText_renamed (fuel : Nat) {t : StackId} (ht : s.Blockless (.stack t)) :
    (s.renamed x y).stackText fuel t = s.stackText fuel t := by
  induction fuel generalizing t with
  | zero => rfl
  | succ fuel ih =>
    have hr : s.blocksOf t = [] := eq_nil_iff_forall_not_mem.2 fun b hb => ht b (.row hb)
    have hr' : (s.renamed x y).blocksOf t = [] := hr
    have hpo : ((s.renamed x y).stack t).position = (s.stack t).position := rfl
    simp only [stackText, hr, hr', hpo, map_nil]
    split
    · rfl
    · rename_i p hp
      have hm : p.map (shownWith ((s.renamed x y).blockText fuel) ((s.renamed x y).stackText fuel)) =
          p.map (shownWith (s.blockText fuel) (s.stackText fuel)) :=
        map_congr_left fun v hv => shownWith_blockless (fun _ => ih) fun b hb => ht b (.position hp hv hb)
      rw [hm]

theorem plain_renamed (hv : s.Blockless v) : (s.renamed x y).plain v = s.plain v := by
  unfold plain
  split
  · rfl
  · unfold shown
    rw [depth_renamed]
    exact shownWith_blockless (fun _ => stackText_renamed _) hv

end Store

/-! ## Variables with one of them renamed -/

section

variable {x y a : String} {s s' : Store}

theorem renamed_eq_text {k : Value} (hk : k ≠ .text y) (ha : a ≠ y) :
    k.renamed x y = .text (renameTo x y a) ↔ k = .text a := by
  cases k with
  | text b =>
    have hb : b ≠ y := fun h => hk (congrArg _ h)
    simp only [Value.renamed, renameTo, Value.text.injEq]
    grind
  | _ => simp [Value.renamed]

theorem find?_renamedGlobals {t : Store} (ha : a ≠ y) (hgs : ∀ g ∈ gs, g.1 ≠ .text y) :
    ((renamedGlobals x y gs).find? fun g => t.sameKey g.1 (.text (renameTo x y a))) =
      (gs.find? fun g => s.sameKey g.1 (.text a)).map fun g => (g.1.renamed x y, g.2) := by
  induction gs with
  | nil => rfl
  | cons g rest ih =>
    obtain ⟨hg, hr⟩ := forall_mem_cons.1 hgs
    have hs : t.sameKey (g.1.renamed x y) (.text (renameTo x y a)) =
        s.sameKey g.1 (.text a) := by
      rw [Bool.eq_iff_iff, sameKey_text, sameKey_text]
      exact renamed_eq_text hg ha
    rw [renamedGlobals, map_cons, find?_cons, find?_cons, hs]
    cases s.sameKey g.1 (.text a) with
    | true => rfl
    | false => exact ih hr

theorem putGlobal_renamedGlobals (ha : a ≠ y) (v : Value) (hgs : ∀ g ∈ gs, g.1 ≠ .text y) :
    putGlobal s' (.text (renameTo x y a)) v (renamedGlobals x y gs) =
      renamedGlobals x y (putGlobal s (.text a) v gs) := by
  induction gs with
  | nil => rfl
  | cons g rest ih =>
    obtain ⟨n, w⟩ := g
    obtain ⟨hn, hr⟩ := forall_mem_cons.1 hgs
    have hs : s'.sameKey (n.renamed x y) (.text (renameTo x y a)) = s.sameKey n (.text a) := by
      rw [Bool.eq_iff_iff, sameKey_text, sameKey_text]
      exact renamed_eq_text hn ha
    simp only [renamedGlobals, map_cons, putGlobal, hs]
    split
    · rfl
    · exact congrArg (cons _) (ih hr)

theorem keys_ne_putGlobal (ha : a ≠ y) (hgs : ∀ g ∈ gs, g.1 ≠ .text y) :
    ∀ g ∈ putGlobal s (.text a) v gs, g.1 ≠ .text y := by
  induction gs with
  | nil => simpa [putGlobal] using ha
  | cons g rest ih =>
    obtain ⟨n, w⟩ := g
    obtain ⟨hn, hr⟩ := forall_mem_cons.1 hgs
    unfold putGlobal
    split
    · exact forall_mem_cons.2 ⟨hn, hr⟩
    · exact forall_mem_cons.2 ⟨hn, ih hr⟩

end

/-! ## The renamed program -/

namespace Store

variable {x y : String} {s : Store} {t : StackId}

theorem shown_text (a : String) : s.shown (.text a) = quoted a := rfl

/-- The program beside the one in which `x` is renamed to `y`. -/
def besideRenamed (s : Store) (t : StackId) (x y : String) : Mirror where
  left := s
  right := s.renamed x y
  program := s.Part t
  good := s.Blockless
  bodies u u' := u' = u ∧ ∀ b ∈ s.blocksOf u, s.Part t b
  rows r r' := r' = r ∧ ∀ b ∈ s.row r, s.Part t b
  name v w := ∃ a, v = .text a ∧ w = .text (renameTo x y a) ∧ a ≠ y
  target v w := ∃ a, v = .text a ∧ w = .text (renameTo x y a) ∧ a ≠ y
  globals gs hs := hs = renamedGlobals x y gs ∧ (∀ g ∈ gs, g.1 ≠ .text y) ∧
    ∀ g ∈ gs, s.Blockless g.2

/-- What stands in a slot of the renamed block. -/
theorem slot_besideRenamed (hs : s.Program t) (hsl : s.Slotted t) (hy : ¬s.Names t y) {b : BlockId}
    (hb : s.Part t b) {i : Nat} {w : Value} (hv : (s.block b).values[i]? = some v)
    (hw : ((s.block b).renamed x y).values[i]? = some w) :
    (s.besideRenamed t x y).Slot (s.definitionOf b) i v w := by
  have hw : (match (s.definitionOf b).inputs[i]? with
      | some c => if c.kind = .varName then v.renamed x y else v
      | none => v) = w := by
    simpa [Block.renamed, definitionOf, hv] using hw
  by_cases hn : i ∈ (s.definitionOf b).action.names
  · obtain ⟨c, hc, hk⟩ := known_names (hs.known hb) hn
    obtain ⟨a, rfl⟩ := hs.names hb ⟨c, hc, hk⟩ hv
    have ha : a ≠ y := by
      rintro rfl
      exact hy ⟨b, i, hb, ⟨c, hc, hk⟩, hv⟩
    simp only [hc, hk, if_true] at hw
    obtain rfl : w = .text (renameTo x y a) := hw.symm
    refine .value rfl rfl ?_
    rw [Mirror.Arg, if_pos hn]
    exact ⟨⟨a, rfl, rfl, ha⟩, fun _ => ⟨a, rfl, rfl, ha⟩⟩
  · have hsa : w = v := by
      rw [← hw]
      split
      · rename_i c hc
        exact if_neg fun hk => hn ((known_slots (hs.known hb) hc).1.1 hk)
      · rfl
    obtain rfl := hsa
    have hi : ∀ b', s.Bears b' w → s.Part t b' := fun _ => .slot hb (mem_of_getElem? hv)
    have hu : i ∈ (s.definitionOf b).action.names → ∀ v, (s.besideRenamed t x y).good v →
        (s.besideRenamed t x y).Name (s.definitionOf b).action i v v := fun h => absurd h hn
    obtain hp | ⟨b', rfl⟩ | ⟨r, rfl, c, hc, hk⟩ := hsl b hb i w hv
    · have har : (s.besideRenamed t x y).Arg (s.definitionOf b).action i w w := by
        rw [Mirror.Arg, if_neg hn]
        exact .inl ⟨rfl, s.blockless_of_plain hp⟩
      cases w with
      | block b' => cases hp
      | none => exact .unfilled hu
      | _ => exact .value rfl rfl har
    · exact .block (hi b' .block) hu
    · refine .value rfl rfl ?_
      rw [Mirror.Arg, if_neg hn]
      exact .inr ⟨r, r, rfl, rfl, (known_slots (hs.known hb) hc).2.1 hk, rfl, fun b' hb' =>
        hi b' (.row hb')⟩

theorem lawful_besideRenamed (hs : s.Program t) (hsl : s.Slotted t) (hy : ¬s.Names t y) :
    (s.besideRenamed t x y).Lawful where
  row := by
    rintro r _ ⟨rfl, hr⟩
    exact ⟨rfl, hr⟩
  body := by
    rintro u _ ⟨rfl, hr⟩
    exact ⟨rfl, hr⟩
  definition {b} _ := definitionOf_renamed b
  known := hs.known
  values {b} hb := by
    have hbl : ((s.besideRenamed t x y).right.block b).values = ((s.block b).renamed x y).values :=
      congrArg Block.values (block_renamed b)
    refine Along.of_getElem? (by rw [hbl]; simp [Block.renamed, besideRenamed]) fun j v w hv hw => ?_
    rw [hbl] at hw
    rw [Nat.zero_add]
    exact slot_besideRenamed hs hsl hy hb hv hw
  blank := ⟨rfl, fun _ => .blank⟩
  good_of_plain := s.blockless_of_plain
  good_of_mem h hv b hb := h b (.list hv hb)
  program_of_good h := (h _ .block).elim
  bodies_of_good h := ⟨rfl, fun b hb => (h b (.row hb)).elim⟩
  plain_eq := plain_renamed
  digest := by rintro _ _ (⟨a, rfl, rfl, -⟩ | ⟨a, rfl, rfl, -⟩) <;> rfl
  lookup {v w gs hs} hn h := by
    obtain ⟨a, rfl, rfl, ha⟩ := hn
    obtain ⟨rfl, hk, hva⟩ := h
    have hf := find?_renamedGlobals (s := s) (t := s.renamed x y) (x := x) ha hk
    cases hg : gs.find? fun g => s.sameKey g.1 (.text a) with
    | none =>
      rw [hg] at hf
      exact .inl ⟨hg, hf⟩
    | some g =>
      rw [hg] at hf
      exact .inr ⟨g.1, g.1.renamed x y, g.2, hg, hf, hva g (mem_of_find?_eq_some hg)⟩
  assign {v w value gs hs} ht hv h := by
    obtain ⟨a, rfl, rfl, ha⟩ := ht
    obtain ⟨rfl, hk, hva⟩ := h
    exact ⟨putGlobal_renamedGlobals ha value hk, keys_ne_putGlobal ha hk,
      Run.forall_putGlobal s _ hv hva⟩

end Store

namespace Run

/-- A program of the catalogue has texts in its slots for variables and stacks only in slots for
bodies.  If its variables hold no blocks and `y` is neither in a slot for a variable nor the name of one,
then renaming `x` to `y` gives a run with the same values and the same lines in every step, which ends in
the same way and leaves the same scene up to the name. -/
theorem follow_renamed {s : Store} {t : StackId} (hs : s.Program t) (hslotted : s.Slotted t)
    {scene : Scene} (hscene : ∀ g ∈ scene.env.globals, s.Blockless g.2) (x : String) {y : String}
    (hy : ¬s.Names t y) (hkey : ∀ g ∈ scene.env.globals, g.1 ≠ .text y) (limits : Limits)
    (count : Nat) :
    (follow (s.renamed x y) limits count (program t) (scene.renamed x y)).1 =
        (follow s limits count (program t) scene).1 ∧
      (follow s limits count (program t) scene).2.1.SameBut x y
        (follow (s.renamed x y) limits count (program t) (scene.renamed x y)).2.1 ∧
      (follow (s.renamed x y) limits count (program t) (scene.renamed x y)).2.2 =
        (follow s limits count (program t) scene).2.2.renamed x y := by
  have hprogram : (s.besideRenamed t x y).Twins (program t) (program t) :=
    .cons (.stack ⟨rfl, fun _ => .row⟩) .nil
  have hscenes : (s.besideRenamed t x y).Scenes scene (scene.renamed x y) :=
    ⟨_, ⟨rfl, hkey, hscene⟩, rfl⟩
  obtain ⟨hsteps, hending, gs, ⟨hgs, -⟩, hlast⟩ := Mirror.follow
    (Store.lawful_besideRenamed hs hslotted hy) limits count hprogram hscenes
  refine ⟨hsteps, ?_, hlast.trans (by rw [hgs]; rfl)⟩
  revert hending
  change (s.besideRenamed t x y).Endings (follow s limits count (program t) scene).2.1
    (follow (s.renamed x y) limits count (program t) (scene.renamed x y)).2.1 → _
  generalize (follow s limits count (program t) scene).2.1 = left
  generalize (follow (s.renamed x y) limits count (program t) (scene.renamed x y)).2.1 = right
  intro hending
  cases left <;> cases right <;> try exact hending
  -- Only `x` has another name on the other side.
  obtain heq | ⟨_, _, ⟨a, rfl, rfl, -⟩, rfl, rfl⟩ := hending
  · exact .inl heq
  · rw [Store.shown_text, Store.shown_text]
    by_cases ha : a = x
    · subst ha
      exact .inr ⟨rfl, by simp [renameTo]⟩
    · exact .inl (by simp [renameTo, ha])

/-! ## A program with a variable renamed -/

/-- Whether slots hold plain values and blocks, and slots for bodies stacks. -/
def slotted (b : Block) : Bool :=
  b.values.zipIdx.all fun (v, i) =>
    match v with
    | .block _ => true
    | .stack _ => (b.definition.inputs[i]?).any (·.kind == .statement)
    | v => v.plain

theorem slotted_of_all {s : Store} (hs : s.blocks.toList.all slotted = true) (t : StackId) :
    s.Slotted t := by
  intro b _ i v hv
  have hsl := all_eq_true.1 (block_of_all hs rfl b) (v, i) (mem_zipIdx_iff_getElem?.2 hv)
  cases v with
  | block b' => exact .inr (.inl ⟨b', rfl⟩)
  | stack r =>
    obtain ⟨c, hc, hk⟩ := (Option.any_eq_true _ _).1 hsl
    exact .inr (.inr ⟨r, rfl, c, hc, by simpa using hk⟩)
  | _ => exact .inl hsl

theorem not_names_sum : ¬tallies.Names ⟨2⟩ "sum" := by
  rintro ⟨b, i, -, -, hv⟩
  have ha : tallies.blocks.toList.all (fun b => b.values.all fun v =>
      match v with
      | .text a => a != "sum"
      | _ => true) = true := by decide +kernel
  simpa using all_eq_true.1 (block_of_all ha rfl b) _ (mem_of_getElem? hv)

/-- The total of the tally under another name. -/
theorem follow_renamed_tallied : tallies.Program ⟨2⟩ ∧ tallies.Slotted ⟨2⟩ ∧
      (∀ g ∈ tallied.env.globals, tallies.Blockless g.2) ∧ ¬tallies.Names ⟨2⟩ "sum" ∧
      (∀ g ∈ tallied.env.globals, g.1 ≠ .text "sum") ∧ ∀ limits count,
        (follow (tallies.renamed "total" "sum") limits count (program ⟨2⟩)
            (tallied.renamed "total" "sum")).1 =
          (follow tallies limits count (program ⟨2⟩) tallied).1 := by
  have hslotted : tallies.Slotted ⟨2⟩ := slotted_of_all (by decide +kernel) ⟨2⟩
  have hkey : ∀ g ∈ tallied.env.globals, g.1 ≠ .text "sum" := by simp [tallied]
  refine ⟨program_tallies, hslotted, blockless_tallied, not_names_sum, hkey, fun limits count => ?_⟩
  exact (follow_renamed program_tallies hslotted blockless_tallied "total" not_names_sum hkey limits
    count).1

end Run

end BlockStudio
