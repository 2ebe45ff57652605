import BlockStudio.Project.Saved
import BlockStudio.Proofs.BareStore
import BlockStudio.Proofs.Outcome
import BlockStudio.Proofs.Sprout

/-!
# What copies and files add to a store

Blocks and stacks come into a store by copying and by reading files, and nothing that was there changes.
`Store.Adds` says so of stores whatever they hold: each stack shows a row of its own if it was so before,
and the stacks in slots for bodies are those that were there or new ones.
-/

namespace BlockStudio

variable {vs : List Value}

namespace Store

variable {s s' s'' : Store}

/-- The stacks among some values were added on the way from one store to another. -/
def Between (s s' : Store) (vs : List Value) : Prop :=
  ∀ t, .stack t ∈ vs → s.allStacks.size ≤ t.index ∧ t.index < s'.allStacks.size

/-- A store got new blocks, with new stacks for bodies, and new stacks with rows of their own. -/
structure Adds (s s' : Store) : Prop extends Grown s s' where
  rowed : s.Rowed → s'.Rowed
  held : ∀ t, s'.Held t → s.Held t ∨ s.allStacks.size ≤ t.index ∧ t.index < s'.allStacks.size

theorem Between.mono (h : Between s' s'' vs) (hle : s.allStacks.size ≤ s'.allStacks.size) :
    Between s s'' vs := fun t ht =>
  ⟨hle.trans (h t ht).1, (h t ht).2⟩

theorem Between.later (h : Between s s' vs) (hle : s'.allStacks.size ≤ s''.allStacks.size) :
    Between s s'' vs := fun t ht =>
  ⟨(h t ht).1, (h t ht).2.trans_le hle⟩

instance : IsPreorder Store Adds where
  refl s := { Grown.refl s with rowed := id, held := fun _ => .inl }
  trans s s' s'' h h' := { h.toGrown.trans h'.toGrown with
    rowed := fun hs => h'.rowed (h.rowed hs)
    held := fun t ht => by
      rcases h'.held t ht with ht | ⟨hle, hlt⟩
      · exact (h.held t ht).imp_right fun ⟨hle, hlt⟩ => ⟨hle, hlt.trans_le h'.stacks_le⟩
      · exact .inr ⟨h.stacks_le.trans hle, hlt⟩ }

theorem adds_addStack (s : Store) (bs : List BlockId) (p : Option (List Value)) :
    Adds s (s.addStack bs p).2 :=
  { grown_addStack s bs p with
    rowed := fun hs => hs.addStack bs p
    held := fun _ => .inl }

/-- A new block whose bodies are new. -/
theorem Adds.addBlock (h : Adds s s') (hvs : Between s s' vs) (d : Definition) :
    Adds s (s'.addBlock d vs).2 :=
  { h.toGrown.trans (grown_addBlock s' d vs) with
    rowed := fun hs => ⟨(h.rowed hs).row_lt, (h.rowed hs).row_inj⟩
    held := by
      rintro t ⟨b, i, ht⟩
      rcases slot?_addBlock ht with ⟨-, ht⟩ | ht
      · exact .inr (hvs t (List.mem_of_getElem? ht))
      · exact h.held t ⟨b, i, ht⟩ }

theorem Adds.bare (h : Adds s s') : Adds s.bare s'.bare where
  blocks_le := by simpa using h.blocks_le
  stacks_le := by simpa using h.stacks_le
  rows_le := h.rows_le
  values_eq b hb := by
    rw [size_blocks_bare] at hb
    simpa using h.values_eq b hb
  definition_eq b hb := by
    rw [size_blocks_bare] at hb
    simpa using h.definition_eq b hb
  stack_eq t ht := by
    rw [size_allStacks_bare] at ht
    simpa using h.stack_eq t ht
  row_eq := h.row_eq
  rowed hs := by
    have hs : s.Rowed := ⟨by simpa using hs.row_lt, by simpa using hs.row_inj⟩
    exact ⟨by simpa using (h.rowed hs).row_lt, by simpa using (h.rowed hs).row_inj⟩
  held := by simpa [Held, slot?] using h.held

/-! ## Copies -/

theorem adds_copyValues {copyBlock : Store → BlockId → BlockId × Store}
    (hc : ∀ s b, Adds s (copyBlock s b).2) (vs : List Value) (s : Store) :
    Adds s (copyValues copyBlock s vs).2 ∧
      Between s (copyValues copyBlock s vs).2 (copyValues copyBlock s vs).1 := by
  induction vs generalizing s with
  | nil => exact ⟨refl s, by simp [copyValues, Between]⟩
  | cons v vs ih =>
    cases v with
    | block b =>
      obtain ⟨ha, hb⟩ := ih (copyBlock s b).2
      have hf := hc s b
      refine ⟨trans_of Adds hf ha, fun t ht => ?_⟩
      exact hb.mono hf.stacks_le t (by simpa [copyValues] using ht)
    | stack u =>
      obtain ⟨ha, hb⟩ := ih (s.copyStack u).2
      have hf : Adds s (s.copyStack u).2 := adds_addStack ..
      refine ⟨trans_of Adds hf ha, fun t ht => ?_⟩
      rcases List.mem_cons.1 ht with ht | ht
      · cases ht
        refine ⟨le_rfl, lt_of_lt_of_le ?_ ha.stacks_le⟩
        simp [copyStack, addStack]
      · exact hb.mono hf.stacks_le t ht
    | _ =>
      obtain ⟨ha, hb⟩ := ih s
      exact ⟨ha, fun t ht => hb t (by simpa [copyValues] using ht)⟩

theorem adds_copyBlock (s : Store) (b : BlockId) : Adds s (s.copyBlock b).2 := by
  have hto : ∀ (n : Nat) (s : Store) (b : BlockId), Adds s (copyBlockTo n s b).2 := by
    intro n
    induction n with
    | zero => exact fun s _ => refl s
    | succ n ih =>
      intro s b
      obtain ⟨ha, hb⟩ := adds_copyValues ih (s.block b).values s
      exact ha.addBlock hb _
  exact hto s.depth s b

/-! ## Reading -/

/-- A step of reading adds to the store, also when it fails, and the stacks among what it gives are
new. -/
def Supplies {α : Type} (given : α → List Value) (m : Building α) : Prop :=
  ∀ s, match m s with
    | .ok a s' => Adds s s' ∧ Between s s' (given a)
    | .error _ s' => Adds s s'

variable {α : Type} {given : α → List Value} {m : Building α} {β : Type}

theorem Supplies.ok (h : Supplies given m) {a : α} (hm : m s = .ok a s') :
    Adds s s' ∧ Between s s' (given a) := by
  have hr := h s
  rwa [hm] at hr

theorem Supplies.adds (h : Supplies given m) : Keeps Adds m := by
  refine ⟨fun s => ?_⟩
  cases hm : m s with
  | error f s' =>
    have hr := h s
    rwa [hm] at hr
  | ok a s' => exact (h.ok hm).1

theorem supplies_none (h : Keeps Adds m) : Supplies (fun _ => []) m := by
  intro s
  cases hm : m s with
  | error f s' => exact h.error hm
  | ok a s' => exact ⟨h.ok hm, fun t ht => absurd ht List.not_mem_nil⟩

theorem Supplies.map {given' : β → List Value} (h : Supplies given m) (g : α → β)
    (hg : ∀ a t, .stack t ∈ given' (g a) → .stack t ∈ given a) : Supplies given' (g <$> m) := by
  intro s
  have hr := h s
  rw [map_eq_pure_bind, bind_run]
  cases hm : m s with
  | error f s' => rwa [hm] at hr
  | ok a s' =>
    rw [hm] at hr
    exact ⟨hr.1, fun t ht => hr.2 t (hg a t ht)⟩

theorem adds_ofExcept (x : Except Fault α) : Keeps Adds (Building.ofExcept x) := by
  cases x with
  | ok a => exact .pure a
  | error f => exact .throw f

theorem adds_addRetired : Keeps Adds (modifyGet addRetired : Building BlockId) := by
  refine .modifyGet fun s => ?_
  have hr : Adds s { s with retired := s.retired + 1 } :=
    { Grown.refl s with rowed := fun hs => ⟨hs.row_lt, hs.row_inj⟩, held := fun _ => .inl }
  exact hr.addBlock (fun _ ht => absurd ht List.not_mem_nil) _

theorem supplies_mapM {f : Json → Building Value} (hf : ∀ json, Supplies (fun v => [v]) (f json))
    (jsons : List Json) : Supplies id (jsons.mapM f) := by
  induction jsons with
  | nil => exact fun s => ⟨refl s, nofun⟩
  | cons json jsons ih =>
    intro s
    rw [List.mapM_cons, bind_run]
    have hfi := hf json s
    cases h1 : f json s with
    | error e s1 => rwa [h1] at hfi
    | ok v s1 =>
      rw [h1] at hfi
      have hr := ih s1
      dsimp only
      rw [bind_run]
      cases h2 : jsons.mapM f s1 <;> rw [h2] at hr
      · refine ⟨trans_of Adds hfi.1 hr.1, fun t ht => ?_⟩
        rcases List.mem_cons.1 ht with rfl | ht
        · exact hfi.2.later hr.1.stacks_le t (by simp)
        · exact hr.2.mono hfi.1.stacks_le t ht
      · exact trans_of Adds hfi.1 hr

theorem plainValue_ne_stack (json : Json) (t : StackId) : json.plainValue ≠ .stack t := by
  cases json <;> simp [Json.plainValue]

theorem supplies_bind {m : Building β} {f : β → Building α} (hm : Keeps Adds m)
    (hf : ∀ b, Supplies given (f b)) : Supplies given (m >>= f) := by
  intro s
  rw [bind_run]
  cases h : m s with
  | error e s1 => exact hm.error h
  | ok b s1 =>
    have ha := hm.ok h
    have hr := hf b s1
    dsimp only
    cases h2 : f b s1 <;> rw [h2] at hr
    · exact ⟨trans_of Adds ha hr.1, hr.2.mono ha.stacks_le⟩
    · exact trans_of Adds ha hr

/-- A stack that is put into the store at the end is new. -/
theorem supplies_addStack (hm : Keeps Adds m) (bs : α → List BlockId) (p : α → Option (List Value)) :
    Supplies (fun t => [.stack t]) (do
      let a ← m
      Building.addStack (bs a) (p a)) := by
  intro s
  rw [bind_run]
  cases h : m s with
  | error f s1 => exact hm.error h
  | ok a s1 =>
    have ha := hm.ok h
    refine ⟨trans_of Adds ha (adds_addStack ..), fun t ht => ?_⟩
    obtain rfl : t = ⟨s1.allStacks.size⟩ := by simpa using ht
    exact ⟨ha.stacks_le, by simp⟩

/-- Reading a saved block, value or stack, to any depth. -/
theorem supplies_read (definitions : List Definition) (fuel : Nat) :
    (∀ json, Keeps Adds (Saved.readBlock definitions fuel json)) ∧
      (∀ json, Supplies (fun v => [v]) (Saved.readValue definitions fuel json)) ∧
      ∀ json, Supplies (fun t => [.stack t]) (Saved.readStack definitions fuel json) := by
  have hp : ∀ json, Supplies (fun v => [v]) (pure (Json.plainValue json) : Building Value) := by
    intro json s
    exact ⟨refl s, fun t ht => absurd (List.mem_singleton.1 ht).symm (plainValue_ne_stack json t)⟩
  induction fuel with
  | zero =>
    refine ⟨fun _ => adds_addRetired, hp, fun json => ?_⟩
    exact supplies_addStack (.pure ()) (fun _ => []) fun _ => none
  | succ fuel ih =>
    obtain ⟨ihBlock, ihValue, ihStack⟩ := ih
    refine ⟨fun json => ?_, fun json => ?_, fun json => ?_⟩
    · unfold Saved.readBlock
      refine .bind (adds_ofExcept _) fun d => ?_
      cases d with
      | none => exact adds_addRetired
      | some d =>
        refine .bind (adds_ofExcept _) fun values => ⟨fun s => ?_⟩
        have hv := supplies_mapM ihValue values s
        rw [bind_run]
        cases h : values.mapM (Saved.readValue definitions fuel) s with
        | error f s1 => rwa [h] at hv
        | ok vs s1 =>
          rw [h] at hv
          exact hv.1.addBlock hv.2 d
    · unfold Saved.readValue
      split
      · split
        · exact (supplies_none (ihBlock _)).map Value.block (by simp)
        · exact (ihStack _).map Value.stack (by simp)
      · exact hp _
    · unfold Saved.readStack
      refine supplies_bind (adds_ofExcept _) fun items => ?_
      refine supplies_bind (.mapM items fun json _ => ihBlock json) fun blocks => ?_
      exact supplies_addStack (adds_ofExcept _) (fun _ => blocks) id

/-- A stack that is read from a file is a new one. -/
theorem supplies_stack (definitions : List Definition) (json : Json) :
    Supplies (fun t => [.stack t]) (Saved.stack definitions json) :=
  (supplies_read definitions _).2.2 json

end Store

end BlockStudio
