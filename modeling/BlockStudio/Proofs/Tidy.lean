import BlockStudio.Proofs.Glance
import BlockStudio.Proofs.Unassigned

/-!
# Names in slots

A store also keeps what was deleted, and a slot for a variable of a deleted block can hold a name that
means nothing any more.  So `Store.Tidy` speaks about the live blocks and stacks only: a set that is
closed under rows and slots, and whose slots for variables hold nothing or a name.  Each manner in which
the editor changes a store keeps some such set.  What copying and reading add is live as a whole, since
the new blocks have the names of those that were copied or saved: `Store.Brings`.
-/

namespace BlockStudio

variable {b : BlockId} {fuel i n : Nat} {v : Value} {r t : StackId} {vs : List Value} {α : Type}
  {js : List Json}

namespace Store

variable {src s s' s'' : Store} {named live : Value → Prop}

theorem Tidy.names (h : s.Tidy named live) {named' : Value → Prop}
    (hn : ∀ v, named v → named' v) : s.Tidy named' live :=
  { h with name := fun b i v hb hna hv => (h.name b i v hb hna hv).imp_right (hn v) }

/-- What can be reached from live stacks is live. -/
theorem Tidy.reached (h : s.Tidy named live) {tops : List StackId} (hto : ∀ t ∈ tops, live (.stack t))
    (hv : v.IsNode) (hr : Forest.Reached s tops v) : live v := by
  induction hr with
  | top ht => exact hto _ ht
  | row _ hb ih => exact h.row _ _ (ih trivial) hb
  | slot _ hs ih => exact h.slot _ _ _ (ih trivial) hs hv

/-! ## Changes of slots and rows -/

section

variable (h : s.Tidy named live)
include h

theorem Tidy.setValue (hv : v.IsNode → live v) (hna : s.IsName b i → v = .none ∨ named v) :
    (s.setValue b i v).Tidy named live where
  stack_lt := h.stack_lt
  block_lt c hc := by simpa using h.block_lt c hc
  row := h.row
  slot c j w hc hw hno := by
    rcases slot?_setValue hw with ⟨rfl, rfl, rfl⟩ | ⟨-, hw⟩
    · exact hv hno
    · exact h.slot c j w hc hw hno
  name c j w hc hn hw := by
    rw [IsName, definitionOf_setValue] at hn
    rcases slot?_setValue hw with ⟨rfl, rfl, rfl⟩ | ⟨-, hw⟩
    · exact hna hn
    · exact h.name c j w hc hn hw

/-- A literal is put into a slot that is not for a variable, or nothing into any slot. -/

theorem Tidy.editRow (hs : s.Sound) (ht : t.index < s.allStacks.size)
    {f : List BlockId → List BlockId}
    (hf : live (.stack t) → ∀ b ∈ f (s.blocksOf t), live (.block b)) :
    (s.editRow t f).Tidy named live where
  stack_lt := h.stack_lt
  block_lt := h.block_lt
  row u b hu hb := by
    by_cases hut : u = t
    · subst hut
      rw [hs.rowed.blocksOf_editRow_self ht] at hb
      exact hf hu b hb
    · rw [hs.rowed.blocksOf_editRow_of_ne ht (h.stack_lt u hu) hut] at hb
      exact h.row u b hu hb
  slot := h.slot
  name := h.name

/-- Cutting a live stack in two gives another live stack. -/
theorem Tidy.cut (hs : s.Sound) (ht : live (.stack t)) (i : Nat) : (Forest.cut s t i).Tidy named
      fun v => live v ∨ v = .stack ⟨s.allStacks.size⟩ where
  stack_lt u hu := by
    rw [Forest.size_allStacks_cut]
    rcases hu with hu | hu
    · exact (h.stack_lt u hu).trans (Nat.lt_succ_self _)
    · cases hu
      exact Nat.lt_succ_self _
  block_lt b hb := h.block_lt b (hb.resolve_right nofun)
  row u b hu hb := by
    left
    have htl := h.stack_lt t ht
    by_cases hut : u = t
    · rw [hut, Forest.blocksOf_cut_self htl] at hb
      exact h.row t b ht (List.mem_of_mem_take hb)
    · rcases hu with hu | hu
      · rw [Forest.blocksOf_cut_of_ne hs (h.stack_lt u hu) hut] at hb
        exact h.row u b hu hb
      · cases hu
        rw [Forest.blocksOf_cut_new hs htl] at hb
        exact h.row t b ht (List.mem_of_mem_drop hb)
  slot b j v hb hv hno := .inl (h.slot b j v (hb.resolve_right nofun) hv hno)
  name b j v hb hn hv := h.name b j v (hb.resolve_right nofun) hn hv

/-- Bodies that were opened are live as well. -/
theorem Tidy.recalls (hs : s.bare.Sound) (hr : Recalls s s') :
    s'.Tidy named fun v => live v ∨ ∃ t, v = .stack t ∧ s'.HasStack t ∧ s'.blocksOf t = [] := by
  have hbl : ∀ b, (live (.block b) ∨ ∃ t, Value.block b = .stack t ∧ s'.HasStack t ∧
      s'.blocksOf t = []) → live (.block b) := fun b hb => hb.resolve_right (by simp)
  refine ⟨fun t ht => ?_, fun b hb => ?_, fun t b ht hb => ?_, fun b i v hb hv hno => ?_,
    fun b i v hb hn hv => ?_⟩
  · rcases ht with ht | ⟨_, ht, hst, -⟩
    · exact (h.stack_lt t ht).trans_le hr.stacks_le
    · cases ht
      exact hst.1
  · exact (h.block_lt b (hbl b hb)).trans_le hr.blocks_le
  · rcases ht with ht | ⟨_, ht, -, he⟩
    · have hst : s.HasStack t :=
        ⟨h.stack_lt t ht, by simpa using hs.row_lt t (by simpa using h.stack_lt t ht)⟩
      rw [hr.blocksOf_eq hst] at hb
      exact .inl (h.row t b ht hb)
    · cases ht
      rw [he] at hb
      cases hb
  · rcases hr.slot b i (h.block_lt b (hbl b hb)) with heq | ho
    · exact .inl (h.slot b i v (hbl b hb) (heq ▸ hv) hno)
    · obtain ⟨t, ht, hst, he⟩ := ho.filled
      exact .inr ⟨t, Option.some.inj (hv.symm.trans ht), hst, he⟩
  · rw [IsName, hr.definition_eq b (h.block_lt b (hbl b hb))] at hn
    rcases hr.slot b i (h.block_lt b (hbl b hb)) with heq | ho
    · exact h.name b i v (hbl b hb) hn (heq ▸ hv)
    · -- an opened slot is for a body
      obtain ⟨c, hc, hk⟩ := hn
      obtain ⟨c', hc', hk'⟩ := ho.kind
      cases hc.symm.trans hc'
      cases hk.symm.trans hk'

end

/-! ## New blocks and stacks -/

theorem Brings.mono {live' : Value → Prop} (h : Brings named live s s')
    (hl : ∀ v, live v → live' v) : Brings named live' s s' :=
  { h with row := fun t b ht hlt hb => (h.row t b ht hlt hb).imp_left (hl _) }

/-- What sprouts from a tidy store with names is live. -/
theorem Tidy.sprout (h : s.Tidy named live) (hs : s.Sound) (hsp : Sprouts src s s' vs)
    (hbr : Brings named live s s') : s'.Tidy named fun v => live v ∨ NewIn s s' v := by
  have hg := hsp.grown
  refine ⟨fun t ht => ?_, fun b hb => ?_, fun t b ht hb => ?_, fun b i v hb hv hno => ?_,
    fun b i v hb hn hv => ?_⟩
  · exact ht.elim (fun ht => (h.stack_lt t ht).trans_le hg.stacks_le) And.right
  · exact hb.elim (fun hb => (h.block_lt b hb).trans_le hg.blocks_le) And.right
  · rcases ht with ht | ⟨hle, hlt⟩
    · rw [hg.blocksOf_eq hs (h.stack_lt t ht)] at hb
      exact .inl (h.row t b ht hb)
    · exact (hbr.row t b hle hlt hb).imp_right fun hle => ⟨hle, hsp.sound.mem_blocksOf hb⟩
  · rcases hb with hb | ⟨hle, -⟩
    · rw [hg.slot?_eq (h.block_lt b hb)] at hv
      exact .inl (h.slot b i v hb hv hno)
    · right
      cases v with
      | block c => exact ⟨(hsp.block_new b i c hle hv).1, hsp.sound.block_lt hv⟩
      | stack t => exact ⟨hsp.stack_new b i t hle hv, hsp.sound.stack_lt hv⟩
      | _ => exact hno
  · rcases hb with hb | ⟨hle, -⟩
    · have hlt := h.block_lt b hb
      rw [IsName, hg.definition_eq b hlt] at hn
      exact h.name b i v hb hn ((hg.slot?_eq hlt i).symm.trans hv)
    · exact hbr.name b i v hle hn hv

/-- A block that is new, and has only names in it, is picked up. -/
theorem Tidy.hold (h : s.Tidy named live) (hs : s.Sound) (hsp : Sprouts src s s' [.block b])
    (hb : Brings named live s s') :
    (s'.addStack [b] none).2.Tidy named fun v => live v ∨ NewIn s (s'.addStack [b] none).2 v := by
  have hlt : ∀ c ∈ [b], s.blocks.size ≤ c.index ∧ c.index < s'.blocks.size := fun c hc => by
    obtain rfl : c = b := by simpa using hc
    exact hsp.loose_block c (by simp)
  have hst : Sprouts src s (s'.addStack [b] none).2 [.stack ⟨s'.allStacks.size⟩] :=
    hsp.addStack none fun c hc => (hlt c hc).2
  exact h.sprout hs hst (hb.addStack hsp.sound (fun c hc => .inr (hlt c hc).1) none)

/-! ## Copies -/

/-- A copy of a live stack is live. -/
theorem Tidy.copyStack (h : s.Tidy named live) (hs : s.Sound) (ht : live (.stack t)) :
    (s.copyStack t).2.Tidy named fun v => live v ∨ NewIn s (s.copyStack t).2 v :=
  h.sprout hs (copiesStack hs hs (.refl s) (h.stack_lt t ht)).1 (brings_copyStack hs h ht hs (.refl s))

end Store

end BlockStudio
