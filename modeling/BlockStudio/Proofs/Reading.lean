import BlockStudio.Proofs.Copying
import BlockStudio.Proofs.Outcome
import BlockStudio.Proofs.Saving
import Mathlib.Data.List.Nodup

/-!
# Reading what was saved

Reading a saved stack puts new blocks and stacks into the store: they sprout from it and are fresh,
and the stack that is read shows blocks of the same types as the one that was saved.  The names in slots
are those that were saved, and bodies have places if the saved ones had.  Reading can fail on the way;
what it built by then hangs from loose ends that nothing takes up.
-/

namespace BlockStudio

open Json List Saved

variable {u : Value} {js : List Json} {vs : List Value} {r : StackId} {b : BlockId} {fuel : Nat}
  {j : Json}

namespace Store

variable {α : Type} {src s t : Store} {named live : Value → Prop} {v : Value} {n : Nat}

theorem ReadAs.grown (h : Grown s t) (hs : s.Sound)
    (hb : ∀ c, v = .block c → c.index < s.blocks.size)
    (hst : ∀ t, v = .stack t → t.index < s.allStacks.size) (hv : ReadAs src s u v) :
    ReadAs src t u v := by
  cases u with
  | block b =>
    obtain rfl | ⟨b', rfl, hb'⟩ := hv
    · exact .inl rfl
    · exact .inr ⟨b', rfl, (h.definition_eq b' (hb b' rfl)).trans hb'⟩
  | stack t =>
    obtain rfl | ⟨t', rfl, ht'⟩ := hv
    · exact .inl rfl
    · exact .inr ⟨t', rfl, (h.types_eq hs (hst t' rfl)).trans ht'⟩
  | _ => exact hv

/-- What is read for a saved value: it is like the value, and may stand for a body if the value may. -/
structure Restores (src t : Store) (u v : Value) : Prop where
  readAs : ReadAs src t.bare u v
  houses : src.Housed → src.Houses u → t.Houses v

/-- What a step builds from a store hangs together and is new, also when the step fails; if it does not
fail, it brings names, and new rows show new blocks only. -/
def Builds (named : Value → Prop) (src s : Store) (ends : α → List Value) (q : α → Store → Prop) :
    EStateM.Result Fault Store α → Prop
  | .ok a t => Sprouts src s.bare t.bare (ends a) ∧ Fresh s.bare t.bare (ends a) ∧
    Brings named (fun _ => False) s.bare t.bare ∧ (src.Housed → Lasts s t) ∧ q a t
  | .error _ t => (∃ vs, Sprouts src s.bare t.bare vs ∧ Fresh s.bare t.bare vs) ∧
    (src.Housed → Lasts s t)

theorem Builds.bind {β : Type} {m : Building α} {f : α → Building β} {ends : α → List Value}
    {ends' : β → List Value} {q : α → Store → Prop} {q' : β → Store → Prop} (hm : Builds named src s ends q (m s))
    (hf : ∀ a t, Builds named src s ends q (.ok a t) → Builds named src s ends' q' (f a t)) :
    Builds named src s ends' q' ((m >>= f) s) := by
  rw [bind_run]
  cases h : m s <;> rw [h] at hm
  · exact hf _ _ hm
  · exact hm

/-- A step reads the saved form of a value. -/
def Rereads (named : Value → Prop) (src : Store) (u : Value) (toValue : α → Value) (m : Building α) :
    Prop :=
  ∀ s, s.bare.Sound → Builds named src s (fun a => [toValue a])
    (fun a t => Restores src t u (toValue a)) (m s)

/-- Reading one saved value after the other. -/
theorem builds_mapM {toValue : α → Value} {f : Json → Building α} {us : List Value}
    (h : List.Forall₂ (fun u j => Rereads named src u toValue (f j)) us js) (s : Store)
    (hs : s.bare.Sound) : Builds named src s (fun as => as.map toValue)
      (fun as t => List.Forall₂ (Restores src t) us (as.map toValue)) (js.mapM f s) := by
  induction h generalizing s with
  | nil => exact ⟨.self _ hs, .of_literals hs (by simp), .refl _, fun _ => .refl s, .nil⟩
  | @cons u j us js hj _ ih =>
    rw [mapM_cons]
    refine .bind (hj s hs) fun a t ⟨hsp, hf, hb, hl, hre⟩ => ?_
    have hr := ih t hsp.sound
    rw [bind_run]
    cases h : js.mapM f t with
    | error e t' =>
      rw [h] at hr
      obtain ⟨⟨vs, hs', hf'⟩, hl'⟩ := hr
      exact ⟨⟨_, hsp.append hs', hf.append hsp hs' hf'⟩,
        fun hh => (hl hh).trans (hl' hh)⟩
    | ok as t' =>
      rw [h] at hr
      obtain ⟨hs', hf', hb', hl', hra⟩ := hr
      refine ⟨hsp.append hs', hf.append hsp hs' hf',
        hb.trans hsp.grown hsp.sound hb' hs'.grown,
        fun hh => (hl hh).trans (hl' hh), .cons ⟨?_, fun hh hu => ?_⟩ hra⟩
      · refine hre.readAs.grown hs'.grown hsp.sound ?_ ?_
        · exact fun c hc => (hsp.loose_block c (by simp [hc])).2
        · exact fun t ht => (hsp.loose_stack t (by simp [ht])).2
      · exact (hre.houses hh hu).mono (hl' hh)

/-! ## Blocks -/

/-- The names of definitions are all different. -/
theorem find?_id {d : Definition} (hd : d ∈ Catalogue.blocks) :
    Catalogue.find? Catalogue.blocks d.id = some d := by
  have hn : (Catalogue.blocks.map Definition.id).Nodup := by decide +kernel
  rw [Catalogue.find?]
  cases h : Catalogue.blocks.find? fun e => decide (e.id = d.id) with
  | none => simpa using find?_eq_none.1 h d hd
  | some e =>
    have hid : e.id = d.id := by simpa using find?_some h
    rw [inj_on_of_nodup_map hn (mem_of_find?_eq_some h) hd hid]

theorem rereads_block (hsr : src.Sound) (ht : src.Tidy named live) (hb : live (.block b))
    (hjs : List.Forall₂ (fun u j =>
      Rereads named src u id (readValue Catalogue.blocks fuel j)) (src.block b).values js) :
    Rereads named src (.block b) .block (readBlock Catalogue.blocks (fuel + 1)
      (.object [("definition", .text (src.definitionOf b).id), ("values", .array js)])) := by
  intro s hs
  have hd : definition? Catalogue.blocks
      (.object [("definition", .text (src.definitionOf b).id), ("values", .array js)]) =
      .ok (some (src.definitionOf b)) := by
    show Except.ok (Catalogue.find? _ _) = _
    rw [find?_id (hsr.known b (ht.block_lt b hb))]
  rw [readBlock, hd]
  show Builds named src s _ _ ((js.mapM (readValue Catalogue.blocks fuel) >>=
    fun vs => Building.addBlock (src.definitionOf b) vs) s)
  refine (builds_mapM hjs s hs).bind fun vs t ⟨hsp, hf, hbr, hl, hr⟩ => ?_
  simp only [map_id] at hsp hf hr
  have hba : ∀ (i : Nat) v, vs[i]? = some v → ∃ u, src.slot? b i = some u ∧ Restores src t u v := by
    intro i v hv
    obtain ⟨hi, rfl⟩ := List.getElem?_eq_some_iff.1 hv
    have hi' : i < (src.block b).values.length := by rwa [hr.length_eq]
    exact ⟨_, getElem?_eq_getElem hi', hr.get hi' hi⟩
  obtain ⟨hn, hbr⟩ := hsp.remake hsr ht hb hbr hr.length_eq.symm
    fun i v hv => (hba i v hv).imp fun _ h => ⟨h.1, h.2.readAs⟩
  have hf' := Fresh.addBlock hsp hf (src.definitionOf b)
  have hse : (t.bare.addBlock (src.definitionOf b) vs).2.definitionOf ⟨t.bare.blocks.size⟩ =
      src.definitionOf b := by
    rw [definitionOf, block_addBlock_self]
  rw [← bare_addBlock, size_blocks_bare] at hn hf' hse
  refine ⟨hn, hf', bare_addBlock .. ▸ hbr, fun hh => ?_, .inr ⟨_, rfl, hse⟩, ?_⟩
  · refine (hl hh).addBlock fun _ i c v hc hk hv => ?_
    obtain ⟨u, hu, hre⟩ := hba i v hv
    exact hre.houses hh (hh b i c u hc hk hu)
  · rintro - (h | ⟨_, h, -⟩) <;> cases h

/-! ## Stacks -/

/-- A row of blocks that were read has the types of the saved row. -/
theorem types_addRead {bs cs : List BlockId}
    (h : List.Forall₂ (ReadAs src t) (cs.map .block) (bs.map .block)) :
    bs.map (fun b => (t.definitionOf b).blockType) =
      cs.map fun b => (src.definitionOf b).blockType := by
  rw [forall₂_map_left_iff, forall₂_map_right_iff] at h
  induction h with
  | nil => rfl
  | cons hr _ ih =>
    obtain hr | ⟨b, hb, hd⟩ := hr
    · cases hr
    · cases hb
      rw [map_cons, map_cons, ih, hd]

theorem rereads_stack {pos : Json} (hpo : src.Located r → pos.IsPlace)
    (hjs : List.Forall₂ (fun u j => Rereads named src u .block (readBlock Catalogue.blocks fuel j))
      ((src.blocksOf r).map .block) js) :
    Rereads named src (.stack r) .stack (readStack Catalogue.blocks (fuel + 1)
      (.object [("blocks", .array js), ("pos", pos)])) := by
  intro s hs
  rw [readStack]
  show Builds named src s _ _ ((js.mapM (readBlock Catalogue.blocks fuel) >>=
    fun bs => Building.ofExcept (position pos) >>= fun p => Building.addStack bs p) s)
  refine (builds_mapM hjs s hs).bind fun bs t ⟨hsp, hf, hbr, hl, hr⟩ => ?_
  cases hp : position pos with
  | error e =>
    show Builds named src s _ _ (.error e t)
    exact ⟨⟨_, hsp, hf⟩, hl⟩
  | ok p =>
    show Builds named src s _ _ (.ok _ (t.addStack bs p).2)
    have hls := fun b hb => hsp.loose_block b (mem_map.2 ⟨b, hb, rfl⟩)
    have hne := hsp.addStack none fun b hb => (hls b hb).2
    have hb' := hbr.addStack hsp.sound (fun b hb => .inr (hls b hb).1) none
    have hf' := Fresh.addStack hsp hf none
    have ht : (t.bare.addStack bs none).2.types ⟨t.bare.allStacks.size⟩ = src.types r := by
      rw [types, blocksOf_addStack_self]
      show bs.map (fun b => (t.bare.definitionOf b).blockType) = _
      exact types_addRead (hr.imp fun _ _ h => h.readAs)
    rw [← bare_addStack t bs p, size_allStacks_bare] at hne hf' ht
    refine ⟨hne, hf', bare_addStack t bs p ▸ hb',
      fun hh => (hl hh).trans (lasts_addStack ..), .inr ⟨_, rfl, ht⟩, ?_⟩
    rintro - (h | ⟨_, h, hlo⟩) <;> cases h
    obtain ⟨_, _, rfl, m, n, hm, hn⟩ := hpo hlo
    obtain rfl : some [.num m, .num n] = p := by
      rw [← hm, ← hn]
      exact Except.ok.inj hp
    exact .inr ⟨_, rfl, m, n, congrArg Stack.position (stack_addStack_self t bs _)⟩

/-! ## Any depth -/

theorem rereads_pure (hu : u.Literal) : Rereads named src u id (pure u) := by
  intro s hs
  have ha : ∀ v ∈ [u], v.Literal := forall_mem_singleton.2 hu
  refine ⟨.of_literals hs ha, .of_literals hs ha, .refl _, fun _ => .refl s, ?_, ?_⟩
  · cases u <;> first | rfl | exact hu.elim
  · rintro - (h | ⟨_, rfl, -⟩)
    · exact .inl h
    · exact hu.elim

/-- What was cut off at the greatest depth is read as nothing. -/
theorem rereads_none (hu : u.IsNode) : Rereads named src u id (pure .none) := by
  intro s hs
  have ha : ∀ v ∈ [Value.none], v.Literal := forall_mem_singleton.2 trivial
  refine ⟨.of_literals hs ha, .of_literals hs ha, .refl _, fun _ => .refl s, ?_, fun _ _ => .inl rfl⟩
  cases u with
  | block _ | stack _ => exact .inl rfl
  | _ => exact hu.elim

theorem Rereads.map {f : α → Value} {m : Building α} (h : Rereads named src u f m) :
    Rereads named src u id (f <$> m) := by
  intro s hs
  have hm := h s hs
  show Builds named src s _ _ (EStateM.map f m s)
  unfold EStateM.map
  cases hr : m s <;> rwa [hr] at hm

/-- Live blocks and stacks that are saved down to a depth are read back. -/
structure RereadsTo (named live : Value → Prop) (src : Store) (n : Nat) : Prop where
  block : ∀ b j fuel, live (.block b) → IsSaved src n (.block b) j → Saved.nesting j < fuel →
    Rereads named src (.block b) .block (Saved.readBlock Catalogue.blocks fuel j)
  stack : ∀ r j fuel, live (.stack r) → IsSaved src n (.stack r) j → Saved.nesting j < fuel →
    Rereads named src (.stack r) .stack (Saved.readStack Catalogue.blocks fuel j)

theorem RereadsTo.value (h : RereadsTo named live src n) (hu : u.IsNode → live u)
    (hj : IsSaved src n u j) (hf : nesting j + 1 < fuel) :
    Rereads named src u id (readValue Catalogue.blocks fuel j) := by
  obtain ⟨fuel, rfl⟩ := Nat.exists_eq_succ_of_ne_zero (Nat.ne_zero_of_lt hf)
  have hf : nesting j < fuel := Nat.lt_of_succ_lt_succ hf
  cases u with
  | none | bool _ | text _ =>
    obtain rfl : j = _ := by cases n <;> exact hj
    exact rereads_pure trivial
  | block b =>
    cases n with
    | zero =>
      obtain rfl : j = .null := hj
      exact rereads_none trivial
    | succ n =>
      have hb := h.block b j fuel (hu trivial) hj hf
      obtain ⟨js, rfl, -⟩ := hj
      exact hb.map
  | stack r =>
    cases n with
    | zero =>
      obtain rfl : j = .null := hj
      exact rereads_none trivial
    | succ n =>
      have hs := h.stack r j fuel (hu trivial) hj hf
      obtain ⟨js, pos, rfl, -, -⟩ := hj
      exact hs.map
  | _ => cases n <;> exact hj.elim

theorem nesting_le_of_mem (h : j ∈ js) : nesting j ≤ nesting.nestingItems js := by
  induction js with
  | nil => cases h
  | cons v js ih =>
    rw [nesting.nestingItems]
    rcases mem_cons.1 h with rfl | h
    · exact Nat.le_max_left _ _
    · exact (ih h).trans (Nat.le_max_right _ _)

/-- The members of two lists, pair by pair. -/
theorem forall₂_of_mem {β : Type} {R Q : α → β → Prop} {xs : List α} {ys : List β}
    (h : List.Forall₂ R xs ys) (hQ : ∀ x y, x ∈ xs → y ∈ ys → R x y → Q x y) :
    List.Forall₂ Q xs ys := by
  induction h with
  | nil => exact .nil
  | cons hxy _ ih =>
    exact .cons (hQ _ _ mem_cons_self mem_cons_self hxy)
      (ih fun x y hx hy => hQ x y (mem_cons_of_mem _ hx) (mem_cons_of_mem _ hy))

theorem rereadsTo (hsr : src.Sound) (ht : src.Tidy named live) (n : Nat) :
    RereadsTo named live src n := by
  induction n with
  | zero =>
    refine ⟨fun b j fuel _ hj hf s hs => ?_, fun r j fuel _ hj hf s hs => ?_⟩
    all_goals
      obtain ⟨fuel, rfl⟩ := Nat.exists_eq_succ_of_ne_zero (Nat.ne_zero_of_lt hf)
      obtain rfl : j = .null := hj
      exact And.intro ⟨[], .self _ hs, .of_literals hs (by simp)⟩ fun _ => .refl s
  | succ n ih =>
    refine ⟨fun b j fuel hb hj hf => ?_, fun r j fuel hr hj hf => ?_⟩
    · obtain ⟨fuel, rfl⟩ := Nat.exists_eq_succ_of_ne_zero (Nat.ne_zero_of_lt hf)
      obtain ⟨js, rfl, hjs⟩ := hj
      refine rereads_block hsr ht hb (forall₂_of_mem hjs fun u j hu hj hsa => ?_)
      have hle := nesting_le_of_mem hj
      refine ih.value ?_ hsa ?_
      · obtain ⟨i, hi⟩ := getElem?_of_mem hu
        exact ht.slot b i u hb hi
      · simp only [nesting, nesting.nestingFields] at hf
        omega
    · obtain ⟨fuel, rfl⟩ := Nat.exists_eq_succ_of_ne_zero (Nat.ne_zero_of_lt hf)
      obtain ⟨js, pos, rfl, hp, hjs⟩ := hj
      refine rereads_stack hp (forall₂_map_left_iff.2 (forall₂_of_mem hjs ?_))
      intro b j hb hj hsa
      have hle := nesting_le_of_mem hj
      refine ih.block b j fuel (ht.row r b hr hb) hsa ?_
      simp only [nesting, nesting.nestingFields] at hf
      omega

/-- Reading a live stack that was saved. -/
theorem rereads_savedStack (hs : src.Sound) (ht : src.Tidy named live) (hr : live (.stack r))
    (h : IsSaved src n (.stack r) j) :
    Rereads named src (.stack r) .stack (Saved.stack Catalogue.blocks j) :=
  (rereadsTo hs ht n).stack r j _ hr h (by omega)

end Store

end BlockStudio
