import BlockStudio.Proofs.Likeness
import BlockStudio.Proofs.Mirror

/-!
# Running on while bodies are opened

While a program runs, looking for a place to join the dragged stack gives unfilled bodies empty stacks,
also those of the program.  The program does not notice: an unfilled body stands for a blank stack, and
a stack that was put there shows no blocks either.

`Store.Recalls` says what may have happened to the store.  The program in the two stores is a mirror,
`Store.opening`, in which only the stacks of bodies may differ.  From the same scene one step of the
program therefore ends alike in both stores: with the same exit or the same value, in the same scene, and
with tasks that belong together again.  All this is about plain scenes, whose variables hold no blocks;
then nothing that is printed or looked up depends on the store.
-/

namespace BlockStudio

variable {t u : StackId} {ts us : List Task}

/-! ## What does not depend on the store -/

namespace Store

variable (s s' : Store) {v : Value}

theorem shown_of_plain (hv : v.plain = true) : s'.shown v = s.shown v :=
  shownWith_eq (P := (·.plain = true)) (fun _ => Value.plainAll_iff.1) nofun nofun hv

theorem plain_of_plain (hv : v.plain = true) : s'.plain v = s.plain v := by
  unfold Store.plain
  split
  · rfl
  · exact shown_of_plain s s' hv

theorem digest_of_plain (hv : v.plain = true) : s'.digest v = s.digest v := by
  cases v with
  | block b => cases hv
  | stack t => cases hv
  | _ => rfl

theorem sameKey_of_plain (key : Value) (hv : v.plain = true) : s'.sameKey key v = s.sameKey key v := by
  cases v with
  | block b => cases hv
  | _ => cases key <;> rfl

end Store

namespace Environment

variable (s s' : Store) {name : Value}

theorem putGlobal_of_plain (hn : name.plain = true) (value : Value) (globals : List (Value × Value)) :
    putGlobal s' name value globals = putGlobal s name value globals := by
  induction globals with
  | nil => rfl
  | cons g rest ih => simp only [putGlobal, s.sameKey_of_plain s' _ hn, ih]

end Environment

/-! ## Stores whose bodies are opened -/

/-- A store in which a program does not notice that a body is opened: the blank stack is blank, and slots
for bodies hold nothing or stacks. -/
structure Store.Openable (s : Store) : Prop where
  sound : s.Sound
  blank : s.HasStack blankStack ∧ s.blocksOf blankStack = []
  bodies : ∀ b i c v, (s.definitionOf b).inputs[i]? = some c → c.kind = .statement →
    s.slot? b i = some v → v = .none ∨ ∃ t, v = .stack t

/-- An unfilled body stands for the blank stack. -/
theorem default_of_statement {d : Definition} (hd : d ∈ Catalogue.blocks) {c : Component}
    (hc : c ∈ d.inputs) (hk : c.kind = .statement) : c.default = .stack blankStack := by
  have hca : ∀ d ∈ Catalogue.blocks, ∀ c ∈ d.inputs, c.kind = .statement →
      c.default.isBlank = true := by
    decide +kernel
  exact Value.eq_of_isBlank (hca d hd c hc hk)

namespace Store

/-- The program in a store, and in one in which bodies may be opened: stacks belong together when they
show the same blocks, and all else is the same plain value. -/
def opening (s s' : Store) : Mirror where
  left := s
  right := s'
  program b := b.index < s.blocks.size
  good v := v.plain = true
  bodies t u := s'.HasStack u ∧ s'.blocksOf u = s.blocksOf t
  rows r q := q.index < s'.rows.size ∧ s'.row q = s.row r
  name v w := w = v ∧ v.plain = true
  target v w := w = v ∧ v.plain = true
  globals gs hs := hs = gs ∧ ∀ g ∈ gs, g.2.plain = true

variable {s s' s'' : Store}

theorem scenes_opening {c c' : Scene} : (s.opening s').Scenes c c' ↔ c' = c ∧ c.Plain := by
  constructor
  · rintro ⟨_, ⟨rfl, hc⟩, rfl⟩
    exact ⟨rfl, hc⟩
  · rintro ⟨rfl, hc⟩
    exact ⟨_, ⟨rfl, hc⟩, rfl⟩

theorem exits_opening {e e' : Exit} (h : (s.opening s').Exits e e') : e' = e := by
  obtain h | ⟨v, _, ⟨rfl, hv⟩, rfl, rfl⟩ := h
  · exact h
  · exact congrArg (fun shown => Exit.fault (.unknownKey shown)) (s.shown_of_plain s' hv)

section Slots

variable {a : Action} {i : Nat}

theorem name_opening {v : Value} (hv : v.plain = true) : (s.opening s').Name a i v v :=
  ⟨⟨rfl, hv⟩, fun _ => ⟨rfl, hv⟩⟩

theorem arg_opening_value {v : Value} (hv : v.plain = true) : (s.opening s').Arg a i v v := by
  unfold Mirror.Arg
  split
  · exact name_opening hv
  · exact .inl ⟨rfl, hv⟩

theorem arg_opening_body (hi : i ∈ a.bodies) (hu : s'.HasStack u) (h : s'.blocksOf u = s.blocksOf t) :
    (s.opening s').Arg a i (.stack t) (.stack u) := by
  rw [Mirror.Arg, if_neg (a.not_mem_names hi)]
  exact .inr ⟨t, u, rfl, rfl, hi, hu, h⟩

end Slots

/-- What stands in the slots of a block: the same, or an empty stack where nothing was. -/
theorem slots_opening (hs : s.Openable) (h : s.Recalls s') {b : BlockId} (hb : b.index < s.blocks.size) :
    Along ((s.opening s').Slot (s.definitionOf b)) 0 (s.block b).values (s'.block b).values := by
  have hbo {i : Nat} {c : Component} (hc : (s.definitionOf b).inputs[i]? = some c)
      (hk : c.kind = .statement) : i ∈ (s.definitionOf b).action.bodies :=
    (known_slots (.inl (hs.sound.known b hb)) hc).2.1 hk
  refine Along.of_getElem? (h.length_values_eq hb).symm fun i v w hv hw => ?_
  rw [Nat.zero_add]
  rcases h.slot b i hb with heq | ⟨⟨c, hc, hk⟩, ⟨v', hv', hne⟩, u, hu, hst, he⟩
  · obtain rfl : w = v := Option.some.inj (hw.symm.trans (heq.trans hv))
    obtain ⟨c, hc, hf⟩ := hs.sound.fits_slot? hv
    cases w with
    | block x => exact .block hf.1 fun _ _ => name_opening
    | none => exact .unfilled fun _ _ => name_opening
    | stack t =>
      have ht : s.HasStack t := ⟨hf.1, hs.sound.row_lt t hf.1⟩
      exact .value rfl rfl (arg_opening_body (hbo hc hf.2) (h.hasStack ht) (h.blocksOf_eq ht))
    | bool x => exact .value rfl rfl (arg_opening_value rfl)
    | text x => exact .value rfl rfl (arg_opening_value rfl)
    | _ => exact hf.elim
  · obtain rfl : v' = v := Option.some.inj (hv'.symm.trans hv)
    obtain rfl : w = .stack u := Option.some.inj (hw.symm.trans hu)
    -- what stood in the slot was no stack, so it was nothing
    obtain rfl | ⟨t, rfl⟩ := hs.bodies b i c _ hc hk hv
    · refine .opened hc ?_
      rw [default_of_statement (hs.sound.known b hb) (List.mem_of_getElem? hc) hk]
      exact arg_opening_body (hbo hc hk) hst (he.trans hs.blank.2.symm)
    · exact absurd rfl (hne t)

theorem lawful_opening (hs : s.Openable) (h : s.Recalls s') : (s.opening s').Lawful where
  row {r _} hr := ⟨hr.2, hs.sound.mem_row r⟩
  body ht := ⟨ht.1.2, ht.2⟩
  definition hb := h.definition_eq _ hb
  known hb := .inl (hs.sound.known _ hb)
  values := slots_opening hs h
  blank := ⟨h.hasStack hs.blank.1, h.blocksOf_eq hs.blank.1⟩
  good_of_plain := id
  good_of_mem hi hv := Value.plainAll_iff.1 hi _ hv
  program_of_good hb := nomatch hb
  bodies_of_good ht := nomatch ht
  plain_eq := s.plain_of_plain s'
  digest := by rintro v _ (⟨rfl, hv⟩ | ⟨rfl, hv⟩) <;> exact congrArg _ (s.digest_of_plain s' hv)
  lookup {v w gs hs} hn hg := by
    obtain ⟨rfl, hp⟩ := hn
    obtain ⟨rfl, hva⟩ := hg
    have hk : (fun g : Value × Value => s'.sameKey g.1 w) = fun g => s.sameKey g.1 w :=
      funext fun g => s.sameKey_of_plain s' g.1 hp
    cases hf : hs.find? fun g => s.sameKey g.1 w with
    | none => exact .inl ⟨hf, by rw [← hf, ← hk]; rfl⟩
    | some g =>
      exact .inr ⟨g.1, g.1, g.2, hf, by rw [← hf, ← hk]; rfl,
        hva g (List.mem_of_find?_eq_some hf)⟩
  assign {v w x gs hs} hta hx hg := by
    obtain ⟨rfl, hp⟩ := hta
    obtain ⟨rfl, hva⟩ := hg
    exact ⟨Environment.putGlobal_of_plain s s' hp x hs,
      Run.forall_putGlobal (P := fun v => v.plain = true) s w hx hva⟩

/-! ## Opening more bodies -/

section

variable (h : s'.Recalls s'')
include h

theorem bodies_recalls (htu : (s.opening s').bodies t u) : (s.opening s'').bodies t u :=
  ⟨h.hasStack htu.1, (h.blocksOf_eq htu.1).trans htu.2⟩

theorem args_recalls {a : Action} {ps qs : List Value} (ha : (s.opening s').Args a ps qs) :
    (s.opening s'').Args a ps qs := by
  refine ha.imp fun i v w hvw => ?_
  unfold Mirror.Arg at hvw ⊢
  split
  · rwa [if_pos ‹_›] at hvw
  · rw [if_neg ‹_›] at hvw
    exact hvw.imp_right fun ⟨t, u, hv, hw, hi, htu⟩ => ⟨t, u, hv, hw, hi, bodies_recalls h htu⟩

theorem twin_recalls {t u : Task} (htu : (s.opening s').Twin t u) : (s.opening s'').Twin t u := by
  cases htu with
  | fresh hid har => exact .fresh hid (args_recalls h har)
  | body har hs => exact .body (args_recalls h har) hs
  | stack ht => exact .stack (bodies_recalls h ht)
  | row hr => exact .row ⟨hr.1.trans_le h.rows_le, (h.row_eq _ hr.1).trans hr.2⟩
  | counted har => exact .counted (args_recalls h har)
  | listed hi har => exact .listed hi (args_recalls h har)
  | conditional hid ha har => exact .conditional hid ha (args_recalls h har)
  | guarded har => exact .guarded (args_recalls h har)
  | sleeping => exact .sleeping
  | retelling hp => exact .retelling hp
  | letters => exact .letters

/-- The tasks still belong together when more bodies are opened. -/
theorem twins_recalls (hts : (s.opening s').Twins ts us) : (s.opening s'').Twins ts us :=
  hts.imp fun _ _ => twin_recalls h

end

/-- One step of a program, before and after bodies were opened. -/
theorem step_opening (hs : s.Openable) (h : s.Recalls s') (limits : Limits)
    (hts : (s.opening s').Twins ts us) {c : Scene} (hc : c.Plain) :
    (s.opening s').Ends (s.opening s').Answers (Run.step s limits ts c) (Run.step s' limits us c) :=
  (Mirror.match_step (lawful_opening hs h) limits hts).run (scenes_opening.2 ⟨rfl, hc⟩)

end Store

end BlockStudio
