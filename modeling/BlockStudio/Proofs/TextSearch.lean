import BlockStudio.Proofs.Leaves

/-!
# Searching texts

The blocks that search in a text and remove parts of it do so for all texts.  Replacing goes from left to
right, and what it put in is not looked at again: `Replaced`.  The routine that replaces stands behind the
block `ends with`, which has too few slots for it, and behind `replace all` there is none.
-/

namespace BlockStudio

open List

variable {p r cs : List Char}

/-! ## Occurrences -/

theorem occursIn_iff : occursIn p cs = true ↔ p <:+: cs := by
  induction cs with
  | nil => simp [occursIn]
  | cons c cs ih => rw [occursIn, Bool.or_eq_true, ih, isPrefixOf_iff_prefix, infix_cons_iff]

/-- All occurrences of `p`, from left to right and without overlap, have made way for `r`.  The empty text
occurs before each character and at the end. -/
inductive Replaced (p r : List Char) : List Char → List Char → Prop
  | nil : Replaced p r [] (if p = [] then r else [])
  | gap {c : Char} {cs ds : List Char} (hp : p = []) (h : Replaced p r cs ds) :
    Replaced p r (c :: cs) (r ++ c :: ds)
  | here {cs ds : List Char} (hp : p ≠ []) (h : Replaced p r cs ds) : Replaced p r (p ++ cs) (r ++ ds)
  | skip {c : Char} {cs ds : List Char} (hp : ¬p <+: c :: cs) (h : Replaced p r cs ds) :
    Replaced p r (c :: cs) (c :: ds)

/-- Characters of an occurrence that was replaced are passed over. -/
theorem replaceFrom_append (skipped : List Char) :
    replaceFrom p r skipped.length (skipped ++ cs) = replaceFrom p r 0 cs := by
  induction skipped with
  | nil => rfl
  | cons c skipped ih => exact ih

theorem replaced_replaceFrom (hp : p ≠ []) (cs : List Char) : Replaced p r cs (replaceFrom p r 0 cs) := by
  -- An occurrence takes several characters at once.
  induction hn : cs.length using Nat.strong_induction_on generalizing cs with
  | _ n ih =>
    cases cs with
    | nil =>
      have h : Replaced p r [] (if p = [] then r else []) := .nil
      rwa [if_neg hp] at h
    | cons c cs =>
      rw [replaceFrom]
      split_ifs with hpr
      · obtain ⟨rest, hr⟩ := isPrefixOf_iff_prefix.1 hpr
        obtain ⟨d, tail, rfl⟩ := exists_cons_of_ne_nil hp
        obtain ⟨rfl, rfl⟩ : d = c ∧ tail ++ rest = cs := cons.inj hr
        rw [length_cons, Nat.add_sub_cancel, replaceFrom_append]
        refine .here hp (ih rest.length ?_ rest rfl)
        simp only [← hn, length_cons, length_append]
        omega
      · refine .skip (fun h => hpr <| isPrefixOf_iff_prefix.2 h) (ih cs.length ?_ cs rfl)
        simp [← hn]

theorem replaced_replaceAll (p r cs : List Char) : Replaced p r cs (replaceAll p r cs) := by
  unfold replaceAll
  split_ifs with hp
  · obtain rfl := isEmpty_iff.1 hp
    induction cs with
    | nil => simpa using Replaced.nil (p := []) (r := r)
    | cons c cs ih => exact .gap rfl ih
  · exact replaced_replaceFrom (by simpa using hp) cs

/-! ## What a block with given values in its slots answers -/

namespace Run

variable {name : String} {values : List Value}

/-- In every store, a block of this name with these values in its slots answers so. -/
def Reports (name : String) (values : List Value) (answer : Except Fault Value) : Prop :=
  ∀ (store : Store) (limits : Limits) (id : BlockId) (s : Scene), store.definitionOf id = named name →
    (store.block id).values = values → 0 < limits.depth → 0 < limits.moves →
    ask store limits id s = Act.ofExcept answer s

/-- A block answers with its first move, where its slots hand over what they hold. -/
theorem reports_of_first {answer : Except Fault Value} (hw : (named name).action.waits = true)
    (hi : ∀ store d vs rect slots s, inputs store d ⟨named name, vs, rect, slots⟩ 0 values s = .ok values s)
    (hfi : ∀ store id, first store id (named name).action values =
      (do return .give (← Act.ofExcept answer) []))
    (ha : match answer with
      | .ok v => v.isBlock = false
      | .error f => f ≠ .ended) : Reports name values answer := by
  intro store ⟨depth, moves⟩ id s hid hv hd hm
  obtain ⟨depth, rfl⟩ := Nat.exists_eq_succ_of_ne_zero (Nat.ne_of_gt hd)
  obtain ⟨moves, rfl⟩ := Nat.exists_eq_succ_of_ne_zero (Nat.ne_of_gt hm)
  rw [← hid] at hw
  have hs : inputs store (demand store (moves + 1) depth) (store.block id) 0 (store.block id).values s =
      .ok values s := by
    rw [hv]
    unfold Store.definitionOf at hid
    rw [← hid] at hi
    exact hi store _ (store.block id).values (store.block id).rect (store.block id).slots s
  show demand store (moves + 1) (depth + 1) id s = _
  rw [demand, begin_of_waits hw, bind_assoc, bind_run, hs, hid]
  show (resume store _ (moves + 1) [.fresh id (named name).action values] >>= _ : Act Value) s = _
  rw [bind_run, resume_cons, advance, hfi]
  cases answer with
  | error f =>
    have hf : (Exit.fault f).fromInside = .fault f := by
      cases f <;> first | rfl | exact absurd rfl ha
    show EStateM.Result.error (Exit.fault f).fromInside s = _
    rw [hf]
    rfl
  | ok v =>
    cases v with
    | block b => cases ha
    | _ => rfl

theorem reports_contains (s p : String) :
    Reports "str-in" [.text s, .text p] (.ok (.bool (occursIn p.toList s.toList))) :=
  reports_of_first rfl (fun _ _ _ _ _ _ => rfl) (fun _ _ => rfl) rfl

/-- Behind `replace all` there is nothing to run. -/
theorem reports_replaceAll (p r s : String) :
    Reports "str-replace" [.text p, .text r, .text s] (.error (.notIterator "NoneType")) := by
  intro store ⟨depth, moves⟩ id scene hid hv hd _
  obtain ⟨depth, rfl⟩ := Nat.exists_eq_succ_of_ne_zero (Nat.ne_of_gt hd)
  show demand store moves (depth + 1) id scene = _
  unfold demand begin
  unfold Store.definitionOf at hid
  generalize store.block id = b at hid hv
  obtain ⟨_, vs, rect, slots⟩ := b
  obtain rfl : _ = named "str-replace" := hid
  obtain rfl : vs = _ := hv
  rfl

/-- Wherever they stand, the blocks `contains`, `starts with` and `remove all` give for all texts what they
say, so what starts with a text contains it.  The block `ends with` fails on all texts, and so does
`replace all`: the routine that would replace, given three texts, belongs to the former. -/
theorem text_searches (s p r : String) :
    (∃ b, Reports "str-in" [.text s, .text p] (.ok (.bool b)) ∧ (b = true ↔ p.toList <:+: s.toList)) ∧
    (∃ b, Reports "startswith" [.text s, .text p] (.ok (.bool b)) ∧ (b = true ↔ p.toList <+: s.toList)) ∧
    (∃ t, Reports "str-remove" [.text p, .text s] (.ok (.text t)) ∧ Replaced p.toList [] s.toList t.toList) ∧
    (p.toList <+: s.toList → Reports "str-in" [.text s, .text p] (.ok (.bool true))) ∧
    Reports "endswith" [.text s, .text p] (.error (.outOfRange .list)) ∧
    Reports "str-replace" [.text p, .text r, .text s] (.error (.notIterator "NoneType")) ∧
    ∃ t, Operator.value .empty (named "endswith").action [.text p, .text r, .text s] = .ok (.text t) ∧
      Replaced p.toList r.toList s.toList t.toList := by
  have htext {p : List Char} (r cs : List Char) : Replaced p r cs (String.ofList (replaceAll p r cs)).toList := by
    rw [String.toList_ofList]
    exact replaced_replaceAll ..
  refine ⟨⟨_, reports_contains s p, occursIn_iff⟩, ⟨p.toList.isPrefixOf s.toList, ?_, isPrefixOf_iff_prefix⟩,
    ⟨.ofList (replaceAll p.toList [] s.toList), ?_, htext ..⟩, fun h => ?_, ?_, reports_replaceAll p r s,
    _, rfl, htext ..⟩
  · exact reports_of_first rfl (fun _ _ _ _ _ _ => rfl) (fun _ _ => rfl) rfl
  · exact reports_of_first rfl (fun _ _ _ _ _ _ => rfl) (fun _ _ => rfl) rfl
  · rw [← occursIn_iff.2 h.isInfix]
    exact reports_contains s p
  · exact reports_of_first rfl (fun _ _ _ _ _ _ => rfl) (fun _ _ => rfl) nofun

/-- A greeting ends with its mark, and yet the block fails. -/
theorem greeting_ends_with_mark : "!".toList <:+ "Hello world!".toList ∧
    Reports "endswith" [.text "Hello world!", .text "!"] (.error (.outOfRange .list)) :=
  ⟨⟨"Hello world".toList, by decide⟩, reports_of_first rfl (fun _ _ _ _ _ _ => rfl) (fun _ _ => rfl) nofun⟩

end Run

end BlockStudio
