import BlockStudio.Proofs.LoopControl
import BlockStudio.Proofs.Numerals

/-!
# Comparing values

Two values that both are or spell numbers are compared as numbers, and all others as they are printed.
A printed number is read as a number again, so it is never the text of what is not one.
-/

namespace BlockStudio

variable {store : Store} {a b c v : Value} {x y : Float} {t : String}

/-- A text, a truth value or a number that has a double, other than NaN if it is or spells a number. -/
def Value.comparable : Value → Bool
  | .text s => (readNumber? s).all fun x => !x.isNaN
  | .bool _ => true
  | .num n => match (Value.num n).toFloat with
    | .ok x => !x.isNaN
    | .error _ => false
  | _ => false

/-- Zero has two signs, which do not count. -/
def unsignedZero (x : Float) : Float := if x == 0 then 0 else x

theorem beq_iff_unsignedZero (hx : x.isNaN = false) (hy : y.isNaN = false) :
    (x == y) = true ↔ unsignedZero x = unsignedZero y := by
  rw [Float.isNaN_eq_decide_eq_nan, decide_eq_false_iff_not] at hx hy
  have hse : ((0 : Float) == 0) = true := rfl
  have hs {z : Float} (h : (z == 0) = true) : z = 0 ∨ z = -0 := by
    obtain ⟨-, -, h | h | h⟩ := Float.beq_iff_ne_nan_and_eq.1 h
    exacts [.inl h, .inl h.1, .inr h.1]
  rw [Float.beq_iff_ne_nan_and_eq]
  constructor
  · rintro ⟨-, -, rfl | ⟨rfl, rfl⟩ | ⟨rfl, rfl⟩⟩ <;> rfl
  · intro h
    refine ⟨hx, hy, ?_⟩
    unfold unsignedZero at h
    split_ifs at h with hx0 hy0 hy0
    · obtain rfl | rfl := hs hx0 <;> obtain rfl | rfl := hs hy0
      exacts [.inl rfl, .inr (.inl ⟨rfl, rfl⟩), .inr (.inr ⟨rfl, rfl⟩), .inl rfl]
    · exact absurd hse (h ▸ hy0)
    · exact absurd hse (h ▸ hx0)
    · exact .inl h

/-! ## What a comparison gives -/

/-- What a value is compared by: its number, or itself as a text. -/
def Value.gist (v : Value) : Float ⊕ String :=
  match v, v.toFloat with
  | _, .ok x => .inl (unsignedZero x)
  | .text s, .error _ => .inr s
  | _, .error _ => .inr ""

/-- A comparable value is or spells a number, or it is a text that spells none. -/
theorem Value.comparable_cases (h : v.comparable = true) :
    (∃ x, v.toFloat = .ok x ∧ x.isNaN = false ∧ v.isNumeric = .ok true) ∨
      ∃ s, v = .text s ∧ readNumber? s = Option.none := by
  cases v with
  | text s =>
    cases hs : readNumber? s with
    | none => exact .inr ⟨s, rfl, hs⟩
    | some x =>
      have hx : x.isNaN = false := by simpa [Value.comparable, hs] using h
      exact .inl ⟨x, by simp [Value.toFloat, hs], hx, by simp [Value.isNumeric, Value.toFloat, hs]⟩
  | bool b => exact .inl ⟨_, rfl, by cases b <;> rfl, rfl⟩
  | num n =>
    simp only [Value.comparable] at h
    split at h
    · rename_i x hx
      exact .inl ⟨x, hx, by simpa using h, rfl⟩
    · cases h
  | _ => cases h

theorem brief_of_numeric (hx : v.toFloat = .ok x) (hv : v.isNumeric = .ok true) :
    store.brief v = .ok (briefText x) := by
  rw [Store.brief, hv]
  simp only [bind, Except.bind, hx]
  rfl

theorem brief_of_text (h : readNumber? t = none) : store.brief (.text t) = .ok t := by
  rw [brief_text, printed, h]

theorem gist_of_numeric (hx : v.toFloat = .ok x) : v.gist = .inl (unsignedZero x) := by
  unfold Value.gist
  simp [hx]

theorem gist_of_text (h : readNumber? t = none) : (Value.text t).gist = .inr t := by
  simp [Value.gist, Value.toFloat, h]

/-- A printed number is not a text that spells none. -/
theorem briefText_ne (h : readNumber? t = none) : briefText x ≠ t := by
  rintro rfl
  obtain ⟨y, hy⟩ := exists_readNumber?_briefText x
  cases h.symm.trans hy

/-- A comparison finds two comparable values equal when their gists are. -/
theorem compareValues_eq (ha : a.comparable = true) (hb : b.comparable = true) (negated : Bool) :
    ∃ ts, Run.compareValues store negated [a, b] =
      .ok (.give (.bool (decide (a.gist = b.gist) != negated)) ts) := by
  have hte {t : String} (h : readNumber? t = none) : (Value.text t).isNumeric = .ok false := by
    simp [Value.isNumeric, Value.toFloat, h, Fault.isMisread]
  unfold Run.compareValues Operator.bothNumeric Operator.equalNumbers Operator.equalTexts
  simp only [Operator.arg, List.getElem?_cons_zero, List.getElem?_cons_succ]
  rcases Value.comparable_cases ha with ⟨x, hx, hnn, hn⟩ | ⟨s, rfl, hs⟩ <;>
    rcases Value.comparable_cases hb with ⟨y, hy, hna, hn'⟩ | ⟨t, rfl, ht⟩
  · have hbe : (x == y) = decide (a.gist = b.gist) := by
      rw [Bool.eq_iff_iff, beq_iff_unsignedZero hnn hna, gist_of_numeric hx, gist_of_numeric hy,
        decide_eq_true_iff, Sum.inl.injEq]
    exact ⟨_, by simp only [bind, Except.bind, hn, hn', hx, hy, hbe]; rfl⟩
  · have hne : decide (a.gist = (Value.text t).gist) = false := by
      rw [gist_of_numeric hx, gist_of_text ht]
      simp
    have hbr : (briefText x == t) = false := by simpa using briefText_ne ht
    refine ⟨[], ?_⟩
    simp only [bind, Except.bind, hn, hte ht, brief_of_numeric hx hn, brief_of_text ht, hne, hbr]
    rfl
  · have hne : decide ((Value.text s).gist = b.gist) = false := by
      rw [gist_of_numeric hy, gist_of_text hs]
      simp
    have hbr : (s == briefText y) = false := by simpa using (briefText_ne hs).symm
    refine ⟨[], ?_⟩
    simp only [bind, Except.bind, hte hs, brief_of_numeric hy hn', brief_of_text hs, hne, hbr]
    rfl
  · have hsa : (s == t) = decide ((Value.text s).gist = (Value.text t).gist) := by
      rw [gist_of_text hs, gist_of_text ht, beq_eq_decide]
      simp
    refine ⟨[], ?_⟩
    simp only [bind, Except.bind, hte hs, brief_of_text hs, brief_of_text ht, ← hsa]
    rfl

namespace Run

/-- A comparison and its negation give opposite values or fail for the same reason. -/
theorem compareValues_negated (store : Store) (params : List Value) :
    (∃ r ts ts', compareValues store false params = .ok (.give (.bool r) ts) ∧
      compareValues store true params = .ok (.give (.bool !r) ts')) ∨
    ∃ f, compareValues store false params = .error f ∧ compareValues store true params = .error f := by
  unfold compareValues
  simp only [bind, Except.bind]
  rcases Operator.bothNumeric params with f | both
  · exact .inr ⟨f, rfl, rfl⟩
  cases both with
  | true =>
    rcases Operator.equalNumbers params with f | equal
    · exact .inr ⟨f, rfl, rfl⟩
    · exact .inl ⟨equal, _, _, by simp; rfl, by simp; rfl⟩
  | false =>
    rcases Operator.equalTexts store params with f | equal
    · exact .inr ⟨f, rfl, rfl⟩
    · exact .inl ⟨equal, _, _, by simp; rfl, by simp; rfl⟩

/-- The first value that a block gives whose slots hold these values, or why it gives none. -/
def firstGiven (store : Store) (limits : Limits) (id : BlockId) (params : List Value) (s : Scene) :
    Except Exit Value :=
  match step store limits [.fresh id (store.definitionOf id).action params] s with
  | .ok (some (v, _)) _ => .ok v
  | .ok none _ => .error (.fault .ended)
  | .error e _ => .error e

section

variable {limits : Limits} {id : BlockId} {negated : Bool}
  (hid : (store.definitionOf id).action = if negated then .unequal else .equal)
include hid

theorem first_comparison (params : List Value) (s : Scene) :
    first store id (store.definitionOf id).action params s =
      Act.ofExcept (compareValues store negated params) s := by
  rw [hid]
  cases negated <;> rfl

variable (hmoves : 0 < limits.moves) (s : Scene)
include hmoves

theorem firstGiven_of_compareValues {params : List Value} {ts : List Task}
    (h : compareValues store negated params = .ok (.give v ts)) :
    firstGiven store limits id params s = .ok v := by
  obtain ⟨moves, hmoves⟩ := Nat.exists_eq_succ_of_ne_zero (Nat.ne_of_gt hmoves)
  have hf := first_comparison hid params s
  rw [h] at hf
  simp only [firstGiven, step, hmoves, resume_cons, advance, hf]
  rfl

theorem firstGiven_of_fault {params : List Value} {f : Fault}
    (h : compareValues store negated params = .error f) :
    firstGiven store limits id params s = .error (Exit.fault f).fromInside := by
  obtain ⟨moves, hmoves⟩ := Nat.exists_eq_succ_of_ne_zero (Nat.ne_of_gt hmoves)
  have hf := first_comparison hid params s
  rw [h] at hf
  simp only [firstGiven, step, hmoves, resume_cons, advance, hf]
  rfl

end

/-- Among texts, truth values and numbers, NaN and numbers beyond the doubles apart, `=` always gives a
truth value, it is an equivalence, and no number equals a text that spells none.  Whatever the operands
are, `≠` gives the opposite or fails alike. -/
theorem equality_of_values {limits : Limits} (hmoves : 0 < limits.moves) {same other : BlockId}
    (hsame : store.definitionOf same = named "=") (hother : store.definitionOf other = named "!=")
    (s : Scene) :
    (∀ a b, a.comparable = true → b.comparable = true →
      ∃ r, firstGiven store limits same [a, b] s = .ok (.bool r) ∧
        firstGiven store limits same [b, a] s = .ok (.bool r)) ∧
    (∀ a, a.comparable = true → firstGiven store limits same [a, a] s = .ok (.bool true)) ∧
    (∀ a b c, a.comparable = true → b.comparable = true → c.comparable = true →
      firstGiven store limits same [a, b] s = .ok (.bool true) →
      firstGiven store limits same [b, c] s = .ok (.bool true) →
      firstGiven store limits same [a, c] s = .ok (.bool true)) ∧
    (∀ a t, a.comparable = true → a.isNumeric = .ok true → readNumber? t = none →
      firstGiven store limits same [a, .text t] s = .ok (.bool false)) ∧
    ∀ a b, (∃ r, firstGiven store limits same [a, b] s = .ok (.bool r) ∧
        firstGiven store limits other [a, b] s = .ok (.bool !r)) ∨
      ∃ e, firstGiven store limits same [a, b] s = .error e ∧
        firstGiven store limits other [a, b] s = .error e := by
  have hequal : (store.definitionOf same).action = if false then .unequal else .equal := by
    rw [hsame]
    rfl
  have hunequal : (store.definitionOf other).action = if true then .unequal else .equal := by
    rw [hother]
    rfl
  have hgiven {a b : Value} (ha : a.comparable = true) (hb : b.comparable = true) :
      firstGiven store limits same [a, b] s = .ok (.bool (decide (a.gist = b.gist))) := by
    obtain ⟨ts, h⟩ := compareValues_eq ha hb false
    rw [firstGiven_of_compareValues hequal hmoves s h, Bool.bne_false]
  have htrue {a b : Value} (ha : a.comparable = true) (hb : b.comparable = true) :
      firstGiven store limits same [a, b] s = .ok (.bool true) ↔ a.gist = b.gist := by
    simp [hgiven ha hb]
  refine ⟨fun a b ha hb => ?_, fun a ha => ?_, fun a b c ha hb hc hab hbc => ?_, ?_, fun a b => ?_⟩
  · exact ⟨_, hgiven ha hb, by rw [hgiven hb ha]; simp only [eq_comm]⟩
  · exact (htrue ha ha).2 rfl
  · rw [htrue ha hb] at hab
    rw [htrue hb hc] at hbc
    exact (htrue ha hc).2 (hab.trans hbc)
  · intro a t ha hnum ht
    have hb : (Value.text t).comparable = true := by simp [Value.comparable, ht]
    obtain ⟨x, hx, -⟩ | ⟨t', rfl, ht'⟩ := Value.comparable_cases ha
    · rw [hgiven ha hb, gist_of_numeric hx, gist_of_text ht]
      simp
    · simp [Value.isNumeric, Value.toFloat, ht', Fault.isMisread] at hnum
  · obtain ⟨r, ts, ts', h, h'⟩ | ⟨f, h, h'⟩ := compareValues_negated store [a, b]
    · exact .inl ⟨r, firstGiven_of_compareValues hequal hmoves s h,
        firstGiven_of_compareValues hunequal hmoves s h'⟩
    · exact .inr ⟨_, firstGiven_of_fault hequal hmoves s h, firstGiven_of_fault hunequal hmoves s h'⟩

/-- The two comparisons. -/
def comparisons : Store :=
  ((Store.empty.addBlock (named "=") [.none, .none]).2.addBlock (named "!=") [.none, .none]).2

/-- A text that spells ten equals the integer, which equals the double; they are not the text of a word. -/
theorem equality_of_tens :
    firstGiven comparisons ⟨0, 1⟩ ⟨0⟩ [.text " 1_0", .float 10] {} = .ok (.bool true) ∧
      firstGiven comparisons ⟨0, 1⟩ ⟨0⟩ [.float 10, .text "ten"] {} = .ok (.bool false) := by
  obtain ⟨-, -, htrans, hword, -⟩ := @equality_of_values comparisons ⟨0, 1⟩ Nat.one_pos ⟨0⟩ ⟨1⟩ rfl rfl {}
  refine ⟨htrans (.text " 1_0") (.int 10) (.float 10) rfl rfl rfl rfl rfl, ?_⟩
  exact hword _ "ten" rfl rfl rfl

end Run

end BlockStudio
