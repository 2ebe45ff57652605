import BlockStudio.Proofs.Spelling

/-!
# Reading back written JSON

`Json.parse_write` says what reading a written value gives: the value itself, where every double has
become the double that its text spells, and of fields with the same name the last one counts.  The proof
follows the fuel of the reader.
-/

namespace BlockStudio

open List

namespace Json

/-- The characters that the text of a value begins with. -/
def Opens (c : Char) : Prop :=
  c ∈ ['"', '[', '\x7b', '-', 'n', 't', 'f', 'N', 'I'] ∨ isAsciiDigit c = true

instance : DecidablePred Opens := fun _ => inferInstanceAs (Decidable (_ ∨ _))

/-- A digit is none of the characters that the reader looks for first. -/
theorem ne_of_isAsciiDigit {c : Char} (hc : isAsciiDigit c = true) :
    ∀ d ∈ [' ', '\t', '\n', '\r', '"', '[', '\x7b', '-', 'n', 't', 'f', 'N', 'I'], c ≠ d := by
  have hn : ∀ d ∈ [' ', '\t', '\n', '\r', '"', '[', '\x7b', '-', 'n', 't', 'f', 'N', 'I'],
      isAsciiDigit d = false := by
    simp only [forall_mem_cons, not_mem_nil, false_implies, implies_true, and_true]
    decide
  rintro d hd rfl
  rw [hn c hd] at hc
  cases hc

theorem Opens.not_blank {c : Char} (h : Opens c) : isBlank c = false := by
  rcases h with h | h
  · revert c
    simp only [forall_mem_cons, not_mem_nil, false_implies, implies_true, and_true]
    decide
  · have hne := ne_of_isAsciiDigit h
    simp only [forall_mem_cons] at hne
    simp [isBlank, hne]

section Numbers

variable {c : Char} {cs : List Char}

/-- The words have at least two characters and no digits. -/
theorem word_chars : ∀ w ∈ words.map Prod.fst,
    2 ≤ w.toList.length ∧ ∀ c ∈ w.toList, isAsciiDigit c = false := by
  have ha : ((words.map Prod.fst).all fun w =>
      decide (2 ≤ w.toList.length) && w.toList.all fun c => !isAsciiDigit c) = true := by
    decide
  simpa only [all_eq_true, Bool.and_eq_true, decide_eq_true_eq, Bool.not_eq_true'] using ha

/-- What has a digit as its first or second character is no word. -/
theorem word?_of_digit {i : Nat} (hi : i < 2) (hg : cs[i]? = some c)
    (hc : isAsciiDigit c = true) : word? cs = none := by
  rw [word?, findSome?_eq_none_iff]
  rintro ⟨w, j⟩ hw
  obtain ⟨hl, hch⟩ := word_chars w (mem_map.2 ⟨_, hw, rfl⟩)
  refine if_neg fun hwo => ?_
  obtain ⟨rest, rfl⟩ := isPrefixOf_iff_prefix.1 hwo
  rw [getElem?_append_left (by omega)] at hg
  rw [hch c (mem_of_getElem? hg)] at hc
  cases hc

theorem readValue_digit (hc : isAsciiDigit c = true) {r : Json × List Char}
    (h : number? (c :: cs) = some r) (fuel : Nat) : readValue (fuel + 1) (c :: cs) = .ok r := by
  have hw : word? (c :: cs) = none := word?_of_digit (show 0 < 2 by decide) (by simp) hc
  have hne := ne_of_isAsciiDigit hc
  simp only [forall_mem_cons] at hne
  rw [readValue]
  · simp only [hw, h]
  all_goals simp [hne]

theorem readValue_minus (hc : isAsciiDigit c = true) {r : Json × List Char}
    (h : number? ('-' :: c :: cs) = some r) (fuel : Nat) :
    readValue (fuel + 1) ('-' :: c :: cs) = .ok r := by
  have hw : word? ('-' :: c :: cs) = none := word?_of_digit (show 1 < 2 by decide) (by simp) hc
  rw [readValue]
  · simp only [hw, h]
  all_goals simp

end Numbers

/-- The text of a number begins with a digit, or with a minus and a digit. -/
theorem Spelling.Valid.text_eq_cons {p : Spelling} (hp : p.Valid) : ∃ c cs, isAsciiDigit c = true ∧
      (p.text = c :: cs ∨ p.text = '-' :: c :: cs) := by
  obtain ⟨c, w, hw⟩ := exists_cons_of_ne_nil hp.whole.ne_nil
  refine ⟨c, w ++ (p.placesText ++ p.exponentText), hp.whole.digits c (by simp [hw]), ?_⟩
  cases hn : p.negative with
  | false => exact .inl (by simp [hn, hw])
  | true => exact .inr (by simp [hn, hw])

theorem Spelling.Valid.readValue_text {p : Spelling} {rest : List Char} (hp : p.Valid) (h : Ends rest)
    (fuel : Nat) : readValue (fuel + 1) (p.text ++ rest) = .ok (p.value, rest) := by
  have hn := Spelling.number?_text hp h
  obtain ⟨c, cs, hc, ht | ht⟩ := hp.text_eq_cons
  · rw [ht] at hn ⊢
    exact readValue_digit hc hn fuel
  · rw [ht] at hn ⊢
    exact readValue_minus hc hn fuel

theorem Spelling.Valid.opens {p : Spelling} (hp : p.Valid) : ∃ c cs, p.text = c :: cs ∧ Opens c := by
  obtain ⟨c, cs, hc, ht | ht⟩ := hp.text_eq_cons
  · exact ⟨c, cs, ht, .inr hc⟩
  · exact ⟨'-', c :: cs, ht, .inl (by decide)⟩

/-- A value with other doubles, where each name in an object occurs once. -/
def mapFloats (f : Float → Float) : Json → Json
  | null => null
  | bool b => bool b
  | int n => int n
  | float x => float (f x)
  | text s => text s
  | array items => array (mapItems items)
  | object fields => object (mapFields [] fields)
where
  /-- Items with other doubles. -/
  mapItems : List Json → List Json
    | [] => []
    | v :: rest => mapFloats f v :: mapItems rest
  /-- Fields with other doubles, put to those that are done. -/
  mapFields (done : List (String × Json)) : List (String × Json) → List (String × Json)
    | [] => done
    | (name, v) :: rest => mapFields (putField name (mapFloats f v) done) rest

theorem readValue_word (fuel : Nat) (rest : List Char) :
    ∀ w ∈ words, readValue (fuel + 1) (w.1.toList ++ rest) = .ok (w.2, rest) := by
  simp only [words, forall_mem_cons, not_mem_nil, false_imp_iff, implies_true, and_true]
  exact ⟨rfl, rfl, rfl, rfl, rfl, rfl⟩

theorem readValue_writeFloat (x : Float) {rest : List Char} (h : Ends rest) (fuel : Nat) :
    readValue (fuel + 1) ((writeFloat x).toList ++ rest) = .ok (.float (spelt x), rest) := by
  cases hn : x.isNaN with
  | true =>
    simp only [writeFloat, spelt, hn, if_true]
    exact readValue_word fuel rest ("NaN", _) (mem_of_getElem? (i := 3) rfl)
  | false =>
    cases hi : x.isInf with
    | true =>
      cases hs : signBit x with
      | true =>
        simp only [writeFloat, spelt, hn, hi, hs, Bool.false_eq_true, if_true, if_false]
        exact readValue_word fuel rest ("-Infinity", _) (mem_of_getElem? (i := 5) rfl)
      | false =>
        simp only [writeFloat, spelt, hn, hi, hs, Bool.false_eq_true, if_true, if_false]
        exact readValue_word fuel rest ("Infinity", _) (mem_of_getElem? (i := 4) rfl)
    | false =>
      obtain ⟨p, hp, ht, hv⟩ := exists_spelling_writeFloat hn hi
      rw [← ht, ← hv]
      exact hp.readValue_text h fuel

/-- The text of a value is not empty and begins with no blank. -/
theorem exists_write_eq_cons (j : Json) : ∃ c cs, (write j).toList = c :: cs ∧ Opens c := by
  cases j with
  | null => exact ⟨'n', _, rfl, .inl (by decide)⟩
  | bool b =>
    cases b with
    | true => exact ⟨'t', _, rfl, .inl (by decide)⟩
    | false => exact ⟨'f', _, rfl, .inl (by decide)⟩
  | int n =>
    obtain ⟨p, hp, ht, -⟩ := exists_spelling_repr n
    rw [write, ← ht]
    exact hp.opens
  | float x =>
    rw [write]
    cases hn : x.isNaN with
    | true => exact ⟨'N', _, by simp only [writeFloat, hn, if_true]; rfl, .inl (by decide)⟩
    | false =>
      cases hi : x.isInf with
      | true =>
        simp only [writeFloat, hn, hi, Bool.false_eq_true, if_true, if_false]
        cases signBit x with
        | true => exact ⟨'-', _, rfl, .inl (by decide)⟩
        | false => exact ⟨'I', _, rfl, .inl (by decide)⟩
      | false =>
        obtain ⟨p, hp, ht, -⟩ := exists_spelling_writeFloat hn hi
        rw [← ht]
        exact hp.opens
  | text s => exact ⟨'"', _, toList_writeText s, .inl (by decide)⟩
  | array items => exact ⟨'[', _, by simp [write]; rfl, .inl (by decide)⟩
  | object fields => exact ⟨'\x7b', _, by simp [write]; rfl, .inl (by decide)⟩

theorem skipBlanks_cons {c : Char} (cs : List Char) (h : isBlank c = false) :
    skipBlanks (c :: cs) = c :: cs := by
  simp [skipBlanks, h]

theorem skipBlanks_write (j : Json) (rest : List Char) :
    skipBlanks ((write j).toList ++ rest) = (write j).toList ++ rest := by
  obtain ⟨c, cs, ht, hc⟩ := exists_write_eq_cons j
  rw [ht, cons_append, skipBlanks_cons _ hc.not_blank]

theorem ends_cons {c : Char} (rest : List Char) (h : c = ',' ∨ c = ']' ∨ c = '\x7d') :
    Ends (c :: rest) := by
  rintro d ⟨⟩
  exact h

theorem toList_writeItems_cons (v w : Json) (items : List Json) :
    (writeItems (v :: w :: items)).toList =
      (write v).toList ++ ',' :: ' ' :: (writeItems (w :: items)).toList := by
  simp [writeItems]

theorem toList_writeFields_singleton (name : String) (v : Json) :
    (writeFields [(name, v)]).toList = (writeText name).toList ++ ':' :: ' ' :: (write v).toList := by
  simp [writeFields]

theorem toList_writeFields_cons (name : String) (v : Json) (f : String × Json)
    (fields : List (String × Json)) :
    (writeFields ((name, v) :: f :: fields)).toList = (writeText name).toList ++
      ':' :: ' ' :: ((write v).toList ++ ',' :: ' ' :: (writeFields (f :: fields)).toList) := by
  simp [writeFields]

theorem exists_writeItems_eq_cons (v : Json) (items : List Json) :
    ∃ c cs, (writeItems (v :: items)).toList = c :: cs ∧ Opens c := by
  obtain ⟨c, cs, ht, hc⟩ := exists_write_eq_cons v
  cases items with
  | nil => exact ⟨c, cs, ht, hc⟩
  | cons w items =>
    rw [toList_writeItems_cons, ht]
    exact ⟨c, _, rfl, hc⟩

theorem exists_writeFields_eq_cons (f : String × Json) (fields : List (String × Json)) :
    ∃ cs, (writeFields (f :: fields)).toList = '"' :: cs := by
  obtain ⟨name, v⟩ := f
  cases fields with
  | nil =>
    rw [toList_writeFields_singleton, toList_writeText]
    exact ⟨_, rfl⟩
  | cons f fields =>
    rw [toList_writeFields_cons, toList_writeText]
    exact ⟨_, rfl⟩

theorem skipBlanks_writeItems (v : Json) (items : List Json) (rest : List Char) :
    skipBlanks ((writeItems (v :: items)).toList ++ rest) =
      (writeItems (v :: items)).toList ++ rest := by
  obtain ⟨c, cs, ht, hc⟩ := exists_writeItems_eq_cons v items
  rw [ht, cons_append, skipBlanks_cons _ hc.not_blank]

theorem skipBlanks_writeFields (f : String × Json) (fields : List (String × Json))
    (rest : List Char) :
    skipBlanks ((writeFields (f :: fields)).toList ++ rest) =
      (writeFields (f :: fields)).toList ++ rest := by
  obtain ⟨cs, ht⟩ := exists_writeFields_eq_cons f fields
  rw [ht, cons_append, skipBlanks_cons _ (by decide)]

theorem readItems_last {fuel : Nat} {cs rest : List Char} {v : Json}
    (h : readValue fuel cs = .ok (v, ']' :: rest)) (done : List Json) :
    readItems (fuel + 1) done cs = .ok (.array (done.reverse ++ [v]), rest) := by
  rw [readItems, h, ← reverse_cons]
  rfl

theorem readItems_more {fuel : Nat} {cs rest : List Char} {v : Json}
    (h : readValue fuel cs = .ok (v, ',' :: rest)) (done : List Json) :
    readItems (fuel + 1) done cs = readItems fuel (v :: done) (skipBlanks rest) := by
  rw [readItems, h]
  rfl

section Fields

variable {fuel : Nat} {v v' : Json} {rest after : List Char}

theorem readFields_field (name : String) (done : List (String × Json))
    (h : readValue fuel ((write v).toList ++ rest) = .ok (v', after)) :
    readFields (fuel + 1) done
        ((writeText name).toList ++ ':' :: ' ' :: ((write v).toList ++ rest)) =
      match skipBlanks after with
      | '\x7d' :: after => .ok (.object (putField name v' done), after)
      | ',' :: rest => readFields fuel (putField name v' done) (skipBlanks rest)
      | rest => fault .comma rest := by
  have hn := quotedText_writeText name (':' :: ' ' :: ((write v).toList ++ rest))
  rw [toList_writeText] at hn ⊢
  simp only [cons_append] at hn ⊢
  rw [readFields, hn]
  show (readValue fuel (skipBlanks ((write v).toList ++ rest)) >>= _) = _
  rw [skipBlanks_write, h]
  rfl

end Fields

/-- With this much fuel, written values are read back in front of anything that may follow one. -/
def ReadsValues (fuel : Nat) : Prop :=
  ∀ (j : Json) rest, Ends rest → (write j).toList.length < fuel →
    readValue fuel ((write j).toList ++ rest) = .ok (j.mapFloats spelt, rest)

/-- With this much fuel, written items are read back after those already read. -/
def ReadsItems (fuel : Nat) : Prop :=
  ∀ (v : Json) (items : List Json), (writeItems (v :: items)).toList.length + 1 < fuel → ∀ done rest,
    readItems fuel done ((writeItems (v :: items)).toList ++ ']' :: rest) =
      .ok (.array (done.reverse ++ mapFloats.mapItems spelt (v :: items)), rest)

/-- With this much fuel, written fields are read back after those already read. -/
def ReadsFields (fuel : Nat) : Prop :=
  ∀ f fields, (writeFields (f :: fields)).toList.length + 1 < fuel → ∀ done rest,
    readFields fuel done ((writeFields (f :: fields)).toList ++ '\x7d' :: rest) =
      .ok (.object (mapFloats.mapFields spelt done (f :: fields)), rest)

section Reads

variable {fuel : Nat}

theorem readValue_array (v : Json) (items : List Json) (rest : List Char) :
    readValue (fuel + 1) ((write (.array (v :: items))).toList ++ rest) =
      readItems fuel [] ((writeItems (v :: items)).toList ++ ']' :: rest) := by
  have ht : (write (.array (v :: items))).toList ++ rest =
      '[' :: ((writeItems (v :: items)).toList ++ ']' :: rest) := by simp [write]
  have hs := skipBlanks_writeItems v items (']' :: rest)
  rw [ht, readValue]
  obtain ⟨c, cs, hi, hc⟩ := exists_writeItems_eq_cons v items
  rw [hi, cons_append] at hs ⊢
  simp only [hs]
  split
  · next after heq =>
    obtain ⟨rfl, -⟩ := cons.inj heq
    exact absurd hc (by decide)
  · rfl

theorem readValue_object (f : String × Json) (fields : List (String × Json)) (rest : List Char) :
    readValue (fuel + 1) ((write (.object (f :: fields))).toList ++ rest) =
      readFields fuel [] ((writeFields (f :: fields)).toList ++ '\x7d' :: rest) := by
  have ht : (write (.object (f :: fields))).toList ++ rest =
      '\x7b' :: ((writeFields (f :: fields)).toList ++ '\x7d' :: rest) := by simp [write]
  have hs := skipBlanks_writeFields f fields ('\x7d' :: rest)
  rw [ht, readValue]
  obtain ⟨cs, hf⟩ := exists_writeFields_eq_cons f fields
  rw [hf, cons_append] at hs ⊢
  simp only [hs]
  rfl

theorem readsValues_succ (hi : ReadsItems fuel) (hf : ReadsFields fuel) :
    ReadsValues (fuel + 1) := by
  intro j rest hr hfu
  cases j with
  | null => exact readValue_word fuel rest ("null", .null) (by simp [words])
  | bool b =>
    cases b with
    | true => exact readValue_word fuel rest ("true", .bool true) (by simp [words])
    | false => exact readValue_word fuel rest ("false", .bool false) (by simp [words])
  | int n =>
    obtain ⟨p, hp, ht, hv⟩ := exists_spelling_repr n
    rw [write, ← ht, mapFloats, ← hv]
    exact hp.readValue_text hr fuel
  | float x => exact readValue_writeFloat x hr fuel
  | text s =>
    have ht := quotedText_writeText s rest
    rw [write, mapFloats]
    rw [toList_writeText] at ht ⊢
    simp only [cons_append] at ht ⊢
    rw [readValue, ht]
    rfl
  | array items =>
    cases items with
    | nil => rfl
    | cons v items =>
      have hl : (writeItems (v :: items)).toList.length + 1 < fuel := by
        simp only [write, String.toList_append, length_append] at hfu
        have : "[".toList.length = 1 ∧ "]".toList.length = 1 := by decide
        omega
      rw [readValue_array]
      exact hi v items hl [] rest
  | object fields =>
    cases fields with
    | nil => rfl
    | cons f fields =>
      have hl : (writeFields (f :: fields)).toList.length + 1 < fuel := by
        simp only [write, String.toList_append, length_append] at hfu
        have : "\x7b".toList.length = 1 ∧ "\x7d".toList.length = 1 := by decide
        omega
      rw [readValue_object]
      exact hf f fields hl [] rest

theorem readsItems_succ (hv : ReadsValues fuel) (hi : ReadsItems fuel) :
    ReadsItems (fuel + 1) := by
  intro v items hf done rest
  cases items with
  | nil =>
    rw [writeItems] at hf ⊢
    exact readItems_last (hv v _ (ends_cons rest (by decide)) (by omega)) done
  | cons w items =>
    rw [toList_writeItems_cons] at hf ⊢
    simp only [length_append, length_cons] at hf
    have hva := hv v _
      (ends_cons (' ' :: ((writeItems (w :: items)).toList ++ ']' :: rest)) (.inl rfl))
      (by omega)
    have hm := hi w items (by omega) (mapFloats spelt v :: done) rest
    rw [append_assoc]
    rw [reverse_cons, append_assoc, ← skipBlanks_writeItems] at hm
    exact (readItems_more hva done).trans hm

theorem readsFields_succ (hva : ReadsValues fuel) (hfi : ReadsFields fuel) :
    ReadsFields (fuel + 1) := by
  rintro ⟨name, v⟩ fields hf done rest
  cases fields with
  | nil =>
    rw [toList_writeFields_singleton] at hf ⊢
    simp only [length_append, length_cons] at hf
    have hv := hva v _ (ends_cons rest (.inr (.inr rfl))) (by omega)
    rw [append_assoc]
    exact readFields_field name done hv
  | cons f fields =>
    rw [toList_writeFields_cons] at hf ⊢
    simp only [length_append, length_cons] at hf
    have hv := hva v _
      (ends_cons (' ' :: ((writeFields (f :: fields)).toList ++ '\x7d' :: rest)) (.inl rfl))
      (by omega)
    have hm := hfi f fields (by omega) (putField name (mapFloats spelt v) done) rest
    rw [← skipBlanks_writeFields] at hm
    rw [append_assoc, cons_append, cons_append, append_assoc]
    exact (readFields_field name done hv).trans hm

end Reads

theorem reads (fuel : Nat) : ReadsValues fuel ∧ ReadsItems fuel ∧ ReadsFields fuel := by
  induction fuel with
  | zero =>
    refine ⟨?_, ?_, ?_⟩
    · exact fun _ _ _ h => absurd h (Nat.not_lt_zero _)
    · exact fun _ _ h => absurd h (Nat.not_lt_zero _)
    · exact fun _ _ h => absurd h (Nat.not_lt_zero _)
  | succ fuel ih =>
    obtain ⟨hv, hi, hf⟩ := ih
    exact ⟨readsValues_succ hi hf, readsItems_succ hv hi,
      readsFields_succ hv hf⟩

/-- A written value is read back, with the doubles that its texts spell. -/
theorem parse_write (j : Json) : parse j.write = .ok (j.mapFloats spelt) := by
  have hr := (reads ((write j).toList.length + 1)).1 j [] (by simp [Ends]) (Nat.lt_succ_self _)
  have hs := skipBlanks_write j []
  obtain ⟨c, cs, ht, hc⟩ := exists_write_eq_cons j
  have hm : (write j).toList.head? ≠ some '\ufeff' := by
    rw [ht]
    rintro ⟨⟩
    exact absurd hc (by decide)
  rw [append_nil] at hr hs
  simp only [parse, if_neg hm, hs, hr]
  rfl

end Json

end BlockStudio
