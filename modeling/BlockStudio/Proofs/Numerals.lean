import BlockStudio.Language.Run
import BlockStudio.Proofs.Spelling
import Mathlib

/-!
# Numbers that programs print

Programs print numbers to six significant digits, and a text that spells a number is printed as that
number is.
-/

namespace BlockStudio

open Json List

variable {p : Spelling} {s : String} {c : Char}

/-! ## Reading spelt numbers -/

/-- The characters of a spelt number. -/
def IsNumeral (c : Char) : Prop := isAsciiDigit c = true ∨ c = '-' ∨ c = '+' ∨ c = '.' ∨ c = 'e'

theorem toNat_of_isAsciiDigit (h : isAsciiDigit c = true) : 48 ≤ c.toNat ∧ c.toNat ≤ 57 := by
  simp only [isAsciiDigit, Bool.and_eq_true, decide_eq_true_eq] at h
  exact h

theorem IsNumeral.toNat (h : IsNumeral c) : 43 ≤ c.toNat ∧ c.toNat ≤ 101 ∧ c ≠ '_' := by
  obtain h | rfl | rfl | rfl | rfl := h
  · have := toNat_of_isAsciiDigit h
    refine ⟨by omega, by omega, ?_⟩
    rintro rfl
    exact absurd h (by decide)
  all_goals decide

theorem isNumeral_of_mem_text (hp : p.Valid) (h : c ∈ p.text) : IsNumeral c := by
  simp only [Spelling.text, mem_append] at h
  obtain h | h | h | h := h
  · unfold Spelling.signText at h
    split_ifs at h
    · exact .inr (.inl (mem_singleton.1 h))
    · cases h
  · exact .inl (hp.whole.digits c h)
  · unfold Spelling.placesText at h
    split_ifs at h
    · cases h
    · obtain rfl | h := mem_cons.1 h
      · exact .inr (.inr (.inr (.inl rfl)))
      · exact .inl (hp.places c h)
  · unfold Spelling.exponentText at h
    split at h
    · cases h
    · rename_i negative ds hx
      obtain rfl | h := mem_cons.1 h
      · exact .inr (.inr (.inr (.inr rfl)))
      · obtain rfl | h := mem_cons.1 h
        · cases negative
          · exact .inr (.inr (.inl rfl))
          · exact .inr (.inl rfl)
        · exact .inl ((hp.exponent _ _ hx).2 c h)

theorem dropUnderscores_eq_self {cs : List Char} (h : ∀ c ∈ cs, c ≠ '_') (b : Bool) :
    dropUnderscores b cs = some cs := by
  induction cs generalizing b with
  | nil => rfl
  | cons c cs ih =>
    obtain ⟨hc, hcs⟩ := forall_mem_cons.1 h
    rw [dropUnderscores.eq_3 _ _ _ (fun _ _ h _ => hc h), if_neg hc, ih hcs]
    rfl

theorem trimBlanks_eq_self {cs : List Char} (h : ∀ c ∈ cs, isAsciiBlank c = false) :
    trimBlanks cs = cs := by
  have hd {cs : List Char} (h : ∀ c ∈ cs, isAsciiBlank c = false) :
      cs.dropWhile isAsciiBlank = cs := by
    cases cs with
    | nil => rfl
    | cons c cs => rw [dropWhile_cons_of_neg (by simp [h c mem_cons_self])]
  rw [trimBlanks, hd h, hd fun c hc => h c (mem_reverse.1 hc), reverse_reverse]

theorem readExponent?_exponentText (hp : p.Valid) :
    readExponent? p.exponentText = some p.exponentValue := by
  unfold Spelling.exponentText Spelling.exponentValue
  split
  · rfl
  · rename_i negative ds hx
    obtain ⟨hne, hds⟩ := hp.exponent _ _ hx
    have hs : takeSign ((if negative then '-' else '+') :: ds) = (negative, ds) := by
      cases negative <;> rfl
    have ha : ds.all isAsciiDigit = true := all_eq_true.2 hds
    simp [readExponent?, hs, hne, ha]

/-- The digits of a number stand in front, behind its sign. -/
theorem exists_digit (hp : p.Valid) : ∃ c cs, isAsciiDigit c = true ∧
    p.whole ++ (p.placesText ++ p.exponentText) = c :: cs := by
  obtain ⟨c, w, hw⟩ := exists_cons_of_ne_nil hp.whole.ne_nil
  exact ⟨c, _, hp.whole.digits c (by simp [hw]), by rw [hw, cons_append]⟩

theorem takeSign_text (hp : p.Valid) :
    takeSign p.text = (p.negative, p.whole ++ (p.placesText ++ p.exponentText)) := by
  obtain ⟨c, cs, hdi, hcs⟩ := exists_digit hp
  have hc (d : Char) (hd : isAsciiDigit d = false) (rest : List Char) (h : c :: cs = d :: rest) : False := by
    cases h
    cases hd.symm.trans hdi
  rw [Spelling.text, Spelling.signText, hcs]
  cases p.negative with
  | true => rfl
  | false => exact takeSign.eq_3 _ (hc '-' (by decide)) (hc '+' (by decide))

/-- No word is read where digits stand in front. -/
theorem lower_ne_word (hd : isAsciiDigit c = true) (cs : List Char) (word : String)
    (hw : ∀ d ∈ word.toList.head?, isAsciiDigit d = false) :
    String.ofList ((c :: cs).map Char.toLower) ≠ word := by
  have hl : c.toLower = c := by
    have := toNat_of_isAsciiDigit hd
    refine dif_neg fun h => ?_
    have : 65 ≤ c.toNat := h.1
    omega
  rintro rfl
  rw [String.toList_ofList] at hw
  cases (hw _ rfl).symm.trans (hl ▸ hd)

theorem readDecimal?_of_spelling (hp : p.Valid) (negative : Bool) :
    readDecimal? negative (p.whole ++ (p.placesText ++ p.exponentText)) =
      some (floatOfDecimal negative (natOfDigits (p.whole ++ p.places))
        (p.exponentValue - p.places.length)) := by
  have hen : Ends [] := by simp [Ends]
  have hpl := Spelling.stopsDigits_placesText (p := p) hen
  have he := Spelling.stopsDigits_exponentText (p := p) hen
  rw [append_nil] at hpl he
  simp only [readDecimal?, takeWhile_digits hp.whole.digits hpl, dropWhile_digits hp.whole.digits hpl]
  by_cases hn : p.places = []
  · have hr := readExponent?_exponentText hp
    rcases hx : p.exponent with _ | ⟨sign, ds⟩
    all_goals
      simp only [Spelling.exponentText, hx] at hr
      simp [hx, hn, hp.whole.ne_nil, hr]
  · simp only [Spelling.placesText, hn, if_false, cons_append,
      takeWhile_digits hp.places he, dropWhile_digits hp.places he,
      readExponent?_exponentText hp]
    simp [hp.whole.ne_nil]

/-- A spelt number is read as the double nearest to it. -/
theorem readNumber?_of_spelling (hp : p.Valid) (hs : p.text = s.toList) :
    readNumber? s = some (floatOfDecimal p.negative (natOfDigits (p.whole ++ p.places))
      (p.exponentValue - p.places.length)) := by
  have hch (c : Char) (hc : c ∈ p.text) := (isNumeral_of_mem_text hp hc).toNat
  have hpl : p.text.map plainChar = p.text := by
    refine (map_congr_left fun c hc => ?_).trans (map_id _)
    exact if_pos (by have := hch c hc; omega)
  have hb (c : Char) (hc : c ∈ p.text) : isAsciiBlank c = false := by
    have := hch c hc
    simp only [isAsciiBlank, Bool.or_eq_false_iff, Bool.and_eq_false_iff, decide_eq_false_iff_not]
    omega
  obtain ⟨c, cs, hd, hcs⟩ := exists_digit hp
  have hin := lower_ne_word hd cs "inf" (by simp; decide)
  have hi := lower_ne_word hd cs "infinity" (by simp; decide)
  have hn := lower_ne_word hd cs "nan" (by simp; decide)
  rw [readNumber?, ← hs, hpl, trimBlanks_eq_self hb,
    dropUnderscores_eq_self (fun c hc => (hch c hc).2.2), Option.bind_some]
  rw [readSigned?, takeSign_text hp]
  simp only [hcs, hin, hi, hn, decide_false, Bool.or_self, Bool.false_eq_true, if_false]
  rw [← hcs, readDecimal?_of_spelling hp]

/-- A printed number is read as a number again. -/
theorem exists_readNumber?_briefText (x : Float) : ∃ y, readNumber? (briefText x) = some y := by
  unfold briefText
  split
  · rename_i b hb
    obtain ⟨p, hp, hs, -⟩ := exists_spelling .brief b.negative _ (zeroPlain_rounded 6 b.num b.den)
    exact ⟨_, readNumber?_of_spelling hp hs⟩
  · unfold specialText
    split_ifs
    · exact ⟨notANumber, rfl⟩
    · exact ⟨infinity true, rfl⟩
    · exact ⟨infinity false, rfl⟩

/-- What a text is printed as: itself, unless it spells a number. -/
def printed (text : String) : String :=
  match readNumber? text with
  | none => text
  | some x => briefText x

theorem brief_text (store : Store) (text : String) : store.brief (.text text) = .ok (printed text) := by
  simp only [Store.brief, Value.isNumeric, Value.toFloat, printed, bind, Except.bind]
  cases readNumber? text <;> rfl

end BlockStudio
