import BlockStudio.Json.Reader
import BlockStudio.Json.Writer
import Mathlib.Data.List.Basic
import Mathlib.Data.Nat.Basic

/-!
# Texts and numbers inside JSON

Quoted texts are read back as they are, whatever characters they hold: `quotedText_writeText`.  A
number is spelt with a sign, whole digits, places and an exponent; `Spelling.number?_text` says what
every such text is read as, and integers and finite doubles are written in that form.
-/

namespace BlockStudio

open List Decimal

variable {n : Nat} {w : List Char}

namespace Json

/-! ## Texts -/

theorem hexValue?_hexDigit (hn : n < 16) : hexValue? (hexDigit n) = some n := by
  have h : ∀ n < 16, hexValue? (hexDigit n) = some n := by decide
  exact h n hn

/-- Four hexadecimal digits are read back; something has to follow them. -/
theorem hexFour?_hexText (hn : n < 0x10000) (c : Char) (rest : List Char) :
    hexFour? (hexText 4 n ++ c :: rest) = some (n, c :: rest) := by
  have hd : ∀ k, hexValue? (hexDigit (k % 16)) = some (k % 16) := fun k =>
    hexValue?_hexDigit (Nat.mod_lt k (by decide))
  simp only [hexText, nil_append, cons_append, hexFour?, hd]
  show some (_, c :: rest) = _
  congr 2
  omega

theorem readText_unitEscape (hn : n < 0x10000) (start fuel : Nat) (done : List Char) (c : Char)
    (rest : List Char) :
    readText start (fuel + 1) done (unitEscape n ++ c :: rest) =
      readText start fuel ((escapedChar n (c :: rest)).1 :: done) (escapedChar n (c :: rest)).2 := by
  unfold unitEscape
  simp only [cons_append]
  rw [readText]
  simp only [hexFour?_hexText hn]

/-- The numbers of characters are below the surrogates or above them. -/
theorem toNat_lt_or_le (c : Char) : c.toNat < 0xd800 ∨ 0xe000 ≤ c.toNat ∧ c.toNat < 0x110000 := by
  rcases c.valid with h | ⟨h, h'⟩
  · exact .inl h
  · refine .inr ⟨?_, h'⟩
    have : 0xdfff < c.val.toNat := h
    exact this

theorem escapedChar_of_plain (h : n < 0xd800 ∨ 0xe000 ≤ n) (rest : List Char) :
    escapedChar n rest = (Char.ofNat n, rest) := by
  have h1 : ¬(0xd800 ≤ n ∧ n < 0xdc00) := by omega
  have h2 : ¬(0xdc00 ≤ n ∧ n < 0xe000) := by omega
  simp only [escapedChar, Bool.and_eq_true, decide_eq_true_eq, h1, h2, if_false]

/-- The two halves of a pair make the character again. -/
theorem escapedChar_pair (hn : n < 0x100000) (c : Char) (rest : List Char) :
    escapedChar (0xd800 + n / 0x400) (unitEscape (0xdc00 + n % 0x400) ++ c :: rest) =
      (Char.ofNat (0x10000 + n), c :: rest) := by
  have hhi : 0xd800 ≤ 0xd800 + n / 0x400 ∧ 0xd800 + n / 0x400 < 0xdc00 := by omega
  have hl : 0xdc00 ≤ 0xdc00 + n % 0x400 ∧ 0xdc00 + n % 0x400 < 0xe000 := by omega
  have hh : lowHalf? (unitEscape (0xdc00 + n % 0x400) ++ c :: rest) =
      some (0xdc00 + n % 0x400, c :: rest) := by
    simp only [unitEscape, cons_append, lowHalf?,
      hexFour?_hexText (show 0xdc00 + n % 0x400 < 0x10000 by omega)]
    simp [hl]
  have hs : 0x10000 + (0xd800 + n / 0x400 - 0xd800) * 0x400 + (0xdc00 + n % 0x400 - 0xdc00) =
      0x10000 + n := by omega
  simp only [escapedChar, Bool.and_eq_true, decide_eq_true_eq, hhi, and_self, if_true, hh,
    hs]

theorem readText_simple (start fuel : Nat) (done : List Char) {a b : Char} (rest : List Char)
    (hu : a ≠ 'u') (h : simpleEscape? a = some b) :
    readText start (fuel + 1) done ('\\' :: a :: rest) = readText start fuel (b :: done) rest := by
  rw [readText]
  · simp only [h]
  · exact hu

theorem readText_plain (start fuel : Nat) (done : List Char) {a : Char} (rest : List Char)
    (hq : a ≠ '"') (hs : a ≠ '\\') (h : 0x20 ≤ a.toNat) :
    readText start (fuel + 1) done (a :: rest) = readText start fuel (a :: done) rest := by
  rw [readText]
  · rw [if_neg (by omega)]
  all_goals simp [hq, hs]

/-- One character of a text is read back. -/
theorem readText_writeChar (a : Char) (start fuel : Nat) (done : List Char) (c : Char)
    (rest : List Char) :
    readText start (fuel + 1) done (writeChar a ++ c :: rest) =
      readText start fuel (a :: done) (c :: rest) := by
  simp only [writeChar]
  split_ifs with hq hp hn hr ht hb hf hun
  · obtain rfl | rfl : a = '"' ∨ a = '\\' := by simpa using hq
    · exact readText_simple start fuel done (c :: rest) (by decide) rfl
    · exact readText_simple start fuel done (c :: rest) (by decide) rfl
  · have h : 0x20 ≤ a.toNat := by simp only [Bool.and_eq_true, decide_eq_true_eq] at hp; omega
    simp only [Bool.or_eq_true, decide_eq_true_eq, not_or] at hq
    exact readText_plain start fuel done (c :: rest) hq.1 hq.2 h
  · subst hn
    exact readText_simple start fuel done (c :: rest) (by decide) rfl
  · subst hr
    exact readText_simple start fuel done (c :: rest) (by decide) rfl
  · subst ht
    exact readText_simple start fuel done (c :: rest) (by decide) rfl
  · obtain rfl : a = '\x08' := Char.ext (UInt32.toNat_inj.1 hb)
    exact readText_simple start fuel done (c :: rest) (by decide) rfl
  · obtain rfl : a = '\x0c' := Char.ext (UInt32.toNat_inj.1 hf)
    exact readText_simple start fuel done (c :: rest) (by decide) rfl
  · have h : a.toNat < 0xd800 ∨ 0xe000 ≤ a.toNat := (toNat_lt_or_le a).imp_right And.left
    rw [readText_unitEscape hun, escapedChar_of_plain h, Char.ofNat_toNat]
  · -- the pair is one escape to the reader, so one unit of fuel is enough for both halves
    obtain ⟨n, hn⟩ : ∃ n, a.toNat = 0x10000 + n := ⟨a.toNat - 0x10000, by omega⟩
    have hlt : n < 0x100000 := by rcases toNat_lt_or_le a with h | ⟨-, h⟩ <;> omega
    have hs : a.toNat - 0x10000 = n := by omega
    obtain ⟨u, us, hu⟩ : ∃ u us, unitEscape (0xdc00 + n % 0x400) ++ c :: rest = u :: us :=
      ⟨_, _, rfl⟩
    rw [hs, append_assoc, hu, readText_unitEscape (by omega), ← hu, escapedChar_pair hlt,
      ← hn, Char.ofNat_toNat]

theorem writeChar_ne_nil (a : Char) : writeChar a ≠ [] := by
  simp only [writeChar]
  split_ifs <;> simp [unitEscape]

/-- A text is read back up to its closing quote. -/
theorem readText_flatMap (start : Nat) (cs rest : List Char) :
    ∀ (fuel : Nat) (done : List Char), cs.length < fuel →
      readText start fuel done (cs.flatMap writeChar ++ '"' :: rest) =
        .ok (String.ofList (done.reverse ++ cs), rest) := by
  induction cs with
  | nil =>
    intro fuel done hf
    obtain ⟨fuel, rfl⟩ := Nat.exists_eq_succ_of_ne_zero (Nat.ne_of_gt hf)
    simp [readText]
  | cons a cs ih =>
    intro fuel done hf
    obtain ⟨fuel, rfl⟩ := Nat.exists_eq_succ_of_ne_zero (Nat.ne_zero_of_lt hf)
    obtain ⟨u, us, hu⟩ : ∃ u us, cs.flatMap writeChar ++ '"' :: rest = u :: us :=
      exists_cons_of_ne_nil (by simp)
    rw [flatMap_cons, append_assoc, hu, readText_writeChar, ← hu,
      ih fuel (a :: done) (Nat.lt_of_succ_lt_succ hf)]
    simp

theorem length_le_flatMap_writeChar (cs : List Char) : cs.length ≤ (cs.flatMap writeChar).length := by
  induction cs with
  | nil => rfl
  | cons a cs ih =>
    have := length_pos_iff.2 (writeChar_ne_nil a)
    simp only [flatMap_cons, length_append, length_cons]
    omega

theorem toList_writeText (s : String) :
    (writeText s).toList = '"' :: (s.toList.flatMap writeChar ++ ['"']) := by
  simp [writeText]

/-- A written text is read back as it is, whatever follows it. -/
theorem quotedText_writeText (s : String) (rest : List Char) :
    quotedText ((writeText s).toList ++ rest) = .ok (s, rest) := by
  have hl := length_le_flatMap_writeChar s.toList
  rw [toList_writeText]
  simp only [quotedText, cons_append, append_assoc, nil_append, drop_succ_cons, drop_zero]
  rw [readText_flatMap]
  · simp
  · simp only [length_cons, length_append]
    omega

/-! ## Digits -/

/-- Nothing of the text continues a run of digits. -/
def StopsDigits (cs : List Char) : Prop := ∀ c, cs.head? = some c → isAsciiDigit c = false

/-- What may follow a value inside an array or an object, or at the end of the text. -/
def Ends (cs : List Char) : Prop := ∀ c, cs.head? = some c → c = ',' ∨ c = ']' ∨ c = '\x7d'

theorem Ends.stopsDigits {cs : List Char} (h : Ends cs) : StopsDigits cs := by
  intro c hc
  obtain rfl | rfl | rfl := h c hc <;> decide

section Digits

variable {ds rest : List Char}

theorem takeWhile_digits (hds : ∀ c ∈ ds, isAsciiDigit c = true) (h : StopsDigits rest) :
    (ds ++ rest).takeWhile isAsciiDigit = ds := by
  rw [takeWhile_append_of_pos hds]
  cases rest with
  | nil => simp
  | cons c rest => rw [takeWhile_cons_of_neg (by simp [h c rfl]), append_nil]

theorem dropWhile_digits (hds : ∀ c ∈ ds, isAsciiDigit c = true) (h : StopsDigits rest) :
    (ds ++ rest).dropWhile isAsciiDigit = rest := by
  rw [dropWhile_append_of_pos hds]
  cases rest with
  | nil => rfl
  | cons c rest => rw [dropWhile_cons_of_neg (by simp [h c rfl])]

end Digits

theorem isAsciiDigit_of_mem_toDigits {c : Char} (h : c ∈ Nat.toDigits 10 n) : isAsciiDigit c = true :=
  Nat.isDigit_of_mem_toDigits (by decide) (by decide) h

theorem natOfDigits_toDigits (n : Nat) : natOfDigits (Nat.toDigits 10 n) = n :=
  Nat.ofDigitChars_eq_foldl.symm.trans Nat.ofDigitChars_ten_toDigits

/-- The digits of a positive number do not begin with a zero. -/
theorem head?_toDigits_ne_zero (hn : n ≠ 0) : (Nat.toDigits 10 n).head? ≠ some '0' := by
  induction n using Nat.strongRecOn with
  | ind n ih =>
    by_cases h : n < 10
    · rw [Nat.toDigits_of_lt_base h]
      simpa using hn
    · have hle : 10 ≤ n := Nat.le_of_not_lt h
      rw [Nat.toDigits_of_base_le (by decide) hle, head?_append_of_ne_nil _ Nat.toDigits_ne_nil]
      exact ih (n / 10) (Nat.div_lt_self (Nat.pos_of_ne_zero hn) (by decide)) (by omega)

/-- Whole digits as numbers are written: a lone zero, or digits that begin with another one. -/
structure IsWhole (w : List Char) : Prop where
  /-- There is a digit. -/
  ne_nil : w ≠ []
  /-- There is nothing else. -/
  digits : ∀ c ∈ w, isAsciiDigit c = true
  /-- A zero stands alone. -/
  zero : w.head? = some '0' → w = ['0']

theorem isWhole_toDigits (n : Nat) : IsWhole (Nat.toDigits 10 n) where
  ne_nil := Nat.toDigits_ne_nil
  digits _ := isAsciiDigit_of_mem_toDigits
  zero h := by
    obtain rfl : n = 0 := by
      by_contra hn
      exact head?_toDigits_ne_zero hn h
    rfl

theorem takeWhole_append {rest : List Char} (hw : IsWhole w) (h : StopsDigits rest) :
    takeWhole (w ++ rest) = some (w, rest) := by
  obtain ⟨c, w, rfl⟩ := exists_cons_of_ne_nil hw.ne_nil
  by_cases hc : c = '0'
  · subst hc
    obtain rfl : w = [] := cons.inj (hw.zero rfl) |>.2
    rfl
  · rw [takeWhole.eq_2 _ (by rintro _ ⟨⟩; exact hc rfl)]
    simp only [takeWhile_digits hw.digits h, dropWhile_digits hw.digits h, isEmpty_cons,
      Bool.false_eq_true, if_false]

/-! ## Numbers -/

/-- How a number is spelt: its sign, the whole digits, the places after the point if there are any,
and the exponent with its sign. -/
structure Spelling where
  /-- Whether a minus stands in front. -/
  negative : Bool
  /-- The digits before the point. -/
  whole : List Char
  /-- The digits after the point; without any there is no point. -/
  places : List Char
  /-- The digits of the exponent, and whether it is negative. -/
  exponent : Option (Bool × List Char)

namespace Spelling

/-- The sign in front of a number. -/
def signText (p : Spelling) : List Char := if p.negative then ['-'] else []

/-- The point and the places. -/
def placesText (p : Spelling) : List Char := if p.places = [] then [] else '.' :: p.places

/-- The mark, the sign and the digits of the exponent. -/
def exponentText (p : Spelling) : List Char :=
  match p.exponent with
  | none => []
  | some (negative, ds) => 'e' :: (if negative then '-' else '+') :: ds

/-- The whole text of a number. -/
def text (p : Spelling) : List Char := p.signText ++ (p.whole ++ (p.placesText ++ p.exponentText))

/-- The exponent as a number. -/
def exponentValue (p : Spelling) : Int :=
  match p.exponent with
  | none => 0
  | some (negative, ds) => if negative then -(natOfDigits ds : Int) else natOfDigits ds

/-- The value of a number: an integer without places and exponent, otherwise a double. -/
def value (p : Spelling) : Json :=
  if p.places = [] ∧ p.exponent = none then
    .int (if p.negative then -(natOfDigits p.whole : Int) else natOfDigits p.whole)
  else
    .float (floatOfDecimal p.negative (natOfDigits (p.whole ++ p.places))
      (p.exponentValue - p.places.length))

/-- The digits stand where they have to. -/
structure Valid (p : Spelling) : Prop where
  /-- The whole digits are as numbers begin. -/
  whole : IsWhole p.whole
  /-- The places are digits. -/
  places : ∀ c ∈ p.places, isAsciiDigit c = true
  /-- An exponent has digits, and nothing else. -/
  exponent : ∀ negative ds, p.exponent = some (negative, ds) →
    ds ≠ [] ∧ ∀ c ∈ ds, isAsciiDigit c = true

variable {p : Spelling} {rest : List Char}

theorem takeExponent_of_ends (h : Ends rest) : takeExponent rest = none := by
  cases rest with
  | nil => rfl
  | cons c rest => obtain rfl | rfl | rfl := h c rfl <;> rfl

theorem takePlaces_of_ends (h : Ends rest) : takePlaces rest = none := by
  cases rest with
  | nil => rfl
  | cons c rest => obtain rfl | rfl | rfl := h c rfl <;> rfl

theorem takeExponent_exponentText (hp : p.Valid) (h : Ends rest) :
    takeExponent (p.exponentText ++ rest) = p.exponent.map fun _ => (p.exponentValue, rest) := by
  rcases hx : p.exponent with _ | ⟨negative, ds⟩
  · simp [exponentText, hx, takeExponent_of_ends h]
  · obtain ⟨hne, hds⟩ := hp.exponent negative ds hx
    have hs : takeSign ((if negative then '-' else '+') :: (ds ++ rest)) =
        (negative, ds ++ rest) := by cases negative <;> rfl
    simp [exponentText, exponentValue, hx, takeExponent, hs, takeWhile_digits hds h.stopsDigits,
      dropWhile_digits hds h.stopsDigits, hne]

theorem stopsDigits_exponentText (h : Ends rest) : StopsDigits (p.exponentText ++ rest) := by
  rcases hx : p.exponent with _ | ⟨negative, ds⟩
  · simpa [exponentText, hx] using h.stopsDigits
  · intro c hc
    obtain rfl : 'e' = c := by simpa [exponentText, hx] using hc
    decide

theorem takePlaces_placesText (hp : p.Valid) (h : Ends rest) :
    takePlaces (p.placesText ++ (p.exponentText ++ rest)) =
      if p.places = [] then none else some (p.places, p.exponentText ++ rest) := by
  by_cases hn : p.places = []
  · rcases hx : p.exponent with _ | ⟨negative, ds⟩
    · simp [placesText, exponentText, hn, hx, takePlaces_of_ends h]
    · simp [placesText, exponentText, hn, hx, takePlaces]
  · have hs := stopsDigits_exponentText (p := p) h
    simp [placesText, hn, takePlaces, takeWhile_digits hp.places hs,
      dropWhile_digits hp.places hs]

theorem stopsDigits_placesText (h : Ends rest) :
    StopsDigits (p.placesText ++ (p.exponentText ++ rest)) := by
  by_cases hn : p.places = []
  · simpa [placesText, hn] using stopsDigits_exponentText h
  · intro c hc
    obtain rfl : '.' = c := by simpa [placesText, hn] using hc
    decide

/-- A sign is told from the digits after it. -/
theorem sign_append (hp : p.Valid) (cs : List Char) :
    (if (p.signText ++ (p.whole ++ cs)).head? = some '-' then
        (true, (p.signText ++ (p.whole ++ cs)).drop 1)
      else (false, p.signText ++ (p.whole ++ cs))) = (p.negative, p.whole ++ cs) := by
  cases hn : p.negative with
  | true => simp [signText, hn]
  | false =>
    obtain ⟨c, w, hw⟩ := exists_cons_of_ne_nil hp.whole.ne_nil
    have hc : c ≠ '-' := by
      rintro rfl
      exact absurd (hp.whole.digits '-' (by simp [hw])) (by decide)
    simp [signText, hn, hw, hc]

/-- A spelt number is read as its value. -/
theorem number?_text (hp : p.Valid) (h : Ends rest) :
    number? (p.text ++ rest) = some (p.value, rest) := by
  unfold number?
  simp only [text, append_assoc, sign_append hp,
    takeWhole_append hp.whole (stopsDigits_placesText h)]
  simp only [Option.bind_eq_bind, Option.bind_some, takePlaces_placesText hp h]
  have hep := takeExponent_exponentText hp h
  by_cases hn : p.places = []
  · have hpl : p.placesText = [] := if_pos hn
    simp only [hn, hpl, if_true, Option.map_none, Option.getD_none, nil_append, hep]
    cases hx : p.exponent with
    | none =>
      have he : p.exponentText = [] := by simp [exponentText, hx]
      simp [value, hn, hx, he]
    | some x => simp [value, hn, hx]
  · simp only [hn, if_false, Option.map_some, Option.getD_some, hep]
    cases hx : p.exponent with
    | none =>
      have he : p.exponentText = [] := by simp [exponentText, hx]
      simp [value, hn, he, exponentValue, hx]
    | some x => simp [value, hn, hx]

attribute [simp] text signText placesText exponentText

end Spelling

/-- An integer is written as digits with an optional minus. -/
theorem exists_spelling_repr (n : Int) :
    ∃ p : Spelling, p.Valid ∧ p.text = (Int.repr n).toList ∧ p.value = .int n := by
  cases n with
  | ofNat n =>
    refine ⟨⟨false, Nat.toDigits 10 n, [], none⟩, ⟨isWhole_toDigits n, by simp, by simp⟩, ?_, ?_⟩
    · show _ = (Nat.repr n).toList
      simp
    · simp [Spelling.value, natOfDigits_toDigits]
  | negSucc n =>
    refine ⟨⟨true, Nat.toDigits 10 n.succ, [], none⟩, ⟨isWhole_toDigits _, by simp, by simp⟩,
      ?_, ?_⟩
    · show _ = ("-" ++ Nat.repr n.succ).toList
      simp
    · simp [Spelling.value, natOfDigits_toDigits, Int.negSucc_eq]

/-- Taking trailing zeros off a positive number leaves a positive one. -/
theorem digits_stripZeros (fuel : Nat) (d : Decimal) (hd : d.digits ≠ 0) :
    (stripZeros fuel d).digits ≠ 0 := by
  induction fuel generalizing d with
  | zero => exact hd
  | succ fuel ih =>
    unfold stripZeros
    split_ifs with h
    · exact ih _ (show d.digits / 10 ≠ 0 by omega)
    · exact hd

/-- Zero has one form only. -/
def ZeroPlain (d : Decimal) : Prop := d.digits = 0 → d.exponent = 0

theorem zeroPlain_normal (d : Decimal) : ZeroPlain d.normal := by
  unfold normal
  split_ifs with h
  · exact fun _ => rfl
  · exact fun h' => absurd h' (digits_stripZeros _ d h)

theorem zeroPlain_rounded (count num den : Nat) : ZeroPlain (rounded count num den) := by
  unfold rounded
  split_ifs
  · exact fun _ => rfl
  · exact zeroPlain_normal _

theorem zeroPlain_shortest (b : Binary) : ZeroPlain (shortest b) := by
  have hs : ∀ (lead : Int) (fuel count : Nat), ZeroPlain (search b lead fuel count) := by
    intro lead fuel
    induction fuel with
    | zero => exact fun count => zeroPlain_rounded count _ _
    | succ fuel ih =>
      intro count
      simp only [search]
      split
      · exact zeroPlain_normal _
      · exact ih _
  unfold shortest
  split_ifs
  · exact fun _ => rfl
  · exact hs _ _ _

theorem Spelling.text_eq (p : Spelling) {body : String}
    (h : p.whole ++ (p.placesText ++ p.exponentText) = body.toList) :
    p.text = ((if p.negative then "-" else "") ++ body).toList := by
  rw [Spelling.text, h]
  cases hp : p.negative <;> simp [hp]

theorem toList_zeros (n : Nat) : (zeros n).toList = List.replicate n '0' := String.toList_ofList

theorem isAsciiDigit_of_mem_zeros {c : Char} (h : c ∈ List.replicate n '0') :
    isAsciiDigit c = true := by
  rw [eq_of_mem_replicate h]
  decide

theorem IsWhole.take (h : IsWhole w) (n : Nat) : IsWhole (w.take (n + 1)) where
  ne_nil := by simpa using h.ne_nil
  digits c hc := h.digits c (mem_of_mem_take hc)
  zero hh := by
    rw [head?_take, if_neg (Nat.succ_ne_zero n)] at hh
    rw [h.zero hh, take_succ_cons, take_nil]

/-- Zeros may follow whole digits, except after the lone zero. -/
theorem isWhole_append_zeros {k : Nat} (h : n = 0 → k = 0) :
    IsWhole (Nat.toDigits 10 n ++ List.replicate k '0') := by
  by_cases hn : n = 0
  · rw [h hn, replicate_zero, append_nil]
    exact isWhole_toDigits n
  · refine ⟨by simp, fun c hc => ?_, fun hh => ?_⟩
    · exact (mem_append.1 hc).elim isAsciiDigit_of_mem_toDigits isAsciiDigit_of_mem_zeros
    · rw [head?_append_of_ne_nil _ Nat.toDigits_ne_nil] at hh
      exact absurd hh (head?_toDigits_ne_zero hn)

/-- Every style spells a number, and one that keeps `.0` spells it with a point or an exponent. -/
theorem exists_spelling (style : NumberStyle) (negative : Bool) (d : Decimal) (hd : ZeroPlain d) :
    ∃ p : Spelling, p.Valid ∧ p.text = (style.write negative d).toList ∧
      (style.pointZero = true → ¬(p.places = [] ∧ p.exponent = none)) := by
  have hw := isWhole_toDigits d.digits
  have hln := length_pos_iff.2 hw.ne_nil
  simp only [NumberStyle.write, Nat.toList_repr]
  generalize hle : d.exponent + (Nat.toDigits 10 d.digits).length - 1 = lead
  by_cases hp : style.positionalFrom ≤ lead ∧ lead < style.positionalBelow
  · rw [if_pos hp]
    by_cases he : 0 ≤ d.exponent
    · -- a whole number: zeros up to the point, and perhaps a zero after it
      have hz : d.digits = 0 → d.exponent.toNat = 0 := fun h => by rw [hd h]; rfl
      rw [if_pos he]
      refine ⟨⟨negative, Nat.toDigits 10 d.digits ++ replicate d.exponent.toNat '0',
        if style.pointZero then ['0'] else [], none⟩, ⟨isWhole_append_zeros hz, ?_, by simp⟩,
        Spelling.text_eq _ ?_, fun h => by simp [h]⟩
      · intro c hc
        split_ifs at hc
        · rw [mem_singleton.1 hc]
          decide
        · cases hc
      · cases style.pointZero <;> simp [toList_zeros]
    · rw [if_neg he]
      by_cases hpo : 0 ≤ lead
      · -- the point stands inside the digits
        have hdr : (Nat.toDigits 10 d.digits).drop (lead.toNat + 1) ≠ [] := by
          rw [Ne, drop_eq_nil_iff]
          omega
        rw [if_pos hpo]
        refine ⟨⟨negative, (Nat.toDigits 10 d.digits).take (lead.toNat + 1),
          (Nat.toDigits 10 d.digits).drop (lead.toNat + 1), none⟩,
          ⟨hw.take _, ?_, by simp⟩, Spelling.text_eq _ ?_, fun _ h => hdr h.1⟩
        · exact fun c hc => hw.digits c (mem_of_mem_drop hc)
        · simp [hdr]
      · -- the digits stand after the point, behind zeros
        rw [if_neg hpo]
        refine ⟨⟨negative, ['0'], replicate (-lead - 1).toNat '0' ++
          Nat.toDigits 10 d.digits, none⟩, ⟨isWhole_toDigits 0, ?_, by simp⟩,
          Spelling.text_eq _ ?_, by simp⟩
        · exact fun c hc => (mem_append.1 hc).elim isAsciiDigit_of_mem_zeros (hw.digits c)
        · simp [toList_zeros]
  · -- one digit before the point, and an exponent
    rw [if_neg hp]
    refine ⟨⟨negative, (Nat.toDigits 10 d.digits).take 1, (Nat.toDigits 10 d.digits).drop 1,
      some (decide (lead < 0), (padZeros 2 (Nat.repr lead.natAbs)).toList)⟩,
      ⟨hw.take 0, ?_, ?_⟩, Spelling.text_eq _ ?_, by simp⟩
    · exact fun c hc => hw.digits c (mem_of_mem_drop hc)
    · rintro _ _ ⟨⟩
      refine ⟨by simp [padZeros], fun c hc => ?_⟩
      rw [padZeros, String.toList_append, toList_zeros, Nat.toList_repr] at hc
      exact (mem_append.1 hc).elim isAsciiDigit_of_mem_zeros isAsciiDigit_of_mem_toDigits
    · have hl : (Nat.toDigits 10 d.digits).length > 1 ↔
          (Nat.toDigits 10 d.digits).tail ≠ [] := by
        rw [Ne, ← drop_one, drop_eq_nil_iff]
        omega
      by_cases ho : (Nat.toDigits 10 d.digits).tail = []
      · rw [if_neg (by rw [hl]; exact not_not.2 ho)]
        by_cases hn : lead < 0 <;> simp [ho, exponentText, hn]
      · rw [if_pos (hl.2 ho)]
        by_cases hn : lead < 0 <;> simp [ho, exponentText, hn]

/-- The exponent bits of infinities and NaN are all set, and of no other double. -/
theorem isNaN_or_isInf_of_ofFloat? {x : Float} (h : Binary.ofFloat? x = none) :
    x.isNaN = true ∨ x.isInf = true := by
  have hbi : x.toModel.toBits.toBitVec.toNat / 2 ^ 52 % 2 ^ 11 = 2047 := by
    by_contra hne
    have hb : ¬x.toBits.toNat / twoTo 52 % twoTo 11 = 2047 := hne
    simp only [Binary.ofFloat?, hb, if_false] at h
    split at h <;> cases h
  have he : @Float.Model.UnpackedFloat.unpackExponent .binary64
      x.toModel.toBits.toBitVec = -1#11 := by
    apply BitVec.eq_of_toNat_eq
    simp only [Float.Model.UnpackedFloat.unpackExponent, BitVec.toNat_cast,
      BitVec.extractLsb_toNat, Nat.shiftRight_eq_div_pow]
    exact hbi
  unfold Float.isNaN Float.isInf Float.Model.isNaN Float.Model.isInf Float.Model.unpack
    Float.Model.UnpackedFloat.unpack
  rw [if_pos he]
  split
  · exact .inr rfl
  · exact .inl rfl

/-- The double that the text of a double spells. -/
def spelt (x : Float) : Float :=
  if x.isNaN then notANumber
  else if x.isInf then infinity (signBit x)
  else
    match number? (writeFloat x).toList with
    | some (.float y, _) => y
    | _ => x

/-- A finite double is written as a number with a point or an exponent. -/
theorem exists_spelling_writeFloat {x : Float} (hn : x.isNaN = false) (hi : x.isInf = false) :
    ∃ p : Spelling, p.Valid ∧ p.text = (writeFloat x).toList ∧ p.value = .float (spelt x) := by
  obtain ⟨b, hb⟩ : ∃ b, Binary.ofFloat? x = some b := by
    refine Option.ne_none_iff_exists'.1 fun h => ?_
    rcases isNaN_or_isInf_of_ofFloat? h with h | h
    · cases hn.symm.trans h
    · cases hi.symm.trans h
  have hw : writeFloat x = NumberStyle.full.write b.negative (shortest b) := by
    simp only [writeFloat, hn, hi, Bool.false_eq_true, if_false, floatText, hb]
  obtain ⟨p, hp, ht, hf⟩ := exists_spelling .full b.negative _ (zeroPlain_shortest b)
  have hr : number? (p.text ++ []) = some (p.value, []) :=
    Spelling.number?_text hp (by simp [Ends])
  rw [append_nil, ht, ← hw] at hr
  refine ⟨p, hp, ht.trans (by rw [hw]), ?_⟩
  simp only [spelt, hn, hi, Bool.false_eq_true, if_false, hr]
  simp only [Spelling.value, hf rfl, if_false]

end Json

end BlockStudio
