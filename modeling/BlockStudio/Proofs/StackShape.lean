import BlockStudio.Language.Kind
import Mathlib.Data.List.Basic

/-!
# Shapes of stacks

A body is a row of statements that may end in a cap; a stack of its own is one reporter, or a body
that is not empty, or a hat with a body below it.  Cutting a stack in two, taking a block out and
joining two stacks at a place that the editor offers keep these shapes, with one exception: a hat can
be joined above the first block of a body.
-/

namespace BlockStudio

open List

/-- Statements, and a cap at most at the end. -/
def IsBody : List BlockType → Prop
  | [] => True
  | [.cap] => True
  | .statement :: rest => IsBody rest
  | _ => False

/-- One reporter, or a hat or not and a body below it, and not nothing. -/
def IsTop (l : List BlockType) : Prop :=
  l = [.reporter] ∨ (∃ rest, l = .hat :: rest ∧ IsBody rest) ∨ (l ≠ [] ∧ IsBody l)

/-- Where the editor offers to join a stack of types `m` to one of types `l`, with `i` blocks of it
above. -/
inductive Joins (l m : List BlockType) (i : Nat) : Prop where
  /-- Into an empty body. -/
  | empty (hl : l = []) (hi : i = 0) (hfirst : m.head? = some .statement ∨ m.head? = some .cap)
  /-- Below a block. -/
  | below {k : Nat} {t : BlockType} (hi : i = k + 1) (ht : l[k]? = some t) (hcap : t ≠ .cap)
    (hreporter : t ≠ .reporter) (hfirst : m.head? = some .statement ∨ m.head? = some .cap)
    (hlast : m.getLast? = some .cap → i = l.length)
  /-- Above a block. -/
  | above (hi : i < l.length) (hhat : l.head? ≠ some .hat) (hreporter : l.head? ≠ some .reporter)
    (hfirst : m.head? = some .hat ∨ m.head? = some .statement)
    (hcap : m.getLast? ≠ some .cap) (hlast : m.getLast? ≠ some .reporter)
    (htop : m.head? = some .hat → i = 0)

variable {l m : List BlockType} {t : BlockType} {i : Nat}

/-! ## Bodies -/

theorem isBody_cons : IsBody (t :: l) ↔ (t = .cap ∧ l = []) ∨ (t = .statement ∧ IsBody l) := by
  cases t <;> cases l <;> simp [IsBody]

theorem isBody_append (hm : m ≠ []) : IsBody (l ++ m) ↔ (∀ t ∈ l, t = .statement) ∧ IsBody m := by
  induction l with
  | nil => simp
  | cons t l ih =>
    rw [cons_append, isBody_cons, ih]
    simp [hm, and_assoc]

theorem isBody_of_forall (h : ∀ t ∈ l, t = .statement) : IsBody l := by
  induction l with
  | nil => trivial
  | cons t l ih =>
    rw [isBody_cons]
    exact .inr ⟨h t mem_cons_self, ih fun u hu => h u (mem_cons_of_mem _ hu)⟩

theorem IsBody.append (hl : ∀ t ∈ l, t = .statement) (hm : IsBody m) : IsBody (l ++ m) := by
  by_cases he : m = []
  · rw [he, append_nil]
    exact isBody_of_forall hl
  · exact (isBody_append he).2 ⟨hl, hm⟩

theorem IsBody.forall_of_getLast? (h : IsBody l) (hla : l.getLast? ≠ some .cap) :
    ∀ t ∈ l, t = .statement := by
  induction l with
  | nil => simp
  | cons t l ih =>
    rcases isBody_cons.1 h with ⟨rfl, rfl⟩ | ⟨rfl, hl⟩
    · simp at hla
    · have hr : l.getLast? ≠ some .cap := by
        cases l with
        | nil => simp
        | cons u l => rwa [getLast?_cons_cons] at hla
      intro u hu
      rcases mem_cons.1 hu with rfl | hu
      · rfl
      · exact ih hl hr u hu

theorem IsBody.left (h : IsBody (l ++ m)) : IsBody l := by
  by_cases he : m = []
  · rwa [he, append_nil] at h
  · exact isBody_of_forall ((isBody_append he).1 h).1

theorem IsBody.right (h : IsBody (l ++ m)) : IsBody m := by
  by_cases he : m = []
  · rw [he]
    trivial
  · exact ((isBody_append he).1 h).2

theorem IsBody.take (h : IsBody l) (i : Nat) : IsBody (l.take i) := by
  rw [← take_append_drop i l] at h
  exact h.left

theorem IsBody.drop (h : IsBody l) (i : Nat) : IsBody (l.drop i) := by
  rw [← take_append_drop i l] at h
  exact h.right

theorem IsBody.forall_take (h : IsBody l) (hi : i < l.length) : ∀ t ∈ l.take i, t = .statement := by
  rw [← take_append_drop i l] at h
  refine ((isBody_append fun he => ?_).1 h).1
  have := congrArg length he
  simp only [length_drop, length_nil] at this
  omega

theorem IsBody.eraseIdx (h : IsBody l) (i : Nat) : IsBody (l.eraseIdx i) := by
  by_cases hi : i < l.length
  · rw [eraseIdx_eq_take_drop_succ]
    exact IsBody.append (h.forall_take hi) (h.drop _)
  · rwa [eraseIdx_of_length_le (Nat.le_of_not_lt hi)]

/-! ## Stacks of their own -/

theorem IsBody.isTop (h : IsBody l) (hne : l ≠ []) : IsTop l := .inr (.inr ⟨hne, h⟩)

theorem IsTop.ne_nil (h : IsTop l) : l ≠ [] := by
  rcases h with rfl | ⟨rest, rfl, -⟩ | ⟨hne, -⟩
  · simp
  · simp
  · exact hne

/-- Without a hat and without a reporter, a stack of its own is a body. -/
theorem IsTop.isBody (h : IsTop l) (hh : l.head? ≠ some .hat) (hr : l.head? ≠ some .reporter) :
    IsBody l := by
  rcases h with rfl | ⟨rest, rfl, -⟩ | ⟨-, hl⟩
  · simp at hr
  · simp at hh
  · exact hl

/-- Below the first block of a stack of its own there is a body. -/
theorem IsTop.tail (h : IsTop (t :: l)) : IsBody l := by
  rcases h with h | ⟨rest, h, hl⟩ | ⟨-, hl⟩
  · cases h
    trivial
  · cases h
    exact hl
  · rcases isBody_cons.1 hl with ⟨-, rfl⟩ | ⟨-, hl⟩
    · trivial
    · exact hl

/-- The first block of a stack of its own that has more of them is a hat or a statement. -/
theorem IsTop.head (h : IsTop (t :: l)) (hl : l ≠ []) : t = .hat ∨ t = .statement := by
  rcases h with h | ⟨rest, h, -⟩ | ⟨-, hb⟩
  · cases h
    exact absurd rfl hl
  · cases h
    exact .inl rfl
  · rcases isBody_cons.1 hb with ⟨-, he⟩ | ⟨ht, -⟩
    · exact absurd he hl
    · exact .inr ht

theorem isTop_cons (ht : t = .hat ∨ t = .statement) (hl : IsBody l) : IsTop (t :: l) := by
  rcases ht with rfl | rfl
  · exact .inr (.inl ⟨l, rfl, hl⟩)
  · exact .inr (.inr ⟨cons_ne_nil _ _, hl⟩)

theorem isTop_singleton (t : BlockType) : IsTop [t] := by
  cases t
  · exact .inr (.inl ⟨[], rfl, trivial⟩)
  · exact .inr (.inr ⟨by simp, trivial⟩)
  · exact .inr (.inr ⟨by simp, trivial⟩)
  · exact .inl rfl

/-! ## Cutting -/

theorem IsTop.take (h : IsTop l) (hi : i ≠ 0) : IsTop (l.take i) := by
  obtain ⟨i, rfl⟩ := Nat.exists_eq_succ_of_ne_zero hi
  cases l with
  | nil => exact absurd rfl h.ne_nil
  | cons t l =>
    rw [take_succ_cons]
    by_cases hl : l = []
    · rw [hl, take_nil]
      exact isTop_singleton t
    · exact isTop_cons (h.head hl) (h.tail.take i)

theorem IsTop.drop (h : IsTop l) (hi : i ≠ 0) (hlt : i < l.length) : IsTop (l.drop i) := by
  obtain ⟨i, rfl⟩ := Nat.exists_eq_succ_of_ne_zero hi
  cases l with
  | nil => exact absurd rfl h.ne_nil
  | cons t l =>
    rw [drop_succ_cons]
    refine (h.tail.drop i).isTop fun he => ?_
    have := congrArg length he
    simp only [length_drop, length_nil, length_cons] at this hlt
    omega

theorem IsTop.eraseIdx (h : IsTop l) (hi : i ≠ 0) : IsTop (l.eraseIdx i) := by
  obtain ⟨i, rfl⟩ := Nat.exists_eq_succ_of_ne_zero hi
  cases l with
  | nil => exact absurd rfl h.ne_nil
  | cons t l =>
    rw [eraseIdx_cons_succ]
    by_cases hl : l = []
    · rw [hl, eraseIdx_nil]
      exact isTop_singleton t
    · exact isTop_cons (h.head hl) (h.tail.eraseIdx i)

/-! ## Joining -/

theorem Joins.le_length (h : Joins l m i) : i ≤ l.length := by
  cases h with
  | empty _ hi =>
    rw [hi]
    exact Nat.zero_le _
  | below hi ht =>
    rw [hi]
    exact (List.getElem?_eq_some_iff.1 ht).1
  | above hi => exact Nat.le_of_lt hi

/-- A body with a body inserted below a block of it. -/
theorem IsBody.insert_below (hl : IsBody l) (hm : IsBody m) {k : Nat} (ht : l[k]? = some t)
    (hc : t ≠ .cap) (hla : m.getLast? = some .cap → k + 1 = l.length) :
    IsBody (l.take (k + 1) ++ m ++ l.drop (k + 1)) := by
  have hk : k < l.length := (List.getElem?_eq_some_iff.1 ht).1
  have hta : ∀ u ∈ l.take (k + 1), u = .statement := by
    rw [take_add_one, ht]
    intro u hu
    rcases mem_append.1 hu with hu | hu
    · exact hl.forall_take hk u hu
    · obtain rfl : u = t := by simpa using hu
      have hme : u ∈ l := mem_of_getElem? ht
      rw [← take_append_drop k l] at hl
      have hd := hl.right
      rw [drop_eq_getElem_cons hk, isBody_cons] at hd
      have hg : l[k] = u := (List.getElem?_eq_some_iff.1 ht).2
      rcases hd with ⟨h, -⟩ | ⟨h, -⟩
      · exact absurd (hg.symm.trans h) hc
      · exact hg.symm.trans h
  rw [append_assoc]
  by_cases he : m.getLast? = some .cap
  · rw [drop_of_length_le (Nat.le_of_eq (hla he).symm), append_nil]
    exact IsBody.append hta hm
  · exact IsBody.append hta (IsBody.append (hm.forall_of_getLast? he) (hl.drop _))

/-- Joining a stack where the editor offers it keeps the shape of a stack of its own. -/
theorem Joins.isTop (h : Joins l m i) (hl : IsTop l) (hm : IsTop m) :
    IsTop (l.take i ++ m ++ l.drop i) := by
  cases h with
  | empty he => exact absurd he hl.ne_nil
  | @below k t hi ht hc hr hf hla =>
    have hb : IsBody m := by
      apply hm.isBody
      · rcases hf with h | h <;> simp [h]
      · rcases hf with h | h <;> simp [h]
    rw [hi] at hla ⊢
    cases l with
    | nil => exact absurd rfl hl.ne_nil
    | cons u l =>
      cases k with
      | zero =>
        obtain rfl : u = t := by simpa using ht
        have hu : u = .hat ∨ u = .statement := by
          rcases hl with h | ⟨_, h, -⟩ | ⟨-, h⟩
          · cases h
            exact absurd rfl hr
          · cases h
            exact .inl rfl
          · rcases isBody_cons.1 h with ⟨h, -⟩ | ⟨h, -⟩
            · exact absurd h hc
            · exact .inr h
        simp only [Nat.zero_add, take_succ_cons, take_zero, drop_succ_cons,
          drop_zero, cons_append, nil_append]
        refine isTop_cons hu ?_
        by_cases he : m.getLast? = some .cap
        · have := hla he
          obtain rfl : l = [] := eq_nil_of_length_eq_zero (by simpa using this.symm)
          rwa [append_nil]
        · exact IsBody.append (hb.forall_of_getLast? he) hl.tail
      | succ k =>
        rw [getElem?_cons_succ] at ht
        have hne : l ≠ [] := by
          rintro rfl
          simp at ht
        rw [take_succ_cons, drop_succ_cons, cons_append, cons_append]
        refine isTop_cons (hl.head hne) (hl.tail.insert_below hb ht hc fun he => ?_)
        have := hla he
        simp only [length_cons] at this
        omega
  | above hi hh hr hf hc hla hto =>
    have hb : IsBody l := hl.isBody hh hr
    by_cases hm0 : m.head? = some .hat
    · obtain rfl := hto hm0
      cases m with
      | nil => simp at hm0
      | cons u m =>
        obtain rfl : u = .hat := by simpa using hm0
        rw [take_zero, nil_append, drop_zero, cons_append]
        refine isTop_cons (.inl rfl) (IsBody.append (hm.tail.forall_of_getLast? ?_) hb)
        cases m with
        | nil => simp
        | cons v m => rwa [getLast?_cons_cons] at hc
    · have hm' : IsBody m := hm.isBody hm0 (by rcases hf with h | h <;> simp [h])
      rw [append_assoc]
      refine IsBody.isTop (IsBody.append (hb.forall_take hi)
        (IsBody.append (hm'.forall_of_getLast? hc) (hb.drop i))) ?_
      simp [hm.ne_nil]

/-- Joining a stack that has no hat where the editor offers it keeps the shape of a body. -/
theorem Joins.isBody (h : Joins l m i) (hl : IsBody l) (hm : IsTop m)
    (hh : m.head? ≠ some .hat) : IsBody (l.take i ++ m ++ l.drop i) := by
  cases h with
  | empty he _ hf =>
    subst he
    simpa using hm.isBody hh (by rcases hf with h | h <;> simp [h])
  | below hi ht hc hr hf hla =>
    subst hi
    exact hl.insert_below (hm.isBody hh (by rcases hf with h | h <;> simp [h])) ht hc hla
  | above hi _ _ hf hc =>
    have hm' : IsBody m := hm.isBody hh (by rcases hf with h | h <;> simp [h])
    rw [append_assoc]
    exact IsBody.append (hl.forall_take hi)
      (IsBody.append (hm'.forall_of_getLast? hc) (hl.drop i))

end BlockStudio
