import BlockStudio.Language.Store
import Mathlib.Data.Finset.Card

/-!
# Levels of blocks and stacks

What goes through a store level by level has seen every block and stack that it ever sees after as many
levels as the store has blocks and stacks: sets of numbers below a bound that grow step by step, and
stay when they once stay, grow at most as often as the bound says.  `Store.Within` is the case of values
that come to an end below: none of them is nested deeper than the store is large.
-/

namespace BlockStudio

variable {n : Nat} {v : Value}

/-! ## Sets that grow until they stay -/

section Growing

variable {f : Nat → Finset Nat} (hgrow : ∀ n, f n ⊆ f (n + 1))
  (hstay : ∀ n, f n = f (n + 1) → f (n + 1) = f (n + 2))
include hgrow hstay

/-- As long as the sets do not stay, each step adds a number. -/
theorem stays_or_le_card (n : Nat) : f n = f (n + 1) ∨ n ≤ (f n).card := by
  induction n with
  | zero => exact .inr (Nat.zero_le _)
  | succ n ih =>
    by_cases hn : f n = f (n + 1)
    · exact .inl (hstay n hn)
    · have hlt := Finset.card_lt_card ((hgrow n).ssubset_of_ne hn)
      have hle := ih.resolve_left hn
      exact .inr (by omega)

/-- Sets of numbers below `bound` have all their numbers after `bound` steps. -/
theorem subset_of_stays {bound : Nat} (hb : ∀ n, f n ⊆ Finset.range bound) (n : Nat) :
    f n ⊆ f bound := by
  have hm : ∀ m k, f m ⊆ f (m + k) := by
    intro m k
    induction k with
    | zero => exact Finset.Subset.refl _
    | succ k ih => exact ih.trans (hgrow (m + k))
  have hbo : f bound = f (bound + 1) := by
    obtain h | h := stays_or_le_card hgrow hstay bound
    · exact h
    · -- The set is full.
      have hf : f bound = Finset.range bound :=
        Finset.eq_of_subset_of_card_le (hb bound) (by simpa using h)
      exact (hgrow bound).antisymm (by rw [hf]; exact hb _)
  have hs : ∀ k, f (bound + k) = f (bound + k + 1) := by
    intro k
    induction k with
    | zero => exact hbo
    | succ k ih => exact hstay _ ih
  have hl : ∀ k, f (bound + k) = f bound := by
    intro k
    induction k with
    | zero => rfl
    | succ k ih => exact (hs k).symm.trans ih
  obtain hle | hle := Nat.le_total n bound
  · have := hm n (bound - n)
    rwa [Nat.add_sub_cancel' hle] at this
  · have := hl (n - bound)
    rw [Nat.add_sub_cancel' hle] at this
    rw [this]

end Growing

/-! ## Values that come to an end -/

namespace Store

/-- A block or a stack of the store that comes to an end within some levels. -/
def Within (s : Store) : Nat → Value → Prop
  | 0, .block _ | 0, .stack _ => False
  | n + 1, .block b => b.index < s.blocks.size ∧ ∀ v ∈ (s.block b).values, s.Within n v
  | n + 1, .stack t => t.index < s.allStacks.size ∧ ∀ b ∈ s.blocksOf t, s.Within n (.block b)
  | _, _ => True

instance decidableWithin (s : Store) : ∀ n v, Decidable (s.Within n v)
  | 0, .block _ | 0, .stack _ => isFalse id
  | n + 1, .block b =>
    have := decidableWithin s n
    inferInstanceAs (Decidable (b.index < s.blocks.size ∧ ∀ v ∈ (s.block b).values, s.Within n v))
  | n + 1, .stack t =>
    have := fun b => decidableWithin s n (.block b)
    inferInstanceAs (Decidable (t.index < s.allStacks.size ∧ ∀ b ∈ s.blocksOf t, s.Within n (.block b)))
  | 0, .none | 0, .bool _ | 0, .num _ | 0, .complex _ _ | 0, .text _ | 0, .list _ => isTrue trivial
  | _ + 1, .none | _ + 1, .bool _ | _ + 1, .num _ | _ + 1, .complex _ _ | _ + 1, .text _
  | _ + 1, .list _ => isTrue trivial

variable {s : Store}

theorem Within.succ (h : s.Within n v) : s.Within (n + 1) v := by
  induction n generalizing v with
  | zero => cases v <;> first | exact h.elim | trivial
  | succ n ih =>
    cases v with
    | block b => exact ⟨h.1, fun v hv => ih (h.2 v hv)⟩
    | stack t => exact ⟨h.1, fun b hb => ih (h.2 b hb)⟩
    | _ => trivial

theorem Within.mono {m : Nat} (h : s.Within m v) (hmn : m ≤ n) : s.Within n v := by
  induction n, hmn using Nat.le_induction with
  | base => exact h
  | succ n _ ih => exact ih.succ

/-- The block or stack with a number. -/
def node (s : Store) (k : Nat) : Value :=
  if k < s.blocks.size then .block ⟨k⟩ else .stack ⟨k - s.blocks.size⟩

/-- A value that comes to an end is a block or a stack of the store, or at its end already. -/
theorem Within.exists_node (h : s.Within n v) :
    (∃ k < s.blocks.size + s.allStacks.size, s.node k = v) ∨ ∀ m, s.Within m v := by
  cases v with
  | block b =>
    have hb : b.index < s.blocks.size := by
      cases n with
      | zero => exact h.elim
      | succ n => exact h.1
    exact .inl ⟨b.index, by omega, by simp [node, hb]⟩
  | stack t =>
    have ht : t.index < s.allStacks.size := by
      cases n with
      | zero => exact h.elim
      | succ n => exact h.1
    exact .inl ⟨s.blocks.size + t.index, by omega, by simp [node]⟩
  | _ => exact .inr fun m => by cases m <;> trivial

open Classical in
/-- The numbers of the blocks and stacks that come to an end within some levels. -/
noncomputable def nodesWithin (s : Store) (n : Nat) : Finset Nat :=
  (Finset.range (s.blocks.size + s.allStacks.size)).filter fun k => s.Within n (s.node k)

theorem mem_nodesWithin {k : Nat} : k ∈ s.nodesWithin n ↔
    k < s.blocks.size + s.allStacks.size ∧ s.Within n (s.node k) := by
  simp [nodesWithin]

/-- A value that comes to an end does so within as many levels as the store has blocks and stacks. -/
theorem Within.nodes (h : s.Within n v) : s.Within (s.blocks.size + s.allStacks.size) v := by
  have hgrow (n : Nat) : s.nodesWithin n ⊆ s.nodesWithin (n + 1) := by
    intro k hk
    rw [mem_nodesWithin] at hk ⊢
    exact ⟨hk.1, hk.2.succ⟩
  have hstay (n : Nat) (hn : s.nodesWithin n = s.nodesWithin (n + 1)) :
      s.nodesWithin (n + 1) = s.nodesWithin (n + 2) := by
    refine (hgrow (n + 1)).antisymm fun k hk => ?_
    rw [mem_nodesWithin] at hk ⊢
    refine ⟨hk.1, ?_⟩
    have hba : ∀ {v : Value}, s.Within (n + 1) v → s.Within n v := by
      intro v hv
      obtain ⟨j, hj, rfl⟩ | he := hv.exists_node
      · exact (mem_nodesWithin.1 (hn ▸ mem_nodesWithin.2 ⟨hj, hv⟩)).2
      · exact he n
    revert hk
    cases s.node k with
    | block b => exact fun hk => ⟨hk.2.1, fun v hv => hba (hk.2.2 v hv)⟩
    | stack t => exact fun hk => ⟨hk.2.1, fun b hb => hba (hk.2.2 b hb)⟩
    | _ => exact fun _ => trivial
  have hbo (n : Nat) : s.nodesWithin n ⊆ Finset.range (s.blocks.size + s.allStacks.size) :=
    fun k hk => Finset.mem_range.2 (mem_nodesWithin.1 hk).1
  obtain ⟨k, hk, rfl⟩ | he := h.exists_node
  · have hm := subset_of_stays hgrow hstay hbo n (mem_nodesWithin.2 ⟨hk, h⟩)
    exact (mem_nodesWithin.1 hm).2
  · exact he _

theorem Within.depth (h : s.Within n v) : s.Within s.depth v := h.nodes.succ

end Store

end BlockStudio
