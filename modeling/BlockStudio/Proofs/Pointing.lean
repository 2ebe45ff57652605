import BlockStudio.Proofs.LoopControl
import BlockStudio.Proofs.Sketching

/-!
# Two searches under a point

A click asks twice what is under it: once for the innermost slot without a block in it, and once for the
slots with blocks in them that lead there.  Both go down the same way, so the path of the second leads
to the block whose slot the first one gives.  This holds for any rectangles, as long as a block has no
more of them than slots.
-/

namespace BlockStudio

open Store List

variable {s : Store} {p : Point} {x b : BlockId} {o o' : Num × Num} {i : Nat} {k : Int} {r : Rect Num}
  {rects : List (Rect Num)}

/-- A rectangle is the first to contain a point. -/
def FirstAt (rects : List (Rect Num)) (px py : Num) (i : Nat) : Prop :=
  (∃ r, rects[i]? = some r ∧ r.contains px py = true) ∧
    ∀ j < i, ∀ r, rects[j]? = some r → r.contains px py = false

theorem firstHit_eq_some {px py : Num} (h : firstHit rects px py = some (i, r)) :
    rects[i]? = some r ∧ FirstAt rects px py i := by
  obtain ⟨⟨r, i⟩, hf, heq⟩ := Option.map_eq_some_iff.1 h
  cases heq
  obtain ⟨hc, before, after, hli, hb⟩ := find?_eq_some_iff_append.1 hf
  have hr := mem_zipIdx_iff_getElem?.1 (mem_of_find?_eq_some hf)
  have hl : i = before.length := by
    have hi := congrArg (·[before.length]?) hli
    simp only [getElem?_zipIdx, Option.map_eq_some_iff, Nat.zero_add, getElem?_append_right
      (Nat.le_refl _), Nat.sub_self, getElem?_cons_zero] at hi
    obtain ⟨_, -, heq⟩ := hi
    exact (congrArg Prod.snd heq).symm
  refine ⟨hr, ⟨r, hr, hc⟩, fun j hj r' hr' => ?_⟩
  have hm : (r', j) ∈ before := by
    have hj' := congrArg (·[j]?) hli
    simp only [getElem?_zipIdx, hr', Option.map_some, Nat.zero_add,
      getElem?_append_left (hl ▸ hj)] at hj'
    exact mem_of_getElem? hj'.symm
  simpa using hb (r', j) hm

theorem firstHit_eq_none {px py : Num} (h : firstHit rects px py = none) :
    ∀ r ∈ rects, r.contains px py = false := by
  intro r hr
  obtain ⟨i, hi⟩ := getElem?_of_mem hr
  have hn := find?_eq_none.1 (Option.map_eq_none_iff.1 h) (r, i) (mem_zipIdx_iff_getElem?.2 hi)
  simpa using hn

namespace Store

/-- Follow a path of slots with blocks in them: the block at its end, and where that is taken to be when
the first one is taken to be at a place. -/
def along (s : Store) : BlockId → Num × Num → List Nat → Option (BlockId × Num × Num)
  | b, o, [] => some (b, o)
  | b, o, i :: path =>
    match s.slot? b i, (s.block b).slotRects[i]? with
    | some (.block inner), some r => s.along inner (o.1 + r.x, o.2 + r.y - halfGap) path
    | _, _ => none

/-- The innermost slot under a point is one of a block that is taken to be at a place: its first slot
under the point, if there is one. -/
def SpotIn (s : Store) (p : Point) (k : Int) (b : BlockId) (o : Num × Num) (spot : Option Spot) : Prop :=
  (spot = none ∧ ∀ r ∈ (s.block b).slotRects, r.contains (p.x - o.1) (p.y - o.2) = false) ∨
    ∃ i v, spot = some ⟨b, i, k⟩ ∧ FirstAt (s.block b).slotRects (p.x - o.1) (p.y - o.2) i ∧
      s.slot? b i = some v ∧ ∀ inner, v ≠ .block inner

theorem searchesTo_agree {fuel : Nat} {tree : Tree} (ht : s.Shows tree (.block x))
    (hfu : tree.height ≤ fuel) (hre : ∀ b, Relation.ReflTransGen s.Contains (.block x) (.block b) →
      (s.block b).slotRects.length ≤ (s.block b).values.length) :
    ∃ path b o' spot, s.pathAtTo p fuel x o.1 o.2 = .ok path ∧ s.along x o path = some (b, o') ∧
      s.spotAtTo k p fuel x o.1 o.2 = .ok spot ∧ s.SpotIn p k b o' spot := by
  induction fuel generalizing tree x o with
  | zero =>
    obtain ⟨ts, rfl, -⟩ := ht.exists_block
    exact absurd hfu (Nat.not_succ_le_zero _)
  | succ fuel ih =>
    unfold pathAtTo spotAtTo
    rcases hf : firstHit (s.block x).slotRects (p.x - o.1) (p.y - o.2) with _ | ⟨i, r⟩
    · exact ⟨[], x, o, none, rfl, rfl, rfl, .inl ⟨rfl, firstHit_eq_none hf⟩⟩
    obtain ⟨hr, hat⟩ := firstHit_eq_some hf
    obtain ⟨hi, -⟩ := List.getElem?_eq_some_iff.1 hr
    obtain ⟨v, hv⟩ : ∃ v, (s.block x).values[i]? = some v :=
      ⟨_, getElem?_eq_getElem (hi.trans_le (hre x .refl))⟩
    simp only [hv]
    cases v with
    | block inner =>
      obtain ⟨u, hu, hlt⟩ := exists_tree_of_slot ht hv
      obtain ⟨path, b, o', spot, hp, ha, hs, hin⟩ :=
        ih (o := (o.1 + r.x, o.2 + r.y - halfGap)) hu (Nat.le_of_lt_succ (hlt.trans_le hfu)) fun b hb =>
          hre b (.head (.slot hv) hb)
      refine ⟨i :: path, b, o', spot, ?_, ?_, hs, hin⟩
      · simp only [hp, bind, Except.bind]
        rfl
      · simpa only [along, slot?, hv, hr] using ha
    | _ => exact ⟨[], x, o, _, rfl, rfl, rfl, .inr ⟨i, _, rfl, hat, hv, by simp⟩⟩

/-- In a tree of blocks with any rectangles, not more than slots, and from any place: the path to a point
leads through blocks to one whose first slot under the point, which holds no block, is the innermost
slot there; without such a slot there is none. -/
theorem searches_agree {tree : Tree} (htree : s.Shows tree (.block x))
    (hrects : ∀ b, Relation.ReflTransGen s.Contains (.block x) (.block b) →
      (s.block b).slotRects.length ≤ (s.block b).values.length) (p : Point) (k : Int) (dx dy : Num) :
    ∃ path b o spot, s.pathAt x p dx dy = .ok path ∧ s.along x (dx, dy) path = some (b, o) ∧
      s.spotAt x k p dx dy = .ok spot ∧ s.SpotIn p k b o spot :=
  searchesTo_agree (o := (dx, dy)) htree htree.height_lt_depth.le hrects

/-- A sum in a sum: the slots of the outer one overlap, and one slot of the inner one was never drawn. -/
def nestedSum : Store :=
  { empty with blocks := #[
    { definition := Run.named "+", values := [.int 1, .int 2], slots := [⟨0, 0, 9, 9⟩] },
    { definition := Run.named "+", values := [.block ⟨0⟩, .int 3],
      slots := [⟨0, 0, 40, 20⟩, ⟨30, 0, 40, 20⟩] }] }

/-- The overlapping slots are under the point, and the inner sum is searched. -/
theorem searches_agree_in_nestedSum :
    (∀ b, Relation.ReflTransGen nestedSum.Contains (.block ⟨1⟩) (.block b) →
      (nestedSum.block b).slotRects.length ≤ (nestedSum.block b).values.length) ∧
    ∃ path b o spot, nestedSum.pathAt ⟨1⟩ ⟨35, 2⟩ 0 0 = .ok path ∧
      nestedSum.along ⟨1⟩ (0, 0) path = some (b, o) ∧
      nestedSum.spotAt ⟨1⟩ 7 ⟨35, 2⟩ 0 0 = .ok spot ∧ nestedSum.SpotIn ⟨35, 2⟩ 7 b o spot := by
  have hrects : ∀ b, Relation.ReflTransGen nestedSum.Contains (.block ⟨1⟩) (.block b) →
      (nestedSum.block b).slotRects.length ≤ (nestedSum.block b).values.length := by
    rintro ⟨_ | _ | n⟩ -
    · exact Nat.le_succ 1
    · exact Nat.le_refl 2
    · exact Nat.zero_le _
  have htree : nestedSum.Shows (.block (Run.named "+")
      [.block (Run.named "+") [.number 1, .number 2], .number 3]) (.block ⟨1⟩) :=
    ⟨⟨1⟩, rfl, Nat.lt_succ_self 1, rfl, _, _, rfl,
      ⟨⟨0⟩, rfl, Nat.zero_lt_two, rfl, _, _, rfl, rfl, _, _, rfl, rfl, rfl⟩, _, _, rfl, rfl, rfl⟩
  exact ⟨hrects, searches_agree htree hrects ⟨35, 2⟩ 7 0 0⟩

end Store

end BlockStudio
