import BlockStudio.Measure.Fingerprint
import Mathlib

/-!
# Streams and what was fed into them

A stream is made of pieces: the text of a plain value, or the head of a list.  The pieces tell a value apart
from all others (`pieces_append_inj`).  The stream does not keep where one piece ends and the next begins, so it
tells apart only values whose pieces are equally long.
-/

namespace BlockStudio

open Fingerprint List

namespace Sample

/-- Nothing, truth values, integers, texts, and lists of such values nested at most that deep. -/
inductive Simple : Nat → Sample → Prop
  | none {depth : Nat} : Simple depth .none
  | bool {depth : Nat} (b : Bool) : Simple depth (.bool b)
  | int {depth : Nat} (n : Int) : Simple depth (.int n)
  | text {depth : Nat} (s : String) : Simple depth (.text s)
  | list {depth : Nat} {items : List Sample} (hlength : items.length ≤ longest)
    (h : ∀ v ∈ items, Simple depth v) : Simple (depth + 1) (.row "list" items)

/-- The text of a plain value, the head of a list. -/
def piece : Sample → String
  | .none => "None"
  | .bool b => if b then "True" else "False"
  | .int n => Int.repr n
  | .text s => "s" ++ s
  | .row _ items => "L" ++ Nat.repr items.length
  | _ => ""

def items : Sample → List Sample
  | .row _ items => items
  | _ => []

/-- The pieces of a value that is nested at most that deep. -/
def piecesTo : Nat → Sample → List String
  | 0, v => [v.piece]
  | depth + 1, v => v.piece :: v.items.flatMap (piecesTo depth)

/-- The pieces that make up the stream of a value. -/
def pieces (v : Sample) : List String := piecesTo deepest v

end Sample

namespace Fingerprint

theorem utf8_append (s t : String) : utf8 (s ++ t) = utf8 s ++ utf8 t := by
  simp [utf8, String.toByteArray_append, ByteArray.data_append]

theorem utf8_inj {s t : String} (h : utf8 s = utf8 t) : s = t := by
  refine String.toByteArray_inj.1 (ByteArray.ext ?_)
  exact Array.toList_inj.1 h

end Fingerprint

namespace Sample

variable {depth : Nat} {a b v : Sample} {r r' : List String}

/-! ## The stream and its pieces -/

theorem streamTo_eq_pieces (h : v.Simple depth) :
    streamTo (depth + 1) v = (v.piecesTo depth).flatMap utf8 := by
  induction depth generalizing v with
  | zero => cases h <;> simp [streamTo, piecesTo, piece, utf8_append]
  | succ depth ih =>
    rw [piecesTo, flatMap_cons, flatMap_assoc]
    cases h with
    | @list _ row hl h =>
      rw [streamTo, take_of_length_le hl, flatMap_def, map_congr_left fun v hv => ih (h v hv)]
      rfl
    | none | bool | int | text => simp [streamTo, piece, items, utf8_append]

/-! ## The pieces tell values apart -/

/-- What the first letter of a piece says about the value. -/
def sortOf : List Char → Nat
  | 'N' :: _ => 0
  | 'T' :: _ | 'F' :: _ => 1
  | 's' :: _ => 2
  | 'L' :: _ => 3
  | _ => 4

/-- Integers are written with digits and a minus, which no other piece begins with. -/
theorem sortOf_repr (n : Int) : sortOf (Int.repr n).toList = 4 := by
  cases n with
  | ofNat n =>
    show sortOf (Nat.repr n).toList = 4
    rw [Nat.toList_repr]
    cases h : Nat.toDigits 10 n with
    | nil => rfl
    | cons c cs =>
      have hc : c.isDigit = true :=
        Nat.isDigit_of_mem_toDigits (b := 10) (n := n) (by decide) (by decide) (by simp [h])
      unfold sortOf
      split
      all_goals rename_i heq
      case h_6 => rfl
      all_goals
        obtain ⟨rfl, -⟩ := cons.inj heq
        exact absurd hc (by decide)
  | negSucc n => simp [Int.repr, sortOf]

/-- The sort of a value, which its first piece tells. -/
def sort : Sample → Nat
  | .none => 0
  | .bool _ => 1
  | .text _ => 2
  | .row .. => 3
  | _ => 4

theorem sortOf_piece (h : v.Simple depth) : sortOf v.piece.toList = v.sort := by
  cases h with
  | int n => exact sortOf_repr n
  | bool b => cases b <;> rfl
  | none => rfl
  | text | list => simp [piece, sortOf, sort]

/-- Simple values with the same first piece are the same, or lists of the same length. -/
theorem eq_or_lists (ha : a.Simple depth) (hb : b.Simple depth) (h : a.piece = b.piece) :
    a = b ∨ ∃ s t, a = .row "list" s ∧ b = .row "list" t ∧ s.length = t.length := by
  have hs : a.sort = b.sort := by rw [← sortOf_piece ha, ← sortOf_piece hb, h]
  cases ha <;> cases hb <;> try cases hs
  case none.none => exact .inl rfl
  case bool.bool b c => cases b <;> cases c <;> first | exact .inl rfl | exact absurd h (by decide)
  case int.int m n => exact .inl (congrArg _ (Int.repr_inj.1 h))
  case text.text s t => exact .inl (congrArg _ (String.append_right_inj _ |>.1 h))
  case list.list s _ _ t _ _ =>
    exact .inr ⟨s, t, rfl, rfl, Nat.repr_inj.1 (String.append_right_inj _ |>.1 h)⟩

/-- Rows of the same length are told apart item by item, when no item's pieces continue those of another. -/
theorem flatMap_append_inj {f : Sample → List String} {s t : List Sample} (hl : s.length = t.length)
    (hf : ∀ x ∈ s, ∀ y ∈ t, ∀ r r', f x ++ r = f y ++ r' → x = y ∧ r = r')
    (h : s.flatMap f ++ r = t.flatMap f ++ r') : s = t ∧ r = r' := by
  induction s generalizing t with
  | nil =>
    obtain rfl := length_eq_zero_iff.1 hl.symm
    exact ⟨rfl, h⟩
  | cons x s ih =>
    obtain ⟨y, t, rfl⟩ := exists_cons_of_length_eq_add_one hl.symm
    simp only [flatMap_cons, append_assoc] at h
    obtain ⟨rfl, hre⟩ := hf x (by simp) y (by simp) _ _ h
    obtain ⟨rfl, hr⟩ := ih (Nat.succ.inj hl)
      (fun u hu v hv => hf u (.tail _ hu) v (.tail _ hv)) hre
    exact ⟨rfl, hr⟩

/-- No value's pieces continue those of another. -/
theorem pieces_append_inj (ha : a.Simple depth) (hb : b.Simple depth)
    (h : a.piecesTo depth ++ r = b.piecesTo depth ++ r') : a = b ∧ r = r' := by
  induction depth generalizing a b r r' with
  | zero =>
    obtain ⟨hp, hre⟩ := cons.inj h
    rcases eq_or_lists ha hb hp with rfl | ⟨s, t, rfl, -⟩
    · exact ⟨rfl, hre⟩
    · cases ha
  | succ depth ih =>
    obtain ⟨hp, hre⟩ := cons.inj h
    rcases eq_or_lists ha hb hp with rfl | ⟨s, t, rfl, rfl, hl⟩
    · exact ⟨rfl, append_cancel_left hre⟩
    cases ha with
    | list _ hs =>
      cases hb with
      | list _ ht =>
        obtain ⟨rfl, hr⟩ := flatMap_append_inj hl (fun x hx y hy _ _ => ih (hs x hx) (ht y hy)) hre
        exact ⟨rfl, hr⟩

/-- Pieces of the same lengths are not mixed up in the stream. -/
theorem eq_of_flatMap_utf8 {p q : List String}
    (hl : p.map (utf8 · |>.length) = q.map (utf8 · |>.length)) (h : p.flatMap utf8 = q.flatMap utf8) :
    p = q := by
  induction p generalizing q with
  | nil => exact (map_eq_nil_iff.1 hl.symm).symm
  | cons s p ih =>
    obtain ⟨t, q, rfl, hle, hl⟩ := map_eq_cons_iff.1 hl.symm
    obtain ⟨hst, hpq⟩ := append_inj h hle.symm
    rw [utf8_inj hst, ih hl.symm hpq]

/-- Two values built from nothing, truth values, integers, texts and lists (of at most two thousand items, nested
at most eight deep) are told apart by what is fed into their streams, piece by piece.  The streams tell them
apart when the pieces of the one are as long as those of the other. -/
theorem stream_eq_iff (ha : a.Simple deepest) (hb : b.Simple deepest) :
    (a.pieces = b.pieces ↔ a = b) ∧
    (a.pieces.map (utf8 · |>.length) = b.pieces.map (utf8 · |>.length) → (a.stream = b.stream ↔ a = b)) := by
  have hpieces : a.pieces = b.pieces → a = b := fun h =>
    (pieces_append_inj ha hb (congrArg (· ++ ([] : List String)) h)).1
  refine ⟨⟨hpieces, congrArg _⟩, fun hlengths => ⟨fun h => hpieces ?_, congrArg _⟩⟩
  unfold stream at h
  rw [streamTo_eq_pieces ha, streamTo_eq_pieces hb] at h
  exact eq_of_flatMap_utf8 hlengths h

theorem simple_pair (m n : Int) : (row "list" [int m, int n]).Simple deepest := by
  refine .list (by simp [longest]) ?_
  simp only [forall_mem_cons]
  exact ⟨.int m, .int n, nofun⟩

/-- Numbers with as many digits are told apart. -/
theorem stream_of_pair_ne : (row "list" [int 1, int 23]).stream ≠ (row "list" [int 1, int 24]).stream := by
  intro h
  have hiff := (stream_eq_iff (simple_pair 1 23) (simple_pair 1 24)).2 (by decide +kernel)
  simpa using hiff.1 h

/-- The numbers 1 and 23 leave the same stream as 12 and 3, and so the same fingerprint. -/
theorem stream_of_pair_ambiguous : row "list" [int 1, int 23] ≠ row "list" [int 12, int 3] ∧
    (row "list" [int 1, int 23]).Simple deepest ∧ (row "list" [int 12, int 3]).Simple deepest ∧
    (row "list" [int 1, int 23]).stream = (row "list" [int 12, int 3]).stream :=
  ⟨by simp, simple_pair 1 23, simple_pair 12 3, by decide +kernel⟩

end Sample

end BlockStudio
