import BlockStudio.Proofs.Tree

/-!
# Saved trees

The saved form of a block or a stack depends only on the tree that it shows: `Tree.json`.  On the way
through a text only doubles could change, and they do not where numbers are lossless.
-/

namespace BlockStudio

open Json List Json

variable {trees ts : List Tree} {d : Definition} {t : Tree} {p : Option (List Num)} {fuel : Nat}

/-- A number that is the same after it was written and read: an integer, or a finite double that its
text spells. -/
def Num.Lossless : Num → Prop
  | int _ => True
  | float x => x.isNaN = false ∧ x.isInf = false ∧ Json.spelt x = x

namespace Tree

/-- A tree of a block. -/
def IsBlock : Tree → Prop
  | block .. => True
  | _ => False

/-- A tree of blocks of the catalogue with one value for each slot, where stacks hold blocks. -/
def Known : Tree → Prop
  | nothing | truth _ | number _ | text _ => True
  | block d ts => d ∈ Catalogue.blocks ∧ ts.length = d.countInputs ∧ allKnown ts
  | stack _ ts => (∀ t ∈ ts, IsBlock t) ∧ allKnown ts
where
  /-- Trees of blocks of the catalogue. -/
  allKnown : List Tree → Prop
    | [] => True
    | t :: ts => Known t ∧ allKnown ts

theorem allKnown_iff : Known.allKnown ts ↔ ∀ t ∈ ts, t.Known := by
  induction ts with
  | nil => simp [Known.allKnown]
  | cons t ts ih => simp [Known.allKnown, ih]

theorem Known.of_mem_block (h : (block d ts).Known) (ht : t ∈ ts) : t.Known :=
  allKnown_iff.1 h.2.2 t ht

theorem Known.of_mem_stack (h : (stack p ts).Known) (ht : t ∈ ts) : t.Known :=
  allKnown_iff.1 h.2 t ht

/-- All numbers of a tree are lossless. -/
def Lossless : Tree → Prop
  | nothing | truth _ | text _ => True
  | number n => n.Lossless
  | block _ ts => allLossless ts
  | stack p ts => (∀ ns ∈ p, ∀ n ∈ ns, n.Lossless) ∧ allLossless ts
where
  /-- Trees with lossless numbers. -/
  allLossless : List Tree → Prop
    | [] => True
    | t :: ts => Lossless t ∧ allLossless ts

theorem allLossless_iff : Lossless.allLossless ts ↔ ∀ t ∈ ts, t.Lossless := by
  induction ts with
  | nil => simp [Lossless.allLossless]
  | cons t ts ih => simp [Lossless.allLossless, ih]

/-- The saved form of a number. -/
def numberJson : Num → Json
  | .int n => .int n
  | .float x => .float x

/-- The saved form of a place. -/
def placeJson : Option (List Num) → Json
  | none => .null
  | some ns => .array (ns.map numberJson)

/-- The saved form of a tree. -/
def json : Tree → Json
  | nothing => .null
  | truth b => .bool b
  | number n => numberJson n
  | text s => .text s
  | block d ts => .object [("definition", .text d.id), ("values", .array (jsons ts))]
  | stack p ts => .object [("blocks", .array (jsons ts)), ("pos", placeJson p)]
where
  /-- The saved forms of trees. -/
  jsons : List Tree → List Json
    | [] => []
    | t :: ts => json t :: jsons ts

theorem jsons_eq_map (ts : List Tree) : json.jsons ts = ts.map json := by
  induction ts with
  | nil => rfl
  | cons t ts ih => rw [json.jsons, ih, map_cons]

/-! ## Texts -/

theorem mapFloats_numberJson {n : Num} (h : n.Lossless) :
    (numberJson n).mapFloats spelt = numberJson n := by
  cases n with
  | int n => rfl
  | float x => exact congrArg float h.2.2

theorem mapFloats_placeJson (h : ∀ ns ∈ p, ∀ n ∈ ns, n.Lossless) :
    (placeJson p).mapFloats spelt = placeJson p := by
  cases p with
  | none => rfl
  | some ns =>
    simp only [placeJson, mapFloats, mapItems_eq_map, map_map]
    congr 1
    exact map_congr_left fun n hn => mapFloats_numberJson (h ns rfl n hn)

/-- Lossless numbers are read as they were written. -/
theorem mapFloats_json (h : t.Lossless) : t.json.mapFloats spelt = t.json := by
  have hm : ∀ {ts : List Tree}, (∀ t ∈ ts, t.Lossless → t.json.mapFloats spelt = t.json) →
      Lossless.allLossless ts → (ts.map json).map (mapFloats spelt) = ts.map json := by
    intro ts ih hts
    rw [map_map]
    exact map_congr_left fun t ht => ih t ht (allLossless_iff.1 hts t ht)
  induction t with
  | nothing | truth _ | text _ => rfl
  | number n => exact mapFloats_numberJson h
  | block d ts ih =>
    simp [json, mapFloats, mapFloats.mapFields, mapItems_eq_map, jsons_eq_map, putField, hm ih h,
      -map_map]
  | stack p ts ih =>
    simp [json, mapFloats, mapFloats.mapFields, mapItems_eq_map, jsons_eq_map, putField,
      hm ih h.2, mapFloats_placeJson h.1, -map_map]

end Tree

namespace Store

variable {s s' : Store}

/-! ## Projects -/

section Saving

variable {block : BlockId → Except Fault Json} {stack : StackId → Except Fault Json}

theorem savedWith_num (n : Num) : savedWith block stack (.num n) = .ok (Tree.numberJson n) := by
  cases n <;> rfl

theorem mapM_savedWith_num (ns : List Num) :
    (ns.map Value.num).mapM (savedWith block stack) = .ok (ns.map Tree.numberJson) := by
  refine mapM_eq_ok.2 (forall₂_map_left_iff.2 (forall₂_map_right_iff.2 ?_))
  exact forall₂_same.2 fun n _ => savedWith_num n

theorem savedWith_text (names : List String) :
    (names.map Value.text).mapM (savedWith block stack) = .ok (names.map text) := by
  refine mapM_eq_ok.2 (forall₂_map_left_iff.2 (forall₂_map_right_iff.2 ?_))
  exact forall₂_same.2 fun _ _ => rfl

end Saving

/-- The saved form of a project with trees and the names of variables. -/
def projectForm (trees : List Tree) (names : List String) : Json :=
  .object [("stacks", .array (trees.map Tree.json)), ("globals", .array (names.map Json.text))]

theorem mapFloats_projectForm (h : ∀ t ∈ trees, t.Lossless) (names : List String) :
    (projectForm trees names).mapFloats spelt = projectForm trees names := by
  have htr : (trees.map Tree.json).map (mapFloats spelt) = trees.map Tree.json := by
    rw [map_map]
    exact map_congr_left fun t ht => Tree.mapFloats_json (h t ht)
  have hn : (names.map text).map (mapFloats spelt) = names.map text := by
    rw [map_map]
    exact map_congr_left fun _ _ => rfl
  simp [projectForm, mapFloats, mapFloats.mapFields, mapItems_eq_map, putField, htr, hn, -map_map]

/-- The text of a project whose stacks are saved as trees holds these trees and the names of variables. -/
theorem exists_projectText {workspace : List StackId} (names : List String)
    (h : List.Forall₂ (fun t r => s.savedStack r = .ok t.json) trees workspace)
    (hl : ∀ t ∈ trees, t.Lossless) :
    ∃ text, projectText s workspace (names.map .text) = .ok text ∧
      projectJson text = .ok (projectForm trees names) := by
  have hs : workspace.mapM s.savedStack = .ok (trees.map Tree.json) :=
    mapM_eq_ok.2 (forall₂_map_right_iff.2 h.flip)
  refine ⟨(projectForm trees names).write, ?_, ?_⟩
  · rw [projectText, hs, savedWith_text]
    rfl
  · rw [projectJson, parse_write, mapFloats_projectForm hl]

end Store

end BlockStudio
