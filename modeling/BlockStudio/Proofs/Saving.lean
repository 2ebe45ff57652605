import BlockStudio.Project.Document
import BlockStudio.Proofs.BareStore
import BlockStudio.Proofs.JsonText
import BlockStudio.Proofs.Places
import BlockStudio.Proofs.Sprout
import Mathlib.Data.List.Forall2

/-!
# What is saved

`IsSaved` says what the saved form of a block or a stack looks like.  Doubles do not come into it, so
it still holds of what is read back from the text of a project: `projectJson_projectText`.
-/

namespace BlockStudio

open Json List Except Json

variable {n : Nat} {v : Value} {j : Json} {workspace : List StackId} {globals : List Value}
  {text : String}

/-! ## Except -/

section Except

variable {ε α β : Type}

theorem except_bind_eq_ok {x : Except ε α} {f : α → Except ε β} {b : β} :
    (x >>= f) = .ok b ↔ ∃ a, x = .ok a ∧ f a = .ok b := by
  cases x with
  | error e => simp [bind, Except.bind]
  | ok a => simp [bind, Except.bind]

theorem mapM_eq_ok {f : α → Except ε β} {xs : List α} {ys : List β} :
    xs.mapM f = .ok ys ↔ List.Forall₂ (fun x y => f x = .ok y) xs ys := by
  induction xs generalizing ys with
  | nil =>
    rw [mapM_nil, forall₂_nil_left_iff]
    exact ⟨fun h => (Except.ok.inj h).symm, fun h => h ▸ rfl⟩
  | cons x xs ih =>
    rw [mapM_cons, forall₂_cons_left_iff]
    simp only [bind, Except.bind, pure, Except.pure]
    constructor
    · intro h
      split at h
      · cases h
      · next y hy =>
        split at h
        · cases h
        · next ys' hys =>
          cases h
          exact ⟨y, ys', hy, ih.1 hys, rfl⟩
    · rintro ⟨y, ys', hy, hys, rfl⟩
      simp only [hy, ih.2 hys]

end Except

/-! ## Saved forms -/

theorem mapItems_eq_map (f : Float → Float) (items : List Json) :
    mapFloats.mapItems f items = items.map (mapFloats f) := by
  induction items with
  | nil => rfl
  | cons v items ih => rw [mapFloats.mapItems, ih, map_cons]

/-- The saved form of a place: two numbers. -/
def Json.IsPlace (j : Json) : Prop :=
  ∃ x y, j = .array [x, y] ∧ ∃ m n, x.plainValue = .num m ∧ y.plainValue = .num n

theorem Json.IsPlace.mapFloats (f : Float → Float) (h : j.IsPlace) : (j.mapFloats f).IsPlace := by
  have hn : ∀ (j : Json) n, j.plainValue = .num n → ∃ m, (j.mapFloats f).plainValue = .num m := by
    intro j n h
    cases j with
    | int n => exact ⟨_, rfl⟩
    | float x => exact ⟨_, rfl⟩
    | _ => cases h
  obtain ⟨x, y, rfl, m, n, hx, hy⟩ := h
  obtain ⟨m', hx'⟩ := hn x m hx
  obtain ⟨n', hy'⟩ := hn y n hy
  exact ⟨_, _, rfl, m', n', hx', hy'⟩

namespace Store

variable {s src : Store}

theorem slot?_bare (s : Store) (b : BlockId) (i : Nat) : s.bare.slot? b i = s.slot? b i := by
  simp [slot?]

/-- Bare stores tell whether a store is sound. -/
theorem Sound.of_bare (h : s.bare.Sound) : s.Sound where
  row_lt t ht := by simpa using h.row_lt t (by simpa using ht)
  row_inj t u ht hu heq := h.row_inj t u (by simpa using ht) (by simpa using hu) (by simpa using heq)
  mem_row r b hb := by simpa using h.mem_row r b hb
  known b hb := by simpa using h.known b (by simpa using hb)
  length_values b hb := by simpa using h.length_values b (by simpa using hb)
  fits b i c v hc hv := by
    have hf := h.fits b i c v (by simpa using hc) (by rwa [slot?_bare])
    cases v with
    | block b' => simpa [Fits] using hf
    | stack t => simpa [Fits] using hf
    | _ => exact hf
  ranked := by
    obtain ⟨rank, hlt, hs⟩ := h.ranked
    refine ⟨rank, fun b hb => ?_, fun b i c hc => hs b i c (by rwa [slot?_bare])⟩
    simpa using hlt b (by simpa using hb)

/-- The saved form of a literal, or of a block or a stack down to a depth; what lies deeper is saved
as nothing. -/
def IsSaved (src : Store) : Nat → Value → Json → Prop
  | _, .none, j => j = .null
  | _, .bool b, j => j = .bool b
  | _, .text s, j => j = .text s
  | 0, .block _, j => j = .null
  | 0, .stack _, j => j = .null
  | n + 1, .block b, j => ∃ js,
    j = .object [("definition", .text (src.definitionOf b).id), ("values", .array js)] ∧
      List.Forall₂ (IsSaved src n) (src.block b).values js
  | n + 1, .stack t, j => ∃ js pos, j = .object [("blocks", .array js), ("pos", pos)] ∧
      (src.Located t → pos.IsPlace) ∧
      List.Forall₂ (fun b => IsSaved src n (.block b)) (src.blocksOf t) js
  | _, _, _ => False

/-- Doubles do not come into it. -/
theorem IsSaved.mapFloats (f : Float → Float) (h : IsSaved src n v j) :
    IsSaved src n v (j.mapFloats f) := by
  induction n generalizing v j with
  | zero =>
    cases v with
    | none | bool _ | text _ | block _ | stack _ =>
      obtain rfl : j = _ := h
      rfl
    | _ => exact h.elim
  | succ n ih =>
    cases v with
    | none | bool _ | text _ =>
      obtain rfl : j = _ := h
      rfl
    | block b =>
      obtain ⟨js, rfl, hjs⟩ := h
      refine ⟨js.map (mapFloats f), ?_, ?_⟩
      · simp [mapFloats, mapFloats.mapFields, mapItems_eq_map, putField]
      · exact forall₂_map_right_iff.2 (hjs.imp fun _ _ => ih)
    | stack t =>
      obtain ⟨js, pos, rfl, hp, hjs⟩ := h
      refine ⟨js.map (mapFloats f), pos.mapFloats f, ?_, fun ht => (hp ht).mapFloats f, ?_⟩
      · simp [mapFloats, mapFloats.mapFields, mapItems_eq_map, putField]
      · exact forall₂_map_right_iff.2 (hjs.imp fun _ _ => ih)
    | _ => exact h.elim

/-- The saved form of a value that can stand in a slot, given those of blocks and stacks. -/
theorem isSaved_savedWith {block : BlockId → Except Fault Json} {stack : StackId → Except Fault Json}
    (hb : ∀ b j, block b = .ok j → IsSaved src n (.block b) j)
    (hs : ∀ t j, stack t = .ok j → IsSaved src n (.stack t) j) (hv : v.IsNode ∨ v.Literal)
    (h : savedWith block stack v = .ok j) : IsSaved src n v j := by
  cases v with
  | none | bool _ | text _ =>
    cases h
    cases n <;> rfl
  | block b => exact hb b j h
  | stack t => exact hs t j h
  | _ => exact (hv.elim id id).elim

theorem savedBlockTo_succ_eq_ok {b : BlockId} : s.savedBlockTo (n + 1) b = .ok j ↔ ∃ js,
      List.Forall₂ (fun v j => savedWith (s.savedBlockTo n) (s.savedStackTo n) v = .ok j)
        (s.block b).values js ∧
      j = .object [("definition", .text (s.definitionOf b).id), ("values", .array js)] := by
  show (mapM _ _ >>= _) = _ ↔ _
  rw [except_bind_eq_ok]
  refine exists_congr fun js => and_congr mapM_eq_ok ?_
  exact ⟨fun h => (ok.inj h).symm, fun h => h ▸ rfl⟩

theorem savedStackTo_succ_eq_ok {t : StackId} (h : s.savedStackTo (n + 1) t = .ok j) : ∃ js pos,
      List.Forall₂ (fun b j => s.savedBlockTo n b = .ok j) (s.blocksOf t) js ∧
      ((s.stack t).position = none ∧ pos = .null ∨
        ∃ p ps, (s.stack t).position = some p ∧ pos = .array ps ∧ List.Forall₂
          (fun v j => savedWith (s.savedBlockTo n) (s.savedStackTo n) v = .ok j) p ps) ∧
      j = .object [("blocks", .array js), ("pos", pos)] := by
  rw [savedStackTo] at h
  obtain ⟨js, hjs, h⟩ := except_bind_eq_ok.1 h
  have hb := mapM_eq_ok.1 hjs
  cases hp : (s.stack t).position with
  | none =>
    simp only [hp] at h
    exact ⟨js, .null, hb, .inl ⟨rfl, rfl⟩, (ok.inj h).symm⟩
  | some p =>
    simp only [hp] at h
    obtain ⟨pos, hpo, h⟩ := except_bind_eq_ok.1 h
    cases hps : p.mapM (savedWith (s.savedBlockTo n) (s.savedStackTo n)) with
    | error f =>
      rw [hps] at hpo
      cases hpo
    | ok ps =>
      rw [hps] at hpo
      obtain rfl : array ps = pos := ok.inj hpo
      exact ⟨js, _, hb, .inr ⟨p, ps, rfl, rfl, mapM_eq_ok.1 hps⟩, (ok.inj h).symm⟩

/-- What saving down to a depth gives. -/
theorem isSaved_savedTo (hs : s.Sound) (n : Nat) :
    (∀ b j, s.savedBlockTo n b = .ok j → IsSaved s n (.block b) j) ∧
      ∀ t j, s.savedStackTo n t = .ok j → IsSaved s n (.stack t) j := by
  induction n with
  | zero => exact ⟨fun b j h => (ok.inj h).symm, fun t j h => (ok.inj h).symm⟩
  | succ n ih =>
    obtain ⟨hb, hst⟩ := ih
    refine ⟨fun b j h => ?_, fun t j h => ?_⟩
    · obtain ⟨js, hjs, rfl⟩ := savedBlockTo_succ_eq_ok.1 h
      refine ⟨js, rfl, ?_⟩
      have hva : ∀ v ∈ (s.block b).values, v.IsNode ∨ v.Literal := by
        intro v hv
        obtain ⟨i, hi⟩ := getElem?_of_mem hv
        obtain ⟨c, -, hf⟩ := hs.fits_slot? hi
        cases v <;> first | exact .inl trivial | exact .inr hf
      exact ((forall₂_and_left _ _).2 ⟨hva, hjs⟩).imp fun v j h =>
        isSaved_savedWith hb hst h.1 h.2
    · obtain ⟨js, pos, hjs, hp, rfl⟩ := savedStackTo_succ_eq_ok h
      refine ⟨js, pos, rfl, ?_, hjs.imp hb⟩
      rintro ⟨x, y, hxy⟩
      have hn : ∀ {m : Num} {j : Json}, savedWith (s.savedBlockTo n) (s.savedStackTo n) (.num m) =
          .ok j → j.plainValue = .num m := by
        intro m j h
        cases m <;> cases h <;> rfl
      rw [hxy] at hp
      obtain ⟨hp, -⟩ | ⟨_, _, hp, rfl, hps⟩ := hp <;> cases hp
      obtain _ | ⟨hx, _ | ⟨hy, ⟨⟩⟩⟩ := hps
      exact ⟨_, _, rfl, x, y, hn hx, hn hy⟩

/-! ## Projects -/

theorem IsSaved.of_literal (n : Nat) (hv : v.Literal)
    (h : savedWith (s.savedBlockTo n) (s.savedStackTo n) v = .ok j) : IsSaved src 0 v j := by
  cases v with
  | none | bool _ | text _ => exact (ok.inj h).symm
  | _ => exact hv.elim

/-- What is read back from the text of a project: what was written, but for the doubles. -/
theorem projectJson_written (h : projectText s workspace globals = .ok text) : ∃ jsons names,
      projectJson text = .ok (.object [("stacks", .array (jsons.map (mapFloats spelt))),
        ("globals", .array (names.map (mapFloats spelt)))]) ∧
      List.Forall₂ (fun t j => s.savedStackTo s.depth t = .ok j) workspace jsons ∧
      List.Forall₂ (fun v j => savedWith (s.savedBlockTo s.depth) (s.savedStackTo s.depth) v =
        .ok j) globals names := by
  obtain ⟨jsons, hs, h⟩ := except_bind_eq_ok.1 h
  obtain ⟨names, hn, h⟩ := except_bind_eq_ok.1 h
  refine ⟨jsons, names, ?_, mapM_eq_ok.1 hs, mapM_eq_ok.1 hn⟩
  rw [← ok.inj h, projectJson, parse_write]
  simp [mapFloats, mapFloats.mapFields, mapItems_eq_map, putField]

/-- What is read back from the text of a project: an object with the saved stacks and variables. -/
theorem projectJson_projectText (hs : s.Sound) (hg : ∀ v ∈ globals, v.Literal)
    (h : projectText s workspace globals = .ok text) :
    ∃ jsons names,
      projectJson text = .ok (.object [("stacks", .array jsons), ("globals", .array names)]) ∧
      List.Forall₂ (fun t => IsSaved s s.depth (.stack t)) workspace jsons ∧
      List.Forall₂ (IsSaved s 0) globals names := by
  obtain ⟨jsons, names, hj, hst, hn⟩ := projectJson_written h
  refine ⟨_, _, hj, ?_, ?_⟩
  · refine forall₂_map_right_iff.2 (hst.imp fun t j h => ?_)
    exact ((isSaved_savedTo hs s.depth).2 t j h).mapFloats spelt
  · refine forall₂_map_right_iff.2 (((forall₂_and_left _ _).2 ⟨hg, hn⟩).imp ?_)
    exact fun v j h => (IsSaved.of_literal s.depth h.1 h.2).mapFloats spelt

end Store

end BlockStudio
