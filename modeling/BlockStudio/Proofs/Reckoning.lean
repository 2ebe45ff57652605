import BlockStudio.Editor.Picture
import BlockStudio.Proofs.Outcome
import BlockStudio.Proofs.Places

/-!
# Faults of reckoning

Some faults are a matter of numbers: a double that overflows, a division by a zoom of zero, a tween
that is asked outside its duration.  `Reckons` says of a result that it can be missing for such a
reason only, and `Sure` says of a step of the editor that it can fail for such a reason only.  What
the camera computes is of this kind as long as its easings are, and so is where a stack is, once it
has a place.
-/

namespace BlockStudio

variable {α β γ : Type} {e e' : Editor} {w : Tween Num} {t : StackId}

/-! ## Results -/

/-- A fault of reckoning with numbers. -/
def Fault.Numeric : Fault → Prop
  | .beyondFloat | .divisionByZero | .floatDivisionByZero | .nanToInteger | .infinityToInteger
  | .easeRange => True
  | _ => False

/-- A result that can be missing for a reason of numbers only. -/
def Reckons (x : Except Fault α) : Prop := ∀ f, x = .error f → f.Numeric

protected theorem Reckons.ok (a : α) : Reckons (.ok a) := nofun

protected theorem Reckons.error {f : Fault} (h : f.Numeric) : Reckons (.error f : Except Fault α) := by
  rintro _ ⟨⟩
  exact h

theorem Reckons.bind {x : Except Fault α} {f : α → Except Fault β} (hx : Reckons x)
    (hf : ∀ a, x = .ok a → Reckons (f a)) : Reckons (x >>= f) := by
  cases x with
  | error g => exact .error (hx g rfl)
  | ok a => exact hf a rfl

protected theorem Reckons.div (a b : Num) : Reckons (a.div b) := by
  unfold Num.div
  split <;> split <;> first | exact .error trivial | exact .ok _

theorem reckons_trunc (n : Num) : Reckons n.trunc := by
  unfold Num.trunc
  split
  · exact .ok _
  · split
    · exact .ok _
    · refine .error ?_
      split <;> trivial

protected theorem Reckons.make (w h : Num) : Reckons (Size.make w h) :=
  (reckons_trunc w).bind fun _ _ => (reckons_trunc h).bind fun _ _ => .ok _

theorem reckons_scaleBy (s : Size) (factor : Num) : Reckons (s.scaleBy factor) :=
  have hs : ∀ n, Reckons (scaleSide n factor) := fun _ => (reckons_trunc _).bind fun _ _ => .ok _
  (hs _).bind fun _ _ => (hs _).bind fun _ _ => .ok _

theorem reckons_within (curve : Float → Float) (n : Num) : Reckons (Ease.within curve n) := by
  unfold Ease.within
  dsimp only
  split
  · exact .ok _
  · exact .error trivial

/-! ## The camera -/

/-- The easing of a tween fails for a reason of numbers only. -/
def Tween.Eased (w : Tween Num) : Prop := ∀ n, Reckons (w.ease n)

theorem Tween.Eased.value (h : w.Eased) : Reckons w.value := by
  unfold Tween.value
  split
  · exact .ok _
  · exact (Reckons.div _ _).bind fun _ _ => (h _).bind fun _ _ => .ok _

theorem Tween.Eased.headFor (h : w.Eased) (target : Num) : Reckons (w.headFor target) :=
  h.value.bind fun _ _ => .ok _

/-- The easings of the camera and of the palette. -/
def Editor.eases (e : Editor) : List (Num → Except Fault Num) :=
  [e.camera.x.ease, e.camera.y.ease, e.camera.zoom.ease, e.scroll.ease]

/-- All easings fail for a reason of numbers only. -/
def Editor.Eased (e : Editor) : Prop := ∀ ease ∈ e.eases, ∀ n, Reckons (ease n)

namespace Editor.Eased

section

variable (h : e.Eased)
include h

theorem x : e.camera.x.Eased := h _ (by simp [eases])

theorem y : e.camera.y.Eased := h _ (by simp [eases])

theorem zoom : e.camera.zoom.Eased := h _ (by simp [eases])

theorem scroll : e.scroll.Eased := h _ (by simp [eases])

theorem congr (heq : e'.eases = e.eases) : e'.Eased := by
  unfold Eased
  rw [heq]
  exact h

theorem toView (p : Point) : Reckons (e.toView p) :=
  h.zoom.value.bind fun _ _ => h.x.value.bind fun _ _ => h.y.value.bind fun _ _ => .ok _

theorem toWorld (p : Point) : Reckons (e.toWorld p) :=
  h.zoom.value.bind fun _ _ => (Reckons.div _ _).bind fun _ _ => h.x.value.bind fun _ _ =>
    (Reckons.div _ _).bind fun _ _ => h.y.value.bind fun _ _ => .ok _

theorem cursorPlace : Reckons e.cursorPlace := h.zoom.value.bind fun _ _ => .ok _

theorem gripAt (held origin : Point) : Reckons (e.gripAt held origin) :=
  h.zoom.value.bind fun _ _ => (Reckons.div _ _).bind fun _ _ => (Reckons.div _ _).bind fun _ _ =>
    .ok _

end

end Editor.Eased

/-! ## Places of stacks -/

theorem reckons_coordinate (n : Num) : Reckons (Value.coordinate (.num n)) := by
  cases n with
  | int n =>
    show Reckons (if _ then _ else _)
    split
    · exact .error trivial
    · exact .ok _
  | float x => exact .ok _

theorem Store.Located.place {s : Store} (h : s.Located t) : Reckons (s.stack t).place := by
  obtain ⟨x, y, hxy⟩ := h
  unfold Stack.place
  rw [hxy]
  exact (reckons_coordinate x).bind fun _ _ => (reckons_coordinate y).bind fun _ _ => .ok _

theorem Editor.Eased.rendering (h : e.Eased) (ht : e.store.Located t) (full : Size) :
    Reckons (e.rendering t full) :=
  h.zoom.value.bind fun _ _ => (reckons_scaleBy _ _).bind fun _ _ => ht.place.bind fun _ _ =>
    (h.toView _).bind fun _ _ => .ok _

/-! ## Steps -/

section FailsOnly

variable {ε σ : Type} {p q : ε → Prop} {x : EStateM ε σ α} {f : α → EStateM ε σ β} {s s' : σ}

/-- From a state, a step fails with such a fault only. -/
def FailsOnly (p : ε → Prop) (m : EStateM ε σ α) (s : σ) : Prop := ∀ f s', m s = .error f s' → p f

/-- A step that ends well. -/
theorem FailsOnly.of_ok {a : α} (h : x s = .ok a s') : FailsOnly p x s := by
  intro f s1 hf
  rw [h] at hf
  cases hf

protected theorem FailsOnly.pure (a : α) : FailsOnly p (pure a : EStateM ε σ α) s :=
  .of_ok (pure_eq_ok.2 ⟨rfl, rfl⟩)

protected theorem FailsOnly.throw {f : ε} (h : p f) : FailsOnly p (throw f : EStateM ε σ α) s := by
  intro g s' hg
  cases (hg : EStateM.Result.error f s = _)
  exact h

protected theorem FailsOnly.modify (g : σ → σ) : FailsOnly p (modify g : EStateM ε σ PUnit) s :=
  .of_ok (a := ⟨⟩) (modify_eq_ok.2 rfl)

protected theorem FailsOnly.set (t : σ) : FailsOnly p (set t : EStateM ε σ PUnit) s :=
  .of_ok (a := ⟨⟩) (set_eq_ok.2 rfl)

theorem FailsOnly.bind (hx : FailsOnly p x s) (hf : ∀ a t, x s = .ok a t → FailsOnly p (f a) t) :
    FailsOnly p (x >>= f) s := by
  intro g s' h
  rcases bind_eq_error.1 h with hx' | ⟨a, t, hx', hf'⟩
  · exact hx g s' hx'
  · exact hf a t hx' g s' hf'

/-- A composed step whose first part only looks at the state. -/
theorem FailsOnly.read (hr : Reads x) (hx : FailsOnly p x s)
    (hf : ∀ a, x s = .ok a s → FailsOnly p (f a) s) : FailsOnly p (x >>= f) s := by
  refine hx.bind fun a t h => ?_
  obtain rfl : t = s := hr.ok h
  exact hf a h

/-- A step that ends well, and what comes after it. -/
theorem FailsOnly.step {a : α} (hx : x s = .ok a s') (hf : FailsOnly p (f a) s') :
    FailsOnly p (x >>= f) s := by
  refine .bind (.of_ok hx) fun b t hb => ?_
  cases hx.symm.trans hb
  exact hf

theorem FailsOnly.map {g : α → β} (hx : FailsOnly p x s) : FailsOnly p (g <$> x) s :=
  hx.bind fun _ _ _ => .pure _

theorem FailsOnly.ite {c : Prop} [Decidable c] {y : EStateM ε σ α} (hx : c → FailsOnly p x s)
    (hy : ¬c → FailsOnly p y s) : FailsOnly p (if c then x else y) s := by
  split
  · exact hx ‹_›
  · exact hy ‹_›

/-- A loop whose body keeps what it needs. -/
theorem FailsOnly.forIn {I : σ → Prop} {g : γ → β → EStateM ε σ (ForInStep β)} (l : List γ) (b : β)
    (hs : I s) (hg : ∀ c ∈ l, ∀ b s, I s → FailsOnly p (g c b) s)
    (hI : ∀ c ∈ l, ∀ b s r s', I s → g c b s = .ok r s' → I s') : FailsOnly p (forIn l b g) s := by
  induction l generalizing b s with
  | nil => exact .pure b
  | cons c l ih =>
    rw [List.forIn_cons]
    refine (hg c List.mem_cons_self b s hs).bind fun r t hr => ?_
    have ht := hI c List.mem_cons_self b s r t hs hr
    cases r with
    | done b => exact .pure b
    | yield b =>
      exact ih b ht (fun c hc => hg c (List.mem_cons_of_mem _ hc)) fun c hc =>
        hI c (List.mem_cons_of_mem _ hc)

end FailsOnly

/-! ### Steps of the editor -/

/-- From a state, a step fails for a reason of numbers only. -/
abbrev Sure (m : Edit α) (e : Editor) : Prop := FailsOnly Fault.Numeric m e

section Edit

variable {p : Fault → Prop}

theorem FailsOnly.ofExcept {r : Except Fault α} (h : ∀ f, r = .error f → p f) :
    FailsOnly p (Edit.ofExcept r) e := fun f _ hf => h f (ofExcept_eq_error.1 hf).1

theorem FailsOnly.ofExcept_bind {r : Except Fault α} {f : α → Edit β} (h : ∀ f, r = .error f → p f)
    (hf : ∀ a, r = .ok a → FailsOnly p (f a) e) : FailsOnly p (Edit.ofExcept r >>= f) e := by
  refine .bind (.ofExcept h) fun a e1 ha => ?_
  obtain ⟨hr, rfl⟩ := ofExcept_eq_ok.1 ha
  exact hf a hr

theorem FailsOnly.sketch {m : Sketch α} (h : FailsOnly p m e.canvas) :
    FailsOnly p (Edit.sketch m) e := by
  intro f e' hf
  unfold Edit.sketch at hf
  cases hs : m e.canvas with
  | ok a c =>
    rw [hs] at hf
    cases hf
  | error g c =>
    rw [hs] at hf
    cases hf
    exact h f c hs

theorem FailsOnly.draw (s : Stroke) : FailsOnly p (Edit.draw s) e := .sketch (.modify _)

protected theorem FailsOnly.modifyStore (g : Store → Store) : FailsOnly p (Edit.modifyStore g) e :=
  .sketch (.modify _)

end Edit

end BlockStudio
