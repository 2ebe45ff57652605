import BlockStudio.Editor.State
import Mathlib.Order.Defs.Unbundled

/-!
# Outcomes of steps

A step of the editor, of a sketch or of the building of the store is a computation on a state that
can fail, and what it changed before a fault stays.  Two tools open such computations.  Inversion
lemmas take a run that ended well apart into the runs of its parts.  `Keeps R` says that a step
takes a state only to related ones, however it ends; it is closed under all the ways steps are put
together, so a relation that holds across the smallest steps holds across whole events.
-/

namespace BlockStudio

open EStateM.Result

variable {ε σ α β : Type} {e e' : Editor} {γ : Type} {x y m : EStateM ε σ α}
  {f : α → EStateM ε σ β} {s s' t : σ} {b : β} {a : α} {g : σ → σ} {u : PUnit}

/-! ## Inversion of runs that end well -/

theorem bind_eq_ok : (x >>= f) s = .ok b s' ↔ ∃ a t, x s = .ok a t ∧ f a t = .ok b s' := by
  show EStateM.bind x f s = _ ↔ _
  unfold EStateM.bind
  cases hx : x s with
  | ok a t => grind
  | error f t => simp

theorem bind_eq_error {e : ε} : (x >>= f) s = .error e s' ↔
      x s = .error e s' ∨ ∃ a t, x s = .ok a t ∧ f a t = .error e s' := by
  show EStateM.bind x f s = _ ↔ _
  unfold EStateM.bind
  cases hx : x s with
  | ok a t => grind
  | error f t => simp

/-- How a composed step runs depends on the run of its first part only. -/
theorem bind_run_congr (h : x s = y t) (f : α → EStateM ε σ β) : (x >>= f) s = (y >>= f) t := by
  show EStateM.bind x f s = EStateM.bind y f t
  simp only [EStateM.bind, h]

theorem map_eq_ok {f : α → β} : (f <$> x) s = .ok b s' ↔ ∃ a, x s = .ok a s' ∧ f a = b := by
  show EStateM.map f x s = _ ↔ _
  unfold EStateM.map
  cases hx : x s with
  | ok a t => grind
  | error f t => simp

/-- A composed step, by the outcome of its first part. -/
theorem bind_run (x : EStateM ε σ α) (f : α → EStateM ε σ β) (s : σ) : (x >>= f) s = match x s with
      | .ok a t => f a t
      | .error e t => .error e t := by
  show EStateM.bind x f s = _
  unfold EStateM.bind
  cases x s <;> rfl

theorem get_bind (f : σ → EStateM ε σ β) (s : σ) : (get >>= f) s = f s s := rfl

theorem set_bind (t : σ) (f : PUnit → EStateM ε σ β) (s : σ) : (set t >>= f) s = f () t := rfl

theorem modify_bind (g : σ → σ) (f : PUnit → EStateM ε σ β) (s : σ) :
    (modify g >>= f) s = f () (g s) := rfl

theorem pure_eq_ok {b : α} : (pure a : EStateM ε σ α) s = .ok b s' ↔ a = b ∧ s = s' := by
  show ok a s = _ ↔ _
  simp

theorem throw_ne_ok {f : ε} : (throw f : EStateM ε σ α) s ≠ .ok a s' := by
  show error f s ≠ _
  simp

theorem modify_eq_ok : (modify g : EStateM ε σ PUnit) s = .ok u s' ↔ g s = s' := by
  show ok PUnit.unit (g s) = _ ↔ _
  simp

theorem set_eq_ok : (set t : EStateM ε σ PUnit) s = .ok u s' ↔ t = s' := by
  show ok PUnit.unit t = _ ↔ _
  simp

theorem tryCatch_eq_ok {f : ε → EStateM ε σ α} : tryCatch x f s = .ok a s' ↔
      x s = .ok a s' ∨ ∃ e t, x s = .error e t ∧ f e t = .ok a s' := by
  show EStateM.tryCatch x f s = _ ↔ _
  delta EStateM.tryCatch
  cases hx : x s with
  | ok b t => simp
  | error e t =>
    refine ⟨fun h => .inr ⟨e, t, rfl, h⟩, ?_⟩
    rintro (h | ⟨_, _, h, hf⟩) <;> cases h
    exact hf

theorem ofExcept_eq_ok {x : Except Fault α} : Edit.ofExcept x e = .ok a e' ↔ x = .ok a ∧ e = e' := by
  cases x with
  | ok b => simp [Edit.ofExcept, pure_eq_ok]
  | error f => simp [Edit.ofExcept, throw_ne_ok]

theorem ofExcept_eq_error {x : Except Fault α} {f : Fault} :
    Edit.ofExcept x e = .error f e' ↔ x = .error f ∧ e = e' := by
  cases x with
  | ok b => exact iff_of_false nofun nofun
  | error f =>
    show error f e = _ ↔ _
    simp

theorem ofExcept_bind_eq_ok {x : Except Fault α} {f : α → Edit β} :
    (Edit.ofExcept x >>= f) e = .ok b e' ↔ ∃ a, x = .ok a ∧ f a e = .ok b e' := by
  rw [bind_eq_ok]
  constructor
  · rintro ⟨a, t, hx, hf⟩
    obtain ⟨hok, rfl⟩ := ofExcept_eq_ok.1 hx
    exact ⟨a, hok, hf⟩
  · rintro ⟨a, hx, hf⟩
    exact ⟨a, e, ofExcept_eq_ok.2 ⟨hx, rfl⟩, hf⟩

/-- A step ends well, in a state with a property. -/
def endsIn (m : EStateM ε σ α) (s : σ) (p : σ → Bool) : Bool :=
  match m s with
  | .ok _ t => p t
  | .error _ _ => false

theorem exists_of_endsIn {p : σ → Bool} (h : endsIn m s p = true) :
    ∃ a t, m s = .ok a t ∧ p t = true := by
  unfold endsIn at h
  split at h
  case h_1 a t hm => exact ⟨a, t, hm, h⟩
  case h_2 => cases h

/-! ## Relations kept by steps -/

/-- The state in which a step ends, however it ends. -/
def endState : EStateM.Result ε σ α → σ
  | .ok _ s => s
  | .error _ s => s

/-- A step takes a state only to related ones, however it ends. -/
structure Keeps (R : σ → σ → Prop) (m : EStateM ε σ α) : Prop where
  /-- The state a run begins with is related to the one it ends in. -/
  run (s : σ) : R s (endState (m s))

/-- A view of the state that is the same in both states. -/
def Same {τ : Type} (view : σ → τ) (s s' : σ) : Prop := view s' = view s

instance {τ : Type} (view : σ → τ) : IsPreorder σ (Same view) where
  refl _ := rfl
  trans _ _ _ h k := Eq.trans k h

/-- A step that only looks at the state. -/
abbrev Reads (m : EStateM ε σ α) : Prop := Keeps (Same id) m

variable {R : σ → σ → Prop} {p : σ → Prop} {c : Prop}

theorem Keeps.ok (h : Keeps R m) (hm : m s = .ok a s') : R s s' := by
  have := h.run s
  rwa [hm] at this

theorem Keeps.error (h : Keeps R m) {f : ε} (hm : m s = .error f s') : R s s' := by
  have := h.run s
  rwa [hm] at this

theorem Keeps.mono {Q : σ → σ → Prop} (h : Keeps R m) (hRQ : ∀ s s', R s s' → Q s s') : Keeps Q m :=
  ⟨fun s => hRQ _ _ (h.run s)⟩

/-- What is a part of a view is kept when the view is. -/
theorem Keeps.part {τ υ : Type} {view : σ → τ} {w : σ → υ} (h : Keeps (Same view) m) (g : τ → υ)
    (hg : ∀ s, w s = g (view s)) : Keeps (Same w) m :=
  h.mono fun s s' hs => by
    rw [Same, hg, hg]
    exact congrArg g hs

theorem Keeps.modify (h : ∀ s, R s (g s)) : Keeps R (modify g : EStateM ε σ PUnit) := ⟨fun s => h s⟩

theorem Keeps.modifyGet {g : σ → α × σ} (h : ∀ s, R s (g s).2) :
    Keeps R (modifyGet g : EStateM ε σ α) :=
  ⟨fun s => h s⟩

theorem Keeps.ite [Decidable c] (hx : c → Keeps R x) (hy : ¬c → Keeps R y) :
    Keeps R (if c then x else y) := by
  split
  · exact hx ‹_›
  · exact hy ‹_›

/-- A composed step whose first part only looks at the state. -/
theorem Reads.run_bind (hx : Reads x) (hs : p s) (hf : ∀ a, x s = .ok a s → p (endState (f a s))) :
    p (endState ((x >>= f) s)) := by
  rw [bind_run]
  cases h : x s with
  | error e t =>
    obtain rfl : t = s := hx.error h
    exact hs
  | ok a t =>
    obtain rfl : t = s := hx.ok h
    exact hf a h

theorem Reads.bind_eq_ok (hx : Reads x) (h : (x >>= f) s = .ok b s') :
    ∃ a, x s = .ok a s ∧ f a s = .ok b s' := by
  obtain ⟨a, t, hxt, hf⟩ := BlockStudio.bind_eq_ok.1 h
  obtain rfl : t = s := hx.ok hxt
  exact ⟨a, hxt, hf⟩

theorem run_ite [Decidable c] (hx : c → p (endState (x s))) (hy : ¬c → p (endState (y s))) :
    p (endState ((if c then x else y) s)) := by
  split
  · exact hx ‹_›
  · exact hy ‹_›

theorem Keeps.map {f : α → β} (hx : Keeps R x) : Keeps R (f <$> x) := by
  constructor
  intro s
  show R s (endState (EStateM.map f x s))
  unfold EStateM.map
  cases h : x s with
  | ok a t => exact hx.ok h
  | error e t => exact hx.error h

variable [IsPreorder σ R]

theorem Keeps.pure (a : α) : Keeps R (pure a : EStateM ε σ α) := ⟨fun s => refl s⟩

theorem Reads.keeps (h : Reads m) : Keeps R m :=
  h.mono fun s s' hs => by
    obtain rfl : s' = s := hs
    exact refl s'

theorem Keeps.throw (f : ε) : Keeps R (throw f : EStateM ε σ α) := ⟨fun s => refl s⟩

theorem Keeps.throw_bind (e : ε) (f : α → EStateM ε σ β) :
    Keeps R ((MonadExcept.throw e : EStateM ε σ α) >>= f) :=
  ⟨fun s => refl s⟩

theorem Keeps.get : Keeps R (get : EStateM ε σ σ) := ⟨fun s => refl s⟩

/-- A composed step from one state, where the second part can use what the first one did. -/
theorem run_bind (hx : R s (endState (x s)))
    (hf : ∀ a t, x s = .ok a t → R s t → R t (endState (f a t))) : R s (endState ((x >>= f) s)) := by
  rw [bind_run]
  cases h : x s <;> rw [h] at hx
  · exact Trans.trans hx (hf _ _ h hx)
  · exact hx

theorem Keeps.bind (hx : Keeps R x) (hf : ∀ a, Keeps R (f a)) : Keeps R (x >>= f) :=
  ⟨fun s => run_bind (hx.run s) fun a t _ _ => (hf a).run t⟩

theorem Keeps.forIn {f : γ → β → EStateM ε σ (ForInStep β)} (l : List γ) (b : β)
    (hf : ∀ c ∈ l, ∀ b, Keeps R (f c b)) : Keeps R (forIn l b f) := by
  induction l generalizing b with
  | nil => exact .pure b
  | cons c l ih =>
    rw [List.forIn_cons]
    refine .bind (hf c List.mem_cons_self b) fun r => ?_
    cases r with
    | done b => exact .pure b
    | yield b => exact ih b fun c hc => hf c (List.mem_cons_of_mem _ hc)

/-- A loop without breaks. -/
theorem forIn_eq_forM (f : γ → EStateM ε σ PUnit) (l : List γ) : (forIn l PUnit.unit fun c _ => do
      f c
      pure (ForInStep.yield PUnit.unit)) = l.forM f := by
  induction l with
  | nil => rfl
  | cons c l ih =>
    simp only [List.forIn_cons, bind_assoc, pure_bind, ih]
    rfl

theorem Keeps.forM {f : γ → EStateM ε σ PUnit} (l : List γ) (hf : ∀ c ∈ l, Keeps R (f c)) :
    Keeps R (l.forM f) := by
  induction l with
  | nil => exact .pure _
  | cons c l ih =>
    exact .bind (hf c List.mem_cons_self) fun _ => ih fun c hc => hf c (List.mem_cons_of_mem _ hc)

theorem Keeps.mapM {f : γ → EStateM ε σ β} (l : List γ) (hf : ∀ c ∈ l, Keeps R (f c)) :
    Keeps R (l.mapM f) := by
  induction l with
  | nil => exact .pure []
  | cons c l ih =>
    rw [List.mapM_cons]
    exact .bind (hf c List.mem_cons_self) fun _ =>
      .bind (ih fun c hc => hf c (List.mem_cons_of_mem _ hc)) fun _ => .pure _

theorem Keeps.ofExcept {R : Editor → Editor → Prop} [IsPreorder Editor R] (x : Except Fault α) :
    Keeps R (Edit.ofExcept x) := by
  cases x with
  | ok a => exact .pure a
  | error f => exact .throw f

/-- What a sketch keeps of the canvas, the editor that it is drawn in keeps. -/
theorem Keeps.sketch {Q : Canvas → Canvas → Prop} {R : Editor → Editor → Prop} {s : Sketch α}
    (hs : Keeps Q s) (hQR : ∀ (e : Editor) (c : Canvas), Q e.canvas c → R e { e with canvas := c }) :
    Keeps R (Edit.sketch s) := by
  constructor
  intro e
  unfold Edit.sketch
  cases h : s e.canvas with
  | ok a c => exact hQR e c (hs.ok h)
  | error f c => exact hQR e c (hs.error h)

theorem sketch_eq_ok {s : Sketch α} {e e' : Editor} :
    Edit.sketch s e = .ok a e' ↔ ∃ canvas, s e.canvas = .ok a canvas ∧ e' = { e with canvas } := by
  unfold Edit.sketch
  cases s e.canvas with
  | ok b canvas =>
    constructor
    · rintro ⟨⟩
      exact ⟨canvas, rfl, rfl⟩
    · rintro ⟨_, ⟨⟩, rfl⟩
      rfl
  | error f canvas => simp

/-! ## Steps that end well -/

/-- From states with the property `p`, a step that ends well leads to results with the property
`q`. -/
def Leads (p : σ → Prop) (m : EStateM ε σ α) (q : α → σ → Prop) : Prop :=
  ∀ s a s', p s → m s = .ok a s' → q a s'

end BlockStudio
