import BlockStudio.Proofs.Outcome
import Mathlib.Data.List.Forall2

/-!
# Steps that end well

`Completes bad P m Q` says that a step from a state with `P` ends well, unless there is something
`bad`; then `P` still holds and the result has the property `Q`.  With `False` for `bad` the step
cannot fail, with `True` nothing is said about faults.  Like `Keeps` it is closed under the ways steps
are put together.
-/

namespace BlockStudio

variable {ε σ α β : Type}

/-- A step from a state with `P` keeps `P` and gives a result with `Q`; it only fails when there is
something `bad`. -/
structure Completes (bad : Prop) (P : σ → Prop) (m : EStateM ε σ α) (Q : α → Prop) : Prop where
  ok : ∀ {s : σ} {a : α} {t : σ}, P s → m s = .ok a t → P t ∧ Q a
  error : ∀ {s : σ} {f : ε} {t : σ}, P s → m s = .error f t → bad

namespace Completes

variable {bad : Prop} {P : σ → Prop} {Q : α → Prop} {R : β → Prop} {m x : EStateM ε σ α}
  {f : α → EStateM ε σ β} {γ : Type}

/-- A step that cannot fail ends well. -/
theorem run (h : Completes False P m Q) {s : σ} (hs : P s) : ∃ a t, m s = .ok a t ∧ P t ∧ Q a := by
  cases hm : m s with
  | ok a t => exact ⟨a, t, rfl, h.ok hs hm⟩
  | error f t => exact (h.error hs hm).elim

/-- A step whose runs end well. -/
theorem of_run (h : ∀ s, P s → ∃ a t, m s = .ok a t ∧ P t ∧ Q a) : Completes bad P m Q := by
  constructor
  · intro s a t hs hm
    obtain ⟨a', t', hm', h⟩ := h s hs
    rw [hm] at hm'
    cases hm'
    exact h
  · intro s f t hs hm
    obtain ⟨a', t', hm', -⟩ := h s hs
    rw [hm] at hm'
    cases hm'

theorem pure {a : α} (h : Q a) : Completes bad P (pure a : EStateM ε σ α) Q :=
  of_run fun s hs => ⟨a, s, rfl, hs, h⟩

theorem get : Completes bad P (get : EStateM ε σ σ) P := of_run fun s hs => ⟨s, s, rfl, hs, hs⟩

theorem modify {g : σ → σ} (h : ∀ s, P s → P (g s)) :
    Completes bad P (modify g : EStateM ε σ PUnit) fun _ => True :=
  of_run fun s hs => ⟨⟨⟩, g s, rfl, h s hs, trivial⟩

theorem throw (f : ε) (h : bad) : Completes bad P (throw f : EStateM ε σ α) Q :=
  ⟨fun _ hm => absurd hm throw_ne_ok, fun _ _ => h⟩

theorem mono {Q' : α → Prop} (h : Completes bad P m Q) (hQ : ∀ a, Q a → Q' a) :
    Completes bad P m Q' :=
  ⟨fun hs hm => ⟨(h.ok hs hm).1, hQ _ (h.ok hs hm).2⟩, h.error⟩

theorem bind (hx : Completes bad P x Q) (hf : ∀ a, Q a → Completes bad P (f a) R) :
    Completes bad P (x >>= f) R := by
  constructor
  · intro s b u hs hm
    obtain ⟨a, t, hxt, hfu⟩ := bind_eq_ok.1 hm
    obtain ⟨ht, ha⟩ := hx.ok hs hxt
    exact (hf a ha).ok ht hfu
  · intro s e u hs hm
    rcases bind_eq_error.1 hm with hxt | ⟨a, t, hxt, hfu⟩
    · exact hx.error hs hxt
    · obtain ⟨ht, ha⟩ := hx.ok hs hxt
      exact (hf a ha).error ht hfu

/-- A composed step whose first part is run for its effect. -/
theorem andThen (hx : Completes bad P x fun _ => True) (hf : ∀ a, Completes bad P (f a) R) :
    Completes bad P (x >>= f) R :=
  hx.bind fun a _ => hf a

/-- A loop whose body changes nothing but the state. -/
theorem forIn {f : γ → PUnit → EStateM ε σ (ForInStep PUnit)} (l : List γ)
    (hf : ∀ c ∈ l, Completes bad P (f c ⟨⟩) (· = .yield ⟨⟩)) :
    Completes bad P (forIn l PUnit.unit f) fun _ => True := by
  induction l with
  | nil => exact .pure trivial
  | cons c l ih =>
    rw [List.forIn_cons]
    refine .bind (hf c List.mem_cons_self) fun r hr => ?_
    rw [hr]
    exact ih fun c hc => hf c (List.mem_cons_of_mem _ hc)

theorem mapM {f : γ → EStateM ε σ β} {S : γ → β → Prop} (l : List γ)
    (hf : ∀ c ∈ l, Completes bad P (f c) (S c)) :
    Completes bad P (l.mapM f) fun bs => List.Forall₂ S l bs := by
  induction l with
  | nil => exact .pure .nil
  | cons c l ih =>
    rw [List.mapM_cons]
    refine .bind (hf c List.mem_cons_self) fun b hb => ?_
    refine .bind (ih fun c hc => hf c (List.mem_cons_of_mem _ hc)) fun bs hbs => ?_
    exact .pure (.cons hb hbs)

end Completes

end BlockStudio
