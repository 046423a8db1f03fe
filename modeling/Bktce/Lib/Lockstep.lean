import Mathlib.Tactic.TypeStar

/-!
# Programs in lockstep

Two programs over a state that may stop, `EStateM ε σ α`, run from states that are related.
`Lockstep R x y` says that they return the same value and leave related states, or stop in the same
way. A program that is in lockstep with itself does not depend on what the relation leaves open.

Results: the rules `Lockstep.pure`, `Lockstep.throw`, `Lockstep.get_bind`, `Lockstep.bind` and
`Lockstep.ite`, and `Lockstep.ok`: where one program returns, the other does.
-/

namespace Bktce.Lib

variable {ε σ α γ : Type}

/-- Results with the same value and related states, or with the same error. -/
def Matches (R : σ → σ → Prop) : EStateM.Result ε σ α → EStateM.Result ε σ α → Prop
  | .ok v s, .ok w t => v = w ∧ R s t
  | .error e _, .error f _ => e = f
  | _, _ => False

/-- The programs do the same from related states. -/
def Lockstep (R : σ → σ → Prop) (x y : EStateM ε σ α) : Prop :=
  ∀ ⦃s t⦄, R s t → Matches R (x.run s) (y.run t)

namespace Lockstep

variable {R : σ → σ → Prop}

theorem ok {x y : EStateM ε σ α} (h : Lockstep R x y) {s t s' : σ} {v : α} (hst : R s t)
    (hx : x.run s = .ok v s') : ∃ t', y.run t = .ok v t' ∧ R s' t' := by
  have hm := h hst
  rw [hx] at hm
  cases hy : y.run t with
  | ok w t' =>
    rw [hy] at hm
    exact ⟨t', by rw [hm.1], hm.2⟩
  | error e t' =>
    rw [hy] at hm
    exact False.elim hm

protected theorem pure (a : α) : Lockstep R (pure a : EStateM ε σ α) (pure a) :=
  fun _ _ hst => ⟨rfl, hst⟩

theorem throw (e : ε) : Lockstep R (throw e : EStateM ε σ α) (throw e) := fun _ _ _ => rfl

theorem get_bind {f g : σ → EStateM ε σ α} (h : ∀ s t, R s t → Lockstep R (f s) (g t)) :
    Lockstep R (get >>= f) (get >>= g) := fun s t hst => h s t hst hst

protected theorem bind {x y : EStateM ε σ α} {f g : α → EStateM ε σ γ} (hx : Lockstep R x y)
    (hf : ∀ v, Lockstep R (f v) (g v)) : Lockstep R (x >>= f) (y >>= g) := by
  intro s t hst
  have hm := hx hst
  rw [EStateM.run_bind, EStateM.run_bind]
  cases hx : x.run s with
  | ok v s' =>
    cases hy : y.run t with
    | ok w t' =>
      rw [hx, hy] at hm
      obtain ⟨rfl, hst'⟩ := hm
      exact hf v hst'
    | error e t' =>
      rw [hx, hy] at hm
      exact False.elim hm
  | error e s' =>
    cases hy : y.run t with
    | ok w t' =>
      rw [hx, hy] at hm
      exact False.elim hm
    | error e' t' =>
      rw [hx, hy] at hm
      exact hm

theorem ite {c : Prop} [Decidable c] {x x' y y' : EStateM ε σ α} (hx : Lockstep R x x')
    (hy : Lockstep R y y') : Lockstep R (if c then x else y) (if c then x' else y') := by
  split
  · exact hx
  · exact hy

end Lockstep

end Bktce.Lib
