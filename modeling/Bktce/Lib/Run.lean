/-!
# Runs of a labelled transition relation

`Run step s as s'`: the steps with the labels `as` lead from `s` to `s'`.

Results:

* `Run.invariant`: what every step keeps holds at the end of a run.
* `Run.eq`: a run of steps that lead to one state leads to one state.
* `Run.guarantee`: what every step with an allowed label guarantees, whatever step it is, a run with
  such labels guarantees too.
-/

namespace Bktce.Lib

variable {σ α : Type} {step : α → σ → σ → Prop}

/-- The steps labelled `as` lead from one state to another. -/
inductive Run (step : α → σ → σ → Prop) : σ → List α → σ → Prop
  | nil (s : σ) : Run step s [] s
  | cons {a : α} {as : List α} {s s' s'' : σ} (head : step a s s') (tail : Run step s' as s'') :
      Run step s (a :: as) s''

namespace Run

variable {a : α} {as bs : List α} {s s' s'' : σ}

theorem single (h : step a s s') : Run step s [a] s' := .cons h (.nil s')

theorem append (h : Run step s as s') : Run step s' bs s'' → Run step s (as ++ bs) s'' := by
  induction h with
  | nil s => exact fun h' => h'
  | cons head _ ih => exact fun h' => .cons head (ih h')

/-- Where each step leads to one state, a run does. -/
theorem eq (hdet : ∀ a s s' s'', step a s s' → step a s s'' → s' = s'') (h : Run step s as s') :
    ∀ {s''}, Run step s as s'' → s' = s'' := by
  induction h with
  | nil s =>
    rintro _ ⟨⟩
    rfl
  | cons head _ ih =>
    rintro s'' (_ | ⟨head', tail'⟩)
    cases hdet _ _ _ _ head head'
    exact ih tail'

/-- **The invariant rule.** -/
theorem invariant {I : σ → Prop} (hstep : ∀ a s s', I s → step a s s' → I s')
    (h : Run step s as s') :
    I s → I s' := by
  induction h with
  | nil s => exact fun hs => hs
  | cons head _ ih => exact fun hs => ih (hstep _ _ _ hs head)

/-- **The guarantee rule.** -/
theorem guarantee {I : σ → Prop} {allowed : α → Prop} {R : σ → σ → Prop} (hrefl : ∀ s, R s s)
    (htrans : ∀ s s' s'', R s s' → R s' s'' → R s s'')
    (hstep : ∀ a s s', I s → step a s s' → I s' ∧ (allowed a → R s s')) (h : Run step s as s') :
    I s → (∀ a ∈ as, allowed a) → R s s' := by
  induction h with
  | nil s => exact fun _ _ => hrefl s
  | cons head _ ih =>
    intro hs hallowed
    obtain ⟨hs', hR⟩ := hstep _ _ _ hs head
    exact htrans _ _ _ (hR (hallowed _ List.mem_cons_self))
      (ih hs' fun a ha => hallowed a (List.mem_cons_of_mem _ ha))

end Run

end Bktce.Lib
