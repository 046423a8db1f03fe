import Mathlib.Order.Basic

/-!
# Handles that are opened once

A holder opens a handle, which succeeds with a handle or fails, keeps the last result, and uses
handles. `log` is the sequence of opens and uses, `cur` what the holder keeps.

* `UsesOpened log`: every use is of a handle that an earlier open returned.
* `KeepsFirst log cur`: once an open has succeeded, no open follows, and its handle is the one
  the holder keeps.
* `Held log cur`: the holder keeps only what some open returned.

Results: the rules by which one more event keeps each of them (`…concat_opened`, `…concat_used`,
and `…append_used` for several uses), and `not_keepsFirst_of_reopened`: an open after a successful
one breaks `KeepsFirst`, whatever it returns.
-/

namespace Bktce.Lib.Handle

variable {η : Type}

/-- An open with its result, or a use of a handle; `none` is the null handle. -/
inductive Event (η : Type) where
  | opened (result : Option η)
  | used (handle : Option η)
  deriving DecidableEq

/-- Every use is of a handle that an earlier open returned. -/
def UsesOpened (log : List (Event η)) : Prop :=
  ∀ (i : Nat) (h : Option η), log[i]? = some (Event.used h) →
    ∃ x, h = some x ∧ ∃ j : Nat, j < i ∧ log[j]? = some (Event.opened (some x))

/-- Once an open has succeeded, no open follows and the holder keeps its handle. -/
def KeepsFirst (log : List (Event η)) (cur : Option η) : Prop :=
  ∀ (i : Nat) (x : η), log[i]? = some (Event.opened (some x)) →
    (∀ (j : Nat) (r : Option η), i < j → log[j]? ≠ some (Event.opened r)) ∧ cur = some x

/-- The holder keeps only what an open returned. -/
def Held (log : List (Event η)) (cur : Option η) : Prop :=
  ∀ x, cur = some x → Event.opened (some x) ∈ log

/-- The discipline: handles are used after they are opened, and opened once. -/
structure Disciplined (log : List (Event η)) (cur : Option η) : Prop where
  uses : UsesOpened log
  keeps : KeepsFirst log cur

/-! ## One more event -/

theorem getElem?_concat {log : List (Event η)} {e a : Event η} {i : Nat}
    (h : (log ++ [e])[i]? = some a) : log[i]? = some a ∨ (i = log.length ∧ e = a) := by
  rcases Nat.lt_trichotomy i log.length with hi | hi | hi
  · rw [List.getElem?_append_left hi] at h
    exact Or.inl h
  · rw [hi, List.getElem?_append_right (Nat.le_refl _)] at h
    exact Or.inr ⟨hi, by simpa using h⟩
  · rw [List.getElem?_eq_none (by simp; omega)] at h
    exact absurd h (by simp)

theorem getElem?_concat_of_some {log : List (Event η)} {a : Event η} {i : Nat}
    (h : log[i]? = some a) (e : Event η) : (log ++ [e])[i]? = some a := by
  rw [List.getElem?_append_left (List.getElem?_eq_some_iff.mp h).1]
  exact h

theorem usesOpened_nil : UsesOpened ([] : List (Event η)) := fun i h hi => by simp at hi

theorem UsesOpened.concat_opened {log : List (Event η)} (h : UsesOpened log) (r : Option η) :
    UsesOpened (log ++ [.opened r]) := by
  intro i u hi
  rcases getElem?_concat hi with hi | ⟨-, he⟩
  · obtain ⟨x, hx, j, hj, ho⟩ := h i u hi
    exact ⟨x, hx, j, hj, getElem?_concat_of_some ho _⟩
  · exact absurd he (by simp)

/-- A holder may use what it holds. -/
theorem UsesOpened.concat_used {log : List (Event η)} {x : η} (h : UsesOpened log)
    (hx : Held log (some x)) : UsesOpened (log ++ [.used (some x)]) := by
  intro i u hi
  rcases getElem?_concat hi with hi | ⟨rfl, he⟩
  · obtain ⟨y, hy, j, hj, ho⟩ := h i u hi
    exact ⟨y, hy, j, hj, getElem?_concat_of_some ho _⟩
  · obtain rfl := (Event.used.inj he).symm
    obtain ⟨j, ho⟩ := List.mem_iff_getElem?.mp (hx x rfl)
    exact ⟨x, rfl, j, (List.getElem?_eq_some_iff.mp ho).1, getElem?_concat_of_some ho _⟩

theorem held_nil : Held ([] : List (Event η)) none := fun x h => by simp at h

/-- The holder keeps the result of an open. -/
theorem held_concat_opened (log : List (Event η)) (r : Option η) :
    Held (log ++ [.opened r]) r := fun x h => by simp [h]

theorem Held.append {log : List (Event η)} {cur : Option η} (h : Held log cur)
    (rest : List (Event η)) : Held (log ++ rest) cur :=
  fun x hx => List.mem_append_left _ (h x hx)

theorem keepsFirst_nil : KeepsFirst ([] : List (Event η)) none := fun i x hi => by simp at hi

/-- A holder that keeps nothing may open: no open has succeeded yet. -/
theorem KeepsFirst.concat_opened {log : List (Event η)} (h : KeepsFirst log none) (r : Option η) :
    KeepsFirst (log ++ [.opened r]) r := by
  intro i x hi
  rcases getElem?_concat hi with hi | ⟨rfl, he⟩
  · exact absurd (h i x hi).2 (by simp)
  · refine ⟨fun j u hj hju => ?_, Event.opened.inj he⟩
    rw [List.getElem?_eq_none (by simp; omega)] at hju
    exact absurd hju (by simp)

theorem KeepsFirst.concat_used {log : List (Event η)} {cur : Option η} (h : KeepsFirst log cur)
    (u : Option η) : KeepsFirst (log ++ [.used u]) cur := by
  intro i x hi
  rcases getElem?_concat hi with hi | ⟨-, he⟩
  · refine ⟨fun j r hj hjr => ?_, (h i x hi).2⟩
    rcases getElem?_concat hjr with hjr | ⟨-, he⟩
    · exact (h i x hi).1 j r hj hjr
    · exact absurd he (by simp)
  · exact absurd he (by simp)

/-! ## Several uses -/

theorem UsesOpened.append_used {log : List (Event η)} {x : η} (h : UsesOpened log)
    (hx : Held log (some x)) (k : Nat) :
    UsesOpened (log ++ List.replicate k (.used (some x))) := by
  induction k with
  | zero => rwa [List.replicate_zero, List.append_nil]
  | succ k ih =>
    rw [List.replicate_succ', ← List.append_assoc]
    exact ih.concat_used (hx.append _)

theorem KeepsFirst.append_used {log : List (Event η)} {cur : Option η} (h : KeepsFirst log cur)
    (u : Option η) (k : Nat) : KeepsFirst (log ++ List.replicate k (.used u)) cur := by
  induction k with
  | zero => rwa [List.replicate_zero, List.append_nil]
  | succ k ih =>
    rw [List.replicate_succ', ← List.append_assoc]
    exact ih.concat_used u

/-- An open after a successful one breaks `KeepsFirst`, whatever it returns. -/
theorem not_keepsFirst_of_reopened {log : List (Event η)} {cur : Option η} {x : η}
    (hx : Event.opened (some x) ∈ log) (r : Option η) (rest : List (Event η)) :
    ¬ KeepsFirst (log ++ .opened r :: rest) cur := by
  intro h
  obtain ⟨i, hi⟩ := List.mem_iff_getElem?.mp hx
  have hlt := (List.getElem?_eq_some_iff.mp hi).1
  have hi' : (log ++ .opened r :: rest)[i]? = some (.opened (some x)) := by
    rw [List.getElem?_append_left hlt]; exact hi
  refine (h i x hi').1 log.length r hlt ?_
  rw [List.getElem?_append_right (Nat.le_refl _), Nat.sub_self, List.getElem?_cons_zero]

end Bktce.Lib.Handle
