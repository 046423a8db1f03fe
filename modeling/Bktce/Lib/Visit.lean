import Mathlib.Data.List.Infix

/-!
# Offering a sequence of items to a callback

A *visitor* hands the items of a list, in order, to a callback that updates a state. The callback
answers with a code: the distinguished code `ok` asks for the next item, any other code ends the
visit and is its result. `visit` lets the callback fault (`none`); `offer` is the visit by a
callback that cannot.

Results:
* `visit_append` / `offer_append`: a visit of two sequences is the visit of the first, continued
  with the second if the first ended with `ok`.
* `visit_rule`: the rule of total correctness. An invariant `I` over the items visited so far
  and the state, kept by every call that answers `ok`, and a postcondition `D` established by
  every call that does not, hold of the whole visit, which then does not fault.
* `visitCalls_rule`: under the same premises the invariant holds before each call made.
* `offer_of_ok`: a callback that always answers `ok` folds over the items.
-/

namespace Bktce.Lib.Visit

variable {α σ κ : Type} [DecidableEq κ]

/-! ## Visits that may fault -/

/-- Offer the items in order as long as the callback answers `ok`; `none` when a call faults. -/
def visit (ok : κ) (f : α → σ → Option (κ × σ)) : List α → σ → Option (κ × σ)
  | [], s => some (ok, s)
  | a :: as, s =>
    match f a s with
    | none => none
    | some (k, s') => if k = ok then visit ok f as s' else some (k, s')

/-- One call of a visit: the item, and the state before and after. -/
structure Call (α σ : Type) where
  before : σ
  item : α
  after : σ

/-- The calls a visit makes, in order, up to the one that ends it. A call that faults is not
listed: `visit` has no result then. -/
def visitCalls (ok : κ) (f : α → σ → Option (κ × σ)) : List α → σ → List (Call α σ)
  | [], _ => []
  | a :: as, s =>
    match f a s with
    | none => []
    | some (k, s') => ⟨s, a, s'⟩ :: if k = ok then visitCalls ok f as s' else []

theorem visit_append (ok : κ) (f : α → σ → Option (κ × σ)) :
    ∀ (as bs : List α) (s : σ), visit ok f (as ++ bs) s =
      (visit ok f as s).bind fun r => if r.1 = ok then visit ok f bs r.2 else some r
  | [], bs, s => by simp [visit]
  | a :: as, bs, s => by
    simp only [List.cons_append, visit]
    cases h : f a s with
    | none => rfl
    | some r =>
      obtain ⟨k, s'⟩ := r
      by_cases hk : k = ok
      · simp only [if_pos hk]
        exact visit_append ok f as bs s'
      · simp only [if_neg hk, Option.bind_some]

section Rule

variable {ok : κ} {f : α → σ → Option (κ × σ)} {items : List α} {I D : List α → σ → Prop}

/-- What the rules ask of one call: from the invariant over the items `pre` visited so far, the
call on the next item does not fault, keeps the invariant when it answers `ok` and establishes
`D` when it does not. -/
def Keeps (ok : κ) (f : α → σ → Option (κ × σ)) (items : List α) (I D : List α → σ → Prop) : Prop :=
  ∀ pre a s, pre ++ [a] <+: items → I pre s →
    ∃ k s', f a s = some (k, s') ∧ (k = ok → I (pre ++ [a]) s') ∧ (k ≠ ok → D (pre ++ [a]) s')

theorem visit_rule_from (hstep : Keeps ok f items I D) :
    ∀ (post pre : List α) (s : σ), pre ++ post = items → I pre s →
      ∃ k s', visit ok f post s = some (k, s') ∧
        ((k = ok ∧ I items s') ∨ (k ≠ ok ∧ ∃ done, done <+: items ∧ D done s'))
  | [], pre, s, hp, hI => by
    rw [List.append_nil] at hp
    exact ⟨ok, s, rfl, Or.inl ⟨rfl, hp ▸ hI⟩⟩
  | a :: as, pre, s, hp, hI => by
    have hsplit : pre ++ [a] ++ as = items := by rw [← hp, List.append_assoc]; rfl
    obtain ⟨k, s', hf, hok, hstop⟩ := hstep pre a s ⟨as, hsplit⟩ hI
    by_cases hk : k = ok
    · obtain ⟨k', s'', hv, h⟩ := visit_rule_from hstep as (pre ++ [a]) s' hsplit (hok hk)
      exact ⟨k', s'', by simp only [visit, hf, if_pos hk, hv], h⟩
    · exact ⟨k, s', by simp only [visit, hf, if_neg hk],
        Or.inr ⟨hk, pre ++ [a], ⟨as, hsplit⟩, hstop hk⟩⟩

/-- **The rule of total correctness.** The visit does not fault; it ends with `ok` in a state
where the invariant holds over all the items, or with another code after a prefix of them, in a
state where `D` holds over that prefix. -/
theorem visit_rule (hstep : Keeps ok f items I D) {s : σ} (h0 : I [] s) :
    ∃ k s', visit ok f items s = some (k, s') ∧
      ((k = ok ∧ I items s') ∨ (k ≠ ok ∧ ∃ done, done <+: items ∧ D done s')) :=
  visit_rule_from hstep items [] s rfl h0

theorem visitCalls_rule_from (hstep : Keeps ok f items I D) :
    ∀ (post pre : List α) (s : σ), pre ++ post = items → I pre s →
      ∀ c ∈ visitCalls ok f post s, ∃ done k, done ++ [c.item] <+: items ∧ I done c.before ∧
        f c.item c.before = some (k, c.after)
  | [], _, _, _, _, c, hc => absurd hc List.not_mem_nil
  | a :: as, pre, s, hp, hI, c, hc => by
    have hsplit : pre ++ [a] ++ as = items := by rw [← hp, List.append_assoc]; rfl
    obtain ⟨k, s', hf, hok, -⟩ := hstep pre a s ⟨as, hsplit⟩ hI
    simp only [visitCalls, hf] at hc
    rcases List.mem_cons.mp hc with rfl | hc
    · exact ⟨pre, k, ⟨as, hsplit⟩, hI, hf⟩
    · split at hc
      · rename_i hk
        exact visitCalls_rule_from hstep as (pre ++ [a]) s' hsplit (hok hk) c hc
      · exact absurd hc List.not_mem_nil

/-- Before each call the visit makes, the invariant holds over the items visited so far. -/
theorem visitCalls_rule (hstep : Keeps ok f items I D) {s : σ} (h0 : I [] s) :
    ∀ c ∈ visitCalls ok f items s, ∃ done k, done ++ [c.item] <+: items ∧ I done c.before ∧
      f c.item c.before = some (k, c.after) :=
  visitCalls_rule_from hstep items [] s rfl h0

end Rule

/-! ## Visits that cannot fault -/

/-- `visit` for a callback that always returns. -/
def offer (ok : κ) (f : α → σ → κ × σ) : List α → σ → κ × σ
  | [], s => (ok, s)
  | a :: as, s => if (f a s).1 = ok then offer ok f as (f a s).2 else f a s

theorem offer_append (ok : κ) (f : α → σ → κ × σ) :
    ∀ (as bs : List α) (s : σ), offer ok f (as ++ bs) s =
      if (offer ok f as s).1 = ok then offer ok f bs (offer ok f as s).2 else offer ok f as s
  | [], bs, s => by simp [offer]
  | a :: as, bs, s => by
    simp only [List.cons_append, offer]
    by_cases hk : (f a s).1 = ok
    · simp only [if_pos hk]
      exact offer_append ok f as bs _
    · simp only [if_neg hk]

theorem offer_singleton (ok : κ) (f : α → σ → κ × σ) (a : α) (s : σ) :
    offer ok f [a] s = f a s := by
  simp only [offer]
  split
  · rename_i h
    rw [← h]
  · rfl

/-- **A callback that always answers `ok` folds over the items.** -/
theorem offer_of_ok {ok : κ} {f : α → σ → κ × σ} (hf : ∀ a s, (f a s).1 = ok) :
    ∀ (as : List α) (s : σ), offer ok f as s = (ok, as.foldl (fun s a => (f a s).2) s)
  | [], _ => rfl
  | a :: as, s => by
    simp only [offer, if_pos (hf a s), List.foldl_cons]
    exact offer_of_ok hf as _

end Bktce.Lib.Visit
