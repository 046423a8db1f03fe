import Mathlib.Data.List.Perm.Basic
import Mathlib.Tactic.Ring

/-!
# Quicksort in place

Sorting an array by exchanges, with the middle element as pivot: the pivot is moved to the front,
one pass moves the elements it is greater than behind it (`partitionLoop`), and the last of these
is exchanged with it (`partition`). The two parts are then sorted in the same way, the smaller one
by a recursive call and the larger one in the same call, so that the stack stays low; `qsort`
counts the recursive calls that are open at once.

The order is given by its test "greater": `gt a b`. A part of the array is a sublist.

Results:
* `partition_spec`: a pass leaves a permutation, with the elements the pivot is greater than before
  it and the others behind it.
* `qsort_perm`, `qsort_sorted`: the result is a permutation, sorted if the test is an `Order`.
* `qsort_map`: a mapped array is sorted as the array is by the test of what it is mapped to.
* `qsort_depth`: at most `log₂` of the number of elements recursive calls are open at once.
-/

namespace Bktce.Lib.Quicksort

variable {α : Type}

/-! ## Exchanges -/

/-- Exchange two elements. -/
def swap (l : List α) (i j : Nat) : List α :=
  match l[i]?, l[j]? with
  | some a, some b => (l.set i b).set j a
  | _, _ => l

theorem swap_append (as bs cs : List α) (a b : α) :
    swap (as ++ a :: (bs ++ b :: cs)) as.length (as.length + 1 + bs.length) =
      as ++ b :: (bs ++ a :: cs) := by
  have hb : as.length + 1 + bs.length = as.length + (bs.length + 1) := by omega
  have h1 : (as ++ a :: (bs ++ b :: cs))[as.length]? = some a := by simp
  have h2 : (as ++ a :: (bs ++ b :: cs))[as.length + 1 + bs.length]? = some b := by
    rw [hb, List.getElem?_append_right (Nat.le_add_right _ _), Nat.add_sub_cancel_left]
    simp
  simp only [swap, h1, h2]
  rw [List.set_append_right _ _ (Nat.le_refl _), Nat.sub_self, List.set_cons_zero, hb,
    List.set_append_right _ _ (Nat.le_add_right _ _), Nat.add_sub_cancel_left, List.set_cons_succ,
    List.set_append_right _ _ (Nat.le_refl _), Nat.sub_self, List.set_cons_zero]

theorem perm_exchange (as bs cs : List α) (a b : α) :
    (as ++ b :: (bs ++ a :: cs)).Perm (as ++ a :: (bs ++ b :: cs)) := by
  have h1 : (b :: (bs ++ a :: cs)).Perm (b :: a :: (bs ++ cs)) := List.perm_middle.cons b
  have h2 : (a :: (bs ++ b :: cs)).Perm (a :: b :: (bs ++ cs)) := List.perm_middle.cons a
  exact (h1.trans ((List.Perm.swap a b _).trans h2.symm)).append_left as

/-- An exchange of the first element with a later one. -/
theorem swap_zero (l : List α) {j : Nat} (h0 : 0 < j) (hj : j < l.length) :
    ∃ b l', swap l 0 j = b :: l' ∧ (b :: l').Perm l := by
  obtain ⟨a, rest, rfl⟩ : ∃ a rest, l = a :: rest := by
    cases l with
    | nil => simp at hj
    | cons a rest => exact ⟨a, rest, rfl⟩
  rw [List.length_cons] at hj
  have hlt : j - 1 < rest.length := by omega
  have hsplit : rest = rest.take (j - 1) ++ rest[j - 1] :: rest.drop j := by
    conv_lhs => rw [← List.take_append_drop (j - 1) rest, List.drop_eq_getElem_cons hlt]
    rw [show j - 1 + 1 = j by omega]
  have hswap := swap_append [] (rest.take (j - 1)) (rest.drop j) a rest[j - 1]
  have hlen : (rest.take (j - 1)).length = j - 1 := by
    rw [List.length_take]
    omega
  rw [hlen, List.length_nil, show 0 + 1 + (j - 1) = j by omega, List.nil_append, ← hsplit] at hswap
  refine ⟨_, _, hswap, ?_⟩
  conv_rhs => rw [hsplit]
  exact perm_exchange [] _ _ a _

/-! ## Partition -/

section Gt

variable (gt : α → α → Bool)

/-- The first element is greater than element `i`. -/
def firstGreater (l : List α) (i : Nat) : Bool :=
  match l[0]?, l[i]? with
  | some p, some x => gt p x
  | _, _ => false

/-- The pass: `turns` turns of the loop are left, `i` and `mid` are its variables. -/
def partitionLoop : Nat → Nat → Nat → List α → Nat × List α
  | 0, _, mid, l => (mid, l)
  | turns + 1, i, mid, l =>
    if firstGreater gt l i then
      partitionLoop turns (i + 1) (mid + 1) (if i ≠ mid + 1 then swap l (mid + 1) i else l)
    else partitionLoop turns (i + 1) mid l

/-- Partition an array around its middle element: the position of the pivot, and the array. -/
def partition (l : List α) : Nat × List α :=
  let r := partitionLoop gt (l.length - 1) 1 0 (swap l 0 (l.length / 2))
  (r.1, if r.1 > 0 then swap r.2 0 r.1 else r.2)

/-- Sort an array, with the number of recursive calls that are open at once. -/
def qsort : Nat → List α → List α × Nat
  | 0, l => (l, 0)
  | fuel + 1, l =>
    if l.length < 2 then (l, 0)
    else
      let r := partition gt l
      let low := qsort fuel (r.2.take r.1)
      let high := qsort fuel (r.2.drop (r.1 + 1))
      -- the smaller part is sorted by a recursive call, the larger one by the next turn
      (low.1 ++ (r.2.drop r.1).take 1 ++ high.1,
        if 2 * r.1 < l.length then max (low.2 + 1) high.2 else max low.2 (high.2 + 1))

/-- What the pass does, from the part `lo` the pivot is greater than, the part `hi` it is not
greater than, and the rest. -/
theorem partitionLoop_spec (p : α) (rest : List α) : ∀ (lo hi : List α),
    (∀ x ∈ lo, gt p x = true) → (∀ x ∈ hi, gt p x = false) →
    ∃ lo' hi', partitionLoop gt rest.length (1 + lo.length + hi.length) lo.length
        (p :: (lo ++ (hi ++ rest))) = (lo'.length, p :: (lo' ++ hi')) ∧
      (∀ x ∈ lo', gt p x = true) ∧ (∀ x ∈ hi', gt p x = false) ∧
      (lo' ++ hi').Perm (lo ++ (hi ++ rest)) := by
  induction rest with
  | nil =>
    intro lo hi hlo hhi
    exact ⟨lo, hi, by rw [List.append_nil]; rfl, hlo, hhi, by rw [List.append_nil]⟩
  | cons x rest ih =>
    intro lo hi hlo hhi
    have hx : firstGreater gt (p :: (lo ++ (hi ++ x :: rest))) (1 + lo.length + hi.length) =
        gt p x := by
      have hget : (p :: (lo ++ (hi ++ x :: rest)))[1 + lo.length + hi.length]? = some x := by
        rw [show 1 + lo.length + hi.length = (lo.length + hi.length) + 1 by omega,
          List.getElem?_cons_succ, List.getElem?_append_right (Nat.le_add_right _ _),
          Nat.add_sub_cancel_left]
        simp
      simp only [firstGreater, hget, List.getElem?_cons_zero]
    simp only [List.length_cons, partitionLoop, hx]
    by_cases hg : gt p x = true
    · have hlo' : ∀ y ∈ lo ++ [x], gt p y = true := by
        intro y hy
        rcases List.mem_append.mp hy with hy | hy
        · exact hlo y hy
        · exact List.mem_singleton.mp hy ▸ hg
      rw [if_pos hg]
      cases hi with
      | nil =>
        obtain ⟨lo', hi', hrun, h1, h2, hperm⟩ := ih (lo ++ [x]) [] hlo' hhi
        simp only [List.length_append, List.length_singleton, List.length_nil, List.append_assoc,
          List.nil_append, List.cons_append] at hrun hperm ⊢
        rw [if_neg (by omega)]
        exact ⟨lo', hi', by rw [← hrun]; congr 1, h1, h2, hperm⟩
      | cons h hi =>
        have hhi' : ∀ y ∈ hi ++ [h], gt p y = false := by
          intro y hy
          rcases List.mem_append.mp hy with hy | hy
          · exact hhi y (List.mem_cons_of_mem h hy)
          · exact List.mem_singleton.mp hy ▸ hhi h List.mem_cons_self
        obtain ⟨lo', hi', hrun, h1, h2, hperm⟩ := ih (lo ++ [x]) (hi ++ [h]) hlo' hhi'
        have hswap := swap_append (p :: lo) hi rest h x
        have hperm' := perm_exchange lo hi rest h x
        simp only [List.length_append, List.length_cons, List.length_nil, List.append_assoc,
          List.nil_append, List.cons_append] at hrun hperm hswap ⊢
        rw [if_pos (by omega),
          show 1 + lo.length + (hi.length + 1) = lo.length + 1 + 1 + hi.length by omega, hswap]
        exact ⟨lo', hi', by rw [← hrun]; congr 1; omega, h1, h2, hperm.trans hperm'⟩
    · have hhi' : ∀ y ∈ hi ++ [x], gt p y = false := by
        intro y hy
        rcases List.mem_append.mp hy with hy | hy
        · exact hhi y hy
        · exact List.mem_singleton.mp hy ▸ (Bool.not_eq_true _ ▸ hg)
      obtain ⟨lo', hi', hrun, h1, h2, hperm⟩ := ih lo (hi ++ [x]) hlo hhi'
      simp only [List.length_append, List.length_singleton, List.append_assoc, List.nil_append,
        List.cons_append] at hrun hperm ⊢
      rw [if_neg hg]
      exact ⟨lo', hi', by rw [← hrun]; congr 1, h1, h2, hperm⟩

/-- **A partition** permutes the array, with the elements the pivot is greater than before it and
the others behind it. -/
theorem partition_spec (l : List α) (hl : 2 ≤ l.length) :
    ∃ p lo hi, partition gt l = (lo.length, lo ++ p :: hi) ∧ (∀ x ∈ lo, gt p x = true) ∧
      (∀ x ∈ hi, gt p x = false) ∧ (lo ++ p :: hi).Perm l := by
  obtain ⟨p, rest, hswap, hperm⟩ := @swap_zero α l (l.length / 2) (by omega) (by omega)
  obtain ⟨lo, hi, hrun, hlo, hhi, hperm'⟩ :=
    partitionLoop_spec gt p rest [] [] (by simp) (by simp)
  have hlen : rest.length = l.length - 1 := by
    rw [← hperm.length_eq, List.length_cons, Nat.add_sub_cancel]
  simp only [List.length_nil, List.nil_append, Nat.add_zero, hlen] at hrun hperm'
  unfold partition
  rw [hswap, hrun]
  rcases List.eq_nil_or_concat lo with rfl | ⟨ys, y, rfl⟩
  · exact ⟨p, [], hi, rfl, hlo, hhi, (hperm'.cons p).trans hperm⟩
  · -- the last element before the pivot's place goes to the front
    have hex := swap_append [] ys hi p y
    have hpe := perm_exchange [] ys hi p y
    simp only [List.concat_eq_append, List.length_nil, List.nil_append, List.append_assoc,
      List.singleton_append, List.length_append, List.length_singleton] at hex hpe hperm' hlo ⊢
    rw [if_pos (by omega), show ys.length + 1 = 0 + 1 + ys.length by omega, hex]
    refine ⟨p, y :: ys, hi, by simp; omega, fun x hx => hlo x ?_, hhi,
      (hpe.trans (hperm'.cons p)).trans hperm⟩
    rcases List.mem_cons.mp hx with rfl | hx
    · simp
    · exact List.mem_append_left _ hx

/-! ## Sorting -/

/-- The recursive equation of `qsort`, in the parts a partition leaves. -/
theorem qsort_succ (fuel : Nat) {l : List α} (hl : 2 ≤ l.length) {p : α} {lo hi : List α}
    (h : partition gt l = (lo.length, lo ++ p :: hi)) :
    qsort gt (fuel + 1) l =
      ((qsort gt fuel lo).1 ++ p :: (qsort gt fuel hi).1,
        if 2 * lo.length < l.length then max ((qsort gt fuel lo).2 + 1) (qsort gt fuel hi).2
        else max (qsort gt fuel lo).2 ((qsort gt fuel hi).2 + 1)) := by
  have hdrop : (lo ++ p :: hi).drop (lo.length + 1) = hi := by
    rw [← List.drop_drop, List.drop_left]
    rfl
  simp only [qsort, if_neg (Nat.not_lt.mpr hl), h, List.take_left, List.drop_left, hdrop]
  simp

theorem qsort_of_short (fuel : Nat) {l : List α} (hl : l.length < 2) :
    qsort gt fuel l = (l, 0) := by
  cases fuel with
  | zero => rfl
  | succ fuel => exact if_pos hl

/-- **The result is a permutation.** -/
theorem qsort_perm (fuel : Nat) : ∀ l : List α, (qsort gt fuel l).1.Perm l := by
  induction fuel with
  | zero => exact fun l => List.Perm.refl l
  | succ fuel ih =>
    intro l
    by_cases hl : l.length < 2
    · rw [qsort_of_short gt _ hl]
    · obtain ⟨p, lo, hi, hpart, -, -, hperm⟩ := partition_spec gt l (Nat.not_lt.mp hl)
      rw [qsort_succ gt fuel (Nat.not_lt.mp hl) hpart]
      exact ((ih lo).append ((ih hi).cons p)).trans hperm

/-- The test of a total preorder. -/
structure Order (gt : α → α → Bool) : Prop where
  asymm : ∀ a b, gt a b = true → gt b a = false
  trans : ∀ a b c, gt a b = false → gt b c = false → gt a c = false

/-- **The result is sorted.** -/
theorem qsort_sorted {gt : α → α → Bool} (h : Order gt) (fuel : Nat) :
    ∀ l : List α, l.length ≤ fuel →
    (qsort gt fuel l).1.Pairwise fun a b => gt a b = false := by
  induction fuel with
  | zero =>
    intro l hl
    rw [List.length_eq_zero_iff.mp (Nat.le_zero.mp hl)]
    exact List.Pairwise.nil
  | succ fuel ih =>
    intro l hfuel
    by_cases hl : l.length < 2
    · rw [qsort_of_short gt _ hl]
      match l, hl with
      | [], _ => exact List.Pairwise.nil
      | [a], _ => exact List.pairwise_singleton _ a
    · obtain ⟨p, lo, hi, hpart, hlo, hhi, hperm⟩ :=
        partition_spec gt l (Nat.not_lt.mp hl)
      have hlen := hperm.length_eq
      rw [List.length_append, List.length_cons] at hlen
      rw [qsort_succ gt fuel (Nat.not_lt.mp hl) hpart]
      have hlow : ∀ x ∈ (qsort gt fuel lo).1, gt x p = false := fun x hx =>
        h.asymm p x (hlo x ((qsort_perm gt fuel lo).mem_iff.mp hx))
      have hhigh : ∀ x ∈ (qsort gt fuel hi).1, gt p x = false := fun x hx =>
        hhi x ((qsort_perm gt fuel hi).mem_iff.mp hx)
      refine List.pairwise_append.mpr ⟨ih lo (by omega), List.pairwise_cons.mpr ⟨hhigh,
        ih hi (by omega)⟩, fun x hx y hy => ?_⟩
      rcases List.mem_cons.mp hy with rfl | hy
      · exact hlow x hx
      · exact h.trans x p y (hlow x hx) (hhigh y hy)

/-- **At most `log₂` of the number of elements recursive calls are open at once.** -/
theorem qsort_depth (fuel : Nat) : ∀ l : List α, 2 ^ (qsort gt fuel l).2 ≤ max 1 l.length := by
  induction fuel with
  | zero => exact fun l => Nat.le_max_left 1 _
  | succ fuel ih =>
    intro l
    by_cases hl : l.length < 2
    · rw [qsort_of_short gt _ hl]
      exact Nat.le_max_left 1 _
    · obtain ⟨p, lo, hi, hpart, -, -, hperm⟩ := partition_spec gt l (Nat.not_lt.mp hl)
      have hlen := hperm.length_eq
      rw [List.length_append, List.length_cons] at hlen
      have hlo := ih lo
      have hhi := ih hi
      have hmax : ∀ a b n : Nat, 2 ^ a ≤ n → 2 ^ b ≤ n → 2 ^ max a b ≤ n := fun a b n ha hb => by
        rcases Nat.le_total a b with hab | hab
        · rwa [Nat.max_eq_right hab]
        · rwa [Nat.max_eq_left hab]
      rw [qsort_succ gt fuel (Nat.not_lt.mp hl) hpart]
      simp only
      split
      · refine hmax _ _ _ ?_ (by omega)
        rw [Nat.pow_succ]
        omega
      · refine hmax _ _ _ (by omega) ?_
        rw [Nat.pow_succ]
        omega

end Gt

/-! ## Mapped arrays -/

section Map

variable {β : Type} (f : α → β) (gt : β → β → Bool)

theorem swap_map (l : List α) (i j : Nat) : swap (l.map f) i j = (swap l i j).map f := by
  unfold swap
  rw [List.getElem?_map, List.getElem?_map]
  cases l[i]? with
  | none => rfl
  | some a =>
    cases l[j]? with
    | none => rfl
    | some b =>
      simp only [Option.map_some]
      rw [List.map_set, List.map_set]

theorem firstGreater_map (l : List α) (i : Nat) :
    firstGreater gt (l.map f) i = firstGreater (fun a b => gt (f a) (f b)) l i := by
  unfold firstGreater
  rw [List.getElem?_map, List.getElem?_map]
  cases l[0]? with
  | none => rfl
  | some a =>
    cases l[i]? with
    | none => rfl
    | some b => rfl

theorem partitionLoop_map (turns : Nat) : ∀ (i mid : Nat) (l : List α),
    partitionLoop gt turns i mid (l.map f) =
      ((partitionLoop (fun a b => gt (f a) (f b)) turns i mid l).1,
        (partitionLoop (fun a b => gt (f a) (f b)) turns i mid l).2.map f) := by
  induction turns with
  | zero => exact fun _ _ _ => rfl
  | succ turns ih =>
    intro i mid l
    rw [partitionLoop, partitionLoop, firstGreater_map, swap_map]
    split
    · rw [← apply_ite (List.map f)]
      exact ih _ _ _
    · exact ih _ _ _

theorem partition_map (l : List α) : partition gt (l.map f) =
    ((partition (fun a b => gt (f a) (f b)) l).1,
      (partition (fun a b => gt (f a) (f b)) l).2.map f) := by
  unfold partition
  rw [List.length_map, swap_map, partitionLoop_map]
  simp only
  rw [swap_map, ← apply_ite (List.map f)]

/-- **Sorting does not look at more than the test does.** -/
theorem qsort_map (fuel : Nat) : ∀ l : List α, qsort gt fuel (l.map f) =
    ((qsort (fun a b => gt (f a) (f b)) fuel l).1.map f,
      (qsort (fun a b => gt (f a) (f b)) fuel l).2) := by
  induction fuel with
  | zero => exact fun _ => rfl
  | succ fuel ih =>
    intro l
    rw [qsort, qsort, List.length_map]
    split
    · rfl
    · rw [partition_map]
      simp only
      rw [← List.map_take, ← List.map_drop, ← List.map_drop, ← List.map_take, ih, ih]
      simp only [List.map_append]

end Map

end Bktce.Lib.Quicksort
