import Mathlib.Data.Nat.SuccPred

/-!
# Binary search and tables of slots

`bsearch` is the C library's binary search over the positions `0, …, n - 1`, with the comparison
given as a function of the position: `.lt` when the key belongs before the position, `.gt` when it
belongs after it, `.eq` when it is there.

A *table of slots* is a monotone sequence `key 0 ≤ key 1 ≤ … ≤ key n` of a linear order: slot `i`
holds the points `x` with `key i ≤ x < key (i + 1)`. A slot with equal ends is empty.

Results:
* `bsearch_sound`: a found position is in range and compares equal, whatever the comparison.
* `bsearch_complete`: when the comparison is `Ordered`, a position that compares equal is found.
* `ordered_of_pairwise`: the comparison with the entries of a sorted array is `Ordered`.
* `findSlot_eq_some_iff`: searching a table of slots finds exactly the slot that holds the point.
* `findSlot_eq_none_iff`: it fails exactly below the first key and from the last key on.
* `not_lower_iff`, `not_upper_iff`: of two adjacent points one is in an interval and the other is
  not iff the interval begins, or ends, at the upper one.
* `climb_spec`: the scan upwards from a position ends at the last position of the stretch above
  it on which a predicate holds.
-/

namespace Bktce.Lib.Search

/-! ## Binary search -/

/-- The loop of `bsearch` on the window `[l, u)`, at most `fuel` times. -/
def bsearchLoop (cmp : Nat → Ordering) : Nat → Nat → Nat → Option Nat
  | 0, _, _ => none
  | fuel + 1, l, u =>
    if l < u then
      match cmp ((l + u) / 2) with
      | .lt => bsearchLoop cmp fuel l ((l + u) / 2)
      | .gt => bsearchLoop cmp fuel ((l + u) / 2 + 1) u
      | .eq => some ((l + u) / 2)
    else none

/-- `bsearch` over `n` positions; `none` is its `NULL`. Every turn of the loop shrinks the window,
so `n` turns are enough (`bsearch_complete`). -/
def bsearch (cmp : Nat → Ordering) (n : Nat) : Option Nat := bsearchLoop cmp n 0 n

theorem bsearchLoop_sound {cmp : Nat → Ordering} : ∀ {fuel l u i : Nat},
    bsearchLoop cmp fuel l u = some i → l ≤ i ∧ i < u ∧ cmp i = .eq
  | 0, _, _, _, h => by simp [bsearchLoop] at h
  | fuel + 1, l, u, i, h => by
    simp only [bsearchLoop] at h
    split at h
    · rename_i hlu
      split at h
      · obtain ⟨h1, h2, h3⟩ := bsearchLoop_sound h
        exact ⟨h1, by omega, h3⟩
      · obtain ⟨h1, h2, h3⟩ := bsearchLoop_sound h
        exact ⟨by omega, h2, h3⟩
      · rename_i heq
        obtain rfl := Option.some.inj h
        exact ⟨by omega, by omega, heq⟩
    · simp at h

/-- **Soundness**, for any comparison: a found position is in range and compares equal. -/
theorem bsearch_sound {cmp : Nat → Ordering} {n i : Nat} (h : bsearch cmp n = some i) :
    i < n ∧ cmp i = .eq := by
  obtain ⟨-, h1, h2⟩ := bsearchLoop_sound h
  exact ⟨h1, h2⟩

/-- A key that belongs behind the middle position is searched behind it. -/
theorem bsearch_gt {cmp : Nat → Ordering} {n i : Nat} (hmid : cmp (n / 2) = .gt)
    (h : bsearch cmp n = some i) : n / 2 < i := by
  cases n with
  | zero => cases h
  | succ n =>
    rw [bsearch, bsearchLoop, if_pos (Nat.succ_pos n), Nat.zero_add, hmid] at h
    exact (bsearchLoop_sound h).1

/-- The comparison is that of a key against a sorted sequence: what is before the key stays before
it at every lower position, what is after it stays after it at every higher one. -/
structure Ordered (cmp : Nat → Ordering) (n : Nat) : Prop where
  lt_up : ∀ i j, i ≤ j → j < n → cmp i = .lt → cmp j = .lt
  gt_down : ∀ i j, i ≤ j → j < n → cmp j = .gt → cmp i = .gt

theorem bsearchLoop_complete {cmp : Nat → Ordering} {n : Nat} (ho : Ordered cmp n) :
    ∀ {fuel l u j : Nat}, u ≤ n → u - l ≤ fuel → l ≤ j → j < u → cmp j = .eq →
      (bsearchLoop cmp fuel l u).isSome
  | 0, l, u, j, _, hf, hl, hj, _ => by omega
  | fuel + 1, l, u, j, hu, hf, hl, hj, heq => by
    have hlu : l < u := by omega
    simp only [bsearchLoop, if_pos hlu]
    split
    · rename_i hm
      -- the middle is past the key, so `j` is below it
      have hjm : j < (l + u) / 2 := by
        by_contra hc
        have := ho.lt_up _ j (Nat.le_of_not_lt hc) (by omega) hm
        rw [heq] at this
        exact absurd this (by simp)
      exact bsearchLoop_complete ho (by omega) (by omega) hl hjm heq
    · rename_i hm
      have hmj : (l + u) / 2 < j := by
        by_contra hc
        have := ho.gt_down j _ (Nat.le_of_not_lt hc) (by omega) hm
        rw [heq] at this
        exact absurd this (by simp)
      exact bsearchLoop_complete ho hu (by omega) hmj hj heq
    · rfl

/-- **Completeness** for an ordered comparison: a position that compares equal is found. -/
theorem bsearch_complete {cmp : Nat → Ordering} {n j : Nat} (ho : Ordered cmp n) (hj : j < n)
    (heq : cmp j = .eq) : (bsearch cmp n).isSome :=
  bsearchLoop_complete ho (le_refl n) (by omega) (Nat.zero_le j) hj heq

/-- The comparison of a key against an array is ordered where the array is. -/
theorem ordered_of_pairwise {α : Type} {c : α → Ordering} {xs : List α}
    (hlt : xs.Pairwise fun a b => c a = .lt → c b = .lt)
    (hgt : xs.Pairwise fun a b => c b = .gt → c a = .gt) :
    Ordered (fun i => (xs[i]?.map c).getD .lt) xs.length where
  lt_up i j hij hj := by
    rcases Nat.eq_or_lt_of_le hij with rfl | h
    · exact id
    · rw [List.getElem?_eq_getElem hj, List.getElem?_eq_getElem (by omega)]
      exact List.pairwise_iff_getElem.mp hlt i j (by omega) hj h
  gt_down i j hij hj := by
    rcases Nat.eq_or_lt_of_le hij with rfl | h
    · exact id
    · rw [List.getElem?_eq_getElem hj, List.getElem?_eq_getElem (by omega)]
      exact List.pairwise_iff_getElem.mp hgt i j (by omega) hj h

/-! ## Tables of slots -/

section Slots

variable {α : Type} [LinearOrder α]

/-- The comparison of a point with slot `i`. -/
def slotCmp (key : Nat → α) (x : α) (i : Nat) : Ordering :=
  if x < key i then .lt else if key (i + 1) ≤ x then .gt else .eq

/-- The slot of `x` among the first `n`. -/
def findSlot (key : Nat → α) (n : Nat) (x : α) : Option Nat := bsearch (slotCmp key x) n

/-- Slot `i` is one of the first `n` and holds `x`. -/
structure InSlot (key : Nat → α) (n : Nat) (x : α) (i : Nat) : Prop where
  lt : i < n
  low : key i ≤ x
  high : x < key (i + 1)

theorem slotCmp_eq_iff {key : Nat → α} {x : α} {i : Nat} :
    slotCmp key x i = .eq ↔ key i ≤ x ∧ x < key (i + 1) := by
  unfold slotCmp
  split_ifs with h1 h2
  · simp [not_le.mpr h1]
  · simp [not_lt.mpr h2]
  · simp [not_lt.mp h1, not_le.mp h2]

theorem slotCmp_ordered {key : Nat → α} (hk : Monotone key) (x : α) (n : Nat) :
    Ordered (slotCmp key x) n where
  lt_up i j hij _ h := by
    have hx : x < key i := by
      by_contra hc
      rw [slotCmp, if_neg hc] at h
      split at h <;> exact absurd h (by simp)
    rw [slotCmp, if_pos (hx.trans_le (hk hij))]
  gt_down i j hij _ h := by
    have hx : key (j + 1) ≤ x := by
      by_contra hc
      rw [slotCmp, if_neg hc] at h
      split at h <;> exact absurd h (by simp)
    have hi : key (i + 1) ≤ x := (hk (by omega)).trans hx
    rw [slotCmp, if_neg (not_lt.mpr ((hk (Nat.le_succ i)).trans hi)), if_pos hi]

/-- A point lies in at most one slot. -/
theorem InSlot.unique {key : Nat → α} (hk : Monotone key) {n i j : Nat} {x : α}
    (hi : InSlot key n x i) (hj : InSlot key n x j) : i = j := by
  have le : ∀ {i j}, InSlot key n x i → InSlot key n x j → i ≤ j := by
    intro i j hi hj
    by_contra hc
    exact absurd (hj.high.trans_le ((hk (by omega)).trans hi.low)) (lt_irrefl x)
  exact le_antisymm (le hi hj) (le hj hi)

/-- **The search finds exactly the slot that holds the point.** -/
theorem findSlot_eq_some_iff {key : Nat → α} (hk : Monotone key) {n i : Nat} {x : α} :
    findSlot key n x = some i ↔ InSlot key n x i := by
  have sound : ∀ {i}, findSlot key n x = some i → InSlot key n x i := by
    intro i h
    obtain ⟨hlt, heq⟩ := bsearch_sound h
    obtain ⟨hlo, hhi⟩ := slotCmp_eq_iff.mp heq
    exact ⟨hlt, hlo, hhi⟩
  refine ⟨sound, fun h => ?_⟩
  obtain ⟨j, hj⟩ := Option.isSome_iff_exists.mp
    (bsearch_complete (slotCmp_ordered hk x n) h.lt (slotCmp_eq_iff.mpr ⟨h.low, h.high⟩))
  have hj' : findSlot key n x = some j := hj
  rw [hj', (sound hj').unique hk h]

/-- The slots leave no gap between the first key and the last. -/
theorem exists_inSlot {key : Nat → α} {n : Nat} {x : α} (hlo : key 0 ≤ x) (hhi : x < key n) :
    ∃ i, InSlot key n x i := by
  induction n with
  | zero => exact absurd (hlo.trans_lt hhi) (lt_irrefl _)
  | succ n ih =>
    by_cases hx : x < key n
    · obtain ⟨i, hi⟩ := ih hx
      exact ⟨i, by have := hi.lt; omega, hi.low, hi.high⟩
    · exact ⟨n, Nat.lt_succ_self n, not_lt.mp hx, hhi⟩

/-- **The search fails exactly outside the keys.** -/
theorem findSlot_eq_none_iff {key : Nat → α} (hk : Monotone key) {n : Nat} {x : α} :
    findSlot key n x = none ↔ x < key 0 ∨ key n ≤ x := by
  rw [Option.eq_none_iff_forall_ne_some]
  constructor
  · intro h
    by_contra hc
    rw [not_or, not_lt, not_le] at hc
    obtain ⟨i, hi⟩ := exists_inSlot hc.1 hc.2
    exact h i ((findSlot_eq_some_iff hk).mpr hi)
  · rintro h i hi
    have hslot := (findSlot_eq_some_iff hk).mp hi
    rcases h with h | h
    · exact absurd (h.trans_le ((hk (Nat.zero_le i)).trans hslot.low)) (lt_irrefl x)
    · exact absurd (hslot.high.trans_le ((hk hslot.lt).trans h)) (lt_irrefl x)

/-- **Adjacent points**, the upper one in an interval: the lower one is not iff the interval begins
at the upper one. -/
theorem not_lower_iff {a b x y : α} (hxy : x ⋖ y) (hy : a ≤ y ∧ y < b) :
    ¬ (a ≤ x ∧ x < b) ↔ a = y := by
  constructor
  · intro hno
    by_contra hne
    exact hno ⟨hxy.le_of_lt (lt_of_le_of_ne hy.1 hne), hxy.lt.trans hy.2⟩
  · rintro rfl hx
    exact absurd hxy.lt (not_lt.mpr hx.1)

/-- **Adjacent points**, the lower one in an interval: the upper one is not iff the interval ends
at the upper one. -/
theorem not_upper_iff {a b x y : α} (hxy : x ⋖ y) (hx : a ≤ x ∧ x < b) :
    ¬ (a ≤ y ∧ y < b) ↔ b = y := by
  constructor
  · intro hno
    by_contra hne
    exact hno ⟨hx.1.trans hxy.le, lt_of_le_of_ne (hxy.ge_of_gt hx.2) (Ne.symm hne)⟩
  · rintro rfl hy
    exact absurd hy.2 (lt_irrefl _)

end Slots

/-! ## Scanning upwards -/

/-- `while (i + 1 < n && p (i + 1)) ++i`, at most `fuel` times. -/
def climb (p : Nat → Bool) (n : Nat) : Nat → Nat → Nat
  | 0, i => i
  | fuel + 1, i => if i + 1 < n ∧ p (i + 1) = true then climb p n fuel (i + 1) else i

/-- The scan stays in range, passes only over positions where `p` holds, and with `n` turns it
stops where the next position is out of range or fails `p`. -/
theorem climb_spec {p : Nat → Bool} {n : Nat} : ∀ {fuel i : Nat}, n ≤ i + fuel → i < n →
    i ≤ climb p n fuel i ∧ climb p n fuel i < n ∧
      (∀ j, i < j → j ≤ climb p n fuel i → p j = true) ∧
      ¬ (climb p n fuel i + 1 < n ∧ p (climb p n fuel i + 1) = true)
  | 0, i, hf, hi => by omega
  | fuel + 1, i, hf, hi => by
    simp only [climb]
    split
    · rename_i h
      obtain ⟨h1, h2, h3, h4⟩ := @climb_spec p n fuel (i + 1) (by omega) h.1
      refine ⟨by omega, h2, fun j hij hj => ?_, h4⟩
      by_cases hji : j = i + 1
      · rw [hji]; exact h.2
      · exact h3 j (by omega) hj
    · rename_i h
      exact ⟨le_refl i, hi, fun j hij hj => by omega, h⟩

end Bktce.Lib.Search
