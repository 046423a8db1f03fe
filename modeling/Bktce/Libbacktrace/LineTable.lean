import Bktce.Machine
import Bktce.Lib.Search

/-!
# The line table of a compilation unit

Model of `struct line` (`dwarf.c:205-218`), of `line_search` (`dwarf.c:975-989`) and of the lookup
`dwarf_lookup_pc` does with it (`dwarf.c:2780-2781`). `read_line_info` leaves the lines of a unit
sorted by `pc` and allocates one more entry behind them, with `pc` the highest address
(`dwarf.c:2014-2029`), so that `line_search` may look at the next entry of any entry.

A `LineTable` is such a table: the lines and the proof that they are sorted. The end entry is
`endPc`. Line `i` covers the addresses from its own `pc` up to that of the next entry: the table
is a table of slots (`Lib.Search`) over the numeric addresses.

Results:
* `find_eq_some_iff`: the binary search finds exactly the line that covers the address.
* `find_eq_none_iff`: it finds none exactly below the first line, and for the highest address.
* `Covers.not_pred_iff`, `Covers.not_succ_iff`: of an address and the one before it a line covers
  only one iff it begins, or ends, at the address.
-/

namespace Bktce.Libbacktrace

open Bktce.Lib

/-- `struct line`. `filename` is `NULL` in the end entry only. -/
structure Line where
  pc : UIntPtr
  filename : Option String
  lineno : CInt
  idx : CInt
  deriving DecidableEq

/-- The `pc` of the end entry, `(uintptr_t) -1`. -/
def endPc : UIntPtr := -1

/-- The lines of a unit, sorted by address. -/
structure LineTable where
  lines : List Line
  sorted : lines.Pairwise fun a b => a.pc ≤ b.pc

namespace LineTable

/-- The `pc` of entry `i`, the end entry included. -/
def pcAt (t : LineTable) (i : Nat) : UIntPtr :=
  match t.lines[i]? with
  | some ln => ln.pc
  | none => endPc

/-- `line_search`. -/
def lineSearch (t : LineTable) (pc : UIntPtr) (i : Nat) : Ordering :=
  if pc < t.pcAt i then .lt
  else if pc ≥ t.pcAt (i + 1) then .gt
  else .eq

/-- `bsearch (&pc, lines, lines_count, sizeof (struct line), line_search)`, as a position. -/
def find (t : LineTable) (pc : UIntPtr) : Option Nat :=
  Search.bsearch (t.lineSearch pc) t.lines.length

/-- The line found. -/
def lookup (t : LineTable) (pc : UIntPtr) : Option Line :=
  (t.find pc).bind fun i => t.lines[i]?

/-- Line `i` covers `pc`. -/
structure Covers (t : LineTable) (pc : UIntPtr) (i : Nat) : Prop where
  lt : i < t.lines.length
  low : t.pcAt i ≤ pc
  high : pc < t.pcAt (i + 1)

/-! ## The table as a table of slots -/

/-- The addresses of the entries, as numbers. -/
def key (t : LineTable) (i : Nat) : Nat := (t.pcAt i).toNat

theorem pcAt_le_endPc (t : LineTable) (i : Nat) : (t.pcAt i).toNat ≤ endPc.toNat := by
  have := (t.pcAt i).isLt
  rw [show endPc.toNat = 2 ^ 64 - 1 from rfl]
  omega

theorem key_mono (t : LineTable) : Monotone t.key := by
  intro i j hij
  unfold key
  rcases Nat.eq_or_lt_of_le hij with rfl | hlt
  · exact le_refl _
  · by_cases hj : j < t.lines.length
    · have hi : i < t.lines.length := by omega
      have := List.pairwise_iff_getElem.mp t.sorted i j hi hj hlt
      simpa [pcAt, List.getElem?_eq_getElem hi, List.getElem?_eq_getElem hj,
        BitVec.le_def] using this
    · have : t.pcAt j = endPc := by simp [pcAt, List.getElem?_eq_none (Nat.le_of_not_lt hj)]
      rw [this]
      exact pcAt_le_endPc t i

theorem lineSearch_eq_slotCmp (t : LineTable) (pc : UIntPtr) :
    t.lineSearch pc = Search.slotCmp t.key pc.toNat := by
  funext i
  unfold lineSearch Search.slotCmp key
  by_cases h1 : pc < t.pcAt i
  · rw [if_pos h1, if_pos (BitVec.lt_def.mp h1)]
  · rw [if_neg h1, if_neg fun h => h1 (BitVec.lt_def.mpr h)]
    by_cases h2 : t.pcAt (i + 1) ≤ pc
    · rw [if_pos h2, if_pos (BitVec.le_def.mp h2)]
    · rw [if_neg h2, if_neg fun h => h2 (BitVec.le_def.mpr h)]

theorem find_eq_findSlot (t : LineTable) (pc : UIntPtr) :
    t.find pc = Search.findSlot t.key t.lines.length pc.toNat := by
  unfold find Search.findSlot
  rw [lineSearch_eq_slotCmp]

theorem inSlot_iff_covers {t : LineTable} {pc : UIntPtr} {i : Nat} :
    Search.InSlot t.key t.lines.length pc.toNat i ↔ t.Covers pc i :=
  ⟨fun h => ⟨h.lt, BitVec.le_def.mpr h.low, BitVec.lt_def.mpr h.high⟩,
    fun h => ⟨h.lt, BitVec.le_def.mp h.low, BitVec.lt_def.mp h.high⟩⟩

/-- **The search finds exactly the line that covers the address.** -/
theorem find_eq_some_iff {t : LineTable} {pc : UIntPtr} {i : Nat} :
    t.find pc = some i ↔ t.Covers pc i := by
  rw [find_eq_findSlot, Search.findSlot_eq_some_iff t.key_mono, inSlot_iff_covers]

theorem toNat_pred_covBy {pc : UIntPtr} (h : pc ≠ 0) : (pc - 1).toNat ⋖ pc.toNat := by
  have h0 : pc.toNat ≠ 0 := fun h0 => h (BitVec.eq_of_toNat_eq h0)
  have h1 : (1 : UIntPtr).toNat = 1 := rfl
  rw [Nat.covBy_iff_add_one_eq, BitVec.toNat_sub_of_le (BitVec.le_def.mpr (by omega)), h1]
  omega

/-- A line that covers `pc` covers the address before it as well, unless it begins at `pc`. -/
theorem Covers.not_pred_iff {t : LineTable} {pc : UIntPtr} {i : Nat} (hpc : pc ≠ 0)
    (h : t.Covers pc i) : ¬ t.Covers (pc - 1) i ↔ t.pcAt i = pc := by
  have hslot := inSlot_iff_covers.mpr h
  rw [← BitVec.toNat_inj, ← inSlot_iff_covers]
  exact (not_congr ⟨fun h => ⟨h.low, h.high⟩, fun h => ⟨hslot.lt, h.1, h.2⟩⟩).trans
    (Search.not_lower_iff (toNat_pred_covBy hpc) ⟨hslot.low, hslot.high⟩)

/-- A line that covers the address before `pc` covers `pc` as well, unless it ends there. -/
theorem Covers.not_succ_iff {t : LineTable} {pc : UIntPtr} {i : Nat} (hpc : pc ≠ 0)
    (h : t.Covers (pc - 1) i) : ¬ t.Covers pc i ↔ t.pcAt (i + 1) = pc := by
  have hslot := inSlot_iff_covers.mpr h
  rw [← BitVec.toNat_inj, ← inSlot_iff_covers]
  exact (not_congr ⟨fun h => ⟨h.low, h.high⟩, fun h => ⟨hslot.lt, h.1, h.2⟩⟩).trans
    (Search.not_upper_iff (toNat_pred_covBy hpc) ⟨hslot.low, hslot.high⟩)

/-- **No line covers an address** iff it is below the first line, or the highest address: a unit
has lines from its first line on. -/
theorem find_eq_none_iff {t : LineTable} {pc : UIntPtr} :
    t.find pc = none ↔ pc < t.pcAt 0 ∨ pc = endPc := by
  have hend : t.key t.lines.length = endPc.toNat := by
    unfold key pcAt
    rw [List.getElem?_eq_none (Nat.le_refl _)]
  have htop : endPc.toNat ≤ pc.toNat ↔ pc = endPc := by
    have := pc.isLt
    rw [← BitVec.toNat_inj, show endPc.toNat = 2 ^ 64 - 1 from rfl]
    omega
  rw [find_eq_findSlot, Search.findSlot_eq_none_iff t.key_mono, hend, htop, BitVec.lt_def, key]

end LineTable

end Bktce.Libbacktrace
