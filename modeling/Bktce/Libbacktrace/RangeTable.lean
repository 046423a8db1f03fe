import Bktce.Libbacktrace.History

/-!
# Tables of address ranges

Model of `unit_addrs_compare` (`dwarf.c:906-925`), and of the sorts by it and by
`function_addrs_compare` (`dwarf.c:2497-2499`, `dwarf.c:2577-2578`, `dwarf.c:2945-2946`). The
searches of the tables are in `Libbacktrace/Inlined.lean` (`findRange`).

* Ranges are sorted by their low address, and of those with one low address the smallest comes last.
* `bsearch` is used with a comparison that is not that of a sorted sequence when ranges are nested:
  where a range ends inside an earlier one, the search may go on behind it. `Unbroken` says that no
  range that begins at or before the pc has ended by then behind one that contains it.

Results:

* `find_eq_some_iff`, `find_eq_none_iff`: if the table is unbroken at the pc, the search finds the
  last range that contains it, and fails only if there is none.
* `find_smallest`: if ranges are nested, that is the smallest of them, as the comment at
  `dwarf.c:2671-2674` says.
* `find_missed`: but nested ranges are not always found. If the range in the middle of the table
  ended before the pc, no range before it is.
* `find_ofVector`: ranges that do not overlap and are not empty are always found, so a pc is looked
  up in the unit (`unitAt_findRange`) and the function (`function_findRange`) whose range contains
  it.
-/

namespace Bktce.Libbacktrace

open Bktce.Lib

/-! ## The order of ranges -/

section Order

variable {α κ : Type} [LinearOrder κ]

/-- `unit_addrs_compare`; `lineoff` is the field of the units. -/
def unitAddrsCompare (lineoff : Nat → Int) : AddrRange Nat → AddrRange Nat → Ordering :=
  rangeCompare lineoff

/-- What ranges are compared by: the low address, the high address downwards, and the key. -/
def AddrRange.rank (key : α → κ) (r : AddrRange α) : Nat ×ₗ (Natᵒᵈ ×ₗ κ) :=
  toLex (r.low.toNat, toLex (OrderDual.toDual r.high.toNat, key r.target))

theorem AddrRange.rank_lt_iff {key : α → κ} {a b : AddrRange α} : a.rank key < b.rank key ↔
    a.low < b.low ∨ a.low = b.low ∧ (b.high < a.high ∨ a.high = b.high ∧
      key a.target < key b.target) := by
  simp only [rank, Prod.Lex.toLex_lt_toLex, OrderDual.toDual_lt_toDual,
    EmbeddingLike.apply_eq_iff_eq, BitVec.lt_def, ← BitVec.toNat_inj]

theorem rangeCompare_gt_iff (key : α → κ) (a b : AddrRange α) :
    (rangeCompare key a b == .gt) = true ↔ b.rank key < a.rank key := by
  rw [AddrRange.rank_lt_iff]
  unfold rangeCompare
  by_cases hlt : a.low < b.low
  · have hgt : ¬ b.low < a.low := fun h => BitVec.lt_irrefl _ (BitVec.lt_trans hlt h)
    simp [hlt, hgt, (BitVec.ne_of_lt hlt).symm]
  · by_cases hgt : a.low > b.low
    · simp [hlt, hgt]
    · have hlow : a.low = b.low := BitVec.le_antisymm (BitVec.not_lt.mp hgt) (BitVec.not_lt.mp hlt)
      rw [if_neg hlt, if_neg hgt, hlow]
      by_cases hlt' : a.high < b.high
      · simp [hlt']
      · by_cases hgt' : a.high > b.high
        · have hne : b.high ≠ a.high := BitVec.ne_of_lt hgt'
          simp [hlt', hgt', hne]
        · have hhigh : a.high = b.high :=
            BitVec.le_antisymm (BitVec.not_lt.mp hgt') (BitVec.not_lt.mp hlt')
          simp [hhigh, compare_gt_iff_gt]

theorem rangeCompare_gt_eq_false_iff (key : α → κ) (a b : AddrRange α) :
    (rangeCompare key a b == .gt) = false ↔ a.rank key ≤ b.rank key := by
  rw [← Bool.not_eq_true, rangeCompare_gt_iff, not_lt]

theorem rangeCompare_order (key : α → κ) :
    Quicksort.Order fun a b => rangeCompare key a b == .gt where
  asymm a b h := (rangeCompare_gt_eq_false_iff key b a).mpr ((rangeCompare_gt_iff key a b).mp h).le
  trans a b c hab hbc := (rangeCompare_gt_eq_false_iff key a c).mpr
    (((rangeCompare_gt_eq_false_iff key a b).mp hab).trans
      ((rangeCompare_gt_eq_false_iff key b c).mp hbc))

/-- `backtrace_qsort` of a vector of ranges. -/
def sortRanges (key : α → κ) (v : List (AddrRange α)) : List (AddrRange α) :=
  (backtraceQsort (rangeCompare key) v).1

theorem sortRanges_perm (key : α → κ) (v : List (AddrRange α)) : (sortRanges key v).Perm v :=
  Quicksort.qsort_perm _ v.length v

/-- What is before in a table begins no later, and ends no earlier if it begins at the same
address. -/
def Before (a b : AddrRange α) : Prop := a.low < b.low ∨ a.low = b.low ∧ b.high ≤ a.high

theorem before_of_rank_le {key : α → κ} {a b : AddrRange α} (h : a.rank key ≤ b.rank key) :
    Before a b := by
  by_contra hc
  refine absurd h (not_le.mpr (AddrRange.rank_lt_iff.mpr ?_))
  rw [Before, not_or, not_and] at hc
  by_cases hlt : b.low < a.low
  · exact Or.inl hlt
  · have heq : b.low = a.low := BitVec.le_antisymm (BitVec.not_lt.mp hc.1) (BitVec.not_lt.mp hlt)
    exact Or.inr ⟨heq, Or.inl (BitVec.not_le.mp (hc.2 heq.symm))⟩

theorem sortRanges_before (key : α → κ) (v : List (AddrRange α)) :
    (sortRanges key v).Pairwise Before :=
  (Quicksort.qsort_sorted (rangeCompare_order key) v.length v (le_refl _)).imp
    fun {a b} h => before_of_rank_le ((rangeCompare_gt_eq_false_iff key a b).mp h)

end Order

/-! ## Searching -/

section Search

variable {α : Type}

/-- A table of ranges in their order. -/
structure RangeTable (α : Type) where
  ranges : List (AddrRange α)
  sorted : ranges.Pairwise Before

namespace RangeTable

/-- Behind a range that contains the pc, no range that begins by then has ended by then. -/
def Unbroken (t : RangeTable α) (pc : UIntPtr) : Prop :=
  t.ranges.Pairwise fun a b => a.contains pc = true → b.low ≤ pc → b.contains pc = true

/-- The last range that contains the pc is at position `i`. -/
structure LastAt (t : RangeTable α) (pc : UIntPtr) (i : Nat) : Prop where
  contains : ∃ r, t.ranges[i]? = some r ∧ r.contains pc = true
  last : ∀ j r, i < j → t.ranges[j]? = some r → r.contains pc = false

/-- The search of the table. -/
def find (t : RangeTable α) (pc : UIntPtr) : Option Nat := findRange rangeSearch pc t.ranges

theorem low_le_of_before {a b : AddrRange α} (h : Before a b) : a.low ≤ b.low := by
  rcases h with hlt | ⟨heq, -⟩
  · exact BitVec.le_of_lt hlt
  · exact heq ▸ BitVec.le_refl _

theorem rangeSearch_lt_iff {pc : UIntPtr} {r : AddrRange α} :
    rangeSearch pc r = .lt ↔ pc < r.low := by
  unfold rangeSearch
  split_ifs with h1 h2 <;> simp [h1]

theorem rangeSearch_gt_iff {pc : UIntPtr} {r : AddrRange α} :
    rangeSearch pc r = .gt ↔ r.low ≤ pc ∧ r.contains pc = false := by
  rw [← Bool.not_eq_true, AddrRange.contains_iff]
  unfold rangeSearch
  split_ifs with h1 h2
  · simp [BitVec.not_le.mpr h1]
  · simp [BitVec.not_lt.mp h1, BitVec.not_lt.mpr h2]
  · simp [BitVec.not_lt.mp h1, BitVec.not_le.mp h2]

/-- **The comparison** is that of a sorted sequence, if the table is unbroken at the pc. -/
theorem ordered_of_unbroken {t : RangeTable α} {pc : UIntPtr} (h : t.Unbroken pc) :
    Search.Ordered (fun i => (t.ranges[i]?.map (rangeSearch pc)).getD .lt) t.ranges.length := by
  refine Search.ordered_of_pairwise (t.sorted.imp fun {a b} hbefore => ?_)
    (t.sorted.imp₂ (fun a b hbefore hun => ?_) h)
  · rw [rangeSearch_lt_iff, rangeSearch_lt_iff, BitVec.lt_def, BitVec.lt_def]
    exact fun hlt => hlt.trans_le (BitVec.le_def.mp (low_le_of_before hbefore))
  · rw [rangeSearch_gt_iff, rangeSearch_gt_iff]
    rintro ⟨hlow, hnot⟩
    refine ⟨BitVec.le_trans (low_le_of_before hbefore) hlow, ?_⟩
    by_contra hc
    rw [hun (by simpa using hc) hlow] at hnot
    cases hnot

theorem LastAt.unique {t : RangeTable α} {pc : UIntPtr} {i j : Nat} (hi : t.LastAt pc i)
    (hj : t.LastAt pc j) : i = j := by
  obtain ⟨r, hr, hcr⟩ := hi.contains
  obtain ⟨r', hr', hcr'⟩ := hj.contains
  rcases Nat.lt_trichotomy i j with hlt | heq | hlt
  · exact absurd hcr' (by rw [hi.last j r' hlt hr']; exact Bool.false_ne_true)
  · exact heq
  · exact absurd hcr (by rw [hj.last i r hlt hr]; exact Bool.false_ne_true)

/-- Where the scan upwards stops, no range behind contains the pc. -/
theorem lastAt_of_find {t : RangeTable α} {pc : UIntPtr} (h : t.Unbroken pc) {i : Nat}
    (hi : t.find pc = some i) : t.LastAt pc i := by
  obtain ⟨r, hr, hcr⟩ := findRange_sound hi
  refine ⟨⟨r, hr, hcr⟩, fun j r' hij hj => ?_⟩
  obtain ⟨k, hk, rfl⟩ := Option.map_eq_some_iff.mp hi
  obtain ⟨-, hlt, -, hstop⟩ := Search.climb_spec
    (p := fun i => (t.ranges[i]?.map (·.contains pc)).getD false)
    (Nat.le_add_left t.ranges.length k) (Search.bsearch_sound hk).1
  generalize Search.climb _ _ _ k = i at *
  obtain ⟨hjlt, rfl⟩ := List.getElem?_eq_some_iff.mp hj
  obtain ⟨hilt, rfl⟩ := List.getElem?_eq_some_iff.mp hr
  have hnext : i + 1 < t.ranges.length := by omega
  have hun := List.pairwise_iff_getElem.mp h i (i + 1) hilt hnext (Nat.lt_succ_self i) hcr
  have hlow : ¬ t.ranges[i + 1].low ≤ pc := fun hle =>
    hstop ⟨hnext, by rw [List.getElem?_eq_getElem hnext]; exact hun hle⟩
  by_contra hc
  refine hlow (BitVec.le_trans ?_ (AddrRange.contains_iff.mp (by simpa using hc)).1)
  rcases Nat.eq_or_lt_of_le (show i + 1 ≤ j from hij) with rfl | hlt'
  · exact BitVec.le_refl _
  · exact low_le_of_before (List.pairwise_iff_getElem.mp t.sorted (i + 1) j hnext hjlt hlt')

/-- A range that contains the pc makes the search succeed. -/
theorem find_isSome {t : RangeTable α} {pc : UIntPtr} (h : t.Unbroken pc) {r : AddrRange α}
    (hr : r ∈ t.ranges) (hcr : r.contains pc = true) : (t.find pc).isSome := by
  obtain ⟨j, hj⟩ := List.mem_iff_getElem?.mp hr
  have heq : (t.ranges[j]?.map (rangeSearch pc)).getD .lt = .eq := by
    rw [hj, Option.map_some, Option.getD_some, rangeSearch_eq_iff]
    exact hcr
  have hsome := Search.bsearch_complete (ordered_of_unbroken h)
    (List.getElem?_eq_some_iff.mp hj).1 heq
  rw [find, findRange, Option.isSome_map]
  exact hsome

/-- **The search** finds the last range that contains the pc, if the table is unbroken there. -/
theorem find_eq_some_iff {t : RangeTable α} {pc : UIntPtr} (h : t.Unbroken pc) {i : Nat} :
    t.find pc = some i ↔ t.LastAt pc i := by
  refine ⟨lastAt_of_find h, fun hlast => ?_⟩
  obtain ⟨r, hr, hcr⟩ := hlast.contains
  obtain ⟨j, hj⟩ := Option.isSome_iff_exists.mp (find_isSome h (List.mem_of_getElem? hr) hcr)
  rw [hj, (lastAt_of_find h hj).unique hlast]

/-- **The search** fails only where no range contains the pc, if the table is unbroken there. -/
theorem find_eq_none_iff {t : RangeTable α} {pc : UIntPtr} (h : t.Unbroken pc) :
    t.find pc = none ↔ ∀ r ∈ t.ranges, r.contains pc = false := by
  constructor
  · intro hnone r hr
    by_contra hc
    have hsome := find_isSome h hr (by simpa using hc)
    rw [hnone] at hsome
    cases hsome
  · intro hall
    cases hi : t.find pc with
    | none => rfl
    | some i =>
      obtain ⟨r, hr, hcr⟩ := (lastAt_of_find h hi).contains
      rw [hall r (List.mem_of_getElem? hr)] at hcr
      cases hcr

/-! ## Nested ranges -/

/-- Of two ranges that contain the pc, one is in the other. -/
def Nested (t : RangeTable α) (pc : UIntPtr) : Prop :=
  ∀ a ∈ t.ranges, ∀ b ∈ t.ranges, a.contains pc = true → b.contains pc = true →
    a.low ≤ b.low ∧ b.high ≤ a.high ∨ b.low ≤ a.low ∧ a.high ≤ b.high

/-- **The smallest range.** If ranges are nested, the last one that contains the pc is in all the
others that do. -/
theorem LastAt.smallest {t : RangeTable α} {pc : UIntPtr} (hnested : t.Nested pc) {i : Nat}
    (h : t.LastAt pc i) {r : AddrRange α} (hr : t.ranges[i]? = some r) {r' : AddrRange α}
    (hr' : r' ∈ t.ranges) (hcr' : r'.contains pc = true) : r'.low ≤ r.low ∧ r.high ≤ r'.high := by
  obtain ⟨j, hj⟩ := List.mem_iff_getElem?.mp hr'
  obtain ⟨r₀, hr₀, hcr⟩ := h.contains
  obtain rfl := Option.some.inj (hr.symm.trans hr₀)
  rcases Nat.lt_trichotomy i j with hij | rfl | hji
  · rw [h.last j r' hij hj] at hcr'
    cases hcr'
  · obtain rfl := Option.some.inj (hr.symm.trans hj)
    exact ⟨BitVec.le_refl _, BitVec.le_refl _⟩
  · obtain ⟨hilt, rfl⟩ := List.getElem?_eq_some_iff.mp hr
    obtain ⟨hjlt, rfl⟩ := List.getElem?_eq_some_iff.mp hj
    have hbefore := List.pairwise_iff_getElem.mp t.sorted j i hjlt hilt hji
    rcases hnested _ hr' _ (List.getElem_mem hilt) hcr' hcr with hin | ⟨hlow, -⟩
    · exact hin
    · rcases hbefore with hlt | ⟨heq, hhigh⟩
      · exact absurd hlow (BitVec.not_le.mpr hlt)
      · exact ⟨heq ▸ BitVec.le_refl _, hhigh⟩

/-- **The search** finds the smallest range that contains the pc, or there is none, if ranges are
nested and the table is unbroken at the pc. -/
theorem find_smallest {t : RangeTable α} {pc : UIntPtr} (hun : t.Unbroken pc)
    (hnested : t.Nested pc) :
    (t.find pc = none ∧ ∀ r ∈ t.ranges, r.contains pc = false) ∨
      ∃ i r, t.find pc = some i ∧ t.ranges[i]? = some r ∧ r.contains pc = true ∧
        ∀ r' ∈ t.ranges, r'.contains pc = true → r'.low ≤ r.low ∧ r.high ≤ r'.high := by
  cases hi : t.find pc with
  | none => exact Or.inl ⟨rfl, (find_eq_none_iff hun).mp hi⟩
  | some i =>
    have hlast := (find_eq_some_iff hun).mp hi
    obtain ⟨r, hr, hcr⟩ := hlast.contains
    exact Or.inr ⟨i, r, rfl, hr, hcr, fun r' => hlast.smallest hnested hr⟩

/-- A range inside another, and a pc inside both. -/
def twoNested : RangeTable Unit :=
  ⟨[⟨0x1000, 0x2000, ()⟩, ⟨0x1400, 0x1800, ()⟩], by simp [Before]⟩

theorem find_smallest_twoNested :
    (twoNested.find 0x1500 = none ∧ ∀ r ∈ twoNested.ranges, r.contains 0x1500 = false) ∨
      ∃ i r, twoNested.find 0x1500 = some i ∧ twoNested.ranges[i]? = some r ∧
        r.contains 0x1500 = true ∧ ∀ r' ∈ twoNested.ranges, r'.contains 0x1500 = true →
          r'.low ≤ r.low ∧ r.high ≤ r'.high :=
  find_smallest (by simp [Unbroken, twoNested, AddrRange.contains])
    (by simp [Nested, twoNested])

/-- **Ranges that are missed.** If the range in the middle of the table ended before the pc, and no
range behind it contains the pc, the search fails, whatever is before it. -/
theorem find_missed {t : RangeTable α} {pc : UIntPtr} {r : AddrRange α}
    (hmid : t.ranges[t.ranges.length / 2]? = some r) (hlow : r.low ≤ pc) (hhigh : r.high ≤ pc)
    (hbehind : ∀ j r', t.ranges.length / 2 < j → t.ranges[j]? = some r' → r'.contains pc = false) :
    t.find pc = none := by
  have hgt : (t.ranges[t.ranges.length / 2]?.map (rangeSearch pc)).getD .lt = .gt := by
    rw [hmid, Option.map_some, Option.getD_some, rangeSearch_gt_iff]
    refine ⟨hlow, ?_⟩
    by_contra hc
    exact absurd (AddrRange.contains_iff.mp (by simpa using hc)).2 (BitVec.not_lt.mpr hhigh)
  rw [find, findRange, Option.map_eq_none_iff]
  cases hk : Search.bsearch (fun i => (t.ranges[i]?.map (rangeSearch pc)).getD .lt)
      t.ranges.length with
  | none => rfl
  | some k =>
    have hlt := @Search.bsearch_gt (fun i => (t.ranges[i]?.map (rangeSearch pc)).getD .lt) _ _
      hgt hk
    obtain ⟨hkn, heq⟩ := Search.bsearch_sound hk
    rw [List.getElem?_eq_getElem hkn, Option.map_some, Option.getD_some, rangeSearch_eq_iff,
      hbehind k _ hlt (List.getElem?_eq_getElem hkn)] at heq
    cases heq

/-- A pc behind the inner range and in the outer one. -/
theorem find_missed_twoNested :
    twoNested.find 0x1900 = none ∧ ∃ r ∈ twoNested.ranges, r.contains 0x1900 = true := by
  refine ⟨@find_missed _ twoNested 0x1900 ⟨0x1400, 0x1800, ()⟩ rfl (by decide) (by decide) ?_, ?_⟩
  · intro j r' hj hr'
    rw [List.getElem?_eq_none (show 2 ≤ j from hj)] at hr'
    cases hr'
  · exact ⟨⟨0x1000, 0x2000, ()⟩, by simp [twoNested], by decide⟩

/-! ## Ranges that do not overlap -/

/-- No address is in both. -/
def Apart (a b : AddrRange α) : Prop := ∀ pc, ¬ (a.contains pc = true ∧ b.contains pc = true)

theorem Apart.symm {a b : AddrRange α} (h : Apart a b) : Apart b a := fun pc hc => h pc hc.symm

/-- The table of a vector of ranges. -/
def ofVector {κ : Type} [LinearOrder κ] (key : α → κ) (v : List (AddrRange α)) : RangeTable α where
  ranges := sortRanges key v
  sorted := sortRanges_before key v

section OfVector

variable {κ : Type} [LinearOrder κ] {key : α → κ} {v : List (AddrRange α)}

theorem apart_ofVector (h : v.Pairwise Apart) : (ofVector key v).ranges.Pairwise Apart :=
  ((sortRanges_perm key v).pairwise_iff Apart.symm).mpr h

/-- **Ranges that do not overlap**, and are not empty, leave a table that is unbroken everywhere. An
empty range would break it: it begins by the pc and has ended. -/
theorem unbroken_ofVector (hne : ∀ r ∈ v, r.low < r.high) (h : v.Pairwise Apart) (pc : UIntPtr) :
    (ofVector key v).Unbroken pc := by
  have hboth := ((ofVector key v).sorted.and (@apart_ofVector _ _ _ key _ h))
  refine hboth.imp_of_mem fun {a b} _ hb hab hca hlow => ?_
  obtain ⟨hbefore, hapart⟩ := hab
  by_contra hcb
  -- the address where the later range begins is in both
  have hb' := hne b ((sortRanges_perm key v).mem_iff.mp hb)
  obtain ⟨hlo, hhi⟩ := AddrRange.contains_iff.mp hca
  refine hapart b.low ⟨AddrRange.contains_iff.mpr ⟨low_le_of_before hbefore, ?_⟩,
    AddrRange.contains_iff.mpr ⟨BitVec.le_refl _, hb'⟩⟩
  rw [BitVec.lt_def] at hhi ⊢
  exact (BitVec.le_def.mp hlow).trans_lt hhi

/-- **A range that contains the pc** is the one found. -/
theorem find_ofVector (hne : ∀ r ∈ v, r.low < r.high) (h : v.Pairwise Apart) {pc : UIntPtr}
    {r : AddrRange α} (hr : r ∈ v) (hcr : r.contains pc = true) :
    ∃ i, (ofVector key v).find pc = some i ∧ (ofVector key v).ranges[i]? = some r := by
  have hun := @unbroken_ofVector _ _ _ key _ hne h pc
  have hmem := (sortRanges_perm key v).mem_iff.mpr hr
  obtain ⟨i, hi⟩ := Option.isSome_iff_exists.mp (find_isSome hun hmem hcr)
  obtain ⟨r', hr', hcr'⟩ := ((find_eq_some_iff hun).mp hi).contains
  obtain ⟨j, hj⟩ := List.mem_iff_getElem?.mp hmem
  obtain ⟨hilt, rfl⟩ := List.getElem?_eq_some_iff.mp hr'
  obtain ⟨hjlt, rfl⟩ := List.getElem?_eq_some_iff.mp hj
  have hapart := List.pairwise_iff_getElem.mp (@apart_ofVector _ _ _ key _ h)
  rcases Nat.lt_trichotomy i j with hlt | rfl | hlt
  · exact absurd ⟨hcr', hcr⟩ (hapart i j hilt hjlt hlt pc)
  · exact ⟨i, hi, hj⟩
  · exact absurd ⟨hcr, hcr'⟩ (hapart j i hjlt hilt hlt pc)

end OfVector

end RangeTable

end Search

/-- Ranges that are not empty and do not overlap. -/
structure Flat {α : Type} (v : List (AddrRange α)) : Prop where
  lt : ∀ r ∈ v, r.low < r.high
  apart : v.Pairwise RangeTable.Apart

/-- Only one range has an address. -/
theorem Flat.eq_of_contains {α : Type} {v : List (AddrRange α)} (h : Flat v) {pc : UIntPtr}
    {r s : AddrRange α} (hr : r ∈ v) (hs : s ∈ v) (hcr : r.contains pc = true)
    (hcs : s.contains pc = true) : r = s := by
  obtain ⟨i, hi, rfl⟩ := List.getElem_of_mem hr
  obtain ⟨j, hj, rfl⟩ := List.getElem_of_mem hs
  have hapart := List.pairwise_iff_getElem.mp h.apart
  rcases Nat.lt_trichotomy i j with hlt | rfl | hlt
  · exact absurd ⟨hcr, hcs⟩ (hapart i j hi hj hlt pc)
  · rfl
  · exact absurd ⟨hcs, hcr⟩ (hapart j i hj hi hlt pc)

/-- **The unit of a pc.** In a module whose ranges do not overlap a pc is looked up in the unit
whose range contains it. -/
theorem unitAt_findRange {lineoff : Nat → Int} {v : List (AddrRange Nat)}
    (hne : ∀ r ∈ v, r.low < r.high) (h : v.Pairwise RangeTable.Apart) {dd : DwarfData}
    (hdd : dd.addrs = (backtraceQsort (unitAddrsCompare lineoff) v).1) {pc : UIntPtr}
    {r : AddrRange Nat} (hr : r ∈ v) (hcr : r.contains pc = true) :
    ∃ i, findRange unitAddrsSearch pc dd.addrs = some i ∧ dd.unitAt i = r.target := by
  obtain ⟨i, hi, hri⟩ := @RangeTable.find_ofVector _ _ _ lineoff _ hne h _ _ hr hcr
  refine ⟨i, hdd ▸ hi, ?_⟩
  have hri' : (backtraceQsort (unitAddrsCompare lineoff) v).1[i]? = some r := hri
  rw [DwarfData.unitAt, hdd, hri']
  rfl

/-- **The function of a pc**, or the function inlined at it, in the same way. -/
theorem function_findRange {v : List FunctionAddrs} (hne : ∀ r ∈ v, r.low < r.high)
    (h : v.Pairwise RangeTable.Apart) {pc : UIntPtr} {r : FunctionAddrs} (hr : r ∈ v)
    (hcr : r.contains pc = true) :
    (findRange functionAddrsSearch pc (backtraceQsort functionAddrsCompare v).1).bind
      ((backtraceQsort functionAddrsCompare v).1[·]?) = some r := by
  obtain ⟨i, hi, hri⟩ := @RangeTable.find_ofVector _ _ _ Function.name _ hne h _ _ hr hcr
  have hfind : findRange functionAddrsSearch pc (backtraceQsort functionAddrsCompare v).1 =
    some i := hi
  rw [hfind, Option.bind_some]
  exact hri

end Bktce.Libbacktrace
