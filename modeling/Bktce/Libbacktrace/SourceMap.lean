import Bktce.Libbacktrace.RangeTable
import Mathlib.Data.List.Forall2

/-!
# Which line a pc belongs to

A `SourceMap` is debug information that maps addresses to lines: the address ranges of units, which
do not overlap, and for each unit any line table and any functions. `SourceMap.library` is
libbacktrace over an executable with this debug information.

* `EntryAt m pc u l`: `pc` is in a range of unit `u`, and line `l` of its table covers it.
* `Resolves m pc calls e`: the callbacks `calls` made for `pc` are those for the entry `e` of a line
  table, or (`none`) say that no line is known.
* `SameEntry m r r'`: two lookups, each a pc with what was reported for it, resolve to one entry.
* `Boundary m pc`: a line begins or ends at `pc`, because its entry does or because the addresses of
  its unit do.

Results:
* `lookups_answered`: the library resolves every pc of a log to the entry that it belongs to.
* `sameEntry_pred_iff`: an address and the one before it are resolved to one entry, or both to none,
  iff the address is not a boundary.
-/

namespace Bktce.Libbacktrace

open Bktce.Lib

/-- A unit: what its entries say of it, its lines, and its functions in the order they are read
in. -/
structure SourceUnit where
  lineoff : Int
  filename : Option String
  compDir : Option String
  lines : LineTable
  functions : List FunctionAddrs

/-- The ranges of units, and the units. -/
structure SourceMap where
  ranges : List (AddrRange Nat)
  flat : Flat ranges
  units : Nat → SourceUnit

namespace SourceMap

variable (m : SourceMap)

/-! ## The library over a map -/

/-- The data `build_dwarf_data` makes, before anything is looked up. -/
def data : DwarfData where
  addrs := (backtraceQsort (unitAddrsCompare fun u => (m.units u).lineoff) m.ranges).1
  units u := ⟨(m.units u).filename, (m.units u).compDir, none, .unread, []⟩
  fvec := []
  info u := ⟨[], some (m.units u).lines, (m.units u).functions, true⟩

/-- The outside world of an executable with the map. -/
def host : Host := .serving [m.data]

/-- libbacktrace in this world. -/
def library : Library BacktraceState := Libbacktrace.library m.host

theorem coherent_data : Coherent none m.data :=
  ⟨fun _ => rfl, fun _ => rfl, rfl, fun _ => ⟨.inl rfl, .inl rfl⟩⟩

/-- A state that was just created serves the map. -/
theorem serves_init : Serves m.host [m.data] (.init none false) :=
  ⟨rfl, rfl, SameModules.refl _, fun dd hdd => by
    obtain rfl := List.mem_singleton.mp hdd
    exact m.coherent_data⟩

/-! ## Entries -/

/-- A range of unit `u` has `pc`. -/
def Has (u : Nat) (pc : UIntPtr) : Prop := ∃ r ∈ m.ranges, r.target = u ∧ r.contains pc = true

/-- `pc` belongs to line `l` of unit `u`. -/
structure EntryAt (pc : UIntPtr) (u l : Nat) : Prop where
  has : m.Has u pc
  covers : (m.units u).lines.Covers pc l

/-- The callbacks made for `pc` are those for an entry of a line table: unit and line. -/
inductive Resolves (pc : UIntPtr) : List FullCall → Option (Nat × Nat) → Prop
  | line {u l : Nat} {ln : Line} (entry : m.EntryAt pc u l)
      (mem : (m.units u).lines.lines[l]? = some ln) :
      Resolves pc (functionCalls pc
        (backtraceQsort functionAddrsCompare (m.units u).functions).1 ln) (some (u, l))
  | unknown {filename : Option String} (no_entry : ∀ u l, ¬ m.EntryAt pc u l) :
      Resolves pc [⟨pc, filename, 0, none⟩] none

/-- Two lookups resolve to one entry, or both to none. -/
def SameEntry (r r' : UIntPtr × List Report) : Prop :=
  ∃ e, m.Resolves r.1 (fullCalls r.2) e ∧ m.Resolves r'.1 (fullCalls r'.2) e

/-- A lookup is answered as the first one of its pc would be. -/
def Answered (r : UIntPtr × List Report) : Prop := fullCalls r.2 = answer none r.1 [m.data]

instance (r : UIntPtr × List Report) : Decidable (m.Answered r) :=
  inferInstanceAs (Decidable (_ = _))

variable {m}

theorem Has.unique {u u' : Nat} {pc : UIntPtr} (h : m.Has u pc) (h' : m.Has u' pc) : u = u' := by
  obtain ⟨r, hr, rfl, hc⟩ := h
  obtain ⟨r', hr', rfl, hc'⟩ := h'
  rw [m.flat.eq_of_contains hr hr' hc hc']

theorem EntryAt.unique {pc : UIntPtr} {u u' l l' : Nat} (h : m.EntryAt pc u l)
    (h' : m.EntryAt pc u' l') : (u, l) = (u', l') := by
  obtain rfl := h.has.unique h'.has
  have hl := LineTable.find_eq_some_iff.mpr h.covers
  have hl' := LineTable.find_eq_some_iff.mpr h'.covers
  rw [Option.some.inj (hl.symm.trans hl')]

/-- What a pc is resolved to is the entry it belongs to. -/
theorem Resolves.eq_some_iff {pc : UIntPtr} {calls : List FullCall} {e : Option (Nat × Nat)}
    (h : m.Resolves pc calls e) {u l : Nat} : e = some (u, l) ↔ m.EntryAt pc u l := by
  cases h with
  | line entry mem =>
    constructor
    · rintro ⟨⟩
      exact entry
    · exact fun h => congrArg some (entry.unique h)
  | unknown no_entry => exact ⟨fun h => (by cases h), fun h => absurd h (no_entry u l)⟩

/-- **libbacktrace resolves a pc** to the entry that it belongs to. -/
theorem resolves_answer (pc : UIntPtr) : ∃ e, m.Resolves pc (answer none pc [m.data]) e := by
  unfold answer moduleCalls
  by_cases hex : ∃ r ∈ m.ranges, r.contains pc = true
  · obtain ⟨r, hr, hc⟩ := hex
    obtain ⟨i, hi, hunit⟩ := @unitAt_findRange _ _ m.flat.lt m.flat.apart m.data rfl pc r hr hc
    have hhas : m.Has r.target pc := ⟨r, hr, rfl, hc⟩
    have hlines : (m.data.info (m.data.unitAt i)).lines = some (m.units r.target).lines := by
      rw [hunit]
      rfl
    have hfunctions : (takeFunctions [] (m.data.info (m.data.unitAt i)).functions).1 =
        (backtraceQsort functionAddrsCompare (m.units r.target).functions).1 := by
      rw [hunit]
      rfl
    rw [hi, Option.bind_some]
    simp only [hlines, hfunctions]
    cases hfind : (m.units r.target).lines.find pc with
    | none =>
      have hlookup : (m.units r.target).lines.lookup pc = none := by
        rw [LineTable.lookup, hfind, Option.bind_none]
      simp only [hlookup, ne_eq, not_true_eq_false, and_false, if_false, Option.getD_some]
      refine ⟨none, .unknown fun u l h => ?_⟩
      obtain rfl := h.has.unique hhas
      rw [LineTable.find_eq_some_iff.mpr h.covers] at hfind
      cases hfind
    | some l =>
      have hcovers := LineTable.find_eq_some_iff.mp hfind
      have hlt := hcovers.lt
      have hmem := List.getElem?_eq_getElem hlt
      have hlookup : (m.units r.target).lines.lookup pc =
          some (m.units r.target).lines.lines[l] := by
        rw [LineTable.lookup, hfind, Option.bind_some, hmem]
      simp only [hlookup, Option.getD_some]
      exact ⟨_, .line ⟨hhas, hcovers⟩ hmem⟩
  · have hnone : findRange unitAddrsSearch pc m.data.addrs = none :=
      findRange_eq_none fun r hr => by
        have hmem := (Quicksort.qsort_perm _ _ _).mem_iff.mp hr
        by_contra hc
        exact hex ⟨r, hmem, by simpa using hc⟩
    rw [hnone, Option.bind_none, Option.getD_none]
    refine ⟨none, .unknown fun u l h => ?_⟩
    obtain ⟨r, hr, -, hc⟩ := h.has
    exact hex ⟨r, hr, hc⟩

/-- Two pcs are resolved alike iff they belong to the same entries. -/
theorem sameEntry_iff {r r' : UIntPtr × List Report} (h : m.Answered r) (h' : m.Answered r') :
    m.SameEntry r r' ↔ ∀ u l, m.EntryAt r.1 u l ↔ m.EntryAt r'.1 u l := by
  obtain ⟨e, he⟩ := m.resolves_answer r.1
  obtain ⟨e', he'⟩ := m.resolves_answer r'.1
  unfold SameEntry
  rw [h, h']
  constructor
  · rintro ⟨e₁, h, h'⟩ u l
    rw [← h.eq_some_iff, ← h'.eq_some_iff]
  · intro h
    have heq : e = e' := Option.ext fun ⟨u, l⟩ =>
      he.eq_some_iff.trans ((h u l).trans he'.eq_some_iff.symm)
    exact ⟨e, he, heq ▸ he'⟩

/-- **The lookups of a log** are answered as if each were the first one. -/
theorem lookups_answered {p : StatePtr} : ∀ (pcs : List UIntPtr) (heap : StatePtr → BacktraceState),
    Serves m.host [m.data] (heap p) →
      List.Forall₂ (fun r pc => r.1 = pc ∧ m.Answered r)
        (lookups m.library heap (pcs.map fun pc => .pcinfo (some p) pc)) pcs
  | [], _, _ => .nil
  | pc :: pcs, _, h =>
    .cons ⟨rfl, (h.pcinfo pc).1⟩
      (lookups_answered pcs _ (by rw [if_pos rfl]; exact (h.pcinfo pc).2))

/-- The lookups on a state that the log creates. -/
theorem lookups_created_answered (p : StatePtr) (pcs : List UIntPtr)
    (heap : StatePtr → BacktraceState) :
    List.Forall₂ (fun r pc => r.1 = pc ∧ m.Answered r)
      (lookups m.library heap (.createState (some p) :: pcs.map fun pc =>
        .pcinfo (some p) pc)) pcs :=
  lookups_answered pcs _ (by rw [if_pos rfl]; exact m.serves_init)

/-! ## Boundaries -/

variable (m)

/-- The addresses of unit `u` begin at `pc`. -/
def UnitBegins (u : Nat) (pc : UIntPtr) : Prop :=
  (∃ r ∈ m.ranges, r.target = u ∧ r.low = pc) ∧ ∀ r ∈ m.ranges, r.target = u → r.high ≠ pc

/-- The addresses of unit `u` end before `pc`. -/
def UnitEnds (u : Nat) (pc : UIntPtr) : Prop :=
  (∃ r ∈ m.ranges, r.target = u ∧ r.high = pc) ∧ ∀ r ∈ m.ranges, r.target = u → r.low ≠ pc

/-- `pc` is the first address of a line. -/
def LineBegins (pc : UIntPtr) : Prop :=
  ∃ u l, m.EntryAt pc u l ∧ ((m.units u).lines.pcAt l = pc ∨ m.UnitBegins u pc)

/-- `pc` is the address behind the last one of a line. -/
def LineEnds (pc : UIntPtr) : Prop :=
  ∃ u l, m.EntryAt (pc - 1) u l ∧ ((m.units u).lines.pcAt (l + 1) = pc ∨ m.UnitEnds u pc)

/-- A line begins or ends at `pc`. -/
def Boundary (pc : UIntPtr) : Prop := m.LineBegins pc ∨ m.LineEnds pc

variable {m}

/-- A range that has `pc` has the address before it as well, unless it begins at `pc`. -/
theorem contains_pred_iff {r : AddrRange Nat} {pc : UIntPtr} (hpc : pc ≠ 0)
    (h : r.contains pc = true) : ¬ r.contains (pc - 1) = true ↔ r.low = pc := by
  rw [AddrRange.contains_iff, BitVec.le_def, BitVec.lt_def] at h ⊢
  rw [← BitVec.toNat_inj]
  exact Search.not_lower_iff (LineTable.toNat_pred_covBy hpc) h

/-- A range that has the address before `pc` has `pc` as well, unless it ends before it. -/
theorem contains_succ_iff {r : AddrRange Nat} {pc : UIntPtr} (hpc : pc ≠ 0)
    (h : r.contains (pc - 1) = true) : ¬ r.contains pc = true ↔ r.high = pc := by
  rw [AddrRange.contains_iff, BitVec.le_def, BitVec.lt_def] at h ⊢
  rw [← BitVec.toNat_inj]
  exact Search.not_upper_iff (LineTable.toNat_pred_covBy hpc) h

theorem contains_low {r : AddrRange Nat} (hr : r ∈ m.ranges) : r.contains r.low = true :=
  AddrRange.contains_iff.mpr ⟨BitVec.le_refl _, m.flat.lt r hr⟩

theorem contains_pred_high {r : AddrRange Nat} (hr : r ∈ m.ranges) :
    r.contains (r.high - 1) = true := by
  have hlt := BitVec.lt_def.mp (m.flat.lt r hr)
  have hne : r.high ≠ 0 := fun h => by
    rw [h] at hlt
    exact absurd hlt (Nat.not_lt_zero _)
  have hcov := LineTable.toNat_pred_covBy hne
  rw [AddrRange.contains_iff, BitVec.le_def, BitVec.lt_def]
  exact ⟨hcov.le_of_lt hlt, hcov.lt⟩

/-- A unit that has `pc` has the address before it as well, unless it begins at `pc`. -/
theorem Has.not_pred_iff {u : Nat} {pc : UIntPtr} (hpc : pc ≠ 0) (h : m.Has u pc) :
    ¬ m.Has u (pc - 1) ↔ m.UnitBegins u pc := by
  constructor
  · intro hno
    obtain ⟨r, hr, hu, hc⟩ := h
    refine ⟨⟨r, hr, hu, (contains_pred_iff hpc hc).mp fun h => hno ⟨r, hr, hu, h⟩⟩, ?_⟩
    rintro s hs hsu rfl
    exact hno ⟨s, hs, hsu, contains_pred_high hs⟩
  · rintro ⟨⟨s, hs, -, rfl⟩, hhigh⟩ ⟨t, ht, htu, htc⟩
    by_cases hc : t.contains s.low = true
    · -- the range that begins at `pc` is the only one that has it
      obtain rfl := m.flat.eq_of_contains hs ht (contains_low hs) hc
      exact (contains_pred_iff hpc hc).mpr rfl htc
    · exact hhigh t ht htu ((contains_succ_iff hpc htc).mp hc)

/-- A unit that has the address before `pc` has `pc` as well, unless it ends before it. -/
theorem Has.not_succ_iff {u : Nat} {pc : UIntPtr} (hpc : pc ≠ 0) (h : m.Has u (pc - 1)) :
    ¬ m.Has u pc ↔ m.UnitEnds u pc := by
  constructor
  · intro hno
    obtain ⟨r, hr, hu, hc⟩ := h
    refine ⟨⟨r, hr, hu, (contains_succ_iff hpc hc).mp fun h => hno ⟨r, hr, hu, h⟩⟩, ?_⟩
    rintro s hs hsu rfl
    exact hno ⟨s, hs, hsu, contains_low hs⟩
  · rintro ⟨⟨s, hs, -, rfl⟩, hlow⟩ ⟨t, ht, htu, htc⟩
    by_cases hc : t.contains (s.high - 1) = true
    · -- the range that ends before `pc` is the only one that has the address before it
      obtain rfl := m.flat.eq_of_contains hs ht (contains_pred_high hs) hc
      exact (contains_succ_iff hpc hc).mpr rfl htc
    · exact hlow t ht htu (of_not_not fun h => hc (of_not_not fun hc' =>
        h ((contains_pred_iff hpc htc).mp hc')))

theorem EntryAt.not_pred_iff {pc : UIntPtr} {u l : Nat} (hpc : pc ≠ 0) (h : m.EntryAt pc u l) :
    ¬ m.EntryAt (pc - 1) u l ↔ (m.units u).lines.pcAt l = pc ∨ m.UnitBegins u pc := by
  rw [← h.covers.not_pred_iff hpc, ← h.has.not_pred_iff hpc, ← not_and_or, and_comm]
  exact not_congr ⟨fun h => ⟨h.has, h.covers⟩, fun h => ⟨h.1, h.2⟩⟩

theorem EntryAt.not_succ_iff {pc : UIntPtr} {u l : Nat} (hpc : pc ≠ 0)
    (h : m.EntryAt (pc - 1) u l) :
    ¬ m.EntryAt pc u l ↔ (m.units u).lines.pcAt (l + 1) = pc ∨ m.UnitEnds u pc := by
  rw [← h.covers.not_succ_iff hpc, ← h.has.not_succ_iff hpc, ← not_and_or, and_comm]
  exact not_congr ⟨fun h => ⟨h.has, h.covers⟩, fun h => ⟨h.1, h.2⟩⟩

/-- **Adjacent addresses** are resolved to one entry, or both to none, iff no line begins or ends
between them. -/
theorem sameEntry_pred_iff {pc : UIntPtr} (hpc : pc ≠ 0) {reports reports' : List Report}
    (h : m.Answered (pc, reports)) (h' : m.Answered (pc - 1, reports')) :
    m.SameEntry (pc, reports) (pc - 1, reports') ↔ ¬ m.Boundary pc := by
  rw [sameEntry_iff h h']
  constructor
  · rintro h (⟨u, l, hentry, hb⟩ | ⟨u, l, hentry, hb⟩)
    · exact (hentry.not_pred_iff hpc).mpr hb ((h u l).mp hentry)
    · exact (hentry.not_succ_iff hpc).mpr hb ((h u l).mpr hentry)
  · intro h u l
    constructor
    · intro hentry
      by_contra hno
      exact h (.inl ⟨u, l, hentry, (hentry.not_pred_iff hpc).mp hno⟩)
    · intro hentry
      by_contra hno
      exact h (.inr ⟨u, l, hentry, (hentry.not_succ_iff hpc).mp hno⟩)

end SourceMap

end Bktce.Libbacktrace
