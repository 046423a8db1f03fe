import Bktce.Libbacktrace.Buf
import Bktce.Libbacktrace.RangeTable

/-!
# Collecting address ranges

Model of `add_unit_addr` and `add_function_range` (`dwarf.c:851-886`, `dwarf.c:2153-2189`), which
have one text, and of the loop of `add_unit_ranges` and `add_function_ranges` (`dwarf.c:1183-1241`,
`dwarf.c:2194-2246`), which reads a list of ranges from `.debug_ranges`.

* A target is a pointer: to a unit or to a function. Memory for the vector is there.
* A range that begins where the last one of its target ends is merged with it. So is one that begins
  an address behind that; then the address between them is covered too.

Results:

* `addRange_covers_iff`: what is covered after a range was added.
* `covers_addRanges_bounds`: no address is lost, whatever is merged, and nothing else is covered but
  addresses directly before a range.
* `tidy_addRanges`: ranges of at least two addresses that do not overlap stay so.
* `reads_addRangesAt`: the ranges added without an error are those of a list in the section that
  ends with two zeros.
* `noFault_addRangesAt`: the loop ends, and stays inside the section.
-/

namespace Bktce.Libbacktrace

open Bktce.Lib Buf

section Add

variable {α : Type} [DecidableEq α]

/-- `add_unit_addr` and `add_function_range`, for a module loaded at `base`. -/
def addRange (base low high : UIntPtr) (target : α) (vec : List (AddrRange α)) :
    List (AddrRange α) :=
  let low := low + base
  let high := high + base
  match vec.getLast? with
  | some p =>
    if (low = p.high ∨ low = p.high + 1) ∧ target = p.target then
      vec.dropLast ++ [{ p with high := if high > p.high then high else p.high }]
    else vec ++ [⟨low, high, target⟩]
  | none => vec ++ [⟨low, high, target⟩]

/-- What a range adds is merged with the last range, or is a range of its own. -/
theorem addRange_cases (base low high : UIntPtr) (target : α) (vec : List (AddrRange α)) :
    (∃ init p, vec = init ++ [p] ∧ (low + base = p.high ∨ low + base = p.high + 1) ∧
      target = p.target ∧ addRange base low high target vec =
        init ++ [{ p with high := if high + base > p.high then high + base else p.high }]) ∨
    (∀ p, vec.getLast? = some p → ¬ ((low + base = p.high ∨ low + base = p.high + 1) ∧
        target = p.target)) ∧
      addRange base low high target vec = vec ++ [⟨low + base, high + base, target⟩] := by
  unfold addRange
  cases hlast : vec.getLast? with
  | none => exact Or.inr ⟨fun p hp => (by cases hp), rfl⟩
  | some p =>
    by_cases hmerge : (low + base = p.high ∨ low + base = p.high + 1) ∧ target = p.target
    · obtain ⟨init, rfl⟩ := List.getLast?_eq_some_iff.mp hlast
      refine Or.inl ⟨init, p, rfl, hmerge.1, hmerge.2, ?_⟩
      simp only
      rw [if_pos hmerge, List.dropLast_concat]
    · refine Or.inr ⟨fun p' hp => ?_, ?_⟩
      · obtain rfl := Option.some.inj hp
        exact hmerge
      · simp only
        rw [if_neg hmerge]

/-! ## What is covered -/

/-- Some range of the target contains the address. -/
def Covers (vec : List (AddrRange α)) (target : α) (pc : UIntPtr) : Prop :=
  ∃ r ∈ vec, r.target = target ∧ r.contains pc = true

/-- A range that does not end before it begins, or at the highest address. -/
def AddrRange.Proper (r : AddrRange α) : Prop := r.low ≤ r.high ∧ r.high.toNat + 1 < 2 ^ 64

/-- The address between two ranges that are merged although it is in neither. -/
def Gap (vec : List (AddrRange α)) (low high : UIntPtr) (target : α) (pc : UIntPtr) : Prop :=
  ∃ p, vec.getLast? = some p ∧ target = p.target ∧ pc = p.high ∧ low = pc + 1 ∧ low ≤ high

omit [DecidableEq α] in
theorem covers_concat {vec : List (AddrRange α)} {r : AddrRange α} {target : α} {pc : UIntPtr} :
    Covers (vec ++ [r]) target pc ↔
      Covers vec target pc ∨ r.target = target ∧ r.contains pc = true := by
  constructor
  · rintro ⟨x, hx, h⟩
    rcases List.mem_append.mp hx with hx | hx
    · exact Or.inl ⟨x, hx, h⟩
    · exact Or.inr (List.mem_singleton.mp hx ▸ h)
  · rintro (⟨x, hx, h⟩ | h)
    · exact ⟨x, List.mem_append_left _ hx, h⟩
    · exact ⟨r, by simp, h⟩

/-- Two ranges that are merged, and the address between them. -/
theorem merged_iff {l h low high pc : UIntPtr} (hproper : l ≤ h ∧ h.toNat + 1 < 2 ^ 64)
    (hlow : low = h ∨ low = h + 1) :
    l ≤ pc ∧ pc < (if high > h then high else h) ↔
      l ≤ pc ∧ pc < h ∨ low ≤ pc ∧ pc < high ∨ pc = h ∧ low = pc + 1 ∧ low ≤ high := by
  have hsucc : (h + 1).toNat = h.toNat + 1 := by
    rw [BitVec.toNat_add]
    exact Nat.mod_eq_of_lt hproper.2
  have hmax : (if high > h then high else h).toNat = max high.toNat h.toNat := by
    split
    · rename_i hgt
      exact (Nat.max_eq_left (BitVec.lt_def.mp hgt).le).symm
    · rename_i hgt
      exact (Nat.max_eq_right (BitVec.le_def.mp (BitVec.not_lt.mp hgt))).symm
  have hnext : (pc + 1).toNat = (pc.toNat + 1) % 2 ^ 64 := BitVec.toNat_add pc 1
  generalize (if high > h then high else h) = m at hmax ⊢
  obtain ⟨hle, hlt⟩ := hproper
  simp only [BitVec.le_def, BitVec.lt_def, ← BitVec.toNat_inj, hmax, hsucc, hnext] at hle hlow ⊢
  omega

/-- **What is covered** after a range was added. -/
theorem addRange_covers_iff {vec : List (AddrRange α)} (hv : ∀ r ∈ vec, r.Proper)
    {base low high : UIntPtr} {target t : α} {pc : UIntPtr} :
    Covers (addRange base low high target vec) t pc ↔
      Covers vec t pc ∨ target = t ∧ (low + base ≤ pc ∧ pc < high + base ∨
        Gap vec (low + base) (high + base) target pc) := by
  rcases addRange_cases base low high target vec with ⟨init, p, rfl, hlow, rfl, heq⟩ | ⟨hnot, heq⟩
  · have hmerged := @merged_iff p.low p.high (low + base) (high + base) pc (hv p (by simp)) hlow
    have hgap : Gap (init ++ [p]) (low + base) (high + base) p.target pc ↔
        pc = p.high ∧ low + base = pc + 1 ∧ low + base ≤ high + base := by
      simp only [Gap, List.getLast?_concat, Option.some.injEq, exists_eq_left', true_and]
    rw [heq, covers_concat, covers_concat, or_assoc, ← and_or_left, AddrRange.contains_iff,
      AddrRange.contains_iff, hgap]
    exact or_congr_right (and_congr_right fun _ => hmerged)
  · have hgap : ¬ Gap vec (low + base) (high + base) target pc := by
      rintro ⟨p, hp, htarget, rfl, hlow, -⟩
      exact hnot p hp ⟨Or.inr hlow, htarget⟩
    rw [heq, covers_concat, AddrRange.contains_iff]
    simp only [hgap, or_false]

theorem proper_addRange {vec : List (AddrRange α)} (hv : ∀ r ∈ vec, r.Proper)
    {base low high : UIntPtr} {target : α}
    (hnew : AddrRange.Proper ⟨low + base, high + base, target⟩) :
    ∀ r ∈ addRange base low high target vec, r.Proper := by
  rcases addRange_cases base low high target vec with ⟨init, p, rfl, hlow, rfl, heq⟩ | ⟨-, heq⟩
  · rw [heq, List.forall_mem_append]
    refine ⟨fun r hr => hv r (List.mem_append_left _ hr), fun r hr => ?_⟩
    have hp := hv p (by simp)
    rw [List.mem_singleton.mp hr]
    unfold AddrRange.Proper at hp hnew ⊢
    simp only
    split
    · rename_i hgt
      exact ⟨BitVec.le_trans hp.1 (BitVec.le_of_lt hgt), hnew.2⟩
    · exact hp
  · rw [heq, List.forall_mem_append]
    exact ⟨hv, fun r hr => List.mem_singleton.mp hr ▸ hnew⟩

/-- A range of a module loaded at `base`. -/
def placed (base : UIntPtr) (target : α) (r : UIntPtr × UIntPtr) : AddrRange α :=
  ⟨r.1 + base, r.2 + base, target⟩

/-- Adding one range after another. -/
def addRanges (base : UIntPtr) (target : α) (rs : List (UIntPtr × UIntPtr))
    (vec : List (AddrRange α)) : List (AddrRange α) :=
  rs.foldl (fun vec r => addRange base r.1 r.2 target vec) vec

/-- **No address is lost**, whatever is merged. -/
theorem covers_addRanges {base : UIntPtr} {target t : α} {pc : UIntPtr}
    {rs : List (UIntPtr × UIntPtr)} {vec : List (AddrRange α)} (hv : ∀ r ∈ vec, r.Proper)
    (hrs : ∀ r ∈ rs, (placed base target r).Proper)
    (h : Covers vec t pc ∨ target = t ∧ ∃ r ∈ rs, (placed base target r).contains pc = true) :
    Covers (addRanges base target rs vec) t pc := by
  induction rs generalizing vec with
  | nil =>
    rcases h with h | ⟨-, r, hr, -⟩
    · exact h
    · cases hr
  | cons r rs ih =>
    have hcov := @addRange_covers_iff _ _ vec hv base r.1 r.2 target t pc
    refine ih (proper_addRange hv (hrs r List.mem_cons_self))
      (fun r' hr' => hrs r' (List.mem_cons_of_mem _ hr')) ?_
    rcases h with h | ⟨rfl, r', hr', hc⟩
    · exact Or.inl (hcov.mpr (Or.inl h))
    · rcases List.mem_cons.mp hr' with rfl | hr'
      · exact Or.inl (hcov.mpr (Or.inr ⟨rfl, Or.inl (AddrRange.contains_iff.mp hc)⟩))
      · exact Or.inr ⟨rfl, r', hr', hc⟩

/-- **Nothing else is covered** than the ranges and addresses directly before one of them. -/
theorem of_covers_addRanges {base : UIntPtr} {target t : α} {pc : UIntPtr}
    {rs : List (UIntPtr × UIntPtr)} {vec : List (AddrRange α)} (hv : ∀ r ∈ vec, r.Proper)
    (hrs : ∀ r ∈ rs, (placed base target r).Proper)
    (h : Covers (addRanges base target rs vec) t pc) :
    Covers vec t pc ∨ target = t ∧
      ∃ r ∈ rs, (placed base target r).contains pc = true ∨ r.1 + base = pc + 1 := by
  induction rs generalizing vec with
  | nil => exact Or.inl h
  | cons r rs ih =>
    have hcov := @addRange_covers_iff _ _ vec hv base r.1 r.2 target t pc
    rcases ih (proper_addRange hv (hrs r List.mem_cons_self))
      (fun r' hr' => hrs r' (List.mem_cons_of_mem _ hr')) h with h | ⟨rfl, r', hr', hc⟩
    · rcases hcov.mp h with h | ⟨rfl, hin | ⟨p, -, -, -, hnext, -⟩⟩
      · exact Or.inl h
      · exact Or.inr ⟨rfl, r, List.mem_cons_self, Or.inl (AddrRange.contains_iff.mpr hin)⟩
      · exact Or.inr ⟨rfl, r, List.mem_cons_self, Or.inr hnext⟩
    · exact Or.inr ⟨rfl, r', List.mem_cons_of_mem _ hr', hc⟩

/-- **What is covered** after ranges were added: every address of them and of the ranges before, and
besides these at most the address directly before a range. -/
theorem covers_addRanges_bounds {base : UIntPtr} {target t : α} (pc : UIntPtr)
    {rs : List (UIntPtr × UIntPtr)} {vec : List (AddrRange α)} (hv : ∀ r ∈ vec, r.Proper)
    (hrs : ∀ r ∈ rs, (placed base target r).Proper) :
    (Covers vec t pc ∨ target = t ∧ (∃ r ∈ rs, (placed base target r).contains pc = true) →
      Covers (addRanges base target rs vec) t pc) ∧
    (Covers (addRanges base target rs vec) t pc → Covers vec t pc ∨ target = t ∧
      ∃ r ∈ rs, (placed base target r).contains pc = true ∨ r.1 + base = pc + 1) :=
  ⟨covers_addRanges hv hrs, of_covers_addRanges hv hrs⟩

/-- Two ranges of one unit, an address apart. -/
theorem covers_addRanges_bounds_apart :
    let vec := addRanges (0 : UIntPtr) (0 : Nat) [(0x10, 0x1f), (0x20, 0x30)] []
    (Covers [] 0 0x1f ∨ 0 = 0 ∧ (∃ r ∈ [((0x10 : UIntPtr), (0x1f : UIntPtr)), (0x20, 0x30)],
        (placed (0 : UIntPtr) 0 r).contains 0x1f = true) → Covers vec 0 0x1f) ∧
      (Covers vec 0 0x1f → Covers [] 0 0x1f ∨ 0 = 0 ∧
        ∃ r ∈ [((0x10 : UIntPtr), (0x1f : UIntPtr)), (0x20, 0x30)],
          (placed (0 : UIntPtr) 0 r).contains 0x1f = true ∨ r.1 + 0 = 0x1f + 1) :=
  covers_addRanges_bounds 0x1f (by simp) (by simp [placed, AddrRange.Proper])

/-! ## Ranges that do not overlap -/

/-- A range of at least two addresses that does not end at the highest address. -/
def AddrRange.Sized (r : AddrRange α) : Prop :=
  r.low.toNat + 1 < r.high.toNat ∧ r.high.toNat + 1 < 2 ^ 64

/-- Ranges of at least two addresses, no two of which overlap. -/
structure Tidy (vec : List (AddrRange α)) : Prop where
  sized : ∀ r ∈ vec, r.Sized
  apart : vec.Pairwise RangeTable.Apart

omit [DecidableEq α] in
theorem AddrRange.Sized.lt {r : AddrRange α} (h : r.Sized) : r.low < r.high :=
  BitVec.lt_def.mpr (by have := h.1; omega)

end Add

/-! ## Reading a list of ranges -/

/-- `is_highest_address`. -/
def isHighestAddress (address : BitVec 64) (addrsize : Nat) : Bool :=
  match addrsize with
  | 1 => address == 0xff
  | 2 => address == 0xffff
  | 4 => address == 0xffffffff
  | 8 => address == 0xffffffffffffffff
  | _ => false

section ReadRanges

variable {α : Type} [DecidableEq α]

/-- The loop of `add_unit_ranges` and `add_function_ranges`; `base` is what the ranges are relative
to. -/
def rangesLoop (addrsize : Nat) (baseAddress : UIntPtr) (target : α) :
    Nat → BitVec 64 → List (AddrRange α) → ReadLeaving (List (AddrRange α)) (List (AddrRange α))
  | 0, _, vec => throw (.fault, vec)
  | fuel + 1, base, vec => do
    leaving vec failOnUnderflow
    let low ← leaving vec (readAddress addrsize)
    let high ← leaving vec (readAddress addrsize)
    if low = 0 ∧ high = 0 then
      return vec
    if isHighestAddress low addrsize then
      rangesLoop addrsize baseAddress target fuel high vec
    else
      rangesLoop addrsize baseAddress target fuel base
        (addRange baseAddress (low + base) (high + base) target vec)

/-- The part of `add_unit_ranges` and `add_function_ranges` that reads. -/
def readRanges (addrsize : Nat) (baseAddress : UIntPtr) (target : α) (base : BitVec 64)
    (vec : List (AddrRange α)) : ReadLeaving (List (AddrRange α)) (List (AddrRange α)) := do
  -- a turn reads something, or the next one fails
  let fuel := (← get).left.toNat + 2
  let vec ← rangesLoop addrsize baseAddress target fuel base vec
  leaving vec failOnUnderflow
  return vec

/-- The buffer at a list of ranges. -/
def rangesBuf (dwarfRanges : List Byte) (ranges : SizeT) (isBigendian : Bool) : Buf :=
  Buf.ofSection ".debug_ranges" dwarfRanges ranges isBigendian

/-- The text of `add_unit_ranges` and `add_function_ranges`. -/
def addRangesAt (outOfRange : String) (addrsize : Nat) (baseAddress : UIntPtr) (target : α)
    (ranges : SizeT) (base : BitVec 64) (dwarfRanges : List Byte) (isBigendian : Bool)
    (vec : List (AddrRange α)) : ReadLeaving (List (AddrRange α)) (List (AddrRange α)) := do
  if ranges.toNat ≥ dwarfRanges.length then
    leaving vec (errorCallback outOfRange)
    throw (.failed, vec)
  throughCopy (rangesBuf dwarfRanges ranges isBigendian)
    (readRanges addrsize baseAddress target base vec)

/-- `add_unit_ranges`. When it fails, its caller frees the vector. -/
def addUnitRanges (addrsize : Nat) (baseAddress : UIntPtr) (target : α) (ranges : SizeT)
    (base : BitVec 64) (dwarfRanges : List Byte) (isBigendian : Bool) (vec : List (AddrRange α)) :
    Read (List (AddrRange α)) :=
  (addRangesAt "ranges offset out of range" addrsize baseAddress target ranges base dwarfRanges
    isBigendian vec).adaptExcept Prod.fst

/-- `add_function_ranges`. -/
def addFunctionRanges : Nat → UIntPtr → α → SizeT → BitVec 64 → List Byte → Bool →
    List (AddrRange α) → ReadLeaving (List (AddrRange α)) (List (AddrRange α)) :=
  addRangesAt "function ranges offset out of range"

end ReadRanges

/-- The bytes of a list of ranges: pairs of addresses up to two zeros. -/
inductive RangeListBytes (big : Bool) (addrsize : Nat) :
    Nat → List (BitVec 64 × BitVec 64) → List Byte → Prop
  | last {p : Nat} {as bs : List Byte} (low : AddressBytes big addrsize p 0 as)
      (high : AddressBytes big addrsize (p + as.length) 0 bs) :
      RangeListBytes big addrsize p [] (as ++ bs)
  | cons {p : Nat} {l h : BitVec 64} {es : List (BitVec 64 × BitVec 64)} {as bs cs : List Byte}
      (low : AddressBytes big addrsize p l as)
      (high : AddressBytes big addrsize (p + as.length) h bs) (nonzero : ¬ (l = 0 ∧ h = 0))
      (tail : RangeListBytes big addrsize (p + as.length + bs.length) es cs) :
      RangeListBytes big addrsize p ((l, h) :: es) (as ++ (bs ++ cs))

/-- The ranges of a list: an entry with the highest address changes what they are relative to. -/
def rangesFrom (addrsize : Nat) : BitVec 64 → List (BitVec 64 × BitVec 64) →
    List (BitVec 64 × BitVec 64)
  | _, [] => []
  | base, (low, high) :: es =>
    if isHighestAddress low addrsize then rangesFrom addrsize high es
    else (low + base, high + base) :: rangesFrom addrsize base es

section Reads

variable {α : Type} [DecidableEq α] {big : Bool} {addrsize : Nat} {baseAddress : UIntPtr}
  {target : α}

/-- **The loop** reads the lists of fewer entries than it has turns. -/
theorem reads_rangesLoop (fuel : Nat) : ∀ (base : BitVec 64) (vec : List (AddrRange α)),
    Reads (cursor big) (rangesLoop addrsize baseAddress target fuel base vec) fun p v bs =>
      ∃ es, es.length < fuel ∧ RangeListBytes big addrsize p es bs ∧
        v = addRanges baseAddress target (rangesFrom addrsize base es) vec := by
  induction fuel with
  | zero =>
    exact fun base vec => (Reads.throw (Stop.fault, vec)).congr fun p v bs =>
      ⟨False.elim, fun ⟨es, hes, _⟩ => absurd hes (Nat.not_lt_zero _)⟩
  | succ fuel ih =>
    intro base vec
    have haddress := (@reads_readAddress big addrsize).adaptExcept fun e => (e, vec)
    refine ((reads_failOnUnderflow.adaptExcept _).bind fun _ => haddress.bind fun low =>
      haddress.bind (H := fun high p v bs =>
        if low = 0 ∧ high = 0 then v = vec ∧ bs = []
        else ∃ es, es.length < fuel ∧ RangeListBytes big addrsize p es bs ∧
          v = addRanges baseAddress target (rangesFrom addrsize base ((low, high) :: es)) vec)
        fun high => ?_).congr fun p v bs => ?_
    · by_cases hzero : low = 0 ∧ high = 0
      · simp only [if_pos hzero]
        exact Reads.pure vec
      · simp only [if_neg hzero]
        by_cases hbase : isHighestAddress low addrsize = true
        · simp only [rangesFrom, if_pos hbase]
          exact ih high vec
        · simp only [rangesFrom, if_neg hbase]
          exact ih base _
    · constructor
      · rintro ⟨_, _, _, rfl, rfl, low, as, _, rfl, hlow, high, bs, cs, rfl, hhigh, h⟩
        rw [List.length_nil, Nat.add_zero] at hlow hhigh h
        rw [List.nil_append]
        by_cases hzero : low = 0 ∧ high = 0
        · obtain ⟨rfl, rfl⟩ := hzero
          obtain ⟨rfl, rfl⟩ := (if_pos (And.intro rfl rfl)).mp h
          refine ⟨[], Nat.succ_pos fuel, ?_, rfl⟩
          rw [List.append_nil]
          exact RangeListBytes.last hlow hhigh
        · obtain ⟨es, hes, htail, rfl⟩ := (if_neg hzero).mp h
          exact ⟨(low, high) :: es, Nat.succ_lt_succ hes,
            RangeListBytes.cons hlow hhigh hzero htail, rfl⟩
      · rintro ⟨es, hes, hlist, rfl⟩
        refine ⟨(), [], bs, rfl, rfl, ?_⟩
        rw [List.length_nil, Nat.add_zero]
        cases hlist with
        | @last _ as bs low high =>
          exact ⟨0, as, bs, rfl, low, 0, bs, [], (List.append_nil bs).symm, high,
            (if_pos (And.intro rfl rfl)).mpr ⟨rfl, rfl⟩⟩
        | @cons _ l h es as bs cs low high nonzero tail =>
          exact ⟨l, as, bs ++ cs, rfl, low, h, bs, cs, rfl, high,
            (if_neg nonzero).mpr ⟨es, Nat.lt_of_succ_lt_succ hes, tail, rfl⟩⟩

theorem AddressBytes.length_pos {p : Nat} {v : BitVec 64} {bs : List Byte}
    (h : AddressBytes big addrsize p v bs) : 0 < bs.length := by
  obtain ⟨hmem, u, ⟨hlen, -⟩, -⟩ := h
  rw [hlen]
  by_contra hc
  rw [Nat.eq_zero_of_not_pos hc] at hmem
  simp at hmem

theorem RangeListBytes.length_lt {p : Nat} {es : List (BitVec 64 × BitVec 64)} {bs : List Byte}
    (h : RangeListBytes big addrsize p es bs) : es.length < bs.length := by
  induction h with
  | last low high =>
    have := low.length_pos
    rw [List.length_append, List.length_nil]
    omega
  | cons low high nonzero tail ih =>
    have := low.length_pos
    rw [List.length_append, List.length_append, List.length_cons]
    omega

theorem readRanges_run (base : BitVec 64) (vec : List (AddrRange α)) (buf : Buf) :
    (readRanges addrsize baseAddress target base vec).run buf = (do
      let vec ← rangesLoop addrsize baseAddress target (buf.left.toNat + 2) base vec
      leaving vec failOnUnderflow
      return vec).run buf := by
  rw [readRanges, EStateM.run_bind, EStateM.run_get]

/-- The reader does not succeed with an underflow. -/
theorem readRanges_ok {base : BitVec 64} {vec vec' : List (AddrRange α)} {buf buf' : Buf}
    (h : (readRanges addrsize baseAddress target base vec).run buf = .ok vec' buf') :
    buf'.reportedUnderflow = false := by
  rw [readRanges_run] at h
  obtain ⟨v, s, -, h₁⟩ := run_bind_ok h
  obtain ⟨u, s', hu, h₂⟩ := run_bind_ok h₁
  obtain ⟨rfl, hs⟩ := failOnUnderflow_ok (run_adaptExcept_ok.mp hu)
  obtain ⟨-, rfl⟩ := EStateM.Result.ok.inj h₂
  exact hs

/-- **A list of ranges.** -/
theorem reads_readRanges (base : BitVec 64) (vec : List (AddrRange α)) :
    Reads (cursor big) (readRanges addrsize baseAddress target base vec) fun p v bs =>
      ∃ es, RangeListBytes big addrsize p es bs ∧
        v = addRanges baseAddress target (rangesFrom addrsize base es) vec := by
  have hreads : ∀ fuel, Reads (cursor big) (do
        let vec ← rangesLoop addrsize baseAddress target fuel base vec
        leaving vec failOnUnderflow
        return vec) fun p v bs =>
      ∃ es, es.length < fuel ∧ RangeListBytes big addrsize p es bs ∧
        v = addRanges baseAddress target (rangesFrom addrsize base es) vec := by
    intro fuel
    refine ((reads_rangesLoop fuel base vec).bind fun v =>
      (reads_failOnUnderflow.adaptExcept _).bind fun _ => Reads.pure v).congr
      fun p w cs => ⟨?_, ?_⟩
    · rintro ⟨v, as, _, rfl, h, _, _, _, rfl, rfl, rfl, rfl⟩
      rwa [List.append_nil, List.append_nil]
    · intro h
      exact ⟨w, cs, [], (List.append_nil cs).symm, h, (), [], [], rfl, rfl, rfl, rfl⟩
  constructor
  · rintro buf v bs hok hbs ⟨es, hes, rfl⟩
    have hlen := hbs.length_le
    rw [length_ahead big hok.1] at hlen
    rw [readRanges_run]
    exact (hreads _).complete hok hbs ⟨es, by have := hes.length_lt; omega, hes, rfl⟩
  · intro buf v buf' hok h hn
    rw [readRanges_run] at h
    obtain ⟨bs, hbs, ⟨es, -, hes⟩, rfl⟩ := (hreads _).sound hok h hn
    exact ⟨bs, hbs, ⟨es, hes⟩, rfl⟩
  · intro buf v buf' h
    rw [readRanges_run] at h
    exact (hreads _).grows h

omit [DecidableEq α] in
theorem rangesBuf_ok {dwarfRanges : List Byte} {ranges : SizeT}
    (hlen : dwarfRanges.length < 2 ^ 63) (hoff : ranges.toNat ≤ dwarfRanges.length) :
    (cursor big).Ok (rangesBuf dwarfRanges ranges big) ∧
      (cursor big).ahead (rangesBuf dwarfRanges ranges big) = dwarfRanges.drop ranges.toNat :=
  ofSection_ok hlen hoff

/-- The list of ranges at an offset of a section. -/
def RangesAt (big : Bool) (addrsize : Nat) (dwarfRanges : List Byte) (ranges : SizeT)
    (es : List (BitVec 64 × BitVec 64)) : Prop :=
  ∃ bs, bs <+: dwarfRanges.drop ranges.toNat ∧ RangeListBytes big addrsize ranges.toNat es bs

/-- **The ranges that are added** without an error are those of a list in the section. Nothing of
the buffer they are added for is read. -/
theorem reads_addRangesAt {big' : Bool} {outOfRange : String} {ranges : SizeT} {base : BitVec 64}
    {dwarfRanges : List Byte} (hlen : dwarfRanges.length < 2 ^ 63) (vec : List (AddrRange α)) :
    Reads (cursor big')
      (addRangesAt outOfRange addrsize baseAddress target ranges base dwarfRanges big vec)
      fun _ v bs => bs = [] ∧ ∃ es, RangesAt big addrsize dwarfRanges ranges es ∧
        v = addRanges baseAddress target (rangesFrom addrsize base es) vec := by
  unfold addRangesAt
  by_cases hoff : ranges.toNat ≥ dwarfRanges.length
  · simp only [if_pos hoff]
    refine (Reads.of_noise (fun _ h => noise_errorCallback _ (run_adaptExcept_ok.mp h))
      ((grows_errorCallback _).adaptExcept _) fun _ => Grows.throw _).congr
      fun p v bs => ⟨False.elim, ?_⟩
    rintro ⟨-, es, ⟨cs, hcs, hes⟩, -⟩
    have := hes.length_lt
    rw [List.drop_eq_nil_of_le hoff, List.prefix_nil] at hcs
    rw [hcs] at this
    cases this
  · simp only [if_neg hoff]
    obtain ⟨hok, hahead⟩ := @rangesBuf_ok big dwarfRanges ranges hlen (by omega)
    refine (reads_throughCopy hok (reads_readRanges base vec) readRanges_ok).congr
      fun p v bs => and_congr_right fun _ => ?_
    rw [hahead]
    constructor
    · rintro ⟨cs, hcs, es, hes, rfl⟩
      exact ⟨es, ⟨cs, hcs, hes⟩, rfl⟩
    · rintro ⟨es, ⟨cs, hcs, hes⟩, rfl⟩
      exact ⟨cs, hcs, es, hes, rfl⟩

/-! ## The loop ends -/

/-- What a turn lowers: it reads something, or it is the last but one. -/
def turns (buf : Buf) : Nat := buf.left.toNat + if buf.reportedUnderflow then 0 else 1

theorem turns_underflow (buf : Buf) : turns buf.underflow = buf.left.toNat := by
  unfold turns Buf.underflow
  split
  · exact Nat.add_zero _
  · exact Nat.add_zero _

theorem readUInt_turn {n : Nat} (h0 : 0 < n) (hn : n < 2 ^ 64) {buf : Buf} (h : buf.Within) :
    ∃ v buf', (readUInt n).run buf = .ok v buf' ∧ buf'.Within ∧ turns buf' ≤ turns buf ∧
      (buf.reportedUnderflow = false → turns buf' < turns buf) := by
  by_cases hle : n ≤ buf.left.toNat
  · have hturns : turns (buf.skip n) + n = turns buf := by
      change (buf.skip n).left.toNat + (if buf.reportedUnderflow then 0 else 1) + n = _
      rw [toNat_left_skip hle, turns]
      omega
    exact ⟨_, _, readUInt_run hn hle (hle.trans h.le), h.skip hle, by omega, fun _ => by omega⟩
  · refine ⟨_, _, readUInt_run_underflow hn (Nat.lt_of_not_le hle), h.underflow.1, ?_, fun hu => ?_⟩
    · rw [turns_underflow]
      exact Nat.le_add_right _ _
    · rw [turns_underflow, turns, hu]
      exact Nat.lt_succ_self _

theorem readAddress_turn (addrsize : Nat) {buf : Buf} (h : buf.Within) :
    ∃ v buf', (readAddress addrsize).run buf = .ok v buf' ∧ buf'.Within ∧ turns buf' ≤ turns buf ∧
      (buf.reportedUnderflow = false → addrsize ∈ [1, 2, 4, 8] → turns buf' < turns buf) ∧
      (addrsize ∉ [1, 2, 4, 8] → v = 0) := by
  have known : ∀ n, 0 < n → n < 2 ^ 64 → n ∈ [1, 2, 4, 8] → ∃ v buf',
      (readUInt n >>= fun u => pure (u.setWidth 64) : Read (BitVec 64)).run buf = .ok v buf' ∧
        buf'.Within ∧ turns buf' ≤ turns buf ∧
        (buf.reportedUnderflow = false → n ∈ [1, 2, 4, 8] → turns buf' < turns buf) ∧
        (n ∉ [1, 2, 4, 8] → v = 0) := by
    intro n h0 hn hmem
    obtain ⟨v, buf', hrun, hw, hle, hlt⟩ := readUInt_turn h0 hn h
    refine ⟨v.setWidth 64, buf', ?_, hw, hle, fun hu _ => hlt hu, fun hc => absurd hmem hc⟩
    rw [EStateM.run_bind, hrun]
    rfl
  unfold readAddress
  split
  · exact known 1 (by omega) (by omega) (by simp)
  · exact known 2 (by omega) (by omega) (by simp)
  · exact known 4 (by omega) (by omega) (by simp)
  · obtain ⟨v, buf', hrun, hw, hle, hlt⟩ := @readUInt_turn 8 (by omega) (by omega) _ h
    exact ⟨v, buf', hrun, hw, hle, fun hu _ => hlt hu, fun hc => absurd (by simp) hc⟩
  · rename_i h1 h2 h4 h8
    refine ⟨0, buf.report "unrecognized address size", rfl, ⟨h.le, h.lt⟩, le_refl _,
      fun _ hmem => ?_, fun _ => rfl⟩
    simp only [List.mem_cons, List.not_mem_nil, or_false] at hmem
    rcases hmem with h | h | h | h
    · exact absurd h h1
    · exact absurd h h2
    · exact absurd h h4
    · exact absurd h h8

/-- When the list is not read to an end, that is for an underflow. -/
theorem rangesLoop_error (fuel : Nat) : ∀ {base : BitVec 64} {vec : List (AddrRange α)}
    {buf buf' : Buf} {e : Stop × List (AddrRange α)}, buf.Within → turns buf < fuel →
      (rangesLoop addrsize baseAddress target fuel base vec).run buf = .error e buf' →
        e.1 = .failed := by
  induction fuel with
  | zero => exact fun _ h => absurd h (Nat.not_lt_zero _)
  | succ fuel ih =>
    intro base vec buf buf' e hw hturns hrun
    cases hu : buf.reportedUnderflow with
    | true =>
      have hfail : (leaving vec failOnUnderflow).run buf = .error (Stop.failed, vec) buf := by
        rw [leaving, EStateM.run_adaptExcept, failOnUnderflow, EStateM.run_bind, EStateM.run_get]
        simp only [hu, if_true]
        rfl
      rw [rangesLoop, EStateM.run_bind, hfail] at hrun
      obtain ⟨rfl, -⟩ := EStateM.Result.error.inj hrun
      rfl
    | false =>
      obtain ⟨low, buf₁, hlow, hw₁, -, hlt, hzero₁⟩ := readAddress_turn addrsize hw
      obtain ⟨high, buf₂, hhigh, hw₂, hle, -, hzero₂⟩ := readAddress_turn addrsize hw₁
      have hgo : (leaving vec failOnUnderflow).run buf = .ok () buf :=
        run_adaptExcept_ok.mpr (failOnUnderflow_run hu)
      have hlow' : (leaving vec (readAddress addrsize)).run buf = .ok low buf₁ :=
        run_adaptExcept_ok.mpr hlow
      have hhigh' : (leaving vec (readAddress addrsize)).run buf₁ = .ok high buf₂ :=
        run_adaptExcept_ok.mpr hhigh
      rw [rangesLoop, EStateM.run_bind, hgo] at hrun
      simp only at hrun
      rw [EStateM.run_bind, hlow'] at hrun
      simp only at hrun
      rw [EStateM.run_bind, hhigh'] at hrun
      simp only at hrun
      by_cases hend : low = 0 ∧ high = 0
      · rw [if_pos hend] at hrun
        cases hrun
      · rw [if_neg hend] at hrun
        -- an address of an unknown size is zero, so this is none
        have hmem : addrsize ∈ [1, 2, 4, 8] := by
          by_contra hc
          exact hend ⟨hzero₁ hc, hzero₂ hc⟩
        have hlt' := hlt hu hmem
        split at hrun
        · exact ih hw₂ (by omega) hrun
        · exact ih hw₂ (by omega) hrun

/-- **The list is read to an end**, with success or not, and inside the section. -/
theorem noFault_addRangesAt {outOfRange : String} {ranges : SizeT} {base : BitVec 64}
    {dwarfRanges : List Byte} (hlen : dwarfRanges.length < 2 ^ 63) (vec : List (AddrRange α)) :
    NoFaultLeaving
      (addRangesAt outOfRange addrsize baseAddress target ranges base dwarfRanges big vec) := by
  unfold addRangesAt
  by_cases hoff : ranges.toNat ≥ dwarfRanges.length
  · simp only [if_pos hoff]
    exact ((noFault_errorCallback _).leaving vec).bind fun _ => Safe.throw rfl
  · simp only [if_neg hoff]
    obtain ⟨hok, -⟩ := @rangesBuf_ok big dwarfRanges ranges hlen (by omega)
    refine safe_throughCopy fun errors e buf' hrun => ?_
    have hw : Buf.Within { rangesBuf dwarfRanges ranges big with errors := errors } :=
      ⟨hok.1.le, hok.1.lt⟩
    rw [readRanges_run, EStateM.run_bind] at hrun
    cases hloop : (rangesLoop addrsize baseAddress target
        ((rangesBuf dwarfRanges ranges big).left.toNat + 2) base vec).run
        { rangesBuf dwarfRanges ranges big with errors := errors } with
    | ok v s =>
      simp only [hloop] at hrun
      rw [EStateM.run_bind, leaving, EStateM.run_adaptExcept, failOnUnderflow, EStateM.run_bind,
        EStateM.run_get] at hrun
      cases hu : s.reportedUnderflow <;> simp [hu] at hrun
      rw [← hrun.1]
    | error e₁ s =>
      simp only [hloop, EStateM.Result.error.injEq] at hrun
      exact hrun.1 ▸ rangesLoop_error _ hw (Nat.lt_succ_self _) hloop

end Reads

end Bktce.Libbacktrace
