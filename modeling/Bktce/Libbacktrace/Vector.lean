import Bktce.Libbacktrace.Allocator
import Mathlib.Algebra.BigOperators.Ring.List

/-!
# Vectors

Model of `backtrace_vector_grow`, `backtrace_vector_finish` and `backtrace_vector_release`
(`mmap.c:238-325`). A vector is a range of bytes: `size` of them are in use, and there is room for
`alc` more.

* `vec.Holds s t bs`: the thread `t` owns the bytes of the vector, and those in use are `bs`.
* `VectorStep`: the thread that fills a vector, among the others. A call of `backtrace_vector_grow`
  is made of sections: the search of the free list, `mmap`, freeing the rest of the pages, `memcpy`,
  and freeing what was copied. A `GrowPhase` is a place between two of them, and sections of other
  threads may come at each.

Results:

* `VectorStep.filled`, `exists_vectorStep`: a section keeps what the vector holds, and whatever the
  system answers, the next section can be made.
* `run_vector`: the vector holds the records that were added, in order, whatever other threads do.
* `vectorGrow_run`: if nothing comes in between, these sections are `backtraceVectorGrow`.
* `vectorFinish_holds`: what a vector held stays, and the vector goes on behind it.
* `vectorRelease_holds`, `run_vectorRelease`: the vector keeps what it holds, and no room. The bytes
  up to the next multiple of 8 must be the vector's, and they are if the records have sizes
  divisible by 8.
-/

namespace Bktce.Libbacktrace

open Bktce.Lib Bktce.Lib.Memory

/-- `struct backtrace_vector`. -/
structure BacktraceVector where
  base : Nat
  size : SizeT
  alc : SizeT

namespace BacktraceVector

/-- The bytes in use, and those there is room for. -/
def bytes (vec : BacktraceVector) : Set Nat :=
  Set.Ico vec.base (vec.base + (vec.size.toNat + vec.alc.toNat))

/-- `(char *) vec->base + vec->size`. -/
def top (vec : BacktraceVector) : Nat := vec.base + vec.size.toNat

/-- `alc`, when the vector is moved to grow by `size` bytes. -/
def newAlc (sys : System) (size : SizeT) (vec : BacktraceVector) : SizeT :=
  let alc := vec.size + size
  if vec.size = 0 then 16 * size
  else if alc < sys.pagesize then
    if alc * 2 > sys.pagesize then sys.pagesize else alc * 2
  else sys.roundUpPage (alc * 2)

/-- The vector at `base`, where there is room for `alc` bytes. -/
def moved (base : Nat) (alc : SizeT) (vec : BacktraceVector) : BacktraceVector :=
  ⟨base, vec.size, alc - vec.size⟩

/-- The vector with `size` bytes more in use. -/
def extend (size : SizeT) (vec : BacktraceVector) : BacktraceVector :=
  ⟨vec.base, vec.size + size, vec.alc - size⟩

end BacktraceVector

/-- `memcpy`. -/
def Heap.memcpy (h : Heap) (dst src n : Nat) : Heap :=
  { h with mem := Memory.write h.mem dst (read h.mem src n) }

/-- What the system answers when a vector grows. -/
structure GrowAnswers where
  alloc : AllocAnswers
  free : FreeAnswers

/-- The vector moves to `base`, where there is room for `alc` bytes. -/
def moveTo (sys : System) (ans : FreeAnswers) (base : Nat) (alc : SizeT) (vec : BacktraceVector)
    (h : Heap) : Option (BacktraceVector × Heap) :=
  if vec.base ≠ 0 then
    (backtraceFree sys ans vec.base (vec.size + vec.alc)
      (h.memcpy base vec.base vec.size.toNat)).map (vec.moved base alc, ·)
  else some (vec.moved base alc, h)

/-- The part of `backtrace_vector_grow` that moves the vector: the vector, unless there is no
memory. -/
def moveVector (sys : System) (callback : Bool) (ans : GrowAnswers) (size : SizeT)
    (vec : BacktraceVector)
    (h : Heap) : Option (Option BacktraceVector × List (String × CInt) × Heap) :=
  match backtraceAlloc sys callback ans.alloc (vec.newAlc sys size) h with
  | none => none
  | some (base, errors, h) =>
    if base = 0 then some (none, errors, h)
    else (moveTo sys ans.free base (vec.newAlc sys size) vec h).map fun r => (some r.1, errors, r.2)

/-- `backtrace_vector_grow`: the new bytes, or 0; the errors reported; the vector and the heap. -/
def backtraceVectorGrow (sys : System) (callback : Bool) (ans : GrowAnswers) (size : SizeT)
    (vec : BacktraceVector) (h : Heap) :
    Option (Nat × List (String × CInt) × BacktraceVector × Heap) :=
  match if size > vec.alc then moveVector sys callback ans size vec h
    else some (some vec, [], h) with
  | none => none
  | some (none, errors, h) => some (0, errors, vec, h)
  | some (some vec, errors, h) => some (vec.top, errors, vec.extend size, h)

/-- `backtrace_vector_finish`: what the vector held, and the vector. -/
def backtraceVectorFinish (vec : BacktraceVector) : Nat × BacktraceVector :=
  (vec.base, ⟨vec.base + vec.size.toNat, 0, vec.alc⟩)

/-- `backtrace_vector_release`. It returns 1. -/
def backtraceVectorRelease (sys : System) (ans : FreeAnswers) (vec : BacktraceVector) (h : Heap) :
    Option (CInt × BacktraceVector × Heap) :=
  let aligned := roundUp8 vec.size
  (backtraceFree sys ans (vec.base + aligned.toNat) (vec.alc - (aligned - vec.size)) h).map
    (1, ⟨vec.base, vec.size, 0⟩, ·)

/-! ## What a vector holds -/

section Vectors

variable {τ : Type} [DecidableEq τ] {s s' : Arena τ} {l : List Block} {t : τ}
  {vec : BacktraceVector}
  {bs : List Byte}

/-- The thread `t` owns the vector, and the bytes in use are `bs`. -/
structure BacktraceVector.Holds (vec : BacktraceVector) (s : Arena τ) (t : τ) (bs : List Byte) :
    Prop where
  owned : vec.bytes ⊆ s.owned t
  fits : vec.size.toNat + vec.alc.toNat < 2 ^ 64
  aligned : 8 ∣ vec.base
  contents : read s.heap.mem vec.base vec.size.toNat = bs

namespace BacktraceVector

omit [DecidableEq τ] in
/-- A vector that was set to zero. -/
theorem Holds.empty (s : Arena τ) (t : τ) : Holds ⟨0, 0, 0⟩ s t [] where
  owned _ hx := absurd hx.2 (Nat.not_lt_zero _)
  fits := by decide
  aligned := by decide
  contents := rfl

omit [DecidableEq τ] in
theorem Holds.length (hv : vec.Holds s t bs) : bs.length = vec.size.toNat :=
  hv.contents ▸ length_read _ _ _

omit [DecidableEq τ] in
theorem Holds.range_eq (hv : vec.Holds s t bs) :
    range vec.base (vec.size + vec.alc) = vec.bytes := by
  rw [range, BitVec.toNat_add_of_lt hv.fits, bytes]

omit [DecidableEq τ] in
theorem Holds.of_keeps (hv : vec.Holds s t bs)
    (hkeeps : vec.bytes ⊆ s'.owned t ∧ ∀ x ∈ vec.bytes, s'.heap.mem x = s.heap.mem x) :
    vec.Holds s' t bs where
  owned := hkeeps.1
  fits := hv.fits
  aligned := hv.aligned
  contents := (read_congr fun x hx => hkeeps.2 x ⟨hx.1, by have := hx.2; omega⟩).trans hv.contents

/-- **A vector holds what it holds**, whatever other threads do, and this one with other memory. -/
theorem Holds.keep (hs : InOrder s l) (hv : vec.Holds s t bs) {as : List (τ × Section)}
    (hrun : Run SectionStep s as s') (hspare : ∀ a ∈ as, a.1 = t → Disjoint a.2.uses vec.bytes) :
    vec.Holds s' t bs :=
  hv.of_keeps (hs.keeps hrun hv.owned hspare)

omit [DecidableEq τ] in
/-- The new bytes of a vector are not at 0. -/
theorem Holds.ne_null (hs : InOrder s l) {new : List Byte} (hv : vec.Holds s t (bs ++ new))
    (hnew : 0 < new.length) : vec.base + bs.length ≠ 0 := by
  have hsize := hv.length
  rw [List.length_append] at hsize
  have hmem : vec.base + bs.length ∈ vec.bytes := ⟨Nat.le_add_right _ _, by omega⟩
  exact Nat.pos_iff_ne_zero.mp (hs.mapped_pos _ (hs.owned_mapped t (hv.owned hmem))).1

/-- The new bytes of a vector are written. -/
theorem Holds.write {old new : List Byte} (hv : vec.Holds s t (bs ++ old))
    (hlen : new.length = old.length) :
    ∃ s', SectionStep (t, .write (vec.base + bs.length) new) s s' ∧ vec.Holds s' t (bs ++ new) := by
  have hsize := hv.length
  rw [List.length_append] at hsize
  have hsub : Set.Ico (vec.base + bs.length) (vec.base + bs.length + new.length) ⊆ vec.bytes :=
    Set.Ico_subset_Ico (Nat.le_add_right _ _) (by omega)
  refine ⟨_, .write (hsub.trans hv.owned), hv.owned, hv.fits, hv.aligned, ?_⟩
  have hcontents := hv.contents
  rw [← hsize, read_add] at hcontents
  obtain ⟨hbs, -⟩ := List.append_inj hcontents (length_read _ _ _)
  rw [← hsize, read_add, ← hlen]
  refine congr (congrArg _ ?_) (read_write _ _ _)
  rw [read_write_of_disjoint _ Set.Ico_disjoint_Ico_same, hbs]

/-- The vector is far from filling the address space when it grows by `size` bytes. -/
def Small (vec : BacktraceVector) (sys : System) (size : SizeT) : Prop :=
  16 * (vec.size.toNat + size.toNat) + sys.pagesize.toNat ≤ 2 ^ 64

/-- There is room for all that is needed. -/
theorem newAlc_le {sys : System} (hsys : sys.PageSize) {size : SizeT}
    (hsmall : vec.Small sys size) :
    vec.size.toNat + size.toNat ≤ (vec.newAlc sys size).toNat := by
  unfold Small at hsmall
  obtain ⟨k, hk3, hpage, -⟩ := hsys.toNat_roundUpPage
  have hpos := Nat.two_pow_pos k
  have hsum : (vec.size + size).toNat = vec.size.toNat + size.toNat := by
    rw [BitVec.toNat_add, Nat.mod_eq_of_lt (by omega)]
  have htwice : ((vec.size + size) * 2).toNat = (vec.size.toNat + size.toNat) * 2 := by
    rw [BitVec.toNat_mul, hsum,
      show (2 : BitVec 64).toNat = 2 from rfl, Nat.mod_eq_of_lt (by omega)]
  unfold newAlc
  by_cases hzero : vec.size = 0
  · have hsize : (16 * size).toNat = 16 * size.toNat := by
      rw [BitVec.toNat_mul, show (16 : BitVec 64).toNat = 16 from rfl, Nat.mod_eq_of_lt (by omega)]
    have hnil : vec.size.toNat = 0 := congrArg BitVec.toNat hzero
    simp only [if_pos hzero]
    omega
  · simp only [if_neg hzero]
    by_cases hlt : vec.size + size < sys.pagesize
    · rw [if_pos hlt]
      have := BitVec.lt_def.mp hlt
      split_ifs <;> omega
    · rw [if_neg hlt]
      have hle := BitVec.le_def.mp
        (@System.PageSize.le_roundUpPage _ hsys ((vec.size + size) * 2) (by omega))
      omega

end BacktraceVector

/-! ## Calls among other sections -/

/-- Where the thread is that fills the vector. -/
inductive GrowPhase where
  /-- In no call. -/
  | outside
  /-- No free block was found: `mmap` is next. -/
  | map (size : SizeT)
  /-- Pages were mapped: freeing the rest of them is next. -/
  | trim (size : SizeT) (page : Nat)
  /-- There is memory at `base`: `memcpy` is next. -/
  | copy (size : SizeT) (base : Nat)
  /-- All is copied: freeing the old bytes is next. -/
  | free (size : SizeT) (base : Nat)
  /-- The call has returned `p`: writing the record is next. -/
  | fill (size : SizeT) (p : Nat)

/-- The new bytes that are not written yet. -/
def GrowPhase.pending : GrowPhase → Nat
  | fill size _ => size.toNat
  | _ => 0

/-- The arena, the vector, and where the thread is that fills it. -/
abbrev Filling (τ : Type) := Arena τ × BacktraceVector × GrowPhase

namespace BacktraceVector

/-- The call returns. -/
def returned (size : SizeT) (vec : BacktraceVector) : BacktraceVector × GrowPhase :=
  (vec.extend size, .fill size vec.top)

/-- The call has memory at `base`. -/
def given (sys : System) (size : SizeT) (base : Nat) (vec : BacktraceVector) :
    BacktraceVector × GrowPhase :=
  if vec.base ≠ 0 then (vec, .copy size base)
  else (vec.moved base (vec.newAlc sys size)).returned size

/-- The call has the pages from `page` on. -/
def mapped (sys : System) (size : SizeT) (page : Nat) (vec : BacktraceVector) :
    BacktraceVector × GrowPhase :=
  if roundUp8 (vec.newAlc sys size) < sys.roundUpPage (vec.newAlc sys size) then
    (vec, .trim size page)
  else vec.given sys size page

/-- The memory that the call has. -/
def busy (sys : System) (vec : BacktraceVector) : GrowPhase → Set Nat
  | .trim size page => vec.bytes ∪ range page (sys.roundUpPage (vec.newAlc sys size))
  | .copy size base => vec.bytes ∪ range base (vec.newAlc sys size)
  | .free size base => vec.bytes ∪ range base (vec.newAlc sys size)
  | _ => vec.bytes

end BacktraceVector

/-- A section of the thread that fills the vector, with what the system answers, or of anything
else. -/
inductive VectorAct (τ : Type) where
  | other (a : τ × Section)
  | grow (size : SizeT) (lock : Bool)
  | map (mmap : Except CInt Nat)
  | trim (ans : FreeAnswers)
  | copy
  | free (ans : FreeAnswers)
  | fill (new : List Byte)

/-- The bytes that are added. -/
def VectorAct.added : VectorAct τ → List Byte
  | other _ => []
  | grow _ _ => []
  | map _ => []
  | trim _ => []
  | copy => []
  | free _ => []
  | fill new => new

/-- A section, when the thread `t` fills the vector. -/
inductive VectorStep (sys : System) (t : τ) : VectorAct τ → Filling τ → Filling τ → Prop
  /-- A section of another thread, or of this one (as in a signal handler) with other memory. -/
  | other {a : τ × Section} {s s' : Arena τ} {vec : BacktraceVector} {phase : GrowPhase}
      (step : SectionStep a s s') (spare : a.1 = t → Disjoint a.2.uses (vec.busy sys phase)) :
      VectorStep sys t (.other a) (s, vec, phase) (s', vec, phase)
  /-- There is room in the vector. -/
  | room {size : SizeT} {lock : Bool} {s : Arena τ} {vec : BacktraceVector} (hle : size ≤ vec.alc) :
      VectorStep sys t (.grow size lock) (s, vec, .outside) (s, vec.returned size)
  | found {size : SizeT} {lock : Bool} {s : Arena τ} {vec : BacktraceVector} {p : Nat} {h : Heap}
      (hmove : size > vec.alc) (small : vec.Small sys size)
      (run : searchFreelist sys lock (vec.newAlc sys size) s.heap = some (some p, h)) :
      VectorStep sys t (.grow size lock) (s, vec, .outside)
        (s.give t (range p (vec.newAlc sys size)) h, vec.given sys size p)
  | missed {size : SizeT} {lock : Bool} {s : Arena τ} {vec : BacktraceVector}
      (hmove : size > vec.alc) (small : vec.Small sys size)
      (run : searchFreelist sys lock (vec.newAlc sys size) s.heap = some (none, s.heap)) :
      VectorStep sys t (.grow size lock) (s, vec, .outside) (s, vec, .map size)
  /-- `mmap` fails, and `backtrace_vector_grow` returns `NULL`. -/
  | unmapped {errnum : CInt} {size : SizeT} {s : Arena τ} {vec : BacktraceVector} :
      VectorStep sys t (.map (.error errnum)) (s, vec, .map size) (s, vec, .outside)
  | mapped {page : Nat} {size : SizeT} {s s' : Arena τ} {vec : BacktraceVector}
      (step : SectionStep (t, .map page (sys.roundUpPage (vec.newAlc sys size))) s s') :
      VectorStep sys t (.map (.ok page)) (s, vec, .map size) (s', vec.mapped sys size page)
  | trim {ans : FreeAnswers} {page : Nat} {size : SizeT} {s s' : Arena τ} {vec : BacktraceVector}
      (step : SectionStep (t, freeSection sys ans (page + (roundUp8 (vec.newAlc sys size)).toNat)
        (sys.roundUpPage (vec.newAlc sys size) - roundUp8 (vec.newAlc sys size))) s s') :
      VectorStep sys t (.trim ans) (s, vec, .trim size page) (s', vec.given sys size page)
  | copy {base : Nat} {size : SizeT} {s s' : Arena τ} {vec : BacktraceVector}
      (step : SectionStep (t, .write base (read s.heap.mem vec.base vec.size.toNat)) s s') :
      VectorStep sys t .copy (s, vec, .copy size base) (s', vec, .free size base)
  | free {ans : FreeAnswers} {base : Nat} {size : SizeT} {s s' : Arena τ} {vec : BacktraceVector}
      (step : SectionStep (t, freeSection sys ans vec.base (vec.size + vec.alc)) s s') :
      VectorStep sys t (.free ans) (s, vec, .free size base)
        (s', (vec.moved base (vec.newAlc sys size)).returned size)
  | fill {new : List Byte} {p : Nat} {size : SizeT} {s s' : Arena τ} {vec : BacktraceVector}
      (hlen : new.length = size.toNat) (step : SectionStep (t, .write p new) s s') :
      VectorStep sys t (.fill new) (s, vec, .fill size p) (s', vec, .outside)

/-- What may come next: all that the thread does there, with all that the system may answer. -/
def Answered (sys : System) : Filling τ → VectorAct τ → Prop
  | (_, vec, .outside), .grow size _ => vec.Small sys size
  | (_, _, .map _), .map (.error _) => True
  | (s, vec, .map size), .map (.ok page) => s.Fresh page (sys.roundUpPage (vec.newAlc sys size))
  | (_, _, .trim _ _), .trim _ => True
  | (_, _, .copy _ _), .copy => True
  | (_, _, .free _ _), .free _ => True
  | (_, _, .fill size _), .fill new => new.length = size.toNat
  | _, _ => False

/-- Memory of the thread that a vector can move to. -/
structure BacktraceVector.Beside (vec : BacktraceVector) (s : Arena τ) (t : τ) (p : Nat)
    (size : SizeT) :
    Prop where
  owned : range p size ⊆ s.owned t
  aligned : 8 ∣ p
  apart : Disjoint (range p size) vec.bytes

/-- The new memory is enough. -/
def BacktraceVector.Enough (vec : BacktraceVector) (sys : System) (size : SizeT) : Prop :=
  vec.size.toNat + size.toNat ≤ (vec.newAlc sys size).toNat

/-- What the vector holds has room in the new memory. -/
theorem BacktraceVector.Enough.subset {sys : System} {size : SizeT} (henough : vec.Enough sys size)
    (base : Nat) : Set.Ico base (base + vec.size.toNat) ⊆ range base (vec.newAlc sys size) :=
  Set.Ico_subset_Ico_right (Nat.add_le_add_left ((Nat.le_add_right _ _).trans henough) base)

/-- In each phase the vector holds `bs`, and the call has the memory it needs. -/
def Filled (sys : System) (t : τ) (bs : List Byte) : Filling τ → Prop
  | (s, vec, .outside) => vec.Holds s t bs
  | (s, vec, .map size) => vec.Holds s t bs ∧ vec.Enough sys size
  | (s, vec, .trim size page) => vec.Holds s t bs ∧ vec.Enough sys size ∧
      roundUp8 (vec.newAlc sys size) < sys.roundUpPage (vec.newAlc sys size) ∧
      vec.Beside s t page (sys.roundUpPage (vec.newAlc sys size))
  | (s, vec, .copy size base) => vec.Holds s t bs ∧ vec.Enough sys size ∧
      vec.Beside s t base (vec.newAlc sys size)
  | (s, vec, .free size base) => vec.Holds s t bs ∧ vec.Enough sys size ∧
      vec.Beside s t base (vec.newAlc sys size) ∧ read s.heap.mem base vec.size.toNat = bs
  | (s, vec, .fill size p) => ∃ old, old.length = size.toNat ∧ p = vec.base + bs.length ∧
      vec.Holds s t (bs ++ old)

section Grow

variable {sys : System} {size : SizeT}

omit [DecidableEq τ] in
/-- There is room in the vector. -/
theorem BacktraceVector.Holds.extend (hv : vec.Holds s t bs) (hle : size ≤ vec.alc) :
    (vec.extend size).Holds s t (bs ++ read s.heap.mem (vec.base + bs.length) size.toNat) := by
  have hsize := BitVec.le_def.mp hle
  have hfits := hv.fits
  have hsub := BitVec.toNat_sub_of_le hle
  have hadd : (vec.size + size).toNat = vec.size.toNat + size.toNat :=
    BitVec.toNat_add_of_lt (by omega)
  have hsum : (vec.size + size).toNat + (vec.alc - size).toNat =
      vec.size.toNat + vec.alc.toNat := by
    omega
  refine ⟨?_, hsum ▸ hfits, hv.aligned, ?_⟩
  · have hbytes : (vec.extend size).bytes = vec.bytes := by
      rw [BacktraceVector.bytes, BacktraceVector.extend, hsum, BacktraceVector.bytes]
    exact hbytes ▸ hv.owned
  · rw [BacktraceVector.extend, hadd, read_add, hv.contents, hv.length]

omit [DecidableEq τ] in
theorem BacktraceVector.Holds.returned (hv : vec.Holds s t bs) (hle : size ≤ vec.alc) :
    Filled sys t bs (s, vec.returned size) :=
  ⟨_, length_read _ _ _, by rw [BacktraceVector.top, hv.length]; rfl, hv.extend hle⟩

omit [DecidableEq τ] in
/-- The vector moves to memory that holds what the vector held. -/
theorem BacktraceVector.Beside.returned {base : Nat}
    (hbeside : vec.Beside s t base (vec.newAlc sys size)) (henough : vec.Enough sys size)
    (hread : read s.heap.mem base vec.size.toNat = bs) :
    Filled sys t bs (s, (vec.moved base (vec.newAlc sys size)).returned size) := by
  unfold BacktraceVector.Enough at henough
  have hsub : (vec.newAlc sys size - vec.size).toNat =
      (vec.newAlc sys size).toNat - vec.size.toNat :=
    BitVec.toNat_sub_of_le (BitVec.le_def.mpr (by omega))
  have halc : vec.size.toNat + (vec.newAlc sys size - vec.size).toNat =
      (vec.newAlc sys size).toNat := by
    omega
  have hbytes : (vec.moved base (vec.newAlc sys size)).bytes =
      range base (vec.newAlc sys size) := by
    rw [BacktraceVector.bytes, BacktraceVector.moved, halc, range]
  refine BacktraceVector.Holds.returned ⟨hbytes ▸ hbeside.owned, ?_, hbeside.aligned, hread⟩ ?_
  · exact halc ▸ (vec.newAlc sys size).isLt
  · exact BitVec.le_def.mpr (show size.toNat ≤ (vec.newAlc sys size - vec.size).toNat by omega)

omit [DecidableEq τ] in
/-- The call has memory. -/
theorem BacktraceVector.Holds.given (hs : InOrder s l) (hv : vec.Holds s t bs) {base : Nat}
    (henough : vec.Enough sys size) (hbeside : vec.Beside s t base (vec.newAlc sys size)) :
    Filled sys t bs (s, vec.given sys size base) := by
  unfold BacktraceVector.given
  by_cases hbase : vec.base = 0
  · -- no byte is at 0, so the vector is empty
    have hempty : vec.size.toNat = 0 := by
      by_contra hne
      have hmem : 0 ∈ vec.bytes := ⟨by omega, by omega⟩
      exact absurd (hs.mapped_pos 0 (hs.owned_mapped t (hv.owned hmem))).1 (lt_irrefl 0)
    have hnil : bs = [] := List.length_eq_zero_iff.mp (hv.length.trans hempty)
    rw [if_neg (not_not.mpr hbase)]
    exact hbeside.returned henough (by rw [hnil, hempty]; rfl)
  · rw [if_pos hbase]
    exact ⟨hv, henough, hbeside⟩

omit [DecidableEq τ] in
/-- The call has pages. -/
theorem BacktraceVector.Holds.mapped (hs : InOrder s l) (hv : vec.Holds s t bs) {page : Nat}
    (henough : vec.Enough sys size)
    (hle : vec.newAlc sys size ≤ sys.roundUpPage (vec.newAlc sys size))
    (hbeside : vec.Beside s t page (sys.roundUpPage (vec.newAlc sys size))) :
    Filled sys t bs (s, vec.mapped sys size page) := by
  unfold BacktraceVector.mapped
  by_cases hlt : roundUp8 (vec.newAlc sys size) < sys.roundUpPage (vec.newAlc sys size)
  · rw [if_pos hlt]
    exact ⟨hv, henough, hlt, hbeside⟩
  · rw [if_neg hlt]
    have hsub := range_subset page hle
    exact hv.given hs henough
      ⟨hsub.trans hbeside.owned, hbeside.aligned, hbeside.apart.mono_left hsub⟩

variable {a : τ × Section}

theorem BacktraceVector.Beside.keep (hs : InOrder s l) {p : Nat} {n : SizeT}
    (hbeside : vec.Beside s t p n) (hstep : SectionStep a s s')
    (hspare : a.1 = t → Disjoint a.2.uses (range p n)) : vec.Beside s' t p n :=
  ⟨(hstep.keeps hs hbeside.owned hspare).1, hbeside.aligned, hbeside.apart⟩

/-- The thread's own section keeps what the vector holds, if it uses none of it. -/
theorem BacktraceVector.Holds.keepStep (hs : InOrder s l) (hv : vec.Holds s t bs)
    (hstep : SectionStep a s s') (hspare : a.1 = t → Disjoint a.2.uses vec.bytes) :
      vec.Holds s' t bs :=
  hv.of_keeps (hstep.keeps hs hv.owned hspare)

/-- **Any other section** may come in between, wherever the thread is. -/
theorem Filled.other (hs : InOrder s l) {phase : GrowPhase} (hst : Filled sys t bs (s, vec, phase))
    (hstep : SectionStep a s s') (hspare : a.1 = t → Disjoint a.2.uses (vec.busy sys phase)) :
    Filled sys t bs (s', vec, phase) := by
  -- the bytes of the vector are in use in every phase
  have hvec : ∀ {A : Set Nat}, (a.1 = t → Disjoint a.2.uses (vec.bytes ∪ A)) →
      (a.1 = t → Disjoint a.2.uses vec.bytes) ∧ (a.1 = t → Disjoint a.2.uses A) := fun h =>
    ⟨fun ha => (h ha).mono_right Set.subset_union_left,
      fun ha => (h ha).mono_right Set.subset_union_right⟩
  cases phase with
  | outside => exact BacktraceVector.Holds.keepStep hs hst hstep hspare
  | map size => exact ⟨hst.1.keepStep hs hstep hspare, hst.2⟩
  | trim size page =>
    obtain ⟨hv, henough, hlt, hbeside⟩ := hst
    exact ⟨hv.keepStep hs hstep (hvec hspare).1, henough, hlt,
      hbeside.keep hs hstep (hvec hspare).2⟩
  | copy size base =>
    obtain ⟨hv, henough, hbeside⟩ := hst
    exact ⟨hv.keepStep hs hstep (hvec hspare).1, henough, hbeside.keep hs hstep (hvec hspare).2⟩
  | free size base =>
    obtain ⟨hv, henough, hbeside, hread⟩ := hst
    refine ⟨hv.keepStep hs hstep (hvec hspare).1, henough,
      hbeside.keep hs hstep (hvec hspare).2, ?_⟩
    refine (read_congr fun x hx => ?_).trans hread
    exact (hstep.keeps hs hbeside.owned (hvec hspare).2).2 x (henough.subset base hx)
  | fill size p =>
    obtain ⟨old, hlen, hp, hv⟩ := hst
    exact ⟨old, hlen, hp, hv.keepStep hs hstep hspare⟩

end Grow

/-! ## Runs -/

section Runs

variable {sys : System}

/-- **One section** adds what is written to what the vector holds. -/
theorem VectorStep.filled (hsys : sys.PageSize) {act : VectorAct τ} {st st' : Filling τ}
    (hs : InOrder st.1 l) (hst : Filled sys t bs st) (hstep : VectorStep sys t act st st') :
    (∃ l', InOrder st'.1 l') ∧ Filled sys t (bs ++ act.added) st' := by
  cases hstep with
  | other step spare =>
    rw [VectorAct.added, List.append_nil]
    exact ⟨(step.inOrder hs).1, Filled.other hs hst step spare⟩
  | room hle =>
    rw [VectorAct.added, List.append_nil]
    exact ⟨⟨l, hs⟩, BacktraceVector.Holds.returned hst hle⟩
  | @found size lock s vec p h _ small run =>
    have hv : vec.Holds s t bs := hst
    rcases searchFreelist_cases hs sys lock (vec.newAlc sys size) with
      ⟨_, _, hfound, htake, -, -, haligned, hown⟩ | ⟨hnone, -⟩
    · cases run.symm.trans hfound
      have hstep : SectionStep (t, .take (vec.newAlc sys size)) s _ := .take htake
      obtain ⟨l', hs'⟩ := (hstep.inOrder hs).1
      rw [VectorAct.added, List.append_nil]
      refine ⟨⟨l', hs'⟩, (hv.keepStep hs hstep fun _ => Set.empty_disjoint _).given hs'
        (BacktraceVector.newAlc_le hsys small) ⟨?_, haligned, (hown t).mono_right hv.owned⟩⟩
      exact Set.subset_union_right.trans (Function.update_self t _ s.owned).symm.subset
    · cases run.symm.trans hnone
  | missed _ small _ =>
    rw [VectorAct.added, List.append_nil]
    exact ⟨⟨l, hs⟩, hst, BacktraceVector.newAlc_le hsys small⟩
  | unmapped =>
    rw [VectorAct.added, List.append_nil]
    exact ⟨⟨l, hs⟩, hst.1⟩
  | @mapped page size s _ vec step =>
    obtain ⟨hv, henough⟩ := hst
    obtain ⟨l', hs'⟩ := (step.inOrder hs).1
    have hv' := hv.keepStep hs step fun _ => Set.empty_disjoint _
    rw [VectorAct.added, List.append_nil]
    cases step with
    | map fresh =>
      refine ⟨⟨l', hs'⟩, hv'.mapped hs' henough (hsys.roundUpPage fresh.pos).1
        ⟨?_, fresh.aligned, ?_⟩⟩
      · exact Set.subset_union_right.trans (Function.update_self t _ s.owned).symm.subset
      · exact fresh.unmapped.mono_right (hv.owned.trans (hs.owned_mapped t))
  | @trim ans page size s _ vec step =>
    obtain ⟨hv, henough, hlt, hbeside⟩ := hst
    obtain ⟨l', hs'⟩ := (step.inOrder hs).1
    obtain ⟨hrest, _, -, hstep, howned⟩ := freeRest_spec hs hsys ans hbeside.owned
      hbeside.aligned hlt
    cases step.eq hstep
    have hpos : 0 < sys.roundUpPage (vec.newAlc sys size) :=
      BitVec.lt_def.mpr ((Nat.zero_le _).trans_lt (BitVec.lt_def.mp hlt))
    have hsub := range_subset page (hsys.roundUpPage hpos).1
    rw [VectorAct.added, List.append_nil]
    refine ⟨⟨l', hs'⟩, (hv.keepStep hs step fun _ => ?_).given hs' henough
      ⟨Set.subset_union_right.trans howned, hbeside.aligned, hbeside.apart.mono_left hsub⟩⟩
    rw [uses_freeSection]
    exact hbeside.apart.mono_left hrest
  | @copy base size s _ vec step =>
    obtain ⟨hv, henough, hbeside⟩ := hst
    have hcopy : (Section.write base (read s.heap.mem vec.base vec.size.toNat)).uses ⊆
        range base (vec.newAlc sys size) := by
      rw [Section.uses, length_read]
      exact henough.subset base
    rw [VectorAct.added, List.append_nil]
    refine ⟨(step.inOrder hs).1, hv.keepStep hs step fun _ => hbeside.apart.mono_left hcopy,
      henough, ?_⟩
    have hread := read_write s.heap.mem base (read s.heap.mem vec.base vec.size.toNat)
    rw [length_read] at hread
    refine ⟨⟨hbeside.owned.trans fun x hx => ?_, hbeside.aligned, hbeside.apart⟩, ?_⟩
    all_goals cases step
    · exact hx
    · exact hread.trans hv.contents
  | @free ans base size s _ vec step =>
    obtain ⟨hv, henough, hbeside, hread⟩ := hst
    have hold : (freeSection sys ans vec.base (vec.size + vec.alc)).uses = vec.bytes :=
      (uses_freeSection sys ans _ _).trans hv.range_eq
    -- freeing the old bytes may write into them, but not into the copy
    have hkept := step.keeps hs hbeside.owned fun _ => hold ▸ hbeside.apart.symm
    rw [VectorAct.added, List.append_nil]
    refine ⟨(step.inOrder hs).1, BacktraceVector.Beside.returned
      ⟨hkept.1, hbeside.aligned, hbeside.apart⟩ henough ?_⟩
    exact (read_congr fun x hx => hkept.2 x (henough.subset base hx)).trans hread
  | @fill new p size s _ vec hlen step =>
    obtain ⟨old, hold, rfl, hv⟩ := hst
    obtain ⟨_, hwrite, hholds⟩ := hv.write (hlen.trans hold.symm)
    cases step.eq hwrite
    exact ⟨(step.inOrder hs).1, hholds⟩

/-- Section after section. -/
theorem run_filled (hsys : sys.PageSize) {acts : List (VectorAct τ)} {st st' : Filling τ}
    (hrun : Run (VectorStep sys t) st acts st') : ∀ {bs : List Byte}, (∃ l, InOrder st.1 l) →
      Filled sys t bs st →
        (∃ l, InOrder st'.1 l) ∧ Filled sys t (bs ++ acts.flatMap VectorAct.added) st' := by
  induction hrun with
  | nil st =>
    intro bs hs hst
    rw [List.flatMap_nil, List.append_nil]
    exact ⟨hs, hst⟩
  | cons head _ ih =>
    rintro bs ⟨l, hs⟩ hst
    obtain ⟨hs', hst'⟩ := head.filled hsys hs hst
    rw [List.flatMap_cons, ← List.append_assoc]
    exact ih hs' hst'

/-- **The next section can be made**, whatever the system answers. -/
theorem exists_vectorStep (hsys : sys.PageSize) {act : VectorAct τ} {st : Filling τ}
    (hs : InOrder st.1 l) (hst : Filled sys t bs st) (hact : Answered sys st act) :
    ∃ st', VectorStep sys t act st st' := by
  obtain ⟨s, vec, phase⟩ := st
  cases phase with
  | outside =>
    cases act with
    | grow size lock =>
      by_cases hmove : size > vec.alc
      · rcases searchFreelist_cases hs sys lock (vec.newAlc sys size) with
          ⟨_, _, hfound, -⟩ | ⟨hnone, -⟩
        · exact ⟨_, .found hmove hact hfound⟩
        · exact ⟨_, .missed hmove hact hnone⟩
      · exact ⟨_, .room (BitVec.not_lt.mp hmove)⟩
    | _ => exact hact.elim
  | map size =>
    cases act with
    | map mmap =>
      cases mmap with
      | error errnum => exact ⟨_, .unmapped⟩
      | ok page => exact ⟨_, .mapped (.map hact)⟩
    | _ => exact hact.elim
  | trim size page =>
    cases act with
    | trim ans =>
      obtain ⟨-, -, hlt, hbeside⟩ := hst
      obtain ⟨-, _, -, hstep, -⟩ := freeRest_spec hs hsys ans hbeside.owned hbeside.aligned hlt
      exact ⟨_, .trim hstep⟩
    | _ => exact hact.elim
  | copy size base =>
    cases act with
    | copy =>
      obtain ⟨-, henough, hbeside⟩ := hst
      refine ⟨_, .copy (.write ?_)⟩
      rw [length_read]
      exact (henough.subset base).trans hbeside.owned
    | _ => exact hact.elim
  | free size base =>
    cases act with
    | free ans =>
      obtain ⟨hv, -, -, -⟩ := hst
      obtain ⟨_, _, -, hstep, -⟩ :=
        backtraceFree_spec hs sys ans (hv.range_eq.subset.trans hv.owned) hv.aligned
      exact ⟨_, .free hstep⟩
    | _ => exact hact.elim
  | fill size p =>
    cases act with
    | fill new =>
      obtain ⟨old, hold, rfl, hv⟩ := hst
      have hlen : new.length = size.toNat := hact
      obtain ⟨_, hwrite, -⟩ := hv.write (hlen.trans hold.symm)
      exact ⟨_, .fill hlen hwrite⟩
    | _ => exact hact.elim

omit [DecidableEq τ] in
theorem Filled.holds {vec : BacktraceVector} {phase : GrowPhase}
    (hst : Filled sys t bs (s, vec, phase)) :
    ∃ old, old.length = phase.pending ∧ vec.Holds s t (bs ++ old) := by
  cases phase with
  | fill size p =>
    obtain ⟨old, hlen, -, hv⟩ := hst
    exact ⟨old, hlen, hv⟩
  | outside => exact ⟨[], rfl, (List.append_nil bs).symm ▸ hst⟩
  | _ => exact ⟨[], rfl, (List.append_nil bs).symm ▸ hst.1⟩

/-- **A vector holds what was added**, in the order in which it was, whatever other threads do and
however often the vector moves; and the thread that fills it can always go on. -/
theorem run_vector (hsys : sys.PageSize) {mem : Nat → Byte} {before : List (τ × Section)}
    (hbefore : Run SectionStep (Arena.start mem) before s) {acts : List (VectorAct τ)}
    {vec' : BacktraceVector} {phase : GrowPhase}
    (hrun : Run (VectorStep sys t) (s, ⟨0, 0, 0⟩, .outside) acts (s', vec', phase)) :
    (∃ old, old.length = phase.pending ∧
        vec'.Holds s' t (acts.flatMap VectorAct.added ++ old)) ∧
      ∀ act, Answered sys (s', vec', phase) act →
        ∃ st, VectorStep sys t act (s', vec', phase) st := by
  obtain ⟨⟨l, hs⟩, hst⟩ := @run_filled _ _ _ _ hsys _ _ _ hrun [] (run_inOrder hbefore) (.empty s t)
  exact ⟨hst.holds, fun act hact => exists_vectorStep hsys hs hst hact⟩

/-- Pages of 4096 bytes, and a lock. -/
def smallPages : System := ⟨4096, true⟩

theorem smallPages_pageSize : smallPages.PageSize := ⟨12, by decide, by decide, rfl⟩

/-- The first 8 bytes, while another thread maps pages. -/
def firstActs : List (VectorAct Bool) :=
  [.grow 8 true, .other (true, .map 0x3000 0x1000), .map (.ok 0x1000), .trim ⟨true, false⟩,
    .fill [1, 2, 3, 4, 5, 6, 7, 8]]

theorem exists_firstRun : ∃ (s' : Arena Bool) (vec' : BacktraceVector),
    Run (VectorStep smallPages false) (.start fun _ => 0, ⟨0, 0, 0⟩, .outside) firstActs
      (s', vec', .outside) := by
  let s : Arena Bool := .start fun _ => 0
  let s₁ := { s.give true (range 0x3000 0x1000) (s.heap.mapPages 0x3000 0x1000) with
    mapped := s.mapped ∪ range 0x3000 0x1000 }
  have hmissed : VectorStep smallPages false (.grow 8 true) (s, ⟨0, 0, 0⟩, .outside)
      (s, ⟨0, 0, 0⟩, .map 8) := .missed (by decide) (by unfold BacktraceVector.Small; decide) rfl
  have hother : VectorStep smallPages false (.other (true, .map 0x3000 0x1000))
      (s, ⟨0, 0, 0⟩, .map 8) (s₁, ⟨0, 0, 0⟩, .map 8) :=
    .other (.map ⟨by decide, by decide, by decide, by decide, Set.disjoint_empty _⟩) (by simp)
  have hfresh : s₁.Fresh 0x1000 0x1000 := by
    refine ⟨by decide, by decide, by decide, by decide, ?_⟩
    change Disjoint _ (∅ ∪ _)
    rw [Set.empty_union]
    exact Set.Ico_disjoint_Ico.mpr (by decide)
  have hmapped : VectorStep smallPages false (.map (.ok 0x1000)) (s₁, ⟨0, 0, 0⟩, .map 8) _ :=
    .mapped (.map hfresh)
  -- the rest of the page goes onto the free list, and the record is written
  have hrun₁ := Run.cons hmissed (.cons hother (.single hmapped))
  obtain ⟨⟨l₁, hs₁⟩, hst₁⟩ := run_filled smallPages_pageSize hrun₁ ⟨[], .start _⟩ (.empty s false)
  obtain ⟨_, htrim⟩ := exists_vectorStep smallPages_pageSize hs₁ hst₁
    (show Answered smallPages _ (.trim ⟨true, false⟩) from trivial)
  obtain ⟨⟨l₂, hs₂⟩, hst₂⟩ := htrim.filled smallPages_pageSize hs₁ hst₁
  cases htrim with
  | trim step =>
    obtain ⟨_, hfill⟩ := exists_vectorStep smallPages_pageSize hs₂ hst₂
      (show Answered smallPages _ (.fill [1, 2, 3, 4, 5, 6, 7, 8]) from rfl)
    have hrun := hrun₁.append (.cons (.trim step) (.single hfill))
    cases hfill with
    | fill _ _ => exact ⟨_, _, hrun⟩

theorem run_vector_first : ∃ (s' : Arena Bool) (vec' : BacktraceVector),
    Run (VectorStep smallPages false) (.start fun _ => 0, ⟨0, 0, 0⟩, .outside) firstActs
        (s', vec', .outside) ∧
      (∃ old, old.length = GrowPhase.outside.pending ∧
        vec'.Holds s' false (firstActs.flatMap VectorAct.added ++ old)) ∧
      ∀ act, Answered smallPages (s', vec', .outside) act →
        ∃ st, VectorStep smallPages false act (s', vec', .outside) st := by
  obtain ⟨s', vec', hrun⟩ := exists_firstRun
  exact ⟨s', vec', hrun, run_vector smallPages_pageSize (.nil _) hrun⟩

end Runs

/-! ## A call of its own -/

section Call

variable {sys : System} {size : SizeT}

/-- **`backtrace_alloc`** in the call, if nothing comes in between. -/
theorem alloc_run (hsys : sys.PageSize) (hs : InOrder s l) (hv : vec.Holds s t bs) (callback : Bool)
    {ans : AllocAnswers} (hmove : size > vec.alc) (hsmall : vec.Small sys size)
    (hfresh : ∀ page, ans.mmap = .ok page → s.Fresh page (sys.roundUpPage (vec.newAlc sys size))) :
    (∃ errnum, NoMemory sys ans (vec.newAlc sys size) l errnum ∧
        Run (VectorStep sys t) (s, vec, .outside) [.grow size ans.lock, .map (.error errnum)]
          (s, vec, .outside) ∧
        backtraceAlloc sys callback ans (vec.newAlc sys size) s.heap =
          some (0, report callback "mmap" errnum, s.heap)) ∨
      ∃ (acts : List (VectorAct τ)) (s' : Arena τ) (p : Nat), (∀ a, .other a ∉ acts) ∧
        Run (VectorStep sys t) (s, vec, .outside) acts (s', vec.given sys size p) ∧ p ≠ 0 ∧
        backtraceAlloc sys callback ans (vec.newAlc sys size) s.heap = some (p, [], s'.heap) := by
  unfold backtraceAlloc
  rcases searchFreelist_cases hs sys ans.lock (vec.newAlc sys size) with
    ⟨p, h, hfound, -, -, hp, -⟩ | ⟨hmissed, hnotFound⟩
  · rw [hfound]
    exact .inr ⟨[.grow size ans.lock], _, p, by simp, .single (.found hmove hsmall hfound), hp, rfl⟩
  · have hgrow : VectorStep sys t (.grow size ans.lock) (s, vec, .outside) (s, vec, .map size) :=
      .missed hmove hsmall hmissed
    rw [hmissed]
    simp only
    cases hans : ans.mmap with
    | error errnum => exact .inl ⟨errnum, ⟨hnotFound, hans⟩, .cons hgrow (.single .unmapped), rfl⟩
    | ok page =>
      have fresh := hfresh page hans
      have hmap : VectorStep sys t (.map (.ok page)) (s, vec, .map size)
          (_, vec.mapped sys size page) :=
        .mapped (.map fresh)
      obtain ⟨⟨l₁, hs₁⟩, hst₁⟩ := run_filled hsys (.cons hgrow (.single hmap)) ⟨l, hs⟩ hv
      unfold BacktraceVector.mapped at hmap hst₁
      simp only
      by_cases hlt : roundUp8 (vec.newAlc sys size) < sys.roundUpPage (vec.newAlc sys size)
      · rw [if_pos hlt] at hmap hst₁ ⊢
        obtain ⟨-, -, -, hbeside⟩ := hst₁
        obtain ⟨-, s', hrun, hstep, -⟩ :=
          freeRest_spec hs₁ hsys ans.free hbeside.owned hbeside.aligned hlt
        refine .inr ⟨[.grow size ans.lock, .map (.ok page), .trim ans.free], s', page, by simp,
          .cons hgrow (.cons hmap (.single (.trim hstep))), fresh.ne_null, ?_⟩
        exact congrArg (Option.map _) hrun
      · rw [if_neg hlt] at hmap ⊢
        exact .inr ⟨[.grow size ans.lock, .map (.ok page)], _, page, by simp,
          .cons hgrow (.single hmap), fresh.ne_null, rfl⟩

/-- **The move**, if nothing comes in between. -/
theorem move_run (hsys : sys.PageSize) (hs : InOrder s l) {base : Nat}
    (hst : Filled sys t bs (s, vec.given sys size base)) (ans : FreeAnswers) :
    ∃ (acts : List (VectorAct τ)) (s' : Arena τ) (vec' : BacktraceVector), (∀ a, .other a ∉ acts) ∧
      Run (VectorStep sys t) (s, vec.given sys size base) acts (s', vec'.returned size) ∧
      moveTo sys ans base (vec.newAlc sys size) vec s.heap = some (vec', s'.heap) := by
  unfold BacktraceVector.given moveTo at *
  by_cases hbase : vec.base = 0
  · rw [if_neg (not_not.mpr hbase)] at hst ⊢
    rw [if_neg (not_not.mpr hbase)]
    exact ⟨[], s, _, by simp, .nil _, rfl⟩
  · rw [if_pos hbase] at hst ⊢
    rw [if_pos hbase]
    obtain ⟨_, hcopy⟩ := exists_vectorStep hsys hs hst (show Answered sys _ .copy from trivial)
    obtain ⟨⟨l₁, hs₁⟩, hst₁⟩ := hcopy.filled hsys hs hst
    cases hcopy with
    | copy step =>
      have hv := hst₁.1
      obtain ⟨_, s', hrun, hstep, rfl, -⟩ :=
        backtraceFree_spec hs₁ sys ans (hv.range_eq.subset.trans hv.owned) hv.aligned
      refine ⟨[.copy, .free ans], s', _, by simp, .cons (.copy step) (.single (.free hstep)), ?_⟩
      cases step
      exact congrArg (Option.map _) hrun

/-- **`backtrace_vector_grow`** is these sections, if nothing comes in between. If there is no
memory it returns `NULL` and leaves the vector as it is. -/
theorem vectorGrow_run (hsys : sys.PageSize) (hs : InOrder s l) (hv : vec.Holds s t bs)
    (callback : Bool)
    {ans : GrowAnswers} (hpos : 0 < size) (hsmall : vec.Small sys size)
    (hfresh : ∀ page, ans.alloc.mmap = .ok page →
      s.Fresh page (sys.roundUpPage (vec.newAlc sys size))) :
    (∃ errnum, NoMemory sys ans.alloc (vec.newAlc sys size) l errnum ∧ size > vec.alc ∧
        Run (VectorStep sys t) (s, vec, .outside) [.grow size ans.alloc.lock, .map (.error errnum)]
          (s, vec, .outside) ∧
        backtraceVectorGrow sys callback ans size vec s.heap =
          some (0, report callback "mmap" errnum, vec, s.heap)) ∨
      ∃ (acts : List (VectorAct τ)) (s' : Arena τ) (vec' : BacktraceVector) (p : Nat),
        (∀ a, .other a ∉ acts) ∧
        Run (VectorStep sys t) (s, vec, .outside) acts (s', vec', .fill size p) ∧ p ≠ 0 ∧
        backtraceVectorGrow sys callback ans size vec s.heap = some (p, [], vec', s'.heap) := by
  -- the bytes that are returned are the thread's
  have hnull : ∀ {acts s' vec'}, Run (VectorStep sys t) (s, vec, .outside) acts
      (s', BacktraceVector.returned size vec') → vec'.top ≠ 0 := by
    intro acts s' vec' hrun
    obtain ⟨⟨l', hs'⟩, old, hlen, htop, hv'⟩ := run_filled hsys hrun ⟨l, hs⟩ hv
    exact htop ▸ hv'.ne_null hs' (hlen ▸ BitVec.lt_def.mp hpos)
  unfold backtraceVectorGrow
  by_cases hmove : size > vec.alc
  · rw [if_pos hmove]
    unfold moveVector
    rcases alloc_run hsys hs hv callback hmove hsmall hfresh with
      ⟨errnum, hmemory, hrun, halloc⟩ | ⟨acts, s₁, p, hacts, hrun, hp, halloc⟩
    · rw [halloc]
      exact .inl ⟨errnum, hmemory, hmove, hrun, rfl⟩
    · obtain ⟨⟨l₁, hs₁⟩, hst₁⟩ := run_filled hsys hrun ⟨l, hs⟩ hv
      obtain ⟨acts', s', vec', hacts', hrun', hmoved⟩ := move_run hsys hs₁ hst₁ ans.free
      rw [halloc]
      simp only [if_neg hp, hmoved, Option.map_some]
      have hall := hrun.append hrun'
      refine .inr ⟨acts ++ acts', s', _, _, fun a ha => ?_, hall, hnull hall, rfl⟩
      exact (List.mem_append.mp ha).elim (hacts a) (hacts' a)
  · rw [if_neg hmove]
    have hroom : Run (VectorStep sys t) (s, vec, .outside) [.grow size ans.alloc.lock]
        (s, vec.returned size) := .single (.room (BitVec.not_lt.mp hmove))
    exact .inr ⟨_, s, _, _, by simp, hroom, hnull hroom, rfl⟩

end Call

/-! ## Finishing and releasing -/

omit [DecidableEq τ] in
/-- **`backtrace_vector_finish`** hands over what the vector held, and the vector goes on behind
it. -/
theorem vectorFinish_holds (hv : vec.Holds s t bs) (haligned : 8 ∣ bs.length) :
    read s.heap.mem (backtraceVectorFinish vec).1 bs.length = bs ∧
      Set.Ico (backtraceVectorFinish vec).1 ((backtraceVectorFinish vec).1 + bs.length) ⊆
        s.owned t ∧
      Disjoint (Set.Ico (backtraceVectorFinish vec).1 ((backtraceVectorFinish vec).1 + bs.length))
        (backtraceVectorFinish vec).2.bytes ∧
      (backtraceVectorFinish vec).2.Holds s t [] := by
  have hsize := hv.length
  have hfits := hv.fits
  refine ⟨hsize ▸ hv.contents, fun x hx => hv.owned ⟨hx.1, hx.2.trans_le ?_⟩, ?_, ?_, ?_, ?_, rfl⟩
  · exact Nat.add_le_add_left (by omega) _
  · rw [hsize]
    exact Set.Ico_disjoint_Ico_same
  · refine Set.Subset.trans (Set.Ico_subset_Ico (Nat.le_add_right _ _) (le_of_eq ?_)) hv.owned
    change vec.base + vec.size.toNat + (0 + vec.alc.toNat) = _
    omega
  · change 0 + vec.alc.toNat < 2 ^ 64
    omega
  · exact Nat.dvd_add hv.aligned (hsize ▸ haligned)

omit [DecidableEq τ] in
/-- An address divisible by 8 that is not 0 is followed by at most `2^64 - 8` bytes. -/
theorem BacktraceVector.Holds.fits_roundUp8 (hs : InOrder s l) (hv : vec.Holds s t bs) :
    vec.size.toNat + vec.alc.toNat + 7 < 2 ^ 64 := by
  have hfits := hv.fits
  by_contra hover
  have hbytes := fun x hx => hs.mapped_pos x (hs.owned_mapped t (hv.owned hx))
  have hfirst := hbytes vec.base ⟨le_refl _, by omega⟩
  have hlast := hbytes (vec.base + (vec.size.toNat + vec.alc.toNat) - 1) ⟨by omega, by omega⟩
  have haligned := hv.aligned
  omega

/-- **`backtrace_vector_release`** keeps what the vector holds, if the bytes up to the next multiple
of 8 are the vector's, and frees the bytes behind that. -/
theorem vectorRelease_holds (hs : InOrder s l) (hv : vec.Holds s t bs) (sys : System)
    (ans : FreeAnswers)
    (hround : (vec.size.toNat + 7) / 8 * 8 ≤ vec.size.toNat + vec.alc.toNat) :
    ∃ s' : Arena τ,
      backtraceVectorRelease sys ans vec s.heap = some (1, ⟨vec.base, vec.size, 0⟩, s'.heap) ∧
      SectionStep (t, freeSection sys ans (vec.base + (roundUp8 vec.size).toNat)
        (vec.alc - (roundUp8 vec.size - vec.size))) s s' ∧
      BacktraceVector.Holds ⟨vec.base, vec.size, 0⟩ s' t bs ∧
      range (vec.base + (roundUp8 vec.size).toNat) (vec.alc - (roundUp8 vec.size - vec.size)) =
        Set.Ico (vec.base + (vec.size.toNat + 7) / 8 * 8)
          (vec.base + (vec.size.toNat + vec.alc.toNat)) := by
  have hend := hv.fits_roundUp8 hs
  have hup := toNat_roundUp8 (show vec.size.toNat + 7 < 2 ^ 64 by omega)
  have hpad : (roundUp8 vec.size - vec.size).toNat = (roundUp8 vec.size).toNat - vec.size.toNat :=
    BitVec.toNat_sub_of_le (BitVec.le_def.mpr (by omega))
  have hrest : (vec.alc - (roundUp8 vec.size - vec.size)).toNat =
      vec.alc.toNat - ((roundUp8 vec.size).toNat - vec.size.toNat) := by
    rw [BitVec.toNat_sub_of_le (BitVec.le_def.mpr (by omega)), hpad]
  have hrange : range (vec.base + (roundUp8 vec.size).toNat)
      (vec.alc - (roundUp8 vec.size - vec.size)) = Set.Ico (vec.base + (vec.size.toNat + 7) / 8 * 8)
        (vec.base + (vec.size.toNat + vec.alc.toNat)) := by
    rw [range, hrest, hup]
    congr 1
    omega
  have hown : Set.Ico (vec.base + (vec.size.toNat + 7) / 8 * 8)
      (vec.base + (vec.size.toNat + vec.alc.toNat)) ⊆ vec.bytes :=
    Set.Ico_subset_Ico_left (Nat.le_add_right _ _)
  obtain ⟨h, s', hrun, hstep, rfl, -⟩ := backtraceFree_spec hs sys ans
    (hrange ▸ hown.trans hv.owned) (Nat.dvd_add hv.aligned (hup ▸ Nat.dvd_mul_left 8 _))
  have hused : Set.Ico vec.base (vec.base + (vec.size.toNat + 0)) ⊆ vec.bytes :=
    Set.Ico_subset_Ico_right (by omega)
  have hkept := hstep.keeps hs (hused.trans hv.owned) fun _ => by
    rw [uses_freeSection, hrange]
    exact Set.Ico_disjoint_Ico.mpr (by omega)
  refine ⟨s', by rw [backtraceVectorRelease, hrun, Option.map_some], hstep,
    ⟨hkept.1, ?_, hv.aligned, ?_⟩, hrange⟩
  · change vec.size.toNat + 0 < 2 ^ 64
    omega
  · exact (read_congr hkept.2).trans hv.contents

/-- **A vector is released** after whatever sections, if the records that were added have sizes
divisible by 8, as those with a pointer in them do: what is freed are the bytes of the vector that
are not in use. -/
theorem run_vectorRelease {sys : System} (hsys : sys.PageSize) {mem : Nat → Byte}
    {before : List (τ × Section)} (hbefore : Run SectionStep (Arena.start mem) before s)
    {acts : List (VectorAct τ)} {vec' : BacktraceVector}
    (hrun : Run (VectorStep sys t) (s, ⟨0, 0, 0⟩, .outside) acts (s', vec', .outside))
    (haligned : ∀ act ∈ acts, 8 ∣ act.added.length) (ans : FreeAnswers) :
    ∃ s'' : Arena τ,
      backtraceVectorRelease sys ans vec' s'.heap = some (1, ⟨vec'.base, vec'.size, 0⟩, s''.heap) ∧
      SectionStep (t, freeSection sys ans vec'.top vec'.alc) s' s'' ∧
      BacktraceVector.Holds ⟨vec'.base, vec'.size, 0⟩ s'' t (acts.flatMap VectorAct.added) ∧
      (freeSection sys ans vec'.top vec'.alc).uses = vec'.bytes \ Set.Ico vec'.base vec'.top ∧
      Disjoint (freeSection sys ans vec'.top vec'.alc).uses (s'.owned t \ vec'.bytes) := by
  obtain ⟨⟨l, hs⟩, hst⟩ := @run_filled _ _ _ _ hsys _ _ _ hrun [] (run_inOrder hbefore) (.empty s t)
  have hv : vec'.Holds s' t (acts.flatMap VectorAct.added) := hst
  have hdvd : 8 ∣ vec'.size.toNat := by
    rw [← hv.length, List.length_flatMap]
    exact List.dvd_sum fun n hn => by
      obtain ⟨act, hact, rfl⟩ := List.mem_map.mp hn
      exact haligned act hact
  have hround : (vec'.size.toNat + 7) / 8 * 8 = vec'.size.toNat := by omega
  have hend := hv.fits_roundUp8 hs
  have hup : roundUp8 vec'.size = vec'.size :=
    BitVec.eq_of_toNat_eq ((toNat_roundUp8 (by omega)).trans hround)
  obtain ⟨s'', hrelease, hstep, hholds, hrange⟩ := vectorRelease_holds hs hv sys ans (by omega)
  rw [hup, BitVec.sub_self, BitVec.sub_zero] at hstep hrange
  have hunused : (freeSection sys ans vec'.top vec'.alc).uses =
      vec'.bytes \ Set.Ico vec'.base vec'.top := by
    refine (uses_freeSection sys ans _ _).trans (hrange.trans ?_)
    rw [hround]
    ext x
    simp only [BacktraceVector.bytes, BacktraceVector.top, Set.mem_sdiff, Set.mem_Ico]
    omega
  refine ⟨s'', hrelease, hstep, hholds, hunused, ?_⟩
  rw [hunused]
  exact disjoint_sdiff_self_right.mono_left Set.sdiff_subset

theorem run_vectorRelease_first : ∃ (s' s'' : Arena Bool) (vec' : BacktraceVector),
    Run (VectorStep smallPages false) (.start fun _ => 0, ⟨0, 0, 0⟩, .outside) firstActs
        (s', vec', .outside) ∧
      let a := freeSection smallPages ⟨true, true⟩ vec'.top vec'.alc
      backtraceVectorRelease smallPages ⟨true, true⟩ vec' s'.heap =
        some (1, ⟨vec'.base, vec'.size, 0⟩, s''.heap) ∧
      SectionStep (false, a) s' s'' ∧
      BacktraceVector.Holds ⟨vec'.base, vec'.size, 0⟩ s'' false
        (firstActs.flatMap VectorAct.added) ∧
      a.uses = vec'.bytes \ Set.Ico vec'.base vec'.top ∧
      Disjoint a.uses (s'.owned false \ vec'.bytes) := by
  obtain ⟨s', vec', hrun⟩ := exists_firstRun
  obtain ⟨s'', hreleased⟩ := run_vectorRelease smallPages_pageSize (.nil _) hrun
    (by decide) ⟨true, true⟩
  exact ⟨s', s'', vec', hrun, hreleased⟩

end Vectors

end Bktce.Libbacktrace
