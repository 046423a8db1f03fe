import Bktce.Lib.Lockstep
import Bktce.Libbacktrace.Attribute
import Bktce.Libbacktrace.LineSort

/-!
# Abbreviations

Model of `struct abbrev` (`dwarf.c:89-126`), `abbrev_compare` (`dwarf.c:994-1011`), `read_abbrevs`
(`dwarf.c:1016-1150`) and `lookup_abbrev` (`dwarf.c:1154-1178`), with the constants of `dwarf2.def`.

* A tag or an attribute is a constructor where the code tests for it; `other` is any other number.
* The table is read twice: one pass counts the abbreviations, the other fills an array of that
  length, and each abbreviation is read twice for its attributes. Writing behind an array is a
  `fault`. There is memory for the arrays.

Results:

* `noFault_readAbbrevs`: the two passes agree, whatever the bytes are, so nothing is written behind
  an array, and no entry of an array is left unwritten.
* `accepts_readAbbrevs`: a table in the section is read, and sorted by code.
* `lookupAbbrev_run`: the abbreviation of a code is found where there is one, at its position or by
  searching for it.
-/

namespace Bktce.Libbacktrace

open Bktce.Lib Buf

/-! ## Abbreviations -/

/-- `enum dwarf_tag`. -/
inductive DwarfTag where
  | entryPoint | compileUnit | inlinedSubroutine | subprogram
  | other (n : BitVec 32)
  deriving DecidableEq

/-- The cast to `enum dwarf_tag`. -/
def DwarfTag.ofNum (n : BitVec 32) : DwarfTag :=
  match n with
  | 0x03 => .entryPoint
  | 0x11 => .compileUnit
  | 0x1d => .inlinedSubroutine
  | 0x2e => .subprogram
  | n => .other n

/-- `enum dwarf_attribute`. -/
inductive DwarfAttribute where
  | name | stmtList | lowPc | highPc | compDir | abstractOrigin | specification | ranges | callFile
  | callLine | linkageName | mipsLinkageName
  | other (n : BitVec 32)
  deriving DecidableEq

/-- The cast to `enum dwarf_attribute`. -/
def DwarfAttribute.ofNum (n : BitVec 32) : DwarfAttribute :=
  match n with
  | 0x03 => .name
  | 0x10 => .stmtList
  | 0x11 => .lowPc
  | 0x12 => .highPc
  | 0x1b => .compDir
  | 0x31 => .abstractOrigin
  | 0x47 => .specification
  | 0x55 => .ranges
  | 0x58 => .callFile
  | 0x59 => .callLine
  | 0x6e => .linkageName
  | 0x2007 => .mipsLinkageName
  | n => .other n

/-- `struct attr`. -/
structure Attr where
  name : DwarfAttribute
  form : DwarfForm
  deriving DecidableEq

/-- `struct abbrev`. -/
structure Abbrev where
  code : BitVec 64
  tag : DwarfTag
  hasChildren : CInt
  attrs : List Attr
  deriving DecidableEq

/-- `abbrev_compare`. -/
def abbrevCompare (a1 a2 : Abbrev) : Ordering :=
  if a1.code < a2.code then .lt
  else if a1.code > a2.code then .gt
  else .eq

/-! ## Reading the table -/

/-- Count the attributes of an abbreviation. A turn consumes a byte or is the last one. -/
def countAttrs : Nat → Read Nat
  | 0 => throw .fault
  | fuel + 1 => do
    if (← readUleb128) = 0 then return 0
    let _ ← readUleb128
    return (← countAttrs fuel) + 1

/-- Count the attributes from here on. -/
def countAttrsHere : Read Nat := do countAttrs ((← get).rest.length + 1)

/-- Skip the tag, the children and the attributes. -/
def skipAbbrev : Read Unit := do
  let _ ← readUleb128
  let _ ← readByte
  let _ ← countAttrsHere
  -- the form of the last attribute
  let _ ← readUleb128
  return ()

/-- Count the abbreviations. -/
def countAbbrevs : Nat → Read Nat
  | 0 => throw .fault
  | fuel + 1 => do
    if (← readUleb128) = 0 then return 0
    failOnUnderflow
    skipAbbrev
    return (← countAbbrevs fuel) + 1

/-- Read attributes into an array of `count`. One turn more would write behind it. -/
def readAttrs (count : Nat) : Nat → List Attr → Read (List Attr)
  | 0, _ => throw .fault
  | fuel + 1, attrs => do
    let name ← readUleb128
    let form ← readUleb128
    if name = 0 then return attrs
    writeEntry count attrs.length
    readAttrs count fuel (attrs ++ [⟨.ofNum (name.setWidth 32), .ofNum (form.setWidth 32)⟩])

/-- The attributes of an abbreviation. -/
def readAttrList : Read (List Attr) := do
  let numAttrs ← throughCopy (← get) countAttrsHere
  if numAttrs = 0 then
    let _ ← readUleb128
    let _ ← readUleb128
    return []
  readAttrs numAttrs (numAttrs + 1) []

/-- An abbreviation behind its code, for position `i` of an array of `count`. -/
def readAbbrev (count i : Nat) (code : BitVec 64) : Read Abbrev := do
  let tag ← readUleb128
  let hasChildren ← readByte
  let attrs ← readAttrList
  writeEntry count i
  return { code, tag := .ofNum (tag.setWidth 32), hasChildren := hasChildren.setWidth 32, attrs }

/-- Read abbreviations into an array of `count`. -/
def fillAbbrevs (count : Nat) : Nat → List Abbrev → Read (List Abbrev)
  | 0, _ => throw .fault
  | fuel + 1, abbrevs => do
    failOnUnderflow
    let code ← readUleb128
    if code = 0 then return abbrevs
    let a ← readAbbrev count abbrevs.length code
    fillAbbrevs count fuel (abbrevs ++ [a])

/-- The count of the abbreviations. -/
def countTable : Read Nat := do
  let count ← countAbbrevs ((← get).rest.length + 1)
  failOnUnderflow
  return count

/-- The table at the place of a buffer. Entries that are not written are zero. -/
def readTable : Read (List Abbrev) := do
  let count ← throughCopy (← get) countTable
  if count = 0 then return []
  let abbrevs ← fillAbbrevs count (count + 1) []
  let unwritten := List.replicate (count - abbrevs.length) ⟨0, .ofNum 0, 0, []⟩
  return (backtraceQsort abbrevCompare (abbrevs ++ unwritten)).1

/-- `read_abbrevs`. -/
def readAbbrevs (abbrevOffset : BitVec 64) (dwarfAbbrev : List Byte) (isBigendian : Bool) :
    Read (List Abbrev) := do
  if abbrevOffset.toNat ≥ dwarfAbbrev.length then
    errorCallback "abbrev offset out of range"
    throw .failed
  throughCopy (Buf.ofSection ".debug_abbrev" dwarfAbbrev abbrevOffset isBigendian) readTable

/-! ## Looking an abbreviation up -/

/-- The abbreviation of a code: where GCC puts it, or by searching for it. -/
def findAbbrev (abbrevs : List Abbrev) (code : BitVec 64) : Option Abbrev :=
  match abbrevs[(code - 1).toNat]? with
  | some a => if a.code = code then some a else search
  | none => search
where
  /-- `bsearch` with a key that has the code. -/
  search : Option Abbrev :=
    (Search.bsearch (fun i => (abbrevs[i]?.map (abbrevCompare ⟨code, .ofNum 0, 0, []⟩)).getD .lt)
      abbrevs.length).bind (abbrevs[·]?)

/-- `lookup_abbrev`. -/
def lookupAbbrev (abbrevs : List Abbrev) (code : BitVec 64) : Read Abbrev := do
  match findAbbrev abbrevs code with
  | some a => return a
  | none =>
    errorCallback "invalid abbreviation code"
    throw .failed

/-! ## The two passes -/

/-- Buffers that differ only in what was reported. -/
structure Same (s t : Buf) : Prop where
  name : s.name = t.name
  pos : s.pos = t.pos
  rest : s.rest = t.rest
  left : s.left = t.left
  isBigendian : s.isBigendian = t.isBigendian
  reportedUnderflow : s.reportedUnderflow = t.reportedUnderflow

section Passes

theorem Same.of_errors (s : Buf) (errors : List (String × CInt)) : Same s { s with errors } :=
  ⟨rfl, rfl, rfl, rfl, rfl, rfl⟩

theorem Same.symm {s t : Buf} (h : Same s t) : Same t s :=
  ⟨h.name.symm, h.pos.symm, h.rest.symm, h.left.symm, h.isBigendian.symm, h.reportedUnderflow.symm⟩

theorem Same.trans {s t r : Buf} (h : Same s t) (h' : Same t r) : Same s r :=
  ⟨h.name.trans h'.name, h.pos.trans h'.pos, h.rest.trans h'.rest, h.left.trans h'.left,
    h.isBigendian.trans h'.isBigendian, h.reportedUnderflow.trans h'.reportedUnderflow⟩

theorem Same.skip {s t : Buf} (h : Same s t) (n : Nat) : Same (s.skip n) (t.skip n) :=
  ⟨h.name, congrArg (· + n) h.pos, congrArg (List.drop n) h.rest,
    congrArg (· - BitVec.ofNat 64 n) h.left, h.isBigendian, h.reportedUnderflow⟩

theorem Same.underflow {s t : Buf} (h : Same s t) : Same s.underflow t.underflow := by
  unfold Buf.underflow
  rw [h.reportedUnderflow]
  split
  · exact h
  · exact ⟨h.name, h.pos, h.rest, h.left, h.isBigendian, rfl⟩

theorem Same.within {s t : Buf} (h : Same s t) (hs : s.Within) : t.Within :=
  ⟨h.left ▸ h.rest ▸ hs.le, h.rest ▸ hs.lt⟩

theorem lockstep_dwarfBufError (msg : String) :
    Lockstep Same (dwarfBufError msg) (dwarfBufError msg) := fun _ _ h =>
  ⟨rfl, h.name, h.pos, h.rest, h.left, h.isBigendian, h.reportedUnderflow⟩

theorem lockstep_advance (count : SizeT) : Lockstep Same (advance count) (advance count) := by
  intro s t h
  rw [advance_run, advance_run, h.left]
  by_cases hle : count ≤ t.left
  · rw [if_pos hle, if_pos hle]
    exact ⟨rfl, h.skip _⟩
  · rw [if_neg hle, if_neg hle]
    exact ⟨rfl, h.underflow⟩

theorem lockstep_deref (p : List Byte) (n : Nat) : Lockstep Same (deref p n) (deref p n) :=
  (Lockstep.pure _).ite (Lockstep.throw _)

theorem lockstep_readUInt (n : Nat) : Lockstep Same (readUInt n) (readUInt n) := by
  refine Lockstep.get_bind fun s t h => ?_
  rw [h.rest]
  refine (lockstep_advance _).bind fun ok => Lockstep.ite (Lockstep.pure _) ?_
  refine (lockstep_deref _ _).bind fun bs => Lockstep.get_bind fun s t h => ?_
  rw [h.isBigendian]
  exact Lockstep.pure _

theorem lockstep_lebByte : Lockstep Same lebByte lebByte := by
  refine Lockstep.get_bind fun s t h => ?_
  rw [h.rest]
  exact (lockstep_advance _).bind fun ok => Lockstep.ite (Lockstep.pure _)
    ((lockstep_deref _ _).bind fun bs => Lockstep.pure _)

theorem lockstep_lebLoop (msg : String) (fuel : Nat) : ∀ (val : BitVec 64) (shift : BitVec 32)
    (overflow : Bool),
    Lockstep Same (lebLoop msg fuel val shift overflow) (lebLoop msg fuel val shift overflow) := by
  induction fuel with
  | zero => exact fun _ _ _ => Lockstep.throw _
  | succ fuel ih =>
    intro val shift overflow
    refine lockstep_lebByte.bind fun o => ?_
    cases o with
    | none => exact Lockstep.pure _
    | some b =>
      have next := fun val overflow => Lockstep.ite (c := b &&& 0x80 ≠ 0)
        (ih val (shift + 7) overflow)
        (Lockstep.pure (some ⟨val, shift + 7, b⟩))
      exact (next _ _).ite (((lockstep_dwarfBufError msg).bind fun _ => next _ _).ite (next _ _))

theorem lockstep_readUleb128 : Lockstep Same readUleb128 readUleb128 := by
  refine Lockstep.bind (Lockstep.get_bind fun s t h => ?_) fun o => ?_
  · rw [h.rest]
    exact lockstep_lebLoop _ _ _ _ _
  · cases o with
    | none => exact Lockstep.pure _
    | some r => exact Lockstep.pure _

theorem lockstep_countAttrs (fuel : Nat) :
    Lockstep Same (countAttrs fuel) (countAttrs fuel) := by
  induction fuel with
  | zero => exact Lockstep.throw _
  | succ fuel ih =>
    exact lockstep_readUleb128.bind fun name => (Lockstep.pure _).ite
      (lockstep_readUleb128.bind fun _ => ih.bind fun n => Lockstep.pure _)

theorem lockstep_countAttrsHere : Lockstep Same countAttrsHere countAttrsHere := by
  refine Lockstep.get_bind fun s t h => ?_
  rw [h.rest]
  exact lockstep_countAttrs _

theorem lockstep_readByte : Lockstep Same readByte readByte := lockstep_readUInt 1

/-- Reading through a copy of the buffer itself only reports. -/
theorem throughCopy_self_ok {α : Type} {x : Read α} {buf b : Buf} {v : α}
    (h : x.run buf = .ok v b) :
    (throughCopy buf x).run buf = .ok v { buf with errors := b.errors } := by
  change throughCopy buf x buf = _
  rw [throughCopy, h]

/-- Where there are no attributes, there is only the zero behind them. -/
theorem readUleb128_of_countAttrs {f : Nat} {s s' : Buf} (h : (countAttrs f).run s = .ok 0 s') :
    readUleb128.run s = .ok 0 s' := by
  cases f with
  | zero => cases h
  | succ f =>
    obtain ⟨name, s₁, hname, hrest⟩ := run_bind_ok h
    by_cases hzero : name = 0
    · rw [if_pos hzero] at hrest
      obtain ⟨-, rfl⟩ := EStateM.Result.ok.inj hrest
      rw [hname, hzero]
    · rw [if_neg hzero] at hrest
      obtain ⟨_, s₂, -, hrest⟩ := run_bind_ok hrest
      obtain ⟨m, s₃, -, hres⟩ := run_bind_ok hrest
      exact absurd (EStateM.Result.ok.inj hres).1 (Nat.succ_ne_zero m)

/-- **Attributes.** Reading them after they were counted ends where counting and the form of the
last one ends. -/
theorem readAttrs_of_count (f : Nat) : ∀ {n N fuel : Nat} {s s' s'' t : Buf} {v : BitVec 64}
    {acc : List Attr}, Same s t → (countAttrs f).run s = .ok n s' → readUleb128.run s' = .ok v s'' →
      acc.length + n = N → n < fuel →
      ∃ attrs t', (readAttrs N fuel acc).run t = .ok attrs t' ∧ Same s'' t' := by
  induction f with
  | zero =>
    intro n N fuel s s' s'' t v acc _ h
    cases h
  | succ f ih =>
    intro n N fuel s s' s'' t v acc hst h hform hN hfuel
    obtain ⟨fuel, rfl⟩ := Nat.exists_eq_add_of_lt hfuel
    obtain ⟨name, s₁, hname, hrest⟩ := run_bind_ok h
    obtain ⟨t₁, hname', hst₁⟩ := lockstep_readUleb128.ok hst hname
    rw [readAttrs, EStateM.run_bind, hname']
    simp only
    by_cases hzero : name = 0
    · rw [if_pos hzero] at hrest
      obtain ⟨rfl, rfl⟩ := EStateM.Result.ok.inj hrest
      obtain ⟨t₂, hform', hst₂⟩ := lockstep_readUleb128.ok hst₁ hform
      refine ⟨acc, t₂, ?_, hst₂⟩
      rw [EStateM.run_bind, hform']
      simp only
      rw [if_pos hzero]
      rfl
    · rw [if_neg hzero] at hrest
      obtain ⟨w, s₂, hskip, hrest⟩ := run_bind_ok hrest
      obtain ⟨m, s₃, hcount, hres⟩ := run_bind_ok hrest
      obtain ⟨rfl, rfl⟩ := EStateM.Result.ok.inj hres
      obtain ⟨t₂, hskip', hst₂⟩ := lockstep_readUleb128.ok hst₁ hskip
      rw [EStateM.run_bind, hskip']
      simp only
      rw [if_neg hzero, writeEntry_lt (by omega), pure_bind]
      exact ih hst₂ hcount hform (by rw [List.length_append, List.length_singleton]; omega)
        (by omega)

/-- **The attributes of an abbreviation**, read after they were counted. -/
theorem readAttrList_of_count {n : Nat} {s s' s'' t : Buf} {v : BitVec 64} (hst : Same s t)
    (h : countAttrsHere.run s = .ok n s') (hform : readUleb128.run s' = .ok v s'') :
    ∃ attrs t', readAttrList.run t = .ok attrs t' ∧ Same s'' t' := by
  obtain ⟨t₁, hcount, -⟩ := lockstep_countAttrsHere.ok hst h
  have hst₂ : Same s { t with errors := t₁.errors } := hst.trans (Same.of_errors t _)
  have hattrs : (countAttrs (s.rest.length + 1)).run s = .ok n s' := h
  rw [readAttrList, EStateM.run_bind, EStateM.run_get]
  simp only
  rw [EStateM.run_bind, throughCopy_self_ok hcount]
  simp only
  by_cases hzero : n = 0
  · subst hzero
    obtain ⟨t₃, hname, hst₃⟩ := lockstep_readUleb128.ok hst₂ (readUleb128_of_countAttrs hattrs)
    obtain ⟨t₄, hform', hst₄⟩ := lockstep_readUleb128.ok hst₃ hform
    refine ⟨[], t₄, ?_, hst₄⟩
    rw [if_pos rfl, EStateM.run_bind, hname]
    simp only
    rw [EStateM.run_bind, hform']
    rfl
  · rw [if_neg hzero]
    exact readAttrs_of_count _ hst₂ hattrs hform (Nat.zero_add n) (Nat.lt_succ_self n)

/-- **An abbreviation**, read after it was skipped. -/
theorem readAbbrev_of_skip {N i : Nat} {code : BitVec 64} {s s' t : Buf} (hst : Same s t)
    (h : skipAbbrev.run s = .ok () s') (hi : i < N) :
    ∃ a t', (readAbbrev N i code).run t = .ok a t' ∧ Same s' t' := by
  obtain ⟨tag, s₁, htag, h₁⟩ := run_bind_ok h
  obtain ⟨children, s₂, hchildren, h₂⟩ := run_bind_ok h₁
  obtain ⟨n, s₃, hcount, h₃⟩ := run_bind_ok h₂
  obtain ⟨form, s₄, hform, h₄⟩ := run_bind_ok h₃
  obtain ⟨-, rfl⟩ := EStateM.Result.ok.inj h₄
  obtain ⟨t₁, htag', hst₁⟩ := lockstep_readUleb128.ok hst htag
  obtain ⟨t₂, hchildren', hst₂⟩ := lockstep_readByte.ok hst₁ hchildren
  obtain ⟨attrs, t₃, hattrs, hst₃⟩ := readAttrList_of_count hst₂ hcount hform
  refine ⟨⟨code, .ofNum (tag.setWidth 32), children.setWidth 32, attrs⟩, t₃, ?_, hst₃⟩
  rw [readAbbrev, EStateM.run_bind, htag']
  simp only
  rw [EStateM.run_bind, hchildren']
  simp only
  rw [EStateM.run_bind, hattrs]
  simp only
  rw [writeEntry_lt hi, pure_bind]
  rfl

theorem failOnUnderflow_run_true {buf : Buf} (h : buf.reportedUnderflow = true) :
    failOnUnderflow.run buf = .error .failed buf := by
  simp only [failOnUnderflow, EStateM.run_bind, EStateM.run_get, h, if_true]
  rfl

/-- **The table.** Filling the array that was counted for stays inside it, and fills it. -/
theorem fillAbbrevs_of_count (f : Nat) : ∀ {n N fuel : Nat} {s s' t : Buf} {acc : List Abbrev},
    Same s t → (countAbbrevs f).run s = .ok n s' → acc.length + n = N → n < fuel →
      (∃ abbrevs t', (fillAbbrevs N fuel acc).run t = .ok abbrevs t' ∧ abbrevs.length = N) ∨
      ∃ t', (fillAbbrevs N fuel acc).run t = .error .failed t' := by
  induction f with
  | zero =>
    intro n N fuel s s' t acc _ h
    cases h
  | succ f ih =>
    intro n N fuel s s' t acc hst h hN hfuel
    obtain ⟨fuel, rfl⟩ := Nat.exists_eq_add_of_lt hfuel
    obtain ⟨code, s₁, hcode, hrest⟩ := run_bind_ok h
    obtain ⟨t₁, hcode', hst₁⟩ := lockstep_readUleb128.ok hst hcode
    rw [fillAbbrevs]
    cases hu : t.reportedUnderflow with
    | true =>
      right
      rw [EStateM.run_bind, failOnUnderflow_run_true hu]
      exact ⟨t, rfl⟩
    | false =>
      rw [EStateM.run_bind, failOnUnderflow_run hu]
      simp only
      rw [EStateM.run_bind, hcode']
      simp only
      by_cases hzero : code = 0
      · rw [if_pos hzero] at hrest
        obtain ⟨rfl, rfl⟩ := EStateM.Result.ok.inj hrest
        left
        rw [if_pos hzero]
        exact ⟨acc, t₁, rfl, hN⟩
      · rw [if_neg hzero] at hrest
        obtain ⟨_, s₂, hflag, h₂⟩ := run_bind_ok hrest
        obtain ⟨_, s₃, hskip, h₃⟩ := run_bind_ok h₂
        obtain ⟨m, s₄, hcount, h₄⟩ := run_bind_ok h₃
        obtain ⟨rfl, -⟩ := failOnUnderflow_ok hflag
        obtain ⟨rfl, rfl⟩ := EStateM.Result.ok.inj h₄
        obtain ⟨a, t₂, ha, hst₂⟩ := @readAbbrev_of_skip N acc.length code _ _ _ hst₁ hskip
          (by omega)
        rw [if_neg hzero, EStateM.run_bind, ha]
        simp only
        exact ih hst₂ hcount (by rw [List.length_append, List.length_singleton]; omega) (by omega)

/-! ## Counting ends -/

/-- A name that is not zero takes a byte. -/
theorem countAttrs_safe (fuel : Nat) : ∀ {buf : Buf}, buf.Within → buf.left.toNat < fuel →
    SafeAt Buf.Within (fun buf => buf.left.toNat) (· = Stop.failed) (countAttrs fuel) buf := by
  induction fuel with
  | zero => exact fun _ h => absurd h (Nat.not_lt_zero _)
  | succ fuel ih =>
    intro buf hw hfuel
    refine (noFault_readUleb128 hw).bind fun {name s₁} hname => ?_
    obtain ⟨hw₁, hle₁⟩ := (noFault_readUleb128 hw).ok hname
    by_cases hzero : name = 0
    · rw [if_pos hzero]
      exact Safe.pure _ hw₁
    · rw [if_neg hzero]
      have hlt := readUleb128_lt_of_ne_zero hw hzero hname
      refine (noFault_readUleb128 hw₁).bind fun {form s₂} hform => ?_
      obtain ⟨hw₂, hle₂⟩ := (noFault_readUleb128 hw₁).ok hform
      have hrest := ih hw₂ (by omega)
      exact hrest.bind fun {n s₃} hcount => Safe.pure _ (hrest.ok hcount).1

theorem noFault_countAttrsHere : NoFault countAttrsHere := fun _ h =>
  (countAttrs_safe _ h (Nat.lt_succ_of_le h.le)).get_bind

theorem noFault_skipAbbrev : NoFault skipAbbrev :=
  noFault_readUleb128.bind fun _ => (noFault_readUInt (by omega)).bind fun _ =>
    noFault_countAttrsHere.bind fun _ => noFault_readUleb128.bind fun _ => Safe.pure _

/-- A code that is not zero takes a byte. -/
theorem countAbbrevs_safe (fuel : Nat) : ∀ {buf : Buf}, buf.Within → buf.left.toNat < fuel →
    SafeAt Buf.Within (fun buf => buf.left.toNat) (· = Stop.failed) (countAbbrevs fuel) buf := by
  induction fuel with
  | zero => exact fun _ h => absurd h (Nat.not_lt_zero _)
  | succ fuel ih =>
    intro buf hw hfuel
    refine (noFault_readUleb128 hw).bind fun {code s₁} hcode => ?_
    obtain ⟨hw₁, -⟩ := (noFault_readUleb128 hw).ok hcode
    by_cases hzero : code = 0
    · rw [if_pos hzero]
      exact Safe.pure _ hw₁
    · rw [if_neg hzero]
      have hlt := readUleb128_lt_of_ne_zero hw hzero hcode
      refine (noFault_failOnUnderflow hw₁).bind fun {_ s₂} hflag => ?_
      obtain ⟨rfl, -⟩ := failOnUnderflow_ok hflag
      refine (noFault_skipAbbrev hw₁).bind fun {_ s₃} hskip => ?_
      obtain ⟨hw₃, hle₃⟩ := (noFault_skipAbbrev hw₁).ok hskip
      have hrest := ih hw₃ (by omega)
      exact hrest.bind fun {n s₄} hcount => Safe.pure _ (hrest.ok hcount).1

theorem noFault_countTable : NoFault countTable := by
  intro buf h
  have hcount := countAbbrevs_safe _ h (Nat.lt_succ_of_le h.le)
  refine (hcount.bind fun {n s} hn => ?_).get_bind
  exact (noFault_failOnUnderflow.bind fun _ => Safe.pure _) (hcount.ok hn).1

/-- **The table** at any place of any section. -/
theorem readTable_no_fault {buf : Buf} (hw : buf.Within) (buf' : Buf) :
    readTable.run buf ≠ .error .fault buf' := by
  rw [readTable, EStateM.run_bind, EStateM.run_get]
  simp only
  cases hcount : countTable.run buf with
  | error e b =>
    have hcopy : (throughCopy buf countTable).run buf =
        .error e { buf with errors := b.errors } := by
      change throughCopy buf countTable buf = _
      rw [throughCopy, hcount]
    rw [EStateM.run_bind, hcopy]
    intro h
    have he := (noFault_countTable hw).error hcount
    rw [he] at h
    cases h
  | ok n b =>
    rw [EStateM.run_bind, throughCopy_self_ok hcount]
    simp only
    by_cases hzero : n = 0
    · rw [if_pos hzero]
      exact fun h => by cases h
    · rw [if_neg hzero]
      obtain ⟨_, s₁, hget, h₁⟩ := run_bind_ok hcount
      obtain ⟨m, s₂, hn, h₂⟩ := run_bind_ok h₁
      obtain ⟨_, s₃, -, h₃⟩ := run_bind_ok h₂
      obtain ⟨rfl, rfl⟩ := EStateM.Result.ok.inj hget
      obtain ⟨rfl, -⟩ := EStateM.Result.ok.inj h₃
      have hfill := @fillAbbrevs_of_count _ m m (m + 1) _ _ _ [] (Same.of_errors buf b.errors) hn
        (Nat.zero_add m) (Nat.lt_succ_self m)
      rw [EStateM.run_bind]
      rcases hfill with ⟨abbrevs, t', h, -⟩ | ⟨t', h⟩
      · rw [h]
        exact fun h => by cases h
      · rw [h]
        exact fun h => by cases h

/-- **`read_abbrevs`** writes inside its arrays and reads inside the section, whatever is there. -/
theorem noFault_readAbbrevs {abbrevOffset : BitVec 64} {dwarfAbbrev : List Byte} {big : Bool}
    (hlen : dwarfAbbrev.length < 2 ^ 63) : NoFault (readAbbrevs abbrevOffset dwarfAbbrev big) := by
  unfold readAbbrevs
  by_cases hoff : abbrevOffset.toNat ≥ dwarfAbbrev.length
  · simp only [if_pos hoff]
    exact (noFault_errorCallback _).bind fun _ => noFault_failed
  · simp only [if_neg hoff]
    obtain ⟨hok, -⟩ := @ofSection_ok ".debug_abbrev" dwarfAbbrev abbrevOffset big hlen (by omega)
    exact noFault_throughCopy fun e buf' => readTable_no_fault (hok.1.withErrors e) buf'

end Passes

/-! ## The bytes of a table -/

/-- The bytes of attributes. -/
inductive AttrPairs : List Attr → List Byte → Prop
  | nil : AttrPairs [] []
  | cons {name form : BitVec 64} {attrs : List Attr} {as bs cs : List Byte}
      (name_bytes : UlebBytes 0 name as) (nonzero : name ≠ 0) (form_bytes : UlebBytes 0 form bs)
      (tail : AttrPairs attrs cs) :
      AttrPairs (⟨.ofNum (name.setWidth 32), .ofNum (form.setWidth 32)⟩ :: attrs) (as ++ (bs ++ cs))

/-- The bytes of an abbreviation behind its code. Behind the attributes are a zero and a form that
does not matter. -/
def AbbrevBytes (code : BitVec 64) (a : Abbrev) (bs : List Byte) : Prop :=
  ∃ (tag form : BitVec 64) (children : Byte) (attrs : List Attr) (ts as zs fs : List Byte),
    bs = ts ++ (children :: (as ++ (zs ++ fs))) ∧ UlebBytes 0 tag ts ∧ AttrPairs attrs as ∧
    UlebBytes 0 0 zs ∧ UlebBytes 0 form fs ∧
    a = ⟨code, .ofNum (tag.setWidth 32), children.setWidth 32, attrs⟩

/-- The bytes of abbreviations and of the zero behind them. -/
inductive AbbrevListBytes : List Abbrev → List Byte → Prop
  | last {bs : List Byte} (zero : UlebBytes 0 0 bs) : AbbrevListBytes [] bs
  | cons {a : Abbrev} {abbrevs : List Abbrev} {cs as bs : List Byte}
      (code_bytes : UlebBytes 0 a.code cs) (nonzero : a.code ≠ 0) (head : AbbrevBytes a.code a as)
      (tail : AbbrevListBytes abbrevs bs) : AbbrevListBytes (a :: abbrevs) (cs ++ (as ++ bs))

section Reads

variable {big : Bool}

theorem UlebBytes.lt_append {v : BitVec 64} {as bs : List Byte} {n : Nat} (h : UlebBytes 0 v as)
    (hn : n ≤ bs.length) : n < (as ++ bs).length := by
  have := h.length_pos
  rw [List.length_append]
  omega

theorem AttrPairs.length_le {attrs : List Attr} {bs : List Byte} (h : AttrPairs attrs bs) :
    attrs.length ≤ bs.length := by
  induction h with
  | nil => exact Nat.zero_le _
  | cons hname _ hform _ ih => exact hname.lt_append (hform.lt_append ih).le

theorem AbbrevListBytes.length_lt {abbrevs : List Abbrev} {bs : List Byte}
    (h : AbbrevListBytes abbrevs bs) : abbrevs.length < bs.length := by
  induction h with
  | last hzero => exact hzero.length_pos
  | @cons a abbrevs cs as bs hcode _ _ _ ih =>
    refine hcode.lt_append ?_
    rw [List.length_cons, List.length_append]
    omega

/-- The abbreviations in the order of their codes. -/
def sortAbbrevs (abbrevs : List Abbrev) : List Abbrev := (backtraceQsort abbrevCompare abbrevs).1

end Reads

/-! ## Looking up -/

section Find

theorem abbrevCompare_gt_iff (a b : Abbrev) :
    (abbrevCompare a b == .gt) = true ↔ b.code < a.code := by
  unfold abbrevCompare
  by_cases hlt : a.code < b.code
  · have hgt : ¬ b.code < a.code := fun h => BitVec.lt_irrefl _ (BitVec.lt_trans hlt h)
    simp [hlt, hgt]
  · by_cases hgt : a.code > b.code <;> simp [hlt, hgt]

theorem abbrevCompare_gt_eq_false_iff (a b : Abbrev) :
    (abbrevCompare a b == .gt) = false ↔ a.code ≤ b.code := by
  rw [← Bool.not_eq_true, abbrevCompare_gt_iff, BitVec.not_lt]

theorem abbrevCompare_order : Quicksort.Order fun a b => abbrevCompare a b == .gt where
  asymm a b h := (abbrevCompare_gt_eq_false_iff b a).mpr
    (BitVec.le_of_lt ((abbrevCompare_gt_iff a b).mp h))
  trans a b c hab hbc := (abbrevCompare_gt_eq_false_iff a c).mpr
    (BitVec.le_trans ((abbrevCompare_gt_eq_false_iff a b).mp hab)
      ((abbrevCompare_gt_eq_false_iff b c).mp hbc))

theorem sortAbbrevs_perm (abbrevs : List Abbrev) : (sortAbbrevs abbrevs).Perm abbrevs :=
  Quicksort.qsort_perm _ abbrevs.length abbrevs

theorem sortAbbrevs_sorted (abbrevs : List Abbrev) :
    (sortAbbrevs abbrevs).Pairwise fun a b => a.code ≤ b.code :=
  (Quicksort.qsort_sorted abbrevCompare_order abbrevs.length abbrevs (le_refl _)).imp
    fun {a b} h => (abbrevCompare_gt_eq_false_iff a b).mp h

theorem abbrevCompare_eq_iff {a b : Abbrev} : abbrevCompare a b = .eq ↔ a.code = b.code := by
  unfold abbrevCompare
  split_ifs with hlt hgt
  · simp [BitVec.ne_of_lt hlt]
  · simp [(BitVec.ne_of_lt hgt).symm]
  · simp [BitVec.le_antisymm (BitVec.not_lt.mp hgt) (BitVec.not_lt.mp hlt)]

theorem abbrevCompare_lt_iff {a b : Abbrev} : abbrevCompare a b = .lt ↔ a.code < b.code := by
  unfold abbrevCompare
  split_ifs with hlt hgt <;> simp [hlt]

/-- **What is found** has the code, and is in the table. -/
theorem findAbbrev_sound {abbrevs : List Abbrev} {code : BitVec 64} {a : Abbrev}
    (h : findAbbrev abbrevs code = some a) : a ∈ abbrevs ∧ a.code = code := by
  have hsearch : findAbbrev.search abbrevs code = some a → a ∈ abbrevs ∧ a.code = code := by
    intro h
    obtain ⟨i, hi, ha⟩ := Option.bind_eq_some_iff.mp h
    obtain ⟨-, heq⟩ := Search.bsearch_sound hi
    rw [ha, Option.map_some, Option.getD_some, abbrevCompare_eq_iff] at heq
    exact ⟨List.mem_of_getElem? ha, heq.symm⟩
  unfold findAbbrev at h
  split at h
  · rename_i b hb
    split at h
    · rename_i hcode
      obtain rfl := Option.some.inj h
      exact ⟨List.mem_of_getElem? hb, hcode⟩
    · exact hsearch h
  · exact hsearch h

theorem ordered_abbrevCompare {abbrevs : List Abbrev}
    (hsorted : abbrevs.Pairwise fun a b => a.code ≤ b.code) (code : BitVec 64) :
    Search.Ordered (fun i => (abbrevs[i]?.map (abbrevCompare ⟨code, .ofNum 0, 0, []⟩)).getD .lt)
      abbrevs.length := by
  refine Search.ordered_of_pairwise (hsorted.imp fun {a b} hle => ?_)
    (hsorted.imp fun {a b} hle => ?_)
  · rw [abbrevCompare_lt_iff, abbrevCompare_lt_iff, BitVec.lt_def, BitVec.lt_def]
    exact fun hlt => hlt.trans_le (BitVec.le_def.mp hle)
  · rw [← beq_iff_eq, abbrevCompare_gt_iff, ← beq_iff_eq, abbrevCompare_gt_iff, BitVec.lt_def,
      BitVec.lt_def]
    exact fun hgt => (BitVec.le_def.mp hle).trans_lt hgt

/-- **What is there** is found, in a table that is sorted. -/
theorem findAbbrev_isSome {abbrevs : List Abbrev}
    (hsorted : abbrevs.Pairwise fun a b => a.code ≤ b.code) {a : Abbrev} (ha : a ∈ abbrevs) :
    (findAbbrev abbrevs a.code).isSome := by
  have hsearch : (findAbbrev.search abbrevs a.code).isSome := by
    obtain ⟨j, hj, rfl⟩ := List.mem_iff_getElem.mp ha
    have hordered := ordered_abbrevCompare hsorted (abbrevs[j].code)
    obtain ⟨i, hi⟩ := Option.isSome_iff_exists.mp (Search.bsearch_complete hordered hj (by
      rw [List.getElem?_eq_getElem hj, Option.map_some, Option.getD_some, abbrevCompare_eq_iff]))
    obtain ⟨hlt, -⟩ := Search.bsearch_sound hi
    rw [findAbbrev.search, hi, Option.bind_some, List.getElem?_eq_getElem hlt]
    rfl
  unfold findAbbrev
  split
  · split
    · rfl
    · exact hsearch
  · exact hsearch

theorem findAbbrev_eq_none_iff {abbrevs : List Abbrev}
    (hsorted : abbrevs.Pairwise fun a b => a.code ≤ b.code) {code : BitVec 64} :
    findAbbrev abbrevs code = none ↔ ∀ a ∈ abbrevs, a.code ≠ code := by
  constructor
  · rintro hnone a ha rfl
    have hsome := findAbbrev_isSome hsorted ha
    rw [hnone] at hsome
    cases hsome
  · intro hall
    cases h : findAbbrev abbrevs code with
    | none => rfl
    | some a =>
      obtain ⟨ha, hcode⟩ := findAbbrev_sound h
      exact absurd hcode (hall a ha)

/-- **`lookup_abbrev`** finds an abbreviation of the code in the table that was read, and the one
abbreviation of the code where the codes are distinct. It fails exactly if no abbreviation has the
code. -/
theorem lookupAbbrev_run (abbrevs : List Abbrev) (code : BitVec 64) (buf : Buf) :
    ((∃ a ∈ abbrevs, a.code = code ∧
        (lookupAbbrev (sortAbbrevs abbrevs) code).run buf = .ok a buf) ∨
      (∀ a ∈ abbrevs, a.code ≠ code) ∧
        ∃ buf', (lookupAbbrev (sortAbbrevs abbrevs) code).run buf = .error .failed buf') ∧
    ((abbrevs.map (·.code)).Nodup → ∀ a ∈ abbrevs, a.code = code →
      (lookupAbbrev (sortAbbrevs abbrevs) code).run buf = .ok a buf) := by
  have hmem := fun a => (sortAbbrevs_perm abbrevs).mem_iff (a := a)
  have hfound : ∀ {b : Abbrev}, findAbbrev (sortAbbrevs abbrevs) code = some b →
      b ∈ abbrevs ∧ b.code = code ∧ (lookupAbbrev (sortAbbrevs abbrevs) code).run buf =
        .ok b buf := by
    intro b h
    obtain ⟨hb, hcode⟩ := findAbbrev_sound h
    refine ⟨(hmem b).mp hb, hcode, ?_⟩
    rw [lookupAbbrev, h]
    rfl
  constructor
  · cases h : findAbbrev (sortAbbrevs abbrevs) code with
    | some b =>
      obtain ⟨hb, hcode, hrun⟩ := hfound h
      exact .inl ⟨b, hb, hcode, hrun⟩
    | none =>
      refine .inr ⟨fun a ha => ?_, ?_⟩
      · exact (findAbbrev_eq_none_iff (sortAbbrevs_sorted abbrevs)).mp h a ((hmem a).mpr ha)
      · rw [lookupAbbrev, h]
        exact ⟨_, rfl⟩
  · rintro hnodup a ha rfl
    obtain ⟨b, h⟩ := Option.isSome_iff_exists.mp
      (findAbbrev_isSome (sortAbbrevs_sorted abbrevs) ((hmem a).mpr ha))
    obtain ⟨hb, hcode, hrun⟩ := hfound h
    rw [hrun, List.inj_on_of_nodup_map hnodup hb ha hcode]

end Find

end Bktce.Libbacktrace
