import Bktce.Lib.Descent
import Bktce.Libbacktrace.Abbrev
import Bktce.Libbacktrace.Ranges

/-!
# Debugging information entries

What `find_address_ranges` (`dwarf.c:1247-1396`) and `read_function_entry` (`dwarf.c:2251-2510`)
have in common: the head of an entry with its abbreviation, the loop over its attributes, and the
variables from `lowpc` to `have_ranges` with what is done for them.

* `Dies` is what the bytes of a level stand for: entries with their values, and the entries below
  each of them. A level ends with a zero, or all open levels with the section.

Results:

* `reads_readHead`, `reads_readAttributes`, `reads_addPcRanges`: what the parts of an entry read.
* `DiesBytes.descent`: reading entries is what a step for each of them says (`Dies.eval`), if no
  step ends its level early.
-/

namespace Bktce.Libbacktrace

open Bktce.Lib Buf

/-- The sections of a module that is loaded at `baseAddress`. -/
structure Sections where
  baseAddress : UIntPtr
  dwarfInfo : List Byte
  dwarfLine : List Byte
  dwarfAbbrev : List Byte
  dwarfRanges : List Byte
  dwarfStr : List Byte
  isBigendian : Bool

/-- What the header of a unit makes of its `struct unit`; `unitData` is the place in `.debug_info`
of the first entry. -/
structure InfoUnit where
  format : UnitFormat
  abbrevs : List Abbrev
  unitData : Nat
  unitDataLen : SizeT
  unitDataOffset : SizeT

/-! ## The head of an entry -/

section Readers

variable {ε τ : Type}

/-- The head of an entry, up to its abbreviation; `entry` is the rest. `stopped` is what stopping in
the head comes to. -/
def readHead (stopped : Stop → ε) (abbrevs : List Abbrev) (t : τ)
    (entry : Abbrev → EStateM ε Buf (Turn τ)) : EStateM ε Buf (Turn τ) := do
  let code ← readUleb128.adaptExcept stopped
  if code = 0 then return .stop t
  let a ← (lookupAbbrev abbrevs code).adaptExcept stopped
  entry a

/-- The loop over the attributes of an entry; `visit` is its body behind `read_attribute`. -/
def readAttributes (u : UnitFormat) (visit : τ → Attr → AttrVal → Read τ) : List Attr → τ → Read τ
  | [], t => return t
  | attr :: attrs, t => do
    let val ← readAttribute u attr.form
    let t ← visit t attr val
    readAttributes u visit attrs t

/-- The bytes of an entry with the abbreviation of its code. -/
def HeadBytes (abbrevs : List Abbrev) (t : τ) (E : Abbrev → Grammar (Turn τ) Byte) :
    Grammar (Turn τ) Byte :=
  UlebBytes.bind fun code p turn bs =>
    if code = 0 then turn = .stop t ∧ bs = []
    else ∃ a, findAbbrev abbrevs code = some a ∧ E a p turn bs

/-- The bytes of the values of attributes. -/
def ValsBytes (big : Bool) (u : UnitFormat) : List Attr → Grammar (List AttrVal) Byte
  | [] => fun _ vals bs => vals = [] ∧ bs = []
  | attr :: attrs => (AttrBytes big u attr.form).bind fun val =>
    (ValsBytes big u attrs).map (val :: ·)

/-- What the loop computes where its body `f` only computes. -/
def visitAll (f : τ → Attr → AttrVal → τ) : List Attr → List AttrVal → τ → τ
  | attr :: attrs, val :: vals, t => visitAll f attrs vals (f t attr val)
  | _, _, t => t

theorem visitAll_inv {f : τ → Attr → AttrVal → τ} {P : τ → Prop}
    (hf : ∀ t attr val, P t → P (f t attr val)) (attrs : List Attr) :
    ∀ (vals : List AttrVal) {t : τ}, P t → P (visitAll f attrs vals t) := by
  induction attrs with
  | nil => exact fun _ _ h => h
  | cons attr attrs ih =>
    intro vals t h
    cases vals with
    | nil => exact h
    | cons val vals => exact ih vals (hf t attr val h)

section Reads

variable {big : Bool} {u : UnitFormat}

theorem reads_lookupAbbrev (abbrevs : List Abbrev) (code : BitVec 64) :
    Reads (cursor big) (lookupAbbrev abbrevs code) fun _ a bs =>
      findAbbrev abbrevs code = some a ∧ bs = [] := by
  unfold lookupAbbrev
  cases h : findAbbrev abbrevs code with
  | some a =>
    refine (Reads.pure a).congr fun p b bs => and_congr_left fun _ => ?_
    rw [Option.some.injEq]
    exact eq_comm
  | none =>
    refine (Reads.of_noise (fun _ h => noise_errorCallback _ h) (grows_errorCallback _)
      fun _ => Grows.throw _).congr fun p b bs => ⟨False.elim, ?_⟩
    rintro ⟨h', -⟩
    cases h'

theorem grammar_bind_silent {α γ : Type} {P : α → Prop} {H : α → Grammar γ Byte} {p : Nat} {v : γ}
    {bs : List Byte} :
    Grammar.bind (fun _ a bs => P a ∧ bs = []) H p v bs ↔ ∃ a, P a ∧ H a p v bs := by
  constructor
  · rintro ⟨a, _, bs, rfl, ⟨ha, rfl⟩, h⟩
    exact ⟨a, ha, h⟩
  · rintro ⟨a, ha, h⟩
    exact ⟨a, [], bs, rfl, ⟨ha, rfl⟩, h⟩

theorem accepts_readHead {stopped : Stop → ε} {abbrevs : List Abbrev} {t : τ}
    {entry : Abbrev → EStateM ε Buf (Turn τ)} {E : Abbrev → Grammar (Turn τ) Byte}
    (hentry : ∀ a, Accepts (cursor big) (entry a) (E a)) :
    Accepts (cursor big) (readHead stopped abbrevs t entry) (HeadBytes abbrevs t E) := by
  refine (reads_readUleb128.complete.adaptExcept stopped).bind fun code => ?_
  by_cases hzero : code = 0
  · simp only [if_pos hzero]
    exact Accepts.pure _
  · simp only [if_neg hzero]
    exact (((reads_lookupAbbrev abbrevs code).complete.adaptExcept stopped).bind hentry).mono
      fun p turn bs => grammar_bind_silent.mpr

/-- A head takes at least the bytes of its code. -/
theorem HeadBytes.ne_nil {abbrevs : List Abbrev} {t : τ} {E : Abbrev → Grammar (Turn τ) Byte}
    {p : Nat} {turn : Turn τ} : ¬ HeadBytes abbrevs t E p turn [] := by
  rintro ⟨code, as, bs, heq, has, -⟩
  obtain ⟨rfl, -⟩ := List.append_eq_nil_iff.mp heq.symm
  exact absurd has.length_pos (Nat.lt_irrefl 0)

/-- **The loop over the attributes**, if its body accepts the values that are `valid`. -/
theorem accepts_readAttributes {visit : τ → Attr → AttrVal → Read τ} {f : τ → Attr → AttrVal → τ}
    {valid : Attr → AttrVal → Prop} (hvisit : ∀ t attr val, valid attr val →
      Accepts (cursor big) (visit t attr val) fun _ t' bs => t' = f t attr val ∧ bs = [])
    (attrs : List Attr) : ∀ t : τ, Accepts (cursor big) (readAttributes u visit attrs t)
      fun p t' bs => ∃ vals, ValsBytes big u attrs p vals bs ∧
        (∀ x ∈ attrs.zip vals, valid x.1 x.2) ∧ t' = visitAll f attrs vals t := by
  induction attrs with
  | nil =>
    refine fun t => (Accepts.pure t).mono ?_
    rintro p _ _ ⟨_, ⟨rfl, rfl⟩, -, rfl⟩
    exact ⟨rfl, rfl⟩
  | cons attr attrs ih =>
    intro t
    refine ((reads_readAttribute attr.form).complete.bind (H := fun val p t' bs => valid attr val ∧
      ∃ vals, ValsBytes big u attrs p vals bs ∧ (∀ x ∈ attrs.zip vals, valid x.1 x.2) ∧
        t' = visitAll f attrs vals (f t attr val)) fun val => ?_).mono ?_
    · rintro buf t' bs hok hbs ⟨hvalid, h⟩
      refine ((hvisit t attr val hvalid).bind ih) hok hbs ?_
      exact grammar_bind_silent.mpr ⟨_, rfl, h⟩
    · rintro p _ _ ⟨_, ⟨val, as, bs, rfl, hval, vals, hvals, rfl⟩, hvalid, rfl⟩
      rw [List.zip_cons_cons, List.forall_mem_cons] at hvalid
      exact ⟨val, as, bs, rfl, hval, hvalid.1, vals, hvals, hvalid.2, rfl⟩

theorem noFault_lookupAbbrev (abbrevs : List Abbrev) (code : BitVec 64) :
    NoFault (lookupAbbrev abbrevs code) := by
  unfold lookupAbbrev
  cases findAbbrev abbrevs code with
  | some a => exact Safe.pure a
  | none => exact (noFault_errorCallback _).bind fun _ => noFault_failed

section Head

variable {allowed : ε → Prop} {stopped : Stop → ε} {abbrevs : List Abbrev} {t : τ}
  {entry : Abbrev → EStateM ε Buf (Turn τ)}

/-- What is behind the code of an entry. -/
theorem safe_readBody
    (hentry : ∀ a, Safe Buf.Within (fun buf => buf.left.toNat) allowed (entry a))
    (hstopped : allowed (stopped .failed)) (code : BitVec 64) :
    Safe Buf.Within (fun buf => buf.left.toNat) allowed
      (if code = 0 then return .stop t
        else (lookupAbbrev abbrevs code).adaptExcept stopped >>= entry) := by
  split
  · exact Safe.pure _
  · exact ((noFault_lookupAbbrev abbrevs code).adaptExcept fun e he => he ▸ hstopped).bind hentry

theorem safe_readHead
    (hentry : ∀ a, Safe Buf.Within (fun buf => buf.left.toNat) allowed (entry a))
    (hstopped : allowed (stopped .failed)) :
    Safe Buf.Within (fun buf => buf.left.toNat) allowed (readHead stopped abbrevs t entry) :=
  (noFault_readUleb128.adaptExcept fun _ he => he ▸ hstopped).bind (safe_readBody hentry hstopped)

/-- An entry takes the bytes of its code. -/
theorem readHead_lt
    (hentry : ∀ a, Safe Buf.Within (fun buf => buf.left.toNat) allowed (entry a))
    (hstopped : allowed (stopped .failed)) {buf buf' : Buf} {turn : Turn τ} (hw : buf.Within)
    (hpos : 0 < buf.left.toNat)
    (hrun : (readHead stopped abbrevs t entry).run buf = .ok turn buf') :
    buf'.left.toNat < buf.left.toNat := by
  obtain ⟨code, buf₁, hcode, hbody⟩ := run_bind_ok hrun
  have hcode' := run_adaptExcept_ok.mp hcode
  have hlt := readUleb128_lt hw hpos hcode'
  have hw₁ := ((noFault_readUleb128 hw).ok hcode').1
  exact ((safe_readBody hentry hstopped code hw₁).ok hbody).2.trans_lt hlt

end Head

theorem noFault_readAttributes {visit : τ → Attr → AttrVal → Read τ}
    (hvisit : ∀ t attr val, NoFault (visit t attr val)) (attrs : List Attr) :
    ∀ t : τ, NoFault (readAttributes u visit attrs t) := by
  induction attrs with
  | nil => exact fun t => Safe.pure t
  | cons attr attrs ih =>
    exact fun t => (noFault_readAttribute u attr.form).bind fun val => (hvisit t attr val).bind ih

end Reads

end Readers

/-! ## The addresses of an entry -/

/-- The variables from `lowpc` to `have_ranges`. -/
structure PcAttrs where
  lowpc : BitVec 64 := 0
  haveLowpc : Bool := false
  highpc : BitVec 64 := 0
  haveHighpc : Bool := false
  highpcIsRelative : Bool := false
  ranges : BitVec 64 := 0
  haveRanges : Bool := false

namespace PcAttrs

/-- The cases `DW_AT_low_pc`, `DW_AT_high_pc` and `DW_AT_ranges`. -/
def visit (pc : PcAttrs) (attr : DwarfAttribute) (val : AttrVal) : PcAttrs :=
  match attr, val with
  | .lowPc, .address v => { pc with lowpc := v, haveLowpc := true }
  | .highPc, .address v => { pc with highpc := v, haveHighpc := true }
  | .highPc, .uint v => { pc with highpc := v, haveHighpc := true, highpcIsRelative := true }
  | .ranges, .uint v => { pc with ranges := v, haveRanges := true }
  | .ranges, .refSection v => { pc with ranges := v, haveRanges := true }
  | _, _ => pc

/-- `highpc`, from `lowpc` on if it is relative. -/
def high (pc : PcAttrs) : BitVec 64 :=
  if pc.highpcIsRelative then pc.highpc + pc.lowpc else pc.highpc

/-- The entry has addresses. -/
def hasRange (pc : PcAttrs) : Bool := pc.haveRanges || (pc.haveLowpc && pc.haveHighpc)

end PcAttrs

/-- The ranges of a list in `.debug_ranges`. -/
def ListAt (sec : Sections) (addrsize : Nat) (base : BitVec 64) (ranges : SizeT)
    (rs : List (BitVec 64 × BitVec 64)) : Prop :=
  ∃ es, RangesAt sec.isBigendian addrsize sec.dwarfRanges ranges es ∧
    rs = rangesFrom addrsize base es

/-- The ranges of an entry, where `list` are those of a list. -/
def PcAttrs.Ranges (list : SizeT → List (BitVec 64 × BitVec 64) → Prop) (pc : PcAttrs)
    (rs : List (BitVec 64 × BitVec 64)) : Prop :=
  if pc.haveRanges then list pc.ranges rs
  else if pc.haveLowpc && pc.haveHighpc then rs = [(pc.lowpc, pc.high)]
  else rs = []

/-- What the lists in `.debug_ranges` are taken for: the ranges by the place and the base. -/
abbrev RangeLists := SizeT → BitVec 64 → List (BitVec 64 × BitVec 64)

/-- The ranges of an entry, with the `lists`. -/
def PcAttrs.rangeList (lists : RangeLists) (base : BitVec 64) (pc : PcAttrs) :
    List (BitVec 64 × BitVec 64) :=
  if pc.haveRanges then lists pc.ranges base
  else if pc.haveLowpc && pc.haveHighpc then [(pc.lowpc, pc.high)]
  else []

theorem PcAttrs.ranges_rangeList {lists : RangeLists} {base : BitVec 64} {pc : PcAttrs}
    {list : SizeT → List (BitVec 64 × BitVec 64) → Prop}
    (h : pc.haveRanges = true → list pc.ranges (lists pc.ranges base)) :
    pc.Ranges list (pc.rangeList lists base) := by
  unfold PcAttrs.Ranges PcAttrs.rangeList
  by_cases hranges : pc.haveRanges = true
  · simp only [if_pos hranges]
    exact h hranges
  · simp only [if_neg hranges]
    split
    · rfl
    · rfl

section AddRanges

variable {ε α : Type} [DecidableEq α]

/-- Add the addresses of an entry to a vector; `addList` adds those of a list. -/
def addPcRanges (addList : Nat → UIntPtr → α → SizeT → BitVec 64 → List Byte → Bool →
      List (AddrRange α) → EStateM ε Buf (List (AddrRange α)))
    (sec : Sections) (addrsize : Nat) (target : α) (base : BitVec 64) (pc : PcAttrs)
    (vec : List (AddrRange α)) : EStateM ε Buf (List (AddrRange α)) :=
  if pc.haveRanges then
    addList addrsize sec.baseAddress target pc.ranges base sec.dwarfRanges sec.isBigendian vec
  else if pc.haveLowpc && pc.haveHighpc then
    return addRange sec.baseAddress pc.lowpc pc.high target vec
  else return vec

/-- What `addList` does: it adds the ranges of a list in the section. -/
def AddsList (addList : Nat → UIntPtr → α → SizeT → BitVec 64 → List Byte → Bool →
      List (AddrRange α) → EStateM ε Buf (List (AddrRange α))) : Prop :=
  ∀ {big big' : Bool} {addrsize : Nat} {baseAddress : UIntPtr} {target : α} {ranges : SizeT}
    {base : BitVec 64} {dwarfRanges : List Byte}, dwarfRanges.length < 2 ^ 63 →
    ∀ vec : List (AddrRange α), Reads (cursor big')
      (addList addrsize baseAddress target ranges base dwarfRanges big vec)
      fun _ v bs => bs = [] ∧ ∃ es, RangesAt big addrsize dwarfRanges ranges es ∧
        v = addRanges baseAddress target (rangesFrom addrsize base es) vec

theorem addsList_addFunctionRanges : AddsList (α := α) addFunctionRanges :=
  fun hlen vec => reads_addRangesAt hlen vec

theorem reads_addPcRanges {addList : Nat → UIntPtr → α → SizeT → BitVec 64 → List Byte → Bool →
      List (AddrRange α) → EStateM ε Buf (List (AddrRange α))} (hadd : AddsList addList)
    {big : Bool}
    {sec : Sections} (hlen : sec.dwarfRanges.length < 2 ^ 63) (addrsize : Nat) (target : α)
    (base : BitVec 64) (pc : PcAttrs) (vec : List (AddrRange α)) :
    Reads (cursor big) (addPcRanges addList sec addrsize target base pc vec)
      fun _ v bs => (∃ rs, pc.Ranges (ListAt sec addrsize base) rs ∧
        v = addRanges sec.baseAddress target rs vec) ∧ bs = [] := by
  unfold addPcRanges PcAttrs.Ranges
  by_cases hranges : pc.haveRanges = true
  · simp only [if_pos hranges]
    refine (hadd hlen vec).congr fun p v bs => ⟨?_, ?_⟩
    · rintro ⟨rfl, es, hes, rfl⟩
      exact ⟨⟨_, ⟨es, hes, rfl⟩, rfl⟩, rfl⟩
    · rintro ⟨⟨_, ⟨es, hes, rfl⟩, rfl⟩, rfl⟩
      exact ⟨rfl, es, hes, rfl⟩
  · simp only [if_neg hranges]
    by_cases hpc : (pc.haveLowpc && pc.haveHighpc) = true
    · simp only [if_pos hpc]
      refine (Reads.pure _).congr fun p v bs => and_congr_left fun _ => ?_
      rw [exists_eq_left]
      rfl
    · simp only [if_neg hpc]
      refine (Reads.pure _).congr fun p v bs => and_congr_left fun _ => ?_
      rw [exists_eq_left]
      rfl

theorem safe_addPcRanges {addList : Nat → UIntPtr → α → SizeT → BitVec 64 → List Byte → Bool →
      List (AddrRange α) → EStateM ε Buf (List (AddrRange α))} {allowed : ε → Prop} {sec : Sections}
    {addrsize : Nat} {target : α} {base : BitVec 64} {pc : PcAttrs} {vec : List (AddrRange α)}
    (hadd : Safe Buf.Within (fun buf => buf.left.toNat) allowed
      (addList addrsize sec.baseAddress target pc.ranges base sec.dwarfRanges sec.isBigendian
        vec)) :
    Safe Buf.Within (fun buf => buf.left.toNat) allowed
      (addPcRanges addList sec addrsize target base pc vec) := by
  unfold addPcRanges
  split
  · exact hadd
  · split
    · exact Safe.pure _
    · exact Safe.pure _

end AddRanges

/-! ## Levels of entries -/

/-- A level of entries: each with its abbreviation, its values and the level below it. -/
inductive Dies where
  | nil
  | cons (a : Abbrev) (vals : List AttrVal) (below next : Dies)

namespace Dies

/-- Every entry, at every level. -/
def All (P : Abbrev → List AttrVal → Prop) : Dies → Prop
  | nil => True
  | cons a vals below next => P a vals ∧ below.All P ∧ next.All P

theorem All.and {P Q : Abbrev → List AttrVal → Prop} {d : Dies} (hP : d.All P) (hQ : d.All Q) :
    d.All fun a vals => P a vals ∧ Q a vals := by
  induction d with
  | nil => trivial
  | cons a vals below next ihb ihn =>
    exact ⟨⟨hP.1, hQ.1⟩, ihb hP.2.1 hQ.2.1, ihn hP.2.2 hQ.2.2⟩

section Eval

variable {τ : Type}

/-- A step for each entry, and what it says for behind the level below. -/
def eval (step : τ → Abbrev → List AttrVal → τ × (τ → τ)) : Dies → τ → τ
  | nil, t => t
  | cons a vals below next, t =>
    if a.hasChildren = 0 then next.eval step (step t a vals).1
    else next.eval step ((step t a vals).2 (below.eval step (step t a vals).1))

end Eval

end Dies

/-- The bytes of an entry with a given abbreviation. -/
def EntryBytes (big : Bool) (u : InfoUnit) (a : Abbrev) : Grammar (List AttrVal) Byte :=
  fun p vals bs => ∃ code as vs, bs = as ++ vs ∧ UlebBytes p code as ∧ code ≠ 0 ∧
    findAbbrev u.abbrevs code = some a ∧ ValsBytes big u.format a.attrs (p + as.length) vals vs

/-- The bytes of a level, with what is behind it. -/
inductive DiesBytes (big : Bool) (u : InfoUnit) : Nat → Dies → List Byte → List Byte → Prop
  | ended (p : Nat) : DiesBytes big u p .nil [] []
  | null {p : Nat} {as rest : List Byte} (zero : UlebBytes p 0 as) : DiesBytes big u p .nil as rest
  | leaf {p : Nat} {a : Abbrev} {vals : List AttrVal} {next : Dies} {as bs rest : List Byte}
      (head : EntryBytes big u a p vals as) (no_children : a.hasChildren = 0)
      (tail : DiesBytes big u (p + as.length) next bs rest) :
      DiesBytes big u p (.cons a vals .nil next) (as ++ bs) rest
  | node {p : Nat} {a : Abbrev} {vals : List AttrVal} {below next : Dies}
    {as bs cs rest : List Byte}
      (head : EntryBytes big u a p vals as) (has_children : a.hasChildren ≠ 0)
      (level : DiesBytes big u (p + as.length) below bs (cs ++ rest))
      (tail : DiesBytes big u (p + as.length + bs.length) next cs rest) :
      DiesBytes big u p (.cons a vals below next) (as ++ (bs ++ cs)) rest

/-- The first entry of a level. -/
theorem DiesBytes.head {big : Bool} {u : InfoUnit} {p : Nat} {a : Abbrev} {vals : List AttrVal}
    {below next : Dies} {bs rest : List Byte}
    (h : DiesBytes big u p (.cons a vals below next) bs rest) :
    ∃ as cs, bs = as ++ cs ∧ EntryBytes big u a p vals as := by
  cases h with
  | leaf head _ _ => exact ⟨_, _, rfl, head⟩
  | node head _ _ _ => exact ⟨_, _, rfl, head⟩

/-- The turn behind the head of an entry. -/
def turnOf {τ : Type} (a : Abbrev) (r : τ × (τ → τ)) : Turn τ :=
  if a.hasChildren = 0 then .next r.1 else .down r.1 r.2

/-- **The entries are read one step each**, if the heads do what the step says. -/
theorem DiesBytes.descent {τ : Type} {big : Bool} {u : InfoUnit} {G : τ → Grammar (Turn τ) Byte}
    {step : τ → Abbrev → List AttrVal → τ × (τ → τ)} {valid : Abbrev → List AttrVal → Prop}
    (hnull : ∀ {t p as}, UlebBytes p 0 as → G t p (.stop t) as)
    (hentry : ∀ {t p a vals as}, EntryBytes big u a p vals as → valid a vals →
      G t p (turnOf a (step t a vals)) as)
    {p : Nat} {d : Dies} {bs rest : List Byte} (h : DiesBytes big u p d bs rest) :
    ∀ t : τ, d.All valid → Descent G p t bs (d.eval step t) rest := by
  induction h with
  | ended p => exact fun t _ => Descent.done p t
  | null zero => exact fun t _ => Descent.stop (hnull zero)
  | @leaf p a vals next as bs rest head no_children tail ih =>
    rintro t ⟨hvalid, -, hnext⟩
    have hturn := @hentry t _ _ _ _ head hvalid
    rw [turnOf, if_pos no_children] at hturn
    rw [Dies.eval, if_pos no_children]
    exact Descent.next hturn (ih _ hnext)
  | @node p a vals below next as bs cs rest head has_children level tail ihl iht =>
    rintro t ⟨hvalid, hbelow, hnext⟩
    have hturn := @hentry t _ _ _ _ head hvalid
    rw [turnOf, if_neg has_children] at hturn
    rw [Dies.eval, if_neg has_children]
    exact Descent.down hturn (ihl _ hbelow) (iht _ hnext)

end Bktce.Libbacktrace
