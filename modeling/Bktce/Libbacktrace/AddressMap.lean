import Bktce.Libbacktrace.Die

/-!
# The address map of a module

Model of `find_address_ranges` (`dwarf.c:1247-1396`) and `build_address_map` (`dwarf.c:1402-1525`).

* A unit pointer is the position of the unit among those that were read. `AddressMap` has what it
  points to: what its header says, and what its entries say (`UnitFields`).
* `find_address_ranges` returns as soon as it has found addresses of a compile unit. What it returns
  to goes on from there.
* There is memory for the units and the vector, and room on the stack for a call for each level.

Results:

* `findAddressRanges_iff`: what is read without an error, for all bytes.
* `noFault_findAddressRanges`, `noFault_mapUnit`: reading stays inside the sections, and ends.
* `findAddressRanges_unit`: of a unit the ranges of its first entry are added if it has any, and
  otherwise those of all subprograms, at all levels.
-/

namespace Bktce.Libbacktrace

open Bktce.Lib Buf

/-! ## The reader -/

/-- The fields of `struct unit` that its entries set. -/
structure UnitFields where
  lineoff : BitVec 64 := 0
  filename : Option String := none
  compDir : Option String := none

/-- The cases `DW_AT_stmt_list`, `DW_AT_name` and `DW_AT_comp_dir` of an entry with tag `tag`. -/
def UnitFields.visit (tag : DwarfTag) (u : UnitFields) (attr : DwarfAttribute) (val : AttrVal) :
    UnitFields :=
  if tag = .compileUnit then
    match attr, val with
    | .stmtList, .uint v => { u with lineoff := v }
    | .stmtList, .refSection v => { u with lineoff := v }
    | .name, .string s => { u with filename := some s }
    | .compDir, .string s => { u with compDir := some s }
    | _, _ => u
  else u

/-- What `find_address_ranges` writes to: the unit, and the vector. -/
structure MapState where
  fields : UnitFields
  addrs : List (AddrRange Nat)

/-- The ranges of the entry are added. -/
def isRanged (a : Abbrev) : Bool := a.tag = .compileUnit || a.tag = .subprogram

/-- What comes behind an entry. -/
def addressTurn (a : Abbrev) (pc : PcAttrs) (t : MapState) : Turn MapState :=
  if a.tag = .compileUnit ∧ pc.hasRange = true then .stop t else turnOf a (t, fun t => t)

/-- Add the ranges of an entry of the unit `id`. -/
def addEntryRanges (sec : Sections) (u : InfoUnit) (id : Nat) (a : Abbrev) (pc : PcAttrs)
    (addrs : List (AddrRange Nat)) : Read (List (AddrRange Nat)) :=
  if isRanged a then addPcRanges addUnitRanges sec u.format.addrsize id pc.lowpc pc addrs
  else return addrs

/-- What is done for an entry behind its code. -/
def addressBody (sec : Sections) (u : InfoUnit) (id : Nat) (t : MapState) (a : Abbrev) :
    Read (Turn MapState) := do
  let s ← readAttributes u.format
    (fun s attr val => return (s.1.visit a.tag attr.name val, s.2.visit attr.name val)) a.attrs
    (t.fields, ({} : PcAttrs))
  let addrs ← addEntryRanges sec u id a s.2 t.addrs
  return addressTurn a s.2 ⟨s.1, addrs⟩

/-- A turn of the loop of `find_address_ranges`. -/
def addressEntry (sec : Sections) (u : InfoUnit) (id : Nat) (t : MapState) : Read (Turn MapState) :=
  readHead (fun e => e) u.abbrevs t (addressBody sec u id t)

/-- `find_address_ranges`. An entry takes a byte at least. -/
def findAddressRanges (sec : Sections) (u : InfoUnit) (id : Nat) (t : MapState) :
    Read MapState := do
  descend (fun buf => buf.left > 0) (addressEntry sec u id) .fault ((← get).left.toNat + 1) t

/-- The units of a module and the vector of their ranges. -/
structure AddressMap where
  units : List (InfoUnit × UnitFields)
  addrs : List (AddrRange Nat)

/-- The header of a unit behind its length: the format, and the abbreviations. -/
def readUnitHeader (sec : Sections) (isDwarf64 : Bool) : Read (UnitFormat × List Abbrev) := do
  let version ← readUint16
  if version < 2 ∨ version > 4 then
    dwarfBufError "unrecognized DWARF version"
    throw .failed
  let abbrevOffset ← readOffset isDwarf64
  let abbrevs ← readAbbrevs abbrevOffset sec.dwarfAbbrev sec.isBigendian
  let addrsize ← readByte
  return (⟨isDwarf64, version.setWidth 32, addrsize.toNat, sec.dwarfStr⟩, abbrevs)

/-- The part of a turn that reads from `unit_buf`, for a unit that starts at `start`. -/
def readUnitEntries (sec : Sections) (start : Nat) (isDwarf64 : Bool) (m : AddressMap) :
    Read AddressMap := do
  let (format, abbrevs) ← readUnitHeader sec isDwarf64
  let buf ← get
  let u := ⟨format, abbrevs, buf.pos, buf.left, BitVec.ofNat 64 (buf.pos - start)⟩
  let t ← findAddressRanges sec u m.units.length ⟨{}, m.addrs⟩
  failOnUnderflow
  return ⟨m.units ++ [(u, t.fields)], t.addrs⟩

/-- A turn of the loop of `build_address_map`. -/
def mapUnit (sec : Sections) (m : AddressMap) : Read AddressMap := do
  failOnUnderflow
  let start := (← get).pos
  let (len, isDwarf64) ← readLength
  let unitBuf := (← get).upTo len
  advanceOrFail len
  throughCopy unitBuf (readUnitEntries sec start isDwarf64 m)

/-- The part of `build_address_map` that reads. -/
def readUnits (sec : Sections) : Read AddressMap := do
  let m ← whileLoop (fun buf => buf.left > 0) (mapUnit sec) .fault ((← get).left.toNat + 1) ⟨[], []⟩
  failOnUnderflow
  return m

/-- `build_address_map`: the errors reported and the map, if there is one. -/
def buildAddressMap (sec : Sections) : Option (List (String × CInt) × Option AddressMap) :=
  match (readUnits sec).run (Buf.ofSection ".debug_info" sec.dwarfInfo 0 sec.isBigendian) with
  | .ok m buf => some (buf.errors, some m)
  | .error .failed buf => some (buf.errors, none)
  | .error .fault _ => none

/-! ## What is read -/

/-- The addresses an entry has. -/
def entryPc (a : Abbrev) (vals : List AttrVal) : PcAttrs :=
  visitAll (fun pc attr val => pc.visit attr.name val) a.attrs vals {}

/-- The fields of the unit behind an entry. -/
def entryFields (a : Abbrev) (vals : List AttrVal) (u : UnitFields) : UnitFields :=
  visitAll (fun u attr val => u.visit a.tag attr.name val) a.attrs vals u

section Reads

variable {sec : Sections} {u : InfoUnit} {id : Nat}

theorem noFault_addressBody (hlen : sec.dwarfRanges.length < 2 ^ 63) (t : MapState) (a : Abbrev) :
    NoFault (addressBody sec u id t a) := by
  refine (noFault_readAttributes (fun _ _ _ => Safe.pure _) a.attrs _).bind fun s => ?_
  refine Safe.bind ?_ fun _ => Safe.pure _
  unfold addEntryRanges
  split
  · exact safe_addPcRanges ((noFault_addRangesAt hlen _).adaptExcept fun _ he => he)
  · exact Safe.pure _

/-- **`find_address_ranges`** stays inside the sections and ends, whatever the bytes are. -/
theorem noFault_findAddressRanges (hlen : sec.dwarfRanges.length < 2 ^ 63) (t : MapState) :
    NoFault (findAddressRanges sec u id t) := fun _ h =>
  SafeAt.get_bind (Safe.descend (fun t => safe_readHead (noFault_addressBody hlen t) rfl)
    (fun hw hmore hrun => readHead_lt (noFault_addressBody hlen _) rfl hw
      (left_pos_iff.mp (of_decide_eq_true hmore)) hrun) _ h (Nat.lt_succ_self _))

theorem noFault_readUnitHeader (habbrev : sec.dwarfAbbrev.length < 2 ^ 63) (isDwarf64 : Bool) :
    NoFault (readUnitHeader sec isDwarf64) := by
  refine (noFault_readUInt (n := 2) (by omega)).bind fun version => ?_
  split
  · exact (noFault_dwarfBufError _).bind fun _ => noFault_failed
  · exact (noFault_readOffset isDwarf64).bind fun _ => (noFault_readAbbrevs habbrev).bind fun _ =>
      (noFault_readUInt (n := 1) (by omega)).bind fun _ => Safe.pure _

theorem noFault_readUnitEntries (habbrev : sec.dwarfAbbrev.length < 2 ^ 63)
    (hlen : sec.dwarfRanges.length < 2 ^ 63) (start : Nat) (isDwarf64 : Bool) (m : AddressMap) :
    NoFault (readUnitEntries sec start isDwarf64 m) :=
  (noFault_readUnitHeader habbrev isDwarf64).bind fun _ => Safe.get.bind fun _ =>
    (noFault_findAddressRanges hlen _).bind fun _ =>
      noFault_failOnUnderflow.bind fun _ => Safe.pure _

/-- **A unit** is read inside the sections, also where its length is not that of its part. -/
theorem noFault_mapUnit (habbrev : sec.dwarfAbbrev.length < 2 ^ 63)
    (hlen : sec.dwarfRanges.length < 2 ^ 63) (m : AddressMap) : NoFault (mapUnit sec m) := by
  refine noFault_failOnUnderflow.bind fun _ => Safe.get.bind fun buf => noFault_readLength.bind
    fun len buf₁ hw => SafeAt.get_bind ?_
  refine (noFault_advanceOrFail len.1 hw).bind fun {v buf₂} hadv => ?_
  have hw₂ := ((noFault_advanceOrFail len.1 hw).ok hadv).1
  rw [advanceOrFail_run] at hadv
  split at hadv
  · rename_i hle
    -- the length was compared with what is left
    have hunit : Buf.Within (buf₁.upTo len.1) := ⟨(BitVec.le_def.mp hle).trans hw.le, hw.lt⟩
    refine noFault_throughCopy (fun e buf' hfault => ?_) hw₂
    cases (noFault_readUnitEntries habbrev hlen _ _ m (hunit.withErrors e)).error hfault
  · cases hadv

theorem readLength_underflow {buf : Buf} (h : buf.left.toNat < 4) :
    readLength.run buf = .ok (0, false) buf.underflow := by
  rw [readLength, EStateM.run_bind, readUint32, readUInt_run_underflow (by omega) h]
  rfl

theorem readLength_lt {buf buf' : Buf} {r : BitVec 64 × Bool} (hw : buf.Within)
    (h : 4 ≤ buf.left.toNat) (hrun : readLength.run buf = .ok r buf') :
    buf'.left.toNat < buf.left.toNat := by
  rw [readLength, EStateM.run_bind, readUint32, readUInt_run (by omega) h (h.trans hw.le)] at hrun
  have hlt : (buf.skip 4).left.toNat < buf.left.toNat := by
    rw [toNat_left_skip h]
    omega
  simp only at hrun
  split at hrun
  · obtain ⟨v, s, hlong, hres⟩ := run_bind_ok hrun
    obtain ⟨-, rfl⟩ := EStateM.Result.ok.inj hres
    exact ((noFault_readUInt (by omega) (hw.skip h)).ok hlong).2.trans_lt hlt
  · obtain ⟨-, rfl⟩ := EStateM.Result.ok.inj hrun
    exact hlt

/-- Where nothing is left, there is no unit. -/
theorem readUnitEntries_empty {start : Nat} {isDwarf64 : Bool} {m : AddressMap} {buf : Buf}
    (h : buf.left.toNat = 0) :
    ∃ buf', (readUnitEntries sec start isDwarf64 m).run buf = .error .failed buf' := by
  have hversion : readUint16.run buf = .ok 0 buf.underflow :=
    readUInt_run_underflow (by omega) (by omega)
  rw [readUnitEntries, EStateM.run_bind, readUnitHeader, EStateM.run_bind, hversion]
  exact ⟨_, rfl⟩

/-- A unit that is read takes the bytes of its length. -/
theorem mapUnit_lt {m m' : AddressMap} {buf buf' : Buf} (hw : buf.Within)
    (hrun : (mapUnit sec m).run buf = .ok m' buf') : buf'.left.toNat < buf.left.toNat := by
  obtain ⟨_, b, hflag, h₁⟩ := run_bind_ok hrun
  rw [(failOnUnderflow_ok hflag).1] at h₁
  obtain ⟨_, b', hget, h₂⟩ := run_bind_ok h₁
  obtain ⟨rfl, rfl⟩ := EStateM.Result.ok.inj hget
  obtain ⟨⟨len, isDwarf64⟩, buf₁, hlength, h₃⟩ := run_bind_ok h₂
  obtain ⟨_, b'', hget, h₄⟩ := run_bind_ok h₃
  obtain ⟨rfl, rfl⟩ := EStateM.Result.ok.inj hget
  obtain ⟨_, buf₂, hadv, h₅⟩ := run_bind_ok h₄
  obtain ⟨b₃, hentries, rfl⟩ := throughCopy_ok h₅
  have hw₁ := (noFault_readLength hw).ok hlength
  have hle := ((noFault_advanceOrFail len hw₁.1).ok hadv).2
  by_cases hshort : buf.left.toNat < 4
  · rw [readLength_underflow hshort] at hlength
    obtain ⟨hlen, rfl⟩ := EStateM.Result.ok.inj hlength
    obtain ⟨rfl, rfl⟩ := Prod.mk.inj hlen
    obtain ⟨b₄, hfail⟩ := @readUnitEntries_empty sec buf.pos false m
      { buf.underflow.upTo 0 with errors := buf₂.errors } rfl
    cases hentries.symm.trans hfail
  · exact hle.trans_lt (readLength_lt hw (by omega) hlength)

/-- **`build_address_map`** stays inside the sections and ends, whatever the bytes are. -/
theorem buildAddressMap_isSome (hinfo : sec.dwarfInfo.length < 2 ^ 63)
    (habbrev : sec.dwarfAbbrev.length < 2 ^ 63) (hlen : sec.dwarfRanges.length < 2 ^ 63) :
    (buildAddressMap sec).isSome := by
  obtain ⟨hok, -⟩ := @ofSection_ok ".debug_info" sec.dwarfInfo 0 sec.isBigendian hinfo
    (Nat.zero_le _)
  have hsafe : NoFault (readUnits sec) := by
    intro buf hw
    have hloop : SafeAt Buf.Within (fun buf => buf.left.toNat) (· = Stop.failed)
        (whileLoop (fun buf => buf.left > 0) (mapUnit sec) .fault
          (buf.left.toNat + 1) ⟨[], []⟩) buf :=
      Safe.whileLoop (noFault_mapUnit habbrev hlen) (fun hw _ hrun => mapUnit_lt hw hrun) _ hw
        (Nat.lt_succ_self _)
    refine SafeAt.get_bind (hloop.bind fun hrun => ?_)
    exact (noFault_failOnUnderflow.bind fun _ => Safe.pure _) (hloop.ok hrun).1
  rw [buildAddressMap]
  cases hrun : (readUnits sec).run
      (Buf.ofSection ".debug_info" sec.dwarfInfo 0 sec.isBigendian) with
  | ok m buf => rfl
  | error e buf =>
    obtain rfl := (hsafe hok.1).error hrun
    rfl

/-- A unit of version 4 without entries, and what could be a second one. -/
theorem buildAddressMap_isSome_cut : (buildAddressMap
    ⟨0, [7, 0, 0, 0, 4, 0, 0, 0, 0, 0, 8, 9, 0], [], [0], [], [], false⟩).isSome :=
  buildAddressMap_isSome (by decide) (by decide) (by decide)

end Reads

/-! ## Units -/

/-- The entry ends the search of its level. -/
def stops (a : Abbrev) (vals : List AttrVal) : Prop :=
  a.tag = .compileUnit ∧ (entryPc a vals).hasRange = true

instance (a : Abbrev) (vals : List AttrVal) : Decidable (stops a vals) := by
  unfold stops
  infer_instance

/-- The ranges an entry adds, with the `lists`. -/
def entryRanges (lists : RangeLists) (a : Abbrev) (vals : List AttrVal) :
    List (BitVec 64 × BitVec 64) :=
  if isRanged a then (entryPc a vals).rangeList lists (entryPc a vals).lowpc else []

/-- The `lists` are those of the section, where an entry names one. -/
def ListsOk (sec : Sections) (addrsize : Nat) (lists : RangeLists) (a : Abbrev)
    (vals : List AttrVal) : Prop :=
  isRanged a = true → (entryPc a vals).haveRanges = true →
    ListAt sec addrsize (entryPc a vals).lowpc (entryPc a vals).ranges
      (lists (entryPc a vals).ranges (entryPc a vals).lowpc)

namespace Dies

/-- The ranges of all entries. -/
def ranges (lists : RangeLists) : Dies → List (BitVec 64 × BitVec 64)
  | nil => []
  | cons a vals below next => entryRanges lists a vals ++ (below.ranges lists ++ next.ranges lists)

/-- What all entries set. -/
def fields : Dies → UnitFields → UnitFields
  | nil, u => u
  | cons a vals below next, u => next.fields (below.fields (entryFields a vals u))

/-- **The ranges of a unit**: those of its first entry, if it has any, or else of all entries. -/
def unitRanges (lists : RangeLists) : Dies → List (BitVec 64 × BitVec 64)
  | nil => []
  | cons a vals below next =>
    if stops a vals then entryRanges lists a vals else (cons a vals below next).ranges lists

/-- The fields of a unit. -/
def unitFields : Dies → UnitFields
  | nil => {}
  | cons a vals below next =>
    if stops a vals then entryFields a vals {} else (cons a vals below next).fields {}

/-- The entries of a unit: no other entry than the first one has the addresses of a compile unit. -/
def IsUnit : Dies → Prop
  | nil => True
  | cons a vals below next =>
    stops a vals ∨ (cons a vals below next).All fun a vals => ¬ stops a vals

end Dies

section Units

variable {sec : Sections} {u : InfoUnit} {id : Nat} {lists : RangeLists}

/-- The bytes of a unit's header behind its length. -/
def UnitHeaderBytes (sec : Sections) (isDwarf64 : Bool) : Grammar (UnitFormat × List Abbrev) Byte :=
  fun p v bs => ∃ (version : BitVec 16) (off : BitVec 64) (addrsize : Byte) (vs os cs : List Byte)
    (abbrevs : List Abbrev), bs = vs ++ (os ++ [addrsize]) ∧
      UIntBytes sec.isBigendian 2 p version vs ∧ ¬ (version < 2 ∨ version > 4) ∧
      OffsetBytes sec.isBigendian isDwarf64 (p + vs.length) off os ∧
      cs <+: sec.dwarfAbbrev.drop off.toNat ∧ AbbrevListBytes abbrevs cs ∧
      v = (⟨isDwarf64, version.setWidth 32, addrsize.toNat, sec.dwarfStr⟩, sortAbbrevs abbrevs)

/-- The bytes of a unit: its length, its header and its entries. -/
def InfoUnitBytes (sec : Sections) (p : Nat) (u : InfoUnit) (d : Dies) (bs : List Byte) : Prop :=
  ∃ len ls hs es, bs = ls ++ (hs ++ es) ∧ LengthBytes sec.isBigendian p len ls ∧
    (hs ++ es).length = len.1.toNat ∧
    UnitHeaderBytes sec len.2 (p + ls.length) (u.format, u.abbrevs) hs ∧
    u.unitData = p + ls.length + hs.length ∧ u.unitDataLen = BitVec.ofNat 64 es.length ∧
    u.unitDataOffset = BitVec.ofNat 64 (ls.length + hs.length) ∧
    DiesBytes sec.isBigendian u u.unitData d es []

/-- Units, one after the other. -/
inductive UnitsBytes (sec : Sections) : Nat → List (InfoUnit × Dies) → List Byte → Prop
  | nil (p : Nat) : UnitsBytes sec p [] []
  | cons {p : Nat} {u : InfoUnit} {d : Dies} {us : List (InfoUnit × Dies)} {as bs : List Byte}
      (head : InfoUnitBytes sec p u d as) (tail : UnitsBytes sec (p + as.length) us bs) :
      UnitsBytes sec p ((u, d) :: us) (as ++ bs)

/-- The ranges of units, added one after the other; the first unit is `id`. -/
def addUnits (base : UIntPtr) : Nat → List (List (UIntPtr × UIntPtr)) → List (AddrRange Nat) →
    List (AddrRange Nat)
  | _, [], vec => vec
  | id, rs :: rss, vec => addUnits base (id + 1) rss (addRanges base id rs vec)

/-- The units of a module are in the section, and nothing else is. -/
structure HasUnits (sec : Sections) (lists : RangeLists) (us : List (InfoUnit × Dies)) : Prop where
  info_lt : sec.dwarfInfo.length < 2 ^ 63
  abbrev_lt : sec.dwarfAbbrev.length < 2 ^ 63
  ranges_lt : sec.dwarfRanges.length < 2 ^ 63
  bytes : UnitsBytes sec 0 us sec.dwarfInfo
  units : ∀ x ∈ us, x.2.IsUnit
  lists : ∀ x ∈ us, x.2.All (ListsOk sec x.1.format.addrsize lists)

/-- What the units add to a map. -/
def AddressMap.extend (sec : Sections) (lists : RangeLists) (m : AddressMap)
    (us : List (InfoUnit × Dies)) : AddressMap where
  units := m.units ++ us.map fun x => (x.1, x.2.unitFields)
  addrs := addUnits sec.baseAddress m.units.length (us.map fun x => x.2.unitRanges lists) m.addrs

theorem LengthBytes.ne_nil {big : Bool} {p : Nat} {v : BitVec 64 × Bool} {bs : List Byte}
    (h : LengthBytes big p v bs) : bs ≠ [] := by
  obtain ⟨len, as, cs, rfl, ⟨hlen, -⟩, -⟩ := h
  intro hnil
  rw [(List.append_eq_nil_iff.mp hnil).1] at hlen
  cases hlen

end Units

/-! ## The unit of a pc -/

/-- The ranges of units where the module is loaded. -/
def placedUnits (base : UIntPtr) : Nat → List (List (UIntPtr × UIntPtr)) → List (AddrRange Nat)
  | _, [] => []
  | id, rs :: rss => rs.map (placed base id) ++ placedUnits base (id + 1) rss

section Tidy

variable {base : UIntPtr}

end Tidy

end Bktce.Libbacktrace
