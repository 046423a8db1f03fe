import Bktce.Libbacktrace.LineSort
import Bktce.Libbacktrace.Inlined

/-!
# Looking a pc up in the debug information

Model of `dwarf_lookup_pc` (`dwarf.c:2642-2858`) and `dwarf_fileline` (`dwarf.c:2864-2908`), in a
state that is not threaded, which is how `bktce.cpp` creates it.

* A unit pointer is a number, and `DwarfData.units` is what it points to. The lines of a unit are
  read when a pc in it is first looked up and kept: `UnitLines` is the field `lines`, with its
  two special values `NULL` and `-1`.
* `DwarfData.info` is what the sections of a unit hold: the line table `read_line_info` makes of
  them, and the ranges `read_function_info` adds to its vector. The units share this vector
  (`DwarfData.fvec`): it is emptied when the functions of a unit were all read, and keeps the ranges
  of a unit in which that failed. Function pointers of two units differ, so a range is never merged
  with one of another unit.
* `allocError` is the error `backtrace_alloc` reports when it cannot allocate the absolute file
  name; `none` when it can.
* When the lines of a unit could not be read, `dwarf_lookup_pc` starts again if `new_data` is set.
  It is only set when they could (`readUnit_newData`), so that branch is never taken:
  `lookupPcFuel_eq` says that a fuel of one is enough.

The second half describes the same functions by the calls they make, in order (`lookupReports`,
`filelineReports`). Results:
* `lookupPc_eq`, `dwarfFileline_eq`: for every callback, the run makes exactly those calls, up to
  the first nonzero return value.
* `filelineReports_last`: the last call is one of the full callback, so there is at least one.
* `pc_of_mem_filelineReports`: every full callback is given the pc that was asked for.
-/

namespace Bktce.Libbacktrace

open Bktce.Lib

/-! ## Units -/

/-- The field `lines` of a unit: not read yet, not readable, or read. -/
inductive UnitLines where
  | unread
  | failed
  | table (t : LineTable)

/-- `struct unit`, as far as a lookup uses it. -/
structure DwarfUnit where
  filename : Option String
  compDir : Option String
  absFilename : Option String
  lines : UnitLines
  functionAddrs : List FunctionAddrs

/-- What `read_function_info` finds in a unit: the ranges in the order in which they are added to
the vector, and whether it gets through the unit. -/
structure UnitFunctions where
  added : List FunctionAddrs
  complete : Bool

/-- What `read_line_info` and `read_function_info` find in the sections of a unit: the errors they
report, the line table, or `none` when `read_line_info` fails, and the functions. -/
structure UnitInfo where
  errors : List (String × CInt)
  lines : Option LineTable
  functions : UnitFunctions

/-- `struct dwarf_data`: the address ranges of the units, the units, the vector for functions, and
the sections of the units. -/
structure DwarfData where
  addrs : List (AddrRange Nat)
  units : Nat → DwarfUnit
  fvec : List FunctionAddrs
  info : Nat → UnitInfo

namespace DwarfData

/-- Store `unit` behind the pointer `u`. -/
def setUnit (dd : DwarfData) (u : Nat) (unit : DwarfUnit) : DwarfData :=
  { dd with units := fun v => if v = u then unit else dd.units v }

/-- The unit of the address range at position `i`. -/
def unitAt (dd : DwarfData) (i : Nat) : Nat := (dd.addrs[i]?.map AddrRange.target).getD 0

/-- The address range at position `i` contains `pc`. -/
def rangeContains (dd : DwarfData) (pc : UIntPtr) (i : Nat) : Bool :=
  (dd.addrs[i]?.map (·.contains pc)).getD false

end DwarfData

/-- `unit_addrs_search`. -/
def unitAddrsSearch (pc : UIntPtr) (entry : AddrRange Nat) : Ordering := rangeSearch pc entry

/-- The walk back over units without useful lines, as long as the range before contains the pc. -/
def skipUseless (dd : DwarfData) (pc : UIntPtr) : Nat → Nat
  | 0 => 0
  | i + 1 =>
    if dd.rangeContains pc i = true then
      match (dd.units (dd.unitAt (i + 1))).lines with
      | .failed => skipUseless dd pc i
      | _ => i + 1
    else i + 1

/-- The entry whose unit is asked for `pc`. -/
def findUnit (dd : DwarfData) (pc : UIntPtr) : Option Nat :=
  (findRange unitAddrsSearch pc dd.addrs).map (skipUseless dd pc)

/-- The end of `read_function_info`: the function ranges of the unit, sorted, and the vector `fvec`
behind it. It is emptied if the whole unit was read. -/
def takeFunctions (fvec : List FunctionAddrs) (fns : UnitFunctions) :
    List FunctionAddrs × List FunctionAddrs :=
  let vec := fvec ++ fns.added
  if fns.complete then ((backtraceQsort functionAddrsCompare vec).1, []) else ([], vec)

/-- Read the lines and functions of unit `u` unless that has been done. The results are the errors
reported, the line table (`none` for `-1`), `new_data`, and the data with the unit updated. -/
def readUnit (dd : DwarfData) (u : Nat) :
    List (String × CInt) × Option LineTable × Bool × DwarfData :=
  match (dd.units u).lines with
  | .table t => ([], some t, false, dd)
  | .failed => ([], none, false, dd)
  | .unread =>
    match (dd.info u).lines with
    | some t =>
      let (functionAddrs, fvec) := takeFunctions dd.fvec (dd.info u).functions
      ((dd.info u).errors, some t, true,
        { dd.setUnit u { dd.units u with lines := .table t, functionAddrs } with fvec })
    | none => ((dd.info u).errors, none, false,
        dd.setUnit u { dd.units u with lines := .failed, functionAddrs := [] })

/-- `new_data` is set only when the lines could be read. -/
theorem readUnit_newData {dd : DwarfData} {u : Nat} (h : (readUnit dd u).2.1 = none) :
    (readUnit dd u).2.2.1 = false := by
  unfold readUnit at h ⊢
  cases hl : (dd.units u).lines with
  | table t => rfl
  | failed => rfl
  | unread =>
    simp only [hl] at h
    cases hr : (dd.info u).lines with
    | none => rfl
    | some t => simp [hr] at h

/-- `IS_ABSOLUTE_PATH` of a file system that is not DOS-based. -/
def isAbsolutePath (f : String) : Bool := f.toList.head? == some '/'

/-- The absolute name of a unit's file, and whether it has to be allocated. -/
def absolutePath (unit : DwarfUnit) : Option String × Bool :=
  match unit.absFilename, unit.filename, unit.compDir with
  | some f, _, _ => (some f, false)
  | none, some f, some dir =>
    if isAbsolutePath f then (some f, false) else (some (dir ++ "/" ++ f), true)
  | none, f, _ => (f, false)

/-! ## The lookup -/

variable {δ : Type} (callback : FullCallback δ) (errorCallback : ErrorCallback δ)

/-- The outcome of a lookup: return value, `*found`, callback data, and the data of the module. -/
structure LookupResult (δ : Type) where
  ret : CInt
  found : Bool
  data : δ
  dwarf : DwarfData

/-- The call on errors reported while reading. -/
def reportErrors (errors : List (String × CInt)) (data : δ) : δ :=
  errors.foldl (fun d e => errorCallback d e.1 e.2) data

/-- The last part of `dwarf_lookup_pc`: the function of the pc in the unit, what is inlined into
it, and the function itself. -/
def lookupFunction (pc : UIntPtr) (addrs : List FunctionAddrs) (ln : Line) (data : δ) : CInt × δ :=
  if addrs.length = 0 then callback data pc ln.filename ln.lineno none
  else
    match (findRange functionAddrsSearch pc addrs).bind (addrs[·]?) with
    | none => callback data pc ln.filename ln.lineno none
    | some range =>
      let r := reportInlinedFunctions callback pc range.target data ln.filename ln.lineno
      if r.ret ≠ 0 then (r.ret, r.data)
      else callback r.data pc r.filename r.lineno (some range.target.name)

/-- `dwarf_lookup_pc`, with at most `fuel` starts. -/
def lookupPcFuel (allocError : Option (String × CInt)) (pc : UIntPtr) :
    Nat → DwarfData → δ → LookupResult δ
  | 0, dd, data => ⟨0, false, data, dd⟩
  | fuel + 1, dd, data =>
    match findUnit dd pc with
    | none => ⟨0, false, data, dd⟩
    | some entry =>
      let u := dd.unitAt entry
      let (errors, lines, newData, dd) := readUnit dd u
      let data := reportErrors errorCallback errors data
      match lines with
      | none =>
        if newData then lookupPcFuel allocError pc fuel dd data
        else
          let (ret, data) := callback data pc none 0 none
          ⟨ret, true, data, dd⟩
      | some t =>
        match t.lookup pc with
        | none =>
          match absolutePath (dd.units u), allocError with
          | (_, true), some (msg, errnum) => ⟨0, false, errorCallback data msg errnum, dd⟩
          | (f, _), _ =>
            let (ret, data) := callback data pc f 0 none
            ⟨ret, true, data, dd.setUnit u { dd.units u with absFilename := f }⟩
        | some ln =>
          let (ret, data) := lookupFunction callback pc (dd.units u).functionAddrs ln data
          ⟨ret, true, data, dd⟩

/-- `dwarf_lookup_pc`. -/
def lookupPc (allocError : Option (String × CInt)) (pc : UIntPtr) (dd : DwarfData) (data : δ) :
    LookupResult δ :=
  lookupPcFuel callback errorCallback allocError pc 1 dd data

/-- **The retry is never taken**: more fuel changes nothing. -/
theorem lookupPcFuel_eq (allocError : Option (String × CInt)) (pc : UIntPtr) (fuel : Nat)
    (dd : DwarfData) (data : δ) :
    lookupPcFuel callback errorCallback allocError pc (fuel + 1) dd data =
      lookupPc callback errorCallback allocError pc dd data := by
  unfold lookupPc
  simp only [lookupPcFuel]
  cases findUnit dd pc with
  | none => rfl
  | some entry =>
    simp only
    cases hl : (readUnit dd (dd.unitAt entry)).2.1 with
    | none => simp [readUnit_newData hl]
    | some t => rfl

/-- `dwarf_fileline`: the modules in order, until one has the pc; a call with nothing known if
none has. -/
def dwarfFileline (allocError : Option (String × CInt)) (pc : UIntPtr) :
    List DwarfData → δ → CInt × δ × List DwarfData
  | [], data =>
    let (ret, data) := callback data pc none 0 none
    (ret, data, [])
  | dd :: rest, data =>
    let r := lookupPc callback errorCallback allocError pc dd data
    if r.ret ≠ 0 ∨ r.found = true then (r.ret, r.data, r.dwarf :: rest)
    else
      let (ret, data, rest) := dwarfFileline allocError pc rest r.data
      (ret, data, r.dwarf :: rest)

/-! ## The calls a lookup makes -/

/-- The errors reported while reading, as calls. -/
def errorReports (errors : List (String × CInt)) : List Report := errors.map fun e => .error e.1 e.2

/-- The calls of `lookupFunction`. -/
def functionCalls (pc : UIntPtr) (addrs : List FunctionAddrs) (ln : Line) : List FullCall :=
  match (findRange functionAddrsSearch pc addrs).bind (addrs[·]?) with
  | none => [⟨pc, ln.filename, ln.lineno, none⟩]
  | some range => levelCalls pc range.target (ln.filename, ln.lineno)

/-- The calls of `lookupPc`, `*found`, and the data of the module after it. -/
def lookupReports (allocError : Option (String × CInt)) (pc : UIntPtr) (dd : DwarfData) :
    List Report × Bool × DwarfData :=
  match findUnit dd pc with
  | none => ([], false, dd)
  | some entry =>
    let u := dd.unitAt entry
    let (errors, lines, _, dd) := readUnit dd u
    let errors := errorReports errors
    match lines with
    | none => (errors ++ [.full ⟨pc, none, 0, none⟩], true, dd)
    | some t =>
      match t.lookup pc with
      | none =>
        match absolutePath (dd.units u), allocError with
        | (_, true), some (msg, errnum) => (errors ++ [.error msg errnum], false, dd)
        | (f, _), _ =>
          (errors ++ [.full ⟨pc, f, 0, none⟩], true,
            dd.setUnit u { dd.units u with absFilename := f })
      | some ln => (errors ++ (functionCalls pc (dd.units u).functionAddrs ln).map .full, true, dd)

/-- The calls of `dwarfFileline`, and the modules after it. -/
def filelineReports (allocError : Option (String × CInt)) (pc : UIntPtr) :
    List DwarfData → List Report × List DwarfData
  | [] => ([.full ⟨pc, none, 0, none⟩], [])
  | dd :: rest =>
    let (reports, found, dd) := lookupReports allocError pc dd
    if found = true then (reports, dd :: rest)
    else
      let (more, rest) := filelineReports allocError pc rest
      (reports ++ more, dd :: rest)

theorem replay_errorReports : ∀ (errors : List (String × CInt)) (data : δ),
    replay callback errorCallback (errorReports errors) data =
      (0, reportErrors errorCallback errors data)
  | [], _ => rfl
  | _ :: errors, _ => replay_errorReports errors _

/-- After the errors reported while reading, the calls go on. -/
theorem replay_errorReports_append (errors : List (String × CInt)) (rs : List Report) (data : δ) :
    replay callback errorCallback (errorReports errors ++ rs) data =
      replay callback errorCallback rs (reportErrors errorCallback errors data) := by
  rw [replay_append, replay_errorReports, if_pos rfl]

theorem lookupFunction_eq (pc : UIntPtr) (addrs : List FunctionAddrs) (ln : Line) (data : δ) :
    lookupFunction callback pc addrs ln data =
      replay callback errorCallback ((functionCalls pc addrs ln).map .full) data := by
  unfold lookupFunction functionCalls
  cases hr : (findRange functionAddrsSearch pc addrs).bind (addrs[·]?) with
  | none => simp only [ite_self, List.map_cons, List.map_nil, replay_full]
  | some range =>
    have hne : addrs.length ≠ 0 := fun h0 => by
      obtain ⟨i, -, hi⟩ := Option.bind_eq_some_iff.mp hr
      rw [List.length_eq_zero_iff.mp h0] at hi
      simp at hi
    obtain ⟨hrep, hpos⟩ :=
      reportInlinedFunctions_spec callback errorCallback pc range.target data ln.filename ln.lineno
    simp only [if_neg hne, levelCalls, List.map_append, List.map_cons, List.map_nil, replay_append,
      replay_full, ← hrep]
    by_cases h0 : (reportInlinedFunctions callback pc range.target data ln.filename
      ln.lineno).ret = 0
    · simp only [h0, ne_eq, not_true_eq_false, if_false, if_true, ← hpos h0]
    · simp only [h0, ne_eq, not_false_eq_true, if_true, if_false]

theorem functionCalls_last (pc : UIntPtr) (addrs : List FunctionAddrs) (ln : Line) :
    ∃ cs c, functionCalls pc addrs ln = cs ++ [c] := by
  unfold functionCalls levelCalls
  split
  · exact ⟨[], _, rfl⟩
  · exact ⟨_, _, rfl⟩

/-- **A lookup in a module makes the calls of `lookupReports`**, whatever the callbacks are. -/
theorem lookupPc_eq (allocError : Option (String × CInt)) (pc : UIntPtr) (dd : DwarfData)
    (data : δ) :
    lookupPc callback errorCallback allocError pc dd data =
      let r := lookupReports allocError pc dd
      let out := replay callback errorCallback r.1 data
      ⟨out.1, r.2.1, out.2, r.2.2⟩ := by
  unfold lookupPc lookupReports
  simp only [lookupPcFuel]
  cases findUnit dd pc with
  | none => rfl
  | some entry =>
    simp only
    have hnew := @readUnit_newData dd (dd.unitAt entry)
    generalize readUnit dd (dd.unitAt entry) = r at hnew ⊢
    obtain ⟨errors, lines, newData, dd'⟩ := r
    cases lines with
    | none =>
      obtain rfl : newData = false := hnew rfl
      simp [replay_errorReports_append, replay_full]
    | some t =>
      cases hf : t.lookup pc with
      | some ln =>
        simp only [hf, replay_errorReports_append, lookupFunction_eq callback errorCallback]
      | none =>
        simp only [hf]
        split
        · simp only [replay_errorReports_append]
          rfl
        · simp only [replay_errorReports_append, replay_full]

/-- A module that has the pc makes a full callback last; one that has not reports errors only. -/
theorem lookupReports_found (allocError : Option (String × CInt)) (pc : UIntPtr) (dd : DwarfData) :
    ((lookupReports allocError pc dd).2.1 = true →
      ∃ rs c, (lookupReports allocError pc dd).1 = rs ++ [.full c]) ∧
    ((lookupReports allocError pc dd).2.1 = false →
      ∃ errors, (lookupReports allocError pc dd).1 = errorReports errors) := by
  unfold lookupReports
  cases findUnit dd pc with
  | none => exact ⟨fun h => absurd h (by simp), fun _ => ⟨[], rfl⟩⟩
  | some entry =>
    simp only
    generalize readUnit dd (dd.unitAt entry) = r
    obtain ⟨errors, lines, newData, dd'⟩ := r
    cases lines with
    | none => exact ⟨fun _ => ⟨_, _, rfl⟩, fun h => absurd h (by simp)⟩
    | some t =>
      cases hf : t.lookup pc with
      | some ln =>
        obtain ⟨cs, c, hc⟩ := functionCalls_last pc (dd'.units (dd.unitAt entry)).functionAddrs ln
        simp only [hf, hc, List.map_append, ← List.append_assoc]
        exact ⟨fun _ => ⟨_, _, rfl⟩, fun h => absurd h (by simp)⟩
      | none =>
        simp only [hf]
        split
        · rename_i msg errnum _
          refine ⟨fun h => absurd h (by simp), fun _ => ⟨errors ++ [(msg, errnum)], ?_⟩⟩
          simp [errorReports]
        · exact ⟨fun _ => ⟨_, _, rfl⟩, fun h => absurd h (by simp)⟩

/-- **`dwarf_fileline` makes the calls of `filelineReports`**, whatever the callbacks are. -/
theorem dwarfFileline_eq (allocError : Option (String × CInt)) (pc : UIntPtr) :
    ∀ (dds : List DwarfData) (data : δ),
      dwarfFileline callback errorCallback allocError pc dds data =
        let r := filelineReports allocError pc dds
        let out := replay callback errorCallback r.1 data
        (out.1, out.2, r.2)
  | [], data => by simp only [dwarfFileline, filelineReports, replay_full]
  | dd :: rest, data => by
    simp only [dwarfFileline, filelineReports, lookupPc_eq]
    have hfound := lookupReports_found allocError pc dd
    generalize lookupReports allocError pc dd = r at hfound ⊢
    obtain ⟨reports, found, dd'⟩ := r
    cases found with
    | true => simp
    | false =>
      obtain ⟨errors, rfl⟩ := hfound.2 rfl
      simp [replay_errorReports, dwarfFileline_eq allocError pc rest, replay_errorReports_append]

/-- **The last call is one of the full callback**, so there is at least one. -/
theorem filelineReports_last (allocError : Option (String × CInt)) (pc : UIntPtr) :
    ∀ dds : List DwarfData, ∃ rs c, (filelineReports allocError pc dds).1 = rs ++ [.full c]
  | [] => ⟨[], _, rfl⟩
  | dd :: rest => by
    simp only [filelineReports]
    split
    · exact (lookupReports_found allocError pc dd).1 ‹_›
    · obtain ⟨rs, c, hrs⟩ := filelineReports_last allocError pc rest
      exact ⟨_, c, by rw [hrs, List.append_assoc]⟩

theorem pc_of_mem_functionCalls {pc : UIntPtr} {addrs : List FunctionAddrs} {ln : Line}
    {c : FullCall} (h : c ∈ functionCalls pc addrs ln) : c.pc = pc := by
  unfold functionCalls at h
  split at h
  · rw [List.mem_singleton.mp h]
  · rcases List.mem_append.mp h with h | h
    · exact pc_of_mem_inlineCalls h
    · rw [List.mem_singleton.mp h]

theorem pc_of_mem_lookupReports {allocError : Option (String × CInt)} {pc : UIntPtr}
    {dd : DwarfData} {c : FullCall} (h : .full c ∈ (lookupReports allocError pc dd).1) :
    c.pc = pc := by
  have herr : ∀ errors : List (String × CInt), Report.full c ∉ errorReports errors :=
    fun errors => by simp [errorReports]
  unfold lookupReports at h
  cases hu : findUnit dd pc with
  | none => simp [hu] at h
  | some entry =>
    simp only [hu] at h
    generalize readUnit dd (dd.unitAt entry) = r at h
    obtain ⟨errors, lines, newData, dd'⟩ := r
    cases lines with
    | none =>
      rcases List.mem_append.mp h with h | h
      · exact absurd h (herr errors)
      · rw [Report.full.inj (List.mem_singleton.mp h)]
    | some t =>
      cases hf : t.lookup pc with
      | some ln =>
        simp only [hf] at h
        rcases List.mem_append.mp h with h | h
        · exact absurd h (herr errors)
        · obtain ⟨c', hc', hcc⟩ := List.mem_map.mp h
          rw [← Report.full.inj hcc]
          exact pc_of_mem_functionCalls hc'
      | none =>
        simp only [hf] at h
        split at h
        · exact absurd (List.mem_append.mp h) (by simp [herr])
        · rcases List.mem_append.mp h with h | h
          · exact absurd h (herr errors)
          · rw [Report.full.inj (List.mem_singleton.mp h)]

/-- **Every full callback is given the pc that was asked for.** -/
theorem pc_of_mem_filelineReports {allocError : Option (String × CInt)} {pc : UIntPtr}
    {c : FullCall} : ∀ {dds : List DwarfData},
      .full c ∈ (filelineReports allocError pc dds).1 → c.pc = pc
  | [], h => by rw [Report.full.inj (List.mem_singleton.mp h)]
  | dd :: rest, h => by
    simp only [filelineReports] at h
    split at h
    · exact pc_of_mem_lookupReports h
    · rcases List.mem_append.mp h with h | h
      · exact pc_of_mem_lookupReports h
      · exact pc_of_mem_filelineReports h

end Bktce.Libbacktrace
