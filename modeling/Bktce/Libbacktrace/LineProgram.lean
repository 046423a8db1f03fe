import Bktce.Libbacktrace.Leb128
import Bktce.Libbacktrace.Lookup

/-!
# Reading a line number program

Model of `struct line_header` (`dwarf.c:174-198`), of `add_line` (`dwarf.c:1530-1564`) and of
`read_line_program` (`dwarf.c:1748-1950`).

* Lines are added to a vector, and memory for it is there. File names are compared as pointers: a
  `FileName` is such a pointer, to the empty literal, to the name of a file listed in the header, or
  to the name made by the operation at a position of the program.
* What goes wrong apart from the reading is `Trouble`: an error that is reported before the reader
  fails, or undefined behaviour. A division by zero is undefined, and so is the length of the null
  compilation directory, which `DW_LNE_define_file` does not check for (`dwarf.c:1827`).
* The arithmetic on `lineno` is on `int` and wraps as it does on x86_64.

Results:
* `noFault_lineStep`, `readLineProgram_safe`: on any bytes the program reader stays within the
  section, comes to an end, and does nothing undefined, if the header has no zero divisor and as
  many opcode lengths as it says and the unit has a compilation directory.
* `applySpecial_fault_iff`, `applyDefineFile_fault_iff`: when these operations do something
  undefined.
-/

namespace Bktce.Libbacktrace

open Bktce.Lib Buf

/-! ## Lines -/

/-- A file name, as a pointer. -/
inductive FileName where
  | empty
  | listed (i : Nat)
  | defined (pos : Nat) (name : String)
  deriving DecidableEq

/-- `struct line_header`. -/
structure LineHeader where
  version : BitVec 32
  minInsnLen : BitVec 32
  maxOpsPerInsn : BitVec 32
  lineBase : CInt
  lineRange : BitVec 32
  opcodeBase : BitVec 32
  opcodeLengths : List Byte
  dirs : List String
  filenames : List String

/-- The name behind a pointer. -/
def FileName.name (hdr : LineHeader) : FileName → String
  | .empty => ""
  | .listed i => (hdr.filenames[i]?).getD ""
  | .defined _ name => name

/-- What reading lines uses of `struct dwarf_data` and `struct unit`. -/
structure LineUnit where
  baseAddress : UIntPtr
  addrsize : Nat
  compDir : Option String

/-- `struct line`, in the vector. -/
structure VecLine where
  pc : UIntPtr
  filename : FileName
  lineno : CInt
  idx : CInt
  deriving DecidableEq

/-- `add_line`. -/
def addLine (u : LineUnit) (pc : UIntPtr) (filename : FileName) (lineno : CInt)
    (vec : List VecLine) : List VecLine :=
  let grown := vec ++ [⟨pc + u.baseAddress, filename, lineno, BitVec.ofNat 32 vec.length⟩]
  match vec.getLast? with
  | none => grown
  | some ln => if pc = ln.pc ∧ filename = ln.filename ∧ lineno = ln.lineno then vec else grown

/-! ## The state -/

/-- The local variables of `read_line_program`. -/
structure LineRegs where
  address : BitVec 64
  opIndex : BitVec 32
  filename : FileName
  lineno : CInt

/-- These, and the vector. -/
structure LineState where
  regs : LineRegs
  vec : List VecLine

/-- `reset_filename`. -/
def resetFilename (hdr : LineHeader) : FileName :=
  if hdr.filenames.length > 0 then .listed 0 else .empty

/-- The variables at the start, and after the end of a sequence. -/
def LineRegs.start (hdr : LineHeader) : LineRegs := ⟨0, 0, resetFilename hdr, 1⟩

/-- `add_line` of the variables. -/
def LineState.addLine (u : LineUnit) (st : LineState) : LineState :=
  { st with vec := Libbacktrace.addLine u st.regs.address st.regs.filename st.regs.lineno st.vec }

/-- What goes wrong apart from the reading. -/
inductive Trouble where
  | error (msg : String)
  | fault

/-- Report the error and fail, or fault. -/
def raise {α : Type} : Except Trouble α → Read α
  | .ok a => pure a
  | .error (.error msg) => do
    dwarfBufError msg
    throw .failed
  | .error .fault => throw .fault

/-- Division of unsigned integers. -/
def divide {w : Nat} (a b : BitVec w) : Except Trouble (BitVec w) :=
  if b = 0 then .error .fault else .ok (a / b)

/-- Remainder of unsigned integers. -/
def remainder {w : Nat} (a b : BitVec w) : Except Trouble (BitVec w) :=
  if b = 0 then .error .fault else .ok (a % b)

/-! ## The operations -/

/-- Advance the address, in unsigned arithmetic of `w` bits: three operations have this text. -/
def advanceAddress {w : Nat} (hdr : LineHeader) (advance : BitVec w) (regs : LineRegs) :
    Except Trouble LineRegs := do
  let n := regs.opIndex.setWidth w + advance
  let bytes ← divide (hdr.minInsnLen.setWidth w * n) (hdr.maxOpsPerInsn.setWidth w)
  let opIndex ← remainder n (hdr.maxOpsPerInsn.setWidth w)
  return { regs with
    address := regs.address + bytes.setWidth 64
    opIndex := opIndex.setWidth 32 }

/-- A special opcode. -/
def applySpecial (u : LineUnit) (hdr : LineHeader) (op : BitVec 32) (st : LineState) :
    Except Trouble LineState := do
  let op := op - hdr.opcodeBase
  let advance ← divide op hdr.lineRange
  let regs ← advanceAddress hdr advance st.regs
  let d ← remainder op hdr.lineRange
  return { st with regs := { regs with lineno := regs.lineno + (hdr.lineBase + d) } }.addLine u

/-- `DW_LNS_const_add_pc`. -/
def applyConstAddPc (hdr : LineHeader) (st : LineState) : Except Trouble LineState := do
  let op := 255 - hdr.opcodeBase
  let advance ← divide op hdr.lineRange
  let regs ← advanceAddress hdr advance st.regs
  return { st with regs }

/-- `DW_LNS_set_file`. -/
def applySetFile (hdr : LineHeader) (fileno : BitVec 64) (st : LineState) :
    Except Trouble LineState :=
  if fileno = 0 then .ok { st with regs := { st.regs with filename := .empty } }
  else if (fileno - 1).toNat ≥ hdr.filenames.length then
    .error (.error "invalid file number in line number program")
  else .ok { st with regs := { st.regs with filename := .listed (fileno - 1).toNat } }

/-- The name of `DW_LNE_define_file`. -/
def definedName (u : LineUnit) (hdr : LineHeader) (f : String) (dirIndex : BitVec 32) :
    Except Trouble String :=
  if isAbsolutePath f then .ok f
  else if dirIndex = 0 then
    match u.compDir with
    | some dir => .ok (dir ++ "/" ++ f)
    | none => .error .fault
  else
    match hdr.dirs[(dirIndex - 1).toNat]? with
    | some dir => .ok (dir ++ "/" ++ f)
    | none => .error (.error "invalid directory index in line number program")

/-- `DW_LNE_define_file`. -/
def applyDefineFile (u : LineUnit) (hdr : LineHeader) (pos : Nat) (f : String)
    (dirIndex : BitVec 32) (st : LineState) : Except Trouble LineState := do
  let name ← definedName u hdr f dirIndex
  return { st with regs := { st.regs with filename := .defined pos name } }

/-- The numbers of the extended opcodes, `DW_LNE_end_sequence` and so on. -/
@[match_pattern] abbrev dwLneEndSequence : Nat := 1
@[match_pattern] abbrev dwLneSetAddress : Nat := 2
@[match_pattern] abbrev dwLneDefineFile : Nat := 3
@[match_pattern] abbrev dwLneSetDiscriminator : Nat := 4

/-- An extended opcode. The length of the operation is used for an unknown opcode only. -/
def extendedOp (u : LineUnit) (hdr : LineHeader) (st : LineState) (len : BitVec 64) :
    Nat → Read LineState
  | dwLneEndSequence => return { st with regs := LineRegs.start hdr }
  | dwLneSetAddress => do
    let address ← readAddress u.addrsize
    return { st with regs := { st.regs with address } }
  | dwLneDefineFile => do
    let pos ← Buf.pos <$> get
    let f ← readString
    let dirIndex ← readUleb128
    readUlebs 2
    raise (applyDefineFile u hdr pos f (dirIndex.setWidth 32) st)
  | dwLneSetDiscriminator => do
    readUlebs 1
    return st
  | _ => do
    advanceOrFail (len - 1)
    return st

/-- The operation after `DW_LNS_extended_op`. -/
def extendedStep (u : LineUnit) (hdr : LineHeader) (st : LineState) : Read LineState := do
  let len ← readUleb128
  let op ← readByte
  extendedOp u hdr st len op.toNat

/-- The numbers of the standard opcodes, `DW_LNS_copy` and so on. -/
@[match_pattern] abbrev dwLnsCopy : Nat := 1
@[match_pattern] abbrev dwLnsAdvancePc : Nat := 2
@[match_pattern] abbrev dwLnsAdvanceLine : Nat := 3
@[match_pattern] abbrev dwLnsSetFile : Nat := 4
@[match_pattern] abbrev dwLnsSetColumn : Nat := 5
@[match_pattern] abbrev dwLnsNegateStmt : Nat := 6
@[match_pattern] abbrev dwLnsSetBasicBlock : Nat := 7
@[match_pattern] abbrev dwLnsConstAddPc : Nat := 8
@[match_pattern] abbrev dwLnsFixedAdvancePc : Nat := 9
@[match_pattern] abbrev dwLnsSetPrologueEnd : Nat := 10
@[match_pattern] abbrev dwLnsSetEpilogueBegin : Nat := 11
@[match_pattern] abbrev dwLnsSetIsa : Nat := 12

/-- A standard opcode that is not known, but has as many operands as the header says. -/
def unknownOp (st : LineState) : Option Byte → Read LineState
  | some n => do
    readUlebs n.toNat
    return st
  | none => throw .fault

/-- A standard opcode. -/
def standardOp (u : LineUnit) (hdr : LineHeader) (st : LineState) : Nat → Read LineState
  | dwLnsCopy => return st.addLine u
  | dwLnsAdvancePc => do
    let advance ← readUleb128
    let regs ← raise (advanceAddress hdr advance st.regs)
    return { st with regs }
  | dwLnsAdvanceLine => do
    let d ← readSleb128
    return { st with regs := { st.regs with lineno := st.regs.lineno + d.setWidth 32 } }
  | dwLnsSetFile => do
    let fileno ← readUleb128
    raise (applySetFile hdr fileno st)
  | dwLnsSetColumn => do
    readUlebs 1
    return st
  | dwLnsNegateStmt => return st
  | dwLnsSetBasicBlock => return st
  | dwLnsConstAddPc => raise (applyConstAddPc hdr st)
  | dwLnsFixedAdvancePc => do
    let advance ← readUint16
    return { st with regs := { st.regs with
      address := st.regs.address + advance.setWidth 64
      opIndex := 0 } }
  | dwLnsSetPrologueEnd => return st
  | dwLnsSetEpilogueBegin => return st
  | dwLnsSetIsa => do
    readUlebs 1
    return st
  | op => unknownOp st hdr.opcodeLengths[op - 1]?

/-- The operation of an opcode; 0 is `DW_LNS_extended_op`. -/
def opStep (u : LineUnit) (hdr : LineHeader) (st : LineState) (op : Byte) : Read LineState :=
  if op.setWidth 32 ≥ hdr.opcodeBase then raise (applySpecial u hdr (op.setWidth 32) st)
  else if op = 0 then extendedStep u hdr st
  else standardOp u hdr st op.toNat

/-- One turn of the loop of `read_line_program`. -/
def lineStep (u : LineUnit) (hdr : LineHeader) (st : LineState) : Read LineState := do
  opStep u hdr st (← readByte)

/-- The loop of `read_line_program`. -/
def lineLoop (u : LineUnit) (hdr : LineHeader) (fuel : Nat) : Read LineState :=
  whileLoop (fun buf => buf.left > 0) (lineStep u hdr) .fault fuel ⟨LineRegs.start hdr, []⟩

/-- `read_line_program`: the vector of lines. A turn consumes a byte, so the length of the section
is enough fuel (`readLineProgram_safe`). -/
def readLineProgram (u : LineUnit) (hdr : LineHeader) : Read (List VecLine) := do
  let st ← lineLoop u hdr ((← get).rest.length + 1)
  return st.vec

/-- No divisor of the header is zero, and it has the opcode lengths it says it has. -/
structure LineHeader.Sane (hdr : LineHeader) : Prop where
  lineRange : hdr.lineRange ≠ 0
  maxOpsPerInsn : hdr.maxOpsPerInsn ≠ 0
  opcodeLengths : hdr.opcodeBase.toNat ≤ hdr.opcodeLengths.length + 1

theorem divide_of_ne {w : Nat} (a : BitVec w) {b : BitVec w} (h : b ≠ 0) :
    divide a b = .ok (a / b) := if_neg h

theorem remainder_of_ne {w : Nat} (a : BitVec w) {b : BitVec w} (h : b ≠ 0) :
    remainder a b = .ok (a % b) := if_neg h

theorem setWidth_ne_zero {w : Nat} (hw : 32 ≤ w) {b : BitVec 32} (h : b ≠ 0) :
    b.setWidth w ≠ 0 := fun hc => h <| by
  have hlt : b.toNat < 2 ^ w := b.isLt.trans_le (Nat.pow_le_pow_right (by omega) hw)
  have := congrArg BitVec.toNat hc
  rw [BitVec.toNat_setWidth, Nat.mod_eq_of_lt hlt] at this
  exact BitVec.eq_of_toNat_eq (by simpa using this)

/-- The variables after an advance. -/
def LineRegs.advance {w : Nat} (hdr : LineHeader) (advance : BitVec w) (regs : LineRegs) :
    LineRegs :=
  let n := regs.opIndex.setWidth w + advance
  { regs with
    address := regs.address +
      (hdr.minInsnLen.setWidth w * n / hdr.maxOpsPerInsn.setWidth w).setWidth 64
    opIndex := (n % hdr.maxOpsPerInsn.setWidth w).setWidth 32 }

theorem advanceAddress_eq {hdr : LineHeader} (h : hdr.maxOpsPerInsn ≠ 0) {w : Nat} (hw : 32 ≤ w)
    (advance : BitVec w) (regs : LineRegs) :
    advanceAddress hdr advance regs = .ok (regs.advance hdr advance) := by
  have hne := setWidth_ne_zero hw h
  rw [advanceAddress, divide_of_ne _ hne, remainder_of_ne _ hne]
  rfl

theorem applySpecial_eq {hdr : LineHeader} (h : hdr.Sane) (u : LineUnit) (op : BitVec 32)
    (st : LineState) :
    applySpecial u hdr op st =
      let op := op - hdr.opcodeBase
      let regs := st.regs.advance hdr (op / hdr.lineRange)
      .ok ({ st with regs := { regs with
        lineno := regs.lineno + (hdr.lineBase + op % hdr.lineRange) } }.addLine u) := by
  rw [applySpecial, divide_of_ne _ h.lineRange, remainder_of_ne _ h.lineRange]
  simp only [advanceAddress_eq h.maxOpsPerInsn (le_refl 32)]
  rfl

theorem applyConstAddPc_eq {hdr : LineHeader} (h : hdr.Sane) (st : LineState) :
    applyConstAddPc hdr st =
      .ok { st with regs := st.regs.advance hdr ((255 - hdr.opcodeBase) / hdr.lineRange) } := by
  rw [applyConstAddPc, divide_of_ne _ h.lineRange]
  simp only [advanceAddress_eq h.maxOpsPerInsn (le_refl 32)]
  rfl

theorem divide_of_eq {w : Nat} (a : BitVec w) {b : BitVec w} (h : b = 0) :
    divide a b = .error .fault := if_pos h

/-- **A division by zero** in the advance of an address. -/
theorem advanceAddress_fault_iff {hdr : LineHeader} {w : Nat} (hw : 32 ≤ w) {advance : BitVec w}
    {regs : LineRegs} :
    advanceAddress hdr advance regs = .error .fault ↔ hdr.maxOpsPerInsn = 0 := by
  by_cases h : hdr.maxOpsPerInsn = 0
  · have hzero : hdr.maxOpsPerInsn.setWidth w = 0 := by
      rw [h]
      exact BitVec.setWidth_zero w 32
    rw [advanceAddress, divide_of_eq _ hzero]
    exact ⟨fun _ => h, fun _ => rfl⟩
  · rw [advanceAddress_eq h hw]
    exact ⟨fun heq => (by cases heq), fun hzero => absurd hzero h⟩

/-- **A division by zero** in a special opcode. -/
theorem applySpecial_fault_iff {u : LineUnit} {hdr : LineHeader} {op : BitVec 32} {st : LineState} :
    applySpecial u hdr op st = .error .fault ↔ hdr.lineRange = 0 ∨ hdr.maxOpsPerInsn = 0 := by
  by_cases hrange : hdr.lineRange = 0
  · rw [applySpecial, divide_of_eq _ hrange]
    exact ⟨fun _ => Or.inl hrange, fun _ => rfl⟩
  · rw [applySpecial, divide_of_ne _ hrange, remainder_of_ne _ hrange]
    by_cases hops : hdr.maxOpsPerInsn = 0
    · have hadvance := (@advanceAddress_fault_iff hdr 32 (le_refl 32)
        ((op - hdr.opcodeBase) / hdr.lineRange) st.regs).mpr hops
      simp only [bind, Except.bind, hadvance]
      exact ⟨fun _ => Or.inr hops, fun _ => trivial⟩
    · have hadvance := advanceAddress_eq hops (le_refl 32)
        ((op - hdr.opcodeBase) / hdr.lineRange) st.regs
      simp only [bind, Except.bind, hadvance]
      exact ⟨fun heq => (by cases heq), fun h => (h.elim hrange hops).elim⟩

/-- **A name that cannot be made**: one relative to a compilation directory that is not there. -/
theorem applyDefineFile_fault_iff {u : LineUnit} {hdr : LineHeader} {pos : Nat} {f : String}
    {dirIndex : BitVec 32} {st : LineState} :
    applyDefineFile u hdr pos f dirIndex st = .error .fault ↔
      isAbsolutePath f = false ∧ dirIndex = 0 ∧ u.compDir = none := by
  have hname : applyDefineFile u hdr pos f dirIndex st = .error .fault ↔
      definedName u hdr f dirIndex = .error .fault := by
    unfold applyDefineFile
    cases definedName u hdr f dirIndex with
    | ok name => simp [bind, Except.bind, pure, Except.pure]
    | error t => simp [bind, Except.bind]
  rw [hname, definedName]
  by_cases habs : isAbsolutePath f = true
  · simp [habs]
  · by_cases hdir : dirIndex = 0
    · rw [if_neg habs, if_pos hdir]
      cases u.compDir <;> simp [habs, hdir]
    · rw [if_neg habs, if_neg hdir]
      have hand : ¬ (isAbsolutePath f = false ∧ dirIndex = 0 ∧ u.compDir = none) :=
        fun h => hdir h.2.1
      cases hdr.dirs[(dirIndex - 1).toNat]? <;> simp only [hand, iff_false] <;> simp

/-! ## Safety -/

theorem noFault_raise {α : Type} {x : Except Trouble α} (h : x ≠ .error .fault) :
    NoFault (raise x) := by
  cases x with
  | ok a => exact Safe.pure a
  | error t =>
    cases t with
    | error msg => exact (noFault_dwarfBufError msg).bind fun _ => noFault_failed
    | fault => exact absurd rfl h

theorem applySetFile_ne_fault (hdr : LineHeader) (fileno : BitVec 64) (st : LineState) :
    applySetFile hdr fileno st ≠ .error .fault := by
  unfold applySetFile
  split_ifs <;> simp

theorem noFault_extendedStep {u : LineUnit} (hu : u.compDir.isSome) (hdr : LineHeader)
    (st : LineState) : NoFault (extendedStep u hdr st) := by
  refine noFault_readUleb128.bind fun len => (noFault_readUInt (by omega)).bind fun op => ?_
  unfold extendedOp
  split
  · exact Safe.pure _
  · exact (noFault_readAddress _).bind fun _ => Safe.pure _
  · refine (Safe.map _ Safe.get).bind fun pos => noFault_readString.bind fun f =>
      noFault_readUleb128.bind fun dirIndex => (noFault_readUlebs 2).bind fun _ =>
        noFault_raise fun h => ?_
    rw [(applyDefineFile_fault_iff.mp h).2.2] at hu
    exact absurd hu (by simp)
  · exact (noFault_readUlebs 1).bind fun _ => Safe.pure _
  · exact (noFault_advanceOrFail _).bind fun _ => Safe.pure _

theorem noFault_standardOp (u : LineUnit) {hdr : LineHeader} (h : hdr.Sane) {op : Nat}
    (h0 : op ≠ 0) (hop : op < hdr.opcodeBase.toNat) (st : LineState) :
    NoFault (standardOp u hdr st op) := by
  -- an opcode below `opcode_base` has a length
  have hlt : op - 1 < hdr.opcodeLengths.length := by
    have := h.opcodeLengths
    omega
  unfold standardOp
  split
  · exact Safe.pure _
  · exact noFault_readUleb128.bind fun advance =>
      (noFault_raise (by rw [advanceAddress_eq h.maxOpsPerInsn (by omega)]; simp)).bind fun _ =>
        Safe.pure _
  · exact noFault_readSleb128.bind fun _ => Safe.pure _
  · exact noFault_readUleb128.bind fun _ => noFault_raise (applySetFile_ne_fault hdr _ st)
  · exact (noFault_readUlebs 1).bind fun _ => Safe.pure _
  · exact Safe.pure _
  · exact Safe.pure _
  · exact noFault_raise (by rw [applyConstAddPc_eq h]; simp)
  · exact (noFault_readUInt (by omega)).bind fun _ => Safe.pure _
  · exact Safe.pure _
  · exact Safe.pure _
  · exact (noFault_readUlebs 1).bind fun _ => Safe.pure _
  · rw [List.getElem?_eq_getElem hlt]
    exact (noFault_readUlebs _).bind fun _ => Safe.pure _

theorem noFault_opStep {u : LineUnit} {hdr : LineHeader} (h : hdr.Sane) (hu : u.compDir.isSome)
    (st : LineState) (op : Byte) : NoFault (opStep u hdr st op) := by
  unfold opStep
  split_ifs with hspecial h0
  · exact noFault_raise (by rw [applySpecial_eq h]; simp)
  · exact noFault_extendedStep hu hdr st
  · refine noFault_standardOp u h (fun hc => h0 (BitVec.eq_of_toNat_eq hc)) ?_ st
    rw [ge_iff_le, BitVec.le_def, BitVec.toNat_setWidth, Nat.mod_eq_of_lt (by omega)] at hspecial
    exact Nat.lt_of_not_le hspecial

/-- **One operation** does nothing undefined. -/
theorem noFault_lineStep {u : LineUnit} {hdr : LineHeader} (h : hdr.Sane) (hu : u.compDir.isSome)
    (st : LineState) : NoFault (lineStep u hdr st) :=
  (noFault_readUInt (by omega)).bind fun op => noFault_opStep h hu st op

/-- An operation consumes its opcode. -/
theorem lineStep_lt {u : LineUnit} {hdr : LineHeader} (h : hdr.Sane) (hu : u.compDir.isSome)
    {st st' : LineState} {buf buf' : Buf} (hw : buf.Within) (hpos : 0 < buf.left.toNat)
    (hrun : (lineStep u hdr st).run buf = .ok st' buf') :
    buf'.left.toNat < buf.left.toNat := by
  obtain ⟨op, buf₁, h₁, h₂⟩ := run_bind_ok hrun
  have hw₁ := ((noFault_readUInt (by omega) hw).ok h₁).1
  exact ((noFault_opStep h hu st op hw₁).ok h₂).2.trans_lt (readByte_lt hw hpos h₁)

/-- **The program reader**, on any bytes, stays in the section, comes to an end and does nothing
undefined. -/
theorem readLineProgram_safe {u : LineUnit} {hdr : LineHeader} (h : hdr.Sane)
    (hu : u.compDir.isSome) : NoFault (readLineProgram u hdr) := by
  intro buf hw
  unfold readLineProgram
  refine (SafeAt.of_ok (EStateM.run_get buf) hw (le_refl _)).bind fun hget => ?_
  obtain ⟨rfl, rfl⟩ := EStateM.Result.ok.inj hget
  have hloop : SafeAt Buf.Within (fun buf => buf.left.toNat) (· = Stop.failed)
      (lineLoop u hdr (buf.rest.length + 1)) buf :=
    Safe.whileLoop (noFault_lineStep h hu)
      (fun hw hmore => lineStep_lt h hu hw (left_pos_iff.mp (of_decide_eq_true hmore))) _ hw
      (Nat.lt_succ_of_le hw.le)
  exact hloop.bind fun hrun => Safe.pure _ (hloop.ok hrun).1

end Bktce.Libbacktrace
