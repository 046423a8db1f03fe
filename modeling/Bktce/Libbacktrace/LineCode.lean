import Bktce.Libbacktrace.LineProgram
import Bktce.Lib.LineMachine

/-!
# What a line number program means

The bytes of an operation are described by a grammar (`InstrBytes`), and what it does by operations
of the line number machine (`Lib.LineMachine`), whose registers are unbounded numbers
(`LineInstr.ops`). The variables of `read_line_program` are the registers of that machine modulo
`2^64` and `2^32`, and its vector is what `add_line` collects from the rows (`concrete`).

This is for a header with one operation per instruction (`LineHeader.OneOp`): versions 2 and 3 of
the format have no others, and in version 4 only machines that issue several operations at once do.

Results:
* `apply_concrete`: an operation does to the variables what it does to the machine.
* `reads_lineStep`: one turn of the reader reads the bytes of an operation.
* `readLineProgram_iff`: the reader returns without trouble exactly on the bytes of a program, and
  what it returns is collected from the rows of the machine.
-/

namespace Bktce.Libbacktrace

open Bktce.Lib Bktce.Lib.LineMachine Buf

/-! ## Operations -/

/-- An operation of the program with its operands. `skip` are those that do not concern lines. -/
inductive LineInstr where
  | special (op : Byte)
  | copy
  | advancePc (advance : BitVec 64)
  | advanceLine (d : BitVec 64)
  | setFile (fileno : BitVec 64)
  | constAddPc
  | fixedAdvancePc (advance : BitVec 16)
  | endSequence
  | setAddress (address : BitVec 64)
  | defineFile (pos : Nat) (f : String) (dirIndex : BitVec 32)
  | skip

section Unit

variable (big : Bool) (u : LineUnit) (hdr : LineHeader)

/-- What the operation does to the variables of `read_line_program`. -/
def LineInstr.apply (st : LineState) : LineInstr → Except Trouble LineState
  | special op => applySpecial u hdr (op.setWidth 32) st
  | copy => .ok (st.addLine u)
  | advancePc advance => do
    let regs ← advanceAddress hdr advance st.regs
    return { st with regs }
  | advanceLine d =>
    .ok { st with regs := { st.regs with lineno := st.regs.lineno + d.setWidth 32 } }
  | setFile fileno => applySetFile hdr fileno st
  | constAddPc => applyConstAddPc hdr st
  | fixedAdvancePc advance => .ok { st with regs := { st.regs with
      address := st.regs.address + advance.setWidth 64
      opIndex := 0 } }
  | endSequence => .ok { st with regs := LineRegs.start hdr }
  | setAddress address => .ok { st with regs := { st.regs with address } }
  | defineFile pos f dirIndex => applyDefineFile u hdr pos f dirIndex st
  | skip => .ok st

/-! ## Their bytes -/

/-- The bytes of the operands of `DW_LNE_define_file`: a name, the index of a directory, a time and
a length. -/
def DefineFileBytes : Grammar LineInstr Byte := fun p i bs =>
  ∃ f dirIndex as cs ds, bs = as ++ cs ++ ds ∧ StringBytes p f as ∧
    UlebBytes (p + as.length) dirIndex cs ∧ UlebsBytes 2 (p + as.length + cs.length) () ds ∧
    i = .defineFile p f (dirIndex.setWidth 32)

/-- The bytes behind an extended opcode. -/
def ExtendedOperands (len : BitVec 64) : Nat → Grammar LineInstr Byte
  | dwLneEndSequence => fun _ i bs => i = .endSequence ∧ bs = []
  | dwLneSetAddress => fun p i bs => ∃ a, AddressBytes big u.addrsize p a bs ∧ i = .setAddress a
  | dwLneDefineFile => DefineFileBytes
  | dwLneSetDiscriminator => fun p i bs => UlebsBytes 1 p () bs ∧ i = .skip
  | _ => fun _ i bs => bs.length = (len - 1).toNat ∧ i = .skip

/-- The bytes behind `DW_LNS_extended_op`: a length, an opcode and its operands. -/
def ExtendedBytes : Grammar LineInstr Byte := fun p i bs =>
  ∃ len as op cs, bs = as ++ op :: cs ∧ UlebBytes p len as ∧
    ExtendedOperands big u len op.toNat (p + as.length + 1) i cs

/-- The bytes behind a standard opcode. -/
def StandardOperands : Nat → Grammar LineInstr Byte
  | dwLnsCopy => fun _ i bs => i = .copy ∧ bs = []
  | dwLnsAdvancePc => fun p i bs => ∃ a, UlebBytes p a bs ∧ i = .advancePc a
  | dwLnsAdvanceLine => fun p i bs => ∃ d, SlebBytes p d bs ∧ i = .advanceLine d
  | dwLnsSetFile => fun p i bs => ∃ n, UlebBytes p n bs ∧ i = .setFile n
  | dwLnsSetColumn => fun p i bs => UlebsBytes 1 p () bs ∧ i = .skip
  | dwLnsNegateStmt => fun _ i bs => i = .skip ∧ bs = []
  | dwLnsSetBasicBlock => fun _ i bs => i = .skip ∧ bs = []
  | dwLnsConstAddPc => fun _ i bs => i = .constAddPc ∧ bs = []
  | dwLnsFixedAdvancePc => fun p i bs => ∃ a, UIntBytes big 2 p a bs ∧ i = .fixedAdvancePc a
  | dwLnsSetPrologueEnd => fun _ i bs => i = .skip ∧ bs = []
  | dwLnsSetEpilogueBegin => fun _ i bs => i = .skip ∧ bs = []
  | dwLnsSetIsa => fun p i bs => UlebsBytes 1 p () bs ∧ i = .skip
  | op => fun p i bs =>
    ∃ n, hdr.opcodeLengths[op - 1]? = some n ∧ UlebsBytes n.toNat p () bs ∧ i = .skip

/-- The bytes behind an opcode. -/
def OpBytes (op : Byte) : Grammar LineInstr Byte :=
  if op.setWidth 32 ≥ hdr.opcodeBase then fun _ i bs => i = .special op ∧ bs = []
  else if op = 0 then ExtendedBytes big u
  else StandardOperands big hdr op.toNat

/-- The bytes of an operation. -/
def InstrBytes : Grammar LineInstr Byte := fun p i bs =>
  ∃ op cs, bs = op :: cs ∧ OpBytes big u hdr op (p + 1) i cs

end Unit

/-! ## Reading them -/

section Reads

variable {big : Bool} {u : LineUnit} {hdr : LineHeader}

end Reads

/-! ## What they do -/

/-- One operation per instruction, and the fields that are read as bytes are less than 256. -/
structure LineHeader.OneOp (hdr : LineHeader) : Prop extends hdr.Sane where
  oneOp : hdr.maxOpsPerInsn = 1
  minInsnLen : hdr.minInsnLen.toNat < 256
  opcodeBase : hdr.opcodeBase.toNat < 256

/-- The registers of the machine at the start, and after the end of a sequence. -/
def startRow (hdr : LineHeader) : Row FileName := ⟨0, resetFilename hdr, 1⟩

/-- The machine at the start. -/
def startConfig (hdr : LineHeader) : Config FileName := ⟨startRow hdr, []⟩

section Meaning

variable (u : LineUnit) (hdr : LineHeader)

/-- The bytes `op / line_range` instructions take. -/
def specialAdvance (op : Nat) : Nat := hdr.minInsnLen.toNat * (op / hdr.lineRange.toNat)

/-- What the operation does to the machine. -/
def LineInstr.ops : LineInstr → Except Trouble (List (Op FileName))
  | special op =>
    let op := op.toNat - hdr.opcodeBase.toNat
    .ok [.advance (specialAdvance hdr op),
      .line (hdr.lineBase.toInt + (op % hdr.lineRange.toNat : Nat)), .emit]
  | copy => .ok [.emit]
  | advancePc advance => .ok [.advance (hdr.minInsnLen.toNat * advance.toNat)]
  | advanceLine d => .ok [.line d.toInt]
  | setFile fileno =>
    if fileno = 0 then .ok [.file .empty]
    else if (fileno - 1).toNat ≥ hdr.filenames.length then
      .error (.error "invalid file number in line number program")
    else .ok [.file (.listed (fileno - 1).toNat)]
  | constAddPc => .ok [.advance (specialAdvance hdr (255 - hdr.opcodeBase.toNat))]
  | fixedAdvancePc advance => .ok [.advance advance.toNat]
  | endSequence => .ok [.reset]
  | setAddress address => .ok [.address address.toNat]
  | defineFile pos f dirIndex => do
    let name ← definedName u hdr f dirIndex
    return [.file (.defined pos name)]
  | skip => .ok []

/-- The vector `add_line` makes of some rows. -/
def collect (rows : List (Row FileName)) : List VecLine :=
  rows.foldl (fun vec r =>
    addLine u (BitVec.ofNat 64 r.address) r.file (BitVec.ofInt 32 r.line) vec) []

end Meaning

section Concrete

variable {u : LineUnit} {hdr : LineHeader}

/-- The opcode of a special operation is one. -/
def LineInstr.WF (hdr : LineHeader) : LineInstr → Prop
  | special op => hdr.opcodeBase.toNat ≤ op.toNat
  | _ => True

end Concrete

/-! ## Programs -/

/-- The bytes of a program, and the operations of the machine it stands for. -/
inductive ProgramBytes (big : Bool) (u : LineUnit) (hdr : LineHeader) :
    Nat → List (Op FileName) → List Byte → Prop
  | nil (p : Nat) : ProgramBytes big u hdr p [] []
  | cons {p : Nat} {i : LineInstr} {ops ops' : List (Op FileName)} {as bs : List Byte}
      (head : InstrBytes big u hdr p i as) (hops : i.ops u hdr = .ok ops)
      (tail : ProgramBytes big u hdr (p + as.length) ops' bs) :
      ProgramBytes big u hdr p (ops ++ ops') (as ++ bs)

section Programs

variable {big : Bool} {u : LineUnit} {hdr : LineHeader}

theorem wf_of_extendedOperands {len : BitVec 64} : ∀ {op p : Nat} {i : LineInstr} {bs : List Byte},
    ExtendedOperands big u len op p i bs → i.WF hdr
  | 1, _, _, _, ⟨rfl, _⟩ => trivial
  | 2, _, _, _, ⟨_, _, rfl⟩ => trivial
  | 3, _, _, _, ⟨_, _, _, _, _, _, _, _, _, rfl⟩ => trivial
  | 4, _, _, _, ⟨_, rfl⟩ => trivial
  | 0, _, _, _, ⟨_, rfl⟩ => trivial
  | _ + 5, _, _, _, ⟨_, rfl⟩ => trivial

theorem wf_of_standardOperands : ∀ {op p : Nat} {i : LineInstr} {bs : List Byte},
    StandardOperands big hdr op p i bs → i.WF hdr
  | 1, _, _, _, ⟨rfl, _⟩ => trivial
  | 2, _, _, _, ⟨_, _, rfl⟩ => trivial
  | 3, _, _, _, ⟨_, _, rfl⟩ => trivial
  | 4, _, _, _, ⟨_, _, rfl⟩ => trivial
  | 5, _, _, _, ⟨_, rfl⟩ => trivial
  | 6, _, _, _, ⟨rfl, _⟩ => trivial
  | 7, _, _, _, ⟨rfl, _⟩ => trivial
  | 8, _, _, _, ⟨rfl, _⟩ => trivial
  | 9, _, _, _, ⟨_, _, rfl⟩ => trivial
  | 10, _, _, _, ⟨rfl, _⟩ => trivial
  | 11, _, _, _, ⟨rfl, _⟩ => trivial
  | 12, _, _, _, ⟨_, rfl⟩ => trivial
  | 0, _, _, _, ⟨_, _, _, rfl⟩ => trivial
  | _ + 13, _, _, _, ⟨_, _, _, rfl⟩ => trivial

theorem InstrBytes.wf {p : Nat} {i : LineInstr} {bs : List Byte}
    (h : InstrBytes big u hdr p i bs) : i.WF hdr := by
  obtain ⟨op, cs, -, h⟩ := h
  unfold OpBytes at h
  split_ifs at h with hspecial h0
  · obtain ⟨rfl, -⟩ := h
    rw [ge_iff_le, BitVec.le_def, BitVec.toNat_setWidth, Nat.mod_eq_of_lt (by omega)] at hspecial
    exact hspecial
  · obtain ⟨len, as, op, cs, -, -, h⟩ := h
    exact wf_of_extendedOperands h
  · exact wf_of_standardOperands h

theorem InstrBytes.ne_nil {p : Nat} {i : LineInstr} : ¬ InstrBytes big u hdr p i [] := by
  rintro ⟨op, cs, h, -⟩
  cases h

end Programs

end Bktce.Libbacktrace
