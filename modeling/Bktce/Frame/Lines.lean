import Bktce.Frame
import Bktce.Libbacktrace.Fileline

/-!
# Line numbers

The line number of a callback is an `int`; a frame keeps it as a `std::size_t`, converted by
`libbacktrace_full_callback` (`bktce.cpp:71`), and `hasSourceInfo` tests the converted number
(`bktce.cpp:160`). libbacktrace reports negative lines when the debug data has them: the line
number program adds signed numbers to the line (`dwarf.c:1767-1887`), and the attribute
`DW_AT_call_line` is cut to an `int` (`dwarf.c:2351-2354`).

Results:
* `toString_of_no_sourceInfo`: without source information a frame shows the file name of the
  binary, and no line number.
* `line_numbers_iff`: the line survives the conversion unless it is negative and comes with a file
  name.
-/

namespace Bktce

open Libbacktrace

variable {σ : Type}

namespace Frame

/-- The line number a frame shows is the `int` of the last callback iff that is not negative. -/
theorem toNat_sourceLineNumber_iff {env : Env} {lib : Library σ} {storage : Frame}
    {address : UIntPtr} {w : World σ}
    (h : (construct env lib storage address w).1.hasSourceInfo = true) :
    ((construct env lib storage address w).1.getSourceLineNumber.toNat : Int) =
        (lastLine (callsFor lib address w)).toInt ↔
      0 ≤ (lastLine (callsFor lib address w)).toInt := by
  unfold getSourceLineNumber
  rw [construct_line_of_hasSourceInfo env lib storage address w h]
  exact toNat_toSizeT_eq_iff

/-- A negative line is shown as a number just below `2^64`. -/
theorem toNat_sourceLineNumber_of_neg {env : Env} {lib : Library σ} {storage : Frame}
    {address : UIntPtr} {w : World σ}
    (h : (construct env lib storage address w).1.hasSourceInfo = true)
    (hneg : (lastLine (callsFor lib address w)).toInt < 0) :
    ((construct env lib storage address w).1.getSourceLineNumber.toNat : Int) =
      2 ^ 64 + (lastLine (callsFor lib address w)).toInt := by
  unfold getSourceLineNumber
  rw [construct_line_of_hasSourceInfo env lib storage address w h]
  exact toNat_toSizeT_of_neg hneg

/-- **Without source information** a frame shows the file name of the binary and no line. -/
theorem toString_of_no_sourceInfo (env : Env) (lib : Library σ) (storage : Frame)
    (address : UIntPtr) (w : World σ)
    (h : (construct env lib storage address w).1.hasSourceInfo = false) :
    (construct env lib storage address w).1.getBinaryFilename = getBinaryFilenameLD env address ∧
      (construct env lib storage address w).1.toString =
        hexPtr address ++ " " ++ (" in " ++ getBinaryFilenameLD env address) ++ "\n" := by
  have hbin : (construct env lib storage address w).1.binaryFilename =
      getBinaryFilenameLD env address := by
    rw [construct_binaryFilename, h]
    rfl
  refine ⟨hbin, ?_⟩
  unfold toString
  rw [h, hbin, construct_native]
  rfl

end Frame

theorem toInt_eq_zero_iff {i : CInt} : i.toInt = 0 ↔ i = 0 := by
  rw [← BitVec.toInt_inj]
  rfl

/-- **Line numbers survive the conversion iff a file name does not come with a negative line.**
There is source information exactly when the file name kept is not empty and the last callback
has a positive line, which is then the line of the frame; else the frame shows the binary. -/
theorem line_numbers_iff (env : Env) (lib : Library σ) (storage : Frame) (address : UIntPtr)
    (w : World σ) :
    let fr := (Frame.construct env lib storage address w).1
    let calls := Frame.callsFor lib address w
    ((fr.hasSourceInfo = true ↔ fr.getSourceFilename ≠ "" ∧ 0 < (lastLine calls).toInt) ∧
      (fr.hasSourceInfo = true →
        (fr.getSourceLineNumber.toNat : Int) = (lastLine calls).toInt ∧
          1 ≤ fr.getSourceLineNumber.toNat ∧ fr.getSourceLineNumber.toNat ≤ 2 ^ 31 - 1) ∧
      (fr.hasSourceInfo = false →
        fr.getBinaryFilename = getBinaryFilenameLD env address ∧
          fr.toString = Frame.hexPtr address ++ " " ++
            (" in " ++ getBinaryFilenameLD env address) ++ "\n") ∧
      (calls = [] → fr.hasSourceInfo = false)) ↔
    ¬ (lastFilename calls ≠ "" ∧ (lastLine calls).toInt < 0) := by
  intro fr calls
  have hinfo : fr.hasSourceInfo = true ↔ lastFilename calls ≠ "" ∧ lastLine calls ≠ 0 :=
    Frame.construct_hasSourceInfo env lib storage address w
  have hfile : fr.getSourceFilename = lastFilename calls :=
    Frame.construct_sourceFilename env lib storage address w
  have hzero := @toInt_eq_zero_iff (lastLine calls)
  rw [hfile]
  constructor
  · rintro ⟨hpos, -, -, -⟩ ⟨hf, hneg⟩
    have hne : lastLine calls ≠ 0 := fun h0 => by
      have := hzero.mpr h0
      omega
    have := (hpos.mp (hinfo.mpr ⟨hf, hne⟩)).2
    omega
  · intro h
    have hpos : fr.hasSourceInfo = true ↔ lastFilename calls ≠ "" ∧ 0 < (lastLine calls).toInt := by
      rw [hinfo]
      refine and_congr_right fun hf => ?_
      have : ¬ (lastLine calls).toInt < 0 := fun hneg => h ⟨hf, hneg⟩
      rw [Ne, ← hzero]
      omega
    refine ⟨hpos, fun hs => ?_, Frame.toString_of_no_sourceInfo env lib storage address w,
      fun hnone => ?_⟩
    · have hline := (hpos.mp hs).2
      have heq : (fr.getSourceLineNumber.toNat : Int) = (lastLine calls).toInt :=
        (Frame.toNat_sourceLineNumber_iff hs).mpr hline.le
      have hmax := BitVec.toInt_lt (x := lastLine calls)
      refine ⟨heq, ?_, ?_⟩ <;> omega
    · rw [← Bool.not_eq_true, hinfo, hnone]
      exact fun h => h.1 rfl

/-- An executable in which the call of `helper`, inlined into `main`, is at line -1 of `main.c`. -/
def negativeCallLine : Host :=
  Host.oneUnit 0x1000 0x2000 "util.h" 10
    [⟨0x1000, 0x2000, .mk "main" none 0
      [⟨0x1100, 0x1200, .mk "helper" (some "main.c") (-1) []⟩]⟩]

/-- A negative line with a file name is shown as a line beyond `INT_MAX`. -/
theorem negative_line_shown :
    let env : Env := ⟨fun _ => ⟨none, -2⟩, fun _ => none⟩
    let w : World BacktraceState := ⟨some 1, fun _ => .init none false, []⟩
    let lib := library negativeCallLine
    let fr := (Frame.construct env lib ⟨0, "", "", "", 0⟩ 0x1140 w).1
    let calls := Frame.callsFor lib 0x1140 w
    calls = [⟨0x1140, some "util.h", 10, some "helper"⟩, ⟨0x1140, some "main.c", -1, some "main"⟩] ∧
      ¬ (fr.hasSourceInfo = true ↔ fr.getSourceFilename ≠ "" ∧ 0 < (lastLine calls).toInt) ∧
      fr.getSourceLineNumber.toNat = 18446744073709551615 := by
  decide

end Bktce
