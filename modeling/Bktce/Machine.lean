import Bktce.Lib.Visit
import Mathlib.Tactic.Linarith

/-!
# Machine types, unwind contexts and callbacks

What the backtrace component and the vendored libbacktrace share: the x86_64 integer types, the
context libgcc's unwinder hands to a callback (`libbacktrace/include/unwind.h`), and the two
callback types of `libbacktrace/include/backtrace.h`.

* A pointer is `Option`, `none` for `NULL`; a C string is a `String`.
* `const void*` and `uintptr_t` are both `UIntPtr`, with `0` for the null pointer.
* `void*` callback data is the type parameter `δ`: a callback takes the data and returns it, with
  its return value.
* A `Report` is one call libbacktrace makes of a callback; `replay` makes a sequence of them, up
  to the first nonzero return value of the full callback.
-/

namespace Bktce

open Lib

/-! ## Integers -/

/-- `uintptr_t`, and an address as a pointer. -/
abbrev UIntPtr := BitVec 64

/-- `std::size_t`. -/
abbrev SizeT := BitVec 64

/-- `int`. -/
abbrev CInt := BitVec 32

/-- `static_cast<std::size_t>` of an `int`: sign extension. -/
def toSizeT (i : CInt) : SizeT := i.signExtend 64

theorem toInt_toSizeT (i : CInt) : (toSizeT i).toInt = i.toInt :=
  BitVec.toInt_signExtend_of_le (by omega)

theorem toSizeT_eq_zero_iff {i : CInt} : toSizeT i = 0 ↔ i = 0 := by
  rw [← BitVec.toInt_inj, ← BitVec.toInt_inj (x := i), toInt_toSizeT]
  rfl

theorem toSizeT_pos_iff {i : CInt} : toSizeT i > 0 ↔ i ≠ 0 :=
  (BitVec.pos_iff_ne_zero _).trans (not_congr toSizeT_eq_zero_iff)

/-- A nonnegative `int` is unchanged as a number. -/
theorem toNat_toSizeT_of_nonneg {i : CInt} (h : 0 ≤ i.toInt) :
    ((toSizeT i).toNat : Int) = i.toInt := by
  have h1 := toInt_toSizeT i
  rw [BitVec.toInt_eq_toNat_cond] at h1
  have h2 := (toSizeT i).isLt
  split at h1 <;> omega

/-- A negative `int` becomes a number of at least `2^64 - 2^31`. -/
theorem toNat_toSizeT_of_neg {i : CInt} (h : i.toInt < 0) :
    ((toSizeT i).toNat : Int) = 2 ^ 64 + i.toInt := by
  have h1 := toInt_toSizeT i
  rw [BitVec.toInt_eq_toNat_cond] at h1
  have h2 := (toSizeT i).isLt
  split at h1 <;> omega

/-- The cast keeps the number exactly when the `int` is not negative. -/
theorem toNat_toSizeT_eq_iff {i : CInt} : ((toSizeT i).toNat : Int) = i.toInt ↔ 0 ≤ i.toInt := by
  refine ⟨fun h => ?_, toNat_toSizeT_of_nonneg⟩
  rw [← h]
  exact Int.natCast_nonneg _

/-! ## The unwinder -/

/-- `_Unwind_Reason_Code`. -/
inductive UnwindReasonCode where
  | noReason
  | foreignExceptionCaught
  | fatalPhase2Error
  | fatalPhase1Error
  | normalStop
  | endOfStack
  | handlerFound
  | installContext
  | continueUnwind
  deriving DecidableEq

/-- What the unwinder knows of a frame: its instruction pointer, and whether that is the address
of the instruction itself (a signal frame) or the one after the call. -/
structure UnwindContext where
  ip : UIntPtr
  ipBeforeInsn : Bool
  deriving DecidableEq

/-- `_Unwind_GetIP`. -/
def unwindGetIP (context : UnwindContext) : UIntPtr := context.ip

/-- `_Unwind_GetIPInfo`: the same instruction pointer, and the flag `ip_before_insn`. -/
def unwindGetIPInfo (context : UnwindContext) : UIntPtr × Bool :=
  (context.ip, context.ipBeforeInsn)

/-- `_Unwind_Backtrace`: the frames from the innermost outwards, each handed to the callback,
until it returns something other than `_URC_NO_REASON`. -/
def unwindBacktrace {σ : Type} (callback : UnwindContext → σ → Option (UnwindReasonCode × σ)) :
    List UnwindContext → σ → Option (UnwindReasonCode × σ) :=
  Visit.visit .noReason callback

/-! ## Callbacks -/

/-- `backtrace_full_callback`: data, pc, file name, line and function name. -/
abbrev FullCallback (δ : Type) :=
  δ → UIntPtr → Option String → CInt → Option String → CInt × δ

/-- `backtrace_error_callback`: data, message and errno value. -/
abbrev ErrorCallback (δ : Type) := δ → String → CInt → δ

/-- The arguments of one call of a full callback. -/
structure FullCall where
  pc : UIntPtr
  filename : Option String
  lineno : CInt
  function : Option String
  deriving DecidableEq

/-- One call libbacktrace makes: of the full callback, or of the error callback. -/
inductive Report where
  | full (call : FullCall)
  | error (msg : String) (errnum : CInt)
  deriving DecidableEq

/-- Make the call. An error callback returns nothing, so libbacktrace goes on after it. -/
def deliver {δ : Type} (callback : FullCallback δ) (errorCallback : ErrorCallback δ) :
    Report → δ → CInt × δ
  | .full c, data => callback data c.pc c.filename c.lineno c.function
  | .error msg errnum, data => (0, errorCallback data msg errnum)

/-- Make a sequence of calls up to the first nonzero return value, which is the result. -/
def replay {δ : Type} (callback : FullCallback δ) (errorCallback : ErrorCallback δ) :
    List Report → δ → CInt × δ :=
  Visit.offer 0 (deliver callback errorCallback)

/-- The calls of the full callback among a sequence of reports. -/
def fullCalls (reports : List Report) : List FullCall :=
  reports.filterMap fun
    | .full c => some c
    | .error _ _ => none

@[simp] theorem fullCalls_nil : fullCalls [] = [] := rfl

@[simp] theorem fullCalls_cons_full (c : FullCall) (rs : List Report) :
    fullCalls (.full c :: rs) = c :: fullCalls rs := rfl

@[simp] theorem fullCalls_cons_error (msg : String) (errnum : CInt) (rs : List Report) :
    fullCalls (.error msg errnum :: rs) = fullCalls rs := rfl

end Bktce
