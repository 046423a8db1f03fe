import Bktce.Machine
import Bktce.Lib.Handle

/-!
# The library as its client sees it, and the global state

`bktce.cpp` knows libbacktrace by two functions of `backtrace.h`, `backtrace_create_state` and
`backtrace_pcinfo`, and keeps the state they share in one global, `backtraceState`
(`bktce.cpp:44-47`).

* A `Library` says what the two functions do with the contents `σ` of a state: the contents of a
  fresh state, and for a state and a pc the callback calls that `backtrace_pcinfo` makes (while
  the full callback returns 0) and the state it leaves. The vendored libbacktrace is such a
  library (`Libbacktrace/Fileline.lean`); the results about the client hold of every library, and
  so of every sequence of callbacks.
* A `World` is the memory the client and the library share: the global, what each state pointer
  points to, and the calls of the two functions made so far.
* `lookups` are the lookups recorded in a log of such calls, with what they were answered.
-/

namespace Bktce

open Lib

/-- A non-null pointer to a `backtrace_state`; a null one is `none : Option StatePtr`. -/
abbrev StatePtr := Nat

/-- libbacktrace on states with contents `σ`. -/
structure Library (σ : Type) where
  /-- What `backtrace_create_state` writes into the memory it allocates. -/
  initState : Option String → Bool → σ
  /-- The calls `backtrace_pcinfo` makes on a state, and the state it leaves. -/
  pcinfo : σ → UIntPtr → List Report × σ

/-- A call the client makes of libbacktrace. -/
inductive LibCall where
  | createState (result : Option StatePtr)
  | pcinfo (state : Option StatePtr) (pc : UIntPtr)
  deriving DecidableEq

namespace LibCall

/-- The call as an event of the state's life: `backtrace_create_state` opens it, the others use
it. -/
def event : LibCall → Handle.Event StatePtr
  | createState r => .opened r
  | pcinfo p _ => .used p

end LibCall

/-- The shared memory, and the calls made so far. -/
structure World (σ : Type) where
  backtraceState : Option StatePtr
  heap : StatePtr → σ
  calls : List LibCall

variable {σ : Type}

namespace World

/-- The world at the start of the program: `backtraceState = nullptr` and no call made. -/
def initial (heap : StatePtr → σ) : World σ := ⟨none, heap, []⟩

/-- Store `st` behind the pointer `p`. -/
def store (w : World σ) (p : StatePtr) (st : σ) : World σ :=
  { w with heap := fun q => if q = p then st else w.heap q }

/-- Record a call. -/
def record (w : World σ) (c : LibCall) : World σ := { w with calls := w.calls ++ [c] }

@[simp] theorem store_backtraceState (w : World σ) (p : StatePtr) (st : σ) :
    (w.store p st).backtraceState = w.backtraceState := rfl
@[simp] theorem store_calls (w : World σ) (p : StatePtr) (st : σ) :
    (w.store p st).calls = w.calls := rfl
@[simp] theorem record_backtraceState (w : World σ) (c : LibCall) :
    (w.record c).backtraceState = w.backtraceState := rfl
@[simp] theorem record_calls (w : World σ) (c : LibCall) :
    (w.record c).calls = w.calls ++ [c] := rfl

/-- The life of the states: the calls as events. -/
def log (w : World σ) : List (Handle.Event StatePtr) := w.calls.map LibCall.event

end World

/-- `backtrace_create_state` (`state.c`). `mem` is what its allocation returns: the memory of a
new state, or null, in which case the error callback has been called and the result is null. -/
def backtraceCreateState (lib : Library σ) (filename : Option String) (threaded : Bool)
    (mem : Option StatePtr) (w : World σ) : Option StatePtr × World σ :=
  match mem with
  | none => (none, w.record (.createState none))
  | some p => (some p, (w.store p (lib.initState filename threaded)).record (.createState (some p)))

/-- `backtrace_pcinfo` on the state behind `state`: its return value, the callback data and the
world after it. -/
def backtracePcinfo {δ : Type} (lib : Library σ) (state : StatePtr) (pc : UIntPtr)
    (callback : FullCallback δ) (errorCallback : ErrorCallback δ) (data : δ) (w : World σ) :
    CInt × δ × World σ :=
  let r := lib.pcinfo (w.heap state) pc
  let (ret, data) := replay callback errorCallback r.1 data
  (ret, data, (w.store state r.2).record (.pcinfo (some state) pc))

/-- The lookups of a log, each with the reports it was answered with: the calls are made again, from
the contents `heap`. All states are created as `bktce.cpp` does it (`bktce.cpp:226-231`). -/
def lookups (lib : Library σ) : (StatePtr → σ) → List LibCall → List (UIntPtr × List Report)
  | _, [] => []
  | heap, .createState none :: calls => lookups lib heap calls
  | heap, .createState (some p) :: calls =>
    lookups lib (fun q => if q = p then lib.initState none false else heap q) calls
  | heap, .pcinfo none _ :: calls => lookups lib heap calls
  | heap, .pcinfo (some p) pc :: calls =>
    let r := lib.pcinfo (heap p) pc
    (pc, r.1) :: lookups lib (fun q => if q = p then r.2 else heap q) calls

theorem backtraceCreateState_result (lib : Library σ) (filename : Option String) (threaded : Bool)
    (mem : Option StatePtr) (w : World σ) :
    (backtraceCreateState lib filename threaded mem w).1 = mem := by
  cases mem <;> rfl

@[simp] theorem backtraceCreateState_calls (lib : Library σ) (filename : Option String)
    (threaded : Bool) (mem : Option StatePtr) (w : World σ) :
    (backtraceCreateState lib filename threaded mem w).2.calls = w.calls ++ [.createState mem] := by
  cases mem <;> rfl

end Bktce
