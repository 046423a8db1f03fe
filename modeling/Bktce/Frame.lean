import Bktce.World

/-!
# A frame of a stack trace

Model of `class Frame` (`bktce.h:17-45`, `bktce.cpp:137-185`) and of the helpers its constructor
uses: `demangle` (`bktce.cpp:15-30`), `getBinaryFilenameLD` (`bktce.cpp:36-42`) and the two
libbacktrace callbacks (`bktce.cpp:51-81`).

* `abi::__cxa_demangle` and `dladdr` are the fields of `Env`.
* The constructor takes the previous contents of the storage the frame is built in. The string
  members are constructed empty and `m_native` is initialised; `m_sourceLineNumber` keeps what the
  storage held until the constructor assigns it, which it does only when `backtraceState` is not
  null.
* `PCData` holds pointers to the frame's function and file name; the model holds what they point
  to, and the constructor reads it back after `backtrace_pcinfo`.

The constructor is characterised by the full callbacks that `backtrace_pcinfo` makes
(`callsFor`): the last file name and the last function name that are not null, and the line of the
last call (`lastFilename`, `lastFunction`, `lastLine`). Every result about a frame goes through
`construct_function`, `construct_sourceFilename`, `construct_sourceLineNumber`,
`construct_hasSourceInfo` and `construct_binaryFilename`.
-/

namespace Bktce

/-! ## The environment -/

/-- What `abi::__cxa_demangle` returns, and the status it stores. -/
structure CxaResult where
  result : Option String
  status : CInt
  deriving DecidableEq

/-- The functions of the C++ runtime and the dynamic linker that a frame uses. -/
structure Env where
  /-- `abi::__cxa_demangle`. -/
  cxaDemangle : String → CxaResult
  /-- `dladdr`: `dli_fname` on success, `none` on failure. -/
  dladdr : UIntPtr → Option String

/-- `demangle`: the original symbol when the demangler has no result or reports a failure. -/
def demangle (env : Env) (symbol : String) : String :=
  match (env.cxaDemangle symbol).result with
  | none => symbol
  | some p => if (env.cxaDemangle symbol).status ≠ 0 then symbol else p

/-- `getBinaryFilenameLD`. -/
def getBinaryFilenameLD (env : Env) (address : UIntPtr) : String :=
  match env.dladdr address with
  | none => ""
  | some fname => fname

/-! ## The callbacks -/

/-- `PCData`: what the two pointers point to (`none` for a null pointer), and the line. -/
structure PCData where
  function : Option String
  filename : Option String
  lineNumber : SizeT
  deriving DecidableEq

/-- `libbacktrace_full_callback`. The file and the function are overwritten when they are not
null, the line always. -/
def libbacktraceFullCallback (env : Env) : FullCallback PCData :=
  fun data _ filename lineno function =>
    let data := match data.filename, filename with
      | some _, some f => { data with filename := some f }
      | _, _ => data
    let data := match data.function, function with
      | some _, some f => { data with function := some (demangle env f) }
      | _, _ => data
    (0, { data with lineNumber := toSizeT lineno })

/-- `libbacktrace_error_callback`: nothing. -/
def libbacktraceErrorCallback : ErrorCallback PCData := fun data _ _ => data

/-! ## The frame -/

/-- `Frame`. -/
structure Frame where
  native : UIntPtr
  function : String
  sourceFilename : String
  binaryFilename : String
  sourceLineNumber : SizeT
  deriving DecidableEq

namespace Frame

/-- `get`. -/
def get (fr : Frame) : UIntPtr := fr.native

/-- `hasSourceInfo`. -/
def hasSourceInfo (fr : Frame) : Bool :=
  decide (fr.sourceFilename.length > 0) && decide (fr.sourceLineNumber > 0)

/-- `getSourceFilename`. -/
def getSourceFilename (fr : Frame) : String := fr.sourceFilename

/-- `getBinaryFilename`. -/
def getBinaryFilename (fr : Frame) : String := fr.binaryFilename

/-- `getSourceLineNumber`. -/
def getSourceLineNumber (fr : Frame) : SizeT := fr.sourceLineNumber

/-- A pointer written to a stream: hexadecimal with the base prefix, which zero does not get. -/
def hexPtr (p : UIntPtr) : String :=
  if p = 0 then "0" else "0x" ++ String.ofList (Nat.toDigits 16 p.toNat)

/-- `toString`. -/
def toString (fr : Frame) : String :=
  hexPtr fr.native ++ " " ++
    (if fr.hasSourceInfo then
      fr.function ++ " at " ++ fr.sourceFilename ++ ":" ++ Nat.repr fr.sourceLineNumber.toNat
    else " in " ++ fr.binaryFilename) ++ "\n"

variable {σ : Type}

/-- `Frame::Frame`, in storage with previous contents `storage`. -/
def construct (env : Env) (lib : Library σ) (storage : Frame) (address : UIntPtr) (w : World σ) :
    Frame × World σ :=
  -- the strings are constructed empty; nothing initialises the line number
  let fr : Frame :=
    { storage with native := address, function := "", sourceFilename := "", binaryFilename := "" }
  let data : PCData := ⟨some fr.function, some fr.sourceFilename, 0⟩
  let (fr, w) : Frame × World σ :=
    match w.backtraceState with
    | some p =>
      let (_, data, w) := backtracePcinfo lib p address (libbacktraceFullCallback env)
        libbacktraceErrorCallback data w
      ({ fr with
          function := data.function.getD fr.function
          sourceFilename := data.filename.getD fr.sourceFilename
          sourceLineNumber := data.lineNumber }, w)
    | none => (fr, w)
  if fr.hasSourceInfo then (fr, w)
  else ({ fr with binaryFilename := getBinaryFilenameLD env fr.native }, w)

end Frame

/-! ## What a sequence of full callbacks leaves -/

/-- The last file name that is not null; empty when there is none. -/
def lastFilename (calls : List FullCall) : String :=
  (calls.filterMap FullCall.filename).getLastD ""

/-- The last function name that is not null, demangled; empty when there is none. -/
def lastFunction (env : Env) (calls : List FullCall) : String :=
  ((calls.filterMap FullCall.function).map (demangle env)).getLastD ""

/-- The line of the last call; 0 when there is none. -/
def lastLine (calls : List FullCall) : CInt := (calls.map FullCall.lineno).getLastD 0

/-- The frame shows what these callbacks leave: the last name and the last file that are not null,
and the line of the last one. -/
structure Frame.Shows (env : Env) (fr : Frame) (calls : List FullCall) : Prop where
  function : fr.function = lastFunction env calls
  filename : fr.getSourceFilename = lastFilename calls
  line : fr.getSourceLineNumber = toSizeT (lastLine calls)

/-- One full callback on data whose pointers are not null. -/
theorem libbacktraceFullCallback_eq (env : Env) (f s : String) (n : SizeT) (c : FullCall) :
    libbacktraceFullCallback env ⟨some f, some s, n⟩ c.pc c.filename c.lineno c.function =
      (0, ⟨some ((c.function.map (demangle env)).getD f), some (c.filename.getD s),
        toSizeT c.lineno⟩) := by
  cases hs : c.filename <;> cases hf : c.function <;> rfl

theorem deliver_fst (env : Env) (r : Report) (data : PCData) :
    (deliver (libbacktraceFullCallback env) libbacktraceErrorCallback r data).1 = 0 := by
  cases r <;> rfl

/-- The callbacks of a frame always return 0, so every call is made, and the data is a fold. -/
theorem replay_eq_foldl (env : Env) (rs : List Report) (data : PCData) :
    replay (libbacktraceFullCallback env) libbacktraceErrorCallback rs data =
      (0, rs.foldl (fun d r =>
        (deliver (libbacktraceFullCallback env) libbacktraceErrorCallback r d).2) data) :=
  Lib.Visit.offer_of_ok (deliver_fst env) rs data

/-- **What the callbacks leave in the data**, from any earlier contents. -/
theorem replay_pcData (env : Env) : ∀ (rs : List Report) (f s : String) (n : SizeT),
    (replay (libbacktraceFullCallback env) libbacktraceErrorCallback rs ⟨some f, some s, n⟩).2 =
      ⟨some ((((fullCalls rs).filterMap FullCall.function).map (demangle env)).getLastD f),
        some (((fullCalls rs).filterMap FullCall.filename).getLastD s),
        (((fullCalls rs).map FullCall.lineno).map toSizeT).getLastD n⟩
  | [], f, s, n => rfl
  | .error msg errnum :: rs, f, s, n => by
    rw [replay_eq_foldl, List.foldl_cons, fullCalls_cons_error]
    have ih := replay_pcData env rs f s n
    rw [replay_eq_foldl] at ih
    exact ih
  | .full c :: rs, f, s, n => by
    rw [replay_eq_foldl, List.foldl_cons, fullCalls_cons_full]
    have ih := replay_pcData env rs ((c.function.map (demangle env)).getD f) (c.filename.getD s)
      (toSizeT c.lineno)
    rw [replay_eq_foldl] at ih
    have hc : (deliver (libbacktraceFullCallback env) libbacktraceErrorCallback (.full c)
        ⟨some f, some s, n⟩).2 = ⟨some ((c.function.map (demangle env)).getD f),
          some (c.filename.getD s), toSizeT c.lineno⟩ := by
      simp only [deliver, libbacktraceFullCallback_eq]
    rw [hc, ih]
    cases hf : c.function <;> cases hs : c.filename <;>
      simp only [List.filterMap_cons, hf, hs, List.map_cons, List.getLastD_cons, Option.map_none,
        Option.map_some, Option.getD_none, Option.getD_some]

theorem getLastD_map_toSizeT (calls : List FullCall) :
    ((calls.map FullCall.lineno).map toSizeT).getLastD 0 = toSizeT (lastLine calls) := by
  rw [show (0 : SizeT) = toSizeT 0 from rfl, List.getLastD_map]
  rfl

/-! ## What the constructor leaves -/

namespace Frame

variable {σ : Type} (env : Env) (lib : Library σ) (storage : Frame) (address : UIntPtr)
  (w : World σ)

/-- The full callbacks made while a frame for `address` is constructed. -/
def callsFor (lib : Library σ) (address : UIntPtr) (w : World σ) : List FullCall :=
  match w.backtraceState with
  | some p => fullCalls (lib.pcinfo (w.heap p) address).1
  | none => []

theorem callsFor_none {lib : Library σ} {address : UIntPtr} {w : World σ}
    (h : w.backtraceState = none) : callsFor lib address w = [] := by
  unfold callsFor
  rw [h]

/-- The line number the constructor leaves: that of the last callback, or what the storage held
when the global state is null. -/
def lineAfter : SizeT :=
  match w.backtraceState with
  | some _ => toSizeT (lastLine (callsFor lib address w))
  | none => storage.sourceLineNumber

/-- The frame before the fallback to the binary's file name. -/
def located : Frame :=
  { native := address
    function := lastFunction env (callsFor lib address w)
    sourceFilename := lastFilename (callsFor lib address w)
    binaryFilename := ""
    sourceLineNumber := lineAfter lib storage address w }

/-- **The constructor, in terms of the callbacks it receives.** -/
theorem construct_fst : (construct env lib storage address w).1 =
    if (located env lib storage address w).hasSourceInfo then located env lib storage address w
    else { located env lib storage address w with
      binaryFilename := getBinaryFilenameLD env address } := by
  unfold construct located lineAfter callsFor
  cases w.backtraceState with
  | none => exact apply_ite Prod.fst _ _ _
  | some p =>
    simp only [backtracePcinfo, replay_pcData, Option.getD_some, getLastD_map_toSizeT]
    exact apply_ite Prod.fst _ _ _

theorem construct_native : (construct env lib storage address w).1.native = address := by
  rw [construct_fst]
  split <;> rfl

@[simp] theorem construct_get : (construct env lib storage address w).1.get = address :=
  construct_native env lib storage address w

@[simp] theorem construct_function : (construct env lib storage address w).1.function =
    lastFunction env (callsFor lib address w) := by
  rw [construct_fst]
  split <;> rfl

@[simp] theorem construct_sourceFilename : (construct env lib storage address w).1.sourceFilename =
    lastFilename (callsFor lib address w) := by
  rw [construct_fst]
  split <;> rfl

@[simp] theorem construct_sourceLineNumber :
    (construct env lib storage address w).1.sourceLineNumber = lineAfter lib storage address w := by
  rw [construct_fst]
  split <;> rfl

/-- With a state, a frame shows the callbacks made for its address. -/
theorem construct_shows {p : StatePtr} (hw : w.backtraceState = some p) :
    (construct env lib storage address w).1.Shows env
      (fullCalls (lib.pcinfo (w.heap p) address).1) := by
  have hcalls : callsFor lib address w = fullCalls (lib.pcinfo (w.heap p) address).1 := by
    rw [callsFor, hw]
  rw [← hcalls]
  refine ⟨construct_function .., construct_sourceFilename .., ?_⟩
  rw [getSourceLineNumber, construct_sourceLineNumber, lineAfter, hw]

/-- A file name that is not empty was reported, and the line of the last callback is not 0. -/
theorem construct_hasSourceInfo : (construct env lib storage address w).1.hasSourceInfo = true ↔
    lastFilename (callsFor lib address w) ≠ "" ∧ lastLine (callsFor lib address w) ≠ 0 := by
  have hlen : ∀ s : String, s.length > 0 ↔ s ≠ "" := fun s => by
    rw [gt_iff_lt, Nat.pos_iff_ne_zero, Ne, String.length_eq_zero_iff]
  unfold hasSourceInfo
  rw [construct_sourceFilename, construct_sourceLineNumber, Bool.and_eq_true, decide_eq_true_eq,
    decide_eq_true_eq, hlen]
  refine and_congr_right fun hfile => ?_
  unfold lineAfter
  cases hw : w.backtraceState with
  | none =>
    rw [callsFor_none hw] at hfile
    exact absurd rfl hfile
  | some p =>
    exact toSizeT_pos_iff

/-- With source information the line number is that of the last callback. -/
theorem construct_line_of_hasSourceInfo
    (h : (construct env lib storage address w).1.hasSourceInfo = true) :
    (construct env lib storage address w).1.sourceLineNumber =
      toSizeT (lastLine (callsFor lib address w)) := by
  rw [construct_sourceLineNumber, lineAfter]
  cases hw : w.backtraceState with
  | none =>
    have := ((construct_hasSourceInfo env lib storage address w).mp h).1
    rw [callsFor_none hw] at this
    exact absurd rfl this
  | some p => rfl

/-- The binary's file name is looked up exactly when there is no source information. -/
theorem construct_binaryFilename : (construct env lib storage address w).1.binaryFilename =
    if (construct env lib storage address w).1.hasSourceInfo then ""
    else getBinaryFilenameLD env address := by
  have hsame : (construct env lib storage address w).1.hasSourceInfo =
      (located env lib storage address w).hasSourceInfo := by
    rw [construct_fst]
    split <;> rfl
  rw [hsame, construct_fst]
  split <;> rfl

/-- The world after the constructor: what `backtrace_pcinfo` made of the state. -/
theorem construct_snd : (construct env lib storage address w).2 =
    match w.backtraceState with
    | some p => (w.store p (lib.pcinfo (w.heap p) address).2).record (.pcinfo (some p) address)
    | none => w := by
  unfold construct
  cases w.backtraceState with
  | none => exact (apply_ite Prod.snd _ _ _).trans (ite_self _)
  | some p => exact (apply_ite Prod.snd _ _ _).trans (ite_self _)

/-- The constructor leaves the global as it was. -/
@[simp] theorem construct_backtraceState :
    (construct env lib storage address w).2.backtraceState = w.backtraceState := by
  rw [construct_snd]
  split
  · rename_i p hp
    exact hp.symm ▸ rfl
  · rfl

/-- The constructor calls `backtrace_pcinfo` once, with the frame's address, when the global state
is not null, and not at all when it is. -/
theorem construct_calls : (construct env lib storage address w).2.calls =
    w.calls ++ match w.backtraceState with
      | some p => [.pcinfo (some p) address]
      | none => [] := by
  rw [construct_snd]
  split
  · rfl
  · exact (List.append_nil _).symm

end Frame

end Bktce
