import Bktce.Libbacktrace.Lookup
import Bktce.World

/-!
# `backtrace_pcinfo`

Model of `struct backtrace_state` (`internal.h:99-124`), of `fileline_initialize` and
`backtrace_pcinfo` (`fileline.c:50-197`) and of `elf_nodebug` (`elf.c:527-535`).

* The outside is a `Host`: what opening a file gives (`backtrace_open`, `posix.c:55-86`), the
  process id, what `backtrace_initialize` makes of an opened executable, and the error of
  `backtrace_alloc` when it has no memory.
* `HAVE_GETEXECNAME` is not defined (`config.h:30`), so the second pass has no file name.

Results:
* `backtracePcinfo_eq`: for every callback, `backtrace_pcinfo` makes exactly the calls of
  `pcinfoReports`, up to the first nonzero return value. So libbacktrace is a `Library`
  (`library`), and `backtracePcinfo_library` says what a client's call of it does.
* `fullCalls_pcinfoReports_eq_nil_iff`: the full callback is called unless the initialization
  fails or finds no debug information.
* `afterPcinfo_outcome`: the first call decides which of these it is, and later calls keep that.
-/

namespace Bktce.Libbacktrace

/-- The functions `fileline_fn` points to. -/
inductive FilelineFn where
  | elfNodebug
  | dwarfFileline
  deriving DecidableEq

/-- `struct backtrace_state`, as far as `backtrace_pcinfo` uses it. -/
structure BacktraceState where
  filename : Option String
  threaded : Bool
  filelineFn : Option FilelineFn
  filelineData : List DwarfData
  filelineInitializationFailed : Bool

/-- The contents `backtrace_create_state` gives a state. -/
def BacktraceState.init (filename : Option String) (threaded : Bool) : BacktraceState :=
  ⟨filename, threaded, none, [], false⟩

/-- What `backtrace_open` finds: a descriptor, `does_not_exist`, or another `errno`. -/
inductive OpenResult where
  | descriptor (fd : Nat)
  | doesNotExist
  | failed (errnum : CInt)

/-- What `backtrace_initialize` makes of an executable: the errors it reports, and the function
and the modules it finds, unless it fails. -/
structure InitResult where
  errors : List (String × CInt)
  result : Option (FilelineFn × List DwarfData)

/-- The outside world of libbacktrace. -/
structure Host where
  backtraceOpen : String → OpenResult
  getpid : Nat
  backtraceInitialize : String → Nat → InitResult
  allocError : Option (String × CInt)

/-- `ENOENT`. -/
def enoent : CInt := 2

/-- The file name of a pass. -/
def passFilename (host : Host) (state : BacktraceState) : Nat → Option String
  | 0 => state.filename
  | 1 => none
  | 2 => some "/proc/self/exe"
  | 3 => some "/proc/curproc/file"
  | _ => some ("/proc/" ++ Nat.repr host.getpid ++ "/object/a.out")

/-- How the passes end: with an open file, with no file, or with an error that was reported. -/
inductive PassResult where
  | opened (filename : String) (fd : Nat)
  | notFound
  | failed (filename : String) (errnum : CInt)

/-- The loop over the passes. -/
def runPasses (host : Host) (state : BacktraceState) : List Nat → PassResult
  | [] => .notFound
  | pass :: rest =>
    match passFilename host state pass with
    | none => runPasses host state rest
    | some filename =>
      match host.backtraceOpen filename with
      | .descriptor fd => .opened filename fd
      | .doesNotExist => runPasses host state rest
      | .failed errnum => .failed filename errnum

section Run

variable {δ : Type} (callback : FullCallback δ) (errorCallback : ErrorCallback δ)

/-- `fileline_initialize`: its result, the callback data and the state after it. -/
def filelineInitialize (host : Host) (state : BacktraceState) (data : δ) :
    Bool × δ × BacktraceState :=
  if state.filelineInitializationFailed then
    (false, errorCallback data "failed to read executable information" (-1), state)
  else if state.filelineFn.isSome then (true, data, state)
  else
    match runPasses host state [0, 1, 2, 3, 4] with
    | .failed filename errnum =>
      (false, errorCallback data filename errnum,
        { state with filelineInitializationFailed := true })
    | .notFound =>
      let data := match state.filename with
        | some filename => errorCallback data filename enoent
        | none => errorCallback data "libbacktrace could not find executable to open" 0
      (false, data, { state with filelineInitializationFailed := true })
    | .opened filename fd =>
      let r := host.backtraceInitialize filename fd
      let data := reportErrors errorCallback r.errors data
      match r.result with
      | none => (false, data, { state with filelineInitializationFailed := true })
      | some (fn, modules) =>
        (true, data, { state with filelineFn := some fn, filelineData := modules })

/-- `elf_nodebug`. -/
def elfNodebug (data : δ) : CInt × δ :=
  (0, errorCallback data "no debug info in ELF executable" (-1))

/-- `backtrace_pcinfo`: its return value, the callback data and the state after it. -/
def backtracePcinfo (host : Host) (state : BacktraceState) (pc : UIntPtr) (data : δ) :
    CInt × δ × BacktraceState :=
  let (ok, data, state) := filelineInitialize errorCallback host state data
  if ok = false then (0, data, state)
  else if state.filelineInitializationFailed then (0, data, state)
  else
    match state.filelineFn with
    | none => (0, data, state)
    | some .elfNodebug =>
      let (ret, data) := elfNodebug errorCallback data
      (ret, data, state)
    | some .dwarfFileline =>
      let (ret, data, modules) :=
        dwarfFileline callback errorCallback host.allocError pc state.filelineData data
      (ret, data, { state with filelineData := modules })

end Run

/-! ## The calls it makes -/

/-- The errors `filelineInitialize` reports, its result and the state after it. -/
def initializeReports (host : Host) (state : BacktraceState) :
    List (String × CInt) × Bool × BacktraceState :=
  if state.filelineInitializationFailed then
    ([("failed to read executable information", -1)], false, state)
  else if state.filelineFn.isSome then ([], true, state)
  else
    match runPasses host state [0, 1, 2, 3, 4] with
    | .failed filename errnum =>
      ([(filename, errnum)], false, { state with filelineInitializationFailed := true })
    | .notFound =>
      ([match state.filename with
        | some filename => (filename, enoent)
        | none => ("libbacktrace could not find executable to open", 0)], false,
        { state with filelineInitializationFailed := true })
    | .opened filename fd =>
      let r := host.backtraceInitialize filename fd
      match r.result with
      | none => (r.errors, false, { state with filelineInitializationFailed := true })
      | some (fn, modules) =>
        (r.errors, true, { state with filelineFn := some fn, filelineData := modules })

/-- The calls of `backtrace_pcinfo`, and the state after it. -/
def pcinfoReports (host : Host) (state : BacktraceState) (pc : UIntPtr) :
    List Report × BacktraceState :=
  let (errors, ok, state) := initializeReports host state
  let errors := errorReports errors
  if ok = false then (errors, state)
  else
    match state.filelineFn with
    | some .dwarfFileline =>
      let r := filelineReports host.allocError pc state.filelineData
      (errors ++ r.1, { state with filelineData := r.2 })
    | some .elfNodebug =>
      (errors ++ [.error "no debug info in ELF executable" (-1)], state)
    | none => (errors, state)

/-- libbacktrace, as its client sees it. -/
def library (host : Host) : Library BacktraceState where
  initState := BacktraceState.init
  pcinfo := pcinfoReports host

section Run

variable {δ : Type} (callback : FullCallback δ) (errorCallback : ErrorCallback δ)

theorem filelineInitialize_eq (host : Host) (state : BacktraceState) (data : δ) :
    filelineInitialize errorCallback host state data =
      let r := initializeReports host state
      (r.2.1, reportErrors errorCallback r.1 data, r.2.2) := by
  unfold filelineInitialize initializeReports
  split
  · rfl
  · split
    · rfl
    · cases runPasses host state [0, 1, 2, 3, 4] with
      | failed filename errnum => rfl
      | notFound => cases state.filename <;> rfl
      | opened filename fd =>
        simp only
        cases (host.backtraceInitialize filename fd).result with
        | none => rfl
        | some r => rfl

/-- An initialization that succeeds leaves a function to call, and no failure. -/
theorem initializeReports_ok {host : Host} {state : BacktraceState}
    (h : (initializeReports host state).2.1 = true) :
    (initializeReports host state).2.2.filelineInitializationFailed = false ∧
      (initializeReports host state).2.2.filelineFn.isSome := by
  unfold initializeReports at h ⊢
  split at h
  · exact absurd h (by simp)
  · rename_i hf
    have hf' : state.filelineInitializationFailed = false := by simpa using hf
    rw [if_neg hf]
    split at h
    · rename_i hs
      rw [if_pos hs]
      exact ⟨hf', hs⟩
    · rename_i hs
      rw [if_neg hs]
      cases hp : runPasses host state [0, 1, 2, 3, 4] with
      | failed filename errnum => simp [hp] at h
      | notFound => simp [hp] at h
      | opened filename fd =>
        simp only [hp] at h ⊢
        cases hr : (host.backtraceInitialize filename fd).result with
        | none => simp [hr] at h
        | some r => exact ⟨hf', rfl⟩

/-- An initialization that fails is remembered. -/
theorem initializeReports_failed {host : Host} {state : BacktraceState}
    (h : (initializeReports host state).2.1 = false) :
    (initializeReports host state).2.2.filelineInitializationFailed = true := by
  unfold initializeReports at h ⊢
  split
  · assumption
  · rename_i hf
    rw [if_neg hf] at h
    split
    · rename_i hs
      simp [hs] at h
    · rename_i hs
      rw [if_neg hs] at h
      cases hp : runPasses host state [0, 1, 2, 3, 4] with
      | failed filename errnum => rfl
      | notFound => rfl
      | opened filename fd =>
        simp only [hp] at h ⊢
        cases hr : (host.backtraceInitialize filename fd).result with
        | none => rfl
        | some r => simp [hr] at h

/-- **`backtrace_pcinfo` makes the calls of `pcinfoReports`**, whatever the callbacks are. -/
theorem backtracePcinfo_eq (host : Host) (state : BacktraceState) (pc : UIntPtr) (data : δ) :
    backtracePcinfo callback errorCallback host state pc data =
      let r := pcinfoReports host state pc
      let out := replay callback errorCallback r.1 data
      (out.1, out.2, r.2) := by
  unfold backtracePcinfo pcinfoReports
  rw [filelineInitialize_eq]
  have hok := @initializeReports_ok host state
  generalize initializeReports host state = r at hok ⊢
  obtain ⟨errors, ok, state'⟩ := r
  cases ok with
  | false => simp [replay_errorReports]
  | true =>
    obtain ⟨hfailed, hfn⟩ : state'.filelineInitializationFailed = false ∧
      state'.filelineFn.isSome := hok rfl
    simp only [hfailed, Bool.true_eq_false, Bool.false_eq_true, if_false]
    cases hf : state'.filelineFn with
    | none => simp [hf] at hfn
    | some fn =>
      cases fn with
      | elfNodebug =>
        simp only [replay_errorReports_append]
        rfl
      | dwarfFileline => simp only [replay_errorReports_append, dwarfFileline_eq]

/-- What a client's call does: it runs `backtrace_pcinfo` on the contents of the state. -/
theorem backtracePcinfo_library (host : Host) (p : StatePtr) (pc : UIntPtr) (data : δ)
    (w : World BacktraceState) :
    Bktce.backtracePcinfo (library host) p pc callback errorCallback data w =
      let r := backtracePcinfo callback errorCallback host (w.heap p) pc data
      (r.1, r.2.1, (w.store p r.2.2).record (.pcinfo (some p) pc)) := by
  rw [backtracePcinfo_eq]
  rfl

end Run

/-! ## When the full callback is called -/

theorem fullCalls_append (as bs : List Report) :
    fullCalls (as ++ bs) = fullCalls as ++ fullCalls bs := List.filterMap_append

@[simp] theorem fullCalls_errorReports (errors : List (String × CInt)) :
    fullCalls (errorReports errors) = [] := by
  induction errors with
  | nil => rfl
  | cons e errors ih => exact ih

@[simp] theorem fullCalls_map_full (calls : List FullCall) :
    fullCalls (calls.map .full) = calls := by
  induction calls with
  | nil => rfl
  | cons c calls ih => rw [List.map_cons, fullCalls_cons_full, ih]

/-- **The full callback is not called iff the initialization fails or finds no debug
information.** -/
theorem fullCalls_pcinfoReports_eq_nil_iff (host : Host) (state : BacktraceState) (pc : UIntPtr) :
    fullCalls (pcinfoReports host state pc).1 = [] ↔
      (initializeReports host state).2.1 = false ∨
        (initializeReports host state).2.2.filelineFn = some .elfNodebug := by
  unfold pcinfoReports
  have hok := @initializeReports_ok host state
  generalize initializeReports host state = r at hok ⊢
  obtain ⟨errors, ok, state'⟩ := r
  cases ok with
  | false => simp
  | true =>
    obtain ⟨-, hfn⟩ : _ ∧ state'.filelineFn.isSome := hok rfl
    cases hf : state'.filelineFn with
    | none => simp [hf] at hfn
    | some fn =>
      cases fn with
      | elfNodebug => simp [hf, fullCalls_append]
      | dwarfFileline =>
        obtain ⟨rs, c, hrs⟩ := filelineReports_last host.allocError pc state'.filelineData
        simp [hf, hrs, fullCalls_append]

/-! ## Runs -/

/-- The state after `backtrace_pcinfo` has been called for each of `pcs`. -/
def afterPcinfo (host : Host) (state : BacktraceState) (pcs : List UIntPtr) : BacktraceState :=
  pcs.foldl (fun st pc => (pcinfoReports host st pc).2) state

/-- The initialization has been tried. -/
def Settled (state : BacktraceState) : Prop :=
  state.filelineInitializationFailed = true ∨ state.filelineFn.isSome

theorem settled_initialize (host : Host) (state : BacktraceState) :
    Settled (initializeReports host state).2.2 := by
  cases h : (initializeReports host state).2.1 with
  | false => exact Or.inl (initializeReports_failed h)
  | true => exact Or.inr (initializeReports_ok h).2

/-- The initialization is not tried again. -/
theorem initializeReports_of_settled {host : Host} {state : BacktraceState} (h : Settled state) :
    (initializeReports host state).2.2 = state := by
  unfold initializeReports
  rcases h with h | h
  · rw [if_pos h]
  · rw [if_pos h]
    split <;> rfl

/-- What a call leaves of the initialization's outcome. -/
theorem pcinfo_outcome (host : Host) (state : BacktraceState) (pc : UIntPtr) :
    (pcinfoReports host state pc).2.filelineInitializationFailed =
        (initializeReports host state).2.2.filelineInitializationFailed ∧
      (pcinfoReports host state pc).2.filelineFn =
        (initializeReports host state).2.2.filelineFn := by
  unfold pcinfoReports
  generalize initializeReports host state = r
  obtain ⟨errors, ok, state'⟩ := r
  cases ok with
  | false => exact ⟨rfl, rfl⟩
  | true =>
    simp only [Bool.true_eq_false, if_false]
    split <;> exact ⟨rfl, rfl⟩

theorem settled_pcinfo (host : Host) (state : BacktraceState) (pc : UIntPtr) :
    Settled (pcinfoReports host state pc).2 := by
  unfold Settled
  obtain ⟨h1, h2⟩ := pcinfo_outcome host state pc
  rw [h1, h2]
  exact settled_initialize host state

/-- A settled state stays as it is, but for the modules. -/
theorem afterPcinfo_of_settled (host : Host) (pcs : List UIntPtr) :
    ∀ {state : BacktraceState}, Settled state →
      (afterPcinfo host state pcs).filelineInitializationFailed =
          state.filelineInitializationFailed ∧
        (afterPcinfo host state pcs).filelineFn = state.filelineFn := by
  induction pcs with
  | nil => exact fun _ => ⟨rfl, rfl⟩
  | cons pc pcs ih =>
    intro state h
    obtain ⟨h1, h2⟩ := pcinfo_outcome host state pc
    rw [initializeReports_of_settled h] at h1 h2
    obtain ⟨h3, h4⟩ := ih (settled_pcinfo host state pc)
    exact ⟨h3.trans h1, h4.trans h2⟩

/-- **The first call decides** whether there is debug information: later calls do not try the
initialization again. -/
theorem afterPcinfo_outcome (host : Host) (state : BacktraceState) (pc : UIntPtr)
    (pcs : List UIntPtr) :
    (afterPcinfo host state (pc :: pcs)).filelineInitializationFailed =
        (initializeReports host state).2.2.filelineInitializationFailed ∧
      (afterPcinfo host state (pc :: pcs)).filelineFn =
        (initializeReports host state).2.2.filelineFn := by
  obtain ⟨h1, h2⟩ := afterPcinfo_of_settled host pcs (settled_pcinfo host state pc)
  obtain ⟨h3, h4⟩ := pcinfo_outcome host state pc
  exact ⟨h1.trans h3, h2.trans h4⟩

/-! ## Hosts with given modules -/

/-- A host whose executable can be opened, and has these modules. -/
def Host.serving (modules : List DwarfData) : Host where
  backtraceOpen _ := .descriptor 3
  getpid := 1
  backtraceInitialize _ _ := ⟨[], some (.dwarfFileline, modules)⟩
  allocError := none

/-- A host whose executable has one unit: its addresses, its one line and its functions. -/
def Host.oneUnit (low high : UIntPtr) (filename : String) (lineno : CInt)
    (addrs : List FunctionAddrs) : Host :=
  .serving [⟨[⟨low, high, 0⟩], fun _ => ⟨none, none, none, .unread, []⟩, [], fun _ =>
    ⟨[], some ⟨[⟨low, some filename, lineno, 0⟩], List.pairwise_singleton _ _⟩, ⟨addrs, true⟩⟩⟩]

end Bktce.Libbacktrace
