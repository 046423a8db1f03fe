import Bktce.Stacktrace

/-!
# What the storage held

Nothing initialises `m_sourceLineNumber` (`bktce.h:38-45`), and the constructor assigns it only
when the global state is not null (`bktce.cpp:140-149`). This module compares two constructions
that differ in the previous contents of the storage.

* `Observation` is what the public accessors of a frame return.

Results:
* `construct_storage`: two constructions agree on everything but the line number, and on that as
  well when there is a state.
* `storage_hidden_iff`: no accessor depends on the storage iff the global state is not null.
* `trace_storage_hidden_iff`: no accessor of a frame of a stack trace does iff its state could be
  created or nothing was captured.
-/

namespace Bktce

variable {σ : Type}

/-- What the accessors return. -/
structure Observation where
  get : UIntPtr
  hasSourceInfo : Bool
  sourceFilename : String
  binaryFilename : String
  sourceLineNumber : SizeT
  string : String
  deriving DecidableEq

namespace Frame

/-- All accessors. -/
def observe (fr : Frame) : Observation :=
  ⟨fr.get, fr.hasSourceInfo, fr.getSourceFilename, fr.getBinaryFilename, fr.getSourceLineNumber,
    fr.toString⟩

section Two

variable (env : Env) (lib : Library σ) (s₁ s₂ : Frame) (address : UIntPtr) (w : World σ)

theorem construct_hasSourceInfo_storage :
    (construct env lib s₁ address w).1.hasSourceInfo =
      (construct env lib s₂ address w).1.hasSourceInfo := by
  rw [Bool.eq_iff_iff, construct_hasSourceInfo, construct_hasSourceInfo]

/-- **Two constructions** agree but for the line number, which is that of the storage when there
is no state. -/
theorem construct_storage :
    (construct env lib s₁ address w).1 =
      { (construct env lib s₂ address w).1 with
        sourceLineNumber := lineAfter lib s₁ address w } := by
  have hinfo := construct_hasSourceInfo_storage env lib s₁ s₂ address w
  have hnative := (construct_native env lib s₁ address w).trans
    (construct_native env lib s₂ address w).symm
  have hbin : (construct env lib s₁ address w).1.binaryFilename =
      (construct env lib s₂ address w).1.binaryFilename := by
    rw [construct_binaryFilename, construct_binaryFilename, hinfo]
  have hfun := (construct_function env lib s₁ address w).trans
    (construct_function env lib s₂ address w).symm
  have hfile := (construct_sourceFilename env lib s₁ address w).trans
    (construct_sourceFilename env lib s₂ address w).symm
  have hline := construct_sourceLineNumber env lib s₁ address w
  generalize (construct env lib s₁ address w).1 = fr₁ at *
  obtain ⟨n, f, s, b, l⟩ := fr₁
  simp only at hnative hfun hfile hbin hline
  rw [hnative, hfun, hfile, hbin, hline]

/-- With a state the storage does not matter at all. -/
theorem construct_storage_of_state (hw : w.backtraceState ≠ none) :
    (construct env lib s₁ address w).1 = (construct env lib s₂ address w).1 := by
  have hline : lineAfter lib s₁ address w = lineAfter lib s₂ address w := by
    obtain ⟨p, hp⟩ := Option.ne_none_iff_exists'.mp hw
    simp only [lineAfter, hp]
  rw [construct_storage env lib s₁ s₂, hline, ← construct_sourceLineNumber env lib s₂ address w]

end Two

/-- Without a state the line number shown is that of the storage. -/
theorem getSourceLineNumber_of_null (env : Env) (lib : Library σ) (storage : Frame)
    (address : UIntPtr) {w : World σ} (hw : w.backtraceState = none) :
    (construct env lib storage address w).1.getSourceLineNumber = storage.sourceLineNumber := by
  unfold getSourceLineNumber
  rw [construct_sourceLineNumber, lineAfter, hw]

end Frame

/-- **No accessor of a frame depends on the storage it was built in iff the global state is not
null.** -/
theorem storage_hidden_iff (env : Env) (lib : Library σ) (address : UIntPtr) (w : World σ) :
    (∀ s₁ s₂ : Frame, (Frame.construct env lib s₁ address w).1.observe =
        (Frame.construct env lib s₂ address w).1.observe) ↔ w.backtraceState ≠ none := by
  constructor
  · intro h hw
    have := congrArg Observation.sourceLineNumber (h ⟨0, "", "", "", 0⟩ ⟨0, "", "", "", 1⟩)
    simp only [Frame.observe, Frame.getSourceLineNumber_of_null env lib _ address hw] at this
    exact absurd this (by decide)
  · intro hw s₁ s₂
    rw [Frame.construct_storage_of_state env lib s₁ s₂ address w hw]

/-- A frame constructed before any stack trace shows the line number its storage held. -/
theorem storage_shown :
    let env : Env := ⟨fun _ => ⟨none, -2⟩, fun _ => some "caller_bt"⟩
    let lib : Library Unit := ⟨fun _ _ => (), fun _ _ => ([], ())⟩
    let w := World.initial fun _ => ()
    ¬ ∀ s₁ s₂ : Frame, (Frame.construct env lib s₁ 0x401136 w).1.observe =
      (Frame.construct env lib s₂ 0x401136 w).1.observe := fun h =>
  absurd (h ⟨0, "", "", "", 0⟩ ⟨0, "", "", "", 7⟩) (by decide)

/-! ## Stack traces -/

section Traces

variable (env : Env) (lib : Library σ)

theorem constructFrames_storage (s₁ s₂ : Nat → Frame) : ∀ (i : Nat) (ips : List UIntPtr)
    (w : World σ), w.backtraceState ≠ none →
      (constructFrames env lib s₁ i ips w).1 = (constructFrames env lib s₂ i ips w).1
  | _, [], _, _ => rfl
  | i, ip :: ips, w, hw => by
    have hworld : (Frame.construct env lib (s₁ i) ip w).2 =
        (Frame.construct env lib (s₂ i) ip w).2 := by
      rw [Frame.construct_snd, Frame.construct_snd]
    simp only [constructFrames, Frame.construct_storage_of_state env lib (s₁ i) (s₂ i) ip w hw,
      hworld]
    rw [constructFrames_storage s₁ s₂ (i + 1) ips _ (by rwa [Frame.construct_backtraceState])]

/-- **No accessor of a frame of a stack trace depends on the storage** iff the state could be
created, or nothing was captured. -/
theorem trace_storage_hidden_iff (n : SizeT) (contexts : List UnwindContext)
    (mem : Option StatePtr) (w : World σ) :
    (∀ s₁ s₂ : Nat → Frame,
      (Stacktrace.construct env lib s₁ n contexts mem w).map
          (fun r => r.1.getFrames.map Frame.observe) =
        (Stacktrace.construct env lib s₂ n contexts mem w).map
          (fun r => r.1.getFrames.map Frame.observe)) ↔
      mem ≠ none ∨ captured n.toNat (contexts.map unwindGetIP) = [] := by
  simp only [Stacktrace.construct_spec]
  cases hips : captured n.toNat (contexts.map unwindGetIP) with
  | nil => simp
  | cons ip ips =>
    simp only [List.cons_ne_nil, if_false, or_false, Option.map_some, Option.some.injEq]
    constructor
    · rintro h rfl
      have hw : (w.created lib none).backtraceState = none := rfl
      have := congrArg (fun l => l.head?.map Observation.sourceLineNumber)
        (h (fun _ => ⟨0, "", "", "", 0⟩) fun _ => ⟨0, "", "", "", 1⟩)
      simp only [constructFrames, Stacktrace.getFrames, List.map_cons, List.head?_cons,
        Option.map_some, Frame.observe, Frame.getSourceLineNumber_of_null env lib _ ip hw] at this
      exact absurd this (by decide)
    · intro hmem s₁ s₂
      rw [constructFrames_storage env lib s₁ s₂ 0 (ip :: ips) (w.created lib mem) hmem]

end Traces

end Bktce
