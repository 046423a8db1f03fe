import Bktce.Unwind
import Bktce.Frame

/-!
# A stack trace

Model of `class Stacktrace` (`bktce.h:47-65`, `bktce.cpp:187-243`) and of `simple_backtrace`
(`bktce.cpp:245-258`).

* The inputs of the constructor that the program does not choose are parameters: the frames the
  unwinder visits, the result `mem` of the allocation in `backtrace_create_state`, and the
  previous contents `storage i` of the slot the `i`th frame is built in.
* `constructFrames` constructs a frame for each of a list of addresses, in order; it is what the
  construction loop comes to.

Results:
* `Stacktrace.construct_spec`: the constructor does not fault. It captures the stack, and unless
  that gives no address it creates a state and constructs a frame for each address captured.
* `constructFrames_calls`: the frames look their addresses up in order, if there is a state.
* `frames_exact`: which addresses the frames have, and that every store of the capture is in
  bounds.
-/

namespace Bktce

open Lib

variable {σ : Type}

/-- `Stacktrace`. -/
structure Stacktrace where
  frames : List Frame

namespace Stacktrace

/-- `getFrames`. -/
def getFrames (st : Stacktrace) : List Frame := st.frames

/-- `size`. -/
def size (st : Stacktrace) : Nat := st.frames.length

end Stacktrace

/-! ## The constructor -/

/-- The scan for the first null pointer: `turns` turns of the loop are left, `i` and
`numFramesCollected` are its variables. -/
def countFrames (buf : List UIntPtr) : Nat → Nat → Nat → Option Nat
  | 0, _, numFramesCollected => some numFramesCollected
  | turns + 1, i, numFramesCollected =>
    buf[i]?.bind fun ip =>
      if ip = 0 then some numFramesCollected
      else countFrames buf turns (i + 1) (numFramesCollected + 1)

section Construct

variable (env : Env) (lib : Library σ) (storage : Nat → Frame)

/-- The construction loop: `turns` turns are left, `i` is its variable. -/
def buildFrames (buf : List UIntPtr) :
    Nat → Nat → List Frame → World σ → Option (List Frame × World σ)
  | 0, _, frames, w => some (frames, w)
  | turns + 1, i, frames, w =>
    buf[i]?.bind fun ip =>
      if ip = 0 then some (frames, w)
      else
        let (fr, w) := Frame.construct env lib (storage i) ip w
        buildFrames buf turns (i + 1) (frames ++ [fr]) w

/-- `Stacktrace::Stacktrace`. -/
def Stacktrace.construct (numSkippedFrames : SizeT) (contexts : List UnwindContext)
    (mem : Option StatePtr) (w : World σ) : Option (Stacktrace × World σ) :=
  (unwindBacktrace unwindCallback contexts (some (UnwindState.start numSkippedFrames))).bind
    fun (_, state) => state.bind fun state =>
      (countFrames state.buf maxStackSize 0 0).bind fun numFramesCollected =>
        if numFramesCollected = 0 then some (⟨[]⟩, w)
        else
          let (backtraceState, w) := backtraceCreateState lib none false mem w
          (buildFrames env lib storage state.buf numFramesCollected 0 []
            { w with backtraceState }).map fun (frames, w) => (⟨frames⟩, w)

/-! ## The loops -/

theorem countFrames_of_holds {buf xs : List UIntPtr} (hbuf : Holds buf xs)
    (hxs : xs.length ≤ maxStackSize) (hne : ∀ ip ∈ xs, ip ≠ 0) :
    ∀ (post pre : List UIntPtr), pre ++ post = xs →
      countFrames buf (maxStackSize - pre.length) pre.length pre.length = some xs.length
  | [], pre, hp => by
    rw [List.append_nil] at hp
    subst hp
    cases hroom : maxStackSize - pre.length with
    | zero => rfl
    | succ k =>
      have hget : buf[pre.length]? = some 0 := by
        rw [hbuf, List.getElem?_append_right (Nat.le_refl _), hroom, Nat.sub_self]
        rfl
      simp only [countFrames, hget, Option.bind_some, if_true]
  | ip :: post, pre, hp => by
    have hlen := congrArg List.length hp
    rw [List.length_append, List.length_cons] at hlen
    have hget : buf[pre.length]? = some ip := by
      rw [hbuf, ← hp, List.append_assoc, List.getElem?_append_right (Nat.le_refl _), Nat.sub_self]
      rfl
    have hip : ip ≠ 0 := hne ip (hp ▸ by simp)
    have ih := countFrames_of_holds hbuf hxs hne post (pre ++ [ip]) (by rw [← hp]; simp)
    rw [List.length_append, List.length_singleton] at ih
    rw [show maxStackSize - pre.length = (maxStackSize - (pre.length + 1)) + 1 by omega]
    simp only [countFrames, hget, Option.bind_some, if_neg hip, ih]

/-- The scan counts the addresses before the null pointers. -/
theorem countFrames_eq {buf xs : List UIntPtr} (hbuf : Holds buf xs)
    (hxs : xs.length ≤ maxStackSize) (hne : ∀ ip ∈ xs, ip ≠ 0) :
    countFrames buf maxStackSize 0 0 = some xs.length :=
  countFrames_of_holds hbuf hxs hne xs [] rfl

/-- Construct a frame for each address, from slot `i` on. -/
def constructFrames : Nat → List UIntPtr → World σ → List Frame × World σ
  | _, [], w => ([], w)
  | i, ip :: ips, w =>
    let r := Frame.construct env lib (storage i) ip w
    let rs := constructFrames (i + 1) ips r.2
    (r.1 :: rs.1, rs.2)

theorem buildFrames_of_holds {buf xs : List UIntPtr} (hbuf : Holds buf xs)
    (hne : ∀ ip ∈ xs, ip ≠ 0) :
    ∀ (post pre : List UIntPtr) (frames : List Frame) (w : World σ), pre ++ post = xs →
      buildFrames env lib storage buf post.length pre.length frames w =
        some (frames ++ (constructFrames env lib storage pre.length post w).1,
          (constructFrames env lib storage pre.length post w).2)
  | [], pre, frames, w, _ => by simp [buildFrames, constructFrames]
  | ip :: post, pre, frames, w, hp => by
    have hget : buf[pre.length]? = some ip := by
      rw [hbuf, ← hp, List.append_assoc, List.getElem?_append_right (Nat.le_refl _), Nat.sub_self]
      rfl
    have hip : ip ≠ 0 := hne ip (hp ▸ by simp)
    have ih := buildFrames_of_holds hbuf hne post (pre ++ [ip])
      (frames ++ [(Frame.construct env lib (storage pre.length) ip w).1])
      (Frame.construct env lib (storage pre.length) ip w).2 (by rw [← hp]; simp)
    rw [List.length_append, List.length_singleton, List.append_assoc] at ih
    simp only [List.length_cons, buildFrames, hget, Option.bind_some, if_neg hip, ih]
    rfl

/-- The construction loop constructs a frame for each address before the null pointers. -/
theorem buildFrames_eq {buf xs : List UIntPtr} (hbuf : Holds buf xs) (hne : ∀ ip ∈ xs, ip ≠ 0)
    (w : World σ) : buildFrames env lib storage buf xs.length 0 [] w =
      some (constructFrames env lib storage 0 xs w) :=
  buildFrames_of_holds env lib storage hbuf hne xs [] [] w rfl

/-- The world in which the frames of a trace are constructed. -/
def World.created (mem : Option StatePtr) (w : World σ) : World σ :=
  { (backtraceCreateState lib none false mem w).2 with backtraceState := mem }

/-- **The constructor**: capture, then unless nothing is captured create a state and construct a
frame for each address. -/
theorem Stacktrace.construct_spec (n : SizeT) (contexts : List UnwindContext)
    (mem : Option StatePtr) (w : World σ) :
    Stacktrace.construct env lib storage n contexts mem w =
      let ips := captured n.toNat (contexts.map unwindGetIP)
      if ips = [] then some (⟨[]⟩, w)
      else
        let r := constructFrames env lib storage 0 ips (w.created lib mem)
        some (⟨r.1⟩, r.2) := by
  obtain ⟨k, state, hrun, hbuf⟩ := capture_spec n contexts
  have hne := fun ip => @ne_zero_of_mem_captured n.toNat (contexts.map unwindGetIP) ip
  unfold Stacktrace.construct
  simp only [hrun, Option.bind_some, countFrames_eq hbuf (captured_length_le _ _) hne,
    List.length_eq_zero_iff]
  split
  · rfl
  · simp only [backtraceCreateState_result, buildFrames_eq env lib storage hbuf hne,
      Option.map_some]
    rfl

/-! ## The frames -/

theorem constructFrames_get : ∀ (i : Nat) (ips : List UIntPtr) (w : World σ),
    (constructFrames env lib storage i ips w).1.map Frame.get = ips
  | _, [], _ => rfl
  | i, ip :: ips, w => by
    simp only [constructFrames, List.map_cons, Frame.construct_get, constructFrames_get]

theorem constructFrames_backtraceState : ∀ (i : Nat) (ips : List UIntPtr) (w : World σ),
    (constructFrames env lib storage i ips w).2.backtraceState = w.backtraceState
  | _, [], _ => rfl
  | i, ip :: ips, w => by
    simp only [constructFrames, constructFrames_backtraceState, Frame.construct_backtraceState]

/-- **The frames look their addresses up**, in order, if there is a state. -/
theorem constructFrames_calls : ∀ (i : Nat) (ips : List UIntPtr) (w : World σ),
    (constructFrames env lib storage i ips w).2.calls =
      w.calls ++ match w.backtraceState with
        | some p => ips.map (.pcinfo (some p))
        | none => []
  | _, [], w => by
    cases hw : w.backtraceState <;> simp [constructFrames]
  | i, ip :: ips, w => by
    simp only [constructFrames, constructFrames_calls, Frame.construct_calls,
      Frame.construct_backtraceState]
    cases w.backtraceState <;> simp

/-- **Each frame shows what its lookup was answered**, if there is a state. -/
theorem constructFrames_lookups {p : StatePtr} : ∀ (i : Nat) (ips : List UIntPtr) (w : World σ),
    w.backtraceState = some p →
      List.Forall₂ (fun fr r => fr.get = r.1 ∧ fr.Shows env (fullCalls r.2))
        (constructFrames env lib storage i ips w).1
        (lookups lib w.heap (ips.map fun ip => .pcinfo (some p) ip))
  | _, [], _, _ => .nil
  | i, ip :: ips, w, hw => by
    refine .cons ⟨Frame.construct_get .., Frame.construct_shows env lib _ _ _ hw⟩ ?_
    have ih := constructFrames_lookups (i + 1) ips
      (Frame.construct env lib (storage i) ip w).2 ((Frame.construct_backtraceState ..).trans hw)
    have hheap : (Frame.construct env lib (storage i) ip w).2.heap =
        (w.store p (lib.pcinfo (w.heap p) ip).2).heap := by
      simp only [Frame.construct_snd, hw]
      rfl
    rw [hheap] at ih
    exact ih

end Construct

/-- The frames of a stack trace have the captured addresses. -/
theorem Stacktrace.construct_get (env : Env) (lib : Library σ) (storage : Nat → Frame) (n : SizeT)
    (contexts : List UnwindContext) (mem : Option StatePtr) (w : World σ) :
    ∃ st w', Stacktrace.construct env lib storage n contexts mem w = some (st, w') ∧
      st.getFrames.map Frame.get = captured n.toNat (contexts.map unwindGetIP) := by
  rw [Stacktrace.construct_spec]
  by_cases hips : captured n.toNat (contexts.map unwindGetIP) = []
  · exact ⟨_, _, if_pos hips, hips.symm⟩
  · exact ⟨_, _, if_neg hips, constructFrames_get env lib storage 0 _ _⟩

/-- **The capture is exact and stays in its buffer.** The frames have the first 512 addresses that
remain after dropping `n` from the addresses before the first null one; every call of the callback
decrements a skip counter that is not zero, or stores inside the buffer. -/
theorem frames_exact (env : Env) (lib : Library σ) (storage : Nat → Frame) (n : SizeT)
    (contexts : List UnwindContext) (mem : Option StatePtr) (w : World σ) :
    (∃ st w', Stacktrace.construct env lib storage n contexts mem w = some (st, w') ∧
      st.getFrames.map Frame.get =
        (((contexts.map unwindGetIP).takeWhile (· ≠ 0)).drop n.toNat).take 512) ∧
    ∀ call ∈ Visit.visitCalls .noReason unwindCallback contexts (some (UnwindState.start n)),
      ∃ before after, call.before = some before ∧ call.after = some after ∧
        before.buf.length = 512 ∧
        ((before.numSkippedFrames ≠ 0 ∧
            after.numSkippedFrames.toNat + 1 = before.numSkippedFrames.toNat) ∨
          (before.numSkippedFrames = 0 ∧ after.numSkippedFrames = 0 ∧ before.current < 512 ∧
            after.buf = before.buf.set before.current (unwindGetIP call.item))) :=
  ⟨Stacktrace.construct_get env lib storage n contexts mem w,
    unwindCallback_stores n contexts⟩

/-! ## `simple_backtrace` -/

/-- The index of a frame, right-aligned in three columns. -/
def indexColumn (index : Nat) : String :=
  String.ofList (List.replicate (3 - (Nat.repr index).length) ' ') ++ Nat.repr index

/-- The loop over the frames, from `index` on. -/
def printFrames : Nat → List Frame → String
  | _, [] => ""
  | index, fr :: frames =>
    indexColumn index ++ "# " ++ fr.toString ++ printFrames (index + 1) frames

/-- `simple_backtrace`: what it writes. -/
def simpleBacktrace (env : Env) (lib : Library σ) (storage : Nat → Frame)
    (contexts : List UnwindContext) (mem : Option StatePtr) (w : World σ) :
    Option (String × World σ) :=
  (Stacktrace.construct env lib storage 2 contexts mem w).map fun (st, w) =>
    if st.size = 0 then ("", w) else (printFrames 0 st.getFrames ++ "\n", w)

end Bktce
