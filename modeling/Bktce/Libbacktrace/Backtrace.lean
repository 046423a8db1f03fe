import Bktce.World

/-!
# `backtrace_full`

Model of `unwind` and `backtrace_full` (`backtrace.c:42-136`), libbacktrace's own tracer. It walks
the stack with the same unwinder as `bktce.cpp`, but asks for the address of the frame's
instruction and not for the one it will return to (`unwindPc`). `HAVE_GETIPINFO` is defined
(`config.h:33`).

Results:
* `unwind_step`: one call of the unwinder's callback either skips a frame or looks up its
  `unwindPc`.
* `backtraceFull_calls`: a whole trace looks up the `unwindPc` of every frame but the skipped ones,
  in order.
* `backtraceFull_data`: it hands its callback what these lookups are answered.
-/

namespace Bktce.Libbacktrace

variable {σ δ : Type}

/-- The address of a frame's instruction: the instruction pointer, less one when it is the address
after a call. -/
def unwindPc (context : UnwindContext) : UIntPtr :=
  let (pc, ipBeforeInsn) := unwindGetIPInfo context
  if ipBeforeInsn then pc else pc - 1

/-- `struct backtrace_data`: what changes during a trace, and `can_alloc`. -/
structure BacktraceData (σ δ : Type) where
  skip : CInt
  data : δ
  ret : CInt
  canAlloc : Bool
  world : World σ

section Trace

variable (lib : Library σ) (state : StatePtr) (callback : FullCallback δ)
  (errorCallback : ErrorCallback δ)

/-- `unwind`. -/
def unwind (context : UnwindContext) (bdata : BacktraceData σ δ) :
    UnwindReasonCode × BacktraceData σ δ :=
  if bdata.skip.toInt > 0 then (.noReason, { bdata with skip := bdata.skip - 1 })
  else
    let pc := unwindPc context
    let bdata :=
      if bdata.canAlloc = false then
        let (ret, data) := callback bdata.data pc none 0 none
        { bdata with ret, data }
      else
        let (ret, data, world) :=
          backtracePcinfo lib state pc callback errorCallback bdata.data bdata.world
        { bdata with ret, data, world }
    if bdata.ret ≠ 0 then (.endOfStack, bdata) else (.noReason, bdata)

/-- `backtrace_full`: the return value, the callback data and the world. -/
def backtraceFull (skip : CInt) (canAlloc : Bool) (contexts : List UnwindContext) (data : δ)
    (w : World σ) : CInt × δ × World σ :=
  let bdata : BacktraceData σ δ := ⟨skip + 1, data, 0, canAlloc, w⟩
  match unwindBacktrace (fun c b => some (unwind lib state callback errorCallback c b)) contexts
    bdata with
  | none => (bdata.ret, bdata.data, bdata.world)
  | some (_, bdata) => (bdata.ret, bdata.data, bdata.world)

/-- The contexts a trace with `skip` frames left to skip looks up. -/
def traced (skip : CInt) (contexts : List UnwindContext) : List UnwindContext :=
  contexts.drop skip.toInt.toNat

variable {callback}

theorem replay_ret (hret : ∀ d pc f l fn, (callback d pc f l fn).1 = 0) (rs : List Report)
    (data : δ) : (replay callback errorCallback rs data).1 = 0 := by
  have hok : ∀ r d, (deliver callback errorCallback r d).1 = 0
    | .full c, d => hret d c.pc c.filename c.lineno c.function
    | .error _ _, _ => rfl
  exact congrArg Prod.fst (Lib.Visit.offer_of_ok hok rs data)

/-- **One frame**: it is skipped, or its `unwindPc` is looked up; a callback that returns 0 asks
for the next frame. -/
theorem unwind_step (hret : ∀ d pc f l fn, (callback d pc f l fn).1 = 0) (c : UnwindContext)
    (b : BacktraceData σ δ) (hb : b.canAlloc = true) :
    ∃ b', unwind lib state callback errorCallback c b = (.noReason, b') ∧ b'.canAlloc = true ∧
      ((0 < b.skip.toInt ∧ b'.skip = b.skip - 1 ∧ b'.data = b.data ∧ b'.world = b.world) ∨
        (b.skip.toInt ≤ 0 ∧ b'.skip = b.skip ∧
          let r := lib.pcinfo (b.world.heap state) (unwindPc c)
          b'.data = (replay callback errorCallback r.1 b.data).2 ∧
            b'.world = (b.world.store state r.2).record (.pcinfo (some state) (unwindPc c)))) := by
  unfold unwind
  by_cases hs : b.skip.toInt > 0
  · rw [if_pos hs]
    exact ⟨_, rfl, hb, Or.inl ⟨hs, rfl, rfl, rfl⟩⟩
  · rw [if_neg hs]
    simp only [hb, Bool.true_eq_false, if_false, backtracePcinfo, replay_ret errorCallback hret,
      ne_eq, not_true_eq_false]
    exact ⟨_, rfl, rfl, Or.inr ⟨by omega, rfl, rfl, rfl⟩⟩

theorem toInt_sub_one {i : CInt} (h : 0 < i.toInt) : (i - 1).toInt = i.toInt - 1 := by
  have h1 := BitVec.toInt_eq_toNat_cond i
  have h2 := i.isLt
  have h3 : i.toNat < 2 ^ 31 ∧ 0 < i.toNat := by split at h1 <;> omega
  have h4 : (i - 1).toNat = i.toNat - 1 := by
    rw [BitVec.toNat_sub_of_le (by rw [BitVec.le_def]; simp; omega)]
    rfl
  rw [BitVec.toInt_eq_toNat_cond, h4]
  split at h1 <;> split <;> omega

theorem traced_of_pos {skip : CInt} (h : 0 < skip.toInt) (c : UnwindContext)
    (contexts : List UnwindContext) : traced skip (c :: contexts) = traced (skip - 1) contexts := by
  unfold traced
  rw [toInt_sub_one h, show skip.toInt.toNat = (skip.toInt - 1).toNat + 1 by omega,
    List.drop_succ_cons]

theorem traced_of_nonpos {skip : CInt} (h : skip.toInt ≤ 0) (contexts : List UnwindContext) :
    traced skip contexts = contexts := by
  rw [traced, show skip.toInt.toNat = 0 by omega, List.drop_zero]

/-- The lookups for contexts. -/
def lookupCalls (contexts : List UnwindContext) : List LibCall :=
  contexts.map fun c => .pcinfo (some state) (unwindPc c)

/-- The frames of a trace, whatever was traced before: the calls made, and what their answers make
of the data. -/
theorem unwindBacktrace_run (hret : ∀ d pc f l fn, (callback d pc f l fn).1 = 0)
    (contexts : List UnwindContext) : ∀ (b : BacktraceData σ δ), b.canAlloc = true →
      ∃ b', unwindBacktrace (fun c b => some (unwind lib state callback errorCallback c b))
          contexts b = some (.noReason, b') ∧
        b'.world.calls = b.world.calls ++ lookupCalls state (traced b.skip contexts) ∧
        b'.data = (lookups lib b.world.heap (lookupCalls state (traced b.skip contexts))).foldl
          (fun d r => (replay callback errorCallback r.2 d).2) b.data := by
  induction contexts with
  | nil =>
    intro b _
    exact ⟨b, rfl, by simp [traced, lookupCalls], by simp [traced, lookupCalls, lookups]⟩
  | cons c contexts ih =>
    intro b hb
    obtain ⟨b', hstep, hb', hcase⟩ := unwind_step lib state errorCallback hret c b hb
    obtain ⟨b'', hrun, hcalls, hdata⟩ := ih b' hb'
    have hvisit : unwindBacktrace (fun c b => some (unwind lib state callback errorCallback c b))
        (c :: contexts) b = some (.noReason, b'') := by
      unfold unwindBacktrace at hrun ⊢
      simp only [Lib.Visit.visit, hstep, if_true, hrun]
    refine ⟨b'', hvisit, ?_⟩
    rw [hcalls, hdata]
    rcases hcase with ⟨hpos, hskip, hd, hw⟩ | ⟨hneg, hskip, hd, hw⟩
    · rw [hskip, hd, hw, traced_of_pos hpos]
      exact ⟨rfl, rfl⟩
    · rw [hskip, hd, hw, traced_of_nonpos hneg, traced_of_nonpos hneg]
      exact ⟨List.append_assoc .., rfl⟩

/-- **A trace looks up the `unwindPc` of every frame but the skipped ones**, in order. -/
theorem backtraceFull_calls (hret : ∀ d pc f l fn, (callback d pc f l fn).1 = 0) (skip : CInt)
    (contexts : List UnwindContext) (data : δ) (w : World σ) :
    (backtraceFull lib state callback errorCallback skip true contexts data w).2.2.calls =
      w.calls ++ (traced (skip + 1) contexts).map fun c => .pcinfo (some state) (unwindPc c) := by
  obtain ⟨b', hrun, hcalls, -⟩ := unwindBacktrace_run lib state errorCallback hret contexts
    ⟨skip + 1, data, 0, true, w⟩ rfl
  unfold backtraceFull
  simp only [hrun, hcalls]
  rfl

/-- **What a trace hands its callback** is what its lookups are answered. -/
theorem backtraceFull_data (hret : ∀ d pc f l fn, (callback d pc f l fn).1 = 0) (skip : CInt)
    (contexts : List UnwindContext) (data : δ) (w : World σ) :
    (backtraceFull lib state callback errorCallback skip true contexts data w).2.1 =
      (lookups lib w.heap (lookupCalls state (traced (skip + 1) contexts))).foldl
        (fun d r => (replay callback errorCallback r.2 d).2) data := by
  obtain ⟨b', hrun, -, hdata⟩ := unwindBacktrace_run lib state errorCallback hret contexts
    ⟨skip + 1, data, 0, true, w⟩ rfl
  unfold backtraceFull
  simp only [hrun, hdata]

end Trace

/-! ## A trace of its own -/

/-- A full callback that collects its calls. -/
def collectCalls : FullCallback (List FullCall) := fun calls pc filename lineno function =>
  (0, calls ++ [⟨pc, filename, lineno, function⟩])

theorem replay_collectCalls (errorCallback : ErrorCallback (List FullCall))
    (herr : ∀ d msg errnum, errorCallback d msg errnum = d) : ∀ (rs : List Report)
    (calls : List FullCall), (replay collectCalls errorCallback rs calls).2 = calls ++ fullCalls rs
  | [], calls => (List.append_nil calls).symm
  | .error msg errnum :: rs, calls => by
    have ih := replay_collectCalls errorCallback herr rs calls
    rw [← herr calls msg errnum] at ih
    exact ih.trans (by rw [herr, fullCalls_cons_error])
  | .full c :: rs, calls => by
    have ih := replay_collectCalls errorCallback herr rs (calls ++ [c])
    exact ih.trans (by rw [fullCalls_cons_full, List.append_assoc, List.singleton_append])

/-- `backtrace_create_state` and `backtrace_full` with nothing to skip, called in the frame `self`:
the full callbacks made for the frames around it, and the world. -/
def traceFrom (lib : Library σ) (self : UnwindContext) (contexts : List UnwindContext)
    (state : StatePtr) (w : World σ) : List FullCall × World σ :=
  let (_, w) := backtraceCreateState lib none false (some state) w
  (backtraceFull lib state collectCalls (fun d _ _ => d) 0 true (self :: contexts) [] w).2

theorem traceFrom_spec (lib : Library σ) (self : UnwindContext) (contexts : List UnwindContext)
    (state : StatePtr) (w : World σ) :
    let log := .createState (some state) :: lookupCalls state contexts
    (traceFrom lib self contexts state w).2.calls = w.calls ++ log ∧
      (traceFrom lib self contexts state w).1 =
        (lookups lib w.heap log).flatMap fun r => fullCalls r.2 := by
  have htraced : traced ((0 : CInt) + 1) (self :: contexts) = contexts := by
    rw [traced_of_pos (by decide), traced_of_nonpos (by decide)]
  have hfold : ∀ (rs : List (UIntPtr × List Report)) (calls : List FullCall),
      rs.foldl (fun d r => (replay collectCalls (fun d _ _ => d) r.2 d).2) calls =
        calls ++ rs.flatMap fun r => fullCalls r.2 := fun rs => by
    induction rs with
    | nil => exact fun calls => (List.append_nil calls).symm
    | cons r rs ih =>
      intro calls
      rw [List.foldl_cons, ih, replay_collectCalls _ (fun _ _ _ => rfl), List.append_assoc,
        List.flatMap_cons]
  have hret : ∀ d pc f l fn, (collectCalls d pc f l fn).1 = 0 := fun _ _ _ _ _ => rfl
  constructor
  · refine (backtraceFull_calls lib state _ hret 0 _ _ _).trans ?_
    rw [htraced]
    exact List.append_assoc ..
  · refine (backtraceFull_data lib state _ hret 0 _ _ _).trans ?_
    rw [htraced, hfold]
    rfl

/-- Three frames, of which the first is skipped and the second was interrupted by a signal. -/
theorem backtraceFull_calls_signal :
    let lib : Library Unit := ⟨fun _ _ => (), fun _ _ => ([], ())⟩
    let contexts := [⟨0x100, false⟩, ⟨0x200, true⟩, ⟨0x300, false⟩]
    (backtraceFull lib 1 (fun (d : Unit) _ _ _ _ => (0, d)) (fun d _ _ => d) 0 true contexts ()
      (World.initial fun _ => ())).2.2.calls = [.pcinfo (some 1) 0x200, .pcinfo (some 1) 0x2ff] :=
  backtraceFull_calls _ _ _ (fun _ _ _ _ _ => rfl) 0 _ () _

end Bktce.Libbacktrace
