import Bktce.Stacktrace
import Bktce.Libbacktrace.Backtrace
import Bktce.Libbacktrace.SourceMap
import Mathlib.Data.List.Forall2

/-!
# Call sites

The instruction pointer of a frame that made a call is the address after the call instruction,
which need not belong to the line of the call: a call can be the last instruction of its line, or
of its function. libbacktrace's own tracer looks up the address before it (`backtrace.c:76-86`,
`Libbacktrace.unwindPc`). `unwindCallback` stores the instruction pointer as it is
(`bktce.cpp:123`) and `Frame::Frame` looks that up (`bktce.cpp:141-147`).

* `collected n contexts` are the frames that a stack trace shows.

Results:
* `trace_calls`: what a stack trace asks libbacktrace for, when its state can be created.
* `call_sites_iff`: for any debug information, the frames of a stack trace are resolved to the
  entries that libbacktrace's tracer resolves them to iff no line begins or ends at a return address
  collected.
-/

namespace Bktce

open Libbacktrace

variable {σ : Type}

/-- The frames a stack trace collects: before the first null address, after the skipped ones, as
many as the buffer holds. -/
def collected (n : Nat) (contexts : List UnwindContext) : List UnwindContext :=
  ((contexts.takeWhile fun c => unwindGetIP c ≠ 0).drop n).take maxStackSize

theorem map_collected (n : Nat) (contexts : List UnwindContext) :
    (collected n contexts).map unwindGetIP = captured n (contexts.map unwindGetIP) := by
  unfold collected captured
  rw [List.map_take, List.map_drop, List.takeWhile_map]
  rfl

theorem ne_zero_of_mem_collected {n : Nat} {contexts : List UnwindContext} {c : UnwindContext}
    (h : c ∈ collected n contexts) : unwindGetIP c ≠ 0 := by
  have hip : unwindGetIP c ∈ captured n (contexts.map unwindGetIP) := by
    rw [← map_collected]
    exact List.mem_map_of_mem h
  exact ne_zero_of_mem_captured hip

section Trace

variable (env : Env) (lib : Library σ) (storage : Nat → Frame) (n : SizeT)
  (contexts : List UnwindContext)

/-- **What a stack trace asks libbacktrace for**: a state, and then for each frame the instruction
pointer. -/
theorem trace_calls (p : StatePtr) (w : World σ) (h : collected n.toNat contexts ≠ []) :
    ∃ st w', Stacktrace.construct env lib storage n contexts (some p) w = some (st, w') ∧
      w'.calls = w.calls ++ .createState (some p) ::
        (collected n.toNat contexts).map fun c => .pcinfo (some p) (unwindGetIP c) := by
  rw [Stacktrace.construct_spec, ← map_collected]
  refine ⟨_, _, if_neg fun h0 => h (List.map_eq_nil_iff.mp h0), ?_⟩
  simp only [constructFrames_calls, World.created, backtraceCreateState_calls, List.map_map,
    List.append_assoc, List.singleton_append]
  rfl

/-- The lookups of a stack trace, and that its frames show what they are answered. -/
theorem trace_lookups (p : StatePtr) (w : World σ) :
    ∃ st w', Stacktrace.construct env lib storage n contexts (some p) w = some (st, w') ∧
      let trace := lookups lib w.heap (w'.calls.drop w.calls.length)
      trace = lookups lib w.heap (.createState (some p) ::
        ((collected n.toNat contexts).map unwindGetIP).map fun pc => .pcinfo (some p) pc) ∧
      List.Forall₂ (fun fr r => fr.get = r.1 ∧ fr.Shows env (fullCalls r.2))
        st.getFrames trace := by
  rw [Stacktrace.construct_spec, ← map_collected]
  by_cases h : (collected n.toNat contexts).map unwindGetIP = []
  · refine ⟨_, _, if_pos h, ?_⟩
    rw [h, List.drop_length]
    exact ⟨rfl, .nil⟩
  · have hlog : (constructFrames env lib storage 0 ((collected n.toNat contexts).map unwindGetIP)
        (w.created lib (some p))).2.calls.drop w.calls.length = .createState (some p) ::
          ((collected n.toNat contexts).map unwindGetIP).map fun pc => .pcinfo (some p) pc := by
      simp only [constructFrames_calls, World.created, backtraceCreateState_calls,
        List.append_assoc, List.drop_left, List.singleton_append]
    refine ⟨_, _, if_neg h, ?_⟩
    rw [hlog]
    exact ⟨rfl, constructFrames_lookups env lib storage 0 _ (w.created lib (some p)) rfl⟩

/-- Two frames and the null address at the end of the stack. -/
theorem trace_calls_main :
    let lib : Library Unit := ⟨fun _ _ => (), fun _ _ => ([], ())⟩
    let contexts : List UnwindContext := [⟨0x1010, false⟩, ⟨0x2020, false⟩, ⟨0, false⟩]
    ∃ st w', Stacktrace.construct ⟨fun _ => ⟨none, -2⟩, fun _ => none⟩ lib
        (fun _ => ⟨0, "", "", "", 0⟩) 1 contexts (some 1) (World.initial fun _ => ()) =
          some (st, w') ∧
      w'.calls = [.createState (some 1), .pcinfo (some 1) 0x2020] :=
  trace_calls _ _ _ 1 _ 1 _ (by decide)

end Trace

/-! ## Two tracers -/

/-- Two lists that go with the same list are related iff the members that go with the same one
are. -/
theorem forall₂_iff_of_forall₂ {α β γ : Type} {P : α → γ → Prop} {Q : β → γ → Prop}
    {R : α → β → Prop} {S : γ → Prop} {as : List α} {cs : List γ} (hp : List.Forall₂ P as cs)
    {bs : List β} (hq : List.Forall₂ Q bs cs)
    (hiff : ∀ a b c, c ∈ cs → P a c → Q b c → (R a b ↔ S c)) :
    List.Forall₂ R as bs ↔ ∀ c ∈ cs, S c := by
  induction hp generalizing bs with
  | nil =>
    cases hq
    simp
  | cons ha _ ih =>
    obtain _ | ⟨hb, hrest⟩ := hq
    rw [List.forall₂_cons, List.forall_mem_cons, hiff _ _ _ List.mem_cons_self ha hb,
      ih hrest fun a b c hc => hiff a b c (List.mem_cons_of_mem _ hc)]

variable {m : SourceMap}

/-- The instruction pointer and the address that libbacktrace's tracer looks up are resolved to one
entry iff they are the same address, or no line begins or ends at the instruction pointer. -/
theorem sameEntry_unwindPc_iff {c : UnwindContext} (hc : unwindGetIP c ≠ 0)
    {r r' : UIntPtr × List Report} (h : m.Answered r) (h' : m.Answered r')
    (hr : r.1 = unwindGetIP c) (hr' : r'.1 = unwindPc c) :
    m.SameEntry r r' ↔ c.ipBeforeInsn = true ∨ ¬ m.Boundary (unwindGetIP c) := by
  obtain ⟨pc, reports⟩ := r
  obtain ⟨pc', reports'⟩ := r'
  subst hr hr'
  cases hflag : c.ipBeforeInsn with
  | true =>
    have hpc : unwindPc c = unwindGetIP c := by
      simp [unwindPc, unwindGetIPInfo, hflag, unwindGetIP]
    rw [SourceMap.sameEntry_iff h h']
    simp [hpc]
  | false =>
    have hpc : unwindPc c = unwindGetIP c - 1 := by
      simp [unwindPc, unwindGetIPInfo, hflag, unwindGetIP]
    rw [hpc] at h' ⊢
    rw [SourceMap.sameEntry_pred_iff hc h h']
    simp

/-- **A stack trace resolves its frames as libbacktrace's tracer does iff no line begins or ends at
a return address collected.** `trace` and `tracer` are the lookups that the two make, with what they
are answered: the frames show the answers, and the tracer hands them to its callback. -/
theorem call_sites_iff (m : SourceMap) (env : Env) (storage : Nat → Frame) (n : SizeT)
    (contexts : List UnwindContext) (p : StatePtr) (w : World BacktraceState)
    (self : UnwindContext) (q : StatePtr) (v : World BacktraceState) :
    ∃ st w', Stacktrace.construct env m.library storage n contexts (some p) w = some (st, w') ∧
      let full := traceFrom m.library self (collected n.toNat contexts) q v
      let trace := lookups m.library w.heap (w'.calls.drop w.calls.length)
      let tracer := lookups m.library v.heap (full.2.calls.drop v.calls.length)
      List.Forall₂ (fun fr r => fr.get = r.1 ∧ fr.Shows env (fullCalls r.2)) st.getFrames trace ∧
        full.1 = tracer.flatMap (fun r => fullCalls r.2) ∧
        (List.Forall₂ m.SameEntry trace tracer ↔
          ∀ c ∈ collected n.toNat contexts,
            c.ipBeforeInsn = true ∨ ¬ m.Boundary (unwindGetIP c)) := by
  obtain ⟨hcalls, hdata⟩ := traceFrom_spec m.library self (collected n.toNat contexts) q v
  obtain ⟨st, w', hrun, htrace, hshows⟩ := trace_lookups env m.library storage n contexts p w
  refine ⟨st, w', hrun, ?_⟩
  intro full trace tracer
  have htracer : tracer = lookups m.library v.heap
      (.createState (some q) :: lookupCalls q (collected n.toNat contexts)) := by
    simp only [tracer, full, hcalls, List.drop_left]
  refine ⟨hshows, by rw [htracer]; exact hdata, ?_⟩
  -- the lookups of both go with the frames collected
  have hown : List.Forall₂ (fun r c => r.1 = unwindGetIP c ∧ m.Answered r) trace
      (collected n.toNat contexts) := by
    rw [← List.forall₂_map_right_iff (f := unwindGetIP) (R := fun r pc => r.1 = pc ∧ m.Answered r)]
    have h := @SourceMap.lookups_created_answered m p ((collected n.toNat contexts).map unwindGetIP)
      w.heap
    rw [← htrace] at h
    exact h
  have htheirs : List.Forall₂ (fun r c => r.1 = unwindPc c ∧ m.Answered r) tracer
      (collected n.toNat contexts) := by
    rw [← List.forall₂_map_right_iff (f := unwindPc) (R := fun r pc => r.1 = pc ∧ m.Answered r)]
    have h := @SourceMap.lookups_created_answered m q
      ((collected n.toNat contexts).map unwindPc) v.heap
    rw [List.map_map] at h
    rw [htracer]
    exact h
  exact forall₂_iff_of_forall₂ hown htheirs fun r r' c hc hr hr' =>
    sameEntry_unwindPc_iff (ne_zero_of_mem_collected hc) hr.2 hr'.2 hr.1 hr'.1

/-- A unit whose code is that of two lines. -/
def twoLines : SourceMap where
  ranges := [⟨0x1000, 0x2000, 0⟩]
  flat := ⟨by decide, List.pairwise_singleton _ _⟩
  units _ := ⟨0, some "callee.cpp", none,
    ⟨[⟨0x1000, some "callee.cpp", 10, 0⟩, ⟨0x1010, some "callee.cpp", 11, 1⟩], by decide⟩, []⟩

/-- A call that ends line 10, and one that ends the unit: the first frame is looked up in line 11,
and nothing is known of the second. -/
theorem call_site_missed :
    let contexts : List UnwindContext := [⟨0x1010, false⟩, ⟨0x2000, false⟩]
    let w : World BacktraceState := World.initial fun _ => .init none false
    ∃ st w', Stacktrace.construct ⟨fun _ => ⟨none, -2⟩, fun _ => none⟩ twoLines.library
        (fun _ => ⟨0, "", "", "", 0⟩) 0 contexts (some 1) w = some (st, w') ∧
      let full := traceFrom twoLines.library ⟨0x3000, false⟩ (collected 0 contexts) 1 w
      let trace := lookups twoLines.library w.heap w'.calls
      let tracer := lookups twoLines.library w.heap full.2.calls
      ¬ List.Forall₂ twoLines.SameEntry trace tracer ∧
        trace = [(0x1010, [.full ⟨0x1010, some "callee.cpp", 11, none⟩]),
          (0x2000, [.full ⟨0x2000, none, 0, none⟩])] ∧
        tracer = [(0x100f, [.full ⟨0x100f, some "callee.cpp", 10, none⟩]),
          (0x1fff, [.full ⟨0x1fff, some "callee.cpp", 11, none⟩])] := by
  intro contexts w
  rw [Stacktrace.construct_spec]
  refine ⟨_, _, rfl, ?_⟩
  intro full trace tracer
  have htrace : trace = [(0x1010, [.full ⟨0x1010, some "callee.cpp", 11, none⟩]),
      (0x2000, [.full ⟨0x2000, none, 0, none⟩])] := by decide
  have htracer : tracer = [(0x100f, [.full ⟨0x100f, some "callee.cpp", 10, none⟩]),
      (0x1fff, [.full ⟨0x1fff, some "callee.cpp", 11, none⟩])] := by decide
  refine ⟨fun hall => ?_, htrace, htracer⟩
  rw [htrace, htracer] at hall
  have hsame := (List.forall₂_cons.mp hall).1
  have hentry : twoLines.EntryAt 0x1010 0 1 :=
    ⟨⟨_, List.mem_singleton_self _, rfl, by decide⟩, by decide, by decide, by decide⟩
  exact (SourceMap.sameEntry_pred_iff (by decide) (by decide) (by decide)).mp hsame
    (.inl ⟨0, 1, hentry, .inl rfl⟩)

end Bktce
