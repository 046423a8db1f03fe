import Bktce.Stacktrace

/-!
# The global state over whole runs

`backtraceState` is documented as created once, before any call of `backtrace_pcinfo`
(`bktce.cpp:44-47`), and `Stacktrace::Stacktrace` creates it every time it has collected a frame
(`bktce.cpp:227-231`). `callee.cpp:33-41` constructs stack traces in a loop.

A run is any sequence of stack traces, calls of `simple_backtrace` and constructions of a frame by
themselves (`Op`), from the start of the program. Its calls of libbacktrace are a log of openings
and uses of states (`World.log`), and the documentation is the discipline of
`Lib.Handle.Disciplined`: a use is of a state that was created before, and after the first
successful creation there is no other and the global keeps its result.

Results:
* `step_spec`: what one operation adds to the log, and leaves in the global.
* `run_usesCreated`: in every run every use is of a state created before.
* `run_disciplined_iff`: a run is disciplined in all its states iff no operation collects a frame
  after one that has created a state.
-/

namespace Bktce

open Lib

variable {σ : Type}

/-! ## Runs -/

/-- An operation, with what the unwinder visits, what the allocation of a state returns and what
the storage of the frames held. -/
inductive Op where
  | stacktrace (numSkippedFrames : SizeT) (contexts : List UnwindContext) (mem : Option StatePtr)
      (storage : Nat → Frame)
  | simpleBacktrace (contexts : List UnwindContext) (mem : Option StatePtr) (storage : Nat → Frame)
  | frame (storage : Frame) (address : UIntPtr)

section Run

variable (env : Env) (lib : Library σ)

/-- Carry an operation out. -/
def step (w : World σ) : Op → Option (World σ)
  | .stacktrace n contexts mem storage =>
    (Stacktrace.construct env lib storage n contexts mem w).map Prod.snd
  | .simpleBacktrace contexts mem storage =>
    (simpleBacktrace env lib storage contexts mem w).map Prod.snd
  | .frame storage address => some (Frame.construct env lib storage address w).2

/-- Carry operations out in order. -/
def run (w : World σ) : List Op → Option (World σ)
  | [] => some w
  | op :: ops => (step env lib w op).bind fun w => run w ops

theorem run_concat (op : Op) (ops : List Op) : ∀ w : World σ,
    run env lib w (ops ++ [op]) = (run env lib w ops).bind fun w => step env lib w op := by
  induction ops with
  | nil =>
    intro w
    simp only [List.nil_append, run, Option.bind_some, Option.bind_fun_some]
  | cons o ops ih =>
    intro w
    simp only [List.cons_append, run, ih, Option.bind_assoc]

end Run

/-! ## One operation -/

/-- The addresses an operation collects. -/
def Op.ips : Op → List UIntPtr
  | .stacktrace n contexts _ _ => captured n.toNat (contexts.map unwindGetIP)
  | .simpleBacktrace contexts _ _ => captured 2 (contexts.map unwindGetIP)
  | .frame _ _ => []

/-- What the allocation of a state returns during an operation. -/
def Op.mem : Op → Option StatePtr
  | .stacktrace _ _ mem _ => mem
  | .simpleBacktrace _ mem _ => mem
  | .frame _ _ => none

/-- The operation collects a frame. -/
def Op.collects (op : Op) : Prop := op.ips ≠ []

/-- The operation collects a frame, and the state it then asks for is created. -/
def Op.creates (op : Op) : Prop := op.collects ∧ op.mem ≠ none

/-- Uses of the state `p`, if it is one. -/
def uses (p : Option StatePtr) (k : Nat) : List (Handle.Event StatePtr) :=
  match p with
  | some p => List.replicate k (.used (some p))
  | none => []

section Step

variable (env : Env) (lib : Library σ)

/-- What a stack trace makes of the world. -/
theorem step_stacktrace (n : SizeT) (contexts : List UnwindContext) (mem : Option StatePtr)
    (storage : Nat → Frame) (w : World σ) :
    step env lib w (.stacktrace n contexts mem storage) =
      some (if captured n.toNat (contexts.map unwindGetIP) = [] then w
        else (constructFrames env lib storage 0 (captured n.toNat (contexts.map unwindGetIP))
          (w.created lib mem)).2) := by
  rw [step, Stacktrace.construct_spec]
  by_cases hips : captured n.toNat (contexts.map unwindGetIP) = []
  · simp only [if_pos hips, Option.map_some]
  · simp only [if_neg hips, Option.map_some]

/-- `simple_backtrace` makes of the world what the stack trace in it makes. -/
theorem step_simpleBacktrace (contexts : List UnwindContext) (mem : Option StatePtr)
    (storage : Nat → Frame) (w : World σ) :
    step env lib w (.simpleBacktrace contexts mem storage) =
      step env lib w (.stacktrace 2 contexts mem storage) := by
  rw [step, step, simpleBacktrace, Option.map_map]
  congr 1
  funext r
  simp only [Function.comp]
  split <;> rfl

theorem log_append_no_uses (w : World σ) : ∃ k, w.log = w.log ++ uses w.backtraceState k :=
  ⟨0, by cases w.backtraceState <;> simp [uses]⟩

theorem step_stacktrace_spec (n : SizeT) (contexts : List UnwindContext) (mem : Option StatePtr)
    (storage : Nat → Frame) (w : World σ) :
    ∃ w', step env lib w (.stacktrace n contexts mem storage) = some w' ∧
      (captured n.toNat (contexts.map unwindGetIP) ≠ [] → w'.backtraceState = mem ∧
        w'.log = w.log ++ .opened mem ::
          uses mem (captured n.toNat (contexts.map unwindGetIP)).length) ∧
      (¬ captured n.toNat (contexts.map unwindGetIP) ≠ [] →
        w'.backtraceState = w.backtraceState ∧ ∃ k, w'.log = w.log ++ uses w.backtraceState k) := by
  refine ⟨_, step_stacktrace env lib n contexts mem storage w, fun hc => ?_, fun hc => ?_⟩
  · rw [if_neg hc]
    refine ⟨constructFrames_backtraceState .., ?_⟩
    unfold World.log
    rw [constructFrames_calls]
    cases mem with
    | none => simp [World.created, LibCall.event, uses]
    | some p => simp [World.created, LibCall.event, uses, Function.comp_def]
  · rw [if_pos (not_not.mp hc)]
    exact ⟨rfl, log_append_no_uses w⟩

/-- **One operation** does not fault. One that collects a frame creates a state, uses it if there
is one, and leaves it in the global; the others leave the global and use it at most. -/
theorem step_spec (w : World σ) (op : Op) :
    ∃ w', step env lib w op = some w' ∧
      (op.collects → w'.backtraceState = op.mem ∧
        w'.log = w.log ++ .opened op.mem :: uses op.mem op.ips.length) ∧
      (¬ op.collects → w'.backtraceState = w.backtraceState ∧
        ∃ k, w'.log = w.log ++ uses w.backtraceState k) := by
  cases op with
  | stacktrace n contexts mem storage => exact step_stacktrace_spec env lib n contexts mem storage w
  | simpleBacktrace contexts mem storage =>
    rw [step_simpleBacktrace]
    exact step_stacktrace_spec env lib 2 contexts mem storage w
  | frame storage address =>
    refine ⟨_, rfl, fun hc => absurd rfl hc, fun _ => ⟨Frame.construct_backtraceState .., 1, ?_⟩⟩
    unfold World.log
    rw [Frame.construct_calls]
    cases w.backtraceState <;> simp [uses, LibCall.event]

theorem step_extends_log {w w' : World σ} {op : Op} (h : step env lib w op = some w') :
    w.log <+: w'.log := by
  obtain ⟨w'', hrun, hcol, hnot⟩ := step_spec env lib w op
  obtain rfl := Option.some.inj (h.symm.trans hrun)
  by_cases hc : op.collects
  · exact ⟨_, (hcol hc).2.symm⟩
  · obtain ⟨k, hk⟩ := (hnot hc).2
    exact ⟨_, hk.symm⟩

/-- Every use is of a state created before, and the global holds only such a state. -/
structure UsesCreated (w : World σ) : Prop where
  uses : Handle.UsesOpened w.log
  held : Handle.Held w.log w.backtraceState

theorem usesOpened_append_uses {log : List (Handle.Event StatePtr)} {p : Option StatePtr}
    (h : Handle.UsesOpened log) (hp : Handle.Held log p) (k : Nat) :
    Handle.UsesOpened (log ++ uses p k) := by
  cases p with
  | none => rwa [uses, List.append_nil]
  | some p => exact h.append_used hp k

theorem keepsFirst_append_uses {log : List (Handle.Event StatePtr)} {p : Option StatePtr}
    (h : Handle.KeepsFirst log p) (k : Nat) : Handle.KeepsFirst (log ++ uses p k) p := by
  cases p with
  | none => rwa [uses, List.append_nil]
  | some p => exact h.append_used (some p) k

theorem append_opened_uses (log : List (Handle.Event StatePtr)) (r : Option StatePtr) (k : Nat) :
    log ++ .opened r :: uses r k = log ++ [.opened r] ++ uses r k := by
  rw [List.append_assoc, List.singleton_append]

/-- Every operation keeps it, whatever the global is. -/
theorem step_usesCreated {w : World σ} (h : UsesCreated w) (op : Op) :
    ∃ w', step env lib w op = some w' ∧ UsesCreated w' := by
  obtain ⟨w', hrun, hcol, hnot⟩ := step_spec env lib w op
  refine ⟨w', hrun, ?_⟩
  by_cases hc : op.collects
  · obtain ⟨hstate, hlog⟩ := hcol hc
    rw [append_opened_uses] at hlog
    have hheld := Handle.held_concat_opened w.log op.mem
    constructor
    · rw [hlog]
      exact usesOpened_append_uses (h.uses.concat_opened op.mem) hheld _
    · rw [hlog, hstate]
      exact hheld.append _
  · obtain ⟨hstate, k, hlog⟩ := hnot hc
    constructor
    · rw [hlog]
      exact usesOpened_append_uses h.uses h.held k
    · rw [hlog, hstate]
      exact h.held.append _

/-- An operation keeps the first state if it does not collect a frame when there is one. -/
theorem step_keepsFirst {w w' : World σ} {op : Op} (hrun : step env lib w op = some w')
    (h : Handle.KeepsFirst w.log w.backtraceState)
    (hop : w.backtraceState ≠ none → ¬ op.collects) :
    Handle.KeepsFirst w'.log w'.backtraceState := by
  obtain ⟨w'', hrun', hcol, hnot⟩ := step_spec env lib w op
  obtain rfl := Option.some.inj (hrun.symm.trans hrun')
  by_cases hc : op.collects
  · obtain ⟨hstate, hlog⟩ := hcol hc
    have hnull : w.backtraceState = none := not_not.mp fun hne => hop hne hc
    rw [hnull] at h
    rw [hlog, hstate, append_opened_uses]
    exact keepsFirst_append_uses (h.concat_opened op.mem) _
  · obtain ⟨hstate, k, hlog⟩ := hnot hc
    rw [hlog, hstate]
    exact keepsFirst_append_uses h k

end Step

/-! ## Whole runs -/

section Runs

variable (env : Env) (lib : Library σ)

/-- **In every run** every use is of a state created before. -/
theorem run_usesCreated (ops : List Op) : ∀ {w : World σ}, UsesCreated w →
    ∃ w', run env lib w ops = some w' ∧ UsesCreated w' := by
  induction ops with
  | nil => exact fun h => ⟨_, rfl, h⟩
  | cons op ops ih =>
    intro w h
    obtain ⟨w', hstep, h'⟩ := step_usesCreated env lib h op
    obtain ⟨w'', hrun, h''⟩ := ih h'
    exact ⟨w'', by rw [run, hstep, Option.bind_some, hrun], h''⟩

theorem run_extends_log (ops : List Op) : ∀ {w w' : World σ}, run env lib w ops = some w' →
    w.log <+: w'.log := by
  induction ops with
  | nil =>
    intro w w' h
    exact Option.some.inj h ▸ List.prefix_rfl
  | cons op ops ih =>
    intro w w' h
    obtain ⟨w₁, hstep, hrun⟩ := Option.bind_eq_some_iff.mp h
    exact (step_extends_log env lib hstep).trans (ih hrun)

/-- A creation stays in the log. -/
theorem opened_mem_log {ops : List Op} {op : Op} (hop : op ∈ ops) (hc : op.creates) :
    ∀ {w w' : World σ}, run env lib w ops = some w' →
      ∃ p, Handle.Event.opened (some p) ∈ w'.log := by
  induction ops with
  | nil => exact absurd hop List.not_mem_nil
  | cons o ops ih =>
    intro w w' h
    obtain ⟨w₁, hstep, hrun⟩ := Option.bind_eq_some_iff.mp h
    rcases List.mem_cons.mp hop with rfl | hop
    · obtain ⟨p, hp⟩ := Option.ne_none_iff_exists'.mp hc.2
      obtain ⟨w₂, hstep', hcol, -⟩ := step_spec env lib w op
      obtain rfl := Option.some.inj (hstep.symm.trans hstep')
      refine ⟨p, (run_extends_log env lib ops hrun).subset ?_⟩
      rw [(hcol hc.1).2, hp]
      simp
    · exact ih hop hrun

/-- A run keeps the first state if no operation collects a frame after one that has created a
state. -/
theorem run_keepsFirst (ops : List Op) : ∀ {w w' : World σ}, run env lib w ops = some w' →
    ops.Pairwise (fun a b => a.creates → ¬ b.collects) →
    Handle.KeepsFirst w.log w.backtraceState →
    (w.backtraceState ≠ none → ∀ op ∈ ops, ¬ op.collects) →
      Handle.KeepsFirst w'.log w'.backtraceState := by
  induction ops with
  | nil =>
    intro w w' h _ hk _
    exact Option.some.inj h ▸ hk
  | cons op ops ih =>
    intro w w' h hpair hk hnone
    obtain ⟨w₁, hstep, hrun⟩ := Option.bind_eq_some_iff.mp h
    rw [List.pairwise_cons] at hpair
    obtain ⟨w₂, hstep', hcol, hnot⟩ := step_spec env lib w op
    obtain rfl := Option.some.inj (hstep.symm.trans hstep')
    refine ih hrun hpair.2 (step_keepsFirst env lib hstep hk fun hne => hnone hne op (by simp))
      fun hne o ho => ?_
    by_cases hc : op.collects
    · rw [(hcol hc).1] at hne
      exact hpair.1 o ho ⟨hc, hne⟩
    · rw [(hnot hc).1] at hne
      exact hnone hne o (List.mem_cons_of_mem _ ho)

/-- **A run is disciplined in all its states iff no operation collects a frame after one that has
created a state.** -/
theorem run_disciplined_iff (heap : StatePtr → σ) (ops : List Op) :
    (∀ pre, pre <+: ops → ∃ w, run env lib (World.initial heap) pre = some w ∧
        Handle.Disciplined w.log w.backtraceState) ↔
      ops.Pairwise fun a b => a.creates → ¬ b.collects := by
  have hstart : UsesCreated (World.initial heap) := ⟨Handle.usesOpened_nil, Handle.held_nil⟩
  constructor
  · intro h
    rw [List.pairwise_iff_getElem]
    intro i j hi hj hij hcreates hcollects
    obtain ⟨w', hrun', hdisc⟩ := h (ops.take (j + 1)) (List.take_prefix _ _)
    rw [List.take_succ_eq_append_getElem hj, run_concat] at hrun'
    obtain ⟨w, hrun, hstep⟩ := Option.bind_eq_some_iff.mp hrun'
    have hmem : ops[i] ∈ ops.take j := List.mem_take_iff_getElem.mpr ⟨i, by omega, rfl⟩
    obtain ⟨p, hp⟩ := opened_mem_log env lib hmem hcreates hrun
    obtain ⟨w'', hstep', hcol, -⟩ := step_spec env lib w ops[j]
    obtain rfl := Option.some.inj (hstep.symm.trans hstep')
    have hkeeps := hdisc.keeps
    rw [(hcol hcollects).2] at hkeeps
    exact Handle.not_keepsFirst_of_reopened hp _ _ hkeeps
  · intro h pre hpre
    obtain ⟨w, hrun, huses⟩ := run_usesCreated env lib pre hstart
    exact ⟨w, hrun, huses.uses, run_keepsFirst env lib pre hrun (h.sublist hpre.sublist)
      Handle.keepsFirst_nil fun hne => absurd rfl hne⟩

end Runs

/-- A call of `simple_backtrace` from one frame, when the allocation of a state returns `p`. -/
def simpleBacktraceOnce (p : StatePtr) : Op :=
  .simpleBacktrace [⟨0x401080, false⟩, ⟨0x4010c0, false⟩, ⟨0x401136, false⟩] (some p)
    fun _ => ⟨0, "", "", "", 0⟩

/-- Two calls of `simple_backtrace` create two states, and the second replaces the first. -/
theorem second_state_created :
    let env : Env := ⟨fun _ => ⟨none, -2⟩, fun _ => none⟩
    let lib : Library Unit := ⟨fun _ _ => (), fun _ _ => ([], ())⟩
    let ops := [simpleBacktraceOnce 1, simpleBacktraceOnce 2]
    (∃ w, run env lib (World.initial fun _ => ()) ops = some w ∧ w.backtraceState = some 2 ∧
      w.calls = [.createState (some 1), .pcinfo (some 1) 0x401136, .createState (some 2),
        .pcinfo (some 2) 0x401136]) ∧
    ¬ ∀ pre, pre <+: ops → ∃ w, run env lib (World.initial fun _ => ()) pre = some w ∧
      Handle.Disciplined w.log w.backtraceState := by
  intro env lib ops
  have hrun : ∃ w, run env lib (World.initial fun _ => ()) ops = some w ∧
      w.backtraceState = some 2 ∧ w.calls = [.createState (some 1), .pcinfo (some 1) 0x401136,
        .createState (some 2), .pcinfo (some 2) 0x401136] := by
    simp only [ops, simpleBacktraceOnce, run, step_simpleBacktrace, step_stacktrace,
      Option.bind_some]
    exact ⟨_, rfl, rfl, rfl⟩
  refine ⟨hrun, fun h => ?_⟩
  obtain ⟨w, hw, hstate, hcalls⟩ := hrun
  obtain ⟨w', hw', hdisc⟩ := h ops List.prefix_rfl
  obtain rfl := Option.some.inj (hw.symm.trans hw')
  have hfirst := (hdisc.keeps 0 1 (by rw [World.log, hcalls]; rfl)).2
  rw [hstate] at hfirst
  exact absurd hfirst (by decide)

end Bktce
