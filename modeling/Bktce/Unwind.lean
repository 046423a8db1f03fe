import Bktce.Machine
import Mathlib.Data.List.TakeWhile

/-!
# Capturing the stack

Model of `struct UnwindState` and `unwindCallback` (`bktce.cpp:83-133`), and of the part of
`Stacktrace::Stacktrace` that sets the buffer up and runs the unwinder (`bktce.cpp:202-211`).

* `m_current` and `m_end` point into the buffer: the model holds the buffer and their offsets from
  its start. A load or a store outside the buffer has no result.
* What a capture is for is `captured`: of the addresses up to the first null one, the first 512
  after the skipped ones.

Results:
* `unwindCallback_keeps`: what one call does, from the invariant `Capturing` over the frames
  visited so far.
* `capture_spec`: a capture does not fault, and leaves `captured` and null pointers in the buffer.
* `unwindCallback_stores`: every store is inside the buffer, and the skip counter is decremented
  only when it is not zero.
-/

namespace Bktce

open Lib

/-! ## The callback -/

/-- `s_maxStackSize`. -/
def maxStackSize : Nat := 512

/-- `UnwindState`, with the buffer its pointers point into. -/
structure UnwindState where
  numSkippedFrames : SizeT
  buf : List UIntPtr
  current : Nat
  endPtr : Nat

/-- `*p = v`, for a pointer `i` elements after the start of `buf`. -/
def storeAt (buf : List UIntPtr) (i : Nat) (v : UIntPtr) : Option (List UIntPtr) :=
  if i < buf.length then some (buf.set i v) else none

/-- `unwindCallback`; a null `i_state` is `none`. -/
def unwindCallback (context : UnwindContext) :
    Option UnwindState → Option (UnwindReasonCode × Option UnwindState)
  | none => some (.endOfStack, none)
  | some state =>
    if state.numSkippedFrames ≠ 0 then
      let state := { state with numSkippedFrames := state.numSkippedFrames - 1 }
      if unwindGetIP context ≠ 0 then some (.noReason, some state)
      else some (.endOfStack, some state)
    else
      (storeAt state.buf state.current (unwindGetIP context)).bind fun buf =>
        let state := { state with buf, current := state.current + 1 }
        state.buf[state.current - 1]?.bind fun stored =>
          if stored = 0 ∨ state.current = state.endPtr then some (.endOfStack, some state)
          else some (.noReason, some state)

/-- The state `Stacktrace::Stacktrace` hands to the unwinder. -/
def UnwindState.start (numSkippedFrames : SizeT) : UnwindState where
  numSkippedFrames
  buf := List.replicate maxStackSize 0
  current := 0
  endPtr := maxStackSize

/-! ## What a capture is for -/

/-- Of the addresses before the first null one, the first `maxStackSize` after `n`. -/
def captured (n : Nat) (ips : List UIntPtr) : List UIntPtr :=
  ((ips.takeWhile (· ≠ 0)).drop n).take maxStackSize

theorem captured_length_le (n : Nat) (ips : List UIntPtr) :
    (captured n ips).length ≤ maxStackSize := List.length_take_le _ _

theorem ne_zero_of_mem_captured {n : Nat} {ips : List UIntPtr} {ip : UIntPtr}
    (h : ip ∈ captured n ips) : ip ≠ 0 := by
  have := List.mem_takeWhile_imp (List.mem_of_mem_drop (List.mem_of_mem_take h))
  simpa using this

section Nonnull

variable {n : Nat} {pre : List UIntPtr} (hpre : ∀ ip ∈ pre, ip ≠ 0)

include hpre

theorem takeWhile_append_of_nonnull (rest : List UIntPtr) :
    (pre ++ rest).takeWhile (· ≠ 0) = pre ++ rest.takeWhile (· ≠ 0) :=
  List.takeWhile_append_of_pos fun ip hip => by simpa using hpre ip hip

theorem captured_of_nonnull (hroom : pre.length - n ≤ maxStackSize) :
    captured n pre = pre.drop n := by
  have h := takeWhile_append_of_nonnull hpre []
  rw [List.append_nil, List.takeWhile_nil, List.append_nil] at h
  unfold captured
  rw [h]
  exact List.take_of_length_le (by rw [List.length_drop]; exact hroom)

/-- Nothing after a null pointer is captured. -/
theorem captured_append_null (hroom : pre.length - n ≤ maxStackSize) (rest : List UIntPtr) :
    captured n (pre ++ 0 :: rest) = pre.drop n := by
  unfold captured
  rw [takeWhile_append_of_nonnull hpre, List.takeWhile_cons_of_neg (by simp), List.append_nil]
  exact List.take_of_length_le (by rw [List.length_drop]; exact hroom)

/-- Nothing after a full capture is captured. -/
theorem captured_append_of_full (hfull : pre.length = n + maxStackSize) (rest : List UIntPtr) :
    captured n (pre ++ rest) = pre.drop n := by
  unfold captured
  rw [takeWhile_append_of_nonnull hpre, List.drop_append_of_le_length (by omega)]
  exact List.take_left' (by rw [List.length_drop]; omega)

end Nonnull

/-! ## The invariant -/

/-- The buffer holds `xs`, then null pointers. -/
def Holds (buf xs : List UIntPtr) : Prop :=
  buf = xs ++ List.replicate (maxStackSize - xs.length) 0

theorem Holds.length {buf xs : List UIntPtr} (h : Holds buf xs) (hxs : xs.length ≤ maxStackSize) :
    buf.length = maxStackSize := by
  rw [h, List.length_append, List.length_replicate]
  omega

/-- Storing after `xs`. -/
theorem Holds.set {buf xs : List UIntPtr} (h : Holds buf xs) (hxs : xs.length < maxStackSize)
    (v : UIntPtr) : Holds (buf.set xs.length v) (xs ++ [v]) := by
  have hroom : maxStackSize - xs.length = (maxStackSize - (xs ++ [v]).length) + 1 := by
    rw [List.length_append, List.length_singleton]
    omega
  unfold Holds at h ⊢
  rw [h, hroom, List.set_append_right _ _ (Nat.le_refl _), Nat.sub_self, List.replicate_succ,
    List.set_cons_zero, List.append_assoc]
  rfl

/-- Storing a null pointer changes nothing. -/
theorem Holds.set_null {buf xs : List UIntPtr} (h : Holds buf xs) :
    buf.set xs.length 0 = buf := by
  unfold Holds at h
  cases hroom : maxStackSize - xs.length with
  | zero =>
    rw [hroom, List.replicate_zero, List.append_nil] at h
    rw [h, List.set_eq_of_length_le (Nat.le_refl _)]
  | succ k =>
    rw [h, hroom, List.set_append_right _ _ (Nat.le_refl _), Nat.sub_self, List.replicate_succ,
      List.set_cons_zero]

/-- The invariant of a capture over the frames visited so far. -/
structure Capturing (n : Nat) (visited : List UnwindContext) (state : UnwindState) : Prop where
  nonnull : ∀ ip ∈ visited.map unwindGetIP, ip ≠ 0
  skip : state.numSkippedFrames.toNat = n - visited.length
  current : state.current = visited.length - n
  room : state.current < maxStackSize
  holds : Holds state.buf ((visited.map unwindGetIP).drop n)
  endPtr : state.endPtr = maxStackSize

/-- What a capture that ends early leaves: nothing more would be captured of a longer stack. -/
def Captured (n : Nat) (visited : List UnwindContext) (state : UnwindState) : Prop :=
  ∀ contexts, visited <+: contexts → Holds state.buf (captured n (contexts.map unwindGetIP))

theorem capturing_start (n : SizeT) : Capturing n.toNat [] (UnwindState.start n) where
  nonnull := by simp
  skip := rfl
  current := (Nat.zero_sub _).symm
  room := Nat.zero_lt_succ _
  holds := by
    rw [List.map_nil, List.drop_nil]
    rfl
  endPtr := rfl

namespace Capturing

variable {n : Nat} {visited : List UnwindContext} {state : UnwindState}

theorem length_drop (h : Capturing n visited state) :
    ((visited.map unwindGetIP).drop n).length = state.current := by
  rw [List.length_drop, List.length_map, h.current]

theorem buf_length (h : Capturing n visited state) : state.buf.length = maxStackSize :=
  h.holds.length (h.length_drop ▸ h.room.le)

theorem skip_eq_zero_iff (h : Capturing n visited state) :
    state.numSkippedFrames = 0 ↔ n ≤ visited.length := by
  rw [← BitVec.toNat_inj, h.skip]
  simp only [BitVec.ofNat_eq_ofNat, BitVec.toNat_ofNat, Nat.zero_mod]
  omega

theorem nonnull_concat (h : Capturing n visited state) {c : UnwindContext}
    (hc : unwindGetIP c ≠ 0) : ∀ ip ∈ (visited ++ [c]).map unwindGetIP, ip ≠ 0 := by
  intro ip hip
  rw [List.map_append, List.mem_append] at hip
  rcases hip with hip | hip
  · exact h.nonnull ip hip
  · rw [List.mem_singleton.mp hip]
    exact hc

/-- A stack that ends here, at a null pointer. -/
theorem captured_of_null (h : Capturing n visited state) {c : UnwindContext}
    (hc : unwindGetIP c = 0) {buf : List UIntPtr} (hbuf : buf = state.buf) {s k e} :
    Captured n (visited ++ [c]) ⟨s, buf, k, e⟩ := by
  rintro contexts ⟨rest, rfl⟩
  have hroom : (visited.map unwindGetIP).length - n ≤ maxStackSize := by
    have := h.room
    rw [h.current] at this
    rw [List.length_map]
    omega
  have hcap := captured_append_null h.nonnull hroom (rest.map unwindGetIP)
  rw [List.append_assoc, List.map_append, List.singleton_append, List.map_cons, hc, hcap]
  exact hbuf ▸ h.holds

end Capturing

/-- A step of a capture that has not begun to store. -/
theorem unwindCallback_skip {n : Nat} {visited : List UnwindContext} {state : UnwindState}
    (h : Capturing n visited state) (hskip : state.numSkippedFrames ≠ 0) (c : UnwindContext) :
    ∃ k s', unwindCallback c (some state) = some (k, some s') ∧
      s'.numSkippedFrames.toNat + 1 = state.numSkippedFrames.toNat ∧
      (k = .noReason → Capturing n (visited ++ [c]) s') ∧
      (k ≠ .noReason → Captured n (visited ++ [c]) s') := by
  have hlt : visited.length < n := Nat.lt_of_not_le fun hle => hskip (h.skip_eq_zero_iff.mpr hle)
  have hs := h.skip
  have hsub : (state.numSkippedFrames - 1).toNat = state.numSkippedFrames.toNat - 1 := by
    rw [BitVec.toNat_sub_of_le (by rw [BitVec.le_def]; simp; omega)]
    rfl
  have hrun : unwindCallback c (some state) =
      if unwindGetIP c ≠ 0 then
        some (.noReason, some { state with numSkippedFrames := state.numSkippedFrames - 1 })
      else some (.endOfStack, some { state with numSkippedFrames := state.numSkippedFrames - 1 }) :=
    if_pos hskip
  rw [hrun]
  by_cases hc : unwindGetIP c ≠ 0
  · refine ⟨_, _, if_pos hc, by simp only [hsub]; omega, fun _ => ?_, fun hk => absurd rfl hk⟩
    have hdrop : ((visited ++ [c]).map unwindGetIP).drop n = (visited.map unwindGetIP).drop n := by
      rw [List.drop_eq_nil_of_le (by simp; omega), List.drop_eq_nil_of_le (by simp; omega)]
    exact
      { nonnull := h.nonnull_concat hc
        skip := by simp only [hsub, List.length_append, List.length_singleton]; omega
        current := by
          have := h.current
          simp only [List.length_append, List.length_singleton]
          omega
        room := h.room
        holds := by rw [hdrop]; exact h.holds
        endPtr := h.endPtr }
  · refine ⟨_, _, if_neg hc, by simp only [hsub]; omega, fun hk => absurd hk (by simp), fun _ => ?_⟩
    exact h.captured_of_null (not_not.mp hc) rfl

/-- A step of a capture that stores. -/
theorem unwindCallback_store {n : Nat} {visited : List UnwindContext} {state : UnwindState}
    (h : Capturing n visited state) (hskip : state.numSkippedFrames = 0) (c : UnwindContext) :
    ∃ k s', unwindCallback c (some state) = some (k, some s') ∧
      s'.numSkippedFrames = 0 ∧ s'.buf = state.buf.set state.current (unwindGetIP c) ∧
      (k = .noReason → Capturing n (visited ++ [c]) s') ∧
      (k ≠ .noReason → Captured n (visited ++ [c]) s') := by
  have hle := h.skip_eq_zero_iff.mp hskip
  have hcur := h.current
  have hroom := h.room
  have hin : state.current < state.buf.length := h.buf_length.symm ▸ hroom
  have hget : (state.buf.set state.current (unwindGetIP c))[state.current + 1 - 1]? =
      some (unwindGetIP c) := by
    rw [Nat.add_sub_cancel, List.getElem?_set_self hin]
  have hrun : unwindCallback c (some state) =
      if unwindGetIP c = 0 ∨ state.current + 1 = maxStackSize then
        some (.endOfStack, some ⟨state.numSkippedFrames,
          state.buf.set state.current (unwindGetIP c), state.current + 1, state.endPtr⟩)
      else some (.noReason, some ⟨state.numSkippedFrames,
          state.buf.set state.current (unwindGetIP c), state.current + 1, state.endPtr⟩) := by
    simp only [unwindCallback, hskip, ne_eq, not_true_eq_false, if_false, storeAt, if_pos hin,
      Option.bind_some, hget, h.endPtr]
  have hset := h.holds.set (h.length_drop.symm ▸ hroom) (unwindGetIP c)
  have hnull := h.holds.set_null
  rw [h.length_drop] at hset hnull
  have hdrop : ((visited ++ [c]).map unwindGetIP).drop n =
      (visited.map unwindGetIP).drop n ++ [unwindGetIP c] := by
    rw [List.map_append, List.drop_append_of_le_length (by rw [List.length_map]; exact hle)]
    rfl
  rw [hrun]
  by_cases hstop : unwindGetIP c = 0 ∨ state.current + 1 = maxStackSize
  · refine ⟨_, _, if_pos hstop, hskip, rfl, fun hk => absurd hk (by simp), fun _ => ?_⟩
    by_cases hc : unwindGetIP c = 0
    · exact h.captured_of_null hc (by rw [hc]; exact hnull)
    · -- the buffer is full
      have hfull := hstop.resolve_left hc
      rintro contexts ⟨rest, rfl⟩
      have hlen : ((visited ++ [c]).map unwindGetIP).length = n + maxStackSize := by
        simp only [List.length_map, List.length_append, List.length_singleton]
        omega
      rw [List.map_append, captured_append_of_full (h.nonnull_concat hc) hlen, hdrop]
      exact hset
  · rw [not_or] at hstop
    refine ⟨_, _, if_neg (not_or.mpr hstop), hskip, rfl, fun _ => ?_, fun hk => absurd rfl hk⟩
    exact
      { nonnull := h.nonnull_concat hstop.1
        skip := by
          have := h.skip
          simp only [List.length_append, List.length_singleton]
          omega
        current := by simp only [List.length_append, List.length_singleton]; omega
        room := by have := hstop.2; simp only; omega
        holds := by rw [hdrop]; exact hset
        endPtr := h.endPtr }

/-! ## Captures -/

/-- The invariant, of the state the callback is given. -/
def CapturingState (n : Nat) (visited : List UnwindContext) (i_state : Option UnwindState) : Prop :=
  ∃ state, i_state = some state ∧ Capturing n visited state

/-- What the end of a capture leaves in the state the callback is given. -/
def CapturedState (n : Nat) (visited : List UnwindContext) (i_state : Option UnwindState) : Prop :=
  ∃ state, i_state = some state ∧ Captured n visited state

/-- **One call**: it does not fault, keeps the invariant when it asks for the next frame, and has
captured all there is to capture when it does not. -/
theorem unwindCallback_keeps (n : Nat) (contexts : List UnwindContext) :
    Visit.Keeps .noReason unwindCallback contexts (CapturingState n) (CapturedState n) := by
  rintro visited c _ - ⟨state, rfl, h⟩
  by_cases hskip : state.numSkippedFrames = 0
  · obtain ⟨k, s', hrun, -, -, hok, hstop⟩ := unwindCallback_store h hskip c
    exact ⟨k, some s', hrun, fun hk => ⟨s', rfl, hok hk⟩, fun hk => ⟨s', rfl, hstop hk⟩⟩
  · obtain ⟨k, s', hrun, -, hok, hstop⟩ := unwindCallback_skip h hskip c
    exact ⟨k, some s', hrun, fun hk => ⟨s', rfl, hok hk⟩, fun hk => ⟨s', rfl, hstop hk⟩⟩

/-- **A capture does not fault**, and leaves the captured addresses and null pointers. -/
theorem capture_spec (n : SizeT) (contexts : List UnwindContext) :
    ∃ k state, unwindBacktrace unwindCallback contexts (some (UnwindState.start n)) =
        some (k, some state) ∧
      Holds state.buf (captured n.toNat (contexts.map unwindGetIP)) := by
  obtain ⟨k, s', hrun, hend⟩ := Visit.visit_rule (unwindCallback_keeps n.toNat contexts)
    ⟨UnwindState.start n, rfl, capturing_start n⟩
  rcases hend with ⟨-, state, rfl, h⟩ | ⟨-, done, hdone, state, rfl, h⟩
  · refine ⟨k, state, hrun, ?_⟩
    have hroom : (contexts.map unwindGetIP).length - n.toNat ≤ maxStackSize := by
      have := h.room
      rw [h.current] at this
      rw [List.length_map]
      omega
    rw [captured_of_nonnull h.nonnull hroom]
    exact h.holds
  · exact ⟨k, state, hrun, h contexts hdone⟩

/-- **Every call made**: it decrements the skip counter when that is not zero, and else stores
inside the buffer. -/
theorem unwindCallback_stores (n : SizeT) (contexts : List UnwindContext) :
    ∀ call ∈ Visit.visitCalls .noReason unwindCallback contexts (some (UnwindState.start n)),
      ∃ before after, call.before = some before ∧ call.after = some after ∧
        before.buf.length = maxStackSize ∧
        ((before.numSkippedFrames ≠ 0 ∧
            after.numSkippedFrames.toNat + 1 = before.numSkippedFrames.toNat) ∨
          (before.numSkippedFrames = 0 ∧ after.numSkippedFrames = 0 ∧
            before.current < maxStackSize ∧
            after.buf = before.buf.set before.current (unwindGetIP call.item))) := by
  intro call hcall
  obtain ⟨done, k, -, ⟨before, hbefore, h⟩, hrun⟩ := Visit.visitCalls_rule
    (unwindCallback_keeps n.toNat contexts) ⟨UnwindState.start n, rfl, capturing_start n⟩ call hcall
  rw [hbefore] at hrun
  by_cases hskip : before.numSkippedFrames = 0
  · obtain ⟨k', s', hrun', hs, hbuf, -, -⟩ := unwindCallback_store h hskip call.item
    rw [hrun', Option.some.injEq, Prod.mk.injEq] at hrun
    exact ⟨before, s', hbefore, hrun.2.symm, h.buf_length, Or.inr ⟨hskip, hs, h.room, hbuf⟩⟩
  · obtain ⟨k', s', hrun', hs, -, -⟩ := unwindCallback_skip h hskip call.item
    rw [hrun', Option.some.injEq, Prod.mk.injEq] at hrun
    exact ⟨before, s', hbefore, hrun.2.symm, h.buf_length, Or.inl ⟨hskip, hs⟩⟩

end Bktce
