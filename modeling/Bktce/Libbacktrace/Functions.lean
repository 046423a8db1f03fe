import Bktce.Libbacktrace.FunctionInfo

/-!
# The functions of a unit

What `read_function_info` makes of the entries of a unit, without pointers and vectors:
`Dies.functions` are the ranges that a level of entries adds, with their functions.

* An entry that is kept adds its ranges, merged where they touch. The functions inlined below it, up
  to the next function that is kept, are its own, sorted; the other functions below it are added
  behind.
* An entry that is not kept adds what is below it.

Results:

* `Adds.trans`, `adds_leaf`, `adds_node`: what a step adds, and what was there before does not
  change.
* `readUnitFunctions_complete`: the functions of the entries are added to the vector.
* `readFunctionInfo_around`: what the table of the unit gives for a pc.
-/

namespace Bktce.Libbacktrace

open Bktce.Lib Buf

/-! ## The functions of entries -/

/-- The range with another target. -/
def AddrRange.withTarget {α β : Type} (b : β) (r : AddrRange α) : AddrRange β := ⟨r.low, r.high, b⟩

/-- What the ranges of one target are merged to. -/
def mergedRanges (base : UIntPtr) (rs : List (UIntPtr × UIntPtr)) : List (AddrRange Unit) :=
  addRanges base () rs []

/-- Ranges, and whether they are those of an inlined function. -/
abbrev Tagged (α : Type) := List (Bool × AddrRange α)

section Tagged

variable {α β : Type}

def allOf (xs : Tagged α) : List (AddrRange α) := xs.map (·.2)

def inlinedOf (xs : Tagged α) : List (AddrRange α) := allOf (xs.filter (·.1))

def outerOf (xs : Tagged α) : Tagged α := xs.filter (!·.1)

def retarget (f : AddrRange α → AddrRange β) (xs : Tagged α) : Tagged β :=
  xs.map fun x => (x.1, f x.2)

end Tagged

/-- The function of an entry, with what is inlined below it. -/
def FunctionRec.toFunction (f : FunctionRec) (inlined : List FunctionAddrs) : Function :=
  .mk (f.name.getD "") f.callerFilename f.callerLineno
    (backtraceQsort functionAddrsCompare inlined).1

/-- The ranges of a function, with a target. -/
def ownRanges {α : Type} (a : Abbrev) (load : UIntPtr) (rs : List (UIntPtr × UIntPtr))
    (target : α) :
    Tagged α :=
  (mergedRanges load rs).map fun x => (decide (a.tag = .inlinedSubroutine), x.withTarget target)

/-- The ranges of functions that a level of entries adds, in the order in which they are added. -/
def Dies.functions (env : FnEnv) (load : UIntPtr) : Dies → BitVec 64 → Tagged Function
  | nil, _ => []
  | cons a vals below next, base =>
    let r := env.attrs a vals base
    let inside := if a.hasChildren = 0 then [] else below.functions env load r.base
    (if r.kept a then
      ownRanges a load (r.pc.rangeList env.lists r.base)
        (r.function.toFunction (inlinedOf inside)) ++
        outerOf inside
    else inside) ++ next.functions env load r.base

/-! ## Following pointers -/

/-- Pointers go to functions that were kept later. -/
def Upward (heap : List FunctionRec) : Prop :=
  ∀ (id : Nat) (f : FunctionRec), heap[id]? = some f →
    ∀ r ∈ f.functionAddrs, id < r.target ∧ r.target < heap.length

section Follow

variable {heap heap' : List FunctionRec}

theorem resolve_congr (h : Upward heap) (fuel : Nat) : ∀ {id : Nat}, id < heap.length →
    (∀ i, id ≤ i → i < heap.length → heap'[i]? = heap[i]?) →
    resolve heap' fuel id = resolve heap fuel id := by
  induction fuel with
  | zero => exact fun _ _ => rfl
  | succ fuel ih =>
    intro id hid hagree
    rw [resolve, resolve, hagree id (le_refl id) hid]
    cases hf : heap[id]? with
    | none => rfl
    | some f =>
      simp only
      congr 1
      refine List.map_congr_left fun r hr => ?_
      obtain ⟨hlt, hlen⟩ := h id f hf r hr
      rw [ih hlen fun i hi => hagree i (hlt.le.trans hi)]

/-- As pointers go up, no more levels are below a function than functions are behind it. -/
theorem resolve_fuel (h : Upward heap) (m : Nat) : ∀ {n id : Nat}, id < heap.length →
    heap.length - id ≤ m → heap.length - id ≤ n → resolve heap m id = resolve heap n id := by
  induction m with
  | zero =>
    intro n id hid hm
    omega
  | succ m ih =>
    intro n id hid hm hn
    obtain ⟨n, rfl⟩ := Nat.exists_eq_add_of_le' (show 1 ≤ n by omega)
    rw [resolve, resolve]
    cases hf : heap[id]? with
    | none => rfl
    | some f =>
      simp only
      congr 1
      refine List.map_congr_left fun r hr => ?_
      obtain ⟨hlt, hlen⟩ := h id f hf r hr
      rw [@ih n r.target hlen (by omega) (by omega)]

/-- What is behind a pointer does not change when the functions before it do, or others are
added. -/
theorem follow_congr (h : Upward heap) (hlen : heap.length ≤ heap'.length) {r : AddrRange Nat}
    (hr : r.target < heap.length)
    (hagree : ∀ i, r.target ≤ i → i < heap.length → heap'[i]? = heap[i]?) :
    follow heap' r = follow heap r := by
  rw [follow, follow, resolve_congr h heap'.length hr hagree,
    resolve_fuel h heap'.length hr (by omega) (Nat.sub_le _ _)]

theorem follow_grow (h : Upward heap) (hpre : heap <+: heap') {r : AddrRange Nat}
    (hr : r.target < heap.length) : follow heap' r = follow heap r := by
  refine follow_congr h hpre.length_le hr fun i _ hi => ?_
  obtain ⟨tail, rfl⟩ := hpre
  exact List.getElem?_append_left hi

theorem follow_eq (h : Upward heap) {r : AddrRange Nat} {f : FunctionRec}
    (hf : heap[r.target]? = some f) :
    follow heap r = ⟨r.low, r.high, .mk (f.name.getD "") f.callerFilename f.callerLineno
      (f.functionAddrs.map (follow heap))⟩ := by
  obtain ⟨hlt, -⟩ := List.getElem?_eq_some_iff.mp hf
  obtain ⟨n, hn⟩ := Nat.exists_eq_add_of_le' (Nat.one_le_of_lt hlt)
  rw [follow, hn, resolve, hf]
  simp only
  congr 2
  refine List.map_congr_left fun x hx => ?_
  obtain ⟨hup, hlen⟩ := h r.target f hf x hx
  rw [follow, resolve_fuel h n hlen (by omega) (Nat.sub_le _ _)]

theorem name_resolve (fuel id : Nat) (h : id < heap.length → fuel ≠ 0) :
    (resolve heap fuel id).name = (heap[id]?.bind FunctionRec.name).getD "" := by
  by_cases hid : id < heap.length
  · obtain ⟨n, rfl⟩ := Nat.exists_eq_succ_of_ne_zero (h hid)
    rw [resolve]
    cases heap[id]? with
    | none => rfl
    | some f => rfl
  · have hnone : heap[id]? = none := List.getElem?_eq_none (Nat.le_of_not_lt hid)
    cases fuel with
    | zero =>
      rw [hnone]
      rfl
    | succ n =>
      rw [resolve, hnone]
      rfl

/-- **Sorting pointers** is sorting what they point to. -/
theorem sort_follow (v : List (AddrRange Nat)) :
    (backtraceQsort (compareIn heap) v).1.map (follow heap) =
      (backtraceQsort functionAddrsCompare (v.map (follow heap))).1 := by
  have hname : ∀ id, (resolve heap heap.length id).name =
      (heap[id]?.bind FunctionRec.name).getD "" :=
    fun id => name_resolve _ _ fun hid => Nat.ne_zero_of_lt hid
  have hgt : (fun a b : AddrRange Nat => functionAddrsCompare (follow heap a) (follow heap b) ==
      .gt) =
      fun a b => compareIn heap a b == .gt := by
    funext a b
    unfold functionAddrsCompare compareIn rangeCompare
    simp only [follow, hname]
  unfold backtraceQsort
  rw [List.length_map, Quicksort.qsort_map, hgt]

end Follow

/-! ## What is added -/

/-- The vectors with ranges added. -/
def FnState.add (s : FnState) (xs : Tagged Nat) :
    List (AddrRange Nat) × Option (List (AddrRange Nat)) :=
  match s.inlined with
  | none => (s.functions ++ allOf xs, none)
  | some v => (s.functions ++ allOf (outerOf xs), some (v ++ inlinedOf xs))

/-- Pointers go up, and are to functions. -/
structure FnState.Ok (s : FnState) : Prop where
  upward : Upward s.heap
  functions : ∀ r ∈ s.functions, r.target < s.heap.length
  inlined : ∀ v, s.inlined = some v → ∀ r ∈ v, r.target < s.heap.length

/-- From one state to the other the functions `fs` are added. -/
structure Adds (s t : FnState) (fs : Tagged Function) : Prop where
  upward : Upward t.heap
  grows : s.heap <+: t.heap
  added : ∃ xs : Tagged Nat, (∀ x ∈ xs, s.heap.length ≤ x.2.target ∧ x.2.target < t.heap.length) ∧
    (t.functions, t.inlined) = s.add xs ∧ retarget (follow t.heap) xs = fs

section Adds

variable {s t r : FnState} {fs gs : Tagged Function}

theorem FnState.add_nil (s : FnState) : s.add [] = (s.functions, s.inlined) := by
  unfold FnState.add
  cases s.inlined with
  | none => exact congrArg (·, none) (List.append_nil _)
  | some v => exact congrArg₂ (fun f v => (f, some v)) (List.append_nil _) (List.append_nil _)

/-- Adding again. -/
theorem FnState.add_add {xs ys : Tagged Nat} (h : (t.functions, t.inlined) = s.add xs) :
    t.add ys = s.add (xs ++ ys) := by
  unfold FnState.add at h ⊢
  cases hs : s.inlined with
  | none =>
    rw [hs] at h
    obtain ⟨hf, hi⟩ := Prod.mk.inj h
    rw [hf, hi]
    simp only [allOf, List.map_append, List.append_assoc]
  | some v =>
    rw [hs] at h
    obtain ⟨hf, hi⟩ := Prod.mk.inj h
    rw [hf, hi]
    simp only [allOf, outerOf, inlinedOf, List.filter_append, List.map_append, List.append_assoc]

/-- What may be in the vectors. -/
theorem FnState.Ok.add (h : s.Ok) {n : Nat} (hn : s.heap.length ≤ n) {xs : Tagged Nat}
    (hxs : ∀ x ∈ xs, x.2.target < n) :
    (∀ r ∈ (s.add xs).1, r.target < n) ∧ ∀ v, (s.add xs).2 = some v → ∀ r ∈ v, r.target < n := by
  have hall : ∀ ys : Tagged Nat, (∀ x ∈ ys, x ∈ xs) → ∀ r ∈ allOf ys, r.target < n := by
    intro ys hys r hr
    obtain ⟨x, hx, rfl⟩ := List.mem_map.mp hr
    exact hxs x (hys x hx)
  have hfunctions : ∀ ys : Tagged Nat, (∀ x ∈ ys, x ∈ xs) → ∀ r ∈ s.functions ++ allOf ys,
      r.target < n := by
    intro ys hys
    exact List.forall_mem_append.mpr ⟨fun r hr => (h.functions r hr).trans_le hn, hall ys hys⟩
  unfold FnState.add
  cases hi : s.inlined with
  | none => exact ⟨hfunctions xs fun _ hx => hx, fun v hv => nomatch hv⟩
  | some v =>
    refine ⟨hfunctions _ fun x hx => (List.mem_filter.mp hx).1, ?_⟩
    intro w hw
    obtain rfl : v ++ inlinedOf xs = w := Option.some.inj hw
    exact List.forall_mem_append.mpr ⟨fun r hr => (h.inlined v hi r hr).trans_le hn,
      hall _ fun x hx => (List.mem_filter.mp hx).1⟩

theorem Adds.ok (hs : s.Ok) (h : Adds s t fs) : t.Ok := by
  obtain ⟨xs, hxs, hadd, -⟩ := h.added
  obtain ⟨hf, hi⟩ := Prod.mk.inj hadd
  obtain ⟨hfunctions, hinlined⟩ := hs.add h.grows.length_le fun x hx => (hxs x hx).2
  exact ⟨h.upward, hf ▸ hfunctions, hi ▸ hinlined⟩

theorem Adds.refl (h : Upward s.heap) : Adds s s [] where
  upward := h
  grows := List.prefix_rfl
  added := ⟨[], fun _ hx => absurd hx List.not_mem_nil, s.add_nil.symm, rfl⟩

/-- What was added does not change. -/
theorem retarget_follow {xs : Tagged Nat} (h : Upward s.heap) (hpre : s.heap <+: t.heap)
    (hxs : ∀ x ∈ xs, x.2.target < s.heap.length) :
    retarget (follow t.heap) xs = retarget (follow s.heap) xs :=
  List.map_congr_left fun x hx => by rw [follow_grow h hpre (hxs x hx)]

/-- The base is not part of what is added. -/
theorem Adds.of_base {base : BitVec 64} (h : Adds { s with base } t fs) : Adds s t fs :=
  ⟨h.upward, h.grows, h.added⟩

theorem Adds.trans (h : Adds s t fs) (h' : Adds t r gs) : Adds s r (fs ++ gs) where
  upward := h'.upward
  grows := h.grows.trans h'.grows
  added := by
    obtain ⟨xs, hxs, hadd, hfs⟩ := h.added
    obtain ⟨ys, hys, hadd', hgs⟩ := h'.added
    have hlen := h.grows.length_le
    have hlen' := h'.grows.length_le
    refine ⟨xs ++ ys, fun x hx => ?_, ?_, ?_⟩
    · rcases List.mem_append.mp hx with hx | hx
      · exact ⟨(hxs x hx).1, (hxs x hx).2.trans_le hlen'⟩
      · exact ⟨hlen.trans (hys x hx).1, (hys x hx).2⟩
    · rw [hadd', FnState.add_add hadd]
    · have hold := retarget_follow h.upward h'.grows fun x hx => (hxs x hx).2
      unfold retarget at hold hfs hgs ⊢
      rw [List.map_append, hold, hfs, hgs]

/-! ## Steps -/

theorem addRange_fresh {α : Type} [DecidableEq α] {load low high : UIntPtr} {target : α}
    {vec : List (AddrRange α)} (hvec : ∀ r ∈ vec, r.target ≠ target) (own : List (AddrRange Unit)) :
    addRange load low high target (vec ++ own.map (AddrRange.withTarget target)) =
      vec ++ (addRange load low high () own).map (AddrRange.withTarget target) := by
  rcases List.eq_nil_or_concat own with rfl | ⟨init, p, rfl⟩
  · rw [List.map_nil, List.append_nil]
    unfold addRange
    cases hlast : vec.getLast? with
    | none => rfl
    | some p =>
      have hne := hvec p (List.mem_of_getLast? hlast)
      simp only
      rw [if_neg fun h => hne h.2.symm]
      rfl
  · have hlast : (vec ++ (init ++ [p]).map (AddrRange.withTarget target)).getLast? =
        some (p.withTarget target) := by
      rw [List.map_append, ← List.append_assoc]
      exact List.getLast?_concat
    have hinit : (vec ++ (init ++ [p]).map (AddrRange.withTarget target)).dropLast =
        vec ++ init.map (AddrRange.withTarget target) := by
      rw [List.map_append, ← List.append_assoc]
      exact List.dropLast_concat
    unfold addRange
    rw [List.concat_eq_append, hlast, List.getLast?_concat]
    simp only [AddrRange.withTarget, and_true]
    split
    · rw [hinit, List.dropLast_concat, List.map_append, List.append_assoc]
      rfl
    · simp only [List.map_append, List.append_assoc]
      rfl

/-- The ranges of a new target are merged with one another only. -/
theorem addRanges_fresh {α : Type} [DecidableEq α] {load : UIntPtr} {target : α}
    {vec : List (AddrRange α)} (hvec : ∀ r ∈ vec, r.target ≠ target)
    (rs : List (UIntPtr × UIntPtr)) : ∀ own : List (AddrRange Unit),
      addRanges load target rs (vec ++ own.map (AddrRange.withTarget target)) =
        vec ++ (addRanges load () rs own).map (AddrRange.withTarget target) := by
  induction rs with
  | nil => exact fun _ => rfl
  | cons r rs ih =>
    intro own
    have hrange := @addRange_fresh α _ load r.1 r.2 target vec hvec own
    exact (congrArg (addRanges load target rs) hrange).trans (ih _)

section OwnRanges

variable {α : Type} {a : Abbrev} {load : UIntPtr} {rs : List (UIntPtr × UIntPtr)} {target : α}

theorem allOf_ownRanges : allOf (ownRanges a load rs target) =
    (mergedRanges load rs).map (AddrRange.withTarget target) := List.map_map

theorem inlinedOf_ownRanges (h : a.tag = .inlinedSubroutine) :
    inlinedOf (ownRanges a load rs target) =
        (mergedRanges load rs).map (AddrRange.withTarget target) ∧
      outerOf (ownRanges a load rs target) = [] := by
  constructor
  · rw [← allOf_ownRanges (a := a)]
    refine congrArg allOf (List.filter_eq_self.mpr fun x hx => ?_)
    obtain ⟨r, -, rfl⟩ := List.mem_map.mp hx
    exact decide_eq_true h
  · refine List.filter_eq_nil_iff.mpr fun x hx => ?_
    obtain ⟨r, -, rfl⟩ := List.mem_map.mp hx
    simp [h]

theorem outerOf_ownRanges (h : a.tag ≠ .inlinedSubroutine) :
    outerOf (ownRanges a load rs target) = ownRanges a load rs target ∧
      inlinedOf (ownRanges a load rs target) = [] := by
  constructor
  · refine List.filter_eq_self.mpr fun x hx => ?_
    obtain ⟨r, -, rfl⟩ := List.mem_map.mp hx
    simp [h]
  · refine congrArg allOf (List.filter_eq_nil_iff.mpr fun x hx => ?_)
    obtain ⟨r, -, rfl⟩ := List.mem_map.mp hx
    simp [h]

end OwnRanges

theorem FnState.keep_base (s : FnState) (a : Abbrev) (f : FunctionRec)
    (vec : List (AddrRange Nat)) :
    (s.keep a f vec).base = s.base := by
  unfold FnState.keep FnState.setVec
  split
  · rfl
  · rfl

/-- A function that is kept has its ranges in the vector of its tag. -/
theorem keep_add (hs : s.Ok) (a : Abbrev) (f : FunctionRec) (load : UIntPtr)
    (rs : List (UIntPtr × UIntPtr)) :
    ((s.keep a f (addRanges load s.heap.length rs (s.vec a))).functions,
      (s.keep a f (addRanges load s.heap.length rs (s.vec a))).inlined) =
        s.add (ownRanges a load rs s.heap.length) := by
  have hfresh : ∀ vec : List (AddrRange Nat), (∀ r ∈ vec, r.target < s.heap.length) →
      addRanges load s.heap.length rs vec =
        vec ++ (mergedRanges load rs).map (AddrRange.withTarget s.heap.length) := by
    intro vec hvec
    have h := @addRanges_fresh _ _ load s.heap.length vec (fun r hr => (hvec r hr).ne) rs []
    rwa [List.map_nil, List.append_nil] at h
  unfold FnState.keep FnState.setVec FnState.vec FnState.add
  cases hi : s.inlined with
  | none =>
    rw [allOf_ownRanges, ← hfresh _ hs.functions]
    simp
  | some v =>
    by_cases htag : a.tag = .inlinedSubroutine
    · obtain ⟨hin, hout⟩ := @inlinedOf_ownRanges _ a load rs s.heap.length htag
      simp only [if_pos htag, Option.getD_some, hfresh v (hs.inlined v hi), hin, hout]
      simp [htag, allOf]
    · obtain ⟨hout, hin⟩ := @outerOf_ownRanges _ a load rs s.heap.length htag
      simp only [if_neg htag, hfresh _ hs.functions, hin, hout, allOf_ownRanges]
      simp [htag]

section Leave

variable {f : FunctionRec} {id : Nat}

/-- A function gets the functions that were inlined below it. -/
theorem leave_heap (hf : f.functionAddrs = []) (hid : t.heap[id]? = some f) :
    (s.leave id t).heap = t.heap.set id
      { f with functionAddrs := (backtraceQsort (compareIn t.heap) (t.inlined.getD [])).1 } := by
  obtain ⟨hlt, hget⟩ := List.getElem?_eq_some_iff.mp hid
  unfold FnState.leave
  simp only
  split
  · refine List.ext_getElem? fun i => ?_
    rw [List.getElem?_modify, List.getElem?_set]
    split
    · rename_i heq
      subst heq
      rw [hid]
      rfl
    · exact id_map _
  · rename_i hempty
    have hnil : t.inlined.getD [] = [] := List.length_eq_zero_iff.mp (Nat.eq_zero_of_not_pos hempty)
    have hsame : ({ f with functionAddrs := (backtraceQsort (compareIn t.heap) []).1 } :
        FunctionRec) =
        f := by
      cases f with
      | mk name callerFilename callerLineno functionAddrs =>
        obtain rfl : functionAddrs = [] := hf
        rfl
    rw [hnil, hsame, ← hget, List.set_getElem_self]

theorem length_leave (hf : f.functionAddrs = []) (hid : t.heap[id]? = some f) :
    (s.leave id t).heap.length = t.heap.length := by
  rw [leave_heap hf hid, List.length_set]

theorem getElem?_leave (hf : f.functionAddrs = []) (hid : t.heap[id]? = some f) {i : Nat}
    (hi : i ≠ id) : (s.leave id t).heap[i]? = t.heap[i]? := by
  rw [leave_heap hf hid, List.getElem?_set_ne hi.symm]

theorem upward_leave (hf : f.functionAddrs = []) (hid : t.heap[id]? = some f) (hup : Upward t.heap)
    (hin : ∀ r ∈ t.inlined.getD [], id < r.target ∧ r.target < t.heap.length) :
    Upward (s.leave id t).heap := by
  intro i g hg r hr
  rw [length_leave hf hid]
  by_cases hi : i = id
  · subst hi
    rw [leave_heap hf hid, List.getElem?_set_self (List.getElem?_eq_some_iff.mp hid).1] at hg
    obtain rfl := Option.some.inj hg
    exact hin r ((Quicksort.qsort_perm _ _ _).mem_iff.mp hr)
  · rw [getElem?_leave hf hid hi] at hg
    exact hup i g hg r hr

/-- What was kept later does not change. -/
theorem follow_leave (hf : f.functionAddrs = []) (hid : t.heap[id]? = some f) (hup : Upward t.heap)
    {r : AddrRange Nat} (hlow : id < r.target) (hr : r.target < t.heap.length) :
    follow (s.leave id t).heap r = follow t.heap r :=
  follow_congr hup (length_leave hf hid).ge hr fun _ hi _ =>
    getElem?_leave hf hid (hlow.trans_le hi).ne'

theorem follow_leave_self (hf : f.functionAddrs = []) (hid : t.heap[id]? = some f)
    (hup : Upward t.heap)
    (hin : ∀ r ∈ t.inlined.getD [], id < r.target ∧ r.target < t.heap.length) (x : AddrRange Unit) :
    follow (s.leave id t).heap (x.withTarget id) =
      x.withTarget (f.toFunction ((t.inlined.getD []).map (follow t.heap))) := by
  have hself : (s.leave id t).heap[(x.withTarget id).target]? = some { f with
      functionAddrs := (backtraceQsort (compareIn t.heap) (t.inlined.getD [])).1 } := by
    rw [leave_heap hf hid]
    exact List.getElem?_set_self (List.getElem?_eq_some_iff.mp hid).1
  have hbelow : (backtraceQsort (compareIn t.heap) (t.inlined.getD [])).1.map
      (follow (s.leave id t).heap) = (backtraceQsort functionAddrsCompare
        ((t.inlined.getD []).map (follow t.heap))).1 := by
    rw [← sort_follow]
    refine List.map_congr_left fun r hr => ?_
    obtain ⟨hlow, hlt⟩ := hin r ((Quicksort.qsort_perm _ _ _).mem_iff.mp hr)
    exact follow_leave hf hid hup hlow hlt
  rw [follow_eq (upward_leave hf hid hup hin) hself, hbelow]
  rfl

end Leave

section Outer

variable {α β : Type} {g : AddrRange α → AddrRange β} {xs : Tagged α}

theorem outerOf_retarget : outerOf (retarget g xs) = retarget g (outerOf xs) := List.filter_map

theorem allOf_retarget : allOf (retarget g xs) = (allOf xs).map g := by
  unfold allOf retarget
  rw [List.map_map, List.map_map]
  rfl

theorem inlinedOf_retarget : inlinedOf (retarget g xs) = (inlinedOf xs).map g := by
  rw [inlinedOf, inlinedOf, ← allOf_retarget]
  exact congrArg allOf List.filter_map

end Outer

/-- The functions below a function that are not inlined stay in their vector. -/
theorem FnState.add_outer (s : FnState) (xs : Tagged Nat) :
    s.add (outerOf xs) = (s.functions ++ allOf (outerOf xs), s.inlined) := by
  have houter : outerOf (outerOf xs) = outerOf xs :=
    List.filter_eq_self.mpr fun x hx => (List.mem_filter.mp hx).2
  have hinlined : inlinedOf (outerOf xs) = [] := by
    refine congrArg allOf (List.filter_eq_nil_iff.mpr fun x hx => ?_)
    have := (List.mem_filter.mp hx).2
    simpa using this
  unfold FnState.add
  cases s.inlined with
  | none => rfl
  | some v =>
    simp only
    rw [houter, hinlined, List.append_nil]

/-- **A function that is kept** adds its ranges, with what is inlined below it as its own. -/
theorem adds_node (hs : s.Ok) (a : Abbrev) {f : FunctionRec} (hf : f.functionAddrs = [])
    (load : UIntPtr) (rs : List (UIntPtr × UIntPtr)) {s' : FnState}
    (hs' : s' = s.keep a f (addRanges load s.heap.length rs (s.vec a)))
    (h : Adds s'.enter t fs) :
    Adds s (s'.leave s.heap.length t)
      (ownRanges a load rs (f.toFunction (inlinedOf fs)) ++ outerOf fs) := by
  obtain ⟨xs, hxs, hadd, hfs⟩ := h.added
  have hheap : s'.enter.heap = s.heap ++ [f] := hs' ▸ rfl
  have hvec := keep_add hs a f load rs
  rw [← hs'] at hvec
  -- what is below is in the vector of its own
  have hin : t.inlined.getD [] = inlinedOf xs := congrArg (·.2.getD []) hadd
  have hout : t.functions = s'.functions ++ allOf (outerOf xs) := (Prod.mk.inj hadd).1
  obtain ⟨tail, htail⟩ := h.grows
  rw [hheap, List.append_assoc] at htail
  rw [hheap, List.length_append, List.length_singleton] at hxs
  have hid : t.heap[s.heap.length]? = some f := by
    rw [← htail, List.getElem?_append_right (le_refl _), Nat.sub_self]
    rfl
  have hpointers : ∀ r ∈ t.inlined.getD [], s.heap.length < r.target ∧
      r.target < t.heap.length := by
    intro r hr
    rw [hin] at hr
    obtain ⟨x, hx, rfl⟩ := List.mem_map.mp hr
    exact hxs x (List.mem_filter.mp hx).1
  refine ⟨upward_leave hf hid h.upward hpointers, ?_,
    ownRanges a load rs s.heap.length ++ outerOf xs, ?_, ?_, ?_⟩
  · rw [leave_heap hf hid, ← htail, List.set_append_right _ _ (le_refl _)]
    exact List.prefix_append _ _
  · rw [length_leave hf hid, List.forall_mem_append]
    constructor
    · intro x hx
      obtain ⟨r, -, rfl⟩ := List.mem_map.mp hx
      exact ⟨le_refl _, (List.getElem?_eq_some_iff.mp hid).1⟩
    · intro x hx
      have hx' := hxs x (List.mem_filter.mp hx).1
      exact ⟨Nat.le_of_succ_le hx'.1, hx'.2⟩
  · rw [← FnState.add_add hvec, FnState.add_outer, ← hout]
    rfl
  · have hown : retarget (follow (s'.leave s.heap.length t).heap)
        (ownRanges a load rs s.heap.length) =
        ownRanges a load rs (f.toFunction (inlinedOf fs)) := by
      unfold retarget ownRanges
      rw [List.map_map]
      refine List.map_congr_left fun x _ => ?_
      have hself := @follow_leave_self s' t f _ hf hid h.upward hpointers x
      rw [hin, ← inlinedOf_retarget, hfs] at hself
      exact congrArg (Prod.mk _) hself
    have houter : retarget (follow (s'.leave s.heap.length t).heap) (outerOf xs) = outerOf fs := by
      rw [← hfs, outerOf_retarget]
      refine List.map_congr_left fun x hx => ?_
      have hx' := hxs x (List.mem_filter.mp hx).1
      rw [follow_leave hf hid h.upward hx'.1 hx'.2]
    unfold retarget at hown houter ⊢
    rw [List.map_append, hown, houter]

theorem upward_concat {heap : List FunctionRec} (h : Upward heap) {f : FunctionRec}
    (hf : f.functionAddrs = []) : Upward (heap ++ [f]) := by
  intro id g hg r hr
  rw [List.length_append]
  by_cases hid : id < heap.length
  · rw [List.getElem?_append_left hid] at hg
    obtain ⟨hlow, hlt⟩ := h id g hg r hr
    exact ⟨hlow, Nat.lt_add_right _ hlt⟩
  · rw [List.getElem?_append_right (Nat.le_of_not_lt hid)] at hg
    rw [List.mem_singleton.mp (List.mem_of_getElem? hg), hf] at hr
    cases hr

/-- A function that has nothing below it. -/
theorem adds_leaf (hs : s.Ok) (a : Abbrev) {f : FunctionRec} (hf : f.functionAddrs = [])
    (load : UIntPtr) (rs : List (UIntPtr × UIntPtr)) {s' : FnState}
    (hs' : s' = s.keep a f (addRanges load s.heap.length rs (s.vec a))) :
    Adds s s' (ownRanges a load rs (f.toFunction [])) := by
  have hup : Upward s'.enter.heap := hs' ▸ upward_concat hs.upward hf
  have hnode := adds_node hs a hf load rs hs' (Adds.refl hup)
  rwa [show outerOf ([] : Tagged Function) = [] from rfl, List.append_nil] at hnode

theorem functionAddrs_attrs (env : FnEnv) (a : Abbrev) (vals : List AttrVal) (base : BitVec 64) :
    (env.attrs a vals base).function.functionAddrs = [] := by
  refine visitAll_inv (P := fun r : FnAttrs => r.function.functionAddrs = []) ?_ a.attrs vals rfl
  intro r attr val h
  unfold FnEnv.visit
  split
  · cases fnAttr attr val with
    | callFile v => exact h
    | callLine v => exact h
    | reference off => exact h
    | name s => exact h
    | linkageName s => exact h
    | other => exact h
  · exact h

/-- **The entries of a level** add their functions. -/
theorem adds_eval {sec : Sections} {env : FnEnv} (d : Dies) : ∀ s : FnState, s.Ok →
    Adds s (d.eval (fnStep sec env) s) (d.functions env sec.baseAddress s.base) := by
  induction d with
  | nil => exact fun s hs => Adds.refl hs.upward
  | cons a vals below next ihb ihn =>
    intro s hs
    rw [Dies.eval, Dies.functions, fnStep]
    have hf := functionAddrs_attrs env a vals s.base
    generalize env.attrs a vals s.base = r at hf
    have hs₁ : FnState.Ok { s with base := r.base } := ⟨hs.upward, hs.functions, hs.inlined⟩
    by_cases hkept : r.kept a = true
    · simp only [if_pos hkept]
      generalize hs' : FnState.keep _ a r.function _ = s'
      have hbase : s'.base = r.base := hs' ▸ FnState.keep_base ..
      have hleaf := adds_leaf hs₁ a hf sec.baseAddress _ hs'.symm
      by_cases hchildren : a.hasChildren = 0
      · simp only [if_pos hchildren]
        have hnext := ihn s' (hleaf.ok hs₁)
        rw [hbase] at hnext
        rw [show outerOf ([] : Tagged Function) = [] from rfl, List.append_nil]
        exact Adds.of_base (hleaf.trans hnext)
      · simp only [if_neg hchildren]
        have henter : s'.enter.Ok :=
          ⟨hleaf.upward, (hleaf.ok hs₁).functions, fun v hv => by
            obtain rfl := Option.some.inj hv
            exact fun r hr => absurd hr List.not_mem_nil⟩
        have hbelow : Adds s'.enter (below.eval (fnStep sec env) s'.enter)
            (below.functions env sec.baseAddress s'.base) := ihb _ henter
        rw [hbase] at hbelow
        have hnode := adds_node hs₁ a hf sec.baseAddress _ hs'.symm hbelow
        have hnext : Adds (s'.leave s.heap.length (below.eval (fnStep sec env) s'.enter)) _
            (next.functions env sec.baseAddress s'.base) := ihn _ (hnode.ok hs₁)
        rw [hbase] at hnext
        exact Adds.of_base (hnode.trans hnext)
    · simp only [if_neg hkept]
      by_cases hchildren : a.hasChildren = 0
      · simp only [if_pos hchildren]
        exact Adds.of_base (ihn _ hs₁)
      · simp only [if_neg hchildren]
        have hbelow := ihb _ hs₁
        have hok := hbelow.ok hs₁
        exact Adds.of_base (hbelow.trans
          (Adds.of_base (ihn _ ⟨hok.upward, hok.functions, hok.inlined⟩)))

end Adds

/-- **A unit adds** the functions of its entries. -/
theorem readUnitFunctions_complete {sec : Sections} {u : InfoUnit} {env : FnEnv} {depth : Nat}
    (hlen : sec.dwarfRanges.length < 2 ^ 63) (hu : u.Fits sec) {d : Dies}
    (hvalid : d.All (env.Valid sec u depth))
    (h : DiesBytes sec.isBigendian u u.unitData d
      ((cursor sec.isBigendian).ahead (unitDataBuf sec u 0)) []) :
    readUnitFunctions sec u env.filenames depth =
      some ([], ⟨allOf (d.functions env sec.baseAddress 0), true⟩) := by
  obtain ⟨buf, hbuf, hrun⟩ := readFunctions_complete hlen hu hvalid rfl h
  have hok : FnState.Ok ⟨0, [], [], none⟩ :=
    ⟨fun id f hf => (by cases hf), fun r hr => (by cases hr), fun v hv => (by cases hv)⟩
  obtain ⟨xs, -, hadd, hfs⟩ := (@adds_eval sec env d _ hok).added
  generalize d.eval (fnStep sec env) ⟨0, [], [], none⟩ = t at hrun hadd hfs
  have hfunctions : t.functions = allOf xs := (Prod.mk.inj hadd).1
  rw [readUnitFunctions, hrun]
  simp only
  rw [hbuf, hfunctions, ← allOf_retarget, hfs]

/-! ## The functions around a pc -/

/-- The functions inlined around `pc` in a function, each into the one before it. -/
inductive Around (pc : UIntPtr) : Function → List Function → Prop
  | innermost {f : Function} (none_contains : ∀ r ∈ f.functionAddrs, r.contains pc = false) :
      Around pc f []
  | within {f : Function} {r : FunctionAddrs} {chain : List Function} (mem : r ∈ f.functionAddrs)
      (contains : r.contains pc = true) (rest : Around pc r.target chain) :
      Around pc f (r.target :: chain)

/-- The ranges of what is inlined into the function, and into these functions, are flat. -/
inductive Layered : Function → Prop
  | mk {name : String} {callerFilename : Option String} {callerLineno : CInt}
    {v : List FunctionAddrs}
      (flat : Flat v) (below : ∀ r ∈ v, Layered r.target) :
      Layered (.mk name callerFilename callerLineno (backtraceQsort functionAddrsCompare v).1)

/-- What is inlined into the functions of a level is flat. -/
def Dies.Layered (env : FnEnv) (load : UIntPtr) : Dies → BitVec 64 → Prop
  | nil, _ => True
  | cons a vals below next, base =>
    let r := env.attrs a vals base
    (a.hasChildren ≠ 0 → below.Layered env load r.base ∧
      (r.kept a = true → Flat (inlinedOf (below.functions env load r.base)))) ∧
    next.Layered env load r.base

section Around

variable {pc : UIntPtr} {env : FnEnv} {load : UIntPtr}

theorem mem_sortFunctions {v : List FunctionAddrs} {r : FunctionAddrs} :
    r ∈ (backtraceQsort functionAddrsCompare v).1 ↔ r ∈ v :=
  (sortRanges_perm Function.name v).mem_iff

theorem inlineChainAt_eq (addrs : List FunctionAddrs) : ∀ i : Nat, inlineChainAt pc addrs i =
    match addrs[i]? with
    | none => []
    | some r => r.target :: inlineChain pc r.target := by
  induction addrs with
  | nil => exact fun _ => rfl
  | cons r addrs ih =>
    intro i
    cases i with
    | zero => rfl
    | succ i => exact ih i

/-- **The chain** is what is around the pc, if ranges are flat at every level. -/
theorem around_iff {f : Function} (h : Layered f) : ∀ {chain : List Function},
    Around pc f chain ↔ inlineChain pc f = chain := by
  induction h with
  | @mk name callerFilename callerLineno v flat below ih =>
    intro chain
    by_cases hex : ∃ r ∈ v, r.contains pc = true
    · obtain ⟨r, hr, hpc⟩ := hex
      have hfind := function_findRange flat.lt flat.apart hr hpc
      obtain ⟨i, hi, hget⟩ := Option.bind_eq_some_iff.mp hfind
      have hchain : inlineChain pc (.mk name callerFilename callerLineno
          (backtraceQsort functionAddrsCompare v).1) = r.target :: inlineChain pc r.target := by
        rw [inlineChain, hi]
        simp only
        rw [inlineChainAt_eq, hget]
      rw [hchain]
      constructor
      · intro haround
        cases haround with
        | innermost none_contains =>
          have hno := none_contains r (mem_sortFunctions.mpr hr)
          rw [hpc] at hno
          cases hno
        | @within _ r' chain mem contains rest =>
          have hfind' := function_findRange flat.lt flat.apart (mem_sortFunctions.mp mem) contains
          obtain rfl := Option.some.inj (hfind.symm.trans hfind')
          rw [(ih r hr).mp rest]
      · rintro rfl
        exact Around.within (mem_sortFunctions.mpr hr) hpc ((ih r hr).mpr rfl)
    · have hnone : ∀ r ∈ (backtraceQsort functionAddrsCompare v).1, r.contains pc = false := by
        intro r hr
        by_contra hc
        exact hex ⟨r, mem_sortFunctions.mp hr, by simpa using hc⟩
      have hfind : findRange functionAddrsSearch pc
          (backtraceQsort functionAddrsCompare v).1 = none :=
        findRange_eq_none hnone
      have hchain : inlineChain pc (.mk name callerFilename callerLineno
          (backtraceQsort functionAddrsCompare v).1) = [] := by
        rw [inlineChain, hfind]
      rw [hchain]
      constructor
      · intro haround
        cases haround with
        | innermost => rfl
        | within mem contains rest => exact absurd ⟨_, mem_sortFunctions.mp mem, contains⟩ hex
      · rintro rfl
        exact Around.innermost hnone

theorem layered_functions (d : Dies) : ∀ {base : BitVec 64}, d.Layered env load base →
    ∀ x ∈ d.functions env load base, Layered x.2.target := by
  induction d with
  | nil => exact fun _ x hx => absurd hx List.not_mem_nil
  | cons a vals below next ihb ihn =>
    rintro base ⟨hbelow, hnext⟩ x hx
    rw [Dies.functions] at hx
    generalize hr : env.attrs a vals base = r at hx
    rw [hr] at hbelow hnext
    -- what is below is layered, and flat if it is inlined into a function
    have hinside : ∃ inside, inside = (if a.hasChildren = 0 then [] else
        below.functions env load r.base) ∧ (∀ y ∈ inside, Layered y.2.target) ∧
          (r.kept a = true → Flat (inlinedOf inside)) := by
      refine ⟨_, rfl, ?_⟩
      by_cases hchildren : a.hasChildren = 0
      · rw [if_pos hchildren]
        exact ⟨fun y hy => absurd hy List.not_mem_nil,
          fun _ => ⟨fun y hy => absurd hy List.not_mem_nil, List.Pairwise.nil⟩⟩
      · rw [if_neg hchildren]
        exact ⟨ihb (hbelow hchildren).1, (hbelow hchildren).2⟩
    obtain ⟨inside, heq, hlayered, hflat⟩ := hinside
    simp only [← heq] at hx
    rcases List.mem_append.mp hx with hx | hx
    · by_cases hkept : r.kept a = true
      · rw [if_pos hkept] at hx
        rcases List.mem_append.mp hx with hx | hx
        · obtain ⟨y, -, rfl⟩ := List.mem_map.mp hx
          refine Layered.mk (hflat hkept) fun z hz => ?_
          obtain ⟨w, hw, rfl⟩ := List.mem_map.mp hz
          exact hlayered w (List.mem_filter.mp hw).1
        · exact hlayered x (List.mem_filter.mp hx).1
      · rw [if_neg hkept] at hx
        exact hlayered x hx
    · exact ihn hnext x hx

/-- **The functions of a pc.** Where the ranges of functions are not empty and do not overlap, with
those that the vector has, and those inlined into one do not, the table that is read gives for a pc
the function that has it, and the chain of what is inlined around it. -/
theorem readFunctionInfo_around {sec : Sections} {u : InfoUnit} {depth : Nat}
    (hlen : sec.dwarfRanges.length < 2 ^ 63) (hu : u.Fits sec) {d : Dies}
    (hvalid : d.All (env.Valid sec u depth))
    (h : DiesBytes sec.isBigendian u u.unitData d
      ((cursor sec.isBigendian).ahead (unitDataBuf sec u 0)) [])
    {fvec : List FunctionAddrs} (hflat : Flat (fvec ++ allOf (d.functions env sec.baseAddress 0)))
    (hlayered : d.Layered env sec.baseAddress 0) :
    ∃ table, readFunctionInfo sec u env.filenames depth fvec = some ([], table, []) ∧
      ∀ r ∈ allOf (d.functions env sec.baseAddress 0), r.contains pc = true →
        (findRange functionAddrsSearch pc table).bind (table[·]?) = some r ∧
          ∀ chain, inlineChain pc r.target = chain ↔ Around pc r.target chain := by
  have hread : readFunctionInfo sec u env.filenames depth fvec = some ([],
      (backtraceQsort functionAddrsCompare
        (fvec ++ allOf (d.functions env sec.baseAddress 0))).1, []) := by
    rw [readFunctionInfo, readUnitFunctions_complete hlen hu hvalid h]
    rfl
  refine ⟨_, hread, fun r hr hpc => ?_⟩
  refine ⟨function_findRange hflat.lt hflat.apart (List.mem_append_right _ hr) hpc, fun chain => ?_⟩
  obtain ⟨x, hx, rfl⟩ := List.mem_map.mp hr
  exact (around_iff (layered_functions d hlayered x hx)).symm

end Around

/-! ## A unit with an inlined function -/

namespace Inlining

/-- The abbreviations of a unit, of a function, and of what is inlined into a function. -/
def abbrevs : List Abbrev :=
  [⟨1, .compileUnit, 1, [⟨.stmtList, .data1⟩, ⟨.lowPc, .addr⟩, ⟨.highPc, .data1⟩]⟩,
    ⟨2, .subprogram, 1, [⟨.name, .string⟩, ⟨.lowPc, .addr⟩, ⟨.highPc, .data1⟩]⟩,
    ⟨3, .inlinedSubroutine, 0, [⟨.name, .string⟩, ⟨.lowPc, .addr⟩, ⟨.highPc, .data1⟩,
      ⟨.callFile, .data1⟩, ⟨.callLine, .data1⟩]⟩]

def unit : InfoUnit := ⟨⟨false, 4, 8, []⟩, abbrevs, 11, 39, 11⟩

def unitVals : List AttrVal := [.uint 0, .address 0x1000, .uint 32]

/-- The function `f`. -/
def fVals : List AttrVal := [.string (text [102]), .address 0x1000, .uint 16]

/-- The function `g`, inlined into `f` in line 7. -/
def gVals : List AttrVal := [.string (text [103]), .address 0x1004, .uint 8, .uint 1, .uint 7]

def dies : Dies :=
  .cons abbrevs[0] unitVals (.cons abbrevs[1] fVals (.cons abbrevs[2] gVals .nil .nil) .nil) .nil

def entries : List Byte :=
  [1, 0, 0, 16, 0, 0, 0, 0, 0, 0, 32] ++ ([2, 102, 0, 0, 16, 0, 0, 0, 0, 0, 0, 16] ++
    (([3, 103, 0, 4, 16, 0, 0, 0, 0, 0, 0, 8, 1, 7] ++ [0]) ++ [0]) ++ [])

theorem valsBytes_cons {p : Nat} {attr : DwarfAttribute} {form : DwarfForm} {attrs : List Attr}
    {val : AttrVal} {vals : List AttrVal} {bs : List Byte} (as : List Byte)
    (head : AttrBytes false unit.format form p val as)
    (tail : ValsBytes false unit.format attrs (p + as.length) vals bs) :
    ValsBytes false unit.format (⟨attr, form⟩ :: attrs) p (val :: vals) (as ++ bs) :=
  ⟨val, as, bs, rfl, head, vals, tail, rfl⟩

theorem diesBytes : DiesBytes false unit 11 dies entries [] := by
  have data : ∀ {p : Nat} (b : Byte), AttrBytes false unit.format .data1 p
      (.uint (b.setWidth 64)) [b] :=
    fun b => ⟨1, b, ⟨rfl, by simp [joinBytes, highFirst]⟩, rfl⟩
  have addr : ∀ {p : Nat} {v : BitVec 64} {bs : List Byte}, bs.length = 8 →
      v = joinBytes 64 bs.reverse → AttrBytes false unit.format .addr p (.address v) bs :=
    fun {p v bs} hlen hv => ⟨1, v, ⟨by decide, v, ⟨hlen, hv⟩, (BitVec.setWidth_eq v).symm⟩, rfl⟩
  have name : ∀ {p : Nat} {b : Byte}, b ≠ 0 →
      AttrBytes false unit.format .string p (.string (text [b])) [b, 0] :=
    fun {p b} hb => ⟨1, text [b], ⟨[b], by simpa using hb.symm, rfl, rfl⟩, rfl⟩
  have code : ∀ {p : Nat} {n : BitVec 64} {b : Byte}, b.toNat < 128 →
    n = BitVec.ofNat 64 (Leb128.value [b]) →
      UlebBytes p n [b] := fun hb hn => ⟨by simpa [Leb128.Terminated] using hb, by simp, hn⟩
  have nil : ∀ {p : Nat}, ValsBytes false unit.format [] p [] [] := ⟨rfl, rfl⟩
  have hunit : EntryBytes false unit abbrevs[0] 11 unitVals [1, 0, 0, 16, 0, 0, 0, 0, 0, 0, 32] :=
    ⟨1, [1], _, rfl, code (by decide) rfl, by decide, rfl, valsBytes_cons [0] (data 0)
      (valsBytes_cons [0, 16, 0, 0, 0, 0, 0, 0] (addr rfl rfl) (valsBytes_cons [32] (data 32) nil))⟩
  have hf : EntryBytes false unit abbrevs[1] 22 fVals [2, 102, 0, 0, 16, 0, 0, 0, 0, 0, 0, 16] :=
    ⟨2, [2], _, rfl, code (by decide) rfl, by decide, rfl,
      valsBytes_cons [102, 0] (name (by decide))
      (valsBytes_cons [0, 16, 0, 0, 0, 0, 0, 0] (addr rfl rfl) (valsBytes_cons [16] (data 16) nil))⟩
  have hg : EntryBytes false unit abbrevs[2] 34 gVals [3, 103, 0, 4, 16, 0, 0, 0, 0, 0, 0,
      8, 1, 7] :=
    ⟨3, [3], _, rfl, code (by decide) rfl, by decide, rfl,
      valsBytes_cons [103, 0] (name (by decide))
      (valsBytes_cons [4, 16, 0, 0, 0, 0, 0, 0] (addr rfl rfl) (valsBytes_cons [8] (data 8)
        (valsBytes_cons [1] (data 1) (valsBytes_cons [7] (data 7) nil))))⟩
  have null : ∀ {p : Nat} {rest : List Byte}, DiesBytes false unit p .nil [0] rest :=
    .null (code (by decide) rfl)
  exact .node hunit (by decide) (.node hf (by decide) (.leaf hg (by decide) null) null) (.ended _)

/-- The one file, `/a`. -/
def filename : String := text [47, 97]

def env : FnEnv := ⟨[filename], fun _ => none, fun _ _ => []⟩

def g : FunctionAddrs := ⟨0x401004, 0x40100c, .mk (text [103]) (some filename) 7 []⟩

def f : FunctionAddrs := ⟨0x401000, 0x401010, .mk (text [102]) none 0 [g]⟩

theorem functions_eq : allOf (dies.functions env 0x400000 0) = [f] := rfl

theorem layered : dies.Layered env 0x400000 0 := by
  have hflat : Flat [g] := ⟨by simp [g], List.pairwise_singleton _ _⟩
  exact ⟨fun _ => ⟨⟨fun _ => ⟨⟨fun h => absurd rfl h, trivial⟩, fun _ => hflat⟩, trivial⟩,
    fun h => by cases h⟩, trivial⟩

theorem valid (sec : Sections) (depth : Nat) : dies.All (env.Valid sec unit depth) := by
  have hunit : env.Valid sec unit depth abbrevs[0] unitVals := fun h => absurd h (by decide)
  have hf : env.Valid sec unit depth abbrevs[1] fVals := fun _ =>
    ⟨by simp [abbrevs, fVals, fnAttr, FnEnv.ValidAttr], fun base h => by cases h⟩
  have hg : env.Valid sec unit depth abbrevs[2] gVals := fun _ =>
    ⟨by simp [abbrevs, gVals, fnAttr, FnEnv.ValidAttr, env, callFile], fun base h => by cases h⟩
  exact ⟨hunit, ⟨hf, ⟨hg, trivial, trivial⟩, trivial⟩, trivial⟩

/-- `.debug_info` of the unit. -/
def dwarfInfo : List Byte := [46, 0, 0, 0, 4, 0, 0, 0, 0, 0, 8] ++ entries

theorem fits {sec : Sections} (h : sec.dwarfInfo = dwarfInfo) : unit.Fits sec := by
  constructor
  · rw [h]
    decide
  · rw [h]
    decide

theorem diesBytes_ahead {sec : Sections} (hinfo : sec.dwarfInfo = dwarfInfo)
    (hbig : sec.isBigendian = false) : DiesBytes sec.isBigendian unit unit.unitData dies
      ((cursor sec.isBigendian).ahead (unitDataBuf sec unit 0)) [] := by
  have hahead : (cursor sec.isBigendian).ahead (unitDataBuf sec unit 0) = entries := by
    change (sec.dwarfInfo.drop (unit.unitData + 0)).take (unit.unitDataLen - 0#64).toNat = entries
    rw [hinfo]
    decide
  rw [hahead, hbig]
  exact diesBytes

theorem flat : Flat [f] := ⟨by simp [f], List.pairwise_singleton _ _⟩

end Inlining

/-- At `0x401006` is `g`, inlined into `f`. -/
theorem readFunctionInfo_around_inlining : ∃ table,
    readFunctionInfo ⟨0x400000, Inlining.dwarfInfo, [], [], [], [], false⟩ Inlining.unit
        [Inlining.filename] 0 [] = some ([], table, []) ∧
      (findRange functionAddrsSearch 0x401006 table).bind (table[·]?) = some Inlining.f ∧
      Around 0x401006 Inlining.f.target [Inlining.g.target] := by
  obtain ⟨table, hread, hpc⟩ := @readFunctionInfo_around 0x401006 Inlining.env
    ⟨0x400000, Inlining.dwarfInfo, [], [], [], [], false⟩ Inlining.unit 0 (by decide)
    (Inlining.fits rfl) Inlining.dies (Inlining.valid _ 0) (Inlining.diesBytes_ahead rfl rfl)
    [] (Inlining.functions_eq ▸ Inlining.flat) Inlining.layered
  obtain ⟨hfind, hchain⟩ := hpc Inlining.f List.mem_cons_self (by decide)
  exact ⟨table, hread, hfind, (hchain _).mp rfl⟩

end Bktce.Libbacktrace
