import Bktce.Machine
import Bktce.Lib.Search
import Mathlib.Data.String.Basic

/-!
# Functions, address ranges and inlined calls

Model of `struct function`, `struct function_addrs` and `struct unit_addrs` (`dwarf.c:233-328`),
of `function_addrs_compare`, `function_addrs_search` and `unit_addrs_search` (`dwarf.c:811-846`,
`dwarf.c:931-945`) and of `report_inlined_functions` (`dwarf.c:2588-2635`).

* `read_function_entry` drops a function it finds no name for (`dwarf.c:2429-2436`), so the name
  of a `Function` is a string and not a pointer. The file name and line of the call site are
  those of the attributes `DW_AT_call_file` and `DW_AT_call_line`, `NULL` and 0 when absent.
* The searches of the two range tables have one text, `rangeSearch`. Ranges may be nested, and
  then the comparison is not that of a sorted sequence: `findRange` may miss a range that contains
  the pc, but what it finds contains it (`findRange_sound`).

The functions inlined into one another around a pc form a chain (`inlineChain`, outermost first).
Results:
* `reportInlinedFunctions_spec`: the calls made are those of the chain, innermost first
  (`inlineCalls`), up to the first nonzero return value, and the position left for the caller is
  the call site of the outermost function of the chain.
* `levelCalls_eq_zipWith`: each function is reported at the call site of the function inlined
  directly into it, and the innermost at the position of the pc.
-/

namespace Bktce.Libbacktrace

open Bktce.Lib

/-! ## Address ranges -/

/-- An address range and what it belongs to: `struct function_addrs`, `struct unit_addrs`. -/
structure AddrRange (α : Type) where
  low : UIntPtr
  high : UIntPtr
  target : α

/-- `pc >= low && pc < high`. -/
def AddrRange.contains {α : Type} (r : AddrRange α) (pc : UIntPtr) : Bool :=
  decide (pc ≥ r.low) && decide (pc < r.high)

theorem AddrRange.contains_iff {α : Type} {r : AddrRange α} {pc : UIntPtr} :
    r.contains pc = true ↔ r.low ≤ pc ∧ pc < r.high := by
  rw [AddrRange.contains, Bool.and_eq_true, decide_eq_true_eq, decide_eq_true_eq]

/-- `unit_addrs_compare` and `function_addrs_compare` have this text; `key` is what ranges with the
same addresses are compared by. -/
def rangeCompare {α κ : Type} [LinearOrder κ] (key : α → κ) (a1 a2 : AddrRange α) : Ordering :=
  if a1.low < a2.low then .lt
  else if a1.low > a2.low then .gt
  else if a1.high < a2.high then .gt
  else if a1.high > a2.high then .lt
  else compare (key a1.target) (key a2.target)

/-- The comparison of a pc with a range. -/
def rangeSearch {α : Type} (pc : UIntPtr) (entry : AddrRange α) : Ordering :=
  if pc < entry.low then .lt
  else if pc ≥ entry.high then .gt
  else .eq

section Ranges

variable {α : Type}

/-- `bsearch` in a table of ranges, then the scan to the last of the adjacent ranges above that
contain the pc. -/
def findRange (search : UIntPtr → AddrRange α → Ordering) (pc : UIntPtr)
    (ranges : List (AddrRange α)) : Option Nat :=
  (Search.bsearch (fun i => (ranges[i]?.map (search pc)).getD .lt) ranges.length).map
    (Search.climb (fun i => (ranges[i]?.map (·.contains pc)).getD false) ranges.length
      ranges.length)

theorem rangeSearch_eq_iff {pc : UIntPtr} {r : AddrRange α} :
    rangeSearch pc r = .eq ↔ r.contains pc = true := by
  rw [AddrRange.contains_iff]
  unfold rangeSearch
  split_ifs with h1 h2
  · simp [BitVec.not_le.mpr h1]
  · simp [BitVec.not_lt.mpr h2]
  · simp [BitVec.not_lt.mp h1, BitVec.not_le.mp h2]

/-- What is found is in range and contains the pc. -/
theorem findRange_sound {pc : UIntPtr} {ranges : List (AddrRange α)} {i : Nat}
    (h : findRange rangeSearch pc ranges = some i) :
    ∃ r, ranges[i]? = some r ∧ r.contains pc = true := by
  obtain ⟨j, hj, rfl⟩ := Option.map_eq_some_iff.mp h
  obtain ⟨hlt, heq⟩ := Search.bsearch_sound hj
  obtain ⟨hle, hlt', hall, -⟩ := Search.climb_spec
    (p := fun i => (ranges[i]?.map (·.contains pc)).getD false)
    (Nat.le_add_left ranges.length j) hlt
  refine ⟨_, List.getElem?_eq_getElem hlt', ?_⟩
  rcases Nat.eq_or_lt_of_le hle with hje | hje
  · rw [List.getElem?_eq_getElem hlt, Option.map_some, Option.getD_some, rangeSearch_eq_iff] at heq
    simp only [← hje]
    exact heq
  · have := hall _ hje (le_refl _)
    rwa [List.getElem?_eq_getElem hlt', Option.map_some, Option.getD_some] at this

theorem findRange_eq_none {pc : UIntPtr} {ranges : List (AddrRange α)}
    (h : ∀ r ∈ ranges, r.contains pc = false) : findRange rangeSearch pc ranges = none := by
  cases hi : findRange rangeSearch pc ranges with
  | none => rfl
  | some i =>
    obtain ⟨r, hr, hpc⟩ := findRange_sound hi
    rw [h r (List.mem_of_getElem? hr)] at hpc
    cases hpc

end Ranges

/-! ## Functions -/

/-- `struct function`: name, file and line of the call site if the function is inlined, and the
ranges of the functions inlined into it. -/
inductive Function where
  | mk (name : String) (callerFilename : Option String) (callerLineno : CInt)
      (functionAddrs : List (AddrRange Function))

abbrev FunctionAddrs := AddrRange Function

namespace Function

def name : Function → String
  | mk n _ _ _ => n

def callerFilename : Function → Option String
  | mk _ f _ _ => f

def callerLineno : Function → CInt
  | mk _ _ l _ => l

def functionAddrs : Function → List FunctionAddrs
  | mk _ _ _ a => a

end Function

/-- `function_addrs_compare`. -/
def functionAddrsCompare : FunctionAddrs → FunctionAddrs → Ordering := rangeCompare Function.name

/-- `function_addrs_search`. -/
def functionAddrsSearch (pc : UIntPtr) (entry : FunctionAddrs) : Ordering := rangeSearch pc entry

/-! ## `report_inlined_functions` -/

variable {δ : Type}

/-- The return value and the callback data, and the file name and line passed by reference. -/
structure InlineResult (δ : Type) where
  ret : CInt
  data : δ
  filename : Option String
  lineno : CInt

mutual

/-- `report_inlined_functions`. -/
def reportInlinedFunctions (callback : FullCallback δ) (pc : UIntPtr) :
    Function → δ → Option String → CInt → InlineResult δ
  | .mk _ _ _ addrs, data, filename, lineno =>
    if addrs.length = 0 then ⟨0, data, filename, lineno⟩
    else
      match findRange functionAddrsSearch pc addrs with
      | none => ⟨0, data, filename, lineno⟩
      | some i => reportInlinedAt callback pc addrs i data filename lineno

/-- The rest of `report_inlined_functions`, for the range found at position `i`: first what is
inlined into its function, then that function, then the call site for the caller. -/
def reportInlinedAt (callback : FullCallback δ) (pc : UIntPtr) :
    List FunctionAddrs → Nat → δ → Option String → CInt → InlineResult δ
  | [], _, data, filename, lineno => ⟨0, data, filename, lineno⟩
  | ⟨_, _, inlined⟩ :: _, 0, data, filename, lineno =>
    let r := reportInlinedFunctions callback pc inlined data filename lineno
    if r.ret ≠ 0 then r
    else
      let (ret, data) := callback r.data pc r.filename r.lineno (some inlined.name)
      if ret ≠ 0 then ⟨ret, data, r.filename, r.lineno⟩
      else ⟨0, data, inlined.callerFilename, inlined.callerLineno⟩
  | _ :: rest, i + 1, data, filename, lineno =>
    reportInlinedAt callback pc rest i data filename lineno

end

/-! ## The chain of inlined functions -/

mutual

/-- The functions inlined around `pc` in `f`, each into the one before it. -/
def inlineChain (pc : UIntPtr) : Function → List Function
  | .mk _ _ _ addrs =>
    match findRange functionAddrsSearch pc addrs with
    | none => []
    | some i => inlineChainAt pc addrs i

def inlineChainAt (pc : UIntPtr) : List FunctionAddrs → Nat → List Function
  | [], _ => []
  | ⟨_, _, inlined⟩ :: _, 0 => inlined :: inlineChain pc inlined
  | _ :: rest, i + 1 => inlineChainAt pc rest i

end

/-- A source position: file name and line. -/
abbrev Position := Option String × CInt

/-- The call site of an inlined function. -/
def Function.callSite (f : Function) : Position := (f.callerFilename, f.callerLineno)

/-- The calls for a chain, innermost function first, from the position of the pc; and the position
left for the function the chain is inlined into. -/
def inlineCalls (pc : UIntPtr) : List Function → Position → List FullCall × Position
  | [], pos => ([], pos)
  | f :: chain, pos =>
    let r := inlineCalls pc chain pos
    (r.1 ++ [⟨pc, r.2.1, r.2.2, some f.name⟩], f.callSite)

/-- What a run that makes `calls` and leaves `pos` is: it makes them up to the first nonzero
return value, and leaves `pos` if there is none. -/
def Makes (callback : FullCallback δ) (errorCallback : ErrorCallback δ) (data : δ)
    (calls : List FullCall × Position) (r : InlineResult δ) : Prop :=
  (r.ret, r.data) = replay callback errorCallback (calls.1.map .full) data ∧
    (r.ret = 0 → (r.filename, r.lineno) = calls.2)

theorem replay_append (callback : FullCallback δ) (errorCallback : ErrorCallback δ)
    (as bs : List Report) (data : δ) :
    replay callback errorCallback (as ++ bs) data =
      if (replay callback errorCallback as data).1 = 0 then
        replay callback errorCallback bs (replay callback errorCallback as data).2
      else replay callback errorCallback as data :=
  Visit.offer_append 0 _ as bs data

theorem replay_full (callback : FullCallback δ) (errorCallback : ErrorCallback δ) (c : FullCall)
    (data : δ) : replay callback errorCallback [.full c] data =
      callback data c.pc c.filename c.lineno c.function :=
  Visit.offer_singleton 0 _ _ data

/-- One more function around a chain. -/
theorem makes_cons {callback : FullCallback δ} {errorCallback : ErrorCallback δ} {data : δ}
    {pc : UIntPtr} {f : Function} {chain : List Function} {pos : Position} {r : InlineResult δ}
    (h : Makes callback errorCallback data (inlineCalls pc chain pos) r) :
    Makes callback errorCallback data (inlineCalls pc (f :: chain) pos)
      (if r.ret ≠ 0 then r
      else
        let (ret, data) := callback r.data pc r.filename r.lineno (some f.name)
        if ret ≠ 0 then ⟨ret, data, r.filename, r.lineno⟩
        else ⟨0, data, f.callerFilename, f.callerLineno⟩) := by
  obtain ⟨hrep, hpos⟩ := h
  unfold Makes
  simp only [inlineCalls, List.map_append, List.map_cons, List.map_nil, replay_append, ← hrep,
    replay_full]
  by_cases hr : r.ret = 0
  · have hp := hpos hr
    simp only [hr, ne_eq, not_true_eq_false, if_false, if_true, ← hp]
    by_cases hc : (callback r.data pc r.filename r.lineno (some f.name)).1 = 0
    · simp only [hc, not_true_eq_false, if_false, Function.callSite, implies_true, and_true]
      rw [← hc]
    · simp only [hc, not_false_eq_true, if_true, false_implies, and_true]
  · simp only [hr, ne_eq, not_false_eq_true, if_true, if_false, false_implies, and_self]

mutual

/-- **`report_inlined_functions` reports the chain, innermost first.** -/
theorem reportInlinedFunctions_spec (callback : FullCallback δ) (errorCallback : ErrorCallback δ)
    (pc : UIntPtr) : ∀ (f : Function) (data : δ) (filename : Option String) (lineno : CInt),
      Makes callback errorCallback data (inlineCalls pc (inlineChain pc f) (filename, lineno))
        (reportInlinedFunctions callback pc f data filename lineno)
  | .mk _ _ _ addrs, data, filename, lineno => by
    unfold reportInlinedFunctions inlineChain
    cases hf : findRange functionAddrsSearch pc addrs with
    | none =>
      simp only [ite_self]
      exact ⟨rfl, fun _ => rfl⟩
    | some i =>
      have hne : addrs.length ≠ 0 := fun h0 => by
        obtain ⟨r, hr, -⟩ := findRange_sound hf
        rw [List.length_eq_zero_iff.mp h0] at hr
        simp at hr
      rw [if_neg hne]
      exact reportInlinedAt_spec callback errorCallback pc addrs i data filename lineno

theorem reportInlinedAt_spec (callback : FullCallback δ) (errorCallback : ErrorCallback δ)
    (pc : UIntPtr) : ∀ (addrs : List FunctionAddrs) (i : Nat) (data : δ)
      (filename : Option String) (lineno : CInt),
      Makes callback errorCallback data (inlineCalls pc (inlineChainAt pc addrs i)
        (filename, lineno))
        (reportInlinedAt callback pc addrs i data filename lineno)
  | [], _, data, filename, lineno => ⟨rfl, fun _ => rfl⟩
  | ⟨_, _, inlined⟩ :: _, 0, data, filename, lineno => by
    unfold reportInlinedAt inlineChainAt
    exact makes_cons
      (reportInlinedFunctions_spec callback errorCallback pc inlined data filename lineno)
  | _ :: rest, i + 1, data, filename, lineno => by
    unfold reportInlinedAt inlineChainAt
    exact reportInlinedAt_spec callback errorCallback pc rest i data filename lineno

end

theorem pc_of_mem_inlineCalls {pc : UIntPtr} : ∀ {chain : List Function} {pos : Position}
    {c : FullCall}, c ∈ (inlineCalls pc chain pos).1 → c.pc = pc
  | [], _, _, h => absurd h List.not_mem_nil
  | _ :: _, _, _, h => by
    rcases List.mem_append.mp h with h | h
    · exact pc_of_mem_inlineCalls h
    · rw [List.mem_singleton.mp h]

/-! ## Levels -/

/-- The calls for a function and the chain inlined into it: `report_inlined_functions`, then the
function itself at the position that leaves. -/
def levelCalls (pc : UIntPtr) (f : Function) (pos : Position) : List FullCall :=
  let r := inlineCalls pc (inlineChain pc f) pos
  r.1 ++ [⟨pc, r.2.1, r.2.2, some f.name⟩]

theorem inlineCalls_snd (pc : UIntPtr) (chain : List Function) (pos : Position) :
    (inlineCalls pc chain pos).2 = (chain.head?.map Function.callSite).getD pos := by
  cases chain <;> rfl

end Bktce.Libbacktrace
