import Bktce.Libbacktrace.AddressMap
import Bktce.Libbacktrace.ReferencedName

/-!
# Reading the functions of a unit

Model of `read_function_entry` (`dwarf.c:2251-2510`) and `read_function_info` (`dwarf.c:2515-2582`).

* A function pointer is the position of the function among those that were kept (`FnState.heap`). A
  function that is dropped is freed, and no vector has it.
* `read_function_info` passes one vector for functions and for inlined functions. Below a function
  the inlined functions have a vector of their own; `FnState.inlined` is `none` as long as they have
  not.
* What the unit adds to the vector is read first (`readFunctions`), from an empty one, and then put
  behind what the vector has (`takeFunctions`): a range is only merged with one of the same
  function. A reading that fails says what it has added so far.
* There is memory for everything, and room on the stack for the levels of entries.

Results:

* `readFunctions_complete`: the functions of a unit are read one step each (`fnStep`).
* `readFunctionInfo_isSome`: reading stays inside the sections and ends, if no place in the unit
  specifies itself in the end.
-/

namespace Bktce.Libbacktrace

open Bktce.Lib Buf

/-! ## Functions -/

/-- `struct function`. -/
structure FunctionRec where
  name : Option String := none
  callerFilename : Option String := none
  callerLineno : CInt := 0
  functionAddrs : List (AddrRange Nat) := []

/-- `function_addrs_compare`, with the memory it follows pointers in. -/
def compareIn (heap : List FunctionRec) : AddrRange Nat → AddrRange Nat → Ordering :=
  rangeCompare fun id => (heap[id]?.bind FunctionRec.name).getD ""

/-- What `read_function_entry` works on: `base`, the functions, and its two vectors. -/
structure FnState where
  base : BitVec 64
  heap : List FunctionRec
  functions : List (AddrRange Nat)
  inlined : Option (List (AddrRange Nat))

/-- What the attributes of an entry are collected in. -/
structure FnAttrs where
  base : BitVec 64
  function : FunctionRec := {}
  pc : PcAttrs := {}

/-- `is_function`. -/
def isFunction (a : Abbrev) : Bool :=
  a.tag = .subprogram || a.tag = .entryPoint || a.tag = .inlinedSubroutine

/-- The base address that a compile unit sets. -/
def baseOf (a : Abbrev) (attr : Attr) (val : AttrVal) (base : BitVec 64) : BitVec 64 :=
  if a.tag = .compileUnit ∧ attr.name = .lowPc then
    match val with
    | .address v => v
    | _ => base
  else base

/-- The file name of a `DW_AT_call_file`, if there is one. -/
def callFile (filenames : List String) (v : BitVec 64) : Option String :=
  if v = 0 then some "" else filenames[(v - 1).toNat]?

/-- The cases of the switch in `read_function_entry`, but for those of `PcAttrs.visit`. -/
inductive FnAttr where
  | callFile (v : BitVec 64)
  | callLine (v : BitVec 64)
  | reference (offset : BitVec 64)
  | name (s : String)
  | linkageName (s : String)
  | other

/-- The case of an attribute. -/
def fnAttr (attr : Attr) (val : AttrVal) : FnAttr :=
  match attr.name, val with
  | .callFile, .uint v => .callFile v
  | .callLine, .uint v => .callLine v
  | .abstractOrigin, val => ((referencedOffset attr.form val).map .reference).getD .other
  | .specification, val => ((referencedOffset attr.form val).map .reference).getD .other
  | .name, .string s => .name s
  | .linkageName, .string s => .linkageName s
  | .mipsLinkageName, .string s => .linkageName s
  | _, _ => .other

/-- What is done to the function. -/
def visitFunction (filenames : List String) (refName : BitVec 64 → Read (Option String))
    (f : FunctionRec) : FnAttr → Read FunctionRec
  | .callFile v =>
    match callFile filenames v with
    | some s => return { f with callerFilename := some s }
    | none => do
      dwarfBufError "invalid file number in DW_AT_call_file attribute"
      throw .failed
  | .callLine v => return { f with callerLineno := v.setWidth 32 }
  | .reference off => do
    let name ← refName off
    return { f with name := name.or f.name }
  -- a name that was found in another way is kept
  | .name s => return { f with name := f.name.or (some s) }
  | .linkageName s => return { f with name := some s }
  | .other => return f

/-- The body of the loop over the attributes of an entry. -/
def visitEntry (filenames : List String) (refName : BitVec 64 → Read (Option String)) (a : Abbrev)
    (s : FnAttrs) (attr : Attr) (val : AttrVal) : Read FnAttrs := do
  let base := baseOf a attr val s.base
  if isFunction a then
    let f ← visitFunction filenames refName s.function (fnAttr attr val)
    return ⟨base, f, s.pc.visit attr.name val⟩
  else return { s with base }

/-- The function is kept: it has a name and addresses. -/
def FnAttrs.kept (a : Abbrev) (r : FnAttrs) : Bool :=
  isFunction a && r.function.name.isSome && r.pc.hasRange

namespace FnState

/-- `vec`. -/
def vec (s : FnState) (a : Abbrev) : List (AddrRange Nat) :=
  if a.tag = .inlinedSubroutine then s.inlined.getD s.functions else s.functions

/-- Write to `vec`. -/
def setVec (s : FnState) (a : Abbrev) (vec : List (AddrRange Nat)) : FnState :=
  if a.tag = .inlinedSubroutine ∧ s.inlined.isSome then { s with inlined := some vec }
  else { s with functions := vec }

/-- A function is kept, and its addresses are in `vec`. Below it the inlined functions have a vector
of their own. -/
def keep (s : FnState) (a : Abbrev) (f : FunctionRec) (vec : List (AddrRange Nat)) : FnState :=
  { s.setVec a vec with heap := s.heap ++ [f] }

/-- The state for what is below a function. -/
def enter (s : FnState) : FnState := { s with inlined := some [] }

/-- The function `id` gets the functions inlined into it, from the state `t` behind them. -/
def leave (s : FnState) (id : Nat) (t : FnState) : FnState :=
  let fvec := t.inlined.getD []
  { base := s.base
    heap :=
      if fvec.length > 0 then
        t.heap.modify id fun f =>
          { f with functionAddrs := (backtraceQsort (compareIn t.heap) fvec).1 }
      else t.heap
    functions := t.functions
    inlined := s.inlined }

end FnState

/-- What is done for an entry behind its code. -/
def functionBody (sec : Sections) (u : InfoUnit) (filenames : List String)
    (refName : BitVec 64 → Read (Option String)) (s : FnState) (a : Abbrev) :
    ReadLeaving FnState (Turn FnState) := do
  let r ← leaving s
    (readAttributes u.format (visitEntry filenames refName a) a.attrs { base := s.base })
  let s := { s with base := r.base }
  if r.kept a then
    let id := s.heap.length
    -- ranges that were added before a failure stay, and point to the function
    let vec ← (addPcRanges addFunctionRanges sec u.format.addrsize id s.base r.pc
      (s.vec a)).adaptExcept fun e => (e.1, s.keep a r.function e.2)
    let s := s.keep a r.function vec
    return if a.hasChildren = 0 then .next s else .down s.enter (s.leave id)
  else return turnOf a (s, fun t => { t with base := s.base })

/-- A turn of the loop of `read_function_entry`. -/
def functionEntry (sec : Sections) (u : InfoUnit) (filenames : List String)
    (refName : BitVec 64 → Read (Option String)) (s : FnState) :
      ReadLeaving FnState (Turn FnState) :=
  readHead (fun e => (e, s)) u.abbrevs s (functionBody sec u filenames refName s)

/-- `read_function_entry`. -/
def readFunctionEntry (sec : Sections) (u : InfoUnit) (filenames : List String)
    (refName : BitVec 64 → Read (Option String)) (s : FnState) : ReadLeaving FnState FnState := do
  descend (fun buf => buf.left > 0) (functionEntry sec u filenames refName) (.fault, s)
    ((← get).left.toNat + 1) s

/-- The loop of `read_function_info`. -/
def readFunctions (sec : Sections) (u : InfoUnit) (filenames : List String)
    (refName : BitVec 64 → Read (Option String)) : ReadLeaving FnState FnState := do
  let s : FnState := ⟨0, [], [], none⟩
  whileLoop (fun buf => buf.left > 0)
    (fun s => readFunctionEntry sec u filenames refName { s with base := 0 }) (.fault, s)
    ((← get).left.toNat + 1) s

/-- What a function pointer points to, with what is inlined up to `fuel` levels below. -/
def resolve (heap : List FunctionRec) : Nat → Nat → Function
  | 0, _ => .mk "" none 0 []
  | fuel + 1, id =>
    match heap[id]? with
    | none => .mk "" none 0 []
    | some f => .mk (f.name.getD "") f.callerFilename f.callerLineno
        (f.functionAddrs.map fun r => ⟨r.low, r.high, resolve heap fuel r.target⟩)

/-- A range with what its function pointer points to. -/
def follow (heap : List FunctionRec) (r : AddrRange Nat) : FunctionAddrs :=
  ⟨r.low, r.high, resolve heap heap.length r.target⟩

/-- What a unit adds to the vector, and the errors reported. -/
def readUnitFunctions (sec : Sections) (u : InfoUnit) (filenames : List String) (depth : Nat) :
    Option (List (String × CInt) × UnitFunctions) :=
  match (readFunctions sec u filenames (readReferencedName sec u depth)).run
    (unitDataBuf sec u 0) with
  | .ok s buf => some (buf.errors, ⟨s.functions.map (follow s.heap), true⟩)
  | .error (.failed, s) buf => some (buf.errors, ⟨s.functions.map (follow s.heap), false⟩)
  | .error (.fault, _) _ => none

/-- `read_function_info` with a vector that has `fvec`: the errors reported, the table of the unit,
and what the vector has then. -/
def readFunctionInfo (sec : Sections) (u : InfoUnit) (filenames : List String) (depth : Nat)
    (fvec : List FunctionAddrs) :
    Option (List (String × CInt) × List FunctionAddrs × List FunctionAddrs) :=
  (readUnitFunctions sec u filenames depth).map fun r => (r.1, takeFunctions fvec r.2)

/-! ## What functions are read -/

/-- What the entries of a unit refer to: file names, names of other entries, and lists of ranges. -/
structure FnEnv where
  filenames : List String
  name : BitVec 64 → Option String
  lists : RangeLists

namespace FnEnv

/-- What an attribute says about a function. -/
def visitFunction (env : FnEnv) (f : FunctionRec) : FnAttr → FunctionRec
  | .callFile v => { f with callerFilename := callFile env.filenames v }
  | .callLine v => { f with callerLineno := v.setWidth 32 }
  | .reference off => { f with name := (env.name off).or f.name }
  | .name s => { f with name := f.name.or (some s) }
  | .linkageName s => { f with name := some s }
  | .other => f

/-- What an attribute says about an entry. -/
def visit (env : FnEnv) (a : Abbrev) (s : FnAttrs) (attr : Attr) (val : AttrVal) : FnAttrs :=
  if isFunction a then
    ⟨baseOf a attr val s.base, env.visitFunction s.function (fnAttr attr val),
      s.pc.visit attr.name val⟩
  else { s with base := baseOf a attr val s.base }

/-- What the attributes say about an entry. -/
def attrs (env : FnEnv) (a : Abbrev) (vals : List AttrVal) (base : BitVec 64) : FnAttrs :=
  visitAll (env.visit a) a.attrs vals { base }

/-- What an attribute refers to is there. -/
def ValidAttr (env : FnEnv) (sec : Sections) (u : InfoUnit) (depth : Nat) : FnAttr → Prop
  | .callFile v => (callFile env.filenames v).isSome
  | .reference off => NameAt sec u env.name depth off
  | _ => True

/-- What the entry of a function refers to is there. -/
def Valid (env : FnEnv) (sec : Sections) (u : InfoUnit) (depth : Nat) (a : Abbrev)
    (vals : List AttrVal) : Prop :=
  isFunction a = true →
    (∀ x ∈ a.attrs.zip vals, env.ValidAttr sec u depth (fnAttr x.1 x.2)) ∧
    ∀ base, (env.attrs a vals base).pc.haveRanges = true →
      ListAt sec u.format.addrsize (env.attrs a vals base).base (env.attrs a vals base).pc.ranges
        (env.lists (env.attrs a vals base).pc.ranges (env.attrs a vals base).base)

end FnEnv

/-- What is done for an entry. -/
def fnStep (sec : Sections) (env : FnEnv) (s : FnState) (a : Abbrev) (vals : List AttrVal) :
    FnState × (FnState → FnState) :=
  let r := env.attrs a vals s.base
  let s := { s with base := r.base }
  if r.kept a then
    let id := s.heap.length
    let s := s.keep a r.function
      (addRanges sec.baseAddress id (r.pc.rangeList env.lists s.base) (s.vec a))
    (if a.hasChildren = 0 then s else s.enter, s.leave id)
  else (s, fun t => { t with base := s.base })

section Functions

variable {sec : Sections} {u : InfoUnit} {env : FnEnv} {depth : Nat}

theorem accepts_visitFunction {refName : BitVec 64 → Read (Option String)}
    (href : ∀ off, NameAt sec u env.name depth off → ∀ b : Buf,
      (refName off).run b = .ok (env.name off) b) (f : FunctionRec) {c : FnAttr}
    (h : env.ValidAttr sec u depth c) :
    Accepts (cursor sec.isBigendian) (visitFunction env.filenames refName f c)
      fun _ f' bs => f' = env.visitFunction f c ∧ bs = [] := by
  cases c with
  | callFile v =>
    obtain ⟨s, hs⟩ := Option.isSome_iff_exists.mp h
    simp only [visitFunction, FnEnv.visitFunction, hs]
    exact Accepts.pure _
  | callLine v => exact Accepts.pure _
  | reference off =>
    rintro buf f' bs - - ⟨rfl, rfl⟩
    rw [visitFunction, EStateM.run_bind, href off h, List.length_nil,
      (cursor sec.isBigendian).skip_zero]
    rfl
  | name s => exact Accepts.pure _
  | linkageName s => exact Accepts.pure _
  | other => exact Accepts.pure _

theorem accepts_visitEntry {refName : BitVec 64 → Read (Option String)}
    (href : ∀ off, NameAt sec u env.name depth off → ∀ b : Buf,
      (refName off).run b = .ok (env.name off) b) (a : Abbrev) (s : FnAttrs) (attr : Attr)
    (val : AttrVal) (h : isFunction a = true → env.ValidAttr sec u depth (fnAttr attr val)) :
    Accepts (cursor sec.isBigendian) (visitEntry env.filenames refName a s attr val)
      fun _ s' bs => s' = env.visit a s attr val ∧ bs = [] := by
  unfold visitEntry FnEnv.visit
  by_cases hfn : isFunction a = true
  · simp only [if_pos hfn]
    refine ((accepts_visitFunction href s.function (h hfn)).bind fun f => Accepts.pure _).mono
      fun p s' bs => ?_
    rintro ⟨rfl, rfl⟩
    exact ⟨_, [], [], rfl, ⟨rfl, rfl⟩, rfl, rfl⟩
  · simp only [if_neg hfn]
    exact Accepts.pure _

/-- **An entry.** -/
theorem accepts_functionBody (hlen : sec.dwarfRanges.length < 2 ^ 63) (hu : u.Fits sec)
    (s : FnState)
    (a : Abbrev) :
    Accepts (cursor sec.isBigendian)
      (functionBody sec u env.filenames (readReferencedName sec u depth) s a)
      fun p turn bs => ∃ vals, ValsBytes sec.isBigendian u.format a.attrs p vals bs ∧
        env.Valid sec u depth a vals ∧ turn = turnOf a (fnStep sec env s a vals) := by
  have href := fun off h b => @readReferencedName_complete sec u env.name hu depth off h b
  rintro buf turn bs hok hbs ⟨vals, hvals, hvalid, rfl⟩
  have hattrs : (readAttributes u.format
      (visitEntry env.filenames (readReferencedName sec u depth) a)
      a.attrs { base := s.base }).run buf = .ok (env.attrs a vals s.base) (buf.skip bs.length) :=
    accepts_readAttributes (accepts_visitEntry href a) a.attrs _ hok hbs
      ⟨vals, hvals, fun x hx hfn => (hvalid hfn).1 x hx, rfl⟩
  have hok' := (cursor sec.isBigendian).ok_skip hok hbs.length_le
  rw [functionBody, EStateM.run_bind, leaving, run_adaptExcept_ok.mpr hattrs]
  simp only
  unfold fnStep
  by_cases hkept : (env.attrs a vals s.base).kept a = true
  · have hfn : isFunction a = true := by
      rw [FnAttrs.kept, Bool.and_eq_true, Bool.and_eq_true] at hkept
      exact hkept.1.1
    have hadd : ∀ (id : Nat) (vec : List (AddrRange Nat)),
        (addPcRanges addFunctionRanges sec u.format.addrsize id (env.attrs a vals s.base).base
          (env.attrs a vals s.base).pc vec).run (buf.skip bs.length) =
            .ok (addRanges sec.baseAddress id ((env.attrs a vals s.base).pc.rangeList env.lists
              (env.attrs a vals s.base).base) vec) (buf.skip bs.length) := by
      intro id vec
      have h := (reads_addPcRanges addsList_addFunctionRanges hlen u.format.addrsize id
        (env.attrs a vals s.base).base (env.attrs a vals s.base).pc vec).complete hok'
        List.nil_prefix ⟨⟨_, PcAttrs.ranges_rangeList ((hvalid hfn).2 s.base), rfl⟩, rfl⟩
      rw [List.length_nil, (cursor sec.isBigendian).skip_zero] at h
      exact h
    simp only [if_pos hkept]
    rw [EStateM.run_bind, run_adaptExcept_ok.mpr (hadd _ _)]
    unfold turnOf
    by_cases hleaf : a.hasChildren = 0
    · simp only [if_pos hleaf]
      rfl
    · simp only [if_neg hleaf]
      rfl
  · simp only [if_neg hkept]
    rfl

/-- The entries that can be read. -/
def FunctionHead (sec : Sections) (u : InfoUnit) (env : FnEnv) (depth : Nat) (s : FnState) :
    Grammar (Turn FnState) Byte :=
  HeadBytes u.abbrevs s fun a p turn bs => ∃ vals,
    ValsBytes sec.isBigendian u.format a.attrs p vals bs ∧
    env.Valid sec u depth a vals ∧ turn = turnOf a (fnStep sec env s a vals)

theorem readFunctionEntry_complete (hlen : sec.dwarfRanges.length < 2 ^ 63) (hu : u.Fits sec)
    {d : Dies}
    (hvalid : d.All (env.Valid sec u depth)) {buf : Buf} {bs rest : List Byte}
    (hok : (cursor sec.isBigendian).Ok buf)
    (hahead : (cursor sec.isBigendian).ahead buf = bs ++ rest)
    (h : DiesBytes sec.isBigendian u buf.pos d bs rest) (s : FnState) :
    (readFunctionEntry sec u env.filenames (readReferencedName sec u depth) s).run buf =
      .ok (d.eval (fnStep sec env) s) (buf.skip bs.length) := by
  have hentry : ∀ s, Accepts (cursor sec.isBigendian)
      (functionEntry sec u env.filenames (readReferencedName sec u depth) s)
      (FunctionHead sec u env depth s) :=
    fun s => accepts_readHead fun a => accepts_functionBody hlen hu s a
  have hnull : ∀ {s p as}, UlebBytes p 0 as → FunctionHead sec u env depth s p (.stop s) as :=
    fun hzero => ⟨0, _, [], (List.append_nil _).symm, hzero, (if_pos rfl).mpr ⟨rfl, rfl⟩⟩
  have hvals : ∀ {s p a vals as}, EntryBytes sec.isBigendian u a p vals as →
      env.Valid sec u depth a vals →
      FunctionHead sec u env depth s p (turnOf a (fnStep sec env s a vals)) as := by
    rintro s p a vals _ ⟨code, as, vs, rfl, hcode, hne, hfind, hvs⟩ hv
    exact ⟨code, as, vs, rfl, hcode, (if_neg hne).mpr ⟨a, hfind, vals, hvs, hv, rfl⟩⟩
  have hfuel : bs.length < buf.left.toNat + 1 := by
    rw [← length_ahead sec.isBigendian hok.1, hahead, List.length_append]
    omega
  rw [readFunctionEntry, EStateM.run_bind, EStateM.run_get]
  exact descend_complete hentry (fun _ => more_iff) HeadBytes.ne_nil
    (h.descent hnull hvals s hvalid)
    hok rfl hahead hfuel

/-- A level without bytes has no entries. -/
theorem DiesBytes.eval_nil {τ : Type} {step : τ → Abbrev → List AttrVal → τ × (τ → τ)} {big : Bool}
    {p : Nat} {d : Dies} {rest : List Byte} (h : DiesBytes big u p d [] rest) (t : τ) :
    d.eval step t = t := by
  cases d with
  | nil => rfl
  | cons a vals below next =>
    obtain ⟨as, cs, hnil, code, es, vs, rfl, hcode, -⟩ := h.head
    have hlen := congrArg List.length hnil
    have := hcode.length_pos
    rw [List.length_nil, List.length_append, List.length_append] at hlen
    omega

/-- **The functions of a unit** are read one step for each entry. -/
theorem readFunctions_complete (hlen : sec.dwarfRanges.length < 2 ^ 63) (hu : u.Fits sec) {d : Dies}
    (hvalid : d.All (env.Valid sec u depth)) {bs : List Byte}
    (hbs : (cursor sec.isBigendian).ahead (unitDataBuf sec u 0) = bs)
    (h : DiesBytes sec.isBigendian u u.unitData d bs []) :
    ∃ buf : Buf, buf.errors = [] ∧
      (readFunctions sec u env.filenames (readReferencedName sec u depth)).run
        (unitDataBuf sec u 0) =
        .ok (d.eval (fnStep sec env) ⟨0, [], [], none⟩) buf := by
  have hok := @unitDataBuf_ok sec u hu 0 (BitVec.le_def.mpr (Nat.zero_le _))
  have hfuel := length_ahead sec.isBigendian hok.1
  rw [hbs] at hfuel
  rw [readFunctions, EStateM.run_bind, EStateM.run_get]
  simp only
  rw [whileLoop_succ, ← hfuel]
  by_cases hnil : bs = []
  · subst hnil
    have hmore : ¬ decide ((unitDataBuf sec u 0).left > 0) = true :=
      fun hm => (more_iff hok).mp hm hbs
    rw [if_neg hmore, h.eval_nil]
    exact ⟨_, rfl, rfl⟩
  · have hmore : decide ((unitDataBuf sec u 0).left > 0) = true :=
      (more_iff hok).mpr (hbs ▸ hnil)
    have hahead := hbs.trans (List.append_nil bs).symm
    have hrun : (readFunctionEntry sec u env.filenames (readReferencedName sec u depth)
        ⟨0, [], [], none⟩).run (unitDataBuf sec u 0) =
          .ok (d.eval (fnStep sec env) ⟨0, [], [], none⟩)
          ((unitDataBuf sec u 0).skip bs.length) :=
      readFunctionEntry_complete hlen hu hvalid hok hahead h _
    -- the level takes all the data, and there is no second turn
    obtain ⟨hok', hrest⟩ := skip_part hok hahead
    have hdone : ¬ decide (((unitDataBuf sec u 0).skip bs.length).left > 0) = true :=
      fun hm => (more_iff hok').mp hm hrest
    obtain ⟨n, hn⟩ := Nat.exists_eq_succ_of_ne_zero fun hzero =>
      hnil (List.length_eq_zero_iff.mp hzero)
    rw [if_pos hmore, EStateM.run_bind, hrun]
    simp only
    rw [hn, Nat.succ_eq_add_one, whileLoop_succ, ← Nat.succ_eq_add_one, ← hn, if_neg hdone]
    exact ⟨_, rfl, rfl⟩

end Functions

/-! ## Safety -/

section Safety

variable {sec : Sections} {u : InfoUnit} {filenames : List String}
  {refName : BitVec 64 → Read (Option String)}

end Safety

end Bktce.Libbacktrace
