import Bktce.Libbacktrace.Fileline
import Mathlib.Data.List.Forall2

/-!
# Lookups do not depend on earlier lookups

`dwarf_lookup_pc` keeps what it reads in the unit: the lines and functions, and the absolute file
name (`dwarf.c:2713-2740`, `dwarf.c:2787-2820`). This module says when that is invisible.

* `moduleCalls` and `answer` are what is reported for a pc when nothing has been looked up before:
  they look at the sections of the units only, not at what was kept.
* A module is `Coherent` when the lines and the functions of every unit can be read, and a unit
  holds nothing else than what reading it gives.

Results:
* `lookupReports_coherent`: a lookup in a coherent module makes the calls of `moduleCalls` and
  leaves the module coherent.
* `pcinfo_history`: when all units can be read, a pc is answered in the same way after any
  sequence of lookups.
* `unreadable_unit_history`: when the lines of a unit cannot be read, the first pc looked up in it
  is answered as unknown, and the second time by the unit behind it: the retry that the comment at
  `dwarf.c:2770-2772` announces is not made the first time.
* `unread_functions_history`: when the functions of a unit are read only in part, what was read of
  them goes to the unit whose functions are read next.
-/

namespace Bktce.Libbacktrace

open Bktce.Lib

/-! ## Answers -/

/-- The name of a unit's file when no absolute name has been kept. -/
def ownPath (unit : DwarfUnit) : Option String × Bool :=
  absolutePath { unit with absFilename := none }

section Answers

variable (allocError : Option (String × CInt)) (pc : UIntPtr)

/-- The full callbacks a module makes for a pc, if it has it. -/
def moduleCalls (dd : DwarfData) : Option (List FullCall) :=
  (findRange unitAddrsSearch pc dd.addrs).bind fun entry =>
    let u := dd.unitAt entry
    match (dd.info u).lines with
    | none => some [⟨pc, none, 0, none⟩]
    | some t =>
      match t.lookup pc with
      | some ln => some (functionCalls pc (takeFunctions [] (dd.info u).functions).1 ln)
      | none =>
        if (ownPath (dd.units u)).2 = true ∧ allocError ≠ none then none
        else some [⟨pc, (ownPath (dd.units u)).1, 0, none⟩]

/-- The full callbacks for a pc: those of the first module that has it. -/
def answer : List DwarfData → List FullCall
  | [] => [⟨pc, none, 0, none⟩]
  | dd :: rest => (moduleCalls allocError pc dd).getD (answer rest)

variable {allocError pc}

/-- The first module that has a pc answers it. -/
theorem answer_eq {dd : DwarfData} {calls : List FullCall}
    (h : moduleCalls allocError pc dd = some calls)
    {front : List DwarfData} (hfront : ∀ dd' ∈ front, moduleCalls allocError pc dd' = none)
    (back : List DwarfData) : answer allocError pc (front ++ dd :: back) = calls := by
  induction front with
  | nil => rw [List.nil_append, answer, h, Option.getD_some]
  | cons dd' front ih =>
    rw [List.forall_mem_cons] at hfront
    rw [List.cons_append, answer, hfront.1, Option.getD_none, ih hfront.2]

end Answers

/-! ## Coherent modules -/

/-- Two states of one module: the same ranges, sections and file names. -/
structure SameModule (dd dd' : DwarfData) : Prop where
  addrs : dd'.addrs = dd.addrs
  info : dd'.info = dd.info
  ownPath : ∀ u, ownPath (dd'.units u) = ownPath (dd.units u)

/-- What is kept in a unit is what reading it gives. -/
structure CoherentUnit (allocError : Option (String × CInt)) (info : UnitInfo) (unit : DwarfUnit) :
    Prop where
  lines : unit.lines = .unread ∨ ∃ t, unit.lines = .table t ∧ info.lines = some t ∧
    unit.functionAddrs = (takeFunctions [] info.functions).1
  path : unit.absFilename = none ∨
    ((ownPath unit).1 = unit.absFilename ∧ ((ownPath unit).2 = true → allocError = none))

/-- Every unit can be read, its lines and its functions, and holds what reading it gives. Then the
vector they share is empty between two lookups. -/
structure Coherent (allocError : Option (String × CInt)) (dd : DwarfData) : Prop where
  readable : ∀ u, (dd.info u).lines.isSome
  complete : ∀ u, (dd.info u).functions.complete = true
  fvec : dd.fvec = []
  units : ∀ u, CoherentUnit allocError (dd.info u) (dd.units u)

theorem SameModule.refl (dd : DwarfData) : SameModule dd dd := ⟨rfl, rfl, fun _ => rfl⟩

theorem SameModule.trans {dd dd' dd'' : DwarfData} (h : SameModule dd dd')
    (h' : SameModule dd' dd'') : SameModule dd dd'' :=
  ⟨h'.addrs.trans h.addrs, h'.info.trans h.info, fun u => (h'.ownPath u).trans (h.ownPath u)⟩

/-- Answers are the same in all states of a module. -/
theorem SameModule.moduleCalls_eq {dd dd' : DwarfData} (h : SameModule dd dd')
    (allocError : Option (String × CInt)) (pc : UIntPtr) :
    moduleCalls allocError pc dd' = moduleCalls allocError pc dd := by
  unfold moduleCalls DwarfData.unitAt
  simp only [h.addrs, h.info, h.ownPath]

/-- Updating a unit by one with the same file names. -/
theorem sameModule_setUnit {dd : DwarfData} {u : Nat} {unit : DwarfUnit}
    (h : ownPath unit = ownPath (dd.units u)) : SameModule dd (dd.setUnit u unit) := by
  refine ⟨rfl, rfl, fun v => ?_⟩
  unfold DwarfData.setUnit
  by_cases hv : v = u
  · simp only [hv, if_true, h]
  · simp only [if_neg hv]

namespace Coherent

variable {allocError : Option (String × CInt)} {dd : DwarfData}

theorem setUnit (h : Coherent allocError dd) {u : Nat} {unit : DwarfUnit}
    (hu : CoherentUnit allocError (dd.info u) unit) : Coherent allocError (dd.setUnit u unit) where
  readable := h.readable
  complete := h.complete
  fvec := h.fvec
  units v := by
    unfold DwarfData.setUnit
    by_cases hv : v = u
    · simp only [hv, if_true]
      exact hu
    · simp only [if_neg hv]
      exact h.units v

/-- No unit is skipped. -/
theorem findUnit_eq (h : Coherent allocError dd) (pc : UIntPtr) :
    findUnit dd pc = findRange unitAddrsSearch pc dd.addrs := by
  have hskip : ∀ i, skipUseless dd pc i = i
    | 0 => rfl
    | i + 1 => by
      unfold skipUseless
      split
      · rcases (h.units (dd.unitAt (i + 1))).lines with hl | ⟨t, hl, -, -⟩ <;> rw [hl]
      · rfl
  unfold findUnit
  rw [show skipUseless dd pc = id from funext hskip, Option.map_id, id]

/-- Reading a unit gives its lines and functions, whether it was read before or not. -/
theorem readUnit_eq (h : Coherent allocError dd) (u : Nat) :
    ∃ errors t newData dd', readUnit dd u = (errors, some t, newData, dd') ∧
      (dd.info u).lines = some t ∧
      (dd'.units u).functionAddrs = (takeFunctions [] (dd.info u).functions).1 ∧
      SameModule dd dd' ∧ Coherent allocError dd' := by
  rcases (h.units u).lines with hl | ⟨t, hl, ht, hf⟩
  · obtain ⟨t, ht⟩ := Option.isSome_iff_exists.mp (h.readable u)
    let unit : DwarfUnit := { dd.units u with
      lines := .table t, functionAddrs := (takeFunctions [] (dd.info u).functions).1 }
    have hunit : CoherentUnit allocError (dd.info u) unit :=
      ⟨Or.inr ⟨t, rfl, ht, rfl⟩, (h.units u).path⟩
    have hread : readUnit dd u = ((dd.info u).errors, some t, true, dd.setUnit u unit) := by
      -- the functions are all read, so the vector is empty again
      have htake : takeFunctions dd.fvec (dd.info u).functions =
          ((takeFunctions [] (dd.info u).functions).1, dd.fvec) := by
        simp only [takeFunctions, h.fvec, h.complete u, if_true]
      simp only [readUnit, hl, ht, htake]
      rfl
    refine ⟨_, t, true, _, hread, ht, ?_, sameModule_setUnit rfl, h.setUnit hunit⟩
    simp [DwarfData.setUnit, unit]
  · unfold readUnit
    simp only [hl]
    exact ⟨_, t, false, dd, rfl, ht, hf, SameModule.refl dd, h⟩

/-- The file name that is kept or found is the unit's own. -/
theorem absolutePath_fst (h : Coherent allocError dd) (u : Nat) :
    (absolutePath (dd.units u)).1 = (ownPath (dd.units u)).1 := by
  rcases (h.units u).path with hp | ⟨hp, -⟩
  · unfold ownPath
    rw [← hp]
  · cases ha : (dd.units u).absFilename with
    | none => unfold ownPath; rw [← ha]
    | some f =>
      rw [hp, ha]
      simp [absolutePath, ha]

/-- Memory is short when the name has to be allocated iff the unit's own name has to be. -/
theorem absolutePath_snd (h : Coherent allocError dd) (u : Nat) :
    ((absolutePath (dd.units u)).2 = true ∧ allocError ≠ none) ↔
      ((ownPath (dd.units u)).2 = true ∧ allocError ≠ none) := by
  rcases (h.units u).path with hp | ⟨-, hp⟩
  · unfold ownPath
    rw [← hp]
  · cases ha : (dd.units u).absFilename with
    | none => unfold ownPath; rw [← ha]
    | some f =>
      have hfalse : (absolutePath (dd.units u)).2 = false := by simp [absolutePath, ha]
      rw [hfalse]
      exact ⟨fun hc => absurd hc.1 (by simp), fun hc => absurd (hp hc.1) hc.2⟩

end Coherent

/-! ## Lookups -/

section Lookups

variable {allocError : Option (String × CInt)}

/-- **A lookup in a coherent module** makes the calls of `moduleCalls`, and leaves the module
coherent. -/
theorem lookupReports_coherent {dd : DwarfData} (h : Coherent allocError dd) (pc : UIntPtr) :
    ∃ reports found dd', lookupReports allocError pc dd = (reports, found, dd') ∧
      (if found then moduleCalls allocError pc dd = some (fullCalls reports)
        else moduleCalls allocError pc dd = none ∧ fullCalls reports = []) ∧
      SameModule dd dd' ∧ Coherent allocError dd' := by
  unfold lookupReports moduleCalls
  rw [h.findUnit_eq pc]
  cases hf : findRange unitAddrsSearch pc dd.addrs with
  | none => exact ⟨[], false, dd, rfl, ⟨rfl, rfl⟩, SameModule.refl dd, h⟩
  | some entry =>
    obtain ⟨errors, t, newData, dd', hread, hlines, hfns, hsame, hcoh⟩ :=
      h.readUnit_eq (dd.unitAt entry)
    simp only [Option.bind_some, hread, hlines]
    cases hl : t.lookup pc with
    | some ln =>
      refine ⟨_, true, dd', rfl, ?_, hsame, hcoh⟩
      simp only [← hfns, if_true, fullCalls_append, fullCalls_errorReports, List.nil_append,
        fullCalls_map_full]
    | none =>
      have hfst := hcoh.absolutePath_fst (dd.unitAt entry)
      have hsnd := hcoh.absolutePath_snd (dd.unitAt entry)
      rw [hsame.ownPath] at hfst hsnd
      simp only
      rcases hp : absolutePath (dd'.units (dd.unitAt entry)) with ⟨f, alloc⟩
      rw [hp] at hfst hsnd
      simp only at hfst hsnd
      by_cases hown : (ownPath (dd.units (dd.unitAt entry))).2 = true ∧ allocError ≠ none
      · obtain ⟨rfl, herr⟩ := hsnd.mpr hown
        rw [if_pos hown]
        obtain ⟨⟨msg, errnum⟩, rfl⟩ := Option.ne_none_iff_exists'.mp herr
        exact ⟨_, false, dd', rfl, ⟨rfl, by simp [fullCalls_append]⟩, hsame, hcoh⟩
      · rw [if_neg hown]
        have hcall : fullCalls (errorReports errors ++ [.full ⟨pc, f, 0, none⟩]) =
            [⟨pc, (ownPath (dd.units (dd.unitAt entry))).1, 0, none⟩] := by
          rw [← hfst]
          simp [fullCalls_append]
        have hkeep : Coherent allocError (dd'.setUnit (dd.unitAt entry)
            { dd'.units (dd.unitAt entry) with absFilename := f }) := by
          refine hcoh.setUnit ⟨(hcoh.units _).lines, Or.inr ⟨?_, fun h2 => ?_⟩⟩
          · exact (congrArg Prod.fst (hsame.ownPath (dd.unitAt entry))).trans hfst.symm
          · by_contra herr
            exact hown ⟨(congrArg Prod.snd (hsame.ownPath (dd.unitAt entry))).symm.trans h2, herr⟩
        have hfail : ¬ (alloc = true ∧ allocError ≠ none) := fun hc => hown (hsnd.mp hc)
        split
        · rename_i msg errnum heq
          obtain ⟨-, rfl⟩ := Prod.mk.inj heq
          exact absurd ⟨rfl, by simp⟩ hfail
        · rename_i heq _
          obtain ⟨rfl, -⟩ := Prod.mk.inj heq
          exact ⟨_, true, _, rfl, congrArg some hcall.symm, hsame.trans (sameModule_setUnit rfl),
            hkeep⟩

/-- The states of a list of modules, one by one. -/
def SameModules (modules modules' : List DwarfData) : Prop :=
  List.Forall₂ SameModule modules modules'

theorem SameModules.refl (modules : List DwarfData) : SameModules modules modules :=
  List.forall₂_same.mpr fun dd _ => SameModule.refl dd

theorem SameModules.trans {m₁ m₂ : List DwarfData} (h : SameModules m₁ m₂) :
    ∀ {m₃ : List DwarfData}, SameModules m₂ m₃ → SameModules m₁ m₃ := by
  induction h with
  | nil => exact fun h' => h'
  | cons hdd _ ih =>
    intro m₃ h'
    obtain _ | ⟨hdd', hrest'⟩ := h'
    exact .cons (hdd.trans hdd') (ih hrest')

theorem SameModules.answer_eq {modules modules' : List DwarfData}
    (h : SameModules modules modules') (pc : UIntPtr) :
    answer allocError pc modules' = answer allocError pc modules := by
  induction h with
  | nil => rfl
  | cons hdd _ ih => rw [answer, answer, hdd.moduleCalls_eq, ih]

/-- **A pc is answered by `answer`**, and the modules stay coherent. -/
theorem filelineReports_coherent (pc : UIntPtr) (modules : List DwarfData)
    (h : ∀ dd ∈ modules, Coherent allocError dd) :
    fullCalls (filelineReports allocError pc modules).1 = answer allocError pc modules ∧
      SameModules modules (filelineReports allocError pc modules).2 ∧
      ∀ dd ∈ (filelineReports allocError pc modules).2, Coherent allocError dd := by
  induction modules with
  | nil => exact ⟨rfl, SameModules.refl [], h⟩
  | cons dd rest ih =>
    obtain ⟨hdd, hrest⟩ := List.forall_mem_cons.mp h
    obtain ⟨ihcalls, ihsame, ihcoh⟩ := ih hrest
    obtain ⟨reports, found, dd', hlook, hcalls, hsame, hcoh⟩ := lookupReports_coherent hdd pc
    simp only [filelineReports, hlook, answer]
    cases found with
    | true =>
      rw [if_pos rfl] at hcalls
      rw [hcalls]
      exact ⟨rfl, .cons hsame (SameModules.refl rest), List.forall_mem_cons.mpr ⟨hcoh, hrest⟩⟩
    | false =>
      obtain ⟨hnone, hnil⟩ := hcalls
      rw [hnone]
      refine ⟨?_, .cons hsame ihsame, List.forall_mem_cons.mpr ⟨hcoh, ihcoh⟩⟩
      exact (fullCalls_append _ _).trans (by rw [hnil, ihcalls]; rfl)

end Lookups

/-! ## Whole runs -/

/-- The modules of a state that has them, or that the initialization will find, are `modules`, all
coherent. -/
structure Serves (host : Host) (modules : List DwarfData) (state : BacktraceState) : Prop where
  ok : (initializeReports host state).2.1 = true
  fn : (initializeReports host state).2.2.filelineFn = some .dwarfFileline
  same : SameModules modules (initializeReports host state).2.2.filelineData
  coherent : ∀ dd ∈ (initializeReports host state).2.2.filelineData, Coherent host.allocError dd

namespace Serves

variable {host : Host} {modules : List DwarfData} {state : BacktraceState}

/-- One lookup: the pc is answered by `answer`, and the state goes on serving the same modules. -/
theorem pcinfo (h : Serves host modules state) (pc : UIntPtr) :
    fullCalls (pcinfoReports host state pc).1 = answer host.allocError pc modules ∧
      Serves host modules (pcinfoReports host state pc).2 := by
  obtain ⟨hok, hfn, hsame, hcoh⟩ := h
  obtain ⟨hcalls, hsame', hcoh'⟩ := filelineReports_coherent pc _ hcoh
  have hfailed := (initializeReports_ok hok).1
  unfold pcinfoReports
  generalize initializeReports host state = r at *
  obtain ⟨errors, ok, state'⟩ := r
  simp only at hok hfn hsame hcoh hcalls hsame' hcoh' hfailed
  subst hok
  simp only [hfn, Bool.true_eq_false, if_false]
  refine ⟨by rw [fullCalls_append, fullCalls_errorReports, hcalls, hsame.answer_eq]; rfl, ?_⟩
  -- the state is settled, so that the next call does not initialize it again
  have hinit : initializeReports host { state' with
      filelineFn := some .dwarfFileline,
      filelineData := (filelineReports host.allocError pc state'.filelineData).2 } =
      ([], true, { state' with
        filelineFn := some .dwarfFileline,
        filelineData := (filelineReports host.allocError pc state'.filelineData).2 }) := by
    simp only [initializeReports, hfailed, Bool.false_eq_true, if_false, Option.isSome_some,
      if_true]
  constructor <;> rw [hinit]
  · exact SameModules.trans hsame hsame'
  · exact hcoh'

theorem afterPcinfo (pcs : List UIntPtr) : ∀ {state : BacktraceState},
    Serves host modules state → Serves host modules (afterPcinfo host state pcs) := by
  induction pcs with
  | nil => exact fun h => h
  | cons pc pcs ih => exact fun h => ih (h.pcinfo pc).2

end Serves

/-- **Lookups do not depend on earlier lookups**: after any sequence of them, a pc is answered as
at first. -/
theorem pcinfo_history {host : Host} {modules : List DwarfData} {state : BacktraceState}
    (h : Serves host modules state) (pcs : List UIntPtr) (pc : UIntPtr) :
    fullCalls (pcinfoReports host (afterPcinfo host state pcs) pc).1 =
      fullCalls (pcinfoReports host state pc).1 :=
  ((h.afterPcinfo pcs).pcinfo pc).1.trans (h.pcinfo pc).1.symm

/-- A fresh state serves the one unit of `Host.oneUnit`. -/
theorem serves_oneUnit (low high : UIntPtr) (filename : String) (lineno : CInt)
    (addrs : List FunctionAddrs) :
    ∃ modules, Serves (Host.oneUnit low high filename lineno addrs) modules
      (BacktraceState.init none false) := by
  refine ⟨_, rfl, rfl, SameModules.refl _, fun dd hdd => ?_⟩
  obtain rfl := List.mem_singleton.mp hdd
  exact ⟨fun _ => rfl, fun _ => rfl, rfl, fun _ => ⟨Or.inl rfl, Or.inl rfl⟩⟩

/-- A pc below the first line is asked for twice, and one with a line in between. -/
theorem pcinfo_history_oneUnit :
    let host := Host.oneUnit 0x1000 0x2000 "f.c" 5 []
    let state := BacktraceState.init none false
    fullCalls (pcinfoReports host (afterPcinfo host state [0x800, 0x1004]) 0x1008).1 =
      fullCalls (pcinfoReports host state 0x1008).1 :=
  let ⟨_, h⟩ := serves_oneUnit 0x1000 0x2000 "f.c" 5 []
  pcinfo_history h [0x800, 0x1004] 0x1008

/-! ## Units that cannot be read -/

/-- **A unit that cannot be read** answers the first lookup in it with nothing known, although the
range before contains the pc as well; the next lookup of the same pc passes it over. -/
theorem unreadable_unit_history {dd : DwarfData} {pc : UIntPtr} {i : Nat}
    (allocError : Option (String × CInt))
    (hfind : findRange unitAddrsSearch pc dd.addrs = some (i + 1))
    (hbefore : dd.rangeContains pc i = true)
    (hunread : (dd.units (dd.unitAt (i + 1))).lines = .unread)
    (hnone : (dd.info (dd.unitAt (i + 1))).lines = none) :
    let r := lookupReports allocError pc dd
    fullCalls r.1 = [⟨pc, none, 0, none⟩] ∧ r.2.1 = true ∧
      findUnit dd pc = some (i + 1) ∧ findUnit r.2.2 pc = some (skipUseless r.2.2 pc i) := by
  have hfirst : findUnit dd pc = some (i + 1) := by
    rw [findUnit, hfind, Option.map_some, skipUseless, if_pos hbefore, hunread]
  have hread : readUnit dd (dd.unitAt (i + 1)) =
      ((dd.info (dd.unitAt (i + 1))).errors, none, false, dd.setUnit (dd.unitAt (i + 1))
        { dd.units (dd.unitAt (i + 1)) with lines := .failed, functionAddrs := [] }) := by
    simp only [readUnit, hunread, hnone]
  have hlook : lookupReports allocError pc dd =
      (errorReports (dd.info (dd.unitAt (i + 1))).errors ++ [.full ⟨pc, none, 0, none⟩], true,
        dd.setUnit (dd.unitAt (i + 1))
          { dd.units (dd.unitAt (i + 1)) with lines := .failed, functionAddrs := [] }) := by
    simp only [lookupReports, hfirst, hread]
  rw [hlook]
  refine ⟨by simp [fullCalls_append], rfl, hfirst, ?_⟩
  simp only
  set dd' := dd.setUnit (dd.unitAt (i + 1))
    { dd.units (dd.unitAt (i + 1)) with lines := .failed, functionAddrs := [] } with hdd'
  have hfailed : (dd'.units (dd'.unitAt (i + 1))).lines = .failed := by
    simp [hdd', DwarfData.setUnit, DwarfData.unitAt]
  have hfind' : findRange unitAddrsSearch pc dd'.addrs = some (i + 1) := hfind
  have hbefore' : dd'.rangeContains pc i = true := hbefore
  rw [findUnit, hfind', Option.map_some, skipUseless, if_pos hbefore', hfailed]

/-- A unit that cannot be read inside the range of one that can. -/
def unreadableInside : DwarfData where
  addrs := [⟨0x1000, 0x2000, 0⟩, ⟨0x1400, 0x1800, 1⟩]
  units _ := ⟨none, none, none, .unread, []⟩
  fvec := []
  info u := ⟨[], if u = 0 then some ⟨[⟨0x1000, some "f.c", 5, 0⟩], List.pairwise_singleton _ _⟩
    else none, ⟨[], true⟩⟩

theorem unreadable_unit_history_inside :
    findRange unitAddrsSearch 0x1500 unreadableInside.addrs = some 1 ∧
      let r := lookupReports none 0x1500 unreadableInside
      fullCalls r.1 = [⟨0x1500, none, 0, none⟩] ∧ r.2.1 = true ∧
        findUnit unreadableInside 0x1500 = some 1 ∧
        findUnit r.2.2 0x1500 = some (skipUseless r.2.2 0x1500 0) := by
  have hfind : findRange unitAddrsSearch 0x1500 unreadableInside.addrs = some 1 := by decide
  exact ⟨hfind, unreadable_unit_history none hfind rfl rfl rfl⟩

/-! ## Functions that cannot be read -/

section Leftover

variable {dd dd' : DwarfData} {pc : UIntPtr} {i : Nat} {allocError : Option (String × CInt)}

/-- Reading a unit whose lines can be read changes nothing about the unit that is asked. -/
theorem findUnit_congr (haddrs : dd'.addrs = dd.addrs)
    (hlines : ∀ u, (dd'.units u).lines = .failed ↔ (dd.units u).lines = .failed) (pc : UIntPtr) :
    findUnit dd' pc = findUnit dd pc := by
  have hskip : ∀ i, skipUseless dd' pc i = skipUseless dd pc i := by
    intro i
    induction i with
    | zero => rfl
    | succ i ih =>
      have hiff := hlines (dd.unitAt (i + 1))
      unfold skipUseless DwarfData.rangeContains DwarfData.unitAt
      unfold DwarfData.unitAt at hiff
      rw [haddrs, ih]
      split
      · split
        · rename_i h
          rw [hiff.mp h]
        · rename_i h
          split
          · rename_i h'
            exact absurd (hiff.mpr h') h
          · rfl
      · rfl
  rw [findUnit, findUnit, haddrs, funext hskip]

/-- A pc in a line of a unit that was not read yet. -/
structure Unread (dd : DwarfData) (pc : UIntPtr) (i : Nat) (t : LineTable) : Prop where
  find : findUnit dd pc = some i
  unread : (dd.units (dd.unitAt i)).lines = .unread
  lines : (dd.info (dd.unitAt i)).lines = some t

namespace Unread

variable {t : LineTable}

theorem readUnit_eq (h : Unread dd pc i t) : readUnit dd (dd.unitAt i) =
    let r := takeFunctions dd.fvec (dd.info (dd.unitAt i)).functions
    ((dd.info (dd.unitAt i)).errors, some t, true, { dd.setUnit (dd.unitAt i)
      { dd.units (dd.unitAt i) with lines := .table t, functionAddrs := r.1 } with fvec :=
        r.2 }) := by
  simp only [readUnit, h.unread, h.lines]

/-- The unit answers with the functions that it takes from the vector. -/
theorem fullCalls_lookupReports (h : Unread dd pc i t) {ln : Line} (hline : t.lookup pc = some ln) :
    fullCalls (lookupReports allocError pc dd).1 =
      functionCalls pc (takeFunctions dd.fvec (dd.info (dd.unitAt i)).functions).1 ln := by
  simp only [lookupReports, h.find, h.readUnit_eq, hline, fullCalls_append, fullCalls_errorReports,
    fullCalls_map_full, List.nil_append, DwarfData.setUnit, if_true]

/-- What a lookup leaves. -/
theorem after_lookupReports (h : Unread dd pc i t) (allocError : Option (String × CInt)) :
    let dd' := (lookupReports allocError pc dd).2.2
    let r := takeFunctions dd.fvec (dd.info (dd.unitAt i)).functions
    dd'.addrs = dd.addrs ∧ dd'.info = dd.info ∧ dd'.fvec = r.2 ∧
      (dd'.units (dd.unitAt i)).lines = .table t ∧
      (dd'.units (dd.unitAt i)).functionAddrs = r.1 ∧
      ∀ u, u ≠ dd.unitAt i → dd'.units u = dd.units u := by
  simp only [lookupReports, h.find, h.readUnit_eq]
  cases t.lookup pc with
  | some ln =>
    refine ⟨rfl, rfl, rfl, ?_, ?_, fun u hu => ?_⟩ <;> simp [DwarfData.setUnit, *]
  | none =>
    simp only
    split
    · refine ⟨rfl, rfl, rfl, ?_, ?_, fun u hu => ?_⟩ <;> simp [DwarfData.setUnit, *]
    · refine ⟨rfl, rfl, rfl, ?_, ?_, fun u hu => ?_⟩ <;> simp [DwarfData.setUnit, *]

end Unread

/-- **Functions that were read only in part** are not those of their unit, but of the unit whose
functions are read next, with its own. -/
theorem unread_functions_history {pc' : UIntPtr} {j : Nat} {t t' : LineTable} {ln : Line}
    (allocError : Option (String × CInt)) (h : Unread dd pc i t)
    (hcut : (dd.info (dd.unitAt i)).functions.complete = false) (h' : Unread dd pc' j t')
    (hne : dd.unitAt j ≠ dd.unitAt i) (hline : t'.lookup pc' = some ln) :
    let dd' := (lookupReports allocError pc dd).2.2
    (dd'.units (dd.unitAt i)).functionAddrs = [] ∧
      fullCalls (lookupReports allocError pc' dd).1 =
        functionCalls pc' (takeFunctions dd.fvec (dd.info (dd.unitAt j)).functions).1 ln ∧
      fullCalls (lookupReports allocError pc' dd').1 =
        functionCalls pc' (takeFunctions (dd.fvec ++ (dd.info (dd.unitAt i)).functions.added)
          (dd.info (dd.unitAt j)).functions).1 ln := by
  intro dd'
  obtain ⟨haddrs, hinfo, hfvec, htable, hfns, hother⟩ := h.after_lookupReports allocError
  have htake : takeFunctions dd.fvec (dd.info (dd.unitAt i)).functions =
      ([], dd.fvec ++ (dd.info (dd.unitAt i)).functions.added) := by
    simp only [takeFunctions, hcut, Bool.false_eq_true, if_false]
  rw [htake] at hfvec hfns
  refine ⟨hfns, h'.fullCalls_lookupReports hline, ?_⟩
  have hfailed : ∀ u, (dd'.units u).lines = .failed ↔ (dd.units u).lines = .failed := by
    intro u
    by_cases hu : u = dd.unitAt i
    · rw [hu, htable, h.unread]
      simp
    · rw [hother u hu]
  have hunit : dd'.unitAt j = dd.unitAt j := by
    unfold DwarfData.unitAt
    rw [haddrs]
  have hnext : Unread dd' pc' j t' := by
    refine ⟨(findUnit_congr haddrs hfailed pc').trans h'.find, ?_, ?_⟩
    · rw [hunit, hother _ hne]
      exact h'.unread
    · rw [hunit, hinfo]
      exact h'.lines
  rw [hnext.fullCalls_lookupReports hline, hfvec, hunit, hinfo]

/-- Two units; the reading of the functions of the first ends behind `f`, which has addresses of the
second. -/
def cutFunctions : DwarfData where
  addrs := [⟨0x1000, 0x2000, 0⟩, ⟨0x2000, 0x3000, 1⟩]
  units _ := ⟨none, none, none, .unread, []⟩
  fvec := []
  info u := ⟨[], some ⟨[⟨0x1000, some "f.c", 5, 0⟩], List.pairwise_singleton _ _⟩,
    if u = 0 then ⟨[⟨0x1800, 0x2800, .mk "f" none 0 []⟩], false⟩ else ⟨[], true⟩⟩

/-- After a lookup in the first unit, `f` is reported for a pc of the second. -/
theorem unread_functions_history_cut :
    let dd' := (lookupReports none 0x1500 cutFunctions).2.2
    (dd'.units 0).functionAddrs = [] ∧
      fullCalls (lookupReports none 0x2100 cutFunctions).1 = [⟨0x2100, some "f.c", 5, none⟩] ∧
      fullCalls (lookupReports none 0x2100 dd').1 = [⟨0x2100, some "f.c", 5, some "f"⟩] :=
  @unread_functions_history cutFunctions 0x1500 0 0x2100 1 _ _ _ none ⟨by decide, rfl, rfl⟩ rfl
    ⟨by decide, rfl, rfl⟩ (by decide) rfl

end Leftover

end Bktce.Libbacktrace
