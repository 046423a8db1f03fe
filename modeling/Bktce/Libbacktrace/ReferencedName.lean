import Bktce.Lib.Chain
import Bktce.Libbacktrace.Die

/-!
# Names of referenced entries

Model of `read_referenced_name` (`dwarf.c:2050-2148`), which `read_function_entry` calls for a
`DW_AT_abstract_origin` or a `DW_AT_specification`.

* The function calls itself for a `DW_AT_specification`, and not for a `DW_AT_abstract_origin`.
  `depth` says for how many calls there is room on the stack; where it is used up, the call is a
  `fault`.
* An error on the way is reported, and there is no name.

Results:

* `readReferencedName_complete`: the name a reference stands for (`NameAt`).
* `readReferencedName_faults_iff`: a stack is too small exactly if there is a chain of references
  (`Refers`) as long as it is deep.
* `refers_iff_specifies`: the references followed are specifications (`Specifies`).
* `readReferencedName_diverges_iff`: no stack is deep enough exactly if the specifications come to
  one that leads back to itself.
-/

namespace Bktce.Libbacktrace

open Bktce.Lib Buf

/-! ## The reader -/

/-- `NULL` where `x` fails. -/
def orNull {α : Type} (x : Read (Option α)) : Read (Option α) := fun buf =>
  match x.run buf with
  | .error .failed b => .ok none b
  | r => r

/-- The place in the unit a reference names, if it does. -/
def referencedOffset (form : DwarfForm) (val : AttrVal) : Option (BitVec 64) :=
  if form = .refAddr ∨ form = .refSig8 then none
  else
    match val with
    | .uint v => some v
    | .refUnit v => some v
    | _ => none

/-- The cases of the switch in `read_referenced_name`. -/
inductive NameAttr where
  | name (s : String)
  | linkageName (s : String)
  | specification (offset : BitVec 64)
  | other

/-- The case of an attribute. -/
def nameAttr (attr : Attr) (val : AttrVal) : NameAttr :=
  match attr.name, val with
  | .name, .string s => .name s
  | .linkageName, .string s => .linkageName s
  | .mipsLinkageName, .string s => .linkageName s
  | .specification, val => ((referencedOffset attr.form val).map .specification).getD .other
  | _, _ => .other

/-- The loop of `read_referenced_name`; `self` is the call it makes of itself. -/
def readNameAttrs (u : UnitFormat) (self : BitVec 64 → Read (Option String)) :
    List Attr → Option String → Read (Option String)
  | [], ret => return ret
  | attr :: attrs, ret => do
    let val ← readAttribute u attr.form
    match nameAttr attr val with
    | .name s => readNameAttrs u self attrs (some s)
    | .linkageName s => return some s
    | .specification off => do
      let name ← self off
      readNameAttrs u self attrs (name.or ret)
    | .other => readNameAttrs u self attrs ret

/-- The name of the entry that is ahead. -/
def readName (u : InfoUnit) (self : BitVec 64 → Read (Option String)) : Read (Option String) := do
  let code ← readUleb128
  if code = 0 then
    dwarfBufError "invalid abstract origin or specification"
    return none
  let a ← lookupAbbrev u.abbrevs code
  readNameAttrs u.format self a.attrs none

/-- The buffer at a place in the data of a unit. -/
def unitDataBuf (sec : Sections) (u : InfoUnit) (offset : SizeT) : Buf where
  name := ".debug_info"
  pos := u.unitData + offset.toNat
  rest := sec.dwarfInfo.drop (u.unitData + offset.toNat)
  left := u.unitDataLen - offset
  isBigendian := sec.isBigendian
  reportedUnderflow := false
  errors := []

/-- `read_referenced_name`. -/
def readReferencedName (sec : Sections) (u : InfoUnit) : Nat → BitVec 64 → Read (Option String)
  | 0, _ => throw .fault
  | depth + 1, offset => do
    if offset < u.unitDataOffset ∨ offset - u.unitDataOffset ≥ u.unitDataLen then
      errorCallback "abstract origin or specification out of range"
      return none
    orNull (throughCopy (unitDataBuf sec u (offset - u.unitDataOffset))
      (readName u (readReferencedName sec u depth)))

/-! ## What names stand for -/

/-- The places a name may be taken from, up to a linkage name. -/
def specOffsets : List Attr → List AttrVal → List (BitVec 64)
  | attr :: attrs, val :: vals =>
    match nameAttr attr val with
    | .linkageName _ => []
    | .specification off => off :: specOffsets attrs vals
    | _ => specOffsets attrs vals
  | _, _ => []

/-- The name an entry says; `name` is what references stand for. -/
def nameOf (name : BitVec 64 → Option String) :
    List Attr → List AttrVal → Option String → Option String
  | attr :: attrs, val :: vals, ret =>
    match nameAttr attr val with
    | .name s => nameOf name attrs vals (some s)
    | .linkageName s => some s
    | .specification off => nameOf name attrs vals ((name off).or ret)
    | .other => nameOf name attrs vals ret
  | _, _, ret => ret

/-- The entry a reference names. -/
def EntryAt (sec : Sections) (u : InfoUnit) (offset : BitVec 64) (a : Abbrev)
    (vals : List AttrVal) :
    Prop :=
  u.unitDataOffset ≤ offset ∧ offset - u.unitDataOffset < u.unitDataLen ∧ ∃ bs,
    bs <+: (sec.dwarfInfo.drop (u.unitData + (offset - u.unitDataOffset).toNat)).take
      (u.unitDataLen - (offset - u.unitDataOffset)).toNat ∧
    EntryBytes sec.isBigendian u a (u.unitData + (offset - u.unitDataOffset).toNat) vals bs

/-- A reference stands for its `name`, at the end of less than `depth` further references. -/
def NameAt (sec : Sections) (u : InfoUnit) (name : BitVec 64 → Option String) :
    Nat → BitVec 64 → Prop
  | 0, _ => False
  | depth + 1, offset => ∃ a vals, EntryAt sec u offset a vals ∧
      (∀ off ∈ specOffsets a.attrs vals, NameAt sec u name depth off) ∧
      name offset = nameOf name a.attrs vals none

/-- The data of the unit is in the section. -/
structure InfoUnit.Fits (u : InfoUnit) (sec : Sections) : Prop where
  section_lt : sec.dwarfInfo.length < 2 ^ 63
  data_le : u.unitData + u.unitDataLen.toNat ≤ sec.dwarfInfo.length

section Names

variable {sec : Sections} {u : InfoUnit} {name : BitVec 64 → Option String}

theorem unitDataBuf_ok (hu : u.Fits sec) {offset : SizeT} (hoff : offset ≤ u.unitDataLen) :
    (cursor sec.isBigendian).Ok (unitDataBuf sec u offset) := by
  rw [BitVec.le_def] at hoff
  have hlt := hu.section_lt
  have hle := hu.data_le
  refine ⟨⟨?_, ?_⟩, rfl, rfl⟩
  · change (u.unitDataLen - offset).toNat ≤ (sec.dwarfInfo.drop (u.unitData + offset.toNat)).length
    rw [BitVec.toNat_sub_of_le (BitVec.le_def.mpr hoff), List.length_drop]
    omega
  · change (sec.dwarfInfo.drop (u.unitData + offset.toNat)).length < 2 ^ 63
    rw [List.length_drop]
    omega

/-- The loop over the attributes of an entry that is ahead. -/
theorem readNameAttrs_complete {self : BitVec 64 → Read (Option String)} (attrs : List Attr) :
    ∀ {vals : List AttrVal} {ret : Option String} {buf : Buf} {bs : List Byte},
      (∀ off ∈ specOffsets attrs vals, ∀ b : Buf, (self off).run b = .ok (name off) b) →
      (cursor sec.isBigendian).Ok buf → bs <+: (cursor sec.isBigendian).ahead buf →
      ValsBytes sec.isBigendian u.format attrs buf.pos vals bs →
      ∃ n, (readNameAttrs u.format self attrs ret).run buf =
        .ok (nameOf name attrs vals ret) (buf.skip n) := by
  induction attrs with
  | nil =>
    rintro vals ret buf bs - - - ⟨rfl, rfl⟩
    exact ⟨0, congrArg _ ((cursor sec.isBigendian).skip_zero buf).symm⟩
  | cons attr attrs ih =>
    rintro _ ret buf _ hself hok hbs ⟨val, as, cs, rfl, hval, vals, hvals, rfl⟩
    obtain ⟨has, hcs⟩ := prefix_drop.mp hbs
    have hrun : (readAttribute u.format attr.form).run buf = .ok val (buf.skip as.length) :=
      (reads_readAttribute attr.form).complete hok has hval
    have hok' := (cursor sec.isBigendian).ok_skip hok has.length_le
    have hcs' := (cursor sec.isBigendian).ahead_skip has.length_le ▸ hcs
    -- the rest of the loop is behind the value
    have next : ∀ ret : Option String, (∀ off ∈ specOffsets attrs vals, ∀ b : Buf,
          (self off).run b = .ok (name off) b) →
        ∃ n, (readNameAttrs u.format self attrs ret).run (buf.skip as.length) =
          .ok (nameOf name attrs vals ret) (buf.skip n) := by
      intro ret hself
      obtain ⟨n, hn⟩ := @ih vals ret _ cs hself hok' hcs' hvals
      exact ⟨as.length + n, hn.trans (congrArg _ (skip_skip buf as.length n))⟩
    rw [readNameAttrs, EStateM.run_bind, hrun]
    simp only
    rw [specOffsets] at hself
    rw [nameOf]
    cases hcase : nameAttr attr val with
    | name s =>
      rw [hcase] at hself
      exact next (some s) hself
    | linkageName s => exact ⟨as.length, rfl⟩
    | specification off =>
      rw [hcase, List.forall_mem_cons] at hself
      simp only
      rw [EStateM.run_bind, hself.1]
      exact next ((name off).or ret) hself.2
    | other =>
      rw [hcase] at hself
      exact next ret hself

/-- The entry that is ahead. -/
theorem readName_complete {self : BitVec 64 → Read (Option String)} {a : Abbrev}
    {vals : List AttrVal} {buf : Buf} {bs : List Byte}
    (hself : ∀ off ∈ specOffsets a.attrs vals, ∀ b : Buf, (self off).run b = .ok (name off) b)
    (hok : (cursor sec.isBigendian).Ok buf) (hbs : bs <+: (cursor sec.isBigendian).ahead buf)
    (h : EntryBytes sec.isBigendian u a buf.pos vals bs) :
    ∃ n, (readName u self).run buf = .ok (nameOf name a.attrs vals none) (buf.skip n) := by
  obtain ⟨code, as, vs, rfl, hcode, hne, hfind, hvals⟩ := h
  obtain ⟨has, hvs⟩ := prefix_drop.mp hbs
  have hok' := (cursor sec.isBigendian).ok_skip hok has.length_le
  have hvs' := (cursor sec.isBigendian).ahead_skip has.length_le ▸ hvs
  obtain ⟨n, hattrs⟩ := @readNameAttrs_complete sec u name self a.attrs vals none _ vs hself hok'
    hvs' hvals
  refine ⟨as.length + n, ?_⟩
  rw [readName, EStateM.run_bind, reads_readUleb128.complete hok has hcode]
  simp only
  rw [if_neg hne, lookupAbbrev, hfind, EStateM.run_bind, EStateM.run_pure, ← skip_skip]
  exact hattrs

/-- **The name of a reference** is read without an error. -/
theorem readReferencedName_complete (hu : u.Fits sec) (depth : Nat) : ∀ {offset : BitVec 64},
    NameAt sec u name depth offset → ∀ buf : Buf,
      (readReferencedName sec u depth offset).run buf = .ok (name offset) buf := by
  induction depth with
  | zero => exact fun h => h.elim
  | succ depth ih =>
    rintro offset ⟨a, vals, ⟨hle, hlt, bs, hbs, hentry⟩, hspecs, hname⟩ buf
    have hrange : ¬ (offset < u.unitDataOffset ∨ offset - u.unitDataOffset ≥ u.unitDataLen) := by
      rw [not_or, BitVec.not_lt, BitVec.not_le]
      exact ⟨hle, hlt⟩
    have hok : (cursor sec.isBigendian).Ok
        { unitDataBuf sec u (offset - u.unitDataOffset) with errors := buf.errors } :=
      ⟨(unitDataBuf_ok hu (BitVec.le_of_lt hlt)).1.withErrors _, rfl, rfl⟩
    obtain ⟨n, hread⟩ := readName_complete (fun off hoff b => ih (hspecs off hoff) b) hok hbs hentry
    have hcopy := throughCopy_run hread rfl
    rw [← hname] at hcopy
    rw [readReferencedName, if_neg hrange]
    change orNull _ buf = _
    rw [orNull, hcopy]

end Names

/-! ## Reading a value again -/

section Lockstep

theorem lockstep_advanceOrFail (count : SizeT) :
    Lockstep Same (advanceOrFail count) (advanceOrFail count) :=
  (lockstep_advance count).bind fun _ => (Lockstep.throw _).ite (Lockstep.pure _)

theorem lockstep_readAddress (addrsize : Nat) :
    Lockstep Same (readAddress addrsize) (readAddress addrsize) := by
  unfold readAddress
  split
  · exact (lockstep_readUInt 1).bind fun _ => Lockstep.pure _
  · exact (lockstep_readUInt 2).bind fun _ => Lockstep.pure _
  · exact (lockstep_readUInt 4).bind fun _ => Lockstep.pure _
  · exact lockstep_readUInt 8
  · exact (lockstep_dwarfBufError _).bind fun _ => Lockstep.pure _

theorem lockstep_readOffset (isDwarf64 : Bool) :
    Lockstep Same (readOffset isDwarf64) (readOffset isDwarf64) :=
  (lockstep_readUInt 8).ite ((lockstep_readUInt 4).bind fun _ => Lockstep.pure _)

theorem lockstep_strnlen (p : List Byte) (maxlen : SizeT) :
    Lockstep Same (strnlen p maxlen) (strnlen p maxlen) :=
  (Lockstep.pure _).ite ((Lockstep.pure _).ite (Lockstep.throw _))

theorem lockstep_readString : Lockstep Same readString readString := by
  refine Lockstep.get_bind fun s t h => ?_
  rw [h.rest, h.left]
  exact (lockstep_strnlen _ _).bind fun _ => (lockstep_advanceOrFail _).bind fun _ =>
    Lockstep.pure _

theorem lockstep_readSleb128 : Lockstep Same readSleb128 readSleb128 := by
  refine Lockstep.bind (Lockstep.get_bind fun s t h => ?_) fun o => ?_
  · rw [h.rest]
    exact lockstep_lebLoop _ _ _ _ _
  · cases o with
    | none => exact Lockstep.pure _
    | some r => exact (Lockstep.pure _).ite (Lockstep.pure _)

theorem lockstep_readStrp (u : UnitFormat) : Lockstep Same (readStrp u) (readStrp u) :=
  (lockstep_readOffset _).bind fun _ =>
    ((lockstep_dwarfBufError _).bind fun _ => Lockstep.throw _).ite (Lockstep.pure _)

theorem lockstep_readForm {u : UnitFormat} {self : DwarfForm → Read AttrVal}
    (hself : ∀ form, Lockstep Same (self form) (self form)) (form : DwarfForm) :
    Lockstep Same (readForm u self form) (readForm u self form) := by
  have value : ∀ {w : Nat} {x : Read (BitVec w)} (f : BitVec w → AttrVal), Lockstep Same x x →
      Lockstep Same (x >>= fun v => pure (f v)) (x >>= fun v => pure (f v)) :=
    fun f hx => hx.bind fun _ => Lockstep.pure _
  have block : ∀ {w : Nat} {x : Read (BitVec w)} (f : BitVec w → SizeT) (v : AttrVal),
      Lockstep Same x x → Lockstep Same (x >>= fun n => advanceOrFail (f n) >>= fun _ => pure v)
        (x >>= fun n => advanceOrFail (f n) >>= fun _ => pure v) :=
    fun f v hx => hx.bind fun n => (lockstep_advanceOrFail _).bind fun _ => Lockstep.pure _
  have hleb := lockstep_readUleb128
  have haddr := lockstep_readAddress u.addrsize
  have hoff := lockstep_readOffset u.isDwarf64
  cases form with
  | addr => exact value _ haddr
  | block2 => exact block _ _ (lockstep_readUInt 2)
  | block4 => exact block _ _ (lockstep_readUInt 4)
  | data2 => exact value _ (lockstep_readUInt 2)
  | data4 => exact value _ (lockstep_readUInt 4)
  | data8 => exact value _ (lockstep_readUInt 8)
  | string => exact lockstep_readString.bind fun _ => Lockstep.pure _
  | block => exact block (fun n => n) _ hleb
  | block1 => exact block _ _ lockstep_readByte
  | data1 => exact value _ lockstep_readByte
  | flag => exact value _ lockstep_readByte
  | sdata => exact value _ lockstep_readSleb128
  | strp => exact lockstep_readStrp u
  | udata => exact value _ hleb
  | refAddr => exact (value _ haddr).ite (value _ hoff)
  | ref1 => exact value _ lockstep_readByte
  | ref2 => exact value _ (lockstep_readUInt 2)
  | ref4 => exact value _ (lockstep_readUInt 4)
  | ref8 => exact value _ (lockstep_readUInt 8)
  | refUdata => exact value _ hleb
  | indirect => exact hleb.bind fun _ => hself _
  | secOffset => exact value _ hoff
  | exprloc => exact block (fun n => n) _ hleb
  | flagPresent => exact Lockstep.pure _
  | refSig8 => exact value _ (lockstep_readUInt 8)
  | gnuAddrIndex => exact value _ hleb
  | gnuStrIndex => exact value _ hleb
  | gnuRefAlt => exact value _ hoff
  | gnuStrpAlt => exact value _ hoff
  | other n => exact (lockstep_dwarfBufError _).bind fun _ => Lockstep.throw _

theorem lockstep_readAttributeFuel (u : UnitFormat) (fuel : Nat) : ∀ form : DwarfForm,
    Lockstep Same (readAttributeFuel u fuel form) (readAttributeFuel u fuel form) := by
  induction fuel with
  | zero => exact fun _ => Lockstep.throw _
  | succ fuel ih => exact lockstep_readForm ih

/-- What a value is does not depend on what was reported. -/
theorem lockstep_readAttribute (u : UnitFormat) (form : DwarfForm) :
    Lockstep Same (readAttribute u form) (readAttribute u form) := by
  refine Lockstep.get_bind fun s t h => ?_
  rw [h.rest]
  exact lockstep_readAttributeFuel u _ form

end Lockstep

/-! ## The depth of the recursion -/

/-- The references that are followed from the attributes ahead. -/
def attrRefs (u : UnitFormat) : List Attr → Buf → List (BitVec 64)
  | [], _ => []
  | attr :: attrs, buf =>
    match (readAttribute u attr.form).run buf with
    | .error _ _ => []
    | .ok val buf =>
      match nameAttr attr val with
      | .linkageName _ => []
      | .specification off => off :: attrRefs u attrs buf
      | _ => attrRefs u attrs buf

/-- The references that are followed from the entry ahead. -/
def entryRefs (u : InfoUnit) (buf : Buf) : List (BitVec 64) :=
  match readUleb128.run buf with
  | .error _ _ => []
  | .ok code buf =>
    if code = 0 then []
    else
      match findAbbrev u.abbrevs code with
      | some a => attrRefs u.format a.attrs buf
      | none => []

/-- The entry at one place refers to the one at the other. -/
def Refers (sec : Sections) (u : InfoUnit) (offset offset' : BitVec 64) : Prop :=
  ¬ (offset < u.unitDataOffset ∨ offset - u.unitDataOffset ≥ u.unitDataLen) ∧
    offset' ∈ entryRefs u (unitDataBuf sec u (offset - u.unitDataOffset))

instance (sec : Sections) (u : InfoUnit) (offset offset' : BitVec 64) :
    Decidable (Refers sec u offset offset') := by
  unfold Refers
  infer_instance

/-- One of the attributes that are ahead is a specification within the unit, and no linkage name is
before it. -/
inductive SpecAhead (u : UnitFormat) (off : BitVec 64) : List Attr → Buf → Prop
  | here {attr : Attr} {attrs : List Attr} {buf buf' : Buf} {val : AttrVal}
      (read : (readAttribute u attr.form).run buf = .ok val buf')
      (name : attr.name = .specification) (form : attr.form ≠ .refAddr ∧ attr.form ≠ .refSig8)
      (val : val = .uint off ∨ val = .refUnit off) : SpecAhead u off (attr :: attrs) buf
  | behind {attr : Attr} {attrs : List Attr} {buf buf' : Buf} {val : AttrVal}
      (read : (readAttribute u attr.form).run buf = .ok val buf')
      (name : attr.name = .linkageName ∨ attr.name = .mipsLinkageName → ∀ s, val ≠ .string s)
      (rest : SpecAhead u off attrs buf') : SpecAhead u off (attr :: attrs) buf

/-- The entry at one place of the unit has a `DW_AT_specification` that names the other. -/
def Specifies (sec : Sections) (u : InfoUnit) (offset offset' : BitVec 64) : Prop :=
  (u.unitDataOffset ≤ offset ∧ offset - u.unitDataOffset < u.unitDataLen) ∧
    ∃ code buf a, readUleb128.run (unitDataBuf sec u (offset - u.unitDataOffset)) = .ok code buf ∧
      code ≠ 0 ∧ findAbbrev u.abbrevs code = some a ∧ SpecAhead u.format offset' a.attrs buf

/-- There is no room left on the stack. -/
def Faults {α : Type} (x : Read α) (buf : Buf) : Prop := ∃ b, x.run buf = .error .fault b

/-- Calls that fault where `P` says so, and only report something elsewhere. -/
structure FaultsWhere (P : BitVec 64 → Prop) (call : BitVec 64 → Read (Option String)) : Prop where
  faults : ∀ {off}, P off → ∀ b, Faults (call off) b
  reports : ∀ {off}, ¬ P off → ∀ b, ∃ v b', (call off).run b = .ok v b' ∧ Same b b'

section Depth

variable {sec : Sections} {u : InfoUnit} {P : BitVec 64 → Prop}
  {self : BitVec 64 → Read (Option String)}

theorem attrRefs_same {u : UnitFormat} (attrs : List Attr) : ∀ {s t : Buf}, Same s t →
    attrRefs u attrs s = attrRefs u attrs t := by
  induction attrs with
  | nil => exact fun _ => rfl
  | cons attr attrs ih =>
    intro s t h
    have hm := lockstep_readAttribute u attr.form h
    rw [attrRefs, attrRefs]
    cases hs : (readAttribute u attr.form).run s with
    | error e s' =>
      cases ht : (readAttribute u attr.form).run t with
      | error e' t' => rfl
      | ok w t' =>
        rw [hs, ht] at hm
        exact hm.elim
    | ok v s' =>
      obtain ⟨t', ht, h'⟩ := (lockstep_readAttribute u attr.form).ok h hs
      rw [ht]
      simp only
      rw [ih h']

theorem entryRefs_same {s t : Buf} (h : Same s t) : entryRefs u s = entryRefs u t := by
  have hm := lockstep_readUleb128 h
  rw [entryRefs, entryRefs]
  cases hs : readUleb128.run s with
  | error e s' =>
    cases ht : readUleb128.run t with
    | error e' t' => rfl
    | ok w t' =>
      rw [hs, ht] at hm
      exact hm.elim
  | ok v s' =>
    obtain ⟨t', ht, h'⟩ := lockstep_readUleb128.ok h hs
    rw [ht]
    simp only
    split
    · rfl
    · cases findAbbrev u.abbrevs v with
      | some a => exact attrRefs_same a.attrs h'
      | none => rfl

theorem referencedOffset_eq_some_iff {form : DwarfForm} {val : AttrVal} {off : BitVec 64} :
    referencedOffset form val = some off ↔
      (form ≠ .refAddr ∧ form ≠ .refSig8) ∧ (val = .uint off ∨ val = .refUnit off) := by
  unfold referencedOffset
  by_cases h : form = .refAddr ∨ form = .refSig8
  · rw [if_pos h, ← not_or]
    simp [h]
  · rw [if_neg h, ← not_or]
    cases val <;> simp [h]

theorem nameAttr_eq_specification_iff {attr : Attr} {val : AttrVal} {off : BitVec 64} :
    nameAttr attr val = .specification off ↔ attr.name = .specification ∧
      (attr.form ≠ .refAddr ∧ attr.form ≠ .refSig8) ∧ (val = .uint off ∨ val = .refUnit off) := by
  rw [← referencedOffset_eq_some_iff]
  unfold nameAttr
  split
  · simp [*]
  · simp [*]
  · simp [*]
  · rename_i val _ _ h
    rw [h]
    cases hoff : referencedOffset attr.form val <;> simp
  · rename_i h _ _ _
    exact iff_of_false (fun h => nomatch h) fun hs => h hs.1

theorem nameAttr_eq_linkageName_iff {attr : Attr} {val : AttrVal} {s : String} :
    nameAttr attr val = .linkageName s ↔
      (attr.name = .linkageName ∨ attr.name = .mipsLinkageName) ∧ val = .string s := by
  unfold nameAttr
  split
  · simp [*]
  · simp [*]
  · simp [*]
  · rename_i val _ _ h
    cases hoff : referencedOffset attr.form val <;> simp [h]
  · rename_i hlinkage hmips
    refine iff_of_false (fun h => nomatch h) ?_
    rintro ⟨hname | hname, hval⟩
    · exact hlinkage s hname hval
    · exact hmips s hname hval

/-- What is followed from the attributes ahead are their specifications. -/
theorem mem_attrRefs_iff {u : UnitFormat} {off : BitVec 64} (attrs : List Attr) : ∀ {buf : Buf},
    off ∈ attrRefs u attrs buf ↔ SpecAhead u off attrs buf := by
  induction attrs with
  | nil =>
    intro buf
    exact iff_of_false List.not_mem_nil fun h => nomatch h
  | cons attr attrs ih =>
    intro buf
    rw [attrRefs]
    cases hrun : (readAttribute u attr.form).run buf with
    | error e b =>
      refine iff_of_false List.not_mem_nil ?_
      rintro (⟨read, -, -, -⟩ | ⟨read, -, -⟩) <;> rw [hrun] at read <;> cases read
    | ok val b =>
      have hread : ∀ {val' b'}, (readAttribute u attr.form).run buf = .ok val' b' →
          val' = val ∧ b' = b := fun h => by
        rw [hrun] at h
        cases h
        exact ⟨rfl, rfl⟩
      simp only
      constructor
      · intro h
        split at h
        · cases h
        · rename_i o hspec
          obtain ⟨hname, hform, hval⟩ := nameAttr_eq_specification_iff.mp hspec
          rcases List.mem_cons.mp h with rfl | h
          · exact .here hrun hname hform hval
          · exact .behind hrun (fun hl => by rw [hname] at hl; simp at hl) (ih.mp h)
        · rename_i hno _
          exact .behind hrun (fun hl s hs => hno s (nameAttr_eq_linkageName_iff.mpr ⟨hl, hs⟩))
            (ih.mp h)
      · rintro (⟨read, name, form, hval⟩ | ⟨read, name, rest⟩)
        · obtain ⟨rfl, rfl⟩ := hread read
          rw [nameAttr_eq_specification_iff.mpr ⟨name, form, hval⟩]
          exact List.mem_cons_self
        · obtain ⟨rfl, rfl⟩ := hread read
          split
          · rename_i s hl
            obtain ⟨hl, hs⟩ := nameAttr_eq_linkageName_iff.mp hl
            exact absurd hs (name hl s)
          · exact List.mem_cons_of_mem _ (ih.mpr rest)
          · exact ih.mpr rest

/-- The references followed are the specifications. -/
theorem refers_iff_specifies {offset offset' : BitVec 64} :
    Refers sec u offset offset' ↔ Specifies sec u offset offset' := by
  unfold Refers Specifies
  rw [not_or, BitVec.not_lt, BitVec.not_le, entryRefs]
  refine and_congr_right fun _ => ?_
  cases hrun : readUleb128.run (unitDataBuf sec u (offset - u.unitDataOffset)) with
  | error e b => simp
  | ok code b =>
    simp only [EStateM.Result.ok.injEq]
    constructor
    · intro h
      by_cases hzero : code = 0
      · rw [if_pos hzero] at h
        cases h
      · rw [if_neg hzero] at h
        cases hfind : findAbbrev u.abbrevs code with
        | none =>
          rw [hfind] at h
          cases h
        | some a =>
          rw [hfind] at h
          exact ⟨code, b, a, ⟨rfl, rfl⟩, hzero, hfind, (mem_attrRefs_iff a.attrs).mp h⟩
    · rintro ⟨_, _, a, ⟨rfl, rfl⟩, hne, hfind, h⟩
      rw [if_neg hne, hfind]
      exact (mem_attrRefs_iff a.attrs).mpr h

theorem specifies_eq_refers : Specifies sec u = Refers sec u := by
  funext offset offset'
  exact propext refers_iff_specifies.symm

theorem not_faults_of_failed {α : Type} {x : Read α} {buf b : Buf}
    (h : x.run buf = .error .failed b) : ¬ Faults x buf := by
  rintro ⟨b', hb⟩
  rw [h] at hb
  cases hb

theorem not_faults_of_ok {α : Type} {x : Read α} {buf b : Buf} {v : α} (h : x.run buf = .ok v b) :
    ¬ Faults x buf := by
  rintro ⟨b', hb⟩
  rw [h] at hb
  cases hb

theorem faults_bind_ok {α γ : Type} {x : Read α} {f : α → Read γ} {buf b : Buf} {v : α}
    (h : x.run buf = .ok v b) : Faults (x >>= f) buf ↔ Faults (f v) b := by
  unfold Faults
  rw [EStateM.run_bind, h]

theorem not_faults_bind {α γ : Type} {x : Read α} {f : α → Read γ} {buf b : Buf} {e : Stop}
    (h : x.run buf = .error e b) (hfail : e = .failed) : ¬ Faults (x >>= f) buf := by
  refine not_faults_of_failed (b := b) ?_
  rw [EStateM.run_bind, h, hfail]

/-- The loop calls itself for the references, and for nothing else. -/
theorem readNameAttrs_faults_iff {u : UnitFormat} (hself : FaultsWhere P self) (attrs : List Attr) :
    ∀ {ret : Option String} {buf : Buf}, buf.Within →
      (Faults (readNameAttrs u self attrs ret) buf ↔ ∃ off ∈ attrRefs u attrs buf, P off) := by
  induction attrs with
  | nil =>
    intro ret buf _
    refine iff_of_false (not_faults_of_ok rfl) ?_
    rintro ⟨off, hoff, -⟩
    cases hoff
  | cons attr attrs ih =>
    intro ret buf hw
    rw [readNameAttrs, attrRefs]
    cases hrun : (readAttribute u attr.form).run buf with
    | error e b =>
      refine iff_of_false (not_faults_bind hrun
        ((noFault_readAttribute u attr.form hw).error hrun)) ?_
      rintro ⟨off, hoff, -⟩
      cases hoff
    | ok val b =>
      have hb := ((noFault_readAttribute u attr.form hw).ok hrun).1
      rw [faults_bind_ok hrun]
      simp only
      cases hcase : nameAttr attr val with
      | name s => exact ih hb
      | linkageName s =>
        refine iff_of_false (not_faults_of_ok rfl) ?_
        rintro ⟨off, hoff, -⟩
        cases hoff
      | other => exact ih hb
      | specification off =>
        simp only [List.mem_cons, exists_eq_or_imp]
        by_cases hoff : P off
        · refine iff_of_true ?_ (Or.inl hoff)
          obtain ⟨b', hfault⟩ := hself.faults hoff b
          exact ⟨b', by rw [EStateM.run_bind, hfault]⟩
        · obtain ⟨v, b', hok, hsame⟩ := hself.reports hoff b
          rw [faults_bind_ok hok, ih (hsame.within hb), ← attrRefs_same attrs hsame,
            or_iff_right hoff]

theorem readName_faults_iff (hself : FaultsWhere P self) {buf : Buf} (hw : buf.Within) :
    Faults (readName u self) buf ↔ ∃ off ∈ entryRefs u buf, P off := by
  rw [readName, entryRefs]
  cases hrun : readUleb128.run buf with
  | error e b =>
    refine iff_of_false (not_faults_bind hrun ((noFault_readUleb128 hw).error hrun)) ?_
    rintro ⟨off, hoff, -⟩
    cases hoff
  | ok code b =>
    have hb := ((noFault_readUleb128 hw).ok hrun).1
    rw [faults_bind_ok hrun]
    simp only
    by_cases hzero : code = 0
    · rw [if_pos hzero, if_pos hzero]
      refine iff_of_false (not_faults_of_ok rfl) ?_
      rintro ⟨off, hoff, -⟩
      cases hoff
    · rw [if_neg hzero, if_neg hzero, lookupAbbrev]
      cases hfind : findAbbrev u.abbrevs code with
      | some a => exact readNameAttrs_faults_iff hself a.attrs hb
      | none =>
        refine iff_of_false (not_faults_of_failed rfl) ?_
        rintro ⟨off, hoff, -⟩
        cases hoff

theorem throughCopy_eq {copy buf : Buf} {x : Read (Option String)} :
    (throughCopy copy x).run buf =
      match x.run { copy with errors := buf.errors } with
      | .ok v b => .ok v { buf with errors := b.errors }
      | .error e b => .error e { buf with errors := b.errors } := by
  change throughCopy copy x buf = _
  unfold throughCopy
  cases x.run { copy with errors := buf.errors } with
  | ok v b => rfl
  | error e b => rfl

theorem orNull_faults {copy buf : Buf} {x : Read (Option String)}
    (h : Faults x { copy with errors := buf.errors }) :
    Faults (orNull (throughCopy copy x)) buf := by
  obtain ⟨b, hb⟩ := h
  refine ⟨{ buf with errors := b.errors }, ?_⟩
  change orNull (throughCopy copy x) buf = _
  rw [orNull, throughCopy_eq, hb]

/-- What fails on the way leaves no name. -/
theorem orNull_reports {copy buf : Buf} {x : Read (Option String)}
    (h : ¬ Faults x { copy with errors := buf.errors }) :
    ∃ v b, (orNull (throughCopy copy x)).run buf = .ok v b ∧ Same buf b := by
  change ∃ v b, orNull (throughCopy copy x) buf = .ok v b ∧ Same buf b
  rw [orNull, throughCopy_eq]
  cases hrun : x.run { copy with errors := buf.errors } with
  | ok v b => exact ⟨v, _, rfl, Same.of_errors _ _⟩
  | error e b =>
    cases e with
    | failed => exact ⟨none, _, rfl, Same.of_errors _ _⟩
    | fault => exact absurd ⟨b, hrun⟩ h

/-- **A call** needs room for as many calls as there are references behind one another. -/
theorem faultsWhere_readReferencedName (hu : u.Fits sec) (depth : Nat) :
    FaultsWhere (Chain (Refers sec u) depth) (readReferencedName sec u depth) := by
  induction depth with
  | zero => exact ⟨fun _ b => ⟨b, rfl⟩, fun h => absurd trivial h⟩
  | succ depth ih =>
    have hname : ∀ {offset}, ¬ (offset < u.unitDataOffset ∨
        offset - u.unitDataOffset ≥ u.unitDataLen) →
        ∀ buf : Buf, (Faults (readName u (readReferencedName sec u depth))
          { unitDataBuf sec u (offset - u.unitDataOffset) with errors := buf.errors } ↔
            Chain (Refers sec u) (depth + 1) offset) := by
      intro offset hrange buf
      have hlt := BitVec.not_le.mp (not_or.mp hrange).2
      have hw := (unitDataBuf_ok hu (BitVec.le_of_lt hlt)).1.withErrors buf.errors
      rw [readName_faults_iff ih hw, ← entryRefs_same (Same.of_errors _ _)]
      exact exists_congr fun off => and_congr_left fun _ => (and_iff_right hrange).symm
    constructor
    · intro offset h buf
      have hrange : ¬ (offset < u.unitDataOffset ∨ offset - u.unitDataOffset ≥ u.unitDataLen) := by
        obtain ⟨off, ⟨hrange, -⟩, -⟩ := h
        exact hrange
      rw [readReferencedName, if_neg hrange]
      exact orNull_faults ((hname hrange buf).mpr h)
    · intro offset h buf
      rw [readReferencedName]
      by_cases hrange : offset < u.unitDataOffset ∨ offset - u.unitDataOffset ≥ u.unitDataLen
      · rw [if_pos hrange]
        exact ⟨none, _, rfl, Same.of_errors _ _⟩
      · rw [if_neg hrange]
        exact orNull_reports fun hf => h ((hname hrange buf).mp hf)

/-- **The stack** is too small for a name exactly if there is a chain of references as long as it is
deep. -/
theorem readReferencedName_faults_iff (hu : u.Fits sec) {depth : Nat} {offset : BitVec 64}
    {buf : Buf} :
    Faults (readReferencedName sec u depth offset) buf ↔ Chain (Refers sec u) depth offset := by
  have h := faultsWhere_readReferencedName hu depth
  refine ⟨fun hf => ?_, fun hc => h.faults hc buf⟩
  by_contra hc
  obtain ⟨v, b, hrun, -⟩ := h.reports hc buf
  exact not_faults_of_ok hrun hf

instance finiteUInt64 : Finite (BitVec 64) :=
  Finite.of_injective BitVec.toFin fun _ _ h => BitVec.eq_of_toFin_eq h

/-- **No stack is deep enough** exactly if the specifications come to one that leads back to
itself. -/
theorem readReferencedName_diverges_iff (hu : u.Fits sec) {offset : BitVec 64} {buf : Buf} :
    (∀ depth, Faults (readReferencedName sec u depth offset) buf) ↔
      ∃ off, Relation.ReflTransGen (Specifies sec u) offset off ∧
        Relation.TransGen (Specifies sec u) off off := by
  rw [specifies_eq_refers, ← forall_chain_iff]
  exact forall_congr' fun depth => readReferencedName_faults_iff hu

/-- An entry that is its own specification. -/
theorem readReferencedName_self : ¬ ∃ depth, ¬ Faults (readReferencedName
    ⟨0, [9, 0, 0, 0, 4, 0, 0, 0, 0, 0, 8, 1, 11], [], [], [], [], false⟩
    ⟨⟨false, 4, 8, []⟩, [⟨1, .subprogram, 0, [⟨.specification, .ref1⟩]⟩], 11, 2, 11⟩ depth 11)
      (Buf.ofSection ".debug_info" [] 0 false) :=
  not_exists_not.mpr ((readReferencedName_diverges_iff ⟨by decide, by decide⟩).mpr
    ⟨11, .refl, .single (refers_iff_specifies.mp (by decide))⟩)

end Depth

end Bktce.Libbacktrace
