import Bktce.Libbacktrace.Leb128

/-!
# Attribute values

Model of `read_attribute` (`dwarf.c:659-806`), with the forms of `dwarf2.def`.

* A form is a constructor where the code has a case for it; `other` is any other number.
* A string is a pointer into a section, and what the pointer points to is read when it is used. Here
  it is the C string from there on.

Results:

* `reads_readAttribute`: for each form the bytes of a value (`AttrBytes`), also behind any number of
  `DW_FORM_indirect`.
* `noFault_readAttribute`: reading stays inside the section and ends, whatever the form.
-/

namespace Bktce.Libbacktrace

open Bktce.Lib Buf

/-! ## Forms and values -/

/-- `enum dwarf_form`. -/
inductive DwarfForm where
  | addr | block2 | block4 | data2 | data4 | data8 | string | block | block1 | data1 | flag | sdata
  | strp | udata | refAddr | ref1 | ref2 | ref4 | ref8 | refUdata | indirect | secOffset | exprloc
  | flagPresent | refSig8 | gnuAddrIndex | gnuStrIndex | gnuRefAlt | gnuStrpAlt
  | other (n : BitVec 32)
  deriving DecidableEq

/-- The cast to `enum dwarf_form`. -/
def DwarfForm.ofNum (n : BitVec 32) : DwarfForm :=
  match n with
  | 0x01 => .addr
  | 0x03 => .block2
  | 0x04 => .block4
  | 0x05 => .data2
  | 0x06 => .data4
  | 0x07 => .data8
  | 0x08 => .string
  | 0x09 => .block
  | 0x0a => .block1
  | 0x0b => .data1
  | 0x0c => .flag
  | 0x0d => .sdata
  | 0x0e => .strp
  | 0x0f => .udata
  | 0x10 => .refAddr
  | 0x11 => .ref1
  | 0x12 => .ref2
  | 0x13 => .ref4
  | 0x14 => .ref8
  | 0x15 => .refUdata
  | 0x16 => .indirect
  | 0x17 => .secOffset
  | 0x18 => .exprloc
  | 0x19 => .flagPresent
  | 0x20 => .refSig8
  | 0x1f01 => .gnuAddrIndex
  | 0x1f02 => .gnuStrIndex
  | 0x1f20 => .gnuRefAlt
  | 0x1f21 => .gnuStrpAlt
  | n => .other n

/-- `struct attr_val`: the encoding, and the value where it is kept. -/
inductive AttrVal where
  | address (v : BitVec 64)
  | uint (v : BitVec 64)
  | sint (v : BitVec 64)
  | string (s : String)
  | refUnit (v : BitVec 64)
  | refInfo (v : BitVec 64)
  | refSection (v : BitVec 64)
  | refType (v : BitVec 64)
  | block
  | expr
  deriving DecidableEq

/-- What the bytes of a value depend on: the unit's format, and `.debug_str`. -/
structure UnitFormat where
  isDwarf64 : Bool
  version : CInt
  addrsize : Nat
  dwarfStr : List Byte

/-! ## The reader -/

/-- The value of a `DW_FORM_strp`. -/
def readStrp (u : UnitFormat) : Read AttrVal := do
  let offset ← readOffset u.isDwarf64
  if offset.toNat ≥ u.dwarfStr.length then
    dwarfBufError "DW_FORM_strp out of range"
    throw .failed
  return .string (cString (u.dwarfStr.drop offset.toNat))

/-- `read_attribute`; `self` is the call it makes of itself. -/
def readForm (u : UnitFormat) (self : DwarfForm → Read AttrVal) : DwarfForm → Read AttrVal
  | .addr => return .address (← readAddress u.addrsize)
  | .block2 => do
    advanceOrFail ((← readUint16).setWidth 64)
    return .block
  | .block4 => do
    advanceOrFail ((← readUint32).setWidth 64)
    return .block
  | .data2 => return .uint ((← readUint16).setWidth 64)
  | .data4 => return .uint ((← readUint32).setWidth 64)
  | .data8 => return .uint (← readUint64)
  | .string => return .string (← readString)
  | .block => do
    advanceOrFail (← readUleb128)
    return .block
  | .block1 => do
    advanceOrFail ((← readByte).setWidth 64)
    return .block
  | .data1 => return .uint ((← readByte).setWidth 64)
  | .flag => return .uint ((← readByte).setWidth 64)
  | .sdata => return .sint (← readSleb128)
  | .strp => readStrp u
  | .udata => return .uint (← readUleb128)
  | .refAddr =>
    if u.version = 2 then return .refInfo (← readAddress u.addrsize)
    else return .refInfo (← readOffset u.isDwarf64)
  | .ref1 => return .refUnit ((← readByte).setWidth 64)
  | .ref2 => return .refUnit ((← readUint16).setWidth 64)
  | .ref4 => return .refUnit ((← readUint32).setWidth 64)
  | .ref8 => return .refUnit (← readUint64)
  | .refUdata => return .refUnit (← readUleb128)
  | .indirect => do
    let form ← readUleb128
    self (.ofNum (form.setWidth 32))
  | .secOffset => return .refSection (← readOffset u.isDwarf64)
  | .exprloc => do
    advanceOrFail (← readUleb128)
    return .expr
  | .flagPresent => return .uint 1
  | .refSig8 => return .refType (← readUint64)
  | .gnuAddrIndex => return .refSection (← readUleb128)
  | .gnuStrIndex => return .refSection (← readUleb128)
  | .gnuRefAlt => return .refSection (← readOffset u.isDwarf64)
  | .gnuStrpAlt => return .refSection (← readOffset u.isDwarf64)
  | .other _ => do
    dwarfBufError "unrecognized DWARF form"
    throw .failed

/-- `read_attribute` with a bound on how often it calls itself. -/
def readAttributeFuel (u : UnitFormat) : Nat → DwarfForm → Read AttrVal
  | 0 => fun _ => throw .fault
  | fuel + 1 => readForm u (readAttributeFuel u fuel)

/-- `read_attribute`. It calls itself for a number that it reads, or for the zero it finds at the
end. -/
def readAttribute (u : UnitFormat) (form : DwarfForm) : Read AttrVal := do
  readAttributeFuel u ((← get).rest.length + 2) form

/-! ## The bytes of a value -/

/-- The bytes of a string in `.debug_str`. -/
def StrpBytes (big : Bool) (u : UnitFormat) : Grammar AttrVal Byte := fun p v bs =>
  ∃ offset, OffsetBytes big u.isDwarf64 p offset bs ∧ offset.toNat < u.dwarfStr.length ∧
    v = .string (cString (u.dwarfStr.drop offset.toNat))

/-- The bytes of a block: its length, and as many bytes. -/
def BlockOf {α : Type} (G : Grammar α Byte) (count : α → SizeT) (v : AttrVal) :
    Grammar AttrVal Byte :=
  G.bind fun n _ w bs => bs.length = (count n).toNat ∧ w = v

/-- The bytes of a value, by its form. -/
def FormBytes (big : Bool) (u : UnitFormat) (self : DwarfForm → Grammar AttrVal Byte) :
    DwarfForm → Grammar AttrVal Byte
  | .addr => (AddressBytes big u.addrsize).map .address
  | .block2 => BlockOf (UIntBytes big 2) (·.setWidth 64) .block
  | .block4 => BlockOf (UIntBytes big 4) (·.setWidth 64) .block
  | .data2 => (UIntBytes big 2).map fun v => .uint (v.setWidth 64)
  | .data4 => (UIntBytes big 4).map fun v => .uint (v.setWidth 64)
  | .data8 => (UIntBytes big 8).map .uint
  | .string => StringBytes.map .string
  | .block => BlockOf UlebBytes (fun n => n) .block
  | .block1 => BlockOf (UIntBytes big 1) (·.setWidth 64) .block
  | .data1 => (UIntBytes big 1).map fun v => .uint (v.setWidth 64)
  | .flag => (UIntBytes big 1).map fun v => .uint (v.setWidth 64)
  | .sdata => SlebBytes.map .sint
  | .strp => StrpBytes big u
  | .udata => UlebBytes.map .uint
  | .refAddr =>
    if u.version = 2 then (AddressBytes big u.addrsize).map .refInfo
    else (OffsetBytes big u.isDwarf64).map .refInfo
  | .ref1 => (UIntBytes big 1).map fun v => .refUnit (v.setWidth 64)
  | .ref2 => (UIntBytes big 2).map fun v => .refUnit (v.setWidth 64)
  | .ref4 => (UIntBytes big 4).map fun v => .refUnit (v.setWidth 64)
  | .ref8 => (UIntBytes big 8).map .refUnit
  | .refUdata => UlebBytes.map .refUnit
  | .indirect => UlebBytes.bind fun n => self (.ofNum (n.setWidth 32))
  | .secOffset => (OffsetBytes big u.isDwarf64).map .refSection
  | .exprloc => BlockOf UlebBytes (fun n => n) .expr
  | .flagPresent => fun _ v bs => v = .uint 1 ∧ bs = []
  | .refSig8 => (UIntBytes big 8).map .refType
  | .gnuAddrIndex => UlebBytes.map .refSection
  | .gnuStrIndex => UlebBytes.map .refSection
  | .gnuRefAlt => (OffsetBytes big u.isDwarf64).map .refSection
  | .gnuStrpAlt => (OffsetBytes big u.isDwarf64).map .refSection
  | .other _ => fun _ _ _ => False

/-- The bytes of a value behind less than `n` indirections. -/
def AttrBytesFuel (big : Bool) (u : UnitFormat) : Nat → DwarfForm → Grammar AttrVal Byte
  | 0 => fun _ _ _ _ => False
  | n + 1 => FormBytes big u (AttrBytesFuel big u n)

/-- The bytes of a value. -/
def AttrBytes (big : Bool) (u : UnitFormat) (form : DwarfForm) :
    Grammar AttrVal Byte := fun p v bs =>
  ∃ n, AttrBytesFuel big u n form p v bs

section Reads

variable {big : Bool} {u : UnitFormat}

theorem reads_readStrp : Reads (cursor big) (readStrp u) (StrpBytes big u) := by
  refine ((reads_readOffset u.isDwarf64).bind (H := fun offset _ v bs =>
    offset.toNat < u.dwarfStr.length ∧
      v = .string (cString (u.dwarfStr.drop offset.toNat)) ∧ bs = []) fun offset => ?_).congr
    fun p v bs => ⟨?_, ?_⟩
  · by_cases hoff : offset.toNat ≥ u.dwarfStr.length
    · simp only [if_pos hoff]
      exact (Reads.of_noise (fun _ h => noise_dwarfBufError _ h) (grows_dwarfBufError _)
        fun _ => Grows.throw _).congr fun p v bs =>
          ⟨False.elim, fun h => absurd h.1 (not_lt.mpr hoff)⟩
    · simp only [if_neg hoff]
      exact (Reads.pure _).congr fun p v bs => ⟨fun h => ⟨not_le.mp hoff, h⟩, fun h => h.2⟩
  · rintro ⟨offset, as, _, rfl, has, hlt, rfl, rfl⟩
    exact ⟨offset, by rwa [List.append_nil], hlt, rfl⟩
  · rintro ⟨offset, has, hlt, rfl⟩
    exact ⟨offset, bs, [], (List.append_nil bs).symm, has, hlt, rfl, rfl⟩

/-- A block behind its length. -/
theorem reads_blockOf {α : Type} {x : Read α} {G : Grammar α Byte} (count : α → SizeT) (v : AttrVal)
    (hx : Reads (cursor big) x G) :
    Reads (cursor big) (do
      advanceOrFail (count (← x))
      return v) (BlockOf G count v) := by
  refine hx.bind fun n => ((reads_advanceOrFail _).map fun _ => v).congr fun p w bs => ⟨?_, ?_⟩
  · rintro ⟨-, hlen, rfl⟩
    exact ⟨hlen, rfl⟩
  · rintro ⟨hlen, rfl⟩
    exact ⟨(), hlen, rfl⟩

/-- **The forms**, if the call of itself reads what it should. -/
theorem reads_readForm {self : DwarfForm → Read AttrVal} {G : DwarfForm → Grammar AttrVal Byte}
    (hself : ∀ form, Reads (cursor big) (self form) (G form)) (form : DwarfForm) :
    Reads (cursor big) (readForm u self form) (FormBytes big u G form) := by
  have h1 := @reads_readUInt big 1 (by omega)
  have h2 := @reads_readUInt big 2 (by omega)
  have h4 := @reads_readUInt big 4 (by omega)
  have h8 := @reads_readUInt big 8 (by omega)
  have hleb := @reads_readUleb128 big
  have haddr := @reads_readAddress big u.addrsize
  have hoff := @reads_readOffset big u.isDwarf64
  cases form with
  | addr => exact haddr.map _
  | block2 => exact reads_blockOf _ _ h2
  | block4 => exact reads_blockOf _ _ h4
  | data2 => exact h2.map _
  | data4 => exact h4.map _
  | data8 => exact h8.map _
  | string => exact reads_readString.map _
  | block => exact reads_blockOf (fun n => n) _ hleb
  | block1 => exact reads_blockOf _ _ h1
  | data1 => exact h1.map _
  | flag => exact h1.map _
  | sdata => exact reads_readSleb128.map _
  | strp => exact reads_readStrp
  | udata => exact hleb.map _
  | refAddr =>
    by_cases hversion : u.version = 2
    · simp only [readForm, FormBytes, if_pos hversion]
      exact haddr.map _
    · simp only [readForm, FormBytes, if_neg hversion]
      exact hoff.map _
  | ref1 => exact h1.map _
  | ref2 => exact h2.map _
  | ref4 => exact h4.map _
  | ref8 => exact h8.map _
  | refUdata => exact hleb.map _
  | indirect => exact hleb.bind fun n => hself _
  | secOffset => exact hoff.map _
  | exprloc => exact reads_blockOf (fun n => n) _ hleb
  | flagPresent => exact Reads.pure _
  | refSig8 => exact h8.map _
  | gnuAddrIndex => exact hleb.map _
  | gnuStrIndex => exact hleb.map _
  | gnuRefAlt => exact hoff.map _
  | gnuStrpAlt => exact hoff.map _
  | other n =>
    exact Reads.of_noise (fun _ h => noise_dwarfBufError _ h) (grows_dwarfBufError _)
      fun _ => Grows.throw _

theorem reads_readAttributeFuel (fuel : Nat) : ∀ form : DwarfForm,
    Reads (cursor big) (readAttributeFuel u fuel form) (AttrBytesFuel big u fuel form) := by
  induction fuel with
  | zero => exact fun form => Reads.throw _
  | succ fuel ih => exact reads_readForm ih

/-- Only the indirect form calls itself. -/
theorem formBytes_mono {G H : DwarfForm → Grammar AttrVal Byte} {form : DwarfForm} {p : Nat}
    {v : AttrVal} {bs : List Byte}
    (h : ∀ (n : BitVec 64) (as cs : List Byte), bs = as ++ cs → UlebBytes p n as →
      G (.ofNum (n.setWidth 32)) (p + as.length) v cs →
        H (.ofNum (n.setWidth 32)) (p + as.length) v cs)
    (hG : FormBytes big u G form p v bs) : FormBytes big u H form p v bs := by
  cases form with
  | indirect =>
    obtain ⟨n, as, cs, rfl, has, hcs⟩ := hG
    exact ⟨n, as, cs, rfl, has, h n as cs rfl has hcs⟩
  | _ => exact hG

theorem UlebBytes.length_pos {p : Nat} {v : BitVec 64} {bs : List Byte} (h : UlebBytes p v bs) :
    0 < bs.length := by
  cases bs with
  | nil => exact absurd h.1 (by simp [Leb128.Terminated])
  | cons b bs => exact Nat.succ_pos _

/-- There are no more indirections than bytes. -/
theorem attrBytesFuel_of_le {n : Nat} : ∀ {form : DwarfForm} {p : Nat} {v : AttrVal}
    {bs : List Byte}
    {fuel : Nat}, AttrBytesFuel big u n form p v bs → bs.length < fuel →
      AttrBytesFuel big u fuel form p v bs := by
  induction n with
  | zero => exact fun h => False.elim h
  | succ n ih =>
    intro form p v bs fuel h hfuel
    cases fuel with
    | zero => omega
    | succ fuel =>
      refine formBytes_mono (fun n as cs hbs has hcs => ih hcs ?_) h
      have := has.length_pos
      rw [hbs, List.length_append] at hfuel
      omega

/-- **An attribute value.** -/
theorem reads_readAttribute (form : DwarfForm) :
    Reads (cursor big) (readAttribute u form) (AttrBytes big u form) := by
  have hrun : ∀ buf : Buf, (readAttribute u form).run buf =
      (readAttributeFuel u (buf.rest.length + 2) form).run buf := by
    intro buf
    rw [readAttribute, EStateM.run_bind, EStateM.run_get]
  constructor
  · rintro buf v bs hok hbs ⟨n, hn⟩
    have hlen := hbs.length_le
    rw [length_ahead big hok.1] at hlen
    rw [hrun]
    exact (reads_readAttributeFuel _ form).complete hok hbs
      (attrBytesFuel_of_le hn (by have := hok.1.le; omega))
  · intro buf v buf' hok h hn
    rw [hrun] at h
    obtain ⟨bs, hbs, hG, rfl⟩ := (reads_readAttributeFuel _ form).sound hok h hn
    exact ⟨bs, hbs, ⟨_, hG⟩, rfl⟩
  · intro buf v buf' h
    rw [hrun] at h
    exact (reads_readAttributeFuel _ form).grows h

end Reads

/-! ## Safety -/

theorem noFault_readStrp (u : UnitFormat) : NoFault (readStrp u) := by
  refine (noFault_readOffset _).bind fun offset => ?_
  split
  · exact (noFault_dwarfBufError _).bind fun _ => noFault_failed
  · exact Safe.pure _

/-- The call of itself is safe where it is made. -/
theorem safeAt_readForm {u : UnitFormat} {self : DwarfForm → Read AttrVal} {form : DwarfForm}
    {buf : Buf} (hw : buf.Within)
    (hself : ∀ n buf', form = .indirect → readUleb128.run buf = .ok n buf' →
      SafeAt Buf.Within (fun buf => buf.left.toNat) (· = Stop.failed)
        (self (.ofNum (n.setWidth 32))) buf') :
    SafeAt Buf.Within (fun buf => buf.left.toNat) (· = Stop.failed) (readForm u self form) buf := by
  have h1 := noFault_readUInt (n := 1) (by omega)
  have h2 := noFault_readUInt (n := 2) (by omega)
  have h4 := noFault_readUInt (n := 4) (by omega)
  have h8 := noFault_readUInt (n := 8) (by omega)
  have hleb := noFault_readUleb128
  have haddr := noFault_readAddress u.addrsize
  have hoff := noFault_readOffset u.isDwarf64
  have value : ∀ {w : Nat} {x : Read (BitVec w)} (f : BitVec w → AttrVal), NoFault x →
      NoFault (x >>= fun v => pure (f v)) := fun f hx => hx.bind fun _ => Safe.pure _
  have block : ∀ {w : Nat} {x : Read (BitVec w)} (f : BitVec w → SizeT) (v : AttrVal), NoFault x →
      NoFault (x >>= fun n => advanceOrFail (f n) >>= fun _ => pure v) :=
    fun f v hx => hx.bind fun n => (noFault_advanceOrFail _).bind fun _ => Safe.pure _
  cases form with
  | addr => exact value _ haddr hw
  | block2 => exact block _ _ h2 hw
  | block4 => exact block _ _ h4 hw
  | data2 => exact value _ h2 hw
  | data4 => exact value _ h4 hw
  | data8 => exact value _ h8 hw
  | string => exact (noFault_readString.bind fun _ => Safe.pure _) hw
  | block => exact block (fun n => n) _ hleb hw
  | block1 => exact block _ _ h1 hw
  | data1 => exact value _ h1 hw
  | flag => exact value _ h1 hw
  | sdata => exact value _ noFault_readSleb128 hw
  | strp => exact noFault_readStrp u hw
  | udata => exact value _ hleb hw
  | refAddr =>
    by_cases hversion : u.version = 2
    · simp only [readForm, if_pos hversion]
      exact value _ haddr hw
    · simp only [readForm, if_neg hversion]
      exact value _ hoff hw
  | ref1 => exact value _ h1 hw
  | ref2 => exact value _ h2 hw
  | ref4 => exact value _ h4 hw
  | ref8 => exact value _ h8 hw
  | refUdata => exact value _ hleb hw
  | indirect => exact (hleb hw).bind fun {n buf'} hrun => hself n buf' rfl hrun
  | secOffset => exact value _ hoff hw
  | exprloc => exact block (fun n => n) _ hleb hw
  | flagPresent => exact Safe.pure _ hw
  | refSig8 => exact value _ h8 hw
  | gnuAddrIndex => exact value _ hleb hw
  | gnuStrIndex => exact value _ hleb hw
  | gnuRefAlt => exact value _ hoff hw
  | gnuStrpAlt => exact value _ hoff hw
  | other n => exact ((noFault_dwarfBufError _).bind fun _ => noFault_failed) hw

/-- An indirection takes a byte, or finds a form that is none. -/
theorem readAttributeFuel_safe {u : UnitFormat} (fuel : Nat) : ∀ {form : DwarfForm} {buf : Buf},
    buf.Within → buf.left.toNat + 1 < fuel →
      SafeAt Buf.Within (fun buf => buf.left.toNat) (· = Stop.failed)
        (readAttributeFuel u fuel form) buf := by
  induction fuel with
  | zero => exact fun _ h => absurd h (Nat.not_lt_zero _)
  | succ fuel ih =>
    intro form buf hw hfuel
    refine safeAt_readForm hw fun n buf' _ hrun => ?_
    have hw' := ((noFault_readUleb128 hw).ok hrun).1
    by_cases hpos : 0 < buf.left.toNat
    · have := readUleb128_lt hw hpos hrun
      exact ih hw' (by omega)
    · rw [readUleb128_underflow hw (by omega)] at hrun
      obtain ⟨rfl, rfl⟩ := EStateM.Result.ok.inj hrun
      cases fuel with
      | zero => omega
      | succ fuel =>
        have hform : DwarfForm.ofNum ((0 : BitVec 64).setWidth 32) = .other 0 := rfl
        rw [hform]
        exact ((noFault_dwarfBufError _).bind fun _ => noFault_failed) hw'

/-- **Reading a value** stays inside the section and ends. -/
theorem noFault_readAttribute (u : UnitFormat) (form : DwarfForm) :
    NoFault (readAttribute u form) := fun _ h =>
  (readAttributeFuel_safe _ h (by have := h.le; omega)).get_bind

end Bktce.Libbacktrace
