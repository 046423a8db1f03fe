import Bktce.Machine
import Bktce.Lib.Cursor
import Mathlib.Data.List.TakeWhile

/-!
# Reading DWARF sections

Model of `struct dwarf_buf` (`dwarf.c:67-85`) and of the functions that read from it
(`dwarf.c:373-544`); the functions for LEB128 numbers are in
`Libbacktrace/Leb128.lean`.

* `rest` is the memory from the pointer `buf` to the end of the section, `pos` is `buf - start`, and
  `errors` are the calls made of the error callback.
* A function that returns 0 for failure stops with `failed`. What C leaves undefined (reading
  outside the section, dividing by zero, following a null pointer) stops with `fault`.
* Reading past `left` is an error that is reported once, and the reader goes on with 0. So a value
  may be returned after trouble. `Buf.cursor` takes the report as noise, and a buffer that has
  reported it is not `Ok`: `Reads` (`Lib.Cursor`) is about reading without trouble.

Results: for each reading function the symbols it reads (`reads_…`: `Reads (cursor big) …`), and
that it stays inside a section that `left` does not exceed (`safe_…`: `Safe Buf.Within …`).
-/

namespace Bktce.Libbacktrace

open Bktce.Lib

/-- `unsigned char`. -/
abbrev Byte := BitVec 8

/-! ## The buffer -/

/-- `struct dwarf_buf`. -/
structure Buf where
  name : String
  pos : Nat
  rest : List Byte
  left : SizeT
  isBigendian : Bool
  reportedUnderflow : Bool
  errors : List (String × CInt)

/-- Why a reading function does not return a value. -/
inductive Stop where
  | failed
  | fault
  deriving DecidableEq

abbrev Read := EStateM Stop Buf

/-- Reading functions that also say what they have made so far when they stop. -/
abbrev ReadLeaving (τ : Type) := EStateM (Stop × τ) Buf

/-- Read something while `t` is what has been made. -/
def leaving {τ α : Type} (t : τ) (x : Read α) : ReadLeaving τ α := x.adaptExcept fun e => (e, t)

namespace Buf

/-- The buffer at an offset in a section. -/
def ofSection (name : String) (bytes : List Byte) (offset : SizeT) (isBigendian : Bool) : Buf where
  name := name
  pos := offset.toNat
  rest := bytes.drop offset.toNat
  left := BitVec.ofNat 64 bytes.length - offset
  isBigendian := isBigendian
  reportedUnderflow := false
  errors := []

/-- What an error callback is told. -/
def message (buf : Buf) (msg : String) : String :=
  msg ++ " in " ++ buf.name ++ " at " ++ toString (BitVec.ofNat 32 buf.pos).toInt

/-- The buffer after an error was reported. -/
def report (buf : Buf) (msg : String) : Buf :=
  { buf with errors := buf.errors ++ [(buf.message msg, 0)] }

/-- The buffer after `n` bytes. -/
def skip (buf : Buf) (n : Nat) : Buf :=
  { buf with
    pos := buf.pos + n
    rest := buf.rest.drop n
    left := buf.left - BitVec.ofNat 64 n }

/-- The buffer after reading past `left`. -/
def underflow (buf : Buf) : Buf :=
  if buf.reportedUnderflow then buf
  else { buf.report "DWARF underflow" with reportedUnderflow := true }

end Buf

/-- `dwarf_buf_error`. -/
def dwarfBufError (msg : String) : Read Unit := modify fun buf => buf.report msg

/-- `require`. -/
def require (count : SizeT) : Read Bool := do
  let buf ← get
  if buf.left ≥ count then return true
  if !buf.reportedUnderflow then
    dwarfBufError "DWARF underflow"
    modify fun buf => { buf with reportedUnderflow := true }
  return false

/-- `advance`. -/
def advance (count : SizeT) : Read Bool := do
  if !(← require count) then return false
  modify fun buf => buf.skip count.toNat
  return true

/-- `if (!advance (buf, count)) return 0`. -/
def advanceOrFail (count : SizeT) : Read Unit := do
  if !(← advance count) then throw .failed

/-- A call of the error callback that does not name a position. -/
def errorCallback (msg : String) : Read Unit :=
  modify fun buf => { buf with errors := buf.errors ++ [(msg, 0)] }

/-- `if (buf.reported_underflow) return 0`. -/
def failOnUnderflow : Read Unit := do
  if (← get).reportedUnderflow then throw .failed

/-- The first `n` bytes behind a pointer. -/
def deref (p : List Byte) (n : Nat) : Read (List Byte) :=
  if n ≤ p.length then pure (p.take n) else throw .fault

/-- The number some bytes stand for, the highest byte first. -/
def joinBytes (w : Nat) (bs : List Byte) : BitVec w :=
  bs.foldl (fun v b => v <<< 8 ||| b.setWidth w) 0

/-- Read an integer of `n` bytes: `read_uint16`, `read_uint32` and `read_uint64` have this text. -/
def readUInt (n : Nat) : Read (BitVec (8 * n)) := do
  let p := (← get).rest
  if !(← advance (BitVec.ofNat 64 n)) then return 0
  let bs ← deref p n
  return joinBytes _ (if (← get).isBigendian then bs else bs.reverse)

/-- `read_byte`. -/
def readByte : Read Byte := readUInt 1

/-- `read_uint16`. -/
def readUint16 : Read (BitVec 16) := readUInt 2

/-- `read_uint32`. -/
def readUint32 : Read (BitVec 32) := readUInt 4

/-- `read_uint64`. -/
def readUint64 : Read (BitVec 64) := readUInt 8

/-- `read_sbyte`, as an `int`. -/
def readSbyte : Read CInt := do
  let b ← readByte
  return (b.setWidth 32 ^^^ 0x80) - 0x80

/-- `read_offset`. -/
def readOffset (isDwarf64 : Bool) : Read (BitVec 64) := do
  if isDwarf64 then readUint64 else return (← readUint32).setWidth 64

/-- The length of a unit's part of a section, and whether it is in the 64-bit format. -/
def readLength : Read (BitVec 64 × Bool) := do
  let len ← readUint32
  if len = 0xffffffff then return (← readUint64, true) else return (len.setWidth 64, false)

/-- `read_address`. -/
def readAddress (addrsize : Nat) : Read (BitVec 64) :=
  match addrsize with
  | 1 => return (← readByte).setWidth 64
  | 2 => return (← readUint16).setWidth 64
  | 4 => return (← readUint32).setWidth 64
  | 8 => readUint64
  | _ => do
    dwarfBufError "unrecognized address size"
    return 0

/-- `strnlen`. -/
def strnlen (p : List Byte) (maxlen : SizeT) : Read SizeT :=
  let s := p.takeWhile (· ≠ 0)
  if maxlen.toNat ≤ s.length then pure maxlen
  else if s.length < p.length then pure (BitVec.ofNat 64 s.length)
  else throw .fault

/-- Bytes as characters. -/
def text (cs : List Byte) : String := String.ofList (cs.map fun b => Char.ofNat b.toNat)

/-- The C string behind a pointer. -/
def cString (p : List Byte) : String := text (p.takeWhile (· ≠ 0))

/-- A string in the section: `if (!advance (buf, strnlen (s, buf->left) + 1)) return 0`. -/
def readString : Read String := do
  let buf ← get
  let len ← strnlen buf.rest buf.left
  advanceOrFail (len + 1)
  return cString buf.rest

/-! ## Copies and arrays -/

/-- The buffer that ends after `n` bytes: `buf.left = n`. -/
def Buf.upTo (buf : Buf) (n : SizeT) : Buf := { buf with left := n }

/-- Read through a copy of the buffer. What it reports is reported to the buffer's callback. -/
def throughCopy {ε α : Type} (copy : Buf) (x : EStateM ε Buf α) : EStateM ε Buf α := fun buf =>
  match x.run { copy with errors := buf.errors } with
  | .ok a b => .ok a { buf with errors := b.errors }
  | .error e b => .error e { buf with errors := b.errors }

/-- Write to position `i` of an array of `count` entries. -/
def writeEntry (count i : Nat) : Read Unit := if i < count then return () else throw .fault

/-! ## The buffer as a cursor -/

namespace Buf

/-- What `left` allows to be read is in the section, which is smaller than half the address
space. -/
structure Within (buf : Buf) : Prop where
  le : buf.left.toNat ≤ buf.rest.length
  lt : buf.rest.length < 2 ^ 63

theorem toNat_left_skip {buf : Buf} {n : Nat} (h : n ≤ buf.left.toNat) :
    (buf.skip n).left.toNat = buf.left.toNat - n := by
  have := buf.left.isLt
  have hn : (BitVec.ofNat 64 n).toNat = n := by
    rw [BitVec.toNat_ofNat, Nat.mod_eq_of_lt (by omega)]
  change (buf.left - BitVec.ofNat 64 n).toNat = _
  rw [BitVec.toNat_sub_of_le (by rw [BitVec.le_def, hn]; exact h), hn]

theorem skip_skip (buf : Buf) (m n : Nat) : (buf.skip m).skip n = buf.skip (m + n) := by
  simp only [skip, List.drop_drop, BitVec.ofNat_add, mk.injEq, and_true, true_and]
  exact ⟨Nat.add_assoc _ _ _, BitVec.sub_sub _ _ _⟩

theorem Within.skip {buf : Buf} {n : Nat} (h : buf.Within) (hn : n ≤ buf.left.toNat) :
    (buf.skip n).Within := by
  have hlen : (buf.skip n).rest.length = buf.rest.length - n := List.length_drop
  have hle := h.le
  have hlt := h.lt
  exact ⟨by rw [toNat_left_skip hn, hlen]; omega, by omega⟩

theorem Within.withErrors {buf : Buf} (h : buf.Within) (errors : List (String × CInt)) :
    Within { buf with errors } := ⟨h.le, h.lt⟩

/-- How much trouble was reported. -/
def noise (buf : Buf) : Nat := buf.errors.length + if buf.reportedUnderflow then 1 else 0

/-- A buffer without trouble is a cursor over what it is allowed to read. -/
def cursor (big : Bool) : Cursor Buf Byte where
  pos := Buf.pos
  ahead buf := buf.rest.take buf.left.toNat
  skip := Buf.skip
  noise := noise
  Ok buf := buf.Within ∧ buf.reportedUnderflow = false ∧ buf.isBigendian = big
  ok_skip {buf n} h hn := by
    rw [List.length_take] at hn
    exact ⟨h.1.skip (by omega), h.2.1, h.2.2⟩
  ahead_skip {buf n} hn := by
    rw [List.length_take] at hn
    rw [toNat_left_skip (by omega)]
    exact (List.drop_take ..).symm
  pos_skip _ _ := rfl
  noise_skip _ _ := rfl
  skip_zero buf := by simp [Buf.skip]
  skip_skip := skip_skip

end Buf

open Buf

theorem length_ahead (big : Bool) {buf : Buf} (h : buf.Within) :
    ((cursor big).ahead buf).length = buf.left.toNat := by
  change (buf.rest.take buf.left.toNat).length = _
  rw [List.length_take]
  exact Nat.min_eq_left h.le

/-- The buffer behind a part of what is ahead. -/
theorem skip_part {big : Bool} {buf : Buf} {as bs : List Byte} (hok : (cursor big).Ok buf)
    (h : (cursor big).ahead buf = as ++ bs) :
    (cursor big).Ok (buf.skip as.length) ∧ (cursor big).ahead (buf.skip as.length) = bs :=
  (cursor big).skip_part hok h

theorem left_pos_iff {buf : Buf} : buf.left > 0 ↔ 0 < buf.left.toNat := by
  rw [gt_iff_lt, BitVec.lt_def]
  rfl

theorem more_iff {big : Bool} {buf : Buf} (h : (cursor big).Ok buf) :
    decide (buf.left > 0) = true ↔ (cursor big).ahead buf ≠ [] := by
  rw [decide_eq_true_eq, left_pos_iff, ← length_ahead big h.1, List.length_pos_iff]

theorem ofSection_ok {name : String} {bytes : List Byte} {offset : SizeT} {big : Bool}
    (hlen : bytes.length < 2 ^ 63) (hoff : offset.toNat ≤ bytes.length) :
    (cursor big).Ok (ofSection name bytes offset big) ∧
      (cursor big).ahead (ofSection name bytes offset big) = bytes.drop offset.toNat := by
  have hleft : (BitVec.ofNat 64 bytes.length - offset).toNat =
      (bytes.drop offset.toNat).length := by
    have hnat : (BitVec.ofNat 64 bytes.length).toNat = bytes.length := by
      rw [BitVec.toNat_ofNat, Nat.mod_eq_of_lt (by omega)]
    rw [BitVec.toNat_sub_of_le (by rw [BitVec.le_def, hnat]; exact hoff), hnat, List.length_drop]
  refine ⟨⟨⟨hleft.le, ?_⟩, rfl, rfl⟩, ?_⟩
  · change (bytes.drop offset.toNat).length < 2 ^ 63
    rw [List.length_drop]
    omega
  · change (bytes.drop offset.toNat).take (BitVec.ofNat 64 bytes.length - offset).toNat = _
    rw [hleft, List.take_length]

theorem noise_underflow {buf : Buf} (h : buf.reportedUnderflow = false) :
    buf.noise < buf.underflow.noise := by
  have hne : ¬ buf.reportedUnderflow = true := by
    rw [h]
    exact Bool.false_ne_true
  simp only [underflow, if_neg hne, noise, report, if_true, List.length_append,
    List.length_singleton]
  omega

theorem noise_le_underflow (buf : Buf) : buf.noise ≤ buf.underflow.noise := by
  by_cases h : buf.reportedUnderflow = false
  · exact (noise_underflow h).le
  · rw [underflow, if_pos (by simpa using h)]

/-! ## Advancing -/

theorem advance_run (count : SizeT) (buf : Buf) :
    (advance count).run buf =
      if count ≤ buf.left then .ok true (buf.skip count.toNat) else .ok false buf.underflow := by
  unfold advance require
  by_cases h : count ≤ buf.left
  · simp [h, -bind_pure_comp]
  · cases hu : buf.reportedUnderflow <;>
      simp [h, hu, underflow, dwarfBufError, -bind_pure_comp]

theorem grows_advance {big : Bool} (count : SizeT) : Grows (cursor big) (advance count) := by
  intro s v s' h
  rw [advance_run] at h
  split at h
  · obtain ⟨rfl, rfl⟩ := EStateM.Result.ok.inj h
    exact le_refl _
  · obtain ⟨rfl, rfl⟩ := EStateM.Result.ok.inj h
    exact noise_le_underflow s

theorem grows_deref {big : Bool} (p : List Byte) (n : Nat) : Grows (cursor big) (deref p n) := by
  unfold deref
  split
  · exact Grows.pure _
  · exact Grows.throw _

theorem noise_dwarfBufError {big : Bool} (msg : String) {buf buf' : Buf} {u : Unit}
    (h : (dwarfBufError msg).run buf = .ok u buf') :
    (cursor big).noise buf < (cursor big).noise buf' := by
  obtain ⟨-, rfl⟩ := EStateM.Result.ok.inj h
  simp only [cursor, noise, report, List.length_append, List.length_singleton]
  omega

theorem grows_dwarfBufError {big : Bool} (msg : String) :
    Grows (cursor big) (dwarfBufError msg) :=
  fun _ _ _ h => (noise_dwarfBufError msg h).le

theorem noise_errorCallback {big : Bool} (msg : String) {buf buf' : Buf} {u : Unit}
    (h : (errorCallback msg).run buf = .ok u buf') :
    (cursor big).noise buf < (cursor big).noise buf' := by
  obtain ⟨-, rfl⟩ := EStateM.Result.ok.inj h
  simp only [cursor, noise, List.length_append, List.length_singleton]
  omega

theorem grows_errorCallback {big : Bool} (msg : String) :
    Grows (cursor big) (errorCallback msg) :=
  fun _ _ _ h => (noise_errorCallback msg h).le

theorem writeEntry_lt {count i : Nat} (h : i < count) : writeEntry count i = pure () := if_pos h

/-! ## Integers -/

/-- The bytes of a number in the order from the highest to the lowest. -/
def highFirst (big : Bool) (bs : List Byte) : List Byte := if big then bs else bs.reverse

/-- The bytes of an integer of `n` bytes. -/
def UIntBytes (big : Bool) (n : Nat) : Grammar (BitVec (8 * n)) Byte := fun _ v bs =>
  bs.length = n ∧ v = joinBytes (8 * n) (highFirst big bs)

theorem ofNat_le_left {buf : Buf} {n : Nat} (hn : n < 2 ^ 64) :
    BitVec.ofNat 64 n ≤ buf.left ↔ n ≤ buf.left.toNat := by
  rw [BitVec.le_def, BitVec.toNat_ofNat, Nat.mod_eq_of_lt hn]

theorem readUInt_run {n : Nat} (hn : n < 2 ^ 64) {buf : Buf} (hle : n ≤ buf.left.toNat)
    (hlen : n ≤ buf.rest.length) :
    (readUInt n).run buf =
      .ok (joinBytes (8 * n) (highFirst buf.isBigendian (buf.rest.take n))) (buf.skip n) := by
  have hmod : (BitVec.ofNat 64 n).toNat = n := by rw [BitVec.toNat_ofNat, Nat.mod_eq_of_lt hn]
  simp only [readUInt, EStateM.run_bind, EStateM.run_get, advance_run,
    if_pos ((ofNat_le_left hn).mpr hle)]
  simp only [hmod, deref, if_pos hlen, highFirst]
  rfl

theorem readUInt_run_underflow {n : Nat} (hn : n < 2 ^ 64) {buf : Buf} (h : buf.left.toNat < n) :
    (readUInt n).run buf = .ok 0 buf.underflow := by
  have hle : ¬ BitVec.ofNat 64 n ≤ buf.left := fun hc => by
    have := (ofNat_le_left hn).mp hc
    omega
  simp only [readUInt, EStateM.run_bind, EStateM.run_get, advance_run, if_neg hle]
  simp

/-- Where `left` exceeds the section, the reader leaves it. -/
theorem readUInt_run_fault {n : Nat} (hn : n < 2 ^ 64) {buf : Buf} (hle : n ≤ buf.left.toNat)
    (hlen : buf.rest.length < n) : ∃ buf', (readUInt n).run buf = .error .fault buf' := by
  have hfault : deref buf.rest n = throw .fault := if_neg (Nat.not_le.mpr hlen)
  simp only [readUInt, EStateM.run_bind, EStateM.run_get, advance_run,
    if_pos ((ofNat_le_left hn).mpr hle), hfault]
  exact ⟨_, rfl⟩

theorem grows_readUInt {big : Bool} (n : Nat) : Grows (cursor big) (readUInt n) := by
  unfold readUInt
  refine Grows.get.bind fun buf => (grows_advance _).bind fun ok => ?_
  split
  · exact Grows.pure _
  · exact (grows_deref _ _).bind fun bs => Grows.get.bind fun buf => Grows.pure _

theorem reads_readUInt {big : Bool} {n : Nat} (hn : n < 2 ^ 64) :
    Reads (cursor big) (readUInt n) (UIntBytes big n) where
  complete := by
    rintro buf v bs ⟨hw, -, hbig⟩ hbs ⟨hlen, rfl⟩
    have hle := hbs.length_le
    rw [length_ahead big hw, hlen] at hle
    obtain ⟨t, ht⟩ := hbs.trans (List.take_prefix _ _)
    have htake : buf.rest.take n = bs := by rw [← ht, ← hlen, List.take_left]
    rw [readUInt_run hn hle (hle.trans hw.le), htake, hbig, hlen]
    rfl
  sound := by
    rintro buf v buf' ⟨hw, hu, hbig⟩ hrun hnoise
    by_cases hle : n ≤ buf.left.toNat
    · rw [readUInt_run hn hle (hle.trans hw.le)] at hrun
      obtain ⟨rfl, rfl⟩ := EStateM.Result.ok.inj hrun
      have hlen : (buf.rest.take n).length = n := by
        rw [List.length_take]
        exact Nat.min_eq_left (hle.trans hw.le)
      exact ⟨buf.rest.take n, List.take_prefix_take_left hle,
        ⟨hlen, by rw [hbig]⟩, by rw [hlen]; rfl⟩
    · rw [readUInt_run_underflow hn (Nat.lt_of_not_le hle)] at hrun
      obtain ⟨rfl, rfl⟩ := EStateM.Result.ok.inj hrun
      exact absurd hnoise (noise_underflow hu).ne'
  grows := grows_readUInt n

/-- The bytes of an address. -/
def AddressBytes (big : Bool) (addrsize : Nat) : Grammar (BitVec 64) Byte := fun p v bs =>
  addrsize ∈ [1, 2, 4, 8] ∧
    ∃ u : BitVec (8 * addrsize), UIntBytes big addrsize p u bs ∧ v = u.setWidth 64

/-- **`read_address`** reads an address of the unit's size. -/
theorem reads_readAddress {big : Bool} (addrsize : Nat) :
    Reads (cursor big) (readAddress addrsize) (AddressBytes big addrsize) := by
  have known : ∀ n, n < 2 ^ 64 → n ∈ [1, 2, 4, 8] →
      Reads (cursor big) (readUInt n >>= fun u => pure (u.setWidth 64)) (AddressBytes big n) :=
    fun n hn hmem => ((reads_readUInt hn).map _).congr fun p v bs =>
      ⟨fun h => ⟨hmem, h⟩, fun h => h.2⟩
  unfold readAddress
  split
  · exact known 1 (by omega) (by simp)
  · exact known 2 (by omega) (by simp)
  · exact known 4 (by omega) (by simp)
  · have heq : readUInt 8 >>= (fun u => pure (u.setWidth 64)) = readUint64 := by
      simp only [BitVec.setWidth_eq, bind_pure]
      rfl
    exact heq ▸ known 8 (by omega) (by simp)
  · rename_i h1 h2 h4 h8
    refine (Reads.of_noise (fun _ h => noise_dwarfBufError _ h) (grows_dwarfBufError _)
      fun _ => Grows.pure _).congr fun p v bs => ⟨False.elim, ?_⟩
    rintro ⟨hmem, -⟩
    simp only [List.mem_cons, List.not_mem_nil, or_false] at hmem
    rcases hmem with h | h | h | h
    · exact h1 h
    · exact h2 h
    · exact h4 h
    · exact h8 h

/-- The bytes of an offset. -/
def OffsetBytes (big isDwarf64 : Bool) : Grammar (BitVec 64) Byte :=
  match isDwarf64 with
  | true => UIntBytes big 8
  | false => fun p v bs => ∃ v' : BitVec 32, UIntBytes big 4 p v' bs ∧ v = v'.setWidth 64

/-- **`read_offset`** reads an offset of the unit's format. -/
theorem reads_readOffset {big : Bool} (isDwarf64 : Bool) :
    Reads (cursor big) (readOffset isDwarf64) (OffsetBytes big isDwarf64) := by
  cases isDwarf64 with
  | true => exact reads_readUInt (by omega)
  | false => exact (reads_readUInt (by omega)).map fun v : BitVec (8 * 4) => v.setWidth 64

/-- The bytes of a length. -/
def LengthBytes (big : Bool) : Grammar (BitVec 64 × Bool) Byte := fun p v bs =>
  ∃ (len : BitVec 32) (as cs : List Byte), bs = as ++ cs ∧ UIntBytes big 4 p len as ∧
    if len = 0xffffffff then v.2 = true ∧ UIntBytes big 8 (p + as.length) v.1 cs
    else v = (len.setWidth 64, false) ∧ cs = []

/-- **The length.** -/
theorem reads_readLength : Reads (cursor big) readLength (LengthBytes big) := by
  refine ((reads_readUInt (n := 4) (by omega)).bind (H := fun len p v cs =>
    if len = 0xffffffff then v.2 = true ∧ UIntBytes big 8 p v.1 cs
    else v = (len.setWidth 64, false) ∧ cs = []) fun len => ?_).congr fun p v bs => Iff.rfl
  by_cases hlen : len = 0xffffffff
  · simp only [if_pos hlen]
    refine ((reads_readUInt (n := 8) (by omega)).map fun v => (v, true)).congr fun p v bs =>
      ⟨?_, ?_⟩
    · rintro ⟨v', hv, rfl⟩
      exact ⟨rfl, hv⟩
    · rintro ⟨h, hv⟩
      exact ⟨v.1, hv, Prod.ext rfl h⟩
  · simp only [if_neg hlen]
    exact Reads.pure _

/-! ## Blocks and strings -/

theorem advanceOrFail_run (count : SizeT) (buf : Buf) :
    (advanceOrFail count).run buf =
      if count ≤ buf.left then .ok () (buf.skip count.toNat) else .error .failed buf.underflow := by
  rw [advanceOrFail, EStateM.run_bind, advance_run]
  by_cases h : count ≤ buf.left
  · rw [if_pos h, if_pos h]
    rfl
  · rw [if_neg h, if_neg h]
    rfl

theorem grows_advanceOrFail {big : Bool} (count : SizeT) :
    Grows (cursor big) (advanceOrFail count) := by
  intro buf v buf' h
  rw [advanceOrFail_run] at h
  split at h
  · obtain ⟨-, rfl⟩ := EStateM.Result.ok.inj h
    exact le_refl _
  · cases h

/-- **A block** of a given length. -/
theorem reads_advanceOrFail {big : Bool} (count : SizeT) :
    Reads (cursor big) (advanceOrFail count) fun _ _ bs => bs.length = count.toNat where
  complete := by
    rintro buf v bs ⟨hw, -, -⟩ hbs hlen
    have hle := hbs.length_le
    rw [length_ahead big hw, hlen, ← BitVec.le_def] at hle
    rw [advanceOrFail_run, if_pos hle, hlen]
    rfl
  sound := by
    rintro buf v buf' ⟨hw, -, -⟩ hrun -
    rw [advanceOrFail_run] at hrun
    split at hrun
    · rename_i hle
      obtain ⟨-, rfl⟩ := EStateM.Result.ok.inj hrun
      rw [BitVec.le_def] at hle
      have hlen : (buf.rest.take count.toNat).length = count.toNat := by
        rw [List.length_take]
        exact Nat.min_eq_left (hle.trans hw.le)
      exact ⟨buf.rest.take count.toNat, List.take_prefix_take_left hle, hlen, by rw [hlen]; rfl⟩
    · cases hrun
  grows := grows_advanceOrFail count

/-- The bytes of a C string. -/
def StringBytes : Grammar String Byte := fun _ s bs =>
  ∃ cs, 0 ∉ cs ∧ bs = cs ++ [0] ∧ s = text cs

theorem takeWhile_append_zero {cs : List Byte} (h : 0 ∉ cs) (t : List Byte) :
    (cs ++ 0 :: t).takeWhile (· ≠ 0) = cs := by
  rw [List.takeWhile_append_of_pos fun b hb => by
      simpa using fun h0 : b = 0 => h (h0 ▸ hb),
    List.takeWhile_cons_of_neg (by simp), List.append_nil]

/-- The bytes before the first zero, and what is behind them. -/
theorem exists_eq_append_zero {p : List Byte} (h : (p.takeWhile (· ≠ 0)).length < p.length) :
    ∃ cs t, 0 ∉ cs ∧ p = cs ++ 0 :: t ∧ p.takeWhile (· ≠ 0) = cs := by
  have hsplit := List.takeWhile_append_dropWhile (p := fun b : Byte => decide (b ≠ 0)) (l := p)
  have hzero : (0 : Byte) ∉ p.takeWhile (· ≠ 0) := fun hmem => by
    simpa using List.mem_takeWhile_imp hmem
  cases hdrop : p.dropWhile (· ≠ 0) with
  | nil =>
    rw [hdrop, List.append_nil] at hsplit
    rw [hsplit] at h
    exact absurd h (lt_irrefl _)
  | cons b t =>
    have hb := List.head?_dropWhile_not (fun b : Byte => decide (b ≠ 0)) p
    rw [hdrop] at hb hsplit
    have hb0 : b = 0 := by simpa using hb
    exact ⟨_, t, hzero, by rw [hb0] at hsplit; exact hsplit.symm, rfl⟩

theorem readString_run {buf : Buf} (hw : buf.Within) :
    readString.run buf =
      if (buf.rest.takeWhile (· ≠ 0)).length < buf.left.toNat then
        .ok (cString buf.rest) (buf.skip ((buf.rest.takeWhile (· ≠ 0)).length + 1))
      else .error .failed buf.underflow := by
  have hle := hw.le
  have hlt := hw.lt
  simp only [readString, EStateM.run_bind, EStateM.run_get, strnlen]
  by_cases h : (buf.rest.takeWhile (· ≠ 0)).length < buf.left.toNat
  · have hlen : (BitVec.ofNat 64 (buf.rest.takeWhile (· ≠ 0)).length + 1).toNat =
        (buf.rest.takeWhile (· ≠ 0)).length + 1 := by
      rw [show (1 : BitVec 64) = BitVec.ofNat 64 1 from rfl, ← BitVec.ofNat_add,
        BitVec.toNat_ofNat, Nat.mod_eq_of_lt (by omega)]
    rw [if_pos h, if_neg (Nat.not_le.mpr h), if_pos (h.trans_le hle)]
    simp only [EStateM.run_pure, advanceOrFail_run, BitVec.le_def, hlen,
      if_pos (Nat.succ_le_of_lt h)]
  · have hend : ¬ buf.left + 1 ≤ buf.left := by
      rw [BitVec.le_def, BitVec.toNat_add]
      simp
      omega
    rw [if_neg h, if_pos (Nat.le_of_not_lt h)]
    simp only [EStateM.run_pure, advanceOrFail_run, if_neg hend]

/-- **A string in the section.** -/
theorem reads_readString {big : Bool} : Reads (cursor big) readString StringBytes where
  complete := by
    rintro buf s bs ⟨hw, -, -⟩ hbs ⟨cs, hcs, rfl, rfl⟩
    have hle := hbs.length_le
    obtain ⟨t, ht⟩ := hbs.trans (List.take_prefix _ _)
    rw [List.append_assoc, List.singleton_append] at ht
    have htake : buf.rest.takeWhile (· ≠ 0) = cs := by rw [← ht, takeWhile_append_zero hcs]
    rw [length_ahead big hw, List.length_append, List.length_singleton] at hle
    rw [readString_run hw, htake, if_pos (by omega), cString, htake, List.length_append]
    rfl
  sound := by
    rintro buf s buf' ⟨hw, -, -⟩ hrun -
    rw [readString_run hw] at hrun
    split at hrun
    · rename_i h
      obtain ⟨rfl, rfl⟩ := EStateM.Result.ok.inj hrun
      obtain ⟨cs, t, hcs, hrest, htake⟩ := exists_eq_append_zero (h.trans_le hw.le)
      rw [htake] at h
      refine ⟨cs ++ [0], ?_, ⟨cs, hcs, rfl, by rw [cString, htake]⟩, ?_⟩
      · change cs ++ [0] <+: buf.rest.take buf.left.toNat
        have hpre : cs ++ [0] <+: buf.rest := ⟨t, by rw [hrest, List.append_assoc]; rfl⟩
        rw [List.prefix_iff_eq_take.mp hpre]
        exact List.take_prefix_take_left (by rw [List.length_append]; exact Nat.succ_le_of_lt h)
      · rw [htake, List.length_append]
        rfl
    · cases hrun
  grows := by
    unfold readString
    refine Grows.get.bind fun buf => Grows.bind ?_ fun len =>
      (grows_advanceOrFail _).bind fun _ => Grows.pure _
    exact (Grows.pure _).ite ((Grows.pure _).ite (Grows.throw _))

/-! ## Checks and copies -/

theorem failOnUnderflow_run {buf : Buf} (h : buf.reportedUnderflow = false) :
    failOnUnderflow.run buf = .ok () buf := by
  simp only [failOnUnderflow, EStateM.run_bind, EStateM.run_get, h, Bool.false_eq_true, if_false]
  rfl

theorem failOnUnderflow_ok {buf buf' : Buf} {u : Unit} (h : failOnUnderflow.run buf = .ok u buf') :
    buf' = buf ∧ buf.reportedUnderflow = false := by
  cases hu : buf.reportedUnderflow with
  | false =>
    rw [failOnUnderflow_run hu] at h
    obtain ⟨-, rfl⟩ := EStateM.Result.ok.inj h
    exact ⟨rfl, rfl⟩
  | true =>
    simp only [failOnUnderflow, EStateM.run_bind, EStateM.run_get, hu, if_true] at h
    cases h

theorem reads_failOnUnderflow {big : Bool} :
    Reads (cursor big) failOnUnderflow fun _ _ bs => bs = [] where
  complete := by
    rintro buf v bs ⟨-, hu, -⟩ - rfl
    rw [List.length_nil, (cursor big).skip_zero]
    exact failOnUnderflow_run hu
  sound := by
    rintro buf v buf' ⟨-, hu, -⟩ hrun -
    rw [failOnUnderflow_run hu] at hrun
    obtain ⟨-, rfl⟩ := EStateM.Result.ok.inj hrun
    exact ⟨[], List.nil_prefix, rfl, by rw [List.length_nil, (cursor big).skip_zero]⟩
  grows := by
    unfold failOnUnderflow
    exact Grows.get.bind fun buf => (Grows.throw _).ite (Grows.pure _)

theorem throughCopy_run {ε α : Type} {copy buf b : Buf} {x : EStateM ε Buf α} {v : α}
    (h : x.run { copy with errors := buf.errors } = .ok v b) (hb : b.errors = buf.errors) :
    (throughCopy copy x).run buf = .ok v buf := by
  change throughCopy copy x buf = _
  rw [throughCopy, h]
  change EStateM.Result.ok v { buf with errors := b.errors } = _
  rw [hb]

/-- **A copy** that reads something else leaves the buffer as it is. -/
theorem accepts_throughCopy {ε α : Type} {big big' : Bool} {copy : Buf} {x : EStateM ε Buf α}
    {G : Grammar α Byte} (hcopy : (cursor big').Ok copy) (hx : Accepts (cursor big') x G) :
    Accepts (cursor big) (throughCopy copy x) fun _ v bs =>
      bs = [] ∧ ∃ cs, cs <+: (cursor big').ahead copy ∧ G copy.pos v cs := by
  rintro buf v bs - - ⟨rfl, cs, hcs, hG⟩
  have hok : (cursor big').Ok { copy with errors := buf.errors } :=
    ⟨⟨hcopy.1.le, hcopy.1.lt⟩, hcopy.2⟩
  have hrun := hx hok hcs hG
  change throughCopy copy x buf = _
  rw [throughCopy, hrun, List.length_nil, (cursor big).skip_zero]
  rfl

theorem throughCopy_ok {ε α : Type} {copy buf buf' : Buf} {x : EStateM ε Buf α} {v : α}
    (h : (throughCopy copy x).run buf = .ok v buf') :
    ∃ b, x.run { copy with errors := buf.errors } = .ok v b ∧
      buf' = { buf with errors := b.errors } := by
  change throughCopy copy x buf = _ at h
  rw [throughCopy] at h
  cases hx : x.run { copy with errors := buf.errors } with
  | ok w b =>
    simp only [hx, EStateM.Result.ok.injEq] at h
    exact ⟨b, by rw [h.1], h.2.symm⟩
  | error e b =>
    simp only [hx] at h
    cases h

/-- **A copy whose underflow is always noticed.** -/
theorem reads_throughCopy {ε α : Type} {big big' : Bool} {copy : Buf} {x : EStateM ε Buf α}
    {G : Grammar α Byte} (hcopy : (cursor big').Ok copy) (hx : Reads (cursor big') x G)
    (hflag : ∀ {s v s'}, x.run s = .ok v s' → s'.reportedUnderflow = false) :
    Reads (cursor big) (throughCopy copy x) fun _ v bs =>
      bs = [] ∧ ∃ cs, cs <+: (cursor big').ahead copy ∧ G copy.pos v cs where
  complete := accepts_throughCopy hcopy hx.complete
  sound := by
    rintro buf v buf' - hrun hnoise
    have hok : (cursor big').Ok { copy with errors := buf.errors } :=
      ⟨⟨hcopy.1.le, hcopy.1.lt⟩, hcopy.2⟩
    obtain ⟨b, hb, rfl⟩ := throughCopy_ok hrun
    have hsame : b.noise = noise { copy with errors := buf.errors } := by
      have hlen : b.errors.length = buf.errors.length := Nat.add_right_cancel hnoise
      rw [noise, noise, hflag hb, hlen]
      simp only [hcopy.2.1]
    obtain ⟨cs, hcs, hG, rfl⟩ := hx.sound hok hb hsame
    exact ⟨[], List.nil_prefix, ⟨rfl, cs, hcs, hG⟩, by
      rw [List.length_nil, (cursor big).skip_zero]; rfl⟩
  grows := by
    intro buf v buf' hrun
    obtain ⟨b, hb, rfl⟩ := throughCopy_ok hrun
    have hle : noise { copy with errors := buf.errors } ≤ b.noise := hx.grows hb
    simp only [noise, hflag hb, hcopy.2.1] at hle
    exact Nat.add_le_add_right hle _

/-! ## Safety -/

/-- In a buffer that is within its section, the reader does nothing undefined: the buffer stays
within, nothing is unread, and the reader stops only to report failure. -/
abbrev NoFault {α : Type} (x : Read α) : Prop :=
  Safe Buf.Within (fun buf => buf.left.toNat) (· = Stop.failed) x

/-- The same for a reader that says what it has made. -/
abbrev NoFaultLeaving {τ α : Type} (x : ReadLeaving τ α) : Prop :=
  Safe Buf.Within (fun buf => buf.left.toNat) (fun e => e.1 = Stop.failed) x

theorem NoFault.leaving {τ α : Type} (t : τ) {x : Read α} (h : NoFault x) :
    NoFaultLeaving (leaving t x) := h.adaptExcept fun _ he => he

theorem Buf.Within.underflow {buf : Buf} (h : buf.Within) :
    buf.underflow.Within ∧ buf.underflow.left = buf.left := by
  unfold Buf.underflow
  split
  · exact ⟨h, rfl⟩
  · exact ⟨⟨h.le, h.lt⟩, rfl⟩

theorem noFault_failed {α : Type} : NoFault (throw Stop.failed : Read α) := Safe.throw rfl

theorem noFault_dwarfBufError (msg : String) : NoFault (dwarfBufError msg) := fun _ h =>
  SafeAt.of_ok rfl ⟨h.le, h.lt⟩ (le_refl _)

theorem noFault_advance (count : SizeT) : NoFault (advance count) := by
  intro buf h
  have hrun := advance_run count buf
  split at hrun
  · rename_i hle
    rw [BitVec.le_def] at hle
    exact SafeAt.of_ok hrun (h.skip hle) (by rw [toNat_left_skip hle]; omega)
  · exact SafeAt.of_ok hrun h.underflow.1 (by rw [h.underflow.2])

theorem noFault_advanceOrFail (count : SizeT) : NoFault (advanceOrFail count) :=
  (noFault_advance count).bind fun _ =>
    noFault_failed.ite (Safe.pure ())

theorem noFault_readUInt {n : Nat} (hn : n < 2 ^ 64) : NoFault (readUInt n) := by
  intro buf h
  by_cases hle : n ≤ buf.left.toNat
  · exact SafeAt.of_ok (readUInt_run hn hle (hle.trans h.le)) (h.skip hle)
      (by rw [toNat_left_skip hle]; omega)
  · exact SafeAt.of_ok (readUInt_run_underflow hn (Nat.lt_of_not_le hle)) h.underflow.1
      (by rw [h.underflow.2])

theorem noFault_readOffset (isDwarf64 : Bool) : NoFault (readOffset isDwarf64) := by
  cases isDwarf64 with
  | true => exact noFault_readUInt (by omega)
  | false => exact (noFault_readUInt (by omega)).bind fun _ => Safe.pure _

theorem noFault_readLength : NoFault readLength := by
  refine (noFault_readUInt (n := 4) (by omega)).bind fun len => ?_
  split
  · exact (noFault_readUInt (by omega)).bind fun _ => Safe.pure _
  · exact Safe.pure _

theorem noFault_readAddress (addrsize : Nat) : NoFault (readAddress addrsize) := by
  unfold readAddress
  split
  · exact (noFault_readUInt (by omega)).bind fun _ => Safe.pure _
  · exact (noFault_readUInt (by omega)).bind fun _ => Safe.pure _
  · exact (noFault_readUInt (by omega)).bind fun _ => Safe.pure _
  · exact noFault_readUInt (by omega)
  · exact (noFault_dwarfBufError _).bind fun _ => Safe.pure _

theorem noFault_errorCallback (msg : String) : NoFault (errorCallback msg) := fun _ h =>
  SafeAt.of_ok rfl ⟨h.le, h.lt⟩ (le_refl _)

theorem noFault_failOnUnderflow : NoFault failOnUnderflow :=
  Safe.get.bind fun _ => noFault_failed.ite (Safe.pure ())

/-- Reading from another buffer is as safe as the way in which it stops. -/
theorem safe_throughCopy {ε α : Type} {allowed : ε → Prop} {copy : Buf} {x : EStateM ε Buf α}
    (hx : ∀ errors e buf', x.run { copy with errors := errors } = .error e buf' → allowed e) :
    Safe Buf.Within (fun buf => buf.left.toNat) allowed (throughCopy copy x) := by
  intro buf h
  have hrun : (throughCopy copy x).run buf = throughCopy copy x buf := rfl
  rw [throughCopy] at hrun
  cases hres : x.run { copy with errors := buf.errors } with
  | ok v b =>
    simp only [hres] at hrun
    exact SafeAt.of_ok hrun ⟨h.le, h.lt⟩ (le_refl _)
  | error e b =>
    simp only [hres] at hrun
    exact SafeAt.of_error hrun (hx _ _ _ hres)

theorem noFault_throughCopy {α : Type} {copy : Buf} {x : Read α}
    (hx : ∀ e buf', x.run { copy with errors := e } ≠ .error .fault buf') :
    NoFault (throughCopy copy x) :=
  safe_throughCopy fun errors e buf' h => by
    cases e with
    | failed => rfl
    | fault => exact absurd h (hx errors buf')

theorem noFault_readString : NoFault readString := by
  intro buf h
  have hrun := readString_run h
  split at hrun
  · rename_i hlt
    exact SafeAt.of_ok hrun (h.skip hlt) (by rw [toNat_left_skip hlt]; omega)
  · exact SafeAt.of_error hrun rfl

/-- A byte that is read is no longer ahead. -/
theorem readByte_lt {buf buf' : Buf} {b : Byte} (h : buf.Within) (hpos : 0 < buf.left.toNat)
    (hrun : readByte.run buf = .ok b buf') : buf'.left.toNat < buf.left.toNat := by
  rw [readByte, readUInt_run (by omega) hpos (hpos.trans_le h.le)] at hrun
  obtain ⟨-, rfl⟩ := EStateM.Result.ok.inj hrun
  rw [toNat_left_skip hpos]
  omega

/-! ## Integers as bytes -/

/-- The lowest `n` bytes of a number, the highest first. -/
def splitBytes {w : Nat} : Nat → BitVec w → List Byte
  | 0, _ => []
  | n + 1, v => splitBytes n (v >>> 8) ++ [v.setWidth 8]

theorem length_splitBytes {w : Nat} (n : Nat) : ∀ v : BitVec w, (splitBytes n v).length = n := by
  induction n with
  | zero => exact fun _ => rfl
  | succ n ih =>
    intro v
    rw [splitBytes, List.length_append, ih, List.length_singleton]

theorem joinBytes_concat (w : Nat) (bs : List Byte) (b : Byte) :
    joinBytes w (bs ++ [b]) = joinBytes w bs <<< 8 ||| b.setWidth w :=
  List.foldl_append

/-- A number is its lowest byte and the bits above. -/
theorem shift_or_low {w : Nat} (v : BitVec w) :
    v >>> 8 <<< 8 ||| (v.setWidth 8).setWidth w = v := by
  apply BitVec.eq_of_getLsbD_eq
  intro i hi
  rw [BitVec.getLsbD_or, BitVec.getLsbD_shiftLeft, BitVec.getLsbD_ushiftRight,
    BitVec.getLsbD_setWidth, BitVec.getLsbD_setWidth]
  by_cases h8 : i < 8
  · simp [hi, h8]
  · simp [hi, h8, Nat.add_sub_of_le (Nat.le_of_not_lt h8)]

theorem joinBytes_splitBytes {w : Nat} (n : Nat) : ∀ v : BitVec w, v.toNat < 2 ^ (8 * n) →
    joinBytes w (splitBytes n v) = v := by
  induction n with
  | zero =>
    intro v hv
    rw [Nat.mul_zero, pow_zero, Nat.lt_one_iff] at hv
    exact BitVec.eq_of_toNat_eq (by rw [hv]; rfl)
  | succ n ih =>
    intro v hv
    have hlt : (v >>> 8).toNat < 2 ^ (8 * n) := by
      rw [BitVec.toNat_ushiftRight, Nat.shiftRight_eq_div_pow]
      rw [Nat.mul_succ, Nat.pow_add] at hv
      exact Nat.div_lt_of_lt_mul (by rwa [Nat.mul_comm])
    rw [splitBytes, joinBytes_concat, ih _ hlt]
    exact shift_or_low v

end Bktce.Libbacktrace
