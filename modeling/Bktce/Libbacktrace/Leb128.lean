import Bktce.Lib.Leb128
import Bktce.Libbacktrace.Buf

/-!
# Reading LEB128 numbers

Model of `read_uleb128` and `read_sleb128` (`dwarf.c:548-621`). Both have one loop, and differ in
the message for a number that does not fit and in the sign.

Results: `reads_readUleb128` and `reads_readSleb128`. Without trouble they read exactly the numbers
that are terminated and have at most ten bytes, and return them modulo `2^64`. (The tenth byte has
more bits than fit, and these are dropped without a message.) `readLeb128_roundTrip`: what was
encoded is read back.
-/

namespace Bktce.Libbacktrace

open Bktce.Lib Bktce.Lib.Leb128 Buf

/-- What the loop over the bytes of a LEB128 number computes: the number, the shift and the last
byte. -/
structure LebResult where
  val : BitVec 64
  shift : BitVec 32
  last : Byte

/-- The next byte of a LEB128 number; `none` when `advance` fails. -/
def lebByte : Read (Option Byte) := do
  let p := (← get).rest
  if !(← advance 1) then return none
  return (← deref p 1)[0]?

/-- The loop of `read_uleb128` and `read_sleb128`; `none` when `advance` fails. A turn consumes a
byte of the section, so its length is enough fuel. -/
def lebLoop (msg : String) : Nat → BitVec 64 → BitVec 32 → Bool → Read (Option LebResult)
  | 0, _, _, _ => throw .fault
  | fuel + 1, val, shift, overflow => do
    match ← lebByte with
    | none => return none
    | some b =>
      let next (val : BitVec 64) (overflow : Bool) : Read (Option LebResult) :=
        if b &&& 0x80 ≠ 0 then lebLoop msg fuel val (shift + 7) overflow
        else return some ⟨val, shift + 7, b⟩
      if shift < 64 then next (val ||| (b &&& 0x7f).setWidth 64 <<< shift.toNat) overflow
      else if !overflow then
        dwarfBufError msg
        next val true
      else next val overflow

/-- The loop, from the start. -/
def readLeb (msg : String) : Read (Option LebResult) := do
  lebLoop msg ((← get).rest.length + 1) 0 0 false

/-- `read_uleb128`. -/
def readUleb128 : Read (BitVec 64) := do
  match ← readLeb "LEB128 overflows uint64_t" with
  | none => return 0
  | some r => return r.val

/-- `read_sleb128`. -/
def readSleb128 : Read (BitVec 64) := do
  match ← readLeb "signed LEB128 overflows uint64_t" with
  | none => return 0
  | some r =>
    if r.last &&& 0x40 ≠ 0 ∧ r.shift < 64 then return r.val ||| BitVec.allOnes 64 <<< r.shift.toNat
    else return r.val

/-- Read some numbers that do not matter. -/
def readUlebs : Nat → Read Unit
  | 0 => return ()
  | n + 1 => do
    let _ ← readUleb128
    readUlebs n

/-! ## Bits -/

theorem and_80_ne_zero : ∀ b : Byte, b &&& 0x80 ≠ 0 ↔ 128 ≤ b.toNat := by decide
theorem and_40_ne_zero : ∀ b : Byte, b &&& 0x40 ≠ 0 ↔ 64 ≤ b.toNat % 128 := by decide

theorem toNat_and_7f (b : Byte) : ((b &&& 0x7f).setWidth 64).toNat = b.toNat % 128 := by
  rw [BitVec.toNat_setWidth, BitVec.toNat_and, show (0x7f : Byte).toNat = 2 ^ 7 - 1 from rfl,
    Nat.and_two_pow_sub_one_eq_mod]
  omega

theorem or_shiftLeft {val x : BitVec 64} {i : Nat} (hi : i ≤ 64) (hval : val.toNat < 2 ^ i) :
    val ||| x <<< i = val + BitVec.ofNat 64 (2 ^ i * x.toNat) := by
  have hsplit : (2 : Nat) ^ 64 = 2 ^ i * 2 ^ (64 - i) := by
    rw [← Nat.pow_add]
    congr 1
    omega
  apply BitVec.eq_of_toNat_eq
  have hmod : 2 ^ i * x.toNat % 2 ^ 64 = 2 ^ i * (x.toNat % 2 ^ (64 - i)) := by
    rw [hsplit, Nat.mul_mod_mul_left]
  have hlt : 2 ^ i * (x.toNat % 2 ^ (64 - i)) + 2 ^ i ≤ 2 ^ 64 := by
    have := Nat.mod_lt x.toNat (Nat.two_pow_pos (64 - i))
    rw [hsplit, ← Nat.mul_succ]
    exact Nat.mul_le_mul_left _ this
  have hor := Nat.two_pow_add_eq_or_of_lt hval (x.toNat % 2 ^ (64 - i))
  rw [BitVec.toNat_or, BitVec.toNat_shiftLeft, Nat.shiftLeft_eq, Nat.mul_comm, BitVec.toNat_add,
    BitVec.toNat_ofNat, hmod, Nat.or_comm, ← hor, Nat.add_comm]
  exact (Nat.mod_eq_of_lt (by omega)).symm

/-! ## The loop -/

theorem lebByte_run {buf : Buf} (hw : buf.Within) :
    lebByte.run buf =
      if 1 ≤ buf.left.toNat then .ok buf.rest[0]? (buf.skip 1) else .ok none buf.underflow := by
  have hle : (1 : SizeT) ≤ buf.left ↔ 1 ≤ buf.left.toNat := BitVec.le_def
  simp only [lebByte, EStateM.run_bind, EStateM.run_get, advance_run]
  by_cases h : 1 ≤ buf.left.toNat
  · obtain ⟨b, rest, hrest⟩ := List.exists_cons_of_length_pos (le_trans h hw.le)
    rw [if_pos h, if_pos (hle.mpr h), hrest]
    rfl
  · rw [if_neg h, if_neg (mt hle.mp h)]
    rfl

theorem grows_lebByte {big : Bool} : Grows (cursor big) lebByte := by
  unfold lebByte
  refine Grows.get.bind fun buf => (grows_advance _).bind fun ok => ?_
  split
  · exact Grows.pure _
  · exact (grows_deref _ _).bind fun bs => Grows.pure _

theorem reads_lebByte {big : Bool} :
    Reads (cursor big) lebByte fun _ r bs => ∃ b, r = some b ∧ bs = [b] where
  complete := by
    rintro buf r bs ⟨hw, -, -⟩ hbs ⟨b, rfl, rfl⟩
    have hle := hbs.length_le
    rw [length_ahead big hw, List.length_singleton] at hle
    obtain ⟨t, ht⟩ := hbs.trans (List.take_prefix _ _)
    rw [lebByte_run hw, if_pos hle, ← ht]
    rfl
  sound := by
    rintro buf r buf' ⟨hw, hu, -⟩ hrun hnoise
    rw [lebByte_run hw] at hrun
    split at hrun
    · rename_i h
      obtain ⟨rfl, rfl⟩ := EStateM.Result.ok.inj hrun
      obtain ⟨b, rest, hrest⟩ := List.exists_cons_of_length_pos (le_trans h hw.le)
      refine ⟨[b], ?_, ⟨b, by rw [hrest]; rfl, rfl⟩, rfl⟩
      change [b] <+: buf.rest.take buf.left.toNat
      rw [hrest]
      exact List.take_prefix_take_left (l := b :: rest) (i := 1) h
    · obtain ⟨rfl, rfl⟩ := EStateM.Result.ok.inj hrun
      exact absurd hnoise (noise_underflow hu).ne'
  grows := grows_lebByte

theorem grows_lebLoop {big : Bool} (msg : String) (fuel : Nat) :
    ∀ (val : BitVec 64) (shift : BitVec 32) (overflow : Bool),
      Grows (cursor big) (lebLoop msg fuel val shift overflow) := by
  induction fuel with
  | zero => exact fun _ _ _ => Grows.throw _
  | succ fuel ih =>
    intro val shift overflow
    unfold lebLoop
    refine grows_lebByte.bind fun r => ?_
    cases r with
    | none => exact Grows.pure _
    | some b =>
      have next := fun val overflow =>
        (ih val (shift + 7) overflow).ite (c := b &&& 0x80 ≠ 0)
          (Grows.pure (some ⟨val, shift + 7, b⟩))
      exact (next _ _).ite (((grows_dwarfBufError msg).bind fun _ => next _ _).ite (next _ _))

/-- Seven more bits. -/
theorem toNat_add_byte_lt {val : BitVec 64} {k : Nat} (h : val.toNat < 2 ^ (7 * k)) (b : Byte) :
    (val + BitVec.ofNat 64 (2 ^ (7 * k) * (b.toNat % 128))).toNat < 2 ^ (7 * (k + 1)) := by
  have hb : b.toNat % 128 ≤ 127 := by omega
  have hmul := Nat.mul_le_mul_left (2 ^ (7 * k)) hb
  have hpow : 2 ^ (7 * (k + 1)) = 2 ^ (7 * k) * 128 := by rw [Nat.mul_succ, Nat.pow_add]
  rw [BitVec.toNat_add, BitVec.toNat_ofNat, Nat.add_mod_mod]
  have := Nat.mod_le (val.toNat + 2 ^ (7 * k) * (b.toNat % 128)) (2 ^ 64)
  omega

/-- What the loop reads after `k` bytes that left `val`. -/
def LebBytes (fuel k : Nat) (val : BitVec 64) : Grammar (Option LebResult) Byte := fun _ r bs =>
  Terminated bs ∧ bs.length ≤ fuel ∧ k + bs.length ≤ 10 ∧
    r = some ⟨val + BitVec.ofNat 64 (2 ^ (7 * k) * value bs), BitVec.ofNat 32 (7 * (k + bs.length)),
      (bs.getLast?).getD 0⟩

theorem lebBytes_singleton_iff {fuel k p : Nat} {val : BitVec 64} {b : Byte}
    {r : Option LebResult} :
    LebBytes (fuel + 1) k val p r [b] ↔ ¬ 128 ≤ b.toNat ∧ k < 10 ∧
      r = some ⟨val + BitVec.ofNat 64 (2 ^ (7 * k) * (b.toNat % 128)),
        BitVec.ofNat 32 (7 * (k + 1)), b⟩ := by
  simp only [LebBytes, Terminated, if_true, value, List.length_singleton, Nat.mul_zero,
    Nat.add_zero, List.getLast?_singleton, Option.getD_some, not_le]
  constructor
  · rintro ⟨hb, -, hk, hr⟩
    exact ⟨hb, hk, hr⟩
  · rintro ⟨hb, hk, hr⟩
    exact ⟨hb, Nat.le_add_left 1 fuel, hk, hr⟩

theorem lebBytes_cons_iff {fuel k p : Nat} {val : BitVec 64} {b : Byte} {bs : List Byte}
    {r : Option LebResult} (hbs : bs ≠ []) :
    LebBytes (fuel + 1) k val p r (b :: bs) ↔ 128 ≤ b.toNat ∧
      LebBytes fuel (k + 1) (val + BitVec.ofNat 64 (2 ^ (7 * k) * (b.toNat % 128))) p r bs := by
  have hval : val + BitVec.ofNat 64 (2 ^ (7 * k) * (b.toNat % 128)) +
      BitVec.ofNat 64 (2 ^ (7 * (k + 1)) * value bs) =
      val + BitVec.ofNat 64 (2 ^ (7 * k) * value (b :: bs)) := by
    rw [BitVec.add_assoc, ← BitVec.ofNat_add, value, Nat.mul_succ, Nat.pow_add]
    congr 2
    ring
  have hlast : (b :: bs).getLast?.getD 0 = bs.getLast?.getD 0 := by
    rw [List.getLast?_cons_of_ne_nil hbs]
  have hlen : k + (b :: bs).length = k + 1 + bs.length := by
    rw [List.length_cons]
    omega
  unfold LebBytes
  rw [Terminated, if_neg hbs, hval, hlast, hlen, List.length_cons, Nat.add_le_add_iff_right,
    and_assoc]

/-- **The loop** reads a number a byte at a time. The invariant is that `k` bytes were read and left
a value of at most `7 * k` bits. -/
theorem reads_lebLoop {big : Bool} (msg : String) (fuel : Nat) : ∀ {k : Nat} {val : BitVec 64},
    k ≤ 10 → val.toNat < 2 ^ (7 * k) →
    Reads (cursor big) (lebLoop msg fuel val (BitVec.ofNat 32 (7 * k)) false)
      (LebBytes fuel k val) := by
  induction fuel with
  | zero =>
    intro k val hk hval
    refine (Reads.throw _).congr fun p r bs => ⟨False.elim, ?_⟩
    rintro ⟨hterm, hlen, -⟩
    rw [List.length_eq_zero_iff.mp (Nat.le_zero.mp hlen)] at hterm
    exact hterm
  | succ fuel ih =>
    intro k val hk hval
    have hshift : BitVec.ofNat 32 (7 * k) < 64 ↔ k < 10 := by
      rw [BitVec.lt_def, BitVec.toNat_ofNat, Nat.mod_eq_of_lt (by omega)]
      simp
      omega
    have hnext : BitVec.ofNat 32 (7 * k) + 7 = BitVec.ofNat 32 (7 * (k + 1)) := by
      rw [Nat.mul_succ, BitVec.ofNat_add]
      rfl
    unfold lebLoop
    refine (reads_lebByte.bind (H := fun r => match r with
      | none => fun _ w cs => w = none ∧ cs = []
      | some b => if k < 10 then
          let val := val + BitVec.ofNat 64 (2 ^ (7 * k) * (b.toNat % 128))
          if b &&& 0x80 ≠ 0 then LebBytes fuel (k + 1) val
          else fun _ w cs => w = some ⟨val, BitVec.ofNat 32 (7 * (k + 1)), b⟩ ∧ cs = []
        else fun _ _ _ => False) fun r => ?_).congr fun p w cs => ?_
    · cases r with
      | none => exact Reads.pure _
      | some b =>
        by_cases hk10 : k < 10
        · have htoNat : (BitVec.ofNat 32 (7 * k)).toNat = 7 * k := by
            rw [BitVec.toNat_ofNat, Nat.mod_eq_of_lt (by omega)]
          simp only [if_pos (hshift.mpr hk10), if_pos hk10, hnext, htoNat,
            or_shiftLeft (x := (b &&& 0x7f).setWidth 64) (show 7 * k ≤ 64 by omega) hval,
            toNat_and_7f]
          split
          · exact ih (by omega) (toNat_add_byte_lt hval b)
          · exact Reads.pure _
        · simp only [if_neg (mt hshift.mp hk10), if_neg hk10]
          exact Reads.of_noise (fun _ h => noise_dwarfBufError msg h) (grows_dwarfBufError msg)
            fun _ => (grows_lebLoop msg fuel _ _ _).ite (Grows.pure _)
    · constructor
      · rintro ⟨r, as, bs, rfl, ⟨b, rfl, rfl⟩, h⟩
        simp only at h
        split at h
        · split at h
          · rename_i hk10 hb
            obtain ⟨hterm, hlen, hk', rfl⟩ := h
            have hbs : bs ≠ [] := by
              rintro rfl
              exact hterm
            exact (lebBytes_cons_iff hbs).mpr ⟨(and_80_ne_zero b).mp hb, hterm, hlen, hk', rfl⟩
          · rename_i hk10 hb
            obtain ⟨rfl, rfl⟩ := h
            exact lebBytes_singleton_iff.mpr ⟨mt (and_80_ne_zero b).mpr hb, hk10, rfl⟩
        · exact h.elim
      · rintro h
        cases cs with
        | nil => exact h.1.elim
        | cons b bs =>
          refine ⟨some b, [b], bs, rfl, ⟨b, rfl, rfl⟩, ?_⟩
          by_cases hbs : bs = []
          · subst hbs
            obtain ⟨hb, hk10, rfl⟩ := lebBytes_singleton_iff.mp h
            simp only [if_pos hk10, if_neg (mt (and_80_ne_zero b).mp hb)]
            exact ⟨trivial, trivial⟩
          · obtain ⟨hb, h⟩ := (lebBytes_cons_iff hbs).mp h
            have hk10 : k < 10 := by
              have := h.2.2.1
              omega
            simp only [if_pos hk10, if_pos ((and_80_ne_zero b).mpr hb)]
            exact h

/-! ## The numbers -/

/-- The result of the loop for the bytes of a number. -/
def lebResult (bs : List Byte) : LebResult :=
  ⟨BitVec.ofNat 64 (value bs), BitVec.ofNat 32 (7 * bs.length), (bs.getLast?).getD 0⟩

theorem readLeb_run (msg : String) (buf : Buf) :
    (readLeb msg).run buf = (lebLoop msg (buf.rest.length + 1) 0 0 false).run buf := rfl

theorem reads_readLeb {big : Bool} (msg : String) :
    Reads (cursor big) (readLeb msg) fun _ r bs =>
      Terminated bs ∧ bs.length ≤ 10 ∧ r = some (lebResult bs) := by
  have hloop := fun fuel => @reads_lebLoop big msg fuel 0 0 (Nat.zero_le 10) (by simp)
  have heq : ∀ {fuel p r bs}, LebBytes fuel 0 0 p r bs ↔
      bs.length ≤ fuel ∧ Terminated bs ∧ bs.length ≤ 10 ∧ r = some (lebResult bs) := by
    intro fuel p r bs
    simp only [LebBytes, lebResult, Nat.mul_zero, pow_zero, Nat.one_mul, Nat.zero_add,
      BitVec.ofNat_eq_ofNat, BitVec.zero_add]
    exact and_left_comm
  refine ⟨?_, ?_, ?_⟩
  · rintro buf r bs hok hbs h
    rw [readLeb_run]
    refine (hloop _).complete hok hbs (heq.mpr ⟨?_, h⟩)
    have := (hbs.trans (List.take_prefix _ _)).length_le
    omega
  · rintro buf r buf' hok hrun hnoise
    obtain ⟨bs, hbs, h, hskip⟩ := (hloop _).sound hok hrun hnoise
    exact ⟨bs, hbs, (heq.mp h).2, hskip⟩
  · intro buf r buf' hrun
    exact grows_lebLoop msg _ _ _ _ hrun

/-- The bytes of an unsigned number. -/
def UlebBytes : Grammar (BitVec 64) Byte := fun _ v bs =>
  Terminated bs ∧ bs.length ≤ 10 ∧ v = BitVec.ofNat 64 (value bs)

/-- The bytes of a signed number. -/
def SlebBytes : Grammar (BitVec 64) Byte := fun _ v bs =>
  Terminated bs ∧ bs.length ≤ 10 ∧ v = BitVec.ofInt 64 (signedValue bs)

/-- **`read_uleb128`** reads the unsigned numbers. -/
theorem reads_readUleb128 {big : Bool} : Reads (cursor big) readUleb128 UlebBytes := by
  have heq : readUleb128 = readLeb "LEB128 overflows uint64_t" >>= fun r =>
      pure (r.elim 0 LebResult.val) := by
    unfold readUleb128
    congr 1
    funext r
    cases r <;> rfl
  rw [heq]
  refine ((reads_readLeb _).map _).congr fun p v bs => ⟨?_, ?_⟩
  · rintro ⟨r, ⟨hterm, hlen, rfl⟩, rfl⟩
    exact ⟨hterm, hlen, rfl⟩
  · rintro ⟨hterm, hlen, rfl⟩
    exact ⟨_, ⟨hterm, hlen, rfl⟩, rfl⟩

/-- The bytes of some numbers that do not matter. -/
def UlebsBytes : Nat → Grammar Unit Byte
  | 0 => fun _ _ bs => bs = []
  | n + 1 => fun p _ bs =>
    ∃ v as cs, bs = as ++ cs ∧ UlebBytes p v as ∧ UlebsBytes n (p + as.length) () cs

theorem negative_eq {bs : List Byte} (h : bs ≠ []) :
    negative bs = decide (64 ≤ ((bs.getLast?).getD 0).toNat % 128) := by
  induction bs with
  | nil => exact absurd rfl h
  | cons b bs ih =>
    by_cases hbs : bs = []
    · subst hbs
      rfl
    · rw [negative, if_neg hbs, ih hbs, List.getLast?_cons_of_ne_nil hbs]

/-- The sign of the loop's result. -/
def LebResult.signed (r : LebResult) : BitVec 64 :=
  if r.last &&& 0x40 ≠ 0 ∧ r.shift < 64 then r.val ||| BitVec.allOnes 64 <<< r.shift.toNat
  else r.val

theorem ofInt_add_mul (i k : Int) : BitVec.ofInt 64 (i + 2 ^ 64 * k) = BitVec.ofInt 64 i := by
  apply BitVec.eq_of_toNat_eq
  rw [BitVec.toNat_ofInt, BitVec.toNat_ofInt]
  congr 1
  exact Int.add_mul_emod_self_left i (2 ^ 64) k

theorem signed_lebResult {bs : List Byte} (hterm : Terminated bs) (hlen : bs.length ≤ 10) :
    (lebResult bs).signed = BitVec.ofInt 64 (signedValue bs) := by
  have hne : bs ≠ [] := by
    rintro rfl
    exact hterm
  have hshift : (BitVec.ofNat 32 (7 * bs.length)).toNat = 7 * bs.length := by
    rw [BitVec.toNat_ofNat, Nat.mod_eq_of_lt (by omega)]
  have hsign : (bs.getLast?).getD 0 &&& 0x40 ≠ 0 ↔ negative bs = true := by
    rw [negative_eq hne, decide_eq_true_eq, and_40_ne_zero]
  have hlt : BitVec.ofNat 32 (7 * bs.length) < 64 ↔ bs.length < 10 := by
    rw [BitVec.lt_def, hshift]
    simp
    omega
  rw [signedValue_eq]
  simp only [LebResult.signed, lebResult, hsign, hlt, hshift]
  by_cases hneg : negative bs = true
  · by_cases hlen' : bs.length < 10
    · have hval : (BitVec.ofNat 64 (value bs)).toNat < 2 ^ (7 * bs.length) := by
        rw [BitVec.toNat_ofNat, pow_mul]
        exact (Nat.mod_le _ _).trans_lt (value_lt bs)
      have hmul : (128 : Int) ^ bs.length * (2 ^ 64 - 1) =
          ((2 ^ (7 * bs.length) * (2 ^ 64 - 1) : Nat) : Int) := by
        rw [pow_mul]
        norm_num
      rw [if_pos ⟨hneg, hlen'⟩, if_pos hneg, or_shiftLeft (by omega) hval, BitVec.toNat_allOnes,
        ← BitVec.ofInt_natCast, ← BitVec.ofInt_natCast, ← BitVec.ofInt_add, ← hmul,
        ← ofInt_add_mul (value bs - 128 ^ bs.length) (128 ^ bs.length)]
      congr 1
      ring
    · rw [if_neg fun h => hlen' h.2, if_pos hneg, show bs.length = 10 by omega,
        ← BitVec.ofInt_natCast, ← ofInt_add_mul (value bs - 128 ^ 10) 64]
      congr 1
      ring
  · rw [if_neg fun h => hneg h.1, if_neg hneg, sub_zero, BitVec.ofInt_natCast]

/-- **`read_sleb128`** reads the signed numbers. -/
theorem reads_readSleb128 {big : Bool} : Reads (cursor big) readSleb128 SlebBytes := by
  have heq : readSleb128 = readLeb "signed LEB128 overflows uint64_t" >>= fun r =>
      pure (r.elim 0 LebResult.signed) := by
    unfold readSleb128
    congr 1
    funext r
    cases r with
    | none => rfl
    | some r =>
      simp only [Option.elim_some, LebResult.signed]
      split <;> rfl
  rw [heq]
  refine ((reads_readLeb _).map _).congr fun p v bs => ⟨?_, ?_⟩
  · rintro ⟨r, ⟨hterm, hlen, rfl⟩, rfl⟩
    exact ⟨hterm, hlen, signed_lebResult hterm hlen⟩
  · rintro ⟨hterm, hlen, rfl⟩
    exact ⟨_, ⟨hterm, hlen, rfl⟩, (signed_lebResult hterm hlen).symm⟩

theorem ulebBytes_encode (p : Nat) (v : BitVec 64) : UlebBytes p v (encode 10 v.toNat) := by
  obtain ⟨hterm, hlen, hval⟩ := encode_spec 9 (n := v.toNat) (v.isLt.trans (by norm_num))
  exact ⟨hterm, hlen, by rw [hval, BitVec.ofNat_toNat, BitVec.setWidth_eq]⟩

theorem slebBytes_encodeSigned (p : Nat) {d : Int} (hlo : -2 ^ 63 ≤ d) (hhi : d < 2 ^ 63) :
    SlebBytes p (BitVec.ofInt 64 d) (encodeSigned 10 d) := by
  obtain ⟨hterm, hlen, hval⟩ := encodeSigned_spec 9 (i := d) (by omega) (by omega)
  exact ⟨hterm, hlen, by rw [hval]⟩

/-- **Round trip.** Both readers give back the number that was encoded, whatever follows its
bytes. -/
theorem readLeb128_roundTrip {big : Bool} (v : BitVec 64) {buf : Buf} (hok : (cursor big).Ok buf) :
    (encode 10 v.toNat <+: (cursor big).ahead buf →
      readUleb128.run buf = .ok v (buf.skip (encode 10 v.toNat).length)) ∧
    (encodeSigned 10 v.toInt <+: (cursor big).ahead buf →
      readSleb128.run buf = .ok v (buf.skip (encodeSigned 10 v.toInt).length)) := by
  refine ⟨fun hbs => reads_readUleb128.complete hok hbs (ulebBytes_encode _ v), fun hbs => ?_⟩
  have hlo : -2 ^ 63 ≤ v.toInt := BitVec.le_toInt v
  have hhi : v.toInt < 2 ^ 63 := BitVec.toInt_lt
  have hbytes := slebBytes_encodeSigned ((cursor big).pos buf) hlo hhi
  rw [BitVec.ofInt_toInt] at hbytes
  exact reads_readSleb128.complete hok hbs hbytes

/-- The bytes of `-129`, and a byte behind them. -/
theorem readLeb128_roundTrip_negative :
    let buf := ofSection ".debug_line" [0xff, 0x7e, 0] 0 false
    readSleb128.run buf = .ok (-129) (buf.skip 2) :=
  (@readLeb128_roundTrip false (-129) _ (ofSection_ok (by decide) (by decide)).1).2
    ⟨[0], by decide⟩

theorem lebByte_safe {buf : Buf} (h : buf.Within) :
    SafeAt Buf.Within (fun buf => buf.left.toNat) (· = Stop.failed) lebByte buf ∧
      ∀ {b buf'}, lebByte.run buf = .ok (some b) buf' → buf'.left.toNat < buf.left.toNat := by
  have hrun := lebByte_run h
  split at hrun
  · rename_i hpos
    refine ⟨SafeAt.of_ok hrun (h.skip hpos) (by rw [toNat_left_skip hpos]; omega), ?_⟩
    intro b buf' h'
    obtain ⟨-, rfl⟩ := EStateM.Result.ok.inj (hrun.symm.trans h')
    rw [toNat_left_skip hpos]
    omega
  · refine ⟨SafeAt.of_ok hrun h.underflow.1 (by rw [h.underflow.2]), ?_⟩
    intro b buf' h'
    cases (EStateM.Result.ok.inj (hrun.symm.trans h')).1

/-- A turn behind its byte. -/
theorem lebTurn_safe {msg : String} {fuel : Nat}
    (ih : ∀ {val : BitVec 64} {shift : BitVec 32} {overflow : Bool} {buf : Buf}, buf.Within →
      buf.left.toNat < fuel → SafeAt Buf.Within (fun buf => buf.left.toNat) (· = Stop.failed)
        (lebLoop msg fuel val shift overflow) buf)
    (val : BitVec 64) (shift : BitVec 32) (overflow : Bool) (b : Byte) {buf : Buf} (hw : buf.Within)
    (hlt : buf.left.toNat < fuel) :
    SafeAt Buf.Within (fun buf => buf.left.toNat) (· = Stop.failed)
      (let next (val : BitVec 64) (overflow : Bool) : Read (Option LebResult) :=
        if b &&& 0x80 ≠ 0 then lebLoop msg fuel val (shift + 7) overflow
        else return some ⟨val, shift + 7, b⟩
      if shift < 64 then next (val ||| (b &&& 0x7f).setWidth 64 <<< shift.toNat) overflow
      else if !overflow then do
        dwarfBufError msg
        next val true
      else next val overflow) buf := by
  have next : ∀ val overflow {buf₂ : Buf}, buf₂.Within → buf₂.left = buf.left →
      SafeAt Buf.Within (fun buf => buf.left.toNat) (· = Stop.failed)
        (if b &&& 0x80 ≠ 0 then lebLoop msg fuel val (shift + 7) overflow
          else return some ⟨val, shift + 7, b⟩) buf₂ := by
    intro val overflow buf₂ hw₂ hleft
    split
    · exact ih hw₂ (by rw [hleft]; exact hlt)
    · exact Safe.pure _ hw₂
  simp only
  split
  · exact next _ _ hw rfl
  · split
    · refine (noFault_dwarfBufError msg hw).bind fun {u buf₂} hmsg => ?_
      obtain ⟨-, rfl⟩ := EStateM.Result.ok.inj hmsg
      exact next _ _ ⟨hw.le, hw.lt⟩ rfl
    · exact next _ _ hw rfl

theorem lebLoop_safe (msg : String) (fuel : Nat) : ∀ {val : BitVec 64} {shift : BitVec 32}
    {overflow : Bool} {buf : Buf}, buf.Within → buf.left.toNat < fuel →
    SafeAt Buf.Within (fun buf => buf.left.toNat) (· = Stop.failed)
      (lebLoop msg fuel val shift overflow) buf := by
  induction fuel with
  | zero =>
    intro val shift overflow buf h hlt
    omega
  | succ fuel ih =>
    intro val shift overflow buf h hlt
    obtain ⟨hbyte, hdec⟩ := lebByte_safe h
    unfold lebLoop
    refine hbyte.bind fun {r buf₁} hrun => ?_
    have hw := (hbyte.ok hrun).1
    cases r with
    | none => exact Safe.pure _ hw
    | some b =>
      have hlt' := hdec hrun
      exact lebTurn_safe ih val shift overflow b hw (by omega)

theorem noFault_readLeb (msg : String) : NoFault (readLeb msg) := fun _ h =>
  (lebLoop_safe msg _ h (Nat.lt_succ_of_le h.le)).get_bind

theorem noFault_readUleb128 : NoFault readUleb128 :=
  (noFault_readLeb _).bind fun r => by cases r <;> exact Safe.pure _

/-- Where something is left, a number takes a byte at least. -/
theorem readUleb128_lt {buf buf' : Buf} {v : BitVec 64} (h : buf.Within) (hpos : 0 < buf.left.toNat)
    (hrun : readUleb128.run buf = .ok v buf') : buf'.left.toNat < buf.left.toNat := by
  obtain ⟨r, buf₁, hloop, hres⟩ := run_bind_ok hrun
  have hsame : buf' = buf₁ := by
    cases r with
    | none => exact (EStateM.Result.ok.inj hres).2.symm
    | some r => exact (EStateM.Result.ok.inj hres).2.symm
  rw [readLeb_run, lebLoop] at hloop
  obtain ⟨o, buf₂, hbyte, hnext⟩ := run_bind_ok hloop
  obtain ⟨hsafe, hdec⟩ := lebByte_safe h
  have hw := (hsafe.ok hbyte).1
  cases o with
  | none =>
    rw [lebByte_run h, if_pos (Nat.succ_le_of_lt hpos)] at hbyte
    have hnone := (EStateM.Result.ok.inj hbyte).1
    rw [List.getElem?_eq_getElem (hpos.trans_le h.le)] at hnone
    cases hnone
  | some b =>
    have hlt := hdec hbyte
    have hturn := lebTurn_safe (lebLoop_safe "LEB128 overflows uint64_t" buf.rest.length) 0 0
      false b hw
      (hlt.trans_le h.le)
    rw [hsame]
    exact (hturn.ok hnext).2.trans_lt hlt

/-- Where nothing is left, there is a zero. -/
theorem readUleb128_underflow {buf : Buf} (h : buf.Within) (hleft : buf.left.toNat = 0) :
    readUleb128.run buf = .ok 0 buf.underflow := by
  have hloop : (readLeb "LEB128 overflows uint64_t").run buf = .ok none buf.underflow := by
    rw [readLeb_run, lebLoop, EStateM.run_bind, lebByte_run h, if_neg (by omega)]
    rfl
  rw [readUleb128, EStateM.run_bind, hloop]
  rfl

/-- A number that is not zero takes a byte at least. -/
theorem readUleb128_lt_of_ne_zero {buf buf' : Buf} {v : BitVec 64} (h : buf.Within) (hv : v ≠ 0)
    (hrun : readUleb128.run buf = .ok v buf') : buf'.left.toNat < buf.left.toNat := by
  by_cases hpos : 0 < buf.left.toNat
  · exact readUleb128_lt h hpos hrun
  · rw [readUleb128_underflow h (by omega)] at hrun
    exact absurd (EStateM.Result.ok.inj hrun).1.symm hv

theorem noFault_readSleb128 : NoFault readSleb128 :=
  (noFault_readLeb _).bind fun r => by
    cases r with
    | none => exact Safe.pure _
    | some r => exact (Safe.pure _).ite (Safe.pure _)

theorem noFault_readUlebs (n : Nat) : NoFault (readUlebs n) := by
  induction n with
  | zero => exact Safe.pure _
  | succ n ih => exact noFault_readUleb128.bind fun _ => ih

end Bktce.Libbacktrace
