import Mathlib.Logic.Function.Iterate
import Mathlib.Data.Nat.Bitwise

/-!
# Cyclic redundancy checks

A check of width `w`, the lowest bit first: a state is divided bit after bit, `bitStep`, and a byte
is added to its low bits before eight of these. `poly` is the divisor without its leading bit, which
makes `poly.msb` the coefficient of 1.

Results:

* `bitStep_xor`, `bitStep_injective`: dividing is linear, and loses nothing.
* `iterate_split`: to divide by some bits at once, look up the low bits in a table.
* `update_cancel`: **two messages that differ only in a stretch of at most `w` bits** are told
  apart.
-/

namespace Bktce.Lib.Crc

variable {w : Nat}

/-- One bit is divided out. -/
def bitStep (poly x : BitVec w) : BitVec w :=
  (x >>> 1) ^^^ if x.getLsbD 0 then poly else 0#w

/-- One byte is added. -/
def byteStep (poly x : BitVec w) (b : BitVec 8) : BitVec w :=
  (bitStep poly)^[8] (x ^^^ b.setWidth w)

/-- The bytes of a message are added. -/
def update (poly x : BitVec w) (bs : List (BitVec 8)) : BitVec w := bs.foldl (byteStep poly) x

variable {poly : BitVec w}

/-- What is added to both cancels. -/
theorem xor_xor_xor (a b c : BitVec w) : (a ^^^ c) ^^^ (b ^^^ c) = a ^^^ b := by
  rw [show (a ^^^ c) ^^^ (b ^^^ c) = (a ^^^ b) ^^^ (c ^^^ c) by ac_rfl, BitVec.xor_self,
    BitVec.xor_zero]

theorem bitStep_xor (x y : BitVec w) :
    bitStep poly (x ^^^ y) = bitStep poly x ^^^ bitStep poly y := by
  unfold bitStep
  rw [BitVec.getLsbD_xor, BitVec.ushiftRight_xor_distrib]
  cases x.getLsbD 0 <;> cases y.getLsbD 0
  · simp
  · simp [BitVec.xor_assoc]
  · simp only [Bool.true_xor, Bool.not_false, if_true, Bool.false_eq_true, if_false,
      BitVec.xor_zero]
    ac_rfl
  · simp [xor_xor_xor]

theorem iterate_xor (n : Nat) (x y : BitVec w) :
    (bitStep poly)^[n] (x ^^^ y) = (bitStep poly)^[n] x ^^^ (bitStep poly)^[n] y :=
  Function.Semiconj₂.iterate (fun x y => bitStep_xor x y) n x y

/-- Where the low bit is 0, the state is halved. -/
theorem bitStep_of_double {x y : BitVec w} (h : y.toNat = 2 * x.toNat) : bitStep poly y = x := by
  have hlow : y.getLsbD 0 = false := by
    rw [← BitVec.testBit_toNat, h, Nat.testBit_zero]
    simp
  rw [bitStep, hlow, if_neg Bool.false_ne_true, BitVec.xor_zero]
  apply BitVec.eq_of_toNat_eq
  rw [BitVec.toNat_ushiftRight, h, Nat.shiftRight_eq_div_pow]
  omega

theorem iterate_of_double (n : Nat) : ∀ {x y : BitVec w}, y.toNat = 2 ^ n * x.toNat →
    (bitStep poly)^[n] y = x := by
  induction n with
  | zero => exact fun h => BitVec.eq_of_toNat_eq (by simpa using h)
  | succ n ih =>
    intro x y h
    have hlt := y.isLt
    rw [Nat.pow_succ', Nat.mul_assoc] at h
    have hhalf : 2 ^ n * x.toNat < 2 ^ w := by omega
    have hmid : (BitVec.ofNat w (2 ^ n * x.toNat)).toNat = 2 ^ n * x.toNat := by
      rw [BitVec.toNat_ofNat, Nat.mod_eq_of_lt hhalf]
    rw [Function.iterate_succ_apply, bitStep_of_double (hmid.symm ▸ h)]
    exact ih hmid

/-- **Dividing by `n` bits**: those bits, and the others moved down. -/
theorem iterate_split (n : Nat) (x : BitVec w) :
    (bitStep poly)^[n] x = (bitStep poly)^[n] (BitVec.ofNat w (x.toNat % 2 ^ n)) ^^^ (x >>> n) := by
  have hlow : (BitVec.ofNat w (x.toNat % 2 ^ n)).toNat = x.toNat % 2 ^ n := by
    rw [BitVec.toNat_ofNat, Nat.mod_eq_of_lt ((Nat.mod_le _ _).trans_lt x.isLt)]
  have hhigh : (x ^^^ BitVec.ofNat w (x.toNat % 2 ^ n)).toNat = 2 ^ n * (x >>> n).toNat := by
    rw [BitVec.toNat_xor, hlow, BitVec.toNat_ushiftRight]
    apply Nat.eq_of_testBit_eq
    intro i
    rw [Nat.testBit_xor, Nat.testBit_mod_two_pow, Nat.testBit_two_pow_mul, Nat.testBit_shiftRight]
    by_cases hi : i < n
    · simp [hi, Nat.not_le.mpr hi]
    · simp [hi, Nat.le_of_not_lt hi]
  have hx : x = BitVec.ofNat w (x.toNat % 2 ^ n) ^^^ (x ^^^ BitVec.ofNat w (x.toNat % 2 ^ n)) := by
    rw [BitVec.xor_comm x, ← BitVec.xor_assoc, BitVec.xor_self, BitVec.zero_xor]
  conv_lhs => rw [hx, iterate_xor, iterate_of_double n hhigh]

section Detect

variable (hpoly : poly.msb = true)

include hpoly in
/-- A state is told by the next one. -/
theorem bitStep_injective : Function.Injective (bitStep poly) := by
  intro x y h
  have hzero : bitStep poly (x ^^^ y) = 0#w := by rw [bitStep_xor, h, BitVec.xor_self]
  suffices hxy : x ^^^ y = 0#w from BitVec.xor_eq_zero_iff.mp hxy
  generalize x ^^^ y = z at hzero
  unfold bitStep at hzero
  cases hlow : z.getLsbD 0 with
  | true =>
    -- the leading bit of `poly` is not cancelled
    rw [hlow, if_pos rfl, BitVec.xor_eq_zero_iff] at hzero
    have hmsb := congrArg BitVec.msb hzero
    rw [BitVec.msb_ushiftRight, hpoly] at hmsb
    simp at hmsb
  | false =>
    rw [hlow, if_neg Bool.false_ne_true, BitVec.xor_eq_zero_iff] at hzero
    have hhalf := congrArg BitVec.toNat hzero
    rw [BitVec.toNat_ushiftRight, Nat.shiftRight_eq_div_pow, BitVec.toNat_zero] at hhalf
    rw [← BitVec.testBit_toNat, Nat.testBit_zero, decide_eq_false_iff_not] at hlow
    apply BitVec.eq_of_toNat_eq
    rw [BitVec.toNat_zero]
    omega

omit hpoly in
theorem byte_xor_lt (b b' : BitVec 8) : (b.setWidth w ^^^ b'.setWidth w).toNat < 2 ^ 8 := by
  rw [BitVec.toNat_xor, BitVec.toNat_setWidth, BitVec.toNat_setWidth]
  exact Nat.xor_lt_two_pow ((Nat.mod_le _ _).trans_lt b.isLt) ((Nat.mod_le _ _).trans_lt b'.isLt)

include hpoly in
/-- What a step leads to tells how the states before it differ: not in the low byte. -/
theorem byteStep_diff {x x' : BitVec w} {b b' : BitVec 8} {k : Nat} (hk : 8 * k + 8 ≤ w)
    (h : (byteStep poly x b ^^^ byteStep poly x' b').toNat < 2 ^ (8 * k)) :
    ((x ^^^ b.setWidth w) ^^^ (x' ^^^ b'.setWidth w)).toNat =
      2 ^ 8 * (byteStep poly x b ^^^ byteStep poly x' b').toNat := by
  rw [byteStep, byteStep, ← iterate_xor] at h ⊢
  generalize (x ^^^ b.setWidth w) ^^^ (x' ^^^ b'.setWidth w) = z at h ⊢
  have hpow : 2 ^ (8 * k + 8) ≤ 2 ^ w := Nat.pow_le_pow_right (by omega) hk
  rw [Nat.pow_add] at hpow
  have hup : (BitVec.ofNat w (2 ^ 8 * ((bitStep poly)^[8] z).toNat)).toNat =
      2 ^ 8 * ((bitStep poly)^[8] z).toNat := by
    rw [BitVec.toNat_ofNat, Nat.mod_eq_of_lt (by omega)]
  have hsame := (bitStep_injective hpoly).iterate 8 (iterate_of_double 8 hup)
  rw [← hup, hsame]

include hpoly in
/-- Where messages of `k` bytes lead to the same state, the states before differ in `8 * k` bits
only. -/
theorem diff_of_update {bs : List (BitVec 8)} : ∀ {bs' : List (BitVec 8)} {x x' : BitVec w},
    bs.length = bs'.length → 8 * bs.length ≤ w → update poly x bs = update poly x' bs' →
      (x ^^^ x').toNat < 2 ^ (8 * bs.length) := by
  induction bs with
  | nil =>
    intro bs' x x' hlen _ h
    obtain rfl := List.length_eq_zero_iff.mp hlen.symm
    rw [show x = x' from h, BitVec.xor_self]
    exact Nat.two_pow_pos _
  | cons b bs ih =>
    rintro (_ | ⟨b', bs'⟩) x x' hlen hk h
    · cases hlen
    · rw [List.length_cons] at hk
      have hnext := ih (Nat.succ.inj hlen) (by omega) h
      have hdiff := byteStep_diff hpoly (by omega) hnext
      -- the bytes change the low byte only, and a step moves the difference down by one
      have hx : x ^^^ x' = ((x ^^^ b.setWidth w) ^^^ (x' ^^^ b'.setWidth w)) ^^^
          (b.setWidth w ^^^ b'.setWidth w) := by
        rw [show (x ^^^ b.setWidth w) ^^^ (x' ^^^ b'.setWidth w) =
            (x ^^^ x') ^^^ (b.setWidth w ^^^ b'.setWidth w) by ac_rfl,
          BitVec.xor_assoc (x ^^^ x'), BitVec.xor_self, BitVec.xor_zero]
      have hpow : 2 ^ (8 * (bs.length + 1)) = 2 ^ 8 * 2 ^ (8 * bs.length) := by
        rw [Nat.mul_succ, Nat.pow_add, Nat.mul_comm]
      rw [hx, BitVec.toNat_xor, hdiff, List.length_cons]
      refine Nat.xor_lt_two_pow (by rw [hpow]; omega) ((byte_xor_lt b b').trans_le ?_)
      exact Nat.pow_le_pow_right (by omega) (by omega)

include hpoly in
/-- **A stretch of at most `w` bits** is told by the state behind it. -/
theorem update_injective {bs : List (BitVec 8)} : ∀ {bs' : List (BitVec 8)} {x : BitVec w},
    bs.length = bs'.length → 8 * bs.length ≤ w → update poly x bs = update poly x bs' →
      bs = bs' := by
  induction bs with
  | nil => exact fun hlen _ _ => (List.length_eq_zero_iff.mp hlen.symm).symm
  | cons b bs ih =>
    rintro (_ | ⟨b', bs'⟩) x hlen hk h
    · cases hlen
    · rw [List.length_cons] at hk
      have hnext := diff_of_update hpoly (Nat.succ.inj hlen) (by omega) h
      have hdiff := byteStep_diff hpoly (by omega) hnext
      have hx : (x ^^^ b.setWidth w) ^^^ (x ^^^ b'.setWidth w) =
          b.setWidth w ^^^ b'.setWidth w := by
        rw [BitVec.xor_comm x, BitVec.xor_comm x, xor_xor_xor]
      have hlt := byte_xor_lt (w := w) b b'
      rw [hx] at hdiff
      have hzero : b.setWidth w ^^^ b'.setWidth w = 0#w :=
        BitVec.eq_of_toNat_eq (by rw [BitVec.toNat_zero]; omega)
      obtain rfl : b = b' := by
        have hsame := congrArg BitVec.toNat (BitVec.xor_eq_zero_iff.mp hzero)
        have hw : 2 ^ 8 ≤ 2 ^ w := Nat.pow_le_pow_right (by omega) (by omega)
        have := b.isLt
        have := b'.isLt
        rw [BitVec.toNat_setWidth, BitVec.toNat_setWidth, Nat.mod_eq_of_lt (by omega),
          Nat.mod_eq_of_lt (by omega)] at hsame
        exact BitVec.eq_of_toNat_eq hsame
      rw [ih (Nat.succ.inj hlen) (by omega) h]

include hpoly in
/-- The same bytes lead from different states to different ones. -/
theorem update_state_injective (bs : List (BitVec 8)) :
    Function.Injective fun x => update poly x bs := by
  induction bs with
  | nil => exact fun _ _ h => h
  | cons b bs ih =>
    intro x x' h
    have hstep : byteStep poly x b = byteStep poly x' b := ih h
    have hsame := (bitStep_injective hpoly).iterate 8 hstep
    rwa [BitVec.xor_left_inj] at hsame

include hpoly in
/-- **Messages that differ only in a stretch** of at most `w` bits are told apart. -/
theorem update_cancel {x : BitVec w} {front back bs bs' : List (BitVec 8)}
    (hlen : bs.length = bs'.length) (hw : 8 * bs.length ≤ w)
    (h : update poly x (front ++ bs ++ back) = update poly x (front ++ bs' ++ back)) :
    bs = bs' := by
  simp only [update, List.foldl_append] at h
  exact update_injective hpoly hlen hw (update_state_injective hpoly back h)

end Detect

end Bktce.Lib.Crc
