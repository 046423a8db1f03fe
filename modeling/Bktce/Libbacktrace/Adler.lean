import Bktce.Libbacktrace.Buf
import Mathlib.Data.Nat.ModEq

/-!
# The checksum of decompressed sections

Model of `elf_zlib_verify_checksum` (`elf.c:2356-2481`), which compares the Adler-32 of some data
with four bytes. Two sums are kept in 32 bits, and are reduced only after 5552 bytes.

* `sums`: both sums of the data, not reduced.
* `Headroom s n`: `n` more bytes cannot make a sum of the state `s` overflow. What is bounded does
  not grow with the bytes (`Headroom.byte`).

Results:

* `zlibVerifyChecksum_iff`: the data is accepted exactly if the bytes are its Adler-32. No sum
  overflows, however long the data is.
-/

namespace Bktce.Libbacktrace

/-! ## The code -/

/-- `s1 = s1 + *p++; s2 = s2 + s1;`. -/
def adlerByte (s : BitVec 32 × BitVec 32) (b : Byte) : BitVec 32 × BitVec 32 :=
  (s.1 + b.setWidth 32, s.2 + (s.1 + b.setWidth 32))

/-- `s1 %= 65521; s2 %= 65521;`. -/
def adlerReduce (s : BitVec 32 × BitVec 32) : BitVec 32 × BitVec 32 := (s.1 % 65521, s.2 % 65521)

/-- The loop that is unrolled 16 times, `turns` times. -/
def adlerRounds : Nat → BitVec 32 × BitVec 32 → List Byte → (BitVec 32 × BitVec 32) × List Byte
  | 0, s, p => (s, p)
  | turns + 1, s, p => adlerRounds turns ((p.take 16).foldl adlerByte s) (p.drop 16)

/-- `while (hsz >= 5552)`. -/
def adlerBlocks : Nat → BitVec 32 × BitVec 32 → List Byte → (BitVec 32 × BitVec 32) × List Byte
  | 0, s, p => (s, p)
  | fuel + 1, s, p =>
    if p.length ≥ 5552 then
      let r := adlerRounds (5552 / 16) s p
      adlerBlocks fuel (adlerReduce r.1) r.2
    else (s, p)

/-- `while (hsz >= 16)`. -/
def adlerSixteens : Nat → BitVec 32 × BitVec 32 → List Byte → (BitVec 32 × BitVec 32) × List Byte
  | 0, s, p => (s, p)
  | fuel + 1, s, p =>
    if p.length ≥ 16 then adlerSixteens fuel ((p.take 16).foldl adlerByte s) (p.drop 16) else (s, p)

/-- `elf_zlib_verify_checksum`; `checkbytes` are four bytes. -/
def elfZlibVerifyChecksum (checkbytes uncompressed : List Byte) : CInt :=
  let cksum : BitVec 32 :=
    checkbytes.foldl (fun (cksum : BitVec 32) b => cksum <<< 8 ||| b.setWidth 32) 0
  let blocks := adlerBlocks uncompressed.length (1, 0) uncompressed
  let sixteens := adlerSixteens blocks.2.length blocks.1 blocks.2
  let s := adlerReduce (sixteens.2.foldl adlerByte sixteens.1)
  if (s.2 <<< 16) + s.1 != cksum then 0 else 1

/-! ## The sums -/

/-- One byte more. -/
def sumStep (n : Nat × Nat) (b : Byte) : Nat × Nat := (n.1 + b.toNat, n.2 + (n.1 + b.toNat))

/-- The sum of the bytes and 1, and the sum of these sums. -/
def sums (bs : List Byte) : Nat × Nat := bs.foldl sumStep (1, 0)

/-- Both sums of a state. -/
def sumsOf (s : BitVec 32 × BitVec 32) : Nat × Nat := (s.1.toNat, s.2.toNat)

/-- The sums are the same but for multiples of 65521. -/
def SameSums (n n' : Nat × Nat) : Prop := n.1 ≡ n'.1 [MOD 65521] ∧ n.2 ≡ n'.2 [MOD 65521]

theorem SameSums.foldl {n n' : Nat × Nat} (h : SameSums n n') (bs : List Byte) :
    SameSums (bs.foldl sumStep n) (bs.foldl sumStep n') := by
  induction bs generalizing n n' with
  | nil => exact h
  | cons b bs ih => exact ih ⟨h.1.add_right _, h.2.add (h.1.add_right _)⟩

/-- The state has been reduced. -/
def Reduced (s : BitVec 32 × BitVec 32) : Prop := s.1.toNat < 65521 ∧ s.2.toNat < 65521

theorem reduced_adlerReduce (s : BitVec 32 × BitVec 32) : Reduced (adlerReduce s) ∧
    SameSums (sumsOf (adlerReduce s)) (sumsOf s) := by
  have hmod : ∀ x : BitVec 32, (x % 65521).toNat = x.toNat % 65521 := fun x => BitVec.toNat_umod
  refine ⟨⟨?_, ?_⟩, ?_, ?_⟩
  · exact (hmod s.1).trans_lt (Nat.mod_lt _ (by decide))
  · exact (hmod s.2).trans_lt (Nat.mod_lt _ (by decide))
  · exact (congrArg (· % 65521) (hmod s.1)).trans (Nat.mod_mod _ _)
  · exact (congrArg (· % 65521) (hmod s.2)).trans (Nat.mod_mod _ _)

/-- After `n` more bytes, even of 255, the second sum is below `2^32`: both sides are doubled. -/
def Headroom (s : BitVec 32 × BitVec 32) (n : Nat) : Prop :=
  2 * s.2.toNat + 2 * (n * s.1.toNat) + 255 * (n * (n + 1)) < 2 ^ 33

theorem Reduced.headroom {s : BitVec 32 × BitVec 32} (h : Reduced s) {n : Nat} (hn : n ≤ 5552) :
    Headroom s n := by
  have hsum : n * s.1.toNat ≤ 5552 * 65520 := Nat.mul_le_mul hn (Nat.le_of_lt_succ h.1)
  have hbytes : n * (n + 1) ≤ 5552 * 5553 := Nat.mul_le_mul hn (by omega)
  have := h.2
  unfold Headroom
  omega

/-- **One byte** does not overflow the sums. -/
theorem Headroom.byte {s : BitVec 32 × BitVec 32} {n : Nat} (h : Headroom s (n + 1)) (b : Byte) :
    sumsOf (adlerByte s b) = sumStep (sumsOf s) b ∧ Headroom (adlerByte s b) n := by
  have hb := b.isLt
  have hbyte : (b.setWidth 32).toNat = b.toNat := by
    rw [BitVec.toNat_setWidth, Nat.mod_eq_of_lt (by omega)]
  unfold Headroom at h
  -- of the `n + 1` times that `s1` counts, one goes into `s2`
  have hgrow : (n + 1) * s.1.toNat = n * s.1.toNat + s.1.toNat := Nat.succ_mul _ _
  have hsquare : (n + 1) * (n + 1 + 1) = n * (n + 1) + 2 * (n + 1) := by
    rw [Nat.succ_mul, Nat.mul_succ n (n + 1)]
    omega
  have h1 : (s.1 + b.setWidth 32).toNat = s.1.toNat + b.toNat := by
    rw [BitVec.toNat_add, hbyte, Nat.mod_eq_of_lt (by omega)]
  have h2 : (s.2 + (s.1 + b.setWidth 32)).toNat = s.2.toNat + (s.1.toNat + b.toNat) := by
    rw [BitVec.toNat_add, h1, Nat.mod_eq_of_lt (by omega)]
  refine ⟨Prod.ext h1 h2, ?_⟩
  have hmul : n * (s.1.toNat + b.toNat) ≤ n * s.1.toNat + 255 * n := by
    rw [Nat.mul_add, Nat.mul_comm 255]
    exact Nat.add_le_add_left (Nat.mul_le_mul_left n (by omega)) _
  unfold Headroom adlerByte
  simp only [h1, h2]
  omega

theorem Headroom.foldl {bs : List Byte} : ∀ {s : BitVec 32 × BitVec 32}, Headroom s bs.length →
    sumsOf (bs.foldl adlerByte s) = bs.foldl sumStep (sumsOf s) := by
  induction bs with
  | nil => exact fun _ => rfl
  | cons b bs ih =>
    intro s h
    obtain ⟨hbyte, hroom⟩ := h.byte b
    rw [List.foldl_cons, List.foldl_cons, ← hbyte]
    exact ih hroom

/-! ## The loops -/

theorem adlerRounds_eq (turns : Nat) : ∀ (s : BitVec 32 × BitVec 32) (p : List Byte),
    adlerRounds turns s p = ((p.take (16 * turns)).foldl adlerByte s, p.drop (16 * turns)) := by
  induction turns with
  | zero => exact fun s p => rfl
  | succ turns ih =>
    intro s p
    rw [adlerRounds, ih, List.drop_drop, ← List.foldl_append, ← List.take_add,
      show 16 * (turns + 1) = 16 + 16 * turns by omega]

/-- The first loop leaves less than 5552 bytes, and sums that are reduced. -/
theorem adlerBlocks_spec (fuel : Nat) :
    ∀ {s : BitVec 32 × BitVec 32} {p : List Byte}, p.length ≤ fuel →
    Reduced s → ∃ used, p = used ++ (adlerBlocks fuel s p).2 ∧
      (adlerBlocks fuel s p).2.length < 5552 ∧ Reduced (adlerBlocks fuel s p).1 ∧
      SameSums (sumsOf (adlerBlocks fuel s p).1) (used.foldl sumStep (sumsOf s)) := by
  induction fuel with
  | zero =>
    intro s p hfuel hs
    obtain rfl := List.length_eq_zero_iff.mp (Nat.le_zero.mp hfuel)
    exact ⟨[], rfl, Nat.succ_pos 5551, hs, rfl, rfl⟩
  | succ fuel ih =>
    intro s p hfuel hs
    by_cases hlen : p.length ≥ 5552
    · rw [adlerBlocks, if_pos hlen, adlerRounds_eq]
      have htake : (p.take 5552).length = 5552 := List.length_take_of_le hlen
      obtain ⟨hreduced, hsame⟩ := reduced_adlerReduce ((p.take 5552).foldl adlerByte s)
      obtain ⟨used, hp, hrest, hreduced', hsame'⟩ := @ih _ (p.drop 5552)
        (by rw [List.length_drop]; omega) hreduced
      refine ⟨p.take 5552 ++ used, ?_, hrest, hreduced', ?_⟩
      · rw [List.append_assoc]
        exact (List.take_append_drop 5552 p).symm.trans (congrArg (p.take 5552 ++ ·) hp)
      · rw [List.foldl_append, ← (hs.headroom htake.le).foldl]
        have hmore := hsame.foldl used
        exact ⟨hsame'.1.trans hmore.1, hsame'.2.trans hmore.2⟩
    · rw [adlerBlocks, if_neg hlen]
      exact ⟨[], rfl, Nat.lt_of_not_le hlen, hs, rfl, rfl⟩

theorem adlerSixteens_spec (fuel : Nat) : ∀ (s : BitVec 32 × BitVec 32) (p : List Byte),
    (adlerSixteens fuel s p).2.foldl adlerByte (adlerSixteens fuel s p).1 =
      p.foldl adlerByte s := by
  induction fuel with
  | zero => exact fun s p => rfl
  | succ fuel ih =>
    intro s p
    rw [adlerSixteens]
    split_ifs with hlen
    · rw [ih, ← List.foldl_append, List.take_append_drop]
    · rfl

/-- **The data is accepted** exactly if the four bytes are its Adler-32. -/
theorem zlibVerifyChecksum_iff (checkbytes uncompressed : List Byte) :
    elfZlibVerifyChecksum checkbytes uncompressed = 1 ↔ (joinBytes 32 checkbytes).toNat =
      (sums uncompressed).2 % 65521 * 2 ^ 16 + (sums uncompressed).1 % 65521 := by
  obtain ⟨used, hp, hrest, hreduced, hsame⟩ :=
    @adlerBlocks_spec uncompressed.length (1, 0) uncompressed
    le_rfl ⟨by decide, by decide⟩
  unfold elfZlibVerifyChecksum
  simp only [adlerSixteens_spec]
  have hfold := (hreduced.headroom hrest.le).foldl
  generalize adlerBlocks uncompressed.length (1, 0) uncompressed = blocks at *
  obtain ⟨hreduced', hsame'⟩ := reduced_adlerReduce (blocks.2.foldl adlerByte blocks.1)
  have hall : SameSums (sumsOf (adlerReduce (blocks.2.foldl adlerByte blocks.1)))
      (sums uncompressed) := by
    have hmore := hsame.foldl blocks.2
    rw [← hfold, ← List.foldl_append, ← hp] at hmore
    exact ⟨hsame'.1.trans hmore.1, hsame'.2.trans hmore.2⟩
  generalize adlerReduce (blocks.2.foldl adlerByte blocks.1) = s at *
  have h1 : s.1.toNat = (sums uncompressed).1 % 65521 :=
    (Nat.mod_eq_of_lt hreduced'.1).symm.trans hall.1
  have h2 : s.2.toNat = (sums uncompressed).2 % 65521 :=
    (Nat.mod_eq_of_lt hreduced'.2).symm.trans hall.2
  have hlt1 := hreduced'.1
  have hlt2 := hreduced'.2
  have hshift : (s.2 <<< 16).toNat = s.2.toNat * 2 ^ 16 := by
    rw [BitVec.toNat_shiftLeft, Nat.shiftLeft_eq, Nat.mod_eq_of_lt (by omega)]
  have hsum : ((s.2 <<< 16) + s.1).toNat = s.2.toNat * 2 ^ 16 + s.1.toNat := by
    rw [BitVec.toNat_add, hshift, Nat.mod_eq_of_lt (by omega)]
  rw [← h1, ← h2, ← hsum, BitVec.toNat_inj]
  change (if (s.2 <<< 16) + s.1 != joinBytes 32 checkbytes then (0 : CInt) else 1) = 1 ↔ _
  by_cases heq : joinBytes 32 checkbytes = (s.2 <<< 16) + s.1
  · simp [heq]
  · simp [heq, Ne.symm heq]

end Bktce.Libbacktrace
