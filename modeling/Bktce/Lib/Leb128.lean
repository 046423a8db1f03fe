import Mathlib.Data.Nat.Bitwise
import Mathlib.Tactic.Ring
import Mathlib.Tactic.Linarith

/-!
# LEB128 numbers

A number as bytes of seven bits each, lowest first; every byte but the last has its high bit set
(`Terminated`). A signed number is extended by the highest of its bits. Numbers need not be written
with the fewest bytes.

* `value`, `signedValue`: the number some bytes stand for.
* `encode k`, `encodeSigned k`: the shortest bytes of a number that fits in `k` of them.

Results: `encode_spec` and `encodeSigned_spec` (the bytes of a number are terminated and stand for
it), and `signedValue_eq` (the signed number is the unsigned one, less a power of two if the highest
bit is set).
-/

namespace Bktce.Lib.Leb128

abbrev Byte := BitVec 8

/-! ## Values -/

/-- The last byte, and no other, has a clear high bit. -/
def Terminated : List Byte → Prop
  | [] => False
  | b :: bs => if bs = [] then b.toNat < 128 else 128 ≤ b.toNat ∧ Terminated bs

instance : ∀ bs, Decidable (Terminated bs)
  | [] => inferInstanceAs (Decidable False)
  | b :: bs =>
    have := instDecidableTerminated bs
    inferInstanceAs (Decidable (if bs = [] then b.toNat < 128 else 128 ≤ b.toNat ∧ Terminated bs))

/-- The unsigned number. -/
def value : List Byte → Nat
  | [] => 0
  | b :: bs => b.toNat % 128 + 128 * value bs

/-- The highest of the bits is set. -/
def negative : List Byte → Bool
  | [] => false
  | b :: bs => if bs = [] then decide (64 ≤ b.toNat % 128) else negative bs

/-- The signed number. -/
def signedValue : List Byte → Int
  | [] => 0
  | b :: bs =>
    if bs = [] then
      if 64 ≤ b.toNat % 128 then (b.toNat % 128 : Nat) - 128 else (b.toNat % 128 : Nat)
    else (b.toNat % 128 : Nat) + 128 * signedValue bs

theorem value_lt (bs : List Byte) : value bs < 128 ^ bs.length := by
  induction bs with
  | nil => exact Nat.one_pos
  | cons b bs ih =>
    rw [value, List.length_cons, Nat.pow_succ]
    omega

/-- **The signed number** is the unsigned one, less a power of two if the highest bit is set. -/
theorem signedValue_eq (bs : List Byte) :
    signedValue bs = value bs - if negative bs then (128 : Int) ^ bs.length else 0 := by
  induction bs with
  | nil => rfl
  | cons b bs ih =>
    by_cases hbs : bs = []
    · subst hbs
      simp only [signedValue, value, negative, if_true, List.length_singleton, pow_one]
      by_cases hb : 64 ≤ b.toNat % 128
      · simp [hb]
      · simp [hb]
    · simp only [signedValue, value, negative, if_neg hbs, ih, List.length_cons]
      by_cases hn : negative bs = true
      · simp only [hn, if_true]
        push_cast
        ring
      · simp only [hn, if_false, Bool.false_eq_true]
        push_cast
        ring

/-! ## Encodings -/

/-- The bytes of `n`, which fits in `k` of them. -/
def encode : Nat → Nat → List Byte
  | 0, _ => []
  | k + 1, n =>
    if n < 128 then [BitVec.ofNat 8 n] else BitVec.ofNat 8 (n % 128 + 128) :: encode k (n / 128)

/-- The bytes of `i`, which fits in `k` of them. -/
def encodeSigned : Nat → Int → List Byte
  | 0, _ => []
  | k + 1, i =>
    if -64 ≤ i ∧ i < 64 then [BitVec.ofNat 8 (i % 128).toNat]
    else BitVec.ofNat 8 ((i % 128).toNat + 128) :: encodeSigned k (i / 128)

/-- What an encoding is: at most `k` bytes, terminated, of a given value. -/
structure Encodes {ν : Type} (val : List Byte → ν) (k : Nat) (n : ν) (bs : List Byte) : Prop where
  terminated : Terminated bs
  length_le : bs.length ≤ k
  value_eq : val bs = n

theorem Encodes.ne_nil {ν : Type} {val : List Byte → ν} {k : Nat} {n : ν} {bs : List Byte}
    (h : Encodes val k n bs) : bs ≠ [] := fun hbs => by
  have := h.terminated
  rw [hbs] at this
  exact this

/-- **The bytes of a number stand for it.** -/
theorem encode_spec (k : Nat) : ∀ {n : Nat}, n < 128 ^ (k + 1) →
    Encodes value (k + 1) n (encode (k + 1) n) := by
  induction k with
  | zero =>
    intro n hn
    rw [Nat.zero_add, Nat.pow_one] at hn
    rw [encode, if_pos hn]
    exact ⟨by simp [Terminated]; omega, by simp, by simp [value]; omega⟩
  | succ k ih =>
    intro n hn
    rw [encode]
    by_cases hn' : n < 128
    · rw [if_pos hn']
      exact ⟨by simp [Terminated]; omega, by simp, by simp [value]; omega⟩
    · rw [if_neg hn']
      have h := ih (n := n / 128) (by rw [Nat.pow_succ] at hn; omega)
      refine ⟨?_, by simpa using h.length_le, ?_⟩
      · rw [Terminated, if_neg h.ne_nil]
        exact ⟨by simp; omega, h.terminated⟩
      · rw [value, h.value_eq]
        simp
        omega

/-- **The bytes of a signed number stand for it.** -/
theorem encodeSigned_spec (k : Nat) : ∀ {i : Int}, -(64 * 128 ^ k) ≤ i → i < 64 * 128 ^ k →
    Encodes signedValue (k + 1) i (encodeSigned (k + 1) i) := by
  have short : ∀ (k : Nat) (i : Int), -64 ≤ i → i < 64 →
      Encodes signedValue (k + 1) i [BitVec.ofNat 8 (i % 128).toNat] := fun k i hlo hhi => by
    have hmod : (BitVec.ofNat 8 (i % 128).toNat).toNat = (i % 128).toNat := by
      rw [BitVec.toNat_ofNat]
      omega
    refine ⟨by simp only [Terminated, if_true, hmod]; omega, by simp, ?_⟩
    simp only [signedValue, if_true, hmod]
    split <;> omega
  induction k with
  | zero =>
    intro i hlo hhi
    rw [encodeSigned, if_pos ⟨by omega, by omega⟩]
    exact short 0 i (by omega) (by omega)
  | succ k ih =>
    intro i hlo hhi
    rw [encodeSigned]
    by_cases hi : -64 ≤ i ∧ i < 64
    · rw [if_pos hi]
      exact short (k + 1) i hi.1 hi.2
    · rw [if_neg hi]
      have h := ih (i := i / 128) (by rw [pow_succ] at hlo; omega) (by rw [pow_succ] at hhi; omega)
      have hmod : (BitVec.ofNat 8 ((i % 128).toNat + 128)).toNat = (i % 128).toNat + 128 := by
        rw [BitVec.toNat_ofNat]
        omega
      refine ⟨?_, by simpa using h.length_le, ?_⟩
      · rw [Terminated, if_neg h.ne_nil, hmod]
        exact ⟨by omega, h.terminated⟩
      · rw [signedValue, if_neg h.ne_nil, h.value_eq, hmod]
        omega

end Bktce.Lib.Leb128
