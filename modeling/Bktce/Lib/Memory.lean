import Mathlib.Order.CompletePartialOrder
import Mathlib.Order.Interval.Set.Disjoint

/-!
# Byte memory

A memory gives a byte for every address. `read` and `write` are what `memcpy` does: they look at and
change the bytes of one range, `Set.Ico a (a + n)`. A `Codec` says how a value lies in memory.

Results:

* `read_write`: what was written is read back.
* `read_congr`, `write_of_notMem`: a range is read without looking at others, and written without
  changing them.
* `Codec.load_store`, `Codec.load_congr`: the same of values.
-/

namespace Bktce.Lib.Memory

variable {β : Type}

/-- The `n` bytes from `a` on. -/
def read (m : Nat → β) (a n : Nat) : List β := (List.range n).map fun i => m (a + i)

/-- Store the bytes `bs` from `a` on. -/
def write (m : Nat → β) (a : Nat) (bs : List β) : Nat → β := fun x =>
  if a ≤ x then (bs[x - a]?).getD (m x) else m x

@[simp] theorem length_read (m : Nat → β) (a n : Nat) : (read m a n).length = n := by simp [read]

theorem read_congr {m m' : Nat → β} {a n : Nat} (h : ∀ x ∈ Set.Ico a (a + n), m' x = m x) :
    read m' a n = read m a n :=
  List.map_congr_left fun i hi => h (a + i) ⟨Nat.le_add_right a i, by
    have := List.mem_range.mp hi
    omega⟩

theorem read_add (m : Nat → β) (a n k : Nat) :
    read m a (n + k) = read m a n ++ read m (a + n) k := by
  simp [read, List.range_add, Nat.add_assoc, Function.comp_def]

theorem write_of_notMem {m : Nat → β} {a : Nat} {bs : List β} {x : Nat}
    (h : x ∉ Set.Ico a (a + bs.length)) : write m a bs x = m x := by
  unfold write
  split_ifs with hle
  · have hlen : bs.length ≤ x - a := by
      rw [Set.mem_Ico] at h
      omega
    rw [List.getElem?_eq_none hlen, Option.getD_none]
  · rfl

/-- **What was written is read back.** -/
theorem read_write (m : Nat → β) (a : Nat) (bs : List β) :
    read (write m a bs) a bs.length = bs := by
  refine List.ext_getElem (by simp) fun i h1 h2 => ?_
  simp [read, write, h2]

/-- A range that is not written is read as before. -/
theorem read_write_of_disjoint (m : Nat → β) {a b n : Nat} {bs : List β}
    (h : Disjoint (Set.Ico b (b + n)) (Set.Ico a (a + bs.length))) :
    read (write m a bs) b n = read m b n :=
  read_congr fun _ hx => write_of_notMem (Set.disjoint_left.mp h hx)

/-! ## Values -/

/-- How a value lies in memory: as so many bytes, from which it can be read back. -/
structure Codec (β ω : Type) where
  size : Nat
  encode : ω → List β
  decode : List β → ω
  length_encode : ∀ v, (encode v).length = size
  decode_encode : ∀ v, decode (encode v) = v

namespace Codec

variable {ω : Type} (c : Codec β ω)

/-- The value at `a`. -/
def load (m : Nat → β) (a : Nat) : ω := c.decode (read m a c.size)

/-- Store a value at `a`. -/
def store (m : Nat → β) (a : Nat) (v : ω) : Nat → β := write m a (c.encode v)

theorem load_congr {m m' : Nat → β} {a : Nat} (h : ∀ x ∈ Set.Ico a (a + c.size), m' x = m x) :
    c.load m' a = c.load m a := congrArg c.decode (read_congr h)

@[simp] theorem load_store (m : Nat → β) (a : Nat) (v : ω) : c.load (c.store m a v) a = v := by
  have h := read_write m a (c.encode v)
  rw [c.length_encode] at h
  rw [load, store, h, c.decode_encode]

theorem store_of_notMem {m : Nat → β} {a : Nat} {v : ω} {x : Nat}
    (h : x ∉ Set.Ico a (a + c.size)) : c.store m a v x = m x :=
  write_of_notMem (by rwa [c.length_encode])

theorem load_store_of_disjoint (m : Nat → β) {a b : Nat} (v : ω)
    (h : Disjoint (Set.Ico b (b + c.size)) (Set.Ico a (a + c.size))) :
    c.load (c.store m a v) b = c.load m b :=
  c.load_congr fun _ hx => c.store_of_notMem (Set.disjoint_left.mp h hx)

end Codec

end Bktce.Lib.Memory
