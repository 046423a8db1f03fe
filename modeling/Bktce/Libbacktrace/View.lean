import Bktce.Libbacktrace.Allocator

/-!
# Views of a file

Model of `backtrace_get_view` (`mmapio.c:50-82`). A part of a file is read by mapping the pages it
is in.

* `viewOffset`, `viewLength`: what `mmap` is asked for.
* `ShowsFile`: what `mmap` does with the pages of a file.

Results:

* `getView_spec`: `mmap` is asked for whole pages, and the view has the bytes of the file that were
  asked for, all of them inside of the mapping.
-/

namespace Bktce.Libbacktrace

open Bktce.Lib Bktce.Lib.Memory

/-- `struct backtrace_view`. -/
structure BacktraceView where
  data : Nat
  base : Nat
  len : SizeT

/-- `inpage`. -/
def inPage (sys : System) (offset : BitVec 64) : BitVec 32 := (offset % sys.pagesize).setWidth 32

/-- `pageoff`. -/
def viewOffset (sys : System) (offset : BitVec 64) : BitVec 64 :=
  offset - (inPage sys offset).setWidth 64

/-- `size`, as it is after the rounding. -/
def viewLength (sys : System) (offset : BitVec 64) (size : SizeT) : SizeT :=
  (size + (inPage sys offset).setWidth 64 + (sys.pagesize - 1)) &&& ~~~(sys.pagesize - 1)

/-- `backtrace_get_view`: the view, unless `mmap` fails, and the errors reported. -/
def backtraceGetView (sys : System) (mmap : Except CInt Nat) (offset : BitVec 64) (size : SizeT) :
    Option BacktraceView × List (String × CInt) :=
  match mmap with
  | .error errnum => (none, [("mmap", errnum)])
  | .ok map => (some ⟨map + (inPage sys offset).toNat, map, viewLength sys offset size⟩, [])

/-- The bytes of the file from `off` on are at `map`, `len` of them, as far as the file goes. -/
def ShowsFile (mem : Nat → Byte) (file : List Byte) (map : Nat) (len : SizeT)
    (off : BitVec 64) : Prop :=
  ∀ i, i < len.toNat → ∀ b, file[off.toNat + i]? = some b → mem (map + i) = b

section View

variable {sys : System} {offset : BitVec 64} {size : SizeT}

theorem toNat_inPage (hpage : sys.pagesize.toNat ≤ 2 ^ 32) (hpos : 0 < sys.pagesize.toNat) :
    ((inPage sys offset).setWidth 64).toNat = offset.toNat % sys.pagesize.toNat ∧
      (inPage sys offset).toNat = offset.toNat % sys.pagesize.toNat := by
  have hlt := Nat.mod_lt offset.toNat hpos
  have hin : (inPage sys offset).toNat = offset.toNat % sys.pagesize.toNat := by
    rw [inPage, BitVec.toNat_setWidth, BitVec.toNat_umod, Nat.mod_eq_of_lt (by omega)]
  exact ⟨by rw [BitVec.toNat_setWidth, hin, Nat.mod_eq_of_lt (by omega)], hin⟩

theorem toNat_viewOffset (hpage : sys.pagesize.toNat ≤ 2 ^ 32) (hpos : 0 < sys.pagesize.toNat) :
    (viewOffset sys offset).toNat = offset.toNat - offset.toNat % sys.pagesize.toNat := by
  have hin := (@toNat_inPage sys offset hpage hpos).1
  rw [viewOffset, BitVec.toNat_sub_of_le (BitVec.le_def.mpr (hin ▸ Nat.mod_le _ _)), hin]

theorem le_viewLength (hsys : sys.PageSize) (hpage : sys.pagesize.toNat ≤ 2 ^ 32)
    (hfits : size.toNat + 2 * sys.pagesize.toNat ≤ 2 ^ 64) :
    size.toNat + offset.toNat % sys.pagesize.toNat ≤ (viewLength sys offset size).toNat := by
  obtain ⟨k, -, hk, -⟩ := hsys.toNat_roundUpPage
  have hpos : 0 < sys.pagesize.toNat := hk ▸ Nat.two_pow_pos k
  have hin := (@toNat_inPage sys offset hpage hpos).1
  have hlt := Nat.mod_lt offset.toNat hpos
  have hsum : (size + (inPage sys offset).setWidth 64).toNat =
      size.toNat + offset.toNat % sys.pagesize.toNat := by
    rw [BitVec.toNat_add, hin, Nat.mod_eq_of_lt (by omega)]
  have hround : viewLength sys offset size =
      sys.roundUpPage (size + (inPage sys offset).setWidth 64) := by
    rw [viewLength, System.roundUpPage, BitVec.sub_eq_add_neg, ← BitVec.add_assoc,
      ← BitVec.sub_eq_add_neg]
  rw [hround, ← hsum]
  exact BitVec.le_def.mp (hsys.le_roundUpPage (by omega))

/-- **A view** has the bytes of the file that were asked for. -/
theorem getView_spec (hsys : sys.PageSize) (hpage : sys.pagesize.toNat ≤ 2 ^ 32)
    (hfits : size.toNat + 2 * sys.pagesize.toNat ≤ 2 ^ 64) {mem : Nat → Byte} {file : List Byte}
    (hfile : offset.toNat + size.toNat ≤ file.length) {mmap : Except CInt Nat}
    (hmmap : ∀ map, mmap = .ok map →
      ShowsFile mem file map (viewLength sys offset size) (viewOffset sys offset)) :
    sys.pagesize.toNat ∣ (viewOffset sys offset).toNat ∧
      ((∃ errnum, backtraceGetView sys mmap offset size = (none, [("mmap", errnum)])) ∨
        ∃ view, backtraceGetView sys mmap offset size = (some view, []) ∧
          Set.Ico view.data (view.data + size.toNat) ⊆ range view.base view.len ∧
          read mem view.data size.toNat = (file.drop offset.toNat).take size.toNat) := by
  obtain ⟨k, -, hk, -⟩ := hsys.toNat_roundUpPage
  have hpos : 0 < sys.pagesize.toNat := hk ▸ Nat.two_pow_pos k
  have hin := (@toNat_inPage sys offset hpage hpos).2
  have hoff := @toNat_viewOffset sys offset hpage hpos
  have hlen := @le_viewLength sys offset size hsys hpage hfits
  refine ⟨hoff ▸ Nat.dvd_sub_mod _, ?_⟩
  cases mmap with
  | error errnum => exact .inl ⟨errnum, rfl⟩
  | ok map =>
    have hend : map + (inPage sys offset).toNat + size.toNat ≤
        map + (viewLength sys offset size).toNat := by omega
    refine .inr ⟨_, rfl, Set.Ico_subset_Ico (Nat.le_add_right _ _) hend, ?_⟩
    refine List.ext_getElem ?_ fun i h1 h2 => ?_
    · rw [length_read, List.length_take, List.length_drop]
      omega
    · rw [length_read] at h1
      have hmod := Nat.mod_le offset.toNat sys.pagesize.toNat
      rw [List.getElem_take, List.getElem_drop]
      simp only [Memory.read, List.getElem_map, List.getElem_range, Nat.add_assoc]
      refine hmmap map rfl ((inPage sys offset).toNat + i) (by omega) _ ?_
      rw [hoff, hin, show offset.toNat - offset.toNat % sys.pagesize.toNat +
        (offset.toNat % sys.pagesize.toNat + i) = offset.toNat + i by omega]
      exact List.getElem?_eq_getElem _

/-- The second and the third byte of a file. -/
theorem getView_spec_two :
    (⟨4096, false⟩ : System).pagesize.toNat ∣ (viewOffset ⟨4096, false⟩ 1).toNat ∧
      ((∃ errnum, backtraceGetView ⟨4096, false⟩ (.ok 0x1000) 1 2 = (none, [("mmap", errnum)])) ∨
        ∃ view, backtraceGetView ⟨4096, false⟩ (.ok 0x1000) 1 2 = (some view, []) ∧
          Set.Ico view.data (view.data + 2) ⊆ range view.base view.len ∧
          read (fun x => ([5, 6, 7] : List Byte).getD (x - 0x1000) 0) view.data 2 = [6, 7]) := by
  refine @getView_spec ⟨4096, false⟩ 1 2 ⟨12, by decide, by decide, rfl⟩ (by decide) (by decide) _
    [5, 6, 7] (by decide) (.ok 0x1000) fun map hmap i _ b hb => ?_
  obtain rfl : 0x1000 = map := Except.ok.inj hmap
  have hb' : ([5, 6, 7] : List Byte)[i]? = some b := by
    rw [← Nat.zero_add i]
    exact hb
  rw [Nat.add_sub_cancel_left, List.getD_eq_getElem?_getD, hb', Option.getD_some]

end View

end Bktce.Libbacktrace
