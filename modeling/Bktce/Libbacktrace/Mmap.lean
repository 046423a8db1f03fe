import Bktce.Libbacktrace.Buf
import Bktce.Lib.Memory
import Bktce.Lib.Linked
import Mathlib.Data.List.Pairwise

/-!
# The allocator

Model of `backtrace_free_locked`, `backtrace_alloc` and `backtrace_free` (`mmap.c:69-234`). Free
memory is kept in a list of blocks, each of which begins with a `backtrace_freelist_struct`: the
address of the next block and the size of this one.

* A `Heap` is the memory of the process and `state->freelist`. A pointer is an address, and `NULL`
  is 0; a pointer to a pointer (`pp`, `ppsmall`) is a link of the list (`Lib/Linked.lean`).
* A loop over the list takes at most `maxTurns` turns; one that would take more counts as one that
  does not end.
* What the system answers is given: the page size, whether the lock was free, and what `mmap` and
  `munmap` do. The lock is taken without waiting, so a call never blocks.

Results, for a heap whose list is `Lists h l` of some blocks `l`:

* `freeLocked_spec`: `backtrace_free_locked` adds the block, unless there is no room for it
  (`Keeps`), and writes only into free blocks.
* `allocLocked_spec`: the part of `backtrace_alloc` under the lock takes the first block that is
  large enough, and adds what is left of it.
-/

namespace Bktce.Libbacktrace

open Bktce.Lib Bktce.Lib.Memory

/-! ## Memory -/

/-- A word in memory, the lowest byte first. -/
def word : Codec Byte (BitVec 64) where
  size := 8
  encode v := (splitBytes 8 v).reverse
  decode bs := joinBytes 64 bs.reverse
  length_encode v := by rw [List.length_reverse, length_splitBytes]
  decode_encode v := by rw [List.reverse_reverse, joinBytes_splitBytes 8 v v.isLt]

/-- The memory, and the first block of the free list. -/
structure Heap where
  mem : Nat → Byte
  freelist : Nat

namespace Heap

/-- `p->next`. -/
def next (h : Heap) (p : Nat) : Nat := (word.load h.mem p).toNat

/-- `p->size`. -/
def size (h : Heap) (p : Nat) : SizeT := word.load h.mem (p + 8)

/-- `*pp`. -/
def deref (h : Heap) : Option Nat → Nat
  | none => h.freelist
  | some p => h.next p

/-- `*pp = p`. -/
def assign (h : Heap) : Option Nat → Nat → Heap
  | none, p => { h with freelist := p }
  | some q, p => { h with mem := word.store h.mem q (BitVec.ofNat 64 p) }

/-- `p->size = size`. -/
def setSize (h : Heap) (p : Nat) (size : SizeT) : Heap :=
  { h with mem := word.store h.mem (p + 8) size }

/-- A block is put in front of the list. -/
def push (h : Heap) (p : Nat) (size : SizeT) : Heap :=
  ((h.assign (some p) h.freelist).setSize p size).assign none p

end Heap

/-! ## The free list -/

/-- `sizeof (struct backtrace_freelist_struct)`. -/
def headerSize : SizeT := 16

/-- The turns of a loop over the free list: one for each block, of which there are at most 16, and
one for the end. -/
def maxTurns : Nat := 17

/-- `ppsmall` after the link `pp`. -/
def Heap.smaller (h : Heap) (pp : Option Nat) : Option (Option Nat) → Option (Option Nat)
  | none => some pp
  | some ppsmall =>
    if h.size (h.deref pp) < h.size (h.deref ppsmall) then some pp else some ppsmall

/-- The loop of `backtrace_free_locked`: `ppsmall` and `c`. -/
def scanBlocks (h : Heap) : Option (Option (Option Nat) × Nat) :=
  forLinks 0 h.deref (fun s pp => (h.smaller pp s.1, s.2 + 1)) maxTurns none (none, 0)

/-- `backtrace_free_locked`. -/
def backtraceFreeLocked (addr : Nat) (size : SizeT) (h : Heap) : Option Heap :=
  if size < headerSize then some h
  else
    match scanBlocks h with
    | none => none
    | some (ppsmall, c) =>
      if c ≥ 16 then
        match ppsmall with
        | none => none
        | some pp =>
          if size ≤ h.size (h.deref pp) then some h
          else some ((h.assign pp (h.next (h.deref pp))).push addr size)
      else some (h.push addr size)

/-- `(size + 7) & ~ (size_t) 7`. -/
def roundUp8 (size : SizeT) : SizeT := (size + 7) &&& ~~~7

/-- The part of `backtrace_alloc` under the lock: the block that is found, if there is one. -/
def allocLocked (size : SizeT) (h : Heap) : Option (Option Nat × Heap) :=
  match findLink 0 h.deref (fun pp => decide (h.size (h.deref pp) ≥ size)) maxTurns none with
  | none => none
  | some none => some (none, h)
  | some (some pp) =>
    let p := h.deref pp
    let h := h.assign pp (h.next p)
    if roundUp8 size < h.size p then
      (backtraceFreeLocked (p + (roundUp8 size).toNat) (h.size p - roundUp8 size) h).map (some p, ·)
    else some (some p, h)

/-! ## `backtrace_alloc` and `backtrace_free` -/

/-- What does not change: the page size, and `state->threaded`. -/
structure System where
  pagesize : SizeT
  threaded : Bool

/-- What the system answers `backtrace_free`: whether `munmap` succeeds, and whether the lock is
free. -/
structure FreeAnswers where
  munmap : Bool
  lock : Bool

/-- What the system answers `backtrace_alloc`: whether the lock is free, the pages that are mapped
or `errno`, and the answers for the rest of the pages. -/
structure AllocAnswers where
  lock : Bool
  mmap : Except CInt Nat
  free : FreeAnswers

/-- `locked`. -/
def System.locked (sys : System) (lock : Bool) : Bool := !sys.threaded || lock

/-- `(size + pagesize - 1) & ~ (pagesize - 1)`. -/
def System.roundUpPage (sys : System) (size : SizeT) : SizeT :=
  (size + sys.pagesize - 1) &&& ~~~(sys.pagesize - 1)

/-- The block is given back by `munmap`. -/
def System.unmaps (sys : System) (ans : FreeAnswers) (addr : Nat) (size : SizeT) : Bool :=
  decide (size ≥ 16 * 4096) && decide (BitVec.ofNat 64 addr &&& (sys.pagesize - 1) = 0) &&
    decide (size &&& (sys.pagesize - 1) = 0) && ans.munmap

/-- `backtrace_free`. -/
def backtraceFree (sys : System) (ans : FreeAnswers) (addr : Nat) (size : SizeT) (h : Heap) :
    Option Heap :=
  if sys.unmaps ans addr size then some h
  else if sys.locked ans.lock then backtraceFreeLocked addr size h
  else some h

/-- Anonymous pages: their bytes are zero. -/
def Heap.mapPages (h : Heap) (page : Nat) (size : SizeT) : Heap :=
  { h with mem := fun x => if page ≤ x ∧ x < page + size.toNat then 0 else h.mem x }

/-- The search of `backtrace_alloc`, if the lock is free. -/
def searchFreelist (sys : System) (lock : Bool) (size : SizeT) (h : Heap) :
    Option (Option Nat × Heap) :=
  if sys.locked lock then allocLocked size h else some (none, h)

/-- `error_callback (data, msg, errnum)`, unless `error_callback` is `NULL`. -/
def report (callback : Bool) (msg : String) (errnum : CInt) : List (String × CInt) :=
  if callback then [(msg, errnum)] else []

/-- `backtrace_alloc`, with an `error_callback` or without: the block, or 0; the errors reported;
and the heap. -/
def backtraceAlloc (sys : System) (callback : Bool) (ans : AllocAnswers) (size : SizeT) (h : Heap) :
    Option (Nat × List (String × CInt) × Heap) :=
  match searchFreelist sys ans.lock size h with
  | none => none
  | some (some p, h) => some (p, [], h)
  | some (none, h) =>
    let asksize := sys.roundUpPage size
    match ans.mmap with
    | .error errnum => some (0, report callback "mmap" errnum, h)
    | .ok page =>
      let h := h.mapPages page asksize
      if roundUp8 size < asksize then
        (backtraceFree sys ans.free (page + (roundUp8 size).toNat) (asksize - roundUp8 size) h).map
          (page, [], ·)
      else some (page, [], h)

/-! ## Blocks -/

/-- A free block: it begins at an address that any type may have, and holds its header. -/
structure Block where
  addr : Nat
  size : SizeT
  ne_null : addr ≠ 0
  aligned : 8 ∣ addr
  header : headerSize ≤ size
  fits : addr + size.toNat ≤ 2 ^ 64

namespace Block

/-- The bytes of a block. -/
def bytes (b : Block) : Set Nat := Set.Ico b.addr (b.addr + b.size.toNat)

theorem header_le (b : Block) : 16 ≤ b.size.toNat := BitVec.le_def.mp b.header

theorem addr_mem (b : Block) : b.addr ∈ b.bytes :=
  ⟨le_refl _, Nat.lt_add_of_pos_right (by have := b.header_le; omega)⟩

/-- The word `next` is in the block. -/
theorem next_subset (b : Block) : Set.Ico b.addr (b.addr + word.size) ⊆ b.bytes :=
  Set.Ico_subset_Ico_right
    (Nat.add_le_add_left ((show word.size ≤ 16 by decide).trans b.header_le) _)

/-- The word `size` is in the block. -/
theorem size_subset (b : Block) : Set.Ico (b.addr + 8) (b.addr + 8 + word.size) ⊆ b.bytes := by
  have := b.header_le
  exact Set.Ico_subset_Ico (Nat.le_add_right _ 8) (show b.addr + 8 + 8 ≤ _ by omega)

theorem toNat_addr (b : Block) : (BitVec.ofNat 64 b.addr).toNat = b.addr := by
  have := b.header_le
  have := b.fits
  rw [BitVec.toNat_ofNat, Nat.mod_eq_of_lt (by omega)]

/-- No byte is in both. -/
def Apart (a b : Block) : Prop := Disjoint a.bytes b.bytes

instance symmApart : Std.Symm Apart := ⟨fun _ _ h => Disjoint.symm h⟩

theorem Apart.addr_ne {a b : Block} (h : Apart a b) : a.addr ≠ b.addr := fun heq =>
  Set.disjoint_left.mp h a.addr_mem (heq ▸ b.addr_mem)

end Block

/-- The link to the block behind the blocks `front`. -/
def linkBehind (front : List Block) : Option Nat := endLink none (front.map Block.addr)

/-- The bytes of some blocks. -/
def freeBytes (l : List Block) : Set Nat := {x | ∃ b ∈ l, x ∈ b.bytes}

theorem subset_freeBytes {b : Block} {l : List Block} (hb : b ∈ l) : b.bytes ⊆ freeBytes l :=
  fun _ hx => ⟨b, hb, hx⟩

theorem mem_around {front back : List Block} {b c : Block} (hc : c ∈ front ++ back) :
    c ∈ front ++ b :: back :=
  List.mem_append.mpr ((List.mem_append.mp hc).imp_right (List.mem_cons_of_mem b))

theorem freeBytes_around {front back : List Block} {b : Block} :
    freeBytes (front ++ back) ⊆ freeBytes (front ++ b :: back) :=
  fun _ ⟨c, hc, hx⟩ => ⟨c, mem_around hc, hx⟩

/-- The free list of the heap is made of the blocks `l`, no two of which overlap. -/
structure Lists (h : Heap) (l : List Block) : Prop where
  linked : Linked 0 h.deref none (l.map Block.addr)
  sizes : ∀ b ∈ l, h.size b.addr = b.size
  apart : l.Pairwise Block.Apart

/-- The memory of `h'` differs from that of `h` only inside `A`. -/
def Within (A : Set Nat) (h h' : Heap) : Prop := ∀ x ∉ A, h'.mem x = h.mem x

theorem Within.refl (A : Set Nat) (h : Heap) : Within A h h := fun _ _ => rfl

theorem Within.trans {A B : Set Nat} {h h' h'' : Heap} (h₁ : Within A h h') (h₂ : Within B h' h'') :
    Within (A ∪ B) h h'' := fun x hx =>
  (h₂ x fun hB => hx (.inr hB)).trans (h₁ x fun hA => hx (.inl hA))

theorem Within.mono {A B : Set Nat} {h h' : Heap} (hw : Within A h h') (hAB : A ⊆ B) :
    Within B h h' := fun x hx => hw x fun hA => hx (hAB hA)

section Header

variable {A : Set Nat} {h h' : Heap} {b : Block}

/-- A block outside of what is written keeps its header. -/
theorem Within.next_eq (hw : Within A h h') (hb : Disjoint b.bytes A) :
    h'.next b.addr = h.next b.addr := by
  rw [Heap.next, Heap.next,
    word.load_congr fun x hx => hw x (Set.disjoint_left.mp hb (b.next_subset hx))]

theorem Within.size_eq (hw : Within A h h') (hb : Disjoint b.bytes A) :
    h'.size b.addr = h.size b.addr :=
  word.load_congr fun x hx => hw x (Set.disjoint_left.mp hb (b.size_subset hx))

end Header

namespace Lists

variable {h : Heap} {l front back : List Block} {b : Block}

theorem congr (hl : Lists h l) {A : Set Nat} {h' : Heap} (hw : Within A h h')
    (hfree : h'.freelist = h.freelist) (hA : ∀ b ∈ l, Disjoint b.bytes A) : Lists h' l where
  linked := by
    refine hl.linked.congr hfree fun p hp => ?_
    obtain ⟨b, hb, rfl⟩ := List.mem_map.mp hp
    exact hw.next_eq (hA b hb)
  sizes b hb := (hw.size_eq (hA b hb)).trans (hl.sizes b hb)
  apart := hl.apart

theorem nodup (hl : Lists h l) : (l.map Block.addr).Nodup :=
  List.pairwise_map.mpr (hl.apart.imp Block.Apart.addr_ne)

theorem deref_behind (hl : Lists h (front ++ b :: back)) : h.deref (linkBehind front) = b.addr := by
  have hlinked := hl.linked
  rw [List.map_append] at hlinked
  exact hlinked.behind.1

end Lists

section Push

variable (h : Heap) (b : Block)

/-- `push` writes only into the block. -/
theorem within_push : Within b.bytes h (h.push b.addr b.size) := fun x hx => by
  change word.store (word.store h.mem b.addr (BitVec.ofNat 64 h.freelist)) (b.addr + 8) b.size x = _
  rw [word.store_of_notMem fun hmem => hx (b.size_subset hmem),
    word.store_of_notMem fun hmem => hx (b.next_subset hmem)]

theorem next_push : (h.push b.addr b.size).next b.addr = (BitVec.ofNat 64 h.freelist).toNat := by
  change (word.load (word.store (word.store h.mem b.addr _) (b.addr + 8) b.size) b.addr).toNat = _
  rw [word.load_store_of_disjoint, word.load_store]
  exact Set.Ico_disjoint_Ico_same

theorem size_push : (h.push b.addr b.size).size b.addr = b.size :=
  word.load_store _ (b.addr + 8) b.size

end Push

namespace Lists

variable {h : Heap} {l front back : List Block} {b : Block}

theorem toNat_freelist (hl : Lists h l) : (BitVec.ofNat 64 h.freelist).toNat = h.freelist := by
  have hlinked := hl.linked
  cases l with
  | nil =>
    have hnull : h.freelist = 0 := hlinked
    rw [hnull]
    rfl
  | cons c l =>
    have hhead : h.freelist = c.addr := hlinked.1
    rw [hhead, c.toNat_addr]

/-- **A block is put in front of the list.** -/
theorem push (hl : Lists h l) (hb : ∀ c ∈ l, b.Apart c) :
    Lists (h.push b.addr b.size) (b :: l) where
  linked := by
    refine hl.linked.push b.ne_null rfl ((next_push h b).trans hl.toNat_freelist) fun p hp => ?_
    obtain ⟨c, hc, rfl⟩ := List.mem_map.mp hp
    exact (within_push h b).next_eq (hb c hc).symm
  sizes := List.forall_mem_cons.mpr ⟨size_push h b, fun c hc =>
    ((within_push h b).size_eq (hb c hc).symm).trans (hl.sizes c hc)⟩
  apart := List.pairwise_cons.mpr ⟨hb, hl.apart⟩

theorem link_cases (front : List Block) : front = [] ∧ linkBehind front = none ∨
    ∃ q ∈ front, linkBehind front = some q.addr := by
  rcases List.eq_nil_or_concat front with rfl | ⟨init, q, rfl⟩
  · exact .inl ⟨rfl, rfl⟩
  · refine .inr ⟨q, by simp, ?_⟩
    rw [linkBehind, List.concat_eq_append, List.map_append]
    exact endLink_concat _ _ _

/-- No block overlaps the others. -/
theorem apart_around (hl : Lists h (front ++ b :: back)) {c : Block} (hc : c ∈ front ++ back) :
    b.Apart c := by
  have hmiddle := (List.pairwise_middle fun hab => Disjoint.symm hab).mp hl.apart
  exact (List.pairwise_cons.mp hmiddle).1 c hc

/-- Storing in a link writes only into the blocks before it. -/
theorem within_assign (h : Heap) (front : List Block) (p : Nat) :
    Within (freeBytes front) h (h.assign (linkBehind front) p) := by
  rcases link_cases front with ⟨-, hlink⟩ | ⟨q, hq, hlink⟩ <;> rw [hlink]
  · exact Within.refl _ h
  · exact fun x hx => word.store_of_notMem fun hmem => hx (subset_freeBytes hq (q.next_subset hmem))

theorem within_unlink (h : Heap) (front back : List Block) (b : Block) (p : Nat) :
    Within (freeBytes (front ++ b :: back)) h (h.assign (linkBehind front) p) :=
  (within_assign h front p).mono fun _ ⟨c, hc, hx⟩ => ⟨c, List.mem_append_left _ hc, hx⟩

theorem apart_of_ne (hl : Lists h l) {c : Block} (hb : b ∈ l) (hc : c ∈ l) (hne : b ≠ c) :
    b.Apart c :=
  hl.apart.forall hb hc hne

/-- Storing in a link changes no size. -/
theorem size_assign (hl : Lists h l) (hfront : ∀ q ∈ front, q ∈ l) (p : Nat) {c : Block}
    (hc : c ∈ l) :
    (h.assign (linkBehind front) p).size c.addr = h.size c.addr := by
  rcases link_cases front with ⟨-, hlink⟩ | ⟨q, hq, hlink⟩ <;> rw [hlink]
  · rfl
  · have hdisjoint : Disjoint (Set.Ico (c.addr + 8) (c.addr + 8 + word.size))
        (Set.Ico q.addr (q.addr + word.size)) := by
      by_cases hcq : c = q
      · rw [hcq]
        exact Set.Ico_disjoint_Ico_same.symm
      · exact (hl.apart_of_ne hc (hfront q hq) hcq).mono c.size_subset q.next_subset
    exact word.load_store_of_disjoint _ _ hdisjoint

/-- Storing in a link changes that link and no other. -/
theorem deref_assign (hl : Lists h l) (hfront : ∀ q ∈ front, q ∈ l) {p : Nat} (hp : p < 2 ^ 64) :
    (h.assign (linkBehind front) p).deref (linkBehind front) = p ∧
      ∀ l' ∈ none :: (l.map Block.addr).map some, l' ≠ linkBehind front →
        (h.assign (linkBehind front) p).deref l' = h.deref l' := by
  rcases link_cases front with ⟨-, hlink⟩ | ⟨q, hq, hlink⟩ <;> rw [hlink]
  · refine ⟨rfl, fun l' _ hne => ?_⟩
    cases l' with
    | none => exact absurd rfl hne
    | some _ => rfl
  · constructor
    · change (word.load (word.store h.mem q.addr _) q.addr).toNat = p
      rw [word.load_store, BitVec.toNat_ofNat, Nat.mod_eq_of_lt hp]
    · intro l' hl' hne
      rcases List.mem_cons.mp hl' with rfl | hmem
      · rfl
      · obtain ⟨a, ha, rfl⟩ := List.mem_map.mp hmem
        obtain ⟨c, hc, rfl⟩ := List.mem_map.mp ha
        have hcq : c ≠ q := fun heq => hne (heq ▸ rfl)
        have hdisjoint := (hl.apart_of_ne hc (hfront q hq) hcq).mono c.next_subset q.next_subset
        exact congrArg BitVec.toNat (word.load_store_of_disjoint _ _ hdisjoint)

/-- **A block is taken out.** -/
theorem unlink (hl : Lists h (front ++ b :: back)) :
    Lists (h.assign (linkBehind front) (h.next b.addr)) (front ++ back) := by
  have hsub : (front ++ back).Sublist (front ++ b :: back) :=
    (List.sublist_cons_self b back).append_left front
  have hfront : ∀ q ∈ front, q ∈ front ++ b :: back := fun q hq => List.mem_append_left _ hq
  obtain ⟨hedit, hother⟩ := hl.deref_assign hfront (BitVec.isLt (word.load h.mem b.addr))
  refine ⟨?_, fun c hc => ?_, hl.apart.sublist hsub⟩
  · have hlinked := hl.linked
    rw [List.map_append, List.map_cons] at hlinked
    rw [List.map_append]
    refine hlinked.unlink ?_ hedit fun l' hl' => hother l' ?_
    · rw [← List.map_append]
      refine List.nodup_cons.mpr ⟨by simp, List.Nodup.map (Option.some_injective _) ?_⟩
      exact (hl.nodup.sublist (hsub.map Block.addr))
    · rw [← List.map_append] at hl'
      exact (List.mem_cons.mp hl').elim (fun heq => heq ▸ List.mem_cons_self) fun hmem =>
        List.mem_cons_of_mem _ (((hsub.map Block.addr).map some).subset hmem)
  · rw [hl.size_assign hfront _ (hsub.subset hc)]
    exact hl.sizes c (hsub.subset hc)

end Lists

/-! ## Freeing -/

/-- What becomes of the list when a block is freed: there is room for it, or the block is leaked as
no block of the list is smaller, or the smallest block of the list is. -/
inductive Keeps (b : Block) : List Block → List Block → Prop
  | room {l : List Block} (hlen : l.length < 16) : Keeps b l (b :: l)
  | leak {l : List Block} (hlen : 16 ≤ l.length) (hle : ∀ c ∈ l, b.size ≤ c.size) : Keeps b l l
  | evict {front back : List Block} {s : Block} (hlen : 16 ≤ (front ++ s :: back).length)
      (hle : ∀ c ∈ front ++ s :: back, s.size ≤ c.size) (hlt : s.size < b.size) :
      Keeps b (front ++ s :: back) (b :: (front ++ back))

section Free

variable {h : Heap} {l : List Block}

/-- After some blocks, `c` is their number and `ppsmall` leads to a smallest of them. -/
theorem scan_front (hl : Lists h l) (front : List Block) :
    ∀ {back : List Block}, l = front ++ back →
    ∃ ppsmall, (links none (front.map Block.addr)).foldl
        (fun s pp => (h.smaller pp s.1, s.2 + 1)) (none, 0) = (ppsmall, front.length) ∧
      (front ≠ [] → ∃ l₁ s l₂, front = l₁ ++ s :: l₂ ∧ ppsmall = some (linkBehind l₁) ∧
        ∀ c ∈ front, s.size ≤ c.size) := by
  induction front using List.reverseRecOn with
  | nil => exact fun _ => ⟨none, rfl, fun hne => absurd rfl hne⟩
  | append_singleton front b ih =>
    intro back heq
    rw [List.append_assoc, List.singleton_append] at heq
    obtain ⟨ppsmall, hfold, hsmall⟩ := ih heq
    subst heq
    have hb : h.size (h.deref (linkBehind front)) = b.size := by
      rw [hl.deref_behind]
      exact hl.sizes b (by simp)
    rw [List.map_append, List.map_singleton, links_concat, List.foldl_append, hfold]
    refine ⟨h.smaller (linkBehind front) ppsmall, by rw [List.length_append]; rfl, fun _ => ?_⟩
    by_cases hnil : front = []
    · subst hnil
      obtain rfl : ppsmall = none := congrArg Prod.fst hfold.symm
      exact ⟨[], b, [], rfl, rfl, by simp⟩
    · obtain ⟨l₁, s, l₂, rfl, rfl, hmin⟩ := hsmall hnil
      have hs : h.size (h.deref (linkBehind l₁)) = s.size := by
        rw [List.append_assoc, List.cons_append] at hl
        rw [hl.deref_behind]
        exact hl.sizes s (by simp)
      rw [Heap.smaller, hb, hs]
      by_cases hlt : b.size < s.size
      · rw [if_pos hlt]
        refine ⟨l₁ ++ s :: l₂, b, [], rfl, rfl, fun c hc => ?_⟩
        rcases List.mem_append.mp hc with hc | hc
        · exact BitVec.le_trans (BitVec.le_of_lt hlt) (hmin c hc)
        · exact List.mem_singleton.mp hc ▸ BitVec.le_refl _
      · rw [if_neg hlt]
        refine ⟨l₁, s, l₂ ++ [b], by simp, rfl, fun c hc => ?_⟩
        rcases List.mem_append.mp hc with hc | hc
        · exact hmin c hc
        · exact List.mem_singleton.mp hc ▸ BitVec.not_lt.mp hlt

theorem scanBlocks_eq (hl : Lists h l) (hlen : l.length < maxTurns) :
    ∃ ppsmall, scanBlocks h = some (ppsmall, l.length) ∧
      (l ≠ [] → ∃ front s back, l = front ++ s :: back ∧ ppsmall = some (linkBehind front) ∧
        ∀ c ∈ l, s.size ≤ c.size) := by
  obtain ⟨ppsmall, hfold, hsmall⟩ := scan_front hl l (List.append_nil l).symm
  refine ⟨ppsmall, ?_, hsmall⟩
  rw [scanBlocks, forLinks_eq hl.linked (by rwa [List.length_map]), hfold]

/-- **`backtrace_free_locked`** ends, makes the list of `Keeps`, and writes only into the block and
into free blocks. -/
theorem freeLocked_spec {b : Block} (hl : Lists h l) (hlen : l.length < maxTurns)
    (hb : ∀ c ∈ l, b.Apart c) :
    ∃ h' l', backtraceFreeLocked b.addr b.size h = some h' ∧ Keeps b l l' ∧ Lists h' l' ∧
      Within (b.bytes ∪ freeBytes l) h h' := by
  obtain ⟨ppsmall, hscan, hsmall⟩ := scanBlocks_eq hl hlen
  rw [backtraceFreeLocked, if_neg (BitVec.not_lt.mpr b.header), hscan]
  simp only
  by_cases hfull : l.length ≥ 16
  · obtain ⟨front, s, back, rfl, rfl, hmin⟩ := hsmall (List.length_pos_iff.mp (by omega))
    have hs : s ∈ front ++ s :: back := by simp
    simp only [if_pos hfull, hl.deref_behind, hl.sizes s hs]
    by_cases hle : b.size ≤ s.size
    · rw [if_pos hle]
      exact ⟨h, _, rfl, .leak hfull fun c hc => BitVec.le_trans hle (hmin c hc), hl,
        Within.refl _ h⟩
    · rw [if_neg hle]
      have hunlink := Lists.within_unlink h front back s (h.next s.addr)
      refine ⟨_, _, rfl, .evict hfull hmin (BitVec.not_le.mp hle),
        hl.unlink.push fun c hc => hb c (mem_around hc), ?_⟩
      rw [Set.union_comm]
      exact hunlink.trans (within_push _ b)
  · rw [if_neg hfull]
    exact ⟨_, _, rfl, .room (Nat.lt_of_not_le hfull), hl.push hb,
      (within_push h b).mono Set.subset_union_left⟩

end Free

/-! ## Allocating -/

/-- `x & ~ (2^k - 1)` is the multiple of `2^k` up to `x`. -/
theorem toNat_and_not_mask {k : Nat} (hk : k < 64) (x : BitVec 64) :
    (x &&& ~~~(BitVec.ofNat 64 (2 ^ k) - 1)).toNat = x.toNat / 2 ^ k * 2 ^ k := by
  have hlt : 2 ^ k < 2 ^ 64 := Nat.pow_lt_pow_right (by omega) hk
  have hpow : (BitVec.ofNat 64 (2 ^ k)).toNat = 2 ^ k := by
    rw [BitVec.toNat_ofNat, Nat.mod_eq_of_lt hlt]
  have hmask : BitVec.ofNat 64 (2 ^ k) - 1 = BitVec.ofNat 64 (2 ^ k - 1) := by
    apply BitVec.eq_of_toNat_eq
    rw [BitVec.toNat_sub_of_le (by rw [BitVec.le_def, hpow]; exact Nat.two_pow_pos k), hpow,
      BitVec.toNat_ofNat, Nat.mod_eq_of_lt (by omega)]
    rfl
  apply Nat.eq_of_testBit_eq
  intro i
  rw [BitVec.testBit_toNat, BitVec.getLsbD_and, BitVec.getLsbD_not, hmask, BitVec.getLsbD_ofNat,
    Nat.testBit_two_pow_sub_one, Nat.testBit_mul_two_pow, Nat.testBit_div_two_pow,
    BitVec.testBit_toNat]
  by_cases hi : i < 64
  · by_cases hik : k ≤ i
    · simp [hi, hik, Nat.not_lt.mpr hik]
    · simp [hi, hik, Nat.lt_of_not_le hik]
  · have hki : k ≤ i := by omega
    simp [hi, hki, BitVec.getLsbD_of_ge x i (Nat.le_of_not_lt hi)]

theorem toNat_roundUp8 {size : SizeT} (h : size.toNat + 7 < 2 ^ 64) :
    (roundUp8 size).toNat = (size.toNat + 7) / 8 * 8 := by
  have hmask := toNat_and_not_mask (show 3 < 64 by omega) (size + 7)
  rw [BitVec.toNat_add_of_lt h] at hmask
  exact hmask

/-- A size that fits in a block can be rounded up. -/
theorem Block.roundUp8_lt (b : Block) {size : SizeT} (h : size ≤ b.size) :
    size.toNat + 7 < 2 ^ 64 := by
  have hsize := BitVec.le_def.mp h
  have hne := b.ne_null
  obtain ⟨k, hk⟩ := b.aligned
  have := b.fits
  omega

/-- What is left of a block behind `size` bytes, if that holds a header. -/
def Block.rest (b : Block) (size : SizeT) (h : size ≤ b.size) (hlt : roundUp8 size < b.size)
    (hrest : headerSize ≤ b.size - roundUp8 size) : Block where
  addr := b.addr + (roundUp8 size).toNat
  size := b.size - roundUp8 size
  ne_null := fun hc => b.ne_null (Nat.eq_zero_of_add_eq_zero hc).1
  aligned := by
    rw [toNat_roundUp8 (b.roundUp8_lt h)]
    exact Nat.dvd_add b.aligned (Nat.dvd_mul_left 8 _)
  header := hrest
  fits := by
    have := b.fits
    rw [BitVec.toNat_sub_of_le (BitVec.le_of_lt hlt)]
    have := BitVec.lt_def.mp hlt
    omega

/-- The rest of a block is behind what is taken of it. -/
theorem Block.rest_subset (b : Block) {size : SizeT} (h : size ≤ b.size)
    (hlt : roundUp8 size < b.size) (hrest : headerSize ≤ b.size - roundUp8 size) :
    (b.rest size h hlt hrest).bytes ⊆ b.bytes \ Set.Ico b.addr (b.addr + size.toNat) := by
  have hround := toNat_roundUp8 (b.roundUp8_lt h)
  have hsub := BitVec.toNat_sub_of_le (BitVec.le_of_lt hlt)
  have := BitVec.lt_def.mp hlt
  rintro x ⟨h1, h2⟩
  change b.addr + (roundUp8 size).toNat ≤ x at h1
  change x < b.addr + (roundUp8 size).toNat + (b.size - roundUp8 size).toNat at h2
  rw [hsub] at h2
  exact ⟨⟨by omega, by omega⟩, fun hx => by have := hx.2; omega⟩

/-- What `backtrace_alloc` leaves of the list: the blocks but the one that was taken, and the rest
of that one, unless it is too small. -/
inductive Leaves (b : Block) (size : SizeT) (l : List Block) : List Block → Prop
  | whole : Leaves b size l l
  | split (h : size ≤ b.size) (hlt : roundUp8 size < b.size)
      (hrest : headerSize ≤ b.size - roundUp8 size) {l' : List Block}
      (hkeeps : Keeps (b.rest size h hlt hrest) l l') : Leaves b size l l'

section Alloc

variable {h : Heap} {l : List Block} {size : SizeT}

/-- The search for a block that is large enough. -/
theorem find_front (hl : Lists h l) (front : List Block) :
    ∀ {back : List Block}, l = front ++ back →
    (∀ c ∈ front, c.size < size) ∧ (links none (front.map Block.addr)).find?
        (fun pp => decide (h.size (h.deref pp) ≥ size)) = none ∨
      ∃ l₁ b l₂, front = l₁ ++ b :: l₂ ∧ (∀ c ∈ l₁, c.size < size) ∧ size ≤ b.size ∧
        (links none (front.map Block.addr)).find?
          (fun pp => decide (h.size (h.deref pp) ≥ size)) = some (linkBehind l₁) := by
  induction front using List.reverseRecOn with
  | nil => exact fun _ => .inl ⟨by simp, rfl⟩
  | append_singleton front b ih =>
    intro back heq
    rw [List.append_assoc, List.singleton_append] at heq
    have hcases := @ih (b :: back) heq
    subst heq
    have hb : h.size (h.deref (linkBehind front)) = b.size := by
      rw [hl.deref_behind]
      exact hl.sizes b (by simp)
    rw [List.map_append, List.map_singleton, links_concat, List.find?_append]
    rcases hcases with ⟨hsmall, hnone⟩ | ⟨l₁, c, l₂, rfl, hsmall, hc, hsome⟩
    · rw [hnone, Option.none_or]
      by_cases hle : size ≤ b.size
      · refine .inr ⟨front, b, [], rfl, hsmall, hle, List.find?_cons_of_pos ?_⟩
        exact decide_eq_true (hb.symm ▸ hle)
      · refine .inl ⟨fun c hc => ?_, List.find?_cons_of_neg ?_⟩
        · rcases List.mem_append.mp hc with hc | hc
          · exact hsmall c hc
          · exact List.mem_singleton.mp hc ▸ BitVec.not_le.mp hle
        · rw [decide_eq_true_eq]
          exact fun hge => hle (hb ▸ hge)
    · refine .inr ⟨l₁, c, l₂ ++ [b], by simp, hsmall, hc, ?_⟩
      rw [hsome]
      rfl

/-- **The part of `backtrace_alloc` under the lock** finds no block, or takes the first one that is
large enough. -/
theorem allocLocked_spec (hl : Lists h l) (hlen : l.length < maxTurns) (size : SizeT) :
    (∀ b ∈ l, b.size < size) ∧ allocLocked size h = some (none, h) ∨
      ∃ front b back h' l', l = front ++ b :: back ∧ (∀ c ∈ front, c.size < size) ∧ size ≤ b.size ∧
        allocLocked size h = some (some b.addr, h') ∧ Leaves b size (front ++ back) l' ∧
        Lists h' l' ∧ Within (freeBytes l) h h' := by
  have hfind := @findLink_eq _ 0 h.deref _ (fun pp => decide (h.size (h.deref pp) ≥ size))
    (l.map Block.addr) maxTurns none hl.linked (by rwa [List.length_map])
  rcases @find_front h l size hl l [] (List.append_nil l).symm with
    ⟨hsmall, hnone⟩ | ⟨front, b, back, rfl, hsmall, hle, hsome⟩
  · rw [hnone] at hfind
    exact .inl ⟨hsmall, by rw [allocLocked, hfind]⟩
  · refine .inr ⟨front, b, back, ?_⟩
    rw [hsome] at hfind
    have hb : b ∈ front ++ b :: back := by simp
    have hunlink := hl.unlink
    have hsize := (hl.size_assign (fun q hq => List.mem_append_left _ hq) (h.next b.addr) hb).trans
      (hl.sizes b hb)
    have hwithin := Lists.within_unlink h front back b (h.next b.addr)
    have hrun : allocLocked size h =
        if roundUp8 size < b.size then
          (backtraceFreeLocked (b.addr + (roundUp8 size).toNat) (b.size - roundUp8 size)
            (h.assign (linkBehind front) (h.next b.addr))).map (some b.addr, ·)
        else some (some b.addr, h.assign (linkBehind front) (h.next b.addr)) := by
      rw [allocLocked, hfind]
      simp only [hl.deref_behind, hsize]
    by_cases hlt : roundUp8 size < b.size
    · rw [if_pos hlt] at hrun
      by_cases hrest : headerSize ≤ b.size - roundUp8 size
      · have hsub := b.rest_subset hle hlt hrest
        have hapart : ∀ c ∈ front ++ back, (b.rest size hle hlt hrest).Apart c := fun c hc =>
          (hl.apart_around hc).mono_left (hsub.trans Set.sdiff_subset)
        obtain ⟨h'', l', hfree, hkeeps, hl', hw⟩ := freeLocked_spec hunlink
          (by simp only [List.length_append, List.length_cons] at hlen ⊢; omega) hapart
        have hfree' : backtraceFreeLocked (b.addr + (roundUp8 size).toNat) (b.size - roundUp8 size)
            (h.assign (linkBehind front) (h.next b.addr)) = some h'' := hfree
        refine ⟨h'', l', rfl, hsmall, hle, by rw [hrun, hfree', Option.map_some],
          .split hle hlt hrest hkeeps, hl', (hwithin.trans hw).mono ?_⟩
        rintro x (hx | hx | hx)
        · exact hx
        · exact subset_freeBytes hb (hsub hx).1
        · exact freeBytes_around hx
      · rw [backtraceFreeLocked, if_pos (BitVec.not_le.mp hrest)] at hrun
        exact ⟨_, _, rfl, hsmall, hle, hrun, .whole, hunlink, hwithin⟩
    · rw [if_neg hlt] at hrun
      exact ⟨_, _, rfl, hsmall, hle, hrun, .whole, hunlink, hwithin⟩

end Alloc

end Bktce.Libbacktrace
