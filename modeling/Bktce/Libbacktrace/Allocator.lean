import Bktce.Libbacktrace.Mmap
import Bktce.Lib.Run
import Mathlib.Logic.Function.Basic
import Mathlib.Logic.Pairwise

/-!
# The allocator among its clients

The calls of `backtrace_alloc` and `backtrace_free` by any number of threads. A call is made of a
few sections: the search of the free list under the lock, `mmap`, and for the memory that is freed
`munmap`, the insertion into the list under the lock, or nothing when the lock was not free. Between
two sections of a call those of other threads may come, in any order; a call made by a signal
handler is like one of another thread.

* An `Arena` is the heap, the memory each thread owns, and the memory that `mmap` gave and `munmap`
  did not take. A thread frees only what it owns, and only at addresses divisible by 8, as the
  comment at `mmap.c:314-315` asks for; it writes only into what it owns.
* `InOrder s l`: the free list is made of the blocks `l`, at most 16; free memory and what the
  threads own do not overlap, and all of it is mapped.

Results:

* `run_inOrder`: whatever the threads do, in whatever order, the arena stays in order, so no byte is
  given out twice.
* `run_keeps`: what a thread owns stays its own, with what it holds, until the thread frees it or
  writes into it.
* `backtraceFree_spec`, `backtraceAlloc_spec`: the calls end, and are such sections.
  `backtrace_alloc` fails exactly if there is `NoMemory`, and the memory it returns was nobody's;
  `run_backtraceAlloc` says so of whatever arena the threads have led to. The last section of a call
  may come later (`freeRest_spec`).
* `freeLocked_largest`: the free list holds the largest of the blocks that were freed.
-/

namespace Bktce.Libbacktrace

open Bktce.Lib Bktce.Lib.Memory

/-! ## The list of blocks -/

theorem Keeps.length_le {b : Block} {l l' : List Block} (h : Keeps b l l') (hlen : l.length ≤ 16) :
    l'.length ≤ 16 := by
  cases h with
  | room hroom => exact hroom
  | leak _ _ => exact hlen
  | evict _ _ _ => simp only [List.length_append, List.length_cons] at hlen ⊢; omega

theorem Keeps.bytes_subset {b : Block} {l l' : List Block} (h : Keeps b l l') :
    freeBytes l' ⊆ b.bytes ∪ freeBytes l := by
  have hcons : ∀ {l : List Block}, freeBytes (b :: l) ⊆ b.bytes ∪ freeBytes l := by
    rintro l x ⟨c, hc, hx⟩
    rcases List.mem_cons.mp hc with rfl | hc
    · exact .inl hx
    · exact .inr ⟨c, hc, hx⟩
  cases h with
  | room _ => exact hcons
  | leak _ _ => exact Set.subset_union_right
  | evict _ _ _ =>
    exact hcons.trans (Set.union_subset_union_right _ freeBytes_around)

theorem Keeps.mem {b c : Block} {l l' : List Block} (h : Keeps b l l') (hc : c ∈ l') :
    c = b ∨ c ∈ l := by
  cases h with
  | room _ => exact List.mem_cons.mp hc
  | leak _ _ => exact .inr hc
  | evict _ _ _ => exact (List.mem_cons.mp hc).imp_right mem_around

/-- `lost` is what the list `l` does not hold any more: there was no room for it, and nothing in the
list is smaller. -/
structure Largest (l lost : List Block) : Prop where
  short : l.length ≤ 16
  full : lost = [] ∨ l.length = 16
  le : ∀ d ∈ lost, ∀ b ∈ l, d.size ≤ b.size

/-- One block more. -/
theorem Keeps.largest {b : Block} {l l' lost : List Block} (h : Keeps b l l')
    (hl : Largest l lost) :
    ∃ lost', (l' ++ lost').Perm (b :: (l ++ lost)) ∧ Largest l' lost' := by
  have hshort := h.length_le hl.short
  cases h with
  | room hlen =>
    have hnil : lost = [] := hl.full.resolve_right (by omega)
    exact ⟨lost, List.Perm.refl _, hshort, .inl hnil, by simp [hnil]⟩
  | leak hlen hle =>
    refine ⟨b :: lost, List.perm_middle, hshort, .inr (le_antisymm hl.short hlen), ?_⟩
    exact List.forall_mem_cons.mpr ⟨hle, hl.le⟩
  | @evict front back s hlen hle hlt =>
    have hfull : (front ++ s :: back).length = 16 := le_antisymm hl.short hlen
    refine ⟨s :: lost, ?_, hshort, .inr ?_, ?_⟩
    · rw [List.cons_append, List.append_assoc, List.append_assoc, List.cons_append]
      exact (List.perm_middle.append_left front).cons b
    · simp only [List.length_append, List.length_cons] at hfull ⊢
      omega
    · have hs : s ∈ front ++ s :: back := by simp
      refine List.forall_mem_cons.mpr ⟨?_, fun d hd => ?_⟩ <;>
        refine List.forall_mem_cons.mpr ⟨?_, fun c hc => ?_⟩
      · exact BitVec.le_of_lt hlt
      · exact hle c (mem_around hc)
      · exact BitVec.le_trans (hl.le d hd s hs) (BitVec.le_of_lt hlt)
      · exact hl.le d hd c (mem_around hc)

/-- Freeing one block after another. -/
theorem freeLocked_run {bs : List Block} (hbs : bs.Pairwise Block.Apart) : ∀ {h : Heap}
    {l lost : List Block}, Lists h l → (∀ b ∈ bs, ∀ c ∈ l, b.Apart c) → Largest l lost →
      ∃ h' l' lost', bs.foldlM (fun h b => backtraceFreeLocked b.addr b.size h) h = some h' ∧
        Lists h' l' ∧ (l' ++ lost').Perm (bs ++ (l ++ lost)) ∧ Largest l' lost' := by
  induction bs with
  | nil => exact fun {h l lost} hl _ hlargest => ⟨h, l, lost, rfl, hl, List.Perm.refl _, hlargest⟩
  | cons b bs ih =>
    intro h l lost hl hapart hlargest
    rw [List.forall_mem_cons] at hapart
    rw [List.pairwise_cons] at hbs
    obtain ⟨h₁, l₁, hrun, hkeeps, hl₁, -⟩ :=
      freeLocked_spec hl (Nat.lt_succ_of_le hlargest.short) hapart.1
    obtain ⟨lost₁, hperm, hlargest₁⟩ := hkeeps.largest hlargest
    have hapart₁ : ∀ d ∈ bs, ∀ c ∈ l₁, d.Apart c := fun d hd c hc => by
      rcases hkeeps.mem hc with rfl | hc
      · exact (hbs.1 d hd).symm
      · exact hapart.2 d hd c hc
    obtain ⟨h', l', lost', hruns, hl', hperm', hlargest'⟩ := ih hbs.2 hl₁ hapart₁ hlargest₁
    refine ⟨h', l', lost', ?_, hl', ?_, hlargest'⟩
    · rw [List.foldlM_cons, hrun]
      exact hruns
    · exact hperm'.trans ((hperm.append_left bs).trans List.perm_middle)

/-- **The free list holds the largest blocks**: of blocks that do not overlap, freed one after
another, the 16 largest, and all of them if there are no more. -/
theorem freeLocked_largest (mem : Nat → Byte) {bs : List Block} (hbs : bs.Pairwise Block.Apart) :
    ∃ h l lost, bs.foldlM (fun h b => backtraceFreeLocked b.addr b.size h) ⟨mem, 0⟩ = some h ∧
      Lists h l ∧ (l ++ lost).Perm bs ∧ l.length = min 16 bs.length ∧
      ∀ d ∈ lost, ∀ b ∈ l, d.size ≤ b.size := by
  have hstart : Lists ⟨mem, 0⟩ [] := ⟨rfl, by simp, List.Pairwise.nil⟩
  obtain ⟨h, l, lost, hrun, hl, hperm, hlargest⟩ :=
    freeLocked_run hbs hstart (by simp) (Largest.mk (Nat.zero_le 16) (.inl rfl) (by simp))
  rw [List.append_nil, List.append_nil] at hperm
  refine ⟨h, l, lost, hrun, hl, hperm, ?_, hlargest.le⟩
  have hlen := hperm.length_eq
  have hshort := hlargest.short
  rw [List.length_append] at hlen
  rcases hlargest.full with rfl | hfull
  · rw [List.length_nil] at hlen
    omega
  · omega

/-- Two blocks side by side. -/
theorem freeLocked_largest_two :
    let bs : List Block := [⟨0x1000, 32, by decide, by decide, by decide, by decide⟩,
      ⟨0x1020, 64, by decide, by decide, by decide, by decide⟩]
    ∃ h l lost, bs.foldlM (fun h b => backtraceFreeLocked b.addr b.size h) ⟨fun _ => 0, 0⟩ =
      some h ∧
      Lists h l ∧ (l ++ lost).Perm bs ∧ l.length = min 16 bs.length ∧
      ∀ d ∈ lost, ∀ b ∈ l, d.size ≤ b.size := by
  intro bs
  refine freeLocked_largest _ (List.pairwise_pair.mpr ?_)
  exact Set.Ico_disjoint_Ico_same

/-- The range of `size` bytes from `addr` on. -/
def range (addr : Nat) (size : SizeT) : Set Nat := Set.Ico addr (addr + size.toNat)

theorem range_subset (addr : Nat) {size size' : SizeT} (h : size ≤ size') :
    range addr size ⊆ range addr size' :=
  Set.Ico_subset_Ico_right (Nat.add_le_add_left (BitVec.le_def.mp h) addr)

theorem Leaves.length_le {b : Block} {size : SizeT} {l l' : List Block} (h : Leaves b size l l')
    (hlen : l.length ≤ 16) : l'.length ≤ 16 := by
  cases h with
  | whole => exact hlen
  | split _ _ _ hkeeps => exact hkeeps.length_le hlen

theorem Leaves.bytes_subset {b : Block} {size : SizeT} {l l' : List Block}
    (h : Leaves b size l l') :
    freeBytes l' ⊆ b.bytes \ range b.addr size ∪ freeBytes l := by
  cases h with
  | whole => exact Set.subset_union_right
  | split h hlt hrest hkeeps =>
    exact hkeeps.bytes_subset.trans (Set.union_subset_union_left _ (b.rest_subset h hlt hrest))

/-! ## Arenas -/

section Arena

variable {τ : Type} [DecidableEq τ]

/-- The heap, what each thread owns, and what is mapped. -/
structure Arena (τ : Type) where
  heap : Heap
  owned : τ → Set Nat
  mapped : Set Nat

namespace Arena

/-- No memory has been mapped. -/
def start (mem : Nat → Byte) : Arena τ := ⟨⟨mem, 0⟩, fun _ => ∅, ∅⟩

/-- The thread `t` owns `A` as well. -/
def give (s : Arena τ) (t : τ) (A : Set Nat) (h : Heap) : Arena τ :=
  { s with heap := h, owned := Function.update s.owned t (s.owned t ∪ A) }

/-- The thread `t` does not own `A` any more. -/
def drop (s : Arena τ) (t : τ) (A : Set Nat) (h : Heap) : Arena τ :=
  { s with heap := h, owned := Function.update s.owned t (s.owned t \ A) }

/-- What `mmap` may return: pages that are not mapped. -/
structure Fresh (s : Arena τ) (page : Nat) (size : SizeT) : Prop where
  pos : 0 < size
  ne_null : page ≠ 0
  aligned : 8 ∣ page
  fits : page + size.toNat ≤ 2 ^ 64
  unmapped : Disjoint (range page size) s.mapped

end Arena

/-- A section of a call, or a write of a client. -/
inductive Section where
  /-- A block is taken off the free list. -/
  | take (size : SizeT)
  /-- Pages are mapped. -/
  | map (page : Nat) (size : SizeT)
  /-- A block is put on the free list, if there is room for it. -/
  | release (addr : Nat) (size : SizeT)
  /-- A block is leaked, as the lock was not free. -/
  | leak (addr : Nat) (size : SizeT)
  /-- Pages are given back. -/
  | unmap (addr : Nat) (size : SizeT)
  /-- The client writes. -/
  | write (addr : Nat) (bs : List Byte)

/-- The memory of the thread that a section uses. -/
def Section.uses : Section → Set Nat
  | take _ => ∅
  | map _ _ => ∅
  | release addr size => range addr size
  | leak addr size => range addr size
  | unmap addr size => range addr size
  | write addr bs => Set.Ico addr (addr + bs.length)

/-- A section of the thread `t`. -/
inductive SectionStep : τ × Section → Arena τ → Arena τ → Prop
  | take {t : τ} {s : Arena τ} {size : SizeT} {p : Nat} {h : Heap}
      (run : allocLocked size s.heap = some (some p, h)) :
      SectionStep (t, .take size) s (s.give t (range p size) h)
  | map {t : τ} {s : Arena τ} {page : Nat} {size : SizeT} (fresh : s.Fresh page size) :
      SectionStep (t, .map page size) s
        { s.give t (range page size) (s.heap.mapPages page size) with
          mapped := s.mapped ∪ range page size }
  | release {t : τ} {s : Arena τ} {addr : Nat} {size : SizeT} {h : Heap}
      (own : range addr size ⊆ s.owned t) (aligned : 8 ∣ addr)
      (run : backtraceFreeLocked addr size s.heap = some h) :
      SectionStep (t, .release addr size) s (s.drop t (range addr size) h)
  | leak {t : τ} {s : Arena τ} {addr : Nat} {size : SizeT} (own : range addr size ⊆ s.owned t) :
      SectionStep (t, .leak addr size) s (s.drop t (range addr size) s.heap)
  | unmap {t : τ} {s : Arena τ} {addr : Nat} {size : SizeT} (own : range addr size ⊆ s.owned t) :
      SectionStep (t, .unmap addr size) s
        { s.drop t (range addr size) s.heap with mapped := s.mapped \ range addr size }
  | write {t : τ} {s : Arena τ} {addr : Nat} {bs : List Byte}
      (own : Set.Ico addr (addr + bs.length) ⊆ s.owned t) :
      SectionStep (t, .write addr bs) s
        { s with heap := { s.heap with mem := Memory.write s.heap.mem addr bs } }

/-- The arena is in order, and its free list is made of the blocks `l`. -/
structure InOrder (s : Arena τ) (l : List Block) : Prop where
  lists : Lists s.heap l
  short : l.length ≤ 16
  free_mapped : freeBytes l ⊆ s.mapped
  free_apart : ∀ t, Disjoint (freeBytes l) (s.owned t)
  owned_mapped : ∀ t, s.owned t ⊆ s.mapped
  owned_apart : ∀ t u, t ≠ u → Disjoint (s.owned t) (s.owned u)
  mapped_pos : ∀ x ∈ s.mapped, 0 < x ∧ x < 2 ^ 64

namespace InOrder

variable {s : Arena τ} {l l' : List Block} {t : τ}

omit [DecidableEq τ] in
theorem start (mem : Nat → Byte) : InOrder (Arena.start mem : Arena τ) [] where
  lists := ⟨rfl, by simp, List.Pairwise.nil⟩
  short := Nat.zero_le 16
  free_mapped := fun _ ⟨_, hb, _⟩ => absurd hb List.not_mem_nil
  free_apart _ := Set.disjoint_empty _
  owned_mapped _ := Set.empty_subset _
  owned_apart _ _ _ := Set.disjoint_empty _
  mapped_pos _ hx := hx.elim

/-- The thread `t` owns other memory `A`, the free list is made of other blocks, and `M` is
mapped. -/
theorem update (hs : InOrder s l) {h : Heap} {A M : Set Nat} (hl : Lists h l')
    (hshort : l'.length ≤ 16)
    (hfree : freeBytes l' ⊆ M) (hA : A ⊆ M) (hother : ∀ u, u ≠ t → s.owned u ⊆ M)
    (hpos : ∀ x ∈ M, 0 < x ∧ x < 2 ^ 64) (hfreeA : Disjoint (freeBytes l') A)
    (hfreeOther : ∀ u, u ≠ t → Disjoint (freeBytes l') (s.owned u))
    (hAother : ∀ u, u ≠ t → Disjoint A (s.owned u)) :
    InOrder ⟨h, Function.update s.owned t A, M⟩ l' where
  lists := hl
  short := hshort
  free_mapped := hfree
  free_apart u := by
    change Disjoint _ (Function.update s.owned t A u)
    by_cases hut : u = t
    · rw [hut, Function.update_self]
      exact hfreeA
    · rw [Function.update_of_ne hut]
      exact hfreeOther u hut
  owned_mapped u := by
    change Function.update s.owned t A u ⊆ M
    by_cases hut : u = t
    · rw [hut, Function.update_self]
      exact hA
    · rw [Function.update_of_ne hut]
      exact hother u hut
  owned_apart u v huv := by
    change Disjoint (Function.update s.owned t A u) (Function.update s.owned t A v)
    by_cases hut : u = t
    · subst hut
      rw [Function.update_self, Function.update_of_ne huv.symm]
      exact hAother v huv.symm
    · rw [Function.update_of_ne hut]
      by_cases hvt : v = t
      · rw [hvt, Function.update_self]
        exact (hAother u hut).symm
      · rw [Function.update_of_ne hvt]
        exact hs.owned_apart u v huv
  mapped_pos := hpos

/-- A section takes memory from the free list. -/
theorem take (hs : InOrder s l) {size : SizeT} {p : Nat} {h : Heap}
    (run : allocLocked size s.heap = some (some p, h)) :
    (∃ l', InOrder (s.give t (range p size) h) l') ∧ Within (freeBytes l) s.heap h := by
  have hlen : l.length < maxTurns := Nat.lt_succ_of_le hs.short
  rcases allocLocked_spec hs.lists hlen size with ⟨-, hnone⟩ |
    ⟨front, b, back, h', l', rfl, -, hle, hrun, hleaves, hl', hw⟩
  · rw [hnone] at run
    cases run
  · rw [hrun] at run
    obtain ⟨rfl, rfl⟩ : b.addr = p ∧ h' = h := by simpa using run
    have hrange : range b.addr size ⊆ b.bytes := range_subset b.addr hle
    have hbytes : b.bytes ⊆ freeBytes (front ++ b :: back) := subset_freeBytes (by simp)
    -- the other blocks are apart from the one that was taken
    have hrest : freeBytes l' ⊆ freeBytes (front ++ b :: back) \ range b.addr size := by
      refine hleaves.bytes_subset.trans (Set.union_subset (Set.sdiff_subset_sdiff_left hbytes) ?_)
      rintro x ⟨c, hc, hx⟩
      exact ⟨⟨c, mem_around hc, hx⟩, fun hmem =>
        Set.disjoint_left.mp (hs.lists.apart_around hc) (hrange hmem) hx⟩
    have hfree := hrest.trans Set.sdiff_subset
    refine ⟨⟨l', hs.update hl' (hleaves.length_le ?_) (hfree.trans hs.free_mapped) ?_
      (fun u _ => hs.owned_mapped u) hs.mapped_pos ?_ (fun u _ => (hs.free_apart u).mono_left hfree)
      fun u hut => ?_⟩, hw⟩
    · have := hs.short
      simp only [List.length_append, List.length_cons] at this ⊢
      omega
    · exact Set.union_subset (hs.owned_mapped t) (hrange.trans (hbytes.trans hs.free_mapped))
    · exact Set.disjoint_union_right.mpr
        ⟨(hs.free_apart t).mono_left hfree, Set.disjoint_left.mpr fun x hx => (hrest hx).2⟩
    · exact Set.disjoint_union_left.mpr
        ⟨hs.owned_apart t u hut.symm, (hs.free_apart u).mono_left (hrange.trans hbytes)⟩

/-- A section takes memory from a thread. -/
theorem drop (hs : InOrder s l) {h : Heap} {A M : Set Nat} (hA : A ⊆ s.owned t) (hl : Lists h l')
    (hshort : l'.length ≤ 16) (hfree : freeBytes l' ⊆ A ∪ freeBytes l) (hM : s.mapped \ A ⊆ M)
    (hMs : M ⊆ s.mapped) (hfreeM : freeBytes l' ⊆ M) :
    InOrder { s.drop t A h with mapped := M } l' := by
  have hother : ∀ u, u ≠ t → Disjoint A (s.owned u) := fun u hut =>
    (hs.owned_apart t u hut.symm).mono_left hA
  refine hs.update hl hshort hfreeM (fun x hx => hM ⟨hs.owned_mapped t hx.1, hx.2⟩)
    (fun u hut x hx => hM ⟨hs.owned_mapped u hx, fun hxA => ?_⟩)
    (fun x hx => hs.mapped_pos x (hMs hx))
    ?_ (fun u hut => ?_) fun u hut => (hs.owned_apart t u hut.symm).mono_left Set.sdiff_subset
  · exact Set.disjoint_left.mp (hother u hut) hxA hx
  · refine Set.disjoint_left.mpr fun x hx hxt => ?_
    rcases hfree hx with hxA | hxl
    · exact hxt.2 hxA
    · exact Set.disjoint_left.mp (hs.free_apart t) hxl hxt.1
  · exact (Set.disjoint_union_left.mpr ⟨hother u hut, hs.free_apart u⟩).mono_left hfree

omit [DecidableEq τ] in
/-- A block of a thread's memory. -/
theorem exists_block (hs : InOrder s l) {addr : Nat} {size : SizeT}
    (own : range addr size ⊆ s.owned t)
    (aligned : 8 ∣ addr) (hsize : headerSize ≤ size) :
    ∃ b : Block, b.addr = addr ∧ b.size = size ∧ ∀ c ∈ l, b.Apart c := by
  have hpos : 16 ≤ size.toNat := BitVec.le_def.mp hsize
  have hmapped := fun x hx => hs.mapped_pos x (hs.owned_mapped t (own hx))
  have hfirst := hmapped addr ⟨le_refl _, by omega⟩
  have hlast := hmapped (addr + size.toNat - 1) ⟨by omega, by omega⟩
  refine ⟨⟨addr, size, by omega, aligned, hsize, by omega⟩, rfl, rfl, fun c hc => ?_⟩
  exact ((hs.free_apart t).symm.mono_left own).mono_right (subset_freeBytes hc)

/-- A section frees a block. -/
theorem release (hs : InOrder s l) {addr : Nat} {size : SizeT} {h : Heap}
    (own : range addr size ⊆ s.owned t) (aligned : 8 ∣ addr)
    (run : backtraceFreeLocked addr size s.heap = some h) :
    (∃ l', InOrder (s.drop t (range addr size) h) l') ∧
      Within (range addr size ∪ freeBytes l) s.heap h := by
  by_cases hsize : size < headerSize
  · rw [backtraceFreeLocked, if_pos hsize] at run
    obtain rfl := Option.some.inj run
    exact ⟨⟨l, hs.drop own hs.lists hs.short Set.subset_union_right Set.sdiff_subset subset_rfl
      hs.free_mapped⟩, Within.refl _ _⟩
  · obtain ⟨b, rfl, rfl, hb⟩ := hs.exists_block own aligned (BitVec.not_lt.mp hsize)
    obtain ⟨h', l', hrun, hkeeps, hl', hw⟩ :=
      freeLocked_spec hs.lists (Nat.lt_succ_of_le hs.short) hb
    obtain rfl := Option.some.inj (hrun.symm.trans run)
    have hmapped : freeBytes l' ⊆ s.mapped := hkeeps.bytes_subset.trans
      (Set.union_subset (own.trans (hs.owned_mapped t)) hs.free_mapped)
    exact ⟨⟨l', hs.drop own hl' (hkeeps.length_le hs.short) hkeeps.bytes_subset Set.sdiff_subset
      subset_rfl hmapped⟩, hw⟩

/-- Pages are mapped. -/
theorem map (hs : InOrder s l) {page : Nat} {size : SizeT} (fresh : s.Fresh page size) :
    InOrder { s.give t (range page size) (s.heap.mapPages page size) with
      mapped := s.mapped ∪ range page size } l ∧
      Within (range page size) s.heap (s.heap.mapPages page size) := by
  have hw : Within (range page size) s.heap (s.heap.mapPages page size) := fun x hx => if_neg hx
  have hunmapped : ∀ {A : Set Nat}, A ⊆ s.mapped → Disjoint (range page size) A := fun hA =>
    fresh.unmapped.mono_right hA
  refine ⟨hs.update (hs.lists.congr hw rfl fun b hb => ?_) hs.short
    (hs.free_mapped.trans Set.subset_union_left) ?_
    (fun u _ => (hs.owned_mapped u).trans Set.subset_union_left) ?_ ?_ (fun u _ => hs.free_apart u)
    fun u hut => ?_, hw⟩
  · exact (hunmapped ((subset_freeBytes hb).trans hs.free_mapped)).symm
  · exact Set.union_subset_union_left _ (hs.owned_mapped t)
  · rintro x (hx | hx)
    · exact hs.mapped_pos x hx
    · have := fresh.fits
      exact ⟨(Nat.pos_of_ne_zero fresh.ne_null).trans_le hx.1, hx.2.trans_le this⟩
  · exact Set.disjoint_union_right.mpr ⟨hs.free_apart t, (hunmapped hs.free_mapped).symm⟩
  · exact Set.disjoint_union_left.mpr
      ⟨hs.owned_apart t u hut.symm, hunmapped (hs.owned_mapped u)⟩

omit [DecidableEq τ] in
/-- A client writes. -/
theorem write (hs : InOrder s l) {addr : Nat} {bs : List Byte}
    (own : Set.Ico addr (addr + bs.length) ⊆ s.owned t) :
    InOrder { s with heap := { s.heap with mem := Memory.write s.heap.mem addr bs } } l ∧
      Within (Set.Ico addr (addr + bs.length)) s.heap
        { s.heap with mem := Memory.write s.heap.mem addr bs } := by
  have hw : Within (Set.Ico addr (addr + bs.length)) s.heap
      { s.heap with mem := Memory.write s.heap.mem addr bs } := fun _ hx => write_of_notMem hx
  refine ⟨{ hs with lists := hs.lists.congr hw rfl fun b hb => ?_ }, hw⟩
  exact ((hs.free_apart t).mono_right own).mono_left (subset_freeBytes hb)

end InOrder

/-! ## Runs -/

section Runs

variable {s s' : Arena τ} {l : List Block} {a : τ × Section}

/-- **One section** keeps the arena in order, and changes memory only inside what the thread uses,
free blocks and fresh pages. -/
theorem SectionStep.inOrder (hs : InOrder s l) (hstep : SectionStep a s s') :
    (∃ l', InOrder s' l') ∧ Within (a.2.uses ∪ freeBytes l ∪ s.mappedᶜ) s.heap s'.heap := by
  cases hstep with
  | take run =>
    obtain ⟨hs', hw⟩ := hs.take run
    exact ⟨hs', hw.mono fun x hx => .inl (.inr hx)⟩
  | map fresh =>
    obtain ⟨hs', hw⟩ := hs.map fresh
    exact ⟨⟨l, hs'⟩, hw.mono fun x hx => .inr (Set.disjoint_left.mp fresh.unmapped hx)⟩
  | release own aligned run =>
    obtain ⟨hs', hw⟩ := hs.release own aligned run
    exact ⟨hs', hw.mono fun x hx => .inl hx⟩
  | leak own =>
    exact ⟨⟨l, hs.drop own hs.lists hs.short Set.subset_union_right Set.sdiff_subset subset_rfl
      hs.free_mapped⟩, Within.refl _ _⟩
  | @unmap t _ addr size own =>
    have hfree : freeBytes l ⊆ s.mapped \ range addr size := fun x hx =>
      ⟨hs.free_mapped hx, fun hmem => Set.disjoint_left.mp (hs.free_apart t) hx (own hmem)⟩
    exact ⟨⟨l, hs.drop own hs.lists hs.short Set.subset_union_right subset_rfl Set.sdiff_subset
      hfree⟩, Within.refl _ _⟩
  | write own =>
    obtain ⟨hs', hw⟩ := hs.write own
    exact ⟨⟨l, hs'⟩, hw.mono fun x hx => .inl (.inl hx)⟩

/-- A section leads to one arena only. -/
theorem SectionStep.eq (hstep : SectionStep a s s') {s'' : Arena τ} (hstep' : SectionStep a s s'') :
    s' = s'' := by
  cases hstep with
  | take run =>
    cases hstep' with
    | take run' =>
      cases run.symm.trans run'
      rfl
  | map _ =>
    cases hstep'
    rfl
  | release _ _ run =>
    cases hstep' with
    | release _ _ run' =>
      cases run.symm.trans run'
      rfl
  | leak _ =>
    cases hstep'
    rfl
  | unmap _ =>
    cases hstep'
    rfl
  | write _ =>
    cases hstep'
    rfl

theorem SectionStep.uses_subset (hstep : SectionStep a s s') : a.2.uses ⊆ s.owned a.1 := by
  cases hstep with
  | take _ => exact Set.empty_subset _
  | map _ => exact Set.empty_subset _
  | release own _ _ => exact own
  | leak own => exact own
  | unmap own => exact own
  | write own => exact own

theorem SectionStep.owned_subset (hstep : SectionStep a s s') (u : τ) :
    s.owned u \ a.2.uses ⊆ s'.owned u := by
  have hgive : ∀ (t : τ) (A : Set Nat), s.owned u ⊆
      Function.update s.owned t (s.owned t ∪ A) u := by
    intro t A
    by_cases hut : u = t
    · rw [hut, Function.update_self]
      exact Set.subset_union_left
    · rw [Function.update_of_ne hut]
  have hdrop : ∀ (t : τ) (A : Set Nat),
      s.owned u \ A ⊆ Function.update s.owned t (s.owned t \ A) u := by
    intro t A
    by_cases hut : u = t
    · rw [hut, Function.update_self]
    · rw [Function.update_of_ne hut]
      exact Set.sdiff_subset
  cases hstep with
  | take _ => exact Set.sdiff_subset.trans (hgive _ _)
  | map _ => exact Set.sdiff_subset.trans (hgive _ _)
  | release _ _ _ => exact hdrop _ _
  | leak _ => exact hdrop _ _
  | unmap _ => exact hdrop _ _
  | write _ => exact Set.sdiff_subset

/-- **One section** leaves what a thread owns alone, unless it is a section of that thread that uses
it. -/
theorem SectionStep.keeps (hs : InOrder s l) (hstep : SectionStep a s s') {u : τ} {A : Set Nat}
    (hA : A ⊆ s.owned u) (hspare : a.1 = u → Disjoint a.2.uses A) :
    A ⊆ s'.owned u ∧ ∀ x ∈ A, s'.heap.mem x = s.heap.mem x := by
  have huses : Disjoint a.2.uses A := by
    by_cases hau : a.1 = u
    · exact hspare hau
    · exact (hs.owned_apart _ u hau).mono hstep.uses_subset hA
  refine ⟨fun x hx => hstep.owned_subset u ⟨hA hx, fun hmem => Set.disjoint_left.mp huses hmem hx⟩,
    fun x hx => (hstep.inOrder hs).2 x ?_⟩
  rintro ((hmem | hmem) | hmem)
  · exact Set.disjoint_left.mp huses hmem hx
  · exact Set.disjoint_left.mp (hs.free_apart u) hmem (hA hx)
  · exact hmem (hs.owned_mapped u (hA hx))

/-- **A run** keeps the arena in order. -/
theorem InOrder.run {as : List (τ × Section)} (hs : InOrder s l) (hrun : Run SectionStep s as s') :
    ∃ l', InOrder s' l' :=
  hrun.invariant (I := fun s => ∃ l, InOrder s l)
    (fun _ _ _ ⟨_, hs⟩ hstep => (hstep.inOrder hs).1) ⟨l, hs⟩

/-- **A run** leaves what a thread owns alone, unless the thread itself uses it. -/
theorem InOrder.keeps {as : List (τ × Section)} (hs : InOrder s l) (hrun : Run SectionStep s as s')
    {u : τ} {A : Set Nat} (hA : A ⊆ s.owned u) (hspare : ∀ a ∈ as, a.1 = u → Disjoint a.2.uses A) :
    A ⊆ s'.owned u ∧ ∀ x ∈ A, s'.heap.mem x = s.heap.mem x := by
  refine hrun.guarantee (I := fun s => ∃ l, InOrder s l)
    (R := fun s s' => A ⊆ s.owned u → A ⊆ s'.owned u ∧ ∀ x ∈ A, s'.heap.mem x = s.heap.mem x)
    (fun _ hA => ⟨hA, fun _ _ => rfl⟩) (fun _ _ _ h₁ h₂ hA => ?_)
    (fun a _ _ ⟨_, hs⟩ hstep => ⟨(hstep.inOrder hs).1, fun hspare hA => hstep.keeps hs hA hspare⟩)
    ⟨l, hs⟩ hspare hA
  obtain ⟨hA', hmem⟩ := h₁ hA
  obtain ⟨hA'', hmem'⟩ := h₂ hA'
  exact ⟨hA'', fun x hx => (hmem' x hx).trans (hmem x hx)⟩

omit [DecidableEq τ] in
/-- What the sections of one thread do not use. -/
theorem spare_map {acts : List Section} {A : Set Nat} (h : ∀ a ∈ acts, Disjoint a.uses A) (t : τ) :
    ∀ a ∈ acts.map (t, ·), a.1 = t → Disjoint a.2.uses A := by
  rintro _ ha -
  obtain ⟨a, hmem, rfl⟩ := List.mem_map.mp ha
  exact h a hmem

/-- **Whatever the threads do**, in whatever order, the arena stays in order. -/
theorem run_inOrder {mem : Nat → Byte} {acts : List (τ × Section)}
    (hrun : Run SectionStep (Arena.start mem) acts s) : ∃ l, InOrder s l :=
  (InOrder.start mem).run hrun

/-- **What a thread owns stays its own**, with what it holds, whatever the other threads do, as long
as the thread does not use it. -/
theorem run_keeps {mem : Nat → Byte} {before after : List (τ × Section)}
    (hbefore : Run SectionStep (Arena.start mem) before s) (hafter : Run SectionStep s after s')
    {u : τ}
    {A : Set Nat} (hA : A ⊆ s.owned u) (hspare : ∀ a ∈ after, a.1 = u → Disjoint a.2.uses A) :
    A ⊆ s'.owned u ∧ ∀ x ∈ A, s'.heap.mem x = s.heap.mem x := by
  obtain ⟨l, hs⟩ := run_inOrder hbefore
  exact hs.keeps hafter hA hspare

/-- The other thread maps pages and writes there. -/
theorem run_keeps_otherThread : ∃ s s' : Arena Bool,
    Run SectionStep (Arena.start fun _ => 0) [(false, .map 0x1000 0x1000)] s ∧
      Run SectionStep s [(true, .map 0x3000 0x1000), (true, .write 0x3000 [7])] s' ∧
      range 0x1000 0x1000 ⊆ s'.owned false ∧
      ∀ x ∈ range 0x1000 0x1000, s'.heap.mem x = s.heap.mem x := by
  have hfirst : (Arena.start fun _ => 0 : Arena Bool).Fresh 0x1000 0x1000 :=
    ⟨by decide, by decide, by decide, by decide, Set.disjoint_empty _⟩
  let s := { Arena.give (.start fun _ => 0 : Arena Bool) false (range 0x1000 0x1000)
    (Heap.mapPages ⟨fun _ => 0, 0⟩ 0x1000 0x1000) with mapped := ∅ ∪ range 0x1000 0x1000 }
  have hsecond : s.Fresh 0x3000 0x1000 := by
    refine ⟨by decide, by decide, by decide, by decide, ?_⟩
    change Disjoint _ (∅ ∪ _)
    rw [Set.empty_union]
    exact Set.Ico_disjoint_Ico.mpr (by decide)
  have hbefore := Run.single (SectionStep.map (t := false) hfirst)
  have hafter := Run.cons (SectionStep.map (t := true) hsecond)
    (.single (@SectionStep.write _ _ true _ 0x3000 [7] ?_))
  · refine ⟨s, _, hbefore, hafter, run_keeps hbefore hafter ?_ (by simp)⟩
    exact Set.subset_union_right
  · exact fun x hx => .inr ⟨hx.1, hx.2.trans (by decide)⟩

end Runs

/-! ## Calls -/

/-- The page size is a power of two, and pages can hold any type. -/
def System.PageSize (sys : System) : Prop :=
  ∃ k, 3 ≤ k ∧ k < 64 ∧ sys.pagesize = BitVec.ofNat 64 (2 ^ k)

/-- The number of pages, rounded up, unless the addition goes over `2^64`. -/
theorem System.PageSize.toNat_roundUpPage {sys : System} (h : sys.PageSize) :
    ∃ k, 3 ≤ k ∧ sys.pagesize.toNat = 2 ^ k ∧ ∀ size : SizeT,
      (sys.roundUpPage size).toNat = (size.toNat + 2 ^ k - 1) % 2 ^ 64 / 2 ^ k * 2 ^ k := by
  obtain ⟨k, hk3, hk, hpage⟩ := h
  have hlt : 2 ^ k < 2 ^ 64 := Nat.pow_lt_pow_right (by omega) hk
  have hpow : (BitVec.ofNat 64 (2 ^ k)).toNat = 2 ^ k := by
    rw [BitVec.toNat_ofNat, Nat.mod_eq_of_lt hlt]
  refine ⟨k, hk3, by rw [hpage, hpow], fun size => ?_⟩
  have hsum : (size + BitVec.ofNat 64 (2 ^ k) - 1).toNat = (size.toNat + 2 ^ k - 1) % 2 ^ 64 := by
    have hone : (1 : BitVec 64).toNat = 1 := rfl
    have hpos := Nat.two_pow_pos k
    rw [BitVec.toNat_sub, BitVec.toNat_add, hpow, hone]
    omega
  rw [System.roundUpPage, hpage, toNat_and_not_mask hk, hsum]

theorem System.PageSize.le_roundUpPage {sys : System} (h : sys.PageSize) {size : SizeT}
    (hfits : size.toNat + sys.pagesize.toNat ≤ 2 ^ 64) : size ≤ sys.roundUpPage size := by
  obtain ⟨k, -, hpage, hask⟩ := h.toNat_roundUpPage
  have hpos := Nat.two_pow_pos k
  rw [BitVec.le_def, hask, Nat.mod_eq_of_lt (by omega)]
  have hdiv := Nat.div_add_mod' (size.toNat + 2 ^ k - 1) (2 ^ k)
  have hmod := Nat.mod_lt (size.toNat + 2 ^ k - 1) hpos
  omega

/-- What is asked for is no less than what is needed, unless it is nothing: then the addition went
over `2^64`. -/
theorem System.PageSize.roundUpPage {sys : System} (h : sys.PageSize) {size : SizeT}
    (hpos : 0 < sys.roundUpPage size) :
    size ≤ sys.roundUpPage size ∧ size ≤ roundUp8 size ∧ 8 ∣ (roundUp8 size).toNat := by
  obtain ⟨k, hk3, hpage, hask⟩ := h.toNat_roundUpPage
  have hk := Nat.two_pow_pos k
  have hle : size.toNat + 2 ^ k - 1 < 2 ^ 64 := by
    by_contra hover
    have hlt : 2 ^ k < 2 ^ 64 := hpage ▸ sys.pagesize.isLt
    have hmod : (size.toNat + 2 ^ k - 1) % 2 ^ 64 / 2 ^ k = 0 :=
      Nat.div_eq_of_lt (by have := size.isLt; omega)
    refine absurd (BitVec.lt_def.mp hpos) ?_
    rw [hask, hmod, Nat.zero_mul]
    exact Nat.not_lt_zero _
  have h8 : 2 ^ 3 ≤ 2 ^ k := Nat.pow_le_pow_right (by decide) hk3
  have hround := @toNat_roundUp8 size (by omega)
  exact ⟨h.le_roundUpPage (by omega), BitVec.le_def.mpr (by omega), hround ▸ Nat.dvd_mul_left 8 _⟩

/-- The section of `backtrace_free`. -/
def freeSection (sys : System) (ans : FreeAnswers) (addr : Nat) (size : SizeT) : Section :=
  if sys.unmaps ans addr size then .unmap addr size
  else if sys.locked ans.lock then .release addr size
  else .leak addr size

theorem uses_freeSection (sys : System) (ans : FreeAnswers) (addr : Nat) (size : SizeT) :
    (freeSection sys ans addr size).uses = range addr size := by
  unfold freeSection
  split_ifs <;> rfl

/-- No free block is found: the lock is not free, or all of them are too small. -/
def NotFound (sys : System) (lock : Bool) (size : SizeT) (l : List Block) : Prop :=
  sys.locked lock = true → ∀ b ∈ l, b.size < size

/-- There is no memory: no free block is found, and `mmap` fails. -/
def NoMemory (sys : System) (ans : AllocAnswers) (size : SizeT) (l : List Block)
    (errnum : CInt) : Prop :=
  NotFound sys ans.lock size l ∧ ans.mmap = .error errnum

/-- The sections of `backtrace_alloc`. -/
def allocSections (sys : System) (ans : AllocAnswers) (size : SizeT) (h : Heap) : List Section :=
  match searchFreelist sys ans.lock size h with
  | none => []
  | some (some _, _) => [.take size]
  | some (none, _) =>
    match ans.mmap with
    | .error _ => []
    | .ok page =>
      .map page (sys.roundUpPage size) ::
        if roundUp8 size < sys.roundUpPage size then
          [freeSection sys ans.free (page + (roundUp8 size).toNat)
            (sys.roundUpPage size - roundUp8 size)]
        else []

section Calls

variable {s : Arena τ} {l : List Block} {t : τ}

/-- **`backtrace_free`** ends, and is one section, after which the thread does not own the block any
more. -/
theorem backtraceFree_spec (hs : InOrder s l) (sys : System) (ans : FreeAnswers) {addr : Nat}
    {size : SizeT} (own : range addr size ⊆ s.owned t) (aligned : 8 ∣ addr) :
    ∃ h s', backtraceFree sys ans addr size s.heap = some h ∧
      SectionStep (t, freeSection sys ans addr size) s s' ∧ s'.heap = h ∧
      s'.owned = (s.drop t (range addr size) h).owned := by
  unfold backtraceFree freeSection
  by_cases hunmap : sys.unmaps ans addr size = true
  · rw [if_pos hunmap, if_pos hunmap]
    exact ⟨_, _, rfl, .unmap own, rfl, rfl⟩
  · rw [if_neg hunmap, if_neg hunmap]
    by_cases hlock : sys.locked ans.lock = true
    · rw [if_pos hlock, if_pos hlock]
      obtain ⟨h, hrun⟩ : ∃ h, backtraceFreeLocked addr size s.heap = some h := by
        by_cases hsize : size < headerSize
        · exact ⟨s.heap, by rw [backtraceFreeLocked, if_pos hsize]⟩
        · obtain ⟨b, rfl, rfl, hb⟩ := hs.exists_block own aligned (BitVec.not_lt.mp hsize)
          obtain ⟨h, -, hrun, -⟩ := freeLocked_spec hs.lists (Nat.lt_succ_of_le hs.short) hb
          exact ⟨h, hrun⟩
      exact ⟨h, _, hrun, .release own aligned hrun, rfl, rfl⟩
    · rw [if_neg hlock, if_neg hlock]
      exact ⟨_, _, rfl, .leak own, rfl, rfl⟩

omit [DecidableEq τ] in
/-- The search under the lock finds a block that nobody owns; or the lock is not free or all blocks
are too small, and nothing changes. -/
theorem searchFreelist_cases (hs : InOrder s l) (sys : System) (lock : Bool) (size : SizeT) :
    (∃ p h, searchFreelist sys lock size s.heap = some (some p, h) ∧
        allocLocked size s.heap = some (some p, h) ∧ ¬ NotFound sys lock size l ∧ p ≠ 0 ∧ 8 ∣ p ∧
        ∀ u, Disjoint (range p size) (s.owned u)) ∨
      searchFreelist sys lock size s.heap = some (none, s.heap) ∧ NotFound sys lock size l := by
  unfold searchFreelist NotFound
  cases sys.locked lock with
  | false => exact .inr ⟨rfl, fun hlocked => absurd hlocked (by decide)⟩
  | true =>
    rw [if_pos rfl]
    rcases allocLocked_spec hs.lists (Nat.lt_succ_of_le hs.short) size with ⟨hsmall, hnone⟩ |
      ⟨front, b, back, h', l', rfl, -, hle, hrun, -⟩
    · exact .inr ⟨hnone, fun _ => hsmall⟩
    · have hb : b ∈ front ++ b :: back := by simp
      refine .inl ⟨b.addr, h', hrun, hrun, fun hsmall => ?_, b.ne_null, b.aligned, fun u => ?_⟩
      · exact absurd (hsmall rfl b hb) (BitVec.not_lt.mpr hle)
      · exact (hs.free_apart u).mono_left ((range_subset b.addr hle).trans (subset_freeBytes hb))

/-- **The rest of some pages** is freed, whatever other threads did since they were mapped. -/
theorem freeRest_spec (hs : InOrder s l) {sys : System} (hsys : sys.PageSize) (ans : FreeAnswers)
    {page : Nat} {size : SizeT} (own : range page (sys.roundUpPage size) ⊆ s.owned t)
    (aligned : 8 ∣ page) (hlt : roundUp8 size < sys.roundUpPage size) :
    range (page + (roundUp8 size).toNat) (sys.roundUpPage size - roundUp8 size) ⊆
        range page (sys.roundUpPage size) ∧
      ∃ s', backtraceFree sys ans (page + (roundUp8 size).toNat)
          (sys.roundUpPage size - roundUp8 size) s.heap = some s'.heap ∧
        SectionStep (t, freeSection sys ans (page + (roundUp8 size).toNat)
          (sys.roundUpPage size - roundUp8 size)) s s' ∧
        s.owned t \ range page (sys.roundUpPage size) ∪ range page size ⊆ s'.owned t := by
  have hpos : 0 < sys.roundUpPage size :=
    BitVec.lt_def.mpr ((Nat.zero_le _).trans_lt (BitVec.lt_def.mp hlt))
  obtain ⟨hsize, hround, haligned⟩ := hsys.roundUpPage hpos
  have hsub := BitVec.toNat_sub_of_le (BitVec.le_of_lt hlt)
  have hrest : range (page + (roundUp8 size).toNat) (sys.roundUpPage size - roundUp8 size) ⊆
      range page (sys.roundUpPage size) := by
    have := BitVec.lt_def.mp hlt
    rintro x ⟨h1, h2⟩
    rw [hsub] at h2
    exact ⟨by omega, by omega⟩
  obtain ⟨_, s', hrun, hstep, rfl, -⟩ := backtraceFree_spec hs sys ans (hrest.trans own)
    (Nat.dvd_add aligned haligned)
  refine ⟨hrest, s', hrun, hstep, fun x hx => hstep.owned_subset t ?_⟩
  rw [uses_freeSection]
  rcases hx with ⟨hx, hnot⟩ | hx
  · exact ⟨hx, fun hmem => hnot (hrest hmem)⟩
  · have := BitVec.le_def.mp hround
    exact ⟨own (range_subset page hsize hx), fun hmem => by have := hx.2; have := hmem.1; omega⟩

/-- **`backtrace_alloc`** ends. If there is no memory it returns 0, and tells the callback, if there
is one, that `mmap` failed. Otherwise its sections lead to where the thread owns the block that is
returned; nobody owned any of it before, and the sections use nothing the thread owned. -/
theorem backtraceAlloc_spec (hs : InOrder s l) (t : τ) {sys : System} (hsys : sys.PageSize)
    (callback : Bool) {ans : AllocAnswers} {size : SizeT}
    (hmmap : ∀ page, ans.mmap = .ok page → s.Fresh page (sys.roundUpPage size)) :
    (∃ errnum, NoMemory sys ans size l errnum ∧
        backtraceAlloc sys callback ans size s.heap =
          some (0, report callback "mmap" errnum, s.heap)) ∨
      (∀ errnum, ¬ NoMemory sys ans size l errnum) ∧
      ∃ (p : Nat) (s' : Arena τ), backtraceAlloc sys callback ans size s.heap =
        some (p, [], s'.heap) ∧
        Run SectionStep s ((allocSections sys ans size s.heap).map (t, ·)) s' ∧ p ≠ 0 ∧ 8 ∣ p ∧
        (∀ u, Disjoint (range p size) (s.owned u)) ∧ s.owned t ∪ range p size ⊆ s'.owned t ∧
        ∀ a ∈ allocSections sys ans size s.heap, Disjoint a.uses (s.owned t) := by
  unfold backtraceAlloc allocSections
  rcases searchFreelist_cases hs sys ans.lock size with
    ⟨p, h, hfound, hrun, hblock, hp, haligned, hown⟩ | ⟨hnone, hnotFound⟩
  · rw [hfound]
    refine .inr ⟨fun _ hno => hblock hno.1, p, _, rfl, .single (.take hrun), hp, haligned,
      hown, ?_, by
      simp [Section.uses]⟩
    exact (Function.update_self t (s.owned t ∪ range p size) s.owned).symm.subset
  · rw [hnone]
    simp only
    cases hans : ans.mmap with
    | error errnum => exact .inl ⟨errnum, ⟨hnotFound, hans⟩, rfl⟩
    | ok page =>
      refine .inr ⟨fun errnum hno => absurd (hans.symm.trans hno.2) (by simp), ?_⟩
      have fresh := hmmap page hans
      obtain ⟨hs₁, -⟩ := hs.map (t := t) fresh
      have hunowned : ∀ u, Disjoint (range page (sys.roundUpPage size)) (s.owned u) := fun u =>
        fresh.unmapped.mono_right (hs.owned_mapped u)
      have hrange : range page size ⊆ range page (sys.roundUpPage size) :=
        range_subset page (hsys.roundUpPage fresh.pos).1
      have hown := fun u => (hunowned u).mono_left hrange
      have hgiven : s.owned t ∪ range page (sys.roundUpPage size) ⊆ Function.update s.owned t
          (s.owned t ∪ range page (sys.roundUpPage size)) t :=
        (Function.update_self t (s.owned t ∪ range page (sys.roundUpPage size)) s.owned).symm.subset
      simp only
      by_cases hlt : roundUp8 size < sys.roundUpPage size
      · rw [if_pos hlt, if_pos hlt]
        obtain ⟨hrest, s', hrun, hstep, howned⟩ := freeRest_spec hs₁ hsys ans.free
          (Set.subset_union_right.trans hgiven) fresh.aligned hlt
        have hrun' : backtraceFree sys ans.free (page + (roundUp8 size).toNat)
            (sys.roundUpPage size - roundUp8 size) (s.heap.mapPages page (sys.roundUpPage size)) =
              some s'.heap := hrun
        refine ⟨page, s', by rw [hrun', Option.map_some], .cons (.map fresh) (.single hstep),
          fresh.ne_null, fresh.aligned, hown, ?_, ?_⟩
        · refine (Set.union_subset_union_left _ fun x hx => ?_).trans howned
          exact ⟨hgiven (.inl hx), fun hmem => Set.disjoint_left.mp (hunowned t) hmem hx⟩
        · refine List.forall_mem_cons.mpr ⟨Set.empty_disjoint _, List.forall_mem_singleton.mpr ?_⟩
          rw [uses_freeSection]
          exact (hunowned t).mono_left hrest
      · rw [if_neg hlt, if_neg hlt]
        refine ⟨page, _, rfl, .single (.map fresh), fresh.ne_null, fresh.aligned, hown, ?_, by
          simp [Section.uses]⟩
        exact (Set.union_subset_union_right _ hrange).trans hgiven

/-- **Memory is allocated** in whatever arena the threads have led to, unless there is none. -/
theorem run_backtraceAlloc {mem : Nat → Byte} {before : List (τ × Section)}
    (hbefore : Run SectionStep (Arena.start mem) before s) (t : τ) {sys : System}
    (hsys : sys.PageSize)
    (callback : Bool) {ans : AllocAnswers} {size : SizeT}
    (hmmap : ∀ page, ans.mmap = .ok page → s.Fresh page (sys.roundUpPage size)) :
    ∃ l, InOrder s l ∧
      ((∃ errnum, NoMemory sys ans size l errnum ∧ backtraceAlloc sys callback ans size s.heap =
          some (0, report callback "mmap" errnum, s.heap)) ∨
        (∀ errnum, ¬ NoMemory sys ans size l errnum) ∧
        ∃ (p : Nat) (s' : Arena τ),
          backtraceAlloc sys callback ans size s.heap = some (p, [], s'.heap) ∧
          Run SectionStep s ((allocSections sys ans size s.heap).map (t, ·)) s' ∧ p ≠ 0 ∧ 8 ∣ p ∧
          (∀ u, Disjoint (range p size) (s.owned u)) ∧ s.owned t ∪ range p size ⊆ s'.owned t ∧
          ∀ x ∈ s.owned t, s'.heap.mem x = s.heap.mem x) := by
  obtain ⟨l, hs⟩ := run_inOrder hbefore
  refine ⟨l, hs, (backtraceAlloc_spec hs t hsys callback hmmap).imp_right ?_⟩
  rintro ⟨hmemory, p, s', hrun, hsteps, hp, haligned, hown, howned, huses⟩
  exact ⟨hmemory, p, s', hrun, hsteps, hp, haligned, hown, howned,
    (hs.keeps hsteps subset_rfl (spare_map huses t)).2⟩

/-- The first call for 100 bytes: a page is mapped, and the rest of it freed. -/
theorem run_backtraceAlloc_first :
    let s : Arena Unit := .start fun _ => 0
    let sys : System := ⟨4096, false⟩
    let ans : AllocAnswers := ⟨true, .ok 0x1000, ⟨true, true⟩⟩
    ∃ l, InOrder s l ∧
      ((∃ errnum, NoMemory sys ans 100 l errnum ∧ backtraceAlloc sys true ans 100 s.heap =
          some (0, report true "mmap" errnum, s.heap)) ∨
        (∀ errnum, ¬ NoMemory sys ans 100 l errnum) ∧
        ∃ (p : Nat) (s' : Arena Unit),
          backtraceAlloc sys true ans 100 s.heap = some (p, [], s'.heap) ∧
          Run SectionStep s ((allocSections sys ans 100 s.heap).map ((), ·)) s' ∧ p ≠ 0 ∧ 8 ∣ p ∧
          (∀ u, Disjoint (range p 100) (s.owned u)) ∧ s.owned () ∪ range p 100 ⊆ s'.owned () ∧
          ∀ x ∈ s.owned (), s'.heap.mem x = s.heap.mem x) := by
  intro s sys ans
  refine run_backtraceAlloc (.nil _) () ⟨12, by decide, by decide, rfl⟩ true fun page hpage => ?_
  obtain rfl : 0x1000 = page := Except.ok.inj hpage
  exact ⟨by decide, by decide, by decide, by decide, Set.disjoint_empty _⟩

end Calls

end Arena

end Bktce.Libbacktrace
