import Bktce.Libbacktrace.Buf
import Bktce.Libbacktrace.LineSort
import Bktce.Lib.Search

/-!
# Symbols

Model of `elf_symbol_compare`, `elf_symbol_search`, `elf_initialize_syminfo`, `elf_add_syminfo_data`
and `elf_syminfo` (`elf.c:549-761`), behind `backtrace_syminfo`. The functions and objects of each
symbol table are sorted by address, and an address is looked for in one table after the other.

* Pointers to names are numbers: `strtab + st_name`, and 0 for `NULL`.
* The integers of a table are in the order of the machine, the lowest byte first.
* The descriptors of PowerPC64 (`opd`) are left out.

Results:

* `elfInitializeSyminfo_error_iff`: a table is refused exactly if a function or object of it has a
  name outside of the string table.
* `syminfo_modules`: **the symbol that has an address is found**, in the first module that has one,
  if symbols are not empty and do not overlap, aliases apart. No symbol is reported only if there is
  none.
* `syminfo_missed`: but an empty symbol in the middle of a table hides what is before it.
-/

namespace Bktce.Libbacktrace

open Bktce.Lib

/-! ## Symbol tables -/

/-- `b_elf_sym`, without `st_other`. -/
structure ElfSym where
  stName : BitVec 32
  stInfo : BitVec 8
  stShndx : BitVec 16
  stValue : BitVec 64
  stSize : BitVec 64

/-- An integer of `n` bytes, `offset` bytes on. -/
def symField (w offset n : Nat) (bytes : List Byte) : BitVec w :=
  joinBytes w ((bytes.drop offset).take n).reverse

/-- `*sym`. -/
def ElfSym.ofBytes (bytes : List Byte) : ElfSym where
  stName := symField 32 0 4 bytes
  stInfo := symField 8 4 1 bytes
  stShndx := symField 16 6 2 bytes
  stValue := symField 64 8 8 bytes
  stSize := symField 64 16 8 bytes

/-- The `symtab_size / sizeof (b_elf_sym)` entries of a symbol table. -/
def elfSyms (symtab : List Byte) : List ElfSym :=
  (List.range (symtab.length / 24)).map fun i => ElfSym.ofBytes (symtab.drop (24 * i))

def sttObject : CInt := 1

def sttFunc : CInt := 2

def shnUndef : BitVec 16 := 0

/-- `sym->st_info & 0xf`. -/
def ElfSym.info (sym : ElfSym) : CInt := sym.stInfo.setWidth 32 &&& 0xf

/-- `struct elf_symbol`. -/
structure ElfSymbol where
  name : UIntPtr
  address : UIntPtr
  size : SizeT
deriving DecidableEq

/-- `elf_symbol_compare`. -/
def elfSymbolCompare (e1 e2 : ElfSymbol) : Ordering :=
  if e1.address < e2.address then .lt
  else if e1.address > e2.address then .gt
  else .eq

/-- `elf_symbol_search`. -/
def elfSymbolSearch (addr : UIntPtr) (entry : ElfSymbol) : Ordering :=
  if addr < entry.address then .lt
  else if addr ≥ entry.address + entry.size then .gt
  else .eq

/-- The first loop of `elf_initialize_syminfo`. -/
def countSymbols (syms : List ElfSym) : Nat :=
  syms.foldl (fun count sym =>
    if (sym.info == sttFunc || sym.info == sttObject) && sym.stShndx != shnUndef then count + 1
    else count) 0

/-- The second loop: `elf_symbols`, as far as they are filled, or the error. -/
def fillSymbols (baseAddress strtab : UIntPtr) (strtabSize : SizeT) :
    List ElfSym → List ElfSymbol → Except (String × CInt) (List ElfSymbol)
  | [], elfSymbols => .ok elfSymbols
  | sym :: syms, elfSymbols =>
    if sym.info != sttFunc && sym.info != sttObject then
      fillSymbols baseAddress strtab strtabSize syms elfSymbols
    else if sym.stShndx == shnUndef then fillSymbols baseAddress strtab strtabSize syms elfSymbols
    else if sym.stName.setWidth 64 ≥ strtabSize then .error ("symbol string index out of range", 0)
    else
      fillSymbols baseAddress strtab strtabSize syms
        (elfSymbols ++ [⟨strtab + sym.stName.setWidth 64, sym.stValue + baseAddress, sym.stSize⟩])

/-- The sections of a module that `elf_initialize_syminfo` is given, and where the module is. -/
structure SymTable where
  baseAddress : UIntPtr
  symtab : List Byte
  strtab : UIntPtr
  strtabSize : SizeT

/-- `elf_initialize_syminfo`. -/
def elfInitializeSyminfo (m : SymTable) : Except (String × CInt) (List ElfSymbol) :=
  (fillSymbols m.baseAddress m.strtab m.strtabSize (elfSyms m.symtab) []).map fun elfSymbols =>
    (backtraceQsort elfSymbolCompare (elfSymbols.take (countSymbols (elfSyms m.symtab)))).1

/-- `elf_add_syminfo_data`. -/
def elfAddSyminfoData (syminfoData : List (List ElfSymbol)) (edata : List ElfSymbol) :
    List (List ElfSymbol) := syminfoData ++ [edata]

/-- The symbols of some modules, one added after the other. -/
def addSymTables (ms : List SymTable) : Except (String × CInt) (List (List ElfSymbol)) :=
  ms.foldlM (fun syminfoData m => (elfInitializeSyminfo m).map (elfAddSyminfoData syminfoData)) []

/-- The loop of `elf_syminfo`. -/
def findSymbol (addr : UIntPtr) : List (List ElfSymbol) → Option ElfSymbol
  | [] => none
  | symbols :: rest =>
    match Search.bsearch (fun i => (symbols[i]?.map (elfSymbolSearch addr)).getD .lt)
      symbols.length with
    | some i => symbols[i]?
    | none => findSymbol addr rest

/-- `elf_syminfo`: what the callback gets, `addr`, the name, the address and the size of the
symbol. -/
def elfSyminfo (addr : UIntPtr) (syminfoData : List (List ElfSymbol)) :
    UIntPtr × UIntPtr × UIntPtr × SizeT :=
  match findSymbol addr syminfoData with
  | none => (addr, 0, 0, 0)
  | some sym => (addr, sym.name, sym.address, sym.size)

/-! ## Both loops -/

/-- A function or object that is defined. -/
def ElfSym.Kept (sym : ElfSym) : Prop :=
  (sym.info = sttFunc ∨ sym.info = sttObject) ∧ sym.stShndx ≠ shnUndef

instance (sym : ElfSym) : Decidable sym.Kept := inferInstanceAs (Decidable (_ ∧ _))

namespace SymTable

variable (m : SymTable)

/-- The functions and objects of a module. -/
def kept : List ElfSym := (elfSyms m.symtab).filter fun sym => decide sym.Kept

/-- What is kept of a function or object. -/
def symbol (sym : ElfSym) : ElfSymbol :=
  ⟨m.strtab + sym.stName.setWidth 64, sym.stValue + m.baseAddress, sym.stSize⟩

/-- The symbols of a module. -/
def symbols : List ElfSymbol := m.kept.map m.symbol

/-- The names of functions and objects are in the string table. -/
def Named : Prop := ∀ sym ∈ m.kept, sym.stName.toNat < m.strtabSize.toNat

end SymTable

theorem countSymbols_eq (syms : List ElfSym) :
    countSymbols syms = (syms.filter fun sym => decide sym.Kept).length := by
  have hcond : ∀ sym : ElfSym, ((sym.info == sttFunc || sym.info == sttObject) &&
      sym.stShndx != shnUndef) = decide sym.Kept := fun sym => by
    rw [Bool.eq_iff_iff, decide_eq_true_eq]
    simp [ElfSym.Kept]
  rw [countSymbols, ← List.countP_eq_length_filter]
  simp only [hcond]
  suffices h : ∀ n, syms.foldl (fun count sym => if decide sym.Kept then count + 1 else count) n =
      n + syms.countP fun sym => decide sym.Kept from (h 0).trans (Nat.zero_add _)
  induction syms with
  | nil => exact fun n => rfl
  | cons sym syms ih =>
    intro n
    rw [List.foldl_cons, ih, List.countP_cons]
    split_ifs <;> omega

/-- **The second loop** fills in what the first one counted, unless a name is out of range. -/
theorem fillSymbols_spec (m : SymTable) (syms : List ElfSym) : ∀ elfSymbols,
    (∀ sym ∈ syms, sym.Kept → sym.stName.toNat < m.strtabSize.toNat) ∧
        fillSymbols m.baseAddress m.strtab m.strtabSize syms elfSymbols =
          .ok (elfSymbols ++ (syms.filter fun sym => decide sym.Kept).map m.symbol) ∨
      (∃ sym ∈ syms, sym.Kept ∧ m.strtabSize.toNat ≤ sym.stName.toNat) ∧
        fillSymbols m.baseAddress m.strtab m.strtabSize syms elfSymbols =
          .error ("symbol string index out of range", 0) := by
  induction syms with
  | nil => exact fun elfSymbols => .inl ⟨by simp, by simp [fillSymbols]⟩
  | cons sym syms ih =>
    intro elfSymbols
    by_cases hkept : sym.Kept
    · have hinfo : (sym.info != sttFunc && sym.info != sttObject) = false := by
        rcases hkept.1 with h | h <;> simp [h]
      have hdefined : (sym.stShndx == shnUndef) = false := by simpa using hkept.2
      have hname : sym.stName.setWidth 64 ≥ m.strtabSize ↔
          m.strtabSize.toNat ≤ sym.stName.toNat := by
        have := sym.stName.isLt
        rw [ge_iff_le, BitVec.le_def, BitVec.toNat_setWidth, Nat.mod_eq_of_lt (by omega)]
      rw [fillSymbols, if_neg (by simp [hinfo]), if_neg (by simp [hdefined])]
      by_cases hrange : sym.stName.setWidth 64 ≥ m.strtabSize
      · rw [if_pos hrange]
        exact .inr ⟨⟨sym, List.mem_cons_self, hkept, hname.mp hrange⟩, rfl⟩
      · rw [if_neg hrange]
        refine (ih _).imp (fun ⟨hall, heq⟩ => ⟨?_, ?_⟩) fun ⟨⟨c, hc, hbad⟩, heq⟩ =>
          ⟨⟨c, List.mem_cons_of_mem _ hc, hbad⟩, heq⟩
        · exact List.forall_mem_cons.mpr
            ⟨fun _ => Nat.lt_of_not_le fun hle => hrange (hname.mpr hle), hall⟩
        · rw [heq, List.filter_cons_of_pos (by simpa using hkept), List.map_cons, List.append_assoc]
          rfl
    · have hskip : fillSymbols m.baseAddress m.strtab m.strtabSize (sym :: syms) elfSymbols =
          fillSymbols m.baseAddress m.strtab m.strtabSize syms elfSymbols := by
        rw [fillSymbols]
        split_ifs with h1 h2
        · rfl
        · rfl
        all_goals
          refine absurd ⟨?_, by simpa using h2⟩ hkept
          simpa [or_iff_not_imp_left] using h1
      rw [hskip, List.filter_cons_of_neg (by simpa using hkept)]
      refine (ih elfSymbols).imp (fun ⟨hall, heq⟩ => ⟨?_, heq⟩) fun ⟨⟨c, hc, hbad⟩, heq⟩ =>
        ⟨⟨c, List.mem_cons_of_mem _ hc, hbad⟩, heq⟩
      exact List.forall_mem_cons.mpr ⟨fun h => absurd h hkept, hall⟩

/-- **A module is refused** exactly if the name of a function or object is outside of its string
table. -/
theorem elfInitializeSyminfo_error_iff (m : SymTable) : elfInitializeSyminfo m =
    .error ("symbol string index out of range", 0) ↔ ¬ m.Named := by
  have hnamed : m.Named ↔
      ∀ sym ∈ elfSyms m.symtab, sym.Kept → sym.stName.toNat < m.strtabSize.toNat := by
    simp [SymTable.Named, SymTable.kept]
  rw [hnamed, elfInitializeSyminfo]
  rcases fillSymbols_spec m (elfSyms m.symtab) [] with ⟨hall, heq⟩ | ⟨⟨sym, hsym, hkept, hbad⟩, heq⟩
  · rw [heq]
    exact iff_of_false (fun h => by cases h) fun h => h hall
  · rw [heq]
    exact iff_of_true rfl fun h => absurd (h sym hsym hkept) (Nat.not_lt.mpr hbad)

theorem elfInitializeSyminfo_eq {m : SymTable} (h : m.Named) :
    elfInitializeSyminfo m = .ok (backtraceQsort elfSymbolCompare m.symbols).1 := by
  have hlen : m.symbols.length = countSymbols (elfSyms m.symtab) := by
    rw [SymTable.symbols, List.length_map, countSymbols_eq, SymTable.kept]
  rcases fillSymbols_spec m (elfSyms m.symtab) [] with ⟨-, heq⟩ | ⟨⟨sym, hsym, hkept, hbad⟩, -⟩
  · rw [elfInitializeSyminfo, heq, List.nil_append, ← hlen]
    exact congrArg (fun v => Except.ok (backtraceQsort elfSymbolCompare v).1) (List.take_length)
  · have hmem : sym ∈ m.kept := List.mem_filter.mpr ⟨hsym, by simpa using hkept⟩
    exact absurd (h sym hmem) (Nat.not_lt.mpr hbad)

/-! ## Searching -/

theorem elfSymbolCompare_gt_iff (a b : ElfSymbol) :
    (elfSymbolCompare a b == .gt) = true ↔ b.address < a.address := by
  unfold elfSymbolCompare
  split_ifs with h1 h2
  · have := BitVec.lt_def.mp h1
    simp [BitVec.le_of_lt h1]
  · simpa using h2
  · simpa using h2

theorem elfSymbolCompare_order : Quicksort.Order fun a b => elfSymbolCompare a b == .gt where
  asymm a b h := by
    rw [elfSymbolCompare_gt_iff] at h
    rw [← Bool.not_eq_true, elfSymbolCompare_gt_iff]
    exact BitVec.not_lt.mpr (BitVec.le_of_lt h)
  trans a b c hab hbc := by
    rw [← Bool.not_eq_true, elfSymbolCompare_gt_iff, BitVec.not_lt] at *
    exact BitVec.le_trans hab hbc

theorem sorted_qsort (v : List ElfSymbol) :
    (backtraceQsort elfSymbolCompare v).1.Pairwise fun a b => a.address ≤ b.address :=
  (Quicksort.qsort_sorted elfSymbolCompare_order v.length v (le_refl _)).imp fun {a b} h => by
    rw [← Bool.not_eq_true, elfSymbolCompare_gt_iff] at h
    exact BitVec.not_lt.mp h

namespace ElfSymbol

/-- The symbol has the address. -/
def Has (sym : ElfSymbol) (addr : UIntPtr) : Prop :=
  sym.address.toNat ≤ addr.toNat ∧ addr.toNat < sym.address.toNat + sym.size.toNat

/-- One symbol ends before the other begins, or they are aliases. -/
def Apart (a b : ElfSymbol) : Prop :=
  a.address.toNat + a.size.toNat ≤ b.address.toNat ∨
    b.address.toNat + b.size.toNat ≤ a.address.toNat ∨
    a.address = b.address ∧ a.size = b.size

theorem Apart.symm {a b : ElfSymbol} (h : Apart a b) : Apart b a := by
  rcases h with h | h | ⟨haddr, hsize⟩
  · exact .inr (.inl h)
  · exact .inl h
  · exact .inr (.inr ⟨haddr.symm, hsize.symm⟩)

end ElfSymbol

/-- The symbols are not empty, end inside of the address space, and do not overlap. -/
structure Orderly (v : List ElfSymbol) : Prop where
  pos : ∀ a ∈ v, 0 < a.size.toNat
  fits : ∀ a ∈ v, a.address.toNat + a.size.toNat < 2 ^ 64
  apart : v.Pairwise ElfSymbol.Apart

theorem Orderly.perm {v v' : List ElfSymbol} (h : Orderly v) (hperm : v'.Perm v) : Orderly v' where
  pos a ha := h.pos a (hperm.mem_iff.mp ha)
  fits a ha := h.fits a (hperm.mem_iff.mp ha)
  apart := (hperm.pairwise_iff fun hab => hab.symm).mpr h.apart

section Search

variable {addr : UIntPtr} {sym : ElfSymbol}

theorem elfSymbolSearch_lt_iff :
    elfSymbolSearch addr sym = .lt ↔ addr.toNat < sym.address.toNat := by
  rw [← BitVec.lt_def]
  unfold elfSymbolSearch
  split_ifs with h1 h2 <;> simp [h1]

theorem elfSymbolSearch_eq_iff (hfits : sym.address.toNat + sym.size.toNat < 2 ^ 64) :
    elfSymbolSearch addr sym = .eq ↔ sym.Has addr := by
  have hend : (sym.address + sym.size).toNat = sym.address.toNat + sym.size.toNat :=
    BitVec.toNat_add_of_lt hfits
  unfold elfSymbolSearch ElfSymbol.Has
  split_ifs with h1 h2
  · exact iff_of_false (fun h => by cases h) fun h =>
      absurd h.1 (Nat.not_le.mpr (BitVec.lt_def.mp h1))
  · have := BitVec.le_def.mp h2
    exact iff_of_false (fun h => by cases h) fun h => absurd h.2 (by omega)
  · have h1' := BitVec.le_def.mp (BitVec.not_lt.mp h1)
    have h2' := BitVec.lt_def.mp (BitVec.not_le.mp h2)
    exact iff_of_true rfl ⟨h1', hend ▸ h2'⟩

theorem elfSymbolSearch_gt_iff (hfits : sym.address.toNat + sym.size.toNat < 2 ^ 64) :
    elfSymbolSearch addr sym = .gt ↔ sym.address.toNat + sym.size.toNat ≤ addr.toNat := by
  have hlt := @elfSymbolSearch_lt_iff addr sym
  have heq := @elfSymbolSearch_eq_iff addr sym hfits
  unfold ElfSymbol.Has at heq
  cases hcmp : elfSymbolSearch addr sym with
  | lt => have := hlt.mp hcmp; exact iff_of_false (fun h => by cases h) (by omega)
  | eq => have := heq.mp hcmp; exact iff_of_false (fun h => by cases h) (by omega)
  | gt =>
    refine iff_of_true rfl ?_
    have hnlt : ¬ addr.toNat < sym.address.toNat := fun h => by cases hcmp.symm.trans (hlt.mpr h)
    have hneq : ¬ (sym.address.toNat ≤ addr.toNat ∧
      addr.toNat < sym.address.toNat + sym.size.toNat) := fun h => by
        cases hcmp.symm.trans (heq.mpr h)
    omega

/-- **The search** of an orderly table finds a symbol that has the address, if there is one. -/
theorem bsearch_symbols {t : List ElfSymbol} (ht : Orderly t)
    (hsorted : t.Pairwise fun a b => a.address ≤ b.address) (addr : UIntPtr) :
    match Search.bsearch (fun i => (t[i]?.map (elfSymbolSearch addr)).getD .lt) t.length with
    | some i => ∃ sym, t[i]? = some sym ∧ sym.Has addr
    | none => ∀ sym ∈ t, ¬ sym.Has addr := by
  have hfits := ht.fits
  have hpair : t.Pairwise fun a b => a ∈ t ∧ b ∈ t ∧ a.address ≤ b.address ∧ a.Apart b :=
    List.Pairwise.and_mem.mp (hsorted.and ht.apart)
  have hordered : Search.Ordered (fun i => (t[i]?.map (elfSymbolSearch addr)).getD .lt)
      t.length := by
    refine Search.ordered_of_pairwise (hpair.imp fun {a b} h => ?_) (hpair.imp fun {a b} h => ?_)
    · rw [elfSymbolSearch_lt_iff, elfSymbolSearch_lt_iff]
      exact fun hlt => hlt.trans_le (BitVec.le_def.mp h.2.2.1)
    · obtain ⟨ha, hb, hle, hapart⟩ := h
      rw [elfSymbolSearch_gt_iff (hfits a ha), elfSymbolSearch_gt_iff (hfits b hb)]
      intro hend
      -- `b` is not empty, so `a` is the one that ends before the other begins, unless they are
      -- aliases
      have hpos := ht.pos b hb
      have hle := BitVec.le_def.mp hle
      rcases hapart with h | h | ⟨haddr, hsize⟩
      · omega
      · omega
      · rw [haddr, hsize]
        exact hend
  cases hfind : Search.bsearch (fun i => (t[i]?.map (elfSymbolSearch addr)).getD .lt) t.length with
  | some i =>
    obtain ⟨hi, heq⟩ := Search.bsearch_sound hfind
    rw [List.getElem?_eq_getElem hi] at heq
    exact ⟨t[i], List.getElem?_eq_getElem hi,
      (elfSymbolSearch_eq_iff (hfits _ (List.getElem_mem hi))).mp heq⟩
  | none =>
    intro sym hsym hhas
    obtain ⟨j, hj, rfl⟩ := List.getElem_of_mem hsym
    have heq : ((t[j]?.map (elfSymbolSearch addr)).getD .lt) = .eq := by
      rw [List.getElem?_eq_getElem hj]
      exact (elfSymbolSearch_eq_iff (hfits _ hsym)).mpr hhas
    have hsome := Search.bsearch_complete hordered hj heq
    rw [hfind] at hsome
    cases hsome

/-- **An empty symbol in the middle** of a table hides the symbols before it. -/
theorem syminfo_missed {t : List ElfSymbol} (hmid : t[t.length / 2]? = some sym)
    (hempty : sym.size = 0)
    (hle : sym.address ≤ addr)
    (hbehind : ∀ j behind, t.length / 2 < j → t[j]? = some behind → addr < behind.address) :
    elfSyminfo addr [t] = (addr, 0, 0, 0) := by
  have hgt : elfSymbolSearch addr sym = .gt := by
    have hend : sym.address + sym.size = sym.address := hempty ▸ BitVec.add_zero _
    rw [elfSymbolSearch, if_neg (BitVec.not_lt.mpr hle), hend, if_pos hle]
  have hnone : Search.bsearch (fun i => (t[i]?.map (elfSymbolSearch addr)).getD .lt) t.length =
      none := by
    by_contra hne
    obtain ⟨i, hfind⟩ := Option.ne_none_iff_exists'.mp hne
    obtain ⟨hi, heq⟩ := Search.bsearch_sound hfind
    have hlt := Search.bsearch_gt (by rw [hmid]; exact hgt) hfind
    have hafter := hbehind i t[i] hlt (List.getElem?_eq_getElem hi)
    rw [List.getElem?_eq_getElem hi] at heq
    cases heq.symm.trans (elfSymbolSearch_lt_iff.mpr (BitVec.lt_def.mp hafter))
  rw [elfSyminfo, findSymbol, hnone]
  rfl

/-- A module with the symbols of some bytes, at 0. -/
def bareModule (symtab : List Byte) : SymTable := ⟨0, symtab, 0x1000, 16⟩

/-- A label, and a function of 16 bytes that begins at it. -/
def labelBytes : List Byte :=
  [5, 0, 0, 0, 2, 0, 1, 0, 0x10, 0, 0, 0, 0, 0, 0, 0, 0, 0, 0, 0, 0, 0, 0, 0,
   1, 0, 0, 0, 2, 0, 1, 0, 0x10, 0, 0, 0, 0, 0, 0, 0, 0x10, 0, 0, 0, 0, 0, 0, 0]

theorem syminfo_missed_label : ∃ sym t, sym ∈ (bareModule labelBytes).symbols ∧ sym.Has 0x15 ∧
    addSymTables [bareModule labelBytes] = .ok [t] ∧ elfSyminfo 0x15 [t] = (0x15, 0, 0, 0) := by
  have hsymbols : (bareModule labelBytes).symbols = [⟨0x1005, 0x10, 0⟩, ⟨0x1001, 0x10, 0x10⟩] := by
    decide
  have htable : addSymTables [bareModule labelBytes] =
      .ok [[⟨0x1001, 0x10, 0x10⟩, ⟨0x1005, 0x10, 0⟩]] := by rfl
  refine ⟨⟨0x1001, 0x10, 0x10⟩, _, ?_, ⟨by decide, by decide⟩, htable, ?_⟩
  · rw [hsymbols]
    exact List.mem_cons_of_mem _ List.mem_cons_self
  · exact @syminfo_missed _ ⟨0x1005, 0x10, 0⟩ _ rfl rfl (by decide) fun j behind hj hget => by
      rw [List.getElem?_eq_none (show 2 ≤ j from hj)] at hget
      cases hget

end Search

/-! ## Modules -/

/-- The names are in the string table, and the symbols are orderly. -/
structure SymTable.Valid (m : SymTable) : Prop where
  named : m.Named
  orderly : Orderly m.symbols

/-- The sorted symbols of a module. -/
def SymTable.table (m : SymTable) : List ElfSymbol := (backtraceQsort elfSymbolCompare m.symbols).1

theorem SymTable.table_perm (m : SymTable) : m.table.Perm m.symbols := Quicksort.qsort_perm _ _ _

theorem addSymTables_eq {ms : List SymTable} (h : ∀ m ∈ ms, m.Named) :
    addSymTables ms = .ok (ms.map SymTable.table) := by
  suffices hfold : ∀ syminfoData, ms.foldlM (fun syminfoData m =>
      (elfInitializeSyminfo m).map (elfAddSyminfoData syminfoData)) syminfoData =
        (.ok (syminfoData ++ ms.map SymTable.table) : Except (String × CInt) _) from hfold []
  induction ms with
  | nil => exact fun syminfoData => by rw [List.map_nil, List.append_nil]; rfl
  | cons m ms ih =>
    intro syminfoData
    rw [List.forall_mem_cons] at h
    rw [List.foldlM_cons, elfInitializeSyminfo_eq h.1, List.map_cons]
    refine (ih h.2 _).trans ?_
    rw [elfAddSyminfoData, List.append_assoc]
    rfl

/-- The tables are searched one after the other. -/
theorem findSymbol_modules {ms : List SymTable} (hms : ∀ m ∈ ms, Orderly m.symbols)
    (addr : UIntPtr) :
    (∃ front m back sym, ms = front ++ m :: back ∧
        (∀ m' ∈ front, ∀ sym ∈ m'.symbols, ¬ sym.Has addr) ∧ sym ∈ m.symbols ∧ sym.Has addr ∧
        findSymbol addr (ms.map SymTable.table) = some sym) ∨
      (∀ m ∈ ms, ∀ sym ∈ m.symbols, ¬ sym.Has addr) ∧
        findSymbol addr (ms.map SymTable.table) = none := by
  induction ms with
  | nil => exact .inr ⟨by simp, rfl⟩
  | cons m ms ih =>
    rw [List.forall_mem_cons] at hms
    have hsearch := bsearch_symbols (hms.1.perm m.table_perm) (sorted_qsort m.symbols) addr
    rw [List.map_cons, findSymbol]
    cases hfind : Search.bsearch (fun i => (m.table[i]?.map (elfSymbolSearch addr)).getD .lt)
      m.table.length with
    | some i =>
      rw [hfind] at hsearch
      obtain ⟨sym, hget, hhas⟩ := hsearch
      refine .inl ⟨[], m, ms, sym, rfl, by simp, ?_, hhas, hget⟩
      exact m.table_perm.mem_iff.mp (List.mem_of_getElem? hget)
    | none =>
      rw [hfind] at hsearch
      have hnone : ∀ sym ∈ m.symbols, ¬ sym.Has addr := fun sym hsym =>
        hsearch sym (m.table_perm.mem_iff.mpr hsym)
      rcases ih hms.2 with ⟨front, m', back, sym, rfl, hfront, hmem, hhas, hfound⟩ | ⟨hall, hfound⟩
      · exact .inl ⟨m :: front, m', back, sym, rfl, List.forall_mem_cons.mpr ⟨hnone, hfront⟩, hmem,
          hhas, hfound⟩
      · exact .inr ⟨List.forall_mem_cons.mpr ⟨hnone, hall⟩, hfound⟩

/-- **The symbol that has an address is found**, in the first module that has one. -/
theorem syminfo_modules {ms : List SymTable} (hms : ∀ m ∈ ms, m.Valid) (addr : UIntPtr) :
    ∃ syminfoData, addSymTables ms = .ok syminfoData ∧
      ((∃ front m back sym, ms = front ++ m :: back ∧
          (∀ m' ∈ front, ∀ sym ∈ m'.symbols, ¬ sym.Has addr) ∧ sym ∈ m.symbols ∧ sym.Has addr ∧
          elfSyminfo addr syminfoData = (addr, sym.name, sym.address, sym.size)) ∨
        (∀ m ∈ ms, ∀ sym ∈ m.symbols, ¬ sym.Has addr) ∧
          elfSyminfo addr syminfoData = (addr, 0, 0, 0)) := by
  refine ⟨_, addSymTables_eq fun m hm => (hms m hm).named, ?_⟩
  rcases findSymbol_modules (fun m hm => (hms m hm).orderly) addr with
    ⟨front, m, back, sym, heq, hfront, hmem, hhas, hfound⟩ | ⟨hall, hfound⟩
  · exact .inl ⟨front, m, back, sym, heq, hfront, hmem, hhas, by rw [elfSyminfo, hfound]⟩
  · exact .inr ⟨hall, by rw [elfSyminfo, hfound]⟩

/-- A function of 16 bytes, and an object of 8 behind it. -/
def functionBytes : List Byte :=
  [5, 0, 0, 0, 1, 0, 1, 0, 0x20, 0, 0, 0, 0, 0, 0, 0, 8, 0, 0, 0, 0, 0, 0, 0,
   1, 0, 0, 0, 2, 0, 1, 0, 0x10, 0, 0, 0, 0, 0, 0, 0, 0x10, 0, 0, 0, 0, 0, 0, 0]

theorem syminfo_modules_function : ∃ syminfoData,
    addSymTables [bareModule functionBytes] = .ok syminfoData ∧
      elfSyminfo 0x15 syminfoData = (0x15, 0x1001, 0x10, 0x10) := by
  have hkept : (bareModule functionBytes).kept.map ElfSym.stName = [5, 1] := by decide
  have hsymbols : (bareModule functionBytes).symbols =
      [⟨0x1005, 0x20, 8⟩, ⟨0x1001, 0x10, 0x10⟩] := by
    decide
  have hvalid : (bareModule functionBytes).Valid := by
    refine ⟨fun sym hsym => ?_, ?_⟩
    · have hname := List.mem_map_of_mem (f := ElfSym.stName) hsym
      rw [hkept] at hname
      rcases List.mem_pair.mp hname with h | h <;> rw [h] <;> decide
    · rw [hsymbols]
      refine ⟨by decide, by decide, List.pairwise_pair.mpr (.inr (.inl (by decide)))⟩
  obtain ⟨syminfoData, hadd, hfound⟩ := syminfo_modules (List.forall_mem_singleton.mpr hvalid) 0x15
  refine ⟨syminfoData, hadd, ?_⟩
  rcases hfound with ⟨front, m, back, sym, hms, -, hmem, hhas, hreport⟩ | ⟨hnone, -⟩
  · obtain ⟨rfl, rfl, rfl⟩ : front = [] ∧ m = bareModule functionBytes ∧ back = [] := by
      simpa [List.cons_eq_append_iff] using hms
    rw [hsymbols] at hmem
    rcases List.mem_pair.mp hmem with rfl | rfl
    · exact absurd hhas.1 (by decide)
    · exact hreport
  · refine absurd ⟨by decide, by decide⟩ (hnone _ List.mem_cons_self ⟨0x1001, 0x10, 0x10⟩ ?_)
    rw [hsymbols]
    exact List.mem_cons_of_mem _ List.mem_cons_self

end Bktce.Libbacktrace
