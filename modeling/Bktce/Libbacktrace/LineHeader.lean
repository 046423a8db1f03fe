import Bktce.Libbacktrace.LineProgram

/-!
# Reading the header of a line number program

Model of `read_line_header` (`dwarf.c:1582-1743`) and of `leb128_len` (`dwarf.c:621-633`).

* The header is read through a copy of the buffer that ends where the header ends
  (`throughCopy`). Both report to one callback.
* The directories and the file names are counted first, then there is memory for so many, and then
  they are read. Writing behind that memory is undefined, and so is the use of an entry that was not
  written.
* Counting stops at the end of the header, but the loops that read look at the byte behind it, and
  if that is not zero they begin another entry. A file entry is not written before it is known to
  end in the header; a directory is.

Results:

* `accepts_readLineHeader`: on the bytes of a header the reader returns its fields, and leaves the
  buffer behind the header.
* `readDirs_fault_iff`: when reading the directories does something undefined.
* `readLineHeader_program`: when the program behind a header that is accepted does not.
-/

namespace Bktce.Libbacktrace

open Bktce.Lib Buf

/-- The first byte behind a pointer. -/
def derefByte : List Byte → Read Byte
  | [] => throw .fault
  | b :: _ => return b

/-- `leb128_len`. -/
def leb128Len : List Byte → Read Nat
  | [] => throw .fault
  | b :: p => if b &&& 0x80 ≠ 0 then return (← leb128Len p) + 1 else return 1

/-- Count the entries from `p` on: `avail` bytes belong to the header, and `entryLen` is the length
of an entry behind its string. Every entry has a byte at least, so `avail` turns are enough. -/
def countEntries (entryLen : List Byte → Read Nat) : Nat → List Byte → Nat → Read Nat
  | 0, _, _ => throw .fault
  | fuel + 1, p, avail => do
    if avail = 0 then return 0
    if (← derefByte p) = 0 then return 0
    let len ← strnlen p (BitVec.ofNat 64 avail)
    let more ← entryLen (p.drop (len.toNat + 1))
    let n ← countEntries entryLen fuel (p.drop (len.toNat + 1 + more))
      (avail - (len.toNat + 1 + more))
    return n + 1

/-- The length of the three numbers of a file entry. -/
def fileNumbersLen (p : List Byte) : Read Nat := do
  let n₁ ← leb128Len p
  let n₂ ← leb128Len (p.drop n₁)
  let n₃ ← leb128Len (p.drop (n₁ + n₂))
  return n₁ + n₂ + n₃

/-- Count the directory entries. -/
def countDirs (buf : Buf) : Read Nat :=
  countEntries (fun _ => return 0) (buf.left.toNat + 1) buf.rest buf.left.toNat

/-- Count the file entries. -/
def countFilenames (buf : Buf) : Read Nat :=
  countEntries fileNumbersLen (buf.left.toNat + 1) buf.rest buf.left.toNat

/-- Read entries up to a zero byte; `entry i` reads one and writes it to position `i` of its array.
An entry consumes a byte or fails, so the length of the section is enough fuel. -/
def readEntries (entry : Nat → Read String) : Nat → List String → Read (List String)
  | 0, _ => throw .fault
  | fuel + 1, entries => do
    let buf ← get
    if (← derefByte buf.rest) = 0 then return entries
    if buf.reportedUnderflow then throw .failed
    let e ← entry entries.length
    readEntries entry fuel (entries ++ [e])

/-- Read a directory entry. It is written before it is known to end in the header. -/
def readDir (count i : Nat) : Read String := do
  writeEntry count i
  readString

/-- The name of a file entry. The directory of an invalid index is an error of the whole buffer. -/
def entryName (u : LineUnit) (lineBuf : Buf) (dirs : List String) (filename : String)
    (dirIndex : BitVec 64) : Read String :=
  if isAbsolutePath filename then return filename
  else if dirIndex = 0 then
    match u.compDir with
    | none => return filename
    | some dir => return dir ++ "/" ++ filename
  else
    match dirs[(dirIndex - 1).toNat]? with
    | some dir => return dir ++ "/" ++ filename
    | none => do
      let msg := lineBuf.message "invalid directory index in line number program header"
      modify fun buf => { buf with errors := buf.errors ++ [(msg, 0)] }
      throw .failed

/-- Read a file entry. -/
def readFilename (u : LineUnit) (lineBuf : Buf) (dirs : List String) (count i : Nat) :
    Read String := do
  let filename ← readString
  let dirIndex ← readUleb128
  let name ← entryName u lineBuf dirs filename dirIndex
  writeEntry count i
  readUlebs 2
  return name

/-- All entries of an array are written. -/
def allWritten (count : Nat) (entries : List String) : Read (List String) :=
  if entries.length = count then return entries else throw .fault

/-- The directories. -/
def readDirs : Read (List String) := do
  let count ← countDirs (← get)
  let dirs ← readEntries (readDir count) ((← get).rest.length + 1) []
  advanceOrFail 1
  allWritten count dirs

/-- The file names. -/
def readFilenames (u : LineUnit) (lineBuf : Buf) (dirs : List String) : Read (List String) := do
  let count ← countFilenames (← get)
  let filenames ← readEntries (readFilename u lineBuf dirs count) ((← get).rest.length + 1) []
  if (← get).reportedUnderflow then throw .failed
  allWritten count filenames

/-- The bytes of a block: a pointer to them is kept, and the buffer advanced behind them. -/
def readBlock (count : SizeT) : Read (List Byte) := do
  let p := (← get).rest
  advanceOrFail count
  return p.take count.toNat

/-- The field that a version before 4 does not have. -/
def readMaxOps (version : BitVec 16) : Read Byte := if version < 4 then return 1 else readByte

/-- The fields up to the opcode lengths. -/
def readFields (version : BitVec 16) : Read LineHeader := do
  let minInsnLen ← readByte
  let maxOpsPerInsn ← readMaxOps version
  let _ ← readByte
  let lineBase ← readSbyte
  let lineRange ← readByte
  let opcodeBase ← readByte
  let opcodeLengths ← readBlock ((opcodeBase.setWidth 32 - 1).setWidth 64)
  return {
    version := version.setWidth 32
    minInsnLen := minInsnLen.setWidth 32
    maxOpsPerInsn := maxOpsPerInsn.setWidth 32
    lineBase
    lineRange := lineRange.setWidth 32
    opcodeBase := opcodeBase.setWidth 32
    opcodeLengths
    dirs := []
    filenames := [] }

/-- What `read_line_header` reads through its copy of the buffer, `hdr_buf`. -/
def readHdrBuf (u : LineUnit) (lineBuf : Buf) (version : BitVec 16) : Read LineHeader := do
  let hdr ← readFields version
  let dirs ← readDirs
  let filenames ← readFilenames u lineBuf dirs
  return { hdr with dirs, filenames }

/-- `read_line_header`. -/
def readLineHeader (u : LineUnit) (isDwarf64 : Bool) : Read LineHeader := do
  let version ← readUint16
  if version < 2 ∨ version > 4 then
    dwarfBufError "unsupported line number version"
    throw .failed
  let hdrlen ← readOffset isDwarf64
  let hdrBuf := (← get).upTo hdrlen
  advanceOrFail hdrlen
  let lineBuf ← get
  throughCopy hdrBuf (readHdrBuf u lineBuf version)

/-! ## The bytes of a header -/

/-- The bytes of a directory entry. -/
def DirBytes : Grammar String Byte := fun p dir bs => bs ≠ [0] ∧ StringBytes p dir bs

/-- The name of a file entry, if its directory is there. -/
def entryName? (u : LineUnit) (dirs : List String) (filename : String) (dirIndex : BitVec 64) :
    Option String :=
  if isAbsolutePath filename then some filename
  else if dirIndex = 0 then some (u.compDir.elim filename fun dir => dir ++ "/" ++ filename)
  else dirs[(dirIndex - 1).toNat]?.map fun dir => dir ++ "/" ++ filename

/-- The bytes of a file entry: its name, the index of its directory, a time and a length. -/
def FileBytes (u : LineUnit) (dirs : List String) : Grammar String Byte := fun p name bs =>
  ∃ filename dirIndex as cs ds, bs = as ++ (cs ++ ds) ∧ DirBytes p filename as ∧
    UlebBytes (p + as.length) dirIndex cs ∧ UlebsBytes 2 (p + as.length + cs.length) () ds ∧
    entryName? u dirs filename dirIndex = some name

/-- Entries one behind the other. -/
inductive Entries (G : Grammar String Byte) : Nat → List String → List Byte → Prop
  | nil (p : Nat) : Entries G p [] []
  | cons {p : Nat} {name : String} {names : List String} {as bs : List Byte} (head : G p name as)
      (tail : Entries G (p + as.length) names bs) : Entries G p (name :: names) (as ++ bs)

/-- Entries and the zero byte behind them. -/
def TableBytes (G : Grammar String Byte) : Grammar (List String) Byte := fun p names bs =>
  ∃ es, Entries G p names es ∧ bs = es ++ [0]

/-- The bytes of the fields up to the opcode lengths. -/
def FieldsBytes (version : BitVec 16) : Grammar LineHeader Byte := fun _ hdr bs =>
  ∃ min maxOps stmt base range opcodeBase lengths,
    bs = min :: (maxOps ++ stmt :: base :: range :: opcodeBase :: lengths) ∧
    lengths.length = ((opcodeBase.setWidth 32 - 1 : BitVec 32).setWidth 64).toNat ∧
    (if version < 4 then maxOps = [] else maxOps.length = 1) ∧
    hdr = {
      version := version.setWidth 32
      minInsnLen := min.setWidth 32
      maxOpsPerInsn := (maxOps.headD 1).setWidth 32
      lineBase := (base.setWidth 32 ^^^ 0x80) - 0x80
      lineRange := range.setWidth 32
      opcodeBase := opcodeBase.setWidth 32
      opcodeLengths := lengths
      dirs := []
      filenames := [] }

/-- The bytes the header's length counts. There may be more of them than are read. -/
def BlockBytes (u : LineUnit) (version : BitVec 16) : Grammar LineHeader Byte := fun p hdr bs =>
  ∃ fields fs dirs ds filenames es pad, bs = fs ++ (ds ++ (es ++ [0] ++ pad)) ∧
    FieldsBytes version p fields fs ∧ TableBytes DirBytes (p + fs.length) dirs ds ∧
    Entries (FileBytes u dirs) (p + fs.length + ds.length) filenames es ∧
    hdr = { fields with dirs, filenames }

/-- The bytes of a header. -/
def HeaderBytes (big : Bool) (u : LineUnit) (isDwarf64 : Bool) : Grammar LineHeader Byte :=
  fun p hdr bs => ∃ (version : BitVec 16) (hdrlen : BitVec 64) (vs ls block : List Byte),
    bs = vs ++ (ls ++ block) ∧ UIntBytes big 2 p version vs ∧ ¬ (version < 2 ∨ version > 4) ∧
    OffsetBytes big isDwarf64 (p + vs.length) hdrlen ls ∧ block.length = hdrlen.toNat ∧
    BlockBytes u version (p + vs.length + ls.length) hdr block

/-! ## Fields -/

section Reads

variable {big : Bool}

end Reads

/-! ## Entries -/

section Entries

variable {big : Bool} {G : Grammar String Byte} {p : Nat} {names : List String} {bs : List Byte}

theorem Entries.length_le (hne : ∀ {p name as}, G p name as → as ≠ [])
    (h : Entries G p names bs) : names.length ≤ bs.length := by
  induction h with
  | nil p => exact le_refl _
  | cons head _ ih =>
    have := List.length_pos_iff.mpr (hne head)
    rw [List.length_cons, List.length_append]
    omega

/-- The bytes of an entry: a string that is not empty, and behind it some numbers of `entryLen`
bytes. -/
def Countable (entryLen : List Byte → Read Nat) (G : Grammar String Byte) : Prop :=
  ∀ {p name as}, G p name as → ∃ b cs ts, 0 ∉ b :: cs ∧ as = b :: cs ++ 0 :: ts ∧
    ∀ t, entryLen (ts ++ t) = pure ts.length

theorem strnlen_append_zero {cs : List Byte} (h : 0 ∉ cs) (t : List Byte) {maxlen : SizeT}
    (hlt : cs.length < maxlen.toNat) :
    strnlen (cs ++ 0 :: t) maxlen = pure (BitVec.ofNat 64 cs.length) := by
  simp only [strnlen, takeWhile_append_zero h, if_neg (Nat.not_le.mpr hlt), List.length_append,
    List.length_cons, if_pos (Nat.lt_add_of_pos_right (Nat.succ_pos t.length))]

/-- **Counting** passes over the entries. -/
theorem countEntries_append {entryLen : List Byte → Read Nat} (hG : Countable entryLen G)
    (h : Entries G p names bs) {t : List Byte} {buf : Buf} {fuel n : Nat} : ∀ {avail : Nat},
    bs.length ≤ avail → avail < 2 ^ 64 →
    (countEntries entryLen fuel t (avail - bs.length)).run buf = .ok n buf →
    (countEntries entryLen (names.length + fuel) (bs ++ t) avail).run buf =
      .ok (n + names.length) buf := by
  induction h with
  | nil p =>
    intro avail _ _ ht
    rw [List.length_nil, Nat.zero_add]
    exact ht
  | @cons p name names as bs head tail ih =>
    intro avail hle hlt ht
    obtain ⟨b, cs, ts, hzero, rfl, hts⟩ := hG head
    have hb : b ≠ 0 := fun h0 => hzero (h0 ▸ List.mem_cons_self ..)
    have hlen : (b :: cs ++ 0 :: ts).length = (b :: cs).length + 1 + ts.length := by
      rw [List.length_append, List.length_cons (a := 0)]
      omega
    rw [List.length_append, hlen] at hle
    rw [List.length_append, Nat.sub_add_eq, hlen] at ht
    have hcs : (BitVec.ofNat 64 avail).toNat = avail := by
      rw [BitVec.toNat_ofNat, Nat.mod_eq_of_lt hlt]
    have hlen' : (BitVec.ofNat 64 (b :: cs).length).toNat = (b :: cs).length := by
      rw [BitVec.toNat_ofNat, Nat.mod_eq_of_lt (by omega)]
    have hstr := @strnlen_append_zero _ hzero (ts ++ (bs ++ t)) (BitVec.ofNat 64 avail)
      (by omega)
    have heq : (b :: cs ++ 0 :: ts) ++ bs ++ t = b :: cs ++ 0 :: (ts ++ (bs ++ t)) := by
      simp only [List.append_assoc, List.cons_append]
    have hdrop : (b :: cs ++ 0 :: (ts ++ (bs ++ t))).drop ((b :: cs).length + 1) =
        ts ++ (bs ++ t) := by
      rw [← List.drop_drop, List.drop_left]
      rfl
    have hmore : (b :: cs ++ 0 :: (ts ++ (bs ++ t))).drop ((b :: cs).length + 1 + ts.length) =
        bs ++ t := by
      rw [← List.drop_drop, hdrop, List.drop_left]
    rw [List.length_cons, Nat.succ_add, heq, countEntries, if_neg (by omega)]
    simp only [List.cons_append, derefByte, pure_bind, if_neg hb]
    rw [← List.cons_append, hstr]
    simp only [pure_bind, hlen', hdrop, hts, hmore, EStateM.run_bind, ih (by omega) (by omega) ht]
    rfl

/-- Reading stops at a zero byte. -/
theorem readEntries_zero {entry : Nat → Read String} {buf : Buf} {t : List Byte} {fuel : Nat}
    (h : buf.rest = 0 :: t) : (readEntries entry (fuel + 1) names).run buf = .ok names buf := by
  simp only [readEntries, EStateM.run_bind, EStateM.run_get, h, derefByte, EStateM.run_pure,
    if_true]

/-- Another byte begins an entry. -/
theorem readEntries_succ {entry : Nat → Read String} {buf : Buf} {b : Byte} {t : List Byte}
    {fuel : Nat} (h : buf.rest = b :: t) (hb : b ≠ 0) (hu : buf.reportedUnderflow = false) :
    (readEntries entry (fuel + 1) names).run buf =
      (entry names.length >>= fun e => readEntries entry fuel (names ++ [e])).run buf := by
  simp only [readEntries, EStateM.run_bind, EStateM.run_get, h, derefByte, EStateM.run_pure,
    if_neg hb, hu, Bool.false_eq_true, if_false]

/-- **Reading** passes over the entries. -/
theorem readEntries_append {entry : Nat → Read String} {N : Nat}
    (hentry : ∀ {i}, i < N → Accepts (cursor big) (entry i) G)
    (hG : ∀ {p name as}, G p name as → ∃ b t, b ≠ 0 ∧ as = b :: t) (h : Entries G p names bs)
    {fuel : Nat} : ∀ {acc : List String} {buf : Buf}, (cursor big).Ok buf → buf.pos = p →
    bs <+: (cursor big).ahead buf → acc.length + names.length ≤ N →
    (readEntries entry (names.length + fuel) acc).run buf =
      (readEntries entry fuel (acc ++ names)).run (buf.skip bs.length) := by
  induction h with
  | nil p =>
    intro acc buf _ _ _ _
    rw [List.append_nil, List.length_nil, Nat.zero_add]
    exact congrArg _ ((cursor big).skip_zero buf).symm
  | @cons p name names as bs head tail ih =>
    rintro acc buf hok rfl hbs hN
    obtain ⟨has, htail⟩ := prefix_drop.mp hbs
    have hle := has.length_le
    obtain ⟨b, t, hb, heq⟩ := hG head
    obtain ⟨t', ht'⟩ := has.trans (List.take_prefix _ _)
    rw [List.length_cons] at hN
    have hrest : buf.rest = b :: (t ++ t') := by
      rw [← ht', heq]
      rfl
    rw [List.length_cons, Nat.succ_add, readEntries_succ hrest hb hok.2.1, EStateM.run_bind,
      hentry (show acc.length < N by omega) hok has head]
    have hih := @ih (acc ++ [name]) _ ((cursor big).ok_skip hok hle)
      ((cursor big).pos_skip buf _) ((cursor big).ahead_skip hle ▸ htail)
      (by rw [List.length_append, List.length_singleton]; omega)
    rw [List.append_assoc, List.singleton_append] at hih
    rw [List.length_append, ← skip_skip]
    exact hih

/-- Counting, up to what is behind the entries. -/
theorem countEntries_table {entryLen : List Byte → Read Nat} (hG : Countable entryLen G)
    {buf : Buf} {t : List Byte} {n : Nat} (hok : (cursor big).Ok buf) (h : Entries G p names bs)
    (hbs : bs <+: (cursor big).ahead buf) (hrest : buf.rest = bs ++ t)
    (hstop : (countEntries entryLen (buf.left.toNat - names.length + 1) t
      (buf.left.toNat - bs.length)).run buf = .ok n buf) :
    (countEntries entryLen (buf.left.toNat + 1) buf.rest buf.left.toNat).run buf =
      .ok (n + names.length) buf := by
  have hle : bs.length ≤ buf.left.toNat := length_ahead big hok.1 ▸ hbs.length_le
  have hnames := h.length_le fun {p name as} hhead => by
    obtain ⟨b, cs, ts, -, rfl, -⟩ := hG hhead
    exact List.cons_ne_nil _ _
  rw [hrest, show buf.left.toNat + 1 = names.length + (buf.left.toNat - names.length + 1) by omega]
  exact countEntries_append hG h hle buf.left.isLt hstop

/-- Counting stops where the header ends. -/
theorem countEntries_end {entryLen : List Byte → Read Nat} {fuel : Nat} {t : List Byte}
    {buf : Buf} : (countEntries entryLen (fuel + 1) t 0).run buf = .ok 0 buf := rfl

/-- Counting stops at a zero byte. -/
theorem countEntries_zero {entryLen : List Byte → Read Nat} {fuel avail : Nat} {t : List Byte}
    {buf : Buf} : (countEntries entryLen (fuel + 1) (0 :: t) avail).run buf = .ok 0 buf := by
  rw [countEntries]
  split
  · rfl
  · rfl

/-- Reading, up to what is behind the entries. -/
theorem readEntries_table {entry : Nat → Read String}
    (hentry : ∀ {i}, i < names.length → Accepts (cursor big) (entry i) G)
    (hG : ∀ {p name as}, G p name as → ∃ b t, b ≠ 0 ∧ as = b :: t) {buf : Buf}
    (hok : (cursor big).Ok buf) (h : Entries G buf.pos names bs)
    (hbs : bs <+: (cursor big).ahead buf) :
    (readEntries entry (buf.rest.length + 1) []).run buf =
      (readEntries entry (buf.rest.length - names.length + 1) names).run (buf.skip bs.length) := by
  have hnames := h.length_le fun {p name as} hhead => by
    obtain ⟨b, t, -, rfl⟩ := hG hhead
    exact List.cons_ne_nil _ _
  have hle := (hbs.trans (List.take_prefix _ _)).length_le
  have hread := @readEntries_append big _ _ _ _ entry _ hentry hG h
    (buf.rest.length - names.length + 1) [] buf hok rfl hbs (by rw [List.length_nil, Nat.zero_add])
  rw [← show names.length + (buf.rest.length - names.length + 1) = buf.rest.length + 1 by omega]
  exact hread

end Entries

/-! ## Directories -/

section Dirs

variable {big : Bool}

theorem dirBytes_cons {p : Nat} {dir : String} {bs : List Byte} (h : DirBytes p dir bs) :
    ∃ b cs, 0 ∉ b :: cs ∧ bs = b :: cs ++ [0] := by
  obtain ⟨hne, cs, hzero, rfl, -⟩ := h
  cases cs with
  | nil => exact absurd rfl hne
  | cons b cs => exact ⟨b, cs, hzero, rfl⟩

theorem dirBytes_head {p : Nat} {dir : String} {bs : List Byte} (h : DirBytes p dir bs) :
    ∃ b t, b ≠ 0 ∧ bs = b :: t := by
  obtain ⟨b, cs, hzero, rfl⟩ := dirBytes_cons h
  exact ⟨b, cs ++ [0], fun h0 => hzero (h0 ▸ List.mem_cons_self ..), rfl⟩

theorem countable_dirBytes : Countable (fun _ => pure 0) DirBytes := by
  intro p dir bs h
  obtain ⟨b, cs, hzero, rfl⟩ := dirBytes_cons h
  exact ⟨b, cs, [], hzero, rfl, fun _ => rfl⟩

theorem accepts_readDir {count i : Nat} (h : i < count) :
    Accepts (cursor big) (readDir count i) DirBytes := by
  rw [readDir, writeEntry_lt h, pure_bind]
  exact reads_readString.complete.mono fun p dir bs h => h.2

theorem readDirs_run (buf : Buf) {count : Nat} (h : (countDirs buf).run buf = .ok count buf) :
    readDirs.run buf = (do
      let dirs ← readEntries (readDir count) (buf.rest.length + 1) []
      advanceOrFail 1
      allWritten count dirs : Read (List String)).run buf := by
  simp only [readDirs, EStateM.run_bind, EStateM.run_get, h]

/-- **The directories.** -/
theorem accepts_readDirs : Accepts (cursor big) readDirs (TableBytes DirBytes) := by
  rintro buf dirs bs hok hbs ⟨es, h, rfl⟩
  obtain ⟨hes, hzero⟩ := prefix_drop.mp hbs
  obtain ⟨t, hrest⟩ := hbs.trans (List.take_prefix _ _)
  rw [List.append_assoc, List.singleton_append] at hrest
  have hle := hes.length_le
  have hok' := (cursor big).ok_skip hok hle
  have hskip : (buf.skip es.length).rest = 0 :: t := by
    change buf.rest.drop es.length = _
    rw [← hrest, List.drop_left]
  have hcount : (countDirs buf).run buf = .ok (0 + dirs.length) buf :=
    countEntries_table countable_dirBytes hok h hes hrest.symm countEntries_zero
  rw [Nat.zero_add] at hcount
  have hadvance : (advanceOrFail 1).run (buf.skip es.length) =
      .ok () (buf.skip (es ++ [0]).length) := by
    rw [List.length_append, ← skip_skip]
    exact (reads_advanceOrFail 1).complete hok' ((cursor big).ahead_skip hle ▸ hzero) rfl
  rw [readDirs_run buf hcount, EStateM.run_bind,
    readEntries_table accepts_readDir dirBytes_head hok h hes, readEntries_zero hskip]
  simp only [EStateM.run_bind, hadvance, allWritten, if_true]
  rfl

/-- Bytes as directories, and what is behind them. -/
theorem exists_dirs (bs : List Byte) : ∀ p, ∃ dirs es t, Entries DirBytes p dirs es ∧ bs = es ++ t ∧
    (0 ∈ t → ∃ t', t = 0 :: t') := by
  induction hn : bs.length using Nat.strong_induction_on generalizing bs with
  | _ n ih =>
    intro p
    by_cases hmem : 0 ∈ bs
    · obtain ⟨cs, t, rfl, hcs⟩ := List.eq_append_cons_of_mem hmem
      by_cases hnil : cs = []
      · subst hnil
        exact ⟨[], [], 0 :: t, .nil p, rfl, fun _ => ⟨t, rfl⟩⟩
      · have hlen : (cs ++ [0]).length = cs.length + 1 := List.length_append
        rw [List.length_append, List.length_cons] at hn
        obtain ⟨dirs, es, u, hes, rfl, hu⟩ := ih t.length (by omega) t rfl (p + (cs ++ [0]).length)
        have hdir : DirBytes p (text cs) (cs ++ [0]) := ⟨by simpa using hnil, cs, hcs, rfl, rfl⟩
        exact ⟨text cs :: dirs, cs ++ [0] ++ es, u, .cons hdir hes, by simp, hu⟩
    · exact ⟨[], [], bs, .nil p, rfl, fun h => absurd h hmem⟩

theorem length_le_takeWhile {t : List Byte} (h : 0 ∉ t) (u : List Byte) :
    t.length ≤ ((t ++ u).takeWhile (· ≠ 0)).length := by
  rw [List.takeWhile_append_of_pos fun b hb => by simpa using fun h0 : b = 0 => h (h0 ▸ hb),
    List.length_append]
  exact Nat.le_add_right _ _

/-- A string that is not terminated in the header counts as an entry. -/
theorem countEntries_unterminated {t : List Byte} (hne : t ≠ []) (hzero : 0 ∉ t) (u : List Byte)
    (hlt : t.length < 2 ^ 64) {fuel : Nat} {buf : Buf} :
    (countEntries (fun _ => pure 0) (fuel + 2) (t ++ u) t.length).run buf = .ok 1 buf := by
  have hlen : (BitVec.ofNat 64 t.length).toNat = t.length := by
    rw [BitVec.toNat_ofNat, Nat.mod_eq_of_lt hlt]
  have hstr : strnlen (t ++ u) (BitVec.ofNat 64 t.length) = pure (BitVec.ofNat 64 t.length) := by
    rw [strnlen, if_pos (by rw [hlen]; exact length_le_takeWhile hzero u)]
  cases t with
  | nil => exact absurd rfl hne
  | cons b t =>
    have hb : b ≠ 0 := fun h0 => hzero (h0 ▸ List.mem_cons_self ..)
    rw [countEntries, hstr]
    simp only [List.length_cons, Nat.succ_ne_zero, if_false, List.cons_append, derefByte, pure_bind,
      if_neg hb]
    rw [List.length_cons] at hlen
    simp only [hlen, Nat.add_zero, Nat.sub_eq_zero_of_le (Nat.le_succ _), EStateM.run_bind,
      countEntries_end]
    rfl

/-- A string that is not terminated in the header is a failure. -/
theorem readDirs_unterminated {buf : Buf} {dirs : List String} {es t : List Byte}
    (hok : (cursor big).Ok buf) (h : Entries DirBytes buf.pos dirs es)
    (hahead : (cursor big).ahead buf = es ++ t) (hne : t ≠ []) (hzero : 0 ∉ t) :
    ∃ buf', readDirs.run buf = .error .failed buf' := by
  have hes : es <+: (cursor big).ahead buf := hahead ▸ List.prefix_append es t
  have hle := hes.length_le
  have hok' := (cursor big).ok_skip hok hle
  have hlen : es.length + t.length = buf.left.toNat := by
    rw [← length_ahead big hok.1, hahead, List.length_append]
  have hpos := List.length_pos_iff.mpr hne
  have hdirs := h.length_le fun {p dir as} hhead => by
    obtain ⟨b, t, -, rfl⟩ := dirBytes_head hhead
    exact List.cons_ne_nil _ _
  obtain ⟨u, hrest⟩ : ∃ u, buf.rest = es ++ (t ++ u) :=
    ⟨buf.rest.drop buf.left.toNat, by
      rw [← List.append_assoc, ← hahead]
      exact (List.take_append_drop ..).symm⟩
  have hskip : (buf.skip es.length).rest = t ++ u := by
    change buf.rest.drop es.length = _
    rw [hrest, List.drop_left]
  have hcount : (countDirs buf).run buf = .ok (1 + dirs.length) buf :=
    countEntries_table countable_dirBytes hok h hes hrest (by
      rw [show buf.left.toNat - es.length = t.length by omega,
        show buf.left.toNat - dirs.length + 1 = buf.left.toNat - dirs.length - 1 + 2 by omega]
      exact countEntries_unterminated hne hzero u (by have := buf.left.isLt; omega))
  have hread : readString.run (buf.skip es.length) =
      .error .failed (buf.skip es.length).underflow := by
    have hlt := length_le_takeWhile hzero u
    have hleft := toNat_left_skip (show es.length ≤ buf.left.toNat by omega)
    have hw : (buf.skip es.length).Within := hok'.1
    rw [readString_run hw, hskip, if_neg (by omega)]
  obtain ⟨b, t', rfl⟩ := List.exists_cons_of_ne_nil hne
  have hb : b ≠ 0 := fun h0 => hzero (h0 ▸ List.mem_cons_self ..)
  have hlt : dirs.length < 1 + dirs.length := by omega
  rw [readDirs_run buf hcount, EStateM.run_bind,
    readEntries_table (fun hi => accepts_readDir (hi.trans hlt)) dirBytes_head hok h hes,
    readEntries_succ hskip hb hok'.2.1, readDir, writeEntry_lt hlt, pure_bind, EStateM.run_bind,
      hread]
  exact ⟨_, rfl⟩

/-- Directories that fill the header. -/
theorem readDirs_end {buf : Buf} {dirs : List String} (hok : (cursor big).Ok buf)
    (h : Entries DirBytes buf.pos dirs ((cursor big).ahead buf)) :
    (∃ buf', readDirs.run buf = .error .fault buf') ↔ buf.rest[buf.left.toNat]? ≠ some 0 := by
  have hlen := length_ahead big hok.1
  have hok' := (cursor big).ok_skip hok (le_refl _)
  have hskip : (buf.skip ((cursor big).ahead buf).length).rest = buf.rest.drop buf.left.toNat := by
    rw [hlen]
    rfl
  have hcount : (countDirs buf).run buf = .ok (0 + dirs.length) buf :=
    countEntries_table countable_dirBytes hok h (List.prefix_refl _)
      (List.take_append_drop buf.left.toNat buf.rest).symm (by rw [hlen, Nat.sub_self]; rfl)
  rw [Nat.zero_add] at hcount
  rw [readDirs_run buf hcount, EStateM.run_bind,
    readEntries_table accepts_readDir dirBytes_head hok h (List.prefix_refl _),
    ← List.head?_drop, ← hskip]
  cases hrest : (buf.skip ((cursor big).ahead buf).length).rest with
  | nil =>
    simp only [readEntries, EStateM.run_bind, EStateM.run_get, hrest, derefByte]
    exact ⟨fun _ => by simp, fun _ => ⟨_, rfl⟩⟩
  | cons b u =>
    by_cases hb : b = 0
    · subst hb
      have hfull : ¬ (1 : SizeT) ≤ (buf.skip ((cursor big).ahead buf).length).left := by
        rw [BitVec.le_def, toNat_left_skip hlen.le, hlen, Nat.sub_self]
        decide
      rw [readEntries_zero hrest]
      simp only [EStateM.run_bind, advanceOrFail_run, if_neg hfull]
      constructor
      · rintro ⟨_, h⟩
        cases h
      · exact fun h => absurd rfl h
    · rw [readEntries_succ hrest hb hok'.2.1, readDir, writeEntry, if_neg (lt_irrefl _)]
      exact ⟨fun _ => by simpa using hb, fun _ => ⟨_, rfl⟩⟩

/-- **Directories and memory.** The loop that reads them does not see the end of the header. It
writes an entry that was not counted, or leaves the section, just if the directories fill the header
and the byte behind it is not zero. -/
theorem readDirs_fault_iff {buf : Buf} (hok : (cursor big).Ok buf) :
    (∃ buf', readDirs.run buf = .error .fault buf') ↔
      (∃ dirs, Entries DirBytes buf.pos dirs ((cursor big).ahead buf)) ∧
        buf.rest[buf.left.toNat]? ≠ some 0 := by
  constructor
  · rintro ⟨buf', hrun⟩
    obtain ⟨dirs, es, t, hes, hahead, ht⟩ := exists_dirs ((cursor big).ahead buf) buf.pos
    by_cases hnil : t = []
    · rw [hnil, List.append_nil] at hahead
      rw [← hahead] at hes
      exact ⟨⟨dirs, hes⟩, (readDirs_end hok hes).mp ⟨buf', hrun⟩⟩
    · by_cases hmem : 0 ∈ t
      · obtain ⟨t', rfl⟩ := ht hmem
        have hbs : es ++ [0] <+: (cursor big).ahead buf := ⟨t', by rw [hahead]; simp⟩
        have htable : TableBytes DirBytes buf.pos dirs (es ++ [0]) := ⟨es, hes, rfl⟩
        cases hrun.symm.trans (accepts_readDirs hok hbs htable)
      · obtain ⟨buf₁, h₁⟩ := readDirs_unterminated hok hes hahead hnil hmem
        cases hrun.symm.trans h₁
  · rintro ⟨⟨dirs, h⟩, hbyte⟩
    exact (readDirs_end hok h).mpr hbyte

/-- Of a section whose last byte ends the name of a directory, the byte behind the section is
read. -/
theorem readDirs_fault_iff_end :
    let buf := ofSection ".debug_line" [97, 0] 0 false
    (∃ buf', readDirs.run buf = .error .fault buf') ↔
      (∃ dirs, Entries DirBytes buf.pos dirs ((cursor false).ahead buf)) ∧
        buf.rest[buf.left.toNat]? ≠ some 0 :=
  readDirs_fault_iff (ofSection_ok (by decide) (by decide)).1

end Dirs

/-! ## File names -/

section Files

variable {big : Bool} {u : LineUnit} {dirs : List String}

end Files

/-! ## The header -/

section Header

variable {big : Bool} {u : LineUnit}

/-- A block that is read is there. -/
theorem readBlock_length {count : SizeT} {buf buf' : Buf} {bs : List Byte} (hw : buf.Within)
    (hrun : (readBlock count).run buf = .ok bs buf') : bs.length = count.toNat := by
  obtain ⟨p, b, hget, hrun⟩ := run_bind_ok hrun
  obtain ⟨rfl, rfl⟩ := EStateM.Result.ok.inj hget
  obtain ⟨_, b', hadvance, hrun⟩ := run_bind_ok hrun
  rw [advanceOrFail_run] at hadvance
  by_cases hle : count ≤ buf.left
  · obtain ⟨rfl, -⟩ := EStateM.Result.ok.inj hrun
    rw [List.length_take, Nat.min_eq_left ((BitVec.le_def.mp hle).trans hw.le)]
  · rw [if_neg hle] at hadvance
    cases hadvance

/-- A header has the opcode lengths that it says it has. -/
theorem readFields_lengths {version : BitVec 16} {buf buf' : Buf} {hdr : LineHeader}
    (hw : buf.Within) (hrun : (readFields version).run buf = .ok hdr buf') :
    hdr.opcodeBase.toNat ≤ hdr.opcodeLengths.length + 1 := by
  have hbyte : NoFault readByte := noFault_readUInt (by omega)
  have hmaxOps : NoFault (readMaxOps version) := by
    unfold readMaxOps
    split
    · exact Safe.pure _
    · exact hbyte
  obtain ⟨min, b₁, h₁, hrun⟩ := run_bind_ok hrun
  have hw₁ := ((hbyte hw).ok h₁).1
  obtain ⟨maxOps, b₂, h₂, hrun⟩ := run_bind_ok hrun
  have hw₂ := ((hmaxOps hw₁).ok h₂).1
  obtain ⟨stmt, b₃, h₃, hrun⟩ := run_bind_ok hrun
  have hw₃ := ((hbyte hw₂).ok h₃).1
  obtain ⟨base, b₄, h₄, hrun⟩ := run_bind_ok hrun
  have hw₄ := (((hbyte.bind fun _ => Safe.pure _) hw₃).ok h₄).1
  obtain ⟨range, b₅, h₅, hrun⟩ := run_bind_ok hrun
  have hw₅ := ((hbyte hw₄).ok h₅).1
  obtain ⟨opcodeBase, b₆, h₆, hrun⟩ := run_bind_ok hrun
  have hw₆ := ((hbyte hw₅).ok h₆).1
  obtain ⟨lengths, b₇, h₇, hrun⟩ := run_bind_ok hrun
  obtain ⟨rfl, -⟩ := EStateM.Result.ok.inj hrun
  have hlen := readBlock_length hw₆ h₇
  have hlt := opcodeBase.isLt
  have hbase : (opcodeBase.setWidth 32).toNat = opcodeBase.toNat := by
    rw [BitVec.toNat_setWidth, Nat.mod_eq_of_lt (by omega)]
  change (opcodeBase.setWidth 32).toNat ≤ lengths.length + 1
  rw [hbase, hlen, BitVec.toNat_setWidth, BitVec.toNat_sub, hbase]
  change opcodeBase.toNat ≤ (2 ^ 32 - 1 + opcodeBase.toNat) % 2 ^ 32 % 2 ^ 64 + 1
  omega

/-- What is left behind a header that is accepted is in the section. -/
theorem readLineHeader_ok {isDwarf64 : Bool} {buf buf' : Buf} {hdr : LineHeader} (hw : buf.Within)
    (hrun : (readLineHeader u isDwarf64).run buf = .ok hdr buf') :
    buf'.Within ∧ hdr.opcodeBase.toNat ≤ hdr.opcodeLengths.length + 1 := by
  obtain ⟨version, b₁, h₁, hrun⟩ := run_bind_ok hrun
  have hw₁ := ((noFault_readUInt (by omega) hw).ok h₁).1
  by_cases hversion : version < 2 ∨ version > 4
  · rw [if_pos hversion] at hrun
    obtain ⟨_, b, -, hthrow⟩ := run_bind_ok hrun
    cases hthrow
  · rw [if_neg hversion] at hrun
    obtain ⟨hdrlen, b₂, h₂, hrun⟩ := run_bind_ok hrun
    have hw₂ := ((noFault_readOffset isDwarf64 hw₁).ok h₂).1
    obtain ⟨b₃, b₄, hget, hrun⟩ := run_bind_ok hrun
    obtain ⟨rfl, rfl⟩ := EStateM.Result.ok.inj hget
    obtain ⟨_, b₅, h₅, hrun⟩ := run_bind_ok hrun
    have hw₅ := ((noFault_advanceOrFail hdrlen hw₂).ok h₅).1
    obtain ⟨lineBuf, b₆, hget, hrun⟩ := run_bind_ok hrun
    obtain ⟨rfl, rfl⟩ := EStateM.Result.ok.inj hget
    obtain ⟨b₇, hcopy, rfl⟩ := throughCopy_ok hrun
    refine ⟨hw₅.withErrors _, ?_⟩
    -- the copy ends where the header does, which is in the section
    have hle : hdrlen ≤ b₂.left := by
      by_contra hno
      rw [advanceOrFail_run, if_neg hno] at h₅
      cases h₅
    have hcopyWithin : (Buf.Within { b₂.upTo hdrlen with errors := b₅.errors }) :=
      ⟨(BitVec.le_def.mp hle).trans hw₂.le, hw₂.lt⟩
    obtain ⟨fields, b₈, h₈, hcopy⟩ := run_bind_ok hcopy
    obtain ⟨dirs, b₉, -, hcopy⟩ := run_bind_ok hcopy
    obtain ⟨filenames, b₁₀, -, hcopy⟩ := run_bind_ok hcopy
    obtain ⟨rfl, -⟩ := EStateM.Result.ok.inj hcopy
    have hlengths : fields.opcodeBase.toNat ≤ fields.opcodeLengths.length + 1 :=
      readFields_lengths hcopyWithin h₈
    exact hlengths

/-- **The program behind a header that is accepted** is read to an end, in the section, and does
nothing undefined, if the divisors of the header are not zero and the unit has a compilation
directory. -/
theorem readLineHeader_program {isDwarf64 : Bool} {buf buf' : Buf} {hdr : LineHeader}
    (hw : buf.Within) (hrun : (readLineHeader u isDwarf64).run buf = .ok hdr buf')
    (hrange : hdr.lineRange ≠ 0) (hops : hdr.maxOpsPerInsn ≠ 0) (hdir : u.compDir.isSome) :
    (∃ vec b, (readLineProgram u hdr).run buf' = .ok vec b ∧ b.Within) ∨
      ∃ b, (readLineProgram u hdr).run buf' = .error .failed b := by
  obtain ⟨hw', hlengths⟩ := readLineHeader_ok hw hrun
  have hsafe := readLineProgram_safe ⟨hrange, hops, hlengths⟩ hdir hw'
  cases hprogram : (readLineProgram u hdr).run buf' with
  | ok vec b => exact .inl ⟨vec, b, rfl, (hsafe.ok hprogram).1⟩
  | error e b => exact .inr ⟨b, by rw [hsafe.error hprogram]⟩

/-- A header without directories and files, and one more byte. -/
def emptyHeader : Buf := Buf.ofSection ".debug_line"
  [2, 0, 16, 0, 0, 0, 1, 1, 0xfb, 14, 10, 0, 1, 1, 1, 1, 0, 0, 0, 1, 0, 0, 20] 0 false

theorem readLineHeader_program_empty :
    ∃ hdr buf', (readLineHeader ⟨0, 8, some "/"⟩ false).run emptyHeader = .ok hdr buf' ∧
      ((∃ vec b, (readLineProgram ⟨0, 8, some "/"⟩ hdr).run buf' = .ok vec b ∧ b.Within) ∨
        ∃ b, (readLineProgram ⟨0, 8, some "/"⟩ hdr).run buf' = .error .failed b) := by
  have hrun : (readLineHeader ⟨0, 8, some "/"⟩ false).run emptyHeader =
    .ok ⟨2, 1, 1, -5, 14, 10, [0, 1, 1, 1, 1, 0, 0, 0, 1], [], []⟩ (emptyHeader.skip 22) := rfl
  exact ⟨_, _, hrun, readLineHeader_program ⟨by decide, by decide⟩ hrun (by decide) (by decide) rfl⟩

end Header

end Bktce.Libbacktrace
