import Bktce.Frame
import Bktce.Libbacktrace.Fileline

/-!
# Where a location comes from

For a pc in inlined code `backtrace_pcinfo` makes one full callback for each level of inlining,
and each callback is a location of its own: the function, and the position in it
(`print_callback`, `print.c:51-64`, prints each by itself). `libbacktrace_full_callback`
(`bktce.cpp:59-73`) keeps one location for all of them: the line of the last callback, but the
last file and the last name that are not null.

* `ShowsCall env fr c`: what `fr` shows is what the callback `c` reported.
* `ComesFrom env part pre c post`: of the callbacks `pre`, `c` and `post` it is `c` that a part of
  the data was set by, or none sets it.
* `OneSource env fr calls`: all three parts come from one callback, and the frame shows it.
* `OwnLocation calls`: the last callback leaves nothing to be carried over from the others.

Results:
* `one_callback_iff`: where there is source information, it comes from one callback iff the last one
  brings its own file and its own name.
* `ownLocation_levelCalls_iff`: of the callbacks for inlined code the last one does so iff the call
  of the outermost inlined function has a file name.
-/

namespace Bktce

open Libbacktrace

/-! ## What a callback shows -/

/-- The name a callback reports, demangled; empty for a null one. -/
def shownName (env : Env) (c : FullCall) : String := (c.function.map (demangle env)).getD ""

/-- The frame shows the name, the file and the line of one callback. -/
def ShowsCall (env : Env) (fr : Frame) (c : FullCall) : Prop :=
  fr.function = shownName env c ∧ fr.getSourceFilename = c.filename.getD "" ∧
    fr.getSourceLineNumber = toSizeT c.lineno

instance (env : Env) (fr : Frame) (c : FullCall) : Decidable (ShowsCall env fr c) :=
  inferInstanceAs (Decidable (_ ∧ _ ∧ _))

/-! ## Where a part of the data comes from -/

/-- The callback can change a part of the data. -/
def Sets {α : Type} (env : Env) (part : PCData → α) (c : FullCall) : Prop :=
  ∃ data, part (libbacktraceFullCallback env data c.pc c.filename c.lineno c.function).2 ≠ part data

/-- The part was last set by `c`, or by none of the callbacks: then `c` reports a null string for
it. -/
def ComesFrom {α : Type} (env : Env) (part : PCData → α) (pre : List FullCall) (c : FullCall)
    (post : List FullCall) : Prop :=
  (Sets env part c ∧ ∀ d ∈ post, ¬ Sets env part d) ∨ ∀ d ∈ pre ++ c :: post, ¬ Sets env part d

/-- The name, the file and the line come from one callback, which the frame shows. -/
def OneSource (env : Env) (fr : Frame) (calls : List FullCall) : Prop :=
  ∃ pre c post, calls = pre ++ c :: post ∧ ShowsCall env fr c ∧
    ComesFrom env PCData.function pre c post ∧ ComesFrom env PCData.filename pre c post ∧
      ComesFrom env PCData.lineNumber pre c post

/-- The last callback has a file, and a name unless none has one. -/
def OwnLocation (calls : List FullCall) : Prop :=
  ∃ c, calls.getLast? = some c ∧ c.filename ≠ none ∧
    (c.function ≠ none ∨ ∀ d ∈ calls, d.function = none)

theorem exists_string_ne (s : String) : ∃ t : String, t ≠ s := by
  by_cases h : s = ""
  · exact ⟨"a", by rw [h]; decide⟩
  · exact ⟨"", Ne.symm h⟩

theorem sets_function_iff {env : Env} {c : FullCall} :
    Sets env PCData.function c ↔ c.function ≠ none := by
  constructor
  · rintro ⟨⟨f, s, n⟩, hne⟩ hnull
    rw [hnull] at hne
    exact hne (by cases f <;> cases s <;> cases c.filename <;> rfl)
  · intro h
    obtain ⟨g, hg⟩ := Option.ne_none_iff_exists'.mp h
    obtain ⟨f, hf⟩ := exists_string_ne (demangle env g)
    refine ⟨⟨some f, some "", 0⟩, ?_⟩
    rw [libbacktraceFullCallback_eq, hg]
    exact fun heq => hf (Option.some.inj heq).symm

theorem sets_filename_iff {env : Env} {c : FullCall} :
    Sets env PCData.filename c ↔ c.filename ≠ none := by
  constructor
  · rintro ⟨⟨f, s, n⟩, hne⟩ hnull
    rw [hnull] at hne
    exact hne (by cases f <;> cases s <;> cases c.function <;> rfl)
  · intro h
    obtain ⟨g, hg⟩ := Option.ne_none_iff_exists'.mp h
    obtain ⟨s, hs⟩ := exists_string_ne g
    refine ⟨⟨some "", some s, 0⟩, ?_⟩
    rw [libbacktraceFullCallback_eq, hg]
    exact fun heq => hs (Option.some.inj heq).symm

/-- The line is set by every callback. -/
theorem sets_lineNumber (env : Env) (c : FullCall) : Sets env PCData.lineNumber c := by
  refine ⟨⟨some "", some "", toSizeT c.lineno + 1⟩, ?_⟩
  rw [libbacktraceFullCallback_eq]
  intro heq
  simp at heq

/-- So the line comes from the last callback. -/
theorem comesFrom_lineNumber_iff {env : Env} {pre : List FullCall} {c : FullCall}
    {post : List FullCall} : ComesFrom env PCData.lineNumber pre c post ↔ post = [] := by
  constructor
  · rintro (⟨-, h⟩ | h)
    · exact List.eq_nil_iff_forall_not_mem.mpr fun d hd => h d hd (sets_lineNumber env d)
    · exact absurd (sets_lineNumber env c) (h c (by simp))
  · rintro rfl
    exact .inl ⟨sets_lineNumber env c, by simp⟩

/-! ## One more callback -/

section Concat

variable (env : Env) (calls : List FullCall) (c : FullCall)

theorem lastLine_concat : lastLine (calls ++ [c]) = c.lineno := by
  simp [lastLine, List.getLastD_eq_getLast?]

theorem lastFilename_concat :
    lastFilename (calls ++ [c]) = c.filename.getD (lastFilename calls) := by
  unfold lastFilename
  cases h : c.filename <;> simp [h, List.getLastD_eq_getLast?]

theorem lastFunction_concat :
    lastFunction env (calls ++ [c]) =
      (c.function.map (demangle env)).getD (lastFunction env calls) := by
  unfold lastFunction
  cases h : c.function <;> simp [h, List.getLastD_eq_getLast?]

end Concat

theorem lastFilename_of_none {calls : List FullCall} (h : ∀ c ∈ calls, c.filename = none) :
    lastFilename calls = "" := by
  rw [lastFilename, List.filterMap_eq_nil_iff.mpr h]
  rfl

theorem lastFunction_of_none {env : Env} {calls : List FullCall}
    (h : ∀ c ∈ calls, c.function = none) : lastFunction env calls = "" := by
  rw [lastFunction, List.filterMap_eq_nil_iff.mpr h]
  rfl

/-! ## What a frame shows -/

/-- What is shown of a last callback with its own location is that callback. -/
theorem shows_ownLocation {env : Env} {fr : Frame} {pre : List FullCall} {c : FullCall}
    (h : fr.Shows env (pre ++ [c])) (hfile : c.filename ≠ none)
    (hname : c.function ≠ none ∨ ∀ d ∈ pre ++ [c], d.function = none) : ShowsCall env fr c := by
  refine ⟨h.function.trans ?_, h.filename.trans ?_, h.line.trans ?_⟩
  · rcases hname with hname | hnone
    · obtain ⟨f, hf⟩ := Option.ne_none_iff_exists'.mp hname
      rw [lastFunction_concat, shownName, hf]
      rfl
    · rw [lastFunction_of_none hnone, shownName, hnone c (by simp)]
      rfl
  · obtain ⟨f, hf⟩ := Option.ne_none_iff_exists'.mp hfile
    rw [lastFilename_concat, hf]
    rfl
  · rw [lastLine_concat]

/-- A frame that shows some callbacks, a file among them, shows one of them iff the last one has its
own location. -/
theorem oneSource_iff {env : Env} {fr : Frame} {calls : List FullCall} (h : fr.Shows env calls)
    (hfile : lastFilename calls ≠ "") : OneSource env fr calls ↔ OwnLocation calls := by
  constructor
  · rintro ⟨pre, c, post, rfl, -, hfunction, hfilename, hline⟩
    obtain rfl := comesFrom_lineNumber_iff.mp hline
    refine ⟨c, by simp, ?_, ?_⟩
    · rcases hfilename with ⟨hset, -⟩ | hnone
      · exact sets_filename_iff.mp hset
      · exact absurd (lastFilename_of_none fun d hd =>
          of_not_not fun hne => hnone d hd (sets_filename_iff.mpr hne)) hfile
    · rcases hfunction with ⟨hset, -⟩ | hnone
      · exact .inl (sets_function_iff.mp hset)
      · exact .inr fun d hd => of_not_not fun hne => hnone d hd (sets_function_iff.mpr hne)
  · rintro ⟨c, hlast, hown, hname⟩
    obtain ⟨pre, rfl⟩ := List.getLast?_eq_some_iff.mp hlast
    refine ⟨pre, c, [], rfl, shows_ownLocation h hown hname, ?_,
      .inl ⟨sets_filename_iff.mpr hown, by simp⟩, comesFrom_lineNumber_iff.mpr rfl⟩
    rcases hname with hname | hnone
    · exact .inl ⟨sets_function_iff.mpr hname, by simp⟩
    · exact .inr fun d hd hset => sets_function_iff.mp hset (hnone d hd)

/-- **Where there is source information, it comes from one callback** iff the last callback brings
its own file, and its own name unless none is known; else the line of the last callback is shown
with the file or the name of another. -/
theorem one_callback_iff {σ : Type} (env : Env) (lib : Library σ) (storage : Frame)
    (address : UIntPtr) (w : World σ)
    (hinfo : (Frame.construct env lib storage address w).1.hasSourceInfo = true) :
    OneSource env (Frame.construct env lib storage address w).1 (Frame.callsFor lib address w) ↔
      OwnLocation (Frame.callsFor lib address w) := by
  refine oneSource_iff ⟨Frame.construct_function .., Frame.construct_sourceFilename .., ?_⟩
    ((Frame.construct_hasSourceInfo ..).mp hinfo).1
  exact Frame.construct_line_of_hasSourceInfo env lib storage address w hinfo

/-- A library that reports one level. -/
theorem one_callback_iff_single :
    let env : Env := ⟨fun _ => ⟨none, -2⟩, fun _ => none⟩
    let w : World Unit := ⟨some 1, fun _ => (), []⟩
    let lib : Library Unit :=
      ⟨fun _ _ => (), fun _ pc => ([.full ⟨pc, some "main.c", 7, some "main"⟩], ())⟩
    OneSource env (Frame.construct env lib ⟨0, "", "", "", 0⟩ 0x1140 w).1
        (Frame.callsFor lib 0x1140 w) ↔
      OwnLocation (Frame.callsFor lib 0x1140 w) :=
  one_callback_iff _ _ _ _ _ (by decide)

/-- An executable in which `helper`, from `util.h`, is inlined into `main` at line 42, with no
file name for the call. -/
def callWithoutFile : Host :=
  Host.oneUnit 0x1000 0x2000 "util.h" 10
    [⟨0x1000, 0x2000, .mk "main" none 0 [⟨0x1100, 0x1200, .mk "helper" none 42 []⟩]⟩]

/-- The frame shows `main at util.h:42`, which no callback reported. -/
theorem location_mixed :
    let env : Env := ⟨fun _ => ⟨none, -2⟩, fun _ => none⟩
    let w : World BacktraceState := ⟨some 1, fun _ => .init none false, []⟩
    let lib := library callWithoutFile
    let fr := (Frame.construct env lib ⟨0, "", "", "", 0⟩ 0x1140 w).1
    let calls := Frame.callsFor lib 0x1140 w
    calls = [⟨0x1140, some "util.h", 10, some "helper"⟩, ⟨0x1140, none, 42, some "main"⟩] ∧
      fr.hasSourceInfo = true ∧ (∀ c ∈ calls, ¬ ShowsCall env fr c) ∧ ¬ OneSource env fr calls ∧
      fr.toString = "0x1140 main at util.h:42\n" := by
  intro env w lib fr calls
  have hshows : ∀ c ∈ calls, ¬ ShowsCall env fr c := by decide
  refine ⟨by decide, by decide, hshows, ?_, by decide⟩
  rintro ⟨pre, c, post, hcalls, hshow, -⟩
  exact hshows c (by rw [hcalls]; simp) hshow

/-! ## Inlined code -/

/-- **In inlined code** the last callback is the one for the function that contains all the others,
and it has its own location iff the call of the outermost inlined function (or, if nothing is
inlined, the pc itself) has a file name. -/
theorem ownLocation_levelCalls_iff (pc : UIntPtr) (f : Function) (pos : Position) :
    OwnLocation (levelCalls pc f pos) ↔
      (((inlineChain pc f).head?.map Function.callSite).getD pos).1 ≠ none := by
  unfold OwnLocation levelCalls
  simp [inlineCalls_snd]

end Bktce
