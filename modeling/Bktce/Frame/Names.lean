import Bktce.Frame

/-!
# Function names

`demangle` (`bktce.cpp:15-30`) hands every name to `abi::__cxa_demangle` and looks only at whether
that has a result. But `__cxa_demangle` also takes the encodings of types, and a function without a
linkage name is reported by its plain name, which can be one: a C function `f` is shown as `float`.

The demangler is a parameter, of which the results assume what is documented (`CxaDemangles`): the
demangling of a valid mangled name, the name of a type for its encoding, and null for the rest.

Results:
* `demangle_eq`: what `demangle` shows for a name.
* `names_faithful_iff`: a frame shows the last name reported, demangled only if it is mangled, iff
  that name is not the encoding of a type with another name.
-/

namespace Bktce

/-- The name is a mangled symbol: it begins with `_Z`. -/
def isMangled (symbol : String) : Bool := symbol.toList.take 2 == ['_', 'Z']

/-- What is documented of `abi::__cxa_demangle`, for the demanglings of the valid mangled names and
the names of the types that have encodings. -/
structure CxaDemangles (cxaDemangle : String → CxaResult)
    (demangling typeName : String → Option String) : Prop where
  mangled : ∀ s, demangling s ≠ none → isMangled s = true
  notMangled : ∀ s, typeName s ≠ none → isMangled s = false
  demangled : ∀ s d, demangling s = some d → cxaDemangle s = ⟨some d, 0⟩
  named : ∀ s t, typeName s = some t → cxaDemangle s = ⟨some t, 0⟩
  rejected : ∀ s, demangling s = none → typeName s = none →
    (cxaDemangle s).result = none ∧ (cxaDemangle s).status ≠ 0

/-- The name to show: the demangling of a mangled name that has one, any other name unchanged. -/
def faithfulName (demangling : String → Option String) (symbol : String) : String :=
  if isMangled symbol then (demangling symbol).getD symbol else symbol

section Faithful

variable {env : Env} {demangling typeName : String → Option String}

/-- **What `demangle` shows**: of a name that is not mangled, the type it encodes, if any. -/
theorem demangle_eq (h : CxaDemangles env.cxaDemangle demangling typeName) (s : String) :
    demangle env s =
      if isMangled s then (demangling s).getD s else (typeName s).getD s := by
  cases hd : demangling s with
  | some d =>
    rw [if_pos (h.mangled s (by rw [hd]; simp)), demangle, h.demangled s d hd]
    rfl
  | none =>
    cases ht : typeName s with
    | some t =>
      rw [if_neg (by rw [h.notMangled s (by rw [ht]; simp)]; simp), demangle, h.named s t ht]
      rfl
    | none =>
      rw [demangle, (h.rejected s hd ht).1]
      simp

/-- A name is shown as it should be iff it is not the encoding of a type with another name. -/
theorem demangle_eq_faithfulName_iff (h : CxaDemangles env.cxaDemangle demangling typeName)
    (s : String) :
    demangle env s = faithfulName demangling s ↔
      isMangled s = true ∨ typeName s = none ∨ typeName s = some s := by
  rw [demangle_eq h, faithfulName]
  by_cases hm : isMangled s = true
  · simp [hm]
  · rw [if_neg hm, if_neg hm]
    cases ht : typeName s with
    | none => simp
    | some t => simp [hm]

end Faithful

theorem lastFunction_eq (env : Env) (calls : List FullCall) :
    lastFunction env calls =
      ((calls.filterMap FullCall.function).getLast?.map (demangle env)).getD "" := by
  rw [lastFunction, List.getLastD_eq_getLast?, List.getLast?_map]

/-- **A frame holds and prints the name it should** iff the last name reported is mangled, or not
the encoding of a type with another name. -/
theorem names_faithful_iff {σ : Type} (env : Env) {demangling typeName : String → Option String}
    (h : CxaDemangles env.cxaDemangle demangling typeName) (lib : Library σ) (storage : Frame)
    (address : UIntPtr) (w : World σ) :
    let fr := (Frame.construct env lib storage address w).1
    let names := (Frame.callsFor lib address w).filterMap FullCall.function
    let name := (names.getLast?.map (faithfulName demangling)).getD ""
    (fr.function = name ∧
      (fr.hasSourceInfo = true → fr.toString = Frame.hexPtr address ++ " " ++
        (name ++ " at " ++ fr.getSourceFilename ++ ":" ++
          Nat.repr fr.getSourceLineNumber.toNat) ++ "\n")) ↔
    ∀ s, names.getLast? = some s → isMangled s = true ∨ typeName s = none ∨
      typeName s = some s := by
  intro fr names name
  have hfun : fr.function = (names.getLast?.map (demangle env)).getD "" := by
    rw [← lastFunction_eq]
    exact Frame.construct_function env lib storage address w
  have hname : fr.function = name ↔
      ∀ s, names.getLast? = some s →
        isMangled s = true ∨ typeName s = none ∨ typeName s = some s := by
    rw [hfun]
    cases hlast : names.getLast? with
    | none => simp [name, hlast]
    | some s =>
      simp only [name, hlast, Option.map_some, Option.getD_some, Option.some.injEq, forall_eq']
      exact demangle_eq_faithfulName_iff h s
  rw [← hname]
  refine ⟨fun h => h.1, fun heq => ⟨heq, fun hs => ?_⟩⟩
  have hnative : fr.native = address := Frame.construct_native env lib storage address w
  rw [Frame.toString, hs, if_pos rfl, hnative, ← heq]
  rfl

/-- The types encoded by a single letter. -/
def builtinType : String → Option String
  | "v" => some "void" | "w" => some "wchar_t" | "b" => some "bool" | "c" => some "char"
  | "a" => some "signed char" | "h" => some "unsigned char" | "s" => some "short"
  | "t" => some "unsigned short" | "i" => some "int" | "j" => some "unsigned int"
  | "l" => some "long" | "m" => some "unsigned long" | "x" => some "long long"
  | "y" => some "unsigned long long" | "n" => some "__int128" | "o" => some "unsigned __int128"
  | "f" => some "float" | "d" => some "double" | "e" => some "long double"
  | "g" => some "__float128" | "z" => some "..."
  | _ => none

/-- The demangling of one symbol. -/
def sutDemangling : String → Option String
  | "_Z3sutv" => some "sut()"
  | _ => none

/-- A demangler of the symbol of `sut` and of the types encoded by a letter. -/
def cxaDemangleSut (s : String) : CxaResult :=
  match sutDemangling s, builtinType s with
  | some d, _ => ⟨some d, 0⟩
  | none, some t => ⟨some t, 0⟩
  | none, none => ⟨none, -2⟩

theorem cxaDemangles_sut : CxaDemangles cxaDemangleSut sutDemangling builtinType where
  mangled s h := by
    unfold sutDemangling at h
    split at h
    · decide
    · exact absurd rfl h
  notMangled s h := by
    unfold builtinType at h
    split at h
    all_goals first | decide | exact absurd rfl h
  demangled s d h := by simp only [cxaDemangleSut, h]
  named s t h := by
    have : sutDemangling s = none := by
      unfold builtinType at h
      split at h
      all_goals first | rfl | simp at h
    simp only [cxaDemangleSut, this, h]
  rejected s h1 h2 := by
    simp only [cxaDemangleSut, h1, h2]
    decide

/-- A library that reports one callback for every pc. -/
def oneCallback (filename : String) (lineno : CInt) (function : String) : Library Unit where
  initState _ _ := ()
  pcinfo _ pc := ([.full ⟨pc, some filename, lineno, some function⟩], ())

/-- The name `_Z3sutv` is shown as `sut()`. -/
theorem names_faithful_sut :
    let lib := oneCallback "callee.cpp" 47 "_Z3sutv"
    (Frame.construct ⟨cxaDemangleSut, fun _ => none⟩ lib ⟨0, "", "", "", 0⟩ 0x1140
      ⟨some 1, fun _ => (), []⟩).1.function = "sut()" :=
  ((names_faithful_iff ⟨cxaDemangleSut, fun _ => none⟩ cxaDemangles_sut
    (oneCallback "callee.cpp" 47 "_Z3sutv") ⟨0, "", "", "", 0⟩ 0x1140
    ⟨some 1, fun _ => (), []⟩).mpr fun s hs => by
      obtain rfl : "_Z3sutv" = s := Option.some.inj hs
      decide).1

/-- A C function `f` is shown as `float`. -/
theorem name_not_faithful :
    let lib := oneCallback "main.c" 7 "f"
    let fr := (Frame.construct ⟨cxaDemangleSut, fun _ => none⟩ lib ⟨0, "", "", "", 0⟩ 0x1140
      ⟨some 1, fun _ => (), []⟩).1
    CxaDemangles cxaDemangleSut sutDemangling builtinType ∧
      fr.function ≠ faithfulName sutDemangling "f" ∧ fr.toString = "0x1140 float at main.c:7\n" :=
  ⟨cxaDemangles_sut, by decide, by decide⟩

end Bktce
