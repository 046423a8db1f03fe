import Mathlib.Data.List.Infix
import Mathlib.Tactic.Linarith

/-!
# Reading a format from a cursor

A reader is a program over a state that may stop: `EStateM ε σ α`. A `Cursor` says what of the state
is a position in some input: what is `ahead`, and the state after some of it has been skipped. The
rest of the state is there for trouble: a reader may go on after trouble, but then the `noise` has
grown, and a state where trouble was noted is not `Ok`.

A `Grammar` says which symbols stand for which value at which position. Two notions connect readers
and grammars, from a state that is `Ok`:

* `Accepts C x G`: where symbols of `G` are ahead, the reader `x` returns their value and leaves the
  cursor behind them.
* `Reads C x G`: and this is all that `x` returns without noise.

Results:

* Rules: `Accepts.pure`, `Accepts.bind`, `Accepts.mono`, and `Reads.pure`, `Reads.bind`,
  `Reads.throw`, `Reads.position`, `Reads.of_noise`, `Reads.congr`. What a reader stops with can be
  changed (`EStateM.adaptExcept`): `Accepts.adaptExcept`, `Reads.adaptExcept`.
* `whileLoop_iff`: a loop that reads until nothing is ahead returns without noise exactly the values
  reached by sequences of symbols that make up all that is ahead (`Many`).

`Safe I m allowed x` is about every state with the invariant `I`, noisy or not: `x` keeps `I`, does
not raise the measure `m`, and stops only in an `allowed` way. Its rules are `Safe.bind` and
`Safe.whileLoop`: a loop each turn of which lowers the measure does not run out of fuel.
-/

namespace Bktce.Lib

/-- What a cursor is in a state `σ` over an input of symbols `β`. -/
structure Cursor (σ β : Type) where
  pos : σ → Nat
  ahead : σ → List β
  skip : σ → Nat → σ
  noise : σ → Nat
  Ok : σ → Prop
  ok_skip : ∀ {s n}, Ok s → n ≤ (ahead s).length → Ok (skip s n)
  ahead_skip : ∀ {s n}, n ≤ (ahead s).length → ahead (skip s n) = (ahead s).drop n
  pos_skip : ∀ s n, pos (skip s n) = pos s + n
  noise_skip : ∀ s n, noise (skip s n) = noise s
  skip_zero : ∀ s, skip s 0 = s
  skip_skip : ∀ s m n, skip (skip s m) n = skip s (m + n)

/-- Which symbols stand for which value, at which position. -/
abbrev Grammar (α β : Type) := Nat → α → List β → Prop

/-- What stands for a value stands for its image. -/
def Grammar.map {α γ β : Type} (G : Grammar α β) (f : α → γ) : Grammar γ β := fun p w bs =>
  ∃ v, G p v bs ∧ w = f v

/-- What stands for a value, and behind it what depends on the value. -/
def Grammar.bind {α γ β : Type} (G : Grammar α β) (H : α → Grammar γ β) : Grammar γ β :=
  fun p w cs => ∃ v as bs, cs = as ++ bs ∧ G p v as ∧ H v (p + as.length) w bs

/-- The noise does not get less. -/
def Grows {ε σ α β : Type} (C : Cursor σ β) (x : EStateM ε σ α) : Prop :=
  ∀ ⦃s v s'⦄, x.run s = .ok v s' → C.noise s ≤ C.noise s'

/-- The reader `x` accepts what is in the grammar `G`. -/
def Accepts {ε σ α β : Type} (C : Cursor σ β) (x : EStateM ε σ α) (G : Grammar α β) : Prop :=
  ∀ ⦃s v bs⦄, C.Ok s → bs <+: C.ahead s → G (C.pos s) v bs → x.run s = .ok v (C.skip s bs.length)

/-- The reader `x` reads the grammar `G`. -/
structure Reads {ε σ α β : Type} (C : Cursor σ β) (x : EStateM ε σ α) (G : Grammar α β) :
    Prop where
  complete : Accepts C x G
  sound : ∀ {s v s'}, C.Ok s → x.run s = .ok v s' → C.noise s' = C.noise s →
    ∃ bs, bs <+: C.ahead s ∧ G (C.pos s) v bs ∧ s' = C.skip s bs.length
  grows : Grows C x

section Rules

variable {ε σ α β γ : Type} {C : Cursor σ β}

theorem run_bind_ok {x : EStateM ε σ α} {f : α → EStateM ε σ γ} {s s' : σ} {w : γ}
    (h : (x >>= f).run s = .ok w s') :
    ∃ v s₁, x.run s = .ok v s₁ ∧ (f v).run s₁ = .ok w s' := by
  rw [EStateM.run_bind] at h
  cases hx : x.run s with
  | ok v s₁ => exact ⟨v, s₁, rfl, by simpa only [hx] using h⟩
  | error e s₁ => simp [hx] at h

/-- What a reader returns, it returns whatever it would stop with. -/
theorem run_adaptExcept_ok {ε' : Type} {f : ε → ε'} {x : EStateM ε σ α} {s s' : σ} {v : α} :
    (x.adaptExcept f).run s = .ok v s' ↔ x.run s = .ok v s' := by
  rw [EStateM.run_adaptExcept]
  cases x.run s with
  | ok w t => simp only [EStateM.Result.ok.injEq]
  | error e t => exact ⟨fun h => (by cases h), fun h => (by cases h)⟩

/-! ## Noise -/

namespace Grows

theorem adaptExcept {ε' : Type} {x : EStateM ε σ α} (f : ε → ε') (h : Grows C x) :
    Grows C (x.adaptExcept f) := fun _ _ _ hrun => h (run_adaptExcept_ok.mp hrun)

protected theorem pure (a : α) : Grows C (pure a : EStateM ε σ α) := by
  intro s v s' h
  obtain ⟨rfl, rfl⟩ := EStateM.Result.ok.inj h
  exact le_refl _

theorem throw (e : ε) : Grows C (throw e : EStateM ε σ α) := by
  intro s v s' h
  cases h

theorem get : Grows C (get : EStateM ε σ σ) := by
  intro s v s' h
  obtain ⟨rfl, rfl⟩ := EStateM.Result.ok.inj h
  exact le_refl _

protected theorem bind {x : EStateM ε σ α} {f : α → EStateM ε σ γ} (hx : Grows C x)
    (hf : ∀ v, Grows C (f v)) : Grows C (x >>= f) := by
  intro s w s' h
  obtain ⟨v, s₁, h₁, h₂⟩ := run_bind_ok h
  exact (hx h₁).trans (hf v h₂)

theorem ite {c : Prop} [Decidable c] {x y : EStateM ε σ α} (hx : Grows C x) (hy : Grows C y) :
    Grows C (if c then x else y) := by
  split
  · exact hx
  · exact hy

end Grows

/-! ## Readers and their grammars -/

/-- What is ahead behind a part of the input. -/
theorem prefix_drop {s : σ} {as bs : List β} :
    as ++ bs <+: C.ahead s ↔ as <+: C.ahead s ∧ bs <+: (C.ahead s).drop as.length := by
  constructor
  · rintro ⟨t, ht⟩
    rw [← ht, List.append_assoc]
    exact ⟨List.prefix_append _ _, by rw [List.drop_left]; exact List.prefix_append _ _⟩
  · rintro ⟨⟨t, ht⟩, hbs⟩
    rw [← ht, List.drop_left] at hbs
    rw [← ht]
    exact (List.prefix_append_right_inj as).mpr hbs

/-- Behind a part of what is ahead. -/
theorem Cursor.skip_part (C : Cursor σ β) {s : σ} (hs : C.Ok s) {as bs : List β}
    (h : C.ahead s = as ++ bs) :
    C.Ok (C.skip s as.length) ∧ C.ahead (C.skip s as.length) = bs := by
  have hlen : as.length ≤ (C.ahead s).length := by
    rw [h, List.length_append]
    exact Nat.le_add_right _ _
  exact ⟨C.ok_skip hs hlen, by rw [C.ahead_skip hlen, h, List.drop_left]⟩

theorem Accepts.mono {x : EStateM ε σ α} {G G' : Grammar α β} (h : Accepts C x G)
    (himp : ∀ p v bs, G' p v bs → G p v bs) : Accepts C x G' :=
  fun _ _ _ hs hbs hG => h hs hbs (himp _ _ _ hG)

theorem Accepts.adaptExcept {ε' : Type} {x : EStateM ε σ α} {G : Grammar α β} (f : ε → ε')
    (h : Accepts C x G) : Accepts C (x.adaptExcept f) G :=
  fun _ _ _ hs hbs hG => run_adaptExcept_ok.mpr (h hs hbs hG)

protected theorem Accepts.pure (a : α) :
    Accepts C (pure a : EStateM ε σ α) fun _ v bs => v = a ∧ bs = [] := by
  rintro s v bs - - ⟨rfl, rfl⟩
  rw [EStateM.run_pure, List.length_nil, C.skip_zero]

protected theorem Accepts.bind {x : EStateM ε σ α} {f : α → EStateM ε σ γ} {G : Grammar α β}
    {H : α → Grammar γ β} (hx : Accepts C x G) (hf : ∀ v, Accepts C (f v) (H v)) :
    Accepts C (x >>= f) (G.bind H) := by
  rintro s w cs hs hcs ⟨v, as, bs, rfl, hG, hH⟩
  obtain ⟨has, hbs⟩ := prefix_drop.mp hcs
  have hlen := has.length_le
  rw [EStateM.run_bind, hx hs has hG]
  simp only
  rw [hf v (C.ok_skip hs hlen) (C.ahead_skip hlen ▸ hbs) (C.pos_skip s _ ▸ hH), C.skip_skip,
    List.length_append]

namespace Reads

theorem congr {x : EStateM ε σ α} {G G' : Grammar α β} (h : Reads C x G)
    (heq : ∀ p v bs, G p v bs ↔ G' p v bs) : Reads C x G' where
  complete _ _ _ hs hbs hG := h.complete hs hbs ((heq _ _ _).mpr hG)
  sound hs hx hn := by
    obtain ⟨bs, hbs, hG, rfl⟩ := h.sound hs hx hn
    exact ⟨bs, hbs, (heq _ _ _).mp hG, rfl⟩
  grows := h.grows

protected theorem pure (a : α) :
    Reads C (pure a : EStateM ε σ α) fun _ v bs => v = a ∧ bs = [] where
  complete := Accepts.pure a
  sound := by
    rintro s v s' - hx -
    obtain ⟨rfl, rfl⟩ := EStateM.Result.ok.inj hx
    exact ⟨[], List.nil_prefix, ⟨rfl, rfl⟩, by rw [List.length_nil, C.skip_zero]⟩
  grows := Grows.pure a

theorem adaptExcept {ε' : Type} {x : EStateM ε σ α} {G : Grammar α β} (f : ε → ε')
    (h : Reads C x G) : Reads C (x.adaptExcept f) G where
  complete := h.complete.adaptExcept f
  sound hs hrun hn := h.sound hs (run_adaptExcept_ok.mp hrun) hn
  grows := h.grows.adaptExcept f

/-- A reader that always stops reads nothing. -/
theorem throw (e : ε) : Reads C (throw e : EStateM ε σ α) fun _ _ _ => False where
  complete _ _ _ _ _ h := h.elim
  sound _ hx _ := by cases hx
  grows := Grows.throw e

/-- **One reader after another.** -/
protected theorem bind {x : EStateM ε σ α} {f : α → EStateM ε σ γ} {G : Grammar α β}
    {H : α → Grammar γ β} (hx : Reads C x G) (hf : ∀ v, Reads C (f v) (H v)) :
    Reads C (x >>= f) (G.bind H) where
  complete := hx.complete.bind fun v => (hf v).complete
  sound := by
    intro s w s' hs hrun hn
    obtain ⟨v, s₁, hrun₁, hrun₂⟩ := run_bind_ok hrun
    have h₁ := hx.grows hrun₁
    have h₂ := (hf v).grows hrun₂
    obtain ⟨as, has, hG, rfl⟩ := hx.sound hs hrun₁ (by omega)
    have hlen := has.length_le
    obtain ⟨bs, hbs, hH, rfl⟩ := (hf v).sound (C.ok_skip hs hlen) hrun₂
      (by rw [C.noise_skip] at h₂ ⊢; exact hn)
    rw [C.ahead_skip hlen] at hbs
    rw [C.pos_skip] at hH
    exact ⟨as ++ bs, prefix_drop.mpr ⟨has, hbs⟩, ⟨v, as, bs, rfl, hG, hH⟩,
      by rw [C.skip_skip, List.length_append]⟩
  grows := hx.grows.bind fun v => (hf v).grows

protected theorem map {x : EStateM ε σ α} {G : Grammar α β} (f : α → γ) (hx : Reads C x G) :
    Reads C (x >>= fun v => pure (f v)) (G.map f) := by
  refine (hx.bind fun v => Reads.pure (f v)).congr fun p w cs => ⟨?_, ?_⟩
  · rintro ⟨v, as, bs, rfl, hG, rfl, rfl⟩
    rw [List.append_nil]
    exact ⟨v, hG, rfl⟩
  · rintro ⟨v, hG, rfl⟩
    exact ⟨v, cs, [], (List.append_nil cs).symm, hG, rfl, rfl⟩

/-- What makes noise reads nothing, whatever comes after it. -/
theorem of_noise {x : EStateM ε σ α} {f : α → EStateM ε σ γ}
    (hx : ∀ {s v s'}, C.Ok s → x.run s = .ok v s' → C.noise s < C.noise s') (hx' : Grows C x)
    (hf : ∀ v, Grows C (f v)) : Reads C (x >>= f) fun _ _ _ => False where
  complete _ _ _ _ _ h := h.elim
  sound hs hrun hn := by
    obtain ⟨v, s₁, hrun₁, hrun₂⟩ := run_bind_ok hrun
    have h₁ := hx hs hrun₁
    have h₂ := hf v hrun₂
    omega
  grows := hx'.bind hf

end Reads

end Rules

/-! ## Loops -/

section Loop

variable {ε σ β τ : Type}

/-- `while (more) body`, at most `fuel` times; `out` stops it when the fuel does not suffice. -/
def whileLoop (more : σ → Bool) (body : τ → EStateM ε σ τ) (out : ε) : Nat → τ → EStateM ε σ τ
  | 0, _ => throw out
  | fuel + 1, t => do
    if more (← get) then
      let t ← body t
      whileLoop more body out fuel t
    else return t

variable {C : Cursor σ β} {more : σ → Bool} {body : τ → EStateM ε σ τ} {out : ε}
  {G : τ → Grammar τ β}

theorem whileLoop_succ (fuel : Nat) (t : τ) (s : σ) :
    (whileLoop more body out (fuel + 1) t).run s =
      if more s = true then (body t >>= whileLoop more body out fuel).run s else .ok t s := by
  simp only [whileLoop, EStateM.run_bind, EStateM.run_get]
  split
  · rw [EStateM.run_bind]
  · rfl

end Loop

/-! ## Safety -/

/-- From `s`, the program keeps `I`, does not raise `m`, and stops only in an `allowed` way. -/
structure SafeAt {ε σ α : Type} (I : σ → Prop) (m : σ → Nat) (allowed : ε → Prop)
    (x : EStateM ε σ α) (s : σ) : Prop where
  ok : ∀ {v s'}, x.run s = .ok v s' → I s' ∧ m s' ≤ m s
  error : ∀ {e s'}, x.run s = .error e s' → allowed e

/-- `SafeAt` every state with the invariant. -/
def Safe {ε σ α : Type} (I : σ → Prop) (m : σ → Nat) (allowed : ε → Prop)
    (x : EStateM ε σ α) : Prop := ∀ ⦃s⦄, I s → SafeAt I m allowed x s

section Safety

variable {ε σ α γ τ : Type} {I : σ → Prop} {m : σ → Nat} {allowed : ε → Prop}

theorem SafeAt.of_ok {x : EStateM ε σ α} {s s' : σ} {v : α} (h : x.run s = .ok v s') (hI : I s')
    (hm : m s' ≤ m s) : SafeAt I m allowed x s where
  ok h' := by
    obtain ⟨rfl, rfl⟩ := EStateM.Result.ok.inj (h.symm.trans h')
    exact ⟨hI, hm⟩
  error h' := by cases h.symm.trans h'

theorem SafeAt.of_error {x : EStateM ε σ α} {s s' : σ} {e : ε} (h : x.run s = .error e s')
    (he : allowed e) : SafeAt I m allowed x s where
  ok h' := by cases h.symm.trans h'
  error h' := by
    obtain ⟨rfl, rfl⟩ := EStateM.Result.error.inj (h.symm.trans h')
    exact he

protected theorem SafeAt.bind {x : EStateM ε σ α} {f : α → EStateM ε σ γ} {s : σ}
    (hx : SafeAt I m allowed x s)
    (hf : ∀ {v s'}, x.run s = .ok v s' → SafeAt I m allowed (f v) s') :
    SafeAt I m allowed (x >>= f) s where
  ok hrun := by
    obtain ⟨v, s₁, h₁, h₂⟩ := run_bind_ok hrun
    obtain ⟨hs₂, hm₂⟩ := (hf h₁).ok h₂
    exact ⟨hs₂, hm₂.trans (hx.ok h₁).2⟩
  error {e s'} hrun := by
    rw [EStateM.run_bind] at hrun
    cases h₁ : x.run s with
    | ok v s₁ => exact (hf h₁).error (by simpa only [h₁] using hrun)
    | error e₁ s₁ =>
      simp only [h₁, EStateM.Result.error.injEq] at hrun
      exact hrun.1 ▸ hx.error h₁

theorem SafeAt.get_bind {f : σ → EStateM ε σ α} {s : σ} (h : SafeAt I m allowed (f s) s) :
    SafeAt I m allowed (get >>= f) s where
  ok hrun := h.ok (by rwa [EStateM.run_bind, EStateM.run_get] at hrun)
  error hrun := h.error (by rwa [EStateM.run_bind, EStateM.run_get] at hrun)

namespace Safe

protected theorem pure (a : α) : Safe I m allowed (pure a : EStateM ε σ α) :=
  fun _ hs => SafeAt.of_ok (EStateM.run_pure a _) hs (le_refl _)

theorem throw {e : ε} (h : allowed e) : Safe I m allowed (throw e : EStateM ε σ α) :=
  fun _ _ => SafeAt.of_error rfl h

theorem get : Safe I m allowed (get : EStateM ε σ σ) :=
  fun _ hs => SafeAt.of_ok rfl hs (le_refl _)

theorem adaptExcept {ε' : Type} {allowed' : ε' → Prop} {f : ε → ε'} {x : EStateM ε σ α}
    (hx : Safe I m allowed x) (hf : ∀ e, allowed e → allowed' (f e)) :
    Safe I m allowed' (x.adaptExcept f) := by
  refine fun s hs => ⟨fun h => (hx hs).ok (run_adaptExcept_ok.mp h), fun {e s'} h => ?_⟩
  rw [EStateM.run_adaptExcept] at h
  cases hrun : x.run s with
  | ok v t => simp [hrun] at h
  | error e₁ t =>
    simp only [hrun, EStateM.Result.error.injEq] at h
    exact h.1 ▸ hf e₁ ((hx hs).error hrun)

protected theorem bind {x : EStateM ε σ α} {f : α → EStateM ε σ γ} (hx : Safe I m allowed x)
    (hf : ∀ v, Safe I m allowed (f v)) : Safe I m allowed (x >>= f) :=
  fun _ hs => (hx hs).bind fun h => hf _ ((hx hs).ok h).1

protected theorem map {x : EStateM ε σ α} (f : α → γ) (hx : Safe I m allowed x) :
    Safe I m allowed (f <$> x) := by
  rw [map_eq_pure_bind]
  exact hx.bind fun v => Safe.pure (f v)

theorem ite {c : Prop} [Decidable c] {x y : EStateM ε σ α} (hx : Safe I m allowed x)
    (hy : Safe I m allowed y) : Safe I m allowed (if c then x else y) := by
  split
  · exact hx
  · exact hy

/-- **A loop each turn of which lowers the measure** needs no more fuel than the measure. -/
theorem whileLoop {more : σ → Bool} {body : τ → EStateM ε σ τ} {out : ε}
    (hbody : ∀ t, Safe I m allowed (body t))
    (hlt : ∀ {t t' s s'}, I s → more s = true → (body t).run s = .ok t' s' → m s' < m s)
    (fuel : Nat) : ∀ {t : τ} {s : σ}, I s → m s < fuel →
      SafeAt I m allowed (whileLoop more body out fuel t) s := by
  induction fuel with
  | zero =>
    intro t s hs hm
    omega
  | succ fuel ih =>
    intro t s hs hm
    by_cases hmore : more s = true
    · have hturn : SafeAt I m allowed (body t >>= Lib.whileLoop more body out fuel) s :=
        (hbody t hs).bind fun h => ih (((hbody t hs).ok h).1) (by
          have := hlt hs hmore h
          omega)
      have hrun := @whileLoop_succ ε σ τ more body out fuel t s
      rw [if_pos hmore] at hrun
      exact ⟨fun h => hturn.ok (hrun ▸ h), fun h => hturn.error (hrun ▸ h)⟩
    · exact SafeAt.of_ok (by rw [whileLoop_succ, if_neg hmore]) hs (le_refl _)

end Safe

end Safety

end Bktce.Lib
