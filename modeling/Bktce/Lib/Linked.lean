import Mathlib.Data.List.Nodup

/-!
# Linked lists

A list whose nodes are threaded through memory. A *link* is where a pointer to a node is kept: the
head of the list (`none`), or the field `next` of the node `p` (`some p`). A memory is given by what
it has at each link (`get`), so a loop `for (pp = &head; *pp != NULL; pp = &(*pp)->next)` runs over
the links of the list.

* `Linked null get l ps`: from the link `l` on, the nodes are `ps`.
* `forLinks`, `findLink`: the loop that looks at every link, and the one that stops at a link.

Results:

* `forLinks_eq`, `findLink_eq`: the loops are a fold and a search over the list of links, and a list
  shorter than the fuel is enough for them to end.
* `Linked.unlink`: a node is taken out by storing its `next` in the link that leads to it.
* `Linked.push`: a node is put in front.
-/

namespace Bktce.Lib

variable {ν : Type} {null : ν} {get : Option ν → ν}

/-- From the link `l` on, the links lead through the nodes `ps` to the null pointer. -/
def Linked (null : ν) (get : Option ν → ν) : Option ν → List ν → Prop
  | l, [] => get l = null
  | l, p :: ps => get l = p ∧ p ≠ null ∧ Linked null get (some p) ps

/-- The link behind the nodes `ps`. -/
def endLink : Option ν → List ν → Option ν
  | l, [] => l
  | _, p :: ps => endLink (some p) ps

/-- The links that lead to the nodes `ps`. -/
def links : Option ν → List ν → List (Option ν)
  | _, [] => []
  | l, p :: ps => l :: links (some p) ps

theorem endLink_mem (l : Option ν) (ps : List ν) : endLink l ps ∈ l :: ps.map some := by
  induction ps generalizing l with
  | nil => exact List.mem_cons_self
  | cons p ps ih => exact List.mem_cons_of_mem _ (ih (some p))

theorem endLink_concat (l : Option ν) (ps : List ν) (p : ν) : endLink l (ps ++ [p]) = some p := by
  induction ps generalizing l with
  | nil => rfl
  | cons q ps ih => exact ih (some q)

theorem links_concat (l : Option ν) (ps : List ν) (p : ν) :
    links l (ps ++ [p]) = links l ps ++ [endLink l ps] := by
  induction ps generalizing l with
  | nil => rfl
  | cons q ps ih => exact congrArg (l :: ·) (ih (some q))

namespace Linked

theorem congr {get' : Option ν → ν} {ps : List ν} : ∀ {l : Option ν}, Linked null get l ps →
    get' l = get l → (∀ p ∈ ps, get' (some p) = get (some p)) → Linked null get' l ps := by
  induction ps with
  | nil => exact fun h hl _ => hl.trans h
  | cons p ps ih =>
    rintro l ⟨hp, hne, htail⟩ hl hps
    rw [List.forall_mem_cons] at hps
    exact ⟨hl.trans hp, hne, ih htail hps.1 hps.2⟩

theorem ne_null {ps : List ν} : ∀ {l : Option ν}, Linked null get l ps → ∀ p ∈ ps, p ≠ null := by
  induction ps with
  | nil => exact fun _ p hp => (by cases hp)
  | cons p ps ih =>
    rintro l ⟨-, hne, htail⟩
    exact List.forall_mem_cons.mpr ⟨hne, ih htail⟩

/-- The link behind the first nodes leads to the others. -/
theorem behind {front back : List ν} : ∀ {l : Option ν}, Linked null get l (front ++ back) →
    Linked null get (endLink l front) back := by
  induction front with
  | nil => exact fun h => h
  | cons p front ih => exact fun ⟨_, _, htail⟩ => ih htail

/-- **A node is taken out** by storing its `next` in the link that leads to it. -/
theorem unlink {get' : Option ν → ν} {p : ν} {front back : List ν} : ∀ {l : Option ν},
    Linked null get l (front ++ p :: back) → (l :: (front ++ back).map some).Nodup →
      get' (endLink l front) = get (some p) →
      (∀ l' ∈ l :: (front ++ back).map some, l' ≠ endLink l front → get' l' = get l') →
      Linked null get' l (front ++ back) := by
  induction front with
  | nil =>
    rintro l ⟨hp, -, htail⟩ hnodup hedit hother
    rw [endLink] at hedit hother
    have hrest : ∀ q ∈ back, get' (some q) = get (some q) := fun q hq =>
      have hmem : some q ∈ back.map some := List.mem_map_of_mem hq
      hother _ (List.mem_cons_of_mem _ hmem) fun heq => (List.nodup_cons.mp hnodup).1 (heq ▸ hmem)
    cases back with
    | nil => exact hedit.trans htail
    | cons q back =>
      obtain ⟨hq, hne, htail⟩ := htail
      rw [List.forall_mem_cons] at hrest
      exact ⟨hedit.trans hq, hne, htail.congr hrest.1 hrest.2⟩
  | cons q front ih =>
    rintro l ⟨hq, hne, htail⟩ hnodup hedit hother
    rw [List.cons_append, List.map_cons, List.nodup_cons] at hnodup
    have hl : l ≠ endLink (some q) front := fun heq => by
      refine hnodup.1 (heq ▸ List.mem_cons.mpr ?_)
      rw [List.map_append, List.mem_append]
      exact (List.mem_cons.mp (endLink_mem (some q) front)).imp_right Or.inl
    exact ⟨(hother l List.mem_cons_self hl).trans hq, hne, ih htail hnodup.2 hedit
      fun l' hl' => hother l' (List.mem_cons_of_mem _ hl')⟩

/-- **A node is put in front.** -/
theorem push {get' : Option ν → ν} {p : ν} {ps : List ν} (h : Linked null get none ps)
    (hp : p ≠ null) (hhead : get' none = p) (hnext : get' (some p) = get none)
    (hother : ∀ q ∈ ps, get' (some q) = get (some q)) : Linked null get' none (p :: ps) := by
  refine ⟨hhead, hp, ?_⟩
  cases ps with
  | nil => exact hnext.trans h
  | cons q ps =>
    obtain ⟨hq, hne, htail⟩ := h
    rw [List.forall_mem_cons] at hother
    exact ⟨hnext.trans hq, hne, htail.congr hother.1 hother.2⟩

end Linked

/-! ## Loops -/

section Loops

variable [DecidableEq ν] {σ : Type}

/-- The loop over all links of a list. -/
def forLinks (null : ν) (get : Option ν → ν) (f : σ → Option ν → σ) :
    Nat → Option ν → σ → Option σ
  | 0, _, _ => none
  | fuel + 1, l, s =>
    if get l = null then some s else forLinks null get f fuel (some (get l)) (f s l)

/-- The loop that stops at the first link of which `test` holds. -/
def findLink (null : ν) (get : Option ν → ν) (test : Option ν → Bool) :
    Nat → Option ν → Option (Option (Option ν))
  | 0, _ => none
  | fuel + 1, l =>
    if get l = null then some none
    else if test l then some (some l)
    else findLink null get test fuel (some (get l))

theorem forLinks_eq {f : σ → Option ν → σ} {ps : List ν} : ∀ {fuel : Nat} {l : Option ν} {s : σ},
    Linked null get l ps → ps.length < fuel →
      forLinks null get f fuel l s = some ((links l ps).foldl f s) := by
  induction ps with
  | nil =>
    rintro (_ | fuel) l s (hnull : get l = null) hfuel
    · cases hfuel
    · rw [forLinks, if_pos hnull]
      rfl
  | cons p ps ih =>
    rintro (_ | fuel) l s ⟨rfl, hne, htail⟩ hfuel
    · cases hfuel
    · rw [forLinks, if_neg hne, ih htail (Nat.lt_of_succ_lt_succ hfuel)]
      rfl

theorem findLink_eq {test : Option ν → Bool} {ps : List ν} : ∀ {fuel : Nat} {l : Option ν},
    Linked null get l ps → ps.length < fuel →
      findLink null get test fuel l = some ((links l ps).find? test) := by
  induction ps with
  | nil =>
    rintro (_ | fuel) l (hnull : get l = null) hfuel
    · cases hfuel
    · rw [findLink, if_pos hnull]
      rfl
  | cons p ps ih =>
    rintro (_ | fuel) l ⟨rfl, hne, htail⟩ hfuel
    · cases hfuel
    · rw [findLink, if_neg hne, links, List.find?_cons]
      cases htest : test l with
      | true => rfl
      | false => exact ih htail (Nat.lt_of_succ_lt_succ hfuel)

end Loops

end Bktce.Lib
