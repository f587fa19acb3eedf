import Mathlib.Data.List.FinRange
import Mathlib.Data.Set.Card

/-!
# Tables with holes as finite maps

An entry is a key and a value, and a place without an entry is free. What is given up leaves a hole
anywhere, so a key is looked for in all places.

* `lookup` — the value of a key
* `Distinct` — no key has two places; `Distinct.put` and `Distinct.erase` keep it
* `Distinct.ncard_keys` — **all places are taken if and only if there are as many keys as places**
-/

namespace Ittrium.Infra

variable {n : Nat} {κ ν : Type*}

/-- Places for `n` entries. -/
abbrev Slots (n : Nat) (κ ν : Type*) := Fin n → Option (κ × ν)

/-- No key has two places. -/
def Distinct (t : Slots n κ ν) : Prop :=
  ∀ i j v w, t i = some v → t j = some w → v.1 = w.1 → i = j

/-- The key in a place. -/
def keyAt (t : Slots n κ ν) (i : Fin n) : Option κ := (t i).map Prod.fst

variable {t : Slots n κ ν} {i : Fin n} {k : κ} {x : ν}

theorem distinct_empty : Distinct (fun _ => none : Slots n κ ν) := by
  intro i j v w hv
  cases hv

theorem Distinct.injOn_keyAt (h : Distinct t) : Set.InjOn (keyAt t) {i | t i ≠ none} := by
  intro i hi j hj hk
  obtain ⟨v, hv⟩ := Option.ne_none_iff_exists'.mp hi
  obtain ⟨w, hw⟩ := Option.ne_none_iff_exists'.mp hj
  refine h i j v w hv hw ?_
  simpa [keyAt, hv, hw] using hk

/-! ## Changing one place -/

/-- The key has no place but `i`. -/
def Avoids (k : κ) (i : Fin n) (t : Slots n κ ν) : Prop := ∀ j, j ≠ i → ∀ v, t j = some v → v.1 ≠ k

theorem Distinct.avoids (h : Distinct t) (hi : t i = some (k, x)) : Avoids k i t := by
  intro j hji v hv hk
  exact hji (h j i _ _ hv hi hk)

theorem Distinct.put (h : Distinct t) (ha : Avoids k i t) :
    Distinct (Function.update t i (some (k, x))) := by
  intro a b v w hv hw hk
  by_cases hai : a = i
  · by_cases hbi : b = i
    · rw [hai, hbi]
    · rw [hai, Function.update_self] at hv
      rw [Function.update_of_ne hbi] at hw
      cases hv
      exact absurd hk.symm (ha b hbi w hw)
  · rw [Function.update_of_ne hai] at hv
    by_cases hbi : b = i
    · rw [hbi, Function.update_self] at hw
      cases hw
      exact absurd hk (ha a hai v hv)
    · rw [Function.update_of_ne hbi] at hw
      exact h a b v w hv hw hk

theorem Distinct.erase (h : Distinct t) : Distinct (Function.update t i none) := by
  have hof : ∀ {j v}, Function.update t i none j = some v → t j = some v := by
    intro j v hj
    by_cases hji : j = i
    · simp [hji] at hj
    · rwa [Function.update_of_ne hji] at hj
  exact fun a b v w hv hw => h a b v w (hof hv) (hof hw)

/-! ## Looking a key up -/

variable [DecidableEq κ]

/-- The value in the first place with the key. -/
def lookup (k : κ) (t : Slots n κ ν) : Option ν :=
  (List.finRange n).findSome? fun i => (t i).bind fun v => if v.1 = k then some v.2 else none

theorem lookup_eq_none : lookup k t = none ↔ ∀ i v, t i = some v → v.1 ≠ k := by
  unfold lookup
  rw [List.findSome?_eq_none_iff]
  constructor
  · intro h i v hi hk
    have := h i (List.mem_finRange i)
    simp [hi, hk] at this
  · intro h i _
    cases hi : t i with
    | none => rfl
    | some v => simp [h i v hi]

theorem Distinct.lookup_eq_some (h : Distinct t) : lookup k t = some x ↔ ∃ i, t i = some (k, x) := by
  constructor
  · intro hx
    obtain ⟨i, -, hi⟩ := List.exists_of_findSome?_eq_some hx
    obtain ⟨v, hv, hk⟩ := Option.bind_eq_some_iff.mp hi
    refine ⟨i, ?_⟩
    split at hk
    · next hkey =>
      cases hk
      rw [hv, ← hkey]
    · cases hk
  · rintro ⟨i, hi⟩
    cases hx : lookup k t with
    | none => exact absurd rfl (lookup_eq_none.mp hx i _ hi)
    | some y =>
      -- the place found has the same key
      obtain ⟨j, -, hj⟩ := List.exists_of_findSome?_eq_some hx
      obtain ⟨v, hv, hk⟩ := Option.bind_eq_some_iff.mp hj
      split at hk
      · next hkey =>
        obtain rfl := h i j _ _ hi hv hkey.symm
        rw [hi] at hv
        cases hv
        exact hk.symm
      · cases hk

theorem avoids_of_lookup (h : lookup k t = none) : Avoids k i t := fun j _ v hv =>
  lookup_eq_none.mp h j v hv

theorem Distinct.lookup_put (h : Distinct t) (ha : Avoids k i t) :
    lookup k (Function.update t i (some (k, x))) = some x :=
  (h.put ha).lookup_eq_some.mpr ⟨i, by rw [Function.update_self]⟩

/-- Another key is looked for in the other places only. -/
theorem lookup_update_of_ne {e : Option (κ × ν)} (hold : ∀ v, t i = some v → v.1 ≠ k)
    (hnew : ∀ v, e = some v → v.1 ≠ k) : lookup k (Function.update t i e) = lookup k t := by
  have hskip : ∀ {e : Option (κ × ν)}, (∀ v, e = some v → v.1 ≠ k) →
      (e.bind fun v => if v.1 = k then some v.2 else none) = none := by
    intro e he
    cases e with
    | none => rfl
    | some v => simp [he v rfl]
  unfold lookup
  congr 1
  funext j
  by_cases hji : j = i
  · rw [hji, Function.update_self, hskip hnew, hskip hold]
  · rw [Function.update_of_ne hji]

theorem Distinct.lookup_erase (h : Distinct t) (hi : t i = some (k, x)) :
    lookup k (Function.update t i none) = none := by
  rw [lookup_eq_none]
  intro j v hj
  by_cases hji : j = i
  · simp [hji] at hj
  · rw [Function.update_of_ne hji] at hj
    exact h.avoids hi j hji v hj

/-! ## The number of keys -/

theorem image_keyAt : keyAt t '' {i | t i ≠ none} = some '' {k | lookup k t ≠ none} := by
  ext k
  constructor
  · rintro ⟨i, hi, rfl⟩
    obtain ⟨v, hv⟩ := Option.ne_none_iff_exists'.mp hi
    refine ⟨v.1, fun hnone => lookup_eq_none.mp hnone i v hv rfl, ?_⟩
    simp [keyAt, hv]
  · rintro ⟨k, hk, rfl⟩
    have hsome : ¬ ∀ i v, t i = some v → v.1 ≠ k := mt lookup_eq_none.mpr hk
    push Not at hsome
    obtain ⟨i, v, hv, rfl⟩ := hsome
    exact ⟨i, by simp [hv], by simp [keyAt, hv]⟩

/-- **All places are taken if and only if there are as many keys as places.** -/
theorem Distinct.ncard_keys (h : Distinct t) :
    {k | lookup k t ≠ none}.ncard = n ↔ ∀ i, t i ≠ none := by
  have hcard : {k | lookup k t ≠ none}.ncard = {i | t i ≠ none}.ncard := by
    rw [← Set.ncard_image_of_injective _ (Option.some_injective κ), ← image_keyAt,
      h.injOn_keyAt.ncard_image]
  have huniv := Set.eq_univ_iff_ncard {i | t i ≠ none}
  rw [Nat.card_eq_fintype_card, Fintype.card_fin] at huniv
  rw [hcard, ← huniv, Set.eq_univ_iff_forall]
  rfl

end Ittrium.Infra
