import Mathlib.Data.List.FinRange

/-!
# Tables whose entries in use come first

A new entry takes the first free place and no entry is ever given up. Then the place of an entry
among those in use is its index, and it stays so while the table grows.

* `Filled` — the entries in use come first
* `Filled.getElem?_filter` — **the `k`-th entry in use is the entry `k`**
-/

namespace Ittrium.Infra

variable {n : Nat} {used used' : Fin n → Bool}

/-- Before an entry in use all entries are in use. -/
def Filled (used : Fin n → Bool) : Prop := ∀ i j, j < i → used i = true → used j = true

/-- The first free place is taken. -/
theorem Filled.take {i : Fin n} (h : Filled used) (hbefore : ∀ j < i, used j = true)
    (hi : used' i = true) (hother : ∀ j, j ≠ i → used' j = used j) : Filled used' := by
  intro a b hab ha
  by_cases hb : b = i
  · rw [hb]
    exact hi
  · rw [hother b hb]
    by_cases hai : a = i
    · subst hai
      exact hbefore b hab
    · rw [hother a hai] at ha
      exact h a b hab ha

/-- If nothing passes behind an element that does not, the elements that pass come first. -/
theorem filter_eq_takeWhile {α : Type*} {p : α → Bool} : ∀ {l : List α},
    l.Pairwise (fun a b => p b = true → p a = true) → l.filter p = l.takeWhile p := by
  intro l
  induction l with
  | nil => simp
  | cons a l ih =>
    intro h
    obtain ⟨ha, hl⟩ := List.pairwise_cons.mp h
    cases hp : p a with
    | true => simp [hp, ih hl]
    | false =>
      -- nothing behind `a` passes
      simp only [hp, Bool.false_eq_true, not_false_eq_true, List.filter_cons_of_neg,
        List.takeWhile_cons_of_neg, List.filter_eq_nil_iff]
      intro b hb hpb
      simp [ha b hb hpb] at hp

/-- **The `k`-th entry in use is the entry `k`.** -/
theorem Filled.getElem?_filter (h : Filled used) {k : Nat} {i : Fin n} :
    ((List.finRange n).filter used)[k]? = some i ↔ i.val = k ∧ used i = true := by
  have hpair : (List.finRange n).Pairwise fun a b => used b = true → used a = true :=
    (List.pairwise_lt_finRange n).imp fun hab hb => h _ _ hab hb
  rw [filter_eq_takeWhile hpair, List.takeWhile_eq_take_findIdx_not, List.getElem?_take]
  constructor
  · intro hk
    split at hk
    · next hlt =>
      obtain ⟨hk, rfl⟩ := List.getElem?_eq_some_iff.mp hk
      have := List.not_of_lt_findIdx hlt
      refine ⟨by simp, ?_⟩
      simpa using this
    · cases hk
  · rintro ⟨rfl, hi⟩
    rw [if_pos]
    · simp
    · refine (List.lt_findIdx_iff _ _ _).mpr ⟨by simp, fun j hj => ?_⟩
      rw [List.getElem_finRange, Bool.not_eq_false']
      rcases Nat.lt_or_eq_of_le hj with hlt | rfl
      · exact h i _ hlt hi
      · exact hi

end Ittrium.Infra
