import Mathlib.Algebra.BigOperators.Group.Finset.Piecewise
import Mathlib.Algebra.Order.BigOperators.Group.Finset

/-!
# Counting the members of a population

Every member of a finite population is in a phase, and a phase has a weight. An invariant of a
concurrent program often says how the weights of all members add up to some shared variable.

* `total w pc` — the sum of the weights
* `total_update` — **what a change of one member's phase does to it**
-/

namespace Ittrium.Infra

variable {τ π : Type*} [Fintype τ]

/-- The weights of all members. -/
def total (w : π → Nat) (pc : τ → π) : Nat := ∑ t, w (pc t)

theorem total_congr {w : π → Nat} {pc pc' : τ → π} (h : ∀ t, w (pc' t) = w (pc t)) :
    total w pc' = total w pc :=
  Finset.sum_congr rfl fun t _ => h t

/-- A member weighs at most as much as all do. -/
theorem le_total (w : π → Nat) (pc : τ → π) (t : τ) : w (pc t) ≤ total w pc :=
  Finset.single_le_sum (f := fun t => w (pc t)) (fun _ _ => Nat.zero_le _) (Finset.mem_univ t)

/-- There is weight if and only if some member has it. -/
theorem total_pos {w : π → Nat} {pc : τ → π} : 0 < total w pc ↔ ∃ t, 0 < w (pc t) := by
  constructor
  · intro h
    obtain ⟨t, -, ht⟩ := Finset.exists_ne_zero_of_sum_ne_zero (Nat.pos_iff_ne_zero.mp h)
    exact ⟨t, Nat.pos_of_ne_zero ht⟩
  · rintro ⟨t, ht⟩
    exact lt_of_lt_of_le ht (le_total w pc t)

theorem total_eq_zero {w : π → Nat} {pc : τ → π} : total w pc = 0 ↔ ∀ t, w (pc t) = 0 := by
  unfold total
  rw [Finset.sum_eq_zero_iff]
  exact ⟨fun h t => h t (Finset.mem_univ t), fun h t _ => h t⟩

variable [DecidableEq τ]

/-- **The old weight goes and the new one comes.** -/
theorem total_update (w : π → Nat) (pc : τ → π) (t : τ) (p : π) :
    total w (Function.update pc t p) + w (pc t) = total w pc + w p := by
  unfold total
  have hcomp : (fun u => w (Function.update pc t p u)) =
      Function.update (fun u => w (pc u)) t (w p) := by
    funext u
    by_cases hu : u = t
    · subst hu
      simp
    · simp [hu]
  rw [hcomp, Finset.sum_update_of_mem (Finset.mem_univ t),
    ← Finset.add_sum_erase Finset.univ (fun u => w (pc u)) (Finset.mem_univ t),
    Finset.sdiff_singleton_eq_erase]
  omega

end Ittrium.Infra
