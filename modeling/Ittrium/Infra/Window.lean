import Mathlib.Tactic.Basic
import Mathlib.Data.List.Basic
import Mathlib.Logic.Function.Basic

/-!
# Circular buffers

The cells of a buffer are numbered from `0` to `size - 1`, and what it holds begins at `tail` and
goes on past the last cell at the first one.

* `window q size tail n` — the `n` values from `tail` on
* `window_push`, `window_pop` — **adding at the end and taking from the beginning**
* `window_cons` — taking from the beginning, with indices that are not reduced
-/

namespace Ittrium.Infra

variable {α : Type*} {q : Int → α} {size tail : Int} {n : Nat}

/-- The `n` values from the cell `tail` on. -/
def window (q : Int → α) (size tail : Int) (n : Nat) : List α :=
  (List.range n).map fun (k : Nat) => q ((tail + k) % size)

/-- Different positions of a window that is not larger than the buffer are different cells. -/
theorem emod_inj_of_lt {a b : Nat} (ha : (a : Int) < size) (hb : (b : Int) < size)
    (h : (tail + a) % size = (tail + b) % size) : a = b := by
  have hdvd : size ∣ ((a : Int) - b) := by
    have h' := Int.emod_eq_emod_iff_emod_sub_eq_zero.mp h
    rw [show tail + (a : Int) - (tail + b) = a - b by omega] at h'
    exact Int.dvd_of_emod_eq_zero h'
  obtain ⟨c, hc⟩ := hdvd
  have hc0 : c = 0 := by
    by_contra hne
    rcases Int.lt_or_gt_of_ne hne with hlt | hgt
    · have : size * c ≤ size * (-1) := Int.mul_le_mul_of_nonneg_left (by omega) (by omega)
      omega
    · have : size * 1 ≤ size * c := Int.mul_le_mul_of_nonneg_left (by omega) (by omega)
      omega
  rw [hc0, Int.mul_zero] at hc
  omega

/-- **A value written after the last one is added at the end.** -/
theorem window_push (x : α) (hn : (n : Int) < size) :
    window (Function.update q ((tail + n) % size) x) size tail (n + 1) =
      window q size tail n ++ [x] := by
  unfold window
  rw [List.range_succ, List.map_append, List.map_singleton, Function.update_self]
  congr 1
  refine List.map_congr_left fun k hk => ?_
  rw [List.mem_range] at hk
  refine Function.update_of_ne (fun heq => ?_) _ _
  have := emod_inj_of_lt (by omega) hn heq
  omega

@[simp] theorem length_window (q : Int → α) (size tail : Int) (n : Nat) :
    (window q size tail n).length = n := by
  simp [window]

/-- The beginning may be reduced or not. -/
theorem window_emod (q : Int → α) (size tail : Int) (n : Nat) :
    window q size (tail % size) n = window q size tail n := by
  unfold window
  exact List.map_congr_left fun k _ => by rw [Int.emod_add_emod]

/-- The first value, with an index that counts on past the last cell. -/
theorem window_cons (q : Int → α) (size tail : Int) (n : Nat) :
    window q size tail (n + 1) = q (tail % size) :: window q size (tail + 1) n := by
  unfold window
  rw [List.range_succ_eq_map, List.map_cons, List.map_map, Int.natCast_zero, Int.add_zero]
  congr 1
  refine List.map_congr_left fun k _ => ?_
  show q ((tail + ((k + 1 : Nat) : Int)) % size) = _
  congr 2
  push_cast
  omega

/-- **The first value goes, and its cell may be overwritten.** -/
theorem window_pop (x : α) (htail : 0 ≤ tail ∧ tail < size) (hn : (n : Int) < size) :
    window q size tail (n + 1) =
      q tail :: window (Function.update q tail x) size ((tail + 1) % size) n := by
  unfold window
  rw [List.range_succ_eq_map, List.map_cons, List.map_map]
  have hfirst : (tail + ((0 : Nat) : Int)) % size = tail := by
    rw [Int.natCast_zero, Int.add_zero, Int.emod_eq_of_lt htail.1 htail.2]
  rw [hfirst]
  congr 1
  refine List.map_congr_left fun k hk => ?_
  rw [List.mem_range] at hk
  have heq : ((tail + 1) % size + (k : Int)) % size = (tail + ((k + 1 : Nat) : Int)) % size := by
    rw [Int.emod_add_emod]
    congr 1
    push_cast
    omega
  have hne : (tail + ((k + 1 : Nat) : Int)) % size ≠ tail := by
    -- the cell of the first value is no other one's
    intro h
    have := emod_inj_of_lt (by omega) (by omega) (h.trans hfirst.symm)
    omega
  show q ((tail + ((k + 1 : Nat) : Int)) % size) = _
  rw [heq, Function.update_of_ne hne]

end Ittrium.Infra
