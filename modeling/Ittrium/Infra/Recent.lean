import Mathlib.Data.List.Range
import Mathlib.Logic.Function.Basic
import Mathlib.Tactic.Basic

/-!
# The most recent values

A ring of `n` places holds the last values that were put in. What is put in takes the place of the
oldest one when all places are taken.

* `Recent.push`, `Recent.get` — with indices as a program computes them
* `Recent.toList` — the values, the latest first
* `Recent.get_eq`, `Recent.toList_push` — **it is a list that is cut to `n` values**
-/

namespace Ittrium.Infra

variable {n : Nat} {α : Type}

/-- The places, the number of those in use, and the place for the next value. -/
structure Recent (n : Nat) (α : Type) where
  slot : Fin n → α
  count : Nat
  head : Fin n
  count_le : count ≤ n

namespace Recent

variable {r : Recent n α} {a : α} {k : Nat}

def push (a : α) (r : Recent n α) : Recent n α where
  slot := Function.update r.slot r.head a
  count := if r.count < n then r.count + 1 else r.count
  head := ⟨(r.head + 1) % n, Nat.mod_lt _ (Nat.zero_lt_of_lt r.head.isLt)⟩
  count_le := by
    have := r.count_le
    split <;> omega

/-- The value that was put in `back` times ago: `1` is the latest. -/
def get (back : Int) (r : Recent n α) : Option α :=
  if hback : back < 1 ∨ r.count < back then none
  else
    let idx : Int := r.head - back
    some (r.slot ⟨(if idx < 0 then idx + n else idx).toNat, by
      have := r.count_le
      have := r.head.isLt
      split <;> omega⟩)

/-- The place of the value that was put in before `k` others. -/
def place (r : Recent n α) (k : Nat) : Fin n :=
  ⟨(r.head + (n - 1 - k)) % n, Nat.mod_lt _ (Nat.zero_lt_of_lt r.head.isLt)⟩

/-- The values, the latest first. -/
def toList (r : Recent n α) : List α := (List.range r.count).map fun k => r.slot (r.place k)

@[simp] theorem length_toList (r : Recent n α) : r.toList.length = r.count := by
  simp [toList]

theorem getElem?_toList (hk : k < r.count) : r.toList[k]? = some (r.slot (r.place k)) := by
  rw [toList, List.getElem?_map, List.getElem?_range hk, Option.map_some]

/-- The index of the value that was put in before `k` others, without a modulus. -/
theorem index_eq (r : Recent n α) (hk : k < r.count) :
    (if (r.head : Int) - (k + 1 : Nat) < 0 then (r.head : Int) - (k + 1 : Nat) + n
      else (r.head : Int) - (k + 1 : Nat)) = (r.place k : Nat) := by
  have hle := r.count_le
  have hlt := r.head.isLt
  simp only [place]
  by_cases hidx : (r.head : Int) - (k + 1 : Nat) < 0
  · rw [if_pos hidx, Nat.mod_eq_of_lt (by omega)]
    omega
  · rw [if_neg hidx, show (r.head : Nat) + (n - 1 - k) = r.head - (k + 1) + n by omega,
      Nat.add_mod_right, Nat.mod_eq_of_lt (by omega)]
    omega

/-- **What is got is in the list.** -/
theorem get_eq (r : Recent n α) (k : Nat) : r.get (k + 1 : Nat) = r.toList[k]? := by
  by_cases hk : k < r.count
  · have hback : ¬ (((k + 1 : Nat) : Int) < 1 ∨ (r.count : Int) < (k + 1 : Nat)) := by omega
    rw [getElem?_toList hk, get, dif_neg hback]
    refine congrArg (fun i => some (r.slot i)) (Fin.ext ?_)
    simp only [r.index_eq hk, Int.toNat_natCast]
  · have hback : ((k + 1 : Nat) : Int) < 1 ∨ (r.count : Int) < (k + 1 : Nat) := by omega
    rw [get, dif_pos hback, List.getElem?_eq_none (by rw [length_toList]; omega)]

theorem place_push_zero (r : Recent n α) (a : α) : (r.push a).place 0 = r.head := by
  have hlt := r.head.isLt
  refine Fin.ext ?_
  simp only [place, push]
  rw [Nat.mod_add_mod, show (r.head : Nat) + 1 + (n - 1 - 0) = r.head + n by omega,
    Nat.add_mod_right, Nat.mod_eq_of_lt hlt]

theorem place_push_succ (r : Recent n α) (a : α) (hk : k + 1 < n) :
    (r.push a).place (k + 1) = r.place k := by
  have hlt := r.head.isLt
  refine Fin.ext ?_
  simp only [place, push]
  rw [Nat.mod_add_mod, show (r.head : Nat) + 1 + (n - 1 - (k + 1)) = r.head + (n - 1 - k) by omega]

theorem place_ne_head (r : Recent n α) (hk : k + 1 < n) : r.place k ≠ r.head := by
  have hlt := r.head.isLt
  intro h
  have hv := congrArg Fin.val h
  simp only [place] at hv
  by_cases hw : (r.head : Nat) + (n - 1 - k) < n
  · rw [Nat.mod_eq_of_lt hw] at hv
    omega
  · rw [Nat.mod_eq_sub_mod (by omega), Nat.mod_eq_of_lt (by omega)] at hv
    omega

/-- **What is put in comes first, and the oldest value goes when there is no place for it.** -/
theorem toList_push (r : Recent n α) (a : α) : (r.push a).toList = (a :: r.toList).take n := by
  have hle := r.count_le
  have hlt := r.head.isLt
  refine List.ext_getElem? fun k => ?_
  by_cases hk : k < (r.push a).count
  · have hkn : k < n := Nat.lt_of_lt_of_le hk (r.push a).count_le
    rw [getElem?_toList hk, List.getElem?_take_of_lt hkn]
    cases k with
    | zero =>
      rw [place_push_zero, List.getElem?_cons_zero]
      simp only [push, Function.update_self]
    | succ k =>
      have hcount : k < r.count := by
        simp only [push] at hk
        split at hk <;> omega
      rw [place_push_succ r a hkn, List.getElem?_cons_succ, getElem?_toList hcount]
      simp only [push, Function.update_of_ne (place_ne_head r hkn)]
  · have hlen : ((a :: r.toList).take n).length = (r.push a).count := by
      simp only [List.length_take, List.length_cons, length_toList, push]
      split <;> omega
    rw [List.getElem?_eq_none (by rw [length_toList]; omega),
      List.getElem?_eq_none (by omega)]

end Recent

end Ittrium.Infra
