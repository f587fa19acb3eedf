import Mathlib.Data.List.Range
import Mathlib.Tactic.Basic

/-!
# Reading in pieces

A loop reads into a buffer of fixed size until a read brings nothing.

* `drain` — the loop
* `pieces` — what the reads bring, one after the other
* `drain_simulates` — **the loop does with each piece in turn what its body does**
-/

namespace Ittrium.Infra

variable {α S T : Type}

/-- The loop `while ((n = read(buf, size)) > 0) body(buf, n)`. It has no result if a read has none
or if it is not over after `fuel` reads. -/
def drain (read : S → Option ((Int × List α) × S)) (body : List α → S → S) : Nat → S → Option S
  | 0, _ => none
  | fuel + 1, s =>
    match read s with
    | none => none
    | some ((n, data), s) => if 0 < n then drain read body fuel (body data s) else some s

/-- A list in pieces of the size. -/
def pieces (size : Nat) (t : List α) : List (List α) :=
  (List.range ((t.length + (size - 1)) / size)).map fun k => (t.drop (k * size)).take size

variable {size : Nat} {t : List α}

@[simp] theorem pieces_nil (h : 0 < size) : pieces size ([] : List α) = [] := by
  have hdiv : (0 + (size - 1)) / size = 0 := Nat.div_eq_of_lt (by omega)
  simp only [pieces, List.length_nil, hdiv, List.range_zero, List.map_nil]

theorem pieces_of_ne_nil (h : 0 < size) (ht : t ≠ []) :
    pieces size t = t.take size :: pieces size (t.drop size) := by
  have hlen : 0 < t.length := List.length_pos_iff.mpr ht
  have hcount : (t.length + (size - 1)) / size = (t.length - size + (size - 1)) / size + 1 := by
    by_cases hle : size ≤ t.length
    · rw [← Nat.add_div_right _ h]
      congr 1
      omega
    · have hsum : t.length + (size - 1) = t.length - 1 + size := by omega
      rw [hsum, Nat.add_div_right _ h, Nat.div_eq_of_lt (a := t.length - 1) (by omega),
        Nat.div_eq_of_lt (by omega)]
  unfold pieces
  rw [hcount, List.range_succ_eq_map, List.map_cons, List.map_map, List.length_drop]
  congr 1
  · simp
  · refine List.map_congr_left fun k _ => ?_
    rw [Function.comp_apply, List.drop_drop, Nat.succ_eq_add_one, Nat.add_mul, Nat.one_mul,
      Nat.add_comm]

/-- Nothing is lost between the pieces. -/
theorem flatten_pieces (h : 0 < size) (t : List α) : (pieces size t).flatten = t := by
  induction hn : t.length using Nat.strong_induction_on generalizing t with
  | _ n ih =>
    by_cases ht : t = []
    · subst ht
      simp [h]
    · have hlen : 0 < t.length := List.length_pos_iff.mpr ht
      have hdrop := ih (t.drop size).length (by rw [List.length_drop]; omega) (t.drop size) rfl
      rw [pieces_of_ne_nil h ht, List.flatten_cons, hdrop, List.take_append_drop]

/-- What is done character by character does not depend on the size. -/
theorem foldl_pieces (h : 0 < size) (step : T → α → T) (y : T) (t : List α) :
    (pieces size t).foldl (fun y d => d.foldl step y) y = t.foldl step y := by
  rw [← List.foldl_flatten, flatten_pieces h]

/-- **The loop does with each piece in turn what its body does.** The relation is kept by the body,
and each read takes the next piece off what is to come. -/
theorem drain_simulates (h : 0 < size) (read : S → Option ((Int × List α) × S))
    (body : List α → S → S) (body' : List α → T → T) (R : List α → S → T → Prop)
    (hread : ∀ t x y, R t x y → ∃ x',
      read x = some ((((t.take size).length : Int), t.take size), x') ∧ R (t.drop size) x' y)
    (hbody : ∀ t d x y, R t x y → R t (body d x) (body' d y)) {fuel : Nat} {t : List α} {x : S}
    {y : T} (hfuel : t.length < fuel) (hR : R t x y) :
    ∃ x', drain read body fuel x = some x' ∧
      R [] x' ((pieces size t).foldl (fun y d => body' d y) y) := by
  induction fuel generalizing t x y with
  | zero => omega
  | succ fuel ih =>
    obtain ⟨x', hx, hR'⟩ := hread t x y hR
    unfold drain
    rw [hx]
    dsimp only
    by_cases ht : t = []
    · subst ht
      rw [pieces_nil h, if_neg (by simp)]
      exact ⟨x', rfl, by simpa using hR'⟩
    · have hlen : 0 < t.length := List.length_pos_iff.mpr ht
      have hpos : (0 : Int) < ((t.take size).length : Int) := by
        rw [List.length_take]
        omega
      rw [if_pos hpos, pieces_of_ne_nil h ht, List.foldl_cons]
      exact ih (by rw [List.length_drop]; omega) (hbody _ _ _ _ hR')

end Ittrium.Infra
