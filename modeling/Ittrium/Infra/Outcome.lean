import Mathlib.Tactic.Basic

/-!
# Programs that return or fail

Rules for `Except` programs, one for each way they are put together.

* `Ensures x P` — if `x` returns, its result satisfies `P`
* `Yields x P F` — besides, if `x` fails, the error satisfies `F`
* `Agree R x y` — `x` and `y` both return, with results related by `R`, or fail alike
-/

namespace Ittrium.Infra

universe u v

variable {ε : Type v} {α β γ δ : Type u}

/-! ## One program -/

/-- If the program returns, its result satisfies `P`. -/
def Ensures (x : Except ε α) (P : α → Prop) : Prop := ∀ v, x = .ok v → P v

namespace Ensures

variable {x y : Except ε α} {f : α → Except ε β} {P P' : α → Prop} {Q : β → Prop} {v : α} {e : ε}

theorem ok (h : P v) : Ensures (.ok v : Except ε α) P := by
  rintro _ ⟨⟩
  exact h

theorem error : Ensures (.error e : Except ε α) P := by
  rintro _ ⟨⟩

theorem mono (h : Ensures x P) (hP : ∀ v, P v → P' v) : Ensures x P' :=
  fun v hv => hP v (h v hv)

theorem and (h : Ensures x P) (h' : Ensures x P') : Ensures x fun v => P v ∧ P' v :=
  fun v hv => ⟨h v hv, h' v hv⟩

theorem bind (h : Ensures x fun v => Ensures (f v) Q) : Ensures (x >>= f) Q := by
  intro w hw
  cases x with
  | error e => cases hw
  | ok v => exact h v rfl w hw

/-- What is known of the first result is that the first program returned it. -/
theorem bind' (h : ∀ v, x = .ok v → Ensures (f v) Q) : Ensures (x >>= f) Q := bind h

theorem ite {c : Prop} [Decidable c] (h : c → Ensures x P) (h' : ¬c → Ensures y P) :
    Ensures (if c then x else y) P := by
  split
  · next hc => exact h hc
  · next hc => exact h' hc

end Ensures

/-- A result satisfies `P`, an error satisfies `F`. -/
structure Yields (x : Except ε α) (P : α → Prop) (F : ε → Prop) : Prop where
  result : Ensures x P
  error : ∀ e, x = .error e → F e

namespace Yields

variable {x y : Except ε α} {f : α → Except ε β} {P P' : α → Prop} {Q : β → Prop} {F : ε → Prop}
  {v : α} {e : ε}

theorem ok (h : P v) : Yields (.ok v) P F := ⟨.ok h, by rintro e ⟨⟩⟩

theorem fail (h : F e) : Yields (.error e : Except ε α) P F := by
  refine ⟨.error, ?_⟩
  rintro _ ⟨⟩
  exact h

theorem mono (h : Yields x P F) (hP : ∀ v, P v → P' v) : Yields x P' F :=
  ⟨h.result.mono hP, h.error⟩

theorem and (h : Yields x P F) (h' : Yields x P' F) : Yields x (fun v => P v ∧ P' v) F :=
  ⟨h.result.and h'.result, h.error⟩

theorem bind (h : Yields x P F) (hf : ∀ v, P v → Yields (f v) Q F) : Yields (x >>= f) Q F := by
  cases x with
  | error e => exact .fail (h.error e rfl)
  | ok v => exact hf v (h.result v rfl)

theorem ite {c : Prop} [Decidable c] (h : c → Yields x P F) (h' : ¬c → Yields y P F) :
    Yields (if c then x else y) P F := by
  split
  · next hc => exact h hc
  · next hc => exact h' hc

/-- A loop, with what is true before round `k`. -/
theorem foldlM_range {step : α → Nat → Except ε α} {I : Nat → α → Prop} {n : Nat}
    (h : ∀ k < n, ∀ v, I k v → Yields (step v k) (I (k + 1)) F) (h₀ : I 0 v) :
    Yields ((List.range n).foldlM step v) (I n) F := by
  induction n with
  | zero => exact .ok h₀
  | succ n ih =>
    rw [List.range_succ, List.foldlM_append]
    refine (ih fun k hk => h k (by omega)).bind fun w hw => ?_
    rw [List.foldlM_cons]
    exact (h n (by omega) w hw).bind fun u hu => .ok hu

end Yields

/-! ## Two programs -/

/-- What follows has to be the same only for what the first program returns. -/
theorem bind_congr_ok {x : Except ε α} {f g : α → Except ε β} (h : ∀ v, x = .ok v → f v = g v) :
    x >>= f = x >>= g := by
  cases x with
  | error e => rfl
  | ok v => exact h v rfl

/-- Both programs return, with related results, or both fail in the same way. -/
inductive Agree (R : α → β → Prop) : Except ε α → Except ε β → Prop where
  | ok {v : α} {w : β} : R v w → Agree R (.ok v) (.ok w)
  | error {e : ε} : Agree R (.error e) (.error e)

namespace Agree

variable {R : α → β → Prop} {S : γ → δ → Prop} {x : Except ε α} {y : Except ε β} {v : α} {w : β}

theorem bind {f : α → Except ε γ} {g : β → Except ε δ} (h : Agree R x y)
    (hf : ∀ v w, R v w → Agree S (f v) (g w)) : Agree S (x >>= f) (y >>= g) := by
  cases h with
  | ok h => exact hf _ _ h
  | error => exact .error

/-- The first program is the same. -/
theorem bindSame {z : Except ε α} {f : α → Except ε γ} {g : α → Except ε δ}
    (hf : ∀ v, z = .ok v → Agree S (f v) (g v)) : Agree S (z >>= f) (z >>= g) := by
  cases z with
  | ok v => exact hf v rfl
  | error e => exact .error

theorem bindEq {z z' : Except ε α} {f : α → Except ε γ} {g : α → Except ε δ} (h : z' = z)
    (hf : ∀ v, z = .ok v → Agree S (f v) (g v)) : Agree S (z >>= f) (z' >>= g) := by
  subst h
  exact bindSame hf

theorem ite {c d : Prop} [Decidable c] [Decidable d] {x' : Except ε α} {y' : Except ε β}
    (hcd : c ↔ d) (h : c → Agree R x y) (h' : ¬c → Agree R x' y') :
    Agree R (if c then x else x') (if d then y else y') := by
  by_cases hc : c
  · rw [if_pos hc, if_pos (hcd.mp hc)]; exact h hc
  · rw [if_neg hc, if_neg fun hd => hc (hcd.mpr hd)]; exact h' hc

/-- If one returns, so does the other, with a related result. -/
theorem of_ok (h : Agree R (.ok v) y) : ∃ w, y = .ok w ∧ R v w := by
  cases h with
  | ok h => exact ⟨_, rfl, h⟩

theorem of_error {e : ε} (h : Agree R (.error e) y) : y = .error e := by
  cases h
  rfl

end Agree

end Ittrium.Infra
