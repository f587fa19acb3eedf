import Mathlib.Logic.Function.Iterate
import Ittrium.Kernel.Wait

/-!
# The system time

`_system_ticks` is a counter of two words. The low one starts again at zero when it reaches
`TIC_DENO`, and the high one counts how often it has.

* `SYSTIM.advance` — what a tick does to the two words
* `SYSTIM.iterate_advance_value` — **n ticks add n to the time, over 2^32 periods**
* `SYSTIM.iterate_advance_stLow` — the low word after n ticks, also from a word that is no residue
-/

namespace Ittrium

variable {cfg : Config}

namespace SYSTIM

/-- The part of `timer_hw_enter` that counts. -/
def advance (deno : UW) (t : SYSTIM) : SYSTIM :=
  if deno = t.stLow + 1 then { stLow := 0, stHigh := t.stHigh + 1 }
  else { t with stLow := t.stLow + 1 }

/-- Ticks in one turn of the low word. A `TIC_DENO` of zero is first met when the word wraps. -/
def period (deno : UW) : Nat := if deno.toNat = 0 then 2 ^ 32 else deno.toNat

/-- The ticks the two words stand for. -/
def value (deno : UW) (t : SYSTIM) : Nat := t.stHigh.toNat * period deno + t.stLow.toNat

theorem period_pos (deno : UW) : 0 < period deno := by
  unfold period
  split <;> omega

theorem period_le (deno : UW) : period deno ≤ 2 ^ 32 := by
  have hd := deno.isLt
  unfold period
  split <;> omega

/-- The words turn when the low one is the last of its period. -/
theorem turns_iff {deno : UW} {t : SYSTIM} (h : t.stLow.toNat < period deno) :
    deno = t.stLow + 1 ↔ t.stLow.toNat + 1 = period deno := by
  unfold period at h ⊢
  have hlow := t.stLow.isLt
  have hd := deno.isLt
  rw [← BitVec.toNat_inj, BitVec.toNat_add]
  simp only [BitVec.ofNat_eq_ofNat, BitVec.toNat_ofNat]
  by_cases h0 : deno.toNat = 0
  · rw [if_pos h0] at h ⊢
    omega
  · rw [if_neg h0] at h ⊢
    omega

/-- The low word of the next tick, inside a period. -/
theorem advance_stLow {deno : UW} {t : SYSTIM} (h : t.stLow.toNat < period deno) :
    (t.advance deno).stLow.toNat = (t.stLow.toNat + 1) % period deno := by
  have hp := period_le deno
  unfold advance
  split
  · next heq =>
    rw [(turns_iff h).1 heq, Nat.mod_self]
    rfl
  · next hne =>
    have hlt : t.stLow.toNat + 1 < period deno := by
      have := mt (turns_iff h).2 hne
      omega
    rw [Nat.mod_eq_of_lt hlt]
    simp only [BitVec.toNat_add, BitVec.ofNat_eq_ofNat, BitVec.toNat_ofNat]
    omega

/-- A low word that is no residue is counted up until it wraps. -/
theorem advance_stLow_of_le {deno : UW} {t : SYSTIM} (h : period deno ≤ t.stLow.toNat) :
    (t.advance deno).stLow.toNat = (t.stLow.toNat + 1) % 2 ^ 32 := by
  have hne : deno ≠ t.stLow + 1 := by
    intro heq
    have hlow := t.stLow.isLt
    have heq' := congrArg BitVec.toNat heq
    unfold period at h
    simp only [BitVec.toNat_add, BitVec.ofNat_eq_ofNat, BitVec.toNat_ofNat] at heq'
    split at h <;> omega
  unfold advance
  rw [if_neg hne]
  simp

/-- **A tick advances the time by one.** -/
theorem advance_value {deno : UW} {t : SYSTIM} (h : t.stLow.toNat < period deno) :
    (t.advance deno).value deno = (t.value deno + 1) % (2 ^ 32 * period deno) := by
  have hp := period_pos deno
  have hlow := advance_stLow h
  have hhigh := t.stHigh.isLt
  unfold value
  rw [hlow]
  by_cases heq : deno = t.stLow + 1
  · have hturn := (turns_iff h).1 heq
    have hh : (t.advance deno).stHigh.toNat = (t.stHigh.toNat + 1) % 2 ^ 32 := by
      unfold advance
      rw [if_pos heq]
      simp
    rw [hh, hturn, Nat.mod_self, Nat.add_zero, Nat.add_assoc, hturn, ← Nat.succ_mul,
      Nat.mul_mod_mul_right]
  · have hlt : t.stLow.toNat + 1 < period deno := by
      have := mt (turns_iff h).2 heq
      omega
    have hh : (t.advance deno).stHigh = t.stHigh := by
      unfold advance
      rw [if_neg heq]
    rw [hh, Nat.mod_eq_of_lt hlt, ← Nat.add_assoc, Nat.mod_eq_of_lt]
    -- the value is below the last one of this turn
    calc t.stHigh.toNat * period deno + t.stLow.toNat + 1
        < (t.stHigh.toNat + 1) * period deno := by rw [Nat.succ_mul]; omega
      _ ≤ 2 ^ 32 * period deno := Nat.mul_le_mul_right _ hhigh

/-! ## Several ticks -/

theorem iterate_advance_lt {deno : UW} {t : SYSTIM} (h : t.stLow.toNat < period deno) (n : Nat) :
    ((advance deno)^[n] t).stLow.toNat < period deno := by
  induction n with
  | zero => exact h
  | succ n ih =>
    rw [Function.iterate_succ_apply', advance_stLow ih]
    exact Nat.mod_lt _ (period_pos _)

/-- **The time after n ticks.** -/
theorem iterate_advance_value {deno : UW} {t : SYSTIM} (h : t.stLow.toNat < period deno)
    (hv : t.value deno < 2 ^ 32 * period deno) (n : Nat) :
    ((advance deno)^[n] t).value deno = (t.value deno + n) % (2 ^ 32 * period deno) := by
  induction n with
  | zero => exact (Nat.mod_eq_of_lt hv).symm
  | succ n ih =>
    rw [Function.iterate_succ_apply', advance_value (iterate_advance_lt h n), ih, Nat.mod_add_mod]
    rfl

/-- The low word after n ticks from a residue. -/
theorem iterate_advance_stLow_of_lt {deno : UW} {t : SYSTIM} (h : t.stLow.toNat < period deno)
    (n : Nat) :
    ((advance deno)^[n] t).stLow.toNat = (t.stLow.toNat + n) % period deno := by
  induction n with
  | zero => exact (Nat.mod_eq_of_lt h).symm
  | succ n ih =>
    rw [Function.iterate_succ_apply', advance_stLow (iterate_advance_lt h n), ih, Nat.mod_add_mod]
    rfl

/-- Turns of the low word in n ticks that leave it a residue; the first one is a wrap when it was
none before. -/
def turns (deno low : UW) (n : Nat) : Nat :=
  if low.toNat < period deno then (low.toNat + n) / period deno
  else (low.toNat + n - 2 ^ 32) / period deno

/-- **The low word after n ticks**: n more, less one period for every turn. -/
theorem iterate_advance_stLow (deno : UW) (t : SYSTIM) (n : Nat) :
    (((advance deno)^[n] t).stLow.toNat + period deno * turns deno t.stLow n) % 2 ^ 32 =
      (t.stLow.toNat + n) % 2 ^ 32 := by
  unfold turns
  split
  · next h => rw [iterate_advance_stLow_of_lt h, Nat.mod_add_div]
  · next h =>
    have h := Nat.le_of_not_lt h
    have hp := period_pos deno
    have hlow := t.stLow.isLt
    -- as long as it has not wrapped the word is no residue
    have hup : ∀ n, t.stLow.toNat + n < 2 ^ 32 →
        ((advance deno)^[n] t).stLow.toNat = t.stLow.toNat + n := by
      intro n
      induction n with
      | zero => intro _; rfl
      | succ n ih =>
        intro hn
        have ih := ih (by omega)
        rw [Function.iterate_succ_apply', advance_stLow_of_le (by omega), ih]
        omega
    by_cases hn : t.stLow.toNat + n < 2 ^ 32
    · rw [hup n hn, Nat.sub_eq_zero_of_le (Nat.le_of_lt hn), Nat.zero_div, Nat.mul_zero, Nat.add_zero]
    · -- the tick that wraps, and the ticks after it
      obtain ⟨k, hk⟩ : ∃ k, n = k + (2 ^ 32 - t.stLow.toNat) :=
        ⟨t.stLow.toNat + n - 2 ^ 32, by omega⟩
      have hzero : ((advance deno)^[2 ^ 32 - t.stLow.toNat] t).stLow.toNat = 0 := by
        obtain ⟨j, hj⟩ : ∃ j, 2 ^ 32 - t.stLow.toNat = j + 1 :=
          ⟨2 ^ 32 - t.stLow.toNat - 1, by omega⟩
        rw [hj, Function.iterate_succ_apply', advance_stLow_of_le (by rw [hup j (by omega)]; omega),
          hup j (by omega)]
        omega
      have hsum : t.stLow.toNat + n = k + 2 ^ 32 := by omega
      rw [hsum, Nat.add_sub_cancel, hk, Function.iterate_add_apply,
        iterate_advance_stLow_of_lt (by rw [hzero]; exact hp), hzero, Nat.zero_add,
        Nat.mod_add_div, Nat.add_mod_right]

end SYSTIM

theorem timerHwEnter_systemTicks (c : Core cfg) :
    (timerHwEnter c).2.systemTicks = c.systemTicks.advance cfg.ticDeno := rfl

theorem timerHwExit_systemTicks (c : Core cfg) :
    (timerHwExit c).systemTicks = c.systemTicks := by
  unfold timerHwExit
  split <;> rfl

end Ittrium
