import Mathlib.Data.Nat.ModEq
import Ittrium.Properties.Ticks

/-!
# The time after `set_tim`

`set_tim` stores any two words. The tick carries when the low word becomes equal to `TIC_DENO`, so
a low word at or above it is counted up to the end of its range and then falls back to zero.

* `setTim`, `getTim` — `time_manage.c`
* `TimeExact` — from a time on, each tick advances it by one unit
* `time_exact` — **this is so if and only if the low word is below `TIC_DENO`**
-/

namespace Ittrium

open Infra

variable {cfg : Config} {hw : TimerHw cfg} {p : SYSTIM} {tr : TickTrace cfg}
  {σ₀ σ σ' : Handlers cfg}

/-! ## `time_manage.c` -/

def setTim (p : SYSTIM) (c : Core cfg) : Core cfg := { c with systemTicks := p }

def getTim (c : Core cfg) : SYSTIM := c.systemTicks

/-- The time in ticks. -/
def SYSTIM.units (deno : UW) (t : SYSTIM) : Nat := t.stHigh.toNat * deno.toNat + t.stLow.toNat

/-! ## Ticks after `set_tim` -/

/-- The ticks and returns after `set_tim` in the state `σ₀`. -/
abbrev SinceSet (hw : TimerHw cfg) (σ₀ : Handlers cfg) (p : SYSTIM) :
    TickTrace cfg → Handlers cfg → Prop :=
  Run (· = { σ₀ with core := setTim p σ₀.core }) fun σ e σ' => σ.step hw e = some σ'

/-- The time that is read goes on by one unit a tick. -/
structure TimeExact (hw : TimerHw cfg) (σ₀ : Handlers cfg) (p : SYSTIM) : Prop where
  /-- After `n` ticks it is `n` units later, over the range of the high word. -/
  exact : ∀ tr σ, SinceSet hw σ₀ p tr σ → (getTim σ.core).units cfg.ticDeno ≡
    p.units cfg.ticDeno + ticks tr [MOD 2 ^ 32 * cfg.ticDeno.toNat]
  /-- Unless the high word starts again it never goes backwards. -/
  forward : ∀ tr σ σ', SinceSet hw σ₀ p tr σ → σ.step hw .tick = some σ' →
    (getTim σ.core).stHigh ≤ (getTim σ'.core).stHigh →
    (getTim σ.core).units cfg.ticDeno < (getTim σ'.core).units cfg.ticDeno
  /-- The low word comes into its range within a period. -/
  returns : ∃ n ≤ cfg.ticDeno.toNat, ∀ tr σ, SinceSet hw σ₀ p tr σ → ticks tr = n →
    (getTim σ.core).stLow.toNat < cfg.ticDeno.toNat

/-- The words are those of as many ticks. -/
theorem SinceSet.systemTicks (hw' : hw.Counts) (h : SinceSet hw σ₀ p tr σ) :
    getTim σ.core = (SYSTIM.advance cfg.ticDeno)^[ticks tr] p :=
  systemTicks_of_run hw' (fun σ hσ => by rw [hσ]; rfl) h

theorem exists_sinceSet (hw : TimerHw cfg) (σ₀ : Handlers cfg) (p : SYSTIM) (n : Nat) :
    ∃ tr σ, SinceSet hw σ₀ p tr σ ∧ ticks tr = n := by
  induction n with
  | zero => exact ⟨[], _, .start rfl, rfl⟩
  | succ n ih =>
    obtain ⟨tr, σ, hrun, hn⟩ := ih
    exact ⟨_, _, hrun.step (l := .tick) rfl, by simp [ticks, ← hn]⟩

/-! ## Low words in their range -/

theorem period_of_ne_zero {deno : UW} (h : deno.toNat ≠ 0) : SYSTIM.period deno = deno.toNat :=
  if_neg h

theorem units_eq_value {deno : UW} (h : deno.toNat ≠ 0) (t : SYSTIM) :
    t.units deno = t.value deno := by
  rw [SYSTIM.units, SYSTIM.value, period_of_ne_zero h]

theorem value_lt {deno : UW} {t : SYSTIM} (h : t.stLow.toNat < SYSTIM.period deno) :
    t.value deno < 2 ^ 32 * SYSTIM.period deno := by
  have hhigh := t.stHigh.isLt
  calc t.stHigh.toNat * SYSTIM.period deno + t.stLow.toNat
      < (t.stHigh.toNat + 1) * SYSTIM.period deno := by rw [Nat.succ_mul]; omega
    _ ≤ 2 ^ 32 * SYSTIM.period deno := Nat.mul_le_mul_right _ hhigh

/-- The time of the next tick, when the high word goes on. -/
theorem advance_units_lt {deno : UW} {t : SYSTIM} (h : t.stLow.toNat < deno.toNat)
    (hhigh : t.stHigh ≤ (t.advance deno).stHigh) :
    t.units deno < (t.advance deno).units deno := by
  have hh := t.stHigh.isLt
  have hl := t.stLow.isLt
  have hd := deno.isLt
  have hp : SYSTIM.period deno = deno.toNat := period_of_ne_zero (by omega)
  have hturn := @SYSTIM.turns_iff deno t (by rwa [hp])
  rw [hp] at hturn
  unfold SYSTIM.advance SYSTIM.units at *
  by_cases heq : deno = t.stLow + 1
  · have hfull := hturn.mp heq
    rw [if_pos heq] at hhigh ⊢
    -- the high word does not start again
    have hnext : (t.stHigh + 1).toNat = t.stHigh.toNat + 1 := by
      have := BitVec.le_def.mp hhigh
      simp only [BitVec.toNat_add, BitVec.ofNat_eq_ofNat, BitVec.toNat_ofNat] at this ⊢
      omega
    simp only [hnext, Nat.succ_mul]
    simp only [BitVec.toNat_ofNat, BitVec.ofNat_eq_ofNat]
    omega
  · have hlast := mt hturn.mpr heq
    rw [if_neg heq]
    have hnext : (t.stLow + 1).toNat = t.stLow.toNat + 1 := by
      simp only [BitVec.toNat_add, BitVec.ofNat_eq_ofNat, BitVec.toNat_ofNat]
      omega
    simp only [hnext]
    omega

/-- **From a low word below `TIC_DENO` the time is exact.** -/
theorem timeExact_of_lt (hw' : hw.Counts) (h : p.stLow.toNat < cfg.ticDeno.toNat) :
    TimeExact hw σ₀ p := by
  have hne : cfg.ticDeno.toNat ≠ 0 := by omega
  have hp := period_of_ne_zero hne
  have hlow : p.stLow.toNat < SYSTIM.period cfg.ticDeno := by rwa [hp]
  refine ⟨fun tr σ hs => ?_, fun tr σ σ' hs hstep hhigh => ?_, 0, Nat.zero_le _, fun tr σ hs h0 => ?_⟩
  · rw [hs.systemTicks hw', units_eq_value hne, units_eq_value hne,
      SYSTIM.iterate_advance_value hlow (value_lt hlow), hp]
    exact Nat.mod_modEq _ _
  · have hnext : getTim σ'.core = (getTim σ.core).advance cfg.ticDeno := by
      rw [Handlers.step_tick hstep]
      exact (hw' σ.core).1
    have hin : (getTim σ.core).stLow.toNat < cfg.ticDeno.toNat := by
      have := SYSTIM.iterate_advance_lt hlow (ticks tr)
      rwa [← hs.systemTicks hw', hp] at this
    rw [hnext] at hhigh ⊢
    exact advance_units_lt hin hhigh
  · rw [hs.systemTicks hw', h0]
    exact h

/-! ## Low words out of their range -/

theorem advance_of_le {deno : UW} {t : SYSTIM} (h0 : deno.toNat ≠ 0)
    (h : deno.toNat ≤ t.stLow.toNat) : t.advance deno = { t with stLow := t.stLow + 1 } := by
  unfold SYSTIM.advance
  rw [if_neg]
  intro heq
  have hl := t.stLow.isLt
  have heq := congrArg BitVec.toNat heq
  simp only [BitVec.toNat_add, BitVec.ofNat_eq_ofNat, BitVec.toNat_ofNat] at heq
  omega

/-- The carry is missed until the low word wraps. -/
theorem iterate_advance_of_le {deno : UW} {t : SYSTIM} (h0 : deno.toNat ≠ 0)
    (h : deno.toNat ≤ t.stLow.toNat) : ∀ n, t.stLow.toNat + n < 2 ^ 32 →
    ((SYSTIM.advance deno)^[n] t).stLow.toNat = t.stLow.toNat + n ∧
      ((SYSTIM.advance deno)^[n] t).stHigh = t.stHigh
  | 0, _ => ⟨rfl, rfl⟩
  | n + 1, hn => by
    obtain ⟨hlow, hhigh⟩ := iterate_advance_of_le h0 h n (by omega)
    rw [Function.iterate_succ_apply', advance_of_le h0 (by omega)]
    refine ⟨?_, hhigh⟩
    simp only [BitVec.toNat_add, BitVec.ofNat_eq_ofNat, BitVec.toNat_ofNat, hlow]
    omega

/-- At the tick at which the low word wraps the time falls back. -/
theorem lt_of_timeExact (h : TimeExact genericHw σ₀ p) :
    p.stLow.toNat < cfg.ticDeno.toNat := by
  by_contra hlow
  have hlow := Nat.le_of_not_lt hlow
  have h0 : cfg.ticDeno.toNat ≠ 0 := by
    obtain ⟨n, -, hn⟩ := h.returns
    obtain ⟨tr, σ, hs, hticks⟩ := exists_sinceSet genericHw σ₀ p n
    have := hn tr σ hs hticks
    omega
  obtain ⟨tr, σ, hs, hticks⟩ := exists_sinceSet genericHw σ₀ p (2 ^ 32 - 1 - p.stLow.toNat)
  have hl := p.stLow.isLt
  obtain ⟨hend, hhigh⟩ := iterate_advance_of_le h0 hlow (2 ^ 32 - 1 - p.stLow.toNat) (by omega)
  rw [← hticks, ← hs.systemTicks genericHw_counts] at hend hhigh
  have hstep : σ.step genericHw .tick = some _ := rfl
  have hnext := (@genericHw_counts cfg σ.core).1
  rw [advance_of_le h0 (by rw [show σ.core.systemTicks = getTim σ.core from rfl, hend]; omega)] at hnext
  have hjump := h.forward tr σ _ hs hstep (by rw [getTim, getTim, hnext]; exact BitVec.le_refl _)
  rw [SYSTIM.units, SYSTIM.units, getTim, getTim, hnext] at hjump
  have hwrap : (σ.core.systemTicks.stLow + 1).toNat = 0 := by
    rw [show σ.core.systemTicks = getTim σ.core from rfl]
    simp only [BitVec.toNat_add, BitVec.ofNat_eq_ofNat, BitVec.toNat_ofNat, hend, hticks]
    omega
  simp only [hwrap] at hjump
  omega

/-- **The time read after `set_tim` is exact if and only if the low word is below `TIC_DENO`.** -/
theorem time_exact (σ₀ : Handlers cfg) (p : SYSTIM) :
    TimeExact genericHw σ₀ p ↔ p.stLow.toNat < cfg.ticDeno.toNat :=
  ⟨lt_of_timeExact, timeExact_of_lt genericHw_counts⟩

/-- With `TIC_DENO` 1000, the low word set to 1000 is counted up to the end of its range, and the
time falls back from `2^32 - 1` to zero. -/
theorem time_falls_back : smallConfig.ticDeno = 1000 ∧
    ((SYSTIM.advance 1000)^[2 ^ 32 - 1001] ⟨1000, 0⟩).units 1000 = 2 ^ 32 - 1 ∧
    ((SYSTIM.advance 1000)^[2 ^ 32 - 1001 + 1] ⟨1000, 0⟩).units 1000 = 0 ∧
    ¬ TimeExact genericHw ⟨zeroed.core, []⟩ ⟨1000, 0⟩ := by
  obtain ⟨hlow, hhigh⟩ := @iterate_advance_of_le 1000 ⟨1000, 0⟩ (by decide) (by decide)
    (2 ^ 32 - 1001) (by decide)
  have hlast : (SYSTIM.advance 1000)^[2 ^ 32 - 1001] ⟨1000, 0⟩ = ⟨0xffffffff, 0⟩ := by
    generalize (SYSTIM.advance 1000)^[2 ^ 32 - 1001] ⟨1000, 0⟩ = t at hlow hhigh ⊢
    obtain ⟨low, high⟩ := t
    have hlow : low.toNat = (0xffffffff : UW).toNat := by simpa using hlow
    obtain rfl : low = 0xffffffff := BitVec.eq_of_toNat_eq hlow
    obtain rfl : high = 0 := hhigh
    rfl
  refine ⟨rfl, ?_, ?_, fun h => absurd (lt_of_timeExact h) (by decide)⟩
  · rw [hlast]
    decide
  · rw [Function.iterate_succ_apply', hlast]
    decide

end Ittrium
