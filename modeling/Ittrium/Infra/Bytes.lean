import Mathlib.Algebra.Group.Nat.Defs
import Mathlib.Tactic.Basic

/-!
# Little-endian numbers in a sequence of bytes

* `byteAt n k` — byte `k` of `n`
* `readLE f p w` — the number in the `w` bytes of `f` from `p` on
* `byteAt_readLE`, `readLE_of_bytes` — a number and its bytes say the same
-/

namespace Ittrium.Infra

variable {f g : Nat → UInt8} {p q w k n : Nat}

/-- Byte `k` of `n`, the least significant one first. -/
def byteAt (n k : Nat) : UInt8 := UInt8.ofNat (n / 256 ^ k)

/-- The number in the `w` bytes from `p` on. -/
def readLE (f : Nat → UInt8) (p : Nat) : Nat → Nat
  | 0 => 0
  | w + 1 => readLE f p w + 256 ^ w * (f (p + w)).toNat

theorem byteAt_toNat (n k : Nat) : (byteAt n k).toNat = n / 256 ^ k % 256 := by
  simp [byteAt]

theorem readLE_lt (f : Nat → UInt8) (p : Nat) : ∀ w, readLE f p w < 256 ^ w := by
  intro w
  induction w with
  | zero => simp [readLE]
  | succ w ih =>
    have hb : (f (p + w)).toNat < 256 := (f (p + w)).toNat_lt
    have hm : 256 ^ w * (f (p + w)).toNat ≤ 256 ^ w * 255 := Nat.mul_le_mul_left _ (by omega)
    rw [readLE, Nat.pow_succ]
    omega

/-- Only the bytes that are read matter. -/
theorem readLE_congr (h : ∀ k < w, f (p + k) = g (q + k)) : readLE f p w = readLE g q w := by
  induction w with
  | zero => rfl
  | succ w ih =>
    rw [readLE, readLE, ih fun k hk => h k (by omega), h w (by omega)]

/-- A number below `256 ^ w` is what its `w` bytes stand for. -/
theorem readLE_of_bytes (h : ∀ k < w, f (p + k) = byteAt n k) : readLE f p w = n % 256 ^ w := by
  induction w with
  | zero => rw [readLE, Nat.pow_zero, Nat.mod_one]
  | succ w ih =>
    rw [readLE, ih fun k hk => h k (by omega), h w (by omega), byteAt_toNat, Nat.pow_succ,
      Nat.mod_mul]

/-- **The bytes of the number that was read are the bytes it was read from.** -/
theorem byteAt_readLE (h : k < w) : byteAt (readLE f p w) k = f (p + k) := by
  induction w with
  | zero => omega
  | succ w ih =>
    rw [readLE]
    rcases Nat.lt_or_eq_of_le (Nat.lt_succ_iff.mp h) with hk | rfl
    · -- the last byte only adds a multiple of `256 ^ (k + 1)`
      have hw : 256 ^ w = 256 ^ k * (256 * 256 ^ (w - k - 1)) := by
        rw [← Nat.pow_succ', ← Nat.pow_add]
        congr 1
        omega
      rw [← ih hk]
      apply UInt8.toNat.inj
      rw [byteAt_toNat, byteAt_toNat, hw, Nat.mul_assoc,
        Nat.add_mul_div_left _ _ (Nat.pow_pos (by decide)), Nat.mul_assoc,
        Nat.add_mul_mod_self_left]
    · have hlt := readLE_lt f p k
      apply UInt8.toNat.inj
      rw [byteAt_toNat, Nat.add_mul_div_left _ _ (Nat.pow_pos (by decide)), Nat.div_eq_of_lt hlt,
        Nat.zero_add, Nat.mod_eq_of_lt (f (p + k)).toNat_lt]

end Ittrium.Infra
