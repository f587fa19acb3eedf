import Ittrium.Infra.Bytes
import Ittrium.Kernel.Config

/-!
# `task.c`: `get_blk_mem` and `free_blk_mem`

The part of `task.c` and `cre_tsk` that is built with `BLK_MEM_SIZE`. Addresses are counted from the
start of `blk_mem`, and `w` is the size of an `INT` in bytes.

* `getBlkMem`, `freeBlkMem` — the blocks, each behind its size
* `creTskStack` — the stack `cre_tsk` takes
-/

namespace Ittrium

open Infra

/-- The memory around `blk_mem`, and `pfree_blk_mem`, which is null before `task_initialize`. -/
structure BlkMem where
  mem : Int → UInt8
  pfree : Option Int

namespace BlkMem

/-- What an `INT` makes of a number. -/
def toINT (w : Nat) (v : Int) : Int :=
  if 2 * (v % 256 ^ w) < 256 ^ w then v % 256 ^ w else v % 256 ^ w - 256 ^ w

/-- `*((INT *)p) = v`. -/
def putINT (w : Nat) (p v : Int) (mem : Int → UInt8) : Int → UInt8 := fun a =>
  if p ≤ a ∧ a < p + w then byteAt (v % 256 ^ w).toNat (a - p).toNat else mem a

/-- `*((INT *)p)`. -/
def readINT (w : Nat) (p : Int) (mem : Int → UInt8) : Int :=
  toINT w (readLE (fun k => mem (p + k)) 0 w)

/-- `task_initialize`. -/
def start (mem : Int → UInt8) : BlkMem := ⟨mem, some 0⟩

end BlkMem

open BlkMem

/-- `get_blk_mem`. -/
def getBlkMem (w : Nat) (size : Int) (s : BlkMem) : Option Int × BlkMem :=
  match s.pfree with
  | none => (none, s)
  | some p => (some (p + 2), ⟨putINT w p size s.mem, some (p + toINT w (size + 2))⟩)

/-- `free_blk_mem`. -/
def freeBlkMem (w : Nat) (p : Int) (s : BlkMem) : BlkMem :=
  let size := readINT w (p - 2) s.mem
  { s with pfree := s.pfree.map fun q => q - toINT w (size + 2) }

/-- The stack of `cre_tsk`: the one of the packet, or a block. -/
def creTskStack (w : Nat) (stk : Option Int) (stksz : Int) (s : BlkMem) :
    Except ER Int × BlkMem :=
  match stk with
  | some p => (.ok p, s)
  | none =>
    match getBlkMem w stksz s with
    | (some p, s) => (.ok p, s)
    | (none, s) => (.error .nomem, s)

namespace BlkMem

variable {w : Nat} {p q v : Int} {mem mem' : Int → UInt8}

theorem toINT_of_range (h : -(256 ^ w : Int) ≤ 2 * v ∧ 2 * v < 256 ^ w) : toINT w v = v := by
  have hpos : (0 : Int) < 256 ^ w := Int.pow_pos (by decide)
  unfold toINT
  by_cases h0 : 0 ≤ v
  · rw [Int.emod_eq_of_lt h0 (by omega), if_pos h.2]
  · have hmod : v % 256 ^ w = v + 256 ^ w := by
      rw [← Int.add_emod_right, Int.emod_eq_of_lt (by omega) (by omega)]
    rw [hmod]
    split <;> omega

theorem toINT_emod (w : Nat) (v : Int) : toINT w (v % 256 ^ w) = toINT w v := by
  unfold toINT
  rw [Int.emod_emod]

/-- An `INT` reads the bytes it is stored in. -/
theorem readINT_congr (h : ∀ a, p ≤ a → a < p + w → mem a = mem' a) :
    readINT w p mem = readINT w p mem' := by
  unfold readINT
  rw [readLE_congr (g := fun k => mem' (p + k)) (q := 0) fun k hk => ?_]
  exact h _ (by omega) (by omega)

/-- **What is stored is read back.** -/
theorem readINT_putINT (h : -(256 ^ w : Int) ≤ 2 * v ∧ 2 * v < 256 ^ w) :
    readINT w p (putINT w p v mem) = v := by
  have hpos : (0 : Int) < 256 ^ w := Int.pow_pos (by decide)
  have hbytes : readLE (fun k => putINT w p v mem (p + k)) 0 w =
      (v % 256 ^ w).toNat % 256 ^ w := by
    refine readLE_of_bytes fun k hk => ?_
    unfold putINT
    rw [if_pos (by omega)]
    congr 1
    omega
  have hmod : 0 ≤ v % 256 ^ w ∧ v % 256 ^ w < 256 ^ w :=
    ⟨Int.emod_nonneg _ (by omega), Int.emod_lt_of_pos _ hpos⟩
  have hlt : (v % 256 ^ w).toNat < 256 ^ w := by
    have : ((256 ^ w : Nat) : Int) = (256 : Int) ^ w := Int.natCast_pow 256 w
    omega
  unfold readINT
  rw [hbytes, Nat.mod_eq_of_lt hlt, Int.toNat_of_nonneg hmod.1, toINT_emod, toINT_of_range h]

/-- Elsewhere nothing is stored. -/
theorem putINT_of_out {a : Int} (h : a < p ∨ p + w ≤ a) : putINT w p v mem a = mem a := by
  unfold putINT
  rw [if_neg (by omega)]

end BlkMem

end Ittrium
