import Mathlib.Tactic.Basic

/-!
# What has been written to a file

The writes to a file since it was last empty, the latest one first, say what is in it.

* `lastWritten` — the value most recently written at an offset
* `extent` — the largest end of a write
-/

namespace Ittrium.Infra

variable {β : Type*}

/-- The values `value 0`, …, `value (len - 1)`, written from `pos` on. -/
structure Written (β : Type*) where
  pos : Nat
  len : Nat
  value : Nat → β

/-- What was written last at `o`, or `z`. -/
def lastWritten (z : β) : List (Written β) → Nat → β
  | [], _ => z
  | w :: j, o => if w.pos ≤ o ∧ o < w.pos + w.len then w.value (o - w.pos) else lastWritten z j o

def extent : List (Written β) → Nat
  | [] => 0
  | w :: j => max (w.pos + w.len) (extent j)

/-- Beyond the end nothing has been written. -/
theorem lastWritten_of_extent_le (z : β) {o : Nat} :
    ∀ {j : List (Written β)}, extent j ≤ o → lastWritten z j o = z
  | [], _ => rfl
  | w :: j, h => by
    have hw : w.pos + w.len ≤ o ∧ extent j ≤ o := Nat.max_le.mp h
    rw [lastWritten, if_neg (by omega), lastWritten_of_extent_le z hw.2]

/-- `data` are the contents of the file up to its end. -/
def Holds (z : β) (j : List (Written β)) (size : Nat) (data : Nat → β) : Prop :=
  size = extent j ∧ ∀ o < size, data o = lastWritten z j o

theorem Holds.empty (z : β) (data : Nat → β) : Holds z [] 0 data :=
  ⟨rfl, fun _ h => absurd h (Nat.not_lt_zero _)⟩

theorem Holds.congr {z : β} {j : List (Written β)} {size : Nat} {data data' : Nat → β}
    (h : Holds z j size data) (hd : ∀ o < size, data' o = data o) : Holds z j size data' :=
  ⟨h.1, fun o ho => (hd o ho).trans (h.2 o ho)⟩

/-- **A write that does not begin beyond the end.** -/
theorem Holds.write {z : β} {j : List (Written β)} {size : Nat} {data : Nat → β} (w : Written β)
    (h : Holds z j size data) (hpos : w.pos ≤ size) :
    Holds z (w :: j) (if w.pos + w.len > size then w.pos + w.len else size)
      fun o => if w.pos ≤ o ∧ o < w.pos + w.len then w.value (o - w.pos) else data o := by
  constructor
  · rw [extent, ← h.1]
    split <;> omega
  · intro o ho
    dsimp only
    rw [lastWritten]
    by_cases hin : w.pos ≤ o ∧ o < w.pos + w.len
    · rw [if_pos hin, if_pos hin]
    · rw [if_neg hin, if_neg hin]
      refine h.2 o ?_
      split at ho <;> omega

end Ittrium.Infra
