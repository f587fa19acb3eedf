import Mathlib.Tactic.Basic
import Mathlib.Data.List.TakeWhile

/-!
# Paths as strings

A string is the list of its characters before the terminating zero. A path is a string, and its
components end at slashes. Nothing is normalised: `/a`, `/a/` and `//a` are different paths.

* `Anc d p` — `p` is `d`, or below `d`
* `below d p` — what is left of `p` there
* `strip` — a path without its leading slashes
-/

namespace Ittrium.Infra

/-- `char`. -/
abbrev Ch := UInt8
abbrev Str := List Ch

def slash : Ch := 0x2f

/-- The path begins with a slash. -/
def Absolute (p : Str) : Prop := p.head? = some slash

instance (p : Str) : Decidable (Absolute p) := inferInstanceAs (Decidable (p.head? = some slash))

/-- The path ends with a slash. -/
def Slashed (p : Str) : Prop := p.getLast? = some slash

instance (p : Str) : Decidable (Slashed p) := inferInstanceAs (Decidable (p.getLast? = some slash))

/-! ## What is below a directory -/

/-- `p` is the directory `d` or lies below it. A directory's name ends where its path does, so
`/ab` has nothing to do with `/abc`. -/
def Anc (d p : Str) : Prop :=
  ∃ s, p = d ++ s ∧ (s = [] ∨ Slashed d ∨ s.head? = some slash)

/-- The path from the directory `d` to `p`. -/
def below (d p : Str) : Str := if Slashed d then p.drop d.length else p.drop (d.length + 1)

theorem anc_append {d s : Str} :
    Anc d (d ++ s) ↔ s = [] ∨ Slashed d ∨ s.head? = some slash := by
  constructor
  · rintro ⟨s', he, h⟩
    rw [List.append_cancel_left he]
    exact h
  · exact fun h => ⟨s, rfl, h⟩

theorem Anc.refl (d : Str) : Anc d d := ⟨[], (List.append_nil d).symm, Or.inl rfl⟩

/-- Of two directories above a path the shorter one is a prefix of the longer one. -/
theorem Anc.comparable {d d' p : Str} (h : Anc d p) (h' : Anc d' p) (hlen : d.length ≤ d'.length) :
    d <+: d' := by
  obtain ⟨s, rfl, -⟩ := h
  obtain ⟨s', he, -⟩ := h'
  exact List.prefix_of_prefix_length_le (List.prefix_append d s) (he ▸ List.prefix_append d' s') hlen

/-! ## Leading slashes -/

/-- The path without its leading slashes. -/
def strip (p : Str) : Str := p.dropWhile (· = slash)

theorem strip_cons_slash (p : Str) : strip (slash :: p) = strip p := by
  unfold strip
  rw [List.dropWhile_cons_of_pos (by decide)]

/-- A path is relative after `strip`. -/
theorem not_absolute_strip (p : Str) : ¬ Absolute (strip p) := by
  intro h
  have hne := List.head?_dropWhile_not (fun c => decide (c = slash)) p
  unfold Absolute strip at h
  rw [h] at hne
  simp at hne

theorem strip_of_relative {p : Str} (h : ¬ Absolute p) : strip p = p := by
  cases p with
  | nil => rfl
  | cons c s =>
    unfold strip
    refine List.dropWhile_cons_of_neg ?_
    rw [decide_eq_true_eq]
    rintro rfl
    exact h rfl

@[simp] theorem strip_strip (p : Str) : strip (strip p) = strip p :=
  strip_of_relative (not_absolute_strip p)

end Ittrium.Infra
