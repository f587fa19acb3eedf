import Mathlib.Data.BitVec
import Mathlib.Data.Set.Function
import Mathlib.Data.Set.Lattice
import Mathlib.Order.CompletePartialOrder
import Mathlib.Tactic.Ring

/-!
# Areas of an address space

Addresses are bit vectors and wrap.

* `area p n` — the `n` addresses from `p` on
* `areas l` — all addresses of a list of areas
* `OnlyIn W f g` — a memory changes from `f` to `g`, and only in `W`
* `disjoint_area_iff` — **two areas are disjoint when each ends before the other one begins**
-/

namespace Ittrium.Infra

variable {w : Nat} {p q d x : BitVec w} {n m k : Nat}

/-- The `n` addresses from `p` on. -/
def area (p : BitVec w) (n : Nat) : Set (BitVec w) := {x | (x - p).toNat < n}

theorem mem_area : x ∈ area p n ↔ (x - p).toNat < n := Iff.rfl

theorem self_mem_area (hn : 0 < n) : p ∈ area p n := by
  rw [mem_area, BitVec.sub_self]
  simpa using hn

/-- A part of an area. -/
theorem area_offset (h : d.toNat + k ≤ n) : area (p + d) k ⊆ area p n := by
  intro x hx
  rw [mem_area] at hx ⊢
  have hsplit : x - p = (x - (p + d)) + d := by ring
  rw [hsplit, BitVec.toNat_add]
  exact (Nat.mod_le _ _).trans_lt (by omega)

/-- **Two areas are disjoint when each ends before the other one begins.** -/
theorem disjoint_area_iff : Disjoint (area p n) (area q m) ↔
    n = 0 ∨ m = 0 ∨ n ≤ (q - p).toNat ∧ m ≤ (p - q).toNat := by
  rw [Set.disjoint_left]
  constructor
  · intro h
    by_cases hn : n = 0
    · exact Or.inl hn
    by_cases hm : m = 0
    · exact Or.inr (Or.inl hm)
    refine Or.inr (Or.inr ⟨?_, ?_⟩)
    · by_contra hlt
      exact h (show q ∈ area p n from not_le.mp hlt) (self_mem_area (by omega))
    · by_contra hlt
      exact h (self_mem_area (by omega)) (show p ∈ area q m from not_le.mp hlt)
  · rintro (rfl | rfl | ⟨hn, hm⟩) x hp hq
    · exact absurd hp (Nat.not_lt_zero _)
    · exact absurd hq (Nat.not_lt_zero _)
    · rw [mem_area] at hp hq
      have hsplit : x - p = (x - q) + (q - p) := by ring
      have hneg : p - q = -(q - p) := by ring
      rw [hsplit, BitVec.toNat_add] at hp
      rw [hneg, BitVec.toNat_neg] at hm
      have hlt := (q - p).isLt
      have hltx := (x - q).isLt
      by_cases hwrap : (x - q).toNat + (q - p).toNat < 2 ^ w
      · rw [Nat.mod_eq_of_lt hwrap] at hp
        omega
      · rw [Nat.mod_eq_sub_mod (not_lt.mp hwrap), Nat.mod_eq_of_lt (by omega)] at hp
        have hle := Nat.mod_le (2 ^ w - (q - p).toNat) (2 ^ w)
        omega

instance (p : BitVec w) (n : Nat) (q : BitVec w) (m : Nat) :
    Decidable (Disjoint (area p n) (area q m)) :=
  decidable_of_iff _ disjoint_area_iff.symm

/-- The addresses of some areas. -/
def areas (l : List (BitVec w × Nat)) : Set (BitVec w) := {x | ∃ a ∈ l, x ∈ area a.1 a.2}

theorem area_subset_areas {l : List (BitVec w × Nat)} (h : (p, n) ∈ l) : area p n ⊆ areas l :=
  fun _ hx => ⟨_, h, hx⟩

theorem disjoint_areas_iff {l : List (BitVec w × Nat)} {A : Set (BitVec w)} :
    Disjoint (areas l) A ↔ ∀ a ∈ l, Disjoint (area a.1 a.2) A := by
  constructor
  · exact fun h a ha => h.mono_left (area_subset_areas ha)
  · intro h
    rw [Set.disjoint_left]
    rintro x ⟨a, ha, hx⟩
    exact Set.disjoint_left.mp (h a ha) hx

theorem disjoint_areas_iff' {l : List (BitVec w × Nat)} {A : Set (BitVec w)} :
    Disjoint A (areas l) ↔ ∀ a ∈ l, Disjoint A (area a.1 a.2) := by
  rw [disjoint_comm, disjoint_areas_iff]
  exact forall₂_congr fun _ _ => disjoint_comm

instance (l : List (BitVec w × Nat)) (p : BitVec w) (n : Nat) :
    Decidable (Disjoint (area p n) (areas l)) :=
  decidable_of_iff _ disjoint_areas_iff'.symm

instance (l l' : List (BitVec w × Nat)) : Decidable (Disjoint (areas l) (areas l')) :=
  decidable_of_iff _ disjoint_areas_iff.symm

/-- Areas apart begin at different addresses. -/
theorem ne_of_disjoint (h : Disjoint (area p n) (area q m)) (hn : n ≠ 0) (hm : m ≠ 0) : p ≠ q := by
  rintro rfl
  have hp := self_mem_area (p := p) (Nat.pos_of_ne_zero hn)
  exact Set.disjoint_left.mp h hp (self_mem_area (Nat.pos_of_ne_zero hm))

/-! ## Changes -/

section

variable {α β : Type*} {W W' : Set α} {f g h : α → β}

/-- Outside `W` the memory is as it was. -/
def OnlyIn (W : Set α) (f g : α → β) : Prop := Set.EqOn g f Wᶜ

theorem OnlyIn.refl : OnlyIn W f f := Set.eqOn_refl f _

theorem OnlyIn.trans (hg : OnlyIn W f g) (hh : OnlyIn W g h) : OnlyIn W f h :=
  Set.EqOn.trans hh hg

theorem OnlyIn.mono (hg : OnlyIn W f g) (hW : W ⊆ W') : OnlyIn W' f g :=
  Set.EqOn.mono (Set.compl_subset_compl.mpr hW) hg

/-- What is apart from the change stays. -/
theorem OnlyIn.keeps (hg : OnlyIn W f g) {A : Set α} (hA : Disjoint W A) : Set.EqOn g f A :=
  Set.EqOn.mono hA.subset_compl_left hg

end

end Ittrium.Infra
