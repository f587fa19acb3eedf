import Mathlib.Data.List.Pairwise
import Mathlib.Data.List.Nodup
import Mathlib.Data.List.TakeWhile
import Mathlib.Data.List.Perm.Basic
import Mathlib.Order.Lattice

/-!
# Stable insertion by key

`insertStable key x l` puts `x` behind the elements whose key is at most its own, as far as they
come first. On a list ordered by key that is the last place among its equals: the order of the
keys is kept, and so is the order of arrival within each key.

`StablySorted key arr l` says that `l` is `arr` in the order of the keys, elements with the same
key in the order they have in `arr`.
-/

namespace Ittrium.Infra

variable {α κ : Type*} [LinearOrder κ]

/-- `x` is inserted in front of the first element with a greater key. -/
def insertStable (key : α → κ) (x : α) (l : List α) : List α :=
  l.takeWhile (fun y => key y ≤ key x) ++ x :: l.dropWhile (fun y => key y ≤ key x)

/-- Keys never decrease along the list. -/
def KeySorted (key : α → κ) (l : List α) : Prop := l.Pairwise fun a b => key a ≤ key b

variable {key key' : α → κ} {x y : α} {l : List α}

/-- Only the keys of the elements at hand matter. -/
theorem KeySorted.congr (h : KeySorted key l) (hl : ∀ y ∈ l, key' y = key y) :
    KeySorted key' l :=
  h.imp_of_mem fun ha hb hle => by rwa [hl _ ha, hl _ hb]

theorem mem_insertStable : y ∈ insertStable key x l ↔ y = x ∨ y ∈ l := by
  conv_rhs => rw [← List.takeWhile_append_dropWhile (p := fun y => decide (key y ≤ key x)) (l := l)]
  simp only [insertStable, List.mem_append, List.mem_cons]
  tauto

theorem insertStable_perm : (insertStable key x l).Perm (x :: l) := by
  refine List.perm_middle.trans (List.Perm.cons x ?_)
  rw [List.takeWhile_append_dropWhile]

theorem nodup_insertStable (hx : x ∉ l) (hl : l.Nodup) : (insertStable key x l).Nodup :=
  insertStable_perm.nodup_iff.mpr (List.nodup_cons.mpr ⟨hx, hl⟩)

/-- No key is greater: the new element comes last. -/
theorem insertStable_of_le (h : ∀ y ∈ l, key y ≤ key x) : insertStable key x l = l ++ [x] := by
  unfold insertStable
  rw [List.takeWhile_eq_self_iff.mpr fun y hy => decide_eq_true (h y hy),
    List.dropWhile_eq_nil_iff.mpr fun y hy => decide_eq_true (h y hy)]

/-- Behind the place of insertion every key of an ordered list is greater. -/
theorem lt_of_mem_dropWhile (hl : KeySorted key l)
    (hy : y ∈ l.dropWhile (fun y => key y ≤ key x)) : key x < key y := by
  induction l with
  | nil => simp at hy
  | cons a l ih =>
    have hl' := List.pairwise_cons.mp hl
    by_cases ha : key a ≤ key x
    · rw [List.dropWhile_cons_of_pos (by simpa using ha)] at hy
      exact ih hl'.2 hy
    · rw [List.dropWhile_cons_of_neg (by simpa using ha)] at hy
      rcases List.mem_cons.mp hy with rfl | hy
      · exact not_le.mp ha
      · exact lt_of_lt_of_le (not_le.mp ha) (hl'.1 y hy)

theorem KeySorted.insertStable (hl : KeySorted key l) : KeySorted key (insertStable key x l) := by
  have hle : ∀ y ∈ l.takeWhile (fun y => key y ≤ key x), key y ≤ key x := by
    intro y hy
    simpa using List.mem_takeWhile_imp hy
  have hlt : ∀ y ∈ l.dropWhile (fun y => key y ≤ key x), key x < key y :=
    fun y hy => lt_of_mem_dropWhile hl hy
  refine List.pairwise_append.mpr ⟨hl.sublist (List.takeWhile_sublist _),
    List.pairwise_cons.mpr ⟨fun y hy => (hlt y hy).le, hl.sublist (List.dropWhile_sublist _)⟩, ?_⟩
  intro a ha b hb
  rcases List.mem_cons.mp hb with rfl | hb
  · exact hle a ha
  · exact (hle a ha).trans (hlt b hb).le

/-- **Within a key the new element comes last, and nothing else moves.** -/
theorem filter_insertStable (hl : KeySorted key l) (k : κ) :
    (Infra.insertStable key x l).filter (fun y => key y = k) =
      l.filter (fun y => key y = k) ++ [x].filter (fun y => key y = k) := by
  have hsplit := List.takeWhile_append_dropWhile (p := fun y => decide (key y ≤ key x)) (l := l)
  conv_rhs => rw [← hsplit]
  simp only [Infra.insertStable, List.filter_append, List.filter_cons]
  by_cases hk : key x = k
  · have hnone : (l.dropWhile fun y => decide (key y ≤ key x)).filter (fun y => key y = k) = [] := by
      rw [List.filter_eq_nil_iff]
      intro y hy
      have := lt_of_mem_dropWhile hl hy
      simp only [decide_eq_true_eq]
      exact fun he => absurd (he.trans hk.symm) this.ne'
    rw [hnone]
    simp [hk]
  · simp [hk]

/-! ## Arrivals in the order of their keys -/

/-- `l` is `arr` in the order of the keys, equals in the order they have in `arr`. -/
structure StablySorted (key : α → κ) (arr l : List α) : Prop where
  sorted : KeySorted key l
  equals : ∀ k, l.filter (fun y => key y = k) = arr.filter (fun y => key y = k)

namespace StablySorted

variable {arr : List α}

theorem nil : StablySorted key ([] : List α) [] := ⟨.nil, fun _ => rfl⟩

theorem mem_iff (h : StablySorted key arr l) : y ∈ l ↔ y ∈ arr := by
  have hmem : ∀ l : List α, y ∈ l ↔ y ∈ l.filter fun z => key z = key y := by simp
  rw [hmem l, hmem arr, h.equals]

/-- **A list in the order of keys has the elements of the arrivals, each as often.** -/
theorem perm [DecidableEq α] (h : StablySorted key arr l) : l.Perm arr := by
  rw [List.perm_iff_count]
  intro y
  have hcount : ∀ l : List α, l.count y = (l.filter fun z => key z = key y).count y := by
    intro l
    rw [List.count_filter (by simp)]
  rw [hcount l, hcount arr, h.equals]

/-- The next arrival goes to its place. -/
theorem insert (h : StablySorted key arr l) (x : α) :
    StablySorted key (arr ++ [x]) (insertStable key x l) where
  sorted := h.sorted.insertStable
  equals := fun k => by rw [filter_insertStable h.sorted, List.filter_append, h.equals]

/-- Some leave, whatever their places. -/
theorem filter (h : StablySorted key arr l) (p : α → Bool) :
    StablySorted key (arr.filter p) (l.filter p) where
  sorted := h.sorted.sublist List.filter_sublist
  equals := fun k => by
    rw [List.filter_comm, h.equals, List.filter_comm]

/-- Only the keys of the elements at hand matter. -/
theorem congr (h : StablySorted key arr l) (hl : ∀ y ∈ l, key' y = key y) :
    StablySorted key' arr l where
  sorted := h.sorted.congr hl
  equals := fun k => by
    rw [List.filter_congr (q := fun y => decide (key y = k)) fun y hy => by rw [hl y hy], h.equals]
    exact List.filter_congr fun y hy => by rw [hl y (h.mem_iff.mpr hy)]

/-- **The first element has the least key, and arrived first among its equals.** -/
theorem head (h : StablySorted key arr (x :: l)) :
    ∃ l₁ l₂, arr = l₁ ++ x :: l₂ ∧ (∀ y ∈ l₁, key x < key y) ∧ ∀ y ∈ l₂, key x ≤ key y := by
  have hle : ∀ y ∈ arr, key x ≤ key y := by
    intro y hy
    rcases List.mem_cons.mp (h.mem_iff.mpr hy) with rfl | hy
    · exact le_rfl
    · exact (List.pairwise_cons.mp h.sorted).1 y hy
  have hx := h.equals (key x)
  rw [List.filter_cons_of_pos (by simp)] at hx
  obtain ⟨l₁, l₂, rfl, h₁, hkx, -⟩ := List.filter_eq_cons_iff.mp hx.symm
  refine ⟨l₁, l₂, rfl, fun y hy => lt_of_le_of_ne (hle y (by simp [hy])) fun he => ?_,
    fun y hy => hle y (by simp [hy])⟩
  exact absurd (h₁ y hy) (by simp [he])

/-- The first element leaves. -/
theorem tail [DecidableEq α] (h : StablySorted key arr (x :: l)) :
    StablySorted key (arr.erase x) l where
  sorted := (List.pairwise_cons.mp h.sorted).2
  equals := fun k => by
    have hk := h.equals k
    rw [← List.erase_filter, ← hk]
    by_cases he : key x = k
    · rw [List.filter_cons_of_pos (by simpa using he), List.erase_cons_head]
    · rw [List.filter_cons_of_neg (by simpa using he), List.erase_of_not_mem]
      simp [he]

/-- **Arrivals in the order of their keys stay as they come.** -/
theorem eq_of_sorted (h : StablySorted key arr l) (hs : KeySorted key arr) : l = arr := by
  classical
  induction l generalizing arr with
  | nil => exact (List.eq_nil_iff_forall_not_mem.mpr fun y hy => by
      have := h.mem_iff.mpr hy
      cases this).symm
  | cons x l ih =>
    obtain ⟨l₁, l₂, rfl, h₁, -⟩ := h.head
    have hnil : l₁ = [] := by
      refine List.eq_nil_iff_forall_not_mem.mpr fun y hy => ?_
      exact absurd ((List.pairwise_append.mp hs).2.2 y hy x (by simp)) (not_le.mpr (h₁ y hy))
    subst hnil
    have htail := h.tail
    rw [List.nil_append, List.erase_cons_head] at htail
    rw [ih htail (List.pairwise_cons.mp hs).2]
    rfl

end StablySorted

/-! ## Sublists by membership -/

/-- A sublist of a list without duplicates is told by its members. -/
theorem sublist_eq_filter {l' : List α} {p : α → Bool} (h : l'.Sublist l) (hnd : l.Nodup)
    (hp : ∀ y ∈ l, p y = true ↔ y ∈ l') : l' = l.filter p := by
  have hself : l'.filter p = l' := List.filter_eq_self.mpr fun y hy => (hp y (h.subset hy)).mpr hy
  have hsub : l'.Sublist (l.filter p) := hself ▸ h.filter p
  refine hsub.eq_of_length (List.Perm.length_eq ?_)
  refine (List.perm_ext_iff_of_nodup (hnd.sublist h) (hnd.filter p)).mpr fun y => ?_
  rw [List.mem_filter]
  exact ⟨fun hy => ⟨h.subset hy, (hp y (h.subset hy)).mpr hy⟩, fun ⟨hy, hpy⟩ => (hp y hy).mp hpy⟩

end Ittrium.Infra
