import Ittrium.Infra.Ring

/-!
# Families of disjoint rings

Several rings live in the same cells. `RingFamily h H E` says that every node satisfying `H` is
the head of a ring with members `E`, and that no node lies on two of them.

The operations of `Ittrium/Infra/Ring.lean` touch the cells of one ring and of at most one node
that lies on none, so each keeps the whole family: the lemmas below say which `E` comes out.
-/

namespace Ittrium.Infra

variable {α : Type*}

/-- The rings headed by the nodes in `H`, with members `E`, are well formed and disjoint. -/
structure RingFamily (h : Links α) (H : α → Prop) (E : α → List α) : Prop where
  ring : ∀ r, H r → Ring h r (E r)
  disjoint : ∀ r r', H r → H r' → r ≠ r' → (r :: E r).Disjoint (r' :: E r')

/-- `x` lies on none of the rings. -/
def OffRings (H : α → Prop) (E : α → List α) (x : α) : Prop := ∀ r, H r → x ∉ r :: E r

namespace RingFamily

variable {h h' : Links α} {H H' : α → Prop} {E E' : α → List α} {r x : α} {l₁ l₂ : List α}

/-- The family without a head, of which every node is off. -/
theorem empty (h : Links α) (E : α → List α) : RingFamily h (fun _ => False) E where
  ring := fun _ hf => hf.elim
  disjoint := fun _ _ hf => hf.elim

/-- A family may be read with fewer heads, and with other members off its heads. -/
theorem mono (hf : RingFamily h H E) (hm : ∀ r, H' r → H r ∧ E' r = E r) :
    RingFamily h H' E' where
  ring := fun r hr => by
    obtain ⟨h₁, h₂⟩ := hm r hr
    rw [h₂]; exact hf.ring r h₁
  disjoint := fun r r' hr hr' hne => by
    obtain ⟨h₁, h₂⟩ := hm r hr
    obtain ⟨h₁', h₂'⟩ := hm r' hr'
    rw [h₂, h₂']; exact hf.disjoint r r' h₁ h₁' hne

/-- A member of one ring is on no other. -/
theorem notMem_of_ne (hf : RingFamily h H E) {r' : α} (hr : H r) (hr' : H r') (hne : r ≠ r')
    {z : α} (hz : z ∈ r :: E r) : z ∉ r' :: E r' :=
  fun hz' => hf.disjoint r r' hr hr' hne hz hz'

/-- The nodes at which a part `l₂` of a ring begins and `l₁` ends are on the ring. -/
theorem ne_ends {z : α} (hz : z ∉ r :: (l₁ ++ l₂)) :
    z ≠ l₁.getLast?.getD r ∧ z ≠ l₂.head?.getD r := by
  constructor
  · rintro rfl
    have hm := getLast?_getD_mem r l₁
    simp only [List.mem_cons, List.mem_append] at hz hm
    tauto
  · rintro rfl
    cases l₂ <;> simp at hz

variable [DecidableEq α]

/-- The ring of `r` is replaced by one over its own nodes and nodes off the rings. -/
theorem replace (hf : RingFamily h H E) (hr : H r) {l : List α}
    (hl : ∀ z ∈ l, z ∈ E r ∨ OffRings H E z) (hring : Ring h' r l)
    (hoff : ∀ r' z, H r' → z ∈ r' :: E r' → z ∉ r :: E r →
      h'.next z = h.next z ∧ h'.prev z = h.prev z) :
    RingFamily h' H (Function.update E r l) := by
  have hdis : ∀ r', H r' → r' ≠ r → ∀ z ∈ r :: l, z ∉ r' :: E r' := by
    intro r' hr' hne z hz
    rcases List.mem_cons.mp hz with rfl | hz
    · exact hf.notMem_of_ne hr hr' hne.symm (by simp)
    · rcases hl z hz with hm | hm
      · exact hf.notMem_of_ne hr hr' hne.symm (by simp [hm])
      · exact hm r' hr'
  constructor
  · intro r' hr'
    by_cases he : r' = r
    · subst he; simpa using hring
    · rw [Function.update_of_ne he]
      have hmem : ∀ z ∈ r' :: E r', h'.next z = h.next z ∧ h'.prev z = h.prev z :=
        fun z hz => hoff r' z hr' hz (hf.notMem_of_ne hr' hr he hz)
      exact (hf.ring r' hr').congr (fun z hz => (hmem z hz).1) (fun z hz => (hmem z hz).2)
  · intro r₁ r₂ h₁ h₂ hne
    by_cases he₁ : r₁ = r
    · subst he₁
      rw [Function.update_self, Function.update_of_ne hne.symm]
      exact fun z hz hz' => hdis r₂ h₂ hne.symm z hz hz'
    · by_cases he₂ : r₂ = r
      · subst he₂
        rw [Function.update_self, Function.update_of_ne he₁]
        exact fun z hz hz' => hdis r₁ h₁ he₁ z hz' hz
      · rw [Function.update_of_ne he₁, Function.update_of_ne he₂]
        exact hf.disjoint r₁ r₂ h₁ h₂ hne

/-- **A node off the rings is inserted in front of `l₂`.** -/
theorem insertBefore (hf : RingFamily h H E) (hr : H r) (hx : OffRings H E x)
    (hE : E r = l₁ ++ l₂) :
    RingFamily (h.insertBefore x (l₂.head?.getD r)) H (Function.update E r (l₁ ++ x :: l₂)) := by
  have hring : Ring h r (l₁ ++ l₂) := hE ▸ hf.ring r hr
  have hx' : x ∉ r :: l₁ ++ l₂ := by
    have := hx r hr
    rwa [hE] at this
  refine hf.replace hr ?_ (hring.insertBefore hx') ?_
  · intro z hz
    rw [hE]
    rcases List.mem_append.mp hz with hz | hz
    · exact Or.inl (List.mem_append_left _ hz)
    · rcases List.mem_cons.mp hz with rfl | hz
      · exact Or.inr hx
      · exact Or.inl (List.mem_append_right _ hz)
  · intro r' z hr' hm hz
    rw [hE] at hz
    obtain ⟨h₁, h₂⟩ := ne_ends hz
    have hzx : z ≠ x := by
      rintro rfl
      exact hx r' hr' hm
    rw [Links.insertBefore, hring.prev_split]
    simp only [Function.update_of_ne h₁, Function.update_of_ne h₂, Function.update_of_ne hzx,
      and_self]

/-- **A member is removed.** -/
theorem unlink (hf : RingFamily h H E) (hr : H r) (hE : E r = l₁ ++ x :: l₂) :
    RingFamily (h.unlink x) H (Function.update E r (l₁ ++ l₂)) := by
  have hring : Ring h r (l₁ ++ x :: l₂) := hE ▸ hf.ring r hr
  refine hf.replace hr ?_ hring.unlink ?_
  · intro z hz
    rw [hE]
    simp only [List.mem_append, List.mem_cons] at hz ⊢
    tauto
  · intro r' z _ _ hz
    rw [hE] at hz
    have hz' : z ∉ r :: (l₁ ++ l₂) := by
      simp only [List.mem_cons, List.mem_append] at hz ⊢
      tauto
    obtain ⟨h₁, h₂⟩ := ne_ends hz'
    rw [Links.unlink, hring.prev_mid, hring.next_mid]
    simp only [Function.update_of_ne h₁, Function.update_of_ne h₂, and_self]

/-- A member that is removed is off the rings. -/
theorem offRings_of_unlink (hf : RingFamily h H E) (hr : H r) (hE : E r = l₁ ++ x :: l₂) :
    OffRings H (Function.update E r (l₁ ++ l₂)) x := by
  intro r' hr'
  have hx : x ∈ r :: E r := by rw [hE]; simp
  by_cases he : r' = r
  · subst he
    have hnd := (hf.ring r' hr').nodup
    rw [hE, ← List.cons_append, List.nodup_middle] at hnd
    simpa using (List.nodup_cons.mp hnd).1
  · rw [Function.update_of_ne he]
    exact hf.notMem_of_ne hr hr' (Ne.symm he) hx

/-- **A node off the rings becomes the head of an empty one.** -/
theorem selfLink (hf : RingFamily h H E) (hx : OffRings H E x) :
    RingFamily (h.selfLink x) (fun r => r = x ∨ H r) (Function.update E x []) := by
  have hne : ∀ r', H r' → r' ≠ x := by
    rintro r' hr' rfl
    exact hx r' hr' (by simp)
  constructor
  · rintro r' (rfl | hr')
    · simpa using Ring.selfLink r' h
    · rw [Function.update_of_ne (hne r' hr')]
      have hz : ∀ z ∈ r' :: E r', z ≠ x := by
        rintro z hz rfl
        exact hx r' hr' hz
      exact (hf.ring r' hr').congr (fun z hm => Function.update_of_ne (hz z hm) _ _)
        (fun z hm => Function.update_of_ne (hz z hm) _ _)
  · rintro r₁ r₂ (rfl | h₁) (rfl | h₂) hne'
    · exact absurd rfl hne'
    · rw [Function.update_self, Function.update_of_ne (hne r₂ h₂)]
      simpa using hx r₂ h₂
    · rw [Function.update_self, Function.update_of_ne (hne r₁ h₁)]
      intro z hz hz'
      rw [List.mem_singleton] at hz'
      exact hx r₁ h₁ (hz' ▸ hz)
    · rw [Function.update_of_ne (hne r₁ h₁), Function.update_of_ne (hne r₂ h₂)]
      exact hf.disjoint r₁ r₂ h₁ h₂ hne'

end RingFamily

end Ittrium.Infra
