import Ittrium.Infra.RingFamily

/-!
# `kqueue.h`

The queue primitives, one link write of the source after the other, and what they amount to
in terms of `Ittrium/Infra/Ring.lean`.
-/

namespace Ittrium

open Infra

variable {α : Type*} [DecidableEq α]

/-! ## The source -/

/-- `entry->next = v`. -/
def setNext (entry v : α) (h : Links α) : Links α :=
  { h with next := Function.update h.next entry v }

/-- `entry->prev = v`. -/
def setPrev (entry v : α) (h : Links α) : Links α :=
  { h with prev := Function.update h.prev entry v }

def kqueueInit (queue : α) (h : Links α) : Links α :=
  setPrev queue queue (setNext queue queue h)

def kqueueInsert (entry queue : α) (h : Links α) : Links α :=
  let h := setPrev entry (h.prev queue) h
  let h := setNext entry queue h
  let h := setNext (h.prev queue) entry h
  setPrev queue entry h

def kqueueRemove (entry : α) (h : Links α) : Links α :=
  if h.next entry ≠ entry then
    let h := setNext (h.prev entry) (h.next entry) h
    setPrev (h.next entry) (h.prev entry) h
  else h

/-- Returns the entry taken off, and the links. -/
def kqueueRemoveNext (queue : α) (h : Links α) : α × Links α :=
  let entry := h.next queue
  let h := setNext queue (h.next entry) h
  (entry, setPrev (h.next entry) queue h)

def kqueueEmpty (queue : α) (h : Links α) : Bool := h.next queue = queue

/-! ## What they do to rings -/

section

variable {h : Links α} {H : α → Prop} {E : α → List α} {r x : α} {l₁ l₂ : List α}

theorem kqueueInsert_eq {x y : α} (hne : y ≠ x) (h : Links α) :
    kqueueInsert x y h = h.insertBefore x y := by
  simp [kqueueInsert, setNext, setPrev, Links.insertBefore, Function.update_of_ne hne]

theorem kqueueRemove_eq (hx : h.next x ≠ x) : kqueueRemove x h = h.unlink x := by
  have hread : Function.update h.next (h.prev x) (h.next x) x = h.next x := by
    by_cases he : x = h.prev x
    · rw [← he, Function.update_self]
    · rw [Function.update_of_ne he]
  simp [kqueueRemove, hx, setNext, setPrev, Links.unlink, hread]

/-- Removing the head of an empty ring changes nothing. -/
theorem kqueueRemove_self (hf : RingFamily h H E) (hr : H r) (hE : E r = []) :
    kqueueRemove r h = h := by
  have hn : h.next r = r := (hf.ring r hr).next_head_eq_iff.mpr hE
  simp [kqueueRemove, hn]

theorem kqueueEmpty_iff (hf : RingFamily h H E) (hr : H r) : kqueueEmpty r h ↔ E r = [] := by
  rw [kqueueEmpty, decide_eq_true_iff]
  exact (hf.ring r hr).next_head_eq_iff

/-- **A node off the rings is inserted in front of `l₂`.** -/
theorem kqueueInsert_family (hf : RingFamily h H E) (hr : H r) (hx : OffRings H E x)
    (hE : E r = l₁ ++ l₂) :
    RingFamily (kqueueInsert x (l₂.head?.getD r) h) H (Function.update E r (l₁ ++ x :: l₂)) := by
  have hne : l₂.head?.getD r ≠ x := by
    rintro rfl
    refine hx r hr ?_
    rw [hE]
    cases l₂ <;> simp
  rw [kqueueInsert_eq hne]
  exact hf.insertBefore hr hx hE

/-- **A member is removed.** -/
theorem kqueueRemove_family (hf : RingFamily h H E) (hr : H r) (hE : E r = l₁ ++ x :: l₂) :
    RingFamily (kqueueRemove x h) H (Function.update E r (l₁ ++ l₂)) := by
  have hring : Ring h r (l₁ ++ x :: l₂) := hE ▸ hf.ring r hr
  have hne : h.next x ≠ x := by
    intro he
    rw [hring.next_mid] at he
    have hnd := hring.nodup
    cases l₂ with
    | nil =>
      have : r = x := by simpa using he
      simp [this] at hnd
    | cons y l₂ =>
      have : y = x := by simpa using he
      simp [this, List.nodup_append] at hnd
  rw [kqueueRemove_eq hne]
  exact hf.unlink hr hE

/-- Taking the first entry off a ring is a removal of it. -/
theorem kqueueRemoveNext_eq (hr : Ring h r (x :: l₂)) :
    kqueueRemoveNext r h = (x, h.unlink x) := by
  have hx : h.next r = x := by simpa using hr.next_head
  have hr' : Ring h r ([] ++ x :: l₂) := hr
  have hp : h.prev x = r := by simpa using hr'.prev_mid
  have hne : x ≠ r := fun he => hr.head_notMem (by simp [he])
  simp only [kqueueRemoveNext, setNext, setPrev, Links.unlink, hx, hp,
    Function.update_of_ne hne]

/-- Taking the first entry off a ring and putting it at the end. -/
theorem kqueueRotate_family (hf : RingFamily h H E) (hr : H r) (hE : E r = x :: l₂) :
    RingFamily (kqueueInsert x r (h.unlink x)) H (Function.update E r (l₂ ++ [x])) := by
  have hE' : E r = [] ++ x :: l₂ := hE
  have hu := hf.unlink hr hE'
  have hu₂ : Function.update E r ([] ++ l₂) r = l₂ ++ [] := by simp
  have hi := kqueueInsert_family hu hr (hf.offRings_of_unlink hr hE') hu₂
  simpa using hi

/-- Several nodes off the rings become heads of empty ones. -/
theorem kqueueInitAll_family (xs : List α) (hf : RingFamily h H E) (hnd : xs.Nodup)
    (hE : ∀ x ∈ xs, E x = []) (hoff : ∀ x ∈ xs, OffRings H E x) :
    RingFamily (xs.foldl (fun h x => kqueueInit x h) h) (fun r => r ∈ xs ∨ H r) E := by
  induction xs generalizing h H with
  | nil => exact hf.mono fun r hr => ⟨hr.resolve_left (by simp), rfl⟩
  | cons x xs ih =>
    obtain ⟨hx, hnd⟩ := List.nodup_cons.mp hnd
    have hone := hf.selfLink (hoff x (by simp))
    rw [← hE x (by simp), Function.update_eq_self] at hone
    have hrest := ih hone hnd (fun y hy => hE y (by simp [hy])) fun y hy r hr => by
      rcases hr with rfl | hr
      · rw [hE r (by simp), List.mem_singleton]
        rintro rfl
        exact hx hy
      · exact hoff y (by simp [hy]) r hr
    exact hrest.mono fun r hr => ⟨by simpa [or_assoc, or_left_comm] using hr, rfl⟩

/-- Several nodes off the rings join the end of one. -/
theorem kqueueInsertAll_family {xs : List α} (hf : RingFamily h H E) (hr : H r) (hnd : xs.Nodup)
    (hoff : ∀ x ∈ xs, OffRings H E x) :
    RingFamily (xs.foldl (fun h x => kqueueInsert x r h) h) H
      (Function.update E r (E r ++ xs)) := by
  induction xs generalizing h E with
  | nil => simpa using hf
  | cons x xs ih =>
    obtain ⟨hx, hnd⟩ := List.nodup_cons.mp hnd
    have hnil : E r = E r ++ [] := (List.append_nil _).symm
    have hone := kqueueInsert_family hf hr (hoff x (by simp)) hnil
    have hrest := ih hone hnd fun y hy r' hr' => by
      have hyx : y ≠ x := fun he => hx (he ▸ hy)
      have hy' := hoff y (by simp [hy]) r' hr'
      by_cases he : r' = r
      · subst he
        rw [Function.update_self]
        simp only [List.mem_cons, List.mem_append] at hy' ⊢
        tauto
      · rwa [Function.update_of_ne he]
    simpa using hrest

/-- A node off the rings becomes the head of a ring of other nodes off them. -/
theorem kqueueFill_family (xs : List α) (hf : RingFamily h H E) (hr : OffRings H E r)
    (hE : E r = xs) (hnd : (r :: xs).Nodup) (hoff : ∀ x ∈ xs, OffRings H E x) :
    RingFamily (xs.foldl (fun h x => kqueueInsert x r h) (kqueueInit r h))
      (fun r' => r' = r ∨ H r') E := by
  obtain ⟨hrx, hnd⟩ := List.nodup_cons.mp hnd
  have hall := kqueueInsertAll_family (hf.selfLink hr) (Or.inl rfl) hnd fun x hx r' hr' => by
    rcases hr' with rfl | hr'
    · rw [Function.update_self, List.mem_singleton]
      rintro rfl
      exact hrx hx
    · rw [Function.update_of_ne fun he => hr r' hr' (by simp [he])]
      exact hoff x hx r' hr'
  rw [Function.update_self, List.nil_append, Function.update_idem, ← hE,
    Function.update_eq_self] at hall
  rw [← hE]
  exact hall

end

end Ittrium
