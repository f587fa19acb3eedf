import Mathlib.Logic.Function.Basic
import Mathlib.Data.List.Nodup
import Mathlib.Logic.Function.Iterate
import Mathlib.Tactic.Basic

/-!
# Intrusive doubly linked rings

A ring is a head node and the nodes linked behind it, each carrying a `next` and a `prev` cell.
Nothing here depends on what a node is.

* `Links` — the cells of all nodes
* `Path` — following one of the two cells from a node through a list to a node
* `Ring` — `next` runs through the list and back to the head, `prev` runs the other way
* `Links.Reaches` — following the cells leads from one node to another, on a ring to its nodes only

The one lemma that carries the rest is `Path.splice`: redirecting two cells of a path puts a new
node into it. An insertion uses it twice, once for `next` and once (on the reversed list)
for `prev`.
-/

namespace Ittrium.Infra

/-- The two link cells of every node. -/
structure Links (α : Type*) where
  next : α → α
  prev : α → α

variable {α : Type*}

/-! ## Paths along one cell -/

/-- Following `f` from `a` visits exactly `l` and then arrives at `b`. -/
def Path (f : α → α) : α → List α → α → Prop
  | a, [], b => f a = b
  | a, x :: l, b => f a = x ∧ Path f x l b

@[simp] theorem path_nil {f : α → α} {a b : α} : Path f a [] b ↔ f a = b := Iff.rfl

@[simp] theorem path_cons {f : α → α} {a x b : α} {l : List α} :
    Path f a (x :: l) b ↔ f a = x ∧ Path f x l b := Iff.rfl

theorem path_append {f : α → α} {x b : α} {l₂ : List α} : ∀ {a : α} {l₁ : List α},
    Path f a (l₁ ++ x :: l₂) b ↔ Path f a l₁ x ∧ Path f x l₂ b
  | _, [] => by simp
  | _, y :: l₁ => by
    have ih : Path f y (l₁ ++ x :: l₂) b ↔ Path f y l₁ x ∧ Path f x l₂ b := path_append
    simp [ih, and_assoc]

/-- The cell read first points at the first node, or at the end when there is none. -/
theorem Path.first {f : α → α} {a b : α} {l : List α} (h : Path f a l b) :
    f a = l.head?.getD b := by
  cases l with
  | nil => exact h
  | cons x l => exact h.1

/-- The cell read last points at the end. -/
theorem Path.last {f : α → α} {b : α} : ∀ {a : α} {l : List α}, Path f a l b →
    f (l.getLast?.getD a) = b
  | _, [], h => h
  | a, x :: l, h => by
    have ih := Path.last h.2
    rw [List.getLast?_cons]
    simpa using ih

/-- Only the cells of the start and of the nodes passed are read. -/
theorem Path.congr {f g : α → α} {b : α} : ∀ {a : α} {l : List α}, (∀ z ∈ a :: l, g z = f z) →
    Path f a l b → Path g a l b
  | a, [], hg, h => (hg a (by simp)).trans h
  | a, x :: l, hg, h =>
    ⟨(hg a (by simp)).trans h.1, Path.congr (fun z hz => hg z (by simp [hz])) h.2⟩

/-- The nodes passed on the way to a node that is not among them are determined. -/
theorem Path.unique {f : α → α} {b : α} : ∀ {a : α} {l l' : List α}, b ∉ l → b ∉ l' →
    Path f a l b → Path f a l' b → l = l'
  | _, [], [], _, _, _, _ => rfl
  | _, [], _ :: _, _, hb', h, h' => absurd (h.symm.trans h'.1) fun he => hb' (by simp [he])
  | _, _ :: _, [], hb, _, h, h' => absurd (h'.symm.trans h.1) fun he => hb (by simp [he])
  | a, x :: l, y :: l', hb, hb', h, h' => by
    have hxy : x = y := h.1.symm.trans h'.1
    subst hxy
    rw [Path.unique (fun hm => hb (by simp [hm])) (fun hm => hb' (by simp [hm])) h.2 h'.2]

theorem getLast?_getD_mem (a : α) (l : List α) : l.getLast?.getD a ∈ a :: l := by
  cases hl : l.getLast? with
  | none => simp
  | some z => simpa using Or.inr (List.mem_of_getLast? hl)

/-! ## Rings -/

/-- A well-formed ring with head `r` and members `l`, in `next` order. -/
structure Ring (h : Links α) (r : α) (l : List α) : Prop where
  nodup : (r :: l).Nodup
  forward : Path h.next r l r
  backward : Path h.prev r l.reverse r

namespace Ring

variable {h h' : Links α} {r x : α} {l l' l₁ l₂ : List α}

/-- A ring depends only on the cells of its own nodes. -/
theorem congr (hn : ∀ z ∈ r :: l, h'.next z = h.next z) (hp : ∀ z ∈ r :: l, h'.prev z = h.prev z)
    (hr : Ring h r l) : Ring h' r l where
  nodup := hr.nodup
  forward := hr.forward.congr hn
  backward := hr.backward.congr fun z hz => hp z (by simpa using hz)

theorem next_head (hr : Ring h r l) : h.next r = l.head?.getD r := hr.forward.first

theorem prev_head (hr : Ring h r l) : h.prev r = l.getLast?.getD r := by
  simpa using hr.backward.first

theorem next_mid (hr : Ring h r (l₁ ++ x :: l₂)) : h.next x = l₂.head?.getD r :=
  (path_append.mp hr.forward).2.first

theorem prev_mid (hr : Ring h r (l₁ ++ x :: l₂)) : h.prev x = l₁.getLast?.getD r := by
  have hb : Path h.prev r (l₂.reverse ++ x :: l₁.reverse) r := by simpa using hr.backward
  simpa using (path_append.mp hb).2.first

/-- The predecessor of the first node of a part, or of the head when the part is empty. -/
theorem prev_split (hr : Ring h r (l₁ ++ l₂)) :
    h.prev (l₂.head?.getD r) = l₁.getLast?.getD r := by
  cases l₂ with
  | nil => simpa using hr.prev_head
  | cons y l₂ => exact hr.prev_mid

theorem head_notMem (hr : Ring h r l) : r ∉ l := (List.nodup_cons.mp hr.nodup).1

theorem members_nodup (hr : Ring h r l) : l.Nodup := (List.nodup_cons.mp hr.nodup).2

theorem unique (hr : Ring h r l) (hr' : Ring h r l') : l = l' :=
  Path.unique hr.head_notMem hr'.head_notMem hr.forward hr'.forward

/-- Nothing but the head is on a ring whose head points at itself. -/
theorem next_head_eq_iff (hr : Ring h r l) : h.next r = r ↔ l = [] := by
  rw [hr.next_head]
  cases l with
  | nil => simp
  | cons x l =>
    have hne : x ≠ r := fun he => hr.head_notMem (by simp [he])
    simpa using hne

end Ring

/-! ## What can be reached -/

/-- Following one of the two cells again and again leads from `r` to `x`. -/
def Links.Reaches (h : Links α) (r x : α) : Prop := ∃ n, h.next^[n] r = x ∨ h.prev^[n] r = x

/-- Every node passed on a path can be reached. -/
theorem Path.iterate {f : α → α} {b x : α} : ∀ {a : α} {l : List α}, Path f a l b → x ∈ l →
    ∃ n, f^[n] a = x
  | _, [], _, hx => absurd hx (by simp)
  | a, y :: l, h, hx => by
    rcases List.mem_cons.mp hx with rfl | hx
    · exact ⟨1, h.1⟩
    · obtain ⟨n, hn⟩ := Path.iterate h.2 hx
      refine ⟨n + 1, ?_⟩
      rw [Function.iterate_succ_apply, h.1]
      exact hn

namespace Ring

variable {h : Links α} {r x y : α} {l : List α}

/-- The cells of a ring's nodes point at its nodes. -/
theorem closed (hr : Ring h r l) (hy : y ∈ r :: l) : h.next y ∈ r :: l ∧ h.prev y ∈ r :: l := by
  have hhead : ∀ l' : List α, l'.head?.getD r ∈ r :: l' := by
    intro l'
    cases l' <;> simp
  rcases List.mem_cons.mp hy with rfl | hy
  · rw [hr.next_head, hr.prev_head]
    exact ⟨hhead l, getLast?_getD_mem _ l⟩
  · obtain ⟨l₁, l₂, rfl⟩ := List.append_of_mem hy
    rw [hr.next_mid, hr.prev_mid]
    have h₁ := hhead l₂
    have h₂ := getLast?_getD_mem r l₁
    simp only [List.mem_cons, List.mem_append] at h₁ h₂ ⊢
    tauto

/-- Only nodes of the ring can be reached from one of them. -/
theorem mem_of_reaches (hr : Ring h r l) (hy : y ∈ r :: l) (hx : h.Reaches y x) : x ∈ r :: l := by
  have hiter : ∀ f : α → α, (∀ z ∈ r :: l, f z ∈ r :: l) → ∀ n, f^[n] y ∈ r :: l := by
    intro f hf n
    induction n with
    | zero => exact hy
    | succ n ih =>
      rw [Function.iterate_succ_apply']
      exact hf _ ih
  obtain ⟨n, rfl | rfl⟩ := hx
  · exact hiter _ (fun z hz => (hr.closed hz).1) n
  · exact hiter _ (fun z hz => (hr.closed hz).2) n

/-- **From the head of a ring exactly its nodes can be reached.** -/
theorem reaches_iff (hr : Ring h r l) : h.Reaches r x ↔ x ∈ r :: l := by
  constructor
  · exact hr.mem_of_reaches (by simp)
  · intro hx
    rcases List.mem_cons.mp hx with rfl | hx
    · exact ⟨0, Or.inl rfl⟩
    · obtain ⟨n, hn⟩ := hr.forward.iterate hx
      exact ⟨n, Or.inl hn⟩

end Ring

/-! ## Redirecting cells -/

variable [DecidableEq α]

/-- Redirecting the cell read last moves the end of the path. -/
theorem Path.redirect {f : α → α} {b c : α} : ∀ {a : α} {l : List α}, (a :: l).Nodup →
    Path f a l b → Path (Function.update f (l.getLast?.getD a) c) a l c
  | a, [], _, _ => by simp
  | a, x :: l, hnd, h => by
    have hnd' : (x :: l).Nodup := (List.nodup_cons.mp hnd).2
    have hne : a ≠ l.getLast?.getD x := by
      intro he
      have hm := getLast?_getD_mem x l
      rw [← he] at hm
      exact (List.nodup_cons.mp hnd).1 hm
    rw [List.getLast?_cons]
    refine ⟨?_, Path.redirect hnd' h.2⟩
    rw [Option.getD_some, Function.update_of_ne hne]
    exact h.1

/--
**Splicing a node into a path.**

`x` goes between the part `l₁` and the part `l₂`: the last node before it is redirected to `x`,
and the cell of `x` is set to what that node pointed at.
-/
theorem Path.splice {f : α → α} {a b x : α} {l₁ l₂ : List α} (hnd : (a :: l₁ ++ l₂).Nodup)
    (hx : x ∉ a :: l₁ ++ l₂) (h : Path f a (l₁ ++ l₂) b) :
    Path (Function.update (Function.update f x (l₂.head?.getD b)) (l₁.getLast?.getD a) x)
      a (l₁ ++ x :: l₂) b := by
  have hsub := getLast?_getD_mem a l₁
  have hux : l₁.getLast?.getD a ≠ x := fun he => hx (List.mem_append_left _ (he ▸ hsub))
  have hleft : ∀ {y : α}, Path f a l₁ y → Path (Function.update (Function.update f x
      (l₂.head?.getD b)) (l₁.getLast?.getD a) x) a l₁ x := by
    intro y hy
    refine Path.redirect (b := y) (List.Nodup.of_append_left hnd) (Path.congr ?_ hy)
    intro z hz
    have hzx : z ≠ x := fun he => hx (List.mem_append_left _ (he ▸ hz))
    exact Function.update_of_ne hzx _ _
  refine path_append.mpr ?_
  cases l₂ with
  | nil =>
    refine ⟨hleft (by simpa using h), ?_⟩
    simp [Function.update_of_ne hux.symm]
  | cons y l₂ =>
    obtain ⟨h₁, h₂⟩ := path_append.mp h
    refine ⟨hleft h₁, by simp [Function.update_of_ne hux.symm], Path.congr ?_ h₂⟩
    intro z hz
    have hzu : z ≠ l₁.getLast?.getD a := by
      intro he
      exact List.disjoint_of_nodup_append hnd (he ▸ hsub) hz
    have hzx : z ≠ x := fun he => hx (List.mem_append_right _ (he ▸ hz))
    rw [Function.update_of_ne hzu, Function.update_of_ne hzx]

/-- **Bypassing a node of a path.** -/
theorem Path.bypass {f : α → α} {a b x : α} {l₁ l₂ : List α} (hnd : (a :: l₁ ++ x :: l₂).Nodup)
    (h : Path f a (l₁ ++ x :: l₂) b) :
    Path (Function.update f (l₁.getLast?.getD a) (l₂.head?.getD b)) a (l₁ ++ l₂) b := by
  obtain ⟨h₁, h₂⟩ := path_append.mp h
  have hnd₁ : (a :: l₁).Nodup := List.Nodup.of_append_left hnd
  cases l₂ with
  | nil => simpa using Path.redirect hnd₁ h₁
  | cons y l₂ =>
    refine path_append.mpr ⟨Path.redirect hnd₁ h₁, Path.congr ?_ h₂.2⟩
    intro z hz
    have hzu : z ≠ l₁.getLast?.getD a := by
      intro he
      exact List.disjoint_of_nodup_append hnd (he ▸ getLast?_getD_mem a l₁)
        (List.mem_cons_of_mem _ hz)
    exact Function.update_of_ne hzu _ _

/-! ## Changing rings -/

namespace Links

/-- A node linked to itself. -/
def selfLink (x : α) (h : Links α) : Links α where
  next := Function.update h.next x x
  prev := Function.update h.prev x x

/-- `x` is linked between the predecessor of `y` and `y`. -/
def insertBefore (x y : α) (h : Links α) : Links α where
  next := Function.update (Function.update h.next x y) (h.prev y) x
  prev := Function.update (Function.update h.prev x (h.prev y)) y x

/-- The neighbours of `x` are linked to each other. The cells of `x` itself are left as they are. -/
def unlink (x : α) (h : Links α) : Links α where
  next := Function.update h.next (h.prev x) (h.next x)
  prev := Function.update h.prev (h.next x) (h.prev x)

end Links

namespace Ring

variable {h : Links α} {r x : α} {l₁ l₂ : List α}

theorem selfLink (x : α) (h : Links α) : Ring (h.selfLink x) x [] where
  nodup := by simp
  forward := by simp [Links.selfLink]
  backward := by simp [Links.selfLink]

/-- **Insertion.** A fresh node goes in front of `l₂`, at the end of the ring when `l₂` is empty. -/
theorem insertBefore (hx : x ∉ r :: l₁ ++ l₂) (hr : Ring h r (l₁ ++ l₂)) :
    Ring (h.insertBefore x (l₂.head?.getD r)) r (l₁ ++ x :: l₂) where
  nodup := by
    have hnd := hr.nodup
    rw [← List.cons_append] at hnd ⊢
    rw [List.nodup_middle]
    exact List.nodup_cons.mpr ⟨hx, hnd⟩
  forward := by
    rw [Links.insertBefore, hr.prev_split]
    exact Path.splice hr.nodup hx hr.forward
  backward := by
    have hb : Path h.prev r (l₂.reverse ++ l₁.reverse) r := by simpa using hr.backward
    have hnd : (r :: l₂.reverse ++ l₁.reverse).Nodup := by
      simpa [← List.reverse_append] using hr.nodup
    have hx' : x ∉ r :: l₂.reverse ++ l₁.reverse := by simpa [or_comm] using hx
    have hs := Path.splice hnd hx' hb
    rw [Links.insertBefore, hr.prev_split]
    simpa using hs

/-- **Removal.** -/
theorem unlink (hr : Ring h r (l₁ ++ x :: l₂)) : Ring (h.unlink x) r (l₁ ++ l₂) where
  nodup := by
    have hnd := hr.nodup
    rw [← List.cons_append, List.nodup_middle] at hnd
    exact (List.nodup_cons.mp hnd).2
  forward := by
    rw [Links.unlink, hr.prev_mid, hr.next_mid]
    exact Path.bypass hr.nodup hr.forward
  backward := by
    have hb : Path h.prev r (l₂.reverse ++ x :: l₁.reverse) r := by simpa using hr.backward
    have hnd : (r :: l₂.reverse ++ x :: l₁.reverse).Nodup := by
      have hnd := hr.nodup
      rw [← List.nodup_reverse, List.reverse_cons, List.reverse_append, List.reverse_cons] at hnd
      rw [List.nodup_append_comm] at hnd
      simpa using hnd
    have hs := Path.bypass hnd hb
    rw [Links.unlink, hr.prev_mid, hr.next_mid]
    simpa using hs

end Ring

end Ittrium.Infra
