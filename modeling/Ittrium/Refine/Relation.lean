import Ittrium.Refine.Rdyq

/-!
# The kernel against the lists

`RefinesOff X s a` relates a kernel state to a list state: every line is the ring of its head, the
ready queue marks the lines, `schedtsk` is the task to run and the rest is equal. The nodes in `X`
are meanwhile on no ring. `Refines` is the case without such nodes, which every service call
starts from and comes back to.

A change of a task's state takes its nodes off their rings, changes the `TCB` and puts them on
others; the lemmas here are the first and the last of these steps.
-/

namespace Ittrium.Refine

open Infra Spec

variable {cfg : Config}

/-! ## Lines as rings -/

/-- The address of a task, or null. -/
def ptr : Option (TskIx cfg) → Node cfg
  | some t => .qnode t
  | none => .null

@[simp] theorem ptr_some (t : TskIx cfg) : ptr (some t) = .qnode t := rfl
@[simp] theorem ptr_eq_qnode {o : Option (TskIx cfg)} {t : TskIx cfg} :
    ptr o = .qnode t ↔ o = some t := by
  cases o <;> simp [ptr]

@[simp] theorem ptr_eq_null {o : Option (TskIx cfg)} : ptr o = .null ↔ o = none := by
  cases o <;> simp [ptr]

/-- The head of a line. -/
def lineHead : Line cfg → Node cfg
  | .ready p => .priq p
  | .waitq o => .waitq o
  | .timer => .timerQueue
  | .free => .freeTcb

/-- The node by which a task stands in a line. -/
def lineNode : Line cfg → TskIx cfg → Node cfg
  | .timer, t => .wtmeb t
  | _, t => .qnode t

/-- The members of the ring a node is the head of. -/
def elems (a : Model cfg) : Node cfg → List (Node cfg)
  | .priq p => (a.queue (.ready p)).map .qnode
  | .waitq o => (a.queue (.waitq o)).map .qnode
  | .timerQueue => (a.queue .timer).map .wtmeb
  | .freeTcb => (a.queue .free).map .qnode
  | .freeSemcb => a.freeSem.map fun i => .waitq (.sem i)
  | _ => []

/--
The heads of rings. A waiting task without an object has its `qnode` linked to itself, one without
a timeout its `wtmeb`; these are rings without members.
-/
def heads (a : Model cfg) : Node cfg → Prop
  | .priq p => LinePri cfg p
  | .waitq (.sem i) => i ∉ a.freeSem
  | .waitq _ => True
  | .timerQueue => True
  | .freeTcb => True
  | .freeSemcb => True
  | .qnode t => (a.core.tcb t).state.waiting ∧ (a.core.tcb t).waitObj = none
  | .wtmeb t => (a.core.tcb t).state.waiting ∧ t ∉ a.queue .timer
  | .null => False

theorem elems_lineHead (a : Model cfg) (l : Line cfg) :
    elems a (lineHead l) = (a.queue l).map (lineNode l) := by
  cases l <;> rfl

theorem elems_setQueue (a : Model cfg) (l : Line cfg) (ts : List (TskIx cfg)) :
    elems { a with queue := Function.update a.queue l ts } =
      Function.update (elems a) (lineHead l) (ts.map (lineNode l)) := by
  funext r
  by_cases hr : r = lineHead l
  · subst hr
    rw [elems_lineHead, Function.update_self]
    simp only [Function.update_self]
  · rw [Function.update_of_ne hr]
    have hq : ∀ l', r = lineHead l' → Function.update a.queue l ts l' = a.queue l' := by
      rintro l' rfl
      exact Function.update_of_ne (fun he => hr (by rw [he])) _ _
    cases r with
    | priq p => simp only [elems]; rw [hq (.ready p) rfl]
    | waitq o => simp only [elems]; rw [hq (.waitq o) rfl]
    | timerQueue => simp only [elems]; rw [hq .timer rfl]
    | freeTcb => simp only [elems]; rw [hq .free rfl]
    | _ => rfl

/-! ## The relation -/

/-- `s` is the state `a` with lines as rings, and the nodes in `X` on none of them. -/
structure RefinesOff (X : Node cfg → Prop) (s : Kernel cfg) (a : Model cfg) : Prop where
  core : s.core = a.core
  runtsk : s.runtsk = ptr a.runtsk
  schedtsk : s.schedtsk = ptr a.top
  onLines : OnLines fun p => a.queue (.ready p)
  rdyq : RdyOk cfg s.rdyq fun p => a.queue (.ready p)
  rings : RingFamily s.links (fun r => heads a r ∧ ¬ X r) (elems a)
  off : ∀ x, X x → ∀ r, x ∉ elems a r

/-- **`s` is the state `a` with lines as rings.** -/
abbrev Refines (s : Kernel cfg) (a : Model cfg) : Prop := RefinesOff (fun _ => False) s a

/-- Neither node of `t` is on a ring. -/
abbrev Loose (t : TskIx cfg) (s : Kernel cfg) (a : Model cfg) : Prop :=
  RefinesOff (fun x => x = .qnode t ∨ x = .wtmeb t) s a

/-- The `qnode` of `t` is on no ring. -/
abbrev LooseQ (t : TskIx cfg) (s : Kernel cfg) (a : Model cfg) : Prop :=
  RefinesOff (fun x => x = .qnode t) s a

section

variable {X Y : Node cfg → Prop} {s : Kernel cfg} {a : Model cfg} {t : TskIx cfg}

theorem RefinesOff.offRings (h : RefinesOff X s a) {x : Node cfg} (hx : X x) :
    OffRings (fun r => heads a r ∧ ¬ X r) (elems a) x := by
  intro r hr hm
  rcases List.mem_cons.mp hm with rfl | hm
  · exact hr.2 hx
  · exact h.off x hx r hm

/-- The ring of a line. -/
theorem RefinesOff.ring (h : RefinesOff X s a) {l : Line cfg}
    (hl : heads a (lineHead l) ∧ ¬ X (lineHead l)) :
    Ring s.links (lineHead l) ((a.queue l).map (lineNode l)) := by
  rw [← elems_lineHead]
  exact h.rings.ring _ hl

/-- `rdyq_top` is the task to run. -/
theorem RefinesOff.rdyqTop (h : RefinesOff X s a) (hX : ∀ p, ¬ X (.priq p)) :
    rdyqTop s = ptr a.top := by
  unfold Ittrium.rdyqTop Model.top topOf
  rw [h.rdyq.top]
  split
  · rfl
  · next hne =>
    rcases topPri_cases fun p => a.queue (.ready p) with ⟨-, ht⟩ | ⟨hl, hq, -⟩
    · exact absurd ht hne
    · have hr := h.ring (l := .ready (topPri cfg fun p => a.queue (.ready p))) ⟨hl, hX _⟩
      have hn := hr.next_head
      dsimp only
      cases hc : a.queue (.ready (topPri cfg fun p => a.queue (.ready p))) with
      | nil => exact absurd hc hq
      | cons u l =>
        rw [hc] at hn
        exact hn

/-! ## Changes of the data -/

/-- Changing data keeps the relation as long as it moves no task whose nodes are on rings. -/
theorem RefinesOff.setCore {f : Core cfg → Core cfg} (h : RefinesOff X s a)
    (hq : ∀ u, ¬ X (.qnode u) → (((f a.core).tcb u).state.waiting ∧
      ((f a.core).tcb u).waitObj = none → (a.core.tcb u).state.waiting ∧
        (a.core.tcb u).waitObj = none))
    (hw : ∀ u, ¬ X (.wtmeb u) → (((f a.core).tcb u).state.waiting →
      (a.core.tcb u).state.waiting)) :
    RefinesOff X (s.setCore f) (a.setCore f) where
  core := by simp [Kernel.setCore, Model.setCore, h.core]
  runtsk := h.runtsk
  schedtsk := h.schedtsk
  onLines := h.onLines
  rdyq := h.rdyq
  rings := h.rings.mono fun r hr => by
    refine ⟨⟨?_, hr.2⟩, rfl⟩
    cases r with
    | qnode u => exact hq u hr.2 hr.1
    | wtmeb u => exact ⟨hw u hr.2 hr.1.1, hr.1.2⟩
    | waitq o => cases o <;> exact hr.1
    | _ => exact hr.1
  off := h.off

/-- Changing data that says nothing about waiting. -/
theorem RefinesOff.setCore_same {f : Core cfg → Core cfg} (h : RefinesOff X s a)
    (hf : ∀ u, ((f a.core).tcb u).state = (a.core.tcb u).state ∧
      ((f a.core).tcb u).waitObj = (a.core.tcb u).waitObj) :
    RefinesOff X (s.setCore f) (a.setCore f) :=
  h.setCore (fun u _ => by rw [(hf u).1, (hf u).2]; exact id)
    (fun u _ => by rw [(hf u).1]; exact id)

theorem RefinesOff.setTcb_same {f : TCB cfg → TCB cfg} (h : RefinesOff X s a)
    (hs : (f (a.core.tcb t)).state = (a.core.tcb t).state)
    (hw : (f (a.core.tcb t)).waitObj = (a.core.tcb t).waitObj) :
    RefinesOff X (s.setTcb t f) (a.setTcb t f) := by
  refine h.setCore_same fun u => ?_
  by_cases hu : u = t
  · subst hu; simp [Core.setTcb, hs, hw]
  · simp [Core.setTcb, Function.update_of_ne hu]

/-- The data of a task that is on no ring may change at will. -/
theorem RefinesOff.setTcb_off {f : TCB cfg → TCB cfg} (h : RefinesOff X s a)
    (hq : X (.qnode t)) (hw : X (.wtmeb t)) : RefinesOff X (s.setTcb t f) (a.setTcb t f) := by
  have hne : ∀ u, u ≠ t → (Core.setTcb t f a.core).tcb u = a.core.tcb u :=
    fun u hu => Function.update_of_ne hu _ _
  refine h.setCore (fun u hX => ?_) fun u hX => ?_
  · rw [hne u fun he => hX (he ▸ hq)]; exact id
  · rw [hne u fun he => hX (he ▸ hw)]; exact id

/-- Nodes of tasks that do not wait may be off the rings or not. -/
theorem RefinesOff.mono (h : RefinesOff X s a) (hX : ∀ x, Y x → ∀ r, x ∉ elems a r)
    (hh : ∀ r, heads a r → ¬ Y r → ¬ X r) : RefinesOff Y s a where
  core := h.core
  runtsk := h.runtsk
  schedtsk := h.schedtsk
  onLines := h.onLines
  rdyq := h.rdyq
  rings := h.rings.mono fun r hr => ⟨⟨hr.1, hh r hr.1 hr.2⟩, rfl⟩
  off := hX

end

end Ittrium.Refine
