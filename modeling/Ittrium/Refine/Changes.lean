import Ittrium.Refine.Lines

/-!
# The state changes of a task on rings

Each function of `task.c` and `wait.c` against the change of Ittrium/Spec it carries out: first
those after which a task is on no ring (`Loose`), then those that put it on one again.
-/

namespace Ittrium.Refine

open Infra Spec

variable {cfg : Config} {s : Kernel cfg} {a : Model cfg} {t u : TskIx cfg} {o : ObjId cfg}
  {tmout : TMO} {e : ER}

/-! ## Off the rings -/

/-- A task that stands in no line. -/
theorem Refines.loose (h : Refines s a) (hno : ∀ l, t ∉ a.queue l) : Loose t s a :=
  h.mono (off_of_nowhere hno) fun _ _ _ hf => hf

/-- A ready task is taken off its ring. -/
theorem Refines.taskMakeUnready (h : Refines s a)
    (hm : t ∈ a.queue (.ready (a.core.tcb t).tskpri))
    (hno : ∀ l, t ∉ (a.makeUnready t).queue l) :
    Loose t (taskMakeUnready t s) (a.makeUnready t) := by
  have hr := RefinesOff.rdyqRemove (Y := fun x => x = .qnode t ∨ x = .wtmeb t) h hm
    (fun _ hf => hf.elim) (.inl rfl) (by simp) (off_of_nowhere hno)
  have hnd : a.top ≠ some t → (a.makeUnready t).top = a.top := fun ht =>
    topOf_erase (p := (a.core.tcb t).tskpri) (Function.update_self ..)
      (fun p' hp' => Model.deq_of_ne (by simpa using hp')) ht
  have htop : Ittrium.rdyqTop (rdyqRemove t s) = ptr (a.makeUnready t).top :=
    hr.rdyqTop (by simp)
  unfold Ittrium.taskMakeUnready
  dsimp only
  rw [rdyqRemove_schedtsk, h.schedtsk, htop]
  split
  · exact hr
  · next hne =>
    have hs : rdyqRemove t s =
        { rdyqRemove t s with schedtsk := ptr (a.makeUnready t).top } := by
      rw [hnd (by simpa using hne), ← h.schedtsk, ← rdyqRemove_schedtsk t s]
    rw [hs]
    exact hr

/-- What is needed to end the wait of `t`. -/
structure Waits (t : TskIx cfg) (a : Model cfg) : Prop where
  waiting : (a.core.tcb t).state.waiting
  joined : ∀ o, (a.core.tcb t).waitObj = some o → t ∈ a.queue (.waitq o) ∧ heads a (.waitq o)
  nowhere : ∀ l, t ∉ (a.cancel t).queue l

theorem Settled.waits (h : Settled a) (hw : (a.core.tcb t).state.waiting) : Waits t a where
  waiting := hw
  joined := fun o ho => by
    have hm := ((h.task t).waitq o).mpr ⟨hw, ho⟩
    exact ⟨hm, heads_waitq h.toLinesInv (h.exists_of_waitq o t hm)⟩
  nowhere := (h.apart_cancel hw).nowhere

theorem Waits.setTcb {f : TCB cfg → TCB cfg} (h : Waits t a)
    (hs : (f (a.core.tcb t)).state = (a.core.tcb t).state)
    (ho : (f (a.core.tcb t)).waitObj = (a.core.tcb t).waitObj) : Waits t (a.setTcb t f) where
  waiting := by rw [Model.setTcb_tcb_self, hs]; exact h.waiting
  joined := fun o ho' => by
    rw [Model.setTcb_tcb_self, ho] at ho'
    obtain ⟨hm, hh⟩ := h.joined o ho'
    exact ⟨hm, by cases o <;> exact hh⟩
  nowhere := by rw [Model.cancel_setTcb ho]; exact h.nowhere

/-- Leaving a line one does not stand in changes nothing. -/
theorem deq_of_notMem {l : Line cfg} (h : t ∉ a.queue l) : a.deq l t = a := by
  unfold Model.deq
  rw [List.erase_of_not_mem h, Function.update_eq_self]

/-- The timer of a waiting task is taken off the timer queue, or was on none. -/
theorem Refines.timerDelete (h : Refines s a) (hw : (a.core.tcb t).state.waiting)
    (hnd : (a.queue .timer).Nodup) :
    RefinesOff (fun x => x = .wtmeb t) (timerDelete t s) (a.deq .timer t) := by
  have hno : t ∉ (a.deq .timer t).queue .timer := by
    intro hm
    exact ((Model.mem_deq hnd).mp hm).2 ⟨rfl, rfl⟩
  have hoff : ∀ x, x = .wtmeb t → ∀ r, x ∉ elems (a.deq .timer t) r := by
    rintro x rfl r hm
    exact hno (wtmeb_mem_elems hm)
  by_cases hm : t ∈ a.queue .timer
  · exact h.erase (l := .timer) (by simp) ⟨trivial, id⟩ hm (fun _ hf => hf.elim) rfl hoff
  · rw [deq_of_notMem hm] at hoff ⊢
    rw [Ittrium.timerDelete, h.kqueueRemove_self (x := .wtmeb t) ⟨⟨hw, hm⟩, id⟩ rfl]
    exact h.mono hoff fun _ _ _ hf => hf

/-- **The wait of a task is cancelled.** -/
theorem Refines.waitCancel (h : Refines s a) (hw : Waits t a) (hnd : (a.queue .timer).Nodup) :
    Loose t (waitCancel t s) (a.cancel t) := by
  have h₁ := h.timerDelete hw.waiting hnd
  have hno := hw.nowhere
  have hoff := off_of_nowhere hno
  unfold Ittrium.waitCancel
  unfold Model.cancel at hno hoff ⊢
  rcases Model.deqObj_cases t (a.deq .timer t) with ⟨ho, he⟩ | ⟨o, ho, he⟩ <;> rw [he] at hoff ⊢
  · have hself : heads (a.deq .timer t) (.qnode t) := ⟨hw.waiting, ho⟩
    rw [h₁.kqueueRemove_self (x := .qnode t) ⟨hself, by simp⟩ rfl]
    exact h₁.mono hoff fun r _ hr he => hr (.inr he)
  · obtain ⟨hm, hh⟩ := hw.joined o ho
    refine h₁.erase (l := .waitq o) (by simp) ⟨?_, by simp [lineHead]⟩ ?_
      (fun x hx => .inr hx) (.inl rfl) hoff
    · cases o <;> exact hh
    · rwa [Model.deq_of_ne (by simp)]

/-- A free task is taken off the list of free ones. -/
theorem Refines.deqFree (h : Refines s a) (hm : t ∈ a.queue .free)
    (hno : ∀ l, t ∉ (a.deq .free t).queue l) :
    Loose t (s.setLinks (kqueueRemove (.qnode t))) (a.deq .free t) :=
  h.erase (l := .free) (by simp) ⟨trivial, id⟩ hm (fun _ hf => hf.elim) (.inl rfl)
    (off_of_nowhere hno)

/-! ## Back on a ring -/

/-- A task that does not wait needs no ring. -/
theorem Loose.rest (h : Loose t s a) (hw : ¬ (a.core.tcb t).state.waiting) : Refines s a := by
  refine h.mono (fun _ hf => hf.elim) fun r hr _ hx => ?_
  rcases hx with rfl | rfl
  · exact hw hr.1
  · exact hw hr.1

theorem Loose.setTcb (h : Loose t s a) (f : TCB cfg → TCB cfg) :
    Loose t (s.setTcb t f) (a.setTcb t f) :=
  h.setTcb_off (.inl rfl) (.inr rfl)

/-- A task on no ring is put on its ready line. -/
theorem Loose.insertTop {p : Int} (h : Loose t s a) (hpri : (a.core.tcb t).tskpri = p)
    (hp : LinePri cfg p) (hs : ¬ (a.core.tcb t).state.waiting) :
    Refines (insertTop t s) (a.enq (.ready p) t) := by
  have hw := RefinesOff.insertTop (Y := fun x => x = .wtmeb t) h hpri hp (by simp) (.inl rfl)
    (fun x hx => hx.symm) (fun hh => hs hh.1) ?_
  · refine hw.mono (fun _ hf => hf.elim) fun r hr _ hx => ?_
    subst hx
    exact hs hr.1
  · rintro x rfl r hm
    have hm' := wtmeb_mem_elems hm
    rw [Model.enq_of_ne (by simp)] at hm'
    exact h.off (.wtmeb t) (.inr rfl) .timerQueue (by simpa [elems] using hm')

/-- **`task_make_ready`.** -/
theorem Loose.taskMakeReady (h : Loose t s a) (hp : LinePri cfg (a.core.tcb t).tskpri) :
    Refines (taskMakeReady t s) (a.makeReady t) := by
  have hpri : ((a.setTcb t fun tcb => { tcb with state := .rdy }).core.tcb t).tskpri =
      (a.core.tcb t).tskpri := by rw [Model.setTcb_tcb_self]
  refine (h.setTcb _).insertTop hpri hp ?_
  rw [Model.setTcb_tcb_self]
  simp [Stat.waiting_iff]

/-- **`task_leave_wait`.** -/
theorem Loose.taskLeaveWait (h : Loose t s a) (hp : LinePri cfg (a.core.tcb t).tskpri) :
    Refines (taskLeaveWait t s) (a.leaveWait t) := by
  have h₁ := h.setTcb fun tcb => { tcb with tskwait := .none }
  unfold Ittrium.taskLeaveWait Model.leaveWait
  dsimp only
  rw [h₁.core]
  split
  · refine h₁.taskMakeReady ?_
    rw [Model.setTcb_tcb_self]
    exact hp
  · refine (h₁.setTcb _).rest ?_
    rw [Model.setTcb_tcb_self]
    simp [Stat.waiting_iff]

/-- The priority of a waiting task is that of a ready line. -/
theorem linePri_of_waiting (h : Settled a) (hw : (a.core.tcb t).state.waiting) :
    LinePri cfg (a.core.tcb t).tskpri := by
  refine (h.task t).tskpri fun hs => ?_
  simp [hs, Stat.waiting_iff] at hw

/-- **`wait_release`, with the result set before.** -/
theorem Refines.release (h : Refines s a) (hi : Settled a) (e : ER)
    (hw : (a.core.tcb t).state.waiting) :
    Refines (waitRelease t (s.setTcb t fun tcb => { tcb with ercd := e })) (a.release t e) := by
  have h₁ : Refines (s.setTcb t fun tcb => { tcb with ercd := e })
      (a.setTcb t fun tcb => { tcb with ercd := e }) := h.setTcb_same rfl rfl
  have hc := h₁.waitCancel ((Settled.waits hi hw).setTcb rfl rfl) (hi.nodup .timer)
  refine hc.taskLeaveWait ?_
  rw [Model.cancel_core, Model.setTcb_tcb_self]
  exact linePri_of_waiting hi hw

/-- **`wait_release`.** -/
theorem Refines.endWait (h : Refines s a) (hi : Settled a) (hw : (a.core.tcb t).state.waiting) :
    Refines (waitRelease t s) (a.endWait t) := by
  have hc := h.waitCancel (Settled.waits hi hw) (hi.nodup .timer)
  refine hc.taskLeaveWait ?_
  rw [Model.cancel_core]
  exact linePri_of_waiting hi hw

end Ittrium.Refine
