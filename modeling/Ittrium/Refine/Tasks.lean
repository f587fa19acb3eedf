import Ittrium.Refine.Waits

/-!
# Creation, activation, priorities and suspension on rings

What the service calls of `tsk_manage.c` and `tsk_dep_syn.c` do to a task, less their checks.
-/

namespace Ittrium.Refine

open Infra Spec

variable {cfg : Config} {s : Kernel cfg} {a : Model cfg} {t u : TskIx cfg}

/-! ## Creation and deletion -/

/-- Data that only the loose task has changed. -/
theorem Loose.setCore {f : Core cfg → Core cfg} (h : Loose t s a)
    (hf : ∀ u, u ≠ t → (f a.core).tcb u = a.core.tcb u) :
    Loose t (s.setCore f) (a.setCore f) := by
  refine RefinesOff.setCore h (fun u hX => ?_) fun u hX => ?_
  · rw [hf u fun he => hX (.inl (by rw [he]))]; exact id
  · rw [hf u fun he => hX (.inr (by rw [he]))]; exact id

theorem Refines.create {pk : TCtsk} (h : Refines s a) (hi : Settled a)
    (hs : (a.core.tcb t).state = .noexs) {f : TCB cfg → TCB cfg}
    (hf : a.create t pk = ((a.deq .free t).setTcb t f).setCore (taskMakeDormant t)) :
    Refines (((s.setLinks (kqueueRemove (.qnode t))).setTcb t f).setCore (taskMakeDormant t))
      (a.create t pk) := by
  have h₁ := h.deqFree ((hi.task t).free.mpr hs) (hi.apart_deqFree hs).nowhere
  rw [hf]
  refine ((h₁.setTcb f).setCore fun u hu => taskMakeDormant_tcb_of_ne hu _).rest ?_
  rw [show (Model.setCore _ _).core.tcb t = _ from taskMakeDormant_tcb_self t _]
  simp [Stat.waiting_iff]

/-- A task on no ring is put on the list of free ones. -/
theorem Loose.enqFree (h : Loose t s a) (hs : (a.core.tcb t).state = .noexs) :
    Refines (s.setLinks (kqueueInsert (.qnode t) .freeTcb)) (a.enq .free t) := by
  have hw : ¬ (a.core.tcb t).state.waiting := by simp [hs, Stat.waiting_iff]
  have h₁ := RefinesOff.enq (l := .free) (Y := fun x => x = .wtmeb t) h (by simp)
    ⟨trivial, by simp [lineHead]⟩ (.inl rfl) (fun x hx => hx.symm) (fun hh => hw hh.1) ?_
  · refine h₁.mono (fun _ hf => hf.elim) fun r hr _ hx => ?_
    subst hx
    exact hw hr.1
  · rintro x rfl
    exact notMem_elems_update (h.off _ (.inr rfl)) (by simp [lineNode])

/-- The two conditional removals of `del_tsk`. -/
theorem Refines.detach {s₁ s₂ : Kernel cfg} (h : Refines s a) (hi : Settled a)
    (hs : (a.core.tcb t).state ≠ .noexs)
    (h₁ : s₁ = if (s.core.tcb t).state.waiting then Ittrium.waitCancel t s else s)
    (h₂ : s₂ = if (s₁.core.tcb t).state = .rdy ∨ (s₁.core.tcb t).state = .run then
      Ittrium.taskMakeUnready t s₁ else s₁) :
    Loose t s₂
      (if (a.core.tcb t).state.waiting then a.cancel t
        else if (a.core.tcb t).state = .rdy then a.makeUnready t else a) := by
  have hnr := (hi.task t).notRun
  rw [h.core] at h₁
  by_cases hw : (a.core.tcb t).state.waiting
  · have hc := h.waitCancel (Settled.waits hi hw) (hi.nodup .timer)
    have hst : ¬((a.core.tcb t).state = .rdy ∨ (a.core.tcb t).state = .run) := by
      rcases Stat.waiting_iff.mp hw with hw | hw <;> simp [hw]
    rw [if_pos hw] at h₁ ⊢
    rw [h₁, hc.core, Model.cancel_core, if_neg hst] at h₂
    exact h₂ ▸ hc
  · rw [if_neg hw] at h₁ ⊢
    rw [h₁, h.core] at h₂
    by_cases hr : (a.core.tcb t).state = .rdy
    · rw [if_pos (.inl hr)] at h₂
      rw [if_pos hr, h₂]
      exact h.taskMakeUnready (((hi.task t).ready _).mpr ⟨hr, rfl⟩)
        (hi.apart_makeUnready hr).nowhere
    · rw [if_neg (by simp [hr, hnr])] at h₂
      rw [if_neg hr, h₂]
      have hap := hi.apart_delete hs
      rw [if_neg hw, if_neg hr] at hap
      exact h.loose hap.nowhere

/-! ## Activation and exit -/

theorem Loose.activate (h : Loose t s a) (hp : LinePri cfg (a.core.tcb t).tskpri) :
    Refines (Ittrium.taskMakeReady t (s.setCore (makeTaskContext t))) (a.activate t) := by
  obtain ⟨ctx, hctx⟩ := makeTaskContext_tcb_self t a.core
  refine (h.setCore fun u hu => makeTaskContext_tcb_of_ne hu _).taskMakeReady ?_
  rw [show (a.setCore (makeTaskContext t)).core.tcb t = _ from hctx]
  exact hp

theorem Refines.activate (h : Refines s a) (hi : Settled a)
    (hs : (a.core.tcb t).state = .dmt) :
    Refines (Ittrium.taskMakeReady t (s.setCore (makeTaskContext t))) (a.activate t) :=
  Loose.activate (h.loose (hi.apart_self (.inl hs)).nowhere)
    ((hi.task t).tskpri (by simp [hs]))

theorem Refines.exit {s₁ : Kernel cfg} (h : Refines s a) (hi : Settled a)
    (hs : (a.core.tcb t).state = .rdy)
    (h₁ : s₁ = (Ittrium.taskMakeUnready t s).setCore (taskMakeDormant t)) :
    Refines
      (if (s₁.core.tcb t).actcnt ≠ 0 then
        Ittrium.taskMakeReady t ((s₁.setTcb t fun tcb =>
          { tcb with actcnt := tcb.actcnt - 1 }).setCore (makeTaskContext t))
      else s₁)
      (a.exit t) := by
  have hl := (h.taskMakeUnready (((hi.task t).ready _).mpr ⟨hs, rfl⟩)
    (hi.apart_makeUnready hs).nowhere).setCore (f := taskMakeDormant t)
    fun u hu => taskMakeDormant_tcb_of_ne hu _
  rw [← h₁] at hl
  have htcb : ((a.makeUnready t).setCore (taskMakeDormant t)).core.tcb t = _ :=
    taskMakeDormant_tcb_self t _
  unfold Model.exit
  dsimp only
  rw [hl.core]
  split
  · refine (Loose.setTcb hl _).activate ?_
    rw [Model.setTcb_tcb_self, htcb]
    exact (hi.task t).itskpri (by simp [hs])
  · refine Loose.rest hl ?_
    rw [htcb]
    simp [Stat.waiting_iff]

/-! ## Priorities -/

/-- **`task_change_pri` of a ready task.** -/
theorem Refines.changePri {p : Int} (h : Refines s a) (hi : Settled a)
    (hs : (a.core.tcb t).state = .rdy) (hp : LinePri cfg p) :
    Refines (taskChangePri t p s) (a.changePri t p) := by
  have h₁ : Loose t { rdyqRemove t s with schedtsk := ptr (a.makeUnready t).top }
      (a.makeUnready t) :=
    RefinesOff.rdyqRemove h (((hi.task t).ready _).mpr ⟨hs, rfl⟩) (fun _ hf => hf.elim) (.inl rfl)
      (by simp) (off_of_nowhere (hi.apart_makeUnready hs).nowhere)
  have h₂ := h₁.setTcb fun tcb => { tcb with tskpri := p }
  have htop : rdyqTop ((rdyqRemove t s).setTcb t fun tcb => { tcb with tskpri := p }) =
      ptr (a.makeUnready t).top := h₁.rdyqTop (by simp)
  have h₃ := h₂.insertTop (p := p) (by rw [Model.setTcb_tcb_self]) hp (by
    rw [Model.setTcb_tcb_self]
    show ¬ (a.core.tcb t).state.waiting
    simp [hs, Stat.waiting_iff])
  unfold Ittrium.taskChangePri
  dsimp only
  rw [htop]
  exact h₃

/-! ## Rotation -/

/-- **`rdyq_rotate` and `reschedule`.** -/
theorem Refines.rotate {p : Int} (h : Refines s a) (hp : LinePri cfg p) :
    Refines (rdyqRotateAt p s) (a.rotate (.ready p)) := by
  have hr : heads a (.priq p) ∧ ¬ False := ⟨hp, id⟩
  have hresch : ∀ s : Kernel cfg, reschedule s = { s with schedtsk := rdyqTop s } := by
    intro s
    unfold reschedule
    dsimp only
    split
    · rfl
    · next he => rw [← not_not.mp he]
  unfold Ittrium.rdyqRotateAt rdyqRotate
  rw [hresch]
  cases hq : a.queue (.ready p) with
  | nil =>
    have hE : kqueueEmpty (.priq p) s.links = true := by
      rw [kqueueEmpty_iff h.rings hr]
      simp [elems, hq]
    have ha : a.rotate (.ready p) = a := by
      rw [Model.rotate, hq, List.rotate_nil, ← hq, Function.update_eq_self]
    have htop := h.rdyqTop (by simp)
    rw [hE, ha]
    simp only [Bool.not_true, Bool.false_eq_true, if_false, htop, ← h.schedtsk]
    exact h
  | cons t ts =>
    have hE : kqueueEmpty (.priq p) s.links = false := by
      rw [Bool.eq_false_iff, ne_eq, kqueueEmpty_iff h.rings hr]
      simp [elems, hq]
    have hEq : elems a (.priq p) = .qnode t :: ts.map .qnode := by simp [elems, hq]
    have hring := h.rings.ring _ hr
    rw [hEq] at hring
    have hrings := kqueueRotate_family h.rings hr hEq
    have hrot : a.rotate (.ready p) =
        { a with queue := Function.update a.queue (.ready p) (ts ++ [t]) } := by
      simp [Model.rotate, hq]
    rw [hE]
    simp only [Bool.not_false, if_true, kqueueRemoveNext_eq hring]
    have hself : (a.rotate (.ready p)).queue (.ready p) = ts ++ [t] := by
      rw [hrot]
      exact Function.update_self ..
    have hne : ∀ p', p' ≠ p → (a.rotate (.ready p)).queue (.ready p') = a.queue (.ready p') :=
      fun p' hp' => Function.update_of_ne (by simpa using hp') ..
    -- the ring is rotated before `reschedule` looks at it
    have hs : RefinesOff (fun _ => False)
        { s with
          links := kqueueInsert (.qnode t) (.priq p) (s.links.unlink (.qnode t))
          schedtsk := ptr (a.rotate (.ready p)).top } (a.rotate (.ready p)) :=
      { core := h.core, runtsk := h.runtsk, schedtsk := rfl
        onLines := h.onLines.update hp hne
        rdyq := h.rdyq.congr fun p' => by
          by_cases he : p' = p
          · subst he
            show _ ↔ a.queue (.ready p') = []
            rw [hself, hq]
            simp
          · rw [hne p' he]
        rings := hrings.mono fun r hr => ⟨⟨heads_of_update (fun u hu => by
            rw [hq] at hu
            simpa [or_comm] using hu) (hrot ▸ hr.1), id⟩, by
          rw [hrot, elems_setQueue]
          simp [lineHead, lineNode]
          rfl⟩
        off := fun _ hf => hf.elim }
    have htop : rdyqTop { s with
        links := kqueueInsert (.qnode t) (.priq p) (s.links.unlink (.qnode t)) } =
        ptr (a.rotate (.ready p)).top := hs.rdyqTop (by simp)
    rw [htop]
    exact hs

/-! ## Suspension -/

/-- **The effect of `sus_tsk` on a task that is not suspended.** -/
theorem Refines.suspend {s₁ : Kernel cfg} (h : Refines s a) (hi : Settled a)
    (h₀ : (a.core.tcb t).state ≠ .noexs) (h₁ : (a.core.tcb t).state ≠ .dmt)
    (h₂ : (a.core.tcb t).state ≠ .sus)
    (hs₁ : s₁ = s.setTcb t fun tcb => { tcb with suscnt := tcb.suscnt + 1 }) :
    Refines
      (if (s₁.core.tcb t).state = .run ∨ (s₁.core.tcb t).state = .rdy then
        Ittrium.taskMakeUnready t (s₁.setTcb t fun tcb => { tcb with state := .sus })
      else s₁.setTcb t fun tcb => { tcb with state := .was })
      (a.suspend t) := by
  have hnr := (hi.task t).notRun
  have hr₁ : Refines s₁ (a.setTcb t fun tcb => { tcb with suscnt := tcb.suscnt + 1 }) :=
    hs₁ ▸ h.setTcb_same rfl rfl
  unfold Model.suspend
  dsimp only
  rw [hr₁.core]
  simp only [Model.setTcb_tcb_self]
  -- a ready task leaves its line; a waiting one goes on waiting, suspended
  by_cases hr : (a.core.tcb t).state = .rdy
  · rw [if_pos (.inr hr), if_pos hr, ← Model.makeUnready_setTcb rfl]
    have hr₂ : Refines (s₁.setTcb t fun tcb => { tcb with state := .sus })
        ((a.setTcb t fun tcb => { tcb with suscnt := tcb.suscnt + 1 }).setTcb t fun tcb =>
          { tcb with state := .sus }) := by
      refine hr₁.setCore (fun u _ => ?_) fun u _ => ?_
      all_goals
        by_cases hu : u = t
        · subst hu; simp [Core.setTcb, Stat.waiting_iff]
        · simp [Core.setTcb_of_ne hu]
    have hm : t ∈ a.queue (.ready (a.core.tcb t).tskpri) := ((hi.task t).ready _).mpr ⟨hr, rfl⟩
    have hl := hr₂.taskMakeUnready (t := t) ?_ ?_
    · refine Loose.rest hl ?_
      rw [Model.makeUnready_setTcb rfl, Model.setTcb_tcb_self]
      simp [Stat.waiting_iff]
    · rw [Model.setTcb_tcb_self, Model.setTcb_tcb_self]
      exact hm
    · rw [Model.makeUnready_setTcb rfl, Model.makeUnready_setTcb rfl]
      exact (hi.apart_makeUnready hr).nowhere
  · have hw : (a.core.tcb t).state.waiting := by
      revert hr h₀ h₁ h₂ hnr
      cases (a.core.tcb t).state <;> decide
    rw [if_neg (by simp [hr, hnr]), if_neg hr, if_pos hw]
    refine hr₁.setCore (fun u _ => ?_) fun u _ => ?_
    all_goals
      by_cases hu : u = t
      · subst hu; simp [Core.setTcb, Stat.waiting_iff, Stat.waiting_iff.mp hw]
      · simp [Core.setTcb_of_ne hu]

/-- **The effect of `rsm_tsk`.** -/
theorem Refines.resume {s₁ : Kernel cfg} (h : Refines s a) (hi : Settled a)
    (hs : (a.core.tcb t).state = .sus ∨ (a.core.tcb t).state = .was)
    (hs₁ : s₁ = s.setTcb t fun tcb => { tcb with suscnt := tcb.suscnt - 1 }) :
    Refines
      (if (s₁.core.tcb t).suscnt = 0 then
        if (s₁.core.tcb t).state = .was then s₁.setTcb t fun tcb => { tcb with state := .wai }
        else Ittrium.taskMakeReady t s₁
      else s₁)
      (a.resume t) := by
  have hr₁ : Refines s₁ (a.setTcb t fun tcb => { tcb with suscnt := tcb.suscnt - 1 }) :=
    hs₁ ▸ h.setTcb_same rfl rfl
  unfold Model.resume
  dsimp only
  rw [hr₁.core]
  simp only [Model.setTcb_tcb_self]
  split
  · split
    · next hw =>
      refine hr₁.setCore (fun u _ => ?_) fun u _ => ?_
      all_goals
        by_cases hu : u = t
        · subst hu; simp [Core.setTcb, Stat.waiting_iff, hw]
        · simp [Core.setTcb_of_ne hu]
    · next hw =>
      have hsu := hs.resolve_right hw
      have hl : Loose t s₁ (a.setTcb t fun tcb => { tcb with suscnt := tcb.suscnt - 1 }) :=
        hr₁.loose (hi.apart_self (.inr hsu)).nowhere
      refine hl.taskMakeReady ?_
      rw [Model.setTcb_tcb_self]
      exact (hi.task t).tskpri (by simp [hsu])
  · exact hr₁

end Ittrium.Refine
