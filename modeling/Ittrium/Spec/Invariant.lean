import Ittrium.Spec.Lines

/-!
# State changes of a task keep the lines in order

* `Calm a a'` — `a'` is settled, and on the way from `a` waits have only ended
* `Steady a a'` — besides, ready tasks have stayed ready
* one lemma for each state change of `Ittrium/Spec/State.lean` and `Ittrium/Spec/Calls.lean`
-/

namespace Ittrium.Spec

open Infra

variable {cfg : Config} {a a' a'' : Model cfg} {l : Line cfg} {t u : TskIx cfg} {o : ObjId cfg}
  {tcb tcb' : TCB cfg} {on : Line cfg → Prop}

/-! ## One task -/

/-- A task stands in a line only for the reason its `TCB` gives. -/
theorem TaskInv.cases_of_on (h : TaskInv t tcb on) (hl : on l) :
    (tcb.state = .rdy ∧ l = .ready tcb.tskpri) ∨
    (tcb.state.waiting ∧ ∃ o, tcb.waitObj = some o ∧ l = .waitq o) ∨
    (tcb.state.waiting ∧ l = .timer) ∨ (tcb.state = .noexs ∧ l = .free) := by
  cases l with
  | ready p =>
    obtain ⟨h₁, h₂⟩ := (h.ready p).mp hl
    exact Or.inl ⟨h₁, by rw [h₂]⟩
  | waitq o =>
    obtain ⟨h₁, h₂⟩ := (h.waitq o).mp hl
    exact Or.inr (Or.inl ⟨h₁, o, h₂, rfl⟩)
  | timer => exact Or.inr (Or.inr (Or.inl ⟨(h.timer hl).1, rfl⟩))
  | free => exact Or.inr (Or.inr (Or.inr ⟨h.free.mp hl, rfl⟩))

/-- A dormant or suspended task stands in no line. -/
theorem TaskInv.nowhere (h : TaskInv t tcb on) (hs : tcb.state = .dmt ∨ tcb.state = .sus)
    (l : Line cfg) : ¬ on l := by
  intro hl
  rcases h.cases_of_on hl with ⟨h₁, -⟩ | ⟨h₁, -⟩ | ⟨h₁, -⟩ | ⟨h₁, -⟩ <;>
    rcases hs with hs | hs <;> simp [hs, Stat.waiting_iff] at h₁

theorem TaskInv.of_nowhere (h : TcbInv tcb) (hs : tcb.state = .dmt ∨ tcb.state = .sus)
    (hon : ∀ l, ¬ on l) : TaskInv t tcb on where
  toTcbInv := h
  ready := fun p => by rcases hs with hs | hs <;> simp [hon, hs]
  waitq := fun o => by rcases hs with hs | hs <;> simp [hon, hs, Stat.waiting_iff]
  timer := fun ht => absurd ht (hon _)
  free := by rcases hs with hs | hs <;> simp [hon, hs]

theorem TaskInv.of_ready (h : TcbInv tcb) (hs : tcb.state = .rdy)
    (hon : ∀ l, on l ↔ l = .ready tcb.tskpri) : TaskInv t tcb on where
  toTcbInv := h
  ready := fun p => by simp [hon, hs, eq_comm]
  waitq := fun o => by simp [hon, hs, Stat.waiting_iff]
  timer := by simp [hon]
  free := by simp [hon, hs]

theorem TaskInv.of_free (hs : tcb.state = .noexs) (hon : ∀ l, on l ↔ l = .free) :
    TaskInv t tcb on where
  notRun := by simp [hs]
  itskpri := fun h => absurd hs h
  tskpri := fun h => absurd hs h
  suscnt := fun h => absurd hs h
  tskwait := fun h => absurd hs h
  ercd := by simp [hs, Stat.waiting_iff]
  ready := fun p => by simp [hon, hs]
  waitq := fun o => by simp [hon, hs, Stat.waiting_iff]
  timer := by simp [hon]
  free := by simp [hon, hs]

/-- Lines and data of `t` that the invariant is about are the same. -/
structure SameStanding (tcb tcb' : TCB cfg) : Prop where
  state : tcb'.state = tcb.state
  itskpri : tcb'.itskpri = tcb.itskpri
  tskpri : tcb'.tskpri = tcb.tskpri
  suscnt : tcb'.suscnt = tcb.suscnt
  tskwait : tcb'.tskwait = tcb.tskwait
  waitObj : tcb'.waitObj = tcb.waitObj
  callback : tcb'.wtmeb.callback = tcb.wtmeb.callback
  arg : tcb'.wtmeb.arg = tcb.wtmeb.arg
  /-- The result and the request of a waiting task. -/
  wait : tcb.state.waiting → tcb'.ercd = tcb.ercd ∧ tcb'.waitinfo = tcb.waitinfo

theorem SameStanding.refl (tcb : TCB cfg) : SameStanding tcb tcb :=
  ⟨rfl, rfl, rfl, rfl, rfl, rfl, rfl, rfl, fun _ => ⟨rfl, rfl⟩⟩

theorem TcbInv.congr (h : TcbInv tcb) (hs : SameStanding tcb tcb') : TcbInv tcb' where
  notRun := by rw [hs.state]; exact h.notRun
  itskpri := by rw [hs.state, hs.itskpri]; exact h.itskpri
  tskpri := by rw [hs.state, hs.tskpri]; exact h.tskpri
  suscnt := by rw [hs.state, hs.suscnt]; exact h.suscnt
  tskwait := by rw [hs.state, hs.tskwait, hs.waitObj]; exact h.tskwait
  ercd := by
    intro hw ho
    rw [hs.state] at hw
    rw [(hs.wait hw).1]
    exact h.ercd hw (hs.waitObj ▸ ho)

theorem TaskInv.congr (h : TaskInv t tcb on) (hs : SameStanding tcb tcb') :
    TaskInv t tcb' on where
  toTcbInv := h.toTcbInv.congr hs
  ready := by rw [hs.state, hs.tskpri]; exact h.ready
  waitq := by rw [hs.state, hs.waitObj]; exact h.waitq
  timer := by rw [hs.state, hs.callback, hs.arg]; exact h.timer
  free := by rw [hs.state]; exact h.free

/-! ## Waits only end -/

/-- What a waiting task waits for is the same. -/
structure SameWait (tcb tcb' : TCB cfg) : Prop where
  tskpri : tcb'.tskpri = tcb.tskpri
  waitObj : tcb'.waitObj = tcb.waitObj
  waitinfo : tcb'.waitinfo = tcb.waitinfo
  ercd : tcb'.ercd = tcb.ercd
  tskwait : tcb'.tskwait = tcb.tskwait

/-- `a'` is settled, and on the way from `a` waits have only ended. -/
structure Calm (a a' : Model cfg) : Prop where
  settled : Settled a'
  timerNesting : a'.core.timerNesting = a.core.timerNesting
  sub : ∀ o, (a'.queue (.waitq o)).Sublist (a.queue (.waitq o))
  keep : ∀ t, (a'.core.tcb t).state.waiting → (a.core.tcb t).state.waiting ∧
    SameWait (a.core.tcb t) (a'.core.tcb t) ∧ (t ∈ a'.queue .timer ↔ t ∈ a.queue .timer)
  attr : ∀ o, a'.queue (.waitq o) ≠ [] → (a'.core.objcb o).objatr = (a.core.objcb o).objatr

/-- Besides, the running task is the same, and ready tasks have stayed ready. -/
structure Steady (a a' : Model cfg) : Prop extends Calm a a' where
  runtsk : a'.runtsk = a.runtsk
  ready : ∀ t, (a.core.tcb t).state = .rdy → (a'.core.tcb t).state = .rdy

theorem SameWait.refl (tcb : TCB cfg) : SameWait tcb tcb := ⟨rfl, rfl, rfl, rfl, rfl⟩

theorem SameWait.trans {tcb'' : TCB cfg} (h : SameWait tcb tcb') (h' : SameWait tcb' tcb'') :
    SameWait tcb tcb'' :=
  ⟨h'.tskpri.trans h.tskpri, h'.waitObj.trans h.waitObj, h'.waitinfo.trans h.waitinfo,
    h'.ercd.trans h.ercd, h'.tskwait.trans h.tskwait⟩

namespace Calm

theorem refl (h : Settled a) : Calm a a :=
  ⟨h, rfl, fun _ => .refl _, fun _ hw => ⟨hw, .refl _, Iff.rfl⟩, fun _ _ => rfl⟩

theorem trans (h : Calm a a') (h' : Calm a' a'') : Calm a a'' where
  settled := h'.settled
  timerNesting := h'.timerNesting.trans h.timerNesting
  sub := fun o => (h'.sub o).trans (h.sub o)
  keep := fun t hw => by
    obtain ⟨hw', hs', ht'⟩ := h'.keep t hw
    obtain ⟨hw, hs, ht⟩ := h.keep t hw'
    exact ⟨hw, hs.trans hs', ht'.trans ht⟩
  attr := fun o ho => by
    rw [h'.attr o ho]
    exact h.attr o fun hn => ho (List.sublist_nil.mp (hn ▸ h'.sub o))

/-- Only `t` is touched, and it does not wait afterwards. -/
theorem of_others (hs : Settled a') (ho : Others t a a')
    (hw : ¬ (a'.core.tcb t).state.waiting)
    (hsub : ∀ o, (a'.queue (.waitq o)).Sublist (a.queue (.waitq o))) : Calm a a' where
  settled := hs
  timerNesting := ho.objects.timerNesting
  sub := hsub
  keep := fun u hu => by
    have hne : u ≠ t := fun he => hw (he ▸ hu)
    rw [ho.tcb u hne] at hu ⊢
    exact ⟨hu, .refl _, ho.mem u hne _⟩
  attr := fun o _ => by rw [ho.objects.objcb]

theorem dispatch (h : Calm a a') : Calm a a'.dispatch where
  settled := ⟨⟨h.settled.nodup, h.settled.exists_of_waitq, h.settled.mem_freeSem,
    h.settled.freeSem_nodup⟩, h.settled.task⟩
  timerNesting := h.timerNesting
  sub := h.sub
  keep := h.keep
  attr := h.attr

end Calm

namespace Steady

theorem refl (h : Settled a) : Steady a a := ⟨.refl h, rfl, fun _ h => h⟩

theorem trans (h : Steady a a') (h' : Steady a' a'') : Steady a a'' :=
  ⟨h.toCalm.trans h'.toCalm, h'.runtsk.trans h.runtsk, fun t ht => h'.ready t (h.ready t ht)⟩

/-- Only `t` is touched, and it was not ready, or is. -/
theorem of_others (hc : Calm a a') (ho : Others t a a')
    (hr : (a.core.tcb t).state = .rdy → (a'.core.tcb t).state = .rdy) : Steady a a' where
  toCalm := hc
  runtsk := ho.runtsk
  ready := fun u hu => by
    by_cases he : u = t
    · exact he ▸ hr (he ▸ hu)
    · rw [ho.tcb u he]; exact hu

end Steady

/-- The task a dispatch gives the processor to is ready. -/
theorem Settled.ready_of_top (h : Settled a) (ht : a.top = some t) :
    (a.core.tcb t).state = .rdy := by
  unfold Model.top topOf at ht
  split at ht
  · cases ht
  · exact (((h.task t).ready _).mp (List.mem_of_mem_head? ht)).1

theorem Inv.dispatch (h : Inv a) (hc : Calm a a') : Inv a'.dispatch where
  toSettled := hc.dispatch.settled
  runtsk := fun _ ht => hc.settled.ready_of_top ht
  timerNesting := hc.timerNesting.trans h.timerNesting

theorem Inv.steady (h : Inv a) (hc : Steady a a') : Inv a' where
  toSettled := hc.settled
  runtsk := fun t ht => hc.ready t (h.runtsk t (hc.runtsk ▸ ht))
  timerNesting := hc.timerNesting.trans h.timerNesting

/-! ## Data -/

/-- Data that tells nothing of where the tasks stand, and of no object with waiting tasks. -/
structure SameTasks (a : Model cfg) (c : Core cfg) : Prop where
  tcb : ∀ t, SameStanding (a.core.tcb t) (c.tcb t)
  objcb : ∀ o, a.queue (.waitq o) ≠ [] → c.objcb o = a.core.objcb o
  semState : ∀ i, (c.semcb i).obj.state = .noexs ↔ (a.core.semcb i).obj.state = .noexs
  timerNesting : c.timerNesting = a.core.timerNesting

theorem Settled.setCore {f : Core cfg → Core cfg} (h : Settled a) (hf : SameTasks a (f a.core)) :
    Steady a (a.setCore f) where
  settled :=
    { nodup := h.nodup
      exists_of_waitq := fun o t ht => by
        rw [show (a.setCore f).core = f a.core from rfl,
          hf.objcb o (List.ne_nil_of_mem ht)]
        exact h.exists_of_waitq o t ht
      mem_freeSem := fun i => (h.mem_freeSem i).trans (hf.semState i).symm
      freeSem_nodup := h.freeSem_nodup
      task := fun t => (h.task t).congr (hf.tcb t) }
  timerNesting := hf.timerNesting
  sub := fun _ => .refl _
  keep := fun t hw => by
    have hs := hf.tcb t
    have hw' : (a.core.tcb t).state.waiting := by rw [← hs.state]; exact hw
    exact ⟨hw', ⟨hs.tskpri, hs.waitObj, (hs.wait hw').2, (hs.wait hw').1, hs.tskwait⟩, Iff.rfl⟩
  attr := fun o ho => congrArg OBJCB.objatr (hf.objcb o ho)
  runtsk := rfl
  ready := fun t ht => (hf.tcb t).state.trans ht

theorem Settled.setTcb {f : TCB cfg → TCB cfg} (h : Settled a)
    (hf : SameStanding (a.core.tcb t) (f (a.core.tcb t))) : Steady a (a.setTcb t f) := by
  refine h.setCore ⟨fun u => ?_, fun o _ => Core.objcb_setTcb o, fun _ => Iff.rfl, rfl⟩
  by_cases hu : u = t
  · subst hu; rw [Core.setTcb_self]; exact hf
  · rw [Core.setTcb_of_ne hu]; exact .refl _

/-- Data of objects without waiting tasks, and the rest of the data. -/
theorem Settled.setObjs {f : Core cfg → Core cfg} (h : Settled a)
    (ht : (f a.core).tcb = a.core.tcb)
    (ho : ∀ o, a.queue (.waitq o) ≠ [] → (f a.core).objcb o = a.core.objcb o)
    (hs : ∀ i, ((f a.core).semcb i).obj.state = .noexs ↔ (a.core.semcb i).obj.state = .noexs)
    (hn : (f a.core).timerNesting = a.core.timerNesting) : Steady a (a.setCore f) :=
  h.setCore ⟨fun t => by rw [ht]; exact .refl _, ho, hs, hn⟩

end Ittrium.Spec
