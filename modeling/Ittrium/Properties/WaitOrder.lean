import Ittrium.Properties.Runs
import Ittrium.Spec.Objects

/-!
# The order in which an object releases its tasks

* `arrivals o tr` — the tasks that wait for `o`, in the order in which they made their calls
* `InOrder` — the line of `o` is that list, by task priority if the attribute asks for it
* `waitq_order` — **this holds in every state reached; signals and messages go to the first task**
-/

namespace Ittrium

open Infra

variable {cfg : Config} {o : ObjId cfg} {t : TskIx cfg} {tr : Trace cfg} {s s' : Kernel cfg}
  {a a' : Spec.Model cfg} {c : Call cfg} {r : Ret cfg} {arr : List (TskIx cfg)}

/-! ## Arrivals -/

/-- The task that makes the next call, if there is one. -/
def caller (s : Kernel cfg) : List (TskIx cfg) :=
  match s.runtsk with
  | .qnode t => [t]
  | _ => []

/-- The call has made its caller wait for `o`. -/
def Arrives (o : ObjId cfg) (l : Label cfg) : Prop :=
  l.2 = .blocked ∧ (Spec.Call.wait l.1).map Prod.fst = some (some o)

instance (o : ObjId cfg) (l : Label cfg) : Decidable (Arrives o l) :=
  inferInstanceAs (Decidable (_ ∧ _))

/-- The tasks that wait for `o`, in the order in which they made their calls. -/
def arrivals (o : ObjId cfg) : Trace cfg → List (TskIx cfg)
  | [] => []
  | e :: tr =>
    let still := (arrivals o tr).filter (waitsFor o e.post.core)
    if Arrives o e.label then still ++ caller e.pre else still

/-- The line is in the order the attribute of the object asks for. -/
structure InOrder (o : ObjId cfg) (c : Core cfg) (arr l : List (TskIx cfg)) : Prop where
  fifo : (c.objcb o).objatr &&& taTpri = 0 → l = arr
  byPriority : (c.objcb o).objatr &&& taTpri ≠ 0 →
    StablySorted (fun t => (c.tcb t).tskpri) arr l

/-! ## Steps -/

theorem InOrder.mem_iff (h : InOrder o a.core arr (a.queue (.waitq o))) :
    t ∈ arr ↔ t ∈ a.queue (.waitq o) := by
  by_cases ha : (a.core.objcb o).objatr &&& taTpri = 0
  · rw [h.fifo ha]
  · exact (h.byPriority ha).mem_iff.symm

/-- Tasks leave the line, whatever their places. -/
theorem InOrder.calm (h : InOrder o a.core arr (a.queue (.waitq o))) (ha : Spec.Settled a)
    (hc : Spec.Calm a a') :
    InOrder o a'.core (arr.filter (waitsFor o a'.core)) (a'.queue (.waitq o)) := by
  have hq : a'.queue (.waitq o) = (a.queue (.waitq o)).filter (waitsFor o a'.core) :=
    sublist_eq_filter (hc.sub o) (ha.nodup _) fun t _ => (hc.settled.mem_waitq o t).symm
  by_cases hnil : a'.queue (.waitq o) = []
  · have harr : arr.filter (waitsFor o a'.core) = [] := by
      refine List.filter_eq_nil_iff.mpr fun t _ ht => ?_
      rw [← hc.settled.mem_waitq, hnil] at ht
      simp at ht
    rw [harr, hnil]
    exact ⟨fun _ => rfl, fun _ => .nil⟩
  · have hattr := hc.attr o hnil
    refine ⟨fun hf => ?_, fun hf => ?_⟩
    · rw [hq, h.fifo (hattr ▸ hf)]
    · rw [hq]
      refine ((h.byPriority (hattr ▸ hf)).filter _).congr fun t ht => ?_
      have hw := waitsFor_iff.mp (List.mem_filter.mp ht).2
      exact (hc.keep t hw.1).2.1.tskpri

/-- Those who wait go on waiting when another task begins to. -/
theorem InOrder.still {o' : Option (ObjId cfg)} {tmout : TMO}
    (h : InOrder o a.core arr (a.queue (.waitq o))) (ha : Spec.Settled a)
    (hb : Spec.Blocked t o' tmout a a') : arr.filter (waitsFor o a'.core) = arr := by
  refine List.filter_eq_self.mpr fun u hu => ?_
  rw [← hb.settled.mem_waitq]
  exact hb.still ha (h.mem_iff.mp hu)

/-- The running task joins the line of an object. -/
theorem InOrder.blocked {o' : Option (ObjId cfg)} {tmout : TMO}
    (h : InOrder o a.core arr (a.queue (.waitq o))) (ha : Spec.Settled a)
    (hb : Spec.Blocked t o' tmout a a') :
    InOrder o a'.core (arr.filter (waitsFor o a'.core) ++ if o' = some o then [t] else [])
      (a'.queue (.waitq o)) := by
  have hattr : (a'.core.objcb o).objatr = (a.core.objcb o).objatr := by
    rw [hb.others.objects.objcb]
  have hpri := hb.tskpri_all
  rw [h.still ha hb]
  by_cases ho : o' = some o
  · rw [if_pos ho, hb.joins o ho]
    unfold Spec.joinWaitq
    refine ⟨fun hf => ?_, fun hf => ?_⟩ <;> rw [hattr] at hf
    · rw [if_neg (not_not.mpr hf), h.fifo hf]
    · rw [if_pos hf]
      exact ((h.byPriority hf).insert t).congr fun u _ => hpri u
  · rw [if_neg ho, List.append_nil, hb.waitq o ho]
    refine ⟨fun hf => h.fifo (hattr ▸ hf), fun hf => ?_⟩
    exact (h.byPriority (hattr ▸ hf)).congr fun u _ => hpri u

/-- **Every step keeps the order.** -/
theorem InOrder.step {C : Kernel cfg → Call cfg → Prop} (h : InOrder o a.core (arrivals o tr)
    (a.queue (.waitq o))) (hm : Moves C s a c r s' a') :
    InOrder o a'.core (arrivals o (⟨s, (c, r), s'⟩ :: tr)) (a'.queue (.waitq o)) := by
  have ha := hm.pre.inv.toSettled
  have hcalm : r ≠ .blocked → Spec.Calm a a' →
      InOrder o a'.core (arrivals o (⟨s, (c, r), s'⟩ :: tr)) (a'.queue (.waitq o)) := by
    intro hr hc
    rw [arrivals, if_neg fun he => hr he.1]
    simp only [hm.post.refines.core]
    exact h.calm ha hc
  cases Spec.exec_step hm.pre.inv hm.sound _ hm.spec with
  | steady hr hs => exact hcalm hr hs.toCalm
  | dispatch hr hc => exact hcalm hr hc.dispatch
  | @blocked t o' tmout b hw hrun hb =>
    have hcaller : caller s = [t] := by
      unfold caller
      rw [hm.pre.refines.runtsk, hrun, Refine.ptr_some]
    have harr : Arrives o (c, .blocked) ↔ o' = some o := by
      simp [Arrives, hw]
    have hord := h.blocked ha hb
    rw [arrivals]
    simp only [hm.post.refines.core, harr, hcaller]
    split at hord
    · next ho => rw [if_pos ho]; exact hord
    · next ho => rw [if_neg ho]; rw [List.append_nil] at hord; exact hord

theorem RunOf.inOrder (h : RunOf SoundCall tr s) :
    ∃ a, Models s a ∧ ∀ o, InOrder o a.core (arrivals o tr) (a.queue (.waitq o)) :=
  RunOf.lift (P := fun tr a => ∀ o, InOrder o a.core (arrivals o tr) (a.queue (.waitq o)))
    (fun _ _ h => h) (fun _ _ => ⟨fun _ => rfl, fun _ => .nil⟩)
    (fun _ _ _ _ _ _ _ hm h o => (h o).step hm) h

/-! ## Releases -/

/-- The first task of the line, `t`, has been released, and nobody else is touched. -/
structure ReleasesFirst (o : ObjId cfg) (t : TskIx cfg) (s s' : Kernel cfg) : Prop where
  waiters : waiters o s = t :: waiters o s'
  state : (s'.core.tcb t).state = .rdy ∨ (s'.core.tcb t).state = .sus
  ercd : (s'.core.tcb t).ercd = .ok
  others : ∀ u, u ≠ t → s'.core.tcb u = s.core.tcb u

theorem Models.releasesFirst {b : Spec.Model cfg} {ts : List (TskIx cfg)} (h : Models s a)
    (h' : Models s' a') (ho : (s.core.objcb o).state ≠ .noexs) (hb : Spec.Settled b)
    (hba : b.queue = a.queue ∧ b.core.tcb = a.core.tcb ∧ b.core.objcb = a.core.objcb)
    (hd : Spec.UpToDispatch (b.release t .ok) a') (hq : waiters o s = t :: ts) :
    ReleasesFirst o t s s' := by
  obtain ⟨hbq, hbt, hbo⟩ := hba
  have ho' : (s'.core.objcb o).state ≠ .noexs := by
    rw [h'.refines.core, hd.core, (Spec.release_objects t .ok b).objcb, hbo, ← h.refines.core]
    exact ho
  have hqb : b.queue (.waitq o) = t :: ts := by rw [hbq, ← h.waiters_eq o ho, hq]
  constructor
  · rw [h'.waiters_eq o ho', hd.queue, hb.release_first .ok hqb, hq]
  · rw [h'.refines.core, hd.core]
    exact Spec.release_tcb_state t .ok b
  · rw [h'.refines.core, hd.core, Spec.release_tcb_ercd]
  · intro u hu
    rw [h'.refines.core, hd.core, (Spec.Others.release .ok hb.nodup).tcb u hu, hbt, h.refines.core]

/-- A signal goes to the first task that waits for the semaphore. -/
theorem Models.sigSem_first {i : SemIx cfg} {ts : List (TskIx cfg)} (h : Models s a)
    (h' : Models s' a') (hc : Spec.Signals i c) (hs : (s.core.semcb i).obj.state ≠ .noexs)
    (he : Spec.exec c a = .ok (a', r)) (hq : waiters (.sem i) s = t :: ts) :
    r = .er .ok ∧ ReleasesFirst (.sem i) t s s' := by
  have hqa := (h.waiters_eq (.sem i) hs).symm.trans hq
  obtain ⟨b, hb, hd⟩ := Spec.exec_sigSem hc (h.refines.core ▸ hs) he
  cases hb with
  | served hqb =>
    rw [hqa] at hqb
    cases hqb
    exact ⟨rfl, h.releasesFirst h' hs h.inv.toSettled ⟨rfl, rfl, rfl⟩ hd hq⟩
  | counted hn => rw [hqa] at hn; cases hn
  | full hn => rw [hqa] at hn; cases hn

/-- A message goes to the first task that waits for one. -/
theorem Models.sndMbx_first {i : MbxIx cfg} {mbxid : Int} {m : Fin cfg.nmsg}
    {ts : List (TskIx cfg)} (h : Models s a) (h' : Models s' a') (hi : getMbxcb mbxid = .ok i)
    (hs : (s.core.mbxcb i).obj.state ≠ .noexs)
    (he : Spec.exec (.sndMbx mbxid m) a = .ok (a', .er .ok))
    (hq : waiters (.mbx i) s = t :: ts) : ReleasesFirst (.mbx i) t s s' := by
  have hqa := (h.waiters_eq (.mbx i) hs).symm.trans hq
  obtain ⟨b, hb, hd⟩ := Spec.exec_sndMbx hi (h.refines.core ▸ hs) he
  cases hb with
  | handed _ hqb =>
    rw [hqa] at hqb
    cases hqb
    exact h.releasesFirst h' hs (h.inv.toSettled.setRest rfl rfl rfl rfl rfl).settled
      ⟨rfl, rfl, rfl⟩ hd hq
  | queued _ hn => rw [hqa] at hn; cases hn

/-! ## Runs -/

/-- **In every state reached, an object's line holds exactly the tasks that wait for it, each once,
in the order its attribute asks for, and signals and messages go to the first of them.** -/
theorem waitq_order (h : RunOf SoundCall tr s) (ho : (s.core.objcb o).state ≠ .noexs) :
    Ring s.links (.waitq o) ((waiters o s).map .qnode) ∧
    (waiters o s).Nodup ∧
    (∀ t, t ∈ waiters o s ↔ waitsFor o s.core t = true) ∧
    InOrder o s.core (arrivals o tr) (waiters o s) ∧
    ∀ l s' t ts, StepOf SoundCall s l s' → waiters o s = t :: ts →
      (∀ i, o = .sem i → Spec.Signals i l.1 → l.2 = .er .ok ∧ ReleasesFirst o t s s') ∧
      (∀ i mbxid m, o = .mbx i → l.1 = .sndMbx mbxid m → getMbxcb mbxid = .ok i →
        l.2 = .er .ok → ReleasesFirst o t s s') := by
  obtain ⟨a, hm, hord⟩ := h.inOrder
  have hq := hm.waiters_eq o ho
  refine ⟨hq ▸ hm.ring_waitq ho, hq ▸ hm.inv.nodup _, fun t => ?_, ?_, fun l s' t ts hs hw => ?_⟩
  · rw [hq, hm.inv.toSettled.mem_waitq, hm.refines.core]
  · rw [hq, hm.refines.core]
    exact hord o
  · obtain ⟨a', hmv⟩ := hm.moves (fun _ _ h => h) hs
    refine ⟨?_, ?_⟩
    · rintro i rfl hsig
      exact hm.sigSem_first hmv.post hsig ho hmv.spec hw
    · rintro i mbxid m rfl hl hi hr
      have hsp := hmv.spec
      rw [hl, hr] at hsp
      exact hm.sndMbx_first hmv.post hi ho hsp hw

/-- Two tasks wait for a semaphore. -/
theorem waitq_order_two : ∃ (tr : Trace smallConfig) (s : Kernel smallConfig),
    RunOf SoundCall tr s ∧ arrivals (.sem 0) tr = [0, 1] ∧
      InOrder (.sem 0) s.core [0, 1] (waiters (.sem 0) s) := by
  obtain ⟨tr, s, h, ho, harr⟩ := exists_runOf (C := SoundCall)
    (Q := fun tr s => (s.core.objcb (.sem 0)).state ≠ .noexs ∧ arrivals (.sem 0) tr = [0, 1])
    (startTasks [1, 2] ++ [.creSem 1 ⟨0, 0, 1⟩, .waiSem 1, .waiSem 1]) zeroed (by decide +kernel)
  exact ⟨tr, s, h, harr, harr ▸ (waitq_order h ho).2.2.2.1⟩

end Ittrium
