import Ittrium.Properties.Semaphores
import Ittrium.Net.SysArch

/-!
# The port's semaphores are the kernel's

The port uses `wai_sem`, `pol_sem`, `twai_sem` and `sig_sem` on semaphores it has created with
`TA_TFIFO`.

* `semOf` — a kernel semaphore as `Sem`
* `kernel_sig`, `kernel_wai` — **the calls are `Sem.sig`, `Sem.wai` and `Sem.block`**
-/

namespace Ittrium.Net

open Infra

variable {cfg : Config} {C : Kernel cfg → Call cfg → Prop} {s s' : Kernel cfg}
  {a a' : Spec.Model cfg} {c : Call cfg} {r : Ittrium.Ret cfg} {i : SemIx cfg}

/-- A kernel semaphore: its count, and the tasks on the ring of its queue. -/
def semOf (i : SemIx cfg) (s : Kernel cfg) : Sem (TskIx cfg) where
  semcnt := (s.core.semcb i).semcnt
  waitq := waiters (.sem i) s

theorem semOf_eq (h : Models s a) (hs : (s.core.semcb i).obj.state ≠ .noexs) :
    semOf i s = ⟨(a.core.semcb i).semcnt, a.queue (.waitq (.sem i))⟩ := by
  unfold semOf
  rw [h.waiters_eq (.sem i) hs, h.refines.core]

/-- **A signal.** -/
theorem kernel_sig (hm : Moves C s a c r s' a') (hsig : Spec.Signals i c)
    (hs : (s.core.semcb i).obj.state ≠ .noexs) :
    ∃ e t, (semOf i s).sig (s.core.semcb i).maxsem = (e, t, semOf i s') ∧ r = .er e := by
  have hcore := hm.pre.refines.core
  have hs' : (a.core.semcb i).obj.state ≠ .noexs := hcore ▸ hs
  obtain ⟨b, hb, hd⟩ := Spec.exec_sigSem hsig hs' hm.spec
  rw [semOf_eq hm.pre hs, hcore]
  cases hb with
  | @served t ts hq =>
    have hcb : a'.core.semcb i = a.core.semcb i := by
      rw [hd.core, (Spec.release_objects t .ok a).semcb]
    have hpost : (s'.core.semcb i).obj.state ≠ .noexs := by
      rw [hm.post.refines.core, hcb]
      exact hs'
    refine ⟨.ok, some t, ?_, rfl⟩
    rw [semOf_eq hm.post hpost, hcb, hd.queue, hm.pre.inv.toSettled.release_first .ok hq, hq]
    rfl
  | counted hq hlt =>
    have hcb : a'.core.semcb i =
        { a.core.semcb i with semcnt := (a.core.semcb i).semcnt + 1 } := by
      rw [hd.core]
      simp [Spec.Model.setCore, Core.setSemcb]
    have hpost : (s'.core.semcb i).obj.state ≠ .noexs := by
      rw [hm.post.refines.core, hcb]
      exact hs'
    refine ⟨.ok, none, ?_, rfl⟩
    have hq' : (a.setCore (Core.setSemcb i fun cb => { cb with semcnt := cb.semcnt + 1 })).queue
        (.waitq (.sem i)) = [] := hq
    rw [semOf_eq hm.post hpost, hcb, hd.queue, hq, hq']
    exact if_neg (not_le.mpr hlt)
  | full hq hge =>
    have hpost : (s'.core.semcb i).obj.state ≠ .noexs := by
      rw [hm.post.refines.core, hd.core]
      exact hs'
    refine ⟨.qovr, none, ?_, rfl⟩
    rw [semOf_eq hm.post hpost, hd.core, hd.queue, hq]
    exact if_pos hge

/-- **A wait**: the caller gets a resource, or gets none and goes on, or is put last. -/
theorem kernel_wai (hm : Moves C s a c r s' a') (hreq : Spec.Requests i c)
    (hs : (s.core.semcb i).obj.state ≠ .noexs)
    (hfifo : (s.core.semcb i).obj.objatr &&& taTpri = 0) :
    (r = .er .ok ∧ (semOf i s).wai = some (semOf i s')) ∨
    (r = .er .tmout ∧ (semOf i s).wai = none ∧ semOf i s' = semOf i s) ∨
    (r = .blocked ∧ (semOf i s).wai = none ∧
      ∃ t, s.runtsk = .qnode t ∧ semOf i s' = (semOf i s).block t) := by
  have hcore := hm.pre.refines.core
  have hs' : (a.core.semcb i).obj.state ≠ .noexs := hcore ▸ hs
  obtain ⟨b, hb, hd⟩ := Spec.exec_waiSem hreq hs' hm.spec
  rw [semOf_eq hm.pre hs]
  cases hb with
  | @obtained t hrun hcnt =>
    left
    have hcb : a'.core.semcb i =
        { a.core.semcb i with semcnt := (a.core.semcb i).semcnt - 1 } := by
      rw [hd.core]
      simp [Spec.Model.setTcb, Spec.Model.setCore, Core.setSemcb, Core.setTcb]
    have hpost : (s'.core.semcb i).obj.state ≠ .noexs := by
      rw [hm.post.refines.core, hcb]
      exact hs'
    rw [semOf_eq hm.post hpost, hcb, hd.queue]
    exact ⟨rfl, if_pos hcnt⟩
  | @failed t hrun hcnt =>
    right; left
    have hcb : a'.core.semcb i = a.core.semcb i := by
      rw [hd.core]
      rfl
    have hpost : (s'.core.semcb i).obj.state ≠ .noexs := by
      rw [hm.post.refines.core, hcb]
      exact hs'
    rw [semOf_eq hm.post hpost, hcb, hd.queue]
    exact ⟨rfl, if_neg hcnt, rfl⟩
  | @blocked t tmout hrun hcnt =>
    right; right
    obtain ⟨u, o, tmout', b, hw, hrun', hB, rfl⟩ := Spec.exec_blocks hm.pre.inv hm.sound hm.spec
    -- only the three calls that wait for a resource block their caller at the semaphore
    obtain rfl : o = some (.sem i) := by
      cases c with
      | waiSem semid | twaiSem semid _ | polSem semid =>
        have hget : getSemcb semid = .ok i := hreq
        rw [Spec.Call.wait, hget] at hw
        exact (Prod.mk.inj (Option.some.inj hw)).1.symm
      | _ => exact hreq.elim
    have hcb : b.core.semcb i = a.core.semcb i := congrFun hB.others.objects.semcb i
    have hpost : (s'.core.semcb i).obj.state ≠ .noexs := by
      rw [hm.post.refines.core]
      show (b.core.semcb i).obj.state ≠ .noexs
      rw [hcb]
      exact hs'
    refine ⟨rfl, if_neg hcnt, u, by rw [hm.pre.refines.runtsk, hrun']; rfl, ?_⟩
    rw [semOf_eq hm.post hpost]
    show (⟨(b.core.semcb i).semcnt, b.queue (.waitq (.sem i))⟩ : Sem (TskIx cfg)) = _
    -- in arrival order the caller is put last
    have hattr : (a.core.objcb (.sem i)).objatr &&& taTpri = 0 := hcore ▸ hfifo
    rw [hcb, hB.joins _ rfl, Spec.joinWaitq, if_neg (not_not.mpr hattr)]
    rfl

end Ittrium.Net
