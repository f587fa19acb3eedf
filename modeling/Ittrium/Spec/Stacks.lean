import Ittrium.Spec.Requests

/-!
# The stack of a task

`cre_tsk` says where a stack is. After that no call moves it, until the task is deleted.

* `Stacked` — every task that exists has a stack, and `stk` is its end
* `exec_stacked` — **every step keeps that**
-/

namespace Ittrium.Spec

open Infra

variable {cfg : Config} {a a' b : Model cfg} {t u : TskIx cfg} {c : Call cfg} {r : Ret cfg}
  {tskid : Int}

/-- A control block holds the stack `cre_tsk` was given. -/
structure OwnsStack (tcb : TCB cfg) : Prop where
  base : tcb.stkBase ≠ 0
  top : tcb.stk = tcb.stkBase + tcb.stksz.setWidth 64

/-- Every task that exists has its stack. -/
def Stacked (a : Model cfg) : Prop := ∀ t, (a.core.tcb t).state ≠ .noexs → OwnsStack (a.core.tcb t)

/-- The stack is the same, and no task comes into being. -/
structure StackStays (tcb tcb' : TCB cfg) : Prop where
  stack : stackOf tcb' = stackOf tcb
  missing : tcb.state = .noexs → tcb'.state = .noexs

theorem StackStays.refl (tcb : TCB cfg) : StackStays tcb tcb := ⟨rfl, id⟩

theorem Unstarted.stackStays {tcb tcb' : TCB cfg} (h : Unstarted tcb tcb') : StackStays tcb tcb' :=
  ⟨h.stack, h.missing.mpr⟩

theorem OwnsStack.congr {tcb tcb' : TCB cfg} (h : OwnsStack tcb) (hs : stackOf tcb' = stackOf tcb) :
    OwnsStack tcb' := by
  obtain ⟨h₁, h₂, h₃⟩ : tcb'.stk = tcb.stk ∧ tcb'.stkBase = tcb.stkBase ∧ tcb'.stksz = tcb.stksz := by
    simpa [stackOf] using hs
  constructor
  · rw [h₂]
    exact h.base
  · rw [h₁, h₂, h₃]
    exact h.top

theorem Stacked.stays (h : Stacked a) (hs : ∀ t, StackStays (a.core.tcb t) (a'.core.tcb t)) :
    Stacked a' := by
  intro t ht
  exact (h t fun hn => ht ((hs t).missing hn)).congr (hs t).stack

/-- Only `u` is touched. -/
theorem Stacked.of_others (h : Stacked a) (ho : Others u a a')
    (hu : (a'.core.tcb u).state ≠ .noexs → OwnsStack (a'.core.tcb u)) : Stacked a' := by
  intro t ht
  by_cases htu : t = u
  · rw [htu] at ht ⊢
    exact hu ht
  · rw [ho.tcb t htu] at ht ⊢
    exact h t ht

theorem Stacked.of_core (h : Stacked a) (hc : a'.core = a.core) : Stacked a' := by
  unfold Stacked
  rw [hc]
  exact h

theorem Stacked.created {pk : TCtsk} (h : Stacked a) (hs : Settled a)
    (hc : TskCreated tskid pk a a') : Stacked a' := by
  obtain ⟨u, -, -, hk, rfl⟩ := hc
  refine h.of_others (.create pk hs) fun _ => ?_
  rw [show (a.create u pk).core.tcb u = _ from taskMakeDormant_tcb_self u _]
  simp only [Model.setTcb_tcb_self]
  exact ⟨hk, rfl⟩

theorem ActTsk.stackStays (h : ActTsk tskid a r b) (t : TskIx cfg) :
    StackStays (a.core.tcb t) (b.core.tcb t) := by
  cases h with
  | refused => exact .refl _
  | full => exact .refl _
  | @queued u hu hn hd hf =>
    by_cases htu : t = u
    · rw [htu, Model.setTcb_tcb_self]
      exact ⟨rfl, id⟩
    · rw [Model.setTcb_tcb_of_ne htu]
      exact .refl _
  | @started u hu hd =>
    by_cases htu : t = u
    · rw [htu, activate_tcb]
      exact ⟨rfl, fun hn => absurd (hd.symm.trans hn) (by simp)⟩
    · rw [(Others.activate u a).tcb t htu]
      exact .refl _

theorem Stacked.exit (h : Stacked a) (hs : Settled a) (hu : (a.core.tcb u).state ≠ .noexs) :
    Stacked (a.exit u) := by
  refine h.of_others (.exit hs) fun _ => ?_
  by_cases hcnt : (a.core.tcb u).actcnt = 0
  · rw [exit_dormant hcnt, dormant_tcb]
    exact (h u hu).congr rfl
  · rw [(exit_restarts hcnt).1]
    exact (h u hu).congr rfl

/-- **Every step leaves every task with its stack.** -/
theorem exec_stacked (h : Inv a) (hS : Stacked a) (he : exec c a = .ok (a', r)) : Stacked a' := by
  have hs := h.toSettled
  by_cases hcount : Call.counting c
  · cases c with
    | actTsk id =>
      obtain ⟨b, hb, hup⟩ := exec_actTsk (show Call.isAct id (.actTsk id) from rfl) he
      exact (hS.stays hb.stackStays).of_core hup.core
    | iactTsk id =>
      obtain ⟨b, hb, hup⟩ := exec_actTsk (show Call.isAct id (.iactTsk id) from rfl) he
      exact (hS.stays hb.stackStays).of_core hup.core
    | extTsk =>
      obtain ⟨u, hu, rfl⟩ := exec_extTsk he
      have hx : (a.core.tcb u).state ≠ .noexs := by
        rw [h.runtsk u hu]
        simp
      exact (hS.exit hs hx).of_core rfl
    | creTsk id pk =>
      rcases creTsk_cases _ he with ⟨ha, -⟩ | ⟨-, hcr⟩
      · exact hS.of_core (congrArg Model.core ha)
      · exact hS.created hs hcr
    | acreTsk pk =>
      rcases acreTskLoop_cases _ _ _ he with ha | ⟨id, hcr⟩
      · exact hS.of_core (congrArg Model.core ha)
      · exact hS.created hs hcr
    | delTsk id =>
      rcases delTsk_cases he with rfl | ⟨-, u, -, -, rfl⟩
      · exact hS
      · refine Stacked.of_core (a := a.delete u) ?_ rfl
        refine hS.of_others (.delete hs) fun hn => ?_
        rw [Model.delete_tcb] at hn
        exact absurd rfl hn
    | slpTsk =>
      obtain ⟨u, tmout, hu, b, hb, hup⟩ := exec_slpTsk (show Call.isSlp .slpTsk from trivial) he
      exact (hS.stays fun t => (hb.unstarted hs (h.runtsk u hu) t).stackStays).of_core hup.core
    | tslpTsk tmout =>
      obtain ⟨u, tmout, hu, b, hb, hup⟩ :=
        exec_slpTsk (show Call.isSlp (.tslpTsk tmout) from trivial) he
      exact (hS.stays fun t => (hb.unstarted hs (h.runtsk u hu) t).stackStays).of_core hup.core
    | wupTsk id =>
      obtain ⟨b, hb, hup⟩ := exec_wupTsk (show Call.isWup id (.wupTsk id) from rfl) he
      exact (hS.stays fun t => (hb.unstarted hs t).stackStays).of_core hup.core
    | iwupTsk id =>
      obtain ⟨b, hb, hup⟩ := exec_wupTsk (show Call.isWup id (.iwupTsk id) from rfl) he
      exact (hS.stays fun t => (hb.unstarted hs t).stackStays).of_core hup.core
    | canWup id => exact hS.stays fun t => ((exec_canWup he).unstarted t).stackStays
    | _ => exact absurd hcount id
  · exact hS.stays fun t => (exec_ordinary h hcount _ he t).unstarted.stackStays

end Ittrium.Spec
