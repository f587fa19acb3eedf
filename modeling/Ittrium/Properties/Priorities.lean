import Ittrium.Properties.Structure
import Ittrium.Spec.Requests

/-!
# Changing the priority of a task

`chg_pri` takes the task out of the line it is in and puts it into the ready line of its new
priority, whatever its state.

* `KeepsPlace p t s s'` — what is to become of the tasks when `t` gets priority `p`
* `readied` — **a task whose priority is changed is in a ready line**
* `chg_pri_exact` — **the tasks keep their places if and only if the task is ready**
-/

namespace Ittrium

open Infra

variable {cfg : Config} {t u : TskIx cfg} {tr : Trace cfg} {s s' : Kernel cfg}
  {a a' : Spec.Model cfg} {tskid tskpri p : Int}

/-! ## Places -/

/-- The line of an object after the priority of `t` has changed. -/
def placed (t : TskIx cfg) (o : ObjId cfg) (c : Core cfg) (l : List (TskIx cfg)) :
    List (TskIx cfg) :=
  if t ∈ l ∧ (c.objcb o).objatr &&& taTpri ≠ 0 then
    insertStable (fun u => (c.tcb u).tskpri) t (l.erase t)
  else l

/-- `t` has got the priority `p`, and all tasks have kept their places. -/
structure KeepsPlace (p : Int) (t : TskIx cfg) (s s' : Kernel cfg) : Prop where
  tskpri : (s'.core.tcb t).tskpri = p
  state : (s'.core.tcb t).state = (s.core.tcb t).state
  /-- In the queues of objects a task only moves to the place of its priority. -/
  waitq : ∀ o, (s.core.objcb o).state ≠ .noexs →
    waiters o s' = placed t o s'.core (waiters o s)
  /-- A task that was not ready is in no ready line. -/
  notReady : (s.core.tcb t).state ≠ .rdy →
    ∀ q, Spec.LinePri cfg q → ¬ s'.links.Reaches (.priq q) (.qnode t)
  /-- Every other task is as it was, and on the same rings. -/
  others : ∀ u, u ≠ t → s'.core.tcb u = s.core.tcb u ∧
    ∀ r, IsHead s r → ∀ x, x = .qnode u ∨ x = .wtmeb u →
      (s'.links.Reaches r x ↔ s.links.Reaches r x)
  /-- Only ready tasks are selected. -/
  schedtsk : ∀ u, s'.schedtsk = .qnode u → (s'.core.tcb u).state = .rdy

/-- The priorities `chg_pri` takes, `TPRI_INI` standing for the initial one. -/
def ValidPri (cfg : Config) (tskpri : Int) : Prop :=
  tskpri = tpriIni ∨ tminTpri ≤ tskpri ∧ tskpri ≤ cfg.tmaxTpri

theorem ValidPri.not_out (h : ValidPri cfg tskpri) :
    ¬ ((tskpri < tminTpri ∨ tskpri > cfg.tmaxTpri) ∧ tskpri ≠ tpriIni) := by
  rintro ⟨hout, hne⟩
  rcases h with hini | ⟨hmin, hmax⟩
  · exact hne hini
  · omega

/-- The line an argument of `chg_pri` stands for. -/
def priOf (t : TskIx cfg) (tskpri : Int) (c : Core cfg) : Int :=
  if tskpri = tpriIni then (c.tcb t).itskpri else priToIndex tskpri

/-! ## The call -/

theorem rdyqInsert_links (t : TskIx cfg) (s : Kernel cfg) :
    (rdyqInsert t s).2.links =
      s.links.insertBefore (.qnode t) (.priq (s.core.tcb t).tskpri) := by
  have hlinks : (rdyqInsert t s).2.links =
      kqueueInsert (.qnode t) (.priq (s.core.tcb t).tskpri) s.links := by
    unfold rdyqInsert
    dsimp only [Kernel.setLinks, Kernel.setRdyq]
    split <;> rfl
  rw [hlinks, kqueueInsert_eq (by simp)]

/-- **Whatever its state, the task is then the last one of a ready line.** -/
theorem readied (t : TskIx cfg) (p : Int) (s : Kernel cfg) :
    (taskChangePri t p s).links.prev (.priq p) = .qnode t := by
  unfold taskChangePri
  dsimp only
  split <;>
  · simp only [rdyqInsert_links, Kernel.setTcb, Kernel.setCore, Core.setTcb_self]
    simp [Links.insertBefore]

/-- The call goes ahead for every live task. -/
theorem exec_chgPri (hid : getTcbSelf tskid s = .ok t) (hbad : badTskid tskid s = false)
    (hn : (s.core.tcb t).state ≠ .noexs) (hd : (s.core.tcb t).state ≠ .dmt)
    (hp : ValidPri cfg tskpri) :
    exec (.chgPri tskid tskpri) s =
      .ok (dispatch (taskChangePri t (priOf t tskpri s.core) s), .er .ok) := by
  show chgPri tskid tskpri s = _
  unfold chgPri priOf
  rw [if_neg (by simp [hbad]), if_neg hp.not_out, hid]
  show (if _ then _ else _) = _
  rw [if_neg hn, if_neg hd]
  split <;> rfl

/-! ## Ready tasks -/

/-- The head of a ring stays one. -/
theorem Models.reaches_iff (hm : Models s a) {r x : Node cfg} (hr : IsHead s r) :
    s.links.Reaches r x ↔ x = r ∨ x ∈ Refine.elems a r := by
  have hring := hm.refines.rings.ring r ⟨heads_of_isHead hm hr, id⟩
  rw [hring.reaches_iff, List.mem_cons]

/-- Where only `t` is touched, the nodes of other tasks are on the same rings. -/
theorem elems_others (ho : Spec.Others t a a') (hu : u ≠ t) {r x : Node cfg}
    (hx : x = .qnode u ∨ x = .wtmeb u) : x ∈ Refine.elems a' r ↔ x ∈ Refine.elems a r := by
  have hmem := ho.mem u hu
  -- a node of `u` comes from `u`, and a node of another kind from nobody
  have hline : ∀ (f : TskIx cfg → Node cfg) (l : Spec.Line cfg),
      (∀ v w, f v = f w → v = w) → (x = f u ∨ ∀ v, x ≠ f v) →
      (x ∈ (a'.queue l).map f ↔ x ∈ (a.queue l).map f) := by
    intro f l hf hx
    simp only [List.mem_map]
    rcases hx with rfl | hx
    · constructor <;>
      · rintro ⟨v, hv, he⟩
        obtain rfl := hf _ _ he
        exact ⟨v, by first | exact (hmem l).mp hv | exact (hmem l).mpr hv, rfl⟩
    · constructor <;>
      · rintro ⟨v, -, he⟩
        exact absurd he.symm (hx v)
  have hq : x = .qnode u ∨ ∀ v : TskIx cfg, x ≠ .qnode v := by
    rcases hx with rfl | rfl
    · exact Or.inl rfl
    · exact Or.inr fun v => by simp
  have hw : x = .wtmeb u ∨ ∀ v : TskIx cfg, x ≠ .wtmeb v := by
    rcases hx with rfl | rfl
    · exact Or.inr fun v => by simp
    · exact Or.inl rfl
  cases r with
  | priq q => exact hline _ _ (fun _ _ => Node.qnode.inj) hq
  | waitq o => exact hline _ _ (fun _ _ => Node.qnode.inj) hq
  | freeTcb => exact hline _ _ (fun _ _ => Node.qnode.inj) hq
  | timerQueue => exact hline _ _ (fun _ _ => Node.wtmeb.inj) hw
  | freeSemcb =>
    show x ∈ a'.freeSem.map _ ↔ x ∈ a.freeSem.map _
    rw [ho.freeSem]
  | _ => exact Iff.rfl

/-- A ready task changes its line and nothing else. -/
theorem Models.keepsPlace (hm : Models s a) (hm' : Models s' (a.changePri t p).dispatch)
    (ht : (s.core.tcb t).state = .rdy) : KeepsPlace p t s s' := by
  have ho := Spec.Others.changePri (t := t) p hm.inv.toSettled
  have hcore' : s'.core = (a.changePri t p).core := hm'.refines.core
  have hobjcb : ∀ o, s'.core.objcb o = s.core.objcb o := fun o => by
    rw [hcore', hm.refines.core]
    exact ho.objects.objcb o
  refine ⟨?_, ?_, fun o hne => ?_, fun hnr => absurd ht hnr, fun u hu => ⟨?_, ?_⟩, fun u hs => ?_⟩
  · rw [hcore', Spec.Model.changePri_tcb_self]
  · rw [hcore', Spec.Model.changePri_tcb_self, hm.refines.core]
  -- a ready task waits nowhere
  · have hnot : t ∉ a.queue (.waitq o) := by
      intro hmem
      rw [hm.refines.core] at ht
      have hw := (((hm.inv.task t).waitq o).mp hmem).1
      rw [ht] at hw
      cases hw
    rw [hm'.waiters_eq o (by rw [hobjcb]; exact hne), hm.waiters_eq o hne, placed,
      if_neg fun h => hnot h.1]
    show (a.changePri t p).queue (.waitq o) = _
    exact Spec.Model.changePri_waitq
  · rw [hcore', hm.refines.core]
    exact ho.tcb u hu
  · intro r hr x hx
    have hr' : IsHead s' r := by
      cases r with
      | waitq o =>
        cases o with
        | sem i =>
          show (s'.core.objcb (.sem i)).state ≠ .noexs
          rw [hobjcb]
          exact hr
        | _ => exact hr
      | _ => exact hr
    rw [hm'.reaches_iff hr', hm.reaches_iff hr]
    exact or_congr Iff.rfl (elems_others ho hu hx)
  · have hrun : (a.changePri t p).dispatch.runtsk = some u := by
      rw [hm'.refines.schedtsk, Refine.ptr_eq_qnode] at hs
      exact hs
    rw [hm'.refines.core]
    exact hm'.inv.runtsk u hrun

/-! ## Runs -/

/-- **In every state reached by calls that change the priority of ready tasks only, another such
change lets the tasks keep their places if and only if its task is ready.** -/
theorem chg_pri_exact (h : RunOf SoundCall tr s) (hid : getTcbSelf tskid s = .ok t)
    (hn : (s.core.tcb t).state ≠ .noexs) (hd : (s.core.tcb t).state ≠ .dmt)
    (hp : ValidPri cfg tskpri) :
    ∃ s', exec (.chgPri tskid tskpri) s = .ok (s', .er .ok) ∧
      (KeepsPlace (priOf t tskpri s.core) t s s' ↔ (s.core.tcb t).state = .rdy) := by
  obtain ⟨a, hm⟩ := h.models fun _ _ h => h
  have hid' : Spec.getTcbSelf tskid a = .ok t := by rw [← hm.refines.getTcbSelf, hid]
  have hbad : badTskid tskid s = false := by
    rw [hm.refines.badTskid]
    exact Spec.badTskid_of_ok hid'
  have he := exec_chgPri hid hbad hn hd hp
  refine ⟨_, he, fun hk => ?_, fun ht => ?_⟩
  · -- the last task of a ready line is in it
    by_contra hne
    have hline : Spec.LinePri cfg (priOf t tskpri s.core) := by
      unfold priOf
      split
      · rw [hm.refines.core] at hn ⊢
        exact (hm.inv.task t).itskpri hn
      · next hini =>
        obtain ⟨hmin, hmax⟩ := hp.resolve_left hini
        exact Spec.linePri_priToIndex hmin hmax
    exact hk.notReady hne _ hline ⟨1, Or.inr (readied t _ s)⟩
  · have hsound : SoundCall s (.chgPri tskid tskpri) := by
      intro u hu
      by_cases hself : tskid = tskSelf
      · obtain ⟨-, hpos, -⟩ := id_of_entryOf hu
        subst hself
        cases hpos
      · rw [getTcbSelf, if_neg hself, hu] at hid
        cases hid
        exact Or.inr (Or.inr ht)
    obtain ⟨a', ha', hm'⟩ := hm.step hsound he
    have hspec : Spec.exec (.chgPri tskid tskpri) a =
        .ok ((a.changePri t (priOf t tskpri s.core)).dispatch, .er .ok) := by
      rw [hm.refines.core] at hn hd ⊢
      show Spec.chgPri tskid tskpri a = _
      unfold Spec.chgPri priOf
      rw [if_neg (by simp [Spec.badTskid_of_ok hid']), if_neg hp.not_out, hid']
      show (if _ then _ else _) = _
      rw [if_neg hn, if_neg hd]
    rw [hspec] at ha'
    cases ha'
    exact hm.keepsPlace hm' ht

/-- Of two ready tasks one gets a less urgent priority. -/
theorem chg_pri_exact_two : ∃ (s s' : Kernel smallConfig),
    exec (.chgPri 1 3) s = .ok (s', .er .ok) ∧ s.schedtsk = .qnode 0 ∧ KeepsPlace 2 0 s s' := by
  obtain ⟨tr, s, h, hst, hsched⟩ := exists_runOf (C := SoundCall)
    (Q := fun _ s => (s.core.tcb 0).state = .rdy ∧ s.schedtsk = .qnode 0)
    (startTasks [1, 2]) zeroed (by decide +kernel)
  obtain ⟨s', he, hk⟩ := chg_pri_exact h (show getTcbSelf 1 s = .ok 0 from rfl)
    (by rw [hst]; decide) (by rw [hst]; decide)
    (show ValidPri smallConfig 3 from Or.inr (by decide))
  exact ⟨s, s', he, hsched, hk.mpr hst⟩

/-- A task that waits for a semaphore gets another priority: it leaves the queue of the semaphore,
and is selected to run while it waits. -/
theorem waiting_selected : ∃ (tr : Trace smallConfig) (s s' : Kernel smallConfig),
    RunOf SoundCall tr s ∧ exec (.chgPri 1 2) s = .ok (s', .er .ok) ∧
      (s.core.tcb 0).state = .wai ∧ waiters (.sem 0) s = [0] ∧ (s'.core.tcb 0).state = .wai ∧
      waiters (.sem 0) s' = [] ∧ s'.schedtsk = .qnode 0 ∧ ¬ KeepsPlace 1 0 s s' := by
  obtain ⟨tr, s, h, hst, hq, hx⟩ := exists_runOf (C := SoundCall)
    (Q := fun _ s => (s.core.tcb 0).state = .wai ∧ waiters (.sem 0) s = [0] ∧
      (exec (.chgPri 1 2) s).toOption.any fun v => v.2 = .er .ok ∧
        (v.1.core.tcb 0).state = .wai ∧ waiters (.sem 0) v.1 = [] ∧ v.1.schedtsk = .qnode 0)
    ([.creSem 1 ⟨0, 0, 1⟩] ++ startTasks [1] ++ [.dispatch, .waiSem 1]) zeroed (by decide +kernel)
  obtain ⟨⟨s', r⟩, hv, hv'⟩ := (Option.any_eq_true _ _).mp hx
  obtain ⟨rfl, hst', hq', hsched⟩ := of_decide_eq_true hv'
  have he : exec (.chgPri 1 2) s = .ok (s', .er .ok) := by
    cases hx : exec (.chgPri 1 2) s with
    | error e => rw [hx] at hv; cases hv
    | ok w => rw [hx] at hv; cases hv; rfl
  refine ⟨tr, s, s', h, he, hst, hq, hst', hq', hsched, fun hk => ?_⟩
  rw [hk.schedtsk 0 hsched] at hst'
  cases hst'

end Ittrium
