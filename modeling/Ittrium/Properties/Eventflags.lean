import Ittrium.Properties.Runs
import Ittrium.Spec.Patterns
import Mathlib.Data.List.Find

/-!
# Patterns and waiting tasks

* `request` — what a task has asked for in the call that made it wait
* `set_flg_releases` — **no task waits for a pattern that is there, and setting a pattern releases
  the tasks it satisfies**, with `TA_CLR` the first one
* `single_waiter` — **`TA_WSGL` is not enforced**: one task waits at a time exactly if no other one asks
-/

namespace Ittrium

open Infra

variable {cfg : Config} {i : FlgIx cfg} {t u : TskIx cfg} {tr : Trace cfg} {s s' : Kernel cfg}
  {a a' : Spec.Model cfg} {c : Call cfg} {r : Ret cfg}

/-! ## Requests -/

/-- What a call asks an eventflag for. -/
def Spec.Call.request : Call cfg → Option (FLGPTN × MODE × VP)
  | .waiFlg _ waiptn wfmode p | .twaiFlg _ waiptn wfmode p _ | .polFlg _ waiptn wfmode p =>
    some (waiptn, wfmode, p)
  | _ => none

/-- What `t` has asked for in the call that made it wait last. -/
def request (t : TskIx cfg) : Trace cfg → Option (FLGPTN × MODE × VP)
  | [] => none
  | e :: tr =>
    if e.label.2 = .blocked ∧ e.pre.runtsk = .qnode t then Spec.Call.request e.label.1
    else request t tr

/-- The pattern is one `t` has asked for. -/
def Wanted (tr : Trace cfg) (ptn : FLGPTN) (t : TskIx cfg) : Prop :=
  ∃ w ∈ request t tr, Spec.Satisfies ptn w.1 w.2.1

instance (tr : Trace cfg) (ptn : FLGPTN) (t : TskIx cfg) : Decidable (Wanted tr ptn t) :=
  inferInstanceAs (Decidable (∃ w ∈ request t tr, Spec.Satisfies ptn w.1 w.2.1))

/-- The task in the line has kept its request, and the pattern does not satisfy it. -/
structure Pending (tr : Trace cfg) (a : Spec.Model cfg) (i : FlgIx cfg) (t : TskIx cfg)
    (waiptn : FLGPTN) (wfmode : MODE) (p : VP) : Prop where
  request : request t tr = some (waiptn, wfmode, p)
  waitinfo : (a.core.tcb t).waitinfo = .flg waiptn wfmode p
  good : Spec.GoodWait waiptn wfmode
  unsatisfied : ¬ Spec.Satisfies (a.core.flgcb i).flgptn waiptn wfmode

/-- **Nobody waits for a pattern that is there.** -/
def AllPending (tr : Trace cfg) (a : Spec.Model cfg) : Prop :=
  ∀ i, ∀ t ∈ a.queue (.waitq (.flg i)), ∃ waiptn wfmode p, Pending tr a i t waiptn wfmode p

theorem AllPending.good (h : AllPending tr a) (i : FlgIx cfg) : Spec.GoodRequests i a := by
  intro t ht
  obtain ⟨w, m, p, hp⟩ := h i t ht
  rw [hp.waitinfo]
  exact hp.good

/-- Whether a waiting task is satisfied can be told from what has happened. -/
theorem AllPending.satisfied_iff (h : AllPending tr a) (setptn : FLGPTN)
    (ht : t ∈ a.queue (.waitq (.flg i))) :
    (a.setPtn i setptn).satisfied i t = true ↔
      Wanted tr ((a.core.flgcb i).flgptn ||| setptn) t := by
  obtain ⟨w, m, p, hp⟩ := h i t ht
  have hinfo : ((a.setPtn i setptn).core.tcb t).waitinfo = .flg w m p := hp.waitinfo
  unfold Spec.Model.satisfied Wanted
  rw [hinfo, hp.request]
  refine (Spec.eventflagCond_iff _ hp.good).trans ?_
  rw [Spec.flgcb_setPtn]
  simp

/-! ## One step -/

/-- A task that goes on waiting while the pattern loses bits. -/
theorem Pending.of_same {waiptn : FLGPTN} {wfmode : MODE} {p : VP} {tr' : Trace cfg}
    (h : Pending tr a i t waiptn wfmode p) (hr : Ittrium.request t tr' = Ittrium.request t tr)
    (hw : (a'.core.tcb t).waitinfo = (a.core.tcb t).waitinfo)
    (hx : Spec.Masked (a.core.flgcb i) (a'.core.flgcb i)) :
    Pending tr' a' i t waiptn wfmode p := by
  refine ⟨hr.trans h.request, hw.trans h.waitinfo, h.good, fun hs => h.unsatisfied ?_⟩
  obtain ⟨x, hx⟩ := hx
  rw [hx] at hs
  exact hs.of_and

/-- Who is left in the line after a walk is not satisfied by the pattern that is left. -/
theorem offerAll_unsatisfied {setptn waiptn : FLGPTN} {wfmode : MODE} {p : VP}
    (h : AllPending tr a) (hst : Spec.Settled a)
    (hp : Pending tr a i t waiptn wfmode p) (hm : t ∈ a.queue (.waitq (.flg i)))
    (ht : t ∈ ((a.setPtn i setptn).offerAll i).queue (.waitq (.flg i))) :
    ¬ Spec.Satisfies (((a.setPtn i setptn).offerAll i).core.flgcb i).flgptn waiptn wfmode := by
  have hs := hst.setPtn i setptn
  have hsat : (a.setPtn i setptn).satisfied i t = true ↔
      Spec.Satisfies ((a.setPtn i setptn).core.flgcb i).flgptn waiptn wfmode := by
    rw [h.satisfied_iff setptn hm, Spec.flgcb_setPtn]
    unfold Wanted
    rw [hp.request]
    simp
  by_cases hk : ((a.setPtn i setptn).core.flgcb i).obj.objatr &&& taClr = 0
  · obtain ⟨ho, hcb⟩ := Spec.offerAll_kept hk hs
    rw [ho.queue, List.mem_filter] at ht
    rw [hcb, ← hsat]
    intro hc
    exact of_decide_eq_true ht.2 (List.mem_filter.mpr ⟨ht.1, hc⟩)
  · obtain ⟨ho, hcb⟩ := Spec.offerAll_cleared hk hs (h.good i)
    rw [hcb]
    split
    · next hnone =>
      rw [← hsat]
      exact fun hc => List.find?_eq_none.mp hnone t hm hc
    · exact Spec.not_satisfies_zero hp.good

theorem request_of_ne {e : Event (Kernel cfg) (Label cfg)}
    (h : e.label.2 = .blocked → e.pre.runtsk ≠ .qnode t) :
    Ittrium.request t (e :: tr) = Ittrium.request t tr :=
  if_neg fun he => h he.1 he.2

theorem Spec.Call.flgWait_of_wait {tmout : TMO}
    (h : Spec.Call.wait c = some (some (.flg i), tmout)) :
    ∃ w m p, Spec.Call.flgWait i c = some (w, m, p) ∧ Spec.Call.request c = some (w, m, p) := by
  have hobj := Spec.Call.obj_of_wait h
  cases c with
  | waiFlg flgid w m p => exact ⟨w, m, p, if_pos (Spec.getFlgcb_of_map hobj), rfl⟩
  | twaiFlg flgid w m p tmout => exact ⟨w, m, p, if_pos (Spec.getFlgcb_of_map hobj), rfl⟩
  | polFlg flgid w m p => exact ⟨w, m, p, if_pos (Spec.getFlgcb_of_map hobj), rfl⟩
  | _ => first | cases h | exact absurd hobj (toOption_map_ne (by simp))

/-- **Every step leaves nobody waiting for a pattern that is there.** -/
theorem AllPending.step {C : Kernel cfg → Call cfg → Prop} (h : AllPending tr a)
    (hm : Moves C s a c r s' a') : AllPending (⟨s, (c, r), s'⟩ :: tr) a' := by
  intro i t ht
  have hst := hm.pre.inv.toSettled
  have hex : t ∈ a.queue (.waitq (.flg i)) → (a.core.flgcb i).obj.state ≠ .noexs :=
    fun hmem => hst.exists_of_waitq (.flg i) t hmem
  have hgoes : t ∈ a.queue (.waitq (.flg i)) →
      Ittrium.request t (⟨s, (c, r), s'⟩ :: tr) = Ittrium.request t tr →
      (a'.core.tcb t).waitinfo = (a.core.tcb t).waitinfo →
      ∃ w m p, Pending (⟨s, (c, r), s'⟩ :: tr) a' i t w m p := by
    intro hmem hreq hinfo
    obtain ⟨w, m, p, hp⟩ := h i t hmem
    refine ⟨w, m, p, ?_⟩
    have hdel : ∀ flgid, c = .delFlg flgid → getFlgcb flgid ≠ .ok i := by
      rintro flgid rfl hi
      rw [Spec.delFlg_waitq hi hst hm.spec] at ht
      cases ht
    cases Spec.exec_flg hm.pre.inv hm.sound hm.spec (hex hmem) hdel with
    | masked hx => exact hp.of_same hreq hinfo hx
    | @set setptn hset _ =>
      obtain ⟨-, hd⟩ := Spec.exec_setFlg hset (hex hmem) hm.spec
      have ht' : t ∈ ((a.setPtn i setptn).offerAll i).queue (.waitq (.flg i)) := by
        rw [hd.queue] at ht
        exact ht
      refine ⟨hreq.trans hp.request, hinfo.trans hp.waitinfo, hp.good, ?_⟩
      rw [hd.core]
      exact offerAll_unsatisfied h hst hp hmem ht'
  have hcalm : r ≠ .blocked → Spec.Calm a a' →
      ∃ w m p, Pending (⟨s, (c, r), s'⟩ :: tr) a' i t w m p := by
    intro hr hc
    exact hgoes ((hc.sub _).subset ht) (request_of_ne fun hb => absurd hb hr)
      (hc.keep t (hc.settled.waiting_of_mem ht)).2.1.waitinfo
  cases Spec.exec_step hm.pre.inv hm.sound _ hm.spec with
  | steady hr hs => exact hcalm hr hs.toCalm
  | dispatch hr hc => exact hcalm hr hc.dispatch
  | @blocked u o tmout b hw hrun hb =>
    have hptr : s.runtsk = .qnode u := by rw [hm.pre.refines.runtsk, hrun, Refine.ptr_some]
    by_cases hu : t = u
    · subst hu
      -- the running task has asked for a pattern that is not there
      have ho : o = some (.flg i) := hb.waitObj.symm.trans (hb.settled.waitObj_of_mem ht)
      subst ho
      obtain ⟨w, m, p, hflg, hreq⟩ := Spec.Call.flgWait_of_wait hw
      have hexi : (a.core.flgcb i).obj.state ≠ .noexs := by
        have hx := hb.settled.exists_of_waitq (.flg i) t ht
        rw [hb.others.objects.objcb] at hx
        exact hx
      obtain ⟨hinfo, hg, hns⟩ := Spec.exec_waiFlg_blocked hflg hexi hm.spec hrun
      refine ⟨w, m, p, (if_pos ⟨rfl, hptr⟩).trans hreq, hinfo, hg, ?_⟩
      dsimp only
      rw [hb.others.objects.flgcb]
      exact hns
    · refine hgoes ((hb.others.mem t hu _).mp ht) (request_of_ne fun _ hq => ?_)
        (congrArg TCB.waitinfo (hb.others.tcb t hu))
      rw [hptr] at hq
      exact hu (Node.qnode.inj hq).symm

/-! ## Runs -/

/-- The tasks of `rel` have been released with the pattern `ptn`, nobody else is touched. -/
structure ReleasesWith (i : FlgIx cfg) (rel : List (TskIx cfg)) (ptn : FLGPTN) (tr : Trace cfg)
    (s s' : Kernel cfg) : Prop where
  waiters : waiters (.flg i) s' = (waiters (.flg i) s).filter fun t => t ∉ rel
  state : ∀ t ∈ rel, (s'.core.tcb t).state = .rdy ∨ (s'.core.tcb t).state = .sus
  ercd : ∀ t ∈ rel, (s'.core.tcb t).ercd = .ok
  /-- The pattern is where the task wants it. -/
  pattern : ∀ t ∈ rel, ∃ waiptn wfmode p, request t tr = some (waiptn, wfmode, p) ∧
    s'.core.flgvar p = ptn
  others : ∀ u, u ∉ rel → s'.core.tcb u = s.core.tcb u

/-- What `set_flg` and `iset_flg` do. -/
structure SetsFlg (i : FlgIx cfg) (setptn : FLGPTN) (tr : Trace cfg) (s s' : Kernel cfg) :
    Prop where
  /-- Without `TA_CLR` all tasks of the line that are satisfied are released. -/
  kept : (s.core.flgcb i).obj.objatr &&& taClr = 0 →
    ReleasesWith i
      ((waiters (.flg i) s).filter fun t => Wanted tr ((s.core.flgcb i).flgptn ||| setptn) t)
      ((s.core.flgcb i).flgptn ||| setptn) tr s s' ∧
    (s'.core.flgcb i).flgptn = (s.core.flgcb i).flgptn ||| setptn
  /-- With it the first of them is, and then the pattern is empty. -/
  cleared : (s.core.flgcb i).obj.objatr &&& taClr ≠ 0 →
    let first := (waiters (.flg i) s).find? fun t =>
      Wanted tr ((s.core.flgcb i).flgptn ||| setptn) t
    ReleasesWith i first.toList ((s.core.flgcb i).flgptn ||| setptn) tr s s' ∧
    (s'.core.flgcb i).flgptn =
      if first = none then (s.core.flgcb i).flgptn ||| setptn else 0

theorem Spec.Offered.releasesWith {setptn : FLGPTN} {rel : List (TskIx cfg)} {b : Spec.Model cfg}
    {ptn : FLGPTN} (h : Spec.Offered i rel ptn (a.setPtn i setptn) b) (hp : AllPending tr a)
    (hm : Models s a) (hm' : Models s' a') (hd : Spec.UpToDispatch b a')
    (hex : (s.core.flgcb i).obj.state ≠ .noexs) (hex' : (s'.core.flgcb i).obj.state ≠ .noexs)
    (hrel : ∀ t ∈ rel, t ∈ a.queue (.waitq (.flg i))) : ReleasesWith i rel ptn tr s s' where
  waiters := by
    rw [hm'.waiters_eq (.flg i) hex', hm.waiters_eq (.flg i) hex, hd.queue]
    exact h.queue
  state := by
    rw [hm'.refines.core, hd.core]
    exact h.state
  ercd := by
    rw [hm'.refines.core, hd.core]
    exact h.ercd
  pattern := by
    intro t ht
    obtain ⟨w, m, p, hpt⟩ := hp i t (hrel t ht)
    refine ⟨w, m, p, hpt.request, ?_⟩
    have hvar := h.pattern t ht
    rw [show ((a.setPtn i setptn).core.tcb t).waitinfo = _ from hpt.waitinfo] at hvar
    rw [hm'.refines.core, hd.core]
    exact hvar
  others := by
    intro u hu
    rw [hm'.refines.core, hm.refines.core, hd.core]
    exact h.others u hu

/-- A set pattern, in a state in which nobody waits for one that is there. -/
theorem AllPending.setsFlg {C : Kernel cfg → Call cfg → Prop} {setptn : FLGPTN}
    (h : AllPending tr a) (hm : Moves C s a c r s' a')
    (hc : Spec.Call.setPtn i c = some setptn) (hex : (s.core.flgcb i).obj.state ≠ .noexs) :
    r = .er .ok ∧ SetsFlg i setptn tr s s' := by
  have hst := hm.pre.inv.toSettled
  have hs := hst.setPtn i setptn
  have hcore := hm.pre.refines.core
  have hexa : (a.core.flgcb i).obj.state ≠ .noexs := hcore ▸ hex
  obtain ⟨hr, hd⟩ := Spec.exec_setFlg hc hexa hm.spec
  replace hd : Spec.UpToDispatch ((a.setPtn i setptn).offerAll i) a' := hd
  have hwait := hm.pre.waiters_eq (.flg i) hex
  -- the code asks each control block, the statement asks the calls of the trace
  have hwant : ∀ t ∈ a.queue (.waitq (.flg i)), (a.setPtn i setptn).satisfied i t =
      decide (Wanted tr ((a.core.flgcb i).flgptn ||| setptn) t) := fun t ht => by
    rw [Bool.eq_iff_iff, h.satisfied_iff setptn ht, decide_eq_true_iff]
  have hcb := Spec.flgcb_setPtn i setptn a
  refine ⟨hr, ⟨fun hk => ?_, fun hk => ?_⟩⟩
  -- the flag keeps its pattern: all who are satisfied leave
  · obtain ⟨ho, hflg⟩ := Spec.offerAll_kept (a := a.setPtn i setptn) (i := i)
      (by rw [hcb]; exact hcore ▸ hk) hs
    have hptn : s'.core.flgcb i =
        { a.core.flgcb i with flgptn := (a.core.flgcb i).flgptn ||| setptn } := by
      rw [hm.post.refines.core, hd.core, hflg, hcb]
    have hq : (a.queue (.waitq (.flg i))).filter ((a.setPtn i setptn).satisfied i) = _ :=
      List.filter_congr hwant
    rw [show (a.setPtn i setptn).queue = a.queue from rfl, hq, hcb] at ho
    rw [hwait, hcore]
    refine ⟨ho.releasesWith h hm.pre hm.post hd hex ?_ fun t ht => List.mem_of_mem_filter ht, ?_⟩
    · rw [hptn]; exact hexa
    · rw [hptn]
  -- the flag is cleared by the first one who leaves
  · obtain ⟨ho, hflg⟩ := Spec.offerAll_cleared (a := a.setPtn i setptn) (i := i)
      (by rw [hcb]; exact hcore ▸ hk) hs (h.good i)
    have hq : (a.queue (.waitq (.flg i))).find? ((a.setPtn i setptn).satisfied i) = _ :=
      List.find?_congr hwant
    rw [show (a.setPtn i setptn).queue = a.queue from rfl, hq, hcb] at ho hflg
    have hptn := congrFun (congrArg Core.flgcb (hm.post.refines.core.trans hd.core)) i
    rw [hflg] at hptn
    rw [hwait, hcore]
    dsimp only
    refine ⟨ho.releasesWith h hm.pre hm.post hd hex ?_ fun t ht => ?_, ?_⟩
    · rw [hptn]
      split <;> exact hexa
    · exact List.mem_of_find?_eq_some (Option.mem_toList.mp ht)
    · rw [hptn]
      split <;> rfl

theorem RunOf.allPending (h : RunOf SoundCall tr s) : ∃ a, Models s a ∧ AllPending tr a :=
  RunOf.lift (P := AllPending) (fun _ _ h => h) (fun _ _ _ ht => by cases ht)
    (fun _ _ _ _ _ _ _ hm h => h.step hm) h

/-- **No wake-up of an eventflag is lost, and a pattern is consumed once.** In every state reached
no task waits whose condition holds. A set pattern releases the tasks of the line it satisfies,
with `TA_CLR` only the first of them, and each of them finds that pattern where it wants it. -/
theorem set_flg_releases (h : RunOf SoundCall tr s)
    (hex : (s.core.flgcb i).obj.state ≠ .noexs) :
    (∀ t ∈ waiters (.flg i) s, ∃ waiptn wfmode p,
      request t tr = some (waiptn, wfmode, p) ∧ (wfmode = twfAndw ∨ wfmode = twfOrw) ∧
      ¬ Spec.Satisfies (s.core.flgcb i).flgptn waiptn wfmode) ∧
    ∀ setptn l s', StepOf SoundCall s l s' → Spec.Call.setPtn i l.1 = some setptn →
      l.2 = .er .ok ∧ SetsFlg i setptn tr s s' := by
  obtain ⟨a, hm, hp⟩ := h.allPending
  constructor
  · intro t ht
    rw [hm.waiters_eq (.flg i) hex] at ht
    obtain ⟨w, m, p, hpt⟩ := hp i t ht
    rw [hm.refines.core]
    exact ⟨w, m, p, hpt.request, hpt.good.1, hpt.unsatisfied⟩
  · intro setptn l s' hs hc
    obtain ⟨a', hmv⟩ := hm.moves (fun _ _ h => h) hs
    exact hp.setsFlg hmv hc hex

/-- Two tasks wait, and the pattern that satisfies both goes to the first one. -/
theorem set_flg_releases_first : ∃ (tr : Trace smallConfig) (s s' : Kernel smallConfig),
    waiters (.flg 0) s = [0, 1] ∧ waiters (.flg 0) s' = [1] ∧ SetsFlg 0 3 tr s s' := by
  obtain ⟨tr, s, h, hex, hq, hv⟩ := exists_runOf (C := SoundCall)
    (Q := fun _ s => (s.core.flgcb 0).obj.state ≠ .noexs ∧ waiters (.flg 0) s = [0, 1] ∧
      ((exec (.setFlg 1 3) s).toOption.any fun v => waiters (.flg 0) v.1 = [1]) = true)
    (startTasks [1, 2] ++ [.creFlg 1 ⟨taClr, 0⟩, .waiFlg 1 1 twfAndw 0, .waiFlg 1 2 twfOrw 4])
    zeroed (by decide +kernel)
  cases hx : exec (.setFlg 1 3) s with
  | error e =>
    rw [hx] at hv
    cases hv
  | ok v =>
    rw [hx] at hv
    have hs : StepOf SoundCall s (.setFlg 1 3, v.2) v.1 := ⟨trivial, hx⟩
    exact ⟨tr, s, v.1, hq, of_decide_eq_true hv, ((set_flg_releases h hex).2 3 _ _ hs rfl).2⟩

/-! ## One task at a time -/

/-- The call asks the eventflag `i` for a pattern. -/
def AsksFlg (i : FlgIx cfg) (c : Call cfg) : Prop := (Spec.Call.flgWait i c).isSome = true

instance (i : FlgIx cfg) (c : Call cfg) : Decidable (AsksFlg i c) :=
  inferInstanceAs (Decidable (_ = true))

/-- A call made while a task waits is refused, and leaves the eventflag and its line alone. -/
def RefusedInUse (i : FlgIx cfg) (e : Event (Kernel cfg) (Label cfg)) : Prop :=
  AsksFlg i e.label.1 → waiters (.flg i) e.pre ≠ [] →
    e.label.2 = .er .ilUse ∧ e.post.core.flgcb i = e.pre.core.flgcb i ∧
    waiters (.flg i) e.post = waiters (.flg i) e.pre

/-- At no time two tasks wait, and nobody joins one that waits. -/
structure SingleWaiter (i : FlgIx cfg) (tr : Trace cfg) (s : Kernel cfg) : Prop where
  now : (waiters (.flg i) s).length ≤ 1
  before : ∀ e ∈ tr, (waiters (.flg i) e.pre).length ≤ 1
  refused : ∀ e ∈ tr, RefusedInUse i e

/-- Nobody has asked while a task was waiting. -/
def NobodyAsks (i : FlgIx cfg) (tr : Trace cfg) : Prop :=
  ∀ e ∈ tr, AsksFlg i e.label.1 → waiters (.flg i) e.pre = []

instance (i : FlgIx cfg) (tr : Trace cfg) : Decidable (NobodyAsks i tr) :=
  inferInstanceAs (Decidable (∀ e ∈ tr, AsksFlg i e.label.1 → waiters (.flg i) e.pre = []))

/-- What is known of an eventflag since its creation. -/
structure FlgInv (i : FlgIx cfg) (tr : Trace cfg) (a : Spec.Model cfg) : Prop where
  existing : (a.core.flgcb i).obj.state ≠ .noexs
  notInUse : ∀ e ∈ tr, AsksFlg i e.label.1 → e.label.2 ≠ .er .ilUse
  single : NobodyAsks i tr → (a.queue (.waitq (.flg i))).length ≤ 1 ∧
    ∀ e ∈ tr, (waiters (.flg i) e.pre).length ≤ 1

theorem Spec.WaiFlg.ne_ilUse {w : FLGPTN} {m : MODE} {p : VP} {b : Spec.Model cfg}
    (h : Spec.WaiFlg i w m p a r b) : r ≠ .er .ilUse := by
  cases h <;> simp

/-- At most one task waits, if only one asks while nobody waits. -/
theorem Moves.length_le_one {C : Kernel cfg → Call cfg → Prop} (hm : Moves C s a c r s' a')
    (hle : (a.queue (.waitq (.flg i))).length ≤ 1)
    (hask : AsksFlg i c → a.queue (.waitq (.flg i)) = []) :
    (a'.queue (.waitq (.flg i))).length ≤ 1 := by
  have hcalm : Spec.Calm a a' → (a'.queue (.waitq (.flg i))).length ≤ 1 :=
    fun hc => (hc.sub (.flg i)).length_le.trans hle
  cases Spec.exec_step hm.pre.inv hm.sound _ hm.spec with
  | steady _ hs => exact hcalm hs.toCalm
  | dispatch _ hc => exact hcalm hc.dispatch
  | @blocked u o tmout b hw _ hb =>
    show (b.queue (.waitq (.flg i))).length ≤ 1
    by_cases ho : o = some (.flg i)
    · obtain ⟨w, m, p, hflg, -⟩ := Spec.Call.flgWait_of_wait (ho ▸ hw)
      rw [hb.joins _ ho, hask (by unfold AsksFlg; rw [hflg]; rfl)]
      unfold Spec.joinWaitq
      split
      · exact le_of_eq insertStable_perm.length_eq
      · simp
    · rw [hb.waitq _ ho]
      exact hle

theorem FlgInv.step {C : Kernel cfg → Call cfg → Prop} (h : FlgInv i tr a)
    (hm : Moves C s a c r s' a') (hdel : ¬ Deletes (.flg i) c) :
    FlgInv i (⟨s, (c, r), s'⟩ :: tr) a' := by
  have hcore := hm.pre.refines.core
  have hwait := hm.pre.waiters_eq (.flg i) (by rw [hcore]; exact h.existing)
  have hflg := Spec.exec_flg hm.pre.inv hm.sound hm.spec h.existing (by
    rintro flgid rfl hi
    exact hdel (by simp [Deletes, hi, Except.toOption]))
  refine ⟨by rw [hflg.obj]; exact h.existing, fun e he hask => ?_, fun hno => ?_⟩
  · rcases List.mem_cons.mp he with rfl | he
    · obtain ⟨⟨w, m, p⟩, hw⟩ := Option.isSome_iff_exists.mp hask
      obtain ⟨b, hb, -⟩ := Spec.exec_waiFlg hw h.existing hm.spec
      exact hb.ne_ilUse
    · exact h.notInUse e he hask
  · obtain ⟨hnow, hbefore⟩ := h.single fun e he => hno e (List.mem_cons_of_mem _ he)
    refine ⟨hm.length_le_one hnow fun hask => ?_, fun e he => ?_⟩
    · rw [← hwait]
      exact hno _ List.mem_cons_self hask
    · rcases List.mem_cons.mp he with rfl | he
      · rw [hwait]
        exact hnow
      · exact hbefore e he

/-- **One task waits at a time exactly if no task asks while another one waits.** `TA_WSGL` is 0, so
`__wai_flg` refuses nobody: a second task waits as well, or takes the pattern. -/
theorem single_waiter {flgid : Int} {pk : TCflg} {l : Label cfg} {s₀ s₁ : Kernel cfg}
    (hi : getFlgcb flgid = .ok i) (hl : Spec.CreatesFlg flgid pk l.1 l.2)
    (h : SinceOf SoundCall (fun _ c => ¬ Deletes (.flg i) c) s₀ l s₁ tr s) :
    SingleWaiter i tr s ↔ NobodyAsks i tr := by
  obtain ⟨a, hm, hinv⟩ := h.lift (P := FlgInv i) (fun _ _ h => h) (fun a₀ a₁ hmv => by
    obtain ⟨j, hj, hn, ha⟩ := Spec.exec_createsFlg hl hmv.spec
    obtain rfl : i = j := Except.ok.inj (hi.symm.trans hj)
    have hq : a₁.queue (.waitq (.flg i)) = [] := by
      rw [ha]
      exact hmv.pre.inv.toSettled.waitq_eq_nil (o := .flg i) hn
    refine ⟨?_, by simp, fun _ => ⟨by rw [hq]; simp, by simp⟩⟩
    rw [ha]
    simp [Spec.Model.setCore, Core.setFlgcb]) fun _ _ _ _ _ _ _ hmv h => h.step hmv hmv.call.2
  constructor
  · intro hs e he hask
    by_contra hne
    exact hinv.notInUse e he hask (hs.refused e he hask hne).1
  · intro hno
    obtain ⟨hnow, hbefore⟩ := hinv.single hno
    refine ⟨?_, hbefore, fun e he hask hne => absurd (hno e he hask) hne⟩
    rw [hm.waiters_eq (.flg i) (by rw [hm.refines.core]; exact hinv.existing)]
    exact hnow

/-- One task waits, gets its pattern, and then another one waits. -/
theorem single_waiter_one : ∃ (tr : Trace smallConfig) (s : Kernel smallConfig),
    waiters (.flg 0) s = [1] ∧ tr.length = 4 ∧ SingleWaiter 0 tr s := by
  obtain ⟨s₀, l, s₁, tr, s, h, hl, hr, hq, hlen, hno⟩ := exists_sinceOf (C := SoundCall)
    (D := fun _ c => ¬ Deletes (.flg 0) c)
    (Q := fun _ l (tr : Trace smallConfig) s => l.2 = .er .ok ∧ waiters (.flg 0) s = [1] ∧
      tr.length = 4 ∧ NobodyAsks 0 tr)
    (startTasks [2, 1]) (.creFlg 1 ⟨taWsgl, 0⟩) [.waiFlg 1 1 twfAndw 0, .isetFlg 1 1, .dispatch, .waiFlg 1 2 twfAndw 0]
    zeroed (by decide +kernel)
  exact ⟨tr, s, hq, hlen,
    (single_waiter (show getFlgcb 1 = .ok 0 from rfl) (Or.inl ⟨hl, hr⟩) h).mpr hno⟩

/-- An eventflag with `TA_WSGL` lets two tasks wait. -/
theorem single_waiter_two : ∃ (l : Label smallConfig) (tr : Trace smallConfig)
    (s₀ s₁ s : Kernel smallConfig),
    SinceOf SoundCall (fun _ c => ¬ Deletes (.flg 0) c) s₀ l s₁ tr s ∧
      Spec.CreatesFlg 1 ⟨taWsgl, 0⟩ l.1 l.2 ∧ waiters (.flg 0) s = [0, 1] ∧
      ¬ SingleWaiter 0 tr s := by
  obtain ⟨s₀, l, s₁, tr, s, h, hl, hr, hq⟩ := exists_sinceOf (C := SoundCall)
    (D := fun _ c => ¬ Deletes (.flg 0) c)
    (Q := fun _ l (_ : Trace smallConfig) s => l.2 = .er .ok ∧ waiters (.flg 0) s = [0, 1])
    (startTasks [1, 2]) (.creFlg 1 ⟨taWsgl, 0⟩) [.waiFlg 1 1 twfAndw 0, .waiFlg 1 1 twfAndw 4]
    zeroed (by decide +kernel)
  refine ⟨l, tr, s₀, s₁, s, h, Or.inl ⟨hl, hr⟩, hq, fun hs => ?_⟩
  have hle := hs.now
  rw [hq] at hle
  exact absurd hle (by decide)

end Ittrium
