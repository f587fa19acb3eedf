import Ittrium.Properties.Eventflags
import Ittrium.Drv.Console
import Ittrium.Drv.VirtioRx

/-!
# The drivers' eventflags are the kernel's

The drivers use `iset_flg`, and `twai_flg` with `TWF_ORW`. The console and `gem_net.c` have created
their eventflags with `TA_TFIFO | TA_CLR | TA_WMUL`, `virtio_net.c` has with `TA_TPRI | TA_WMUL`, and
uses `clr_flg`.

* `flagOf` — a kernel eventflag as `Flag`
* `kernel_setFlg`, `kernel_waiFlg` — **the calls are `Flag.set`, `Flag.wai` and `Flag.block`**
* `kernel_setFlg_kept`, `kernel_waiFlg_kept`, `kernel_clrFlg` — the same without `TA_CLR`
-/

namespace Ittrium.Drv

open Infra

variable {cfg : Config} {C : Kernel cfg → Call cfg → Prop} {s s' : Kernel cfg}
  {a a' b : Spec.Model cfg} {c : Call cfg} {r : Ittrium.Ret cfg} {i : FlgIx cfg} {t : TskIx cfg}
  {setptn waiptn : FLGPTN}

/-- A kernel eventflag: its pattern, and the tasks on the ring of its queue with what each waits
for. -/
def flagOf (i : FlgIx cfg) (s : Kernel cfg) : Flag (TskIx cfg) where
  flgptn := (s.core.flgcb i).flgptn
  waitq := (waiters (.flg i) s).map fun t => (t, (s.core.tcb t).waitinfo.waiptn)

/-- The same of a model. -/
def flagIn (i : FlgIx cfg) (a : Spec.Model cfg) : Flag (TskIx cfg) where
  flgptn := (a.core.flgcb i).flgptn
  waitq := (a.queue (.waitq (.flg i))).map fun t => (t, (a.core.tcb t).waitinfo.waiptn)

theorem flagOf_eq (h : Models s a) (hs : (s.core.flgcb i).obj.state ≠ .noexs) :
    flagOf i s = flagIn i a := by
  unfold flagOf flagIn
  rw [h.waiters_eq (.flg i) hs, h.refines.core]

/-- All that wait do so with `TWF_ORW`. -/
def AnyBit (i : FlgIx cfg) (a : Spec.Model cfg) : Prop :=
  ∀ t ∈ a.queue (.waitq (.flg i)), (a.core.tcb t).waitinfo.wfmode = twfOrw ∧
    (a.core.tcb t).waitinfo.waiptn ≠ 0

theorem AnyBit.good (h : AnyBit i a) : Spec.GoodRequests i a :=
  fun t ht => ⟨Or.inr (h t ht).1, fun h0 => (h t ht).2 h0⟩

theorem AnyBit.satisfied (h : AnyBit i a) (ht : t ∈ a.queue (.waitq (.flg i))) :
    a.satisfied i t =
      Flag.satisfied (a.core.flgcb i).flgptn (t, (a.core.tcb t).waitinfo.waiptn) := by
  unfold Spec.Model.satisfied Flag.satisfied eventflagCond
  dsimp only
  rw [(h t ht).1, if_pos (by decide)]

/-- **The walk of `_set_flg`.** -/
theorem offerAll_walk (hs : Spec.Settled a) (hk : (a.core.flgcb i).obj.objatr &&& taClr ≠ 0)
    (h : AnyBit i a) :
    (flagIn i (a.offerAll i)).waitq = (Flag.walk (flagIn i a).waitq (flagIn i a).flgptn).2.2 ∧
    (flagIn i (a.offerAll i)).flgptn = (Flag.walk (flagIn i a).waitq (flagIn i a).flgptn).2.1 ∧
    ∀ t ∈ (Flag.walk (flagIn i a).waitq (flagIn i a).flgptn).1,
      ((a.offerAll i).core.tcb t).state = .rdy ∨ ((a.offerAll i).core.tcb t).state = .sus := by
  obtain ⟨ho, hcb⟩ := Spec.offerAll_cleared hk hs h.good
  have hfind : ((flagIn i a).waitq.find? (Flag.satisfied (flagIn i a).flgptn)) =
      ((a.queue (.waitq (.flg i))).find? (a.satisfied i)).map
        fun t => (t, (a.core.tcb t).waitinfo.waiptn) := by
    unfold flagIn
    rw [List.find?_map]
    congr 1
    exact List.find?_congr fun t ht => (h.satisfied ht).symm
  -- who is left has kept its request
  have hleft : (flagIn i (a.offerAll i)).waitq =
      ((a.queue (.waitq (.flg i))).filter fun t =>
        t ∉ ((a.queue (.waitq (.flg i))).find? (a.satisfied i)).toList).map
        fun t => (t, (a.core.tcb t).waitinfo.waiptn) := by
    unfold flagIn
    dsimp only
    rw [ho.queue]
    refine List.map_congr_left fun t ht => ?_
    rw [ho.others t (of_decide_eq_true (List.mem_filter.mp ht).2)]
  have hptn : (flagIn i (a.offerAll i)).flgptn =
      if (a.queue (.waitq (.flg i))).find? (a.satisfied i) = none then (flagIn i a).flgptn
      else 0 := by
    unfold flagIn
    dsimp only
    rw [hcb]
    split <;> rfl
  rw [hleft, hptn]
  rcases Flag.walk_cases (flagIn i a).flgptn (flagIn i a).waitq with
    ⟨hnone, -, hwalk⟩ | ⟨l₁, w, l₂, hsome, hq, hwalk⟩
  · rw [hnone] at hfind
    have hnil := Option.map_eq_none_iff.mp hfind.symm
    rw [hwalk, hnil, if_pos rfl]
    refine ⟨?_, rfl, by simp⟩
    simp only [Option.toList_none, List.not_mem_nil, not_false_eq_true, decide_true]
    rw [List.filter_eq_self.mpr fun _ _ => rfl]
    rfl
  · rw [hsome] at hfind
    obtain ⟨t, ht, rfl⟩ := Option.map_eq_some_iff.mp hfind.symm
    rw [hwalk, ht, if_neg (by simp)]
    refine ⟨?_, rfl, fun u hu => ?_⟩
    · obtain ⟨q₁, q₂', hqa, rfl, hq₂⟩ :=
        List.map_eq_append_iff.mp (show (a.queue _).map _ = _ from hq)
      obtain ⟨u, q₂, rfl, hu, rfl⟩ := List.map_eq_cons_iff.mp hq₂
      obtain rfl : u = t := congrArg Prod.fst hu
      have hnd := hs.nodup (.waitq (.flg i))
      rw [hqa, List.nodup_middle, List.nodup_cons, List.mem_append, not_or] at hnd
      rw [hqa, List.filter_append, List.filter_cons_of_neg (by simp), ← List.map_append]
      congr 1
      congr 1
      · refine List.filter_eq_self.mpr fun x hx => ?_
        have hne : x ≠ u := fun he => hnd.1.1 (he ▸ hx)
        simpa using hne
      · refine List.filter_eq_self.mpr fun x hx => ?_
        have hne : x ≠ u := fun he => hnd.1.2 (he ▸ hx)
        simpa using hne
    · rw [List.mem_singleton] at hu
      subst hu
      exact ho.state u (by rw [ht]; simp)

/-! ## Calls -/

theorem AnyBit.of_core {a₀ : Spec.Model cfg} (h : AnyBit i a₀) (hq : a.queue = a₀.queue)
    (ht : a.core.tcb = a₀.core.tcb) : AnyBit i a := by
  unfold AnyBit
  rw [hq, ht]
  exact h

/-- A pattern is set first, and then offered to each of the tasks that wait. -/
theorem setFlg_flag (hm : Moves C s a c r s' a') (hc : Spec.Call.setPtn i c = some setptn)
    (hs : (s.core.flgcb i).obj.state ≠ .noexs) :
    r = .er .ok ∧ flagOf i s' = flagIn i ((a.setPtn i setptn).offerAll i) ∧
      s'.core = ((a.setPtn i setptn).offerAll i).core := by
  have hcore := hm.pre.refines.core
  obtain ⟨hr, hd⟩ := Spec.exec_setFlg hc (hcore ▸ hs) hm.spec
  replace hd : Spec.UpToDispatch ((a.setPtn i setptn).offerAll i) a' := hd
  have hpost : (s'.core.flgcb i).obj.state ≠ .noexs := by
    rw [hm.post.refines.core, hd.core, Spec.offerAll_obj, Spec.flgcb_setPtn i setptn a, ← hcore]
    exact hs
  refine ⟨hr, ?_, hm.post.refines.core.trans hd.core⟩
  rw [flagOf_eq hm.post hpost]
  unfold flagIn
  rw [hd.core, hd.queue]

theorem flagIn_setPtn (i : FlgIx cfg) (setptn : FLGPTN) (a : Spec.Model cfg) :
    flagIn i (a.setPtn i setptn) = ⟨(flagIn i a).flgptn ||| setptn, (flagIn i a).waitq⟩ := by
  unfold flagIn
  rw [Spec.flgcb_setPtn i setptn a]
  rfl

/-- **A pattern is set.** -/
theorem kernel_setFlg (hm : Moves C s a c r s' a') (hc : Spec.Call.setPtn i c = some setptn)
    (hs : (s.core.flgcb i).obj.state ≠ .noexs)
    (hclr : (s.core.flgcb i).obj.objatr &&& taClr ≠ 0) (h : AnyBit i a) :
    r = .er .ok ∧ flagOf i s' = ((flagOf i s).set setptn).2 ∧
      ∀ t ∈ ((flagOf i s).set setptn).1,
        (s'.core.tcb t).state = .rdy ∨ (s'.core.tcb t).state = .sus := by
  obtain ⟨hr, hflag, hcore⟩ := setFlg_flag hm hc hs
  have hst := hm.pre.inv.toSettled.setPtn i setptn
  have hbit : AnyBit i (a.setPtn i setptn) := h.of_core rfl rfl
  obtain ⟨hq, hp, hrel⟩ := offerAll_walk hst
    (by rw [Spec.flgcb_setPtn i setptn a, ← hm.pre.refines.core]; exact hclr) hbit
  rw [flagIn_setPtn] at hq hp hrel
  rw [hflag, flagOf_eq hm.pre hs, hcore, Flag.set]
  exact ⟨hr, congrArg₂ Flag.mk hp hq, hrel⟩

/-- **A pattern is set in an eventflag without `TA_CLR`.** -/
theorem kernel_setFlg_kept (hm : Moves C s a c r s' a')
    (hc : Spec.Call.setPtn i c = some setptn) (hs : (s.core.flgcb i).obj.state ≠ .noexs)
    (hclr : (s.core.flgcb i).obj.objatr &&& taClr = 0) (h : AnyBit i a) :
    r = .er .ok ∧ flagOf i s' = ((flagOf i s).setKept setptn).2 ∧
      ∀ t ∈ ((flagOf i s).setKept setptn).1,
        (s'.core.tcb t).state = .rdy ∨ (s'.core.tcb t).state = .sus := by
  obtain ⟨hr, hflag, hcore⟩ := setFlg_flag hm hc hs
  have hst := hm.pre.inv.toSettled.setPtn i setptn
  have hbit : AnyBit i (a.setPtn i setptn) := h.of_core rfl rfl
  obtain ⟨ho, hcb⟩ := Spec.offerAll_kept
    (by rw [Spec.flgcb_setPtn i setptn a, ← hm.pre.refines.core]; exact hclr) hst
  have hsat : ∀ t ∈ (a.setPtn i setptn).queue (.waitq (.flg i)),
      (a.setPtn i setptn).satisfied i t =
        decide (((flagIn i a).flgptn ||| setptn) &&& (a.core.tcb t).waitinfo.waiptn ≠ 0) := by
    intro t ht
    rw [hbit.satisfied ht, Spec.flgcb_setPtn i setptn a]
    rfl
  rw [hflag, flagOf_eq hm.pre hs, hcore]
  refine ⟨hr, ?_, fun t ht => ho.state t ?_⟩
  · -- who is not satisfied stays in the line, with the same request
    unfold Flag.setKept
    dsimp only
    refine congrArg₂ Flag.mk ?_ ?_
    · rw [hcb, Spec.flgcb_setPtn i setptn a]
      rfl
    · rw [ho.queue]
      unfold flagIn
      dsimp only
      rw [List.filter_map]
      have hkept : ∀ t ∈ a.queue (.waitq (.flg i)),
          (decide (t ∉ (a.queue (.waitq (.flg i))).filter ((a.setPtn i setptn).satisfied i))) =
            ((fun w : TskIx cfg × FLGPTN =>
              decide (((a.core.flgcb i).flgptn ||| setptn) &&& w.2 = 0)) ∘
              fun t => (t, (a.core.tcb t).waitinfo.waiptn)) t := by
        intro t ht
        have hiff := hsat t ht
        rw [Function.comp_apply, decide_eq_decide, List.mem_filter, hiff, decide_eq_true_iff]
        show ¬ (t ∈ _ ∧ ((a.core.flgcb i).flgptn ||| setptn) &&& _ ≠ 0) ↔ _
        tauto
      rw [← List.filter_congr hkept]
      refine List.map_congr_left fun t ht => ?_
      rw [ho.others t (of_decide_eq_true (List.mem_filter.mp ht).2)]
      rfl
  · obtain ⟨w, hw, rfl⟩ := List.mem_map.mp ht
    obtain ⟨hw, hne⟩ := List.mem_filter.mp hw
    obtain ⟨u, hu, rfl⟩ := List.mem_map.mp hw
    exact List.mem_filter.mpr ⟨hu, (hsat u hu).trans hne⟩

theorem setTcb_ercd_waitinfo (t u : TskIx cfg) (e : ER) (a : Spec.Model cfg) :
    ((a.setTcb t fun tcb => { tcb with ercd := e }).core.tcb u).waitinfo =
      (a.core.tcb u).waitinfo := by
  by_cases hu : u = t
  · subst hu
    rw [Spec.Model.setTcb_tcb_self]
  · rw [Spec.Model.setTcb_tcb_of_ne hu]

/-- A task begins to wait in arrival order, or where nobody waits. -/
theorem flagIn_blocked {p : VP} {tmout : TMO} (h : Spec.Settled a)
    (hB : Spec.Blocked t (some (.flg i)) tmout a b)
    (hlast : (a.core.objcb (.flg i)).objatr &&& taTpri = 0 ∨ (flagIn i a).waitq = [])
    (hinfo : (b.core.tcb t).waitinfo = .flg waiptn twfOrw p) :
    flagIn i b = (flagIn i a).block t waiptn := by
  have hcb : b.core.flgcb i = a.core.flgcb i := congrFun hB.others.objects.flgcb i
  have hq : b.queue (.waitq (.flg i)) = a.queue (.waitq (.flg i)) ++ [t] := by
    rw [hB.joins _ rfl]
    unfold Spec.joinWaitq
    rcases hlast with hfifo | hnil
    · rw [if_neg (not_not.mpr hfifo)]
    · rw [List.map_eq_nil_iff.mp hnil]
      split <;> rfl
  -- the caller was ready, so it is none of those that wait
  have hkept : ∀ u ∈ a.queue (.waitq (.flg i)),
      (b.core.tcb u).waitinfo = (a.core.tcb u).waitinfo := by
    intro u hu
    have hne : u ≠ t := by
      rintro rfl
      exact hB.not_mem h hu
    rw [hB.others.tcb u hne]
  unfold flagIn Flag.block
  rw [hcb, hq, List.map_append, List.map_congr_left fun u hu => by rw [hkept u hu],
    List.map_singleton, hinfo]
  rfl

/-- A wait: the pattern is there, or it is not and the caller goes on or is put last. -/
theorem waiFlg_flag {p : VP} (hm : Moves C s a c r s' a')
    (hc : Spec.Call.flgWait i c = some (waiptn, twfOrw, p)) (hne : waiptn ≠ 0)
    (hs : (s.core.flgcb i).obj.state ≠ .noexs)
    (hlast : (s.core.flgcb i).obj.objatr &&& taTpri = 0 ∨ (flagOf i s).waitq = []) :
    (r = .er .ok ∧ (flagOf i s).flgptn &&& waiptn ≠ 0 ∧
      flagOf i s' = ⟨(clearFlgptn (s.core.flgcb i)).flgptn, (flagOf i s).waitq⟩) ∨
    (r = .er .tmout ∧ (flagOf i s).flgptn &&& waiptn = 0 ∧ flagOf i s' = flagOf i s) ∨
    (r = .blocked ∧ (flagOf i s).flgptn &&& waiptn = 0 ∧
      ∃ t, s.runtsk = .qnode t ∧ flagOf i s' = (flagOf i s).block t waiptn) := by
  have hcore := hm.pre.refines.core
  have hs' : (a.core.flgcb i).obj.state ≠ .noexs := hcore ▸ hs
  have hgood : Spec.GoodWait waiptn twfOrw := ⟨Or.inr rfl, hne⟩
  -- in the mode `twfOrw` one common bit is enough
  have hcond : eventflagCond (a.core.flgcb i) waiptn twfOrw = true ↔
      (flagIn i a).flgptn &&& waiptn ≠ 0 := by
    unfold eventflagCond
    rw [if_pos (by decide)]
    exact decide_eq_true_iff
  obtain ⟨b, hb, hd⟩ := Spec.exec_waiFlg hc hs' hm.spec
  rw [flagOf_eq hm.pre hs] at hlast ⊢
  rw [hcore] at hlast
  cases hb with
  | refused hbad => exact absurd hgood hbad
  | @satisfied t _ hrun hsat =>
    left
    have hcb : a'.core.flgcb i = clearFlgptn (a.core.flgcb i) := by
      rw [hd.core]
      exact Spec.flgcb_setFlgcb ..
    have hpost : (s'.core.flgcb i).obj.state ≠ .noexs := by
      rw [hm.post.refines.core, hcb, Spec.clearFlgptn_obj]
      exact hs'
    refine ⟨rfl, hcond.mp hsat, ?_⟩
    rw [flagOf_eq hm.post hpost, hcore]
    unfold flagIn
    dsimp only
    rw [hcb, hd.queue]
    congr 1
    refine List.map_congr_left fun u _ => ?_
    rw [hd.core]
    exact congrArg (fun w => (u, WaitInfo.waiptn w)) (setTcb_ercd_waitinfo t u .ok a)
  | @failed t _ hrun hsat =>
    right; left
    have hcb : a'.core.flgcb i = a.core.flgcb i := by
      rw [hd.core]
      rfl
    have hpost : (s'.core.flgcb i).obj.state ≠ .noexs := by
      rw [hm.post.refines.core, hcb]
      exact hs'
    have hno : (flagIn i a).flgptn &&& waiptn = 0 := by
      rw [← not_ne_iff, ← hcond, hsat]
      decide
    refine ⟨rfl, hno, ?_⟩
    rw [flagOf_eq hm.post hpost]
    unfold flagIn
    rw [hcb, hd.queue]
    congr 1
    refine List.map_congr_left fun u _ => ?_
    rw [hd.core]
    exact congrArg (fun w => (u, WaitInfo.waiptn w)) (setTcb_ercd_waitinfo t u .tmout a)
  | @blocked t tmout _ hrun hsat =>
    right; right
    obtain ⟨u, o, tmout', b, hw, hrun', hB, rfl⟩ := Spec.exec_blocks hm.pre.inv hm.sound hm.spec
    -- only the three calls that wait for a pattern block their caller at the flag
    obtain rfl : o = some (.flg i) := by
      have hget : ∀ {flgid : Int} {w : FLGPTN} {m : MODE} {q : VP},
          (if getFlgcb flgid = .ok i then some (w, m, q) else none) = some (waiptn, twfOrw, p) →
          getFlgcb flgid = .ok i := by
        intro flgid w m q h
        split at h
        · assumption
        · cases h
      cases c with
      | waiFlg flgid _ _ _ | twaiFlg flgid _ _ _ _ | polFlg flgid _ _ _ =>
        have hgot : getFlgcb flgid = .ok i := hget hc
        rw [Spec.Call.wait, hgot] at hw
        exact (Prod.mk.inj (Option.some.inj hw)).1.symm
      | _ => cases hc
    obtain ⟨hinfo, -, -⟩ := Spec.exec_waiFlg_blocked hc hs' hm.spec hrun'
    have hcb : b.core.flgcb i = a.core.flgcb i := congrFun hB.others.objects.flgcb i
    have hpost : (s'.core.flgcb i).obj.state ≠ .noexs := by
      rw [hm.post.refines.core]
      show (b.core.flgcb i).obj.state ≠ .noexs
      rw [hcb]
      exact hs'
    have hno : (flagIn i a).flgptn &&& waiptn = 0 := by
      rw [← not_ne_iff, ← hcond, hsat]
      decide
    refine ⟨rfl, hno, u, by rw [hm.pre.refines.runtsk, hrun']; rfl, ?_⟩
    rw [flagOf_eq hm.post hpost]
    have hblock := flagIn_blocked hm.pre.inv.toSettled hB hlast hinfo
    exact hblock

/-- **A wait**: the pattern is there and is cleared, or it is not and the caller goes on or is put
last. -/
theorem kernel_waiFlg {p : VP} (hm : Moves C s a c r s' a')
    (hc : Spec.Call.flgWait i c = some (waiptn, twfOrw, p)) (hne : waiptn ≠ 0)
    (hs : (s.core.flgcb i).obj.state ≠ .noexs)
    (hclr : (s.core.flgcb i).obj.objatr &&& taClr ≠ 0)
    (hfifo : (s.core.flgcb i).obj.objatr &&& taTpri = 0) :
    (r = .er .ok ∧ (flagOf i s).wai waiptn = some (flagOf i s')) ∨
    (r = .er .tmout ∧ (flagOf i s).wai waiptn = none ∧ flagOf i s' = flagOf i s) ∨
    (r = .blocked ∧ (flagOf i s).wai waiptn = none ∧
      ∃ t, s.runtsk = .qnode t ∧ flagOf i s' = (flagOf i s).block t waiptn) := by
  unfold Flag.wai
  rcases waiFlg_flag hm hc hne hs (Or.inl hfifo) with ⟨hr, hp, hf⟩ | ⟨hr, hp, hf⟩ | ⟨hr, hp, hf⟩
  · rw [Spec.clearFlgptn_cleared hclr] at hf
    rw [if_pos hp, hf]
    exact Or.inl ⟨hr, rfl⟩
  · rw [if_neg (not_not.mpr hp)]
    exact Or.inr (Or.inl ⟨hr, rfl, hf⟩)
  · rw [if_neg (not_not.mpr hp)]
    exact Or.inr (Or.inr ⟨hr, rfl, hf⟩)

/-- **A wait for an eventflag without `TA_CLR`, where nobody waits.** -/
theorem kernel_waiFlg_kept {p : VP} (hm : Moves C s a c r s' a')
    (hc : Spec.Call.flgWait i c = some (waiptn, twfOrw, p)) (hne : waiptn ≠ 0)
    (hs : (s.core.flgcb i).obj.state ≠ .noexs)
    (hclr : (s.core.flgcb i).obj.objatr &&& taClr = 0) (hnil : (flagOf i s).waitq = []) :
    (r = .er .ok ∧ (flagOf i s).waiKept waiptn = some (flagOf i s')) ∨
    (r = .er .tmout ∧ (flagOf i s).waiKept waiptn = none ∧ flagOf i s' = flagOf i s) ∨
    (r = .blocked ∧ (flagOf i s).waiKept waiptn = none ∧
      ∃ t, s.runtsk = .qnode t ∧ flagOf i s' = (flagOf i s).block t waiptn) := by
  unfold Flag.waiKept
  rcases waiFlg_flag hm hc hne hs (Or.inr hnil) with ⟨hr, hp, hf⟩ | ⟨hr, hp, hf⟩ | ⟨hr, hp, hf⟩
  · rw [Spec.clearFlgptn_kept hclr] at hf
    rw [if_pos hp, hf]
    exact Or.inl ⟨hr, rfl⟩
  · rw [if_neg (not_not.mpr hp)]
    exact Or.inr (Or.inl ⟨hr, rfl, hf⟩)
  · rw [if_neg (not_not.mpr hp)]
    exact Or.inr (Or.inr ⟨hr, rfl, hf⟩)

/-- **`clr_flg`.** -/
theorem kernel_clrFlg {flgid : Int} {clrptn : FLGPTN}
    (hm : Moves C s a (.clrFlg flgid clrptn) r s' a') (hi : getFlgcb flgid = .ok i)
    (hs : (s.core.flgcb i).obj.state ≠ .noexs) :
    r = .er .ok ∧ flagOf i s' = (flagOf i s).clr clrptn := by
  have hcore := hm.pre.refines.core
  have hcb := Spec.flgcb_setFlgcb a.core i fun cb => { cb with flgptn := cb.flgptn &&& clrptn }
  have hex : Ensures (Spec.clrFlg flgid clrptn a) fun v => v.2 = .er .ok ∧
      v.1.core.flgcb i = { a.core.flgcb i with flgptn := (a.core.flgcb i).flgptn &&& clrptn } ∧
      v.1.core.tcb = a.core.tcb ∧ v.1.queue = a.queue := by
    unfold Spec.clrFlg
    rw [Spec.badFlgid_of_ok hi, hi]
    refine .ite (fun hf => absurd hf (by simp)) fun _ => .bind' fun j hj => ?_
    obtain rfl := Except.ok.inj hj
    exact .ite (fun hn => absurd hn (hcore ▸ hs)) fun _ => .ok ⟨rfl, hcb, rfl, rfl⟩
  obtain ⟨hr, hflg, htcb, hq⟩ := hex _ hm.spec
  have hpost : (s'.core.flgcb i).obj.state ≠ .noexs := by
    rw [hm.post.refines.core, hflg, ← hcore]
    exact hs
  rw [flagOf_eq hm.pre hs, flagOf_eq hm.post hpost]
  refine ⟨hr, ?_⟩
  unfold flagIn Flag.clr
  rw [hflg, htcb, hq]

end Ittrium.Drv
