import Ittrium.Properties.Timeouts

/-!
# The delay asked for and the delay obtained

The argument of `dly_tsk` is an unsigned number of 32 bits, `make_wait` takes a signed one of 16.
A negative timeout other than `TMO_FEVR` is refused by `trcv_mbx` only.

* `LastsFor m c t tr s` — the wait of `t` in the call `c` ends at the tick `m` asks for
* `lastsFor_iff` — **it does if and only if that is the tick the timer runs out at**
* `delay_obtained` — **for which arguments a wait lasts as long as its caller asked for**
-/

namespace Ittrium

open Infra

variable {cfg : Config} {t u : TskIx cfg} {tr tr' : Trace cfg} {s s' : Kernel cfg}
  {a a' : Spec.Model cfg} {c c' : Call cfg} {r : Ret cfg} {n N : Nat} {k : TMO} {m : Option Nat}

/-! ## How long a wait lasts -/

/-- Whatever happens from `s` on, `tr` being the past: a wait of `t` in the call `c` never lasts
longer than `m` ticks, a tick ends it if and only if it is the `m`-th one, and without an `m` none
does. -/
def LastsFor (m : Option Nat) (c : Call cfg) (t : TskIx cfg) (tr : Trace cfg) (s : Kernel cfg) :
    Prop :=
  ∀ tr' s', Run (· = s) (StepOf SoundCall) tr' s' → ∀ n, waited t (tr' ++ tr) = some (c, n) →
    (∀ N, m = some N → n < N) ∧
    ∃ s'', StepOf SoundCall s' (.timerHandler, .none) s'' ∧
      ((s''.core.tcb t).state.waiting ↔ m ≠ some (n + 1))

theorem lastsFor_ticks (h : RunOf SoundCall tr s) (c : Call cfg) (t : TskIx cfg) :
    LastsFor (Call.ticks c) c t tr s := by
  intro tr' s' hrun n hw
  obtain ⟨a, hm, hT⟩ := RunOf.timeInv (Run.append h hrun)
  obtain ⟨s'', hs, hmv⟩ := hm.tick
  have hc := hT.clocked t c n hw
  refine ⟨fun N hN => (hc.count N hN).2.1, s'', hs, ?_⟩
  rw [hmv.post.refines.core]
  exact hc.waiting_iff hm.inv

/-- As long as its time is not up, a task waits if there are ticks only. -/
theorem exists_ticks (h : RunOf SoundCall tr s) (hw : waited t tr = some (c, 0)) :
    ∀ n, (∀ N, Call.ticks c = some N → n < N) →
      ∃ tr' s', Run (· = s) (StepOf SoundCall) tr' s' ∧ waited t (tr' ++ tr) = some (c, n)
  | 0, _ => ⟨[], s, .start rfl, hw⟩
  | n + 1, hn => by
    obtain ⟨tr', s', hrun, hw'⟩ := exists_ticks h hw n fun N hN => by
      have := hn N hN
      omega
    obtain ⟨-, s'', hs, hiff⟩ := lastsFor_ticks h c t tr' s' hrun n hw'
    refine ⟨_, s'', hrun.step hs, ?_⟩
    have hstill : (s''.core.tcb t).state.waiting := hiff.mpr fun hN => by
      have := hn _ hN
      omega
    rw [List.cons_append, waited, if_pos hstill, if_neg (by simp), hw']
    rfl

/-- **A wait lasts for the ticks asked for if and only if the timer runs out then.** -/
theorem lastsFor_iff (h : RunOf SoundCall tr s) (hw : waited t tr = some (c, 0)) :
    LastsFor m c t tr s ↔ Call.ticks c = m := by
  refine ⟨fun hl => ?_, fun he => he ▸ lastsFor_ticks h c t⟩
  -- the last tick of either reckoning tells them apart
  have hone : ∀ n, (∀ N, Call.ticks c = some N → n < N) →
      (∀ N, m = some N → n < N) ∧ (Call.ticks c = some (n + 1) ↔ m = some (n + 1)) := by
    intro n hn
    obtain ⟨tr', s', hrun, hw'⟩ := exists_ticks h hw n hn
    obtain ⟨hlt, s₁, hs₁, hiff₁⟩ := hl tr' s' hrun n hw'
    obtain ⟨-, s₂, hs₂, hiff₂⟩ := lastsFor_ticks h c t tr' s' hrun n hw'
    cases Except.ok.inj (hs₁.2.symm.trans hs₂.2)
    exact ⟨hlt, by rw [← not_iff_not, ← Ne, ← Ne, ← hiff₁, ← hiff₂]⟩
  cases hc : Call.ticks c with
  | some N =>
    have hN := (ticks_le hc).1
    have hlast := (hone (N - 1) fun N' hN' => by rw [hc] at hN'; cases hN'; omega).2
    rw [show N - 1 + 1 = N by omega, hc] at hlast
    exact (hlast.mp rfl).symm
  | none =>
    cases m with
    | none => rfl
    | some N =>
      have hN : 0 < N := (hone 0 fun N' hN' => by rw [hc] at hN'; cases hN').1 N rfl
      have hlast := (hone (N - 1) fun N' hN' => by rw [hc] at hN'; cases hN').2
      rw [show N - 1 + 1 = N by omega, hc] at hlast
      exact absurd (hlast.mpr rfl) (by simp)

/-! ## What the caller asks for -/

/-- The ticks the caller asks for, without a number for ever. A delay of zero ticks is over at
the next one at the latest. -/
def Call.asked : Call cfg → Option Nat
  | .dlyTsk dlytim => some (max dlytim.toNat 1)
  | .twaiSem _ tmout | .twaiFlg _ _ _ _ tmout | .tslpTsk tmout =>
    if tmout = tmoFevr then none else some tmout.toInt.toNat
  | _ => none

/-- The call names no object of its table. -/
def Call.badId : Call cfg → Bool
  | .twaiSem semid _ => badSemid cfg semid
  | .twaiFlg flgid _ _ _ _ => badFlgid cfg flgid
  | _ => false

/-- `r` is the result of the call `c` of the task `t`, and a wait lasts as long as was asked for.
As in `trcv_mbx`, only a bad ID is refused before a bad timeout is. -/
def Obtains (c : Call cfg) (r : Ret cfg) (t : TskIx cfg) (tr : Trace cfg) (s : Kernel cfg) : Prop :=
  match c with
  | .dlyTsk _ => r = .blocked ∧ LastsFor (Call.asked c) c t tr s
  | .twaiSem _ tmout | .twaiFlg _ _ _ _ tmout | .tslpTsk tmout =>
    if tmout.toInt < tmoFevr.toInt then r = .er .par ∨ (Call.badId c ∧ r = .er .id)
    else r = .blocked → LastsFor (Call.asked c) c t tr s
  | _ => True

/-- The arguments for which it is so. -/
def DelayOk : Call cfg → Prop
  | .dlyTsk dlytim =>
    (1 ≤ dlytim.toNat ∧ dlytim.toNat ≤ 0x7fff) ∨
    (0xffff8000 ≤ dlytim.toNat ∧ dlytim.toNat ≤ 0xfffffffe)
  | .twaiSem semid tmout => tmoFevr.toInt ≤ tmout.toInt ∨ badSemid cfg semid
  | .twaiFlg flgid waiptn wfmode _ tmout =>
    tmoFevr.toInt ≤ tmout.toInt ∨ badFlgid cfg flgid ∨ ¬ Spec.GoodWait waiptn wfmode
  | .tslpTsk tmout => tmoFevr.toInt ≤ tmout.toInt
  | _ => True

/-! ## Arguments -/

/-- **A delay of 32 bits comes back unchanged from 16 bits in a short interval at either end.** -/
theorem expiry_setWidth (d : RELTIM) :
    expiry (d.setWidth 16) = some (max d.toNat 1) ↔
      (1 ≤ d.toNat ∧ d.toNat ≤ 0x7fff) ∨ (0xffff8000 ≤ d.toNat ∧ d.toNat ≤ 0xfffffffe) := by
  have hd := d.isLt
  have hk : (d.setWidth 16).toNat = d.toNat % 65536 := BitVec.toNat_setWidth ..
  have hmsb : (d.setWidth 16).msb = decide (32768 ≤ d.toNat % 65536) := by
    rw [BitVec.msb_eq_decide, hk]
  have hext : ((d.setWidth 16).signExtend 32).toNat =
      d.toNat % 65536 + if 32768 ≤ d.toNat % 65536 then 4294901760 else 0 := by
    rw [BitVec.toNat_signExtend, hmsb, BitVec.toNat_setWidth, hk]
    simp only [decide_eq_true_eq]
    split <;> omega
  have hf : d.setWidth 16 = tmoFevr ↔ d.toNat % 65536 = 65535 := by
    rw [← BitVec.toNat_inj, hk]
    rfl
  have h0 : d.setWidth 16 = 0 ↔ d.toNat % 65536 = 0 := by
    rw [← BitVec.toNat_inj, hk]
    rfl
  unfold expiry
  rw [hext]
  simp only [hf, h0]
  split
  · simp only [reduceCtorEq, false_iff]
    omega
  · rw [Option.some.injEq]
    split
    · omega
    · split <;> omega

theorem waiSem_par {semid : Int} {tmout : TMO} :
    Ensures (_waiSem semid tmout s) fun v =>
      (v.2 = .er .par ∨ (badSemid cfg semid ∧ v.2 = .er .id)) ↔ badSemid cfg semid := by
  unfold _waiSem
  refine .ite (fun hb => .ok (by simp [hb])) fun hb => .bind' fun i _ => ?_
  refine .ite (fun _ => .ok (by simp [hb])) fun _ => .bind' fun t _ => ?_
  refine .ite (fun _ => .ok (by simp [hb])) fun _ => ?_
  exact .ite (fun _ => .bind' fun _ _ => .ok (by simp [hb])) fun _ => .ok (by simp [hb])

theorem waiFlg_par {flgid : Int} {waiptn : FLGPTN} {wfmode : MODE} {p : VP} {tmout : TMO} :
    Ensures (_waiFlg flgid waiptn wfmode p tmout s) fun v =>
      (v.2 = .er .par ∨ (badFlgid cfg flgid ∧ v.2 = .er .id)) ↔
        badFlgid cfg flgid ∨ ¬ Spec.GoodWait waiptn wfmode := by
  have hgood : ((wfmode ≠ twfAndw ∧ wfmode ≠ twfOrw) ∨ 0 = waiptn) ↔
      ¬ Spec.GoodWait waiptn wfmode := by
    unfold Spec.GoodWait
    rw [not_and_or, not_or, not_not, eq_comm (a := waiptn)]
  unfold _waiFlg
  refine .ite (fun hb => .ok (by simp [hb])) fun hb => ?_
  refine .ite (fun hg => .ok (by simp [hgood.mp hg])) fun hg => ?_
  have hg := not_not.mp (mt hgood.mpr hg)
  refine .bind' fun i _ => .bind' fun t _ => .ite (fun _ => .ok (by simp [hb, hg])) fun _ => ?_
  refine .ite (fun _ => .ok (by simp [hb, hg])) fun _ => ?_
  refine .ite (fun _ => .ok (by simp [hb, hg])) fun _ => ?_
  exact .ite (fun _ => .bind' fun _ _ => .ok (by simp [hb, hg])) fun _ => .ok (by simp [hb, hg])

theorem slpTsk_par {tmout : TMO} : Ensures (_slpTsk tmout s) fun v => v.2 ≠ .er .par := by
  unfold _slpTsk
  refine .bind' fun t _ => .ite (fun _ => .ok (by simp)) fun _ => ?_
  exact .ite (fun _ => .ok (by simp)) fun _ => .ok (by simp)

/-! ## Calls -/

/-- A task has begun to wait in the call. -/
theorem waited_of_blocked (h : RunOf SoundCall tr s) (hs : StepOf SoundCall s (c, .blocked) s')
    (ht : s.runtsk = .qnode t) :
    waited t (⟨s, (c, .blocked), s'⟩ :: tr) = some (c, 0) ∧
      (∃ k, Call.timeout c = some k ∧ (k = tmoPol → ∃ d, c = .dlyTsk d)) := by
  obtain ⟨a, a', hm⟩ := RunOf.moves (fun _ _ h => h) h hs
  obtain ⟨v, o, k, b, hwait, hv, hb, rfl⟩ := Spec.exec_blocks hm.pre.inv hm.sound hm.spec
  obtain rfl : t = v := by
    rw [hm.pre.refines.runtsk, hv, Refine.ptr_some] at ht
    exact (Node.qnode.inj ht).symm
  have hw : (s'.core.tcb t).state.waiting := by
    rw [hm.post.refines.core]
    show (b.core.tcb t).state.waiting
    rw [hb.wait]
    rfl
  refine ⟨by rw [waited, if_pos hw, if_pos ⟨rfl, ht⟩], k, by rw [Call.timeout, hwait]; rfl, ?_⟩
  intro hk
  by_contra hd
  have hpol := (Spec.exec_blocked hwait hm.spec).1 hk
  rw [waitErcd_of_ne fun d he => hd ⟨d, he⟩] at hpol
  cases hpol

/-- A wait with a timeout that is not negative, or without one. -/
theorem lastsFor_timeout (h : RunOf SoundCall tr s) (hs : StepOf SoundCall s (c, r) s')
    (ht : s.runtsk = .qnode t) (hd : ∀ d, c ≠ .dlyTsk d)
    (hk : ∀ k', Call.timeout c = some k' → k' = k)
    (hc : Call.asked c = if k = tmoFevr then none else some k.toInt.toNat)
    (hge : tmoFevr.toInt ≤ k.toInt) (hr : r = .blocked) :
    LastsFor (Call.asked c) c t (⟨s, (c, r), s'⟩ :: tr) s' := by
  subst hr
  obtain ⟨hw, k', hk', hpol⟩ := waited_of_blocked h hs ht
  obtain rfl := hk k' hk'
  refine (lastsFor_iff (h.step hs) hw).mpr ?_
  rw [hc, Call.ticks, hk', Option.bind_some]
  split
  · next hf => rw [hf]; rfl
  · next hf =>
    refine expiry_of_pos ?_
    have h₁ : k'.toInt ≠ tmoFevr.toInt := fun he => hf (BitVec.toInt_inj.mp he)
    have h₂ : k'.toInt ≠ tmoPol.toInt := fun he => by
      obtain ⟨d, rfl⟩ := hpol (BitVec.toInt_inj.mp he)
      exact hd d rfl
    have h₃ : tmoFevr.toInt = -1 := rfl
    have h₄ : tmoPol.toInt = 0 := rfl
    omega

theorem timeout_twai {κ : Type} {f : κ → ObjId cfg} {x : Exec κ} {k k' : TMO}
    (h : (x.toOption.map fun i => (some (f i), k)).map Prod.snd = some k') : k' = k := by
  simp only [Option.map_map, Option.map_eq_some_iff] at h
  obtain ⟨i, -, rfl⟩ := h
  rfl

/-- **A wait lasts as long as was asked for if and only if the argument is in the range the code
treats as its caller does.** -/
theorem delay_obtained (h : RunOf SoundCall tr s) (hs : StepOf SoundCall s (c, r) s')
    (ht : s.runtsk = .qnode t) :
    Obtains c r t (⟨s, (c, r), s'⟩ :: tr) s' ↔ DelayOk c := by
  cases c with
  -- a delay of 0 lasts one tick all the same
  | dlyTsk d =>
    have hr : Ensures (dlyTsk d s) fun v => v.2 = .blocked := by
      unfold dlyTsk
      exact .bind' fun t _ => .ok rfl
    obtain rfl : r = .blocked := hr _ hs.2
    have hw := (waited_of_blocked h hs ht).1
    show _ ∧ LastsFor (some (max d.toNat 1)) _ _ _ _ ↔ _
    rw [lastsFor_iff (h.step hs) hw]
    exact (and_iff_right rfl).trans (expiry_setWidth d)
  -- below `TMO_FEVR` a timeout should be refused, and is not
  | twaiSem semid k =>
    show (if _ then _ else _) ↔ _ ∨ _
    split
    · next hlt =>
      rw [or_iff_right (not_le.mpr hlt)]
      exact waiSem_par _ hs.2
    · next hlt =>
      refine iff_of_true ?_ (Or.inl (not_lt.mp hlt))
      exact lastsFor_timeout h hs ht (by simp) (fun _ h => timeout_twai h) rfl (not_lt.mp hlt)
  | twaiFlg flgid waiptn wfmode p k =>
    show (if _ then _ else _) ↔ _ ∨ _
    split
    · next hlt =>
      rw [or_iff_right (not_le.mpr hlt)]
      exact waiFlg_par _ hs.2
    · next hlt =>
      refine iff_of_true ?_ (Or.inl (not_lt.mp hlt))
      exact lastsFor_timeout h hs ht (by simp) (fun _ h => timeout_twai h) rfl (not_lt.mp hlt)
  | tslpTsk k =>
    show (if _ then _ else _) ↔ tmoFevr.toInt ≤ k.toInt
    split
    · next hlt =>
      refine iff_of_false ?_ (not_le.mpr hlt)
      rintro (hr | ⟨hb, -⟩)
      · exact slpTsk_par _ hs.2 hr
      · cases hb
    · next hlt =>
      refine iff_of_true ?_ (not_lt.mp hlt)
      exact lastsFor_timeout h hs ht (by simp) (fun _ h => (Option.some.inj h).symm) rfl
        (not_lt.mp hlt)
  | _ => exact Iff.rfl

/-- A delay of two ticks lasts two ticks. -/
theorem delay_obtained_two : ∃ (tr : Trace smallConfig) (s s' : Kernel smallConfig),
    RunOf SoundCall tr s ∧ StepOf SoundCall s (.dlyTsk 2, .blocked) s' ∧
      LastsFor (some 2) (.dlyTsk 2) 0 (⟨s, (.dlyTsk 2, .blocked), s'⟩ :: tr) s' := by
  obtain ⟨tr, s, h, hr⟩ := exists_runOf (C := SoundCall) (Q := fun _ s => s.runtsk = .qnode 0)
    (startTasks [1]) zeroed (by decide +kernel)
  obtain ⟨s', hx⟩ : ∃ s', exec (.dlyTsk 2) s = .ok (s', .blocked) := by
    have hrun : runTcb s = .ok 0 := by rw [runTcb, hr]; rfl
    exact ⟨_, show dlyTsk 2 s = _ by rw [dlyTsk, hrun]; rfl⟩
  have hs : StepOf SoundCall s (.dlyTsk 2, .blocked) s' := ⟨trivial, hx⟩
  exact ⟨tr, s, s', h, hs, ((delay_obtained h hs hr).mpr (Or.inl (by decide))).2⟩

/-- A task delayed by no ticks still waits after the next one, and one that sleeps with a timeout
of -2 waits. -/
theorem delay_of_zero :
    (∃ (tr : Trace smallConfig) (s : Kernel smallConfig), RunOf SoundCall tr s ∧
      waited 0 tr = some (.dlyTsk 0, 1) ∧ (s.core.tcb 0).state = .wai) ∧
    ∃ (tr : Trace smallConfig) (s : Kernel smallConfig), RunOf SoundCall tr s ∧
      waited 0 tr = some (.tslpTsk (-2), 0) ∧ (s.core.tcb 0).state = .wai := by
  constructor
  · exact exists_runOf (C := SoundCall)
      (Q := fun tr s => waited 0 tr = some (.dlyTsk 0, 1) ∧ (s.core.tcb 0).state = .wai)
      (startTasks [1] ++ [.dlyTsk 0, .timerHandler]) zeroed (by decide +kernel)
  · exact exists_runOf (C := SoundCall)
      (Q := fun tr s => waited 0 tr = some (.tslpTsk (-2), 0) ∧ (s.core.tcb 0).state = .wai)
      (startTasks [1] ++ [.tslpTsk (-2)]) zeroed (by decide +kernel)

end Ittrium
