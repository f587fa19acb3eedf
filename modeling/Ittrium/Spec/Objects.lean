import Ittrium.Spec.Departures

/-!
# What the calls on an existing object do

For each of them the ways it can go, with the condition, the result and the state of each. The
calls named like those of the kernel and the ones that dispatch as well differ in the running task
only, so the state is given before that choice.

* `SigSem`, `WaiSem` — signals and waits of a semaphore
* `WaiFlg` — waits of an eventflag
* `SndMbx`, `RcvMbx` — sending and receiving
-/

namespace Ittrium.Spec

open Infra

variable {cfg : Config} {a a' b : Model cfg} {t u : TskIx cfg} {c : Call cfg} {r : Ret cfg}

/-- The state a call leaves, before and after the task to run is chosen. -/
def UpToDispatch (b a' : Model cfg) : Prop := a' = b ∨ a' = b.dispatch

theorem UpToDispatch.core (h : UpToDispatch b a') : a'.core = b.core := by
  rcases h with rfl | rfl <;> rfl

theorem UpToDispatch.queue (h : UpToDispatch b a') : a'.queue = b.queue := by
  rcases h with rfl | rfl <;> rfl

theorem dispatchAll_ok {x : Outcome cfg} (h : dispatchAll x = .ok (a', r)) :
    ∃ b, x = .ok (b, r) ∧ UpToDispatch b a' := by
  cases x with
  | error e => cases h
  | ok v =>
    obtain ⟨b, r'⟩ := v
    cases h
    exact ⟨b, rfl, Or.inr rfl⟩

/-! ## Semaphores -/

theorem badSemid_of_ok {semid : Int} {i : SemIx cfg} (h : getSemcb semid = .ok i) :
    badSemid cfg semid = false := by
  obtain ⟨-, h₁, h₂⟩ := id_of_entryOf h
  have h₃ : semid ≤ cfg.tmaxSemid + cfg.trsvSemid := by
    unfold Config.tnumSemid at h₂
    omega
  simp [badSemid, h₁, h₃]

/-- The ways a signal goes. -/
inductive SigSem (i : SemIx cfg) (a : Model cfg) : Ret cfg → Model cfg → Prop where
  | served {t : TskIx cfg} {ts : List (TskIx cfg)} :
      a.queue (.waitq (.sem i)) = t :: ts → SigSem i a (.er .ok) (a.release t .ok)
  | counted : a.queue (.waitq (.sem i)) = [] → (a.core.semcb i).semcnt < (a.core.semcb i).maxsem →
      SigSem i a (.er .ok)
        (a.setCore (Core.setSemcb i fun cb => { cb with semcnt := cb.semcnt + 1 }))
  | full : a.queue (.waitq (.sem i)) = [] →
      (a.core.semcb i).semcnt ≥ (a.core.semcb i).maxsem → SigSem i a (.er .qovr) a

/-- The calls that signal the semaphore `i`. -/
def Signals (i : SemIx cfg) : Call cfg → Prop
  | .sigSem semid | .isigSem semid => getSemcb semid = .ok i
  | _ => False

theorem sigSem_cases {semid : Int} {i : SemIx cfg} (hi : getSemcb semid = .ok i)
    (hs : (a.core.semcb i).obj.state ≠ .noexs) :
    Ensures (_sigSem semid a) fun v => SigSem i a v.2 v.1 := by
  unfold _sigSem
  rw [badSemid_of_ok hi, hi]
  refine .ite (fun hf => absurd hf (by simp)) fun _ => .bind' fun j hj => ?_
  obtain rfl := Except.ok.inj hj
  refine .ite (fun hn => absurd hn hs) fun _ => ?_
  split
  · next hq => exact .ok (.served hq)
  · next hq =>
    exact .ite (fun hfull => .ok (.full hq hfull)) fun hfull => .ok (.counted hq (not_le.mp hfull))

/-- **What a signal does.** -/
theorem exec_sigSem {i : SemIx cfg} (hc : Signals i c) (hs : (a.core.semcb i).obj.state ≠ .noexs)
    (he : exec c a = .ok (a', r)) : ∃ b, SigSem i a r b ∧ UpToDispatch b a' := by
  cases c with
  | sigSem semid =>
    obtain ⟨b, hb, hd⟩ := dispatchAll_ok he
    exact ⟨b, sigSem_cases hc hs _ hb, hd⟩
  | isigSem semid => exact ⟨a', sigSem_cases hc hs _ he, Or.inl rfl⟩
  | _ => exact hc.elim

/-- The ways a wait for a semaphore goes. -/
inductive WaiSem (i : SemIx cfg) (a : Model cfg) : Ret cfg → Model cfg → Prop where
  | obtained {t : TskIx cfg} : a.runtsk = some t → 0 < (a.core.semcb i).semcnt →
      WaiSem i a (.er .ok)
        ((a.setCore (Core.setSemcb i fun cb => { cb with semcnt := cb.semcnt - 1 })).setTcb t
          fun tcb => { tcb with ercd := .ok })
  | failed {t : TskIx cfg} : a.runtsk = some t → ¬ 0 < (a.core.semcb i).semcnt →
      WaiSem i a (.er .tmout) (a.setTcb t fun tcb => { tcb with ercd := .tmout })
  | blocked {t : TskIx cfg} {tmout : TMO} : a.runtsk = some t → ¬ 0 < (a.core.semcb i).semcnt →
      WaiSem i a .blocked
        ((a.setTcb t fun tcb => { tcb with ercd := .tmout }).objWait t (.sem i) tmout)

/-- The calls that wait for the semaphore `i` or ask for it. -/
def Requests (i : SemIx cfg) : Call cfg → Prop
  | .waiSem semid | .twaiSem semid _ | .polSem semid => getSemcb semid = .ok i
  | _ => False

theorem waiSem_cases {semid : Int} {tmout : TMO} {i : SemIx cfg} (hi : getSemcb semid = .ok i)
    (hs : (a.core.semcb i).obj.state ≠ .noexs) :
    Ensures (_waiSem semid tmout a) fun v => ∃ b, WaiSem i a v.2 b ∧ UpToDispatch b v.1 := by
  unfold _waiSem
  rw [badSemid_of_ok hi, hi]
  refine .ite (fun hf => absurd hf (by simp)) fun _ => .bind' fun j hj => ?_
  obtain rfl := Except.ok.inj hj
  refine .ite (fun hn => absurd hn hs) fun _ => .bind' fun t ht => ?_
  have hr := runTcb_eq ht
  refine .ite (fun hcnt => .ok ⟨_, .obtained hr hcnt, Or.inr rfl⟩) fun hcnt => ?_
  exact .ite (fun _ => .ok ⟨_, .blocked hr hcnt, Or.inr rfl⟩)
    fun _ => .ok ⟨_, .failed hr hcnt, Or.inr rfl⟩

/-- **What a wait for a semaphore does.** -/
theorem exec_waiSem {i : SemIx cfg} (hc : Requests i c)
    (hs : (a.core.semcb i).obj.state ≠ .noexs) (he : exec c a = .ok (a', r)) :
    ∃ b, WaiSem i a r b ∧ UpToDispatch b a' := by
  cases c with
  | waiSem semid => exact waiSem_cases hc hs _ he
  | twaiSem semid tmout => exact waiSem_cases hc hs _ he
  | polSem semid => exact waiSem_cases hc hs _ he
  | _ => exact hc.elim

/-- A semaphore has been created under an ID. -/
def SemCreated (semid : Int) (pk : TCsem) (a a' : Model cfg) : Prop :=
  ∃ i, getSemcb semid = .ok i ∧ (a.core.semcb i).obj.state = .noexs ∧ pk.isemcnt.toNat ≤ cfg.tmaxMaxsem ∧
    a' = { a with
      freeSem := a.freeSem.erase i
      core := a.core.setSemcb i fun _ =>
        { obj := { objatr := pk.sematr, state := .rdy }
          semcnt := pk.isemcnt.toInt
          maxsem := pk.maxsem.toInt } }

theorem creSem_cases {semid : Int} {pk : TCsem} :
    Ensures (_creSem semid pk a) fun v =>
      (v.1 = a ∧ ∃ e, e ≠ .ok ∧ v.2 = .er e) ∨ (v.2 = .er .ok ∧ SemCreated semid pk a v.1) := by
  unfold _creSem
  refine .ite (fun _ => .ok (Or.inl ⟨rfl, _, by simp, rfl⟩)) fun _ => ?_
  refine .ite (fun _ => .ok (Or.inl ⟨rfl, _, by simp, rfl⟩)) fun hpar => ?_
  refine .bind' fun i hi => .ite (fun _ => .ok (Or.inl ⟨rfl, _, by simp, rfl⟩)) fun hs => ?_
  exact .ok (Or.inr ⟨rfl, i, hi, not_not.mp hs, by omega, rfl⟩)

theorem creSem_er {semid : Int} {pk : TCsem} :
    Ensures (_creSem semid pk a) fun v => ∃ e, v.2 = .er e :=
  creSem_cases.mono fun _ hv => hv.elim (fun h => h.2.imp fun _ h => h.2) fun h => ⟨_, h.1⟩

theorem creSem_created {semid : Int} {pk : TCsem} :
    Ensures (_creSem semid pk a) fun v => v.2 = .er .ok → SemCreated semid pk a v.1 := by
  refine creSem_cases.mono fun v hv hr => ?_
  rcases hv with ⟨-, e, he, hr'⟩ | ⟨-, hc⟩
  · rw [hr'] at hr
    exact absurd (Ret.er.inj hr) he
  · exact hc

/-- Both counts have been checked against `TMAX_MAXSEM`. -/
theorem creSem_maxsem {semid : Int} {pk : TCsem} :
    Ensures (_creSem semid pk a) fun v => v.2 = .er .ok →
      pk.isemcnt.toNat ≤ cfg.tmaxMaxsem ∧ pk.maxsem.toNat ≤ cfg.tmaxMaxsem := by
  unfold _creSem
  refine .ite (fun _ => .ok fun h => by cases h) fun _ => ?_
  refine .ite (fun _ => .ok fun h => by cases h) fun hpar => ?_
  intro v _ _
  omega

/-- What `_cre_sem` does when it succeeds, `acre_sem` does for the ID it assigns. -/
theorem acreSemLoop_newId {pk : TCsem} {P : Int → Model cfg → Prop}
    (h : ∀ k, Ensures (_creSem k pk a) fun v => v.2 = .er .ok → P k v.1) : ∀ (n : Nat) (k : Int),
    Ensures (acreSemLoop pk a n k) fun v => ∀ id, v.2 = .newId id → P id v.1
  | 0, _ => .ok fun _ h => by cases h
  | n + 1, k => by
    unfold acreSemLoop
    refine .bind' fun i _ => .ite (fun _ => ?_) fun _ => acreSemLoop_newId h n (k + 1)
    refine .bind (((h k).and creSem_er).mono fun v hv => .ok fun id hid => ?_)
    obtain ⟨hv, e, hr⟩ := hv
    dsimp only at hid
    split at hid
    · next hok =>
      obtain rfl : k = id := by simpa using hid
      exact hv hok
    · rw [hr] at hid
      cases hid

/-- A step that has created a semaphore: the ID, the packet and the result. -/
def CreatesSem (semid : Int) (pk : TCsem) (c : Call cfg) (r : Ret cfg) : Prop :=
  (c = .creSem semid pk ∧ r = .er .ok) ∨ (c = .acreSem pk ∧ r = .newId semid)

theorem CreatesSem.lift {semid : Int} {pk : TCsem} {P : Int → Model cfg → Prop}
    (hc : CreatesSem semid pk c r) (he : exec c a = .ok (a', r))
    (h : ∀ k, Ensures (_creSem k pk a) fun v => v.2 = .er .ok → P k v.1) : P semid a' := by
  rcases hc with ⟨rfl, rfl⟩ | ⟨rfl, rfl⟩
  · have h' : Ensures (creSem semid pk a) fun v => v.2 = .er .ok → P semid v.1 :=
      .ite (fun _ => .ok fun h => by cases h) fun _ => h semid
    exact h' _ he rfl
  · exact acreSemLoop_newId h _ _ _ he _ rfl

theorem exec_createsSem {semid : Int} {pk : TCsem} (hc : CreatesSem semid pk c r)
    (he : exec c a = .ok (a', r)) : SemCreated semid pk a a' :=
  hc.lift he fun _ => creSem_created

theorem exec_createsSem_maxsem {semid : Int} {pk : TCsem} (hc : CreatesSem semid pk c r)
    (he : exec c a = .ok (a', r)) :
    pk.isemcnt.toNat ≤ cfg.tmaxMaxsem ∧ pk.maxsem.toNat ≤ cfg.tmaxMaxsem :=
  hc.lift (P := fun _ _ => _) he fun _ => creSem_maxsem

/-- Creating one that exists is refused. -/
theorem exec_creSem_exists {semid : Int} {pk : TCsem} {i : SemIx cfg}
    (hi : getSemcb semid = .ok i) (hs : (a.core.semcb i).obj.state ≠ .noexs)
    (he : exec (.creSem semid pk) a = .ok (a', r)) : a' = a ∧ r ≠ .er .ok := by
  have h : Ensures (creSem semid pk a) fun v => v.1 = a ∧ v.2 ≠ .er .ok := by
    refine .ite (fun _ => .ok ⟨rfl, by simp⟩) fun _ => creSem_cases.mono fun v hv => ?_
    rcases hv with ⟨ha, e, he, hr⟩ | ⟨-, j, hj, hn, -⟩
    · rw [hr]
      exact ⟨ha, fun hr => he (Ret.er.inj hr)⟩
    · obtain rfl : i = j := Except.ok.inj (hi.symm.trans hj)
      exact absurd hn hs
  exact h _ he

/-- Looking at a semaphore changes nothing. -/
theorem exec_refSem {semid : Int} (he : exec (.refSem semid) a = .ok (a', r)) : a' = a := by
  have h : Ensures (refSem semid a) fun v => v.1 = a := by
    refine .ite (fun _ => .ok rfl) fun _ => .bind' fun i _ => ?_
    exact .ite (fun _ => .ok rfl) fun _ => .ok rfl
  exact h _ he

/-! ## Eventflags -/

theorem badFlgid_of_ok {flgid : Int} {i : FlgIx cfg} (h : getFlgcb flgid = .ok i) :
    badFlgid cfg flgid = false := by
  obtain ⟨-, h₁, h₂⟩ := id_of_entryOf h
  have h₃ : flgid ≤ cfg.tmaxFlgid + cfg.trsvFlgid := by
    unfold Config.tnumFlgid at h₂
    omega
  simp [badFlgid, h₁, h₃]

/-- Arguments `wai_flg` and its variants accept. -/
def GoodWait (waiptn : FLGPTN) (wfmode : MODE) : Prop :=
  (wfmode = twfAndw ∨ wfmode = twfOrw) ∧ waiptn ≠ 0

/-- The ways a wait for an eventflag goes. `TA_WSGL` is 0, so no attribute has it. -/
inductive WaiFlg (i : FlgIx cfg) (waiptn : FLGPTN) (wfmode : MODE) (p : VP) (a : Model cfg) :
    Ret cfg → Model cfg → Prop where
  | refused : ¬ GoodWait waiptn wfmode → WaiFlg i waiptn wfmode p a (.er .par) a
  | satisfied {t : TskIx cfg} : GoodWait waiptn wfmode → a.runtsk = some t →
      eventflagCond (a.core.flgcb i) waiptn wfmode = true →
      WaiFlg i waiptn wfmode p a (.er .ok)
        (((a.setTcb t fun tcb => { tcb with ercd := .ok }).setCore fun c =>
          { c with flgvar := Function.update c.flgvar p (c.flgcb i).flgptn }).setCore
            (Core.setFlgcb i clearFlgptn))
  | failed {t : TskIx cfg} : GoodWait waiptn wfmode → a.runtsk = some t →
      eventflagCond (a.core.flgcb i) waiptn wfmode = false →
      WaiFlg i waiptn wfmode p a (.er .tmout) (a.setTcb t fun tcb => { tcb with ercd := .tmout })
  | blocked {t : TskIx cfg} {tmout : TMO} : GoodWait waiptn wfmode → a.runtsk = some t →
      eventflagCond (a.core.flgcb i) waiptn wfmode = false →
      WaiFlg i waiptn wfmode p a .blocked
        (((a.setTcb t fun tcb => { tcb with ercd := .tmout }).setTcb t fun tcb =>
          { tcb with waitinfo := .flg waiptn wfmode p }).objWait t (.flg i) tmout)

/-- The arguments of a call that waits for the eventflag `i` or asks for it. -/
def Call.flgWait (i : FlgIx cfg) : Call cfg → Option (FLGPTN × MODE × VP)
  | .waiFlg flgid waiptn wfmode p | .twaiFlg flgid waiptn wfmode p _
  | .polFlg flgid waiptn wfmode p =>
    if getFlgcb flgid = .ok i then some (waiptn, wfmode, p) else none
  | _ => none

theorem waiFlg_cases {flgid : Int} {waiptn : FLGPTN} {wfmode : MODE} {p : VP} {tmout : TMO}
    {i : FlgIx cfg} (hi : getFlgcb flgid = .ok i) (hs : (a.core.flgcb i).obj.state ≠ .noexs) :
    Ensures (_waiFlg flgid waiptn wfmode p tmout a) fun v =>
      ∃ b, WaiFlg i waiptn wfmode p a v.2 b ∧ UpToDispatch b v.1 := by
  unfold _waiFlg
  rw [badFlgid_of_ok hi, hi]
  refine .ite (fun hf => absurd hf (by simp)) fun _ => ?_
  refine .ite (fun hp => .ok ⟨a, .refused ?_, Or.inl rfl⟩) fun hp => .bind' fun j hj => ?_
  · rintro ⟨h₁, h₂⟩
    rcases hp with ⟨h₃, h₄⟩ | h₃
    · exact h₁.elim h₃ h₄
    · exact h₂ h₃.symm
  obtain rfl := Except.ok.inj hj
  have hgood : GoodWait waiptn wfmode := by
    refine ⟨?_, fun h => hp (Or.inr h.symm)⟩
    by_contra hm
    exact hp (Or.inl ⟨fun h => hm (Or.inl h), fun h => hm (Or.inr h)⟩)
  refine .bind' fun t ht => .ite (fun hn => absurd hn hs) fun _ => ?_
  have hr := runTcb_eq ht
  refine .ite (fun hw => absurd BitVec.and_zero hw.1) fun _ => ?_
  refine .ite (fun hcond => .ok ⟨_, .satisfied hgood hr hcond, Or.inl rfl⟩) fun hcond => ?_
  have hcond := Bool.eq_false_iff.mpr hcond
  exact .ite (fun _ => .ok ⟨_, .blocked hgood hr hcond, Or.inr rfl⟩)
    fun _ => .ok ⟨_, .failed hgood hr hcond, Or.inl rfl⟩

/-- **What a wait for an eventflag does.** -/
theorem exec_waiFlg {i : FlgIx cfg} {waiptn : FLGPTN} {wfmode : MODE} {p : VP}
    (hc : Call.flgWait i c = some (waiptn, wfmode, p))
    (hs : (a.core.flgcb i).obj.state ≠ .noexs) (he : exec c a = .ok (a', r)) :
    ∃ b, WaiFlg i waiptn wfmode p a r b ∧ UpToDispatch b a' := by
  have harg : ∀ {flgid : Int} {w : FLGPTN} {m : MODE} {q : VP},
      (if getFlgcb flgid = .ok i then some (w, m, q) else none) = some (waiptn, wfmode, p) →
      getFlgcb flgid = .ok i ∧ w = waiptn ∧ m = wfmode ∧ q = p := by
    intro flgid w m q h
    split at h
    · next hi => simpa [hi] using h
    · cases h
  cases c with
  | waiFlg flgid w m q =>
    obtain ⟨hi, rfl, rfl, rfl⟩ := harg hc
    exact waiFlg_cases hi hs _ he
  | twaiFlg flgid w m q tmout =>
    obtain ⟨hi, rfl, rfl, rfl⟩ := harg hc
    exact waiFlg_cases hi hs _ he
  | polFlg flgid w m q =>
    obtain ⟨hi, rfl, rfl, rfl⟩ := harg hc
    exact waiFlg_cases hi hs _ he
  | _ => cases hc

/-- The pattern a call sets in the eventflag `i`. -/
def Call.setPtn (i : FlgIx cfg) : Call cfg → Option FLGPTN
  | .setFlg flgid setptn | .isetFlg flgid setptn =>
    if getFlgcb flgid = .ok i then some setptn else none
  | _ => none

/-- All tasks in the line of an eventflag are offered the pattern, the first one first. -/
def Model.offerAll (i : FlgIx cfg) (a : Model cfg) : Model cfg :=
  (a.queue (.waitq (.flg i))).foldl (fun a t => a.offer i t) a

theorem setFlg_cases {flgid : Int} {setptn : FLGPTN} {i : FlgIx cfg}
    (hi : getFlgcb flgid = .ok i) (hs : (a.core.flgcb i).obj.state ≠ .noexs) :
    Ensures (_setFlg flgid setptn a) fun v => v.2 = .er .ok ∧
      v.1 = (a.setCore (Core.setFlgcb i fun cb =>
        { cb with flgptn := cb.flgptn ||| setptn })).offerAll i := by
  unfold _setFlg
  rw [badFlgid_of_ok hi, hi]
  refine .ite (fun hf => absurd hf (by simp)) fun _ => .bind' fun j hj => ?_
  obtain rfl := Except.ok.inj hj
  exact .ite (fun hn => absurd hn hs) fun _ => .ok ⟨rfl, rfl⟩

/-- **What setting a pattern does.** -/
theorem exec_setFlg {i : FlgIx cfg} {setptn : FLGPTN} (hc : Call.setPtn i c = some setptn)
    (hs : (a.core.flgcb i).obj.state ≠ .noexs) (he : exec c a = .ok (a', r)) :
    r = .er .ok ∧ UpToDispatch ((a.setCore (Core.setFlgcb i fun cb =>
      { cb with flgptn := cb.flgptn ||| setptn })).offerAll i) a' := by
  have harg : ∀ {flgid : Int} {w : FLGPTN},
      (if getFlgcb flgid = .ok i then some w else none) = some setptn →
      getFlgcb flgid = .ok i ∧ w = setptn := by
    intro flgid w h
    split at h
    · next hi => simpa [hi] using h
    · cases h
  cases c with
  | setFlg flgid w =>
    obtain ⟨hi, rfl⟩ := harg hc
    obtain ⟨b, hb, hd⟩ := dispatchAll_ok he
    obtain ⟨hr, rfl⟩ := setFlg_cases hi hs _ hb
    exact ⟨hr, hd⟩
  | isetFlg flgid w =>
    obtain ⟨hi, rfl⟩ := harg hc
    obtain ⟨hr, rfl⟩ := setFlg_cases hi hs _ he
    exact ⟨hr, Or.inl rfl⟩
  | _ => cases hc

/-- An eventflag has been created under an ID. -/
def FlgCreated (flgid : Int) (pk : TCflg) (a a' : Model cfg) : Prop :=
  ∃ i, getFlgcb flgid = .ok i ∧ (a.core.flgcb i).obj.state = .noexs ∧
    a' = a.setCore (Core.setFlgcb i fun _ =>
      { obj := { objatr := pk.flgatr, state := .rdy }, flgptn := pk.iflgptn })

theorem creFlg_cases {flgid : Int} {pk : TCflg} :
    Ensures (_creFlg flgid pk a) fun v =>
      (v.1 = a ∧ ∃ e, e ≠ .ok ∧ v.2 = .er e) ∨ (v.2 = .er .ok ∧ FlgCreated flgid pk a v.1) := by
  unfold _creFlg
  refine .ite (fun _ => .ok (Or.inl ⟨rfl, _, by simp, rfl⟩)) fun _ => ?_
  refine .bind' fun i hi => .ite (fun _ => .ok (Or.inl ⟨rfl, _, by simp, rfl⟩)) fun hs => ?_
  exact .ok (Or.inr ⟨rfl, i, hi, not_not.mp hs, rfl⟩)

theorem acreFlgLoop_newId {pk : TCflg} : ∀ (n : Nat) (k : Int),
    Ensures (acreFlgLoop pk a n k) fun v => ∀ id, v.2 = .newId id → FlgCreated id pk a v.1
  | 0, _ => .ok fun _ h => by cases h
  | n + 1, k => by
    unfold acreFlgLoop
    refine .bind' fun i _ => .ite (fun _ => ?_) fun _ => acreFlgLoop_newId n (k + 1)
    refine .bind (creFlg_cases.mono fun v hv => .ok fun id hid => ?_)
    rcases hv with ⟨-, e, he, hr⟩ | ⟨hr, hc⟩ <;> dsimp only at hid <;> rw [hr] at hid
    · simp [he] at hid
    · obtain rfl : k = id := by simpa using hid
      exact hc

/-- A step that has created an eventflag: the ID, the packet and the result. -/
def CreatesFlg (flgid : Int) (pk : TCflg) (c : Call cfg) (r : Ret cfg) : Prop :=
  (c = .creFlg flgid pk ∧ r = .er .ok) ∨ (c = .acreFlg pk ∧ r = .newId flgid)

theorem exec_createsFlg {flgid : Int} {pk : TCflg} (hc : CreatesFlg flgid pk c r)
    (he : exec c a = .ok (a', r)) : FlgCreated flgid pk a a' := by
  rcases hc with ⟨rfl, rfl⟩ | ⟨rfl, rfl⟩
  · have h : Ensures (creFlg flgid pk a) fun v => v.2 = .er .ok → FlgCreated flgid pk a v.1 := by
      refine .ite (fun _ => .ok fun h => by cases h) fun _ => creFlg_cases.mono fun v hv hr => ?_
      rcases hv with ⟨-, e, he, hr'⟩ | ⟨-, hc⟩
      · rw [hr'] at hr
        exact absurd (Ret.er.inj hr) he
      · exact hc
    exact h _ he rfl
  · exact acreFlgLoop_newId _ _ _ he _ rfl

/-- Creating one that exists is refused. -/
theorem exec_creFlg_exists {flgid : Int} {pk : TCflg} {i : FlgIx cfg}
    (hi : getFlgcb flgid = .ok i) (hs : (a.core.flgcb i).obj.state ≠ .noexs)
    (he : exec (.creFlg flgid pk) a = .ok (a', r)) : a' = a ∧ r ≠ .er .ok := by
  have h : Ensures (creFlg flgid pk a) fun v => v.1 = a ∧ v.2 ≠ .er .ok := by
    refine .ite (fun _ => .ok ⟨rfl, by simp⟩) fun _ => creFlg_cases.mono fun v hv => ?_
    rcases hv with ⟨ha, e, he, hr⟩ | ⟨-, j, hj, hn, -⟩
    · rw [hr]
      exact ⟨ha, fun hr => he (Ret.er.inj hr)⟩
    · obtain rfl : i = j := Except.ok.inj (hi.symm.trans hj)
      exact absurd hn hs
  exact h _ he

/-- Looking at an eventflag changes nothing. -/
theorem exec_refFlg {flgid : Int} (he : exec (.refFlg flgid) a = .ok (a', r)) : a' = a := by
  have h : Ensures (refFlg flgid a) fun v => v.1 = a := by
    refine .ite (fun _ => .ok rfl) fun _ => .bind' fun i _ => ?_
    exact .ite (fun _ => .ok rfl) fun _ => .ok rfl
  exact h _ he

/-! ## Mailboxes -/

theorem badMbxid_of_ok {mbxid : Int} {i : MbxIx cfg} (h : getMbxcb mbxid = .ok i) :
    badMbxid cfg mbxid = false := by
  obtain ⟨-, h₁, h₂⟩ := id_of_entryOf h
  have h₃ : mbxid ≤ cfg.tmaxMbxid + cfg.trsvMbxid := by
    unfold Config.tnumMbxid at h₂
    omega
  simp [badMbxid, h₁, h₃]

/-- The mailbox has the attribute that makes `snd_mbx` look at priorities. -/
def ByMsgpri (c : Core cfg) (i : MbxIx cfg) : Prop := (c.mbxcb i).obj.objatr &&& taMpri ≠ 0

instance (c : Core cfg) (i : MbxIx cfg) : Decidable (ByMsgpri c i) :=
  inferInstanceAs (Decidable (_ ≠ _))

/-- The ways sending goes. -/
inductive SndMbx (i : MbxIx cfg) (m : Fin cfg.nmsg) (a : Model cfg) :
    Ret cfg → Model cfg → Prop where
  | refused : ByMsgpri a.core i → a.core.msgpri m ≤ 0 → SndMbx i m a (.er .par) a
  | handed {t : TskIx cfg} {ts : List (TskIx cfg)} :
      (ByMsgpri a.core i → 0 < a.core.msgpri m) → a.queue (.waitq (.mbx i)) = t :: ts →
      SndMbx i m a (.er .ok) (a.handOver m t)
  | queued {c : Core cfg} : (ByMsgpri a.core i → 0 < a.core.msgpri m) →
      a.queue (.waitq (.mbx i)) = [] → enqueueMsg m i a.core = .ok c →
      SndMbx i m a (.er .ok) { a with core := c }

theorem sndMbx_cases {mbxid : Int} {m : Fin cfg.nmsg} {i : MbxIx cfg}
    (hi : getMbxcb mbxid = .ok i) (hs : (a.core.mbxcb i).obj.state ≠ .noexs) :
    Ensures (_sndMbx mbxid m a) fun v => SndMbx i m a v.2 v.1 := by
  unfold _sndMbx
  rw [badMbxid_of_ok hi, hi]
  refine .ite (fun hf => absurd hf (by simp)) fun _ => .bind' fun j hj => ?_
  obtain rfl := Except.ok.inj hj
  refine .ite (fun hn => absurd hn hs) fun _ => ?_
  refine .ite (fun hp => .ok (.refused hp.1 hp.2)) fun hp => ?_
  have hpri : ByMsgpri a.core i → 0 < a.core.msgpri m :=
    fun h => not_le.mp fun hle => hp ⟨h, hle⟩
  split
  · next hq => exact .ok (.handed hpri hq)
  · next hq => exact .bind' fun c hc => .ok (.queued hpri hq hc)

/-- **What sending does.** -/
theorem exec_sndMbx {mbxid : Int} {m : Fin cfg.nmsg} {i : MbxIx cfg}
    (hi : getMbxcb mbxid = .ok i) (hs : (a.core.mbxcb i).obj.state ≠ .noexs)
    (he : exec (.sndMbx mbxid m) a = .ok (a', r)) : ∃ b, SndMbx i m a r b ∧ UpToDispatch b a' := by
  obtain ⟨b, hb, hd⟩ := dispatchAll_ok he
  exact ⟨b, sndMbx_cases hi hs _ hb, hd⟩

/-- The ways receiving goes. -/
inductive RcvMbx (i : MbxIx cfg) (p : VP) (a : Model cfg) : Ret cfg → Model cfg → Prop where
  | refused : RcvMbx i p a (.er .par) a
  | received {t : TskIx cfg} : a.runtsk = some t → headmsg i a.core ≠ .null →
      RcvMbx i p a (.er .ok)
        ((a.setTcb t fun tcb => { tcb with ercd := .ok }).setCore (dequeueMsg i p))
  | failed {t : TskIx cfg} : a.runtsk = some t → headmsg i a.core = .null →
      RcvMbx i p a (.er .tmout) (a.setTcb t fun tcb => { tcb with ercd := .tmout })
  | blocked {t : TskIx cfg} {tmout : TMO} : a.runtsk = some t → headmsg i a.core = .null →
      RcvMbx i p a .blocked
        (((a.setTcb t fun tcb => { tcb with ercd := .tmout }).setTcb t fun tcb =>
          { tcb with waitinfo := .mbx p }).objWait t (.mbx i) tmout)

/-- Where a call that receives from the mailbox `i` puts the message. -/
def Call.rcvPtr (i : MbxIx cfg) : Call cfg → Option VP
  | .rcvMbx mbxid p | .trcvMbx mbxid p _ | .prcvMbx mbxid p =>
    if getMbxcb mbxid = .ok i then some p else none
  | _ => none

theorem rcvMbx_cases {mbxid : Int} {p : VP} {tmout : TMO} {i : MbxIx cfg}
    (hi : getMbxcb mbxid = .ok i) (hs : (a.core.mbxcb i).obj.state ≠ .noexs) :
    Ensures (_rcvMbx mbxid p tmout a) fun v => ∃ b, RcvMbx i p a v.2 b ∧ UpToDispatch b v.1 := by
  unfold _rcvMbx
  rw [badMbxid_of_ok hi, hi]
  refine .ite (fun hf => absurd hf (by simp)) fun _ => ?_
  refine .ite (fun _ => .ok ⟨a, .refused, Or.inl rfl⟩) fun _ => .bind' fun j hj => ?_
  obtain rfl := Except.ok.inj hj
  refine .bind' fun t ht => .ite (fun hn => absurd hn hs) fun _ => ?_
  have hr := runTcb_eq ht
  refine .ite (fun hm => .ok ⟨_, .received hr hm, Or.inl rfl⟩) fun hm => ?_
  have hm := not_not.mp hm
  exact .ite (fun _ => .ok ⟨_, .blocked hr hm, Or.inr rfl⟩)
    fun _ => .ok ⟨_, .failed hr hm, Or.inl rfl⟩

theorem rcvMbx_tmout {mbxid : Int} {p : VP} {tmout : TMO} :
    Ensures (_rcvMbx mbxid p tmout a) fun v =>
      v.2 = .blocked → tmout ≠ tmoPol ∧ tmoFevr.toInt ≤ tmout.toInt := by
  unfold _rcvMbx
  refine .ite (fun _ => .ok fun h => by cases h) fun _ => ?_
  refine .ite (fun _ => .ok fun h => by cases h) fun hle => .bind' fun i _ => .bind' fun t _ => ?_
  refine .ite (fun _ => .ok fun h => by cases h) fun _ => ?_
  refine .ite (fun _ => .ok fun h => by cases h) fun _ => ?_
  exact .ite (fun hne => .ok fun _ => ⟨hne, not_lt.mp hle⟩) fun _ => .ok fun h => by cases h

/-- **What receiving does.** -/
theorem exec_rcvMbx {i : MbxIx cfg} {p : VP} (hc : Call.rcvPtr i c = some p)
    (hs : (a.core.mbxcb i).obj.state ≠ .noexs) (he : exec c a = .ok (a', r)) :
    ∃ b, RcvMbx i p a r b ∧ UpToDispatch b a' := by
  have harg : ∀ {mbxid : Int} {q : VP}, (if getMbxcb mbxid = .ok i then some q else none) = some p →
      getMbxcb mbxid = .ok i ∧ q = p := by
    intro mbxid q h
    split at h
    · next hi => simpa [hi] using h
    · cases h
  cases c with
  | rcvMbx mbxid q =>
    obtain ⟨hi, rfl⟩ := harg hc
    exact rcvMbx_cases hi hs _ he
  | trcvMbx mbxid q tmout =>
    obtain ⟨hi, rfl⟩ := harg hc
    exact rcvMbx_cases hi hs _ he
  | prcvMbx mbxid q =>
    obtain ⟨hi, rfl⟩ := harg hc
    exact rcvMbx_cases hi hs _ he
  | _ => cases hc

/-- A mailbox has been created under an ID. -/
def MbxCreated (mbxid : Int) (pk : TCmbx) (a a' : Model cfg) : Prop :=
  ∃ i, getMbxcb mbxid = .ok i ∧ (a.core.mbxcb i).obj.state = .noexs ∧
    a' = (a.setCore (Core.setMbxcb i fun cb =>
      { cb with obj := { objatr := pk.mbxatr, state := .rdy } })).setCore
        (setNextmsg (.mqHead i) .null)

theorem creMbx_cases {mbxid : Int} {pk : TCmbx} :
    Ensures (_creMbx mbxid pk a) fun v =>
      (v.1 = a ∧ ∃ e, e ≠ .ok ∧ v.2 = .er e) ∨ (v.2 = .er .ok ∧ MbxCreated mbxid pk a v.1) := by
  unfold _creMbx
  refine .ite (fun _ => .ok (Or.inl ⟨rfl, _, by simp, rfl⟩)) fun _ => ?_
  refine .bind' fun i hi => .ite (fun _ => .ok (Or.inl ⟨rfl, _, by simp, rfl⟩)) fun hs => ?_
  exact .ok (Or.inr ⟨rfl, i, hi, not_not.mp hs, rfl⟩)

theorem acreMbxLoop_newId {pk : TCmbx} : ∀ (n : Nat) (k : Int),
    Ensures (acreMbxLoop pk a n k) fun v => ∀ id, v.2 = .newId id → MbxCreated id pk a v.1
  | 0, _ => .ok fun _ h => by cases h
  | n + 1, k => by
    unfold acreMbxLoop
    refine .bind' fun i _ => .ite (fun _ => ?_) fun _ => acreMbxLoop_newId n (k + 1)
    refine .bind (creMbx_cases.mono fun v hv => .ok fun id hid => ?_)
    rcases hv with ⟨-, e, he, hr⟩ | ⟨hr, hc⟩ <;> dsimp only at hid <;> rw [hr] at hid
    · simp [he] at hid
    · obtain rfl : k = id := by simpa using hid
      exact hc

/-- A step that has created a mailbox: the ID, the packet and the result. -/
def CreatesMbx (mbxid : Int) (pk : TCmbx) (c : Call cfg) (r : Ret cfg) : Prop :=
  (c = .creMbx mbxid pk ∧ r = .er .ok) ∨ (c = .acreMbx pk ∧ r = .newId mbxid)

theorem exec_createsMbx {mbxid : Int} {pk : TCmbx} (hc : CreatesMbx mbxid pk c r)
    (he : exec c a = .ok (a', r)) : MbxCreated mbxid pk a a' := by
  rcases hc with ⟨rfl, rfl⟩ | ⟨rfl, rfl⟩
  · have h : Ensures (creMbx mbxid pk a) fun v => v.2 = .er .ok → MbxCreated mbxid pk a v.1 := by
      refine .ite (fun _ => .ok fun h => by cases h) fun _ => creMbx_cases.mono fun v hv hr => ?_
      rcases hv with ⟨-, e, he, hr'⟩ | ⟨-, hc⟩
      · rw [hr'] at hr
        exact absurd (Ret.er.inj hr) he
      · exact hc
    exact h _ he rfl
  · exact acreMbxLoop_newId _ _ _ he _ rfl

/-- Looking at a mailbox changes nothing. -/
theorem exec_refMbx {mbxid : Int} (he : exec (.refMbx mbxid) a = .ok (a', r)) : a' = a := by
  have h : Ensures (refMbx mbxid a) fun v => v.1 = a := by
    refine .ite (fun _ => .ok rfl) fun _ => .bind' fun i _ => ?_
    exact .ite (fun _ => .ok rfl) fun _ => .ok rfl
  exact h _ he

end Ittrium.Spec
