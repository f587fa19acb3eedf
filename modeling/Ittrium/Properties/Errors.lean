import Ittrium.Properties.Runs

/-!
# Errors

A call that returns an error has changed nothing, and no call looks outside a control block table
unless it is one of those that let negative task IDs pass.

* `Untouched s s'` — nothing but the result of the running task, and who runs, has changed
* `NegativeId` — the calls with a negative ID that is not refused
* `call_atomic` — **all others stay inside the tables and are atomic on error**
-/

namespace Ittrium

open Infra

variable {cfg : Config} {s s' s'' : Kernel cfg} {c : Call cfg} {r : Ret cfg} {t : TskIx cfg}

/-! ## What an error leaves -/

/-- No control block, queue, counter or timer entry is other than before, apart from the `ercd` of
the calling task. A pending dispatch may have been made. -/
structure Untouched (s s' : Kernel cfg) : Prop where
  core : s'.core = s.core ∨ ∃ t e, s.runtsk = .qnode t ∧
    s'.core = s.core.setTcb t fun tcb => { tcb with ercd := e }
  links : s'.links = s.links
  rdyq : s'.rdyq = s.rdyq
  schedtsk : s'.schedtsk = s.schedtsk

theorem Untouched.refl (s : Kernel cfg) : Untouched s s := ⟨Or.inl rfl, rfl, rfl, rfl⟩

theorem Untouched.dispatch (h : Untouched s s') : Untouched s (dispatch s') :=
  ⟨h.core, h.links, h.rdyq, h.schedtsk⟩

/-- The calling task notes the error. -/
theorem Untouched.setErcd (e : ER) (ht : s.runtsk = .qnode t) :
    Untouched s (s.setTcb t fun tcb => { tcb with ercd := e }) :=
  ⟨Or.inr ⟨t, e, ht, rfl⟩, rfl, rfl, rfl⟩

/-- The program accesses no table outside its bounds. -/
abbrev InTable {α : Type} (x : Exec α) (P : α → Prop) : Prop := Yields x P (· ≠ .outOfTable)

/-- Besides, if its result is an error, it has changed nothing. -/
abbrev Atomic (s : Kernel cfg) (x : Outcome cfg) : Prop :=
  InTable x fun v => ∀ e, v.2 = .er e → e ≠ .ok → Untouched s v.1

/-- The call ends with an error before it has changed anything. -/
theorem atomic_error {e : ER} (h : Untouched s s') : Atomic s (.ok (s', .er e)) :=
  .ok fun _ _ _ => h

theorem atomic_self {e : ER} : Atomic s (.ok (s, .er e)) := atomic_error (.refl s)

/-- The call does not end with an error. -/
theorem atomic_ok (hr : ∀ e, r = .er e → e = .ok) : Atomic s (.ok (s', r)) :=
  .ok fun e he hne => absurd (hr e he) hne

theorem Atomic.dispatchIfOk {x : Outcome cfg} (h : Atomic s x) : Atomic s (dispatchIfOk x) := by
  refine h.bind fun v hv => .ok fun e he hne => ?_
  dsimp only at he ⊢
  rw [if_neg (by rw [he]; simpa using hne)]
  exact hv e he hne

theorem Atomic.dispatchAll {x : Outcome cfg} (h : Atomic s x) :
    Atomic s (do let (s, r) ← x; .ok (dispatch s, r)) :=
  h.bind fun _ hv => .ok fun e he hne => (hv e he hne).dispatch

/-! ## Table accesses -/

theorem inTable_entryOf {n : Nat} {id : Int} (h₁ : 1 ≤ id) (h₂ : id ≤ n) :
    InTable (entryOf n id) fun _ => True := by
  unfold entryOf
  split
  · exact .ok trivial
  · next h => exact absurd ⟨by omega, by omega⟩ h

theorem inTable_tcbOf (x : Node cfg) : InTable (tcbOf x) fun t => x = .qnode t := by
  cases x with
  | qnode t => exact .ok rfl
  | _ => exact .fail (by decide)

theorem inTable_runTcb (s : Kernel cfg) : InTable (runTcb s) fun t => s.runtsk = .qnode t :=
  inTable_tcbOf _

theorem inTable_getTcb {tskid : Int} (h : ¬ (tskid > cfg.tmaxTskid + cfg.trsvTskid ∨ tskid < 1)) :
    InTable (getTcb tskid : Exec (TskIx cfg)) fun _ => True := by
  refine inTable_entryOf (by omega) ?_
  unfold Config.tnumTskid
  omega

/-- The IDs that pass the check are those of tasks, unless they are negative. -/
theorem inTable_getTcbSelf {tskid : Int} (h : ¬ badTskid tskid s = true) (h₀ : 0 ≤ tskid) :
    InTable (getTcbSelf tskid s) fun _ => True := by
  unfold badTskid at h
  unfold getTcbSelf
  refine .ite (fun _ => (inTable_runTcb s).mono fun _ _ => trivial) fun hself => inTable_getTcb ?_
  simp only [Bool.or_eq_true, decide_eq_true_eq, not_or] at h
  have hself : tskid ≠ 0 := hself
  omega

theorem inTable_getSemcb {semid : Int} (h : ¬ badSemid cfg semid = true) :
    InTable (getSemcb semid : Exec (SemIx cfg)) fun _ => True := by
  simp only [badSemid, Bool.or_eq_true, decide_eq_true_eq, not_or] at h
  refine inTable_entryOf (by omega) ?_
  unfold Config.tnumSemid
  omega

theorem inTable_getFlgcb {flgid : Int} (h : ¬ badFlgid cfg flgid = true) :
    InTable (getFlgcb flgid : Exec (FlgIx cfg)) fun _ => True := by
  simp only [badFlgid, Bool.or_eq_true, decide_eq_true_eq, not_or] at h
  refine inTable_entryOf (by omega) ?_
  unfold Config.tnumFlgid
  omega

theorem inTable_getMbxcb {mbxid : Int} (h : ¬ badMbxid cfg mbxid = true) :
    InTable (getMbxcb mbxid : Exec (MbxIx cfg)) fun _ => True := by
  simp only [badMbxid, Bool.or_eq_true, decide_eq_true_eq, not_or] at h
  refine inTable_entryOf (by omega) ?_
  unfold Config.tnumMbxid
  omega

/-! ## Loops -/

theorem inTable_waitDeleteLoop (waitq : Node cfg) :
    ∀ (n : Nat) (s : Kernel cfg), InTable (waitDeleteLoop waitq n s) fun _ => True
  | 0, _ => .fail (by decide)
  | n + 1, s => by
    unfold waitDeleteLoop
    exact .ite (fun _ => .ok trivial) fun _ =>
      (inTable_tcbOf _).bind fun t _ => inTable_waitDeleteLoop waitq n _

theorem inTable_waitTskid (waitq : Node cfg) (s : Kernel cfg) :
    InTable (waitTskid waitq s) fun _ => True := by
  unfold waitTskid
  exact .ite (fun _ => .ok trivial) fun _ => (inTable_tcbOf _).bind fun t _ => .ok trivial

theorem inTable_kqueueFindPriLoop (queue : Node cfg) (prio : Int) (s : Kernel cfg) :
    ∀ (n : Nat) (entry : Node cfg),
      InTable (kqueueFindPriLoop queue prio s n entry) fun _ => True
  | 0, _ => .fail (by decide)
  | n + 1, entry => by
    unfold kqueueFindPriLoop
    refine .ite (fun _ => .ok trivial) fun _ => (inTable_tcbOf _).bind fun t _ => ?_
    exact .ite (fun _ => .ok trivial) fun _ => inTable_kqueueFindPriLoop queue prio s n _

theorem inTable_objMakeWait (t : TskIx cfg) (o : ObjId cfg) (tmout : TMO) (s : Kernel cfg) :
    InTable (objMakeWait t o tmout s) fun _ => True := by
  unfold objMakeWait kqueueInsertPri kqueueFindPri
  exact .ite (fun _ => (inTable_kqueueFindPriLoop _ _ _ _ _).bind fun _ _ => .ok trivial)
    fun _ => .ok trivial

theorem inTable_setFlgLoop (i : FlgIx cfg) :
    ∀ (n : Nat) (queue : Node cfg) (s : Kernel cfg), InTable (setFlgLoop i n queue s) fun _ => True
  | 0, _, _ => .fail (by decide)
  | n + 1, queue, s => by
    unfold setFlgLoop
    refine .ite (fun _ => .ok trivial) fun _ => (inTable_tcbOf _).bind fun t _ => ?_
    exact .ite (fun _ => inTable_setFlgLoop i n _ _) fun _ => inTable_setFlgLoop i n _ _

theorem inTable_kqueueInsertMpriLoop (pri : Int) (c : Core cfg) :
    ∀ (n : Nat) (prevmsg : MsgPtr cfg),
      InTable (kqueueInsertMpriLoop pri c n prevmsg) fun _ => True
  | 0, _ => .fail (by decide)
  | n + 1, prevmsg => by
    unfold kqueueInsertMpriLoop
    split
    · exact .ok trivial
    · exact .ite (fun _ => .ok trivial) fun _ => inTable_kqueueInsertMpriLoop pri c n _
    · exact .fail (by decide)

theorem inTable_enqueueMsg (m : Fin cfg.nmsg) (i : MbxIx cfg) (c : Core cfg) :
    InTable (enqueueMsg m i c) fun _ => True := by
  unfold enqueueMsg kqueueInsertMpri
  exact .ite (fun _ => (inTable_kqueueInsertMpriLoop _ _ _ _).bind fun _ _ => .ok trivial)
    fun _ => .ok trivial

theorem inTable_runCallback (e : TMEB cfg) (s : Kernel cfg) :
    InTable (runCallback e s) fun _ => True := by
  unfold runCallback
  split
  · exact (inTable_tcbOf _).bind fun t _ => .ok trivial
  · exact .ok trivial

theorem inTable_timerLoop :
    ∀ (n : Nat) (event : Node cfg) (s : Kernel cfg), InTable (timerLoop n event s) fun _ => True
  | 0, _, _ => .fail (by decide)
  | n + 1, event, s => by
    cases event with
    | timerQueue => exact .ok trivial
    | wtmeb t =>
      unfold timerLoop
      exact .ite (fun _ => (inTable_runCallback _ _).bind fun _ _ => inTable_timerLoop n _ _)
        fun _ => inTable_timerLoop n _ _
    | _ => exact .fail (by decide)

theorem inTable_timerHandler (s : Kernel cfg) : InTable (timerHandler s) fun _ => True := by
  unfold timerHandler
  refine .ite (fun _ => .ok trivial) fun _ => ?_
  have hloop : ∀ (event : Node cfg) (s : Kernel cfg), InTable (do
      let s ← timerLoop (cfg.tnumTskid + 1) event s
      .ok (s.setCore timerHwExit)) fun _ => True := fun event s =>
    (inTable_timerLoop _ event s).bind fun _ _ => .ok trivial
  exact .ite (fun _ => (inTable_runTcb _).bind fun t _ => hloop _ _) fun _ => hloop _ _

/-! ## Calls about tasks -/

theorem atomic_creTsk {tskid : Int} {pk : TCtsk} : Atomic s (creTsk tskid pk s) := by
  unfold creTsk
  refine .ite (fun _ => atomic_self) fun hid => (inTable_getTcb hid).bind fun t _ => ?_
  refine .ite (fun _ => atomic_self) fun _ => .ite (fun _ => atomic_self) fun _ => ?_
  exact atomic_ok (by simp)

/-- The IDs an `acre_*` call tries are those of entries, and what it creates is one of them. -/
theorem atomic_acreTskLoop {pk : TCtsk} : ∀ (n : Nat) (i : Int), 1 ≤ i →
    i + n ≤ cfg.tnumTskid + 1 → Atomic s (acreTskLoop pk s n i)
  | 0, _, _, _ => atomic_self
  | n + 1, i, h₁, h₂ => by
    unfold acreTskLoop
    refine .bind (P := fun _ => True) (inTable_entryOf h₁ (by omega)) fun t _ => ?_
    refine .ite (fun _ => ?_) fun _ => atomic_acreTskLoop n (i + 1) (by omega) (by omega)
    refine atomic_creTsk.bind fun v hv => .ok fun e he hne => ?_
    split at he
    · cases he
    · exact hv e he hne

theorem atomic_delTsk {tskid : Int} : Atomic s (delTsk tskid s) := by
  unfold delTsk
  refine .ite (fun _ => atomic_self) fun hid => (inTable_getTcb hid).bind fun t _ => ?_
  refine .ite (fun _ => atomic_self) fun _ => .ite (fun _ => atomic_self) fun _ => ?_
  exact atomic_ok (by simp)

theorem atomic_actTsk {tskid : Int} (h : 0 ≤ tskid) : Atomic s (_actTsk tskid s) := by
  unfold _actTsk
  refine .ite (fun _ => atomic_self) fun hid => (inTable_getTcbSelf hid h).bind fun t _ => ?_
  refine .ite (fun _ => atomic_self) fun _ => .ite (fun _ => ?_) fun _ => atomic_ok (by simp)
  exact .ite (fun _ => atomic_self) fun _ => atomic_ok (by simp)

/-- The priorities `chg_pri` takes. -/
def GoodTskpri (cfg : Config) (tskpri : Int) : Prop :=
  (tminTpri ≤ tskpri ∧ tskpri ≤ cfg.tmaxTpri) ∨ tskpri = tpriIni

theorem atomic_chgPri {tskid tskpri : Int} (h : GoodTskpri cfg tskpri → 0 ≤ tskid) :
    Atomic s (chgPri tskid tskpri s) := by
  unfold chgPri
  refine .ite (fun _ => atomic_self) fun hid => .ite (fun _ => atomic_self) fun hp => ?_
  have h₀ : 0 ≤ tskid := by
    refine h ?_
    unfold GoodTskpri
    by_contra hg
    exact hp (by omega)
  refine (inTable_getTcbSelf hid h₀).bind fun t _ => ?_
  refine .ite (fun _ => atomic_self) fun _ => .ite (fun _ => atomic_self) fun _ => ?_
  exact atomic_ok (by simp)

theorem atomic_rotRdq {tskpri : Int} : Atomic s (rotRdq tskpri s) := by
  unfold rotRdq
  exact .ite (fun _ => atomic_ok (by simp)) fun _ =>
    .ite (fun _ => atomic_self) fun _ => atomic_ok (by simp)

theorem atomic_extTsk : Atomic s (extTsk s) := by
  unfold extTsk
  exact (inTable_runTcb s).bind fun t _ => atomic_ok (by simp)

theorem atomic_dlyTsk {dlytim : RELTIM} : Atomic s (dlyTsk dlytim s) := by
  unfold dlyTsk
  exact (inTable_runTcb s).bind fun t _ => atomic_ok (by simp)

theorem atomic_susTsk {tskid : Int} (h : 0 ≤ tskid) : Atomic s (susTsk tskid s) := by
  have hself : ∀ {e : ER}, Atomic s (.ok (dispatch s, .er e)) :=
    atomic_error (Untouched.refl s).dispatch
  unfold susTsk
  refine .ite (fun _ => atomic_self) fun hid => (inTable_getTcbSelf hid h).bind fun t _ => ?_
  refine .ite (fun _ => hself) fun _ => .ite (fun _ => hself) fun _ => ?_
  exact .ite (fun _ => hself) fun _ => atomic_ok (by simp)

theorem atomic_rsmTsk {tskid : Int} (h : 0 ≤ tskid) : Atomic s (rsmTsk tskid s) := by
  have hself : ∀ {e : ER}, Atomic s (.ok (dispatch s, .er e)) :=
    atomic_error (Untouched.refl s).dispatch
  unfold rsmTsk
  refine .ite (fun _ => atomic_self) fun hid => (inTable_getTcbSelf hid h).bind fun t _ => ?_
  refine .ite (fun _ => hself) fun _ => .ite (fun _ => hself) fun _ => ?_
  exact atomic_ok (by simp)

theorem atomic_slpTsk {tmout : TMO} : Atomic s (_slpTsk tmout s) := by
  unfold _slpTsk
  refine (inTable_runTcb s).bind fun t ht => .ite (fun _ => atomic_ok (by simp)) fun _ => ?_
  exact .ite (fun _ => atomic_ok (by simp)) fun _ => atomic_error (Untouched.setErcd _ ht).dispatch

theorem atomic_wupTsk {tskid : Int} (h : 0 ≤ tskid) : Atomic s (_wupTsk tskid s) := by
  unfold _wupTsk
  refine .ite (fun _ => atomic_self) fun hid => (inTable_getTcbSelf hid h).bind fun t _ => ?_
  refine .ite (fun _ => atomic_self) fun _ => .ite (fun _ => atomic_self) fun _ => ?_
  exact .ite (fun _ => atomic_ok (by simp)) fun _ =>
    .ite (fun _ => atomic_self) fun _ => atomic_ok (by simp)

theorem atomic_canWup {tskid : Int} (h : 0 ≤ tskid) : Atomic s (canWup tskid s) := by
  unfold canWup
  refine .ite (fun _ => atomic_self) fun hid => (inTable_getTcbSelf hid h).bind fun t _ => ?_
  exact .ite (fun _ => atomic_self) fun _ => .ite (fun _ => atomic_self) fun _ =>
    atomic_ok (by simp)

/-! ## Calls about objects -/

theorem atomic_creSem' {semid : Int} {pk : TCsem} (h₁ : 1 ≤ semid) (h₂ : semid ≤ cfg.tnumSemid) :
    Atomic s (_creSem semid pk s) := by
  unfold _creSem
  refine .ite (fun _ => atomic_self) fun _ => .ite (fun _ => atomic_self) fun _ => ?_
  refine .bind (P := fun _ => True) (inTable_entryOf h₁ h₂) fun i _ => ?_
  exact .ite (fun _ => atomic_self) fun _ => atomic_ok (by simp)

theorem atomic_creSem {semid : Int} {pk : TCsem} : Atomic s (creSem semid pk s) := by
  unfold creSem
  refine .ite (fun _ => atomic_self) fun hid => ?_
  simp only [badSemid, Bool.or_eq_true, decide_eq_true_eq, not_or] at hid
  refine atomic_creSem' (by omega) ?_
  unfold Config.tnumSemid
  omega

theorem atomic_acreSemLoop {pk : TCsem} : ∀ (n : Nat) (i : Int), 1 ≤ i →
    i + n ≤ cfg.tnumSemid + 1 → Atomic s (acreSemLoop pk s n i)
  | 0, _, _, _ => atomic_self
  | n + 1, i, h₁, h₂ => by
    unfold acreSemLoop
    refine .bind (P := fun _ => True) (inTable_entryOf h₁ (by omega)) fun k _ => ?_
    refine .ite (fun _ => ?_) fun _ => atomic_acreSemLoop n (i + 1) (by omega) (by omega)
    refine (atomic_creSem' h₁ (by omega)).bind fun v hv => .ok fun e he hne => ?_
    split at he
    · cases he
    · exact hv e he hne

theorem atomic_waiSem {semid : Int} {tmout : TMO} : Atomic s (_waiSem semid tmout s) := by
  unfold _waiSem
  refine .ite (fun _ => atomic_self) fun hid => (inTable_getSemcb hid).bind fun i _ => ?_
  refine .ite (fun _ => atomic_self) fun _ => (inTable_runTcb s).bind fun t ht => ?_
  refine .ite (fun _ => atomic_ok (by simp)) fun _ => .ite (fun _ => ?_) fun _ => ?_
  · exact (inTable_objMakeWait _ _ _ _).bind fun _ _ => atomic_ok (by simp)
  · exact atomic_error (Untouched.setErcd _ ht).dispatch

theorem atomic_sigSem {semid : Int} : Atomic s (_sigSem semid s) := by
  unfold _sigSem
  refine .ite (fun _ => atomic_self) fun hid => (inTable_getSemcb hid).bind fun i _ => ?_
  refine .ite (fun _ => atomic_self) fun _ => .ite (fun _ => ?_) fun _ => ?_
  · exact (inTable_tcbOf _).bind fun t _ => atomic_ok (by simp)
  · exact .ite (fun _ => atomic_self) fun _ => atomic_ok (by simp)

theorem atomic_delSem {semid : Int} : Atomic s (delSem semid s) := by
  unfold delSem waitDelete
  refine .ite (fun _ => atomic_self) fun hid => (inTable_getSemcb hid).bind fun i _ => ?_
  refine .ite (fun _ => atomic_self) fun _ => (inTable_waitDeleteLoop _ _ _).bind fun _ _ => ?_
  exact atomic_ok (by simp)

theorem atomic_refSem {semid : Int} : Atomic s (refSem semid s) := by
  unfold refSem
  refine .ite (fun _ => atomic_self) fun hid => (inTable_getSemcb hid).bind fun i _ => ?_
  exact .ite (fun _ => atomic_self) fun _ => (inTable_waitTskid _ _).bind fun _ _ =>
    atomic_ok (by simp)

theorem atomic_creFlg' {flgid : Int} {pk : TCflg} (h₁ : 1 ≤ flgid) (h₂ : flgid ≤ cfg.tnumFlgid) :
    Atomic s (_creFlg flgid pk s) := by
  unfold _creFlg
  refine .ite (fun _ => atomic_self) fun _ => ?_
  refine .bind (P := fun _ => True) (inTable_entryOf h₁ h₂) fun i _ => ?_
  exact .ite (fun _ => atomic_self) fun _ => atomic_ok (by simp)

theorem atomic_creFlg {flgid : Int} {pk : TCflg} : Atomic s (creFlg flgid pk s) := by
  unfold creFlg
  refine .ite (fun _ => atomic_self) fun hid => ?_
  simp only [badFlgid, Bool.or_eq_true, decide_eq_true_eq, not_or] at hid
  refine atomic_creFlg' (by omega) ?_
  unfold Config.tnumFlgid
  omega

theorem atomic_acreFlgLoop {pk : TCflg} : ∀ (n : Nat) (i : Int), 1 ≤ i →
    i + n ≤ cfg.tnumFlgid + 1 → Atomic s (acreFlgLoop pk s n i)
  | 0, _, _, _ => atomic_self
  | n + 1, i, h₁, h₂ => by
    unfold acreFlgLoop
    refine .bind (P := fun _ => True) (inTable_entryOf h₁ (by omega)) fun k _ => ?_
    refine .ite (fun _ => ?_) fun _ => atomic_acreFlgLoop n (i + 1) (by omega) (by omega)
    refine (atomic_creFlg' h₁ (by omega)).bind fun v hv => .ok fun e he hne => ?_
    split at he
    · cases he
    · exact hv e he hne

theorem atomic_setFlg {flgid : Int} {setptn : FLGPTN} : Atomic s (_setFlg flgid setptn s) := by
  unfold _setFlg
  refine .ite (fun _ => atomic_self) fun hid => (inTable_getFlgcb hid).bind fun i _ => ?_
  refine .ite (fun _ => atomic_self) fun _ => (inTable_setFlgLoop _ _ _ _).bind fun _ _ => ?_
  exact atomic_ok (by simp)

theorem atomic_clrFlg {flgid : Int} {clrptn : FLGPTN} : Atomic s (clrFlg flgid clrptn s) := by
  unfold clrFlg
  refine .ite (fun _ => atomic_self) fun hid => (inTable_getFlgcb hid).bind fun i _ => ?_
  exact .ite (fun _ => atomic_self) fun _ => atomic_ok (by simp)

theorem atomic_waiFlg {flgid : Int} {waiptn : FLGPTN} {wfmode : MODE} {p : VP} {tmout : TMO} :
    Atomic s (_waiFlg flgid waiptn wfmode p tmout s) := by
  unfold _waiFlg
  refine .ite (fun _ => atomic_self) fun hid => .ite (fun _ => atomic_self) fun _ => ?_
  refine (inTable_getFlgcb hid).bind fun i _ => (inTable_runTcb s).bind fun t ht => ?_
  refine .ite (fun _ => atomic_error (.setErcd _ ht)) fun _ => ?_
  refine .ite (fun _ => atomic_error (.setErcd _ ht)) fun _ => ?_
  refine .ite (fun _ => atomic_ok (by simp)) fun _ => .ite (fun _ => ?_) fun _ => ?_
  · exact (inTable_objMakeWait _ _ _ _).bind fun _ _ => atomic_ok (by simp)
  · exact atomic_error (.setErcd _ ht)

theorem atomic_refFlg {flgid : Int} : Atomic s (refFlg flgid s) := by
  unfold refFlg
  refine .ite (fun _ => atomic_self) fun hid => (inTable_getFlgcb hid).bind fun i _ => ?_
  exact .ite (fun _ => atomic_self) fun _ => (inTable_waitTskid _ _).bind fun _ _ =>
    atomic_ok (by simp)

theorem atomic_delFlg {flgid : Int} : Atomic s (delFlg flgid s) := by
  unfold delFlg waitDelete
  refine .ite (fun _ => atomic_self) fun hid => (inTable_getFlgcb hid).bind fun i _ => ?_
  refine .ite (fun _ => atomic_self) fun _ => (inTable_waitDeleteLoop _ _ _).bind fun _ _ => ?_
  exact atomic_ok (by simp)

theorem atomic_creMbx' {mbxid : Int} {pk : TCmbx} (h₁ : 1 ≤ mbxid) (h₂ : mbxid ≤ cfg.tnumMbxid) :
    Atomic s (_creMbx mbxid pk s) := by
  unfold _creMbx
  refine .ite (fun _ => atomic_self) fun _ => ?_
  refine .bind (P := fun _ => True) (inTable_entryOf h₁ h₂) fun i _ => ?_
  exact .ite (fun _ => atomic_self) fun _ => atomic_ok (by simp)

theorem atomic_creMbx {mbxid : Int} {pk : TCmbx} : Atomic s (creMbx mbxid pk s) := by
  unfold creMbx
  refine .ite (fun _ => atomic_self) fun hid => ?_
  simp only [badMbxid, Bool.or_eq_true, decide_eq_true_eq, not_or] at hid
  refine atomic_creMbx' (by omega) ?_
  unfold Config.tnumMbxid
  omega

theorem atomic_acreMbxLoop {pk : TCmbx} : ∀ (n : Nat) (i : Int), 1 ≤ i →
    i + n ≤ cfg.tnumMbxid + 1 → Atomic s (acreMbxLoop pk s n i)
  | 0, _, _, _ => atomic_self
  | n + 1, i, h₁, h₂ => by
    unfold acreMbxLoop
    refine .bind (P := fun _ => True) (inTable_entryOf h₁ (by omega)) fun k _ => ?_
    refine .ite (fun _ => ?_) fun _ => atomic_acreMbxLoop n (i + 1) (by omega) (by omega)
    refine (atomic_creMbx' h₁ (by omega)).bind fun v hv => .ok fun e he hne => ?_
    split at he
    · cases he
    · exact hv e he hne

theorem atomic_sndMbx {mbxid : Int} {m : Fin cfg.nmsg} : Atomic s (_sndMbx mbxid m s) := by
  unfold _sndMbx
  refine .ite (fun _ => atomic_self) fun hid => (inTable_getMbxcb hid).bind fun i _ => ?_
  refine .ite (fun _ => atomic_self) fun _ => .ite (fun _ => atomic_self) fun _ => ?_
  refine .ite (fun _ => ?_) fun _ => (inTable_enqueueMsg _ _ _).bind fun _ _ => ?_
  · exact (inTable_tcbOf _).bind fun t _ => atomic_ok (by simp)
  · exact atomic_ok (by simp)

theorem atomic_rcvMbx {mbxid : Int} {p : VP} {tmout : TMO} :
    Atomic s (_rcvMbx mbxid p tmout s) := by
  unfold _rcvMbx
  refine .ite (fun _ => atomic_self) fun hid => .ite (fun _ => atomic_self) fun _ => ?_
  refine (inTable_getMbxcb hid).bind fun i _ => (inTable_runTcb s).bind fun t ht => ?_
  refine .ite (fun _ => atomic_error (.setErcd _ ht)) fun _ => ?_
  refine .ite (fun _ => atomic_ok (by simp)) fun _ => .ite (fun _ => ?_) fun _ => ?_
  · exact (inTable_objMakeWait _ _ _ _).bind fun _ _ => atomic_ok (by simp)
  · exact atomic_error (.setErcd _ ht)

theorem atomic_refMbx {mbxid : Int} : Atomic s (refMbx mbxid s) := by
  unfold refMbx
  refine .ite (fun _ => atomic_self) fun hid => (inTable_getMbxcb hid).bind fun i _ => ?_
  exact .ite (fun _ => atomic_self) fun _ => (inTable_waitTskid _ _).bind fun _ _ =>
    atomic_ok (by simp)

theorem atomic_delMbx {mbxid : Int} : Atomic s (delMbx mbxid s) := by
  unfold delMbx waitDelete
  refine .ite (fun _ => atomic_self) fun hid => (inTable_getMbxcb hid).bind fun i _ => ?_
  refine .ite (fun _ => atomic_self) fun _ => (inTable_waitDeleteLoop _ _ _).bind fun _ _ => ?_
  exact atomic_ok (by simp)

/-! ## All calls -/

/-- The calls that are given a negative task ID and do not refuse it. `chg_pri` looks at the
priority first. -/
def NegativeId : Call cfg → Prop
  | .actTsk tskid | .iactTsk tskid | .susTsk tskid | .rsmTsk tskid | .wupTsk tskid
  | .iwupTsk tskid | .canWup tskid => tskid < 0
  | .chgPri tskid tskpri => tskid < 0 ∧ GoodTskpri cfg tskpri
  | _ => False

theorem exec_atomic (hc : ¬ NegativeId c) : Atomic s (exec c s) := by
  cases c with
  | creTsk tskid pk => exact atomic_creTsk
  | acreTsk pk =>
    refine atomic_acreTskLoop _ _ (by omega) ?_
    unfold Config.tnumTskid
    omega
  | delTsk tskid => exact atomic_delTsk
  | actTsk tskid => exact (atomic_actTsk (not_lt.mp hc)).dispatchIfOk
  | iactTsk tskid => exact atomic_actTsk (not_lt.mp hc)
  | chgPri tskid tskpri => exact atomic_chgPri fun hg => not_lt.mp fun hlt => hc ⟨hlt, hg⟩
  | rotRdq tskpri => exact atomic_rotRdq
  | extTsk => exact atomic_extTsk
  | dlyTsk dlytim => exact atomic_dlyTsk
  | susTsk tskid => exact atomic_susTsk (not_lt.mp hc)
  | rsmTsk tskid => exact atomic_rsmTsk (not_lt.mp hc)
  | slpTsk => exact atomic_slpTsk
  | tslpTsk tmout => exact atomic_slpTsk
  | wupTsk tskid => exact (atomic_wupTsk (not_lt.mp hc)).dispatchIfOk
  | iwupTsk tskid => exact atomic_wupTsk (not_lt.mp hc)
  | canWup tskid => exact atomic_canWup (not_lt.mp hc)
  | creSem semid pk => exact atomic_creSem
  | acreSem pk =>
    refine atomic_acreSemLoop _ _ (by omega) ?_
    unfold Config.tnumSemid
    omega
  | waiSem semid => exact atomic_waiSem
  | twaiSem semid tmout => exact atomic_waiSem
  | polSem semid => exact atomic_waiSem
  | sigSem semid => exact atomic_sigSem.dispatchAll
  | isigSem semid => exact atomic_sigSem
  | delSem semid => exact atomic_delSem
  | refSem semid => exact atomic_refSem
  | creFlg flgid pk => exact atomic_creFlg
  | acreFlg pk =>
    refine atomic_acreFlgLoop _ _ (by omega) ?_
    unfold Config.tnumFlgid
    omega
  | setFlg flgid setptn => exact atomic_setFlg.dispatchAll
  | isetFlg flgid setptn => exact atomic_setFlg
  | clrFlg flgid clrptn => exact atomic_clrFlg
  | waiFlg flgid waiptn wfmode p => exact atomic_waiFlg
  | twaiFlg flgid waiptn wfmode p tmout => exact atomic_waiFlg
  | polFlg flgid waiptn wfmode p => exact atomic_waiFlg
  | refFlg flgid => exact atomic_refFlg
  | delFlg flgid => exact atomic_delFlg
  | creMbx mbxid pk => exact atomic_creMbx
  | acreMbx pk =>
    refine atomic_acreMbxLoop _ _ (by omega) ?_
    unfold Config.tnumMbxid
    omega
  | sndMbx mbxid m => exact atomic_sndMbx.dispatchAll
  | rcvMbx mbxid p => exact atomic_rcvMbx
  | trcvMbx mbxid p tmout => exact atomic_rcvMbx
  | prcvMbx mbxid p => exact atomic_rcvMbx
  | refMbx mbxid => exact atomic_refMbx
  | delMbx mbxid => exact atomic_delMbx
  | timerHandler => exact (inTable_timerHandler s).bind fun _ _ => atomic_ok (by simp)
  | dispatch => exact atomic_ok (by simp)
  | setMsgpri m pri => exact atomic_ok (by simp)

/-! ## Negative task IDs -/

/-- A negative ID passes the check, and is then used as an index. -/
theorem getTcbSelf_negative {tskid : Int} (h : tskid < 0) :
    badTskid tskid s = false ∧ getTcbSelf tskid s = .error .outOfTable := by
  have h₁ : ¬ tskid > cfg.tmaxTskid + cfg.trsvTskid := by omega
  have h₂ : ¬ tskid = tskSelf := by
    unfold tskSelf
    omega
  refine ⟨by simp [badTskid, h₁, h₂], ?_⟩
  rw [getTcbSelf, if_neg h₂, getTcb, entryOf, dif_neg fun hid => by omega]

theorem exec_negative (hc : NegativeId c) : exec c s = .error .outOfTable := by
  have hid : ∀ {tskid : Int}, tskid < 0 → _ := fun h => getTcbSelf_negative (s := s) h
  cases c with
  | actTsk tskid | iactTsk tskid =>
    simp only [exec, actTsk, iactTsk, dispatchIfOk, _actTsk, (hid hc).1, (hid hc).2]
    rfl
  | susTsk tskid => simp only [exec, susTsk, (hid hc).1, (hid hc).2]; rfl
  | rsmTsk tskid => simp only [exec, rsmTsk, (hid hc).1, (hid hc).2]; rfl
  | wupTsk tskid | iwupTsk tskid =>
    simp only [exec, wupTsk, iwupTsk, dispatchIfOk, _wupTsk, (hid hc).1, (hid hc).2]
    rfl
  | canWup tskid => simp only [exec, canWup, (hid hc).1, (hid hc).2]; rfl
  | chgPri tskid tskpri =>
    obtain ⟨hlt, hg⟩ := hc
    have hpar : ¬ ((tskpri < tminTpri ∨ tskpri > cfg.tmaxTpri) ∧ tskpri ≠ tpriIni) := by
      unfold GoodTskpri at hg
      omega
    simp only [exec, chgPri, (hid hlt).1, (hid hlt).2, if_neg hpar]
    rfl
  | _ => exact hc.elim

/-- **A call stays inside the control block tables, and has changed nothing if it returns an error,
unless it is given a negative task ID that it does not refuse.** -/
theorem call_atomic (s : Kernel cfg) (c : Call cfg) :
    (exec c s ≠ .error .outOfTable ∧
      ∀ s' e, exec c s = .ok (s', .er e) → e ≠ .ok → Untouched s s') ↔ ¬ NegativeId c := by
  constructor
  · rintro ⟨h, -⟩ hc
    exact h (exec_negative hc)
  · intro hc
    have h := exec_atomic (s := s) hc
    exact ⟨fun he => h.error _ he rfl, fun s' e he hne => h.result _ he e rfl hne⟩

/-- The call of a task with the ID -1 looks for a control block in front of the table. -/
theorem act_tsk_negative : ∃ (tr : Trace smallConfig) (s : Kernel smallConfig),
    RunOf SoundCall tr s ∧ s.runtsk = .qnode 0 ∧ exec (.actTsk (-1)) s = .error .outOfTable := by
  obtain ⟨tr, s, h, hr⟩ := exists_runOf (C := SoundCall) (Q := fun _ s => s.runtsk = .qnode 0)
    (startTasks [1]) zeroed (by decide +kernel)
  have hneg : NegativeId (.actTsk (-1) : Call smallConfig) := show (-1 : Int) < 0 by decide
  exact ⟨tr, s, h, hr, exec_negative hneg⟩

end Ittrium
