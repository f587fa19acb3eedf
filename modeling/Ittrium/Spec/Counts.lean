import Ittrium.Spec.Releases
import Ittrium.Spec.Existence

/-!
# The counts of a task

`actcnt` and `wupcnt` count requests that are still to be served. The calls that do so, and those
that create, delete and end tasks, are `Call.counting`; for each of them the ways it can go are
given, with the control block of the task each time.

* `Ordinary tcb tcb'` — the counts are the same, and no sleep has begun or ended with a new result
* `exec_ordinary` — **all other calls are ordinary for every task**
* `ActTsk`, `SlpTsk`, `WupTsk`, `CanWup` — what those calls do
-/

namespace Ittrium.Spec

open Infra

variable {cfg : Config} {a a' a'' : Model cfg} {l : Line cfg} {t u : TskIx cfg} {o : ObjId cfg}
  {c : Call cfg} {r : Ret cfg} {tmout : TMO}

/-! ## Ordinary changes -/

/-- The memory a task has for its stack: its end, its beginning and its size. -/
def stackOf (tcb : TCB cfg) : VP × VP × SIZE := (tcb.stk, tcb.stkBase, tcb.stksz)

/-- The counts are the same, the task is dormant or missing as before, and no sleep has begun or
ended with a new result. -/
structure Ordinary (tcb tcb' : TCB cfg) : Prop where
  stack : stackOf tcb' = stackOf tcb
  actcnt : tcb'.actcnt = tcb.actcnt
  wupcnt : tcb'.wupcnt = tcb.wupcnt
  itskpri : tcb'.itskpri = tcb.itskpri
  dormant : tcb'.state = .dmt ↔ tcb.state = .dmt
  missing : tcb'.state = .noexs ↔ tcb.state = .noexs
  asleep : tcb'.tskwait = .slp → tcb.tskwait = .slp
  result : tcb.tskwait = .slp → tcb'.ercd = tcb.ercd

theorem Ordinary.refl (tcb : TCB cfg) : Ordinary tcb tcb :=
  ⟨rfl, rfl, rfl, rfl, Iff.rfl, Iff.rfl, id, fun _ => rfl⟩

/-- Every task changes in an ordinary way. While it sleeps, it keeps the reason or loses it. -/
def Ordinarily (a a' : Model cfg) : Prop :=
  ∀ t, Ordinary (a.core.tcb t) (a'.core.tcb t)

/-- A ready task does not sleep. -/
theorem Settled.not_asleep (h : Settled a) (ht : (a.core.tcb t).state = .rdy) :
    (a.core.tcb t).tskwait ≠ .slp := by
  intro hs
  have hw := ((h.task t).tskwait (by rw [ht]; simp)).mp (by rw [hs]; simp)
  simp [ht, Stat.waiting_iff] at hw

/-- Nor does a task that waits for an object. -/
theorem Settled.not_asleep_of_mem (h : Settled a) (ht : t ∈ a.queue (.waitq o)) :
    (a.core.tcb t).tskwait ≠ .slp := by
  intro hs
  have hne : (a.core.tcb t).state ≠ .noexs := by
    intro hn
    have hw := h.waiting_of_mem ht
    simp [hn, Stat.waiting_iff] at hw
  have hw := (((h.task t).tskwait hne).mp (by rw [hs]; simp)).2
  rw [h.waitObj_of_mem ht] at hw
  cases hw

namespace Ordinarily

theorem of_tcb {b : Model cfg} (h : b.core.tcb = a.core.tcb) : Ordinarily a b := by
  intro t
  rw [h]
  exact .refl _

theorem refl (a : Model cfg) : Ordinarily a a := of_tcb rfl

/-- Only `t` is touched. -/
theorem of_others (h : Others t a a') (ht : Ordinary (a.core.tcb t) (a'.core.tcb t)) :
    Ordinarily a a' := by
  intro u
  by_cases hu : u = t
  · rw [hu]
    exact ht
  · rw [h.tcb u hu]
    exact .refl _

theorem setTcb (f : TCB cfg → TCB cfg) (hf : Ordinary (a.core.tcb t) (f (a.core.tcb t))) :
    Ordinarily a (a.setTcb t f) :=
  of_others (.setTcb t f a) (by rwa [Model.setTcb_tcb_self])

/-- The result of a ready task, and what it asks for. -/
theorem setTcb_ready {f : TCB cfg → TCB cfg} (h : Settled a) (ht : (a.core.tcb t).state = .rdy)
    (hf : ∀ tcb, ∃ e w, f tcb = { tcb with ercd := e, waitinfo := w }) :
    Ordinarily a (a.setTcb t f) := by
  refine setTcb f ?_
  obtain ⟨e, w, he⟩ := hf (a.core.tcb t)
  rw [he]
  exact ⟨rfl, rfl, rfl, rfl, Iff.rfl, Iff.rfl, id, fun hs => absurd hs (h.not_asleep ht)⟩

/-- A wait that ends with the result it has. -/
theorem released_self {e : ER} {tcb : TCB cfg} (hw : tcb.state.waiting)
    (he : tcb.tskwait = .slp → e = tcb.ercd) : Ordinary tcb (released e tcb) := by
  have hs := Stat.waiting_iff.mp hw
  refine ⟨rfl, rfl, rfl, rfl, ?_, ?_, fun hn => ?_, fun hs => he hs⟩
  · unfold released
    dsimp only
    split <;> rcases hs with hs | hs <;> simp [hs]
  · unfold released
    dsimp only
    split <;> rcases hs with hs | hs <;> simp [hs]
  · cases hn

/-- The first of two changes is of a task that does not sleep. -/
theorem trans (h : Ordinarily a a') (ht : ∀ u, u ≠ t → a'.core.tcb u = a.core.tcb u)
    (hs : (a.core.tcb t).tskwait ≠ .slp) (h' : Ordinarily a' a'') : Ordinarily a a'' := by
  intro u
  by_cases hu : u = t
  · subst hu
    obtain ⟨h₀, h₁, h₂, h₃, h₄, h₅, h₆, -⟩ := h u
    obtain ⟨h₀', h₁', h₂', h₃', h₄', h₅', h₆', -⟩ := h' u
    exact ⟨h₀'.trans h₀, h₁'.trans h₁, h₂'.trans h₂, h₃'.trans h₃, h₄'.trans h₄, h₅'.trans h₅,
      fun hs' => h₆ (h₆' hs'), fun hs' => absurd hs' hs⟩
  · rw [← ht u hu]
    exact h' u

theorem dispatch (h : Ordinarily a a') : Ordinarily a a'.dispatch := h

/-- Something that is not in a control block is written before. -/
theorem of_tcb_left {b : Model cfg} (hb : b.core.tcb = a.core.tcb) (h : Ordinarily b a') :
    Ordinarily a a' := by
  intro t
  rw [← hb]
  exact h t

/-! ## State changes -/

/-- A task in the line of an object is released. -/
theorem release (h : Settled a) (ht : t ∈ a.queue (.waitq o)) (e : ER) :
    Ordinarily a (a.release t e) := by
  refine of_others (.release e h.nodup) ?_
  rw [release_tcb_self]
  exact released_self (h.waiting_of_mem ht) fun hs => absurd hs (h.not_asleep_of_mem ht)

theorem releaseAll (h : Settled a) (o : ObjId cfg) : Ordinarily a (a.releaseAll o) := by
  intro u
  by_cases hu : u ∈ a.queue (.waitq o)
  · rw [h.releaseAll_tcb_of_mem hu]
    exact released_self (h.waiting_of_mem hu) fun hs => absurd hs (h.not_asleep_of_mem hu)
  · rw [h.releaseAll_tcb_of_not_mem hu]
    exact .refl _

/-- A task that does not sleep begins to wait for an object. -/
theorem objWait (hnd : ∀ l, (a.queue l).Nodup) (hn : (a.core.tcb t).state ≠ .noexs)
    (hd : (a.core.tcb t).state ≠ .dmt) (hs : (a.core.tcb t).tskwait ≠ .slp) (o : ObjId cfg)
    (tmout : TMO) : Ordinarily a (a.objWait t o tmout) := by
  have hoth : Others t a ((a.setTcb t fun tcb => { tcb with waitObj := some o }).startWait t tmout) :=
    (Others.setTcb t _ a).trans (.startWait tmout hnd)
  intro u
  rw [objWait_core]
  by_cases hu : u = t
  · subst hu
    obtain ⟨m, hm⟩ := Model.startWait_tcb u tmout
      (a.setTcb u fun tcb => { tcb with waitObj := some o })
    rw [hm, Model.setTcb_tcb_self]
    exact ⟨rfl, rfl, rfl, rfl, by simp [hd], by simp [hn], id, fun hs' => absurd hs' hs⟩
  · rw [hoth.tcb u hu]
    exact .refl _

theorem changePri (h : Settled a) (t : TskIx cfg) (p : Int) : Ordinarily a (a.changePri t p) := by
  refine of_others (.changePri p h) ?_
  show Ordinary _ (((a.makeUnready t).setTcb t fun tcb => { tcb with tskpri := p }).core.tcb t)
  rw [Model.setTcb_tcb_self]
  exact ⟨rfl, rfl, rfl, rfl, Iff.rfl, Iff.rfl, id, fun _ => rfl⟩

theorem suspend (h : Settled a) (h₁ : (a.core.tcb t).state ≠ .noexs)
    (h₂ : (a.core.tcb t).state ≠ .dmt) : Ordinarily a (a.suspend t) := by
  have hx : ∀ st n, st ≠ .noexs → st ≠ .dmt →
      Ordinary (a.core.tcb t) { a.core.tcb t with state := st, suscnt := n } := fun st n hn hd =>
    ⟨rfl, rfl, rfl, rfl, by simp [hd, h₂], by simp [hn, h₁], id, fun _ => rfl⟩
  unfold Model.suspend
  dsimp only
  split
  · refine of_others ((Others.setTcb t _ a).trans
      ((Others.makeUnready (a := a.setTcb t _) h.nodup).trans (.setTcb t _ _))) ?_
    rw [Model.setTcb_tcb_self, Model.makeUnready, Model.deq_core, Model.setTcb_tcb_self]
    exact hx _ _ (by simp) (by simp)
  · split
    · refine of_others ((Others.setTcb t _ a).trans (.setTcb t _ _)) ?_
      rw [Model.setTcb_tcb_self, Model.setTcb_tcb_self]
      exact hx _ _ (by simp) (by simp)
    · exact setTcb _ ⟨rfl, rfl, rfl, rfl, Iff.rfl, Iff.rfl, id, fun _ => rfl⟩

theorem resume (hs : (a.core.tcb t).state = .sus ∨ (a.core.tcb t).state = .was) :
    Ordinarily a (a.resume t) := by
  have h₁ : (a.core.tcb t).state ≠ .noexs := by rcases hs with hs | hs <;> simp [hs]
  have h₂ : (a.core.tcb t).state ≠ .dmt := by rcases hs with hs | hs <;> simp [hs]
  have hx : ∀ st n, st ≠ .noexs → st ≠ .dmt →
      Ordinary (a.core.tcb t) { a.core.tcb t with state := st, suscnt := n } := fun st n hn hd =>
    ⟨rfl, rfl, rfl, rfl, by simp [hd, h₂], by simp [hn, h₁], id, fun _ => rfl⟩
  unfold Model.resume
  dsimp only
  split
  · split
    · refine of_others ((Others.setTcb t _ a).trans (.setTcb t _ _)) ?_
      rw [Model.setTcb_tcb_self, Model.setTcb_tcb_self]
      exact hx _ _ (by simp) (by simp)
    · refine of_others ((Others.setTcb t _ a).trans (.makeReady t _)) ?_
      rw [Model.makeReady_tcb, Model.setTcb_tcb_self]
      exact hx _ _ (by simp) (by simp)
  · exact setTcb _ ⟨rfl, rfl, rfl, rfl, Iff.rfl, Iff.rfl, id, fun _ => rfl⟩

/-- Each waiting task is offered the pattern once. -/
theorem offerAll {i : FlgIx cfg} : ∀ (ts : List (TskIx cfg)) (a : Model cfg), ts.Nodup →
    (∀ t ∈ ts, t ∈ a.queue (.waitq (.flg i))) → Settled a →
    Ordinarily a (ts.foldl (fun a t => a.offer i t) a) ∧
      ∀ u, u ∉ ts → (ts.foldl (fun a t => a.offer i t) a).core.tcb u = a.core.tcb u := by
  intro ts
  induction ts with
  | nil => exact fun a _ _ _ => ⟨refl a, fun _ _ => rfl⟩
  | cons t ts ih =>
    intro a hnd hm h
    obtain ⟨hno, hnd'⟩ := List.nodup_cons.mp hnd
    obtain ⟨hs, hst⟩ := h.offer (hm t (by simp))
    obtain ⟨hrest, hsame⟩ := ih _ hnd'
      (fun u hu => hst u (fun he => hno (he ▸ hu)) (hm u (by simp [hu]))) hs.settled
    have hone : Ordinarily a (a.offer i t) ∧ ∀ u, u ≠ t → (a.offer i t).core.tcb u = a.core.tcb u := by
      unfold Model.offer
      dsimp only
      split
      · have h₁ := (h.setRest (f := fun c => { c with
          flgvar := Function.update c.flgvar (a.core.tcb t).waitinfo.pFlgptn (c.flgcb i).flgptn })
          rfl rfl rfl rfl rfl).settled
        exact ⟨release (t := t) h₁ (hm t (by simp)) .ok,
          fun u hu => (Others.release .ok h₁.nodup).tcb u hu⟩
      · exact ⟨refl a, fun _ _ => rfl⟩
    rw [List.foldl_cons]
    refine ⟨hone.1.trans hone.2 (h.not_asleep_of_mem (hm t (by simp))) hrest, fun u hu => ?_⟩
    rw [hsame u fun hm => hu (by simp [hm]), hone.2 u fun he => hu (by simp [he])]

/-- A ready task begins to wait, having asked for something. -/
theorem setTcb_objWait {f : TCB cfg → TCB cfg} (h : Settled a) (ht : (a.core.tcb t).state = .rdy)
    (hf : ∀ tcb, ∃ e w, f tcb = { tcb with ercd := e, waitinfo := w }) (o : ObjId cfg) (tmout : TMO) :
    Ordinarily a ((a.setTcb t f).objWait t o tmout) := by
  obtain ⟨e, w, hew⟩ := hf (a.core.tcb t)
  refine (setTcb_ready h ht hf).trans (fun u hu => Model.setTcb_tcb_of_ne hu) (h.not_asleep ht) ?_
  have hself : (a.setTcb t f).core.tcb t = { a.core.tcb t with ercd := e, waitinfo := w } := by
    rw [Model.setTcb_tcb_self, hew]
  refine objWait (a := a.setTcb t f) h.nodup ?_ ?_ ?_ o tmout <;> rw [hself]
  · simp [ht]
  · simp [ht]
  · exact h.not_asleep ht

/-- A ready task is delayed. -/
theorem delay (h : Settled a) (ht : (a.core.tcb t).state = .rdy) (tmout : TMO) :
    Ordinarily a ((a.setTcb t fun tcb => { tcb with ercd := .ok }).sleep t .dly tmout) := by
  refine of_others ((Others.setTcb t _ a).trans ((Others.setTcb t _ _).trans
    (.startWait tmout h.nodup))) ?_
  obtain ⟨m, hm⟩ := Model.startWait_tcb t tmout
    ((a.setTcb t fun tcb => { tcb with ercd := .ok }).setTcb t fun tcb =>
      { tcb with waitObj := none, tskwait := .dly })
  rw [Model.sleep, hm, Model.setTcb_tcb_self, Model.setTcb_tcb_self]
  exact ⟨rfl, rfl, rfl, rfl, by simp [ht], by simp [ht], (by intro hs; cases hs),
    fun hs => absurd hs (h.not_asleep ht)⟩

theorem timerHandler (h : Settled a) : Ordinarily a (Spec.timerHandler a) := by
  intro u
  have hacc : Ordinary (a.core.tcb u) (accountTcb a u) := by
    unfold accountTcb
    dsimp only
    split
    · exact ⟨rfl, rfl, rfl, rfl, Iff.rfl, Iff.rfl, id, fun _ => rfl⟩
    · exact .refl _
  rw [h.timerHandler_tcb]
  split
  · next hm =>
    have hw := Stat.waiting_iff.mp ((h.task u).timer hm).1
    have hst : (accountTcb a u).state = (a.core.tcb u).state := by
      unfold accountTcb
      dsimp only
      split <;> rfl
    by_cases hlast : (accountTcb a u).wtmeb.count - 1 = 0
    · rw [tickTcb_last hlast]
      refine ⟨hacc.stack, hacc.actcnt, hacc.wupcnt, hacc.itskpri, ?_, ?_, nofun, hacc.result⟩
      all_goals
        dsimp only
        rw [hst]
        rcases hw with hw | hw <;> simp [hw]
    · rw [tickTcb_next hlast]
      exact ⟨hacc.stack, hacc.actcnt, hacc.wupcnt, hacc.itskpri, hacc.dormant, hacc.missing, hacc.asleep,
        hacc.result⟩
  · exact hacc

end Ordinarily

/-! ## Ordinary calls -/

/-- The call changes every task in an ordinary way. -/
abbrev Ords (a : Model cfg) (x : Outcome cfg) : Prop := Ensures x fun v => Ordinarily a v.1

theorem ords_same {b : Model cfg} (h : b.core.tcb = a.core.tcb) : Ords a (.ok (b, r)) :=
  .ok (.of_tcb h)

theorem ords_self : Ords a (.ok (a, r)) := ords_same rfl

theorem Ords.dispatchAll {x : Outcome cfg} (h : Ords a x) : Ords a (Spec.dispatchAll x) :=
  Ensures.bind (h.mono fun _ hv => .ok hv)

/-- The ID found is returned instead of `E_OK`. -/
theorem Ords.newId {x : Outcome cfg} {i : Int} (h : Ords a x) :
    Ords a (do let (a, r) ← x; .ok (a, if r = .er .ok then .newId i else r)) :=
  Ensures.bind (h.mono fun _ hv => .ok hv)

theorem Settled.ords_chgPri {tskid tskpri : Int} (h : Settled a) :
    Ords a (Spec.chgPri tskid tskpri a) := by
  unfold Spec.chgPri
  refine .ite (fun _ => ords_self) fun _ => .ite (fun _ => ords_self) fun _ => .bind' fun t _ => ?_
  refine .ite (fun _ => ords_self) fun _ => .ite (fun _ => ords_self) fun _ => ?_
  exact .ok (Ordinarily.changePri h t _)

theorem ords_rotRdq {tskpri : Int} : Ords a (rotRdq tskpri a) := by
  unfold Spec.rotRdq
  refine .ite (fun _ => ords_same rfl) fun _ => ?_
  exact .ite (fun _ => ords_self) fun _ => ords_same rfl

theorem Settled.ords_susTsk {tskid : Int} (h : Settled a) : Ords a (Spec.susTsk tskid a) := by
  unfold Spec.susTsk
  refine .ite (fun _ => ords_self) fun _ => .bind' fun t _ => .ite (fun _ => ords_same rfl) fun hn => ?_
  refine .ite (fun _ => ords_same rfl) fun hd => .ite (fun _ => ords_same rfl) fun _ => ?_
  exact .ok (Ordinarily.suspend h hn hd)

theorem ords_rsmTsk {tskid : Int} : Ords a (Spec.rsmTsk tskid a) := by
  unfold Spec.rsmTsk
  refine .ite (fun _ => ords_self) fun _ => .bind' fun t _ => .ite (fun _ => ords_same rfl) fun _ => ?_
  exact .ite (fun _ => ords_same rfl) fun hs => .ok (Ordinarily.resume (by tauto))

theorem ords_creSem {semid : Int} {pk : TCsem} : Ords a (_creSem semid pk a) := by
  unfold Spec._creSem
  refine .ite (fun _ => ords_self) fun _ => .ite (fun _ => ords_self) fun _ => .bind' fun i _ => ?_
  exact .ite (fun _ => ords_self) fun _ => ords_same rfl

theorem ords_acreSemLoop {pk : TCsem} : ∀ (n : Nat) (i : Int), Ords a (acreSemLoop pk a n i)
  | 0, _ => ords_self
  | n + 1, i => by
    unfold Spec.acreSemLoop
    exact .bind' fun k _ => .ite (fun _ => ords_creSem.newId) fun _ => ords_acreSemLoop n (i + 1)

theorem Inv.ords_waiSem {semid : Int} (h : Inv a) : Ords a (Spec._waiSem semid tmout a) := by
  unfold Spec._waiSem
  refine .ite (fun _ => ords_self) fun _ => .bind' fun i _ => .ite (fun _ => ords_self) fun _ => ?_
  refine .bind' fun t ht => ?_
  have hr := h.ready_of_runTcb ht
  have herc : ∀ e : ER, Ordinarily a (a.setTcb t fun tcb => { tcb with ercd := e }) := fun e =>
    .setTcb_ready h.toSettled hr fun tcb => ⟨e, tcb.waitinfo, rfl⟩
  refine .ite (fun _ => .ok (herc .ok)) fun _ => .ite (fun _ => .ok ?_) fun _ => .ok (herc .tmout)
  exact .setTcb_objWait h.toSettled hr (fun tcb => ⟨.tmout, tcb.waitinfo, rfl⟩) (.sem i) tmout

theorem Settled.ords_sigSem {semid : Int} (h : Settled a) : Ords a (Spec._sigSem semid a) := by
  unfold Spec._sigSem
  refine .ite (fun _ => ords_self) fun _ => .bind' fun i _ => .ite (fun _ => ords_self) fun _ => ?_
  split
  · next t ts hq => exact .ok (Ordinarily.release h (o := .sem i) (by rw [hq]; simp) .ok)
  · exact .ite (fun _ => ords_self) fun _ => ords_same rfl

theorem Settled.ords_delSem {semid : Int} (h : Settled a) : Ords a (Spec.delSem semid a) := by
  unfold Spec.delSem
  refine .ite (fun _ => ords_self) fun _ => .bind' fun i _ => .ite (fun _ => ords_self) fun _ => ?_
  exact .ok (Ordinarily.releaseAll h (.sem i))

theorem ords_creFlg {flgid : Int} {pk : TCflg} : Ords a (_creFlg flgid pk a) := by
  unfold Spec._creFlg
  refine .ite (fun _ => ords_self) fun _ => .bind' fun i _ => ?_
  exact .ite (fun _ => ords_self) fun _ => ords_same rfl

theorem ords_acreFlgLoop {pk : TCflg} : ∀ (n : Nat) (i : Int), Ords a (acreFlgLoop pk a n i)
  | 0, _ => ords_self
  | n + 1, i => by
    unfold Spec.acreFlgLoop
    exact .bind' fun k _ => .ite (fun _ => ords_creFlg.newId) fun _ => ords_acreFlgLoop n (i + 1)

theorem Settled.ords_setFlg {flgid : Int} {setptn : FLGPTN} (h : Settled a) :
    Ords a (Spec._setFlg flgid setptn a) := by
  unfold Spec._setFlg
  refine .ite (fun _ => ords_self) fun _ => .bind' fun i _ => .ite (fun _ => ords_self) fun _ => ?_
  have hset : Settled (a.setCore (Core.setFlgcb i fun cb => { cb with flgptn := cb.flgptn ||| setptn })) :=
    (h.setFlgcb fun _ => rfl).settled
  exact .ok (.of_tcb_left rfl (Ordinarily.offerAll _ _ (hset.nodup _) (fun _ ht => ht) hset).1)

theorem ords_clrFlg {flgid : Int} {clrptn : FLGPTN} : Ords a (clrFlg flgid clrptn a) := by
  unfold Spec.clrFlg
  refine .ite (fun _ => ords_self) fun _ => .bind' fun i _ => ?_
  exact .ite (fun _ => ords_self) fun _ => ords_same rfl

theorem Inv.ords_waiFlg {flgid : Int} {waiptn : FLGPTN} {wfmode : MODE} {p : VP} (h : Inv a) :
    Ords a (Spec._waiFlg flgid waiptn wfmode p tmout a) := by
  unfold Spec._waiFlg
  refine .ite (fun _ => ords_self) fun _ => .ite (fun _ => ords_self) fun _ => ?_
  refine .bind' fun i _ => .bind' fun t ht => ?_
  have hr := h.ready_of_runTcb ht
  have herc : ∀ e : ER, Ordinarily a (a.setTcb t fun tcb => { tcb with ercd := e }) := fun e =>
    .setTcb_ready h.toSettled hr fun tcb => ⟨e, tcb.waitinfo, rfl⟩
  refine .ite (fun _ => .ok (herc _)) fun _ => .ite (fun _ => .ok (herc _)) fun _ => ?_
  refine .ite (fun _ => .ok (herc .ok)) fun _ => .ite (fun _ => .ok ?_) fun _ => .ok (herc .tmout)
  have hset : ∀ b : Model cfg, (b.setTcb t fun tcb => { tcb with ercd := .tmout }).setTcb t
      (fun tcb => { tcb with waitinfo := .flg waiptn wfmode p }) = b.setTcb t fun tcb =>
        { tcb with ercd := .tmout, waitinfo := .flg waiptn wfmode p } := by
    intro b
    simp [Model.setTcb, Model.setCore, Core.setTcb]
  dsimp only
  rw [hset]
  exact .setTcb_objWait h.toSettled hr (fun tcb => ⟨.tmout, _, rfl⟩) (.flg i) tmout

theorem Settled.ords_delFlg {flgid : Int} (h : Settled a) : Ords a (Spec.delFlg flgid a) := by
  unfold Spec.delFlg
  refine .ite (fun _ => ords_self) fun _ => .bind' fun i _ => .ite (fun _ => ords_self) fun _ => ?_
  exact .ok (Ordinarily.releaseAll h (.flg i))

theorem ords_creMbx {mbxid : Int} {pk : TCmbx} : Ords a (_creMbx mbxid pk a) := by
  unfold Spec._creMbx
  refine .ite (fun _ => ords_self) fun _ => .bind' fun i _ => ?_
  exact .ite (fun _ => ords_self) fun _ => ords_same rfl

theorem ords_acreMbxLoop {pk : TCmbx} : ∀ (n : Nat) (i : Int), Ords a (acreMbxLoop pk a n i)
  | 0, _ => ords_self
  | n + 1, i => by
    unfold Spec.acreMbxLoop
    exact .bind' fun k _ => .ite (fun _ => ords_creMbx.newId) fun _ => ords_acreMbxLoop n (i + 1)

theorem Settled.ords_sndMbx {mbxid : Int} {m : Fin cfg.nmsg} (h : Settled a) :
    Ords a (Spec._sndMbx mbxid m a) := by
  unfold Spec._sndMbx
  refine .ite (fun _ => ords_self) fun _ => .bind' fun i _ => .ite (fun _ => ords_self) fun _ => ?_
  refine .ite (fun _ => ords_self) fun _ => ?_
  split
  · next t ts hq =>
    have hset : Settled (a.setCore fun c => { c with
        msgvar := Function.update c.msgvar (c.tcb t).waitinfo.ppkMsg (.pkt m) }) :=
      (h.setRest rfl rfl rfl rfl rfl).settled
    exact .ok (Ordinarily.release hset (o := .mbx i) (show t ∈ a.queue _ by rw [hq]; simp) .ok)
  · exact .bind' fun c hc => ords_same (enqueueMsg_same m i a.core c hc).tcb

theorem Inv.ords_rcvMbx {mbxid : Int} {p : VP} (h : Inv a) : Ords a (Spec._rcvMbx mbxid p tmout a) := by
  unfold Spec._rcvMbx
  refine .ite (fun _ => ords_self) fun _ => .ite (fun _ => ords_self) fun _ => ?_
  refine .bind' fun i _ => .bind' fun t ht => ?_
  have hr := h.ready_of_runTcb ht
  have herc : ∀ e : ER, Ordinarily a (a.setTcb t fun tcb => { tcb with ercd := e }) := fun e =>
    .setTcb_ready h.toSettled hr fun tcb => ⟨e, tcb.waitinfo, rfl⟩
  refine .ite (fun _ => .ok (herc _)) fun _ => .ite (fun _ => .ok (herc .ok)) fun _ => ?_
  refine .ite (fun _ => .ok ?_) fun _ => .ok (herc .tmout)
  have hset : ∀ b : Model cfg, (b.setTcb t fun tcb => { tcb with ercd := .tmout }).setTcb t
      (fun tcb => { tcb with waitinfo := .mbx p }) = b.setTcb t fun tcb =>
        { tcb with ercd := .tmout, waitinfo := .mbx p } := by
    intro b
    simp [Model.setTcb, Model.setCore, Core.setTcb]
  dsimp only
  rw [hset]
  exact .setTcb_objWait h.toSettled hr (fun tcb => ⟨.tmout, _, rfl⟩) (.mbx i) tmout

theorem Settled.ords_delMbx {mbxid : Int} (h : Settled a) : Ords a (Spec.delMbx mbxid a) := by
  unfold Spec.delMbx
  refine .ite (fun _ => ords_self) fun _ => .bind' fun i _ => .ite (fun _ => ords_self) fun _ => ?_
  exact .ok (Ordinarily.releaseAll h (.mbx i))

/-- The calls that create, delete, start or end a task, and those that count. -/
def Call.counting : Call cfg → Prop
  | .creTsk _ _ | .acreTsk _ | .delTsk _ | .actTsk _ | .iactTsk _ | .extTsk | .slpTsk | .tslpTsk _
  | .wupTsk _ | .iwupTsk _ | .canWup _ => True
  | _ => False

/-- **All other calls are ordinary for every task.** -/
theorem exec_ordinary (h : Inv a) (hc : ¬ Call.counting c) : Ords a (exec c a) := by
  have hs := h.toSettled
  cases c with
  | creTsk | acreTsk | delTsk | actTsk | iactTsk | extTsk | slpTsk | tslpTsk | wupTsk | iwupTsk
  | canWup => exact absurd trivial hc
  | chgPri tskid tskpri => exact hs.ords_chgPri
  | rotRdq tskpri => exact ords_rotRdq
  | dlyTsk dlytim =>
    exact .bind' fun t ht => .ok (Ordinarily.delay hs (h.ready_of_runTcb ht) _)
  | susTsk tskid => exact hs.ords_susTsk
  | rsmTsk tskid => exact ords_rsmTsk
  | creSem semid pk => exact .ite (fun _ => ords_self) fun _ => ords_creSem
  | acreSem pk => exact ords_acreSemLoop _ _
  | waiSem semid => exact h.ords_waiSem
  | twaiSem semid tmout => exact h.ords_waiSem
  | polSem semid => exact h.ords_waiSem
  | sigSem semid => exact hs.ords_sigSem.dispatchAll
  | isigSem semid => exact hs.ords_sigSem
  | delSem semid => exact hs.ords_delSem
  | refSem semid => exact fun v hv => .of_tcb (by rw [exec_refSem hv])
  | creFlg flgid pk => exact .ite (fun _ => ords_self) fun _ => ords_creFlg
  | acreFlg pk => exact ords_acreFlgLoop _ _
  | setFlg flgid setptn => exact hs.ords_setFlg.dispatchAll
  | isetFlg flgid setptn => exact hs.ords_setFlg
  | clrFlg flgid clrptn => exact ords_clrFlg
  | waiFlg flgid waiptn wfmode p => exact h.ords_waiFlg
  | twaiFlg flgid waiptn wfmode p tmout => exact h.ords_waiFlg
  | polFlg flgid waiptn wfmode p => exact h.ords_waiFlg
  | refFlg flgid => exact fun v hv => .of_tcb (by rw [exec_refFlg hv])
  | delFlg flgid => exact hs.ords_delFlg
  | creMbx mbxid pk => exact .ite (fun _ => ords_self) fun _ => ords_creMbx
  | acreMbx pk => exact ords_acreMbxLoop _ _
  | sndMbx mbxid m => exact hs.ords_sndMbx.dispatchAll
  | rcvMbx mbxid p => exact h.ords_rcvMbx
  | trcvMbx mbxid p tmout => exact h.ords_rcvMbx
  | prcvMbx mbxid p => exact h.ords_rcvMbx
  | refMbx mbxid => exact fun v hv => .of_tcb (by rw [exec_refMbx hv])
  | delMbx mbxid => exact hs.ords_delMbx
  | timerHandler => exact .ok (Ordinarily.timerHandler hs)
  | dispatch => exact ords_same rfl
  | setMsgpri m pri => exact ords_same rfl

end Ittrium.Spec
