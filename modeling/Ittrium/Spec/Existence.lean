import Ittrium.Spec.Timers

/-!
# Which tasks and semaphores exist

* `TskCreated`, `SemCreated` — what creating one does
* `exec_tsk_lasts`, `exec_sem_lasts` — **only `del_tsk` removes a task, only `del_sem` a semaphore**
-/

namespace Ittrium.Spec

open Infra

variable {cfg : Config} {a a' : Model cfg} {t : TskIx cfg} {i : SemIx cfg} {c : Call cfg} {r : Ret cfg}

/-! ## Tasks -/

/-- A task has been created under an ID. -/
def TskCreated (tskid : Int) (pk : TCtsk) (a a' : Model cfg) : Prop :=
  ∃ t, getTcb tskid = .ok t ∧ (a.core.tcb t).state = .noexs ∧ pk.stk ≠ 0 ∧ a' = a.create t pk

theorem TskCreated.exists {tskid : Int} {pk : TCtsk} (h : TskCreated tskid pk a a')
    (ht : getTcb tskid = .ok t) :
    (a.core.tcb t).state = .noexs ∧ (a'.core.tcb t).state ≠ .noexs := by
  obtain ⟨u, hu, hs, -, rfl⟩ := h
  obtain rfl : t = u := Except.ok.inj (ht.symm.trans hu)
  refine ⟨hs, ?_⟩
  show TCB.state ((taskMakeDormant t _).tcb t) ≠ _
  rw [taskMakeDormant_tcb_self]
  simp

theorem creTsk_cases {tskid : Int} {pk : TCtsk} :
    Ensures (creTsk tskid pk a) fun v =>
      (v.1 = a ∧ ∃ e, e ≠ .ok ∧ v.2 = .er e) ∨ (v.2 = .er .ok ∧ TskCreated tskid pk a v.1) := by
  unfold creTsk
  refine .ite (fun _ => .ok (Or.inl ⟨rfl, _, by simp, rfl⟩)) fun _ => .bind' fun t ht => ?_
  refine .ite (fun _ => .ok (Or.inl ⟨rfl, _, by simp, rfl⟩)) fun hs => ?_
  refine .ite (fun _ => .ok (Or.inl ⟨rfl, _, by simp, rfl⟩)) fun hk => ?_
  exact .ok (Or.inr ⟨rfl, t, ht, not_not.mp hs, hk, rfl⟩)

theorem acreTskLoop_newId {pk : TCtsk} : ∀ (n : Nat) (k : Int),
    Ensures (acreTskLoop pk a n k) fun v => ∀ id, v.2 = .newId id → TskCreated id pk a v.1
  | 0, _ => .ok fun _ h => by cases h
  | n + 1, k => by
    unfold acreTskLoop
    refine .bind' fun t _ => .ite (fun _ => ?_) fun _ => acreTskLoop_newId n (k + 1)
    refine .bind (creTsk_cases.mono fun v hv => .ok fun id hid => ?_)
    rcases hv with ⟨-, e, he, hr⟩ | ⟨hr, hc⟩ <;> dsimp only at hid <;> rw [hr] at hid
    · simp [he] at hid
    · obtain rfl : k = id := by simpa using hid
      exact hc

/-- A step that has created a task: the ID, the packet and the result. -/
def CreatesTsk (tskid : Int) (pk : TCtsk) (c : Call cfg) (r : Ret cfg) : Prop :=
  (c = .creTsk tskid pk ∧ r = .er .ok) ∨ (c = .acreTsk pk ∧ r = .newId tskid)

theorem exec_createsTsk {tskid : Int} {pk : TCtsk} (hc : CreatesTsk tskid pk c r)
    (he : exec c a = .ok (a', r)) : TskCreated tskid pk a a' := by
  rcases hc with ⟨rfl, rfl⟩ | ⟨rfl, rfl⟩
  · rcases creTsk_cases _ he with ⟨-, e, he, hr⟩ | ⟨-, hc⟩
    · exact absurd (Ret.er.inj hr).symm he
    · exact hc
  · exact acreTskLoop_newId _ _ _ he _ rfl

/-- **Only `del_tsk` removes a task.** -/
theorem exec_tsk_lasts (h : Inv a) (hs : Sound a.core c) (he : exec c a = .ok (a', r))
    (ht : (a.core.tcb t).state ≠ .noexs)
    (hd : ∀ tskid, c = .delTsk tskid → getTcb tskid = .ok t → r ≠ .er .ok) :
    (a'.core.tcb t).state ≠ .noexs := by
  by_cases hdel : ∃ tskid, c = .delTsk tskid
  · obtain ⟨tskid, rfl⟩ := hdel
    rcases delTsk_cases he with rfl | ⟨hr, u, hu, -, rfl⟩
    · exact ht
    · have hne : t ≠ u := by
        rintro rfl
        exact hd tskid rfl hu hr
      show ((a.delete u).core.tcb t).state ≠ _
      rwa [(Others.delete h.toSettled).tcb t hne]
  · by_cases hc : c = .timerHandler
    · subst hc
      obtain rfl : timerHandler a = a' := congrArg Prod.fst (Except.ok.inj he)
      rw [h.toSettled.timerHandler_tcb]
      have hacc : (accountTcb a t).state ≠ .noexs := by
        unfold accountTcb
        dsimp only
        split <;> exact ht
      split
      · unfold tickTcb
        dsimp only
        split
        · dsimp only
          split <;> simp
        · exact hacc
      · exact hacc
    · by_cases hr : r = .blocked
      · subst hr
        -- only the caller of a call that blocks changes, and it waits
        obtain ⟨u, _, _, b, _, _, hb, rfl⟩ := exec_blocks h hs he
        show (b.core.tcb t).state ≠ _
        by_cases htu : t = u
        · rw [htu, hb.wait]
          simp
        · rwa [hb.others.tcb t htu]
      · exact (exec_quiet hc (fun tskid hd' => hdel ⟨tskid, hd'⟩) _ he hr t).lasts ht

/-! ## Semaphores -/

theorem SemCreated.exists {semid : Int} {pk : TCsem} (h : SemCreated semid pk a a')
    (hi : getSemcb semid = .ok i) :
    (a.core.semcb i).obj.state = .noexs ∧ (a'.core.semcb i).obj.state ≠ .noexs := by
  obtain ⟨j, hj, hs, -, rfl⟩ := h
  obtain rfl : i = j := Except.ok.inj (hi.symm.trans hj)
  refine ⟨hs, ?_⟩
  simp [Core.setSemcb]

theorem delSem_ok {semid : Int} (hi : getSemcb semid = .ok i)
    (hs : (a.core.semcb i).obj.state ≠ .noexs) :
    Ensures (delSem semid a) fun v => v.2 = .er .ok := by
  unfold delSem
  rw [badSemid_of_ok hi, hi]
  refine .ite (fun hf => absurd hf (by simp)) fun _ => .bind' fun j hj => ?_
  obtain rfl := Except.ok.inj hj
  exact .ite (fun hn => absurd hn hs) fun _ => .ok rfl

theorem SigSem.state {b : Model cfg} (h : SigSem i a r b) :
    (b.core.semcb i).obj.state = (a.core.semcb i).obj.state := by
  cases h with
  | @served t _ _ => rw [(release_objects t .ok a).1]
  | counted => simp [Model.setCore, Core.setSemcb]
  | full => rfl

theorem WaiSem.state {b : Model cfg} (h : WaiSem i a r b) (hr : r ≠ .blocked) :
    (b.core.semcb i).obj.state = (a.core.semcb i).obj.state := by
  cases h with
  | obtained => simp [Model.setCore, Model.setTcb, Core.setTcb, Core.setSemcb]
  | failed => rfl
  | blocked => exact absurd rfl hr

/-- **Only `del_sem` removes a semaphore.** -/
theorem exec_sem_lasts (h : Inv a) (hs : Sound a.core c) (he : exec c a = .ok (a', r))
    (hi : (a.core.semcb i).obj.state ≠ .noexs)
    (hd : ∀ semid, c = .delSem semid → getSemcb semid = .ok i → r ≠ .er .ok) :
    (a'.core.semcb i).obj.state ≠ .noexs := by
  have hobj : ∀ {x : Exec (SemIx cfg)}, x.toOption.map ObjId.sem = some (.sem i) → x = .ok i :=
    ok_of_toOption_map fun _ _ => ObjId.sem.inj
  by_cases hscope : Call.obj c = some (.sem i)
  · by_cases hr : r = .blocked
    · subst hr
      obtain ⟨_, _, _, b, _, _, hb, rfl⟩ := exec_blocks h hs he
      show (b.core.semcb i).obj.state ≠ _
      rwa [hb.others.objects.semcb]
    · have hsig : Signals i c → (a'.core.semcb i).obj.state ≠ .noexs := by
        intro hc
        obtain ⟨b, hb, hu⟩ := exec_sigSem hc hi he
        rwa [hu.core, hb.state]
      have hwai : Requests i c → (a'.core.semcb i).obj.state ≠ .noexs := by
        intro hc
        obtain ⟨b, hb, hu⟩ := exec_waiSem hc hi he
        rwa [hu.core, hb.state hr]
      cases c with
      | creSem semid pk =>
        rw [(exec_creSem_exists (hobj hscope) hi he).1]
        exact hi
      | delSem semid => exact absurd (delSem_ok (hobj hscope) hi _ he) (hd semid rfl (hobj hscope))
      | refSem semid =>
        rw [exec_refSem he]
        exact hi
      | sigSem semid => exact hsig (hobj hscope)
      | isigSem semid => exact hsig (hobj hscope)
      | waiSem semid => exact hwai (hobj hscope)
      | twaiSem semid tmout => exact hwai (hobj hscope)
      | polSem semid => exact hwai (hobj hscope)
      | creFlg | setFlg | isetFlg | clrFlg | waiFlg | twaiFlg | polFlg | refFlg | delFlg =>
        obtain ⟨j, -, hj⟩ := Option.map_eq_some_iff.mp hscope
        cases hj
      | creMbx | sndMbx | rcvMbx | trcvMbx | prcvMbx | refMbx | delMbx =>
        obtain ⟨j, -, hj⟩ := Option.map_eq_some_iff.mp hscope
        cases hj
      | _ => cases hscope
  -- a call on another object leaves the semaphore alone
  · rw [(exec_frame h hs _ he).semcb i fun hdata => hdata.elim hscope hi]
    exact hi

end Ittrium.Spec
