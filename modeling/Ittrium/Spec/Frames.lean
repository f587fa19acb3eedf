import Ittrium.Spec.Steps

/-!
# What a step leaves alone

* `Scope`, `Call.scope` — the objects whose data and line a call may change
* `Frame S a a'` — everything outside the scope is the same
* `exec_frame` — **a call keeps to its scope**
-/

namespace Ittrium.Spec

open Infra

variable {cfg : Config} {a a' a'' : Model cfg} {l : Line cfg} {t u : TskIx cfg} {o : ObjId cfg}
  {r : Ret cfg}

/-! ## Scopes -/

/-- What a call may change. -/
structure Scope (cfg : Config) where
  /-- Objects whose control block may change. -/
  data : ObjId cfg → Prop
  /-- Objects whose line may change. -/
  queue : ObjId cfg → Prop
  /-- Messages may be linked, unlinked or written. -/
  messages : Prop
  /-- A task may be suspended. -/
  suspends : Prop

/-- The object whose ID a call is given. -/
def Call.obj : Call cfg → Option (ObjId cfg)
  | .creSem semid _ | .waiSem semid | .twaiSem semid _ | .polSem semid | .sigSem semid
  | .isigSem semid | .delSem semid | .refSem semid => (getSemcb semid).toOption.map .sem
  | .creFlg flgid _ | .setFlg flgid _ | .isetFlg flgid _ | .clrFlg flgid _ | .waiFlg flgid _ _ _
  | .twaiFlg flgid _ _ _ _ | .polFlg flgid _ _ _ | .refFlg flgid | .delFlg flgid =>
    (getFlgcb flgid).toOption.map .flg
  | .creMbx mbxid _ | .sndMbx mbxid _ | .rcvMbx mbxid _ | .trcvMbx mbxid _ _ | .prcvMbx mbxid _
  | .refMbx mbxid | .delMbx mbxid => (getMbxcb mbxid).toOption.map .mbx
  | _ => none

/-- The `acre_*` calls take an object that does not exist, and nobody else touches those. -/
def Call.scope (core : Core cfg) (c : Call cfg) : Scope cfg where
  data o := Call.obj c = some o ∨ (core.objcb o).state = .noexs
  queue o :=
    match c with
    | .delTsk _ | .timerHandler => True
    | _ => Call.obj c = some o
  messages :=
    match c with
    | .creMbx _ _ | .acreMbx _ | .sndMbx _ _ | .rcvMbx _ _ | .trcvMbx _ _ _ | .prcvMbx _ _
    | .delMbx _ | .setMsgpri _ _ => True
    | _ => False
  suspends :=
    match c with
    | .susTsk _ => True
    | _ => False

/-- Suspended, and maybe waiting as well. -/
def Suspended (st : Stat) : Prop := st = .sus ∨ st = .was

/-- Nothing outside the scope has changed. -/
structure Frame (S : Scope cfg) (a a' : Model cfg) : Prop where
  semcb : ∀ i, ¬ S.data (.sem i) → a'.core.semcb i = a.core.semcb i
  flgcb : ∀ i, ¬ S.data (.flg i) → a'.core.flgcb i = a.core.flgcb i
  mbxcb : ∀ i, ¬ S.data (.mbx i) → a'.core.mbxcb i = a.core.mbxcb i
  queue : ∀ o, ¬ S.queue o → a'.queue (.waitq o) = a.queue (.waitq o)
  messages : ¬ S.messages → a'.core.msgque = a.core.msgque ∧ a'.core.msgpri = a.core.msgpri
  /-- No task gets suspended. -/
  suspended : ¬ S.suspends → ∀ t,
    Suspended (a'.core.tcb t).state → Suspended (a.core.tcb t).state
  /-- A task that neither waits nor runs keeps the result of its last call. -/
  ercd : ∀ t, ¬ (a.core.tcb t).state.waiting → a.runtsk ≠ some t →
    ¬ (a'.core.tcb t).state.waiting ∧ (a'.core.tcb t).ercd = (a.core.tcb t).ercd

namespace Frame

variable {S : Scope cfg}

theorem refl (a : Model cfg) : Frame S a a where
  semcb := fun _ _ => rfl
  flgcb := fun _ _ => rfl
  mbxcb := fun _ _ => rfl
  queue := fun _ _ => rfl
  messages := fun _ => ⟨rfl, rfl⟩
  suspended := fun _ _ h => h
  ercd := fun _ h _ => ⟨h, rfl⟩

theorem trans (h : Frame S a a') (hr : a'.runtsk = a.runtsk) (h' : Frame S a' a'') :
    Frame S a a'' where
  semcb := fun i hi => (h'.semcb i hi).trans (h.semcb i hi)
  flgcb := fun i hi => (h'.flgcb i hi).trans (h.flgcb i hi)
  mbxcb := fun i hi => (h'.mbxcb i hi).trans (h.mbxcb i hi)
  queue := fun o ho => (h'.queue o ho).trans (h.queue o ho)
  messages := fun hm =>
    ⟨(h'.messages hm).1.trans (h.messages hm).1, (h'.messages hm).2.trans (h.messages hm).2⟩
  suspended := fun hs t ht => h.suspended hs t (h'.suspended hs t ht)
  ercd := fun t hw hrun => by
    obtain ⟨hw₁, he₁⟩ := h.ercd t hw hrun
    obtain ⟨hw₂, he₂⟩ := h'.ercd t hw₁ (by rw [hr]; exact hrun)
    exact ⟨hw₂, he₂.trans he₁⟩

theorem dispatch (h : Frame S a a') : Frame S a a'.dispatch :=
  ⟨h.semcb, h.flgcb, h.mbxcb, h.queue, h.messages, h.suspended, h.ercd⟩

/-- Only `t` is touched. -/
theorem of_others (ho : Others t a a')
    (hq : ∀ o, ¬ S.queue o → a'.queue (.waitq o) = a.queue (.waitq o))
    (hs : ¬ S.suspends → Suspended (a'.core.tcb t).state → Suspended (a.core.tcb t).state)
    (he : ¬ (a.core.tcb t).state.waiting → a.runtsk ≠ some t →
      ¬ (a'.core.tcb t).state.waiting ∧ (a'.core.tcb t).ercd = (a.core.tcb t).ercd) :
    Frame S a a' where
  semcb := fun i _ => by rw [ho.objects.semcb]
  flgcb := fun i _ => by rw [ho.objects.flgcb]
  mbxcb := fun i _ => by rw [ho.objects.mbxcb]
  queue := hq
  messages := fun _ => ⟨ho.objects.msgque, ho.objects.msgpri⟩
  suspended := fun hS u hu => by
    by_cases hut : u = t
    · subst hut; exact hs hS hu
    · rwa [ho.tcb u hut] at hu
  ercd := fun u hw hr => by
    by_cases hut : u = t
    · subst hut; exact he hw hr
    · rw [ho.tcb u hut]; exact ⟨hw, rfl⟩

theorem setTcb {f : TCB cfg → TCB cfg}
    (hs : ¬ S.suspends → Suspended (f (a.core.tcb t)).state → Suspended (a.core.tcb t).state)
    (he : ¬ (a.core.tcb t).state.waiting → a.runtsk ≠ some t →
      ¬ (f (a.core.tcb t)).state.waiting ∧ (f (a.core.tcb t)).ercd = (a.core.tcb t).ercd) :
    Frame S a (a.setTcb t f) := by
  refine of_others (.setTcb t f a) (fun _ _ => rfl) ?_ ?_ <;> rw [Model.setTcb_tcb_self]
  · exact hs
  · exact he

/-- Data of one task that is neither about its wait nor its result. -/
theorem setTcb_same {f : TCB cfg → TCB cfg}
    (hf : (f (a.core.tcb t)).state = (a.core.tcb t).state ∧
      (f (a.core.tcb t)).ercd = (a.core.tcb t).ercd) : Frame S a (a.setTcb t f) :=
  setTcb (fun _ h => hf.1 ▸ h) fun hw _ => ⟨by rw [hf.1]; exact hw, hf.2⟩

/-- Data of the running task that is not about its wait. -/
theorem setTcb_run {f : TCB cfg → TCB cfg} (hr : a.runtsk = some t)
    (hf : (f (a.core.tcb t)).state = (a.core.tcb t).state) : Frame S a (a.setTcb t f) :=
  setTcb (fun _ h => hf ▸ h) fun _ hne => absurd hr hne

theorem makeUnready (hnd : ∀ l, (a.queue l).Nodup) : Frame S a (a.makeUnready t) :=
  of_others (.makeUnready hnd) (fun _ _ => Model.makeUnready_queue_of_ne (by simp))
    (fun _ h => h) fun hw _ => ⟨hw, rfl⟩

theorem makeReady (t : TskIx cfg) (a : Model cfg) : Frame S a (a.makeReady t) := by
  refine of_others (.makeReady t a) (fun _ _ => Model.makeReady_queue_of_ne (by simp)) ?_ ?_ <;>
    rw [Model.makeReady_tcb]
  · intro _ h
    simp [Suspended] at h
  · exact fun _ _ => ⟨by simp [Stat.waiting_iff], rfl⟩

theorem taskMakeDormant (t : TskIx cfg) (a : Model cfg) :
    Frame S a (a.setCore (taskMakeDormant t)) := by
  have htcb : (a.setCore (Ittrium.taskMakeDormant t)).core.tcb t = _ :=
    taskMakeDormant_tcb_self t a.core
  refine of_others (.taskMakeDormant t a) (fun _ _ => rfl) ?_ ?_ <;> rw [htcb]
  · intro _ h
    simp [Suspended] at h
  · exact fun _ _ => ⟨by simp [Stat.waiting_iff], rfl⟩

theorem activate (t : TskIx cfg) (a : Model cfg) : Frame S a (a.activate t) := by
  obtain ⟨ctx, hctx⟩ := makeTaskContext_tcb_self t a.core
  have htcb : (a.setCore (makeTaskContext t)).core.tcb t = _ := hctx
  have hctx : Frame S a (a.setCore (makeTaskContext t)) := by
    refine of_others (.makeTaskContext t a) (fun _ _ => rfl) ?_ ?_ <;> rw [htcb]
    · exact fun _ h => h
    · exact fun hw _ => ⟨hw, rfl⟩
  exact hctx.trans rfl (makeReady t _)

/-- Data that is not of a task. -/
theorem setCore {f : Core cfg → Core cfg} (ht : (f a.core).tcb = a.core.tcb)
    (hs : ∀ i, ¬ S.data (.sem i) → (f a.core).semcb i = a.core.semcb i)
    (hf : ∀ i, ¬ S.data (.flg i) → (f a.core).flgcb i = a.core.flgcb i)
    (hm : ∀ i, ¬ S.data (.mbx i) → (f a.core).mbxcb i = a.core.mbxcb i)
    (hmsg : ¬ S.messages → (f a.core).msgque = a.core.msgque ∧ (f a.core).msgpri = a.core.msgpri) :
    Frame S a (a.setCore f) where
  semcb := hs
  flgcb := hf
  mbxcb := hm
  queue := fun _ _ => rfl
  messages := hmsg
  suspended := fun _ t h => by rwa [show (a.setCore f).core.tcb = a.core.tcb from ht] at h
  ercd := fun t hw _ => by
    rw [show (a.setCore f).core.tcb = a.core.tcb from ht]
    exact ⟨hw, rfl⟩

/-- A loop over tasks of a line, each of which keeps to the scope. -/
theorem foldl {op : Model cfg → TskIx cfg → Model cfg}
    (hop : ∀ a t, Settled a → t ∈ a.queue l →
      Steady a (op a t) ∧ Stays l t a (op a t) ∧ Frame S a (op a t)) :
    ∀ (ts : List (TskIx cfg)) (a : Model cfg), ts.Nodup → (∀ t ∈ ts, t ∈ a.queue l) → Settled a →
      Frame S a (ts.foldl op a)
  | [], a, _, _, _ => refl a
  | t :: ts, a, hnd, hm, h => by
    obtain ⟨hs, hst, hf⟩ := hop a t h (hm t (by simp))
    obtain ⟨hno, hnd'⟩ := List.nodup_cons.mp hnd
    refine hf.trans hs.runtsk (foldl hop ts _ hnd' (fun u hu => ?_) hs.settled)
    exact hst u (fun he => hno (he ▸ hu)) (hm u (by simp [hu]))

end Frame

/-! ## State changes of a task -/

section

variable {S : Scope cfg}

/-- The wait of `t` ends; it stands in the line of an object in the scope, or of none. -/
theorem Settled.frame_release (h : Settled a) (e : ER) (hw : (a.core.tcb t).state.waiting)
    (ho : ∀ o, (a.core.tcb t).waitObj = some o → S.queue o) : Frame S a (a.release t e) := by
  refine .of_others (.release e h.nodup) (fun o hS => ?_) ?_ fun hn => absurd hw hn
  · rw [Model.release_eq, Model.leaveWait_queue_of_ne (by simp)]
    show (a.cancel t).queue _ = _
    unfold Model.cancel
    rcases Model.deqObj_cases t (a.deq .timer t) with ⟨-, h⟩ | ⟨o', ho', h⟩ <;> rw [h]
    · exact Model.deq_of_ne (by simp)
    · have hne : (Line.waitq o : Line cfg) ≠ .waitq o' := by
        rintro ⟨⟩
        exact hS (ho o ho')
      rw [Model.deq_of_ne hne, Model.deq_of_ne (by simp)]
  · rw [Model.release_tcb]
    intro _ hs
    rcases Stat.waiting_iff.mp hw with hw | hw
    · simp [hw, Suspended] at hs
    · exact Or.inr hw

theorem Settled.frame_endWait (h : Settled a) (hw : (a.core.tcb t).state.waiting)
    (ho : ∀ o, (a.core.tcb t).waitObj = some o → S.queue o) : Frame S a (a.endWait t) := by
  rw [Model.endWait_eq]
  exact h.frame_release _ hw ho

theorem Frame.create (pk : TCtsk) (hnd : ∀ l, (a.queue l).Nodup) : Frame S a (a.create t pk) := by
  have hdeq : Frame S a (a.deq .free t) :=
    .of_others (.deq (hnd _)) (fun _ _ => Model.deq_of_ne (by simp)) (fun _ h => h)
      fun hw _ => ⟨hw, rfl⟩
  exact hdeq.trans rfl (.trans (.setTcb_same ⟨rfl, rfl⟩) rfl (.taskMakeDormant t _))

/-- What is left of a task that is deleted. -/
theorem Model.delete_tcb_eq (t : TskIx cfg) (a : Model cfg) :
    (a.delete t).core.tcb t =
      { a.core.tcb t with
        state := .noexs
        actcnt := 0
        waitObj := none
        name := []
        stkBase := 0
        stksz := 0 } := by
  have hcore : (if (a.core.tcb t).state.waiting then a.cancel t
      else if (a.core.tcb t).state = .rdy then a.makeUnready t else a).core = a.core := by
    split
    · exact Model.cancel_core t a
    · split <;> rfl
  unfold Model.delete
  dsimp only
  rw [Model.enq_core, Model.setTcb_tcb_self, hcore]

theorem Settled.frame_delete (h : Settled a) (hS : ∀ o, S.queue o) : Frame S a (a.delete t) := by
  refine .of_others (.delete h) (fun o ho => absurd (hS o) ho) ?_ ?_ <;> rw [Model.delete_tcb_eq]
  · intro _ hs
    simp [Suspended] at hs
  · exact fun _ _ => ⟨by simp [Stat.waiting_iff], rfl⟩

theorem Settled.frame_changePri {p : Int} (h : Settled a) : Frame S a (a.changePri t p) := by
  refine .of_others (.changePri p h) (fun o _ => Model.changePri_waitq) ?_ ?_
  · rw [Model.changePri_tcb_self]; exact fun _ h => h
  · rw [Model.changePri_tcb_self]; exact fun hw _ => ⟨hw, rfl⟩

theorem Settled.frame_exit (h : Settled a) : Frame S a (a.exit t) := by
  have h₁ : Frame S a ((a.makeUnready t).setCore (taskMakeDormant t)) :=
    .trans (.makeUnready h.nodup) rfl (.taskMakeDormant t _)
  unfold Model.exit
  dsimp only
  split
  · exact h₁.trans rfl (.trans (.setTcb_same ⟨rfl, rfl⟩) rfl (.activate t _))
  · exact h₁

theorem Settled.frame_suspend (h : Settled a) (hS : S.suspends) : Frame S a (a.suspend t) := by
  have h₁ : Frame S a (a.setTcb t fun tcb => { tcb with suscnt := tcb.suscnt + 1 }) :=
    .setTcb (fun hn => absurd hS hn) fun hw _ => ⟨hw, rfl⟩
  unfold Model.suspend
  dsimp only
  split
  · refine h₁.trans rfl (.trans (.makeUnready h.nodup) rfl (.setTcb (fun hn => absurd hS hn) ?_))
    exact fun _ _ => ⟨by simp [Stat.waiting_iff], rfl⟩
  · split
    · next hw =>
      refine h₁.trans rfl (.setTcb (fun hn => absurd hS hn) fun hn => absurd ?_ hn)
      rw [Model.setTcb_tcb_self]
      exact hw
    · exact h₁

theorem Frame.resume (t : TskIx cfg) (a : Model cfg) : Frame S a (a.resume t) := by
  have h₁ : Frame S a (a.setTcb t fun tcb => { tcb with suscnt := tcb.suscnt - 1 }) :=
    .setTcb_same ⟨rfl, rfl⟩
  unfold Model.resume
  dsimp only
  split
  · split
    · next hw =>
      refine h₁.trans rfl (.setTcb (fun _ h => ?_) fun hn => absurd ?_ hn)
      · simp [Suspended] at h
      · rw [hw]
        rfl
    · exact h₁.trans rfl (.makeReady t _)
  · exact h₁

/-- The running task has begun to wait. -/
theorem Blocked.frame {o : Option (ObjId cfg)} {tmout : TMO} (h : Blocked t o tmout a a')
    (hr : a.runtsk = some t) (ho : ∀ o', o = some o' → S.queue o') : Frame S a a' := by
  refine .of_others h.others (fun o' hS => h.waitq o' fun he => hS (ho o' he)) (fun _ hs => ?_)
    fun _ hne => absurd hr hne
  simp [h.wait, Suspended] at hs

/-! ## Loops -/

theorem Settled.frame_releaseAll (h : Settled a) (o : ObjId cfg) (ho : S.queue o) :
    Frame S a (a.releaseAll o) := by
  refine .foldl (fun a t h ht => ?_) _ a (h.nodup (.waitq o)) (fun t ht => ht) h
  obtain ⟨hw, hwo⟩ := ((h.task t).waitq o).mp ht
  refine ⟨h.release _ hw, (Others.release _ h.nodup).stays _, h.frame_release _ hw fun o' ho' => ?_⟩
  rw [hwo] at ho'
  exact Option.some.inj ho' ▸ ho

theorem Settled.frame_offerAll (h : Settled a) (i : FlgIx cfg) (hd : S.data (.flg i))
    (hq : S.queue (.flg i)) :
    Frame S a ((a.queue (.waitq (.flg i))).foldl (fun a t => a.offer i t) a) := by
  refine .foldl (fun a t h ht => ⟨(h.offer ht).1, (h.offer ht).2, ?_⟩) _ a (h.nodup _)
    (fun _ ht => ht) h
  obtain ⟨hw, hwo⟩ := ((h.task t).waitq _).mp ht
  unfold Model.offer
  dsimp only
  split
  · have hset := h.setRest (f := fun c => { c with
      flgvar := Function.update c.flgvar (a.core.tcb t).waitinfo.pFlgptn (c.flgcb i).flgptn })
      rfl rfl rfl rfl rfl
    refine .trans (.setCore rfl (fun _ _ => rfl) (fun _ _ => rfl) (fun _ _ => rfl)
      fun _ => ⟨rfl, rfl⟩) rfl (.trans (hset.settled.frame_release .ok hw fun o ho => ?_)
      (Others.release .ok hset.settled.nodup).runtsk ?_)
    · exact Option.some.inj (hwo.symm.trans ho) ▸ hq
    · refine .setCore rfl (fun _ _ => rfl) (fun j hj => ?_) (fun _ _ => rfl) fun _ => ⟨rfl, rfl⟩
      exact Function.update_of_ne (fun he : j = i => hj (he ▸ hd)) _ _
  · exact .refl a

theorem Settled.frame_tickOne (h : Settled a) (hS : ∀ o, S.queue o)
    (hw : (a.core.tcb t).state.waiting) : Frame S a (a.tickOne t) := by
  have h₁ := h.setTcb (t := t) (f := fun tcb =>
    { tcb with wtmeb := { tcb.wtmeb with count := tcb.wtmeb.count - 1 } })
    ⟨rfl, rfl, rfl, rfl, rfl, rfl, rfl, rfl, fun _ => ⟨rfl, rfl⟩⟩
  unfold Model.tickOne
  dsimp only
  split
  · refine .trans (.setTcb_same ⟨rfl, rfl⟩) rfl (h₁.settled.frame_endWait ?_ fun o _ => hS o)
    rw [Model.setTcb_tcb_self]
    exact hw
  · exact .setTcb_same ⟨rfl, rfl⟩

theorem Settled.frame_tick (h : Settled a) (hS : ∀ o, S.queue o) : Frame S a a.tick := by
  refine .foldl (fun a t h ht => ?_) _ a (h.nodup .timer) (fun _ ht => ht) h
  have hw := ((h.task t).timer ht).1
  exact ⟨h.tickOne hw, (Others.tickOne h t).stays _, h.frame_tickOne hS hw⟩

theorem Frame.account (a : Model cfg) : Frame S a a.account := by
  have h₁ : ∀ f : Core cfg → Core cfg, (f a.core).tcb = a.core.tcb →
      SameObjects a.core (f a.core) → Frame S a (a.setCore f) := fun f ht ho =>
    .setCore ht (fun _ _ => by rw [ho.semcb]) (fun _ _ => by rw [ho.flgcb])
      (fun _ _ => by rw [ho.mbxcb]) fun _ => ⟨ho.msgque, ho.msgpri⟩
  unfold Model.account
  dsimp only
  refine .trans (h₁ (fun c => { c with telemetryWallTicks := c.telemetryWallTicks + 1 }) rfl
    ⟨rfl, rfl, rfl, rfl, rfl, rfl⟩) rfl ?_
  split
  · exact .setTcb_same ⟨rfl, rfl⟩
  · exact .setCore rfl (fun _ _ => rfl) (fun _ _ => rfl) (fun _ _ => rfl) fun _ => ⟨rfl, rfl⟩

theorem Settled.frame_timerHandler (h : Settled a) (hS : ∀ o, S.queue o) :
    Frame S a (Spec.timerHandler a) := by
  have h₀ : Settled (a.setCore fun c => (timerHwEnter c).2) := h.setTicks rfl rfl
  have hexit : ∀ c : Core cfg, (timerHwExit c).tcb = c.tcb ∧ (timerHwExit c).semcb = c.semcb ∧
      (timerHwExit c).flgcb = c.flgcb ∧ (timerHwExit c).mbxcb = c.mbxcb ∧
      (timerHwExit c).msgque = c.msgque ∧ (timerHwExit c).msgpri = c.msgpri := by
    intro c
    unfold timerHwExit
    split <;> exact ⟨rfl, rfl, rfl, rfl, rfl, rfl⟩
  refine .trans (.setCore rfl (fun _ _ => rfl) (fun _ _ => rfl) (fun _ _ => rfl)
    fun _ => ⟨rfl, rfl⟩) rfl (.trans (.account _) h₀.account.runtsk
    (.trans (h₀.account.settled.frame_tick hS) h₀.account.settled.tick.runtsk ?_))
  obtain ⟨h₁, h₂, h₃, h₄, h₅, h₆⟩ := hexit (a.setCore fun c => (timerHwEnter c).2).account.tick.core
  exact .setCore h₁ (fun _ _ => by rw [h₂]) (fun _ _ => by rw [h₃]) (fun _ _ => by rw [h₄])
    fun _ => ⟨h₅, h₆⟩

/-! ## Calls -/

/-- If the call returns at once, it keeps to the scope. -/
abbrev Framed (S : Scope cfg) (a : Model cfg) (x : Outcome cfg) : Prop :=
  Ensures x fun v => v.2 ≠ .blocked → Frame S a v.1

theorem Frame.framed (h : Frame S a a') : Framed S a (.ok (a', r)) := .ok fun _ => h

theorem framed_self : Framed S a (.ok (a, r)) := .ok fun _ => .refl a

theorem framed_blocked : Framed S a (.ok (a', .blocked)) := .ok fun h => absurd rfl h

theorem Framed.dispatchIfOk {x : Outcome cfg} (h : Framed S a x) :
    Framed S a (Spec.dispatchIfOk x) := by
  refine Ensures.bind (h.mono fun v hv => .ok fun hr => ?_)
  dsimp only
  split
  · exact (hv hr).dispatch
  · exact hv hr

theorem Framed.dispatchAll {x : Outcome cfg} (h : Framed S a x) :
    Framed S a (Spec.dispatchAll x) :=
  Ensures.bind (h.mono fun _ hv => .ok fun hr => (hv hr).dispatch)

theorem Settled.framed_creTsk {tskid : Int} {pk : TCtsk} (h : Settled a) :
    Framed S a (Spec.creTsk tskid pk a) := by
  unfold Spec.creTsk
  refine .ite (fun _ => framed_self) fun _ => .bind' fun t _ => ?_
  refine .ite (fun _ => framed_self) fun _ => .ite (fun _ => framed_self) fun _ => ?_
  exact (Frame.create pk h.nodup).framed

theorem Settled.framed_acreTskLoop {pk : TCtsk} (h : Settled a) :
    ∀ (n : Nat) (i : Int), Framed S a (Spec.acreTskLoop pk a n i)
  | 0, _ => framed_self
  | n + 1, i => by
    unfold Spec.acreTskLoop
    refine .bind' fun t _ => .ite (fun _ => ?_) fun _ => h.framed_acreTskLoop n (i + 1)
    refine .bind (h.framed_creTsk.mono fun v hv => .ok fun hr => hv fun he => hr ?_)
    dsimp only
    rw [he]
    rfl

theorem Settled.framed_delTsk {tskid : Int} (h : Settled a) (hS : ∀ o, S.queue o) :
    Framed S a (Spec.delTsk tskid a) := by
  unfold Spec.delTsk
  refine .ite (fun _ => framed_self) fun _ => .bind' fun t _ => ?_
  refine .ite (fun _ => framed_self) fun _ => .ite (fun _ => framed_self) fun _ => ?_
  exact (h.frame_delete hS).dispatch.framed

theorem framed_actTsk {tskid : Int} : Framed S a (_actTsk tskid a) := by
  unfold Spec._actTsk
  refine .ite (fun _ => framed_self) fun _ => .bind' fun t _ => ?_
  refine .ite (fun _ => framed_self) fun _ => .ite (fun _ => ?_) fun _ => ?_
  · exact .ite (fun _ => framed_self) fun _ => (Frame.setTcb_same ⟨rfl, rfl⟩).framed
  · exact (Frame.activate t a).framed

theorem Settled.framed_chgPri {tskid tskpri : Int} (h : Settled a) :
    Framed S a (Spec.chgPri tskid tskpri a) := by
  unfold Spec.chgPri
  refine .ite (fun _ => framed_self) fun _ => .ite (fun _ => framed_self) fun _ => ?_
  refine .bind' fun t _ => .ite (fun _ => framed_self) fun _ => ?_
  exact .ite (fun _ => framed_self) fun _ => h.frame_changePri.dispatch.framed

theorem Frame.rotate (p : Int) (a : Model cfg) : Frame S a (a.rotate (.ready p)) where
  semcb := fun _ _ => rfl
  flgcb := fun _ _ => rfl
  mbxcb := fun _ _ => rfl
  queue := fun o _ => by simp [Model.rotate]
  messages := fun _ => ⟨rfl, rfl⟩
  suspended := fun _ _ h => h
  ercd := fun _ h _ => ⟨h, rfl⟩

theorem framed_rotRdq {tskpri : Int} : Framed S a (rotRdq tskpri a) := by
  unfold Spec.rotRdq
  refine .ite (fun _ => (Frame.rotate _ a).dispatch.framed) fun _ => ?_
  exact .ite (fun _ => framed_self) fun _ => (Frame.rotate _ a).dispatch.framed

theorem Settled.framed_extTsk (h : Settled a) : Framed S a (Spec.extTsk a) := by
  unfold Spec.extTsk
  exact .bind' fun t _ => h.frame_exit.dispatch.framed

theorem framed_dlyTsk {dlytim : RELTIM} : Framed S a (dlyTsk dlytim a) := by
  unfold Spec.dlyTsk
  exact .bind' fun t _ => framed_blocked

theorem Settled.framed_susTsk {tskid : Int} (h : Settled a) (hS : S.suspends) :
    Framed S a (Spec.susTsk tskid a) := by
  unfold Spec.susTsk
  refine .ite (fun _ => framed_self) fun _ => .bind' fun t _ => ?_
  refine .ite (fun _ => (Frame.refl a).dispatch.framed) fun _ => ?_
  refine .ite (fun _ => (Frame.refl a).dispatch.framed) fun _ => ?_
  exact .ite (fun _ => (Frame.refl a).dispatch.framed) fun _ => (h.frame_suspend hS).dispatch.framed

theorem framed_rsmTsk {tskid : Int} : Framed S a (rsmTsk tskid a) := by
  unfold Spec.rsmTsk
  refine .ite (fun _ => framed_self) fun _ => .bind' fun t _ => ?_
  refine .ite (fun _ => (Frame.refl a).dispatch.framed) fun _ => ?_
  exact .ite (fun _ => (Frame.refl a).dispatch.framed) fun _ => (Frame.resume t a).dispatch.framed

theorem framed_slpTsk {tmout : TMO} : Framed S a (_slpTsk tmout a) := by
  unfold Spec._slpTsk
  refine .bind' fun t ht => ?_
  have hr := runTcb_eq ht
  refine .ite (fun _ => (Frame.setTcb_run hr rfl).dispatch.framed) fun _ => ?_
  exact .ite (fun _ => framed_blocked) fun _ => (Frame.setTcb_run hr rfl).dispatch.framed

theorem Settled.framed_wupTsk {tskid : Int} (h : Settled a) : Framed S a (Spec._wupTsk tskid a) := by
  unfold Spec._wupTsk
  refine .ite (fun _ => framed_self) fun _ => .bind' fun t _ => ?_
  refine .ite (fun _ => framed_self) fun hn => .ite (fun _ => framed_self) fun _ => ?_
  refine .ite (fun hw => ?_) fun _ => .ite (fun _ => framed_self) fun _ => ?_
  · -- a sleeping task waits for no object
    have hno := (((h.task t).tskwait hn).mp (by simp [hw.2])).2
    exact (h.frame_release .ok hw.1 fun o ho => by rw [hno] at ho; cases ho).framed
  · exact (Frame.setTcb_same ⟨rfl, rfl⟩).framed

theorem framed_canWup {tskid : Int} : Framed S a (canWup tskid a) := by
  unfold Spec.canWup
  refine .ite (fun _ => framed_self) fun _ => .bind' fun t _ => ?_
  refine .ite (fun _ => framed_self) fun _ => .ite (fun _ => framed_self) fun _ => ?_
  exact (Frame.setTcb_same ⟨rfl, rfl⟩).framed

/-! ## Calls on semaphores -/

/-- Data of one semaphore. -/
theorem Frame.setSemcb {i : SemIx cfg} {f : SEMCB → SEMCB} (hd : S.data (.sem i)) :
    Frame S a (a.setCore (Core.setSemcb i f)) :=
  .setCore rfl (fun j hj => Function.update_of_ne (fun he : j = i => hj (he ▸ hd)) _ _) (fun _ _ => rfl)
    (fun _ _ => rfl) fun _ => ⟨rfl, rfl⟩

/-- The list of free semaphores is nobody's data. -/
theorem Frame.setSem {i : SemIx cfg} {f : SEMCB → SEMCB} {free : List (SemIx cfg)}
    (hd : S.data (.sem i)) :
    Frame S a { a with freeSem := free, core := a.core.setSemcb i f } := by
  have h : Frame S a (a.setCore (Core.setSemcb i f)) := .setSemcb hd
  exact ⟨h.semcb, h.flgcb, h.mbxcb, h.queue, h.messages, h.suspended, h.ercd⟩

theorem framed_creSem {semid : Int} {pk : TCsem}
    (hS : ∀ i, getSemcb semid = .ok i → (a.core.semcb i).obj.state = .noexs → S.data (.sem i)) :
    Framed S a (_creSem semid pk a) := by
  unfold Spec._creSem
  refine .ite (fun _ => framed_self) fun _ => .ite (fun _ => framed_self) fun _ => ?_
  refine .bind' fun i hi => .ite (fun _ => framed_self) fun hs => ?_
  exact (Frame.setSem (hS i hi (not_not.mp hs))).framed

theorem framed_acreSemLoop {pk : TCsem}
    (hS : ∀ i, (a.core.semcb i).obj.state = .noexs → S.data (.sem i)) :
    ∀ (n : Nat) (i : Int), Framed S a (acreSemLoop pk a n i)
  | 0, _ => framed_self
  | n + 1, i => by
    unfold Spec.acreSemLoop
    refine .bind' fun k _ => .ite (fun _ => ?_) fun _ => framed_acreSemLoop hS n (i + 1)
    refine .bind ((framed_creSem fun i _ => hS i).mono fun v hv => .ok fun hr => hv fun he => hr ?_)
    dsimp only
    rw [he]
    rfl

theorem framed_waiSem {semid : Int} {tmout : TMO}
    (hS : ∀ i, getSemcb semid = .ok i → S.data (.sem i)) :
    Framed S a (_waiSem semid tmout a) := by
  unfold Spec._waiSem
  refine .ite (fun _ => framed_self) fun _ => .bind' fun i hi => .ite (fun _ => framed_self) fun _ => ?_
  refine .bind' fun t ht => .ite (fun _ => ?_) fun _ => .ite (fun _ => framed_blocked) fun _ => ?_
  · exact (Frame.dispatch (.trans (.setSemcb (hS i hi)) rfl
      (.setTcb_run (runTcb_eq ht) rfl))).framed
  · exact (Frame.setTcb_run (runTcb_eq ht) rfl).dispatch.framed

theorem Settled.framed_sigSem {semid : Int} (h : Settled a)
    (hS : ∀ i, getSemcb semid = .ok i → S.data (.sem i) ∧ S.queue (.sem i)) :
    Framed S a (Spec._sigSem semid a) := by
  unfold Spec._sigSem
  refine .ite (fun _ => framed_self) fun _ => .bind' fun i hi => .ite (fun _ => framed_self) fun _ => ?_
  split
  · next t ts hq =>
    obtain ⟨hw, ho⟩ := ((h.task t).waitq (.sem i)).mp (by rw [hq]; simp)
    refine (h.frame_release .ok hw fun o' ho' => ?_).framed
    exact Option.some.inj (ho.symm.trans ho') ▸ (hS i hi).2
  · exact .ite (fun _ => framed_self) fun _ => (Frame.setSemcb (hS i hi).1).framed

theorem Settled.framed_delSem {semid : Int} (h : Settled a)
    (hS : ∀ i, getSemcb semid = .ok i → S.data (.sem i) ∧ S.queue (.sem i)) :
    Framed S a (Spec.delSem semid a) := by
  unfold Spec.delSem
  refine .ite (fun _ => framed_self) fun _ => .bind' fun i hi => .ite (fun _ => framed_self) fun _ => ?_
  exact (Frame.dispatch (.trans (h.frame_releaseAll _ (hS i hi).2) (h.releaseAll _).runtsk
    (.setSem (hS i hi).1))).framed

theorem framed_refSem {semid : Int} : Framed S a (refSem semid a) := by
  unfold Spec.refSem
  exact .ite (fun _ => framed_self) fun _ => .bind' fun _ _ =>
    .ite (fun _ => framed_self) fun _ => framed_self

/-! ## Calls on eventflags -/

theorem Frame.setFlgcb {i : FlgIx cfg} {f : FLGCB → FLGCB} (hd : S.data (.flg i)) :
    Frame S a (a.setCore (Core.setFlgcb i f)) :=
  .setCore rfl (fun _ _ => rfl) (fun j hj => Function.update_of_ne (fun he : j = i => hj (he ▸ hd)) _ _)
    (fun _ _ => rfl) fun _ => ⟨rfl, rfl⟩

theorem framed_creFlg {flgid : Int} {pk : TCflg}
    (hS : ∀ i, getFlgcb flgid = .ok i → (a.core.flgcb i).obj.state = .noexs → S.data (.flg i)) :
    Framed S a (_creFlg flgid pk a) := by
  unfold Spec._creFlg
  refine .ite (fun _ => framed_self) fun _ => .bind' fun i hi => .ite (fun _ => framed_self) fun hs => ?_
  exact (Frame.setFlgcb (hS i hi (not_not.mp hs))).framed

theorem framed_acreFlgLoop {pk : TCflg}
    (hS : ∀ i, (a.core.flgcb i).obj.state = .noexs → S.data (.flg i)) :
    ∀ (n : Nat) (i : Int), Framed S a (acreFlgLoop pk a n i)
  | 0, _ => framed_self
  | n + 1, i => by
    unfold Spec.acreFlgLoop
    refine .bind' fun k _ => .ite (fun _ => ?_) fun _ => framed_acreFlgLoop hS n (i + 1)
    refine .bind ((framed_creFlg fun i _ => hS i).mono fun v hv => .ok fun hr => hv fun he => hr ?_)
    dsimp only
    rw [he]
    rfl

theorem Settled.framed_setFlg {flgid : Int} {setptn : FLGPTN} (h : Settled a)
    (hS : ∀ i, getFlgcb flgid = .ok i → S.data (.flg i) ∧ S.queue (.flg i)) :
    Framed S a (Spec._setFlg flgid setptn a) := by
  unfold Spec._setFlg
  refine .ite (fun _ => framed_self) fun _ => .bind' fun i hi => .ite (fun _ => framed_self) fun _ => ?_
  have h₁ := h.setFlgcb (i := i) (f := fun cb => { cb with flgptn := cb.flgptn ||| setptn })
    fun _ => rfl
  exact (Frame.trans (.setFlgcb (hS i hi).1) rfl
    (h₁.settled.frame_offerAll i (hS i hi).1 (hS i hi).2)).framed

theorem framed_clrFlg {flgid : Int} {clrptn : FLGPTN}
    (hS : ∀ i, getFlgcb flgid = .ok i → S.data (.flg i)) :
    Framed S a (clrFlg flgid clrptn a) := by
  unfold Spec.clrFlg
  refine .ite (fun _ => framed_self) fun _ => .bind' fun i hi => .ite (fun _ => framed_self) fun _ => ?_
  exact (Frame.setFlgcb (hS i hi)).framed

theorem framed_waiFlg {flgid : Int} {waiptn : FLGPTN} {wfmode : MODE} {p : VP} {tmout : TMO}
    (hS : ∀ i, getFlgcb flgid = .ok i → S.data (.flg i)) :
    Framed S a (_waiFlg flgid waiptn wfmode p tmout a) := by
  unfold Spec._waiFlg
  refine .ite (fun _ => framed_self) fun _ => .ite (fun _ => framed_self) fun _ => ?_
  refine .bind' fun i hi => .bind' fun t ht => ?_
  have hr := runTcb_eq ht
  refine .ite (fun _ => (Frame.setTcb_run hr rfl).framed) fun _ => ?_
  refine .ite (fun _ => (Frame.setTcb_run hr rfl).framed) fun _ => ?_
  refine .ite (fun _ => ?_) fun _ => .ite (fun _ => framed_blocked) fun _ => ?_
  · have hvar : ∀ b : Model cfg, Frame S b (b.setCore fun c =>
        { c with flgvar := Function.update c.flgvar p (c.flgcb i).flgptn }) := fun b =>
      .setCore rfl (fun _ _ => rfl) (fun _ _ => rfl) (fun _ _ => rfl) fun _ => ⟨rfl, rfl⟩
    exact (Frame.trans (.setTcb_run hr rfl) rfl (.trans (hvar _) rfl
      (.setFlgcb (hS i hi)))).framed
  · exact (Frame.setTcb_run hr rfl).framed

theorem framed_refFlg {flgid : Int} : Framed S a (refFlg flgid a) := by
  unfold Spec.refFlg
  exact .ite (fun _ => framed_self) fun _ => .bind' fun _ _ =>
    .ite (fun _ => framed_self) fun _ => framed_self

theorem Settled.framed_delFlg {flgid : Int} (h : Settled a)
    (hS : ∀ i, getFlgcb flgid = .ok i → S.data (.flg i) ∧ S.queue (.flg i)) :
    Framed S a (Spec.delFlg flgid a) := by
  unfold Spec.delFlg
  refine .ite (fun _ => framed_self) fun _ => .bind' fun i hi => .ite (fun _ => framed_self) fun _ => ?_
  exact (Frame.dispatch (.trans (h.frame_releaseAll _ (hS i hi).2) (h.releaseAll _).runtsk
    (.setFlgcb (hS i hi).1))).framed

/-! ## Calls on mailboxes -/

theorem Frame.setMbxcb {i : MbxIx cfg} {f : MBXCB cfg → MBXCB cfg} (hd : S.data (.mbx i)) :
    Frame S a (a.setCore (Core.setMbxcb i f)) :=
  .setCore rfl (fun _ _ => rfl) (fun _ _ => rfl)
    (fun j hj => Function.update_of_ne (fun he : j = i => hj (he ▸ hd)) _ _) fun _ => ⟨rfl, rfl⟩

/-- Links of messages, and variables of the callers. -/
theorem Frame.setMsgs {f : Core cfg → Core cfg} (hm : S.messages)
    (hf : (f a.core).tcb = a.core.tcb ∧ (f a.core).semcb = a.core.semcb ∧
      (f a.core).flgcb = a.core.flgcb ∧ (f a.core).mbxcb = a.core.mbxcb) :
    Frame S a (a.setCore f) :=
  .setCore hf.1 (fun _ _ => by rw [hf.2.1]) (fun _ _ => by rw [hf.2.2.1])
    (fun _ _ => by rw [hf.2.2.2]) fun hn => absurd hm hn

theorem framed_creMbx {mbxid : Int} {pk : TCmbx} (hm : S.messages)
    (hS : ∀ i, getMbxcb mbxid = .ok i → (a.core.mbxcb i).obj.state = .noexs → S.data (.mbx i)) :
    Framed S a (_creMbx mbxid pk a) := by
  unfold Spec._creMbx
  refine .ite (fun _ => framed_self) fun _ => .bind' fun i hi => .ite (fun _ => framed_self) fun hs => ?_
  exact (Frame.trans (.setMbxcb (hS i hi (not_not.mp hs))) rfl
    (.setMsgs hm ⟨rfl, rfl, rfl, rfl⟩)).framed

theorem framed_acreMbxLoop {pk : TCmbx} (hm : S.messages)
    (hS : ∀ i, (a.core.mbxcb i).obj.state = .noexs → S.data (.mbx i)) :
    ∀ (n : Nat) (i : Int), Framed S a (acreMbxLoop pk a n i)
  | 0, _ => framed_self
  | n + 1, i => by
    unfold Spec.acreMbxLoop
    refine .bind' fun k _ => .ite (fun _ => ?_) fun _ => framed_acreMbxLoop hm hS n (i + 1)
    refine .bind ((framed_creMbx hm fun i _ => hS i).mono fun v hv =>
      .ok fun hr => hv fun he => hr ?_)
    dsimp only
    rw [he]
    rfl

/-- A message is put into the queue of a mailbox of the scope. -/
theorem Frame.enqueueMsg {m : Fin cfg.nmsg} {i : MbxIx cfg} {c : Core cfg} (hm : S.messages)
    (hd : S.data (.mbx i)) (hc : enqueueMsg m i a.core = .ok c) :
    Frame S a { a with core := c } := by
  have hsame := enqueueMsg_same m i a.core c hc
  refine .setCore (f := fun _ => c) hsame.tcb (fun _ _ => by rw [hsame.semcb])
    (fun _ _ => by rw [hsame.flgcb]) (fun j hj => ?_) fun hn => absurd hm hn
  have hji : j ≠ i := fun he => hj (he ▸ hd)
  revert hc
  unfold Ittrium.enqueueMsg
  refine fun hc => Ensures.ite (P := fun c => c.mbxcb j = a.core.mbxcb j)
    (fun _ => .bind' fun _ _ => .ok rfl) (fun _ => .ok ?_) c hc
  unfold appendMsg
  dsimp only
  split <;> exact Function.update_of_ne hji ..

theorem Settled.framed_sndMbx {mbxid : Int} {m : Fin cfg.nmsg} (h : Settled a) (hm : S.messages)
    (hS : ∀ i, getMbxcb mbxid = .ok i → S.data (.mbx i) ∧ S.queue (.mbx i)) :
    Framed S a (Spec._sndMbx mbxid m a) := by
  unfold Spec._sndMbx
  refine .ite (fun _ => framed_self) fun _ => .bind' fun i hi => .ite (fun _ => framed_self) fun _ => ?_
  refine .ite (fun _ => framed_self) fun _ => ?_
  split
  · next t ts hq =>
    obtain ⟨hw, ho⟩ := ((h.task t).waitq (.mbx i)).mp (by rw [hq]; simp)
    have h₁ := h.setRest (f := fun c => { c with
      msgvar := Function.update c.msgvar (c.tcb t).waitinfo.ppkMsg (.pkt m) }) rfl rfl rfl rfl rfl
    refine (Frame.trans (.setMsgs hm ⟨rfl, rfl, rfl, rfl⟩) rfl
      (h₁.settled.frame_release .ok hw fun o' ho' => ?_)).framed
    exact Option.some.inj (ho.symm.trans ho') ▸ (hS i hi).2
  · exact .bind' fun c hc => (Frame.enqueueMsg hm (hS i hi).1 hc).framed

theorem framed_rcvMbx {mbxid : Int} {p : VP} {tmout : TMO} (hm : S.messages) :
    Framed S a (_rcvMbx mbxid p tmout a) := by
  unfold Spec._rcvMbx
  refine .ite (fun _ => framed_self) fun _ => .ite (fun _ => framed_self) fun _ => ?_
  refine .bind' fun i hi => .bind' fun t ht => ?_
  have hr := runTcb_eq ht
  refine .ite (fun _ => (Frame.setTcb_run hr rfl).framed) fun _ => ?_
  refine .ite (fun _ => ?_) fun _ => .ite (fun _ => framed_blocked) fun _ => ?_
  · exact (Frame.trans (.setTcb_run hr rfl) rfl (.setMsgs hm ⟨rfl, rfl, rfl, rfl⟩)).framed
  · exact (Frame.setTcb_run hr rfl).framed

theorem framed_refMbx {mbxid : Int} : Framed S a (refMbx mbxid a) := by
  unfold Spec.refMbx
  exact .ite (fun _ => framed_self) fun _ => .bind' fun _ _ =>
    .ite (fun _ => framed_self) fun _ => framed_self

theorem Settled.framed_delMbx {mbxid : Int} (h : Settled a) (hm : S.messages)
    (hS : ∀ i, getMbxcb mbxid = .ok i → S.data (.mbx i) ∧ S.queue (.mbx i)) :
    Framed S a (Spec.delMbx mbxid a) := by
  unfold Spec.delMbx
  refine .ite (fun _ => framed_self) fun _ => .bind' fun i hi => .ite (fun _ => framed_self) fun _ => ?_
  exact (Frame.dispatch (.trans (h.frame_releaseAll _ (hS i hi).2) (h.releaseAll _).runtsk
    (.trans (.setMbxcb (hS i hi).1) rfl (.setMsgs hm ⟨rfl, rfl, rfl, rfl⟩)))).framed

end

/-! ## All steps -/

/-- The object a waiting call waits for is the one it is given. -/
theorem Call.obj_of_wait {c : Call cfg} {tmout : TMO}
    (h : Call.wait c = some (some o, tmout)) : Call.obj c = some o := by
  cases c with
  | waiSem semid | twaiSem semid _ | polSem semid =>
    simp only [Call.wait, Call.obj] at h ⊢
    cases hg : (getSemcb semid : Exec (SemIx cfg)) <;> rw [hg] at h <;>
      simp [Except.toOption] at h ⊢
    exact h.1
  | waiFlg flgid _ _ _ | twaiFlg flgid _ _ _ _ | polFlg flgid _ _ _ =>
    simp only [Call.wait, Call.obj] at h ⊢
    cases hg : (getFlgcb flgid : Exec (FlgIx cfg)) <;> rw [hg] at h <;>
      simp [Except.toOption] at h ⊢
    exact h.1
  | rcvMbx mbxid _ | trcvMbx mbxid _ _ | prcvMbx mbxid _ =>
    simp only [Call.wait, Call.obj] at h ⊢
    cases hg : (getMbxcb mbxid : Exec (MbxIx cfg)) <;> rw [hg] at h <;>
      simp [Except.toOption] at h ⊢
    exact h.1
  | _ => simp [Call.wait] at h

/-- **A call keeps to its scope.** -/
theorem exec_frame {c : Call cfg} (h : Inv a) (hs : Sound a.core c) :
    Ensures (exec c a) fun v => Frame (Call.scope a.core c) a v.1 := by
  have hst := h.toSettled
  have hobj : ∀ {ι : Type} {f : ι → ObjId cfg} {x : Exec ι} {i : ι}, x = .ok i →
      x.toOption.map f = some (f i) := by
    rintro ι f x i rfl
    rfl
  suffices hf : Framed (Call.scope a.core c) a (exec c a) by
    intro v hv
    by_cases hb : v.2 = .blocked
    · obtain ⟨a', r⟩ := v
      obtain rfl : r = .blocked := hb
      obtain ⟨_, _, _, _, hw, hr, hB, rfl⟩ := exec_blocks h hs hv
      refine (hB.frame hr fun o' ho' => ?_).dispatch
      have hobj := Call.obj_of_wait (ho' ▸ hw)
      cases c <;> first | exact hobj | cases hw
    · exact hf v hv hb
  cases c with
  | creTsk tskid pk => exact hst.framed_creTsk
  | acreTsk pk => exact hst.framed_acreTskLoop _ _
  | delTsk tskid => exact hst.framed_delTsk fun _ => trivial
  | actTsk tskid => exact framed_actTsk.dispatchIfOk
  | iactTsk tskid => exact framed_actTsk
  | chgPri tskid tskpri => exact hst.framed_chgPri
  | rotRdq tskpri => exact framed_rotRdq
  | extTsk => exact hst.framed_extTsk
  | dlyTsk dlytim => exact framed_dlyTsk
  | susTsk tskid => exact hst.framed_susTsk trivial
  | rsmTsk tskid => exact framed_rsmTsk
  | slpTsk => exact framed_slpTsk
  | tslpTsk tmout => exact framed_slpTsk
  | wupTsk tskid => exact hst.framed_wupTsk.dispatchIfOk
  | iwupTsk tskid => exact hst.framed_wupTsk
  | canWup tskid => exact framed_canWup
  | creSem semid pk =>
    exact .ite (fun _ => framed_self) fun _ => framed_creSem fun i _ hi => Or.inr hi
  | acreSem pk => exact framed_acreSemLoop (fun i hi => Or.inr hi) _ _
  | waiSem semid => exact framed_waiSem fun i hi => Or.inl (hobj hi)
  | twaiSem semid tmout => exact framed_waiSem fun i hi => Or.inl (hobj hi)
  | polSem semid => exact framed_waiSem fun i hi => Or.inl (hobj hi)
  | sigSem semid => exact (hst.framed_sigSem fun i hi => ⟨Or.inl (hobj hi), hobj hi⟩).dispatchAll
  | isigSem semid => exact hst.framed_sigSem fun i hi => ⟨Or.inl (hobj hi), hobj hi⟩
  | delSem semid => exact hst.framed_delSem fun i hi => ⟨Or.inl (hobj hi), hobj hi⟩
  | refSem semid => exact framed_refSem
  | creFlg flgid pk =>
    exact .ite (fun _ => framed_self) fun _ => framed_creFlg fun i _ hi => Or.inr hi
  | acreFlg pk => exact framed_acreFlgLoop (fun i hi => Or.inr hi) _ _
  | setFlg flgid setptn =>
    exact (hst.framed_setFlg fun i hi => ⟨Or.inl (hobj hi), hobj hi⟩).dispatchAll
  | isetFlg flgid setptn => exact hst.framed_setFlg fun i hi => ⟨Or.inl (hobj hi), hobj hi⟩
  | clrFlg flgid clrptn => exact framed_clrFlg fun i hi => Or.inl (hobj hi)
  | waiFlg flgid waiptn wfmode p => exact framed_waiFlg fun i hi => Or.inl (hobj hi)
  | twaiFlg flgid waiptn wfmode p tmout => exact framed_waiFlg fun i hi => Or.inl (hobj hi)
  | polFlg flgid waiptn wfmode p => exact framed_waiFlg fun i hi => Or.inl (hobj hi)
  | refFlg flgid => exact framed_refFlg
  | delFlg flgid => exact hst.framed_delFlg fun i hi => ⟨Or.inl (hobj hi), hobj hi⟩
  | creMbx mbxid pk =>
    exact .ite (fun _ => framed_self) fun _ => framed_creMbx trivial fun i _ hi => Or.inr hi
  | acreMbx pk => exact framed_acreMbxLoop trivial (fun i hi => Or.inr hi) _ _
  | sndMbx mbxid m =>
    exact (hst.framed_sndMbx trivial fun i hi => ⟨Or.inl (hobj hi), hobj hi⟩).dispatchAll
  | rcvMbx mbxid p => exact framed_rcvMbx trivial
  | trcvMbx mbxid p tmout => exact framed_rcvMbx trivial
  | prcvMbx mbxid p => exact framed_rcvMbx trivial
  | refMbx mbxid => exact framed_refMbx
  | delMbx mbxid => exact hst.framed_delMbx trivial fun i hi => ⟨Or.inl (hobj hi), hobj hi⟩
  | timerHandler => exact (hst.frame_timerHandler fun _ => trivial).framed
  | dispatch => exact (Frame.refl a).dispatch.framed
  | setMsgpri m pri => exact (Frame.setMsgs trivial ⟨rfl, rfl, rfl, rfl⟩).framed

end Ittrium.Spec
