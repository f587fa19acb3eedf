import Ittrium.Spec.Waits
import Mathlib.Data.List.Rotate

/-!
# Loops over a line, and the objects

* `foldl_steady` — a loop that moves the tasks of a line one after the other
* `Settled.releaseAll`, `Settled.offerAll`, `Settled.timerHandler`
* `Settled.takeSem`, `Settled.giveSem` — the list of free semaphores
-/

namespace Ittrium.Spec

open Infra

variable {cfg : Config} {a a' : Model cfg} {l : Line cfg} {t u : TskIx cfg} {o : ObjId cfg}

/-! ## Loops -/

/-- The tasks of `l` other than `t` are still there. -/
def Stays (l : Line cfg) (t : TskIx cfg) (a a' : Model cfg) : Prop :=
  ∀ u, u ≠ t → u ∈ a.queue l → u ∈ a'.queue l

theorem Others.stays (h : Others t a a') (l : Line cfg) : Stays l t a a' :=
  fun _ hu hm => h.mem_of_ne hu hm

/-- **A loop that moves the tasks of a line one after the other.** -/
theorem foldl_steady {op : Model cfg → TskIx cfg → Model cfg}
    (hop : ∀ a t, Settled a → t ∈ a.queue l → Steady a (op a t) ∧ Stays l t a (op a t)) :
    ∀ (ts : List (TskIx cfg)) (a : Model cfg), ts.Nodup → (∀ t ∈ ts, t ∈ a.queue l) → Settled a →
      Steady a (ts.foldl op a)
  | [], a, _, _, h => .refl h
  | t :: ts, a, hnd, hm, h => by
    obtain ⟨hs, hst⟩ := hop a t h (hm t (by simp))
    obtain ⟨hno, hnd'⟩ := List.nodup_cons.mp hnd
    refine hs.trans (foldl_steady hop ts _ hnd' (fun u hu => ?_) hs.settled)
    exact hst u (fun he => hno (he ▸ hu)) (hm u (by simp [hu]))

/-- **All waiting tasks of an object are released.** -/
theorem Settled.releaseAll (h : Settled a) (o : ObjId cfg) : Steady a (a.releaseAll o) := by
  refine foldl_steady (fun a t h ht => ?_) _ a (h.nodup (.waitq o)) (fun t ht => ht) h
  have hw := ((h.task t).waitq o).mp ht
  exact ⟨h.release _ hw.1, (Others.release _ h.nodup).stays _⟩

/-- The line of the object is empty afterwards. -/
theorem releaseAll_waitq (h : Settled a) (o : ObjId cfg) :
    (a.releaseAll o).queue (.waitq o) = [] := by
  have hgone : ∀ (ts : List (TskIx cfg)) (a : Model cfg), Settled a → ts.Nodup →
      (∀ t ∈ ts, t ∈ a.queue (.waitq o)) → ∀ u ∈ (ts.foldl (fun a t => a.release t .dlt) a).queue
        (.waitq o), u ∈ a.queue (.waitq o) ∧ u ∉ ts := by
    intro ts
    induction ts with
    | nil => exact fun a _ _ _ u hu => ⟨hu, by simp⟩
    | cons t ts ih =>
      intro a h hnd hm u hu
      obtain ⟨hno, hnd'⟩ := List.nodup_cons.mp hnd
      have hw := (((h.task t).waitq o).mp (hm t (by simp))).1
      have hoth := Others.release .dlt h.nodup (t := t)
      have hs := (h.release .dlt hw).settled
      obtain ⟨hmem, hnot⟩ := ih _ hs hnd' (fun v hv => hoth.mem_of_ne
        (fun he => hno (he ▸ hv)) (hm v (by simp [hv]))) u hu
      have hne : u ≠ t := by
        rintro rfl
        have := (((hs.task u).waitq o).mp hmem).1
        rw [Model.release_tcb] at this
        dsimp only at this
        split at this <;> simp [Stat.waiting_iff] at this
      exact ⟨(hoth.mem u hne _).mp hmem, by simp [hne, hnot]⟩
  rw [List.eq_nil_iff_forall_not_mem]
  intro u hu
  obtain ⟨hm, hno⟩ := hgone _ a h (h.nodup _) (fun _ ht => ht) u hu
  exact hno hm

theorem release_objects (t : TskIx cfg) (e : ER) (a : Model cfg) :
    SameObjects a.core (a.release t e).core := by
  rw [Model.release_eq]
  refine SameObjects.trans ?_ (Others.leaveWait t _).objects
  have h := (Others.setTcb t (fun tcb => { tcb with ercd := e }) (a.cancel t)).objects
  rwa [Model.cancel_core] at h

theorem releaseAll_objects (o : ObjId cfg) (a : Model cfg) :
    SameObjects a.core (a.releaseAll o).core := by
  unfold Model.releaseAll
  generalize a.queue (.waitq o) = ts
  induction ts generalizing a with
  | nil => exact .refl _
  | cons t ts ih => exact (release_objects t .dlt a).trans (ih _)

/-! ## Objects of one kind each -/

theorem objcb_setSemcb_of_ne {c : Core cfg} {i : SemIx cfg} {f : SEMCB → SEMCB}
    (h : o ≠ .sem i) : (c.setSemcb i f).objcb o = c.objcb o := by
  cases o with
  | sem j =>
    have hj : j ≠ i := fun he => h (by rw [he])
    simp [Core.objcb, Core.setSemcb, Function.update_of_ne hj]
  | _ => rfl

theorem objcb_setFlgcb_of_ne {c : Core cfg} {i : FlgIx cfg} {f : FLGCB → FLGCB}
    (h : o ≠ .flg i) : (c.setFlgcb i f).objcb o = c.objcb o := by
  cases o with
  | flg j =>
    have hj : j ≠ i := fun he => h (by rw [he])
    simp [Core.objcb, Core.setFlgcb, Function.update_of_ne hj]
  | _ => rfl

theorem objcb_setMbxcb_of_ne {c : Core cfg} {i : MbxIx cfg} {f : MBXCB cfg → MBXCB cfg}
    (h : o ≠ .mbx i) : (c.setMbxcb i f).objcb o = c.objcb o := by
  cases o with
  | mbx j =>
    have hj : j ≠ i := fun he => h (by rw [he])
    simp [Core.objcb, Core.setMbxcb, Function.update_of_ne hj]
  | _ => rfl

/-- Nobody waits for an object that does not exist. -/
theorem Settled.waitq_eq_nil (h : Settled a) (ho : (a.core.objcb o).state = .noexs) :
    a.queue (.waitq o) = [] := by
  rw [List.eq_nil_iff_forall_not_mem]
  exact fun t ht => h.exists_of_waitq o t ht ho

/-- A change of a semaphore that is not in the object part. -/
theorem Settled.setSemcb {i : SemIx cfg} {f : SEMCB → SEMCB} (h : Settled a)
    (hf : (f (a.core.semcb i)).obj = (a.core.semcb i).obj) :
    Steady a (a.setCore (Core.setSemcb i f)) := by
  have hobj : ∀ j, ((a.core.setSemcb i f).semcb j).obj = (a.core.semcb j).obj := by
    intro j
    by_cases hj : j = i
    · subst hj; simpa [Core.setSemcb] using hf
    · simp [Core.setSemcb, Function.update_of_ne hj]
  refine h.setObjs rfl (fun o _ => ?_) (fun j => by rw [hobj]) rfl
  cases o with
  | sem j => exact hobj j
  | _ => rfl

theorem Settled.setFlgcb {i : FlgIx cfg} {f : FLGCB → FLGCB} (h : Settled a)
    (hf : a.queue (.waitq (.flg i)) ≠ [] → (f (a.core.flgcb i)).obj = (a.core.flgcb i).obj) :
    Steady a (a.setCore (Core.setFlgcb i f)) := by
  refine h.setObjs rfl (fun o ho => ?_) (fun _ => Iff.rfl) rfl
  by_cases he : o = .flg i
  · subst he
    simpa [Core.objcb, Core.setFlgcb] using hf ho
  · exact objcb_setFlgcb_of_ne he

theorem Settled.setMbxcb {i : MbxIx cfg} {f : MBXCB cfg → MBXCB cfg} (h : Settled a)
    (hf : a.queue (.waitq (.mbx i)) ≠ [] → (f (a.core.mbxcb i)).obj = (a.core.mbxcb i).obj) :
    Steady a (a.setCore (Core.setMbxcb i f)) := by
  refine h.setObjs rfl (fun o ho => ?_) (fun _ => Iff.rfl) rfl
  by_cases he : o = .mbx i
  · subst he
    simpa [Core.objcb, Core.setMbxcb] using hf ho
  · exact objcb_setMbxcb_of_ne he

/-- Memory, messages and telemetry. -/
theorem Settled.setRest {f : Core cfg → Core cfg} (h : Settled a)
    (ht : (f a.core).tcb = a.core.tcb) (hs : (f a.core).semcb = a.core.semcb)
    (hf : (f a.core).flgcb = a.core.flgcb) (hm : (f a.core).mbxcb = a.core.mbxcb)
    (hn : (f a.core).timerNesting = a.core.timerNesting) : Steady a (a.setCore f) := by
  refine h.setObjs ht (fun o _ => ?_) (fun _ => by rw [hs]) hn
  cases o <;> simp only [Core.objcb, hs, hf, hm]

theorem clearFlgptn_obj (cb : FLGCB) : (clearFlgptn cb).obj = cb.obj := by
  unfold clearFlgptn
  split <;> rfl

/-- **A waiting task is offered the pattern.** -/
theorem Settled.offer {i : FlgIx cfg} (h : Settled a) (hm : t ∈ a.queue (.waitq (.flg i))) :
    Steady a (a.offer i t) ∧ Stays (.waitq (.flg i)) t a (a.offer i t) := by
  unfold Model.offer
  dsimp only
  split
  · have h₁ := h.setRest (f := fun c => { c with
      flgvar := Function.update c.flgvar (a.core.tcb t).waitinfo.pFlgptn (c.flgcb i).flgptn })
      rfl rfl rfl rfl rfl
    have h₂ := h₁.settled.release (t := t) .ok (((h.task t).waitq _).mp hm).1
    have h₃ := h₂.settled.setFlgcb (i := i) (f := clearFlgptn) fun _ => clearFlgptn_obj _
    exact ⟨h₁.trans (h₂.trans h₃), fun u hu hmu =>
      (Others.release _ h₁.settled.nodup).mem_of_ne hu hmu⟩
  · exact ⟨.refl h, fun _ _ hmu => hmu⟩

theorem Settled.offerAll (h : Settled a) (i : FlgIx cfg) :
    Steady a ((a.queue (.waitq (.flg i))).foldl (fun a t => a.offer i t) a) :=
  foldl_steady (fun _ _ h ht => h.offer ht) _ a (h.nodup _) (fun _ ht => ht) h

/-- A message is handed over. -/
theorem Settled.handOver (m : Fin cfg.nmsg) (h : Settled a) (hw : (a.core.tcb t).state.waiting) :
    Steady a (a.handOver m t) := by
  have h₁ := h.setRest (f := fun c => { c with
    msgvar := Function.update c.msgvar (c.tcb t).waitinfo.ppkMsg (.pkt m) }) rfl rfl rfl rfl rfl
  exact h₁.trans (h₁.settled.release .ok hw)

/-! ## The tick -/

theorem Others.tickOne (h : Settled a) (t : TskIx cfg) : Others t a (a.tickOne t) := by
  unfold Model.tickOne
  dsimp only
  split
  · exact (Others.setTcb t _ a).trans (.endWait h.nodup)
  · exact .setTcb t _ a

theorem Settled.tickOne (h : Settled a) (hw : (a.core.tcb t).state.waiting) :
    Steady a (a.tickOne t) := by
  have h₁ := h.setTcb (t := t) (f := fun tcb =>
    { tcb with wtmeb := { tcb.wtmeb with count := tcb.wtmeb.count - 1 } })
    ⟨rfl, rfl, rfl, rfl, rfl, rfl, rfl, rfl, fun _ => ⟨rfl, rfl⟩⟩
  unfold Model.tickOne
  dsimp only
  split
  · refine h₁.trans (h₁.settled.endWait ?_)
    rw [Model.setTcb_tcb_self]
    exact hw
  · exact h₁

theorem Settled.tick (h : Settled a) : Steady a a.tick := by
  refine foldl_steady (fun a t h ht => ?_) _ a (h.nodup .timer) (fun _ ht => ht) h
  exact ⟨h.tickOne ((h.task t).timer ht).1, (Others.tickOne h t).stays _⟩

theorem Settled.account (h : Settled a) : Steady a a.account := by
  have h₁ := h.setRest (f := fun c => { c with telemetryWallTicks := c.telemetryWallTicks + 1 })
    rfl rfl rfl rfl rfl
  unfold Model.account
  dsimp only
  split
  · exact h₁.trans (h₁.settled.setTcb
      ⟨rfl, rfl, rfl, rfl, rfl, rfl, rfl, rfl, fun _ => ⟨rfl, rfl⟩⟩)
  · exact h₁.trans (h₁.settled.setRest rfl rfl rfl rfl rfl)

/-- States with the same lines and tasks but for the nesting of ticks. -/
theorem Settled.setTicks {f : Core cfg → Core cfg} (h : Settled a)
    (ht : (f a.core).tcb = a.core.tcb) (ho : (f a.core).objcb = a.core.objcb) :
    Settled (a.setCore f) where
  nodup := h.nodup
  exists_of_waitq := fun o t hm => by
    rw [show (a.setCore f).core.objcb = a.core.objcb from ho]
    exact h.exists_of_waitq o t hm
  mem_freeSem := fun i => by
    have := congrFun ho (.sem i)
    rw [show ((a.setCore f).core.semcb i).obj = (a.core.semcb i).obj from this]
    exact h.mem_freeSem i
  freeSem_nodup := h.freeSem_nodup
  task := fun t => by
    rw [show (a.setCore f).core.tcb = a.core.tcb from ht]
    exact h.task t

theorem timerHwExit_tcb (c : Core cfg) : (timerHwExit c).tcb = c.tcb := by
  unfold timerHwExit; split <;> rfl

theorem timerHwExit_objcb (c : Core cfg) : (timerHwExit c).objcb = c.objcb := by
  unfold timerHwExit; split <;> rfl

/-- **The tick handler.** The nesting is the same in the end. -/
theorem Settled.timerHandler (h : Settled a) (hn : a.core.timerNesting = 0) :
    Steady a (timerHandler a) := by
  have h₀ : Settled (a.setCore fun c => (timerHwEnter c).2) := h.setTicks rfl rfl
  have h₁ := h₀.account.trans h₀.account.settled.tick
  have htcb := timerHwExit_tcb (a.setCore fun c => (timerHwEnter c).2).account.tick.core
  have hobj := timerHwExit_objcb (a.setCore fun c => (timerHwEnter c).2).account.tick.core
  refine { settled := h₁.settled.setTicks htcb hobj, timerNesting := ?_, sub := h₁.sub
           keep := fun t hw => ?_, attr := fun o ho => ?_, runtsk := h₁.runtsk
           ready := fun t ht => ?_ }
  · have hone : (a.setCore fun c => (timerHwEnter c).2).account.tick.core.timerNesting = 1 := by
      rw [h₁.timerNesting]
      show a.core.timerNesting + 1 = 1
      omega
    show (timerHwExit _).timerNesting = _
    rw [timerHwExit, if_pos (by rw [hone]; decide), hn]
    show (Core.timerNesting _) - 1 = 0
    omega
  · show _ ∧ SameWait _ ((timerHwExit _).tcb t) ∧ _
    rw [htcb]
    rw [show (Spec.timerHandler a).core.tcb = _ from htcb] at hw
    exact h₁.keep t hw
  · show ((timerHwExit _).objcb o).objatr = _
    rw [hobj]
    exact h₁.attr o ho
  · show ((timerHwExit _).tcb t).state = _
    rw [htcb]
    exact h₁.ready t ht

/-! ## Rotation, and the free semaphores -/

theorem Settled.rotate (h : Settled a) (p : Int) : Steady a (a.rotate (.ready p)) := by
  have hmem : ∀ l u, u ∈ (a.rotate (.ready p)).queue l ↔ u ∈ a.queue l := by
    intro l u
    by_cases hl : l = .ready p
    · subst hl; simp [Model.rotate, List.mem_rotate]
    · simp [Model.rotate, hl]
  have hne : ∀ l, l ≠ .ready p → (a.rotate (.ready p)).queue l = a.queue l :=
    fun l hl => Function.update_of_ne hl ..
  refine { settled := ?_, timerNesting := rfl, sub := fun o => by rw [hne _ (by simp)]
           keep := fun t hw => ⟨hw, .refl _, hmem _ _⟩, attr := fun _ _ => rfl, runtsk := rfl
           ready := fun _ ht => ht }
  refine { nodup := fun l => ?_, exists_of_waitq := fun o t ht => ?_, mem_freeSem := h.mem_freeSem
           freeSem_nodup := h.freeSem_nodup, task := fun t => ?_ }
  · by_cases hl : l = .ready p
    · subst hl
      simpa [Model.rotate, List.nodup_rotate] using h.nodup (.ready p)
    · rw [hne l hl]
      exact h.nodup l
  · exact h.exists_of_waitq o t ((hmem _ _).mp ht)
  · rw [show (fun l => t ∈ (a.rotate (.ready p)).queue l) = fun l => t ∈ a.queue l from
      funext fun l => propext (hmem l t)]
    exact h.task t

/-- A semaphore and the list of free ones change together. -/
theorem Settled.setSem {i : SemIx cfg} {f : SEMCB → SEMCB} {free : List (SemIx cfg)}
    (h : Settled a) (hq : a.queue (.waitq (.sem i)) = []) (hnd : free.Nodup)
    (hmem : ∀ j, j ∈ free ↔ if j = i then (f (a.core.semcb i)).obj.state = .noexs
      else j ∈ a.freeSem) :
    Steady a { a with freeSem := free, core := a.core.setSemcb i f } := by
  have hobj : ∀ o, a.queue (.waitq o) ≠ [] → (a.core.setSemcb i f).objcb o = a.core.objcb o :=
    fun o ho => objcb_setSemcb_of_ne fun he => ho (he ▸ hq)
  refine { settled := ?_, timerNesting := rfl, sub := fun _ => .refl _
           keep := fun t hw => ⟨hw, .refl _, Iff.rfl⟩
           attr := fun o ho => congrArg OBJCB.objatr (hobj o ho), runtsk := rfl
           ready := fun _ ht => ht }
  refine { nodup := h.nodup, exists_of_waitq := fun o t ht => ?_, mem_freeSem := fun j => ?_
           freeSem_nodup := hnd, task := h.task }
  · show ((a.core.setSemcb i f).objcb o).state ≠ _
    rw [hobj o (List.ne_nil_of_mem ht)]
    exact h.exists_of_waitq o t ht
  · rw [hmem]
    show _ ↔ ((Function.update a.core.semcb i (f (a.core.semcb i))) j).obj.state = .noexs
    by_cases hj : j = i
    · subst hj; simp
    · simpa [hj] using h.mem_freeSem j

theorem Settled.takeSem {i : SemIx cfg} {cb : SEMCB} (h : Settled a)
    (hi : (a.core.semcb i).obj.state = .noexs) (hcb : cb.obj.state ≠ .noexs) :
    Steady a { a with freeSem := a.freeSem.erase i, core := a.core.setSemcb i fun _ => cb } := by
  refine h.setSem (h.waitq_eq_nil hi) (h.freeSem_nodup.erase i) fun j => ?_
  rw [h.freeSem_nodup.mem_erase_iff]
  split
  · next he => simp [he, hcb]
  · next he => simp [he]

theorem Settled.giveSem {i : SemIx cfg} {f : SEMCB → SEMCB} (h : Settled a)
    (hi : (a.core.semcb i).obj.state ≠ .noexs) (hq : a.queue (.waitq (.sem i)) = [])
    (hf : (f (a.core.semcb i)).obj.state = .noexs) :
    Steady a { a with freeSem := a.freeSem ++ [i], core := a.core.setSemcb i f } := by
  have hno : i ∉ a.freeSem := fun hm => hi ((h.mem_freeSem i).mp hm)
  refine h.setSem hq ?_ fun j => ?_
  · rw [List.nodup_append]
    refine ⟨h.freeSem_nodup, List.nodup_singleton i, fun j hj k hk he => hno ?_⟩
    rwa [← List.mem_singleton.mp hk, ← he]
  · split
    · next he => simp [he, hf]
    · next he => simp [he]

end Ittrium.Spec
