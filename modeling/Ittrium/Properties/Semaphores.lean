import Ittrium.Properties.Runs
import Ittrium.Spec.Objects

/-!
# The resources of a semaphore

* `signals`, `obtained` — resources returned and resources handed out since the creation
* `owed` — the result a task gets from its last wait
* `sem_conserved` — **none is lost, duplicated or created**
-/

namespace Ittrium

open Infra

variable {cfg : Config} {i : SemIx cfg} {t : TskIx cfg} {tr : Trace cfg} {s s' : Kernel cfg}
  {a a' : Spec.Model cfg} {c : Call cfg} {r : Ret cfg}

/-! ## What has happened -/

instance (i : SemIx cfg) (c : Call cfg) : Decidable (Spec.Signals i c) := by
  apply @Call.casesOn cfg (fun c => Decidable (Spec.Signals i c)) c <;> intros <;>
    first | (change Decidable (_ = _); infer_instance) | exact .isFalse not_false

instance (i : SemIx cfg) (c : Call cfg) : Decidable (Spec.Requests i c) := by
  apply @Call.casesOn cfg (fun c => Decidable (Spec.Requests i c)) c <;> intros <;>
    first | (change Decidable (_ = _); infer_instance) | exact .isFalse not_false

/-- The step has returned a resource. -/
def Returns (i : SemIx cfg) (l : Label cfg) : Prop := Spec.Signals i l.1 ∧ l.2 = .er .ok

/-- The step has given its caller a resource. -/
def Takes (i : SemIx cfg) (l : Label cfg) : Prop := Spec.Requests i l.1 ∧ l.2 = .er .ok

instance (i : SemIx cfg) (l : Label cfg) : Decidable (Returns i l) :=
  inferInstanceAs (Decidable (_ ∧ _))
instance (i : SemIx cfg) (l : Label cfg) : Decidable (Takes i l) :=
  inferInstanceAs (Decidable (_ ∧ _))

/-- The task stops waiting for `o` in the step from `s` to `s'`. -/
def leaves (o : ObjId cfg) (s s' : Kernel cfg) (t : TskIx cfg) : Bool :=
  waitsFor o s.core t && !waitsFor o s'.core t

/-- The number of waiting tasks the step gives a resource. -/
def served (i : SemIx cfg) (s s' : Kernel cfg) : Nat :=
  (List.finRange cfg.tnumTskid).countP fun t =>
    leaves (.sem i) s s' t && (s'.core.tcb t).ercd = .ok

/-- Resources returned. -/
def signals (i : SemIx cfg) : Trace cfg → Nat
  | [] => 0
  | e :: tr => signals i tr + if Returns i e.label then 1 else 0

/-- Resources handed out, to callers and to waiting tasks. -/
def obtained (i : SemIx cfg) : Trace cfg → Nat
  | [] => 0
  | e :: tr => obtained i tr + (if Takes i e.label then 1 else 0) + served i e.pre e.post

/-- The result of its last wait for the semaphore `t` finds when it runs again: `E_OK` if a signal
has ended the wait and `E_TMOUT` otherwise. A task that is deleted gets none. -/
def owed (i : SemIx cfg) (t : TskIx cfg) : Trace cfg → Option ER
  | [] => none
  | e :: tr =>
    if leaves (.sem i) e.pre e.post t then
      if (e.post.core.tcb t).state = .noexs then none
      else some (if Spec.Signals i e.label.1 then .ok else .tmout)
    else if e.pre.runtsk = .qnode t then none
    else owed i t tr

/-! ## One step -/

theorem Moves.leaves_iff {C : Kernel cfg → Call cfg → Prop} (hm : Moves C s a c r s' a')
    (o : ObjId cfg) :
    leaves o s s' t = true ↔ t ∈ a.queue (.waitq o) ∧ t ∉ a'.queue (.waitq o) := by
  rw [hm.pre.inv.toSettled.mem_waitq, hm.post.inv.toSettled.mem_waitq, ← hm.pre.refines.core,
    ← hm.post.refines.core]
  simp [leaves]

/-- A task leaves the line with `E_OK`. -/
theorem Moves.leaves_ok_iff {C : Kernel cfg → Call cfg → Prop} (hm : Moves C s a c r s' a')
    (o : ObjId cfg) : (leaves o s s' t && decide ((s'.core.tcb t).ercd = .ok)) = true ↔
      (t ∈ a.queue (.waitq o) ∧ t ∉ a'.queue (.waitq o)) ∧ (a'.core.tcb t).ercd = .ok := by
  rw [Bool.and_eq_true, hm.leaves_iff, hm.post.refines.core, decide_eq_true_iff]

/-- The first task of the line is the only one. -/
theorem Moves.leaves_ok_head {C : Kernel cfg → Call cfg → Prop} {o : ObjId cfg}
    {ts : List (TskIx cfg)} (hm : Moves C s a c r s' a') (hq : a.queue (.waitq o) = t :: ts)
    (hq' : a'.queue (.waitq o) = ts) (he : (a'.core.tcb t).ercd = .ok) (u : TskIx cfg) :
    (leaves o s s' u && decide ((s'.core.tcb u).ercd = .ok)) = true ↔ u = t := by
  have hnot : t ∉ ts := (List.nodup_cons.mp (hq ▸ hm.pre.inv.nodup (.waitq o))).1
  rw [hm.leaves_ok_iff, hq, hq']
  constructor
  · rintro ⟨⟨h₁, h₂⟩, -⟩
    exact (List.mem_cons.mp h₁).resolve_right h₂
  · rintro rfl
    exact ⟨⟨List.mem_cons_self, hnot⟩, he⟩

/-- Steps other than the deletion of the semaphore. -/
inductive SemStep (i : SemIx cfg) (a : Spec.Model cfg) (c : Call cfg) (r : Ret cfg)
    (a' : Spec.Model cfg) : Prop where
  /-- The first waiting task gets the resource. -/
  | handed {t : TskIx cfg} {ts : List (TskIx cfg)} : Spec.Signals i c → r = .er .ok →
      a.queue (.waitq (.sem i)) = t :: ts → a'.queue (.waitq (.sem i)) = ts →
      (a'.core.tcb t).ercd = .ok → a'.core.semcb i = a.core.semcb i → SemStep i a c r a'
  /-- Nobody waits, and the resource is kept. -/
  | counted : Spec.Signals i c → r = .er .ok → a.queue (.waitq (.sem i)) = [] →
      a'.queue (.waitq (.sem i)) = [] →
      a'.core.semcb i = { a.core.semcb i with semcnt := (a.core.semcb i).semcnt + 1 } →
      SemStep i a c r a'
  /-- The caller gets a resource. -/
  | taken : Spec.Requests i c → r = .er .ok → 0 < (a.core.semcb i).semcnt →
      a'.queue (.waitq (.sem i)) = a.queue (.waitq (.sem i)) →
      a'.core.semcb i = { a.core.semcb i with semcnt := (a.core.semcb i).semcnt - 1 } →
      SemStep i a c r a'
  /-- No resource moves. Who leaves does so by timeout, or is deleted. -/
  | still : ¬ Returns i (c, r) → ¬ Takes i (c, r) →
      a'.core.semcb i = a.core.semcb i →
      (a'.queue (.waitq (.sem i)) ≠ [] → a.queue (.waitq (.sem i)) ≠ [] ∨
        (a.core.semcb i).semcnt ≤ 0) →
      (∀ t ∈ a.queue (.waitq (.sem i)), t ∉ a'.queue (.waitq (.sem i)) →
        ¬ Spec.Signals i c ∧ (a'.core.tcb t).ercd = .tmout) → SemStep i a c r a'

theorem Spec.Requests.not_signals (h : Spec.Requests i c) : ¬ Spec.Signals i c := by
  cases c <;> first | exact h.elim | exact id

/-- A call that is neither a signal nor a wait moves no resource. -/
theorem SemStep.of_other {C : Kernel cfg → Call cfg → Prop} (hm : Moves C s a c r s' a')
    (hs : (a.core.semcb i).obj.state ≠ .noexs) (h₁ : ¬ Spec.Signals i c)
    (h₂ : ¬ Spec.Requests i c) (hdel : ¬ Deletes (.sem i) c) :
    SemStep i a c r a' := by
  by_cases hself : a' = a
  · subst hself
    exact .still (fun h => h₁ h.1) (fun h => h₂ h.1) rfl Or.inl fun t ht hn => absurd ht hn
  have hobj : Spec.Call.obj c ≠ some (.sem i) := by
    intro hobj
    have hget : ∀ {semid : Int}, (getSemcb semid : Exec (SemIx cfg)).toOption.map ObjId.sem =
        some (.sem i) → getSemcb semid = .ok i := ok_of_toOption_map fun _ _ => ObjId.sem.inj
    cases c with
    | creSem semid pk => exact hself (Spec.exec_creSem_exists (hget hobj) hs hm.spec).1
    | refSem semid => exact hself (Spec.exec_refSem hm.spec)
    | delSem semid => exact hdel hobj
    | waiSem semid => exact h₂ (hget hobj)
    | twaiSem semid tmout => exact h₂ (hget hobj)
    | polSem semid => exact h₂ (hget hobj)
    | sigSem semid => exact h₁ (hget hobj)
    | isigSem semid => exact h₁ (hget hobj)
    | _ => first | cases hobj | exact absurd hobj (toOption_map_ne (by simp))
  have hf := Spec.exec_frame hm.pre.inv hm.sound _ hm.spec
  have hcb : a'.core.semcb i = a.core.semcb i := hf.semcb i (by rintro (h | h); exacts [hobj h, hs h])
  obtain ⟨hjoin, hleave⟩ := Spec.exec_line_of_other hm.pre.inv hm.sound hm.spec hobj
  exact .still (fun h => h₁ h.1) (fun h => h₂ h.1) hcb (fun hq => Or.inl (hjoin hq))
    fun t ht hn => ⟨h₁, hleave t ht hn⟩

/-- **What a step does to a semaphore.** -/
theorem Moves.semStep {C : Kernel cfg → Call cfg → Prop} (hm : Moves C s a c r s' a')
    (hs : (a.core.semcb i).obj.state ≠ .noexs)
    (hdel : ¬ Deletes (.sem i) c) : SemStep i a c r a' := by
  have hst := hm.pre.inv.toSettled
  by_cases h₁ : Spec.Signals i c
  · obtain ⟨b, hb, hd⟩ := Spec.exec_sigSem h₁ hs hm.spec
    cases hb with
    | @served t ts hq =>
      refine .handed h₁ rfl hq ?_ ?_ ?_
      · rw [hd.queue, hst.release_first .ok hq]
      · rw [hd.core, Spec.release_tcb_ercd]
      · rw [hd.core, (Spec.release_objects t .ok a).semcb]
    | counted hq _ =>
      refine .counted h₁ rfl hq (by rw [hd.queue]; exact hq) ?_
      rw [hd.core]
      simp [Spec.Model.setCore, Core.setSemcb]
    | full hq _ =>
      refine .still (fun h => by cases h.2) (fun h => by cases h.2) (by rw [hd.core])
        (fun h => absurd (by rw [hd.queue]; exact hq) h) fun t ht _ => ?_
      rw [hq] at ht
      cases ht
  -- a call that is neither about the semaphore nor its deletion does not touch it
  · by_cases h₂ : Spec.Requests i c
    · obtain ⟨b, hb, hd⟩ := Spec.exec_waiSem h₂ hs hm.spec
      cases hb with
      | obtained _ hcnt =>
        refine .taken h₂ rfl hcnt (by rw [hd.queue]; rfl) ?_
        rw [hd.core]
        simp [Spec.Model.setTcb, Spec.Model.setCore, Core.setSemcb, Core.setTcb]
      | failed _ hcnt =>
        refine .still (fun h => h₁ h.1) (fun h => by cases h.2) (by rw [hd.core]; rfl)
          (fun _ => Or.inr (not_lt.mp hcnt)) fun t ht hn => absurd ht ?_
        rw [hd.queue] at hn
        exact hn
      | blocked _ hcnt =>
        obtain ⟨u, o', tmout, b, _, _, hB, rfl⟩ := Spec.exec_blocks hm.pre.inv hm.sound hm.spec
        refine .still (fun h => h₁ h.1) (fun h => by cases h.2)
          (congrFun hB.others.objects.semcb i)
          (fun _ => Or.inr (not_lt.mp hcnt)) fun t ht hn => absurd ?_ hn
        exact hB.still hst ht
    · exact .of_other hm hs h₁ h₂ hdel

/-! ## The balance -/

theorem Moves.served_eq_zero {C : Kernel cfg → Call cfg → Prop} (hm : Moves C s a c r s' a')
    (h : ∀ t ∈ a.queue (.waitq (.sem i)), t ∉ a'.queue (.waitq (.sem i)) →
      (a'.core.tcb t).ercd ≠ .ok) : served i s s' = 0 := by
  refine List.countP_eq_zero.mpr fun t _ ht => ?_
  obtain ⟨⟨h₁, h₂⟩, h₃⟩ := (hm.leaves_ok_iff _).mp ht
  exact h t h₁ h₂ h₃

theorem Moves.served_eq_one {C : Kernel cfg → Call cfg → Prop} {ts : List (TskIx cfg)}
    (hm : Moves C s a c r s' a') (hq : a.queue (.waitq (.sem i)) = t :: ts)
    (hq' : a'.queue (.waitq (.sem i)) = ts) (he : (a'.core.tcb t).ercd = .ok) :
    served i s s' = 1 := by
  have hcount : served i s s' = (List.finRange cfg.tnumTskid).count t :=
    List.countP_congr fun u _ => by rw [hm.leaves_ok_head hq hq' he, beq_iff_eq]
  rw [hcount]
  exact List.count_eq_one_of_mem (List.nodup_finRange _) (List.mem_finRange t)

/-- The state of a semaphore against its past. -/
structure SemInv (i : SemIx cfg) (isemcnt : Nat) (tr : Trace cfg) (a : Spec.Model cfg) : Prop where
  existing : (a.core.semcb i).obj.state ≠ .noexs
  nonneg : 0 ≤ (a.core.semcb i).semcnt
  nobody : a.queue (.waitq (.sem i)) ≠ [] → (a.core.semcb i).semcnt = 0
  balance : (isemcnt : Int) + signals i tr = (a.core.semcb i).semcnt + obtained i tr
  result : ∀ t e, owed i t tr = some e →
    ¬ (a.core.tcb t).state.waiting ∧ (a.core.tcb t).ercd = e

/-- A resource is returned or handed out, and the count tells which. -/
theorem SemInv.step_balance {C : Kernel cfg → Call cfg → Prop} {isemcnt : Nat}
    (h : SemInv i isemcnt tr a) (hm : Moves C s a c r s' a')
    (hdel : ¬ Deletes (.sem i) c) :
    (a'.core.semcb i).obj = (a.core.semcb i).obj ∧ 0 ≤ (a'.core.semcb i).semcnt ∧
    (a'.queue (.waitq (.sem i)) ≠ [] → (a'.core.semcb i).semcnt = 0) ∧
    (isemcnt : Int) + signals i (⟨s, (c, r), s'⟩ :: tr) =
      (a'.core.semcb i).semcnt + obtained i (⟨s, (c, r), s'⟩ :: tr) := by
  have hb := h.balance
  have hn := h.nonneg
  have hserved₀ : a'.queue (.waitq (.sem i)) = a.queue (.waitq (.sem i)) → served i s s' = 0 :=
    fun hq => hm.served_eq_zero fun t ht hnt => absurd (hq ▸ ht) hnt
  simp only [signals, obtained]
  cases hm.semStep h.existing hdel with
  | handed hc hr hq hq' he hcb =>
    have hret : Returns i (c, r) := ⟨hc, hr⟩
    have htake : ¬ Takes i (c, r) := fun ht => ht.1.not_signals hc
    rw [hcb, if_pos hret, if_neg htake, hm.served_eq_one hq hq' he]
    exact ⟨rfl, hn, fun _ => h.nobody (by rw [hq]; simp), by push_cast; omega⟩
  | counted hc hr hq hq' hcb =>
    have hret : Returns i (c, r) := ⟨hc, hr⟩
    have htake : ¬ Takes i (c, r) := fun ht => ht.1.not_signals hc
    rw [hcb, if_pos hret, if_neg htake, hserved₀ (hq'.trans hq.symm)]
    exact ⟨rfl, by dsimp only; omega, fun hne => absurd hq' hne, by push_cast; omega⟩
  | taken hc hr hpos hq hcb =>
    have hret : ¬ Returns i (c, r) := fun ht => hc.not_signals ht.1
    have htake : Takes i (c, r) := ⟨hc, hr⟩
    rw [hcb, if_neg hret, if_pos htake, hserved₀ hq]
    refine ⟨rfl, by dsimp only; omega, fun hne => ?_, by push_cast; omega⟩
    have := h.nobody (hq ▸ hne)
    omega
  | still hret htake hcb hjoin hleave =>
    rw [hcb, if_neg hret, if_neg htake, hm.served_eq_zero fun t ht hnt => by
      rw [(hleave t ht hnt).2]; simp]
    refine ⟨rfl, hn, fun hne => ?_, by push_cast; omega⟩
    rcases hjoin hne with hq | hle
    · exact h.nobody hq
    · omega

/-- A task that neither waits nor runs keeps its result; one that leaves gets it. -/
theorem SemInv.step_result {C : Kernel cfg → Call cfg → Prop} {isemcnt : Nat}
    (h : SemInv i isemcnt tr a) (hm : Moves C s a c r s' a')
    (hdel : ¬ Deletes (.sem i) c) (t : TskIx cfg) (e : ER)
    (he : owed i t (⟨s, (c, r), s'⟩ :: tr) = some e) :
    ¬ (a'.core.tcb t).state.waiting ∧ (a'.core.tcb t).ercd = e := by
  rw [owed] at he
  split at he
  -- the task leaves the line in this step
  · next hl =>
    obtain ⟨ht, hn⟩ := (hm.leaves_iff (.sem i)).mp hl
    refine ⟨Spec.exec_leaves hm.pre.inv hm.sound hm.spec ht hn, ?_⟩
    split at he
    · cases he
    · obtain rfl := Option.some.inj he
      cases hm.semStep h.existing hdel with
      | @handed u us hc _ hq hq' hok _ =>
        rw [if_pos hc]
        rw [hq] at ht
        rw [hq'] at hn
        obtain rfl := (List.mem_cons.mp ht).resolve_right hn
        exact hok
      | counted _ _ hq _ _ => rw [hq] at ht; cases ht
      | taken _ _ _ hq _ => exact absurd (hq ▸ ht) hn
      | still _ _ _ _ hleave =>
        obtain ⟨hc, htm⟩ := hleave t ht hn
        rw [if_neg hc]
        exact htm
  · split at he
    · cases he
    · next hrun =>
      obtain ⟨hw, hercd⟩ := h.result t e he
      -- it has left before, and its control block is as it was
      have hf := (Spec.exec_frame hm.pre.inv hm.sound _ hm.spec).ercd t hw fun hr => hrun ?_
      · exact ⟨hf.1, hf.2.trans hercd⟩
      · show s.runtsk = _
        rw [hm.pre.refines.runtsk, hr, Refine.ptr_some]

/-- The counts of a new semaphore are those of the packet, read as signed values. -/
theorem created_semcb {semid : Int} {pk : TCsem} (hi : getSemcb semid = .ok i)
    (hl : Spec.CreatesSem semid pk c r) (he : Spec.exec c a = .ok (a', r)) :
    a'.core.semcb i = ⟨⟨pk.sematr, .rdy⟩, pk.isemcnt.toNat, pk.maxsem.toNat⟩ := by
  obtain ⟨j, hj, -, -, ha⟩ := Spec.exec_createsSem hl he
  obtain rfl : i = j := Except.ok.inj (hi.symm.trans hj)
  obtain ⟨h₁, h₂⟩ := Spec.exec_createsSem_maxsem hl he
  have hint := cfg.maxsem_int
  have hcb : a'.core.semcb i = ⟨⟨pk.sematr, .rdy⟩, pk.isemcnt.toInt, pk.maxsem.toInt⟩ := by
    rw [ha]
    exact Function.update_self ..
  rw [hcb, BitVec.toInt_eq_toNat_of_lt (by omega), BitVec.toInt_eq_toNat_of_lt (by omega)]

theorem SemInv.start {C : Kernel cfg → Call cfg → Prop} {semid : Int} {pk : TCsem}
    (hi : getSemcb semid = .ok i) (hl : Spec.CreatesSem semid pk c r)
    (hm : Moves C s a c r s' a') : SemInv i pk.isemcnt.toNat [] a' := by
  obtain ⟨j, hj, hn, -, ha⟩ := Spec.exec_createsSem hl hm.spec
  obtain rfl : i = j := Except.ok.inj (hi.symm.trans hj)
  have hcb := created_semcb hi hl hm.spec
  have hq : a'.queue (.waitq (.sem i)) = [] := by
    rw [ha]
    exact hm.pre.inv.toSettled.waitq_eq_nil (o := .sem i) hn
  refine ⟨by rw [hcb]; simp, by rw [hcb]; dsimp only; omega, fun hne => absurd hq hne, ?_, ?_⟩
  · rw [hcb]
    simp [signals, obtained]
  · intro t e he
    cases he

theorem SemInv.step {C : Kernel cfg → Call cfg → Prop} {isemcnt : Nat} (h : SemInv i isemcnt tr a)
    (hm : Moves C s a c r s' a') (hdel : ¬ Deletes (.sem i) c) :
    SemInv i isemcnt (⟨s, (c, r), s'⟩ :: tr) a' := by
  obtain ⟨h₁, h₂, h₃, h₄⟩ := h.step_balance hm hdel
  exact ⟨by rw [h₁]; exact h.existing, h₂, h₃, h₄, h.step_result hm hdel⟩

theorem SinceOf.semInv {semid : Int} {pk : TCsem} {l : Label cfg} {s₀ s₁ : Kernel cfg}
    (hi : getSemcb semid = .ok i) (hl : Spec.CreatesSem semid pk l.1 l.2)
    (h : SinceOf SoundCall (fun _ c => ¬ Deletes (.sem i) c) s₀ l s₁ tr s) :
    ∃ a, Models s a ∧ SemInv i pk.isemcnt.toNat tr a := by
  exact h.lift (fun _ _ h => h) (fun _ _ hm => .start hi hl hm) fun _ _ _ _ _ _ _ hm h =>
    h.step hm hm.call.2

/-- **Resources of a semaphore are conserved.** In every run since its creation and before its
deletion, tasks wait only if none is left, the initial ones and those returned are those left and
those handed out, and a task whose wait a signal has ended gets `E_OK`, every other one
`E_TMOUT`. -/
theorem sem_conserved {semid : Int} {pk : TCsem} {l : Label cfg} {s₀ s₁ : Kernel cfg}
    (hi : getSemcb semid = .ok i) (hl : Spec.CreatesSem semid pk l.1 l.2)
    (h : SinceOf SoundCall (fun _ c => ¬ Deletes (.sem i) c) s₀ l s₁ tr s) :
    (waiters (.sem i) s ≠ [] → (s.core.semcb i).semcnt = 0) ∧
    (pk.isemcnt.toNat : Int) + signals i tr = (s.core.semcb i).semcnt + obtained i tr ∧
    ∀ t e, owed i t tr = some e → (s.core.tcb t).ercd = e := by
  obtain ⟨a, hm, hinv⟩ := h.semInv hi hl
  have ho : (s.core.objcb (.sem i)).state ≠ .noexs := by
    rw [hm.refines.core]
    exact hinv.existing
  rw [hm.waiters_eq _ ho, hm.refines.core]
  exact ⟨hinv.nobody, hinv.balance, fun t e he => (hinv.result t e he).2⟩

/-- A signal goes to a waiting task. -/
theorem sem_conserved_signal : ∃ (tr : Trace smallConfig) (s : Kernel smallConfig),
    owed 0 0 tr = some .ok ∧ (s.core.tcb 0).ercd = .ok ∧
    ((0 : Nat) : Int) + signals 0 tr = (s.core.semcb 0).semcnt + obtained 0 tr := by
  obtain ⟨s₀, l, s₁, tr, s, h, hl, hr, ho⟩ := exists_sinceOf (C := SoundCall)
    (D := fun _ c => ¬ Deletes (.sem 0) c)
    (Q := fun _ l (tr : Trace smallConfig) _ => l.2 = .er .ok ∧ owed 0 0 tr = some .ok)
    (startTasks [1, 2]) (.creSem 1 ⟨0, 0, 1⟩) [.waiSem 1, .isigSem 1] zeroed (by decide +kernel)
  have hcon := sem_conserved (show getSemcb 1 = .ok 0 from rfl) (Or.inl ⟨hl, hr⟩) h
  exact ⟨tr, s, ho, hcon.2.2 0 .ok ho, hcon.2.1⟩

end Ittrium
