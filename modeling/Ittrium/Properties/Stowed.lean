import Ittrium.Properties.Activations
import Ittrium.Properties.Turns

/-!
# Frames on the stacks

The context of a task that does not run is a frame on its stack, and its `TCB` holds the address.

* `Kernel.saved` — what is put away there
* `Stowed` — the stacks are apart, and hold the frames of the tasks that do not run
* `HasRoom`, `FreshStack`, `RestartApart` — what is expected of callers
* `Stowed.call` — **a call leaves the frames of the other tasks alone**, and builds those of the
  tasks it starts
* `Stowed.save`, `Stowed.entry`, `Stowed.leave` — **a context is put away**, and all others stay
-/

namespace Ittrium

open Infra

variable {cfg : Config} {s s' : Kernel cfg} {a a' : Spec.Model cfg} {t u : TskIx cfg}
  {out : TskIx cfg → Prop} {c : Call cfg} {r : Ret cfg} {f : CtxFrame} {sp : VP}
  {mem : VP → UInt8} {W : Set VP}

/-- What a task that does not run goes on with. -/
def Kernel.saved (s : Kernel cfg) (t : TskIx cfg) : VP × CtxFrame :=
  ((s.core.tcb t).tskctxb.sp + ctxFrameSize, loadFrame (s.core.tcb t).tskctxb.sp s.core.mem)

/-- What a task starts with. -/
def TCB.start (tcb : TCB cfg) : VP × CtxFrame := (startAddr tcb + ctxFrameSize, startFrame tcb)

/-! ## What is expected of callers -/

/-- There is room for a frame below `sp`, in the stack of the running task or apart from all
stacks. -/
def HasRoom (s : Kernel cfg) (sp : VP) : Prop :=
  match s.runtsk with
  | .qnode t => (s.core.tcb t).holds (sp - ctxFrameSize)
  | _ => ∀ u, (s.core.tcb u).state ≠ .noexs →
      Disjoint (area (sp - ctxFrameSize) 272) (s.core.tcb u).stackArea

instance (s : Kernel cfg) (sp : VP) : Decidable (HasRoom s sp) := by
  unfold HasRoom
  split <;> infer_instance

/-- Where the first frame of a task with this packet is built. -/
def TCtsk.startAddr (pk : TCtsk) : VP := ((pk.stk + pk.stksz.setWidth 64) &&& ~~~ 15#64) - 272

/-- A task is created on a stack with room for a frame, and apart from all other ones. -/
def FreshStack (s : Kernel cfg) (c : Call cfg) : Prop :=
  ∀ pk ∈ c.packet, (pk.startAddr - pk.stk).toNat + 272 ≤ pk.stksz.toNat ∧
    ∀ u, (s.core.tcb u).state ≠ .noexs →
      Disjoint (area pk.stk pk.stksz.toNat) (s.core.tcb u).stackArea

instance (s : Kernel cfg) (c : Call cfg) : Decidable (FreshStack s c) :=
  inferInstanceAs (Decidable (∀ pk ∈ c.packet, _))

/-- A task that has asked to be started anew ends without a frame in the one it starts with. -/
def RestartApart (s : Kernel cfg) (sp : VP) (c : Call cfg) : Prop :=
  c = .extTsk → ∀ t, s.runtsk = .qnode t → (s.core.tcb t).actcnt ≠ 0 →
    Disjoint (area (sp - ctxFrameSize) 272) (area (startAddr (s.core.tcb t)) 272)

instance (s : Kernel cfg) (sp : VP) (c : Call cfg) : Decidable (RestartApart s sp c) :=
  inferInstanceAs (Decidable (_ → _))

/-! ## Frames that are put away -/

/-- The stacks are apart, and each holds the frame of its task, those in `out` excepted. -/
structure Stowed (out : TskIx cfg → Prop) (s : Kernel cfg) : Prop where
  models : ∃ a, Models s a
  apart : ∀ t u, t ≠ u → (s.core.tcb t).state ≠ .noexs → (s.core.tcb u).state ≠ .noexs →
    Disjoint (s.core.tcb t).stackArea (s.core.tcb u).stackArea
  room : ∀ t, (s.core.tcb t).state ≠ .noexs → (s.core.tcb t).holds (startAddr (s.core.tcb t))
  inside : ∀ t, ¬ (s.core.tcb t).absent → ¬ out t →
    (s.core.tcb t).holds (s.core.tcb t).tskctxb.sp

theorem TCB.exists_of_live {tcb : TCB cfg} (h : ¬ tcb.absent) : tcb.state ≠ .noexs :=
  fun hn => h (Or.inr hn)

/-- The contexts put away are the same. -/
def SameSaved (out : TskIx cfg → Prop) (s s' : Kernel cfg) : Prop :=
  ∀ t, ¬ (s'.core.tcb t).absent → ¬ out t → s'.saved t = s.saved t

/-- Nobody has started to run who was not to. -/
theorem Models.live_of_runtsk (h : Models s a) (ht : s.runtsk = .qnode t) :
    ¬ (s.core.tcb t).absent := by
  have hr := h.inv.runtsk t (h.runtsk_iff.mp ht)
  rw [h.refines.core]
  rintro (hd | hn)
  · exact absurd (hr.symm.trans hd) (by simp)
  · exact absurd (hr.symm.trans hn) (by simp)

theorem Models.setCore {g : Core cfg → Core cfg} (h : Models s a)
    (hg : Spec.SameTasks a (g a.core)) : Models (s.setCore g) (a.setCore g) :=
  ⟨h.refines.setCore_same fun u => ⟨(hg.tcb u).state, (hg.tcb u).waitObj⟩,
    h.inv.steady (h.inv.toSettled.setCore hg)⟩

/-- Memory is written to, but no frame that is put away. -/
theorem Stowed.withMem (h : Stowed out s) (hm : OnlyIn W s.core.mem mem)
    (hW : ∀ t, ¬ (s.core.tcb t).absent → ¬ out t →
      Disjoint W (area (s.core.tcb t).tskctxb.sp 272)) :
    Stowed out (s.withMem mem) ∧ SameSaved out s (s.withMem mem) := by
  obtain ⟨a, hmod⟩ := h.models
  refine ⟨⟨⟨_, hmod.setCore (g := fun c => { c with mem := mem }) ?_⟩, h.apart, h.room, h.inside⟩, ?_⟩
  · exact ⟨fun _ => .refl _, fun _ _ => rfl, fun _ => Iff.rfl, rfl⟩
  · intro t hl ho
    exact Prod.ext rfl (loadFrame_congr (hm.keeps (hW t hl ho)))

theorem Stowed.mono {out' : TskIx cfg → Prop} (h : Stowed out s) (ho : ∀ t, out t → out' t) :
    Stowed out' s :=
  ⟨h.models, h.apart, h.room, fun t hl hn => h.inside t hl fun hx => hn (ho t hx)⟩

theorem Stowed.dispatch (h : Stowed (fun _ => False) s) : Stowed (fun _ => False) (dispatch s) := by
  obtain ⟨a, hm⟩ := h.models
  obtain ⟨a', -, hm'⟩ := hm.step (c := .dispatch) (show Spec.Sound s.core .dispatch from trivial) rfl
  exact ⟨⟨a', hm'⟩, h.apart, h.room, h.inside⟩

/-! ## Calls -/

/-- What a call does about the contexts that are put away. -/
structure CallSaves (out : TskIx cfg → Prop) (c : Call cfg) (s s' : Kernel cfg) : Prop where
  stowed : Stowed (fun t => out t ∧ c ≠ .extTsk) s'
  started : ∀ t, ¬ (s'.core.tcb t).absent →
    (s.core.tcb t).absent ∨ c = .extTsk ∧ s.runtsk = .qnode t →
    s'.saved t = (s'.core.tcb t).start
  others : ∀ t, ¬ (s'.core.tcb t).absent → ¬ (s.core.tcb t).absent →
    ¬ (c = .extTsk ∧ s.runtsk = .qnode t) → ¬ out t → s'.saved t = s.saved t
  stack : ∀ t, ¬ (s'.core.tcb t).absent → (s.core.tcb t).state ≠ .noexs ∧
    Spec.stackOf (s'.core.tcb t) = Spec.stackOf (s.core.tcb t)

/-- A call that touches no context. -/
theorem Stowed.kept (h : Stowed out s) (hm : Models s a) (hm' : Models s' a') (hc : c ≠ .extTsk)
    (hctx : a'.contexts = a.contexts)
    (hk : ∀ t, Spec.Keeps (a.core.tcb t) (a'.core.tcb t)) : CallSaves out c s s' := by
  have hcore := hm.refines.core
  have hcore' := hm'.refines.core
  have hmem : s'.core.mem = s.core.mem := by
    rw [hcore, hcore']
    exact congrArg Prod.fst hctx
  have hsp : ∀ t, (s'.core.tcb t).tskctxb = (s.core.tcb t).tskctxb := by
    intro t
    rw [hcore, hcore']
    exact congrFun (congrArg Prod.snd hctx) t
  have hk : ∀ t, Spec.Keeps (s.core.tcb t) (s'.core.tcb t) := by
    rw [hcore, hcore']
    exact hk
  have hlive : ∀ t, ¬ (s'.core.tcb t).absent → ¬ (s.core.tcb t).absent := fun t => mt (hk t).absent
  refine ⟨⟨⟨a', hm'⟩, ?_, ?_, ?_⟩, ?_, ?_, fun t ht => (hk t).stack (TCB.exists_of_live ht)⟩
  · intro t u htu ht hu
    obtain ⟨ht, hst⟩ := (hk t).stack ht
    obtain ⟨hu, hsu⟩ := (hk u).stack hu
    rw [TCB.stackArea_congr hst, TCB.stackArea_congr hsu]
    exact h.apart t u htu ht hu
  · intro t ht
    obtain ⟨ht, hst⟩ := (hk t).stack ht
    rw [TCB.holds_congr hst, startAddr_congr hst]
    exact h.room t ht
  · intro t ht ho
    obtain ⟨-, hst⟩ := (hk t).stack (TCB.exists_of_live ht)
    rw [TCB.holds_congr hst, hsp]
    exact h.inside t (hlive t ht) fun hout => ho ⟨hout, hc⟩
  · rintro t ht (habs | ⟨hx, -⟩)
    · exact absurd habs (hlive t ht)
    · exact absurd hx hc
  · intro t _ _ _ _
    rw [Kernel.saved, Kernel.saved, hmem, hsp]

/-- The task whose context is touched, before and after. -/
structure TurnOf (t : TskIx cfg) (c : Call cfg) (s s' : Kernel cfg) : Prop where
  begins : (s.core.tcb t).absent ∨ c = .extTsk ∧ s.runtsk = .qnode t
  exits : c = .extTsk → s.runtsk = .qnode t
  exists' : (s'.core.tcb t).state ≠ .noexs
  room : (s'.core.tcb t).holds (startAddr (s'.core.tcb t))
  apart : ∀ u, u ≠ t → (s.core.tcb u).state ≠ .noexs →
    Disjoint (s'.core.tcb t).stackArea (s.core.tcb u).stackArea
  stack : ¬ (s'.core.tcb t).absent → (s.core.tcb t).state ≠ .noexs ∧
    Spec.stackOf (s'.core.tcb t) = Spec.stackOf (s.core.tcb t)

/-- Its stack is the one it had. -/
theorem Stowed.sameStack (h : Stowed out s) (s' : Kernel cfg) (hn : (s.core.tcb t).state ≠ .noexs)
    (hst : Spec.stackOf (s'.core.tcb t) = Spec.stackOf (s.core.tcb t)) :
    (s'.core.tcb t).holds (startAddr (s'.core.tcb t)) ∧
      ∀ u, u ≠ t → (s.core.tcb u).state ≠ .noexs →
        Disjoint (s'.core.tcb t).stackArea (s.core.tcb u).stackArea := by
  rw [TCB.holds_congr hst, startAddr_congr hst, TCB.stackArea_congr hst]
  exact ⟨h.room t hn, fun u hu hux => h.apart t u hu.symm hn hux⟩

theorem Stowed.turnOf (h : Stowed out s) (hm : Models s a) (hm' : Models s' a')
    (hf : FreshStack s c) (hturn : Spec.Turn c a t a') : TurnOf t c s s' := by
  have hrun := hm.runtsk_iff (t := t)
  have hcore := hm.refines.core
  have hcore' := hm'.refines.core
  rcases hturn with ⟨hp, hn, hd, hst⟩ | ⟨hc, hd, hr, hst⟩ | ⟨hc, hr, hx, hst⟩
  · rename_i pk
    rw [← hcore] at hn
    rw [← hcore'] at hd hst
    obtain ⟨hroom, hfree⟩ := hf pk hp
    obtain ⟨hstk, hbase, hsz⟩ : (s'.core.tcb t).stk = pk.stk + pk.stksz.setWidth 64 ∧
        (s'.core.tcb t).stkBase = pk.stk ∧ (s'.core.tcb t).stksz = pk.stksz := by
      simpa [Spec.stackOf] using hst
    have hne : c ≠ .extTsk := by
      rintro rfl
      cases hp
    refine ⟨Or.inl (Or.inr hn), fun hx => absurd hx hne, by simp [hd], ?_, ?_,
      fun hl => absurd (Or.inl hd) hl⟩
    · rw [TCB.holds, startAddr, hstk, hbase, hsz]
      exact hroom
    · intro u _ hu
      rw [TCB.stackArea, hbase, hsz]
      exact hfree u hu
  · rw [← hcore] at hd hst
    rw [← hcore'] at hr hst
    obtain ⟨hroom, hapart⟩ := h.sameStack s' (by simp [hd]) hst
    exact ⟨Or.inl (Or.inl hd), fun hx => absurd hx hc, by simp [hr], hroom, hapart,
      fun _ => ⟨by simp [hd], hst⟩⟩
  · rw [← hcore] at hst
    rw [← hcore'] at hx hst
    have hr := hrun.mpr hr
    have hn := TCB.exists_of_live (hm.live_of_runtsk hr)
    obtain ⟨hroom, hapart⟩ := h.sameStack s' hn hst
    exact ⟨Or.inr ⟨hc, hr⟩, fun _ => hr, hx, hroom, hapart, fun _ => ⟨hn, hst⟩⟩

/-- A call that touches the context of a task it creates, starts or ends. -/
theorem Stowed.turn (h : Stowed out s) (hm' : Models s' a') (hout : ∀ u, out u → s.runtsk = .qnode u)
    (ht : Touches t s.core s'.core) (hturn : TurnOf t c s s') : CallSaves out c s s' := by
  have hother : ∀ u, u ≠ t → ¬ (c = .extTsk ∧ s.runtsk = .qnode u) := by
    rintro u hu ⟨hx, hr⟩
    exact hu (Node.qnode.inj (hr.symm.trans (hturn.exits hx)))
  have hstay : ∀ u, u ≠ t → ¬ (out u ∧ c ≠ .extTsk) → ¬ out u := by
    intro u hu ho hx
    exact ho ⟨hx, fun hc => hother u hu ⟨hc, hout u hx⟩⟩
  have hsub : (s'.core.tcb t).stackArea ∪ area (startAddr (s'.core.tcb t)) 272 ⊆
      (s'.core.tcb t).stackArea := Set.union_subset subset_rfl hturn.room.subset
  -- the frames of the other tasks are in their own stacks
  have hsaved : ∀ u, u ≠ t → ¬ (s.core.tcb u).absent → ¬ out u → s'.saved u = s.saved u := by
    intro u hu hl ho
    have hdis := (hturn.apart u hu (TCB.exists_of_live hl)).mono_right (h.inside u hl ho).subset
    have hframe := (ht.mem.mono hsub).keeps hdis
    rw [Kernel.saved, Kernel.saved, ht.others u hu, loadFrame_congr hframe]
  refine ⟨⟨⟨a', hm'⟩, ?_, ?_, ?_⟩, ?_, ?_, ?_⟩
  · intro u v huv hu hv
    by_cases hut : u = t
    · subst hut
      rw [ht.others v huv.symm] at hv ⊢
      exact hturn.apart v huv.symm hv
    · rw [ht.others u hut] at hu ⊢
      by_cases hvt : v = t
      · subst hvt
        exact (hturn.apart u huv hu).symm
      · rw [ht.others v hvt] at hv ⊢
        exact h.apart u v huv hu hv
  · intro u hu
    by_cases hut : u = t
    · rw [hut]
      exact hturn.room
    · rw [ht.others u hut] at hu ⊢
      exact h.room u hu
  · intro u hl ho
    by_cases hut : u = t
    · subst hut
      rw [(ht.begins hl).sp]
      exact hturn.room
    · rw [ht.others u hut] at hl ⊢
      exact h.inside u hl (hstay u hut ho)
  · intro u hl hb
    by_cases hut : u = t
    · subst hut
      have hbegin := ht.begins hl
      rw [Kernel.saved, hbegin.sp, hbegin.frame]
      rfl
    · rw [ht.others u hut] at hl
      exact absurd (hb.resolve_right (hother u hut)) hl
  · intro u hl' hl hx ho
    by_cases hut : u = t
    · subst hut
      exact absurd hturn.begins (not_or.mpr ⟨hl, hx⟩)
    · exact hsaved u hut hl ho
  · intro u hl
    by_cases hut : u = t
    · subst hut
      exact hturn.stack hl
    · rw [ht.others u hut] at hl ⊢
      exact ⟨TCB.exists_of_live hl, rfl⟩

/-- **What a call does about the contexts.** -/
theorem Stowed.call (h : Stowed out s) (hout : ∀ u, out u → s.runtsk = .qnode u)
    (hs : SoundCall s c) (hf : FreshStack s c) (he : exec c s = .ok (s', r)) :
    CallSaves out c s s' := by
  obtain ⟨a, hm⟩ := h.models
  obtain ⟨a', he', hm'⟩ := hm.step hs he
  rcases Spec.exec_turns hm.inv he' with ⟨hc, hctx, hk⟩ | ⟨ht, hturn⟩
  · exact h.kept hm hm' hc hctx hk
  · refine h.turn hm' hout ?_ (h.turnOf hm hm' hf hturn)
    rwa [hm.refines.core, hm'.refines.core]

/-- A call that comes back leaves the running task started. -/
theorem live_of_running (hm : Models s a) (hs : SoundCall s c) (he : exec c s = .ok (s', r))
    (hr : s.runtsk = .qnode t) (hc : c ≠ .extTsk) : ¬ (s'.core.tcb t).absent := by
  obtain ⟨a', he', hm'⟩ := hm.step hs he
  have hrun := hm.runtsk_iff.mp hr
  have hrdy := hm.inv.runtsk t hrun
  have hact := Spec.exec_activity hm.inv he' (by simp [hrdy]) fun _ _ _ => hrun
  rw [hm'.refines.core]
  rcases hact with ⟨-, -, hd, -⟩ | ⟨-, -, -, -, htcb⟩ | ⟨hx, -, -⟩ | ⟨-, -, hu⟩
  · exact absurd (hrdy.symm.trans hd) (by simp)
  · rw [htcb]
    simp [TCB.absent, hrdy]
  · exact absurd hx hc
  · rintro (hd | hn)
    · exact absurd (hrdy.symm.trans (hu.dormant.mp hd)) (by simp)
    · exact absurd (hrdy.symm.trans (hu.missing.mp hn)) (by simp)

/-- A task that is started anew as it ends was asked to. -/
theorem actcnt_of_restart (hm : Models s a) (he : exec .extTsk s = .ok (s', r))
    (hr : s.runtsk = .qnode t) (hl : ¬ (s'.core.tcb t).absent) : (s.core.tcb t).actcnt ≠ 0 := by
  obtain ⟨a', he', hm'⟩ := hm.step (c := .extTsk) (show Spec.Sound s.core .extTsk from trivial) he
  obtain ⟨u, hu, rfl⟩ := Spec.exec_extTsk he'
  obtain rfl : u = t := Option.some.inj (hu.symm.trans (hm.runtsk_iff.mp hr))
  intro hcnt
  rw [hm.refines.core] at hcnt
  refine hl (Or.inl ?_)
  rw [hm'.refines.core]
  show ((a.exit u).core.tcb u).state = .dmt
  rw [Spec.exit_dormant hcnt, Spec.dormant_tcb]

/-! ## A context is put away -/

theorem saveContext_tcb_self : (saveContext (.qnode t) f sp s).core.tcb t =
    { s.core.tcb t with
      tskctxb := { (s.core.tcb t).tskctxb with sp := sp - ctxFrameSize } } := by
  unfold saveContext
  dsimp only [Kernel.setTcb, Kernel.setCore]
  rw [Core.setTcb_self]
  rfl

theorem saveContext_tcb_of_ne (hu : u ≠ t) :
    (saveContext (.qnode t) f sp s).core.tcb u = s.core.tcb u := by
  unfold saveContext
  dsimp only [Kernel.setTcb, Kernel.setCore]
  rw [Core.setTcb_of_ne hu]
  rfl

/-- The rest of the control blocks stays. -/
theorem saveContext_tcb (t : TskIx cfg) (f : CtxFrame) (sp : VP) (s : Kernel cfg) (u : TskIx cfg) :
    ∃ ctx, (saveContext (.qnode t) f sp s).core.tcb u =
    { s.core.tcb u with tskctxb := ctx } := by
  by_cases hu : u = t
  · subst hu
    exact ⟨_, saveContext_tcb_self⟩
  · exact ⟨_, saveContext_tcb_of_ne hu⟩

theorem saveContext_runtsk (old : Node cfg) : (saveContext old f sp s).runtsk = s.runtsk := by
  cases old <;> rfl

theorem saveContext_state (old : Node cfg) (u : TskIx cfg) :
    ((saveContext old f sp s).core.tcb u).state = (s.core.tcb u).state := by
  cases old with
  | qnode t =>
    obtain ⟨ctx, hctx⟩ := saveContext_tcb t f sp s u
    rw [hctx]
  | _ => rfl

theorem saveContext_absent (old : Node cfg) (u : TskIx cfg) :
    ((saveContext old f sp s).core.tcb u).absent ↔ (s.core.tcb u).absent := by
  rw [TCB.absent, TCB.absent, saveContext_state]

theorem saveContext_start (old : Node cfg) (u : TskIx cfg) :
    ((saveContext old f sp s).core.tcb u).start = (s.core.tcb u).start := by
  cases old with
  | qnode t =>
    obtain ⟨ctx, hctx⟩ := saveContext_tcb t f sp s u
    rw [hctx]
    rfl
  | _ => rfl

/-- The stack pointer of a task is put away. -/
theorem Models.setSp (h : Models s a) (p : VP) : ∃ a', Models (s.setTcb t fun tcb =>
    { tcb with tskctxb := { tcb.tskctxb with sp := p } }) a' := by
  refine ⟨_, h.setCore ⟨fun u => ?_, fun o _ => Core.objcb_setTcb o, fun _ => Iff.rfl, rfl⟩⟩
  by_cases hu : u = t
  · subst hu
    rw [Core.setTcb_self]
    exact ⟨rfl, rfl, rfl, rfl, rfl, rfl, rfl, rfl, fun _ => ⟨rfl, rfl⟩⟩
  · rw [Core.setTcb_of_ne hu]
    exact .refl _

/-- **The context of the running task is put on its stack**, and all other ones stay. -/
theorem Stowed.save (h : Stowed out s) (hout : ∀ u, out u → u = t) (hl : ¬ (s.core.tcb t).absent)
    (hp : (s.core.tcb t).holds (sp - ctxFrameSize)) :
    Stowed (fun _ => False) (saveContext (.qnode t) f sp s) ∧
      ∀ u, ¬ (s.core.tcb u).absent → (saveContext (.qnode t) f sp s).saved u =
        if u = t then (sp, f) else s.saved u := by
  have hwords := storeFrame_words f (sp - ctxFrameSize) s.core.mem
  have hdis : ∀ u, ¬ (s.core.tcb u).absent → u ≠ t →
      Disjoint (area (sp - ctxFrameSize) 272) (area (s.core.tcb u).tskctxb.sp 272) := by
    intro u hu hut
    have hin := h.inside u hu fun ho => hut (hout u ho)
    have hapart := h.apart t u (Ne.symm hut) (TCB.exists_of_live hl) (TCB.exists_of_live hu)
    exact hapart.mono hp.subset hin.subset
  obtain ⟨hst, hsame⟩ := (h.mono hout).withMem hwords.onlyIn hdis
  obtain ⟨a, hm⟩ := hst.models
  have hmem : (saveContext (.qnode t) f sp s).core.mem = storeFrame f (sp - ctxFrameSize) s.core.mem :=
    rfl
  refine ⟨⟨hm.setSp _, ?_, ?_, ?_⟩, ?_⟩
  · intro u v huv hu hv
    obtain ⟨ctx, hctx⟩ := saveContext_tcb t f sp s u
    obtain ⟨ctx', hctx'⟩ := saveContext_tcb t f sp s v
    rw [hctx] at hu ⊢
    rw [hctx'] at hv ⊢
    exact h.apart u v huv hu hv
  · intro u hu
    obtain ⟨ctx, hctx⟩ := saveContext_tcb t f sp s u
    rw [hctx] at hu ⊢
    exact h.room u hu
  · intro u hu _
    by_cases hut : u = t
    · subst hut
      rw [saveContext_tcb_self]
      exact hp
    · rw [saveContext_tcb_of_ne hut] at hu ⊢
      exact hst.inside u hu hut
  · intro u hu
    by_cases hut : u = t
    · subst hut
      rw [if_pos rfl, Kernel.saved, saveContext_tcb_self, hmem]
      refine Prod.ext ?_ (loadFrame_of_words hwords)
      show sp - ctxFrameSize + ctxFrameSize = sp
      bv_omega
    · rw [if_neg hut, ← hsame u hu hut, Kernel.saved, saveContext_tcb_of_ne hut]
      rfl

/-- The frame of `main` or of the idle loop is apart from those of the tasks. -/
theorem Stowed.pushFrame (h : Stowed out s) {p : VP} (hp : ∀ u, (s.core.tcb u).state ≠ .noexs →
      Disjoint (area p 272) (s.core.tcb u).stackArea)
    (hout : ∀ u, ¬ out u) :
    Stowed out (s.withMem (storeFrame f p s.core.mem)) ∧
      SameSaved out s (s.withMem (storeFrame f p s.core.mem)) := by
  refine h.withMem (storeFrame_words f p _).onlyIn fun t hl _ => ?_
  exact (hp t (TCB.exists_of_live hl)).mono_right (h.inside t hl (hout t)).subset

/-- What `irq_entry` puts away, of a task or of other code. -/
theorem Stowed.entry (h : Stowed out s) (hout : ∀ u, out u → s.runtsk = .qnode u)
    (hroom : HasRoom s sp) : Stowed (fun _ => False) (saveContext s.runtsk f sp s) ∧
      ∀ u, ¬ (s.core.tcb u).absent → (saveContext s.runtsk f sp s).saved u =
        if s.runtsk = .qnode u then (sp, f) else s.saved u := by
  obtain ⟨a, hm⟩ := h.models
  unfold HasRoom at hroom
  cases hr : s.runtsk with
  | qnode t =>
    rw [hr] at hroom
    have hmine : ∀ u, out u → u = t := fun u hu => (Node.qnode.inj (hr.symm.trans (hout u hu))).symm
    obtain ⟨hst, hsaved⟩ := h.save (f := f) hmine (hm.live_of_runtsk hr) hroom
    refine ⟨hst, fun u hu => (hsaved u hu).trans ?_⟩
    simp [eq_comm]
  | null =>
    rw [hr] at hroom
    have hno : ∀ u, ¬ out u := fun u hu => by simpa [hr] using hout u hu
    obtain ⟨hst, hsame⟩ := h.pushFrame (f := f) hroom hno
    exact ⟨hst.mono fun u hu => hno u hu, fun u hu => (hsame u hu (hno u)).trans (by simp)⟩
  | _ =>
    have hptr := hm.refines.runtsk
    rw [hr] at hptr
    cases ha : a.runtsk with
    | none => simp [ha, Refine.ptr] at hptr
    | some t => simp [ha] at hptr

/-! ## Calls that end in `dispatch` -/

/-- The frame of a call of `main` is put away nowhere, but apart from those of the tasks. -/
theorem CallSaves.leaveMain (h : CallSaves out c s s') (hno : ∀ u, ¬ out u)
    (hroom : ∀ u, (s.core.tcb u).state ≠ .noexs → Disjoint (area (sp - ctxFrameSize) 272)
      (s.core.tcb u).stackArea) :
    Stowed (fun _ => False) (saveContext .null f sp s') ∧
      ∀ u, ¬ (s'.core.tcb u).absent → (saveContext .null f sp s').saved u = s'.saved u := by
  have hst : Stowed (fun _ => False) s' := h.stowed.mono fun u hu => hno u hu.1
  obtain ⟨hst', hsame⟩ := hst.withMem (storeFrame_words f (sp - ctxFrameSize) _).onlyIn
    fun u hl _ => by
      obtain ⟨hx, hstack⟩ := h.stack u hl
      have hframe := (hst.inside u hl fun hf => hf).subset
      rw [TCB.stackArea_congr hstack] at hframe
      exact (hroom u hx).mono_right hframe
  exact ⟨hst', fun u hl => hsame u hl fun hf => hf⟩

/-- A task leaves with its context on its stack. -/
theorem CallSaves.leaveTask (h : CallSaves out c s s') (hout : ∀ u, out u → u = t)
    (hl : ¬ (s'.core.tcb t).absent) (hroom : (s.core.tcb t).holds (sp - ctxFrameSize)) :
    Stowed (fun _ => False) (saveContext (.qnode t) f sp s') ∧
      ∀ u, ¬ (s'.core.tcb u).absent → (saveContext (.qnode t) f sp s').saved u =
        if u = t then (sp, f) else s'.saved u := by
  refine h.stowed.save (fun u hu => hout u hu.1) hl ?_
  rwa [TCB.holds_congr (h.stack t hl).2]

/-- `ext_tsk` leaves a frame on the stack of the task that has ended. -/
theorem CallSaves.leaveForever (h : CallSaves out .extTsk s s') (hbefore : Stowed out s)
    (hm : Models s a) (he : exec .extTsk s = .ok (s', r)) (hr : s.runtsk = .qnode t)
    (hroom : (s.core.tcb t).holds (sp - ctxFrameSize)) (hrestart : RestartApart s sp .extTsk) :
    Stowed (fun _ => False) (saveContext .null f sp s') ∧
      ∀ u, ¬ (s'.core.tcb u).absent → (saveContext .null f sp s').saved u = s'.saved u := by
  have hst : Stowed (fun _ => False) s' := h.stowed.mono fun u hu => hu.2 rfl
  obtain ⟨hst', hsame⟩ := hst.withMem (storeFrame_words f (sp - ctxFrameSize) _).onlyIn
    fun u hl _ => by
      obtain ⟨hx, hstack⟩ := h.stack u hl
      by_cases hut : u = t
      · subst hut
        have hsp := congrArg Prod.fst (h.started u hl (Or.inr ⟨rfl, hr⟩))
        rw [show (s'.core.tcb u).tskctxb.sp = startAddr (s'.core.tcb u) from add_right_cancel hsp,
          startAddr_congr hstack]
        exact hrestart rfl u hr (actcnt_of_restart hm he hr hl)
      · have hframe := (hst.inside u hl fun hf => hf).subset
        rw [TCB.stackArea_congr hstack] at hframe
        have hx' := TCB.exists_of_live (hm.live_of_runtsk hr)
        exact (hbefore.apart t u (Ne.symm hut) hx' hx).mono hroom.subset hframe
  exact ⟨hst', fun u hl => hsame u hl fun hf => hf⟩

/-- **What is put away when a call ends in `dispatch`.** -/
theorem Stowed.leave (h : Stowed out s) (hout : ∀ u, out u → s.runtsk = .qnode u)
    (hs : SoundCall s c) (hf : FreshStack s c) (he : exec c s = .ok (s', r)) (hroom : HasRoom s sp)
    (hrestart : RestartApart s sp c) :
    Stowed (fun _ => False) (saveContext (leaver c s) f sp s') ∧
      ∀ u, ¬ (s'.core.tcb u).absent → (saveContext (leaver c s) f sp s').saved u =
        if c ≠ .extTsk ∧ s.runtsk = .qnode u then (sp, f) else s'.saved u := by
  have hcall := h.call hout hs hf he
  obtain ⟨a, hm⟩ := h.models
  unfold HasRoom at hroom
  by_cases hc : c = .extTsk
  · subst hc
    obtain ⟨a', he', -⟩ := hm.step hs he
    obtain ⟨t, ht, -⟩ := Spec.exec_extTsk he'
    have hr := hm.runtsk_iff.mpr ht
    rw [hr] at hroom
    obtain ⟨hst, hsaved⟩ := hcall.leaveForever h hm he hr hroom hrestart (f := f)
    exact ⟨hst, fun u hl => (hsaved u hl).trans (by simp)⟩
  · have hleaver : leaver c s = s.runtsk := by
      cases c with
      | extTsk => exact absurd rfl hc
      | _ => rfl
    rw [hleaver]
    cases hr : a.runtsk with
    | some t =>
      have hr := hm.runtsk_iff.mpr hr
      rw [hr] at hroom ⊢
      have hmine : ∀ u, out u → u = t := fun u hu => (Node.qnode.inj (hr.symm.trans (hout u hu))).symm
      obtain ⟨hst, hsaved⟩ :=
        hcall.leaveTask (f := f) hmine (live_of_running hm hs he hr hc) hroom
      refine ⟨hst, fun u hl => (hsaved u hl).trans ?_⟩
      simp [hc, eq_comm]
    | none =>
      have hr : s.runtsk = .null := by rw [hm.refines.runtsk, hr]; rfl
      rw [hr] at hroom ⊢
      have hno : ∀ u, ¬ out u := fun u hu => by simpa [hr] using hout u hu
      obtain ⟨hst, hsaved⟩ := hcall.leaveMain (f := f) hno hroom
      exact ⟨hst, fun u hl => (hsaved u hl).trans (by simp)⟩

end Ittrium
