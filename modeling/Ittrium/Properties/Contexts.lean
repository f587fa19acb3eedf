import Ittrium.Properties.Stowed

/-!
# Every task has its processor

There is one processor. To a task it looks as if it had one of its own, which only waits while
others run, as far as the general registers are concerned. (The floating-point and SIMD registers
are not saved.)

* `Machine.context` — general registers and stack pointer of a task, in the processor or on its stack
* `nextContext` — what they are for a task that has a processor of its own
* `Permits` — what is expected of the code that runs: it leaves room on its stack, writes to no
  frame of another task, and with an activation queued calls `ext_tsk` only where `dispatch` pushes
  no part of the frame the task is to start with
* `Orderly.step` — what each step does
* `contexts_kept` — **every task goes on with what it was left with**
-/

namespace Ittrium

open Infra

variable {cfg : Config} {m m' : Machine cfg} {s s' : Kernel cfg} {t : TskIx cfg} {c : Call cfg}
  {r : Ret cfg} {f : CtxFrame} {sp idleTop : VP}

/-! ## Contexts -/

/-- The processor runs `t`. -/
def Machine.onCpu (m : Machine cfg) (t : TskIx cfg) : Prop :=
  match m.cpu with
  | .running _ _ => m.kernel.runtsk = .qnode t
  | _ => False

instance (m : Machine cfg) (t : TskIx cfg) : Decidable (m.onCpu t) := by
  unfold Machine.onCpu
  split <;> infer_instance

/-- Stack pointer and registers of a task that has been started. -/
def Machine.context (m : Machine cfg) (t : TskIx cfg) : Option (VP × CtxFrame) :=
  if (m.kernel.core.tcb t).absent then none
  else
    match m.cpu with
    | .running sp f => some (if m.kernel.runtsk = .qnode t then (sp, f) else m.kernel.saved t)
    | _ => some (m.kernel.saved t)

/-- `ext_tsk`. -/
def Act.exits : Act cfg → Bool
  | .switch .extTsk => true
  | _ => false

/-- A task that exists after the event starts in it. -/
def Starts (t : TskIx cfg) (e : Event (Machine cfg) (Act cfg)) : Prop :=
  (e.pre.kernel.core.tcb t).absent ∨ e.label.exits = true ∧ e.pre.kernel.runtsk = .qnode t

instance (t : TskIx cfg) (e : Event (Machine cfg) (Act cfg)) : Decidable (Starts t e) :=
  inferInstanceAs (Decidable (_ ∨ _))

/-- The registers of a task that has a processor of its own. They change as it computes, and
`dispatch` returns to its caller. -/
def nextContext (t : TskIx cfg) (e : Event (Machine cfg) (Act cfg)) (x : Option (VP × CtxFrame)) :
    Option (VP × CtxFrame) :=
  if (e.post.kernel.core.tcb t).absent then none
  else if Starts t e then some (e.post.kernel.core.tcb t).start
  else if e.pre.kernel.runtsk = .qnode t then
    match e.label, e.pre.cpu with
    | .work sp f _, _ => some (sp, f)
    | .switch _, .running sp f => some (sp, dispatchFrame f.x)
    | _, _ => x
  else x

/-! ## What is expected of the code -/

/-- None of the bytes is in the frame of a task that does not run. -/
def AvoidsFrames (m : Machine cfg) (ws : List (VP × UInt8)) : Prop :=
  ∀ w ∈ ws, ∀ t, ¬ (m.kernel.core.tcb t).absent → ¬ m.onCpu t →
    ¬ (w.1 - (m.kernel.core.tcb t).tskctxb.sp).toNat < 272

/-- The stack pointer of the code that runs meets `P`. -/
def Cpu.allSp (P : VP → Prop) : Cpu → Prop
  | .running sp _ => P sp
  | _ => True

/-- What is expected of the code that runs. -/
def Permits (idleTop : VP) (m : Machine cfg) : Act cfg → Prop
  | .work _ _ ws => AvoidsFrames m ws
  | .call c => SoundCall m.kernel c ∧ FreshStack m.kernel c
  | .switch c => SoundCall m.kernel c ∧ FreshStack m.kernel c ∧ m.cpu.allSp fun sp =>
      HasRoom m.kernel sp ∧ RestartApart m.kernel sp c
  | .interrupt => m.cpu.allSp fun sp => HasRoom m.kernel sp
  | .interruptIdle _ => HasRoom m.kernel idleTop
  | .handlerCall c => SoundCall m.kernel c
  | .handlerWork ws => AvoidsFrames m ws
  | _ => True

/-- `main` runs after the initializations. -/
def MachineStart (m : Machine cfg) : Prop := Booted m.kernel ∧ ∃ sp f, m.cpu = .running sp f

def MachineStep (idleTop : VP) (m : Machine cfg) (l : Act cfg) (m' : Machine cfg) : Prop :=
  Permits idleTop m l ∧ act idleTop l m = some m'

/-- The runs of the machine. -/
abbrev MachineRun (idleTop : VP) : List (Event (Machine cfg) (Act cfg)) → Machine cfg → Prop :=
  Run MachineStart (MachineStep idleTop)

/-! ## Order -/

/-- What is not in the processor is put away, and the processor knows whom it works for. -/
structure Orderly (m : Machine cfg) : Prop where
  stowed : Stowed m.onCpu m.kernel
  handled : ∀ sp idle, m.cpu = .handling sp idle → ∀ t, m.kernel.runtsk = .qnode t →
    (m.kernel.core.tcb t).tskctxb.sp = sp ∧ idle = false
  waits : m.cpu = .idle → ∀ t, m.kernel.runtsk ≠ .qnode t

theorem context_absent (h : (m.kernel.core.tcb t).absent) : m.context t = none := if_pos h

theorem context_onCpu (hl : ¬ (s.core.tcb t).absent) (hr : s.runtsk = .qnode t) :
    Machine.context ⟨s, .running sp f⟩ t = some (sp, f) := by
  unfold Machine.context
  rw [if_neg hl]
  exact congrArg some (if_pos hr)

theorem context_offCpu (hl : ¬ (s.core.tcb t).absent) (hr : s.runtsk ≠ .qnode t) :
    Machine.context ⟨s, .running sp f⟩ t = some (s.saved t) := by
  unfold Machine.context
  rw [if_neg hl]
  exact congrArg some (if_neg hr)

theorem context_handling (hl : ¬ (s.core.tcb t).absent) (idle : Bool) :
    Machine.context ⟨s, .handling sp idle⟩ t = some (s.saved t) := if_neg hl

theorem context_idle (hl : ¬ (s.core.tcb t).absent) :
    Machine.context ⟨s, .idle⟩ t = some (s.saved t) := if_neg hl

theorem Orderly.of_stowed (h : Stowed (fun _ => False) s) {cpu : Cpu}
    (hh : ∀ sp idle, cpu = .handling sp idle → ∀ t, s.runtsk = .qnode t →
      (s.core.tcb t).tskctxb.sp = sp ∧ idle = false)
    (hw : cpu = .idle → ∀ t, s.runtsk ≠ .qnode t) : Orderly ⟨s, cpu⟩ :=
  ⟨h.mono fun _ hf => hf.elim, hh, hw⟩

/-- **`restore_sched` changes no context.** -/
theorem restoreSched_keeps (h : Stowed (fun _ => False) s) : Orderly (restoreSched s) ∧
    ∀ t, ¬ (s.core.tcb t).absent → (restoreSched s).context t = some (s.saved t) := by
  have hd := h.dispatch
  unfold restoreSched
  dsimp only
  split
  · next u hu =>
    refine ⟨.of_stowed hd (by simp) (by simp), fun t hl => ?_⟩
    by_cases htu : t = u
    · subst htu
      exact context_onCpu hl hu
    · exact context_offCpu hl fun hr => htu (Node.qnode.inj (hr.symm.trans hu))
  · next hu =>
    refine ⟨.of_stowed hd (by simp) fun _ t => hu t, fun t hl => ?_⟩
    exact context_idle hl

/-- The machine goes on in order, and every task has the context it is to have. -/
def Goes (m : Machine cfg) (l : Act cfg) (m' : Machine cfg) : Prop :=
  Orderly m' ∧ ∀ t, m'.context t = nextContext t ⟨m, l, m'⟩ (m.context t)

/-- It is enough to know the contexts of the tasks that have been started. -/
theorem Goes.of_live {l : Act cfg} (ho : Orderly m')
    (h : ∀ t, ¬ (m'.kernel.core.tcb t).absent →
      m'.context t = nextContext t ⟨m, l, m'⟩ (m.context t)) : Goes m l m' := by
  refine ⟨ho, fun t => ?_⟩
  by_cases hl : (m'.kernel.core.tcb t).absent
  · rw [context_absent hl, nextContext, if_pos hl]
  · exact h t hl

/-- The context of a task that starts. -/
theorem nextContext_starts {e : Event (Machine cfg) (Act cfg)} {x : Option (VP × CtxFrame)}
    (hl : ¬ (e.post.kernel.core.tcb t).absent) (hs : Starts t e) :
    nextContext t e x = some (e.post.kernel.core.tcb t).start := by
  rw [nextContext, if_neg hl, if_pos hs]

/-- The context of a task that does not run. -/
theorem nextContext_other {e : Event (Machine cfg) (Act cfg)} {x : Option (VP × CtxFrame)}
    (hl : ¬ (e.post.kernel.core.tcb t).absent) (hs : ¬ Starts t e)
    (hr : e.pre.kernel.runtsk ≠ .qnode t) : nextContext t e x = x := by
  rw [nextContext, if_neg hl, if_neg hs, if_neg hr]

theorem nextContext_run {e : Event (Machine cfg) (Act cfg)} {x : Option (VP × CtxFrame)}
    (hl : ¬ (e.post.kernel.core.tcb t).absent) (hs : ¬ Starts t e)
    (hr : e.pre.kernel.runtsk = .qnode t) : nextContext t e x =
      match e.label, e.pre.cpu with
      | .work sp f _, _ => some (sp, f)
      | .switch _, .running sp f => some (sp, dispatchFrame f.x)
      | _, _ => x := by
  rw [nextContext, if_neg hl, if_neg hs, if_pos hr]

theorem starts_iff {e : Event (Machine cfg) (Act cfg)} (hx : e.label.exits = false) :
    Starts t e ↔ (e.pre.kernel.core.tcb t).absent := by
  simp [Starts, hx]

/-! ## Steps -/

theorem writeBytes_onlyIn (ws : List (VP × UInt8)) (mem : VP → UInt8) :
    OnlyIn {x | ∃ w ∈ ws, w.1 = x} mem (writeBytes ws mem) := by
  intro x hx
  induction ws generalizing mem with
  | nil => rfl
  | cons w ws ih =>
    have hne : x ≠ w.1 := fun he => hx ⟨w, List.mem_cons_self, he.symm⟩
    have hrest : x ∈ {x | ∃ w ∈ ws, w.1 = x}ᶜ := fun ⟨v, hv, he⟩ =>
      hx ⟨v, List.mem_cons_of_mem _ hv, he⟩
    have h := ih (Function.update mem w.1 w.2) hrest
    rw [Function.update_of_ne hne] at h
    exact h

/-- The code that runs, or a handler, writes to no frame that is put away. -/
theorem Stowed.write {ws : List (VP × UInt8)} (h : Stowed m.onCpu m.kernel) (hw : AvoidsFrames m ws) :
    Stowed m.onCpu (m.kernel.withMem (writeBytes ws m.kernel.core.mem)) ∧
      SameSaved m.onCpu m.kernel (m.kernel.withMem (writeBytes ws m.kernel.core.mem)) := by
  refine h.withMem (writeBytes_onlyIn ws _) fun t hl ho => ?_
  rw [Set.disjoint_left]
  rintro x ⟨w, hmem, rfl⟩ hx
  exact hw w hmem t hl ho hx

theorem Orderly.work {sp₀ : VP} {f₀ : CtxFrame} {ws : List (VP × UInt8)}
    (h : Orderly ⟨s, .running sp₀ f₀⟩) (hw : AvoidsFrames ⟨s, .running sp₀ f₀⟩ ws) :
    Goes ⟨s, .running sp₀ f₀⟩ (.work sp f ws)
      ⟨s.withMem (writeBytes ws s.core.mem), .running sp f⟩ := by
  obtain ⟨hst, hsame⟩ := h.stowed.write hw
  refine .of_live ⟨hst, by simp, by simp⟩ fun t hl => ?_
  have hns : ¬ Starts t ⟨⟨s, .running sp₀ f₀⟩, .work sp f ws,
      ⟨s.withMem (writeBytes ws s.core.mem), .running sp f⟩⟩ := by
    rw [starts_iff rfl]
    exact hl
  by_cases hr : s.runtsk = .qnode t
  · rw [context_onCpu hl hr, nextContext_run hl hns hr]
  · rw [context_offCpu hl hr, nextContext_other hl hns hr, context_offCpu (s := s) hl hr]
    exact congrArg some (hsame t hl hr)

/-- A call that does not switch. -/
theorem Orderly.call (h : Orderly ⟨s, .running sp f⟩) (hs : SoundCall s c) (hf : FreshStack s c)
    (he : exec c s = .ok (s', r)) (hc : c ≠ .extTsk) (hrun : s'.runtsk = s.runtsk) :
    Goes ⟨s, .running sp f⟩ (.call c) ⟨s', .running sp f⟩ := by
  have hcall := h.stowed.call (fun u hu => hu) hs hf he
  obtain ⟨a, hm⟩ := h.stowed.models
  have hon : ∀ t, Machine.onCpu ⟨s, .running sp f⟩ t → Machine.onCpu ⟨s', .running sp f⟩ t :=
    fun t ht => hrun.trans ht
  refine .of_live ⟨hcall.stowed.mono fun t ht => hon t ht.1, by simp, by simp⟩ fun t hl => ?_
  by_cases hr : s.runtsk = .qnode t
  · have hlive := hm.live_of_runtsk hr
    rw [context_onCpu hl (hrun.trans hr), nextContext_run hl (mt (starts_iff rfl).mp hlive) hr,
      context_onCpu hlive hr]
  · have hr' : s'.runtsk ≠ .qnode t := hrun ▸ hr
    rw [context_offCpu hl hr']
    by_cases habs : (s.core.tcb t).absent
    · rw [nextContext_starts hl ((starts_iff rfl).mpr habs)]
      exact congrArg some (hcall.started t hl (Or.inl habs))
    · rw [nextContext_other hl (mt (starts_iff rfl).mp habs) hr, context_offCpu habs hr]
      exact congrArg some (hcall.others t hl habs (fun hx => hc hx.1) hr)

/-- A call of a handler. -/
theorem Orderly.handlerCall {idle : Bool} (h : Orderly ⟨s, .handling sp idle⟩) (hs : SoundCall s c)
    (hin : c.inHandler = true) (he : exec c s = .ok (s', r)) :
    Goes ⟨s, .handling sp idle⟩ (.handlerCall c) ⟨s', .handling sp idle⟩ := by
  have hc : c ≠ .extTsk := by
    rintro rfl
    cases hin
  have hf : FreshStack s c := by
    intro pk hpk
    cases c with
    | creTsk | acreTsk => cases hin
    | _ => cases hpk
  have hcall := h.stowed.call (fun u hu => hu.elim) hs hf he
  obtain ⟨a, hm⟩ := h.stowed.models
  obtain ⟨a', he', hm'⟩ := hm.step hs he
  have hrun : s'.runtsk = s.runtsk := by
    rw [hm.refines.runtsk, hm'.refines.runtsk]
    exact congrArg Refine.ptr (Spec.exec_inHandler hin _ he')
  have hlive : ∀ t, s'.runtsk = .qnode t → ¬ (s'.core.tcb t).absent ∧ ¬ (s.core.tcb t).absent := by
    intro t ht
    exact ⟨hm'.live_of_runtsk ht, hm.live_of_runtsk (hrun ▸ ht)⟩
  have hother : ∀ t, ¬ (s'.core.tcb t).absent → ¬ (s.core.tcb t).absent → s'.saved t = s.saved t :=
    fun t hl hl₀ => hcall.others t hl hl₀ (fun hx => hc hx.1) fun hx => hx
  refine .of_live ⟨hcall.stowed.mono fun t ht => ht.1.elim, ?_, by simp⟩ fun t hl => ?_
  · rintro p i hcpu t ht
    obtain ⟨hsp, hi⟩ := h.handled p i hcpu t (hrun ▸ ht)
    have hsame := congrArg Prod.fst (hother t (hlive t ht).1 (hlive t ht).2)
    refine ⟨?_, hi⟩
    rw [← hsp]
    exact add_right_cancel hsame
  · rw [context_handling hl]
    by_cases habs : (s.core.tcb t).absent
    · rw [nextContext_starts hl ((starts_iff rfl).mpr habs)]
      exact congrArg some (hcall.started t hl (Or.inl habs))
    · have hnext : nextContext t ⟨⟨s, .handling sp idle⟩, .handlerCall c, ⟨s', .handling sp idle⟩⟩
          (Machine.context ⟨s, .handling sp idle⟩ t) = Machine.context ⟨s, .handling sp idle⟩ t := by
        by_cases hr : s.runtsk = .qnode t
        · rw [nextContext_run hl (mt (starts_iff rfl).mp habs) hr]
        · rw [nextContext_other hl (mt (starts_iff rfl).mp habs) hr]
      rw [hnext, context_handling habs]
      exact congrArg some (hother t hl habs)

/-- A step that keeps all contexts, of code that has not called the kernel. -/
theorem nextContext_same {e : Event (Machine cfg) (Act cfg)}
    (hl : ¬ (e.post.kernel.core.tcb t).absent) (hpre : ¬ (e.pre.kernel.core.tcb t).absent)
    (hx : e.label.exits = false) (x : Option (VP × CtxFrame))
    (hlabel : e.pre.kernel.runtsk = .qnode t →
      (∀ sp f ws, e.label ≠ .work sp f ws) ∧ ∀ c, e.label ≠ .switch c) : nextContext t e x = x := by
  have hns := mt (starts_iff hx).mp hpre
  by_cases hr : e.pre.kernel.runtsk = .qnode t
  · rw [nextContext_run hl hns hr]
    obtain ⟨hwork, hswitch⟩ := hlabel hr
    split
    · next he => exact absurd he (hwork _ _ _)
    · next he _ => exact absurd he (hswitch _)
    · rfl
  · exact nextContext_other hl hns hr

theorem Orderly.handlerWork {ws : List (VP × UInt8)} {idle : Bool}
    (h : Orderly ⟨s, .handling sp idle⟩) (hw : AvoidsFrames ⟨s, .handling sp idle⟩ ws) :
    Goes ⟨s, .handling sp idle⟩ (.handlerWork ws)
      ⟨s.withMem (writeBytes ws s.core.mem), .handling sp idle⟩ := by
  obtain ⟨hst, hsame⟩ := h.stowed.write hw
  refine .of_live ⟨hst, h.handled, by simp⟩ fun t hl => ?_
  rw [nextContext_same hl hl rfl _ fun _ => ⟨by simp, by simp⟩, context_handling hl,
    context_handling (s := s) hl]
  exact congrArg some (hsame t hl fun hx => hx)

/-- The processor is interrupted. -/
theorem Orderly.entry {cpu : Cpu} {l : Act cfg} {idle : Bool} (h : Orderly ⟨s, cpu⟩)
    (hroom : HasRoom s sp) (hidle : idle = true → ∀ t, s.runtsk ≠ .qnode t)
    (hctx : ∀ t, ¬ (s.core.tcb t).absent →
      Machine.context ⟨s, cpu⟩ t = some (if s.runtsk = .qnode t then (sp, f) else s.saved t))
    (hl : l = .interrupt ∨ l = .interruptIdle f) : Goes ⟨s, cpu⟩ l (irqEntry idle sp f s) := by
  have hout : ∀ u, Machine.onCpu ⟨s, cpu⟩ u → s.runtsk = .qnode u := by
    intro u hu
    unfold Machine.onCpu at hu
    split at hu
    · exact hu
    · exact hu.elim
  obtain ⟨hst, hsaved⟩ := h.stowed.entry (f := f) hout hroom
  refine .of_live (.of_stowed hst ?_ (by simp)) fun t hlive => ?_
  · intro p i hp t ht
    obtain ⟨hpeq, hieq⟩ := Cpu.handling.inj hp
    have ht' : s.runtsk = .qnode t := (saveContext_runtsk _).symm.trans ht
    rw [← hpeq, ← hieq]
    constructor
    · show ((saveContext s.runtsk f sp s).core.tcb t).tskctxb.sp = _
      rw [ht', saveContext_tcb_self]
    · cases idle with
      | false => rfl
      | true => exact absurd ht' (hidle rfl t)
  · have hlive' : ¬ (s.core.tcb t).absent := (saveContext_absent _ t).not.mp hlive
    have hx : l.exits = false := by
      rcases hl with rfl | rfl <;> rfl
    rw [nextContext_same hlive hlive' hx _ fun _ => by rcases hl with rfl | rfl <;> simp, hctx t hlive']
    exact (context_handling hlive idle).trans (congrArg some (hsaved t hlive'))

/-- The processor takes up the work of a task, none having been in it before. -/
theorem Goes.resume {cpu : Cpu} {l : Act cfg}
    (hctx : ∀ t, ¬ (s.core.tcb t).absent → Machine.context ⟨s, cpu⟩ t = some (s.saved t))
    (h : Orderly m' ∧ ∀ t, ¬ (s.core.tcb t).absent → m'.context t = some (s.saved t))
    (hcore : m'.kernel.core = s.core) (hl : l = .handlerReturn ∨ l = .poll) : Goes ⟨s, cpu⟩ l m' := by
  refine .of_live h.1 fun t hlive => ?_
  have hlive' : ¬ (s.core.tcb t).absent := hcore ▸ hlive
  have hx : l.exits = false := by
    rcases hl with rfl | rfl <;> rfl
  rw [nextContext_same hlive hlive' hx _ fun _ => by rcases hl with rfl | rfl <;> simp, h.2 t hlive',
    hctx t hlive']

theorem restoreSched_core : (restoreSched s).kernel.core = s.core := by
  unfold restoreSched
  dsimp only
  split <;> rfl

/-- The handler is done. -/
theorem Orderly.handlerReturn {idle : Bool} (h : Orderly ⟨s, .handling sp idle⟩) :
    Goes ⟨s, .handling sp idle⟩ .handlerReturn (irqExit idle sp s) := by
  have hst : Stowed (fun _ => False) s := h.stowed.mono fun _ hf => hf
  unfold irqExit
  split
  · cases idle with
    | true =>
      refine .resume (fun t hl => context_handling hl true) ⟨?_, fun t hl => context_idle hl⟩ rfl
        (Or.inl rfl)
      exact .of_stowed hst (by simp) fun _ t ht => absurd (h.handled sp true rfl t ht).2 (by simp)
    | false =>
      refine .resume (fun t hl => context_handling hl false) ⟨?_, fun t hl => ?_⟩ rfl (Or.inl rfl)
      · exact .of_stowed hst (by simp) (by simp)
      · by_cases hr : s.runtsk = .qnode t
        · refine (context_onCpu hl hr).trans ?_
          rw [Kernel.saved, (h.handled sp false rfl t hr).1]
        · exact context_offCpu hl hr
  · exact .resume (fun t hl => context_handling hl idle) (restoreSched_keeps hst) restoreSched_core
      (Or.inl rfl)

/-- `idle_loop` goes on, or there is a task to run. -/
theorem Orderly.poll (h : Orderly ⟨s, .idle⟩) : Goes ⟨s, .idle⟩ .poll
    (if s.schedtsk = .null then ⟨s, .idle⟩ else restoreSched s) := by
  have hst : Stowed (fun _ => False) s := h.stowed.mono fun _ hf => hf
  split
  · exact .resume (fun t hl => context_idle hl) ⟨h, fun t hl => context_idle hl⟩ rfl (Or.inr rfl)
  · exact .resume (fun t hl => context_idle hl) (restoreSched_keeps hst) restoreSched_core
      (Or.inr rfl)

/-- A call that ends in `dispatch`. -/
theorem Orderly.switch (h : Orderly ⟨s, .running sp f⟩) (hs : SoundCall s c) (hf : FreshStack s c)
    (he : exec c s = .ok (s', r)) (hroom : HasRoom s sp) (hrestart : RestartApart s sp c) :
    Goes ⟨s, .running sp f⟩ (.switch c)
      (restoreSched (saveContext (leaver c s) (dispatchFrame f.x) sp s')) := by
  have hcall := h.stowed.call (fun u hu => hu) hs hf he
  obtain ⟨a, hm⟩ := h.stowed.models
  obtain ⟨hst, hsaved⟩ := h.stowed.leave (f := dispatchFrame f.x) (fun u hu => hu) hs hf he hroom
    hrestart
  obtain ⟨hm', hctx⟩ := restoreSched_keeps hst
  refine .of_live hm' fun t hl => ?_
  rw [restoreSched_core] at hl
  have hl' : ¬ (s'.core.tcb t).absent := (saveContext_absent _ t).not.mp hl
  rw [hctx t hl, hsaved t hl']
  have hexits : (Act.switch c).exits = true ↔ c = .extTsk := by
    cases c <;> simp [Act.exits]
  by_cases hstart : (s.core.tcb t).absent ∨ c = .extTsk ∧ s.runtsk = .qnode t
  · have hnot : ¬ (c ≠ .extTsk ∧ s.runtsk = .qnode t) := by
      rintro ⟨hc, hr⟩
      rcases hstart with habs | ⟨hx, -⟩
      · exact hm.live_of_runtsk hr habs
      · exact hc hx
    rw [if_neg hnot, hcall.started t hl' hstart, nextContext_starts (by rwa [restoreSched_core])
      (hstart.imp id fun ⟨hx, hr⟩ => ⟨hexits.mpr hx, hr⟩)]
    show _ = some ((restoreSched _).kernel.core.tcb t).start
    rw [restoreSched_core, saveContext_start]
  · obtain ⟨hlive, hx⟩ := not_or.mp hstart
    have hns : ¬ Starts t ⟨⟨s, .running sp f⟩, .switch c, restoreSched
        (saveContext (leaver c s) (dispatchFrame f.x) sp s')⟩ := by
      rintro (habs | ⟨he, hr⟩)
      · exact hlive habs
      · exact hx ⟨hexits.mp he, hr⟩
    by_cases hr : s.runtsk = .qnode t
    · rw [if_pos ⟨fun hc => hx ⟨hc, hr⟩, hr⟩, nextContext_run (by rwa [restoreSched_core]) hns hr]
    · rw [if_neg fun hn => hr hn.2, hcall.others t hl' hlive hx hr,
        nextContext_other (by rwa [restoreSched_core]) hns hr, context_offCpu hlive hr]

/-- **Every step leaves the machine in order, and every task with the context it is to have.** -/
theorem Orderly.step {l : Act cfg} (h : Orderly m) (hs : MachineStep idleTop m l m') : Goes m l m' := by
  obtain ⟨hp, ha⟩ := hs
  obtain ⟨s, cpu⟩ := m
  cases l with
  | work sp f ws =>
    cases cpu with
    | running sp₀ f₀ =>
      obtain rfl := Option.some.inj ha
      exact h.work hp
    | _ => cases ha
  | call c =>
    cases cpu with
    | running sp f =>
      simp only [act] at ha
      split at ha
      · next s' r he =>
        split at ha
        · next hc =>
          obtain rfl := Option.some.inj ha
          exact h.call hp.1 hp.2 he hc.1 hc.2
        · cases ha
      · cases ha
    | _ => cases ha
  | switch c =>
    cases cpu with
    | running sp f =>
      obtain ⟨hsound, hfresh, hguard⟩ := hp
      obtain ⟨hroom, hrestart⟩ := hguard
      simp only [act] at ha
      split at ha
      · next s' r he =>
        obtain rfl := Option.some.inj ha
        exact h.switch hsound hfresh he hroom hrestart
      · cases ha
    | _ => cases ha
  | interrupt =>
    cases cpu with
    | running sp f =>
      obtain rfl := Option.some.inj ha
      refine h.entry hp (by simp) (fun t hl => ?_) (Or.inl rfl)
      split
      · next hr => exact context_onCpu hl hr
      · next hr => exact context_offCpu hl hr
    | _ => cases ha
  | interruptIdle f =>
    cases cpu with
    | idle =>
      obtain rfl := Option.some.inj ha
      have hnone := h.waits rfl
      refine h.entry hp (fun _ => hnone) (fun t hl => ?_) (Or.inr rfl)
      rw [if_neg (hnone t), context_idle hl]
    | _ => cases ha
  | handlerCall c =>
    cases cpu with
    | handling sp idle =>
      simp only [act] at ha
      split at ha
      · next hin =>
        split at ha
        · next s' r he =>
          obtain rfl := Option.some.inj ha
          exact h.handlerCall hp hin he
        · cases ha
      · cases ha
    | _ => cases ha
  | handlerWork ws =>
    cases cpu with
    | handling sp idle =>
      obtain rfl := Option.some.inj ha
      exact h.handlerWork hp
    | _ => cases ha
  | handlerReturn =>
    cases cpu with
    | handling sp idle =>
      obtain rfl := Option.some.inj ha
      exact h.handlerReturn
    | _ => cases ha
  | poll =>
    cases cpu with
    | idle =>
      have hpoll := h.poll
      simp only [act] at ha
      split at ha
      · next hnull =>
        obtain rfl := Option.some.inj ha
        rwa [if_pos hnull] at hpoll
      · next hnull =>
        obtain rfl := Option.some.inj ha
        rwa [if_neg hnull] at hpoll
    | _ => cases ha

/-! ## Runs -/

/-- At first there is no task. -/
theorem MachineStart.orderly (h : MachineStart m) :
    Orderly m ∧ ∀ t, (m.kernel.core.tcb t).absent := by
  obtain ⟨⟨m₀, hboot⟩, sp, f, hcpu⟩ := h
  have hm := Models.boot m₀
  have hnone : ∀ t, (m.kernel.core.tcb t).state = .noexs := by
    intro t
    rw [hboot, hm.refines.core]
    exact ((Refine.initial_inv m₀).toSettled.task t).free.mp (List.mem_finRange t)
  refine ⟨⟨⟨⟨_, hboot ▸ hm⟩, ?_, ?_, ?_⟩, ?_, ?_⟩, fun t => Or.inr (hnone t)⟩
  · exact fun t _ _ ht => absurd (hnone t) ht
  · exact fun t ht => absurd (hnone t) ht
  · exact fun t ht => absurd (Or.inr (hnone t)) ht
  · intro p i hp
    rw [hcpu] at hp
    cases hp
  · intro hp
    rw [hcpu] at hp
    cases hp

/-- **Every task goes on with what it was left with**: whatever runs, interrupts, calls and switches
in between, its general registers and its stack pointer are those it would have with a processor of
its own. -/
theorem contexts_kept {tr : List (Event (Machine cfg) (Act cfg))} (h : MachineRun idleTop tr m)
    (t : TskIx cfg) : m.context t = tr.foldr (nextContext t) none := by
  suffices hall : Orderly m ∧ ∀ t, m.context t = tr.foldr (nextContext t) none from hall.2 t
  induction h with
  | start hi =>
    obtain ⟨ho, habs⟩ := hi.orderly
    exact ⟨ho, fun t => context_absent (habs t)⟩
  | step _ hs ih =>
    obtain ⟨ho, hctx⟩ := ih
    obtain ⟨ho', hctx'⟩ := ho.step hs
    refine ⟨ho', fun t => (hctx' t).trans ?_⟩
    rw [hctx t]
    rfl

/-! ## A run -/

instance (m : Machine cfg) (ws : List (VP × UInt8)) : Decidable (AvoidsFrames m ws) :=
  List.decidableBAll _ ws

instance (P : VP → Prop) [DecidablePred P] (cpu : Cpu) : Decidable (cpu.allSp P) := by
  unfold Cpu.allSp
  split <;> infer_instance

instance (idleTop : VP) (m : Machine cfg) (l : Act cfg) : Decidable (Permits idleTop m l) := by
  unfold Permits
  split <;> infer_instance

/-- The given steps are taken, each of which must be permitted. -/
def runActs (idleTop : VP) : List (Act cfg) → List (Event (Machine cfg) (Act cfg)) → Machine cfg →
    Option (List (Event (Machine cfg) (Act cfg)) × Machine cfg)
  | [], tr, m => some (tr, m)
  | l :: ls, tr, m =>
    if Permits idleTop m l then
      (act idleTop l m).bind fun m' => runActs idleTop ls (⟨m, l, m'⟩ :: tr) m'
    else none

theorem runActs_run : ∀ {ls : List (Act cfg)} {tr tr' : List (Event (Machine cfg) (Act cfg))}
    {m m' : Machine cfg}, MachineRun idleTop tr m → runActs idleTop ls tr m = some (tr', m') →
      MachineRun idleTop tr' m'
  | [], _, _, _, _, h, he => by
    cases he
    exact h
  | l :: ls, _, _, _, _, h, he => by
    rw [runActs] at he
    split at he
    · next hp =>
      obtain ⟨m₁, h₁, he⟩ := Option.bind_eq_some_iff.mp he
      exact runActs_run (h.step ⟨hp, h₁⟩) he
    · cases he

/-- A task of priority `pri` with a stack of its own. -/
def stackedPk (pri : Int) (stk : VP) : TCtsk := { taskPk pri with stk := stk, stksz := 0x1000 }

/-- Registers that all hold `v`. -/
def fullOf (v : BitVec 64) : CtxFrame := ⟨fun _ => v, v, v⟩

/-- Two tasks are started. The first one is interrupted and sleeps, and the second one wakes it. -/
def sleepAndWake : List (Act smallConfig) :=
  [.call (.creTsk 1 (stackedPk 1 0x8000)), .call (.creTsk 2 (stackedPk 2 0x9000)),
    .call (.iactTsk 1), .call (.iactTsk 2), .switch .dispatch, .work 0x8f00 (fullOf 7) [(0x8f00, 1)],
    .interrupt, .handlerCall .timerHandler, .handlerReturn, .switch .slpTsk,
    .work 0x9e00 (fullOf 8) [(0x9e00, 2)], .switch (.wupTsk 1)]

theorem sleepAndWake_run : ∃ tr m, MachineRun (0x7000 : VP) tr m ∧
    m.kernel.runtsk = .qnode (0 : TskIx smallConfig) := by
  have h : ((runActs (0x7000 : VP) sleepAndWake [] ⟨boot zeroed, .running 0x6000 (fullOf 0)⟩).any
      fun v => decide (v.2.kernel.runtsk = .qnode 0)) = true := by
    decide +kernel
  obtain ⟨⟨tr, m⟩, hv, hr⟩ := (Option.any_eq_true _ _).mp h
  exact ⟨tr, m, runActs_run (.start ⟨⟨zeroed, rfl⟩, _, _, rfl⟩) hv, of_decide_eq_true hr⟩

theorem contexts_kept_sleeping : ∃ tr m, MachineRun (0x7000 : VP) tr m ∧
    m.kernel.runtsk = .qnode (0 : TskIx smallConfig) ∧
      m.context 0 = tr.foldr (nextContext 0) none := by
  obtain ⟨tr, m, h, hr⟩ := sleepAndWake_run
  exact ⟨tr, m, h, hr, contexts_kept h 0⟩

end Ittrium
