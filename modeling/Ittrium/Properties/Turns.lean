import Ittrium.Properties.TaskStart
import Ittrium.Spec.Contexts

/-!
# Contexts across a call

A call of the kernel touches the context of one task at most, and writes to the stack of that task
only.

* `TCB.stackArea`, `TCB.holds` — the stack, and where in it a frame may be
* `Touches` — the context of one task is touched, and nothing of any other one
* `Turn` — what then happens to that task: it is created, starts or ends
* `exec_turns` — **a call touches no context, or that of such a task**
-/

namespace Ittrium

open Infra

variable {cfg : Config} {t u : TskIx cfg} {tcb tcb' : TCB cfg} {c c' c'' : Core cfg} {p : VP}
  {f : CtxFrame} {m mem : VP → UInt8}

/-! ## Stacks and frames -/

/-- Dormant or missing. -/
def TCB.absent (tcb : TCB cfg) : Prop := tcb.state = .dmt ∨ tcb.state = .noexs

instance (tcb : TCB cfg) : Decidable tcb.absent := inferInstanceAs (Decidable (_ ∨ _))

/-- The addresses of the stack. -/
abbrev TCB.stackArea (tcb : TCB cfg) : Set VP := area tcb.stkBase tcb.stksz.toNat

/-- A frame at `p` lies in the stack. -/
def TCB.holds (tcb : TCB cfg) (p : VP) : Prop := (p - tcb.stkBase).toNat + 272 ≤ tcb.stksz.toNat

instance (tcb : TCB cfg) (p : VP) : Decidable (tcb.holds p) := inferInstanceAs (Decidable (_ ≤ _))

theorem TCB.holds.subset (h : tcb.holds p) : area p 272 ⊆ tcb.stackArea := by
  have hp : p = tcb.stkBase + (p - tcb.stkBase) := by bv_omega
  rw [hp]
  exact area_offset h

theorem TCB.stackArea_congr (h : Spec.stackOf tcb' = Spec.stackOf tcb) :
    tcb'.stackArea = tcb.stackArea := by
  obtain ⟨-, hb, hz⟩ : tcb'.stk = tcb.stk ∧ tcb'.stkBase = tcb.stkBase ∧ tcb'.stksz = tcb.stksz := by
    simpa [Spec.stackOf] using h
  rw [TCB.stackArea, TCB.stackArea, hb, hz]

theorem TCB.holds_congr (h : Spec.stackOf tcb' = Spec.stackOf tcb) :
    tcb'.holds p ↔ tcb.holds p := by
  obtain ⟨-, hb, hz⟩ : tcb'.stk = tcb.stk ∧ tcb'.stkBase = tcb.stkBase ∧ tcb'.stksz = tcb.stksz := by
    simpa [Spec.stackOf] using h
  rw [TCB.holds, TCB.holds, hb, hz]

theorem startAddr_congr (h : Spec.stackOf tcb' = Spec.stackOf tcb) :
    startAddr tcb' = startAddr tcb := by
  rw [startAddr, startAddr, show tcb'.stk = tcb.stk from congrArg Prod.fst h]

/-- Only a frame has been written. -/
theorem HasWords.onlyIn (h : HasWords p f.word 33 m mem) : OnlyIn (area p 272) m mem := by
  intro a ha
  rw [h a, if_neg]
  have ha : ¬ (a - p).toNat < 272 := ha
  omega

/-- A frame that is not written to stays. -/
theorem loadFrame_congr (h : Set.EqOn mem m (area p 272)) : loadFrame p mem = loadFrame p m := by
  have hword : ∀ i < 33, loadWord p i mem = loadWord p i m := by
    intro i hi
    have hbytes : readLE (fun k => mem (p + BitVec.ofNat 64 k)) (8 * i) 8 =
        readLE (fun k => m (p + BitVec.ofNat 64 k)) (8 * i) 8 := by
      refine readLE_congr fun k hk => h ?_
      rw [mem_area, show p + BitVec.ofNat 64 (8 * i + k) - p = BitVec.ofNat 64 (8 * i + k) by bv_omega,
        BitVec.toNat_ofNat, Nat.mod_eq_of_lt (by omega)]
      omega
    rw [loadWord, loadWord, hbytes]
  rw [loadFrame, loadFrame]
  congr 1
  · exact funext fun i => hword i (by omega)
  · exact hword 31 (by omega)
  · exact hword 32 (by omega)

/-! ## Turns -/

/-- `t` is to run from the frame it was built. -/
structure Begins (tcb : TCB cfg) (mem : VP → UInt8) : Prop where
  sp : tcb.tskctxb.sp = startAddr tcb
  frame : loadFrame (startAddr tcb) mem = startFrame tcb

/-- Only the context of `t` is touched, and only its stack written to. -/
structure Touches (t : TskIx cfg) (c c' : Core cfg) : Prop where
  others : ∀ u, u ≠ t → c'.tcb u = c.tcb u
  mem : OnlyIn ((c'.tcb t).stackArea ∪ area (startAddr (c'.tcb t)) 272) c.mem c'.mem
  begins : ¬ (c'.tcb t).absent → Begins (c'.tcb t) c'.mem

theorem Touches.after (h : Touches t c' c'') (ho : ∀ u, u ≠ t → c'.tcb u = c.tcb u)
    (hm : OnlyIn (c''.tcb t).stackArea c.mem c'.mem) : Touches t c c'' where
  others u hu := (h.others u hu).trans (ho u hu)
  mem := (hm.mono Set.subset_union_left).trans h.mem
  begins := h.begins

/-- The packet a task is to be created with. -/
def Call.packet : Call cfg → Option TCtsk
  | .creTsk _ pk | .acreTsk pk => some pk
  | _ => none

namespace Spec

variable {a a' : Model cfg} {call : Call cfg} {r : Ret cfg}

/-- What happens to the task whose context is touched. -/
inductive Turn (call : Call cfg) (a : Model cfg) (t : TskIx cfg) (a' : Model cfg) : Prop where
  | created {pk : TCtsk} : Call.packet call = some pk → (a.core.tcb t).state = .noexs →
      (a'.core.tcb t).state = .dmt →
      stackOf (a'.core.tcb t) = (pk.stk + pk.stksz.setWidth 64, pk.stk, pk.stksz) →
      Turn call a t a'
  | started : call ≠ .extTsk → (a.core.tcb t).state = .dmt → (a'.core.tcb t).state = .rdy →
      stackOf (a'.core.tcb t) = stackOf (a.core.tcb t) → Turn call a t a'
  | ended : call = .extTsk → a.runtsk = some t → (a'.core.tcb t).state ≠ .noexs →
      stackOf (a'.core.tcb t) = stackOf (a.core.tcb t) → Turn call a t a'

theorem Turn.of_core {b : Model cfg} (h : Turn call a t b) (hc : a'.core = b.core) :
    Turn call a t a' := by
  rcases h with ⟨hp, h₁, h₂, h₃⟩ | ⟨h₀, h₁, h₂, h₃⟩ | ⟨h₀, h₁, h₂, h₃⟩
  · exact .created hp h₁ (hc ▸ h₂) (hc ▸ h₃)
  · exact .started h₀ h₁ (hc ▸ h₂) (hc ▸ h₃)
  · exact .ended h₀ h₁ (hc ▸ h₂) (hc ▸ h₃)

theorem touches_create (h : Settled a) (pk : TCtsk) : Touches t a.core (a.create t pk).core := by
  have htcb : (a.create t pk).core.tcb t = _ := taskMakeDormant_tcb_self t _
  refine ⟨(Others.create pk h).tcb, ?_, fun hl => absurd (Or.inl ?_) hl⟩
  · have harea : ((a.create t pk).core.tcb t).stackArea = area pk.stk pk.stksz.toNat := by
      rw [htcb, Model.setTcb_tcb_self]
    rw [harea]
    refine OnlyIn.mono ?_ Set.subset_union_left
    exact taskMakeDormant_onlyIn (congrArg TCB.stkBase Model.setTcb_tcb_self)
      (congrArg TCB.stksz Model.setTcb_tcb_self)
  · rw [htcb]

theorem touches_activate (t : TskIx cfg) (a : Model cfg) : Touches t a.core (a.activate t).core := by
  have htcb := activate_tcb t a
  have hstart : startAddr ((a.activate t).core.tcb t) = startAddr (a.core.tcb t) := by
    rw [htcb]
    rfl
  have hwords := makeTaskContext_words t a.core
  refine ⟨(Others.activate t a).tcb, ?_, fun _ => ⟨?_, ?_⟩⟩
  · rw [hstart]
    exact hwords.onlyIn.mono Set.subset_union_right
  · rw [hstart, htcb]
    rfl
  · rw [hstart, htcb]
    exact loadFrame_of_words hwords

/-- The stack of a task that becomes dormant is filled. -/
theorem onlyIn_dormant (t : TskIx cfg) (a : Model cfg) : OnlyIn (a.core.tcb t).stackArea a.core.mem
    ((a.makeUnready t).setCore (taskMakeDormant t)).core.mem :=
  taskMakeDormant_onlyIn (c := a.core) rfl rfl

theorem touches_exit (h : Settled a) : Touches t a.core (a.exit t).core := by
  have hfill := onlyIn_dormant t a
  by_cases hcnt : (a.core.tcb t).actcnt = 0
  · have htcb := dormant_tcb t a
    rw [exit_dormant hcnt]
    refine ⟨((Others.makeUnready h.nodup).trans (.taskMakeDormant t _)).tcb, ?_, ?_⟩
    · rw [htcb]
      exact hfill.mono Set.subset_union_left
    · rw [htcb]
      exact fun hl => absurd (Or.inl rfl) hl
  · have hstack : ((a.exit t).core.tcb t).stackArea = (a.core.tcb t).stackArea := by
      rw [(exit_restarts hcnt).1]
    rw [exit_activates hcnt] at hstack ⊢
    refine (touches_activate t _).after ?_ ?_
    · exact (((Others.makeUnready h.nodup).trans (.taskMakeDormant t _)).trans (.setTcb t _ _)).tcb
    · rw [hstack]
      exact hfill

/-! ## Calls -/

/-- What a call leaves of a task whose context it does not touch. -/
structure Keeps (tcb tcb' : TCB cfg) : Prop where
  stack : tcb'.state ≠ .noexs → tcb.state ≠ .noexs ∧ stackOf tcb' = stackOf tcb
  absent : tcb.absent → tcb'.absent

theorem Unstarted.keeps {tcb tcb' : TCB cfg} (h : Unstarted tcb tcb') : Keeps tcb tcb' where
  stack hn := ⟨mt h.missing.mpr hn, h.stack⟩
  absent := Or.imp h.dormant.mpr h.missing.mpr

/-- What a call does about the contexts. -/
inductive Contexts (call : Call cfg) (a a' : Model cfg) : Prop where
  | kept : call ≠ .extTsk → a'.contexts = a.contexts → (∀ t, Keeps (a.core.tcb t) (a'.core.tcb t)) →
      Contexts call a a'
  | turn {t : TskIx cfg} : Touches t a.core a'.core → Turn call a t a' → Contexts call a a'

theorem Contexts.refl (hx : call ≠ .extTsk) (a : Model cfg) : Contexts call a a :=
  .kept hx rfl fun _ => (Unstarted.refl _).keeps

theorem Contexts.of_core {b : Model cfg} (h : Contexts call a b) (hc : a'.core = b.core) :
    Contexts call a a' := by
  rcases h with ⟨hx, hk, hs⟩ | ⟨ht, hturn⟩
  · exact .kept hx ((Model.contexts_of_core hc).trans hk) (hc ▸ hs)
  · exact .turn (hc ▸ ht) (hturn.of_core hc)

theorem TskCreated.contexts {tskid : Int} {pk : TCtsk} (h : TskCreated tskid pk a a')
    (hs : Settled a) (hp : Call.packet call = some pk) : Contexts call a a' := by
  obtain ⟨u, -, hn, -, rfl⟩ := h
  have htcb : (a.create u pk).core.tcb u = _ := taskMakeDormant_tcb_self u _
  refine .turn (touches_create hs pk) (.created hp hn ?_ ?_)
  · rw [htcb]
  · rw [htcb]
    simp [stackOf]

theorem ActTsk.contexts {tskid : Int} (h : ActTsk tskid a r a') (hx : call ≠ .extTsk) :
    Contexts call a a' := by
  cases h with
  | refused => exact .refl hx a
  | full => exact .refl hx a
  | @queued u hu hn hd hf =>
    refine .kept hx (Model.contexts_setTcb (by simp)) fun v => ?_
    by_cases hv : v = u
    · rw [hv, Model.setTcb_tcb_self]
      exact ⟨fun hs => ⟨hs, rfl⟩, id⟩
    · rw [Model.setTcb_tcb_of_ne hv]
      exact (Unstarted.refl _).keeps
  | @started u hu hd =>
    refine .turn (touches_activate u a) (.started hx hd ?_ ?_)
    · rw [activate_tcb]
    · rw [activate_tcb]
      rfl

theorem exit_contexts (h : Settled a) (hr : a.runtsk = some t) : Contexts .extTsk a (a.exit t) := by
  refine .turn (touches_exit h) (.ended rfl hr ?_ ?_)
  all_goals by_cases hcnt : (a.core.tcb t).actcnt = 0
  · rw [exit_dormant hcnt, dormant_tcb]
    simp
  · rw [(exit_restarts hcnt).1]
    simp
  · rw [exit_dormant hcnt, dormant_tcb]
    rfl
  · rw [(exit_restarts hcnt).1]
    rfl

/-- A call that writes no context. -/
theorem exec_keeps (h : Inv a) (hc : ¬ Call.stacking call) (he : exec call a = .ok (a', r)) :
    Contexts call a a' := by
  have hs := h.toSettled
  refine .kept (fun hx => hc (hx ▸ trivial)) (exec_contexts hc _ he) fun t => ?_
  by_cases hcount : Call.counting call
  · cases call with
    | creTsk | acreTsk | actTsk | iactTsk | extTsk => exact absurd trivial hc
    | delTsk id =>
      rcases delTsk_cases he with rfl | ⟨-, u, -, -, rfl⟩
      · exact (Unstarted.refl _).keeps
      · by_cases htu : t = u
        · have hn : ((a.delete u).core.tcb u).state = .noexs := Model.delete_tcb u a
          rw [htu]
          exact ⟨fun hx => absurd hn hx, fun _ => Or.inr hn⟩
        · rw [show (a.delete u).dispatch.core.tcb t = _ from (Others.delete hs).tcb t htu]
          exact (Unstarted.refl _).keeps
    | slpTsk =>
      obtain ⟨u, tmout, hu, b, hb, hup⟩ := exec_slpTsk (show Call.isSlp .slpTsk from trivial) he
      rw [hup.core]
      exact (hb.unstarted hs (h.runtsk u hu) t).keeps
    | tslpTsk tmout =>
      obtain ⟨u, tmout, hu, b, hb, hup⟩ :=
        exec_slpTsk (show Call.isSlp (.tslpTsk tmout) from trivial) he
      rw [hup.core]
      exact (hb.unstarted hs (h.runtsk u hu) t).keeps
    | wupTsk id =>
      obtain ⟨b, hb, hup⟩ := exec_wupTsk (show Call.isWup id (.wupTsk id) from rfl) he
      rw [hup.core]
      exact (hb.unstarted hs t).keeps
    | iwupTsk id =>
      obtain ⟨b, hb, hup⟩ := exec_wupTsk (show Call.isWup id (.iwupTsk id) from rfl) he
      rw [hup.core]
      exact (hb.unstarted hs t).keeps
    | canWup id => exact ((exec_canWup he).unstarted t).keeps
    | _ => exact absurd hcount id
  · exact (exec_ordinary h hcount _ he t).unstarted.keeps

/-- **A call touches no context, or that of a task it creates, starts or ends.** -/
theorem exec_turns (h : Inv a) (he : exec call a = .ok (a', r)) : Contexts call a a' := by
  have hs := h.toSettled
  by_cases hc : Call.stacking call
  · cases call with
    | creTsk id pk =>
      rcases creTsk_cases _ he with ⟨ha, -⟩ | ⟨-, hcr⟩
      · exact (Contexts.refl (by simp) a).of_core (congrArg Model.core ha)
      · exact hcr.contexts hs rfl
    | acreTsk pk =>
      rcases acreTskLoop_cases _ _ _ he with ha | ⟨id, hcr⟩
      · exact (Contexts.refl (by simp) a).of_core (congrArg Model.core ha)
      · exact hcr.contexts hs rfl
    | actTsk id =>
      obtain ⟨b, hb, hup⟩ := exec_actTsk (show Call.isAct id (.actTsk id) from rfl) he
      exact (hb.contexts (by simp)).of_core hup.core
    | iactTsk id =>
      obtain ⟨b, hb, hup⟩ := exec_actTsk (show Call.isAct id (.iactTsk id) from rfl) he
      exact (hb.contexts (by simp)).of_core hup.core
    | extTsk =>
      obtain ⟨u, hu, rfl⟩ := exec_extTsk he
      exact (exit_contexts hs hu).of_core rfl
    | _ => exact absurd hc id
  · exact exec_keeps h hc he

end Spec

end Ittrium
