import Ittrium.Kernel.Context
import Ittrium.Properties.Runs
import Ittrium.Spec.Stacks

/-!
# `ext_tsk` and the stack it runs on

`task_make_dormant` fills the stack, `make_task_context` writes at its top, and `dispatch` pushes a
frame below the stack pointer, all while `ext_tsk` runs on the same stack.

* `HasWords` — what is stored word by word in memory
* `Left` — what the memory holds when `restore_sched` switches the stack
* `LeavesAlone` — the live bytes stay, those of `ext_tsk` included, and the context of a task that
  starts anew is as it was built
* `ext_tsk_stack` — **when that is so**
-/

namespace Ittrium

open Infra

variable {cfg : Config} {t : TskIx cfg} {s s' : Kernel cfg} {mem mem' m : VP → UInt8} {p a : VP}
  {w : Nat → BitVec 64} {n i : Nat} {v : BitVec 64}

/-- A task that exists has the stack it was created with. -/
theorem RunOf.ownsStack {tr : Trace cfg} (h : RunOf SoundCall tr s)
    (ht : (s.core.tcb t).state ≠ .noexs) : Spec.OwnsStack (s.core.tcb t) := by
  have hstart : ∀ m : Kernel cfg, Spec.Stacked (Refine.initial m) := by
    intro m u hu
    have htask := (Refine.initial_inv m).toSettled.task u
    have hfree : u ∈ (Refine.initial m).queue .free := List.mem_finRange u
    exact absurd (htask.free.mp hfree) hu
  obtain ⟨a, hm, hS⟩ := h.lift (P := fun _ a => Spec.Stacked a) (fun _ _ h => h) hstart
    fun _ _ _ _ _ _ _ hm hS => Spec.exec_stacked hm.pre.inv hS hm.spec
  rw [hm.refines.core] at ht ⊢
  exact hS t ht

/-! ## Words in memory -/

theorem sub_add_toNat {e : Nat} (hi : e < 2 ^ 64) :
    (a - (p + BitVec.ofNat 64 e)).toNat =
      if e ≤ (a - p).toNat then (a - p).toNat - e else 2 ^ 64 + (a - p).toNat - e := by
  have hlt := (a - p).isLt
  have hsub : a - (p + BitVec.ofNat 64 e) = (a - p) - BitVec.ofNat 64 e := by
    bv_omega
  rw [hsub, BitVec.toNat_sub, BitVec.toNat_ofNat, Nat.mod_eq_of_lt hi]
  split <;> omega

theorem storeWord_apply (hi : 8 * i + 8 ≤ 2 ^ 64) : storeWord p i v mem a =
    if 8 * i ≤ (a - p).toNat ∧ (a - p).toNat < 8 * i + 8 then
      byteAt v.toNat ((a - p).toNat - 8 * i)
    else mem a := by
  have hlt := (a - p).isLt
  have hd := sub_add_toNat (a := a) (p := p) (e := 8 * i) (by omega)
  unfold storeWord
  dsimp only
  by_cases h : 8 * i ≤ (a - p).toNat ∧ (a - p).toNat < 8 * i + 8
  · rw [if_pos h.1] at hd
    have h8 : a - (p + BitVec.ofNat 64 (8 * i)) < 8 := by
      rw [BitVec.lt_def, hd]
      exact show _ < 8 by omega
    rw [if_pos h, if_pos h8, hd]
    apply UInt8.toNat.inj
    rw [byteAt_toNat, BitVec.toNat_ushiftRight, Nat.shiftRight_eq_div_pow]
    simp [Nat.pow_mul]
  · have h8 : ¬ a - (p + BitVec.ofNat 64 (8 * i)) < 8 := by
      rw [BitVec.lt_def, hd]
      show ¬ _ < 8
      split <;> omega
    rw [if_neg h, if_neg h8]

/-- The first `n` words at `p` are those of `w`. The rest of the memory is that of `m`. -/
def HasWords (p : VP) (w : Nat → BitVec 64) (n : Nat) (m mem : VP → UInt8) : Prop :=
  ∀ a, mem a = if (a - p).toNat < 8 * n then
      byteAt (w ((a - p).toNat / 8)).toNat ((a - p).toNat % 8)
    else m a

theorem HasWords.zero : HasWords p w 0 m m := by
  intro a
  rw [if_neg (by omega)]

/-- The next word is stored. -/
theorem HasWords.next (h : HasWords p w n m mem) (hn : 8 * n + 8 ≤ 2 ^ 64) :
    HasWords p w (n + 1) m (storeWord p n (w n) mem) := by
  intro a
  rw [storeWord_apply hn, h a]
  by_cases hlo : (a - p).toNat < 8 * n
  · rw [if_neg (by omega), if_pos hlo, if_pos (by omega)]
  · by_cases hhi : (a - p).toNat < 8 * n + 8
    · rw [if_pos (by omega), if_pos (by omega)]
      have h₁ : (a - p).toNat / 8 = n := by omega
      have h₂ : (a - p).toNat - 8 * n = (a - p).toNat % 8 := by omega
      rw [h₁, h₂]
    · rw [if_neg (by omega), if_neg hlo, if_neg (by omega)]

/-- A word is stored again. -/
theorem HasWords.again (h : HasWords p w n m mem) (hi : i < n) (hn : 8 * n ≤ 2 ^ 64) (v : BitVec 64) :
    HasWords p (Function.update w i v) n m (storeWord p i v mem) := by
  intro a
  rw [storeWord_apply (by omega), h a]
  by_cases hw : (a - p).toNat / 8 = i
  · rw [if_pos (by omega), if_pos (by omega), hw, Function.update_self]
    congr 1
    omega
  · rw [if_neg (by omega), Function.update_of_ne hw]

theorem HasWords.congr (w' : Nat → BitVec 64) (h : HasWords p w n m mem)
    (hw : ∀ i < n, w i = w' i) :
    HasWords p w' n m mem := by
  intro a
  rw [h a]
  split
  · rw [hw _ (by omega)]
  · rfl

theorem HasWords.foldl (w : Nat → BitVec 64) (m : VP → UInt8) : ∀ n, 8 * n ≤ 2 ^ 64 →
    HasWords p w n m ((List.range n).foldl (fun mem i => storeWord p i (w i) mem) m) := by
  intro n
  induction n with
  | zero => exact fun _ => .zero
  | succ n ih =>
    intro hn
    rw [List.range_succ, List.foldl_append]
    exact (ih (by omega)).next (by omega)

/-- Loading gives the words back. -/
theorem HasWords.loadWord (h : HasWords p w n m mem) (hi : i < n) (hn : 8 * n ≤ 2 ^ 64) :
    loadWord p i mem = w i := by
  have hbyte : ∀ k < 8, mem (p + BitVec.ofNat 64 (8 * i + k)) = byteAt (w i).toNat k := by
    intro k hk
    have hoff : (p + BitVec.ofNat 64 (8 * i + k) - p).toNat = 8 * i + k := by
      rw [show p + BitVec.ofNat 64 (8 * i + k) - p = BitVec.ofNat 64 (8 * i + k) by bv_omega,
        BitVec.toNat_ofNat, Nat.mod_eq_of_lt (by omega)]
    rw [h, hoff, if_pos (by omega)]
    congr 3 <;> omega
  apply BitVec.eq_of_toNat_eq
  rw [Ittrium.loadWord, BitVec.toNat_ofNat, readLE_of_bytes hbyte]
  have hlt := (w i).isLt
  omega

/-! ## Frames -/

/-- Word `i` of a frame. -/
def CtxFrame.word (f : CtxFrame) (i : Nat) : BitVec 64 :=
  if h : i < 31 then f.x ⟨i, h⟩ else if i = 31 then f.spsr else f.elr

theorem storeFrame_words (f : CtxFrame) (p : VP) (m : VP → UInt8) :
    HasWords p f.word 33 m (storeFrame f p m) := by
  have hfold : (List.finRange 31).foldl (fun mem (i : Fin 31) => storeWord p i (f.x i) mem) m =
      (List.range 31).foldl (fun mem i => storeWord p i (f.word i) mem) m := by
    rw [← List.map_coe_finRange_eq_range, List.foldl_map]
    congr 1
    funext mem i
    rw [CtxFrame.word, dif_pos i.isLt]
  unfold storeFrame
  rw [hfold]
  exact ((HasWords.foldl f.word m 31 (by omega)).next (by omega)).next (by omega)

/-- A frame that is in memory is loaded from there. -/
theorem loadFrame_of_words {f : CtxFrame} (h : HasWords p f.word 33 m mem) :
    loadFrame p mem = f := by
  have hw : ∀ i < 33, loadWord p i mem = f.word i := fun i hi => h.loadWord hi (by omega)
  obtain ⟨x, spsr, elr⟩ := f
  unfold loadFrame
  congr 1
  · funext i
    rw [hw i (by omega), CtxFrame.word, dif_pos i.isLt]
  · exact hw 31 (by omega)
  · exact hw 32 (by omega)

/-- Address of the frame a task starts with. -/
def startAddr (tcb : TCB cfg) : VP := (tcb.stk &&& ~~~ 15#64) - 272

theorem makeTaskContext_words (t : TskIx cfg) (c : Core cfg) :
    HasWords (startAddr (c.tcb t)) (startFrame (c.tcb t)).word 33 c.mem (makeTaskContext t c).mem := by
  have h₀ := HasWords.foldl (p := startAddr (c.tcb t)) (fun _ => 0) c.mem 31 (by omega)
  have h₁ := (h₀.again (i := 0) (by omega) (by omega) (c.tcb t).exinf).again (i := 30) (by omega)
    (by omega) cfg.extTsk
  have h₂ := (h₁.congr (startFrame (c.tcb t)).word ?_).next (by omega)
  · exact h₂.next (by omega)
  · intro i hi
    rw [CtxFrame.word, dif_pos hi, startFrame]
    dsimp only
    by_cases h30 : i = 30
    · subst h30
      rw [Function.update_self]
      rfl
    · rw [Function.update_of_ne h30]
      by_cases h0 : i = 0
      · subst h0
        rw [Function.update_self]
        rfl
      · rw [Function.update_of_ne h0, if_neg (by simpa [Fin.ext_iff] using h0),
          if_neg (by simpa [Fin.ext_iff] using h30)]

/-! ## The memory `ext_tsk` leaves -/

variable {sp : VP} {f : Nat} {x : Fin 31 → BitVec 64} {locals : VP → UInt8}

/-- A task that ends fills its whole stack, and its locals with it. -/
def filled (locals : VP → UInt8) (sp : VP) (f : Nat) (tcb : TCB cfg) (mem : VP → UInt8) :
    VP → UInt8 := fun a =>
  if (a - tcb.stkBase).toNat < tcb.stksz.toNat then 0xa5
  else if (a - (sp - BitVec.ofNat 64 f)).toNat < f then locals a else mem a

/-- What the memory holds when the stack is switched. -/
structure Left (t : TskIx cfg) (sp : VP) (f : Nat) (s : Kernel cfg) (locals : VP → UInt8)
    (x : Fin 31 → BitVec 64) (mem : VP → UInt8) (s' : Kernel cfg) : Prop where
  ended : (s.core.tcb t).actcnt = 0 → HasWords (sp - BitVec.ofNat 64 f - 272) (dispatchFrame x).word 33
    (filled locals sp f (s.core.tcb t) mem) s'.core.mem
  restarted : (s.core.tcb t).actcnt ≠ 0 → (s'.core.tcb t).tskctxb.sp = startAddr (s.core.tcb t) ∧
    ∃ m, HasWords (startAddr (s.core.tcb t)) (startFrame (s.core.tcb t)).word 33
        (filled locals sp f (s.core.tcb t) mem) m ∧
      HasWords (sp - BitVec.ofNat 64 f - 272) (dispatchFrame x).word 33 m s'.core.mem

theorem taskMakeDormant_mem {c : Core cfg} (hb : (c.tcb t).stkBase ≠ 0) :
    (taskMakeDormant t c).mem = fun a =>
      if (a - (c.tcb t).stkBase).toNat < (c.tcb t).stksz.toNat then 0xa5 else c.mem a := by
  unfold taskMakeDormant
  simp only [Core.setTcb, Function.update_self]
  by_cases hz : (c.tcb t).stksz = 0
  · rw [if_neg fun h => h.2 hz]
    funext a
    simp [hz]
  · rw [if_pos ⟨hb, hz⟩]
    rfl

/-- The control block of the task that ends, before it may start anew. -/
theorem ended_tcb (locals : VP → UInt8) (low : VP) (f : Nat) (mem : VP → UInt8) (s : Kernel cfg) :
    ((taskMakeUnready t (keepLocals locals low f (s.withMem mem))).setCore
      (taskMakeDormant t)).core.tcb t =
      { s.core.tcb t with
        state := .dmt
        tskpri := (s.core.tcb t).itskpri
        wupcnt := 0
        suscnt := 0
        tskwait := .none } := by
  show (taskMakeDormant t (taskMakeUnready t (keepLocals locals low f (s.withMem mem))).core).tcb t = _
  rw [taskMakeDormant_tcb_self, taskMakeUnready_core]
  rfl

theorem ended_mem (locals : VP → UInt8) (sp : VP) (f : Nat) (mem : VP → UInt8)
    (hb : (s.core.tcb t).stkBase ≠ 0) :
    ((taskMakeUnready t (keepLocals locals (sp - BitVec.ofNat 64 f) f (s.withMem mem))).setCore
      (taskMakeDormant t)).core.mem = filled locals sp f (s.core.tcb t) mem := by
  show (taskMakeDormant t (taskMakeUnready t
    (keepLocals locals (sp - BitVec.ofNat 64 f) f (s.withMem mem))).core).mem = _
  rw [taskMakeUnready_core, taskMakeDormant_mem (show ((keepLocals locals _ f
    (s.withMem mem)).core.tcb t).stkBase ≠ 0 from hb)]
  rfl

theorem restart_core (h : (s.core.tcb t).actcnt ≠ 0) : (restart t s).core =
    (makeTaskContext t (s.core.setTcb t fun tcb => { tcb with actcnt := tcb.actcnt - 1 })).setTcb t
      fun tcb => { tcb with state := .rdy } := by
  unfold restart
  rw [if_pos h, taskMakeReady_core]
  rfl

theorem extTskOn_left (locals : VP → UInt8) (x : Fin 31 → BitVec 64) (sp : VP) (f : Nat)
    (mem : VP → UInt8) (hr : s.runtsk = .qnode t) (hb : (s.core.tcb t).stkBase ≠ 0) :
    ∃ s', extTskOn locals x sp f (s.withMem mem) = .ok (s', .none) ∧
      Left t sp f s locals x mem s' := by
  have hrun : runTcb (s.withMem mem) = .ok t := by
    unfold runTcb
    rw [show (s.withMem mem).runtsk = .qnode t from hr]
    rfl
  have htcb := ended_tcb (t := t) locals (sp - BitVec.ofNat 64 f) f mem s
  have hmem := ended_mem locals sp f mem hb
  refine ⟨_, extTskOn_eq hrun, ?_⟩
  generalize (taskMakeUnready t (keepLocals locals (sp - BitVec.ofNat 64 f) f (s.withMem mem))).setCore
    (taskMakeDormant t) = s₁ at htcb hmem
  constructor
  · intro hcnt
    have hres : restart t s₁ = s₁ := if_neg (by simpa [htcb] using hcnt)
    rw [hres, ← hmem]
    exact storeFrame_words (dispatchFrame x) _ _
  · intro hcnt
    have hcore := restart_core (t := t) (s := s₁) (by simpa [htcb] using hcnt)
    have hself : (s₁.core.setTcb t fun tcb => { tcb with actcnt := tcb.actcnt - 1 }).tcb t =
        { s₁.core.tcb t with actcnt := (s₁.core.tcb t).actcnt - 1 } := Function.update_self ..
    have hwords := makeTaskContext_words t
      (s₁.core.setTcb t fun tcb => { tcb with actcnt := tcb.actcnt - 1 })
    rw [hself, htcb] at hwords
    refine ⟨?_, (restart t s₁).core.mem, ?_, storeFrame_words (dispatchFrame x) _ _⟩
    · show ((restart t s₁).core.tcb t).tskctxb.sp = _
      rw [hcore]
      simp only [Core.setTcb_self, makeTaskContext, htcb, startAddr]
    · rw [hcore, ← hmem]
      exact hwords

/-! ## Where the two meet -/

/-- `t` enters `ext_tsk` with `sp` in its stack, an array in memory, and room for the frames below. -/
structure EntersExt (t : TskIx cfg) (sp : VP) (f : Nat) (s : Kernel cfg) : Prop where
  run : s.runtsk = .qnode t
  stack : Spec.OwnsStack (s.core.tcb t)
  fits : (s.core.tcb t).stkBase.toNat + (s.core.tcb t).stksz.toNat < 2 ^ 64
  low : (s.core.tcb t).stkBase ≤ sp
  high : sp ≤ (s.core.tcb t).stk
  aligned : sp.toNat % 16 = 0
  frames : f + 272 ≤ sp.toNat

/-- Whatever the memory, the locals and the registers hold: the bytes from the stack pointer of
`ext_tsk` on, those it keeps itself and those of its callers, stay as they were when it had stored
its own, and a task that starts anew starts with the frame that was built for it. -/
def LeavesAlone (t : TskIx cfg) (sp : VP) (f : Nat) (s : Kernel cfg) : Prop :=
  ∀ mem locals x, ∃ s', extTskOn locals x sp f (s.withMem mem) = .ok (s', .none) ∧
    (∀ a, sp - BitVec.ofNat 64 f ≤ a → a < (s.core.tcb t).stk → s'.core.mem a =
      (keepLocals locals (sp - BitVec.ofNat 64 f) f (s.withMem mem)).core.mem a) ∧
    ((s.core.tcb t).actcnt ≠ 0 →
      loadFrame (s'.core.tcb t).tskctxb.sp s'.core.mem = startFrame (s.core.tcb t))

theorem and_not_fifteen {v : BitVec 64} (h : v.toNat % 16 = 0) : v &&& ~~~ 15#64 = v := by
  apply BitVec.eq_of_getLsbD_eq
  intro i hi
  rw [BitVec.getLsbD_and, BitVec.getLsbD_not]
  by_cases h4 : i < 4
  · have hbit : v.getLsbD i = false := by
      have hm : (v.toNat % 2 ^ 4).testBit i = v.toNat.testBit i := by
        rw [Nat.testBit_mod_two_pow]
        simp [h4]
      rw [BitVec.getLsbD, ← hm, show v.toNat % 2 ^ 4 = 0 from h, Nat.zero_testBit]
    rw [hbit, Bool.false_and]
  · have h15 : (15#64).getLsbD i = false := by
      rw [BitVec.getLsbD]
      exact Nat.testBit_lt_two_pow (Nat.lt_of_lt_of_le (show 15 < 2 ^ 4 by omega)
        (Nat.pow_le_pow_right (by omega) (by omega)))
    rw [h15]
    simp [hi]

/-- The bytes of a frame that is loaded. -/
theorem byte_of_loadFrame {fr : CtxFrame} (h : loadFrame p mem = fr) {j : Nat} (hj : j < 264) :
    mem (p + BitVec.ofNat 64 j) = byteAt (fr.word (j / 8)).toNat (j % 8) := by
  have hword : loadWord p (j / 8) mem = fr.word (j / 8) := by
    subst h
    rw [CtxFrame.word]
    split
    · rfl
    · split
      · next h31 => rw [h31]; rfl
      · rw [show j / 8 = 32 by omega]
        rfl
  have hload : (loadWord p (j / 8) mem).toNat =
      readLE (fun k => mem (p + BitVec.ofNat 64 k)) (8 * (j / 8)) 8 := by
    have hlt := readLE_lt (fun k => mem (p + BitVec.ofNat 64 k)) (8 * (j / 8)) 8
    rw [loadWord, BitVec.toNat_ofNat]
    omega
  rw [← hword, hload, byteAt_readLE (by omega)]
  congr 2
  rw [show 8 * (j / 8) + j % 8 = j by omega]

namespace EntersExt

theorem top (h : EntersExt t sp f s) : (s.core.tcb t).stk.toNat =
    (s.core.tcb t).stkBase.toNat + (s.core.tcb t).stksz.toNat := by
  have hfit := h.fits
  have hsz := (s.core.tcb t).stksz.isLt
  rw [h.stack.top, BitVec.toNat_add, BitVec.toNat_setWidth, Nat.mod_eq_of_lt (by omega),
    Nat.mod_eq_of_lt (by omega)]

/-- The offset of `a` in the frame `dispatch` stores. -/
theorem offset (h : EntersExt t sp f s) (ha : sp.toNat ≤ a.toNat + 272 + f) :
    (a - (sp - BitVec.ofNat 64 f - 272)).toNat = a.toNat + 272 + f - sp.toNat := by
  have hf := h.frames
  have hsp := sp.isLt
  have halt := a.isLt
  have h272 : (272 : BitVec 64).toNat = 272 := rfl
  rw [BitVec.toNat_sub, BitVec.toNat_sub, BitVec.toNat_sub, BitVec.toNat_ofNat, h272]
  omega

theorem low_toNat (h : EntersExt t sp f s) : (sp - BitVec.ofNat 64 f).toNat = sp.toNat - f := by
  have hf := h.frames
  have hsp := sp.isLt
  rw [BitVec.toNat_sub, BitVec.toNat_ofNat]
  omega

/-- What `ext_tsk` and its callers keep is out of reach for `dispatch`. -/
theorem above (h : EntersExt t sp f s) (ha : sp.toNat ≤ a.toNat + f) {x : Fin 31 → BitVec 64}
    (hw : HasWords (sp - BitVec.ofNat 64 f - 272) (dispatchFrame x).word 33 m mem) :
    mem a = m a := by
  rw [hw, h.offset (by omega), if_neg (by omega)]

/-- A byte that is kept does not end with one value whatever it was before. -/
theorem not_fixed (h : EntersExt t sp f s) (hl : LeavesAlone t sp f s)
    (hlo : sp.toNat ≤ a.toNat + f) (hhi : a < (s.core.tcb t).stk) (b : UInt8)
    (hb : ∀ v s', Left t sp f s (fun _ => v) (fun _ => 0) (fun _ => v) s' → s'.core.mem a = b) :
    False := by
  have hv : ∀ v : UInt8, v = b := by
    intro v
    obtain ⟨s', he, hkeep, -⟩ := hl (fun _ => v) (fun _ => v) fun _ => 0
    obtain ⟨s'', he', hleft⟩ := extTskOn_left (fun _ => v) (fun _ => 0) sp f (fun _ => v)
      h.run h.stack.base
    obtain rfl : s' = s'' := congrArg Prod.fst (Except.ok.inj (he.symm.trans he'))
    have hlow : sp - BitVec.ofNat 64 f ≤ a := by
      rw [BitVec.le_def, h.low_toNat]
      omega
    rw [← hb v s' hleft, hkeep a hlow hhi]
    exact (ite_self v).symm
  exact absurd ((hv 0).trans (hv 1).symm) (by decide)

/-- A byte of the stack is filled, or belongs to the new context. -/
theorem stack_fixed (h : EntersExt t sp f s) (hlo : sp.toNat ≤ a.toNat + f)
    (hbase : (s.core.tcb t).stkBase ≤ a) (hhi : a < (s.core.tcb t).stk) :
    ∃ b, ∀ v s', Left t sp f s (fun _ => v) (fun _ => 0) (fun _ => v) s' → s'.core.mem a = b := by
  have hfilled : ∀ mem locals, filled locals sp f (s.core.tcb t) mem a = 0xa5 := by
    intro mem locals
    refine if_pos ?_
    have htop := h.top
    have hle := BitVec.le_def.mp hbase
    have hlt := BitVec.lt_def.mp hhi
    rw [BitVec.toNat_sub_of_le hbase]
    omega
  by_cases hcnt : (s.core.tcb t).actcnt = 0
  · refine ⟨0xa5, fun v s' hleft => ?_⟩
    rw [h.above hlo (hleft.ended hcnt), hfilled]
  · refine ⟨if (a - startAddr (s.core.tcb t)).toNat < 8 * 33 then
        byteAt ((startFrame (s.core.tcb t)).word ((a - startAddr (s.core.tcb t)).toNat / 8)).toNat
          ((a - startAddr (s.core.tcb t)).toNat % 8)
      else 0xa5, fun v s' hleft => ?_⟩
    obtain ⟨-, m, hm, hd⟩ := hleft.restarted hcnt
    rw [h.above hlo hd, hm, hfilled]

/-- All the stack is filled: nothing is live only at its top. -/
theorem eq_top (h : EntersExt t sp f s) (hl : LeavesAlone t sp f s) : sp = (s.core.tcb t).stk := by
  by_contra hne
  have hlt : sp < (s.core.tcb t).stk := by
    have hle := BitVec.le_def.mp h.high
    have hnat : sp.toNat ≠ (s.core.tcb t).stk.toNat := fun he => hne (BitVec.eq_of_toNat_eq he)
    rw [BitVec.lt_def]
    omega
  obtain ⟨b, hb⟩ := h.stack_fixed (Nat.le_add_right _ _) h.low hlt
  exact h.not_fixed hl (Nat.le_add_right _ _) hlt b hb

/-- The fill reaches what `ext_tsk` itself keeps below the top. -/
theorem keeps_nothing (h : EntersExt t sp f s) (hl : LeavesAlone t sp f s) :
    f = 0 ∨ (s.core.tcb t).stksz = 0 := by
  by_contra hne
  rw [not_or] at hne
  have htop := h.top
  rw [← h.eq_top hl] at htop
  have hsz : (s.core.tcb t).stksz.toNat ≠ 0 := fun he => hne.2 (BitVec.eq_of_toNat_eq he)
  have hsp := sp.isLt
  have ha : (sp - 1).toNat = sp.toNat - 1 := by
    rw [BitVec.toNat_sub, show (1 : VP).toNat = 1 from rfl]
    omega
  have hlo : sp.toNat ≤ (sp - 1).toNat + f := by omega
  have hbase : (s.core.tcb t).stkBase ≤ sp - 1 := by
    rw [BitVec.le_def]
    omega
  have hhi : sp - 1 < (s.core.tcb t).stk := by
    rw [BitVec.lt_def, ← h.eq_top hl]
    omega
  obtain ⟨b, hb⟩ := h.stack_fixed hlo hbase hhi
  exact h.not_fixed hl hlo hhi b hb

theorem startAddr_eq (h : EntersExt t sp f s) (htop : sp = (s.core.tcb t).stk) :
    startAddr (s.core.tcb t) = sp - 272 := by
  rw [startAddr, ← htop, and_not_fifteen h.aligned]

/-- Address of byte `j` of the frame the task starts with. -/
theorem startAddr_add (h : EntersExt t sp f s) (htop : sp = (s.core.tcb t).stk) {j : Nat}
    (hj : j < 264) : (startAddr (s.core.tcb t) + BitVec.ofNat 64 j).toNat = sp.toNat - 272 + j := by
  have hf := h.frames
  have hsp := sp.isLt
  have h272 : (272 : BitVec 64).toNat = 272 := rfl
  rw [h.startAddr_eq htop, BitVec.toNat_add, BitVec.toNat_sub, BitVec.toNat_ofNat, h272]
  omega

/-- A frame that is too small lets `dispatch` write the new one. -/
theorem frame_ge (h : EntersExt t sp f s) (htop : sp = (s.core.tcb t).stk)
    (hl : LeavesAlone t sp f s) (hcnt : (s.core.tcb t).actcnt ≠ 0) : 264 ≤ f := by
  by_contra hf
  -- byte `k` of the stored frame, of its `ELR`, is byte `j` of the new one
  obtain ⟨k, j, hk, hk', hkj, hj⟩ : ∃ k j, 256 ≤ k ∧ k < 264 ∧ k = j + f ∧ j < 264 := by
    by_cases hle : f ≤ 256
    · exact ⟨256, 256 - f, by omega⟩
    · exact ⟨f, 0, by omega⟩
  have hframes := h.frames
  have haddr := h.startAddr_add htop hj
  have hbyte : ∀ v : BitVec 64, byteAt v.toNat (k % 8) =
      byteAt ((startFrame (s.core.tcb t)).word (j / 8)).toNat (j % 8) := by
    intro v
    obtain ⟨s', he, -, hload⟩ := hl (fun _ => 0) (fun _ => 0) fun _ => v
    obtain ⟨s'', he', hleft⟩ := extTskOn_left (fun _ => 0) (fun _ => v) sp f (fun _ => 0)
      h.run h.stack.base
    obtain rfl : s' = s'' := congrArg Prod.fst (Except.ok.inj (he.symm.trans he'))
    obtain ⟨hsp, m, hm, hd⟩ := hleft.restarted hcnt
    have hl := byte_of_loadFrame (hload hcnt) hj
    rw [hsp, hd, h.offset (by omega), haddr,
      show sp.toNat - 272 + j + 272 + f - sp.toNat = k by omega, if_pos (by omega)] at hl
    rw [← hl, show k / 8 = 32 by omega]
    rfl
  have hne : ∀ i : Fin 8, byteAt (0#64).toNat i ≠ byteAt (BitVec.allOnes 64).toNat i := by decide
  exact hne ⟨k % 8, by omega⟩ ((hbyte 0).trans (hbyte (BitVec.allOnes 64)).symm)

/-- What is large enough to keep `dispatch` away from the new context holds bytes of it. -/
theorem not_restarted (h : EntersExt t sp f s) (hl : LeavesAlone t sp f s) :
    (s.core.tcb t).actcnt = 0 := by
  by_contra hcnt
  have htop := h.eq_top hl
  have hf := h.frame_ge htop hl hcnt
  have hframes := h.frames
  -- the second word of the new context is 0
  have haddr := h.startAddr_add htop (show 8 < 264 by omega)
  have hhi : startAddr (s.core.tcb t) + BitVec.ofNat 64 8 < (s.core.tcb t).stk := by
    rw [BitVec.lt_def, haddr, ← htop]
    omega
  refine h.not_fixed hl (by omega) hhi 0 fun v s' hleft => ?_
  obtain ⟨-, m, hm, hd⟩ := hleft.restarted hcnt
  have hoff : (startAddr (s.core.tcb t) + BitVec.ofNat 64 8 - startAddr (s.core.tcb t)).toNat = 8 := by
    rw [show startAddr (s.core.tcb t) + BitVec.ofNat 64 8 - startAddr (s.core.tcb t) =
      BitVec.ofNat 64 8 by bv_omega]
    rfl
  rw [h.above (by omega) hd, hm, hoff, if_pos (by omega),
    show (startFrame (s.core.tcb t)).word (8 / 8) = 0 from rfl]
  decide

/-- With nothing of its own in the stack, `ext_tsk` leaves the rest alone. -/
theorem leaves (h : EntersExt t sp f s) (htop : sp = (s.core.tcb t).stk)
    (hcnt : (s.core.tcb t).actcnt = 0) (hf : f = 0 ∨ (s.core.tcb t).stksz = 0) :
    LeavesAlone t sp f s := by
  intro mem locals x
  obtain ⟨s', he, hleft⟩ := extTskOn_left locals x sp f mem h.run h.stack.base
  refine ⟨s', he, ?_, fun hne => absurd hcnt hne⟩
  intro a hlo hhi
  rw [BitVec.le_def, h.low_toNat] at hlo
  rw [← htop, BitVec.lt_def] at hhi
  rcases hf with hf | hsz
  · omega
  · rw [h.above (by omega) (hleft.ended hcnt), filled, hsz]
    exact if_neg (Nat.not_lt_zero _)

end EntersExt

/-- **`ext_tsk` and its stack leave each other alone exactly when it is entered at the top, the task
is not to start anew, and `ext_tsk` keeps nothing in the stack.** -/
theorem ext_tsk_stack (h : EntersExt t sp f s) : LeavesAlone t sp f s ↔
    sp = (s.core.tcb t).stk ∧ (s.core.tcb t).actcnt = 0 ∧
      (f = 0 ∨ (s.core.tcb t).stksz = 0) := by
  constructor
  · intro hl
    exact ⟨h.eq_top hl, h.not_restarted hl, h.keeps_nothing hl⟩
  · rintro ⟨htop, hcnt, hf⟩
    exact h.leaves htop hcnt hf

/-- A task with a stack of 4 KiB that runs is at its top when it returns from its function. -/
theorem entersExt_of_stack {tr : Trace smallConfig} {s : Kernel smallConfig}
    (h : RunOf SoundCall tr s) (hr : s.runtsk = .qnode 0) (hx : (s.core.tcb 0).state ≠ .noexs)
    (hb : (s.core.tcb 0).stkBase = 0x8000) (hsz : (s.core.tcb 0).stksz = 0x1000)
    (hstk : (s.core.tcb 0).stk = 0x9000) (hf : f ≤ 0x1000) : EntersExt 0 0x9000 f s := by
  have hsp : (0x9000 : VP).toNat = 0x9000 := rfl
  refine ⟨hr, h.ownsStack hx, ?_, ?_, ?_, rfl, by omega⟩
  · rw [hb, hsz]
    decide
  · rw [hb]
    decide
  · rw [hstk]
    exact BitVec.le_refl _

/-- From the top of the stack, with all of `ext_tsk` in registers. -/
theorem ext_tsk_stack_bare : ∃ (tr : Trace smallConfig) (s : Kernel smallConfig),
    RunOf SoundCall tr s ∧ EntersExt 0 0x9000 0 s ∧ LeavesAlone 0 0x9000 0 s := by
  obtain ⟨tr, s, h, hr, hx, hb, hsz, hstk, hcnt⟩ := exists_runOf (C := SoundCall)
    (Q := fun _ s => s.runtsk = .qnode 0 ∧ (s.core.tcb 0).state ≠ .noexs ∧
      (s.core.tcb 0).stkBase = 0x8000 ∧ (s.core.tcb 0).stksz = 0x1000 ∧
      (s.core.tcb 0).stk = 0x9000 ∧ (s.core.tcb 0).actcnt = 0)
    [.creTsk 1 { taskPk 1 with stksz := 0x1000 }, .actTsk 1] zeroed (by decide +kernel)
  have henter := entersExt_of_stack (f := 0) h hr hx hb hsz hstk (by omega)
  exact ⟨tr, s, h, henter, (ext_tsk_stack henter).mpr ⟨hstk.symm, hcnt, Or.inl rfl⟩⟩

/-- A task that returns to `ext_tsk` with an activation queued: with 16 bytes below, `dispatch`
writes the new context. -/
theorem ext_tsk_spoils : ∃ (tr : Trace smallConfig) (s : Kernel smallConfig),
    RunOf SoundCall tr s ∧ EntersExt 0 0x9000 16 s ∧ ¬ LeavesAlone 0 0x9000 16 s := by
  obtain ⟨tr, s, h, hr, hx, hb, hsz, hstk, hcnt⟩ := exists_runOf (C := SoundCall)
    (Q := fun _ s => s.runtsk = .qnode 0 ∧ (s.core.tcb 0).state ≠ .noexs ∧
      (s.core.tcb 0).stkBase = 0x8000 ∧ (s.core.tcb 0).stksz = 0x1000 ∧
      (s.core.tcb 0).stk = 0x9000 ∧ (s.core.tcb 0).actcnt = 1)
    [.creTsk 1 { taskPk 1 with stksz := 0x1000 }, .actTsk 1, .actTsk 1] zeroed (by decide +kernel)
  have henter := entersExt_of_stack (f := 16) h hr hx hb hsz hstk (by omega)
  refine ⟨tr, s, h, henter, fun hl => ?_⟩
  have hf := henter.frame_ge hstk.symm hl (by omega)
  omega

end Ittrium
