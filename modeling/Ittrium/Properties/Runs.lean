import Ittrium.Refine.Boot
import Ittrium.Spec.Frames
import Ittrium.Infra.Run
import Mathlib.Algebra.GroupWithZero.Nat

/-!
# Runs of the kernel

* `RunOf C` — the runs from any memory contents on in which every call meets `C`
* `SinceOf C D l` — the part of such a run that follows a step `l`, and whose calls meet `D` as well
* `Models s a` — `a` is the state `s` over lists, and the invariant holds
* `RunOf.lift`, `SinceOf.lift` — **what every step keeps over lists holds in every state reached**
* `waiters o s` — the tasks on the ring of an object, first one first
* `runCalls` — runs of given calls
-/

namespace Ittrium

open Infra

variable {cfg : Config}

/-! ## Runs -/

/-- A step is a call and what it gives its caller. -/
abbrev Label (cfg : Config) := Call cfg × Ret cfg

/-- The events so far, the latest one first. -/
abbrev Trace (cfg : Config) := List (Event (Kernel cfg) (Label cfg))

/-- Where `main` is after the initializations. -/
def Booted (s : Kernel cfg) : Prop := ∃ m, s = boot m

/-- A call that meets `C` returns. -/
def StepOf (C : Kernel cfg → Call cfg → Prop) (s : Kernel cfg) (l : Label cfg) (s' : Kernel cfg) :
    Prop := C s l.1 ∧ exec l.1 s = .ok (s', l.2)

abbrev RunOf (C : Kernel cfg → Call cfg → Prop) : Trace cfg → Kernel cfg → Prop :=
  Run Booted (StepOf C)

/-- The calls for which the kernel does what it is meant to, see `Spec.Sound`. -/
def SoundCall (s : Kernel cfg) (c : Call cfg) : Prop := Spec.Sound s.core c

/-- `tr` is what has happened since the step `l`, which went from `s₀` to `s₁`. -/
structure SinceOf (C D : Kernel cfg → Call cfg → Prop) (s₀ : Kernel cfg) (l : Label cfg)
    (s₁ : Kernel cfg) (tr : Trace cfg) (s : Kernel cfg) : Prop where
  before : ∃ tr₀, RunOf C tr₀ s₀
  step : StepOf C s₀ l s₁
  since : Run (· = s₁) (StepOf fun s c => C s c ∧ D s c) tr s

/-- The call deletes the object `o`. -/
def Deletes (o : ObjId cfg) : Call cfg → Prop
  | .delSem semid => (getSemcb semid).toOption.map ObjId.sem = some o
  | .delFlg flgid => (getFlgcb flgid).toOption.map ObjId.flg = some o
  | .delMbx mbxid => (getMbxcb mbxid).toOption.map ObjId.mbx = some o
  | _ => False

instance (o : ObjId cfg) (c : Call cfg) : Decidable (Deletes o c) := by
  apply @Call.casesOn cfg (fun c => Decidable (Deletes o c)) c <;> intros <;>
    first | (change Decidable (_ = _); infer_instance) | exact .isFalse not_false

/-- A run and what has followed it are a run. -/
theorem SinceOf.run {C D : Kernel cfg → Call cfg → Prop} {s₀ s₁ s : Kernel cfg} {l : Label cfg}
    {tr : Trace cfg} (h : SinceOf C D s₀ l s₁ tr s) : ∃ tr', RunOf C tr' s := by
  obtain ⟨tr₀, h₀⟩ := h.before
  exact ⟨_, (Run.step h₀ h.step).append (h.since.mono (fun _ h => h) fun _ _ _ h => ⟨h.1.1, h.2⟩)⟩

/-! ## Runs over lists -/

/-- `a` is the state `s` over lists, and the invariant holds. -/
structure Models (s : Kernel cfg) (a : Spec.Model cfg) : Prop where
  refines : Refine.Refines s a
  inv : Spec.Inv a

section

variable {C D : Kernel cfg → Call cfg → Prop} {s s' : Kernel cfg} {a a' : Spec.Model cfg}
  {c : Call cfg} {r : Ret cfg} {tr : Trace cfg} {P : Trace cfg → Spec.Model cfg → Prop}

theorem Models.boot (m : Kernel cfg) : Models (boot m) (Refine.initial m) :=
  ⟨Refine.boot_refines m, Refine.initial_inv m⟩

/-- The call the kernel makes is made over lists as well. -/
theorem Models.step (h : Models s a) (hs : SoundCall s c) (he : exec c s = .ok (s', r)) :
    ∃ a', Spec.exec c a = .ok (a', r) ∧ Models s' a' := by
  have hs : Spec.Sound a.core c := h.refines.core ▸ hs
  have hsame := Refine.exec_same h.refines h.inv hs
  rw [he] at hsame
  obtain ⟨⟨a', r'⟩, ha', hr', hrr⟩ := hsame.of_ok
  obtain rfl : r = r' := hrr
  exact ⟨a', ha', hr', Spec.exec_inv h.inv hs ha'⟩

/-- A call that can be made over lists the kernel makes as well. -/
theorem Models.exists_step (h : Models s a) (hs : SoundCall s c)
    (he : Spec.exec c a = .ok (a', r)) : ∃ s', exec c s = .ok (s', r) ∧ Models s' a' := by
  have hs : Spec.Sound a.core c := h.refines.core ▸ hs
  have hsame := Refine.exec_same h.refines h.inv hs
  rw [he] at hsame
  cases hx : exec c s with
  | error e =>
    rw [hx] at hsame
    cases hsame
  | ok v =>
    rw [hx] at hsame
    obtain ⟨w, hw, hr, hrr⟩ := hsame.of_ok
    cases hw
    obtain rfl : v.2 = r := hrr
    exact ⟨v.1, rfl, hr, Spec.exec_inv h.inv hs he⟩

/-- One step of a run, from both sides. -/
structure Moves (C : Kernel cfg → Call cfg → Prop) (s : Kernel cfg) (a : Spec.Model cfg)
    (c : Call cfg) (r : Ret cfg) (s' : Kernel cfg) (a' : Spec.Model cfg) : Prop where
  pre : Models s a
  post : Models s' a'
  call : C s c
  exec : exec c s = .ok (s', r)
  spec : Spec.exec c a = .ok (a', r)
  sound : Spec.Sound a.core c

theorem Models.moves (h : Models s a) (hC : ∀ s c, C s c → SoundCall s c) {l : Label cfg}
    (hs : StepOf C s l s') : ∃ a', Moves C s a l.1 l.2 s' a' := by
  obtain ⟨a', he, h'⟩ := h.step (hC _ _ hs.1) hs.2
  exact ⟨a', h, h', hs.1, hs.2, he, h.refines.core ▸ hC _ _ hs.1⟩

/-- What holds at the start and is kept by every step, over lists. -/
theorem lift_run {init : Kernel cfg → Prop} (hC : ∀ s c, C s c → SoundCall s c)
    (hstart : ∀ s, init s → ∃ a, Models s a ∧ P [] a)
    (hstep : ∀ tr s a c r s' a', Moves C s a c r s' a' → P tr a →
      P (⟨s, (c, r), s'⟩ :: tr) a')
    (h : Run init (StepOf C) tr s) : ∃ a, Models s a ∧ P tr a := by
  induction h with
  | start hi => exact hstart _ hi
  | step _ hs ih =>
    obtain ⟨a, hm, hP⟩ := ih
    obtain ⟨a', hmoves⟩ := hm.moves hC hs
    exact ⟨a', hmoves.post, hstep _ _ _ _ _ _ _ hmoves hP⟩

/-- **What holds initially and is kept by every step, over lists, holds in every state reached.** -/
theorem RunOf.lift (hC : ∀ s c, C s c → SoundCall s c) (hstart : ∀ m, P [] (Refine.initial m))
    (hstep : ∀ tr s a c r s' a', Moves C s a c r s' a' → P tr a → P (⟨s, (c, r), s'⟩ :: tr) a')
    (h : RunOf C tr s) : ∃ a, Models s a ∧ P tr a :=
  lift_run hC (by rintro _ ⟨m, rfl⟩; exact ⟨_, .boot m, hstart m⟩) hstep h

/-- Every state reached is one over lists. -/
theorem RunOf.models (hC : ∀ s c, C s c → SoundCall s c) (h : RunOf C tr s) : ∃ a, Models s a := by
  obtain ⟨a, h, -⟩ := h.lift (P := fun _ _ => True) hC (fun _ => trivial) fun _ _ _ _ _ _ _ _ h => h
  exact ⟨a, h⟩

/-- A step of a run is one over lists. -/
theorem RunOf.moves (hC : ∀ s c, C s c → SoundCall s c) (h : RunOf C tr s) {l : Label cfg}
    (hs : StepOf C s l s') : ∃ a a', Moves C s a l.1 l.2 s' a' := by
  obtain ⟨a, hm⟩ := h.models hC
  exact ⟨a, hm.moves hC hs⟩

/-- **What a step establishes and every later one keeps holds in every state reached since.** -/
theorem SinceOf.lift {s₀ s₁ : Kernel cfg} {l : Label cfg} (hC : ∀ s c, C s c → SoundCall s c)
    (hstart : ∀ a₀ a₁, Moves C s₀ a₀ l.1 l.2 s₁ a₁ → P [] a₁)
    (hstep : ∀ tr s a c r s' a', Moves (fun s c => C s c ∧ D s c) s a c r s' a' → P tr a →
      P (⟨s, (c, r), s'⟩ :: tr) a')
    (h : SinceOf C D s₀ l s₁ tr s) : ∃ a, Models s a ∧ P tr a := by
  obtain ⟨tr₀, h₀⟩ := h.before
  obtain ⟨a₀, a₁, h₁⟩ := h₀.moves hC h.step
  refine lift_run (fun s c hc => hC s c hc.1) ?_ hstep h.since
  rintro s rfl
  exact ⟨a₁, h₁.post, hstart a₀ a₁ h₁⟩

end

/-! ## Lines of waiting tasks -/

/-- The tasks whose nodes come from `entry` on, up to `queue`. -/
def walkTasks (queue : Node cfg) (h : Links (Node cfg)) : Nat → Node cfg → List (TskIx cfg)
  | 0, _ => []
  | n + 1, entry =>
    if entry = queue then [] else
    match entry with
    | .qnode t => t :: walkTasks queue h n (h.next entry)
    | _ => []

/-- The tasks on the ring of an object. -/
def waiters (o : ObjId cfg) (s : Kernel cfg) : List (TskIx cfg) :=
  walkTasks (.waitq o) s.links cfg.tnumTskid (s.links.next (.waitq o))

/-- `t` waits for the object `o`. -/
def waitsFor (o : ObjId cfg) (c : Core cfg) (t : TskIx cfg) : Bool :=
  (c.tcb t).state.waiting && (c.tcb t).waitObj = some o

theorem waitsFor_iff {o : ObjId cfg} {c : Core cfg} {t : TskIx cfg} :
    waitsFor o c t = true ↔ (c.tcb t).state.waiting ∧ (c.tcb t).waitObj = some o := by
  simp [waitsFor]

/-- Who waits for an object stands in its line. -/
theorem Spec.Settled.mem_waitq {a : Spec.Model cfg} (h : Spec.Settled a) (o : ObjId cfg)
    (t : TskIx cfg) : t ∈ a.queue (.waitq o) ↔ waitsFor o a.core t = true := by
  rw [waitsFor_iff]
  exact (h.task t).waitq o

theorem walkTasks_path {queue : Node cfg} {h : Links (Node cfg)} (hq : ∀ t, queue ≠ .qnode t) :
    ∀ (l : List (TskIx cfg)) (n : Nat) (x : Node cfg), l.length ≤ n →
      Path h.next x (l.map .qnode) queue → walkTasks queue h n (h.next x) = l
  | [], n, x, _, hp => by
    rw [show h.next x = queue from hp]
    cases n <;> simp [walkTasks]
  | t :: l, n, x, hn, hp => by
    obtain ⟨hx, hp⟩ := hp
    cases n with
    | zero => simp at hn
    | succ n =>
      rw [hx, walkTasks, if_neg (hq t).symm]
      exact congrArg (t :: ·) (walkTasks_path hq l n _ (by simpa using hn) hp)

/-- **The ring of an existing object is the line of its waiting tasks.** -/
theorem Models.ring_waitq {s : Kernel cfg} {a : Spec.Model cfg} (h : Models s a) {o : ObjId cfg}
    (ho : (s.core.objcb o).state ≠ .noexs) :
    Ring s.links (.waitq o) ((a.queue (.waitq o)).map .qnode) := by
  refine h.refines.ring (l := .waitq o) ⟨?_, fun hf => hf⟩
  cases o with
  | sem i =>
    intro hi
    rw [h.inv.mem_freeSem] at hi
    rw [h.refines.core] at ho
    exact ho hi
  | flg i => trivial
  | mbx i => trivial

theorem Models.waiters_eq {s : Kernel cfg} {a : Spec.Model cfg} (h : Models s a) (o : ObjId cfg)
    (ho : (s.core.objcb o).state ≠ .noexs) : waiters o s = a.queue (.waitq o) := by
  have hlen : (a.queue (.waitq o)).length ≤ cfg.tnumTskid := Refine.length_le_of_nodup (h.inv.nodup _)
  exact walkTasks_path (by simp) _ _ _ hlen (h.ring_waitq ho).forward

/-- The free list of semaphores. -/
theorem Models.ring_freeSemcb {s : Kernel cfg} {a : Spec.Model cfg} (h : Models s a) :
    Ring s.links .freeSemcb (a.freeSem.map fun i => .waitq (.sem i)) :=
  h.refines.rings.ring .freeSemcb ⟨trivial, id⟩

/-- No task is in the queue of an object that does not exist. -/
theorem Models.waitq_noexs {s : Kernel cfg} {a : Spec.Model cfg} (h : Models s a) {o : ObjId cfg}
    (ho : (s.core.objcb o).state = .noexs) (t : TskIx cfg) :
    ¬ s.links.Reaches (.waitq o) (.qnode t) := by
  intro ht
  rw [h.refines.core] at ho
  have hempty : Refine.heads a (.waitq o) → False := by
    intro hh
    have hring := h.refines.rings.ring (.waitq o) ⟨hh, id⟩
    rw [hring.reaches_iff] at ht
    simp [Refine.elems, h.inv.toSettled.waitq_eq_nil ho] at ht
  cases o with
  | sem i =>
    -- the node is on the free list, where no task is
    have hmem : (.waitq (.sem i) : Node cfg) ∈
        Node.freeSemcb :: a.freeSem.map fun i => .waitq (.sem i) :=
      List.mem_cons_of_mem _ (List.mem_map_of_mem ((h.inv.mem_freeSem i).mpr ho))
    have hq := h.ring_freeSemcb.mem_of_reaches hmem ht
    simp at hq
  | flg i => exact hempty trivial
  | mbx i => exact hempty trivial

/-! ## Runs of given calls -/

/-- The given calls are made one after the other, each of which must meet `C`. -/
def runCalls (C : Kernel cfg → Call cfg → Prop) [∀ s c, Decidable (C s c)] :
    List (Call cfg) → Trace cfg → Kernel cfg → Option (Trace cfg × Kernel cfg)
  | [], tr, s => some (tr, s)
  | c :: cs, tr, s =>
    if C s c then
      match exec c s with
      | .ok (s', r) => runCalls C cs (⟨s, (c, r), s'⟩ :: tr) s'
      | .error _ => none
    else none

theorem runCalls_run {C : Kernel cfg → Call cfg → Prop} [∀ s c, Decidable (C s c)]
    {init : Kernel cfg → Prop} : ∀ {cs : List (Call cfg)} {tr tr' : Trace cfg} {s s' : Kernel cfg},
      Run init (StepOf C) tr s → runCalls C cs tr s = some (tr', s') →
      Run init (StepOf C) tr' s'
  | [], _, _, _, _, h, he => by
    cases he
    exact h
  | c :: cs, tr, tr', s, s', h, he => by
    rw [runCalls] at he
    split at he
    · next hc =>
      split at he
      · next s₁ r hx => exact runCalls_run (h.step (l := (c, r)) ⟨hc, hx⟩) he
      · cases he
    · cases he

/-- What can be seen at the end of the calls is true of a run. -/
theorem exists_runOf {C : Kernel cfg → Call cfg → Prop} [∀ s c, Decidable (C s c)]
    {Q : Trace cfg → Kernel cfg → Prop} [∀ tr s, Decidable (Q tr s)] (cs : List (Call cfg))
    (m : Kernel cfg) (h : (runCalls C cs [] (boot m)).any (fun v => Q v.1 v.2) = true) :
    ∃ tr s, RunOf C tr s ∧ Q tr s := by
  obtain ⟨⟨tr, s⟩, hv, hQ⟩ := (Option.any_eq_true _ _).mp h
  exact ⟨tr, s, runCalls_run (.start ⟨m, rfl⟩) hv, of_decide_eq_true hQ⟩

/-- What can be seen at the end of the calls is true of a run since one of them. -/
theorem exists_sinceOf {C D : Kernel cfg → Call cfg → Prop} [∀ s c, Decidable (C s c)]
    [∀ s c, Decidable (D s c)] {Q : Kernel cfg → Label cfg → Trace cfg → Kernel cfg → Prop}
    [∀ s l tr s', Decidable (Q s l tr s')] (before : List (Call cfg)) (c : Call cfg)
    (since : List (Call cfg)) (m : Kernel cfg)
    (h : ((runCalls C before [] (boot m)).bind fun v => (runCalls C [c] [] v.2).bind fun w =>
      (runCalls (fun s c => C s c ∧ D s c) since [] w.2).bind fun x =>
        w.1.head?.map fun e => decide (Q v.2 e.label x.1 x.2)) = some true) :
    ∃ s₀ l s₁ tr s, SinceOf C D s₀ l s₁ tr s ∧ l.1 = c ∧ Q s₀ l tr s := by
  obtain ⟨⟨tr₀, s₀⟩, h₀, h⟩ := Option.bind_eq_some_iff.mp h
  obtain ⟨⟨tr₁, s₁⟩, h₁, h⟩ := Option.bind_eq_some_iff.mp h
  obtain ⟨⟨tr, s⟩, h₂, h⟩ := Option.bind_eq_some_iff.mp h
  simp only [runCalls] at h₁
  split at h₁
  · next hc =>
    split at h₁
    · next s' r hx =>
      cases h₁
      obtain ⟨e, he, hQ⟩ := Option.map_eq_some_iff.mp h
      cases he
      exact ⟨s₀, (c, r), _, tr, s, ⟨⟨tr₀, runCalls_run (.start ⟨m, rfl⟩) h₀⟩, ⟨hc, hx⟩,
        runCalls_run (.start rfl) h₂⟩, rfl, of_decide_eq_true hQ⟩
    · cases h₁
  · cases h₁

instance (s : Kernel cfg) (c : Call cfg) : Decidable (SoundCall s c) := by
  apply @Call.casesOn cfg (fun c => Decidable (SoundCall s c)) c <;> intros <;>
    first
    | (change Decidable (_ ∧ _); infer_instance)
    | (change Decidable (∀ _, _ → _); infer_instance)
    | exact .isTrue trivial

/-! ## A small build -/

/-- Three tasks, two semaphores, an eventflag, two mailboxes and three messages. -/
def smallConfig : Config where
  tmaxTskid := 3
  trsvTskid := 0
  tmaxSemid := 2
  trsvSemid := 0
  tmaxFlgid := 1
  trsvFlgid := 0
  tmaxMbxid := 2
  trsvMbxid := 0
  tmaxTpri := 4
  bitmapshift := 4
  tmaxActcnt := 4
  tmaxMaxsem := 8
  ticDeno := 1000
  extTsk := 0
  nmsg := 3
  tpri_pos := by decide
  tpri_short := by decide
  maxsem_int := by decide
  bitmap_fits := by decide

instance : NeZero smallConfig.tnumTskid := ⟨by decide⟩
instance : NeZero smallConfig.tnumSemid := ⟨by decide⟩
instance : NeZero smallConfig.tnumFlgid := ⟨by decide⟩
instance : NeZero smallConfig.tnumMbxid := ⟨by decide⟩
instance : NeZero smallConfig.nmsg := ⟨by decide⟩

/-- Memory of zeros. -/
def zeroed : Kernel smallConfig where
  core :=
    { tcb := fun _ =>
        { tskctxb := ⟨0, 0⟩, task := 0, stk := 0, stksz := 0, stkBase := 0, runTicks := 0, tskid := 0,
          exinf := 0, tskatr := 0, name := [], itskpri := 0, tskpri := 0, actcnt := 0,
          state := .noexs, waitObj := none, waitinfo := .mbx 0, ercd := .ok, tskwait := .none,
          wupcnt := 0, suscnt := 0, wtmeb := ⟨0, none, .null⟩ }
      semcb := fun _ => ⟨⟨0, .noexs⟩, 0, 0⟩
      flgcb := fun _ => ⟨⟨0, .noexs⟩, 0⟩
      mbxcb := fun _ => ⟨⟨0, .noexs⟩, .null⟩
      mem := fun _ => 0
      flgvar := fun _ => 0
      msgvar := fun _ => .null
      msgque := fun _ => .null
      msgpri := fun _ => 0
      systemTicks := ⟨0, 0⟩
      timerNesting := 0
      telemetryWallTicks := 0
      telemetryIdleTicks := 0 }
  links := ⟨fun _ => .null, fun _ => .null⟩
  rdyq := ⟨0, fun _ => 0⟩
  runtsk := .null
  schedtsk := .null

/-- The packet a task is created with: initial priority `pri`. -/
def taskPk (pri : Int) : TCtsk where
  tskatr := 0
  exinf := 0
  task := 0x1000
  itskpri := pri
  stksz := 0
  stk := 0x8000
  name := none

/-- The tasks 1, 2, ... of the given priorities are created and started. -/
def startTasks (pris : List Int) : List (Call smallConfig) :=
  pris.zipIdx.flatMap fun (pri, k) => [.creTsk (k + 1) (taskPk pri), .actTsk (k + 1)]

end Ittrium
