import Ittrium.Kernel.Calls

/-!
# Calls that check before `BEGIN_CRITICAL_SECTION`

`cre_tsk`, `chg_pri`, `cre_sem`, `wai_sem`, `twai_sem`, `pol_sem`, `sig_sem` and `isig_sem` look at
the state of their task or semaphore first and disable interrupts then, without looking again. All
other calls are done in one piece. Most of them check inside their critical section; `clr_flg` and
the calls that look for an ID themselves (`acre_tsk` and its like) do not, and could be interrupted
as well.

* `check` — a call up to `BEGIN_CRITICAL_SECTION`
* `CriticalSection.run` — the rest of it
* `exec_eq_check` — **a call nobody interrupts is both, one after the other**
* `System` — a kernel some of whose callers have been interrupted in between
-/

namespace Ittrium

open Infra

variable {cfg : Config}

/-! ## The two parts of a call -/

/-- A critical section about to begin, on the control block the checks were about. -/
inductive CriticalSection (cfg : Config) where
  | creTsk (t : TskIx cfg) (pk : TCtsk)
  | chgPri (t : TskIx cfg) (tskpri : Int)
  | creSem (i : SemIx cfg) (pk : TCsem)
  | waiSem (i : SemIx cfg) (tmout : TMO)
  | sigSem (i : SemIx cfg)
  | isigSem (i : SemIx cfg)

/-- How the first part of a call ends. -/
inductive Checked (cfg : Config) where
  | returned (s : Kernel cfg) (r : Ret cfg)
  | passed (k : CriticalSection cfg)

def creTskCheck (tskid : Int) (pk : TCtsk) (s : Kernel cfg) : Exec (Checked cfg) :=
  if tskid > cfg.tmaxTskid + cfg.trsvTskid ∨ tskid < 1 then .ok (.returned s (.er .id)) else do
  let t ← getTcb tskid
  if (s.core.tcb t).state ≠ .noexs then .ok (.returned s (.er .obj))
  else if pk.stk = 0 then .ok (.returned s (.er .nomem))
  else .ok (.passed (.creTsk t pk))

def chgPriCheck (tskid : Int) (tskpri : Int) (s : Kernel cfg) : Exec (Checked cfg) :=
  if badTskid tskid s then .ok (.returned s (.er .id)) else
  if (tskpri < tminTpri ∨ tskpri > cfg.tmaxTpri) ∧ tskpri ≠ tpriIni then
    .ok (.returned s (.er .par))
  else do
  let t ← getTcbSelf tskid s
  if (s.core.tcb t).state = .noexs then .ok (.returned s (.er .noexs))
  else if (s.core.tcb t).state = .dmt then .ok (.returned s (.er .obj))
  else .ok (.passed (.chgPri t tskpri))

def creSemCheck (semid : Int) (pk : TCsem) (s : Kernel cfg) : Exec (Checked cfg) :=
  if badSemid cfg semid then .ok (.returned s (.er .id)) else
  if pk.sematr &&& (taTfifo ||| taTpri) ≠ pk.sematr then .ok (.returned s (.er .rsatr)) else
  if cfg.tmaxMaxsem < pk.maxsem.toNat ∨ cfg.tmaxMaxsem < pk.isemcnt.toNat then
    .ok (.returned s (.er .par))
  else do
  let i ← getSemcb semid
  if (s.core.semcb i).obj.state ≠ .noexs then .ok (.returned s (.er .obj))
  else .ok (.passed (.creSem i pk))

def waiSemCheck (semid : Int) (tmout : TMO) (s : Kernel cfg) : Exec (Checked cfg) :=
  if badSemid cfg semid then .ok (.returned s (.er .id)) else do
  let i ← getSemcb semid
  if (s.core.semcb i).obj.state = .noexs then .ok (.returned s (.er .obj))
  else .ok (.passed (.waiSem i tmout))

/-- `sig_sem` dispatches even if it fails. -/
def sigSemCheck (semid : Int) (s : Kernel cfg) : Exec (Checked cfg) :=
  if badSemid cfg semid then .ok (.returned (dispatch s) (.er .id)) else do
  let i ← getSemcb semid
  if (s.core.semcb i).obj.state = .noexs then .ok (.returned (dispatch s) (.er .obj))
  else .ok (.passed (.sigSem i))

def isigSemCheck (semid : Int) (s : Kernel cfg) : Exec (Checked cfg) :=
  if badSemid cfg semid then .ok (.returned s (.er .id)) else do
  let i ← getSemcb semid
  if (s.core.semcb i).obj.state = .noexs then .ok (.returned s (.er .obj))
  else .ok (.passed (.isigSem i))

/-- A call that does all it does in one piece. -/
def whole (x : Outcome cfg) : Exec (Checked cfg) := do
  let (s, r) ← x
  .ok (.returned s r)

/-- A call up to `BEGIN_CRITICAL_SECTION`, or all of it if it is done in one piece. -/
def check : Call cfg → Kernel cfg → Exec (Checked cfg)
  | .creTsk tskid pk, s => creTskCheck tskid pk s
  | .chgPri tskid tskpri, s => chgPriCheck tskid tskpri s
  | .creSem semid pk, s => creSemCheck semid pk s
  | .waiSem semid, s => waiSemCheck semid tmoFevr s
  | .twaiSem semid tmout, s => waiSemCheck semid tmout s
  | .polSem semid, s => waiSemCheck semid tmoPol s
  | .sigSem semid, s => sigSemCheck semid s
  | .isigSem semid, s => isigSemCheck semid s
  | c, s => whole (exec c s)

def sigSemSection (i : SemIx cfg) (s : Kernel cfg) : Outcome cfg :=
  if !kqueueEmpty (.waitq (.sem i)) s.links then do
    let t ← tcbOf (s.links.next (.waitq (.sem i)))
    .ok (waitReleaseOk t s, .er .ok)
  else if (s.core.semcb i).semcnt ≥ (s.core.semcb i).maxsem then .ok (s, .er .qovr)
  else
    .ok (s.setCore (Core.setSemcb i fun cb => { cb with semcnt := cb.semcnt + 1 }), .er .ok)

/-- The critical section, and the `dispatch` behind it. -/
def CriticalSection.run : CriticalSection cfg → Kernel cfg → Outcome cfg
  | .creTsk t pk, s =>
    let s := s.setLinks (kqueueRemove (.qnode t))
    let s := s.setTcb t fun tcb =>
      { tcb with
        exinf := pk.exinf
        tskatr := pk.tskatr
        task := pk.task
        itskpri := priToIndex pk.itskpri
        stksz := pk.stksz
        actcnt := 0
        runTicks := 0
        stkBase := pk.stk
        stk := pk.stk + pk.stksz.setWidth 64
        name := copyName pk }
    .ok (s.setCore (taskMakeDormant t), .er .ok)
  | .chgPri t tskpri, s =>
    let s :=
      if tskpri = tpriIni then taskChangePri t (s.core.tcb t).itskpri s
      else taskChangePri t (priToIndex tskpri) s
    .ok (dispatch s, .er .ok)
  | .creSem i pk, s =>
    let s := s.setLinks (kqueueRemove (.waitq (.sem i)))
    let s := s.setLinks (kqueueInit (.waitq (.sem i)))
    let s := s.setCore (Core.setSemcb i fun _ =>
      { obj := { objatr := pk.sematr, state := .rdy }
        semcnt := pk.isemcnt.toInt
        maxsem := pk.maxsem.toInt })
    .ok (s, .er .ok)
  | .waiSem i tmout, s => do
    let r ← runTcb s
    if 0 < (s.core.semcb i).semcnt then
      let s := s.setCore (Core.setSemcb i fun cb => { cb with semcnt := cb.semcnt - 1 })
      let s := s.setTcb r fun tcb => { tcb with ercd := .ok }
      .ok (dispatch s, .er .ok)
    else
      let s := s.setTcb r fun tcb => { tcb with ercd := .tmout }
      if tmoPol ≠ tmout then do
        let s ← objMakeWait r (.sem i) tmout s
        .ok (dispatch s, .blocked)
      else .ok (dispatch s, .er .tmout)
  | .sigSem i, s => do
    let (s, r) ← sigSemSection i s
    .ok (dispatch s, r)
  | .isigSem i, s => sigSemSection i s

/-- A call after its first part. -/
def Checked.rest (s : Kernel cfg) : Checked cfg → Outcome cfg
  | .returned s' r => .ok (s', r)
  | .passed k => k.run s

theorem creTsk_eq_check (tskid : Int) (pk : TCtsk) (s : Kernel cfg) :
    creTsk tskid pk s = creTskCheck tskid pk s >>= Checked.rest s := by
  unfold creTsk creTskCheck
  split
  · rfl
  · cases (getTcb tskid : Exec (TskIx cfg)) with
    | error e => rfl
    | ok t =>
      dsimp only [bind, Except.bind]
      split
      · rfl
      · split <;> rfl

theorem chgPri_eq_check (tskid tskpri : Int) (s : Kernel cfg) :
    chgPri tskid tskpri s = chgPriCheck tskid tskpri s >>= Checked.rest s := by
  unfold chgPri chgPriCheck
  split
  · rfl
  · split
    · rfl
    · cases getTcbSelf tskid s with
      | error e => rfl
      | ok t =>
        dsimp only [bind, Except.bind]
        split
        · rfl
        · split <;> rfl

theorem creSem_eq_check (semid : Int) (pk : TCsem) (s : Kernel cfg) :
    creSem semid pk s = creSemCheck semid pk s >>= Checked.rest s := by
  unfold creSem _creSem creSemCheck
  split
  · rfl
  · split
    · rfl
    · split
      · rfl
      · cases (getSemcb semid : Exec (SemIx cfg)) with
        | error e => rfl
        | ok i =>
          dsimp only [bind, Except.bind]
          split <;> rfl

/-- `wai_sem`, `twai_sem` and `pol_sem` share their code. -/
theorem waiSem_eq_check (semid : Int) (tmout : TMO) (s : Kernel cfg) :
    _waiSem semid tmout s = waiSemCheck semid tmout s >>= Checked.rest s := by
  unfold _waiSem waiSemCheck
  split
  · rfl
  · cases (getSemcb semid : Exec (SemIx cfg)) with
    | error e => rfl
    | ok i =>
      dsimp only [bind, Except.bind]
      split <;> rfl

theorem sigSem_eq_check (semid : Int) (s : Kernel cfg) :
    sigSem semid s = sigSemCheck semid s >>= Checked.rest s := by
  unfold sigSem _sigSem sigSemCheck
  split
  · rfl
  · cases (getSemcb semid : Exec (SemIx cfg)) with
    | error e => rfl
    | ok i =>
      dsimp only [bind, Except.bind]
      by_cases hs : (s.core.semcb i).obj.state = .noexs
      · simp only [if_pos hs]
        rfl
      · simp only [if_neg hs]
        rfl

theorem isigSem_eq_check (semid : Int) (s : Kernel cfg) :
    isigSem semid s = isigSemCheck semid s >>= Checked.rest s := by
  unfold isigSem _sigSem isigSemCheck
  split
  · rfl
  · cases (getSemcb semid : Exec (SemIx cfg)) with
    | error e => rfl
    | ok i =>
      dsimp only [bind, Except.bind]
      split <;> rfl

/-- **A call nobody interrupts is its two parts one after the other.** -/
theorem exec_eq_check (c : Call cfg) (s : Kernel cfg) :
    exec c s = check c s >>= Checked.rest s := by
  have hwhole : ∀ x : Outcome cfg, x = whole x >>= Checked.rest s := by
    intro x
    cases x <;> rfl
  cases c with
  | creTsk tskid pk => exact creTsk_eq_check tskid pk s
  | chgPri tskid tskpri => exact chgPri_eq_check tskid tskpri s
  | creSem semid pk => exact creSem_eq_check semid pk s
  | waiSem semid => exact waiSem_eq_check semid tmoFevr s
  | twaiSem semid tmout => exact waiSem_eq_check semid tmout s
  | polSem semid => exact waiSem_eq_check semid tmoPol s
  | sigSem semid => exact sigSem_eq_check semid s
  | isigSem semid => exact isigSem_eq_check semid s
  | _ => exact hwhole _

/-! ## Callers that are interrupted -/

/-- Who executes a call: a task, or a handler (or `main`, before there are tasks). -/
inductive Context (cfg : Config) where
  | task (t : TskIx cfg)
  | handler (n : Nat)
  deriving DecidableEq

/-- A kernel, and for each caller that has been interrupted what it will go on with. -/
structure System (cfg : Config) where
  kernel : Kernel cfg
  pending : Context cfg → Option (CriticalSection cfg)

/-- A caller makes a call as far as its `BEGIN_CRITICAL_SECTION`, or goes on from there. -/
inductive Move (cfg : Config) where
  | call (x : Context cfg) (c : Call cfg)
  | resume (x : Context cfg)

namespace System

/-- A task executes when it is the running one, a handler at any time. -/
def Executes (s : Kernel cfg) : Context cfg → Prop
  | .task t => s.runtsk = .qnode t
  | .handler _ => True

instance (s : Kernel cfg) (x : Context cfg) : Decidable (Executes s x) := by
  cases x <;> (unfold Executes; infer_instance)

/-- The kernel after a part of a call. A task that has been deleted does not go on. -/
def settle (pending : Context cfg → Option (CriticalSection cfg)) (s : Kernel cfg) : System cfg where
  kernel := s
  pending
    | .task t => if (s.core.tcb t).state = .noexs then none else pending (.task t)
    | .handler n => pending (.handler n)

/-- What a move does, with the result of the call if it returns or blocks. -/
def step (p : System cfg) : Move cfg → Option (System cfg × Option (Ret cfg))
  | .call x c =>
    if Executes p.kernel x ∧ (p.pending x).isNone then
      match check c p.kernel with
      | .ok (.returned s r) => some (settle p.pending s, some r)
      | .ok (.passed k) => some ({ p with pending := Function.update p.pending x (some k) }, none)
      | .error _ => none
    else none
  | .resume x =>
    if Executes p.kernel x then
      match p.pending x with
      | some k =>
        match k.run p.kernel with
        | .ok (s, r) => some (settle (Function.update p.pending x none) s, some r)
        | .error _ => none
      | none => none
    else none

/-- Where `main` is after the initializations. -/
def boot (s : Kernel cfg) : System cfg := ⟨Ittrium.boot s, fun _ => none⟩

end System

end Ittrium
