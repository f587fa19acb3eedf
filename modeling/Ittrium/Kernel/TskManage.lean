import Ittrium.Kernel.Wait

/-!
# `tsk_manage.c`

The build is the one of the Cortex-A53 port: no `BLK_MEM_SIZE` and no `USE_SEPARATE_STACK`.
-/

namespace Ittrium

open Infra

variable {cfg : Config}

/-! ## Results of service calls -/

/-- `T_CTSK`. A name is the bytes before its terminating zero. -/
structure TCtsk where
  tskatr : ATR
  exinf : VP
  task : VP
  itskpri : Int
  stksz : SIZE
  stk : VP
  name : Option (List UInt8)
  deriving DecidableEq

/-- What a service call gives its caller. -/
inductive Ret (cfg : Config) where
  | er (e : ER)
  /-- The ID an `acre_*` call assigned. -/
  | newId (i : Int)
  /-- The caller waits. The call returns its `ercd` once it runs again. -/
  | blocked
  /-- `E_OK` with the count `can_wup` stores. -/
  | wupcnt (n : Int)
  /-- `E_OK` with the `T_RSEM`, `T_RFLG` or `T_RMBX` filled in. -/
  | rsem (wtskid : Int) (semcnt : UINT)
  | rflg (wtskid : Int) (flgptn : FLGPTN)
  | rmbx (wtskid : Int) (pkMsg : MsgPtr cfg)
  /-- `ext_tsk` does not return, and a tick or a dispatch has no caller. -/
  | none
  deriving DecidableEq

abbrev Outcome (cfg : Config) := Exec (Kernel cfg × Ret cfg)

/-! ## Task IDs -/

/-- The check of the calls that take `TSK_SELF`. Negative IDs pass it. -/
def badTskid (tskid : Int) (s : Kernel cfg) : Bool :=
  tskid > cfg.tmaxTskid + cfg.trsvTskid || (tskid = tskSelf && s.runtsk = .null)

def getTcb (tskid : Int) : Exec (TskIx cfg) := entryOf cfg.tnumTskid tskid

def getTcbSelf (tskid : Int) (s : Kernel cfg) : Exec (TskIx cfg) :=
  if tskid = tskSelf then runTcb s else getTcb tskid

/-! ## Creation and deletion -/

/-- The name kept in the `TCB`: at most `TSK_NAME_LEN - 1` bytes. -/
def copyName (pk : TCtsk) : List UInt8 :=
  match pk.name with
  | some l => if pk.tskatr &&& taName ≠ 0 then (l.takeWhile (· ≠ 0)).take (tskNameLen - 1) else []
  | none => []

def creTsk (tskid : Int) (pk : TCtsk) (s : Kernel cfg) : Outcome cfg :=
  if tskid > cfg.tmaxTskid + cfg.trsvTskid ∨ tskid < 1 then .ok (s, .er .id) else do
  let t ← getTcb tskid
  if (s.core.tcb t).state ≠ .noexs then .ok (s, .er .obj) else do
  if pk.stk = 0 then .ok (s, .er .nomem) else do
  let s := s.setLinks (kqueueRemove (.qnode t))
  let s := s.setTcb t fun tcb =>
    { tcb with
      exinf := pk.exinf
      tskatr := pk.tskatr
      task := pk.task
      itskpri := priToIndex pk.itskpri
      stksz := pk.stksz
      actcnt := 0
      runTicks := 0
      stkBase := pk.stk
      stk := pk.stk + pk.stksz.setWidth 64
      name := copyName pk }
  .ok (s.setCore (taskMakeDormant t), .er .ok)

/-- The loop of `acre_tsk`, from ID `i` on with `n` IDs left. -/
def acreTskLoop (pk : TCtsk) (s : Kernel cfg) : Nat → Int → Outcome cfg
  | 0, _ => .ok (s, .er .noid)
  | n + 1, i => do
    let t ← getTcb i
    if (s.core.tcb t).state = .noexs then do
      let (s, r) ← creTsk i pk s
      .ok (s, if r = .er .ok then .newId i else r)
    else acreTskLoop pk s n (i + 1)

def acreTsk (pk : TCtsk) (s : Kernel cfg) : Outcome cfg :=
  acreTskLoop pk s cfg.trsvTskid (cfg.tmaxTskid + 1)

def delTsk (tskid : Int) (s : Kernel cfg) : Outcome cfg :=
  if tskid > cfg.tmaxTskid + cfg.trsvTskid ∨ tskid < 1 then .ok (s, .er .id) else do
  let t ← getTcb tskid
  if (s.core.tcb t).state = .noexs then .ok (s, .er .noexs) else do
  if s.runtsk = .qnode t then .ok (s, .er .obj) else do
  let s := if (s.core.tcb t).state.waiting then waitCancel t s else s
  let s :=
    if (s.core.tcb t).state = .rdy ∨ (s.core.tcb t).state = .run then taskMakeUnready t s else s
  let s := s.setTcb t fun tcb =>
    { tcb with
      state := .noexs
      actcnt := 0
      waitObj := none
      name := []
      stkBase := 0
      stksz := 0 }
  let s := s.setLinks (kqueueInsert (.qnode t) .freeTcb)
  .ok (dispatch s, .er .ok)

/-! ## Activation, priorities, exit -/

def _actTsk (tskid : Int) (s : Kernel cfg) : Outcome cfg :=
  if badTskid tskid s then .ok (s, .er .id) else do
  let t ← getTcbSelf tskid s
  if (s.core.tcb t).state = .noexs then .ok (s, .er .noexs) else do
  if (s.core.tcb t).state ≠ .dmt then
    if (s.core.tcb t).actcnt ≥ cfg.tmaxActcnt then .ok (s, .er .qovr)
    else .ok (s.setTcb t fun tcb => { tcb with actcnt := tcb.actcnt + 1 }, .er .ok)
  else .ok (taskMakeReady t (s.setCore (makeTaskContext t)), .er .ok)

/-- `if (E_OK == ercd) dispatch();`. -/
def dispatchIfOk (x : Outcome cfg) : Outcome cfg := do
  let (s, r) ← x
  .ok (if r = .er .ok then dispatch s else s, r)

def actTsk (tskid : Int) (s : Kernel cfg) : Outcome cfg := dispatchIfOk (_actTsk tskid s)

def iactTsk (tskid : Int) (s : Kernel cfg) : Outcome cfg := _actTsk tskid s

def chgPri (tskid : Int) (tskpri : Int) (s : Kernel cfg) : Outcome cfg :=
  if badTskid tskid s then .ok (s, .er .id) else do
  if (tskpri < tminTpri ∨ tskpri > cfg.tmaxTpri) ∧ tskpri ≠ tpriIni then .ok (s, .er .par) else do
  let t ← getTcbSelf tskid s
  if (s.core.tcb t).state = .noexs then .ok (s, .er .noexs) else do
  if (s.core.tcb t).state = .dmt then .ok (s, .er .obj) else do
  let s :=
    if tskpri = tpriIni then taskChangePri t (s.core.tcb t).itskpri s
    else taskChangePri t (priToIndex tskpri) s
  .ok (dispatch s, .er .ok)

def rotRdq (tskpri : Int) (s : Kernel cfg) : Outcome cfg :=
  if tskpri = tpriIni then .ok (dispatch (rdyqRotateCurrent s), .er .ok)
  else if tskpri < tminTpri ∨ tskpri > cfg.tmaxTpri then .ok (s, .er .par)
  else .ok (dispatch (rdyqRotateAt (priToIndex tskpri) s), .er .ok)

def extTsk (s : Kernel cfg) : Outcome cfg := do
  let t ← runTcb s
  let s := taskMakeUnready t s
  let s := s.setCore (taskMakeDormant t)
  let s :=
    if (s.core.tcb t).actcnt ≠ 0 then
      let s := s.setTcb t fun tcb => { tcb with actcnt := tcb.actcnt - 1 }
      taskMakeReady t (s.setCore (makeTaskContext t))
    else s
  let s := { s with runtsk := .null }
  .ok (dispatch s, .none)

end Ittrium
