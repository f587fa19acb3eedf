import Ittrium.Spec.State

/-!
# The service calls over lists

Each call with the checks and results it has in the kernel, its effect stated on the lines.
`chg_pri` is meant for ready tasks only here, and a second `sus_tsk` leaves a suspended task
suspended: `Ittrium/Refine/Calls.lean` says for which calls the kernel agrees.
-/

namespace Ittrium.Spec

open Infra

variable {cfg : Config}

abbrev Outcome (cfg : Config) := Exec (Model cfg × Ret cfg)

/-! ## Arguments -/

def runTcb (a : Model cfg) : Exec (TskIx cfg) :=
  match a.runtsk with
  | some t => .ok t
  | none => .error .badPointer

def badTskid (tskid : Int) (a : Model cfg) : Bool :=
  tskid > cfg.tmaxTskid + cfg.trsvTskid || (tskid = tskSelf && a.runtsk = none)

def getTcbSelf (tskid : Int) (a : Model cfg) : Exec (TskIx cfg) :=
  if tskid = tskSelf then runTcb a else getTcb tskid

def dispatchIfOk (x : Outcome cfg) : Outcome cfg := do
  let (a, r) ← x
  .ok (if r = .er .ok then a.dispatch else a, r)

def dispatchAll (x : Outcome cfg) : Outcome cfg := do
  let (a, r) ← x
  .ok (a.dispatch, r)

/-- The first task of an object's line, by ID. -/
def waitTskid (o : ObjId cfg) (a : Model cfg) : Int :=
  match a.queue (.waitq o) with
  | [] => 0
  | t :: _ => (a.core.tcb t).tskid

/-! ## Tasks -/

/-- A free task becomes dormant. -/
def Model.create (t : TskIx cfg) (pk : TCtsk) (a : Model cfg) : Model cfg :=
  ((a.deq .free t).setTcb t fun tcb =>
    { tcb with
      exinf := pk.exinf
      tskatr := pk.tskatr
      task := pk.task
      itskpri := priToIndex pk.itskpri
      stksz := pk.stksz
      actcnt := 0
      runTicks := 0
      stkBase := pk.stk
      stk := pk.stk + pk.stksz.setWidth 64
      name := copyName pk }).setCore (taskMakeDormant t)

def creTsk (tskid : Int) (pk : TCtsk) (a : Model cfg) : Outcome cfg :=
  if tskid > cfg.tmaxTskid + cfg.trsvTskid ∨ tskid < 1 then .ok (a, .er .id) else do
  let t ← getTcb tskid
  if (a.core.tcb t).state ≠ .noexs then .ok (a, .er .obj) else do
  if pk.stk = 0 then .ok (a, .er .nomem) else do
  .ok (a.create t pk, .er .ok)

def acreTskLoop (pk : TCtsk) (a : Model cfg) : Nat → Int → Outcome cfg
  | 0, _ => .ok (a, .er .noid)
  | n + 1, i => do
    let t ← getTcb i
    if (a.core.tcb t).state = .noexs then do
      let (a, r) ← creTsk i pk a
      .ok (a, if r = .er .ok then .newId i else r)
    else acreTskLoop pk a n (i + 1)

def acreTsk (pk : TCtsk) (a : Model cfg) : Outcome cfg :=
  acreTskLoop pk a cfg.trsvTskid (cfg.tmaxTskid + 1)

/-- A task, whatever it does, becomes free. -/
def Model.delete (t : TskIx cfg) (a : Model cfg) : Model cfg :=
  let a :=
    if (a.core.tcb t).state.waiting then a.cancel t
    else if (a.core.tcb t).state = .rdy then a.makeUnready t
    else a
  (a.setTcb t fun tcb =>
    { tcb with
      state := .noexs
      actcnt := 0
      waitObj := none
      name := []
      stkBase := 0
      stksz := 0 }).enq .free t

def delTsk (tskid : Int) (a : Model cfg) : Outcome cfg :=
  if tskid > cfg.tmaxTskid + cfg.trsvTskid ∨ tskid < 1 then .ok (a, .er .id) else do
  let t ← getTcb tskid
  if (a.core.tcb t).state = .noexs then .ok (a, .er .noexs) else do
  if a.runtsk = some t then .ok (a, .er .obj) else do
  .ok ((a.delete t).dispatch, .er .ok)

/-- A dormant task starts. -/
def Model.activate (t : TskIx cfg) (a : Model cfg) : Model cfg :=
  (a.setCore (makeTaskContext t)).makeReady t

def _actTsk (tskid : Int) (a : Model cfg) : Outcome cfg :=
  if badTskid tskid a then .ok (a, .er .id) else do
  let t ← getTcbSelf tskid a
  if (a.core.tcb t).state = .noexs then .ok (a, .er .noexs) else do
  if (a.core.tcb t).state ≠ .dmt then
    if (a.core.tcb t).actcnt ≥ cfg.tmaxActcnt then .ok (a, .er .qovr)
    else .ok (a.setTcb t fun tcb => { tcb with actcnt := tcb.actcnt + 1 }, .er .ok)
  else .ok (a.activate t, .er .ok)

/-- A ready task goes to the end of the line of priority `p`. -/
def Model.changePri (t : TskIx cfg) (p : Int) (a : Model cfg) : Model cfg :=
  ((a.makeUnready t).setTcb t fun tcb => { tcb with tskpri := p }).enq (.ready p) t

def chgPri (tskid : Int) (tskpri : Int) (a : Model cfg) : Outcome cfg :=
  if badTskid tskid a then .ok (a, .er .id) else do
  if (tskpri < tminTpri ∨ tskpri > cfg.tmaxTpri) ∧ tskpri ≠ tpriIni then .ok (a, .er .par) else do
  let t ← getTcbSelf tskid a
  if (a.core.tcb t).state = .noexs then .ok (a, .er .noexs) else do
  if (a.core.tcb t).state = .dmt then .ok (a, .er .obj) else do
  let p := if tskpri = tpriIni then (a.core.tcb t).itskpri else priToIndex tskpri
  .ok ((a.changePri t p).dispatch, .er .ok)

def rotRdq (tskpri : Int) (a : Model cfg) : Outcome cfg :=
  if tskpri = tpriIni then
    .ok ((a.rotate (.ready (topPri cfg fun p => a.queue (.ready p)))).dispatch, .er .ok)
  else if tskpri < tminTpri ∨ tskpri > cfg.tmaxTpri then .ok (a, .er .par)
  else .ok ((a.rotate (.ready (priToIndex tskpri))).dispatch, .er .ok)

/-- The running task ends, and starts anew if activations are queued. -/
def Model.exit (t : TskIx cfg) (a : Model cfg) : Model cfg :=
  let a := (a.makeUnready t).setCore (taskMakeDormant t)
  if (a.core.tcb t).actcnt ≠ 0 then
    (a.setTcb t fun tcb => { tcb with actcnt := tcb.actcnt - 1 }).activate t
  else a

def extTsk (a : Model cfg) : Outcome cfg := do
  let t ← runTcb a
  .ok ((a.exit t).dispatch, .none)

/-- The running task sleeps or is delayed. -/
def Model.sleep (t : TskIx cfg) (why : TskWait) (tmout : TMO) (a : Model cfg) : Model cfg :=
  (a.setTcb t fun tcb => { tcb with waitObj := none, tskwait := why }).startWait t tmout

def dlyTsk (dlytim : RELTIM) (a : Model cfg) : Outcome cfg := do
  let r ← runTcb a
  let a := a.setTcb r fun tcb => { tcb with ercd := .ok }
  .ok ((a.sleep r .dly (dlytim.setWidth 16)).dispatch, .blocked)

/-- Suspending a task that is not suspended, or a second time one that is. -/
def Model.suspend (t : TskIx cfg) (a : Model cfg) : Model cfg :=
  let st := (a.core.tcb t).state
  let a := a.setTcb t fun tcb => { tcb with suscnt := tcb.suscnt + 1 }
  if st = .rdy then (a.makeUnready t).setTcb t fun tcb => { tcb with state := .sus }
  else if st.waiting then a.setTcb t fun tcb => { tcb with state := .was }
  else a

def susTsk (tskid : Int) (a : Model cfg) : Outcome cfg :=
  if badTskid tskid a then .ok (a, .er .id) else do
  let t ← getTcbSelf tskid a
  if (a.core.tcb t).state = .noexs then .ok (a.dispatch, .er .noexs)
  else if (a.core.tcb t).state = .dmt then .ok (a.dispatch, .er .obj)
  else if (cfg.tmaxActcnt : Int) = (a.core.tcb t).suscnt then .ok (a.dispatch, .er .qovr)
  else .ok ((a.suspend t).dispatch, .er .ok)

def Model.resume (t : TskIx cfg) (a : Model cfg) : Model cfg :=
  let a := a.setTcb t fun tcb => { tcb with suscnt := tcb.suscnt - 1 }
  if (a.core.tcb t).suscnt = 0 then
    if (a.core.tcb t).state = .was then a.setTcb t fun tcb => { tcb with state := .wai }
    else a.makeReady t
  else a

def rsmTsk (tskid : Int) (a : Model cfg) : Outcome cfg :=
  if badTskid tskid a then .ok (a, .er .id) else do
  let t ← getTcbSelf tskid a
  if (a.core.tcb t).state = .noexs then .ok (a.dispatch, .er .noexs)
  else if (a.core.tcb t).state ≠ .sus ∧ (a.core.tcb t).state ≠ .was then
    .ok (a.dispatch, .er .obj)
  else .ok ((a.resume t).dispatch, .er .ok)

def _slpTsk (tmout : TMO) (a : Model cfg) : Outcome cfg := do
  let r ← runTcb a
  if (a.core.tcb r).wupcnt > 0 then
    .ok ((a.setTcb r fun tcb => { tcb with wupcnt := tcb.wupcnt - 1, ercd := .ok }).dispatch,
      .er .ok)
  else
    let a := a.setTcb r fun tcb => { tcb with ercd := .tmout }
    if tmoPol ≠ tmout then .ok ((a.sleep r .slp tmout).dispatch, .blocked)
    else .ok (a.dispatch, .er .tmout)

def _wupTsk (tskid : Int) (a : Model cfg) : Outcome cfg :=
  if badTskid tskid a then .ok (a, .er .id) else do
  let t ← getTcbSelf tskid a
  if (a.core.tcb t).state = .noexs then .ok (a, .er .noexs)
  else if (a.core.tcb t).state = .dmt then .ok (a, .er .obj)
  else if (a.core.tcb t).state.waiting ∧ (a.core.tcb t).tskwait = .slp then
    .ok (a.release t .ok, .er .ok)
  else if (a.core.tcb t).wupcnt ≥ cfg.tmaxActcnt then .ok (a, .er .qovr)
  else .ok (a.setTcb t fun tcb => { tcb with wupcnt := tcb.wupcnt + 1 }, .er .ok)

def canWup (tskid : Int) (a : Model cfg) : Outcome cfg :=
  if badTskid tskid a then .ok (a, .er .id) else do
  let t ← getTcbSelf tskid a
  if (a.core.tcb t).state = .noexs then .ok (a, .er .noexs)
  else if (a.core.tcb t).state = .dmt then .ok (a, .er .obj)
  else .ok (a.setTcb t fun tcb => { tcb with wupcnt := 0 }, .wupcnt (a.core.tcb t).wupcnt)

/-! ## Semaphores -/

def _creSem (semid : Int) (pk : TCsem) (a : Model cfg) : Outcome cfg :=
  if pk.sematr &&& (taTfifo ||| taTpri) ≠ pk.sematr then .ok (a, .er .rsatr) else do
  if cfg.tmaxMaxsem < pk.maxsem.toNat ∨ cfg.tmaxMaxsem < pk.isemcnt.toNat then
    .ok (a, .er .par)
  else do
  let i ← getSemcb semid
  if (a.core.semcb i).obj.state ≠ .noexs then .ok (a, .er .obj) else
  .ok ({ a with
    freeSem := a.freeSem.erase i
    core := a.core.setSemcb i fun _ =>
      { obj := { objatr := pk.sematr, state := .rdy }
        semcnt := pk.isemcnt.toInt
        maxsem := pk.maxsem.toInt } }, .er .ok)

def creSem (semid : Int) (pk : TCsem) (a : Model cfg) : Outcome cfg :=
  if badSemid cfg semid then .ok (a, .er .id) else _creSem semid pk a

def acreSemLoop (pk : TCsem) (a : Model cfg) : Nat → Int → Outcome cfg
  | 0, _ => .ok (a, .er .noid)
  | n + 1, i => do
    let k : SemIx cfg ← getSemcb i
    if (a.core.semcb k).obj.state = .noexs then do
      let (a, r) ← _creSem i pk a
      .ok (a, if r = .er .ok then .newId i else r)
    else acreSemLoop pk a n (i + 1)

def acreSem (pk : TCsem) (a : Model cfg) : Outcome cfg :=
  acreSemLoop pk a cfg.trsvSemid (cfg.tmaxSemid + 1)

def _waiSem (semid : Int) (tmout : TMO) (a : Model cfg) : Outcome cfg :=
  if badSemid cfg semid then .ok (a, .er .id) else do
  let i ← getSemcb semid
  if (a.core.semcb i).obj.state = .noexs then .ok (a, .er .obj) else do
  let r ← runTcb a
  if 0 < (a.core.semcb i).semcnt then
    let a := a.setCore (Core.setSemcb i fun cb => { cb with semcnt := cb.semcnt - 1 })
    .ok ((a.setTcb r fun tcb => { tcb with ercd := .ok }).dispatch, .er .ok)
  else
    let a := a.setTcb r fun tcb => { tcb with ercd := .tmout }
    if tmoPol ≠ tmout then .ok ((a.objWait r (.sem i) tmout).dispatch, .blocked)
    else .ok (a.dispatch, .er .tmout)

def _sigSem (semid : Int) (a : Model cfg) : Outcome cfg :=
  if badSemid cfg semid then .ok (a, .er .id) else do
  let i ← getSemcb semid
  if (a.core.semcb i).obj.state = .noexs then .ok (a, .er .obj) else
  match a.queue (.waitq (.sem i)) with
  | t :: _ => .ok (a.release t .ok, .er .ok)
  | [] =>
    if (a.core.semcb i).semcnt ≥ (a.core.semcb i).maxsem then .ok (a, .er .qovr)
    else
      .ok (a.setCore (Core.setSemcb i fun cb => { cb with semcnt := cb.semcnt + 1 }), .er .ok)

def delSem (semid : Int) (a : Model cfg) : Outcome cfg :=
  if badSemid cfg semid then .ok (a, .er .id) else do
  let i ← getSemcb semid
  if (a.core.semcb i).obj.state = .noexs then .ok (a, .er .noexs) else
  let a := a.releaseAll (.sem i)
  let a := { a with
    freeSem := a.freeSem ++ [i]
    core := a.core.setSemcb i fun cb =>
      { cb with obj := { cb.obj with state := .noexs }, semcnt := 0 } }
  .ok (a.dispatch, .er .ok)

def refSem (semid : Int) (a : Model cfg) : Outcome cfg :=
  if badSemid cfg semid then .ok (a, .er .id) else do
  let i ← getSemcb semid
  if (a.core.semcb i).obj.state = .noexs then .ok (a, .er .noexs) else
  .ok (a, .rsem (waitTskid (.sem i) a) (BitVec.ofInt 32 (a.core.semcb i).semcnt))

/-! ## Eventflags -/

def _creFlg (flgid : Int) (pk : TCflg) (a : Model cfg) : Outcome cfg :=
  if pk.flgatr ≠ pk.flgatr &&& ((taTfifo ||| taTpri) ||| (taWsgl ||| taWmul) ||| taClr) then
    .ok (a, .er .rsatr)
  else do
  let i ← getFlgcb flgid
  if (a.core.flgcb i).obj.state ≠ .noexs then .ok (a, .er .obj) else
  .ok (a.setCore (Core.setFlgcb i fun _ =>
    { obj := { objatr := pk.flgatr, state := .rdy }, flgptn := pk.iflgptn }), .er .ok)

def creFlg (flgid : Int) (pk : TCflg) (a : Model cfg) : Outcome cfg :=
  if badFlgid cfg flgid then .ok (a, .er .id) else _creFlg flgid pk a

def acreFlgLoop (pk : TCflg) (a : Model cfg) : Nat → Int → Outcome cfg
  | 0, _ => .ok (a, .er .noid)
  | n + 1, i => do
    let k : FlgIx cfg ← getFlgcb i
    if (a.core.flgcb k).obj.state = .noexs then do
      let (a, r) ← _creFlg i pk a
      .ok (a, if r = .er .ok then .newId i else r)
    else acreFlgLoop pk a n (i + 1)

def acreFlg (pk : TCflg) (a : Model cfg) : Outcome cfg :=
  acreFlgLoop pk a cfg.trsvFlgid (cfg.tmaxFlgid + 1)

/-- The waiting task `t` takes the pattern if it satisfies its condition. -/
def Model.offer (i : FlgIx cfg) (t : TskIx cfg) (a : Model cfg) : Model cfg :=
  let w := (a.core.tcb t).waitinfo
  if eventflagCond (a.core.flgcb i) w.waiptn w.wfmode then
    let a := a.setCore fun c =>
      { c with flgvar := Function.update c.flgvar w.pFlgptn (c.flgcb i).flgptn }
    (a.release t .ok).setCore (Core.setFlgcb i clearFlgptn)
  else a

def _setFlg (flgid : Int) (setptn : FLGPTN) (a : Model cfg) : Outcome cfg :=
  if badFlgid cfg flgid then .ok (a, .er .id) else do
  let i ← getFlgcb flgid
  if (a.core.flgcb i).obj.state = .noexs then .ok (a, .er .noexs) else
  let a := a.setCore (Core.setFlgcb i fun cb => { cb with flgptn := cb.flgptn ||| setptn })
  .ok ((a.queue (.waitq (.flg i))).foldl (fun a t => a.offer i t) a, .er .ok)

def clrFlg (flgid : Int) (clrptn : FLGPTN) (a : Model cfg) : Outcome cfg :=
  if badFlgid cfg flgid then .ok (a, .er .id) else do
  let i ← getFlgcb flgid
  if (a.core.flgcb i).obj.state = .noexs then .ok (a, .er .noexs) else
  .ok (a.setCore (Core.setFlgcb i fun cb => { cb with flgptn := cb.flgptn &&& clrptn }), .er .ok)

def _waiFlg (flgid : Int) (waiptn : FLGPTN) (wfmode : MODE) (pFlgptn : VP) (tmout : TMO)
    (a : Model cfg) : Outcome cfg :=
  if badFlgid cfg flgid then .ok (a, .er .id) else do
  if (wfmode ≠ twfAndw ∧ wfmode ≠ twfOrw) ∨ 0 = waiptn then .ok (a, .er .par) else do
  let i ← getFlgcb flgid
  let r ← runTcb a
  if (a.core.flgcb i).obj.state = .noexs then
    .ok (a.setTcb r fun tcb => { tcb with ercd := .noexs }, .er .noexs)
  else if (a.core.flgcb i).obj.objatr &&& taWsgl ≠ 0 ∧ a.queue (.waitq (.flg i)) ≠ [] then
    .ok (a.setTcb r fun tcb => { tcb with ercd := .ilUse }, .er .ilUse)
  else if eventflagCond (a.core.flgcb i) waiptn wfmode then
    let a := a.setTcb r fun tcb => { tcb with ercd := .ok }
    let a := a.setCore fun c =>
      { c with flgvar := Function.update c.flgvar pFlgptn (c.flgcb i).flgptn }
    .ok (a.setCore (Core.setFlgcb i clearFlgptn), .er .ok)
  else
    let a := a.setTcb r fun tcb => { tcb with ercd := .tmout }
    if tmoPol ≠ tmout then
      let a := a.setTcb r fun tcb => { tcb with waitinfo := .flg waiptn wfmode pFlgptn }
      .ok ((a.objWait r (.flg i) tmout).dispatch, .blocked)
    else .ok (a, .er .tmout)

def refFlg (flgid : Int) (a : Model cfg) : Outcome cfg :=
  if badFlgid cfg flgid then .ok (a, .er .id) else do
  let i ← getFlgcb flgid
  if (a.core.flgcb i).obj.state = .noexs then .ok (a, .er .noexs) else
  .ok (a, .rflg (waitTskid (.flg i) a) (a.core.flgcb i).flgptn)

def delFlg (flgid : Int) (a : Model cfg) : Outcome cfg :=
  if badFlgid cfg flgid then .ok (a, .er .id) else do
  let i ← getFlgcb flgid
  if (a.core.flgcb i).obj.state = .noexs then .ok (a, .er .noexs) else
  let a := (a.releaseAll (.flg i)).setCore (Core.setFlgcb i fun cb =>
    { cb with obj := { cb.obj with state := .noexs }, flgptn := 0 })
  .ok (a.dispatch, .er .ok)

/-! ## Mailboxes -/

def _creMbx (mbxid : Int) (pk : TCmbx) (a : Model cfg) : Outcome cfg :=
  if pk.mbxatr ≠ pk.mbxatr &&& ((taTfifo ||| taTpri) ||| (taMfifo ||| taMpri)) then
    .ok (a, .er .rsatr)
  else do
  let i ← getMbxcb mbxid
  if (a.core.mbxcb i).obj.state ≠ .noexs then .ok (a, .er .obj) else
  let a := a.setCore (Core.setMbxcb i fun cb =>
    { cb with obj := { objatr := pk.mbxatr, state := .rdy } })
  .ok (a.setCore (setNextmsg (.mqHead i) .null), .er .ok)

def creMbx (mbxid : Int) (pk : TCmbx) (a : Model cfg) : Outcome cfg :=
  if badMbxid cfg mbxid then .ok (a, .er .id) else _creMbx mbxid pk a

def acreMbxLoop (pk : TCmbx) (a : Model cfg) : Nat → Int → Outcome cfg
  | 0, _ => .ok (a, .er .noid)
  | n + 1, i => do
    let k : MbxIx cfg ← getMbxcb i
    if (a.core.mbxcb k).obj.state = .noexs then do
      let (a, r) ← _creMbx i pk a
      .ok (a, if r = .er .ok then .newId i else r)
    else acreMbxLoop pk a n (i + 1)

def acreMbx (pk : TCmbx) (a : Model cfg) : Outcome cfg :=
  acreMbxLoop pk a cfg.trsvMbxid (cfg.tmaxMbxid + 1)

/-- A message is handed to the waiting task `t`. -/
def Model.handOver (m : Fin cfg.nmsg) (t : TskIx cfg) (a : Model cfg) : Model cfg :=
  (a.setCore fun c =>
    { c with msgvar := Function.update c.msgvar (c.tcb t).waitinfo.ppkMsg (.pkt m) }).release t .ok

def _sndMbx (mbxid : Int) (m : Fin cfg.nmsg) (a : Model cfg) : Outcome cfg :=
  if badMbxid cfg mbxid then .ok (a, .er .id) else do
  let i ← getMbxcb mbxid
  if (a.core.mbxcb i).obj.state = .noexs then .ok (a, .er .noexs) else do
  if (a.core.mbxcb i).obj.objatr &&& taMpri ≠ 0 ∧ a.core.msgpri m ≤ 0 then .ok (a, .er .par) else
  match a.queue (.waitq (.mbx i)) with
  | t :: _ => .ok (a.handOver m t, .er .ok)
  | [] => do
    let c ← enqueueMsg m i a.core
    .ok ({ a with core := c }, .er .ok)

def _rcvMbx (mbxid : Int) (ppkMsg : VP) (tmout : TMO) (a : Model cfg) : Outcome cfg :=
  if badMbxid cfg mbxid then .ok (a, .er .id) else do
  if tmout.toInt < tmoFevr.toInt then .ok (a, .er .par) else do
  let i ← getMbxcb mbxid
  let r ← runTcb a
  if (a.core.mbxcb i).obj.state = .noexs then
    .ok (a.setTcb r fun tcb => { tcb with ercd := .noexs }, .er .noexs)
  else if headmsg i a.core ≠ .null then
    let a := a.setTcb r fun tcb => { tcb with ercd := .ok }
    .ok (a.setCore (dequeueMsg i ppkMsg), .er .ok)
  else
    let a := a.setTcb r fun tcb => { tcb with ercd := .tmout }
    if tmout ≠ tmoPol then
      let a := a.setTcb r fun tcb => { tcb with waitinfo := .mbx ppkMsg }
      .ok ((a.objWait r (.mbx i) tmout).dispatch, .blocked)
    else .ok (a, .er .tmout)

def refMbx (mbxid : Int) (a : Model cfg) : Outcome cfg :=
  if badMbxid cfg mbxid then .ok (a, .er .id) else do
  let i ← getMbxcb mbxid
  if (a.core.mbxcb i).obj.state = .noexs then .ok (a, .er .noexs) else
  .ok (a, .rmbx (waitTskid (.mbx i) a) (headmsg i a.core))

def delMbx (mbxid : Int) (a : Model cfg) : Outcome cfg :=
  if badMbxid cfg mbxid then .ok (a, .er .id) else do
  let i ← getMbxcb mbxid
  if (a.core.mbxcb i).obj.state = .noexs then .ok (a, .er .noexs) else
  let a := (a.releaseAll (.mbx i)).setCore (Core.setMbxcb i fun cb =>
    { cb with obj := { cb.obj with state := .noexs } })
  .ok ((a.setCore (setNextmsg (.mqHead i) .null)).dispatch, .er .ok)

/-! ## The tick -/

/-- One more tick for the running task, or for nobody. -/
def Model.account (a : Model cfg) : Model cfg :=
  let a := a.setCore fun c =>
    { c with telemetryWallTicks := c.telemetryWallTicks + 1 }
  match a.runtsk with
  | some t => a.setTcb t fun tcb => { tcb with runTicks := tcb.runTicks + 1 }
  | none => a.setCore fun c => { c with telemetryIdleTicks := c.telemetryIdleTicks + 1 }

/-- One tick less for the waiting task `t`, and none left ends its wait. -/
def Model.tickOne (t : TskIx cfg) (a : Model cfg) : Model cfg :=
  let a := a.setTcb t fun tcb =>
    { tcb with wtmeb := { tcb.wtmeb with count := tcb.wtmeb.count - 1 } }
  if (a.core.tcb t).wtmeb.count = 0 then a.endWait t else a

def Model.tick (a : Model cfg) : Model cfg :=
  (a.queue .timer).foldl (fun a t => a.tickOne t) a

def timerHandler (a : Model cfg) : Model cfg :=
  ((a.setCore fun c => (timerHwEnter c).2).account.tick).setCore timerHwExit

/-! ## All steps -/

def exec : Call cfg → Model cfg → Outcome cfg
  | .creTsk tskid pk, a => creTsk tskid pk a
  | .acreTsk pk, a => acreTsk pk a
  | .delTsk tskid, a => delTsk tskid a
  | .actTsk tskid, a => dispatchIfOk (_actTsk tskid a)
  | .iactTsk tskid, a => _actTsk tskid a
  | .chgPri tskid tskpri, a => chgPri tskid tskpri a
  | .rotRdq tskpri, a => rotRdq tskpri a
  | .extTsk, a => extTsk a
  | .dlyTsk dlytim, a => dlyTsk dlytim a
  | .susTsk tskid, a => susTsk tskid a
  | .rsmTsk tskid, a => rsmTsk tskid a
  | .slpTsk, a => _slpTsk tmoFevr a
  | .tslpTsk tmout, a => _slpTsk tmout a
  | .wupTsk tskid, a => dispatchIfOk (_wupTsk tskid a)
  | .iwupTsk tskid, a => _wupTsk tskid a
  | .canWup tskid, a => canWup tskid a
  | .creSem semid pk, a => creSem semid pk a
  | .acreSem pk, a => acreSem pk a
  | .waiSem semid, a => _waiSem semid tmoFevr a
  | .twaiSem semid tmout, a => _waiSem semid tmout a
  | .polSem semid, a => _waiSem semid tmoPol a
  | .sigSem semid, a => dispatchAll (_sigSem semid a)
  | .isigSem semid, a => _sigSem semid a
  | .delSem semid, a => delSem semid a
  | .refSem semid, a => refSem semid a
  | .creFlg flgid pk, a => creFlg flgid pk a
  | .acreFlg pk, a => acreFlg pk a
  | .setFlg flgid setptn, a => dispatchAll (_setFlg flgid setptn a)
  | .isetFlg flgid setptn, a => _setFlg flgid setptn a
  | .clrFlg flgid clrptn, a => clrFlg flgid clrptn a
  | .waiFlg flgid waiptn wfmode p, a => _waiFlg flgid waiptn wfmode p tmoFevr a
  | .twaiFlg flgid waiptn wfmode p tmout, a => _waiFlg flgid waiptn wfmode p tmout a
  | .polFlg flgid waiptn wfmode p, a => _waiFlg flgid waiptn wfmode p tmoPol a
  | .refFlg flgid, a => refFlg flgid a
  | .delFlg flgid, a => delFlg flgid a
  | .creMbx mbxid pk, a => creMbx mbxid pk a
  | .acreMbx pk, a => acreMbx pk a
  | .sndMbx mbxid m, a => dispatchAll (_sndMbx mbxid m a)
  | .rcvMbx mbxid p, a => _rcvMbx mbxid p tmoFevr a
  | .trcvMbx mbxid p tmout, a => _rcvMbx mbxid p tmout a
  | .prcvMbx mbxid p, a => _rcvMbx mbxid p tmoPol a
  | .refMbx mbxid, a => refMbx mbxid a
  | .delMbx mbxid, a => delMbx mbxid a
  | .timerHandler, a => .ok (timerHandler a, .none)
  | .dispatch, a => .ok (a.dispatch, .none)
  | .setMsgpri m pri, a =>
    .ok (a.setCore fun c => { c with msgpri := Function.update c.msgpri m pri }, .none)

end Ittrium.Spec
