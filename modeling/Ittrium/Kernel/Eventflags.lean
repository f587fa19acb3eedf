import Ittrium.Kernel.TskDepSyn

/-!
# `eventflags.c`
-/

namespace Ittrium

open Infra

variable {cfg : Config}

structure TCflg where
  flgatr : ATR
  iflgptn : FLGPTN
  deriving DecidableEq

def badFlgid (cfg : Config) (flgid : Int) : Bool :=
  flgid < 1 || flgid > cfg.tmaxFlgid + cfg.trsvFlgid

def getFlgcb (flgid : Int) : Exec (FlgIx cfg) := entryOf cfg.tnumFlgid flgid

def eventflagInitialize (s : Kernel cfg) : Kernel cfg :=
  (List.finRange cfg.tnumFlgid).foldl (fun s i =>
    (s.setCore (Core.setFlgcb i fun cb => { cb with obj := { cb.obj with state := .noexs } })).setLinks
      (kqueueInit (.waitq (.flg i)))) s

def eventflagCond (flgcb : FLGCB) (waiptn : FLGPTN) (wfmode : MODE) : Bool :=
  if wfmode &&& twfOrw ≠ 0 then flgcb.flgptn &&& waiptn ≠ 0
  else flgcb.flgptn &&& waiptn = waiptn

def clearFlgptn (flgcb : FLGCB) : FLGCB :=
  if flgcb.obj.objatr &&& taClr ≠ 0 then { flgcb with flgptn := 0 } else flgcb

def _creFlg (flgid : Int) (pk : TCflg) (s : Kernel cfg) : Outcome cfg :=
  if pk.flgatr ≠ pk.flgatr &&& ((taTfifo ||| taTpri) ||| (taWsgl ||| taWmul) ||| taClr) then
    .ok (s, .er .rsatr)
  else do
  let i ← getFlgcb flgid
  if (s.core.flgcb i).obj.state ≠ .noexs then .ok (s, .er .obj) else
  let s := s.setLinks (kqueueInit (.waitq (.flg i)))
  let s := s.setCore (Core.setFlgcb i fun _ =>
    { obj := { objatr := pk.flgatr, state := .rdy }, flgptn := pk.iflgptn })
  .ok (s, .er .ok)

def creFlg (flgid : Int) (pk : TCflg) (s : Kernel cfg) : Outcome cfg :=
  if badFlgid cfg flgid then .ok (s, .er .id) else _creFlg flgid pk s

def acreFlgLoop (pk : TCflg) (s : Kernel cfg) : Nat → Int → Outcome cfg
  | 0, _ => .ok (s, .er .noid)
  | n + 1, i => do
    let k : FlgIx cfg ← getFlgcb i
    if (s.core.flgcb k).obj.state = .noexs then do
      let (s, r) ← _creFlg i pk s
      .ok (s, if r = .er .ok then .newId i else r)
    else acreFlgLoop pk s n (i + 1)

def acreFlg (pk : TCflg) (s : Kernel cfg) : Outcome cfg :=
  acreFlgLoop pk s cfg.trsvFlgid (cfg.tmaxFlgid + 1)

/-- The walk of `_set_flg`. The next entry is read before the current one is released. -/
def setFlgLoop (i : FlgIx cfg) : Nat → Node cfg → Kernel cfg → Exec (Kernel cfg)
  | 0, _, _ => .error .diverge
  | n + 1, queue, s =>
    if queue = .waitq (.flg i) then .ok s else do
    let t ← tcbOf queue
    let next := s.links.next queue
    let w := (s.core.tcb t).waitinfo
    if eventflagCond (s.core.flgcb i) w.waiptn w.wfmode then
      let s := s.setCore fun c =>
        { c with flgvar := Function.update c.flgvar w.pFlgptn (c.flgcb i).flgptn }
      let s := waitReleaseOk t s
      let s := s.setCore (Core.setFlgcb i clearFlgptn)
      setFlgLoop i n next s
    else setFlgLoop i n next s

def _setFlg (flgid : Int) (setptn : FLGPTN) (s : Kernel cfg) : Outcome cfg :=
  if badFlgid cfg flgid then .ok (s, .er .id) else do
  let i ← getFlgcb flgid
  if (s.core.flgcb i).obj.state = .noexs then .ok (s, .er .noexs) else do
  let s := s.setCore (Core.setFlgcb i fun cb => { cb with flgptn := cb.flgptn ||| setptn })
  let s ← setFlgLoop i (cfg.tnumTskid + 1) (s.links.next (.waitq (.flg i))) s
  .ok (s, .er .ok)

def isetFlg (flgid : Int) (setptn : FLGPTN) (s : Kernel cfg) : Outcome cfg :=
  _setFlg flgid setptn s

def setFlg (flgid : Int) (setptn : FLGPTN) (s : Kernel cfg) : Outcome cfg := do
  let (s, r) ← _setFlg flgid setptn s
  .ok (dispatch s, r)

def clrFlg (flgid : Int) (clrptn : FLGPTN) (s : Kernel cfg) : Outcome cfg :=
  if badFlgid cfg flgid then .ok (s, .er .id) else do
  let i ← getFlgcb flgid
  if (s.core.flgcb i).obj.state = .noexs then .ok (s, .er .noexs) else
  .ok (s.setCore (Core.setFlgcb i fun cb => { cb with flgptn := cb.flgptn &&& clrptn }), .er .ok)

def _waiFlg (flgid : Int) (waiptn : FLGPTN) (wfmode : MODE) (pFlgptn : VP) (tmout : TMO)
    (s : Kernel cfg) : Outcome cfg :=
  if badFlgid cfg flgid then .ok (s, .er .id) else do
  if (wfmode ≠ twfAndw ∧ wfmode ≠ twfOrw) ∨ 0 = waiptn then .ok (s, .er .par) else do
  let i ← getFlgcb flgid
  let r ← runTcb s
  if (s.core.flgcb i).obj.state = .noexs then
    .ok (s.setTcb r fun tcb => { tcb with ercd := .noexs }, .er .noexs)
  else if (s.core.flgcb i).obj.objatr &&& taWsgl ≠ 0 ∧ !kqueueEmpty (.waitq (.flg i)) s.links then
    .ok (s.setTcb r fun tcb => { tcb with ercd := .ilUse }, .er .ilUse)
  else if eventflagCond (s.core.flgcb i) waiptn wfmode then
    let s := s.setTcb r fun tcb => { tcb with ercd := .ok }
    let s := s.setCore fun c =>
      { c with flgvar := Function.update c.flgvar pFlgptn (c.flgcb i).flgptn }
    .ok (s.setCore (Core.setFlgcb i clearFlgptn), .er .ok)
  else
    let s := s.setTcb r fun tcb => { tcb with ercd := .tmout }
    if tmoPol ≠ tmout then do
      let s := s.setTcb r fun tcb => { tcb with waitinfo := .flg waiptn wfmode pFlgptn }
      let s ← objMakeWait r (.flg i) tmout s
      .ok (dispatch s, .blocked)
    else .ok (s, .er .tmout)

def waiFlg (flgid : Int) (waiptn : FLGPTN) (wfmode : MODE) (pFlgptn : VP) (s : Kernel cfg) :
    Outcome cfg :=
  _waiFlg flgid waiptn wfmode pFlgptn tmoFevr s

def twaiFlg (flgid : Int) (waiptn : FLGPTN) (wfmode : MODE) (pFlgptn : VP) (tmout : TMO)
    (s : Kernel cfg) : Outcome cfg :=
  _waiFlg flgid waiptn wfmode pFlgptn tmout s

def polFlg (flgid : Int) (waiptn : FLGPTN) (wfmode : MODE) (pFlgptn : VP) (s : Kernel cfg) :
    Outcome cfg :=
  _waiFlg flgid waiptn wfmode pFlgptn tmoPol s

def refFlg (flgid : Int) (s : Kernel cfg) : Outcome cfg :=
  if badFlgid cfg flgid then .ok (s, .er .id) else do
  let i ← getFlgcb flgid
  if (s.core.flgcb i).obj.state = .noexs then .ok (s, .er .noexs) else do
  let wtskid ← waitTskid (.waitq (.flg i)) s
  .ok (s, .rflg wtskid (s.core.flgcb i).flgptn)

def delFlg (flgid : Int) (s : Kernel cfg) : Outcome cfg :=
  if badFlgid cfg flgid then .ok (s, .er .id) else do
  let i ← getFlgcb flgid
  if (s.core.flgcb i).obj.state = .noexs then .ok (s, .er .noexs) else do
  let s ← waitDelete (.waitq (.flg i)) s
  let s := s.setCore (Core.setFlgcb i fun cb =>
    { cb with obj := { cb.obj with state := .noexs }, flgptn := 0 })
  .ok (dispatch s, .er .ok)

end Ittrium
