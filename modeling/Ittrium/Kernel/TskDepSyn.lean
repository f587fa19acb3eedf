import Ittrium.Kernel.TskManage

/-!
# `tsk_dep_syn.c`

Sleeping, delays, wake-up requests, suspension.
-/

namespace Ittrium

open Infra

variable {cfg : Config}

/-- The argument is a `RELTIM` that `make_wait` takes as a `TMO`. -/
def dlyTsk (dlytim : RELTIM) (s : Kernel cfg) : Outcome cfg := do
  let r ← runTcb s
  let s := s.setTcb r fun tcb => { tcb with ercd := .ok, waitObj := none, tskwait := .dly }
  let s := makeWait r (dlytim.setWidth 16) s
  let s := s.setLinks (kqueueInit (.qnode r))
  .ok (dispatch s, .blocked)

def susTsk (tskid : Int) (s : Kernel cfg) : Outcome cfg :=
  if badTskid tskid s then .ok (s, .er .id) else do
  let t ← getTcbSelf tskid s
  if (s.core.tcb t).state = .noexs then .ok (dispatch s, .er .noexs)
  else if (s.core.tcb t).state = .dmt then .ok (dispatch s, .er .obj)
  else if (cfg.tmaxActcnt : Int) = (s.core.tcb t).suscnt then .ok (dispatch s, .er .qovr)
  else
    let s := s.setTcb t fun tcb => { tcb with suscnt := tcb.suscnt + 1 }
    let s :=
      if (s.core.tcb t).state = .run ∨ (s.core.tcb t).state = .rdy then
        taskMakeUnready t (s.setTcb t fun tcb => { tcb with state := .sus })
      else s.setTcb t fun tcb => { tcb with state := .was }
    .ok (dispatch s, .er .ok)

def rsmTsk (tskid : Int) (s : Kernel cfg) : Outcome cfg :=
  if badTskid tskid s then .ok (s, .er .id) else do
  let t ← getTcbSelf tskid s
  if (s.core.tcb t).state = .noexs then .ok (dispatch s, .er .noexs)
  else if (s.core.tcb t).state ≠ .sus ∧ (s.core.tcb t).state ≠ .was then
    .ok (dispatch s, .er .obj)
  else
    let s := s.setTcb t fun tcb => { tcb with suscnt := tcb.suscnt - 1 }
    let s :=
      if (s.core.tcb t).suscnt = 0 then
        if (s.core.tcb t).state = .was then s.setTcb t fun tcb => { tcb with state := .wai }
        else taskMakeReady t s
      else s
    .ok (dispatch s, .er .ok)

def _slpTsk (tmout : TMO) (s : Kernel cfg) : Outcome cfg := do
  let r ← runTcb s
  if (s.core.tcb r).wupcnt > 0 then
    let s := s.setTcb r fun tcb => { tcb with wupcnt := tcb.wupcnt - 1, ercd := .ok }
    .ok (dispatch s, .er .ok)
  else
    let s := s.setTcb r fun tcb => { tcb with ercd := .tmout }
    if tmoPol ≠ tmout then
      let s := s.setTcb r fun tcb => { tcb with waitObj := none, tskwait := .slp }
      let s := makeWait r tmout s
      let s := s.setLinks (kqueueInit (.qnode r))
      .ok (dispatch s, .blocked)
    else .ok (dispatch s, .er .tmout)

def slpTsk (s : Kernel cfg) : Outcome cfg := _slpTsk tmoFevr s

def tslpTsk (tmout : TMO) (s : Kernel cfg) : Outcome cfg := _slpTsk tmout s

def _wupTsk (tskid : Int) (s : Kernel cfg) : Outcome cfg :=
  if badTskid tskid s then .ok (s, .er .id) else do
  let t ← getTcbSelf tskid s
  if (s.core.tcb t).state = .noexs then .ok (s, .er .noexs)
  else if (s.core.tcb t).state = .dmt then .ok (s, .er .obj)
  else if (s.core.tcb t).state.waiting ∧ (s.core.tcb t).tskwait = .slp then
    .ok (waitReleaseOk t s, .er .ok)
  else if (s.core.tcb t).wupcnt ≥ cfg.tmaxActcnt then .ok (s, .er .qovr)
  else .ok (s.setTcb t fun tcb => { tcb with wupcnt := tcb.wupcnt + 1 }, .er .ok)

def wupTsk (tskid : Int) (s : Kernel cfg) : Outcome cfg := dispatchIfOk (_wupTsk tskid s)

def iwupTsk (tskid : Int) (s : Kernel cfg) : Outcome cfg := _wupTsk tskid s

def canWup (tskid : Int) (s : Kernel cfg) : Outcome cfg :=
  if badTskid tskid s then .ok (s, .er .id) else do
  let t ← getTcbSelf tskid s
  if (s.core.tcb t).state = .noexs then .ok (s, .er .noexs)
  else if (s.core.tcb t).state = .dmt then .ok (s, .er .obj)
  else .ok (s.setTcb t fun tcb => { tcb with wupcnt := 0 }, .wupcnt (s.core.tcb t).wupcnt)

end Ittrium
