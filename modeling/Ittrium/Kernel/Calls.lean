import Ittrium.Kernel.Semaphore
import Ittrium.Kernel.Eventflags
import Ittrium.Kernel.Mailbox

/-!
# The kernel as a transition system

A step is one service call, one tick, one dispatch at the end of an interrupt, or a write of
the application to the priority field of a message. `main` initializes the kernel over arbitrary
memory contents.
-/

namespace Ittrium

open Infra

variable {cfg : Config}

/-- The service calls with their arguments, and the steps that are no calls. -/
inductive Call (cfg : Config) where
  | creTsk (tskid : Int) (pk : TCtsk)
  | acreTsk (pk : TCtsk)
  | delTsk (tskid : Int)
  | actTsk (tskid : Int)
  | iactTsk (tskid : Int)
  | chgPri (tskid : Int) (tskpri : Int)
  | rotRdq (tskpri : Int)
  | extTsk
  | dlyTsk (dlytim : RELTIM)
  | susTsk (tskid : Int)
  | rsmTsk (tskid : Int)
  | slpTsk
  | tslpTsk (tmout : TMO)
  | wupTsk (tskid : Int)
  | iwupTsk (tskid : Int)
  | canWup (tskid : Int)
  | creSem (semid : Int) (pk : TCsem)
  | acreSem (pk : TCsem)
  | waiSem (semid : Int)
  | twaiSem (semid : Int) (tmout : TMO)
  | polSem (semid : Int)
  | sigSem (semid : Int)
  | isigSem (semid : Int)
  | delSem (semid : Int)
  | refSem (semid : Int)
  | creFlg (flgid : Int) (pk : TCflg)
  | acreFlg (pk : TCflg)
  | setFlg (flgid : Int) (setptn : FLGPTN)
  | isetFlg (flgid : Int) (setptn : FLGPTN)
  | clrFlg (flgid : Int) (clrptn : FLGPTN)
  | waiFlg (flgid : Int) (waiptn : FLGPTN) (wfmode : MODE) (pFlgptn : VP)
  | twaiFlg (flgid : Int) (waiptn : FLGPTN) (wfmode : MODE) (pFlgptn : VP) (tmout : TMO)
  | polFlg (flgid : Int) (waiptn : FLGPTN) (wfmode : MODE) (pFlgptn : VP)
  | refFlg (flgid : Int)
  | delFlg (flgid : Int)
  | creMbx (mbxid : Int) (pk : TCmbx)
  | acreMbx (pk : TCmbx)
  | sndMbx (mbxid : Int) (pkMsg : Fin cfg.nmsg)
  | rcvMbx (mbxid : Int) (ppkMsg : VP)
  | trcvMbx (mbxid : Int) (ppkMsg : VP) (tmout : TMO)
  | prcvMbx (mbxid : Int) (ppkMsg : VP)
  | refMbx (mbxid : Int)
  | delMbx (mbxid : Int)
  | timerHandler
  | dispatch
  /-- The application sets the `msgpri` of a packet. -/
  | setMsgpri (m : Fin cfg.nmsg) (pri : Int)
  deriving DecidableEq

/-- What a step does. An error means that the step has no defined outcome. -/
def exec : Call cfg → Kernel cfg → Outcome cfg
  | .creTsk tskid pk, s => creTsk tskid pk s
  | .acreTsk pk, s => acreTsk pk s
  | .delTsk tskid, s => delTsk tskid s
  | .actTsk tskid, s => actTsk tskid s
  | .iactTsk tskid, s => iactTsk tskid s
  | .chgPri tskid tskpri, s => chgPri tskid tskpri s
  | .rotRdq tskpri, s => rotRdq tskpri s
  | .extTsk, s => extTsk s
  | .dlyTsk dlytim, s => dlyTsk dlytim s
  | .susTsk tskid, s => susTsk tskid s
  | .rsmTsk tskid, s => rsmTsk tskid s
  | .slpTsk, s => slpTsk s
  | .tslpTsk tmout, s => tslpTsk tmout s
  | .wupTsk tskid, s => wupTsk tskid s
  | .iwupTsk tskid, s => iwupTsk tskid s
  | .canWup tskid, s => canWup tskid s
  | .creSem semid pk, s => creSem semid pk s
  | .acreSem pk, s => acreSem pk s
  | .waiSem semid, s => waiSem semid s
  | .twaiSem semid tmout, s => twaiSem semid tmout s
  | .polSem semid, s => polSem semid s
  | .sigSem semid, s => sigSem semid s
  | .isigSem semid, s => isigSem semid s
  | .delSem semid, s => delSem semid s
  | .refSem semid, s => refSem semid s
  | .creFlg flgid pk, s => creFlg flgid pk s
  | .acreFlg pk, s => acreFlg pk s
  | .setFlg flgid setptn, s => setFlg flgid setptn s
  | .isetFlg flgid setptn, s => isetFlg flgid setptn s
  | .clrFlg flgid clrptn, s => clrFlg flgid clrptn s
  | .waiFlg flgid waiptn wfmode p, s => waiFlg flgid waiptn wfmode p s
  | .twaiFlg flgid waiptn wfmode p tmout, s => twaiFlg flgid waiptn wfmode p tmout s
  | .polFlg flgid waiptn wfmode p, s => polFlg flgid waiptn wfmode p s
  | .refFlg flgid, s => refFlg flgid s
  | .delFlg flgid, s => delFlg flgid s
  | .creMbx mbxid pk, s => creMbx mbxid pk s
  | .acreMbx pk, s => acreMbx pk s
  | .sndMbx mbxid m, s => sndMbx mbxid m s
  | .rcvMbx mbxid p, s => rcvMbx mbxid p s
  | .trcvMbx mbxid p tmout, s => trcvMbx mbxid p tmout s
  | .prcvMbx mbxid p, s => prcvMbx mbxid p s
  | .refMbx mbxid, s => refMbx mbxid s
  | .delMbx mbxid, s => delMbx mbxid s
  | .timerHandler, s => do
    let s ← timerHandler s
    .ok (s, .none)
  | .dispatch, s => .ok (dispatch s, .none)
  | .setMsgpri m pri, s =>
    .ok (s.setCore fun c => { c with msgpri := Function.update c.msgpri m pri }, .none)

/-- The initializations of `main`, over whatever the memory holds. -/
def boot (s : Kernel cfg) : Kernel cfg :=
  mailboxInitialize (semaphoreInitialize (eventflagInitialize (timerInitialize (taskInitialize s))))

end Ittrium
