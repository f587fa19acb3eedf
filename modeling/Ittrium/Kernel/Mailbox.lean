import Ittrium.Kernel.TskDepSyn

/-!
# `mailbox.c`

The message queue is a chain through the link words of the messages, from `mq_head` to a null
pointer. `mq_tail` means something only while the chain is not empty.
-/

namespace Ittrium

open Infra

variable {cfg : Config}

structure TCmbx where
  mbxatr : ATR
  deriving DecidableEq

def badMbxid (cfg : Config) (mbxid : Int) : Bool :=
  mbxid < 1 || mbxid > cfg.tmaxMbxid + cfg.trsvMbxid

def getMbxcb (mbxid : Int) : Exec (MbxIx cfg) := entryOf cfg.tnumMbxid mbxid

def mailboxInitialize (s : Kernel cfg) : Kernel cfg :=
  (List.finRange cfg.tnumMbxid).foldl (fun s i =>
    (s.setCore (Core.setMbxcb i fun cb => { cb with obj := { cb.obj with state := .noexs } })).setLinks
      (kqueueInit (.waitq (.mbx i)))) s

/-! ## The message queue -/

/-- `headmsg(mbxcb)`. -/
def headmsg (i : MbxIx cfg) (c : Core cfg) : MsgPtr cfg := c.msgque (.mqHead i)

/-- `nextmsg(msg) = v`. -/
def setNextmsg (msg v : MsgPtr cfg) (c : Core cfg) : Core cfg :=
  { c with msgque := Function.update c.msgque msg v }

/-- The search of `kqueue_insert_mpri`, at most `n` rounds. Returns `prevmsg` and `msg`. -/
def kqueueInsertMpriLoop (pri : Int) (c : Core cfg) :
    Nat → MsgPtr cfg → Exec (MsgPtr cfg × MsgPtr cfg)
  | 0, _ => .error .diverge
  | n + 1, prevmsg =>
    match c.msgque prevmsg with
    | .null => .ok (prevmsg, .null)
    | .pkt m =>
      if c.msgpri m > pri then .ok (prevmsg, .pkt m) else kqueueInsertMpriLoop pri c n (.pkt m)
    | .mqHead _ => .error .badPointer

/-- A chain without a cycle passes each packet once, so the search ends within `nmsg + 1` rounds. -/
def kqueueInsertMpri (m : Fin cfg.nmsg) (head : MsgPtr cfg) (c : Core cfg) : Exec (Core cfg) := do
  let (prevmsg, msg) ← kqueueInsertMpriLoop (c.msgpri m) c (cfg.nmsg + 1) head
  .ok (setNextmsg prevmsg (.pkt m) (setNextmsg (.pkt m) msg c))

/-- "Connect to end of queue". -/
def appendMsg (m : Fin cfg.nmsg) (i : MbxIx cfg) (c : Core cfg) : Core cfg :=
  let c := setNextmsg (.pkt m) .null c
  let c :=
    if headmsg i c = .null then setNextmsg (.mqHead i) (.pkt m) c
    else setNextmsg (c.mbxcb i).mqTail (.pkt m) c
  c.setMbxcb i fun cb => { cb with mqTail := .pkt m }

/-- "Connect message to queue": by priority or at the end. -/
def enqueueMsg (m : Fin cfg.nmsg) (i : MbxIx cfg) (c : Core cfg) : Exec (Core cfg) :=
  if (c.mbxcb i).obj.objatr &&& taMpri ≠ 0 then kqueueInsertMpri m (.mqHead i) c
  else .ok (appendMsg m i c)

/-- "Get message from head of queue". -/
def dequeueMsg (i : MbxIx cfg) (ppkMsg : VP) (c : Core cfg) : Core cfg :=
  let msg := headmsg i c
  let c := { c with msgvar := Function.update c.msgvar ppkMsg msg }
  setNextmsg (.mqHead i) (c.msgque msg) c

/-! ## Service calls -/

def _creMbx (mbxid : Int) (pk : TCmbx) (s : Kernel cfg) : Outcome cfg :=
  if pk.mbxatr ≠ pk.mbxatr &&& ((taTfifo ||| taTpri) ||| (taMfifo ||| taMpri)) then
    .ok (s, .er .rsatr)
  else do
  let i ← getMbxcb mbxid
  if (s.core.mbxcb i).obj.state ≠ .noexs then .ok (s, .er .obj) else
  let s := s.setLinks (kqueueInit (.waitq (.mbx i)))
  let s := s.setCore (Core.setMbxcb i fun cb =>
    { cb with obj := { objatr := pk.mbxatr, state := .rdy } })
  .ok (s.setCore (setNextmsg (.mqHead i) .null), .er .ok)

def creMbx (mbxid : Int) (pk : TCmbx) (s : Kernel cfg) : Outcome cfg :=
  if badMbxid cfg mbxid then .ok (s, .er .id) else _creMbx mbxid pk s

def acreMbxLoop (pk : TCmbx) (s : Kernel cfg) : Nat → Int → Outcome cfg
  | 0, _ => .ok (s, .er .noid)
  | n + 1, i => do
    let k : MbxIx cfg ← getMbxcb i
    if (s.core.mbxcb k).obj.state = .noexs then do
      let (s, r) ← _creMbx i pk s
      .ok (s, if r = .er .ok then .newId i else r)
    else acreMbxLoop pk s n (i + 1)

def acreMbx (pk : TCmbx) (s : Kernel cfg) : Outcome cfg :=
  acreMbxLoop pk s cfg.trsvMbxid (cfg.tmaxMbxid + 1)

def _sndMbx (mbxid : Int) (m : Fin cfg.nmsg) (s : Kernel cfg) : Outcome cfg :=
  if badMbxid cfg mbxid then .ok (s, .er .id) else do
  let i ← getMbxcb mbxid
  if (s.core.mbxcb i).obj.state = .noexs then .ok (s, .er .noexs) else do
  if (s.core.mbxcb i).obj.objatr &&& taMpri ≠ 0 ∧ s.core.msgpri m ≤ 0 then .ok (s, .er .par) else do
  if !kqueueEmpty (.waitq (.mbx i)) s.links then do
    let t ← tcbOf (s.links.next (.waitq (.mbx i)))
    let s := s.setCore fun c =>
      { c with msgvar := Function.update c.msgvar (c.tcb t).waitinfo.ppkMsg (.pkt m) }
    .ok (waitReleaseOk t s, .er .ok)
  else do
    let c ← enqueueMsg m i s.core
    .ok ({ s with core := c }, .er .ok)

def sndMbx (mbxid : Int) (m : Fin cfg.nmsg) (s : Kernel cfg) : Outcome cfg := do
  let (s, r) ← _sndMbx mbxid m s
  .ok (dispatch s, r)

def _rcvMbx (mbxid : Int) (ppkMsg : VP) (tmout : TMO) (s : Kernel cfg) : Outcome cfg :=
  if badMbxid cfg mbxid then .ok (s, .er .id) else do
  if tmout.toInt < tmoFevr.toInt then .ok (s, .er .par) else do
  let i ← getMbxcb mbxid
  let r ← runTcb s
  if (s.core.mbxcb i).obj.state = .noexs then
    .ok (s.setTcb r fun tcb => { tcb with ercd := .noexs }, .er .noexs)
  else if headmsg i s.core ≠ .null then
    let s := s.setTcb r fun tcb => { tcb with ercd := .ok }
    .ok (s.setCore (dequeueMsg i ppkMsg), .er .ok)
  else
    let s := s.setTcb r fun tcb => { tcb with ercd := .tmout }
    if tmout ≠ tmoPol then do
      let s := s.setTcb r fun tcb => { tcb with waitinfo := .mbx ppkMsg }
      let s ← objMakeWait r (.mbx i) tmout s
      .ok (dispatch s, .blocked)
    else .ok (s, .er .tmout)

def rcvMbx (mbxid : Int) (ppkMsg : VP) (s : Kernel cfg) : Outcome cfg :=
  _rcvMbx mbxid ppkMsg tmoFevr s

def prcvMbx (mbxid : Int) (ppkMsg : VP) (s : Kernel cfg) : Outcome cfg :=
  _rcvMbx mbxid ppkMsg tmoPol s

def trcvMbx (mbxid : Int) (ppkMsg : VP) (tmout : TMO) (s : Kernel cfg) : Outcome cfg :=
  _rcvMbx mbxid ppkMsg tmout s

def refMbx (mbxid : Int) (s : Kernel cfg) : Outcome cfg :=
  if badMbxid cfg mbxid then .ok (s, .er .id) else do
  let i ← getMbxcb mbxid
  if (s.core.mbxcb i).obj.state = .noexs then .ok (s, .er .noexs) else do
  let wtskid ← waitTskid (.waitq (.mbx i)) s
  .ok (s, .rmbx wtskid (headmsg i s.core))

def delMbx (mbxid : Int) (s : Kernel cfg) : Outcome cfg :=
  if badMbxid cfg mbxid then .ok (s, .er .id) else do
  let i ← getMbxcb mbxid
  if (s.core.mbxcb i).obj.state = .noexs then .ok (s, .er .noexs) else do
  let s ← waitDelete (.waitq (.mbx i)) s
  let s := s.setCore (Core.setMbxcb i fun cb => { cb with obj := { cb.obj with state := .noexs } })
  let s := s.setCore (setNextmsg (.mqHead i) .null)
  .ok (dispatch s, .er .ok)

end Ittrium
