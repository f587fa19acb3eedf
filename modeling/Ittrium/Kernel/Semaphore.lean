import Ittrium.Kernel.TskDepSyn

/-!
# `semaphore.c`

The `waitq` of a semaphore that does not exist is an entry of `free_semcb`.
-/

namespace Ittrium

open Infra

variable {cfg : Config}

structure TCsem where
  sematr : ATR
  isemcnt : UINT
  maxsem : UINT
  deriving DecidableEq

def badSemid (cfg : Config) (semid : Int) : Bool :=
  semid < 1 || semid > cfg.tmaxSemid + cfg.trsvSemid

def getSemcb (semid : Int) : Exec (SemIx cfg) := entryOf cfg.tnumSemid semid

def semaphoreInitialize (s : Kernel cfg) : Kernel cfg :=
  (List.finRange cfg.tnumSemid).foldl (fun s i =>
    (s.setCore (Core.setSemcb i fun cb => { cb with obj := { cb.obj with state := .noexs } })).setLinks
      (kqueueInsert (.waitq (.sem i)) .freeSemcb)) (s.setLinks (kqueueInit .freeSemcb))

def _creSem (semid : Int) (pk : TCsem) (s : Kernel cfg) : Outcome cfg :=
  if pk.sematr &&& (taTfifo ||| taTpri) ≠ pk.sematr then .ok (s, .er .rsatr) else do
  if cfg.tmaxMaxsem < pk.maxsem.toNat ∨ cfg.tmaxMaxsem < pk.isemcnt.toNat then
    .ok (s, .er .par)
  else do
  let i ← getSemcb semid
  if (s.core.semcb i).obj.state ≠ .noexs then .ok (s, .er .obj) else
  let s := s.setLinks (kqueueRemove (.waitq (.sem i)))
  let s := s.setLinks (kqueueInit (.waitq (.sem i)))
  let s := s.setCore (Core.setSemcb i fun _ =>
    { obj := { objatr := pk.sematr, state := .rdy }
      semcnt := pk.isemcnt.toInt
      maxsem := pk.maxsem.toInt })
  .ok (s, .er .ok)

def creSem (semid : Int) (pk : TCsem) (s : Kernel cfg) : Outcome cfg :=
  if badSemid cfg semid then .ok (s, .er .id) else _creSem semid pk s

def acreSemLoop (pk : TCsem) (s : Kernel cfg) : Nat → Int → Outcome cfg
  | 0, _ => .ok (s, .er .noid)
  | n + 1, i => do
    let k : SemIx cfg ← getSemcb i
    if (s.core.semcb k).obj.state = .noexs then do
      let (s, r) ← _creSem i pk s
      .ok (s, if r = .er .ok then .newId i else r)
    else acreSemLoop pk s n (i + 1)

def acreSem (pk : TCsem) (s : Kernel cfg) : Outcome cfg :=
  acreSemLoop pk s cfg.trsvSemid (cfg.tmaxSemid + 1)

def _waiSem (semid : Int) (tmout : TMO) (s : Kernel cfg) : Outcome cfg :=
  if badSemid cfg semid then .ok (s, .er .id) else do
  let i ← getSemcb semid
  if (s.core.semcb i).obj.state = .noexs then .ok (s, .er .obj) else do
  let r ← runTcb s
  if 0 < (s.core.semcb i).semcnt then
    let s := s.setCore (Core.setSemcb i fun cb => { cb with semcnt := cb.semcnt - 1 })
    let s := s.setTcb r fun tcb => { tcb with ercd := .ok }
    .ok (dispatch s, .er .ok)
  else
    let s := s.setTcb r fun tcb => { tcb with ercd := .tmout }
    if tmoPol ≠ tmout then do
      let s ← objMakeWait r (.sem i) tmout s
      .ok (dispatch s, .blocked)
    else .ok (dispatch s, .er .tmout)

def waiSem (semid : Int) (s : Kernel cfg) : Outcome cfg := _waiSem semid tmoFevr s

def twaiSem (semid : Int) (tmout : TMO) (s : Kernel cfg) : Outcome cfg := _waiSem semid tmout s

def polSem (semid : Int) (s : Kernel cfg) : Outcome cfg := _waiSem semid tmoPol s

def _sigSem (semid : Int) (s : Kernel cfg) : Outcome cfg :=
  if badSemid cfg semid then .ok (s, .er .id) else do
  let i ← getSemcb semid
  if (s.core.semcb i).obj.state = .noexs then .ok (s, .er .obj) else do
  if !kqueueEmpty (.waitq (.sem i)) s.links then do
    let t ← tcbOf (s.links.next (.waitq (.sem i)))
    .ok (waitReleaseOk t s, .er .ok)
  else if (s.core.semcb i).semcnt ≥ (s.core.semcb i).maxsem then .ok (s, .er .qovr)
  else
    .ok (s.setCore (Core.setSemcb i fun cb => { cb with semcnt := cb.semcnt + 1 }), .er .ok)

def sigSem (semid : Int) (s : Kernel cfg) : Outcome cfg := do
  let (s, r) ← _sigSem semid s
  .ok (dispatch s, r)

def isigSem (semid : Int) (s : Kernel cfg) : Outcome cfg := _sigSem semid s

def delSem (semid : Int) (s : Kernel cfg) : Outcome cfg :=
  if badSemid cfg semid then .ok (s, .er .id) else do
  let i ← getSemcb semid
  if (s.core.semcb i).obj.state = .noexs then .ok (s, .er .noexs) else do
  let s ← waitDelete (.waitq (.sem i)) s
  let s := s.setCore (Core.setSemcb i fun cb =>
    { cb with obj := { cb.obj with state := .noexs }, semcnt := 0 })
  let s := s.setLinks (kqueueInsert (.waitq (.sem i)) .freeSemcb)
  .ok (dispatch s, .er .ok)

def refSem (semid : Int) (s : Kernel cfg) : Outcome cfg :=
  if badSemid cfg semid then .ok (s, .er .id) else do
  let i ← getSemcb semid
  if (s.core.semcb i).obj.state = .noexs then .ok (s, .er .noexs) else do
  let wtskid ← waitTskid (.waitq (.sem i)) s
  .ok (s, .rsem wtskid (BitVec.ofInt 32 (s.core.semcb i).semcnt))

end Ittrium
