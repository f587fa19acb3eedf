import Ittrium.Kernel.State
import Ittrium.Kernel.Kqueue

/-!
# `rdyq.h`

One line of tasks for each priority, a bitmap of the non-empty lines, and the most urgent of them.
`priq[TMAX_TPRI]` is the field `null` that follows the array: it reads as a null pointer.
-/

namespace Ittrium

open Infra

variable {cfg : Config}

/-- `priority >> BITMAPSHIFT`. -/
def bitmapWord (cfg : Config) (priority : Int) : Int := priority / cfg.bitmapsz

/-- `1 << (priority & (BITMAPSZ-1))`. -/
def bitmapBit (cfg : Config) (priority : Int) : UINT := 1#32 <<< (priority % cfg.bitmapsz).toNat

def rdyqBitmapSet (cfg : Config) (priority : Int) (rq : RDYQ) : RDYQ :=
  let w := bitmapWord cfg priority
  { rq with bitmap := Function.update rq.bitmap w (rq.bitmap w ||| bitmapBit cfg priority) }

def rdyqBitmapClear (cfg : Config) (priority : Int) (rq : RDYQ) : RDYQ :=
  let w := bitmapWord cfg priority
  { rq with bitmap := Function.update rq.bitmap w (rq.bitmap w &&& ~~~ bitmapBit cfg priority) }

/-- The loop of `_ffs`. It ends before the word is used up unless the word is zero. -/
def ffsLoop : Nat → UINT → Nat → Option Nat
  | 0, _, _ => none
  | n + 1, i, j => if i &&& 1 = 0 then ffsLoop n (i >>> 1) (j + 1) else some j

/-- `_ffs`. On zero the C function does not return (`rdyq_remove` calls it on no such word). -/
def ffs (i : UINT) : Option Nat := ffsLoop 32 i 0

def rdyqInit (s : Kernel cfg) : Kernel cfg :=
  { s with
    rdyq :=
      { topPriority := cfg.tmaxTpri
        bitmap := fun i => if 0 ≤ i ∧ i < cfg.numBitmap then 0 else s.rdyq.bitmap i }
    links := (List.range cfg.tmaxTpri).foldl (fun h (i : Nat) => kqueueInit (.priq i) h) s.links }

def rdyqTop (s : Kernel cfg) : Node cfg :=
  if s.rdyq.topPriority = cfg.tmaxTpri then .null else s.links.next (.priq s.rdyq.topPriority)

def rdyqTopPri (s : Kernel cfg) : Int := s.rdyq.topPriority

/-- Enqueue at the end of the task's line. `true` if it becomes top. -/
def rdyqInsert (t : TskIx cfg) (s : Kernel cfg) : Bool × Kernel cfg :=
  let priority := (s.core.tcb t).tskpri
  let s := s.setLinks (kqueueInsert (.qnode t) (.priq priority))
  let s := s.setRdyq (rdyqBitmapSet cfg priority)
  if priority < s.rdyq.topPriority then
    (true, s.setRdyq fun rq => { rq with topPriority := priority })
  else (false, s)

def rdyqInsertFront (t : TskIx cfg) (s : Kernel cfg) : Kernel cfg :=
  let priority := (s.core.tcb t).tskpri
  let s := s.setLinks fun h => kqueueInsert (.qnode t) (h.next (.priq priority)) h
  let s := s.setRdyq (rdyqBitmapSet cfg priority)
  if priority < s.rdyq.topPriority then s.setRdyq fun rq => { rq with topPriority := priority }
  else s

/-- The search for the next non-empty line, from word `i` on with `n` words left. -/
def rdyqSearch (cfg : Config) (bitmap : Int → UINT) : Nat → Int → Int
  | 0, _ => cfg.tmaxTpri
  | n + 1, i =>
    if bitmap i ≠ 0 then toShort (i * cfg.bitmapsz + (ffs (bitmap i)).getD 32)
    else rdyqSearch cfg bitmap n (i + 1)

def rdyqRemove (t : TskIx cfg) (s : Kernel cfg) : Kernel cfg :=
  let priority := (s.core.tcb t).tskpri
  let s := s.setLinks (kqueueRemove (.qnode t))
  if !kqueueEmpty (.priq priority) s.links then s else
  let s := s.setRdyq (rdyqBitmapClear cfg priority)
  if priority ≠ s.rdyq.topPriority then s else
  let i := bitmapWord cfg priority
  s.setRdyq fun rq =>
    { rq with topPriority := rdyqSearch cfg rq.bitmap (cfg.numBitmap - i).toNat i }

theorem rdyqRemove_core {t : TskIx cfg} {s : Kernel cfg} : (rdyqRemove t s).core = s.core := by
  unfold rdyqRemove
  dsimp only [Kernel.setLinks, Kernel.setRdyq]
  split
  · rfl
  · split <;> rfl

def rdyqRotate (priority : Int) (s : Kernel cfg) : Kernel cfg :=
  if !kqueueEmpty (.priq priority) s.links then
    let (entry, h) := kqueueRemoveNext (.priq priority) s.links
    { s with links := kqueueInsert entry (.priq priority) h }
  else s

end Ittrium
